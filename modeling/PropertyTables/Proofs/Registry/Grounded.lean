import PropertyTables.Proofs.Generics.Lasting
import PropertyTables.Proofs.Registry.Closed
import PropertyTables.Table.Discovery

/-! # Grounded registries

Interning hands out identities that a declaration could have mentioned before. Where none does, what
interning adds is out of the hierarchy's reach.

* `Registry.HandedOut`: identities that were all handed out. `Registry.Grounded`: all that
  declarations mention were.
* `Interns.find?_old`: interning leaves the types of these identities as they are, so that walks and
  bindings stay the same, `Interns.reaches_old` and `Interns.bindings_old`.
-/

namespace PropertyTables
set_option autoImplicit false

namespace Registry
variable {b r : Registry}

/-! ## Identities that were handed out -/

/-- Whether some identities were all handed out. -/
def HandedOut (r : Registry) (ids : List TypeId) : Prop := ∀ id ∈ ids, id.index < r.size

/-- Whether every identity that a declaration mentions was handed out. -/
def Grounded (r : Registry) : Prop := ∀ id d, r.find? id = some d → r.HandedOut d.ids

theorem grounded_iff : r.Grounded ↔
    ∀ i < r.size, ∀ id ∈ (r.find? ⟨i⟩).elim [] Declaration.ids, id.index < r.size := by
  constructor
  · intro h i _
    cases found : r.find? ⟨i⟩ with
    | none => simp
    | some d => exact h ⟨i⟩ d found
  · intro h id d found
    have all := h id.index (lt_size_of_find? found)
    rwa [found] at all

instance (r : Registry) : Decidable r.Grounded := decidable_of_iff _ grounded_iff.symm

theorem handedOut_append {as bs : List TypeId} :
    r.HandedOut (as ++ bs) ↔ r.HandedOut as ∧ r.HandedOut bs :=
  List.forall_mem_append

theorem handedOut_cons {id : TypeId} {ids : List TypeId} :
    r.HandedOut (id :: ids) ↔ id.index < r.size ∧ r.HandedOut ids :=
  List.forall_mem_cons

theorem handedOut_flatMap {α : Type} {l : List α} {ids : α → List TypeId} :
    r.HandedOut (l.flatMap ids) ↔ ∀ a ∈ l, r.HandedOut (ids a) := by
  simp only [HandedOut, List.mem_flatMap]
  constructor
  · intro h a ha id occurs
    exact h id ⟨a, ha, occurs⟩
  · rintro h id ⟨a, ha, occurs⟩
    exact h a ha id occurs

namespace Grounded
variable {id : TypeId} {d : Declaration}

theorem clauses (h : r.Grounded) (found : r.find? id = some d) :
    ∀ clause ∈ d.clauses, r.HandedOut clause.ids := by
  have all := h id d found
  simp only [Declaration.ids, handedOut_append, handedOut_flatMap] at all
  exact all.1.1.1.1.1

theorem typeParams (h : r.Grounded) (found : r.find? id = some d) :
    ∀ p ∈ d.typeParams, ∀ bound ∈ p.bounds, r.HandedOut bound.ids := by
  have all := h id d found
  simp only [Declaration.ids, handedOut_append, handedOut_flatMap] at all
  exact fun p hp => handedOut_flatMap.mp (all.1.1.1.1.2 p hp)

theorem methods (h : r.Grounded) (found : r.find? id = some d) :
    ∀ m ∈ d.methods, r.HandedOut m.ids := by
  have all := h id d found
  simp only [Declaration.ids, handedOut_append, handedOut_flatMap] at all
  exact all.1.1.1.2

theorem fields (h : r.Grounded) (found : r.find? id = some d) :
    ∀ f ∈ d.fields, r.HandedOut f.ids := by
  have all := h id d found
  simp only [Declaration.ids, handedOut_append, handedOut_flatMap] at all
  exact all.1.1.2

theorem superclass (h : r.Grounded) (found : r.find? id = some d) :
    ∀ parent ∈ d.superclass?, parent.index < r.size := by
  intro parent named
  obtain ⟨clause, written, names⟩ := Option.bind_eq_some_iff.mp named
  have listed : clause ∈ d.clauses := by simp [Declaration.clauses, written]
  exact h.clauses found clause listed parent (GenericType.raw?_mem_ids names)

theorem declaresOnly (h : r.Grounded) : r.DeclaresOnly fun t => r.HandedOut t.ids where
  args _ _ found clause written _ listed id occurs :=
    h.clauses found clause written id (GenericType.ids_of_mem_args listed id occurs)
  bounds _ _ found := h.typeParams found

theorem declaredSupertype (h : r.Grounded) {s t : TypeId} (edge : t ∈ r.supertypes s) :
    t.index < r.size := by
  obtain ⟨d, found, clause, written, names⟩ := declaredSupertype_iff.mp edge
  exact h.clauses found clause written t (GenericType.raw?_mem_ids names)

theorem boundSupertype (h : r.Grounded) {s t : BoundType} (edge : t ∈ r.boundSupertypes s) :
    t.id.index < r.size := by
  rw [boundSupertypes] at edge
  cases found : r.find? s.id with
  | none =>
    rw [found] at edge
    cases edge
  | some d =>
    rw [found] at edge
    obtain ⟨clause, written, names⟩ := List.mem_filterMap.mp edge
    obtain ⟨raw, named, rfl⟩ := Option.map_eq_some_iff.mp names
    exact h.clauses found clause written raw (GenericType.raw?_mem_ids named)

end Grounded

theorem Coherent.resolves (h : r.Coherent) :
    Resolves (fun t => r.HandedOut t.ids) fun t => r.HandedOut t.ids where
  root := by
    obtain ⟨d, found, -⟩ := h.root
    exact handedOut_cons.mpr ⟨lt_size_of_find? found, by simp [HandedOut]⟩
  subst _ _ hσ ht := GenericType.forall_ids_subst hσ ht

/-! ## Interning leaves them alone -/

section Interning
variable (interned : b.Interns r)
include interned

theorem Interns.size_le : b.size ≤ r.size := by
  obtain ⟨arrays, slots, -⟩ := interned.appends
  rw [size, size, slots, List.length_append]
  exact Nat.le_add_right _ _

theorem Interns.find?_old {id : TypeId} (old : id.index < b.size) : r.find? id = b.find? id := by
  obtain ⟨arrays, slots, -⟩ := interned.appends
  rw [find?, find?, slots, List.getElem?_append_left old]

theorem Interns.find_old {id : TypeId} (old : id.index < b.size) : r.find id = b.find id := by
  rw [find, find, interned.find?_old old]

/-- What is new is an array type, named after its component. -/
theorem Interns.new_array {id : TypeId} {d : Declaration} (new : b.size ≤ id.index)
    (found : r.find? id = some d) : ∃ component element, d.flavor = .array component ∧
      r.find? component = some element ∧ d.fullName = element.fullName ++ "[]" := by
  induction interned with
  | refl => exact absurd (lt_size_of_find? found) (Nat.not_lt.mpr new)
  | tail _ step ih =>
    obtain ⟨component, array, done⟩ := step
    have declared := (Step.internArray done).extends
    rcases internArray_eq_ok done with ⟨-, rfl⟩ | ⟨-, -, element, later, here, after⟩
    · exact ih found
    · rw [after] at found
      split at found
      · cases found
        refine ⟨component, element, rfl, declared component element here, ?_⟩
        rw [Declaration.fullName, Declaration.fullName, arrayDeclaration]
        split
        · rfl
        · exact String.append_assoc.symm
      · obtain ⟨component, element, array, here, named⟩ := ih found
        exact ⟨component, element, array, declared component element here, named⟩

theorem Interns.coherent (h : b.Coherent) : r.Coherent := by
  induction interned with
  | refl => exact h
  | tail _ step ih =>
    obtain ⟨component, id, interned⟩ := step
    exact Step.coherent (.internArray interned) ih

theorem Interns.superclass?_old {id : TypeId} (old : id.index < b.size) :
    r.superclass? id = b.superclass? id := by
  rw [superclass?, superclass?, interned.find?_old old]

theorem Interns.supertypes_old {id : TypeId} (old : id.index < b.size) :
    r.supertypes id = b.supertypes id := by
  rw [supertypes, supertypes, interned.superclass?_old old, interned.superinterfaces_eq]

theorem Interns.typeParams_old {id : TypeId} (old : id.index < b.size) :
    r.typeParams id = b.typeParams id := by
  rw [typeParams, typeParams, interned.find?_old old]

end Interning

/-! ## Walks -/

/-- Walks with the same successors are the same. -/
theorem preorder_eq_of {σ : Type} {key : σ → TypeId} {expand expand' : σ → List σ}
    {size size' : Nat} {P : σ → Prop} (same : ∀ a, P a → expand a = expand' a)
    (closed : ∀ a, P a → ∀ b ∈ expand a, P b)
    (inside : ∀ a, P a → (key a).index < size ∧ (key a).index < size') (visited : List TypeId)
    {pending : List σ} (start : ∀ a ∈ pending, P a) :
    preorder key expand size visited pending = preorder key expand' size' visited pending := by
  fun_induction preorder key expand size visited pending with
  | case1 visited => rw [preorder]
  | case2 visited s rest met ih =>
    rw [preorder_cons_visited _ met]
    exact ih (List.forall_mem_cons.mp start).2
  | case3 visited s rest fresh bound ih =>
    obtain ⟨here, rests⟩ := List.forall_mem_cons.mp start
    rw [preorder_cons_fresh _ fresh, if_pos (inside s here).2, ← same s here]
    rw [ih (List.forall_mem_append.mpr ⟨closed s here, rests⟩)]
  | case4 visited s rest fresh out ih =>
    exact absurd (inside s (List.forall_mem_cons.mp start).1).1 out

section Old
variable (grounded : b.Grounded) (interned : b.Interns r)
include grounded interned

theorem Interns.reaches_old {target source : TypeId} (old : source.index < b.size) :
    r.reaches target source = b.reaches target source := by
  have start : ∀ t ∈ [source], t.index < b.size := by simpa using old
  have above (s : TypeId) (_ : s.index < b.size) : ∀ t ∈ b.supertypes s, t.index < b.size :=
    fun _ edge => grounded.declaredSupertype edge
  have walk : preorder (fun t => t) b.supertypes b.size [] [source] =
      preorder (fun t => t) r.supertypes r.size [] [source] :=
    preorder_eq_of (fun s here => (interned.supertypes_old here).symm) above
      (fun _ here => ⟨here, Nat.lt_of_lt_of_le here interned.size_le⟩) [] start
  have among {ids : List TypeId} (all : ∀ t ∈ ids, t.index < b.size) :
      r.findAmong target ids = b.findAmong target ids := by
    induction ids with
    | nil => rfl
    | cons id rest ih =>
      obtain ⟨here, later⟩ := List.forall_mem_cons.mp all
      rw [findAmong, findAmong, interned.find_old here, ih later]
  rw [reaches, reaches, ← walk]
  exact among (preorder_forall start above)

/-- What is above an older type was above it before. -/
theorem Interns.above_old {id c : TypeId} (old : id.index < b.size)
    (path : Relation.ReflTransGen r.DeclaredSupertype id c) :
    Relation.ReflTransGen b.DeclaredSupertype id c ∧ c.index < b.size := by
  induction path with
  | refl => exact ⟨.refl, old⟩
  | tail _ edge ih =>
    obtain ⟨before, here⟩ := ih
    rw [DeclaredSupertype, interned.supertypes_old here] at edge
    exact ⟨before.tail edge, grounded.declaredSupertype edge⟩

theorem Interns.classChain_old (limit room : Nat) {start : Option TypeId}
    (old : ∀ id ∈ start, id.index < b.size) :
    r.classChain limit room start = b.classChain limit room start := by
  induction room generalizing start with
  | zero => cases start <;> rfl
  | succ room ih =>
    cases start with
    | none => rfl
    | some id =>
      rw [classChain, classChain, interned.find_old (old id rfl)]
      cases found : b.find id with
      | error fault => rfl
      | ok d =>
        have above := ih (grounded.superclass (find_eq_ok.mp found))
        show (if _ then _ else List.cons id <$> r.classChain limit room d.superclass?) =
          if _ then _ else List.cons id <$> b.classChain limit room d.superclass?
        rw [above]

/-! ## Bindings -/

theorem Interns.boundSupertypes_old {s : BoundType} (old : s.id.index < b.size) :
    r.boundSupertypes s = b.boundSupertypes s := by
  rw [boundSupertypes, boundSupertypes, interned.find?_old old]
  cases found : b.find? s.id with
  | none => rfl
  | some d =>
    refine List.filterMap_congr fun clause written => ?_
    rw [boundSupertype?, boundSupertype?]
    cases names : clause.raw? with
    | none => rfl
    | some raw =>
      have here := grounded.clauses found clause written raw (GenericType.raw?_mem_ids names)
      rw [Option.map_some, Option.map_some, clauseBindings, clauseBindings,
        interned.typeParams_old here]

theorem Interns.bindings_old {owner declaring : TypeId} (ownerOld : owner.index < b.size)
    (old : declaring.index < b.size) : r.bindings owner declaring = b.bindings owner declaring := by
  have start : ∀ n ∈ [b.unbound owner], n.id.index < b.size := by simpa [unbound] using ownerOld
  have above (n : BoundType) (_ : n.id.index < b.size) :
      ∀ n' ∈ b.boundSupertypes n, n'.id.index < b.size :=
    fun _ edge => grounded.boundSupertype edge
  have walk : preorder (·.id) b.boundSupertypes b.size [] [b.unbound owner] =
      preorder (·.id) r.boundSupertypes r.size [] [b.unbound owner] :=
    preorder_eq_of (fun n here => (interned.boundSupertypes_old grounded here).symm) above
      (fun _ here => ⟨here, Nat.lt_of_lt_of_le here interned.size_le⟩) [] start
  have first {nodes : List BoundType} (all : ∀ n ∈ nodes, n.id.index < b.size) :
      r.firstBindings declaring nodes = b.firstBindings declaring nodes := by
    induction nodes with
    | nil => rfl
    | cons n rest ih =>
      obtain ⟨here, later⟩ := List.forall_mem_cons.mp all
      rw [firstBindings, firstBindings, interned.find_old here, ih later]
  have same : r.unbound owner = b.unbound owner := by
    rw [unbound, unbound, interned.typeParams_old ownerOld]
  rw [bindings, bindings, same, ← walk, first (preorder_forall start above)]
  simp only [interned.find_old old]

end Old

/-! ## Types of members -/

section Members
variable (grounded : b.Grounded) (interned : b.Interns r) {owner : TypeId}
  (ownerOld : owner.index < b.size)
include grounded interned ownerOld

theorem Interns.methodBindings_old {m : Method} (old : m.declaring.index < b.size) :
    r.methodBindings m owner = b.methodBindings m owner := by
  rw [methodBindings, methodBindings, interned.bindings_old grounded ownerOld old]

theorem Interns.resolveReturn_old {m : Method} (old : m.declaring.index < b.size) :
    r.resolveReturn m owner = b.resolveReturn m owner := by
  rw [resolveReturn, resolveReturn, interned.methodBindings_old grounded ownerOld old]

theorem Interns.resolveParams_old {m : Method} (old : m.declaring.index < b.size) :
    r.resolveParams m owner = b.resolveParams m owner := by
  rw [resolveParams, resolveParams, interned.methodBindings_old grounded ownerOld old]

theorem Interns.resolveField_old {f : Field} (old : f.declaring.index < b.size) :
    r.resolveField f owner = b.resolveField f owner := by
  rw [resolveField, resolveField, interned.bindings_old grounded ownerOld old]

end Members

end Registry

end PropertyTables
