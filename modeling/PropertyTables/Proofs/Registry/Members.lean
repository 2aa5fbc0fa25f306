import PropertyTables.Proofs.Generics.Lasting
import PropertyTables.Proofs.Hierarchy.SuperclassChain
import PropertyTables.Table.Overloads

/-! # Registries with other members

Most of what is asked of a registry has nothing to do with the members of its types.

* `Registry.mapMembers`: the same types with other members.
* `isAssignable_mapMembers`, `bindings_mapMembers`, ...: the hierarchy, subtyping, resolution and the
  choice among overloads are the same in it.
* `Interns.mapMembers`, `Interns.of_mapMembers`: array types are interned in the one as in the other.
* `Growing.Blind`: computations that give the same and intern the same array types in it. Erasure is
  one, and so are signatures.
-/

namespace PropertyTables
set_option autoImplicit false

/-- Other members for every type. -/
abbrev MemberMap := ∀ id, Members id → Members id

theorem Members.none_methods (owner : TypeId) : ∀ m ∈ ([] : List Method), m.declaring = owner :=
  fun _ listed => absurd listed List.not_mem_nil

theorem Members.none_fields (owner : TypeId) (i : Nat) (f : Field)
    (found : ([] : List Field)[i]? = some f) : f.declaring = owner ∧ f.position = i := by
  cases found

theorem Members.none_constructors (owner : TypeId) :
    ∀ c ∈ ([] : List Constructor), c.declaring = owner :=
  fun _ listed => absurd listed List.not_mem_nil

/-- No members, as an array type has them. -/
def Members.none (owner : TypeId) : Members owner where
  methods_declaring := none_methods owner
  fields_declaring := none_fields owner
  constructors_declaring := none_constructors owner

/-- Whether no members stay none. -/
def MemberMap.KeepsNone (φ : MemberMap) : Prop := ∀ id, φ id (.none id) = .none id

/-- The declaration with other members. -/
def Declaration.mapMembers (φ : MemberMap) (d : Declaration) : Declaration :=
  { d with members := φ d.id d.members }

theorem Declaration.mapMembers_eq {φ : MemberMap} {d : Declaration}
    (same : φ d.id d.members = d.members) : d.mapMembers φ = d := by
  rw [mapMembers, same]

theorem Declaration.flavor_mapMembers (φ : MemberMap) (d : Declaration) :
    (d.mapMembers φ).flavor = d.flavor := rfl

namespace Registry

/-- The registry with other members. -/
def mapMembers (φ : MemberMap) (r : Registry) : Registry where
  slots := r.slots.map (·.map (·.mapMembers φ))
  names := r.names
  id_eq := by
    intro i d h
    rw [List.getElem?_map] at h
    obtain ⟨slot, found, same⟩ := Option.map_eq_some_iff.mp h
    obtain ⟨e, rfl, rfl⟩ := Option.map_eq_some_iff.mp same
    exact r.id_eq i e found

variable {φ : MemberMap} (r : Registry)

/-! ## Declarations -/

@[simp] theorem size_mapMembers : (r.mapMembers φ).size = r.size := List.length_map _

theorem find?_mapMembers (id : TypeId) :
    (r.mapMembers φ).find? id = (r.find? id).map (·.mapMembers φ) := by
  rw [find?, find?, mapMembers, List.getElem?_map]
  cases r.slots[id.index]? with
  | none => rfl
  | some slot => rfl

theorem find_mapMembers (id : TypeId) :
    (r.mapMembers φ).find id = (r.find id).map (·.mapMembers φ) := by
  rw [find, find, find?_mapMembers]
  cases r.find? id <;> rfl

@[simp] theorem published_mapMembers {id : TypeId} :
    (r.mapMembers φ).Published id ↔ r.Published id := by
  rw [Published, Published, find?_mapMembers, Option.isSome_map]

@[simp] theorem superclass?_mapMembers : (r.mapMembers φ).superclass? = r.superclass? := by
  funext id
  rw [superclass?, superclass?, find?_mapMembers]
  cases r.find? id <;> rfl

@[simp] theorem superinterfaces_mapMembers :
    (r.mapMembers φ).superinterfaces = r.superinterfaces := by
  funext id
  rw [superinterfaces, superinterfaces, find?_mapMembers]
  cases r.find? id <;> rfl

@[simp] theorem typeParams_mapMembers : (r.mapMembers φ).typeParams = r.typeParams := by
  funext id
  rw [typeParams, typeParams, find?_mapMembers]
  cases r.find? id <;> rfl

@[simp] theorem supertypes_mapMembers : (r.mapMembers φ).supertypes = r.supertypes := by
  funext id
  rw [supertypes, supertypes, superclass?_mapMembers, superinterfaces_mapMembers]

@[simp] theorem boundSupertypes_mapMembers :
    (r.mapMembers φ).boundSupertypes = r.boundSupertypes := by
  have clauses (env : Bindings) :
      (r.mapMembers φ).boundSupertype? env = r.boundSupertype? env := by
    funext clause
    rw [boundSupertype?, boundSupertype?]
    congr 1
    funext raw
    rw [clauseBindings, clauseBindings, typeParams_mapMembers]
  funext b
  rw [boundSupertypes, boundSupertypes, find?_mapMembers, clauses]
  cases r.find? b.id <;> rfl

/-! ## Walks -/

@[simp] theorem superclassChain_mapMembers (id : TypeId) :
    (r.mapMembers φ).superclassChain id = r.superclassChain id := by
  rw [superclassChain, superclassChain, superclass?_mapMembers, size_mapMembers]

theorem classChain_mapMembers (limit room : Nat) (start : Option TypeId) :
    (r.mapMembers φ).classChain limit room start = r.classChain limit room start := by
  induction room generalizing start with
  | zero => cases start <;> rfl
  | succ room ih =>
    cases start with
    | none => rfl
    | some id =>
      rw [classChain, classChain, find_mapMembers]
      cases r.find id with
      | error fault => rfl
      | ok d =>
        show (if _ then _ else List.cons id <$> (r.mapMembers φ).classChain limit room d.superclass?) =
          if _ then _ else List.cons id <$> r.classChain limit room d.superclass?
        rw [ih]

@[simp] theorem discoveryOrder_mapMembers (visited chain : List TypeId) :
    (r.mapMembers φ).discoveryOrder visited chain = r.discoveryOrder visited chain := by
  induction chain generalizing visited with
  | nil => rfl
  | cons id rest ih =>
    rw [discoveryOrder, discoveryOrder, ih]
    simp only [interfaceWalk, superinterfaces_mapMembers, size_mapMembers]

/-! ## Array types -/

@[simp] theorem findArray?_mapMembers (component : TypeId) :
    (r.mapMembers φ).findArray? component = r.findArray? component := by
  rw [findArray?, findArray?, mapMembers, List.findIdx?_map]
  congr 2
  funext slot
  cases slot <;> rfl

theorem eq_of_slots {r s : Registry} (slots : r.slots = s.slots) (names : r.names = s.names) :
    r = s := by
  cases r
  cases s
  cases slots
  cases names
  rfl

/-- Interning is the same before and after a change that makes no members of none. -/
theorem internArray_mapMembers (nothing : φ.KeepsNone) (component : TypeId) :
    (r.mapMembers φ).internArray component =
      (r.internArray component).map (Prod.map id (·.mapMembers φ)) := by
  cases known : r.findArray? component with
  | some id =>
    rw [internArray_known known, internArray_known ((r.findArray?_mapMembers component).trans known)]
    rfl
  | none =>
    have known' := (r.findArray?_mapMembers (φ := φ) component).trans known
    cases found : r.find? component with
    | none =>
      rw [internArray_undeclared known found,
        internArray_undeclared known' (by rw [find?_mapMembers, found, Option.map_none])]
      rfl
    | some element =>
      have found' : (r.mapMembers φ).find? component = some (element.mapMembers φ) := by
        rw [find?_mapMembers, found, Option.map_some]
      have fresh (i j : TypeId) (same : i = j) (hi : component.index < i.index)
          (hj : component.index < j.index) :
          arrayDeclaration i component (element.mapMembers φ) hi =
            (arrayDeclaration j component element hj).mapMembers φ := by
        subst same
        exact (Declaration.mapMembers_eq (d := arrayDeclaration i component element hj)
          (nothing i)).symm
      have last : (⟨(r.mapMembers φ).size⟩ : TypeId) = ⟨r.size⟩ := by rw [size_mapMembers]
      rw [internArray_fresh known found, internArray_fresh known' found']
      refine congrArg Except.ok (Prod.ext last (eq_of_slots ?_ ?_))
      · show r.slots.map _ ++ [_] = (r.slots ++ [_]).map _
        rw [List.map_append, fresh _ _ last _ (lt_size_of_find? found)]
        rfl
      · show r.names.insert _ _ = r.names.insert _ _
        rw [fresh _ _ last _ (lt_size_of_find? found)]
        rfl

section Interning
variable {r} {grown k : Registry} (nothing : φ.KeepsNone)
include nothing

theorem Interns.mapMembers (interned : r.Interns grown) :
    (r.mapMembers φ).Interns (grown.mapMembers φ) := by
  induction interned with
  | refl => exact .refl _
  | @tail middle _ _ step ih =>
    obtain ⟨component, id, done⟩ := step
    refine ih.tail ⟨component, id, ?_⟩
    rw [middle.internArray_mapMembers nothing, done]
    rfl

/-- What is interned with other members is interned with the members. -/
theorem Interns.of_mapMembers (interned : (r.mapMembers φ).Interns k) :
    ∃ grown, r.Interns grown ∧ grown.mapMembers φ = k := by
  induction interned with
  | refl => exact ⟨r, .refl r, rfl⟩
  | tail _ step ih =>
    obtain ⟨middle, before, rfl⟩ := ih
    obtain ⟨component, id, done⟩ := step
    rw [middle.internArray_mapMembers nothing] at done
    cases interned : middle.internArray component with
    | error fault =>
      rw [interned] at done
      cases done
    | ok pair =>
      rw [interned] at done
      cases done
      exact ⟨pair.2, before.tail ⟨component, pair.1, interned⟩, rfl⟩

end Interning

variable {r} in
theorem Coherent.mapMembers (h : r.Coherent) : (r.mapMembers φ).Coherent := by
  have found {id : TypeId} {d : Declaration} (there : (r.mapMembers φ).find? id = some d) :
      ∃ e, r.find? id = some e ∧ e.flavor = d.flavor := by
    rw [find?_mapMembers] at there
    obtain ⟨e, here, rfl⟩ := Option.map_eq_some_iff.mp there
    exact ⟨e, here, rfl⟩
  refine ⟨?_, ?_, ?_⟩
  · obtain ⟨d, here, root⟩ := h.root
    exact ⟨d.mapMembers φ, by rw [find?_mapMembers, here, Option.map_some], root⟩
  · intro id d component there array
    obtain ⟨e, here, same⟩ := found there
    exact r.published_mapMembers.mpr (h.component_published id e component here (same.trans array))
  · intro i j d e component there there' array array'
    obtain ⟨d', here, same⟩ := found there
    obtain ⟨e', here', same'⟩ := found there'
    exact h.array_unique i j d' e' component here here' (same.trans array) (same'.trans array')

/-! ## Subtyping -/

@[simp] theorem fullName_mapMembers (id : TypeId) : (r.mapMembers φ).fullName id = r.fullName id := by
  rw [fullName, fullName, find_mapMembers]
  cases r.find id <;> rfl

theorem findAmong_mapMembers (target : TypeId) (ids : List TypeId) :
    (r.mapMembers φ).findAmong target ids = r.findAmong target ids := by
  induction ids with
  | nil => rfl
  | cons id rest ih =>
    rw [findAmong, findAmong, find_mapMembers, ih]
    cases r.find id <;> rfl

theorem reaches_mapMembers (target source : TypeId) :
    (r.mapMembers φ).reaches target source = r.reaches target source := by
  rw [reaches, reaches, findAmong_mapMembers, supertypes_mapMembers, size_mapMembers]

@[simp] theorem isAssignable_mapMembers (target source : TypeId) :
    (r.mapMembers φ).isAssignable target source = r.isAssignable target source := by
  by_cases same : target = source
  · rw [isAssignable, isAssignable, if_pos same, if_pos same]
  rw [isAssignable_of_ne _ same, isAssignable_of_ne _ same, find_mapMembers, find_mapMembers,
    reaches_mapMembers]
  cases above : r.find target with
  | error fault => rfl
  | ok t =>
    cases r.find source with
    | error fault => rfl
    | ok s =>
      refine if_congr Iff.rfl rfl (if_congr Iff.rfl rfl ?_)
      simp only [Declaration.flavor_mapMembers]
      split
      · rename_i component element array _
        -- the components are asked next, and come before the array types
        have smaller := component_lt_of_find? (find_eq_ok.mp above) array
        exact isAssignable_mapMembers component element
      · rfl
      · rfl
      · rfl
termination_by target.index

/-! ## Resolution -/

theorem firstBindings_mapMembers (declaring : TypeId) (nodes : List BoundType) :
    (r.mapMembers φ).firstBindings declaring nodes = r.firstBindings declaring nodes := by
  induction nodes with
  | nil => rfl
  | cons b rest ih =>
    rw [firstBindings, firstBindings, find_mapMembers, ih]
    cases r.find b.id <;> rfl

theorem bindings_mapMembers (owner declaring : TypeId) :
    (r.mapMembers φ).bindings owner declaring = r.bindings owner declaring := by
  rw [bindings, bindings, firstBindings_mapMembers, boundSupertypes_mapMembers, size_mapMembers,
    unbound, typeParams_mapMembers, unbound]
  refine bind_congr fun found => ?_
  cases found with
  | some env => rfl
  | none =>
    rw [find_mapMembers]
    cases r.find declaring <;> rfl

theorem methodBindings_mapMembers (m : Method) (owner : TypeId) :
    (r.mapMembers φ).methodBindings m owner = r.methodBindings m owner := by
  rw [methodBindings, methodBindings, bindings_mapMembers]

@[simp] theorem resolveReturn_mapMembers (m : Method) (owner : TypeId) :
    (r.mapMembers φ).resolveReturn m owner = r.resolveReturn m owner := by
  rw [resolveReturn, resolveReturn, methodBindings_mapMembers]

@[simp] theorem resolveParams_mapMembers (m : Method) (owner : TypeId) :
    (r.mapMembers φ).resolveParams m owner = r.resolveParams m owner := by
  rw [resolveParams, resolveParams, methodBindings_mapMembers]

@[simp] theorem resolveField_mapMembers (f : Field) (owner : TypeId) :
    (r.mapMembers φ).resolveField f owner = r.resolveField f owner := by
  rw [resolveField, resolveField, bindings_mapMembers]

@[simp] theorem ownBindings_mapMembers (m : Method) :
    m.ownBindings (r.mapMembers φ) = m.ownBindings r := by
  rw [Method.ownBindings, Method.ownBindings, find_mapMembers]
  cases r.find m.declaring <;> rfl

/-! ## The choice among overloads -/

theorem prefersGetter_mapMembers (a b : Overload) :
    (r.mapMembers φ).prefersGetter a b = r.prefersGetter a b := by
  rw [prefersGetter, prefersGetter, isAssignable_mapMembers]

theorem prefersToAll_mapMembers (a : Overload) (others : List Overload) :
    (r.mapMembers φ).prefersToAll a others = r.prefersToAll a others := by
  induction others with
  | nil => rfl
  | cons b rest ih => rw [prefersToAll, prefersToAll, prefersGetter_mapMembers, ih]

theorem preferredGetter?_mapMembers (before after : List Overload) :
    (r.mapMembers φ).preferredGetter? before after = r.preferredGetter? before after := by
  induction after generalizing before with
  | nil => rfl
  | cons a rest ih => rw [preferredGetter?, preferredGetter?, prefersToAll_mapMembers, ih]

@[simp] theorem chooseGetter_mapMembers (property : String) (first : Overload)
    (others : List Overload) :
    (r.mapMembers φ).chooseGetter property first others = r.chooseGetter property first others := by
  rw [chooseGetter, chooseGetter, preferredGetter?_mapMembers, fullName_mapMembers]

theorem assignableToAll_mapMembers (type : TypeId) (others : List Overload) :
    (r.mapMembers φ).assignableToAll type others = r.assignableToAll type others := by
  induction others with
  | nil => rfl
  | cons b rest ih => rw [assignableToAll, assignableToAll, isAssignable_mapMembers, ih]

theorem narrowestSetter?_mapMembers (all others : List Overload) :
    (r.mapMembers φ).narrowestSetter? all others = r.narrowestSetter? all others := by
  induction others with
  | nil => rfl
  | cons a rest ih => rw [narrowestSetter?, narrowestSetter?, assignableToAll_mapMembers, ih]

theorem incomparableWith?_mapMembers (a : Overload) (others : List Overload) :
    (r.mapMembers φ).incomparableWith? a others = r.incomparableWith? a others := by
  induction others with
  | nil => rfl
  | cons b rest ih =>
    rw [incomparableWith?, incomparableWith?, incomparable, incomparable, isAssignable_mapMembers,
      isAssignable_mapMembers, ih]

theorem incomparablePair?_mapMembers (all : List Overload) :
    (r.mapMembers φ).incomparablePair? all = r.incomparablePair? all := by
  induction all with
  | nil => rfl
  | cons a rest ih => rw [incomparablePair?, incomparablePair?, incomparableWith?_mapMembers, ih]

@[simp] theorem chooseSetter_mapMembers (property : String) (readType : Option TypeId)
    (first second : Overload) (others : List Overload) :
    (r.mapMembers φ).chooseSetter property readType first second others =
      r.chooseSetter property readType first second others := by
  simp only [chooseSetter, narrowestSetter?_mapMembers, incomparablePair?_mapMembers,
    fullName_mapMembers]

end Registry

/-! ## Blind computations -/

namespace Growing
variable {α β γ : Type} {φ : MemberMap}

/-- Whether a computation gives the same and interns the same whatever the members are. -/
def Blind (φ : MemberMap) (x : Growing α) : Prop :=
  ∀ r : Registry, x.eval (r.mapMembers φ) = Prod.map id (·.mapMembers φ) (x.eval r)

namespace Blind

theorem pure (a : α) : Blind φ (Pure.pure a) := fun _ => rfl

theorem read {query : Registry → Except Fault α}
    (same : ∀ r : Registry, query (r.mapMembers φ) = query r) : Blind φ (Growing.read query) := by
  intro r
  rw [eval_read, eval_read, same]
  rfl

theorem arrayOf (nothing : φ.KeepsNone) (component : TypeId) :
    Blind φ (Growing.arrayOf component) := by
  intro r
  rw [eval_arrayOf, eval_arrayOf, r.internArray_mapMembers nothing]
  cases r.internArray component <;> rfl

theorem bind {x : Growing α} {f : α → Growing β} (first : Blind φ x)
    (second : ∀ a, Blind φ (f a)) : Blind φ (x >>= f) := by
  intro r
  rw [eval_bind, eval_bind, first r]
  rcases x.eval r with ⟨fault | a, grown⟩
  · rfl
  · exact second a grown

theorem map {x : Growing α} (h : Blind φ x) (f : α → β) :
    Blind φ (x >>= fun a => Pure.pure (f a)) :=
  h.bind fun a => .pure (f a)

theorem mapM {f : α → Growing β} (h : ∀ a, Blind φ (f a)) (l : List α) : Blind φ (l.mapM f) := by
  induction l with
  | nil =>
    rw [List.mapM_nil]
    exact .pure []
  | cons a rest ih =>
    rw [List.mapM_cons]
    exact (h a).bind fun b => ih.map _

theorem foldlM {f : β → α → Growing β} (step : ∀ b a, Blind φ (f b a)) (b : β) (l : List α) :
    Blind φ (l.foldlM f b) := by
  induction l generalizing b with
  | nil => exact .pure b
  | cons a rest ih =>
    rw [List.foldlM_cons]
    exact (step b a).bind ih

/-- What is settled with some members is settled with others. -/
theorem settled_iff {x : Growing α} (blind : Blind φ x) (lasting : Lasting x) {r : Registry} {a : α} :
    x.eval (r.mapMembers φ) = (.ok a, r.mapMembers φ) ↔ x.eval r = (.ok a, r) := by
  rw [blind r]
  constructor
  · intro done
    rcases here : x.eval r with ⟨result, grown⟩
    rw [here] at done
    obtain ⟨rfl, same⟩ := Prod.mk.inj done
    -- nothing was interned, for the number of identities is the same
    have size : grown.size = r.size := by
      rw [← grown.size_mapMembers (φ := φ), ← r.size_mapMembers (φ := φ)]
      exact congrArg Registry.size same
    rcases (lasting.interns_of_eval here).same_or_larger with rfl | larger
    · rfl
    · exact absurd size.symm (Nat.ne_of_lt larger)
  · intro done
    rw [done]
    rfl

end Blind

end Growing

section Erasure
variable {φ : MemberMap} (nothing : φ.KeepsNone)
include nothing

theorem GenericType.erase_blind (t : GenericType) : t.erase.Blind φ := by
  induction t using GenericType.induction_on_parts with
  | named id => exact .pure id
  | applied raw args _ => exact .pure raw
  | array component ih => exact ih.bind (.arrayOf nothing)
  | typeVar name => exact .pure TypeId.object
  | wildcard upper lower _ _ => exact .pure TypeId.object

theorem Method.eraseDeclared_blind (m : Method) (t : GenericType) : (m.eraseDeclared t).Blind φ :=
  (Growing.Blind.read fun r => r.ownBindings_mapMembers m).bind fun env =>
    (t.instantiate env).erase_blind nothing

theorem Method.signature_blind (m : Method) : m.signature.Blind φ :=
  (Growing.Blind.mapM (m.eraseDeclared_blind nothing) m.params).bind fun _ =>
    (m.eraseDeclared_blind nothing m.returns).map _

end Erasure

end PropertyTables
