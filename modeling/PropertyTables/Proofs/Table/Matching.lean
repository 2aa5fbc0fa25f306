import Mathlib.Data.List.Sort
import PropertyTables.Proofs.Table.Candidates
import PropertyTables.Proofs.Table.Naming
import PropertyTables.Proofs.Table.Steady

/-! # Matched methods

* `Index.SameTypes`: indexes with entries of the same types under the same names.
* `Matched`: methods that two registries keep for the same signatures.
* `Matched.propertiesOf`, `candidates_kept`: the properties of kept methods, and the candidates for
  each, depend on the signatures alone.
* `getterOverload_kept`, `setterOverload_kept`: so do the types of the overloads.
-/

namespace PropertyTables
set_option autoImplicit false

variable {r s : Registry} {kept kept' : List (Signature × Method)}

/-! ## Indexes -/

namespace Index

theorem mem_names_insert {α : Type} {x : Index α} {name other : String} {value : α} :
    other ∈ (x.insert name value).names ↔ other = name ∨ other ∈ x.names := by
  rw [mem_names, mem_names, find?_insert]
  by_cases same : other = name
  · simp [same]
  · simp [same]

theorem mem_names_ofList {α : Type} {pairs : List (String × α)} {name : String} :
    name ∈ (ofList pairs).names ↔ ∃ value, (name, value) ∈ pairs := by
  have insertAll (x : Index α) : name ∈ (pairs.foldl (fun x p => x.insert p.1 p.2) x).names ↔
      name ∈ x.names ∨ ∃ value, (name, value) ∈ pairs := by
    induction pairs generalizing x with
    | nil => simp
    | cons p rest ih =>
      rw [List.foldl_cons, ih, mem_names_insert]
      simp only [List.mem_cons, exists_or, Prod.ext_iff, exists_and_left, exists_eq, and_true]
      tauto
  rw [ofList, insertAll]
  simp [empty, names]

theorem names_ext {α β : Type} {x : Index α} {y : Index β}
    (same : ∀ name, name ∈ x.names ↔ name ∈ y.names) : x.names = y.names := by
  refine List.Perm.eq_of_pairwise ?_ x.names_sorted y.names_sorted
    ((List.perm_ext_iff_of_nodup x.names_nodup y.names_nodup).mpr same)
  exact fun a b _ _ less greater => absurd (String.lt_trans less greater) (String.lt_irrefl a)

/-- Sorting the same names, listed in any order, gives the names of an index. -/
theorem names_eq_mergeSort {α : Type} {x : Index α} {listed : List String}
    (distinct : listed.Nodup) (same : ∀ name, name ∈ x.names ↔ name ∈ listed) :
    x.names = listed.mergeSort := by
  have perm : x.names.Perm listed := (List.perm_ext_iff_of_nodup x.names_nodup distinct).mpr same
  refine (perm.trans (List.mergeSort_perm _ _).symm).eq_of_pairwise ?_
    (x.names_sorted.imp Std.le_of_lt) (listed.pairwise_mergeSort' (· ≤ ·))
  exact fun _ _ _ _ => String.le_antisymm

/-- Whether two indexes have entries of the same types under the same names. -/
def SameTypes (x y : Index Entry) : Prop :=
  ∀ name, (x.find? name).map (·.type) = (y.find? name).map (·.type)

namespace SameTypes
variable {x y : Index Entry}

theorem refl (x : Index Entry) : x.SameTypes x := fun _ => rfl

theorem insert (h : x.SameTypes y) (name : String) {e f : Entry} (same : e.type = f.type) :
    (x.insert name e).SameTypes (y.insert name f) := by
  intro other
  rw [find?_insert, find?_insert]
  split
  · rw [Option.map_some, Option.map_some, same]
  · exact h other

theorem contains (h : x.SameTypes y) (name : String) : x.contains name = y.contains name := by
  have same := congrArg Option.isSome (h name)
  rwa [Option.isSome_map, Option.isSome_map] at same

theorem ite {x' y' : Index Entry} (h : x.SameTypes y) (h' : x'.SameTypes y') {c : Prop}
    [Decidable c] : (if c then x else x').SameTypes (if c then y else y') := by
  split
  · exact h
  · exact h'

theorem names (h : x.SameTypes y) : x.names = y.names := by
  refine names_ext fun name => ?_
  rw [mem_names, mem_names, ← Option.isSome_iff_exists, ← Option.isSome_iff_exists]
  show x.contains name = true ↔ y.contains name = true
  rw [h.contains name]

end SameTypes

end Index

theorem mem_propertiesOf_of_candidate {property : String} {pairs : List (String × Method)}
    {m : Method} (h : m ∈ candidates property pairs) : property ∈ propertiesOf pairs := by
  obtain ⟨⟨name, m⟩, listed, rfl⟩ := List.mem_map.mp h
  obtain ⟨listed, same⟩ := List.mem_filter.mp listed
  exact Index.mem_names_ofList.mpr ⟨m, eq_of_beq same ▸ listed⟩

/-! ## Matched methods -/

/-- Whether two registries keep methods of the same signatures, all of them steady. -/
structure Matched (r s : Registry) (kept kept' : List (Signature × Method)) : Prop where
  signatures : (kept.map (·.1)).Perm (kept'.map (·.1))
  left : ∀ p ∈ kept, p.2.Steady r ∧ p.2.Erases r p.1
  right : ∀ p ∈ kept', p.2.Steady s ∧ p.2.Erases s p.1

theorem Matched.symm (h : Matched r s kept kept') : Matched s r kept' kept :=
  ⟨h.signatures.symm, h.right, h.left⟩

theorem Matched.filter (h : Matched r s kept kept') (q : Signature → Bool) :
    Matched r s (kept.filter fun p => q p.1) (kept'.filter fun p => q p.1) where
  signatures := by
    have moved (l : List (Signature × Method)) :
        (l.filter fun p => q p.1).map (·.1) = (l.map (·.1)).filter q := by
      rw [List.filter_map]
      rfl
    rw [moved, moved]
    exact h.signatures.filter q
  left p hp := h.left p (List.mem_of_mem_filter hp)
  right p hp := h.right p (List.mem_of_mem_filter hp)

/-- The type that a setter of some signature takes. -/
def Signature.takes (signature : Signature) : TypeId := signature.params.headD .object

/-- The property that a method of some signature reads (writes), if any. -/
def Signature.property? (side : Side) (signature : Signature) : Option String :=
  let fits := match side with
    | .read => signature.params.length == 0 && isGetterName signature.name
    | .write => signature.params.length == 1 && isSetterName signature.name
  if fits then (PropertyName.ofAccessor signature.name).toOption else none

theorem Method.Erases.property? {m : Method} {signature : Signature}
    (erases : m.Erases r signature) (side : Side) :
    signature.property? side =
      if m.isAccessor side then (PropertyName.ofAccessor m.name).toOption else none := by
  have length := erases.params.length_eq
  cases side with
  | read => simp only [Signature.property?, Method.isAccessor, erases.name, length]
  | write => simp only [Signature.property?, Method.isAccessor, erases.name, length]

theorem accessors_kept (erases : ∀ p ∈ kept, p.2.Erases r p.1) (side : Side) :
    accessors side (kept.map (·.2)) =
      kept.filterMap fun p => (p.1.property? side).map (·, p.2) := by
  rw [accessors, List.filterMap_map]
  refine List.filterMap_congr fun p hp => ?_
  rw [(erases p hp).property?]
  show (if _ then _ else _) = _
  split <;> rfl

theorem candidates_kept (erases : ∀ p ∈ kept, p.2.Erases r p.1) (side : Side) (property : String) :
    candidates property (accessors side (kept.map (·.2))) =
      (kept.filter fun p => p.1.property? side == some property).map (·.2) := by
  rw [accessors_kept erases, candidates]
  induction kept with
  | nil => rfl
  | cons p rest ih =>
    have later := ih fun q hq => erases q (List.mem_cons_of_mem p hq)
    rw [List.filterMap_cons, List.filter_cons]
    cases named : p.1.property? side with
    | none => simpa using later
    | some name =>
      by_cases same : name = property
      · simpa [same] using later
      · simpa [same] using later

theorem mem_propertiesOf_kept (erases : ∀ p ∈ kept, p.2.Erases r p.1) {side : Side}
    {property : String} :
    property ∈ propertiesOf (accessors side (kept.map (·.2))) ↔
      ∃ signature ∈ kept.map (·.1), signature.property? side = some property := by
  rw [propertiesOf, Index.mem_names_ofList, accessors_kept erases]
  simp only [List.mem_filterMap, List.mem_map]
  constructor
  · rintro ⟨m, p, hp, named⟩
    obtain ⟨name, fits, same⟩ := Option.map_eq_some_iff.mp named
    cases same
    exact ⟨p.1, ⟨p, hp, rfl⟩, fits⟩
  · rintro ⟨_, ⟨p, hp, rfl⟩, fits⟩
    exact ⟨p.2, p, hp, by rw [fits]; rfl⟩

theorem Matched.propertiesOf (h : Matched r s kept kept') (side : Side) :
    propertiesOf (accessors side (kept.map (·.2))) =
      propertiesOf (accessors side (kept'.map (·.2))) := by
  refine Index.names_ext fun property => ?_
  rw [← PropertyTables.propertiesOf, ← PropertyTables.propertiesOf,
    mem_propertiesOf_kept fun p hp => (h.left p hp).2,
    mem_propertiesOf_kept fun p hp => (h.right p hp).2]
  simp only [h.signatures.mem_iff]

/-! ## The choice among matched methods -/

/-- Whether two picks out of matched methods are both none, or of one type. -/
inductive Picked (type : Signature → TypeId) (kept kept' : List (Signature × Method)) :
    Option Method → Option Method → Prop
  | none : Picked type kept kept' none none
  | some (p p' : Signature × Method) (left : p ∈ kept) (right : p' ∈ kept')
      (same : type p.1 = type p'.1) : Picked type kept kept' (some p.2) (some p'.2)

/-- The overload that a kept method makes. -/
def overload (type : Signature → TypeId) (p : Signature × Method) : Overload := ⟨p.2, type p.1⟩

theorem picked_of_overloads {type : Signature → TypeId} {w w' : Overload}
    (hw : w ∈ kept.map (overload type)) (hw' : w' ∈ kept'.map (overload type))
    (same : w.type = w'.type) : Picked type kept kept' (some w.method) (some w'.method) := by
  obtain ⟨p, hp, rfl⟩ := List.mem_map.mp hw
  obtain ⟨p', hp', rfl⟩ := List.mem_map.mp hw'
  exact .some p p' hp hp' same

theorem mapM_overload {make : Method → Growing Overload} {type : Signature → TypeId}
    (makes : ∀ p ∈ kept, (make p.2).eval r = (.ok (overload type p), r)) :
    ((kept.map (·.2)).mapM make).eval r = (.ok (kept.map (overload type)), r) := by
  rw [List.mapM_map]
  exact Growing.mapM_settled makes

theorem getterOverload_kept {p : Signature × Method} (steady : p.2.Steady r)
    (erases : p.2.Erases r p.1) :
    (getterOverload p.2).eval r = (.ok (overload (·.returns) p), r) :=
  Overload.Settled.getterOverload (o := overload (·.returns) p)
    ((steady.eraseDeclared steady.returns.1).trans erases.returns)

theorem setterOverload_kept {p : Signature × Method} (steady : p.2.Steady r)
    (erases : p.2.Erases r p.1) :
    (setterOverload p.2).eval r = (.ok (overload Signature.takes p), r) := by
  refine Overload.Settled.setterOverload (o := overload Signature.takes p) ?_
  show (p.2.eraseDeclared (p.2.params.headD (.named .object))).eval r = (.ok p.1.takes, r)
  rw [Signature.takes]
  have types := erases.params
  cases params : p.2.params with
  | nil =>
    rw [params, List.forall₂_nil_left_iff] at types
    rw [types]
    exact steady.eraseDeclared True.intro
  | cons t ts =>
    rw [params] at types
    obtain ⟨id, ids, first, -, split⟩ := List.forall₂_cons_left_iff.mp types
    rw [split, List.headD_cons, List.headD_cons,
      steady.eraseDeclared (steady.params t (by simp [params])).1]
    exact first

theorem key_overload {p : Signature × Method} (erases : p.2.Erases r p.1) :
    (overload (·.returns) p).key = (p.1.returns, startsWithIs p.1.name) := by
  rw [erases.name]
  rfl

theorem Matched.keys (h : Matched r s kept kept') :
    ((kept.map (overload (·.returns))).map Overload.key).Perm
      ((kept'.map (overload (·.returns))).map Overload.key) := by
  have moved {q : Registry} {l : List (Signature × Method)} (erases : ∀ p ∈ l, p.2.Erases q p.1) :
      (l.map (overload (·.returns))).map Overload.key =
        (l.map (·.1)).map fun σ => (σ.returns, startsWithIs σ.name) := by
    rw [List.map_map, List.map_map]
    exact List.map_congr_left fun p hp => key_overload (erases p hp)
  rw [moved fun p hp => (h.left p hp).2, moved fun p hp => (h.right p hp).2]
  exact h.signatures.map _

theorem Matched.types (h : Matched r s kept kept') (type : Signature → TypeId) :
    ((kept.map (overload type)).map Overload.type).Perm
      ((kept'.map (overload type)).map Overload.type) := by
  have moved (l : List (Signature × Method)) :
      (l.map (overload type)).map Overload.type = (l.map (·.1)).map type := by
    rw [List.map_map, List.map_map]
    rfl
  rw [moved, moved]
  exact h.signatures.map type

end PropertyTables
