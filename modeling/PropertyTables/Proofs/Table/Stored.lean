import Mathlib.Data.List.Induction
import PropertyTables.Proofs.Registry.Twins
import PropertyTables.Proofs.Table.Entries
import PropertyTables.Proofs.Table.Matching
import PropertyTables.Table.Stored

/-! # Stored tables stand for tables

* `Growing.Refines`: computations that do the same to every registry, with the same fault or with
  related results.
* `TableMaps.Represents`: the three maps of either side have what the entries of that side have.
  Every insertion of the passes keeps it.
* `sortedKeys_eq`, `getElem?_caselessIndex`: the sorted names, and what is found by upper case.
* `StoredTable.build_refines`: stored tables are built as tables are, and answer as they do.
-/

namespace PropertyTables
set_option autoImplicit false

/-! ## Computations that refine others -/

namespace Growing
variable {α β γ δ : Type} {R : α → β → Prop} {S : γ → δ → Prop}

/-- Whether two computations do the same to every registry, and end with the same fault or with
related results. -/
def Refines (R : α → β → Prop) (x : Growing α) (y : Growing β) : Prop :=
  ∀ r, (x.eval r).2 = (y.eval r).2 ∧ Answers R (x.eval r).1 (y.eval r).1

theorem Refines.pure {a : α} {b : β} (related : R a b) : Refines R (Pure.pure a) (Pure.pure b) :=
  fun _ => ⟨rfl, .value related⟩

theorem Refines.throw (fault : Fault) :
    Refines R (MonadExcept.throw fault) (MonadExcept.throw fault) :=
  fun _ => ⟨rfl, .fault fault⟩

theorem Refines.bind {x : Growing α} {y : Growing β} {f : α → Growing γ} {g : β → Growing δ}
    (first : Refines R x y) (next : ∀ a b, R a b → Refines S (f a) (g b)) :
    Refines S (x >>= f) (y >>= g) := by
  intro r
  rw [eval_bind, eval_bind]
  obtain ⟨same, answers⟩ := first r
  revert same answers
  rcases x.eval r with ⟨result, grown⟩
  rcases y.eval r with ⟨result', grown'⟩
  rintro (rfl : grown = grown') (answers : Answers R result result')
  cases answers with
  | fault fault => exact ⟨rfl, .fault fault⟩
  | value related => exact next _ _ related grown

/-- Where both begin alike, what follows is all there is to compare. -/
theorem Refines.of_next {x : Growing α} {f : α → Growing γ} {g : α → Growing δ}
    (next : ∀ a, Refines S (f a) (g a)) : Refines S (x >>= f) (x >>= g) := by
  have same : Refines Eq x x := fun r => ⟨rfl, .of_eq rfl fun _ _ => rfl⟩
  refine same.bind fun a b equal => ?_
  rw [← equal]
  exact next a

theorem Refines.foldlM {ι : Type} {f : α → ι → Growing α} {g : β → ι → Growing β}
    (step : ∀ a b i, R a b → Refines R (f a i) (g b i)) (l : List ι) {a : α} {b : β}
    (related : R a b) : Refines R (l.foldlM f a) (l.foldlM g b) := by
  induction l generalizing a b with
  | nil => exact .pure related
  | cons i rest ih =>
    rw [List.foldlM_cons, List.foldlM_cons]
    exact (step a b i related).bind fun _ _ => ih

/-- What a computation gives, the one that it refines gives, too. -/
theorem Refines.follows {x : Growing α} {y : Growing β} (h : Refines R x y) {r grown : Registry}
    {a : α} (done : x.eval r = (.ok a, grown)) : ∃ b, y.eval r = (.ok b, grown) ∧ R a b := by
  obtain ⟨same, answers⟩ := h r
  rw [done] at same answers
  rcases given : y.eval r with ⟨result, grown'⟩
  rw [given] at same answers
  obtain rfl : grown = grown' := same
  cases answers with
  | value related => exact ⟨_, rfl, related⟩

theorem Refines.leads {x : Growing α} {y : Growing β} (h : Refines R x y) {r grown : Registry}
    {b : β} (done : y.eval r = (.ok b, grown)) : ∃ a, x.eval r = (.ok a, grown) ∧ R a b := by
  obtain ⟨same, answers⟩ := h r
  rw [done] at same answers
  rcases given : x.eval r with ⟨result, grown'⟩
  rw [given] at same answers
  obtain rfl : grown' = grown := same
  cases answers with
  | value related => exact ⟨_, rfl, related⟩

end Growing

open Growing (Refines)

/-! ## Maps and entries -/

/-- Whether a map has one part of every entry of an index, under the same name, and nothing else. -/
def Mirrors {α : Type} (part : Entry → α) (map : Std.HashMap String α) (x : Index Entry) : Prop :=
  ∀ name, map[name]? = (x.find? name).map part

theorem Mirrors.insert {α : Type} {part : Entry → α} {map : Std.HashMap String α} {x : Index Entry}
    (h : Mirrors part map x) (name : String) (e : Entry) :
    Mirrors part (map.insert name (part e)) (x.insert name e) := by
  intro other
  rw [Std.HashMap.getElem?_insert, Index.find?_insert, h other]
  by_cases here : other = name
  · simp [here]
  · simp [here, Ne.symm here]

theorem Mirrors.contains {α : Type} {part : Entry → α} {map : Std.HashMap String α}
    {x : Index Entry} (h : Mirrors part map x) (name : String) :
    map.contains name = x.contains name := by
  rw [Std.HashMap.contains_eq_isSome_getElem?, h name, Option.isSome_map, Index.contains]

theorem Mirrors.mem_keys {α : Type} {part : Entry → α} {map : Std.HashMap String α}
    {x : Index Entry} (h : Mirrors part map x) {name : String} :
    name ∈ map.keys ↔ name ∈ x.names := by
  rw [Std.HashMap.mem_keys, Index.mem_names, ← Std.HashMap.contains_iff_mem, h.contains,
    Index.contains, Option.isSome_iff_exists]

namespace TableMaps

/-- Whether the maps of one side have what its entries have. -/
structure Holds (m : TableMaps) (side : Side) (x : Index Entry) : Prop where
  invokers : Mirrors Entry.invoker (m.invokers side) x
  types : Mirrors Entry.type (m.types side) x
  generics : Mirrors Entry.generic (m.generics side) x

/-- Whether the maps have what the entries of both sides have. -/
structure Represents (m : TableMaps) (s : Sides) : Prop where
  readers : m.Holds .read s.readers
  writers : m.Holds .write s.writers

theorem holds_empty (side : Side) : Holds {} side {} := by
  have nothing {α : Type} (part : Entry → α) : Mirrors part ∅ {} := fun _ =>
    Std.HashMap.getElem?_empty
  cases side <;> exact ⟨nothing _, nothing _, nothing _⟩

theorem Represents.insert_reader {m : TableMaps} {s : Sides} (h : m.Represents s) (name : String)
    (e : Entry) :
    Represents { m with
        getInvokers := m.getInvokers.insert name e.invoker
        getTypes := m.getTypes.insert name e.type
        getGenerics := m.getGenerics.insert name e.generic }
      { s with readers := s.readers.insert name e } where
  readers := ⟨h.readers.invokers.insert name e, h.readers.types.insert name e,
    h.readers.generics.insert name e⟩
  writers := ⟨h.writers.invokers, h.writers.types, h.writers.generics⟩

theorem Represents.insert_writer {m : TableMaps} {s : Sides} (h : m.Represents s) (name : String)
    (e : Entry) :
    Represents { m with
        setInvokers := m.setInvokers.insert name e.invoker
        setTypes := m.setTypes.insert name e.type
        setGenerics := m.setGenerics.insert name e.generic }
      { s with writers := s.writers.insert name e } where
  readers := ⟨h.readers.invokers, h.readers.types, h.readers.generics⟩
  writers := ⟨h.writers.invokers.insert name e, h.writers.types.insert name e,
    h.writers.generics.insert name e⟩

/-! ## The passes -/

theorem addGetters_refines (owner : TypeId) (pairs : List (String × Method))
    (properties : List String) {writers x : Index Entry} {m : TableMaps}
    (h : m.Represents ⟨x, writers⟩) :
    Refines (fun m x => m.Represents ⟨x, writers⟩) (addGetters owner pairs m properties)
      (getterEntries owner pairs x properties) := by
  induction properties generalizing m x with
  | nil => exact .pure h
  | cons property rest ih =>
    rw [addGetters, getterEntries]
    refine .of_next fun winner => ?_
    cases winner with
    | none => exact ih h
    | some winner =>
      by_cases excluded : PropertyName.isExcluded property = true
      · simpa only [excluded, if_true] using ih h
      · simp only [excluded, getterEntry, bind_assoc, pure_bind]
        exact .of_next fun generic => .of_next fun type => ih (h.insert_reader property
          ⟨⟨.method winner, type⟩, type, generic⟩)

theorem addSetters_refines (owner : TypeId) (pairs : List (String × Method))
    (properties : List String) {readers x : Index Entry} {m : TableMaps}
    (h : m.Represents ⟨readers, x⟩) :
    Refines (fun m x => m.Represents ⟨readers, x⟩) (addSetters owner pairs m properties)
      (setterEntries owner pairs readers x properties) := by
  induction properties generalizing m x with
  | nil => exact .pure h
  | cons property rest ih =>
    have readType : m.getTypes[property]? = (readers.find? property).map (·.type) :=
      h.readers.types property
    rw [addSetters, setterEntries, readType]
    refine .of_next fun winner => ?_
    cases winner with
    | none => exact ih h
    | some winner =>
      by_cases excluded : PropertyName.isExcluded property = true
      · simpa only [excluded, if_true] using ih h
      · simp only [excluded, setterEntry, bind_assoc, pure_bind]
        exact .of_next fun params => .of_next fun type => ih (h.insert_writer property
          ⟨⟨.method winner, type⟩, type, params.headD (.named .object)⟩)

theorem addField_refines (owner : TypeId) (f : Field) {m : TableMaps} {s : Sides}
    (h : m.Represents s) :
    Refines Represents (addField owner m f) (PropertyTables.addField owner s f) := by
  have written : m.setInvokers.contains f.name = s.writers.contains f.name :=
    h.writers.invokers.contains f.name
  have read : m.getInvokers.contains f.name = s.readers.contains f.name :=
    h.readers.invokers.contains f.name
  simp only [addField, PropertyTables.addField, written, read]
  split
  · exact .pure h
  · refine .of_next fun generic => .of_next fun type => .pure ?_
    cases !s.writers.contains f.name && !f.modifiers.isConstant <;>
      cases !s.readers.contains f.name
    · exact h
    · exact h.insert_reader f.name ⟨⟨.readField f, type⟩, type, generic⟩
    · exact h.insert_writer f.name ⟨⟨.writeField f, type⟩, type, generic⟩
    · exact (h.insert_writer f.name ⟨⟨.writeField f, type⟩, type, generic⟩).insert_reader f.name
        ⟨⟨.readField f, type⟩, type, generic⟩

theorem addFields_refines (owner : TypeId) (limit room : Nat) (id : Option TypeId) {m : TableMaps}
    {s : Sides} (h : m.Represents s) :
    Refines Represents (addFields owner limit room id m)
      (PropertyTables.addFields owner limit room id s) := by
  induction room generalizing id m s with
  | zero =>
    cases id with
    | none => exact .pure h
    | some id => exact .throw _
  | succ room ih =>
    cases id with
    | none => exact .pure h
    | some id =>
      rw [addFields, PropertyTables.addFields]
      refine .of_next fun d => ?_
      have fields := Refines.foldlM (fun m s f (h : m.Represents s) => addField_refines owner f h)
        d.fields h
      exact fields.bind fun m s h => ih d.superclass? h

end TableMaps

/-! ## Names -/

theorem sortedKeys_eq {α : Type} {part : Entry → α} {map : Std.HashMap String α} {x : Index Entry}
    (h : Mirrors part map x) : sortedKeys map = x.names :=
  (Index.names_eq_mergeSort Std.HashMap.nodup_keys fun _ => h.mem_keys.symm).symm

theorem getElem?_caselessIndex (names : List String) (name : String) :
    (caselessIndex names)[Text.upper name]? =
      names.findRev? fun n => Text.upper n == Text.upper name := by
  -- later names take the place of earlier ones, so the induction is from the end
  induction names using List.reverseRecOn with
  | nil => exact Std.HashMap.getElem?_empty
  | append_singleton names last ih =>
    rw [caselessIndex] at ih ⊢
    rw [List.foldl_append, List.foldl_cons, List.foldl_nil, Std.HashMap.getElem?_insert, ih]
    simp only [List.findRev?_eq_find?_reverse, List.reverse_append, List.reverse_cons,
      List.reverse_nil, List.nil_append, List.singleton_append, List.find?_cons]
    cases Text.upper last == Text.upper name <;> rfl

/-! ## Stored tables -/

namespace StoredTable

/-- Whether a stored table stands for a table: it has the same names in the same order, its maps
have what the entries have, and what is found by upper case is the same. -/
structure Represents (s : StoredTable) (t : Table) : Prop where
  type : s.type = t.type
  name : s.name = t.name
  maps : s.toTableMaps.Represents ⟨t.readers, t.writers⟩
  names : ∀ side, s.names side = t.names side
  found : ∀ x, s.findName? x = t.findName? x
  constructor : s.defaultConstructor? = t.defaultConstructor?

/-- Stored tables are built as tables are: with the same faults, with the same array types interned,
and with the same properties. -/
theorem build_refines (type : TypeId) (limit : Nat) :
    Refines Represents (build type limit) (Table.build type limit) := by
  rw [build, Table.build]
  refine .of_next fun name => .of_next fun methods => .of_next fun getters => ?_
  have empty : TableMaps.Represents {} ⟨{}, {}⟩ :=
    ⟨TableMaps.holds_empty .read, TableMaps.holds_empty .write⟩
  refine (TableMaps.addGetters_refines type getters _ empty).bind fun maps readers h => ?_
  refine .of_next fun setters => ?_
  refine (TableMaps.addSetters_refines type setters _ h).bind fun maps writers h => ?_
  refine (TableMaps.addFields_refines type limit limit (some type) h).bind fun maps sides h => ?_
  refine .of_next fun d => .pure ?_
  have readable : sortedKeys maps.getInvokers = sides.readers.names :=
    sortedKeys_eq h.readers.invokers
  have writable : sortedKeys maps.setInvokers = sides.writers.names :=
    sortedKeys_eq h.writers.invokers
  refine ⟨rfl, rfl, h, fun side => ?_, fun x => ?_, rfl⟩
  · cases side with
    | read => exact readable
    | write => exact writable
  · show (caselessIndex (sortedKeys _ ++ sortedKeys _))[Text.upper x]? = _
    rw [getElem?_caselessIndex, readable, writable]
    rfl

namespace Represents
variable {s : StoredTable} {t : Table}

theorem holds (h : s.Represents t) (side : Side) :
    s.toTableMaps.Holds side (t.entries side) := by
  cases side with
  | read => exact h.maps.readers
  | write => exact h.maps.writers

theorem has (h : s.Represents t) (side : Side) (name : String) :
    s.has side name = t.has side name :=
  (h.holds side).invokers.contains name

/-- What a map has under a name is a part of the entry, and the same fault says that it has none. -/
theorem lookUp {α : Type} {part : Entry → α} {map : Std.HashMap String α} (h : s.Represents t)
    {side : Side} (mirrors : Mirrors part map (t.entries side)) (name : String) :
    s.lookUp map side name = (t.entry side name).map part := by
  rw [StoredTable.lookUp, Table.entry, mirrors name, h.name]
  cases (t.entries side).find? name <;> rfl

theorem invoker (h : s.Represents t) (side : Side) (name : String) :
    s.invoker side name = (t.entry side name).map (·.invoker) :=
  h.lookUp (h.holds side).invokers name

theorem typeOf (h : s.Represents t) (side : Side) (name : String) :
    s.typeOf side name = (t.entry side name).map (·.type) :=
  h.lookUp (h.holds side).types name

theorem genericOf (h : s.Represents t) (side : Side) (name : String) :
    s.genericOf side name = (t.entry side name).map (·.generic) :=
  h.lookUp (h.holds side).generics name

end Represents

end StoredTable

end PropertyTables
