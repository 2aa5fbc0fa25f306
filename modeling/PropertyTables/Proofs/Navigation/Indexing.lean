import PropertyTables.Proofs.Navigation.Reading
import PropertyTables.Proofs.Table.Origins

/-! # Elements of arrays

* `Path.ofText_indexed`: a name with an index in brackets is read back as one segment.
* `Registry.erase_array`: the erasure of an array of a named type is the array type of that type.
* `readType_element`: an index on an array property leads to the component type for arrays of named
  types, and for no other array.
-/

namespace PropertyTables
set_option autoImplicit false

/-! ## Segments with an index -/

theorem Path.ofText_indexed {name index : String} (plain : '.' ∉ name.toList ∧ '[' ∉ name.toList)
    (undotted : '.' ∉ index.toList) :
    ofText (name ++ "[" ++ index ++ "]") =
      ⟨⟨name, some index, name ++ "[" ++ index ++ "]"⟩, []⟩ := by
  have text : (name ++ "[" ++ index ++ "]").toList =
      name.toList ++ '[' :: (index.toList ++ [']']) := by
    simp [String.toList_append]
  have dotless : '.' ∉ (name ++ "[" ++ index ++ "]").toList := by
    rw [text]
    simp only [List.mem_append, List.mem_cons, List.not_mem_nil, or_false, not_or]
    exact ⟨plain.1, by decide, undotted, by decide⟩
  rw [ofText_of_notMem dotless, text,
    Segment.ofChars_indexed plain.2, ← text]
  simp only [String.ofList_toList]

namespace Table
variable {t : Table} {e : Entry} {property index : String}

/-- What is read behind an index is decided by the entry's type before erasure. -/
theorem readType_indexed (listed : t.entry .read property = .ok e)
    (plain : '.' ∉ property.toList ∧ '[' ∉ property.toList) (undotted : '.' ∉ index.toList)
    (lib : Library) :
    (t.readType (property ++ "[" ++ index ++ "]")).eval lib =
      (.ok (e.generic.element?.getD e.type), lib) := by
  rw [readType, Path.ofText_indexed plain undotted, readTypeFrom, Browsing.eval_lift, segmentType,
    listed]
  rfl

end Table

/-! ## Arrays of named types -/

theorem GenericType.element?_eq_some {g : GenericType} {id : TypeId} : g.element? = some id ↔
    (∃ inner, g = .array inner ∧ inner.raw? = some id) ∨
      ∃ raw arg, g = .applied raw [arg] ∧ arg.raw? = some id := by
  constructor
  · intro element
    cases g with
    | array inner => exact .inl ⟨inner, rfl, element⟩
    | applied raw args =>
      match args with
      | [] => cases element
      | [arg] => exact .inr ⟨raw, arg, rfl, element⟩
      | _ :: _ :: _ => cases element
    | named other => cases element
    | typeVar name => cases element
    | wildcard upper lower => cases element
  · rintro (⟨inner, rfl, named⟩ | ⟨raw, arg, rfl, named⟩)
    · exact named
    · exact named

namespace Registry
variable {r : Registry}

/-- The erasure of an array of a named type is the array type of that type. -/
theorem erase_array {inner : GenericType} {element id : TypeId} (named : inner.raw? = some element)
    (erased : (GenericType.array inner).erase.eval r = (.ok id, r)) :
    ∃ d, r.find? id = some d ∧ d.flavor = .array element := by
  have interned : (GenericType.array inner).erase = Growing.arrayOf element := by
    cases inner with
    | named other =>
      obtain rfl := Option.some.inj named
      rfl
    | applied raw args =>
      obtain rfl := Option.some.inj named
      rfl
    | array component => cases named
    | typeVar name => cases named
    | wildcard upper lower => cases named
  rw [interned, Growing.arrayOf_settled] at erased
  exact findArray?_eq_some erased

/-- An array type is not its own component. -/
theorem component_ne {id component : TypeId} {d : Declaration} (found : r.find? id = some d)
    (array : d.flavor = .array component) : id ≠ component := by
  rintro rfl
  exact absurd (component_lt_of_find? found array) (Nat.lt_irrefl _)

end Registry

/-- With an index, a property of an array type reads the component type if it is an array of a named
type, or if the component is the only type argument. Any other array is its own element. -/
theorem readType_element {r grown : Registry} {type : TypeId} {limit : Nat} {t : Table}
    (built : (Table.build type limit).eval r = (.ok t, grown)) {property : String} {e : Entry}
    (listed : t.entry .read property = .ok e)
    (plain : '.' ∉ property.toList ∧ '[' ∉ property.toList) (index : String)
    (undotted : '.' ∉ index.toList) (lib : Library) (grows : grown.GrowsTo lib.registry)
    {d : Declaration} {component : TypeId} (found : lib.registry.find? e.type = some d)
    (array : d.flavor = .array component) :
    ∃ read, (t.readType (property ++ "[" ++ index ++ "]")).eval lib = (.ok read, lib) ∧
      (read = component ↔
        (∃ inner, e.generic = .array inner ∧ inner.raw?.isSome) ∨
          ∃ raw arg, e.generic = .applied raw [arg] ∧ arg.raw? = some component) ∧
      ((∀ raw arg, e.generic ≠ .applied raw [arg]) → read = component ∨ read = e.type) := by
  obtain ⟨-, origin⟩ := Table.build_origins built .read property e (Table.entry_eq_ok.mp listed)
  have differs : e.type ≠ component := Registry.component_ne found array
  refine ⟨_, Table.readType_indexed listed plain undotted lib, ?_⟩
  cases element : e.generic.element? with
  | none =>
    have unnamed (id : TypeId) : ¬ ((∃ inner, e.generic = .array inner ∧ inner.raw? = some id) ∨
        ∃ raw arg, e.generic = .applied raw [arg] ∧ arg.raw? = some id) := by
      rw [← GenericType.element?_eq_some, element]
      simp
    refine ⟨⟨fun same => absurd same differs, ?_⟩, fun _ => .inr rfl⟩
    rintro (⟨inner, same, named⟩ | only)
    · obtain ⟨id, named⟩ := Option.isSome_iff_exists.mp named
      exact absurd (.inl ⟨inner, same, named⟩) (unnamed id)
    · exact absurd (.inr only) (unnamed component)
  | some id =>
    rw [Option.getD_some]
    rcases GenericType.element?_eq_some.mp element with
      ⟨inner, same, named⟩ | ⟨raw, arg, same, named⟩
    · have erased := origin.erased
      rw [same] at erased
      obtain ⟨d', found', array'⟩ := Registry.erase_array named erased
      obtain rfl := Option.some.inj ((grows.declared _ _ found').symm.trans found)
      obtain rfl := Flavor.array.inj (array'.symm.trans array)
      exact ⟨⟨fun _ => .inl ⟨inner, same, by rw [named]; rfl⟩, fun _ => rfl⟩, fun _ => .inl rfl⟩
    · refine ⟨⟨fun h => .inr ⟨raw, arg, same, h ▸ named⟩, ?_⟩,
        fun several => absurd same (several raw arg)⟩
      rw [same]
      rintro (⟨inner, other, -⟩ | ⟨raw', arg', other, named'⟩)
      · cases other
      · cases other
        exact Option.some.inj (named.symm.trans named')

/-! ## A grid -/

/-- A class with an array of texts, and with an array of such arrays. -/
def Registry.grid : Registry :=
  initial.declared "" "Grid" .classType fun d =>
    (d.getter "getCells" (.array (.named .string))).getter "getRows"
      (.array (.array (.named .string)))

/-- The table of the grid, and the registry that building it left. -/
def Registry.gridTable : Except Fault Table × Registry :=
  (Table.build ⟨11⟩ Table.defaultLimit).eval .grid

/-- What is read from the grid, by a library that has nothing but that registry. -/
def Registry.readGrid (t : Table) (path : String) : Except Fault TypeId :=
  ((t.readType path).eval (.fresh gridTable.2 Table.defaultLimit true)).1

theorem gridTable_answers : Registry.gridTable.1.toOption.map (fun t =>
      let view (property : String) := (t.entry .read property).toOption.bind fun e =>
        (Registry.gridTable.2.find? e.type).map fun d => (e.type, d.flavor)
      (view "cells", view "rows", Registry.readGrid t "rows[0]")) =
    some (some (⟨12⟩, .array .string), some (⟨13⟩, .array ⟨12⟩), .ok ⟨13⟩) := by cbv

theorem exists_gridTable : ∃ t, Registry.gridTable.1 = .ok t ∧
    (∃ e d, t.entry .read "cells" = .ok e ∧ Registry.gridTable.2.find? e.type = some d ∧
      e.type = ⟨12⟩ ∧ d.flavor = .array .string) ∧
    (∃ e d, t.entry .read "rows" = .ok e ∧ Registry.gridTable.2.find? e.type = some d ∧
      e.type = ⟨13⟩ ∧ d.flavor = .array ⟨12⟩) ∧
    Registry.readGrid t "rows[0]" = .ok ⟨13⟩ := by
  obtain ⟨t, grown, done, answers⟩ := Growing.exists_eval_of_map gridTable_answers
  have shown {e? : Except Fault Entry} {type : TypeId} {flavor : Flavor}
      (view : e?.toOption.bind (fun e => (Registry.gridTable.2.find? e.type).map fun d =>
        (e.type, d.flavor)) = some (type, flavor)) :
      ∃ e d, e? = .ok e ∧ Registry.gridTable.2.find? e.type = some d ∧ e.type = type ∧
        d.flavor = flavor := by
    obtain ⟨e, listed, view⟩ := Option.bind_eq_some_iff.mp view
    obtain ⟨d, found, view⟩ := Option.map_eq_some_iff.mp view
    obtain ⟨type, flavor⟩ := Prod.mk.inj view
    cases e? with
    | error fault => cases listed
    | ok e' =>
      cases listed
      exact ⟨e, d, rfl, found, type, flavor⟩
  simp only [Prod.mk.injEq] at answers
  obtain ⟨cells, rows, read⟩ := answers
  exact ⟨t, congrArg Prod.fst done, shown cells, shown rows, read⟩

/-- An element of an array of texts is a text. -/
theorem readType_element_cells : ∃ t e d, Registry.gridTable.1 = .ok t ∧
    t.entry .read "cells" = .ok e ∧ Registry.gridTable.2.find? e.type = some d ∧
    d.flavor = .array .string ∧ ∃ read,
      Registry.readGrid t ("cells" ++ "[" ++ "0" ++ "]") = .ok read ∧
      (read = .string ↔ (∃ inner, e.generic = .array inner ∧ inner.raw?.isSome) ∨
        ∃ raw arg, e.generic = .applied raw [arg] ∧ arg.raw? = some .string) := by
  obtain ⟨t, built, ⟨e, d, listed, found, -, array⟩, -⟩ := exists_gridTable
  have done : (Table.build ⟨11⟩ Table.defaultLimit).eval .grid = (.ok t, Registry.gridTable.2) :=
    Prod.ext built rfl
  obtain ⟨read, asked, component, -⟩ := readType_element done listed (by decide) "0" (by decide)
    (.fresh Registry.gridTable.2 Table.defaultLimit true) (.refl _) found array
  exact ⟨t, e, d, built, listed, found, array, read, congrArg Prod.fst asked, component⟩

/-- An element of an array of arrays of texts is said to be an array of arrays of texts. -/
theorem readType_repeats_array : ∃ t e d, Registry.gridTable.1 = .ok t ∧
    t.entry .read "rows" = .ok e ∧ Registry.gridTable.2.find? e.type = some d ∧
    d.flavor = .array ⟨12⟩ ∧ ('.' ∉ "rows".toList ∧ '[' ∉ "rows".toList) ∧ '.' ∉ "0".toList ∧
    Registry.readGrid t ("rows" ++ "[" ++ "0" ++ "]") = .ok ⟨13⟩ ∧ (⟨13⟩ : TypeId) ≠ ⟨12⟩ := by
  obtain ⟨t, built, -, ⟨e, d, listed, found, -, array⟩, read⟩ := exists_gridTable
  have path : "rows" ++ "[" ++ "0" ++ "]" = "rows[0]" := by decide
  rw [← path] at read
  exact ⟨t, e, d, built, listed, found, array, by decide, by decide, read, by decide⟩

end PropertyTables
