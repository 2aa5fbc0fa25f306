import PropertyTables.Proofs.Bean.Lenses
import PropertyTables.Proofs.Heap.FieldAccessors
import PropertyTables.Proofs.Table.FieldFallback

/-! # Writing a property and reading it back

The reader and the writer of a property are found apart from each other, and only the writer has to
be no constant.

* `firstField?_write`: the first field of a name is the one to be written, unless it is a constant.
* `field_round_trip`: so a value that is written is read afterwards, unless a constant is read. A
  constant reads as before.
* `round_trip_misses_constant`: a constant that hides a field of a superclass.
-/

namespace PropertyTables
set_option autoImplicit false

/-! ## The fields of both sides -/

theorem firstField?_eq_some {side : Side} {name : String} {fields : List Field} {f : Field}
    (first : firstField? side name fields = some f) :
    f ∈ fields ∧ f.name = name ∧ f.backs side = true := by
  have found := List.find?_some first
  rw [Bool.and_eq_true, beq_iff_eq] at found
  exact ⟨List.mem_of_find?_eq_some first, found⟩

/-- Unless it is a constant, the first field of a name is the one to be written. -/
theorem firstField?_write {name : String} {fields : List Field} {f : Field}
    (first : firstField? .read name fields = some f) (written : f.modifiers.isConstant = false) :
    firstField? .write name fields = some f := by
  obtain ⟨found, before, after, split, others⟩ := List.find?_eq_some_iff_append.mp first
  refine List.find?_eq_some_iff_append.mpr ⟨?_, before, after, split, fun g hg => ?_⟩
  · have named : (f.name == name) = true := (Bool.and_eq_true_iff.mp found).1
    rw [named, Field.backs, written]
    rfl
  · have other : (g.name == name) = false := by
      have other := others g hg
      rw [Field.backs, Bool.and_true, Bool.not_eq_true'] at other
      exact other
    rw [other]
    rfl

/-- Fields of two sides are one if the field that is read is no constant. -/
theorem firstField?_agree {name : String} {fields : List Field} {f f' : Field}
    (reads : firstField? .read name fields = some f)
    (writes : firstField? .write name fields = some f') :
    f' = f ↔ f.modifiers.isConstant = false := by
  constructor
  · rintro rfl
    obtain ⟨-, -, backs⟩ := firstField?_eq_some writes
    exact (Bool.not_eq_true' _).mp backs
  · intro written
    exact Option.some.inj (writes.symm.trans (firstField?_write reads written))

/-- Where a constant is stored no field is that may be written. -/
theorem Field.place_ne_of_constant {r : Registry} {f f' : Field} (hf : r.Declares f)
    (hf' : r.Declares f') (constant : f.modifiers.isConstant = true)
    (written : f'.modifiers.isConstant = false) (o : ObjectId) : f.place o ≠ f'.place o := by
  have static : f.modifiers.isStatic = true := (Bool.and_eq_true_iff.mp constant).1
  intro same
  rw [place, place, if_pos static] at same
  cases shared : f'.modifiers.isStatic with
  | false =>
    rw [shared, if_neg Bool.false_ne_true] at same
    cases same
  | true =>
    rw [shared, if_pos rfl] at same
    obtain ⟨declaring, position⟩ := Prod.mk.inj (Place.shared.inj same)
    obtain rfl := hf'.eq hf declaring position
    rw [constant] at written
    cases written

/-! ## Round trips -/

/-- A property that fields read and write is read from the first field of its name, most derived
class first, and written to the first such field that is no constant. If the first one is no
constant, the two are one, and an object of the type reads as it was written. Otherwise the object
reads as it did before. -/
theorem field_round_trip {r g : Registry} {owner : TypeId} {limit : Nat} {t : Table}
    (reachable : r.Reachable) (built : (Table.build owner limit).eval r = (.ok t, g))
    {name : String} {reader writer : Entry} {f f' : Field}
    (read : t.entry .read name = .ok reader) (reads : reader.accessor = .readField f)
    (write : t.entry .write name = .ok writer) (writes : writer.accessor = .writeField f')
    {w : World} {fresh : Instance} (allocated : w.registry.allocate owner = .ok fresh)
    (events : List World.Event) (seen : g.GrowsTo ((w.adding fresh).afterAll events).registry) :
    let o := (w.heap.add fresh).1
    let now := (w.adding fresh).afterAll events
    firstField? .read name (r.chainFields owner) = some f ∧
    firstField? .write name (r.chainFields owner) = some f' ∧
    (f' = f ↔ f.modifiers.isConstant = false) ∧
    ∀ v, ∃ later, (t.writeProperty o name v).eval now = (.ok .null, later) ∧
      (f' = f → (t.readProperty o name).eval later = (.ok v, later)) ∧
      (f' ≠ f → ∃ before, (t.readProperty o name).eval now = (.ok before, now) ∧
        (t.readProperty o name).eval later = (.ok before, later)) := by
  intro o now
  have interned := (build_lasting owner limit).interns_of_eval built
  have chain := interned.growsTo.chainFields (Table.build_chain_published reachable built)
  have first : firstField? .read name (r.chainFields owner) = some f :=
    chain ▸ Table.build_firstField built read reads
  have first' : firstField? .write name (r.chainFields owner) = some f' :=
    chain ▸ Table.build_firstField built write writes
  have agree := firstField?_agree first first'
  have has : g.HasField owner f := Table.build_fields built read (by rw [reads]; rfl)
  have has' : g.HasField owner f' := Table.build_fields built write (by rw [writes]; rfl)
  have slots : (now.heap.object o).HasSlotsOf w.registry owner :=
    World.afterAll_hasSlotsOf allocated events
  have grows : w.registry.GrowsTo now.registry := ((w.adding fresh).afterAll_changes events).grows
  have published := Registry.allocate_published allocated
  have stores (h : Field) (has : g.HasField owner h) : now.heap.Stores o h :=
    Heap.stores_of_hasField slots published grows (Registry.self_mem_superclassChain _ owner) has seen
  refine ⟨first, first', agree, fun v => ?_⟩
  obtain ⟨later, done, written⟩ := (World.writesField (stores f' has')).written v
  have reading (w : World) : (t.readProperty o name).eval w = (w.heap.readField o f, w) := by
    rw [Table.eval_readProperty read, reads, World.eval_readField]
  refine ⟨later, by rw [Table.eval_writeProperty write, writes, done], ?_, ?_⟩
  · rintro rfl
    rw [reading, ← World.eval_readField later o f' []]
    exact written.read [] (by simp) o (.inr rfl) []
  · intro differ
    have declares (h : Field) (has : g.HasField owner h) : g.Declares h := by
      obtain ⟨id, -, d, found, listed⟩ := has
      exact ⟨id, d, found, listed⟩
    have constant : f.modifiers.isConstant = true := by
      rw [← Bool.not_eq_false]
      exact mt agree.mpr differ
    have backs : f'.modifiers.isConstant = false :=
      (Bool.not_eq_true' _).mp (firstField?_eq_some first').2.2
    have apart := Field.place_ne_of_constant (declares f has) (declares f' has') constant backs o
    have elsewhere := written.elsewhere o f apart []
    obtain ⟨before, here⟩ := World.readsField (stores f has) []
    rw [here] at elsewhere
    rw [reading, reading, ← World.eval_readField now o f [], ← World.eval_readField later o f []]
    exact ⟨before, here, elsewhere⟩

/-- The field that a table has on one side of a property, by its declaring type. -/
theorem Table.exists_field_of_backing {r g : Registry} {owner declaring type : TypeId} {limit : Nat}
    {t : Table} (built : (Table.build owner limit).eval r = (.ok t, g)) {side : Side} {name : String}
    (backing : t.backing side name = some (some declaring, type)) :
    ∃ (e : Entry) (f : Field), t.entry side name = .ok e ∧ e.accessor = f.accessor side ∧
      f.declaring = declaring := by
  obtain ⟨e, found, view⟩ := Option.map_eq_some_iff.mp backing
  obtain ⟨f, backed, here⟩ := Option.map_eq_some_iff.mp (congrArg Prod.fst view)
  have listed : t.entry side name = .ok e := by
    cases listed : t.entry side name <;> rw [listed] at found <;> cases found
    rfl
  obtain ⟨-, origin⟩ := build_origins built side name e (entry_eq_ok.mp listed)
  refine ⟨e, f, listed, ?_, here⟩
  cases origin with
  | getter _ _ _ _ _ => cases backed
  | setter _ _ _ _ _ => cases backed
  | reader _ _ _ _ _ _ => cases backed; rfl
  | writer _ _ _ _ _ _ => cases backed; rfl

/-- A field of a subclass shadows one of its superclass on both sides. -/
theorem field_round_trip_shadowing :
    let r := Registry.shadowing
    ∃ t g fresh reader writer f, (Table.build ⟨12⟩ Table.defaultLimit).eval r = (.ok t, g) ∧
      r.allocate ⟨12⟩ = .ok fresh ∧
      t.entry .read "x" = .ok reader ∧ reader.accessor = .readField f ∧
      t.entry .write "x" = .ok writer ∧ writer.accessor = .writeField f ∧ f.declaring = ⟨12⟩ ∧
      ∃ later, (t.writeProperty ⟨0⟩ "x" (.integer 5)).eval ((World.adding ⟨r, .empty⟩ fresh).afterAll
          [.operation (.reflect ⟨12⟩ Table.defaultLimit)]) = (.ok .null, later) ∧
        (t.readProperty ⟨0⟩ "x").eval later = (.ok (.integer 5), later) := by
  intro r
  have reachable : r.Reachable :=
    (Registry.Reachable.declared .refl _ _ _ _).declared _ _ _ _
  have backings : ((Table.build ⟨12⟩ Table.defaultLimit).eval r).1.toOption.map (fun t =>
      (t.backing .read "x", t.backing .write "x")) =
        some (some (some ⟨12⟩, Primitive.int.typeId), some (some ⟨12⟩, Primitive.int.typeId)) := by
    cbv
  have constants : (firstField? .read "x" (r.chainFields ⟨12⟩)).map (·.modifiers.isConstant) =
      some false := by cbv
  obtain ⟨fresh, allocated⟩ : ∃ fresh, r.allocate ⟨12⟩ = .ok fresh := ⟨_, by cbv⟩
  obtain ⟨t, g, built, backings⟩ := Growing.exists_eval_of_map backings
  obtain ⟨reading, writing⟩ := Prod.mk.inj backings
  obtain ⟨reader, f, read, reads, here⟩ := Table.exists_field_of_backing built reading
  obtain ⟨writer, f', write, writes, -⟩ := Table.exists_field_of_backing built writing
  have seen : g.GrowsTo ((World.adding ⟨r, .empty⟩ fresh).afterAll
      [.operation (.reflect ⟨12⟩ Table.defaultLimit)]).registry := by
    show g.GrowsTo ((Table.build ⟨12⟩ Table.defaultLimit).eval r).2
    rw [built]
    exact .refl g
  obtain ⟨first, -, agree, trips⟩ := field_round_trip reachable built read reads write writes
    (w := ⟨r, .empty⟩) allocated _ seen
  obtain rfl : f' = f := by
    rw [first] at constants
    exact agree.mpr (Option.some.inj constants)
  obtain ⟨later, written, same, -⟩ := trips (.integer 5)
  exact ⟨t, g, fresh, reader, writer, f', built, allocated, read, reads, write, writes, here, later,
    written, same rfl⟩

/-- A constant that hides a field of the superclass is read, while that field is written: what is
written is not what is read. -/
theorem round_trip_misses_constant :
    let r := Registry.hiding
    ∃ t g fresh, (Table.build ⟨12⟩ Table.defaultLimit).eval r = (.ok t, g) ∧
      r.allocate ⟨12⟩ = .ok fresh ∧
      t.backing .read "x" = some (some ⟨12⟩, Primitive.int.typeId) ∧
      t.backing .write "x" = some (some ⟨11⟩, Primitive.long.typeId) ∧
      ((do let _ ← t.writeProperty ⟨0⟩ "x" (.integer 5); t.readProperty ⟨0⟩ "x").eval
        ((World.adding ⟨r, .empty⟩ fresh).afterAll
          [.operation (.reflect ⟨12⟩ Table.defaultLimit)])).1.toOption = some (.integer 7) := by
  intro r
  have trip : ((Table.build ⟨12⟩ Table.defaultLimit).eval r).1.toOption.map (fun t =>
      (t.backing .read "x", t.backing .write "x", (r.allocate ⟨12⟩).toOption.bind fun fresh =>
        ((do let _ ← t.writeProperty ⟨0⟩ "x" (.integer 5); t.readProperty ⟨0⟩ "x").eval
          ((World.adding ⟨r, .empty⟩ fresh).afterAll
            [.operation (.reflect ⟨12⟩ Table.defaultLimit)])).1.toOption)) =
      some (some (some ⟨12⟩, Primitive.int.typeId), some (some ⟨11⟩, Primitive.long.typeId),
        some (.integer 7)) := by cbv
  obtain ⟨t, g, built, trip⟩ := Growing.exists_eval_of_map trip
  obtain ⟨read, trip⟩ := Prod.mk.inj trip
  obtain ⟨write, trip⟩ := Prod.mk.inj trip
  obtain ⟨fresh, allocated, trip⟩ := Option.bind_eq_some_iff.mp trip
  refine ⟨t, g, fresh, built, ?_, read, write, trip⟩
  cases done : r.allocate ⟨12⟩ <;> rw [done] at allocated <;> cases allocated
  rfl

end PropertyTables
