import PropertyTables.Proofs.Registry.Evaluation
import PropertyTables.Proofs.Table.Naming
import PropertyTables.Proofs.Table.Passes

/-! # What holds of all entries of a table

* `Index.Each`: a property of every value of an index.
* `build_ensures`: what the makers of entries guarantee holds of every entry of every table. The
  three passes, over getters, setters and fields, only ever add what one of the makers made.
-/

namespace PropertyTables
set_option autoImplicit false

/-! ## Indexes -/

namespace Index
variable {α : Type} {P : α → Prop}

/-- Whether `P` holds of every value. -/
def Each (P : α → Prop) (x : Index α) : Prop := ∀ e ∈ x.entries, P e.2

theorem each_empty : Each P {} := fun _ he => absurd he List.not_mem_nil

theorem Each.insert {x : Index α} (hx : x.Each P) (name : String) {value : α} (h : P value) :
    (x.insert name value).Each P := by
  intro e he
  rcases mem_place he with rfl | he
  · exact h
  · exact hx e he

theorem Each.ite {x y : Index α} {c : Prop} [Decidable c] (hx : x.Each P) (hy : y.Each P) :
    (if c then x else y).Each P := by
  split
  · exact hx
  · exact hy

theorem Each.of_find? {x : Index α} (hx : x.Each P) {name : String} {value : α}
    (found : x.find? name = some value) : P value := by
  obtain ⟨before, after, split⟩ := List.lookup_eq_some_iff.mp found
  exact hx (name, value) (by simp [split])

end Index

/-! ## The passes -/

section Passes
variable {type : TypeId} {P : Side → Entry → Prop}

theorem passEntries_ensures {Q : Entry → Prop} {make : Method → Growing Entry}
    (makes : ∀ m, (make m).Ensures Q) (resolve : String → Growing (Option Method))
    (properties : List String) {made : Index Entry} (h : made.Each Q) :
    (passEntries resolve make made properties).Ensures (Index.Each Q) := by
  induction properties generalizing made with
  | nil => exact .pure h
  | cons property rest ih =>
    rw [passEntries]
    refine .of_next fun winner => ?_
    cases winner with
    | none => exact ih h
    | some m =>
      by_cases excluded : PropertyName.isExcluded property = true
      · simpa only [excluded, if_true] using ih h
      · simp only [excluded]
        exact (makes m).bind fun entry hentry => ih (h.insert property hentry)

theorem getterEntries_ensures (getter : ∀ m, (getterEntry type m).Ensures (P .read))
    (pairs : List (String × Method)) (properties : List String) {made : Index Entry}
    (h : made.Each (P .read)) :
    (getterEntries type pairs made properties).Ensures (Index.Each (P .read)) := by
  rw [getterEntries_eq]
  exact passEntries_ensures getter _ properties h

theorem setterEntries_ensures (setter : ∀ m, (setterEntry type m).Ensures (P .write))
    (pairs : List (String × Method)) (readers : Index Entry) (properties : List String)
    {made : Index Entry} (h : made.Each (P .write)) :
    (setterEntries type pairs readers made properties).Ensures (Index.Each (P .write)) := by
  rw [setterEntries_eq]
  exact passEntries_ensures setter _ properties h

/-- A property of the entries of both sides. -/
def Sides.Each (P : Side → Entry → Prop) (s : Sides) : Prop :=
  s.readers.Each (P .read) ∧ s.writers.Each (P .write)

/-- What a field's entries on the two sides have to satisfy, once its type is resolved. -/
def FieldEntries (type : TypeId) (P : Side → Entry → Prop) : Prop :=
  ∀ (r : Registry) (f : Field) (erased : TypeId) (generic : GenericType),
    r.resolveField f type = .ok generic →
      P .read ⟨⟨.readField f, erased⟩, erased, generic⟩ ∧
        P .write ⟨⟨.writeField f, erased⟩, erased, generic⟩

theorem addField_ensures (field : FieldEntries type P) {made : Sides} (h : made.Each P)
    (f : Field) : (addField type made f).Ensures (Sides.Each P) := by
  simp only [addField]
  split
  · exact .pure h
  · refine (Growing.Ensures.read (P := fun generic => ∃ r, Registry.resolveField r f type =
      .ok generic) fun r generic ok => ⟨r, ok⟩).bind ?_
    rintro generic ⟨r, ok⟩
    refine .of_next fun erased => .pure ?_
    obtain ⟨read, write⟩ := field r f erased generic ok
    exact ⟨.ite (h.1.insert f.name read) h.1, .ite (h.2.insert f.name write) h.2⟩

theorem addFields_ensures (field : FieldEntries type P) (limit room : Nat) (id : Option TypeId)
    {made : Sides} (h : made.Each P) :
    (addFields type limit room id made).Ensures (Sides.Each P) := by
  induction room generalizing id made with
  | zero =>
    cases id with
    | none => exact .pure h
    | some id => exact .throw _
  | succ room ih =>
    cases id with
    | none => exact .pure h
    | some id =>
      rw [addFields]
      refine .of_next fun d => ?_
      exact (Growing.Ensures.foldlM (fun made f h => addField_ensures field h f) d.fields h).bind
        fun made h => ih d.superclass? h

theorem build_ensures (getter : ∀ m, (getterEntry type m).Ensures (P .read))
    (setter : ∀ m, (setterEntry type m).Ensures (P .write)) (field : FieldEntries type P)
    (limit : Nat) :
    (Table.build type limit).Ensures fun t => ∀ side, (t.entries side).Each (P side) := by
  rw [Table.build_eq]
  refine .of_next fun name => .of_next fun methods => ?_
  refine (getterEntries_ensures getter _ _ Index.each_empty).bind fun readers hr => ?_
  refine (setterEntries_ensures setter _ _ _ Index.each_empty).bind fun writers hw => ?_
  refine (addFields_ensures field limit limit (some type) ⟨hr, hw⟩).bind fun sides hs => ?_
  refine .of_next fun d => .pure fun side => ?_
  cases side with
  | read => exact hs.1
  | write => exact hs.2

end Passes

theorem Table.entry_eq_ok {t : Table} {side : Side} {name : String} {e : Entry} :
    t.entry side name = .ok e ↔ (t.entries side).find? name = some e := by
  rw [entry]
  cases (t.entries side).find? name <;> simp

end PropertyTables
