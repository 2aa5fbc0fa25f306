import PropertyTables.Proofs.Table.DepthLimit

/-! # Fields as a fallback

Where no method makes an entry, the first field of that name makes it, in the order in which the
classes of a chain are gone through.

* `Registry.chainFields`: the fields of a chain, most derived class first.
* `Field.backs`, `firstField?`: the fields that a side of a property takes, and the first of a name.
* `FilledBy`: what a list of fields makes of one entry. `addField_filledBy` says it of one field, and
  `addFields_filledBy` of a whole chain.
* `Table.build_filledBy`: so the entries of a table are those of methods, filled up.
-/

namespace PropertyTables
set_option autoImplicit false

open Growing (Lasting)

/-! ## Fields of a chain -/

namespace Registry

/-- The fields that a type declares; none without a declaration. -/
def fieldsOf (r : Registry) (id : TypeId) : List Field := (r.find? id).elim [] (·.fields)

theorem fieldsOf_of_find? {r : Registry} {id : TypeId} {d : Declaration}
    (found : r.find? id = some d) : r.fieldsOf id = d.fields := by
  rw [fieldsOf, found, Option.elim_some]

/-- The fields of a type and of the classes above it, most derived class first. -/
def chainFields (r : Registry) (id : TypeId) : List Field := (r.superclassChain id).flatMap r.fieldsOf

variable {r later : Registry} {id : TypeId}

theorem GrowsTo.chainFields (grows : r.GrowsTo later)
    (declared : ∀ c ∈ r.superclassChain id, r.Published c) :
    later.chainFields id = r.chainFields id := by
  rw [Registry.chainFields, Registry.chainFields, grows.superclassChain declared]
  refine List.flatMap_congr fun c listed => ?_
  rw [fieldsOf, fieldsOf, grows.find? (declared c listed)]

end Registry

/-! ## Fields and sides -/

/-- Whether a side of a property takes a field. A constant is never written. -/
def Field.backs (f : Field) : Side → Bool
  | .read => true
  | .write => !f.modifiers.isConstant

def Field.accessor (f : Field) : Side → Accessor
  | .read => .readField f
  | .write => .writeField f

/-- The first field of a name that a side takes. -/
def firstField? (side : Side) (name : String) (fields : List Field) : Option Field :=
  fields.find? fun f => f.name == name && f.backs side

/-- The entries of one side. -/
def Sides.entries (s : Sides) : Side → Index Entry
  | .read => s.readers
  | .write => s.writers

variable {r : Registry} {owner : TypeId} {side : Side} {name : String}

/-- Whether an entry is the one that a field makes: its type is resolved as seen from the owner, and
then erased. -/
def Field.Makes (r : Registry) (owner : TypeId) (side : Side) (f : Field) (e : Entry) : Prop :=
  ∃ generic type, r.resolveField f owner = .ok generic ∧ generic.erase.eval r = (.ok type, r) ∧
    e = ⟨⟨f.accessor side, type⟩, type, generic⟩

/-- One field makes the entry of its name on each side that takes it, where there is none. -/
theorem addField_side {f : Field} {made after : Sides}
    (done : (addField owner made f).eval r = (.ok after, r)) (side : Side) :
    ((PropertyName.isExcluded f.name = true ∨ f.backs side = false ∨
        (made.entries side).contains f.name = true) ∧ after.entries side = made.entries side) ∨
    (PropertyName.isExcluded f.name = false ∧ f.backs side = true ∧
      (made.entries side).contains f.name = false ∧
      ∃ e, f.Makes r owner side e ∧ after.entries side = (made.entries side).insert f.name e) := by
  simp only [addField] at done
  split at done
  · rename_i nothing
    cases done
    refine .inl ⟨?_, rfl⟩
    rcases Bool.or_eq_true_iff.mp nothing with excluded | neither
    · exact .inl excluded
    rw [Bool.not_eq_true', Bool.or_eq_false_iff] at neither
    obtain ⟨unwritten, unread⟩ := neither
    cases side with
    | read => exact .inr (.inr ((Bool.not_eq_false' _).mp unread))
    | write =>
      rcases Bool.and_eq_false_iff.mp unwritten with there | constant
      · exact .inr (.inr ((Bool.not_eq_false' _).mp there))
      · exact .inr (.inl constant)
  · rename_i some_side
    have included : PropertyName.isExcluded f.name = false := by
      rw [Bool.or_eq_true, not_or] at some_side
      exact Bool.eq_false_iff.mpr some_side.1
    have reading := Lasting.read (Registry.resolveField_stable f owner)
    obtain ⟨generic, resolved, done⟩ :=
      (reading.bind_settled fun generic => generic.erase_lasting.map _).mp done
    obtain ⟨type, erased, done⟩ := (generic.erase_lasting.bind_settled fun _ => .pure _).mp done
    have makes (side : Side) : f.Makes r owner side ⟨⟨f.accessor side, type⟩, type, generic⟩ :=
      ⟨generic, type, congrArg Prod.fst resolved, erased, rfl⟩
    cases done
    cases side with
    | read =>
      cases there : made.readers.contains f.name with
      | true => exact .inl ⟨.inr (.inr there), by simp [Sides.entries]⟩
      | false =>
        refine .inr ⟨included, rfl, there, _, makes .read, ?_⟩
        simp [Sides.entries, Field.accessor]
    | write =>
      cases there : made.writers.contains f.name with
      | true => exact .inl ⟨.inr (.inr there), by simp [Sides.entries]⟩
      | false =>
        cases constant : f.modifiers.isConstant with
        | true =>
          exact .inl ⟨.inr (.inl (by rw [Field.backs, constant]; rfl)), by simp [Sides.entries]⟩
        | false =>
          refine .inr ⟨included, by rw [Field.backs, constant]; rfl, there, _, makes .write, ?_⟩
          simp [Sides.entries, Field.accessor]

/-! ## What fields make of an entry -/

/-- An entry that is there stays; where there is none, the first field of the name makes it, if there
is one that the side takes. -/
inductive FilledBy (r : Registry) (owner : TypeId) (side : Side) (name : String)
    (fields : List Field) (before after : Option Entry) : Prop
  | kept (there : before.isSome) (same : after = before)
  | missing (none_before : before = none) (unnamed : firstField? side name fields = none)
      (none_after : after = none)
  | filled (f : Field) (e : Entry) (none_before : before = none)
      (first : firstField? side name fields = some f) (makes : f.Makes r owner side e)
      (entry : after = some e)

namespace FilledBy

theorem nil (entry : Option Entry) : FilledBy r owner side name [] entry entry := by
  cases entry with
  | none => exact .missing rfl rfl rfl
  | some e => exact .kept rfl rfl

theorem append {first second : List Field} {before middle after : Option Entry}
    (h : FilledBy r owner side name first before middle)
    (h' : FilledBy r owner side name second middle after) :
    FilledBy r owner side name (first ++ second) before after := by
  have search : firstField? side name (first ++ second) =
      (firstField? side name first).or (firstField? side name second) := List.find?_append
  cases h with
  | kept there same =>
    cases h' with
    | kept _ same' => exact .kept there (same'.trans same)
    | missing gone _ _ => rw [← same, gone] at there; cases there
    | filled _ _ gone _ _ _ => rw [← same, gone] at there; cases there
  | missing gone unnamed none_after =>
    rw [unnamed, Option.none_or] at search
    cases h' with
    | kept there _ => rw [none_after] at there; cases there
    | missing _ unnamed' gone' => exact .missing gone (search.trans unnamed') gone'
    | filled f e _ named makes entry => exact .filled f e gone (search.trans named) makes entry
  | filled f e gone named makes entry =>
    rw [named, Option.some_or] at search
    cases h' with
    | kept _ same' => exact .filled f e gone search makes (same'.trans entry)
    | missing gone' _ _ => rw [entry] at gone'; cases gone'
    | filled _ _ gone' _ _ _ => rw [entry] at gone'; cases gone'

end FilledBy

theorem addField_filledBy {f : Field} {made after : Sides}
    (included : PropertyName.isExcluded name = false)
    (done : (addField owner made f).eval r = (.ok after, r)) (side : Side) :
    FilledBy r owner side name [f] ((made.entries side).find? name)
      ((after.entries side).find? name) := by
  have search : firstField? side name [f] =
      if f.name == name && f.backs side then some f else none := by
    rw [firstField?, List.find?_singleton]
  rcases addField_side done side with ⟨reason, same⟩ | ⟨-, backs, missing, e, makes, inserted⟩
  · rw [same]
    cases there : (made.entries side).find? name with
    | some e => exact .kept rfl rfl
    | none =>
      refine .missing rfl ?_ rfl
      rw [search, if_neg]
      intro both
      obtain ⟨named, backs⟩ := Bool.and_eq_true_iff.mp both
      rw [beq_iff_eq.mp named, included, backs, Index.contains, there] at reason
      simp at reason
  · rw [inserted, Index.find?_insert]
    by_cases here : name = f.name
    · subst here
      rw [Index.contains, Option.isSome_eq_false_iff, Option.isNone_iff_eq_none] at missing
      rw [missing, if_pos rfl]
      exact .filled f e rfl (by rw [search, beq_self_eq_true, backs]; rfl) makes rfl
    · rw [if_neg here]
      cases there : (made.entries side).find? name with
      | some e => exact .kept rfl rfl
      | none =>
        refine .missing rfl ?_ rfl
        rw [search, beq_eq_false_iff_ne.mpr (Ne.symm here)]
        rfl

theorem foldlM_addField_filledBy {fields : List Field} {made after : Sides}
    (included : PropertyName.isExcluded name = false)
    (done : (fields.foldlM (addField owner) made).eval r = (.ok after, r)) (side : Side) :
    FilledBy r owner side name fields ((made.entries side).find? name)
      ((after.entries side).find? name) := by
  induction fields generalizing made with
  | nil =>
    cases done
    exact .nil _
  | cons f rest ih =>
    rw [List.foldlM_cons] at done
    obtain ⟨next, first, done⟩ := ((addField_lasting owner made f).bind_settled fun next =>
      Lasting.foldlM (addField_lasting owner) rest next).mp done
    exact (addField_filledBy included first side).append (ih done)

/-! ## The whole chain -/

/-- Going through the classes of a chain is going through its fields. -/
theorem addFields_eq_foldlM {limit room : Nat} {start : Option TypeId} {made after : Sides}
    (done : (addFields owner limit room start made).eval r = (.ok after, r)) :
    ((start.elim [] r.chainFields).foldlM (addField owner) made).eval r = (.ok after, r) := by
  have ends := addFields_within done
  induction room generalizing start made with
  | zero =>
    cases start with
    | none => exact done
    | some id => cases done
  | succ room ih =>
    cases start with
    | none => exact done
    | some id =>
      rw [addFields] at done
      have filling (d : Declaration) := Lasting.foldlM (addField_lasting owner) d.fields made
      have going_on (d : Declaration) := addFields_lasting owner limit room d.superclass?
      obtain ⟨d, found, done⟩ := ((Lasting.read (Registry.find_stable id)).bind_settled fun d =>
        (filling d).bind (going_on d)).mp done
      obtain ⟨next, first, done⟩ := ((filling d).bind_settled (going_on d)).mp done
      have found := Registry.find_eq_ok.mp (congrArg Prod.fst found)
      have above := Registry.superclass?_of_find? found
      have here := Registry.fieldsOf_of_find? found
      have chain : r.chainFields id = d.fields ++ d.superclass?.elim [] r.chainFields := by
        rw [Registry.chainFields, Registry.superclassChain_cons (Registry.notMem_of_ends ends),
          List.flatMap_cons, here, above]
        cases d.superclass? <;> rfl
      rw [Option.elim_some, chain, List.foldlM_append]
      exact ((filling d).bind_settled fun next => Lasting.foldlM (addField_lasting owner) _ next).mpr
        ⟨next, first, ih done (addFields_within done)⟩

theorem addFields_filledBy {limit room : Nat} {made after : Sides}
    (included : PropertyName.isExcluded name = false)
    (done : (addFields owner limit room (some owner) made).eval r = (.ok after, r)) (side : Side) :
    FilledBy r owner side name (r.chainFields owner) ((made.entries side).find? name)
      ((after.entries side).find? name) :=
  foldlM_addField_filledBy included (addFields_eq_foldlM done) side

/-- The entries of a table are those that methods made, filled up by the fields of the chain. -/
theorem Table.build_filledBy {limit : Nat} {t : Table} {s : Registry}
    (done : (Table.build owner limit).eval s = (.ok t, r)) :
    ∃ made : Sides, made.Each (fun _ e => e.accessor.field? = none) ∧
      ∀ side name, PropertyName.isExcluded name = false → FilledBy r owner side name
        (r.chainFields owner) ((made.entries side).find? name) ((t.entries side).find? name) := by
  obtain ⟨_, _, readers, writers, sides, _, -, -, got, set, filled, -, rfl⟩ := build_settled done
  refine ⟨⟨readers, writers⟩, ⟨getterEntries_methods got, setterEntries_methods set⟩, ?_⟩
  intro side name included
  have fills := addFields_filledBy included filled side
  cases side <;> exact fills

/-- An entry that a field backs is one of the first field of its name that the side takes. -/
theorem Table.build_firstField {limit : Nat} {t : Table} {s : Registry}
    (done : (Table.build owner limit).eval s = (.ok t, r)) {e : Entry} {f : Field}
    (listed : t.entry side name = .ok e) (backed : e.accessor = f.accessor side) :
    firstField? side name (r.chainFields owner) = some f := by
  have found := entry_eq_ok.mp listed
  obtain ⟨included, -⟩ := build_origins done side name e found
  obtain ⟨made, methods, fills⟩ := build_filledBy done
  have fill := fills side name included
  rw [found] at fill
  cases fill with
  | kept there same =>
    have none_backs : e.accessor.field? = none := by
      cases side
      · exact methods.1.of_find? same.symm
      · exact methods.2.of_find? same.symm
    rw [backed] at none_backs
    cases side <;> cases none_backs
  | missing _ _ none_after => cases none_after
  | filled f' e' _ first makes entry =>
    obtain rfl := Option.some.inj entry
    obtain ⟨_, _, -, -, rfl⟩ := makes
    have same : f'.accessor side = f.accessor side := backed
    obtain rfl : f' = f := by
      cases side <;> cases same <;> rfl
    exact first

end PropertyTables
