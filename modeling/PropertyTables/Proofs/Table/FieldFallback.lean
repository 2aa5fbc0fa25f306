import PropertyTables.Proofs.Table.ChainFields
import PropertyTables.Proofs.Table.Members

/-! # Fields only fill gaps

* `addFields_fieldless`: going up a chain without fields adds nothing.
* `Registry.withoutFields`: the registry with the fields of some types taken away.
* `fields_fill_gaps`: a table has the entries of methods that it would have without fields, and
  otherwise those of the first fields of their names.
-/

namespace PropertyTables
set_option autoImplicit false

open Growing (Lasting Blind)

/-! ## Chains of declared classes -/

namespace Registry
variable {r : Registry} {φ : MemberMap} {limit room : Nat} {id : TypeId}

@[simp] theorem ancestor?_mapMembers (n : Nat) (id : TypeId) :
    (r.mapMembers φ).ancestor? n id = r.ancestor? n id := by
  induction n generalizing id with
  | zero => rfl
  | succ n ih =>
    rw [ancestor?, ancestor?, superclass?_mapMembers]
    exact congrArg _ (funext ih)

end Registry

section
variable {r grown : Registry} {owner : TypeId} {limit room : Nat}

/-- All classes of a chain are declared if there is a table. -/
theorem Table.build_chain_published {t : Table} (reachable : r.Reachable)
    (done : (Table.build owner limit).eval r = (.ok t, grown)) :
    ∀ c ∈ r.superclassChain owner, r.Published c := by
  rw [Table.build_eq] at done
  obtain ⟨_, _, named, done⟩ := Growing.bind_eval_ok.mp done
  obtain ⟨-, rfl⟩ := Prod.mk.inj named
  obtain ⟨_, _, collected, -⟩ := Growing.bind_eval_ok.mp done
  obtain ⟨chain, walked⟩ := collectMethods_accepts collected
  intro c listed
  rcases Registry.classChain_published reachable.superclass?_object walked owner rfl c listed with
    rfl | declared
  · exact reachable.published_object
  · exact declared

/-- Going up a chain of declared classes without fields adds nothing. -/
theorem addFields_fieldless {start : Option TypeId} (made : Sides)
    (declared : ∀ id ∈ start, ∀ c ∈ r.superclassChain id, r.Published c)
    (fieldless : ∀ id ∈ start, ∀ c ∈ r.superclassChain id, r.fieldsOf c = [])
    (ends : start.bind (r.ancestor? room) = none) :
    (addFields owner limit room start made).eval r = (.ok made, r) := by
  induction room generalizing start with
  | zero =>
    cases start with
    | none => rfl
    | some id => cases ends
  | succ room ih =>
    cases start with
    | none => rfl
    | some id =>
      have here := r.self_mem_superclassChain id
      obtain ⟨d, found⟩ := Registry.published_iff.mp (declared id rfl id here)
      have none_here : d.fields = [] :=
        (Registry.fieldsOf_of_find? found).symm.trans (fieldless id rfl id here)
      have parent := Registry.superclass?_of_find? found
      have above : ∀ p ∈ d.superclass?, ∀ c ∈ r.superclassChain p, c ∈ r.superclassChain id := by
        intro p named c listed
        have edge : r.DeclaredSuperclass id p := parent.trans named
        exact Registry.superclassChain_trans
          (Registry.mem_superclassChain_iff.mpr (.single edge)) listed
      rw [Option.bind_some, Registry.ancestor?, parent] at ends
      rw [addFields, Growing.eval_bind, Growing.eval_read, Registry.find_eq_ok.mpr found]
      show (d.fields.foldlM (addField owner) made >>= fun made => _).eval r = _
      rw [none_here, List.foldlM_nil]
      exact ih (fun p named c listed => declared id rfl c (above p named c listed))
        (fun p named c listed => fieldless id rfl c (above p named c listed)) ends

end

/-! ## Taking fields away -/

/-- The members without the fields. -/
def Members.withoutFields {owner : TypeId} (ms : Members owner) : Members owner :=
  { ms with fields := [], fields_declaring := Members.none_fields owner }

/-- The registry without the fields of the given types. -/
def Registry.withoutFields (r : Registry) (among : List TypeId) : Registry :=
  r.mapMembers fun id ms => if id ∈ among then ms.withoutFields else ms

theorem Registry.fieldsOf_withoutFields {r : Registry} {among : List TypeId} {id : TypeId}
    (listed : id ∈ among) : (r.withoutFields among).fieldsOf id = [] := by
  rw [fieldsOf, withoutFields, find?_mapMembers]
  cases found : r.find? id with
  | none => rfl
  | some d =>
    rw [← id_of_find? found] at listed
    rw [Option.map_some, Option.elim_some, Declaration.mapMembers, Declaration.fields, if_pos listed]
    rfl

/-! ## What fields add to a table -/

/-- Without its fields a type that has a table has one of the same methods. -/
theorem Table.build_withoutFields {r grown : Registry} {owner : TypeId} {limit : Nat} {t : Table}
    {among : List TypeId} (reachable : r.Reachable)
    (hierarchy : ∀ c ∈ r.superclassChain owner, c ∈ among)
    (done : (Table.build owner limit).eval r = (.ok t, grown)) :
    ∃ t' grown' made middle, (Table.build owner limit).eval (r.withoutFields among) = (.ok t', grown') ∧
      (∀ side, t'.entries side = made.entries side) ∧
      (methodEntries owner limit).eval r = (.ok made, middle) := by
  let φ : MemberMap := fun id ms => if id ∈ among then ms.withoutFields else ms
  have nothing : φ.KeepsNone := by
    intro id
    show (if _ then _ else _) = _
    split <;> rfl
  have methods_kept (id : TypeId) (ms : Members id) : (φ id ms).methods = ms.methods := by
    show (if _ then _ else _ : Members id).methods = _
    split <;> rfl
  have published := build_chain_published reachable done
  have interned := (build_lasting owner limit).interns_of_eval done
  have ends := build_within done
  rw [interned.growsTo.ancestor? published] at ends
  obtain ⟨name, made, middle, -, -, named, methods, -⟩ := build_eval_ok.mp done
  have grows := ((methodEntries_lasting owner limit).interns_of_eval methods).growsTo
  have methods' : (methodEntries owner limit).eval (r.withoutFields among) =
      (.ok made, middle.withoutFields among) := by
    have blind := methodEntries_blind nothing (fun id ms => congrArg plainMethods
      (methods_kept id ms)) owner limit r
    rwa [methods] at blind
  have chain : (middle.withoutFields among).superclassChain owner = r.superclassChain owner :=
    (middle.superclassChain_mapMembers owner).trans (grows.superclassChain published)
  have declared (c : TypeId) (listed : c ∈ r.superclassChain owner) :
      (middle.withoutFields among).Published c :=
    middle.published_mapMembers.mpr (grows.declared.published (published c listed))
  have unfilled : (addFields owner limit limit (some owner) made).eval
      (middle.withoutFields among) = (.ok made, middle.withoutFields among) := by
    refine addFields_fieldless made ?_ ?_ ?_
    · rintro _ ⟨⟩ c listed
      exact declared c (chain ▸ listed)
    · rintro _ ⟨⟩ c listed
      exact Registry.fieldsOf_withoutFields (hierarchy c (chain ▸ listed))
    · show (middle.mapMembers φ).ancestor? limit owner = none
      rw [Registry.ancestor?_mapMembers, grows.ancestor? published, ends]
  obtain ⟨d, found⟩ :=
    Registry.published_iff.mp (declared owner (r.self_mem_superclassChain owner))
  refine ⟨_, _, made, middle, build_eval_ok.mpr ⟨name, made, _, made, d,
    (r.fullName_mapMembers owner).trans named, methods', unfilled,
    Registry.find_eq_ok.mpr found, rfl⟩, ?_, methods⟩
  intro side
  cases side <;> rfl

theorem exists_accessor_of_field? {e : Entry} (unbacked : e.accessor.field? = none) :
    ∃ m, e.accessor = .method m := by
  cases accessor : e.accessor with
  | method m => exact ⟨m, rfl⟩
  | readField f => rw [accessor] at unbacked; cases unbacked
  | writeField f => rw [accessor] at unbacked; cases unbacked

theorem firstField?_isSome {side : Side} {name : String} {fields : List Field} :
    (firstField? side name fields).isSome ↔
      ∃ f ∈ fields, f.name = name ∧ f.backs side = true := by
  simp only [firstField?, List.find?_isSome, Bool.and_eq_true, beq_iff_eq]

/-- The entries of methods are what they would be if the hierarchy declared no fields. Under a name
that no method has an entry for, there is an entry exactly if a class of the chain declares a field
of that name that the side takes, and it is the entry of the first such field, most derived class
first. -/
theorem fields_fill_gaps {r grown : Registry} {owner : TypeId} {limit : Nat} {t : Table}
    {among : List TypeId} (reachable : r.Reachable)
    (hierarchy : ∀ c ∈ r.superclassChain owner, c ∈ among)
    (done : (Table.build owner limit).eval r = (.ok t, grown)) :
    (∃ t' grown', (Table.build owner limit).eval (r.withoutFields among) = (.ok t', grown') ∧
      ∀ side name e, t'.entry side name = .ok e ↔
        t.entry side name = .ok e ∧ ∃ m, e.accessor = .method m) ∧
    ∀ side name, PropertyName.isExcluded name = false →
      (∀ e m, t.entry side name = .ok e → e.accessor ≠ .method m) →
      (t.has side name = true ↔ ∃ f ∈ r.chainFields owner, f.name = name ∧ f.backs side = true) ∧
      ∀ f, firstField? side name (r.chainFields owner) = some f →
        ∃ generic type, grown.resolveField f owner = .ok generic ∧
          generic.erase.eval grown = (.ok type, grown) ∧
          t.entry side name = .ok ⟨⟨f.accessor side, type⟩, type, generic⟩ := by
  obtain ⟨t', grown', made, middle, done', same, methods⟩ :=
    Table.build_withoutFields reachable hierarchy done
  have interned := (build_lasting owner limit).interns_of_eval done
  have chain := interned.growsTo.chainFields (Table.build_chain_published reachable done)
  obtain ⟨_, made', _, sides, d, -, methods', filled, -, built⟩ := Table.build_eval_ok.mp done
  obtain ⟨same_made, rfl⟩ := Prod.mk.inj (methods.symm.trans methods')
  obtain rfl := Except.ok.inj same_made
  have filled := (addFields_lasting owner _ _ _ _).again filled
  have entries (side : Side) : t.entries side = sides.entries side := by
    rw [built]
    cases side <;> rfl
  have of_method (side : Side) {name : String} {e : Entry}
      (found : (made.entries side).find? name = some e) : ∃ m, e.accessor = .method m := by
    have all := methodEntries_methods methods
    cases side
    · exact exists_accessor_of_field? (all.1.of_find? found)
    · exact exists_accessor_of_field? (all.2.of_find? found)
  refine ⟨⟨t', grown', done', fun side name e => ?_⟩, fun side name included unresolved => ?_⟩
  · have grows : (made.entries side).FilledFrom (sides.entries side) := by
      cases side
      · exact (addFields_filled filled).1
      · exact (addFields_filled filled).2
    rw [Table.entry_eq_ok, Table.entry_eq_ok, same side, entries side]
    constructor
    · exact fun found => ⟨grows.find? found, of_method side found⟩
    · rintro ⟨found, m, method⟩
      exact grows.find?_method found method
  · have fills := addFields_filledBy included filled side
    rw [chain, ← entries side] at fills
    have has : t.has side name = ((t.entries side).find? name).isSome := rfl
    rw [has, ← firstField?_isSome]
    cases fills with
    | kept there same =>
      -- an entry from before the fields would be one of a method
      obtain ⟨e, found⟩ := Option.isSome_iff_exists.mp there
      obtain ⟨m, method⟩ := of_method side found
      exact absurd method (unresolved e m (Table.entry_eq_ok.mpr (same.trans found)))
    | missing _ unnamed none_after =>
      rw [unnamed, none_after]
      exact ⟨Iff.rfl, nofun⟩
    | filled f e _ first makes entry =>
      obtain ⟨generic, type, resolved, erased, rfl⟩ := makes
      rw [first, entry]
      refine ⟨Iff.rfl, ?_⟩
      rintro _ ⟨⟩
      exact ⟨generic, type, resolved, erased, Table.entry_eq_ok.mpr entry⟩

/-- A class with a getter and two fields, and a subclass with a constant that hides one of them. -/
def Registry.hiding : Registry :=
  (initial.declared "" "Base" .classType fun d =>
    ((d.getter "getName" (.named .string)).privateField "name" (.named .string)).privateField "x"
      (.named Primitive.long.typeId)).declared "" "Derived" .classType fun d =>
        (d.extending (.named ⟨11⟩)).constant "x" (.named Primitive.int.typeId) (.integer 7)

/-- What a table says of a property: who backs it, and its type. -/
def Table.backing (t : Table) (side : Side) (name : String) : Option (Option TypeId × TypeId) :=
  (t.entry side name).toOption.map fun e => (e.accessor.field?.map (·.declaring), e.type)

/-- The getter stays, the constant is read, and the hidden field is written. -/
theorem fields_fill_gaps_hiding :
    let r := Registry.hiding
    ∃ t grown, (Table.build ⟨12⟩ Table.defaultLimit).eval r = (.ok t, grown) ∧
      t.backing .read "name" = some (none, .string) ∧
      t.backing .read "x" = some (some ⟨12⟩, Primitive.int.typeId) ∧
      t.backing .write "x" = some (some ⟨11⟩, Primitive.long.typeId) ∧
      (∃ t' grown', (Table.build ⟨12⟩ Table.defaultLimit).eval
        (r.withoutFields [⟨12⟩, ⟨11⟩, .object]) = (.ok t', grown') ∧
        ∃ e, t.entry .read "name" = .ok e ∧ t'.entry .read "name" = .ok e) ∧
      ∃ f, firstField? .write "x" (r.chainFields ⟨12⟩) = some f ∧
        ∃ e, t.entry .write "x" = .ok e ∧ e.accessor = .writeField f := by
  intro r
  have reachable : r.Reachable :=
    (Registry.Reachable.declared .refl _ _ _ _).declared _ _ _ _
  have chain : r.superclassChain ⟨12⟩ = [⟨12⟩, ⟨11⟩, .object] := by cbv
  have backings : ((Table.build ⟨12⟩ Table.defaultLimit).eval r).1.toOption.map
      (fun t => (t.backing .read "name", t.backing .read "x", t.backing .write "x")) =
        some (some (none, .string), some (some ⟨12⟩, Primitive.int.typeId),
          some (some ⟨11⟩, Primitive.long.typeId)) := by cbv
  have first : (firstField? .write "x" (r.chainFields ⟨12⟩)).isSome := by cbv
  obtain ⟨t, grown, done, backings⟩ := Growing.exists_eval_of_map backings
  obtain ⟨name, backings⟩ := Prod.mk.inj backings
  obtain ⟨read, write⟩ := Prod.mk.inj backings
  have inside : ∀ c ∈ r.superclassChain ⟨12⟩, c ∈ [⟨12⟩, ⟨11⟩, TypeId.object] := by simp [chain]
  obtain ⟨⟨t', grown', done', methods⟩, fills⟩ := fields_fill_gaps reachable inside done
  obtain ⟨f, first⟩ := Option.isSome_iff_exists.mp first
  refine ⟨t, grown, done, name, read, write, ⟨t', grown', done', ?_⟩, f, first, ?_⟩
  · obtain ⟨e, found, backing⟩ := Option.map_eq_some_iff.mp name
    obtain ⟨unbacked, -⟩ := Prod.mk.inj backing
    have found : t.entry .read "name" = .ok e := by
      cases listed : t.entry .read "name" <;> rw [listed] at found <;> cases found
      rfl
    have method := exists_accessor_of_field? (Option.map_eq_none_iff.mp unbacked)
    exact ⟨e, found, (methods .read "name" e).mpr ⟨found, method⟩⟩
  · have unresolved : ∀ e m, t.entry .write "x" = .ok e → e.accessor ≠ .method m := by
      intro e m listed method
      rw [Table.backing, listed] at write
      simp [method, Accessor.field?, Except.toOption] at write
    obtain ⟨generic, type, -, -, listed⟩ := (fills .write "x" rfl unresolved).2 f first
    exact ⟨_, listed, rfl⟩

end PropertyTables
