import PropertyTables.Proofs.Hierarchy.SuperclassChain
import PropertyTables.Proofs.Table.Entries
import PropertyTables.Proofs.Table.Lasting

/-! # Where entries come from

Tables are looked at in the registry that building them leaves. There nothing more is interned, so
that all parts of a build can be looked at in one and the same registry.

* `Entry.Origin`: the four ways in which an entry is made.
* `Index.Origins`: all entries are made in these ways. The passes over getters, setters and fields
  add nothing else.
* `Index.FilledFrom`: fields make entries only where methods made none.
* `Table.build_settled`: the steps of a build, all in one registry.
* `Table.build_origins`: where the entries of a table come from.
* `Table.build_fields`: a field behind an entry is declared in the superclass chain.
-/

namespace PropertyTables
set_option autoImplicit false

open Growing (Lasting)

variable {r : Registry} {owner : TypeId} {name : String}

/-! ## Origins -/

/-- How an entry for `name` is made in the table of `owner`: by a method or a field, whose type is
resolved and then erased. -/
inductive Entry.Origin (r : Registry) (owner : TypeId) (name : String) : Side → Entry → Prop
  | getter (m : Method) (generic : GenericType) (type : TypeId)
      (resolved : r.resolveReturn m owner = .ok generic)
      (erased : generic.erase.eval r = (.ok type, r)) :
      Origin r owner name .read ⟨⟨.method m, type⟩, type, generic⟩
  | setter (m : Method) (generics : List GenericType) (type : TypeId)
      (resolved : r.resolveParams m owner = .ok generics)
      (erased : (generics.headD (.named .object)).erase.eval r = (.ok type, r)) :
      Origin r owner name .write ⟨⟨.method m, type⟩, type, generics.headD (.named .object)⟩
  | reader (f : Field) (generic : GenericType) (type : TypeId) (named : f.name = name)
      (resolved : r.resolveField f owner = .ok generic)
      (erased : generic.erase.eval r = (.ok type, r)) :
      Origin r owner name .read ⟨⟨.readField f, type⟩, type, generic⟩
  | writer (f : Field) (generic : GenericType) (type : TypeId) (named : f.name = name)
      (resolved : r.resolveField f owner = .ok generic)
      (erased : generic.erase.eval r = (.ok type, r)) :
      Origin r owner name .write ⟨⟨.writeField f, type⟩, type, generic⟩

namespace Entry.Origin
variable {side : Side} {e : Entry}

theorem erased (h : Entry.Origin r owner name side e) :
    e.generic.erase.eval r = (.ok e.type, r) := by
  cases h <;> assumption

theorem valueType (h : Entry.Origin r owner name side e) : e.invoker.valueType = e.type := by
  cases h <;> rfl

end Entry.Origin

theorem getterEntry_settled {m : Method} {e : Entry}
    (done : (getterEntry owner m).eval r = (.ok e, r)) :
    ∃ generic type, r.resolveReturn m owner = .ok generic ∧
      generic.erase.eval r = (.ok type, r) ∧ e = ⟨⟨.method m, type⟩, type, generic⟩ := by
  have reading := Lasting.read (Registry.resolveReturn_stable m owner)
  obtain ⟨generic, resolved, done⟩ :=
    (reading.bind_settled fun generic => generic.erase_lasting.map _).mp done
  obtain ⟨type, erased, done⟩ := (generic.erase_lasting.bind_settled fun _ => .pure _).mp done
  cases done
  exact ⟨generic, type, congrArg Prod.fst resolved, erased, rfl⟩

theorem setterEntry_settled {m : Method} {e : Entry}
    (done : (setterEntry owner m).eval r = (.ok e, r)) :
    ∃ generics type, r.resolveParams m owner = .ok generics ∧
      (generics.headD (.named .object)).erase.eval r = (.ok type, r) ∧
      e = ⟨⟨.method m, type⟩, type, generics.headD (.named .object)⟩ := by
  have reading := Lasting.read (Registry.resolveParams_stable m owner)
  obtain ⟨generics, resolved, done⟩ := (reading.bind_settled fun generics =>
    (generics.headD (.named .object)).erase_lasting.map _).mp done
  obtain ⟨type, erased, done⟩ :=
    ((generics.headD (.named .object)).erase_lasting.bind_settled fun _ => .pure _).mp done
  cases done
  exact ⟨generics, type, congrArg Prod.fst resolved, erased, rfl⟩

theorem getterEntry_origin {m : Method} {e : Entry}
    (done : (getterEntry owner m).eval r = (.ok e, r)) : e.Origin r owner name .read := by
  obtain ⟨generic, type, resolved, erased, rfl⟩ := getterEntry_settled done
  exact .getter m generic type resolved erased

theorem setterEntry_origin {m : Method} {e : Entry}
    (done : (setterEntry owner m).eval r = (.ok e, r)) : e.Origin r owner name .write := by
  obtain ⟨generics, type, resolved, erased, rfl⟩ := setterEntry_settled done
  exact .setter m generics type resolved erased

/-! ## The passes -/

/-- Whether every entry of an index has an origin, under a name that is not excluded. -/
def Index.Origins (r : Registry) (owner : TypeId) (side : Side) (x : Index Entry) : Prop :=
  ∀ name e, x.find? name = some e →
    PropertyName.isExcluded name = false ∧ e.Origin r owner name side

namespace Index.Origins
variable {side : Side} {x : Index Entry}

theorem empty : Index.Origins r owner side {} := fun _ _ found => by cases found

theorem insert (hx : x.Origins r owner side) (included : PropertyName.isExcluded name = false)
    {e : Entry} (made : e.Origin r owner name side) : (x.insert name e).Origins r owner side := by
  intro other e' found
  rw [Index.find?_insert] at found
  split at found
  · rename_i same
    cases found
    exact same ▸ ⟨included, made⟩
  · exact hx other e' found

theorem ite {y : Index Entry} {c : Prop} [Decidable c] (hx : x.Origins r owner side)
    (hy : y.Origins r owner side) : (if c then x else y).Origins r owner side := by
  split
  · exact hx
  · exact hy

end Index.Origins

/-- A pass adds what its maker makes, and nothing else. -/
theorem passEntries_origins {side : Side} {resolve : String → Growing (Option Method)}
    {make : Method → Growing Entry} (resolves : ∀ property, Lasting (resolve property))
    (makes : ∀ m, Lasting (make m))
    (origin : ∀ name m e, (make m).eval r = (.ok e, r) → e.Origin r owner name side)
    {made after : Index Entry} {properties : List String} (h : made.Origins r owner side)
    (done : (passEntries resolve make made properties).eval r = (.ok after, r)) :
    after.Origins r owner side := by
  intro name e found
  rcases pass_find resolves makes done name with ⟨-, same⟩ | ⟨-, result⟩
  · exact h name e (same ▸ found)
  · cases result with
    | left _ _ _ same => exact h name e (same ▸ found)
    | entered m e' _ included makes_entry entry =>
      obtain rfl := Option.some.inj (entry.symm.trans found)
      exact ⟨included, origin name m _ makes_entry⟩

theorem getterEntries_origins {pairs : List (String × Method)} {made after : Index Entry}
    {properties : List String} (h : made.Origins r owner .read)
    (done : (getterEntries owner pairs made properties).eval r = (.ok after, r)) :
    after.Origins r owner .read := by
  rw [getterEntries_eq] at done
  exact passEntries_origins (fun property => resolveGetter_lasting property _)
    (getterEntry_lasting owner) (fun _ m e => getterEntry_origin) h done

theorem setterEntries_origins {pairs : List (String × Method)} {readers made after : Index Entry}
    {properties : List String} (h : made.Origins r owner .write)
    (done : (setterEntries owner pairs readers made properties).eval r = (.ok after, r)) :
    after.Origins r owner .write := by
  rw [setterEntries_eq] at done
  exact passEntries_origins (fun property => resolveSetter_lasting property _ _)
    (setterEntry_lasting owner) (fun _ m e => setterEntry_origin) h done

/-- The same of both sides. -/
def Sides.Origins (r : Registry) (owner : TypeId) (s : Sides) : Prop :=
  s.readers.Origins r owner .read ∧ s.writers.Origins r owner .write

theorem addField_origins {f : Field} {made after : Sides} (h : made.Origins r owner)
    (done : (addField owner made f).eval r = (.ok after, r)) : after.Origins r owner := by
  simp only [addField] at done
  split at done
  · cases done
    exact h
  · rename_i missing
    have included : PropertyName.isExcluded f.name = false := by
      simp only [Bool.or_eq_true, not_or] at missing
      exact Bool.eq_false_iff.mpr missing.1
    have reading := Lasting.read (Registry.resolveField_stable f owner)
    obtain ⟨generic, resolved, done⟩ :=
      (reading.bind_settled fun generic => generic.erase_lasting.map _).mp done
    obtain ⟨type, erased, done⟩ := (generic.erase_lasting.bind_settled fun _ => .pure _).mp done
    have resolved := congrArg Prod.fst resolved
    cases done
    exact ⟨.ite (h.1.insert included (.reader f generic type rfl resolved erased)) h.1,
      .ite (h.2.insert included (.writer f generic type rfl resolved erased)) h.2⟩

/-- What the fields of the classes above a type keep, the pass over the fields keeps. -/
theorem addFields_settled {P : Sides → Prop} {limit room : Nat} {start : Option TypeId}
    {made after : Sides}
    (step : ∀ bottom, start = some bottom → ∀ id ∈ r.superclassChain bottom, ∀ d,
      r.find? id = some d → ∀ f ∈ d.fields, ∀ made after : Sides, P made →
        (addField owner made f).eval r = (.ok after, r) → P after)
    (h : P made) (done : (addFields owner limit room start made).eval r = (.ok after, r)) :
    P after := by
  induction room generalizing start made with
  | zero =>
    cases start with
    | none =>
      cases done
      exact h
    | some id => cases done
  | succ room ih =>
    cases start with
    | none =>
      cases done
      exact h
    | some id =>
      rw [addFields] at done
      have filling (d : Declaration) := Lasting.foldlM (addField_lasting owner) d.fields made
      have going_on (d : Declaration) := addFields_lasting owner limit room d.superclass?
      obtain ⟨d, found, done⟩ := ((Lasting.read (Registry.find_stable id)).bind_settled fun d =>
        (filling d).bind (going_on d)).mp done
      obtain ⟨made', first, done⟩ := ((filling d).bind_settled (going_on d)).mp done
      have found := Registry.find_eq_ok.mp (congrArg Prod.fst found)
      have filled := Growing.foldlM_settled (addField_lasting owner)
        (step id rfl id (r.self_mem_superclassChain id) d found) h first
      refine ih (fun bottom above id' listed => ?_) filled done
      have parent := (Registry.superclass?_of_find? found).trans above
      have edge := Registry.mem_superclassChain_iff.mpr (Relation.ReflTransGen.single parent)
      exact step id rfl id' (Registry.superclassChain_trans edge listed)

theorem addFields_origins {limit room : Nat} {id : Option TypeId} {made after : Sides}
    (h : made.Origins r owner)
    (done : (addFields owner limit room id made).eval r = (.ok after, r)) :
    after.Origins r owner :=
  addFields_settled (fun _ _ _ _ _ _ _ _ _ _ made => addField_origins made) h done

/-! ## Fields -/

/-- The field that an accessor reads or writes. -/
def Accessor.field? : Accessor → Option Field
  | method _ => none
  | readField f => some f
  | writeField f => some f

theorem getterEntries_methods {pairs : List (String × Method)} {properties : List String}
    {made : Index Entry} {grown : Registry}
    (done : (getterEntries owner pairs {} properties).eval r = (.ok made, grown)) :
    made.Each (·.accessor.field? = none) :=
  getterEntries_ensures (P := fun _ e => e.accessor.field? = none)
    (fun _ => .of_next fun _ => .of_next fun _ => .pure rfl) pairs properties Index.each_empty _ _ _ done

theorem setterEntries_methods {pairs : List (String × Method)} {properties : List String}
    {readers made : Index Entry} {grown : Registry}
    (done : (setterEntries owner pairs readers {} properties).eval r = (.ok made, grown)) :
    made.Each (·.accessor.field? = none) :=
  setterEntries_ensures (P := fun _ e => e.accessor.field? = none)
    (fun _ => .of_next fun _ => .of_next fun _ => .pure rfl) pairs readers properties Index.each_empty
    _ _ _ done

/-- Whether a class of the chain declares a field. -/
def Registry.HasField (r : Registry) (id : TypeId) (f : Field) : Prop :=
  ∃ top ∈ r.superclassChain id, ∃ d, r.find? top = some d ∧ f ∈ d.fields

/-- Entries that are backed by fields which the owner has, if by fields at all. -/
def Sides.FieldsOf (r : Registry) (owner : TypeId) (s : Sides) : Prop :=
  s.Each fun _ e => ∀ f, e.accessor.field? = some f → r.HasField owner f

theorem addField_fieldsOf {f : Field} {made after : Sides} (has : r.HasField owner f)
    (h : made.FieldsOf r owner) (done : (addField owner made f).eval r = (.ok after, r)) :
    after.FieldsOf r owner := by
  simp only [addField] at done
  split at done
  · cases done
    exact h
  · obtain ⟨generic, _, -, done⟩ := Growing.bind_eval_ok.mp done
    obtain ⟨type, _, -, done⟩ := Growing.bind_eval_ok.mp done
    cases done
    have backed (g : Field) (same : some f = some g) : r.HasField owner g :=
      Option.some.inj same ▸ has
    exact ⟨.ite (h.1.insert f.name backed) h.1, .ite (h.2.insert f.name backed) h.2⟩

/-- Whether one index has what another has, and beyond that nothing but entries of fields. -/
def Index.FilledFrom (before after : Index Entry) : Prop :=
  ∀ name, after.find? name = before.find? name ∨
    before.find? name = none ∧ ∃ e, after.find? name = some e ∧ e.accessor.field?.isSome

namespace Index.FilledFrom
variable {x y z : Index Entry}

theorem refl (x : Index Entry) : x.FilledFrom x := fun _ => .inl rfl

theorem trans (hxy : x.FilledFrom y) (hyz : y.FilledFrom z) : x.FilledFrom z := by
  intro name
  rcases hyz name with same | ⟨missing, filled⟩
  · rw [same]
    exact hxy name
  · rcases hxy name with same | ⟨_, e, found, -⟩
    · exact .inr ⟨same ▸ missing, filled⟩
    · rw [missing] at found
      cases found

theorem insert {e : Entry} (missing : x.contains name = false)
    (field : e.accessor.field?.isSome) : x.FilledFrom (x.insert name e) := by
  intro other
  rw [Index.find?_insert]
  split
  · rename_i here
    subst here
    rw [Index.contains] at missing
    exact .inr ⟨Option.not_isSome_iff_eq_none.mp (Bool.eq_false_iff.mp missing), e, rfl, field⟩
  · exact .inl rfl

theorem find? (h : x.FilledFrom y) {e : Entry} (found : x.find? name = some e) :
    y.find? name = some e := by
  rcases h name with same | ⟨missing, -⟩
  · exact same.trans found
  · rw [missing] at found
    cases found

theorem find?_method (h : x.FilledFrom y) {e : Entry} {m : Method} (found : y.find? name = some e)
    (made : e.accessor = .method m) : x.find? name = some e := by
  rcases h name with same | ⟨-, e', found', field⟩
  · exact same ▸ found
  · obtain rfl := Option.some.inj (found.symm.trans found')
    rw [made] at field
    cases field

end Index.FilledFrom

theorem addField_filled {f : Field} {made after : Sides}
    (done : (addField owner made f).eval r = (.ok after, r)) :
    made.readers.FilledFrom after.readers ∧ made.writers.FilledFrom after.writers := by
  simp only [addField] at done
  split at done
  · cases done
    exact ⟨.refl _, .refl _⟩
  · obtain ⟨generic, _, -, done⟩ := Growing.bind_eval_ok.mp done
    obtain ⟨type, _, -, done⟩ := Growing.bind_eval_ok.mp done
    cases done
    constructor
    · show made.readers.FilledFrom (if _ then _ else _)
      split
      · rename_i reads
        exact .insert (Bool.not_eq_true' _ |>.mp reads) rfl
      · exact .refl _
    · show made.writers.FilledFrom (if _ then _ else _)
      split
      · rename_i writes
        exact .insert (Bool.not_eq_true' _ |>.mp (Bool.and_eq_true_iff.mp writes).1) rfl
      · exact .refl _

/-- Fields make entries only where methods made none. -/
theorem addFields_filled {limit room : Nat} {start : Option TypeId} {made after : Sides}
    (done : (addFields owner limit room start made).eval r = (.ok after, r)) :
    made.readers.FilledFrom after.readers ∧ made.writers.FilledFrom after.writers := by
  refine addFields_settled (P := fun s =>
    made.readers.FilledFrom s.readers ∧ made.writers.FilledFrom s.writers) ?_
    ⟨.refl _, .refl _⟩ done
  intro _ _ _ _ _ _ _ _ middle next h added
  obtain ⟨readers, writers⟩ := addField_filled added
  exact ⟨h.1.trans readers, h.2.trans writers⟩

/-! ## The table -/

/-- Building a table again, step by step, in the registry that building it left. -/
theorem Table.build_settled {limit : Nat} {t : Table} {grown : Registry}
    (done : (Table.build owner limit).eval r = (.ok t, grown)) :
    ∃ name methods readers writers sides d,
      grown.fullName owner = .ok name ∧
      (collectMethods owner limit).eval grown = (.ok methods, grown) ∧
      (getterEntries owner (accessors .read methods) {}
        (propertiesOf (accessors .read methods))).eval grown = (.ok readers, grown) ∧
      (setterEntries owner (accessors .write methods) readers {}
        (propertiesOf (accessors .write methods))).eval grown = (.ok writers, grown) ∧
      (addFields owner limit limit (some owner) ⟨readers, writers⟩).eval grown =
        (.ok sides, grown) ∧
      grown.find owner = .ok d ∧
      t = {
        type := owner
        name := name
        readers := sides.readers
        writers := sides.writers
        defaultConstructor? := d.defaultConstructor? } := by
  have again := (build_lasting owner limit).again done
  clear done
  rw [Table.build_eq] at again
  obtain ⟨name, _, named, again⟩ := Growing.bind_eval_ok.mp again
  obtain ⟨methods, r₁, collected, again⟩ := Growing.bind_eval_ok.mp again
  obtain ⟨readers, r₂, got, again⟩ := Growing.bind_eval_ok.mp again
  obtain ⟨writers, r₃, set, again⟩ := Growing.bind_eval_ok.mp again
  obtain ⟨sides, r₄, filled, again⟩ := Growing.bind_eval_ok.mp again
  obtain ⟨d, _, found, again⟩ := Growing.bind_eval_ok.mp again
  rw [Growing.eval_read, Prod.mk.injEq] at named found
  obtain ⟨named, rfl⟩ := named
  obtain ⟨found, rfl⟩ := found
  cases again
  -- what was interned on the way would still be there
  have first := (collectMethods_lasting owner limit).interns_of_eval collected
  have second := (getterEntries_lasting owner _ _ _).interns_of_eval got
  have third := (setterEntries_lasting owner _ _ _ _).interns_of_eval set
  have fourth := (addFields_lasting owner _ _ _ _).interns_of_eval filled
  obtain rfl := first.antisymm (second.trans (third.trans fourth))
  obtain rfl := second.antisymm (third.trans fourth)
  obtain rfl := third.antisymm fourth
  exact ⟨name, methods, readers, writers, sides, d, named, collected, got, set, filled, found, rfl⟩

theorem Table.build_origins {limit : Nat} {t : Table} {grown : Registry}
    (done : (Table.build owner limit).eval r = (.ok t, grown)) (side : Side) :
    (t.entries side).Origins grown owner side := by
  obtain ⟨_, _, readers, writers, sides, _, -, -, got, set, filled, -, rfl⟩ := build_settled done
  have made : Sides.Origins grown owner ⟨readers, writers⟩ :=
    ⟨getterEntries_origins .empty got, setterEntries_origins .empty set⟩
  cases side with
  | read => exact (addFields_origins made filled).1
  | write => exact (addFields_origins made filled).2

/-- A field that backs an accessor is declared by the type of the table or by a class above it. -/
theorem Table.build_fields {limit : Nat} {t : Table} {grown : Registry}
    (done : (Table.build owner limit).eval r = (.ok t, grown)) {side : Side} {e : Entry}
    (listed : t.entry side name = .ok e) {f : Field} (backed : e.accessor.field? = some f) :
    grown.HasField owner f := by
  obtain ⟨_, _, readers, writers, sides, _, -, -, got, set, filled, -, rfl⟩ := build_settled done
  have made : Sides.FieldsOf grown owner ⟨readers, writers⟩ :=
    ⟨fun e he f h => by simp [getterEntries_methods got e he] at h,
      fun e he f h => by simp [setterEntries_methods set e he] at h⟩
  have all : sides.FieldsOf grown owner := by
    refine addFields_settled (fun bottom here id above d found f declared made after h => ?_) made
      filled
    cases here
    exact addField_fieldsOf ⟨id, above, d, found, declared⟩ h
  cases side with
  | read => exact all.1.of_find? (entry_eq_ok.mp listed) f backed
  | write => exact all.2.of_find? (entry_eq_ok.mp listed) f backed

end PropertyTables
