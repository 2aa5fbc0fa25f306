import PropertyTables.Proofs.Table.Exclusion
import PropertyTables.Proofs.Table.FieldFallback
import PropertyTables.Proofs.Table.Twins

/-! # Members of excluded names

* `addFields_withoutExcluded`: fields of excluded names make no entries, and the other fields make
  the same entries without them.
* `Table.build_splits`, `Table.build_joins`: where nothing is interned, a type has a table exactly if
  it has one without the members of excluded names and one with them alone.
* `build_without_excluded`: the same wherever it is built, up to the identities of array types that
  are interned on the way.
* `excluded_names_interfere`: what a build does with a member of an excluded name before leaving it
  out.
-/

namespace PropertyTables
set_option autoImplicit false

open Growing (Lasting Blind InStep)
open PropertyName (isExcluded isExcludedAccessor)
open Registry (Forks Twin)

/-- A computation that is blind to members is in step with itself. -/
theorem Growing.Blind.inStep {α : Type} {φ : MemberMap} {x : Growing α} (blind : Blind φ x)
    (lasting : Lasting x) (nothing : φ.KeepsNone) (r : Registry) :
    InStep r (r.mapMembers φ) (fun r' s' a c => s' = r'.mapMembers φ ∧ a = c) x x := by
  have right := blind r
  rcases left : x.eval r with ⟨fault | a, grown⟩
  · rw [left] at right
    exact .fault fault grown _ left right
  · rw [left] at right
    have interned := lasting.interns_of_eval left
    exact .value a a grown _ left right interned (interned.mapMembers nothing) ⟨rfl, rfl⟩

/-! ## Fields -/

/-- Entries of one type, before and after erasure. -/
structure EntryAlike (e e' : Entry) : Prop where
  type : e.type = e'.type
  generic : e.generic = e'.generic

/-- Entries of the same types under the same names. -/
structure SidesAlike (made made' : Sides) : Prop where
  readers : made.readers.Related EntryAlike made'.readers
  writers : made.writers.Related EntryAlike made'.writers

theorem Index.Related.refl {R : Entry → Entry → Prop} (same : ∀ e, R e e) (x : Index Entry) :
    x.Related R x :=
  List.forall₂_same.mpr fun p _ => ⟨rfl, same p.2⟩

theorem SidesAlike.refl (made : Sides) : SidesAlike made made :=
  ⟨.refl (fun _ => ⟨rfl, rfl⟩) _, .refl (fun _ => ⟨rfl, rfl⟩) _⟩

section Fields
variable {r b : Registry} {owner : TypeId} {among : List TypeId} {made made' : Sides}

/-- Sides that are alike, of a registry and of that with other members. -/
def AlikeThere (φ : MemberMap) (r s : Registry) (made made' : Sides) : Prop :=
  s = r.mapMembers φ ∧ SidesAlike made made'

theorem addField_excluded {f : Field} (excluded : isExcluded f.name = true) :
    addField owner made f = pure made := by
  simp [addField, excluded]

theorem addField_moved {φ : MemberMap} (nothing : φ.KeepsNone) (alike : SidesAlike made made')
    (f : Field) (i : Nat) : InStep r (r.mapMembers φ) (AlikeThere φ) (addField owner made f)
      (addField owner made' { f with position := i }) := by
  have reading : Blind φ (Growing.read (·.resolveField f owner)) :=
    .read fun r => r.resolveField_mapMembers f owner
  have lasting := Lasting.read (Registry.resolveField_stable f owner)
  rw [addField, addField, alike.readers.contains, alike.writers.contains]
  show InStep r _ _ (if _ then _ else _) (if _ then _ else _)
  split
  · exact .pure ⟨rfl, alike⟩
  · refine (reading.inStep lasting nothing r).bind ?_
    rintro r' _ generic _ - - ⟨rfl, rfl⟩
    refine ((generic.erase_blind nothing).inStep generic.erase_lasting nothing r').map ?_
    rintro r'' _ type _ - - ⟨rfl, rfl⟩
    refine ⟨rfl, .ite (alike.readers.insert f.name ⟨rfl, rfl⟩) alike.readers,
      .ite (alike.writers.insert f.name ⟨rfl, rfl⟩) alike.writers⟩

theorem foldlM_included (fields : List Field) (made : Sides) :
    fields.foldlM (addField owner) made =
      (fields.filter fun f => !isExcluded f.name).foldlM (addField owner) made := by
  induction fields generalizing made with
  | nil => rfl
  | cons f rest ih =>
    rw [List.foldlM_cons, List.filter_cons]
    cases excluded : isExcluded f.name with
    | true =>
      rw [addField_excluded excluded, pure_bind]
      exact ih made
    | false =>
      rw [Bool.not_false, if_pos rfl, List.foldlM_cons]
      exact bind_congr ih

theorem forall₂_renumbered (fields : List Field) :
    List.Forall₂ (fun f f' => ∃ i, f' = { f with position := i }) fields (renumbered fields) := by
  refine List.forall₂_iff_get.mpr ⟨(List.length_mapIdx).symm, fun i _ _ => ⟨i, ?_⟩⟩
  simp [renumbered]

theorem foldlM_moved {φ : MemberMap} (nothing : φ.KeepsNone) {fields fields' : List Field}
    (moved : List.Forall₂ (fun f f' => ∃ i, f' = { f with position := i }) fields fields')
    (alike : SidesAlike made made') : InStep r (r.mapMembers φ) (AlikeThere φ)
      (fields.foldlM (addField owner) made) (fields'.foldlM (addField owner) made') := by
  induction moved generalizing r made made' with
  | nil => exact .pure ⟨rfl, alike⟩
  | @cons f _ _ _ head _ ih =>
    obtain ⟨i, rfl⟩ := head
    rw [List.foldlM_cons, List.foldlM_cons]
    refine (addField_moved nothing alike f i).bind ?_
    rintro r' _ next next' - - ⟨rfl, alike⟩
    exact ih alike

/-- What holds of all types above a type holds of those above its superclass. -/
theorem above_superclass {id : TypeId} {d : Declaration} (found : r.find? id = some d)
    {P : TypeId → Prop} (all : ∀ c, Relation.ReflTransGen r.DeclaredSupertype id c → P c) :
    ∀ p ∈ d.superclass?, ∀ c, Relation.ReflTransGen r.DeclaredSupertype p c → P c := by
  intro p named c path
  have edge : r.DeclaredSupertype id p := by
    refine .of_superclass ?_
    rw [Registry.superclass?_of_find? found]
    exact Option.mem_toList.mpr named
  exact all c (.head edge path)

/-- Fields make the entries that those of included names make. -/
theorem addFields_withoutExcluded (grounded : b.Grounded) (interned : b.Interns r) (limit room : Nat)
    {start : Option TypeId} (old : ∀ id ∈ start, id.index < b.size)
    (hierarchy : ∀ id ∈ start, ∀ c, Relation.ReflTransGen b.DeclaredSupertype id c → c ∈ among)
    (alike : SidesAlike made made') :
    InStep r (r.withoutExcluded among)
      (AlikeThere (.withoutExcluded among)) (addFields owner limit room start made)
      (addFields owner limit room start made') := by
  have nothing := MemberMap.keepsNone_withoutExcluded among
  induction room generalizing r start made made' with
  | zero =>
    cases start with
    | none => exact .pure ⟨rfl, alike⟩
    | some id => exact .throw _
  | succ room ih =>
    cases start with
    | none => exact .pure ⟨rfl, alike⟩
    | some id =>
      have here := hierarchy id rfl id .refl
      have reading : InStep r (r.withoutExcluded among) (fun r' s' d e =>
          s' = r'.withoutExcluded among ∧ b.find? id = some d ∧
            e.fields = renumbered (d.fields.filter fun f => !isExcluded f.name) ∧
            e.superclass? = d.superclass?)
          (Growing.read (·.find id)) (Growing.read (·.find id)) := by
        refine .read ?_
        cases declared : r.find? id with
        | none =>
          have undeclared : (r.withoutExcluded among).find? id = none := by
            rw [Registry.withoutExcluded, Registry.find?_mapMembers, declared, Option.map_none]
          rw [Registry.find_eq_error declared, Registry.find_eq_error undeclared]
          exact .fault _
        | some d =>
          obtain ⟨e, found, -, fields, parent⟩ := find_keeping (fun name => !isExcludedAccessor name)
            (fun name => !isExcluded name) declared here
          have found : (r.withoutExcluded among).find? id = some e := found
          rw [Registry.find_eq_ok.mpr declared, Registry.find_eq_ok.mpr found]
          exact .value ⟨rfl, (interned.find?_old (old id rfl)).symm.trans declared, fields, parent⟩
      rw [addFields, addFields]
      refine reading.bind ?_
      rintro r' _ d e grows - ⟨rfl, found, fields, parent⟩
      rw [foldlM_included, fields, parent]
      refine (foldlM_moved nothing (forall₂_renumbered _) alike).bind ?_
      rintro r'' _ next next' more - ⟨rfl, alike⟩
      exact ih ((interned.trans grows).trans more) (grounded.superclass found)
        (above_superclass found (hierarchy id rfl)) alike

/-- Fields of excluded names alone make nothing, along a chain that ends. -/
theorem addFields_onlyExcluded {limit room : Nat} {start : Option TypeId} {after : Sides}
    (hierarchy : ∀ id ∈ start, ∀ c, Relation.ReflTransGen r.DeclaredSupertype id c → c ∈ among)
    (done : (addFields owner limit room start made).eval r = (.ok after, r)) (others : Sides) :
    (addFields owner limit room start others).eval (r.onlyExcluded among) =
      (.ok others, r.onlyExcluded among) := by
  induction room generalizing start made with
  | zero =>
    cases start with
    | none => rfl
    | some id => cases done
  | succ room ih =>
    cases start with
    | none => rfl
    | some id =>
      have here := hierarchy id rfl id .refl
      have filling (d : Declaration) := Lasting.foldlM (addField_lasting owner) d.fields made
      have going_on (d : Declaration) := addFields_lasting owner limit room d.superclass?
      rw [addFields] at done
      obtain ⟨d, found, done⟩ := ((Lasting.read (Registry.find_stable id)).bind_settled fun d =>
        (filling d).bind (going_on d)).mp done
      obtain ⟨next, -, done⟩ := ((filling d).bind_settled (going_on d)).mp done
      have found := Registry.find_eq_ok.mp (congrArg Prod.fst found)
      obtain ⟨e, found', -, fields, parent⟩ :=
        find_keeping isExcludedAccessor isExcluded found here
      have none_included :
          (renumbered (d.fields.filter fun f => isExcluded f.name)).filter
            (fun f => !isExcluded f.name) = [] := by
        refine List.filter_eq_nil_iff.mpr fun f listed => ?_
        obtain ⟨g, member, i, rfl⟩ := mem_renumbered listed
        simpa using (List.mem_filter.mp member).2
      have found' : (r.onlyExcluded among).find? id = some e := found'
      rw [addFields, Growing.eval_bind, Growing.eval_read, Registry.find_eq_ok.mpr found']
      show (e.fields.foldlM (addField owner) others >>= fun made => _).eval _ = _
      rw [foldlM_included, fields, none_included, List.foldlM_nil, pure_bind, parent]
      exact ih (above_superclass found (hierarchy id rfl)) done

end Fields

/-! ## Tables -/

section Tables
variable {r b : Registry} {owner : TypeId} {limit : Nat} {among : List TypeId} {t t' : Table}

/-- Entries of the same types under the same names, on both sides. -/
def TableAlike (t t' : Table) : Prop :=
  ∀ side, (t.entries side).Related EntryAlike (t'.entries side)

theorem Table.build_eval_settled : (Table.build owner limit).eval r = (.ok t, r) ↔
    ∃ name made sides d, r.fullName owner = .ok name ∧
      (methodEntries owner limit).eval r = (.ok made, r) ∧
      (addFields owner limit limit (some owner) made).eval r = (.ok sides, r) ∧
      r.find owner = .ok d ∧
      t = {
        type := owner
        name := name
        readers := sides.readers
        writers := sides.writers
        defaultConstructor? := d.defaultConstructor? } := by
  rw [build_eval_ok]
  constructor
  · rintro ⟨name, made, middle, sides, d, named, methods, filled, found, rfl⟩
    obtain rfl : middle = r := ((methodEntries_lasting owner limit).interns_of_eval methods).antisymm
      ((addFields_lasting owner limit limit _ made).interns_of_eval filled)
    exact ⟨name, made, sides, d, named, methods, filled, found, rfl⟩
  · rintro ⟨name, made, sides, d, named, methods, filled, found, rfl⟩
    exact ⟨name, made, r, sides, d, named, methods, filled, found, rfl⟩

theorem Registry.exists_find_mapMembers (φ : MemberMap) {id : TypeId} {d : Declaration}
    (found : r.find id = .ok d) : ∃ e, (r.mapMembers φ).find id = .ok e := by
  refine ⟨d.mapMembers φ, ?_⟩
  rw [find_mapMembers, found]
  rfl

section Settled
variable (grounded : b.Grounded) (interned : b.Interns r) (ownerOld : owner.index < b.size)
  (hierarchy : ∀ id, Relation.ReflTransGen b.DeclaredSupertype owner id → id ∈ among)
include grounded interned ownerOld hierarchy

theorem addFields_inStep_withoutExcluded (made : Sides) :
    InStep r (r.withoutExcluded among)
      (AlikeThere (.withoutExcluded among)) (addFields owner limit limit (some owner) made)
      (addFields owner limit limit (some owner) made) :=
  addFields_withoutExcluded grounded interned limit limit
    (fun _ same => Option.some.inj same ▸ ownerOld) (fun _ same => Option.some.inj same ▸ hierarchy)
    (.refl made)

theorem above_grown (c : TypeId) (path : Relation.ReflTransGen r.DeclaredSupertype owner c) :
    c ∈ among :=
  hierarchy c (interned.above_old grounded ownerOld path).1

/-- A type with a table has a table of the same types without the members of excluded names, and one
with them alone. -/
theorem Table.build_splits (done : (Table.build owner limit).eval r = (.ok t, r)) :
    (∃ t', (Table.build owner limit).eval (r.withoutExcluded among) =
      (.ok t', r.withoutExcluded among) ∧ TableAlike t t') ∧
    ∃ t', (Table.build owner limit).eval (r.onlyExcluded among) =
      (.ok t', r.onlyExcluded among) := by
  obtain ⟨name, made, sides, d, named, methods, filled, found, rfl⟩ :=
    Table.build_eval_settled.mp done
  have above := above_grown grounded interned ownerOld hierarchy
  obtain ⟨included, others, excluded⟩ := (methodEntries_parts above).mp methods
  constructor
  · obtain ⟨sides', _, filled', rfl, alike⟩ :=
      (addFields_inStep_withoutExcluded grounded interned ownerOld hierarchy made).follows filled
    obtain ⟨e, found'⟩ := Registry.exists_find_mapMembers (.withoutExcluded among) found
    refine ⟨_, Table.build_eval_settled.mpr ⟨name, made, sides', e,
      (r.fullName_mapMembers owner).trans named, included, filled', found', rfl⟩, fun side => ?_⟩
    cases side
    · exact alike.readers
    · exact alike.writers
  · obtain ⟨e, found'⟩ := Registry.exists_find_mapMembers (.onlyExcluded among) found
    exact ⟨_, Table.build_eval_settled.mpr ⟨name, others, others, e,
      (r.fullName_mapMembers owner).trans named, excluded,
      addFields_onlyExcluded (fun _ same => Option.some.inj same ▸ above) filled others, found', rfl⟩⟩

/-- A type with a table without the members of excluded names and one with them alone has a table. -/
theorem Table.build_joins
    (done : (Table.build owner limit).eval (r.withoutExcluded among) =
      (.ok t, r.withoutExcluded among))
    (done' : (Table.build owner limit).eval (r.onlyExcluded among) =
      (.ok t', r.onlyExcluded among)) :
    ∃ t grown, (Table.build owner limit).eval r = (.ok t, grown) := by
  obtain ⟨name, made, sides', _, named, included, filled', -, -⟩ :=
    Table.build_eval_settled.mp done
  obtain ⟨_, others, _, _, -, excluded, -, -, -⟩ := Table.build_eval_settled.mp done'
  have methods := (methodEntries_parts (above_grown grounded interned ownerOld hierarchy)).mpr
    ⟨included, others, excluded⟩
  obtain ⟨sides, grown, filled, -⟩ :=
    (addFields_inStep_withoutExcluded grounded interned ownerOld hierarchy made).leads filled'
  have named : r.fullName owner = .ok name := (r.fullName_mapMembers owner).symm.trans named
  obtain ⟨d, found, -⟩ := bind_eq_ok.mp named
  have grows := ((addFields_lasting owner limit limit _ made).interns_of_eval filled).growsTo
  exact ⟨_, grown, Table.build_eval_ok.mpr
    ⟨name, made, r, sides, d, named, methods, filled, grows.find found, rfl⟩⟩

end Settled

/-! ## Any registry -/

theorem Registry.Reachable.forks_keeping (reachable : r.Reachable) (grounded : r.Grounded)
    {grown : Registry} (interned : r.Interns grown) (among : List TypeId)
    (method field : String → Bool) :
    Forks (r.keeping among method field) (r.keeping among method field)
      (grown.keeping among method field) where
  coherent := reachable.coherent.mapMembers
  grounded := grounded.keeping
  boolean := by
    rw [keeping, size_mapMembers]
    exact reachable.boolean_lt
  left := .refl _
  right := interned.mapMembers (MemberMap.keepsNone_keeping among method field)

theorem Registry.Twin.of_mapMembers {n : Nat} {s : Registry} {φ : MemberMap} {i j : TypeId}
    (twin : Twin n r (s.mapMembers φ) i j) : Twin n r s i j := by
  induction twin with
  | old before => exact .old before
  | array _ left right new new' ih =>
    exact .array ih left ((s.findArray?_mapMembers _).symm.trans right) new new'

theorem Index.Related.found {R : Entry → Entry → Prop} {x y : Index Entry} (h : x.Related R y)
    {name : String} {e : Entry} (found : x.find? name = some e) :
    ∃ e', y.find? name = some e' ∧ R e e' := by
  have both := h.find? name
  rw [found] at both
  revert both
  generalize y.find? name = other
  rintro ⟨⟩
  exact ⟨_, rfl, ‹_›⟩

theorem Table.owner_lt {grown : Registry}
    (done : (Table.build owner limit).eval r = (.ok t, grown)) : owner.index < r.size := by
  obtain ⟨_, _, _, _, _, named, -⟩ := build_eval_ok.mp done
  obtain ⟨d, found, -⟩ := bind_eq_ok.mp named
  exact Registry.lt_size_of_find? (Registry.find_eq_ok.mp found)

/-- Tables of one type with entries under the same names, of the same types, but for the identities
of array types from `n` on. -/
structure SameProperties (n : Nat) (r s : Registry) (t t' : Table) : Prop where
  names : ∀ side, t.names side = t'.names side
  types : ∀ side name e e', t.entry side name = .ok e → t'.entry side name = .ok e' →
    e.generic = e'.generic ∧ r.fullName e.type = s.fullName e'.type ∧ Twin n r s e.type e'.type

section Any
variable (reachable : r.Reachable) (grounded : r.Grounded)
  (hierarchy : ∀ id, Relation.ReflTransGen r.DeclaredSupertype owner id → id ∈ among)
include reachable grounded hierarchy

theorem Table.build_apart {grown : Registry}
    (done : (Table.build owner limit).eval r = (.ok t, grown)) :
    (∃ t' grown', (Table.build owner limit).eval (r.withoutExcluded among) = (.ok t', grown') ∧
      SameProperties r.size grown grown' t t') ∧
    ∃ t' grown', (Table.build owner limit).eval (r.onlyExcluded among) = (.ok t', grown') := by
  have interned := (build_lasting owner limit).interns_of_eval done
  have old := owner_lt done
  have size (method field : String → Bool) : (r.keeping among method field).size = r.size :=
    r.size_mapMembers
  obtain ⟨⟨settled, done', alike⟩, others, done''⟩ :=
    build_splits grounded interned old hierarchy ((build_lasting owner limit).again done)
  constructor
  · have fork := reachable.forks_keeping grounded interned among
      (fun name => !isExcludedAccessor name) fun name => !isExcluded name
    obtain ⟨t', grown', built, twins⟩ :=
      (build_inStep fork ((size _ _).symm ▸ old) limit).leads done'
    refine ⟨t', grown', built, fun side => ?_, fun side name e e' listed listed' => ?_⟩
    · exact (alike side).names.trans (Index.Related.names (twins.entries side)).symm
    · obtain ⟨x, there, same⟩ := (alike side).found (entry_eq_ok.mp listed)
      obtain ⟨y, there', twin⟩ := Index.Related.found (twins.entries side) (entry_eq_ok.mp listed')
      obtain rfl := Option.some.inj (there.symm.trans there')
      have later := fork.grow ((build_lasting owner limit).interns_of_eval built) (.refl _)
      rw [same.type]
      refine ⟨same.generic.trans twin.generic.symm, ?_, ?_⟩
      · exact (grown.fullName_mapMembers x.type).symm.trans (later.fullName twin.type).symm
      · have back := twin.type.of_mapMembers.symm
        rwa [size] at back
  · have fork := reachable.forks_keeping grounded interned among isExcludedAccessor isExcluded
    obtain ⟨t', grown', built, -⟩ :=
      (build_inStep fork ((size _ _).symm ▸ old) limit).leads done''
    exact ⟨t', grown', built⟩

theorem Table.build_together {g g' : Registry}
    (done : (Table.build owner limit).eval (r.withoutExcluded among) = (.ok t, g))
    (done' : (Table.build owner limit).eval (r.onlyExcluded among) = (.ok t', g')) :
    ∃ t grown, (Table.build owner limit).eval r = (.ok t, grown) := by
  have lasting := build_lasting owner limit
  have size (method field : String → Bool) : (r.keeping among method field).size = r.size :=
    r.size_mapMembers
  have old : owner.index < r.size := (size _ _) ▸ owner_lt done
  have included := MemberMap.keepsNone_withoutExcluded among
  have excluded := MemberMap.keepsNone_onlyExcluded among
  -- what the first build interns is interned with all members, and so is what the second does then
  obtain ⟨k₁, first, rfl⟩ := Registry.Interns.of_mapMembers included (lasting.interns_of_eval done)
  have fork := reachable.forks_keeping grounded first among isExcludedAccessor isExcluded
  obtain ⟨t₂, _, built, -⟩ := (build_inStep fork ((size _ _).symm ▸ old) limit).follows done'
  obtain ⟨k₂, second, rfl⟩ := Registry.Interns.of_mapMembers excluded (lasting.interns_of_eval built)
  have still := lasting.lasts _ _ _ _ done (second.mapMembers included).growsTo
  obtain ⟨t, grown, joined⟩ :=
    build_joins grounded (first.trans second) old hierarchy still (lasting.again built)
  have fork : Forks r r k₂ := reachable.forks grounded (.refl r) (first.trans second)
  obtain ⟨t, grown, done, -⟩ := (build_inStep fork old limit).leads joined
  exact ⟨t, grown, done⟩

end Any

/-- In a registry whose declarations mention only identities that were handed out, a type has a
table exactly if it has one without the members of excluded names in its hierarchy, and one with
those members alone. With and without them, the readable and writable names are the same, and so are
the types of the properties, but for the identities of array types that are interned on the way. -/
theorem build_without_excluded (reachable : r.Reachable) (grounded : r.Grounded)
    (hierarchy : ∀ id, Relation.ReflTransGen r.DeclaredSupertype owner id → id ∈ among) :
    ((∃ t grown, (Table.build owner limit).eval r = (.ok t, grown)) ↔
      (∃ t grown, (Table.build owner limit).eval (r.withoutExcluded among) = (.ok t, grown)) ∧
      ∃ t grown, (Table.build owner limit).eval (r.onlyExcluded among) = (.ok t, grown)) ∧
    ∀ t grown t' grown', (Table.build owner limit).eval r = (.ok t, grown) →
      (Table.build owner limit).eval (r.withoutExcluded among) = (.ok t', grown') →
      SameProperties r.size grown grown' t t' := by
  refine ⟨⟨?_, ?_⟩, ?_⟩
  · rintro ⟨t, grown, done⟩
    obtain ⟨⟨t', grown', done', -⟩, others⟩ :=
      Table.build_apart reachable grounded hierarchy done
    exact ⟨⟨t', grown', done'⟩, others⟩
  · rintro ⟨⟨t, g, done⟩, t', g', done'⟩
    exact Table.build_together reachable grounded hierarchy done done'
  · intro t grown t' grown' done done'
    obtain ⟨⟨_, _, again, same⟩, -⟩ := Table.build_apart reachable grounded hierarchy done
    cases done'.symm.trans again
    exact same

end Tables

/-! ## Runs with excluded names -/

/-- What the table of a type says of its readable properties: their names and types. -/
def Registry.readables (r : Registry) (owner : TypeId) : Except Fault (List (String × TypeId)) :=
  ((Table.build owner Table.defaultLimit).eval r).1.map fun t =>
    t.readers.entries.map fun p => (p.1, p.2.type)

theorem Registry.exists_build_of_readables {r : Registry} {owner : TypeId}
    {listed : List (String × TypeId)} (done : r.readables owner = .ok listed) :
    ∃ t grown, (Table.build owner Table.defaultLimit).eval r = (.ok t, grown) ∧
      t.readers.entries.map (fun p => (p.1, p.2.type)) = listed := by
  rcases built : (Table.build owner Table.defaultLimit).eval r with ⟨fault | t, grown⟩
  · rw [readables, built] at done
    cases done
  · rw [readables, built] at done
    exact ⟨t, grown, rfl, Except.ok.inj done⟩

/-- Types that contain the supertypes of each contain what is above each. -/
theorem Registry.above_mem {r : Registry} {owner : TypeId} {among : List TypeId}
    (start : owner ∈ among) (closed : ∀ a ∈ among, ∀ c ∈ r.supertypes a, c ∈ among) {id : TypeId}
    (path : Relation.ReflTransGen r.DeclaredSupertype owner id) : id ∈ among := by
  induction path with
  | refl => exact start
  | tail _ edge ih => exact closed _ ih _ edge

/-- A class with getters of arrays, the first of which has an excluded name. -/
def Registry.tagged : Registry :=
  initial.declared "" "Tagged" .classType fun d =>
    (d.getter "getClass" (.array (.named .string))).getter "getX"
      (.array (.named Primitive.int.typeId))

theorem tagged_readables : Registry.tagged.readables ⟨11⟩ = .ok [("x", ⟨13⟩)] := by
  cbv

theorem tagged_readables_without :
    (Registry.tagged.withoutExcluded [⟨11⟩, .object]).readables ⟨11⟩ = .ok [("x", ⟨12⟩)] := by
  cbv

theorem tagged_grounded : Registry.tagged.Grounded := by
  decide

/-- The array type of the excluded getter is interned first, and moves the other one. -/
theorem build_without_excluded_tagged :
    let r := Registry.tagged
    ∃ t grown t' grown', (Table.build ⟨11⟩ Table.defaultLimit).eval r = (.ok t, grown) ∧
      (Table.build ⟨11⟩ Table.defaultLimit).eval (r.withoutExcluded [⟨11⟩, .object]) =
        (.ok t', grown') ∧
      t.readers.entries.map (fun p => (p.1, p.2.type)) = [("x", ⟨13⟩)] ∧
      t'.readers.entries.map (fun p => (p.1, p.2.type)) = [("x", ⟨12⟩)] ∧
      SameProperties r.size grown grown' t t' ∧ ∃ t'' grown'',
        (Table.build ⟨11⟩ Table.defaultLimit).eval (r.onlyExcluded [⟨11⟩, .object]) =
          (.ok t'', grown'') := by
  intro r
  have reachable : r.Reachable := Registry.Reachable.declared .refl _ _ _ _
  have hierarchy (id : TypeId) (path : Relation.ReflTransGen r.DeclaredSupertype ⟨11⟩ id) :
      id ∈ [⟨11⟩, .object] :=
    Registry.above_mem (by decide) (by decide) path
  obtain ⟨t, grown, done, types⟩ := Registry.exists_build_of_readables tagged_readables
  obtain ⟨t', grown', done', types'⟩ :=
    Registry.exists_build_of_readables tagged_readables_without
  obtain ⟨apart, same⟩ := build_without_excluded reachable tagged_grounded hierarchy
  exact ⟨t, grown, t', grown', done, done', types, types', same t grown t' grown' done done',
    (apart.mp ⟨t, grown, done⟩).2⟩

/-- A class and its interface with getters of one excluded name and unrelated types. -/
def Registry.clashing : Registry :=
  (initial.declared "" "Classified" .interfaceType fun d =>
    d.getter "getClass" (.named Primitive.int.typeId)).declared "" "Report" .classType fun d =>
      ((d.implementing (.named ⟨11⟩)).getter "getClass" (.named .string)).getter "getName"
        (.named .string)

theorem clashing_readables :
    Registry.clashing.readables ⟨12⟩ = .error (.ambiguousGetter "class" "Report") ∧
    (Registry.clashing.withoutExcluded [⟨12⟩, ⟨11⟩, .object]).readables ⟨12⟩ =
      .ok [("name", .string)] := by
  constructor
  · cbv
  · cbv

/-- A class that mentions the identity that is handed out next, for the array type of an excluded
getter. -/
def Registry.foreseeing : Registry :=
  initial.declared "" "Seer" .classType fun d =>
    (d.getter "getClass" (.array (.named .string))).getter "getX" (.array (.named ⟨12⟩))

theorem foreseeing_readables : Registry.foreseeing.readables ⟨11⟩ = .ok [("x", ⟨13⟩)] ∧
    (Registry.foreseeing.withoutExcluded [⟨11⟩, .object]).readables ⟨11⟩ =
      .error (.typeNotFound ⟨12⟩) := by
  constructor
  · cbv
  · cbv

/-- Getters of an excluded name may leave no choice, which is a fault although no entry would come
of them. Array types that members of excluded names mention are interned, so that others get other
identities. Where a declaration mentions an identity before it is handed out, the type is found
after an excluded member has had it interned, and not otherwise. -/
theorem excluded_names_interfere :
    (Registry.clashing.Grounded ∧
      Registry.clashing.readables ⟨12⟩ = .error (.ambiguousGetter "class" "Report") ∧
      (Registry.clashing.withoutExcluded [⟨12⟩, ⟨11⟩, .object]).readables ⟨12⟩ =
        .ok [("name", .string)]) ∧
    (Registry.tagged.Grounded ∧ Registry.tagged.readables ⟨11⟩ = .ok [("x", ⟨13⟩)] ∧
      (Registry.tagged.withoutExcluded [⟨11⟩, .object]).readables ⟨11⟩ = .ok [("x", ⟨12⟩)]) ∧
    (¬ Registry.foreseeing.Grounded ∧
      Registry.foreseeing.readables ⟨11⟩ = .ok [("x", ⟨13⟩)] ∧
      (Registry.foreseeing.withoutExcluded [⟨11⟩, .object]).readables ⟨11⟩ =
        .error (.typeNotFound ⟨12⟩)) :=
  ⟨⟨by decide, clashing_readables⟩, ⟨tagged_grounded, tagged_readables, tagged_readables_without⟩,
    ⟨by decide, foreseeing_readables⟩⟩

end PropertyTables
