import PropertyTables.Proofs.Table.Faults
import PropertyTables.Proofs.Table.Matching
import PropertyTables.Proofs.Table.Views

/-! # The setter that matches a getter

A setter that takes what a getter reads counts before all others. What it takes is looked at as it
is declared, and what is read as the owner sees it.

* `resolveSetter_matching`: the first setter so declared counts, or the only setter there is.
* `resolvedReaders`, `Table.complete`: the two halves of a build, before the first setter is
  resolved and from there on.
* `complete_unambiguous`: a property whose setters can be resolved is not what a build fails for.
* `writeType_matching`: what comes of a property with a matching setter.
-/

namespace PropertyTables
set_option autoImplicit false

open Growing (Lasting)

variable {r grown : Registry} {owner : TypeId} {limit : Nat} {property : String}

/-! ## The choice -/

namespace Registry

theorem chooseSetter_matching {type : TypeId} {a b w : Overload} {others : List Overload}
    (first : FirstIn (·.type = type) (a :: b :: others) w) :
    r.chooseSetter property (some type) a b others = .ok w.method := by
  have found : (a :: b :: others).find? (some ·.type == some type) = some w :=
    first.find? fun o => by simp
  unfold chooseSetter
  dsimp only
  rw [found]
  rfl

end Registry

/-- Of several candidates the first of the type that is read counts; a single one always does. -/
theorem resolveSetter_matching {os : List Overload} {type : TypeId}
    (settled : ∀ o ∈ os, o.Settled r .write)
    (matching : (∃ o ∈ os, o.type = type) ∨ os.length = 1) :
    ∃ w ∈ os, (os = [w] ∨ FirstIn (·.type = type) os w) ∧
      (resolveSetter property (some type) (os.map (·.method))).eval r =
        (.ok (some w.method), r) := by
  match os with
  | [] => simp at matching
  | [single] => exact ⟨single, List.mem_singleton_self single, .inl rfl, rfl⟩
  | a :: b :: others =>
    rcases matching with ⟨o, listed, same⟩ | single
    · obtain ⟨w, first⟩ := FirstIn.exists_of_mem (P := (·.type = type)) listed same
      refine ⟨w, first.mem, .inr first, ?_⟩
      rw [resolveSetter_made fun o listed => (settled o listed).setterOverload,
        Registry.chooseSetter_matching first]
      rfl
    · simp at single

theorem candidates_matching {methods : List Method} {type : TypeId}
    (collected : (collectMethods owner limit).eval r = (.ok methods, r))
    (matching : (∃ m ∈ candidates property (accessors .write methods),
      m.DeclaredAs r .write type) ∨
        (candidates property (accessors .write methods)).length = 1) :
    ∃ w ∈ candidates property (accessors .write methods),
      (candidates property (accessors .write methods) = [w] ∨
        FirstIn (·.DeclaredAs r .write type) (candidates property (accessors .write methods)) w) ∧
      (resolveSetter property (some type) (candidates property (accessors .write methods))).eval r =
        (.ok (some w), r) := by
  obtain ⟨os, same, settled⟩ := candidates_overloads collected .write property
  have declared (o : Overload) (listed : o ∈ os) :
      o.type = type ↔ o.method.DeclaredAs r .write type := by
    have declared := (settled o listed).declaredAs
    exact ⟨fun same => same ▸ declared, fun declared' => declared.unique declared'⟩
  rw [← same] at matching ⊢
  have typed : (∃ o ∈ os, o.type = type) ∨ os.length = 1 := by
    refine matching.imp ?_ fun single => by rwa [List.length_map] at single
    rintro ⟨m, candidate, declares⟩
    obtain ⟨o, listed, rfl⟩ := List.mem_map.mp candidate
    exact ⟨o, listed, (declared o listed).mpr declares⟩
  obtain ⟨w, listed, first, counts⟩ := resolveSetter_matching settled typed
  refine ⟨w.method, List.mem_map_of_mem listed, ?_, counts⟩
  exact first.imp (fun only => by rw [only]; rfl) fun first => first.map declared

/-! ## Two halves of a build -/

/-- The methods of a type, and the properties that its getters make. -/
def resolvedReaders (owner : TypeId) (limit : Nat) : Growing (List Method × Index Entry) := do
  let methods ← collectMethods owner limit
  let getters := accessors .read methods
  return (methods, ← getterEntries owner getters {} (propertiesOf getters))

/-- The table of a type with the entries that its methods make. -/
def Table.fill (owner : TypeId) (limit : Nat) (name : String) (made : Sides) : Growing Table := do
  let sides ← addFields owner limit limit (some owner) made
  let d ← Growing.read (·.find owner)
  return {
    type := owner
    name := name
    readers := sides.readers
    writers := sides.writers
    defaultConstructor? := d.defaultConstructor? }

/-- The table of a type whose getters are resolved. -/
def Table.complete (owner : TypeId) (limit : Nat) (name : String) (methods : List Method)
    (readers : Index Entry) : Growing Table := do
  let setters := accessors .write methods
  let writers ← setterEntries owner setters readers {} (propertiesOf setters)
  Table.fill owner limit name ⟨readers, writers⟩

theorem Table.build_halves (owner : TypeId) (limit : Nat) : Table.build owner limit = (do
    let name ← Growing.read (·.fullName owner)
    let first ← resolvedReaders owner limit
    Table.complete owner limit name first.1 first.2) := by
  rw [Table.build_eq]
  simp only [resolvedReaders, bind_assoc, pure_bind]
  rfl

theorem resolvedReaders_lasting (owner : TypeId) (limit : Nat) :
    Lasting (resolvedReaders owner limit) :=
  (collectMethods_lasting owner limit).bind fun _ => (getterEntries_lasting owner _ _ _).map _

theorem resolvedReaders_settled {methods : List Method} {readers : Index Entry}
    (done : (resolvedReaders owner limit).eval r = (.ok (methods, readers), r)) :
    (collectMethods owner limit).eval r = (.ok methods, r) ∧
      (getterEntries owner (accessors .read methods) {}
        (propertiesOf (accessors .read methods))).eval r = (.ok readers, r) := by
  have entering (methods : List Method) := getterEntries_lasting owner (accessors .read methods) {}
    (propertiesOf (accessors .read methods))
  obtain ⟨_, collected, done⟩ := ((collectMethods_lasting owner limit).bind_settled fun methods =>
    (entering methods).map (Prod.mk methods)).mp done
  obtain ⟨_, got, done⟩ := ((entering _).bind_settled fun _ => .pure _).mp done
  cases done
  exact ⟨collected, got⟩

section Halves
variable {name : String} {methods : List Method} {readers : Index Entry}

theorem fill_lasting (owner : TypeId) (limit : Nat) (name : String) (made : Sides) :
    Lasting (Table.fill owner limit name made) :=
  (addFields_lasting owner limit limit (some owner) made).bind fun _ =>
    (Lasting.read (Registry.find_stable owner)).map _

theorem complete_lasting (owner : TypeId) (limit : Nat) (name : String) (methods : List Method)
    (readers : Index Entry) : Lasting (Table.complete owner limit name methods readers) :=
  (setterEntries_lasting owner _ _ _ _).bind fun _ => fill_lasting owner limit name _

/-- Once the getters of a type are resolved, they stay so, and the build is completed from there. -/
theorem build_after_readers {outcome : Except Fault Table}
    (resolved : ((resolvedReaders owner limit).eval r).1 = .ok (methods, readers))
    (built : (Table.build owner limit).eval r = (outcome, grown)) :
    (∃ id, outcome = .error (.typeNotFound id)) ∨
      (resolvedReaders owner limit).eval grown = (.ok (methods, readers), grown) ∧
        ∃ name, (Table.complete owner limit name methods readers).eval grown = (outcome, grown) := by
  rw [Table.build_halves, Growing.eval_bind, Growing.eval_read] at built
  cases named : r.fullName owner with
  | error fault =>
    rw [named] at built
    cases built
    obtain ⟨id, same, -⟩ := r.fullName_lacking owner fault named
    exact .inl ⟨id, congrArg Except.error same⟩
  | ok name =>
    rw [named] at built
    rcases first : (resolvedReaders owner limit).eval r with ⟨result, middle⟩
    rw [first] at resolved
    cases resolved
    have rest :
        (Table.complete owner limit name methods readers).eval middle = (outcome, grown) := by
      rw [← built]
      show _ = ((resolvedReaders owner limit) >>= _).eval r
      rw [Growing.eval_bind, first]
    have completing := complete_lasting owner limit name methods readers
    have grows := (completing.interns_of_eval rest).growsTo
    exact .inr ⟨(resolvedReaders_lasting owner limit).lasts r _ middle grown first grows, name,
      completing.again rest⟩

/-- Whether a fault is another than that the setters of a property are ambiguous. -/
def Fault.SparesSetters (property : String) (fault : Fault) : Prop :=
  ∀ owner a b, fault ≠ .ambiguousSetter property owner a b

theorem Fault.sparesSetters_typeNotFound (property : String) (id : TypeId) :
    SparesSetters property (.typeNotFound id) := nofun

theorem fill_failsOnly (property : String) (owner : TypeId) (limit : Nat) (name : String)
    (made : Sides) :
    (Table.fill owner limit name made).FailsOnly (Fault.SparesSetters property) := by
  have undeclared := Fault.sparesSetters_typeNotFound property
  have finding : Growing.FailsLacking (Growing.read (·.find owner)) :=
    .read (Registry.find_lacking · owner)
  exact (addFields_failsOnly undeclared nofun owner limit (some owner) made).bind fun _ =>
    (finding.failsOnly undeclared).map _

theorem complete_unambiguous {winner : Option Method} {outcome : Except Fault Table}
    (resolved : (resolveSetter property ((readers.find? property).map (·.type))
      (candidates property (accessors .write methods))).eval r = (.ok winner, r))
    (done : (Table.complete owner limit name methods readers).eval r = (outcome, r)) :
    FailsOnly (Fault.SparesSetters property) outcome := by
  have undeclared := Fault.sparesSetters_typeNotFound property
  rcases (setterEntries_lasting owner _ _ _ _).bind_cases (fun _ => fill_lasting owner limit name _)
    done with ⟨fault, rfl, failed⟩ | ⟨writers, -, filled⟩
  · -- the pass over the setters fails for another property, or where an entry is made
    refine .error ?_
    rw [setterEntries_eq] at failed
    rcases pass_fault (fun property => resolveSetter_lasting property _ _)
      (setterEntry_lasting owner) failed with ⟨other, -, failed⟩ | ⟨m, failed⟩
    · by_cases same : other = property
      · subst same
        rw [resolved] at failed
        cases failed
      · have others : ∀ owner a b,
            Fault.SparesSetters property (.ambiguousSetter other owner a b) :=
          fun _ _ _ _ _ _ equal => same (Fault.ambiguousSetter.inj equal).1
        exact resolveSetter_failsOnly undeclared others _ _ r fault (congrArg Prod.fst failed)
    · exact (setterEntry_lacking owner m).failsOnly undeclared r fault (congrArg Prod.fst failed)
  · have fails := fill_failsOnly property owner limit name ⟨readers, writers⟩ r
    rwa [filled] at fails

theorem fill_entries {made : Sides} {t : Table}
    (done : (Table.fill owner limit name made).eval r = (.ok t, r)) :
    (∀ property e, made.readers.find? property = some e → t.entry .read property = .ok e) ∧
      ∀ property e, made.writers.find? property = some e → t.entry .write property = .ok e := by
  obtain ⟨sides, filled, done⟩ := ((addFields_lasting owner limit limit (some owner)
    made).bind_settled fun _ => (Lasting.read (Registry.find_stable owner)).map _).mp done
  obtain ⟨d, -, done⟩ :=
    ((Lasting.read (Registry.find_stable owner)).bind_settled fun _ => .pure _).mp done
  cases done
  obtain ⟨readers, writers⟩ := addFields_filled filled
  exact ⟨fun _ _ found => Table.entry_eq_ok.mpr (readers.find? found),
    fun _ _ found => Table.entry_eq_ok.mpr (writers.find? found)⟩

/-- The setter that counts for a property makes its entry, unless the property is excluded. -/
theorem complete_entries {w : Method} {t : Table}
    (resolved : (resolveSetter property ((readers.find? property).map (·.type))
      (candidates property (accessors .write methods))).eval r = (.ok (some w), r))
    (candidate : w ∈ candidates property (accessors .write methods))
    (included : PropertyName.isExcluded property = false)
    (done : (Table.complete owner limit name methods readers).eval r = (.ok t, r)) :
    (∀ e, readers.find? property = some e → t.entry .read property = .ok e) ∧
      ∃ e, t.entry .write property = .ok e ∧ (setterEntry owner w).eval r = (.ok e, r) := by
  obtain ⟨writers, set, filled⟩ := ((setterEntries_lasting owner _ _ _ _).bind_settled fun _ =>
    fill_lasting owner limit name _).mp done
  obtain ⟨read, written⟩ := fill_entries filled
  refine ⟨read property, ?_⟩
  rw [setterEntries_eq] at set
  rcases pass_find (fun property => resolveSetter_lasting property _ _)
    (setterEntry_lasting owner) set property with ⟨absent, -⟩ | ⟨-, result⟩
  · exact absurd (mem_propertiesOf_of_candidate candidate) absent
  cases result with
  | left winner resolved' out _ =>
    obtain rfl := Except.ok.inj (congrArg Prod.fst (resolved'.symm.trans resolved))
    rcases out with none | excluded
    · cases none
    · rw [included] at excluded
      cases excluded
  | entered m e resolved' _ made entry =>
    obtain rfl := Option.some.inj (Except.ok.inj (congrArg Prod.fst (resolved'.symm.trans resolved)))
    exact ⟨e, written property e entry, made⟩

end Halves

/-! ## What is written -/

/-- What is owed where a getter reads a property as `type`: setter `w` counts and makes entry `e`. -/
structure Registry.WritesMatching (r : Registry) (owner : TypeId) (type : TypeId)
    (setters : List Method) (w : Method) (e : Entry) : Prop where
  backed : e.accessor = .method w
  /-- It is the only setter, or the first one that is declared to take what is read. -/
  first : setters = [w] ∨ FirstIn (·.DeclaredAs r .write type) setters w
  /-- The property has the type that the owner sees in it. -/
  seen : w.SeenAs r owner .write e.type
  /-- This is what is read if the owner sees that in it. -/
  agrees : w.SeenAs r owner .write type → e.type = type
  /-- So it is, in particular, where a match is no variable. -/
  rigid : w.DeclaredAs r .write type → (w.valueType .write).IsRigid → e.type = type

/-- A property that a getter reads is not ambiguous if it has but one setter or one that is declared
to take what is read, and such a setter counts. -/
theorem writeType_matching {methods : List Method} {readers : Index Entry} {reader : Entry}
    {outcome : Except Fault Table}
    (resolved : ((resolvedReaders owner limit).eval r).1 = .ok (methods, readers))
    (read : readers.find? property = some reader)
    (built : (Table.build owner limit).eval r = (outcome, grown))
    (matching : (∃ m ∈ candidates property (accessors .write methods),
      m.DeclaredAs grown .write reader.type) ∨
        (candidates property (accessors .write methods)).length = 1) :
    (∀ owner a b, outcome ≠ .error (.ambiguousSetter property owner a b)) ∧
      ∀ t, outcome = .ok t → t.entry .read property = .ok reader ∧
        ∃ w e, t.entry .write property = .ok e ∧ grown.WritesMatching owner reader.type
          (candidates property (accessors .write methods)) w e := by
  rcases build_after_readers resolved built with ⟨id, rfl⟩ | ⟨resolved, name, rest⟩
  · exact ⟨nofun, nofun⟩
  obtain ⟨collected, got⟩ := resolvedReaders_settled resolved
  rw [getterEntries_eq] at got
  obtain ⟨included, -⟩ := pass_entered (fun property => resolveGetter_lasting property _)
    (getterEntry_lasting owner) got read
  obtain ⟨w, candidate, first, counts⟩ := candidates_matching collected matching
  have type : (readers.find? property).map (·.type) = some reader.type := by rw [read]; rfl
  rw [← type] at counts
  constructor
  · rintro owner a b rfl
    exact complete_unambiguous counts rest _ rfl owner a b rfl
  · rintro t rfl
    obtain ⟨kept, e, listed, made⟩ := complete_entries counts candidate included rest
    obtain ⟨backed, seen⟩ := setterEntry_seen made
    exact ⟨kept reader read, w, e, listed, backed, first, seen, seen.unique,
      fun declared rigid => (declared.eq_of_rigid seen rigid).symm⟩

/-! ## A label and a tag -/

/-- A holder of texts that is read as a text and for which an integer can be set; and a tag, which
is read as a text and for which an integer or a text can be set. -/
def Registry.labels : Registry :=
  (((initial.declared "" "Integer" .classType id).declared "" "Holder" .interfaceType
    fun d => (d.withTypeParam ⟨"T", []⟩).setter "setX" (.typeVar "T")).declared "" "Label"
    .interfaceType fun d => ((d.implementing (.applied ⟨12⟩ [.named .string])).getter "getX"
      (.named .string)).setter "setX" (.named ⟨11⟩)).declared "" "Tag" .interfaceType
    fun d => ((d.getter "getX" (.named .string)).setter "setX" (.named ⟨11⟩)).setter "setX"
      (.named .string)

def getText (declaring : TypeId) : Method :=
  MethodDraft.finish { name := "getX", returns := some (.named .string) } declaring

def setValue (declaring : TypeId) (type : GenericType) : Method :=
  MethodDraft.finish { name := "setX", params := [type] } declaring

-- what discovery finds, in its order: own methods before inherited ones
def labelMethods : List Method :=
  [getText ⟨13⟩, setValue ⟨13⟩ (.named ⟨11⟩), setValue ⟨12⟩ (.typeVar "T")]

def tagMethods : List Method :=
  [getText ⟨14⟩, setValue ⟨14⟩ (.named ⟨11⟩), setValue ⟨14⟩ (.named .string)]

theorem exists_readers (owner : TypeId) (methods : List Method)
    (answers : ((resolvedReaders owner Table.defaultLimit).eval .labels).1.toOption.map
      (fun p => (p.1, (p.2.find? "x").map (·.type))) = some (methods, some .string)) :
    ∃ readers reader, ((resolvedReaders owner Table.defaultLimit).eval .labels).1 =
      .ok (methods, readers) ∧ readers.find? "x" = some reader ∧ reader.type = .string := by
  obtain ⟨⟨methods, readers⟩, grown, done, view⟩ := Growing.exists_eval_of_map answers
  simp only [Prod.mk.injEq, Option.map_eq_some_iff] at view
  obtain ⟨rfl, reader, found, type⟩ := view
  exact ⟨readers, reader, congrArg Prod.fst done, found, type⟩

theorem exists_table (owner type : TypeId)
    (answers : Prod.map (·.toOption.map fun t =>
      ((t.readers.find? "x").map (·.type), (t.writers.find? "x").map (·.type))) id
      ((Table.build owner Table.defaultLimit).eval .labels) =
        (some (some .string, some type), .labels)) :
    ∃ t x e, (Table.build owner Table.defaultLimit).eval .labels = (.ok t, .labels) ∧
      t.entry .read "x" = .ok x ∧ x.type = .string ∧ t.entry .write "x" = .ok e ∧
      e.type = type := by
  obtain ⟨t, done, view⟩ := Growing.exists_eval_of_view answers
  simp only [Prod.mk.injEq, Option.map_eq_some_iff] at view
  obtain ⟨⟨x, read, x_type⟩, ⟨e, written, e_type⟩⟩ := view
  exact ⟨t, x, e, done, Table.entry_eq_ok.mpr read, x_type, Table.entry_eq_ok.mpr written, e_type⟩

/-- Of an integer and a text, the text counts where a text is read. -/
theorem writeType_matching_tag : ∃ readers reader t w e,
    ((resolvedReaders ⟨14⟩ Table.defaultLimit).eval .labels).1 = .ok (tagMethods, readers) ∧
      readers.find? "x" = some reader ∧
      (Table.build ⟨14⟩ Table.defaultLimit).eval .labels = (.ok t, .labels) ∧
      (∃ m ∈ candidates "x" (accessors .write tagMethods),
        m.DeclaredAs .labels .write reader.type) ∧
      t.entry .write "x" = .ok e ∧ Registry.labels.WritesMatching ⟨14⟩ reader.type
        (candidates "x" (accessors .write tagMethods)) w e := by
  obtain ⟨readers, reader, resolved, read, type⟩ := exists_readers ⟨14⟩ tagMethods (by cbv)
  obtain ⟨t, -, -, built, -⟩ := exists_table ⟨14⟩ .string (by cbv)
  have listed : candidates "x" (accessors .write tagMethods) =
      [setValue ⟨14⟩ (.named ⟨11⟩), setValue ⟨14⟩ (.named .string)] := by cbv
  have matching : ∃ m ∈ candidates "x" (accessors .write tagMethods),
      m.DeclaredAs .labels .write reader.type := by
    rw [listed, type]
    exact ⟨setValue ⟨14⟩ (.named .string), by simp, rfl⟩
  obtain ⟨-, table⟩ := writeType_matching resolved read built (.inl matching)
  obtain ⟨-, w, e, listed, counts⟩ := table t rfl
  exact ⟨readers, reader, t, w, e, resolved, read, built, matching, listed, counts⟩

/-- The label sees a text in the holder's variable, and yet an integer is written. -/
theorem writeType_misses_seen : ∃ readers reader t x e,
    ((resolvedReaders ⟨13⟩ Table.defaultLimit).eval .labels).1 = .ok (labelMethods, readers) ∧
      readers.find? "x" = some reader ∧
      (Table.build ⟨13⟩ Table.defaultLimit).eval .labels = (.ok t, .labels) ∧
      (∃ m ∈ candidates "x" (accessors .write labelMethods),
        m.SeenAs .labels ⟨13⟩ .write reader.type) ∧
      t.entry .read "x" = .ok x ∧ x.type = reader.type ∧ t.entry .write "x" = .ok e ∧
      e.type ≠ x.type := by
  obtain ⟨readers, reader, resolved, read, type⟩ := exists_readers ⟨13⟩ labelMethods (by cbv)
  obtain ⟨t, x, e, built, getter, x_type, setter, e_type⟩ :=
    exists_table ⟨13⟩ ⟨11⟩ (by cbv)
  have listed : candidates "x" (accessors .write labelMethods) =
      [setValue ⟨13⟩ (.named ⟨11⟩), setValue ⟨12⟩ (.typeVar "T")] := by cbv
  refine ⟨readers, reader, t, x, e, resolved, read, built, ?_, getter, x_type.trans type.symm,
    setter, ?_⟩
  · rw [listed, type]
    exact ⟨setValue ⟨12⟩ (.typeVar "T"), by simp, .named .string, by cbv, rfl⟩
  · rw [x_type, e_type]
    decide

end PropertyTables
