import PropertyTables.Proofs.Catalog.Branches
import PropertyTables.Proofs.First
import PropertyTables.Proofs.Table.Matching
import PropertyTables.Settings

/-! # Validating settings

A validation looks up the tables on the way of every key, and keeps them and the array types that
they need even if it fails.

* `Settings.insertAll`: what insertions make of settings. `insertAll_ofList` says that these are the
  settings of all pairs, and `mem_names_ofList` which keys they have.
* `Settings.Exact`: a validation that accepts the settings just if it should, and otherwise tells
  what is wrong with the least of the keys.
* `checkNames_outcome`: what checking names in order comes to.
* `validation_exact`: every validation is exact and has the same outcome whatever was looked up
  before.
* `validation_depends_on_interning`: not so where a declaration mentions an identity that was not
  handed out.
-/

namespace PropertyTables
set_option autoImplicit false

open Registry (Twin)

namespace Settings

/-! ## Keys -/

/-- The settings after some insertions, one after the other. -/
def insertAll (s : Settings) (changes : List (String × String)) : Settings :=
  changes.foldl (fun s change => (s.insert change.1 change.2).2) s

/-- Whether two settings have the same keys. -/
def SameKeys (s s' : Settings) : Prop := ∀ key, (s.get? key).isSome = (s'.get? key).isSome

theorem insertAll_ofList (pairs changes : List (String × String)) :
    (ofList pairs).insertAll changes = ofList (pairs ++ changes) := by
  rw [ofList, ofList, Index.ofList, Index.ofList, List.foldl_append]
  generalize pairs.foldl (fun x p => x.insert p.1 p.2) Index.empty = x
  induction changes generalizing x with
  | nil => rfl
  | cons change rest ih => exact ih (x.insert change.1 change.2)

theorem mem_names_ofList {pairs : List (String × String)} {key : String} :
    key ∈ (ofList pairs).entries.names ↔ key ∈ pairs.map (·.1) := by
  rw [ofList, Index.mem_names_ofList]
  simp

theorem sameKeys_iff {s s' : Settings} :
    s.SameKeys s' ↔ ∀ key, key ∈ s.entries.names ↔ key ∈ s'.entries.names := by
  refine forall_congr' fun key => ?_
  rw [get?, get?, Bool.eq_iff_iff, Option.isSome_iff_exists, Option.isSome_iff_exists,
    Index.mem_names, Index.mem_names]

/-! ## Exactness -/

/-- What is wrong with a key, going by whether it can be written. -/
inductive Refusal (key : String) : Except Fault Bool → Fault → Prop
  | unknown : Refusal key (.ok false) (.unknownSetting key)
  | fault (fault : Fault) : Refusal key (.error fault) fault

theorem Refusal.ne {key : String} {writable : Except Fault Bool} {fault : Fault}
    (h : Refusal key writable fault) : writable ≠ .ok true := by
  cases h <;> simp

theorem Refusal.unique {key : String} {writable : Except Fault Bool} {fault fault' : Fault}
    (h : Refusal key writable fault) (h' : Refusal key writable fault') : fault = fault' := by
  cases h <;> cases h' <;> rfl

/-- An outcome for some keys, going by which of them can be written. -/
structure Exact (writable : String → Except Fault Bool) (keys : List String)
    (outcome : Except Fault Unit) : Prop where
  /-- Keys are accepted just if all of them can be written. -/
  accepted : outcome = .ok () ↔ ∀ key ∈ keys, writable key = .ok true
  /-- They are refused for the least key that cannot. -/
  refused : ∀ fault, outcome = .error fault ↔ ∃ key ∈ keys, Refusal key (writable key) fault ∧
    ∀ other ∈ keys, other < key → writable other = .ok true

variable {writable : String → Except Fault Bool} {keys keys' : List String}
  {outcome outcome' : Except Fault Unit}

theorem Exact.congr (h : Exact writable keys outcome) (same : ∀ key, key ∈ keys ↔ key ∈ keys') :
    Exact writable keys' outcome where
  accepted := by simp only [h.accepted, same]
  refused fault := by simp only [h.refused, same]

/-- The outcome is up to the keys and to which of them can be written. -/
theorem Exact.unique (h : Exact writable keys outcome) (h' : Exact writable keys outcome') :
    outcome = outcome' := by
  cases outcome with
  | ok => exact (h'.accepted.mpr (h.accepted.mp rfl)).symm
  | error fault => exact ((h'.refused fault).mpr ((h.refused fault).mp rfl)).symm

theorem exact_of_accepted (all : ∀ key ∈ keys, writable key = .ok true) :
    Exact writable keys (.ok ()) where
  accepted := ⟨fun _ => all, fun _ => rfl⟩
  refused fault := by
    refine ⟨nofun, ?_⟩
    rintro ⟨key, listed, refusal, -⟩
    exact absurd (all key listed) refusal.ne

/-- The first of sorted keys is the least. -/
theorem exact_of_first (sorted : keys.Pairwise (· < ·)) {key : String} {fault : Fault}
    (first : FirstIn (fun key => writable key ≠ .ok true) keys key)
    (refusal : Refusal key (writable key) fault) : Exact writable keys (.error fault) := by
  have least : ∀ other ∈ keys, other < key → writable other = .ok true := by
    obtain ⟨before, after, rfl, passed⟩ := first.split
    obtain ⟨-, behind, -⟩ := List.pairwise_append.mp sorted
    intro other listed less
    rcases List.mem_append.mp listed with early | late
    · exact not_not.mp (passed other early)
    · rcases List.mem_cons.mp late with rfl | late
      · exact absurd less (String.lt_irrefl _)
      · have greater := (List.pairwise_cons.mp behind).1 other late
        exact absurd (String.lt_trans less greater) (String.lt_irrefl _)
  constructor
  · exact ⟨nofun, fun all => absurd (all key first.mem) refusal.ne⟩
  · intro fault'
    constructor
    · rintro ⟨⟩
      exact ⟨key, first.mem, refusal, least⟩
    · rintro ⟨other, listed, refusal', least'⟩
      have same : other = key := by
        refine String.le_antisymm (String.not_lt.mp fun less => ?_) (String.not_lt.mp fun less => ?_)
        · exact refusal.ne (least' key first.mem less)
        · exact refusal'.ne (least other listed less)
      subst same
      rw [refusal.unique refusal']

/-! ## Checking names -/

variable {b : Registry} {limit : Nat} {lib lib' : Library} {t t' : Table}

theorem checkNames_cons (t : Table) (key : String) (rest : List String) (lib : Library) :
    (checkNames t (key :: rest)).eval lib = match (t.canWrite key).eval lib with
      | (.ok true, after) => (checkNames t rest).eval after
      | (.ok false, after) => (.error (.unknownSetting key), after)
      | (.error fault, after) => (.error fault, after) := by
  rw [checkNames, Browsing.eval_bind]
  rcases (t.canWrite key).eval lib with ⟨fault | found, after⟩
  · rfl
  · cases found <;> rfl

/-- What is looked up for a key makes no difference to the keys after it. -/
theorem checkNames_outcome (reachable : b.Reachable) (grounded : b.Grounded)
    (left : lib.Within b limit) (right : lib'.Within b limit)
    (twins : PropertiesTwin b.size lib.registry lib'.registry t t') (names : List String) :
    let writable (key : String) := ((t.canWrite key).eval lib).1
    (∀ key ∈ names, writable key = .ok true) ∧ ((checkNames t' names).eval lib').1 = .ok () ∨
      ∃ key fault, FirstIn (fun key => writable key ≠ .ok true) names key ∧
        Refusal key (writable key) fault ∧ ((checkNames t' names).eval lib').1 = .error fault := by
  intro writable
  induction names generalizing lib' with
  | nil => exact .inl ⟨by simp, rfl⟩
  | cons key rest ih =>
    have here : writable key = ((t'.canWrite key).eval lib').1 :=
      Table.canWrite_eq reachable grounded left right twins key
    have keeps := (t'.canWrite_transparent limit key).keeps right
    rw [checkNames_cons]
    revert here keeps
    rcases (t'.canWrite key).eval lib' with ⟨fault | found, after⟩ <;> intro here keeps
    · exact .inr ⟨key, fault, .here _ (by simp [here]), here ▸ .fault fault, rfl⟩
    · cases found with
      | false => exact .inr ⟨key, _, .here _ (by simp [here]), here ▸ .unknown, rfl⟩
      | true =>
        have twins := PropertiesTwin.remains b.size _ _ _ _ _ _ twins (.refl _) keeps.1
        rcases ih keeps.2 twins with ⟨all, done⟩ | ⟨other, fault, first, refusal, failed⟩
        · exact .inl ⟨List.forall_mem_cons.mpr ⟨here, all⟩, done⟩
        · exact .inr ⟨other, fault, .later (not_not.mpr here) first, refusal, failed⟩

theorem checkNames_transparent (limit : Nat) (t : Table) (names : List String) :
    Transparent limit id (checkNames t names) := by
  induction names with
  | nil => exact .pure ()
  | cons key rest ih =>
    have goes_on (found : Bool) : Transparent limit id
        (if found then checkNames t rest else throw (.unknownSetting key)) := by
      cases found with
      | true => exact ih
      | false => exact .lift (.error (.unknownSetting key))
    rw [checkNames]
    exact (t.canWrite_transparent limit key).bind goes_on

/-- A validation is so many questions whether a path can be written. -/
theorem checkNames_calls (t : Table) (names : List String) (lib : Library) :
    ∃ calls : List Library.Call, (∀ call ∈ calls, ¬ call.Declares) ∧
      ((checkNames t names).eval lib).2 = lib.afterAll calls := by
  induction names generalizing lib with
  | nil => exact ⟨[], by simp, rfl⟩
  | cons key rest ih =>
    let asked : Library.Call := .request (.follow t key .canWrite)
    have after : lib.after asked = ((t.canWrite key).eval lib).2 := by
      show ((do return .truth (← t.canWrite key) : Browsing Answer).eval lib).2 = _
      rw [Browsing.eval_bind]
      rcases (t.canWrite key).eval lib with ⟨fault | found, later⟩ <;> rfl
    obtain ⟨calls, nothing, goes_on⟩ := ih (lib.after asked)
    have only : ∀ call ∈ [asked], ¬ call.Declares := by simp [asked, Library.Call.Declares]
    rw [checkNames_cons]
    rcases outcome : (t.canWrite key).eval lib with ⟨fault | found, later⟩ <;> rw [outcome] at after
    · exact ⟨[asked], only, after.symm⟩
    · cases found with
      | false => exact ⟨[asked], only, after.symm⟩
      | true =>
        refine ⟨asked :: calls, List.forall_mem_cons.mpr ⟨only _ List.mem_cons_self, nothing⟩, ?_⟩
        obtain rfl : lib.after asked = later := after
        exact goes_on

/-! ## Validations -/

/-- In whatever library a table was given, a validation against it is exact. -/
theorem validate_exact (reachable : b.Reachable) (grounded : b.Grounded) {type : TypeId}
    (gave : lib.Gave b limit type t) (s : Settings) :
    Exact (fun key => ((t.canWrite key).eval lib).1) s.entries.names
      ((s.validate t).eval lib).1 := by
  have twins := gave.twins reachable gave grounded (gave.twin_self reachable (.refl _))
  rcases checkNames_outcome reachable grounded gave.within gave.within twins s.entries.names with
    ⟨all, done⟩ | ⟨key, fault, first, refusal, failed⟩
  · rw [validate, done]
    exact exact_of_accepted all
  · rw [validate, failed]
    exact exact_of_first s.entries.names_sorted first refusal

/-- Of settings with the same keys, validated against tables of one type, either all are accepted or
all are refused for the same reason. -/
theorem validate_same (reachable : b.Reachable) (grounded : b.Grounded) {type type' : TypeId}
    (left : lib.Gave b limit type t) (right : lib'.Gave b limit type' t')
    (twin : Twin b.size lib.registry lib'.registry type type') {s s' : Settings}
    (same : s.SameKeys s') :
    ((s.validate t).eval lib).1 = ((s'.validate t').eval lib').1 := by
  have twins := left.twins reachable right grounded twin
  have writable (key : String) : ((t.canWrite key).eval lib).1 = ((t'.canWrite key).eval lib').1 :=
    Table.canWrite_eq reachable grounded left.within right.within twins key
  have exact := validate_exact reachable grounded left s
  simp only [writable, Index.names_ext (sameKeys_iff.mp same)] at exact
  exact exact.unique (validate_exact reachable grounded right s')

end Settings

/-- In a registry whose declarations mention only identities that were handed out, a validation
accepts settings just if every key can be written, and otherwise fails as the least key does that
cannot. The outcome is up to the keys: it is the same for the same type in all libraries over that
registry, whatever array types they interned and whatever tables they keep. What declares nothing
leaves a library that gave the table one that gave it, and so does a validation. In any registry,
the outcome is the same whatever is kept. -/
theorem validation_exact :
    (∀ b limit type t lib, b.Reachable → b.Grounded → Library.Gave b limit type t lib →
      (∀ pairs changes, Settings.Exact (fun key => ((t.canWrite key).eval lib).1)
        ((pairs ++ changes).map (·.1))
        ((((Settings.ofList pairs).insertAll changes).validate t).eval lib).1) ∧
      (∀ type' t' lib', Library.Gave b limit type' t' lib' →
        Twin b.size lib.registry lib'.registry type type' →
        ∀ s s' : Settings, s.SameKeys s' →
          ((s.validate t).eval lib).1 = ((s'.validate t').eval lib').1) ∧
      ∀ (calls : List Library.Call) (s : Settings), (∀ call ∈ calls, ¬ call.Declares) →
        let after := ((s.validate t).eval (lib.afterAll calls)).2
        after.Gave b limit type t ∧ Twin b.size lib.registry after.registry type type) ∧
    ∀ limit lib lib' t (s s' : Settings), Library.Alike limit lib lib' → s.SameKeys s' →
      ((s.validate t).eval lib).1 = ((s'.validate t).eval lib').1 := by
  refine ⟨fun b limit type t lib reachable grounded gave => ⟨?_, ?_, ?_⟩, ?_⟩
  · intro pairs changes
    rw [Settings.insertAll_ofList]
    exact (Settings.validate_exact reachable grounded gave _).congr fun key =>
      Settings.mem_names_ofList
  · intro type' t' lib' gave' twin s s' same
    exact Settings.validate_same reachable grounded gave gave' twin same
  · intro calls s nothing
    obtain ⟨asked, none, after⟩ :=
      Settings.checkNames_calls t s.entries.names (lib.afterAll calls)
    have together : (lib.afterAll calls).afterAll asked = lib.afterAll (calls ++ asked) :=
      (List.foldl_append ..).symm
    have all : ∀ call ∈ calls ++ asked, ¬ call.Declares :=
      List.forall_mem_append.mpr ⟨nothing, none⟩
    rw [Settings.validate, after, together]
    exact ⟨gave.afterAll all, gave.twin_self reachable (lib.afterAll_interns all)⟩
  · intro limit lib lib' t s s' alike same
    rw [Settings.validate, Settings.validate, Index.names_ext (Settings.sameKeys_iff.mp same)]
    exact (alike.transparent (Settings.checkNames_transparent limit t _)).1

/-- A bean with a bean and an array in it. -/
def Registry.configured : Registry :=
  (initial.declared "" "Environment" .classType fun d =>
    d.privateField "id" (.named .string)).declared "" "Configuration" .classType fun d =>
      (d.privateField "env" (.named ⟨11⟩)).privateField "tags" (.array (.named .string))

/-- What a library does before it looks the bean up: it interns an array type, and looks up the bean
in the bean. -/
def Library.preparations : List Library.Call :=
  [.operation (.internArray Primitive.int.typeId), .request (.lookUp ⟨11⟩)]

theorem configured_refuses :
    ((Library.fresh Registry.configured Table.defaultLimit true).lookup ⟨12⟩).outcome.map
      (fun held => (((Settings.ofList [("tags", ""), ("env.size", "")]).validate held.table).eval
        ((Library.fresh Registry.configured Table.defaultLimit true).afterAll
          [.request (.lookUp ⟨12⟩)])).1) =
      .ok (.error (.unknownSetting "env.size")) := by
  cbv

theorem configured_found :
    (((Library.fresh Registry.configured Table.defaultLimit false).afterAll
      Library.preparations).lookup ⟨12⟩).outcome.isOk = true := by
  cbv

/-- Where the catalog is off and another array type was interned first, a validation of the same keys
comes to the same. -/
theorem validation_exact_configured :
    let lib := (Library.fresh Registry.configured Table.defaultLimit true).afterAll
      [.request (.lookUp ⟨12⟩)]
    let lib' := (Library.fresh Registry.configured Table.defaultLimit false).afterAll
      (Library.preparations ++ [.request (.lookUp ⟨12⟩)])
    ∃ t t', lib.Gave Registry.configured Table.defaultLimit ⟨12⟩ t ∧
      lib'.Gave Registry.configured Table.defaultLimit ⟨12⟩ t' ∧
      (((Settings.ofList [("tags", ""), ("env.size", "")]).validate t).eval lib).1 =
        .error (.unknownSetting "env.size") ∧
      (((Settings.ofList [("env.size", "1"), ("tags", "2")]).validate t').eval lib').1 =
        .error (.unknownSetting "env.size") := by
  intro lib lib'
  let start := Library.fresh Registry.configured Table.defaultLimit true
  let other := Library.fresh Registry.configured Table.defaultLimit false
  have reachable : Registry.configured.Reachable :=
    (Registry.Reachable.declared .refl _ _ _ _).declared _ _ _ _
  have grounded : Registry.configured.Grounded := by decide
  have only : ∀ call ∈ [Library.Call.request (.lookUp ⟨12⟩)], ¬ call.Declares := by
    simp [Library.Call.Declares]
  have nothing : ∀ call ∈ Library.preparations ++ [.request (.lookUp ⟨12⟩)], ¬ call.Declares := by
    simp [Library.preparations, Library.Call.Declares, Registry.Operation.Declares]
  have refuses := configured_refuses
  have found := configured_found
  cases given : (start.lookup ⟨12⟩).outcome with
  | error fault =>
    rw [given] at refuses
    cases refuses
  | ok held =>
    rw [given] at refuses
    cases given' : ((other.afterAll Library.preparations).lookup ⟨12⟩).outcome with
    | error fault =>
      rw [given'] at found
      cases found
    | ok held' =>
      have at_once : ((start.afterAll []).lookup ⟨12⟩).outcome.map Held.table = .ok held.table :=
        congrArg _ given
      have gave : lib.Gave Registry.configured Table.defaultLimit ⟨12⟩ held.table :=
        .of_lookUp at_once (start.afterAll_interns only)
      have gave' : lib'.Gave Registry.configured Table.defaultLimit ⟨12⟩ held'.table :=
        .of_lookUp (congrArg _ given') (other.afterAll_interns nothing)
      obtain ⟨-, same, -⟩ := validation_exact.1 _ _ _ _ _ reachable grounded gave
      have keys : (Settings.ofList [("tags", ""), ("env.size", "")]).SameKeys
          (Settings.ofList [("env.size", "1"), ("tags", "2")]) := by
        simp [Settings.sameKeys_iff, Settings.mem_names_ofList, or_comm]
      have outcome := same _ _ _ gave' (.old (by decide)) _ _ keys
      have refused := Except.ok.inj refuses
      exact ⟨_, _, gave, gave', refused, outcome.symm.trans refused⟩

/-! ## Interning that is waited for -/

/-- A class with an array, and a class that mentions the identity that the array type will have. -/
def Registry.premature : Registry :=
  (initial.declared "" "Tagged" .classType fun d =>
    d.privateField "x" (.array (.named .string))).declared "" "Holder" .classType fun d =>
      (d.privateField "a" (.named ⟨11⟩)).privateField "c" (.named ⟨13⟩)

/-- Looks a type up, then some others, and validates settings against the table of the first. -/
def Settings.validateAfter (pairs : List (String × String)) (type : TypeId)
    (others : List TypeId) : Browsing Unit := do
  let held ← findTable type
  preload others
  (Settings.ofList pairs).validate held.table

/-- What settings of the second class come to. -/
def Registry.prematureOutcome (pairs : List (String × String)) (others : List TypeId) :
    Except Fault Unit :=
  ((Settings.validateAfter pairs ⟨12⟩ others).eval
    (Library.fresh premature Table.defaultLimit true)).1

theorem prematureOutcome_alone :
    Registry.prematureOutcome [("c.y", "")] [] = .error (.typeNotFound ⟨13⟩) := by
  cbv

theorem prematureOutcome_after :
    Registry.prematureOutcome [("c.y", "")] [⟨11⟩] = .error (.unknownSetting "c.y") := by
  cbv

theorem prematureOutcome_behind :
    Registry.prematureOutcome [("a.x", ""), ("c.y", "")] [] = .error (.unknownSetting "c.y") := by
  cbv

/-- A type is found after another table has had it interned, and not otherwise. The table may be one
that an earlier key asked for. -/
theorem validation_depends_on_interning :
    Registry.premature.Reachable ∧ ¬ Registry.premature.Grounded ∧
      Registry.prematureOutcome [("c.y", "")] [] = .error (.typeNotFound ⟨13⟩) ∧
      Registry.prematureOutcome [("c.y", "")] [⟨11⟩] = .error (.unknownSetting "c.y") ∧
      Registry.prematureOutcome [("a.x", ""), ("c.y", "")] [] =
        .error (.unknownSetting "c.y") :=
  ⟨(Registry.Reachable.declared .refl _ _ _ _).declared _ _ _ _, by decide,
    prematureOutcome_alone, prematureOutcome_after, prematureOutcome_behind⟩

end PropertyTables
