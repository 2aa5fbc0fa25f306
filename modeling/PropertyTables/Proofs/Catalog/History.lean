import Mathlib.Data.List.Dedup
import PropertyTables.Proofs.Catalog.Calls
import PropertyTables.Proofs.Table.Origins

/-! # The history of a catalog

* `Library.Run`: lookups with other calls between them, one after the other.
* `Library.lookUp_cases`: what a single lookup does.
* `Library.enabled_afterAll`, `Library.lookups_enabled`: the catalog and every lookup are in the mode
  that the last switch says.
* `Library.Recorded`: what the lookups so far tell about a library. Every lookup keeps it,
  `Recorded.lookUp`, and so does every run, `Recorded.run`.
* `Library.history_lawful`: tables stay as they are kept, and are kept once.
-/

namespace PropertyTables
set_option autoImplicit false

open Growing (Lasting)

/-! ## Runs -/

namespace Library

/-- A run: lookups, one after the other, with switching and operations on the registry between
them. -/
inductive Run : Library → List Lookup → Library → Prop
  | stop (lib : Library) : Run lib [] lib
  | lookUp {lib last : Library} {later : List Lookup} (type : TypeId)
      (rest : Run (lib.afterLookup type) later last) : Run lib (lib.lookup type :: later) last
  | switch {lib last : Library} {later : List Lookup} (enabled : Bool)
      (rest : Run (lib.switched enabled) later last) : Run lib later last
  | operation {lib last : Library} {later : List Lookup} (op : Registry.Operation)
      (rest : Run (lib.withRegistry (op.apply lib.registry)) later last) : Run lib later last

theorem Run.trans {a b c : Library} {first second : List Lookup} (hab : Run a first b)
    (hbc : Run b second c) : Run a (first ++ second) c := by
  induction hab with
  | stop => exact hbc
  | lookUp type _ ih => exact .lookUp type (ih hbc)
  | switch enabled _ ih => exact .switch enabled (ih hbc)
  | operation op _ ih => exact .operation op (ih hbc)

end Library

theorem Plan.run_lookups {α : Type} (p : Plan α) (lib : Library) :
    lib.Run (p.lookups lib) (p.run.eval lib).2 := by
  induction p generalizing lib with
  | done outcome => exact .stop lib
  | lookUp type next ih =>
    rw [lookups, run, Browsing.eval_bind]
    refine .lookUp type ?_
    rw [Library.lookup, Library.afterLookup]
    rcases (findTable type).eval lib with ⟨fault | held, later⟩
    · exact .stop later
    · exact ih held later

namespace Library

theorem run_lookups (lib : Library) (call : Call) : lib.Run (lib.lookups call) (lib.after call) := by
  cases call with
  | request q =>
    rw [after, ← q.run_plan]
    exact q.plan.run_lookups lib
  | property t name =>
    rw [after, ← t.run_propertyPlan name]
    exact (t.propertyPlan name).run_lookups lib
  | preload types =>
    rw [after, ← run_preloadPlan]
    exact (preloadPlan types).run_lookups lib
  | switch enabled => exact .switch enabled (.stop _)
  | operation op => exact .operation op (.stop _)

theorem run_history (lib : Library) (calls : List Call) :
    lib.Run (lib.history calls) (lib.afterAll calls) := by
  induction calls generalizing lib with
  | nil => exact .stop lib
  | cons call rest ih => exact (lib.run_lookups call).trans (ih (lib.after call))

/-! ## One lookup -/

variable {lib : Library} {type : TypeId}

/-- A lookup finds a table that is kept, or builds one, which fails or gives a table under a new
number. -/
theorem lookUp_cases (lib : Library) (type : TypeId) :
    (∃ held, lib.catalog.find? type = some held ∧ (findTable type).eval lib = (.ok held, lib)) ∨
    lib.catalog.find? type = none ∧ ∃ grown, lib.registry.Interns grown ∧
      ((∃ fault, (Table.build type lib.catalog.limit).eval lib.registry = (.error fault, grown) ∧
        (findTable type).eval lib = (.error fault, lib.withRegistry grown)) ∨
      ∃ table, (Table.build type lib.catalog.limit).eval lib.registry = (.ok table, grown) ∧
        (findTable type).eval lib = (.ok ⟨lib.built, table⟩, {
          registry := grown
          catalog := lib.catalog.keep type ⟨lib.built, table⟩
          built := lib.built + 1 })) := by
  cases found : lib.catalog.find? type with
  | some held => exact .inl ⟨held, rfl, findTable_kept found⟩
  | none =>
    have outcome := findTable_built found
    rcases done : (Table.build type lib.catalog.limit).eval lib.registry with ⟨fault | table, grown⟩
    · rw [done] at outcome
      exact .inr ⟨rfl, grown, (build_lasting type _).interns_of_eval done, .inl ⟨fault, rfl, outcome⟩⟩
    · rw [done] at outcome
      exact .inr ⟨rfl, grown, (build_lasting type _).interns_of_eval done, .inr ⟨table, rfl, outcome⟩⟩

theorem afterLookup_interns (lib : Library) (type : TypeId) :
    lib.registry.Interns (lib.afterLookup type).registry := by
  rcases lib.lookUp_cases type with ⟨held, -, outcome⟩ | ⟨-, grown, interns, outcome⟩
  · rw [afterLookup, outcome]
    exact .refl _
  · rcases outcome with ⟨fault, -, outcome⟩ | ⟨table, -, outcome⟩ <;>
    · rw [afterLookup, outcome]
      exact interns

theorem not_mem_kept_of_find? {c : Catalog} (unknown : c.find? type = none)
    (enabled : c.enabled = true) : type ∉ c.kept.map (·.1) := by
  rw [Catalog.find?, if_pos enabled, List.lookup_eq_none_iff] at unknown
  intro member
  obtain ⟨entry, kept, same⟩ := List.mem_map.mp member
  exact absurd same.symm (by simpa using unknown entry kept)

/-! ## Modes -/

/-- Lookups do not switch the catalog. -/
theorem enabled_afterLookup (lib : Library) (type : TypeId) :
    (lib.afterLookup type).catalog.enabled = lib.catalog.enabled := by
  rcases lib.lookUp_cases type with ⟨held, -, outcome⟩ | ⟨-, grown, -, outcome⟩
  · rw [afterLookup, outcome]
  · rcases outcome with ⟨fault, -, outcome⟩ | ⟨table, -, outcome⟩
    · rw [afterLookup, outcome]
      rfl
    · rw [afterLookup, outcome, Catalog.keep]
      split <;> rfl

end Library

theorem Plan.enabled_run {α : Type} (p : Plan α) (lib : Library) :
    (p.run.eval lib).2.catalog.enabled = lib.catalog.enabled ∧
      ∀ l ∈ p.lookups lib, l.before.enabled = lib.catalog.enabled := by
  induction p generalizing lib with
  | done outcome => exact ⟨rfl, by simp [lookups]⟩
  | lookUp type next ih =>
    have here := lib.enabled_afterLookup type
    rw [lookups, run, Browsing.eval_bind, List.forall_mem_cons]
    rw [Library.afterLookup] at here
    rw [Library.lookup, Library.afterLookup]
    revert here
    rcases (findTable type).eval lib with ⟨fault | held, later⟩
    · exact fun here => ⟨here, rfl, by simp⟩
    · intro here
      obtain ⟨after, earlier⟩ := ih held later
      exact ⟨after.trans here, rfl, fun l member => (earlier l member).trans here⟩

namespace Library

/-- A call leaves the catalog in its mode, or switches it. -/
theorem enabled_after (lib : Library) (call : Call) :
    (lib.after call).catalog.enabled = call.mode?.getD lib.catalog.enabled := by
  cases call with
  | request q =>
    rw [after, ← q.run_plan]
    exact (q.plan.enabled_run lib).1
  | property t name =>
    rw [after, ← t.run_propertyPlan name]
    exact ((t.propertyPlan name).enabled_run lib).1
  | preload types =>
    rw [after, ← run_preloadPlan]
    exact ((preloadPlan types).enabled_run lib).1
  | switch enabled => rfl
  | operation op => rfl

theorem enabled_afterAll (lib : Library) (calls : List Call) :
    (lib.afterAll calls).catalog.enabled = modeAfter lib.catalog.enabled calls := by
  induction calls generalizing lib with
  | nil => rfl
  | cons call rest ih =>
    rw [modeAfter_cons, ← enabled_after]
    exact ih (lib.after call)

theorem lookups_enabled (lib : Library) (call : Call) :
    ∀ l ∈ lib.lookups call, l.before.enabled = lib.catalog.enabled := by
  cases call with
  | request q => exact (q.plan.enabled_run lib).2
  | property t name => exact ((t.propertyPlan name).enabled_run lib).2
  | preload types => exact ((preloadPlan types).enabled_run lib).2
  | switch enabled => simp [lookups]
  | operation op => simp [lookups]

/-! ## What the lookups so far tell -/

variable {lib : Library} {type : TypeId}

/-- A catalog keeps what lookups gave while it was enabled, each type once; numbers are handed out
once, and not again while the catalog is off. -/
structure Recorded (limit : Nat) (past : List Lookup) (lib : Library) : Prop where
  sound : lib.Sound
  limit : lib.catalog.limit = limit
  nodup : (lib.catalog.kept.map (·.1)).Nodup
  kept : ∀ type held, (type, held) ∈ lib.catalog.kept ↔
    ∃ l ∈ past, l.before.enabled = true ∧ l.type = type ∧ l.outcome = .ok held
  numbered : ∀ l ∈ past, ∀ held, l.outcome = .ok held → held.serial < lib.built
  apart : past.Pairwise fun a b => b.before.enabled = false →
    ∀ held held', a.outcome = .ok held → b.outcome = .ok held' → held.serial ≠ held'.serial

variable {limit : Nat} {past : List Lookup}

/-- A library that keeps no table yet, whatever was built elsewhere. -/
theorem empty_recorded (r : Registry) (limit : Nat) (enabled : Bool) (built : Nat) :
    Recorded limit [] ⟨r, { enabled := enabled, limit := limit }, built⟩ where
  sound := fun _ kept => absurd kept List.not_mem_nil
  limit := rfl
  nodup := .nil
  kept := by simp
  numbered := by simp
  apart := .nil

theorem fresh_recorded (r : Registry) (limit : Nat) (enabled : Bool) :
    (fresh r limit enabled).Recorded limit [] := empty_recorded r limit enabled 0

namespace Recorded

theorem withRegistry (h : lib.Recorded limit past) {later : Registry}
    (grows : lib.registry.GrowsTo later) : (lib.withRegistry later).Recorded limit past :=
  { h with sound := h.sound.withRegistry grows }

theorem switched (h : lib.Recorded limit past) (enabled : Bool) :
    (lib.switched enabled).Recorded limit past :=
  { h with sound := h.sound }

/-- A lookup that fails, or finds what is kept, tells nothing new. -/
theorem known (h : lib.Recorded limit past) {l : Lookup} (kept : ∀ held, l.outcome = .ok held →
    l.before.enabled = true ∧ (l.type, held) ∈ lib.catalog.kept) :
    lib.Recorded limit (past ++ [l]) where
  sound := h.sound
  limit := h.limit
  nodup := h.nodup
  kept type held := by
    rw [h.kept]
    constructor
    · rintro ⟨l', member, rest⟩
      exact ⟨l', List.mem_append_left _ member, rest⟩
    · rintro ⟨l', member, enabled, rfl, ok⟩
      rcases List.mem_append.mp member with before | last
      · exact ⟨l', before, enabled, rfl, ok⟩
      · obtain rfl := List.mem_singleton.mp last
        exact (h.kept _ _).mp (kept held ok).2
  numbered l' member held ok := by
    rcases List.mem_append.mp member with before | last
    · exact h.numbered l' before held ok
    · obtain rfl := List.mem_singleton.mp last
      obtain ⟨earlier, before, -, -, ok'⟩ := (h.kept _ _).mp (kept held ok).2
      exact h.numbered earlier before held ok'
  apart := by
    refine List.pairwise_append.mpr ⟨h.apart, List.pairwise_singleton _ _, ?_⟩
    rintro a - b last off held held' - ok
    obtain rfl := List.mem_singleton.mp last
    rw [(kept held' ok).1] at off
    cases off

/-- A table that is built has a number of its own; it is kept if the catalog is enabled. -/
theorem built (h : lib.Recorded limit past) {type : TypeId} {table : Table} {grown : Registry}
    (unknown : lib.catalog.find? type = none)
    (done : (Table.build type lib.catalog.limit).eval lib.registry = (.ok table, grown))
    {l : Lookup} (of_type : l.type = type) (before : l.before = lib.catalog)
    (ok : l.outcome = .ok ⟨lib.built, table⟩) :
    Recorded limit (past ++ [l]) {
      registry := grown
      catalog := lib.catalog.keep type ⟨lib.built, table⟩
      built := lib.built + 1 } := by
  have grows := ((build_lasting type _).interns_of_eval done).growsTo
  have again := (build_lasting type _).again done
  have same_limit : (lib.catalog.keep type ⟨lib.built, table⟩).limit = limit := by
    rw [← h.limit, Catalog.keep]
    split <;> rfl
  have kept_after : ∀ type' held, (type', held) ∈ (lib.catalog.keep type ⟨lib.built, table⟩).kept ↔
      (type', held) ∈ lib.catalog.kept ∨
        lib.catalog.enabled = true ∧ type' = type ∧ held = ⟨lib.built, table⟩ := by
    intro type' held
    rw [Catalog.keep]
    split
    · rename_i enabled
      simp [enabled, or_comm]
    · rename_i disabled
      simp [disabled]
  have later (l' : Lookup) (member : l' ∈ past ++ [l]) : l' ∈ past ∨ l' = l := by
    simpa using member
  refine ⟨(h.sound.grow grows (lib.built + 1)).keep again, same_limit, ?_, ?_, ?_, ?_⟩
  · show ((lib.catalog.keep type _).kept.map (·.1)).Nodup
    rw [Catalog.keep]
    split
    · rename_i enabled
      exact List.nodup_cons.mpr ⟨not_mem_kept_of_find? unknown enabled, h.nodup⟩
    · exact h.nodup
  · intro type' held
    rw [kept_after, h.kept]
    constructor
    · rintro (⟨l', member, rest⟩ | ⟨enabled, rfl, rfl⟩)
      · exact ⟨l', List.mem_append_left _ member, rest⟩
      · exact ⟨l, by simp, before ▸ enabled, of_type, ok⟩
    · rintro ⟨l', member, enabled, rfl, ok'⟩
      rcases later l' member with earlier | rfl
      · exact .inl ⟨l', earlier, enabled, rfl, ok'⟩
      · rw [ok] at ok'
        cases ok'
        exact .inr ⟨before ▸ enabled, of_type, rfl⟩
  · intro l' member held ok'
    rcases later l' member with earlier | rfl
    · exact Nat.lt_succ_of_lt (h.numbered l' earlier held ok')
    · rw [ok] at ok'
      cases ok'
      exact Nat.lt_succ_self _
  · refine List.pairwise_append.mpr ⟨h.apart, List.pairwise_singleton _ _, ?_⟩
    rintro a earlier b last - held held' first second
    obtain rfl := List.mem_singleton.mp last
    rw [ok] at second
    cases second
    exact Nat.ne_of_lt (h.numbered a earlier held first)

theorem lookUp (h : lib.Recorded limit past) (type : TypeId) :
    (lib.afterLookup type).Recorded limit (past ++ [lib.lookup type]) := by
  rcases lib.lookUp_cases type with ⟨held, found, outcome⟩ | ⟨unknown, grown, interns, outcome⟩
  · obtain ⟨enabled, kept⟩ := mem_kept_of_find? found
    have same : lib.afterLookup type = lib := congrArg Prod.snd outcome
    rw [same]
    refine h.known fun held' ok => ?_
    rw [lookup, outcome] at ok
    cases ok
    exact ⟨enabled, kept⟩
  · rcases outcome with ⟨fault, -, outcome⟩ | ⟨table, done, outcome⟩
    · have after : lib.afterLookup type = lib.withRegistry grown := congrArg Prod.snd outcome
      rw [after]
      refine (h.withRegistry interns.growsTo).known fun held ok => ?_
      rw [lookup, outcome] at ok
      cases ok
    · rw [afterLookup, outcome]
      exact h.built unknown done rfl rfl (by rw [lookup, outcome])

theorem run {later : List Lookup} {last : Library} (h : lib.Recorded limit past)
    (along : lib.Run later last) : last.Recorded limit (past ++ later) := by
  induction along generalizing past with
  | stop => rwa [List.append_nil]
  | lookUp type _ ih =>
    rw [List.append_cons]
    exact ih (h.lookUp type)
  | switch enabled _ ih => exact ih (h.switched enabled)
  | operation op _ ih => exact ih (h.withRegistry (op.growsTo _))

end Recorded

/-! ## What runs keep -/

theorem Run.made {later : List Lookup} {last : Library} (along : lib.Run later last) :
    ∀ l ∈ later, ∃ (made : Library) (type : TypeId), l = made.lookup type := by
  induction along with
  | stop => simp
  | lookUp type _ ih => exact List.forall_mem_cons.mpr ⟨⟨_, type, rfl⟩, ih⟩
  | switch _ _ ih => exact ih
  | operation _ _ ih => exact ih

/-- A lookup that fails leaves the catalog alone, and so does one while it is off. -/
theorem lookup_untouched (lib : Library) (type : TypeId)
    (h : lib.catalog.enabled = false ∨ (lib.lookup type).outcome.isOk = false) :
    (lib.afterLookup type).catalog = lib.catalog := by
  rcases lib.lookUp_cases type with ⟨held, -, outcome⟩ | ⟨-, grown, -, outcome⟩
  · rw [afterLookup, outcome]
  · rcases outcome with ⟨fault, -, outcome⟩ | ⟨table, -, outcome⟩
    · rw [afterLookup, outcome]
      rfl
    · rw [lookup, outcome] at h
      have off : lib.catalog.enabled = false := h.resolve_right (by simp [Except.isOk, Except.toBool])
      rw [afterLookup, outcome, Catalog.keep, off]
      rfl

theorem Run.mem_kept {later : List Lookup} {last : Library} (along : lib.Run later last)
    {entry : TypeId × Held} (kept : entry ∈ lib.catalog.kept) : entry ∈ last.catalog.kept := by
  induction along with
  | stop => exact kept
  | @lookUp lib last later type _ ih =>
    refine ih ?_
    rcases lib.lookUp_cases type with ⟨held, -, outcome⟩ | ⟨-, grown, -, outcome⟩
    · rwa [afterLookup, outcome]
    · rcases outcome with ⟨fault, -, outcome⟩ | ⟨table, -, outcome⟩
      · rwa [afterLookup, outcome]
      · rw [afterLookup, outcome, Catalog.keep]
        split
        · exact List.mem_cons_of_mem _ kept
        · exact kept
  | switch _ _ ih => exact ih kept
  | operation _ _ ih => exact ih kept

theorem Recorded.lookup_kept (h : lib.Recorded limit past) {held : Held} :
    lib.catalog.kept.lookup type = some held ↔ (type, held) ∈ lib.catalog.kept := by
  constructor
  · intro found
    obtain ⟨before, later, split, -⟩ := List.lookup_eq_some_iff.mp found
    simp [split]
  · intro member
    obtain ⟨before, later, split⟩ := List.append_of_mem member
    refine List.lookup_eq_some_iff.mpr ⟨before, later, split, fun entry first => ?_⟩
    have nodup := h.nodup
    rw [split, List.map_append, List.map_cons] at nodup
    have differs := (List.nodup_append.mp nodup).2.2 _ (List.mem_map_of_mem first) type (by simp)
    simpa using differs.symm

theorem Recorded.lookup_table (h : lib.Recorded limit past) (type : TypeId) :
    (lib.lookup type).outcome.map Held.table = ((Table.build type limit).eval lib.registry).1 := by
  rw [← h.limit]
  exact congrArg Prod.fst (findTable_follows h.sound type).1

theorem Recorded.size_eq (h : lib.Recorded limit past) :
    lib.catalog.size = ((past.filter Lookup.isKept).map (·.type)).dedup.length := by
  rw [Catalog.size, ← List.length_map Prod.fst]
  refine ((List.perm_ext_iff_of_nodup h.nodup (List.nodup_dedup _)).mpr fun type => ?_).length_eq
  simp only [List.mem_dedup, List.mem_map, List.mem_filter]
  constructor
  · rintro ⟨⟨_, held⟩, kept, rfl⟩
    obtain ⟨l, member, enabled, rfl, ok⟩ := (h.kept _ _).mp kept
    exact ⟨l, ⟨member, by rw [Lookup.isKept, enabled, ok]; rfl⟩, rfl⟩
  · rintro ⟨l, ⟨member, kept⟩, rfl⟩
    obtain ⟨enabled, ok⟩ := Bool.and_eq_true_iff.mp kept
    obtain ⟨held, outcome⟩ := isOk_iff.mp ok
    exact ⟨(l.type, held), (h.kept _ _).mpr ⟨l, member, enabled, rfl, outcome⟩, rfl⟩

/-! ## Preloads -/

/-- A library that looks some types up in order, each with success. -/
inductive LooksUp : Library → List TypeId → Library → Prop
  | nil (lib : Library) : LooksUp lib [] lib
  | cons {lib last : Library} {type : TypeId} {rest : List TypeId} {held : Held}
      (found : (lib.lookup type).outcome = .ok held)
      (others : LooksUp (lib.afterLookup type) rest last) : LooksUp lib (type :: rest) last

theorem findTable_eval (lib : Library) (type : TypeId) :
    (findTable type).eval lib = ((lib.lookup type).outcome, lib.afterLookup type) := rfl

/-- A preload looks its types up in order, up to the first one that fails. -/
theorem preload_cases (lib : Library) (types : List TypeId) :
    (∃ last, lib.LooksUp types last ∧ (preload types).eval lib = (.ok (), last)) ∨
    ∃ before type after last fault, types = before ++ type :: after ∧ lib.LooksUp before last ∧
      (last.lookup type).outcome = .error fault ∧
      (preload types).eval lib = (.error fault, last.afterLookup type) := by
  induction types generalizing lib with
  | nil => exact .inl ⟨lib, .nil lib, rfl⟩
  | cons type rest ih =>
    cases found : (lib.lookup type).outcome with
    | error fault =>
      have step : (preload (type :: rest)).eval lib = (.error fault, lib.afterLookup type) := by
        rw [preload, Browsing.eval_bind, findTable_eval, found]
      exact .inr ⟨[], type, rest, lib, fault, rfl, .nil lib, found, step⟩
    | ok held =>
      have step : (preload (type :: rest)).eval lib =
          (preload rest).eval (lib.afterLookup type) := by
        rw [preload, Browsing.eval_bind, findTable_eval, found]
      rw [step]
      rcases ih (lib.afterLookup type) with ⟨last, along, outcome⟩ |
        ⟨before, type', after, last, fault, rfl, along, failed, outcome⟩
      · exact .inl ⟨last, .cons found along, outcome⟩
      · exact .inr ⟨type :: before, type', after, last, fault, rfl, .cons found along, failed,
          outcome⟩

/-- A lookup that succeeds while the catalog is on leaves its table in the catalog. -/
theorem lookup_kept {held : Held} (enabled : lib.catalog.enabled = true)
    (found : (lib.lookup type).outcome = .ok held) :
    (lib.afterLookup type).catalog.enabled = true ∧
      (type, held) ∈ (lib.afterLookup type).catalog.kept := by
  rcases lib.lookUp_cases type with ⟨held', kept, outcome⟩ | ⟨-, grown, -, outcome⟩
  · rw [lookup, outcome] at found
    cases found
    rw [afterLookup, outcome]
    exact ⟨enabled, (mem_kept_of_find? kept).2⟩
  · rcases outcome with ⟨fault, -, outcome⟩ | ⟨table, -, outcome⟩
    · rw [lookup, outcome] at found
      cases found
    · rw [lookup, outcome] at found
      cases found
      rw [afterLookup, outcome, Catalog.keep, if_pos enabled]
      exact ⟨enabled, List.mem_cons_self⟩

theorem LooksUp.run {types : List TypeId} {last : Library} (h : lib.LooksUp types last) :
    ∃ later, lib.Run later last := by
  induction h with
  | nil => exact ⟨[], .stop _⟩
  | cons _ _ ih =>
    obtain ⟨later, along⟩ := ih
    exact ⟨_, .lookUp _ along⟩

theorem LooksUp.kept {types : List TypeId} {last : Library} (h : lib.LooksUp types last)
    (enabled : lib.catalog.enabled = true) :
    ∀ type ∈ types, ∃ held, (type, held) ∈ last.catalog.kept := by
  induction h with
  | nil => simp
  | cons found others ih =>
    obtain ⟨still, kept⟩ := lookup_kept enabled found
    obtain ⟨later, along⟩ := others.run
    exact List.forall_mem_cons.mpr ⟨⟨_, along.mem_kept kept⟩, ih still⟩

/-! ## The laws -/

/-- What holds of the library that some calls lead to, and of the lookups on the way. -/
structure Lawful (start : Library) (calls : List Call) (lib : Library) (history : List Lookup) :
    Prop where
  /-- The catalog is on or off as the last switch says, or as it was if there was none. -/
  mode : lib.catalog.enabled = modeAfter start.catalog.enabled calls
  /-- Each lookup is made in the mode that the calls before it leave. -/
  modes : ∀ before call later, calls = before ++ call :: later →
    ∀ l ∈ (start.afterAll before).lookups call, l ∈ history ∧
      l.before.enabled = modeAfter start.catalog.enabled before
  /-- What is kept stays. -/
  lasting : ∀ calls type held, lib.catalog.kept.lookup type = some held →
    (lib.afterAll calls).catalog.kept.lookup type = some held
  /-- While the catalog is on, a type has one table, the number included. -/
  identical : ∀ a ∈ history, ∀ b ∈ history, a.type = b.type →
    a.before.enabled = true → b.before.enabled = true →
    ∀ held held', a.outcome = .ok held → b.outcome = .ok held' → held = held'
  /-- While the catalog is off, every lookup gives a table under a new number. -/
  apart : history.Pairwise fun a b => b.before.enabled = false →
    ∀ held held', a.outcome = .ok held → b.outcome = .ok held' → held.serial ≠ held'.serial
  /-- Lookups while the catalog is off, and lookups that fail, leave it alone. -/
  untouched : ∀ l ∈ history, l.before.enabled = false ∨ l.outcome.isOk = false → l.after = l.before
  /-- What a lookup gives is up to the registry of the time, not to earlier lookups. -/
  current : ∀ type, (lib.lookup type).outcome.map Held.table =
    ((Table.build type start.catalog.limit).eval lib.registry).1
  /-- What is kept for a type is its table. -/
  reflects : ∀ type held, lib.catalog.kept.lookup type = some held → held.table.type = type ∧
    (Table.build type start.catalog.limit).eval lib.registry = (.ok held.table, lib.registry)
  counted : lib.catalog.size = ((history.filter Lookup.isKept).map (·.type)).dedup.length
  /-- A preload is so many lookups in order, the first one that fails being the last. -/
  preloads : ∀ types, ∃ done last, lib.LooksUp done last ∧
    (lib.catalog.enabled = true → ∀ type ∈ done,
      ∃ held, (lib.after (.preload types)).catalog.kept.lookup type = some held) ∧
    (types = done ∧ (preload types).eval lib = (.ok (), last) ∨
      ∃ type after fault, types = done ++ type :: after ∧
        (last.lookup type).outcome = .error fault ∧
        (preload types).eval lib = (.error fault, last.afterLookup type))

namespace Recorded

theorem identical (h : lib.Recorded limit past) {a b : Lookup} (ha : a ∈ past) (hb : b ∈ past)
    (same : a.type = b.type) (ea : a.before.enabled = true) (eb : b.before.enabled = true)
    {held held' : Held} (oka : a.outcome = .ok held) (okb : b.outcome = .ok held') :
    held = held' := by
  have first := h.lookup_kept.mpr ((h.kept _ _).mpr ⟨a, ha, ea, same, oka⟩)
  have second := h.lookup_kept.mpr ((h.kept _ _).mpr ⟨b, hb, eb, rfl, okb⟩)
  exact Option.some.inj (first.symm.trans second)

theorem preloads (h : lib.Recorded limit past) (types : List TypeId) :
    ∃ done last, lib.LooksUp done last ∧
      (lib.catalog.enabled = true → ∀ type ∈ done,
        ∃ held, (lib.after (.preload types)).catalog.kept.lookup type = some held) ∧
      (types = done ∧ (preload types).eval lib = (.ok (), last) ∨
        ∃ type after fault, types = done ++ type :: after ∧
          (last.lookup type).outcome = .error fault ∧
          (preload types).eval lib = (.error fault, last.afterLookup type)) := by
  have afterwards := h.run (lib.run_lookups (.preload types))
  rcases lib.preload_cases types with ⟨last, along, outcome⟩ |
    ⟨done, type, after, last, fault, rfl, along, failed, outcome⟩
  · refine ⟨types, last, along, fun enabled type member => ?_, .inl ⟨rfl, outcome⟩⟩
    obtain ⟨held, kept⟩ := along.kept enabled type member
    refine ⟨held, afterwards.lookup_kept.mpr ?_⟩
    rwa [Library.after, outcome]
  · refine ⟨done, last, along, fun enabled type' member => ?_,
      .inr ⟨type, after, fault, rfl, failed, outcome⟩⟩
    obtain ⟨held, kept⟩ := along.kept enabled type' member
    refine ⟨held, afterwards.lookup_kept.mpr ?_⟩
    rw [Library.after, outcome]
    exact Run.mem_kept (.lookUp type (.stop _)) kept

end Recorded

theorem Run.untouched {later : List Lookup} {last : Library} (along : lib.Run later last) :
    ∀ l ∈ later, l.before.enabled = false ∨ l.outcome.isOk = false → l.after = l.before := by
  intro l member
  obtain ⟨made, type, rfl⟩ := along.made l member
  exact made.lookup_untouched type

theorem history_append (lib : Library) (calls more : List Call) :
    lib.history (calls ++ more) = lib.history calls ++ (lib.afterAll calls).history more := by
  induction calls generalizing lib with
  | nil => rfl
  | cons call rest ih =>
    rw [List.cons_append, history, history, ih, List.append_assoc]
    rfl

theorem modes {start : Library} {calls before later : List Call} {call : Call}
    (split : calls = before ++ call :: later) :
    ∀ l ∈ (start.afterAll before).lookups call, l ∈ start.history calls ∧
      l.before.enabled = modeAfter start.catalog.enabled before := by
  intro l member
  refine ⟨?_, ?_⟩
  · rw [split, history_append, history]
    exact List.mem_append_right _ (List.mem_append_left _ member)
  · rw [lookups_enabled _ call l member, enabled_afterAll]

theorem Recorded.lawful {start : Library} {calls : List Call}
    (h : (start.afterAll calls).Recorded start.catalog.limit (start.history calls)) :
    start.Lawful calls (start.afterAll calls) (start.history calls) where
  mode := start.enabled_afterAll calls
  modes _ _ _ := modes
  lasting more type held kept :=
    (h.run (run_history _ more)).lookup_kept.mpr
      ((run_history _ more).mem_kept (h.lookup_kept.mp kept))
  identical a ha b hb same ea eb held held' oka okb := h.identical ha hb same ea eb oka okb
  apart := h.apart
  untouched := (start.run_history calls).untouched
  current := h.lookup_table
  reflects type held kept := by
    have built := h.sound _ (h.lookup_kept.mp kept)
    rw [h.limit] at built
    obtain ⟨_, _, _, _, _, _, -, -, -, -, -, -, table⟩ := Table.build_settled built
    exact ⟨congrArg Table.type table, built⟩
  counted := h.size_eq
  preloads := h.preloads

/-- A type that is used before it is declared, and again afterwards. -/
def retried : List Call :=
  [.request (.lookUp ⟨11⟩),
    .operation (.publish (Registry.initial.reserve "" "Buyer" .classType).1),
    .request (.lookUp ⟨11⟩)]

/-- Whatever a catalog of a workspace is asked, however it is switched and whatever happens to the
registry, its library is lawful, and the other catalogs are left alone. Of two lookups of one type
the first may fail and the second succeed. -/
theorem history_lawful :
    (∀ (w : Workspace) limit enabled calls,
      let added := w.addCatalog { enabled := enabled, limit := limit }
      let start := added.2.library added.1
      start.Lawful calls ((added.2.afterAll added.1 calls).library added.1) (start.history calls) ∧
        ∀ other, other ≠ added.1 →
          (added.2.afterAll added.1 calls).catalog other = added.2.catalog other) ∧
    ∃ r limit enabled calls first second,
      (fresh r limit enabled).history calls = [first, second] ∧ first.type = second.type ∧
      first.outcome.isOk = false ∧ second.outcome.isOk = true := by
  constructor
  · intro w limit enabled calls added start
    refine ⟨?_, fun other differs => Workspace.catalog_afterAll calls differs⟩
    rw [Workspace.library_afterAll calls (w.used_addCatalog _)]
    have library : start = ⟨w.registry, { enabled := enabled, limit := limit }, w.built⟩ :=
      w.library_addCatalog _
    have recorded : start.Recorded start.catalog.limit [] := by
      rw [library]
      exact empty_recorded w.registry limit enabled w.built
    exact (recorded.run (start.run_history calls)).lawful
  · let r := (Registry.initial.reserve "" "Buyer" .classType).2
    have shape : ((fresh r Table.defaultLimit true).history retried).map
        (fun l => (l.type, l.outcome.isOk)) = [(⟨11⟩, false), (⟨11⟩, true)] := by cbv
    obtain ⟨first, _, listed, one, others⟩ := List.map_eq_cons_iff.mp shape
    obtain ⟨second, _, rfl, two, none⟩ := List.map_eq_cons_iff.mp others
    obtain rfl := List.map_eq_nil_iff.mp none
    obtain ⟨first_type, failed⟩ := Prod.mk.inj one
    obtain ⟨second_type, found⟩ := Prod.mk.inj two
    exact ⟨r, Table.defaultLimit, true, retried, first, second, listed,
      first_type.trans second_type.symm, failed, found⟩

/-- Texts are looked up, then again while the catalog is off, and once more after that. -/
def paused : List Call :=
  [.request (.lookUp .string), .switch false, .request (.lookUp .string), .switch true,
    .request (.lookUp .string)]

/-- The table of before the pause is given again after it; in between there is another one. -/
theorem history_lawful_paused :
    let added := Workspace.initial.addCatalog {}
    let start := added.2.library added.1
    let last := (added.2.afterAll added.1 paused).library added.1
    start.Lawful paused last (start.history paused) ∧ last.catalog.enabled = true ∧
      last.catalog.size = 1 ∧
      ∃ first between again held other, start.history paused = [first, between, again] ∧
        first.outcome = .ok held ∧ again.outcome = .ok held ∧
        between.before.enabled = false ∧ between.outcome = .ok other ∧
        held.serial ≠ other.serial ∧ between.after = between.before := by
  intro added start last
  have lawful : start.Lawful paused last (start.history paused) :=
    (history_lawful.1 Workspace.initial Table.defaultLimit true paused).1
  have shape : (start.history paused).map (fun l => (l.type, l.before.enabled, l.outcome.isOk)) =
      [(.string, true, true), (.string, false, true), (.string, true, true)] := by cbv
  obtain ⟨first, _, listed, one, others⟩ := List.map_eq_cons_iff.mp shape
  obtain ⟨between, _, rfl, two, others⟩ := List.map_eq_cons_iff.mp others
  obtain ⟨again, _, rfl, three, none⟩ := List.map_eq_cons_iff.mp others
  obtain rfl := List.map_eq_nil_iff.mp none
  simp only [Prod.mk.injEq, isOk_iff] at one two three
  obtain ⟨first_type, first_on, held, gave⟩ := one
  obtain ⟨-, off, other, built⟩ := two
  obtain ⟨again_type, again_on, held', gave'⟩ := three
  obtain rfl : held = held' :=
    lawful.identical first (by simp [listed]) again (by simp [listed])
      (first_type.trans again_type.symm) first_on again_on held held' gave gave'
  have apart : held.serial ≠ other.serial := by
    have pairs := lawful.apart
    rw [listed] at pairs
    exact List.rel_of_pairwise_cons pairs List.mem_cons_self off held other gave built
  have size : last.catalog.size = 1 := by
    rw [lawful.counted, listed]
    simp [Lookup.isKept, first_on, off, again_on, gave, gave', first_type, again_type,
      Except.isOk, Except.toBool]
  exact ⟨lawful, lawful.mode, size, first, between, again, held, other, listed, gave, gave', off,
    built, apart, lawful.untouched between (by simp [listed]) (.inl off)⟩

end Library

end PropertyTables
