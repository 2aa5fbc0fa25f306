import PropertyTables.Proofs.Catalog.Safety
import PropertyTables.Proofs.Table.ArrayTables

/-! # Libraries that part from one registry

Two libraries may start from one registry and have looked up other types, in another order, keeping
the tables or not. They differ in what they keep and in the array types that they interned, each for
itself. Where the declarations mention only identities that were handed out, they answer alike.

* `Library.Within`: libraries that have only interned array types since a registry.
* `findTable_answers`, `Table.propertyTable_answers`: looking up twins in two of them gives the same
  fault, or tables of twins.
* `Table.canWrite_eq`: from such tables the same paths can be written.
* `Library.Gave`: libraries, with whatever history, that gave a table for a type. What declares
  nothing leaves them so, `Gave.afterAll`, and what they gave are tables of twins, `Gave.twins`.
-/

namespace PropertyTables
set_option autoImplicit false

open Registry (Forks Twin)

variable {α β : Type} {b : Registry} {limit : Nat} {lib lib' : Library} {t t' : Table}

/-- A library that has only interned array types since `b`, and that keeps what building under
`limit` would give. -/
structure Library.Within (b : Registry) (limit : Nat) (lib : Library) : Prop where
  interned : b.Interns lib.registry
  sound : lib.Sound
  limit : lib.catalog.limit = limit

theorem Transparent.keeps {view : α → β} {x : Browsing α} (h : Transparent limit view x)
    (within : lib.Within b limit) :
    lib.registry.Interns (x.eval lib).2.registry ∧ (x.eval lib).2.Within b limit := by
  obtain ⟨y, lasting, follows⟩ := h
  obtain ⟨same, sound, limit⟩ := follows lib within.sound within.limit
  have grows := lasting.interns_of_eval same.symm
  exact ⟨grows, within.interned.trans grows, sound, limit⟩

/-! ## Lookups -/

section Twins
variable (reachable : b.Reachable) (grounded : b.Grounded)
include reachable grounded

/-- Lookups of twins give the same fault or tables of twins. -/
theorem findTable_answers (left : lib.Within b limit) (right : lib'.Within b limit)
    {i i' : TypeId} (twin : Twin b.size lib.registry lib'.registry i i') :
    Answers (fun held held' => PropertiesTwin b.size ((findTable i).eval lib).2.registry
        ((findTable i').eval lib').2.registry held.table held'.table)
      ((findTable i).eval lib).1 ((findTable i').eval lib').1 := by
  have fork := reachable.forks grounded left.interned right.interned
  have built := (build_twins fork reachable twin limit).answers
  have follows := (findTable_follows left.sound i).1
  have follows' := (findTable_follows right.sound i').1
  rw [left.limit] at follows
  rw [right.limit] at follows'
  rw [← follows, ← follows'] at built
  exact built.of_map

theorem Table.propertyTable_answers (left : lib.Within b limit) (right : lib'.Within b limit)
    (twins : PropertiesTwin b.size lib.registry lib'.registry t t') (property : String) :
    Answers (fun held held' => PropertiesTwin b.size
        ((t.propertyTable property).eval lib).2.registry
        ((t'.propertyTable property).eval lib').2.registry held.table held'.table)
      ((t.propertyTable property).eval lib).1 ((t'.propertyTable property).eval lib').1 := by
  have both := Index.Related.find? twins.readers property
  have lifted (u : Table) (of : Library) : (u.propertyTable property).eval of =
      (u.readers.find? property).elim (.error (.propertyNotFound .read property u.name), of)
        fun e => (findTable e.type).eval of := by
    rw [propertyTable, Browsing.eval_bind, Browsing.eval_lift, entry, entries]
    cases u.readers.find? property <;> rfl
  rw [lifted, lifted]
  revert both
  generalize t.readers.find? property = found
  generalize t'.readers.find? property = found'
  intro both
  cases both with
  | none =>
    rw [twins.name]
    exact .fault _
  | some twin => exact findTable_answers reachable grounded left right twin.type

/-! ## Paths -/

theorem Table.canWriteFrom_eq (left : lib.Within b limit) (right : lib'.Within b limit)
    (twins : PropertiesTwin b.size lib.registry lib'.registry t t') (s : Segment)
    (rest : List Segment) :
    ((t.canWriteFrom s rest).eval lib).1 = ((t'.canWriteFrom s rest).eval lib').1 := by
  have same (name : String) : t.has .write name = t'.has .write name :=
    Index.Related.contains twins.writers name
  induction rest generalizing t t' s lib lib' with
  | nil =>
    rw [canWriteFrom, canWriteFrom, same]
    rfl
  | cons next rest ih =>
    rw [canWriteFrom, canWriteFrom, same]
    split
    · have answers := propertyTable_answers reachable grounded left right twins s.name
      have keeps := (t.propertyTable_transparent limit s.name).keeps left
      have keeps' := (t'.propertyTable_transparent limit s.name).keeps right
      rw [Browsing.eval_bind, Browsing.eval_bind]
      revert answers keeps keeps'
      rcases (t.propertyTable s.name).eval lib with ⟨outcome, after⟩
      rcases (t'.propertyTable s.name).eval lib' with ⟨outcome', after'⟩
      intro answers keeps keeps'
      cases answers with
      | fault fault => rfl
      | value twins =>
        exact ih keeps.2 keeps'.2 twins next fun name => Index.Related.contains twins.writers name
    · rfl

/-- From tables of twins the same paths can be written. -/
theorem Table.canWrite_eq (left : lib.Within b limit) (right : lib'.Within b limit)
    (twins : PropertiesTwin b.size lib.registry lib'.registry t t') (path : String) :
    ((t.canWrite path).eval lib).1 = ((t'.canWrite path).eval lib').1 :=
  canWriteFrom_eq reachable grounded left right twins _ _

end Twins

/-! ## Calls that declare nothing -/

/-- Whether a call hands an identity out or declares its type. -/
def Library.Call.Declares : Library.Call → Prop
  | operation op => op.Declares
  | _ => False

theorem Plan.interns (p : Plan α) (lib : Library) :
    lib.registry.Interns (p.run.eval lib).2.registry := by
  induction p generalizing lib with
  | done outcome => exact .refl _
  | lookUp type next ih =>
    have first := lib.afterLookup_interns type
    rw [Library.afterLookup] at first
    rw [run, Browsing.eval_bind]
    revert first
    rcases (findTable type).eval lib with ⟨fault | held, later⟩ <;> intro first
    · exact first
    · exact first.trans (ih held later)

theorem Library.after_interns {call : Library.Call} (lib : Library) (nothing : ¬ call.Declares) :
    lib.registry.Interns (lib.after call).registry := by
  cases call with
  | request q =>
    rw [after, ← q.run_plan]
    exact q.plan.interns lib
  | property t name =>
    rw [after, ← t.run_propertyPlan name]
    exact (t.propertyPlan name).interns lib
  | preload types =>
    rw [after, ← run_preloadPlan]
    exact (preloadPlan types).interns lib
  | switch enabled => exact .refl _
  | operation op => exact op.interns nothing lib.registry

theorem Library.afterAll_interns {calls : List Library.Call} (lib : Library)
    (nothing : ∀ call ∈ calls, ¬ call.Declares) :
    lib.registry.Interns (lib.afterAll calls).registry := by
  induction calls generalizing lib with
  | nil => exact .refl _
  | cons call rest ih =>
    obtain ⟨here, later⟩ := List.forall_mem_cons.mp nothing
    exact (lib.after_interns here).trans (ih (lib.after call) later)

/-! ## Tables that were given -/

namespace Library
variable {type type' : TypeId}

theorem Run.growsTo {later : List Lookup} {last : Library} (along : lib.Run later last) :
    lib.registry.GrowsTo last.registry := by
  induction along with
  | stop => exact .refl _
  | lookUp type _ ih => exact (Library.afterLookup_interns _ type).growsTo.trans ih
  | switch _ _ ih => exact ih
  | operation op _ ih => exact (op.growsTo _).trans ih

/-- A table that a lookup of a run gave is what building gives after the run. -/
theorem Run.settled {later : List Lookup} {last : Library} (along : lib.Run later last)
    (sound : lib.Sound) : ∀ l ∈ later, ∀ held, l.outcome = .ok held →
      (Table.build l.type lib.catalog.limit).eval last.registry =
        (.ok held.table, last.registry) := by
  induction along with
  | stop => simp
  | @lookUp lib last later type rest ih =>
    obtain ⟨built, still, limit⟩ := findTable_follows sound type
    refine List.forall_mem_cons.mpr ⟨fun held given => ?_, limit ▸ ih still⟩
    have given : ((findTable type).eval lib).1 = .ok held := given
    rw [given] at built
    exact (build_lasting type _).lasts _ _ _ _ built.symm rest.growsTo
  | switch enabled _ ih => exact ih sound
  | operation op _ ih => exact ih (sound.withRegistry (op.growsTo _))

theorem lookups_lookUp (lib : Library) (type : TypeId) :
    lib.lookups (.request (.lookUp type)) = [lib.lookup type] := by
  have plan : (Request.lookUp type).plan =
      .lookUp type fun held => .done (.ok (.table held.table)) := rfl
  rw [lookups, plan, Plan.lookups]
  cases (lib.lookup type).outcome <;> rfl

/-- A library with a history in which a lookup of a type gave a table, that has only interned array
types since its registry was `b`. -/
structure Gave (b : Registry) (limit : Nat) (type : TypeId) (t : Table) (lib : Library) :
    Prop where
  made : ∃ r enabled calls, lib = (fresh r limit enabled).afterAll calls ∧
    ∃ l ∈ (fresh r limit enabled).history calls, l.type = type ∧
      l.outcome.map Held.table = .ok t
  interned : b.Interns lib.registry

namespace Gave

theorem of_lookUp {r : Registry} {enabled : Bool} {calls : List Call}
    (given : (((fresh r limit enabled).afterAll calls).lookup type).outcome.map Held.table = .ok t)
    (interned : b.Interns
      ((fresh r limit enabled).afterAll (calls ++ [.request (.lookUp type)])).registry) :
    ((fresh r limit enabled).afterAll (calls ++ [.request (.lookUp type)])).Gave b limit type t := by
  refine ⟨⟨r, enabled, _, rfl, _, ?_, rfl, given⟩, interned⟩
  rw [history_append, history, lookups_lookUp]
  exact List.mem_append_right _ List.mem_cons_self

theorem within (h : lib.Gave b limit type t) : lib.Within b limit := by
  obtain ⟨⟨r, enabled, calls, rfl, -⟩, interned⟩ := h
  have recorded := (fresh_recorded r limit enabled).run (run_history _ calls)
  exact ⟨interned, recorded.sound, recorded.limit⟩

theorem settled (h : lib.Gave b limit type t) :
    (Table.build type limit).eval lib.registry = (.ok t, lib.registry) := by
  obtain ⟨⟨r, enabled, calls, rfl, l, listed, rfl, given⟩, -⟩ := h
  cases outcome : l.outcome with
  | error fault =>
    rw [outcome] at given
    cases given
  | ok held =>
    rw [outcome] at given
    cases given
    exact (run_history _ calls).settled (fresh_sound r limit enabled) l listed held outcome

/-- What declares nothing leaves a library one that gave the table. -/
theorem afterAll (h : lib.Gave b limit type t) {calls : List Call}
    (nothing : ∀ call ∈ calls, ¬ call.Declares) : (lib.afterAll calls).Gave b limit type t := by
  have interns := lib.afterAll_interns nothing
  obtain ⟨⟨r, enabled, past, rfl, l, listed, given⟩, interned⟩ := h
  refine ⟨⟨r, enabled, past ++ calls, ?_, l, ?_, given⟩, interned.trans interns⟩
  · exact (List.foldl_append ..).symm
  · rw [history_append]
    exact List.mem_append_left _ listed

variable (reachable : b.Reachable)
include reachable

/-- The type stands for itself in all later registries. -/
theorem twin_self (h : lib.Gave b limit type t) {later : Registry}
    (grows : lib.registry.Interns later) : Twin b.size lib.registry later type type := by
  have coherent := (reachable.interns h.interned).coherent
  have declared : lib.registry.Published type := by
    obtain ⟨_, _, _, _, _, d, -, -, -, -, -, found, -⟩ := Table.build_settled h.settled
    exact .of_find? (Registry.find_eq_ok.mp found)
  exact (h.interned.twin_self coherent declared).grow (.refl _) grows.growsTo

/-- For types that are twins, what was given are tables of twins. -/
theorem twins (left : lib.Gave b limit type t) (right : lib'.Gave b limit type' t')
    (grounded : b.Grounded) (twin : Twin b.size lib.registry lib'.registry type type') :
    PropertiesTwin b.size lib.registry lib'.registry t t' := by
  have fork := reachable.forks grounded left.interned right.interned
  obtain ⟨_, _, built, twins⟩ := (build_twins fork reachable twin limit).follows left.settled
  cases right.settled.symm.trans built
  exact twins

end Gave

end Library

end PropertyTables
