import PropertyTables.Proofs.Catalog.Transparency

/-! # The lookups of a computation

* `Plan`: a computation over a library as a tree of the lookups that it makes, each of which may
  depend on what those before it gave.
* `Plan.run`, `Plan.lookups`: what a plan computes, and which lookups it makes on the way.
* `Request.run_plan`, `Table.run_propertyPlan`, `run_preloadPlan`: path queries, the tables of
  properties and preloads compute what their plans do.
-/

namespace PropertyTables
set_option autoImplicit false

variable {α β : Type}

/-! ## Plans -/

/-- A computation that ends, or looks a table up and goes on with what that gives. -/
inductive Plan (α : Type)
  | done (outcome : Except Fault α)
  | lookUp (type : TypeId) (next : Held → Plan α)

namespace Plan

def bind : Plan α → (α → Plan β) → Plan β
  | done (.ok a), f => f a
  | done (.error fault), _ => done (.error fault)
  | lookUp type next, f => lookUp type fun held => (next held).bind f

instance : Monad Plan where
  pure a := done (.ok a)
  bind := bind

/-- The computation that a plan describes. -/
def run : Plan α → Browsing α
  | done outcome => Browsing.lift outcome
  | lookUp type next => do (next (← findTable type)).run

theorem run_pure (a : α) : (pure a : Plan α).run = pure a := rfl

theorem run_bind (p : Plan α) (f : α → Plan β) :
    (p >>= f).run = p.run >>= fun a => (f a).run := by
  show (p.bind f).run = _
  induction p with
  | done outcome => cases outcome <;> rfl
  | lookUp type next ih =>
    simp only [Plan.bind, run, bind_assoc]
    exact congrArg _ (funext ih)

/-- A single lookup. -/
def find (type : TypeId) : Plan Held := lookUp type pure

theorem run_find (type : TypeId) : (find type).run = findTable type := bind_pure _

end Plan

/-! ## The plans of the computations over a library -/

namespace Table

def segmentPlan (t : Table) (s : Segment) : Plan Table := do
  let type ← Plan.done (t.segmentType s)
  let held ← Plan.find type
  return held.table

def propertyPlan (t : Table) (property : String) : Plan Held := do
  let entry ← Plan.done (t.entry .read property)
  Plan.find entry.type

def readTypePlan (t : Table) (s : Segment) : List Segment → Plan TypeId
  | [] => .done (t.segmentType s)
  | next :: rest => do (← t.segmentPlan s).readTypePlan next rest

def writeTypePlan (t : Table) (s : Segment) : List Segment → Plan TypeId
  | [] => .done ((t.entry .write s.name).map (·.type))
  | next :: rest => do (← t.propertyPlan s.name).table.writeTypePlan next rest

def canReadPlan (t : Table) (s : Segment) : List Segment → Plan Bool
  | [] => return t.has .read s.name
  | next :: rest => do
    if t.has .read s.name then (← t.segmentPlan s).canReadPlan next rest else return false

def canWritePlan (t : Table) (s : Segment) : List Segment → Plan Bool
  | [] => return t.has .write s.name
  | next :: rest => do
    if t.has .write s.name then (← t.propertyPlan s.name).table.canWritePlan next rest
    else return false

def spellPlan (t : Table) (s : Segment) : List Segment → Plan String
  | [] => return (t.findName? s.text).getD ""
  | next :: rest => do
    match t.findName? s.name with
    | none => return ""
    | some property =>
      return property ++ "." ++ (← (← t.propertyPlan property).table.spellPlan next rest)

variable (t : Table) (s : Segment) (rest : List Segment)

theorem run_segmentPlan : (t.segmentPlan s).run = t.segmentTable s := by
  simp only [segmentPlan, Plan.run_bind, Plan.run_find]
  rfl

theorem run_propertyPlan (property : String) :
    (t.propertyPlan property).run = t.propertyTable property := by
  simp only [propertyPlan, Plan.run_bind, Plan.run_find]
  rfl

theorem run_readTypePlan : (t.readTypePlan s rest).run = t.readTypeFrom s rest := by
  induction rest generalizing t s with
  | nil => rfl
  | cons next rest ih =>
    simp only [readTypePlan, readTypeFrom, Plan.run_bind, run_segmentPlan, ih]

theorem run_writeTypePlan : (t.writeTypePlan s rest).run = t.writeTypeFrom s rest := by
  induction rest generalizing t s with
  | nil => rfl
  | cons next rest ih =>
    simp only [writeTypePlan, writeTypeFrom, Plan.run_bind, run_propertyPlan, ih]

theorem run_canReadPlan : (t.canReadPlan s rest).run = t.canReadFrom s rest := by
  induction rest generalizing t s with
  | nil => rfl
  | cons next rest ih =>
    rw [canReadPlan, canReadFrom]
    split
    · simp only [Plan.run_bind, run_segmentPlan, ih]
    · rfl

theorem run_canWritePlan : (t.canWritePlan s rest).run = t.canWriteFrom s rest := by
  induction rest generalizing t s with
  | nil => rfl
  | cons next rest ih =>
    rw [canWritePlan, canWriteFrom]
    split
    · simp only [Plan.run_bind, run_propertyPlan, ih]
    · rfl

theorem run_spellPlan : (t.spellPlan s rest).run = t.spellFrom s rest := by
  induction rest generalizing t s with
  | nil => rfl
  | cons next rest ih =>
    rw [spellPlan, spellFrom]
    cases t.findName? s.name with
    | none => rfl
    | some property => simp only [Plan.run_bind, Plan.run_pure, run_propertyPlan, ih]

end Table

def preloadPlan : List TypeId → Plan Unit
  | [] => return
  | type :: rest => do
    let _ ← Plan.find type
    preloadPlan rest

theorem run_preloadPlan (types : List TypeId) : (preloadPlan types).run = preload types := by
  induction types with
  | nil => rfl
  | cons type rest ih =>
    rw [preloadPlan, preload, Plan.run_bind, Plan.run_find, ih]

/-- The lookups behind the answer to a request. -/
def Request.plan : Request → Plan Answer
  | lookUp type => do return .table (← Plan.find type).table
  | follow t path query =>
    let p := Path.ofText path
    match query with
    | .canRead => do return .truth (← t.canReadPlan p.first p.rest)
    | .canWrite => do return .truth (← t.canWritePlan p.first p.rest)
    | .readType => do return .type (← t.readTypePlan p.first p.rest)
    | .writeType => do return .type (← t.writeTypePlan p.first p.rest)
    | .spell joinWords =>
      let p := Path.ofText (if joinWords then Path.withoutUnderscores path else path)
      do
        let spelling ← t.spellPlan p.first p.rest
        return .spelling (if spelling = "" then none else some spelling)

theorem Request.run_plan (q : Request) : q.plan.run = q.answer := by
  cases q with
  | lookUp type =>
    simp only [plan, answer, Plan.run_bind, Plan.run_find, Plan.run_pure]
  | follow t path query =>
    cases query <;>
      simp only [plan, answer, Table.canRead, Table.canWrite, Table.readType, Table.writeType,
        Table.spell, Plan.run_bind, Plan.run_pure, Table.run_canReadPlan, Table.run_canWritePlan,
        Table.run_readTypePlan, Table.run_writeTypePlan, Table.run_spellPlan, bind_assoc, pure_bind]

end PropertyTables
