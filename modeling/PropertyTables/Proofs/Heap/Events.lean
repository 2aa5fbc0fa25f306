import PropertyTables.Proofs.Catalog.Transparency
import PropertyTables.Proofs.Heap.Places

/-! # What happens to a world

* `World.Changes`: a change of a world that leaves all but some places as they are. Types stay
  declared, and objects keep their types and their slots.
* `Running.Touches`: a computation that changes a world in this way, with a rule for each way to
  build one.
* `World.Event`, `World.afterAll`: what happens to a world from outside. `World.after_changes` says
  which places an event may change, and `World.afterAll_changes` which ones a run may.
-/

namespace PropertyTables
set_option autoImplicit false

variable {α β : Type}

/-! ## Changes -/

/-- A change of a world that leaves every place as it is where `writes` does not hold. -/
structure World.Changes (writes : Place → Prop) (w later : World) : Prop where
  grows : w.registry.GrowsTo later.registry
  keeps : w.heap.Keeps later.heap
  others : ∀ p, w.heap.Has p → ¬ writes p → later.heap.at? p = w.heap.at? p

namespace World.Changes
variable {writes : Place → Prop} {w later last : World}

theorem refl (writes : Place → Prop) (w : World) : w.Changes writes w :=
  ⟨.refl _, .refl _, fun _ _ _ => rfl⟩

theorem trans (first : w.Changes writes later) (second : later.Changes writes last) :
    w.Changes writes last where
  grows := first.grows.trans second.grows
  keeps := first.keeps.trans second.keeps
  others p here untouched :=
    (second.others p (first.keeps.has here) untouched).trans (first.others p here untouched)

theorem mono {more : Place → Prop} (h : w.Changes writes later)
    (within : ∀ p, writes p → more p) : w.Changes more later :=
  ⟨h.grows, h.keeps, fun p here untouched => h.others p here (mt (within p) untouched)⟩

end World.Changes

/-! ## Computations -/

namespace Running

/-- The outcome of a computation in a world, and the world afterwards. -/
def eval (x : Running α) (w : World) : Except Fault α × World := x.run.run w

theorem eval_bind (x : Running α) (f : α → Running β) (w : World) :
    (x >>= f).eval w = match x.eval w with
      | (.ok a, later) => (f a).eval later
      | (.error fault, later) => (.error fault, later) := by
  rw [eval, ExceptT.run_bind, StateT.run_bind]
  show _ = match x.run.run w with
    | (.ok a, later) => (f a).run.run later
    | (.error fault, later) => (.error fault, later)
  rcases x.run.run w with ⟨fault | a, later⟩ <;> rfl

theorem eval_peek (query : Heap → Except Fault α) (w : World) :
    (peek query).eval w = (query w.heap, w) := rfl

theorem eval_update (change : Heap → Except Fault Heap) (w : World) :
    (update change).eval w = match change w.heap with
      | .ok heap => (.ok (), { w with heap := heap })
      | .error fault => (.error fault, w) := by
  show (match change w.heap with
    | .ok heap => (.ok (), { w with heap := heap })
    | .error fault => (.error fault, w) : Except Fault Unit × World) = _
  rfl

theorem eval_growing (x : Growing α) (w : World) :
    (growing x).eval w = ((x.eval w.registry).1, { w with registry := (x.eval w.registry).2 }) :=
  rfl

/-- In whatever world, the computation changes places at most where `writes` holds. -/
def Touches (writes : Place → Prop) (x : Running α) : Prop :=
  ∀ w : World, w.Changes writes (x.eval w).2

namespace Touches
variable {writes : Place → Prop}

theorem pure (a : α) : Touches writes (Pure.pure a) := World.Changes.refl writes

theorem throw (fault : Fault) : Touches writes (MonadExcept.throw fault : Running α) :=
  World.Changes.refl writes

theorem get : Touches writes (MonadState.get : Running World) := World.Changes.refl writes

theorem peek (query : Heap → Except Fault α) : Touches writes (Running.peek query) :=
  World.Changes.refl writes

theorem growing {x : Growing α} (grows : ∀ r : Registry, r.GrowsTo (x.eval r).2) :
    Touches writes (Running.growing x) :=
  fun w => ⟨grows w.registry, .refl _, fun _ _ _ => rfl⟩

theorem update {change : Heap → Except Fault Heap}
    (shape : ∀ h after, change h = .ok after → h.SameShape after)
    (others : ∀ h after, change h = .ok after → ∀ p, ¬ writes p → after.at? p = h.at? p) :
    Touches writes (Running.update change) := by
  intro w
  rw [eval_update]
  cases done : change w.heap with
  | error fault => exact .refl writes w
  | ok after =>
    exact ⟨.refl _, (shape _ _ done).keeps, fun p _ untouched => others _ _ done p untouched⟩

theorem bind {x : Running α} {f : α → Running β} (first : Touches writes x)
    (second : ∀ a, Touches writes (f a)) : Touches writes (x >>= f) := by
  intro w
  have start := first w
  rw [eval_bind]
  rcases done : x.eval w with ⟨fault | a, later⟩ <;> rw [done] at start
  · exact start
  · exact start.trans (second a later)

end Touches

end Running

open Running (Touches)

/-! ## Members -/

variable {touched : Place → Prop}

theorem MethodBody.run_touches (target : ObjectId) (own : ∀ key, touched (.slot target key))
    (args : List Value) (body : MethodBody) : Touches touched (body.run target args) := by
  cases body with
  | constant v => exact .pure v
  | readSlot declaring name => exact .peek _
  | writeSlot declaring name =>
    have written : Touches touched
        (Running.update (·.setSlot target (declaring, name) (args.head?.getD .null))) := by
      refine .update (fun h after => Heap.setSlot_sameShape) fun h after done p untouched => ?_
      have other : p ≠ .slot target (declaring, name) := fun same => untouched (same ▸ own _)
      rw [Heap.at?_setSlot done, if_neg other]
    exact written.bind fun _ => .pure _
  | arguments => exact .pure _
  | targetType => exact .peek fun h => .ok (Value.text (h.object target).type.text)
  | raise message => exact .throw _

theorem Method.implementation_grows (m : Method) (receiver : TypeId) (r : Registry) :
    r.GrowsTo ((m.implementation receiver).eval r).2 := by
  rw [implementation]
  split
  · exact .refl r
  · exact (findImplementation_interns receiver m r).growsTo

theorem Method.invoke_touches (m : Method) (target : ObjectId)
    (own : ∀ key, touched (.slot target key)) (args : List Value) :
    Touches touched (m.invoke target args) := by
  rw [invoke]
  split
  on_goal 1 => refine .bind (.throw _) fun _ => ?_
  all_goals
    refine .bind .get fun w => .bind (.growing (m.implementation_grows _)) fun found => ?_
    cases (found.bind (·.body)).or m.body with
    | some body => exact body.run_touches target own args
    | none => exact .throw _

/-- The places that an accessor may change when it runs on a target. -/
def Accessor.writes (target : ObjectId) : Accessor → Place → Prop
  | method _, p => ∃ key, p = .slot target key
  | readField _, _ => False
  | writeField f, p => p = f.place target

theorem Accessor.invoke_touches (a : Accessor) (target : ObjectId) (args : List Value) :
    Touches (a.writes target) (a.invoke target args) := by
  cases a with
  | method m => exact m.invoke_touches target (fun key => ⟨key, rfl⟩) args
  | readField f => exact .peek _
  | writeField f =>
    have written (value : Value) : Touches (writes target (.writeField f))
        (Running.update (·.writeField target f value)) := by
      refine .update (fun h after => Heap.writeField_sameShape) fun h after done p untouched => ?_
      have other : p ≠ f.place target := untouched
      rw [Heap.at?_writeField done, if_neg other]
    rcases args with _ | ⟨value, _ | ⟨_, _⟩⟩
    · exact .throw _
    · exact (written value).bind fun _ => .pure _
    · exact .throw _

theorem Constructor.construct_touches (c : Constructor) (type : TypeId) :
    Touches touched (c.construct type) := by
  refine .bind (.growing fun r => .refl r) fun allocated => .bind (.peek _) fun finished => ?_
  exact fun w => ⟨.refl _, Heap.add_keeps finished, fun _ here _ => Heap.at?_add finished here⟩

/-! ## Runs -/

/-- What happens to a world from outside: a member runs on an object, with or without success, a
slot is written, an object is made or made known, or the registry is used. -/
inductive World.Event
  | invoke (a : Accessor) (target : ObjectId) (args : List Value)
  | setSlot (target : ObjectId) (key : SlotKey) (value : Value)
  | construct (c : Constructor) (type : TypeId)
  | add (o : Instance)
  | operation (op : Registry.Operation)

/-- The places of objects that exist, or of none, that an event may change. -/
def World.Event.writes : World.Event → Place → Prop
  | .invoke a target _ => a.writes target
  | .setSlot target key _ => fun p => p = .slot target key
  | .construct _ _ => fun _ => False
  | .add _ => fun _ => False
  | .operation _ => fun _ => False

namespace World

/-- A world in which an object was made known. -/
def adding (w : World) (o : Instance) : World := { w with heap := (w.heap.add o).2 }

def after (w : World) : Event → World
  | .invoke a target args => ((a.invoke target args).eval w).2
  | .setSlot target key value => ((Running.update (·.setSlot target key value)).eval w).2
  | .construct c type => ((c.construct type).eval w).2
  | .add o => w.adding o
  | .operation op => { w with registry := op.apply w.registry }

def afterAll (w : World) (events : List Event) : World := events.foldl after w

theorem after_changes (w : World) (e : Event) : w.Changes e.writes (w.after e) := by
  cases e with
  | invoke a target args => exact a.invoke_touches target args w
  | setSlot target key value =>
    have written : Touches (Event.setSlot target key value).writes
        (Running.update (·.setSlot target key value)) := by
      refine .update (fun h after => Heap.setSlot_sameShape) fun h after done p untouched => ?_
      have other : p ≠ .slot target key := untouched
      rw [Heap.at?_setSlot done, if_neg other]
    exact written w
  | construct c type => exact c.construct_touches type w
  | add o => exact ⟨.refl _, Heap.add_keeps o, fun _ here _ => Heap.at?_add o here⟩
  | operation op => exact ⟨op.growsTo _, .refl _, fun _ _ _ => rfl⟩

theorem afterAll_changes (w : World) (events : List Event) :
    w.Changes (fun p => ∃ e ∈ events, e.writes p) (w.afterAll events) := by
  induction events generalizing w with
  | nil => exact .refl _ w
  | cons e rest ih =>
    have first : w.Changes (fun p => ∃ e' ∈ e :: rest, e'.writes p) (w.after e) :=
      (w.after_changes e).mono fun p touched => ⟨e, List.mem_cons_self, touched⟩
    exact first.trans ((ih (w.after e)).mono fun p ⟨e', member, touched⟩ =>
      ⟨e', List.mem_cons_of_mem e member, touched⟩)

end World

end PropertyTables
