import PropertyTables.Navigation
import PropertyTables.Proofs.Hierarchy.Dispatch
import PropertyTables.Proofs.Table.Lasting

/-! # Catalogs are transparent

* `Registry.Operation`: what happens to a registry from outside, failures included.
* `Library.Sound`: every table that is kept is the one that building it now would give. Growth of
  the registry does no harm to this, `Sound.grow`.
* `Transparent`: a computation that answers as one over the registry alone does, whatever tables are
  kept. So do the lookups, `findTable_transparent`, and everything that follows a path.
* `tables_survive_growth`: a table that could be built once is the same ever after, and libraries
  that keep tables answer like libraries that do not.
-/

namespace PropertyTables
set_option autoImplicit false

open Growing (Lasting)

variable {α β : Type}

/-! ## What happens to a registry -/

namespace Registry

/-- An operation on a registry. Queries, which leave it as it is, are none. -/
inductive Operation
  | reserve (space name : String) (kind : DraftKind)
  | publish (draft : Draft)
  | internArray (component : TypeId)
  | erase (type : GenericType)
  | eraseDeclared (m : Method) (type : GenericType)
  | dispatch (receiver : TypeId) (m : Method)
  | reflect (type : TypeId) (limit : Nat)

/-- The registry that an operation leaves, whether it succeeds or not. -/
def Operation.apply (r : Registry) : Operation → Registry
  | reserve space name kind => (r.reserve space name kind).2
  | publish draft => (r.publish draft).toOption.getD r
  | internArray component => ((Growing.arrayOf component).eval r).2
  | erase type => (type.erase.eval r).2
  | eraseDeclared m type => ((m.eraseDeclared type).eval r).2
  | dispatch receiver m => ((findImplementation receiver m).eval r).2
  | reflect type limit => ((Table.build type limit).eval r).2

/-- Whether an operation hands an identity out or declares its type. -/
def Operation.Declares : Operation → Prop
  | reserve .. | publish _ => True
  | _ => False

theorem Operation.interns (op : Operation) (nothing : ¬ op.Declares) (r : Registry) :
    r.Interns (op.apply r) := by
  cases op with
  | reserve => exact absurd trivial nothing
  | publish => exact absurd trivial nothing
  | internArray component => exact (Lasting.arrayOf component).interns r
  | erase type => exact type.erase_lasting.interns r
  | eraseDeclared m type => exact (m.eraseDeclared_lasting type).interns r
  | dispatch receiver m => exact findImplementation_interns receiver m r
  | reflect type limit => exact (build_lasting type limit).interns r

theorem Operation.growsTo (op : Operation) (r : Registry) : r.GrowsTo (op.apply r) := by
  by_cases declares : op.Declares
  · cases op with
    | reserve space name kind => exact (Step.reserve r space name kind).growsTo
    | publish draft =>
      cases done : r.publish draft with
      | error fault =>
        rw [apply, done]
        exact .refl r
      | ok grown =>
        rw [apply, done]
        exact (Step.publish draft done).growsTo
    | _ => exact False.elim declares
  · exact (op.interns declares r).growsTo

theorem growsTo_foldl (ops : List Operation) (r : Registry) :
    r.GrowsTo (ops.foldl Operation.apply r) := by
  induction ops generalizing r with
  | nil => exact .refl r
  | cons op rest ih => exact (op.growsTo r).trans (ih (op.apply r))

end Registry

/-! ## Libraries that keep what building would give -/

namespace Browsing

/-- The outcome of a computation in a library, and the library afterwards. -/
def eval (x : Browsing α) (lib : Library) : Except Fault α × Library := x.run.run lib

theorem eval_lift (x : Except Fault α) (lib : Library) : (lift x).eval lib = (x, lib) := rfl

theorem eval_bind (x : Browsing α) (f : α → Browsing β) (lib : Library) :
    (x >>= f).eval lib = match x.eval lib with
      | (.ok a, after) => (f a).eval after
      | (.error fault, after) => (.error fault, after) := by
  rw [eval, ExceptT.run_bind, StateT.run_bind]
  show _ = match x.run.run lib with
    | (.ok a, after) => (f a).run.run after
    | (.error fault, after) => (.error fault, after)
  rcases x.run.run lib with ⟨fault | a, after⟩ <;> rfl

end Browsing

namespace Library

/-- Whether building any of the tables that are kept would give it again and intern nothing. -/
def Sound (lib : Library) : Prop :=
  ∀ entry ∈ lib.catalog.kept, (Table.build entry.1 lib.catalog.limit).eval lib.registry =
    (.ok entry.2.table, lib.registry)

/-- The library over another registry. -/
def withRegistry (lib : Library) (registry : Registry) : Library :=
  { lib with registry := registry }

theorem Sound.grow {lib : Library} (h : lib.Sound) {later : Registry}
    (grows : lib.registry.GrowsTo later) (built : Nat) :
    Sound { lib with registry := later, built := built } := by
  intro entry kept
  exact (build_lasting entry.1 lib.catalog.limit).lasts _ _ _ later (h entry kept) grows

theorem Sound.keep {lib : Library} (h : lib.Sound) {type : TypeId} {held : Held}
    (built : (Table.build type lib.catalog.limit).eval lib.registry =
      (.ok held.table, lib.registry)) :
    Sound { lib with catalog := lib.catalog.keep type held } := by
  unfold Catalog.keep
  split
  · exact List.forall_mem_cons.mpr ⟨built, h⟩
  · exact h

end Library

/-! ## Transparent computations -/

/-- Whether `x` gives, in every sound library that builds under `limit`, what some lasting
computation over the registry gives. Of the results of `x` only the `view` counts. -/
def Transparent (limit : Nat) (view : α → β) (x : Browsing α) : Prop :=
  ∃ y : Growing β, Lasting y ∧ ∀ lib : Library, lib.Sound → lib.catalog.limit = limit →
    ((x.eval lib).1.map view, (x.eval lib).2.registry) = y.eval lib.registry ∧
      (x.eval lib).2.Sound ∧ (x.eval lib).2.catalog.limit = limit

namespace Transparent

variable {limit : Nat}

theorem lift (x : Except Fault α) : Transparent limit id (Browsing.lift x) := by
  refine ⟨Growing.read fun _ => x, .read (.const x), fun lib sound same => ⟨?_, sound, same⟩⟩
  cases x <;> rfl

theorem pure (a : α) : Transparent limit id (Pure.pure a : Browsing α) := lift (.ok a)

theorem bind {γ δ : Type} {view : α → β} {view' : γ → δ} {x : Browsing α} {f : β → Browsing γ}
    (hx : Transparent limit view x) (hf : ∀ b, Transparent limit view' (f b)) :
    Transparent limit view' (x >>= fun a => f (view a)) := by
  obtain ⟨y, y_lasting, follows⟩ := hx
  choose g g_lasting goes_on using hf
  refine ⟨y >>= g, y_lasting.bind g_lasting, fun lib sound same => ?_⟩
  obtain ⟨first, sound, same⟩ := follows lib sound same
  rw [Browsing.eval_bind, Growing.eval_bind, ← first]
  rcases done : x.eval lib with ⟨fault | a, after⟩
  · rw [done] at sound same
    exact ⟨rfl, sound, same⟩
  · rw [done] at sound same
    exact goes_on (view a) after sound same

end Transparent

theorem findTable_kept {lib : Library} {type : TypeId} {held : Held}
    (found : lib.catalog.find? type = some held) : (findTable type).eval lib = (.ok held, lib) := by
  have first : (get : Browsing Library).eval lib = (.ok lib, lib) := rfl
  rw [findTable, Browsing.eval_bind, first]
  simp only [found]
  rfl

theorem findTable_built {lib : Library} {type : TypeId} (unknown : lib.catalog.find? type = none) :
    (findTable type).eval lib =
      match (Table.build type lib.catalog.limit).eval lib.registry with
      | (.ok table, grown) => (.ok ⟨lib.built, table⟩, {
          registry := grown
          catalog := lib.catalog.keep type ⟨lib.built, table⟩
          built := lib.built + 1 })
      | (.error fault, grown) => (.error fault, lib.withRegistry grown) := by
  have first : (get : Browsing Library).eval lib = (.ok lib, lib) := rfl
  have next : (buildTable type).eval lib =
      match (Table.build type lib.catalog.limit).eval lib.registry with
      | (.ok table, grown) => (.ok ⟨lib.built, table⟩, {
          registry := grown, catalog := lib.catalog, built := lib.built + 1 })
      | (.error fault, grown) => (.error fault, lib.withRegistry grown) := by
    rw [buildTable, Browsing.eval_bind, first]
    show ((Browsing.growing _) >>= _ : Browsing Held).eval lib = _
    rw [Browsing.eval_bind]
    have grown : (Browsing.growing (Table.build type lib.catalog.limit)).eval lib =
      match (Table.build type lib.catalog.limit).eval lib.registry with
      | (result, grown) => (result, lib.withRegistry grown) := rfl
    rw [grown]
    rcases (Table.build type lib.catalog.limit).eval lib.registry with ⟨fault | table, grown⟩ <;>
      rfl
  rw [findTable, Browsing.eval_bind, first]
  simp only [unknown]
  rw [Browsing.eval_bind, next]
  rcases (Table.build type lib.catalog.limit).eval lib.registry with ⟨fault | table, grown⟩ <;> rfl

theorem Library.mem_kept_of_find? {c : Catalog} {type : TypeId} {held : Held}
    (found : c.find? type = some held) : c.enabled = true ∧ (type, held) ∈ c.kept := by
  unfold Catalog.find? at found
  split at found
  · rename_i enabled
    obtain ⟨before, later, split, -⟩ := List.lookup_eq_some_iff.mp found
    exact ⟨enabled, by simp [split]⟩
  · cases found

/-- In a sound library a lookup gives what building gives, kept or not. -/
theorem findTable_follows {lib : Library} (sound : lib.Sound) (type : TypeId) :
    (((findTable type).eval lib).1.map Held.table, ((findTable type).eval lib).2.registry) =
        (Table.build type lib.catalog.limit).eval lib.registry ∧
      ((findTable type).eval lib).2.Sound ∧
      ((findTable type).eval lib).2.catalog.limit = lib.catalog.limit := by
  cases found : lib.catalog.find? type with
  | some held =>
    rw [findTable_kept found]
    exact ⟨(sound _ (Library.mem_kept_of_find? found).2).symm, sound, rfl⟩
  | none =>
    rw [findTable_built found]
    rcases done : (Table.build type lib.catalog.limit).eval lib.registry with ⟨fault | table, grown⟩
    · have grows := ((build_lasting type _).interns_of_eval done).growsTo
      exact ⟨rfl, sound.grow grows lib.built, rfl⟩
    · have grows := ((build_lasting type _).interns_of_eval done).growsTo
      have again := (build_lasting type _).again done
      refine ⟨rfl, (sound.grow grows (lib.built + 1)).keep again, ?_⟩
      show (lib.catalog.keep type _).limit = _
      unfold Catalog.keep
      split <;> rfl

theorem findTable_transparent (limit : Nat) (type : TypeId) :
    Transparent limit Held.table (findTable type) := by
  refine ⟨Table.build type limit, build_lasting type limit, ?_⟩
  rintro lib sound rfl
  exact findTable_follows sound type

/-! ## Paths -/

namespace Table

theorem segmentTable_transparent (limit : Nat) (t : Table) (s : Segment) :
    Transparent limit id (t.segmentTable s) :=
  (Transparent.lift (t.segmentType s)).bind fun type =>
    (findTable_transparent limit type).bind fun table => .pure table

theorem propertyTable_transparent (limit : Nat) (t : Table) (property : String) :
    Transparent limit Held.table (t.propertyTable property) :=
  (Transparent.lift (t.entry .read property)).bind fun entry =>
    findTable_transparent limit entry.type

theorem readTypeFrom_transparent (limit : Nat) (t : Table) (s : Segment) (rest : List Segment) :
    Transparent limit id (t.readTypeFrom s rest) := by
  induction rest generalizing t s with
  | nil => exact .lift (t.segmentType s)
  | cons next rest ih => exact (t.segmentTable_transparent limit s).bind fun table => ih table next

theorem writeTypeFrom_transparent (limit : Nat) (t : Table) (s : Segment) (rest : List Segment) :
    Transparent limit id (t.writeTypeFrom s rest) := by
  induction rest generalizing t s with
  | nil => exact .lift _
  | cons next rest ih =>
    exact (t.propertyTable_transparent limit s.name).bind fun table => ih table next

theorem canReadFrom_transparent (limit : Nat) (t : Table) (s : Segment) (rest : List Segment) :
    Transparent limit id (t.canReadFrom s rest) := by
  induction rest generalizing t s with
  | nil => exact .pure _
  | cons next rest ih =>
    rw [canReadFrom]
    split
    · exact (t.segmentTable_transparent limit s).bind fun table => ih table next
    · exact .pure false

theorem canWriteFrom_transparent (limit : Nat) (t : Table) (s : Segment) (rest : List Segment) :
    Transparent limit id (t.canWriteFrom s rest) := by
  induction rest generalizing t s with
  | nil => exact .pure _
  | cons next rest ih =>
    rw [canWriteFrom]
    split
    · exact (t.propertyTable_transparent limit s.name).bind fun table => ih table next
    · exact .pure false

theorem canWrite_transparent (limit : Nat) (t : Table) (path : String) :
    Transparent limit id (t.canWrite path) :=
  t.canWriteFrom_transparent limit _ _

theorem spellFrom_transparent (limit : Nat) (t : Table) (s : Segment) (rest : List Segment) :
    Transparent limit id (t.spellFrom s rest) := by
  induction rest generalizing t s with
  | nil => exact .pure _
  | cons next rest ih =>
    rw [spellFrom]
    cases t.findName? s.name with
    | none => exact .pure ""
    | some property =>
      exact (t.propertyTable_transparent limit property).bind fun table =>
        (ih table next).bind fun spelling => .pure (property ++ "." ++ spelling)

theorem spell_transparent (limit : Nat) (t : Table) (path : String) (joinWords : Bool) :
    Transparent limit id (t.spell path joinWords) := by
  unfold spell
  exact Transparent.bind (f := fun s => Pure.pure (if s = "" then none else some s))
    (t.spellFrom_transparent limit _ _) fun _ => .pure _

end Table

/-! ## Runs -/

/-- What is asked of a path. -/
inductive PathQuery
  | canRead
  | canWrite
  | readType
  | writeType
  | spell (joinWords : Bool)

/-- What a library answers. -/
inductive Answer
  | table (t : Table)
  | truth (b : Bool)
  | type (id : TypeId)
  | spelling (text : Option String)

/-- What is asked of a library: the table of a type, or something about a path from a table, in
whatever way that table was come by. -/
inductive Request
  | lookUp (type : TypeId)
  | follow (t : Table) (path : String) (query : PathQuery)

def Request.answer : Request → Browsing Answer
  | lookUp type => do return .table (← findTable type).table
  | follow t path .canRead => do return .truth (← t.canRead path)
  | follow t path .canWrite => do return .truth (← t.canWrite path)
  | follow t path .readType => do return .type (← t.readType path)
  | follow t path .writeType => do return .type (← t.writeType path)
  | follow t path (.spell joinWords) => do return .spelling (← t.spell path joinWords)

theorem Request.answer_transparent (limit : Nat) (q : Request) :
    Transparent limit id q.answer := by
  cases q with
  | lookUp type => exact (findTable_transparent limit type).bind fun table => .pure _
  | follow t path query =>
    cases query with
    | canRead => exact (t.canReadFrom_transparent limit _ _).bind fun answer => .pure _
    | canWrite => exact (t.canWrite_transparent limit path).bind fun answer => .pure _
    | readType => exact (t.readTypeFrom_transparent limit _ _).bind fun answer => .pure _
    | writeType => exact (t.writeTypeFrom_transparent limit _ _).bind fun answer => .pure _
    | spell joinWords => exact (t.spell_transparent limit path joinWords).bind fun answer => .pure _

/-- One event of a run: an operation on the registry, or a request. -/
inductive Event
  | operation (op : Registry.Operation)
  | request (q : Request)

namespace Library

/-- A library that keeps no table yet, and never does unless `enabled`. -/
def fresh (r : Registry) (limit : Nat) (enabled : Bool) : Library where
  registry := r
  catalog := { enabled := enabled, limit := limit }
  built := 0

/-- The answers to the requests of a run. -/
def run (lib : Library) : List Event → List (Except Fault Answer)
  | [] => []
  | .operation op :: rest => (lib.withRegistry (op.apply lib.registry)).run rest
  | .request q :: rest => (q.answer.eval lib).1 :: (q.answer.eval lib).2.run rest

/-- The answers of two libraries over one registry to the requests of a run: the second library is
asked after the first, over the registry that this leaves. -/
def runBoth (a b : Library) : List Event → List (Except Fault Answer × Except Fault Answer)
  | [] => []
  | .operation op :: rest =>
    let registry := op.apply a.registry
    (a.withRegistry registry).runBoth (b.withRegistry registry) rest
  | .request q :: rest =>
    let first := q.answer.eval a
    let second := q.answer.eval (b.withRegistry first.2.registry)
    (first.1, second.1) :: (first.2.withRegistry second.2.registry).runBoth second.2 rest

theorem fresh_sound (r : Registry) (limit : Nat) (enabled : Bool) : (fresh r limit enabled).Sound :=
  fun _ kept => absurd kept List.not_mem_nil

theorem Sound.withRegistry {lib : Library} (h : lib.Sound) {later : Registry}
    (grows : lib.registry.GrowsTo later) : (lib.withRegistry later).Sound :=
  h.grow grows lib.built

/-- Two libraries over one registry that build under one limit, whatever each of them keeps. -/
structure Alike (limit : Nat) (a b : Library) : Prop where
  sound_left : a.Sound
  sound_right : b.Sound
  limit_left : a.catalog.limit = limit
  limit_right : b.catalog.limit = limit
  registry : a.registry = b.registry

variable {limit : Nat} {a b : Library}

theorem Alike.withRegistry (h : Alike limit a b) {later : Registry}
    (grows : a.registry.GrowsTo later) :
    Alike limit (a.withRegistry later) (b.withRegistry later) where
  sound_left := h.sound_left.withRegistry grows
  sound_right := h.sound_right.withRegistry (h.registry ▸ grows)
  limit_left := h.limit_left
  limit_right := h.limit_right
  registry := rfl

/-- Two libraries over one registry answer a transparent computation alike. -/
theorem Alike.transparent (h : Alike limit a b) {x : Browsing α} (hx : Transparent limit id x) :
    (x.eval a).1 = (x.eval b).1 ∧ Alike limit (x.eval a).2 (x.eval b).2 := by
  obtain ⟨y, lasting, follows⟩ := hx
  obtain ⟨left, sound_left, limit_left⟩ := follows a h.sound_left h.limit_left
  obtain ⟨right, sound_right, limit_right⟩ := follows b h.sound_right h.limit_right
  have same := left.trans ((congrArg y.eval h.registry).trans right.symm)
  simp only [Except.map_id, id, Prod.mk.injEq] at same
  exact ⟨same.1, sound_left, sound_right, limit_left, limit_right, same.2⟩

theorem Alike.request (h : Alike limit a b) (q : Request) :
    (q.answer.eval a).1 = (q.answer.eval b).1 ∧
      Alike limit (q.answer.eval a).2 (q.answer.eval b).2 :=
  h.transparent (q.answer_transparent limit)

/-- A library that is asked second, over the registry that the first one leaves, gives the same
answer and leaves that registry alone. -/
theorem Alike.request_after (h : Alike limit a b) (q : Request) :
    let first := q.answer.eval a
    let second := q.answer.eval (b.withRegistry first.2.registry)
    first.1 = second.1 ∧ Alike limit (first.2.withRegistry second.2.registry) second.2 := by
  intro first second
  obtain ⟨y, lasting, follows⟩ := q.answer_transparent limit
  obtain ⟨left, sound_left, limit_left⟩ := follows a h.sound_left h.limit_left
  have done : y.eval a.registry = (first.1, first.2.registry) := by
    rw [← left, Except.map_id]
    rfl
  have grows := (lasting.interns_of_eval done).growsTo
  have sound := h.sound_right.withRegistry (h.registry ▸ grows)
  obtain ⟨right, sound_right, limit_right⟩ := follows _ sound h.limit_right
  have repeated : (second.1, second.2.registry) = (first.1, first.2.registry) := by
    rw [Except.map_id] at right
    exact right.trans (lasting.again done)
  obtain ⟨answer, registry⟩ := Prod.mk.inj repeated
  refine ⟨answer.symm, ?_⟩
  rw [registry]
  exact ⟨sound_left, sound_right, limit_left, limit_right, registry.symm⟩

theorem Alike.run_eq (h : Alike limit a b) (events : List Event) : a.run events = b.run events := by
  induction events generalizing a b with
  | nil => rfl
  | cons event rest ih =>
    cases event with
    | operation op =>
      rw [run, run, ← h.registry]
      exact ih (h.withRegistry (op.growsTo a.registry))
    | request q =>
      obtain ⟨answer, next⟩ := h.request q
      rw [run, run, answer, ih next]

theorem Alike.runBoth_eq (h : Alike limit a b) (events : List Event) :
    ∀ answers ∈ a.runBoth b events, answers.1 = answers.2 := by
  induction events generalizing a b with
  | nil => simp [runBoth]
  | cons event rest ih =>
    cases event with
    | operation op => exact ih (h.withRegistry (op.growsTo a.registry))
    | request q =>
      obtain ⟨answer, next⟩ := h.request_after q
      exact List.forall_mem_cons.mpr ⟨answer, ih next⟩

theorem fresh_alike (r : Registry) (limit : Nat) (one other : Bool) :
    Alike limit (fresh r limit one) (fresh r limit other) where
  sound_left := fresh_sound r limit one
  sound_right := fresh_sound r limit other
  limit_left := rfl
  limit_right := rfl
  registry := rfl

end Library

/-- A table that was built once can be built again ever after, and is the same. So it is of no
account whether a library keeps its tables, be it alone or beside one that does the other. -/
theorem tables_survive_growth (limit : Nat) :
    (∀ type r table grown, (Table.build type limit).eval r = (.ok table, grown) →
      ∀ ops : List Registry.Operation,
        (Table.build type limit).eval (ops.foldl Registry.Operation.apply grown) =
          (.ok table, ops.foldl Registry.Operation.apply grown)) ∧
    (∀ r events,
      (Library.fresh r limit true).run events = (Library.fresh r limit false).run events) ∧
    (∀ r events,
      ∀ answers ∈ (Library.fresh r limit true).runBoth (Library.fresh r limit false) events,
        answers.1 = answers.2) := by
  refine ⟨fun type r table grown done ops => ?_, fun r events => ?_, fun r events => ?_⟩
  · exact (build_lasting type limit).lasts r table grown _ done (Registry.growsTo_foldl ops grown)
  · exact (Library.fresh_alike r limit true false).run_eq events
  · exact (Library.fresh_alike r limit true false).runBoth_eq events

/-- A class with a property of a type that is reserved only. -/
def Registry.awaiting : Registry :=
  (initial.reserve "" "Buyer" .classType).2.declared "" "Order" .classType fun d =>
    (d.getter "getBuyer" (.named ⟨11⟩)).privateField "lines" (.array (.named .string))

/-- What declares that type later, after an attempt to use it that fails. -/
def Registry.arrivals : List Registry.Operation :=
  [.reflect ⟨11⟩ Table.defaultLimit, .publish (initial.reserve "" "Buyer" .classType).1,
    .internArray ⟨11⟩, .reflect ⟨11⟩ Table.defaultLimit]

theorem tables_survive_growth_awaiting :
    ∃ table grown entry, (Table.build ⟨12⟩ Table.defaultLimit).eval Registry.awaiting =
        (.ok table, grown) ∧
      table.entry .read "buyer" = .ok entry ∧ entry.type = ⟨11⟩ ∧
      (Table.build ⟨12⟩ Table.defaultLimit).eval
          (Registry.arrivals.foldl Registry.Operation.apply grown) =
        (.ok table, Registry.arrivals.foldl Registry.Operation.apply grown) := by
  have built : (((Table.build ⟨12⟩ Table.defaultLimit).eval Registry.awaiting).1.toOption.bind
      fun table => (table.entry .read "buyer").toOption.map Entry.type) = some ⟨11⟩ := by cbv
  obtain ⟨survives, -, -⟩ := tables_survive_growth Table.defaultLimit
  rcases done : (Table.build ⟨12⟩ Table.defaultLimit).eval Registry.awaiting
    with ⟨fault | table, grown⟩
  · rw [done] at built
    cases built
  · rw [done] at built
    cases listed : table.entry .read "buyer" with
    | error fault => simp [Except.toOption, listed] at built
    | ok entry =>
      have type : entry.type = ⟨11⟩ := by simpa [Except.toOption, listed] using built
      have again := survives _ _ _ _ done Registry.arrivals
      exact ⟨table, grown, entry, rfl, listed, type, again⟩

end PropertyTables
