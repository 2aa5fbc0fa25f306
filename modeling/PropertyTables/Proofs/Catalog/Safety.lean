import PropertyTables.Proofs.Catalog.History
import PropertyTables.Proofs.Table.SafeBuild

/-! # Nothing dangles

* `Library.Sealed`: a library over a closed registry that keeps what building would give.
* `Browsing.Safe`: what a computation does in one library: its registry gains array types at most,
  the library stays sealed, and nothing fails but a build, or a path for want of a property.
* `Request.safe`: so does every request that starts from declared types.
* `Library.Run.reachable`: whatever is asked of a library, operations made its registry.
* `nothing_dangles`: building a table in a closed registry, and following paths from it later.
-/

namespace PropertyTables
set_option autoImplicit false

variable {α β : Type} {limit : Nat}

/-- What can go wrong on a path where all types are declared. -/
inductive Fault.OfPath (limit : Nat) : Fault → Prop
  | build {fault : Fault} (h : Fault.OfBuild limit fault) : OfPath limit fault
  | propertyNotFound (side : Side) (property owner : String) :
      OfPath limit (.propertyNotFound side property owner)

/-- A library over a closed registry that keeps what building under `limit` would give. -/
structure Library.Sealed (limit : Nat) (lib : Library) : Prop where
  registry : lib.registry.Sealed
  sound : lib.Sound
  limit : lib.catalog.limit = limit

namespace Browsing

/-- Whether `x`, run in `lib`, interns at most, leaves the library sealed, fails only as paths can,
and gives only results that satisfy `Q` in the registry it leaves. -/
structure Safe (limit : Nat) (lib : Library) (x : Browsing α) (Q : Registry → α → Prop) : Prop where
  interns : lib.registry.Interns (x.eval lib).2.registry
  still : (x.eval lib).2.Sealed limit
  fault : ∀ fault, (x.eval lib).1 = .error fault → Fault.OfPath limit fault
  result : ∀ a, (x.eval lib).1 = .ok a → Q (x.eval lib).2.registry a

namespace Safe
variable {lib : Library} {Q : Registry → β → Prop}

theorem of_ok {x : Browsing β} {b : β} {later : Library} (done : x.eval lib = (.ok b, later))
    (interns : lib.registry.Interns later.registry) (still : later.Sealed limit)
    (fits : Q later.registry b) : Safe limit lib x Q := by
  refine ⟨?_, ?_, ?_, ?_⟩ <;> rw [done]
  · exact interns
  · exact still
  · intro fault failed
    cases failed
  · intro b' same
    cases same
    exact fits

theorem of_error {x : Browsing β} {fault : Fault} {later : Library}
    (failed : x.eval lib = (.error fault, later)) (interns : lib.registry.Interns later.registry)
    (still : later.Sealed limit) (allowed : Fault.OfPath limit fault) : Safe limit lib x Q := by
  refine ⟨?_, ?_, ?_, ?_⟩ <;> rw [failed]
  · exact interns
  · exact still
  · intro other same
    cases same
    exact allowed
  · intro b done
    cases done

theorem lift (h : lib.Sealed limit) {x : Except Fault β}
    (fault : ∀ fault, x = .error fault → Fault.OfPath limit fault)
    (result : ∀ b, x = .ok b → Q lib.registry b) : Safe limit lib (Browsing.lift x) Q :=
  ⟨.refl _, h, fault, result⟩

theorem pure (h : lib.Sealed limit) {b : β} (fits : Q lib.registry b) :
    Safe limit lib (Pure.pure b) Q :=
  .of_ok rfl (.refl _) h fits

theorem bind {x : Browsing α} {f : α → Browsing β} {P : Registry → α → Prop}
    (first : Safe limit lib x P)
    (second : ∀ (later : Library) (a : α), lib.registry.Interns later.registry →
      later.Sealed limit → P later.registry a → Safe limit later (f a) Q) :
    Safe limit lib (x >>= f) Q := by
  obtain ⟨interns, still, fault, result⟩ := first
  have value := eval_bind x f lib
  rcases done : x.eval lib with ⟨failure | a, later⟩ <;>
    rw [done] at value interns still fault result
  · exact .of_error value interns still (fault failure rfl)
  · have next := second later a interns still (result a rfl)
    refine ⟨?_, ?_, ?_, ?_⟩ <;> rw [value]
    · exact interns.trans next.interns
    · exact next.still
    · exact next.fault
    · exact next.result

end Safe

end Browsing

open Browsing (Safe)

/-! ## Lookups -/

namespace Library.Sealed
variable {lib : Library}

theorem kept (h : lib.Sealed limit) {type : TypeId} {held : Held}
    (member : (type, held) ∈ lib.catalog.kept) : lib.registry.Covers held.table.ids := by
  have built := h.sound _ member
  obtain ⟨_, _, _, _, _, d, -, -, -, -, -, found, -⟩ := Table.build_settled built
  have declared := Registry.Published.of_find? (Registry.find_eq_ok.mp found)
  exact ((h.registry.build declared).of_eval built).2

theorem findTable (h : lib.Sealed limit) {type : TypeId} (declared : lib.registry.Published type) :
    Safe limit lib (findTable type) fun grown held => grown.Covers held.table.ids := by
  obtain ⟨_, -, follows⟩ := findTable_transparent limit type
  obtain ⟨-, sound, same⟩ := follows lib h.sound h.limit
  have builds : Growing.Safe (Fault.OfBuild lib.catalog.limit) lib.registry
      (Table.build type lib.catalog.limit) fun grown t => grown.Covers t.ids :=
    h.registry.build declared
  rcases lib.lookUp_cases type with ⟨held, found, outcome⟩ | ⟨-, grown, interns, outcome⟩
  · exact .of_ok outcome (.refl _) h (h.kept (Library.mem_kept_of_find? found).2)
  · rcases outcome with ⟨fault, done, outcome⟩ | ⟨table, done, outcome⟩ <;> rw [outcome] at sound same
    · have allowed := builds.fault fault
      rw [done, h.limit] at allowed
      exact .of_error outcome interns ⟨h.registry.interns interns, sound, same⟩ (.build (allowed rfl))
    · have covers := (builds.of_eval done).2
      exact .of_ok outcome interns ⟨h.registry.interns interns, sound, same⟩ covers

end Library.Sealed

/-! ## Paths -/

namespace Table
variable {lib : Library} {t : Table}

theorem covers_entry {r : Registry} (covered : r.Covers t.ids) {side : Side} {property : String}
    {e : Entry} (listed : t.entry side property = .ok e) : r.Covers e.ids := by
  simp only [ids, Registry.covers_cons, Registry.covers_append, Registry.covers_index] at covered
  obtain ⟨-, ⟨readers, writers⟩, -⟩ := covered
  have found := entry_eq_ok.mp listed
  cases side with
  | read => exact readers.of_find? found
  | write => exact writers.of_find? found

theorem entry_fault {side : Side} {property : String} {fault : Fault}
    (failed : t.entry side property = .error fault) : Fault.OfPath limit fault := by
  unfold entry at failed
  split at failed
  · cases failed
  · cases failed
    exact .propertyNotFound side property t.name

theorem element_mem_ids {g : GenericType} {id : TypeId} (h : g.element? = some id) : id ∈ g.ids := by
  unfold GenericType.element? at h
  split at h
  · rename_i arg
    exact GenericType.ids_of_mem_args (t := .applied _ [arg]) List.mem_cons_self id
      (GenericType.raw?_mem_ids h)
  · rename_i component
    exact GenericType.raw?_mem_ids (t := component) h
  · cases h

theorem segmentType_published {r : Registry} (covered : r.Covers t.ids) {s : Segment} {id : TypeId}
    (done : t.segmentType s = .ok id) : r.Published id := by
  obtain ⟨e, listed, done⟩ := bind_eq_ok.mp done
  obtain ⟨type, -, generic⟩ : r.Published e.type ∧ _ ∧ r.Covers e.generic.ids ∧ _ := by
    simpa only [Entry.ids, Registry.covers_cons, Registry.covers_append] using
      covers_entry covered listed
  split at done
  · cases done
    cases element : e.generic.element? with
    | none => exact type
    | some id => exact generic.1 id (element_mem_ids element)
  · cases done
    exact type

theorem segmentType_fault {s : Segment} {fault : Fault} (failed : t.segmentType s = .error fault) :
    Fault.OfPath limit fault := by
  rw [segmentType] at failed
  cases listed : t.entry .read s.name with
  | error other =>
    rw [listed] at failed
    cases failed
    exact entry_fault listed
  | ok e =>
    rw [listed] at failed
    cases indexed : s.index.isSome <;> simp [indexed] at failed

variable (h : lib.Sealed limit) (covered : lib.registry.Covers t.ids)

include h covered

theorem segmentTable_safe (s : Segment) :
    Safe limit lib (t.segmentTable s) fun grown u => grown.Covers u.ids := by
  have first : Safe limit lib (Browsing.lift (t.segmentType s)) Registry.Published :=
    .lift h (fun _ => segmentType_fault) fun _ => segmentType_published covered
  refine first.bind fun later type _ still declared => ?_
  exact (still.findTable declared).bind fun last held _ still covers => .pure still covers

theorem propertyTable_safe (property : String) :
    Safe limit lib (t.propertyTable property) fun grown held => grown.Covers held.table.ids := by
  have first : Safe limit lib (Browsing.lift (t.entry .read property))
      fun grown e => grown.Covers e.ids :=
    .lift h (fun _ => entry_fault) fun _ => covers_entry covered
  refine first.bind fun later e _ still covers => ?_
  exact still.findTable (Registry.covers_cons.mp covers).1

theorem readTypeFrom_safe (s : Segment) (rest : List Segment) :
    Safe limit lib (t.readTypeFrom s rest) Registry.Published := by
  induction rest generalizing lib t s with
  | nil => exact .lift h (fun _ => segmentType_fault) fun _ => segmentType_published covered
  | cons next rest ih =>
    exact (segmentTable_safe h covered s).bind fun later u _ still covers => ih still covers next

theorem writeTypeFrom_safe (s : Segment) (rest : List Segment) :
    Safe limit lib (t.writeTypeFrom s rest) Registry.Published := by
  induction rest generalizing lib t s with
  | nil =>
    refine .lift h (fun fault failed => ?_) fun id done => ?_
    · cases listed : t.entry .write s.name with
      | error other =>
        rw [listed] at failed
        cases failed
        exact entry_fault listed
      | ok e =>
        rw [listed] at failed
        cases failed
    · cases listed : t.entry .write s.name with
      | error other =>
        rw [listed] at done
        cases done
      | ok e =>
        rw [listed] at done
        cases done
        exact (Registry.covers_cons.mp (covers_entry covered listed)).1
  | cons next rest ih =>
    exact (propertyTable_safe h covered s.name).bind fun later u _ still covers =>
      ih still covers next

theorem canReadFrom_safe (s : Segment) (rest : List Segment) :
    Safe limit lib (t.canReadFrom s rest) fun _ _ => True := by
  induction rest generalizing lib t s with
  | nil => exact .pure h .intro
  | cons next rest ih =>
    rw [canReadFrom]
    split
    · exact (segmentTable_safe h covered s).bind fun later u _ still covers => ih still covers next
    · exact .pure h .intro

theorem canWriteFrom_safe (s : Segment) (rest : List Segment) :
    Safe limit lib (t.canWriteFrom s rest) fun _ _ => True := by
  induction rest generalizing lib t s with
  | nil => exact .pure h .intro
  | cons next rest ih =>
    rw [canWriteFrom]
    split
    · exact (propertyTable_safe h covered s.name).bind fun later u _ still covers =>
        ih still covers next
    · exact .pure h .intro

theorem spellFrom_safe (s : Segment) (rest : List Segment) :
    Safe limit lib (t.spellFrom s rest) fun _ _ => True := by
  induction rest generalizing lib t s with
  | nil => exact .pure h .intro
  | cons next rest ih =>
    rw [spellFrom]
    cases t.findName? s.name with
    | none => exact .pure h .intro
    | some property =>
      refine (propertyTable_safe h covered property).bind fun later u _ still covers => ?_
      exact (ih still covers next).bind fun last text _ still _ => .pure still .intro

end Table

/-! ## Requests -/

/-- What a request starts from: the type to look up, or all that a table names. -/
def Request.ids : Request → List TypeId
  | lookUp type => [type]
  | follow t _ _ => t.ids

/-- What an answer names. -/
def Answer.ids : Answer → List TypeId
  | table t => t.ids
  | truth _ => []
  | type id => [id]
  | spelling _ => []

theorem Request.safe {lib : Library} (h : lib.Sealed limit) (q : Request)
    (covered : lib.registry.Covers q.ids) :
    Safe limit lib q.answer fun grown answer => grown.Covers answer.ids := by
  cases q with
  | lookUp type =>
    have declared := (Registry.covers_cons.mp covered).1
    exact (h.findTable declared).bind fun later held _ still covers => .pure still covers
  | follow t path query =>
    cases query with
    | canRead =>
      exact (Table.canReadFrom_safe h covered _ _).bind fun later b _ still _ => .pure still nofun
    | canWrite =>
      exact (Table.canWriteFrom_safe h covered _ _).bind fun later b _ still _ => .pure still nofun
    | readType =>
      exact (Table.readTypeFrom_safe h covered _ _).bind fun later id _ still declared =>
        .pure still (Registry.covers_cons.mpr ⟨declared, nofun⟩)
    | writeType =>
      exact (Table.writeTypeFrom_safe h covered _ _).bind fun later id _ still declared =>
        .pure still (Registry.covers_cons.mpr ⟨declared, nofun⟩)
    | spell joinWords =>
      have spelled : Safe limit lib (t.spell path joinWords) fun _ _ => True :=
        (Table.spellFrom_safe h covered _ _).bind fun later text _ still _ => .pure still .intro
      exact spelled.bind fun later text _ still _ => .pure still nofun

/-! ## Histories -/

theorem Registry.Operation.reachable {r : Registry} (h : r.Reachable) (op : Operation) :
    (op.apply r).Reachable := by
  by_cases declares : op.Declares
  · cases op with
    | reserve space name kind => exact h.tail (.reserve r space name kind)
    | publish draft =>
      rw [apply]
      cases done : r.publish draft with
      | error fault => exact h
      | ok grown => exact h.tail (.publish draft done)
    | _ => exact False.elim declares
  · exact h.interns (op.interns declares r)

theorem Library.Run.reachable {lib last : Library} {later : List Lookup}
    (along : lib.Run later last) (h : lib.registry.Reachable) : last.registry.Reachable := by
  induction along with
  | stop => exact h
  | lookUp type _ ih => exact ih (h.interns (Library.afterLookup_interns _ type))
  | switch enabled _ ih => exact ih h
  | operation op _ ih => exact ih (op.reachable h)

/-- In a closed registry nothing dangles: building a table fails by ambiguity or by a superclass
chain that is too long, adds array types at most, and gives a table that names declared types only.
Any path from such a table, followed in a library with whatever history over a closed registry, may
in addition want for a property, and nothing else goes wrong. -/
theorem nothing_dangles {r : Registry} {type : TypeId} (reachable : r.Reachable) (closed : r.Closed)
    (declared : r.Published type) (limit : Nat) :
    ∃ outcome grown, (Table.build type limit).eval r = (outcome, grown) ∧
      (∀ fault, outcome = .error fault → Fault.OfBuild limit fault) ∧
      grown.Closed ∧ r.AppendsArrays grown ∧
      ∀ t, outcome = .ok t → grown.Covers t.ids ∧
        ∀ r₀ limit' enabled calls, r₀.Reachable →
          let lib := (Library.fresh r₀ limit' enabled).afterAll calls
          grown.GrowsTo lib.registry → lib.registry.Closed →
          ∀ path query, ∃ outcome later,
            (Request.follow t path query).answer.eval lib = (outcome, later) ∧
            (∀ fault, outcome = .error fault → Fault.OfPath limit' fault) ∧
            later.registry.Closed ∧ lib.registry.AppendsArrays later.registry ∧
            ∀ answer, outcome = .ok answer → later.registry.Covers answer.ids := by
  have sealed_here : r.Sealed := ⟨reachable, closed⟩
  have safe : Growing.Safe (Fault.OfBuild limit) r (Table.build type limit) fun grown t =>
      grown.Covers t.ids := sealed_here.build declared
  refine ⟨_, _, rfl, safe.fault, (sealed_here.interns safe.interns).closed, safe.interns.appends, ?_⟩
  intro t built
  have covered := safe.result t built
  refine ⟨covered, ?_⟩
  intro r₀ limit' enabled calls start lib grows closed' path query
  have along := (Library.fresh r₀ limit' enabled).run_history calls
  have recorded := (Library.fresh_recorded r₀ limit' enabled).run along
  have still : lib.Sealed limit' := ⟨⟨along.reachable start, closed'⟩, recorded.sound, recorded.limit⟩
  have follows := Request.safe still (.follow t path query) (covered.extends grows.declared)
  exact ⟨_, _, rfl, follows.fault, follows.still.registry.closed, follows.interns.appends,
    follows.result⟩

/-- Shelves of books, and the books. -/
def Registry.shelves : Registry :=
  (initial.declared "" "B" .classType fun d => d.property "t" (.named .string)).declared "" "S"
    .classType fun d => d.privateField "b" (.array (.named ⟨11⟩))

theorem nothing_dangles_shelves :
    Registry.shelves.Reachable ∧ Registry.shelves.Closed ∧
    ∃ t grown, (Table.build ⟨12⟩ Table.defaultLimit).eval Registry.shelves = (.ok t, grown) ∧
      t.names .read = ["b"] ∧ grown.Covers t.ids ∧
      let lib := Library.fresh grown Table.defaultLimit true
      ∀ path query, ∃ outcome later,
        (Request.follow t path query).answer.eval lib = (outcome, later) ∧
        ∀ fault, outcome = .error fault → Fault.OfPath Table.defaultLimit fault := by
  have reachable : Registry.shelves.Reachable := by
    exact .declared (.declared .refl _ _ _ _) _ _ _ _
  have closed : Registry.shelves.Closed := by decide +kernel
  have declared : Registry.shelves.Published ⟨12⟩ := by decide +kernel
  have names : ((Table.build ⟨12⟩ Table.defaultLimit).eval Registry.shelves).1.toOption.map
      (·.names .read) = some ["b"] := by cbv
  obtain ⟨t, grown, built, names⟩ := Growing.exists_eval_of_map names
  obtain ⟨_, _, done, -, still, -, results⟩ :=
    nothing_dangles reachable closed declared Table.defaultLimit
  obtain ⟨rfl, rfl⟩ := Prod.mk.inj (done.symm.trans built)
  obtain ⟨covered, paths⟩ := results t rfl
  refine ⟨reachable, closed, t, _, built, names, covered, fun path query => ?_⟩
  have grown_reachable := reachable.interns ((build_lasting ⟨12⟩ _).interns_of_eval built)
  obtain ⟨outcome, later, follows, faults, -⟩ :=
    paths _ Table.defaultLimit true [] grown_reachable (.refl _) still path query
  exact ⟨outcome, later, follows, faults⟩

end PropertyTables
