import PropertyTables.Proofs.Catalog.History
import PropertyTables.Proofs.Navigation.Paths
import PropertyTables.Proofs.Table.Faults

/-! # Reading along paths

* `readTypeFrom_append`: what several segments read is read from the table of what the first of
  them read.
* `Browsing.finds`: a computation of which only this counts, whether it ends for want of a property.
  `canReadFrom_eq` says that asking whether a path can be read is this, for reading its type.
* `reading_lawful`: a path may be cut at any dot, and the two queries agree.
-/

namespace PropertyTables
set_option autoImplicit false

variable {α β : Type}

/-! ## Whether a property is missing -/

/-- Whether a table has been asked for a property that it does not have. -/
def Fault.isMissing : Fault → Bool
  | .propertyNotFound .. => true
  | _ => false

theorem Fault.isMissing_iff {fault : Fault} : fault.isMissing = true ↔
    ∃ side property owner, fault = .propertyNotFound side property owner := by
  cases fault <;> simp [isMissing]

theorem Fault.OfAnyBuild.not_missing {limit : Nat} {fault : Fault}
    (h : Fault.OfAnyBuild limit fault) : fault.isMissing = false := by
  obtain _ | ⟨_ | _ | _⟩ := h <;> rfl

/-- What an outcome says if only this counts, whether it is for want of a property that there is no
result. -/
def existence : Except Fault α → Except Fault Bool
  | .ok _ => .ok true
  | .error fault => if fault.isMissing then .ok false else .error fault

theorem existence_eq_true {x : Except Fault α} : existence x = .ok true ↔ ∃ a, x = .ok a := by
  cases x with
  | ok a => simp [existence]
  | error fault => cases missing : fault.isMissing <;> simp [existence, missing]

theorem existence_eq_false {x : Except Fault α} :
    existence x = .ok false ↔ ∃ fault, x = .error fault ∧ fault.isMissing = true := by
  cases x with
  | ok a => simp [existence]
  | error fault => cases missing : fault.isMissing <;> simp [existence, missing]

theorem existence_eq_error {x : Except Fault α} {fault : Fault} :
    existence x = .error fault ↔ x = .error fault ∧ fault.isMissing = false := by
  cases x with
  | ok a => simp [existence]
  | error other =>
    cases missing : other.isMissing with
    | true =>
      simp only [existence, missing, if_true, reduceCtorEq, Except.error.injEq, false_iff, not_and]
      rintro rfl
      simp [missing]
    | false =>
      simp only [existence, missing, Bool.false_eq_true, if_false, Except.error.injEq]
      constructor
      · rintro rfl
        exact ⟨rfl, missing⟩
      · exact And.left

namespace Browsing

theorem ext {x y : Browsing α} (h : ∀ lib, x.eval lib = y.eval lib) : x = y := funext h

/-- Whether a computation gets to a result, or ends for want of a property. -/
def finds (x : Browsing α) : Browsing Bool :=
  ExceptT.mk fun lib => (existence (x.eval lib).1, (x.eval lib).2)

theorem eval_finds (x : Browsing α) (lib : Library) :
    x.finds.eval lib = (existence (x.eval lib).1, (x.eval lib).2) := rfl

/-- Whether all faults of a computation, in whatever library, are among those `allowed`. -/
def FailsOnly (allowed : Fault → Prop) (x : Browsing α) : Prop :=
  ∀ lib, PropertyTables.FailsOnly allowed (x.eval lib).1

theorem finds_bind {x : Browsing α} (present : x.FailsOnly (·.isMissing = false))
    (f : α → Browsing β) : (x >>= f).finds = x >>= fun a => (f a).finds := by
  refine ext fun lib => ?_
  have here := present lib
  rw [eval_finds, eval_bind, eval_bind]
  rcases done : x.eval lib with ⟨fault | a, after⟩
  · have other := here fault (congrArg Prod.fst done)
    exact congrArg (·, after) (existence_eq_error.mpr ⟨rfl, other⟩)
  · rfl

end Browsing

theorem findTable_failsOnly (type : TypeId) :
    (findTable type).FailsOnly (·.isMissing = false) := by
  intro lib
  cases found : lib.catalog.find? type with
  | some held =>
    rw [findTable_kept found]
    exact .ok held
  | none =>
    have built := build_failsOnly type lib.catalog.limit lib.registry
    rw [findTable_built found]
    rcases done : (Table.build type lib.catalog.limit).eval lib.registry with ⟨fault | table, grown⟩
    · exact .error (built fault (congrArg Prod.fst done)).not_missing
    · exact .ok _

/-! ## Segments -/

namespace Table
variable (t : Table) (s : Segment)

theorem segmentType_cases :
    (t.has .read s.name = true ∧ ∃ type, t.segmentType s = .ok type) ∨
      t.has .read s.name = false ∧
        t.segmentType s = .error (.propertyNotFound .read s.name t.name) := by
  rw [has, Index.contains, segmentType, entry]
  cases (t.entries .read).find? s.name with
  | none => exact .inr ⟨rfl, rfl⟩
  | some e =>
    refine .inl ⟨rfl, ?_⟩
    cases s.index with
    | none => exact ⟨e.type, rfl⟩
    | some index => exact ⟨e.generic.element?.getD e.type, rfl⟩

theorem segmentTable_bind (f : Table → Browsing α) : t.segmentTable s >>= f =
    (do f (← findTable (← Browsing.lift (t.segmentType s))).table) := by
  rw [segmentTable]
  simp only [bind_assoc, pure_bind]

/-! ## Whole paths -/

theorem readTypeFrom_append (rest : List Segment) (next : Segment) (more : List Segment) :
    t.readTypeFrom s (rest ++ next :: more) =
      (do (← findTable (← t.readTypeFrom s rest)).table.readTypeFrom next more) := by
  induction rest generalizing t s with
  | nil => exact t.segmentTable_bind s _
  | cons s' rest ih =>
    rw [List.cons_append, readTypeFrom, readTypeFrom, bind_assoc]
    exact congrArg _ (funext fun table => ih table s')

theorem canReadFrom_eq (rest : List Segment) :
    t.canReadFrom s rest = (t.readTypeFrom s rest).finds := by
  induction rest generalizing t s with
  | nil =>
    rw [canReadFrom, readTypeFrom]
    rcases t.segmentType_cases s with ⟨has, type, read⟩ | ⟨hasNot, missing⟩
    · rw [has, read]
      rfl
    · rw [hasNot, missing]
      rfl
  | cons next rest ih =>
    rw [canReadFrom, readTypeFrom]
    rcases t.segmentType_cases s with ⟨has, type, read⟩ | ⟨hasNot, missing⟩
    · have along {γ : Type} (f : Table → Browsing γ) :
          t.segmentTable s >>= f = findTable type >>= fun held => f held.table := by
        rw [segmentTable_bind, read]
        rfl
      rw [has, if_pos rfl, along, along, Browsing.finds_bind (findTable_failsOnly type)]
      exact congrArg _ (funext fun held => ih held.table next)
    · rw [hasNot, segmentTable, missing]
      rfl

theorem readType_dot (q r : String) : t.readType (q ++ "." ++ r) =
    (do (← findTable (← t.readType q)).table.readType r) := by
  rw [readType, Path.ofText_dot]
  exact t.readTypeFrom_append _ _ _ _

theorem canRead_eq (path : String) : t.canRead path = (t.readType path).finds :=
  t.canReadFrom_eq _ _

theorem canRead_dot (q r : String) (lib : Library) : (t.canRead (q ++ "." ++ r)).eval lib =
    match (t.canRead q).eval lib with
    | (.ok true, _) => Browsing.eval (do (← findTable (← t.readType q)).table.canRead r) lib
    | outcome => outcome := by
  simp only [canRead_eq]
  rw [readType_dot, Browsing.eval_finds, Browsing.eval_finds, Browsing.eval_bind,
    Browsing.eval_bind]
  rcases (t.readType q).eval lib with ⟨fault | type, after⟩
  · cases missing : fault.isMissing <;> simp [existence, missing]
  · show ((findTable type >>= fun held => held.table.readType r).finds).eval after = _
    rw [Browsing.finds_bind (findTable_failsOnly type)]
    rfl

end Table

/-! ## Asking one thing after another -/

variable {limit : Nat}

theorem Library.Alike.answers {a b : Library} (h : Library.Alike limit a b) {view : α → β}
    {x : Browsing α} (hx : Transparent limit view x) :
    (x.eval a).1.map view = (x.eval b).1.map view := by
  obtain ⟨y, -, follows⟩ := hx
  obtain ⟨left, -⟩ := follows a h.sound_left h.limit_left
  obtain ⟨right, -⟩ := follows b h.sound_right h.limit_right
  rw [← h.registry] at right
  exact congrArg Prod.fst (left.trans right.symm)

/-- A question asked twice is answered twice in the same way. -/
theorem Transparent.again {x : Browsing α} (hx : Transparent limit id x) {lib : Library}
    (sound : lib.Sound) (same : lib.catalog.limit = limit) :
    (x.eval (x.eval lib).2).1 = (x.eval lib).1 ∧
      Library.Alike limit (x.eval lib).2 (x.eval (x.eval lib).2).2 := by
  obtain ⟨y, lasting, follows⟩ := hx
  obtain ⟨first, sound, same⟩ := follows lib sound same
  obtain ⟨second, sound_after, same_after⟩ := follows _ sound same
  rw [Except.map_id, id] at first second
  have repeated := second.trans (lasting.again first.symm)
  obtain ⟨answer, registry⟩ := Prod.mk.inj repeated
  exact ⟨answer, sound, sound_after, same, same_after, registry.symm⟩

namespace Table
variable (t : Table) {lib : Library}

theorem readType_transparent (path : String) : Transparent limit id (t.readType path) :=
  t.readTypeFrom_transparent limit _ _

theorem canRead_transparent (path : String) : Transparent limit id (t.canRead path) :=
  t.canReadFrom_transparent limit _ _

theorem canRead_after (path : String) (lib : Library) :
    ((t.canRead path).eval lib).2 = ((t.readType path).eval lib).2 := by
  rw [canRead_eq, Browsing.eval_finds]

theorem readType_after_canRead (sound : lib.Sound) (path : String) :
    ((t.readType path).eval ((t.canRead path).eval lib).2).1 = ((t.readType path).eval lib).1 := by
  rw [canRead_after]
  exact ((t.readType_transparent path).again sound rfl).1

theorem canRead_after_readType (sound : lib.Sound) (path : String) :
    ((t.canRead path).eval ((t.readType path).eval lib).2).1 = ((t.canRead path).eval lib).1 := by
  rw [← canRead_after]
  exact ((t.canRead_transparent path).again sound rfl).1

theorem canRead_next_transparent (type : TypeId) (path : String) : Transparent limit id
    (findTable type >>= fun held => held.table.canRead path) :=
  Transparent.bind (f := fun table => table.canRead path) (findTable_transparent limit type)
    fun table => table.canRead_transparent path

/-- Whether a longer path can be read, found out step by step. -/
theorem canRead_steps (sound : lib.Sound) (q r : String) :
    ((t.canRead (q ++ "." ++ r)).eval lib).1 = (Browsing.eval (do
      if ← t.canRead q then (← findTable (← t.readType q)).table.canRead r
      else return false) lib).1 := by
  have asked : (t.canRead q).eval lib = (t.readType q).finds.eval lib := by rw [canRead_eq]
  rw [Browsing.eval_finds] at asked
  rw [canRead_dot, Browsing.eval_bind (t.canRead q), asked]
  obtain ⟨again, alike⟩ := (t.readType_transparent q).again sound rfl
  rcases done : (t.readType q).eval lib with ⟨fault | type, after⟩
  · cases missing : fault.isMissing with
    | true =>
      rw [existence_eq_false.mpr ⟨fault, rfl, missing⟩]
      rfl
    | false => rw [existence_eq_error.mpr ⟨rfl, missing⟩]
  · -- the first question leaves the library as reading the type does, so the type is read again
    rw [done] at again alike
    let next (type : TypeId) := findTable type >>= fun held => held.table.canRead r
    show (Browsing.eval (t.readType q >>= next) lib).1 =
      (Browsing.eval (t.readType q >>= next) after).1
    rw [Browsing.eval_bind, Browsing.eval_bind, done]
    rcases repeated : (t.readType q).eval after with ⟨fault | type', last⟩
    · rw [repeated] at again
      cases again
    · rw [repeated] at again alike
      cases again
      simpa only [Except.map_id, id] using alike.answers (canRead_next_transparent type r)

end Table

/-! ## The laws of reading -/

/-- How reading along paths from a table behaves. What is said of one library holds of every
library, whatever tables it keeps; the last three laws are about libraries as calls leave them. -/
structure Table.ReadsLawfully (t : Table) : Prop where
  /-- After a dot, the way goes on from the table of the type that was read so far. This is an
  equality of computations: faults and lookups are the same as well. -/
  readType_dot : ∀ q r, t.readType (q ++ "." ++ r) =
    (do (← findTable (← t.readType q)).table.readType r)
  /-- A longer path can be read if its beginning can and the end can from there; if the beginning
  cannot, or its tables cannot be built, that is the answer. -/
  canRead_dot : ∀ q r lib, (t.canRead (q ++ "." ++ r)).eval lib =
    match (t.canRead q).eval lib with
    | (.ok true, _) => Browsing.eval (do (← findTable (← t.readType q)).table.canRead r) lib
    | outcome => outcome
  readable : ∀ path lib, ((t.canRead path).eval lib).1 = .ok true ↔
    ∃ type, ((t.readType path).eval lib).1 = .ok type
  missing : ∀ path lib, ((t.canRead path).eval lib).1 = .ok false ↔
    ∃ side property owner,
      ((t.readType path).eval lib).1 = .error (.propertyNotFound side property owner)
  /-- Building a table fails in the same way for both queries. -/
  fails : ∀ path lib fault, ((t.canRead path).eval lib).1 = .error fault ↔
    ((t.readType path).eval lib).1 = .error fault ∧
      ∀ side property owner, fault ≠ .propertyNotFound side property owner
  /-- The same as `canRead_dot`, one question asked after the other. -/
  canRead_steps : ∀ r₀ limit enabled calls q r,
    let lib := (Library.fresh r₀ limit enabled).afterAll calls
    ((t.canRead (q ++ "." ++ r)).eval lib).1 = (Browsing.eval (do
      if ← t.canRead q then (← findTable (← t.readType q)).table.canRead r
      else return false) lib).1
  /-- Neither query changes the answer to the other. -/
  readType_after : ∀ r₀ limit enabled calls path,
    let lib := (Library.fresh r₀ limit enabled).afterAll calls
    ((t.readType path).eval ((t.canRead path).eval lib).2).1 = ((t.readType path).eval lib).1
  canRead_after : ∀ r₀ limit enabled calls path,
    let lib := (Library.fresh r₀ limit enabled).afterAll calls
    ((t.canRead path).eval ((t.readType path).eval lib).2).1 = ((t.canRead path).eval lib).1

theorem Library.afterAll_sound (r : Registry) (limit : Nat) (enabled : Bool)
    (calls : List Library.Call) : ((fresh r limit enabled).afterAll calls).Sound :=
  ((fresh_recorded r limit enabled).run (run_history _ calls)).sound

/-- The type of a path may be read piece by piece, and a path can be read if it has a type. -/
theorem reading_lawful (t : Table) : t.ReadsLawfully where
  readType_dot := t.readType_dot
  canRead_dot := t.canRead_dot
  readable path lib := by
    rw [Table.canRead_eq, Browsing.eval_finds]
    exact existence_eq_true
  missing path lib := by
    rw [Table.canRead_eq, Browsing.eval_finds]
    refine existence_eq_false.trans ⟨?_, ?_⟩
    · rintro ⟨fault, failed, missing⟩
      obtain ⟨side, property, owner, rfl⟩ := Fault.isMissing_iff.mp missing
      exact ⟨side, property, owner, failed⟩
    · rintro ⟨side, property, owner, failed⟩
      exact ⟨_, failed, rfl⟩
  fails path lib fault := by
    have other : fault.isMissing = false ↔
        ∀ side property owner, fault ≠ .propertyNotFound side property owner := by
      rw [← Bool.not_eq_true, Fault.isMissing_iff]
      simp only [not_exists, ne_eq]
    rw [Table.canRead_eq, Browsing.eval_finds, ← other]
    exact existence_eq_error
  canRead_steps r₀ limit enabled calls :=
    t.canRead_steps (Library.afterAll_sound r₀ limit enabled calls)
  readType_after r₀ limit enabled calls :=
    t.readType_after_canRead (Library.afterAll_sound r₀ limit enabled calls)
  canRead_after r₀ limit enabled calls :=
    t.canRead_after_readType (Library.afterAll_sound r₀ limit enabled calls)

end PropertyTables
