import PropertyTables.Proofs.Navigation.Reading

/-! # Writing along paths

* `Table.Leads`: the tables that some properties lead through, each read from the one before.
* `writeTypeFrom_eval`, `canWriteFrom_eval`: what succeeds from a table, as ways through tables.
* `canWrite_agrees_iff`: a path has a type to write if it leads to a table that can write the last
  property, but passes for writable only if the tables on the way can write what is read from them.
  On the path of `canWrite_denies` one of them cannot.
* `writeType_follows_names`: writing goes on from the type that the names read, without their
  indexes. On the path of `writeType_ignores_index` these would lead elsewhere.
-/

namespace PropertyTables
set_option autoImplicit false

variable {α β : Type}

theorem Browsing.bind_eval_ok {x : Browsing α} {f : α → Browsing β} {lib after : Library} {b : β} :
    (x >>= f).eval lib = (.ok b, after) ↔
      ∃ a middle, x.eval lib = (.ok a, middle) ∧ (f a).eval middle = (.ok b, after) := by
  rw [eval_bind]
  rcases x.eval lib with ⟨fault | a, middle⟩
  · simp
  · constructor
    · exact fun done => ⟨a, middle, rfl, done⟩
    · rintro ⟨_, _, first, second⟩
      cases first
      exact second

theorem Browsing.bind_eval_error {x : Browsing α} {f : α → Browsing β} {lib after : Library}
    {fault : Fault} :
    (x >>= f).eval lib = (.error fault, after) ↔ x.eval lib = (.error fault, after) ∨
      ∃ a middle, x.eval lib = (.ok a, middle) ∧ (f a).eval middle = (.error fault, after) := by
  rw [eval_bind]
  rcases x.eval lib with ⟨cause | a, middle⟩
  · simp
  · constructor
    · exact fun failed => .inr ⟨a, middle, rfl, failed⟩
    · rintro (failed | ⟨_, _, first, failed⟩)
      · cases failed
      · cases first
        exact failed

theorem Browsing.fst_eval_eq_ok {x : Browsing α} {lib : Library} {a : α} :
    (x.eval lib).1 = .ok a ↔ ∃ after, x.eval lib = (.ok a, after) := by
  constructor
  · exact fun done => ⟨_, Prod.ext done rfl⟩
  · rintro ⟨after, done⟩
    exact congrArg Prod.fst done

theorem map_eq_ok {x : Except Fault α} {f : α → β} {b : β} :
    x.map f = .ok b ↔ ∃ a, x = .ok a ∧ f a = b := by
  cases x <;> simp [Except.map]

namespace Table

/-! ## The way through tables -/

/-- Property by property, the way leads from one table to another: each name is readable in its
table, and the table of its type is the next. The library hands out the tables in turn. -/
inductive Leads : Library → Table → List (Table × String) → Library → Table → Prop
  | here (lib : Library) (t : Table) : Leads lib t [] lib t
  | along {lib middle after : Library} {t last : Table} {name : String} {e : Entry} {held : Held}
      {steps : List (Table × String)} (readable : t.entry .read name = .ok e)
      (found : (findTable e.type).eval lib = (.ok held, middle))
      (rest : Leads middle held.table steps after last) :
      Leads lib t ((t, name) :: steps) after last

theorem Leads.unique {lib after after' : Library} {t last last' : Table}
    {steps steps' : List (Table × String)} (one : Leads lib t steps after last)
    (other : Leads lib t steps' after' last') (same : steps.map (·.2) = steps'.map (·.2)) :
    steps = steps' ∧ after = after' ∧ last = last' := by
  induction one generalizing steps' with
  | here lib t =>
    cases other with
    | here => exact ⟨rfl, rfl, rfl⟩
    | along => cases same
  | along readable found _ ih =>
    cases other with
    | here => cases same
    | along readable' found' rest' =>
      obtain ⟨name, names⟩ := List.cons.inj same
      obtain rfl : _ = _ := name
      cases readable.symm.trans readable'
      cases found.symm.trans found'
      obtain ⟨rfl, rfl, rfl⟩ := ih rest' names
      exact ⟨rfl, rfl, rfl⟩

variable {t : Table} {s next : Segment} {rest : List Segment} {lib after : Library}

theorem propertyTable_eval {name : String} {held : Held} :
    (t.propertyTable name).eval lib = (.ok held, after) ↔
      ∃ e, t.entry .read name = .ok e ∧ (findTable e.type).eval lib = (.ok held, after) := by
  rw [propertyTable, Browsing.bind_eval_ok]
  constructor
  · rintro ⟨e, middle, readable, found⟩
    rw [Browsing.eval_lift, Prod.mk.injEq] at readable
    obtain ⟨readable, rfl⟩ := readable
    exact ⟨e, readable, found⟩
  · rintro ⟨e, readable, found⟩
    exact ⟨e, lib, congrArg (·, lib) readable, found⟩

theorem leads_cons {name : String} {names : List String}
    {P : List (Table × String) → Table → Prop} :
    (∃ steps last, Leads lib t steps after last ∧ steps.map (·.2) = name :: names ∧ P steps last) ↔
      ∃ held middle, (t.propertyTable name).eval lib = (.ok held, middle) ∧
        ∃ steps last, Leads middle held.table steps after last ∧ steps.map (·.2) = names ∧
          P ((t, name) :: steps) last := by
  constructor
  · rintro ⟨_, last, leads, named, holds⟩
    cases leads with
    | here => cases named
    | along readable found rest =>
      obtain ⟨rfl, others⟩ := List.cons.inj named
      exact ⟨_, _, propertyTable_eval.mpr ⟨_, readable, found⟩, _, last, rest, others, holds⟩
  · rintro ⟨held, middle, looked, steps, last, leads, named, holds⟩
    obtain ⟨e, readable, found⟩ := propertyTable_eval.mp looked
    exact ⟨_, last, .along readable found leads, congrArg (name :: ·) named, holds⟩

theorem leads_nil {P : List (Table × String) → Table → Prop} :
    (∃ steps last, Leads lib t steps after last ∧ steps.map (·.2) = [] ∧ P steps last) ↔
      after = lib ∧ P [] t := by
  constructor
  · rintro ⟨_, _, leads, named, holds⟩
    cases leads with
    | here => exact ⟨rfl, holds⟩
    | along => cases named
  · rintro ⟨rfl, holds⟩
    exact ⟨[], t, .here _ t, rfl, holds⟩

/-! ## What can be written -/

theorem writeTypeFrom_eval {type : TypeId} :
    (t.writeTypeFrom s rest).eval lib = (.ok type, after) ↔
      ∃ steps last, Leads lib t steps after last ∧ steps.map (·.2) = Path.way ⟨s, rest⟩ ∧
        ∃ e, last.entry .write (Path.goal ⟨s, rest⟩) = .ok e ∧ e.type = type := by
  induction rest generalizing t s lib with
  | nil =>
    refine Iff.trans ?_ leads_nil.symm
    rw [writeTypeFrom, Browsing.eval_lift, Prod.mk.injEq, map_eq_ok, eq_comm (a := lib), and_comm]
    rfl
  | cons next rest ih =>
    rw [writeTypeFrom, Browsing.bind_eval_ok]
    refine Iff.trans ?_ leads_cons.symm
    simp only [ih]
    rfl

theorem canWriteFrom_eval :
    (t.canWriteFrom s rest).eval lib = (.ok true, after) ↔
      ∃ steps last, Leads lib t steps after last ∧ steps.map (·.2) = Path.way ⟨s, rest⟩ ∧
        (∀ step ∈ steps, step.1.has .write step.2 = true) ∧
          last.has .write (Path.goal ⟨s, rest⟩) = true := by
  induction rest generalizing t s lib with
  | nil =>
    refine Iff.trans ?_ leads_nil.symm
    show ((.ok (t.has .write s.name) : Except Fault Bool), lib) = (.ok true, after) ↔ _
    rw [Prod.mk.injEq, Except.ok.injEq, eq_comm (a := lib), and_comm]
    simp only [List.not_mem_nil, false_implies, implies_true, true_and]
    rfl
  | cons next rest ih =>
    rw [canWriteFrom]
    cases writable : t.has .write s.name with
    | false =>
      -- the answer is no at once, even where the way would lead on
      refine iff_of_false (fun granted => ?_) ?_
      · cases granted
      · rintro ⟨_, _, leads, named, all, -⟩
        cases leads with
        | here => cases named
        | along =>
          obtain ⟨rfl, -⟩ := List.cons.inj named
          exact Bool.false_ne_true (writable.symm.trans (all _ List.mem_cons_self))
    | true =>
      rw [if_pos rfl, Browsing.bind_eval_ok]
      refine Iff.trans ?_ leads_cons.symm
      simp only [ih, List.forall_mem_cons, writable, true_and]
      rfl

/-- From a table the names of a path, the last one left out, lead to the table `last`, by way of the
given tables and properties. -/
def Reaches (t : Table) (lib : Library) (path : String) (steps : List (Table × String))
    (last : Table) : Prop :=
  ∃ after, Leads lib t steps after last ∧ steps.map (·.2) = (Path.ofText path).way

theorem Reaches.unique {path : String} {steps steps' : List (Table × String)} {last last' : Table}
    (one : t.Reaches lib path steps last) (other : t.Reaches lib path steps' last') :
    steps = steps' ∧ last = last' := by
  obtain ⟨_, leads, named⟩ := one
  obtain ⟨_, leads', named'⟩ := other
  obtain ⟨rfl, -, rfl⟩ := leads.unique leads' (named.trans named'.symm)
  exact ⟨rfl, rfl⟩

theorem exists_reaches {path : String} {P : List (Table × String) → Table → Prop} :
    (∃ steps last, t.Reaches lib path steps last ∧ P steps last) ↔ ∃ after steps last,
      Leads lib t steps after last ∧ steps.map (·.2) = (Path.ofText path).way ∧ P steps last := by
  constructor
  · rintro ⟨steps, last, ⟨after, leads, named⟩, holds⟩
    exact ⟨after, steps, last, leads, named, holds⟩
  · rintro ⟨after, steps, last, leads, named, holds⟩
    exact ⟨steps, last, ⟨after, leads, named⟩, holds⟩

theorem writeType_iff {path : String} {type : TypeId} :
    ((t.writeType path).eval lib).1 = .ok type ↔ ∃ steps last, t.Reaches lib path steps last ∧
      ∃ e, last.entry .write (Path.ofText path).goal = .ok e ∧ e.type = type := by
  rw [Browsing.fst_eval_eq_ok, exists_reaches]
  exact exists_congr fun after => writeTypeFrom_eval

theorem has_iff {side : Side} {name : String} :
    t.has side name = true ↔ ∃ e, t.entry side name = .ok e := by
  rw [has, Index.contains, entry]
  cases (t.entries side).find? name <;> simp

theorem exists_writeType_iff {path : String} :
    (∃ type, ((t.writeType path).eval lib).1 = .ok type) ↔ ∃ steps last,
      t.Reaches lib path steps last ∧ last.has .write (Path.ofText path).goal = true := by
  simp only [writeType_iff, has_iff]
  constructor
  · rintro ⟨type, steps, last, reached, e, written, -⟩
    exact ⟨steps, last, reached, e, written⟩
  · rintro ⟨steps, last, reached, e, written⟩
    exact ⟨e.type, steps, last, reached, e, written, rfl⟩

theorem canWrite_iff_reaches {path : String} :
    ((t.canWrite path).eval lib).1 = .ok true ↔ ∃ steps last, t.Reaches lib path steps last ∧
      (∀ step ∈ steps, step.1.has .write step.2 = true) ∧
        last.has .write (Path.ofText path).goal = true := by
  rw [Browsing.fst_eval_eq_ok, exists_reaches]
  exact exists_congr fun after => canWriteFrom_eval

/-! ## The way on -/

theorem segmentType_bare (s : Segment) :
    t.segmentType s.bare = (do return (← t.entry .read s.name).type) := rfl

theorem propertyTable_bind (s : Segment) (f : Table → Browsing α) :
    (t.propertyTable s.name >>= fun held => f held.table) =
      (do f (← findTable (← Browsing.lift (t.segmentType s.bare))).table) := by
  refine Browsing.ext fun lib => ?_
  rw [propertyTable, segmentType_bare, bind_assoc, Browsing.eval_bind, Browsing.eval_bind,
    Browsing.eval_lift, Browsing.eval_lift]
  cases t.entry .read s.name <;> rfl

theorem writeTypeFrom_append (rest : List Segment) (next : Segment) (more : List Segment) :
    t.writeTypeFrom s (rest ++ next :: more) =
      (do let held ← findTable (← t.readTypeFrom s.bare (rest.map Segment.bare))
          held.table.writeTypeFrom next more) := by
  induction rest generalizing t s with
  | nil => exact t.propertyTable_bind s fun table => table.writeTypeFrom next more
  | cons s' rest ih =>
    rw [List.cons_append, writeTypeFrom, List.map_cons, readTypeFrom, segmentTable_bind,
      propertyTable_bind s fun table => table.writeTypeFrom s' (rest ++ next :: more)]
    simp only [ih, bind_assoc]

theorem writeType_dot (t : Table) (q r : String) : t.writeType (q ++ "." ++ r) =
    (do (← findTable (← t.readType (Path.withoutIndexes q))).table.writeType r) := by
  rw [writeType, Path.ofText_dot, readType, Path.ofText_withoutIndexes]
  exact writeTypeFrom_append _ _ _

end Table

/-! ## A tree -/

/-- Nodes of a tree. Their parent can only be read. -/
def Registry.tree : Registry :=
  (initial.declared "" "List" .interfaceType (·.withTypeParam ⟨"E", []⟩)).declared "" "Node"
    .classType fun d => ((d.getter "getUp" (.named ⟨12⟩)).privateField "kids"
      (.applied ⟨11⟩ [.named ⟨12⟩])).privateField "id" (.named .string)

/-- The table of the nodes, and the library that looked it up. -/
def Registry.treeTable : Except Fault Held × Library :=
  (findTable ⟨12⟩).eval (Library.fresh .tree Table.defaultLimit true)

theorem treeTable_answers : Registry.treeTable.1.toOption.map (fun held =>
      let asked {α : Type} (x : Browsing α) := (x.eval Registry.treeTable.2).1
      (asked (held.table.writeType "up.id"), asked (held.table.canWrite "up.id"),
        asked (held.table.readType "id"), asked (held.table.readType "id[0]"),
        asked (held.table.readType "kids[0]"), asked (held.table.readType "kids[0].id"),
        asked (held.table.writeType "kids[0].id"),
        asked (do (← findTable (← held.table.readType "kids[0]")).table.writeType "id"))) =
    some (.ok .string, .ok false, .ok .string, .ok .string, .ok ⟨12⟩, .ok .string,
      .error (.propertyNotFound .write "id" "List"), .ok .string) := by cbv

theorem exists_treeTable : ∃ held, Registry.treeTable.1 = .ok held ∧
    let asked {α : Type} (x : Browsing α) := (x.eval Registry.treeTable.2).1
    asked (held.table.writeType "up.id") = .ok .string ∧
    asked (held.table.canWrite "up.id") = .ok false ∧
    asked (held.table.readType "id") = .ok .string ∧
    asked (held.table.readType "id[0]") = .ok .string ∧
    asked (held.table.readType "kids[0]") = .ok ⟨12⟩ ∧
    asked (held.table.readType "kids[0].id") = .ok .string ∧
    asked (held.table.writeType "kids[0].id") = .error (.propertyNotFound .write "id" "List") ∧
    asked (do (← findTable (← held.table.readType "kids[0]")).table.writeType "id") =
      .ok .string := by
  obtain ⟨held, found, answers⟩ := Option.map_eq_some_iff.mp treeTable_answers
  simp only [Prod.mk.injEq] at answers
  exact ⟨held, toOption_eq_some.mp found, answers⟩

/-! ## What passes for writable -/

/-- A path has a type to write if its names lead to a table that can write the last one. It passes
for writable if moreover every table on the way can write the property that is read from it. So the
two agree unless some table on the way cannot. -/
theorem canWrite_agrees_iff (t : Table) (path : String) (lib : Library) :
    ((∃ type, ((t.writeType path).eval lib).1 = .ok type) ↔
      ∃ steps last, t.Reaches lib path steps last ∧
        last.has .write (Path.ofText path).goal = true) ∧
    (((t.canWrite path).eval lib).1 = .ok true ↔
      ∃ steps last, t.Reaches lib path steps last ∧
        (∀ step ∈ steps, step.1.has .write step.2 = true) ∧
          last.has .write (Path.ofText path).goal = true) ∧
    ((((t.canWrite path).eval lib).1 = .ok true ↔
        ∃ type, ((t.writeType path).eval lib).1 = .ok type) ↔
      ∀ steps last, t.Reaches lib path steps last →
        last.has .write (Path.ofText path).goal = true →
          ∀ step ∈ steps, step.1.has .write step.2 = true) := by
  refine ⟨Table.exists_writeType_iff, Table.canWrite_iff_reaches, ?_⟩
  rw [Table.exists_writeType_iff, Table.canWrite_iff_reaches]
  constructor
  · intro agree steps last reached written
    obtain ⟨steps', last', reached', writable, -⟩ := agree.mpr ⟨steps, last, reached, written⟩
    obtain ⟨rfl, -⟩ := reached.unique reached'
    exact writable
  · intro writable
    constructor
    · rintro ⟨steps, last, reached, -, written⟩
      exact ⟨steps, last, reached, written⟩
    · rintro ⟨steps, last, reached, written⟩
      exact ⟨steps, last, reached, writable steps last reached written, written⟩

/-- On the way to writing the `id` of a node's parent, the parent is read and need not be written;
yet that it cannot be written is the answer. -/
theorem canWrite_denies :
    ∃ held last steps, Registry.treeTable.1 = .ok held ∧ '[' ∉ "up.id".toList ∧
      held.table.Reaches Registry.treeTable.2 "up.id" steps last ∧
      last.has .write (Path.ofText "up.id").goal = true ∧
      ((held.table.writeType "up.id").eval Registry.treeTable.2).1 = .ok .string ∧
      ((held.table.canWrite "up.id").eval Registry.treeTable.2).1 = .ok false := by
  obtain ⟨held, found, written, denied, -⟩ := exists_treeTable
  obtain ⟨steps, last, reached, writable⟩ := Table.exists_writeType_iff.mp ⟨_, written⟩
  exact ⟨held, last, steps, found, by decide, reached, writable, written, denied⟩

/-! ## Where writing goes on -/

/-- Writing goes on from the table of the type that the names of the beginning read. That is the
type that the beginning reads if it has no indexes, or if they make no difference. -/
theorem writeType_follows_names (t : Table) (q r : String) :
    (t.writeType (q ++ "." ++ r) =
      (do (← findTable (← t.readType (Path.withoutIndexes q))).table.writeType r)) ∧
    ('[' ∉ q.toList → t.writeType (q ++ "." ++ r) =
      (do (← findTable (← t.readType q)).table.writeType r)) ∧
    ∀ lib, (t.readType q).eval lib = (t.readType (Path.withoutIndexes q)).eval lib →
      (t.writeType (q ++ "." ++ r)).eval lib =
        Browsing.eval (do (← findTable (← t.readType q)).table.writeType r) lib := by
  refine ⟨t.writeType_dot q r, fun plain => ?_, fun lib same => ?_⟩
  · rw [t.writeType_dot, Path.withoutIndexes_of_notMem plain]
  · rw [t.writeType_dot, Browsing.eval_bind, Browsing.eval_bind, same]

theorem writeType_follows_names_tree :
    ∃ held, Registry.treeTable.1 = .ok held ∧ '[' ∉ "up".toList ∧
      held.table.writeType ("up" ++ "." ++ "id") =
        (do (← findTable (← held.table.readType "up")).table.writeType "id") ∧
      (held.table.readType "id[0]").eval Registry.treeTable.2 =
        (held.table.readType (Path.withoutIndexes "id[0]")).eval Registry.treeTable.2 ∧
      (held.table.writeType ("id[0]" ++ "." ++ "size")).eval Registry.treeTable.2 =
        Browsing.eval (do (← findTable (← held.table.readType "id[0]")).table.writeType "size")
          Registry.treeTable.2 := by
  obtain ⟨held, found, -, -, plain, indexed, -⟩ := exists_treeTable
  have unbracketed : '[' ∉ "up".toList := by decide
  have bare : Path.withoutIndexes "id[0]" = "id" := by decide +kernel
  have same : (held.table.readType "id[0]").eval Registry.treeTable.2 =
      (held.table.readType (Path.withoutIndexes "id[0]")).eval Registry.treeTable.2 := by
    rw [bare]
    exact Prod.ext (indexed.trans plain.symm) rfl
  obtain ⟨-, follows, -⟩ := writeType_follows_names held.table "up" "id"
  obtain ⟨-, -, agrees⟩ := writeType_follows_names held.table "id[0]" "size"
  exact ⟨held, found, unbracketed, follows unbracketed, same, agrees _ same⟩

/-- A child of a node is a node and its `id` can be written, but it is the list of children that is
asked for an `id`. -/
theorem writeType_ignores_index :
    ∃ held, Registry.treeTable.1 = .ok held ∧
      let asked {α : Type} (x : Browsing α) := (x.eval Registry.treeTable.2).1
      asked (held.table.readType "kids[0]") = .ok ⟨12⟩ ∧
      asked (held.table.readType "kids[0].id") = .ok .string ∧
      asked (do (← findTable (← held.table.readType "kids[0]")).table.writeType "id") =
        .ok .string ∧
      asked (held.table.writeType ("kids[0]" ++ "." ++ "id")) =
        .error (.propertyNotFound .write "id" "List") := by
  obtain ⟨held, found, -, -, -, -, element, read, missing, expected⟩ := exists_treeTable
  exact ⟨held, found, element, read, expected, missing⟩

end PropertyTables
