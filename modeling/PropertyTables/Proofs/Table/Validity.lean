import PropertyTables.Proofs.Table.Origins
import PropertyTables.Proofs.Table.Stored

/-! # Valid tables

* `LastNamed`, `Named`: the last of some names that have a certain upper case, and whether there is
  any.
* `Table.findName?_eq_some`: which name is found when case is ignored.
* `StoredTable.Valid`: what can be relied on in every stored table.
* `StoredTable.build_valid`: stored tables that are built are valid.
-/

namespace PropertyTables
set_option autoImplicit false

open Text (upper)

/-! ## The last of some sorted names -/

theorem findRev?_eq_some {l : List String} (sorted : l.Pairwise (· < ·)) {p : String → Bool}
    {c : String} :
    l.findRev? p = some c ↔ c ∈ l ∧ p c = true ∧ ∀ n ∈ l, p n = true → n ≤ c := by
  rw [List.findRev?_eq_find?_reverse, List.find?_eq_some_iff_append]
  constructor
  · rintro ⟨holds, after, before, split, none_after⟩
    have split : l = before.reverse ++ c :: after.reverse := by
      simpa using congrArg List.reverse split
    rw [split] at sorted ⊢
    refine ⟨by simp, holds, fun n member hn => ?_⟩
    obtain ⟨-, -, below⟩ := List.pairwise_append.mp sorted
    rcases List.mem_append.mp member with earlier | later
    · exact Std.le_of_lt (below n earlier c List.mem_cons_self)
    · rcases List.mem_cons.mp later with rfl | later
      · exact String.le_refl n
      · have := none_after n (List.mem_reverse.mp later)
        simp [hn] at this
  · rintro ⟨member, holds, last⟩
    obtain ⟨before, after, rfl⟩ := List.append_of_mem member
    refine ⟨holds, after.reverse, before.reverse, by simp, fun n later => ?_⟩
    have later := List.mem_reverse.mp later
    obtain ⟨-, above, -⟩ := List.pairwise_append.mp sorted
    have greater : c < n := List.rel_of_pairwise_cons above later
    have fails : ¬ p n = true := fun hn =>
      String.not_le.mpr greater (last n (by simp [later]) hn)
    simpa using fails

/-- Whether `c` is the last of the names that have the upper case of `x`. -/
def LastNamed (names : List String) (x c : String) : Prop :=
  c ∈ names ∧ upper c = upper x ∧ ∀ n ∈ names, upper n = upper x → n ≤ c

/-- Whether there is a name with the upper case of `x`. -/
def Named (names : List String) (x : String) : Prop := ∃ n ∈ names, upper n = upper x

section Names
variable {names : List String} {x c : String}

theorem findRev?_upper (sorted : names.Pairwise (· < ·)) :
    names.findRev? (fun n => upper n == upper x) = some c ↔ LastNamed names x c := by
  rw [findRev?_eq_some sorted]
  simp only [beq_iff_eq]
  rfl

theorem findRev?_upper_none :
    names.findRev? (fun n => upper n == upper x) = none ↔ ¬ Named names x := by
  simp [Named, List.findRev?_eq_find?_reverse]

theorem lastNamed_self (member : x ∈ names)
    (alone : ∀ n ∈ names, upper n = upper x → n = x) : LastNamed names x x :=
  ⟨member, rfl, fun n listed same => alone n listed same ▸ String.le_refl _⟩

end Names

/-! ## Finding names -/

namespace Table
variable {t : Table} {x c : String}

theorem names_sorted (t : Table) (side : Side) : (t.names side).Pairwise (· < ·) :=
  (t.entries side).names_sorted

theorem mem_names {side : Side} {name : String} :
    name ∈ t.names side ↔ ∃ e, t.entry side name = .ok e := by
  simp only [entry_eq_ok]
  exact Index.mem_names

theorem findName?_eq (t : Table) (x : String) :
    t.findName? x =
      ((t.names .write).findRev? fun n => upper n == upper x).or
        ((t.names .read).findRev? fun n => upper n == upper x) := by
  simp only [findName?, List.findRev?_eq_find?_reverse, List.reverse_append, List.find?_append]

theorem findName?_eq_some :
    t.findName? x = some c ↔ LastNamed (t.names .write) x c ∨
      ¬ Named (t.names .write) x ∧ LastNamed (t.names .read) x c := by
  rw [findName?_eq, Option.or_eq_some_iff, findRev?_upper (t.names_sorted .write),
    findRev?_upper (t.names_sorted .read), findRev?_upper_none]

theorem findName?_eq_none : t.findName? x = none ↔ ∀ side, ¬ Named (t.names side) x := by
  rw [findName?_eq, Option.or_eq_none_iff, findRev?_upper_none, findRev?_upper_none]
  constructor
  · rintro ⟨write, read⟩ side
    cases side with
    | read => exact read
    | write => exact write
  · exact fun none => ⟨none .write, none .read⟩

/-- A name that no other name has the upper case of stands for itself. -/
theorem findName?_self {side : Side} (member : x ∈ t.names side)
    (alone : ∀ side, ∀ n ∈ t.names side, upper n = upper x → n = x) :
    t.findName? x = some x := by
  rw [findName?_eq_some]
  by_cases writable : x ∈ t.names .write
  · exact .inl (lastNamed_self writable (alone .write))
  · cases side with
    | write => exact absurd member writable
    | read =>
      refine .inr ⟨?_, lastNamed_self member (alone .read)⟩
      rintro ⟨n, listed, same⟩
      exact writable (alone .write n listed same ▸ listed)

end Table

theorem not_excluded {name : String} (included : PropertyName.isExcluded name = false) :
    name ≠ "class" ∧ name ≠ "serialVersionUID" ∧ ¬ ['$'] <+: name.toList := by
  simp only [PropertyName.isExcluded, Bool.or_eq_false_iff, beq_eq_false_iff_ne] at included
  obtain ⟨⟨dollar, uid⟩, cls⟩ := included
  refine ⟨cls, uid, ?_⟩
  rintro ⟨rest, split⟩
  rw [← split] at dollar
  exact dollar rfl

/-! ## Validity -/

namespace StoredTable
variable {s : StoredTable} {t : Table}

/-- What can be relied on in every stored table, once it is built and however the registry grows. -/
structure Valid (r : Registry) (s : StoredTable) : Prop where
  sorted : ∀ side, (s.names side).Pairwise (· < ·)
  /-- The names of a side are those that each of its three maps has. -/
  invokers : ∀ side name, name ∈ s.names side ↔ ∃ i, s.invoker side name = .ok i
  types : ∀ side name, name ∈ s.names side ↔ ∃ type, s.typeOf side name = .ok type
  generics : ∀ side name, name ∈ s.names side ↔ ∃ generic, s.genericOf side name = .ok generic
  has : ∀ side name, s.has side name = true ↔ name ∈ s.names side
  /-- What the three maps have under one name fits together. -/
  erased : ∀ side name type generic, s.typeOf side name = .ok type →
    s.genericOf side name = .ok generic →
      ∀ later, r.GrowsTo later → generic.erase.eval later = (.ok type, later)
  valueType : ∀ side name i type, s.invoker side name = .ok i → s.typeOf side name = .ok type →
    i.valueType = type
  included : ∀ side, ∀ name ∈ s.names side,
    name ≠ "class" ∧ name ≠ "serialVersionUID" ∧ ¬ ['$'] <+: name.toList
  /-- Of the names with one upper case the last writable one is found, or the last readable one. -/
  found : ∀ x c, s.findName? x = some c ↔ LastNamed (s.names .write) x c ∨
    ¬ Named (s.names .write) x ∧ LastNamed (s.names .read) x c
  missing : ∀ x, s.findName? x = none ↔ ∀ side, ¬ Named (s.names side) x
  itself : ∀ side, ∀ x ∈ s.names side,
    (∀ side, ∀ n ∈ s.names side, upper n = upper x → n = x) → s.findName? x = some x

namespace Represents

/-- A name has an entry if some part of it is found. -/
theorem mem_names {α : Type} {part : Entry → α} (h : s.Represents t) {side : Side} {name : String}
    {answer : Except Fault α} (same : answer = (t.entry side name).map part) :
    name ∈ s.names side ↔ ∃ a, answer = .ok a := by
  rw [h.names, Table.mem_names, same]
  cases t.entry side name <;> simp [Except.map]

theorem entry_of_ok {α : Type} {part : Entry → α} {answer : Except Fault α} {a : α} {side : Side}
    {name : String} (same : answer = (t.entry side name).map part) (ok : answer = .ok a) :
    ∃ e, (t.entries side).find? name = some e ∧ part e = a := by
  rw [same] at ok
  cases found : t.entry side name with
  | error fault =>
    rw [found] at ok
    cases ok
  | ok e =>
    rw [found] at ok
    exact ⟨e, Table.entry_eq_ok.mp found, Except.ok.inj ok⟩

end Represents

theorem build_valid {type : TypeId} {limit : Nat} {r grown : Registry}
    (done : (build type limit).eval r = (.ok s, grown)) : s.Valid grown := by
  obtain ⟨t, built, h⟩ := (build_refines type limit).follows done
  exact {
    sorted := fun side => by
      rw [h.names]
      exact t.names_sorted side
    invokers := fun side name => h.mem_names (h.invoker side name)
    types := fun side name => h.mem_names (h.typeOf side name)
    generics := fun side name => h.mem_names (h.genericOf side name)
    has := fun side name => by
      rw [h.names, h.has, Table.has, Index.contains, Option.isSome_iff_exists]
      exact Index.mem_names.symm
    erased := fun side name type generic ok ok' later grows => by
      obtain ⟨e, found, rfl⟩ := Represents.entry_of_ok (h.typeOf side name) ok
      obtain ⟨e', found', rfl⟩ := Represents.entry_of_ok (h.genericOf side name) ok'
      obtain rfl := Option.some.inj (found.symm.trans found')
      have erased := (Table.build_origins built side name e found).2.erased
      exact e.generic.erase_lasting.lasts grown e.type grown later erased grows
    valueType := fun side name i type ok ok' => by
      obtain ⟨e, found, rfl⟩ := Represents.entry_of_ok (h.invoker side name) ok
      obtain ⟨e', found', rfl⟩ := Represents.entry_of_ok (h.typeOf side name) ok'
      obtain rfl := Option.some.inj (found.symm.trans found')
      exact (Table.build_origins built side name e found).2.valueType
    included := fun side name member => by
      obtain ⟨e, found⟩ := Index.mem_names.mp (h.names side ▸ member)
      exact not_excluded (Table.build_origins built side name e found).1
    found := fun x c => by
      rw [h.found, h.names, h.names]
      exact Table.findName?_eq_some
    missing := fun x => by
      simp only [h.found, h.names]
      exact Table.findName?_eq_none
    itself := fun side x member alone => by
      simp only [h.names] at member alone
      rw [h.found]
      exact Table.findName?_self member alone }

end StoredTable

/-- A class with two properties that differ in case only, of which one cannot be written. -/
def Registry.keyed : Registry :=
  initial.declared "" "Keyed" .classType fun d =>
    ((d.withTypeParam ⟨"K", []⟩).getter "getKey" (.typeVar "K")).privateField "KEY"
      (.array (.named .string))

theorem StoredTable.build_valid_keyed :
    ∃ table grown,
      (StoredTable.build ⟨11⟩ Table.defaultLimit).eval Registry.keyed = (.ok table, grown) ∧
      table.Valid grown ∧ table.names .read = ["KEY", "key"] ∧ table.names .write = ["KEY"] ∧
      table.findName? "Key" = some "KEY" := by
  have built : ((Table.build ⟨11⟩ Table.defaultLimit).eval Registry.keyed).1.toOption.map
      (fun table => (table.names .read, table.names .write, table.findName? "Key")) =
        some (["KEY", "key"], ["KEY"], some "KEY") := by cbv
  obtain ⟨table, grown, done, fits⟩ := Growing.exists_eval_of_map built
  obtain ⟨readable, others⟩ := Prod.mk.inj fits
  obtain ⟨writable, found⟩ := Prod.mk.inj others
  obtain ⟨stored, done, h⟩ := (StoredTable.build_refines ⟨11⟩ Table.defaultLimit).leads done
  exact ⟨stored, grown, done, StoredTable.build_valid done, (h.names .read).trans readable,
    (h.names .write).trans writable, (h.found "Key").trans found⟩

end PropertyTables
