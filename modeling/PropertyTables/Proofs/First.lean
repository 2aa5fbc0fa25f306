import Mathlib.Data.List.Basic

/-! # First elements

* `FirstIn P l a`: `a` is the first element of `l` that satisfies `P`; `FirstIn.split` gives what
  comes before it.
* `FirstIn.append`, `FirstIn.after`, `FirstIn.unique`: it stays the first when the list is continued,
  or when others come before, and is the only one.
* `FirstIn.of_append`, `FirstIn.of_flatMap`: the first of several lists together.
* `FirstIn.exists_of_mem`: there is one as soon as some element satisfies `P`.
* `FirstIn.map`, `FirstIn.find?`: images of first elements, and the search that finds them.
* `OnlyIn P l a`: `a` stands in the list once, and nothing else there satisfies `P`.
-/

namespace PropertyTables
set_option autoImplicit false

variable {α : Type} {P : α → Prop}

/-- The first element of a list that satisfies a predicate. -/
inductive FirstIn (P : α → Prop) : List α → α → Prop
  | here {a : α} (l : List α) (h : P a) : FirstIn P (a :: l) a
  | later {a b : α} {l : List α} (passed : ¬ P b) (h : FirstIn P l a) : FirstIn P (b :: l) a

namespace FirstIn
variable {l : List α} {a b : α}

theorem holds (h : FirstIn P l a) : P a := by
  induction h with
  | here l h => exact h
  | later _ _ ih => exact ih

theorem mem (h : FirstIn P l a) : a ∈ l := by
  induction h with
  | here l h => exact List.mem_cons_self
  | later _ _ ih => exact List.mem_cons_of_mem _ ih

theorem split (h : FirstIn P l a) :
    ∃ before after, l = before ++ a :: after ∧ ∀ b ∈ before, ¬ P b := by
  induction h with
  | here l h => exact ⟨[], l, rfl, by simp⟩
  | @later a b l passed _ ih =>
    obtain ⟨before, after, rfl, first⟩ := ih
    exact ⟨b :: before, after, rfl, List.forall_mem_cons.mpr ⟨passed, first⟩⟩

theorem unique (ha : FirstIn P l a) (hb : FirstIn P l b) : a = b := by
  induction ha with
  | here l h =>
    cases hb with
    | here => rfl
    | later passed => exact absurd h passed
  | later passed _ ih =>
    cases hb with
    | here _ h => exact absurd h passed
    | later _ hb => exact ih hb

theorem append (h : FirstIn P l a) (rest : List α) : FirstIn P (l ++ rest) a := by
  induction h with
  | here l h => exact .here _ h
  | later passed _ ih => exact .later passed ih

theorem after {before : List α} (absent : ∀ b ∈ before, ¬ P b) (h : FirstIn P l a) :
    FirstIn P (before ++ l) a := by
  induction before with
  | nil => exact h
  | cons b rest ih =>
    obtain ⟨here, later⟩ := List.forall_mem_cons.mp absent
    exact .later here (ih later)

theorem of_append {before : List α} (h : FirstIn P (before ++ l) a) :
    FirstIn P before a ∨ (∀ b ∈ before, ¬ P b) ∧ FirstIn P l a := by
  induction before with
  | nil => exact .inr ⟨by simp, h⟩
  | cons b rest ih =>
    cases h with
    | here _ h => exact .inl (.here rest h)
    | later passed h =>
      exact (ih h).imp (.later passed) fun ⟨absent, first⟩ =>
        ⟨List.forall_mem_cons.mpr ⟨passed, absent⟩, first⟩

/-- The first element of several lists is one of the first list that has any. -/
theorem of_flatMap {β : Type} {f : β → List α} {l : List β} (h : FirstIn P (l.flatMap f) a) :
    ∃ b, FirstIn (fun b => ∃ c ∈ f b, P c) l b ∧ a ∈ f b := by
  induction l with
  | nil => cases h
  | cons b rest ih =>
    rw [List.flatMap_cons] at h
    rcases h.of_append with here | ⟨absent, later⟩
    · exact ⟨b, .here rest ⟨a, here.mem, here.holds⟩, here.mem⟩
    · obtain ⟨c, first, listed⟩ := ih later
      exact ⟨c, .later (fun ⟨d, member, holds⟩ => absent d member holds) first, listed⟩

theorem exists_of_mem (member : a ∈ l) (h : P a) : ∃ b, FirstIn P l b := by
  induction l with
  | nil => exact absurd member List.not_mem_nil
  | cons c rest ih =>
    by_cases found : P c
    · exact ⟨c, .here rest found⟩
    · rcases List.mem_cons.mp member with rfl | member
      · exact absurd h found
      · obtain ⟨b, first⟩ := ih member
        exact ⟨b, .later found first⟩

theorem map {β : Type} {R : β → Prop} {f : α → β} (h : FirstIn P l a)
    (agree : ∀ b ∈ l, P b ↔ R (f b)) : FirstIn R (l.map f) (f a) := by
  induction h with
  | here l h => exact .here _ ((agree _ List.mem_cons_self).mp h)
  | later passed _ ih =>
    obtain ⟨here, later⟩ := List.forall_mem_cons.mp agree
    exact .later (fun h => passed (here.mpr h)) (ih later)

theorem find? {q : α → Bool} (h : FirstIn P l a) (agree : ∀ b, q b = true ↔ P b) :
    l.find? q = some a := by
  induction h with
  | here l h => exact List.find?_cons_of_pos ((agree _).mpr h)
  | later passed _ ih => exact (List.find?_cons_of_neg (fun h => passed ((agree _).mp h))).trans ih

end FirstIn

/-- The element of a list that satisfies a predicate, at one place and no other. -/
def OnlyIn (P : α → Prop) (l : List α) (a : α) : Prop :=
  P a ∧ ∃ before after, l = before ++ a :: after ∧ ∀ b ∈ before ++ after, ¬ P b

theorem OnlyIn.mem {l : List α} {a : α} (h : OnlyIn P l a) : a ∈ l := by
  obtain ⟨-, before, after, rfl, -⟩ := h
  exact List.mem_append_right _ List.mem_cons_self

end PropertyTables
