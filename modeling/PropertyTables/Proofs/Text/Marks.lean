import PropertyTables.Text.Case
import Mathlib.Data.String.Basic

/-! # Marks in texts

* `IsMark`: a character that is its own upper case, and no part of that of any other character. The
  dot, the opening bracket and the underscore are marks.
* `IsMark.splitOn_upper`, `IsMark.takeWhile_upper`, `IsMark.filter_upper`: a text may be taken apart
  at marks before it is put into upper case, or afterwards.
-/

namespace PropertyTables.Text
set_option autoImplicit false

/-- Whether the upper case of a character is itself, and it is in no other character's. -/
structure IsMark (m : Char) : Prop where
  kept : upperChar m = [m]
  alone : ∀ c, m ∈ upperChar c → c = m

/-! ## What the tables do not mention -/

/-- Whether the tables of upper case neither map a code point nor map another one to it. -/
def isUnmapped (code : Nat) : Bool :=
  code != 0 && upperExpansions.all (fun e => code != e.1 && !e.2.contains code) &&
    upperRanges.all fun r => !(r.first ≤ code && code ≤ r.last) &&
      !(r.target ≤ code && code ≤ r.target + (r.last - r.first))

theorem image?_bounds {r : CaseRange} {code image : Nat} (h : r.image? code = some image) :
    (r.first ≤ code ∧ code ≤ r.last) ∧ r.target ≤ image ∧ image ≤ r.target + (r.last - r.first) := by
  unfold CaseRange.image? at h
  split at h
  · rename_i grid
    simp only [onGrid, Bool.and_eq_true, decide_eq_true_eq] at grid
    cases h
    omega
  · cases h

theorem eq_toNat_of_ofNat {m : Char} {n : Nat} (nonzero : m.toNat ≠ 0) (h : Char.ofNat n = m) :
    n = m.toNat := by
  subst h
  by_cases valid : n.isValidChar
  · rw [Char.ofNat, dif_pos valid]
    rfl
  · refine absurd ?_ nonzero
    rw [Char.ofNat, dif_neg valid]
    rfl

theorem isMark_of_isUnmapped {m : Char} (h : isUnmapped m.toNat = true) : IsMark m := by
  simp only [isUnmapped, Bool.and_eq_true, bne_iff_ne, List.all_eq_true] at h
  obtain ⟨⟨nonzero, expansions⟩, ranges⟩ := h
  constructor
  · have unexpanded : upperExpansions.lookup m.toNat = none :=
      List.lookup_eq_none_iff.mpr fun e listed => bne_iff_ne.mpr (expansions e listed).1
    have unmapped : upperRanges.findSome? (·.image? m.toNat) = none := by
      refine List.findSome?_eq_none_iff.mpr fun r listed => ?_
      by_contra mapped
      obtain ⟨image, found⟩ := Option.ne_none_iff_exists'.mp mapped
      have outside := (ranges r listed).1
      simp [(image?_bounds found).1] at outside
    rw [upperChar, mapCase, unexpanded, unmapped]
    rfl
  · intro c member
    rw [upperChar, mapCase] at member
    cases expanded : upperExpansions.lookup c.toNat with
    | some codes =>
      rw [expanded] at member
      obtain ⟨n, inside, same⟩ := List.mem_map.mp member
      obtain ⟨before, after, split, -⟩ := List.lookup_eq_some_iff.mp expanded
      have absent := (expansions (c.toNat, codes) (by simp [split])).2
      rw [eq_toNat_of_ofNat nonzero same] at inside
      simp [inside] at absent
    | none =>
      rw [expanded] at member
      have same := List.mem_singleton.mp member
      cases mapped : upperRanges.findSome? (·.image? c.toNat) with
      | none =>
        rw [mapped] at same
        exact same.symm
      | some image =>
        rw [mapped] at same
        obtain ⟨r, listed, found⟩ := List.exists_of_findSome?_eq_some mapped
        have outside := (ranges r listed).2
        obtain rfl := eq_toNat_of_ofNat nonzero same.symm
        simp [(image?_bounds found).2] at outside

theorem isMark_dot : IsMark '.' := isMark_of_isUnmapped (by decide +kernel)

theorem isMark_bracket : IsMark '[' := isMark_of_isUnmapped (by decide +kernel)

theorem isMark_underscore : IsMark '_' := isMark_of_isUnmapped (by decide +kernel)

theorem mapCase_ne_nil {expansions : List (Nat × List Nat)} (filled : ∀ e ∈ expansions, e.2 ≠ [])
    (ranges : List CaseRange) (c : Char) : mapCase expansions ranges c ≠ [] := by
  rw [mapCase]
  split
  · rename_i codes expanded
    obtain ⟨before, after, split, -⟩ := List.lookup_eq_some_iff.mp expanded
    have nonempty := filled (c.toNat, codes) (by simp [split])
    simpa using nonempty
  · simp

theorem upperChar_ne_nil (c : Char) : upperChar c ≠ [] := mapCase_ne_nil (by decide +kernel) _ c

theorem lowerChar_ne_nil (c : Char) : lowerChar c ≠ [] := mapCase_ne_nil (by decide +kernel) _ c

/-! ## Texts -/

theorem splitOn_append_of_notMem {m : Char} {xs : List Char} (absent : m ∉ xs) (ys : List Char) :
    (xs ++ ys).splitOn m = (ys.splitOn m).modifyHead (xs ++ ·) := by
  induction xs with
  | nil => exact (congrFun List.modifyHead_id (ys.splitOn m)).symm
  | cons x xs ih =>
    rw [List.mem_cons, not_or] at absent
    rw [List.cons_append, List.splitOn_cons_eq_if_modifyHead, ih absent.2,
      if_neg (by simpa using Ne.symm absent.1), List.modifyHead_modifyHead]
    rfl

theorem toList_upper (s : String) : (upper s).toList = s.toList.flatMap upperChar :=
  String.toList_ofList

theorem upper_append (s s' : String) : upper (s ++ s') = upper s ++ upper s' := by
  rw [← String.toList_inj, String.toList_append, toList_upper, toList_upper, toList_upper,
    String.toList_append, List.flatMap_append]

theorem upper_eq_empty {s : String} : upper s = "" ↔ s = "" := by
  rw [← String.toList_eq_nil_iff, toList_upper, List.flatMap_eq_nil_iff, ← String.toList_eq_nil_iff]
  constructor
  · intro none
    exact List.eq_nil_iff_forall_not_mem.mpr fun c member => upperChar_ne_nil c (none c member)
  · intro empty
    simp [empty]

namespace IsMark
variable {m : Char} (h : IsMark m)
include h

theorem mem_upper {s : String} : m ∈ (upper s).toList ↔ m ∈ s.toList := by
  rw [toList_upper, List.mem_flatMap]
  constructor
  · rintro ⟨c, member, inside⟩
    exact h.alone c inside ▸ member
  · intro member
    exact ⟨m, member, by simp [h.kept]⟩

theorem notMem {c : Char} (differ : c ≠ m) : m ∉ upperChar c := fun inside => differ (h.alone c inside)

theorem differ_upperChar {c : Char} (differ : c ≠ m) : ∀ d ∈ upperChar c, (d != m) = true := by
  intro d member
  exact bne_iff_ne.mpr fun same => h.notMem differ (same ▸ member)

theorem splitOn_upper (cs : List Char) :
    (cs.flatMap upperChar).splitOn m = (cs.splitOn m).map (·.flatMap upperChar) := by
  induction cs with
  | nil => rfl
  | cons c cs ih =>
    obtain ⟨first, more, split⟩ := List.exists_cons_of_ne_nil (List.splitOn_ne_nil m cs)
    rw [List.flatMap_cons, List.splitOn_cons_eq_if_modifyHead]
    by_cases mark : c = m
    · subst mark
      rw [h.kept, List.singleton_append, List.splitOn_cons_eq_if_modifyHead, ih]
      simp
    · rw [splitOn_append_of_notMem (h.notMem mark), ih, if_neg (by simpa using mark), split]
      rfl

theorem takeWhile_upper (cs : List Char) :
    (cs.flatMap upperChar).takeWhile (· != m) = (cs.takeWhile (· != m)).flatMap upperChar := by
  induction cs with
  | nil => rfl
  | cons c cs ih =>
    rw [List.flatMap_cons, List.takeWhile_cons]
    by_cases mark : c = m
    · subst mark
      simp [h.kept]
    · rw [List.takeWhile_append_of_pos (h.differ_upperChar mark), ih, if_pos (bne_iff_ne.mpr mark),
        List.flatMap_cons]

theorem filter_upper (cs : List Char) :
    (cs.flatMap upperChar).filter (· != m) = (cs.filter (· != m)).flatMap upperChar := by
  induction cs with
  | nil => rfl
  | cons c cs ih =>
    rw [List.flatMap_cons, List.filter_append, ih]
    by_cases mark : c = m
    · subst mark
      simp [h.kept]
    · rw [List.filter_eq_self.mpr (h.differ_upperChar mark), List.filter_cons,
        if_pos (bne_iff_ne.mpr mark), List.flatMap_cons]

end IsMark

end PropertyTables.Text
