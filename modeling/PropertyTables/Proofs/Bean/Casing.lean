import PropertyTables.Proofs.Bean.Names
import PropertyTables.Proofs.Text.Marks

/-! # Names that accessor names lead back to

* `Text.Restored`: characters that lower case restores from their upper case.
* `PropertyName.Reversible`: names of which the first character is left alone or is restored.
* `PropertyName.decapitalize_accessorSuffix_iff`: what follows the word in an accessor name, as a
  property name again, is the name that it was made from just if that is reversible.
* `PropertyName.accessor_leads_back_iff`: an accessor name leads back to its property just if the
  property's name is reversible, so that no two reversible names share accessor names.
-/

namespace PropertyTables
set_option autoImplicit false

open Text

/-- Whether the upper case of a character is one character, the lower case of which it is. -/
def Text.Restored (c : Char) : Prop := ∃ u, upperChar c = [u] ∧ lowerChar u = [c]

namespace PropertyName
variable {n : String} {cs rest : List Char} {c : Char}

/-- Whether a name is empty, has a capital as its second character, or begins with a character that
is restored from its upper case. -/
def Reversible (n : String) : Prop :=
  n = "" ∨ hasCapitalSecond n.toList = true ∨ ∃ c rest, n.toList = c :: rest ∧ Restored c

/-! ## Changing the case of the first character -/

theorem hasCapitalSecond_cons (c d : Char) (rest : List Char) :
    hasCapitalSecond (c :: rest) = hasCapitalSecond (d :: rest) := by
  cases rest <;> rfl

theorem decapitalizeChars_of_capital (capital : hasCapitalSecond cs = true) :
    decapitalizeChars cs = cs := by
  cases cs with
  | nil => rfl
  | cons c rest => rw [decapitalizeChars, if_pos capital]

theorem decapitalizeChars_of_plain (plain : hasCapitalSecond (c :: rest) = false) :
    decapitalizeChars (c :: rest) = lowerChar c ++ rest := by
  rw [decapitalizeChars, if_neg (Bool.eq_false_iff.mp plain)]

theorem length_le_decapitalizeChars (cs : List Char) : cs.length ≤ (decapitalizeChars cs).length := by
  cases cs with
  | nil => exact Nat.le_refl _
  | cons c rest =>
    cases capital : hasCapitalSecond (c :: rest) with
    | true => rw [decapitalizeChars_of_capital capital]
    | false =>
      have lower : 0 < (lowerChar c).length := List.length_pos_iff.mpr (lowerChar_ne_nil c)
      rw [decapitalizeChars_of_plain capital, List.length_append, List.length_cons]
      omega

/-- A capital that was put at the front is taken back just where it restores the character. -/
theorem decapitalize_capitalize_iff (plain : hasCapitalSecond (c :: rest) = false) :
    decapitalizeChars (capitalize (c :: rest)) = c :: rest ↔ Restored c := by
  have single (u : Char) (upper : upperChar c = [u]) :
      decapitalizeChars (capitalize (c :: rest)) = lowerChar u ++ rest := by
    rw [hasCapitalSecond_cons c u] at plain
    rw [capitalize, upper, List.singleton_append, decapitalizeChars_of_plain plain]
  constructor
  · intro back
    -- several characters at the front stay several, so that the upper case has one only
    have shorter := length_le_decapitalizeChars (capitalize (c :: rest))
    rw [back, capitalize, List.length_append, List.length_cons] at shorter
    obtain ⟨u, more, upper⟩ := List.exists_cons_of_ne_nil (upperChar_ne_nil c)
    rw [upper, List.length_cons] at shorter
    obtain rfl : more = [] := List.length_eq_zero_iff.mp (by omega)
    rw [single u upper, ← List.singleton_append, List.append_cancel_right_eq] at back
    exact ⟨u, upper, back⟩
  · rintro ⟨u, upper, lower⟩
    rw [single u upper, lower, List.singleton_append]

/-! ## Accessor names -/

theorem accessorSuffix_of_capital (capital : hasCapitalSecond n.toList = true) :
    accessorSuffix n = n := if_pos capital

theorem accessorSuffix_of_plain (plain : hasCapitalSecond n.toList = false) :
    (accessorSuffix n).toList = capitalize n.toList := by
  rw [accessorSuffix, if_neg (Bool.eq_false_iff.mp plain), String.toList_ofList]

theorem decapitalize_accessorSuffix_iff : decapitalize (accessorSuffix n) = n ↔ Reversible n := by
  rw [decapitalize, ← String.toList_inj, String.toList_ofList, Reversible,
    ← String.toList_eq_nil_iff]
  cases capital : hasCapitalSecond n.toList with
  | true =>
    rw [accessorSuffix_of_capital capital, decapitalizeChars_of_capital capital]
    simp
  | false =>
    rw [accessorSuffix_of_plain capital]
    cases name : n.toList with
    | nil => simp [capitalize, decapitalizeChars]
    | cons c rest =>
      rw [name] at capital
      rw [decapitalize_capitalize_iff capital]
      simp

theorem ofAccessor_accessor_eq (side : Side) (n : String) :
    ofAccessor (accessor side n) = .ok (decapitalize (accessorSuffix n)) :=
  ofAccessor_accessor side n

theorem Reversible.ofAccessor (h : Reversible n) (side : Side) :
    PropertyName.ofAccessor (accessor side n) = .ok n := by
  rw [ofAccessor_accessor_eq, decapitalize_accessorSuffix_iff.mpr h]

/-- An accessor name always stands for a property, and this is the one that it was made for just if
the name of that is reversible. So different reversible names have different accessor names. -/
theorem accessor_leads_back_iff (side : Side) (n : String) :
    (∃ property, ofAccessor (accessor side n) = .ok property ∧ (property = n ↔ Reversible n)) ∧
    ∀ side' n', Reversible n → Reversible n' → n ≠ n' → accessor side n ≠ accessor side' n' := by
  refine ⟨⟨_, ofAccessor_accessor_eq side n, decapitalize_accessorSuffix_iff⟩, ?_⟩
  intro side' n' reversible reversible' differ same
  have back := reversible.ofAccessor side
  rw [same, reversible'.ofAccessor side'] at back
  exact differ (Except.ok.inj back).symm

/-- A small letter at the front comes back, and one before a capital is never changed. -/
theorem accessor_leads_back_umlaut :
    Reversible "ärger" ∧ Reversible "äRger" ∧ "ärger" ≠ "äRger" ∧
      accessor .read "ärger" ≠ accessor .write "äRger" := by
  have restored : Reversible "ärger" :=
    .inr (.inr ⟨'ä', ['r', 'g', 'e', 'r'], rfl, 'Ä', by decide +kernel, by decide +kernel⟩)
  have kept : Reversible "äRger" := .inr (.inl (by decide +kernel))
  have differ : "ärger" ≠ "äRger" := by decide
  obtain ⟨-, apart⟩ := accessor_leads_back_iff .read "ärger"
  exact ⟨restored, kept, differ, apart .write "äRger" restored kept differ⟩

example : ofAccessor (accessor .read "ſize") = .ok "size" := by decide +kernel

example : ofAccessor (accessor .write "ßen") = .ok "SSen" := by decide +kernel

end PropertyName

end PropertyTables
