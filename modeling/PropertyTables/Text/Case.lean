import PropertyTables.Text.CaseData

/-! # Letter case

Full case mapping, character by character and without regard to context or language.

* `upperChar`, `lowerChar`: the upper (lower) case of one character, a non-empty list.
* `upper`: the upper case of a text.
* `isUppercase`: the property `Uppercase` of a character.
-/

namespace PropertyTables.Text
set_option autoImplicit false

/-! ## Ranges -/

/-- Whether `code` is one of `first`, `first + step`, ..., `last`. -/
def onGrid (first last step code : Nat) : Bool :=
  first ≤ code && code ≤ last && (code - first) % step == 0

def CodeRange.contains (r : CodeRange) (code : Nat) : Bool :=
  onGrid r.first r.last r.step code

/-- The code point that `code` maps to, if the range has it. -/
def CaseRange.image? (r : CaseRange) (code : Nat) : Option Nat :=
  if onGrid r.first r.last r.step code then some (r.target + (code - r.first)) else none

/-! ## Characters -/

/-- The case of `c` that the two tables give: an expansion, an image, or `c` itself. -/
def mapCase (expansions : List (Nat × List Nat)) (ranges : List CaseRange) (c : Char) : List Char :=
  match expansions.lookup c.toNat with
  | some codes => codes.map Char.ofNat
  | none => [((ranges.findSome? (·.image? c.toNat)).map Char.ofNat).getD c]

/-- The upper case of a character. -/
def upperChar (c : Char) : List Char := mapCase upperExpansions upperRanges c

/-- The lower case of a character. -/
def lowerChar (c : Char) : List Char := mapCase lowerExpansions lowerRanges c

/-- The property `Uppercase`: capital letters and the letter-like capitals such as `Ⅷ`, not the
title-case digraphs. -/
def isUppercase (c : Char) : Bool := uppercaseRanges.any (·.contains c.toNat)

/-! ## Texts -/

/-- The upper case of a text: the upper cases of its characters in order. -/
def upper (s : String) : String := String.ofList (s.toList.flatMap upperChar)

end PropertyTables.Text
