import PropertyTables.Fault
import PropertyTables.Text.Case

/-! # Property names and accessor names

* `PropertyName.ofAccessor`: the property that an accessor name stands for.
* `PropertyName.accessorSuffix`: what follows `get` or `set` in the accessor names of a property.
* `isGetterName`, `isSetterName`: the names that methods need to count as accessors.
* `PropertyName.isExcluded`: the names that never become properties.

Both directions leave a name alone whose second character is a capital, as in `URL`.
-/

namespace PropertyTables
set_option autoImplicit false

open Text

namespace PropertyName

/-- Whether the second character is a capital. -/
def hasCapitalSecond : List Char → Bool
  | _ :: c :: _ => isUppercase c
  | _ => false

/-- The upper case of the first character before the other characters. -/
def capitalize : List Char → List Char
  | [] => []
  | c :: rest => upperChar c ++ rest

/-- The lower case of the first character before the other characters, except where the second
character is a capital. -/
def decapitalizeChars : List Char → List Char
  | [] => []
  | c :: rest => if hasCapitalSecond (c :: rest) then c :: rest else lowerChar c ++ rest

/-- A name after an accessor word, as a property name. -/
def decapitalize (name : String) : String := String.ofList (decapitalizeChars name.toList)

/-- A property name as it is written after an accessor word. -/
def accessorSuffix (name : String) : String :=
  if hasCapitalSecond name.toList then name else String.ofList (capitalize name.toList)

/-- What follows the accessor word `is`, `get` or `set`, tried in this order. -/
def afterAccessorWord? (name : String) : Option (List Char) :=
  (['i', 's'].isPrefixOf? name.toList).or
    ((['g', 'e', 't'].isPrefixOf? name.toList).or (['s', 'e', 't'].isPrefixOf? name.toList))

/-- The property that an accessor name stands for. -/
def ofAccessor (name : String) : Except Fault String :=
  match afterAccessorWord? name with
  | some rest => .ok (String.ofList (decapitalizeChars rest))
  | none => .error (.invalidPropertyName name)

/-- The names that never become properties: `class`, `serialVersionUID` and names that start with
`$`. -/
def isExcluded (name : String) : Bool :=
  name.toList.head? == some '$' || name == "serialVersionUID" || name == "class"

end PropertyName

/-! ## Accessor names -/

/-- Whether `word` stands before at least one more character. -/
def startsWithWord (word : List Char) (name : String) : Bool :=
  match word.isPrefixOf? name.toList with
  | some (_ :: _) => true
  | _ => false

/-- Whether the name starts with the accessor word `is`. -/
def startsWithIs (name : String) : Bool := ['i', 's'].isPrefixOf name.toList

def isGetterName (name : String) : Bool :=
  startsWithWord ['g', 'e', 't'] name || startsWithWord ['i', 's'] name

def isSetterName (name : String) : Bool := startsWithWord ['s', 'e', 't'] name

def isAccessorName (name : String) : Bool := isGetterName name || isSetterName name

end PropertyTables
