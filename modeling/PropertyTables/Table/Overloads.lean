import PropertyTables.Generics.Erasure
import PropertyTables.Hierarchy.Subtype

/-! # Overloaded accessors

Which of several accessor methods of one property counts.

* `Overload`: a method with the erased type that it reads or writes.
* `Registry.chooseGetter`: the getter whose type is assignable to the types of all others. Two
  getters may share a type only if it is boolean and one of them starts with `is`.
* `Registry.chooseSetter`: the first setter of the type that is read; failing that, the last whose
  type is assignable to the types of all.
-/

namespace PropertyTables
set_option autoImplicit false

/-- An accessor method and the erased type that it declares for its property. -/
structure Overload where
  method : Method
  type : TypeId

namespace Overload

/-- Whether the name starts with `is`. -/
def startsWithIs (o : Overload) : Bool := PropertyTables.startsWithIs o.method.name

/-- Whether two getters of one type leave no choice between them. -/
def clashes (a b : Overload) : Bool :=
  a.type == b.type
    && (a.type != Primitive.boolean.typeId || a.startsWithIs == b.startsWithIs)

/-- Whether any two of the getters clash. -/
def anyClash : List Overload → Bool
  | [] => false
  | a :: rest => rest.any a.clashes || anyClash rest

end Overload

namespace Registry

/-! ## Getters -/

/-- Whether getter `a` is to be preferred to `b`. -/
def prefersGetter (r : Registry) (a b : Overload) : Except Fault Bool :=
  if a.type = b.type then .ok (a.startsWithIs && !b.startsWithIs)
  else r.isAssignable b.type a.type

/-- Whether getter `a` is to be preferred to each of the others. -/
def prefersToAll (r : Registry) (a : Overload) : List Overload → Except Fault Bool
  | [] => .ok true
  | b :: rest => do
    if ← r.prefersGetter a b then r.prefersToAll a rest else return false

/-- The first getter of the list that is to be preferred to all others, those in `before`
included. -/
def preferredGetter? (r : Registry) (before : List Overload) :
    List Overload → Except Fault (Option Overload)
  | [] => .ok none
  | a :: after => do
    if ← r.prefersToAll a (before ++ after) then return some a
    else r.preferredGetter? (before ++ [a]) after

/-- The getter that counts among two or more. -/
def chooseGetter (r : Registry) (property : String) (first : Overload) (others : List Overload) :
    Except Fault Method := do
  let ambiguous : Except Fault Method := do
    throw (.ambiguousGetter property (← r.fullName first.method.declaring))
  if Overload.anyClash (first :: others) then ambiguous
  else match ← r.preferredGetter? [] (first :: others) with
    | some winner => return winner.method
    | none => ambiguous

/-! ## Setters -/

/-- Whether a type is assignable to the type of each overload. -/
def assignableToAll (r : Registry) (type : TypeId) : List Overload → Except Fault Bool
  | [] => .ok true
  | b :: rest => do
    if ← r.isAssignable b.type type then r.assignableToAll type rest else return false

/-- The first setter of the list whose type is assignable to the types of `all`. -/
def narrowestSetter? (r : Registry) (all : List Overload) :
    List Overload → Except Fault (Option Overload)
  | [] => .ok none
  | a :: rest => do
    if ← r.assignableToAll a.type all then return some a else r.narrowestSetter? all rest

/-- Whether neither type is assignable to the other. -/
def incomparable (r : Registry) (a b : TypeId) : Except Fault Bool := do
  if ← r.isAssignable a b then return false
  else return !(← r.isAssignable b a)

/-- The first setter of the list whose type is incomparable with that of `a`. -/
def incomparableWith? (r : Registry) (a : Overload) :
    List Overload → Except Fault (Option Overload)
  | [] => .ok none
  | b :: rest => do
    if ← r.incomparable a.type b.type then return some b else r.incomparableWith? a rest

/-- The first two setters of incomparable types, in the order of the list. -/
def incomparablePair? (r : Registry) :
    List Overload → Except Fault (Option (Overload × Overload))
  | [] => .ok none
  | a :: rest => do
    match ← r.incomparableWith? a rest with
    | some b => return some (a, b)
    | none => r.incomparablePair? rest

/-- The setter that counts among two or more, where `readType` is what a getter method of the
property returns. -/
def chooseSetter (r : Registry) (property : String) (readType : Option TypeId)
    (first second : Overload) (others : List Overload) : Except Fault Method := do
  let all := first :: second :: others
  match all.find? (some ·.type == readType) with
  | some matching => return matching.method
  | none =>
    match ← r.narrowestSetter? all all.reverse with
    | some winner => return winner.method
    | none =>
      let (a, b) := (← r.incomparablePair? all).getD (first, second)
      throw (.ambiguousSetter property (← r.fullName b.method.declaring) (← r.fullName a.type)
        (← r.fullName b.type))

end Registry

end PropertyTables
