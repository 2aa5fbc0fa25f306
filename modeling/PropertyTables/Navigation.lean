import PropertyTables.Catalog
import PropertyTables.Path

/-! # Following paths from table to table

A path is read from a table: each segment but the last leads on to the table of a property's type.

* `Table.readType`, `Table.writeType`: the type that a path reads or writes.
* `Table.canRead`, `Table.canWrite`: whether the properties on a path exist. Here a missing property
  is an answer and not a fault.
* `Table.spell`: a path with each name spelled as its property, case being ignored.
-/

namespace PropertyTables
set_option autoImplicit false

/-! ## One segment -/

/-- The type of an element: the only type argument, or the component of an array, where it names a
type. -/
def GenericType.element? : GenericType → Option TypeId
  | applied _ [arg] => arg.raw?
  | array component => component.raw?
  | _ => none

namespace Table

/-- The type that a segment reads: that of the property, or with an index that of its elements. -/
def segmentType (t : Table) (s : Segment) : Except Fault TypeId := do
  let entry ← t.entry .read s.name
  if s.index.isSome then return entry.generic.element?.getD entry.type
  else return entry.type

/-- The table that a segment leads to. -/
def segmentTable (t : Table) (s : Segment) : Browsing Table := do
  return (← findTable (← Browsing.lift (t.segmentType s))).table

/-- The table of the type that a property reads. -/
def propertyTable (t : Table) (property : String) : Browsing Held := do
  findTable (← Browsing.lift (t.entry .read property)).type

/-! ## Paths -/

/-- The type that the segments read. -/
def readTypeFrom (t : Table) (s : Segment) : List Segment → Browsing TypeId
  | [] => Browsing.lift (t.segmentType s)
  | next :: rest => do (← t.segmentTable s).readTypeFrom next rest

/-- The type that the segments write. Indexes do not count. -/
def writeTypeFrom (t : Table) (s : Segment) : List Segment → Browsing TypeId
  | [] => Browsing.lift ((t.entry .write s.name).map (·.type))
  | next :: rest => do (← t.propertyTable s.name).table.writeTypeFrom next rest

/-- Whether every segment is readable. -/
def canReadFrom (t : Table) (s : Segment) : List Segment → Browsing Bool
  | [] => return t.has .read s.name
  | next :: rest => do
    if t.has .read s.name then (← t.segmentTable s).canReadFrom next rest else return false

/-- Whether every segment is writable; the way on goes through what is read. -/
def canWriteFrom (t : Table) (s : Segment) : List Segment → Browsing Bool
  | [] => return t.has .write s.name
  | next :: rest => do
    if t.has .write s.name then (← t.propertyTable s.name).table.canWriteFrom next rest
    else return false

/-- The segments as far as they name properties, spelled like these. The last segment counts as it
is written, index included. -/
def spellFrom (t : Table) (s : Segment) : List Segment → Browsing String
  | [] => return (t.findName? s.text).getD ""
  | next :: rest => do
    match t.findName? s.name with
    | none => return ""
    | some property =>
      return property ++ "." ++ (← (← t.propertyTable property).table.spellFrom next rest)

/-- The type that a path reads. -/
def readType (t : Table) (path : String) : Browsing TypeId :=
  t.readTypeFrom (Path.ofText path).first (Path.ofText path).rest

/-- The type that a path writes. -/
def writeType (t : Table) (path : String) : Browsing TypeId :=
  t.writeTypeFrom (Path.ofText path).first (Path.ofText path).rest

/-- Whether a path can be read. -/
def canRead (t : Table) (path : String) : Browsing Bool :=
  t.canReadFrom (Path.ofText path).first (Path.ofText path).rest

/-- Whether a path can be written. -/
def canWrite (t : Table) (path : String) : Browsing Bool :=
  t.canWriteFrom (Path.ofText path).first (Path.ofText path).rest

/-- The spelling of a path, if there is any. With `joinWords` underscores are dropped first. -/
def spell (t : Table) (path : String) (joinWords : Bool) : Browsing (Option String) := do
  let p := Path.ofText (if joinWords then Path.withoutUnderscores path else path)
  let spelling ← t.spellFrom p.first p.rest
  return if spelling = "" then none else some spelling

end Table

end PropertyTables
