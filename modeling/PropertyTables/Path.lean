/-! # Property paths

A path such as `orders[0].customer.name` is a list of segments with dots between them.

* `Segment`: a name, perhaps with an index in brackets; `Segment.ofChars` reads one.
* `Path.ofText`: the segments of a text, at least one; `Path.text` puts the segments together again.
-/

namespace PropertyTables
set_option autoImplicit false

/-- One part of a path. `text` is the part as it is written, index and brackets included. -/
structure Segment where
  name : String
  index : Option String
  text : String
  deriving DecidableEq, Repr

namespace Segment

/-- Drops a closing bracket at the end. -/
def dropClosing (cs : List Char) : List Char :=
  if cs.getLast? = some ']' then cs.dropLast else cs

/-- Reads a part without dots: what comes before the first opening bracket is the name, what comes
after it the index, a closing bracket at its end left out. -/
def ofChars (cs : List Char) : Segment where
  name := String.ofList (cs.takeWhile (· != '['))
  index := match cs.dropWhile (· != '[') with
    | [] => none
    | _ :: rest => some (String.ofList (dropClosing rest))
  text := String.ofList cs

end Segment

/-- The parts of a path; there is always a first one. -/
structure Path where
  first : Segment
  rest : List Segment
  deriving DecidableEq, Repr

namespace Path

/-- Reads a path: every dot ends a segment. -/
def ofText (text : String) : Path :=
  match text.toList.splitOn '.' with
  | [] => ⟨Segment.ofChars [], []⟩
  | cs :: more => ⟨Segment.ofChars cs, more.map Segment.ofChars⟩

/-- The segments in order. -/
def segments (p : Path) : List Segment := p.first :: p.rest

/-- The text of some segments with dots between them. -/
def join (segments : List Segment) : String :=
  String.ofList (['.'].intercalate (segments.map (·.text.toList)))

/-- The path as it is written. -/
def text (p : Path) : String := join p.segments

/-- The text without underscores, in which words are told apart by capitals alone. -/
def withoutUnderscores (text : String) : String := String.ofList (text.toList.filter (· != '_'))

end Path

end PropertyTables
