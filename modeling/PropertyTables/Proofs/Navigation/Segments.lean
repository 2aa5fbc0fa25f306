import PropertyTables.Proofs.Navigation.Paths

/-! # Paths segment by segment

* `Segment.Shaped`: the ways in which segments are written. `Segment.shaped_iff` says that a
  segment is shaped just if it is what its text is read as.
* `Path.Reads`: reading a text from the left, where each dot ends a segment. `Path.reads_iff` says
  that the segments read are those of the text.
* `Path.segments_lossless`: a text has one more segment than dots, and the segments make up the
  text; names and indexes that are written with dots between them are the segments of what is
  written.
-/

namespace PropertyTables
set_option autoImplicit false

/-! ## Single segments -/

namespace Segment

/-- A segment is its name, or its name and its index in brackets, of which the closing one may be
missing. The name has no opening bracket, and an index that lacks the closing one does not end in
one. -/
inductive Shaped : Segment → Prop
  | bare {name : String} (plain : '[' ∉ name.toList) : Shaped ⟨name, none, name⟩
  | closed {name : String} (plain : '[' ∉ name.toList) (index : String) :
      Shaped ⟨name, some index, name ++ "[" ++ index ++ "]"⟩
  | unclosed {name index : String} (plain : '[' ∉ name.toList)
      (unended : index.toList.getLast? ≠ some ']') : Shaped ⟨name, some index, name ++ "[" ++ index⟩

/-- The segment of a name and perhaps an index. -/
def written (name : String) : Option String → Segment
  | none => ⟨name, none, name⟩
  | some index => ⟨name, some index, name ++ "[" ++ index ++ "]"⟩

theorem toList_unclosed (name index : String) :
    (name ++ "[" ++ index).toList = name.toList ++ '[' :: index.toList := by
  rw [String.toList_append, String.toList_append, List.append_assoc]
  rfl

theorem toList_closed (name index : String) :
    (name ++ "[" ++ index ++ "]").toList = name.toList ++ '[' :: (index.toList ++ [']']) := by
  rw [String.toList_append, toList_unclosed, List.append_assoc]
  rfl

theorem ofChars_shaped (cs : List Char) : (ofChars cs).Shaped := by
  by_cases bracket : '[' ∈ cs
  · obtain ⟨name, rest, rfl, plain⟩ := List.eq_append_cons_of_mem bracket
    have named : '[' ∉ (String.ofList name).toList := by rwa [String.toList_ofList]
    by_cases ended : rest.getLast? = some ']'
    · obtain ⟨index, rfl⟩ := List.getLast?_eq_some_iff.mp ended
      have shaped := Shaped.closed named (String.ofList index)
      rw [← String.ofList_toList (s := _ ++ _ ++ _ ++ _), toList_closed, String.toList_ofList,
        String.toList_ofList] at shaped
      rwa [ofChars_indexed plain]
    · have unended : (String.ofList rest).toList.getLast? ≠ some ']' := by
        rwa [String.toList_ofList]
      have shaped := Shaped.unclosed named unended
      rw [← String.ofList_toList (s := _ ++ _ ++ _), toList_unclosed, String.toList_ofList,
        String.toList_ofList] at shaped
      rwa [ofChars_bracket plain, dropClosing, if_neg ended]
  · rw [ofChars_of_notMem bracket]
    exact .bare (by rwa [String.toList_ofList])

/-- Segments are shaped in those ways just if their texts are read as them. -/
theorem shaped_iff {s : Segment} : s.Shaped ↔ ofChars s.text.toList = s := by
  refine ⟨fun shaped => ?_, fun read => read ▸ ofChars_shaped _⟩
  cases shaped with
  | bare plain => rw [ofChars_of_notMem plain, String.ofList_toList]
  | @closed name plain index =>
    have read := ofChars_indexed plain index.toList
    rwa [← toList_closed, String.ofList_toList, String.ofList_toList, String.ofList_toList] at read
  | @unclosed name index plain unended =>
    have read := ofChars_bracket plain index.toList
    rwa [dropClosing, if_neg unended, ← toList_unclosed, String.ofList_toList, String.ofList_toList,
      String.ofList_toList] at read

theorem written_shaped {name : String} (plain : '[' ∉ name.toList) (index : Option String) :
    (written name index).Shaped := by
  cases index with
  | none => exact .bare plain
  | some index => exact .closed plain index

theorem undotted_written {name : String} {index : Option String} (named : '.' ∉ name.toList)
    (indexed : ∀ i ∈ index, '.' ∉ i.toList) : '.' ∉ (written name index).text.toList := by
  cases index with
  | none => exact named
  | some i =>
    show '.' ∉ (name ++ "[" ++ i ++ "]").toList
    rw [toList_closed]
    simp only [List.mem_append, List.mem_cons, List.not_mem_nil, or_false, not_or]
    exact ⟨named, by decide, indexed i rfl, by decide⟩

end Segment

/-! ## Whole paths -/

namespace Path

/-- Reading a text from the left: what stands before the first dot is a segment, and what follows
that dot is read in the same way. -/
inductive Reads : String → List Segment → Prop
  | last {text : String} (undotted : '.' ∉ text.toList) :
      Reads text [Segment.ofChars text.toList]
  | dot {front rest : String} {segments : List Segment} (undotted : '.' ∉ front.toList)
      (more : Reads rest segments) :
      Reads (front ++ "." ++ rest) (Segment.ofChars front.toList :: segments)

theorem reads_join {segments : List Segment} (nonempty : segments ≠ [])
    (each : ∀ s ∈ segments, Segment.ofChars s.text.toList = s ∧ '.' ∉ s.text.toList) :
    Reads (join segments) segments := by
  induction segments with
  | nil => exact absurd rfl nonempty
  | cons s rest ih =>
    obtain ⟨⟨read, undotted⟩, later⟩ := List.forall_mem_cons.mp each
    cases rest with
    | nil =>
      have last := Reads.last undotted
      rwa [read, ← join_singleton] at last
    | cons next rest =>
      have longer := Reads.dot undotted (ih (List.cons_ne_nil _ _) later)
      rwa [read, ← join_cons] at longer

theorem shaped_of_mem {text : String} {s : Segment} (listed : s ∈ (ofText text).segments) :
    s.Shaped := by
  rw [segments_ofText] at listed
  obtain ⟨cs, -, rfl⟩ := List.mem_map.mp listed
  exact Segment.ofChars_shaped cs

/-- The segments read from the left are those of the text. -/
theorem reads_iff {text : String} {segments : List Segment} :
    Reads text segments ↔ segments = (ofText text).segments := by
  constructor
  · intro reads
    induction reads with
    | last undotted =>
      rw [ofText_of_notMem undotted]
      rfl
    | dot undotted _ ih =>
      rw [segments_dot, ofText_of_notMem undotted, ← ih]
      rfl
  · rintro rfl
    have all : Reads (ofText text).text (ofText text).segments :=
      reads_join (List.cons_ne_nil _ _) fun s listed =>
        ⟨Segment.shaped_iff.mp (shaped_of_mem listed),
          fun dot => (mem_of_mem_segment listed (.inr dot)).1 rfl⟩
    rwa [text_ofText] at all

theorem Reads.length {text : String} {segments : List Segment} (reads : Reads text segments) :
    segments.length = text.toList.count '.' + 1 := by
  induction reads with
  | last undotted => rw [List.length_singleton, List.count_eq_zero.mpr undotted]
  | @dot front rest segments undotted _ ih =>
    have dots : (front ++ "." ++ rest).toList.count '.' = rest.toList.count '.' + 1 := by
      rw [String.toList_append, String.toList_append, List.count_append, List.count_append,
        List.count_eq_zero.mpr undotted, Nat.zero_add, Nat.add_comm]
      rfl
    rw [List.length_cons, ih, dots]

/-- Shaped segments without dots are the segments of their texts, put together. -/
theorem segments_join {segments : List Segment} (nonempty : segments ≠ [])
    (each : ∀ s ∈ segments, s.Shaped ∧ '.' ∉ s.text.toList) :
    (ofText (join segments)).segments = segments := by
  refine (reads_iff.mp (reads_join nonempty fun s listed => ?_)).symm
  exact ⟨Segment.shaped_iff.mp (each s listed).1, (each s listed).2⟩

/-! ## Nothing is lost -/

/-- The segments of a text are read one after the other from the left. There is one more of them
than dots, each is shaped, and put together they are the text. Of names and indexes that are written
with dots between them, the same names and indexes are read. -/
theorem segments_lossless :
    (∀ text segments, Reads text segments ↔ segments = (ofText text).segments) ∧
    (∀ text, (ofText text).segments.length = text.toList.count '.' + 1 ∧
      (ofText text).text = text ∧ ∀ s ∈ (ofText text).segments, s.Shaped) ∧
    ∀ parts : List (String × Option String), parts ≠ [] →
      (∀ part ∈ parts, ('.' ∉ part.1.toList ∧ '[' ∉ part.1.toList) ∧
        ∀ index ∈ part.2, '.' ∉ index.toList) →
      (ofText (join (parts.map fun part => Segment.written part.1 part.2))).segments.map
        (fun s => (s.name, s.index)) = parts := by
  refine ⟨fun _ _ => reads_iff, fun text => ?_, fun parts nonempty plain => ?_⟩
  · exact ⟨(reads_iff.mpr rfl).length, text_ofText text, fun s => shaped_of_mem⟩
  · have written : ∀ s ∈ parts.map (fun part => Segment.written part.1 part.2),
        s.Shaped ∧ '.' ∉ s.text.toList := by
      refine List.forall_mem_map.mpr fun part listed => ?_
      obtain ⟨⟨undotted, unbracketed⟩, indexed⟩ := plain part listed
      exact ⟨Segment.written_shaped unbracketed part.2, Segment.undotted_written undotted indexed⟩
    rw [segments_join (by simpa using nonempty) written, List.map_map]
    refine (List.map_congr_left fun part _ => ?_).trans (List.map_id parts)
    obtain ⟨name, index⟩ := part
    cases index <;> rfl

/-- Empty names and indexes are read back, and so are indexes with brackets in them. -/
theorem segments_lossless_brackets :
    let parts := [("orders", some "0]"), ("", some ""), ("a]", some "[x[y"), ("id", none)]
    parts ≠ [] ∧
    (∀ part ∈ parts, ('.' ∉ part.1.toList ∧ '[' ∉ part.1.toList) ∧
      ∀ index ∈ part.2, '.' ∉ index.toList) ∧
    (ofText "orders[0]].[].a][[x[y].id").segments.map (fun s => (s.name, s.index)) = parts := by
  intro parts
  have nonempty : parts ≠ [] := List.cons_ne_nil _ _
  have plain : ∀ part ∈ parts, ('.' ∉ part.1.toList ∧ '[' ∉ part.1.toList) ∧
      ∀ index ∈ part.2, '.' ∉ index.toList := by decide
  have text : join (parts.map fun part => Segment.written part.1 part.2) =
      "orders[0]].[].a][[x[y].id" := by decide
  obtain ⟨-, -, reads_back⟩ := segments_lossless
  have read := reads_back parts nonempty plain
  rw [text] at read
  exact ⟨nonempty, plain, read⟩

end Path

end PropertyTables
