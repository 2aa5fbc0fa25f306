import PropertyTables.Proofs.Navigation.Writing
import PropertyTables.Proofs.Table.Validity
import PropertyTables.Proofs.Text.Marks

/-! # The spelling of paths

* `Segment.folded`: what counts of a segment when case is ignored. `Path.folded_ofText` says that
  the upper case of a path determines it for every segment.
* `Table.Spells`: how the spelling of some segments comes about, table by table.
* `Table.AllNamed`: segments of which each names a property where those before it lead. Such
  segments are spelled in full, `AllNamed.spells`; others up to the first that names nothing,
  `Spells.stops`.
* `Table.Breaks`: segments on the way of which a table cannot be had. Only their spelling fails,
  `spell_error`.
* `spelling_lawful`: the spelling of a path depends on its upper case alone, a spelling is its own
  spelling, and it is as much of the path as names properties.
-/

namespace PropertyTables
set_option autoImplicit false

open Text (upper IsMark isMark_dot isMark_bracket isMark_underscore)

/-! ## Case in paths -/

/-- Upper case of the name and of the whole segment. -/
def Segment.folded (s : Segment) : String × String := (upper s.name, upper s.text)

namespace Path

theorem folded_ofText (path : String) : (ofText path).segments.map Segment.folded =
    ((upper path).toList.splitOn '.').map fun cs =>
      (String.ofList (cs.takeWhile (· != '[')), String.ofList cs) := by
  rw [segments_ofText, Text.toList_upper, isMark_dot.splitOn_upper, List.map_map, List.map_map]
  refine List.map_congr_left fun cs _ => ?_
  show (upper _, upper _) = _
  rw [upper, upper, Segment.ofChars, String.toList_ofList, String.toList_ofList,
    Function.comp_apply, isMark_bracket.takeWhile_upper]

theorem upper_withoutUnderscores (path : String) : upper (withoutUnderscores path) =
    String.ofList ((upper path).toList.filter (· != '_')) := by
  rw [upper, withoutUnderscores, String.toList_ofList, Text.toList_upper,
    isMark_underscore.filter_upper]

end Path

namespace Table
variable {t : Table} {lib middle after : Library} {s next : Segment} {rest : List Segment}
  {x c q : String} {m : Char}

/-! ## Case in tables -/

theorem findName?_congr (t : Table) {x y : String} (same : upper x = upper y) :
    t.findName? x = t.findName? y := by
  rw [findName?, findName?, same]

theorem upper_of_findName? (found : t.findName? x = some c) : upper c = upper x := by
  rcases findName?_eq_some.mp found with ⟨-, same, -⟩ | ⟨-, -, same, -⟩
  · exact same
  · exact same

theorem mem_of_findName? (mark : IsMark m) (found : t.findName? x = some c)
    (member : m ∈ c.toList) : m ∈ x.toList := by
  rwa [← mark.mem_upper, ← upper_of_findName? found, mark.mem_upper]

theorem notMem_found (mark : IsMark m) (absent : m ∉ x.toList) :
    m ∉ ((t.findName? x).getD "").toList := by
  cases found : t.findName? x with
  | none => exact List.not_mem_nil
  | some c => exact fun member => absent (mem_of_findName? mark found member)

/-- A property that is found is found again by its own name, and no name at all by none. -/
theorem findName?_again (t : Table) (x : String) :
    (t.findName? ((t.findName? x).getD "")).getD "" = (t.findName? x).getD "" := by
  cases found : t.findName? x with
  | some c =>
    rw [Option.getD_some, t.findName?_congr (upper_of_findName? found), found]
    rfl
  | none =>
    rw [Option.getD_none]
    cases blank : t.findName? "" with
    | none => rfl
    | some c =>
      have empty : upper c = "" := (upper_of_findName? blank).trans (Text.upper_eq_empty.mpr rfl)
      exact Text.upper_eq_empty.mp empty

theorem spellFrom_congr (t : Table) {s s' : Segment} {rest rest' : List Segment}
    (same : (s :: rest).map Segment.folded = (s' :: rest').map Segment.folded) :
    t.spellFrom s rest = t.spellFrom s' rest' := by
  induction rest generalizing t s s' rest' with
  | nil =>
    obtain ⟨here, later⟩ := List.cons.inj same
    obtain rfl : rest' = [] := List.map_eq_nil_iff.mp later.symm
    rw [spellFrom, spellFrom, t.findName?_congr (congrArg Prod.snd here)]
  | cons next rest ih =>
    obtain ⟨here, later⟩ := List.cons.inj same
    obtain ⟨next', rest', rfl⟩ : ∃ next' more, rest' = next' :: more := by
      cases rest' with
      | nil => cases later
      | cons next' more => exact ⟨next', more, rfl⟩
    rw [spellFrom, spellFrom, t.findName?_congr (congrArg Prod.fst here)]
    simp only [fun table : Table => ih table later]

theorem spell_congr (t : Table) {p p' : String} (same : upper p = upper p') (joinWords : Bool) :
    t.spell p joinWords = t.spell p' joinWords := by
  have whole {p p' : String} (same : upper p = upper p') :
      t.spellFrom (Path.ofText p).first (Path.ofText p).rest =
        t.spellFrom (Path.ofText p').first (Path.ofText p').rest := by
    refine t.spellFrom_congr ?_
    show (Path.ofText p).segments.map _ = (Path.ofText p').segments.map _
    rw [Path.folded_ofText, Path.folded_ofText, same]
  rw [spell, spell]
  cases joinWords with
  | false => exact congrArg (· >>= _) (whole same)
  | true =>
    refine congrArg (· >>= _) (whole ?_)
    rw [if_pos rfl, if_pos rfl, Path.upper_withoutUnderscores, Path.upper_withoutUnderscores, same]

/-! ## How spellings come about -/

/-- From a table and in a library, some segments are spelled in a certain way, which leaves the
library as the last one. -/
inductive Spells : Library → Table → Segment → List Segment → String → Library → Prop
  | last (lib : Library) (t : Table) (s : Segment) :
      Spells lib t s [] ((t.findName? s.text).getD "") lib
  | unknown {lib : Library} {t : Table} {s next : Segment} {rest : List Segment}
      (unnamed : t.findName? s.name = none) : Spells lib t s (next :: rest) "" lib
  | along {lib middle after : Library} {t : Table} {s next : Segment} {rest : List Segment}
      {property spelling : String} {held : Held} (named : t.findName? s.name = some property)
      (reached : (t.propertyTable property).eval lib = (.ok held, middle))
      (more : Spells middle held.table next rest spelling after) :
      Spells lib t s (next :: rest) (property ++ "." ++ spelling) after

theorem spellFrom_eval :
    (t.spellFrom s rest).eval lib = (.ok q, after) ↔ Spells lib t s rest q after := by
  constructor
  · intro done
    induction rest generalizing t s q lib with
    | nil =>
      cases done
      exact .last _ t s
    | cons next rest ih =>
      rw [spellFrom] at done
      cases named : t.findName? s.name with
      | none =>
        rw [named] at done
        cases done
        exact .unknown named
      | some property =>
        rw [named] at done
        obtain ⟨held, middle, reached, done⟩ := Browsing.bind_eval_ok.mp done
        obtain ⟨spelling, last, more, done⟩ := Browsing.bind_eval_ok.mp done
        cases done
        exact .along named reached (ih more)
  · intro h
    induction h with
    | last lib t s => rfl
    | unknown unnamed =>
      rw [spellFrom, unnamed]
      rfl
    | along named reached _ ih =>
      rw [spellFrom, named]
      exact Browsing.bind_eval_ok.mpr
        ⟨_, _, reached, Browsing.bind_eval_ok.mpr ⟨_, _, ih, rfl⟩⟩

/-- A path is spelled as its segments are. Where that is nothing there is no spelling. -/
theorem spell_eval_ok {p : String} {joinWords : Bool} {answer : Option String} :
    (t.spell p joinWords).eval lib = (.ok answer, after) ↔
      let path := Path.ofText (if joinWords then Path.withoutUnderscores p else p)
      ∃ spelling, Spells lib t path.first path.rest spelling after ∧
        (if spelling = "" then none else some spelling) = answer := by
  rw [spell, Browsing.bind_eval_ok]
  simp only [spellFrom_eval]
  constructor
  · rintro ⟨spelling, last, spells, done⟩
    cases done
    exact ⟨spelling, spells, rfl⟩
  · rintro ⟨spelling, spells, rfl⟩
    exact ⟨spelling, after, spells, rfl⟩

theorem spell_eval {p : String} {joinWords : Bool} :
    (t.spell p joinWords).eval lib = (.ok (some q), after) ↔
      let path := Path.ofText (if joinWords then Path.withoutUnderscores p else p)
      q ≠ "" ∧ Spells lib t path.first path.rest q after := by
  rw [spell_eval_ok]
  constructor
  · rintro ⟨spelling, spells, same⟩
    obtain ⟨present, same⟩ := Option.ite_none_left_eq_some.mp same
    cases same
    exact ⟨present, spells⟩
  · rintro ⟨present, spells⟩
    exact ⟨q, spells, if_neg present⟩

theorem spell_eval_none {p : String} {joinWords : Bool} :
    (t.spell p joinWords).eval lib = (.ok none, after) ↔
      let path := Path.ofText (if joinWords then Path.withoutUnderscores p else p)
      Spells lib t path.first path.rest "" after := by
  rw [spell_eval_ok]
  constructor
  · rintro ⟨spelling, spells, same⟩
    obtain rfl : spelling = "" := by simpa using same
    exact spells
  · intro spells
    exact ⟨"", spells, if_pos rfl⟩

/-! ## Spellings that fail -/

/-- Whether one of the segments, the last left out, names a property where those before it lead, and
the table of that property cannot be had. -/
inductive Breaks : Library → Table → Segment → List Segment → Fault → Library → Prop
  | here {lib after : Library} {t : Table} {s next : Segment} {rest : List Segment}
      {property : String} {fault : Fault} (named : t.findName? s.name = some property)
      (failed : (t.propertyTable property).eval lib = (.error fault, after)) :
      Breaks lib t s (next :: rest) fault after
  | along {lib middle after : Library} {t : Table} {s next : Segment} {rest : List Segment}
      {property : String} {held : Held} {fault : Fault}
      (named : t.findName? s.name = some property)
      (reached : (t.propertyTable property).eval lib = (.ok held, middle))
      (more : Breaks middle held.table next rest fault after) :
      Breaks lib t s (next :: rest) fault after

theorem spellFrom_error {fault : Fault} :
    (t.spellFrom s rest).eval lib = (.error fault, after) ↔ Breaks lib t s rest fault after := by
  constructor
  · intro failed
    induction rest generalizing t s lib with
    | nil => cases failed
    | cons next rest ih =>
      rw [spellFrom] at failed
      cases named : t.findName? s.name with
      | none =>
        rw [named] at failed
        cases failed
      | some property =>
        rw [named] at failed
        rcases Browsing.bind_eval_error.mp failed with failed | ⟨held, middle, reached, failed⟩
        · exact .here named failed
        · rcases Browsing.bind_eval_error.mp failed with failed | ⟨_, _, _, done⟩
          · exact .along named reached (ih failed)
          · cases done
  · intro h
    induction h with
    | here named failed =>
      rw [spellFrom, named]
      exact Browsing.bind_eval_error.mpr (.inl failed)
    | along named reached _ ih =>
      rw [spellFrom, named]
      exact Browsing.bind_eval_error.mpr
        (.inr ⟨_, _, reached, Browsing.bind_eval_error.mpr (.inl ih)⟩)

theorem spell_error {p : String} {joinWords : Bool} {fault : Fault} :
    (t.spell p joinWords).eval lib = (.error fault, after) ↔
      let path := Path.ofText (if joinWords then Path.withoutUnderscores p else p)
      Breaks lib t path.first path.rest fault after := by
  rw [spell, Browsing.bind_eval_error]
  simp only [spellFrom_error]
  refine or_iff_left ?_
  rintro ⟨_, _, _, done⟩
  cases done

/-! ## Spelling a spelling -/

theorem Spells.notMem (h : Spells lib t s rest q after) (mark : IsMark m) (other : m ≠ '.')
    (absent : ∀ part ∈ s :: rest, m ∉ part.name.toList ∧ m ∉ part.text.toList) :
    m ∉ q.toList := by
  induction h with
  | last lib t s => exact notMem_found mark (absent s List.mem_cons_self).2
  | unknown => exact List.not_mem_nil
  | along named _ _ ih =>
    obtain ⟨here, later⟩ := List.forall_mem_cons.mp absent
    rw [String.toList_append, String.toList_append, List.mem_append, List.mem_append]
    rintro ((inside | dot) | later')
    · exact here.1 (mem_of_findName? mark named inside)
    · exact other (List.mem_singleton.mp dot)
    · exact ih later later'

/-- A text without dots that is found as it stands, or not at all, is its own spelling. -/
theorem Spells.of_notMem (undotted : '.' ∉ q.toList) (same : (t.findName? q).getD "" = q) :
    Spells lib t (Path.ofText q).first (Path.ofText q).rest q lib := by
  have spells := Spells.last lib t (Segment.ofChars q.toList)
  have text : (Segment.ofChars q.toList).text = q := String.ofList_toList
  rw [text, same] at spells
  rwa [Path.ofText_of_notMem undotted]

/-- A property that a plain name stands for is a path of one segment. -/
theorem ofText_of_findName? (found : t.findName? x = some c) (undotted : '.' ∉ x.toList)
    (unbracketed : '[' ∉ x.toList) : Path.ofText c = ⟨⟨c, none, c⟩, []⟩ := by
  rw [Path.ofText_of_notMem fun member => undotted (mem_of_findName? isMark_dot found member),
    Segment.ofChars_of_notMem fun member =>
      unbracketed (mem_of_findName? isMark_bracket found member), String.ofList_toList]

theorem Spells.again (h : Spells lib t s rest q after)
    (plain : ∀ part ∈ s :: rest, '.' ∉ part.name.toList ∧ '.' ∉ part.text.toList ∧
      '[' ∉ part.name.toList) :
    Spells lib t (Path.ofText q).first (Path.ofText q).rest q after := by
  induction h with
  | last lib t s =>
    obtain ⟨-, undotted, -⟩ := plain s List.mem_cons_self
    exact .of_notMem (notMem_found isMark_dot undotted) (t.findName?_again s.text)
  | @unknown lib t s next rest unnamed =>
    -- the spelling stops here, so that a spelling of it has nothing left but an empty segment
    have blank := t.findName?_again s.name
    rw [unnamed] at blank
    exact .of_notMem List.not_mem_nil blank
  | @along lib middle after t s next rest property spelling held named reached _ ih =>
    obtain ⟨⟨undotted, -, unbracketed⟩, later⟩ := List.forall_mem_cons.mp plain
    have itself : t.findName? property = some property := by
      rw [t.findName?_congr (upper_of_findName? named), named]
    rw [Path.ofText_dot, ofText_of_findName? named undotted unbracketed]
    exact .along itself reached (ih later)

theorem spell_again {p : String} {joinWords : Bool}
    (done : (t.spell p joinWords).eval lib = (.ok (some q), after)) :
    (t.spell q joinWords).eval lib = (.ok (some q), after) := by
  obtain ⟨present, spells⟩ := spell_eval.mp done
  refine spell_eval.mpr ⟨present, ?_⟩
  have again := spells.again fun part listed =>
    ⟨fun dot => (Path.mem_of_mem_segment listed (.inl dot)).1 rfl,
      fun dot => (Path.mem_of_mem_segment listed (.inr dot)).1 rfl, Path.notMem_name listed⟩
  cases joinWords with
  | false => exact again
  | true =>
    have absent : '_' ∉ q.toList := by
      refine spells.notMem isMark_underscore (by decide) fun part listed => ?_
      have gone (h : '_' ∈ part.name.toList ∨ '_' ∈ part.text.toList) : False := by
        have kept := (Path.mem_of_mem_segment listed h).2
        rw [if_pos rfl, Path.withoutUnderscores, String.toList_ofList] at kept
        simpa using List.of_mem_filter kept
      exact ⟨fun member => gone (.inl member), fun member => gone (.inr member)⟩
    rwa [if_pos rfl, Path.withoutUnderscores_of_notMem absent]

/-! ## How far a spelling goes -/

/-- Whether each segment names a property of the table that those before it lead to. -/
inductive AllNamed : Library → Table → List Segment → Prop
  | last {lib : Library} {t : Table} {s : Segment} {property : String}
      (named : t.findName? s.name = some property) : AllNamed lib t [s]
  | along {lib middle : Library} {t : Table} {s : Segment} {rest : List Segment}
      {property : String} {held : Held} (named : t.findName? s.name = some property)
      (reached : (t.propertyTable property).eval lib = (.ok held, middle))
      (more : AllNamed middle held.table rest) : AllNamed lib t (s :: rest)

theorem AllNamed.first (h : AllNamed lib t (s :: rest)) : t.findName? s.name ≠ none := by
  cases h with
  | last named => simp [named]
  | along named => simp [named]

theorem allNamed_cons {held : Held} (named : t.findName? s.name = some c)
    (reached : (t.propertyTable c).eval lib = (.ok held, middle)) :
    AllNamed lib t (s :: next :: rest) ↔ AllNamed middle held.table (next :: rest) := by
  refine ⟨fun h => ?_, .along named reached⟩
  cases h with
  | along named' reached' more =>
    cases named.symm.trans named'
    cases reached.symm.trans reached'
    exact more

theorem begins_of_unnamed (unnamed : t.findName? s.name = none)
    (longer : Path.join (s :: rest) ≠ "") :
    (upper "").toList <+: (upper (Path.join (s :: rest))).toList ∧
      (upper "" = upper (Path.join (s :: rest)) ↔ AllNamed lib t (s :: rest)) := by
  have blank : upper "" = "" := Text.upper_eq_empty.mpr rfl
  refine ⟨blank ▸ List.nil_prefix, iff_of_false (fun same => ?_) fun all => all.first unnamed⟩
  exact longer (Text.upper_eq_empty.mp (same.symm.trans blank))

/-- Up to case a spelling is the beginning of the path, and all of it if all segments are named. -/
theorem Spells.begins (h : Spells lib t s rest q after)
    (plain : ∀ part ∈ s :: rest, part.name = part.text ∧ part.text ≠ "") :
    (upper q).toList <+: (upper (Path.join (s :: rest))).toList ∧
      (upper q = upper (Path.join (s :: rest)) ↔ AllNamed lib t (s :: rest)) := by
  induction h with
  | last lib t s =>
    obtain ⟨whole, present⟩ := plain s List.mem_cons_self
    cases found : t.findName? s.text with
    | none => exact begins_of_unnamed (whole ▸ found) (Path.join_singleton s ▸ present)
    | some c =>
      rw [Path.join_singleton, Option.getD_some, upper_of_findName? found]
      exact ⟨List.prefix_rfl, iff_of_true rfl (.last (whole ▸ found))⟩
  | @unknown lib t s next rest unnamed =>
    refine begins_of_unnamed unnamed fun blank => ?_
    rw [Path.join_cons] at blank
    simp at blank
  | @along lib middle after t s next rest property spelling held named reached _ ih =>
    obtain ⟨⟨whole, -⟩, later⟩ := List.forall_mem_cons.mp plain
    obtain ⟨begins, complete⟩ := ih later
    -- both texts begin with the segment and a dot, in upper case
    have front : upper (property ++ ".") = upper (s.text ++ ".") := by
      rw [Text.upper_append, Text.upper_append, upper_of_findName? named, whole]
    rw [allNamed_cons named reached, ← complete, Path.join_cons, Text.upper_append _ spelling,
      Text.upper_append _ (Path.join _), front, String.toList_append, String.toList_append,
      String.append_right_inj]
    exact ⟨(List.prefix_append_right_inj _).mpr begins, Iff.rfl⟩

/-- Nothing is spelled just if the first segment names nothing. -/
theorem spells_empty (whole : s.name = s.text) (present : s.text ≠ "") :
    Spells lib t s rest "" after ↔ t.findName? s.name = none ∧ after = lib := by
  constructor
  · intro h
    generalize blank : "" = q at h
    cases h with
    | last =>
      refine ⟨?_, rfl⟩
      rw [whole]
      cases found : t.findName? s.text with
      | none => rfl
      | some c =>
        -- a property without a name would be that of an empty segment
        rw [found, Option.getD_some] at blank
        have folded : upper s.text = "" := by
          rw [← upper_of_findName? found, ← blank, Text.upper_eq_empty]
        exact absurd (Text.upper_eq_empty.mp folded) present
    | unknown unnamed => exact ⟨unnamed, rfl⟩
    | along => simp at blank
  · rintro ⟨unnamed, rfl⟩
    cases rest with
    | nil =>
      have spells := Spells.last after t s
      rwa [← whole, unnamed] at spells
    | cons next rest => exact .unknown unnamed

theorem AllNamed.spells (h : AllNamed lib t (s :: rest)) :
    ∃ q after, Spells lib t s rest q after := by
  induction rest generalizing lib t s with
  | nil => exact ⟨_, lib, .last lib t s⟩
  | cons next rest ih =>
    cases h with
    | along named reached more =>
      obtain ⟨spelling, after, spells⟩ := ih more
      exact ⟨_, after, .along named reached spells⟩

/-- What is not spelled in full is spelled up to the first segment that names nothing, the dot
before that segment included. -/
theorem Spells.stops (h : Spells lib t s rest q after)
    (plain : ∀ part ∈ s :: rest, part.name = part.text)
    (incomplete : ¬ AllNamed lib t (s :: rest)) : t.findName? s.name = none ∧ q = "" ∨
      ∃ before part later, s :: rest = before ++ part :: later ∧ AllNamed lib t before ∧
        ¬ AllNamed lib t (before ++ [part]) ∧ upper q = upper (Path.join before ++ ".") := by
  induction h with
  | last lib t s =>
    have unnamed : t.findName? s.name = none := by
      cases found : t.findName? s.name with
      | none => rfl
      | some c => exact absurd (.last found) incomplete
    have text : t.findName? s.text = none := plain s List.mem_cons_self ▸ unnamed
    exact .inl ⟨unnamed, by rw [text]; rfl⟩
  | unknown unnamed => exact .inl ⟨unnamed, rfl⟩
  | @along lib middle after t s next rest property spelling held named reached _ ih =>
    obtain ⟨whole, later⟩ := List.forall_mem_cons.mp plain
    have front : upper (property ++ ".") = upper (s.text ++ ".") := by
      rw [Text.upper_append, Text.upper_append, upper_of_findName? named, whole]
    rw [allNamed_cons named reached] at incomplete
    rcases ih later incomplete with ⟨unnamed, rfl⟩ |
      ⟨before, part, others, split, all, stopped, spelled⟩
    · refine .inr ⟨[s], next, rest, rfl, .last named, fun both => ?_, ?_⟩
      · exact ((allNamed_cons named reached).mp both).first unnamed
      · rw [Path.join_singleton, String.append_empty, front]
    · obtain ⟨first, more, rfl⟩ : ∃ first more, before = first :: more := by
        cases all <;> exact ⟨_, _, rfl⟩
      refine .inr ⟨s :: first :: more, part, others, congrArg (s :: ·) split,
        .along named reached all, fun longer => ?_, ?_⟩
      · exact stopped ((allNamed_cons named reached).mp longer)
      · rw [Path.join_cons, Text.upper_append, front, spelled, ← Text.upper_append,
          ← String.append_assoc]

section Plain
variable {p : String} (unbracketed : '[' ∉ p.toList)
  (nonempty : ∀ part ∈ (Path.ofText p).segments, part.text ≠ "")
include unbracketed nonempty

theorem spell_begins (done : (t.spell p false).eval lib = (.ok (some q), after)) :
    (upper q).toList <+: (upper p).toList ∧
      (upper q = upper p ↔ AllNamed lib t (Path.ofText p).segments) := by
  have spells : Spells lib t (Path.ofText p).first (Path.ofText p).rest q after :=
    (spell_eval.mp done).2
  have begins := spells.begins fun part listed =>
    ⟨Path.name_eq_text listed unbracketed, nonempty part listed⟩
  have text : Path.join ((Path.ofText p).first :: (Path.ofText p).rest) = p := Path.text_ofText p
  rwa [text] at begins

/-- A path of which each segment names a property has a spelling, which is the whole path. -/
theorem spell_complete (all : AllNamed lib t (Path.ofText p).segments) :
    ∃ q after, (t.spell p false).eval lib = (.ok (some q), after) ∧ upper q = upper p := by
  obtain ⟨q, after, spells⟩ := all.spells
  have first : (Path.ofText p).first ∈ (Path.ofText p).segments := List.mem_cons_self
  have present : q ≠ "" := by
    rintro rfl
    have whole := Path.name_eq_text first unbracketed
    exact all.first ((spells_empty whole (nonempty _ first)).mp spells).1
  have done : (t.spell p false).eval lib = (.ok (some q), after) :=
    spell_eval.mpr ⟨present, spells⟩
  exact ⟨q, after, done, (spell_begins unbracketed nonempty done).2.mpr all⟩

theorem spell_none : (t.spell p false).eval lib = (.ok none, after) ↔
    t.findName? (Path.ofText p).first.name = none ∧ after = lib := by
  have first : (Path.ofText p).first ∈ (Path.ofText p).segments := List.mem_cons_self
  rw [spell_eval_none]
  exact spells_empty (Path.name_eq_text first unbracketed) (nonempty _ first)

end Plain

theorem spell_stops {p : String} (unbracketed : '[' ∉ p.toList)
    (done : (t.spell p false).eval lib = (.ok (some q), after))
    (incomplete : ¬ AllNamed lib t (Path.ofText p).segments) :
    ∃ before part later, (Path.ofText p).segments = before ++ part :: later ∧
      AllNamed lib t before ∧ ¬ AllNamed lib t (before ++ [part]) ∧
        upper q = upper (Path.join before ++ ".") := by
  obtain ⟨present, spells⟩ := spell_eval.mp done
  have plain (part : Segment) (listed : part ∈ (Path.ofText p).segments) : part.name = part.text :=
    Path.name_eq_text listed unbracketed
  rcases spells.stops plain incomplete with ⟨-, blank⟩ | stopped
  · exact absurd blank present
  · exact stopped

/-! ## The laws of spelling -/

/-- How the spelling of paths from a table behaves. What is said of one library holds of every
library, whatever tables it keeps; two laws are about libraries as calls leave them, where one
question is asked after the other. -/
structure SpellsLawfully (t : Table) : Prop where
  /-- Paths of one upper case are spelled by the same computation, faults and lookups included. -/
  caseless : ∀ p p' joinWords, upper p = upper p' → t.spell p joinWords = t.spell p' joinWords
  /-- A spelling, also one that ends in a dot after an unknown segment, is its own spelling. -/
  canonical : ∀ p joinWords q lib after,
    (t.spell p joinWords).eval lib = (.ok (some q), after) →
      (t.spell q joinWords).eval lib = (.ok (some q), after)
  /-- Up to case a spelling is the beginning of the path, and the whole path just if each segment
  names a property where those before it lead. -/
  begins : ∀ p q lib after, '[' ∉ p.toList → (∀ s ∈ (Path.ofText p).segments, s.text ≠ "") →
    (t.spell p false).eval lib = (.ok (some q), after) →
      (upper q).toList <+: (upper p).toList ∧
        (upper q = upper p ↔ AllNamed lib t (Path.ofText p).segments)
  /-- Where each segment names a property there is a spelling, of the whole path. -/
  complete : ∀ p lib, '[' ∉ p.toList → (∀ s ∈ (Path.ofText p).segments, s.text ≠ "") →
    AllNamed lib t (Path.ofText p).segments →
      ∃ q after, (t.spell p false).eval lib = (.ok (some q), after) ∧ upper q = upper p
  /-- Elsewhere the spelling ends with the dot before the first segment that names nothing. -/
  stops : ∀ p q lib after, '[' ∉ p.toList →
    (t.spell p false).eval lib = (.ok (some q), after) →
      ¬ AllNamed lib t (Path.ofText p).segments →
        ∃ before part later, (Path.ofText p).segments = before ++ part :: later ∧
          AllNamed lib t before ∧ ¬ AllNamed lib t (before ++ [part]) ∧
            upper q = upper (Path.join before ++ ".")
  /-- There is no spelling just if the first segment names nothing. -/
  nothing : ∀ p lib after, '[' ∉ p.toList → (∀ s ∈ (Path.ofText p).segments, s.text ≠ "") →
    ((t.spell p false).eval lib = (.ok none, after) ↔
      t.findName? (Path.ofText p).first.name = none ∧ after = lib)
  /-- Spelling fails just if the table of a property on the way cannot be had. -/
  faults : ∀ p joinWords lib fault after,
    (t.spell p joinWords).eval lib = (.error fault, after) ↔
      let path := Path.ofText (if joinWords then Path.withoutUnderscores p else p)
      Breaks lib t path.first path.rest fault after
  caseless_after : ∀ r₀ limit enabled calls p p' joinWords, upper p = upper p' →
    let lib := (Library.fresh r₀ limit enabled).afterAll calls
    ((t.spell p' joinWords).eval ((t.spell p joinWords).eval lib).2).1 =
      ((t.spell p joinWords).eval lib).1
  canonical_after : ∀ r₀ limit enabled calls p joinWords q,
    let lib := (Library.fresh r₀ limit enabled).afterAll calls
    ((t.spell p joinWords).eval lib).1 = .ok (some q) →
      ((t.spell q joinWords).eval ((t.spell p joinWords).eval lib).2).1 = .ok (some q)

end Table

/-- A spelling is a canonical form of a path, as far as the path names properties. -/
theorem spelling_lawful (t : Table) : t.SpellsLawfully where
  caseless p p' joinWords same := t.spell_congr same joinWords
  canonical p joinWords q lib after := Table.spell_again
  begins p q lib after := Table.spell_begins
  complete p lib := Table.spell_complete
  stops p q lib after := Table.spell_stops
  nothing p lib after := Table.spell_none
  faults p joinWords lib fault after := Table.spell_error
  caseless_after r₀ limit enabled calls p p' joinWords same := by
    rw [← t.spell_congr same]
    exact ((t.spell_transparent _ p joinWords).again
      (Library.afterAll_sound r₀ limit enabled calls) rfl).1
  canonical_after r₀ limit enabled calls p joinWords q := by
    intro lib done
    obtain ⟨after, spelled⟩ := Browsing.fst_eval_eq_ok.mp done
    have again := Table.spell_again spelled
    have repeated := ((t.spell_transparent _ q joinWords).again
      (Library.afterAll_sound r₀ limit enabled calls) rfl).1
    show ((t.spell q joinWords).eval ((t.spell p joinWords).eval lib).2).1 = _
    rw [again] at repeated
    rwa [spelled]

/-- The tables of a node and of its parent have the same names. -/
theorem exists_treeTable_names : ∃ held parent after, Registry.treeTable.1 = .ok held ∧
    (held.table.propertyTable "up").eval Registry.treeTable.2 = (.ok parent, after) ∧
    ∀ table ∈ [held.table, parent.table],
      table.names .read = ["id", "kids", "up"] ∧ table.names .write = ["id", "kids"] := by
  have names : Registry.treeTable.1.toOption.bind (fun held =>
      ((held.table.propertyTable "up").eval Registry.treeTable.2).1.toOption.map fun parent =>
        [held.table, parent.table].map fun table => (table.names .read, table.names .write)) =
      some [(["id", "kids", "up"], ["id", "kids"]), (["id", "kids", "up"], ["id", "kids"])] := by cbv
  obtain ⟨held, found, reached⟩ := Option.bind_eq_some_iff.mp names
  obtain ⟨parent, given, listed⟩ := Option.map_eq_some_iff.mp reached
  obtain ⟨after, reached⟩ := Browsing.fst_eval_eq_ok.mp (toOption_eq_some.mp given)
  refine ⟨held, parent, after, toOption_eq_some.mp found, reached, ?_⟩
  simpa using listed

/-- The `id` of a node's parent is found in any case. A name that the parent does not have ends the
spelling after the dot, and one that the node itself does not have leaves nothing to spell. -/
theorem spelling_lawful_tree :
    ∃ held last after, Registry.treeTable.1 = .ok held ∧
      held.table.AllNamed Registry.treeTable.2 (Path.ofText "UP.ID").segments ∧
      (held.table.spell "UP.ID" false).eval Registry.treeTable.2 = (.ok (some "up.id"), last) ∧
      upper "up.id" = upper "UP.ID" ∧
      (held.table.spell "UP.NAME" false).eval Registry.treeTable.2 = (.ok (some "up."), after) ∧
      (held.table.spell "up." false).eval Registry.treeTable.2 = (.ok (some "up."), after) ∧
      (held.table.spell "NAME.ID" false).eval Registry.treeTable.2 =
        (.ok none, Registry.treeTable.2) := by
  obtain ⟨held, parent, after, found, reached, names⟩ := exists_treeTable_names
  have lawful := spelling_lawful held.table
  have finds (table : Table) (listed : table ∈ [held.table, parent.table]) :
      table.findName? "UP" = some "up" ∧ table.findName? "ID" = some "id" ∧
        table.findName? "NAME" = none := by
    obtain ⟨readable, writable⟩ := names table listed
    simp only [Table.findName?, readable, writable]
    decide +kernel
  obtain ⟨up, -, missing⟩ := finds held.table List.mem_cons_self
  obtain ⟨-, parent_id, unnamed⟩ := finds parent.table (List.mem_cons_of_mem _ List.mem_cons_self)
  have unbracketed : '[' ∉ "UP.ID".toList ∧ '[' ∉ "NAME.ID".toList := by decide
  have nonempty : (∀ s ∈ (Path.ofText "UP.ID").segments, s.text ≠ "") ∧
      ∀ s ∈ (Path.ofText "NAME.ID").segments, s.text ≠ "" := by decide +kernel
  have all : held.table.AllNamed Registry.treeTable.2 (Path.ofText "UP.ID").segments :=
    .along up reached (.last parent_id)
  have spelled (p : String) (s : Segment) (split : Path.ofText p = ⟨⟨"UP", none, "UP"⟩, [s]⟩) :
      (held.table.spell p false).eval Registry.treeTable.2 =
        (.ok (some ("up" ++ "." ++ (parent.table.findName? s.text).getD "")), after) := by
    refine Table.spell_eval.mpr ⟨by simp, ?_⟩
    show Table.Spells _ _ (Path.ofText p).first (Path.ofText p).rest _ _
    rw [split]
    exact .along up reached (.last after parent.table s)
  obtain ⟨q, last, whole, folded⟩ := lawful.complete _ _ unbracketed.1 nonempty.1 all
  obtain rfl : q = "up.id" := by
    have spelling := spelled "UP.ID" ⟨"ID", none, "ID"⟩ (by decide +kernel)
    rw [parent_id, whole] at spelling
    exact Option.some.inj (Except.ok.inj (congrArg Prod.fst spelling))
  have stopped : (held.table.spell "UP.NAME" false).eval Registry.treeTable.2 =
      (.ok (some "up."), after) := by
    have stops := spelled "UP.NAME" ⟨"NAME", none, "NAME"⟩ (by decide +kernel)
    rw [unnamed] at stops
    exact stops
  exact ⟨held, last, after, found, all, whole, folded, stopped, lawful.canonical _ _ _ _ _ stopped,
    (lawful.nothing _ _ _ unbracketed.2 nonempty.2).mpr ⟨missing, rfl⟩⟩

end PropertyTables
