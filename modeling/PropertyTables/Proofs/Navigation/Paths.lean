import PropertyTables.Path
import Mathlib.Data.List.TakeWhile

/-! # Paths put together and taken apart

* `Path.ofText_dot`: a dot between two texts ends the last segment of the first.
* `Path.text_ofText`: the segments of a text, put together again, are the text.
* `Path.withoutIndexes`: the names of a path with dots between them. `Path.ofText_withoutIndexes`
  says that it has the same segments without their indexes, `Path.withoutIndexes_of_notMem` that it
  is the path itself if that has no opening bracket.
* `Path.way`, `Path.goal`: the names before the last one, and the last one.
-/

namespace PropertyTables
set_option autoImplicit false

/-! ## Parts between dots -/

theorem mem_of_mem_splitOn {dot : Char} {cs part : List Char} (h : part ∈ cs.splitOn dot) :
    ∀ c ∈ part, c ≠ dot ∧ c ∈ cs := by
  induction cs generalizing part with
  | nil =>
    rw [List.splitOn_nil, List.mem_singleton] at h
    subst h
    exact nofun
  | cons c cs ih =>
    have deeper {part : List Char} (found : part ∈ cs.splitOn dot) :
        ∀ c' ∈ part, c' ≠ dot ∧ c' ∈ c :: cs := by
      intro c' member
      obtain ⟨differs, listed⟩ := ih found c' member
      exact ⟨differs, List.mem_cons_of_mem c listed⟩
    obtain ⟨first, more, split⟩ := List.exists_cons_of_ne_nil (List.splitOn_ne_nil dot cs)
    have head : first ∈ cs.splitOn dot := split ▸ List.mem_cons_self
    have tail (part : List Char) (later : part ∈ more) : part ∈ cs.splitOn dot :=
      split ▸ List.mem_cons_of_mem first later
    rw [List.splitOn_cons_eq_if_modifyHead, split] at h
    split at h
    · rcases List.mem_cons.mp h with rfl | found
      · exact nofun
      · exact deeper (split ▸ found)
    · rename_i differs
      rcases List.mem_cons.mp h with rfl | later
      · refine List.forall_mem_cons.mpr ⟨⟨?_, List.mem_cons_self⟩, deeper head⟩
        exact fun same => differs (beq_iff_eq.mpr same)
      · exact deeper (tail part later)

namespace Segment

/-- The segment without its index. -/
def bare (s : Segment) : Segment := ⟨s.name, none, s.name⟩

theorem ofChars_of_notMem {cs : List Char} (h : '[' ∉ cs) :
    ofChars cs = ⟨String.ofList cs, none, String.ofList cs⟩ := by
  have plain : ∀ c ∈ cs, (c != '[') = true := by
    intro c member
    exact bne_iff_ne.mpr fun same => h (same ▸ member)
  rw [ofChars, List.takeWhile_eq_self_iff.mpr plain, List.dropWhile_eq_nil_iff.mpr plain]

theorem dropClosing_closed (cs : List Char) : dropClosing (cs ++ [']']) = cs := by
  rw [dropClosing, List.getLast?_concat, if_pos rfl, List.dropLast_concat]

/-- The first opening bracket ends the name. -/
theorem ofChars_bracket {name : List Char} (plain : '[' ∉ name) (rest : List Char) :
    ofChars (name ++ '[' :: rest) = ⟨String.ofList name, some (String.ofList (dropClosing rest)),
      String.ofList (name ++ '[' :: rest)⟩ := by
  have inside : ∀ c ∈ name, (c != '[') = true := by
    intro c member
    exact bne_iff_ne.mpr fun same => plain (same ▸ member)
  rw [ofChars, List.takeWhile_append_of_pos inside, List.takeWhile_cons_of_neg (by simp),
    List.append_nil, List.dropWhile_append_of_pos inside, List.dropWhile_cons_of_neg (by simp)]

theorem ofChars_indexed {name : List Char} (plain : '[' ∉ name) (index : List Char) :
    ofChars (name ++ '[' :: (index ++ [']'])) = ⟨String.ofList name, some (String.ofList index),
      String.ofList (name ++ '[' :: (index ++ [']']))⟩ := by
  rw [ofChars_bracket plain, dropClosing_closed]

theorem notMem_name_ofChars (cs : List Char) : '[' ∉ (ofChars cs).name.toList := by
  intro member
  rw [ofChars, String.toList_ofList] at member
  simpa using List.mem_takeWhile_imp member

/-- A name is read back as a segment without index. -/
theorem ofChars_name (cs : List Char) : ofChars (ofChars cs).name.toList = (ofChars cs).bare := by
  rw [ofChars_of_notMem (notMem_name_ofChars cs), String.ofList_toList, bare]

theorem mem_of_mem_name_ofChars {c : Char} {cs : List Char} (h : c ∈ (ofChars cs).name.toList) :
    c ∈ cs := by
  rw [ofChars, String.toList_ofList] at h
  exact (List.takeWhile_prefix _).subset h

end Segment

namespace Path

/-! ## Segments of texts -/

theorem segments_ofText (text : String) :
    (ofText text).segments = (text.toList.splitOn '.').map Segment.ofChars := by
  obtain ⟨cs, more, split⟩ := List.exists_cons_of_ne_nil (List.splitOn_ne_nil '.' text.toList)
  rw [ofText, split]
  rfl

theorem ext_segments {p p' : Path} (h : p.segments = p'.segments) : p = p' := by
  obtain ⟨first, rest⟩ := List.cons.inj h
  cases p
  cases p'
  subst first rest
  rfl

theorem segments_dot (q r : String) :
    (ofText (q ++ "." ++ r)).segments = (ofText q).segments ++ (ofText r).segments := by
  have text : (q ++ "." ++ r).toList = q.toList ++ '.' :: r.toList := by
    rw [String.toList_append, String.toList_append, List.append_assoc]
    rfl
  rw [segments_ofText, segments_ofText, segments_ofText, text, List.splitOn_append_cons_self,
    List.map_append]

theorem ofText_dot (q r : String) :
    ofText (q ++ "." ++ r) = ⟨(ofText q).first, (ofText q).rest ++ (ofText r).segments⟩ :=
  ext_segments (segments_dot q r)

theorem texts_ofText (path : String) :
    (ofText path).segments.map (·.text.toList) = path.toList.splitOn '.' := by
  rw [segments_ofText, List.map_map]
  refine (List.map_congr_left fun cs _ => ?_).trans (List.map_id _)
  exact String.toList_ofList

theorem text_ofText (path : String) : (ofText path).text = path := by
  rw [text, join, texts_ofText, List.intercalate_splitOn, String.ofList_toList]

theorem join_singleton (s : Segment) : join [s] = s.text := by
  rw [join, List.map_singleton, List.intercalate_singleton, String.ofList_toList]

theorem join_cons (s next : Segment) (rest : List Segment) :
    join (s :: next :: rest) = s.text ++ "." ++ join (next :: rest) := by
  have split : (join (s :: next :: rest)).toList =
      s.text.toList ++ ['.'] ++ (join (next :: rest)).toList := by
    rw [join, join, String.toList_ofList, String.toList_ofList]
    exact List.intercalate_cons_cons
  rw [← String.toList_inj, split, String.toList_append, String.toList_append]
  rfl

/-- A text without dots is one segment. -/
theorem ofText_of_notMem {text : String} (h : '.' ∉ text.toList) :
    ofText text = ⟨Segment.ofChars text.toList, []⟩ := by
  refine ext_segments ?_
  rw [segments_ofText, List.splitOn_eq_singleton h]
  rfl

section
variable {path : String} {s : Segment} (listed : s ∈ (ofText path).segments)
include listed

/-- What a segment of a path is made of is in the path, and no part of it is a dot. -/
theorem mem_of_mem_segment {c : Char} (h : c ∈ s.name.toList ∨ c ∈ s.text.toList) :
    c ≠ '.' ∧ c ∈ path.toList := by
  rw [segments_ofText] at listed
  obtain ⟨part, between, rfl⟩ := List.mem_map.mp listed
  refine mem_of_mem_splitOn between c (h.elim Segment.mem_of_mem_name_ofChars fun member => ?_)
  rwa [Segment.ofChars, String.toList_ofList] at member

theorem notMem_name : '[' ∉ s.name.toList := by
  rw [segments_ofText] at listed
  obtain ⟨cs, -, rfl⟩ := List.mem_map.mp listed
  exact Segment.notMem_name_ofChars cs

theorem name_eq_text (h : '[' ∉ path.toList) : s.name = s.text := by
  rw [segments_ofText] at listed
  obtain ⟨cs, between, rfl⟩ := List.mem_map.mp listed
  have plain : '[' ∉ cs := fun member => h (mem_of_mem_splitOn between '[' member).2
  rw [Segment.ofChars_of_notMem plain]

end

theorem withoutUnderscores_of_notMem {path : String} (h : '_' ∉ path.toList) :
    withoutUnderscores path = path := by
  have plain : ∀ c ∈ path.toList, (c != '_') = true := by
    intro c member
    exact bne_iff_ne.mpr fun same => h (same ▸ member)
  rw [withoutUnderscores, List.filter_eq_self.mpr plain, String.ofList_toList]

/-! ## Indexes left out -/

/-- The names of a path with dots between them. -/
def withoutIndexes (path : String) : String := join ((ofText path).segments.map Segment.bare)

theorem toList_withoutIndexes (path : String) : (withoutIndexes path).toList =
    ['.'].intercalate ((ofText path).segments.map (·.name.toList)) := by
  rw [withoutIndexes, join, String.toList_ofList, List.map_map]
  rfl

theorem segments_withoutIndexes (path : String) :
    (ofText (withoutIndexes path)).segments = (ofText path).segments.map Segment.bare := by
  have split : (withoutIndexes path).toList.splitOn '.' =
      (ofText path).segments.map (·.name.toList) := by
    rw [toList_withoutIndexes]
    refine List.splitOn_intercalate '.' (fun name member dotted => ?_) nofun
    obtain ⟨s, listed, rfl⟩ := List.mem_map.mp member
    rw [segments_ofText] at listed
    obtain ⟨part, between, rfl⟩ := List.mem_map.mp listed
    exact (mem_of_mem_splitOn between '.' (Segment.mem_of_mem_name_ofChars dotted)).1 rfl
  rw [segments_ofText, split, segments_ofText, List.map_map, List.map_map, List.map_map]
  exact List.map_congr_left fun cs _ => Segment.ofChars_name cs

theorem ofText_withoutIndexes (path : String) : ofText (withoutIndexes path) =
    ⟨(ofText path).first.bare, (ofText path).rest.map Segment.bare⟩ :=
  ext_segments (segments_withoutIndexes path)

theorem withoutIndexes_of_notMem {path : String} (h : '[' ∉ path.toList) :
    withoutIndexes path = path := by
  have names : (ofText path).segments.map (·.name.toList) = path.toList.splitOn '.' := by
    rw [← texts_ofText]
    exact List.map_congr_left fun s listed => congrArg String.toList (name_eq_text listed h)
  rw [← String.ofList_toList (s := withoutIndexes path), toList_withoutIndexes, names,
    List.intercalate_splitOn, String.ofList_toList]

/-! ## The way and the goal -/

/-- The names of the segments before the last. -/
def way (p : Path) : List String := p.segments.dropLast.map (·.name)

/-- The name of the last segment. -/
def goal (p : Path) : String := (p.segments.getLast (List.cons_ne_nil _ _)).name

end Path

end PropertyTables
