/-! # Indexes

* `Index α`: values under names, one value a name, in increasing order of the names. Names are
  compared by code point.
* `Index.find?`, `Index.insert`, `Index.names`: looking up, adding or replacing, and the order.
* `Index.find?_insert`: after an insertion the name has the new value and all others are as before.
-/

namespace PropertyTables
set_option autoImplicit false

/-- Values under names, in increasing order of the names. -/
structure Index (α : Type) where
  entries : List (String × α)
  sorted : entries.Pairwise fun a b => a.1 < b.1

namespace Index

variable {α : Type}

/-- The index without entries. -/
def empty : Index α := ⟨[], .nil⟩

instance : EmptyCollection (Index α) := ⟨empty⟩

/-- The names, in increasing order. -/
def names (x : Index α) : List String := x.entries.map (·.1)

def size (x : Index α) : Nat := x.entries.length

/-- The value under a name. -/
def find? (x : Index α) (name : String) : Option α := x.entries.lookup name

def contains (x : Index α) (name : String) : Bool := (x.find? name).isSome

theorem mem_names {x : Index α} {name : String} :
    name ∈ x.names ↔ ∃ value, x.find? name = some value := by
  simp only [names, List.mem_map, find?]
  constructor
  · rintro ⟨e, member, rfl⟩
    have found := List.lookup_isSome_iff.mpr ⟨e, member, beq_self_eq_true e.1⟩
    exact Option.isSome_iff_exists.mp found
  · rintro ⟨value, found⟩
    obtain ⟨before, after, split, -⟩ := List.lookup_eq_some_iff.mp found
    exact ⟨(name, value), by simp [split], rfl⟩

theorem names_sorted (x : Index α) : x.names.Pairwise (· < ·) := List.pairwise_map.mpr x.sorted

theorem names_nodup (x : Index α) : x.names.Nodup :=
  x.names_sorted.imp fun less => Std.ne_of_lt less

/-! ## Insertion -/

/-- Puts an entry in its place among sorted entries, instead of one of the same name. -/
def place (name : String) (value : α) : List (String × α) → List (String × α)
  | [] => [(name, value)]
  | e :: rest =>
    if name < e.1 then (name, value) :: e :: rest
    else if name = e.1 then (name, value) :: rest
    else e :: place name value rest

theorem mem_place {name : String} {value : α} {l : List (String × α)} {e : String × α}
    (h : e ∈ place name value l) : e = (name, value) ∨ e ∈ l := by
  induction l with
  | nil => simpa [place] using h
  | cons a rest ih =>
    rw [place] at h
    split at h
    · simpa using h
    · split at h
      · rcases List.mem_cons.mp h with h | h
        · exact .inl h
        · exact .inr (List.mem_cons_of_mem _ h)
      · rcases List.mem_cons.mp h with h | h
        · exact .inr (h ▸ List.mem_cons_self)
        · exact (ih h).imp id (List.mem_cons_of_mem _)

theorem sorted_place (name : String) (value : α) {l : List (String × α)}
    (h : l.Pairwise fun a b => a.1 < b.1) : (place name value l).Pairwise fun a b => a.1 < b.1 := by
  induction l with
  | nil => exact List.pairwise_singleton _ _
  | cons a rest ih =>
    obtain ⟨head, tail⟩ := List.pairwise_cons.mp h
    rw [place]
    split
    · rename_i before
      refine List.pairwise_cons.mpr ⟨fun b hb => ?_, h⟩
      rcases List.mem_cons.mp hb with rfl | hb
      · exact before
      · exact String.lt_trans before (head b hb)
    · split
      · rename_i same
        exact List.pairwise_cons.mpr ⟨fun b hb => same ▸ head b hb, tail⟩
      · rename_i after different
        refine List.pairwise_cons.mpr ⟨fun b hb => ?_, ih tail⟩
        rcases mem_place hb with rfl | hb
        · exact Std.lt_of_le_of_ne (String.not_lt.mp after) (Ne.symm different)
        · exact head b hb

theorem lookup_cons_eq {κ : Type} [BEq κ] [LawfulBEq κ] [DecidableEq κ] (other : κ) (a : κ × α)
    (l : List (κ × α)) :
    (a :: l).lookup other = if other = a.1 then some a.2 else l.lookup other := by
  rw [List.lookup_cons]
  by_cases h : other = a.1
  · simp [h]
  · simp [beq_false_of_ne h, h]

theorem lookup_place (name : String) (value : α) (l : List (String × α)) (other : String) :
    (place name value l).lookup other = if other = name then some value else l.lookup other := by
  induction l with
  | nil => simp [place, lookup_cons_eq]
  | cons a rest ih =>
    rw [place]
    split
    · rw [lookup_cons_eq]
    · split
      · rename_i same
        rw [lookup_cons_eq, lookup_cons_eq other a]
        by_cases h : other = name
        · simp [h]
        · have : ¬ other = a.1 := fun e => h (e.trans same.symm)
          simp [h, this]
      · rename_i different
        rw [lookup_cons_eq, ih, lookup_cons_eq]
        by_cases h : other = name
        · have : ¬ other = a.1 := fun e => different (h.symm.trans e)
          simp [h, h ▸ this]
        · simp [h]

/-- Puts a value under a name, instead of the one that was there. -/
def insert (x : Index α) (name : String) (value : α) : Index α :=
  ⟨place name value x.entries, sorted_place name value x.sorted⟩

theorem find?_insert (x : Index α) (name : String) (value : α) (other : String) :
    (x.insert name value).find? other = if other = name then some value else x.find? other :=
  lookup_place name value x.entries other

/-- Inserts pairs one after the other, so that the last of one name counts. -/
def ofList (pairs : List (String × α)) : Index α :=
  pairs.foldl (fun x p => x.insert p.1 p.2) empty

end Index

end PropertyTables
