import PropertyTables.Proofs.Registry.Runs

/-! # What growth leaves as it is

* `Registry.GrowsTo`: every declaration is kept, and every component keeps its array type. Each
  operation grows a registry in this sense, `Step.growsTo`.
* `Registry.Interns`: growth by array types alone, as the computations over a registry bring it
  about. It leaves the interfaces of all types as they are, and is nothing where the number of
  identities stays the same.
-/

namespace PropertyTables
set_option autoImplicit false

namespace Registry

/-! ## Growth -/

/-- What one registry says of declarations and array types, the other says too. -/
structure GrowsTo (r later : Registry) : Prop where
  declared : r.Extends later
  arrays : ∀ component id, r.findArray? component = some id → later.findArray? component = some id

theorem GrowsTo.refl (r : Registry) : r.GrowsTo r := ⟨fun _ _ h => h, fun _ _ h => h⟩

theorem GrowsTo.trans {a b c : Registry} (hab : a.GrowsTo b) (hbc : b.GrowsTo c) : a.GrowsTo c where
  declared id d h := hbc.declared id d (hab.declared id d h)
  arrays component id h := hbc.arrays component id (hab.arrays component id h)

theorem GrowsTo.find {r later : Registry} (h : r.GrowsTo later) {id : TypeId} {d : Declaration}
    (found : r.find id = .ok d) : later.find id = .ok d :=
  find_eq_ok.mpr (h.declared id d (find_eq_ok.mp found))

theorem findArray?_append {r : Registry} {component id : TypeId}
    (known : r.findArray? component = some id) (slot : Option Declaration) (names : Index TypeId)
    (fits : ∀ d, slot = some d → d.id = ⟨r.size⟩) :
    (r.append slot names fits).findArray? component = some id := by
  obtain ⟨i, found, rfl⟩ := Option.map_eq_some_iff.mp known
  rw [findArray?, append, List.findIdx?_append, found]
  rfl

/-- Replacing an entry that a search passes over by another such entry changes no search. -/
theorem findIdx?_set {α : Type} {p : α → Bool} {l : List α} {i : Nat} {a b : α}
    (here : l[i]? = some a) (old : p a = false) (new : p b = false) :
    (l.set i b).findIdx? p = l.findIdx? p := by
  induction l generalizing i with
  | nil => rfl
  | cons c rest ih =>
    cases i with
    | zero =>
      obtain rfl : c = a := by simpa using here
      rw [List.set_cons_zero, List.findIdx?_cons, List.findIdx?_cons, old, new]
    | succ i =>
      rw [List.set_cons_succ, List.findIdx?_cons, List.findIdx?_cons, ih (by simpa using here)]

theorem findArray?_publish {r grown : Registry} {draft : Draft} (h : r.publish draft = .ok grown)
    (component : TypeId) : grown.findArray? component = r.findArray? component := by
  have nominal : draft.declaration.flavor ≠ .array component := by
    cases kind : draft.kind <;> simp [Draft.declaration, kind, DraftKind.flavor]
  unfold publish at h
  split at h
  · cases h
  · cases h
  · rename_i reserved
    cases h
    rw [findArray?, findArray?, findIdx?_set reserved rfl]
    simp [nominal]

theorem findArray?_internArray {r grown : Registry} {component id : TypeId}
    (h : r.internArray component = .ok (id, grown)) : grown.findArray? component = some id := by
  rcases internArray_cases h with ⟨known, rfl⟩ | ⟨element, found, unknown, rfl, rfl⟩
  · exact known
  · have before : r.slots.findIdx? (fun slot => slot.any (·.flavor = .array component)) = none :=
      Option.map_eq_none_iff.mp unknown
    rw [findArray?, append, List.findIdx?_append, before]
    simp [arrayDeclaration, size]

theorem growsTo_internArray {r grown : Registry} {component id : TypeId}
    (h : r.internArray component = .ok (id, grown)) : r.GrowsTo grown := by
  refine ⟨(Step.internArray h).extends, fun other found known => ?_⟩
  rcases internArray_cases h with ⟨-, rfl⟩ | ⟨element, declared, -, rfl, rfl⟩
  · exact known
  · exact findArray?_append known _ _ _

theorem Step.growsTo {r grown : Registry} (h : Step r grown) : r.GrowsTo grown := by
  cases h with
  | reserve space name kind =>
    have step := Step.reserve r space name kind
    exact ⟨step.extends, fun component id known =>
      findArray?_append known none r.names (by simp)⟩
  | publish draft done =>
    exact ⟨(Step.publish draft done).extends, fun component id known =>
      (findArray?_publish done component).trans known⟩
  | internArray done => exact growsTo_internArray done

/-! ## Growth by array types -/

/-- Array types were interned, in any number. -/
def Interns (r grown : Registry) : Prop :=
  Relation.ReflTransGen (fun a b => ∃ component id, a.internArray component = .ok (id, b)) r grown

theorem Interns.refl (r : Registry) : r.Interns r := Relation.ReflTransGen.refl

theorem Interns.trans {a b c : Registry} (hab : a.Interns b) (hbc : b.Interns c) : a.Interns c :=
  Relation.ReflTransGen.trans hab hbc

theorem Interns.growsTo {r grown : Registry} (h : r.Interns grown) : r.GrowsTo grown := by
  induction h with
  | refl => exact .refl r
  | tail _ step ih =>
    obtain ⟨component, id, done⟩ := step
    exact ih.trans (growsTo_internArray done)

/-- Interning an array type either finds it or hands out an identity for it. -/
theorem internArray_same_or_larger {r grown : Registry} {component id : TypeId}
    (h : r.internArray component = .ok (id, grown)) : grown = r ∨ r.size < grown.size := by
  rcases internArray_cases h with ⟨-, same⟩ | ⟨element, found, -, -, rfl⟩
  · exact .inl same
  · exact .inr (by simp [append, size])

theorem Interns.same_or_larger {r grown : Registry} (h : r.Interns grown) :
    grown = r ∨ r.size < grown.size := by
  induction h with
  | refl => exact .inl rfl
  | tail _ step ih =>
    obtain ⟨component, id, done⟩ := step
    rcases internArray_same_or_larger done with rfl | larger
    · exact ih
    · rcases ih with rfl | before
      · exact .inr larger
      · exact .inr (Nat.lt_trans before larger)

/-- What is interned on the way from a registry back to itself is nothing. -/
theorem Interns.antisymm {r grown : Registry} (h : r.Interns grown) (back : grown.Interns r) :
    grown = r := by
  rcases h.same_or_larger with same | larger
  · exact same
  · rcases back.same_or_larger with same | smaller
    · exact same.symm
    · omega

theorem Interns.superinterfaces_eq {r grown : Registry} (h : r.Interns grown) (id : TypeId) :
    grown.superinterfaces id = r.superinterfaces id := by
  induction h with
  | refl => rfl
  | @tail a b _ step ih =>
    obtain ⟨component, array, done⟩ := step
    rw [← ih]
    rcases internArray_eq_ok done with ⟨-, rfl⟩ | ⟨-, -, element, later, -, after⟩
    · rfl
    · rw [superinterfaces, superinterfaces, after]
      split
      · rename_i here
        rw [here, find?_size]
        rfl
      · rfl

end Registry

end PropertyTables
