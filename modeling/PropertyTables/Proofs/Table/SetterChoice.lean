import PropertyTables.Proofs.Table.Choice

/-! # What comes of setters

* `exists_belowAll`: of finitely many types, any two of which are comparable, one is assignable to
  all.
* `Registry.SetterOutcome`: the ways in which a choice among setters ends, each with what holds of
  the list then.
* `chooseSetter_outcome`: where all types are declared, every choice ends in one of them. An error
  names types that are incomparable.
-/

namespace PropertyTables.Registry
set_option autoImplicit false

variable {r : Registry}

/-! ## Incomparable types -/

theorem incomparable_eq_true {t u : TypeId} :
    r.incomparable t u = .ok true ↔
      r.isAssignable t u = .ok false ∧ r.isAssignable u t = .ok false := by
  rw [incomparable, bind_eq_ok]
  constructor
  · rintro ⟨above, first, done⟩
    cases above with
    | true => cases done
    | false =>
      obtain ⟨below, second, negated⟩ := bind_pure_eq_ok.mp done
      cases below with
      | true => cases negated
      | false => exact ⟨first, second⟩
  · rintro ⟨first, second⟩
    exact ⟨false, first, bind_pure_eq_ok.mpr ⟨false, second, rfl⟩⟩

theorem comparable_of_incomparable {t u : TypeId} (done : r.incomparable t u = .ok false) :
    r.isAssignable t u = .ok true ∨ r.isAssignable u t = .ok true := by
  obtain ⟨above, first, done⟩ := bind_eq_ok.mp done
  cases above with
  | true => exact .inl first
  | false =>
    obtain ⟨below, second, negated⟩ := bind_pure_eq_ok.mp done
    cases below with
    | true => exact .inr second
    | false => cases negated

theorem incomparable_answers (hr : r.Coherent) (closed : r.SupertypesPublished) {t u : TypeId}
    (ht : r.Published t) (hu : r.Published u) : ∃ answer, r.incomparable t u = .ok answer := by
  obtain ⟨above, first⟩ := isAssignable_answers hr closed ht hu
  obtain ⟨below, second⟩ := isAssignable_answers hr closed hu ht
  rw [incomparable, first]
  cases above with
  | true => exact ⟨false, rfl⟩
  | false => exact ⟨!below, by rw [second]; rfl⟩

/-! ## The search for incomparable types -/

theorem incomparableWith?_eq_some {a b : Overload} {rest : List Overload}
    (done : r.incomparableWith? a rest = .ok (some b)) :
    b ∈ rest ∧ r.incomparable a.type b.type = .ok true := by
  induction rest with
  | nil => cases done
  | cons c rest ih =>
    obtain ⟨differ, first, done⟩ := bind_eq_ok.mp done
    cases differ with
    | true =>
      cases done
      exact ⟨List.mem_cons_self, first⟩
    | false =>
      obtain ⟨member, apart⟩ := ih done
      exact ⟨List.mem_cons_of_mem c member, apart⟩

theorem incomparableWith?_eq_none {a : Overload} {rest : List Overload}
    (done : r.incomparableWith? a rest = .ok none) :
    ∀ b ∈ rest, r.incomparable a.type b.type = .ok false := by
  induction rest with
  | nil => simp
  | cons c rest ih =>
    obtain ⟨differ, first, done⟩ := bind_eq_ok.mp done
    cases differ with
    | true => cases done
    | false => exact List.forall_mem_cons.mpr ⟨first, ih done⟩

theorem incomparableWith?_answers {a : Overload} {rest : List Overload}
    (answers : ∀ b ∈ rest, ∃ answer, r.incomparable a.type b.type = .ok answer) :
    ∃ found, r.incomparableWith? a rest = .ok found := by
  induction rest with
  | nil => exact ⟨none, rfl⟩
  | cons b rest ih =>
    obtain ⟨⟨differ, first⟩, later⟩ := List.forall_mem_cons.mp answers
    rw [incomparableWith?, first]
    cases differ with
    | true => exact ⟨some b, rfl⟩
    | false => exact ih later

theorem incomparablePair?_eq_some {a b : Overload} {all : List Overload}
    (done : r.incomparablePair? all = .ok (some (a, b))) :
    [a, b].Sublist all ∧ r.incomparable a.type b.type = .ok true := by
  induction all with
  | nil => cases done
  | cons c rest ih =>
    obtain ⟨found, first, done⟩ := bind_eq_ok.mp done
    cases found with
    | some d =>
      cases done
      obtain ⟨member, apart⟩ := incomparableWith?_eq_some first
      exact ⟨(List.singleton_sublist.mpr member).cons_cons a, apart⟩
    | none =>
      obtain ⟨listed, apart⟩ := ih done
      exact ⟨listed.cons c, apart⟩

theorem incomparablePair?_eq_none {all : List Overload} (done : r.incomparablePair? all = .ok none) :
    all.Pairwise fun a b => r.incomparable a.type b.type = .ok false := by
  induction all with
  | nil => exact .nil
  | cons a rest ih =>
    obtain ⟨found, first, done⟩ := bind_eq_ok.mp done
    cases found with
    | some b => cases done
    | none => exact .cons (incomparableWith?_eq_none first) (ih done)

theorem incomparablePair?_answers {all : List Overload}
    (answers : ∀ a ∈ all, ∀ b ∈ all, ∃ answer, r.incomparable a.type b.type = .ok answer) :
    ∃ found, r.incomparablePair? all = .ok found := by
  induction all with
  | nil => exact ⟨none, rfl⟩
  | cons a rest ih =>
    obtain ⟨found, first⟩ := incomparableWith?_answers fun b hb =>
      answers a List.mem_cons_self b (List.mem_cons_of_mem a hb)
    rw [incomparablePair?, first]
    cases found with
    | some b => exact ⟨some (a, b), rfl⟩
    | none =>
      exact ih fun b hb c hc => answers b (List.mem_cons_of_mem a hb) c (List.mem_cons_of_mem a hc)

/-! ## A type below all -/

/-- The least of the types but the first is compared with the first. -/
theorem exists_belowAll (hr : r.Coherent) (closed : r.SupertypesPublished) {all : List Overload}
    (nonempty : all ≠ [])
    (comparable : all.Pairwise fun a b => r.incomparable a.type b.type = .ok false) :
    ∃ o ∈ all, r.BelowAll o.type all := by
  induction all with
  | nil => exact absurd rfl nonempty
  | cons a rest ih =>
    by_cases last : rest = []
    · subst last
      exact ⟨a, List.mem_cons_self, List.forall_mem_singleton.mpr (isAssignable_self a.type)⟩
    obtain ⟨a_comparable, rest_comparable⟩ := List.pairwise_cons.mp comparable
    obtain ⟨o, member, below⟩ := ih last rest_comparable
    rcases comparable_of_incomparable (a_comparable o member) with o_below | a_below
    · exact ⟨o, List.mem_cons_of_mem a member, List.forall_mem_cons.mpr ⟨o_below, below⟩⟩
    · refine ⟨a, List.mem_cons_self,
        List.forall_mem_cons.mpr ⟨isAssignable_self a.type, fun b hb => ?_⟩⟩
      exact hr.isAssignable_trans closed (below b hb) a_below

/-! ## Outcomes -/

/-- The ways in which the choice among the setters `all` of a property may end. -/
inductive SetterOutcome (r : Registry) (property : String) (readType : Option TypeId)
    (all : List Overload) : Except Fault Method → Prop
  /-- The first setter of the type that is read counts. -/
  | matching {before after : List Overload} {w : Overload} (split : all = before ++ w :: after)
      (read : some w.type = readType) (earlier : ∀ o ∈ before, some o.type ≠ readType) :
      SetterOutcome r property readType all (.ok w.method)
  /-- No setter has the type that is read, and the last one of the narrowest type counts. -/
  | narrowest {before after : List Overload} {w : Overload}
      (unread : ∀ o ∈ all, some o.type ≠ readType) (split : all = before ++ w :: after)
      (below : r.BelowAll w.type all) (later : ∀ o ∈ after, ¬ r.BelowAll o.type all) :
      SetterOutcome r property readType all (.ok w.method)
  /-- There is no narrowest type, and two incomparable ones are named. -/
  | ambiguous {a b : Overload} {owner first second : String}
      (unread : ∀ o ∈ all, some o.type ≠ readType) (without : ∀ o ∈ all, ¬ r.BelowAll o.type all)
      (pair : [a, b].Sublist all) (not_above : r.isAssignable a.type b.type = .ok false)
      (not_below : r.isAssignable b.type a.type = .ok false)
      (named : r.fullName b.method.declaring = .ok owner)
      (first_named : r.fullName a.type = .ok first)
      (second_named : r.fullName b.type = .ok second) :
      SetterOutcome r property readType all (.error (.ambiguousSetter property owner first second))

theorem chooseSetter_outcome (hr : r.Coherent) (closed : r.SupertypesPublished) (property : String)
    (readType : Option TypeId) {first second : Overload} {others : List Overload}
    (types : ∀ o ∈ first :: second :: others, r.Published o.type)
    (owners : ∀ o ∈ first :: second :: others, r.Published o.method.declaring) :
    r.SetterOutcome property readType (first :: second :: others)
      (r.chooseSetter property readType first second others) := by
  unfold chooseSetter
  dsimp only
  cases matching : (first :: second :: others).find? (some ·.type == readType) with
  | some w =>
    obtain ⟨read, before, after, split, earlier⟩ := List.find?_eq_some_iff_append.mp matching
    exact .matching split (by simpa using read) (by simpa using earlier)
  | none =>
    have unread : ∀ o ∈ first :: second :: others, some o.type ≠ readType := by
      simpa using List.find?_eq_none.mp matching
    obtain ⟨narrowest, searched⟩ := narrowestSetter?_answers fun a ha b hb =>
      isAssignable_answers hr closed (types b hb) (types a (List.mem_reverse.mp ha))
    simp only [searched]
    cases narrowest with
    | some w =>
      obtain ⟨l, l', reversed, below, later⟩ := narrowestSetter?_eq_some searched
      have split : first :: second :: others = l'.reverse ++ w :: l.reverse := by
        rw [← List.reverse_reverse (first :: second :: others), reversed]
        simp
      exact .narrowest unread split below (by simpa using later)
    | none =>
      have without (o : Overload) (ho : o ∈ first :: second :: others) :
          ¬ r.BelowAll o.type (first :: second :: others) :=
        not_below_of_narrowestSetter? searched (List.mem_reverse.mpr ho)
      obtain ⟨found, compared⟩ := incomparablePair?_answers fun a ha b hb =>
        incomparable_answers hr closed (types a ha) (types b hb)
      cases found with
      | none =>
        -- types that are all comparable would have a narrowest among them
        obtain ⟨o, ho, below⟩ := exists_belowAll hr closed (List.cons_ne_nil first _)
          (incomparablePair?_eq_none compared)
        exact absurd below (without o ho)
      | some pair =>
        obtain ⟨a, b⟩ := pair
        obtain ⟨listed, apart⟩ := incomparablePair?_eq_some compared
        obtain ⟨not_above, not_below⟩ := incomparable_eq_true.mp apart
        have ha := listed.subset List.mem_cons_self
        have hb := listed.subset (List.mem_cons_of_mem a (List.mem_singleton_self b))
        obtain ⟨owner, named⟩ := (owners b hb).fullName
        obtain ⟨one, first_named⟩ := (types a ha).fullName
        obtain ⟨other, second_named⟩ := (types b hb).fullName
        simp only [compared]
        show r.SetterOutcome property readType _ (do
          throw (.ambiguousSetter property (← r.fullName b.method.declaring)
            (← r.fullName a.type) (← r.fullName b.type)))
        rw [named, first_named, second_named]
        exact .ambiguous unread without listed not_above not_below named first_named second_named

end PropertyTables.Registry
