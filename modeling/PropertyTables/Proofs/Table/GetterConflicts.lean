import PropertyTables.Proofs.Table.Candidates

/-! # Conflicts between getters

* `Registry.Resolvable`: when there is a choice among getters, in whatever order they stand.
* `Registry.StandsOut`: the one getter that counts then.
* `standsOut_iff_wins`: it is the getter that the search prefers to all others.
* `resolveGetter_exact`: resolving succeeds for resolvable lists alone, with the getter that stands
  out, and fails for all others by ambiguity.
-/

namespace PropertyTables
set_option autoImplicit false

namespace Registry

/-- Whether there is a choice among getters: two of one type are a boolean pair, one of them with a
name that starts with `is`, and some type is assignable to all. -/
structure Resolvable (r : Registry) (os : List Overload) : Prop where
  apart : os.Pairwise fun a b => a.type = b.type →
    a.type = Primitive.boolean.typeId ∧ a.startsWithIs ≠ b.startsWithIs
  below : ∃ o ∈ os, r.BelowAll o.type os

/-- Whether getter `w` is the only one whose type is assignable to all, up to the other one of a
boolean pair, in which it is the one that starts with `is`. -/
structure StandsOut (r : Registry) (os : List Overload) (w : Overload) : Prop where
  listed : w ∈ os
  below : r.BelowAll w.type os
  alone : ∀ o ∈ os, r.BelowAll o.type os → o = w ∨
    o.type = Primitive.boolean.typeId ∧ w.type = Primitive.boolean.typeId ∧
      w.startsWithIs = true ∧ o.startsWithIs = false

variable {r : Registry} {os os' ws : List Overload} {v w : Overload}

theorem BelowAll.perm {t : TypeId} (h : r.BelowAll t os) (perm : os.Perm os') : r.BelowAll t os' :=
  fun b hb => h b (perm.mem_iff.mpr hb)

theorem Resolvable.keys (h : r.Resolvable os) : (os.map Overload.key).Pairwise Overload.Apart :=
  List.pairwise_map.mpr h.apart

theorem Resolvable.perm (h : r.Resolvable os) (perm : os.Perm os') : r.Resolvable os' where
  apart := by
    have keys := (perm.map Overload.key).pairwise h.keys Overload.Apart.symm
    exact List.pairwise_map.mp keys
  below := by
    obtain ⟨o, ho, below⟩ := h.below
    exact ⟨o, perm.mem_iff.mp ho, below.perm perm⟩

theorem StandsOut.perm (h : r.StandsOut os w) (perm : os.Perm os') : r.StandsOut os' w where
  listed := perm.mem_iff.mp h.listed
  below := h.below.perm perm
  alone o ho below := h.alone o (perm.mem_iff.mpr ho) (below.perm perm.symm)

theorem StandsOut.unique (hv : r.StandsOut os v) (hw : r.StandsOut os w) : v = w := by
  rcases hw.alone v hv.listed hv.below with same | ⟨-, -, -, v_plain⟩
  · exact same
  rcases hv.alone w hw.listed hw.below with same | ⟨-, -, v_is, -⟩
  · exact same.symm
  · rw [v_plain] at v_is
    cases v_is

/-! ## What the search finds -/

theorem Wins.belowAll (wins : r.Wins w ws) : r.BelowAll w.type (w :: ws) := by
  refine List.forall_mem_cons.mpr ⟨isAssignable_self w.type, fun b hb => ?_⟩
  by_cases same : w.type = b.type
  · rw [same]
    exact isAssignable_self b.type
  · have preferred := wins b hb
    rwa [prefersGetter, if_neg same] at preferred

theorem standsOut_iff_wins (order : r.SubtypeOrder)
    (apart : ((w :: ws).map Overload.key).Pairwise Overload.Apart) :
    r.StandsOut (w :: ws) w ↔ r.Wins w ws := by
  rw [List.pairwise_map, List.pairwise_cons] at apart
  constructor
  · intro h b hb
    by_cases same : w.type = b.type
    · rw [prefersGetter, if_pos same]
      rcases h.alone b (List.mem_cons_of_mem w hb) (same ▸ h.below) with rfl | ⟨-, -, w_is, b_plain⟩
      · exact absurd rfl (apart.1 b hb rfl).2
      · rw [w_is, b_plain]
        rfl
    · rw [prefersGetter, if_neg same]
      exact h.below b (List.mem_cons_of_mem w hb)
  · refine fun wins => ⟨List.mem_cons_self, wins.belowAll, fun o ho below => ?_⟩
    rcases List.mem_cons.mp ho with same | other
    · exact .inl same
    have same : w.type = o.type :=
      order.antisymm w.type o.type (below w List.mem_cons_self) (wins.belowAll o ho)
    have preferred := wins o other
    rw [prefersGetter, if_pos same, Except.ok.injEq, Bool.and_eq_true, Bool.not_eq_true'] at preferred
    obtain ⟨boolean, -⟩ := apart.1 o other same
    exact .inr ⟨same ▸ boolean, boolean, preferred⟩

/-- Of two getters with the narrowest type, the one that starts with `is` is taken. -/
theorem Resolvable.exists_wins (h : r.Resolvable os) : ∃ w ws, os.Perm (w :: ws) ∧ r.Wins w ws := by
  obtain ⟨o, ho, o_below⟩ := h.below
  obtain ⟨w, hw, type, first⟩ : ∃ w ∈ os, w.type = o.type ∧
      (w.startsWithIs = false → ∀ b ∈ os, b.type = w.type → b.startsWithIs = false) := by
    by_cases some_is : ∃ v ∈ os, v.type = o.type ∧ v.startsWithIs = true
    · obtain ⟨v, hv, type, v_is⟩ := some_is
      exact ⟨v, hv, type, fun plain => by rw [v_is] at plain; cases plain⟩
    · refine ⟨o, ho, rfl, fun _ b hb type => Bool.eq_false_iff.mpr fun b_is => ?_⟩
      exact some_is ⟨b, hb, type, b_is⟩
  obtain ⟨before, after, rfl⟩ := List.append_of_mem hw
  have moved : (before ++ w :: after).Perm (w :: (before ++ after)) := List.perm_middle
  refine ⟨w, before ++ after, moved, fun b hb => ?_⟩
  have listed := moved.mem_iff.mpr (List.mem_cons_of_mem w hb)
  by_cases same : w.type = b.type
  · obtain ⟨-, differ⟩ := (List.pairwise_cons.mp (h.perm moved).apart).1 b hb same
    rw [prefersGetter, if_pos same]
    cases w_is : w.startsWithIs with
    | true =>
      rw [w_is] at differ
      rw [Bool.eq_false_iff.mpr differ.symm]
      rfl
    | false => exact absurd (w_is.trans (first w_is b listed same.symm).symm) differ
  · rw [prefersGetter, if_neg same, type]
    exact o_below b listed

/-! ## The choice -/

variable {property : String} {first : Overload} {others : List Overload}

theorem resolvable_of_chooseGetter {m : Method}
    (done : r.chooseGetter property first others = .ok m) : r.Resolvable (first :: others) := by
  obtain ⟨apart, w, ws, split, -, wins⟩ := chooseGetter_eq_ok done
  refine ⟨List.pairwise_map.mp apart, w, split.mem_iff.mpr List.mem_cons_self, ?_⟩
  exact wins.belowAll.perm split.symm

theorem Resolvable.chooseGetter (order : r.SubtypeOrder) (h : r.Resolvable (first :: others))
    (property : String) : ∃ w, r.StandsOut (first :: others) w ∧
      r.chooseGetter property first others = .ok w.method := by
  obtain ⟨v, vs, split, wins⟩ := h.exists_wins
  obtain ⟨m, done⟩ := chooseGetter_of_wins order property h.keys split wins
  obtain ⟨apart, w, ws, split, rfl, wins⟩ := chooseGetter_eq_ok done
  have apart := (split.map Overload.key).pairwise apart Overload.Apart.symm
  exact ⟨w, ((standsOut_iff_wins order apart).mpr wins).perm split.symm, done⟩

theorem chooseGetter_of_not_resolvable (order : r.SubtypeOrder) (property : String)
    (typed : ∀ o ∈ first :: others, o.OfGetter r) (h : ¬ r.Resolvable (first :: others)) :
    ∃ owner, r.fullName first.method.declaring = .ok owner ∧
      r.chooseGetter property first others = .error (.ambiguousGetter property owner) := by
  obtain ⟨owner, named⟩ := (typed first List.mem_cons_self).owner.fullName
  refine ⟨owner, named, ?_⟩
  cases done : r.chooseGetter property first others with
  | ok m => exact absurd (resolvable_of_chooseGetter done) h
  | error fault =>
    rw [chooseGetter_eq_error named (fun a ha b hb => prefersGetter_answers
      (order.answers b.type a.type (typed b hb).declared (typed a ha).declared)) done]

end Registry

/-! ## Resolving -/

section Resolving
variable {r : Registry}

/-- Getters are resolved if they are resolvable, by the one that stands out, whatever their order;
otherwise the property is reported as ambiguous, with the type that declares the first getter. -/
theorem resolveGetter_exact (reachable : r.Reachable) (closed : r.SupertypesPublished)
    (acyclic : r.Acyclic) (property : String) {os : List Overload} (nonempty : os ≠ [])
    (typed : ∀ o ∈ os, o.OfGetter r) :
    ((∃ m, ((resolveGetter property (os.map (·.method))).eval r).1 = .ok (some m)) ↔
      r.Resolvable os) ∧
    (r.Resolvable os → ∃ w, r.StandsOut os w ∧ (∀ v, r.StandsOut os v → v = w) ∧
      ∀ os', os.Perm os' →
        (resolveGetter property (os'.map (·.method))).eval r = (.ok (some w.method), r)) ∧
    (¬ r.Resolvable os → ∀ os', os.Perm os' → ∃ first ∈ os'.head?, ∃ owner,
      r.fullName first.method.declaring = .ok owner ∧
      (resolveGetter property (os'.map (·.method))).eval r =
        (.error (.ambiguousGetter property owner), r)) := by
  have hr := reachable.coherent
  have order := hr.subtypeOrder closed acyclic
  have reordered (os' : List Overload) (perm : os.Perm os') : ∃ first others, os' = first :: others ∧
      (resolveGetter property (os'.map (·.method))).eval r =
        ((r.chooseGetter property first others).map some, r) := by
    cases os' with
    | nil => exact absurd perm.eq_nil nonempty
    | cons first others =>
      exact ⟨first, others, rfl, resolveGetter_eval hr property fun o ho =>
        typed o (perm.mem_iff.mpr ho)⟩
  refine ⟨⟨?_, fun h => ?_⟩, fun h => ?_, fun h os' perm => ?_⟩
  · obtain ⟨first, others, rfl, resolved⟩ := reordered os (.refl os)
    rintro ⟨m, done⟩
    rw [resolved] at done
    cases chosen : r.chooseGetter property first others with
    | ok m => exact Registry.resolvable_of_chooseGetter chosen
    | error fault =>
      rw [chosen] at done
      cases done
  · obtain ⟨first, others, rfl, resolved⟩ := reordered os (.refl os)
    obtain ⟨w, -, chosen⟩ := h.chooseGetter order property
    exact ⟨w.method, by rw [resolved, chosen]; rfl⟩
  · obtain ⟨first, others, rfl, -⟩ := reordered os (.refl os)
    obtain ⟨w, stands, -⟩ := h.chooseGetter order property
    refine ⟨w, stands, fun v hv => hv.unique stands, fun os' perm => ?_⟩
    obtain ⟨first', others', rfl, resolved⟩ := reordered os' perm
    obtain ⟨v, stands', chosen⟩ := (h.perm perm).chooseGetter order property
    obtain rfl := (stands'.perm perm.symm).unique stands
    rw [resolved, chosen]
    rfl
  · obtain ⟨first, others, rfl, resolved⟩ := reordered os' perm
    obtain ⟨owner, named, failed⟩ := Registry.chooseGetter_of_not_resolvable order property
      (fun o ho => typed o (perm.mem_iff.mpr ho)) fun resolvable => h (resolvable.perm perm.symm)
    exact ⟨first, rfl, owner, named, by rw [resolved, failed]; rfl⟩

/-- A getter of a type, declared by that type itself. -/
def outline (type : TypeId) : Overload where
  method :=
    { name := "getOutline", declaring := type, returns := .named type, params := [],
      typeParams := [], modifiers := {}, body := none }
  type := type

theorem outline_ofGetter {type : TypeId} (declared : r.Published type) :
    (outline type).OfGetter r :=
  ⟨congrArg Prod.fst (Method.eraseDeclared_named declared type), declared⟩

open Registry in
/-- Of the outlines of a polygon, a square and any shape, that of the square counts in any order;
that of a polygon and a text leave no choice. -/
theorem resolveGetter_exact_shapes :
    shapes.Reachable ∧ shapes.SupertypesPublished ∧ shapes.Acyclic ∧
    (∀ os', [outline ⟨12⟩, outline ⟨13⟩, outline ⟨11⟩].Perm os' →
      (resolveGetter "outline" (os'.map (·.method))).eval shapes =
        (.ok (some (outline ⟨13⟩).method), shapes)) ∧
    ∀ os', [outline ⟨12⟩, outline .string].Perm os' → ∃ owner,
      (resolveGetter "outline" (os'.map (·.method))).eval shapes =
        (.error (.ambiguousGetter "outline" owner), shapes) := by
  have closed : shapes.SupertypesPublished := by decide +kernel
  have typed (types : List TypeId) (declared : ∀ t ∈ types, shapes.Published t) :
      ∀ o ∈ types.map outline, o.OfGetter shapes :=
    List.forall_mem_map.mpr fun t ht => outline_ofGetter (declared t ht)
  have resolved (types : List TypeId) (nonempty : types.map outline ≠ [])
      (declared : ∀ t ∈ types, shapes.Published t) :=
    resolveGetter_exact shapes_reachable closed shapes_acyclic "outline" nonempty
      (typed types declared)
  refine ⟨shapes_reachable, closed, shapes_acyclic, fun os' perm => ?_, fun os' perm => ?_⟩
  · obtain ⟨-, resolves, -⟩ := resolved [⟨12⟩, ⟨13⟩, ⟨11⟩] (by simp) (by decide +kernel)
    have below : shapes.BelowAll ⟨13⟩ [outline ⟨12⟩, outline ⟨13⟩, outline ⟨11⟩] :=
      assignableToAll_eq_true.mp (by cbv)
    obtain ⟨w, stands, -, chosen⟩ := resolves ⟨by simp [outline], outline ⟨13⟩, by simp, below⟩
    obtain rfl : outline ⟨13⟩ = w := by
      have listed := stands.listed
      simp only [List.map_cons, List.map_nil, List.mem_cons, List.not_mem_nil, or_false] at listed
      rcases listed with rfl | rfl | rfl
      · exact absurd stands.below (not_belowAll (by cbv))
      · rfl
      · exact absurd stands.below (not_belowAll (by cbv))
    exact chosen os' perm
  · obtain ⟨-, -, fails⟩ := resolved [⟨12⟩, .string] (by simp) (by decide +kernel)
    obtain ⟨first, -, owner, -, failed⟩ := fails (by
      rintro ⟨-, o, listed, below⟩
      simp only [List.map_cons, List.map_nil, List.mem_cons, List.not_mem_nil, or_false] at listed
      rcases listed with rfl | rfl
      · exact not_belowAll (by cbv) below
      · exact not_belowAll (by cbv) below) os' perm
    exact ⟨owner, failed⟩

end Resolving

end PropertyTables
