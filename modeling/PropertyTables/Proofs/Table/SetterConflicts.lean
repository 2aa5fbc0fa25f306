import PropertyTables.Proofs.Table.Candidates
import PropertyTables.Proofs.Table.SetterChoice

/-! # Conflicts between setters

* `Registry.settersOf`: resolving the methods of some candidates.
* `Registry.SettersResolved`: what is promised of it: which setter counts, when there is one, what
  an error says, and what does not depend on the order of the candidates.
* `resolveSetter_exact`: two or more setters of declared types are resolved as promised.
-/

namespace PropertyTables
set_option autoImplicit false

/-- There is one first element with a property. -/
theorem eq_of_first {α : Type} {p : α → Prop} {before before' after after' : List α} {w w' : α}
    (same : before ++ w :: after = before' ++ w' :: after') (hw : p w) (hw' : p w')
    (earlier : ∀ a ∈ before, ¬ p a) (earlier' : ∀ a ∈ before', ¬ p a) : w = w' := by
  classical
  have found : (before ++ w :: after).find? (p ·) = some w :=
    List.find?_eq_some_iff_append.mpr ⟨by simpa, before, after, rfl, by simpa⟩
  have found' : (before' ++ w' :: after').find? (p ·) = some w' :=
    List.find?_eq_some_iff_append.mpr ⟨by simpa, before', after', rfl, by simpa⟩
  rw [same, found'] at found
  exact (Option.some.inj found).symm

/-- There is one last element with a property. -/
theorem eq_of_last {α : Type} {p : α → Prop} {before before' after after' : List α} {w w' : α}
    (same : before ++ w :: after = before' ++ w' :: after') (hw : p w) (hw' : p w')
    (later : ∀ a ∈ after, ¬ p a) (later' : ∀ a ∈ after', ¬ p a) : w = w' := by
  have reversed : after.reverse ++ w :: before.reverse = after'.reverse ++ w' :: before'.reverse := by
    simpa using congrArg List.reverse same
  exact eq_of_first reversed hw hw' (by simpa using later) (by simpa using later')

namespace Registry

/-- What comes of resolving the methods of setter candidates where a getter method returns
`readType`. -/
def settersOf (r : Registry) (property : String) (readType : Option TypeId) (os : List Overload) :
    Except Fault (Option Method) × Registry :=
  (resolveSetter property readType (os.map (·.method))).eval r

/-- Whether resolving setter candidates does what it should. -/
structure SettersResolved (r : Registry) (property : String) (readType : Option TypeId)
    (os : List Overload) : Prop where
  /-- The first candidate of the type that is read counts. -/
  matching : ∀ before w after, os = before ++ w :: after → some w.type = readType →
    (∀ o ∈ before, some o.type ≠ readType) →
    r.settersOf property readType os = (.ok (some w.method), r)
  /-- Without one, there is a choice if some type is assignable to all. -/
  narrowest : (∀ o ∈ os, some o.type ≠ readType) →
    ((∃ m, (r.settersOf property readType os).1 = .ok (some m)) ↔
      ∃ o ∈ os, r.BelowAll o.type os)
  /-- The last candidate of such a type counts then. -/
  last : (∀ o ∈ os, some o.type ≠ readType) → ∀ before w after, os = before ++ w :: after →
    r.BelowAll w.type os → (∀ o ∈ after, ¬ r.BelowAll o.type os) →
    r.settersOf property readType os = (.ok (some w.method), r)
  /-- Without such a type either, the property is ambiguous. -/
  ambiguous : (∀ o ∈ os, some o.type ≠ readType) → (∀ o ∈ os, ¬ r.BelowAll o.type os) →
    ∃ owner first second, r.settersOf property readType os =
      (.error (.ambiguousSetter property owner first second), r)
  /-- An ambiguity names two candidates, in their order, whose types are incomparable. -/
  truthful : ∀ reported owner first second grown, r.settersOf property readType os =
      (.error (.ambiguousSetter reported owner first second), grown) →
    reported = property ∧ ∃ a b, [a, b].Sublist os ∧
      r.isAssignable a.type b.type = .ok false ∧ r.isAssignable b.type a.type = .ok false ∧
      r.fullName a.type = .ok first ∧ r.fullName b.type = .ok second ∧
      r.fullName b.method.declaring = .ok owner
  /-- In another order there is a choice just if there is one in this order. -/
  reordered : ∀ os', os.Perm os' →
    ((∃ m, (r.settersOf property readType os).1 = .ok (some m)) ↔
      ∃ m, (r.settersOf property readType os').1 = .ok (some m))
  /-- The candidates that count in either order have one type. -/
  same_type : r.Acyclic → ∀ os', os.Perm os' → ∀ w ∈ os, ∀ w' ∈ os',
    (r.settersOf property readType os).1 = .ok (some w.method) →
    (r.settersOf property readType os').1 = .ok (some w'.method) → w.type = w'.type

/-! ## Outcomes -/

namespace SetterOutcome
variable {r : Registry} {property : String} {readType : Option TypeId} {os os' : List Overload}
  {result result' : Except Fault Method}

/-- There is a choice if some setter has the type that is read, or one that is assignable to all. -/
theorem ok_iff (h : r.SetterOutcome property readType os result) :
    (∃ m, result = .ok m) ↔
      (∃ o ∈ os, some o.type = readType) ∨ ∃ o ∈ os, r.BelowAll o.type os := by
  cases h with
  | matching split read _ => exact iff_of_true ⟨_, rfl⟩ (.inl ⟨_, by simp [split], read⟩)
  | narrowest _ split below _ => exact iff_of_true ⟨_, rfl⟩ (.inr ⟨_, by simp [split], below⟩)
  | ambiguous unread without =>
    refine iff_of_false (by simp) ?_
    rintro (⟨o, ho, read⟩ | ⟨o, ho, below⟩)
    · exact unread o ho read
    · exact without o ho below

theorem reordered (h : r.SetterOutcome property readType os result) (perm : os.Perm os')
    (h' : r.SetterOutcome property readType os' result') :
    (∃ m, result = .ok m) ↔ ∃ m, result' = .ok m := by
  rw [h.ok_iff, h'.ok_iff]
  simp only [BelowAll, perm.mem_iff]

theorem narrowestFor {m : Method} (h : r.SetterOutcome property readType os (.ok m)) :
    ∃ w ∈ os, w.method = m ∧ r.NarrowestFor readType (os.map Overload.type) w.type := by
  cases h with
  | @matching before after w split read _ =>
    have listed : w ∈ os := by simp [split]
    exact ⟨w, listed, rfl, List.mem_map_of_mem listed, .inl read⟩
  | @narrowest before after w unread split below _ =>
    have listed : w ∈ os := by simp [split]
    exact ⟨w, listed, rfl, List.mem_map_of_mem listed,
      .inr ⟨List.forall_mem_map.mpr unread, List.forall_mem_map.mpr below⟩⟩

theorem eq_matching (h : r.SetterOutcome property readType os result) {before after : List Overload}
    {w : Overload} (split : os = before ++ w :: after) (read : some w.type = readType)
    (earlier : ∀ o ∈ before, some o.type ≠ readType) : result = .ok w.method := by
  have listed : w ∈ os := by simp [split]
  cases h with
  | matching split' read' earlier' =>
    rw [eq_of_first (p := fun o => some o.type = readType) (split'.symm.trans split) read' read
      earlier' earlier]
  | narrowest unread => exact absurd read (unread w listed)
  | ambiguous unread => exact absurd read (unread w listed)

theorem eq_last (h : r.SetterOutcome property readType os result)
    (unread : ∀ o ∈ os, some o.type ≠ readType) {before after : List Overload} {w : Overload}
    (split : os = before ++ w :: after) (below : r.BelowAll w.type os)
    (later : ∀ o ∈ after, ¬ r.BelowAll o.type os) : result = .ok w.method := by
  cases h with
  | matching split' read => exact absurd read (unread _ (by simp [split']))
  | narrowest _ split' below' later' =>
    rw [eq_of_last (p := fun o => r.BelowAll o.type os) (split'.symm.trans split) below' below
      later' later]
  | ambiguous _ without => exact absurd below (without w (by simp [split]))

end SetterOutcome

/-! ## Resolving -/

variable {r : Registry} {os : List Overload}

theorem settersOf_outcome (hr : r.Coherent) (closed : r.SupertypesPublished) (property : String)
    (readType : Option TypeId) (several : 2 ≤ os.length) (typed : ∀ o ∈ os, o.OfSetter r) :
    ∃ result, r.settersOf property readType os = (result.map some, r) ∧
      r.SetterOutcome property readType os result := by
  obtain - | ⟨first, - | ⟨second, others⟩⟩ := os
  · cases several
  · simp at several
  · exact ⟨_, resolveSetter_eval hr property readType typed, chooseSetter_outcome hr closed property
      readType (fun o ho => (typed o ho).declared) fun o ho => (typed o ho).owner⟩

theorem map_some_eq_ok {result : Except Fault Method} {m : Method} :
    result.map some = .ok (some m) ↔ result = .ok m := by
  cases result <;> simp [Except.map]

theorem resolveSetter_exact (reachable : r.Reachable) (closed : r.SupertypesPublished)
    (property : String) (readType : Option TypeId) (several : 2 ≤ os.length)
    (typed : ∀ o ∈ os, o.OfSetter r) : r.SettersResolved property readType os := by
  have hr := reachable.coherent
  obtain ⟨result, resolved, outcome⟩ := settersOf_outcome hr closed property readType several typed
  have moved (os' : List Overload) (perm : os.Perm os') := settersOf_outcome hr closed property
    readType (perm.length_eq ▸ several) fun o ho => typed o (perm.mem_iff.mpr ho)
  constructor
  case matching =>
    intro before w after split read earlier
    rw [resolved, outcome.eq_matching split read earlier]
    rfl
  case narrowest =>
    intro unread
    simp only [resolved, map_some_eq_ok, outcome.ok_iff]
    exact or_iff_right fun ⟨o, ho, read⟩ => unread o ho read
  case last =>
    intro unread before w after split below later
    rw [resolved, outcome.eq_last unread split below later]
    rfl
  case ambiguous =>
    intro unread without
    have failed : ¬ ∃ m, result = .ok m := by
      rw [outcome.ok_iff]
      rintro (⟨o, ho, read⟩ | ⟨o, ho, below⟩)
      · exact unread o ho read
      · exact without o ho below
    cases outcome with
    | matching => exact absurd ⟨_, rfl⟩ failed
    | narrowest => exact absurd ⟨_, rfl⟩ failed
    | ambiguous => exact ⟨_, _, _, resolved⟩
  case truthful =>
    intro reported owner first second grown failed
    rw [resolved, Prod.mk.injEq] at failed
    obtain ⟨failed, -⟩ := failed
    cases outcome with
    | matching => cases failed
    | narrowest => cases failed
    | ambiguous _ _ pair not_above not_below named first_named second_named =>
      cases failed
      exact ⟨rfl, _, _, pair, not_above, not_below, first_named, second_named, named⟩
  case reordered =>
    intro os' perm
    obtain ⟨result', resolved', outcome'⟩ := moved os' perm
    simp only [resolved, resolved', map_some_eq_ok]
    exact outcome.reordered perm outcome'
  case same_type =>
    intro acyclic os' perm w hw w' hw' done done'
    obtain ⟨result', resolved', outcome'⟩ := moved os' perm
    rw [resolved, map_some_eq_ok] at done
    rw [resolved', map_some_eq_ok] at done'
    subst done done'
    obtain ⟨v, hv, same, narrowest⟩ := outcome.narrowestFor
    obtain ⟨v', hv', same', narrowest'⟩ := outcome'.narrowestFor
    have types := (narrowest.reordered (fun _ _ => rfl) (perm.map _)).unique
      (hr.subtypeOrder closed acyclic) narrowest'
    rw [← (typed v hv).type_eq (typed w hw) same, types]
    exact (typed v' (perm.mem_iff.mpr hv')).type_eq (typed w' (perm.mem_iff.mpr hw')) same'

/-- A setter of a type, declared by that type itself. -/
def setOutline (type : TypeId) : Overload where
  method :=
    { name := "setOutline", declaring := type, returns := .named Primitive.void.typeId,
      params := [.named type], typeParams := [], modifiers := {}, body := none }
  type := type

theorem setOutline_ofSetter {type : TypeId} (declared : r.Published type) :
    (setOutline type).OfSetter r :=
  ⟨.named type, rfl, congrArg Prod.fst (Method.eraseDeclared_named declared type), declared⟩

/-- Between a square and a polygon the square counts, unless polygons are read; a polygon and a
text are reported as ambiguous. -/
theorem resolveSetter_exact_shapes :
    shapes.Reachable ∧ shapes.SupertypesPublished ∧ shapes.Acyclic ∧
    shapes.settersOf "outline" none [setOutline ⟨13⟩, setOutline ⟨12⟩] =
      (.ok (some (setOutline ⟨13⟩).method), shapes) ∧
    shapes.settersOf "outline" (some ⟨12⟩) [setOutline ⟨13⟩, setOutline ⟨12⟩] =
      (.ok (some (setOutline ⟨12⟩).method), shapes) ∧
    ∃ owner first second, shapes.settersOf "outline" none [setOutline ⟨12⟩, setOutline .string] =
      (.error (.ambiguousSetter "outline" owner first second), shapes) := by
  have closed : shapes.SupertypesPublished := by decide +kernel
  have typed (types : List TypeId) (declared : ∀ t ∈ types, shapes.Published t) :
      ∀ o ∈ types.map setOutline, o.OfSetter shapes :=
    List.forall_mem_map.mpr fun t ht => setOutline_ofSetter (declared t ht)
  have resolved (readType : Option TypeId) (types : List TypeId)
      (several : 2 ≤ (types.map setOutline).length) (declared : ∀ t ∈ types, shapes.Published t) :=
    resolveSetter_exact shapes_reachable closed "outline" readType several (typed types declared)
  refine ⟨shapes_reachable, closed, shapes_acyclic, ?_, ?_, ?_⟩
  · refine (resolved none [⟨13⟩, ⟨12⟩] (by simp) (by decide +kernel)).last (by simp) []
      (setOutline ⟨13⟩) [setOutline ⟨12⟩] rfl (assignableToAll_eq_true.mp (by cbv)) ?_
    exact List.forall_mem_singleton.mpr (not_belowAll (by cbv))
  · exact (resolved (some ⟨12⟩) [⟨13⟩, ⟨12⟩] (by simp) (by decide +kernel)).matching
      [setOutline ⟨13⟩] (setOutline ⟨12⟩) [] rfl rfl (by simp [setOutline])
  · refine (resolved none [⟨12⟩, .string] (by simp) (by decide +kernel)).ambiguous (by simp) ?_
    exact List.forall_mem_cons.mpr ⟨not_belowAll (by cbv),
      List.forall_mem_singleton.mpr (not_belowAll (by cbv))⟩

end Registry

end PropertyTables
