import PropertyTables.Proofs.Registry.Lasting

/-! # Safe computations

* `Growing.Safe`: what a computation does in one registry: it interns at most, it fails with no
  other faults than those allowed, and what it gives fits the registry that it leaves.
* `Safe.bind`, `Safe.mapM`, `Safe.foldlM`: a computation is safe if its parts are, each in whatever
  registry the parts before it leave.
-/

namespace PropertyTables
set_option autoImplicit false

variable {α β : Type}

namespace Growing

/-- Whether `x`, run in `r`, interns at most, fails only with faults that `allowed` admits, and gives
only results that satisfy `Q` in the registry it leaves. -/
structure Safe (allowed : Fault → Prop) (r : Registry) (x : Growing α)
    (Q : Registry → α → Prop) : Prop where
  interns : r.Interns (x.eval r).2
  fault : ∀ fault, (x.eval r).1 = .error fault → allowed fault
  result : ∀ a, (x.eval r).1 = .ok a → Q (x.eval r).2 a

namespace Safe
variable {allowed : Fault → Prop} {r : Registry}

theorem of_eval {x : Growing α} {Q : Registry → α → Prop} (h : Safe allowed r x Q)
    {a : α} {grown : Registry} (done : x.eval r = (.ok a, grown)) : r.Interns grown ∧ Q grown a := by
  have interns := h.interns
  have result := h.result a
  rw [done] at interns result
  exact ⟨interns, result rfl⟩

theorem of_ok {x : Growing α} {Q : Registry → α → Prop} {a : α} {grown : Registry}
    (done : x.eval r = (.ok a, grown)) (interns : r.Interns grown) (fits : Q grown a) :
    Safe allowed r x Q := by
  refine ⟨?_, ?_, ?_⟩ <;> rw [done]
  · exact interns
  · intro fault failed
    cases failed
  · intro b same
    cases same
    exact fits

theorem of_error {x : Growing α} {Q : Registry → α → Prop} {fault : Fault} {grown : Registry}
    (failed : x.eval r = (.error fault, grown)) (interns : r.Interns grown) (h : allowed fault) :
    Safe allowed r x Q := by
  refine ⟨?_, ?_, ?_⟩ <;> rw [failed]
  · exact interns
  · intro other same
    cases same
    exact h
  · intro b done
    cases done

theorem pure {a : α} {Q : Registry → α → Prop} (h : Q r a) : Safe allowed r (Pure.pure a) Q :=
  .of_ok rfl (.refl r) h

theorem throw {fault : Fault} {Q : Registry → α → Prop} (h : allowed fault) :
    Safe allowed r (MonadExcept.throw fault) Q :=
  .of_error rfl (.refl r) h

theorem read {query : Registry → Except Fault α} {Q : Registry → α → Prop}
    (fault : ∀ fault, query r = .error fault → allowed fault)
    (result : ∀ a, query r = .ok a → Q r a) : Safe allowed r (Growing.read query) Q :=
  ⟨.refl r, fault, result⟩

theorem read_ok {query : Registry → Except Fault α} {Q : Registry → α → Prop} {a : α}
    (answers : query r = .ok a) (h : Q r a) : Safe allowed r (Growing.read query) Q :=
  .of_ok (congrArg (·, r) answers) (.refl r) h

theorem get {Q : Registry → Registry → Prop} (h : Q r r) :
    Safe allowed r (MonadState.get : Growing Registry) Q :=
  .of_ok rfl (.refl r) h

/-- The array type of a declared type can be interned, and is declared then. -/
theorem arrayOf {component : TypeId} (h : r.Published component) :
    Safe allowed r (Growing.arrayOf component) fun grown id => grown.Published id := by
  obtain ⟨id, grown, interned⟩ := Registry.internArray_succeeds h
  have done : (Growing.arrayOf component).eval r = (.ok id, grown) := by
    rw [eval_arrayOf, interned]
  have declared : grown.Published id := by
    rcases Registry.internArray_eq_ok interned with ⟨known, rfl⟩ | ⟨-, rfl, element, later, -, after⟩
    · obtain ⟨d, found, -⟩ := Registry.findArray?_eq_some known
      exact .of_find? found
    · rw [Registry.published_iff, after, if_pos rfl]
      exact ⟨_, rfl⟩
  exact .of_ok done ((Lasting.arrayOf component).interns_of_eval done) declared

theorem bind {x : Growing α} {f : α → Growing β} {P : Registry → α → Prop}
    {Q : Registry → β → Prop} (first : Safe allowed r x P)
    (second : ∀ grown a, r.Interns grown → P grown a → Safe allowed grown (f a) Q) :
    Safe allowed r (x >>= f) Q := by
  have value := eval_bind x f r
  rcases done : x.eval r with ⟨fault | a, grown⟩
  · rw [done] at value
    have interns := first.interns
    have allowed := first.fault fault
    rw [done] at interns allowed
    exact .of_error value interns (allowed rfl)
  · obtain ⟨interns, fits⟩ := first.of_eval done
    have next := second grown a interns fits
    rw [done] at value
    refine ⟨?_, ?_, ?_⟩ <;> rw [value]
    · exact interns.trans next.interns
    · exact next.fault
    · exact next.result

/-- What the steps over a list give fits the registry that all of them leave, if growing does no
harm to it. -/
theorem mapM {f : α → Growing β} {P : Registry → β → Prop}
    (lasts : ∀ r grown b, r.Interns grown → P r b → P grown b) {l : List α}
    (step : ∀ a ∈ l, ∀ grown, r.Interns grown → Safe allowed grown (f a) P) :
    Safe allowed r (l.mapM f) fun grown bs => ∀ b ∈ bs, P grown b := by
  induction l generalizing r with
  | nil =>
    rw [List.mapM_nil]
    exact .pure nofun
  | cons a rest ih =>
    rw [List.mapM_cons]
    refine (step a List.mem_cons_self r (.refl r)).bind fun grown b interns here => ?_
    have later := ih fun a' ha' grown' interns' =>
      step a' (List.mem_cons_of_mem a ha') grown' (interns.trans interns')
    refine later.bind fun last bs interns' there => .pure ?_
    exact List.forall_mem_cons.mpr ⟨lasts grown last b interns' here, there⟩

theorem foldlM {f : β → α → Growing β} {P : Registry → β → Prop} {l : List α}
    (step : ∀ a ∈ l, ∀ grown b, r.Interns grown → P grown b → Safe allowed grown (f b a) P) {b : β}
    (h : P r b) : Safe allowed r (l.foldlM f b) P := by
  induction l generalizing r b with
  | nil => exact .pure h
  | cons a rest ih =>
    rw [List.foldlM_cons]
    refine (step a List.mem_cons_self r b (.refl r) h).bind fun grown b' interns kept => ?_
    exact ih (fun a' ha' grown' b'' interns' =>
      step a' (List.mem_cons_of_mem a ha') grown' b'' (interns.trans interns')) kept

end Safe

end Growing

end PropertyTables
