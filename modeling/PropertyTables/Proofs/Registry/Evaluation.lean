import PropertyTables.Registry.Growth

/-! # Evaluating growing computations

* `bind_eq_ok`: a sequence of queries succeeds if its parts do.
* `Growing.eval`: the outcome of a computation in a registry, and the registry afterwards.
* `bind_eval_ok`: the same for computations, which hand on the registry.
* `Growing.Ensures`: what a computation guarantees of its result, in every registry. The rules
  `Ensures.bind`, `Ensures.read`, ... follow the way a computation is written.
-/

namespace PropertyTables
set_option autoImplicit false

variable {α β : Type}

theorem bind_eq_ok {x : Except Fault α} {f : α → Except Fault β} {b : β} :
    x >>= f = .ok b ↔ ∃ a, x = .ok a ∧ f a = .ok b := by
  cases x with
  | error fault =>
    show Except.error fault = .ok b ↔ _
    simp
  | ok a =>
    show f a = .ok b ↔ _
    simp

theorem bind_pure_eq_ok {x : Except Fault α} {f : α → β} {b : β} :
    (x >>= fun a => pure (f a)) = .ok b ↔ ∃ a, x = .ok a ∧ f a = b := by
  rw [bind_eq_ok]
  simp only [pure, Except.pure, Except.ok.injEq]

theorem isOk_iff {x : Except Fault α} : x.isOk = true ↔ ∃ a, x = .ok a := by
  cases x <;> simp [Except.isOk, Except.toBool]

theorem toOption_eq_some {x : Except Fault α} {a : α} : x.toOption = some a ↔ x = .ok a := by
  cases x <;> simp [Except.toOption]

namespace Growing

/-- The outcome of a computation in a registry, and the registry afterwards. -/
def eval (x : Growing α) (r : Registry) : Except Fault α × Registry := x.run.run r

theorem eval_read (query : Registry → Except Fault α) (r : Registry) :
    (read query).eval r = (query r, r) := rfl

theorem eval_arrayOf (component : TypeId) (r : Registry) :
    (arrayOf component).eval r = match r.internArray component with
      | .ok (id, grown) => (.ok id, grown)
      | .error fault => (.error fault, r) := rfl

theorem eval_bind (x : Growing α) (f : α → Growing β) (r : Registry) :
    (x >>= f).eval r = match x.eval r with
      | (.ok a, grown) => (f a).eval grown
      | (.error fault, grown) => (.error fault, grown) := by
  rw [eval, ExceptT.run_bind, StateT.run_bind]
  show _ = match x.run.run r with
    | (.ok a, grown) => (f a).run.run grown
    | (.error fault, grown) => (.error fault, grown)
  rcases x.run.run r with ⟨fault | a, grown⟩ <;> rfl

theorem bind_eval_ok {x : Growing α} {f : α → Growing β} {r grown : Registry} {b : β} :
    (x >>= f).eval r = (.ok b, grown) ↔
      ∃ a middle, x.eval r = (.ok a, middle) ∧ (f a).eval middle = (.ok b, grown) := by
  rw [eval_bind]
  rcases x.eval r with ⟨fault | a, middle⟩
  · simp
  · constructor
    · exact fun done => ⟨a, middle, rfl, done⟩
    · rintro ⟨_, _, first, second⟩
      cases first
      exact second

/-- A sequence fails if its first part does, or its second. -/
theorem bind_eval_error {x : Growing α} {f : α → Growing β} {r grown : Registry} {fault : Fault} :
    (x >>= f).eval r = (.error fault, grown) ↔ x.eval r = (.error fault, grown) ∨
      ∃ a middle, x.eval r = (.ok a, middle) ∧ (f a).eval middle = (.error fault, grown) := by
  rw [eval_bind]
  rcases x.eval r with ⟨cause | a, middle⟩
  · simp
  · constructor
    · exact fun failed => .inr ⟨a, middle, rfl, failed⟩
    · rintro (failed | ⟨_, _, first, failed⟩)
      · cases failed
      · cases first
        exact failed

/-- What is known of a result tells that there is one. -/
theorem exists_eval_of_map {x : Growing α} {f : α → β} {r : Registry} {b : β}
    (h : (x.eval r).1.toOption.map f = some b) :
    ∃ a grown, x.eval r = (.ok a, grown) ∧ f a = b := by
  rcases done : x.eval r with ⟨fault | a, grown⟩ <;> rw [done] at h
  · cases h
  · exact ⟨a, grown, rfl, Option.some.inj h⟩

/-- The same where it is known, too, which registry there is afterwards. -/
theorem exists_eval_of_view {x : Growing α} {f : α → β} {r grown : Registry} {b : β}
    (h : Prod.map (·.toOption.map f) id (x.eval r) = (some b, grown)) :
    ∃ a, x.eval r = (.ok a, grown) ∧ f a = b := by
  rcases done : x.eval r with ⟨result, after⟩
  rw [done] at h
  obtain ⟨view, same⟩ := Prod.mk.inj h
  obtain ⟨a, ok, fits⟩ := Option.map_eq_some_iff.mp view
  cases result with
  | error fault => cases ok
  | ok a' =>
    cases ok
    exact ⟨a, congrArg (Prod.mk _) same, fits⟩

/-! ## Guarantees on results -/

/-- Whenever the computation succeeds, in whatever registry, `P` holds of its result. -/
def Ensures (x : Growing α) (P : α → Prop) : Prop :=
  ∀ r a grown, x.eval r = (.ok a, grown) → P a

theorem Ensures.pure {P : α → Prop} {a : α} (h : P a) : Ensures (Pure.pure a) P := by
  intro r b grown done
  cases done
  exact h

theorem Ensures.throw {P : α → Prop} (fault : Fault) : Ensures (MonadExcept.throw fault) P := by
  intro r a grown done
  cases done

theorem Ensures.read {P : α → Prop} {query : Registry → Except Fault α}
    (h : ∀ r a, query r = .ok a → P a) : Ensures (Growing.read query) P := by
  intro r a grown done
  exact h r a (congrArg Prod.fst done)

theorem Ensures.trivial (x : Growing α) : Ensures x fun _ => True := fun _ _ _ _ => .intro

theorem Ensures.bind {P : α → Prop} {Q : β → Prop} {x : Growing α} {f : α → Growing β}
    (hx : Ensures x P) (hf : ∀ a, P a → Ensures (f a) Q) : Ensures (x >>= f) Q := by
  intro r b grown done
  obtain ⟨a, middle, first, second⟩ := bind_eval_ok.mp done
  exact hf a (hx r a middle first) middle b grown second

/-- The first part of a sequence may be forgotten where nothing is known of it. -/
theorem Ensures.of_next {Q : β → Prop} {x : Growing α} {f : α → Growing β}
    (hf : ∀ a, Ensures (f a) Q) : Ensures (x >>= f) Q :=
  (Ensures.trivial x).bind fun a _ => hf a

theorem Ensures.foldlM {γ : Type} {P : β → Prop} {f : β → γ → Growing β}
    (step : ∀ b c, P b → Ensures (f b c) P) (l : List γ) {b : β} (h : P b) :
    Ensures (l.foldlM f b) P := by
  induction l generalizing b with
  | nil => exact .pure h
  | cons c rest ih =>
    rw [List.foldlM_cons]
    exact (step b c h).bind fun _ => ih

end Growing

end PropertyTables
