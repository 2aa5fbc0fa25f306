import PropertyTables.Proofs.Registry.Evaluation

/-! # Computations that agree

* `Growing.Agree`: two computations, each in a registry of its own, both fail or both succeed with
  related results, and intern nothing. The rules follow the way that computations are written.
-/

namespace PropertyTables
set_option autoImplicit false

namespace Growing

variable {α β γ δ : Type} {r s : Registry}

/-- Whether two computations both fail, or both succeed with related results and leave their
registries alone. -/
def Agree (r s : Registry) (R : α → β → Prop) (x : Growing α) (y : Growing β) : Prop :=
  (∃ fault fault', (x.eval r).1 = .error fault ∧ (y.eval s).1 = .error fault') ∨
    ∃ a b, x.eval r = (.ok a, r) ∧ y.eval s = (.ok b, s) ∧ R a b

theorem Agree.of_eval {R : α → β → Prop} {x : Growing α} {y : Growing β} {a : α} {b : β}
    (hx : x.eval r = (.ok a, r)) (hy : y.eval s = (.ok b, s)) (h : R a b) : Agree r s R x y :=
  .inr ⟨a, b, hx, hy, h⟩

theorem Agree.pure {R : α → β → Prop} {a : α} {b : β} (h : R a b) :
    Agree r s R (Pure.pure a) (Pure.pure b) := .of_eval rfl rfl h

theorem Agree.throw {R : α → β → Prop} (fault fault' : Fault) :
    Agree r s R (MonadExcept.throw fault) (MonadExcept.throw fault') :=
  .inl ⟨fault, fault', rfl, rfl⟩

theorem Agree.read {R : α → β → Prop} {query : Registry → Except Fault α}
    {query' : Registry → Except Fault β}
    (forth : ∀ a, query r = .ok a → ∃ b, query' s = .ok b ∧ R a b)
    (back : ∀ b, query' s = .ok b → ∃ a, query r = .ok a) :
    Agree r s R (Growing.read query) (Growing.read query') := by
  rw [Agree, eval_read, eval_read]
  cases left : query r with
  | ok a =>
    obtain ⟨b, right, h⟩ := forth a left
    exact .inr ⟨a, b, rfl, by rw [right], h⟩
  | error fault =>
    cases right : query' s with
    | error fault' => exact .inl ⟨fault, fault', rfl, rfl⟩
    | ok b =>
      obtain ⟨a, other⟩ := back b right
      rw [left] at other
      cases other

theorem Agree.bind {R : α → β → Prop} {S : γ → δ → Prop} {x : Growing α} {y : Growing β}
    {f : α → Growing γ} {g : β → Growing δ} (first : Agree r s R x y)
    (next : ∀ a b, R a b → Agree r s S (f a) (g b)) : Agree r s S (x >>= f) (y >>= g) := by
  rcases first with ⟨fault, fault', hx, hy⟩ | ⟨a, b, hx, hy, h⟩
  · refine .inl ⟨fault, fault', ?_, ?_⟩
    · rw [eval_bind]
      rcases done : x.eval r with ⟨result, grown⟩
      rw [done] at hx
      obtain rfl := hx
      rfl
    · rw [eval_bind]
      rcases done : y.eval s with ⟨result, grown⟩
      rw [done] at hy
      obtain rfl := hy
      rfl
  · have hf : (x >>= f).eval r = (f a).eval r := by rw [eval_bind, hx]
    have hg : (y >>= g).eval s = (g b).eval s := by rw [eval_bind, hy]
    rw [Agree, hf, hg]
    exact next a b h

end Growing

end PropertyTables
