import PropertyTables.Generics.Erasure
import PropertyTables.Proofs.Generics.Substitution
import PropertyTables.Proofs.Registry.Evaluation
import PropertyTables.Proofs.Registry.Runs

/-! # How computations fail

* `FailsOnly`, `Growing.FailsOnly`: the faults that a query or a computation can end with, whatever
  it is asked of. The rules `FailsOnly.bind`, `FailsOnly.mapM`, ... follow the way it is written.
* `Registry.Lacks`: the fault that a type is undeclared, where it is.
* `Growing.FailsLacking`: a computation that nothing but an undeclared type stops. Erasure is one,
  and so are signatures.
-/

namespace PropertyTables
set_option autoImplicit false

variable {α β : Type} {allowed : Fault → Prop}

/-! ## Queries -/

/-- Whether a fault, if this is one, is among those `allowed`. -/
def FailsOnly (allowed : Fault → Prop) (x : Except Fault α) : Prop :=
  ∀ fault, x = .error fault → allowed fault

theorem FailsOnly.ok (a : α) : FailsOnly allowed (.ok a) := nofun

theorem FailsOnly.error {fault : Fault} (h : allowed fault) :
    FailsOnly allowed (.error fault : Except Fault α) := by
  rintro _ ⟨⟩
  exact h

theorem FailsOnly.mono {wider : Fault → Prop} {x : Except Fault α} (h : FailsOnly allowed x)
    (wide : ∀ fault, allowed fault → wider fault) : FailsOnly wider x :=
  fun fault failed => wide fault (h fault failed)

theorem FailsOnly.bind_of {x : Except Fault α} {f : α → Except Fault β}
    (first : FailsOnly allowed x) (second : ∀ a, x = .ok a → FailsOnly allowed (f a)) :
    FailsOnly allowed (x >>= f) := by
  cases x with
  | error fault => exact .error (first fault rfl)
  | ok a => exact second a rfl

theorem FailsOnly.bind {x : Except Fault α} {f : α → Except Fault β} (first : FailsOnly allowed x)
    (second : ∀ a, FailsOnly allowed (f a)) : FailsOnly allowed (x >>= f) :=
  first.bind_of fun a _ => second a

theorem FailsOnly.map {x : Except Fault α} (h : FailsOnly allowed x) (f : α → β) :
    FailsOnly allowed (x >>= fun a => pure (f a)) :=
  h.bind fun a => .ok (f a)

/-- A search that goes on while the answer is no. -/
theorem FailsOnly.ite {x : Except Fault Bool} {yes no : Except Fault α}
    (first : FailsOnly allowed x) (found : FailsOnly allowed yes) (next : FailsOnly allowed no) :
    FailsOnly allowed (x >>= fun b => if b then yes else no) :=
  first.bind fun b => by cases b <;> assumption

namespace Registry
variable {r : Registry}

/-- Whether a fault reports a type as undeclared that is. -/
def Lacks (r : Registry) (fault : Fault) : Prop :=
  ∃ id, fault = .typeNotFound id ∧ ¬ r.Published id

theorem lacks_of_find? {id : TypeId} (unknown : r.find? id = none) :
    r.Lacks (.typeNotFound id) :=
  ⟨id, rfl, by simp [Published, unknown]⟩

theorem Lacks.admitted {fault : Fault} (h : r.Lacks fault)
    (undeclared : ∀ id, allowed (.typeNotFound id)) : allowed fault := by
  obtain ⟨id, rfl, -⟩ := h
  exact undeclared id

theorem find_lacking (r : Registry) (id : TypeId) : FailsOnly r.Lacks (r.find id) := by
  rw [find]
  split
  · exact .ok _
  · rename_i unknown
    exact .error (lacks_of_find? unknown)

theorem fullName_lacking (r : Registry) (id : TypeId) : FailsOnly r.Lacks (r.fullName id) :=
  (r.find_lacking id).map _

end Registry

/-! ## Computations -/

namespace Growing

/-- Whether the faults of a computation are among those `allowed`, in whatever registry. -/
def FailsOnly (allowed : Fault → Prop) (x : Growing α) : Prop :=
  ∀ r, PropertyTables.FailsOnly allowed (x.eval r).1

theorem FailsOnly.pure (a : α) : FailsOnly allowed (Pure.pure a) := fun _ => .ok a

theorem FailsOnly.throw {fault : Fault} (h : allowed fault) :
    FailsOnly allowed (MonadExcept.throw fault : Growing α) := fun _ => .error h

theorem FailsOnly.read {query : Registry → Except Fault α}
    (h : ∀ r, PropertyTables.FailsOnly allowed (query r)) :
    FailsOnly allowed (Growing.read query) := h

theorem FailsOnly.get : FailsOnly allowed (MonadState.get : Growing Registry) := fun r => .ok r

theorem FailsOnly.bind {x : Growing α} {f : α → Growing β} (first : FailsOnly allowed x)
    (second : ∀ a, FailsOnly allowed (f a)) : FailsOnly allowed (x >>= f) := by
  intro r
  have here := first r
  rw [eval_bind]
  rcases done : x.eval r with ⟨fault | a, grown⟩
  · exact .error (here fault (congrArg Prod.fst done))
  · exact second a grown

theorem FailsOnly.map {x : Growing α} (h : FailsOnly allowed x) (f : α → β) :
    FailsOnly allowed (x >>= fun a => Pure.pure (f a)) :=
  h.bind fun a => .pure (f a)

theorem FailsOnly.mapM {f : α → Growing β} (h : ∀ a, FailsOnly allowed (f a)) (l : List α) :
    FailsOnly allowed (l.mapM f) := by
  induction l with
  | nil =>
    rw [List.mapM_nil]
    exact .pure []
  | cons a rest ih =>
    rw [List.mapM_cons]
    exact (h a).bind fun b => ih.map _

theorem FailsOnly.foldlM {f : β → α → Growing β} (h : ∀ b a, FailsOnly allowed (f b a))
    (l : List α) (b : β) : FailsOnly allowed (l.foldlM f b) := by
  induction l generalizing b with
  | nil => exact .pure b
  | cons a rest ih =>
    rw [List.foldlM_cons]
    exact (h b a).bind ih

/-! ## Want of a declaration -/

/-- Whether nothing but an undeclared type stops a computation. The type is undeclared still in the
registry that the computation leaves. -/
def FailsLacking (x : Growing α) : Prop :=
  ∀ r, PropertyTables.FailsOnly (x.eval r).2.Lacks (x.eval r).1

namespace FailsLacking

theorem failsOnly {x : Growing α} (h : x.FailsLacking)
    (undeclared : ∀ id, allowed (.typeNotFound id)) : x.FailsOnly allowed :=
  fun r => (h r).mono fun _ lacks => lacks.admitted undeclared

theorem pure (a : α) : FailsLacking (Pure.pure a) := fun _ => .ok a

theorem read {query : Registry → Except Fault α}
    (h : ∀ r, PropertyTables.FailsOnly r.Lacks (query r)) : FailsLacking (Growing.read query) := h

theorem get : FailsLacking (MonadState.get : Growing Registry) := fun r => .ok r

theorem bind {x : Growing α} {f : α → Growing β} (first : x.FailsLacking)
    (second : ∀ a, (f a).FailsLacking) : (x >>= f).FailsLacking := by
  intro r
  have here := first r
  rw [eval_bind]
  rcases done : x.eval r with ⟨fault | a, grown⟩
  · rw [done] at here
    exact .error (here fault rfl)
  · exact second a grown

theorem map {x : Growing α} (h : x.FailsLacking) (f : α → β) :
    (x >>= fun a => Pure.pure (f a)).FailsLacking :=
  h.bind fun a => .pure (f a)

theorem mapM {f : α → Growing β} (h : ∀ a, (f a).FailsLacking) (l : List α) :
    (l.mapM f).FailsLacking := by
  induction l with
  | nil =>
    rw [List.mapM_nil]
    exact .pure []
  | cons a rest ih =>
    rw [List.mapM_cons]
    exact (h a).bind fun b => ih.map _

theorem arrayOf (component : TypeId) : (Growing.arrayOf component).FailsLacking := by
  intro r
  rw [Growing.eval_arrayOf]
  cases known : r.findArray? component with
  | some id =>
    rw [Registry.internArray_known known]
    exact .ok id
  | none =>
    cases found : r.find? component with
    | none =>
      rw [Registry.internArray_undeclared known found]
      exact .error (Registry.lacks_of_find? found)
    | some element =>
      rw [Registry.internArray_fresh known found]
      exact .ok _

end FailsLacking

end Growing

/-! ## Erasure -/

theorem GenericType.erase_lacking (t : GenericType) : t.erase.FailsLacking := by
  induction t using GenericType.induction_on_parts with
  | named id => exact .pure id
  | applied raw args _ => exact .pure raw
  | array component ih => exact ih.bind .arrayOf
  | typeVar name => exact .pure TypeId.object
  | wildcard upper lower _ _ => exact .pure TypeId.object

namespace Method
variable (m : Method)

theorem eraseDeclared_lacking (t : GenericType) : (m.eraseDeclared t).FailsLacking :=
  Growing.FailsLacking.bind (.read fun r => (r.find_lacking m.declaring).map _) fun env =>
    (t.instantiate env).erase_lacking

theorem signature_lacking : m.signature.FailsLacking :=
  (Growing.FailsLacking.mapM m.eraseDeclared_lacking m.params).bind fun _ =>
    (m.eraseDeclared_lacking m.returns).map _

end Method

end PropertyTables
