import PropertyTables.Proofs.Registry.Evaluation
import PropertyTables.Proofs.Registry.Permanence

/-! # Computations whose results last

A registry grows while computations over it run, so that a result could depend on when it is asked
for. The computations here are such that it does not.

* `Registry.Stable`: a query that answers keeps its answer when the registry grows.
* `Growing.Lasting`: once a computation has succeeded, it gives the same result in every later
  registry and interns nothing any more; if it failed, it fails again in the same way.
* `Stable.bind`, `Lasting.bind` and the other rules follow the way a computation is written.
* `Lasting.bind_settled`, `Lasting.bind_cases`: in a registry that a sequence leaves alone, so do its
  parts.
-/

namespace PropertyTables
set_option autoImplicit false

variable {α β : Type}

/-! ## Queries -/

namespace Registry

/-- Whether answers, but not faults, stay as they are when the registry grows. -/
def Stable (query : Registry → Except Fault α) : Prop :=
  ∀ r later a, query r = .ok a → r.GrowsTo later → query later = .ok a

theorem Stable.const (x : Except Fault α) : Stable fun _ => x := fun _ _ _ h _ => h

theorem Stable.bind {query : Registry → Except Fault α} {next : α → Registry → Except Fault β}
    (first : Stable query) (second : ∀ a, Stable (next a)) :
    Stable fun r => query r >>= fun a => next a r := by
  intro r later b done grows
  obtain ⟨a, ha, hb⟩ := bind_eq_ok.mp done
  exact bind_eq_ok.mpr ⟨a, first r later a ha grows, second a r later b hb grows⟩

theorem Stable.ite {c : Prop} [Decidable c] {first second : Registry → Except Fault α}
    (yes : Stable first) (no : Stable second) :
    Stable fun r => if c then first r else second r := by
  intro r later a done grows
  show (if c then first later else second later) = .ok a
  split at done
  · rename_i holds
    rw [if_pos holds]
    exact yes r later a done grows
  · rename_i fails
    rw [if_neg fails]
    exact no r later a done grows

theorem find_stable (id : TypeId) : Stable (·.find id) := fun _ _ _ found grows => grows.find found

theorem fullName_stable (id : TypeId) : Stable (·.fullName id) :=
  (find_stable id).bind fun _ => .const _

end Registry

/-! ## Computations -/

namespace Growing

/-- Whether a computation does nothing to the registry but intern array types, repeats its faults,
and repeats its results wherever the registry has grown to. -/
structure Lasting (x : Growing α) : Prop where
  interns : ∀ r : Registry, r.Interns (x.eval r).2
  lasts : ∀ (r : Registry) (a : α) (grown later : Registry), x.eval r = (.ok a, grown) →
    grown.GrowsTo later → x.eval later = (.ok a, later)
  repeats : ∀ r fault grown, x.eval r = (.error fault, grown) →
    x.eval grown = (.error fault, grown)

theorem Lasting.interns_of_eval {x : Growing α} (hx : Lasting x) {r grown : Registry}
    {result : Except Fault α} (done : x.eval r = (result, grown)) : r.Interns grown := by
  have h := hx.interns r
  rw [done] at h
  exact h

/-- Asked again at once, a computation has the same outcome and changes nothing. -/
theorem Lasting.again {x : Growing α} (hx : Lasting x) {r grown : Registry}
    {result : Except Fault α} (done : x.eval r = (result, grown)) :
    x.eval grown = (result, grown) := by
  cases result with
  | ok a => exact hx.lasts r a grown grown done (.refl grown)
  | error fault => exact hx.repeats r fault grown done

theorem Lasting.pure (a : α) : Lasting (Pure.pure a) where
  interns r := .refl r
  lasts r b grown later done _ := by
    cases done
    rfl
  repeats r fault grown done := by cases done

theorem Lasting.throw (fault : Fault) : Lasting (MonadExcept.throw fault : Growing α) where
  interns r := .refl r
  lasts r b grown later done _ := by cases done
  repeats r other grown done := by
    cases done
    rfl

theorem Lasting.read {query : Registry → Except Fault α} (stable : Registry.Stable query) :
    Lasting (Growing.read query) where
  interns r := .refl r
  lasts r a grown later done grows := by
    rw [eval_read, Prod.mk.injEq] at done
    obtain ⟨answer, rfl⟩ := done
    rw [eval_read, stable r later a answer grows]
  repeats r fault grown done := by
    rw [eval_read, Prod.mk.injEq] at done
    obtain ⟨answer, rfl⟩ := done
    rw [eval_read, answer]

theorem Lasting.arrayOf (component : TypeId) : Lasting (Growing.arrayOf component) where
  interns r := by
    rw [eval_arrayOf]
    cases done : r.internArray component with
    | error fault => exact .refl r
    | ok interned => exact Relation.ReflTransGen.single ⟨component, interned.1, done⟩
  lasts r a grown later done grows := by
    rw [eval_arrayOf] at done ⊢
    cases interned : r.internArray component with
    | error fault =>
      rw [interned] at done
      cases done
    | ok pair =>
      obtain ⟨array, after⟩ := pair
      rw [interned] at done
      cases done
      have known := Registry.findArray?_internArray interned
      rw [Registry.internArray_known (grows.arrays component _ known)]
  repeats r fault grown done := by
    rw [eval_arrayOf] at done ⊢
    cases interned : r.internArray component with
    | ok pair =>
      rw [interned] at done
      cases done
    | error cause =>
      rw [interned] at done
      cases done
      rw [interned]

theorem Lasting.bind {x : Growing α} {f : α → Growing β} (hx : Lasting x)
    (hf : ∀ a, Lasting (f a)) : Lasting (x >>= f) where
  interns r := by
    rw [eval_bind]
    rcases first : x.eval r with ⟨fault | a, middle⟩
    · exact hx.interns_of_eval first
    · exact (hx.interns_of_eval first).trans ((hf a).interns middle)
  lasts r b grown later done grows := by
    obtain ⟨a, middle, first, second⟩ := bind_eval_ok.mp done
    have after := ((hf a).interns_of_eval second).growsTo.trans grows
    rw [eval_bind, hx.lasts r a middle later first after]
    exact (hf a).lasts middle b grown later second grows
  repeats r fault grown done := by
    rw [eval_bind] at done ⊢
    rcases first : x.eval r with ⟨cause | a, middle⟩
    · rw [first] at done
      cases done
      rw [hx.repeats r fault grown first]
    · rw [first] at done
      have second : (f a).eval middle = (.error fault, grown) := done
      have after := ((hf a).interns_of_eval second).growsTo
      rw [hx.lasts r a middle grown first after]
      exact (hf a).repeats middle fault grown second

theorem Lasting.map {x : Growing α} (hx : Lasting x) (f : α → β) :
    Lasting (x >>= fun a => Pure.pure (f a)) :=
  hx.bind fun a => .pure (f a)

theorem Lasting.mapM {f : α → Growing β} (hf : ∀ a, Lasting (f a)) (l : List α) :
    Lasting (l.mapM f) := by
  induction l with
  | nil =>
    rw [List.mapM_nil]
    exact .pure []
  | cons a rest ih =>
    rw [List.mapM_cons]
    exact (hf a).bind fun b => ih.bind fun bs => .pure (b :: bs)

theorem Lasting.foldlM {f : β → α → Growing β} (hf : ∀ b a, Lasting (f b a)) (l : List α) (b : β) :
    Lasting (l.foldlM f b) := by
  induction l generalizing b with
  | nil => exact .pure b
  | cons a rest ih =>
    rw [List.foldlM_cons]
    exact (hf b a).bind ih

/-! ## Settled registries -/

/-- Where a sequence succeeds and interns nothing, neither of its parts interns anything. -/
theorem Lasting.bind_settled {x : Growing α} {f : α → Growing β} (hx : Lasting x)
    (hf : ∀ a, Lasting (f a)) {r : Registry} {b : β} :
    (x >>= f).eval r = (.ok b, r) ↔ ∃ a, x.eval r = (.ok a, r) ∧ (f a).eval r = (.ok b, r) := by
  rw [bind_eval_ok]
  constructor
  · rintro ⟨a, middle, first, second⟩
    obtain rfl : middle = r :=
      (hx.interns_of_eval first).antisymm ((hf a).interns_of_eval second)
    exact ⟨a, first, second⟩
  · rintro ⟨a, first, second⟩
    exact ⟨a, r, first, second⟩

/-- In a settled registry, a sequence ends as its first part does, or as its second. -/
theorem Lasting.bind_cases {x : Growing α} {f : α → Growing β} (hx : Lasting x)
    (hf : ∀ a, Lasting (f a)) {r : Registry} {outcome : Except Fault β}
    (done : (x >>= f).eval r = (outcome, r)) :
    (∃ fault, outcome = .error fault ∧ x.eval r = (.error fault, r)) ∨
      ∃ a, x.eval r = (.ok a, r) ∧ (f a).eval r = (outcome, r) := by
  rw [eval_bind] at done
  rcases first : x.eval r with ⟨fault | a, middle⟩
  · rw [first] at done
    cases done
    exact .inl ⟨fault, rfl, rfl⟩
  · rw [first] at done
    obtain rfl : middle = r :=
      (hx.interns_of_eval first).antisymm ((hf a).interns_of_eval done)
    exact .inr ⟨a, rfl, done⟩

theorem mapM_settled {f : α → Growing β} {g : α → β} {r : Registry} {l : List α}
    (step : ∀ a ∈ l, (f a).eval r = (.ok (g a), r)) : (l.mapM f).eval r = (.ok (l.map g), r) := by
  induction l with
  | nil => rfl
  | cons a rest ih =>
    obtain ⟨first, later⟩ := List.forall_mem_cons.mp step
    rw [List.mapM_cons, bind_eval_ok]
    refine ⟨g a, r, first, ?_⟩
    rw [bind_eval_ok]
    exact ⟨rest.map g, r, ih later, rfl⟩

theorem mapM_settled_of_mem {f : α → Growing β} (hf : ∀ a, Lasting (f a)) {r : Registry}
    {l : List α} {bs : List β} (done : (l.mapM f).eval r = (.ok bs, r)) :
    ∀ a ∈ l, ∃ b, (f a).eval r = (.ok b, r) := by
  induction l generalizing bs with
  | nil => simp
  | cons a rest ih =>
    rw [List.mapM_cons] at done
    obtain ⟨b, first, done⟩ := ((hf a).bind_settled fun _ => (Lasting.mapM hf rest).map _).mp done
    obtain ⟨_, later, -⟩ := ((Lasting.mapM hf rest).bind_settled fun _ => .pure _).mp done
    exact List.forall_mem_cons.mpr ⟨⟨b, first⟩, ih later⟩

/-- What each step of a loop keeps in a settled registry, the loop keeps. -/
theorem foldlM_settled {P : β → Prop} {f : β → α → Growing β} (hf : ∀ b a, Lasting (f b a))
    {r : Registry} {l : List α}
    (step : ∀ a ∈ l, ∀ b b', P b → (f b a).eval r = (.ok b', r) → P b') {b last : β} (h : P b)
    (done : (l.foldlM f b).eval r = (.ok last, r)) : P last := by
  induction l generalizing b with
  | nil =>
    cases done
    exact h
  | cons a rest ih =>
    rw [List.foldlM_cons] at done
    obtain ⟨b', first, done⟩ := ((hf b a).bind_settled fun b' => .foldlM hf rest b').mp done
    exact ih (fun a' ha' => step a' (List.mem_cons_of_mem a ha'))
      (step a List.mem_cons_self b b' h first) done

/-- An array type that is found without interning anything was known. -/
theorem arrayOf_settled {r : Registry} {component id : TypeId} :
    (arrayOf component).eval r = (.ok id, r) ↔ r.findArray? component = some id := by
  rw [eval_arrayOf]
  constructor
  · intro done
    cases interned : r.internArray component with
    | error fault =>
      rw [interned] at done
      cases done
    | ok pair =>
      obtain ⟨array, after⟩ := pair
      rw [interned] at done
      cases done
      exact Registry.findArray?_internArray interned
  · intro known
    rw [Registry.internArray_known known]

end Growing

end PropertyTables
