import PropertyTables.Proofs.Generics.Lasting
import PropertyTables.Proofs.Table.Choice
import PropertyTables.Table.Build

/-! # Candidates of declared types

* `Overload.OfGetter`, `Overload.OfSetter`: a candidate for a property, with the type that its
  method declares for it, erased. That type is declared.
* `Method.eraseDeclared_settled`: finding such a type interns nothing.
* `Overload.Settled`: what a candidate makes where nothing is interned for it.
* `resolveGetter_made`, `resolveSetter_made`: where the overloads of candidates are made without
  interning anything, resolving the candidates is to choose among them.
-/

namespace PropertyTables
set_option autoImplicit false

variable {r grown : Registry}

/-! ## Erasing to declared types -/

/-- An array type that is declared already is not interned anew, nor is its component. -/
theorem GenericType.erase_settled (hr : r.Coherent) {t : GenericType} {id : TypeId}
    (done : t.erase.eval r = (.ok id, grown)) (declared : r.Published id) : grown = r := by
  induction t using GenericType.induction_on_parts generalizing id grown with
  | named raw =>
    cases done
    rfl
  | applied raw args _ =>
    cases done
    rfl
  | array component ih =>
    obtain ⟨element, middle, first, second⟩ := Growing.bind_eval_ok.mp done
    have interned := component.erase_lasting.interns_of_eval first
    obtain ⟨d, found⟩ := Registry.published_iff.mp declared
    have later := interned.growsTo.declared id d found
    rw [Growing.eval_arrayOf] at second
    cases made : middle.internArray element with
    | error fault =>
      rw [made] at second
      cases second
    | ok pair =>
      obtain ⟨array, after⟩ := pair
      rw [made] at second
      cases second
      rcases Registry.internArray_eq_ok made with ⟨known, rfl⟩ | ⟨-, fresh, -⟩
      · obtain ⟨e, here, flavor⟩ := Registry.findArray?_eq_some known
        obtain rfl := Option.some.inj (later.symm.trans here)
        exact ih first (hr.component_published id d element found flavor)
      · rw [fresh, Registry.find?_size] at later
        cases later
  | typeVar name =>
    cases done
    rfl
  | wildcard upper lower _ _ =>
    cases done
    rfl

theorem Method.eraseDeclared_settled (hr : r.Coherent) {m : Method} {t : GenericType} {id : TypeId}
    (done : (m.eraseDeclared t).eval r = (.ok id, grown)) (declared : r.Published id) :
    grown = r := by
  obtain ⟨env, middle, found, erased⟩ := Growing.bind_eval_ok.mp done
  rw [Growing.eval_read, Prod.mk.injEq] at found
  obtain ⟨-, rfl⟩ := found
  exact GenericType.erase_settled hr erased declared

theorem Method.eraseDeclared_named {m : Method} (declared : r.Published m.declaring) (id : TypeId) :
    (m.eraseDeclared (.named id)).eval r = (.ok id, r) := by
  obtain ⟨d, found⟩ := Registry.published_iff.mp declared
  rw [Method.eraseDeclared, Growing.eval_bind, Growing.eval_read, Method.ownBindings,
    Registry.find_eq_ok.mpr found]
  rfl

/-- The declaring type of a method is looked up for its variables. -/
theorem Method.published_of_eraseDeclared {m : Method} {t : GenericType} {id : TypeId}
    (erased : ((m.eraseDeclared t).eval r).1 = .ok id) : r.Published m.declaring := by
  obtain ⟨env, middle, found, -⟩ := Growing.bind_eval_ok.mp (Prod.ext erased rfl)
  rw [Growing.eval_read, Prod.mk.injEq] at found
  obtain ⟨d, declared, -⟩ := bind_eq_ok.mp found.1
  exact .of_find? (Registry.find_eq_ok.mp declared)

/-! ## Settled overloads -/

/-- The type that an accessor method reads (writes). -/
def Method.valueType (m : Method) : Side → GenericType
  | .read => m.returns
  | .write => m.params.headD (.named .object)

namespace Overload

/-- Whether a candidate makes this overload, and interns nothing. -/
def Settled (r : Registry) (side : Side) (o : Overload) : Prop :=
  (o.method.eraseDeclared (o.method.valueType side)).eval r = (.ok o.type, r)

variable {o : Overload}

theorem Settled.getterOverload (h : o.Settled r .read) :
    (getterOverload o.method).eval r = (.ok o, r) := by
  rw [PropertyTables.getterOverload, Growing.bind_eval_ok]
  exact ⟨o.type, r, h, rfl⟩

theorem Settled.setterOverload (h : o.Settled r .write) :
    (setterOverload o.method).eval r = (.ok o, r) := by
  rw [PropertyTables.setterOverload, Growing.bind_eval_ok]
  exact ⟨o.type, r, h, rfl⟩

end Overload

/-! ## Candidates -/

namespace Overload

/-- Whether the type of a candidate is `t`, as its method declares it, and is declared. -/
structure TypedAs (r : Registry) (t : GenericType) (o : Overload) : Prop where
  erased : ((o.method.eraseDeclared t).eval r).1 = .ok o.type
  declared : r.Published o.type

/-- Whether the type of a candidate is what its method returns. -/
def OfGetter (r : Registry) (o : Overload) : Prop := o.TypedAs r o.method.returns

/-- Whether the type of a candidate is that of the one parameter of its method. -/
def OfSetter (r : Registry) (o : Overload) : Prop :=
  ∃ param, o.method.params = [param] ∧ o.TypedAs r param

variable {o a b : Overload} {t : GenericType}

theorem TypedAs.eval (hr : r.Coherent) (h : o.TypedAs r t) :
    (o.method.eraseDeclared t).eval r = (.ok o.type, r) := by
  rcases done : (o.method.eraseDeclared t).eval r with ⟨result, grown⟩
  obtain rfl : result = .ok o.type := by
    have erased := h.erased
    rwa [done] at erased
  rw [Method.eraseDeclared_settled hr done h.declared]

theorem TypedAs.owner (h : o.TypedAs r t) : r.Published o.method.declaring :=
  Method.published_of_eraseDeclared h.erased

theorem OfGetter.eval (hr : r.Coherent) (h : o.OfGetter r) :
    (getterOverload o.method).eval r = (.ok o, r) :=
  Settled.getterOverload (TypedAs.eval hr h)

theorem OfSetter.eval (hr : r.Coherent) (h : o.OfSetter r) :
    (setterOverload o.method).eval r = (.ok o, r) := by
  obtain ⟨param, written, typed⟩ := h
  refine Settled.setterOverload ?_
  rw [Settled, Method.valueType, written]
  exact typed.eval hr

theorem OfSetter.declared (h : o.OfSetter r) : r.Published o.type := by
  obtain ⟨param, -, typed⟩ := h
  exact typed.declared

theorem OfSetter.owner (h : o.OfSetter r) : r.Published o.method.declaring := by
  obtain ⟨param, -, typed⟩ := h
  exact typed.owner

/-- Setters of one method are of one type. -/
theorem OfSetter.type_eq (ha : a.OfSetter r) (hb : b.OfSetter r) (same : a.method = b.method) :
    a.type = b.type := by
  obtain ⟨param, written, a_typed⟩ := ha
  obtain ⟨other, written', b_typed⟩ := hb
  rw [same, written'] at written
  cases written
  have erased := a_typed.erased
  rw [same, b_typed.erased] at erased
  exact (Except.ok.inj erased).symm

end Overload

/-! ## Resolving candidates -/

theorem mapM_candidates {make : Method → Growing Overload} {os : List Overload}
    (makes : ∀ o ∈ os, (make o.method).eval r = (.ok o, r)) :
    ((os.map (·.method)).mapM make).eval r = (.ok os, r) := by
  have settled := Growing.mapM_settled (g := id) makes
  rwa [List.map_id, ← Function.comp_def make, ← List.mapM_map] at settled

theorem resolveGetter_made {first : Overload} {others : List Overload}
    (makes : ∀ o ∈ first :: others, (getterOverload o.method).eval r = (.ok o, r))
    (property : String) :
    (resolveGetter property ((first :: others).map (·.method))).eval r =
      ((r.chooseGetter property first others).map some, r) := by
  cases others with
  | nil => rfl
  | cons second others =>
    obtain ⟨here, later⟩ := List.forall_mem_cons.mp makes
    have rest := mapM_candidates later
    simp only [List.map_cons] at rest ⊢
    simp only [resolveGetter, Growing.eval_bind, here, rest, Growing.eval_read]
    cases r.chooseGetter property first (second :: others) <;> rfl

theorem resolveSetter_made {first second : Overload} {others : List Overload}
    (makes : ∀ o ∈ first :: second :: others, (setterOverload o.method).eval r = (.ok o, r))
    (property : String) (readType : Option TypeId) :
    (resolveSetter property readType ((first :: second :: others).map (·.method))).eval r =
      ((r.chooseSetter property readType first second others).map some, r) := by
  simp only [List.forall_mem_cons] at makes
  obtain ⟨one, other, later⟩ := makes
  have rest := mapM_candidates later
  simp only [List.map_cons, resolveSetter, Growing.eval_bind, one, other, rest, Growing.eval_read]
  cases r.chooseSetter property readType first second others <;> rfl

theorem resolveGetter_eval (hr : r.Coherent) (property : String) {first : Overload}
    {others : List Overload} (typed : ∀ o ∈ first :: others, o.OfGetter r) :
    (resolveGetter property ((first :: others).map (·.method))).eval r =
      ((r.chooseGetter property first others).map some, r) :=
  resolveGetter_made (fun o ho => (typed o ho).eval hr) property

theorem resolveSetter_eval (hr : r.Coherent) (property : String) (readType : Option TypeId)
    {first second : Overload} {others : List Overload}
    (typed : ∀ o ∈ first :: second :: others, o.OfSetter r) :
    (resolveSetter property readType ((first :: second :: others).map (·.method))).eval r =
      ((r.chooseSetter property readType first second others).map some, r) :=
  resolveSetter_made (fun o ho => (typed o ho).eval hr) property readType

end PropertyTables
