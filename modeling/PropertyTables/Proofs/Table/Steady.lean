import PropertyTables.Proofs.Generics.SupertypePath
import PropertyTables.Proofs.Hierarchy.Reordering
import PropertyTables.Table.Build

/-! # Steady members

* `GenericType.IsRigid`: erasure does not depend on what the variables of a type stand for.
* `Registry.Steady`: such a type erases without interning anything.
* `Method.Erases`: a method and its signature, type by type.
* `getterEntry_steady`, `setterEntry_steady`: the types of the entries that steady methods make.
-/

namespace PropertyTables
set_option autoImplicit false

open Growing (Lasting)

/-! ## Types -/

/-- Whether a type is neither a variable nor an array of variables. -/
def GenericType.IsRigid : GenericType → Prop
  | array component => component.IsRigid
  | typeVar _ => False
  | named _ => True
  | applied _ _ => True
  | wildcard _ _ => True

theorem GenericType.IsRigid.erase_instantiate {t : GenericType} (h : t.IsRigid) (env : Bindings) :
    (t.instantiate env).erase = t.erase := by
  induction t using GenericType.induction_on_parts with
  | named id => rfl
  | applied raw args _ => rfl
  | array component ih => rw [instantiate, erase, ih h, erase]
  | typeVar name => exact h.elim
  | wildcard upper lower _ _ => rfl

/-- Whether a type erases to the same type whatever its variables stand for, and interns nothing. -/
def Registry.Steady (r : Registry) (t : GenericType) : Prop :=
  t.IsRigid ∧ ∃ id, t.erase.eval r = (.ok id, r)

variable {r s : Registry}

theorem Registry.Reordered.steady (h : r.Reordered s) {t : GenericType} (steady : r.Steady t) :
    s.Steady t := by
  obtain ⟨rigid, id, erased⟩ := steady
  exact ⟨rigid, id, h.erase erased⟩

/-! ## Methods -/

/-- Whether all types of a method are steady. -/
structure Method.Steady (r : Registry) (m : Method) : Prop where
  declared : r.Published m.declaring
  returns : r.Steady m.returns
  params : ∀ t ∈ m.params, r.Steady t

/-- Whether a signature is that of a method, by erasing its types as they are written. -/
structure Method.Erases (r : Registry) (m : Method) (signature : Signature) : Prop where
  name : signature.name = m.name
  returns : m.returns.erase.eval r = (.ok signature.returns, r)
  params : List.Forall₂ (fun t id => t.erase.eval r = (.ok id, r)) m.params signature.params

namespace Method

theorem Steady.eraseDeclared {m : Method} (h : m.Steady r) {t : GenericType} (rigid : t.IsRigid) :
    (m.eraseDeclared t).eval r = t.erase.eval r := by
  obtain ⟨d, found⟩ := Registry.published_iff.mp h.declared
  have bound : m.ownBindings r = .ok (.fallbacks m.typeParams ++ .fallbacks d.typeParams) := by
    rw [ownBindings, Registry.find_eq_ok.mpr found]
    rfl
  rw [Method.eraseDeclared, Growing.eval_bind, Growing.eval_read, bound]
  show ((t.instantiate _).erase).eval r = _
  rw [rigid.erase_instantiate]

theorem Steady.signature {m : Method} (h : m.Steady r) :
    ∃ signature, m.signature.eval r = (.ok signature, r) ∧ m.Erases r signature := by
  have params (ts : List GenericType) (steady : ∀ t ∈ ts, r.Steady t) :
      ∃ ids, (ts.mapM m.eraseDeclared).eval r = (.ok ids, r) ∧
        List.Forall₂ (fun t id => t.erase.eval r = (.ok id, r)) ts ids := by
    induction ts with
    | nil => exact ⟨[], rfl, .nil⟩
    | cons t ts ih =>
      obtain ⟨⟨rigid, id, first⟩, later⟩ := List.forall_mem_cons.mp steady
      obtain ⟨ids, done, erased⟩ := ih later
      refine ⟨id :: ids, ?_, .cons first erased⟩
      rw [List.mapM_cons, Growing.bind_eval_ok]
      refine ⟨id, r, (h.eraseDeclared rigid).trans first, ?_⟩
      rw [Growing.bind_eval_ok]
      exact ⟨ids, r, done, rfl⟩
  obtain ⟨ids, erased, types⟩ := params m.params h.params
  obtain ⟨rigid, id, returned⟩ := h.returns
  refine ⟨⟨m.name, ids, id⟩, ?_, rfl, returned, types⟩
  rw [Method.signature, Growing.bind_eval_ok]
  refine ⟨ids, r, erased, ?_⟩
  rw [Growing.bind_eval_ok]
  exact ⟨id, r, (h.eraseDeclared rigid).trans returned, rfl⟩

theorem Erases.unique {m : Method} {a b : Signature} (ha : m.Erases r a) (hb : m.Erases r b) :
    a = b := by
  have functional : Relator.RightUnique fun (t : GenericType) (id : TypeId) =>
      t.erase.eval r = (.ok id, r) := fun t id id' first second =>
    Except.ok.inj (congrArg Prod.fst (first.symm.trans second))
  have params := List.right_unique_forall₂' functional ha.params hb.params
  have returns : a.returns = b.returns :=
    Except.ok.inj (congrArg Prod.fst (ha.returns.symm.trans hb.returns))
  have name : a.name = b.name := ha.name.trans hb.name.symm
  cases a
  cases b
  simp_all

theorem Erases.reordered (h : r.Reordered s) {m : Method} {signature : Signature}
    (erases : m.Erases r signature) : m.Erases s signature where
  name := erases.name
  returns := h.erase erases.returns
  params := erases.params.imp fun _ _ => h.erase

end Method

/-! ## Entries -/

section Entries
variable {owner : TypeId}

theorem resolveReturn_steady (closed : r.SupertypesPublished) (ho : r.Published owner) {m : Method}
    (steady : m.Steady r) : ∃ env, r.resolveReturn m owner = .ok (m.returns.instantiate env) := by
  obtain ⟨env, bound⟩ := Registry.bindings_answers closed ho steady.declared
  refine ⟨env.extend m.typeParams, ?_⟩
  rw [Registry.resolveReturn, Registry.methodBindings, bound]
  rfl

theorem resolveParams_steady (closed : r.SupertypesPublished) (ho : r.Published owner) {m : Method}
    (steady : m.Steady r) :
    ∃ env, r.resolveParams m owner = .ok (m.params.map (GenericType.instantiate env)) := by
  obtain ⟨env, bound⟩ := Registry.bindings_answers closed ho steady.declared
  refine ⟨env.extend m.typeParams, ?_⟩
  rw [Registry.resolveParams, Registry.methodBindings, bound]
  rfl

theorem getterEntry_steady (closed : r.SupertypesPublished) (ho : r.Published owner) {m : Method}
    {signature : Signature} (steady : m.Steady r) (erases : m.Erases r signature) :
    ∃ e, (getterEntry owner m).eval r = (.ok e, r) ∧ e.type = signature.returns := by
  obtain ⟨env, resolved⟩ := resolveReturn_steady closed ho steady
  have erased : (m.returns.instantiate env).erase.eval r = (.ok signature.returns, r) := by
    rw [steady.returns.1.erase_instantiate]
    exact erases.returns
  refine ⟨⟨⟨.method m, signature.returns⟩, signature.returns, m.returns.instantiate env⟩, ?_, rfl⟩
  rw [getterEntry, Growing.bind_eval_ok]
  refine ⟨_, r, by rw [Growing.eval_read, resolved], ?_⟩
  rw [Growing.bind_eval_ok]
  exact ⟨_, r, erased, rfl⟩

theorem setterEntry_steady (closed : r.SupertypesPublished) (ho : r.Published owner) {m : Method}
    {signature : Signature} (steady : m.Steady r) (erases : m.Erases r signature) :
    ∃ e, (setterEntry owner m).eval r = (.ok e, r) ∧
      e.type = signature.params.headD .object := by
  obtain ⟨env, resolved⟩ := resolveParams_steady closed ho steady
  have types := erases.params
  have erased : ((m.params.map (GenericType.instantiate env)).headD (.named .object)).erase.eval r =
      (.ok (signature.params.headD .object), r) := by
    cases params : m.params with
    | nil =>
      rw [params, List.forall₂_nil_left_iff] at types
      rw [types]
      rfl
    | cons t ts =>
      rw [params] at types
      obtain ⟨id, ids, first, -, split⟩ := List.forall₂_cons_left_iff.mp types
      have rigid := (steady.params t (by simp [params])).1
      rw [split, List.map_cons, List.headD_cons, List.headD_cons, rigid.erase_instantiate]
      exact first
  refine ⟨⟨⟨.method m, signature.params.headD .object⟩, signature.params.headD .object,
    (m.params.map (GenericType.instantiate env)).headD (.named .object)⟩, ?_, rfl⟩
  rw [setterEntry, Growing.bind_eval_ok]
  refine ⟨_, r, by rw [Growing.eval_read, resolved], ?_⟩
  rw [Growing.bind_eval_ok]
  exact ⟨_, r, erased, rfl⟩

theorem resolveField_steady (closed : r.SupertypesPublished) (ho : r.Published owner) {f : Field}
    (declared : r.Published f.declaring) {type : TypeId} (rigid : f.type.IsRigid)
    (erased : f.type.erase.eval r = (.ok type, r)) :
    ∃ generic, r.resolveField f owner = .ok generic ∧ generic.erase.eval r = (.ok type, r) := by
  obtain ⟨env, bound⟩ := Registry.bindings_answers closed ho declared
  refine ⟨f.type.instantiate env, ?_, ?_⟩
  · rw [Registry.resolveField, bound]
    rfl
  · rw [rigid.erase_instantiate]
    exact erased

end Entries

end PropertyTables
