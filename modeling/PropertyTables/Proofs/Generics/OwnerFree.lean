import PropertyTables.Proofs.Generics.Fallbacks
import PropertyTables.Proofs.Generics.Lasting
import PropertyTables.Proofs.Registry.Closed
import PropertyTables.Proofs.Table.Steady

/-! # Erasure without an owner

Signatures and overloads compare the erasures of types as a method declares them. Such an erasure
reads the bounds of the method's own variables without bindings; resolution reads them with what the
variables of the declaring type stand for.

* `GenericType.elementVar?`: the variable that a type is, or is an array of. Erasure depends on what
  it stands for, and on no other variable: `erase_subst_congr`, `erase_subst_settled`.
* `Method.ownBindings_value`, `Substitution.extend_named`: what a method's own variable stands for in
  the one and in the other.
* `eraseDeclared_agrees_iff`: at the declaring type the two agree, unless a bound of an own variable
  is a variable that stands for something else than the root type.
* `eraseDeclared_misses_bound`: such a bound is read as the root type by the one.
-/

namespace PropertyTables
set_option autoImplicit false

open Growing (Lasting)

/-! ## What erasure depends on -/

namespace GenericType

/-- The variable that a type is, or is an array of at some depth. -/
def elementVar? : GenericType → Option String
  | array component => component.elementVar?
  | typeVar x => some x
  | named _ => none
  | applied _ _ => none
  | wildcard _ _ => none

/-- Whether a type erases to the root type. -/
def ErasesToRoot : GenericType → Prop
  | named id => id = .object
  | applied raw _ => raw = .object
  | array _ => False
  | typeVar _ => True
  | wildcard _ _ => True

theorem ErasesToRoot.erase_eq {t : GenericType} (h : t.ErasesToRoot) :
    t.erase = (named .object).erase := by
  cases t with
  | named id =>
    obtain rfl : id = .object := h
    rfl
  | applied raw args =>
    obtain rfl : raw = .object := h
    rfl
  | array component => exact h.elim
  | typeVar name => rfl
  | wildcard upper lower => rfl

variable {r s grown : Registry} {t : GenericType} {σ τ : Substitution} {x : String} {i : TypeId}

theorem erase_subst_congr
    (same : ∀ x, t.elementVar? = some x → (σ x).erase = (τ x).erase) :
    (t.subst σ).erase = (t.subst τ).erase := by
  induction t using induction_on_parts with
  | named id => rfl
  | applied raw args _ => rfl
  | array component ih => rw [subst, subst, erase, erase, ih same]
  | typeVar name => exact same name rfl
  | wildcard upper lower _ _ => rfl

/-- An array type that is interned already comes from its component. -/
theorem erase_array_settled {component : GenericType}
    (done : (array component).erase.eval s = (.ok i, s)) :
    ∃ element, component.erase.eval s = (.ok element, s) ∧ s.findArray? element = some i := by
  obtain ⟨element, first, second⟩ :=
    (component.erase_lasting.bind_settled fun id => Lasting.arrayOf id).mp done
  refine ⟨element, first, ?_⟩
  rw [Growing.eval_arrayOf] at second
  cases interned : s.internArray element with
  | error fault =>
    rw [interned] at second
    cases second
  | ok made =>
    obtain ⟨id, after⟩ := made
    rw [interned] at second
    cases second
    exact Registry.findArray?_internArray interned

/-- Where substitutions lead to one erasure, so do the types that they put for the element
variable. -/
theorem erase_subst_settled (element : t.elementVar? = some x)
    (first : (t.subst σ).erase.eval s = (.ok i, s))
    (second : (t.subst τ).erase.eval s = (.ok i, s)) :
    ∃ j, (σ x).erase.eval s = (.ok j, s) ∧ (τ x).erase.eval s = (.ok j, s) := by
  induction t using induction_on_parts generalizing i with
  | named id => cases element
  | applied raw args _ => cases element
  | array component ih =>
    obtain ⟨e, erased, known⟩ := erase_array_settled first
    obtain ⟨e', erased', known'⟩ := erase_array_settled second
    obtain ⟨d, found, array⟩ := Registry.findArray?_eq_some known
    obtain ⟨d', found', array'⟩ := Registry.findArray?_eq_some known'
    obtain rfl := Option.some.inj (found.symm.trans found')
    obtain rfl := Flavor.array.inj (array.symm.trans array')
    exact ih element erased erased'
  | typeVar name =>
    cases element
    exact ⟨i, first, second⟩
  | wildcard upper lower _ _ => cases element

/-- Arrays of a declared type are interned. -/
theorem erase_subst_succeeds (element : t.elementVar? = some x) {j : TypeId}
    (erased : (σ x).erase.eval r = (.ok j, s)) (declared : s.Published j) :
    ∃ i grown, (t.subst σ).erase.eval r = (.ok i, grown) ∧ grown.Published i := by
  induction t using induction_on_parts with
  | named id => cases element
  | applied raw args _ => cases element
  | array component ih =>
    obtain ⟨e, middle, made, published⟩ := ih element
    obtain ⟨id, grown, interned⟩ := Registry.internArray_succeeds published
    obtain ⟨a, here, -⟩ := Registry.findArray?_eq_some (Registry.findArray?_internArray interned)
    refine ⟨id, grown, Growing.bind_eval_ok.mpr ⟨e, middle, made, ?_⟩, .of_find? here⟩
    rw [Growing.eval_arrayOf, interned]
  | typeVar name =>
    cases element
    exact ⟨j, s, erased, declared⟩
  | wildcard upper lower _ _ => cases element

theorem erasesToRoot_of_erase (coherent : s.Coherent)
    (erased : t.erase.eval s = (.ok .object, s)) : t.ErasesToRoot := by
  cases t with
  | named id =>
    cases erased
    rfl
  | applied raw args =>
    cases erased
    rfl
  | array component =>
    obtain ⟨element, -, known⟩ := erase_array_settled erased
    obtain ⟨d, found, array⟩ := Registry.findArray?_eq_some known
    obtain ⟨root, here, flavor, -⟩ := coherent.root
    obtain rfl := Option.some.inj (found.symm.trans here)
    rw [flavor] at array
    cases array
  | typeVar name => trivial
  | wildcard upper lower => trivial

end GenericType

/-! ## A method's own variables -/

section
variable {params : List TypeParam} {x : String}

theorem paramNamed?_eq_some_iff {p : TypeParam} : paramNamed? params x = some p ↔
    ∃ before after, params = before ++ p :: after ∧ p.name = x ∧ ∀ q ∈ after, q.name ≠ x := by
  rw [paramNamed?, List.findRev?_eq_find?_reverse, List.find?_eq_some_iff_append]
  constructor
  · rintro ⟨named, after, before, reversed, later⟩
    refine ⟨before.reverse, after.reverse, ?_, of_decide_eq_true named, ?_⟩
    · rw [← List.reverse_reverse params, reversed]
      simp
    · simpa using later
  · rintro ⟨before, after, rfl, named, later⟩
    exact ⟨decide_eq_true named, after.reverse, before.reverse, by simp, by simpa using later⟩

theorem Substitution.extend_named {σ : Substitution} {before after : List TypeParam} {p : TypeParam}
    (last : ∀ q ∈ after, q.name ≠ p.name) :
    σ.extend (before ++ p :: after) p.name = p.fallbackIn (σ.extend before) := by
  rw [extend, List.foldl_append, List.foldl_cons]
  show Substitution.extend (Function.update (σ.extend before) p.name
    (p.fallbackIn (σ.extend before))) after p.name = _
  rw [extend_of_ne last, Function.update_self]

end

section
variable {r : Registry} {d : Declaration} {m : Method}

/-- Where a method is looked at on its own, its own variables stand for their bounds with the root
type for the variables in them. -/
theorem Method.ownBindings_value (found : r.find? m.declaring = some d) :
    ∃ env, m.ownBindings r = .ok env ∧ ∀ x, env.value x = (paramNamed? m.typeParams x).elim
      (Substitution.shallow d.typeParams x) (TypeParam.fallbackIn .unbound) := by
  refine ⟨_, by rw [ownBindings, Registry.find_eq_ok.mpr found]; rfl, fun x => ?_⟩
  rw [Bindings.value, List.lookup_append, Bindings.lookup_fallbacks]
  cases paramNamed? m.typeParams x with
  | some p => rfl
  | none => exact congrFun (Bindings.value_fallbacks d.typeParams) x

/-- Whether a type that a method declares is erased alike on its own and as `seen`, which is resolved
in what the first erasure leaves. -/
def Method.ErasesAs (r : Registry) (m : Method) (t seen : GenericType) : Prop :=
  (seen.erase.eval ((m.eraseDeclared t).eval r).2).1 = ((m.eraseDeclared t).eval r).1

/-- Whether the variable that a type is, or is an array of, if it is one of the method's own and its
first bound is a variable or an array of one, has a bound that stands for the root type. -/
def Method.BoundToRoot (d : Declaration) (m : Method) (t : GenericType) : Prop :=
  ∀ x before p after, t.elementVar? = some x → m.typeParams = before ++ p :: after → p.name = x →
    (∀ q ∈ after, q.name ≠ x) → ∀ bound ∈ p.bounds.head?, ∀ y, bound.elementVar? = some y →
      ((Substitution.shallow d.typeParams).extend before y).ErasesToRoot

section Agreement
variable {env : Bindings} {t : GenericType}

/-- The substitution that resolution at the declaring type amounts to. -/
def Substitution.atHome (d : Declaration) (m : Method) : Substitution :=
  (shallow d.typeParams).extend m.typeParams

theorem Method.eraseDeclared_eval (bound : m.ownBindings r = .ok env) :
    (m.eraseDeclared t).eval r = (t.subst env.value).erase.eval r := by
  rw [eraseDeclared, Growing.eval_bind, Growing.eval_read, bound]
  show (t.instantiate env).erase.eval r = _
  rw [GenericType.instantiate_eq_subst]

/-- Where bounds stand for the root type, it makes no difference with what they are read. -/
theorem Method.BoundToRoot.erase_eq (h : m.BoundToRoot d t)
    (value : ∀ x, env.value x = (paramNamed? m.typeParams x).elim
      (Substitution.shallow d.typeParams x) (TypeParam.fallbackIn .unbound)) :
    (t.subst env.value).erase = (t.subst (.atHome d m)).erase := by
  refine GenericType.erase_subst_congr fun x element => ?_
  rw [value, Substitution.atHome]
  cases known : paramNamed? m.typeParams x with
  | none => rw [Substitution.extend_of_ne (paramNamed?_eq_none.mp known), Option.elim_none]
  | some p =>
    obtain ⟨before, after, split, rfl, last⟩ := paramNamed?_eq_some_iff.mp known
    rw [split, Substitution.extend_named last, Option.elim_some, TypeParam.fallbackIn,
      TypeParam.fallbackIn]
    cases first : p.bounds with
    | nil => rfl
    | cons bound others =>
      refine GenericType.erase_subst_congr fun y inner => ?_
      exact (h p.name before p after element split rfl last bound (by simp [first]) y
        inner).erase_eq.symm

/-- What a method's type is erased to on its own and as seen from the declaring type agrees exactly
if a bound that is a variable stands for the root type. -/
theorem Method.erasesAs_iff (reachable : r.Reachable) (found : r.find? m.declaring = some d) :
    m.ErasesAs r t (t.subst (.atHome d m)) ↔ m.BoundToRoot d t := by
  obtain ⟨env, bound, value⟩ := m.ownBindings_value found
  rw [ErasesAs, Method.eraseDeclared_eval bound]
  constructor
  · rintro agree x before p after element split rfl last b first y inner
    have own : env.value p.name = b.subst .unbound := by
      obtain ⟨others, bounds⟩ := List.head?_eq_some_iff.mp first
      rw [value, paramNamed?_eq_some_iff.mpr ⟨before, after, split, rfl, last⟩, Option.elim_some,
        TypeParam.fallbackIn, bounds]
    have home : Substitution.atHome d m p.name =
        b.subst ((Substitution.shallow d.typeParams).extend before) := by
      obtain ⟨others, bounds⟩ := List.head?_eq_some_iff.mp first
      rw [Substitution.atHome, split, Substitution.extend_named last, TypeParam.fallbackIn, bounds]
    -- read without bindings, the bound is an array of the root type, which can be interned
    have root : (Substitution.unbound y).erase.eval r = (.ok .object, r) := rfl
    obtain ⟨j, middle, erased, declared⟩ :=
      GenericType.erase_subst_succeeds inner root reachable.published_object
    rw [← own] at erased
    obtain ⟨i, grown, done, -⟩ := GenericType.erase_subst_succeeds element erased declared
    rw [done] at agree
    obtain ⟨later, seen⟩ : ∃ later, (t.subst (.atHome d m)).erase.eval grown = (.ok i, later) :=
      ⟨((t.subst (.atHome d m)).erase.eval grown).2, Prod.ext agree rfl⟩
    have lasting (t : GenericType) := t.erase_lasting
    have interned := (lasting _).interns_of_eval done
    have interned' := (lasting _).interns_of_eval seen
    obtain ⟨k, one, other⟩ := GenericType.erase_subst_settled element
      ((lasting _).lasts _ _ _ _ done interned'.growsTo) ((lasting _).again seen)
    rw [own] at one
    rw [home] at other
    obtain ⟨l, one, other⟩ := GenericType.erase_subst_settled inner one other
    cases one
    exact GenericType.erasesToRoot_of_erase
      (reachable.interns (interned.trans interned')).coherent other
  · intro h
    rw [h.erase_eq value]
    exact congrArg Prod.fst ((GenericType.erase_lasting _).again rfl)

end Agreement

/-- The types of a method's results and parameters are erased alike on their own and as the declaring
type sees them, exactly if they are no variables of the method's own, arrays aside, or the first
bound of that variable is no variable, arrays aside, or one that stands for the root type. -/
theorem eraseDeclared_agrees_iff (reachable : r.Reachable) {id : TypeId}
    (found : r.find? id = some d) (listed : m ∈ d.methods) :
    ∃ returns params, r.resolveReturn m id = .ok returns ∧ r.resolveParams m id = .ok params ∧
      (m.ErasesAs r m.returns returns ↔ m.BoundToRoot d m.returns) ∧
      List.Forall₂ (fun t seen => m.ErasesAs r t seen ↔ m.BoundToRoot d t) m.params params := by
  have home : r.find? m.declaring = some d := by
    rw [Registry.declaring_of_mem_methods listed, Registry.id_of_find? found, found]
  have sees : r.SeesThrough d.id d (.shallow d.typeParams) := by
    rw [← Bindings.value_fallbacks]
    exact Registry.seesThrough_of_bindings
      (Registry.bindings_self ((Registry.id_of_find? found).symm ▸ found))
  rw [Registry.id_of_find? found] at sees
  refine ⟨_, _, sees.returns m listed, sees.params m listed, Method.erasesAs_iff reachable home, ?_⟩
  rw [List.forall₂_map_right_iff, List.forall₂_same]
  exact fun t _ => Method.erasesAs_iff reachable home

end

/-! ## A box of numbers -/

/-- A method of one variable bounded by a box, which takes an array. -/
def pickDraft : MethodDraft where
  name := "pick"
  returns := some (.typeVar "V")
  params := [.array (.typeVar "T")]
  typeParams := [⟨"V", [.applied ⟨12⟩ [.typeVar "T"]]⟩]

/-- A method of one variable bounded by that of its class. -/
def narrowDraft : MethodDraft where
  name := "getAny"
  returns := some (.typeVar "U")
  typeParams := [⟨"U", [.typeVar "T"]⟩]

/-- A class with a variable bounded by a number. -/
def Registry.picking : Registry :=
  (initial.declared "" "Number" .classType id).declared "" "Box" .classType fun d =>
    ((d.withTypeParam ⟨"T", [.named ⟨11⟩]⟩).method pickDraft).method narrowDraft

theorem exists_picking : ∃ d, Registry.picking.find? ⟨12⟩ = some d ∧
    d.methods = [pickDraft.finish ⟨12⟩, narrowDraft.finish ⟨12⟩] :=
  ⟨_, rfl, rfl⟩

theorem picking_reachable : Registry.picking.Reachable :=
  (Registry.Reachable.declared .refl _ _ _ _).declared _ _ _ _

/-- A bound with an argument and an array of the class's variable are erased alike. -/
theorem eraseDeclared_agrees_iff_picking : ∃ d returns params, Registry.picking.Reachable ∧
    Registry.picking.find? ⟨12⟩ = some d ∧ pickDraft.finish ⟨12⟩ ∈ d.methods ∧
    Registry.picking.resolveReturn (pickDraft.finish ⟨12⟩) ⟨12⟩ = .ok returns ∧
    Registry.picking.resolveParams (pickDraft.finish ⟨12⟩) ⟨12⟩ = .ok params ∧
    (pickDraft.finish ⟨12⟩).ErasesAs .picking (.typeVar "V") returns ∧
    List.Forall₂ ((pickDraft.finish ⟨12⟩).ErasesAs .picking) [.array (.typeVar "T")] params := by
  obtain ⟨d, found, methods⟩ := exists_picking
  have listed : pickDraft.finish ⟨12⟩ ∈ d.methods := by simp [methods]
  have boxed (t : GenericType) : (pickDraft.finish ⟨12⟩).BoundToRoot d t := by
    intro x before p after _ split _ _ bound first y inner
    have own : p ∈ (pickDraft.finish ⟨12⟩).typeParams := by simp [split]
    obtain rfl := List.mem_singleton.mp own
    cases first
    cases inner
  obtain ⟨returns, params, resolved, taken, returns_iff, params_iff⟩ :=
    eraseDeclared_agrees_iff picking_reachable found listed
  exact ⟨d, returns, params, picking_reachable, found, listed, resolved, taken,
    returns_iff.mpr (boxed _), params_iff.imp fun t seen agrees => agrees.mpr (boxed t)⟩

/-- The variable of the class stands for a number, but in the bound of another variable it is read as
the root type. -/
theorem eraseDeclared_misses_bound : ∃ d, Registry.picking.Reachable ∧
    Registry.picking.find? ⟨12⟩ = some d ∧ narrowDraft.finish ⟨12⟩ ∈ d.methods ∧
    ((narrowDraft.finish ⟨12⟩).eraseDeclared (.typeVar "U")).eval .picking =
      (.ok .object, .picking) ∧
    Registry.picking.resolveReturn (narrowDraft.finish ⟨12⟩) ⟨12⟩ = .ok (.named ⟨11⟩) ∧
    ¬ (narrowDraft.finish ⟨12⟩).ErasesAs .picking (.typeVar "U") (.named ⟨11⟩) := by
  obtain ⟨d, found, methods⟩ := exists_picking
  have declared : ((narrowDraft.finish ⟨12⟩).eraseDeclared (.typeVar "U")).eval .picking =
      (.ok .object, .picking) := by cbv
  refine ⟨d, picking_reachable, found, by simp [methods], declared, by cbv, fun same => ?_⟩
  rw [Method.ErasesAs, declared] at same
  cases same

end PropertyTables
