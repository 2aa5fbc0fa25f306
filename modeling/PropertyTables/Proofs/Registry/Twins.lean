import Mathlib.Data.List.Forall2
import PropertyTables.Proofs.Registry.Grounded

/-! # Array types by any other identity

Which identity an array type gets depends on what was interned before it. Nothing else does.

* `Registry.Forks`: two registries that interned array types, each for itself, from one on.
* `Registry.Twin`: identities that stand for one type in the two. `Twin.eq_iff` says that twins are
  equal on one side where they are on the other, `Interns.twin_self` that a type stands for itself.
* `Forks.isAssignable`, `Forks.fullName`: subtyping and names are the same for twins.
* `Answers`: queries with the same fault or with related results.
* `Growing.InStep`: computations that end alike in the two registries, with the same fault or with
  related results. Erasure is in step with itself, `GenericType.erase_inStep`.
-/

namespace PropertyTables
set_option autoImplicit false

namespace Registry
variable {b r s r' s' : Registry} {n : Nat} {i j i' j' : TypeId}

/-! ## Forks -/

/-- Two registries that interned array types, each for itself, after `b` had handed out all that
its declarations mention. -/
structure Forks (b r s : Registry) : Prop where
  coherent : b.Coherent
  grounded : b.Grounded
  boolean : Primitive.boolean.typeId.index < b.size
  left : b.Interns r
  right : b.Interns s

namespace Forks

theorem symm (h : Forks b r s) : Forks b s r :=
  ⟨h.coherent, h.grounded, h.boolean, h.right, h.left⟩

theorem grow (h : Forks b r s) (left : r.Interns r') (right : s.Interns s') : Forks b r' s' :=
  ⟨h.coherent, h.grounded, h.boolean, h.left.trans left, h.right.trans right⟩

theorem find?_old (h : Forks b r s) (old : i.index < b.size) : r.find? i = s.find? i := by
  rw [h.left.find?_old old, h.right.find?_old old]

theorem find_old (h : Forks b r s) (old : i.index < b.size) : r.find i = s.find i := by
  rw [find, find, h.find?_old old]

theorem object (h : Forks b r s) : TypeId.object.index < b.size :=
  Nat.lt_of_le_of_lt (Nat.zero_le _) h.boolean

end Forks

theorem Reachable.boolean_lt (reachable : r.Reachable) :
    Primitive.boolean.typeId.index < r.size := by
  obtain ⟨d, found⟩ : ∃ d, initial.find? Primitive.boolean.typeId = some d := ⟨_, rfl⟩
  exact lt_size_of_find? (reachable.extends _ d found)

theorem Reachable.forks (reachable : b.Reachable) (grounded : b.Grounded) (left : b.Interns r)
    (right : b.Interns s) : Forks b r s :=
  ⟨reachable.coherent, grounded, reachable.boolean_lt, left, right⟩

/-! ## Twins -/

/-- Identities that stand for one type: the same one below `n`, or those of array types of twins. -/
inductive Twin (n : Nat) (r s : Registry) : TypeId → TypeId → Prop
  | old {id : TypeId} (before : id.index < n) : Twin n r s id id
  | array {component component' id id' : TypeId} (components : Twin n r s component component')
      (left : r.findArray? component = some id) (right : s.findArray? component' = some id')
      (new : n ≤ id.index) (new' : n ≤ id'.index) : Twin n r s id id'

namespace Twin

theorem symm (h : Twin n r s i i') : Twin n s r i' i := by
  induction h with
  | old before => exact .old before
  | array _ left right new new' ih => exact .array ih right left new' new

theorem grow (h : Twin n r s i i') (left : r.GrowsTo r') (right : s.GrowsTo s') :
    Twin n r' s' i i' := by
  induction h with
  | old before => exact .old before
  | array _ here there new new' ih =>
    exact .array ih (left.arrays _ _ here) (right.arrays _ _ there) new new'

/-- An array type has one component. -/
theorem component_unique {c c' : TypeId} (h : r.findArray? c = some i)
    (h' : r.findArray? c' = some i) : c = c' := by
  obtain ⟨d, found, array⟩ := findArray?_eq_some h
  obtain ⟨d', found', array'⟩ := findArray?_eq_some h'
  obtain rfl := Option.some.inj (found.symm.trans found')
  exact Flavor.array.inj (array.symm.trans array')

theorem unique (h : Twin n r s i i') (h' : Twin n r s i j') : i' = j' := by
  induction h generalizing j' with
  | old before =>
    cases h' with
    | old _ => rfl
    | array _ _ _ new _ => exact absurd before (Nat.not_lt.mpr new)
  | array _ left right new _ ih =>
    cases h' with
    | old before => exact absurd before (Nat.not_lt.mpr new)
    | array components left' right' _ _ =>
      obtain rfl := component_unique left left'
      obtain rfl := ih components
      exact Option.some.inj (right.symm.trans right')

theorem biUnique : Relator.BiUnique (Twin n r s) :=
  ⟨fun _ _ _ h h' => h.symm.unique h'.symm, fun _ _ _ h h' => h.unique h'⟩

theorem eq_iff (h : Twin n r s i i') (h' : Twin n r s j j') : i = j ↔ i' = j' :=
  Relator.rel_eq biUnique h h'

end Twin

/-- Kinds of twins: arrays of twins, or one and the same type that is no array. -/
inductive FlavorTwin (n : Nat) (r s : Registry) (id id' : TypeId) : Flavor → Flavor → Prop
  | array {component component' : TypeId} (components : Twin n r s component component') :
      FlavorTwin n r s id id' (.array component) (.array component')
  | plain {flavor : Flavor} (nominal : ∀ component, flavor ≠ .array component) (same : id = id')
      (old : id.index < n) : FlavorTwin n r s id id' flavor flavor

/-- Twins are both undeclared, and then equal, or are declared under one name and of one kind. -/
theorem Forks.declared (h : Forks b r s) (twin : Twin b.size r s i i') :
    (r.find? i = none ∧ s.find? i' = none ∧ i = i') ∨ ∃ d d', r.find? i = some d ∧
      s.find? i' = some d' ∧ d.fullName = d'.fullName ∧
      FlavorTwin b.size r s i i' d.flavor d'.flavor := by
  induction twin with
  | @old id before =>
    have same := h.find?_old before
    cases found : r.find? id with
    | none => exact .inl ⟨rfl, same.symm.trans found, rfl⟩
    | some d =>
      refine .inr ⟨d, d, rfl, same.symm.trans found, rfl, ?_⟩
      by_cases array : ∃ component, d.flavor = .array component
      · obtain ⟨component, array⟩ := array
        rw [array]
        exact .array (.old (Nat.lt_trans (component_lt_of_find? found array) before))
      · exact .plain (fun component kind => array ⟨component, kind⟩) rfl before
  | array components left right new new' ih =>
    obtain ⟨d, found, array⟩ := findArray?_eq_some left
    obtain ⟨d', found', array'⟩ := findArray?_eq_some right
    obtain ⟨_, e, kind, element, named⟩ := h.left.new_array new found
    obtain ⟨_, e', kind', element', named'⟩ := h.right.new_array new' found'
    obtain rfl := Flavor.array.inj (array.symm.trans kind)
    obtain rfl := Flavor.array.inj (array'.symm.trans kind')
    refine .inr ⟨d, d', found, found', ?_, array ▸ array' ▸ .array components⟩
    rcases ih with ⟨missing, -⟩ | ⟨_, _, here, there, same, -⟩
    · rw [element] at missing
      cases missing
    · obtain rfl := Option.some.inj (element.symm.trans here)
      obtain rfl := Option.some.inj (element'.symm.trans there)
      rw [named, named', same]

/-- A declared type stands for itself. -/
theorem Interns.twin_self (interned : b.Interns r) (coherent : r.Coherent) {id : TypeId}
    (declared : r.Published id) : Twin b.size r r id id := by
  by_cases old : id.index < b.size
  · exact .old old
  have new := Nat.not_lt.mp old
  obtain ⟨d, found⟩ := published_iff.mp declared
  obtain ⟨component, element, array, here, -⟩ := interned.new_array new found
  have smaller : component.index < id.index := component_lt_of_find? found array
  have known : r.findArray? component = some id := by
    cases known : r.findArray? component with
    | none => exact absurd array (findArray?_eq_none known found)
    | some j =>
      obtain ⟨e, there, array'⟩ := findArray?_eq_some known
      exact congrArg some (coherent.array_unique j id e d component there found array' array)
  exact .array (interned.twin_self coherent (.of_find? here)) known known new new
termination_by id.index

namespace Forks

theorem fullName (h : Forks b r s) (twin : Twin b.size r s i i') :
    r.fullName i = s.fullName i' := by
  rw [Registry.fullName, Registry.fullName]
  rcases h.declared twin with ⟨missing, missing', rfl⟩ | ⟨d, d', found, found', same, -⟩
  · rw [find_eq_error missing, find_eq_error missing']
  · rw [find_eq_ok.mpr found, find_eq_ok.mpr found']
    exact congrArg Except.ok same

/-! ## Subtyping -/

theorem reaches_old (h : Forks b r s) (old : j.index < b.size) :
    r.reaches i j = s.reaches i j := by
  rw [h.left.reaches_old h.grounded old, h.right.reaches_old h.grounded old]

theorem isAssignable (h : Forks b r s) {target target' source source' : TypeId}
    (above : Twin b.size r s target target') (below : Twin b.size r s source source') :
    r.isAssignable target source = s.isAssignable target' source' := by
  by_cases same : target = source
  · have same' := (above.eq_iff below).mp same
    rw [Registry.isAssignable, Registry.isAssignable, if_pos same, if_pos same']
  rw [isAssignable_of_ne _ same, isAssignable_of_ne _ (mt (above.eq_iff below).mpr same)]
  rcases h.declared above with ⟨missing, missing', rfl⟩ | ⟨t, t', found, found', -, kinds⟩
  · rw [find_eq_error missing, find_eq_error missing']
    rfl
  rw [find_eq_ok.mpr found, find_eq_ok.mpr found']
  rcases h.declared below with ⟨missing, missing', rfl⟩ | ⟨u, u', there, there', -, kinds'⟩
  · rw [find_eq_error missing, find_eq_error missing']
    rfl
  rw [find_eq_ok.mpr there, find_eq_ok.mpr there']
  have top : target = .object ↔ target' = .object := above.eq_iff (.old h.object)
  have smaller (component : TypeId) (array : t.flavor = .array component) :
      component.index < target.index := component_lt_of_find? found array
  show (if _ then _ else _) = if _ then _ else _
  revert smaller
  generalize t.flavor = kind at kinds
  generalize t'.flavor = kind' at kinds
  generalize u.flavor = lower at kinds'
  generalize u'.flavor = lower' at kinds'
  intro smaller
  refine if_congr ?_ rfl (if_congr top rfl ?_)
  · cases kinds <;> cases kinds' <;> rfl
  cases kinds with
  | array components =>
    cases kinds' with
    | array elements =>
      have := smaller _ rfl
      exact isAssignable h components elements
    | plain nominal same old =>
      cases lower with
      | array c => exact absurd rfl (nominal c)
      | _ => rfl
  | plain nominal same old =>
    obtain rfl := same
    cases kinds' with
    | array elements =>
      cases kind with
      | array c => exact absurd rfl (nominal c)
      | _ => rfl
    | plain nominal' same' old' =>
      obtain rfl := same'
      have walked := h.reaches_old (i := target) old'
      cases kind with
      | array c => exact absurd rfl (nominal c)
      | _ =>
        cases lower with
        | array c => exact absurd rfl (nominal' c)
        | _ => exact walked
termination_by target.index

end Forks

end Registry

/-! ## Answers -/

/-- The same fault, or related results. -/
inductive Answers {α β : Type} (R : α → β → Prop) : Except Fault α → Except Fault β → Prop
  | fault (fault : Fault) : Answers R (.error fault) (.error fault)
  | value {a : α} {c : β} (related : R a c) : Answers R (.ok a) (.ok c)

namespace Answers
variable {α β γ δ : Type} {R : α → β → Prop} {S : γ → δ → Prop}

theorem of_eq {R : α → α → Prop} {x y : Except Fault α} (same : x = y)
    (related : ∀ a, x = .ok a → R a a) : Answers R x y := by
  subst same
  cases x with
  | error fault => exact .fault fault
  | ok a => exact .value (related a rfl)

theorem of_map {f : γ → α} {g : δ → β} {x : Except Fault γ} {y : Except Fault δ}
    (h : Answers R (x.map f) (y.map g)) : Answers (fun a c => R (f a) (g c)) x y := by
  rcases x with fault | a <;> rcases y with fault' | c <;> cases h
  · exact .fault fault
  · exact .value ‹_›

theorem bind {x : Except Fault α} {y : Except Fault β} {f : α → Except Fault γ}
    {g : β → Except Fault δ} (first : Answers R x y) (next : ∀ a c, R a c → Answers S (f a) (g c)) :
    Answers S (x >>= f) (y >>= g) := by
  cases first with
  | fault fault => exact .fault fault
  | value related => exact next _ _ related

end Answers

/-! ## Computations in step -/

namespace Growing
variable {α β γ δ : Type} {r s : Registry}

/-- Computations in two registries with the same fault or with related results. Both do nothing to
their registries but intern array types. -/
inductive InStep (r s : Registry) (R : Registry → Registry → α → β → Prop) (x : Growing α)
    (y : Growing β) : Prop
  | fault (fault : Fault) (r' s' : Registry) (left : x.eval r = (.error fault, r'))
      (right : y.eval s = (.error fault, s'))
  | value (a : α) (c : β) (r' s' : Registry) (left : x.eval r = (.ok a, r'))
      (right : y.eval s = (.ok c, s')) (grows : r.Interns r') (grows' : s.Interns s')
      (related : R r' s' a c)

/-- Whether a relation lasts while the registries grow. -/
def Remains (R : Registry → Registry → α → β → Prop) : Prop :=
  ∀ r s r' s' a c, R r s a c → r.Interns r' → s.Interns s' → R r' s' a c

namespace InStep
variable {R : Registry → Registry → α → β → Prop} {S : Registry → Registry → γ → δ → Prop}

theorem pure {a : α} {c : β} (related : R r s a c) :
    InStep r s R (Pure.pure a) (Pure.pure c) :=
  .value a c r s rfl rfl (.refl r) (.refl s) related

theorem throw (fault : Fault) :
    InStep r s R (MonadExcept.throw fault) (MonadExcept.throw fault) :=
  .fault fault r s rfl rfl

theorem read {query : Registry → Except Fault α} {query' : Registry → Except Fault β}
    (answers : Answers (R r s) (query r) (query' s)) :
    InStep r s R (Growing.read query) (Growing.read query') := by
  have left := eval_read query r
  have right := eval_read query' s
  revert left right answers
  generalize query r = answer
  generalize query' s = answer'
  intro answers left right
  cases answers with
  | fault fault => exact .fault fault r s left right
  | value related => exact .value _ _ r s left right (.refl r) (.refl s) related

theorem congr {x x' : Growing α} {y y' : Growing β} (h : InStep r s R x y)
    (left : x'.eval r = x.eval r) (right : y'.eval s = y.eval s) : InStep r s R x' y' := by
  cases h with
  | fault fault r' s' done done' => exact .fault fault r' s' (left.trans done) (right.trans done')
  | value a c r' s' done done' grows grows' related =>
    exact .value a c r' s' (left.trans done) (right.trans done') grows grows' related

theorem imp {S : Registry → Registry → α → β → Prop} {x : Growing α} {y : Growing β}
    (h : InStep r s R x y) (weaker : ∀ r' s' a c, R r' s' a c → S r' s' a c) :
    InStep r s S x y := by
  cases h with
  | fault fault r' s' left right => exact .fault fault r' s' left right
  | value a c r' s' left right grows grows' related =>
    exact .value a c r' s' left right grows grows' (weaker r' s' a c related)

theorem answers {x : Growing α} {y : Growing β} (h : InStep r s R x y) :
    Answers (R (x.eval r).2 (y.eval s).2) (x.eval r).1 (y.eval s).1 := by
  cases h with
  | fault fault r' s' left right =>
    rw [left, right]
    exact .fault fault
  | value a c r' s' left right _ _ related =>
    rw [left, right]
    exact .value related

theorem follows {x : Growing α} {y : Growing β} (h : InStep r s R x y) {a : α} {r' : Registry}
    (done : x.eval r = (.ok a, r')) : ∃ c s', y.eval s = (.ok c, s') ∧ R r' s' a c := by
  cases h with
  | fault _ _ _ left _ => cases done.symm.trans left
  | value b c r'' s' left right _ _ related =>
    cases done.symm.trans left
    exact ⟨c, s', right, related⟩

theorem leads {x : Growing α} {y : Growing β} (h : InStep r s R x y) {c : β} {s' : Registry}
    (done : y.eval s = (.ok c, s')) : ∃ a r', x.eval r = (.ok a, r') ∧ R r' s' a c := by
  cases h with
  | fault _ _ _ _ right => cases done.symm.trans right
  | value a b r' s'' left right _ _ related =>
    cases done.symm.trans right
    exact ⟨a, r', left, related⟩

theorem bind {x : Growing α} {y : Growing β} {f : α → Growing γ} {g : β → Growing δ}
    (first : InStep r s R x y)
    (next : ∀ r' s' a c, r.Interns r' → s.Interns s' → R r' s' a c → InStep r' s' S (f a) (g c)) :
    InStep r s S (x >>= f) (y >>= g) := by
  cases first with
  | fault fault r' s' left right =>
    exact .fault fault r' s' (by rw [eval_bind, left]) (by rw [eval_bind, right])
  | value a c r' s' left right grows grows' related =>
    have after : (x >>= f).eval r = (f a).eval r' := by rw [eval_bind, left]
    have after' : (y >>= g).eval s = (g c).eval s' := by rw [eval_bind, right]
    cases next r' s' a c grows grows' related with
    | fault fault r'' s'' left right =>
      exact .fault fault r'' s'' (after.trans left) (after'.trans right)
    | value d e r'' s'' left right more more' related =>
      exact .value d e r'' s'' (after.trans left) (after'.trans right) (grows.trans more)
        (grows'.trans more') related

theorem map {x : Growing α} {y : Growing β} {f : α → γ} {g : β → δ} (h : InStep r s R x y)
    (related : ∀ r' s' a c, r.Interns r' → s.Interns s' → R r' s' a c → S r' s' (f a) (g c)) :
    InStep r s S (x >>= fun a => Pure.pure (f a)) (y >>= fun c => Pure.pure (g c)) :=
  h.bind fun r' s' a c grows grows' here => .pure (related r' s' a c grows grows' here)

/-- A loop over one list with a body that is in step with itself, whatever was interned before. -/
theorem mapM {R : Registry → Registry → β → γ → Prop} {f : α → Growing β} {g : α → Growing γ}
    (remains : Remains R) {l : List α}
    (step : ∀ a ∈ l, ∀ r' s', r.Interns r' → s.Interns s' → InStep r' s' R (f a) (g a)) :
    InStep r s (fun r s => List.Forall₂ (R r s)) (l.mapM f) (l.mapM g) := by
  induction l generalizing r s with
  | nil =>
    rw [List.mapM_nil, List.mapM_nil]
    exact .pure .nil
  | cons a rest ih =>
    obtain ⟨here, later⟩ := List.forall_mem_cons.mp step
    rw [List.mapM_cons, List.mapM_cons]
    refine (here r s (.refl r) (.refl s)).bind fun r' s' b c grows grows' first => ?_
    refine (ih fun a member r'' s'' more more' =>
      later a member r'' s'' (grows.trans more) (grows'.trans more')).map ?_
    intro r'' s'' bs cs more more' others
    exact .cons (remains r' s' r'' s'' b c first more more') others

theorem foldlM {R : Registry → Registry → β → γ → Prop} {f : β → α → Growing β}
    {g : γ → α → Growing γ} {l : List α} {b : β} {c : γ} (start : R r s b c)
    (step : ∀ a ∈ l, ∀ r' s' b c, r.Interns r' → s.Interns s' → R r' s' b c →
      InStep r' s' R (f b a) (g c a)) :
    InStep r s R (l.foldlM f b) (l.foldlM g c) := by
  induction l generalizing r s b c with
  | nil => exact .pure start
  | cons a rest ih =>
    obtain ⟨here, later⟩ := List.forall_mem_cons.mp step
    rw [List.foldlM_cons, List.foldlM_cons]
    refine (here r s b c (.refl r) (.refl s) start).bind fun r' s' b' c' grows grows' next => ?_
    exact ih next fun a member r'' s'' b'' c'' more more' =>
      later a member r'' s'' b'' c'' (grows.trans more) (grows'.trans more')

end InStep

end Growing

/-! ## Array types of twins -/

namespace Growing
variable {r : Registry} {component : TypeId}

theorem arrayOf_published (declared : r.Published component) : ∃ id grown,
    (arrayOf component).eval r = (.ok id, grown) ∧ r.Interns grown ∧
      grown.findArray? component = some id := by
  obtain ⟨id, grown, interned⟩ := Registry.internArray_succeeds declared
  refine ⟨id, grown, ?_, .single ⟨component, id, interned⟩, Registry.findArray?_internArray interned⟩
  rw [eval_arrayOf, interned]

theorem arrayOf_undeclared (coherent : r.Coherent) (undeclared : r.find? component = none) :
    (arrayOf component).eval r = (.error (.typeNotFound component), r) := by
  cases known : r.findArray? component with
  | none => rw [eval_arrayOf, Registry.internArray_undeclared known undeclared]
  | some id =>
    obtain ⟨d, found, array⟩ := Registry.findArray?_eq_some known
    obtain ⟨element, declared⟩ :=
      Registry.published_iff.mp (coherent.component_published id d component found array)
    rw [undeclared] at declared
    cases declared

end Growing

open Growing (InStep Remains)

theorem Registry.Twin.remains (n : Nat) : Remains (Registry.Twin n) :=
  fun _ _ _ _ _ _ twin grows grows' => twin.grow grows.growsTo grows'.growsTo

namespace Registry.Forks
variable {b r s : Registry}

/-- An array type that was there before has an older component. -/
theorem findArray?_old (h : Forks b r s) {component id : TypeId}
    (known : r.findArray? component = some id) (old : id.index < b.size) :
    component.index < b.size ∧ s.findArray? component = some id := by
  obtain ⟨d, found, array⟩ := findArray?_eq_some known
  have before := found
  rw [h.left.find?_old old] at before
  have component_old := Nat.lt_trans (component_lt_of_find? before array) old
  cases interned : b.findArray? component with
  | none => exact absurd array (findArray?_eq_none interned before)
  | some id' =>
    obtain rfl := Option.some.inj ((h.left.growsTo.arrays _ _ interned).symm.trans known)
    exact ⟨component_old, h.right.growsTo.arrays _ _ interned⟩

/-- The array types of twins are twins. -/
theorem twin_array (h : Forks b r s) {component component' id id' : TypeId}
    (twin : Twin b.size r s component component') (left : r.findArray? component = some id)
    (right : s.findArray? component' = some id') : Twin b.size r s id id' := by
  by_cases old : id.index < b.size
  · obtain ⟨before, there⟩ := h.findArray?_old left old
    obtain rfl := twin.unique (.old before)
    obtain rfl := Option.some.inj (right.symm.trans there)
    exact .old old
  · refine .array twin left right (Nat.not_lt.mp old) (Nat.not_lt.mp fun old' => ?_)
    obtain ⟨before, there⟩ := h.symm.findArray?_old right old'
    obtain rfl := twin.symm.unique (.old before)
    obtain rfl := Option.some.inj (left.symm.trans there)
    exact old old'

theorem arrayOf_inStep (h : Forks b r s) {component component' : TypeId}
    (twin : Twin b.size r s component component') :
    InStep r s (Twin b.size) (Growing.arrayOf component) (Growing.arrayOf component') := by
  rcases h.declared twin with ⟨missing, missing', rfl⟩ | ⟨d, d', found, found', -⟩
  · exact .fault _ r s (Growing.arrayOf_undeclared (h.left.coherent h.coherent) missing)
      (Growing.arrayOf_undeclared (h.right.coherent h.coherent) missing')
  · obtain ⟨id, r', done, grows, known⟩ := Growing.arrayOf_published (.of_find? found)
    obtain ⟨id', s', done', grows', known'⟩ := Growing.arrayOf_published (.of_find? found')
    exact .value id id' r' s' done done' grows grows'
      ((h.grow grows grows').twin_array (twin.grow grows.growsTo grows'.growsTo) known known')

end Registry.Forks

/-- Erasing a type that mentions nothing new is in step with itself. -/
theorem GenericType.erase_inStep {b r s : Registry} (h : Registry.Forks b r s) {t : GenericType}
    (old : b.HandedOut t.ids) : InStep r s (Registry.Twin b.size) t.erase t.erase := by
  induction t using GenericType.induction_on_parts with
  | named id => exact .pure (.old (old id List.mem_cons_self))
  | applied raw args _ => exact .pure (.old (old raw List.mem_cons_self))
  | array component ih =>
    exact (ih old).bind fun r' s' _ _ grows grows' twin => (h.grow grows grows').arrayOf_inStep twin
  | typeVar name => exact .pure (.old h.object)
  | wildcard upper lower _ _ => exact .pure (.old h.object)

end PropertyTables
