import PropertyTables.Proofs.Registry.Twins
import PropertyTables.Proofs.Table.Collected
import PropertyTables.Proofs.Table.Members

/-! # Tables and the order of interning

A table does not depend on which array types were interned before it is built, but for the
identities of array types that were interned since.

* `Method.signature_inStep`, `collectMethods_inStep`: signatures of twins are twins, and the methods
  that discovery keeps are the same.
* `Forks.chooseGetter`, `Forks.chooseSetter`: so are the methods that count.
* `Index.Related`: indexes with related entries under the same names.
* `EntryTwin`, `TableTwin`: the same accessors and generic types, and types that are twins.
* `build_inStep`: building a table in either of two forks gives the same fault, or twins.
-/

namespace PropertyTables
set_option autoImplicit false

open Growing (InStep Remains)
open Registry (Forks Twin)

variable {b r s : Registry} {m : Method} {owner : TypeId}

/-! ## Signatures -/

theorem Registry.HandedOut.declaring (old : b.HandedOut m.ids) : m.declaring.index < b.size :=
  old _ List.mem_cons_self

theorem Registry.HandedOut.returns (old : b.HandedOut m.ids) : b.HandedOut m.returns.ids := by
  simp only [Method.ids, Registry.handedOut_cons, Registry.handedOut_append] at old
  exact old.2.1.1

theorem Registry.HandedOut.params (old : b.HandedOut m.ids) :
    ∀ t ∈ m.params, b.HandedOut t.ids := by
  simp only [Method.ids, Registry.handedOut_cons, Registry.handedOut_append,
    Registry.handedOut_flatMap] at old
  exact old.2.1.2

theorem Registry.HandedOut.bounds (old : b.HandedOut m.ids) :
    ∀ p ∈ m.typeParams, ∀ bound ∈ p.bounds, b.HandedOut bound.ids := by
  simp only [Method.ids, Registry.handedOut_cons, Registry.handedOut_append,
    Registry.handedOut_flatMap] at old
  exact fun p hp => Registry.handedOut_flatMap.mp (old.2.2 p hp)

theorem Method.eraseDeclared_inStep (h : Forks b r s) (old : b.HandedOut m.ids) {t : GenericType}
    (type : b.HandedOut t.ids) :
    InStep r s (Twin b.size) (m.eraseDeclared t) (m.eraseDeclared t) := by
  have same : m.ownBindings r = m.ownBindings s := by
    rw [ownBindings, ownBindings, h.find_old old.declaring]
  have before : m.ownBindings r = m.ownBindings b := by
    rw [ownBindings, ownBindings, h.left.find_old old.declaring]
  have bound (env : Bindings) (done : m.ownBindings r = .ok env) :
      b.HandedOut (t.instantiate env).ids := by
    rw [GenericType.instantiate_eq_subst]
    exact h.coherent.resolves.subst _ t
      (h.coherent.resolves.ownBindings h.grounded.declaresOnly old.bounds (before.symm.trans done))
      type
  have reading : InStep r s (fun _ _ env env' => env = env' ∧ b.HandedOut (t.instantiate env).ids)
      (Growing.read m.ownBindings) (Growing.read m.ownBindings) :=
    .read (.of_eq same fun env done => ⟨rfl, bound env done⟩)
  refine reading.bind fun r' s' env _ grows grows' known => ?_
  obtain ⟨rfl, old⟩ := known
  exact GenericType.erase_inStep (h.grow grows grows') old

/-- Signatures of one name with types that are twins. -/
structure SignatureTwin (n : Nat) (r s : Registry) (a a' : Signature) : Prop where
  name : a.name = a'.name
  params : List.Forall₂ (Twin n r s) a.params a'.params
  returns : Twin n r s a.returns a'.returns

theorem SignatureTwin.eq_iff {n : Nat} {a a' c c' : Signature} (ha : SignatureTwin n r s a a')
    (hc : SignatureTwin n r s c c') : a = c ↔ a' = c' := by
  obtain ⟨name, params, returns⟩ := ha
  obtain ⟨name', params', returns'⟩ := hc
  have lists : a.params = c.params ↔ a'.params = c'.params :=
    Relator.rel_eq Twin.biUnique.forall₂ params params'
  have parts (x y : Signature) :
      x = y ↔ x.name = y.name ∧ x.params = y.params ∧ x.returns = y.returns := by
    cases x
    cases y
    rw [Signature.mk.injEq]
  rw [parts a, parts a', name, name', lists, returns.eq_iff returns']

theorem Method.signature_inStep (h : Forks b r s) (old : b.HandedOut m.ids) :
    InStep r s (SignatureTwin b.size) m.signature m.signature := by
  have params : InStep r s (fun r s => List.Forall₂ (Twin b.size r s))
      (m.params.mapM m.eraseDeclared) (m.params.mapM m.eraseDeclared) :=
    .mapM (Twin.remains b.size) fun t ht r' s' grows grows' =>
      eraseDeclared_inStep (h.grow grows grows') old (old.params t ht)
  refine params.bind fun r' s' ids ids' grows grows' params => ?_
  refine (eraseDeclared_inStep (h.grow grows grows') old old.returns).map ?_
  intro r'' s'' id id' more more' returns
  exact ⟨rfl, params.imp fun _ _ twin => twin.grow more.growsTo more'.growsTo, returns⟩

/-! ## Discovery -/

/-- The same method, which mentions nothing new, with signatures that are twins. -/
structure KeptTwin (b r s : Registry) (p q : Signature × Method) : Prop where
  method : p.2 = q.2
  old : b.HandedOut p.2.ids
  signature : SignatureTwin b.size r s p.1 q.1

theorem KeptTwin.remains (b : Registry) : Remains (KeptTwin b) := by
  intro r s r' s' p q twin grows grows'
  have later (i j : TypeId) (known : Twin b.size r s i j) : Twin b.size r' s' i j :=
    known.grow grows.growsTo grows'.growsTo
  exact ⟨twin.method, twin.old, twin.signature.name, twin.signature.params.imp later,
    later _ _ twin.signature.returns⟩

theorem any_of_forall₂ {α β : Type} {R : α → β → Prop} {p : α → Bool} {q : β → Bool}
    (same : ∀ a c, R a c → p a = q c) {as : List α} {cs : List β} (h : List.Forall₂ R as cs) :
    as.any p = cs.any q := by
  induction h with
  | nil => rfl
  | cons head _ ih => rw [List.any_cons, List.any_cons, same _ _ head, ih]

theorem find?_of_forall₂ {α β : Type} {R : α → β → Prop} {p : α → Bool} {q : β → Bool}
    (same : ∀ a c, R a c → p a = q c) {as : List α} {cs : List β} (h : List.Forall₂ R as cs) :
    Option.Rel R (as.find? p) (cs.find? q) := by
  induction h with
  | nil => exact .none
  | cons head _ ih =>
    rw [List.find?_cons, List.find?_cons, same _ _ head]
    split
    · exact .some head
    · exact ih

theorem addUnique_inStep (h : Forks b r s) {kept kept' : List (Signature × Method)}
    (twins : List.Forall₂ (KeptTwin b r s) kept kept') {methods : List Method}
    (old : ∀ m ∈ methods, b.HandedOut m.ids) :
    InStep r s (fun r s => List.Forall₂ (KeptTwin b r s)) (addUnique kept methods)
      (addUnique kept' methods) := by
  induction methods generalizing r s kept kept' with
  | nil => exact .pure twins
  | cons m rest ih =>
    obtain ⟨here, later⟩ := List.forall_mem_cons.mp old
    rw [addUnique, addUnique]
    by_cases bridge : m.modifiers.isBridge = true
    · rw [if_pos bridge, if_pos bridge]
      exact ih h twins later
    · rw [if_neg bridge, if_neg bridge]
      refine (Method.signature_inStep h here).bind fun r' s' a a' grows grows' signature => ?_
      have still := twins.imp fun p q twin => KeptTwin.remains b r s r' s' p q twin grows grows'
      have same : kept.any (·.1 = a) = kept'.any (·.1 = a') :=
        any_of_forall₂ (fun p q twin => decide_eq_decide.mpr (twin.signature.eq_iff signature)) still
      rw [same]
      split
      · exact ih (h.grow grows grows') still later
      · have added : List.Forall₂ (KeptTwin b r' s') [(a, m)] [(a', m)] :=
          .cons ⟨rfl, here, signature⟩ .nil
        exact ih (h.grow grows grows') (List.rel_append still added) later

theorem collectFrom_inStep (h : Forks b r s) {kept kept' : List (Signature × Method)}
    (twins : List.Forall₂ (KeptTwin b r s) kept kept') {ids : List TypeId}
    (old : ∀ id ∈ ids, id.index < b.size) :
    InStep r s (fun r s => List.Forall₂ (KeptTwin b r s)) (collectFrom kept ids)
      (collectFrom kept' ids) := by
  induction ids generalizing r s kept kept' with
  | nil => exact .pure twins
  | cons id rest ih =>
    obtain ⟨here, later⟩ := List.forall_mem_cons.mp old
    have reading : InStep r s (fun _ _ d d' => d = d' ∧ ∀ m ∈ d.methods, b.HandedOut m.ids)
        (Growing.read (·.find id)) (Growing.read (·.find id)) := by
      refine .read (.of_eq (h.find_old here) fun d found => ⟨rfl, ?_⟩)
      rw [h.left.find_old here] at found
      exact h.grounded.methods (Registry.find_eq_ok.mp found)
    rw [collectFrom, collectFrom]
    refine reading.bind fun r' s' d _ grows grows' known => ?_
    obtain ⟨rfl, methods⟩ := known
    have still := twins.imp fun p q twin => KeptTwin.remains b r s r' s' p q twin grows grows'
    refine (addUnique_inStep (h.grow grows grows') still methods).bind ?_
    intro r'' s'' made made' more more' added
    exact ih ((h.grow grows grows').grow more more') added later

/-- Discovery keeps the same methods, and they mention nothing new. -/
theorem collectMethods_inStep (h : Forks b r s) (old : owner.index < b.size) (limit : Nat) :
    InStep r s (fun _ _ methods methods' => methods = methods' ∧ ∀ m ∈ methods, b.HandedOut m.ids)
      (collectMethods owner limit) (collectMethods owner limit) := by
  have start : ∀ id ∈ some owner, id.index < b.size := fun id same => Option.some.inj same ▸ old
  have left := h.left.classChain_old h.grounded limit limit start
  have right := h.right.classChain_old h.grounded limit limit start
  have reading : InStep r s
      (fun _ _ chain chain' => chain = chain' ∧ b.classChain limit limit (some owner) = .ok chain)
      (Growing.read (·.classChain limit limit (some owner)))
      (Growing.read (·.classChain limit limit (some owner))) :=
    .read (.of_eq (left.trans right.symm) fun chain done => ⟨rfl, left.symm.trans done⟩)
  rw [collectMethods_eq]
  refine reading.bind fun r' s' chain _ grows grows' known => ?_
  obtain ⟨rfl, walked⟩ := known
  have h' := h.grow grows grows'
  have within : ∀ id ∈ b.discoveryOrder [] chain, id.index < b.size := by
    intro id listed
    induction Registry.discoveryOrder_above walked id listed with
    | refl => exact old
    | tail _ edge => exact h.grounded.declaredSupertype edge
  have along : InStep r' s' (fun r s => List.Forall₂ (KeptTwin b r s)) (collectAlong chain)
      (collectAlong chain) := by
    refine (collectFrom_inStep h' .nil within).congr ?_ ?_
    · rw [collectAlong_eval, Registry.discoveryOrder_interned h'.left]
    · rw [collectAlong_eval, Registry.discoveryOrder_interned h'.right]
  refine along.map fun r'' s'' kept kept' _ _ twins => ⟨?_, ?_⟩
  · induction twins with
    | nil => rfl
    | cons head _ ih => rw [List.map_cons, List.map_cons, head.method, ih]
  · intro m listed
    obtain ⟨p, kept, rfl⟩ := List.mem_map.mp listed
    clear listed within along
    induction twins with
    | nil => cases kept
    | cons head _ ih =>
      rcases List.mem_cons.mp kept with rfl | kept
      · exact head.old
      · exact ih kept

/-! ## The choice among overloads -/

/-- The same method, which mentions nothing new. -/
structure SharedMethod (b : Registry) (m m' : Method) : Prop where
  same : m = m'
  old : b.HandedOut m.ids

/-- The same method, which mentions nothing new, with types that are twins. -/
structure OverloadTwin (b r s : Registry) (a a' : Overload) : Prop where
  method : a.method = a'.method
  old : b.HandedOut a.method.ids
  type : Twin b.size r s a.type a'.type

theorem OverloadTwin.remains (b : Registry) : Remains (OverloadTwin b) :=
  fun _ _ _ _ _ _ twin grows grows' =>
    ⟨twin.method, twin.old, twin.type.grow grows.growsTo grows'.growsTo⟩

theorem OverloadTwin.startsWithIs {a a' : Overload} (h : OverloadTwin b r s a a') :
    a.startsWithIs = a'.startsWithIs := by
  rw [Overload.startsWithIs, Overload.startsWithIs, h.method]

theorem Overload.inStep (old : b.HandedOut m.ids) {x : Growing TypeId}
    (erases : InStep r s (Twin b.size) x x) :
    InStep r s (OverloadTwin b) (do return ⟨m, ← x⟩) (do return ⟨m, ← x⟩) :=
  erases.map fun _ _ _ _ _ _ type => ⟨rfl, old, type⟩

namespace Registry.Forks
variable {first first' : Overload} {others others' : List Overload}

theorem clashes (h : Forks b r s) {a a' c c' : Overload} (ha : OverloadTwin b r s a a')
    (hc : OverloadTwin b r s c c') : a.clashes c = a'.clashes c' := by
  have same : (a.type == c.type) = (a'.type == c'.type) :=
    decide_eq_decide.mpr (ha.type.eq_iff hc.type)
  have boolean : (a.type == Primitive.boolean.typeId) = (a'.type == Primitive.boolean.typeId) :=
    decide_eq_decide.mpr (ha.type.eq_iff (.old h.boolean))
  rw [Overload.clashes, Overload.clashes, same, bne, bne, boolean, ha.startsWithIs, hc.startsWithIs]

theorem anyClash (h : Forks b r s) (twins : List.Forall₂ (OverloadTwin b r s) others others') :
    Overload.anyClash others = Overload.anyClash others' := by
  induction twins with
  | nil => rfl
  | cons head rest ih =>
    rw [Overload.anyClash, Overload.anyClash, ih]
    rw [any_of_forall₂ (fun _ _ next => h.clashes head next) rest]

theorem prefersGetter (h : Forks b r s) {a a' c c' : Overload} (ha : OverloadTwin b r s a a')
    (hc : OverloadTwin b r s c c') : r.prefersGetter a c = s.prefersGetter a' c' := by
  rw [Registry.prefersGetter, Registry.prefersGetter, ha.startsWithIs, hc.startsWithIs,
    h.isAssignable hc.type ha.type]
  exact if_congr (ha.type.eq_iff hc.type) rfl rfl

theorem prefersToAll (h : Forks b r s) (head : OverloadTwin b r s first first')
    (twins : List.Forall₂ (OverloadTwin b r s) others others') :
    r.prefersToAll first others = s.prefersToAll first' others' := by
  induction twins with
  | nil => rfl
  | cons next _ ih =>
    rw [Registry.prefersToAll, Registry.prefersToAll, h.prefersGetter head next, ih]

theorem preferredGetter? (h : Forks b r s) {before before' after after' : List Overload}
    (past : List.Forall₂ (OverloadTwin b r s) before before')
    (twins : List.Forall₂ (OverloadTwin b r s) after after') :
    Answers (Option.Rel (OverloadTwin b r s)) (r.preferredGetter? before after)
      (s.preferredGetter? before' after') := by
  induction twins generalizing before before' with
  | nil => exact .value .none
  | cons head rest ih =>
    rw [Registry.preferredGetter?, Registry.preferredGetter?]
    have same := h.prefersToAll head (List.rel_append past rest)
    refine (Answers.of_eq (R := Eq) same fun _ _ => rfl).bind fun preferred _ known => ?_
    subst known
    cases preferred with
    | true => exact .value (.some head)
    | false => exact ih (List.rel_append past (.cons head .nil))

theorem chooseGetter (h : Forks b r s) (property : String)
    (head : OverloadTwin b r s first first')
    (twins : List.Forall₂ (OverloadTwin b r s) others others') :
    Answers (SharedMethod b) (r.chooseGetter property first others)
      (s.chooseGetter property first' others') := by
  have all : List.Forall₂ (OverloadTwin b r s) (first :: others) (first' :: others') :=
    .cons head twins
  have owner : r.fullName first.method.declaring = s.fullName first'.method.declaring := by
    rw [← head.method]
    exact h.fullName (.old head.old.declaring)
  have ambiguous : Answers (SharedMethod b)
      (do throw (.ambiguousGetter property (← r.fullName first.method.declaring)))
      (do throw (.ambiguousGetter property (← s.fullName first'.method.declaring))) := by
    refine (Answers.of_eq (R := Eq) owner fun _ _ => rfl).bind fun name _ known => ?_
    subst known
    exact .fault _
  rw [Registry.chooseGetter, Registry.chooseGetter, h.anyClash all]
  split
  · exact ambiguous
  · refine (h.preferredGetter? .nil all).bind fun winner winner' chosen => ?_
    cases chosen with
    | none => exact ambiguous
    | some twin => exact .value ⟨twin.method, twin.old⟩

theorem assignableToAll (h : Forks b r s) {type type' : TypeId}
    (twin : Twin b.size r s type type')
    (twins : List.Forall₂ (OverloadTwin b r s) others others') :
    r.assignableToAll type others = s.assignableToAll type' others' := by
  induction twins with
  | nil => rfl
  | cons next _ ih =>
    rw [Registry.assignableToAll, Registry.assignableToAll, h.isAssignable next.type twin, ih]

theorem narrowestSetter? (h : Forks b r s) {all all' : List Overload}
    (every : List.Forall₂ (OverloadTwin b r s) all all')
    (twins : List.Forall₂ (OverloadTwin b r s) others others') :
    Answers (Option.Rel (OverloadTwin b r s)) (r.narrowestSetter? all others)
      (s.narrowestSetter? all' others') := by
  induction twins with
  | nil => exact .value .none
  | cons head rest ih =>
    rw [Registry.narrowestSetter?, Registry.narrowestSetter?]
    have same := h.assignableToAll head.type every
    refine (Answers.of_eq (R := Eq) same fun _ _ => rfl).bind fun narrowest _ known => ?_
    subst known
    cases narrowest with
    | true => exact .value (.some head)
    | false => exact ih

theorem incomparableWith? (h : Forks b r s) (head : OverloadTwin b r s first first')
    (twins : List.Forall₂ (OverloadTwin b r s) others others') :
    Answers (Option.Rel (OverloadTwin b r s)) (r.incomparableWith? first others)
      (s.incomparableWith? first' others') := by
  induction twins with
  | nil => exact .value .none
  | @cons a a' _ _ next rest ih =>
    have same : r.incomparable first.type a.type = s.incomparable first'.type a'.type := by
      rw [incomparable, incomparable, h.isAssignable head.type next.type,
        h.isAssignable next.type head.type]
    rw [Registry.incomparableWith?, Registry.incomparableWith?]
    refine (Answers.of_eq (R := Eq) same fun _ _ => rfl).bind fun apart _ known => ?_
    subst known
    cases apart with
    | true => exact .value (.some next)
    | false => exact ih

theorem incomparablePair? (h : Forks b r s)
    (twins : List.Forall₂ (OverloadTwin b r s) others others') :
    Answers (Option.Rel fun p q => OverloadTwin b r s p.1 q.1 ∧ OverloadTwin b r s p.2 q.2)
      (r.incomparablePair? others) (s.incomparablePair? others') := by
  induction twins with
  | nil => exact .value .none
  | cons head rest ih =>
    rw [Registry.incomparablePair?, Registry.incomparablePair?]
    refine (h.incomparableWith? head rest).bind fun found found' known => ?_
    cases known with
    | none => exact ih
    | some next => exact .value (.some ⟨head, next⟩)

theorem chooseSetter (h : Forks b r s) (property : String) {readType readType' : Option TypeId}
    (reads : Option.Rel (Twin b.size r s) readType readType') {second second' : Overload}
    (head : OverloadTwin b r s first first') (next : OverloadTwin b r s second second')
    (twins : List.Forall₂ (OverloadTwin b r s) others others') :
    Answers (SharedMethod b) (r.chooseSetter property readType first second others)
      (s.chooseSetter property readType' first' second' others') := by
  have all : List.Forall₂ (OverloadTwin b r s) (first :: second :: others)
      (first' :: second' :: others') := .cons head (.cons next twins)
  have matching (a a' : Overload) (twin : OverloadTwin b r s a a') :
      (some a.type == readType) = (some a'.type == readType') := by
    cases reads with
    | none => rfl
    | some read =>
      rw [Bool.eq_iff_iff, beq_iff_eq, beq_iff_eq, Option.some.injEq, Option.some.injEq]
      exact twin.type.eq_iff read
  have conflict {a a' c c' : Overload} (ha : OverloadTwin b r s a a')
      (hc : OverloadTwin b r s c c') : Answers (SharedMethod b)
        (do throw (.ambiguousSetter property (← r.fullName c.method.declaring) (← r.fullName a.type)
          (← r.fullName c.type)))
        (do throw (.ambiguousSetter property (← s.fullName c'.method.declaring)
          (← s.fullName a'.type) (← s.fullName c'.type))) := by
    rw [h.fullName ha.type, h.fullName hc.type, ← hc.method, h.fullName (.old hc.old.declaring)]
    refine (Answers.of_eq (R := Eq) rfl fun _ _ => rfl).bind fun owner _ known => ?_
    subst known
    refine (Answers.of_eq (R := Eq) rfl fun _ _ => rfl).bind fun type _ known => ?_
    subst known
    refine (Answers.of_eq (R := Eq) rfl fun _ _ => rfl).bind fun type' _ known => ?_
    subst known
    exact .fault _
  have found := find?_of_forall₂ matching all
  rw [Registry.chooseSetter, Registry.chooseSetter]
  revert found
  generalize (first :: second :: others).find? (some ·.type == readType) = found
  generalize (first' :: second' :: others').find? (some ·.type == readType') = found'
  intro matched
  cases matched with
  | some twin => exact .value ⟨twin.method, twin.old⟩
  | none =>
    refine (h.narrowestSetter? all (List.rel_reverse all)).bind fun winner winner' chosen => ?_
    cases chosen with
    | some twin => exact .value ⟨twin.method, twin.old⟩
    | none =>
      refine (h.incomparablePair? all).bind fun pair pair' apart => ?_
      cases apart with
      | none => exact conflict head next
      | some twins => exact conflict twins.1 twins.2

end Registry.Forks

/-! ## Accessor methods -/

section Accessors
variable (h : Forks b r s) {methods : List Method} (old : ∀ m ∈ methods, b.HandedOut m.ids)
include h old

theorem mapM_overload_inStep {type : Method → GenericType}
    (types : ∀ m ∈ methods, b.HandedOut (type m).ids) :
    InStep r s (fun r s => List.Forall₂ (OverloadTwin b r s))
      (methods.mapM fun m => do return ⟨m, ← m.eraseDeclared (type m)⟩)
      (methods.mapM fun m => do return ⟨m, ← m.eraseDeclared (type m)⟩) :=
  .mapM (OverloadTwin.remains b) fun m listed _ _ grows grows' =>
    Overload.inStep (old m listed)
      (Method.eraseDeclared_inStep (h.grow grows grows') (old m listed) (types m listed))

theorem resolveGetter_inStep (property : String) :
    InStep r s (fun _ _ => Option.Rel (SharedMethod b)) (resolveGetter property methods)
      (resolveGetter property methods) := by
  rcases methods with _ | ⟨first, _ | ⟨second, others⟩⟩
  · exact .pure .none
  · exact .pure (.some ⟨rfl, old first List.mem_cons_self⟩)
  · obtain ⟨here, later⟩ := List.forall_mem_cons.mp old
    have head := Overload.inStep here (Method.eraseDeclared_inStep h here here.returns)
    refine head.bind fun r' s' a a' grows grows' head => ?_
    have h' := h.grow grows grows'
    refine (mapM_overload_inStep h' later fun m listed => (later m listed).returns).bind ?_
    intro r'' s'' rest rest' more more' twins
    have head := OverloadTwin.remains b _ _ _ _ _ _ head more more'
    have chosen := (h'.grow more more').chooseGetter property head twins
    refine (InStep.read (R := fun _ _ => SharedMethod b) chosen).map ?_
    exact fun _ _ _ _ _ _ shared => .some shared

theorem resolveSetter_inStep (property : String) {readType readType' : Option TypeId}
    (reads : Option.Rel (Twin b.size r s) readType readType') :
    InStep r s (fun _ _ => Option.Rel (SharedMethod b)) (resolveSetter property readType methods)
      (resolveSetter property readType' methods) := by
  have taken (m : Method) (known : b.HandedOut m.ids) :
      b.HandedOut (m.params.headD (.named .object)).ids := by
    cases written : m.params with
    | nil => exact h.coherent.resolves.root
    | cons t _ => exact known.params t (by simp [written])
  rcases methods with _ | ⟨first, _ | ⟨second, others⟩⟩
  · exact .pure .none
  · exact .pure (.some ⟨rfl, old first List.mem_cons_self⟩)
  · obtain ⟨here, old⟩ := List.forall_mem_cons.mp old
    obtain ⟨there, later⟩ := List.forall_mem_cons.mp old
    have head := Overload.inStep here (Method.eraseDeclared_inStep h here (taken first here))
    refine head.bind fun r₁ s₁ a a' grows grows' head => ?_
    have h₁ := h.grow grows grows'
    have next := Overload.inStep there (Method.eraseDeclared_inStep h₁ there (taken second there))
    refine next.bind fun r₂ s₂ c c' more more' next => ?_
    have h₂ := h₁.grow more more'
    have head := OverloadTwin.remains b _ _ _ _ _ _ head more more'
    refine (mapM_overload_inStep h₂ later fun m listed => taken m (later m listed)).bind ?_
    intro r₃ s₃ rest rest' last last' twins
    have head := OverloadTwin.remains b _ _ _ _ _ _ head last last'
    have next := OverloadTwin.remains b _ _ _ _ _ _ next last last'
    have reads : Option.Rel (Twin b.size r₃ s₃) readType readType' := by
      cases reads with
      | none => exact .none
      | some twin =>
        exact .some (twin.grow ((grows.trans more).trans last).growsTo
          ((grows'.trans more').trans last').growsTo)
    have chosen := (h₂.grow last last').chooseSetter property reads head next twins
    refine (InStep.read (R := fun _ _ => SharedMethod b) chosen).map ?_
    exact fun _ _ _ _ _ _ shared => .some shared

end Accessors

/-! ## Entries -/

/-- The same accessor and generic type, and types that are twins. -/
structure EntryTwin (n : Nat) (r s : Registry) (e e' : Entry) : Prop where
  accessor : e.accessor = e'.accessor
  generic : e.generic = e'.generic
  type : Twin n r s e.type e'.type

namespace Index

/-- The same names, with related entries. -/
def Related (R : Entry → Entry → Prop) (x y : Index Entry) : Prop :=
  List.Forall₂ (fun p q => p.1 = q.1 ∧ R p.2 q.2) x.entries y.entries

namespace Related
variable {R S : Entry → Entry → Prop} {x y z : Index Entry}

theorem empty : Related R {} {} := .nil

theorem mono (h : x.Related R y) (weaker : ∀ e e', R e e' → S e e') : x.Related S y :=
  h.imp fun _ _ related => ⟨related.1, weaker _ _ related.2⟩

theorem insert (h : x.Related R y) (name : String) {e e' : Entry} (related : R e e') :
    (x.insert name e).Related R (y.insert name e') := by
  show List.Forall₂ _ (place name e x.entries) (place name e' y.entries)
  revert h
  rw [Related]
  generalize x.entries = as
  generalize y.entries = cs
  intro h
  induction h with
  | nil => exact .cons ⟨rfl, related⟩ .nil
  | cons head rest ih =>
    rw [place, place, head.1]
    split
    · exact .cons ⟨rfl, related⟩ (.cons head rest)
    · split
      · exact .cons ⟨rfl, related⟩ rest
      · exact .cons head ih

theorem find? (h : x.Related R y) (name : String) :
    Option.Rel R (x.find? name) (y.find? name) := by
  rw [Index.find?, Index.find?]
  revert h
  rw [Related]
  generalize x.entries = as
  generalize y.entries = cs
  intro h
  induction h with
  | nil => exact .none
  | cons head _ ih =>
    rw [lookup_cons_eq, lookup_cons_eq, head.1]
    split
    · exact .some head.2
    · exact ih

theorem contains (h : x.Related R y) (name : String) : x.contains name = y.contains name := by
  have found := h.find? name
  rw [Index.contains, Index.contains]
  revert found
  generalize x.find? name = found
  generalize y.find? name = found'
  intro found
  cases found <;> rfl

theorem ite {x' y' : Index Entry} {c : Prop} [Decidable c] (h : x.Related R y)
    (h' : x'.Related R y') : (if c then x else x').Related R (if c then y else y') := by
  split
  · exact h
  · exact h'

theorem names (h : x.Related R y) : x.names = y.names := by
  rw [Index.names, Index.names]
  revert h
  rw [Related]
  generalize x.entries = as
  generalize y.entries = cs
  intro h
  induction h with
  | nil => rfl
  | cons head _ ih => rw [List.map_cons, List.map_cons, head.1, ih]

end Related

end Index

/-- Entries of twins, under the same names. -/
def IndexTwin (n : Nat) (r s : Registry) : Index Entry → Index Entry → Prop :=
  Index.Related (EntryTwin n r s)

theorem IndexTwin.remains (n : Nat) : Remains (IndexTwin n) :=
  fun _ _ _ _ _ _ twins grows grows' => Index.Related.mono twins fun _ _ twin =>
    ⟨twin.accessor, twin.generic, twin.type.grow grows.growsTo grows'.growsTo⟩

section Entries
variable (h : Forks b r s) (ownerOld : owner.index < b.size)
include h ownerOld

theorem getterEntry_inStep (old : b.HandedOut m.ids) :
    InStep r s (EntryTwin b.size) (getterEntry owner m) (getterEntry owner m) := by
  have left := h.left.resolveReturn_old h.grounded ownerOld old.declaring
  have right := h.right.resolveReturn_old h.grounded ownerOld old.declaring
  have reading : InStep r s (fun _ _ t t' => t = t' ∧ b.HandedOut t.ids)
      (Growing.read (·.resolveReturn m owner)) (Growing.read (·.resolveReturn m owner)) :=
    .read (.of_eq (left.trans right.symm) fun t done => ⟨rfl, h.coherent.resolves.resolveReturn
      h.grounded.declaresOnly old.returns old.bounds (left.symm.trans done)⟩)
  refine reading.bind fun r' s' t _ grows grows' known => ?_
  obtain ⟨rfl, type⟩ := known
  exact (GenericType.erase_inStep (h.grow grows grows') type).map fun _ _ _ _ _ _ twin =>
    ⟨rfl, rfl, twin⟩

theorem setterEntry_inStep (old : b.HandedOut m.ids) :
    InStep r s (EntryTwin b.size) (setterEntry owner m) (setterEntry owner m) := by
  have left := h.left.resolveParams_old h.grounded ownerOld old.declaring
  have right := h.right.resolveParams_old h.grounded ownerOld old.declaring
  have reading : InStep r s (fun _ _ ts ts' => ts = ts' ∧ ∀ t ∈ ts, b.HandedOut t.ids)
      (Growing.read (·.resolveParams m owner)) (Growing.read (·.resolveParams m owner)) :=
    .read (.of_eq (left.trans right.symm) fun ts done => ⟨rfl, h.coherent.resolves.resolveParams
      h.grounded.declaresOnly old.params old.bounds (left.symm.trans done)⟩)
  refine reading.bind fun r' s' ts _ grows grows' known => ?_
  obtain ⟨rfl, types⟩ := known
  have type : b.HandedOut (ts.headD (.named .object)).ids := by
    cases ts with
    | nil => exact h.coherent.resolves.root
    | cons t _ => exact types t List.mem_cons_self
  exact (GenericType.erase_inStep (h.grow grows grows') type).map fun _ _ _ _ _ _ twin =>
    ⟨rfl, rfl, twin⟩

/-! ## Passes -/

omit ownerOld in
theorem passEntries_inStep {resolve resolve' : String → Growing (Option Method)}
    {make : Method → Growing Entry}
    (resolves : ∀ r' s', r.Interns r' → s.Interns s' → ∀ property,
      InStep r' s' (fun _ _ => Option.Rel (SharedMethod b)) (resolve property) (resolve' property))
    (makes : ∀ r' s', r.Interns r' → s.Interns s' → ∀ m, b.HandedOut m.ids →
      InStep r' s' (EntryTwin b.size) (make m) (make m))
    {made made' : Index Entry} (twins : IndexTwin b.size r s made made') (properties : List String) :
    InStep r s (IndexTwin b.size) (passEntries resolve make made properties)
      (passEntries resolve' make made' properties) := by
  induction properties generalizing r s made made' with
  | nil => exact .pure twins
  | cons property rest ih =>
    rw [passEntries, passEntries]
    refine (resolves r s (.refl r) (.refl s) property).bind ?_
    intro r' s' winner winner' grows grows' chosen
    have go_on {r'' s'' : Registry} (left : r.Interns r'') (right : s.Interns s'') {next next'}
        (twins : IndexTwin b.size r'' s'' next next') := ih (h.grow left right)
      (fun r₃ s₃ more more' => resolves r₃ s₃ (left.trans more) (right.trans more'))
      (fun r₃ s₃ more more' => makes r₃ s₃ (left.trans more) (right.trans more')) twins
    have still := IndexTwin.remains b.size _ _ _ _ _ _ twins grows grows'
    cases chosen with
    | none => exact go_on grows grows' still
    | @some winner _ shared =>
      obtain ⟨rfl, old⟩ := shared
      show InStep r' s' _ (if _ then _ else _) (if _ then _ else _)
      split
      · exact go_on grows grows' still
      · refine (makes r' s' grows grows' winner old).bind fun r'' s'' e e' more more' twin => ?_
        have still := IndexTwin.remains b.size _ _ _ _ _ _ still more more'
        exact go_on (grows.trans more) (grows'.trans more') (Index.Related.insert still property twin)

/-- The entries of both sides are twins. -/
structure SidesTwin (n : Nat) (r s : Registry) (made made' : Sides) : Prop where
  readers : IndexTwin n r s made.readers made'.readers
  writers : IndexTwin n r s made.writers made'.writers

omit h ownerOld in
theorem SidesTwin.remains (n : Nat) : Remains (SidesTwin n) :=
  fun _ _ _ _ _ _ twins grows grows' =>
    ⟨IndexTwin.remains n _ _ _ _ _ _ twins.readers grows grows',
      IndexTwin.remains n _ _ _ _ _ _ twins.writers grows grows'⟩

theorem methodEntries_inStep (limit : Nat) :
    InStep r s (SidesTwin b.size) (methodEntries owner limit) (methodEntries owner limit) := by
  rw [methodEntries]
  refine (collectMethods_inStep h ownerOld limit).bind fun r₁ s₁ methods _ grows grows' known => ?_
  obtain ⟨rfl, old⟩ := known
  have h₁ := h.grow grows grows'
  have picked (side : Side) (property : String) :
      ∀ m ∈ candidates property (accessors side methods), b.HandedOut m.ids :=
    fun m member => old m (mem_candidates member)
  have getters : InStep r₁ s₁ (IndexTwin b.size)
      (getterEntries owner (accessors .read methods) {} (propertiesOf (accessors .read methods)))
      (getterEntries owner (accessors .read methods) {}
        (propertiesOf (accessors .read methods))) := by
    rw [getterEntries_eq]
    exact passEntries_inStep h₁
      (fun _ _ more more' property => resolveGetter_inStep (h₁.grow more more') (picked _ _) property)
      (fun _ _ more more' _ => getterEntry_inStep (h₁.grow more more') ownerOld) Index.Related.empty _
  refine getters.bind fun r₂ s₂ readers readers' more more' made => ?_
  have h₂ := h₁.grow more more'
  have setters : InStep r₂ s₂ (IndexTwin b.size)
      (setterEntries owner (accessors .write methods) readers {}
        (propertiesOf (accessors .write methods)))
      (setterEntries owner (accessors .write methods) readers' {}
        (propertiesOf (accessors .write methods))) := by
    rw [setterEntries_eq, setterEntries_eq]
    refine passEntries_inStep h₂ (fun r₃ s₃ last last' property => ?_)
      (fun _ _ last last' _ => setterEntry_inStep (h₂.grow last last') ownerOld) Index.Related.empty _
    have reads : Option.Rel (Twin b.size r₃ s₃) ((readers.find? property).map (·.type))
        ((readers'.find? property).map (·.type)) := by
      have still := IndexTwin.remains b.size _ _ _ _ _ _ made last last'
      have found := Index.Related.find? still property
      revert found
      generalize readers.find? property = found
      generalize readers'.find? property = found'
      intro found
      cases found with
      | none => exact .none
      | some twin => exact .some twin.type
    exact resolveSetter_inStep (h₂.grow last last') (picked _ _) property reads
  refine setters.map fun r₃ s₃ writers writers' last last' written => ⟨?_, written⟩
  exact IndexTwin.remains b.size _ _ _ _ _ _ made last last'

/-! ## Fields -/

theorem addField_inStep {made made' : Sides} (twins : SidesTwin b.size r s made made') {f : Field}
    (old : b.HandedOut f.ids) :
    InStep r s (SidesTwin b.size) (addField owner made f) (addField owner made' f) := by
  obtain ⟨declaring, type⟩ := Registry.handedOut_cons.mp old
  have left := h.left.resolveField_old h.grounded ownerOld declaring
  have right := h.right.resolveField_old h.grounded ownerOld declaring
  have reading : InStep r s (fun _ _ t t' => t = t' ∧ b.HandedOut t.ids)
      (Growing.read (·.resolveField f owner)) (Growing.read (·.resolveField f owner)) :=
    .read (.of_eq (left.trans right.symm) fun t done => ⟨rfl, h.coherent.resolves.resolveField
      h.grounded.declaresOnly type (left.symm.trans done)⟩)
  rw [addField, addField, Index.Related.contains twins.readers, Index.Related.contains twins.writers]
  split
  · exact .pure twins
  · refine reading.bind fun r' s' t _ grows grows' known => ?_
    obtain ⟨rfl, type⟩ := known
    refine (GenericType.erase_inStep (h.grow grows grows') type).map ?_
    intro r'' s'' id id' more more' twin
    have still := SidesTwin.remains b.size _ _ _ _ _ _ twins (grows.trans more) (grows'.trans more')
    exact ⟨.ite (Index.Related.insert still.readers f.name ⟨rfl, rfl, twin⟩) still.readers,
      .ite (Index.Related.insert still.writers f.name ⟨rfl, rfl, twin⟩) still.writers⟩

theorem addFields_inStep (limit room : Nat) {start : Option TypeId}
    (old : ∀ id ∈ start, id.index < b.size) {made made' : Sides}
    (twins : SidesTwin b.size r s made made') :
    InStep r s (SidesTwin b.size) (addFields owner limit room start made)
      (addFields owner limit room start made') := by
  induction room generalizing r s start made made' with
  | zero =>
    cases start with
    | none => exact .pure twins
    | some id => exact .throw _
  | succ room ih =>
    cases start with
    | none => exact .pure twins
    | some id =>
      have here := old id rfl
      have reading : InStep r s (fun _ _ d d' => d = d' ∧ b.find? id = some d)
          (Growing.read (·.find id)) (Growing.read (·.find id)) := by
        refine .read (.of_eq (h.find_old here) fun d found => ⟨rfl, ?_⟩)
        rw [h.left.find_old here] at found
        exact Registry.find_eq_ok.mp found
      rw [addFields, addFields]
      refine reading.bind fun r₁ s₁ d _ grows grows' known => ?_
      obtain ⟨rfl, found⟩ := known
      have h₁ := h.grow grows grows'
      have filled : InStep r₁ s₁ (SidesTwin b.size) (d.fields.foldlM (addField owner) made)
          (d.fields.foldlM (addField owner) made') :=
        .foldlM (SidesTwin.remains b.size _ _ _ _ _ _ twins grows grows')
          fun f listed _ _ _ _ more more' twins => addField_inStep (h₁.grow more more') ownerOld twins
            (h.grounded.fields found f listed)
      refine filled.bind fun r₂ s₂ next next' more more' twins => ?_
      exact ih (h₁.grow more more') (h.grounded.superclass found) twins

/-! ## The table -/

/-- Tables of one type that differ in the identities of array types alone. -/
structure TableTwin (n : Nat) (r s : Registry) (t t' : Table) : Prop where
  type : t.type = t'.type
  name : t.name = t'.name
  readers : IndexTwin n r s t.readers t'.readers
  writers : IndexTwin n r s t.writers t'.writers
  defaultConstructor : t.defaultConstructor? = t'.defaultConstructor?

omit h ownerOld in
theorem TableTwin.entries {n : Nat} {t t' : Table} (twins : TableTwin n r s t t') (side : Side) :
    IndexTwin n r s (t.entries side) (t'.entries side) := by
  cases side
  · exact twins.readers
  · exact twins.writers

/-- Which array types were interned before makes no difference to a table. -/
theorem build_inStep (limit : Nat) :
    InStep r s (TableTwin b.size) (Table.build owner limit) (Table.build owner limit) := by
  have naming : InStep r s (fun _ _ name name' => name = name')
      (Growing.read (·.fullName owner)) (Growing.read (·.fullName owner)) :=
    .read (.of_eq (h.fullName (.old ownerOld)) fun _ _ => rfl)
  rw [Table.build_eq_methodEntries]
  refine naming.bind fun r₁ s₁ name _ grows grows' known => ?_
  subst known
  have h₁ := h.grow grows grows'
  refine (methodEntries_inStep h₁ ownerOld limit).bind fun r₂ s₂ made made' more more' twins => ?_
  have h₂ := h₁.grow more more'
  have start : ∀ id ∈ some owner, id.index < b.size :=
    fun id same => Option.some.inj same ▸ ownerOld
  refine (addFields_inStep h₂ ownerOld limit limit start twins).bind ?_
  intro r₃ s₃ sides sides' last last' twins
  have finding : InStep r₃ s₃ (fun _ _ d d' => d = d') (Growing.read (·.find owner))
      (Growing.read (·.find owner)) :=
    .read (.of_eq ((h₂.grow last last').find_old ownerOld) fun _ _ => rfl)
  refine finding.map fun r₄ s₄ d _ after after' known => ?_
  subst known
  have twins := SidesTwin.remains b.size _ _ _ _ _ _ twins after after'
  exact ⟨rfl, rfl, twins.readers, twins.writers, rfl⟩

end Entries

end PropertyTables
