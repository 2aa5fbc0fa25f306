import PropertyTables.Proofs.Registry.Closed
import PropertyTables.Proofs.Registry.Safety
import PropertyTables.Proofs.Table.Naming
import PropertyTables.Proofs.Table.SetterChoice

/-! # Erasure, discovery and choice in closed registries

* `Fault.OfBuild`: the faults that remain where all types are declared: two kinds of ambiguity, and
  a superclass chain that is too long.
* `Sealed.erase`, `Sealed.collectMethods`: erasing gives declared types, and the methods that a
  table is made of mention declared types only.
* `Sealed.resolveGetter`, `Sealed.resolveSetter`: the choice among accessor methods fails by
  ambiguity alone.
-/

namespace PropertyTables
set_option autoImplicit false

open Growing (Safe)

/-- What can go wrong where all types are declared. -/
inductive Fault.OfBuild (limit : Nat) : Fault → Prop
  | ambiguousGetter (property owner : String) : OfBuild limit (.ambiguousGetter property owner)
  | ambiguousSetter (property owner first second : String) :
      OfBuild limit (.ambiguousSetter property owner first second)
  | recursionLimit : OfBuild limit (.recursionLimit limit)

def Overload.ids (o : Overload) : List TypeId := o.type :: o.method.ids

namespace Registry
variable {r : Registry} {limit : Nat} {allowed : Fault → Prop}

namespace Sealed

/-! ## Erasure -/

theorem erase (h : r.Sealed) {t : GenericType} (covered : r.Covers t.ids) :
    Safe allowed r t.erase fun grown id => grown.Published id := by
  induction t using GenericType.induction_on_parts with
  | named id => exact .pure (covered id (List.mem_singleton_self id))
  | applied raw args _ => exact .pure (covered raw List.mem_cons_self)
  | array component ih => exact (ih covered).bind fun grown id _ here => .arrayOf here
  | typeVar name => exact .pure h.object
  | wildcard upper lower _ _ => exact .pure h.object

variable {m : Method}

theorem ownBindings (h : r.Sealed) (covered : r.Covers m.ids) :
    ∃ env, m.ownBindings r = .ok env ∧ ∀ x, r.Covers (env.value x).ids := by
  simp only [Method.ids, covers_cons, covers_append, covers_flatMap] at covered
  obtain ⟨declared, -, bounds⟩ := covered
  obtain ⟨d, found⟩ := published_iff.mp declared
  have done : m.ownBindings r = .ok (.fallbacks m.typeParams ++ .fallbacks d.typeParams) := by
    rw [Method.ownBindings, find_eq_ok.mpr found]
    rfl
  exact ⟨_, done, h.resolves.ownBindings h.closed.declaresOnly
    (fun p hp => covers_flatMap.mp (bounds p hp)) done⟩

theorem eraseDeclared (h : r.Sealed) (covered : r.Covers m.ids) {t : GenericType}
    (type : r.Covers t.ids) :
    Safe allowed r (m.eraseDeclared t) fun grown id => grown.Published id := by
  obtain ⟨env, found, values⟩ := h.ownBindings covered
  have reading : Safe allowed r (Growing.read m.ownBindings) fun grown env =>
      grown.Sealed ∧ grown.Covers (t.instantiate env).ids := by
    refine .read_ok found ⟨h, ?_⟩
    rw [GenericType.instantiate_eq_subst]
    exact covers_subst values type
  exact reading.bind fun grown env _ ⟨still, covered⟩ => still.erase covered

theorem signature (h : r.Sealed) (covered : r.Covers m.ids) :
    Safe allowed r m.signature fun _ _ => True := by
  have parts := covered
  simp only [Method.ids, covers_cons, covers_append, covers_flatMap] at parts
  obtain ⟨-, ⟨returns, params⟩, -⟩ := parts
  have erased : Safe allowed r (m.params.mapM m.eraseDeclared) fun grown ids =>
      ∀ id ∈ ids, grown.Published id := by
    refine .mapM (P := Registry.Published) ?_ ?_
    · exact fun r grown id interns => interns.growsTo.declared.published
    intro t ht grown interns
    exact (h.interns interns).eraseDeclared (covered.interns interns) ((params t ht).interns interns)
  refine erased.bind fun grown ids interns _ => ?_
  refine ((h.interns interns).eraseDeclared (covered.interns interns)
    (returns.interns interns)).bind fun _ _ _ _ => .pure .intro

/-! ## Discovery -/

theorem classChain (h : r.Sealed) (limit room : Nat) {start : Option TypeId}
    (declared : ∀ id ∈ start, r.Published id) :
    (∃ chain, r.classChain limit room start = .ok chain ∧ r.Covers chain) ∨
      r.classChain limit room start = .error (.recursionLimit limit) := by
  induction room generalizing start with
  | zero =>
    cases start with
    | none => exact .inl ⟨[], rfl, r.covers_nil⟩
    | some id =>
      rw [Registry.classChain]
      split
      · exact .inl ⟨[], rfl, r.covers_nil⟩
      · exact .inr rfl
  | succ room ih =>
    cases start with
    | none => exact .inl ⟨[], rfl, r.covers_nil⟩
    | some id =>
      rw [Registry.classChain]
      split
      · exact .inl ⟨[], rfl, r.covers_nil⟩
      · have here := declared id rfl
        obtain ⟨d, found⟩ := published_iff.mp here
        rw [find_eq_ok.mpr found]
        show (∃ chain, List.cons id <$> r.classChain limit room d.superclass? = .ok chain ∧ _) ∨
          List.cons id <$> r.classChain limit room d.superclass? = _
        rcases ih fun parent named => h.closed.superclass found named with
          ⟨chain, done, covered⟩ | failed
        · rw [done]
          exact .inl ⟨id :: chain, rfl, covers_cons.mpr ⟨here, covered⟩⟩
        · rw [failed]
          exact .inr rfl

theorem superinterfaces (h : r.Sealed) (id : TypeId) : r.Covers (r.superinterfaces id) :=
  fun _ edge => h.closed.supertypesPublished _ _ (.of_superinterface edge)

theorem discoveryOrder (h : r.Sealed) (visited : List TypeId) {chain : List TypeId}
    (declared : r.Covers chain) : r.Covers (r.discoveryOrder visited chain) := by
  induction chain generalizing visited with
  | nil => exact r.covers_nil
  | cons id rest ih =>
    obtain ⟨here, later⟩ := covers_cons.mp declared
    have met : r.Covers (r.interfaceWalk (fun l => l) visited (r.superinterfaces id)) :=
      preorder_forall (h.superinterfaces id) fun s _ => h.superinterfaces s
    rw [Registry.discoveryOrder]
    exact covers_cons.mpr ⟨here, covers_append.mpr ⟨met, ih _ later⟩⟩

theorem addUnique (h : r.Sealed) {kept : List (Signature × Method)}
    (hk : ∀ p ∈ kept, r.Covers p.2.ids) {methods : List Method}
    (hm : ∀ m ∈ methods, r.Covers m.ids) :
    Safe allowed r (addUnique kept methods) fun grown made => ∀ p ∈ made, grown.Covers p.2.ids := by
  induction methods generalizing r kept with
  | nil => exact .pure hk
  | cons m rest ih =>
    obtain ⟨here, later⟩ := List.forall_mem_cons.mp hm
    rw [PropertyTables.addUnique]
    split
    · exact ih h hk later
    · refine (h.signature here).bind fun grown signature interns _ => ?_
      have still := h.interns interns
      have later (m' : Method) (hm' : m' ∈ rest) := (later m' hm').interns interns
      have kept_still (p : Signature × Method) (hp : p ∈ kept) := (hk p hp).interns interns
      split
      · exact ih still kept_still later
      · refine ih still (fun p hp => ?_) later
        rcases List.mem_append.mp hp with before | last
        · exact kept_still p before
        · exact List.mem_singleton.mp last ▸ here.interns interns

theorem collectFrom (h : r.Sealed) {kept : List (Signature × Method)}
    (hk : ∀ p ∈ kept, r.Covers p.2.ids) {types : List TypeId} (declared : r.Covers types) :
    Safe allowed r (collectFrom kept types) fun grown made =>
      ∀ p ∈ made, grown.Covers p.2.ids := by
  induction types generalizing r kept with
  | nil => exact .pure hk
  | cons id rest ih =>
    obtain ⟨here, later⟩ := covers_cons.mp declared
    obtain ⟨d, found⟩ := published_iff.mp here
    have reading : Safe allowed r (Growing.read (·.find id)) fun grown d =>
        grown = r ∧ r.find? id = some d := .read_ok (find_eq_ok.mpr found) ⟨rfl, found⟩
    refine reading.bind ?_
    rintro _ d - ⟨rfl, found⟩
    refine (h.addUnique hk (h.closed.methods found)).bind fun grown made interns fits => ?_
    exact ih (h.interns interns) fits (later.interns interns)

theorem collectMethods (h : r.Sealed) {type : TypeId} (declared : r.Published type) :
    Safe (Fault.OfBuild limit) r (collectMethods type limit) fun grown methods =>
      ∀ m ∈ methods, grown.Covers m.ids := by
  have chain : Safe (Fault.OfBuild limit) r (Growing.read (·.classChain limit limit (some type)))
      fun grown chain => grown.Sealed ∧ grown.Covers chain := by
    have start : ∀ id ∈ some type, r.Published id := by
      intro id named
      exact Option.mem_some.mp named ▸ declared
    rcases h.classChain limit limit start with ⟨chain, done, covered⟩ | failed
    · exact .read_ok done ⟨h, covered⟩
    · refine .read (fun fault other => ?_) fun chain done => ?_
      · rw [failed] at other
        cases other
        exact .recursionLimit
      · rw [failed] at done
        cases done
  refine chain.bind fun grown chain _ ⟨still, covered⟩ => ?_
  have order : Safe (Fault.OfBuild limit) grown (get : Growing Registry) fun g s =>
      g = grown ∧ s = grown := .get ⟨rfl, rfl⟩
  refine order.bind ?_
  rintro _ _ - ⟨rfl, rfl⟩
  refine (still.collectFrom (by simp) (still.discoveryOrder [] covered)).bind ?_
  intro last made _ fits
  exact .pure (List.forall_mem_map.mpr fits)

/-! ## Choice -/

theorem isAssignable (h : r.Sealed) {t u : TypeId} (ht : r.Published t) (hu : r.Published u) :
    ∃ answer, r.isAssignable t u = .ok answer :=
  isAssignable_answers h.reachable.coherent h.closed.supertypesPublished ht hu

theorem prefersGetter (h : r.Sealed) {a b : Overload} (ha : r.Covers a.ids) (hb : r.Covers b.ids) :
    ∃ answer, r.prefersGetter a b = .ok answer :=
  prefersGetter_answers (h.isAssignable (covers_cons.mp hb).1 (covers_cons.mp ha).1)

theorem chooseGetter (h : r.Sealed) (property : String) {first : Overload} {others : List Overload}
    (covered : ∀ o ∈ first :: others, r.Covers o.ids) :
    Safe (Fault.OfBuild limit) r (Growing.read (·.chooseGetter property first others))
      fun grown m => grown.Sealed ∧ grown.Covers m.ids := by
  refine .read (fun fault failed => ?_) fun m done => ?_
  · have owner := (covers_cons.mp (covers_cons.mp (covered first List.mem_cons_self)).2).1
    obtain ⟨name, named⟩ := owner.fullName
    rw [chooseGetter_eq_error named (fun a ha b hb => h.prefersGetter (covered a ha) (covered b hb))
      failed]
    exact .ambiguousGetter property name
  · obtain ⟨-, w, ws, split, rfl, -⟩ := chooseGetter_eq_ok done
    exact ⟨h, (covers_cons.mp (covered w (split.mem_iff.mpr List.mem_cons_self))).2⟩

theorem chooseSetter (h : r.Sealed) (property : String) (readType : Option TypeId)
    {first second : Overload} {others : List Overload}
    (covered : ∀ o ∈ first :: second :: others, r.Covers o.ids) :
    Safe (Fault.OfBuild limit) r (Growing.read (·.chooseSetter property readType first second others))
      fun grown m => grown.Sealed ∧ grown.Covers m.ids := by
  have method (o : Overload) (ho : o ∈ first :: second :: others) : r.Covers o.method.ids :=
    (covers_cons.mp (covered o ho)).2
  have outcome := chooseSetter_outcome h.reachable.coherent h.closed.supertypesPublished property
    readType (fun o ho => (covers_cons.mp (covered o ho)).1)
    (fun o ho => (covers_cons.mp (method o ho)).1)
  refine .read (fun fault failed => ?_) fun m done => ?_
  · rw [failed] at outcome
    cases outcome with
    | ambiguous => exact .ambiguousSetter ..
  · obtain ⟨w, member, rfl, -⟩ := chooseSetter_eq_ok done
    exact ⟨h, method w member⟩

/-- Turning methods into overloads. -/
theorem overloads (h : r.Sealed) {overload : Method → Growing Overload}
    (step : ∀ r : Registry, r.Sealed → ∀ m, r.Covers m.ids →
      Safe allowed r (overload m) fun grown o => grown.Covers o.ids) {methods : List Method}
    (covered : ∀ m ∈ methods, r.Covers m.ids) :
    Safe allowed r (methods.mapM overload) fun grown os => ∀ o ∈ os, grown.Covers o.ids :=
  .mapM (P := fun grown (o : Overload) => grown.Covers o.ids)
    (fun _ _ _ interns fits => fits.interns interns) fun m hm grown interns =>
      step grown (h.interns interns) m ((covered m hm).interns interns)

theorem getterOverload (h : r.Sealed) {m : Method} (covered : r.Covers m.ids) :
    Safe allowed r (getterOverload m) fun grown o => grown.Covers o.ids := by
  have parts := covered
  simp only [Method.ids, covers_cons, covers_append] at parts
  obtain ⟨-, ⟨returns, -⟩, -⟩ := parts
  refine (h.eraseDeclared covered returns).bind fun grown type interns declared => .pure ?_
  exact covers_cons.mpr ⟨declared, covered.interns interns⟩

theorem setterOverload (h : r.Sealed) {m : Method} (covered : r.Covers m.ids) :
    Safe allowed r (setterOverload m) fun grown o => grown.Covers o.ids := by
  have takes : r.Covers (m.params.headD (.named .object)).ids := by
    have parts := covered
    simp only [Method.ids, covers_cons, covers_append, covers_flatMap] at parts
    obtain ⟨-, ⟨-, params⟩, -⟩ := parts
    cases written : m.params with
    | nil => exact h.resolves.root
    | cons t _ => exact params t (by simp [written])
  refine (h.eraseDeclared covered takes).bind fun grown type interns declared => .pure ?_
  exact covers_cons.mpr ⟨declared, covered.interns interns⟩

theorem resolveGetter (h : r.Sealed) (property : String) {methods : List Method}
    (covered : ∀ m ∈ methods, r.Covers m.ids) :
    Safe (Fault.OfBuild limit) r (resolveGetter property methods)
      fun grown winner => ∀ m ∈ winner, grown.Covers m.ids := by
  obtain - | ⟨first, - | ⟨second, others⟩⟩ := methods
  · exact .pure (by simp)
  · exact .pure (by simpa using covered)
  · obtain ⟨here, later⟩ := List.forall_mem_cons.mp covered
    refine (h.getterOverload here).bind fun grown a interns first => ?_
    have still := h.interns interns
    refine (still.overloads (fun _ h _ => h.getterOverload) fun m hm =>
      (later m hm).interns interns).bind fun grown' rest interns' others => ?_
    have all : ∀ o ∈ a :: rest, grown'.Covers o.ids :=
      List.forall_mem_cons.mpr ⟨first.interns interns', others⟩
    refine ((still.interns interns').chooseGetter property all).bind ?_
    intro _ m _ ⟨_, fits⟩
    exact .pure (by simpa using fits)

theorem resolveSetter (h : r.Sealed) (property : String) (readType : Option TypeId)
    {methods : List Method} (covered : ∀ m ∈ methods, r.Covers m.ids) :
    Safe (Fault.OfBuild limit) r (resolveSetter property readType methods)
      fun grown winner => ∀ m ∈ winner, grown.Covers m.ids := by
  obtain - | ⟨first, - | ⟨second, others⟩⟩ := methods
  · exact .pure (by simp)
  · exact .pure (by simpa using covered)
  · simp only [List.forall_mem_cons] at covered
    obtain ⟨one, other, later⟩ := covered
    refine (h.setterOverload one).bind fun grown a interns ha => ?_
    have still := h.interns interns
    refine (still.setterOverload (other.interns interns)).bind fun grown' b interns' hb => ?_
    have still' := still.interns interns'
    have both := interns.trans interns'
    refine (still'.overloads (fun _ h _ => h.setterOverload) fun m hm =>
      (later m hm).interns both).bind fun last rest interns'' hrest => ?_
    have all : ∀ o ∈ a :: b :: rest, last.Covers o.ids :=
      List.forall_mem_cons.mpr ⟨ha.interns (interns'.trans interns''),
        List.forall_mem_cons.mpr ⟨hb.interns interns'', hrest⟩⟩
    refine ((still'.interns interns'').chooseSetter property readType all).bind ?_
    intro _ m _ ⟨_, fits⟩
    exact .pure (by simpa using fits)

end Sealed

end Registry

end PropertyTables
