import PropertyTables.Proofs.Registry.Agreement
import PropertyTables.Proofs.Table.Collected
import PropertyTables.Proofs.Table.Matching

/-! # Tables of reordered registries

* `Registry.SteadyAbove`: no type of a member above a type is a variable, and none interns anything.
* `Registry.Comparable`: what two registries have to satisfy for their tables of a type to agree.
* `getterEntries_agree`, `setterEntries_agree`, `addFields_agree`: the three passes, each in
  lock step.
* `build_reordered`: tables of such a type do not depend on the order of methods and interfaces.
* `build_depends_on_order`: where a getter returns a variable, they may.
-/

namespace PropertyTables
set_option autoImplicit false

open Growing (Agree)

variable {r s : Registry} {owner : TypeId} {kept kept' : List (Signature × Method)}

/-! ## Registries to compare -/

namespace Registry

/-- Whether all members of a type and of the types above it are steady. -/
structure SteadyAbove (r : Registry) (owner : TypeId) : Prop where
  methods : ∀ id, Relation.ReflTransGen r.DeclaredSupertype owner id →
    ∀ m ∈ r.methodsOf id, r.Steady m.returns ∧ ∀ t ∈ m.params, r.Steady t
  fields : ∀ id d, Relation.ReflTransGen r.DeclaredSupertype owner id → r.find? id = some d →
    ∀ f ∈ d.fields, r.Steady f.type

/-- Whether the tables of a type in two registries can be compared. -/
structure Comparable (owner : TypeId) (r s : Registry) : Prop where
  reordered : r.Reordered s
  closed : r.SupertypesPublished
  order : r.SubtypeOrder
  published : r.Published owner
  steady : r.SteadyAbove owner

namespace Comparable

theorem same (h : Comparable owner r s) (t u : TypeId) : r.isAssignable t u = s.isAssignable t u :=
  h.reordered.isAssignable h.closed t u

theorem symm (h : Comparable owner r s) : Comparable owner s r where
  reordered := h.reordered.symm
  closed := h.reordered.supertypesPublished h.closed
  order := {
    answers := fun t u ht hu => by
      rw [← h.same]
      exact h.order.answers t u (h.reordered.symm.published ht) (h.reordered.symm.published hu)
    antisymm := fun t u htu hut => by
      rw [← h.same] at htu hut
      exact h.order.antisymm t u htu hut }
  published := h.reordered.published h.published
  steady := {
    methods := fun id above m hm => by
      rw [← h.reordered.declaredSupertype_eq] at above
      obtain ⟨returns, params⟩ := h.steady.methods id above m (h.reordered.mem_methodsOf.mpr hm)
      exact ⟨h.reordered.steady returns, fun t ht => h.reordered.steady (params t ht)⟩
    fields := fun id e above found f hf => by
      rw [← h.reordered.declaredSupertype_eq] at above
      obtain ⟨d, found', reordered⟩ := h.reordered.symm.declared id e found
      rw [reordered.fields] at hf
      exact h.reordered.steady (h.steady.fields id d above found' f hf) }

theorem steady_methods (h : Comparable owner r s) {id : TypeId}
    (above : Relation.ReflTransGen r.DeclaredSupertype owner id) :
    ∀ m ∈ r.methodsOf id, m.Steady r := by
  intro m hm
  obtain ⟨returns, params⟩ := h.steady.methods id above m hm
  refine ⟨?_, returns, params⟩
  rw [declaring_of_mem_methodsOf hm]
  exact h.closed.of_path h.published above

end Comparable

end Registry

open Registry (Comparable)

/-! ## The passes -/

theorem collectMethods_agree (h : Comparable owner r s) (limit : Nat) :
    Agree r s (fun ms ms' => ∃ kept kept', ms = kept.map (·.2) ∧ ms' = kept'.map (·.2) ∧
      Matched r s kept kept') (collectMethods owner limit) (collectMethods owner limit) := by
  rw [collectMethods_eq]
  have chains : Agree r s (fun c c' => c = c' ∧ r.classChain limit limit (some owner) = .ok c)
      (Growing.read (·.classChain limit limit (some owner)))
      (Growing.read (·.classChain limit limit (some owner))) := by
    refine .read (fun c hc => ⟨c, ?_, rfl, hc⟩) fun c hc => ⟨c, ?_⟩
    · rw [← h.reordered.classChain]
      exact hc
    · rw [h.reordered.classChain]
      exact hc
  refine chains.bind ?_
  rintro chain _ ⟨rfl, found⟩
  have found' := (h.reordered.classChain limit limit (some owner)).symm.trans found
  have collected {q q' : Registry} (h : Comparable owner q q')
      (found : q.classChain limit limit (some owner) = .ok chain) :
      ∃ kept, (collectAlong chain).eval q = (.ok kept, q) ∧
        Collected q ((q.discoveryOrder [] chain).flatMap q.methodsOf) kept := by
    have above := Registry.discoveryOrder_above found
    exact collectFrom_collected .empty (fun id hid => h.closed.of_path h.published (above id hid))
      fun id hid => h.steady_methods (above id hid)
  obtain ⟨kept, done, all⟩ := collected h found
  obtain ⟨kept', done', all'⟩ := collected h.symm found'
  have members (m : Method) : m ∈ (r.discoveryOrder [] chain).flatMap r.methodsOf ↔
      m ∈ (s.discoveryOrder [] chain).flatMap s.methodsOf := by
    simp only [List.mem_flatMap, h.reordered.mem_discoveryOrder, h.reordered.mem_methodsOf]
  have matched : Matched r s kept kept' :=
    ⟨all.perm h.reordered members all', fun p hp => (all.sound p hp).2.2,
      fun p hp => (all'.sound p hp).2.2⟩
  have both : Agree r s (Matched r s) (collectAlong chain) (collectAlong chain) :=
    .of_eval done done' matched
  exact both.bind fun a b hab => .pure ⟨a, b, rfl, rfl, hab⟩

/-- The getters that are chosen from matched ones are of one type. -/
theorem chooseGetter_agree (h : Comparable owner r s) (property : String)
    {p p' : Signature × Method} {rest rest' : List (Signature × Method)}
    (matched : Matched r s (p :: rest) (p' :: rest')) :
    Agree r s (fun m m' => Picked (·.returns) (p :: rest) (p' :: rest') (some m) (some m'))
      (Growing.read (·.chooseGetter property (overload (·.returns) p)
        (rest.map (overload (·.returns)))))
      (Growing.read (·.chooseGetter property (overload (·.returns) p')
        (rest'.map (overload (·.returns))))) := by
  refine .read (fun m done => ?_) fun m' done => ?_
  · obtain ⟨m', chosen, w, hw, w', hw', rfl, rfl, type⟩ :=
      Registry.chooseGetter_reordered h.same h.symm.order matched.keys done
    exact ⟨_, chosen, picked_of_overloads hw hw' type⟩
  · obtain ⟨m, chosen, -⟩ :=
      Registry.chooseGetter_reordered h.symm.same h.order matched.symm.keys done
    exact ⟨m, chosen⟩

theorem resolveGetter_agree (h : Comparable owner r s) (property : String)
    (matched : Matched r s kept kept') :
    Agree r s (Picked (·.returns) kept kept') (resolveGetter property (kept.map (·.2)))
      (resolveGetter property (kept'.map (·.2))) := by
  -- the two lists have one length, so both sides take the same branch
  have length := matched.signatures.length_eq
  match kept, kept' with
  | [], [] => exact .pure .none
  | [p], [p'] =>
    have same : p.1 = p'.1 := List.singleton_perm_singleton.mp matched.signatures
    exact .pure (.some p p' List.mem_cons_self List.mem_cons_self (congrArg _ same))
  | p :: q :: rest, p' :: q' :: rest' =>
    have makes {t : Registry} {l : List (Signature × Method)}
        (steady : ∀ p ∈ l, p.2.Steady t ∧ p.2.Erases t p.1) : ∀ p ∈ l,
        (getterOverload p.2).eval t = (.ok (overload (·.returns) p), t) := fun p hp =>
      getterOverload_kept (steady p hp).1 (steady p hp).2
    obtain ⟨first, later⟩ := List.forall_mem_cons.mp (makes matched.left)
    obtain ⟨first', later'⟩ := List.forall_mem_cons.mp (makes matched.right)
    refine Agree.bind (.of_eval first first' ⟨rfl, rfl⟩ : Agree r s
      (fun a a' => a = overload (·.returns) p ∧ a' = overload (·.returns) p') _ _) ?_
    rintro _ _ ⟨rfl, rfl⟩
    refine Agree.bind (.of_eval (mapM_overload later) (mapM_overload later') ⟨rfl, rfl⟩ : Agree r s
      (fun as as' => as = (q :: rest).map (overload (·.returns)) ∧
        as' = (q' :: rest').map (overload (·.returns))) _ _) ?_
    rintro _ _ ⟨rfl, rfl⟩
    exact (chooseGetter_agree h property matched).bind fun m m' picked => .pure picked
  | [], _ :: _ => simp at length
  | _ :: _, [] => simp at length
  | [_], _ :: _ :: _ => simp at length
  | _ :: _ :: _, [_] => simp at length

theorem chooseSetter_agree (h : Comparable owner r s) (property : String)
    (readType : Option TypeId) {p q p' q' : Signature × Method}
    {rest rest' : List (Signature × Method)}
    (matched : Matched r s (p :: q :: rest) (p' :: q' :: rest')) :
    Agree r s (fun m m' =>
        Picked Signature.takes (p :: q :: rest) (p' :: q' :: rest') (some m) (some m'))
      (Growing.read (·.chooseSetter property readType (overload Signature.takes p)
        (overload Signature.takes q) (rest.map (overload Signature.takes))))
      (Growing.read (·.chooseSetter property readType (overload Signature.takes p')
        (overload Signature.takes q') (rest'.map (overload Signature.takes)))) := by
  refine .read (fun m done => ?_) fun m' done => ?_
  · obtain ⟨m', chosen, w, hw, w', hw', rfl, rfl, type⟩ :=
      Registry.chooseSetter_reordered h.same h.symm.order (matched.types Signature.takes) done
    exact ⟨_, chosen, picked_of_overloads hw hw' type⟩
  · obtain ⟨m, chosen, -⟩ :=
      Registry.chooseSetter_reordered h.symm.same h.order (matched.symm.types Signature.takes) done
    exact ⟨m, chosen⟩

theorem resolveSetter_agree (h : Comparable owner r s) (property : String)
    (readType : Option TypeId) (matched : Matched r s kept kept') :
    Agree r s (Picked Signature.takes kept kept')
      (resolveSetter property readType (kept.map (·.2)))
      (resolveSetter property readType (kept'.map (·.2))) := by
  have length := matched.signatures.length_eq
  match kept, kept' with
  | [], [] => exact .pure .none
  | [p], [p'] =>
    have same : p.1 = p'.1 := List.singleton_perm_singleton.mp matched.signatures
    exact .pure (.some p p' List.mem_cons_self List.mem_cons_self (congrArg _ same))
  | p :: q :: rest, p' :: q' :: rest' =>
    have makes {t : Registry} {l : List (Signature × Method)}
        (steady : ∀ p ∈ l, p.2.Steady t ∧ p.2.Erases t p.1) : ∀ p ∈ l,
        (setterOverload p.2).eval t = (.ok (overload Signature.takes p), t) := fun p hp =>
      setterOverload_kept (steady p hp).1 (steady p hp).2
    obtain ⟨first, second, later⟩ := by
      simpa only [List.forall_mem_cons] using makes matched.left
    obtain ⟨first', second', later'⟩ := by
      simpa only [List.forall_mem_cons] using makes matched.right
    refine Agree.bind (.of_eval first first' ⟨rfl, rfl⟩ : Agree r s
      (fun a a' => a = overload Signature.takes p ∧ a' = overload Signature.takes p') _ _) ?_
    rintro _ _ ⟨rfl, rfl⟩
    refine Agree.bind (.of_eval second second' ⟨rfl, rfl⟩ : Agree r s
      (fun b b' => b = overload Signature.takes q ∧ b' = overload Signature.takes q') _ _) ?_
    rintro _ _ ⟨rfl, rfl⟩
    refine Agree.bind (.of_eval (mapM_overload later) (mapM_overload later') ⟨rfl, rfl⟩ : Agree r s
      (fun bs bs' => bs = rest.map (overload Signature.takes) ∧
        bs' = rest'.map (overload Signature.takes)) _ _) ?_
    rintro _ _ ⟨rfl, rfl⟩
    exact (chooseSetter_agree h property readType matched).bind fun m m' picked => .pure picked
  | [], _ :: _ => simp at length
  | _ :: _, [] => simp at length
  | [_], _ :: _ :: _ => simp at length
  | _ :: _ :: _, [_] => simp at length

/-- Where both sides pick methods of one type, or none, a pass goes on with the same types. -/
theorem pass_agree {type : Signature → TypeId} {resolve resolve' : Growing (Option Method)}
    {make : Method → Growing Entry} {next next' : Index Entry → Growing (Index Entry)}
    {name : String} (picks : Agree r s (Picked type kept kept') resolve resolve')
    (left : ∀ p ∈ kept, ∃ e, (make p.2).eval r = (.ok e, r) ∧ e.type = type p.1)
    (right : ∀ p ∈ kept', ∃ e, (make p.2).eval s = (.ok e, s) ∧ e.type = type p.1)
    (goes_on : ∀ made made' : Index Entry, made.SameTypes made' →
      Agree r s Index.SameTypes (next made) (next' made'))
    {made made' : Index Entry} (same : made.SameTypes made') :
    Agree r s Index.SameTypes
      (do
        match ← resolve with
        | some winner =>
          if PropertyName.isExcluded name then next made
          else
            let entry ← make winner
            next (made.insert name entry)
        | none => next made)
      (do
        match ← resolve' with
        | some winner =>
          if PropertyName.isExcluded name then next' made'
          else
            let entry ← make winner
            next' (made'.insert name entry)
        | none => next' made') := by
  refine picks.bind fun winner winner' picked => ?_
  cases picked with
  | none => exact goes_on made made' same
  | some p p' hp hp' types =>
    by_cases excluded : PropertyName.isExcluded name = true
    · simp only [excluded, if_true]
      exact goes_on made made' same
    · simp only [excluded]
      obtain ⟨e, he, type_e⟩ := left p hp
      obtain ⟨e', he', type_e'⟩ := right p' hp'
      have entries : Agree r s (fun e e' : Entry => e.type = e'.type) (make p.2) (make p'.2) :=
        .of_eval he he' (type_e.trans (types.trans type_e'.symm))
      exact entries.bind fun e e' type => goes_on _ _ (same.insert name type)

theorem getterEntries_agree (h : Comparable owner r s) (matched : Matched r s kept kept')
    (properties : List String) {made made' : Index Entry} (same : made.SameTypes made') :
    Agree r s Index.SameTypes
      (getterEntries owner (accessors .read (kept.map (·.2))) made properties)
      (getterEntries owner (accessors .read (kept'.map (·.2))) made' properties) := by
  induction properties generalizing made made' with
  | nil => exact .pure same
  | cons property rest ih =>
    have chosen := matched.filter (·.property? .read == some property)
    rw [getterEntries, getterEntries, candidates_kept fun p hp => (matched.left p hp).2,
      candidates_kept fun p hp => (matched.right p hp).2]
    refine pass_agree (resolveGetter_agree h property chosen) (fun p hp => ?_) (fun p hp => ?_)
      (fun _ _ => ih) same
    · obtain ⟨steady, erases⟩ := chosen.left p hp
      exact getterEntry_steady h.closed h.published steady erases
    · obtain ⟨steady, erases⟩ := chosen.right p hp
      exact getterEntry_steady h.symm.closed h.symm.published steady erases

theorem setterEntries_agree (h : Comparable owner r s) (matched : Matched r s kept kept')
    {readers readers' : Index Entry} (read : readers.SameTypes readers')
    (properties : List String) {made made' : Index Entry} (same : made.SameTypes made') :
    Agree r s Index.SameTypes
      (setterEntries owner (accessors .write (kept.map (·.2))) readers made properties)
      (setterEntries owner (accessors .write (kept'.map (·.2))) readers' made' properties) := by
  induction properties generalizing made made' with
  | nil => exact .pure same
  | cons property rest ih =>
    have chosen := matched.filter (·.property? .write == some property)
    rw [setterEntries, setterEntries, candidates_kept fun p hp => (matched.left p hp).2,
      candidates_kept fun p hp => (matched.right p hp).2, read property]
    refine pass_agree (resolveSetter_agree h property _ chosen) (fun p hp => ?_) (fun p hp => ?_)
      (fun _ _ => ih) same
    · obtain ⟨steady, erases⟩ := chosen.left p hp
      exact setterEntry_steady h.closed h.published steady erases
    · obtain ⟨steady, erases⟩ := chosen.right p hp
      exact setterEntry_steady h.symm.closed h.symm.published steady erases

/-! ## Fields -/

/-- Whether both sides have entries of the same types under the same names. -/
def Sides.SameTypes (a b : Sides) : Prop :=
  a.readers.SameTypes b.readers ∧ a.writers.SameTypes b.writers

theorem addField_agree (h : Comparable owner r s) {f : Field} (declared : r.Published f.declaring)
    (steady : r.Steady f.type) {made made' : Sides} (same : made.SameTypes made') :
    Agree r s Sides.SameTypes (addField owner made f) (addField owner made' f) := by
  obtain ⟨readers, writers⟩ := same
  obtain ⟨rigid, type, erased⟩ := steady
  -- the bindings may differ between the two registries, but a rigid type erases alike under any
  obtain ⟨generic, resolved, erases⟩ :=
    resolveField_steady h.closed h.published declared rigid erased
  obtain ⟨generic', resolved', erases'⟩ := resolveField_steady h.symm.closed h.symm.published
    (h.reordered.published declared) rigid (h.reordered.erase erased)
  simp only [addField, readers.contains f.name, writers.contains f.name]
  split
  · exact .pure ⟨readers, writers⟩
  · refine Agree.bind (R := fun g g' => g = generic ∧ g' = generic')
      (.of_eval (by rw [Growing.eval_read, resolved]) (by rw [Growing.eval_read, resolved'])
        ⟨rfl, rfl⟩) ?_
    rintro _ _ ⟨rfl, rfl⟩
    refine Agree.bind (R := fun t t' => t = t') (.of_eval erases erases' rfl) ?_
    rintro t _ rfl
    refine .pure (And.intro ?_ ?_)
    · refine Index.SameTypes.ite (readers.insert f.name ?_) readers
      rfl
    · refine Index.SameTypes.ite (writers.insert f.name ?_) writers
      rfl

theorem foldlM_addField_agree (h : Comparable owner r s) {fields : List Field}
    (declared : ∀ f ∈ fields, r.Published f.declaring) (steady : ∀ f ∈ fields, r.Steady f.type)
    {made made' : Sides} (same : made.SameTypes made') :
    Agree r s Sides.SameTypes (fields.foldlM (addField owner) made)
      (fields.foldlM (addField owner) made') := by
  induction fields generalizing made made' with
  | nil => exact .pure same
  | cons f rest ih =>
    obtain ⟨here, later⟩ := List.forall_mem_cons.mp declared
    obtain ⟨steady_here, steady_later⟩ := List.forall_mem_cons.mp steady
    rw [List.foldlM_cons, List.foldlM_cons]
    exact (addField_agree h here steady_here same).bind fun _ _ => ih later steady_later

theorem find_agree (h : r.Reordered s) (id : TypeId) :
    Agree r s (fun d e => r.find? id = some d ∧ d.Reordered e) (Growing.read (·.find id))
      (Growing.read (·.find id)) := by
  refine .read (fun d found => ?_) fun e found => ?_
  · obtain ⟨e, found', reordered⟩ := h.declared id d (Registry.find_eq_ok.mp found)
    exact ⟨e, Registry.find_eq_ok.mpr found', Registry.find_eq_ok.mp found, reordered⟩
  · obtain ⟨d, found', -⟩ := h.symm.declared id e (Registry.find_eq_ok.mp found)
    exact ⟨d, Registry.find_eq_ok.mpr found'⟩

theorem addFields_agree (h : Comparable owner r s) (limit room : Nat) {id : Option TypeId}
    (above : ∀ t ∈ id, Relation.ReflTransGen r.DeclaredSupertype owner t) {made made' : Sides}
    (same : made.SameTypes made') :
    Agree r s Sides.SameTypes (addFields owner limit room id made)
      (addFields owner limit room id made') := by
  induction room generalizing id made made' with
  | zero =>
    cases id with
    | none => exact .pure same
    | some id => exact .throw _ _
  | succ room ih =>
    cases id with
    | none => exact .pure same
    | some id =>
      rw [addFields, addFields]
      refine (find_agree h.reordered id).bind ?_
      rintro d e ⟨found, reordered⟩
      have up := above id rfl
      have declared : ∀ f ∈ d.fields, r.Published f.declaring := by
        intro f hf
        rw [Registry.declaring_of_mem_fields hf, Registry.id_of_find? found]
        exact .of_find? found
      rw [← reordered.fields]
      refine (foldlM_addField_agree h declared (h.steady.fields id d up found) same).bind ?_
      intro sides sides' added
      rw [Declaration.superclass?, Declaration.superclass?, ← reordered.superclass]
      refine ih (fun t parent => up.tail (.of_superclass ?_)) added
      rw [Registry.superclass?_of_find? found]
      exact Option.mem_toList.mpr parent

/-! ## Tables -/

/-- Whether two tables have the same names on either side, and the same types under them. -/
def Table.SameTypes (t u : Table) : Prop :=
  ∀ side, t.names side = u.names side ∧
    ∀ name, ((t.entries side).find? name).map (·.type) = ((u.entries side).find? name).map (·.type)

theorem build_agree (h : Comparable owner r s) (limit : Nat) :
    Agree r s Table.SameTypes (Table.build owner limit) (Table.build owner limit) := by
  rw [Table.build_eq]
  have names : Agree r s (fun n n' => n = n') (Growing.read (·.fullName owner))
      (Growing.read (·.fullName owner)) := by
    refine .read (fun n done => ⟨n, ?_, rfl⟩) fun n done => ⟨n, ?_⟩
    · exact h.reordered.fullName owner ▸ done
    · exact (h.reordered.fullName owner).trans done
  refine names.bind ?_
  rintro name _ rfl
  refine (collectMethods_agree h limit).bind ?_
  rintro _ _ ⟨kept, kept', rfl, rfl, matched⟩
  dsimp only
  rw [matched.propertiesOf .read, matched.propertiesOf .write]
  refine (getterEntries_agree h matched _ (.refl _)).bind fun readers readers' read => ?_
  refine (setterEntries_agree h matched read _ (.refl _)).bind fun writers writers' written => ?_
  have itself : ∀ t ∈ some owner, Relation.ReflTransGen r.DeclaredSupertype owner t := by
    intro t ht
    exact Option.mem_some.mp ht ▸ .refl
  refine (addFields_agree h limit limit itself ⟨read, written⟩).bind fun sides sides' same => ?_
  refine (find_agree h.reordered owner).bind fun d e _ => .pure fun side => ?_
  cases side with
  | read => exact ⟨same.1.names, same.1⟩
  | write => exact ⟨same.2.names, same.2⟩

/-- Where all members are steady, tables do not depend on the order of methods and interfaces. -/
theorem build_reordered (reordered : r.Reordered s) (reachable : r.Reachable)
    (closed : r.SupertypesPublished) (acyclic : r.Acyclic) (published : r.Published owner)
    (steady : r.SteadyAbove owner) (limit : Nat) :
    Agree r s Table.SameTypes (Table.build owner limit) (Table.build owner limit) :=
  build_agree ⟨reordered, closed, reachable.coherent.subtypeOrder closed acyclic, published, steady⟩
    limit

/-! ## Interfaces in two orders -/

namespace Registry

/-- Two interfaces that have a getter of one name. That of the first is of the root type. -/
def views (second : GenericType) : Registry :=
  (initial.declared "" "Plain" .interfaceType (·.getter "getX" (.named .object))).declared ""
    "Holder" .interfaceType fun d => (d.withTypeParam ⟨"T", []⟩).getter "getX" second

/-- The two interfaces together with a class that implements them. -/
def viewed (second : GenericType) (interfaces : List GenericType) : Registry :=
  (views second).declared "" "Both" .classType ({ · with interfaces := interfaces })

theorem viewed_reachable (second : GenericType) (interfaces : List GenericType) :
    (viewed second interfaces).Reachable :=
  ((Reachable.declared .refl _ _ _ _).declared _ _ _ _).declared _ _ _ _

theorem viewed_reordered (second : GenericType) {interfaces interfaces' : List GenericType}
    (perm : interfaces.Perm interfaces') :
    (viewed second interfaces).Reordered (viewed second interfaces') := by
  have slots (l : List GenericType) : (viewed second l).slots = (views second).slots ++
      [some { ((views second).reserve "" "Both" .classType).1 with interfaces := l }.declaration] :=
    rfl
  have same : List.Forall₂ (Option.Rel Declaration.Reordered) (views second).slots
      (views second).slots := by
    refine List.forall₂_same.mpr fun slot _ => ?_
    cases slot with
    | none => exact .none
    | some d => exact .some (.refl d)
  refine .of_slots rfl ?_
  rw [slots, slots]
  refine List.rel_append same (.cons (.some ?_) .nil)
  exact ⟨rfl, rfl, rfl, rfl, rfl, rfl, rfl, perm, .refl _, rfl, rfl⟩

theorem SteadyAbove.of_slots
    (methods : ∀ m ∈ r.slots.flatMap (·.elim [] (·.methods)),
      r.Steady m.returns ∧ ∀ t ∈ m.params, r.Steady t)
    (fields : ∀ f ∈ r.slots.flatMap (·.elim [] (·.fields)), r.Steady f.type) :
    r.SteadyAbove owner where
  methods id above m hm := by
    obtain ⟨d, found, listed⟩ := mem_methodsOf.mp hm
    have slot := List.mem_of_getElem? (find?_eq_some.mp found)
    exact methods m (List.mem_flatMap.mpr ⟨some d, slot, listed⟩)
  fields id d above found f hf := by
    have slot := List.mem_of_getElem? (find?_eq_some.mp found)
    exact fields f (List.mem_flatMap.mpr ⟨some d, slot, hf⟩)

end Registry

open Registry (viewed)

theorem build_reordered_viewed :
    let r := viewed (.named .string) [.named ⟨11⟩, .named ⟨12⟩]
    let s := viewed (.named .string) [.named ⟨12⟩, .named ⟨11⟩]
    r.Reordered s ∧ r.Reachable ∧ r.SupertypesPublished ∧ r.Acyclic ∧ r.Published ⟨13⟩ ∧
      r.SteadyAbove ⟨13⟩ ∧ ∃ t u, (Table.build ⟨13⟩ Table.defaultLimit).eval r = (.ok t, r) ∧
        (Table.build ⟨13⟩ Table.defaultLimit).eval s = (.ok u, s) ∧ t.SameTypes u ∧
        (t.readers.find? "x").map (·.type) = some .string := by
  intro r s
  have reordered : r.Reordered s := Registry.viewed_reordered _ (.swap _ _ [])
  have reachable : r.Reachable := Registry.viewed_reachable _ _
  have closed : r.SupertypesPublished := by decide
  have acyclic : r.Acyclic :=
    Registry.acyclic_of_rank (·.index) (Registry.forall_supertypes_iff.mpr (by decide))
  have published : r.Published ⟨13⟩ := by decide
  have steady : r.SteadyAbove ⟨13⟩ := by
    have methods : r.slots.flatMap (·.elim [] (·.methods)) =
        [MethodDraft.finish { name := "getX", returns := some (.named .object) } ⟨11⟩,
          MethodDraft.finish { name := "getX", returns := some (.named .string) } ⟨12⟩] := rfl
    have fields : r.slots.flatMap (·.elim [] (·.fields)) = [] := rfl
    have named (id : TypeId) : r.Steady (.named id) := ⟨True.intro, id, rfl⟩
    refine .of_slots ?_ ?_
    · rw [methods]
      simp [MethodDraft.finish, named]
    · rw [fields]
      simp
  have built : ((Table.build ⟨13⟩ Table.defaultLimit).eval r).1.toOption.map
      (fun t => (t.readers.find? "x").map (·.type)) = some (some .string) := by cbv
  rcases build_reordered reordered reachable closed acyclic published steady Table.defaultLimit
    with ⟨fault, _, failed, -⟩ | ⟨t, u, left, right, same⟩
  · rw [failed] at built
    cases built
  · rw [left] at built
    exact ⟨reordered, reachable, closed, acyclic, published, steady, t, u, left, right, same,
      Option.some.inj built⟩

theorem viewed_plain_first :
    ((Table.build ⟨13⟩ Table.defaultLimit).eval (viewed (.typeVar "T")
      [.named ⟨11⟩, .applied ⟨12⟩ [.named .string]])).1.toOption.map
        (fun t => (t.readers.find? "x").map (·.type)) = some (some .object) := by cbv

theorem viewed_holder_first :
    ((Table.build ⟨13⟩ Table.defaultLimit).eval (viewed (.typeVar "T")
      [.applied ⟨12⟩ [.named .string], .named ⟨11⟩])).1.toOption.map
        (fun t => (t.readers.find? "x").map (·.type)) = some (some .string) := by cbv

/-- Where a getter returns a variable, its type may depend on the order of the interfaces: of two
methods of one signature the first is kept, whatever the variable of the other stands for. -/
theorem build_depends_on_order :
    let r := viewed (.typeVar "T") [.named ⟨11⟩, .applied ⟨12⟩ [.named .string]]
    let s := viewed (.typeVar "T") [.applied ⟨12⟩ [.named .string], .named ⟨11⟩]
    r.Reordered s ∧ r.Reachable ∧ s.Reachable ∧ r.SupertypesPublished ∧ r.Acyclic ∧
      r.Published ⟨13⟩ ∧ ∃ t grown u grown',
        (Table.build ⟨13⟩ Table.defaultLimit).eval r = (.ok t, grown) ∧
        (Table.build ⟨13⟩ Table.defaultLimit).eval s = (.ok u, grown') ∧
        (t.readers.find? "x").map (·.type) = some .object ∧
        (u.readers.find? "x").map (·.type) = some .string ∧ ¬ t.SameTypes u := by
  intro r s
  have reordered : r.Reordered s := Registry.viewed_reordered _ (.swap _ _ [])
  have acyclic : r.Acyclic :=
    Registry.acyclic_of_rank (·.index) (Registry.forall_supertypes_iff.mpr (by decide))
  refine ⟨reordered, Registry.viewed_reachable _ _, Registry.viewed_reachable _ _, by decide,
    acyclic, by decide, ?_⟩
  obtain ⟨t, grown, done, object⟩ := Growing.exists_eval_of_map viewed_plain_first
  obtain ⟨u, grown', done', string⟩ := Growing.exists_eval_of_map viewed_holder_first
  refine ⟨t, grown, u, grown', done, done', object, string, fun same => ?_⟩
  have types : some TypeId.object = some TypeId.string :=
    object.symm.trans (((same .read).2 "x").trans string)
  cases types

end PropertyTables
