import PropertyTables.Proofs.First
import PropertyTables.Proofs.Generics.Lasting
import PropertyTables.Proofs.Hierarchy.Precedence
import Mathlib

/-! # What dispatch finds

* `findImplementation_interns`: dispatch does nothing to a registry but intern array types.
* `Method.Implements`: a method whose body may run for a wanted signature.
* `Signature.Best`: the implementation that counts in a list of methods: the first that returns what
  is wanted, or the first of all.
* `firstOverride_eq_some`: dispatch finds the best implementation of the first type that has one.
* `findImplementation_most_derived`: above a receiver whose interfaces form trees, no implementation
  overrides the one that is found. Where a type is named twice, one may.
-/

namespace PropertyTables
set_option autoImplicit false

open Growing (Lasting)

variable {r : Registry} {wanted : Signature}

/-! ## Looking for a body -/

theorem bestOverride_lasting (wanted : Signature) (covariant : Option Method)
    (methods : List Method) : Lasting (bestOverride wanted covariant methods) := by
  induction methods generalizing covariant with
  | nil => exact .pure covariant
  | cons m rest ih =>
    rw [bestOverride]
    split
    · refine m.signature_lasting.bind fun signature => ?_
      split
      · exact ih covariant
      · split
        · exact .pure (some m)
        · exact ih _
    · exact ih covariant

/-- A method that is found is the answer, and otherwise the search goes on. -/
theorem found_or_lasting {next : Growing (Option Method)} (h : Lasting next)
    (found : Option Method) :
    Lasting (match found with
      | some m => pure (some m)
      | none => next) := by
  cases found with
  | some m => exact .pure (some m)
  | none => exact h

theorem firstOverride_lasting (wanted : Signature) (ids : List TypeId) :
    Lasting (firstOverride wanted ids) := by
  induction ids with
  | nil => exact .pure none
  | cons id rest ih =>
    refine (Lasting.read (Registry.find_stable id)).bind fun d => ?_
    exact (bestOverride_lasting wanted none d.methods).bind (found_or_lasting ih)

/-- The types to ask are fixed once the wanted signature is erased. -/
theorem findImplementation_eval (receiver : TypeId) (m : Method) (r : Registry) :
    (findImplementation receiver m).eval r = match m.signature.eval r with
      | (.ok wanted, middle) =>
        (firstOverride wanted (middle.dispatchOrder receiver)).eval middle
      | (.error fault, middle) => (.error fault, middle) := by
  rw [findImplementation, Growing.eval_bind]
  rcases m.signature.eval r with ⟨fault | wanted, middle⟩ <;> rfl

theorem findImplementation_interns (receiver : TypeId) (m : Method) (r : Registry) :
    r.Interns ((findImplementation receiver m).eval r).2 := by
  rw [findImplementation_eval]
  rcases erased : m.signature.eval r with ⟨fault | wanted, middle⟩
  · exact m.signature_lasting.interns_of_eval erased
  · have first := m.signature_lasting.interns_of_eval erased
    exact first.trans ((firstOverride_lasting wanted _).interns middle)

/-! ## Implementations -/

/-- Whether a method has the wanted name and, once erased, the wanted parameters, a body and a
target. -/
def Method.Implements (r : Registry) (m : Method) (wanted : Signature) : Prop :=
  m.isCandidate wanted = true ∧
    ∃ signature, (m.signature.eval r).1 = .ok signature ∧ signature.params = wanted.params

/-- Whether a method implements the wanted signature, its return type included. -/
def Method.Restates (r : Registry) (m : Method) (wanted : Signature) : Prop :=
  m.isCandidate wanted = true ∧ (m.signature.eval r).1 = .ok wanted

theorem Method.Restates.implements {m : Method} (h : m.Restates r wanted) :
    m.Implements r wanted :=
  ⟨h.1, wanted, h.2, rfl⟩

theorem Method.restates_of_signature {m : Method} (candidate : m.isCandidate wanted = true)
    {signature : Signature} (erased : (m.signature.eval r).1 = .ok signature)
    (params : signature.params = wanted.params) (returns : signature.returns = wanted.returns) :
    m.Restates r wanted := by
  have named : m.name = wanted.name := by
    simp only [Method.isCandidate, Bool.and_eq_true, beq_iff_eq] at candidate
    exact candidate.1.1.1
  have own : signature.name = m.name := Method.signature_name (Prod.ext erased rfl)
  obtain ⟨name, ps, ret⟩ := signature
  obtain ⟨name', ps', ret'⟩ := wanted
  dsimp only at own named params returns
  subst own named params returns
  exact ⟨candidate, erased⟩

/-- The implementation that counts among some methods: the first that restates the wanted signature,
or the first of all where none does. -/
def Signature.Best (r : Registry) (wanted : Signature) (methods : List Method) (found : Method) :
    Prop :=
  FirstIn (·.Restates r wanted) methods found ∨
    (∀ m ∈ methods, ¬ m.Restates r wanted) ∧ FirstIn (·.Implements r wanted) methods found

theorem Signature.Best.mem {methods : List Method} {found : Method}
    (h : wanted.Best r methods found) : found ∈ methods := by
  rcases h with restated | ⟨-, first⟩
  · exact restated.mem
  · exact first.mem

theorem Signature.Best.implements {methods : List Method} {found : Method}
    (h : wanted.Best r methods found) : found.Implements r wanted := by
  rcases h with restated | ⟨-, first⟩
  · exact restated.holds.implements
  · exact first.holds

/-- What one candidate adds to a search that interns nothing. -/
theorem bestOverride_candidate {covariant result : Option Method} {m : Method} {rest : List Method}
    (candidate : m.isCandidate wanted = true)
    (done : (bestOverride wanted covariant (m :: rest)).eval r = (.ok result, r)) :
    ∃ signature, (m.signature.eval r).1 = .ok signature ∧
      if signature.params ≠ wanted.params then
        (bestOverride wanted covariant rest).eval r = (.ok result, r)
      else if signature.returns = wanted.returns then result = some m
      else (bestOverride wanted (covariant.or (some m)) rest).eval r = (.ok result, r) := by
  rw [bestOverride, if_pos candidate] at done
  obtain ⟨signature, erased, done⟩ := (m.signature_lasting.bind_settled fun signature => by
    split
    · exact bestOverride_lasting wanted covariant rest
    · split
      · exact .pure (some m)
      · exact bestOverride_lasting wanted _ rest).mp done
  refine ⟨signature, congrArg Prod.fst erased, ?_⟩
  split
  · rename_i differs
    rw [if_pos differs] at done
    exact done
  · rename_i agrees
    rw [if_neg agrees] at done
    split
    · rename_i exact_match
      rw [if_pos exact_match] at done
      cases done
      rfl
    · rename_i covariant_only
      rw [if_neg covariant_only] at done
      exact done

theorem bestOverride_eq_none {covariant : Option Method} {methods : List Method}
    (done : (bestOverride wanted covariant methods).eval r = (.ok none, r)) :
    covariant = none ∧ ∀ m ∈ methods, ¬ m.Implements r wanted := by
  induction methods generalizing covariant with
  | nil =>
    cases done
    exact ⟨rfl, by simp⟩
  | cons m rest ih =>
    by_cases candidate : m.isCandidate wanted = true
    · obtain ⟨signature, erased, done⟩ := bestOverride_candidate candidate done
      split at done
      · rename_i differs
        obtain ⟨none_before, none_after⟩ := ih done
        refine ⟨none_before, List.forall_mem_cons.mpr ⟨?_, none_after⟩⟩
        rintro ⟨-, other, same, agrees⟩
        obtain rfl := Except.ok.inj (erased.symm.trans same)
        exact differs agrees
      · split at done
        · cases done
        · have impossible := (ih done).1
          simp at impossible
    · rw [bestOverride, if_neg candidate] at done
      obtain ⟨none_before, none_after⟩ := ih done
      exact ⟨none_before, List.forall_mem_cons.mpr ⟨fun h => candidate h.1, none_after⟩⟩

/-- A search finds the first method that restates the wanted signature; without one, what it brought
along, or else the first implementation. -/
theorem bestOverride_eq_some {covariant : Option Method} {methods : List Method} {found : Method}
    (done : (bestOverride wanted covariant methods).eval r = (.ok (some found), r)) :
    FirstIn (·.Restates r wanted) methods found ∨
      (∀ m ∈ methods, ¬ m.Restates r wanted) ∧
        (covariant = some found ∨
          covariant = none ∧ FirstIn (·.Implements r wanted) methods found) := by
  induction methods generalizing covariant with
  | nil =>
    cases done
    exact .inr ⟨by simp, .inl rfl⟩
  | cons m rest ih =>
    -- a method that is no implementation is passed over
    have passing (useless : ¬ m.Implements r wanted)
        (done : (bestOverride wanted covariant rest).eval r = (.ok (some found), r)) :
        FirstIn (·.Restates r wanted) (m :: rest) found ∨
          (∀ m' ∈ m :: rest, ¬ m'.Restates r wanted) ∧ (covariant = some found ∨
            covariant = none ∧ FirstIn (·.Implements r wanted) (m :: rest) found) := by
      have unrestated : ¬ m.Restates r wanted := fun h => useless h.implements
      refine (ih done).imp (·.later unrestated) fun ⟨none_there, rest⟩ => ?_
      exact ⟨List.forall_mem_cons.mpr ⟨unrestated, none_there⟩,
        rest.imp_right fun ⟨nothing, first⟩ => ⟨nothing, first.later useless⟩⟩
    by_cases candidate : m.isCandidate wanted = true
    · obtain ⟨signature, erased, done⟩ := bestOverride_candidate candidate done
      split at done
      · rename_i differs
        refine passing ?_ done
        rintro ⟨-, other, same, agrees⟩
        obtain rfl := Except.ok.inj (erased.symm.trans same)
        exact differs agrees
      · rename_i agrees
        have agrees := not_not.mp agrees
        split at done
        · rename_i exact_match
          obtain rfl := Option.some.inj done
          exact .inl (.here rest (found.restates_of_signature candidate erased agrees exact_match))
        · rename_i differs
          have implements : m.Implements r wanted := ⟨candidate, signature, erased, agrees⟩
          have unrestated : ¬ m.Restates r wanted := by
            rintro ⟨-, same⟩
            exact differs (congrArg Signature.returns (Except.ok.inj (erased.symm.trans same)))
          refine (ih done).imp (·.later unrestated) fun ⟨none_there, rest⟩ => ?_
          refine ⟨List.forall_mem_cons.mpr ⟨unrestated, none_there⟩, ?_⟩
          cases covariant with
          | some earlier => simpa using rest
          | none =>
            obtain rfl : m = found := by simpa using rest
            exact .inr ⟨rfl, .here _ implements⟩
    · rw [bestOverride, if_neg candidate] at done
      exact passing (fun h => candidate h.1) done

/-- Whether a type declares an implementation. -/
def Registry.Implementing (r : Registry) (wanted : Signature) (id : TypeId) : Prop :=
  ∃ d, r.find? id = some d ∧ ∃ m ∈ d.methods, m.Implements r wanted

/-- A type by type search that interns nothing is done where the first type is, or goes on. -/
theorem firstOverride_step {id : TypeId} {rest : List TypeId} {result : Option Method}
    (done : (firstOverride wanted (id :: rest)).eval r = (.ok result, r)) :
    ∃ d, r.find? id = some d ∧ ∃ best,
      (bestOverride wanted none d.methods).eval r = (.ok best, r) ∧
        match best with
        | some found => result = some found
        | none => (firstOverride wanted rest).eval r = (.ok result, r) := by
  rw [firstOverride] at done
  have going_on := found_or_lasting (firstOverride_lasting wanted rest)
  obtain ⟨d, declared, done⟩ := ((Lasting.read (Registry.find_stable id)).bind_settled fun d =>
    (bestOverride_lasting wanted none d.methods).bind going_on).mp done
  obtain ⟨best, searched, done⟩ :=
    ((bestOverride_lasting wanted none d.methods).bind_settled going_on).mp done
  refine ⟨d, Registry.find_eq_ok.mp (congrArg Prod.fst declared), best, searched, ?_⟩
  cases best with
  | some found =>
    cases done
    rfl
  | none => exact done

theorem not_implementing {id : TypeId} {d : Declaration} (found : r.find? id = some d)
    (none_there : ∀ m ∈ d.methods, ¬ m.Implements r wanted) : ¬ r.Implementing wanted id := by
  rintro ⟨e, found', m, member, implements⟩
  obtain rfl := Option.some.inj (found.symm.trans found')
  exact none_there m member implements

/-- In a registry that is left alone, nothing is found where no type declares an implementation. -/
theorem firstOverride_eq_none {ids : List TypeId}
    (done : (firstOverride wanted ids).eval r = (.ok none, r)) :
    ∀ id ∈ ids, ¬ r.Implementing wanted id := by
  induction ids with
  | nil => simp
  | cons id rest ih =>
    obtain ⟨d, declared, best, searched, done⟩ := firstOverride_step done
    cases best with
    | some found => cases done
    | none =>
      have none_here := (bestOverride_eq_none searched).2
      exact List.forall_mem_cons.mpr ⟨not_implementing declared none_here, ih done⟩

/-- In a registry that is left alone, what is found is the best implementation of the first type that
declares one. -/
theorem firstOverride_eq_some {ids : List TypeId} {found : Method}
    (done : (firstOverride wanted ids).eval r = (.ok (some found), r)) :
    ∃ id d, FirstIn (r.Implementing wanted) ids id ∧ r.find? id = some d ∧
      wanted.Best r d.methods found := by
  induction ids with
  | nil => cases done
  | cons id rest ih =>
    obtain ⟨d, declared, best, searched, done⟩ := firstOverride_step done
    cases best with
    | some m =>
      obtain rfl := Option.some.inj done
      have best : wanted.Best r d.methods found := by
        refine (bestOverride_eq_some searched).imp_right fun ⟨none_there, rest⟩ => ?_
        exact ⟨none_there, (rest.resolve_left (by simp)).2⟩
      exact ⟨id, d, .here rest ⟨d, declared, found, best.mem, best.implements⟩, declared, best⟩
    | none =>
      obtain ⟨id', d', first, declared', best⟩ := ih done
      have passed := not_implementing declared (bestOverride_eq_none searched).2
      exact ⟨id', d', .later passed first, declared', best⟩

theorem firstOverride_settled {ids : List TypeId} {found : Method}
    (done : (firstOverride wanted ids).eval r = (.ok (some found), r)) :
    ∃ before id after d, ids = before ++ id :: after ∧ r.find? id = some d ∧ found ∈ d.methods ∧
      found.Implements r wanted ∧
      ∀ earlier ∈ before, ∀ e, r.find? earlier = some e →
        ∀ m ∈ e.methods, ¬ m.Implements r wanted := by
  obtain ⟨id, d, first, declared, best⟩ := firstOverride_eq_some done
  obtain ⟨before, after, split, passed⟩ := first.split
  refine ⟨before, id, after, d, split, declared, best.mem, best.implements, ?_⟩
  exact fun earlier listed e found' m member implements =>
    passed earlier listed ⟨e, found', m, member, implements⟩

/-! ## The most derived implementation -/

theorem findImplementation_settled {grown : Registry} {receiver : TypeId} {m found : Method}
    (closed : r.SupertypesPublished) (published : r.Published receiver)
    (done : (findImplementation receiver m).eval r = (.ok (some found), grown)) :
    r.GrowsTo grown ∧ ∃ wanted, m.signature.eval grown = (.ok wanted, grown) ∧
      (firstOverride wanted (r.dispatchOrder receiver)).eval grown = (.ok (some found), grown) := by
  rw [findImplementation_eval] at done
  rcases erased : m.signature.eval r with ⟨fault | wanted, middle⟩
  · rw [erased] at done
    cases done
  · rw [erased] at done
    have first := (m.signature_lasting.interns_of_eval erased).growsTo
    have second := ((firstOverride_lasting wanted _).interns_of_eval done).growsTo
    have order := Registry.dispatchOrder_later first (closed.dispatchOrder published)
    have again := (firstOverride_lasting wanted _).again done
    rw [order] at again
    exact ⟨first.trans second, wanted, m.signature_lasting.lasts _ _ _ _ erased second, again⟩

/-- Where the interfaces above a receiver form trees, dispatch finds a most derived implementation:
no subtype of the type that declares it, among those that are asked, declares one, too. -/
theorem findImplementation_most_derived {grown : Registry} {receiver : TypeId} {m found : Method}
    (closed : r.SupertypesPublished) (acyclic : r.Acyclic) (published : r.Published receiver)
    (tree : r.Treelike receiver)
    (done : (findImplementation receiver m).eval r = (.ok (some found), grown)) :
    ∃ wanted, m.signature.eval grown = (.ok wanted, grown) ∧ found.Implements grown wanted ∧
      (∃ d, r.find? found.declaring = some d ∧ found ∈ d.methods) ∧
      ∀ id ∈ r.dispatchOrder receiver,
        Relation.TransGen r.DeclaredSupertype id found.declaring →
          ∀ d, r.find? id = some d → ∀ c ∈ d.methods, ¬ c.Implements grown wanted := by
  obtain ⟨grows, wanted, erased, search⟩ := findImplementation_settled closed published done
  obtain ⟨before, id, after, d, order, declared, member, implements, passed⟩ :=
    firstOverride_settled search
  have listed := closed.dispatchOrder published
  have declared : r.find? id = some d := by
    rw [← grows.find? (listed id (by simp [order])), declared]
  have owner : found.declaring = id :=
    (d.members.methods_declaring found member).trans (Registry.id_of_find? declared)
  subst owner
  refine ⟨wanted, erased, implements, ⟨d, declared, member⟩, fun other there below e found' => ?_⟩
  have earlier := tree.precedes acyclic there below order
  exact passed other earlier e (by rw [grows.find? (listed other there), found'])

/-- A method that greets. -/
def greeting (text : String) : MethodDraft :=
  { name := "greet", returns := some (.named .string), body := some (.constant (.text text)) }

/-- Two interfaces that greet, the second below the first, and a class that implements some. -/
def Registry.greeters (interfaces : List TypeId) : Registry :=
  ((initial.declared "" "Base" .interfaceType (·.method (greeting "base"))).declared "" "Sub"
    .interfaceType fun d => (d.implementing (.named ⟨11⟩)).method (greeting "sub")).declared ""
      "Greeter" .classType fun d => interfaces.foldl (fun d id => d.implementing (.named id)) d

theorem findImplementation_most_derived_greeters :
    let r := Registry.greeters [⟨12⟩]
    let base := (greeting "base").finish ⟨11⟩
    let sub := (greeting "sub").finish ⟨12⟩
    r.SupertypesPublished ∧ r.Acyclic ∧ r.Published ⟨13⟩ ∧ r.Treelike ⟨13⟩ ∧
      (findImplementation ⟨13⟩ base).eval r = (.ok (some sub), r) ∧
      ∃ wanted, base.signature.eval r = (.ok wanted, r) ∧ sub.Implements r wanted := by
  intro r base sub
  have closed : r.SupertypesPublished := by decide
  have acyclic : r.Acyclic :=
    Registry.acyclic_of_rank (·.index) (Registry.forall_supertypes_iff.mpr (by decide))
  have published : r.Published ⟨13⟩ := by decide
  have order : r.dispatchOrder ⟨13⟩ = [⟨13⟩, .object, ⟨12⟩, ⟨11⟩] := by cbv
  have chain : r.superclassChain ⟨13⟩ = [⟨13⟩, .object] := by cbv
  have tree : r.Treelike ⟨13⟩ := by
    constructor <;> rw [order, chain] <;> decide
  have done : (findImplementation ⟨13⟩ base).eval r = (.ok (some sub), r) := by cbv
  obtain ⟨wanted, erased, implements, -⟩ :=
    findImplementation_most_derived closed acyclic published tree done
  exact ⟨closed, acyclic, published, tree, done, wanted, erased, implements⟩

/-- An interface that is named beside one that extends it is asked first, and what overrides its
body is passed over. -/
theorem findImplementation_passes_override :
    let r := Registry.greeters [⟨12⟩, ⟨11⟩]
    let base := (greeting "base").finish ⟨11⟩
    let sub := (greeting "sub").finish ⟨12⟩
    r.SupertypesPublished ∧ r.Acyclic ∧ r.Published ⟨13⟩ ∧
      (findImplementation ⟨13⟩ base).eval r = (.ok (some base), r) ∧
      ⟨12⟩ ∈ r.dispatchOrder ⟨13⟩ ∧ Relation.TransGen r.DeclaredSupertype ⟨12⟩ base.declaring ∧
      ∃ d, r.find? ⟨12⟩ = some d ∧ sub ∈ d.methods ∧
        ∃ wanted, base.signature.eval r = (.ok wanted, r) ∧ sub.Implements r wanted := by
  intro r base sub
  have acyclic : r.Acyclic :=
    Registry.acyclic_of_rank (·.index) (Registry.forall_supertypes_iff.mpr (by decide))
  have order : r.dispatchOrder ⟨13⟩ = [⟨13⟩, .object, ⟨11⟩, ⟨12⟩] := by cbv
  have edge : r.DeclaredSupertype ⟨12⟩ ⟨11⟩ := .of_superinterface (by decide)
  have wanted : base.signature.eval r = (.ok ⟨"greet", [], .string⟩, r) := by cbv
  have erased : (sub.signature.eval r).1 = .ok ⟨"greet", [], .string⟩ := by cbv
  refine ⟨by decide, acyclic, by decide, by cbv, by simp [order], .single edge, ?_⟩
  exact ⟨_, rfl, List.mem_singleton_self sub, _, wanted, by decide, _, erased, rfl⟩

end PropertyTables
