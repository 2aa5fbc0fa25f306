import PropertyTables.Proofs.Generics.SupertypePath

/-! # What unbound variables stand for

A type parameter that an owner leaves unbound stands for its first bound. The variables of that bound
are unbound as well.

* `StandsFor`: what a parameter stands for if the variables of its first bound are replaced by what
  they stand for in turn. `AcyclicBounds.existsUnique`: without cycles among the bounds, this is one
  type.
* `Substitution.shallow`: the first bound with the root type for its variables, whatever their own
  bounds are.
* `Registry.LeavesUnbound`: the owner is the declaring type, or inherits it without arguments.
  `LeavesUnbound.bindings`: then its variables stand for their shallow fallbacks.
* `unbound_variables`: so members of a parameter's type resolve to the shallow fallback, which is the
  one in turn exactly if the variables of the first bound stand for the root type.
* `fallback_stops_at_variable`: otherwise it is not.
-/

namespace PropertyTables
set_option autoImplicit false

/-! ## Fallbacks in turn -/

/-- The parameter that a variable refers to: the last of that name. -/
def paramNamed? (params : List TypeParam) (x : String) : Option TypeParam :=
  params.findRev? (·.name = x)

/-- What a variable stands for where nothing binds the parameters: the first bound, with every
variable in it replaced by what it stands for in turn. -/
inductive StandsFor (params : List TypeParam) : String → GenericType → Prop
  | undeclared {x : String} (unknown : paramNamed? params x = none) :
      StandsFor params x (.named .object)
  | unbounded {x : String} {p : TypeParam} (known : paramNamed? params x = some p)
      (free : p.bounds = []) : StandsFor params x (.named .object)
  | bounded {x : String} {p : TypeParam} {bound : GenericType} {others : List GenericType}
      {σ : Substitution} (known : paramNamed? params x = some p) (first : p.bounds = bound :: others)
      (parts : ∀ y ∈ bound.vars, StandsFor params y (σ y)) : StandsFor params x (bound.subst σ)

/-- Whether the first bound of one parameter mentions another. -/
def Mentions (params : List TypeParam) (x y : String) : Prop :=
  ∃ p bound others, paramNamed? params x = some p ∧ p.bounds = bound :: others ∧ y ∈ bound.vars

/-- Whether first bounds do not lead back to the parameter that they started from. -/
def AcyclicBounds (params : List TypeParam) : Prop :=
  ∀ x, ¬ Relation.TransGen (Mentions params) x x

theorem acyclicBounds_of_rank {params : List TypeParam} (rank : String → Nat)
    (lower : ∀ x y, Mentions params x y → rank y < rank x) : AcyclicBounds params :=
  not_transGen_self_of_rank rank lower

namespace GenericType

/-- Substitutions give one type exactly if they agree on its variables. -/
theorem subst_eq_subst_iff {σ τ : Substitution} {t : GenericType} :
    t.subst σ = t.subst τ ↔ ∀ x ∈ t.vars, σ x = τ x := by
  have lists {ts : List GenericType}
      (ih : ∀ t ∈ ts, t.subst σ = t.subst τ ↔ ∀ x ∈ t.vars, σ x = τ x) :
      ts.map (subst σ) = ts.map (subst τ) ↔ ∀ x ∈ ts.flatMap vars, σ x = τ x := by
    rw [List.map_inj_left]
    constructor
    · intro same x listed
      obtain ⟨t, member, occurs⟩ := List.mem_flatMap.mp listed
      exact (ih t member).mp (same t member) x occurs
    · intro agree t member
      exact (ih t member).mpr fun x occurs => agree x (List.mem_flatMap.mpr ⟨t, member, occurs⟩)
  induction t using induction_on_parts with
  | named id => simp [subst, vars]
  | applied raw args ih =>
    simp only [subst, vars, substAll_eq_map, varsAll_eq_flatMap, applied.injEq, true_and]
    exact lists ih
  | array component ih => simpa only [subst, vars, array.injEq] using ih
  | typeVar name => simp [subst, vars]
  | wildcard upper lower ihu ihl =>
    simp only [subst, vars, substAll_eq_map, varsAll_eq_flatMap, wildcard.injEq, lists ihu,
      lists ihl, List.forall_mem_append]

end GenericType

section
variable {params : List TypeParam} {x : String} {g h : GenericType}

theorem StandsFor.unique (hg : StandsFor params x g) (hh : StandsFor params x h) : g = h := by
  induction hg generalizing h with
  | undeclared unknown =>
    cases hh with
    | undeclared => rfl
    | unbounded known => cases unknown.symm.trans known
    | bounded known => cases unknown.symm.trans known
  | unbounded known free =>
    cases hh with
    | undeclared unknown => cases unknown.symm.trans known
    | unbounded => rfl
    | bounded known' first =>
      obtain rfl := Option.some.inj (known.symm.trans known')
      cases free.symm.trans first
  | bounded known first _ ih =>
    cases hh with
    | undeclared unknown => cases unknown.symm.trans known
    | unbounded known' free =>
      obtain rfl := Option.some.inj (known.symm.trans known')
      cases first.symm.trans free
    | bounded known' first' parts =>
      obtain rfl := Option.some.inj (known.symm.trans known')
      obtain ⟨rfl, -⟩ := List.cons.inj (first.symm.trans first')
      exact GenericType.subst_eq_subst_iff.mpr fun y occurs => ih y occurs (parts y occurs)

theorem paramNamed?_eq_none : paramNamed? params x = none ↔ ∀ p ∈ params, p.name ≠ x := by
  rw [paramNamed?, List.findRev?_eq_find?_reverse, List.find?_eq_none]
  simp

theorem mem_of_paramNamed? {p : TypeParam} (known : paramNamed? params x = some p) :
    p ∈ params ∧ p.name = x := by
  rw [paramNamed?, List.findRev?_eq_find?_reverse] at known
  have named := List.find?_some known
  exact ⟨List.mem_reverse.mp (List.mem_of_find?_eq_some known), of_decide_eq_true named⟩

/-- There are finitely many parameters, so that acyclic bounds lead to an end. -/
theorem AcyclicBounds.wellFounded (acyclic : AcyclicBounds params) :
    WellFounded fun y x => Mentions params x y := by
  let names := { x : String // x ∈ params.map (·.name) }
  let below (y x : names) : Prop := Relation.TransGen (Mentions params) x.1 y.1
  have : IsTrans names below := ⟨fun _ _ _ first second => second.trans first⟩
  have : Std.Irrefl below := ⟨fun x => acyclic x.1⟩
  have : Finite names := (List.finite_toSet _).to_subtype
  have ends : WellFounded below := Finite.wellFounded_of_trans_of_irrefl below
  -- what is no parameter mentions nothing
  have outside (x : String) (off : x ∉ params.map (·.name)) :
      Acc (fun y x => Mentions params x y) x := by
    refine .intro x fun y edge => ?_
    obtain ⟨p, bound, others, known, -, -⟩ := edge
    have unknown : paramNamed? params x = none :=
      paramNamed?_eq_none.mpr fun p listed same => off (List.mem_map.mpr ⟨p, listed, same⟩)
    cases unknown.symm.trans known
  have inside (x : names) : Acc (fun y x => Mentions params x y) x.1 := by
    induction x using ends.induction with
    | _ x ih =>
      refine .intro x.1 fun y edge => ?_
      by_cases listed : y ∈ params.map (·.name)
      · exact ih ⟨y, listed⟩ (.single edge)
      · exact outside y listed
  refine ⟨fun x => ?_⟩
  by_cases listed : x ∈ params.map (·.name)
  · exact inside ⟨x, listed⟩
  · exact outside x listed

/-- Without cycles among the bounds, every variable stands for one type. -/
theorem AcyclicBounds.existsUnique (acyclic : AcyclicBounds params) (x : String) :
    ∃! g, StandsFor params x g := by
  refine existsUnique_of_exists_of_unique ?_ fun _ _ => StandsFor.unique
  induction x using acyclic.wellFounded.induction with
  | _ x ih =>
    cases known : paramNamed? params x with
    | none => exact ⟨_, .undeclared known⟩
    | some p =>
      cases first : p.bounds with
      | nil => exact ⟨_, .unbounded known first⟩
      | cons bound others =>
        have each (y : String) : ∃ g, y ∈ bound.vars → StandsFor params y g := by
          by_cases occurs : y ∈ bound.vars
          · obtain ⟨g, stands⟩ := ih y ⟨p, bound, others, known, first, occurs⟩
            exact ⟨g, fun _ => stands⟩
          · exact ⟨.named .object, fun occurs' => absurd occurs' occurs⟩
        choose σ parts using each
        exact ⟨_, .bounded known first parts⟩

end

/-! ## Shallow fallbacks -/

/-- The first bound of each parameter, with the root type for its variables; the root type for a
parameter without bounds, and for what is no parameter. -/
def Substitution.shallow (params : List TypeParam) : Substitution := fun x =>
  (paramNamed? params x).elim (.named .object) (TypeParam.fallbackIn .unbound)

section
variable {params : List TypeParam} {x : String} {p : TypeParam}

theorem Bindings.lookup_fallbacks (params : List TypeParam) (x : String) :
    (fallbacks params).lookup x = (paramNamed? params x).map (TypeParam.fallbackIn .unbound) := by
  have lookup (ps : List TypeParam) : (ps.map fun p => (p.name, p.fallback [])).lookup x =
      (ps.find? (·.name = x)).map (TypeParam.fallback []) := by
    induction ps with
    | nil => rfl
    | cons p rest ih =>
      rw [List.map_cons, Index.lookup_cons_eq, ih, List.find?_cons]
      by_cases here : p.name = x
      · simp [here]
      · simp [here, Ne.symm here]
  rw [fallbacks, ← List.map_reverse, lookup, paramNamed?, List.findRev?_eq_find?_reverse,
    funext (TypeParam.fallback_eq [])]
  rfl

theorem Bindings.value_fallbacks (params : List TypeParam) :
    (fallbacks params).value = .shallow params := by
  funext x
  rw [value, lookup_fallbacks, Substitution.shallow]
  cases paramNamed? params x <;> rfl

theorem standsFor_bounded_iff {bound g : GenericType} {others : List GenericType}
    (known : paramNamed? params x = some p) (first : p.bounds = bound :: others) :
    StandsFor params x g ↔
      ∃ σ : Substitution, (∀ y ∈ bound.vars, StandsFor params y (σ y)) ∧ bound.subst σ = g := by
  constructor
  · intro stands
    cases stands with
    | undeclared unknown => cases unknown.symm.trans known
    | unbounded known' free =>
      obtain rfl := Option.some.inj (known.symm.trans known')
      cases first.symm.trans free
    | @bounded _ _ _ _ σ known' first' parts =>
      obtain rfl := Option.some.inj (known.symm.trans known')
      obtain ⟨rfl, -⟩ := List.cons.inj (first.symm.trans first')
      exact ⟨σ, parts, rfl⟩
  · rintro ⟨σ, parts, rfl⟩
    exact .bounded known first parts

/-- The shallow fallback is the one in turn exactly if the variables of the first bound stand for
the root type. -/
theorem shallow_standsFor_iff : StandsFor params x (Substitution.shallow params x) ↔
    ∀ y, Mentions params x y → StandsFor params y (.named .object) := by
  rw [Substitution.shallow]
  constructor
  · rintro stands y ⟨p, bound, others, known, first, occurs⟩
    rw [known, Option.elim_some, TypeParam.fallbackIn, first] at stands
    obtain ⟨σ, parts, same⟩ := (standsFor_bounded_iff known first).mp stands
    have root : σ y = .named .object := GenericType.subst_eq_subst_iff.mp same y occurs
    exact root ▸ parts y occurs
  · intro roots
    cases known : paramNamed? params x with
    | none => exact .undeclared known
    | some p =>
      rw [Option.elim_some, TypeParam.fallbackIn]
      cases first : p.bounds with
      | nil => exact .unbounded known first
      | cons bound others =>
        exact .bounded known first fun y occurs => roots y ⟨p, bound, others, known, first, occurs⟩

end

/-! ## Owners that bind nothing -/

namespace Registry
variable {r : Registry} {owner declaring : TypeId}

/-- Whether an owner leaves the parameters of a type unbound: it is that type, or inherits it, and
nothing from the owner upward names it with arguments. -/
inductive LeavesUnbound (r : Registry) (owner declaring : TypeId) : Prop
  | itself (same : owner = declaring)
  | raw (closed : r.SupertypesPublished)
      (above : Relation.ReflTransGen r.DeclaredSupertype owner declaring)
      (written : ∀ id d, Relation.ReflTransGen r.DeclaredSupertype owner id → r.find? id = some d →
        ∀ clause ∈ d.clauses, clause.raw? = some declaring → clause.args = [])

theorem typeParams_of_find? {id : TypeId} {d : Declaration} (found : r.find? id = some d) :
    r.typeParams id = d.typeParams := by
  rw [typeParams, found, Option.elim_some]

/-- A type as its own owner. -/
theorem bindings_self {d : Declaration} (found : r.find? declaring = some d) :
    r.bindings declaring declaring = .ok (.fallbacks d.typeParams) := by
  have own := typeParams_of_find? found
  have bound : declaring.index < r.size := lt_size_of_find? found
  rw [bindings, preorder]
  simp [unbound, bound, own, firstBindings, find_eq_ok.mpr found]
  rfl

theorem SupertypePath.above {path : List GenericType} {t : TypeId} {σ : Substitution}
    (h : r.SupertypePath owner path t σ) : Relation.ReflTransGen r.DeclaredSupertype owner t := by
  induction h with
  | start => exact .refl
  | step _ found written names _ ih =>
    exact ih.tail (declaredSupertype_iff.mpr ⟨_, found, _, written, names⟩)

/-- What an owner leaves unbound stands for its shallow fallback. -/
theorem LeavesUnbound.bindings (h : r.LeavesUnbound owner declaring) {d : Declaration}
    (found : r.find? declaring = some d) :
    ∃ env, r.bindings owner declaring = .ok env ∧ env.value = .shallow d.typeParams := by
  cases h with
  | itself same =>
    subst same
    exact ⟨_, bindings_self found, Bindings.value_fallbacks d.typeParams⟩
  | raw closed above written =>
    obtain ⟨env, path, ok, along⟩ :=
      bindings_eq_ok closed (published_of_path (.of_find? found) above) above
    refine ⟨env, ok, ?_⟩
    have own := typeParams_of_find? found
    have fallbacks := Bindings.fallbacks_assigns (r.typeParams declaring)
    have same : env.value = (Bindings.fallbacks (r.typeParams declaring)).value := by
      cases along with
      | start own => exact own.unique fallbacks (List.length_map _)
      | step below here listed names passed =>
        have none := written _ _ below.above here _ listed names
        rw [passedValues, none] at passed
        exact passed.unique fallbacks (List.length_map _)
    rw [same, own, Bindings.value_fallbacks]

/-- What members of a variable's type resolve to: fields, and the returned values and the parameters
of methods that have no variable of that name themselves. -/
structure ResolvesVariable (r : Registry) (owner : TypeId) (d : Declaration) (x : String)
    (g : GenericType) : Prop where
  fields : ∀ f ∈ d.fields, f.type = .typeVar x → r.resolveField f owner = .ok g
  returns : ∀ m ∈ d.methods, (∀ p ∈ m.typeParams, p.name ≠ x) → m.returns = .typeVar x →
    r.resolveReturn m owner = .ok g
  params : ∀ m ∈ d.methods, (∀ p ∈ m.typeParams, p.name ≠ x) → ∃ ts : List GenericType,
    r.resolveParams m owner = .ok ts ∧
      ∀ i : Nat, m.params[i]? = some (.typeVar x) → ts[i]? = some g

end Registry

/-- A method's own variables change nothing about others. -/
theorem Substitution.extend_of_ne {σ : Substitution} {params : List TypeParam} {x : String}
    (off : ∀ p ∈ params, p.name ≠ x) : σ.extend params x = σ x := by
  induction params generalizing σ with
  | nil => rfl
  | cons p rest ih =>
    obtain ⟨here, later⟩ := List.forall_mem_cons.mp off
    show Substitution.extend (Function.update σ p.name (p.fallbackIn σ)) rest x = σ x
    rw [ih later, Function.update_of_ne (Ne.symm here)]

theorem Registry.SeesThrough.resolvesVariable {r : Registry} {owner : TypeId} {d : Declaration}
    {σ : Substitution} (h : r.SeesThrough owner d σ) (x : String) :
    r.ResolvesVariable owner d x (σ x) where
  fields f listed type := by rw [h.fields f listed, type, GenericType.subst]
  returns m listed off type := by
    rw [h.returns m listed, type, GenericType.subst, Substitution.extend_of_ne off]
  params m listed off := by
    refine ⟨_, h.params m listed, fun i written => ?_⟩
    rw [List.getElem?_map, written, Option.map_some, GenericType.subst,
      Substitution.extend_of_ne off]

/-- Members of the type of an unbound parameter resolve to its first bound with the root type for the
variables in it. This is what the parameter stands for in turn exactly if those variables stand for
the root type, and it is the root type itself exactly if there is no bound, or the first one is the
root type or a variable. -/
theorem unbound_variables {r : Registry} {owner declaring : TypeId} {d : Declaration}
    (found : r.find? declaring = some d) (unbound : r.LeavesUnbound owner declaring)
    (acyclic : AcyclicBounds d.typeParams) (x : String) :
    r.ResolvesVariable owner d x (Substitution.shallow d.typeParams x) ∧
    (∃ g, (∀ h, StandsFor d.typeParams x h ↔ h = g) ∧
      (Substitution.shallow d.typeParams x = g ↔
        ∀ y, Mentions d.typeParams x y → StandsFor d.typeParams y (.named .object))) ∧
    ∀ p, paramNamed? d.typeParams x = some p →
      (Substitution.shallow d.typeParams x = .named .object ↔
        ∀ bound ∈ p.bounds.head?, bound = .named .object ∨ ∃ y, bound = .typeVar y) := by
  obtain ⟨env, ok, value⟩ := unbound.bindings found
  have sees : r.SeesThrough owner d env.value :=
    Registry.seesThrough_of_bindings ((Registry.id_of_find? found).symm ▸ ok)
  obtain ⟨g, stands, only⟩ := acyclic.existsUnique x
  refine ⟨value ▸ sees.resolvesVariable x, ⟨g, fun h => ?_, ?_⟩, fun p known => ?_⟩
  · exact ⟨only h, fun same => same ▸ stands⟩
  · rw [← shallow_standsFor_iff]
    exact ⟨fun same => same ▸ stands, only _⟩
  · rw [Substitution.shallow, known, Option.elim_some, TypeParam.fallbackIn]
    cases p.bounds with
    | nil => simp
    | cons bound others =>
      cases bound <;> simp [GenericType.subst, Substitution.unbound]

/-! ## A holder of numbers -/

def holderParams : List TypeParam :=
  [⟨"T", [.named ⟨11⟩]⟩, ⟨"U", [.typeVar "T"]⟩, ⟨"W", [.applied ⟨12⟩ [.typeVar "V"]]⟩, ⟨"V", []⟩]

theorem holderParams_acyclic : AcyclicBounds holderParams := by
  refine acyclicBounds_of_rank
    (fun x => if x = "U" then 2 else if x = "T" ∨ x = "W" then 1 else 0) ?_
  rintro x y ⟨p, bound, others, known, first, occurs⟩
  obtain ⟨listed, rfl⟩ := mem_of_paramNamed? known
  simp only [holderParams, List.mem_cons, List.not_mem_nil, or_false] at listed
  rcases listed with rfl | rfl | rfl | rfl
  · cases first
    cases occurs
  · cases first
    obtain rfl := List.mem_singleton.mp occurs
    decide
  · cases first
    obtain rfl := List.mem_singleton.mp occurs
    decide
  · cases first

/-- A class with four parameters, two of which are bounded by a number, one by a box, and one not at
all, and a class that extends it without arguments. -/
def Registry.holding : Registry :=
  (((initial.declared "" "Number" .classType id).declared "" "Box" .interfaceType
    (·.withTypeParam ⟨"E", []⟩)).declared "" "Holder" .classType fun d =>
      ((holderParams.foldl Draft.withTypeParam d).getter "getU" (.typeVar "U")).getter "getW"
        (.typeVar "W")).declared "" "Raw" .classType (·.extending (.named ⟨13⟩))

def holderGetter (name x : String) : Method :=
  MethodDraft.finish { name := name, returns := some (.typeVar x) } ⟨13⟩

theorem exists_holder : ∃ d, Registry.holding.find? ⟨13⟩ = some d ∧ d.typeParams = holderParams ∧
    d.methods = [holderGetter "getU" "U", holderGetter "getW" "W"] :=
  ⟨_, rfl, rfl, rfl⟩

theorem holding_raw : Registry.holding.LeavesUnbound ⟨14⟩ ⟨13⟩ := by
  have edge : Registry.holding.DeclaredSupertype ⟨14⟩ ⟨13⟩ := .of_superclass (by decide)
  refine .raw (by decide) (.single edge) fun id d _ found clause listed names => ?_
  have below : Registry.holding.DeclaredSupertype id ⟨13⟩ :=
    Registry.declaredSupertype_iff.mpr ⟨d, found, clause, listed, names⟩
  have only (s t : TypeId) (edge : Registry.holding.DeclaredSupertype s t) :
      t = ⟨13⟩ → s = ⟨14⟩ := by
    revert s t
    exact Registry.forall_supertypes_iff.mpr (by decide)
  obtain rfl := only id ⟨13⟩ below rfl
  cases found
  obtain rfl := List.mem_singleton.mp listed
  rfl

/-- What the variable of a bound stands for is the root type here, so that nothing is lost. -/
theorem unbound_variables_holding : ∃ d, Registry.holding.find? ⟨13⟩ = some d ∧
    Registry.holding.LeavesUnbound ⟨14⟩ ⟨13⟩ ∧ AcyclicBounds d.typeParams ∧
    holderGetter "getW" "W" ∈ d.methods ∧
    Registry.holding.resolveReturn (holderGetter "getW" "W") ⟨14⟩ =
      .ok (.applied ⟨12⟩ [.named .object]) ∧
    StandsFor d.typeParams "W" (.applied ⟨12⟩ [.named .object]) := by
  obtain ⟨d, found, params, methods⟩ := exists_holder
  have acyclic : AcyclicBounds d.typeParams := params ▸ holderParams_acyclic
  have member : holderGetter "getW" "W" ∈ d.methods := by simp [methods]
  obtain ⟨resolves, ⟨g, stands, same_iff⟩, -⟩ := unbound_variables found holding_raw acyclic "W"
  have shallow : Substitution.shallow d.typeParams "W" = .applied ⟨12⟩ [.named .object] := by
    rw [params]
    rfl
  have roots (y : String) (edge : Mentions d.typeParams "W" y) :
      StandsFor d.typeParams y (.named .object) := by
    rw [params] at edge ⊢
    obtain ⟨p, bound, others, known, first, occurs⟩ := edge
    cases known
    cases first
    obtain rfl := List.mem_singleton.mp occurs
    exact .unbounded rfl rfl
  rw [shallow] at resolves same_iff
  refine ⟨d, found, holding_raw, acyclic, member, ?_, (stands _).mpr (same_iff.mpr roots)⟩
  exact resolves.returns _ member (fun p listed => absurd listed List.not_mem_nil) rfl

/-- A bound that is a variable is lost, although that variable is bounded by a number. -/
theorem fallback_stops_at_variable : ∃ d, Registry.holding.find? ⟨13⟩ = some d ∧
    Registry.holding.LeavesUnbound ⟨13⟩ ⟨13⟩ ∧ AcyclicBounds d.typeParams ∧
    holderGetter "getU" "U" ∈ d.methods ∧ (holderGetter "getU" "U").returns = .typeVar "U" ∧
    StandsFor d.typeParams "U" (.named ⟨11⟩) ∧
    Registry.holding.resolveReturn (holderGetter "getU" "U") ⟨13⟩ = .ok (.named .object) := by
  obtain ⟨d, found, params, methods⟩ := exists_holder
  have number : StandsFor holderParams "T" ((GenericType.named ⟨11⟩).subst .unbound) :=
    .bounded rfl rfl fun y occurs => absurd occurs List.not_mem_nil
  have stands : StandsFor holderParams "U" ((GenericType.typeVar "T").subst fun _ => .named ⟨11⟩) :=
    .bounded rfl rfl fun y occurs => List.mem_singleton.mp occurs ▸ number
  refine ⟨d, found, .itself rfl, params ▸ holderParams_acyclic, by simp [methods], rfl, ?_, by cbv⟩
  rw [params]
  exact stands

end PropertyTables
