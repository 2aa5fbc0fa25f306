import PropertyTables.Proofs.Hierarchy.GrowingWalks
import PropertyTables.Proofs.Registry.Failures
import PropertyTables.Proofs.Table.Passes
import PropertyTables.Proofs.Table.Safety

/-! # How building a table fails

Nothing is assumed of the registry here; types may be undeclared and hierarchies cyclic.

* `isAssignable_lacking`, `bindings_lacking`, ...: what nothing but an undeclared type stops.
* `getterEntries_failsOnly`, `setterEntries_failsOnly`: a pass over accessors can find some of them
  ambiguous, besides.
* `Fault.OfAnyBuild`: an undeclared type, or one of the faults that closed registries leave.
* `build_failsOnly`: building a table ends with no other fault, so that for want of a property it
  never fails.
-/

namespace PropertyTables
set_option autoImplicit false

namespace Registry
variable (r : Registry)

/-! ## Resolution -/

theorem firstBindings_lacking (declaring : TypeId) (nodes : List BoundType) :
    FailsOnly r.Lacks (r.firstBindings declaring nodes) := by
  induction nodes with
  | nil => exact .ok none
  | cons b rest ih =>
    rw [firstBindings]
    split
    · rename_i fault failed
      exact .error (r.find_lacking b.id fault failed)
    · split
      · exact .ok _
      · exact ih

theorem bindings_lacking (owner declaring : TypeId) :
    FailsOnly r.Lacks (r.bindings owner declaring) := by
  refine (r.firstBindings_lacking declaring _).bind fun found => ?_
  cases found with
  | some env => exact .ok env
  | none => exact (r.find_lacking declaring).map _

theorem methodBindings_lacking (m : Method) (owner : TypeId) :
    FailsOnly r.Lacks (r.methodBindings m owner) :=
  (r.bindings_lacking owner m.declaring).map _

theorem resolveReturn_lacking (m : Method) (owner : TypeId) :
    FailsOnly r.Lacks (r.resolveReturn m owner) :=
  (r.methodBindings_lacking m owner).map _

theorem resolveParams_lacking (m : Method) (owner : TypeId) :
    FailsOnly r.Lacks (r.resolveParams m owner) :=
  (r.methodBindings_lacking m owner).map _

theorem resolveField_lacking (f : Field) (owner : TypeId) :
    FailsOnly r.Lacks (r.resolveField f owner) :=
  (r.bindings_lacking owner f.declaring).map _

/-! ## Subtyping -/

theorem findAmong_lacking (target : TypeId) (ids : List TypeId) :
    FailsOnly r.Lacks (r.findAmong target ids) := by
  induction ids with
  | nil => exact .ok false
  | cons id rest ih =>
    rw [findAmong]
    split
    · exact .ok true
    · split
      · rename_i fault failed
        exact .error (r.find_lacking id fault failed)
      · exact ih

theorem isAssignable_lacking (target source : TypeId) :
    FailsOnly r.Lacks (r.isAssignable target source) := by
  by_cases same : target = source
  · rw [isAssignable, if_pos same]
    exact .ok true
  · rw [isAssignable_of_ne r same]
    refine (r.find_lacking target).bind_of fun t found => ?_
    refine (r.find_lacking source).bind fun s => ?_
    split
    · exact .ok false
    · split
      · exact .ok true
      · split
        · rename_i component element above below
          -- the components are asked next, and come before the array types
          have smaller := component_lt_of_find? (find_eq_ok.mp found) above
          exact isAssignable_lacking component element
        · exact .ok false
        · exact .ok false
        · exact r.findAmong_lacking target _
termination_by target.index

/-! ## Preference -/

theorem prefersGetter_lacking (a b : Overload) :
    FailsOnly r.Lacks (r.prefersGetter a b) := by
  rw [prefersGetter]
  split
  · exact .ok _
  · exact r.isAssignable_lacking b.type a.type

theorem prefersToAll_lacking (a : Overload) (others : List Overload) :
    FailsOnly r.Lacks (r.prefersToAll a others) := by
  induction others with
  | nil => exact .ok true
  | cons b rest ih => exact (r.prefersGetter_lacking a b).ite ih (.ok false)

theorem preferredGetter?_lacking (before after : List Overload) :
    FailsOnly r.Lacks (r.preferredGetter? before after) := by
  induction after generalizing before with
  | nil => exact .ok none
  | cons a rest ih => exact (r.prefersToAll_lacking a _).ite (.ok _) (ih _)

theorem assignableToAll_lacking (type : TypeId) (others : List Overload) :
    FailsOnly r.Lacks (r.assignableToAll type others) := by
  induction others with
  | nil => exact .ok true
  | cons b rest ih => exact (r.isAssignable_lacking b.type type).ite ih (.ok false)

theorem narrowestSetter?_lacking (all others : List Overload) :
    FailsOnly r.Lacks (r.narrowestSetter? all others) := by
  induction others with
  | nil => exact .ok none
  | cons a rest ih => exact (r.assignableToAll_lacking a.type all).ite (.ok _) ih

theorem incomparable_lacking (a b : TypeId) :
    FailsOnly r.Lacks (r.incomparable a b) :=
  (r.isAssignable_lacking a b).ite (.ok false)
    ((r.isAssignable_lacking b a).map _)

theorem incomparableWith?_lacking (a : Overload) (others : List Overload) :
    FailsOnly r.Lacks (r.incomparableWith? a others) := by
  induction others with
  | nil => exact .ok none
  | cons b rest ih => exact (r.incomparable_lacking a.type b.type).ite (.ok _) ih

theorem incomparablePair?_lacking (all : List Overload) :
    FailsOnly r.Lacks (r.incomparablePair? all) := by
  induction all with
  | nil => exact .ok none
  | cons a rest ih =>
    refine (r.incomparableWith?_lacking a rest).bind fun found => ?_
    cases found with
    | some b => exact .ok _
    | none => exact ih

/-! ## Choice -/

section Choice
variable {allowed : Fault → Prop} (undeclared : ∀ id, allowed (.typeNotFound id))
  {property : String}
include undeclared

theorem chooseGetter_failsOnly (ambiguous : ∀ owner, allowed (.ambiguousGetter property owner))
    (first : Overload) (others : List Overload) :
    FailsOnly allowed (r.chooseGetter property first others) := by
  have lacking {α : Type} {x : Except Fault α} (h : FailsOnly r.Lacks x) : FailsOnly allowed x :=
    h.mono fun _ lacks => lacks.admitted undeclared
  have fails : FailsOnly allowed (do
      throw (.ambiguousGetter property (← r.fullName first.method.declaring)) :
        Except Fault Method) :=
    (lacking (r.fullName_lacking _)).bind fun owner => .error (ambiguous owner)
  rw [chooseGetter]
  split
  · exact fails
  · refine (lacking (r.preferredGetter?_lacking [] _)).bind fun winner => ?_
    cases winner with
    | some winner => exact .ok _
    | none => exact fails

theorem chooseSetter_failsOnly
    (ambiguous : ∀ owner a b, allowed (.ambiguousSetter property owner a b))
    (readType : Option TypeId) (first second : Overload) (others : List Overload) :
    FailsOnly allowed (r.chooseSetter property readType first second others) := by
  have lacking {α : Type} {x : Except Fault α} (h : FailsOnly r.Lacks x) : FailsOnly allowed x :=
    h.mono fun _ lacks => lacks.admitted undeclared
  unfold chooseSetter
  dsimp only
  split
  · exact .ok _
  · refine (lacking (r.narrowestSetter?_lacking _ _)).bind fun winner => ?_
    cases winner with
    | some winner => exact .ok _
    | none =>
      refine (lacking (r.incomparablePair?_lacking _)).bind fun pair => ?_
      refine (lacking (r.fullName_lacking _)).bind fun owner => ?_
      refine (lacking (r.fullName_lacking _)).bind fun a => ?_
      refine (lacking (r.fullName_lacking _)).bind fun b => ?_
      exact .error (ambiguous owner a b)

end Choice

end Registry

section Phases
variable {allowed : Fault → Prop} (undeclared : ∀ id, allowed (.typeNotFound id)) {limit : Nat}

/-! ## Discovery -/

theorem addUnique_lacking (kept : List (Signature × Method)) (methods : List Method) :
    (addUnique kept methods).FailsLacking := by
  induction methods generalizing kept with
  | nil => exact .pure kept
  | cons m rest ih =>
    rw [addUnique]
    split
    · exact ih kept
    · refine m.signature_lacking.bind fun signature => ?_
      split
      · exact ih kept
      · exact ih _

theorem collectFrom_lacking (kept : List (Signature × Method)) (ids : List TypeId) :
    (collectFrom kept ids).FailsLacking := by
  induction ids generalizing kept with
  | nil => exact .pure kept
  | cons id rest ih =>
    exact (Growing.FailsLacking.read (Registry.find_lacking · id)).bind fun d =>
      (addUnique_lacking kept d.methods).bind ih

include undeclared in
theorem classChain_failsOnly (deep : allowed (.recursionLimit limit)) (r : Registry) (room : Nat)
    (id : Option TypeId) : FailsOnly allowed (r.classChain limit room id) := by
  induction room generalizing id with
  | zero =>
    cases id with
    | none => exact .ok _
    | some id =>
      rw [Registry.classChain]
      split
      · exact .ok _
      · exact .error deep
  | succ room ih =>
    cases id with
    | none => exact .ok _
    | some id =>
      rw [Registry.classChain]
      split
      · exact .ok _
      · exact ((r.find_lacking id).mono fun _ lacks => lacks.admitted undeclared).bind fun d =>
          (ih d.superclass?).map _

include undeclared in
theorem collectMethods_failsOnly (deep : allowed (.recursionLimit limit)) (type : TypeId) :
    (collectMethods type limit).FailsOnly allowed :=
  (Growing.FailsOnly.read (classChain_failsOnly undeclared deep · limit (some type))).bind fun _ =>
    Growing.FailsOnly.get.bind fun _ => ((collectFrom_lacking [] _).failsOnly undeclared).map _

/-! ## Entries of methods -/

theorem getterOverload_lacking (m : Method) : (getterOverload m).FailsLacking :=
  (m.eraseDeclared_lacking m.returns).map _

theorem setterOverload_lacking (m : Method) : (setterOverload m).FailsLacking :=
  (m.eraseDeclared_lacking _).map _

theorem getterEntry_lacking (owner : TypeId) (m : Method) : (getterEntry owner m).FailsLacking :=
  (Growing.FailsLacking.read (Registry.resolveReturn_lacking · m owner)).bind fun generic =>
    generic.erase_lacking.map _

theorem setterEntry_lacking (owner : TypeId) (m : Method) : (setterEntry owner m).FailsLacking :=
  (Growing.FailsLacking.read (Registry.resolveParams_lacking · m owner)).bind fun generics =>
    (generics.headD (.named .object)).erase_lacking.map _

include undeclared

theorem resolveGetter_failsOnly {property : String}
    (ambiguous : ∀ owner, allowed (.ambiguousGetter property owner)) (methods : List Method) :
    (resolveGetter property methods).FailsOnly allowed := by
  match methods with
  | [] => exact .pure none
  | [single] => exact .pure (some single)
  | first :: second :: others =>
    refine ((getterOverload_lacking first).failsOnly undeclared).bind fun a => ?_
    refine ((Growing.FailsLacking.mapM getterOverload_lacking _).failsOnly undeclared).bind ?_
    intro rest
    refine Growing.FailsOnly.map (.read fun r => ?_) _
    exact r.chooseGetter_failsOnly undeclared ambiguous a rest

theorem resolveSetter_failsOnly {property : String}
    (ambiguous : ∀ owner a b, allowed (.ambiguousSetter property owner a b))
    (readType : Option TypeId) (methods : List Method) :
    (resolveSetter property readType methods).FailsOnly allowed := by
  match methods with
  | [] => exact .pure none
  | [single] => exact .pure (some single)
  | first :: second :: others =>
    refine ((setterOverload_lacking first).failsOnly undeclared).bind fun a => ?_
    refine ((setterOverload_lacking second).failsOnly undeclared).bind fun b => ?_
    refine ((Growing.FailsLacking.mapM setterOverload_lacking _).failsOnly undeclared).bind ?_
    intro rest
    refine Growing.FailsOnly.map (.read fun r => ?_) _
    exact r.chooseSetter_failsOnly undeclared ambiguous readType a b rest

omit undeclared in
theorem passEntries_failsOnly {resolve : String → Growing (Option Method)}
    {make : Method → Growing Entry} (resolves : ∀ property, (resolve property).FailsOnly allowed)
    (makes : ∀ m, (make m).FailsOnly allowed) (made : Index Entry) (properties : List String) :
    (passEntries resolve make made properties).FailsOnly allowed := by
  induction properties generalizing made with
  | nil => exact .pure made
  | cons property rest ih =>
    rw [passEntries]
    refine (resolves property).bind fun winner => ?_
    cases winner with
    | none => exact ih made
    | some winner =>
      show Growing.FailsOnly _ (if _ then _ else _)
      split
      · exact ih made
      · exact (makes winner).bind fun entry => ih _

theorem getterEntries_failsOnly
    (ambiguous : ∀ property owner, allowed (.ambiguousGetter property owner)) (owner : TypeId)
    (pairs : List (String × Method)) (made : Index Entry) (properties : List String) :
    (getterEntries owner pairs made properties).FailsOnly allowed := by
  rw [getterEntries_eq]
  exact passEntries_failsOnly
    (fun property => resolveGetter_failsOnly undeclared (ambiguous property) _)
    (fun m => (getterEntry_lacking owner m).failsOnly undeclared) made properties

theorem setterEntries_failsOnly
    (ambiguous : ∀ property owner a b, allowed (.ambiguousSetter property owner a b))
    (owner : TypeId) (pairs : List (String × Method)) (readers made : Index Entry)
    (properties : List String) :
    (setterEntries owner pairs readers made properties).FailsOnly allowed := by
  rw [setterEntries_eq]
  exact passEntries_failsOnly
    (fun property => resolveSetter_failsOnly undeclared (ambiguous property) _ _)
    (fun m => (setterEntry_lacking owner m).failsOnly undeclared) made properties

/-! ## Entries of fields -/

omit undeclared in
theorem addField_lacking (owner : TypeId) (made : Sides) (f : Field) :
    (addField owner made f).FailsLacking := by
  unfold addField
  dsimp only
  split
  · exact .pure made
  · exact (Growing.FailsLacking.read (Registry.resolveField_lacking · f owner)).bind fun generic =>
      generic.erase_lacking.map _

theorem addFields_failsOnly (deep : allowed (.recursionLimit limit)) (owner : TypeId) (room : Nat)
    (id : Option TypeId) (made : Sides) :
    (addFields owner limit room id made).FailsOnly allowed := by
  induction room generalizing id made with
  | zero =>
    cases id with
    | none => exact .pure made
    | some id => exact .throw deep
  | succ room ih =>
    cases id with
    | none => exact .pure made
    | some id =>
      refine Growing.FailsOnly.bind (.read fun r => ?_) fun d => ?_
      · exact (r.find_lacking id).mono fun _ lacks => lacks.admitted undeclared
      · refine Growing.FailsOnly.bind (.foldlM (fun made f => ?_) d.fields made) (ih d.superclass?)
        exact (addField_lacking owner made f).failsOnly undeclared

end Phases

/-! ## The table -/

/-- What can go wrong in whatever registry: a type may be undeclared, besides. -/
inductive Fault.OfAnyBuild (limit : Nat) : Fault → Prop
  | typeNotFound (id : TypeId) : OfAnyBuild limit (.typeNotFound id)
  | build {fault : Fault} (h : Fault.OfBuild limit fault) : OfAnyBuild limit fault

theorem build_failsOnly (type : TypeId) (limit : Nat) :
    (Table.build type limit).FailsOnly (Fault.OfAnyBuild limit) := by
  have undeclared (id : TypeId) : Fault.OfAnyBuild limit (.typeNotFound id) := .typeNotFound id
  have deep : Fault.OfAnyBuild limit (.recursionLimit limit) := .build .recursionLimit
  have lacking {α : Type} {query : Registry → Except Fault α}
      (h : ∀ r, FailsOnly r.Lacks (query r)) :=
    (Growing.FailsLacking.read h).failsOnly undeclared
  rw [Table.build_eq]
  refine (lacking (Registry.fullName_lacking · type)).bind fun name => ?_
  refine (collectMethods_failsOnly undeclared deep type).bind fun methods => ?_
  refine (getterEntries_failsOnly undeclared ?_ type _ _ _).bind fun readers => ?_
  · exact fun property owner => .build (.ambiguousGetter property owner)
  refine (setterEntries_failsOnly undeclared ?_ type _ _ _ _).bind fun writers => ?_
  · exact fun property owner a b => .build (.ambiguousSetter property owner a b)
  refine (addFields_failsOnly undeclared deep type limit (some type) _).bind fun sides => ?_
  exact (lacking (Registry.find_lacking · type)).map _

end PropertyTables
