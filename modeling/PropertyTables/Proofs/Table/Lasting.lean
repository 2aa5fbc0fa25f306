import PropertyTables.Proofs.Generics.Lasting
import PropertyTables.Proofs.Table.Naming
import PropertyTables.Proofs.Table.Passes

/-! # Tables last

Every computation behind a property table is `Growing.Lasting`.

* `Registry.chooseGetter_stable`, `Registry.chooseSetter_stable`: the choice among overloads reads
  nothing but subtyping and names.
* `collectMethods_lasting`: discovery, whose order is fixed before its signatures are erased. The
  lemmas `addUnique_settled`, `collectFrom_step` and `collectMethods_settled` take it apart.
* `build_lasting`: the table of a type.
-/

namespace PropertyTables
set_option autoImplicit false

open Growing (Lasting)
open Registry (Stable)

/-! ## Discovery -/

namespace Registry

theorem classChain_stable (limit room : Nat) (id : Option TypeId) :
    Stable (·.classChain limit room id) := by
  induction room generalizing id with
  | zero =>
    cases id with
    | none => exact .const _
    | some id => exact Stable.ite (.const _) (.const _)
  | succ room ih =>
    cases id with
    | none => exact .const _
    | some id =>
      exact Stable.ite (.const _) ((find_stable id).bind fun d =>
        (ih d.superclass?).bind fun _ => .const _)

end Registry

theorem addUnique_lasting (kept : List (Signature × Method)) (methods : List Method) :
    Lasting (addUnique kept methods) := by
  induction methods generalizing kept with
  | nil => exact .pure kept
  | cons m rest ih =>
    rw [addUnique]
    split
    · exact ih kept
    · refine m.signature_lasting.bind fun signature => ?_
      split
      · exact ih kept
      · exact ih _

/-- One step of the collection, where nothing is interned. -/
theorem addUnique_settled {r : Registry} {kept made : List (Signature × Method)} {m : Method}
    {rest : List Method} (plain : m.modifiers.isBridge = false)
    (done : (addUnique kept (m :: rest)).eval r = (.ok made, r)) :
    ∃ signature, m.signature.eval r = (.ok signature, r) ∧
      (addUnique (if kept.any (·.1 = signature) then kept else kept ++ [(signature, m)])
        rest).eval r = (.ok made, r) := by
  have next (signature : Signature) : Lasting (if kept.any (·.1 = signature) then
      addUnique kept rest else addUnique (kept ++ [(signature, m)]) rest) := by
    split
    · exact addUnique_lasting kept rest
    · exact addUnique_lasting _ rest
  rw [addUnique, plain] at done
  obtain ⟨signature, erased, done⟩ := (m.signature_lasting.bind_settled next).mp done
  refine ⟨signature, erased, ?_⟩
  split at done
  · rename_i known
    rwa [if_pos known]
  · rename_i fresh
    rwa [if_neg fresh]

theorem collectFrom_lasting (kept : List (Signature × Method)) (ids : List TypeId) :
    Lasting (collectFrom kept ids) := by
  induction ids generalizing kept with
  | nil => exact .pure kept
  | cons id rest ih =>
    exact (Lasting.read (Registry.find_stable id)).bind fun d =>
      (addUnique_lasting kept d.methods).bind ih

/-- Types are looked up one by one, so that all of them are declared if there is a result. -/
theorem published_of_collectFrom {kept kept' : List (Signature × Method)} {ids : List TypeId}
    {r grown : Registry} (done : (collectFrom kept ids).eval r = (.ok kept', grown)) :
    ∀ id ∈ ids, grown.Published id := by
  induction ids generalizing kept r with
  | nil => simp
  | cons id rest ih =>
    obtain ⟨d, here, found, later⟩ := Growing.bind_eval_ok.mp done
    obtain ⟨more, middle, _, last⟩ := Growing.bind_eval_ok.mp later
    refine List.forall_mem_cons.mpr ⟨?_, ih last⟩
    have tail := (collectFrom_lasting kept (id :: rest)).interns_of_eval done
    rw [Growing.eval_read, Prod.mk.injEq] at found
    exact tail.growsTo.declared.published (.of_find? (Registry.find_eq_ok.mp found.1))

/-- The methods of a chain's hierarchy. -/
def collectAlong (chain : List TypeId) : Growing (List (Signature × Method)) := do
  collectFrom [] ((← get).discoveryOrder [] chain)

theorem collectAlong_eval (chain : List TypeId) (r : Registry) :
    (collectAlong chain).eval r = (collectFrom [] (r.discoveryOrder [] chain)).eval r := rfl

theorem collectAlong_lasting (chain : List TypeId) : Lasting (collectAlong chain) where
  interns r := (collectFrom_lasting [] _).interns r
  lasts r kept grown later done grows := by
    rw [collectAlong_eval] at done ⊢
    have interned := (collectFrom_lasting [] _).interns_of_eval done
    have same := Registry.discoveryOrder_interned interned [] chain
    have declared : ∀ id ∈ grown.discoveryOrder [] chain, grown.Published id := by
      rw [same]
      exact published_of_collectFrom done
    rw [Registry.discoveryOrder_later grows declared, same]
    exact (collectFrom_lasting [] _).lasts r kept grown later done grows
  repeats r fault grown done := by
    rw [collectAlong_eval] at done ⊢
    have interned := (collectFrom_lasting [] _).interns_of_eval done
    rw [Registry.discoveryOrder_interned interned]
    exact (collectFrom_lasting [] _).repeats r fault grown done

theorem collectMethods_eq (type : TypeId) (limit : Nat) :
    collectMethods type limit = (do
      let chain ← Growing.read (·.classChain limit limit (some type))
      return (← collectAlong chain).map (·.2)) := rfl

theorem collectMethods_lasting (type : TypeId) (limit : Nat) :
    Lasting (collectMethods type limit) := by
  rw [collectMethods_eq]
  exact (Lasting.read (Registry.classChain_stable limit limit (some type))).bind fun chain =>
    (collectAlong_lasting chain).map _

/-- One type of a search that interns nothing. -/
theorem collectFrom_step {r : Registry} {kept made : List (Signature × Method)} {id : TypeId}
    {rest : List TypeId} : (collectFrom kept (id :: rest)).eval r = (.ok made, r) ↔
      ∃ d next, r.find? id = some d ∧ (addUnique kept d.methods).eval r = (.ok next, r) ∧
        (collectFrom next rest).eval r = (.ok made, r) := by
  have going_on (d : Declaration) : Lasting (do collectFrom (← addUnique kept d.methods) rest) :=
    (addUnique_lasting kept d.methods).bind fun next => collectFrom_lasting next rest
  have reading : Lasting (Growing.read (·.find id)) := .read (Registry.find_stable id)
  rw [collectFrom, reading.bind_settled going_on]
  constructor
  · rintro ⟨d, found, done⟩
    obtain ⟨next, added, done⟩ := ((addUnique_lasting kept d.methods).bind_settled fun next =>
      collectFrom_lasting next rest).mp done
    exact ⟨d, next, Registry.find_eq_ok.mp (congrArg Prod.fst found), added, done⟩
  · rintro ⟨d, next, found, added, done⟩
    refine ⟨d, ?_, ((addUnique_lasting kept d.methods).bind_settled fun next =>
      collectFrom_lasting next rest).mpr ⟨next, added, done⟩⟩
    rw [Growing.eval_read, Registry.find_eq_ok.mpr found]

theorem collectMethods_settled {r : Registry} {owner : TypeId} {limit : Nat}
    {methods : List Method} : (collectMethods owner limit).eval r = (.ok methods, r) ↔ ∃ chain kept,
      r.classChain limit limit (some owner) = .ok chain ∧
      (collectFrom [] (r.discoveryOrder [] chain)).eval r = (.ok kept, r) ∧
      methods = kept.map (·.2) := by
  have reading := Lasting.read (Registry.classChain_stable limit limit (some owner))
  have along (chain : List TypeId) := (collectAlong_lasting chain).bind_settled
    (fun kept => Lasting.pure (kept.map (·.2))) (r := r) (b := methods)
  rw [collectMethods_eq, reading.bind_settled fun chain => (collectAlong_lasting chain).map _]
  constructor
  · rintro ⟨chain, walked, done⟩
    obtain ⟨kept, collected, done⟩ := (along chain).mp done
    cases done
    exact ⟨chain, kept, congrArg Prod.fst walked, collected, rfl⟩
  · rintro ⟨chain, kept, walked, collected, rfl⟩
    exact ⟨chain, congrArg (·, r) walked, (along chain).mpr ⟨kept, collected, rfl⟩⟩

/-! ## The choice among overloads -/

namespace Registry

theorem prefersGetter_stable (a b : Overload) : Stable (·.prefersGetter a b) :=
  Stable.ite (.const _) (isAssignable_stable b.type a.type)

theorem prefersToAll_stable (a : Overload) (others : List Overload) :
    Stable (·.prefersToAll a others) := by
  induction others with
  | nil => exact .const _
  | cons b rest ih =>
    exact (prefersGetter_stable a b).bind fun preferred => by
      cases preferred with
      | true => exact ih
      | false => exact .const _

theorem preferredGetter?_stable (before after : List Overload) :
    Stable (·.preferredGetter? before after) := by
  induction after generalizing before with
  | nil => exact .const _
  | cons a after ih =>
    exact (prefersToAll_stable a (before ++ after)).bind fun preferred => by
      cases preferred with
      | true => exact .const _
      | false => exact ih (before ++ [a])

theorem chooseGetter_stable (property : String) (first : Overload) (others : List Overload) :
    Stable (·.chooseGetter property first others) := by
  have ambiguous : Stable fun r => (do
      throw (.ambiguousGetter property (← r.fullName first.method.declaring)) :
        Except Fault Method) :=
    (fullName_stable _).bind fun _ => .const _
  refine Stable.ite ambiguous ((preferredGetter?_stable [] (first :: others)).bind fun winner => ?_)
  cases winner with
  | some winner => exact .const _
  | none => exact ambiguous

theorem assignableToAll_stable (type : TypeId) (all : List Overload) :
    Stable (·.assignableToAll type all) := by
  induction all with
  | nil => exact .const _
  | cons b rest ih =>
    exact (isAssignable_stable b.type type).bind fun below => by
      cases below with
      | true => exact ih
      | false => exact .const _

theorem narrowestSetter?_stable (all rest : List Overload) :
    Stable (·.narrowestSetter? all rest) := by
  induction rest with
  | nil => exact .const _
  | cons a rest ih =>
    exact (assignableToAll_stable a.type all).bind fun narrowest => by
      cases narrowest with
      | true => exact .const _
      | false => exact ih

theorem chooseSetter_stable (property : String) (readType : Option TypeId)
    (first second : Overload) (others : List Overload) :
    Stable (·.chooseSetter property readType first second others) := by
  unfold chooseSetter
  dsimp only
  cases (first :: second :: others).find? (some ·.type == readType) with
  | some matching => exact .const _
  | none =>
    refine (narrowestSetter?_stable _ _).bind fun winner => ?_
    cases winner with
    | some winner => exact .const _
    | none =>
      -- without a winner there is no answer that would have to last
      intro r later m done
      obtain ⟨pair, -, done⟩ := bind_eq_ok.mp done
      obtain ⟨owner, -, done⟩ := bind_eq_ok.mp done
      obtain ⟨a, -, done⟩ := bind_eq_ok.mp done
      obtain ⟨b, -, done⟩ := bind_eq_ok.mp done
      cases done

end Registry

/-! ## Entries -/

theorem getterOverload_lasting (m : Method) : Lasting (getterOverload m) :=
  (m.eraseDeclared_lasting m.returns).map _

theorem resolveGetter_lasting (property : String) (methods : List Method) :
    Lasting (resolveGetter property methods) := by
  match methods with
  | [] => exact .pure none
  | [single] => exact .pure (some single)
  | first :: second :: others =>
    exact (getterOverload_lasting first).bind fun a =>
      (Lasting.mapM getterOverload_lasting (second :: others)).bind fun rest =>
        (Lasting.read (Registry.chooseGetter_stable property a rest)).map _

theorem getterEntry_lasting (owner : TypeId) (m : Method) : Lasting (getterEntry owner m) :=
  (Lasting.read (Registry.resolveReturn_stable m owner)).bind fun generic =>
    generic.erase_lasting.map _

theorem getterEntries_lasting (owner : TypeId) (pairs : List (String × Method))
    (made : Index Entry) (properties : List String) :
    Lasting (getterEntries owner pairs made properties) := by
  rw [getterEntries_eq]
  exact passEntries_lasting (fun property => resolveGetter_lasting property _)
    (getterEntry_lasting owner) made properties

theorem setterOverload_lasting (m : Method) : Lasting (setterOverload m) :=
  (m.eraseDeclared_lasting _).map _

theorem resolveSetter_lasting (property : String) (readType : Option TypeId)
    (methods : List Method) : Lasting (resolveSetter property readType methods) := by
  match methods with
  | [] => exact .pure none
  | [single] => exact .pure (some single)
  | first :: second :: others =>
    exact (setterOverload_lasting first).bind fun a => (setterOverload_lasting second).bind fun b =>
      (Lasting.mapM setterOverload_lasting others).bind fun rest =>
        (Lasting.read (Registry.chooseSetter_stable property readType a b rest)).map _

theorem setterEntry_lasting (owner : TypeId) (m : Method) : Lasting (setterEntry owner m) :=
  (Lasting.read (Registry.resolveParams_stable m owner)).bind fun generics =>
    (generics.headD (.named .object)).erase_lasting.map _

theorem setterEntries_lasting (owner : TypeId) (pairs : List (String × Method))
    (readers made : Index Entry) (properties : List String) :
    Lasting (setterEntries owner pairs readers made properties) := by
  rw [setterEntries_eq]
  exact passEntries_lasting (fun property => resolveSetter_lasting property _ _)
    (setterEntry_lasting owner) made properties

theorem addField_lasting (owner : TypeId) (made : Sides) (f : Field) :
    Lasting (addField owner made f) := by
  unfold addField
  dsimp only
  split
  · exact .pure made
  · exact (Lasting.read (Registry.resolveField_stable f owner)).bind fun generic =>
      generic.erase_lasting.map _

theorem addFields_lasting (owner : TypeId) (limit room : Nat) (id : Option TypeId) (made : Sides) :
    Lasting (addFields owner limit room id made) := by
  induction room generalizing id made with
  | zero =>
    cases id with
    | none => exact .pure made
    | some id => exact .throw _
  | succ room ih =>
    cases id with
    | none => exact .pure made
    | some id =>
      exact (Lasting.read (Registry.find_stable id)).bind fun d =>
        (Lasting.foldlM (addField_lasting owner) d.fields made).bind (ih d.superclass?)

/-! ## The table -/

theorem build_lasting (type : TypeId) (limit : Nat) : Lasting (Table.build type limit) := by
  rw [Table.build_eq]
  refine (Lasting.read (Registry.fullName_stable type)).bind fun name => ?_
  refine (collectMethods_lasting type limit).bind fun methods => ?_
  refine (getterEntries_lasting type _ _ _).bind fun readers => ?_
  refine (setterEntries_lasting type _ _ _ _).bind fun writers => ?_
  refine (addFields_lasting type limit limit (some type) _).bind fun sides => ?_
  exact (Lasting.read (Registry.find_stable type)).map _

end PropertyTables
