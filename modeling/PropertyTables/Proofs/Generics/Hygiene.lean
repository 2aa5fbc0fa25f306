import PropertyTables.Generics.Erasure
import PropertyTables.Proofs.Generics.Renaming
import PropertyTables.Proofs.Generics.SupertypePath
import Mathlib.Logic.Equiv.Basic

/-! # Names of variables do not matter

* `Registry.rename`: other names for the variables of all declarations, each with a renaming of its
  own.
* `bindings_rename`: what variables stand for moves along with their names, and stays the same.
* `GenericType.erase_rename`: erasure never looks at variables, and the array types that it interns
  have none.
* `resolution_hygienic`: renaming the variables of one declaration changes no resolved and no erased
  type.
-/

namespace PropertyTables
set_option autoImplicit false

attribute [ext] Registry

/-! ## Registries with other names -/

/-- Renames the variables of every declaration, by the renaming of its type. -/
def Registry.rename (ρ : TypeId → String → String) (r : Registry) : Registry where
  slots := r.slots.map (Option.map fun d => d.rename (ρ d.id))
  names := r.names
  id_eq := by
    intro i d h
    rw [List.getElem?_map] at h
    obtain ⟨slot, at_i, same⟩ := Option.map_eq_some_iff.mp h
    obtain ⟨e, rfl, rfl⟩ := Option.map_eq_some_iff.mp same
    exact r.id_eq i e at_i

namespace Registry
variable {r : Registry} {ρ : TypeId → String → String}

/-! ## Queries -/

theorem find?_rename (id : TypeId) :
    (r.rename ρ).find? id = (r.find? id).map (Declaration.rename (ρ id)) := by
  have slot : (r.rename ρ).find? id = (r.find? id).map fun d => d.rename (ρ d.id) := by
    rw [find?, rename, List.getElem?_map, find?]
    rcases r.slots[id.index]? with _ | _ | d <;> rfl
  cases found : r.find? id with
  | none => rw [slot, found, Option.map_none, Option.map_none]
  | some d => rw [slot, found, Option.map_some, Option.map_some, id_of_find? found]

theorem find_rename (id : TypeId) :
    (r.rename ρ).find id = (r.find id).map (Declaration.rename (ρ id)) := by
  rw [find, find, find?_rename]
  cases r.find? id <;> rfl

theorem size_rename : (r.rename ρ).size = r.size := List.length_map _

theorem typeParams_rename (id : TypeId) :
    (r.rename ρ).typeParams id = (r.typeParams id).map (TypeParam.rename (ρ id)) := by
  rw [typeParams, typeParams, find?_rename]
  cases r.find? id <;> rfl

/-! ## Bindings -/

/-- A node of a walk, where each type has a renaming of its own. -/
def renameNode (ρ : TypeId → String → String) (b : BoundType) : BoundType :=
  ⟨b.id, b.env.rename (ρ b.id)⟩

theorem firstBindings_rename (r : Registry) (ρ : TypeId → String → String) (declaring : TypeId)
    (nodes : List BoundType) :
    (r.rename ρ).firstBindings declaring (nodes.map (renameNode ρ)) =
      (r.firstBindings declaring nodes).map (Option.map (Bindings.rename (ρ declaring))) := by
  induction nodes with
  | nil => rfl
  | cons b rest ih =>
    rw [List.map_cons, firstBindings, firstBindings, renameNode, find_rename]
    cases r.find b.id with
    | error fault => rfl
    | ok d =>
      by_cases here : b.id = declaring
      · subst here
        simp [Except.map]
      · simpa [Except.map, here] using ih

section Walk
variable (inj : ∀ id, (ρ id).Injective)
include inj

theorem clauseBindings_rename (env : Bindings) (child raw : TypeId) (args : List GenericType) :
    (r.rename ρ).clauseBindings (env.rename (ρ child)) raw
        (args.map (GenericType.rename (ρ child))) =
      (r.clauseBindings env raw args).rename (ρ raw) := by
  -- the arguments are read with the names of the child, and bound to the names of the parent
  have read : GenericType.instantiateAll (env.rename (ρ child))
      (args.map (GenericType.rename (ρ child))) = GenericType.instantiateAll env args := by
    rw [GenericType.instantiateAll_eq_map, GenericType.instantiateAll_eq_map, List.map_map]
    exact List.map_congr_left fun t _ => t.instantiate_rename (inj child) env
  simp only [clauseBindings, typeParams_rename, read, List.length_map, ne_eq, List.map_eq_nil_iff]
  split
  · exact Bindings.ofArgs_rename _ _ _
  · exact Bindings.fallbacks_rename (inj raw) _

theorem boundSupertype?_rename (env : Bindings) (child : TypeId) (clause : GenericType) :
    (r.rename ρ).boundSupertype? (env.rename (ρ child)) (clause.rename (ρ child)) =
      (r.boundSupertype? env clause).map (renameNode ρ) := by
  rw [boundSupertype?, boundSupertype?, GenericType.raw?_rename, GenericType.args_rename,
    Option.map_map]
  refine Option.map_congr fun raw _ => ?_
  exact congrArg (BoundType.mk raw) (clauseBindings_rename inj env child raw clause.args)

theorem boundSupertypes_rename (b : BoundType) :
    (r.rename ρ).boundSupertypes (renameNode ρ b) = (r.boundSupertypes b).map (renameNode ρ) := by
  rw [boundSupertypes, boundSupertypes, renameNode, find?_rename]
  cases r.find? b.id with
  | none => rfl
  | some d =>
    simp only [Option.map_some, Option.elim_some, clauses_rename, List.filterMap_map,
      List.map_filterMap]
    exact congrArg (List.filterMap · d.clauses) (funext (boundSupertype?_rename inj b.env b.id))

theorem boundWalk_rename (owner : TypeId) :
    (r.rename ρ).boundWalk owner = (r.boundWalk owner).map (renameNode ρ) := by
  have start : (r.rename ρ).unbound owner = renameNode ρ (r.unbound owner) := by
    rw [unbound, typeParams_rename, Bindings.fallbacks_rename (inj owner)]
    rfl
  rw [boundWalk, start, size_rename]
  exact (map_preorder (·.id) r.size (renameNode ρ) (fun _ => rfl) (boundSupertypes_rename inj) []
    [r.unbound owner]).symm

/-- Faults included: a walk meets the same types under any names. -/
theorem bindings_rename (owner declaring : TypeId) :
    (r.rename ρ).bindings owner declaring =
      (r.bindings owner declaring).map (Bindings.rename (ρ declaring)) := by
  have first := firstBindings_rename r ρ declaring (r.boundWalk owner)
  rw [← boundWalk_rename inj owner] at first
  rw [bindings, bindings, ← boundWalk, ← boundWalk, first]
  rcases r.firstBindings declaring (r.boundWalk owner) with fault | _ | env
  · rfl
  · show (do return Bindings.fallbacks (← (r.rename ρ).find declaring).typeParams) = Except.map _
      (do return Bindings.fallbacks (← r.find declaring).typeParams)
    rw [find_rename]
    cases r.find declaring with
    | error fault => rfl
    | ok d => exact congrArg Except.ok (Bindings.fallbacks_rename (inj declaring) d.typeParams)
  · rfl

end Walk

/-! ## Array types -/

theorem findArray?_rename (component : TypeId) :
    (r.rename ρ).findArray? component = r.findArray? component := by
  rw [findArray?, findArray?, rename, List.findIdx?_map]
  congr 2
  funext slot
  cases slot <;> rfl

theorem internArray_rename (component : TypeId) :
    (r.rename ρ).internArray component =
      (r.internArray component).map (Prod.map id (rename ρ)) := by
  have searched := findArray?_rename (r := r) (ρ := ρ) component
  cases known : r.findArray? component with
  | some found =>
    rw [internArray_known known, internArray_known (searched.trans known)]
    rfl
  | none =>
    cases found : r.find? component with
    | none =>
      have undeclared : (r.rename ρ).find? component = none := by rw [find?_rename, found]; rfl
      rw [internArray_undeclared known found,
        internArray_undeclared (searched.trans known) undeclared]
      rfl
    | some element =>
      have found' : (r.rename ρ).find? component = some (element.rename (ρ component)) := by
        rw [find?_rename, found]; rfl
      rw [internArray_fresh known found, internArray_fresh (searched.trans known) found']
      refine congrArg Except.ok (Prod.ext (congrArg TypeId.mk size_rename) (Registry.ext ?_ ?_))
      -- the new declaration has no variables, and of the element it takes the name alone
      · show _ ++ [some (arrayDeclaration ⟨(r.rename ρ).size⟩ component (element.rename _) _)] =
          (r.slots ++ _).map _
        simp only [size_rename, List.map_append]
        rfl
      · show r.names.insert _ (TypeId.mk (r.rename ρ).size) = r.names.insert _ (TypeId.mk r.size)
        simp only [size_rename]
        rfl

end Registry

/-! ## Members -/

section Members
variable {r : Registry} {ρ : TypeId → String → String} (inj : ∀ id, (ρ id).Injective)

theorem arrayOf_rename (component : TypeId) :
    (Growing.arrayOf component).eval (r.rename ρ) =
      Prod.map id (Registry.rename ρ) ((Growing.arrayOf component).eval r) := by
  rw [Growing.eval_arrayOf, Growing.eval_arrayOf, Registry.internArray_rename]
  rcases r.internArray component with fault | ⟨array, grown⟩ <;> rfl

theorem GenericType.erase_rename (t : GenericType) :
    t.erase.eval (r.rename ρ) = Prod.map id (Registry.rename ρ) (t.erase.eval r) := by
  induction t using induction_on_parts generalizing r with
  | array component ih =>
    rw [erase, Growing.eval_bind, Growing.eval_bind, ih]
    rcases component.erase.eval r with ⟨fault | id, grown⟩
    · rfl
    · exact arrayOf_rename id
  | _ => rfl

include inj

theorem Method.ownBindings_rename (m : Method) :
    (m.rename (ρ m.declaring)).ownBindings (r.rename ρ) =
      (m.ownBindings r).map (Bindings.rename (ρ m.declaring)) := by
  show (do return Bindings.fallbacks (m.typeParams.map _) ++
      Bindings.fallbacks (← (r.rename ρ).find m.declaring).typeParams) = _
  rw [ownBindings, Registry.find_rename]
  cases r.find m.declaring with
  | error fault => rfl
  | ok d =>
    show Except.ok (_ ++ Bindings.fallbacks (d.typeParams.map _)) = Except.ok (Bindings.rename _ _)
    rw [Bindings.fallbacks_rename (inj _), Bindings.fallbacks_rename (inj _),
      Bindings.append_rename]

theorem Method.eraseDeclared_rename (m : Method) (t : GenericType) :
    ((m.rename (ρ m.declaring)).eraseDeclared (t.rename (ρ m.declaring))).eval (r.rename ρ) =
      Prod.map id (Registry.rename ρ) ((m.eraseDeclared t).eval r) := by
  rw [eraseDeclared, eraseDeclared, Growing.eval_bind, Growing.eval_bind, Growing.eval_read,
    Growing.eval_read, m.ownBindings_rename inj]
  cases m.ownBindings r with
  | error fault => rfl
  | ok env =>
    show (GenericType.erase _).eval _ =
      Prod.map id (Registry.rename ρ) ((GenericType.erase _).eval r)
    rw [GenericType.instantiate_rename (inj _), GenericType.erase_rename]

namespace Registry

theorem methodBindings_rename (m : Method) (owner : TypeId) :
    (r.rename ρ).methodBindings (m.rename (ρ m.declaring)) owner =
      (r.methodBindings m owner).map (Bindings.rename (ρ m.declaring)) := by
  rw [methodBindings, methodBindings]
  show (do
    return Bindings.extend (← (r.rename ρ).bindings owner m.declaring) (m.typeParams.map _)) = _
  rw [bindings_rename inj]
  cases r.bindings owner m.declaring with
  | error fault => rfl
  | ok env => exact congrArg Except.ok (Bindings.extend_rename (inj _) env m.typeParams)

theorem resolveReturn_rename (m : Method) (owner : TypeId) :
    (r.rename ρ).resolveReturn (m.rename (ρ m.declaring)) owner = r.resolveReturn m owner := by
  rw [resolveReturn, resolveReturn, methodBindings_rename inj]
  cases r.methodBindings m owner with
  | error fault => rfl
  | ok env => exact congrArg Except.ok (m.returns.instantiate_rename (inj _) env)

theorem resolveParams_rename (m : Method) (owner : TypeId) :
    (r.rename ρ).resolveParams (m.rename (ρ m.declaring)) owner = r.resolveParams m owner := by
  rw [resolveParams, resolveParams, methodBindings_rename inj]
  cases r.methodBindings m owner with
  | error fault => rfl
  | ok env =>
    refine congrArg Except.ok ?_
    rw [Method.rename, List.map_map]
    exact List.map_congr_left fun t _ => t.instantiate_rename (inj _) env

theorem resolveField_rename (f : Field) (owner : TypeId) :
    (r.rename ρ).resolveField (f.rename (ρ f.declaring)) owner = r.resolveField f owner := by
  rw [resolveField, resolveField]
  show (do return (f.type.rename _).instantiate (← (r.rename ρ).bindings owner f.declaring)) = _
  rw [bindings_rename inj]
  cases r.bindings owner f.declaring with
  | error fault => rfl
  | ok env => exact congrArg Except.ok (f.type.instantiate_rename (inj _) env)

end Registry

end Members

/-! ## One declaration with other names -/

namespace Registry

/-- Renames the variables of one declaration. -/
def renameOnly (r : Registry) (declaring : TypeId) (ρ : String → String) : Registry :=
  r.rename (Function.update (fun _ => id) declaring ρ)

/-- The members of a declaration, renamed, are in one registry what they are in another. -/
structure SeenAlike (r renamed : Registry) (owner : TypeId) (ρ : String → String)
    (d : Declaration) : Prop where
  returns : ∀ m ∈ d.methods, renamed.resolveReturn (m.rename ρ) owner = r.resolveReturn m owner
  params : ∀ m ∈ d.methods, renamed.resolveParams (m.rename ρ) owner = r.resolveParams m owner
  fields : ∀ f ∈ d.fields, renamed.resolveField (f.rename ρ) owner = r.resolveField f owner
  erased : ∀ m ∈ d.methods, ∀ t, (((m.rename ρ).eraseDeclared (t.rename ρ)).eval renamed).1 =
    ((m.eraseDeclared t).eval r).1

theorem seenAlike_rename {ρ : TypeId → String → String} (inj : ∀ id, (ρ id).Injective)
    (r : Registry) (owner : TypeId) (d : Declaration) :
    SeenAlike r (r.rename ρ) owner (ρ d.id) d where
  returns m hm := declaring_of_mem_methods hm ▸ resolveReturn_rename inj m owner
  params m hm := declaring_of_mem_methods hm ▸ resolveParams_rename inj m owner
  fields f hf := declaring_of_mem_fields hf ▸ resolveField_rename inj f owner
  erased m hm t := by
    rw [← declaring_of_mem_methods hm, m.eraseDeclared_rename inj]
    rfl

/-- Renaming the variables of one declaration changes no type of a member, whoever looks at it. -/
theorem resolution_hygienic (r : Registry) (declaring owner : TypeId) {ρ : String → String}
    (inj : ρ.Injective) :
    (∀ d, r.find? declaring = some d →
      (r.renameOnly declaring ρ).find? declaring = some (d.rename ρ) ∧
      SeenAlike r (r.renameOnly declaring ρ) owner ρ d) ∧
    ∀ other d, other ≠ declaring → r.find? other = some d →
      (r.renameOnly declaring ρ).find? other = some d ∧
      SeenAlike r (r.renameOnly declaring ρ) owner id d := by
  have all : ∀ t, Function.Injective (Function.update (fun _ => id) declaring ρ t) := by
    intro t
    by_cases here : t = declaring
    · subst here
      rwa [Function.update_self]
    · rw [Function.update_of_ne here]
      exact Function.injective_id
  constructor
  · intro d found
    have alike := seenAlike_rename all r owner d
    rw [id_of_find? found, Function.update_self] at alike
    refine ⟨?_, alike⟩
    rw [renameOnly, find?_rename, found, Function.update_self]
    rfl
  · intro other d apart found
    have alike := seenAlike_rename all r owner d
    rw [id_of_find? found, Function.update_of_ne apart] at alike
    refine ⟨?_, alike⟩
    rw [renameOnly, find?_rename, found, Function.update_of_ne apart, declaration_rename_id]
    rfl

/-- A class and its subclass, each with a variable `T` of its own. -/
def boxes : Registry :=
  (initial.declared "" "Box" .classType fun d =>
      ((d.withTypeParam ⟨"T", []⟩).getter "get" (.typeVar "T")).privateField "content"
        (.typeVar "T")).declared "" "Rows" .classType fun d =>
      ((d.withTypeParam ⟨"T", [.named .string]⟩).extending
        (.applied ⟨11⟩ [.array (.typeVar "T")])).setter "add" (.typeVar "T")

/-- The class with the name `U` for its variable. -/
def renamedBoxes : Registry := boxes.renameOnly ⟨11⟩ (Equiv.swap "T" "U")

theorem resolution_hygienic_boxes :
    Function.Injective (Equiv.swap "T" "U") ∧ ∃ box rows get add content,
      boxes.find? ⟨11⟩ = some box ∧ box.methods = [get] ∧ box.fields = [content] ∧
      renamedBoxes.find? ⟨11⟩ = some (box.rename (Equiv.swap "T" "U")) ∧
      renamedBoxes.resolveReturn (get.rename (Equiv.swap "T" "U")) ⟨12⟩ =
        .ok (.array (.named .string)) ∧
      renamedBoxes.resolveField (content.rename (Equiv.swap "T" "U")) ⟨12⟩ =
        .ok (.array (.named .string)) ∧
      boxes.find? ⟨12⟩ = some rows ∧ rows.methods = [add] ∧
      renamedBoxes.find? ⟨12⟩ = some rows ∧
      renamedBoxes.resolveParams add ⟨12⟩ = .ok [.named .string] := by
  have inj := (Equiv.swap "T" "U").injective
  have declared : ∃ box rows get add content, boxes.find? ⟨11⟩ = some box ∧
      boxes.find? ⟨12⟩ = some rows ∧ box.methods = [get] ∧ box.fields = [content] ∧
      rows.methods = [add] ∧ boxes.resolveReturn get ⟨12⟩ = .ok (.array (.named .string)) ∧
      boxes.resolveField content ⟨12⟩ = .ok (.array (.named .string)) ∧
      boxes.resolveParams add ⟨12⟩ = .ok [.named .string] :=
    ⟨_, _, _, _, _, rfl, rfl, rfl, rfl, rfl, by cbv, by cbv, by cbv⟩
  obtain ⟨box, rows, get, add, content, hb, hr, gets, contents, adds, returns, field, params⟩ :=
    declared
  obtain ⟨ofBox, ofOthers⟩ := resolution_hygienic boxes ⟨11⟩ ⟨12⟩ inj
  obtain ⟨hb', box_alike⟩ := ofBox box hb
  obtain ⟨hr', rows_alike⟩ := ofOthers ⟨12⟩ rows (by decide) hr
  have get_alike := box_alike.returns get (gets ▸ List.mem_singleton_self get)
  have content_alike := box_alike.fields content (contents ▸ List.mem_singleton_self content)
  have add_alike := rows_alike.params add (adds ▸ List.mem_singleton_self add)
  rw [Method.rename_id] at add_alike
  exact ⟨inj, box, rows, get, add, content, hb, gets, contents, hb', get_alike.trans returns,
    content_alike.trans field, hr, adds, hr', add_alike.trans params⟩

end Registry

end PropertyTables
