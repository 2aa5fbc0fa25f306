import PropertyTables.Proofs.Registry.Members
import PropertyTables.Proofs.Table.Origins

/-! # Builds and members

The parts of a build ask for the members of a type in two places only, when methods are collected
and when fields are added.

* `resolveGetter_blind`, `getterEntry_blind`, `passEntries_blind`, ...: the passes over accessors are
  `Growing.Blind`, with the accessors given.
* `collectMethods_blind`: so is the collection of methods, as long as those that are no bridges are
  the same.
* `methodEntries`: the entries that methods make, before fields are added. `Table.build_eval_ok` cuts
  a build in two there.
-/

namespace PropertyTables
set_option autoImplicit false

open Growing (Lasting Blind)

/-- The methods that are no bridges. -/
def plainMethods (methods : List Method) : List Method := methods.filter (!·.modifiers.isBridge)

/-! ## Passes over accessors -/

section Blindness
variable {φ : MemberMap} (nothing : φ.KeepsNone)
include nothing

theorem getterOverload_blind (m : Method) : Blind φ (getterOverload m) :=
  (m.eraseDeclared_blind nothing m.returns).map _

theorem setterOverload_blind (m : Method) : Blind φ (setterOverload m) :=
  (m.eraseDeclared_blind nothing _).map _

theorem resolveGetter_blind (property : String) (methods : List Method) :
    Blind φ (resolveGetter property methods) := by
  match methods with
  | [] => exact .pure none
  | [single] => exact .pure (some single)
  | first :: second :: others =>
    exact (getterOverload_blind nothing first).bind fun a =>
      (Blind.mapM (getterOverload_blind nothing) (second :: others)).bind fun rest =>
        (Blind.read fun r => r.chooseGetter_mapMembers property a rest).map _

theorem resolveSetter_blind (property : String) (readType : Option TypeId)
    (methods : List Method) : Blind φ (resolveSetter property readType methods) := by
  match methods with
  | [] => exact .pure none
  | [single] => exact .pure (some single)
  | first :: second :: others =>
    exact (setterOverload_blind nothing first).bind fun a =>
      (setterOverload_blind nothing second).bind fun b =>
        (Blind.mapM (setterOverload_blind nothing) others).bind fun rest =>
          (Blind.read fun r => r.chooseSetter_mapMembers property readType a b rest).map _

theorem getterEntry_blind (owner : TypeId) (m : Method) : Blind φ (getterEntry owner m) :=
  (Blind.read fun r => r.resolveReturn_mapMembers m owner).bind fun generic =>
    (generic.erase_blind nothing).map _

theorem setterEntry_blind (owner : TypeId) (m : Method) : Blind φ (setterEntry owner m) :=
  (Blind.read fun r => r.resolveParams_mapMembers m owner).bind fun generics =>
    ((generics.headD (.named .object)).erase_blind nothing).map _

omit nothing in
theorem passEntries_blind {resolve : String → Growing (Option Method)}
    {make : Method → Growing Entry} (resolves : ∀ property, Blind φ (resolve property))
    (makes : ∀ m, Blind φ (make m)) (made : Index Entry) (properties : List String) :
    Blind φ (passEntries resolve make made properties) := by
  induction properties generalizing made with
  | nil => exact .pure made
  | cons property rest ih =>
    rw [passEntries]
    refine (resolves property).bind fun winner => ?_
    cases winner with
    | none => exact ih made
    | some winner =>
      show Blind φ (if _ then _ else _)
      split
      · exact ih made
      · exact (makes winner).bind fun entry => ih _

theorem getterEntries_blind (owner : TypeId) (pairs : List (String × Method)) (made : Index Entry)
    (properties : List String) : Blind φ (getterEntries owner pairs made properties) := by
  rw [getterEntries_eq]
  exact passEntries_blind (fun property => resolveGetter_blind nothing property _)
    (getterEntry_blind nothing owner) made properties

theorem setterEntries_blind (owner : TypeId) (pairs : List (String × Method))
    (readers made : Index Entry) (properties : List String) :
    Blind φ (setterEntries owner pairs readers made properties) := by
  rw [setterEntries_eq]
  exact passEntries_blind (fun property => resolveSetter_blind nothing property _ _)
    (setterEntry_blind nothing owner) made properties

/-! ## Collection -/

omit nothing in
/-- Bridges are left out before anything is asked of them. -/
theorem addUnique_plain (kept : List (Signature × Method)) (methods : List Method) :
    addUnique kept (plainMethods methods) = addUnique kept methods := by
  induction methods generalizing kept with
  | nil => rfl
  | cons m rest ih =>
    rw [plainMethods, List.filter_cons]
    cases bridge : m.modifiers.isBridge with
    | true =>
      rw [Bool.not_true, if_neg Bool.false_ne_true, addUnique, bridge, if_pos rfl]
      exact ih kept
    | false =>
      rw [Bool.not_false, if_pos rfl, addUnique, addUnique, bridge, if_neg Bool.false_ne_true,
        if_neg Bool.false_ne_true]
      refine bind_congr fun signature => ?_
      split
      · exact ih kept
      · exact ih _

theorem addUnique_blind (kept : List (Signature × Method)) (methods : List Method) :
    Blind φ (addUnique kept methods) := by
  induction methods generalizing kept with
  | nil => exact .pure kept
  | cons m rest ih =>
    rw [addUnique]
    split
    · exact ih kept
    · refine (m.signature_blind nothing).bind fun signature => ?_
      split
      · exact ih kept
      · exact ih _

variable (plain : ∀ id (ms : Members id), plainMethods (φ id ms).methods = plainMethods ms.methods)
include plain

theorem collectFrom_blind (kept : List (Signature × Method)) (ids : List TypeId) :
    Blind φ (collectFrom kept ids) := by
  induction ids generalizing kept with
  | nil => exact .pure kept
  | cons id rest ih =>
    intro r
    rw [collectFrom, Growing.eval_bind, Growing.eval_bind, Growing.eval_read, Growing.eval_read,
      r.find_mapMembers]
    cases r.find id with
    | error fault => rfl
    | ok d =>
      show (addUnique kept (φ d.id d.members).methods >>= fun next => _).eval _ = _
      rw [← addUnique_plain, plain, addUnique_plain]
      exact ((addUnique_blind nothing kept d.methods).bind ih) r

theorem collectMethods_blind (type : TypeId) (limit : Nat) :
    Blind φ (collectMethods type limit) := by
  rw [collectMethods_eq]
  refine (Blind.read fun r => r.classChain_mapMembers limit limit (some type)).bind fun chain => ?_
  refine Blind.map (fun r => ?_) _
  rw [collectAlong_eval, collectAlong_eval, r.discoveryOrder_mapMembers]
  exact collectFrom_blind nothing plain [] _ r

end Blindness

/-! ## The entries of methods -/

/-- The entries that the methods of a type's hierarchy make. -/
def methodEntries (owner : TypeId) (limit : Nat) : Growing Sides := do
  let methods ← collectMethods owner limit
  let getters := accessors .read methods
  let readers ← getterEntries owner getters {} (propertiesOf getters)
  let setters := accessors .write methods
  return ⟨readers, ← setterEntries owner setters readers {} (propertiesOf setters)⟩

theorem methodEntries_lasting (owner : TypeId) (limit : Nat) : Lasting (methodEntries owner limit) :=
  (collectMethods_lasting owner limit).bind fun _ =>
    (getterEntries_lasting owner _ _ _).bind fun _ => (setterEntries_lasting owner _ _ _ _).map _

theorem methodEntries_blind {φ : MemberMap} (nothing : φ.KeepsNone)
    (plain : ∀ id (ms : Members id), plainMethods (φ id ms).methods = plainMethods ms.methods)
    (owner : TypeId) (limit : Nat) : Blind φ (methodEntries owner limit) :=
  (collectMethods_blind nothing plain owner limit).bind fun _ =>
    (getterEntries_blind nothing owner _ _ _).bind fun _ =>
      (setterEntries_blind nothing owner _ _ _ _).map _

theorem methodEntries_methods {owner : TypeId} {limit : Nat} {made : Sides} {r grown : Registry}
    (done : (methodEntries owner limit).eval r = (.ok made, grown)) :
    made.Each fun _ e => e.accessor.field? = none := by
  obtain ⟨methods, _, -, done⟩ := Growing.bind_eval_ok.mp done
  obtain ⟨readers, _, got, done⟩ := Growing.bind_eval_ok.mp done
  obtain ⟨writers, _, set, done⟩ := Growing.bind_eval_ok.mp done
  cases done
  exact ⟨getterEntries_methods got, setterEntries_methods set⟩

theorem Table.build_eq_methodEntries (type : TypeId) (limit : Nat) : Table.build type limit = (do
    let name ← Growing.read (·.fullName type)
    let made ← methodEntries type limit
    let sides ← addFields type limit limit (some type) made
    let d ← Growing.read (·.find type)
    return {
      type := type
      name := name
      readers := sides.readers
      writers := sides.writers
      defaultConstructor? := d.defaultConstructor? }) := by
  rw [Table.build_eq, methodEntries]
  simp only [bind_assoc, pure_bind]

/-- A build is a table of the entries of methods, filled up by fields. -/
theorem Table.build_eval_ok {owner : TypeId} {limit : Nat} {t : Table} {r grown : Registry} :
    (Table.build owner limit).eval r = (.ok t, grown) ↔ ∃ name made middle sides d,
      r.fullName owner = .ok name ∧ (methodEntries owner limit).eval r = (.ok made, middle) ∧
      (addFields owner limit limit (some owner) made).eval middle = (.ok sides, grown) ∧
      grown.find owner = .ok d ∧
      t = {
        type := owner
        name := name
        readers := sides.readers
        writers := sides.writers
        defaultConstructor? := d.defaultConstructor? } := by
  rw [Table.build_eq_methodEntries]
  constructor
  · intro done
    obtain ⟨name, _, named, done⟩ := Growing.bind_eval_ok.mp done
    rw [Growing.eval_read, Prod.mk.injEq] at named
    obtain ⟨named, rfl⟩ := named
    obtain ⟨made, middle, methods, done⟩ := Growing.bind_eval_ok.mp done
    obtain ⟨sides, after, filled, done⟩ := Growing.bind_eval_ok.mp done
    obtain ⟨d, _, found, done⟩ := Growing.bind_eval_ok.mp done
    rw [Growing.eval_read, Prod.mk.injEq] at found
    obtain ⟨found, rfl⟩ := found
    cases done
    exact ⟨name, made, middle, sides, d, named, methods, filled, found, rfl⟩
  · rintro ⟨name, made, middle, sides, d, named, methods, filled, found, rfl⟩
    refine Growing.bind_eval_ok.mpr ⟨name, r, congrArg (·, r) named, ?_⟩
    refine Growing.bind_eval_ok.mpr ⟨made, middle, methods, ?_⟩
    refine Growing.bind_eval_ok.mpr ⟨sides, grown, filled, ?_⟩
    exact Growing.bind_eval_ok.mpr ⟨d, grown, congrArg (·, grown) found, rfl⟩

end PropertyTables
