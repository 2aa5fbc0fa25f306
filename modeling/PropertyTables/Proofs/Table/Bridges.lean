import PropertyTables.Proofs.Table.Members

/-! # Bridges make no difference

* `addFields_blind`, `Table.build_blind`: where members change that no build asks for, tables are
  the same.
* `Registry.withoutBridges`: the registry with all bridges taken away. Two registries differ in
  bridges alone if they are the same without them.
* `collectMethods_bridges`, `build_bridges`: then the same methods are collected, and the tables are
  the same.
-/

namespace PropertyTables
set_option autoImplicit false

open Growing (Lasting Blind)

/-! ## Builds that no change touches -/

section Blindness
variable {φ : MemberMap} (nothing : φ.KeepsNone)
include nothing

theorem addField_blind (owner : TypeId) (made : Sides) (f : Field) :
    Blind φ (addField owner made f) := by
  unfold addField
  dsimp only
  split
  · exact .pure made
  · exact (Blind.read fun r => r.resolveField_mapMembers f owner).bind fun generic =>
      (generic.erase_blind nothing).map _

variable (fields : ∀ id (ms : Members id), (φ id ms).fields = ms.fields)
include fields

theorem addFields_blind (owner : TypeId) (limit room : Nat) (start : Option TypeId) (made : Sides) :
    Blind φ (addFields owner limit room start made) := by
  induction room generalizing start made with
  | zero =>
    cases start with
    | none => exact .pure made
    | some id => exact fun r => rfl
  | succ room ih =>
    cases start with
    | none => exact .pure made
    | some id =>
      intro r
      rw [addFields, Growing.eval_bind, Growing.eval_bind, Growing.eval_read, Growing.eval_read,
        r.find_mapMembers]
      cases r.find id with
      | error fault => rfl
      | ok d =>
        show ((φ d.id d.members).fields.foldlM (addField owner) made >>= fun next => _).eval _ = _
        rw [fields]
        exact ((Blind.foldlM (addField_blind nothing owner) made d.fields).bind
          (ih d.superclass?)) r

/-- Changes that keep the methods that are no bridges, the fields and the constructors leave tables
as they are. -/
theorem Table.build_blind
    (plain : ∀ id (ms : Members id), plainMethods (φ id ms).methods = plainMethods ms.methods)
    (constructors : ∀ id (ms : Members id), (φ id ms).constructors = ms.constructors)
    (type : TypeId) (limit : Nat) : Blind φ (Table.build type limit) := by
  rw [Table.build_eq_methodEntries]
  refine (Blind.read fun r => r.fullName_mapMembers type).bind fun name => ?_
  refine (methodEntries_blind nothing plain type limit).bind fun made => ?_
  refine (addFields_blind nothing fields type limit limit (some type) made).bind fun sides => ?_
  intro r
  rw [Growing.eval_bind, Growing.eval_bind, Growing.eval_read, Growing.eval_read, r.find_mapMembers]
  cases r.find type with
  | error fault => rfl
  | ok d =>
    have same : (d.mapMembers φ).defaultConstructor? = d.defaultConstructor? := by
      show (φ d.id d.members).constructors.find? _ = _
      rw [constructors]
      rfl
    show (Except.ok _, _) = (Except.ok _, _)
    rw [same]

end Blindness

/-! ## Taking bridges away -/

/-- The members without the bridges. -/
def Members.withoutBridges {owner : TypeId} (ms : Members owner) : Members owner where
  methods := plainMethods ms.methods
  fields := ms.fields
  constructors := ms.constructors
  methods_declaring m listed := ms.methods_declaring m (List.mem_of_mem_filter listed)
  fields_declaring := ms.fields_declaring
  constructors_declaring := ms.constructors_declaring

/-- The registry without the bridges. -/
def Registry.withoutBridges (r : Registry) : Registry := r.mapMembers fun _ ms => ms.withoutBridges

section
variable {r s : Registry} {α : Type} {x : Growing α}

/-- Whether a computation is the same without bridges. -/
def Growing.MissesBridges (x : Growing α) : Prop := Blind (fun _ ms => ms.withoutBridges) x

theorem Growing.MissesBridges.outcome (h : x.MissesBridges)
    (same : r.withoutBridges = s.withoutBridges) : (x.eval r).1 = (x.eval s).1 := by
  have missed (t : Registry) : (x.eval t.withoutBridges).1 = (x.eval t).1 := by
    rw [Registry.withoutBridges, h t, Prod.map_fst, id]
  rw [← missed r, same, missed s]

theorem keepsNone_withoutBridges : MemberMap.KeepsNone fun _ ms => ms.withoutBridges := fun _ => rfl

theorem plainMethods_withoutBridges (id : TypeId) (ms : Members id) :
    plainMethods ms.withoutBridges.methods = plainMethods ms.methods := by
  show List.filter _ (List.filter _ _) = List.filter _ _
  rw [List.filter_filter, funext fun _ => Bool.and_self _]

/-- Registries that differ in bridges alone have the same methods collected. -/
theorem collectMethods_bridges (same : r.withoutBridges = s.withoutBridges) (type : TypeId)
    (limit : Nat) : ((collectMethods type limit).eval r).1 = ((collectMethods type limit).eval s).1 :=
  Growing.MissesBridges.outcome
    (collectMethods_blind keepsNone_withoutBridges plainMethods_withoutBridges type limit) same

/-- Registries that differ in bridges alone have the same tables. -/
theorem build_bridges (same : r.withoutBridges = s.withoutBridges) (type : TypeId) (limit : Nat) :
    ((Table.build type limit).eval r).1 = ((Table.build type limit).eval s).1 :=
  Growing.MissesBridges.outcome (Table.build_blind keepsNone_withoutBridges (fun _ _ => rfl)
    plainMethods_withoutBridges (fun _ _ => rfl) type limit) same

end

end PropertyTables
