import PropertyTables.Proofs.Generics.ResolvedTypes
import PropertyTables.Proofs.Table.Entries

/-! # Resolved types are closed

* `GenericType.IsClosed`: no variable occurs, at any depth.
* `isClosed_resolves`: putting closed types for all variables leaves no variable.
* `resolved_types_closed`: the types of members, and of all entries of property tables.
-/

namespace PropertyTables
set_option autoImplicit false

/-- Whether no variable occurs in a type. -/
def GenericType.IsClosed (t : GenericType) : Prop := t.vars = []

/-- Closed types put for all variables of a type, whatever type it is, leave no variable. -/
theorem isClosed_resolves : Resolves (fun _ => True) GenericType.IsClosed where
  root := rfl
  subst σ t closed _ := by
    rw [GenericType.IsClosed, List.eq_nil_iff_forall_not_mem]
    intro x hx
    obtain ⟨y, -, hxy⟩ := GenericType.mem_vars_subst.mp hx
    have none : (σ y).vars = [] := closed y
    rw [none] at hxy
    exact List.not_mem_nil hxy

namespace Registry

variable {r : Registry} {owner : TypeId}

theorem declaresOnly_true (r : Registry) : r.DeclaresOnly fun _ => True where
  args _ _ _ _ _ _ _ := .intro
  bounds _ _ _ _ _ _ _ := .intro

/-! ## Closed member types -/

theorem resolveReturn_isClosed {m : Method} {t : GenericType}
    (h : r.resolveReturn m owner = .ok t) : t.IsClosed :=
  isClosed_resolves.resolveReturn r.declaresOnly_true .intro (fun _ _ _ _ => .intro) h

theorem resolveParams_isClosed {m : Method} {ts : List GenericType}
    (h : r.resolveParams m owner = .ok ts) : ∀ t ∈ ts, t.IsClosed :=
  isClosed_resolves.resolveParams r.declaresOnly_true (fun _ _ => .intro)
    (fun _ _ _ _ => .intro) h

theorem resolveField_isClosed {f : Field} {t : GenericType}
    (h : r.resolveField f owner = .ok t) : t.IsClosed :=
  isClosed_resolves.resolveField r.declaresOnly_true .intro h

end Registry

/-! ## Closed entries -/

theorem getterEntry_isClosed (type : TypeId) (m : Method) :
    (getterEntry type m).Ensures fun e => e.generic.IsClosed := by
  unfold getterEntry
  refine (Growing.Ensures.read fun r t => Registry.resolveReturn_isClosed).bind fun t ht => ?_
  exact .of_next fun erased => .pure ht

theorem setterEntry_isClosed (type : TypeId) (m : Method) :
    (setterEntry type m).Ensures fun e => e.generic.IsClosed := by
  unfold setterEntry
  refine (Growing.Ensures.read fun r t => Registry.resolveParams_isClosed).bind fun ts hts => ?_
  refine .of_next fun erased => .pure ?_
  cases ts with
  | nil => rfl
  | cons t rest => exact hts t List.mem_cons_self

theorem build_isClosed (type : TypeId) (limit : Nat) :
    (Table.build type limit).Ensures fun t =>
      ∀ side, (t.entries side).Each fun e => e.generic.IsClosed :=
  build_ensures (getterEntry_isClosed type) (setterEntry_isClosed type)
    (fun _ _ _ _ ok => ⟨Registry.resolveField_isClosed ok, Registry.resolveField_isClosed ok⟩) limit

/-- No variable is left in the type of a member as any owner sees it, nor in the type of any
property of any table. -/
theorem resolved_types_closed (r : Registry) (owner : TypeId) :
    (∀ m t, r.resolveReturn m owner = .ok t → t.IsClosed) ∧
    (∀ m ts, r.resolveParams m owner = .ok ts → ∀ t ∈ ts, t.IsClosed) ∧
    (∀ f t, r.resolveField f owner = .ok t → t.IsClosed) ∧
    ∀ limit table grown, (Table.build owner limit).eval r = (.ok table, grown) →
      ∀ side name entry, table.entry side name = .ok entry → entry.generic.IsClosed := by
  refine ⟨fun m t => Registry.resolveReturn_isClosed, fun m ts => Registry.resolveParams_isClosed,
    fun f t => Registry.resolveField_isClosed, ?_⟩
  intro limit table grown done side name entry found
  have each := build_isClosed owner limit r table grown done side
  exact each.of_find? (Table.entry_eq_ok.mp found)

/-- A class whose variable is bounded by a type in which it occurs. -/
def Registry.sorted : Registry :=
  (initial.declared "" "Comparable" .interfaceType (·.withTypeParam ⟨"T", []⟩)).declared "" "Sorted"
    .classType fun d =>
      (((d.withTypeParam ⟨"T", [.applied ⟨11⟩ [.typeVar "T"]]⟩).getter "first"
        (.typeVar "T")).setter "insert" (.typeVar "T")).privateField "items" (.array (.typeVar "T"))

theorem resolved_types_closed_sorted :
    ∃ d getter setter field t table grown entry, Registry.sorted.find? ⟨12⟩ = some d ∧
      d.methods = [getter, setter] ∧ d.fields = [field] ∧
      (Registry.sorted.resolveReturn getter ⟨12⟩ = .ok t ∧ t.IsClosed) ∧
      (Registry.sorted.resolveParams setter ⟨12⟩ = .ok [t] ∧ ∀ u ∈ [t], u.IsClosed) ∧
      (Registry.sorted.resolveField field ⟨12⟩ = .ok (.array t) ∧ (GenericType.array t).IsClosed) ∧
      (Table.build ⟨12⟩ Table.defaultLimit).eval Registry.sorted = (.ok table, grown) ∧
      table.entry .read "items" = .ok entry ∧ entry.generic.IsClosed := by
  have members : ∃ d getter setter field, Registry.sorted.find? ⟨12⟩ = some d ∧
      d.methods = [getter, setter] ∧ d.fields = [field] ∧
      Registry.sorted.resolveReturn getter ⟨12⟩ = .ok (.applied ⟨11⟩ [.named .object]) ∧
      Registry.sorted.resolveParams setter ⟨12⟩ = .ok [.applied ⟨11⟩ [.named .object]] ∧
      Registry.sorted.resolveField field ⟨12⟩ = .ok (.array (.applied ⟨11⟩ [.named .object])) :=
    ⟨_, _, _, _, rfl, rfl, rfl, by cbv, by cbv, by cbv⟩
  have built : (((Table.build ⟨12⟩ Table.defaultLimit).eval Registry.sorted).1.toOption.bind
      fun table => (table.entry .read "items").toOption).isSome = true := by cbv
  obtain ⟨d, getter, setter, field, found, methods, fields, hr, hp, hf⟩ := members
  obtain ⟨returns, params, stored, entries⟩ := resolved_types_closed Registry.sorted ⟨12⟩
  rcases done : (Table.build ⟨12⟩ Table.defaultLimit).eval Registry.sorted
    with ⟨fault | table, grown⟩
  · rw [done] at built
    cases built
  · rw [done] at built
    cases listed : table.entry .read "items" with
    | error fault => simp [Except.toOption, listed] at built
    | ok entry =>
      exact ⟨d, getter, setter, field, _, table, grown, entry, found, methods, fields,
        ⟨hr, returns _ _ hr⟩, ⟨hp, params _ _ hp⟩, ⟨hf, stored _ _ hf⟩, rfl, listed,
        entries _ _ _ done _ _ _ listed⟩

end PropertyTables
