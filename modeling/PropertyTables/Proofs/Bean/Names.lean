import PropertyTables.Table.Build
import Mathlib.Data.List.Nodup

/-! # Names of properties and of their accessors

* `Side.word`, `PropertyName.accessor`: how a property's name is written in its accessor names.
* `PropertyName.Faithful`: names that accessor names lead back to. `Faithful.accessor_inj` says that
  no two of their accessors have one name.
* `Faithful.isAccessor`: a method of such a name and with the right number of parameters counts as
  an accessor.
-/

namespace PropertyTables
set_option autoImplicit false

/-- The word that the accessor names of a side start with. -/
def Side.word : Side → String
  | read => "get"
  | write => "set"

namespace PropertyName
variable {n n' : String} {side side' : Side}

/-- The name of the accessor of a property. -/
def accessor (side : Side) (n : String) : String := side.word ++ accessorSuffix n

/-- A name that can be a property's and that its accessor names lead back to. -/
structure Faithful (n : String) : Prop where
  nonempty : n ≠ ""
  included : isExcluded n = false
  returns : ofAccessor (accessor .read n) = .ok n

theorem accessor_toList (side : Side) (n : String) :
    (accessor side n).toList = side.word.toList ++ (accessorSuffix n).toList :=
  String.toList_append

theorem ofAccessor_accessor (side : Side) (n : String) :
    ofAccessor (accessor side n) =
      .ok (String.ofList (decapitalizeChars (accessorSuffix n).toList)) := by
  have after : afterAccessorWord? (accessor side n) = some (accessorSuffix n).toList := by
    rw [afterAccessorWord?, accessor_toList]
    cases side <;> rfl
  rw [ofAccessor, after]

namespace Faithful

theorem ofAccessor (h : Faithful n) (side : Side) :
    PropertyName.ofAccessor (accessor side n) = .ok n := by
  have returns := h.returns
  rw [ofAccessor_accessor] at returns ⊢
  exact returns

theorem accessorSuffix_ne_nil (h : Faithful n) : (accessorSuffix n).toList ≠ [] := by
  intro empty
  have returns := h.returns
  rw [ofAccessor_accessor, empty] at returns
  exact h.nonempty (Except.ok.inj returns).symm

theorem startsWithWord (h : Faithful n) (side : Side) :
    PropertyTables.startsWithWord side.word.toList (accessor side n) = true := by
  obtain ⟨c, rest, written⟩ := List.exists_cons_of_ne_nil h.accessorSuffix_ne_nil
  rw [PropertyTables.startsWithWord, accessor_toList, written]
  cases side <;> rfl

/-- No two accessors of faithful names have one name. -/
theorem accessor_inj (h : Faithful n) (h' : Faithful n')
    (same : accessor side n = accessor side' n') : side = side' ∧ n = n' := by
  have property : n = n' := by
    have returns := h.ofAccessor side
    rw [same, h'.ofAccessor side'] at returns
    exact (Except.ok.inj returns).symm
  subst property
  have first := congrArg (fun name => name.toList.head?) same
  simp only [accessor_toList] at first
  refine ⟨?_, rfl⟩
  cases side <;> cases side' <;> simp [Side.word] at first ⊢

/-- Whether a method counts as the accessor that it is named as. -/
theorem isAccessor (h : Faithful n) {m : Method} (named : m.name = accessor side n)
    (params : m.params.length = match side with
      | .read => 0
      | .write => 1) :
    m.isAccessor side' = decide (side = side') := by
  have starts := h.startsWithWord side
  cases side <;> cases side' <;>
    simp_all [Method.isAccessor, isGetterName, isSetterName, Side.word]

end Faithful

end PropertyName

end PropertyTables
