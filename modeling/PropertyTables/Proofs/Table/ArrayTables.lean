import PropertyTables.Proofs.Hierarchy.Interning
import PropertyTables.Proofs.Table.Twins

/-! # Tables of array types

An array type has no members, and its table no properties. Which identity it has makes no difference
to that, so that all twins have tables alike.

* `Table.build_memberless`: the table of a type without members right below the root type.
* `PropertiesTwin`: tables of types that are twins.
* `build_twins`: building the tables of twins gives the same fault, or such tables.
-/

namespace PropertyTables
set_option autoImplicit false

open Growing (InStep Remains)
open Registry (Forks Twin)

/-! ## Types without members -/

section Memberless
variable {r : Registry} {id : TypeId} {d : Declaration} (found : r.find? id = some d)
include found

theorem collectFrom_memberless (methods : d.methods = []) :
    (collectFrom [] [id]).eval r = (.ok [], r) := by
  rw [collectFrom, Growing.eval_bind, Growing.eval_read, Registry.find_eq_ok.mpr found]
  show ((addUnique [] d.methods >>= fun kept => collectFrom kept []).eval r) = _
  rw [methods]
  rfl

theorem addFields_memberless (fields : d.fields = []) (owner : TypeId) (limit room : Nat)
    (made : Sides) : (addFields owner limit (room + 1) (some id) made).eval r =
      (addFields owner limit room d.superclass? made).eval r := by
  rw [addFields, Growing.eval_bind, Growing.eval_read, Registry.find_eq_ok.mpr found]
  show ((d.fields.foldlM (addField owner) made >>= _ : Growing Sides).eval r) = _
  rw [fields]
  rfl

variable (reachable : r.Reachable) (parent : d.superclass? = some .object)
include reachable parent

theorem Registry.ne_object_of_below : id ≠ .object := by
  rintro rfl
  have top := reachable.superclass?_object
  rw [superclass?_of_find? found, parent] at top
  cases top

theorem Registry.classChain_below (limit room : Nat) :
    r.classChain limit (room + 1) (some id) = .ok [id] := by
  have above : r.classChain limit room (some .object) = .ok [] := by
    cases room <;> rw [classChain, if_pos rfl]
  rw [classChain, if_neg (ne_object_of_below found reachable parent), find_eq_ok.mpr found]
  show (do return id :: (← r.classChain limit room d.superclass?)) = _
  rw [parent, above]
  rfl

theorem methodEntries_memberless (methods : d.methods = []) (interfaces : r.superinterfaces id = [])
    (limit : Nat) : (methodEntries id (limit + 1)).eval r = (.ok ⟨{}, {}⟩, r) := by
  have order : r.discoveryOrder [] [id] = [id] := by
    rw [Registry.discoveryOrder, interfaces, Registry.interfaceWalk, preorder]
    rfl
  have collected : (collectMethods id (limit + 1)).eval r = (.ok [], r) := by
    rw [collectMethods_eq, Growing.eval_bind, Growing.eval_read,
      Registry.classChain_below found reachable parent]
    show ((collectAlong [id] >>= fun kept => pure (kept.map (·.2))).eval r) = _
    rw [Growing.eval_bind, collectAlong_eval, order, collectFrom_memberless found methods]
    rfl
  rw [methodEntries, Growing.eval_bind, collected]
  rfl

/-- Such a type has two classes in its chain, itself and the root type, and no properties. -/
theorem Table.build_memberless (methods : d.methods = []) (fields : d.fields = [])
    (interfaces : r.superinterfaces id = []) (limit : Nat) :
    (Table.build id limit).eval r = (if limit < 2 then .error (.recursionLimit limit) else .ok {
      type := id
      name := d.fullName
      readers := {}
      writers := {}
      defaultConstructor? := d.defaultConstructor? }, r) := by
  have named : r.fullName id = .ok d.fullName := by
    rw [Registry.fullName, Registry.find_eq_ok.mpr found]
    rfl
  rw [Table.build_eq_methodEntries, Growing.eval_bind, Growing.eval_read, named]
  show ((methodEntries id limit >>= _ : Growing Table).eval r) = _
  rw [Growing.eval_bind]
  cases limit with
  | zero =>
    have other := Registry.ne_object_of_below found reachable parent
    rw [methodEntries, Growing.eval_bind, collectMethods_eq, Growing.eval_bind, Growing.eval_read,
      Registry.classChain, if_neg other]
    rfl
  | succ room =>
    rw [methodEntries_memberless found reachable parent methods interfaces]
    show ((addFields id (room + 1) (room + 1) (some id) ⟨{}, {}⟩ >>= _ : Growing Table).eval r) = _
    rw [Growing.eval_bind, addFields_memberless found fields, parent]
    cases room with
    | zero => rfl
    | succ room =>
      have root := reachable.extends .object _ rfl
      have above : (addFields id (room + 2) room none ⟨{}, {}⟩).eval r = (.ok ⟨{}, {}⟩, r) := by
        cases room <;> rfl
      rw [addFields_memberless root rfl, Declaration.superclass?, Option.bind_none, above]
      show ((Growing.read (·.find id) >>= _ : Growing Table).eval r) = _
      rw [Growing.eval_bind, Growing.eval_read, Registry.find_eq_ok.mpr found]
      rfl

end Memberless

variable {b r s : Registry} {i i' : TypeId} {d : Declaration}

/-- The table of an array type that was interned. -/
theorem Registry.Interns.build_new (interned : b.Interns r) (reachable : b.Reachable)
    (new : b.size ≤ i.index) (found : r.find? i = some d) (limit : Nat) :
    (Table.build i limit).eval r = (if limit < 2 then .error (.recursionLimit limit) else .ok {
      type := i
      name := d.fullName
      readers := {}
      writers := {}
      defaultConstructor? := d.defaultConstructor? }, r) := by
  rcases interned.find?_cases found with before | ⟨unknown, methods, fields, parent⟩
  · exact absurd (lt_size_of_find? before) (Nat.not_lt.mpr new)
  · have interfaces : r.superinterfaces i = [] := by
      rw [interned.superinterfaces_eq, superinterfaces, unknown, Option.elim_none]
    exact Table.build_memberless found (reachable.interns interned) parent methods fields interfaces
      limit

/-! ## Tables of twins -/

/-- Tables under one name, with the same accessors and generic types, and types that are twins. -/
structure PropertiesTwin (n : Nat) (r s : Registry) (t t' : Table) : Prop where
  name : t.name = t'.name
  readers : IndexTwin n r s t.readers t'.readers
  writers : IndexTwin n r s t.writers t'.writers

theorem PropertiesTwin.remains (n : Nat) : Remains (PropertiesTwin n) :=
  fun _ _ _ _ _ _ twins grows grows' =>
    ⟨twins.name, IndexTwin.remains n _ _ _ _ _ _ twins.readers grows grows',
      IndexTwin.remains n _ _ _ _ _ _ twins.writers grows grows'⟩

theorem build_twins (h : Forks b r s) (reachable : b.Reachable) (twin : Twin b.size r s i i')
    (limit : Nat) :
    InStep r s (PropertiesTwin b.size) (Table.build i limit) (Table.build i' limit) := by
  have named := h.fullName twin
  cases twin with
  | old before =>
    exact (build_inStep h before limit).imp fun _ _ _ _ twins =>
      ⟨twins.name, twins.readers, twins.writers⟩
  | array components known known' new new' =>
    obtain ⟨d, found, -⟩ := Registry.findArray?_eq_some known
    obtain ⟨d', found', -⟩ := Registry.findArray?_eq_some known'
    have left := h.left.build_new reachable new found limit
    have right := h.right.build_new reachable new' found' limit
    rw [Registry.fullName, Registry.fullName, Registry.find_eq_ok.mpr found,
      Registry.find_eq_ok.mpr found'] at named
    split at left
    · rename_i short
      rw [if_pos short] at right
      exact .fault _ r s left right
    · rename_i long
      rw [if_neg long] at right
      exact .value _ _ r s left right (.refl r) (.refl s) ⟨Except.ok.inj named, .nil, .nil⟩

end PropertyTables
