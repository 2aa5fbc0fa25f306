import PropertyTables.Proofs.Registry.Grounded
import PropertyTables.Proofs.Table.Collected
import PropertyTables.Proofs.Table.Members
import PropertyTables.Proofs.Table.Views

/-! # Methods and fields of some names

The methods of one signature have one name. So a build that sees only the methods of some names
keeps those of them that it would keep among all.

* `Members.keeping`, `Registry.keeping`: the members of some names alone.
* `addUnique_keeping`, `collectMethods_keeping`: what is kept among them.
* `collectMethods_joins`: discovery succeeds if it does on the methods of some names and on the
  others.
-/

namespace PropertyTables
set_option autoImplicit false

open Growing (Lasting Blind)

/-! ## Members of some names -/

/-- Fields in their new order. -/
def renumbered (fields : List Field) : List Field :=
  fields.mapIdx fun i f => { f with position := i }

/-- The methods and the fields whose names satisfy two conditions. -/
def Members.keeping {owner : TypeId} (method field : String → Bool) (ms : Members owner) :
    Members owner where
  methods := ms.methods.filter (method ·.name)
  fields := renumbered (ms.fields.filter (field ·.name))
  constructors := ms.constructors
  methods_declaring m listed := ms.methods_declaring m (List.mem_of_mem_filter listed)
  fields_declaring i f found := by
    rw [renumbered, List.getElem?_mapIdx] at found
    obtain ⟨g, there, rfl⟩ := Option.map_eq_some_iff.mp found
    have listed := List.mem_of_mem_filter (List.mem_of_getElem? there)
    obtain ⟨j, at_j⟩ := List.getElem?_of_mem listed
    exact ⟨(ms.fields_declaring j g at_j).1, rfl⟩
  constructors_declaring := ms.constructors_declaring

/-- The members of some names for the given types, and all members for the others. -/
def MemberMap.keeping (among : List TypeId) (method field : String → Bool) : MemberMap :=
  fun id ms => if id ∈ among then ms.keeping method field else ms

/-- The registry with members of some names alone for the given types. -/
def Registry.keeping (r : Registry) (among : List TypeId) (method field : String → Bool) : Registry :=
  r.mapMembers (.keeping among method field)

theorem MemberMap.keepsNone_keeping (among : List TypeId) (method field : String → Bool) :
    (MemberMap.keeping among method field).KeepsNone := by
  intro id
  show (if _ then _ else _) = _
  split <;> rfl

section
variable {r : Registry} {among : List TypeId} {method field : String → Bool} {owner : TypeId}
  {limit : Nat}

theorem mem_renumbered {fields : List Field} {f : Field} (listed : f ∈ renumbered fields) :
    ∃ g ∈ fields, ∃ i, f = { g with position := i } := by
  obtain ⟨i, found⟩ := List.getElem?_of_mem listed
  obtain ⟨g, there, rfl⟩ := Option.map_eq_some_iff.mp ((List.getElem?_mapIdx).symm.trans found)
  exact ⟨g, List.mem_of_getElem? there, i, rfl⟩

theorem Registry.Grounded.keeping (h : r.Grounded) : (r.keeping among method field).Grounded := by
  intro id d there
  obtain ⟨e, found, rfl⟩ := Option.map_eq_some_iff.mp ((r.find?_mapMembers id).symm.trans there)
  have old : r.HandedOut e.ids := h id e found
  have kept : r.HandedOut (e.mapMembers (.keeping among method field)).ids := by
    simp only [Declaration.ids, Registry.handedOut_append, Registry.handedOut_flatMap] at old ⊢
    obtain ⟨⟨⟨⟨⟨clauses, params⟩, methods⟩, fields⟩, constructors⟩, flavor⟩ := old
    refine ⟨⟨⟨⟨⟨clauses, params⟩, fun m listed => ?_⟩, fun f listed => ?_⟩, ?_⟩, flavor⟩
    · change m ∈ (MemberMap.keeping among method field e.id e.members).methods at listed
      rw [MemberMap.keeping] at listed
      split at listed
      · exact methods m (List.mem_of_mem_filter listed)
      · exact methods m listed
    · change f ∈ (MemberMap.keeping among method field e.id e.members).fields at listed
      rw [MemberMap.keeping] at listed
      split at listed
      · obtain ⟨g, member, i, rfl⟩ := mem_renumbered listed
        exact fields g (List.mem_of_mem_filter member)
      · exact fields f listed
    · change ∀ c ∈ (MemberMap.keeping among method field e.id e.members).constructors, _
      rw [MemberMap.keeping]
      split
      · exact constructors
      · exact constructors
  intro i occurs
  rw [Registry.keeping, Registry.size_mapMembers]
  exact kept i occurs

/-! ## Discovery -/

theorem addUnique_step {kept : List (Signature × Method)} {m : Method} {rest : List Method}
    {signature : Signature} (plain : m.modifiers.isBridge = false)
    (erased : m.signature.eval r = (.ok signature, r)) : (addUnique kept (m :: rest)).eval r =
      (addUnique (if kept.any (·.1 = signature) then kept else kept ++ [(signature, m)])
        rest).eval r := by
  rw [addUnique, plain, if_neg Bool.false_ne_true, Growing.eval_bind, erased]
  show (if _ then _ else _ : Growing _).eval r = _
  split <;> rfl

/-- Among the methods of some names, those are kept that are kept among all. -/
theorem addUnique_keeping {kept made : List (Signature × Method)} {methods : List Method}
    (h : KeptBySignature r kept) (done : (addUnique kept methods).eval r = (.ok made, r)) :
    (addUnique (kept.filter (method ·.2.name)) (methods.filter (method ·.name))).eval r =
      (.ok (made.filter (method ·.2.name)), r) := by
  induction methods generalizing kept with
  | nil =>
    cases done
    rfl
  | cons m rest ih =>
    by_cases bridge : m.modifiers.isBridge = true
    · rw [addUnique, if_pos bridge] at done
      have later := ih h done
      rw [List.filter_cons]
      split
      · rwa [addUnique, if_pos bridge]
      · exact later
    have plain := Bool.eq_false_iff.mpr bridge
    obtain ⟨signature, erased, done⟩ := addUnique_settled plain done
    have named := Method.signature_name erased
    have next : KeptBySignature r
        (if kept.any (·.1 = signature) then kept else kept ++ [(signature, m)]) := by
      split
      · exact h
      · refine List.forall_mem_append.mpr ⟨h, ?_⟩
        exact List.forall_mem_singleton.mpr erased
    have later := ih next done
    rw [List.filter_cons]
    cases chosen : method m.name with
    | false =>
      have same : (if kept.any (·.1 = signature) then kept else kept ++ [(signature, m)]).filter
          (method ·.2.name) = kept.filter (method ·.2.name) := by
        split
        · rfl
        · rw [List.filter_append, List.filter_singleton, chosen]
          exact List.append_nil _
      rwa [same] at later
    | true =>
      -- methods of this signature have this name, so none of them is lost
      have same : (kept.filter (method ·.2.name)).any (·.1 = signature) =
          kept.any (·.1 = signature) := by
        rw [Bool.eq_iff_iff, List.any_eq_true, List.any_eq_true]
        constructor
        · rintro ⟨p, listed, here⟩
          exact ⟨p, List.mem_of_mem_filter listed, here⟩
        · rintro ⟨p, listed, here⟩
          have name : p.2.name = m.name := by
            rw [← Method.signature_name (h p listed), of_decide_eq_true here, named]
          exact ⟨p, List.mem_filter.mpr ⟨listed, by rw [name, chosen]⟩, here⟩
      rw [if_pos rfl, addUnique_step plain erased, same]
      split at later
      · rename_i known
        rwa [if_pos known]
      · rename_i fresh
        rw [List.filter_append, List.filter_singleton, chosen] at later
        rwa [if_neg fresh]

/-- Some methods are collected without a fault if each of them has a signature. -/
theorem addUnique_succeeds {kept : List (Signature × Method)} {methods : List Method} :
    (∃ made, (addUnique kept methods).eval r = (.ok made, r)) ↔
      ∀ m ∈ methods, m.modifiers.isBridge = false → ∃ a, m.signature.eval r = (.ok a, r) := by
  induction methods generalizing kept with
  | nil => exact ⟨fun _ => by simp, fun _ => ⟨kept, rfl⟩⟩
  | cons m rest ih =>
    rw [List.forall_mem_cons]
    by_cases bridge : m.modifiers.isBridge = true
    · rw [addUnique, if_pos bridge, ih]
      exact (and_iff_right fun plain => absurd bridge (Bool.eq_false_iff.mp plain)).symm
    have plain := Bool.eq_false_iff.mpr bridge
    constructor
    · rintro ⟨made, done⟩
      obtain ⟨signature, erased, done⟩ := addUnique_settled plain done
      exact ⟨fun _ => ⟨signature, erased⟩, ih.mp ⟨made, done⟩⟩
    · rintro ⟨here, later⟩
      obtain ⟨signature, erased⟩ := here plain
      obtain ⟨made, done⟩ := ih.mpr later
      exact ⟨made, (addUnique_step plain erased).trans done⟩

theorem find_keeping (method field : String → Bool) {id : TypeId} {d : Declaration}
    (found : r.find? id = some d) (listed : id ∈ among) :
    ∃ e, (r.keeping among method field).find? id = some e ∧
      e.methods = d.methods.filter (method ·.name) ∧
      e.fields = renumbered (d.fields.filter (field ·.name)) ∧ e.superclass? = d.superclass? := by
  have kept : MemberMap.keeping among method field d.id d.members =
      d.members.keeping method field := by
    rw [MemberMap.keeping, if_pos (Registry.id_of_find? found ▸ listed)]
  refine ⟨d.mapMembers (.keeping among method field), ?_, congrArg Members.methods kept,
    congrArg Members.fields kept, rfl⟩
  rw [Registry.keeping, Registry.find?_mapMembers, found, Option.map_some]

theorem collectFrom_keeping {kept made : List (Signature × Method)} {ids : List TypeId}
    (within : ∀ id ∈ ids, id ∈ among) (h : KeptBySignature r kept)
    (done : (collectFrom kept ids).eval r = (.ok made, r)) :
    (collectFrom (kept.filter (method ·.2.name)) ids).eval (r.keeping among method field) =
      (.ok (made.filter (method ·.2.name)), r.keeping among method field) := by
  have nothing := MemberMap.keepsNone_keeping among method field
  induction ids generalizing kept with
  | nil =>
    cases done
    rfl
  | cons id rest ih =>
    obtain ⟨here, later⟩ := List.forall_mem_cons.mp within
    obtain ⟨d, next, found, added, done⟩ := collectFrom_step.mp done
    obtain ⟨e, found', methods, -⟩ := find_keeping method field found here
    refine collectFrom_step.mpr ⟨e, next.filter (method ·.2.name), found', ?_,
      ih later (addUnique_signatures h added) done⟩
    rw [methods]
    exact ((addUnique_blind nothing _ _).settled_iff (addUnique_lasting _ _)).mpr
      (addUnique_keeping h added)

/-- Types are searched without a fault if all are declared and their methods have signatures. -/
theorem collectFrom_succeeds {kept : List (Signature × Method)} {ids : List TypeId} :
    (∃ made, (collectFrom kept ids).eval r = (.ok made, r)) ↔
      ∀ id ∈ ids, ∃ d, r.find? id = some d ∧ ∀ m ∈ d.methods, m.modifiers.isBridge = false →
        ∃ a, m.signature.eval r = (.ok a, r) := by
  induction ids generalizing kept with
  | nil => exact ⟨fun _ => by simp, fun _ => ⟨kept, rfl⟩⟩
  | cons id rest ih =>
    rw [List.forall_mem_cons]
    constructor
    · rintro ⟨made, done⟩
      obtain ⟨d, next, found, added, done⟩ := collectFrom_step.mp done
      exact ⟨⟨d, found, addUnique_succeeds.mp ⟨next, added⟩⟩, ih.mp ⟨made, done⟩⟩
    · rintro ⟨⟨d, found, signatures⟩, later⟩
      obtain ⟨next, added⟩ := addUnique_succeeds.mpr signatures
      obtain ⟨made, done⟩ := ih.mpr later
      exact ⟨made, collectFrom_step.mpr ⟨d, next, found, added, done⟩⟩

/-- Types are searched without a fault if they are for the methods of some names and for the
others. -/
theorem collectFrom_joins {kept kept' made made' start : List (Signature × Method)}
    {ids : List TypeId} (within : ∀ id ∈ ids, id ∈ among)
    (done : (collectFrom kept ids).eval (r.keeping among method field) =
      (.ok made, r.keeping among method field))
    {method' field' : String → Bool} (others : ∀ name, method' name = !method name)
    (done' : (collectFrom kept' ids).eval (r.keeping among method' field') =
      (.ok made', r.keeping among method' field')) :
    ∃ all, (collectFrom start ids).eval r = (.ok all, r) := by
  refine collectFrom_succeeds.mpr fun id listed => ?_
  obtain ⟨e, there, here⟩ := collectFrom_succeeds.mp ⟨made, done⟩ id listed
  obtain ⟨e', there', here'⟩ := collectFrom_succeeds.mp ⟨made', done'⟩ id listed
  obtain ⟨d, found, -⟩ := Option.map_eq_some_iff.mp ((r.find?_mapMembers id).symm.trans there)
  refine ⟨d, found, fun m member plain => ?_⟩
  have settled {name field : String → Bool} {e : Declaration}
      (there : (r.keeping among name field).find? id = some e)
      (signatures : ∀ m ∈ e.methods, m.modifiers.isBridge = false →
        ∃ a, m.signature.eval (r.keeping among name field) = (.ok a, r.keeping among name field))
      (chosen : name m.name = true) : ∃ a, m.signature.eval r = (.ok a, r) := by
    obtain ⟨e, found', methods, -⟩ := find_keeping name field found (within id listed)
    obtain rfl := Option.some.inj (there.symm.trans found')
    obtain ⟨a, erased⟩ := signatures m (methods ▸ List.mem_filter.mpr ⟨member, chosen⟩) plain
    exact ⟨a, ((m.signature_blind (MemberMap.keepsNone_keeping among name field)).settled_iff
      m.signature_lasting).mp erased⟩
  cases chosen : method m.name with
  | true => exact settled there here chosen
  | false => exact settled there' here' (by rw [others, chosen]; rfl)

section Hierarchy
variable (hierarchy : ∀ id, Relation.ReflTransGen r.DeclaredSupertype owner id → id ∈ among)
include hierarchy

theorem collectMethods_keeping {methods : List Method}
    (done : (collectMethods owner limit).eval r = (.ok methods, r)) :
    (collectMethods owner limit).eval (r.keeping among method field) =
      (.ok (methods.filter (method ·.name)), r.keeping among method field) := by
  obtain ⟨chain, kept, walked, collected, rfl⟩ := collectMethods_settled.mp done
  have within := fun id listed => hierarchy id (Registry.discoveryOrder_above walked id listed)
  refine collectMethods_settled.mpr ⟨chain, kept.filter (method ·.2.name), ?_, ?_, ?_⟩
  · rw [Registry.keeping, Registry.classChain_mapMembers, walked]
  · rw [Registry.keeping, Registry.discoveryOrder_mapMembers]
    exact collectFrom_keeping within (by simp [KeptBySignature]) collected
  · rw [List.filter_map]
    rfl

/-- Discovery succeeds if it does for the methods of some names and for the others. -/
theorem collectMethods_joins {methods methods' : List Method}
    (done : (collectMethods owner limit).eval (r.keeping among method field) =
      (.ok methods, r.keeping among method field))
    {method' field' : String → Bool} (others : ∀ name, method' name = !method name)
    (done' : (collectMethods owner limit).eval (r.keeping among method' field') =
      (.ok methods', r.keeping among method' field')) :
    ∃ all, (collectMethods owner limit).eval r = (.ok all, r) := by
  obtain ⟨chain, kept, walked, collected, -⟩ := collectMethods_settled.mp done
  obtain ⟨chain', kept', walked', collected', -⟩ := collectMethods_settled.mp done'
  rw [Registry.keeping, Registry.classChain_mapMembers] at walked walked'
  obtain rfl := Except.ok.inj (walked.symm.trans walked')
  have within := fun id listed => hierarchy id (Registry.discoveryOrder_above walked id listed)
  rw [Registry.keeping, Registry.discoveryOrder_mapMembers] at collected collected'
  obtain ⟨all, collected⟩ := collectFrom_joins within collected others collected'
  exact ⟨_, collectMethods_settled.mpr ⟨chain, all, walked, collected, rfl⟩⟩

end Hierarchy

end

end PropertyTables
