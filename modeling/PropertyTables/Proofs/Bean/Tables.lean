import PropertyTables.Proofs.Bean.Members
import PropertyTables.Proofs.Table.Matching
import PropertyTables.Proofs.Table.Origins
import PropertyTables.Proofs.Table.Views

/-! # Tables of bean classes

* `Registry.DeclaresBean`: a class of properties is declared, below the root type.
* `addUnique_distinct`: methods of different names are all kept.
* `DeclaresBean.collectMethods`, `DeclaresBean.addField`: what discovery finds, and that fields add
  nothing.
* `Table.IsBean`: the table of such a class has both accessors of every property, and nothing else.
-/

namespace PropertyTables
set_option autoImplicit false

open Growing (Lasting)

/-- A class of some properties that get along is declared, and so is the root type, which has none. -/
structure Registry.DeclaresBean (r : Registry) (id : TypeId) (props : List Property) : Prop where
  apart : Property.Apart props
  bean : ∃ d, r.find? id = some d ∧ d.IsBean props
  root : ∃ d, r.find? .object = some d ∧ d.superclass = none ∧ d.fields = []

theorem Registry.Reachable.root {r : Registry} (h : r.Reachable) :
    ∃ d, r.find? .object = some d ∧ d.superclass = none ∧ d.fields = [] :=
  ⟨_, h.extends .object _ rfl, rfl, rfl⟩

/-! ## Discovery -/

/-- Methods of different names are all kept. -/
theorem addUnique_distinct {r : Registry} {methods : List Method}
    {kept made : List (Signature × Method)} (named : ∀ p ∈ kept, p.1.name = p.2.name)
    (distinct : ((kept.map (·.2) ++ methods).map Method.name).Nodup)
    (nonbridge : ∀ m ∈ methods, m.modifiers.isBridge = false)
    (done : (addUnique kept methods).eval r = (.ok made, r)) :
    made.map (·.2) = kept.map (·.2) ++ methods := by
  induction methods generalizing kept with
  | nil =>
    cases done
    simp
  | cons m rest ih =>
    obtain ⟨here, later⟩ := List.forall_mem_cons.mp nonbridge
    obtain ⟨signature, erased, done⟩ := addUnique_settled here done
    have name := Method.signature_name erased
    have fresh : kept.any (·.1 = signature) = false := by
      refine List.any_eq_false.mpr fun p listed same => ?_
      have same : p.1 = signature := of_decide_eq_true same
      have repeated : m.name ∈ (kept.map (·.2)).map Method.name := by
        rw [← name, ← same, named p listed]
        exact List.mem_map_of_mem (List.mem_map_of_mem listed)
      rw [List.map_append, List.map_cons] at distinct
      exact (List.nodup_append.mp distinct).2.2 _ repeated m.name List.mem_cons_self rfl
    rw [if_neg (by simp [fresh])] at done
    have named' : ∀ p ∈ kept ++ [(signature, m)], p.1.name = p.2.name := by
      intro p listed
      rcases List.mem_append.mp listed with before | last
      · exact named p before
      · rw [List.mem_singleton.mp last]
        exact name
    have moved : (kept ++ [(signature, m)]).map (·.2) ++ rest = kept.map (·.2) ++ m :: rest := by
      simp
    exact (ih named' (moved ▸ distinct) later done).trans moved

namespace Registry.DeclaresBean
variable {r : Registry} {id : TypeId} {props : List Property}

theorem grow (h : r.DeclaresBean id props) {later : Registry} (grows : r.GrowsTo later) :
    later.DeclaresBean id props := by
  obtain ⟨d, found, bean⟩ := h.bean
  obtain ⟨o, root, rest⟩ := h.root
  exact ⟨h.apart, ⟨d, grows.declared id d found, bean⟩, o, grows.declared .object o root, rest⟩

theorem ne_object (h : r.DeclaresBean id props) : id ≠ .object := by
  rintro rfl
  obtain ⟨d, found, bean⟩ := h.bean
  obtain ⟨o, root, top, -⟩ := h.root
  obtain rfl := Option.some.inj (found.symm.trans root)
  rw [bean.superclass] at top
  cases top

theorem superclass? (h : r.DeclaresBean id props) : r.superclass? id = some .object := by
  obtain ⟨d, found, bean⟩ := h.bean
  rw [Registry.superclass?_of_find? found, Declaration.superclass?, bean.superclass]
  rfl

theorem superinterfaces (h : r.DeclaresBean id props) : r.superinterfaces id = [] := by
  obtain ⟨d, found, bean⟩ := h.bean
  rw [Registry.superinterfaces, found]
  simp [Declaration.superinterfaces, bean.interfaces]

theorem mem_superclassChain (h : r.DeclaresBean id props) {top : TypeId}
    (listed : top ∈ r.superclassChain id) : top = id ∨ top = .object := by
  rcases Relation.ReflTransGen.cases_head (mem_superclassChain_iff.mp listed) with
    rfl | ⟨parent, edge, rest⟩
  · exact .inl rfl
  · obtain rfl : parent = .object := Option.some.inj (edge.symm.trans h.superclass?)
    rcases Relation.ReflTransGen.cases_head rest with rfl | ⟨above, edge, -⟩
    · exact .inr rfl
    · obtain ⟨o, root, top, -⟩ := h.root
      rw [DeclaredSuperclass, Registry.superclass?, root, Option.bind_some, Declaration.superclass?,
        top] at edge
      cases edge

theorem classChain (h : r.DeclaresBean id props) {limit room : Nat} {chain : List TypeId}
    (done : r.classChain limit room (some id) = .ok chain) : chain = [id] := by
  obtain ⟨d, found, bean⟩ := h.bean
  cases room with
  | zero =>
    rw [Registry.classChain, if_neg h.ne_object] at done
    cases done
  | succ room =>
    rw [Registry.classChain, if_neg h.ne_object, find_eq_ok.mpr found] at done
    have stops : r.classChain limit room d.superclass? = .ok [] := by
      rw [Declaration.superclass?, bean.superclass]
      cases room <;> rfl
    replace done : List.cons id <$> r.classChain limit room d.superclass? = .ok chain := done
    rw [stops] at done
    exact (Except.ok.inj done).symm

/-- Discovery finds the accessors of the properties. -/
theorem collectMethods (h : r.DeclaresBean id props) {limit : Nat} {methods : List Method}
    (done : (collectMethods id limit).eval r = (.ok methods, r)) :
    methods = Property.methods id props := by
  rw [collectMethods_eq] at done
  obtain ⟨chain, read, done⟩ := ((Lasting.read (classChain_stable limit limit (some id))).bind_settled
    fun chain => (collectAlong_lasting chain).map _).mp done
  obtain rfl := h.classChain (congrArg Prod.fst read)
  obtain ⟨made, collected, done⟩ :=
    ((collectAlong_lasting [id]).bind_settled fun _ => .pure _).mp done
  cases done
  have order : r.discoveryOrder [] [id] = [id] := by
    have nothing : r.interfaceWalk (fun l => l) [] [] = [] := by rw [interfaceWalk, preorder]
    simp only [discoveryOrder, h.superinterfaces, nothing, List.append_nil]
  rw [collectAlong_eval, order] at collected
  obtain ⟨d, found, collected⟩ := ((Lasting.read (find_stable id)).bind_settled fun d =>
    (addUnique_lasting [] d.methods).bind fun kept => collectFrom_lasting kept []).mp collected
  obtain ⟨kept, unique, collected⟩ := ((addUnique_lasting [] d.methods).bind_settled fun kept =>
    collectFrom_lasting kept []).mp collected
  cases collected
  have found := find_eq_ok.mp (congrArg Prod.fst found)
  obtain ⟨e, found', bean⟩ := h.bean
  obtain rfl := Option.some.inj (found'.symm.trans found)
  have methods : e.methods = Property.methods id props := id_of_find? found ▸ bean.methods
  have nonbridge : ∀ m ∈ Property.methods id props, m.modifiers.isBridge = false := by
    intro m listed
    obtain ⟨p, -, accessor⟩ := List.mem_flatMap.mp listed
    rcases List.mem_pair.mp accessor with rfl | rfl <;> rfl
  rw [methods] at unique
  have all := addUnique_distinct (by simp) h.apart.names_nodup nonbridge unique
  rwa [List.map_nil, List.nil_append] at all

end Registry.DeclaresBean

/-! ## Passes -/

/-- A pass over properties with a single accessor each makes the entry of that accessor for each of
them, and no other. -/
theorem pass_singles {r : Registry} {pairs : List (String × Method)}
    {resolve : String → Growing (Option Method)} {make : Method → Growing Entry}
    (resolves : ∀ property, Lasting (resolve property)) (makes : ∀ m, Lasting (make m))
    (only : ∀ property m, candidates property pairs = [m] → resolve property = pure (some m))
    {names : List String} (included : ∀ n ∈ names, PropertyName.isExcluded n = false)
    {after : Index Entry} (done : (passEntries resolve make {} names).eval r = (.ok after, r))
    (name : String) : (name ∉ names → after.find? name = none) ∧
      (name ∈ names → ∀ m, candidates name pairs = [m] →
        ∃ e, after.find? name = some e ∧ (make m).eval r = (.ok e, r)) := by
  rcases pass_find resolves makes done name with ⟨absent, same⟩ | ⟨listed, result⟩
  · exact ⟨fun _ => same, fun listed => absurd listed absent⟩
  refine ⟨fun absent => absurd listed absent, fun _ m single => ?_⟩
  have picked : (resolve name).eval r = (.ok (some m), r) := by
    rw [only name m single]
    rfl
  cases result with
  | left winner resolved out _ =>
    obtain rfl := Except.ok.inj (congrArg Prod.fst (picked.symm.trans resolved))
    rw [included name listed] at out
    rcases out with none | excluded
    · cases none
    · cases excluded
  | entered m' e resolved _ made entry =>
    obtain rfl := Option.some.inj (Except.ok.inj (congrArg Prod.fst (picked.symm.trans resolved)))
    exact ⟨e, entry, made⟩

def accessorEntry (owner : TypeId) (m : Method) : Side → Growing Entry
  | .read => getterEntry owner m
  | .write => setterEntry owner m

theorem accessorEntry_accessor {owner : TypeId} {m : Method} {side : Side} {r grown : Registry}
    {e : Entry} (made : (accessorEntry owner m side).eval r = (.ok e, grown)) :
    e.accessor = .method m := by
  cases side with
  | read =>
    obtain ⟨generic, _, -, made⟩ := Growing.bind_eval_ok.mp made
    obtain ⟨type, _, -, made⟩ := Growing.bind_eval_ok.mp made
    cases made
    rfl
  | write =>
    obtain ⟨generics, _, -, made⟩ := Growing.bind_eval_ok.mp made
    obtain ⟨type, _, -, made⟩ := Growing.bind_eval_ok.mp made
    cases made
    rfl

/-- Whether an index has the entries that the accessors of some properties make, and no others. -/
structure Index.IsBean (r : Registry) (id : TypeId) (props : List Property) (side : Side)
    (x : Index Entry) : Prop where
  entry : ∀ p ∈ props, ∃ e, x.find? p.1 = some e ∧
    (accessorEntry id (p.method id side) side).eval r = (.ok e, r)
  names : ∀ n, n ∈ x.names ↔ n ∈ props.map (·.1)

theorem Index.IsBean.contains {r : Registry} {id : TypeId} {props : List Property} {side : Side}
    {x : Index Entry} (h : x.IsBean r id props side) {p : Property} (member : p ∈ props) :
    x.contains p.1 = true := by
  obtain ⟨e, found, -⟩ := h.entry p member
  rw [Index.contains, found]
  rfl

namespace Registry.DeclaresBean
variable {r : Registry} {id : TypeId} {props : List Property}

theorem mem_propertiesOf (h : r.DeclaresBean id props) (side : Side) {name : String} :
    name ∈ propertiesOf (accessors side (Property.methods id props)) ↔ name ∈ props.map (·.1) := by
  rw [propertiesOf, Index.mem_names_ofList, h.apart.accessors_methods]
  simp only [List.mem_map, Prod.mk.injEq]
  constructor
  · rintro ⟨m, p, member, named, -⟩
    exact ⟨p, member, named⟩
  · rintro ⟨p, member, named⟩
    exact ⟨p.method id side, p, member, named, rfl⟩

theorem included (h : r.DeclaresBean id props) (side : Side) :
    ∀ n ∈ propertiesOf (accessors side (Property.methods id props)),
      PropertyName.isExcluded n = false := by
  intro n listed
  obtain ⟨p, member, rfl⟩ := List.mem_map.mp ((h.mem_propertiesOf side).mp listed)
  exact (h.apart.faithful p member).included

/-- What a pass over the accessors of the properties makes. -/
theorem isBean_of_pass (h : r.DeclaresBean id props) {side : Side} {after : Index Entry}
    (made : ∀ name, (name ∉ propertiesOf (accessors side (Property.methods id props)) →
        after.find? name = none) ∧
      (name ∈ propertiesOf (accessors side (Property.methods id props)) →
        ∀ m, candidates name (accessors side (Property.methods id props)) = [m] →
          ∃ e, after.find? name = some e ∧ (accessorEntry id m side).eval r = (.ok e, r))) :
    after.IsBean r id props side := by
  have entry : ∀ p ∈ props, ∃ e, after.find? p.1 = some e ∧
      (accessorEntry id (p.method id side) side).eval r = (.ok e, r) := by
    intro p member
    have listed := (h.mem_propertiesOf side).mpr (List.mem_map_of_mem member)
    exact (made p.1).2 listed _ (h.apart.candidates_methods member side)
  refine ⟨entry, fun n => ?_⟩
  rw [Index.mem_names]
  constructor
  · rintro ⟨e, found⟩
    by_contra absent
    have nothing := (made n).1 (mt (h.mem_propertiesOf side).mp absent)
    rw [found] at nothing
    cases nothing
  · intro listed
    obtain ⟨p, member, rfl⟩ := List.mem_map.mp listed
    obtain ⟨e, found, -⟩ := entry p member
    exact ⟨e, found⟩

theorem getterEntries (h : r.DeclaresBean id props) {readers : Index Entry}
    (done : (getterEntries id (accessors .read (Property.methods id props)) {}
      (propertiesOf (accessors .read (Property.methods id props)))).eval r = (.ok readers, r)) :
    readers.IsBean r id props .read := by
  rw [getterEntries_eq] at done
  exact h.isBean_of_pass (pass_singles (fun property => resolveGetter_lasting property _)
    (getterEntry_lasting id) (fun property m only => by rw [only]; rfl) (h.included .read) done)

theorem setterEntries (h : r.DeclaresBean id props) {readers writers : Index Entry}
    (done : (setterEntries id (accessors .write (Property.methods id props)) readers {}
      (propertiesOf (accessors .write (Property.methods id props)))).eval r = (.ok writers, r)) :
    writers.IsBean r id props .write := by
  rw [setterEntries_eq] at done
  exact h.isBean_of_pass (pass_singles (fun property => resolveSetter_lasting property _ _)
    (setterEntry_lasting id) (fun property m only => by rw [only]; rfl) (h.included .write) done)

/-- The fields of the class add nothing to what its accessors made. -/
theorem addFields (h : r.DeclaresBean id props) {made after : Sides}
    (readers : made.readers.IsBean r id props .read)
    (writers : made.writers.IsBean r id props .write) {limit room : Nat}
    (done : (addFields id limit room (some id) made).eval r = (.ok after, r)) : after = made := by
  refine addFields_settled (P := (· = made)) ?_ rfl done
  rintro _ ⟨⟩ top above d found f listed _ after rfl done
  obtain ⟨e, found', bean⟩ := h.bean
  rcases h.mem_superclassChain above with rfl | rfl
  · obtain rfl := Option.some.inj (found'.symm.trans found)
    obtain ⟨p, member, named, -⟩ := bean.exists_property listed
    have read := readers.contains member
    have written := writers.contains member
    rw [← named] at read written
    simp only [addField, read, written, Bool.not_true, Bool.false_and, Bool.or_self, Bool.not_false,
      Bool.or_true, if_true] at done
    cases done
    rfl
  · obtain ⟨o, root, -, fields⟩ := h.root
    obtain rfl := Option.some.inj (root.symm.trans found)
    rw [fields] at listed
    cases listed

end Registry.DeclaresBean

/-! ## The table -/

/-- Whether a table has the accessors of some properties, which can be erased, and no others. -/
structure Table.IsBean (t : Table) (r : Registry) (id : TypeId) (props : List Property) : Prop where
  sides : ∀ side, (t.entries side).IsBean r id props side
  erasable : ∀ p ∈ props, ∀ side,
    ∃ signature, (p.method id side).signature.eval r = (.ok signature, r)

theorem Registry.DeclaresBean.build {r grown : Registry} {id : TypeId} {props : List Property}
    (h : r.DeclaresBean id props) {limit : Nat} {t : Table}
    (built : (Table.build id limit).eval r = (.ok t, grown)) : t.IsBean grown id props := by
  replace h := h.grow ((build_lasting id limit).interns_of_eval built).growsTo
  obtain ⟨name, methods, readers, writers, sides, d, -, collected, got, set, filled, -, rfl⟩ :=
    Table.build_settled built
  obtain rfl := h.collectMethods collected
  have readers_bean := h.getterEntries got
  have writers_bean := h.setterEntries set
  obtain rfl := h.addFields readers_bean writers_bean filled
  refine ⟨fun side => ?_, fun p member side => ?_⟩
  · cases side with
    | read => exact readers_bean
    | write => exact writers_bean
  · exact collectMethods_signatures collected _ (Property.method_mem_methods member side)

namespace Table.IsBean
variable {t : Table} {r : Registry} {id : TypeId} {props : List Property}

theorem names_eq (h : t.IsBean r id props) (apart : Property.Apart props) (side : Side) :
    t.names side = (props.map (·.1)).mergeSort := by
  exact Index.names_eq_mergeSort apart.nodup (h.sides side).names

theorem exists_entry (h : t.IsBean r id props) {p : Property} (member : p ∈ props) (side : Side) :
    ∃ e, t.entry side p.1 = .ok e ∧ e.accessor = .method (p.method id side) ∧
      (accessorEntry id (p.method id side) side).eval r = (.ok e, r) := by
  obtain ⟨e, found, made⟩ := (h.sides side).entry p member
  exact ⟨e, Table.entry_eq_ok.mpr found, accessorEntry_accessor made, made⟩

/-- Both accessors of a property have the type that is declared for it, as the class sees it. -/
theorem type_eq {p : Property} {reader writer : Entry}
    (read : (accessorEntry id (p.method id .read) .read).eval r = (.ok reader, r))
    (written : (accessorEntry id (p.method id .write) .write).eval r = (.ok writer, r)) :
    reader.type = writer.type := by
  obtain ⟨g, type, resolved, erased, rfl⟩ := getterEntry_settled read
  obtain ⟨gs, type', resolved', erased', rfl⟩ := setterEntry_settled written
  obtain ⟨env, bound, rfl⟩ := Registry.resolveReturn_eq_ok.mp resolved
  obtain ⟨env', bound', rfl⟩ := Registry.resolveParams_eq_ok.mp resolved'
  obtain rfl := Except.ok.inj (bound.symm.trans bound')
  exact Except.ok.inj (congrArg Prod.fst (erased.symm.trans erased'))

end Table.IsBean

end PropertyTables
