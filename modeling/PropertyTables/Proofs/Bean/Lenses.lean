import PropertyTables.Proofs.Bean.Tables
import PropertyTables.Proofs.Heap.Events
import PropertyTables.Proofs.Hierarchy.Dispatch

/-! # Properties are lenses

* `DeclaresBean.implementation`: on an object of a bean class, an accessor is its own implementation.
* `Table.readProperty`, `Table.writeProperty`: reading and writing a property by way of a table.
* `World.Holds`: what an object of a bean class holds. `Holds.read` and `Holds.write` say what reading
  and writing do, `Holds.changes` that what happens elsewhere does nothing.
* `Holds.afterUses`, `bean_properties_are_lenses`: a property holds what was last assigned to it.
-/

namespace PropertyTables
set_option autoImplicit false

/-! ## Dispatch -/

theorem Growing.length_of_mapM {α β : Type} {f : α → Growing β} {l : List α} {made : List β}
    {r grown : Registry} (done : (l.mapM f).eval r = (.ok made, grown)) :
    made.length = l.length := by
  induction l generalizing made r with
  | nil =>
    cases done
    rfl
  | cons a rest ih =>
    rw [List.mapM_cons] at done
    obtain ⟨b, _, -, done⟩ := bind_eval_ok.mp done
    obtain ⟨bs, _, later, done⟩ := bind_eval_ok.mp done
    cases done
    rw [List.length_cons, List.length_cons, ih later]

theorem Method.signature_params {m : Method} {signature : Signature} {r grown : Registry}
    (done : m.signature.eval r = (.ok signature, grown)) :
    signature.params.length = m.params.length := by
  obtain ⟨params, _, erased, done⟩ := Growing.bind_eval_ok.mp done
  obtain ⟨returns, _, -, done⟩ := Growing.bind_eval_ok.mp done
  cases done
  exact Growing.length_of_mapM erased

/-- Among methods of different names, the one that is wanted is found. -/
theorem bestOverride_distinct {r : Registry} {m : Method} {wanted : Signature}
    {methods : List Method} (member : m ∈ methods) (distinct : (methods.map Method.name).Nodup)
    (body : m.body.isSome) (target : m.modifiers.isStatic = false)
    (erased : m.signature.eval r = (.ok wanted, r)) :
    (bestOverride wanted none methods).eval r = (.ok (some m), r) := by
  have name := Method.signature_name erased
  induction methods with
  | nil => cases member
  | cons first rest ih =>
    obtain ⟨fresh, distinct⟩ := List.nodup_cons.mp distinct
    rw [bestOverride]
    by_cases here : m = first
    · subst here
      have candidate : m.isCandidate wanted = true := by
        simp [Method.isCandidate, name, body, target, Method.signature_params erased]
      rw [if_pos candidate, Growing.eval_bind, erased]
      simp only [ne_eq, not_true_eq_false, if_false, if_true]
      rfl
    · have later : m ∈ rest := (List.mem_cons.mp member).resolve_left here
      have other : first.isCandidate wanted = false := by
        have differ : first.name ≠ wanted.name := by
          intro same
          exact fresh (same.trans name ▸ List.mem_map_of_mem later)
        simp [Method.isCandidate, differ]
      rw [other]
      exact ih later distinct

theorem Registry.dispatchOrder_head (r : Registry) (receiver : TypeId) :
    ∃ rest, r.dispatchOrder receiver = receiver :: rest := by
  rw [dispatchOrder, superclassChain, preorder_cons_fresh [] (List.not_mem_nil)]
  exact ⟨_, rfl⟩

/-- On an object of the class itself an accessor is its own implementation. -/
theorem Registry.DeclaresBean.implementation {r : Registry} {id : TypeId} {props : List Property}
    (h : r.DeclaresBean id props) {p : Property} (member : p ∈ props) {side : Side}
    {signature : Signature}
    (erased : (p.method id side).signature.eval r = (.ok signature, r)) :
    ((p.method id side).implementation id).eval r = (.ok (some (p.method id side)), r) := by
  obtain ⟨d, found, bean⟩ := h.bean
  obtain ⟨rest, order⟩ := r.dispatchOrder_head id
  have here : d.methods = Property.methods id props := id_of_find? found ▸ bean.methods
  have best : (bestOverride signature none d.methods).eval r =
      (.ok (some (p.method id side)), r) := by
    rw [here]
    refine bestOverride_distinct (Property.method_mem_methods member side) h.apart.names_nodup ?_ ?_
      erased
    · cases side <;> rfl
    · cases side <;> rfl
  have dispatched : (p.method id side).implementation id =
      findImplementation id (p.method id side) := by
    cases side <;> rfl
  rw [dispatched, findImplementation_eval, erased]
  dsimp only
  rw [order, firstOverride, Growing.eval_bind, Growing.eval_read, find_eq_ok.mpr found]
  dsimp only
  rw [Growing.eval_bind, best]
  rfl

/-! ## Calls -/

theorem Method.eval_invoke {m : Method} {w : World} {o : ObjectId} {args : List Value}
    {body : MethodBody} (count : args.length = m.params.length)
    (own : (m.implementation (w.heap.object o).type).eval w.registry = (.ok (some m), w.registry))
    (has : m.body = some body) : (m.invoke o args).eval w = (body.run o args).eval w := by
  have first : (get : Running World).eval w = (.ok w, w) := rfl
  rw [invoke, if_neg (not_not_intro count)]
  show ((get : Running World) >>= _ : Running Value).eval w = _
  rw [Running.eval_bind, first]
  dsimp only
  rw [Running.eval_bind, Running.eval_growing, own]
  simp only [Option.bind_some, has, Option.some_or]

/-- Reads a property by the accessor that a table has for it. -/
def Table.readProperty (t : Table) (o : ObjectId) (property : String) : Running Value := do
  let e ← Running.peek fun _ => t.entry .read property
  e.accessor.invoke o []

/-- Writes a property by the accessor that a table has for it. -/
def Table.writeProperty (t : Table) (o : ObjectId) (property : String) (value : Value) :
    Running Value := do
  let e ← Running.peek fun _ => t.entry .write property
  e.accessor.invoke o [value]

namespace Table
variable {t : Table} {w : World} {o : ObjectId} {property : String} {e : Entry}

theorem eval_readProperty (listed : t.entry .read property = .ok e) :
    (t.readProperty o property).eval w = (e.accessor.invoke o []).eval w := by
  rw [readProperty, Running.eval_bind, Running.eval_peek, listed]

theorem eval_writeProperty (listed : t.entry .write property = .ok e) (value : Value) :
    (t.writeProperty o property value).eval w = (e.accessor.invoke o [value]).eval w := by
  rw [writeProperty, Running.eval_bind, Running.eval_peek, listed]

theorem eval_writeProperty_missing {fault : Fault} (missing : t.entry .write property = .error fault)
    (value : Value) : (t.writeProperty o property value).eval w = (.error fault, w) := by
  rw [writeProperty, Running.eval_bind, Running.eval_peek, missing]

end Table

/-! ## Objects of a bean class -/

/-- Whether an object of a bean class holds the given values in its properties, in a world that has
all that was declared when its table was built. -/
structure World.Holds (w : World) (r : Registry) (id : TypeId) (props : List Property)
    (o : ObjectId) (values : String → Value) : Prop where
  grows : r.GrowsTo w.registry
  here : o.index < w.heap.objects.length
  type : (w.heap.object o).type = id
  slots : ∀ p ∈ props, w.heap.at? (.slot o (id, p.1)) = some (values p.1)

namespace World.Holds
variable {w : World} {r : Registry} {id : TypeId} {props : List Property} {o : ObjectId}
  {values : String → Value} {t : Table}

theorem congr (h : w.Holds r id props o values) {values' : String → Value}
    (same : ∀ p ∈ props, values p.1 = values' p.1) : w.Holds r id props o values' :=
  ⟨h.grows, h.here, h.type, fun p member => same p member ▸ h.slots p member⟩

theorem changes (h : w.Holds r id props o values) {writes : Place → Prop} {later : World}
    (changed : w.Changes writes later) (elsewhere : ∀ key, ¬ writes (.slot o key)) :
    later.Holds r id props o values := by
  obtain ⟨here, type, -⟩ := changed.keeps o h.here
  refine ⟨h.grows.trans changed.grows, here, type.trans h.type, fun p member => ?_⟩
  rw [changed.others (.slot o (id, p.1)) h.here (elsewhere _)]
  exact h.slots p member

theorem eval_invoke (h : w.Holds r id props o values) (declares : r.DeclaresBean id props)
    (bean : t.IsBean r id props) {p : Property} (member : p ∈ props) {side : Side}
    {args : List Value} {body : MethodBody}
    (count : args.length = (p.method id side).params.length)
    (has : (p.method id side).body = some body) :
    ((p.method id side).invoke o args).eval w = (body.run o args).eval w := by
  obtain ⟨signature, erased⟩ := bean.erasable p member side
  have still := (p.method id side).signature_lasting.lasts _ _ _ _ erased h.grows
  have own := (declares.grow h.grows).implementation member still
  exact Method.eval_invoke count (by rw [h.type]; exact own) has

theorem read (h : w.Holds r id props o values) (declares : r.DeclaresBean id props)
    (bean : t.IsBean r id props) {p : Property} (member : p ∈ props) :
    (t.readProperty o p.1).eval w = (.ok (values p.1), w) := by
  obtain ⟨e, listed, accessor, -⟩ := bean.exists_entry member .read
  have slot : (w.heap.object o).get? (id, p.1) = some (values p.1) := h.slots p member
  rw [Table.eval_readProperty listed, accessor]
  show ((p.method id .read).invoke o []).eval w = _
  rw [h.eval_invoke declares bean member rfl rfl]
  show ((w.heap.object o).get (id, p.1), w) = _
  rw [Instance.get, slot]

theorem write (h : w.Holds r id props o values) (declares : r.DeclaresBean id props)
    (bean : t.IsBean r id props) {p : Property} (member : p ∈ props) (value : Value) :
    ∃ later, (t.writeProperty o p.1 value).eval w = (.ok .null, later) ∧
      later.Holds r id props o fun n => if p.1 = n then value else values n := by
  obtain ⟨e, listed, accessor, -⟩ := bean.exists_entry member .write
  have stored : (id, p.1) ∈ (w.heap.object o).keys :=
    Instance.mem_keys_iff.mpr ⟨values p.1, h.slots p member⟩
  obtain ⟨heap, done⟩ : ∃ heap, w.heap.setSlot o (id, p.1) value = .ok heap :=
    ⟨_, Heap.setSlot_eq_ok.mpr ⟨stored, rfl⟩⟩
  refine ⟨{ w with heap := heap }, ?_, ?_⟩
  · rw [Table.eval_writeProperty listed, accessor]
    show ((p.method id .write).invoke o [value]).eval w = _
    rw [h.eval_invoke declares bean member rfl rfl]
    show (Running.update (·.setSlot o (id, p.1) value) >>= _ : Running Value).eval w = _
    rw [Running.eval_bind, Running.eval_update, done]
    rfl
  · have shape := Heap.setSlot_sameShape done
    refine ⟨h.grows, shape.length ▸ h.here, (shape.type o).trans h.type, fun q member' => ?_⟩
    rw [Heap.at?_setSlot done]
    by_cases same : p.1 = q.1
    · rw [if_pos (by rw [same]), if_pos same]
    · have other : Place.slot o (id, q.1) ≠ .slot o (id, p.1) := by
        intro slot
        simp only [Place.slot.injEq, Prod.mk.injEq, true_and] at slot
        exact same slot.symm
      rw [if_neg other, if_neg same]
      exact h.slots q member'

end World.Holds

/-! ## Objects in use -/

/-- What happens while objects are in use: a property of one of them is assigned, or something
else. -/
inductive Use
  | assign (target : ObjectId) (property : String) (value : Value)
  | other (e : World.Event)

/-- The value that a use assigns to a property of an object, if it does. -/
def Use.value? (o : ObjectId) (property : String) : Use → Option Value
  | assign target name value => if target = o ∧ name = property then some value else none
  | other _ => none

/-- The value that was last assigned to a property of an object. -/
def lastValue? (o : ObjectId) (property : String) (uses : List Use) : Option Value :=
  (uses.filterMap (Use.value? o property)).getLast?

theorem lastValue?_cons (o : ObjectId) (property : String) (u : Use) (rest : List Use)
    (before : Value) :
    (lastValue? o property (u :: rest)).getD before =
      (lastValue? o property rest).getD ((u.value? o property).getD before) := by
  rw [lastValue?, lastValue?, List.filterMap_cons]
  cases u.value? o property with
  | none => rfl
  | some value => rw [List.getLast?_cons]; rfl

namespace World

/-- The world after one use of an object, assignments being made by way of a table. -/
def afterUse (w : World) (t : Table) : Use → World
  | .assign target property value => ((t.writeProperty target property value).eval w).2
  | .other e => w.after e

def afterUses (w : World) (t : Table) (uses : List Use) : World :=
  uses.foldl (fun w u => w.afterUse t u) w

namespace Holds
variable {w : World} {r : Registry} {id : TypeId} {props : List Property} {o : ObjectId}
  {values : String → Value} {t : Table}

theorem assign_elsewhere (h : w.Holds r id props o values) (bean : t.IsBean r id props)
    {target : ObjectId} (differs : target ≠ o) (property : String) (value : Value) :
    (w.afterUse t (.assign target property value)).Holds r id props o values := by
  rw [afterUse]
  cases listed : t.entry .write property with
  | error fault =>
    rw [Table.eval_writeProperty_missing listed]
    exact h
  | ok e =>
    have named := ((bean.sides .write).names property).mp
      (Index.mem_names.mpr ⟨e, Table.entry_eq_ok.mp listed⟩)
    obtain ⟨p, member, rfl⟩ := List.mem_map.mp named
    obtain ⟨e', listed', accessor, -⟩ := bean.exists_entry member .write
    obtain rfl := Except.ok.inj (listed.symm.trans listed')
    rw [Table.eval_writeProperty listed]
    refine h.changes (w.after_changes (.invoke e.accessor target [value])) fun key touched => ?_
    rw [accessor] at touched
    obtain ⟨key', slot⟩ := touched
    exact differs (Place.slot.inj slot).1.symm

/-- One use of objects changes the properties that it assigns, and no others. -/
theorem afterUse (h : w.Holds r id props o values) (declares : r.DeclaresBean id props)
    (bean : t.IsBean r id props) {u : Use}
    (elsewhere : ∀ e, u = .other e → ∀ key, ¬ e.writes (.slot o key)) :
    (w.afterUse t u).Holds r id props o fun n => (u.value? o n).getD (values n) := by
  cases u with
  | other e => exact h.changes (w.after_changes e) (elsewhere e rfl)
  | assign target property value =>
    by_cases same : target = o
    · subst same
      by_cases named : property ∈ props.map (·.1)
      · obtain ⟨p, member, rfl⟩ := List.mem_map.mp named
        obtain ⟨later, done, holds⟩ := h.write declares bean member value
        rw [World.afterUse, done]
        refine holds.congr fun q _ => ?_
        by_cases assigned : p.1 = q.1 <;> simp [Use.value?, assigned]
      · have missing : t.entry .write property = .error (.propertyNotFound .write property t.name) := by
          have absent := mt ((bean.sides .write).names property).mp named
          rw [Index.mem_names, not_exists] at absent
          rw [Table.entry, Option.eq_none_iff_forall_ne_some.mpr absent]
        rw [World.afterUse, Table.eval_writeProperty_missing missing]
        refine h.congr fun q member => ?_
        have other : property ≠ q.1 := fun same => named (same ▸ List.mem_map_of_mem member)
        simp [Use.value?, other]
    · refine (h.assign_elsewhere bean same property value).congr fun q _ => ?_
      simp [Use.value?, same]

/-- After any uses each property has the value that was last assigned to it. -/
theorem afterUses (h : w.Holds r id props o values) (declares : r.DeclaresBean id props)
    (bean : t.IsBean r id props) {uses : List Use}
    (elsewhere : ∀ e, .other e ∈ uses → ∀ key, ¬ e.writes (.slot o key)) :
    (w.afterUses t uses).Holds r id props o fun n => (lastValue? o n uses).getD (values n) := by
  induction uses generalizing w values with
  | nil => exact h
  | cons u rest ih =>
    have first := h.afterUse declares bean fun e same => elsewhere e (same ▸ List.mem_cons_self)
    have later := ih first fun e member => elsewhere e (List.mem_cons_of_mem u member)
    exact later.congr fun q _ => (lastValue?_cons o q.1 u rest (values q.1)).symm

end Holds

end World

/-- A new object of a bean class holds the initial values, whatever has happened elsewhere since. -/
theorem World.holds_of_allocate {w : World} {r : Registry} {id : TypeId} {props : List Property}
    {fresh : Instance} (declares : r.DeclaresBean id props)
    (allocated : w.registry.allocate id = .ok fresh) {events : List World.Event}
    (elsewhere : ∀ e ∈ events, ∀ key, ¬ e.writes (.slot (w.heap.add fresh).1 key))
    (grows : r.GrowsTo ((w.adding fresh).afterAll events).registry) {values : String → Value}
    (initial : ∀ p ∈ props, values p.1 = p.2.initial) :
    ((w.adding fresh).afterAll events).Holds r id props (w.heap.add fresh).1 values := by
  have here : (w.heap.add fresh).1.index < (w.adding fresh).heap.objects.length := by
    simp [World.adding, Heap.add]
  have changes := (w.adding fresh).afterAll_changes events
  have new : (w.adding fresh).heap.object (w.heap.add fresh).1 = fresh := Heap.object_add_new fresh
  obtain ⟨still, type, -⟩ := changes.keeps _ here
  refine ⟨grows, still, ?_, fun p member => ?_⟩
  · rw [type, new, Registry.allocate_type allocated]
  · -- the class was declared in the same way when the object was made
    obtain ⟨d, found, bean⟩ := (declares.grow grows).bean
    have chain := w.registry.self_mem_superclassChain id
    obtain ⟨d', found'⟩ :=
      Registry.published_iff.mp (Registry.allocate_published allocated id chain)
    have later : ((w.adding fresh).afterAll events).registry.find? id = some d' :=
      changes.grows.declared id d' found'
    obtain rfl := Option.some.inj (found.symm.trans later)
    have unwritten : ¬ ∃ e ∈ events, e.writes (.slot (w.heap.add fresh).1 (id, p.1)) := by
      rintro ⟨e, listed, touched⟩
      exact elsewhere e listed _ touched
    have untouched := changes.others (.slot (w.heap.add fresh).1 (id, p.1)) here unwritten
    rw [untouched, Heap.at?, new, Registry.allocate_get? allocated, if_pos chain, found',
      Option.bind_some, bean.initial? declares.apart member, initial p member]

/-- The properties of a class that is made of nothing else are independent of each other: all of
them can be read and written, as values of one type, and on every object of the class each has the
value that was last assigned to it, whatever happens to other properties and to other objects. -/
theorem bean_properties_are_lenses {first r grown : Registry} {id : TypeId} {space name : String}
    {props : List Property} {limit : Nat} {t : Table} (reachable : r.Reachable)
    (apart : Property.Apart props)
    (declared : r.find? id = some (first.beanDraft space name props).declaration)
    (built : (Table.build id limit).eval r = (.ok t, grown)) :
    (∀ side, t.names side = (props.map (·.1)).mergeSort) ∧
    (∀ p ∈ props, ∃ reader writer, t.entry .read p.1 = .ok reader ∧
      t.entry .write p.1 = .ok writer ∧ reader.type = writer.type) ∧
    ∀ (w : World) (fresh : Instance) (before : List World.Event) (uses : List Use),
      let o := (w.heap.add fresh).1
      let start := (w.adding fresh).afterAll before
      let now := start.afterUses t uses
      w.registry.allocate id = .ok fresh → grown.GrowsTo start.registry →
      (∀ e ∈ before, ∀ key, ¬ e.writes (.slot o key)) →
      (∀ e, .other e ∈ uses → ∀ key, ¬ e.writes (.slot o key)) →
      ∀ p ∈ props,
        (t.readProperty o p.1).eval now =
          (.ok ((lastValue? o p.1 uses).getD p.2.initial), now) ∧
        ∀ value, ((t.writeProperty o p.1 value).eval now).1 = .ok .null := by
  have here : r.DeclaresBean id props :=
    ⟨apart, ⟨_, declared, first.isBean_beanDraft space name props⟩, reachable.root⟩
  have bean := here.build built
  have declares := here.grow ((build_lasting id limit).interns_of_eval built).growsTo
  refine ⟨bean.names_eq apart, fun p member => ?_, ?_⟩
  · obtain ⟨reader, read, -, made⟩ := bean.exists_entry member .read
    obtain ⟨writer, written, -, made'⟩ := bean.exists_entry member .write
    exact ⟨reader, writer, read, written, Table.IsBean.type_eq made made'⟩
  · intro w fresh before uses o start now allocated seen elsewhere elsewhere' p member
    let initial (n : String) : Value := ((props.find? (·.1 == n)).map (·.2.initial)).getD .null
    have initials : ∀ p ∈ props, initial p.1 = p.2.initial := by
      intro p member
      obtain ⟨q, found⟩ : ∃ q, props.find? (·.1 == p.1) = some q :=
        Option.isSome_iff_exists.mp (List.find?_isSome.mpr ⟨p, member, beq_self_eq_true p.1⟩)
      have named : q.1 = p.1 := by simpa using List.find?_some found
      obtain rfl := apart.eq_of_name member (List.mem_of_find?_eq_some found) named
      simp [initial, found]
    have holds : start.Holds grown id props o initial :=
      World.holds_of_allocate declares allocated elsewhere seen initials
    have now_holds := holds.afterUses declares bean elsewhere'
    rw [← initials p member]
    refine ⟨now_holds.read declares bean member, fun value => ?_⟩
    obtain ⟨later, done, -⟩ := now_holds.write declares bean member value
    rw [done]

/-- Points with a label. -/
def Registry.labelled : Registry :=
  initial.declared "" "P" .classType fun d =>
    (d.property "y" (.named Primitive.long.typeId)).property "a" (.named .string)

/-- Of two points one is labelled and both are moved, while their table is built again. -/
theorem bean_properties_are_lenses_labelled :
    ∃ t grown fresh, (Table.build ⟨11⟩ Table.defaultLimit).eval Registry.labelled = (.ok t, grown) ∧
      Registry.labelled.allocate ⟨11⟩ = .ok fresh ∧ (∀ side, t.names side = ["a", "y"]) ∧
      let start := (World.adding ⟨Registry.labelled, .empty⟩ fresh).afterAll
        [.operation (.reflect ⟨11⟩ Table.defaultLimit), .add fresh]
      let now := start.afterUses t [.assign ⟨0⟩ "y" (.integer 1), .assign ⟨1⟩ "y" (.integer 2),
        .other (.operation (.reflect ⟨11⟩ 1)), .assign ⟨0⟩ "a" (.text "b")]
      (t.readProperty ⟨0⟩ "y").eval now = (.ok (.integer 1), now) := by
  let props : List Property := [("y", .named Primitive.long.typeId), ("a", .named .string)]
  have reachable : Registry.labelled.Reachable := .declared .refl _ _ _ _
  have apart : Property.Apart props := by
    refine ⟨by decide, ?_⟩
    intro p member
    rcases List.mem_pair.mp member with rfl | rfl
    · exact ⟨by decide, by decide, rfl⟩
    · exact ⟨by decide, by decide, rfl⟩
  have declared : Registry.labelled.find? ⟨11⟩ =
      some (Registry.initial.beanDraft "" "P" props).declaration := rfl
  have succeeds : ((Table.build ⟨11⟩ Table.defaultLimit).eval Registry.labelled).1.toOption.map
      (fun _ => ()) = some () := by cbv
  obtain ⟨t, grown, built, -⟩ := Growing.exists_eval_of_map succeeds
  obtain ⟨fresh, allocated⟩ : ∃ fresh, Registry.labelled.allocate ⟨11⟩ = .ok fresh := ⟨_, by cbv⟩
  obtain ⟨names, -, lenses⟩ := bean_properties_are_lenses reachable apart declared built
  have sorted : (props.map (·.1)).mergeSort = ["a", "y"] := by cbv
  refine ⟨t, grown, fresh, built, allocated, fun side => (names side).trans sorted, ?_⟩
  have seen : grown.GrowsTo ((World.adding ⟨Registry.labelled, .empty⟩ fresh).afterAll
      [.operation (.reflect ⟨11⟩ Table.defaultLimit), .add fresh]).registry := by
    show grown.GrowsTo ((Table.build ⟨11⟩ Table.defaultLimit).eval Registry.labelled).2
    rw [built]
    exact .refl grown
  have holds := lenses ⟨Registry.labelled, .empty⟩ fresh
    [.operation (.reflect ⟨11⟩ Table.defaultLimit), .add fresh]
    [.assign ⟨0⟩ "y" (.integer 1), .assign ⟨1⟩ "y" (.integer 2),
      .other (.operation (.reflect ⟨11⟩ 1)), .assign ⟨0⟩ "a" (.text "b")] allocated seen
    (by simp [World.Event.writes]) (by simp [World.Event.writes])
    ("y", .named Primitive.long.typeId) List.mem_cons_self
  exact holds.1

end PropertyTables
