import PropertyTables.Proofs.Generics.SupertypePath
import PropertyTables.Proofs.Heap.Allocation
import PropertyTables.Proofs.Heap.Events
import PropertyTables.Proofs.Table.Origins

/-! # Accessors that fields back

* `Instance.HasSlotsOf`: an object has exactly the slots of its class chain.
* `World.ReadsField`, `World.WritesField`: what calling such an accessor comes to.
* `Heap.stores_of_hasField`: fields that a class has are stored in the objects of its subclasses.
  There their accessors do their work, `World.readsField` and `World.writesField`.
* `field_accessors_touch_their_field`: so these accessors never fail, and touch nothing else.
-/

namespace PropertyTables
set_option autoImplicit false

/-! ## Places of fields -/

def Registry.Declares (r : Registry) (f : Field) : Prop :=
  ∃ id d, r.find? id = some d ∧ f ∈ d.fields

theorem position_of_mem_fields {d : Declaration} {f : Field} (h : f ∈ d.fields) :
    d.fields[f.position]? = some f := by
  obtain ⟨i, at_i⟩ := List.getElem?_of_mem h
  rw [(d.members.fields_declaring i f at_i).2]
  exact at_i

/-- Two declared fields are one if they are declared in one type and have one position there. -/
theorem Registry.Declares.eq {r : Registry} {f f' : Field} (hf : r.Declares f)
    (hf' : r.Declares f') (declaring : f'.declaring = f.declaring)
    (position : f'.position = f.position) : f' = f := by
  obtain ⟨id, d, found, listed⟩ := hf
  obtain ⟨id', d', found', listed'⟩ := hf'
  have here : f.declaring = id := (Registry.declaring_of_mem_fields listed).trans (id_of_find? found)
  have here' : f'.declaring = id' := (Registry.declaring_of_mem_fields listed').trans (id_of_find? found')
  obtain rfl : id' = id := here'.symm.trans (declaring.trans here)
  obtain rfl : d' = d := Option.some.inj (found'.symm.trans found)
  have same := position_of_mem_fields listed'
  rw [position, position_of_mem_fields listed] at same
  exact (Option.some.inj same).symm

/-- What tells apart where two fields are stored, each for an object: the name, the declaring type,
the object, or that only one of them is static. -/
def Field.StoredApart (f : Field) (o : ObjectId) (f' : Field) (o' : ObjectId) : Prop :=
  f'.name ≠ f.name ∨ f'.declaring ≠ f.declaring ∨ f'.modifiers.isStatic ≠ f.modifiers.isStatic ∨
    f.modifiers.isStatic = false ∧ o' ≠ o

theorem Field.StoredApart.place_ne {r : Registry} {f f' : Field} {o o' : ObjectId}
    (hf : r.Declares f) (hf' : r.Declares f') (apart : f.StoredApart o f' o') :
    f'.place o' ≠ f.place o := by
  intro same
  have agree : f'.name = f.name ∧ f'.declaring = f.declaring ∧
      f'.modifiers.isStatic = f.modifiers.isStatic ∧
        (f.modifiers.isStatic = false → o' = o) := by
    rw [place, place] at same
    cases static' : f'.modifiers.isStatic <;> cases static : f.modifiers.isStatic <;>
      simp only [static, static', if_true, if_false, Bool.false_eq_true, Place.slot.injEq,
        Place.shared.injEq, Prod.mk.injEq, reduceCtorEq] at same
    · obtain ⟨object, declaring, name⟩ := same
      exact ⟨name, declaring, rfl, fun _ => object⟩
    · obtain rfl := hf.eq hf' same.1 same.2
      exact ⟨rfl, rfl, rfl, by simp⟩
  obtain ⟨name, declaring, static, object⟩ := agree
  rcases apart with other | other | other | ⟨instance_field, other⟩
  · exact other name
  · exact other declaring
  · exact other static
  · exact other (object instance_field)

/-! ## Objects of a class -/

/-- Whether the slots of an object are those of a class: one for each name of an instance field in
each class of the chain, and no others. -/
structure Instance.HasSlotsOf (x : Instance) (r : Registry) (id : TypeId) : Prop where
  type : x.type = id
  nodup : x.keys.Nodup
  keys : ∀ declaring name, (declaring, name) ∈ x.keys ↔
    declaring ∈ r.superclassChain id ∧ ∃ d, r.find? declaring = some d ∧
      ∃ f ∈ d.fields, f.modifiers.isStatic = false ∧ f.name = name

variable {r : Registry} {id : TypeId}

theorem Registry.allocate_hasSlotsOf {o : Instance} (allocated : r.allocate id = .ok o) :
    o.HasSlotsOf r id where
  type := allocate_type allocated
  nodup := allocate_nodup allocated
  keys _ _ := mem_allocate_keys allocated

/-- A new object still has the slots of its class after whatever happened since. -/
theorem World.afterAll_hasSlotsOf {w : World} {fresh : Instance}
    (allocated : w.registry.allocate id = .ok fresh) (events : List World.Event) :
    (((w.adding fresh).afterAll events).heap.object (w.heap.add fresh).1).HasSlotsOf w.registry
      id := by
  have here : (w.heap.add fresh).1.index < (w.adding fresh).heap.objects.length := by
    simp [World.adding, Heap.add]
  have changes := (w.adding fresh).afterAll_changes events
  obtain ⟨-, type, keys⟩ := changes.keeps _ here
  have new : (w.adding fresh).heap.object (w.heap.add fresh).1 = fresh :=
    Heap.object_add_new fresh
  rw [new] at type keys
  have slots := Registry.allocate_hasSlotsOf allocated
  exact ⟨type.trans slots.type, keys ▸ slots.nodup, keys ▸ slots.keys⟩

/-- A field that a class has is stored in the objects of its subclasses. -/
theorem Heap.stores_of_hasField {g later : Registry} {h : Heap} {o : ObjectId} {f : Field}
    {top : TypeId} (slots : (h.object o).HasSlotsOf r id)
    (declared : ∀ t ∈ r.superclassChain id, r.Published t) (grows : r.GrowsTo later)
    (above : top ∈ r.superclassChain id) (has : g.HasField top f) (seen : g.GrowsTo later) :
    h.Stores o f := by
  obtain ⟨declaring, higher, d, found, listed⟩ := has
  cases static : f.modifiers.isStatic with
  | true => exact .inl static
  | false =>
    have here : f.declaring = declaring :=
      (Registry.declaring_of_mem_fields listed).trans (Registry.id_of_find? found)
    -- where the table was built, and where the object was, the chain is that of `later`
    have higher' := Registry.mem_superclassChain_later seen higher
    have on_chain : declaring ∈ r.superclassChain id := by
      rw [← grows.superclassChain declared] at above ⊢
      exact Registry.superclassChain_trans above higher'
    have found' : r.find? declaring = some d := by
      rw [← grows.find? (declared declaring on_chain)]
      exact seen.declared declaring d found
    rw [← here] at on_chain found'
    exact .inr ((slots.keys _ _).mpr ⟨on_chain, d, found', f, listed, static, rfl⟩)

/-! ## Calling accessors -/

/-- What calling an accessor that reads a field comes to: it succeeds and changes nothing. -/
def World.ReadsField (w : World) (o : ObjectId) (f : Field) : Prop :=
  ∀ args, ∃ value, ((Accessor.readField f).invoke o args).eval w = (.ok value, w)

/-- What a world is like after a field of an object was written. -/
structure World.FieldWritten (w later : World) (o : ObjectId) (f : Field) (value : Value) :
    Prop where
  registry : later.registry = w.registry
  shape : w.heap.SameShape later.heap
  /-- The value is at the place of the field, and everything else is as before. -/
  places : ∀ p, later.heap.at? p = if p = f.place o then some value else w.heap.at? p
  /-- The field reads as the value from then on, whatever happens elsewhere; a static field does so
  for every object. -/
  read : ∀ events : List World.Event, (∀ e ∈ events, ¬ e.writes (f.place o)) →
    ∀ o', f.modifiers.isStatic = true ∨ o' = o → ∀ args,
      ((Accessor.readField f).invoke o' args).eval (later.afterAll events) =
        (.ok value, later.afterAll events)
  /-- Fields that are stored elsewhere read as before. -/
  elsewhere : ∀ o' f', f'.place o' ≠ f.place o → ∀ args,
    ((Accessor.readField f').invoke o' args).eval later =
      ((((Accessor.readField f').invoke o' args).eval w).1, later)

/-- What calling an accessor that writes a field comes to: one value is written and null returned,
any other number of values is refused. -/
structure World.WritesField (w : World) (o : ObjectId) (f : Field) : Prop where
  written : ∀ value, ∃ later, ((Accessor.writeField f).invoke o [value]).eval w =
    (.ok .null, later) ∧ w.FieldWritten later o f value
  refused : ∀ args, args.length ≠ 1 → ((Accessor.writeField f).invoke o args).eval w =
    (.error (.invocation (.valueCount f.name args.length)), w)

namespace World
variable {w : World} {o : ObjectId} {f : Field}

theorem eval_readField (w : World) (o : ObjectId) (f : Field) (args : List Value) :
    ((Accessor.readField f).invoke o args).eval w = (w.heap.readField o f, w) := rfl

theorem readsField (stores : w.heap.Stores o f) : w.ReadsField o f := by
  intro args
  rw [eval_readField, Heap.readField_eq_ok stores]
  exact ⟨_, rfl⟩

theorem place_eq_of_static {o' : ObjectId} (h : f.modifiers.isStatic = true ∨ o' = o) :
    f.place o' = f.place o := by
  rcases h with static | rfl
  · rw [Field.place, Field.place, if_pos static, if_pos static]
  · rfl

theorem fieldWritten {heap : Heap} {value : Value} (stores : w.heap.Stores o f)
    (done : w.heap.writeField o f value = .ok heap) :
    w.FieldWritten { w with heap := heap } o f value := by
  have shape := Heap.writeField_sameShape done
  have places := Heap.at?_writeField done
  refine ⟨rfl, shape, places, ?_, ?_⟩
  · intro events elsewhere o' same args
    have changes := afterAll_changes { w with heap := heap } events
    have here : heap.Has (f.place o) := shape.keeps.has stores.has
    have kept := changes.others (f.place o) here fun ⟨e, listed, touched⟩ =>
      elsewhere e listed touched
    have written : heap.at? (f.place o) = some value := by rw [places, if_pos rfl]
    have found := kept.trans written
    rw [← place_eq_of_static same] at found
    rw [eval_readField, Heap.readField_of_at? found]
  · intro o' f' other args
    have same : heap.at? (f'.place o') = w.heap.at? (f'.place o') := by rw [places, if_neg other]
    rw [eval_readField, eval_readField, Heap.readField_congr same (shape.type o')]

theorem writesField (stores : w.heap.Stores o f) : w.WritesField o f where
  written value := by
    obtain ⟨heap, done⟩ := Heap.writeField_succeeds stores value
    refine ⟨{ w with heap := heap }, ?_, fieldWritten stores done⟩
    show (Running.update _ >>= _ : Running Value).eval w = _
    rw [Running.eval_bind, Running.eval_update, done]
    rfl
  refused args count := by
    rcases args with _ | ⟨value, _ | ⟨_, _⟩⟩
    · rfl
    · exact absurd rfl count
    · rfl

end World

/-! ## The accessors of a table -/

/-- Objects of a class and its subclasses have exactly their slots, whatever happens to them. On
such an object every accessor that a field backs in the table of the class does its work, and
touches nothing but the place of its field. -/
theorem field_accessors_touch_their_field {r g : Registry} {top bottom : TypeId} {limit : Nat}
    {t : Table} {w : World} {fresh : Instance}
    (built : (Table.build top limit).eval r = (.ok t, g))
    (allocated : w.registry.allocate bottom = .ok fresh)
    (above : top ∈ w.registry.superclassChain bottom) (events : List World.Event)
    (seen : g.GrowsTo ((w.adding fresh).afterAll events).registry) :
    let o := (w.heap.add fresh).1
    let now := (w.adding fresh).afterAll events
    (now.heap.object o).HasSlotsOf w.registry bottom ∧
    (∀ name e f, t.entry .read name = .ok e → e.accessor = .readField f → now.ReadsField o f) ∧
    (∀ name e f, t.entry .write name = .ok e → e.accessor = .writeField f →
      now.registry.Declares f ∧ now.WritesField o f) ∧
    ∀ f o f' o', now.registry.Declares f → now.registry.Declares f' → f.StoredApart o f' o' →
      f'.place o' ≠ f.place o := by
  intro o now
  have slots : (now.heap.object o).HasSlotsOf w.registry bottom :=
    World.afterAll_hasSlotsOf allocated events
  have grows : w.registry.GrowsTo now.registry := ((w.adding fresh).afterAll_changes events).grows
  have published := Registry.allocate_published allocated
  have stores (f : Field) (has : g.HasField top f) : now.heap.Stores o f :=
    Heap.stores_of_hasField slots published grows above has seen
  refine ⟨slots, ?_, ?_, ?_⟩
  · intro name e f listed backed
    have has : g.HasField top f := Table.build_fields built listed (by rw [backed]; rfl)
    exact World.readsField (stores f has)
  · intro name e f listed backed
    have has : g.HasField top f := Table.build_fields built listed (by rw [backed]; rfl)
    refine ⟨?_, World.writesField (stores f has)⟩
    obtain ⟨id, -, d, found, declared⟩ := has
    exact ⟨id, d, seen.declared id d found, declared⟩
  · intro f o f' o' hf hf' apart
    exact apart.place_ne hf hf'

/-- A class with a field, and a subclass with a field of the same name. -/
def Registry.shadowing : Registry :=
  (initial.declared "" "Point" .classType fun d =>
    d.privateField "x" (.named Primitive.long.typeId)).declared "" "Pixel" .classType fun d =>
      (d.extending (.named ⟨11⟩)).privateField "x" (.named Primitive.int.typeId)

/-- An object of the subclass, in a world where the table of the class is built afterwards. -/
theorem field_accessors_touch_their_field_shadowing :
    ∃ t g fresh e f,
      (Table.build ⟨11⟩ Table.defaultLimit).eval Registry.shadowing = (.ok t, g) ∧
      Registry.shadowing.allocate ⟨12⟩ = .ok fresh ∧
      fresh.keys = [(⟨12⟩, "x"), (⟨11⟩, "x")] ∧
      t.entry .write "x" = .ok e ∧ e.accessor = .writeField f ∧ f.declaring = ⟨11⟩ ∧
      ((World.adding ⟨Registry.shadowing, .empty⟩ fresh).afterAll
        [.operation (.reflect ⟨11⟩ Table.defaultLimit)]).WritesField ⟨0⟩ f := by
  have backed : ((Table.build ⟨11⟩ Table.defaultLimit).eval Registry.shadowing).1.toOption.map
      (fun t => (t.entry .write "x").toOption.bind fun e => match e.accessor with
        | .writeField f => some f.declaring
        | _ => none) = some (some ⟨11⟩) := by cbv
  have slots : (Registry.shadowing.allocate ⟨12⟩).toOption.map Instance.keys =
      some [(⟨12⟩, "x"), (⟨11⟩, "x")] := by cbv
  have above : (⟨11⟩ : TypeId) ∈ Registry.shadowing.superclassChain ⟨12⟩ := by
    have chain : Registry.shadowing.superclassChain ⟨12⟩ = [⟨12⟩, ⟨11⟩, .object] := by cbv
    simp [chain]
  obtain ⟨t, g, built, backed⟩ := Growing.exists_eval_of_map backed
  obtain ⟨fresh, allocated, slots⟩ : ∃ fresh, Registry.shadowing.allocate ⟨12⟩ = .ok fresh ∧
      fresh.keys = [(⟨12⟩, "x"), (⟨11⟩, "x")] := by
    cases allocated : Registry.shadowing.allocate ⟨12⟩ <;> rw [allocated] at slots
    · cases slots
    · exact ⟨_, rfl, Option.some.inj slots⟩
  obtain ⟨e, listed, backed⟩ : ∃ e, t.entry .write "x" = .ok e ∧ (match e.accessor with
      | .writeField f => some f.declaring
      | _ => none) = some (⟨11⟩ : TypeId) := by
    cases listed : t.entry .write "x" <;> rw [listed] at backed
    · cases backed
    · exact ⟨_, rfl, backed⟩
  cases accessor : e.accessor with
  | method m => simp [accessor] at backed
  | readField f => simp [accessor] at backed
  | writeField f =>
    have declaring : f.declaring = ⟨11⟩ := by simpa [accessor] using backed
    have seen : g.GrowsTo ((World.adding ⟨Registry.shadowing, .empty⟩ fresh).afterAll
        [.operation (.reflect ⟨11⟩ Table.defaultLimit)]).registry := by
      show g.GrowsTo ((Table.build ⟨11⟩ Table.defaultLimit).eval Registry.shadowing).2
      rw [built]
      exact .refl g
    obtain ⟨-, -, writes, -⟩ := field_accessors_touch_their_field
      (w := ⟨Registry.shadowing, .empty⟩) built allocated above _ seen
    exact ⟨t, g, fresh, e, f, built, allocated, slots, listed, accessor, declaring,
      (writes "x" e f listed accessor).2⟩

end PropertyTables
