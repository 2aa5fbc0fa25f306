import PropertyTables.Proofs.Table.Discovered
import PropertyTables.Proofs.Table.NarrowestGetter

/-! # Overriding declarations

Of methods with one signature, discovery keeps the one that its walk meets first. An overriding
declaration is met before the overridden one, unless a clause beside it leads around it.

* `Follows`: in the order of discovery, every type but the first is named by an earlier one.
  `Follows.bypass`: so the way to it need not go through a type that comes later.
* `Registry.Prevails`: what is known of the method that is kept.
* `entry_collected`: the accessors in a table are collected methods, and they are reported as the
  owner of the table sees them.
* `overrides_collapse`: a declaration is kept in place of an overriding one only if there is a way
  up to it that does not go through the overriding type.
* `overridden_kept`: this happens where an interface is implemented beside one that extends it.
-/

namespace PropertyTables
set_option autoImplicit false

open Growing (Lasting)

/-! ## Ways up -/

/-- Whether each type of a list is one of those given or is named by an earlier one. -/
inductive Follows (names : TypeId → TypeId → Prop) : Set TypeId → List TypeId → Prop
  | done {known : Set TypeId} : Follows names known []
  | next {known : Set TypeId} {t : TypeId} {rest : List TypeId} (here : t ∈ known)
      (later : Follows names (known ∪ {s | names t s}) rest) : Follows names known (t :: rest)

namespace Follows
variable {names names' : TypeId → TypeId → Prop} {known known' : Set TypeId} {l l' : List TypeId}

theorem mono (h : Follows names known l) (more : known ⊆ known')
    (edges : ∀ s t, names s t → names' s t) : Follows names' known' l := by
  induction h generalizing known' with
  | done => exact .done
  | next here _ ih =>
    exact .next (more here) (ih (Set.union_subset_union more fun s => edges _ s))

theorem append (h : Follows names known l)
    (h' : Follows names (known ∪ {t | ∃ s ∈ l, names s t}) l') : Follows names known (l ++ l') := by
  induction h with
  | done => simpa using h'
  | @next known t rest here _ ih =>
    refine .next here (ih (h'.mono ?_ fun _ _ => id))
    rintro u (start | ⟨s, listed, edge⟩)
    · exact .inl (.inl start)
    · rcases List.mem_cons.mp listed with rfl | listed
      · exact .inl (.inr edge)
      · exact .inr ⟨s, listed, edge⟩

/-- A type is reached without those that come after it. -/
theorem bypass {before after : List TypeId} {start t avoided : TypeId}
    (h : Follows names known (before ++ t :: after)) (free : avoided ∉ before)
    (reached : ∀ s ∈ known, Relation.ReflTransGen (fun a b => a ≠ avoided ∧ names a b) start s) :
    Relation.ReflTransGen (fun a b => a ≠ avoided ∧ names a b) start t := by
  induction before generalizing known with
  | nil =>
    cases h with
    | next here => exact reached t here
  | cons b rest ih =>
    cases h with
    | next here later =>
      refine ih later (fun listed => free (List.mem_cons_of_mem b listed)) fun s => ?_
      rintro (start | edge)
      · exact reached s start
      · exact (reached b here).tail ⟨fun same => free (same ▸ List.mem_cons_self), edge⟩

end Follows

theorem DepthFirst.follows {next : TypeId → List TypeId} {visited : Set TypeId}
    {pending met : List TypeId} (h : DepthFirst next visited pending met) :
    Follows (fun s t => t ∈ next s) {t | t ∈ pending} met := by
  induction h with
  | done => exact .done
  | again _ _ ih => exact ih.mono (fun _ => List.mem_cons_of_mem _) fun _ _ => id
  | enter _ _ _ above beside =>
    refine .next List.mem_cons_self (Follows.append (above.mono ?_ fun _ _ => id)
      (beside.mono ?_ fun _ _ => id))
    · exact fun s edge => .inr edge
    · exact fun s listed => .inl (.inl (List.mem_cons_of_mem _ listed))

namespace Registry
variable {r : Registry}

theorem DiscoveryWalk.follows {visited : Set TypeId} {start : Option TypeId} {order : List TypeId}
    (h : r.DiscoveryWalk visited start order) :
    Follows r.DeclaredSupertype {t | start = some t} order := by
  induction h with
  | top => exact .done
  | root => exact .done
  | climb _ interfaces _ above =>
    refine .next rfl (Follows.append (interfaces.follows.mono ?_ ?_) (above.mono ?_ fun _ _ => id))
    · exact fun s edge => .inr (.of_superinterface edge)
    · exact fun s t => .of_superinterface
    · intro s edge
      exact .inl (.inr (.of_superclass (by simpa using edge)))

/-- A way up from one type to another that does not go through a third. -/
def Bypass (r : Registry) (avoided a b : TypeId) : Prop :=
  Relation.ReflTransGen (fun s t => s ≠ avoided ∧ r.DeclaredSupertype s t) a b

/-! ## The declaration that counts -/

/-- What is known of a method that is collected for a type, with signatures as of registry `s`. -/
structure Prevails (r s : Registry) (type : TypeId) (k : Method) : Prop where
  plain : k.modifiers.isBridge = false
  declared : k ∈ r.methodsOf k.declaring
  /-- Its type is the first in the order of discovery that declares a method of its signature. -/
  first : ∃ order signature, r.DiscoveryWalk ∅ (some type) order ∧ k.HasSignature s signature ∧
    FirstIn (fun id => ∃ m ∈ r.methodsOf id, m.Bears s signature) order k.declaring
  /-- So there is a way up to it around any other type of the hierarchy that does. -/
  around : ∀ id, r.Discoverable type id → id ≠ k.declaring → ∀ m ∈ r.methodsOf id, ∀ signature,
    m.Bears s signature → k.HasSignature s signature → r.Bypass id type k.declaring

end Registry

section
variable {r grown later : Registry} {type : TypeId} {limit : Nat} {methods : List Method}

theorem prevails_of_collected (reachable : r.Reachable)
    (done : (collectMethods type limit).eval r = (.ok methods, grown))
    (interned : grown.Interns later) : ∀ k ∈ methods, r.Prevails later type k := by
  obtain ⟨order, kept, walk, within, gathered, rfl⟩ :=
    collectMethods_gathered reachable done interned
  intro k listed
  obtain ⟨p, member, rfl⟩ := List.mem_map.mp listed
  have first := gathered.first p member
  obtain ⟨plain, has⟩ := first.holds
  obtain ⟨id, first, declared⟩ := first.of_flatMap
  obtain rfl := Registry.declaring_of_mem_methodsOf declared
  refine ⟨plain, declared, ⟨order, p.1, walk, has, first⟩, ?_⟩
  intro other inside differs m declares signature bears same
  obtain rfl := same.unique has
  obtain ⟨before, after, rfl, absent⟩ := first.split
  refine walk.follows.bypass (fun earlier => absent other earlier ⟨m, declares, bears⟩) ?_
  rintro s ⟨⟩
  exact .refl

end

/-! ## Accessors in a table -/

section
variable {r grown : Registry} {owner : TypeId} {limit : Nat} {property : String} {side : Side}

theorem resolveGetter_mem {os : List Overload} {m : Method}
    (settled : ∀ o ∈ os, o.Settled r .read)
    (done : (resolveGetter property (os.map (·.method))).eval r = (.ok (some m), r)) :
    m ∈ os.map (·.method) := by
  obtain ⟨w, listed, rfl, -⟩ := resolveGetter_below settled done
  exact List.mem_map_of_mem listed

theorem resolveSetter_mem {os : List Overload} {readType : Option TypeId} {m : Method}
    (settled : ∀ o ∈ os, o.Settled r .write)
    (done : (resolveSetter property readType (os.map (·.method))).eval r = (.ok (some m), r)) :
    m ∈ os.map (·.method) := by
  match os with
  | [] => cases done
  | [single] =>
    cases done
    exact List.mem_singleton_self _
  | a :: b :: others =>
    rw [resolveSetter_made fun o listed => (settled o listed).setterOverload] at done
    have chosen := Registry.map_some_eq_ok.mp (congrArg Prod.fst done)
    obtain ⟨w, listed, rfl, -⟩ := Registry.chooseSetter_eq_ok chosen
    exact List.mem_map_of_mem listed

/-- The methods that a build goes by are those collected in the registry that it starts from. -/
theorem Table.build_collected {t : Table} (done : (Table.build owner limit).eval r = (.ok t, grown)) :
    ∃ methods middle, (collectMethods owner limit).eval r = (.ok methods, middle) ∧
      middle.Interns grown := by
  rw [Table.build_eq] at done
  obtain ⟨name, _, named, done⟩ := Growing.bind_eval_ok.mp done
  rw [Growing.eval_read, Prod.mk.injEq] at named
  obtain ⟨-, rfl⟩ := named
  obtain ⟨methods, middle, collected, done⟩ := Growing.bind_eval_ok.mp done
  refine ⟨methods, middle, collected, Lasting.interns_of_eval ?_ done⟩
  exact (getterEntries_lasting owner _ _ _).bind fun readers =>
    (setterEntries_lasting owner _ _ _ _).bind fun writers =>
      (addFields_lasting owner limit limit (some owner) _).bind fun sides =>
        (Lasting.read (Registry.find_stable owner)).map _

/-- A method in a table is one of those collected, and its type is the one that the owner sees. -/
theorem entry_collected {t : Table} {e : Entry} {m : Method}
    (done : (Table.build owner limit).eval r = (.ok t, grown))
    (listed : t.entry side property = .ok e) (backed : e.accessor = .method m) :
    ∃ methods middle, (collectMethods owner limit).eval r = (.ok methods, middle) ∧
      middle.Interns grown ∧ m ∈ methods ∧ grown.resolveValue m owner side = .ok e.generic := by
  obtain ⟨methods, middle, collected, interned⟩ := Table.build_collected done
  refine ⟨methods, middle, collected, interned, ?_⟩
  have again := (collectMethods_lasting owner limit).lasts _ _ _ _ collected interned.growsTo
  obtain ⟨_, methods', readers, writers, sides, d, -, collected', got, set, filled, -, rfl⟩ :=
    Table.build_settled done
  obtain rfl := Except.ok.inj (congrArg Prod.fst (collected'.symm.trans again))
  obtain ⟨os, same, settled⟩ := candidates_overloads again side property
  obtain ⟨readers_filled, writers_filled⟩ := addFields_filled filled
  cases side with
  | read =>
    have made := readers_filled.find?_method (Table.entry_eq_ok.mp listed) backed
    rw [getterEntries_eq] at got
    obtain ⟨-, w, resolved, made⟩ := pass_entered (fun property => resolveGetter_lasting property _)
      (getterEntry_lasting owner) got made
    obtain ⟨generic, type, seen, -, rfl⟩ := getterEntry_settled made
    cases backed
    rw [← same] at resolved
    exact ⟨mem_candidates (same ▸ resolveGetter_mem settled resolved), seen⟩
  | write =>
    have made := writers_filled.find?_method (Table.entry_eq_ok.mp listed) backed
    rw [setterEntries_eq] at set
    obtain ⟨-, w, resolved, made⟩ := pass_entered
      (fun property => resolveSetter_lasting property _ _) (setterEntry_lasting owner) set made
    obtain ⟨generics, type, seen, -, rfl⟩ := setterEntry_settled made
    cases backed
    rw [← same] at resolved
    refine ⟨mem_candidates (same ▸ resolveSetter_mem settled resolved), ?_⟩
    exact bind_pure_eq_ok.mpr ⟨generics, seen, rfl⟩

end

/-! ## Overrides -/

/-- A method is kept in place of one with the same signature only if the walk comes to its type
first, so that there is a way up to it that does not go through the type of the other. Where every
way up to an overridden declaration leads through an overriding one, the overridden one is neither
kept nor what a table reports the type of. -/
theorem overrides_collapse {r : Registry} (reachable : r.Reachable) (type : TypeId) (limit : Nat) :
    (∀ methods grown, (collectMethods type limit).eval r = (.ok methods, grown) →
      ∀ k ∈ methods, r.Prevails grown type k) ∧
    ∀ t grown, (Table.build type limit).eval r = (.ok t, grown) →
      ∀ side property e k, t.entry side property = .ok e → e.accessor = .method k →
        r.Prevails grown type k ∧ grown.resolveValue k type side = .ok e.generic := by
  constructor
  · intro methods grown done
    exact prevails_of_collected reachable done (.refl grown)
  · intro t grown done side property e k listed backed
    obtain ⟨methods, middle, collected, interned, member, seen⟩ :=
      entry_collected done listed backed
    exact ⟨prevails_of_collected reachable collected interned k member, seen⟩

/-- An interface, one that extends it and overrides its getter with one of a variable type, and a
class that implements some of them. -/
def Registry.refined (clauses : List GenericType) : Registry :=
  ((initial.declared "" "Base" .interfaceType (·.getter "getX" (.named .object))).declared "" "Sub"
    .interfaceType fun d => ((d.withTypeParam ⟨"T", []⟩).implementing (.named ⟨11⟩)).getter "getX"
      (.typeVar "T")).declared "" "Impl" .classType fun d => clauses.foldl Draft.implementing d

theorem refined_reachable (clauses : List GenericType) : (Registry.refined clauses).Reachable :=
  ((Registry.Reachable.declared .refl _ _ _ _).declared _ _ _ _).declared _ _ _ _

theorem exists_refinedTable {clauses : List GenericType} {k : Method} {generic : GenericType}
    (answers : Prod.map (·.toOption.map fun t =>
      (t.readers.find? "x").map fun e => (e.accessor, e.generic)) id
      ((Table.build ⟨13⟩ Table.defaultLimit).eval (.refined clauses)) =
        (some (some (.method k, generic)), .refined clauses)) :
    ∃ t e, (Table.build ⟨13⟩ Table.defaultLimit).eval (.refined clauses) =
      (.ok t, .refined clauses) ∧ t.entry .read "x" = .ok e ∧ e.accessor = .method k ∧
        e.generic = generic := by
  obtain ⟨t, done, view⟩ := Growing.exists_eval_of_view answers
  obtain ⟨e, found, view⟩ := Option.map_eq_some_iff.mp view
  obtain ⟨accessor, seen⟩ := Prod.mk.inj view
  exact ⟨t, e, done, Table.entry_eq_ok.mpr found, accessor, seen⟩

theorem exists_refinedTable_alone :
    let r := Registry.refined [.applied ⟨12⟩ [.named .string]]
    ∃ t e, (Table.build ⟨13⟩ Table.defaultLimit).eval r = (.ok t, r) ∧
      t.entry .read "x" = .ok e ∧ e.accessor = .method (getX ⟨12⟩ (.typeVar "T")) ∧
      e.generic = .named .string :=
  exists_refinedTable (by cbv)

theorem exists_refinedTable_beside :
    let r := Registry.refined [.named ⟨11⟩, .applied ⟨12⟩ [.named .string]]
    ∃ t e, (Table.build ⟨13⟩ Table.defaultLimit).eval r = (.ok t, r) ∧
      t.entry .read "x" = .ok e ∧ e.accessor = .method (getX ⟨11⟩ (.named .object)) ∧
      e.generic = .named .object :=
  exists_refinedTable (by cbv)

theorem refined_collected :
    let r := Registry.refined [.named ⟨11⟩, .applied ⟨12⟩ [.named .string]]
    (collectMethods ⟨13⟩ Table.defaultLimit).eval r = (.ok [getX ⟨11⟩ (.named .object)], r) := by
  cbv

theorem refined_signatures :
    let r := Registry.refined [.named ⟨11⟩, .applied ⟨12⟩ [.named .string]]
    (getX ⟨11⟩ (.named .object)).HasSignature r ⟨"getX", [], .object⟩ ∧
    (getX ⟨12⟩ (.typeVar "T")).HasSignature r ⟨"getX", [], .object⟩ := by
  constructor
  · cbv
  · cbv

theorem refined_seen :
    let r := Registry.refined [.named ⟨11⟩, .applied ⟨12⟩ [.named .string]]
    r.resolveValue (getX ⟨12⟩ (.typeVar "T")) ⟨13⟩ .read = .ok (.named .string) := by
  cbv

/-- Where the class implements the extending interface alone, there is no way around it, and a text
is read. -/
theorem overrides_collapse_refined :
    let r := Registry.refined [.applied ⟨12⟩ [.named .string]]
    r.Reachable ∧ ∃ t e, (Table.build ⟨13⟩ Table.defaultLimit).eval r = (.ok t, r) ∧
      t.entry .read "x" = .ok e ∧ e.accessor = .method (getX ⟨12⟩ (.typeVar "T")) ∧
      e.generic = .named .string ∧ r.Prevails r ⟨13⟩ (getX ⟨12⟩ (.typeVar "T")) ∧
      r.resolveValue (getX ⟨12⟩ (.typeVar "T")) ⟨13⟩ .read = .ok (.named .string) := by
  intro r
  obtain ⟨t, e, done, listed, backed, generic⟩ := exists_refinedTable_alone
  have reachable : r.Reachable := refined_reachable _
  obtain ⟨prevails, seen⟩ :=
    (overrides_collapse reachable ⟨13⟩ Table.defaultLimit).2 t r done .read "x" e _ listed backed
  exact ⟨reachable, t, e, done, listed, backed, generic, prevails, generic ▸ seen⟩

/-- Where it implements the extended interface as well, and names it first, the overridden
declaration is kept, and what is read is any object and not a text. -/
theorem overridden_kept :
    let r := Registry.refined [.named ⟨11⟩, .applied ⟨12⟩ [.named .string]]
    r.Reachable ∧ r.SupertypesPublished ∧ r.Acyclic ∧
      (collectMethods ⟨13⟩ Table.defaultLimit).eval r = (.ok [getX ⟨11⟩ (.named .object)], r) ∧
      (∃ signature, (getX ⟨11⟩ (.named .object)).Bears r signature ∧
        (getX ⟨12⟩ (.typeVar "T")).Bears r signature) ∧
      r.Discoverable ⟨13⟩ ⟨12⟩ ∧ getX ⟨12⟩ (.typeVar "T") ∈ r.methodsOf ⟨12⟩ ∧
      r.DeclaredSupertype ⟨12⟩ ⟨11⟩ ∧
      (∃ t e, (Table.build ⟨13⟩ Table.defaultLimit).eval r = (.ok t, r) ∧
        t.entry .read "x" = .ok e ∧ e.accessor = .method (getX ⟨11⟩ (.named .object)) ∧
        e.generic = .named .object) ∧
      r.resolveValue (getX ⟨12⟩ (.typeVar "T")) ⟨13⟩ .read = .ok (.named .string) := by
  intro r
  have acyclic : r.Acyclic :=
    Registry.acyclic_of_rank (·.index) (Registry.forall_supertypes_iff.mpr (by decide))
  have chain : r.belowRoot ⟨13⟩ = [⟨13⟩] := by cbv
  obtain ⟨base, sub⟩ := refined_signatures
  have above : r.Discoverable ⟨13⟩ ⟨12⟩ :=
    .inr ⟨⟨13⟩, by simp [chain], .single (by decide)⟩
  exact ⟨refined_reachable _, by decide, acyclic, refined_collected, ⟨_, ⟨rfl, base⟩, ⟨rfl, sub⟩⟩,
    above, List.mem_singleton_self _, .of_superinterface (by decide), exists_refinedTable_beside,
    refined_seen⟩

end PropertyTables
