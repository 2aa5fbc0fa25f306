import PropertyTables.Proofs.First
import PropertyTables.Proofs.Hierarchy.DepthFirst
import PropertyTables.Proofs.Table.Bridges
import PropertyTables.Proofs.Table.Collected
import PropertyTables.Proofs.Table.DepthLimit
import PropertyTables.Proofs.Table.Views

/-! # Discovery loses and duplicates nothing

* `Registry.Discoverable`: the classes below the root type from a type upward, and the interfaces
  above them.
* `Gathered`: what is kept of the methods seen so far, the first of each signature.
  `addUnique_gathered`, `collectFrom_gathered`: it is what discovery keeps.
* `collectMethods_gathered`: discovery goes through a hierarchy in the order of
  `Registry.DiscoveryWalk`.
* `collectMethods_lossless`: of every method declared in a hierarchy, bridges apart, exactly one of
  the same signature is collected, the first of the walk; and bridges make no difference.
-/

namespace PropertyTables
set_option autoImplicit false

open Growing (Lasting)

/-! ## The methods of a hierarchy -/

namespace Registry
variable {r grown : Registry} {type id : TypeId}

/-- Whether a type is on the superclass chain of another, the root type apart, or is an interface
above that chain. -/
def Discoverable (r : Registry) (type id : TypeId) : Prop :=
  id ∈ r.belowRoot type ∨ ∃ c ∈ r.belowRoot type, r.InterfacePath c id

/-- Interning adds no methods. -/
theorem Interns.methodsOf (h : r.Interns grown) (id : TypeId) :
    grown.methodsOf id = r.methodsOf id := by
  rw [Registry.methodsOf, Registry.methodsOf]
  cases known : r.find? id with
  | some d => rw [h.growsTo.declared id d known]
  | none =>
    cases found : grown.find? id with
    | none => rfl
    | some d =>
      rcases h.find?_cases found with before | ⟨-, empty, -⟩
      · rw [known] at before
        cases before
      · exact empty

end Registry

/-! ## The first of each signature -/

section Gathering
variable {r : Registry} {walk : List Method} {kept made : List (Signature × Method)}
  {m : Method} {signature : Signature}

/-- Whether a method has a signature; nothing need be interned for it. -/
def Method.HasSignature (r : Registry) (m : Method) (signature : Signature) : Prop :=
  m.signature.eval r = (.ok signature, r)

theorem Method.HasSignature.unique {a b : Signature} (ha : m.HasSignature r a)
    (hb : m.HasSignature r b) : a = b :=
  Except.ok.inj (congrArg Prod.fst (ha.symm.trans hb))

/-- Whether a method that is no bridge has a signature. -/
def Method.Bears (r : Registry) (signature : Signature) (m : Method) : Prop :=
  m.modifiers.isBridge = false ∧ m.HasSignature r signature

/-- Whether the first method of each signature is kept of those in a list, bridges apart. -/
structure Gathered (r : Registry) (walk : List Method) (kept : List (Signature × Method)) : Prop where
  distinct : (kept.map (·.1)).Nodup
  first : ∀ p ∈ kept, FirstIn (Method.Bears r p.1) walk p.2
  complete : ∀ m ∈ walk, m.modifiers.isBridge = false → ∃ p ∈ kept, m.HasSignature r p.1

namespace Gathered

theorem empty : Gathered r [] [] where
  distinct := .nil
  first := by simp
  complete := by simp

/-- A method is left out if it is a bridge or if one of its signature is kept. -/
theorem skip (h : Gathered r walk kept) (covered : m.modifiers.isBridge = false →
    ∃ p ∈ kept, m.HasSignature r p.1) : Gathered r (walk ++ [m]) kept where
  distinct := h.distinct
  first p listed := (h.first p listed).append [m]
  complete n listed plain := by
    rcases List.mem_append.mp listed with before | last
    · exact h.complete n before plain
    · obtain rfl := List.mem_singleton.mp last
      exact covered plain

/-- A method of a new signature is kept. -/
theorem keep (h : Gathered r walk kept) (bears : m.Bears r signature)
    (fresh : signature ∉ kept.map (·.1)) :
    Gathered r (walk ++ [m]) (kept ++ [(signature, m)]) where
  distinct := by
    rw [List.map_append, List.map_singleton]
    refine List.nodup_append.mpr ⟨h.distinct, List.nodup_singleton _, ?_⟩
    rintro a listed b last rfl
    obtain rfl := List.mem_singleton.mp last
    exact fresh listed
  first p listed := by
    rcases List.mem_append.mp listed with before | last
    · exact (h.first p before).append [m]
    · obtain rfl := List.mem_singleton.mp last
      -- none of the methods seen so far has the signature, since it would be kept
      refine FirstIn.after (fun n seen borne => fresh ?_) (.here [] bears)
      obtain ⟨p, member, has⟩ := h.complete n seen borne.1
      exact List.mem_map.mpr ⟨p, member, has.unique borne.2⟩
  complete n listed plain := by
    rcases List.mem_append.mp listed with before | last
    · obtain ⟨p, member, has⟩ := h.complete n before plain
      exact ⟨p, List.mem_append_left _ member, has⟩
    · obtain rfl := List.mem_singleton.mp last
      exact ⟨(signature, n), List.mem_append_right _ (List.mem_singleton_self _), bears.2⟩

end Gathered

theorem addUnique_gathered {methods : List Method} (h : Gathered r walk kept)
    (done : (addUnique kept methods).eval r = (.ok made, r)) : Gathered r (walk ++ methods) made := by
  induction methods generalizing walk kept with
  | nil =>
    cases done
    rwa [List.append_nil]
  | cons m rest ih =>
    rw [List.append_cons]
    by_cases bridge : m.modifiers.isBridge = true
    · rw [addUnique, if_pos bridge] at done
      exact ih (h.skip fun plain => absurd bridge (Bool.eq_false_iff.mp plain)) done
    · have plain := Bool.eq_false_iff.mpr bridge
      obtain ⟨signature, has, done⟩ := addUnique_settled plain done
      split at done
      · rename_i known
        obtain ⟨p, member, same⟩ := List.any_eq_true.mp known
        exact ih (h.skip fun _ => ⟨p, member, of_decide_eq_true same ▸ has⟩) done
      · rename_i new
        refine ih (h.keep ⟨plain, has⟩ fun listed => new ?_) done
        obtain ⟨p, member, same⟩ := List.mem_map.mp listed
        exact List.any_eq_true.mpr ⟨p, member, decide_eq_true same⟩

theorem collectFrom_gathered {ids : List TypeId} (h : Gathered r walk kept)
    (done : (collectFrom kept ids).eval r = (.ok made, r)) :
    Gathered r (walk ++ ids.flatMap r.methodsOf) made := by
  induction ids generalizing walk kept with
  | nil =>
    cases done
    rwa [List.flatMap_nil, List.append_nil]
  | cons id rest ih =>
    obtain ⟨d, next, found, added, done⟩ := collectFrom_step.mp done
    rw [List.flatMap_cons, Registry.methodsOf_of_find? found, ← List.append_assoc]
    exact ih (addUnique_gathered h added) done

/-- One method alone has a signature among those that are kept. -/
theorem Gathered.only (h : Gathered r walk kept) {p : Signature × Method} (listed : p ∈ kept) :
    OnlyIn (·.HasSignature r p.1) (kept.map (·.2)) p.2 := by
  obtain ⟨before, after, rfl⟩ := List.append_of_mem listed
  have distinct := h.distinct
  rw [List.map_append, List.map_cons, List.nodup_middle, List.nodup_cons, ← List.map_append] at distinct
  refine ⟨(h.first p listed).holds.2, before.map (·.2), after.map (·.2), by simp, ?_⟩
  rw [← List.map_append]
  intro n member same
  obtain ⟨q, other, rfl⟩ := List.mem_map.mp member
  have kept_too : q ∈ before ++ p :: after :=
    List.mem_append.mpr ((List.mem_append.mp other).imp_right (List.mem_cons_of_mem p))
  exact distinct.1 (List.mem_map.mpr ⟨q, other, (h.first q kept_too).holds.2.unique same⟩)

end Gathering

/-! ## What is collected -/

section Collecting
variable {r grown later : Registry} {type : TypeId} {limit : Nat} {methods : List Method}

/-- Discovery goes through the hierarchy of a type and keeps the first method of each signature,
whatever is interned afterwards. -/
theorem collectMethods_gathered (reachable : r.Reachable)
    (done : (collectMethods type limit).eval r = (.ok methods, grown))
    (interned : grown.Interns later) :
    ∃ order kept, r.DiscoveryWalk ∅ (some type) order ∧
      (∀ id, id ∈ order ↔ r.Discoverable type id) ∧
      Gathered later (order.flatMap r.methodsOf) kept ∧ methods = kept.map (·.2) := by
  have before := (collectMethods_lasting type limit).interns_of_eval done
  rw [collectMethods_eq] at done
  obtain ⟨chain, _, walked, done⟩ := Growing.bind_eval_ok.mp done
  rw [Growing.eval_read, Prod.mk.injEq] at walked
  obtain ⟨walked, rfl⟩ := walked
  obtain ⟨kept, _, collected, done⟩ := Growing.bind_eval_ok.mp done
  cases done
  rw [collectAlong_eval] at collected
  have again := (collectFrom_lasting [] _).lasts r kept grown later collected interned.growsTo
  have gathered := collectFrom_gathered .empty again
  rw [List.nil_append, funext (before.trans interned).methodsOf] at gathered
  refine ⟨r.discoveryOrder [] chain, kept, ?_, fun id => ?_, gathered, rfl⟩
  · have walk : r.DiscoveryWalk {t | t ∈ []} (some type) (r.discoveryOrder [] chain) :=
      Registry.discoveryOrder_walk walked
    simpa using walk
  · rw [Registry.mem_discoveryOrder, reachable.classChain_eq walked]
    exact Iff.rfl

/-- Discovery collects methods of the hierarchy that are no bridges. Of each it collects exactly one
method with the same signature, the first in the order of the walk. And a registry that differs in
bridges alone has the same methods collected and the same table. -/
theorem collectMethods_lossless (reachable : r.Reachable)
    (done : (collectMethods type limit).eval r = (.ok methods, grown)) :
    (∀ k ∈ methods, k.modifiers.isBridge = false ∧
      ∃ id, r.Discoverable type id ∧ k ∈ r.methodsOf id) ∧
    (∃ order, (∀ other, r.DiscoveryWalk ∅ (some type) other ↔ other = order) ∧
      (∀ id, id ∈ order ↔ r.Discoverable type id) ∧
      ∀ id, r.Discoverable type id → ∀ m ∈ r.methodsOf id, m.modifiers.isBridge = false →
        ∃ signature k, m.HasSignature grown signature ∧
          OnlyIn (·.HasSignature grown signature) methods k ∧
          FirstIn (Method.Bears grown signature) (order.flatMap r.methodsOf) k) ∧
    ∀ s : Registry, s.withoutBridges = r.withoutBridges →
      ((collectMethods type limit).eval s).1 = .ok methods ∧
      ((Table.build type limit).eval s).1 = ((Table.build type limit).eval r).1 := by
  obtain ⟨order, kept, walk, within, gathered, rfl⟩ :=
    collectMethods_gathered reachable done (.refl grown)
  refine ⟨fun k listed => ?_, ⟨order, fun other => ?_, within, fun id inside m declared plain => ?_⟩,
    fun s same => ⟨?_, build_bridges same type limit⟩⟩
  · obtain ⟨p, member, rfl⟩ := List.mem_map.mp listed
    have first := gathered.first p member
    obtain ⟨id, walked, declared⟩ := List.mem_flatMap.mp first.mem
    exact ⟨first.holds.1, id, (within id).mp walked, declared⟩
  · exact ⟨fun other => other.unique walk, fun same => same ▸ walk⟩
  · have seen := List.mem_flatMap.mpr ⟨id, (within id).mpr inside, declared⟩
    obtain ⟨p, member, has⟩ := gathered.complete m seen plain
    exact ⟨p.1, p.2, has, gathered.only member, gathered.first p member⟩
  · rw [collectMethods_bridges same, done]

end Collecting

def nameGetter : MethodDraft := { name := "getName", returns := some (.named .string) }

def titleGetter : MethodDraft := { name := "getTitle", returns := some (.named .string) }

/-- Two interfaces above each other and a class below both. All three declare one getter; one of the
interfaces declares another, for which the class has the given bridges. -/
def Registry.entangled (bridges : List MethodDraft) : Registry :=
  ((initial.declared "" "Named" .interfaceType fun d =>
    (d.implementing (.named ⟨12⟩)).method nameGetter).declared "" "Titled" .interfaceType fun d =>
      ((d.implementing (.named ⟨11⟩)).method titleGetter).method nameGetter).declared "" "Book"
        .classType fun d => bridges.foldl (·.method ·.asBridge) (((d.implementing
          (.named ⟨12⟩)).implementing (.named ⟨11⟩)).method nameGetter)

theorem entangled_collected :
    (collectMethods ⟨13⟩ Table.defaultLimit).eval (.entangled [titleGetter]) =
      (.ok [nameGetter.finish ⟨13⟩, titleGetter.finish ⟨12⟩], .entangled [titleGetter]) := by
  cbv

theorem entangled_bridges :
    (Registry.entangled []).withoutBridges = (Registry.entangled [titleGetter]).withoutBridges := by
  cbv

theorem entangled_signatures :
    (nameGetter.finish ⟨11⟩).HasSignature (.entangled [titleGetter]) ⟨"getName", [], .string⟩ ∧
    (titleGetter.finish ⟨12⟩).HasSignature (.entangled [titleGetter]) ⟨"getTitle", [], .string⟩ := by
  constructor
  · cbv
  · cbv

/-- The getter of the class stands for those of both interfaces, and the bridge is as good as
absent. -/
theorem collectMethods_lossless_entangled :
    let r := Registry.entangled [titleGetter]
    r.Reachable ∧ (collectMethods ⟨13⟩ Table.defaultLimit).eval r =
      (.ok [nameGetter.finish ⟨13⟩, titleGetter.finish ⟨12⟩], r) ∧
      (∃ signature, (nameGetter.finish ⟨11⟩).HasSignature r signature ∧
        OnlyIn (·.HasSignature r signature) [nameGetter.finish ⟨13⟩, titleGetter.finish ⟨12⟩]
          (nameGetter.finish ⟨13⟩)) ∧
      ((Table.build ⟨13⟩ Table.defaultLimit).eval (.entangled [])).1 =
        ((Table.build ⟨13⟩ Table.defaultLimit).eval r).1 := by
  intro r
  have reachable : r.Reachable :=
    ((Registry.Reachable.declared .refl _ _ _ _).declared _ _ _ _).declared _ _ _ _
  have chain : r.belowRoot ⟨13⟩ = [⟨13⟩] := by cbv
  have above : r.Discoverable ⟨13⟩ ⟨11⟩ :=
    .inr ⟨⟨13⟩, by simp [chain], .single (by decide)⟩
  have declared : nameGetter.finish ⟨11⟩ ∈ r.methodsOf ⟨11⟩ := List.mem_singleton_self _
  obtain ⟨inherited, other⟩ := entangled_signatures
  obtain ⟨-, ⟨order, -, -, kept⟩, bridges⟩ := collectMethods_lossless reachable entangled_collected
  obtain ⟨signature, k, has, only, -⟩ := kept ⟨11⟩ above _ declared rfl
  obtain rfl := has.unique inherited
  refine ⟨reachable, entangled_collected, ⟨_, has, ?_⟩, ?_⟩
  · rcases List.mem_pair.mp only.mem with rfl | rfl
    · exact only
    · have named : "getName" = "getTitle" :=
        congrArg Signature.name (Method.HasSignature.unique only.1 other)
      exact absurd named (by decide)
  · exact (bridges _ entangled_bridges).2

end PropertyTables
