import PropertyTables.Proofs.Hierarchy.Ancestors
import PropertyTables.Proofs.Hierarchy.Interning
import PropertyTables.Proofs.Registry.Closed
import PropertyTables.Proofs.Table.Faults
import PropertyTables.Proofs.Table.Origins

/-! # The limit on superclass chains

Two walks go up the superclass chain of a type. The one that collects methods stops at the root
type, the one that adds fields counts it as well.

* `Registry.belowRoot`: the chain without the root type.
* `classChain_outcome`: the first walk allows as many classes below the root type as the limit.
  `Reachable.classChain_eq`: it lists these classes.
* `addFields_within`, `addFields_overrun`: the second allows as many classes in all.
* `build_depth_limit`: a build reports the limit, if nothing else goes wrong, exactly where the
  chain is longer with the root type counted, or endless.
* `build_refuses_full_chain`: so it refuses a chain that the first walk accepts.
-/

namespace PropertyTables
set_option autoImplicit false

open Growing (Lasting)

namespace Registry
variable {r : Registry} {limit room : Nat} {id parent : TypeId}

/-! ## Endless chains -/

theorem endlessChain_iff : r.EndlessChain id ↔ ∀ n, r.ancestor? n id ≠ none :=
  ⟨EndlessChain.ancestor?, endlessChain_of_ancestors⟩

theorem not_endlessChain_of_top (top : r.superclass? id = none) : ¬ r.EndlessChain id :=
  fun endless => endless.ancestor? 1 (by rw [ancestor?, top, Option.bind_none])

theorem endlessChain_superclass (edge : r.superclass? id = some parent) :
    r.EndlessChain id ↔ r.EndlessChain parent := by
  have step (n : Nat) : r.ancestor? (n + 1) id = r.ancestor? n parent := by
    rw [ancestor?, edge, Option.bind_some]
  rw [endlessChain_iff, endlessChain_iff]
  constructor
  · exact fun all n => step n ▸ all (n + 1)
  · intro all n
    cases n with
    | zero => exact Option.some_ne_none id
    | succ n => exact step n ▸ all n

/-- A chain that is not endless is a type before the chain of its superclass. -/
theorem superclassChain_of_ends (ends : ¬ r.EndlessChain id) :
    r.superclassChain id = id :: (r.superclass? id).elim [] r.superclassChain := by
  rw [endlessChain_iff] at ends
  push Not at ends
  obtain ⟨m, gone⟩ := ends
  exact superclassChain_cons (notMem_of_ends gone)

/-! ## The chain below the root type -/

/-- The superclass chain of a type without the root type. -/
def belowRoot (r : Registry) (id : TypeId) : List TypeId :=
  (r.superclassChain id).filter (· ≠ .object)

theorem belowRoot_root (root : r.superclass? .object = none) : r.belowRoot .object = [] := by
  rw [belowRoot, superclassChain_of_ends (not_endlessChain_of_top root), root]
  rfl

theorem belowRoot_of_ends (other : id ≠ .object) (ends : ¬ r.EndlessChain id) :
    r.belowRoot id = id :: (r.superclass? id).elim [] r.belowRoot := by
  rw [belowRoot, superclassChain_of_ends ends, List.filter_cons_of_pos (by simpa using other)]
  cases r.superclass? id <;> rfl

theorem mem_belowRoot_self (other : id ≠ .object) : id ∈ r.belowRoot id :=
  List.mem_filter.mpr ⟨r.self_mem_superclassChain id, by simpa using other⟩

/-- The root type occurs once at most. -/
theorem length_superclassChain (r : Registry) (id : TypeId) :
    (r.superclassChain id).length =
      (r.belowRoot id).length + if .object ∈ r.superclassChain id then 1 else 0 := by
  have once := (r.superclassChain_nodup id).count (a := TypeId.object)
  have both := List.length_eq_countP_add_countP (· == TypeId.object) (l := r.superclassChain id)
  rw [← List.count_eq_countP, once, Nat.add_comm, List.countP_eq_length_filter] at both
  rw [both, belowRoot]
  simp

/-! ## The walk that collects methods -/

/-- The walk that collects methods comes to all classes below the root type, if there are no more
than it has room for. -/
theorem classChain_outcome (root : r.superclass? .object = none)
    (declared : ∀ c ∈ r.superclassChain id, r.Published c) :
    (r.classChain limit room (some id) = .ok (r.belowRoot id) ∧ (r.belowRoot id).length ≤ room ∧
      ¬ r.EndlessChain id) ∨
    (r.classChain limit room (some id) = .error (.recursionLimit limit) ∧
      (room < (r.belowRoot id).length ∨ r.EndlessChain id)) := by
  induction room generalizing id with
  | zero =>
    by_cases here : id = .object
    · subst here
      rw [belowRoot_root root, classChain, if_pos rfl]
      exact .inl ⟨rfl, Nat.le_refl 0, not_endlessChain_of_top root⟩
    · rw [classChain, if_neg here]
      exact .inr ⟨rfl, .inl (List.length_pos_of_mem (mem_belowRoot_self here))⟩
  | succ room ih =>
    by_cases here : id = .object
    · subst here
      rw [belowRoot_root root, classChain, if_pos rfl]
      exact .inl ⟨rfl, Nat.zero_le _, not_endlessChain_of_top root⟩
    obtain ⟨d, found⟩ := published_iff.mp (declared id (r.self_mem_superclassChain id))
    have above := superclass?_of_find? found
    have step : r.classChain limit (room + 1) (some id) =
        (r.classChain limit room (r.superclass? id) >>= fun rest => pure (id :: rest)) := by
      rw [classChain, if_neg here, find_eq_ok.mpr found, above]
      rfl
    rw [step]
    cases edge : r.superclass? id with
    | none =>
      have ends := not_endlessChain_of_top edge
      rw [belowRoot_of_ends here ends, edge, classChain]
      exact .inl ⟨rfl, Nat.succ_le_succ (Nat.zero_le room), ends⟩
    | some parent =>
      have listed := mem_superclassChain_iff.mpr (Relation.ReflTransGen.single edge)
      rcases ih fun c member => declared c (superclassChain_trans listed member) with
        ⟨accepted, fits, ends⟩ | ⟨refused, long⟩
      · have ends := mt (endlessChain_superclass edge).mp ends
        rw [accepted, belowRoot_of_ends here ends, edge]
        exact .inl ⟨rfl, Nat.succ_le_succ fits, ends⟩
      · rw [refused]
        refine .inr ⟨rfl, ?_⟩
        by_cases endless : r.EndlessChain id
        · exact .inr endless
        · have long := long.resolve_right (mt (endlessChain_superclass edge).mpr endless)
          rw [belowRoot_of_ends here endless, edge]
          exact .inl (Nat.succ_lt_succ long)

/-- The walk that collects methods asks for every class below the root type. -/
theorem classChain_published {start : Option TypeId} {chain : List TypeId}
    (root : r.superclass? .object = none)
    (done : r.classChain limit room start = .ok chain) :
    ∀ id ∈ start, ∀ c ∈ r.superclassChain id, c = .object ∨ r.Published c := by
  have top (c : TypeId) (listed : c ∈ r.superclassChain .object) : c = .object := by
    rcases (mem_superclassChain_iff.mp listed).cases_head with same | ⟨parent, edge, -⟩
    · exact same.symm
    · rw [DeclaredSuperclass, root] at edge
      cases edge
  induction room generalizing start chain with
  | zero =>
    rintro id ⟨⟩ c listed
    rw [classChain] at done
    split at done
    · rename_i here
      exact .inl (top c (here ▸ listed))
    · cases done
  | succ room ih =>
    rintro id ⟨⟩ c listed
    rw [classChain] at done
    split at done
    · rename_i here
      exact .inl (top c (here ▸ listed))
    · obtain ⟨d, found, done⟩ := bind_eq_ok.mp done
      obtain ⟨rest, above, -⟩ := bind_eq_ok.mp done
      have found := find_eq_ok.mp found
      rcases (mem_superclassChain_iff.mp listed).cases_head with rfl | ⟨parent, edge, path⟩
      · exact .inr (.of_find? found)
      · have named : parent ∈ d.superclass? := (superclass?_of_find? found).symm.trans edge
        exact ih above parent named c (mem_superclassChain_iff.mpr path)

/-- A chain that is accepted is the chain below the root type. -/
theorem Reachable.classChain_eq (reachable : r.Reachable) {chain : List TypeId}
    (done : r.classChain limit room (some id) = .ok chain) : chain = r.belowRoot id := by
  have declared (c : TypeId) (listed : c ∈ r.superclassChain id) : r.Published c := by
    rcases classChain_published reachable.superclass?_object done id rfl c listed with rfl | declared
    · exact reachable.published_object
    · exact declared
  rcases classChain_outcome reachable.superclass?_object declared with ⟨accepted, -⟩ | ⟨refused, -⟩
  · exact Except.ok.inj (done.symm.trans accepted)
  · cases done.symm.trans refused

end Registry

/-! ## The walk that adds fields -/

section Fields
variable {r : Registry} {owner : TypeId} {limit room : Nat} {start : Option TypeId}
  {made after : Sides}

/-- The walk that adds fields ends where the chain does. -/
theorem addFields_within
    (done : (addFields owner limit room start made).eval r = (.ok after, r)) :
    start.bind (r.ancestor? room) = none := by
  induction room generalizing start made with
  | zero =>
    cases start with
    | none => rfl
    | some id => cases done
  | succ room ih =>
    cases start with
    | none => rfl
    | some id =>
      rw [addFields] at done
      have filling (d : Declaration) := Lasting.foldlM (addField_lasting owner) d.fields made
      have going_on (d : Declaration) := addFields_lasting owner limit room d.superclass?
      obtain ⟨d, found, done⟩ := ((Lasting.read (Registry.find_stable id)).bind_settled fun d =>
        (filling d).bind (going_on d)).mp done
      obtain ⟨made', -, done⟩ := ((filling d).bind_settled (going_on d)).mp done
      have above : r.superclass? id = d.superclass? := by
        rw [Registry.superclass?, Registry.find_eq_ok.mp (congrArg Prod.fst found),
          Option.bind_some]
      rw [Option.bind_some, Registry.ancestor?, above]
      exact ih done

/-- It reports the limit only where the chain goes on. -/
theorem addFields_overrun {n : Nat}
    (failed : (addFields owner limit room start made).eval r =
      (.error (.recursionLimit n), r)) :
    n = limit ∧ start.bind (r.ancestor? room) ≠ none := by
  induction room generalizing start made with
  | zero =>
    cases start with
    | none => cases failed
    | some id =>
      cases failed
      exact ⟨rfl, Option.some_ne_none id⟩
  | succ room ih =>
    cases start with
    | none => cases failed
    | some id =>
      rw [addFields] at failed
      have filling (d : Declaration) := Lasting.foldlM (addField_lasting owner) d.fields made
      have going_on (d : Declaration) := addFields_lasting owner limit room d.superclass?
      rcases (Lasting.read (Registry.find_stable id)).bind_cases
        (fun d => (filling d).bind (going_on d)) failed with ⟨fault, same, unknown⟩ | ⟨d, found, failed⟩
      · cases same
        obtain ⟨_, other, -⟩ := r.find_lacking id _ (congrArg Prod.fst unknown)
        cases other
      rcases (filling d).bind_cases (going_on d) failed with ⟨fault, same, unknown⟩ | ⟨made', -, failed⟩
      · cases same
        have lacking (made : Sides) (f : Field) :
            (addField owner made f).FailsOnly fun fault => ∃ id, fault = .typeNotFound id :=
          (addField_lacking owner made f).failsOnly fun id => ⟨id, rfl⟩
        obtain ⟨_, other⟩ :=
          Growing.FailsOnly.foldlM lacking d.fields made r _ (congrArg Prod.fst unknown)
        cases other
      · have above : r.superclass? id = d.superclass? := by
          rw [Registry.superclass?, Registry.find_eq_ok.mp (congrArg Prod.fst found),
            Option.bind_some]
        rw [Option.bind_some, Registry.ancestor?, above]
        exact ih failed

end Fields

/-! ## Building a table -/

section Build
variable {r grown : Registry} {owner : TypeId} {limit n : Nat}

theorem collectMethods_overrun
    (failed : (collectMethods owner limit).eval r = (.error (.recursionLimit n), grown)) :
    r.classChain limit limit (some owner) = .error (.recursionLimit n) := by
  rw [collectMethods_eq, Growing.eval_bind, Growing.eval_read] at failed
  cases walked : r.classChain limit limit (some owner) with
  | error fault =>
    rw [walked] at failed
    obtain ⟨same, -⟩ := Prod.mk.inj failed
    cases same
    rfl
  | ok chain =>
    -- what comes after the walk lacks declarations, if anything
    rw [walked] at failed
    have lacking := (collectFrom_lacking [] (r.discoveryOrder [] chain)).map (·.map (·.2))
    obtain ⟨_, other, -⟩ := lacking r _ (congrArg Prod.fst failed)
    cases other

theorem collectMethods_accepts {methods : List Method}
    (done : (collectMethods owner limit).eval r = (.ok methods, grown)) :
    ∃ chain, r.classChain limit limit (some owner) = .ok chain := by
  rw [collectMethods_eq] at done
  obtain ⟨chain, _, walked, -⟩ := Growing.bind_eval_ok.mp done
  exact ⟨chain, congrArg Prod.fst walked⟩

/-- A build reports the limit for one of the two walks. -/
theorem build_overrun
    (failed : (Table.build owner limit).eval r = (.error (.recursionLimit n), grown)) :
    r.classChain limit limit (some owner) = .error (.recursionLimit n) ∨
      n = limit ∧ grown.ancestor? limit owner ≠ none := by
  -- the other parts of a build fail in other ways
  have elsewhere {allowed : Fault → Prop} (no : ¬ allowed (.recursionLimit n)) {α : Type}
      {x : Growing α} (fails : x.FailsOnly allowed) {s : Registry} :
      x.eval s ≠ (.error (.recursionLimit n), grown) :=
    fun failed => no (fails s _ (congrArg Prod.fst failed))
  let allowed (fault : Fault) : Prop := ∀ n, fault ≠ .recursionLimit n
  have no : ¬ allowed (.recursionLimit n) := fun h => h n rfl
  have undeclared (id : TypeId) : allowed (.typeNotFound id) := nofun
  have lacking {α : Type} {query : Registry → Except Fault α}
      (h : ∀ r, FailsOnly r.Lacks (query r)) :=
    (Growing.FailsLacking.read h).failsOnly undeclared
  rw [Table.build_eq] at failed
  rcases Growing.bind_eval_error.mp failed with failed | ⟨name, _, named, failed⟩
  · exact absurd failed (elsewhere no (lacking (Registry.fullName_lacking · owner)))
  obtain ⟨-, rfl⟩ := Prod.mk.inj named
  rcases Growing.bind_eval_error.mp failed with failed | ⟨methods, _, -, failed⟩
  · exact .inl (collectMethods_overrun failed)
  rcases Growing.bind_eval_error.mp failed with failed | ⟨readers, _, -, failed⟩
  · exact absurd failed (elsewhere no (getterEntries_failsOnly undeclared nofun owner _ _ _))
  rcases Growing.bind_eval_error.mp failed with failed | ⟨writers, _, -, failed⟩
  · exact absurd failed (elsewhere no (setterEntries_failsOnly undeclared nofun owner _ _ _ _))
  rcases Growing.bind_eval_error.mp failed with failed | ⟨sides, _, -, failed⟩
  · exact .inr (addFields_overrun ((addFields_lasting owner limit limit (some owner) _).again failed))
  · exact absurd failed (elsewhere no ((lacking (Registry.find_lacking · owner)).map _))

theorem build_within {t : Table} (done : (Table.build owner limit).eval r = (.ok t, grown)) :
    grown.ancestor? limit owner = none := by
  obtain ⟨_, _, _, _, _, _, -, -, -, -, filled, -⟩ := Table.build_settled done
  exact addFields_within filled

end Build

namespace Registry
variable {r grown : Registry} {owner : TypeId} {limit : Nat}

/-- Whether the superclass chain of a type has more classes than a limit; an endless one has more
than any. -/
def ChainExceeds (r : Registry) (owner : TypeId) (limit : Nat) : Prop :=
  limit < (r.superclassChain owner).length ∨ r.EndlessChain owner

/-- The same without the root type. -/
def ChainBelowRootExceeds (r : Registry) (owner : TypeId) (limit : Nat) : Prop :=
  limit < (r.belowRoot owner).length ∨ r.EndlessChain owner

/-- The two counts differ in the root type alone. -/
theorem chainExceeds_iff : r.ChainExceeds owner limit ↔ r.ChainBelowRootExceeds owner limit ∨
    .object ∈ r.superclassChain owner ∧ (r.belowRoot owner).length = limit := by
  rw [ChainExceeds, ChainBelowRootExceeds, length_superclassChain]
  by_cases listed : .object ∈ r.superclassChain owner
  · rw [if_pos listed, Nat.lt_succ_iff_lt_or_eq, eq_comm]
    tauto
  · rw [if_neg listed, Nat.add_zero]
    tauto

theorem GrowsTo.chainExceeds (grows : r.GrowsTo grown)
    (declared : ∀ c ∈ r.superclassChain owner, r.Published c) :
    r.ChainExceeds owner limit ↔ grown.ancestor? limit owner ≠ none := by
  rw [grows.ancestor? declared, ancestor?_ne_none_iff, ChainExceeds]

end Registry

/-- A build reports the limit for no other reason than that the chain is too long, the root type
included, and it makes no table if the chain is. The walk that collects methods does not count the
root type, so that it accepts one class more. -/
theorem build_depth_limit {r grown : Registry} {owner : TypeId} {limit : Nat}
    {outcome : Except Fault Table} (reachable : r.Reachable)
    (declared : ∀ c ∈ r.superclassChain owner, r.Published c)
    (done : (Table.build owner limit).eval r = (outcome, grown)) :
    (r.classChain limit limit (some owner) = .ok (r.belowRoot owner) ∧
        ¬ r.ChainBelowRootExceeds owner limit ∨
      r.classChain limit limit (some owner) = .error (.recursionLimit limit) ∧
        r.ChainBelowRootExceeds owner limit) ∧
    ((∃ t, outcome = .ok t) ∧ ¬ r.ChainExceeds owner limit ∨
      outcome = .error (.recursionLimit limit) ∧ r.ChainExceeds owner limit ∨
      ∃ fault, outcome = .error fault ∧ ∀ n, fault ≠ .recursionLimit n) ∧
    (r.ChainExceeds owner limit ↔ r.ChainBelowRootExceeds owner limit ∨
      .object ∈ r.superclassChain owner ∧ (r.belowRoot owner).length = limit) := by
  have root : r.superclass? .object = none := by
    obtain ⟨d, found, -, top, -⟩ := reachable.coherent.root
    rw [Registry.superclass?, found, Option.bind_some, Declaration.superclass?, top, Option.bind_none]
  have walked : r.classChain limit limit (some owner) = .ok (r.belowRoot owner) ∧
        ¬ r.ChainBelowRootExceeds owner limit ∨
      r.classChain limit limit (some owner) = .error (.recursionLimit limit) ∧
        r.ChainBelowRootExceeds owner limit := by
    rcases Registry.classChain_outcome root declared with ⟨accepted, fits, ends⟩ | refused
    · exact .inl ⟨accepted, not_or.mpr ⟨Nat.not_lt.mpr fits, ends⟩⟩
    · exact .inr refused
  have exceeds : r.ChainExceeds owner limit ↔ grown.ancestor? limit owner ≠ none :=
    ((build_lasting owner limit).interns_of_eval done).growsTo.chainExceeds declared
  refine ⟨walked, ?_, Registry.chainExceeds_iff⟩
  cases outcome with
  | ok t => exact .inl ⟨⟨t, rfl⟩, fun long => exceeds.mp long (build_within done)⟩
  | error fault =>
    by_cases deep : ∃ n, fault = .recursionLimit n
    · obtain ⟨n, rfl⟩ := deep
      rcases build_overrun done with refused | ⟨rfl, above⟩
      · rcases walked with ⟨accepted, -⟩ | ⟨refused', long⟩
        · rw [accepted] at refused
          cases refused
        · rw [refused'] at refused
          cases refused
          exact .inr (.inl ⟨rfl, Registry.chainExceeds_iff.mpr (.inl long)⟩)
      · exact .inr (.inl ⟨rfl, exceeds.mpr above⟩)
    · exact .inr (.inr ⟨fault, rfl, fun n same => deep ⟨n, same⟩⟩)

/-- A class, a subclass, and a subclass of that. -/
def Registry.threeLevels : Registry :=
  ((initial.declared "" "Low" .classType id).declared "" "Middle" .classType
    (·.extending (.named ⟨11⟩))).declared "" "High" .classType (·.extending (.named ⟨12⟩))

/-- With the root type the chain has four classes, which a limit of four allows and one of three
does not. -/
theorem build_depth_limit_threeLevels :
    let r := Registry.threeLevels
    r.superclassChain ⟨13⟩ = [⟨13⟩, ⟨12⟩, ⟨11⟩, .object] ∧
    (((Table.build ⟨13⟩ 4).eval r).1.map fun _ => ()) = .ok () ∧ ¬ r.ChainExceeds ⟨13⟩ 4 ∧
    (((Table.build ⟨13⟩ 3).eval r).1.map fun _ => ()) = .error (.recursionLimit 3) ∧
      r.ChainExceeds ⟨13⟩ 3 ∧ ¬ r.ChainBelowRootExceeds ⟨13⟩ 3 := by
  intro r
  have reachable : r.Reachable :=
    ((Registry.Reachable.declared .refl _ _ _ _).declared _ _ _ _).declared _ _ _ _
  have chain : r.superclassChain ⟨13⟩ = [⟨13⟩, ⟨12⟩, ⟨11⟩, .object] := by cbv
  have published : ∀ c ∈ r.superclassChain ⟨13⟩, r.Published c := by
    rw [chain]
    decide +kernel
  have built : (((Table.build ⟨13⟩ 4).eval r).1.map fun _ => ()) = .ok () := by cbv
  have refused : (((Table.build ⟨13⟩ 3).eval r).1.map fun _ => ()) =
      .error (.recursionLimit 3) := by cbv
  have walked : r.classChain 3 3 (some ⟨13⟩) = .ok [⟨13⟩, ⟨12⟩, ⟨11⟩] := by cbv
  obtain ⟨-, within, -⟩ :=
    build_depth_limit reachable published (Prod.eta ((Table.build ⟨13⟩ 4).eval r)).symm
  obtain ⟨first, beyond, -⟩ :=
    build_depth_limit reachable published (Prod.eta ((Table.build ⟨13⟩ 3).eval r)).symm
  refine ⟨chain, built, ?_, refused, ?_, ?_⟩
  · rcases within with ⟨-, fits⟩ | ⟨failed, -⟩ | ⟨fault, failed, -⟩
    · exact fits
    · rw [failed] at built
      cases built
    · rw [failed] at built
      cases built
  · rcases beyond with ⟨⟨t, done⟩, -⟩ | ⟨-, long⟩ | ⟨fault, failed, other⟩
    · rw [done] at refused
      cases refused
    · exact long
    · rw [failed] at refused
      exact absurd (Except.error.inj refused) (other 3)
  · rcases first with ⟨-, fits⟩ | ⟨failed, -⟩
    · exact fits
    · rw [walked] at failed
      cases failed

/-- One class below the root type is what the walk that collects methods accepts if the limit is
one. The build is refused all the same. -/
theorem build_refuses_full_chain :
    let r := Registry.threeLevels
    r.Reachable ∧ r.superclassChain ⟨11⟩ = [⟨11⟩, .object] ∧
      (∀ c ∈ r.superclassChain ⟨11⟩, r.Published c) ∧ r.belowRoot ⟨11⟩ = [⟨11⟩] ∧
      r.classChain 1 1 (some ⟨11⟩) = .ok [⟨11⟩] ∧
      (((Table.build ⟨11⟩ 1).eval r).1.map fun _ => ()) = .error (.recursionLimit 1) := by
  intro r
  have reachable : r.Reachable :=
    ((Registry.Reachable.declared .refl _ _ _ _).declared _ _ _ _).declared _ _ _ _
  have chain : r.superclassChain ⟨11⟩ = [⟨11⟩, .object] := by cbv
  have published : ∀ c ∈ r.superclassChain ⟨11⟩, r.Published c := by
    rw [chain]
    decide +kernel
  refine ⟨reachable, chain, published, ?_, by cbv, by cbv⟩
  rw [Registry.belowRoot, chain]
  rfl

end PropertyTables
