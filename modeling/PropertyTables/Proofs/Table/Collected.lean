import PropertyTables.Proofs.Table.Lasting
import PropertyTables.Proofs.Table.Steady

/-! # Collected methods

* `Registry.mem_discoveryOrder`: discovery goes to the classes of a chain and to all interfaces
  above them, whatever the order of the walks.
* `Collected`: one method of each signature that occurs among some methods, bridges apart.
* `collectFrom_collected`: this is what discovery keeps.
* `Collected.perm`: in a reordered registry it keeps methods of the same signatures.
-/

namespace PropertyTables
set_option autoImplicit false

namespace Registry
variable {r s : Registry}

/-! ## Where discovery goes -/

/-- One superinterface after the other leads from one type to another. -/
def InterfacePath (r : Registry) : TypeId → TypeId → Prop :=
  Relation.TransGen fun a b => b ∈ r.superinterfaces a

theorem discoveryOrder_sound {visited chain : List TypeId} {t : TypeId}
    (h : t ∈ r.discoveryOrder visited chain) :
    t ∈ chain ∨ ∃ c ∈ chain, r.InterfacePath c t := by
  induction chain generalizing visited with
  | nil => exact absurd h List.not_mem_nil
  | cons c rest ih =>
    rw [discoveryOrder, List.cons_append, List.mem_cons, List.mem_append] at h
    rcases h with rfl | met | later
    · exact .inl List.mem_cons_self
    · have above : ∀ u ∈ r.interfaceWalk (fun l => l) visited (r.superinterfaces c),
          r.InterfacePath c u :=
        preorder_forall (fun u edge => .single edge) (fun a path b edge => path.tail edge)
      exact .inr ⟨c, List.mem_cons_self, above t met⟩
    · rcases ih later with member | ⟨d, member, path⟩
      · exact .inl (List.mem_cons_of_mem c member)
      · exact .inr ⟨d, List.mem_cons_of_mem c member, path⟩

/-- Whether the superinterfaces of the types in a list are in it. -/
def InterfaceClosed (r : Registry) (l : List TypeId) : Prop :=
  ∀ a ∈ l, ∀ b ∈ r.superinterfaces a, b ∈ l

theorem InterfaceClosed.walk {visited : List TypeId} (h : r.InterfaceClosed visited)
    (pending : List TypeId) :
    (∀ t ∈ pending, t ∈ r.interfaceWalk (fun l => l) visited pending ++ visited) ∧
      r.InterfaceClosed (r.interfaceWalk (fun l => l) visited pending ++ visited) := by
  obtain ⟨start, closed⟩ := @preorder_closed r.superinterfaces r.size visited pending
  constructor
  · intro t ht
    exact List.mem_append.mpr (start t ht).symm
  · intro a ha b edge
    rcases List.mem_append.mp ha with met | before
    · have bound := (DeclaredSupertype.of_superinterface edge).lt_size
      exact List.mem_append.mpr (closed a met bound b edge).symm
    · exact List.mem_append_right _ (h a before b edge)

theorem InterfaceClosed.mem_of_path {l : List TypeId} (h : r.InterfaceClosed l) {c t : TypeId}
    (start : ∀ u ∈ r.superinterfaces c, u ∈ l) (path : r.InterfacePath c t) : t ∈ l := by
  induction path with
  | single edge => exact start _ edge
  | tail _ edge ih => exact h _ ih _ edge

theorem discoveryOrder_complete {visited chain : List TypeId} (h : r.InterfaceClosed visited) :
    (∀ c ∈ chain, c ∈ r.discoveryOrder visited chain) ∧
      ∀ c ∈ chain, ∀ t, r.InterfacePath c t → t ∈ visited ∨ t ∈ r.discoveryOrder visited chain := by
  induction chain generalizing visited with
  | nil => simp
  | cons c rest ih =>
    obtain ⟨start, closed⟩ := h.walk (r.superinterfaces c)
    obtain ⟨classes, interfaces⟩ := ih closed
    simp only [discoveryOrder, List.cons_append, List.mem_cons, List.mem_append]
      at classes interfaces start ⊢
    constructor
    · rintro d (rfl | member)
      · exact .inl rfl
      · exact .inr (.inr (classes d member))
    · rintro d (rfl | member) t path
      · have here := closed.mem_of_path (fun u edge => List.mem_append.mpr (start u edge)) path
        rcases List.mem_append.mp here with met | before
        · exact .inr (.inr (.inl met))
        · exact .inl before
      · have later := interfaces d member t path
        tauto

theorem mem_discoveryOrder {chain : List TypeId} {t : TypeId} :
    t ∈ r.discoveryOrder [] chain ↔ t ∈ chain ∨ ∃ c ∈ chain, r.InterfacePath c t := by
  constructor
  · exact discoveryOrder_sound
  · have nothing : r.InterfaceClosed [] := fun _ member => absurd member List.not_mem_nil
    obtain ⟨classes, interfaces⟩ := @discoveryOrder_complete r [] chain nothing
    rintro (member | ⟨c, member, path⟩)
    · exact classes t member
    · exact (interfaces c member t path).resolve_left List.not_mem_nil

theorem Reordered.mem_discoveryOrder (h : r.Reordered s) {chain : List TypeId} {t : TypeId} :
    t ∈ r.discoveryOrder [] chain ↔ t ∈ s.discoveryOrder [] chain := by
  have edges : (fun a b => b ∈ r.superinterfaces a) = fun a b => b ∈ s.superinterfaces a :=
    funext fun a => funext fun b => propext (h.superinterfaces a).mem_iff
  rw [Registry.mem_discoveryOrder, Registry.mem_discoveryOrder, InterfacePath, InterfacePath, edges]

theorem Reordered.classChain (h : r.Reordered s) (limit room : Nat) (id : Option TypeId) :
    r.classChain limit room id = s.classChain limit room id := by
  induction room generalizing id with
  | zero => cases id <;> rfl
  | succ room ih =>
    cases id with
    | none => rfl
    | some id =>
      rw [Registry.classChain, Registry.classChain]
      split
      · rfl
      · cases found : r.find? id with
        | none =>
          rw [find_eq_error found, find_eq_error (h.undeclared id found)]
          rfl
        | some d =>
          obtain ⟨e, found', reordered⟩ := h.declared id d found
          rw [find_eq_ok.mpr found, find_eq_ok.mpr found']
          show (do return id :: (← r.classChain limit room d.superclass?)) =
            (do return id :: (← s.classChain limit room e.superclass?) : Except Fault _)
          rw [ih, Declaration.superclass?, Declaration.superclass?, reordered.superclass]

theorem classChain_above {limit room : Nat} {id : TypeId} {chain : List TypeId}
    (done : r.classChain limit room (some id) = .ok chain) :
    ∀ c ∈ chain, Relation.ReflTransGen r.DeclaredSupertype id c := by
  induction room generalizing id chain with
  | zero =>
    rw [classChain] at done
    split at done
    · cases done
      simp
    · cases done
  | succ room ih =>
    rw [classChain] at done
    split at done
    · cases done
      simp
    · obtain ⟨d, found, done⟩ := bind_eq_ok.mp done
      obtain ⟨rest, above, done⟩ := bind_eq_ok.mp done
      cases done
      refine List.forall_mem_cons.mpr ⟨.refl, ?_⟩
      cases parent : d.superclass? with
      | none =>
        rw [parent] at above
        cases room <;> cases above <;> simp
      | some p =>
        rw [parent] at above
        have edge : r.DeclaredSupertype id p := by
          refine .of_superclass ?_
          rw [superclass?_of_find? (find_eq_ok.mp found), parent]
          exact List.mem_singleton_self p
        exact fun c member => .head edge (ih above c member)

theorem discoveryOrder_above {limit room : Nat} {id : TypeId} {chain : List TypeId}
    (done : r.classChain limit room (some id) = .ok chain) :
    ∀ t ∈ r.discoveryOrder [] chain, Relation.ReflTransGen r.DeclaredSupertype id t := by
  intro t member
  rcases Registry.mem_discoveryOrder.mp member with on_chain | ⟨c, on_chain, path⟩
  · exact classChain_above done t on_chain
  · have up := Relation.TransGen.mono (fun a b => DeclaredSupertype.of_superinterface) c t path
    exact (classChain_above done c on_chain).trans up.to_reflTransGen

/-- The methods of a type. -/
def methodsOf (r : Registry) (id : TypeId) : List Method := (r.find? id).elim [] (·.methods)

theorem methodsOf_of_find? {id : TypeId} {d : Declaration} (found : r.find? id = some d) :
    r.methodsOf id = d.methods := by
  rw [methodsOf, found, Option.elim_some]

theorem mem_methodsOf {id : TypeId} {m : Method} :
    m ∈ r.methodsOf id ↔ ∃ d, r.find? id = some d ∧ m ∈ d.methods := by
  rw [methodsOf]
  cases r.find? id <;> simp

theorem declaring_of_mem_methodsOf {id : TypeId} {m : Method} (declared : m ∈ r.methodsOf id) :
    m.declaring = id := by
  obtain ⟨d, found, listed⟩ := mem_methodsOf.mp declared
  exact (d.members.methods_declaring m listed).trans (id_of_find? found)

theorem Reordered.mem_methodsOf (h : r.Reordered s) {id : TypeId} {m : Method} :
    m ∈ r.methodsOf id ↔ m ∈ s.methodsOf id := by
  rw [methodsOf, methodsOf]
  cases found : r.find? id with
  | none => rw [h.undeclared id found]
  | some d =>
    obtain ⟨e, found', reordered⟩ := h.declared id d found
    rw [found']
    exact reordered.methods.mem_iff

end Registry

/-! ## What discovery keeps -/

variable {r s : Registry}

/-- Whether each signature that occurs among some methods, bridges apart, is kept once, together
with a method that has it. -/
structure Collected (r : Registry) (methods : List Method) (kept : List (Signature × Method)) :
    Prop where
  nodup : (kept.map (·.1)).Nodup
  sound : ∀ p ∈ kept, p.2 ∈ methods ∧ p.2.modifiers.isBridge = false ∧ p.2.Steady r ∧
    p.2.Erases r p.1
  complete : ∀ m ∈ methods, m.modifiers.isBridge = false →
    ∃ signature ∈ kept.map (·.1), m.Erases r signature

theorem Collected.empty : Collected r [] [] where
  nodup := .nil
  sound := by simp
  complete := by simp

theorem Collected.skip {methods : List Method} {kept : List (Signature × Method)}
    (h : Collected r methods kept) {m : Method} (listed : m.modifiers.isBridge = false →
      ∃ signature ∈ kept.map (·.1), m.Erases r signature) : Collected r (methods ++ [m]) kept where
  nodup := h.nodup
  sound p hp := by
    obtain ⟨member, rest⟩ := h.sound p hp
    exact ⟨List.mem_append_left _ member, rest⟩
  complete n hn nonbridge := by
    rcases List.mem_append.mp hn with before | last
    · exact h.complete n before nonbridge
    · obtain rfl := List.mem_singleton.mp last
      exact listed nonbridge

theorem Collected.keep {methods : List Method} {kept : List (Signature × Method)}
    (h : Collected r methods kept) {m : Method} {signature : Signature} (steady : m.Steady r)
    (erases : m.Erases r signature) (nonbridge : m.modifiers.isBridge = false)
    (fresh : signature ∉ kept.map (·.1)) :
    Collected r (methods ++ [m]) (kept ++ [(signature, m)]) where
  nodup := by
    rw [List.map_append, List.nodup_append]
    refine ⟨h.nodup, by simp, ?_⟩
    rintro a ha b hb rfl
    obtain rfl := List.mem_singleton.mp hb
    exact fresh ha
  sound p hp := by
    rcases List.mem_append.mp hp with before | last
    · obtain ⟨member, rest⟩ := h.sound p before
      exact ⟨List.mem_append_left _ member, rest⟩
    · obtain rfl := List.mem_singleton.mp last
      exact ⟨List.mem_append_right _ (List.mem_singleton_self m), nonbridge, steady, erases⟩
  complete n hn plain := by
    rw [List.map_append]
    rcases List.mem_append.mp hn with before | last
    · obtain ⟨signature', member, erases'⟩ := h.complete n before plain
      exact ⟨signature', List.mem_append_left _ member, erases'⟩
    · obtain rfl := List.mem_singleton.mp last
      exact ⟨signature, List.mem_append_right _ (List.mem_singleton_self signature), erases⟩

theorem addUnique_collected {before methods : List Method} {kept : List (Signature × Method)}
    (h : Collected r before kept) (steady : ∀ m ∈ methods, m.Steady r) :
    ∃ kept', (addUnique kept methods).eval r = (.ok kept', r) ∧
      Collected r (before ++ methods) kept' := by
  induction methods generalizing before kept with
  | nil => exact ⟨kept, rfl, by rwa [List.append_nil]⟩
  | cons m rest ih =>
    obtain ⟨here, later⟩ := List.forall_mem_cons.mp steady
    rw [List.append_cons, addUnique]
    by_cases bridge : m.modifiers.isBridge = true
    · rw [if_pos bridge]
      exact ih (h.skip fun plain => absurd bridge (Bool.eq_false_iff.mp plain)) later
    · have plain := Bool.eq_false_iff.mpr bridge
      obtain ⟨signature, erased, erases⟩ := here.signature
      rw [if_neg bridge, Growing.eval_bind, erased]
      dsimp only
      by_cases known : kept.any (·.1 = signature) = true
      · rw [if_pos known]
        obtain ⟨p, hp, same⟩ := List.any_eq_true.mp known
        have listed : signature ∈ kept.map (·.1) :=
          List.mem_map.mpr ⟨p, hp, of_decide_eq_true same⟩
        exact ih (h.skip fun _ => ⟨signature, listed, erases⟩) later
      · rw [if_neg known]
        refine ih (h.keep here erases plain fun listed => known ?_) later
        obtain ⟨p, hp, same⟩ := List.mem_map.mp listed
        exact List.any_eq_true.mpr ⟨p, hp, decide_eq_true same⟩

theorem collectFrom_collected {before : List Method} {kept : List (Signature × Method)}
    {ids : List TypeId} (h : Collected r before kept) (declared : ∀ id ∈ ids, r.Published id)
    (steady : ∀ id ∈ ids, ∀ m ∈ r.methodsOf id, m.Steady r) :
    ∃ kept', (collectFrom kept ids).eval r = (.ok kept', r) ∧
      Collected r (before ++ ids.flatMap r.methodsOf) kept' := by
  induction ids generalizing before kept with
  | nil => exact ⟨kept, rfl, by rwa [List.flatMap_nil, List.append_nil]⟩
  | cons id rest ih =>
    obtain ⟨here, later⟩ := List.forall_mem_cons.mp declared
    obtain ⟨steady_here, steady_later⟩ := List.forall_mem_cons.mp steady
    obtain ⟨d, found⟩ := Registry.published_iff.mp here
    have methods := Registry.methodsOf_of_find? found
    rw [methods] at steady_here
    obtain ⟨more, added, collected⟩ := addUnique_collected h steady_here
    obtain ⟨kept', done, all⟩ := ih collected later steady_later
    refine ⟨kept', ?_, ?_⟩
    · rw [collectFrom, Growing.eval_bind, Growing.eval_read, Registry.find_eq_ok.mpr found]
      show (addUnique kept d.methods >>= _ : Growing _).eval r = _
      rw [Growing.eval_bind, added]
      exact done
    · rw [List.flatMap_cons, methods, ← List.append_assoc]
      exact all

theorem Collected.perm {methods methods' : List Method} {kept kept' : List (Signature × Method)}
    (reordered : r.Reordered s) (same : ∀ m, m ∈ methods ↔ m ∈ methods')
    (h : Collected r methods kept) (h' : Collected s methods' kept') :
    (kept.map (·.1)).Perm (kept'.map (·.1)) := by
  refine (List.perm_ext_iff_of_nodup h.nodup h'.nodup).mpr fun signature =>
    ⟨fun hs => ?_, fun hs => ?_⟩
  · obtain ⟨p, hp, rfl⟩ := List.mem_map.mp hs
    obtain ⟨member, plain, -, erases⟩ := h.sound p hp
    obtain ⟨signature', listed, erases'⟩ := h'.complete p.2 ((same p.2).mp member) plain
    exact (erases.reordered reordered).unique erases' ▸ listed
  · obtain ⟨p, hp, rfl⟩ := List.mem_map.mp hs
    obtain ⟨member, plain, -, erases⟩ := h'.sound p hp
    obtain ⟨signature', listed, erases'⟩ := h.complete p.2 ((same p.2).mpr member) plain
    exact (erases.reordered reordered.symm).unique erases' ▸ listed

end PropertyTables
