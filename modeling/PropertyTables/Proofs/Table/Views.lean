import PropertyTables.Proofs.First
import PropertyTables.Proofs.Table.Candidates
import PropertyTables.Proofs.Table.Origins
import PropertyTables.Proofs.Table.Steady

/-! # Two views of an accessor

The type that an accessor method reads or writes is looked at in two ways.

* `Method.DeclaredAs`: on its own, with a bound in the place of each variable. This is how the
  candidates for a property are compared.
* `Method.SeenAs`: from the owner of a table, with what the supertype clauses above the owner say in
  the place of each variable. This is the type of an entry.
* `DeclaredAs.eq_of_rigid`: the two agree where the type is not a variable.
* `collectMethods_signatures`, `exists_overloads`: what discovery keeps has a signature, so that the
  candidates for a property make overloads.
-/

namespace PropertyTables
set_option autoImplicit false

open Growing (Lasting)

variable {r grown : Registry} {owner : TypeId} {side : Side}

/-! ## The views -/

/-- The type that an accessor method reads (writes), with the variables resolved as `owner` sees
them. -/
def Registry.resolveValue (r : Registry) (m : Method) (owner : TypeId) :
    Side → Except Fault GenericType
  | .read => r.resolveReturn m owner
  | .write => do return (← r.resolveParams m owner).headD (.named .object)

namespace Method

/-- Whether the type that an accessor reads (writes) is erased to `type` as it is declared. -/
def DeclaredAs (r : Registry) (side : Side) (m : Method) (type : TypeId) : Prop :=
  ((m.eraseDeclared (m.valueType side)).eval r).1 = .ok type

/-- Whether it is erased to `type` as `owner` sees it. -/
def SeenAs (r : Registry) (owner : TypeId) (side : Side) (m : Method) (type : TypeId) : Prop :=
  ∃ generic, r.resolveValue m owner side = .ok generic ∧ (generic.erase.eval r).1 = .ok type

variable {m : Method} {a b : TypeId}

theorem DeclaredAs.unique (ha : m.DeclaredAs r side a) (hb : m.DeclaredAs r side b) : a = b :=
  Except.ok.inj (ha.symm.trans hb)

theorem SeenAs.unique (ha : m.SeenAs r owner side a) (hb : m.SeenAs r owner side b) : a = b := by
  obtain ⟨generic, resolved, erased⟩ := ha
  obtain ⟨generic', resolved', erased'⟩ := hb
  obtain rfl := Except.ok.inj (resolved.symm.trans resolved')
  exact Except.ok.inj (erased.symm.trans erased')

end Method

theorem Registry.resolveValue_eq_ok {m : Method} {generic : GenericType} :
    r.resolveValue m owner side = .ok generic ↔
      ∃ env, r.methodBindings m owner = .ok env ∧ (m.valueType side).instantiate env = generic := by
  cases side with
  | read => exact bind_pure_eq_ok
  | write =>
    rw [resolveValue, bind_pure_eq_ok]
    simp only [resolveParams, bind_pure_eq_ok, exists_exists_and_eq_and]
    have head (env : Bindings) : (m.params.map (GenericType.instantiate env)).headD (.named .object) =
        (m.valueType .write).instantiate env := by
      rw [Method.valueType]
      cases m.params <;> rfl
    simp only [head]

namespace Method
variable {m : Method} {a b : TypeId}

theorem SeenAs.erase_of_rigid (seen : m.SeenAs r owner side a)
    (rigid : (m.valueType side).IsRigid) : ((m.valueType side).erase.eval r).1 = .ok a := by
  obtain ⟨generic, resolved, erased⟩ := seen
  obtain ⟨env, -, rfl⟩ := Registry.resolveValue_eq_ok.mp resolved
  rwa [rigid.erase_instantiate] at erased

theorem DeclaredAs.erase_of_rigid (declared : m.DeclaredAs r side a)
    (rigid : (m.valueType side).IsRigid) : ((m.valueType side).erase.eval r).1 = .ok a := by
  rw [DeclaredAs, eraseDeclared, Growing.eval_bind, Growing.eval_read] at declared
  cases bound : m.ownBindings r with
  | error fault =>
    rw [bound] at declared
    cases declared
  | ok env =>
    rw [bound] at declared
    rwa [← rigid.erase_instantiate env]

/-- What is not a variable is the same in both views. -/
theorem DeclaredAs.eq_of_rigid (declared : m.DeclaredAs r side a) (seen : m.SeenAs r owner side b)
    (rigid : (m.valueType side).IsRigid) : a = b :=
  Except.ok.inj ((declared.erase_of_rigid rigid).symm.trans (seen.erase_of_rigid rigid))

theorem DeclaredAs.seenAs_of_rigid (declared : m.DeclaredAs r side a)
    (closed : r.SupertypesPublished) (ho : r.Published owner)
    (rigid : (m.valueType side).IsRigid) : m.SeenAs r owner side a := by
  obtain ⟨env, bound⟩ :=
    Registry.bindings_answers closed ho (published_of_eraseDeclared declared)
  refine ⟨_, Registry.resolveValue_eq_ok.mpr ⟨env.extend m.typeParams, ?_, rfl⟩, ?_⟩
  · rw [Registry.methodBindings, bound]
    rfl
  · rw [rigid.erase_instantiate]
    exact declared.erase_of_rigid rigid

end Method

theorem getterEntry_seen {m : Method} {e : Entry} (made : (getterEntry owner m).eval r = (.ok e, r)) :
    e.accessor = .method m ∧ m.SeenAs r owner .read e.type := by
  obtain ⟨generic, type, resolved, erased, rfl⟩ := getterEntry_settled made
  exact ⟨rfl, generic, resolved, congrArg Prod.fst erased⟩

theorem setterEntry_seen {m : Method} {e : Entry} (made : (setterEntry owner m).eval r = (.ok e, r)) :
    e.accessor = .method m ∧ m.SeenAs r owner .write e.type := by
  obtain ⟨generics, type, resolved, erased, rfl⟩ := setterEntry_settled made
  exact ⟨rfl, _, bind_pure_eq_ok.mpr ⟨generics, resolved, rfl⟩, congrArg Prod.fst erased⟩

/-! ## Signatures of what is kept -/

/-- Whether methods are kept for their own signatures. -/
def KeptBySignature (r : Registry) (kept : List (Signature × Method)) : Prop :=
  ∀ p ∈ kept, p.2.signature.eval r = (.ok p.1, r)

theorem addUnique_signatures {kept made : List (Signature × Method)} {methods : List Method}
    (h : KeptBySignature r kept) (done : (addUnique kept methods).eval r = (.ok made, r)) :
    KeptBySignature r made := by
  induction methods generalizing kept with
  | nil =>
    cases done
    exact h
  | cons m rest ih =>
    by_cases bridge : m.modifiers.isBridge = true
    · rw [addUnique, if_pos bridge] at done
      exact ih h done
    · obtain ⟨signature, erased, done⟩ := addUnique_settled (Bool.eq_false_iff.mpr bridge) done
      refine ih (fun p listed => ?_) done
      split at listed
      · exact h p listed
      · rcases List.mem_append.mp listed with before | last
        · exact h p before
        · obtain rfl := List.mem_singleton.mp last
          exact erased

theorem collectFrom_signatures {kept made : List (Signature × Method)} {ids : List TypeId}
    (h : KeptBySignature r kept) (done : (collectFrom kept ids).eval r = (.ok made, r)) :
    KeptBySignature r made := by
  induction ids generalizing kept with
  | nil =>
    cases done
    exact h
  | cons id rest ih =>
    obtain ⟨d, next, -, added, done⟩ := collectFrom_step.mp done
    exact ih (addUnique_signatures h added) done

theorem collectMethods_signatures {limit : Nat} {methods : List Method}
    (done : (collectMethods owner limit).eval r = (.ok methods, r)) :
    ∀ m ∈ methods, ∃ signature, m.signature.eval r = (.ok signature, r) := by
  obtain ⟨chain, made, -, collected, rfl⟩ := collectMethods_settled.mp done
  have kept : KeptBySignature r made := collectFrom_signatures (by simp [KeptBySignature]) collected
  intro m listed
  obtain ⟨p, member, rfl⟩ := List.mem_map.mp listed
  exact ⟨p.1, kept p member⟩

/-! ## Overloads of what is kept -/

theorem Overload.Settled.declaredAs {o : Overload} (h : o.Settled r side) :
    o.method.DeclaredAs r side o.type :=
  congrArg Prod.fst h

/-- A method that has a signature makes an overload on either side. -/
theorem exists_settled {m : Method} {signature : Signature}
    (erased : m.signature.eval r = (.ok signature, r)) (side : Side) :
    ∃ o : Overload, o.method = m ∧ o.Settled r side := by
  have returning (types : List TypeId) := (m.eraseDeclared_lasting m.returns).map
    fun type => (⟨m.name, types, type⟩ : Signature)
  obtain ⟨params, taken, erased⟩ :=
    ((Lasting.mapM m.eraseDeclared_lasting m.params).bind_settled returning).mp erased
  obtain ⟨type, returned, -⟩ :=
    ((m.eraseDeclared_lasting m.returns).bind_settled fun _ => .pure _).mp erased
  cases side with
  | read => exact ⟨⟨m, type⟩, rfl, returned⟩
  | write =>
    obtain ⟨type', written⟩ : ∃ type', (m.eraseDeclared (m.valueType .write)).eval r =
        (.ok type', r) := by
      rw [Method.valueType]
      cases taking : m.params with
      | cons param rest =>
        exact Growing.mapM_settled_of_mem m.eraseDeclared_lasting taken param (by simp [taking])
      | nil =>
        -- the declaring type is known, and no more is needed
        obtain ⟨env, bound, -⟩ := ((Lasting.read m.ownBindings_stable).bind_settled fun env =>
          (m.returns.instantiate env).erase_lasting).mp returned
        exact ⟨.object, Growing.bind_eval_ok.mpr ⟨env, r, bound, rfl⟩⟩
    exact ⟨⟨m, type'⟩, rfl, written⟩

theorem exists_overloads {methods : List Method}
    (erasable : ∀ m ∈ methods, ∃ signature, m.signature.eval r = (.ok signature, r))
    (side : Side) :
    ∃ os : List Overload, os.map (·.method) = methods ∧ ∀ o ∈ os, o.Settled r side := by
  induction methods with
  | nil => exact ⟨[], rfl, by simp⟩
  | cons m rest ih =>
    obtain ⟨⟨signature, erased⟩, later⟩ := List.forall_mem_cons.mp erasable
    obtain ⟨o, rfl, settled⟩ := exists_settled erased side
    obtain ⟨os, rfl, all⟩ := ih later
    exact ⟨o :: os, rfl, List.forall_mem_cons.mpr ⟨settled, all⟩⟩

/-- The candidates for a property make overloads. -/
theorem candidates_overloads {limit : Nat} {methods : List Method}
    (collected : (collectMethods owner limit).eval r = (.ok methods, r)) (side : Side)
    (property : String) :
    ∃ os : List Overload, os.map (·.method) = candidates property (accessors side methods) ∧
      ∀ o ∈ os, o.Settled r side :=
  exists_overloads (fun m listed =>
    collectMethods_signatures collected m (mem_candidates listed)) side

end PropertyTables
