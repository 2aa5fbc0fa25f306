import PropertyTables.Generics.Erasure
import PropertyTables.Proofs.Generics.Substitution
import PropertyTables.Proofs.Hierarchy.GrowingWalks

/-! # Member types last

* `bindings_stable`: what an owner's variables stand for is a stable query, and so are the types of
  members, `resolveReturn_stable` and the lemmas after it.
* `GenericType.erase_lasting`, `Method.signature_lasting`: erasure and signatures are lasting
  computations.
-/

namespace PropertyTables
set_option autoImplicit false

open Growing (Lasting)
open Registry (Stable)

namespace Registry

variable {r later : Registry}

/-! ## Bindings -/

/-- Nodes of one type, with the same bindings if that type is declared. -/
def SameNode (r : Registry) (b c : BoundType) : Prop := b.id = c.id ∧ (r.Published b.id → b = c)

theorem clauseBindings_later (grows : r.GrowsTo later) (env : Bindings) {raw : TypeId}
    (declared : r.Published raw) (args : List GenericType) :
    later.clauseBindings env raw args = r.clauseBindings env raw args := by
  rw [clauseBindings, clauseBindings, grows.typeParams declared]

theorem sameNode_clauses (grows : r.GrowsTo later) (env : Bindings) (clauses : List GenericType) :
    List.Forall₂ r.SameNode (clauses.filterMap (r.boundSupertype? env))
      (clauses.filterMap (later.boundSupertype? env)) := by
  induction clauses with
  | nil => exact .nil
  | cons clause rest ih =>
    simp only [List.filterMap_cons, boundSupertype?]
    cases clause.raw? with
    | none => exact ih
    | some raw =>
      refine .cons ⟨rfl, fun declared => ?_⟩ ih
      exact congrArg (BoundType.mk raw) (clauseBindings_later grows env declared clause.args).symm

theorem sameNode_successors (grows : r.GrowsTo later) {b c : BoundType} (same : r.SameNode b c)
    (declared : r.Published b.id) :
    List.Forall₂ r.SameNode (if b.id.index < r.size then r.boundSupertypes b else [])
      (if c.id.index < later.size then later.boundSupertypes c else []) := by
  obtain rfl := same.2 declared
  rw [if_pos declared.lt_size, if_pos (grows.declared.published declared).lt_size,
    boundSupertypes, boundSupertypes, grows.find? declared]
  obtain ⟨d, found⟩ := published_iff.mp declared
  rw [found]
  exact sameNode_clauses grows b.env d.clauses

theorem firstBindings_later (grows : r.GrowsTo later) {declaring : TypeId}
    {nodes nodes' : List BoundType}
    (agree : AgreeUntil (fun b => r.Published b.id) r.SameNode nodes nodes')
    {found : Option Bindings} (done : r.firstBindings declaring nodes = .ok found) :
    later.firstBindings declaring nodes' = .ok found := by
  induction agree with
  | nil => exact done
  | stop related bad =>
    rw [firstBindings] at done
    split at done
    · cases done
    · rename_i d declared
      exact absurd (Published.of_find? (find_eq_ok.mp declared)) bad
  | @cons b c bs cs related _ ih =>
    rw [firstBindings] at done
    split at done
    · cases done
    · rename_i d declared
      obtain rfl := related.2 (.of_find? (find_eq_ok.mp declared))
      rw [firstBindings, grows.find declared]
      by_cases here : b.id = declaring
      · rw [if_pos here] at done
        simp only [if_pos here]
        exact done
      · rw [if_neg here] at done
        simp only [if_neg here]
        exact ih done

theorem firstBindings_stable (owner declaring : TypeId) :
    Stable fun r => r.firstBindings declaring
      (preorder (·.id) r.boundSupertypes r.size [] [r.unbound owner]) := by
  intro r later found done grows
  refine firstBindings_later grows ?_ done
  refine preorder_agreeUntil (fun _ _ same => same.1) (fun _ _ => sameNode_successors grows) [] ?_
  refine .cons ⟨rfl, fun declared => ?_⟩ .nil
  have same : later.typeParams owner = r.typeParams owner := grows.typeParams declared
  rw [unbound, unbound, same]

theorem bindings_stable (owner declaring : TypeId) : Stable (·.bindings owner declaring) := by
  refine (firstBindings_stable owner declaring).bind fun found => ?_
  cases found with
  | some env => exact .const (.ok env)
  | none => exact (find_stable declaring).bind fun d => .const _

theorem methodBindings_stable (m : Method) (owner : TypeId) : Stable (·.methodBindings m owner) :=
  (bindings_stable owner m.declaring).bind fun _ => .const _

theorem resolveReturn_stable (m : Method) (owner : TypeId) : Stable (·.resolveReturn m owner) :=
  (methodBindings_stable m owner).bind fun _ => .const _

theorem resolveParams_stable (m : Method) (owner : TypeId) : Stable (·.resolveParams m owner) :=
  (methodBindings_stable m owner).bind fun _ => .const _

theorem resolveField_stable (f : Field) (owner : TypeId) : Stable (·.resolveField f owner) :=
  (bindings_stable owner f.declaring).bind fun _ => .const _

end Registry

/-! ## Erasure and signatures -/

theorem GenericType.erase_lasting (t : GenericType) : Lasting t.erase := by
  induction t using GenericType.induction_on_parts with
  | named id => exact .pure id
  | applied raw args _ => exact .pure raw
  | array component ih => exact ih.bind fun id => .arrayOf id
  | typeVar name => exact .pure TypeId.object
  | wildcard upper lower _ _ => exact .pure TypeId.object

namespace Method

theorem ownBindings_stable (m : Method) : Stable m.ownBindings :=
  (Registry.find_stable m.declaring).bind fun _ => .const _

theorem eraseDeclared_lasting (m : Method) (t : GenericType) : Lasting (m.eraseDeclared t) :=
  (Lasting.read m.ownBindings_stable).bind fun env => (t.instantiate env).erase_lasting

theorem signature_lasting (m : Method) : Lasting m.signature :=
  (Lasting.mapM m.eraseDeclared_lasting m.params).bind fun _ =>
    (m.eraseDeclared_lasting m.returns).bind fun _ => .pure _

theorem signature_name {m : Method} {signature : Signature} {r grown : Registry}
    (done : m.signature.eval r = (.ok signature, grown)) : signature.name = m.name := by
  obtain ⟨params, _, -, done⟩ := Growing.bind_eval_ok.mp done
  obtain ⟨returns, _, -, done⟩ := Growing.bind_eval_ok.mp done
  cases done
  rfl

end Method

end PropertyTables
