import PropertyTables.Proofs.Registry.Lasting
import PropertyTables.Table.Build

/-! # Passes over accessor methods

The readable and the writable properties that methods make are found in the same way.

* `passEntries`: a pass over some properties, each of which is resolved to a method that makes an
  entry.
* `getterEntries_eq`, `setterEntries_eq`: the two passes of a build are of this kind.
* `PassResult`: what a pass that interns nothing does for one property. `pass_find` says what is
  found after the whole pass, and `pass_fault` what a fault comes from.
-/

namespace PropertyTables
set_option autoImplicit false

open Growing (Lasting)

/-- Adds the entries of the given properties, in order. Excluded names are resolved and then left
out. -/
def passEntries (resolve : String → Growing (Option Method)) (make : Method → Growing Entry)
    (made : Index Entry) : List String → Growing (Index Entry)
  | [] => return made
  | property :: rest => do
    match ← resolve property with
    | some winner =>
      if PropertyName.isExcluded property then passEntries resolve make made rest
      else
        let entry ← make winner
        passEntries resolve make (made.insert property entry) rest
    | none => passEntries resolve make made rest

theorem getterEntries_eq (owner : TypeId) (pairs : List (String × Method)) (made : Index Entry)
    (properties : List String) : getterEntries owner pairs made properties =
      passEntries (fun property => resolveGetter property (candidates property pairs))
        (getterEntry owner) made properties := by
  induction properties generalizing made with
  | nil => rfl
  | cons property rest ih =>
    rw [getterEntries, passEntries]
    refine bind_congr fun winner => ?_
    cases winner with
    | none => exact ih made
    | some m => simp only [ih]

theorem setterEntries_eq (owner : TypeId) (pairs : List (String × Method))
    (readers made : Index Entry) (properties : List String) :
    setterEntries owner pairs readers made properties =
      passEntries (fun property => resolveSetter property ((readers.find? property).map (·.type))
        (candidates property pairs)) (setterEntry owner) made properties := by
  induction properties generalizing made with
  | nil => rfl
  | cons property rest ih =>
    rw [setterEntries, passEntries]
    refine bind_congr fun winner => ?_
    cases winner with
    | none => exact ih made
    | some m => simp only [ih]

/-! ## Passes that intern nothing -/

section Settled
variable {r : Registry} {resolve : String → Growing (Option Method)}
  {make : Method → Growing Entry}

/-- What a pass does for one property: it leaves the property as it was, or enters it anew. -/
inductive PassResult (r : Registry) (resolve : String → Growing (Option Method))
    (make : Method → Growing Entry) (property : String) (before after : Option Entry) : Prop
  | left (winner : Option Method) (resolved : (resolve property).eval r = (.ok winner, r))
      (out : winner = none ∨ PropertyName.isExcluded property = true) (same : after = before)
  | entered (m : Method) (e : Entry) (resolved : (resolve property).eval r = (.ok (some m), r))
      (included : PropertyName.isExcluded property = false)
      (made : (make m).eval r = (.ok e, r)) (entry : after = some e)

/-- What is done twice is done as at the second time. -/
theorem PassResult.trans {property : String} {before middle after : Option Entry}
    (first : PassResult r resolve make property before middle)
    (second : PassResult r resolve make property middle after) :
    PassResult r resolve make property before after := by
  cases second with
  | left _ _ _ same => exact same ▸ first
  | entered m e resolved included made entry => exact .entered m e resolved included made entry

variable (resolves : ∀ property, Lasting (resolve property)) (makes : ∀ m, Lasting (make m))
include resolves makes

theorem passEntries_lasting (made : Index Entry) (properties : List String) :
    Lasting (passEntries resolve make made properties) := by
  induction properties generalizing made with
  | nil => exact .pure made
  | cons property rest ih =>
    rw [passEntries]
    refine (resolves property).bind fun winner => ?_
    cases winner with
    | none => exact ih made
    | some winner =>
      show Lasting (if _ then _ else _)
      split
      · exact ih made
      · exact (makes winner).bind fun entry => ih _

/-- One property of a pass: resolving it fails, or making its entry does, or the pass goes on. -/
theorem pass_step {property : String} {rest : List String} {made : Index Entry}
    {outcome : Except Fault (Index Entry)}
    (done : (passEntries resolve make made (property :: rest)).eval r = (outcome, r)) :
    (∃ fault, outcome = .error fault ∧ ((resolve property).eval r = (.error fault, r) ∨
      ∃ winner, (make winner).eval r = (.error fault, r))) ∨
    ∃ next : Index Entry,
      PassResult r resolve make property (made.find? property) (next.find? property) ∧
      (∀ other, other ≠ property → next.find? other = made.find? other) ∧
      (passEntries resolve make next rest).eval r = (outcome, r) := by
  have going_on (made : Index Entry) := passEntries_lasting resolves makes made rest
  rw [passEntries] at done
  rcases (resolves property).bind_cases (fun winner => by
    cases winner with
    | none => exact going_on made
    | some winner =>
      show Lasting (if _ then _ else _)
      split
      · exact going_on made
      · exact (makes winner).bind fun entry => going_on _) done with
    ⟨fault, failed, first⟩ | ⟨winner, first, done⟩
  · exact .inl ⟨fault, failed, .inl first⟩
  · cases winner with
    | none => exact .inr ⟨made, .left none first (.inl rfl) rfl, fun _ _ => rfl, done⟩
    | some m =>
      by_cases excluded : PropertyName.isExcluded property = true
      · simp only [excluded, if_true] at done
        exact .inr ⟨made, .left (some m) first (.inr excluded) rfl, fun _ _ => rfl, done⟩
      · have included := Bool.eq_false_iff.mpr excluded
        simp only [included] at done
        rcases (makes m).bind_cases (fun entry => going_on _) done with
          ⟨fault, failed, second⟩ | ⟨e, second, done⟩
        · exact .inl ⟨fault, failed, .inr ⟨m, second⟩⟩
        · refine .inr ⟨made.insert property e, .entered m e first included second ?_, ?_, done⟩
          · rw [Index.find?_insert, if_pos rfl]
          · intro other differs
            rw [Index.find?_insert, if_neg differs]

/-- What is found after a pass was found before it, or was entered by it. -/
theorem pass_find {properties : List String} {made after : Index Entry}
    (done : (passEntries resolve make made properties).eval r = (.ok after, r))
    (property : String) :
    property ∉ properties ∧ after.find? property = made.find? property ∨
      property ∈ properties ∧
        PassResult r resolve make property (made.find? property) (after.find? property) := by
  induction properties generalizing made with
  | nil =>
    cases done
    exact .inl ⟨List.not_mem_nil, rfl⟩
  | cons first rest ih =>
    obtain ⟨_, failed, -⟩ | ⟨next, result, others, going_on⟩ := pass_step resolves makes done
    · cases failed
    by_cases here : property = first
    · subst here
      rcases ih going_on with ⟨-, same⟩ | ⟨-, again⟩
      · exact .inr ⟨List.mem_cons_self, same ▸ result⟩
      · exact .inr ⟨List.mem_cons_self, result.trans again⟩
    · rw [← others property here, List.mem_cons, or_iff_right here]
      exact ih going_on

/-- What is found after a pass that starts from nothing was entered by it. -/
theorem pass_entered {properties : List String} {after : Index Entry} {property : String} {e : Entry}
    (done : (passEntries resolve make {} properties).eval r = (.ok after, r))
    (found : after.find? property = some e) :
    PropertyName.isExcluded property = false ∧
      ∃ m, (resolve property).eval r = (.ok (some m), r) ∧ (make m).eval r = (.ok e, r) := by
  have nothing : ({} : Index Entry).find? property = none := rfl
  rcases pass_find resolves makes done property with ⟨-, same⟩ | ⟨-, result⟩
  · rw [same, nothing] at found
    cases found
  · cases result with
    | left _ _ _ same =>
      rw [same, nothing] at found
      cases found
    | entered m e' resolved included made entry =>
      obtain rfl := Option.some.inj (entry.symm.trans found)
      exact ⟨included, m, resolved, made⟩

/-- A fault of a pass is one of resolving some property, or of making an entry. -/
theorem pass_fault {properties : List String} {made : Index Entry} {fault : Fault}
    (failed : (passEntries resolve make made properties).eval r = (.error fault, r)) :
    (∃ property ∈ properties, (resolve property).eval r = (.error fault, r)) ∨
      ∃ m, (make m).eval r = (.error fault, r) := by
  induction properties generalizing made with
  | nil => cases failed
  | cons property rest ih =>
    rcases pass_step resolves makes failed with ⟨_, same, cause⟩ | ⟨next, -, -, failed⟩
    · cases same
      exact cause.imp_left fun resolving => ⟨property, List.mem_cons_self, resolving⟩
    · exact (ih failed).imp_left fun ⟨other, listed, resolving⟩ =>
        ⟨other, List.mem_cons_of_mem property listed, resolving⟩

end Settled

end PropertyTables
