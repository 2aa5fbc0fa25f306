import PropertyTables.Proofs.Registry.Evaluation
import PropertyTables.Proofs.Registry.Permanence
import Mathlib.Data.Finset.Card

/-! # Identities over whole runs

* `Registry.Call`: reserving an identity, declaring a type, asking for an array type.
  `Registry.history` lists some calls with what each of them gave.
* `Registry.Effect`: what a single call does to the declarations, the array types, the number of
  identities and the names. `effect` derives it for each kind of call.
* `Registry.Recorded`: what the calls so far tell about a registry. Every call keeps it,
  `Recorded.perform`, and so does every run, `Recorded.run`.
* `Registry.identities_lawful`: whatever is called, identities, array types and names stay in step.
-/

namespace PropertyTables
set_option autoImplicit false

theorem Index.mem_entries {α : Type} (x : Index α) {name : String} {value : α} :
    (name, value) ∈ x.entries ↔ x.find? name = some value := by
  rw [find?]
  constructor
  · intro member
    obtain ⟨before, later, split⟩ := List.append_of_mem member
    refine List.lookup_eq_some_iff.mpr ⟨before, later, split, fun e first => ?_⟩
    have sorted := x.sorted
    rw [split] at sorted
    have less := (List.pairwise_append.mp sorted).2.2 e first _ List.mem_cons_self
    simpa using (Std.ne_of_lt less).symm
  · intro found
    obtain ⟨before, later, split, -⟩ := List.lookup_eq_some_iff.mp found
    simp [split]

namespace Registry

/-! ## Calls and what they give -/

/-- What hands out identities or declares types. -/
inductive Call
  | reserve (space name : String) (kind : DraftKind)
  | publish (draft : Draft)
  | internArray (component : TypeId)

/-- The identity that a call gives, and the registry afterwards. -/
def perform (r : Registry) : Call → Except Fault TypeId × Registry
  | .reserve space name kind =>
    let (draft, grown) := r.reserve space name kind
    (.ok draft.id, grown)
  | .publish draft =>
    match r.publish draft with
    | .ok grown => (.ok draft.id, grown)
    | .error fault => (.error fault, r)
  | .internArray component => (Growing.arrayOf component).eval r

/-- A call in a run, with the registries before and after it. -/
structure Performed where
  call : Call
  before : Registry
  answer : Except Fault TypeId
  after : Registry

def performed (r : Registry) (call : Call) : Performed :=
  ⟨call, r, (r.perform call).1, (r.perform call).2⟩

/-- The calls with what they give, the first one first. -/
def history (r : Registry) : List Call → List Performed
  | [] => []
  | call :: rest => r.performed call :: (r.perform call).2.history rest

def afterCalls (r : Registry) (calls : List Call) : Registry :=
  calls.foldl (fun r call => (r.perform call).2) r

namespace Performed

def isReservation (p : Performed) : Bool :=
  match p.call with
  | .reserve .. => true
  | _ => false

/-- The type that was declared: under the identity given, where nothing was declared before. -/
def declared? (p : Performed) : Option Declaration :=
  p.answer.toOption.bind fun id => if p.before.Published id then none else p.after.find? id

/-- The component that was asked for, and its array type. -/
def interned? (p : Performed) : Option (TypeId × TypeId) :=
  match p.call, p.answer with
  | .internArray component, .ok id => some (component, id)
  | _, _ => none

end Performed

/-! ## What a single call does -/

/-- A name that is newly given goes to the declaration that it was given to. -/
theorem find?_insert_fullName (x : Index TypeId) (d : Declaration) (name : String) :
    (x.insert d.fullName d.id).find? name =
      (((some d).filter (·.fullName = name)).map (·.id)).or (x.find? name) := by
  rw [Index.find?_insert, Option.filter_some]
  by_cases same : d.fullName = name
  · simp [same]
  · simp [same, Ne.symm same]

/-- Of the declarations of a registry, one more is that at an identity which had none. -/
theorem find?_iff_of_new {r grown : Registry} {new : Declaration} (fresh : r.find? new.id = none)
    (after : ∀ id, grown.find? id = if id = new.id then some new else r.find? id) (id : TypeId)
    (d : Declaration) :
    grown.find? id = some d ↔ r.find? id = some d ∨ some new = some d ∧ d.id = id := by
  rw [after]
  by_cases here : id = new.id
  · rw [if_pos here, here, fresh]
    constructor
    · intro same
      cases same
      exact .inr ⟨rfl, rfl⟩
    · rintro (impossible | ⟨same, -⟩)
      · cases impossible
      · exact same
  · rw [if_neg here]
    refine ⟨Or.inl, fun h => h.elim (fun before => before) fun ⟨same, carried⟩ => ?_⟩
    cases same
    exact absurd carried.symm here

theorem findArray?_append_other {r : Registry} {component : TypeId} {slot : Option Declaration}
    (other : ∀ d ∈ slot, d.flavor ≠ .array component) (names : Index TypeId)
    (fits : ∀ d, slot = some d → d.id = ⟨r.size⟩) :
    (r.append slot names fits).findArray? component = r.findArray? component := by
  have last : [slot].findIdx? (fun slot => slot.any (·.flavor = .array component)) = none := by
    cases slot with
    | none => rfl
    | some d => simpa using other d rfl
  rw [findArray?, append, List.findIdx?_append, last]
  simp [findArray?]

/-- What a call tells about the registry that it leaves. -/
structure Effect (r : Registry) (p : Performed) (grown : Registry) : Prop where
  find? : ∀ id d, grown.find? id = some d ↔ r.find? id = some d ∨ p.declared? = some d ∧ d.id = id
  findArray? : ∀ component id, grown.findArray? component = some id ↔
    r.findArray? component = some id ∨ p.interned? = some (component, id)
  size : grown.size = r.size + (if p.isReservation then 1 else 0) +
    (if p.interned?.any (fun found => r.findArray? found.1 = none) then 1 else 0)
  findName? : ∀ name, grown.findName? name =
    ((p.declared?.filter (·.fullName = name)).map (·.id)).or (r.findName? name)
  published : ∀ draft id, p.call = .publish draft → p.answer = .ok id →
    draft.id = id ∧ p.declared? = some draft.declaration

variable {r grown : Registry}

/-- A call that declares nothing, and interns nothing new, may leave the registry alone. -/
theorem Effect.idle {p : Performed} (undeclared : p.declared? = none)
    (known : ∀ component id, p.interned? = some (component, id) →
      r.findArray? component = some id) (call : p.isReservation = false)
    (published : ∀ draft id, p.call = .publish draft → p.answer ≠ .ok id) : r.Effect p r where
  find? id d := by simp [undeclared]
  findArray? component id :=
    ⟨Or.inl, fun h => h.elim (fun before => before) (known component id)⟩
  size := by
    have old : ∀ found ∈ p.interned?, r.findArray? found.1 ≠ none := by
      intro found asked
      rw [known found.1 found.2 asked]
      exact Option.some_ne_none _
    cases asked : p.interned? with
    | none => simp [call]
    | some found => simp [call, old found asked]
  findName? name := by simp [undeclared]
  published draft id called given := absurd given (published draft id called)

theorem effect_reserve (r : Registry) (space name : String) (kind : DraftKind) :
    r.Effect (r.performed (.reserve space name kind)) (r.reserve space name kind).2 := by
  have same (id : TypeId) : (r.reserve space name kind).2.find? id = r.find? id := by
    rw [reserve, find?_append]
    split
    · rename_i last
      rw [last, find?_size]
    · rfl
  have undeclared : (r.performed (.reserve space name kind)).declared? = none := by
    have unknown : (r.reserve space name kind).2.find? ⟨r.size⟩ = none := by
      rw [same, find?_size]
    show (if r.Published ⟨r.size⟩ then none
      else (r.reserve space name kind).2.find? ⟨r.size⟩) = none
    rw [unknown, ite_self]
  refine ⟨fun id d => ?_, fun component id => ?_, ?_, fun name' => ?_, fun draft id called => ?_⟩
  · simp [same, undeclared]
  · rw [reserve, findArray?_append_other (by simp)]
    simp [Performed.interned?, performed]
  · simp [reserve, append, size, Performed.isReservation, Performed.interned?, performed]
  · rw [undeclared]
    rfl
  · cases called

theorem publish_names (draft : Draft) (h : r.publish draft = .ok grown) :
    grown.size = r.size ∧
      grown.names = r.names.insert draft.declaration.fullName draft.declaration.id := by
  unfold publish at h
  split at h
  · cases h
  · cases h
  · cases h
    exact ⟨List.length_set, rfl⟩

theorem effect_publish {draft : Draft} (h : r.publish draft = .ok grown) :
    r.Effect (r.performed (.publish draft)) grown := by
  obtain ⟨fresh, after⟩ := publish_eq_ok h
  obtain ⟨size, names⟩ := publish_names draft h
  have done : r.perform (.publish draft) = (.ok draft.id, grown) := by rw [perform, h]
  have declared : (r.performed (.publish draft)).declared? = some draft.declaration := by
    have unknown : ¬ r.Published draft.id := by simp [Published, fresh]
    rw [performed, done]
    show (if r.Published draft.id then none else grown.find? draft.id) = _
    rw [if_neg unknown, after, if_pos rfl]
  have interned : (r.performed (.publish draft)).interned? = none := rfl
  refine ⟨fun id d => ?_, fun component id => ?_, ?_, fun name => ?_, fun draft' id called given => ?_⟩
  · rw [declared]
    exact find?_iff_of_new fresh after id d
  · simp [findArray?_publish h, interned]
  · rw [size, interned]
    rfl
  · rw [declared, findName?, names, find?_insert_fullName]
    rfl
  · cases called
    rw [performed, done] at given
    cases given
    exact ⟨rfl, declared⟩

/-- The array type that a component is asked for, where it has none yet. -/
theorem effect_internArray {component : TypeId} {element : Declaration}
    (unknown : r.findArray? component = none) (found : r.find? component = some element) :
    r.Effect (r.performed (.internArray component)) (r.perform (.internArray component)).2 := by
  have done := internArray_fresh unknown found
  let new := arrayDeclaration ⟨r.size⟩ component element (lt_size_of_find? found)
  let grown := r.append (some new) (r.names.insert new.fullName new.id) (by rintro _ ⟨⟩; rfl)
  have outcome : r.perform (.internArray component) = (.ok new.id, grown) := by
    rw [perform, Growing.eval_arrayOf, done]
  have after : ∀ id, grown.find? id = if id = new.id then some new else r.find? id :=
    find?_append r (some new) _ _
  have fresh : r.find? new.id = none := find?_size r
  have declared : (r.performed (.internArray component)).declared? = some new := by
    have undeclared : ¬ r.Published new.id := by simp [Published, fresh]
    rw [performed, outcome]
    show (if r.Published new.id then none else grown.find? new.id) = _
    rw [if_neg undeclared, after, if_pos rfl]
  have interned : (r.performed (.internArray component)).interned? = some (component, new.id) := by
    rw [performed, outcome]
    rfl
  have nothing : (r.performed (.internArray component)).isReservation = false := rfl
  rw [outcome]
  refine ⟨fun id d => ?_, fun other id => ?_, ?_, fun name => ?_, nofun⟩
  · rw [declared]
    exact find?_iff_of_new fresh after id d
  · rw [interned]
    by_cases same : other = component
    · have given : grown.findArray? component = some new.id := findArray?_internArray done
      rw [same, given, unknown]
      simp
    · have differs : ∀ d ∈ some new, d.flavor ≠ .array other := by
        rintro _ ⟨⟩ same'
        exact same (Flavor.array.inj same').symm
      rw [findArray?_append_other differs]
      simp [Ne.symm same]
  · simp [grown, append, size, interned, nothing, unknown]
  · rw [declared]
    exact find?_insert_fullName r.names new name

theorem effect (r : Registry) (call : Call) :
    r.Effect (r.performed call) (r.perform call).2 := by
  cases call with
  | reserve space name kind => exact effect_reserve r space name kind
  | publish draft =>
    cases done : r.publish draft with
    | error fault =>
      have outcome : r.perform (.publish draft) = (.error fault, r) := by rw [perform, done]
      rw [outcome]
      refine .idle ?_ (fun _ _ asked => nomatch asked) rfl (fun draft' id _ given => ?_)
      · rw [performed, outcome]
        rfl
      · rw [performed, outcome] at given
        cases given
    | ok grown =>
      have outcome : r.perform (.publish draft) = (.ok draft.id, grown) := by rw [perform, done]
      rw [outcome]
      exact effect_publish done
  | internArray component =>
    cases known : r.findArray? component with
    | some id =>
      have outcome : r.perform (.internArray component) = (.ok id, r) := by
        rw [perform, Growing.eval_arrayOf, internArray_known known]
      obtain ⟨d, declared, -⟩ := findArray?_eq_some known
      rw [outcome]
      refine .idle ?_ (fun c id' asked => ?_) rfl nofun
      · rw [performed, outcome]
        exact if_pos (Published.of_find? declared)
      · rw [performed, outcome] at asked
        cases asked
        exact known
    | none =>
      cases found : r.find? component with
      | some element => exact effect_internArray known found
      | none =>
        have outcome : r.perform (.internArray component) =
            (.error (.typeNotFound component), r) := by
          rw [perform, Growing.eval_arrayOf, internArray_undeclared known found]
        rw [outcome]
        refine .idle ?_ (fun c id asked => ?_) rfl nofun
        · rw [performed, outcome]
          rfl
        · rw [performed, outcome] at asked
          cases asked

/-! ## What the calls so far tell -/

/-- The built-in types and what was declared since, in the order of declaration. -/
def declaredBy (past : List Performed) : List Declaration :=
  builtins ++ past.filterMap Performed.declared?

/-- The components that were asked for, each with its array type. -/
def internedBy (past : List Performed) : List (TypeId × TypeId) :=
  past.filterMap Performed.interned?

/-- What some calls tell about the registry that they made of the built-in types. -/
structure Recorded (past : List Performed) (r : Registry) : Prop where
  reachable : r.Reachable
  find? : ∀ id d, r.find? id = some d ↔ d ∈ declaredBy past ∧ d.id = id
  findArray? : ∀ component id, r.findArray? component = some id ↔
    (component, id) ∈ internedBy past
  size : r.size = builtins.length + past.countP (·.isReservation) +
    (internedBy past).dedup.length
  findName? : ∀ name, r.findName? name =
    ((declaredBy past).findRev? (·.fullName = name)).map (·.id)
  published : ∀ p ∈ past, ∀ draft id, p.call = .publish draft → p.answer = .ok id →
    draft.id = id ∧ r.find? id = some draft.declaration

theorem filterMap_concat {α β : Type} (f : α → Option β) (l : List α) (a : α) :
    (l ++ [a]).filterMap f = l.filterMap f ++ (f a).toList := by
  rw [List.filterMap_append]
  cases found : f a <;> simp [found]

theorem declaredBy_concat (past : List Performed) (p : Performed) :
    declaredBy (past ++ [p]) = declaredBy past ++ p.declared?.toList := by
  rw [declaredBy, filterMap_concat, ← List.append_assoc]
  rfl

theorem internedBy_concat (past : List Performed) (p : Performed) :
    internedBy (past ++ [p]) = internedBy past ++ p.interned?.toList :=
  filterMap_concat _ past p

/-! ## The last of a list -/

theorem findRev?_append_toList {α : Type} (p : α → Bool) (l : List α) (a : Option α) :
    (l ++ a.toList).findRev? p = (a.filter p).or (l.findRev? p) := by
  rw [List.findRev?_eq_find?_reverse, List.findRev?_eq_find?_reverse, List.reverse_append,
    List.find?_append]
  cases a with
  | none => rfl
  | some a =>
    rw [Option.filter_some]
    cases fits : p a <;> simp [fits]

/-- The value that a list of pairs gives a name is that of the last pair. -/
theorem find?_ofList {α : Type} (pairs : List (String × α)) (name : String) :
    (Index.ofList pairs).find? name = (pairs.findRev? (·.1 = name)).map (·.2) := by
  induction pairs using List.reverseRecOn with
  | nil => rfl
  | append_singleton pairs p ih =>
    have inserted : Index.ofList (pairs ++ [p]) = (Index.ofList pairs).insert p.1 p.2 := by
      rw [Index.ofList, List.foldl_append]
      rfl
    have last := findRev?_append_toList (·.1 = name) pairs (some p)
    rw [Option.toList_some, Option.filter_some] at last
    rw [inserted, Index.find?_insert, ih, last]
    by_cases same : p.1 = name
    · simp [same]
    · simp [same, Ne.symm same]

theorem length_dedup_append_toList {α : Type} [DecidableEq α] (l : List α) (a : Option α)
    {fresh : Bool} (new : fresh = true ↔ ∃ x ∈ a, x ∉ l) :
    (l ++ a.toList).dedup.length = l.dedup.length + if fresh then 1 else 0 := by
  cases a with
  | none =>
    have old : ¬ fresh = true := by simp [new]
    simp [old]
  | some a =>
    rw [← List.card_toFinset, ← List.card_toFinset, List.toFinset_append, Finset.union_comm]
    show (insert a l.toFinset).card = _
    rw [Finset.card_insert_eq_ite]
    by_cases member : a ∈ l <;> simp [new, member]

/-! ## What runs keep -/

theorem initial_find? (id : TypeId) (d : Declaration) :
    initial.find? id = some d ↔ d ∈ builtins ∧ d.id = id := by
  constructor
  · intro found
    have listed : some d ∈ builtins.map some := List.mem_of_getElem? (find?_eq_some.mp found)
    obtain ⟨e, member, same⟩ := List.mem_map.mp listed
    cases same
    exact ⟨member, id_of_find? found⟩
  · rintro ⟨member, rfl⟩
    obtain ⟨i, listed⟩ := List.mem_iff_getElem?.mp member
    have found : initial.find? ⟨i⟩ = some d := by
      rw [find?_eq_some, initial, List.getElem?_map, listed]
      rfl
    rwa [id_of_find? found]

theorem initial_recorded : initial.Recorded [] where
  reachable := .refl
  find? id d := by
    rw [initial_find?]
    simp [declaredBy]
  findArray? component id := by
    refine ⟨fun known => ?_, nofun⟩
    obtain ⟨d, found, array⟩ := findArray?_eq_some known
    exact absurd array (initial_flavor found component)
  size := rfl
  findName? name := by
    rw [findName?, initial, find?_ofList, List.findRev?_eq_find?_reverse, ← List.map_reverse,
      List.find?_map, Option.map_map, declaredBy, List.findRev?_eq_find?_reverse]
    simp [Function.comp_def]
  published _ member := absurd member List.not_mem_nil

variable {past : List Performed} {p : Performed}

/-- A component has no array type before the first time that one is given for it. -/
theorem Recorded.any_new (h : r.Recorded past) (effect : r.Effect p grown) :
    p.interned?.any (fun found => r.findArray? found.1 = none) = true ↔
      ∃ found ∈ p.interned?, found ∉ internedBy past := by
  cases asked : p.interned? with
  | none => simp
  | some found =>
    obtain ⟨component, id⟩ := found
    have given := (effect.findArray? component id).mpr (.inr asked)
    have known : r.findArray? component = none ↔ ¬ r.findArray? component = some id := by
      cases before : r.findArray? component with
      | none => simp
      | some other =>
        have kept := (effect.findArray? component other).mpr (.inl before)
        simp [Option.some.inj (given.symm.trans kept)]
    simp [known, h.findArray?]

theorem Recorded.extend (h : r.Recorded past) (effect : r.Effect p grown)
    (reachable : grown.Reachable) : grown.Recorded (past ++ [p]) where
  reachable := reachable
  find? id d := by
    rw [effect.find?, h.find?, declaredBy_concat, List.mem_append, Option.mem_toList,
      or_and_right]
  findArray? component id := by
    rw [effect.findArray?, h.findArray?, internedBy_concat, List.mem_append, Option.mem_toList]
  size := by
    rw [effect.size, h.size, internedBy_concat,
      length_dedup_append_toList _ _ (h.any_new effect), List.countP_append, List.countP_singleton]
    omega
  findName? name := by
    rw [effect.findName?, h.findName?, declaredBy_concat, findRev?_append_toList, Option.map_or]
  published q member draft id called given := by
    rcases List.mem_append.mp member with before | last
    · obtain ⟨same, found⟩ := h.published q before draft id called given
      exact ⟨same, (effect.find? _ _).mpr (.inl found)⟩
    · rw [List.mem_singleton] at last
      subst last
      obtain ⟨same, declared⟩ := effect.published draft id called given
      exact ⟨same, (effect.find? _ _).mpr (.inr ⟨declared, same⟩)⟩

theorem Reachable.perform (h : r.Reachable) (call : Call) : (r.perform call).2.Reachable := by
  cases call with
  | reserve space name kind => exact h.tail (.reserve r space name kind)
  | publish draft =>
    rw [Registry.perform]
    cases done : r.publish draft with
    | error fault => exact h
    | ok grown => exact h.tail (.publish draft done)
  | internArray component =>
    rw [Registry.perform, Growing.eval_arrayOf]
    cases done : r.internArray component with
    | error fault => exact h
    | ok interned => exact h.tail (.internArray done)

theorem Recorded.run (h : r.Recorded past) (calls : List Call) :
    (r.afterCalls calls).Recorded (past ++ r.history calls) := by
  induction calls generalizing r past with
  | nil => rwa [history, List.append_nil]
  | cons call rest ih =>
    rw [history, List.append_cons]
    exact ih (h.extend (effect r call) (h.reachable.perform call))

theorem afterCalls_growsTo (r : Registry) (calls : List Call) : r.GrowsTo (r.afterCalls calls) := by
  induction calls generalizing r with
  | nil => exact .refl r
  | cons call rest ih =>
    have first : r.GrowsTo (r.perform call).2 :=
      ⟨fun id d found => ((effect r call).find? id d).mpr (.inl found),
        fun component id known => ((effect r call).findArray? component id).mpr (.inl known)⟩
    exact first.trans (ih _)

/-! ## The laws -/

/-- What holds of a registry and of the calls that made it what it is. -/
structure Lawful (history : List Performed) (r : Registry) : Prop where
  /-- A declaration carries the identity that it is found under, and stays as it is. -/
  permanent : ∀ id d, r.find? id = some d →
    d.id = id ∧ ∀ calls, (r.afterCalls calls).find? id = some d
  /-- What was declared is found under its identity. -/
  declared : ∀ p ∈ history, ∀ draft id, p.call = .publish draft → p.answer = .ok id →
    draft.id = id ∧ r.find? id = some draft.declaration
  /-- The array type of a component comes after it, is the only one, and is given every time. -/
  arrays : ∀ p ∈ history, ∀ component id, p.call = .internArray component → p.answer = .ok id →
    component.index < id.index ∧ (∃ d, r.find? id = some d ∧ d.flavor = .array component) ∧
      (∀ other d, r.find? other = some d → d.flavor = .array component → other = id) ∧
      ∀ calls, (r.afterCalls calls).perform (.internArray component) = (.ok id, r.afterCalls calls)
  /-- Components share an array type only if they are the same. -/
  apart : ∀ p ∈ history, ∀ q ∈ history, ∀ component other id id',
    p.call = .internArray component → q.call = .internArray other →
    p.answer = .ok id → q.answer = .ok id' → (component = other ↔ id = id')
  /-- Every array type was asked for. -/
  asked : ∀ id d component, r.find? id = some d → d.flavor = .array component →
    ∃ p ∈ history, p.call = .internArray component ∧ p.answer = .ok id
  /-- An identity that was handed out and has no declaration yet can be declared. -/
  publishes : ∀ draft, draft.id.index < r.size → ¬ r.Published draft.id →
    (r.perform (.publish draft)).1 = .ok draft.id
  /-- A declared type gets an array type. -/
  interns : ∀ component, r.Published component →
    ∃ id, (r.perform (.internArray component)).1 = .ok id
  /-- An identity without declaration gets none, and nothing changes. -/
  undeclared : ∀ component, ¬ r.Published component →
    r.perform (.internArray component) = (.error (.typeNotFound component), r)
  /-- A call that fails changes nothing. -/
  failed : ∀ call fault, (r.perform call).1 = .error fault → (r.perform call).2 = r
  /-- The built-in types, the reservations, and the array types, each of these once. -/
  counted : r.size = builtins.length + history.countP (·.isReservation) +
    (internedBy history).dedup.length
  /-- A name leads to the type that was last declared under it. -/
  newest : ∀ name, r.findName? name =
    ((declaredBy history).findRev? (·.fullName = name)).map (·.id)
  /-- The names are listed in increasing order, each with the type that it leads to. -/
  sorted : r.names.names.Pairwise (· < ·)
  listed : ∀ name id, (name, id) ∈ r.names.entries ↔ r.findName? name = some id
  /-- These are the full names of the declared types. -/
  named : ∀ name, name ∈ r.names.names ↔ ∃ id d, r.find? id = some d ∧ d.fullName = name

namespace Recorded

theorem mem_internedBy {component id : TypeId} :
    (component, id) ∈ internedBy past ↔
      ∃ p ∈ past, p.call = .internArray component ∧ p.answer = .ok id := by
  rw [internedBy, List.mem_filterMap]
  refine exists_congr fun p => and_congr_right fun _ => ?_
  obtain ⟨call, before, answer, after⟩ := p
  cases call <;> cases answer <;> simp [Performed.interned?]

theorem findArray?_of_mem (h : r.Recorded past) {component id : TypeId} (member : p ∈ past)
    (called : p.call = .internArray component) (given : p.answer = .ok id) :
    r.findArray? component = some id :=
  (h.findArray? component id).mpr (mem_internedBy.mpr ⟨p, member, called, given⟩)

/-- What is declared as an array type is found as the array type of its component. -/
theorem findArray?_of_flavor (h : r.Recorded past) {component id : TypeId} {d : Declaration}
    (found : r.find? id = some d) (array : d.flavor = .array component) :
    r.findArray? component = some id := by
  cases known : r.findArray? component with
  | none => exact absurd array (findArray?_eq_none known found)
  | some other =>
    obtain ⟨e, found', array'⟩ := findArray?_eq_some known
    rw [h.reachable.coherent.array_unique other id e d component found' found array' array]

theorem perform_known {component id : TypeId} (known : r.findArray? component = some id) :
    r.perform (.internArray component) = (.ok id, r) := by
  rw [perform, Growing.eval_arrayOf, internArray_known known]

theorem arrays (h : r.Recorded past) {component id : TypeId}
    (known : r.findArray? component = some id) :
    component.index < id.index ∧ (∃ d, r.find? id = some d ∧ d.flavor = .array component) ∧
      (∀ other d, r.find? other = some d → d.flavor = .array component → other = id) ∧
      ∀ calls, (r.afterCalls calls).perform (.internArray component) =
        (.ok id, r.afterCalls calls) := by
  obtain ⟨d, found, array⟩ := findArray?_eq_some known
  refine ⟨component_lt_of_find? found array, ⟨d, found, array⟩, fun other e found' array' => ?_,
    fun calls => ?_⟩
  · exact Option.some.inj ((h.findArray?_of_flavor found' array').symm.trans known)
  · exact perform_known ((r.afterCalls_growsTo calls).arrays component id known)

theorem apart {component other id id' : TypeId} (one : r.findArray? component = some id)
    (two : r.findArray? other = some id') : component = other ↔ id = id' := by
  constructor
  · rintro rfl
    exact Option.some.inj (one.symm.trans two)
  · rintro rfl
    obtain ⟨d, found, array⟩ := findArray?_eq_some one
    obtain ⟨e, found', array'⟩ := findArray?_eq_some two
    cases found.symm.trans found'
    exact Flavor.array.inj (array.symm.trans array')

theorem publishes {draft : Draft} (reserved : draft.id.index < r.size)
    (undeclared : ¬ r.Published draft.id) : (r.perform (.publish draft)).1 = .ok draft.id := by
  have bound : draft.id.index < r.slots.length := reserved
  have missing : (r.slots[draft.id.index]?).join = none := by
    simpa [Published, Registry.find?] using undeclared
  have slot : r.slots[draft.id.index]? = some none := by
    rw [List.getElem?_eq_getElem bound] at missing ⊢
    exact congrArg some missing
  rw [perform]
  cases done : r.publish draft with
  | ok grown => rfl
  | error fault =>
    rw [publish] at done
    split at done
    · rename_i unused
      rw [slot] at unused
      cases unused
    · rename_i declared
      rw [slot] at declared
      cases declared
    · cases done

theorem interns {component : TypeId} (declared : r.Published component) :
    ∃ id, (r.perform (.internArray component)).1 = .ok id := by
  obtain ⟨id, grown, interned⟩ := internArray_succeeds declared
  rw [perform, Growing.eval_arrayOf, interned]
  exact ⟨id, rfl⟩

theorem undeclared (h : r.Recorded past) {component : TypeId}
    (undeclared : ¬ r.Published component) :
    r.perform (.internArray component) = (.error (.typeNotFound component), r) := by
  have unknown : r.findArray? component = none := by
    cases known : r.findArray? component with
    | none => rfl
    | some id =>
      obtain ⟨d, found, array⟩ := findArray?_eq_some known
      exact absurd (h.reachable.coherent.component_published id d component found array) undeclared
  have missing : r.find? component = none := by simpa [Published] using undeclared
  rw [perform, Growing.eval_arrayOf, internArray_undeclared unknown missing]

theorem perform_error (call : Call) (fault : Fault) (failed : (r.perform call).1 = .error fault) :
    (r.perform call).2 = r := by
  cases call with
  | reserve space name kind => cases failed
  | publish draft =>
    rw [perform] at failed ⊢
    cases done : r.publish draft with
    | error fault => rfl
    | ok grown =>
      rw [done] at failed
      cases failed
  | internArray component =>
    rw [perform, Growing.eval_arrayOf] at failed ⊢
    cases done : r.internArray component with
    | error fault => rfl
    | ok interned =>
      rw [done] at failed
      cases failed

theorem named (h : r.Recorded past) (name : String) :
    name ∈ r.names.names ↔ ∃ id d, r.find? id = some d ∧ d.fullName = name := by
  rw [Index.mem_names]
  show (∃ id, r.findName? name = some id) ↔ _
  simp only [h.findName?, Option.map_eq_some_iff]
  constructor
  · rintro ⟨_, d, last, rfl⟩
    rw [List.findRev?_eq_find?_reverse] at last
    have member := List.mem_reverse.mp (List.mem_of_find?_eq_some last)
    have fits := List.find?_some last
    exact ⟨d.id, d, (h.find? d.id d).mpr ⟨member, rfl⟩, by simpa using fits⟩
  · rintro ⟨id, d, found, rfl⟩
    have member := List.mem_reverse.mpr ((h.find? id d).mp found).1
    have last : ((declaredBy past).findRev? (·.fullName = d.fullName)).isSome := by
      rw [List.findRev?_eq_find?_reverse, List.find?_isSome]
      exact ⟨d, member, by simp⟩
    obtain ⟨e, last⟩ := Option.isSome_iff_exists.mp last
    exact ⟨e.id, e, last, rfl⟩

theorem lawful (h : r.Recorded past) : r.Lawful past where
  permanent id d found :=
    ⟨id_of_find? found, fun calls => (r.afterCalls_growsTo calls).declared id d found⟩
  declared := h.published
  arrays _ member _ _ called given := h.arrays (h.findArray?_of_mem member called given)
  apart _ member _ member' _ _ _ _ called called' given given' :=
    apart (h.findArray?_of_mem member called given) (h.findArray?_of_mem member' called' given')
  asked id _ component found array :=
    mem_internedBy.mp ((h.findArray? component id).mp (h.findArray?_of_flavor found array))
  publishes _ := publishes
  interns _ := interns
  undeclared _ := h.undeclared
  failed := perform_error
  counted := h.size
  newest := h.findName?
  sorted := r.names.names_sorted
  listed _ _ := r.names.mem_entries
  named := h.named

end Recorded

/-- Whatever is reserved, declared and asked for, in whatever order: declarations stay under the
identities that they carry, each declared type has one array type, later than itself, and each name
leads to the type that was last declared under it. -/
theorem identities_lawful (calls : List Call) :
    (initial.afterCalls calls).Lawful (initial.history calls) :=
  (initial_recorded.run calls).lawful

/-- Two types of one name, and one between them that is declared before the first. -/
def outOfOrder : List Call :=
  [.reserve "" "Item" .classType, .reserve "" "Order" .classType,
    .publish { id := ⟨12⟩, space := "", name := "Order", kind := .classType },
    .publish { id := ⟨11⟩, space := "", name := "Item", kind := .classType },
    .internArray ⟨11⟩, .reserve "" "Item" .interfaceType,
    .publish { id := ⟨14⟩, space := "", name := "Item", kind := .interfaceType }]

/-- The later one takes the name. The first keeps its identity and its array type. -/
theorem identities_lawful_out_of_order :
    let r := initial.afterCalls outOfOrder
    r.Lawful (initial.history outOfOrder) ∧
      (initial.history outOfOrder).map (·.answer.toOption) =
        [⟨11⟩, ⟨12⟩, ⟨12⟩, ⟨11⟩, ⟨13⟩, ⟨14⟩, ⟨14⟩].map some ∧
      r.size = 15 ∧ r.findName? "Item" = some ⟨14⟩ ∧
      (r.find? ⟨11⟩).map (·.fullName) = some "Item" ∧
      r.perform (.internArray ⟨11⟩) = (.ok ⟨13⟩, r) := by
  intro r
  have lawful : r.Lawful (initial.history outOfOrder) := identities_lawful outOfOrder
  have answers : (initial.history outOfOrder).map (·.answer.toOption) =
      [⟨11⟩, ⟨12⟩, ⟨12⟩, ⟨11⟩, ⟨13⟩, ⟨14⟩, ⟨14⟩].map some := rfl
  have last : ((declaredBy (initial.history outOfOrder)).findRev? (·.fullName = "Item")).map (·.id) =
      some ⟨14⟩ := rfl
  have size : r.size = 15 := rfl
  have first : (r.find? ⟨11⟩).map (·.fullName) = some "Item" := rfl
  have flavor : (r.find? ⟨13⟩).map (·.flavor) = some (.array ⟨11⟩) := rfl
  obtain ⟨d, found, array⟩ := Option.map_eq_some_iff.mp flavor
  obtain ⟨p, member, called, given⟩ := lawful.asked ⟨13⟩ d ⟨11⟩ found array
  obtain ⟨-, -, -, again⟩ := lawful.arrays p member ⟨11⟩ ⟨13⟩ called given
  exact ⟨lawful, answers, size, (lawful.newest "Item").trans last, first, again []⟩

end Registry

end PropertyTables
