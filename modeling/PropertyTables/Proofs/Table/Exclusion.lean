import Mathlib.Data.List.Sort
import PropertyTables.Proofs.Table.Matching
import PropertyTables.Proofs.Table.Selection

/-! # Excluded accessors

A pass resolves the properties of excluded names along with the others, and leaves them out.

* `PropertyName.isExcludedAccessor`: the accessor names of excluded properties.
* `Registry.withoutExcluded`, `Registry.onlyExcluded`: all members but those of excluded names, and
  those alone.
* `passEntries_included`: the entries of a pass are those of the included properties; the others need
  only be resolved.
* `accessorPass_parts`, `methodEntries_parts`: so a pass succeeds exactly if it does without the
  excluded accessors and with them alone, and so do all passes together.
-/

namespace PropertyTables
set_option autoImplicit false

open Growing (Lasting Blind)

/-! ## Members of excluded names -/

/-- Whether a name is the accessor name of an excluded property. -/
def PropertyName.isExcludedAccessor (name : String) : Bool :=
  (ofAccessor name).toOption.any isExcluded

theorem PropertyName.isExcludedAccessor_of_ok {name property : String}
    (named : ofAccessor name = .ok property) : isExcludedAccessor name = isExcluded property := by
  rw [isExcludedAccessor, named]
  rfl

open PropertyName (isExcluded isExcludedAccessor)

/-- The members without those of excluded names, for the given types. -/
def MemberMap.withoutExcluded (among : List TypeId) : MemberMap :=
  .keeping among (fun name => !isExcludedAccessor name) fun name => !isExcluded name

/-- The members of excluded names alone, for the given types. -/
def MemberMap.onlyExcluded (among : List TypeId) : MemberMap :=
  .keeping among isExcludedAccessor isExcluded

theorem MemberMap.keepsNone_withoutExcluded (among : List TypeId) :
    (MemberMap.withoutExcluded among).KeepsNone :=
  keepsNone_keeping among _ _

theorem MemberMap.keepsNone_onlyExcluded (among : List TypeId) :
    (MemberMap.onlyExcluded among).KeepsNone :=
  keepsNone_keeping among _ _

/-- The registry without the members of excluded names, for the given types. -/
def Registry.withoutExcluded (r : Registry) (among : List TypeId) : Registry :=
  r.mapMembers (.withoutExcluded among)

/-- The registry with the members of excluded names alone, for the given types. -/
def Registry.onlyExcluded (r : Registry) (among : List TypeId) : Registry :=
  r.mapMembers (.onlyExcluded among)

/-! ## Accessors of some names -/

section Names
variable {property : String → Bool}

theorem accessors_filter (method property : String → Bool)
    (agree : ∀ name p, PropertyName.ofAccessor name = .ok p → method name = property p) (side : Side)
    (methods : List Method) : accessors side (methods.filter (method ·.name)) =
      (accessors side methods).filter (property ·.1) := by
  rw [accessors, accessors, List.filterMap_filter, List.filter_filterMap]
  refine List.filterMap_congr fun m _ => ?_
  cases accessor : m.isAccessor side with
  | false => simp
  | true =>
    obtain ⟨p, named⟩ := Method.exists_ofAccessor accessor
    rw [agree m.name p named, named]
    cases chosen : property p <;> simp [Except.toOption, Option.filter, chosen]

theorem propertiesOf_filter (pairs : List (String × Method)) :
    propertiesOf (pairs.filter (property ·.1)) = (propertiesOf pairs).filter property := by
  refine (Index.names_sorted _).eq_of_mem_iff ((Index.names_sorted _).filter _) fun name => ?_
  rw [List.mem_filter, propertiesOf, Index.mem_names_ofList, Index.mem_names_ofList]
  simp only [List.mem_filter, exists_and_right]

theorem candidates_filter {name : String} (chosen : property name = true)
    (pairs : List (String × Method)) :
    candidates name (pairs.filter (property ·.1)) = candidates name pairs := by
  rw [candidates, candidates, List.filter_filter]
  refine congrArg _ (List.filter_congr fun p _ => ?_)
  cases same : p.1 == name with
  | false => rfl
  | true => rw [eq_of_beq same, chosen]; rfl

end Names

/-! ## Passes -/

section Passes
variable {r : Registry} {resolve resolve' : String → Growing (Option Method)}
  {make : Method → Growing Entry}

theorem passEntries_congr {properties : List String}
    (same : ∀ p ∈ properties, resolve p = resolve' p) (made : Index Entry) :
    passEntries resolve make made properties = passEntries resolve' make made properties := by
  induction properties generalizing made with
  | nil => rfl
  | cons p rest ih =>
    obtain ⟨here, later⟩ := List.forall_mem_cons.mp same
    rw [passEntries, passEntries, here]
    simp only [ih later]

theorem passEntries_append (made : Index Entry) (before after : List String) :
    passEntries resolve make made (before ++ after) =
      passEntries resolve make made before >>= fun next => passEntries resolve make next after := by
  induction before generalizing made with
  | nil => rw [List.nil_append, passEntries, pure_bind]
  | cons p rest ih =>
    rw [List.cons_append, passEntries, passEntries, bind_assoc]
    refine bind_congr fun winner => ?_
    cases winner with
    | none => exact ih made
    | some winner =>
      show (if _ then _ else _) = (if _ then _ else _) >>= _
      split
      · exact ih made
      · rw [bind_assoc]
        exact bind_congr fun entry => ih _

variable (resolves : ∀ property, Lasting (resolve property)) (makes : ∀ m, Lasting (make m))
include resolves

/-- An excluded property is resolved, and makes no entry. -/
theorem passEntries_excluded {p : String} (excluded : isExcluded p = true)
    {made after : Index Entry} :
    (passEntries resolve make made [p]).eval r = (.ok after, r) ↔
      after = made ∧ ∃ winner, (resolve p).eval r = (.ok winner, r) := by
  have only : passEntries resolve make made [p] = do
      let _ ← resolve p
      return made := by
    rw [passEntries]
    refine bind_congr fun winner => ?_
    cases winner with
    | none => rfl
    | some winner => exact if_pos excluded
  rw [only, (resolves p).bind_settled fun _ => .pure made]
  constructor
  · rintro ⟨winner, resolved, done⟩
    cases done
    exact ⟨rfl, winner, resolved⟩
  · rintro ⟨rfl, winner, resolved⟩
    exact ⟨winner, resolved, rfl⟩

include makes

/-- The entries of a pass are those of the included properties. The excluded properties need only be
resolved. -/
theorem passEntries_included {properties : List String} {made after : Index Entry} :
    (passEntries resolve make made properties).eval r = (.ok after, r) ↔
      (passEntries resolve make made (properties.filter fun p => !isExcluded p)).eval r =
        (.ok after, r) ∧
      ∀ p ∈ properties, isExcluded p = true → ∃ winner, (resolve p).eval r = (.ok winner, r) := by
  have lasting := passEntries_lasting resolves makes
  induction properties generalizing made with
  | nil => simp
  | cons p rest ih =>
    have first : passEntries resolve make made (p :: rest) =
        passEntries resolve make made [p] >>= fun next => passEntries resolve make next rest :=
      passEntries_append made [p] rest
    rw [first, (lasting made [p]).bind_settled (lasting · rest), List.filter_cons,
      List.forall_mem_cons]
    cases excluded : isExcluded p with
    | true =>
      simp only [passEntries_excluded resolves excluded, ih]
      constructor
      · rintro ⟨_, ⟨rfl, resolved⟩, going_on, later⟩
        exact ⟨going_on, fun _ => resolved, later⟩
      · rintro ⟨going_on, resolved, later⟩
        exact ⟨made, ⟨rfl, resolved trivial⟩, going_on, later⟩
    | false =>
      have next : passEntries resolve make made (p :: rest.filter fun p => !isExcluded p) =
          passEntries resolve make made [p] >>= fun next =>
            passEntries resolve make next (rest.filter fun p => !isExcluded p) :=
        passEntries_append made [p] _
      rw [Bool.not_false, if_pos rfl, next, (lasting made [p]).bind_settled (lasting · _)]
      simp only [ih]
      constructor
      · rintro ⟨next, here, going_on, later⟩
        exact ⟨⟨next, here, going_on⟩, nofun, later⟩
      · rintro ⟨⟨next, here, going_on⟩, -, later⟩
        exact ⟨next, here, going_on, later⟩

end Passes

/-! ## Passes over accessors -/

/-- The entries that some accessors make, with a way to resolve the candidates of each property. -/
def accessorPass (resolve : String → List Method → Growing (Option Method))
    (make : Method → Growing Entry) (pairs : List (String × Method)) : Growing (Index Entry) :=
  passEntries (fun p => resolve p (candidates p pairs)) make {} (propertiesOf pairs)

/-- The pairs of included properties. -/
def includedPairs (pairs : List (String × Method)) : List (String × Method) :=
  pairs.filter fun pair => !isExcluded pair.1

/-- The pairs of excluded properties. -/
def excludedPairs (pairs : List (String × Method)) : List (String × Method) :=
  pairs.filter fun pair => isExcluded pair.1

section Accessors
variable {r : Registry} {resolve resolve' : String → List Method → Growing (Option Method)}
  {make : Method → Growing Entry}

theorem accessorPass_lasting (resolves : ∀ p methods, Lasting (resolve p methods))
    (makes : ∀ m, Lasting (make m)) (pairs : List (String × Method)) :
    Lasting (accessorPass resolve make pairs) :=
  passEntries_lasting (fun p => resolves p _) makes _ _

theorem accessorPass_blind {φ : MemberMap} (resolves : ∀ p methods, Blind φ (resolve p methods))
    (makes : ∀ m, Blind φ (make m)) (pairs : List (String × Method)) :
    Blind φ (accessorPass resolve make pairs) :=
  passEntries_blind (fun p => resolves p _) makes _ _

theorem accessorPass_filter (property : String → Bool) (pairs : List (String × Method)) :
    accessorPass resolve make (pairs.filter (property ·.1)) =
      passEntries (fun p => resolve p (candidates p pairs)) make {}
        ((propertiesOf pairs).filter property) := by
  rw [accessorPass, propertiesOf_filter]
  refine passEntries_congr (fun p listed => ?_) _
  rw [candidates_filter (List.mem_filter.mp listed).2]

theorem accessorPass_congr_excluded {pairs : List (String × Method)}
    (same : ∀ p, isExcluded p = true → resolve p = resolve' p) :
    accessorPass resolve make (excludedPairs pairs) =
      accessorPass resolve' make (excludedPairs pairs) := by
  rw [excludedPairs, accessorPass_filter, accessorPass_filter]
  refine passEntries_congr (fun p listed => ?_) _
  rw [same p (List.mem_filter.mp listed).2]

variable (resolves : ∀ p methods, Lasting (resolve p methods)) (makes : ∀ m, Lasting (make m))
include resolves makes

/-- With excluded accessors alone, a pass has no entries. -/
theorem accessorPass_excluded {pairs : List (String × Method)} {after : Index Entry} :
    (accessorPass resolve make (excludedPairs pairs)).eval r = (.ok after, r) ↔ after = {} ∧
      ∀ p ∈ propertiesOf pairs, isExcluded p = true →
        ∃ winner, (resolve p (candidates p pairs)).eval r = (.ok winner, r) := by
  have none_left : ((propertiesOf pairs).filter isExcluded).filter (fun p => !isExcluded p) = [] := by
    simp [List.filter_filter]
  rw [excludedPairs, accessorPass_filter,
    passEntries_included (fun p => resolves p _) makes, none_left]
  refine and_congr ⟨fun done => ?_, fun same => same ▸ rfl⟩ ⟨fun all p listed excluded => ?_, ?_⟩
  · cases done
    rfl
  · exact all p (List.mem_filter.mpr ⟨listed, excluded⟩) excluded
  · exact fun all p listed => all p (List.mem_of_mem_filter listed)

/-- A pass succeeds exactly if it does on the included accessors and on the excluded ones. Its
entries are those of the included ones. -/
theorem accessorPass_parts {pairs : List (String × Method)} {after : Index Entry} :
    (accessorPass resolve make pairs).eval r = (.ok after, r) ↔
      (accessorPass resolve make (includedPairs pairs)).eval r = (.ok after, r) ∧
      (accessorPass resolve make (excludedPairs pairs)).eval r = (.ok {}, r) := by
  rw [accessorPass_excluded resolves makes, and_iff_right rfl, includedPairs,
    accessorPass_filter fun p => !isExcluded p, accessorPass]
  exact passEntries_included (fun p => resolves p _) makes

end Accessors

/-! ## The entries of methods -/

/-- The entries that getters make in the table of `owner`. -/
def getterPass (owner : TypeId) (methods : List Method) : Growing (Index Entry) :=
  accessorPass resolveGetter (getterEntry owner) (accessors .read methods)

/-- The entries that setters make in the table of `owner`, next to those of getters. -/
def setterPass (owner : TypeId) (readers : Index Entry) (methods : List Method) :
    Growing (Index Entry) :=
  accessorPass (fun p => resolveSetter p ((readers.find? p).map (·.type))) (setterEntry owner)
    (accessors .write methods)

section Methods
variable {r : Registry} {owner : TypeId} {limit : Nat} {readers after : Index Entry}
  {methods : List Method} {made : Sides}

theorem methodEntries_eq_passes (owner : TypeId) (limit : Nat) : methodEntries owner limit = (do
    let methods ← collectMethods owner limit
    let readers ← getterPass owner methods
    return ⟨readers, ← setterPass owner readers methods⟩) := by
  rw [methodEntries]
  simp only [getterEntries_eq, setterEntries_eq]
  rfl

theorem getterPass_lasting (owner : TypeId) (methods : List Method) :
    Lasting (getterPass owner methods) :=
  accessorPass_lasting resolveGetter_lasting (getterEntry_lasting owner) _

theorem setterPass_lasting (owner : TypeId) (readers : Index Entry) (methods : List Method) :
    Lasting (setterPass owner readers methods) :=
  accessorPass_lasting (fun p => resolveSetter_lasting p _) (setterEntry_lasting owner) _

theorem methodEntries_settled : (methodEntries owner limit).eval r = (.ok made, r) ↔ ∃ methods,
    (collectMethods owner limit).eval r = (.ok methods, r) ∧
    (getterPass owner methods).eval r = (.ok made.readers, r) ∧
    (setterPass owner made.readers methods).eval r = (.ok made.writers, r) := by
  have setting (methods : List Method) (readers : Index Entry) :=
    (setterPass_lasting owner readers methods).map (Sides.mk readers)
  have getting (methods : List Method) :=
    (getterPass_lasting owner methods).bind fun readers => setting methods readers
  rw [methodEntries_eq_passes, (collectMethods_lasting owner limit).bind_settled getting]
  refine exists_congr fun methods => and_congr_right fun _ => ?_
  rw [(getterPass_lasting owner methods).bind_settled (setting methods)]
  constructor
  · rintro ⟨readers, got, done⟩
    obtain ⟨writers, set, done⟩ :=
      ((setterPass_lasting owner readers methods).bind_settled fun _ => .pure _).mp done
    cases done
    exact ⟨got, set⟩
  · rintro ⟨got, set⟩
    exact ⟨made.readers, got,
      ((setterPass_lasting owner _ methods).bind_settled fun _ => .pure _).mpr ⟨_, set, rfl⟩⟩

theorem accessors_included (side : Side) (methods : List Method) :
    accessors side (methods.filter fun m => !isExcludedAccessor m.name) =
      includedPairs (accessors side methods) :=
  accessors_filter (fun name => !isExcludedAccessor name) (fun name => !isExcluded name)
    (fun _ _ named => congrArg _ (PropertyName.isExcludedAccessor_of_ok named)) side methods

theorem accessors_excluded (side : Side) (methods : List Method) :
    accessors side (methods.filter fun m => isExcludedAccessor m.name) =
      excludedPairs (accessors side methods) :=
  accessors_filter isExcludedAccessor isExcluded
    (fun _ _ named => PropertyName.isExcludedAccessor_of_ok named) side methods

theorem getterPass_parts : (getterPass owner methods).eval r = (.ok after, r) ↔
    (getterPass owner (methods.filter fun m => !isExcludedAccessor m.name)).eval r = (.ok after, r) ∧
    (getterPass owner (methods.filter fun m => isExcludedAccessor m.name)).eval r = (.ok {}, r) := by
  rw [getterPass, getterPass, getterPass, accessors_included, accessors_excluded]
  exact accessorPass_parts resolveGetter_lasting (getterEntry_lasting owner)

theorem getterPass_included (done : (getterPass owner methods).eval r = (.ok after, r)) {p : String}
    (excluded : isExcluded p = true) : after.find? p = none := by
  refine Option.eq_none_iff_forall_ne_some.mpr fun e found => ?_
  obtain ⟨included, -⟩ := pass_entered (fun p => resolveGetter_lasting p _)
    (getterEntry_lasting owner) done found
  rw [excluded] at included
  cases included

theorem getterPass_excluded
    (done : (getterPass owner (methods.filter fun m => isExcludedAccessor m.name)).eval r =
      (.ok after, r)) : after = {} := by
  rw [getterPass, accessors_excluded] at done
  exact ((accessorPass_excluded resolveGetter_lasting (getterEntry_lasting owner)).mp done).1

theorem setterPass_excluded
    (done : (setterPass owner readers (methods.filter fun m => isExcludedAccessor m.name)).eval r =
      (.ok after, r)) : after = {} := by
  rw [setterPass, accessors_excluded] at done
  exact ((accessorPass_excluded (fun p => resolveSetter_lasting p _)
    (setterEntry_lasting owner)).mp done).1

/-- No getter of an excluded property has an entry, so that what setters of excluded properties are
resolved to does not depend on the readers. -/
theorem setterPass_parts (readers_included : ∀ p, isExcluded p = true → readers.find? p = none) :
    (setterPass owner readers methods).eval r = (.ok after, r) ↔
      (setterPass owner readers (methods.filter fun m => !isExcludedAccessor m.name)).eval r =
        (.ok after, r) ∧
      (setterPass owner {} (methods.filter fun m => isExcludedAccessor m.name)).eval r =
        (.ok {}, r) := by
  have unread : ∀ p, isExcluded p = true → resolveSetter p ((readers.find? p).map (·.type)) =
      resolveSetter p ((({} : Index Entry).find? p).map (·.type)) := by
    intro p excluded
    rw [readers_included p excluded]
    rfl
  rw [setterPass, setterPass, setterPass, accessors_included, accessors_excluded,
    ← accessorPass_congr_excluded unread]
  exact accessorPass_parts (fun p => resolveSetter_lasting p _) (setterEntry_lasting owner)

/-- The methods of a hierarchy make the entries that those of included names make, and make them
exactly if the methods of excluded names alone cause no fault. -/
theorem methodEntries_parts {among : List TypeId}
    (hierarchy : ∀ id, Relation.ReflTransGen r.DeclaredSupertype owner id → id ∈ among) :
    (methodEntries owner limit).eval r = (.ok made, r) ↔
      (methodEntries owner limit).eval (r.withoutExcluded among) =
        (.ok made, r.withoutExcluded among) ∧
      ∃ others, (methodEntries owner limit).eval (r.onlyExcluded among) =
        (.ok others, r.onlyExcluded among) := by
  have included := MemberMap.keepsNone_withoutExcluded among
  have excluded := MemberMap.keepsNone_onlyExcluded among
  have getting {φ : MemberMap} (nothing : φ.KeepsNone) (methods : List Method) :
      Blind φ (getterPass owner methods) :=
    accessorPass_blind (resolveGetter_blind nothing) (getterEntry_blind nothing owner) _
  have setting {φ : MemberMap} (nothing : φ.KeepsNone) (readers : Index Entry)
      (methods : List Method) : Blind φ (setterPass owner readers methods) :=
    accessorPass_blind (fun p => resolveSetter_blind nothing p _) (setterEntry_blind nothing owner) _
  constructor
  · intro done
    obtain ⟨methods, collected, got, set⟩ := methodEntries_settled.mp done
    obtain ⟨got_included, got_excluded⟩ := getterPass_parts.mp got
    obtain ⟨set_included, set_excluded⟩ :=
      (setterPass_parts fun p => getterPass_included got).mp set
    refine ⟨methodEntries_settled.mpr ⟨_, collectMethods_keeping hierarchy collected, ?_, ?_⟩,
      ⟨{}, {}⟩, methodEntries_settled.mpr ⟨_, collectMethods_keeping hierarchy collected, ?_, ?_⟩⟩
    · exact ((getting included _).settled_iff (getterPass_lasting owner _)).mpr got_included
    · exact ((setting included _ _).settled_iff (setterPass_lasting owner _ _)).mpr set_included
    · exact ((getting excluded _).settled_iff (getterPass_lasting owner _)).mpr got_excluded
    · exact ((setting excluded _ _).settled_iff (setterPass_lasting owner _ _)).mpr set_excluded
  · rintro ⟨done, others, done'⟩
    obtain ⟨methods, collected, got, set⟩ := methodEntries_settled.mp done
    obtain ⟨methods', collected', got', set'⟩ := methodEntries_settled.mp done'
    obtain ⟨all, together⟩ :=
      collectMethods_joins hierarchy collected (fun _ => (Bool.not_not _).symm) collected'
    -- the methods that were collected apart are those of `all`
    obtain ⟨same, -⟩ := Prod.mk.inj (collected.symm.trans (collectMethods_keeping hierarchy together))
    obtain ⟨same', -⟩ :=
      Prod.mk.inj (collected'.symm.trans (collectMethods_keeping hierarchy together))
    obtain rfl := Except.ok.inj same
    obtain rfl := Except.ok.inj same'
    have got := ((getting included _).settled_iff (getterPass_lasting owner _)).mp got
    have set := ((setting included _ _).settled_iff (setterPass_lasting owner _ _)).mp set
    have got' := ((getting excluded _).settled_iff (getterPass_lasting owner _)).mp got'
    have set' := ((setting excluded _ _).settled_iff (setterPass_lasting owner _ _)).mp set'
    have unread := getterPass_excluded got'
    have unwritten := setterPass_excluded set'
    rw [unread] at got' set'
    rw [unwritten] at set'
    have got_all := getterPass_parts.mpr ⟨got, got'⟩
    exact methodEntries_settled.mpr ⟨all, together, got_all,
      (setterPass_parts fun p => getterPass_included got_all).mpr ⟨set, set'⟩⟩

end Methods

end PropertyTables
