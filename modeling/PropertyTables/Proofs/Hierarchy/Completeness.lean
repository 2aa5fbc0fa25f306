import PropertyTables.Proofs.Hierarchy.Dispatch
import PropertyTables.Proofs.Hierarchy.Interning
import PropertyTables.Proofs.Registry.Failures
import PropertyTables.Proofs.Table.Collected
import PropertyTables.Proofs.Table.Safety

/-! # Dispatch misses nothing

* `Registry.InHierarchy`: a class of a receiver's chain, or an interface above one. Dispatch asks
  these types and no others, `mem_dispatchOrder_iff`.
* `Interns.inHierarchy_cases`: interning adds at most the root type, which declares no method.
* `findImplementation_lacking`, `Sealed.findImplementation`: only an undeclared type stops dispatch,
  and in a closed registry nothing does.
* `findImplementation_complete`: nothing is found only if nothing in the hierarchy implements the
  method, and the first class of the chain that implements it goes before everything else.
-/

namespace PropertyTables
set_option autoImplicit false

open Growing (FailsLacking Safe)

namespace Registry
variable {r grown : Registry} {receiver : TypeId}

/-! ## Where dispatch looks -/

/-- A class of the receiver's superclass chain, or an interface above one. -/
def InHierarchy (r : Registry) (receiver id : TypeId) : Prop :=
  id ∈ r.superclassChain receiver ∨ ∃ c ∈ r.superclassChain receiver, r.InterfacePath c id

theorem mem_dispatchOrder_iff {id : TypeId} :
    id ∈ r.dispatchOrder receiver ↔ r.InHierarchy receiver id := by
  constructor
  · intro listed
    refine (List.mem_append.mp listed).imp_right fun met => ?_
    refine preorder_forall (P := fun t => ∃ c ∈ r.superclassChain receiver, r.InterfacePath c t)
      (fun t start => ?_) (fun t ⟨c, on_chain, path⟩ u edge => ?_) id met
    · obtain ⟨c, on_chain, edge⟩ := List.mem_flatMap.mp (List.mem_reverse.mp start)
      exact ⟨c, on_chain, .single edge⟩
    · exact ⟨c, on_chain, path.tail (List.mem_reverse.mp edge)⟩
  · rintro (on_chain | ⟨c, on_chain, path⟩)
    · exact List.mem_append_left _ on_chain
    · have start : c ∈ r.dispatchOrder receiver := List.mem_append_left _ on_chain
      induction path with
      | single edge => exact superinterface_mem_dispatchOrder start edge
      | tail _ edge ih => exact superinterface_mem_dispatchOrder ih edge

/-! ## Interning -/

theorem Reachable.not_implementing_object (h : r.Reachable) (wanted : Signature) :
    ¬ r.Implementing wanted .object :=
  not_implementing (h.extends .object _ rfl) fun _ listed => absurd listed List.not_mem_nil

/-- Interning adds at most the root type to a hierarchy. -/
theorem Interns.inHierarchy_cases (h : r.Interns grown) (reachable : grown.Reachable)
    (receiver id : TypeId) :
    (r.InHierarchy receiver id → grown.InHierarchy receiver id) ∧
      (grown.InHierarchy receiver id → r.InHierarchy receiver id ∨ id = .object) := by
  obtain ⟨more, chain, tops⟩ := h.superclassChain_append reachable receiver
  have paths : grown.InterfacePath = r.InterfacePath := by
    unfold InterfacePath
    simp only [h.superinterfaces_eq]
  simp only [InHierarchy, chain, paths, List.mem_append]
  constructor
  · exact Or.imp .inl fun ⟨c, on_chain, path⟩ => ⟨c, .inl on_chain, path⟩
  · rintro ((on_chain | top) | ⟨c, on_chain | top, path⟩)
    · exact .inl (.inl on_chain)
    · exact .inr (tops id top)
    · exact .inl (.inr ⟨c, on_chain, path⟩)
    · -- the root type has no interfaces
      obtain rfl := tops c top
      obtain ⟨b, edge, -⟩ := Relation.TransGen.head'_iff.mp path
      rw [← h.superinterfaces_eq, reachable.superinterfaces_object] at edge
      exact absurd edge List.not_mem_nil

end Registry

/-! ## Faults of dispatch -/

theorem bestOverride_lacking (wanted : Signature) (covariant : Option Method)
    (methods : List Method) : (bestOverride wanted covariant methods).FailsLacking := by
  induction methods generalizing covariant with
  | nil => exact .pure covariant
  | cons m rest ih =>
    rw [bestOverride]
    split
    · refine m.signature_lacking.bind fun signature => ?_
      split
      · exact ih covariant
      · split
        · exact .pure (some m)
        · exact ih _
    · exact ih covariant

theorem firstOverride_lacking (wanted : Signature) (ids : List TypeId) :
    (firstOverride wanted ids).FailsLacking := by
  induction ids with
  | nil => exact .pure none
  | cons id rest ih =>
    refine FailsLacking.bind (.read (Registry.find_lacking · id)) fun d => ?_
    refine (bestOverride_lacking wanted none d.methods).bind fun found => ?_
    cases found with
    | some m => exact .pure (some m)
    | none => exact ih

theorem findImplementation_lacking (receiver : TypeId) (m : Method) :
    (findImplementation receiver m).FailsLacking :=
  m.signature_lacking.bind fun wanted =>
    FailsLacking.get.bind fun r => firstOverride_lacking wanted (r.dispatchOrder receiver)

namespace Registry.Sealed
variable {r : Registry} {allowed : Fault → Prop}

theorem bestOverride (h : r.Sealed) (wanted : Signature) (covariant : Option Method)
    {methods : List Method} (covered : ∀ m ∈ methods, r.Covers m.ids) :
    Safe allowed r (bestOverride wanted covariant methods) fun _ _ => True := by
  induction methods generalizing r covariant with
  | nil => exact .pure .intro
  | cons m rest ih =>
    obtain ⟨here, later⟩ := List.forall_mem_cons.mp covered
    rw [PropertyTables.bestOverride]
    split
    · refine (h.signature here).bind fun grown signature interns _ => ?_
      have going_on (covariant : Option Method) :=
        ih (h.interns interns) covariant fun m hm => (later m hm).interns interns
      split
      · exact going_on covariant
      · split
        · exact .pure .intro
        · exact going_on _
    · exact ih h covariant later

theorem firstOverride (h : r.Sealed) (wanted : Signature) {ids : List TypeId}
    (declared : r.Covers ids) :
    Safe allowed r (firstOverride wanted ids) fun _ _ => True := by
  induction ids generalizing r with
  | nil => exact .pure .intro
  | cons id rest ih =>
    obtain ⟨here, later⟩ := covers_cons.mp declared
    obtain ⟨d, found⟩ := published_iff.mp here
    have reading : Safe allowed r (Growing.read (·.find id)) fun grown e => grown = r ∧ e = d :=
      .read_ok (find_eq_ok.mpr found) ⟨rfl, rfl⟩
    refine reading.bind ?_
    rintro _ _ - ⟨rfl, rfl⟩
    refine (h.bestOverride wanted none (h.closed.methods found)).bind fun grown best interns _ => ?_
    cases best with
    | some m => exact .pure .intro
    | none => exact ih (h.interns interns) (later.interns interns)

/-- In a closed registry, dispatch comes to a result. -/
theorem findImplementation (h : r.Sealed) {receiver : TypeId} (published : r.Published receiver)
    {m : Method} (covered : r.Covers m.ids) :
    Safe allowed r (findImplementation receiver m) fun _ _ => True := by
  refine (h.signature covered).bind fun grown wanted interns _ => ?_
  have still := h.interns interns
  have getting : Safe allowed grown (get : Growing Registry) fun g s => g = grown ∧ s = grown :=
    .get ⟨rfl, rfl⟩
  refine getting.bind ?_
  rintro _ _ - ⟨rfl, rfl⟩
  have published := interns.growsTo.declared.published published
  exact still.firstOverride wanted (still.closed.supertypesPublished.dispatchOrder published)

end Registry.Sealed

/-! ## Completeness -/

section Completeness
variable {r grown : Registry} {receiver : TypeId}

/-- What dispatch owes: nothing only if no type of the hierarchy implements the method, the best
implementation of a type of the hierarchy otherwise, and that of the first class of the chain that
has one before all others. -/
structure Dispatched (r grown : Registry) (receiver : TypeId) (wanted : Signature)
    (result : Option Method) : Prop where
  eq_none_iff : result = none ↔ ∀ id, r.InHierarchy receiver id → ¬ grown.Implementing wanted id
  best : ∀ found, result = some found → r.InHierarchy receiver found.declaring ∧
    ∃ d, grown.find? found.declaring = some d ∧ wanted.Best grown d.methods found
  first_on_chain : ∀ id, FirstIn (grown.Implementing wanted) (r.superclassChain receiver) id →
    ∃ found, result = some found ∧ found.declaring = id

/-- A search through the hierarchy, in the registry that it leaves. -/
theorem dispatched_of_search {middle : Registry} {wanted : Signature} {result : Option Method}
    (reachable : middle.Reachable) (before : r.Interns middle) (after : middle.Interns grown)
    (done : (firstOverride wanted (middle.dispatchOrder receiver)).eval grown =
      (.ok result, grown)) :
    Dispatched r grown receiver wanted result := by
  have hierarchy := before.inHierarchy_cases reachable receiver
  have located (found : Method) (same : result = some found) :
      FirstIn (grown.Implementing wanted) (middle.dispatchOrder receiver) found.declaring ∧
        ∃ d, grown.find? found.declaring = some d ∧ wanted.Best grown d.methods found := by
    subst same
    obtain ⟨id, d, first, declared, best⟩ := firstOverride_eq_some done
    have owner : found.declaring = id :=
      (d.members.methods_declaring found best.mem).trans (Registry.id_of_find? declared)
    subst owner
    exact ⟨first, d, declared, best⟩
  have inside (found : Method) (same : result = some found) :
      r.InHierarchy receiver found.declaring := by
    -- the search goes on to the root type where interning added it, and finds nothing there
    have first := (located found same).1
    have searched := (hierarchy _).2 (Registry.mem_dispatchOrder_iff.mp first.mem)
    refine searched.resolve_right fun top => ?_
    exact (reachable.interns after).not_implementing_object wanted (top ▸ first.holds)
  refine ⟨⟨?_, fun none_there => ?_⟩, fun found same => ⟨inside found same, (located found same).2⟩,
    fun id first => ?_⟩
  · rintro rfl id above
    have searched := Registry.mem_dispatchOrder_iff.mpr ((hierarchy id).1 above)
    exact firstOverride_eq_none done id searched
  · cases result with
    | none => rfl
    | some found =>
      exact absurd (located found rfl).1.holds (none_there _ (inside found rfl))
  · obtain ⟨more, chain, -⟩ := before.superclassChain_append reachable receiver
    have order : FirstIn (grown.Implementing wanted) (middle.dispatchOrder receiver) id := by
      rw [Registry.dispatchOrder, chain]
      exact (first.append more).append _
    cases result with
    | none => exact absurd order.holds (firstOverride_eq_none done id order.mem)
    | some found => exact ⟨found, rfl, (located found rfl).1.unique order⟩

/-- Dispatch stops at an undeclared type, or it comes to the result that it owes; in a closed
registry it never stops. -/
theorem findImplementation_complete {outcome : Except Fault (Option Method)}
    (reachable : r.Reachable) (receiver : TypeId) (m : Method)
    (done : (findImplementation receiver m).eval r = (outcome, grown)) :
    ((∃ id, outcome = .error (.typeNotFound id) ∧ ¬ grown.Published id) ∨
      ∃ wanted result, m.signature.eval grown = (.ok wanted, grown) ∧ outcome = .ok result ∧
        Dispatched r grown receiver wanted result) ∧
    (r.Closed → r.Published receiver → r.Covers m.ids → ∃ result, outcome = .ok result) := by
  have lacking := findImplementation_lacking receiver m r
  rw [done] at lacking
  constructor
  · cases outcome with
    | error fault =>
      obtain ⟨id, rfl, undeclared⟩ := lacking fault rfl
      exact .inl ⟨id, rfl, undeclared⟩
    | ok result =>
      rw [findImplementation_eval] at done
      rcases erased : m.signature.eval r with ⟨fault | wanted, middle⟩
      · rw [erased] at done
        cases done
      · rw [erased] at done
        have search := firstOverride_lasting wanted (middle.dispatchOrder receiver)
        have before := m.signature_lasting.interns_of_eval erased
        have after := search.interns_of_eval done
        have wanted_still := m.signature_lasting.lasts _ _ _ _ erased after.growsTo
        exact .inr ⟨wanted, result, wanted_still, rfl,
          dispatched_of_search (reachable.interns before) before after (search.again done)⟩
  · intro closed published covered
    have safe : Safe (fun _ => False) r (findImplementation receiver m) fun _ _ => True :=
      Registry.Sealed.findImplementation ⟨reachable, closed⟩ published covered
    cases outcome with
    | error fault => exact absurd (congrArg Prod.fst done) (safe.fault fault)
    | ok result => exact ⟨result, rfl⟩

/-- Two classes that extend each other, the second of which greets. -/
def Registry.ouroboros : Registry :=
  (initial.declared "" "Head" .classType (·.extending (.named ⟨12⟩))).declared "" "Tail" .classType
    fun d => (d.extending (.named ⟨11⟩)).method (greeting "again")

theorem findImplementation_complete_ouroboros :
    let r := Registry.ouroboros
    let m := (greeting "again").finish ⟨12⟩
    r.Reachable ∧ r.Closed ∧ r.superclassChain ⟨11⟩ = [⟨11⟩, ⟨12⟩] ∧
      r.superclass? ⟨12⟩ = some ⟨11⟩ ∧ (findImplementation ⟨11⟩ m).eval r = (.ok (some m), r) ∧
      ∃ wanted, Dispatched r r ⟨11⟩ wanted (some m) := by
  intro r m
  have reachable : r.Reachable := (Registry.Reachable.declared .refl _ _ _ _).declared _ _ _ _
  have done : (findImplementation ⟨11⟩ m).eval r = (.ok (some m), r) := by cbv
  refine ⟨reachable, by decide, by cbv, by decide, done, ?_⟩
  obtain ⟨stopped | ⟨wanted, result, -, same, owed⟩, -⟩ :=
    findImplementation_complete reachable ⟨11⟩ m done
  · obtain ⟨id, stopped, -⟩ := stopped
    cases stopped
  · cases same
    exact ⟨wanted, owed⟩

end Completeness

end PropertyTables
