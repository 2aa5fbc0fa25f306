import PropertyTables.Proofs.Table.Entries
import PropertyTables.Proofs.Table.Safety

/-! # Building tables in closed registries

* `Table.ids`: the identities that a table names.
* `Sealed.getterEntries`, `Sealed.setterEntries`, `Sealed.addFields`: each pass makes entries of
  declared types.
* `Sealed.build`: building the table of a declared type fails by ambiguity or by a superclass chain
  that is too long, and what the table names is declared.
-/

namespace PropertyTables
set_option autoImplicit false

open Growing (Safe)

/-! ## The identities of a table -/

def Accessor.ids : Accessor → List TypeId
  | method m => m.ids
  | readField f => f.ids
  | writeField f => f.ids

def Entry.ids (e : Entry) : List TypeId :=
  e.type :: e.invoker.valueType :: (e.generic.ids ++ e.accessor.ids)

def Index.ids (x : Index Entry) : List TypeId := x.entries.flatMap (·.2.ids)

/-- The identities that a table names: in the types of its properties, before and after erasure, and
in the members behind them. -/
def Table.ids (t : Table) : List TypeId :=
  t.type :: (t.readers.ids ++ t.writers.ids ++ t.defaultConstructor?.toList.flatMap (·.ids))

namespace Registry
variable {r : Registry} {limit : Nat} {owner : TypeId}

/-- Whether all entries of an index are made of declared types. -/
def CoversIndex (r : Registry) (x : Index Entry) : Prop := x.Each fun e => r.Covers e.ids

theorem covers_index {x : Index Entry} : r.Covers x.ids ↔ r.CoversIndex x := covers_flatMap

theorem CoversIndex.interns {x : Index Entry} (h : r.CoversIndex x) {grown : Registry}
    (interned : r.Interns grown) : grown.CoversIndex x :=
  fun e listed => (h e listed).interns interned

theorem Published.interns {id : TypeId} (h : r.Published id) {grown : Registry}
    (interned : r.Interns grown) : grown.Published id :=
  interned.growsTo.declared.published h

namespace Sealed

/-! ## Entries -/

/-- An entry of the type that a member is resolved to, once that is erased. -/
theorem entry (h : r.Sealed) {generic : GenericType} (resolved : r.Covers generic.ids)
    (accessor : Accessor) (behind : r.Covers accessor.ids) {allowed : Fault → Prop} :
    Safe allowed r (do
      let type ← generic.erase
      return (⟨⟨accessor, type⟩, type, generic⟩ : Entry)) fun grown e => grown.Covers e.ids := by
  refine (h.erase resolved).bind fun grown type interns declared => .pure ?_
  refine covers_cons.mpr ⟨declared, covers_cons.mpr ⟨declared, covers_append.mpr ⟨?_, ?_⟩⟩⟩
  · exact resolved.interns interns
  · exact behind.interns interns

theorem getterEntry (h : r.Sealed) (declared : r.Published owner) {m : Method}
    (covered : r.Covers m.ids) :
    Safe (Fault.OfBuild limit) r (getterEntry owner m) fun grown e => grown.Covers e.ids := by
  have parts := covered
  simp only [Method.ids, covers_cons, covers_append, covers_flatMap] at parts
  obtain ⟨declaring, ⟨returns, -⟩, bounds⟩ := parts
  obtain ⟨env, bound⟩ := bindings_answers h.closed.supertypesPublished declared declaring
  have answers := resolveReturn_eq_ok.mpr ⟨env, bound, rfl⟩
  have resolved := h.resolves.resolveReturn h.closed.declaresOnly returns
    (fun p hp => covers_flatMap.mp (bounds p hp)) answers
  have reading : Safe (Fault.OfBuild limit) r (Growing.read (·.resolveReturn m owner))
      fun grown generic => grown = r ∧ r.Covers generic.ids := .read_ok answers ⟨rfl, resolved⟩
  refine reading.bind ?_
  rintro _ generic - ⟨rfl, resolved⟩
  exact h.entry resolved (.method m) covered

theorem setterEntry (h : r.Sealed) (declared : r.Published owner) {m : Method}
    (covered : r.Covers m.ids) :
    Safe (Fault.OfBuild limit) r (setterEntry owner m) fun grown e => grown.Covers e.ids := by
  have parts := covered
  simp only [Method.ids, covers_cons, covers_append, covers_flatMap] at parts
  obtain ⟨declaring, ⟨-, params⟩, bounds⟩ := parts
  obtain ⟨env, bound⟩ := bindings_answers h.closed.supertypesPublished declared declaring
  have answers := resolveParams_eq_ok.mpr ⟨env, bound, rfl⟩
  have resolved := h.resolves.resolveParams h.closed.declaresOnly params
    (fun p hp => covers_flatMap.mp (bounds p hp)) answers
  have reading : Safe (Fault.OfBuild limit) r (Growing.read (·.resolveParams m owner))
      fun grown types => grown = r ∧ ∀ t ∈ types, r.Covers t.ids :=
    .read_ok answers ⟨rfl, resolved⟩
  refine reading.bind ?_
  rintro _ types - ⟨rfl, resolved⟩
  refine h.entry ?_ (.method m) covered
  cases types with
  | nil => exact h.resolves.root
  | cons t _ => exact resolved t List.mem_cons_self

/-! ## Passes -/

theorem pass (h : r.Sealed) (declared : r.Published owner)
    {resolve : String → Growing (Option Method)}
    (resolves : ∀ grown : Registry, r.Interns grown → grown.Sealed → ∀ property,
      Safe (Fault.OfBuild limit) grown (resolve property)
        fun grown winner => ∀ m ∈ winner, grown.Covers m.ids)
    {make : Method → Growing Entry}
    (makes : ∀ r : Registry, r.Sealed → r.Published owner → ∀ m, r.Covers m.ids →
      Safe (Fault.OfBuild limit) r (make m) fun grown e => grown.Covers e.ids)
    (properties : List String) {made : Index Entry} (covered : r.CoversIndex made) :
    Safe (Fault.OfBuild limit) r (passEntries resolve make made properties) CoversIndex := by
  induction properties generalizing r made with
  | nil => exact .pure covered
  | cons property rest ih =>
    rw [passEntries]
    refine (resolves r (.refl r) h property).bind fun grown winner interns fits => ?_
    have going_on {last : Registry} (reached : r.Interns last) {made : Index Entry}
        (covered : last.CoversIndex made) := ih (h.interns reached) (declared.interns reached)
      (fun later interns => resolves later (reached.trans interns)) covered
    cases winner with
    | none => exact going_on interns (covered.interns interns)
    | some m =>
      by_cases excluded : PropertyName.isExcluded property = true
      · simp only [excluded, if_true]
        exact going_on interns (covered.interns interns)
      · simp only [excluded]
        refine (makes grown (h.interns interns) (declared.interns interns) m (fits m rfl)).bind ?_
        intro last entry interns' here
        have both := interns.trans interns'
        exact going_on both ((covered.interns both).insert property here)

variable {methods : List Method}

theorem getterEntries (h : r.Sealed) (declared : r.Published owner)
    (covered : ∀ m ∈ methods, r.Covers m.ids) (properties : List String) {made : Index Entry}
    (hm : r.CoversIndex made) :
    Safe (Fault.OfBuild limit) r (getterEntries owner (accessors .read methods) made properties)
      CoversIndex := by
  rw [getterEntries_eq]
  refine h.pass declared (fun grown interns still property => ?_)
    (fun r h declared m => h.getterEntry declared) properties hm
  exact still.resolveGetter property fun m member =>
    (covered m (mem_candidates member)).interns interns

theorem setterEntries (h : r.Sealed) (declared : r.Published owner)
    (covered : ∀ m ∈ methods, r.Covers m.ids) (readers : Index Entry) (properties : List String)
    {made : Index Entry} (hm : r.CoversIndex made) :
    Safe (Fault.OfBuild limit) r
      (setterEntries owner (accessors .write methods) readers made properties) CoversIndex := by
  rw [setterEntries_eq]
  refine h.pass declared (fun grown interns still property => ?_)
    (fun r h declared m => h.setterEntry declared) properties hm
  exact still.resolveSetter property _ fun m member =>
    (covered m (mem_candidates member)).interns interns

/-! ## Fields -/

/-- Whether all entries of both sides are made of declared types. -/
def CoversSides (r : Registry) (s : Sides) : Prop := s.Each fun _ e => r.Covers e.ids

theorem addField (h : r.Sealed) (declared : r.Published owner) {made : Sides}
    (hm : CoversSides r made) {f : Field} (covered : r.Covers f.ids) :
    Safe (Fault.OfBuild limit) r (addField owner made f) CoversSides := by
  simp only [PropertyTables.addField]
  split
  · exact .pure hm
  · obtain ⟨declaring, type⟩ := covers_cons.mp covered
    obtain ⟨env, bound⟩ := bindings_answers h.closed.supertypesPublished declared declaring
    have answers := resolveField_eq_ok.mpr ⟨env, bound, rfl⟩
    have resolved := h.resolves.resolveField h.closed.declaresOnly type answers
    have reading : Safe (Fault.OfBuild limit) r (Growing.read (·.resolveField f owner))
        fun grown generic => grown = r ∧ r.Covers generic.ids := .read_ok answers ⟨rfl, resolved⟩
    refine reading.bind ?_
    rintro _ generic - ⟨rfl, resolved⟩
    refine (h.erase resolved).bind fun grown type interns erased => .pure ?_
    have named : grown.Covers (type :: type :: (generic.ids ++ f.ids)) :=
      covers_cons.mpr ⟨erased, covers_cons.mpr ⟨erased,
        covers_append.mpr ⟨resolved.interns interns, covered.interns interns⟩⟩⟩
    obtain ⟨readers, writers⟩ := hm
    have readers := CoversIndex.interns readers interns
    have writers := CoversIndex.interns writers interns
    exact ⟨.ite (readers.insert f.name named) readers, .ite (writers.insert f.name named) writers⟩

theorem addFields (h : r.Sealed) (declared : r.Published owner) (room : Nat)
    {start : Option TypeId} (starts : ∀ id ∈ start, r.Published id) {made : Sides}
    (hm : CoversSides r made) :
    Safe (Fault.OfBuild limit) r (addFields owner limit room start made) CoversSides := by
  induction room generalizing r start made with
  | zero =>
    cases start with
    | none => exact .pure hm
    | some id => exact .throw .recursionLimit
  | succ room ih =>
    cases start with
    | none => exact .pure hm
    | some id =>
      obtain ⟨d, found⟩ := published_iff.mp (starts id rfl)
      have reading : Safe (Fault.OfBuild limit) r (Growing.read (·.find id)) fun grown d =>
          grown = r ∧ r.find? id = some d := .read_ok (find_eq_ok.mpr found) ⟨rfl, found⟩
      rw [PropertyTables.addFields]
      refine reading.bind ?_
      rintro _ d - ⟨rfl, found⟩
      have filling : Safe (Fault.OfBuild limit) _ (d.fields.foldlM (PropertyTables.addField owner) made)
          CoversSides := .foldlM (fun f hf grown made interns fits =>
        (h.interns interns).addField (declared.interns interns) fits
          ((h.closed.fields found f hf).interns interns)) hm
      refine filling.bind fun grown made interns fits => ?_
      exact ih (h.interns interns) (declared.interns interns)
        (fun parent named => (h.closed.superclass found named).interns interns) fits

/-! ## The table -/

/-- Building the table of a declared type fails by ambiguity or by a superclass chain that is too
long, and what the table names is declared. -/
theorem build (h : r.Sealed) (declared : r.Published owner) :
    Safe (Fault.OfBuild limit) r (Table.build owner limit) fun grown t => grown.Covers t.ids := by
  rw [Table.build_eq]
  obtain ⟨name, named⟩ := declared.fullName
  have naming : Safe (Fault.OfBuild limit) r (Growing.read (·.fullName owner)) fun grown _ =>
      grown = r := .read_ok named rfl
  refine naming.bind ?_
  rintro _ name - rfl
  refine (h.collectMethods declared).bind fun r₁ methods interns covered => ?_
  replace h := h.interns interns
  replace declared := declared.interns interns
  refine (h.getterEntries declared covered _ Index.each_empty).bind fun r₂ readers interns hr => ?_
  replace h := h.interns interns
  replace declared := declared.interns interns
  replace covered (m : Method) (hm : m ∈ methods) := (covered m hm).interns interns
  refine (h.setterEntries declared covered readers _ Index.each_empty).bind ?_
  intro r₃ writers interns hw
  replace h := h.interns interns
  replace declared := declared.interns interns
  have start : ∀ id ∈ some owner, r₃.Published id := by
    intro id same
    exact Option.mem_some.mp same ▸ declared
  have before : CoversSides r₃ ⟨readers, writers⟩ := ⟨hr.interns interns, hw⟩
  refine (h.addFields declared limit start before).bind ?_
  intro r₄ sides interns ⟨hr, hw⟩
  replace h := h.interns interns
  replace declared := declared.interns interns
  obtain ⟨d, found⟩ := published_iff.mp declared
  have reading : Safe (Fault.OfBuild limit) r₄ (Growing.read (·.find owner)) fun grown d =>
      grown = r₄ ∧ r₄.find? owner = some d := .read_ok (find_eq_ok.mpr found) ⟨rfl, found⟩
  refine reading.bind ?_
  rintro _ d - ⟨rfl, found⟩
  refine .pure (covers_cons.mpr ⟨declared, covers_append.mpr ⟨covers_append.mpr ⟨?_, ?_⟩, ?_⟩⟩)
  · exact covers_index.mpr hr
  · exact covers_index.mpr hw
  · refine covers_flatMap.mpr fun c hc => h.closed.constructors found c ?_
    exact List.mem_of_find?_eq_some (Option.mem_toList.mp hc)

end Sealed

end Registry

end PropertyTables
