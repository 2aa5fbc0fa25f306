import PropertyTables.Proofs.Hierarchy.GrowingWalks
import PropertyTables.Proofs.Hierarchy.SubtypeOrder
import PropertyTables.Table.Overloads

/-! # The choice among overloads

* `Registry.SubtypeOrder`: subtyping answers, and no two types are assignable to each other.
* `Registry.BelowAll`: a type that is assignable to the types of all overloads of a list.
* `Registry.Wins`: a getter that is preferred to all others. All such getters have one type.
* `Registry.NarrowestFor`: the type of the setter that counts. There is one such type at most.
* `chooseGetter_reordered`, `chooseSetter_reordered`: whether there is a choice, and of which type,
  does not depend on the order of the overloads.
-/

namespace PropertyTables
set_option autoImplicit false

/-- A permutation of images, undone for one of them. -/
theorem exists_perm_cons_of_map {α β : Type} {f : α → β} {l : List α} {b : β} {bs : List β}
    (h : (l.map f).Perm (b :: bs)) : ∃ a as, l.Perm (a :: as) ∧ f a = b ∧ (as.map f).Perm bs := by
  obtain ⟨a, member, rfl⟩ := List.mem_map.mp (h.mem_iff.mpr List.mem_cons_self)
  obtain ⟨before, after, rfl⟩ := List.append_of_mem member
  have moved : (before ++ a :: after).Perm (a :: (before ++ after)) := List.perm_middle
  exact ⟨a, before ++ after, moved, rfl, ((moved.map f).symm.trans h).cons_inv⟩

/-! ## Clashes -/

namespace Overload

/-- What counts of a getter: its type, and whether its name starts with `is`. -/
def key (o : Overload) : TypeId × Bool := (o.type, o.startsWithIs)

/-- Whether getters of two keys leave a choice. -/
def Apart (j k : TypeId × Bool) : Prop :=
  j.1 = k.1 → j.1 = Primitive.boolean.typeId ∧ j.2 ≠ k.2

theorem Apart.symm {j k : TypeId × Bool} (h : Apart j k) : Apart k j := by
  intro same
  obtain ⟨boolean, differ⟩ := h same.symm
  exact ⟨same.trans boolean, differ.symm⟩

theorem clashes_eq_false {a b : Overload} : a.clashes b = false ↔ Apart a.key b.key := by
  simp only [clashes, Apart, key, Bool.and_eq_false_imp, Bool.or_eq_false_iff, beq_iff_eq,
    bne_eq_false_iff_eq, beq_eq_false_iff_ne]

theorem anyClash_eq_false {l : List Overload} :
    anyClash l = false ↔ (l.map key).Pairwise Apart := by
  induction l with
  | nil => simp [anyClash]
  | cons a rest ih =>
    rw [anyClash, List.map_cons, List.pairwise_cons, Bool.or_eq_false_iff, ih]
    simp [clashes_eq_false]

end Overload

namespace Registry
variable {r s : Registry}

/-! ## The order that choices rely on -/

/-- Whether subtyping always answers for declared types, and is antisymmetric. -/
structure SubtypeOrder (r : Registry) : Prop where
  answers : ∀ t u, r.Published t → r.Published u → ∃ answer, r.isAssignable t u = .ok answer
  antisymm : ∀ t u, r.isAssignable t u = .ok true → r.isAssignable u t = .ok true → t = u

theorem published_of_isAssignable {t u : TypeId} {answer : Bool} (differ : t ≠ u)
    (done : r.isAssignable t u = .ok answer) : r.Published t ∧ r.Published u := by
  rw [isAssignable_of_ne r differ] at done
  obtain ⟨d, ht, done⟩ := bind_eq_ok.mp done
  obtain ⟨e, hu, -⟩ := bind_eq_ok.mp done
  exact ⟨.of_find? (find_eq_ok.mp ht), .of_find? (find_eq_ok.mp hu)⟩

/-- Types that are assignable to one another, but for equal ones, are declared. -/
theorem Coherent.isAssignable_trans (hr : r.Coherent) (closed : r.SupertypesPublished)
    {t u v : TypeId} (htu : r.isAssignable t u = .ok true) (huv : r.isAssignable u v = .ok true) :
    r.isAssignable t v = .ok true := by
  by_cases upper : t = u
  · exact upper ▸ huv
  by_cases lower : u = v
  · exact lower ▸ htu
  obtain ⟨ht, hu⟩ := published_of_isAssignable upper htu
  obtain ⟨-, hv⟩ := published_of_isAssignable lower huv
  exact Registry.isAssignable_trans hr closed ht hu hv htu huv

theorem Coherent.subtypeOrder (hr : r.Coherent) (closed : r.SupertypesPublished)
    (acyclic : r.Acyclic) : r.SubtypeOrder where
  answers t u := isAssignable_answers hr closed
  antisymm t u htu hut := by
    by_cases same : t = u
    · exact same
    obtain ⟨ht, hu⟩ := published_of_isAssignable same htu
    have below := (isAssignable_eq_true hr closed ht hu).mp htu
    have above := (isAssignable_eq_true hr closed hu ht).mp hut
    exact above.antisymm hr acyclic below

/-- Below a type that is comparable with all the others, any two of them can be compared. -/
theorem SubtypeOrder.answers_among (order : r.SubtypeOrder) {t : TypeId} {types : List TypeId}
    (declared : ∀ u ∈ types, u ≠ t → r.Published t ∧ r.Published u) :
    ∀ u ∈ types, ∀ v ∈ types, ∃ answer, r.isAssignable u v = .ok answer := by
  intro u hu v hv
  by_cases ht : r.Published t
  · have all (w : TypeId) (hw : w ∈ types) : r.Published w := by
      by_cases same : w = t
      · exact same ▸ ht
      · exact (declared w hw same).2
    exact order.answers u v (all u hu) (all v hv)
  · -- nothing but `t` itself is among them
    have all (w : TypeId) (hw : w ∈ types) : w = t := by
      by_contra differ
      exact ht (declared w hw differ).1
    refine ⟨true, ?_⟩
    rw [isAssignable, if_pos ((all u hu).trans (all v hv).symm)]

/-- Whether a type is assignable to the types of all overloads. -/
def BelowAll (r : Registry) (t : TypeId) (all : List Overload) : Prop :=
  ∀ b ∈ all, r.isAssignable b.type t = .ok true

/-! ## Getters -/

/-- Whether getter `a` is to be preferred to all others. -/
def Wins (r : Registry) (a : Overload) (others : List Overload) : Prop :=
  ∀ b ∈ others, r.prefersGetter a b = .ok true

theorem prefersGetter_answers {a b : Overload}
    (h : ∃ answer, r.isAssignable b.type a.type = .ok answer) :
    ∃ answer, r.prefersGetter a b = .ok answer := by
  rw [prefersGetter]
  split
  · exact ⟨_, rfl⟩
  · exact h

theorem prefersToAll_eq_true {a : Overload} {others : List Overload} :
    r.prefersToAll a others = .ok true ↔ r.Wins a others := by
  induction others with
  | nil => simp [prefersToAll, Wins]
  | cons b rest ih =>
    rw [prefersToAll, Wins, List.forall_mem_cons, ← Wins, ← ih, bind_eq_ok]
    constructor
    · rintro ⟨preferred, first, rest⟩
      cases preferred with
      | true => exact ⟨first, rest⟩
      | false => cases rest
    · rintro ⟨first, rest⟩
      exact ⟨true, first, rest⟩

theorem prefersToAll_answers {a : Overload} {others : List Overload}
    (h : ∀ b ∈ others, ∃ answer, r.prefersGetter a b = .ok answer) :
    ∃ answer, r.prefersToAll a others = .ok answer := by
  induction others with
  | nil => exact ⟨true, rfl⟩
  | cons b rest ih =>
    obtain ⟨first, later⟩ := List.forall_mem_cons.mp h
    obtain ⟨preferred, done⟩ := first
    rw [prefersToAll, done]
    cases preferred with
    | true => exact ih later
    | false => exact ⟨false, rfl⟩

theorem wins_of_preferredGetter? {before after : List Overload} {w : Overload}
    (done : r.preferredGetter? before after = .ok (some w)) :
    ∃ l l', after = l ++ w :: l' ∧ r.Wins w (before ++ l ++ l') := by
  induction after generalizing before with
  | nil => cases done
  | cons a after ih =>
    rw [preferredGetter?, bind_eq_ok] at done
    obtain ⟨preferred, first, done⟩ := done
    cases preferred with
    | true =>
      cases done
      exact ⟨[], after, rfl, by simpa using prefersToAll_eq_true.mp first⟩
    | false =>
      obtain ⟨l, l', rfl, wins⟩ := ih done
      exact ⟨a :: l, l', rfl, by simpa using wins⟩

theorem preferredGetter?_answers {before after : List Overload}
    (answers : ∀ a ∈ before ++ after, ∀ b ∈ before ++ after,
      ∃ answer, r.prefersGetter a b = .ok answer) :
    ∃ found, r.preferredGetter? before after = .ok found := by
  induction after generalizing before with
  | nil => exact ⟨none, rfl⟩
  | cons a after ih =>
    have everywhere : before ++ [a] ++ after = before ++ a :: after := by simp
    have comparable : ∀ b ∈ before ++ after, ∃ answer, r.prefersGetter a b = .ok answer := by
      intro b member
      refine answers a (by simp) b ?_
      simp only [List.mem_append, List.mem_cons] at member ⊢
      tauto
    obtain ⟨preferred, first⟩ := prefersToAll_answers comparable
    rw [preferredGetter?, first]
    cases preferred with
    | true => exact ⟨some a, rfl⟩
    | false => exact ih (everywhere ▸ answers)

theorem not_wins_of_preferredGetter? {before l l' : List Overload} {w : Overload}
    (done : r.preferredGetter? before (l ++ w :: l') = .ok none) :
    ¬ r.Wins w (before ++ l ++ l') := by
  intro wins
  induction l generalizing before with
  | nil =>
    rw [List.append_nil] at wins
    rw [List.nil_append, preferredGetter?, prefersToAll_eq_true.mpr wins] at done
    cases done
  | cons a l ih =>
    rw [List.cons_append, preferredGetter?, bind_eq_ok] at done
    obtain ⟨preferred, -, done⟩ := done
    cases preferred with
    | true => cases done
    | false => exact ih done (by simpa using wins)

theorem preferredGetter?_of_wins {before l l' : List Overload} {w : Overload}
    (answers : ∀ a ∈ before ++ (l ++ w :: l'), ∀ b ∈ before ++ (l ++ w :: l'),
      ∃ answer, r.prefersGetter a b = .ok answer)
    (wins : r.Wins w (before ++ l ++ l')) :
    ∃ o, r.preferredGetter? before (l ++ w :: l') = .ok (some o) := by
  obtain ⟨found, done⟩ := preferredGetter?_answers answers
  cases found with
  | none => exact absurd wins (not_wins_of_preferredGetter? done)
  | some o => exact ⟨o, done⟩

/-- Where one getter is preferred to all others, any two of them can be compared. -/
theorem Wins.answers (order : r.SubtypeOrder) {w : Overload} {others : List Overload}
    (wins : r.Wins w others) :
    ∀ a ∈ w :: others, ∀ b ∈ w :: others, ∃ answer, r.prefersGetter a b = .ok answer := by
  have declared : ∀ u ∈ (w :: others).map Overload.type, u ≠ w.type →
      r.Published w.type ∧ r.Published u := by
    intro u hu differ
    obtain ⟨a, ha, rfl⟩ := List.mem_map.mp hu
    rcases List.mem_cons.mp ha with rfl | other
    · exact absurd rfl differ
    · have preferred := wins a other
      rw [prefersGetter, if_neg differ.symm] at preferred
      exact (published_of_isAssignable differ preferred).symm
  exact fun a ha b hb => prefersGetter_answers
    (order.answers_among declared _ (List.mem_map_of_mem hb) _ (List.mem_map_of_mem ha))

/-- Two getters that are preferred to each other have one type. -/
theorem type_eq_of_prefersGetter (order : r.SubtypeOrder) {a b : Overload}
    (hab : r.prefersGetter a b = .ok true) (hba : r.prefersGetter b a = .ok true) :
    a.type = b.type := by
  by_contra differ
  rw [prefersGetter, if_neg differ] at hab
  rw [prefersGetter, if_neg (Ne.symm differ)] at hba
  exact differ (order.antisymm _ _ hba hab)

theorem Wins.type_eq (order : r.SubtypeOrder) {l as bs : List Overload} {a b : Overload}
    (ha : l.Perm (a :: as)) (hb : l.Perm (b :: bs)) (a_wins : r.Wins a as) (b_wins : r.Wins b bs) :
    a.type = b.type := by
  have b_listed := ha.mem_iff.mp (hb.mem_iff.mpr List.mem_cons_self)
  have a_listed := hb.mem_iff.mp (ha.mem_iff.mpr List.mem_cons_self)
  rcases List.mem_cons.mp b_listed with rfl | b_other
  · rfl
  · rcases List.mem_cons.mp a_listed with rfl | a_other
    · rfl
    · exact type_eq_of_prefersGetter order (a_wins b b_other) (b_wins a a_other)

theorem prefersGetter_congr (same : ∀ t u, r.isAssignable t u = s.isAssignable t u)
    {a b a' b' : Overload} (ha : a.key = a'.key) (hb : b.key = b'.key) :
    r.prefersGetter a b = s.prefersGetter a' b' := by
  obtain ⟨type_a, is_a⟩ := Prod.mk.inj ha
  obtain ⟨type_b, is_b⟩ := Prod.mk.inj hb
  rw [prefersGetter, prefersGetter, type_a, type_b, is_a, is_b, same]

theorem chooseGetter_eq_ok {property : String} {first : Overload} {others : List Overload}
    {m : Method} (done : r.chooseGetter property first others = .ok m) :
    ((first :: others).map Overload.key).Pairwise Overload.Apart ∧
      ∃ w ws, (first :: others).Perm (w :: ws) ∧ w.method = m ∧ r.Wins w ws := by
  unfold chooseGetter at done
  dsimp only at done
  split at done
  · obtain ⟨_, _, done⟩ := bind_eq_ok.mp done
    cases done
  · rename_i apart
    obtain ⟨winner, found, done⟩ := bind_eq_ok.mp done
    cases winner with
    | none =>
      obtain ⟨_, _, done⟩ := bind_eq_ok.mp done
      cases done
    | some w =>
      cases done
      obtain ⟨l, l', split, wins⟩ := wins_of_preferredGetter? found
      refine ⟨Overload.anyClash_eq_false.mp (Bool.eq_false_iff.mpr apart), w, l ++ l', ?_, rfl,
        by simpa using wins⟩
      rw [split]
      exact List.perm_middle

theorem chooseGetter_eq_error {property owner : String} {first : Overload} {others : List Overload}
    {fault : Fault} (named : r.fullName first.method.declaring = .ok owner)
    (answers : ∀ a ∈ first :: others, ∀ b ∈ first :: others,
      ∃ answer, r.prefersGetter a b = .ok answer)
    (failed : r.chooseGetter property first others = .error fault) :
    fault = .ambiguousGetter property owner := by
  obtain ⟨found, searched⟩ : ∃ found, r.preferredGetter? [] (first :: others) = .ok found :=
    preferredGetter?_answers answers
  unfold chooseGetter at failed
  simp only [named, searched] at failed
  split at failed
  · cases failed
    rfl
  · cases found <;> cases failed
    rfl

theorem chooseGetter_of_wins (order : r.SubtypeOrder) (property : String) {first : Overload}
    {others : List Overload}
    (apart : ((first :: others).map Overload.key).Pairwise Overload.Apart) {w : Overload}
    {ws : List Overload} (split : (first :: others).Perm (w :: ws)) (wins : r.Wins w ws) :
    ∃ m, r.chooseGetter property first others = .ok m := by
  obtain ⟨l, l', moved⟩ := List.append_of_mem (split.mem_iff.mpr List.mem_cons_self)
  have rest : (l ++ l').Perm ws := by
    rw [moved] at split
    exact (List.perm_middle.symm.trans split).cons_inv
  have answers : ∀ a ∈ [] ++ l ++ w :: l', ∀ b ∈ [] ++ l ++ w :: l',
      ∃ answer, r.prefersGetter a b = .ok answer := by
    intro a ha b hb
    rw [List.nil_append, ← moved] at ha hb
    exact wins.answers order a (split.mem_iff.mp ha) b (split.mem_iff.mp hb)
  have beats : r.Wins w ([] ++ l ++ l') := fun b member => wins b (rest.mem_iff.mp member)
  obtain ⟨o, found⟩ := preferredGetter?_of_wins answers beats
  rw [← moved] at found
  refine ⟨o.method, ?_⟩
  unfold chooseGetter
  dsimp only
  rw [if_neg (Bool.eq_false_iff.mp (Overload.anyClash_eq_false.mpr apart)), found]
  rfl

/-- Whether there is a choice among getters, and of which type, depends on their keys alone. -/
theorem chooseGetter_reordered (same : ∀ t u, r.isAssignable t u = s.isAssignable t u)
    (order : s.SubtypeOrder) {property : String} {first first' : Overload}
    {others others' : List Overload}
    (keys : ((first :: others).map Overload.key).Perm ((first' :: others').map Overload.key))
    {m : Method} (done : r.chooseGetter property first others = .ok m) :
    ∃ m', s.chooseGetter property first' others' = .ok m' ∧
      ∃ w ∈ first :: others, ∃ w' ∈ first' :: others', w.method = m ∧ w'.method = m' ∧
        w.type = w'.type := by
  obtain ⟨apart, w, ws, split, rfl, wins⟩ := chooseGetter_eq_ok done
  have apart' := (keys.pairwise_iff Overload.Apart.symm).mp apart
  obtain ⟨v, vs, split', key, rest⟩ := exists_perm_cons_of_map (keys.symm.trans (split.map _))
  have v_wins : s.Wins v vs := by
    intro b member
    obtain ⟨b', member', key'⟩ := List.mem_map.mp (rest.mem_iff.mp (List.mem_map_of_mem member))
    rw [← prefersGetter_congr same key.symm key']
    exact wins b' member'
  obtain ⟨m', chosen⟩ := chooseGetter_of_wins order property apart' split' v_wins
  obtain ⟨-, w', ws', split'', named, w'_wins⟩ := chooseGetter_eq_ok chosen
  have type : w.type = v.type := (congrArg Prod.fst key).symm
  exact ⟨m', chosen, w, split.mem_iff.mpr List.mem_cons_self, w',
    split''.mem_iff.mpr List.mem_cons_self, rfl, named,
    type.trans (Wins.type_eq order split' split'' v_wins w'_wins)⟩

/-! ## Setters -/

theorem assignableToAll_eq_true {t : TypeId} {all : List Overload} :
    r.assignableToAll t all = .ok true ↔ r.BelowAll t all := by
  induction all with
  | nil => simp [assignableToAll, BelowAll]
  | cons b rest ih =>
    rw [assignableToAll, BelowAll, List.forall_mem_cons, ← BelowAll, ← ih, bind_eq_ok]
    constructor
    · rintro ⟨below, first, rest⟩
      cases below with
      | true => exact ⟨first, rest⟩
      | false => cases rest
    · rintro ⟨first, rest⟩
      exact ⟨true, first, rest⟩

theorem not_belowAll {t : TypeId} {all : List Overload}
    (done : r.assignableToAll t all = .ok false) : ¬ r.BelowAll t all := by
  intro below
  rw [assignableToAll_eq_true.mpr below] at done
  cases done

theorem assignableToAll_answers {t : TypeId} {all : List Overload}
    (h : ∀ b ∈ all, ∃ answer, r.isAssignable b.type t = .ok answer) :
    ∃ answer, r.assignableToAll t all = .ok answer := by
  induction all with
  | nil => exact ⟨true, rfl⟩
  | cons b rest ih =>
    obtain ⟨⟨below, done⟩, later⟩ := List.forall_mem_cons.mp h
    rw [assignableToAll, done]
    cases below with
    | true => exact ih later
    | false => exact ⟨false, rfl⟩

/-- The setter found has a type that is assignable to all; those before it have none. -/
theorem narrowestSetter?_eq_some {all rest : List Overload} {w : Overload}
    (done : r.narrowestSetter? all rest = .ok (some w)) :
    ∃ l l', rest = l ++ w :: l' ∧ r.BelowAll w.type all ∧ ∀ o ∈ l, ¬ r.BelowAll o.type all := by
  induction rest with
  | nil => cases done
  | cons a rest ih =>
    rw [narrowestSetter?, bind_eq_ok] at done
    obtain ⟨narrowest, first, done⟩ := done
    cases narrowest with
    | true =>
      cases done
      exact ⟨[], rest, rfl, assignableToAll_eq_true.mp first, by simp⟩
    | false =>
      obtain ⟨l, l', rfl, below, earlier⟩ := ih done
      exact ⟨a :: l, l', rfl, below, List.forall_mem_cons.mpr ⟨not_belowAll first, earlier⟩⟩

theorem narrowestSetter?_answers {all rest : List Overload}
    (answers : ∀ a ∈ rest, ∀ b ∈ all, ∃ answer, r.isAssignable b.type a.type = .ok answer) :
    ∃ found, r.narrowestSetter? all rest = .ok found := by
  induction rest with
  | nil => exact ⟨none, rfl⟩
  | cons a rest ih =>
    obtain ⟨here, later⟩ := List.forall_mem_cons.mp answers
    obtain ⟨narrowest, first⟩ := assignableToAll_answers here
    rw [narrowestSetter?, first]
    cases narrowest with
    | true => exact ⟨some a, rfl⟩
    | false => exact ih later

theorem not_below_of_narrowestSetter? {all rest : List Overload} {w : Overload}
    (done : r.narrowestSetter? all rest = .ok none) (member : w ∈ rest) :
    ¬ r.BelowAll w.type all := by
  induction rest with
  | nil => cases member
  | cons a rest ih =>
    rw [narrowestSetter?, bind_eq_ok] at done
    obtain ⟨narrowest, first, done⟩ := done
    cases narrowest with
    | true => cases done
    | false =>
      rcases List.mem_cons.mp member with rfl | member
      · exact not_belowAll first
      · exact ih done member

theorem narrowestSetter?_finds {all rest : List Overload} {w : Overload} (member : w ∈ rest)
    (answers : ∀ a ∈ rest, ∀ b ∈ all, ∃ answer, r.isAssignable b.type a.type = .ok answer)
    (below : r.BelowAll w.type all) : ∃ o, r.narrowestSetter? all rest = .ok (some o) := by
  obtain ⟨found, done⟩ := narrowestSetter?_answers answers
  cases found with
  | none => exact absurd below (not_below_of_narrowestSetter? done member)
  | some o => exact ⟨o, done⟩

/-- Whether `t`, of the types that the setters of a property take, is the one that counts: the type
that is read, or where there is none, a type that is assignable to all. -/
def NarrowestFor (r : Registry) (readType : Option TypeId) (types : List TypeId) (t : TypeId) :
    Prop :=
  t ∈ types ∧ (some t = readType ∨
    (∀ u ∈ types, some u ≠ readType) ∧ ∀ u ∈ types, r.isAssignable u t = .ok true)

theorem NarrowestFor.unique (order : r.SubtypeOrder) {readType : Option TypeId}
    {types : List TypeId} {t u : TypeId} (ht : r.NarrowestFor readType types t)
    (hu : r.NarrowestFor readType types u) : t = u := by
  obtain ⟨t_listed, t_counts⟩ := ht
  obtain ⟨u_listed, u_counts⟩ := hu
  rcases t_counts with t_read | ⟨unread, t_below⟩
  · rcases u_counts with u_read | ⟨unread, -⟩
    · exact Option.some.inj (t_read.trans u_read.symm)
    · exact absurd t_read (unread t t_listed)
  · rcases u_counts with u_read | ⟨-, u_below⟩
    · exact absurd u_read (unread u u_listed)
    · exact order.antisymm t u (u_below t t_listed) (t_below u u_listed)

theorem NarrowestFor.reordered (same : ∀ t u, r.isAssignable t u = s.isAssignable t u)
    {readType : Option TypeId} {types types' : List TypeId} (perm : types.Perm types') {t : TypeId}
    (h : r.NarrowestFor readType types t) : s.NarrowestFor readType types' t := by
  refine ⟨perm.mem_iff.mp h.1, h.2.imp_right fun ⟨unread, below⟩ => ⟨?_, ?_⟩⟩
  · exact fun u hu => unread u (perm.mem_iff.mpr hu)
  · exact fun u hu => same u t ▸ below u (perm.mem_iff.mpr hu)

theorem chooseSetter_eq_ok {property : String} {readType : Option TypeId} {a b : Overload}
    {others : List Overload} {m : Method}
    (done : r.chooseSetter property readType a b others = .ok m) :
    ∃ w ∈ a :: b :: others, w.method = m ∧
      r.NarrowestFor readType ((a :: b :: others).map Overload.type) w.type := by
  unfold chooseSetter at done
  dsimp only at done
  cases matching : (a :: b :: others).find? (some ·.type == readType) with
  | some w =>
    rw [matching] at done
    cases done
    have member := List.mem_of_find?_eq_some matching
    have read := List.find?_some matching
    exact ⟨w, member, rfl, List.mem_map_of_mem member, .inl (by simpa using read)⟩
  | none =>
    rw [matching] at done
    obtain ⟨winner, found, done⟩ := bind_eq_ok.mp done
    cases winner with
    | none =>
      obtain ⟨pair, -, done⟩ := bind_eq_ok.mp done
      obtain ⟨_, -, done⟩ := bind_eq_ok.mp done
      obtain ⟨_, -, done⟩ := bind_eq_ok.mp done
      obtain ⟨_, -, done⟩ := bind_eq_ok.mp done
      cases done
    | some w =>
      cases done
      obtain ⟨l, l', split, below, -⟩ := narrowestSetter?_eq_some found
      have member : w ∈ a :: b :: others := by
        rw [← List.mem_reverse, split]
        simp
      refine ⟨w, member, rfl, List.mem_map_of_mem member, .inr ⟨?_, ?_⟩⟩
      · intro u hu
        obtain ⟨o, ho, rfl⟩ := List.mem_map.mp hu
        simpa using List.find?_eq_none.mp matching o ho
      · intro u hu
        obtain ⟨o, ho, rfl⟩ := List.mem_map.mp hu
        exact below o ho

theorem chooseSetter_of_narrowestFor (order : r.SubtypeOrder) (property : String)
    {readType : Option TypeId} {a b : Overload} {others : List Overload} {t : TypeId}
    (h : r.NarrowestFor readType ((a :: b :: others).map Overload.type) t) :
    ∃ m, r.chooseSetter property readType a b others = .ok m := by
  unfold chooseSetter
  dsimp only
  cases matching : (a :: b :: others).find? (some ·.type == readType) with
  | some w => exact ⟨w.method, rfl⟩
  | none =>
    obtain ⟨listed, counts⟩ := h
    obtain ⟨w, member, rfl⟩ := List.mem_map.mp listed
    rcases counts with read | ⟨-, below⟩
    · have unread := List.find?_eq_none.mp matching w member
      simp [read] at unread
    · have declared : ∀ u ∈ (a :: b :: others).map Overload.type, u ≠ w.type →
          r.Published w.type ∧ r.Published u := fun u hu differ =>
        (published_of_isAssignable differ (below u hu)).symm
      have answers := order.answers_among declared
      obtain ⟨o, found⟩ := narrowestSetter?_finds (List.mem_reverse.mpr member)
        (fun c hc d hd => answers _ (List.mem_map_of_mem hd) _
          (List.mem_map_of_mem (List.mem_reverse.mp hc)))
        (fun d hd => below d.type (List.mem_map_of_mem hd))
      rw [found]
      exact ⟨o.method, rfl⟩

/-- Whether there is a choice among setters, and of which type, depends on their types alone. -/
theorem chooseSetter_reordered (same : ∀ t u, r.isAssignable t u = s.isAssignable t u)
    (order : s.SubtypeOrder) {property : String} {readType : Option TypeId}
    {a b a' b' : Overload} {others others' : List Overload}
    (types : ((a :: b :: others).map Overload.type).Perm ((a' :: b' :: others').map Overload.type))
    {m : Method} (done : r.chooseSetter property readType a b others = .ok m) :
    ∃ m', s.chooseSetter property readType a' b' others' = .ok m' ∧
      ∃ w ∈ a :: b :: others, ∃ w' ∈ a' :: b' :: others', w.method = m ∧ w'.method = m' ∧
        w.type = w'.type := by
  obtain ⟨w, member, rfl, narrowest⟩ := chooseSetter_eq_ok done
  have moved := narrowest.reordered same types
  obtain ⟨m', chosen⟩ := chooseSetter_of_narrowestFor order property moved
  obtain ⟨w', member', named, narrowest'⟩ := chooseSetter_eq_ok chosen
  exact ⟨m', chosen, w, member, w', member', rfl, named, moved.unique order narrowest'⟩

end Registry

end PropertyTables
