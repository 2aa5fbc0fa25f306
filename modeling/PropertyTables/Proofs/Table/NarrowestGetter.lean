import PropertyTables.Proofs.Hierarchy.Interning
import PropertyTables.Proofs.Registry.Closed
import PropertyTables.Proofs.Table.GetterConflicts
import PropertyTables.Proofs.Table.SetterConflicts
import PropertyTables.Proofs.Table.Views

/-! # The narrowest getter

Of the getters of a property the narrowest counts. They are compared as they are declared, and the
property has the type of the winner as the owner sees it.

* `resolveGetter_below`: what the winner declares is assignable to what any candidate declares.
* `Registry.Outranks`: what follows for the types that the owner sees.
* `readType_narrowest`: a property that a getter reads outranks every candidate for it.
-/

namespace PropertyTables
set_option autoImplicit false

variable {r grown : Registry} {owner : TypeId} {property : String}

/-! ## The winner -/

/-- What the winner declares is assignable to what each of the candidates declares. -/
theorem resolveGetter_below {os : List Overload} {g : Method}
    (settled : ∀ o ∈ os, o.Settled r .read)
    (done : (resolveGetter property (os.map (·.method))).eval r = (.ok (some g), r)) :
    ∃ w ∈ os, w.method = g ∧ r.BelowAll w.type os := by
  cases os with
  | nil => cases done
  | cons first others =>
    rw [resolveGetter_made fun o listed => (settled o listed).getterOverload] at done
    have chosen := Registry.map_some_eq_ok.mp (congrArg Prod.fst done)
    obtain ⟨-, w, ws, perm, won, wins⟩ := Registry.chooseGetter_eq_ok chosen
    exact ⟨w, perm.mem_iff.mpr List.mem_cons_self, won, wins.belowAll.perm perm.symm⟩

/-- What is owed to a candidate `c` where getter `g` counts and reads a property as `type`. -/
structure Registry.Outranks (r : Registry) (owner : TypeId) (g : Method) (type : TypeId)
    (c : Method) : Prop where
  /-- What the winner declares is assignable to what the candidate declares. -/
  declared : ∃ low high, g.DeclaredAs r .read low ∧ c.DeclaredAs r .read high ∧
    r.isAssignable high low = .ok true
  /-- What is read is assignable to what the candidate is seen to return, where the owner sees no
  more in the winner's type, and no less in the candidate's, than is declared. -/
  seen : ∀ low high above, g.DeclaredAs r .read low → c.DeclaredAs r .read high →
    c.SeenAs r owner .read above → r.isAssignable low type = .ok true →
    r.isAssignable above high = .ok true → r.isAssignable above type = .ok true
  /-- So it is, in particular, where neither type is a variable. -/
  rigid : g.returns.IsRigid → c.returns.IsRigid →
    ∃ above, c.SeenAs r owner .read above ∧ r.isAssignable above type = .ok true

theorem outranks_of_declared (hr : r.Coherent) (closed : r.SupertypesPublished)
    (ho : r.Published owner) {g c : Method} {type low high : TypeId}
    (seen : g.SeenAs r owner .read type) (g_declared : g.DeclaredAs r .read low)
    (c_declared : c.DeclaredAs r .read high) (below : r.isAssignable high low = .ok true) :
    r.Outranks owner g type c where
  declared := ⟨low, high, g_declared, c_declared, below⟩
  seen low' high' above g_declared' c_declared' _ lower upper := by
    obtain rfl := g_declared'.unique g_declared
    obtain rfl := c_declared'.unique c_declared
    exact hr.isAssignable_trans closed upper (hr.isAssignable_trans closed below lower)
  rigid g_rigid c_rigid := by
    obtain rfl := g_declared.eq_of_rigid seen g_rigid
    exact ⟨high, c_declared.seenAs_of_rigid closed ho c_rigid, below⟩

/-- A property that a getter reads has the type that the owner sees in that getter, and the getter
outranks all candidates. -/
theorem readType_narrowest {limit : Nat} {t : Table} {e : Entry} {g : Method}
    (reachable : r.Reachable) (closed : r.SupertypesPublished)
    (built : (Table.build owner limit).eval r = (.ok t, grown))
    (listed : t.entry .read property = .ok e) (backed : e.accessor = .method g) :
    ∃ methods, (collectMethods owner limit).eval grown = (.ok methods, grown) ∧
      g ∈ candidates property (accessors .read methods) ∧ g.SeenAs grown owner .read e.type ∧
      ∀ c ∈ candidates property (accessors .read methods), grown.Outranks owner g e.type c := by
  have interned := (build_lasting owner limit).interns_of_eval built
  have hr := (reachable.interns interned).coherent
  have still_closed := closed.interns reachable interned
  obtain ⟨_, methods, readers, writers, sides, d, -, collected, got, -, filled, found, rfl⟩ :=
    Table.build_settled built
  have ho : grown.Published owner := .of_find? (Registry.find_eq_ok.mp found)
  have read := (addFields_filled filled).1.find?_method (Table.entry_eq_ok.mp listed) backed
  rw [getterEntries_eq] at got
  obtain ⟨-, m, resolved, made⟩ := pass_entered (fun property => resolveGetter_lasting property _)
    (getterEntry_lasting owner) got read
  obtain ⟨by_method, seen⟩ := getterEntry_seen made
  obtain rfl := Accessor.method.inj (backed.symm.trans by_method)
  obtain ⟨os, same, settled⟩ := candidates_overloads collected .read property
  rw [← same] at resolved
  obtain ⟨w, member, rfl, below⟩ := resolveGetter_below settled resolved
  refine ⟨methods, collected, ?_⟩
  rw [← same]
  refine ⟨List.mem_map_of_mem member, seen, List.forall_mem_map.mpr fun o listed => ?_⟩
  exact outranks_of_declared hr still_closed ho seen (settled w member).declaredAs
    (settled o listed).declaredAs (below o listed)

/-! ## A box of integers -/

/-- A holder of integers that has the size of a number. -/
def Registry.sizes : Registry :=
  ((((initial.declared "" "Number" .classType id).declared "" "Integer" .classType
    (·.extending (.named ⟨11⟩))).declared "" "Holder" .interfaceType
    fun d => (d.withTypeParam ⟨"T", []⟩).getter "getX" (.typeVar "T")).declared "" "Sized"
    .interfaceType (·.getter "getX" (.named ⟨11⟩))).declared "" "Box" .interfaceType
    fun d => (d.implementing (.applied ⟨13⟩ [.named ⟨12⟩])).implementing (.named ⟨14⟩)

theorem sizes_reachable : Registry.sizes.Reachable :=
  ((((Registry.Reachable.declared .refl _ _ _ _).declared _ _ _ _).declared _ _ _ _).declared
    _ _ _ _).declared _ _ _ _

def getX (declaring : TypeId) (returns : GenericType) : Method :=
  MethodDraft.finish { name := "getX", returns := some returns } declaring

theorem sizes_collected : (collectMethods ⟨15⟩ Table.defaultLimit).eval .sizes =
    (.ok [getX ⟨13⟩ (.typeVar "T"), getX ⟨14⟩ (.named ⟨11⟩)], .sizes) := by cbv

theorem exists_sizesTable : ∃ t e, (Table.build ⟨15⟩ Table.defaultLimit).eval .sizes =
    (.ok t, .sizes) ∧ t.entry .read "x" = .ok e ∧
      e.accessor = .method (getX ⟨14⟩ (.named ⟨11⟩)) ∧ e.type = ⟨11⟩ := by
  have answers : Prod.map (·.toOption.map fun t =>
      (t.readers.find? "x").map fun e => (e.accessor, e.type)) id
      ((Table.build ⟨15⟩ Table.defaultLimit).eval .sizes) =
        (some (some (.method (getX ⟨14⟩ (.named ⟨11⟩)), ⟨11⟩)), .sizes) := by cbv
  obtain ⟨t, done, view⟩ := Growing.exists_eval_of_view answers
  obtain ⟨e, found, view⟩ := Option.map_eq_some_iff.mp view
  obtain ⟨accessor, type⟩ := Prod.mk.inj view
  exact ⟨t, e, done, Table.entry_eq_ok.mpr found, accessor, type⟩

theorem sizes_candidates : candidates "x" (accessors .read
    [getX ⟨13⟩ (.typeVar "T"), getX ⟨14⟩ (.named ⟨11⟩)]) =
      [getX ⟨13⟩ (.typeVar "T"), getX ⟨14⟩ (.named ⟨11⟩)] := by cbv

/-- Of a number and a variable the number counts: the variable is declared to be any object. -/
theorem readType_narrowest_sizes :
    Registry.sizes.Reachable ∧ Registry.sizes.SupertypesPublished ∧
    ∃ t e, (Table.build ⟨15⟩ Table.defaultLimit).eval .sizes = (.ok t, .sizes) ∧
      t.entry .read "x" = .ok e ∧ e.accessor = .method (getX ⟨14⟩ (.named ⟨11⟩)) ∧
      (getX ⟨14⟩ (.named ⟨11⟩)).SeenAs .sizes ⟨15⟩ .read e.type ∧
      Registry.sizes.Outranks ⟨15⟩ (getX ⟨14⟩ (.named ⟨11⟩)) e.type (getX ⟨13⟩ (.typeVar "T")) := by
  have closed : Registry.sizes.SupertypesPublished := by decide
  obtain ⟨t, e, built, listed, backed, -⟩ := exists_sizesTable
  obtain ⟨methods, collected, -, seen, outranks⟩ :=
    readType_narrowest sizes_reachable closed built listed backed
  obtain rfl := Except.ok.inj (congrArg Prod.fst (sizes_collected.symm.trans collected))
  refine ⟨sizes_reachable, closed, t, e, built, listed, backed, seen, outranks _ ?_⟩
  rw [sizes_candidates]
  exact List.mem_cons_self

/-- The box sees an integer in the variable, which a number is not. -/
theorem readType_above_seen :
    Registry.sizes.Reachable ∧ Registry.sizes.SupertypesPublished ∧
    ∃ t e methods c above,
      (Table.build ⟨15⟩ Table.defaultLimit).eval .sizes = (.ok t, .sizes) ∧
      t.entry .read "x" = .ok e ∧ e.accessor = .method (getX ⟨14⟩ (.named ⟨11⟩)) ∧
      (collectMethods ⟨15⟩ Table.defaultLimit).eval .sizes = (.ok methods, .sizes) ∧
      c ∈ candidates "x" (accessors .read methods) ∧ c.SeenAs .sizes ⟨15⟩ .read above ∧
      Registry.sizes.isAssignable above e.type = .ok false := by
  obtain ⟨t, e, built, listed, backed, type⟩ := exists_sizesTable
  have seen : (getX ⟨13⟩ (.typeVar "T")).SeenAs .sizes ⟨15⟩ .read ⟨12⟩ :=
    ⟨.named ⟨12⟩, by cbv, rfl⟩
  refine ⟨sizes_reachable, by decide, t, e, _, _, ⟨12⟩, built, listed, backed, sizes_collected,
    ?_, seen, ?_⟩
  · rw [sizes_candidates]
    exact List.mem_cons_self
  · rw [type]
    cbv

end PropertyTables
