import ClassLang.Proofs.Order.Bodies
import ClassLang.Proofs.Order.Checks
import ClassLang.Proofs.Resolve.Cascade

/-!
# Resolution in two orders

The bodies of functions are resolved one item after the other.  They change no entry that was there
and only nodes of their own (`Script.round_bodies`), so two scripts with the same items agree
behind resolution, and one is resolved without a report if and only if the other is
(`Script.Reordered.paired_resolvedContext`).
-/

open List (Forall₂)

namespace ClassLang

open Analysis

/-! ## Bodies -/

/-- Resolves the bodies of the functions of an item. -/
def Item.resolveBodies (item : Item) : Analysis PUnit := do
  let _ ← FunctionDecl.resolveBodies item.functions

/-- Bodies item by item are all bodies. -/
theorem Item.forM_resolveBodies (items : List Item) (ctx : Context) :
    ((items.forM Item.resolveBodies).run ctx).2 =
      ((FunctionDecl.resolveBodies (items.flatMap Item.functions)).run ctx).2 := by
  induction items generalizing ctx with
  | nil => rfl
  | cons item rest ih =>
      rw [List.flatMap_cons, FunctionDecl.resolveBodies_append]
      exact ih _

/-- Bodies that are resolved leave the entries alone. -/
theorem Context.Spares.ofAdvances {nodes : List NodeId} {c d : Context} (h : Advances nodes [] c d)
    (hd : d.scopes.Descends) : Spares (fun _ => False) (· ∈ nodes) c d :=
  ofConfined h.confined
    (fun _ _ hs _ => (h.storage.get? (SymbolTable.lt_size_of_get? hs)).trans hs)
    h.extend.later hd

/-- What is known about an item whose bodies are resolved. -/
theorem Item.does_resolveBodies {script : Script} (hproper : script.Proper) {item : Item}
    (hitem : item ∈ script.items) :
    Does item.resolveBodies fun ctx _ ctx' => ctx.Ok → ctx.symbols.Resolved →
      (∀ decl ∈ item.functions, ∃ owner id, IsPrepared ctx decl owner id) →
      ctx'.Ok ∧ ctx'.symbols.Resolved ∧ Advances item.nodes [] ctx ctx' := by
  have hbodies := FunctionDecl.does_resolveBodies item.functions
    (fun decl hdecl => script.proper_functions hproper (List.mem_flatMap.2 ⟨item, hitem, hdecl⟩))
    (item.functions_sublist.nodup (Script.item_nodup hproper hitem))
  refine (hbodies.bind fun _ => does_pure PUnit.unit).mono ?_
  rintro ctx _ ctx' ⟨_, _, hrun, -, rfl⟩ hok hresolved hprepared
  obtain ⟨hok', hresolved', hadvances, -⟩ := hrun hok hresolved hprepared
  refine ⟨hok', hresolved', hadvances.mono (fun n hn => ?_) fun _ h _ => h⟩
  exact item.functions_sublist.subset (FunctionDecl.bodyNodes_subset _ hn)

namespace Script

variable {script script' : Script} {ctx ctx' : Context}

/-- The functions of a unit have their signatures. -/
structure Prepared (script : Script) (ctx : Context) : Prop where
  ok : ctx.Ok
  resolved : ctx.symbols.Resolved
  functions : ∀ item ∈ script.items, ∀ decl ∈ item.functions,
    ∃ owner id, IsPrepared ctx decl owner id

/-- As long as nothing is reported, the bodies of the first items are resolved, and the functions of
the next one are prepared still. -/
theorem Prepared.advances (h : script.Prepared ctx) (hproper : script.Proper) {k : Nat}
    (hk : k ≤ script.items.length)
    (hclean : (upTo Item.resolveBodies script.items ctx k).Clean) :
    (upTo Item.resolveBodies script.items ctx k).Ok ∧
      (upTo Item.resolveBodies script.items ctx k).symbols.Resolved ∧
      Advances ((script.items.take k).flatMap Item.nodes) [] ctx
        (upTo Item.resolveBodies script.items ctx k) ∧
      ∀ item, script.items[k]? = some item → ∀ decl ∈ item.functions,
        ∃ owner id, IsPrepared (upTo Item.resolveBodies script.items ctx k) decl owner id := by
  have hnext : ∀ {k c}, Advances ((script.items.take k).flatMap Item.nodes) [] ctx c →
      ∀ item, script.items[k]? = some item → ∀ decl ∈ item.functions,
        ∃ owner id, IsPrepared c decl owner id := by
    intro k c hadvances item hitem decl hdecl
    obtain ⟨hlt, rfl⟩ := List.getElem?_eq_some_iff.1 hitem
    obtain ⟨owner, id, hprepared⟩ := h.functions _ (List.getElem_mem hlt) decl hdecl
    refine ⟨owner, id, hprepared.confined h.ok.tree hadvances.confined hadvances.extend.later
      (by simp) fun n hn hmem => ?_⟩
    have hnodup := hproper.nodup
    rw [Script.nodes, ← List.take_append_drop k script.items, List.drop_eq_getElem_cons hlt,
      List.flatMap_append, List.flatMap_cons] at hnodup
    refine (List.nodup_append.1 hnodup).2.2 n hmem n (List.mem_append_left _ ?_) rfl
    exact (script.items[k]).functions_sublist.subset (List.mem_flatMap.2 ⟨decl, hdecl, hn⟩)
  induction k with
  | zero =>
      have hrefl : Advances ((script.items.take 0).flatMap Item.nodes) [] ctx ctx :=
        ⟨.refl _ _ _, .refl _⟩
      exact ⟨h.ok, h.resolved, hrefl, hnext hrefl⟩
  | succ k ih =>
      have hget : script.items[k]? = some script.items[k] := List.getElem?_eq_getElem hk
      rw [upTo_succ hget] at hclean ⊢
      obtain ⟨hbefore, hstep⟩ :=
        Item.does_resolveBodies hproper (List.getElem_mem hk) _ _ _ rfl hclean
      obtain ⟨hok, hresolved, hadvances, hprepared⟩ := ih (Nat.le_of_succ_le hk) hbefore
      obtain ⟨hok', hresolved', hadvances'⟩ := hstep hok hresolved (hprepared _ hget)
      have hall : Advances ((script.items.take (k + 1)).flatMap Item.nodes) [] ctx
          ((script.items[k]).resolveBodies.run (upTo Item.resolveBodies script.items ctx k)).2 := by
        rw [List.take_add_one, hget, Option.toList_some, List.flatMap_append,
          List.flatMap_singleton]
        exact (hadvances.mono (List.subset_append_left _ _) fun _ h _ => h).trans
          (hadvances'.mono (List.subset_append_right _ _) fun _ h _ => h)
      exact ⟨hok', hresolved', hall, hnext hall⟩

/-- Resolving bodies is a round over the items. -/
theorem round_bodies (hproper : script.Proper) (h : script.Prepared ctx) {ι : Type} {g : ι → Item}
    {all : List ι} (hall : all.map g = script.items) :
    Round (fun a => (g a).resolveBodies) all (fun _ _ => False) (fun a n => n ∈ (g a).nodes)
      ctx where
  nodup := (hall ▸ (Script.ids_nodup hproper).of_map).of_map
  descends := h.ok.tree
  step := by
    intro k a hget hclean
    have hk : k < script.items.length := by
      rw [← hall, List.length_map]
      exact (List.getElem?_eq_some_iff.1 hget).1
    have hitem : script.items[k]? = some (g a) := by
      rw [← hall, List.getElem?_map, hget, Option.map_some]
    have hmem : g a ∈ script.items := List.mem_of_getElem? hitem
    simp only [upTo_map, hall] at hclean ⊢
    rw [upTo_succ hitem] at hclean ⊢
    obtain ⟨hbefore, hstep⟩ := Item.does_resolveBodies hproper hmem _ _ _ rfl hclean
    obtain ⟨hok, hresolved, -, hprepared⟩ := h.advances hproper (Nat.le_of_lt hk) hbefore
    obtain ⟨hok', -, hadvances⟩ := hstep hok hresolved (hprepared _ hitem)
    exact ⟨hbefore, .ofAdvances hadvances hok'.tree⟩

namespace Reordered

/-- **When all bodies are resolved, the scripts agree**, and if nothing was reported in one of them,
nothing was in the other. -/
theorem paired_bodies (h : Reordered script script') {m : Pairing}
    (hpaired : Context.Paired h.part m ctx ctx') (hprepared : script.Prepared ctx)
    (hprepared' : script'.Prepared ctx')
    (hclean : ((script.items.forM Item.resolveBodies).run ctx).2.Clean) :
    ∃ m', m ≤ m' ∧ Context.Paired h.part m' ((script.items.forM Item.resolveBodies).run ctx).2
      ((script'.items.forM Item.resolveBodies).run ctx').2 := by
  obtain ⟨pairs, pairs', hpairs, hpairs', hperm, htwins⟩ := h.exists_pairs (.refl _) (.refl _)
  have hmem : ∀ {item item'}, Twins script script' item item' → (item, item') ∈ pairs := by
    intro item item' hitem
    obtain ⟨pair, hpair, rfl⟩ := List.mem_map.1 (hpairs ▸ hitem.mem)
    rwa [h.twins_unique.2 hitem (htwins pair hpair)]
  have hdivision : Division pairs NodesOf (fun _ _ => False) (fun _ _ => False)
      (fun a n => n ∈ a.1.nodes) (fun a n => n ∈ a.2.nodes) m ctx ctx' :=
    { uniqueNodes := h.nodes_unique_of_pairs htwins
      apart := h.nodes_apart htwins
      owned := fun _ _ _ _ _ => .rfl
      ownApart := fun _ _ _ _ _ hi => hi.elim
      known := fun _ _ _ hi => hi.elim
      known' := fun _ _ _ hj => hj.elim
      bound := fun _ _ _ _ _ _ _ _ _ _ hi => hi }
  have hrounds : Rounds pairs pairs' NodesOf (fun _ _ => False) (fun _ _ => False)
      (fun a n => n ∈ a.1.nodes) (fun a n => n ∈ a.2.nodes) m (fun a => a.1.resolveBodies)
      (fun a => a.2.resolveBodies) ctx ctx' :=
    { division := hdivision
      perm := hperm
      first := round_bodies h.proper hprepared hpairs
      second := round_bodies h.proper' hprepared' hpairs'
      inStep := fun a ha => by
        have hfunctions := (Item.paired_of_bare (htwins a ha).bare (htwins a ha).nodes).functions
        have hshown : ∀ i, ¬ (hdivision.part ha).hidden i := fun i ⟨_, _, _, hi⟩ => hi
        exact (FunctionDecl.inStep_resolveBodies hfunctions hshown).bind fun _ _ _ _ _ =>
          inStep_pure trivial
      paired := hpaired.restrict (fun n n' ⟨a, ha, hn⟩ => ⟨a, htwins a ha, hn⟩) fun _ => .rfl
      clean := by rwa [upTo_map_length hpairs] }
  obtain ⟨m', hle, hpaired'⟩ := hrounds.paired_end
  rw [upTo_map_length hpairs, upTo_map_length hpairs'] at hpaired'
  exact ⟨m', hle, hpaired'.restrict (fun n n' ⟨a, ha, hn⟩ => ⟨a, hmem ha, hn⟩) fun _ => .rfl⟩

end Reordered

/-! ## Resolution -/

/-- The context in which members are declared. -/
def filledContext (script : Script) : Context :=
  ((script.fillOrder.forM Item.fill).run script.parentedContext).2

/-- Resolution gives classes their parents, fills in items, checks the unit and resolves bodies. -/
theorem resolvedContext_eq (script : Script) : script.resolvedContext =
    ((script.items.forM Item.resolveBodies).run (script.check.run script.filledContext).2).2 := by
  have hdeclarations : (script.resolveDeclarations.run script.declaredContext).2 =
      (script.check.run script.filledContext).2 := by
    rw [resolveDeclarations_eq]
    rfl
  rw [Item.forM_resolveBodies, ← hdeclarations]
  rfl

/-- What is known about a unit that was resolved without a report. -/
theorem filled_of_clean (hproper : script.Proper) (hclean : script.resolvedContext.Clean) :
    script.parentedContext.Clean ∧ script.filledContext.Clean ∧ script.Passes script.filledContext ∧
      script.resolvedContext =
        ((script.items.forM Item.resolveBodies).run script.filledContext).2 := by
  have hbodies : Does (script.items.forM Item.resolveBodies) fun _ _ _ => True := by
    refine (does_forM (I := fun _ _ => True) fun done item rest hall => ?_).mono
      fun _ _ _ _ => trivial
    have hitem : item ∈ script.items := by simp [hall]
    exact (Item.does_resolveBodies hproper hitem).mono fun _ _ _ _ _ => trivial
  have heq := script.resolvedContext_eq
  obtain ⟨hchecked, -⟩ := hbodies _ _ _ rfl (heq ▸ hclean)
  obtain ⟨hfilled, hsame, hpasses⟩ := script.does_check script.filledContext () _ rfl hchecked
  have hchecked : (script.check.run script.filledContext).2 = script.filledContext := hsame
  rw [hchecked] at heq
  exact ⟨(script.does_fill hproper _ _ _ rfl hfilled).1, hfilled, hpasses, heq⟩

/-- What is resolved without a report was declared without one. -/
theorem clean_declaredContext (hproper : script.Proper) (hclean : script.resolvedContext.Clean) :
    script.declaredContext.Clean :=
  (script.does_bindParents _ _ _ rfl (filled_of_clean hproper hclean).1).1

/-- The names of a unit that is resolved without a report are different, so that the items of
another one in another order correspond to its items. -/
theorem reordered_of_clean (hproper : script.Proper) (hproper' : script'.Proper)
    (hitems : (script.items.map Item.bare).Perm (script'.items.map Item.bare))
    (hclean : script.resolvedContext.Clean) : Reordered script script' :=
  ⟨hproper, hproper', hitems,
    script.clean_declaredContext_iff.1 (clean_declaredContext hproper hclean)⟩

/-- When items are filled in, functions have their signatures. -/
theorem prepared_filledContext (hproper : script.Proper) (ho : script.Outset script.parentedContext)
    (hclean : script.filledContext.Clean) : script.Prepared script.filledContext := by
  have hsettled := (script.does_fill hproper _ _ _ rfl hclean).2 ho.outline ho.parents
  refine ⟨hsettled.ok, hsettled.resolved, fun item hitem decl hdecl => ?_⟩
  obtain ⟨id, hfilled⟩ := hsettled.filled item hitem
  exact hfilled.function hdecl

/-- **A script is resolved without a report in any order of its items**, and the two scripts agree
then. -/
theorem Reordered.paired_resolvedContext (h : Reordered script script')
    (hclean : script.resolvedContext.Clean) : script'.resolvedContext.Clean ∧
      ∃ m : Pairing, m.symbols SymbolTable.rootClass SymbolTable.rootClass ∧
        Context.Paired h.part m script.resolvedContext script'.resolvedContext := by
  obtain ⟨hparented, hfilled, hpasses, heq⟩ := filled_of_clean h.proper hclean
  obtain ⟨-, hparented'⟩ := h.clean_parentedContext hparented
  have ho := outset h.proper hparented
  have ho' := outset h.proper' hparented'
  obtain ⟨m₁, hle₁, hpaired₁⟩ : ∃ m, h.outsetPairing ho ho' ≤ m ∧
      Context.Paired h.part m script.filledContext script'.filledContext :=
    h.paired_members ho ho' hfilled
  have hroot : m₁.symbols SymbolTable.rootClass SymbolTable.rootClass :=
    hle₁.symbols (.inl ⟨rfl, by decide⟩)
  have hfilled' : script'.filledContext.Clean := hpaired₁.clean.2 hfilled
  have heq' : script'.resolvedContext =
      ((script'.items.forM Item.resolveBodies).run script'.filledContext).2 := by
    rw [resolvedContext_eq, run_check (h.passes hpaired₁ hroot hpasses)]
  obtain ⟨m₂, hle₂, hpaired₂⟩ := h.paired_bodies hpaired₁
    (prepared_filledContext h.proper ho hfilled) (prepared_filledContext h.proper' ho' hfilled')
    (heq ▸ hclean)
  rw [← heq, ← heq'] at hpaired₂
  exact ⟨hpaired₂.clean.2 hclean, m₂, hle₂.symbols hroot, hpaired₂⟩

end Script

end ClassLang
