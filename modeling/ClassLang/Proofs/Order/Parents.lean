import ClassLang.Proofs.Order.Reordering
import ClassLang.Proofs.Resolve.Circles

/-!
# Names and parents in two orders

Binding names reports nothing if and only if no name occurs twice, and giving classes their parents
reports nothing if and only if every clause names a class and the clauses lead in no circle
(`Script.clean_parentedContext_iff`).  Neither depends on the order of the items, although at the
turn of a class other classes may not have their parents yet.
-/

open List (Forall₂)

namespace ClassLang

open Analysis Relation

/-! ## Names -/

theorem ScopeTree.lookupLocal?_initial (name : String) :
    Context.initial.scopes.lookupLocal? ScopeTree.root name = none ↔ name ≠ rootClassName := by
  by_cases h : name = rootClassName
  · subst h
    exact ⟨nofun, fun hne => absurd rfl hne⟩
  · have hne : (name == rootClassName) = false := by simpa using h
    simp [Context.initial, lookupLocal?, get?, root, Scope.get?, List.lookup_cons, hne, h]

/-- Names that are free and different are bound without a report. -/
theorem Item.clean_declareAll {items : List Item} {ctx : Context} (hclean : ctx.Clean)
    (hroot : ScopeTree.root < ctx.scopes.size)
    (hfree : ∀ item ∈ items, ctx.scopes.lookupLocal? ScopeTree.root item.name.name = none)
    (hnames : (items.map fun item => item.name.name).Nodup) :
    ((Item.declareAll items).run ctx).2.Clean := by
  induction items generalizing ctx with
  | nil => exact hclean
  | cons item rest ih =>
      have hitem := hfree item (List.mem_cons_self ..)
      rw [List.map_cons, List.nodup_cons] at hnames
      have hrest : ((Item.declareAll rest).run (ctx.declareItem item)).2.Clean := by
        refine ih hclean (by simpa [Context.declareItem] using hroot) (fun other hother => ?_)
          hnames.2
        have hne : other.name.name ≠ item.name.name := fun heq =>
          hnames.1 (heq ▸ List.mem_map_of_mem hother)
        simp only [Context.declareItem, ScopeTree.lookupLocal?_bind_same _ _ hroot hitem,
          if_neg hne]
        exact hfree other (List.mem_cons_of_mem _ hother)
      rw [Item.declareAll, StateT.run_bind, run_declare hitem]
      exact hrest

namespace Script

variable {script script' : Script}

/-- **Names are bound without a report** if and only if no two are equal. -/
theorem clean_declaredContext_iff (script : Script) : script.declaredContext.Clean ↔
    (rootClassName :: script.items.map fun item => item.name.name).Nodup := by
  constructor
  · intro hclean
    obtain ⟨-, happart⟩ := Item.does_declareAll_apart script.items .initial _ _ rfl hclean
    obtain ⟨hfree, hnames⟩ := happart (by decide)
    refine List.nodup_cons.2 ⟨fun hmem => ?_, List.pairwise_map.2 hnames⟩
    obtain ⟨item, hitem, heq⟩ := List.mem_map.1 hmem
    exact (ScopeTree.lookupLocal?_initial _).1 (hfree item hitem) heq
  · intro hnames
    obtain ⟨hroot, hnames⟩ := List.nodup_cons.1 hnames
    refine Item.clean_declareAll rfl (by decide) (fun item hitem => ?_) hnames
    exact (ScopeTree.lookupLocal?_initial _).2 fun heq => hroot (heq ▸ List.mem_map_of_mem hitem)

/-! ## Parents -/

/-- Every clause names a class, and clauses do not lead in a circle. -/
def Founded (script : Script) : Prop :=
  ∀ decl ∈ script.classes, (∃ id, script.NamesClass decl.parentName id) ∧
    ¬ SameCircle script.Extends decl decl

/-- The turn of a class goes without a report if its clause names a class and closes no circle. -/
theorem Founded.clean_contextBehind (h : script.Founded) (hdeclares : script.Declares)
    (hclean : script.declaredContext.Clean) {before after : List ClassDecl}
    (hall : script.classes = before ++ after) : (script.contextBehind before).Clean := by
  induction before using List.reverseRecOn generalizing after with
  | nil => exact hclean
  | append_singleton before decl ih =>
      rw [List.append_assoc] at hall
      obtain ⟨⟨parent, hname⟩, hcircle⟩ := h decl (by simp [hall])
      obtain ⟨_, errors, hsays, hdiagnostics, -⟩ :=
        (parented_contextBehind hdeclares hall).bindParent hdeclares hall
      have hnone := hsays.silent (fun hcloses => hcircle hcloses.1) parent hname
      rw [hnone, Diagnostics.reportAll_nil] at hdiagnostics
      rw [contextBehind_append, Context.Clean, hdiagnostics]
      exact ih hall

/-- If nothing is reported at any class, nothing is reported at the first ones. -/
theorem clean_of_parentedContext (script : Script) {before after : List ClassDecl}
    (hall : script.classes = before ++ after) (hclean : script.parentedContext.Clean) :
    (script.contextBehind before).Clean := by
  have hrest : Does (after.forM ClassDecl.bindParent) fun _ _ _ => True := by
    refine (does_forM (I := fun _ _ => True) fun _ decl rest hafter => ?_).mono
      fun _ _ _ _ => trivial
    have hdecl : decl ∈ script.classes := by simp [hall, hafter]
    exact (decl.does_bindParent (mem_classes.1 hdecl)).mono fun _ _ _ _ _ => trivial
  have hrun : ((after.forM ClassDecl.bindParent).run (script.contextBehind before)).2 =
      script.parentedContext := by
    simp [contextBehind, parentedContext, hall, List.forM_append]
    rfl
  exact (hrest _ _ _ rfl (hrun ▸ hclean)).1

/-- **Classes get their parents without a report** if and only if every clause names a class and
the clauses lead in no circle. -/
theorem clean_parentedContext_iff (hids : (script.items.map Item.id).Nodup)
    (hdeclared : script.declaredContext.Clean) :
    script.parentedContext.Clean ↔ script.Founded := by
  have hdeclares := declares hids hdeclared
  constructor
  · intro hclean decl hdecl
    obtain ⟨houtline, hparents⟩ := (script.does_bindParents _ _ _ rfl hclean).2 hdeclares.outline
    have hall : script.classes = script.classes ++ [] := (List.append_nil _).symm
    have hbound := (parented_contextBehind hdeclares hall).bindings
    refine ⟨?_, fun hcircle => ?_⟩
    · obtain ⟨id, parent, hid, hparent, hname⟩ := hparents decl hdecl
      refine ⟨parent, (hdeclares.namesClass_iff houtline hbound).2 ⟨?_, ?_⟩⟩
      · exact (houtline.lookup? _).trans hname
      · exact (rising_parentedContext hids).parents id parent hparent
    · -- The last class of the circle would have been reported.
      obtain ⟨last, ⟨-, hcloses⟩, -⟩ := existsUnique_closesCircle hdeclares.nodup hdecl hcircle
      obtain ⟨-, before, after, hall, -⟩ := id hcloses
      obtain ⟨_, errors, hsays, hdiagnostics, -⟩ :=
        (parented_contextBehind hdeclares hall).bindParent hdeclares hall
      rw [← contextBehind_append] at hdiagnostics
      have hthrough : script.classes = (before ++ [last]) ++ after := by simpa using hall
      have hbehind := script.clean_of_parentedContext hthrough hclean
      rw [Context.Clean, hdiagnostics, Diagnostics.hasErrors_reportAll] at hbehind
      obtain ⟨error, herror, -⟩ := hsays.circular.2 hcloses
      rw [hbehind.2] at herror
      cases herror
  · intro hfounded
    have hall : script.classes = script.classes ++ [] := (List.append_nil _).symm
    exact hfounded.clean_contextBehind hdeclares hdeclared hall

namespace Reordered

variable {decl other : ClassDecl} {decl' other' : ClassDecl}

/-- The class that a class of the other script corresponds to. -/
theorem exists_class (h : Reordered script script') (hdecl' : decl' ∈ script'.classes) :
    ∃ decl, Twins script script' (.classDecl decl) (.classDecl decl') := by
  obtain ⟨item, htwins⟩ := h.symm.exists_twin (mem_classes.1 hdecl')
  cases h.paired htwins.symm with
  | classDecl => exact ⟨_, htwins.symm⟩

theorem parentName (h : Reordered script script')
    (htwins : Twins script script' (.classDecl decl) (.classDecl decl')) :
    decl'.parentName = decl.parentName := by
  cases h.paired htwins with
  | classDecl hpaired =>
      unfold ClassDecl.parentName
      rw [hpaired.parent.map_eq fun _ _ hname => hname]

/-- Clauses lead from a class to another one in both scripts. -/
theorem exists_extends (h : Reordered script script')
    (htwins : Twins script script' (.classDecl decl) (.classDecl decl'))
    (hextends : script'.Extends decl' other') :
    ∃ other, Twins script script' (.classDecl other) (.classDecl other') ∧
      script.Extends decl other := by
  obtain ⟨-, hother', ident', hident', hname'⟩ := hextends
  obtain ⟨other, htwinsOther⟩ := h.exists_class hother'
  refine ⟨other, htwinsOther, mem_classes.2 htwins.mem, mem_classes.2 htwinsOther.mem, ?_⟩
  cases h.paired htwins with
  | classDecl hpaired =>
      have hparent := hpaired.parent
      rw [hident'] at hparent
      cases hident : decl.parent <;> rw [hident] at hparent <;> cases hparent
      next ident hname =>
        exact ⟨ident, rfl, hname.symm.trans (hname'.trans htwinsOther.name)⟩

/-- **The order of items does not matter** for the rules about parents. -/
theorem founded (h : Reordered script script') (hdeclares' : script'.Declares)
    (hfounded : script.Founded) : script'.Founded := by
  intro decl' hdecl'
  obtain ⟨decl, htwins⟩ := h.exists_class hdecl'
  obtain ⟨⟨id, hname⟩, hcircle⟩ := hfounded decl (mem_classes.2 htwins.mem)
  refine ⟨?_, fun hcircle' => hcircle ?_⟩
  · rw [h.parentName htwins]
    rcases hname with ⟨hroot, -⟩ | ⟨other, hother, hname, -⟩
    · exact ⟨_, .inl ⟨hroot, rfl⟩⟩
    · obtain ⟨other', htwinsOther⟩ := h.symm.exists_class hother
      obtain ⟨id', hid', -⟩ := hdeclares'.symbol (mem_classes.2 htwinsOther.mem)
      exact ⟨id', .inr ⟨other', mem_classes.2 htwinsOther.mem,
        htwinsOther.symm.name.trans hname, hid'⟩⟩
  · have hlift : ∀ {other'}, TransGen script'.Extends decl' other' → ∃ other,
        Twins script script' (.classDecl other) (.classDecl other') ∧
        TransGen script.Extends decl other := by
      intro other' hpath
      induction hpath with
      | single hextends =>
          obtain ⟨other, htwinsOther, hextends⟩ := h.exists_extends htwins hextends
          exact ⟨other, htwinsOther, .single hextends⟩
      | tail _ hextends ih =>
          obtain ⟨middle, htwinsMiddle, hpath⟩ := ih
          obtain ⟨other, htwinsOther, hextends⟩ := h.exists_extends htwinsMiddle hextends
          exact ⟨other, htwinsOther, hpath.tail hextends⟩
    obtain ⟨other, htwinsOther, hpath⟩ := hlift hcircle'.1
    cases h.twins_unique.1 htwins htwinsOther
    exact ⟨hpath, hpath⟩

/-- If one script comes through to the parents of its classes without a report, so does the
other. -/
theorem clean_parentedContext (h : Reordered script script')
    (hclean : script.parentedContext.Clean) :
    script'.declaredContext.Clean ∧ script'.parentedContext.Clean := by
  have hdeclared := script.clean_declaredContext_iff.2 h.names
  have hdeclared' := script'.clean_declaredContext_iff.2 h.symm.names
  have hids := Script.ids_nodup h.proper
  have hids' := Script.ids_nodup h.proper'
  refine ⟨hdeclared', (clean_parentedContext_iff hids' hdeclared').2 ?_⟩
  exact h.founded (declares hids' hdeclared') ((clean_parentedContext_iff hids hdeclared).1 hclean)

end Reordered

end Script

end ClassLang
