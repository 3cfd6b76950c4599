import ClassLang.Compile
import ClassLang.Proofs.Resolve.Script
import ClassLang.Proofs.Symbol.Layout
import Mathlib.Data.List.Basic

/-!
# A script that is ready for code

Between the analysis of a script and its code, classes are laid out and string literals get
storage.  Both leave everything alone that the analysis found out: layouts only add numbers
to fields, and literals are bound at nodes that nothing was bound to.  So an analysed script
is `Complete`, which is all that the lowering relies on.
-/

namespace ClassLang

/-! ## Storage for string literals -/

/-- The storage of a text holds it, and at most one literal is added. -/
theorem SymbolTable.intern_spec (t : SymbolTable) (text : String) :
    t.AddsStorage (t.intern text).2 ∧ (t.Ok → (t.intern text).2.Ok) ∧
      ∃ entry, (t.intern text).2.literal? (t.intern text).1 = some entry ∧ entry.text = text := by
  unfold intern
  split
  · next id hfound =>
      have htext := List.find?_some hfound
      cases hentry : t.literal? id with
      | none => simp [hentry] at htext
      | some entry => exact ⟨.refl t, fun hok => hok, entry, rfl, by simpa [hentry] using htext⟩
  · have hindex : t.literalIds.length = t.literalsBefore t.size := by
      rw [literalIds_eq, literalsBefore, List.countP_eq_length_filter]
    refine ⟨addsStorage_add t trivial, fun hok => hok.add ⟨by simp, ?_⟩,
      ⟨text, t.literalIds.length⟩, ?_, rfl⟩
    · exact hindex.trans ((later_add t _).literalsBefore (Nat.le_refl _)).symm
    · simp [literal?, Symbol.literal?]

theorem SymbolTable.AddsStorage.literal? {t t' : SymbolTable} (h : t.AddsStorage t')
    {id : SymbolId} {entry : LiteralEntry} (hentry : t.literal? id = some entry) :
    t'.literal? id = some entry := by
  have hs := literal?_eq_some_iff.1 hentry
  exact literal?_eq_some_iff.2 ((h.get? (lt_size_of_get? hs)).trans hs)

/-- A node is bound to the storage of a text. -/
def Context.HoldsText (ctx : Context) (node : NodeId) (text : String) : Prop :=
  ∃ symbol entry, ctx.bindings.symbol? node = some symbol ∧
    ctx.symbols.literal? symbol = some entry ∧ entry.text = text

/-- The relation between the contexts around the interning of literals. -/
structure Interns (literals : List (NodeId × String)) (ctx ctx' : Context) : Prop where
  storage : ctx.symbols.AddsStorage ctx'.symbols
  ok : ctx.symbols.Ok → ctx'.symbols.Ok
  type? : ∀ n, ctx'.bindings.type? n = ctx.bindings.type? n
  symbol? : ∀ n, n ∉ literals.map Prod.fst → ctx'.bindings.symbol? n = ctx.bindings.symbol? n
  texts : (literals.map Prod.fst).Nodup →
    ∀ node text, (node, text) ∈ literals → ctx'.HoldsText node text

/-- Literals get their storage one after the other; what one got stays. -/
theorem Interns.foldl (literals : List (NodeId × String)) (ctx : Context) :
    Interns literals ctx
      (literals.foldl (fun ctx (node, text) => ctx.internLiteral node text) ctx) := by
  induction literals generalizing ctx with
  | nil => exact ⟨.refl _, fun h => h, fun _ => rfl, fun _ _ => rfl, fun _ _ _ h => by simp at h⟩
  | cons literal rest ih =>
      obtain ⟨node, text⟩ := literal
      obtain ⟨hadds, hkeeps, entry, hentry, htext⟩ := ctx.symbols.intern_spec text
      obtain ⟨hstorage, hok, htypes, hsymbols, htexts⟩ := ih (ctx.internLiteral node text)
      refine ⟨hadds.trans hstorage, fun h => hok (hkeeps h), htypes, fun n hn => ?_,
        fun hnodup n s hmem => ?_⟩
      · rw [List.map_cons, List.mem_cons, not_or] at hn
        refine (hsymbols n hn.2).trans ?_
        rw [Context.internLiteral, Bindings.symbol?_bindSymbol, if_neg hn.1]
      · rw [List.map_cons, List.nodup_cons] at hnodup
        rcases List.mem_cons.1 hmem with heq | hmem
        · cases heq
          refine ⟨(ctx.symbols.intern text).1, entry, (hsymbols node hnodup.1).trans ?_,
            hstorage.literal? hentry, htext⟩
          rw [Context.internLiteral, Bindings.symbol?_bindSymbol, if_pos rfl]
        · exact htexts hnodup.2 n s hmem

theorem Context.interns_internLiterals (ctx : Context) (script : Script) :
    Interns script.stringLiterals ctx (ctx.internLiterals script) :=
  Interns.foldl script.stringLiterals ctx

/-! ## Literals have nodes of their own -/

/-- The string literal that is met on the way through a tree. -/
def Visit.literal? : Visit → Option (NodeId × String)
  | .expr (.literal id (.string text) _) => some (id, text)
  | _ => none

theorem Visit.node?_of_literal? {visit : Visit} {node : NodeId} {text : String}
    (h : visit.literal? = some (node, text)) : visit.node? = some node := by
  unfold Visit.literal? at h
  split at h
  · cases h
    rfl
  · cases h

theorem Script.stringLiterals_eq (script : Script) :
    script.stringLiterals = script.visits.filterMap Visit.literal? := rfl

/-- What is met on the way through a script stands in its functions. -/
theorem Script.filterMap_visits {α : Type} (script : Script) (f : Visit → Option α)
    (hitem : ∀ item, f (.item item) = none) (hclass : ∀ decl, f (.classDecl decl) = none)
    (hstruct : ∀ decl, f (.structDecl decl) = none) :
    script.visits.filterMap f =
      (script.items.flatMap Item.functions).flatMap fun decl => decl.visits.filterMap f := by
  unfold Script.visits
  induction script.items with
  | nil => rfl
  | cons item rest ih =>
      rw [List.flatMap_cons, List.filterMap_append, ih, List.flatMap_cons, List.flatMap_append]
      congr 1
      cases item with
      | classDecl decl =>
          simp only [Item.visits, List.filterMap_cons, hitem, hclass, Item.functions]
          exact List.filterMap_flatMap
      | structDecl decl => simp [Item.visits, hitem, hstruct, Item.functions]
      | function decl => simp [Item.visits, hitem, Item.functions]

/-- The nodes of literals are met in order on the way through a tree. -/
theorem Visit.literal?_sublist (visits : List Visit) :
    ((visits.filterMap Visit.literal?).map Prod.fst).Sublist (visits.filterMap Visit.node?) := by
  induction visits with
  | nil => exact .slnil
  | cons visit rest ih =>
      cases hliteral : visit.literal? with
      | none =>
          rw [List.filterMap_cons_none hliteral]
          exact ih.trans ((List.sublist_cons_self visit rest).filterMap _)
      | some literal =>
          rw [List.filterMap_cons_some hliteral,
            List.filterMap_cons_some (Visit.node?_of_literal? hliteral), List.map_cons]
          exact ih.cons_cons _

section

variable {script : Script} {decl : FunctionDecl}

theorem Script.mem_visits {visit : Visit} (hdecl : decl ∈ script.items.flatMap Item.functions)
    (hvisit : visit ∈ decl.visits) : visit ∈ script.visits := by
  obtain ⟨item, hitem, hof⟩ := List.mem_flatMap.1 hdecl
  refine List.mem_flatMap.2 ⟨item, hitem, List.mem_cons_of_mem _ ?_⟩
  cases item with
  | classDecl c =>
      exact List.mem_cons_of_mem _ (List.mem_flatMap.2 ⟨decl, hof, hvisit⟩)
  | structDecl s => simp [Item.functions] at hof
  | function f =>
      rw [List.mem_singleton.1 hof] at hvisit
      exact hvisit

/-- The nodes that are met on the way through a script stand in the bodies of functions. -/
theorem Script.visits_sublist (script : Script) :
    (script.visits.filterMap Visit.node?).Sublist
      ((script.items.flatMap Item.functions).flatMap fun decl => decl.body.nodes) := by
  rw [script.filterMap_visits Visit.node? (fun _ => rfl) (fun _ => rfl) (fun _ => rfl)]
  induction script.items.flatMap Item.functions with
  | nil => exact .slnil
  | cons decl rest ih =>
      rw [List.flatMap_cons, List.flatMap_cons]
      exact decl.visits_sublist.append ih

theorem Script.bodies_sublist (script : Script) :
    ((script.items.flatMap Item.functions).flatMap fun decl => decl.body.nodes).Sublist
      ((script.items.flatMap Item.functions).flatMap FunctionDecl.nodes) := by
  induction script.items.flatMap Item.functions with
  | nil => exact .slnil
  | cons decl rest ih =>
      rw [List.flatMap_cons, List.flatMap_cons]
      exact ((List.sublist_append_right _ _).cons _).append ih

theorem Script.literals_sublist (script : Script) :
    (script.stringLiterals.map Prod.fst).Sublist (script.visits.filterMap Visit.node?) :=
  Visit.literal?_sublist script.visits

theorem Script.visits_nodup (hproper : script.Proper) :
    (script.visits.filterMap Visit.node?).Nodup :=
  (script.visits_sublist.trans script.bodies_sublist).nodup (Script.functions_nodup hproper)

/-- Whatever else is met has another node than the literals. -/
theorem Script.not_mem_literals (hproper : script.Proper) {visit : Visit} {n : NodeId}
    (hvisit : visit ∈ script.visits) (hn : visit.node? = some n) (hother : visit.literal? = none) :
    n ∉ script.stringLiterals.map Prod.fst := by
  intro hmem
  obtain ⟨⟨node, text⟩, hliteral, rfl⟩ := List.mem_map.1 hmem
  obtain ⟨visit', hvisit', hsome⟩ := List.mem_filterMap.1 hliteral
  have hnodup := script.visits_nodup hproper
  rw [List.filterMap_eq_flatMap_toList] at hnodup
  have heq : visit = visit' := List.eq_of_mem_flatMap hnodup hvisit hvisit'
    (Option.mem_toList.2 hn) (Option.mem_toList.2 (Visit.node?_of_literal? hsome))
  subst heq
  cases hother.symm.trans hsome

/-- A declaration has another node than the literals. -/
theorem Script.decl_not_mem_literals (hproper : script.Proper)
    (hdecl : decl ∈ script.items.flatMap Item.functions) :
    decl.id ∉ script.stringLiterals.map Prod.fst := by
  intro hmem
  obtain ⟨other, hother, hn⟩ := List.mem_flatMap.1
    ((script.literals_sublist.trans script.visits_sublist).subset hmem)
  have hnodup := Script.functions_nodup hproper
  have heq : decl = other := List.eq_of_mem_flatMap hnodup hdecl hother (List.mem_cons_self ..)
    (other.body_subset_nodes hn)
  subst heq
  have hown : decl.nodes.Nodup :=
    (List.sublist_flatten_of_mem (List.mem_map_of_mem hdecl)).nodup hnodup
  exact (List.nodup_cons.1 hown).1 (List.mem_append_right _ hn)

theorem Script.item_not_mem_literals (hproper : script.Proper) {item : Item}
    (hitem : item ∈ script.items) : item.id ∉ script.stringLiterals.map Prod.fst := by
  cases item with
  | function decl =>
      exact script.decl_not_mem_literals hproper
        (List.mem_flatMap.2 ⟨_, hitem, by simp [Item.functions]⟩)
  | _ =>
      intro hmem
      refine Script.id_not_mem_functions hproper hitem (by simp) ?_
      exact (script.literals_sublist.trans
        (script.visits_sublist.trans script.bodies_sublist)).subset hmem

/-- What was attached to the other nodes is still there when literals have their storage. -/
theorem Interns.keptIn {ctx ctx' : Context} (h : Interns script.stringLiterals ctx ctx')
    (hproper : script.Proper) {visit : Visit} (hvisit : visit ∈ script.visits) :
    visit.KeptIn ctx ctx' := by
  unfold Visit.KeptIn
  split
  · next e =>
      refine ⟨h.type? e.id, fun htext => h.symbol? e.id ?_⟩
      refine Script.not_mem_literals hproper hvisit rfl ?_
      unfold Visit.literal?
      split
      · next heq => cases heq; simp [Expr.isText] at htext
      · rfl
  · next id _ _ _ _ => exact h.symbol? id (Script.not_mem_literals hproper hvisit rfl rfl)
  · trivial

end

/-! ## Everything together -/

/-- Everything that the code of a script depends on is there. -/
structure Complete (script : Script) (ctx : Context) : Prop where
  table : ctx.symbols.Ok
  resolved : ctx.symbols.Resolved
  placed : ctx.symbols.Placed
  root : ∃ entry, ctx.symbols.class? SymbolTable.rootClass = some entry ∧
    entry.name = rootClassName ∧ entry.external = true
  checked : ∀ item ∈ script.items, ∃ id, item.Holds (Checked ctx) ctx id
  /-- There are no classes, structs and functions outside classes but those of the items and the
  root class. -/
  source : ∀ id s, ctx.symbols.get? id = some s → s.IsItem →
    id = SymbolTable.rootClass ∨ ∃ item ∈ script.items, ctx.bindings.symbol? item.id = some id
  links : LinkName.Distinct ctx script
  texts : ∀ node text, (node, text) ∈ script.stringLiterals → ctx.HoldsText node text

/-- An analysed script whose table was laid out. -/
theorem Analysed.checked_layOut {script : Script} {ctx : Context} {table : SymbolTable}
    (h : Analysed script ctx) (hlaid : ctx.symbols.LaidOut table) {item : Item}
    (hitem : item ∈ script.items) :
    ∃ id, item.Holds (Checked { ctx with symbols := table }) { ctx with symbols := table } id := by
  obtain ⟨id, hholds⟩ := h.checked item hitem
  refine ⟨id, hholds.extend hlaid.laid.extend hholds.1 (fun _ _ => rfl) ?_⟩
  intro decl _ owner g hchecked
  exact hchecked.extend h.ok.table hlaid.laid.extend rfl fun visit _ => Visit.keptIn fun _ _ =>
    ⟨rfl, rfl⟩

/-- **An analysed script can be laid out, and is complete when its literals have storage.** -/
theorem Analysed.complete {script : Script} {ctx : Context} (hproper : script.Proper)
    (h : Analysed script ctx) :
    ∃ ctx', ctx.layOut = (none, ctx') ∧ Complete script (ctx'.internLiterals script) := by
  obtain ⟨table, htable, hlaid⟩ :=
    SymbolTable.finalizeLayouts_eq h.ok.table h.unlaid h.acyclic
  refine ⟨{ ctx with symbols := table }, by simp [Context.layOut, htable], ?_⟩
  have hinterns := Context.interns_internLiterals { ctx with symbols := table } script
  have hok : table.Ok := hlaid.laid.ok h.ok.table
  have hadds : table.AddsStorage
      (({ ctx with symbols := table } : Context).internLiterals script).symbols := hinterns.storage
  constructor
  · exact hinterns.ok hok
  · intro id entry hentry
    rw [hadds.function?, hlaid.laid.function?] at hentry
    exact h.resolved id entry hentry
  · exact hadds.placed hok (hlaid.placed h.ok.table)
  · obtain ⟨entry, hentry, hname, hexternal⟩ := h.root
    obtain ⟨entry', hentry', hname', -, -, -, hexternal'⟩ := hlaid.laid.extend.class? hentry
    exact ⟨entry', (hadds.class? _).trans hentry', hname'.trans hname, hexternal'.trans hexternal⟩
  · intro item hitem
    obtain ⟨id, hholds⟩ := h.checked_layOut hlaid hitem
    have hfunctions : ∀ decl ∈ item.functions, decl ∈ script.items.flatMap Item.functions :=
      fun decl hdecl => List.mem_flatMap.2 ⟨item, hitem, hdecl⟩
    have hdecl : ∀ decl ∈ item.functions, _ := fun decl hdecl =>
      hinterns.symbol? decl.id (Script.decl_not_mem_literals hproper (hfunctions decl hdecl))
    refine ⟨id, hholds.extend hadds.extend ?_ hdecl
      fun decl hmem owner g hchecked => hchecked.extend hok hadds.extend (hdecl decl hmem) ?_⟩
    · exact (hinterns.symbol? _ (Script.item_not_mem_literals hproper hitem)).trans hholds.1
    · exact fun visit hvisit => hinterns.keptIn hproper
        (Script.mem_visits (hfunctions decl hmem) hvisit)
  · intro id s hs hisItem
    have hbare := hlaid.laid.same id
    rw [hadds.item hs hisItem, Option.map_some] at hbare
    refine (h.source id s.bare hbare.symm (Symbol.isItem_bare.2 hisItem)).imp_right ?_
    rintro ⟨item, hitem, hsymbol⟩
    exact ⟨item, hitem, (hinterns.symbol? _ (Script.item_not_mem_literals hproper hitem)).trans
      hsymbol⟩
  · obtain ⟨entry, hentry, -⟩ := h.root
    have hlinks : LinkName.Distinct { ctx with symbols := table } script := by
      refine h.links.extend (P := Checked ctx) h.ok.table hlaid.laid.extend (by simp [hentry])
        fun item hitem => ?_
      obtain ⟨id, hholds⟩ := h.checked item hitem
      exact ⟨id, hholds, hholds.1⟩
    refine hlinks.extend (P := Checked { ctx with symbols := table }) hok hadds.extend
      ((hlaid.laid.isClass_iff _).2 (by simp [hentry])) ?_
    intro item hitem
    obtain ⟨id, hholds⟩ := h.checked_layOut hlaid hitem
    exact ⟨id, hholds,
      (hinterns.symbol? _ (Script.item_not_mem_literals hproper hitem)).trans hholds.1⟩
  · exact hinterns.texts ((script.literals_sublist).nodup (Script.visits_nodup hproper))

end ClassLang
