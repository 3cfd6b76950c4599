import ClassLang.Proofs.Resolve.Bound
import ClassLang.Proofs.Resolve.Lexical

/-!
# Calls of functions outside classes

A function that belongs to no class has no other name than the one in the source, and it is
called by this name only where nothing hides it.  So where it is called, the calling function
has no parameter of its name (`Script.callsFree`), and neither has it anything else that this
name denotes.
-/

namespace ClassLang

/-! ## What frames hold are variables -/

/-- The variable that is declared in a visit of a tree. -/
def Visit.variable? : Visit → Option NodeId
  | .stmt (.varDecl id _ _ _ _) => some id
  | _ => none

/-- What stands in the frames of a use was there before, or is declared on the way. -/
def NameUse.Declared (use : NameUse) (frames : Frames) (visits : List Visit) : Prop :=
  ∀ n ∈ use.frames.nodes, n ∈ frames.nodes ∨ n ∈ visits.filterMap Visit.variable?

theorem NameUse.Declared.mono {use : NameUse} {frames : Frames} {visits visits' : List Visit}
    (h : use.Declared frames visits) (hvisits : visits ⊆ visits') : use.Declared frames visits' :=
  fun n hn => (h n hn).imp_right fun hmem => List.filterMap_subset _ hvisits hmem

theorem Expr.uses_declared {e : Expr} {frames : Frames} {visits : List Visit} :
    ∀ use ∈ e.uses frames, use.Declared frames visits := by
  intro use huse n hn
  rw [(NameUse.of_mem_uses huse).1] at hn
  exact .inl hn

theorem Expr.usesOfOption_declared {e : Option Expr} {frames : Frames} {visits : List Visit} :
    ∀ use ∈ Expr.usesOfOption frames e, use.Declared frames visits := by
  cases e with
  | none => exact nofun
  | some e => exact e.uses_declared

/-- A branch begins inside the blocks around it. -/
theorem NameUse.Declared.branch {use : NameUse} {s : Stmt} {frames : Frames} {visits : List Visit}
    (h : use.Declared (s.branchFrames frames) visits) : use.Declared frames visits := by
  rwa [NameUse.Declared, Stmt.nodes_branchFrames] at h

mutual

theorem Stmt.uses_declared (s : Stmt) (frames : Frames) :
    ∀ use ∈ s.uses frames, use.Declared frames s.visits := by
  intro use huse
  cases s with
  | block id stmts span =>
      have hdeclared := Stmt.usesOfAll_declared stmts ([] :: frames) use huse
      exact hdeclared.mono fun v hv => List.mem_cons_of_mem _ (List.mem_cons_of_mem _ hv)
  | varDecl id ty name value span => exact Expr.usesOfOption_declared use huse
  | ifThen condition positive span =>
      rcases List.mem_append.1 huse with huse | huse
      · exact condition.uses_declared use huse
      · apply (Stmt.uses_declared positive _ use huse).branch.mono
        exact fun v hv => List.mem_cons_of_mem _ (List.mem_append_right _ hv)
  | ifElse condition positive negative span =>
      rcases List.mem_append.1 huse with huse | huse
      · exact condition.uses_declared use huse
      · rcases List.mem_append.1 huse with huse | huse
        · apply (Stmt.uses_declared positive _ use huse).branch.mono
          exact fun v hv =>
            List.mem_cons_of_mem _ (List.mem_append_left _ (List.mem_append_right _ hv))
        · apply (Stmt.uses_declared negative _ use huse).branch.mono
          exact fun v hv => List.mem_cons_of_mem _ (List.mem_append_right _ hv)
  | ret value span => exact Expr.usesOfOption_declared use huse
  | expr e span => exact e.uses_declared use huse

theorem Stmt.usesOfAll_declared (stmts : List Stmt) (frames : Frames) :
    ∀ use ∈ Stmt.usesOfAll frames stmts, use.Declared frames (Stmt.visitsOfAll stmts) := by
  intro use huse
  cases stmts with
  | nil => cases huse
  | cons s rest =>
      rcases List.mem_append.1 huse with huse | huse
      · exact (Stmt.uses_declared s frames use huse).mono (List.subset_append_left _ _)
      · intro n hn
        rcases Stmt.usesOfAll_declared rest _ use huse n hn with hmem | hmem
        · cases s with
          | varDecl id ty name value span =>
              rcases Frames.mem_nodes_declare hmem with rfl | hmem
              · exact .inr (List.mem_cons_self ..)
              · exact .inl hmem
          | _ => exact .inl hmem
        · exact .inr (List.filterMap_subset _ (List.subset_append_right _ _) hmem)

end

/-- What a use in a body can mean by its frames is a local variable. -/
theorem FunctionDecl.uses_declarations {decl : FunctionDecl} {use : NameUse}
    (huse : use ∈ decl.uses)
    {n : NodeId} (hn : n ∈ use.frames.nodes) : (n, "local variable") ∈ decl.declarations := by
  cases hblock : decl.body.block? with
  | none => simp [FunctionDecl.uses, hblock] at huse
  | some block =>
      rw [FunctionDecl.uses_eq hblock] at huse
      rcases Stmt.usesOfAll_declared block.stmts [[]] use huse n hn with hmem | hmem
      · cases hmem
      · obtain ⟨visit, hvisit, hsome⟩ := List.mem_filterMap.1 hmem
        apply List.mem_append_right
        refine List.mem_filterMap.2 ⟨visit, FunctionDecl.visits_body hblock hvisit, ?_⟩
        unfold Visit.variable? at hsome
        split at hsome
        · cases hsome
          rfl
        · cases hsome

/-! ## Functions that names denote -/

section

variable {script : Script} {ctx : Context} {decl : FunctionDecl} {owner : Option SymbolId}
  {id f : SymbolId} {scope : ScopeId} {entry : FunctionEntry}

/-- The item of the name of a function outside classes is the function. -/
theorem Context.linkName_of_topLevel? {name : String} (h : ctx.topLevel? script.items name = some f)
    (hroot : (ctx.symbols.class? SymbolTable.rootClass).isSome = true)
    (hitems : ∀ item ∈ script.items, ∃ id, item.Holds (Checked ctx) ctx id)
    (hentry : ctx.symbols.function? f = some entry) : entry.linkName = name := by
  have hget := SymbolTable.function?_eq_some_iff.1 hentry
  have hclass : ∀ e, ctx.symbols.class? f ≠ some e := by
    simp [SymbolTable.class?, hget, Symbol.class?]
  unfold Context.topLevel? at h
  split at h
  · cases h
    obtain ⟨e, he⟩ := Option.isSome_iff_exists.1 hroot
    exact absurd he (hclass e)
  · obtain ⟨item, hfind, hsymbol⟩ := Option.bind_eq_some_iff.1 h
    have hname : item.name.name = name := by simpa using List.find?_some hfind
    obtain ⟨id, hsymbol', hholds⟩ := hitems item (List.mem_of_find?_eq_some hfind)
    cases hsymbol.symm.trans hsymbol'
    cases item with
    | function decl =>
        obtain ⟨-, e, he, hlink⟩ := hholds
        cases hentry.symm.trans he
        exact hlink.trans hname
    | structDecl decl =>
        obtain ⟨e, he, -⟩ := hholds
        simp [SymbolTable.struct?, hget, Symbol.struct?] at he
    | classDecl decl =>
        obtain ⟨⟨e, he, -⟩, -⟩ := hholds
        exact absurd he (hclass e)

/-- **A name that denotes a function outside classes is its name**, and no parameter has it. -/
theorem Denotes.free {use : NameUse} (h : Denotes ctx script.items owner decl use f)
    (hok : ctx.symbols.Ok) (hacyclic : ctx.symbols.Acyclic)
    (hentry : ctx.symbols.function? f = some entry)
    (hfree : entry.owner = none) (hpresents : Presents ctx decl owner id scope)
    (hvariables : ∀ n ∈ use.frames.nodes, ctx.kindAt? n = some "local variable")
    (hroot : (ctx.symbols.class? SymbolTable.rootClass).isSome = true)
    (hitems : ∀ item ∈ script.items, ∃ id, item.Holds (Checked ctx) ctx id) :
    entry.linkName = use.name ∧ ¬ decl.TakesName owner use.name := by
  have hargument : ∀ v, ctx.symbols.get? f ≠ some (.argument v) := by
    simp [SymbolTable.function?_eq_some_iff.1 hentry]
  cases h with
  | @variableOf node hdeclared hs =>
      have hkind := hvariables node (Frames.mem_nodes_of_find? hdeclared)
      rw [ctx.kindAt?_function hs hentry] at hkind
      simp at hkind
  | @parameter param hno hparam hs =>
      obtain ⟨a, v, hsymbol, hget, -⟩ :=
        hpresents.binds.params param (List.mem_of_find?_eq_some hparam)
      cases hsymbol.symm.trans hs
      exact absurd hget (hargument v)
  | receiver hno hparam howner hself hs =>
      obtain ⟨_, -, -, v, hget, -⟩ := hs
      exact absurd hget (hargument v)
  | member hno hparam howner hself hs =>
      have hmember := (SymbolTable.member?_eq_some_iff hacyclic).2 hs
      obtain ⟨c, hc, -⟩ := (SymbolTable.hasMember_of_member? hmember).owner hok hentry
      cases hfree.symm.trans hc
  | topLevel hno hparam howner hs =>
      constructor
      · exact ctx.linkName_of_topLevel? hs hroot hitems hentry
      · rintro (⟨param, hmem, hname⟩ | ⟨hself, hsome⟩)
        · exact absurd (beq_iff_eq.2 hname) (List.find?_eq_none.1 hparam param hmem)
        · obtain ⟨c, hc⟩ := Option.isSome_iff_exists.1 hsome
          exact (howner c hc).1 hself

end

/-! ## Scripts -/

/-- No function has a parameter with the name of a function outside classes that it calls without
a receiver. -/
def CallsFree (script : Script) (ctx : Context) : Prop :=
  ∀ decl ∈ script.items.flatMap Item.functions, ∀ g own, ctx.bindings.symbol? decl.id = some g →
    ctx.symbols.function? g = some own →
    ∀ id callee args span, .expr (.call id callee args span) ∈ decl.visits →
    ∀ f entry, ctx.bindings.symbol? id = some f → ctx.symbols.function? f = some entry →
      entry.owner = none → entry.linkName ∉ ctx.symbols.parameterNames own

/-- A call without a receiver is a use of its name. -/
theorem FunctionDecl.use_of_call {decl : FunctionDecl} {id : NodeId} {callee : Ident}
    {args : List Expr} {span : Span} (h : .expr (.call id callee args span) ∈ decl.visits) :
    ∃ use ∈ decl.uses, use.node = id ∧ use.name = callee.name := by
  have hmem : (id, callee.name) ∈ decl.visits.filterMap Visit.reference? :=
    List.mem_filterMap.2 ⟨_, h, rfl⟩
  rw [← decl.uses_map] at hmem
  obtain ⟨use, huse, heq⟩ := List.mem_map.1 hmem
  exact ⟨use, huse, congrArg Prod.fst heq, congrArg Prod.snd heq⟩

/-- **What a function calls is hidden by none of its parameters.** -/
theorem Script.callsFree {script : Script} (hproper : script.Proper)
    (hclean : script.resolvedContext.Clean) : CallsFree script script.resolvedContext := by
  have hanalysed := script.analysed hproper hclean
  obtain ⟨hdeclared, hdenote⟩ := Script.uses_denote hproper hclean
  intro decl hdecl g own hg hown node callee args span hcall f entry hf hentry hfree
  obtain ⟨item, hitem, hof⟩ := List.mem_flatMap.1 hdecl
  obtain ⟨_, hholds⟩ := hanalysed.checked item hitem
  obtain ⟨_, hframes, -⟩ := hdeclared.items item hitem
  obtain ⟨g', hchecked⟩ := hholds.owner? hof
  obtain ⟨g'', hframed⟩ := hframes.owner? hof
  cases hchecked.symbol?.symm.trans hg
  cases hframed.1.symm.trans hg
  have ⟨_, scope, _, hpresents⟩ := hframed
  obtain ⟨use, huse, rfl, hname⟩ := FunctionDecl.use_of_call hcall
  obtain ⟨s, hs, hdenotes⟩ := hdenote item hitem decl hof use huse
  cases hs.symm.trans hf
  have hvariables : ∀ n ∈ use.frames.nodes,
      script.resolvedContext.kindAt? n = some "local variable" := fun n hn =>
    hchecked.declarations hanalysed.ok.table hframed (decl.uses_declarations huse hn)
  obtain ⟨root, hroot, -⟩ := hanalysed.root
  obtain ⟨hlink, htakes⟩ := hdenotes.free hanalysed.ok.table hanalysed.acyclic hentry hfree
    hpresents hvariables (by simp [hroot]) hanalysed.checked
  obtain ⟨own', hown', -, -, hnames⟩ := hpresents.named
  cases hown.symm.trans hown'
  intro hmem
  exact htakes (hlink ▸ hnames _ hmem)

/-- Code is generated from a context in which this is still so. -/
theorem compile_callsFree {source : String} {compiled : Compiled}
    (h : compile source = .ok compiled) :
    ∃ script, Accepted source script compiled ∧ CallsFree script compiled.context := by
  obtain ⟨script, laid, haccepted, hclean, hlaid, hcontext⟩ := resolved_of_compile h
  have hproper := haccepted.proper
  have hanalysed := script.analysed hproper hclean
  obtain ⟨table, htable, hlaidOut⟩ :=
    SymbolTable.finalizeLayouts_eq hanalysed.ok.table hanalysed.unlaid hanalysed.acyclic
  have hsame : laid = { script.resolvedContext with symbols := table } := by
    simpa [Context.layOut, htable] using hlaid.symm
  subst hsame
  have hinterns := Context.interns_internLiterals
    { script.resolvedContext with symbols := table } script
  rw [← hcontext] at hinterns
  have hfunction : ∀ f, compiled.context.symbols.function? f =
      script.resolvedContext.symbols.function? f := fun f =>
    (hinterns.storage.function? f).trans (hlaidOut.laid.function? f)
  have hlater : script.resolvedContext.symbols.Later compiled.context.symbols :=
    hlaidOut.laid.extend.later.trans hinterns.storage.extend.later
  refine ⟨script, haccepted, ?_⟩
  intro decl hdecl g own hg hown node callee args span hcall f entry hf hentry hfree
  rw [hfunction] at hown hentry
  have hlistable := (hanalysed.ok.table.function hown (hanalysed.resolved g own hown)).2
  rw [hlater.parameterNames hlistable]
  -- Only the nodes of literals have been bound meanwhile.
  have hdeclNode := hinterns.symbol? decl.id (Script.decl_not_mem_literals hproper hdecl)
  have hcallNode := hinterns.symbol? node
    (Script.not_mem_literals hproper (Script.mem_visits hdecl hcall) rfl rfl)
  exact Script.callsFree hproper hclean decl hdecl g own (hdeclNode.symm.trans hg) hown node
    callee args span hcall f entry (hcallNode.symm.trans hf) hentry hfree

end ClassLang
