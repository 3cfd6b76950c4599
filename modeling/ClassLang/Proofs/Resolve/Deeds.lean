import ClassLang.Proofs.Resolve.Class
import ClassLang.Resolve.Stmt

/-!
# What an analysis does, step by step

An analysis changes a context in nine ways only (`Deed`), and which of them it takes depends
on little: on the symbols, the scopes, and on what is attached to the nodes it asks about.
The types of expressions and earlier reports have no say in it.  `Acts m` puts this down: in
two contexts that are alike, `m` gives the same answer and takes the same steps.

What every step keeps, a whole run keeps.  Reports come behind the earlier ones, types are
attached to nodes of the tree at hand, and a name that the tree declares nowhere stays unknown
(`Context.Lacks`).
-/

namespace ClassLang

/-! ## Steps -/

/-- One step of an analysis. -/
inductive Deed
  | report (error : SemanticError)
  | add (symbol : Symbol)
  /-- Entries of symbols are filled in. -/
  | change (f : SymbolTable → SymbolTable)
  | push (parent : ScopeId) (kind : ScopeKind)
  | bind (scope : ScopeId) (name : String) (symbol : SymbolId)
  | rebind (scope : ScopeId) (name : String) (symbol : SymbolId)
  | attachSymbol (node : NodeId) (symbol : SymbolId)
  | attachType (node : NodeId) (ty : Ty)
  | attachScope (node : NodeId) (scope : ScopeId)

namespace Deed

/-- What a step makes of a context. -/
def apply (ctx : Context) : Deed → Context
  | .report error => { ctx with diagnostics := ctx.diagnostics.report error }
  | .add symbol => { ctx with symbols := ctx.symbols.add symbol }
  | .change f => { ctx with symbols := f ctx.symbols }
  | .push parent kind => { ctx with scopes := ctx.scopes.push parent kind }
  | .bind scope name symbol => { ctx with scopes := ctx.scopes.bind scope name symbol }
  | .rebind scope name symbol =>
    { ctx with scopes := ((ctx.scopes.rebind? scope name symbol).map Prod.snd).getD ctx.scopes }
  | .attachSymbol node symbol => { ctx with bindings := ctx.bindings.bindSymbol node symbol }
  | .attachType node ty => { ctx with bindings := ctx.bindings.bindType node ty }
  | .attachScope node scope => { ctx with bindings := ctx.bindings.bindScope node scope }

/-- The error that a step reports. -/
def error? : Deed → Option SemanticError
  | .report error => some error
  | _ => none

/-- A step that gives types to some nodes only, and a certain name to nothing. -/
def Spares (nodes : List NodeId) (name : String) : Deed → Prop
  | .add symbol => symbol.name ≠ name
  | .change f => ∀ table id, (f table).name id = SymbolTable.name table id
  | .bind _ bound _ => bound ≠ name
  | .attachType node _ => node ∈ nodes
  | _ => True

/-- A step that spares some nodes spares the more nodes one allows. -/
theorem Spares.mono {nodes nodes' : List NodeId} {name : String} {deed : Deed}
    (h : deed.Spares nodes name) (hnodes : nodes ⊆ nodes') : deed.Spares nodes' name := by
  cases deed with
  | attachType node ty => exact hnodes h
  | _ => exact h

end Deed

/-- The diagnostics with some more errors. -/
def Diagnostics.reportAll (ds : Diagnostics) (errors : List SemanticError) : Diagnostics :=
  errors.foldl report ds

namespace Diagnostics

variable (ds : Diagnostics) (errors : List SemanticError)

@[simp] theorem reportAll_nil : ds.reportAll [] = ds := rfl

/-- Reports in two parts come one part behind the other. -/
theorem reportAll_append (more : List SemanticError) :
    ds.reportAll (errors ++ more) = (ds.reportAll errors).reportAll more :=
  List.foldl_append

/-- The errors stand behind the earlier ones, and so do their messages. -/
theorem reportAll_eq : ds.reportAll errors =
    ⟨ds.entries ++ errors.map .ofSemantic, ds.semantic ++ errors⟩ := by
  induction errors generalizing ds with
  | nil => simp
  | cons error rest ih =>
      have hcons : ds.reportAll (error :: rest) = (ds.report error).reportAll rest := rfl
      rw [hcons, ih]
      simp [report]

/-- Errors that were reported are there. -/
theorem hasErrors_reportAll :
    (ds.reportAll errors).hasErrors = false ↔ ds.hasErrors = false ∧ errors = [] := by
  rw [reportAll_eq]
  cases errors with
  | nil => simp [hasErrors, errorCount]
  | cons error rest => simp [hasErrors, errorCount, Diagnostic.ofSemantic]

end Diagnostics

namespace Context

/-- The context behind some steps. -/
def after (ctx : Context) (deeds : List Deed) : Context := deeds.foldl Deed.apply ctx

/-- Steps in two parts are taken one part behind the other. -/
theorem after_append (ctx : Context) (deeds more : List Deed) :
    ctx.after (deeds ++ more) = (ctx.after deeds).after more :=
  List.foldl_append

/-- **Reports come one behind the other.** -/
theorem diagnostics_after (ctx : Context) (deeds : List Deed) :
    (ctx.after deeds).diagnostics = ctx.diagnostics.reportAll (deeds.filterMap Deed.error?) := by
  induction deeds generalizing ctx with
  | nil => rfl
  | cons deed rest ih =>
      have hcons : ctx.after (deed :: rest) = (deed.apply ctx).after rest := rfl
      rw [hcons, ih]
      cases deed <;> rfl

/-- **Types are attached where the steps may do so.** -/
theorem type?_after {nodes : List NodeId} {name : String} {deeds : List Deed}
    (h : ∀ deed ∈ deeds, deed.Spares nodes name) (ctx : Context) {n : NodeId} (hn : n ∉ nodes) :
    (ctx.after deeds).bindings.type? n = ctx.bindings.type? n := by
  induction deeds generalizing ctx with
  | nil => rfl
  | cons deed rest ih =>
      have hcons : ctx.after (deed :: rest) = (deed.apply ctx).after rest := rfl
      rw [hcons, ih fun d hd => h d (List.mem_cons_of_mem _ hd)]
      have hdeed := h deed (List.mem_cons_self ..)
      cases deed with
      | attachType node ty =>
          have hne : n ≠ node := fun heq => hn (heq ▸ hdeed)
          simp [Deed.apply, Bindings.type?_bindType, hne]
      | _ => rfl

/-! ## Names that nothing has -/

/-- Nothing has the name: no scope binds it, and no symbol is called so. -/
structure Lacks (ctx : Context) (name : String) : Prop where
  scopes : ∀ scope, ctx.scopes.lookupLocal? scope name = none
  symbols : ∀ id, ctx.symbols.name id ≠ name

variable {ctx : Context} {name : String}

/-- A name that nothing has is found from nowhere. -/
theorem Lacks.lookupName? (h : ctx.Lacks name) (scope : ScopeId) :
    ctx.lookupName? scope name = none := by
  unfold Context.lookupName?
  rw [List.findSome?_eq_none_iff]
  intro s _
  split
  · next c _ =>
      unfold SymbolTable.member?
      rw [List.findSome?_eq_none_iff]
      intro ancestor _
      unfold SymbolTable.ownMember?
      rw [Option.bind_eq_none_iff]
      intro entry _
      rw [List.find?_eq_none]
      intro member _
      simpa using h.symbols member
  · exact h.scopes s

/-- A step that spares a name gives it to nothing. -/
theorem Lacks.apply (h : ctx.Lacks name) {nodes : List NodeId} {deed : Deed}
    (hdeed : deed.Spares nodes name) : (deed.apply ctx).Lacks name := by
  cases deed with
  | add symbol =>
      refine ⟨h.scopes, fun id => ?_⟩
      have hname : (ctx.symbols.add symbol).name id =
          if id = ctx.symbols.size then symbol.name else ctx.symbols.name id := by
        simp only [SymbolTable.name, SymbolTable.get?_add]
        split <;> rfl
      simp only [Deed.apply, hname]
      split
      · exact hdeed
      · exact h.symbols id
  | change f =>
      refine ⟨h.scopes, fun id => ?_⟩
      rw [Deed.apply, hdeed ctx.symbols id]
      exact h.symbols id
  | push parent kind =>
      refine ⟨fun scope => ?_, h.symbols⟩
      simp only [Deed.apply, ScopeTree.lookupLocal?_push]
      split
      · rfl
      · exact h.scopes scope
  | bind scope bound symbol =>
      refine ⟨fun other => ?_, h.symbols⟩
      have hother := h.scopes other
      simp only [Deed.apply, ScopeTree.lookupLocal?, ScopeTree.get?_bind] at hother ⊢
      split
      · have hne : name ≠ bound := fun heq => hdeed heq.symm
        cases hscope : ctx.scopes.get? other with
        | none => rfl
        | some s => simpa [hscope, Scope.get?_bind, hne] using hother
      · exact hother
  | rebind scope bound symbol =>
      refine ⟨fun other => ?_, h.symbols⟩
      have hother := h.scopes other
      cases hfound : ctx.scopes.lookupLocal? scope bound with
      | none => simpa [Deed.apply, ScopeTree.rebind?, hfound] using hother
      | some old =>
          have hne : ¬ (other = scope ∧ name = bound) := by
            rintro ⟨rfl, rfl⟩
            simp [hother] at hfound
          simp only [Deed.apply, ScopeTree.rebind?_eq hfound, Option.map_some, Option.getD_some]
          rw [ScopeTree.lookupLocal?_rebound hfound, if_neg hne]
          exact hother
  | _ => exact ⟨h.scopes, h.symbols⟩

/-- **A name that nothing has stays unknown**, unless it is declared. -/
theorem Lacks.after (h : ctx.Lacks name) {nodes : List NodeId} {deeds : List Deed}
    (hdeeds : ∀ deed ∈ deeds, deed.Spares nodes name) : (ctx.after deeds).Lacks name := by
  induction deeds generalizing ctx with
  | nil => exact h
  | cons deed rest ih =>
      exact ih (h.apply (hdeeds deed (List.mem_cons_self ..)))
        fun d hd => hdeeds d (List.mem_cons_of_mem _ hd)

/-! ## Contexts that look the same -/

/-- Two contexts that an analysis cannot tell apart, unless it asks for the symbols of some odd
nodes.  Types and reports may differ. -/
structure Alike (odd : List NodeId) (ctx ctx' : Context) : Prop where
  symbols : ctx'.symbols = ctx.symbols
  scopes : ctx'.scopes = ctx.scopes
  scope? : ctx'.bindings.scopes = ctx.bindings.scopes
  symbol? : ∀ n ∉ odd, ctx'.bindings.symbol? n = ctx.bindings.symbol? n

variable {odd odd' : List NodeId} {ctx' : Context}

/-- A context is like itself. -/
theorem Alike.refl (odd : List NodeId) (ctx : Context) : Alike odd ctx ctx :=
  ⟨rfl, rfl, rfl, fun _ _ => rfl⟩

/-- Contexts that are alike stay so when more nodes are odd. -/
theorem Alike.mono (h : Alike odd ctx ctx') (hodd : odd ⊆ odd') : Alike odd' ctx ctx' :=
  ⟨h.symbols, h.scopes, h.scope?, fun n hn => h.symbol? n fun hmem => hn (hodd hmem)⟩

/-- One step leaves two contexts alike. -/
theorem Alike.apply (h : Alike odd ctx ctx') (deed : Deed) :
    Alike odd (deed.apply ctx) (deed.apply ctx') := by
  obtain ⟨hsymbols, hscopes, hscope, hsymbol⟩ := h
  cases deed with
  | attachSymbol node symbol =>
      refine ⟨hsymbols, hscopes, hscope, fun n hn => ?_⟩
      simp only [Deed.apply, Bindings.symbol?_bindSymbol, hsymbol n hn]
  | attachType node ty => exact ⟨hsymbols, hscopes, hscope, hsymbol⟩
  | attachScope node scope =>
      refine ⟨hsymbols, hscopes, ?_, hsymbol⟩
      simp only [Deed.apply, Bindings.bindScope, hscope]
  | _ => constructor <;> simp_all [Deed.apply]

/-- Any steps leave two contexts alike. -/
theorem Alike.after (h : Alike odd ctx ctx') (deeds : List Deed) :
    Alike odd (ctx.after deeds) (ctx'.after deeds) := by
  induction deeds generalizing ctx ctx' with
  | nil => exact h
  | cons deed rest ih => exact ih (h.apply deed)

/-- Contexts that are alike give the same answer about a name. -/
theorem Alike.lookupName? (h : Alike odd ctx ctx') (scope : ScopeId) (name : String) :
    ctx'.lookupName? scope name = ctx.lookupName? scope name := by
  simp only [Context.lookupName?, h.symbols, h.scopes]

/-- Contexts that are alike have a symbol declared at the same place. -/
theorem Alike.placeOf (h : Alike odd ctx ctx') (id : SymbolId) :
    ctx'.placeOf id = ctx.placeOf id := by
  simp only [Context.placeOf, h.symbols]

end Context

/-! ## Programs -/

namespace Analysis

variable {α β : Type} {odd nodes nodes' : List NodeId} {name : String}

/-- **What an analysis does**: in contexts that are alike it gives the same answer and takes the
same steps, which spare the name and all nodes but some. -/
def Acts (odd nodes : List NodeId) (name : String) (m : Analysis α) : Prop :=
  ∀ ctx ctx', Context.Alike odd ctx ctx' →
    ∃ a deeds, (∀ deed ∈ deeds, Deed.Spares nodes name deed) ∧
    m.run ctx = (a, ctx.after deeds) ∧ m.run ctx' = (a, ctx'.after deeds)

/-- What an analysis does may be stated of more nodes. -/
theorem Acts.mono {m : Analysis α} (h : Acts odd nodes name m) (hnodes : nodes ⊆ nodes') :
    Acts odd nodes' name m := by
  intro ctx ctx' halike
  obtain ⟨a, deeds, hdeeds, hrun⟩ := h ctx ctx' halike
  exact ⟨a, deeds, fun deed hdeed => (hdeeds deed hdeed).mono hnodes, hrun⟩

/-- What runs after a run. -/
theorem run_bind_of {m : Analysis α} {ctx ctx₁ : Context} {a : α} (h : m.run ctx = (a, ctx₁))
    (f : α → Analysis β) : (m >>= f).run ctx = (f a).run ctx₁ := by
  rw [StateT.run_bind, h]
  rfl

/-- A value alone takes no step. -/
theorem acts_pure (a : α) : Acts odd nodes name (pure a) :=
  fun _ _ _ => ⟨a, [], nofun, rfl, rfl⟩

/-- One program after another. -/
theorem Acts.bind {m : Analysis α} {f : α → Analysis β} (hm : Acts odd nodes name m)
    (hf : ∀ a, Acts odd nodes name (f a)) : Acts odd nodes name (m >>= f) := by
  intro ctx ctx' halike
  obtain ⟨a, deeds, hdeeds, hrun, hrun'⟩ := hm ctx ctx' halike
  obtain ⟨b, more, hmore, hnext, hnext'⟩ := hf a _ _ (halike.after deeds)
  refine ⟨b, deeds ++ more, fun deed hdeed => ?_, ?_, ?_⟩
  · exact (List.mem_append.1 hdeed).elim (hdeeds deed) (hmore deed)
  · rw [run_bind_of hrun, Context.after_append]
    exact hnext
  · rw [run_bind_of hrun', Context.after_append]
    exact hnext'

/-- A program that first looks at the context, at what is the same in contexts that are alike. -/
theorem acts_read {f : Context → Analysis β}
    (hsame : ∀ ctx ctx', Context.Alike odd ctx ctx' → f ctx' = f ctx)
    (h : ∀ ctx, Acts odd nodes name (f ctx)) : Acts odd nodes name (get >>= f) := by
  intro ctx ctx' halike
  obtain ⟨b, deeds, hdeeds, hrun, hrun'⟩ := h ctx ctx ctx' halike
  refine ⟨b, deeds, hdeeds, hrun, ?_⟩
  rw [← hsame ctx ctx' halike] at hrun'
  exact hrun'

/-- A program that is one step. -/
theorem acts_step (deed : Deed) (hdeed : deed.Spares nodes name) :
    Acts odd nodes name (modify fun ctx => deed.apply ctx : Analysis Unit) :=
  fun _ _ _ => ⟨(), [deed], by simpa using hdeed, rfl, rfl⟩

/-- A report is one step. -/
theorem acts_report (error : SemanticError) : Acts odd nodes name (report error) :=
  acts_step (.report error) trivial

/-- A mismatch is one report, whose text depends on the symbols only. -/
theorem acts_mismatch (cause : Mismatch) (span : Span) :
    Acts odd nodes name (mismatch cause span) :=
  acts_report _

/-- A report with an answer is one step. -/
theorem acts_report_return (error : SemanticError) (a : α) :
    Acts odd nodes name (do report error; return a) :=
  (acts_report error).bind fun _ => acts_pure a

/-- A mismatch with an answer is one report. -/
theorem acts_mismatch_return (cause : Mismatch) (span : Span) (a : α) :
    Acts odd nodes name (do mismatch cause span; return a) :=
  acts_report_return _ a

/-- A new symbol is one step, which spares every other name. -/
theorem acts_addSymbol (symbol : Symbol) (h : symbol.name ≠ name) :
    Acts odd nodes name (addSymbol symbol) := by
  intro ctx ctx' halike
  refine ⟨ctx.symbols.size, [.add symbol], by simpa [Deed.Spares] using h, rfl, ?_⟩
  rw [← halike.symbols]
  rfl

/-- A change of entries that renames nothing is one step. -/
theorem acts_modifySymbols {f : SymbolTable → SymbolTable}
    (h : ∀ table id, (f table).name id = SymbolTable.name table id) :
    Acts odd nodes name (modifySymbols f) :=
  acts_step (.change f) h

/-- Opening a scope is one step, whose number is that of the new scope. -/
theorem acts_pushScope (parent : ScopeId) (kind : ScopeKind) :
    Acts odd nodes name (pushScope parent kind) := by
  intro ctx ctx' halike
  refine ⟨ctx.scopes.size, [.push parent kind], by simp [Deed.Spares], rfl, ?_⟩
  rw [← halike.scopes]
  rfl

/-- Attaching a symbol is one step. -/
theorem acts_bindSymbol (node : NodeId) (symbol : SymbolId) :
    Acts odd nodes name (bindSymbol node symbol) :=
  acts_step (.attachSymbol node symbol) trivial

/-- Attaching a type is one step, at a node of the tree at hand. -/
theorem acts_bindType {node : NodeId} (h : node ∈ nodes) (ty : Ty) :
    Acts odd nodes name (bindType node ty) :=
  acts_step (.attachType node ty) h

/-- Attaching a scope is one step. -/
theorem acts_bindScope (node : NodeId) (scope : ScopeId) :
    Acts odd nodes name (bindScope node scope) :=
  acts_step (.attachScope node scope) trivial

/-- Defining a name is one step, or a report that the name is taken. -/
theorem acts_define (scope : ScopeId) {bound : String} (h : bound ≠ name) (symbol : SymbolId)
    (span : Span) : Acts odd nodes name (define scope bound symbol span) := by
  intro ctx ctx' halike
  cases hfree : ctx.scopes.lookupLocal? scope bound with
  | some existing =>
      have hfree' : ctx'.scopes.lookupLocal? scope bound = some existing := by
        rw [halike.scopes, hfree]
      refine ⟨false, [.report (.duplicate bound (ctx.placeOf existing) span)], by
        simp [Deed.Spares], ?_, ?_⟩
      · simp [define, hfree]
        rfl
      · simp [define, hfree', halike.placeOf]
        rfl
  | none =>
      have hfree' : ctx'.scopes.lookupLocal? scope bound = none := by rw [halike.scopes, hfree]
      refine ⟨true, [.bind scope bound symbol], by simpa [Deed.Spares] using h, ?_, ?_⟩
      · simp [define, hfree]
        rfl
      · simp [define, hfree']
        rfl

/-- A name is bound, and its symbol is listed if that was possible. -/
theorem acts_defineThen (scope : ScopeId) {bound : String} (h : bound ≠ name) (symbol : SymbolId)
    (span : Span) {f : SymbolTable → SymbolTable}
    (hf : ∀ table id, (f table).name id = SymbolTable.name table id) :
    Acts odd nodes name (do if ← define scope bound symbol span then modifySymbols f) := by
  refine (acts_define scope h symbol span).bind fun isNew => ?_
  split
  · exact acts_modifySymbols hf
  · exact acts_pure _

/-- The scope of a node is opened and attached, or it is there already. -/
theorem acts_scopeFor (node : NodeId) (parent : ScopeId) (kind : ScopeKind) :
    Acts odd nodes name (scopeFor node parent kind) := by
  refine acts_read (fun ctx ctx' h => ?_) fun ctx => ?_
  · simp only [Bindings.scope?, h.scope?]
  · split
    · exact acts_pure _
    · exact (acts_pushScope _ _).bind fun scope => (acts_bindScope _ _).bind fun _ => acts_pure _

/-- The symbol of a node may be asked for where the node is not odd. -/
theorem acts_symbolOf? {node : NodeId} (h : node ∉ odd) : Acts odd nodes name (symbolOf? node) :=
  acts_read (fun ctx ctx' halike => by rw [halike.symbol? node h]) fun _ => acts_pure _

/-- A loop acts where each of its rounds does. -/
theorem acts_forM {f : α → Analysis PUnit} {all : List α}
    (h : ∀ a ∈ all, Acts odd nodes name (f a)) :
    Acts odd nodes name (all.forM f) := by
  induction all with
  | nil => exact acts_pure _
  | cons a rest ih =>
      exact (h a (List.mem_cons_self ..)).bind fun _ => ih fun b hb =>
        h b (List.mem_cons_of_mem _ hb)

section

variable {m : Analysis α} {ctx ctx' : Context} {a : α} {ctx₁ : Context}

/-- A run that reports nothing is followed by a run in a context that is alike. -/
theorem Acts.follow (h : Acts odd nodes name m) (halike : ctx.Alike odd ctx')
    (hrun : m.run ctx = (a, ctx₁)) (hclean : ctx₁.Clean) :
    ∃ ctx₁', m.run ctx' = (a, ctx₁') ∧ ctx₁.Alike odd ctx₁' ∧
      ctx₁.diagnostics = ctx.diagnostics ∧ ctx₁'.diagnostics = ctx'.diagnostics := by
  obtain ⟨b, deeds, -, hdeeds, hdeeds'⟩ := h ctx ctx' halike
  cases hrun.symm.trans hdeeds
  have hnone : deeds.filterMap Deed.error? = [] := by
    rw [Context.Clean, Context.diagnostics_after, Diagnostics.hasErrors_reportAll] at hclean
    exact hclean.2
  refine ⟨_, hdeeds', halike.after deeds, ?_, ?_⟩
  · rw [Context.diagnostics_after, hnone, Diagnostics.reportAll_nil]
  · rw [Context.diagnostics_after, hnone, Diagnostics.reportAll_nil]

/-- Nothing is reported behind a run: then nothing was reported in front of it. -/
theorem Acts.clean (h : Acts odd nodes name m) (hrun : m.run ctx = (a, ctx₁))
    (hclean : ctx₁.Clean) :
    ctx.Clean := by
  obtain ⟨-, -, -, hsame, -⟩ := h.follow (.refl odd ctx) hrun hclean
  rwa [Context.Clean, ← hsame]

/-- Other nodes keep their types. -/
theorem Acts.type? (h : Acts odd nodes name m) (hrun : m.run ctx = (a, ctx₁)) {n : NodeId}
    (hn : n ∉ nodes) : ctx₁.bindings.type? n = ctx.bindings.type? n := by
  obtain ⟨b, deeds, hdeeds, hdone, -⟩ := h ctx ctx (.refl odd ctx)
  cases hrun.symm.trans hdone
  exact Context.type?_after hdeeds ctx hn

/-- The name stays unknown. -/
theorem Acts.lacks (h : Acts odd nodes name m) (hrun : m.run ctx = (a, ctx₁))
    (hlacks : ctx.Lacks name) : ctx₁.Lacks name := by
  obtain ⟨b, deeds, hdeeds, hdone, -⟩ := h ctx ctx (.refl odd ctx)
  cases hrun.symm.trans hdone
  exact hlacks.after hdeeds

end

end Analysis

end ClassLang
