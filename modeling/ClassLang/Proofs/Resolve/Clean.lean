import ClassLang.Context

/-!
# Analyses that report nothing

An analysis goes on after an error, so what it leaves behind is only worth something if it
reported none.  `Does m R` says what a run of `m` that reports nothing has done: the run
before it reported nothing either, and the contexts around it are related by `R`.  Reports
are the runs that cannot be, and everything else is composed with `Does.bind`.
-/

namespace ClassLang

/-- Nothing has been reported. -/
def Context.Clean (ctx : Context) : Prop := ctx.diagnostics.hasErrors = false

/-- A report is an error. -/
theorem Diagnostics.hasErrors_report (ds : Diagnostics) (error : SemanticError) :
    (ds.report error).hasErrors = true := by
  simp [hasErrors, errorCount, report, Diagnostic.ofSemantic]

section

variable (b : Bindings) (node other : NodeId) (symbol : SymbolId) (ty : Ty) (scope : ScopeId)

@[simp] theorem Bindings.symbol?_bindType : (b.bindType node ty).symbol? other = b.symbol? other :=
  rfl

@[simp] theorem Bindings.symbol?_bindScope :
    (b.bindScope node scope).symbol? other = b.symbol? other := rfl

@[simp] theorem Bindings.type?_bindSymbol :
    (b.bindSymbol node symbol).type? other = b.type? other := rfl

@[simp] theorem Bindings.type?_bindScope : (b.bindScope node scope).type? other = b.type? other :=
  rfl

@[simp] theorem Bindings.scope?_bindSymbol :
    (b.bindSymbol node symbol).scope? other = b.scope? other := rfl

@[simp] theorem Bindings.scope?_bindType : (b.bindType node ty).scope? other = b.scope? other :=
  rfl

/-- A scope is attached to one node. -/
theorem Bindings.scope?_bindScope :
    (b.bindScope node scope).scope? other = if other = node
    then some scope else b.scope? other := by
  by_cases h : other = node
  · simp [scope?, bindScope, h]
  · have hdifferent : (other == node) = false := by simpa using h
    simp [scope?, bindScope, List.lookup_cons, h, hdifferent]

end

namespace Analysis

variable {α β : Type} {R R' : Context → α → Context → Prop}

/-- What a program has done if nothing is reported behind it. -/
def Does (m : Analysis α) (R : Context → α → Context → Prop) : Prop :=
  ∀ ctx a ctx', m.run ctx = (a, ctx') → ctx'.Clean → ctx.Clean ∧ R ctx a ctx'

/-- What is done may be stated more weakly. -/
theorem Does.mono {m : Analysis α} (h : Does m R)
    (hR : ∀ ctx a ctx', R ctx a ctx' → R' ctx a ctx') :
    Does m R' := by
  intro ctx a ctx' hrun hclean
  obtain ⟨hbefore, hr⟩ := h ctx a ctx' hrun hclean
  exact ⟨hbefore, hR ctx a ctx' hr⟩

/-- What is known of a program in two ways. -/
theorem Does.and {m : Analysis α} (h : Does m R) (h' : Does m R') :
    Does m fun ctx a ctx' => R ctx a ctx' ∧ R' ctx a ctx' := by
  intro ctx a ctx' hrun hclean
  exact ⟨(h ctx a ctx' hrun hclean).1, (h ctx a ctx' hrun hclean).2, (h' ctx a ctx' hrun hclean).2⟩

/-- Something that is done whatever a parameter is. -/
theorem Does.forall {ι : Type} [Nonempty ι] {m : Analysis α} {S : ι → Context → α → Context → Prop}
    (h : ∀ i, Does m (S i)) : Does m fun ctx a ctx' => ∀ i, S i ctx a ctx' := by
  intro ctx a ctx' hrun hclean
  refine ⟨?_, fun i => (h i ctx a ctx' hrun hclean).2⟩
  exact (h (Classical.choice inferInstance) ctx a ctx' hrun hclean).1

/-- One program after another. -/
theorem Does.bind {m : Analysis α} {f : α → Analysis β} {S : α → Context → β → Context → Prop}
    (hm : Does m R) (hf : ∀ a, Does (f a) (S a)) :
    Does (m >>= f) fun ctx b ctx'' => ∃ a ctx', R ctx a ctx' ∧ S a ctx' b ctx'' := by
  intro ctx b ctx'' hrun hclean
  obtain ⟨hmiddle, hs⟩ := hf (m.run ctx).1 (m.run ctx).2 b ctx'' hrun hclean
  obtain ⟨hbefore, hr⟩ := hm ctx (m.run ctx).1 (m.run ctx).2 rfl hmiddle
  exact ⟨hbefore, _, _, hr, hs⟩

/-- A value alone does nothing. -/
theorem does_pure (a : α) : Does (pure a) fun ctx b ctx' => b = a ∧ ctx' = ctx := by
  intro ctx b ctx' hrun hclean
  cases hrun
  exact ⟨hclean, rfl, rfl⟩

/-- A program that first looks at the context. -/
theorem does_read {f : Context → Analysis β} {S : Context → β → Context → Prop}
    (h : ∀ before, Does (f before) fun ctx b ctx' => before = ctx → S ctx b ctx') :
    Does (get >>= f) S := by
  intro ctx b ctx' hrun hclean
  obtain ⟨hbefore, hs⟩ := h ctx ctx b ctx' hrun hclean
  exact ⟨hbefore, hs rfl⟩

/-- A change that says nothing. -/
theorem does_modify {f : Context → Context} (h : ∀ ctx, (f ctx).diagnostics = ctx.diagnostics) :
    Does (modify f : Analysis Unit) fun ctx _ ctx' => ctx' = f ctx := by
  intro ctx a ctx' hrun hclean
  cases hrun
  exact ⟨by simpa [Context.Clean, h] using hclean, rfl⟩

/-- No clean run reports. -/
theorem does_report (error : SemanticError) : Does (report error) fun _ _ _ => False := by
  intro ctx a ctx' hrun hclean
  cases hrun
  exact absurd hclean (by simp [Context.Clean, Diagnostics.hasErrors_report])

/-- No clean run has a mismatch. -/
theorem does_mismatch (cause : Mismatch) (span : Span) :
    Does (mismatch cause span) fun _ _ _ => False :=
  does_report _

/-- A program that begins with a report does not do anything without one. -/
theorem Does.never {m : Analysis α} (h : Does m fun _ _ _ => False) : Does m R :=
  h.mono fun _ _ _ => False.elim

/-- A report, and then anything. -/
theorem Does.bind_never {m : Analysis α} {f : α → Analysis β} {S : Context → β → Context → Prop}
    (hm : Does m fun _ _ _ => False) {S' : α → Context → β → Context → Prop}
    (hf : ∀ a, Does (f a) (S' a)) : Does (m >>= f) S :=
  (hm.bind hf).mono fun _ _ _ ⟨_, _, h, _⟩ => h.elim

/-- A report with a result, which does not matter. -/
theorem does_report_return (error : SemanticError) (a : α) :
    Does (do report error; return a) R :=
  (does_report error).bind_never fun _ => does_pure a

/-- No clean run has a mismatch, whatever is answered behind it. -/
theorem does_mismatch_return (cause : Mismatch) (span : Span) (a : α) :
    Does (do mismatch cause span; return a) R :=
  does_report_return _ a

/-- A new symbol gets the next number. -/
theorem does_addSymbol (symbol : Symbol) :
    Does (addSymbol symbol) fun ctx id ctx' =>
      id = ctx.symbols.size ∧ ctx' = { ctx with symbols := ctx.symbols.add symbol } := by
  intro ctx a ctx' hrun hclean
  cases hrun
  exact ⟨hclean, rfl, rfl⟩

/-- Entries of symbols are changed, and nothing else. -/
theorem does_modifySymbols (f : SymbolTable → SymbolTable) :
    Does (modifySymbols f) fun ctx _ ctx' => ctx' = { ctx with symbols := f ctx.symbols } :=
  does_modify fun _ => rfl

/-- A new scope gets the next number. -/
theorem does_pushScope (parent : ScopeId) (kind : ScopeKind) :
    Does (pushScope parent kind) fun ctx id ctx' =>
      id = ctx.scopes.size ∧ ctx' = { ctx with scopes := ctx.scopes.push parent kind } := by
  intro ctx a ctx' hrun hclean
  cases hrun
  exact ⟨hclean, rfl, rfl⟩

/-- A symbol is attached to a node, and nothing else. -/
theorem does_bindSymbol (node : NodeId) (symbol : SymbolId) :
    Does (bindSymbol node symbol) fun ctx _ ctx' =>
      ctx' = { ctx with bindings := ctx.bindings.bindSymbol node symbol } :=
  does_modify fun _ => rfl

/-- A type is attached to a node, and nothing else. -/
theorem does_bindType (node : NodeId) (ty : Ty) :
    Does (bindType node ty) fun ctx _ ctx' =>
      ctx' = { ctx with bindings := ctx.bindings.bindType node ty } :=
  does_modify fun _ => rfl

/-- A scope is attached to a node, and nothing else. -/
theorem does_bindScope (node : NodeId) (scope : ScopeId) :
    Does (bindScope node scope) fun ctx _ ctx' =>
      ctx' = { ctx with bindings := ctx.bindings.bindScope node scope } :=
  does_modify fun _ => rfl

/-- A name that was defined was free. -/
theorem does_define (scope : ScopeId) (name : String) (symbol : SymbolId) (span : Span) :
    Does (define scope name symbol span) fun ctx bound ctx' =>
      bound = true ∧ ctx.scopes.lookupLocal? scope name = none ∧
        ctx' = { ctx with scopes := ctx.scopes.bind scope name symbol } := by
  intro ctx bound ctx' hrun hclean
  cases hfree : ctx.scopes.lookupLocal? scope name with
  | some existing =>
      have hreport : (do report (.duplicate name (ctx.placeOf existing) span); return false).run
          ctx = (bound, ctx') := by
        simpa [define, hfree] using hrun
      exact (does_report_return (R := fun _ _ _ => False) _ _ ctx bound ctx' hreport hclean).2.elim
  | none =>
      have hset : (pure (true, { ctx with scopes := ctx.scopes.bind scope name symbol }) : Id _) =
          (bound, ctx') := by
        simpa [define, hfree] using hrun
      cases hset
      exact ⟨hclean, rfl, hfree, rfl⟩

/-- A name is defined, and its symbol is listed if nothing was reported. -/
theorem does_defineThen (scope : ScopeId) (name : String) (symbol : SymbolId) (span : Span)
    (f : SymbolTable → SymbolTable) :
    Does (do if ← define scope name symbol span then modifySymbols f) fun ctx _ ctx' =>
      ctx.scopes.lookupLocal? scope name = none ∧
        ctx' = { ctx with
          scopes := ctx.scopes.bind scope name symbol
          symbols := f ctx.symbols } := by
  refine ((does_define scope name symbol span).bind (S := fun bound ctx _ ctx' => bound = true →
    ctx' = { ctx with symbols := f ctx.symbols }) fun bound => ?_).mono ?_
  · split
    · exact (does_modifySymbols f).mono fun _ _ _ h _ => h
    · next hbound => exact (does_pure _).mono fun _ _ _ _ h => absurd h hbound
  · rintro ctx _ ctx' ⟨bound, _, ⟨hbound, hfree, rfl⟩, hlisted⟩
    exact ⟨hfree, hlisted hbound⟩

/-- The scope of a node: the one it opened before, or a new one. -/
theorem does_scopeFor (node : NodeId) (parent : ScopeId) (kind : ScopeKind) :
    Does (scopeFor node parent kind) fun ctx scope ctx' =>
      (ctx.bindings.scope? node = some scope ∧ ctx' = ctx) ∨
      (ctx.bindings.scope? node = none ∧ scope = ctx.scopes.size ∧
        ctx' = { ctx with
          scopes := ctx.scopes.push parent kind
          bindings := ctx.bindings.bindScope node ctx.scopes.size }) := by
  refine does_read fun before => ?_
  split
  · next scope hscope =>
      refine (does_pure scope).mono ?_
      rintro ctx a ctx' ⟨rfl, rfl⟩ rfl
      exact .inl ⟨hscope, rfl⟩
  · next hscope =>
      refine ((does_pushScope parent kind).bind fun scope =>
        (does_bindScope node scope).bind fun _ => does_pure scope).mono ?_
      rintro ctx a ctx' ⟨scope, ctx₁, ⟨rfl, rfl⟩, _, ctx₂, rfl, rfl, rfl⟩ rfl
      exact .inr ⟨hscope, rfl, rfl⟩

/-- A program for each element of a list: what each step keeps, the whole run keeps. -/
theorem does_forM {all : List α} {f : α → Analysis PUnit} {I : List α → Context → Prop}
    (h : ∀ done a rest, all = done ++ a :: rest →
      Does (f a) fun ctx _ ctx' => I done ctx → I (done ++ [a]) ctx') :
    Does (all.forM f) fun ctx _ ctx' => I [] ctx → I all ctx' := by
  have hrun : ∀ todo done, all = done ++ todo →
      Does (todo.forM f) fun ctx _ ctx' => I done ctx → I all ctx' := by
    intro todo
    induction todo with
    | nil =>
        intro done hall
        refine (does_pure _).mono ?_
        rintro ctx _ ctx' ⟨-, rfl⟩ hdone
        simpa [hall] using hdone
    | cons a rest ih =>
        intro done hall
        refine ((h done a rest hall).bind fun _ => ih (done ++ [a]) (by simpa using hall)).mono ?_
        rintro ctx _ ctx' ⟨_, _, hstep, hrest⟩ hdone
        exact hrest (hstep hdone)
  exact hrun all [] rfl

/-- Asking for the symbol of a node changes nothing. -/
theorem does_symbolOf? (node : NodeId) :
    Does (symbolOf? node) fun ctx symbol ctx' =>
      symbol = ctx.bindings.symbol? node ∧ ctx' = ctx := by
  refine does_read fun before => (does_pure _).mono ?_
  rintro ctx symbol ctx' ⟨rfl, rfl⟩ rfl
  exact ⟨rfl, rfl⟩

end Analysis

end ClassLang
