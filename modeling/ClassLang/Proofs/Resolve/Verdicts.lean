import ClassLang.Proofs.Resolve.Edits
import ClassLang.Proofs.Resolve.Slips

/-!
# What an expression is judged by

Resolving an expression reads the symbols and the scopes, and keeps both.  Its type and the
errors that are reported depend on nothing else (`Expr.judged_resolve`): neither on earlier
reports nor on what has been attached to nodes.  So two expressions can be resolved in either
order.

One check asks for the symbol of a node, that of the target of an assignment.  It asks for what
resolving the target has just attached there, unless the target is unknown and the check is
silent (`Expr.judged_resolveTarget`).
-/

namespace ClassLang

open Analysis

/-- Two contexts with the same symbols and scopes. -/
structure Context.SameTables (ctx ctx' : Context) : Prop where
  symbols : ctx'.symbols = ctx.symbols
  scopes : ctx'.scopes = ctx.scopes

namespace Context.SameTables

variable {ctx ctx' : Context}

/-- Every context has the same tables as itself. -/
theorem refl (ctx : Context) : ctx.SameTables ctx := ⟨rfl, rfl⟩

/-- The same tables give the same answer about a name. -/
theorem lookupName? (h : ctx.SameTables ctx') (scope : ScopeId) (name : String) :
    ctx'.lookupName? scope name = ctx.lookupName? scope name := by
  simp only [Context.lookupName?, h.symbols, h.scopes]

end Context.SameTables

/-! ## Verdicts -/

namespace Analysis

variable {α β : Type} {ctx : Context}

/-- A program reports an error in a context. -/
def Reports (m : Analysis α) (ctx : Context) : Prop :=
  (m.run ctx).2.diagnostics ≠ ctx.diagnostics

instance (m : Analysis α) (ctx : Context) : Decidable (m.Reports ctx) :=
  inferInstanceAs (Decidable (_ ≠ _))

/-- What a program answers and reports in a context, and in every other one with the same
tables.  It keeps the tables. -/
def Finds (m : Analysis α) (ctx : Context) (a : α) (errors : List SemanticError) : Prop :=
  ∀ ctx', ctx.SameTables ctx' → ∃ ctx₁, m.run ctx' = (a, ctx₁) ∧ ctx.SameTables ctx₁ ∧
    ctx₁.diagnostics = ctx'.diagnostics.reportAll errors

namespace Finds

variable {m : Analysis α} {a : α} {errors : List SemanticError}

/-- The answer that is found is the answer of the run. -/
theorem answer (h : m.Finds ctx a errors) : (m.run ctx).1 = a := by
  obtain ⟨ctx₁, hrun, -⟩ := h ctx (.refl ctx)
  rw [hrun]

/-- A run reports exactly where errors were found. -/
theorem reports_iff (h : m.Finds ctx a errors) : m.Reports ctx ↔ errors ≠ [] := by
  obtain ⟨ctx₁, hrun, -, hdiagnostics⟩ := h ctx (.refl ctx)
  rw [Reports, hrun, hdiagnostics, Diagnostics.reportAll_eq]
  cases hds : ctx.diagnostics with
  | mk entries semantic => simp [Diagnostics.mk.injEq]

/-- One program after another. -/
theorem bind {f : α → Analysis β} {b : β} {more : List SemanticError} (hm : m.Finds ctx a errors)
    (hf : (f a).Finds ctx b more) : (m >>= f).Finds ctx b (errors ++ more) := by
  intro ctx' hsame
  obtain ⟨ctx₁, hrun, hsame₁, hfirst⟩ := hm ctx' hsame
  obtain ⟨ctx₂, hrest, hsame₂, hsecond⟩ := hf ctx₁ hsame₁
  refine ⟨ctx₂, (run_bind_of hrun f).trans hrest, hsame₂, ?_⟩
  rw [hsecond, hfirst, Diagnostics.reportAll_append]

end Finds

/-- A value alone is found without errors. -/
theorem finds_pure (a : α) : (pure a : Analysis α).Finds ctx a [] :=
  fun ctx' hsame => ⟨ctx', rfl, hsame, rfl⟩

/-- A report finds one error. -/
theorem finds_report (error : SemanticError) : (report error).Finds ctx () [error] :=
  fun _ hsame => ⟨_, rfl, ⟨hsame.symbols, hsame.scopes⟩, rfl⟩

/-- Attaching a symbol finds no error and leaves the tables. -/
theorem finds_bindSymbol (node : NodeId) (symbol : SymbolId) :
    (bindSymbol node symbol).Finds ctx () [] :=
  fun _ hsame => ⟨_, rfl, ⟨hsame.symbols, hsame.scopes⟩, rfl⟩

/-- Attaching a type finds no error and leaves the tables. -/
theorem finds_bindType (node : NodeId) (ty : Ty) : (bindType node ty).Finds ctx () [] :=
  fun _ hsame => ⟨_, rfl, ⟨hsame.symbols, hsame.scopes⟩, rfl⟩

/-- Recording the type of a node changes nothing of what is found. -/
theorem Finds.typed {find : Analysis Ty} {ty : Ty} {errors : List SemanticError}
    (h : find.Finds ctx ty errors) (node : NodeId) : (typed node find).Finds ctx ty errors := by
  have hattach : (do bindType node ty; return ty : Analysis Ty).Finds ctx ty [] :=
    (finds_bindType node ty).bind (finds_pure ty)
  rw [← List.append_nil errors]
  exact h.bind hattach

/-- A program whose verdict depends on the tables only. -/
def Judged (m : Analysis α) : Prop := ∀ ctx, ∃ a errors, m.Finds ctx a errors

/-- A value alone is judged by the tables. -/
theorem judged_pure (a : α) : Judged (pure a) := fun _ => ⟨a, [], finds_pure a⟩

/-- Programs one behind the other are judged by the tables where both are. -/
theorem Judged.bind {m : Analysis α} {f : α → Analysis β} (hm : Judged m)
    (hf : ∀ a, Judged (f a)) : Judged (m >>= f) := by
  intro ctx
  obtain ⟨a, errors, h⟩ := hm ctx
  obtain ⟨b, more, h'⟩ := hf a ctx
  exact ⟨b, errors ++ more, h.bind h'⟩

/-- A program that first looks at the tables. -/
theorem judged_read {f : Context → Analysis β}
    (hsame : ∀ ctx ctx', ctx.SameTables ctx' → f ctx' = f ctx) (h : ∀ ctx, Judged (f ctx)) :
    Judged (get >>= f) := by
  intro ctx
  obtain ⟨b, errors, hfinds⟩ := h ctx ctx
  refine ⟨b, errors, fun ctx' hctx' => ?_⟩
  rw [← hsame ctx ctx' hctx'] at hfinds
  exact hfinds ctx' hctx'

/-- A report with an answer behind it is judged by the tables. -/
theorem judged_report_return (error : SemanticError) (a : α) :
    Judged (do report error; return a) :=
  fun _ => ⟨a, [error], (finds_report error).bind (finds_pure a)⟩

/-- A mismatch is judged by the tables: its message is made of the names of types. -/
theorem judged_mismatch (cause : Mismatch) (span : Span) : Judged (mismatch cause span) :=
  fun _ => ⟨(), _, finds_report _⟩

/-- A mismatch with an answer behind it is judged by the tables. -/
theorem judged_mismatch_return (cause : Mismatch) (span : Span) (a : α) :
    Judged (do mismatch cause span; return a) :=
  judged_report_return _ a

/-- Attaching a symbol is judged by the tables. -/
theorem judged_bindSymbol (node : NodeId) (symbol : SymbolId) :
    Judged (bindSymbol node symbol) :=
  fun _ => ⟨(), [], finds_bindSymbol node symbol⟩

/-- A symbol is attached, and then there is an answer. -/
theorem judged_bindSymbol_return (node : NodeId) (symbol : SymbolId) (a : α) :
    Judged (do bindSymbol node symbol; return a) :=
  (judged_bindSymbol node symbol).bind fun _ => judged_pure a

/-- A typed search is judged by the tables where the search is. -/
theorem Judged.typed {find : Analysis Ty} (h : Judged find) (node : NodeId) :
    Judged (typed node find) := by
  intro ctx
  obtain ⟨ty, errors, hfinds⟩ := h ctx
  exact ⟨ty, errors, hfinds.typed node⟩

/-! ## Checks -/

/-- The name of a type is judged by the tables. -/
theorem judged_typeName (ty : Ty) : Judged (typeName ty) :=
  judged_read (fun _ _ h => by rw [h.symbols]) fun _ => judged_pure _

/-- Whether a value may be stored is judged by the tables. -/
theorem judged_checkAssignable (actual target : Ty) (span : Span) :
    Judged (checkAssignable actual target span) := by
  unfold checkAssignable
  split
  · exact judged_pure _
  · exact (judged_typeName _).bind fun _ => (judged_typeName _).bind fun _ =>
      judged_mismatch _ _

/-- Whether a condition is a `bool` is judged by the tables. -/
theorem judged_expectBool (ty : Ty) (what : String) (span : Span) :
    Judged (expectBool ty what span) := by
  unfold expectBool
  split
  · exact judged_pure _
  · exact (judged_typeName _).bind fun _ => judged_mismatch _ _

/-- The common type of two integers is judged by the tables. -/
theorem judged_integerPair (left right : Ty) (operator : String) (span : Span) :
    Judged (integerPair left right operator span) := by
  unfold integerPair
  split
  · exact judged_pure _
  · split
    · exact judged_pure _
    · exact (judged_typeName _).bind fun _ => (judged_typeName _).bind fun _ =>
        judged_mismatch_return _ _ _

end Analysis

/-- The number of arguments is judged by the tables. -/
theorem FunctionEntry.judged_checkCount (entry : FunctionEntry) (expected given : Nat)
    (span : Span) : Judged (entry.checkCount expected given span) := by
  have hsplit : ∀ fits : Prop, ∀ _ : Decidable fits, Judged (if fits then pure () else
      mismatch (.argumentCount entry.name entry.traits.variadic expected given) span) := by
    intro fits _
    split
    · exact judged_pure _
    · exact judged_mismatch _ _
  exact hsplit _ _

/-! ## Literals and names -/

/-- The type of a literal is judged by the tables. -/
theorem Literal.judged_resolve (value : Literal) (span : Span) (expected : Option Ty) :
    Judged (value.resolve span expected) := by
  unfold Literal.resolve
  split
  · exact judged_pure _
  · exact judged_pure _
  · dsimp only
    split
    · exact judged_pure _
    · exact judged_mismatch_return _ _ _

namespace Ident

/-- The meaning of a name is judged by the tables. -/
theorem judged_resolveValue (ident : Ident) (node : NodeId) (scope : ScopeId) :
    Judged (ident.resolveValue node scope) := by
  refine judged_read (fun _ _ h => by simp only [h.symbols, h.lookupName?]) fun ctx => ?_
  split
  · exact judged_report_return _ _
  · split
    · exact judged_bindSymbol_return _ _ _
    · exact judged_bindSymbol_return _ _ _
    · exact judged_bindSymbol_return _ _ _
    · exact judged_mismatch_return _ _ _
    · exact judged_pure _

/-- The member of a value is judged by the tables. -/
theorem judged_resolveMember (ident : Ident) (node : NodeId) (object : Ty) (isPlace : Bool)
    (objectSpan span : Span) :
    Judged (ident.resolveMember node object isPlace objectSpan span) := by
  unfold resolveMember
  split
  · exact judged_pure _
  · split
    · exact judged_mismatch_return _ _ _
    · refine judged_read (fun _ _ h => by simp only [h.symbols]) fun ctx => ?_
      dsimp only
      split
      · exact (judged_typeName _).bind fun _ => judged_mismatch_return _ _ _
      · exact judged_report_return _ _
      · split
        · exact judged_bindSymbol_return _ _ _
        · exact judged_mismatch_return _ _ _

/-- The callee of a call is judged by the tables. -/
theorem judged_resolveCallee (ident : Ident) (target : Option SymbolId) :
    Judged (ident.resolveCallee target) := by
  refine judged_read (fun _ _ h => by simp only [h.symbols]) fun ctx => ?_
  split
  · exact judged_report_return _ _
  · dsimp only
    split
    · exact judged_pure _
    · exact judged_mismatch_return _ _ _

/-- A call, up to its arguments, is judged by the tables. -/
theorem judged_resolveCall (callee : Ident) (node : NodeId) (target : Option SymbolId)
    (given : Nat) (span : Span) : Judged (callee.resolveCall node target given span) := by
  refine (callee.judged_resolveCallee target).bind fun found => ?_
  split
  · exact judged_pure _
  · exact (judged_bindSymbol _ _).bind fun _ =>
      judged_read (fun _ _ h => by simp only [h.symbols]) fun ctx =>
        (FunctionEntry.judged_checkCount _ _ _ _).bind fun _ => judged_pure _

/-- The method of a receiver is judged by the tables. -/
theorem judged_resolveMethod (callee : Ident) (receiver : Ty) :
    Judged (callee.resolveMethod receiver) := by
  unfold resolveMethod
  split
  · exact judged_pure _
  · refine judged_read (fun _ _ h => by simp only [h.symbols]) fun ctx => ?_
    dsimp only
    split
    · exact judged_pure _
    · exact (judged_typeName _).bind fun _ => judged_mismatch_return _ _ _

/-- A name that has a type is attached to what it stands for. -/
theorem always_resolveValue (ident : Ident) (node : NodeId) (scope : ScopeId) :
    Always (ident.resolveValue node scope) fun ctx ty ctx' => ty = .error ∨
      ∃ symbol, ctx.lookupName? scope ident.name = some symbol ∧
        ctx'.bindings.symbol? node = some symbol := by
  intro ctx
  simp only [resolveValue, StateT.run_bind, StateT.run_get, pure_bind]
  split
  · exact .inl rfl
  · next id hid =>
      have hbound : (ctx.bindings.bindSymbol node id).symbol? node = some id := by
        simp [Bindings.symbol?_bindSymbol]
      split
      · exact .inr ⟨id, hid, hbound⟩
      · exact .inr ⟨id, hid, hbound⟩
      · exact .inr ⟨id, hid, hbound⟩
      · exact .inl rfl
      · exact .inl rfl

end Ident

/-! ## Expressions -/

namespace Expr

/-- The operands of an operator are judged by the tables. -/
theorem judged_checkOperator (op : BinaryOp) (left right : Ty) (leftSpan rightSpan span : Span) :
    Judged (checkOperator op left right leftSpan rightSpan span) := by
  cases op with
  | or | and =>
      exact (judged_expectBool _ _ _).bind fun _ => (judged_expectBool _ _ _).bind fun _ =>
        judged_pure _
  | arith op => exact judged_integerPair _ _ _ _
  | compare op => exact (judged_integerPair _ _ _ _).bind fun _ => judged_pure _

/-- The report about an assignment to a name of a type, if the name is an argument and a pointer. -/
def targetErrors (symbols : SymbolTable) (symbol : SymbolId) (ident : Ident) (ty : Ty) :
    List SemanticError :=
  if (symbols.get? symbol).any Symbol.isArgument && ty.isPointer then
    [.mismatch (.pointerArgument ident.name) ident.span]
  else []

/-- The check of a name that is attached to a symbol. -/
theorem run_checkTarget_name {id : NodeId} {ident : Ident} {symbol : SymbolId}
    {ctx ctx' : Context} (ty : Ty) (hsame : ctx.SameTables ctx')
    (h : ctx'.bindings.symbol? id = some symbol) :
    ∃ ctx₁, ((Expr.name id ident).checkTarget ty).run ctx' = ((), ctx₁) ∧ ctx.SameTables ctx₁ ∧
      ctx₁.diagnostics = ctx'.diagnostics.reportAll (targetErrors ctx.symbols symbol ident ty) := by
  have hrun : ((Expr.name id ident).checkTarget ty).run ctx' =
      (if (ctx.symbols.get? symbol).any Symbol.isArgument && ty.isPointer then
        mismatch (.pointerArgument ident.name) ident.span
      else pure () : Analysis Unit).run ctx' := by
    simp only [checkTarget, StateT.run_bind, StateT.run_get, pure_bind, h, Option.bind_some,
      hsame.symbols]
  rw [hrun, targetErrors]
  split
  · exact finds_report _ ctx' hsame
  · exact finds_pure () ctx' hsame

/-- A name that has a type is attached to what it stands for. -/
theorem symbol?_resolve_name {scope : ScopeId} {hint : Option Ty} {id : NodeId} {ident : Ident}
    {ty : Ty} {ctx ctx₁ : Context}
    (h : ((Expr.name id ident).resolve scope hint).run ctx = (ty, ctx₁)) (hty : ty ≠ .error) :
    ∃ symbol, ctx.lookupName? scope ident.name = some symbol ∧
      ctx₁.bindings.symbol? id = some symbol := by
  have hvalue := ident.always_resolveValue id scope ctx
  simp only [resolve] at h
  obtain ⟨ctx₂, hfind, rfl⟩ := run_typed_cases h
  rw [hfind] at hvalue
  exact hvalue.resolve_left hty

/-- **The target of an assignment and its check**, which asks for the symbol of the target. -/
theorem judged_resolveTarget {scope : ScopeId} {target : Expr}
    (h : Judged (target.resolve scope none)) : Judged (do
      let ty ← target.resolve scope none
      target.checkTarget ty
      return ty) := by
  intro ctx
  obtain ⟨ty, errors, hfinds⟩ := h ctx
  have hsilent : (∀ ctx₁, (target.checkTarget ty).run ctx₁ = ((), ctx₁)) → ∃ a errors,
      (do
        let ty ← target.resolve scope none
        target.checkTarget ty
        return ty).Finds ctx a errors :=
    fun hnothing => ⟨ty, errors ++ [], hfinds.bind fun ctx' hsame =>
      ⟨ctx', run_bind_of (hnothing ctx') _, hsame, rfl⟩⟩
  cases target with
  | name id ident =>
      by_cases herror : ty = .error
      · exact hsilent fun ctx₁ => herror ▸ run_checkTarget_error (.name id ident) ctx₁
      · obtain ⟨_, hrun₀, -⟩ := hfinds ctx (.refl ctx)
        obtain ⟨symbol, hsymbol, -⟩ := symbol?_resolve_name hrun₀ herror
        refine ⟨ty, errors ++ targetErrors ctx.symbols symbol ident ty, fun ctx' hsame => ?_⟩
        obtain ⟨ctx₁, hrun, hsame₁, hfirst⟩ := hfinds ctx' hsame
        obtain ⟨symbol', hsymbol', hattached⟩ := symbol?_resolve_name hrun herror
        rw [hsame.lookupName?, hsymbol, Option.some.injEq] at hsymbol'
        subst hsymbol'
        obtain ⟨ctx₂, hcheck, hsame₂, hsecond⟩ := run_checkTarget_name ty hsame₁ hattached
        refine ⟨ctx₂, (run_bind_of hrun _).trans (run_bind_of hcheck _), hsame₂, ?_⟩
        rw [hsecond, hfirst, Diagnostics.reportAll_append]
  | _ => exact hsilent fun _ => rfl

mutual

/-- **The type of an expression and the errors about it depend on the tables only.** -/
theorem judged_resolve (scope : ScopeId) (expected : Option Ty) :
    (e : Expr) → Judged (e.resolve scope expected)
  | .literal id value span => by
      simp only [resolve]
      exact (value.judged_resolve span expected).typed id
  | .name id ident => by
      simp only [resolve]
      exact (ident.judged_resolveValue id scope).typed id
  | .binary id op left right span => by
      have hleft := fun hint => judged_resolve scope hint left
      have hright := fun hint => judged_resolve scope hint right
      cases horder : left.isIntLiteral && !right.isIntLiteral with
      | true =>
          rw [resolve_binary_swapped horder]
          exact ((hright _).bind fun _ => (hleft _).bind fun _ =>
            judged_checkOperator op _ _ _ _ span).typed id
      | false =>
          rw [resolve_binary horder]
          exact ((hleft _).bind fun _ => (hright _).bind fun _ =>
            judged_checkOperator op _ _ _ _ span).typed id
  | .assign id target value span => by
      have hvalue := fun hint => judged_resolve scope hint value
      have hall := (judged_resolveTarget (judged_resolve scope none target)).bind fun ty =>
        (hvalue (some ty)).bind fun actual => (judged_checkAssignable actual ty value.span).bind
          fun _ => judged_pure Ty.void
      simp only [bind_assoc, pure_bind] at hall
      simp only [resolve]
      exact hall.typed id
  | .call id callee args span => by
      have hargs := judged_resolveAll scope args
      have htyped := fun params => judged_resolveArguments scope params args
      simp only [resolve]
      refine (judged_read (fun _ _ h => by simp only [h.lookupName?]) fun ctx =>
        (callee.judged_resolveCall _ _ _ _).bind fun found => ?_).typed id
      split
      · exact (htyped _).bind fun _ => judged_pure _
      · exact hargs.bind fun _ => judged_pure _
  | .methodCall id receiver callee args span => by
      have hreceiver := judged_resolve scope none receiver
      have hargs := judged_resolveAll scope args
      have htyped := fun params => judged_resolveArguments scope params args
      simp only [resolve]
      refine (hreceiver.bind fun ty => (callee.judged_resolveMethod ty).bind
        fun target => ?_).typed id
      split
      · exact hargs.bind fun _ => judged_pure _
      · refine (callee.judged_resolveCall _ _ _ _).bind fun found => ?_
        split
        · exact (htyped _).bind fun _ => judged_pure _
        · exact hargs.bind fun _ => judged_pure _
  | .member id object ident span => by
      have hobject := judged_resolve scope none object
      simp only [resolve]
      exact (hobject.bind fun _ => ident.judged_resolveMember _ _ _ _ _).typed id

/-- A list of arguments without parameters is judged by the tables. -/
theorem judged_resolveAll (scope : ScopeId) : (args : List Expr) → Judged (resolveAll scope args)
  | [] => judged_pure _
  | arg :: rest => by
      have harg := judged_resolve scope none arg
      have hrest := judged_resolveAll scope rest
      simp only [resolveAll]
      exact harg.bind fun _ => hrest

/-- A list of arguments with their parameters is judged by the tables. -/
theorem judged_resolveArguments (scope : ScopeId) :
    (params : List Ty) → (args : List Expr) → Judged (resolveArguments scope params args)
  | _, [] => by
      simp only [resolveArguments]
      exact judged_pure _
  | param :: params, arg :: rest => by
      have harg := judged_resolve scope (some param) arg
      have hrest := judged_resolveArguments scope params rest
      simp only [resolveArguments]
      exact harg.bind fun _ => (judged_checkAssignable _ _ _).bind fun _ => hrest
  | [], arg :: rest => by
      have harg := judged_resolve scope none arg
      have hrest := judged_resolveArguments scope [] rest
      simp only [resolveArguments]
      refine harg.bind fun actual => ?_
      split
      · exact (judged_mismatch _ _).bind fun _ => hrest
      · exact hrest

end

end Expr

end ClassLang
