import ClassLang.Proofs.Resolve.Confined
import ClassLang.Proofs.Resolve.Expr
import ClassLang.Resolve.Stmt

/-!
# Resolving statements is sound

If resolving a statement reports nothing, the statement is typed (`Stmt.does_resolve`).
A block opens a scope that no other node has, so variables are bound in scopes of their
own, and what can be seen behind a block is what could be seen in front of it.
-/

namespace ClassLang

open Analysis

/-- What an expression changes is confined to its nodes. -/
theorem Rebinds.confined {nodes : List NodeId} {ctx ctx' : Context} (h : Rebinds nodes ctx ctx')
    (touched : List ScopeId) : Confined nodes touched ctx ctx' where
  symbol? := h.symbol?
  type? := h.type?
  scope? n _ := h.scope? n
  size := Nat.le_of_eq (by rw [h.scopes])
  scopes id _ _ := by rw [h.scopes]
  parent? id _ := by rw [h.scopes]
  kind id _ := by rw [h.scopes]

/-- What stays at the nodes of a tree is kept on the way through it. -/
theorem Visit.keptIn {ctx ctx' : Context} {visit : Visit}
    (h : ∀ n, visit.node? = some n → ctx'.bindings.type? n = ctx.bindings.type? n ∧
      ctx'.bindings.symbol? n = ctx.bindings.symbol? n) : visit.KeptIn ctx ctx' := by
  unfold Visit.KeptIn
  split
  · next e => exact ⟨(h e.id rfl).1, fun _ => (h e.id rfl).2⟩
  · next id _ _ _ _ => exact (h id rfl).2
  · trivial

namespace Confined

variable {nodes : List NodeId} {touched : List ScopeId} {ctx ctx' : Context} {view view' : View}

/-- Typing of an expression survives what happens at other nodes. -/
theorem typed (h : Confined nodes touched ctx ctx') (hok : ctx.symbols.Ok)
    (hextends : ctx.symbols.Extends ctx'.symbols) {e : Expr} {types : List Ty}
    (ht : Typed ctx view (.value e) types) (hdisjoint : ∀ n ∈ e.nodes, n ∉ nodes) :
    Typed ctx' view (.value e) types := by
  refine ht.mono hok hextends fun sub hsub => ?_
  have hn := hdisjoint sub.id (List.mem_map_of_mem hsub)
  exact ⟨h.type? _ hn, fun _ => h.symbol? _ hn⟩

/-- Typing of a statement survives what happens at other nodes. -/
theorem typedStmt (h : Confined nodes touched ctx ctx') (hok : ctx.symbols.Ok)
    (hextends : ctx.symbols.Extends ctx'.symbols) {ret : Ty} {n n' : Nat} {task : StmtTask}
    (ht : TypedStmt ctx ret view n task view' n') (hdisjoint : ∀ n ∈ task.nodes, n ∉ nodes) :
    TypedStmt ctx' ret view n task view' n' := by
  refine ht.mono hok hextends fun visit hvisit => Visit.keptIn fun m hm => ?_
  have hn := hdisjoint m (task.node?_mem_nodes hvisit hm)
  exact ⟨h.type? m hn, h.symbol? m hn⟩

end Confined

/-- Some nodes have no scope yet. -/
def Context.Unopened (ctx : Context) (nodes : List NodeId) : Prop :=
  ∀ n ∈ nodes, ctx.bindings.scope? n = none

/-- The relation between the contexts around statements that were resolved, apart from their
typing. -/
structure Advances (nodes : List NodeId) (touched : List ScopeId) (ctx ctx' : Context) :
    Prop where
  confined : Confined nodes touched ctx ctx'
  storage : ctx.symbols.AddsStorage ctx'.symbols

/-- An analysis that advances extends the table. -/
theorem Advances.extend {nodes : List NodeId} {touched : List ScopeId} {ctx ctx' : Context}
    (h : Advances nodes touched ctx ctx') : ctx.symbols.Extends ctx'.symbols :=
  h.storage.extend

/-- Two runs in a row advance by what either may. -/
theorem Advances.trans {nodes : List NodeId} {touched : List ScopeId} {ctx ctx' ctx'' : Context}
    (h : Advances nodes touched ctx ctx') (h' : Advances nodes touched ctx' ctx'') :
    Advances nodes touched ctx ctx'' :=
  ⟨h.confined.trans h'.confined, h.storage.trans h'.storage⟩

/-- What has advanced may be stated of more nodes and scopes. -/
theorem Advances.mono {nodes nodes' : List NodeId} {touched touched' : List ScopeId}
    {ctx ctx' : Context} (h : Advances nodes touched ctx ctx') (hnodes : nodes ⊆ nodes')
    (htouched : ∀ id ∈ touched, id < ctx.scopes.size → id ∈ touched') :
    Advances nodes' touched' ctx ctx' :=
  ⟨h.confined.mono hnodes htouched, h.storage⟩

/-- What an expression changes is an advance. -/
theorem Rebinds.advances {nodes : List NodeId} {ctx ctx' : Context} (h : Rebinds nodes ctx ctx')
    (touched : List ScopeId) : Advances nodes touched ctx ctx' :=
  ⟨h.confined touched, by rw [h.symbols]; exact .refl _⟩

/-- Nodes without scopes have none behind an advance at other nodes. -/
theorem Context.Unopened.advances {nodes nodes' : List NodeId} {touched : List ScopeId}
    {ctx ctx' : Context} (h : ctx.Unopened nodes) (hadvances : Advances nodes' touched ctx ctx')
    (hdisjoint : ∀ n ∈ nodes, n ∉ nodes') : ctx'.Unopened nodes :=
  fun n hn => (hadvances.confined.scope? n (hdisjoint n hn)).trans (h n hn)

/-- What resolving a task does, from a scope that shows a view. -/
def ResolvesStmt (ret : Ty) (scope : ScopeId) (touched : List ScopeId) (task : StmtTask)
    (ctx ctx' : Context) : Prop :=
  ∀ view, ctx.Ready scope view → ret.Known ctx.symbols → ctx.Unopened task.nodes →
    Advances task.nodes touched ctx ctx' ∧ ∃ view',
      TypedStmt ctx' ret view ctx.symbols.size task view' ctx'.symbols.size ∧
      ctx'.Ready scope view'

/-- What resolving the branch of a conditional statement does: behind it, the same can be
seen as in front of it. -/
def ResolvesBranch (ret : Ty) (scope : ScopeId) (s : Stmt) (ctx ctx' : Context) : Prop :=
  ∀ view, ctx.Ready scope view → ret.Known ctx.symbols → ctx.Unopened s.nodes →
    Advances s.nodes [scope] ctx ctx' ∧ (∃ view',
      TypedStmt ctx' ret view ctx.symbols.size (.one s) view' ctx'.symbols.size) ∧
      ctx'.Ready scope view

/-! ## The single statements -/

/-- A scope that was just opened for statements shows the same view. -/
theorem Context.Ready.push {ctx : Context} {scope : ScopeId} {view : View}
    (h : ctx.Ready scope view) :
    ({ ctx with scopes := ctx.scopes.push scope .block } : Context).Ready ctx.scopes.size view where
  ok := h.ok.push h.sees.opened .block
  resolved := h.resolved
  inside := Nat.lt_trans h.inside h.sees.opened
  sees := h.sees.push h.ok.tree (by simp)

/-- A scope shows the same as before, where only other scopes were touched. -/
theorem Context.Ready.restore {ctx ctx' : Context} {scope inner : ScopeId} {view view' : View}
    {nodes : List NodeId} {touched : List ScopeId} (h : ctx.Ready scope view)
    (h' : ctx'.Ready inner view') (hadvances : Advances nodes touched ctx ctx')
    (htouched : ∀ id ∈ touched, ctx.scopes.size ≤ id) : ctx'.Ready scope view where
  ok := h'.ok
  resolved := h'.resolved
  inside := h.inside
  sees := by
    refine h.sees.confined h.ok.tree hadvances.confined hadvances.extend.later fun s hs hmem => ?_
    have hlt := Nat.lt_of_le_of_lt (ScopeTree.le_of_mem_chain h.ok.tree hs) h.sees.opened
    exact absurd (htouched s hmem) (Nat.not_le.2 hlt)

/-- Statements in a scope of their own, which was opened for a node. -/
theorem does_scoped {ret : Ty} {scope : ScopeId} {id : NodeId} {stmts : List Stmt}
    (hid : id ∉ Stmt.nodesOfAll stmts) (span : Span)
    (hall : ∀ inner, Does (Stmt.resolveAll ret inner stmts)
      fun ctx _ ctx' => ResolvesStmt ret inner [inner] (.all stmts) ctx ctx') :
    Does ((Stmt.block id stmts span).resolve ret scope)
      fun ctx _ ctx' => ResolvesStmt ret scope [] (.one (.block id stmts span)) ctx ctx' := by
  simp only [Stmt.resolve]
  refine ((does_scopeFor id scope .block).bind fun inner => hall inner).mono ?_
  rintro ctx _ ctx' ⟨inner, ctx₁, hscope, h⟩ view hready hknown hunopened
  have hnone : ctx.bindings.scope? id = none := hunopened id (List.mem_cons_self ..)
  rcases hscope with ⟨hsome, -⟩ | ⟨-, rfl, rfl⟩
  · simp [hnone] at hsome
  · have hfirst := Confined.openScope id [] scope .block ctx
    have hready₁ : Context.Ready { ctx with
        scopes := ctx.scopes.push scope .block
        bindings := ctx.bindings.bindScope id ctx.scopes.size } ctx.scopes.size view :=
      hready.push.congr rfl rfl
    have hunopened₁ : Context.Unopened { ctx with
        scopes := ctx.scopes.push scope .block
        bindings := ctx.bindings.bindScope id ctx.scopes.size } (Stmt.nodesOfAll stmts) := by
      intro n hn
      refine (hfirst.scope? n ?_).trans (hunopened n (List.mem_cons_of_mem id hn))
      rw [List.mem_singleton]
      rintro rfl
      exact hid hn
    obtain ⟨hadvances, view', htyped, hready'⟩ := h view hready₁ hknown hunopened₁
    have hadvances' : Advances (Stmt.block id stmts span).nodes [ctx.scopes.size] ctx ctx' := by
      refine Advances.trans (⟨hfirst.mono ?_ (by simp), .refl _⟩) (hadvances.mono ?_ ?_)
      · intro n hn
        rw [List.mem_singleton.1 hn]
        exact List.mem_cons_self ..
      · exact fun n hn => List.mem_cons_of_mem id hn
      · exact fun i hi _ => hi
    refine ⟨hadvances'.mono (fun _ hn => hn) ?_, view, .block id span htyped, ?_⟩
    · intro i hi hlt
      rw [List.mem_singleton.1 hi] at hlt
      exact absurd hlt (Nat.lt_irrefl _)
    · exact hready.restore hready' hadvances' (by simp)

/-- A branch gets a scope of its own, unless it is a block. -/
theorem does_branch {ret : Ty} {scope : ScopeId} {s : Stmt}
    (hs : ∀ inner, Does (s.resolve ret inner)
      fun ctx _ ctx' => ResolvesStmt ret inner [inner] (.one s) ctx ctx') :
    Does (do let inner ← s.branchScope scope; s.resolve ret inner)
      fun ctx _ ctx' => ResolvesBranch ret scope s ctx ctx' := by
  cases hblock : s.isBlock with
  | true =>
      have hscope : s.branchScope scope = pure scope := by simp [Stmt.branchScope, hblock]
      rw [hscope]
      refine ((does_pure scope).bind hs).mono ?_
      rintro ctx _ ctx' ⟨_, _, ⟨rfl, rfl⟩, h⟩ view hready hknown hunopened
      obtain ⟨hadvances, view', htyped, hready'⟩ := h view hready hknown hunopened
      have heq : view' = view := by
        cases s <;> simp only [Stmt.isBlock, reduceCtorEq] at hblock
        cases htyped
        rfl
      exact ⟨hadvances, ⟨view', htyped⟩, heq ▸ hready'⟩
  | false =>
      have hscope : s.branchScope scope = Analysis.pushScope scope .block := by
        simp [Stmt.branchScope, hblock]
      rw [hscope]
      refine ((does_pushScope scope .block).bind hs).mono ?_
      rintro ctx _ ctx' ⟨inner, _, ⟨rfl, rfl⟩, h⟩ view hready hknown hunopened
      obtain ⟨hadvances, view', htyped, hready'⟩ := h view hready.push hknown hunopened
      have hadvances' : Advances s.nodes [ctx.scopes.size] ctx ctx' :=
        Advances.trans ⟨Confined.push _ _ _ _ _, .refl _⟩ hadvances
      refine ⟨hadvances'.mono (fun _ hn => hn) ?_, ⟨view', htyped⟩,
        hready.restore hready' hadvances' (by simp)⟩
      intro i hi hlt
      rw [List.mem_singleton.1 hi] at hlt
      exact absurd hlt (Nat.lt_irrefl _)

/-- The context behind the declaration of a local variable. -/
def Context.declareVariable (ctx : Context) (id : NodeId) (scope : ScopeId)
    (entry : VariableEntry) : Context :=
  { ctx with
    symbols := ctx.symbols.add (.localVariable entry)
    bindings := ctx.bindings.bindSymbol id ctx.symbols.size
    scopes := ctx.scopes.bind scope entry.name ctx.symbols.size }

/-- A new variable is an advance at its node and its scope. -/
theorem advances_declareVariable (ctx : Context) (id : NodeId) (scope : ScopeId)
    (entry : VariableEntry) : Advances [id] [scope] ctx (ctx.declareVariable id scope entry) := by
  refine ⟨(Confined.bindName [id] scope entry.name ctx.symbols.size ctx).trans ?_,
    SymbolTable.addsStorage_add _ trivial⟩
  exact (Confined.addSymbol [id] [scope] (ctx.symbols.add (.localVariable entry)) _).trans
    (Confined.bindSymbol id ctx.symbols.size [scope] _)

/-- A local variable is bound in a scope that shows it. -/
theorem Context.Ready.declare {ctx : Context} {scope : ScopeId} {view : View}
    (h : ctx.Ready scope view) {entry : VariableEntry} (hty : entry.ty.Storable ctx.symbols)
    (id : NodeId) (hfree : ctx.scopes.lookupLocal? scope entry.name = none) :
    (ctx.declareVariable id scope entry).Ready scope (view.declare ctx.symbols.size) := by
  have hextends := SymbolTable.extends_add ctx.symbols (.localVariable entry)
  have hok : (ctx.symbols.add (.localVariable entry)).Ok :=
    h.ok.table.add (hty.later hextends.later)
  have hlt : ctx.symbols.size < (ctx.symbols.add (.localVariable entry)).size := by simp
  refine ⟨?_, ?_, h.inside, ?_⟩
  · exact ((h.ok.symbols hok hextends.later).bindings _).bindName h.sees.opened hfree hlt h.inside
  · intro f e he
    obtain ⟨s, hs, hfunction⟩ := Option.bind_eq_some_iff.1 he
    rw [Context.declareVariable, SymbolTable.get?_add] at hs
    split at hs
    · cases hs
      simp [Symbol.function?] at hfunction
    · exact h.resolved f e (by simp [SymbolTable.function?, hs, hfunction])
  · have hsees : ({ ctx with
        symbols := ctx.symbols.add (.localVariable entry)
        bindings := ctx.bindings.bindSymbol id ctx.symbols.size } : Context).Sees scope view :=
      h.sees.confined h.ok.tree ((Confined.addSymbol [id] [] _ _).trans
        (Confined.bindSymbol id ctx.symbols.size [] _)) hextends.later (by simp)
    exact hsees.bindVariable h.ok.tree hfree
      (by simp [SymbolTable.storedVariable?, Symbol.storedVariable?])

/-- The end of a variable declaration: the symbol, its node and its name. -/
theorem does_declareVariable (id : NodeId) (scope : ScopeId) (entry : VariableEntry)
    (span : Span) :
    Does (do
      let symbol ← Analysis.addSymbol (.localVariable entry)
      Analysis.bindSymbol id symbol
      let _ ← Analysis.define scope entry.name symbol span)
      fun ctx _ ctx' => ctx.scopes.lookupLocal? scope entry.name = none ∧
        ctx' = ctx.declareVariable id scope entry := by
  refine ((does_addSymbol _).bind fun symbol => (does_bindSymbol id symbol).bind fun _ =>
    (does_define scope entry.name symbol span).bind fun _ => does_pure ()).mono ?_
  rintro ctx _ ctx' ⟨symbol, _, ⟨rfl, rfl⟩, _, _, rfl, _, _, ⟨-, hfree, rfl⟩, -, rfl⟩
  exact ⟨hfree, rfl⟩

/-- Resolving a variable declaration is sound. -/
theorem does_resolveVarDecl {ret : Ty} (scope : ScopeId) (id : NodeId) (ty : TypeExpr)
    (name : Ident) (value : Option Expr) (span : Span) (hproper : ∀ e ∈ value, e.Proper)
    (hnodes : (id :: Expr.nodesOfOption value).Nodup) :
    Does (Stmt.resolveVarDecl id ty name value scope) fun ctx _ ctx' =>
      ResolvesStmt ret scope [scope] (.one (.varDecl id ty name value span)) ctx ctx' := by
  let entry (t : Ty) : VariableEntry := ⟨name.name, name.span, t⟩
  have hdeclare := fun t => does_declareVariable id scope (entry t) name.span
  have hsymbol : ∀ (ctx : Context) (t : Ty),
      (ctx.declareVariable id scope (entry t)).bindings.symbol? id = some ctx.symbols.size := by
    intro ctx t
    simp [Context.declareVariable, Bindings.symbol?_bindSymbol]
  cases value with
  | none =>
      refine ((TypeExpr.does_resolveStorage ty scope "variable").bind hdeclare).mono ?_
      rintro ctx _ ctx' ⟨t, _, ⟨rfl, hstorable⟩, hfree, rfl⟩ view hready hknown hunopened
      have hready' := hready.declare (hstorable hready.ok : (entry t).ty.Storable _) id hfree
      refine ⟨advances_declareVariable _ _ _ _, _, ?_, hready'⟩
      rw [Context.declareVariable, SymbolTable.size_add]
      exact .declare ty name span (hsymbol _ t) (SymbolTable.get?_add_size _ _) (Nat.le_refl _)
  | some e =>
      rw [List.nodup_cons] at hnodes
      refine ((TypeExpr.does_resolveStorage ty scope "variable").bind fun t =>
        (Expr.does_resolve scope e (hproper e rfl) hnodes.2 (some t)).bind fun actual =>
        (does_checkAssignable actual t e.span).bind fun _ => hdeclare t).mono ?_
      rintro ctx _ ctx' ⟨t, _, ⟨rfl, hstorable⟩, actual, _, hvalue, _, ctx₁, ⟨rfl, hassignable⟩,
        hfree, rfl⟩ view hready hknown hunopened
      have hready₁ := hvalue.1.ready hready
      have hstorable₁ : t.Storable ctx₁.symbols := by
        rw [hvalue.1.symbols]
        exact hstorable hready.ok
      have htyped := hvalue.2 view hready
      have hsame : actual = t :=
        (htyped.known hready₁.ok.table).eq_of_isAssignableTo hstorable₁.1 hassignable
      rw [hsame] at htyped
      have hready' := hready₁.declare (hstorable₁ : (entry t).ty.Storable _) id hfree
      have hlast := advances_declareVariable ctx₁ id scope (entry t)
      refine ⟨?_, _, ?_, hready'⟩
      · refine ((hvalue.1.advances [scope]).mono ?_ fun _ hi _ => hi).trans
          (hlast.mono ?_ fun _ hi _ => hi)
        · exact fun n hn => List.mem_cons_of_mem id hn
        · simp [StmtTask.nodes, Stmt.nodes]
      · have hvalue' := hlast.confined.typed hready₁.ok.table hlast.extend htyped fun n hn hmem =>
          hnodes.1 (List.mem_singleton.1 hmem ▸ hn)
        have hsize : ctx₁.symbols.size = _ := congrArg SymbolTable.size hvalue.1.symbols
        have hsize' : (ctx₁.declareVariable id scope (entry t)).symbols.size =
            ctx₁.symbols.size + 1 := SymbolTable.size_add _ _
        rw [← hsize, hsize']
        exact .declareWith ty name span (hsymbol ctx₁ t) (SymbolTable.get?_add_size _ _)
          (Nat.le_refl _) hvalue'

/-- Resolving a condition is sound. -/
theorem does_resolveCondition (scope : ScopeId) (condition : Expr) (hproper : condition.Proper)
    (hnodes : condition.nodes.Nodup) :
    Does (Stmt.resolveCondition condition scope) fun ctx _ ctx' =>
      Rebinds condition.nodes ctx ctx' ∧ ∀ view, ctx.Ready scope view →
        Typed ctx' view (.value condition) [.bool] := by
  refine ((Expr.does_resolve scope condition hproper hnodes (some .bool)).bind fun ty =>
    does_expectBool ty "if condition" condition.span).mono ?_
  rintro ctx _ ctx' ⟨ty, ctx₁, h, rfl, hbool⟩
  refine ⟨h.1, fun view hready => ?_⟩
  have htyped := h.2 view hready
  have hknown := htyped.known (h.1.ready hready).ok.table
  have heq : ty = .bool := by
    rw [hknown.isError, Bool.or_false] at hbool
    unfold Ty.isBool at hbool
    split at hbool
    · rfl
    · cases hbool
  rwa [heq] at htyped

/-- Resolving a return is sound. -/
theorem does_resolveReturn {ret : Ty} (scope : ScopeId) (value : Option Expr) (span : Span)
    (hproper : ∀ e ∈ value, e.Proper) (hnodes : (Expr.nodesOfOption value).Nodup) :
    Does (Stmt.resolveReturn value span scope ret) fun ctx _ ctx' =>
      ResolvesStmt ret scope [scope] (.one (.ret value span)) ctx ctx' := by
  cases value with
  | none =>
      simp only [Stmt.resolveReturn]
      split
      · next h =>
          refine (does_pure ()).mono ?_
          rintro ctx _ ctx' ⟨_, rfl⟩ view hready hknown _
          refine ⟨(Rebinds.refl _ _).advances _, view, .ret view _ span ?_, hready⟩
          simpa [hknown.isError] using h
      · exact (does_read fun _ => (does_mismatch _ _).never).never
  | some e =>
      simp only [Stmt.resolveReturn]
      refine ((Expr.does_resolve scope e (hproper e rfl) hnodes (some ret)).bind
        (S := fun actual ctx _ ctx' => ctx' = ctx ∧ ret.isVoid = false ∧
          actual.isAssignableTo ret = true) fun actual => ?_).mono ?_
      · split
        · exact (does_mismatch _ _).never
        · next h =>
            refine (does_checkAssignable actual ret e.span).mono ?_
            rintro ctx _ ctx' ⟨rfl, hassignable⟩
            exact ⟨rfl, by simpa using h, hassignable⟩
      · rintro ctx _ ctx' ⟨actual, ctx₁, h, rfl, hvoid, hassignable⟩ view hready hknown _
        have hready' := h.1.ready hready
        have htyped := h.2 view hready
        have heq : actual = ret := (htyped.known hready'.ok.table).eq_of_isAssignableTo
          (by rw [h.1.symbols]; exact hknown) hassignable
        rw [heq] at htyped
        rw [← h.1.symbols]
        exact ⟨h.1.advances _, view, .retValue _ span htyped hvoid, hready'⟩

/-- A type that is known is known behind an advance. -/
theorem Ty.Known.extends {ty : Ty} {ctx ctx' : Context} (h : ty.Known ctx.symbols)
    {nodes : List NodeId} {touched : List ScopeId} (hadvances : Advances nodes touched ctx ctx') :
    ty.Known ctx'.symbols :=
  h.later hadvances.extend.later

/-- A conditional statement without an alternative. -/
theorem does_resolveIfThen {ret : Ty} {scope : ScopeId} {condition : Expr} {positive : Stmt}
    (span : Span) (hproper : condition.Proper) (hnodes : (condition.nodes ++ positive.nodes).Nodup)
    (hpositive : ∀ inner, Does (positive.resolve ret inner)
      fun ctx _ ctx' => ResolvesStmt ret inner [inner] (.one positive) ctx ctx') :
    Does ((Stmt.ifThen condition positive span).resolve ret scope) fun ctx _ ctx' =>
      ResolvesStmt ret scope [scope] (.one (.ifThen condition positive span)) ctx ctx' := by
  rw [List.nodup_append] at hnodes
  simp only [Stmt.resolve]
  refine ((does_resolveCondition scope condition hproper hnodes.1).bind fun _ =>
    does_branch hpositive).mono ?_
  rintro ctx _ ctx' ⟨_, ctx₁, ⟨hrebinds, hcondition⟩, hbranch⟩ view hready hknown hunopened
  have hready₁ := hrebinds.ready hready
  have hfirst := hrebinds.advances [scope]
  have hunopened₁ : ctx₁.Unopened positive.nodes := by
    refine Context.Unopened.advances (fun n hn => ?_) hfirst fun n hn hn' => ?_
    · exact hunopened n (List.mem_append_right _ hn)
    · exact hnodes.2.2 n hn' n hn rfl
  obtain ⟨hadvances, ⟨view', htyped⟩, hready'⟩ :=
    hbranch view hready₁ (hknown.extends hfirst) hunopened₁
  refine ⟨(hfirst.mono (List.subset_append_left _ _) fun _ hi _ => hi).trans
    (hadvances.mono (List.subset_append_right _ _) fun _ hi _ => hi), view, ?_, hready'⟩
  refine .ifThen span ?_ (hrebinds.symbols ▸ htyped)
  exact hadvances.confined.typed hready₁.ok.table hadvances.extend (hcondition view hready)
    fun n hn hn' => hnodes.2.2 n hn n hn' rfl

/-- A conditional statement with two sides, which are resolved one after the other. -/
theorem does_resolveIfElse {ret : Ty} {scope : ScopeId} {condition : Expr}
    {positive negative : Stmt} (span : Span) (hproper : condition.Proper)
    (hnodes : (condition.nodes ++ (positive.nodes ++ negative.nodes)).Nodup)
    (hpositive : ∀ inner, Does (positive.resolve ret inner)
      fun ctx _ ctx' => ResolvesStmt ret inner [inner] (.one positive) ctx ctx')
    (hnegative : ∀ inner, Does (negative.resolve ret inner)
      fun ctx _ ctx' => ResolvesStmt ret inner [inner] (.one negative) ctx ctx') :
    Does ((Stmt.ifElse condition positive negative span).resolve ret scope) fun ctx _ ctx' =>
      ResolvesStmt ret scope [scope] (.one (.ifElse condition positive negative span)) ctx
        ctx' := by
  rw [List.nodup_append, List.nodup_append] at hnodes
  obtain ⟨hc, ⟨hp, hn, hpn⟩, hdisjoint⟩ := hnodes
  simp only [Stmt.resolve]
  refine ((does_resolveCondition scope condition hproper hc).bind fun _ =>
    (does_branch hpositive).bind fun _ => does_branch hnegative).mono ?_
  rintro ctx _ ctx' ⟨_, ctx₁, ⟨hrebinds, hcondition⟩, _, ctx₂, hbranch₁, hbranch₂⟩ view hready
    hknown hunopened
  have hready₁ := hrebinds.ready hready
  have hfirst := hrebinds.advances [scope]
  have hunopened₁ : ctx₁.Unopened (positive.nodes ++ negative.nodes) := by
    refine Context.Unopened.advances (fun n hn => ?_) hfirst fun n hn hn' => ?_
    · exact hunopened n (List.mem_append_right _ hn)
    · exact hdisjoint n hn' n hn rfl
  obtain ⟨hadvances₁, ⟨view₁, htyped₁⟩, hready₂⟩ := hbranch₁ view hready₁ (hknown.extends hfirst)
    fun n hn => hunopened₁ n (List.mem_append_left _ hn)
  have hknown₂ := (hknown.extends hfirst).extends hadvances₁
  have hunopened₂ : ctx₂.Unopened negative.nodes := by
    refine Context.Unopened.advances (fun n hn => ?_) hadvances₁ fun n hn hn' => ?_
    · exact hunopened₁ n (List.mem_append_right _ hn)
    · exact hpn n hn' n hn rfl
  obtain ⟨hadvances₂, ⟨view₂, htyped₂⟩, hready₃⟩ := hbranch₂ view hready₂ hknown₂ hunopened₂
  have hboth := (hadvances₁.mono (List.subset_append_left _ _) fun _ hi _ => hi).trans
    (hadvances₂.mono (List.subset_append_right _ _) fun _ hi _ => hi)
  refine ⟨(hfirst.mono (List.subset_append_left _ _) fun _ hi _ => hi).trans
    (hboth.mono (List.subset_append_right _ _) fun _ hi _ => hi), view, ?_, hready₃⟩
  have hpositive := hadvances₂.confined.typedStmt hready₂.ok.table hadvances₂.extend htyped₁
    fun n hn hn' => hpn n hn n hn' rfl
  refine .ifElse span ?_ (hrebinds.symbols ▸ hpositive) htyped₂
  exact hboth.confined.typed hready₁.ok.table hboth.extend (hcondition view hready)
    fun n hn hn' => hdisjoint n hn n hn' rfl

mutual

/-- **Resolving a statement is sound.** -/
theorem Stmt.does_resolve (ret : Ty) (scope : ScopeId) (s : Stmt) (hproper : s.Proper)
    (hnodes : s.nodes.Nodup) :
    Does (s.resolve ret scope)
      fun ctx _ ctx' => ResolvesStmt ret scope [scope] (.one s) ctx ctx' := by
  cases s with
  | block id stmts span =>
      rw [Stmt.proper_block] at hproper
      rw [Stmt.nodes, List.nodup_cons] at hnodes
      refine (does_scoped hnodes.1 span fun inner =>
        Stmt.does_resolveAll ret inner stmts hproper hnodes.2).mono ?_
      intro ctx _ ctx' h view hready hknown hunopened
      obtain ⟨hadvances, hrest⟩ := h view hready hknown hunopened
      exact ⟨hadvances.mono (fun _ hn => hn) (by simp), hrest⟩
  | varDecl id ty name value span =>
      rw [Stmt.proper_varDecl] at hproper
      simp only [Stmt.resolve]
      exact does_resolveVarDecl scope id ty name value span hproper hnodes
  | ifThen condition positive span =>
      rw [Stmt.proper_ifThen] at hproper
      rw [Stmt.nodes] at hnodes
      exact does_resolveIfThen span hproper.1 hnodes fun inner =>
        Stmt.does_resolve ret inner positive hproper.2 (List.nodup_append.1 hnodes).2.1
  | ifElse condition positive negative span =>
      rw [Stmt.proper_ifElse] at hproper
      rw [Stmt.nodes] at hnodes
      obtain ⟨hp, hn, -⟩ := List.nodup_append.1 (List.nodup_append.1 hnodes).2.1
      exact does_resolveIfElse span hproper.1 hnodes
        (fun inner => Stmt.does_resolve ret inner positive hproper.2.1 hp)
        (fun inner => Stmt.does_resolve ret inner negative hproper.2.2 hn)
  | ret value span =>
      rw [Stmt.proper_ret] at hproper
      simp only [Stmt.resolve]
      exact does_resolveReturn scope value span hproper hnodes
  | expr e span =>
      rw [Stmt.proper_expr] at hproper
      simp only [Stmt.resolve]
      refine ((Expr.does_resolve scope e hproper hnodes none).bind fun _ => does_pure ()).mono ?_
      rintro ctx _ ctx' ⟨ty, _, h, -, rfl⟩ view hready hknown _
      refine ⟨h.1.advances _, view, ?_, h.1.ready hready⟩
      rw [← h.1.symbols]
      exact .expr _ span (h.2 view hready)

/-- Resolving statements is sound. -/
theorem Stmt.does_resolveAll (ret : Ty) (scope : ScopeId) (stmts : List Stmt)
    (hproper : Stmt.AllProper stmts) (hnodes : (Stmt.nodesOfAll stmts).Nodup) :
    Does (Stmt.resolveAll ret scope stmts)
      fun ctx _ ctx' => ResolvesStmt ret scope [scope] (.all stmts) ctx ctx' := by
  cases stmts with
  | nil =>
      simp only [Stmt.resolveAll]
      refine (does_pure ()).mono ?_
      rintro ctx _ ctx' ⟨_, rfl⟩ view hready hknown _
      exact ⟨(Rebinds.refl _ _).advances _, view, .nil view _, hready⟩
  | cons s rest =>
      rw [Stmt.allProper_cons] at hproper
      rw [Stmt.nodesOfAll, List.nodup_append] at hnodes
      simp only [Stmt.resolveAll]
      refine ((Stmt.does_resolve ret scope s hproper.1 hnodes.1).bind fun _ =>
        Stmt.does_resolveAll ret scope rest hproper.2 hnodes.2.1).mono ?_
      rintro ctx _ ctx' ⟨_, ctx₁, hfirst, hrest⟩ view hready hknown hunopened
      have hunopenedFirst : ctx.Unopened s.nodes :=
        fun n hn => hunopened n (List.mem_append_left _ hn)
      obtain ⟨hadvances₁, view₁, htyped₁, hready₁⟩ := hfirst view hready hknown hunopenedFirst
      have hunopenedRest : ctx₁.Unopened (Stmt.nodesOfAll rest) := by
        refine Context.Unopened.advances (fun n hn => ?_) hadvances₁ fun n hn hn' => ?_
        · exact hunopened n (List.mem_append_right _ hn)
        · exact hnodes.2.2 n hn' n hn rfl
      obtain ⟨hadvances₂, view₂, htyped₂, hready₂⟩ :=
        hrest view₁ hready₁ (hknown.extends hadvances₁) hunopenedRest
      refine ⟨(hadvances₁.mono (List.subset_append_left _ _) fun _ hi _ => hi).trans
        (hadvances₂.mono (List.subset_append_right _ _) fun _ hi _ => hi), view₂, ?_, hready₂⟩
      refine .cons ?_ htyped₂
      exact hadvances₂.confined.typedStmt hready₁.ok.table hadvances₂.extend htyped₁
        fun n hn hn' => hnodes.2.2 n hn n hn' rfl

end

end ClassLang
