import ClassLang.Proofs.Accepted
import ClassLang.Proofs.Resolve.Headings
import ClassLang.Proofs.Resolve.Slips

/-!
# One mistake in an accepted unit

In a unit that was accepted, one name in the body of a function is replaced by one that nothing
has.  The declarations do not notice (`Script.Replaces.heading`), and neither do the statements
and bodies in front of the slip.  Those behind it see the same symbols and scopes as before, and
so do the same.  So the slip is reported, and behind it only literals of the same expression that
lost their hints (`compile_slip`).
-/

namespace ClassLang

open Analysis

/-! ## Statements -/

namespace Stmt

/-- In a statement, one of its outermost expressions is replaced by another one. -/
inductive Replaces (old new : Expr) : Stmt → Stmt → Prop
  | value (id : NodeId) (ty : TypeExpr) (ident : Ident) (span : Span) :
      Replaces old new (.varDecl id ty ident (some old) span) (.varDecl id ty ident (some new) span)
  | condition (positive : Stmt) (span : Span) :
      Replaces old new (.ifThen old positive span) (.ifThen new positive span)
  | conditionElse (positive negative : Stmt) (span : Span) :
      Replaces old new (.ifElse old positive negative span) (.ifElse new positive negative span)
  | result (span : Span) : Replaces old new (.ret (some old) span) (.ret (some new) span)
  | expr (span : Span) : Replaces old new (.expr old span) (.expr new span)
  | block {id : NodeId} {before after : List Stmt} {s s' : Stmt} {span : Span}
      (h : Replaces old new s s') :
      Replaces old new (.block id (before ++ s :: after) span)
        (.block id (before ++ s' :: after) span)
  | positive {condition : Expr} {s s' : Stmt} {span : Span} (h : Replaces old new s s') :
      Replaces old new (.ifThen condition s span) (.ifThen condition s' span)
  | positiveElse {condition : Expr} {s s' negative : Stmt} {span : Span}
      (h : Replaces old new s s') :
      Replaces old new (.ifElse condition s negative span) (.ifElse condition s' negative span)
  | negative {condition : Expr} {positive s s' : Stmt} {span : Span} (h : Replaces old new s s') :
      Replaces old new (.ifElse condition positive s span) (.ifElse condition positive s' span)

/-- Statements in two parts return where one part does. -/
theorem anyReturns_append (before after : List Stmt) :
    anyReturns (before ++ after) = (anyReturns before || anyReturns after) := by
  induction before with
  | nil => rfl
  | cons s before ih => simp only [List.cons_append, anyReturns, ih, Bool.or_assoc]

/-- The names in statements are those of both parts. -/
theorem namesOfAll_append (before after : List Stmt) :
    namesOfAll (before ++ after) = namesOfAll before ++ namesOfAll after := by
  induction before with
  | nil => rfl
  | cons s before ih => simp only [List.cons_append, namesOfAll, ih, List.append_assoc]

/-- The nodes of statements are those of both parts. -/
theorem nodesOfAll_append (before after : List Stmt) :
    nodesOfAll (before ++ after) = nodesOfAll before ++ nodesOfAll after := by
  induction before with
  | nil => rfl
  | cons s before ih => simp only [List.cons_append, nodesOfAll, ih, List.append_assoc]

/-- Statements are resolved one part behind the other. -/
theorem resolveAll_append (returnType : Ty) (scope : ScopeId) (before after : List Stmt) :
    resolveAll returnType scope (before ++ after) = (do
      resolveAll returnType scope before
      resolveAll returnType scope after) := by
  induction before with
  | nil => simp [resolveAll]
  | cons s before ih => simp [resolveAll, ih]

namespace Replaces

variable {old new : Expr} {s s' : Stmt}

/-- Expressions have no say in whether a statement returns. -/
theorem returns (h : s.Replaces old new s') : s'.returns = s.returns := by
  induction h with
  | block h ih => simp only [Stmt.returns, anyReturns_append, anyReturns, ih]
  | positiveElse h ih => simp only [Stmt.returns, ih]
  | negative h ih => simp only [Stmt.returns, ih]
  | _ => rfl

/-- A branch with a slip has the scope it had. -/
theorem branchScope (h : s.Replaces old new s') : s'.branchScope = s.branchScope := by
  cases h <;> rfl

/-- The nodes of the replaced expression are among those of the statement. -/
theorem nodes_sublist (h : s.Replaces old new s') : old.nodes.Sublist s.nodes := by
  induction h with
  | value | result | expr =>
      simp only [Stmt.nodes, Expr.nodesOfOption]
      simp
  | condition | conditionElse => exact List.sublist_append_left _ _
  | @block id before after s s' span h ih =>
      simp only [Stmt.nodes, nodesOfAll_append, nodesOfAll]
      exact ((ih.trans (List.sublist_append_left _ _)).trans
        (List.sublist_append_right _ _)).cons id
  | positive h ih => exact ih.trans (List.sublist_append_right _ _)
  | positiveElse h ih =>
      exact (ih.trans (List.sublist_append_left _ _)).trans (List.sublist_append_right _ _)
  | negative h ih =>
      exact (ih.trans (List.sublist_append_right _ _)).trans (List.sublist_append_right _ _)

end Replaces

section

variable {slip : Slip} {new : Expr} {scope : ScopeId} {returnType : Ty}

/-- The slip is in a condition. -/
theorem diverges_resolveCondition (hold : slip.old.DivergesTo slip scope new)
    (hspan : new.span = slip.old.span) :
    slip.Diverges slip.old.nodes slip.old.nodes (resolveCondition slip.old scope)
      (resolveCondition new scope) Eq := by
  simp only [resolveCondition, hspan]
  exact (hold.recovers (some .bool)).checked (forgives_expectBool "if condition" slip.old.span)

/-- The slip is in the value of a variable. -/
theorem diverges_resolveVarDecl (hold : slip.old.DivergesTo slip scope new)
    (hspan : new.span = slip.old.span) (id : NodeId) (ty : TypeExpr) {ident : Ident}
    (hname : ident.name ≠ slip.fresh) :
    slip.Diverges slip.old.nodes slip.old.nodes (resolveVarDecl id ty ident (some slip.old) scope)
      (resolveVarDecl id ty ident (some new) scope) Eq := by
  have htype : Acts [] [] slip.fresh (ty.resolveStorage scope "variable") :=
    ty.acts_resolveStorage _ _
  refine .behind htype fun ty => ?_
  dsimp only
  rw [hspan]
  exact (hold.recovers (some ty)).checkedThen (forgives_checkAssignable ty slip.old.span)
    (acts_declareVariable id scope ty hname) fun n _ => List.not_mem_nil

/-- The slip is in a value that is returned. -/
theorem diverges_resolveReturn (hold : slip.old.DivergesTo slip scope new)
    (hspan : new.span = slip.old.span) (span : Span) :
    slip.Diverges slip.old.nodes slip.old.nodes
      (resolveReturn (some slip.old) span scope returnType)
      (resolveReturn (some new) span scope returnType) Eq := by
  cases hvoid : returnType.isVoid with
  | true =>
      -- such a value is reported even without a slip
      intro ctx _ _ ctx₂ hrun hclean _
      obtain ⟨ty, ctx₁, -, hcheck⟩ := run_bind_cases hrun
      rw [hvoid] at hcheck
      exact (does_mismatch _ _ ctx₁ () ctx₂ hcheck hclean).2.elim
  | false =>
      simp only [resolveReturn, hvoid, hspan]
      exact (hold.recovers (some returnType)).checked
        (forgives_checkAssignable returnType slip.old.span)

/-- The slip is in one of some statements. -/
theorem diverges_resolveAll {s s' : Stmt} {before after : List Stmt}
    (hs : slip.Diverges slip.old.nodes slip.old.nodes (s.resolve returnType scope)
      (s'.resolve returnType scope) Eq)
    (hnames : slip.fresh ∉ namesOfAll (before ++ s :: after))
    (hapart : ∀ n ∈ slip.old.nodes, n ∉ nodesOfAll after) :
    slip.Diverges slip.old.nodes slip.old.nodes (resolveAll returnType scope (before ++ s :: after))
      (resolveAll returnType scope (before ++ s' :: after)) Eq := by
  simp only [namesOfAll_append, namesOfAll, List.mem_append, not_or] at hnames
  have hbefore : Acts [] (nodesOfAll before) slip.fresh (resolveAll returnType scope before) :=
    acts_resolveAll returnType scope before hnames.1 (by simp)
  rw [resolveAll_append, resolveAll_append]
  simp only [resolveAll]
  refine .behind hbefore fun _ => hs.andThen (fun _ => ?_) hapart
  exact acts_resolveAll returnType scope after hnames.2.2 fun n hn hn' => hapart n hn' hn

/-- A branch of a conditional statement. -/
theorem acts_resolveBranch {odd : List NodeId} {name : String} {branch : Stmt}
    (hnames : name ∉ branch.names) (hodd : ∀ n ∈ branch.nodes, n ∉ odd) :
    Acts odd branch.nodes name (do branch.resolve returnType (← branch.branchScope scope)) :=
  (branch.acts_branchScope scope).bind fun inner => branch.acts_resolve returnType inner hnames hodd

/-- Resolving a condition touches its own nodes only. -/
theorem acts_condition (slip : Slip) (condition : Expr) (scope : ScopeId) :
    Acts [] condition.nodes slip.fresh (resolveCondition condition scope) :=
  acts_resolveCondition condition scope (by simp)

/-- The slip is in a condition with two branches behind it. -/
theorem diverges_conditionElse (hold : slip.old.DivergesTo slip scope new)
    (hspan : new.span = slip.old.span) {positive negative : Stmt} (span : Span)
    (hnames : slip.fresh ∉ (Stmt.ifElse slip.old positive negative span).names)
    (hnodes : (Stmt.ifElse slip.old positive negative span).nodes.Nodup) :
    slip.Diverges slip.old.nodes slip.old.nodes
      ((Stmt.ifElse slip.old positive negative span).resolve returnType scope)
      ((Stmt.ifElse new positive negative span).resolve returnType scope) Eq := by
  rw [names, List.mem_append, not_or] at hnames
  rw [Stmt.nodes, List.nodup_append] at hnodes
  have hapart : ∀ n ∈ slip.old.nodes, n ∉ positive.nodes ++ negative.nodes := fun n hn hn' =>
    hnodes.2.2 n hn n hn' rfl
  have hpositive : ∀ inner, Acts slip.old.nodes (positive.nodes ++ negative.nodes) slip.fresh
      (positive.resolve returnType inner) := fun inner =>
    (positive.acts_resolve returnType inner hnames.1 fun n hn hn' =>
      hapart n hn' (List.mem_append_left _ hn)).mono (List.subset_append_left _ _)
  have hnegative : Acts slip.old.nodes (positive.nodes ++ negative.nodes) slip.fresh
      (do negative.resolve returnType (← negative.branchScope scope)) :=
    (acts_resolveBranch hnames.2 fun n hn hn' =>
      hapart n hn' (List.mem_append_right _ hn)).mono (List.subset_append_right _ _)
  simp only [resolve]
  refine (diverges_resolveCondition hold hspan).andThen (fun _ => ?_) hapart
  exact (positive.acts_branchScope scope).bind fun inner => (hpositive inner).bind fun _ =>
    hnegative

/-- The slip is in the first of two branches. -/
theorem diverges_positiveElse {condition : Expr} {s s' negative : Stmt} {span : Span}
    (h : s.Replaces slip.old new s')
    (hs : ∀ inner, slip.Diverges slip.old.nodes slip.old.nodes (s.resolve returnType inner)
      (s'.resolve returnType inner) Eq)
    (hnames : slip.fresh ∉ negative.names) (hapart : ∀ n ∈ s.nodes, n ∉ negative.nodes) :
    slip.Diverges slip.old.nodes slip.old.nodes
      ((Stmt.ifElse condition s negative span).resolve returnType scope)
      ((Stmt.ifElse condition s' negative span).resolve returnType scope) Eq := by
  have hapart' : ∀ n ∈ slip.old.nodes, n ∉ negative.nodes := fun n hn =>
    hapart n (h.nodes_sublist.subset hn)
  have hbranch : Acts [] [] slip.fresh (s.branchScope scope) := s.acts_branchScope scope
  simp only [resolve, h.branchScope]
  refine .behind (acts_condition slip condition scope) fun _ => .behind hbranch fun inner => ?_
  exact (hs inner).andThen
    (fun _ => acts_resolveBranch hnames fun n hn hn' => hapart' n hn' hn) hapart'

/-- The slip is in the second of two branches. -/
theorem diverges_negative {condition : Expr} {positive s s' : Stmt} {span : Span}
    (h : s.Replaces slip.old new s')
    (hs : ∀ inner, slip.Diverges slip.old.nodes slip.old.nodes (s.resolve returnType inner)
      (s'.resolve returnType inner) Eq) (hnames : slip.fresh ∉ positive.names) :
    slip.Diverges slip.old.nodes slip.old.nodes
      ((Stmt.ifElse condition positive s span).resolve returnType scope)
      ((Stmt.ifElse condition positive s' span).resolve returnType scope) Eq := by
  have hpositive : ∀ inner, Acts [] positive.nodes slip.fresh
      (positive.resolve returnType inner) := fun inner =>
    positive.acts_resolve returnType inner hnames (by simp)
  have hbranch : ∀ s : Stmt, Acts [] [] slip.fresh (s.branchScope scope) := fun s =>
    s.acts_branchScope scope
  simp only [resolve, h.branchScope]
  exact .behind (acts_condition slip condition scope) fun _ => .behind (hbranch positive)
    fun inner => .behind (hpositive inner) fun _ => .behind (hbranch s) hs

/-- **A statement with a slip.** -/
theorem Replaces.diverges {s s' : Stmt} (h : s.Replaces slip.old new s')
    (hold : ∀ scope, slip.old.DivergesTo slip scope new) (hspan : new.span = slip.old.span)
    (returnType : Ty) : ∀ scope, slip.fresh ∉ s.names → s.nodes.Nodup →
    slip.Diverges slip.old.nodes slip.old.nodes (s.resolve returnType scope)
      (s'.resolve returnType scope) Eq := by
  induction h with
  | value id ty ident span =>
      intro scope hnames _
      rw [names, List.mem_singleton] at hnames
      simp only [resolve]
      exact diverges_resolveVarDecl (hold scope) hspan id ty fun h => hnames h.symm
  | condition positive span =>
      intro scope hnames hnodes
      rw [Stmt.nodes, List.nodup_append] at hnodes
      have hapart : ∀ n ∈ slip.old.nodes, n ∉ positive.nodes := fun n hn hn' =>
        hnodes.2.2 n hn n hn' rfl
      simp only [resolve]
      exact (diverges_resolveCondition (hold scope) hspan).andThen
        (fun _ => acts_resolveBranch hnames fun n hn hn' => hapart n hn' hn) hapart
  | conditionElse positive negative span =>
      exact fun scope => diverges_conditionElse (hold scope) hspan span
  | result span =>
      intro scope _ _
      simp only [resolve]
      exact diverges_resolveReturn (hold scope) hspan span
  | expr span =>
      intro scope _ _
      simp only [resolve]
      exact ((hold scope).recovers none).checked ⟨fun _ => (does_pure ()).mono fun _ _ _ h => h.2,
        fun _ => rfl, fun _ _ _ _ => acts_pure ()⟩
  | @block id before after s s' span h ih =>
      intro scope hnames hnodes
      rw [names] at hnames
      have hnames' := hnames
      simp only [namesOfAll_append, namesOfAll, List.mem_append, not_or] at hnames'
      simp only [Stmt.nodes, nodesOfAll_append, nodesOfAll, List.nodup_cons, List.nodup_append]
        at hnodes
      obtain ⟨-, -, ⟨hs, -, hapart⟩, -⟩ := hnodes
      have hscope : Acts [] [] slip.fresh (scopeFor id scope .block) := acts_scopeFor _ _ _
      simp only [resolve]
      refine .behind hscope fun inner => ?_
      exact diverges_resolveAll (ih inner hnames'.2.1 hs) hnames fun n hn hn' =>
        hapart n (h.nodes_sublist.subset hn) n hn' rfl
  | @positive condition s s' span h ih =>
      intro scope hnames hnodes
      rw [Stmt.nodes, List.nodup_append] at hnodes
      have hbranch : Acts [] [] slip.fresh (s.branchScope scope) := s.acts_branchScope scope
      simp only [resolve, h.branchScope]
      exact .behind (acts_condition slip condition scope) fun _ => .behind hbranch fun inner =>
        ih inner hnames hnodes.2.1
  | positiveElse h ih =>
      intro scope hnames hnodes
      rw [names, List.mem_append, not_or] at hnames
      simp only [Stmt.nodes, List.nodup_append] at hnodes
      exact diverges_positiveElse h (fun inner => ih inner hnames.1 hnodes.2.1.1) hnames.2
        fun n hn hn' => hnodes.2.1.2.2 n hn n hn' rfl
  | negative h ih =>
      intro scope hnames hnodes
      rw [names, List.mem_append, not_or] at hnames
      simp only [Stmt.nodes, List.nodup_append] at hnodes
      exact diverges_negative h (fun inner => ih inner hnames.2 hnodes.2.1.2.1) hnames.1

end

end Stmt

/-! ## Bodies -/

namespace FunctionDecl

/-- In the body of a function, an expression is replaced. -/
def Replaces (old new : Expr) (decl decl' : FunctionDecl) : Prop :=
  ∃ block block', decl.body = .block block ∧ decl' = { decl with body := .block block' } ∧
    block.toStmt.Replaces old new block'.toStmt

/-- Bodies are resolved one part behind the other. -/
theorem resolveBodies_append (before after : List FunctionDecl) :
    resolveBodies (before ++ after) = (do
      let first ← resolveBodies before
      let second ← resolveBodies after
      return second + first) := by
  induction before with
  | nil => simp [resolveBodies]
  | cons decl before ih =>
      simp only [List.cons_append, resolveBodies, ih, bind_assoc, pure_bind]
      congr 1
      funext resolved
      split <;> simp [Nat.add_assoc]

section

variable {slip : Slip} {new : Expr} {decl decl' : FunctionDecl}

/-- A slip in its body does not change the heading of a function. -/
theorem Replaces.heading {old : Expr} (h : decl.Replaces old new decl') :
    decl'.heading = decl.heading := by
  obtain ⟨block, block', hbody, rfl, -⟩ := h
  simp [FunctionDecl.heading, hbody, FunctionBody.heading]

/-- The nodes of the replaced expression are among those of the body. -/
theorem Replaces.nodes_sublist {old : Expr} (h : decl.Replaces old new decl') :
    old.nodes.Sublist decl.body.nodes := by
  obtain ⟨block, block', hbody, -, hblock⟩ := h
  rw [hbody]
  exact hblock.nodes_sublist

/-- **A body with a slip**, if there is a function with a scope to resolve it in. -/
theorem Replaces.diverges (h : decl.Replaces slip.old new decl')
    (hold : ∀ scope, slip.old.DivergesTo slip scope new) (hspan : new.span = slip.old.span)
    (hname : slip.fresh ∉ decl.names) (hnodes : decl.nodes.Nodup) {ctx : Context}
    (hlacks : ctx.Lacks slip.fresh) {id : SymbolId} {scope : ScopeId}
    (hsymbol : ctx.bindings.symbol? decl.id = some id)
    (hscope : ctx.bindings.scope? decl.id = some scope) :
    slip.DivergesFrom slip.old.nodes slip.old.nodes ctx decl.resolveBody decl'.resolveBody Eq := by
  obtain ⟨block, block', hbody, rfl, hblock⟩ := h
  have hreturns : Stmt.anyReturns block'.stmts = Stmt.anyReturns block.stmts := by
    simpa only [Block.toStmt, Stmt.returns] using hblock.returns
  have hstmt : block.toStmt.nodes.Nodup := by
    have hall := (List.nodup_append.1 (List.nodup_cons.1 hnodes).2).2.1
    rwa [hbody] at hall
  have hname' : slip.fresh ∉ block.toStmt.names := decl.body_ne hname (by rw [hbody]; rfl)
  simp only [resolveBody, hbody, FunctionBody.block?]
  apply Slip.DivergesFrom.read
  simp only [hsymbol, hscope, hreturns]
  refine (hblock.diverges hold hspan _ scope hname' hstmt ctx hlacks).andThen (fun _ => ?_)
    fun n _ => List.not_mem_nil
  split
  · exact acts_pure _
  · exact acts_mismatch_return _ _ _

/-- **Bodies, one of which has a slip.** -/
theorem Replaces.diverges_bodies {before after : List FunctionDecl}
    (h : decl.Replaces slip.old new decl') (hold : ∀ scope, slip.old.DivergesTo slip scope new)
    (hspan : new.span = slip.old.span)
    (hproper : ∀ d ∈ before ++ decl :: after, d.Proper)
    (hnodes : ((before ++ decl :: after).flatMap FunctionDecl.nodes).Nodup)
    (hnames : ∀ d ∈ before ++ decl :: after, slip.fresh ∉ d.names) {ctx : Context}
    (hlacks : ctx.Lacks slip.fresh) (hok : ctx.Ok) (hresolved : ctx.symbols.Resolved)
    (hprepared : ∀ d ∈ before ++ decl :: after, ∃ owner id, IsPrepared ctx d owner id) :
    slip.DivergesFrom slip.old.nodes slip.old.nodes ctx (resolveBodies (before ++ decl :: after))
      (resolveBodies (before ++ decl' :: after)) Eq := by
  simp only [List.forall_mem_append, List.forall_mem_cons] at hproper hnames hprepared
  obtain ⟨hproperb, -, -⟩ := hproper
  obtain ⟨hnamesb, hnamed, hnamesa⟩ := hnames
  obtain ⟨hpreparedb, ⟨owner, id, scope, view, entry, hdecl, -⟩, -⟩ := hprepared
  rw [List.flatMap_append, List.flatMap_cons] at hnodes
  obtain ⟨hbefore, hrest, hbeforeApart⟩ := List.nodup_append.1 hnodes
  obtain ⟨hdeclNodes, -, hafterApart⟩ := List.nodup_append.1 hrest
  have hapart : ∀ n ∈ slip.old.nodes, n ∉ after.flatMap FunctionDecl.nodes := fun n hn hn' =>
    hafterApart n (decl.body_subset_nodes (h.nodes_sublist.subset hn)) n hn' rfl
  have hid : decl.id ∉ bodyNodes before := fun hn =>
    hbeforeApart decl.id (bodyNodes_subset before hn) decl.id
      (List.mem_append_left _ (List.mem_cons_self ..)) rfl
  have hfirst : Acts [] (bodyNodes before) slip.fresh (resolveBodies before) :=
    acts_resolveBodies hnamesb (by simp)
  have hlast : Acts slip.old.nodes (bodyNodes after) slip.fresh (resolveBodies after) :=
    acts_resolveBodies hnamesa fun n hn hn' => hapart n hn' hn
  have hall : Acts [] (bodyNodes (decl :: after)) slip.fresh (resolveBodies (decl :: after)) :=
    acts_resolveBodies (by simpa using ⟨hnamed, hnamesa⟩) (by simp)
  rw [resolveBodies_append, resolveBodies_append]
  refine .behind (fun first ctx₁ hrun hclean => ?_) fun first => hall.bind fun _ => acts_pure _
  obtain ⟨-, hdoes⟩ := does_resolveBodies before hproperb hbefore ctx first ctx₁ hrun hclean
  obtain ⟨-, -, hadvances, -⟩ := hdoes hok hresolved hpreparedb
  have hbody := h.diverges hold hspan hnamed hdeclNodes (hfirst.lacks hrun hlacks)
    ((hadvances.confined.symbol? _ hid).trans hdecl.symbol?)
    ((hadvances.confined.scope? _ hid).trans hdecl.scope?)
  simp only [resolveBodies]
  refine (hbody.andThen (fun _ => hlast.bind fun _ => acts_pure _) fun n hn hn' => ?_).andThen
    (fun _ => acts_pure _) fun n _ => List.not_mem_nil
  exact hapart n hn (bodyNodes_subset after hn')

end

end FunctionDecl

/-! ## The whole unit -/

/-- In a function of an item, an expression is replaced. -/
inductive Item.Replaces (old new : Expr) : Item → Item → Prop
  | function {decl decl' : FunctionDecl} (h : decl.Replaces old new decl') :
      Replaces old new (.function decl) (.function decl')
  | method (id : NodeId) (name : Ident) (parent : Option Ident) {before after : List ClassMember}
      {method method' : FunctionDecl} (span : Span) (h : method.Replaces old new method') :
      Replaces old new (.classDecl ⟨id, name, parent, before ++ .method method :: after, span⟩)
        (.classDecl ⟨id, name, parent, before ++ .method method' :: after, span⟩)

/-- In a function of a script, an expression is replaced. -/
inductive Script.Replaces (old new : Expr) : Script → Script → Prop
  | item {before after : List Item} {item item' : Item} (span : Span) (nodeCount : Nat)
      (h : item.Replaces old new item') :
      Replaces old new ⟨before ++ item :: after, span, nodeCount⟩
        ⟨before ++ item' :: after, span, nodeCount⟩

section

variable {old new : Expr} {item item' : Item} {script script' : Script}

/-- A slip in a body does not change the heading of an item. -/
theorem Item.Replaces.heading (h : item.Replaces old new item') : item'.heading = item.heading := by
  cases h with
  | function h => simp only [Item.heading, h.heading]
  | method id name parent span h =>
      simp [Item.heading, ClassDecl.heading, ClassMember.heading, h.heading]

/-- A slip in a body does not change the headings of a script. -/
theorem Script.Replaces.heading (h : script.Replaces old new script') :
    script'.heading = script.heading := by
  cases h with
  | item span nodeCount h => simp [Script.heading, h.heading]

/-- Only one function of an item has the slip. -/
theorem Item.Replaces.functions (h : item.Replaces old new item') : ∃ before decl decl' after,
    decl.Replaces old new decl' ∧ item.functions = before ++ decl :: after ∧
      item'.functions = before ++ decl' :: after := by
  cases h with
  | function h => exact ⟨[], _, _, [], h, rfl, rfl⟩
  | @method id name parent before after method method' span h =>
      refine ⟨ClassDecl.methods ⟨id, name, parent, before, span⟩, method, method',
        ClassDecl.methods ⟨id, name, parent, after, span⟩, h, ?_, ?_⟩
      · simp [Item.functions, ClassDecl.methods]
      · simp [Item.functions, ClassDecl.methods]

/-- Only one function of a script has the slip. -/
theorem Script.Replaces.functions (h : script.Replaces old new script') : ∃ before decl decl' after,
    decl.Replaces old new decl' ∧ script.items.flatMap Item.functions = before ++ decl :: after ∧
      script'.items.flatMap Item.functions = before ++ decl' :: after := by
  cases h with
  | @item before after item item' span nodeCount h =>
      obtain ⟨first, decl, decl', rest, hdecl, hitem, hitem'⟩ := h.functions
      refine ⟨before.flatMap Item.functions ++ first, decl, decl',
        rest ++ after.flatMap Item.functions, hdecl, ?_, ?_⟩
      · simp [hitem]
      · simp [hitem']

end

/-! ## Fresh names -/

/-- A word that a unit does not declare is new to it. -/
theorem IsName.isNew {name : String} {script : Script} (hname : IsName name)
    (hfresh : name ∉ script.names) : IsNew name where
  predeclared := fun hmem => hfresh (List.mem_append_left _ hmem)
  mark := by
    rintro rfl
    exact absurd hname.1 (by decide)

/-- At first, nothing has a new name. -/
theorem Context.lacks_initial {name : String} (hname : IsName name) (hnew : IsNew name) :
    Context.initial.Lacks name := by
  have hsymbols : ∀ symbol ∈ SymbolTable.initial.symbols, symbol.name ≠ name := by
    rintro symbol hsymbol rfl
    exact hnew.predeclared (List.mem_cons_of_mem _ (List.mem_map_of_mem hsymbol))
  constructor
  · intro scope
    cases scope with
    | zero =>
        have hroot : name ≠ rootClassName := fun heq =>
          hsymbols _ (List.mem_cons_self ..) heq.symm
        simp [ScopeTree.lookupLocal?, ScopeTree.get?, Context.initial, Scope.get?, hroot]
    | succ n => simp [ScopeTree.lookupLocal?, ScopeTree.get?, Context.initial]
  · intro id
    unfold SymbolTable.name
    cases hget : Context.initial.symbols.get? id with
    | none =>
        rintro rfl
        exact absurd hname.1 (by decide)
    | some symbol => exact hsymbols symbol (List.mem_of_getElem? hget)

/-! ## The slip is reported -/

/-- **A unit with a slip.** -/
theorem Script.Replaces.diverges {slip : Slip} {new : Expr} {script script' : Script}
    (h : script.Replaces slip.old new script') (hold : ∀ scope, slip.old.DivergesTo slip scope new)
    (hspan : new.span = slip.old.span) (hproper : script.Proper) (hnew : IsNew slip.fresh)
    (hfresh : slip.fresh ∉ script.names) {ctx : Context} (hlacks : ctx.Lacks slip.fresh)
    (houtline : Outline script.items ctx) :
    slip.DivergesFrom slip.old.nodes slip.old.nodes ctx script.resolve script'.resolve Eq := by
  obtain ⟨before, decl, decl', after, hdecl, hfunctions, hfunctions'⟩ := h.functions
  have hitems : ∀ item ∈ script.items, slip.fresh ∉ item.names := fun item hitem hmem =>
    hfresh (List.mem_append_right _ (List.mem_flatMap.2 ⟨item, hitem, hmem⟩))
  have hnames : ∀ decl ∈ script.items.flatMap Item.functions, slip.fresh ∉ decl.names := by
    intro decl hdecl
    obtain ⟨item, hitem, hof⟩ := List.mem_flatMap.1 hdecl
    exact Item.names_functions (hitems item hitem) decl hof
  have hdeclarations : script'.resolveDeclarations = script.resolveDeclarations := by
    rw [← Script.resolveDeclarations_heading script', h.heading, Script.resolveDeclarations_heading]
  have hbodies := fun n => script.acts_resolveBodies hitems n
  have hcounted : ∀ n bodies, Acts slip.old.nodes [] slip.fresh
      (do let after ← get; return (⟨bodies, after.scopes.size - n⟩ : Resolved)) := fun n bodies =>
    acts_read (fun _ _ h => by rw [h.scopes]) fun _ => acts_pure _
  unfold Script.resolve
  rw [hfunctions', hdeclarations]
  rw [hfunctions] at hbodies hnames ⊢
  apply Slip.DivergesFrom.read
  refine .behind (fun _ ctx₁ hrun hclean => ?_) fun _ => hbodies _
  obtain ⟨-, hdoes⟩ := script.does_resolveDeclarations hproper ctx () ctx₁ hrun hclean
  obtain ⟨hsettled, -⟩ := hdoes houtline
  have hprepared : ∀ d ∈ before ++ decl :: after, ∃ owner id, IsPrepared ctx₁ d owner id := by
    intro d hd
    rw [← hfunctions] at hd
    obtain ⟨item, hitem, hof⟩ := List.mem_flatMap.1 hd
    obtain ⟨id, hfilled⟩ := hsettled.filled item hitem
    exact hfilled.function hof
  have hall := hdecl.diverges_bodies hold hspan
    (fun d hd => script.proper_functions hproper (hfunctions ▸ hd))
    (hfunctions ▸ Script.functions_nodup hproper) hnames
    ((Script.acts_resolveDeclarations hnew hitems).lacks hrun hlacks) hsettled.ok hsettled.resolved
    hprepared
  exact hall.andThen (fun bodies => hcounted _ bodies) fun n _ => List.not_mem_nil

/-- The nodes of the expression are different ones. -/
theorem Script.Replaces.nodup {old new : Expr} {script script' : Script}
    (h : script.Replaces old new script') (hproper : script.Proper) : old.nodes.Nodup := by
  obtain ⟨before, decl, decl', after, hdecl, hfunctions, -⟩ := h.functions
  have hall := Script.functions_nodup hproper
  rw [hfunctions, List.flatMap_append, List.flatMap_cons] at hall
  have hnodes := (List.nodup_append.1 (List.nodup_append.1 hall).2.1).1
  have hbody := hdecl.nodes_sublist.trans (List.sublist_append_right (decl.params.map Param.id) _)
  exact hbody.nodup (List.nodup_cons.1 hnodes).2

/-- Nothing was reported about a unit that has no errors. -/
theorem Script.diagnostics_resolvedContext {name : String} {script : Script} (hnew : IsNew name)
    (hitems : ∀ item ∈ script.items, name ∉ item.names) (hclean : script.resolvedContext.Clean) :
    script.declaredContext.Clean ∧ script.resolvedContext.diagnostics = {} := by
  have hdeclare : Acts [] [] name script.declare := Script.acts_declare hitems
  have hresolve := Script.acts_resolve hnew hitems
  have hdeclared : script.declaredContext.Clean := hresolve.clean rfl hclean
  obtain ⟨-, -, -, hsame, -⟩ := hdeclare.follow (.refl [] Context.initial) rfl hdeclared
  obtain ⟨-, -, -, hsame', -⟩ := hresolve.follow (.refl [] script.declaredContext) rfl hclean
  exact ⟨hdeclared, hsame'.trans hsame⟩

/-- Errors of resolution end a compilation. -/
theorem Script.compile_of_reported {script : Script} (hdeclared : script.declaredContext.Clean)
    (hreported : ¬ script.resolvedContext.Clean) :
    script.compile = .error (.diagnostics .resolution script.resolvedContext.diagnostics) := by
  have herrors : script.resolvedContext.diagnostics.hasErrors = true := by
    simpa [Context.Clean] using hreported
  rw [Script.compile_eq, Context.stopOnErrors, Context.stopOnErrors, hdeclared, herrors]
  rfl

/-- **One mistake.**  In a unit that is accepted, a name in the body of a function is replaced by a
word that is declared nowhere.  This is reported, and behind it only literals of the same
expression that had lost their types by it: if all integer literals of the expression are of type
`int32`, then there is just one report. -/
theorem compile_slip {source : String} {script script' : Script} {compiled : Compiled}
    {old new : Expr} {ident : Ident} {fresh : String} (hparse : parse source = .ok script)
    (haccepted : compile source = .ok compiled) (hname : IsName fresh)
    (hfresh : fresh ∉ script.names) (hreplaces : script.Replaces old new script')
    (hrenames : old.Renames ident fresh new) :
    ∃ further, script'.compile = .error (.diagnostics .resolution
        (({} : Diagnostics).reportAll (.unresolved fresh ident.span :: further))) ∧
      (∀ error ∈ further, FollowsUp script.resolvedContext old error) ∧
      ((∀ literal ∈ old.subexprs, ¬ literal.IsHinted script.resolvedContext) → further = []) := by
  obtain ⟨script₀, -, hscript, hclean, -⟩ := resolved_of_compile haccepted
  cases hparse.symm.trans hscript.parse_eq
  have hnew := hname.isNew hfresh
  have hitems : ∀ item ∈ script.items, fresh ∉ item.names := fun item hitem hmem =>
    hfresh (List.mem_append_right _ (List.mem_flatMap.2 ⟨item, hitem, hmem⟩))
  obtain ⟨hdeclared, hnone⟩ := Script.diagnostics_resolvedContext hnew hitems hclean
  obtain ⟨-, houtline⟩ := script.does_declare hscript.proper .initial _ _ rfl hdeclared
  have hdeclare : Acts [] [] fresh script.declare := Script.acts_declare hitems
  have hsame : script'.declaredContext = script.declaredContext := by
    unfold Script.declaredContext
    rw [← Script.declare_heading script', hreplaces.heading, Script.declare_heading]
  let slip : Slip := ⟨script.resolvedContext, old, ident, fresh⟩
  have hold : ∀ scope, old.DivergesTo slip scope new := fun scope =>
    Expr.Renames.divergesTo hrenames (hreplaces.nodup hscript.proper) (List.Subset.refl _)
  have hdiverges : slip.DivergesFrom old.nodes old.nodes script.declaredContext script.resolve
      script'.resolve Eq :=
    Script.Replaces.diverges hreplaces hold hrenames.span hscript.proper hnew hfresh
      (hdeclare.lacks rfl (Context.lacks_initial hname hnew)) (houtline rfl)
  obtain ⟨resolved, ctx', hrun, hastray, -⟩ := hdiverges _ _ rfl hclean fun _ _ => rfl
  obtain ⟨further, hfurther, hreported⟩ := hastray.reported
  have hctx' : script'.resolvedContext = ctx' := by
    rw [Script.resolvedContext, hsame, hrun]
  have hdiagnostics : script'.resolvedContext.diagnostics =
      ({} : Diagnostics).reportAll (.unresolved fresh ident.span :: further) := by
    rw [hctx', hreported]
    exact congrArg (Diagnostics.reportAll · _) hnone
  have herrors : ¬ script'.resolvedContext.Clean := by
    rw [Context.Clean, hdiagnostics, Diagnostics.hasErrors_reportAll]
    simp
  refine ⟨further, ?_, hfurther, fun hunhinted => ?_⟩
  · rw [Script.compile_of_reported (hsame ▸ hdeclared) herrors, hdiagnostics]
  · apply List.eq_nil_iff_forall_not_mem.2
    intro error herror
    obtain ⟨literal, hliteral, hhinted⟩ := (hfurther error herror).hinted
    exact hunhinted literal hliteral hhinted

/-- A sum with a variable in it, in whose place a slip can be. -/
def slipSource : String := "void f(int32 x) { x + 1; }"

/-- What is found out about the sum by compiling it: its literal is an `int32`. -/
theorem slipSource_evaluated :
    (match parse slipSource with
      | .ok script =>
          decide ("zz" ∉ script.names) && (compile slipSource).toOption.isSome &&
          (match script with
            | ⟨[.function ⟨_, _, _, _, .block
              ⟨_, [.expr (.binary node op (.name id ident) right place)
                _], _⟩, _⟩], _, _⟩ =>
                decide (∀ literal ∈ (Expr.binary node op (.name id ident) right place).subexprs,
                  ¬ literal.IsHinted script.resolvedContext)
            | _ => false)
      | .error _ => false) = true := by
  decide +kernel

/-- A concrete slip, in an operand of a sum: the name is the only error. -/
theorem compile_slip_sum : ∃ script script' compiled old new ident, parse slipSource = .ok script ∧
    compile slipSource = .ok compiled ∧ IsName "zz" ∧ "zz" ∉ script.names ∧
    script.Replaces old new script' ∧ old.Renames ident "zz" new ∧
    script'.compile = .error (.diagnostics .resolution
      (({} : Diagnostics).reportAll [.unresolved "zz" ident.span])) := by
  have h := slipSource_evaluated
  split at h
  · next script hparse =>
      rw [Bool.and_eq_true, Bool.and_eq_true, decide_eq_true_eq] at h
      obtain ⟨⟨hfresh, haccepted⟩, hshape⟩ := h
      split at hshape
      · next function returnType name params block node op id ident right place span blockSpan
            declSpan scriptSpan count =>
          have hunhinted := of_decide_eq_true hshape
          cases hcompile : compile slipSource with
          | error error => simp [hcompile, Except.toOption] at haccepted
          | ok compiled =>
              have hname : IsName "zz" := ⟨by decide, by decide⟩
              let old : Expr := .binary node op (.name id ident) right place
              let new : Expr := .binary node op (.name id ⟨"zz", ident.span⟩) right place
              have hrenames : old.Renames ident "zz" new := .left (.name id)
              have hblock : Stmt.Replaces old new (.block block ([] ++ [.expr old span]) blockSpan)
                  (.block block ([] ++ [.expr new span]) blockSpan) := .block (.expr span)
              let sum (e : Expr) : Item := .function ⟨function, returnType, name, params,
                .block ⟨block, [.expr e span], blockSpan⟩, declSpan⟩
              have hitem : Item.Replaces old new (sum old) (sum new) :=
                .function ⟨_, _, rfl, rfl, hblock⟩
              have hreplaces : Script.Replaces old new ⟨[] ++ [sum old], scriptSpan, count⟩
                  ⟨[] ++ [sum new], scriptSpan, count⟩ := .item scriptSpan count hitem
              obtain ⟨further, hslip, -, hnone⟩ :=
                compile_slip hparse hcompile hname hfresh hreplaces hrenames
              rw [hnone hunhinted] at hslip
              exact ⟨_, _, compiled, old, new, ident, hparse, rfl, hname, hfresh, hreplaces,
                hrenames, hslip⟩
      · cases hshape
  · cases h

/-- The same sum with a larger type, and the sum with a slip in it. -/
theorem largeSlip_evaluated :
    (compile "void f(int64 x) { x + 5000000000; }").toOption.isSome = true ∧
    (match compile "void f(int64 x) { zz + 5000000000; }" with
      | .error (.diagnostics .resolution diagnostics) => diagnostics.semantic ==
          [.unresolved "zz" ⟨1, 19, 2⟩, .mismatch (.literalTooLarge 5000000000 "int32") ⟨1, 24, 10⟩]
      | _ => false) = true := by
  constructor <;> decide +kernel

/-- **A slip may have a second report behind it.** -/
theorem slip_cascades : (∃ compiled, compile "void f(int64 x) { x + 5000000000; }" = .ok compiled) ∧
    ∃ diagnostics, compile "void f(int64 x) { zz + 5000000000; }" =
        .error (.diagnostics .resolution diagnostics) ∧
      diagnostics.semantic = [.unresolved "zz" ⟨1, 19, 2⟩,
        .mismatch (.literalTooLarge 5000000000 "int32") ⟨1, 24, 10⟩] := by
  obtain ⟨haccepted, hslip⟩ := largeSlip_evaluated
  constructor
  · cases hcompile : compile "void f(int64 x) { x + 5000000000; }" with
    | error error => simp [hcompile, Except.toOption] at haccepted
    | ok compiled => exact ⟨compiled, rfl⟩
  · split at hslip
    · next diagnostics hcompile => exact ⟨diagnostics, hcompile, by simpa using hslip⟩
    · cases hslip

end ClassLang
