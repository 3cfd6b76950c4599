import ClassLang.Declare
import ClassLang.Proofs.Resolve.Deeds
import ClassLang.Proofs.Resolve.Script

/-!
# Every part of the analysis acts by steps

One lemma for each program of the analysis: it takes the same steps in contexts that are alike
(`Acts`).  A statement must not ask for the symbols of odd nodes, which concerns the targets of
its assignments, and a tree must not declare the name that is to stay unknown (`Stmt.names` and
its siblings list what a tree declares).
-/

namespace ClassLang

open Analysis

/-! ## The names that a tree declares -/

mutual

/-- The names of the variables that a statement declares. -/
def Stmt.names : Stmt → List String
  | .block _ stmts _ => Stmt.namesOfAll stmts
  | .varDecl _ _ name _ _ => [name.name]
  | .ifThen _ positive _ => positive.names
  | .ifElse _ positive negative _ => positive.names ++ negative.names
  | .ret _ _ | .expr _ _ => []

/-- The names of the variables that statements declare. -/
def Stmt.namesOfAll : List Stmt → List String
  | [] => []
  | s :: rest => s.names ++ Stmt.namesOfAll rest

end

/-- The names that a function declares: its own, and those of its parameters and variables. -/
def FunctionDecl.names (decl : FunctionDecl) : List String :=
  decl.name.name :: (decl.params.map (·.name.name) ++
    match decl.body with
    | .block block => block.toStmt.names
    | .external _ => [])

/-- The names that a member of a class declares. -/
def ClassMember.names : ClassMember → List String
  | .field f => [f.name.name]
  | .method f => f.names

/-- The names that an item declares. -/
def Item.names : Item → List String
  | .classDecl decl => decl.name.name :: decl.members.flatMap ClassMember.names
  | .structDecl decl => decl.name.name :: decl.fields.map (·.name.name)
  | .function decl => decl.names

/-- The names that every unit has: those of the root class and its members, and that of the
receiver of member functions. -/
def predeclaredNames : List String := selfName :: SymbolTable.initial.symbols.map Symbol.name

/-- The names that are declared in a unit. -/
def Script.names (script : Script) : List String :=
  predeclaredNames ++ script.items.flatMap Item.names

variable {odd nodes : List NodeId} {name : String}

/-- A name that a unit does not have by itself. -/
structure IsNew (name : String) : Prop where
  predeclared : name ∉ predeclaredNames
  /-- It is not what the mark of variadic functions is called. -/
  mark : Symbol.variadicMarker.name ≠ name

/-- The receiver has another name. -/
theorem IsNew.self_ne (h : IsNew name) : selfName ≠ name := by
  rintro rfl
  exact h.predeclared (by simp [predeclaredNames])

/-- The function that makes an object has another name. -/
theorem IsNew.init_ne (h : IsNew name) : initName ≠ name := by
  rintro rfl
  exact h.predeclared (by decide)

/-- A function has another name if the name is not among those that it declares. -/
theorem FunctionDecl.name_ne {decl : FunctionDecl} (h : name ∉ decl.names) :
    decl.name.name ≠ name := by
  rintro rfl
  exact h (List.mem_cons_self ..)

/-- The same for its parameters. -/
theorem FunctionDecl.param_ne {decl : FunctionDecl} (h : name ∉ decl.names) :
    ∀ param ∈ decl.params, param.name.name ≠ name := by
  rintro param hparam rfl
  exact h (List.mem_cons_of_mem _ (List.mem_append_left _ (List.mem_map_of_mem hparam)))

/-- The same for the variables in its body. -/
theorem FunctionDecl.body_ne {decl : FunctionDecl} (h : name ∉ decl.names) {block : Block}
    (hblock : decl.body.block? = some block) : name ∉ block.toStmt.names := by
  cases hbody : decl.body with
  | external variadic => simp [hbody, FunctionBody.block?] at hblock
  | block b =>
      simp only [hbody, FunctionBody.block?, Option.some.injEq] at hblock
      subst hblock
      intro hmem
      apply h
      simp only [FunctionDecl.names, hbody]
      exact List.mem_cons_of_mem _ (List.mem_append_right _ hmem)

/-! ## Types -/

namespace TypeExpr

/-- Resolving the base of a type acts by steps. -/
theorem acts_resolveBase (base : TypeBase) (scope : ScopeId) :
    Acts odd nodes name (resolveBase base scope) := by
  unfold resolveBase
  split
  · exact acts_pure _
  · refine acts_read (fun ctx ctx' h => by simp only [h.symbols, h.scopes]) fun ctx => ?_
    split
    · exact acts_report_return _ _
    · split
      · exact acts_pure _
      · exact acts_pure _
      · exact acts_mismatch_return _ _ _
      · exact acts_pure _

/-- Resolving a type acts by steps. -/
theorem acts_resolve (ty : TypeExpr) (scope : ScopeId) :
    Acts odd nodes name (ty.resolve scope) := by
  refine (acts_resolveBase _ _).bind fun base => ?_
  split
  · exact acts_pure _
  · exact acts_pure _

/-- Resolving the type of something stored acts by steps. -/
theorem acts_resolveStorage (ty : TypeExpr) (scope : ScopeId) (what : String) :
    Acts odd nodes name (ty.resolveStorage scope what) := by
  refine (ty.acts_resolve scope).bind fun resolved => ?_
  split
  · exact acts_mismatch_return _ _ _
  · exact acts_pure _

end TypeExpr

/-! ## Expressions -/

/-- Naming a type acts by steps. -/
theorem acts_typeName (ty : Ty) : Acts odd nodes name (typeName ty) :=
  acts_read (fun ctx ctx' h => by rw [h.symbols]) fun _ => acts_pure _

/-- Checking an assignment acts by steps. -/
theorem acts_checkAssignable (actual target : Ty) (span : Span) :
    Acts odd nodes name (checkAssignable actual target span) := by
  unfold checkAssignable
  split
  · exact acts_pure _
  · exact (acts_typeName _).bind fun _ => (acts_typeName _).bind fun _ => acts_mismatch _ _

/-- Checking a condition acts by steps. -/
theorem acts_expectBool (ty : Ty) (what : String) (span : Span) :
    Acts odd nodes name (expectBool ty what span) := by
  unfold expectBool
  split
  · exact acts_pure _
  · exact (acts_typeName _).bind fun _ => acts_mismatch _ _

/-- Checking two integers acts by steps. -/
theorem acts_integerPair (left right : Ty) (operator : String) (span : Span) :
    Acts odd nodes name (integerPair left right operator span) := by
  unfold integerPair
  split
  · exact acts_pure _
  · split
    · exact acts_pure _
    · exact (acts_typeName _).bind fun _ => (acts_typeName _).bind fun _ =>
        acts_mismatch_return _ _ _

/-- Noting the type of a node acts by steps at that node. -/
theorem acts_typed {node : NodeId} (hnode : node ∈ nodes) {find : Analysis Ty}
    (h : Acts odd nodes name find) : Acts odd nodes name (typed node find) :=
  h.bind fun _ => (acts_bindType hnode _).bind fun _ => acts_pure _

/-- Resolving a literal acts by steps. -/
theorem Literal.acts_resolve (value : Literal) (span : Span) (expected : Option Ty) :
    Acts odd nodes name (value.resolve span expected) := by
  unfold Literal.resolve
  split
  · exact acts_pure _
  · exact acts_pure _
  · dsimp only
    split
    · exact acts_pure _
    · exact acts_mismatch_return _ _ _

/-- Resolving a name acts by steps, also where it is the unknown one. -/
theorem Ident.acts_resolveValue (ident : Ident) (node : NodeId) (scope : ScopeId) :
    Acts odd nodes name (ident.resolveValue node scope) := by
  refine acts_read (fun ctx ctx' h => by simp only [h.symbols, h.lookupName?]) fun ctx => ?_
  split
  · exact acts_report_return _ _
  · split
    · exact (acts_bindSymbol _ _).bind fun _ => acts_pure _
    · exact (acts_bindSymbol _ _).bind fun _ => acts_pure _
    · exact (acts_bindSymbol _ _).bind fun _ => acts_pure _
    · exact acts_mismatch_return _ _ _
    · exact acts_pure _

/-- Resolving a member acts by steps. -/
theorem Ident.acts_resolveMember (ident : Ident) (node : NodeId) (object : Ty) (isPlace : Bool)
    (objectSpan span : Span) :
    Acts odd nodes name (ident.resolveMember node object isPlace objectSpan span) := by
  unfold resolveMember
  split
  · exact acts_pure _
  · split
    · exact acts_mismatch_return _ _ _
    · refine acts_read (fun ctx ctx' h => by simp only [h.symbols]) fun ctx => ?_
      dsimp only
      split
      · exact (acts_typeName _).bind fun _ => acts_mismatch_return _ _ _
      · exact acts_report_return _ _
      · split
        · exact (acts_bindSymbol _ _).bind fun _ => acts_pure _
        · exact acts_mismatch_return _ _ _

/-- Resolving what is called acts by steps. -/
theorem Ident.acts_resolveCallee (ident : Ident) (target : Option SymbolId) :
    Acts odd nodes name (ident.resolveCallee target) := by
  refine acts_read (fun ctx ctx' h => by simp only [h.symbols]) fun ctx => ?_
  split
  · exact acts_report_return _ _
  · dsimp only
    split
    · exact acts_pure _
    · exact acts_mismatch_return _ _ _

/-- Counting arguments acts by steps. -/
theorem FunctionEntry.acts_checkCount (entry : FunctionEntry) (expected given : Nat)
    (span : Span) : Acts odd nodes name (entry.checkCount expected given span) := by
  have hsplit : ∀ fits : Prop, ∀ _ : Decidable fits, Acts odd nodes name (if fits then pure () else
      mismatch (.argumentCount entry.name entry.traits.variadic expected given) span) := by
    intro fits _
    split
    · exact acts_pure _
    · exact acts_mismatch _ _
  exact hsplit _ _

/-- Resolving a call without its arguments acts by steps. -/
theorem Ident.acts_resolveCall (callee : Ident) (node : NodeId) (target : Option SymbolId)
    (given : Nat) (span : Span) :
    Acts odd nodes name (callee.resolveCall node target given span) := by
  refine (callee.acts_resolveCallee target).bind fun found => ?_
  split
  · exact acts_pure _
  · exact (acts_bindSymbol _ _).bind fun _ =>
      acts_read (fun ctx ctx' h => by simp only [h.symbols]) fun ctx =>
        (FunctionEntry.acts_checkCount _ _ _ _).bind fun _ => acts_pure _

/-- Resolving a function of a receiver acts by steps. -/
theorem Ident.acts_resolveMethod (callee : Ident) (receiver : Ty) :
    Acts odd nodes name (callee.resolveMethod receiver) := by
  unfold resolveMethod
  split
  · exact acts_pure _
  · refine acts_read (fun ctx ctx' h => by simp only [h.symbols]) fun ctx => ?_
    dsimp only
    split
    · exact acts_pure _
    · exact (acts_typeName _).bind fun _ => acts_mismatch_return _ _ _

namespace Expr

/-- Checking a target asks for the symbol of its node, which must not be odd. -/
theorem acts_checkTarget {target : Expr} (h : target.id ∉ odd) (ty : Ty) :
    Acts odd nodes name (target.checkTarget ty) := by
  unfold checkTarget
  split
  · next id ident =>
      refine acts_read (fun ctx ctx' halike => ?_) fun ctx => ?_
      · have hsymbol := halike.symbol? id h
        simp only [hsymbol, halike.symbols]
      · dsimp only
        split
        · exact acts_mismatch _ _
        · exact acts_pure _
  · exact acts_pure _

/-- The check of an operator, once its operands have types. -/
def checkOperator (op : BinaryOp) (left right : Ty) (leftSpan rightSpan span : Span) :
    Analysis Ty :=
  match op with
  | .or | .and => do
    Analysis.expectBool left ("'" ++ op.text ++ "'") leftSpan
    Analysis.expectBool right ("'" ++ op.text ++ "'") rightSpan
    return Ty.bool
  | .arith op => Analysis.integerPair left right op.text span
  | .compare op => do
    let _ ← Analysis.integerPair left right op.text span
    return Ty.bool

/-- The type that an operator expects of the operand that is resolved first. -/
def operandHint (op : BinaryOp) (expected : Option Ty) : Option Ty :=
  match op with
  | .or | .and => some Ty.bool
  | .arith _ => expected
  | .compare _ => none

/-- An integer literal on the left is resolved behind the right operand. -/
theorem resolve_binary_swapped {left right : Expr}
    (h : (left.isIntLiteral && !right.isIntLiteral) = true) (scope : ScopeId) (expected : Option Ty)
    (id : NodeId) (op : BinaryOp) (span : Span) :
    (Expr.binary id op left right span).resolve scope expected = (typed id do
      let rightType ← right.resolve scope (operandHint op expected)
      let leftType ← left.resolve scope (some rightType)
      checkOperator op leftType rightType left.span right.span span) := by
  simp only [resolve, h, if_true]
  cases op <;> simp [operandHint, checkOperator]

/-- Otherwise the operands are resolved from left to right. -/
theorem resolve_binary {left right : Expr}
    (h : (left.isIntLiteral && !right.isIntLiteral) = false) (scope : ScopeId)
    (expected : Option Ty) (id : NodeId) (op : BinaryOp) (span : Span) :
    (Expr.binary id op left right span).resolve scope expected = (typed id do
      let leftType ← left.resolve scope (operandHint op expected)
      let rightType ← right.resolve scope (some leftType)
      checkOperator op leftType rightType left.span right.span span) := by
  simp only [resolve, h, Bool.false_eq_true, if_false]
  cases op <;> simp [operandHint, checkOperator]

/-- Checking the operands of an operator acts by steps. -/
theorem acts_checkOperator (op : BinaryOp) (left right : Ty) (leftSpan rightSpan span : Span) :
    Acts odd nodes name (checkOperator op left right leftSpan rightSpan span) := by
  cases op with
  | or | and =>
      exact (acts_expectBool _ _ _).bind fun _ => (acts_expectBool _ _ _).bind fun _ => acts_pure _
  | arith op => exact acts_integerPair _ _ _ _
  | compare op => exact (acts_integerPair _ _ _ _).bind fun _ => acts_pure _

/-- An operator whose operands act on the nodes of the whole. -/
theorem acts_resolve_binary {scope : ScopeId} {id : NodeId} {left right : Expr} (hid : id ∈ nodes)
    (hleft : ∀ hint, Acts odd nodes name (left.resolve scope hint))
    (hright : ∀ hint, Acts odd nodes name (right.resolve scope hint)) (op : BinaryOp) (span : Span)
    (expected : Option Ty) :
    Acts odd nodes name ((Expr.binary id op left right span).resolve scope expected) := by
  cases horder : left.isIntLiteral && !right.isIntLiteral with
  | true =>
      rw [resolve_binary_swapped horder]
      exact acts_typed hid ((hright _).bind fun _ => (hleft _).bind fun _ =>
        acts_checkOperator op _ _ _ _ span)
  | false =>
      rw [resolve_binary horder]
      exact acts_typed hid ((hleft _).bind fun _ => (hright _).bind fun _ =>
        acts_checkOperator op _ _ _ _ span)

/-- The arguments of a call, whether its target was found or not. -/
theorem acts_arguments {scope : ScopeId} {args : List Expr}
    (hall : Acts odd nodes name (resolveAll scope args))
    (hfitted : ∀ params, Acts odd nodes name (resolveArguments scope params args))
    (found : Option (List Ty × Ty)) : Acts odd nodes name
      (match found with
        | some (params, result) => do resolveArguments scope params args; return result
        | none => do resolveAll scope args; return Ty.error) := by
  cases found with
  | none => exact hall.bind fun _ => acts_pure _
  | some found => exact (hfitted found.1).bind fun _ => acts_pure _

mutual

/-- **An expression gives types to its own nodes.** -/
theorem acts_resolve (scope : ScopeId) (expected : Option Ty) :
    (e : Expr) → (∀ n ∈ e.nodes, n ∉ odd) → Acts odd e.nodes name (e.resolve scope expected)
  | .literal id value span, _ => by
      simp only [resolve]
      exact acts_typed (by simp) (value.acts_resolve span expected)
  | .name id ident, _ => by
      simp only [resolve]
      exact acts_typed (by simp) (ident.acts_resolveValue id scope)
  | .binary id op left right span, hodd => by
      rw [nodes_binary] at hodd ⊢
      have hleft : ∀ hint, Acts odd (id :: (left.nodes ++ right.nodes)) name
          (left.resolve scope hint) := fun hint =>
        (acts_resolve scope hint left fun n hn => hodd n (by simp [hn])).mono (by grind)
      have hright : ∀ hint, Acts odd (id :: (left.nodes ++ right.nodes)) name
          (right.resolve scope hint) := fun hint =>
        (acts_resolve scope hint right fun n hn => hodd n (by simp [hn])).mono (by grind)
      exact acts_resolve_binary (by simp) hleft hright op span expected
  | .assign id target value span, hodd => by
      rw [nodes_assign] at hodd ⊢
      have htarget : Acts odd (id :: (target.nodes ++ value.nodes)) name
          (target.resolve scope none) :=
        (acts_resolve scope none target fun n hn => hodd n (by simp [hn])).mono (by grind)
      have hvalue : ∀ hint, Acts odd (id :: (target.nodes ++ value.nodes)) name
          (value.resolve scope hint) := fun hint =>
        (acts_resolve scope hint value fun n hn => hodd n (by simp [hn])).mono (by grind)
      have hid : target.id ∉ odd := hodd _ (by simp [id_mem_nodes])
      simp only [resolve]
      exact acts_typed (by simp) (htarget.bind fun _ => (acts_checkTarget hid _).bind fun _ =>
        (hvalue _).bind fun _ => (acts_checkAssignable _ _ _).bind fun _ => acts_pure _)
  | .call id callee args span, hodd => by
      rw [nodes_call] at hodd ⊢
      have hargs : Acts odd (id :: nodesOfAll args) name (resolveAll scope args) :=
        (acts_resolveAll scope args fun n hn => hodd n (by simp [hn])).mono (by grind)
      have htyped : ∀ params, Acts odd (id :: nodesOfAll args) name
          (resolveArguments scope params args) := fun params =>
        (acts_resolveArguments scope params args fun n hn => hodd n (by simp [hn])).mono (by grind)
      simp only [resolve]
      refine acts_typed (by simp) (acts_read (fun ctx ctx' h => by simp only [h.lookupName?])
        fun ctx => (callee.acts_resolveCall _ _ _ _).bind fun found => ?_)
      exact acts_arguments hargs htyped found
  | .methodCall id receiver callee args span, hodd => by
      rw [nodes_methodCall] at hodd ⊢
      have hreceiver : Acts odd (id :: (receiver.nodes ++ nodesOfAll args)) name
          (receiver.resolve scope none) :=
        (acts_resolve scope none receiver fun n hn => hodd n (by simp [hn])).mono (by grind)
      have hargs : Acts odd (id :: (receiver.nodes ++ nodesOfAll args)) name
          (resolveAll scope args) :=
        (acts_resolveAll scope args fun n hn => hodd n (by simp [hn])).mono (by grind)
      have htyped : ∀ params, Acts odd (id :: (receiver.nodes ++ nodesOfAll args)) name
          (resolveArguments scope params args) := fun params =>
        (acts_resolveArguments scope params args fun n hn => hodd n (by simp [hn])).mono (by grind)
      simp only [resolve]
      refine acts_typed (by simp) (hreceiver.bind fun ty => (callee.acts_resolveMethod ty).bind
        fun target => ?_)
      split
      · exact hargs.bind fun _ => acts_pure _
      · exact (callee.acts_resolveCall _ _ _ _).bind fun found =>
          acts_arguments hargs htyped found
  | .member id object ident span, hodd => by
      rw [nodes_member] at hodd ⊢
      have hobject : Acts odd (id :: object.nodes) name (object.resolve scope none) :=
        (acts_resolve scope none object fun n hn => hodd n (by simp [hn])).mono (by grind)
      simp only [resolve]
      exact acts_typed (by simp) (hobject.bind fun _ => ident.acts_resolveMember _ _ _ _ _)

/-- Resolving expressions acts by steps at their nodes. -/
theorem acts_resolveAll (scope : ScopeId) : (args : List Expr) → (∀ n ∈ nodesOfAll args, n ∉ odd) →
    Acts odd (nodesOfAll args) name (resolveAll scope args)
  | [], _ => acts_pure _
  | arg :: rest, hodd => by
      rw [nodesOfAll_cons] at hodd ⊢
      have harg : Acts odd (arg.nodes ++ nodesOfAll rest) name (arg.resolve scope none) :=
        (acts_resolve scope none arg fun n hn => hodd n (by simp [hn])).mono (by grind)
      have hrest : Acts odd (arg.nodes ++ nodesOfAll rest) name (resolveAll scope rest) :=
        (acts_resolveAll scope rest fun n hn => hodd n (by simp [hn])).mono (by grind)
      simp only [resolveAll]
      exact harg.bind fun _ => hrest

/-- Resolving arguments acts by steps at their nodes. -/
theorem acts_resolveArguments (scope : ScopeId) : (params : List Ty) → (args : List Expr) →
    (∀ n ∈ nodesOfAll args, n ∉ odd) →
    Acts odd (nodesOfAll args) name (resolveArguments scope params args)
  | _, [], _ => by
      simp only [resolveArguments]
      exact acts_pure _
  | param :: params, arg :: rest, hodd => by
      rw [nodesOfAll_cons] at hodd ⊢
      have harg : Acts odd (arg.nodes ++ nodesOfAll rest) name (arg.resolve scope (some param)) :=
        (acts_resolve scope _ arg fun n hn => hodd n (by simp [hn])).mono (by grind)
      have hrest : Acts odd (arg.nodes ++ nodesOfAll rest) name
          (resolveArguments scope params rest) :=
        (acts_resolveArguments scope params rest fun n hn => hodd n (by simp [hn])).mono (by grind)
      simp only [resolveArguments]
      exact harg.bind fun _ => (acts_checkAssignable _ _ _).bind fun _ => hrest
  | [], arg :: rest, hodd => by
      rw [nodesOfAll_cons] at hodd ⊢
      have harg : Acts odd (arg.nodes ++ nodesOfAll rest) name (arg.resolve scope none) :=
        (acts_resolve scope _ arg fun n hn => hodd n (by simp [hn])).mono (by grind)
      have hrest : Acts odd (arg.nodes ++ nodesOfAll rest) name (resolveArguments scope [] rest) :=
        (acts_resolveArguments scope [] rest fun n hn => hodd n (by simp [hn])).mono (by grind)
      simp only [resolveArguments]
      refine harg.bind fun actual => ?_
      split
      · exact (acts_mismatch _ _).bind fun _ => hrest
      · exact hrest

end

end Expr

/-! ## Statements -/

namespace Stmt

/-- The check of a value that is returned. -/
theorem acts_checkReturn (actual returnType : Ty) (span : Span) :
    Acts odd nodes name (if returnType.isVoid then Analysis.mismatch .valueFromVoid span
      else Analysis.checkAssignable actual returnType span) := by
  split
  · exact acts_mismatch _ _
  · exact acts_checkAssignable _ _ _

/-- Resolving a return acts by steps at the nodes of its value. -/
theorem acts_resolveReturn (value : Option Expr) (span : Span) (scope : ScopeId) (returnType : Ty)
    (hodd : ∀ n ∈ Expr.nodesOfOption value, n ∉ odd) :
    Acts odd (Expr.nodesOfOption value) name (resolveReturn value span scope returnType) := by
  unfold resolveReturn
  split
  · next value =>
      exact (value.acts_resolve scope _ hodd).bind fun actual => acts_checkReturn _ _ _
  · split
    · exact acts_pure _
    · exact (acts_typeName _).bind fun _ => acts_mismatch _ _

/-- A variable is added, attached to its node, and bound. -/
theorem acts_declareVariable (id : NodeId) (scope : ScopeId) {ident : Ident} (ty : Ty)
    (hname : ident.name ≠ name) : Acts odd nodes name (do
      let symbol ← Analysis.addSymbol (.localVariable ⟨ident.name, ident.span, ty⟩)
      Analysis.bindSymbol id symbol
      let _ ← Analysis.define scope ident.name symbol ident.span) :=
  (acts_addSymbol (.localVariable ⟨ident.name, ident.span, ty⟩) hname).bind fun _ =>
    (acts_bindSymbol _ _).bind fun _ => (acts_define _ hname _ _).bind fun _ => acts_pure _

/-- A declaration acts by steps if it declares some other name. -/
theorem acts_resolveVarDecl (id : NodeId) (ty : TypeExpr) {ident : Ident} (value : Option Expr)
    (scope : ScopeId) (hname : ident.name ≠ name) (hodd : ∀ n ∈ Expr.nodesOfOption value, n ∉ odd) :
    Acts odd (Expr.nodesOfOption value) name (resolveVarDecl id ty ident value scope) := by
  refine (ty.acts_resolveStorage _ _).bind fun ty => ?_
  cases value with
  | none => exact acts_declareVariable id scope ty hname
  | some value =>
      exact (value.acts_resolve scope _ hodd).bind fun _ => (acts_checkAssignable _ _ _).bind
        fun _ => acts_declareVariable id scope ty hname

/-- Resolving a condition acts by steps at its nodes. -/
theorem acts_resolveCondition (condition : Expr) (scope : ScopeId)
    (hodd : ∀ n ∈ condition.nodes, n ∉ odd) :
    Acts odd condition.nodes name (resolveCondition condition scope) :=
  (condition.acts_resolve scope _ hodd).bind fun _ => acts_expectBool _ _ _

/-- A scope for one side of a conditional statement is one step. -/
theorem acts_branchScope (branch : Stmt) (parent : ScopeId) :
    Acts odd nodes name (branch.branchScope parent) := by
  unfold branchScope
  split
  · exact acts_pure _
  · exact acts_pushScope _ _

mutual

/-- **A statement gives types to its own nodes and declares its own names.** -/
theorem acts_resolve (returnType : Ty) (scope : ScopeId) : (s : Stmt) → name ∉ s.names →
    (∀ n ∈ s.nodes, n ∉ odd) → Acts odd s.nodes name (s.resolve returnType scope)
  | .block id stmts span, hname, hodd => by
      rw [names] at hname
      rw [Stmt.nodes] at hodd ⊢
      have hstmts : ∀ inner, Acts odd (id :: nodesOfAll stmts) name
          (resolveAll returnType inner stmts) := fun inner =>
        (acts_resolveAll returnType inner stmts hname fun n hn => hodd n (by simp [hn])).mono
          (by grind)
      simp only [resolve]
      exact (acts_scopeFor _ _ _).bind hstmts
  | .varDecl id ty ident value span, hname, hodd => by
      rw [names, List.mem_singleton] at hname
      rw [Stmt.nodes] at hodd ⊢
      simp only [resolve]
      exact (acts_resolveVarDecl id ty value scope (fun h => hname h.symm) fun n hn =>
        hodd n (by simp [hn])).mono (by grind)
  | .ifThen condition positive span, hname, hodd => by
      rw [names] at hname
      rw [Stmt.nodes] at hodd ⊢
      have hcondition : Acts odd (condition.nodes ++ positive.nodes) name
          (resolveCondition condition scope) :=
        (acts_resolveCondition condition scope fun n hn => hodd n (by simp [hn])).mono (by grind)
      have hpositive : ∀ inner, Acts odd (condition.nodes ++ positive.nodes) name
          (positive.resolve returnType inner) := fun inner =>
        (acts_resolve returnType inner positive hname fun n hn => hodd n (by simp [hn])).mono
          (by grind)
      simp only [resolve]
      exact hcondition.bind fun _ => (acts_branchScope _ _).bind hpositive
  | .ifElse condition positive negative span, hname, hodd => by
      rw [names, List.mem_append, not_or] at hname
      rw [Stmt.nodes] at hodd ⊢
      have hcondition : Acts odd (condition.nodes ++ (positive.nodes ++ negative.nodes)) name
          (resolveCondition condition scope) :=
        (acts_resolveCondition condition scope fun n hn => hodd n (by simp [hn])).mono (by grind)
      have hpositive : ∀ inner, Acts odd (condition.nodes ++ (positive.nodes ++ negative.nodes))
          name (positive.resolve returnType inner) := fun inner =>
        (acts_resolve returnType inner positive hname.1 fun n hn => hodd n (by simp [hn])).mono
          (by grind)
      have hnegative : ∀ inner, Acts odd (condition.nodes ++ (positive.nodes ++ negative.nodes))
          name (negative.resolve returnType inner) := fun inner =>
        (acts_resolve returnType inner negative hname.2 fun n hn => hodd n (by simp [hn])).mono
          (by grind)
      simp only [resolve]
      exact hcondition.bind fun _ => (acts_branchScope _ _).bind fun inner =>
        (hpositive inner).bind fun _ => (acts_branchScope _ _).bind hnegative
  | .ret value span, _, hodd => by
      rw [Stmt.nodes] at hodd ⊢
      simp only [resolve]
      exact acts_resolveReturn value span scope returnType hodd
  | .expr e span, _, hodd => by
      rw [Stmt.nodes] at hodd ⊢
      simp only [resolve]
      exact (e.acts_resolve scope none hodd).bind fun _ => acts_pure _

/-- Resolving statements acts by steps at their nodes. -/
theorem acts_resolveAll (returnType : Ty) (scope : ScopeId) : (stmts : List Stmt) →
    name ∉ namesOfAll stmts → (∀ n ∈ nodesOfAll stmts, n ∉ odd) →
    Acts odd (nodesOfAll stmts) name (resolveAll returnType scope stmts)
  | [], _, _ => by
      simp only [resolveAll]
      exact acts_pure _
  | s :: rest, hname, hodd => by
      rw [namesOfAll, List.mem_append, not_or] at hname
      rw [nodesOfAll] at hodd ⊢
      have hs : Acts odd (s.nodes ++ nodesOfAll rest) name (s.resolve returnType scope) :=
        (acts_resolve returnType scope s hname.1 fun n hn => hodd n (by simp [hn])).mono (by grind)
      have hrest : Acts odd (s.nodes ++ nodesOfAll rest) name (resolveAll returnType scope rest) :=
        (acts_resolveAll returnType scope rest hname.2 fun n hn => hodd n (by simp [hn])).mono
          (by grind)
      simp only [resolveAll]
      exact hs.bind fun _ => hrest

end

end Stmt

/-! ## Bodies -/

/-- **Resolving a body acts by steps** at its nodes. -/
theorem FunctionDecl.acts_resolveBody {decl : FunctionDecl} (hname : name ∉ decl.names)
    (hodd : ∀ n ∈ decl.nodes, n ∉ odd) : Acts odd decl.body.nodes name decl.resolveBody := by
  have hid : decl.id ∉ odd := hodd _ (List.mem_cons_self ..)
  unfold resolveBody
  split
  · exact acts_pure _
  · next block hblock =>
      have hbody := FunctionDecl.nodes_body hblock
      refine acts_read (fun ctx ctx' h => ?_) fun ctx => ?_
      · simp only [h.symbol? _ hid, Bindings.scope?, h.scope?, h.symbols]
      · split
        · rw [hbody]
          refine (block.toStmt.acts_resolve _ _ (decl.body_ne hname hblock) fun n hn => ?_).bind
            fun _ => ?_
          · exact hodd n (decl.body_subset_nodes (hbody ▸ hn))
          · split
            · exact acts_pure _
            · exact acts_mismatch_return _ _ _
        · exact acts_pure _

/-- **Bodies give types to their own nodes.** -/
theorem FunctionDecl.acts_resolveBodies {decls : List FunctionDecl}
    (hname : ∀ decl ∈ decls, name ∉ decl.names)
    (hodd : ∀ n ∈ decls.flatMap FunctionDecl.nodes, n ∉ odd) :
    Acts odd (FunctionDecl.bodyNodes decls) name (FunctionDecl.resolveBodies decls) := by
  induction decls with
  | nil => exact acts_pure _
  | cons decl rest ih =>
      rw [List.flatMap_cons] at hodd
      have hdecl := FunctionDecl.acts_resolveBody (hname decl (List.mem_cons_self ..)) fun n hn =>
        hodd n (List.mem_append_left _ hn)
      have hrest := ih (fun d hd => hname d (List.mem_cons_of_mem _ hd)) fun n hn =>
        hodd n (List.mem_append_right _ hn)
      exact (hdecl.mono (List.subset_append_left _ _)).bind fun _ =>
        (hrest.mono (List.subset_append_right _ _)).bind fun _ => acts_pure _

/-! ## Declarations

In front of the bodies nothing has a type, and no node is odd. -/

/-- A change of one entry that keeps its name. -/
theorem SymbolTable.name_modify {f : Symbol → Symbol} (h : ∀ s, (f s).name = s.name)
    (table : SymbolTable) (changed id : SymbolId) :
    (table.modify changed f).name id = table.name id := by
  simp only [SymbolTable.name, SymbolTable.get?_modify]
  split
  · rw [Option.map_map]
    congr 2
    exact funext h
  · rfl

/-- The table in which a function has its signature, if there is such a function. -/
def SymbolTable.signed (table : SymbolTable) (id : SymbolId) (returnType : Ty)
    (arguments : List SymbolId) : SymbolTable :=
  (table.setSignature id returnType arguments).toOption.getD table

/-- A signature renames no symbol. -/
theorem SymbolTable.name_signed (id : SymbolId) (returnType : Ty) (arguments : List SymbolId)
    (table : SymbolTable) (other : SymbolId) :
    (table.signed id returnType arguments).name other = table.name other := by
  unfold signed setSignature
  split
  · rfl
  · next entry hentry =>
      have hfunction := function?_eq_some_iff.1 hentry
      split
      · rfl
      · simp only [Except.toOption, Option.getD_some, name, get?_modify]
        split
        · next heq => simp [← heq, hfunction, Symbol.name]
        · rfl

/-- Giving a function its signature acts by steps. -/
theorem acts_sign (id : SymbolId) (returnType : Ty) (arguments : List SymbolId) (span : Span) :
    Acts odd nodes name (sign id returnType arguments span) := by
  intro ctx ctx' halike
  cases hsign : ctx.symbols.setSignature id returnType arguments with
  | error error =>
      have hread : ∀ other : Context, other.symbols = ctx.symbols →
          (sign id returnType arguments span).run other =
            (mismatch (.signature error) span : Analysis Unit).run other := by
        intro other hother
        rw [← hother] at hsign
        simp only [sign, StateT.run_bind, StateT.run_get, pure_bind, hsign]
      rw [hread ctx rfl, hread ctx' halike.symbols]
      exact acts_mismatch _ _ ctx ctx' halike
  | ok symbols =>
      have hread : ∀ other : Context, other.symbols = ctx.symbols →
          (sign id returnType arguments span).run other =
            (modify fun ctx => { ctx with symbols } : Analysis Unit).run other := by
        intro other hother
        rw [← hother] at hsign
        simp only [sign, StateT.run_bind, StateT.run_get, pure_bind, hsign]
      have hsigned : ctx.symbols.signed id returnType arguments = symbols := by
        simp [SymbolTable.signed, hsign, Except.toOption]
      rw [hread ctx rfl, hread ctx' halike.symbols]
      refine ⟨(), [.change fun table => table.signed id returnType arguments], ?_, ?_, ?_⟩
      · simpa [Deed.Spares] using SymbolTable.name_signed id returnType arguments
      · rw [← hsigned]
        rfl
      · rw [← hsigned, ← halike.symbols]
        rfl

/-- An item acts by steps if it has some other name. -/
theorem Item.acts_declare {item : Item} (hname : item.name.name ≠ name) :
    Acts odd nodes name item.declare := by
  have hsymbol : item.symbol.name ≠ name := by cases item <;> exact hname
  refine acts_read (fun ctx ctx' h => by simp only [h.scopes, h.placeOf]) fun ctx => ?_
  split
  · exact acts_report_return _ _
  · exact (acts_addSymbol _ hsymbol).bind fun id => (acts_define _ hname _ _).bind fun bound =>
      (acts_bindSymbol _ _).bind fun _ => acts_pure _

/-- Items act by steps if they have other names. -/
theorem Item.acts_declareAll {items : List Item} (hname : ∀ item ∈ items, item.name.name ≠ name) :
    Acts odd nodes name (Item.declareAll items) := by
  induction items with
  | nil => exact acts_pure _
  | cons item rest ih =>
      have hrest := ih fun i hi => hname i (List.mem_cons_of_mem _ hi)
      exact (Item.acts_declare (hname item (List.mem_cons_self ..))).bind fun _ =>
        hrest.bind fun _ => acts_pure _

/-- The name of an item is among the names that it declares. -/
theorem Item.name_ne {item : Item} (h : name ∉ item.names) : item.name.name ≠ name := by
  rintro rfl
  apply h
  cases item <;> exact List.mem_cons_self ..

/-- **The declaration of a script acts by steps** if it declares some other name. -/
theorem Script.acts_declare {script : Script} (hname : ∀ item ∈ script.items, name ∉ item.names) :
    Acts odd nodes name script.declare :=
  Item.acts_declareAll fun item hitem => Item.name_ne (hname item hitem)

/-- Looking for a parent acts by steps. -/
theorem ClassDecl.acts_resolveParent (decl : ClassDecl) (id : SymbolId) :
    Acts odd nodes name (decl.resolveParent id) := by
  unfold resolveParent
  split
  · exact acts_pure _
  · refine acts_read (fun ctx ctx' h => by simp only [h.symbols, h.scopes]) fun ctx => ?_
    split
    · exact acts_report_return _ _
    · split
      · exact acts_mismatch_return _ _ _
      · split
        · exact acts_mismatch_return _ _ _
        · exact acts_pure _

/-- Binding a parent acts by steps. -/
theorem ClassDecl.acts_bindParent (decl : ClassDecl) : Acts [] nodes name decl.bindParent := by
  refine (acts_symbolOf? (by simp)).bind fun symbol => ?_
  split
  · exact acts_pure _
  · refine (decl.acts_resolveParent _).bind fun parent => acts_modifySymbols fun table id => ?_
    exact SymbolTable.name_modify (fun s => by cases s <;> rfl) table _ id

/-- A member of a class or a struct is listed. -/
theorem SymbolTable.name_pushField (owner field : SymbolId) (table : SymbolTable) (id : SymbolId) :
    (table.pushField owner field).name id = table.name id :=
  name_modify (fun s => by cases s <;> rfl) table owner id

/-- A function that is listed with its class renames no symbol. -/
theorem SymbolTable.name_pushFunction (owner function : SymbolId) (table : SymbolTable)
    (id : SymbolId) : (table.pushFunction owner function).name id = table.name id :=
  name_modify (fun s => by cases s <;> rfl) table owner id

/-- Adding a field acts by steps if it has some other name. -/
theorem FieldDecl.acts_add {field : FieldDecl} (hname : field.name.name ≠ name) (ty : Ty)
    (owner : SymbolId) : Acts odd nodes name (field.add ty owner) :=
  (acts_addSymbol (.field { name := field.name.name, span := field.name.span, ty, owner })
    hname).bind fun _ => (acts_bindSymbol _ _).bind fun _ => acts_pure _

/-- A field of a struct acts by steps if it has some other name. -/
theorem FieldDecl.acts_declareInStruct {field : FieldDecl} (hname : field.name.name ≠ name)
    (owner : SymbolId) : Acts odd nodes name (field.declareInStruct owner) := by
  refine (TypeExpr.acts_resolveStorage _ _ _).bind fun ty =>
    acts_read (fun ctx ctx' h => by simp only [h.symbols, h.placeOf]) fun ctx => ?_
  split
  · exact acts_report _
  · exact (FieldDecl.acts_add hname ty owner).bind fun id =>
      acts_modifySymbols (SymbolTable.name_pushField owner id)

/-- The fields of a struct act by steps if they have other names. -/
theorem StructDecl.acts_declareFields {decl : StructDecl}
    (hname : ∀ field ∈ decl.fields, field.name.name ≠ name) :
    Acts [] nodes name decl.declareFields := by
  refine (acts_symbolOf? (by simp)).bind fun symbol => ?_
  split
  · exact acts_pure _
  · exact acts_forM fun field hfield => FieldDecl.acts_declareInStruct (hname field hfield) _

/-- A field of a class acts by steps if it has some other name. -/
theorem FieldDecl.acts_declareInClass {field : FieldDecl} (hname : field.name.name ≠ name)
    (owner : SymbolId) (scope : ScopeId) : Acts odd nodes name (field.declareInClass owner scope) :=
  (TypeExpr.acts_resolveStorage _ _ _).bind fun ty => (FieldDecl.acts_add hname ty owner).bind
    fun id => acts_defineThen _ hname _ _ (SymbolTable.name_pushField owner id)

/-- Parameters act by steps if they have other names. -/
theorem Param.acts_declareAll (scope : ScopeId) {params : List Param}
    (hname : ∀ param ∈ params, param.name.name ≠ name) :
    Acts odd nodes name (Param.declareAll scope params) := by
  induction params with
  | nil => exact acts_pure _
  | cons param rest ih =>
      have hparam := hname param (List.mem_cons_self ..)
      have hrest := ih fun p hp => hname p (List.mem_cons_of_mem _ hp)
      exact (TypeExpr.acts_resolveStorage _ _ _).bind fun ty =>
        (acts_addSymbol (.argument { name := param.name.name, span := param.name.span, ty })
          hparam).bind fun id => (acts_bindSymbol _ _).bind fun _ =>
        (acts_define _ hparam _ _).bind fun _ => hrest.bind fun _ => acts_pure _

/-- The receiver acts by steps: its name is a word of the language. -/
theorem FunctionDecl.acts_declareReceiver (decl : FunctionDecl) (scope : ScopeId)
    (owner : Option SymbolId) (hnew : IsNew name) :
    Acts odd nodes name (decl.declareReceiver scope owner) := by
  cases owner with
  | none => exact acts_pure _
  | some owner =>
      exact (acts_addSymbol (.argument ⟨selfName, decl.name.span, .pointer (.classType owner)⟩)
        hnew.self_ne).bind fun _ => (acts_define _ hnew.self_ne _ _).bind fun _ => acts_pure _

/-- A signature acts by steps if its parameters have other names. -/
theorem FunctionDecl.acts_resolveSignature {decl : FunctionDecl} (id : SymbolId)
    (scope : ScopeId) (owner : Option SymbolId) (hnew : IsNew name)
    (hname : ∀ param ∈ decl.params, param.name.name ≠ name) :
    Acts odd nodes name (decl.resolveSignature id scope owner) := by
  have hmark : ∀ declared, Acts odd nodes name (markVariadic decl.body.isVariadic declared) := by
    intro declared
    unfold markVariadic
    split
    · exact (acts_addSymbol _ hnew.mark).bind fun _ => acts_pure _
    · exact acts_pure _
  rw [resolveSignature_eq]
  exact (TypeExpr.acts_resolve _ _).bind fun _ => (decl.acts_declareReceiver scope owner hnew).bind
    fun _ => (Param.acts_declareAll scope hname).bind fun declared =>
      (hmark declared).bind fun _ => acts_sign _ _ _ _

/-- The function that makes an object acts by steps: its name cannot be the new one. -/
theorem ClassDecl.acts_installInit (decl : ClassDecl) (id : SymbolId) (scope : ScopeId)
    (hnew : IsNew name) : Acts odd nodes name (decl.installInit id scope) := by
  have hinit : initName ≠ name := hnew.init_ne
  exact (acts_addSymbol (.function { FunctionEntry.memberOf decl.name.name id initName none
    { implicit := true } with returnType := .void, resolved := true }) hinit).bind fun init =>
      acts_defineThen _ hinit _ _ (SymbolTable.name_pushFunction id init)

/-- Whether a member function takes the place of the `init` that its class has. -/
def FunctionDecl.replacesInit (method : FunctionDecl) (ctx : Context) (old : SymbolId) : Bool :=
  method.returnType.isVoid && method.params.isEmpty &&
    (ctx.symbols.function? old).any (·.traits.implicit)

/-- Binding an `init` is one step or a report. -/
theorem FunctionDecl.run_bindInit (method : FunctionDecl) (id owner : SymbolId) (scope : ScopeId)
    (classPlace : Span) (ctx : Context) :
    (method.bindInit id owner scope classPlace).run ctx =
      (match ctx.scopes.lookupLocal? scope initName with
        | some old =>
          if method.replacesInit ctx old then do
            modify fun ctx => (Deed.rebind scope initName id).apply ctx
            modifySymbols fun symbols => symbols.replaceFunction owner old id
          else
            report (.duplicate initName (((ctx.symbols.get? old).bind Symbol.span?).getD classPlace)
              method.name.span)
        | none => report (.duplicate initName classPlace method.name.span) :
          Analysis Unit).run ctx := by
  unfold bindInit
  rw [StateT.run_bind]
  simp only [StateT.run_get, pure_bind]
  cases h : ctx.scopes.lookupLocal? scope initName with
  | none => rfl
  | some old =>
      simp only [Option.bind_some, ScopeTree.rebind?_eq h]
      change (if method.replacesInit ctx old = true then _ else _ : Analysis Unit).run ctx = _
      cases method.replacesInit ctx old with
      | false => rfl
      | true => simp [Deed.apply, ScopeTree.rebind?_eq h]

/-- A function for making objects acts by steps. -/
theorem FunctionDecl.acts_bindInit (method : FunctionDecl) (id owner : SymbolId) (scope : ScopeId)
    (classPlace : Span) : Acts odd nodes name (method.bindInit id owner scope classPlace) := by
  intro ctx ctx' halike
  have hreplaces : method.replacesInit ctx' = method.replacesInit ctx := by
    funext old
    simp only [replacesInit, halike.symbols]
  rw [run_bindInit, run_bindInit, hreplaces, halike.scopes, halike.symbols]
  cases ctx.scopes.lookupLocal? scope initName with
  | none => exact acts_report _ ctx ctx' halike
  | some old =>
      dsimp only
      split
      · refine ((acts_step (.rebind scope initName id) trivial).bind fun _ =>
          acts_modifySymbols fun table other => ?_) ctx ctx' halike
        exact SymbolTable.name_modify (fun s => by cases s <;> rfl) table owner other
      · exact acts_report _ ctx ctx' halike
/-- A function of a class acts by steps if it declares other names. -/
theorem FunctionDecl.acts_declareInClass {method : FunctionDecl} (decl : ClassDecl)
    (owner : SymbolId) (classScope : ScopeId) (hnew : IsNew name) (hname : name ∉ method.names) :
    Acts odd nodes name (method.declareInClass decl owner classScope) := by
  have hmethod : method.name.name ≠ name := method.name_ne hname
  refine (acts_addSymbol (.function (.memberOf decl.name.name owner method.name.name
    (some method.name.span) {})) hmethod).bind fun id => (acts_bindSymbol _ _).bind fun _ =>
    (acts_scopeFor _ _ _).bind fun scope =>
    (FunctionDecl.acts_resolveSignature id scope _ hnew (method.param_ne hname)).bind fun _ => ?_
  split
  · exact method.acts_bindInit _ _ _ _
  · exact acts_defineThen _ hmethod _ _ (SymbolTable.name_pushFunction owner id)

/-- The members of a class act by steps if they declare other names. -/
theorem ClassDecl.acts_declareMembers {decl : ClassDecl} (hnew : IsNew name)
    (hname : ∀ member ∈ decl.members, name ∉ member.names) :
    Acts [] nodes name decl.declareMembers := by
  refine (acts_symbolOf? (by simp)).bind fun symbol => ?_
  split
  · exact acts_pure _
  · next id =>
      refine (acts_scopeFor _ _ _).bind fun scope => (decl.acts_installInit id scope hnew).bind
        fun _ => acts_forM fun member hmember => ?_
      have hmember := hname member hmember
      cases member with
      | field f =>
          rw [ClassMember.names, List.mem_singleton] at hmember
          exact FieldDecl.acts_declareInClass (fun h => hmember h.symm) id scope
      | method f => exact FunctionDecl.acts_declareInClass decl id scope hnew hmember

/-- A function outside of classes acts by steps if it declares other names. -/
theorem FunctionDecl.acts_declareFree {decl : FunctionDecl} (hnew : IsNew name)
    (hname : name ∉ decl.names) : Acts [] nodes name decl.declareFree := by
  refine (acts_symbolOf? (by simp)).bind fun symbol => ?_
  split
  · exact acts_pure _
  · exact (acts_scopeFor _ _ _).bind fun scope =>
      FunctionDecl.acts_resolveSignature _ scope none hnew (decl.param_ne hname)

/-- Looking for a struct in itself acts by steps. -/
theorem Item.acts_checkContainment (item : Item) : Acts [] nodes name item.checkContainment := by
  have hcheck : ∀ (ident : Ident) (node : NodeId),
      Acts [] nodes name (ident.checkContainment node) := by
    intro ident node
    refine acts_read (fun ctx ctx' h => ?_) fun ctx => ?_
    · simp only [h.symbol? node (by simp), h.symbols]
    · split
      · exact acts_pure _
      · split
        · exact acts_mismatch _ _
        · exact acts_pure _
  cases item with
  | classDecl decl => exact hcheck decl.name decl.id
  | structDecl decl => exact hcheck decl.name decl.id
  | function decl => exact acts_pure _

/-- The names of the generated code are the same in contexts that are alike. -/
theorem LinkName.ofScript_eq {ctx ctx' : Context} (h : Context.Alike [] ctx ctx')
    (script : Script) :
    LinkName.ofScript ctx' script = LinkName.ofScript ctx script := by
  have hitem : LinkName.ofItem ctx' = LinkName.ofItem ctx := by
    funext item
    cases item with
    | classDecl decl => simp only [ofItem, ofClass, h.symbol? decl.id (by simp), h.symbols]
    | structDecl decl => rfl
    | function decl => rfl
  simp only [ofScript, ofClass, hitem, h.symbols]

/-- **Declarations give no types.** -/
theorem Script.acts_resolveDeclarations {script : Script} (hnew : IsNew name)
    (hname : ∀ item ∈ script.items, name ∉ item.names) :
    Acts [] [] name script.resolveDeclarations := by
  refine (acts_forM fun decl _ => decl.acts_bindParent).bind fun _ =>
    (acts_forM fun decl hdecl => ?_).bind fun _ => (acts_forM fun decl hdecl => ?_).bind fun _ =>
    (acts_forM fun decl hdecl => ?_).bind fun _ =>
    (acts_forM fun item _ => item.acts_checkContainment).bind fun _ =>
    acts_read (fun ctx ctx' h => by rw [LinkName.ofScript_eq h]) fun ctx =>
    acts_forM fun error _ => acts_report error
  · have hdecl := hname _ (Script.mem_structs.1 hdecl)
    refine StructDecl.acts_declareFields ?_
    rintro field hfield rfl
    exact hdecl (List.mem_cons_of_mem _ (List.mem_map_of_mem hfield))
  · have hdecl := hname _ (Script.mem_classes.1 hdecl)
    refine ClassDecl.acts_declareMembers hnew fun member hmember hmem => ?_
    exact hdecl (List.mem_cons_of_mem _ (List.mem_flatMap.2 ⟨member, hmember, hmem⟩))
  · obtain ⟨item, hitem, hsome⟩ := List.mem_filterMap.1 hdecl
    cases item <;> simp only [reduceCtorEq, Option.some.injEq] at hsome
    subst hsome
    exact FunctionDecl.acts_declareFree hnew (hname _ hitem)

/-! ## Resolution -/

/-- The functions of an item declare names of the item. -/
theorem Item.names_functions {item : Item} (h : name ∉ item.names) :
    ∀ decl ∈ item.functions, name ∉ decl.names := by
  intro decl hdecl hmem
  cases item with
  | function f =>
      rw [List.mem_singleton.1 hdecl] at hmem
      exact h hmem
  | structDecl s => cases hdecl
  | classDecl c =>
      obtain ⟨member, hmember, hsome⟩ := List.mem_filterMap.1 hdecl
      cases member <;> simp only [reduceCtorEq, Option.some.injEq] at hsome
      subst hsome
      exact h (List.mem_cons_of_mem _ (List.mem_flatMap.2 ⟨_, hmember, hmem⟩))

/-- Bodies are resolved and counted, and scopes are counted. -/
theorem Script.acts_resolveBodies {script : Script}
    (hname : ∀ item ∈ script.items, name ∉ item.names) (before : Nat) :
    Acts [] (FunctionDecl.bodyNodes (script.items.flatMap Item.functions)) name (do
      let bodies ← FunctionDecl.resolveBodies (script.items.flatMap Item.functions)
      let after := (← get).scopes.size
      return (⟨bodies, after - before⟩ : Resolved)) := by
  have hbodies : Acts [] (FunctionDecl.bodyNodes (script.items.flatMap Item.functions)) name
      (FunctionDecl.resolveBodies (script.items.flatMap Item.functions)) := by
    refine FunctionDecl.acts_resolveBodies (fun decl hdecl => ?_) (by simp)
    obtain ⟨item, hitem, hof⟩ := List.mem_flatMap.1 hdecl
    exact Item.names_functions (hname item hitem) decl hof
  exact hbodies.bind fun _ => acts_read (fun ctx ctx' h => by rw [h.scopes]) fun _ => acts_pure _

/-- **Resolution gives types to the nodes of bodies.** -/
theorem Script.acts_resolve {script : Script} (hnew : IsNew name)
    (hname : ∀ item ∈ script.items, name ∉ item.names) :
    Acts [] (FunctionDecl.bodyNodes (script.items.flatMap Item.functions)) name script.resolve := by
  have hdeclarations := (Script.acts_resolveDeclarations hnew hname).mono
    (List.nil_subset (FunctionDecl.bodyNodes (script.items.flatMap Item.functions)))
  refine acts_read (fun ctx ctx' h => by rw [h.scopes]) fun ctx => ?_
  exact hdeclarations.bind fun _ => Script.acts_resolveBodies hname _

end ClassLang
