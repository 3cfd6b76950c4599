import ClassLang.Proofs.Accepted

/-!
# Receivers in the tree and casts in the code

A call of a function of a class takes a receiver.  The class of the receiver is known from the
tree (`Expr.receivers`): it is the class of the function that the call stands in, or the class
that the expression in front of the dot points to.  Where it is not the class that declares the
callee, the code of the call has a cast, and there are no other casts (`Lowers.upcasts_eq`,
`LowersStmt.upcasts_eq`).
-/

namespace ClassLang

/-! ## Receivers in the tree -/

/-- The class that declares the function that a call is bound to. -/
def Context.calleeOwner (ctx : Context) (call : NodeId) : Option SymbolId :=
  ((ctx.bindings.symbol? call).bind ctx.symbols.function?).bind FunctionEntry.owner

/-- The owner of a callee is that of its entry. -/
theorem Context.calleeOwner_eq {ctx : Context} {call : NodeId} {function : SymbolId}
    {entry : FunctionEntry} (hsymbol : ctx.bindings.symbol? call = some function)
    (hentry : ctx.symbols.function? function = some entry) :
    ctx.calleeOwner call = entry.owner := by
  simp [calleeOwner, hsymbol, hentry]

/-- The class that an expression points to. -/
def Context.pointedClass (ctx : Context) (e : Expr) : Option SymbolId :=
  (ctx.bindings.type? e.id).bind Ty.classBehindPointer?

/-- A receiver, as its own class and the class that declares the callee.  A function outside
classes takes none. -/
def receiverOf : Option SymbolId → Option SymbolId → List (SymbolId × SymbolId)
  | some actual, some owner => [(actual, owner)]
  | _, _ => []

mutual

/-- The receivers of the calls in an expression, in the order of evaluation. -/
def Expr.receivers (site : Site) : Expr → List (SymbolId × SymbolId)
  | .literal _ _ _ | .name _ _ => []
  | .binary _ _ left right _ => left.receivers site ++ right.receivers site
  | .assign _ target value _ => value.receivers site ++ target.receivers site
  | .call id _ args _ =>
    receiverOf site.owner (site.ctx.calleeOwner id) ++ Expr.receiversOfAll site args
  | .methodCall id object _ args _ =>
    object.receivers site ++ receiverOf (site.ctx.pointedClass object) (site.ctx.calleeOwner id)
      ++ Expr.receiversOfAll site args
  | .member _ object _ _ => object.receivers site

/-- The receivers of the calls in expressions. -/
def Expr.receiversOfAll (site : Site) : List Expr → List (SymbolId × SymbolId)
  | [] => []
  | e :: rest => e.receivers site ++ Expr.receiversOfAll site rest

end

/-- The receivers of the calls in an expression that may be missing. -/
def Expr.receiversOfOption (site : Site) : Option Expr → List (SymbolId × SymbolId)
  | some e => e.receivers site
  | none => []

mutual

/-- The receivers of the calls in a statement, in the order of the code. -/
def Stmt.receivers (site : Site) : Stmt → List (SymbolId × SymbolId)
  | .block _ stmts _ => Stmt.receiversOfAll site stmts
  | .varDecl _ _ _ value _ | .ret value _ => Expr.receiversOfOption site value
  | .ifThen condition positive _ => condition.receivers site ++ positive.receivers site
  | .ifElse condition positive negative _ =>
    condition.receivers site ++ (positive.receivers site ++ negative.receivers site)
  | .expr e _ => e.receivers site

/-- The receivers of the calls in statements, as far as control gets to them. -/
def Stmt.receiversOfAll (site : Site) : List Stmt → List (SymbolId × SymbolId)
  | [] => []
  | s :: rest => s.receivers site ++ if s.returns then [] else Stmt.receiversOfAll site rest

end

/-- The receivers of the calls that belong to a task. -/
def Task.receivers (site : Site) : Task → List (SymbolId × SymbolId)
  | .value e | .address e | .base e => e.receivers site
  | .receiver none owner => receiverOf site.owner owner
  | .receiver (some object) owner =>
    object.receivers site ++ receiverOf (site.ctx.pointedClass object) owner
  | .values es => Expr.receiversOfAll site es

/-- The same for statements. -/
def StmtTask.receivers (site : Site) : StmtTask → List (SymbolId × SymbolId)
  | .one s => s.receivers site
  | .all stmts => Stmt.receiversOfAll site stmts

/-- The receivers of a call are those of its own and of its arguments. -/
theorem Expr.IsCall.receivers_eq {site : Site} {e : Expr} {id : NodeId} {callee : Ident}
    {object : Option Expr} {args : List Expr} (h : e.IsCall id callee object args) :
    e.receivers site = (Task.receiver object (site.ctx.calleeOwner id)).receivers site ++
      (Task.values args).receivers site := by
  cases h <;> rfl

/-! ## Casts in the code -/

/-- The types that a cast leads from and to. -/
def Instruction.upcast? : Instruction → Option (StorageType × StorageType)
  | .cast dest value => some (value.ty, dest.ty)
  | _ => none

/-- What is done to a receiver: nothing if it is an object of the declaring class, and else a cast
from its class to that class. -/
def SymbolTable.upcast? (table : SymbolTable) (receiver : SymbolId × SymbolId) :
    Option (StorageType × StorageType) :=
  if receiver.1 = receiver.2 then none
  else some (table.receiverType receiver.1, table.receiverType receiver.2)

/-- The casts of a region, in textual order. -/
def Region.upcasts (r : Region) : List (StorageType × StorageType) :=
  r.code.filterMap Instruction.upcast?

instance : Region.PicksPlain Instruction.upcast? where
  eq_none i hi := by cases i <;> first | rfl | exact absurd trivial hi

namespace Region

section

variable (first second left right positive negative : Region) (start rest stop : Label)
  (a b dest : Operand) (onTrue onFalse : Label)

@[simp] theorem upcasts_empty : Region.empty.upcasts = [] := rfl

@[simp] theorem upcasts_step (i : Instruction) : (Region.step i).upcasts = i.upcast?.toList :=
  picked_step _ i

@[simp] theorem upcasts_seq : (first.seq second).upcasts = first.upcasts ++ second.upcasts :=
  picked_seq _ first second

@[simp] theorem upcasts_shortCircuit :
    (Region.shortCircuit start rest stop left a right b dest).upcasts =
      left.upcasts ++ right.upcasts :=
  picked_shortCircuit _ left right start rest stop a b dest

@[simp] theorem upcasts_ifThen :
    (Region.ifThen a onTrue onFalse positive).upcasts = positive.upcasts :=
  picked_ifThen _ positive onTrue onFalse a

@[simp] theorem upcasts_ifElse :
    (Region.ifElse a onTrue onFalse stop positive negative).upcasts =
      positive.upcasts ++ negative.upcasts :=
  picked_ifElse _ positive negative stop onTrue onFalse a

end

end Region

section

variable {site : Site} {params : List (String × StorageType)} {own : List SymbolId}
  {ret : StorageType} {vars vars' : List SymbolId} {p p' : Point} {r : Region}

/-- A cast to an ancestor is the only cast of its code, and there is none to the class
itself. -/
theorem Upcasts.upcasts_eq {actual owner : SymbolId} {receiver a : Operand}
    (h : Upcasts site actual owner receiver p a r p')
    (hty : receiver.ty = site.symbols.receiverType actual) :
    r.upcasts = [(actual, owner)].filterMap site.symbols.upcast? := by
  cases h with
  | same heq => simp [heq, SymbolTable.upcast?]
  | cast hne => simp [hne, SymbolTable.upcast?, Instruction.upcast?, hty]

/-- The instruction of an operator is no cast. -/
theorem OperatorCode.upcast? {id : NodeId} {a b dest : Operand} {op : BinaryOp}
    {t : StorageType} {instruction : Operand → Instruction}
    (h : OperatorCode site id a b op t instruction) : (instruction dest).upcast? = none := by
  cases h <;> rfl

/-- **The code of an expression casts its receivers**, and nothing else. -/
theorem Lowers.upcasts_eq {task : Task} {ops : List Operand}
    (h : Lowers site params own vars task p ops r p') :
    r.upcasts = (task.receivers site).filterMap site.symbols.upcast? := by
  induction h with
  | bool | int | string | argument | stored | ownField | nil =>
      simp [Task.receivers, Expr.receivers, Expr.receiversOfAll, Instruction.upcast?]
  | free => cases howner : site.owner <;> simp [Task.receivers, receiverOf]
  | load _ _ ih =>
      rw [Region.upcasts_seq, ih]
      exact List.append_nil _
  | or _ _ _ _ ih₁ ih₂ => simp [Task.receivers, Expr.receivers, ih₁, ih₂]
  | operator _ _ hcode ih₁ ih₂ =>
      simp [Task.receivers, Expr.receivers, ih₁, ih₂, hcode.upcast?]
  | assign _ _ _ ih₁ ih₂ => simp [Task.receivers, Expr.receivers, ih₁, ih₂, Instruction.upcast?]
  | call hcall hsymbol hentry _ _ _ _ _ ih₁ ih₂ =>
      rw [Task.receivers, hcall.receivers_eq, Context.calleeOwner_eq hsymbol hentry]
      simp [ih₁, ih₂, Instruction.upcast?]
  | member _ _ _ _ ih => simpa [Task.receivers, Expr.receivers, Instruction.upcast?] using ih
  | basePointer _ _ _ ih => exact ih
  | basePlace _ _ _ ih => exact ih
  | self howner _ _ hcast =>
      rw [hcast.upcasts_eq rfl, Task.receivers, howner]
      rfl
  | @object object actual owner p p₁ p₂ a b r₁ r₂ htype _ hty _ hcast ih =>
      have hclass : site.ctx.pointedClass object = some actual := by
        rw [Context.pointedClass, htype]
        rfl
      rw [Region.upcasts_seq, ih, hcast.upcasts_eq hty, Task.receivers, Task.receivers, hclass,
        List.filterMap_append]
      rfl
  | cons _ _ ih₁ ih₂ => simp [Task.receivers, Expr.receiversOfAll, ih₁, ih₂]

/-- Control gets to the end of the code of statements unless they return. -/
theorem LowersStmt.leaves_eq {task : StmtTask}
    (h : LowersStmt site params own ret vars task p r p' vars') : r.leaves = task.returns := by
  induction h with
  | nil => rfl
  | cons _ hgoesOn _ ih₁ ih₂ =>
      have hreturns := ih₁.symm.trans hgoesOn
      rw [StmtTask.returns] at hreturns
      simp [Region.leaves, ih₂, StmtTask.returns, Stmt.anyReturns, hreturns]
  | last _ _ hleaves ih =>
      have hreturns := ih.symm.trans hleaves
      rw [StmtTask.returns] at hreturns
      simp [hleaves, StmtTask.returns, Stmt.anyReturns, hreturns]
  | block _ _ _ ih => exact ih
  | declare | declareWith | ifThen | ret | retValue => rfl
  | ifElse _ _ _ _ _ ih₁ ih₂ =>
      rw [Region.leaves, Region.leaves, ih₁, ih₂, Bool.and_comm]
      rfl
  | expr _ hvalue => exact hvalue.through.goesOn

/-- A statement returns if control does not get behind its code. -/
theorem LowersStmt.returns_eq {s : Stmt}
    (h : LowersStmt site params own ret vars (.one s) p r p' vars') : s.returns = r.leaves :=
  h.leaves_eq.symm

/-- **The code of statements casts their receivers**, and nothing else. -/
theorem LowersStmt.upcasts_eq {task : StmtTask}
    (h : LowersStmt site params own ret vars task p r p' vars') :
    r.upcasts = (task.receivers site).filterMap site.symbols.upcast? := by
  induction h with
  | nil => rfl
  | cons hfirst hgoesOn _ ih₁ ih₂ =>
      have hreturns := hfirst.returns_eq.trans hgoesOn
      simp [StmtTask.receivers, Stmt.receiversOfAll, hreturns, ih₁, ih₂]
  | last _ hfirst hleaves ih =>
      have hreturns := hfirst.returns_eq.trans hleaves
      simp [StmtTask.receivers, Stmt.receiversOfAll, hreturns, ih]
  | block _ _ _ ih => exact ih
  | declare => rfl
  | declareWith _ _ _ _ _ _ hvalue =>
      simp [StmtTask.receivers, Stmt.receivers, Expr.receiversOfOption, hvalue.upcasts_eq,
        Task.receivers, Instruction.upcast?, Point.allocation]
  | ifThen _ hcondition _ _ ih =>
      simp [StmtTask.receivers, Stmt.receivers, hcondition.upcasts_eq, Task.receivers, ih]
  | ifElse _ hcondition _ _ _ ih₁ ih₂ =>
      simp [StmtTask.receivers, Stmt.receivers, hcondition.upcasts_eq, Task.receivers, ih₁, ih₂]
  | ret => rfl
  | retValue _ hvalue =>
      simp [StmtTask.receivers, Stmt.receivers, Expr.receiversOfOption, hvalue.upcasts_eq,
        Task.receivers, Instruction.upcast?]
  | expr _ hvalue => exact hvalue.upcasts_eq

/-- Storage for arguments is filled without casts. -/
theorem BindsArguments.upcasts_eq {arguments : List SymbolId}
    (h : BindsArguments site params vars arguments p r p' vars') : r.upcasts = [] := by
  induction h with
  | nil => rfl
  | pointer _ _ ih => exact ih
  | value _ _ _ _ _ ih => simp [Point.allocation, Instruction.upcast?, ih]

/-- **The casts in the code of a function** are those of the receivers in its body. -/
theorem LowersBody.upcasts_eq {arguments : List SymbolId} {block : Block}
    (h : LowersBody site params ret arguments (some block) r) :
    r.upcasts = (Stmt.receiversOfAll site block.stmts).filterMap site.symbols.upcast? := by
  cases h with
  | leaves harguments hstmts =>
      rw [Region.upcasts_seq, harguments.upcasts_eq, hstmts.upcasts_eq]
      rfl
  | goesOn harguments hstmts =>
      rw [Region.upcasts_seq, Region.upcasts_seq, harguments.upcasts_eq, hstmts.upcasts_eq]
      exact List.append_nil _

end

end ClassLang
