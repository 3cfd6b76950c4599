import ClassLang.Lower.Stmt
import ClassLang.Proofs.Lower.Point
import ClassLang.Proofs.Symbol.Records
import ClassLang.Proofs.Syntax.Nodes

/-!
# Lowering as rules

The lowering programs, written as inference rules: which operands, which region and which
next point belong to an expression or a statement at a point.  A rule also says what the
earlier stages promise at this place: that a node is bound, that a field has its index, and
that operands have the types their instruction wants.  So everything that is true of
generated code is proved by induction on these rules, and the programs themselves are
opened only once, to show that they follow the rules.
-/

namespace ClassLang

/-- The arguments that a signature takes: its parameters in order, and more only if it is
variadic. -/
structure Signature.Takes (signature : Signature) (types : List StorageType) : Prop where
  params : signature.params <+: types
  count : signature.variadic = false → types.length = signature.params.length

/-- The instruction of an operator that evaluates both sides, and the type of its value. -/
inductive OperatorCode (site : Site) (id : NodeId) (left right : Operand) :
    BinaryOp → StorageType → (Operand → Instruction) → Prop
  | and (hleft : left.ty = .bool) (hright : right.ty = .bool) :
      OperatorCode site id left right .and .bool fun dest => .arith .bitAnd dest left right
  | arith (op : ArithOp) (q : Primitive)
      (htype : site.ctx.bindings.type? id = some (.primitive q)) (hinteger : q.isInteger = true)
      (hleft : left.ty = .int q.bits q.isSigned) (hright : right.ty = .int q.bits q.isSigned) :
      OperatorCode site id left right (.arith op) (.int q.bits q.isSigned)
        fun dest => .arith op dest left right
  | compare (op : CompareOp) (bits : Nat) (signed : Bool)
      (hleft : left.ty = .int bits signed) (hright : right.ty = .int bits signed) :
      OperatorCode site id left right (.compare op) .bool fun dest => .compare op dest left right

/-- A receiver of class `actual`, as an object of the class `owner`. -/
inductive Upcasts (site : Site) (actual owner : SymbolId) (receiver : Operand) (p : Point) :
    Operand → Region → Point → Prop
  | same (h : actual = owner) : Upcasts site actual owner receiver p receiver .empty p
  | cast (h : actual ≠ owner) :
      Upcasts site actual owner receiver p (p.fresh (site.symbols.receiverType owner))
        (.step (.cast (p.fresh (site.symbols.receiverType owner)) receiver)) p.next

/-- The rules for expressions.  `params` are the parameters of the function with their types,
`own` its declared arguments and `vars` the variables with storage that can be seen. -/
inductive Lowers (site : Site) (params : List (String × StorageType))
    (own vars : List SymbolId) : Task → Point → List Operand → Region → Point → Prop
  | bool (id : NodeId) (b : Bool) (span : Span) (p : Point) :
      Lowers site params own vars (.value (.literal id (.bool b) span)) p [.ofBool b] .empty p
  | int {id : NodeId} {q : Primitive} {n : Nat} (span : Span) (p : Point)
      (htype : site.ctx.bindings.type? id = some (.primitive q))
      (hinteger : q.isInteger = true) (hfits : q.fits n = true) :
      Lowers site params own vars (.value (.literal id (.int n) span)) p
        [.const n (.int q.bits q.isSigned)] .empty p
  | string {id : NodeId} {text : String} {symbol : SymbolId} {entry : LiteralEntry}
      (span : Span) (p : Point)
      (hsymbol : site.ctx.bindings.symbol? id = some symbol)
      (hentry : site.symbols.literal? symbol = some entry) (htext : entry.text = text)
      (hvar : symbol ∉ vars) :
      Lowers site params own vars (.value (.literal id (.string text) span)) p
        [p.fresh (.pointer .int8)]
        (.step (.elementPtr (p.fresh (.pointer .int8))
          (.global entry.globalName
            (.pointer (.array .int8 (Text.byteLength text.toList + 1)))) [0, 0]))
        (p.next.record symbol (p.fresh (.pointer .int8)))
  | argument {id : NodeId} {symbol : SymbolId} {entry : VariableEntry} {t : StorageType}
      (ident : Ident) (p : Point)
      (hsymbol : site.ctx.bindings.symbol? id = some symbol)
      (hentry : site.symbols.get? symbol = some (.argument entry))
      (hpointer : entry.ty.isPointer = true)
      (hty : site.symbols.storageType entry.ty = .ok t) (hparam : (entry.name, t) ∈ params)
      (hown : symbol ∈ own ∨ entry.name = selfName ∧ site.owner.isSome = true) :
      Lowers site params own vars (.value (.name id ident)) p [.named entry.name t] .empty p
  | load {e : Expr} {p p₁ : Point} {address : Operand} {r : Region} {t : StorageType}
      (haddress : Lowers site params own vars (.address e) p [address] r p₁)
      (hty : address.ty = .pointer t) :
      Lowers site params own vars (.value e) p [p₁.fresh t]
        (r.seq (.step (.load (p₁.fresh t) address))) p₁.next
  | or {id : NodeId} {left right : Expr} {span : Span} {p p₁ p₂ : Point} {a b : Operand}
      {r₁ r₂ : Region}
      (hleft : Lowers site params own vars (.value left) ((p.issue 3).enter p.labels) [a] r₁ p₁)
      (hright : Lowers site params own vars (.value right) (p₁.enter (p.labels + 1)) [b] r₂ p₂)
      (ha : a.ty = .bool) (hb : b.ty = .bool) :
      Lowers site params own vars (.value (.binary id .or left right span)) p [p₂.fresh .bool]
        (.shortCircuit p.labels (p.labels + 1) (p.labels + 2) r₁ a r₂ b (p₂.fresh .bool))
        (p₂.enter (p.labels + 2)).next
  | operator {id : NodeId} {op : BinaryOp} {left right : Expr} {span : Span}
      {p p₁ p₂ : Point} {a b : Operand} {r₁ r₂ : Region} {t : StorageType}
      {instruction : Operand → Instruction}
      (hleft : Lowers site params own vars (.value left) p [a] r₁ p₁)
      (hright : Lowers site params own vars (.value right) p₁ [b] r₂ p₂)
      (hcode : OperatorCode site id a b op t instruction) :
      Lowers site params own vars (.value (.binary id op left right span)) p [p₂.fresh t]
        (r₁.seq (r₂.seq (.step (instruction (p₂.fresh t))))) p₂.next
  | assign {id : NodeId} {target value : Expr} {span : Span} {p p₁ p₂ : Point}
      {a address : Operand} {r₁ r₂ : Region}
      (hvalue : Lowers site params own vars (.value value) p [a] r₁ p₁)
      (haddress : Lowers site params own vars (.address target) p₁ [address] r₂ p₂)
      (hty : address.ty = .pointer a.ty) :
      Lowers site params own vars (.value (.assign id target value span)) p []
        (r₁.seq (r₂.seq (.step (.store a address)))) p₂
  | call {e : Expr} {id : NodeId} {callee : Ident} {object : Option Expr} {args : List Expr}
      {function : SymbolId} {entry : FunctionEntry} {signature : Signature}
      {names : List String} {p p₁ p₂ : Point} {self values : List Operand} {r₁ r₂ : Region}
      (hcall : e.IsCall id callee object args)
      (hsymbol : site.ctx.bindings.symbol? id = some function)
      (hentry : site.symbols.function? function = some entry)
      (hsignature : site.symbols.signature function = .ok (signature, names))
      (hself : Lowers site params own vars (.receiver object entry.owner) p self r₁ p₁)
      (hvalues : Lowers site params own vars (.values args) p₁ values r₂ p₂)
      (htakes : signature.Takes ((self ++ values).map Operand.ty))
      (hcallable : site.symbols.Callable function) :
      Lowers site params own vars (.value e) p (p₂.result signature.returnType).toList
        (r₁.seq (r₂.seq (.step (.call (p₂.result signature.returnType) entry.linkName
          signature (self ++ values))))) (p₂.afterResult signature.returnType)
  | stored {id : NodeId} {symbol : SymbolId} {entry : VariableEntry} {n : Nat}
      {t : StorageType} (ident : Ident) {p : Point}
      (hsymbol : site.ctx.bindings.symbol? id = some symbol)
      (hentry : site.symbols.storedVariable? symbol = some entry)
      (hstored : ¬ site.symbols.PointerArgument symbol) (hvar : symbol ∈ vars)
      (hcurrent : p.addresses.current symbol site.symbols = .ok (.temp n (.pointer t)))
      (hty : site.symbols.storageType entry.ty = .ok t) :
      Lowers site params own vars (.address (.name id ident)) p [.temp n (.pointer t)] .empty p
  | ownField {id : NodeId} {owner field : SymbolId} {index : Nat} {t : StorageType}
      (ident : Ident) (p : Point)
      (hsymbol : site.ctx.bindings.symbol? id = some field)
      (howner : site.owner = some owner)
      (hself : (selfName, site.symbols.receiverType owner) ∈ params)
      (hfield : site.symbols.FieldAt owner field index t) :
      Lowers site params own vars (.address (.name id ident)) p [p.fresh (.pointer t)]
        (.step (.elementPtr (p.fresh (.pointer t))
          (.named selfName (site.symbols.receiverType owner)) [0, index])) p.next
  | member {id : NodeId} {object : Expr} {ident : Ident} {span : Span}
      {record field : SymbolId} {index : Nat} {t : StorageType} {p p₁ : Point}
      {base : Operand} {r : Region}
      (hsymbol : site.ctx.bindings.symbol? id = some field)
      (hbase : Lowers site params own vars (.base object) p [base] r p₁)
      (hty : base.ty = site.symbols.receiverType record)
      (hfield : site.symbols.FieldAt record field index t) :
      Lowers site params own vars (.address (.member id object ident span)) p
        [p₁.fresh (.pointer t)]
        (r.seq (.step (.elementPtr (p₁.fresh (.pointer t)) base [0, index]))) p₁.next
  | basePointer {object : Expr} {ty : Ty} {p p₁ : Point} {base : Operand} {r : Region}
      (htype : site.ctx.bindings.type? object.id = some ty) (hpointer : ty.isPointer = true)
      (hvalue : Lowers site params own vars (.value object) p [base] r p₁) :
      Lowers site params own vars (.base object) p [base] r p₁
  | basePlace {object : Expr} {ty : Ty} {p p₁ : Point} {base : Operand} {r : Region}
      (htype : site.ctx.bindings.type? object.id = some ty) (hplace : ty.isPointer = false)
      (haddress : Lowers site params own vars (.address object) p [base] r p₁) :
      Lowers site params own vars (.base object) p [base] r p₁
  | free (p : Point) : Lowers site params own vars (.receiver none none) p [] .empty p
  | self {actual owner : SymbolId} {p p₁ : Point} {a : Operand} {r : Region}
      (howner : site.owner = some actual)
      (hself : (selfName, site.symbols.receiverType actual) ∈ params)
      (hinherits : site.symbols.Inherits actual owner)
      (hcast : Upcasts site actual owner
        (.named selfName (site.symbols.receiverType actual)) p a r p₁) :
      Lowers site params own vars (.receiver none (some owner)) p [a] r p₁
  | object {object : Expr} {actual owner : SymbolId} {p p₁ p₂ : Point} {a b : Operand}
      {r₁ r₂ : Region}
      (htype : site.ctx.bindings.type? object.id = some (.pointer (.classType actual)))
      (hvalue : Lowers site params own vars (.value object) p [a] r₁ p₁)
      (hty : a.ty = site.symbols.receiverType actual)
      (hinherits : site.symbols.Inherits actual owner)
      (hcast : Upcasts site actual owner a p₁ b r₂ p₂) :
      Lowers site params own vars (.receiver (some object) (some owner)) p [b] (r₁.seq r₂) p₂
  | nil (p : Point) : Lowers site params own vars (.values []) p [] .empty p
  | cons {e : Expr} {rest : List Expr} {p p₁ p₂ : Point} {a : Operand}
      {values : List Operand} {r₁ r₂ : Region}
      (hvalue : Lowers site params own vars (.value e) p [a] r₁ p₁)
      (hvalues : Lowers site params own vars (.values rest) p₁ values r₂ p₂) :
      Lowers site params own vars (.values (e :: rest)) p (a :: values) (r₁.seq r₂) p₂

/-- The point behind the storage of a variable. -/
def Point.allocated (p : Point) (symbol : SymbolId) (t : StorageType) : Point :=
  p.next.record symbol (p.fresh (.pointer t))

/-- The instruction that creates the storage of a variable. -/
def Point.allocation (p : Point) (t : StorageType) : Instruction :=
  .alloca (p.fresh (.pointer t)) t 1

section

variable (p : Point) (symbol : SymbolId) (t : StorageType)

/-- An allocation takes one temporary. -/
@[simp] theorem Point.temps_allocated : (p.allocated symbol t).temps = p.temps + 1 := rfl

/-- An allocation takes no label. -/
@[simp] theorem Point.labels_allocated : (p.allocated symbol t).labels = p.labels := rfl

/-- An allocation stays in its block. -/
@[simp] theorem Point.label_allocated : (p.allocated symbol t).label = p.label := rfl

end

/-- A variable gets storage at a point: the new place is its address, and no other variable
that can be seen has moved. -/
structure Allocates (site : Site) (vars : List SymbolId) (symbol : SymbolId)
    (t : StorageType) (p : Point) : Prop where
  current : (p.allocated symbol t).addresses.current symbol site.symbols =
    .ok (p.fresh (.pointer t))
  others : ∀ other ∈ vars, (p.allocated symbol t).addresses.current other site.symbols =
    p.addresses.current other site.symbols
  /-- Literals are recorded as well, but they are no variables. -/
  literal? : site.symbols.literal? symbol = none

/-- The point behind a conditional statement with two sides. -/
def Point.meet (p : Point) (stop : Label) (positive negative : Region) : Point :=
  if positive.leaves && negative.leaves then p else p.enter stop

section

variable (p : Point) (stop : Label) (positive negative : Region)

/-- Where two sides meet, no temporary is taken. -/
@[simp] theorem Point.temps_meet : (p.meet stop positive negative).temps = p.temps := by
  unfold meet
  split <;> rfl

/-- Where two sides meet, no label is taken. -/
@[simp] theorem Point.labels_meet : (p.meet stop positive negative).labels = p.labels := by
  unfold meet
  split <;> rfl

/-- Where two sides meet, nothing gets an address. -/
@[simp] theorem Point.addresses_meet :
    (p.meet stop positive negative).addresses = p.addresses := by
  unfold meet
  split <;> rfl

end

/-- The rules for statements of a function that gives back a value of type `ret`.  The last
argument are the variables that can be seen behind the statement. -/
inductive LowersStmt (site : Site) (params : List (String × StorageType))
    (own : List SymbolId) (ret : StorageType) :
    List SymbolId → StmtTask → Point → Region → Point → List SymbolId → Prop
  | nil (vars : List SymbolId) (p : Point) :
      LowersStmt site params own ret vars (.all []) p .empty p vars
  | cons {vars vars₁ vars₂ : List SymbolId} {s : Stmt} {rest : List Stmt} {p p₁ p₂ : Point}
      {r₁ r₂ : Region}
      (hfirst : LowersStmt site params own ret vars (.one s) p r₁ p₁ vars₁)
      (hgoesOn : r₁.leaves = false)
      (hrest : LowersStmt site params own ret vars₁ (.all rest) p₁ r₂ p₂ vars₂) :
      LowersStmt site params own ret vars (.all (s :: rest)) p (r₁.seq r₂) p₂ vars₂
  | last {vars vars₁ : List SymbolId} {s : Stmt} (rest : List Stmt) {p p₁ : Point} {r : Region}
      (hfirst : LowersStmt site params own ret vars (.one s) p r p₁ vars₁)
      (hleaves : r.leaves = true) :
      LowersStmt site params own ret vars (.all (s :: rest)) p r p₁ vars₁
  | block {vars vars₁ : List SymbolId} {stmts : List Stmt} {p p₁ : Point} {r : Region}
      (id : NodeId) (span : Span)
      (hstmts : LowersStmt site params own ret vars (.all stmts) p r p₁ vars₁) :
      LowersStmt site params own ret vars (.one (.block id stmts span)) p r p₁ vars
  | declare {vars : List SymbolId} {id : NodeId} {symbol : SymbolId} {t : StorageType}
      (ty : TypeExpr) (name : Ident) (span : Span) {p : Point}
      (hsymbol : site.ctx.bindings.symbol? id = some symbol)
      (hty : site.symbols.storageType (site.symbols.symbolType symbol) = .ok t)
      (hallocates : Allocates site vars symbol t p) :
      LowersStmt site params own ret vars (.one (.varDecl id ty name none span)) p
        (.step (p.allocation t)) (p.allocated symbol t) (symbol :: vars)
  | declareWith {vars : List SymbolId} {id : NodeId} {symbol : SymbolId} {t : StorageType}
      (ty : TypeExpr) (name : Ident) {value : Expr} (span : Span) {p p₁ : Point}
      {a : Operand} {r : Region}
      (hsymbol : site.ctx.bindings.symbol? id = some symbol)
      (hty : site.symbols.storageType (site.symbols.symbolType symbol) = .ok t)
      (hallocates : Allocates site vars symbol t p)
      (hvalue : Lowers site params own vars (.value value) (p.allocated symbol t) [a] r p₁)
      (hfits : a.ty = t) :
      LowersStmt site params own ret vars (.one (.varDecl id ty name (some value) span)) p
        ((Region.step (p.allocation t)).seq
          (r.seq (.step (.store a (p.fresh (.pointer t)))))) p₁ (symbol :: vars)
  | ifThen {vars vars₁ : List SymbolId} {condition : Expr} {positive : Stmt} (span : Span)
      {p p₁ p₂ : Point} {a : Operand} {r r₁ : Region}
      (hcondition : Lowers site params own vars (.value condition) p [a] r p₁)
      (ha : a.ty = .bool)
      (hpositive : LowersStmt site params own ret vars (.one positive)
        ((p₁.issue 2).enter p₁.labels) r₁ p₂ vars₁) :
      LowersStmt site params own ret vars (.one (.ifThen condition positive span)) p
        (r.seq (.ifThen a p₁.labels (p₁.labels + 1) r₁)) (p₂.enter (p₁.labels + 1)) vars
  | ifElse {vars vars₁ vars₂ : List SymbolId} {condition : Expr} {positive negative : Stmt}
      (span : Span) {p p₁ p₂ p₃ : Point} {a : Operand} {r r₁ r₂ : Region}
      (hcondition : Lowers site params own vars (.value condition) p [a] r p₁)
      (ha : a.ty = .bool)
      (hpositive : LowersStmt site params own ret vars (.one positive)
        ((p₁.issue 3).enter p₁.labels) r₁ p₂ vars₁)
      (hnegative : LowersStmt site params own ret vars (.one negative)
        (p₂.enter (p₁.labels + 1)) r₂ p₃ vars₂) :
      LowersStmt site params own ret vars (.one (.ifElse condition positive negative span)) p
        (r.seq (.ifElse a p₁.labels (p₁.labels + 1) (p₁.labels + 2) r₁ r₂))
        (p₃.meet (p₁.labels + 2) r₁ r₂) vars
  | ret (vars : List SymbolId) (span : Span) (p : Point) (hvoid : ret.isVoid = true) :
      LowersStmt site params own ret vars (.one (.ret none span)) p (.step (.ret none)) p vars
  | retValue {vars : List SymbolId} {value : Expr} (span : Span) {p p₁ : Point}
      {a : Operand} {r : Region}
      (hvalue : Lowers site params own vars (.value value) p [a] r p₁)
      (hty : a.ty = ret) (hvoid : ret.isVoid = false) :
      LowersStmt site params own ret vars (.one (.ret (some value) span)) p
        (r.seq (.step (.ret (some a)))) p₁ vars
  | expr {vars : List SymbolId} {e : Expr} (span : Span) {p p₁ : Point}
      {values : List Operand} {r : Region}
      (hvalue : Lowers site params own vars (.value e) p values r p₁) :
      LowersStmt site params own ret vars (.one (.expr e span)) p r p₁ vars

/-- The rules for the arguments of a function: those that are no pointers get storage. -/
inductive BindsArguments (site : Site) (params : List (String × StorageType)) :
    List SymbolId → List SymbolId → Point → Region → Point → List SymbolId → Prop
  | nil (vars : List SymbolId) (p : Point) : BindsArguments site params vars [] p .empty p vars
  | pointer {vars vars₁ : List SymbolId} {arg : SymbolId} {rest : List SymbolId}
      {p p₁ : Point} {r : Region}
      (hpointer : (site.symbols.symbolType arg).isPointer = true)
      (hrest : BindsArguments site params vars rest p r p₁ vars₁) :
      BindsArguments site params vars (arg :: rest) p r p₁ vars₁
  | value {vars vars₁ : List SymbolId} {arg : SymbolId} {rest : List SymbolId}
      {p p₁ : Point} {r : Region} {t : StorageType}
      (hvalue : (site.symbols.symbolType arg).isPointer = false)
      (hty : site.symbols.storageType (site.symbols.symbolType arg) = .ok t)
      (hparam : (site.symbols.name arg, t) ∈ params)
      (hallocates : Allocates site vars arg t p)
      (hrest : BindsArguments site params (arg :: vars) rest (p.allocated arg t) r p₁ vars₁) :
      BindsArguments site params vars (arg :: rest) p
        ((Region.step (p.allocation t)).seq ((Region.step
          (.store (.named (site.symbols.name arg) t) (p.fresh (.pointer t)))).seq r)) p₁ vars₁

/-- The region of a whole function body: storage for arguments, the statements, and a
return behind them if control gets there. -/
inductive LowersBody (site : Site) (params : List (String × StorageType)) (ret : StorageType)
    (arguments : List SymbolId) : Option Block → Region → Prop
  | implicit (hvoid : ret.isVoid = true) :
      LowersBody site params ret arguments none (.step (.ret none))
  | leaves {block : Block} {p₁ p₂ : Point} {r₁ r₂ : Region} {vars₁ vars₂ : List SymbolId}
      (harguments : BindsArguments site params [] arguments (.start site.function) r₁ p₁ vars₁)
      (hstmts : LowersStmt site params arguments ret vars₁ (.all block.stmts) p₁ r₂ p₂ vars₂)
      (hleaves : r₂.leaves = true) :
      LowersBody site params ret arguments (some block) (r₁.seq r₂)
  | goesOn {block : Block} {p₁ p₂ : Point} {r₁ r₂ : Region} {vars₁ vars₂ : List SymbolId}
      (harguments : BindsArguments site params [] arguments (.start site.function) r₁ p₁ vars₁)
      (hstmts : LowersStmt site params arguments ret vars₁ (.all block.stmts) p₁ r₂ p₂ vars₂)
      (hleaves : r₂.leaves = false) (hvoid : ret.isVoid = true) :
      LowersBody site params ret arguments (some block)
        (r₁.seq (r₂.seq (.step (.ret none))))

end ClassLang
