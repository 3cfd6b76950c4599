import ClassLang.Context
import ClassLang.Proofs.Symbol.Members
import ClassLang.Proofs.Syntax.Nodes

/-!
# Typing rules

What it means for a tree to be bound and typed soundly: `Typed` for what expressions
compute, and `TypedStmt` for statements.  The rules speak about the symbols and types that
are attached to nodes, not about the analysis that attached them, and ask of a name that it
can be seen from where it stands.  They are kept by every context that has more symbols and
leaves the nodes of the tree alone.
-/

namespace ClassLang

/-- What can be seen from a place inside a function. -/
structure View where
  /-- The class of a member function. -/
  owner : Option SymbolId
  /-- The arguments and local variables that can be seen. -/
  visible : List SymbolId

/-- The types of the parameters of a function, without its receiver. -/
def SymbolTable.parameterTypes (table : SymbolTable) (entry : FunctionEntry) : List Ty :=
  (table.declaredArguments entry).map table.symbolType

/-- The types of the operands and of the value of an operator that evaluates both sides. -/
inductive OperatorType : BinaryOp → Ty → Ty → Prop
  | and : OperatorType .and .bool .bool
  | arith (op : ArithOp) (q : Primitive) (hinteger : q.isInteger = true) :
      OperatorType (.arith op) (.primitive q) (.primitive q)
  | compare (op : CompareOp) (q : Primitive) (hinteger : q.isInteger = true) :
      OperatorType (.compare op) (.primitive q) .bool

/-- The rules for expressions: the types of what a task computes. -/
inductive Typed (ctx : Context) (view : View) : Task → List Ty → Prop
  | bool {id : NodeId} (b : Bool) (span : Span)
      (htype : ctx.bindings.type? id = some .bool) :
      Typed ctx view (.value (.literal id (.bool b) span)) [.bool]
  | int {id : NodeId} {q : Primitive} {n : Nat} (span : Span)
      (htype : ctx.bindings.type? id = some (.primitive q))
      (hinteger : q.isInteger = true) (hfits : q.fits n = true) :
      Typed ctx view (.value (.literal id (.int n) span)) [.primitive q]
  | string {id : NodeId} (text : String) (span : Span)
      (htype : ctx.bindings.type? id = some (.pointer .int8)) :
      Typed ctx view (.value (.literal id (.string text) span)) [.pointer .int8]
  | argument {id : NodeId} {symbol : SymbolId} {entry : VariableEntry} (ident : Ident)
      (htype : ctx.bindings.type? id = some entry.ty)
      (hsymbol : ctx.bindings.symbol? id = some symbol)
      (hentry : ctx.symbols.get? symbol = some (.argument entry))
      (hpointer : entry.ty.isPointer = true) (hvisible : symbol ∈ view.visible) :
      Typed ctx view (.value (.name id ident)) [entry.ty]
  | load {e : Expr} {ty : Ty} (htype : ctx.bindings.type? e.id = some ty)
      (haddress : Typed ctx view (.address e) [ty]) :
      Typed ctx view (.value e) [ty]
  | or {id : NodeId} {left right : Expr} (span : Span)
      (htype : ctx.bindings.type? id = some .bool)
      (hleft : Typed ctx view (.value left) [.bool])
      (hright : Typed ctx view (.value right) [.bool]) :
      Typed ctx view (.value (.binary id .or left right span)) [.bool]
  | operator {id : NodeId} {op : BinaryOp} {left right : Expr} {operand ty : Ty} (span : Span)
      (htype : ctx.bindings.type? id = some ty)
      (hleft : Typed ctx view (.value left) [operand])
      (hright : Typed ctx view (.value right) [operand])
      (hop : OperatorType op operand ty) :
      Typed ctx view (.value (.binary id op left right span)) [ty]
  | assign {id : NodeId} {target value : Expr} {ty : Ty} (span : Span)
      (htype : ctx.bindings.type? id = some .void)
      (htarget : ctx.bindings.type? target.id = some ty)
      (hvalue : Typed ctx view (.value value) [ty])
      (haddress : Typed ctx view (.address target) [ty]) :
      Typed ctx view (.value (.assign id target value span)) [.void]
  | call {e : Expr} {id : NodeId} {callee : Ident} {object : Option Expr} {args : List Expr}
      {function : SymbolId} {entry : FunctionEntry} {selfTypes types : List Ty}
      (hcall : e.IsCall id callee object args)
      (htype : ctx.bindings.type? id = some entry.returnType)
      (hsymbol : ctx.bindings.symbol? id = some function)
      (hentry : ctx.symbols.function? function = some entry)
      (hresolved : entry.resolved = true)
      (hself : Typed ctx view (.receiver object entry.owner) selfTypes)
      (hvalues : Typed ctx view (.values args) types)
      (hparams : ctx.symbols.parameterTypes entry <+: types)
      (hcount : entry.traits.variadic = false →
        types.length = (ctx.symbols.parameterTypes entry).length)
      (hcallable : ctx.symbols.Callable function) :
      Typed ctx view (.value e) [entry.returnType]
  | stored {id : NodeId} {symbol : SymbolId} {entry : VariableEntry} (ident : Ident)
      (hsymbol : ctx.bindings.symbol? id = some symbol)
      (hentry : ctx.symbols.storedVariable? symbol = some entry)
      (hstored : ¬ ctx.symbols.PointerArgument symbol) (hvisible : symbol ∈ view.visible) :
      Typed ctx view (.address (.name id ident)) [entry.ty]
  | ownField {id : NodeId} {owner field : SymbolId} {entry : FieldEntry} (ident : Ident)
      (hsymbol : ctx.bindings.symbol? id = some field)
      (howner : view.owner = some owner)
      (hstores : ctx.symbols.Stores owner field)
      (hentry : ctx.symbols.field? field = some entry) :
      Typed ctx view (.address (.name id ident)) [entry.ty]
  | member {id : NodeId} {object : Expr} {ident : Ident} {record field : SymbolId} {ty : Ty}
      {entry : FieldEntry} (span : Span)
      (hsymbol : ctx.bindings.symbol? id = some field)
      (hbase : Typed ctx view (.base object) [ty])
      (hrecord : ty = .classType record ∨ ty = .structType record)
      (hstores : ctx.symbols.Stores record field)
      (hentry : ctx.symbols.field? field = some entry) :
      Typed ctx view (.address (.member id object ident span)) [entry.ty]
  | basePointer {object : Expr} {ty : Ty}
      (htype : ctx.bindings.type? object.id = some (.pointer ty))
      (hvalue : Typed ctx view (.value object) [.pointer ty]) :
      Typed ctx view (.base object) [ty]
  | basePlace {object : Expr} {ty : Ty}
      (htype : ctx.bindings.type? object.id = some ty) (hplace : ty.isPointer = false)
      (haddress : Typed ctx view (.address object) [ty]) :
      Typed ctx view (.base object) [ty]
  | free : Typed ctx view (.receiver none none) []
  | self {actual owner : SymbolId} (howner : view.owner = some actual)
      (hinherits : ctx.symbols.Inherits actual owner) :
      Typed ctx view (.receiver none (some owner)) [.pointer (.classType owner)]
  | object {object : Expr} {actual owner : SymbolId}
      (htype : ctx.bindings.type? object.id = some (.pointer (.classType actual)))
      (hvalue : Typed ctx view (.value object) [.pointer (.classType actual)])
      (hinherits : ctx.symbols.Inherits actual owner) :
      Typed ctx view (.receiver (some object) (some owner)) [.pointer (.classType owner)]
  | nil : Typed ctx view (.values []) []
  | cons {e : Expr} {rest : List Expr} {ty : Ty} {types : List Ty}
      (hvalue : Typed ctx view (.value e) [ty]) (hvoid : ty.isVoid = false)
      (hvalues : Typed ctx view (.values rest) types) :
      Typed ctx view (.values (e :: rest)) (ty :: types)

section

variable {ctx ctx' : Context} {view : View} {task : Task} {types : List Ty} {e : Expr} {ty : Ty}

/-- The type of an expression is the one attached to its node. -/
theorem Typed.type? (h : Typed ctx view (.value e) [ty]) :
    ctx.bindings.type? e.id = some ty := by
  cases h with
  | bool b span htype => exact htype
  | int span htype => exact htype
  | string text span htype => exact htype
  | argument ident htype => exact htype
  | load htype => exact htype
  | or span htype => exact htype
  | operator span htype => exact htype
  | assign span htype => exact htype
  | call hcall htype => cases hcall <;> exact htype

/-- A variable has a known type. -/
theorem SymbolTable.Ok.storable {table : SymbolTable} (h : table.Ok) {symbol : SymbolId}
    {entry : VariableEntry} (hentry : table.storedVariable? symbol = some entry) :
    entry.ty.Storable table := by
  exact (storedVariable?_eq_some_iff.1 hentry).elim (h symbol _) (h symbol _)

/-- A field has a known type. -/
theorem SymbolTable.Ok.field {table : SymbolTable} (h : table.Ok) {symbol : SymbolId}
    {entry : FieldEntry} (hentry : table.field? symbol = some entry) :
    entry.ty.Storable table := by
  have hs := SymbolTable.field?_eq_some_iff.1 hentry
  have hok := h symbol _ hs
  exact hok

/-- A function with a signature has a known return type, and lists arguments. -/
theorem SymbolTable.Ok.function {table : SymbolTable} (h : table.Ok) {symbol : SymbolId}
    {entry : FunctionEntry} (hentry : table.function? symbol = some entry)
    (hresolved : entry.resolved = true) :
    entry.returnType.Known table ∧ ∀ a ∈ entry.arguments, table.Listable a := by
  have hs := SymbolTable.function?_eq_some_iff.1 hentry
  have hok := h symbol _ hs
  exact hok.2 hresolved

/-- Places have types that can be stored. -/
theorem Typed.storable (hok : ctx.symbols.Ok) (h : Typed ctx view (.address e) [ty]) :
    ty.Storable ctx.symbols := by
  cases h with
  | stored ident hsymbol hentry => exact hok.storable hentry
  | ownField ident hsymbol howner hstores hentry => exact hok.field hentry
  | member span hsymbol hbase hrecord hstores hentry => exact hok.field hentry

/-- Expressions have known types. -/
theorem Typed.known (hok : ctx.symbols.Ok) (h : Typed ctx view (.value e) [ty]) :
    ty.Known ctx.symbols := by
  cases h with
  | bool => trivial
  | int => trivial
  | string => trivial
  | @argument id symbol entry ident htype hsymbol hentry =>
      have hstored : ctx.symbols.storedVariable? symbol = some entry := by
        simp [SymbolTable.storedVariable?, hentry, Symbol.storedVariable?]
      exact (hok.storable hstored).1
  | load htype haddress => exact (haddress.storable hok).1
  | or => trivial
  | operator span htype hleft hright hop => cases hop <;> trivial
  | assign => trivial
  | call hcall htype hsymbol hentry hresolved => exact (hok.function hentry hresolved).1

/-- A place that is no pointer argument has an address. -/
theorem Typed.address (h : Typed ctx view (.value e) [ty]) (hplace : e.isPlace = true)
    (hargument : ∀ id ident, e = .name id ident → ∀ symbol entry,
      ctx.bindings.symbol? id = some symbol →
      ctx.symbols.get? symbol = some (.argument entry) → ty.isPointer = false) :
    Typed ctx view (.address e) [ty] := by
  cases h with
  | bool => simp [Expr.isPlace] at hplace
  | int => simp [Expr.isPlace] at hplace
  | string => simp [Expr.isPlace] at hplace
  | argument ident htype hsymbol hentry hpointer =>
      have hnot := hargument _ _ rfl _ _ hsymbol hentry
      simp [hpointer] at hnot
  | load htype haddress => exact haddress
  | or => simp [Expr.isPlace] at hplace
  | operator => simp [Expr.isPlace] at hplace
  | assign => simp [Expr.isPlace] at hplace
  | call hcall => cases hcall <;> simp [Expr.isPlace] at hplace

/-- Whether an expression is a string literal; only later stages attach symbols to those. -/
def Expr.isText : Expr → Bool
  | .literal _ (.string _) _ => true
  | _ => false

/-- What is attached to the node of an expression is the same in two contexts. -/
def Expr.KeptIn (ctx ctx' : Context) (e : Expr) : Prop :=
  ctx'.bindings.type? e.id = ctx.bindings.type? e.id ∧
    (e.isText = false → ctx'.bindings.symbol? e.id = ctx.bindings.symbol? e.id)

theorem Expr.mem_subexprs (e : Expr) : e ∈ e.subexprs := by
  cases e <;> simp [subexprs]

theorem SymbolTable.Extends.pointerArgument_iff {t t' : SymbolTable} (h : t.Extends t')
    {symbol : SymbolId} (hid : symbol < t.size) :
    t'.PointerArgument symbol ↔ t.PointerArgument symbol := by
  obtain ⟨s, hs⟩ := Option.isSome_iff_exists.1 ((t.isSome_get?_iff symbol).2 hid)
  obtain ⟨s', hs', hbare⟩ := h symbol s hs
  constructor
  · rintro ⟨entry, hentry, hpointer⟩
    rw [hs'] at hentry
    cases hentry
    cases s <;> simp only [Symbol.bare, reduceCtorEq, Symbol.argument.injEq] at hbare
    subst hbare
    exact ⟨entry, hs, hpointer⟩
  · rintro ⟨entry, hentry, hpointer⟩
    exact ⟨entry, h.later.argument hentry, hpointer⟩

/-- Types of parameters stay in tables that have more. -/
theorem SymbolTable.Extends.parameterTypes {t t' : SymbolTable} (h : t.Extends t')
    {entry : FunctionEntry} (hargs : ∀ a ∈ entry.arguments, t.Listable a) :
    t'.parameterTypes entry = t.parameterTypes entry := by
  unfold SymbolTable.parameterTypes
  rw [h.later.declaredArguments hargs]
  exact List.map_congr_left fun a ha => h.symbolType (hargs a (List.mem_filter.1 ha).1).lt_size

/-- **Typing is kept** where the table only gets more and the nodes of the task are left
alone. -/
theorem Typed.mono (hok : ctx.symbols.Ok) (hextends : ctx.symbols.Extends ctx'.symbols)
    (h : Typed ctx view task types) (hkept : ∀ sub ∈ task.subexprs, sub.KeptIn ctx ctx') :
    Typed ctx' view task types := by
  induction h with
  | bool b span htype =>
      exact .bool b span ((hkept _ (Expr.mem_subexprs _)).1.trans htype)
  | int span htype hinteger hfits =>
      exact .int span ((hkept _ (Expr.mem_subexprs _)).1.trans htype) hinteger hfits
  | string text span htype =>
      exact .string text span ((hkept _ (Expr.mem_subexprs _)).1.trans htype)
  | argument ident htype hsymbol hentry hpointer hvisible =>
      have hk := hkept _ (Expr.mem_subexprs _)
      exact .argument ident (hk.1.trans htype) ((hk.2 rfl).trans hsymbol)
        (hextends.later.argument hentry) hpointer hvisible
  | load htype haddress ih =>
      exact .load ((hkept _ (Expr.mem_subexprs _)).1.trans htype) (ih hkept)
  | or span htype hleft hright ih₁ ih₂ =>
      obtain ⟨hkept₁, hkept₂⟩ := Expr.forall_binary hkept
      exact .or span ((hkept _ (Expr.mem_subexprs _)).1.trans htype) (ih₁ hkept₁) (ih₂ hkept₂)
  | operator span htype hleft hright hop ih₁ ih₂ =>
      obtain ⟨hkept₁, hkept₂⟩ := Expr.forall_binary hkept
      exact .operator span ((hkept _ (Expr.mem_subexprs _)).1.trans htype) (ih₁ hkept₁)
        (ih₂ hkept₂) hop
  | @assign id target value ty span htype htarget hvalue haddress ih₁ ih₂ =>
      obtain ⟨hkept₁, hkept₂⟩ := Expr.forall_assign hkept
      exact .assign span ((hkept _ (Expr.mem_subexprs _)).1.trans htype)
        ((hkept₁ target target.mem_subexprs).1.trans htarget) (ih₁ hkept₂) (ih₂ hkept₁)
  | @call e id callee object args function entry selfTypes types hcall htype hsymbol hentry
      hresolved hself hvalues hparams hcount hcallable ih₁ ih₂ =>
      have hlists := (hok.function hentry hresolved).2
      have htypes := hextends.parameterTypes hlists
      have hid : e.id = id ∧ e.isText = false := by cases hcall <;> exact ⟨rfl, rfl⟩
      obtain ⟨hkeptType, hkeptSymbol⟩ := hkept e (Expr.mem_subexprs e)
      rw [hid.1] at hkeptType hkeptSymbol
      obtain ⟨hkept₁, hkept₂⟩ := hcall.forall_parts hkept entry.owner
      exact .call hcall (hkeptType.trans htype) ((hkeptSymbol hid.2).trans hsymbol)
        (hextends.function? hentry) hresolved (ih₁ hkept₁) (ih₂ hkept₂) (htypes ▸ hparams)
        (htypes ▸ hcount) (hextends.callable hcallable)
  | @stored id symbol entry ident hsymbol hentry hstored hvisible =>
      have hlt : symbol < _ := (SymbolTable.storedVariable?_eq_some_iff.1 hentry).elim
        SymbolTable.lt_size_of_get? SymbolTable.lt_size_of_get?
      refine .stored ident (((hkept _ (Expr.mem_subexprs _)).2 rfl).trans hsymbol)
        (hextends.storedVariable? hentry) ?_ hvisible
      rwa [hextends.pointerArgument_iff hlt]
  | ownField ident hsymbol howner hstores hentry =>
      obtain ⟨entry', hentry', -, hty, -⟩ := hextends.later.field? hentry
      rw [← hty]
      exact .ownField ident (((hkept _ (Expr.mem_subexprs _)).2 rfl).trans hsymbol) howner
        (hextends.stores hstores) hentry'
  | member span hsymbol hbase hrecord hstores hentry ih =>
      obtain ⟨entry', hentry', -, hty, -⟩ := hextends.later.field? hentry
      rw [← hty]
      exact .member span (((hkept _ (Expr.mem_subexprs _)).2 rfl).trans hsymbol)
        (ih (Expr.forall_member hkept)) hrecord (hextends.stores hstores) hentry'
  | basePointer htype hvalue ih =>
      exact .basePointer ((hkept _ (Expr.mem_subexprs _)).1.trans htype) (ih hkept)
  | basePlace htype hplace haddress ih =>
      exact .basePlace ((hkept _ (Expr.mem_subexprs _)).1.trans htype) hplace (ih hkept)
  | free => exact .free
  | self howner hinherits => exact .self howner (hextends.inherits hinherits)
  | object htype hvalue hinherits ih =>
      have hkept' := Task.forall_object hkept
      exact .object ((hkept' _ (Expr.mem_subexprs _)).1.trans htype) (ih hkept')
        (hextends.inherits hinherits)
  | nil => exact .nil
  | cons hvalue hvoid hvalues ih₁ ih₂ =>
      obtain ⟨hkept₁, hkept₂⟩ := Expr.forall_all hkept
      exact .cons (ih₁ hkept₁) hvoid (ih₂ hkept₂)

end

/-- A view with one more variable. -/
def View.declare (view : View) (symbol : SymbolId) : View :=
  { view with visible := symbol :: view.visible }

/-- The rules for statements of a function that gives back `ret`: what can be seen in front
of a task and behind it.  Variables get larger numbers than everything before them, which
the two numbers keep track of. -/
inductive TypedStmt (ctx : Context) (ret : Ty) : View → Nat → StmtTask → View → Nat → Prop
  | nil (view : View) (n : Nat) : TypedStmt ctx ret view n (.all []) view n
  | cons {view view₁ view₂ : View} {n n₁ n₂ : Nat} {s : Stmt} {rest : List Stmt}
      (hfirst : TypedStmt ctx ret view n (.one s) view₁ n₁)
      (hrest : TypedStmt ctx ret view₁ n₁ (.all rest) view₂ n₂) :
      TypedStmt ctx ret view n (.all (s :: rest)) view₂ n₂
  | block {view view₁ : View} {n n₁ : Nat} {stmts : List Stmt} (id : NodeId) (span : Span)
      (hstmts : TypedStmt ctx ret view n (.all stmts) view₁ n₁) :
      TypedStmt ctx ret view n (.one (.block id stmts span)) view n₁
  | declare {view : View} {n : Nat} {id : NodeId} {symbol : SymbolId} {entry : VariableEntry}
      (ty : TypeExpr) (name : Ident) (span : Span)
      (hsymbol : ctx.bindings.symbol? id = some symbol)
      (hentry : ctx.symbols.get? symbol = some (.localVariable entry)) (hnew : n ≤ symbol) :
      TypedStmt ctx ret view n (.one (.varDecl id ty name none span)) (view.declare symbol)
        (symbol + 1)
  | declareWith {view : View} {n : Nat} {id : NodeId} {symbol : SymbolId}
      {entry : VariableEntry} {value : Expr} (ty : TypeExpr) (name : Ident) (span : Span)
      (hsymbol : ctx.bindings.symbol? id = some symbol)
      (hentry : ctx.symbols.get? symbol = some (.localVariable entry)) (hnew : n ≤ symbol)
      (hvalue : Typed ctx view (.value value) [entry.ty]) :
      TypedStmt ctx ret view n (.one (.varDecl id ty name (some value) span))
        (view.declare symbol) (symbol + 1)
  | ifThen {view view₁ : View} {n n₁ : Nat} {condition : Expr} {positive : Stmt} (span : Span)
      (hcondition : Typed ctx view (.value condition) [.bool])
      (hpositive : TypedStmt ctx ret view n (.one positive) view₁ n₁) :
      TypedStmt ctx ret view n (.one (.ifThen condition positive span)) view n₁
  | ifElse {view view₁ view₂ : View} {n n₁ n₂ : Nat} {condition : Expr}
      {positive negative : Stmt} (span : Span)
      (hcondition : Typed ctx view (.value condition) [.bool])
      (hpositive : TypedStmt ctx ret view n (.one positive) view₁ n₁)
      (hnegative : TypedStmt ctx ret view n₁ (.one negative) view₂ n₂) :
      TypedStmt ctx ret view n (.one (.ifElse condition positive negative span)) view n₂
  | ret (view : View) (n : Nat) (span : Span) (hvoid : ret.isVoid = true) :
      TypedStmt ctx ret view n (.one (.ret none span)) view n
  | retValue {view : View} {value : Expr} (n : Nat) (span : Span)
      (hvalue : Typed ctx view (.value value) [ret]) (hvoid : ret.isVoid = false) :
      TypedStmt ctx ret view n (.one (.ret (some value) span)) view n
  | expr {view : View} {e : Expr} {ty : Ty} (n : Nat) (span : Span)
      (hvalue : Typed ctx view (.value e) [ty]) :
      TypedStmt ctx ret view n (.one (.expr e span)) view n

/-- What is attached to a node on the way through a tree is the same in two contexts. -/
def Visit.KeptIn (ctx ctx' : Context) : Visit → Prop
  | .expr e => e.KeptIn ctx ctx'
  | .stmt (.varDecl id _ _ _ _) => ctx'.bindings.symbol? id = ctx.bindings.symbol? id
  | _ => True

section

variable {ctx ctx' : Context} {ret : Ty} {view view' : View} {n n' : Nat} {task : StmtTask}

theorem TypedStmt.le (h : TypedStmt ctx ret view n task view' n') : n ≤ n' := by
  induction h with
  | nil | ret | retValue | expr => exact Nat.le_refl _
  | cons _ _ ih₁ ih₂ => exact Nat.le_trans ih₁ ih₂
  | block _ _ _ ih => exact ih
  | declare _ _ _ _ _ hnew => exact Nat.le_succ_of_le hnew
  | declareWith _ _ _ _ _ hnew => exact Nat.le_succ_of_le hnew
  | ifThen _ _ _ ih => exact ih
  | ifElse _ _ _ _ ih₁ ih₂ => exact Nat.le_trans ih₁ ih₂

/-- **Typing of statements is kept** where the table only gets more and the nodes of the task
are left alone. -/
theorem TypedStmt.mono (hok : ctx.symbols.Ok) (hextends : ctx.symbols.Extends ctx'.symbols)
    (h : TypedStmt ctx ret view n task view' n')
    (hkept : ∀ visit ∈ task.visits, visit.KeptIn ctx ctx') :
    TypedStmt ctx' ret view n task view' n' := by
  -- The expressions in a task are met on the way through it.
  have hexpr : ∀ {view : View} {e : Expr} {types : List Ty},
      Typed ctx view (.value e) types → (∀ visit ∈ e.visits, visit.KeptIn ctx ctx') →
      Typed ctx' view (.value e) types := by
    intro view e types ht hvisits
    refine ht.mono hok hextends fun sub hsub => ?_
    exact hvisits (.expr sub) (List.mem_map_of_mem hsub)
  induction h with
  | nil view n => exact .nil view n
  | cons hfirst hrest ih₁ ih₂ =>
      refine .cons (ih₁ fun v hv => hkept v ?_) (ih₂ fun v hv => hkept v ?_)
      · exact List.mem_append_left _ hv
      · exact List.mem_append_right _ hv
  | block id span hstmts ih =>
      refine .block id span (ih fun v hv => hkept v ?_)
      exact List.mem_cons_of_mem _ (List.mem_cons_of_mem _ hv)
  | declare ty name span hsymbol hentry hnew =>
      have hk : _ = _ := hkept (.stmt _) (List.mem_cons_self ..)
      exact .declare ty name span (hk.trans hsymbol) (hextends.later.localVariable hentry) hnew
  | declareWith ty name span hsymbol hentry hnew hvalue =>
      have hk : _ = _ := hkept (.stmt _) (List.mem_cons_self ..)
      refine .declareWith ty name span (hk.trans hsymbol) (hextends.later.localVariable hentry) hnew
        (hexpr hvalue fun v hv => hkept v ?_)
      exact List.mem_cons_of_mem _ hv
  | ifThen span hcondition hpositive ih =>
      refine .ifThen span (hexpr hcondition fun v hv => hkept v ?_) (ih fun v hv => hkept v ?_)
      · exact List.mem_cons_of_mem _ (List.mem_append_left _ hv)
      · exact List.mem_cons_of_mem _ (List.mem_append_right _ hv)
  | ifElse span hcondition hpositive hnegative ih₁ ih₂ =>
      refine .ifElse span (hexpr hcondition fun v hv => hkept v ?_) (ih₁ fun v hv => hkept v ?_)
        (ih₂ fun v hv => hkept v ?_)
      · exact List.mem_cons_of_mem _ (List.mem_append_left _ (List.mem_append_left _ hv))
      · exact List.mem_cons_of_mem _ (List.mem_append_left _ (List.mem_append_right _ hv))
      · exact List.mem_cons_of_mem _ (List.mem_append_right _ hv)
  | ret view n span hvoid => exact .ret view n span hvoid
  | retValue n span hvalue hvoid =>
      exact .retValue n span (hexpr hvalue fun v hv => hkept v (List.mem_cons_of_mem _ hv)) hvoid
  | expr n span hvalue =>
      exact .expr n span (hexpr hvalue fun v hv => hkept v (List.mem_cons_of_mem _ hv))

end

end ClassLang
