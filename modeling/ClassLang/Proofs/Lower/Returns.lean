import ClassLang.Proofs.Accepted
import ClassLang.Proofs.Lower.Terminated

/-!
# Returns in the tree and in the code

The analysis lets a function with a result pass if every way through its body returns, and the
lowering puts a `return` behind a body whose last instruction does not end a block.  These are
two answers to one question (`compile_returns`): in an accepted program they agree for all
statements that are lowered, so a function with a result never gets to the end of its code, and a
function without one gets a `return` exactly if some way through it has none.

`StmtTask.Way` says what a way through statements is, without asking the analysis, and `Invokes`
follows a lowering program to all statements that it gets to.
-/

namespace ClassLang

/-! ## Ways through statements -/

/-- The ways through statements, each with the answer to whether it ends in a `return`.  Behind a
`return` nothing is passed. -/
inductive StmtTask.Way : StmtTask → Bool → Prop
  | nil : Way (.all []) false
  | next {s : Stmt} {rest : List Stmt} {b : Bool} (hfirst : Way (.one s) false)
      (hrest : Way (.all rest) b) : Way (.all (s :: rest)) b
  | leave {s : Stmt} (rest : List Stmt) (hfirst : Way (.one s) true) : Way (.all (s :: rest)) true
  | block {stmts : List Stmt} {b : Bool} (id : NodeId) (span : Span) (h : Way (.all stmts) b) :
      Way (.one (.block id stmts span)) b
  | varDecl (id : NodeId) (ty : TypeExpr) (name : Ident) (value : Option Expr) (span : Span) :
      Way (.one (.varDecl id ty name value span)) false
  | expr (e : Expr) (span : Span) : Way (.one (.expr e span)) false
  | ret (value : Option Expr) (span : Span) : Way (.one (.ret value span)) true
  | taken {positive : Stmt} {b : Bool} (condition : Expr) (span : Span)
      (h : Way (.one positive) b) : Way (.one (.ifThen condition positive span)) b
  | skipped (condition : Expr) (positive : Stmt) (span : Span) :
      Way (.one (.ifThen condition positive span)) false
  | positive {positive : Stmt} {b : Bool} (condition : Expr) (negative : Stmt) (span : Span)
      (h : Way (.one positive) b) : Way (.one (.ifElse condition positive negative span)) b
  | negative {negative : Stmt} {b : Bool} (condition : Expr) (positive : Stmt) (span : Span)
      (h : Way (.one negative) b) : Way (.one (.ifElse condition positive negative span)) b

/-- Where the analysis says so, every way returns. -/
theorem StmtTask.Way.of_returns {task : StmtTask} {b : Bool} (h : task.Way b)
    (hreturns : task.returns = true) : b = true := by
  induction h with
  | nil | varDecl | expr | skipped => cases hreturns
  | leave | ret => rfl
  | next hfirst hrest ih₁ ih₂ =>
      simp only [StmtTask.returns, Stmt.anyReturns, Bool.or_eq_true] at hreturns
      rcases hreturns with hreturns | hreturns
      · cases ih₁ hreturns
      · exact ih₂ hreturns
  | block id span h ih => exact ih hreturns
  | taken => cases hreturns
  | positive condition negative span h ih =>
      simp only [StmtTask.returns, Stmt.returns, Bool.and_eq_true] at hreturns
      exact ih hreturns.2
  | negative condition positive span h ih =>
      simp only [StmtTask.returns, Stmt.returns, Bool.and_eq_true] at hreturns
      exact ih hreturns.1

mutual

theorem Stmt.way_of_not_returns (s : Stmt) (h : s.returns = false) :
    (StmtTask.one s).Way false := by
  cases s with
  | block id stmts span => exact .block id span (Stmt.way_of_not_anyReturns stmts h)
  | varDecl id ty name value span => exact .varDecl id ty name value span
  | ifThen condition positive span => exact .skipped condition positive span
  | ifElse condition positive negative span =>
      simp only [Stmt.returns, Bool.and_eq_false_iff] at h
      rcases h with h | h
      · exact .negative condition positive span (negative.way_of_not_returns h)
      · exact .positive condition negative span (positive.way_of_not_returns h)
  | ret value span => cases h
  | expr e span => exact .expr e span

theorem Stmt.way_of_not_anyReturns (stmts : List Stmt) (h : Stmt.anyReturns stmts = false) :
    (StmtTask.all stmts).Way false := by
  cases stmts with
  | nil => exact .nil
  | cons s rest =>
      simp only [Stmt.anyReturns, Bool.or_eq_false_iff] at h
      exact .next (s.way_of_not_returns h.1) (Stmt.way_of_not_anyReturns rest h.2)

end

/-- **The analysis finds out whether some way does not return.** -/
theorem StmtTask.way_false_iff {task : StmtTask} : task.Way false ↔ task.returns = false := by
  constructor
  · intro h
    exact Bool.eq_false_iff.2 fun hreturns => by cases h.of_returns hreturns
  · intro h
    cases task with
    | one s => exact s.way_of_not_returns h
    | all stmts => exact Stmt.way_of_not_anyReturns stmts h

/-! ## Statements that are lowered -/

/-- Code for a task. -/
def StmtTask.lower (site : Site) : StmtTask → Lowering Unit
  | .one s => s.lower site
  | .all stmts => Stmt.lowerAll site stmts

/-- **The last instruction tells whether a task returns.** -/
theorem StmtTask.ensures_lower (site : Site) (task : StmtTask) :
    Lowering.Ensures (fun frame => frame.terminated = false) (task.lower site) fun _ frame =>
      frame.terminated = task.returns := by
  cases task with
  | one s => exact s.ensures_lower site
  | all stmts => exact Stmt.ensures_lowerAll site stmts false

/-- A frame when some labels were given out. -/
def Frame.issue (frame : Frame) (count : Nat) : Frame :=
  { frame with counters := { frame.counters with labels := frame.counters.labels + count } }

/-- A frame where one side of a conditional statement begins: a list of its own, with the label
of the side. -/
def Frame.beginSide (frame : Frame) (label : Label) : Frame :=
  { frame with blocks := frame.blocks.push.emit (.label label), label := some label }

/-- The lowering of a task at a frame comes to the lowering of another task at another frame. -/
inductive Invokes (site : Site) : StmtTask → Frame → StmtTask → Frame → Prop
  | here (task : StmtTask) (frame : Frame) : Invokes site task frame task frame
  | first {s : Stmt} {rest : List Stmt} {frame frame' : Frame} {inner : StmtTask}
      (hopen : frame.terminated = false) (h : Invokes site (.one s) frame inner frame') :
      Invokes site (.all (s :: rest)) frame inner frame'
  | rest {s : Stmt} {rest : List Stmt} {frame frame₁ frame' : Frame} {inner : StmtTask}
      (hopen : frame.terminated = false) (hfirst : (s.lower site).run frame = .ok ((), frame₁))
      (h : Invokes site (.all rest) frame₁ inner frame') :
      Invokes site (.all (s :: rest)) frame inner frame'
  | block {stmts : List Stmt} {frame frame' : Frame} {inner : StmtTask} (id : NodeId) (span : Span)
      (h : Invokes site (.all stmts) frame inner frame') :
      Invokes site (.one (.block id stmts span)) frame inner frame'
  | ifThen {condition : Expr} {positive : Stmt} {frame frame₁ frame' : Frame} {operand : Operand}
      {inner : StmtTask} (span : Span)
      (hcondition : (Lowering.needed site condition.span (condition.lower site)).run frame =
        .ok (operand, frame₁))
      (h : Invokes site (.one positive) ((frame₁.issue 2).beginSide frame₁.counters.labels)
        inner frame') :
      Invokes site (.one (.ifThen condition positive span)) frame inner frame'
  | positive {condition : Expr} {positive : Stmt} {frame frame₁ frame' : Frame}
      {operand : Operand} {inner : StmtTask} (negative : Stmt) (span : Span)
      (hcondition : (Lowering.needed site condition.span (condition.lower site)).run frame =
        .ok (operand, frame₁))
      (h : Invokes site (.one positive) ((frame₁.issue 3).beginSide frame₁.counters.labels)
        inner frame') :
      Invokes site (.one (.ifElse condition positive negative span)) frame inner frame'
  | negative {condition : Expr} {positive negative : Stmt} {frame frame₁ frame₂ frame' : Frame}
      {operand : Operand} {side : Bool × List Instruction} {inner : StmtTask} (span : Span)
      (hcondition : (Lowering.needed site condition.span (condition.lower site)).run frame =
        .ok (operand, frame₁))
      (hpositive : (Lowering.side frame₁.counters.labels (frame₁.counters.labels + 2)
        (positive.lower site)).run (frame₁.issue 3) = .ok (side, frame₂))
      (h : Invokes site (.one negative) (frame₂.beginSide (frame₁.counters.labels + 1))
        inner frame') :
      Invokes site (.one (.ifElse condition positive negative span)) frame inner frame'

namespace Lowering

/-- A list of its own was filled if it was collected. -/
theorem run_collect_eq_ok {α : Type} {fill : Lowering α} {frame frame' : Frame}
    {r : α × List Instruction} (h : (collect fill).run frame = .ok (r, frame')) :
    ∃ a final, fill.run { frame with blocks := frame.blocks.push } = .ok (a, final) := by
  obtain ⟨_, frame₁, hpush, h⟩ := run_bind_eq_ok h
  cases hpush
  obtain ⟨a, final, hfill, -⟩ := run_bind_eq_ok h
  exact ⟨a, final, hfill⟩

/-- One side of a conditional statement has run if its code was collected. -/
theorem run_side_eq_ok {label continuation : Label} {fill : Lowering Unit} {frame frame' : Frame}
    {r : Bool × List Instruction} (h : (side label continuation fill).run frame = .ok (r, frame')) :
    ∃ final, fill.run (frame.beginSide label) = .ok ((), final) := by
  obtain ⟨_, _, h⟩ := run_collect_eq_ok h
  obtain ⟨_, frame₁, hlabel, h⟩ := run_bind_eq_ok h
  cases hlabel
  obtain ⟨_, final, hfill, -⟩ := run_bind_eq_ok h
  exact ⟨final, hfill⟩

/-- The side of a conditional statement without a second one. -/
theorem run_ifThen_eq_ok {condition : Operand} {positive : Lowering Unit} {frame frame' : Frame}
    (h : (Lowering.ifThen condition positive).run frame = .ok ((), frame')) :
    ∃ final, positive.run ((frame.issue 2).beginSide frame.counters.labels) = .ok ((), final) := by
  obtain ⟨_, _, hfresh, h⟩ := run_bind_eq_ok h
  cases hfresh
  obtain ⟨_, _, hfresh, h⟩ := run_bind_eq_ok h
  cases hfresh
  obtain ⟨_, _, hside, -⟩ := run_bind_eq_ok h
  exact run_side_eq_ok hside

/-- Statements are lowered one after the other while control gets to them. -/
theorem run_lowerAll_cons {site : Site} {s : Stmt} {rest : List Stmt} {frame : Frame}
    (hopen : frame.terminated = false) :
    (Stmt.lowerAll site (s :: rest)).run frame =
      (s.lower site >>= fun _ => Stmt.lowerAll site rest).run frame := by
  rw [Stmt.lowerAll, run_terminated_bind, hopen]
  rfl

/-- The sides of a conditional statement with two of them. -/
theorem run_ifElse_eq_ok {condition : Operand} {positive negative : Lowering Unit}
    {frame frame' : Frame}
    (h : (Lowering.ifElse condition positive negative).run frame = .ok ((), frame')) :
    ∃ r frame₁ r' frame₂,
      (side frame.counters.labels (frame.counters.labels + 2) positive).run (frame.issue 3) =
        .ok (r, frame₁) ∧
      (side (frame.counters.labels + 1) (frame.counters.labels + 2) negative).run frame₁ =
        .ok (r', frame₂) := by
  obtain ⟨_, _, hfresh, h⟩ := run_bind_eq_ok h
  cases hfresh
  obtain ⟨_, _, hfresh, h⟩ := run_bind_eq_ok h
  cases hfresh
  obtain ⟨_, _, hfresh, h⟩ := run_bind_eq_ok h
  cases hfresh
  obtain ⟨r, frame₁, hfirst, h⟩ := run_bind_eq_ok h
  obtain ⟨r', frame₂, hsecond, -⟩ := run_bind_eq_ok h
  exact ⟨r, frame₁, r', frame₂, hfirst, hsecond⟩

end Lowering

open Lowering

/-- **What a lowering comes to succeeds**, if it succeeds as a whole. -/
theorem Invokes.runs {site : Site} {task inner : StmtTask} {frame frame' : Frame}
    (h : Invokes site task frame inner frame')
    (hruns : ∃ final, (task.lower site).run frame = .ok ((), final)) :
    ∃ final, (inner.lower site).run frame' = .ok ((), final) := by
  induction h with
  | here => exact hruns
  | first hopen h ih =>
      obtain ⟨final, hrun⟩ := hruns
      rw [StmtTask.lower, run_lowerAll_cons hopen] at hrun
      obtain ⟨_, frame₁, hfirst, -⟩ := run_bind_eq_ok hrun
      exact ih ⟨frame₁, hfirst⟩
  | rest hopen hfirst h ih =>
      obtain ⟨final, hrun⟩ := hruns
      rw [StmtTask.lower, run_lowerAll_cons hopen] at hrun
      obtain ⟨_, frame₁, hfirst', hrest⟩ := run_bind_eq_ok hrun
      cases hfirst.symm.trans hfirst'
      exact ih ⟨final, hrest⟩
  | block id span h ih => exact ih hruns
  | ifThen span hcondition h ih =>
      obtain ⟨final, hrun⟩ := hruns
      obtain ⟨_, _, hcondition', hrun⟩ := run_bind_eq_ok hrun
      cases hcondition.symm.trans hcondition'
      exact ih (run_ifThen_eq_ok hrun)
  | positive negative span hcondition h ih =>
      obtain ⟨final, hrun⟩ := hruns
      obtain ⟨_, _, hcondition', hrun⟩ := run_bind_eq_ok hrun
      cases hcondition.symm.trans hcondition'
      obtain ⟨_, _, _, _, hfirst, -⟩ := run_ifElse_eq_ok hrun
      exact ih (run_side_eq_ok hfirst)
  | negative span hcondition hpositive h ih =>
      obtain ⟨final, hrun⟩ := hruns
      obtain ⟨_, _, hcondition', hrun⟩ := run_bind_eq_ok hrun
      cases hcondition.symm.trans hcondition'
      obtain ⟨_, _, _, _, hfirst, hsecond⟩ := run_ifElse_eq_ok hrun
      cases hpositive.symm.trans hfirst
      exact ih (run_side_eq_ok hsecond)

/-! ## Functions -/

theorem Lowering.keeps_bindArguments (site : Site) (arguments : List SymbolId) :
    Keeps (bindArguments site arguments) := by
  induction arguments with
  | nil => exact keeps_pure ()
  | cons arg rest ih =>
      simp only [bindArguments]
      split
      · exact ih
      · exact (keeps_storage site _).bind fun _ => (keeps_allocate arg _).bind fun _ =>
          (keeps_emit rfl).bind fun _ => ih

/-- The code of a function with a body.  Behind the storage of its arguments (`start`) its
statements are lowered, and what is put behind them (`stop`) depends on whether they all return. -/
structure BodyCode (site : Site) (id : SymbolId) (block : Block) (signature : Signature)
    (names : List String) (code : List Instruction) (start stop : Frame) : Prop where
  signature_eq : site.symbols.signature id = .ok (signature, names)
  binds : (bindArguments site (site.symbols.arguments id)).run site.frame = .ok ((), start)
  lowers : (Stmt.lowerAll site block.stmts).run start = .ok ((), stop)
  startOpen : start.terminated = false
  /-- Everything that the lowering comes to succeeds, and then the last instruction ends a block
  exactly if the statements return on every way. -/
  agrees : ∀ task frame, Invokes site (.all block.stmts) start task frame →
    ∃ frame', (task.lower site).run frame = .ok ((), frame') ∧
      (frame.terminated = false → frame'.terminated = task.returns)
  /-- A `return` is added if some way has none. -/
  added : (StmtTask.all block.stmts).Way false ∧ code = stop.blocks.top ++ [.ret none] ∨
    ¬ (StmtTask.all block.stmts).Way false ∧ code = stop.blocks.top
  /-- A function with a result returns on every way. -/
  result : signature.returnType.isVoid = false → ¬ (StmtTask.all block.stmts).Way false
  /-- Control does not get to the end of the code. -/
  ends : ∃ i, code.getLast? = some i ∧ i.isTerminator = true

/-- What is put behind the statements of a function. -/
theorem BodyCode.of_finish {site : Site} {id : SymbolId} {block : Block} {signature : Signature}
    {names : List String} {start stop final : Frame}
    (hsignature : site.symbols.signature id = .ok (signature, names))
    (hbinds : (bindArguments site (site.symbols.arguments id)).run site.frame = .ok ((), start))
    (hlowers : (Stmt.lowerAll site block.stmts).run start = .ok ((), stop))
    (hfinish : (do
      if ← terminated then return ()
      else if signature.returnType.isVoid then emit (.ret none)
      else broken (.returns site.function) : Lowering Unit).run stop = .ok ((), final)) :
    BodyCode site id block signature names final.blocks.top start stop := by
  have hopen : start.terminated = false := keeps_bindArguments site _ _ _ _ rfl hbinds
  have hstop : stop.terminated = (StmtTask.all block.stmts).returns :=
    (StmtTask.all block.stmts).ensures_lower site _ _ _ hopen hlowers
  have hagrees : ∀ task frame, Invokes site (.all block.stmts) start task frame →
      ∃ frame', (task.lower site).run frame = .ok ((), frame') ∧
        (frame.terminated = false → frame'.terminated = task.returns) := by
    intro task frame hinvokes
    obtain ⟨frame', hrun⟩ := hinvokes.runs ⟨stop, hlowers⟩
    exact ⟨frame', hrun, fun hframe => task.ensures_lower site _ _ _ hframe hrun⟩
  rw [run_terminated_bind] at hfinish
  have hway : (StmtTask.all block.stmts).Way false ↔ (StmtTask.all block.stmts).returns = false :=
    StmtTask.way_false_iff
  cases hreturns : stop.terminated with
  | true =>
      rw [hreturns] at hfinish
      cases hfinish
      have hnot : ¬ (StmtTask.all block.stmts).Way false := by
        rw [hway, ← hstop, hreturns]
        simp
      exact ⟨hsignature, hbinds, hlowers, hopen, hagrees, .inr ⟨hnot, rfl⟩, fun _ => hnot,
        Frame.exists_terminator hreturns⟩
  | false =>
      rw [hreturns] at hfinish
      cases hvoid : signature.returnType.isVoid with
      | true =>
          simp only [hvoid, Bool.false_eq_true, if_false, if_true] at hfinish
          cases hfinish
          exact ⟨hsignature, hbinds, hlowers, hopen, hagrees,
            .inl ⟨hway.2 (hstop ▸ hreturns), rfl⟩, by simp [hvoid],
            .ret none, stop.blocks.last?_emit _, rfl⟩
      | false =>
          simp only [hvoid, Bool.false_eq_true, if_false] at hfinish
          cases hfinish

/-- **The code of a function that was lowered.** -/
theorem Site.bodyCode_of_lowerFunction {site : Site} {id : SymbolId} {block : Block}
    {i : Instruction} (h : site.lowerFunction id (some block) = .ok i) :
    ∃ signature names code start stop, i = .function site.function signature names code ∧
      BodyCode site id block signature names code start stop := by
  unfold Site.lowerFunction at h
  cases hsignature : site.symbols.signature id with
  | error e => simp [hsignature, bind, Except.bind] at h
  | ok r =>
      obtain ⟨signature, names⟩ := r
      simp only [hsignature, bind, Except.bind] at h
      cases hbody : (Lowering.body site id signature (some block)).run site.frame with
      | error e => simp [hbody] at h
      | ok r =>
          obtain ⟨_, final⟩ := r
          simp only [hbody] at h
          obtain ⟨_, start, hbinds, hrest⟩ := run_bind_eq_ok hbody
          obtain ⟨_, stop, hlowers, hfinish⟩ := run_bind_eq_ok hrest
          have hcode : i = .function site.function signature names final.blocks.top := by
            cases hbelow : final.blocks.below with
            | nil => simpa [BlockStack.finish, hbelow, pure, Except.pure, eq_comm] using h
            | cons list below => simp [BlockStack.finish, hbelow] at h
          exact ⟨signature, names, _, start, stop, hcode,
            .of_finish hsignature hbinds hlowers hfinish⟩

theorem IsCodeOf.bodyCode {ctx : Context} {id : SymbolId} {block : Block} {entry : FunctionEntry}
    {signature : Signature} {region : Region}
    (h : IsCodeOf ctx id (some block) entry signature region) :
    ∃ start stop, BodyCode (.ofFunction ctx id) id block signature
      (ctx.symbols.parameterNames entry) region.code start stop := by
  obtain ⟨_, _, _, start, stop, heq, hbody⟩ := Site.bodyCode_of_lowerFunction h.lowerFunction_eq
  obtain ⟨-, rfl, rfl, rfl⟩ := Instruction.function.inj heq
  exact ⟨start, stop, hbody⟩

/-- **The tree and the code agree about returns.**

* Statements that are begun where control gets to are terminated behind their code exactly if the
  analysis says that they return, at any place of any function.
* Every function with a body has code in the unit of an accepted source.  For all statements of
  it that are lowered the answers agree, a `return` is added at the end exactly if some way
  through the body has none, and a function with a result has no such way.
* The other functions of the unit only return. -/
theorem compile_returns {source : String} {compiled : Compiled}
    (h : compile source = .ok compiled) :
    (∀ site stmts frame frame', terminated.run frame = .ok (false, frame) →
      (Stmt.lowerAll site stmts).run frame = .ok ((), frame') →
      terminated.run frame' = .ok (Stmt.anyReturns stmts, frame')) ∧
    (∃ script, parse source = .ok script ∧
      ∀ decl ∈ script.items.flatMap Item.functions, ∀ block ∈ decl.body.block?,
        ∃ id entry signature names code start stop,
          compiled.context.bindings.symbol? decl.id = some id ∧
          compiled.context.symbols.function? id = some entry ∧
          signature.returnType.isVoid = entry.returnType.isVoid ∧
          .function entry.linkName signature names code ∈ compiled.unit ∧
          BodyCode (.ofFunction compiled.context id) id block signature names code start stop) ∧
    ∀ name signature names code, .function name signature names code ∈ compiled.unit →
      signature.returnType.isVoid = true ∧ code = [.ret none] ∨
        ∃ id block start stop,
          BodyCode (.ofFunction compiled.context id) id block signature names code start stop := by
  obtain ⟨script, haccepted⟩ := accepted_of_compile h
  refine ⟨fun site stmts frame frame' hopen hrun => ?_,
    ⟨script, haccepted.parse_eq, fun decl hdecl block hblock => ?_⟩,
    fun name signature names code hmem => ?_⟩
  · have hframe : frame.terminated = false := by
      rw [run_terminated] at hopen
      simpa using hopen
    rw [run_terminated, (StmtTask.all stmts).ensures_lower site _ _ _ hframe hrun]
    rfl
  · obtain ⟨id, entry, signature, region, hsymbol, hcode, hmem⟩ :=
      haccepted.generates.bodies hdecl block hblock
    obtain ⟨signature', hsignature', -, hvoid, -⟩ :=
      haccepted.complete.lowerable.signature hcode.function?
    cases hcode.signature_eq.symm.trans hsignature'
    obtain ⟨start, stop, hbody⟩ := hcode.bodyCode
    exact ⟨id, entry, signature, _, _, start, stop, hsymbol, hcode.function?, hvoid, hmem, hbody⟩
  · obtain ⟨id, block, entry, _, region, hcode, heq⟩ :=
      haccepted.generates.functions name signature names code hmem
    obtain ⟨-, rfl, rfl, rfl⟩ := Instruction.function.inj heq
    cases block with
    | none =>
        obtain ⟨hvoid⟩ := hcode.body
        exact .inl ⟨hvoid, rfl⟩
    | some block =>
        obtain ⟨start, stop, hbody⟩ := hcode.bodyCode
        exact .inr ⟨id, block, start, stop, hbody⟩

/-- Functions with nested conditional statements: `f` returns on every way, and what is behind is
left out; `g` goes on where `b` does not hold. -/
def returnsSource : String :=
  "class A { int8 f(bool b) { if (b) return 1; else { { return 2; } b = b; } return 3; } } " ++
    "class B { void g(bool b) { if (b) { return; } else b = true; } }"

/-- What is found out about these functions by reading and compiling them. -/
theorem returnsSource_evaluated :
    (match parse returnsSource, compile returnsSource with
      | .ok script, .ok _ => ((script.items.flatMap Item.functions).map fun decl =>
          (decl.name.name, decl.body.block?.map fun block => Stmt.anyReturns block.stmts)) ==
            [("f", some true), ("g", some false)]
      | _, _ => false) = true := by
  decide +kernel

theorem compile_returns_nested : ∃ (compiled : Compiled) (decl : FunctionDecl) (block : Block)
    (id : SymbolId) (signature : Signature) (names : List String) (code : List Instruction)
    (start stop : Frame), compile returnsSource = .ok compiled ∧ decl.name.name = "g" ∧
    decl.body.block? = some block ∧ compiled.context.bindings.symbol? decl.id = some id ∧
    BodyCode (.ofFunction compiled.context id) id block signature names code start stop ∧
    code = stop.blocks.top ++ [.ret none] := by
  have h := returnsSource_evaluated
  split at h
  · next script compiled hparse hcompile =>
      obtain ⟨-, ⟨script', hparse', hdecls⟩, -⟩ := compile_returns hcompile
      cases hparse.symm.trans hparse'
      have hg : ("g", some false) ∈ [("f", some true), ("g", some false)] := by simp
      rw [← beq_iff_eq.1 h] at hg
      obtain ⟨decl, hdecl, heq⟩ := List.mem_map.1 hg
      obtain ⟨hname, hblock⟩ := Prod.mk.inj heq
      obtain ⟨block, hblock, hreturns⟩ := Option.map_eq_some_iff.1 hblock
      have hway : (StmtTask.all block.stmts).Way false := StmtTask.way_false_iff.2 hreturns
      obtain ⟨id, entry, signature, names, code, start, stop, hsymbol, -, -, -, hbody⟩ :=
        hdecls decl hdecl block hblock
      refine ⟨compiled, decl, block, id, signature, names, code, start, stop, hcompile, hname,
        hblock, hsymbol, hbody, ?_⟩
      rcases hbody.added with ⟨-, hcode⟩ | ⟨hnot, -⟩
      · exact hcode
      · exact absurd hway hnot
  · cases h

end ClassLang
