import ClassLang.Lower.Stmt
import ClassLang.Resolve.Stmt

/-!
# What the last instruction tells

The lowering of statements asks the list that is being filled whether its last instruction ends
a block, and the analysis asks the tree whether every path returns.  Both give the same answer
(`Stmt.ensures_lowerAll`), for every site and from every frame that can be continued.

Programs that lower something are judged by what they ensure when they succeed
(`Lowering.Ensures`).  Code for an expression always leaves a list that can be continued
(`Expr.keeps_lower`): wherever a block ends in the middle of it, another one is begun.
-/

namespace ClassLang

/-- Whether the last instruction of the list that is being filled ends its block. -/
def Frame.terminated (frame : Frame) : Bool :=
  frame.blocks.last?.any Instruction.isTerminator

/-- The last instruction tells whether the list ends its block. -/
theorem Frame.terminated_eq {frame : Frame} {i : Instruction} (h : frame.blocks.last? = some i) :
    frame.terminated = i.isTerminator := by
  simp [terminated, h]

/-- A list that ends its block has an instruction that does. -/
theorem Frame.exists_terminator {frame : Frame} (h : frame.terminated = true) :
    ∃ i, frame.blocks.last? = some i ∧ i.isTerminator = true := by
  simpa [terminated, Option.any_eq_true] using h

namespace Lowering

variable {α β : Type} {P : Frame → Prop} {Q : α → Frame → Prop} {S : β → Frame → Prop}

/-- That is what the lowering asks for. -/
theorem run_terminated (frame : Frame) : terminated.run frame = .ok (frame.terminated, frame) :=
  rfl

/-- Asking whether the block has ended changes nothing. -/
theorem run_terminated_bind (f : Bool → Lowering β) (frame : Frame) :
    (terminated >>= f).run frame = (f frame.terminated).run frame := rfl

/-- From a frame that satisfies `P` a program leads to a result and a frame that satisfy `Q`, if
it succeeds. -/
def Ensures (P : Frame → Prop) (m : Lowering α) (Q : α → Frame → Prop) : Prop :=
  ∀ frame a frame', P frame → m.run frame = .ok (a, frame') → Q a frame'

/-- A program that is made of two has run if both have. -/
theorem run_bind_eq_ok {m : Lowering α} {f : α → Lowering β} {frame frame'' : Frame} {b : β}
    (h : (m >>= f).run frame = .ok (b, frame'')) :
    ∃ a frame', m.run frame = .ok (a, frame') ∧ (f a).run frame' = .ok (b, frame'') := by
  rw [StateT.run_bind] at h
  cases hm : m.run frame with
  | error e => simp [hm, bind, Except.bind] at h
  | ok r =>
      simp only [hm, bind, Except.bind] at h
      exact ⟨r.1, r.2, rfl, h⟩

/-- Two programs in a row, with what the first one ensures in between. -/
theorem Ensures.bind {m : Lowering α} {f : α → Lowering β} {R : α → Frame → Prop}
    (hm : Ensures P m R) (hf : ∀ a, Ensures (R a) (f a) S) : Ensures P (m >>= f) S := by
  intro frame b frame'' hP hrun
  obtain ⟨a, frame', hfirst, hsecond⟩ := run_bind_eq_ok hrun
  exact hf a frame' b frame'' (hm frame a frame' hP hfirst) hsecond

/-- What does not depend on where a program starts holds behind anything. -/
theorem Ensures.behind (m : Lowering α) {f : α → Lowering β}
    (hf : ∀ a, Ensures (fun _ => True) (f a) S) : Ensures P (m >>= f) S :=
  Ensures.bind (R := fun _ _ => True) (fun _ _ _ _ _ => trivial) hf

/-- Less may be asked for, and more ensured. -/
theorem Ensures.mono {m : Lowering α} {P' : Frame → Prop} {Q' : α → Frame → Prop}
    (h : Ensures P m Q) (hP : ∀ frame, P' frame → P frame)
    (hQ : ∀ a frame, Q a frame → Q' a frame) : Ensures P' m Q' :=
  fun frame a frame' hframe hrun => hQ a frame' (h frame a frame' (hP frame hframe) hrun)

/-- What is known whatever the frame is. -/
theorem Ensures.given {φ : Prop} {m : Lowering α} (h : φ → Ensures P m Q) :
    Ensures (fun frame => φ ∧ P frame) m Q :=
  fun frame a frame' hframe hrun => h hframe.1 frame a frame' hframe.2 hrun

/-- A result leaves the frame as it is. -/
theorem ensures_pure (a : α) (Q : α → Frame → Prop) : Ensures (Q a) (pure a) Q := by
  intro frame b frame' hframe hrun
  cases hrun
  exact hframe

/-- A failure ensures anything. -/
theorem ensures_throw (error : InternalError) : Ensures P (throw error : Lowering α) Q := by
  intro frame a frame' _ hrun
  cases hrun

/-- Asking whether the block has ended tells just that. -/
theorem ensures_terminated :
    Ensures P terminated fun b frame => b = frame.terminated ∧ P frame := by
  intro frame b frame' hframe hrun
  cases hrun
  exact ⟨rfl, hframe⟩

/-- An instruction that was emitted is the last one. -/
theorem ensures_emit (i : Instruction) :
    Ensures P (emit i) fun _ frame => frame.blocks.last? = some i := by
  intro frame a frame' _ hrun
  cases hrun
  exact frame.blocks.last?_emit i

/-- The last one of instructions that are put behind others is the last one. -/
theorem ensures_splice {list : List Instruction} {i : Instruction} (h : list.getLast? = some i) :
    Ensures P (splice list) fun _ frame => frame.blocks.last? = some i := by
  intro frame a frame' _ hrun
  cases hrun
  simp [BlockStack.last?, BlockStack.splice, List.getLast?_append, h]

/-- A list of its own is empty at first, and it is given as it was filled. -/
theorem ensures_collect {fill : Lowering α} {R : α → List Instruction → Prop}
    (h : Ensures (fun frame => frame.terminated = false) fill fun a frame => R a frame.blocks.top) :
    Ensures P (collect fill) fun r _ => R r.1 r.2 := by
  intro frame r frame' _ hrun
  obtain ⟨_, frame₁, hpush, hrun⟩ := run_bind_eq_ok hrun
  cases hpush
  obtain ⟨a, frame₂, hfill, hrun⟩ := run_bind_eq_ok hrun
  have hfilled := h _ a frame₂ rfl hfill
  obtain ⟨_, frame₃, hget, hrun⟩ := run_bind_eq_ok hrun
  cases hget
  obtain ⟨⟨list, blocks⟩, frame₄, hpop, hrun⟩ := run_bind_eq_ok hrun
  have hlist : list = frame₂.blocks.top := by
    cases hbelow : frame₂.blocks.below with
    | nil =>
        simp only [BlockStack.pop, hbelow] at hpop
        cases hpop
    | cons top below =>
        simp only [BlockStack.pop, hbelow] at hpop
        cases hpop
        rfl
  obtain ⟨_, frame₅, hset, hrun⟩ := run_bind_eq_ok hrun
  cases hset
  cases hrun
  exact hlist ▸ hfilled

/-! ## Code that can be continued -/

/-- A program that leaves a list that can be continued, if it found one. -/
def Keeps (m : Lowering α) : Prop :=
  Ensures (fun frame => frame.terminated = false) m fun _ frame => frame.terminated = false

/-- What keeps a list open may be done in a row. -/
theorem Keeps.bind {m : Lowering α} {f : α → Lowering β} (hm : Keeps m) (hf : ∀ a, Keeps (f a)) :
    Keeps (m >>= f) :=
  Ensures.bind hm hf

/-- A result keeps a list open. -/
theorem keeps_pure (a : α) : Keeps (pure a : Lowering α) :=
  ensures_pure a fun _ frame => frame.terminated = false

/-- A failure keeps anything. -/
theorem keeps_throw (error : InternalError) : Keeps (throw error : Lowering α) :=
  ensures_throw error

/-- A broken rule is a failure. -/
theorem keeps_broken (rule : Invariant) : Keeps (broken rule : Lowering α) :=
  ensures_throw _

/-- Another form of a result keeps a list open. -/
theorem Keeps.map {m : Lowering α} (f : α → β) (hm : Keeps m) : Keeps (f <$> m) := by
  rw [map_eq_pure_bind]
  exact hm.bind fun a => keeps_pure (f a)

/-- An instruction that ends no block keeps a list open. -/
theorem keeps_emit {i : Instruction} (h : i.isTerminator = false) : Keeps (emit i) :=
  (ensures_emit i).mono (fun _ h => h) fun _ _ hlast => (Frame.terminated_eq hlast).trans h

/-- A program that gives out numbers or looks something up puts nothing into a list. -/
theorem keeps_of_blocks {m : Lowering α}
    (h : ∀ frame a frame', m.run frame = .ok (a, frame') → frame'.blocks = frame.blocks) :
    Keeps m := by
  intro frame a frame' hopen hrun
  rw [Frame.terminated, h frame a frame' hrun]
  exact hopen

/-- What may fail and does nothing else keeps a list open. -/
theorem keeps_lift (x : Except InternalError α) : Keeps (liftM x : Lowering α) := by
  refine keeps_of_blocks fun frame a frame' hrun => ?_
  cases x <;> cases hrun
  rfl

/-- Reading the frame keeps a list open. -/
theorem keeps_get : Keeps (get : Lowering Frame) :=
  keeps_of_blocks fun _ _ _ hrun => by cases hrun; rfl

/-- A fresh value keeps a list open. -/
theorem keeps_temp (ty : StorageType) : Keeps (temp ty) :=
  keeps_of_blocks fun _ _ _ hrun => by cases hrun; rfl

/-- Noting an address keeps a list open. -/
theorem keeps_record (symbol : SymbolId) (place : Operand) : Keeps (record symbol place) :=
  keeps_of_blocks fun _ _ _ hrun => by cases hrun; rfl

section

variable (site : Site)

/-- Finding how a type is stored keeps a list open. -/
theorem keeps_storage (ty : Ty) : Keeps (storage site ty) := keeps_lift _

/-- Finding a symbol keeps a list open. -/
theorem keeps_symbolOf (node : NodeId) (facet : Facet) (span : Span) :
    Keeps (symbolOf site node facet span) := by
  unfold symbolOf
  split
  · exact keeps_pure _
  · exact keeps_throw _

/-- Finding a type keeps a list open. -/
theorem keeps_typeOf (node : NodeId) (span : Span) : Keeps (typeOf site node span) := by
  unfold typeOf
  split
  · exact keeps_pure _
  · exact keeps_throw _

/-- Finding the receiver keeps a list open. -/
theorem keeps_receiver (span : Span) : Keeps (receiver site span) := by
  unfold receiver
  split
  · exact keeps_pure _
  · exact keeps_throw _

/-- What has to be found keeps a list open if looking for it does. -/
theorem keeps_needed (span : Span) {find : Lowering (Option Operand)} (h : Keeps find) :
    Keeps (needed site span find) := by
  refine h.bind fun operand => ?_
  cases operand with
  | some operand => exact keeps_pure operand
  | none => exact keeps_broken _

/-- A load keeps a list open. -/
theorem keeps_load (address : Operand) : Keeps (load address) := by
  unfold load
  split
  · exact keeps_broken _
  · exact (keeps_temp _).bind fun _ => (keeps_emit rfl).bind fun _ => keeps_pure _

/-- Storage for a variable keeps a list open. -/
theorem keeps_allocate (symbol : SymbolId) (ty : StorageType) : Keeps (allocate symbol ty) :=
  (keeps_temp _).bind fun _ => (keeps_emit rfl).bind fun _ =>
    (keeps_record symbol _).bind fun _ => keeps_pure _

/-- The address of a field keeps a list open. -/
theorem keeps_fieldAddress (base : Operand) (field : SymbolId) :
    Keeps (fieldAddress site base field) := by
  unfold fieldAddress
  split
  · exact keeps_broken _
  · split
    · exact keeps_throw _
    · exact (keeps_storage site _).bind fun _ => (keeps_temp _).bind fun _ =>
        (keeps_emit rfl).bind fun _ => keeps_pure _

/-- The address of a variable keeps a list open. -/
theorem keeps_symbolAddress (id : SymbolId) (span : Span) : Keeps (symbolAddress site id span) := by
  have hcurrent : Keeps (do (← get).addresses.current id site.symbols : Lowering Operand) :=
    keeps_get.bind fun _ => keeps_lift _
  unfold symbolAddress
  split
  · split
    · exact keeps_broken _
    · exact hcurrent
  · exact hcurrent
  · exact (keeps_receiver site span).bind fun _ => keeps_fieldAddress site _ _
  · exact keeps_broken _
  · exact keeps_broken _

/-- The code of `||` ends behind a label, whatever its sides do. -/
theorem keeps_shortCircuit (left right : Lowering Operand) :
    Keeps (shortCircuit site left right) := by
  have hlast : ∀ dest incoming, Ensures (fun _ => True)
      (do emit (.phi dest incoming); return dest) fun _ frame => frame.terminated = false :=
    fun dest incoming => ((ensures_emit (.phi dest incoming)).bind fun _ =>
      ensures_pure dest fun _ frame => frame.blocks.last? = some (.phi dest incoming)).mono
        (fun _ h => h) fun _ _ hlast => Frame.terminated_eq hlast
  unfold shortCircuit
  iterate 14 refine .behind _ fun _ => ?_
  exact hlast _ _

/-- A cast to an ancestor keeps a list open. -/
theorem keeps_upcast (operand : Operand) (actual : Option SymbolId) (owner : SymbolId) :
    Keeps (upcast site operand actual owner) := by
  unfold upcast
  split
  · exact keeps_pure _
  · exact (keeps_temp _).bind fun _ => (keeps_emit rfl).bind fun _ => keeps_pure _

end

end Lowering

open Lowering

section

variable (site : Site)

/-- Code for a literal keeps a list open. -/
theorem Literal.keeps_lower (value : Literal) (id : NodeId) (span : Span) :
    Keeps (value.lower site id span) := by
  cases value with
  | bool b => exact keeps_pure _
  | int n =>
      exact (keeps_typeOf site id span).bind fun _ => (keeps_storage site _).bind fun _ =>
        keeps_pure _
  | string text =>
      refine (keeps_symbolOf site id _ span).bind fun symbol => ?_
      split
      · exact keeps_broken _
      · exact (keeps_storage site _).bind fun _ => (keeps_temp _).bind fun _ =>
          (keeps_emit rfl).bind fun _ => (keeps_record symbol _).bind fun _ => keeps_pure _

/-- Code for a name keeps a list open. -/
theorem Ident.keeps_lower (ident : Ident) (id : NodeId) : Keeps (ident.lower site id) := by
  have hload : ∀ symbol, Keeps (do load (← symbolAddress site symbol ident.span)) := fun symbol =>
    (keeps_symbolAddress site symbol ident.span).bind fun _ => keeps_load _
  refine (keeps_symbolOf site id _ ident.span).bind fun symbol => ?_
  split
  · split
    · exact (keeps_storage site _).bind fun _ => keeps_pure _
    · exact hload symbol
  · exact hload symbol

/-- Code for a member keeps a list open if that for its object does. -/
theorem Ident.keeps_lowerMember (ident : Ident) (id : NodeId) (object : Expr)
    {value address : Lowering Operand} (hvalue : Keeps value) (haddress : Keeps address) :
    Keeps (ident.lowerMember site id object value address) := by
  refine (keeps_symbolOf site id _ ident.span).bind fun field =>
    (keeps_typeOf site object.id object.span).bind fun ty => ?_
  split
  · exact hvalue.bind fun base => keeps_fieldAddress site base field
  · exact haddress.bind fun base => keeps_fieldAddress site base field

/-- Code for an operator keeps a list open if that for its operands does. -/
theorem BinaryOp.keeps_lower (op : BinaryOp) (id : NodeId) (span : Span)
    {left right : Lowering Operand} (hleft : Keeps left) (hright : Keeps right) :
    Keeps (op.lower site id span left right) := by
  cases op with
  | or => exact keeps_shortCircuit site left right
  | and => exact hleft.bind fun _ => hright.bind fun _ => (keeps_temp _).bind fun _ =>
      (keeps_emit rfl).bind fun _ => keeps_pure _
  | arith op => exact hleft.bind fun _ => hright.bind fun _ =>
      (keeps_typeOf site id span).bind fun _ => (keeps_storage site _).bind fun _ =>
      (keeps_temp _).bind fun _ => (keeps_emit rfl).bind fun _ => keeps_pure _
  | compare op => exact hleft.bind fun _ => hright.bind fun _ => (keeps_temp _).bind fun _ =>
      (keeps_emit rfl).bind fun _ => keeps_pure _

/-- Code for a call keeps a list open if that for its parts does. -/
theorem Ident.keeps_lowerCall (callee : Ident) (id : NodeId)
    {receiver : Lowering (Operand × Option SymbolId)} {args : Lowering (List Operand)}
    (hreceiver : Keeps receiver) (hargs : Keeps args) :
    Keeps (callee.lowerCall site id receiver args) := by
  refine (keeps_symbolOf site id _ callee.span).bind fun function => ?_
  split
  · exact keeps_broken _
  · next entry _ =>
      refine (keeps_lift _).bind fun signature => ?_
      have hcall : ∀ dest self values, Keeps (do
          emit (.call dest entry.linkName signature.1 (self ++ values))
          return dest) := fun _ _ _ => (keeps_emit rfl).bind fun _ => keeps_pure _
      have hrest : ∀ self, Keeps (do
          let values ← args
          let dest ← if signature.1.returnType.isVoid then pure none
            else some <$> temp signature.1.returnType
          emit (.call dest entry.linkName signature.1 (self ++ values))
          return dest) := by
        refine fun self => hargs.bind fun values => ?_
        split
        · exact hcall none self values
        · exact ((keeps_temp _).map some).bind fun dest => hcall dest self values
      cases entry.owner with
      | none => exact hrest []
      | some owner =>
          exact hreceiver.bind fun _ => (keeps_upcast site _ _ owner).bind fun self => hrest [self]

mutual

/-- **Code for an expression can be continued.** -/
theorem Expr.keeps_lower (e : Expr) : Keeps (e.lower site) := by
  cases e with
  | literal id value span => exact (value.keeps_lower site id span).map some
  | name id ident => exact (ident.keeps_lower site id).map some
  | binary id op left right span =>
      exact (op.keeps_lower site id span (keeps_needed site _ left.keeps_lower)
        (keeps_needed site _ right.keeps_lower)).map some
  | assign id target value span =>
      exact (keeps_needed site _ value.keeps_lower).bind fun _ =>
        target.keeps_lowerAddress.bind fun _ => (keeps_emit rfl).bind fun _ => keeps_pure _
  | call id callee args span =>
      refine callee.keeps_lowerCall site id ?_ (Expr.keeps_lowerAll args)
      exact (keeps_receiver site span).bind fun _ => keeps_pure _
  | methodCall id object callee args span =>
      refine callee.keeps_lowerCall site id ?_ (Expr.keeps_lowerAll args)
      exact (keeps_typeOf site _ _).bind fun _ =>
        (keeps_needed site _ object.keeps_lower).bind fun _ => keeps_pure _
  | member id object ident span =>
      refine (ident.keeps_lowerMember site id object (keeps_needed site _ object.keeps_lower)
        object.keeps_lowerAddress).bind fun _ => ?_
      exact (keeps_load _).map some

/-- **Code for an address keeps a list open.** -/
theorem Expr.keeps_lowerAddress (e : Expr) : Keeps (e.lowerAddress site) := by
  cases e with
  | name id ident =>
      exact (keeps_symbolOf site id _ _).bind fun _ => keeps_symbolAddress site _ _
  | member id object ident span =>
      exact ident.keeps_lowerMember site id object (keeps_needed site _ object.keeps_lower)
        object.keeps_lowerAddress
  | _ => exact keeps_broken _

/-- Code for arguments keeps a list open. -/
theorem Expr.keeps_lowerAll (args : List Expr) : Keeps (Expr.lowerAll site args) := by
  cases args with
  | nil => exact keeps_pure _
  | cons arg rest =>
      exact (keeps_needed site _ arg.keeps_lower).bind fun _ =>
        (Expr.keeps_lowerAll rest).bind fun _ => keeps_pure _

end

end

/-! ## Statements -/

namespace Lowering

variable {P : Frame → Prop} {site : Site} {label continuation : Label} {returns : Bool}

/-- Code for a declaration keeps a list open. -/
theorem keeps_varDecl (site : Site) (id : NodeId) (name : Ident) (value : Option Expr) :
    Keeps (varDecl site id name value) := by
  refine (keeps_symbolOf site id _ _).bind fun symbol => (keeps_storage site _).bind fun ty =>
    (keeps_allocate symbol ty).bind fun slot => ?_
  cases value with
  | none => exact keeps_pure _
  | some e => exact (keeps_needed site _ (e.keeps_lower site)).bind fun _ => keeps_emit rfl

/-- **One side of a conditional statement** goes on unless it returns, and its list ends with a
terminator either way. -/
theorem ensures_side {fill : Lowering Unit}
    (h : Ensures (fun frame => frame.terminated = false) fill fun _ frame =>
      frame.terminated = returns) :
    Ensures P (side label continuation fill) fun r _ => r.1 = !returns ∧
      ∃ i, r.2.getLast? = some i ∧ i.isTerminator = true := by
  refine ensures_collect (R := fun goesOn list => goesOn = !returns ∧
    ∃ i, list.getLast? = some i ∧ i.isTerminator = true) ?_
  have hlabel : Ensures (fun frame => frame.terminated = false) (emit (.label label))
      fun _ frame => frame.terminated = false := keeps_emit rfl
  refine hlabel.bind fun _ => h.bind fun _ => ensures_terminated.bind fun b => ?_
  rintro frame goesOn frame' ⟨hb, rfl⟩ hrun
  cases b with
  | false =>
      obtain ⟨_, frame₁, hjump, hrun⟩ := run_bind_eq_ok hrun
      have hlast := ensures_emit (P := fun _ => True) _ _ _ _ trivial hjump
      cases hrun
      exact ⟨by rw [← hb], _, hlast, rfl⟩
  | true =>
      cases hrun
      exact ⟨by rw [← hb], Frame.exists_terminator hb.symm⟩

/-- Behind a conditional statement without a second side control goes on. -/
theorem ensures_ifThen (condition : Operand) (positive : Lowering Unit) :
    Ensures P (ifThen condition positive) fun _ frame => frame.terminated = false := by
  refine .behind _ fun onTrue => .behind _ fun onFalse => .behind _ fun first => ?_
  have hsecond : Ensures (fun _ => True) (collect (emit (.label onFalse)))
      fun r _ => r.2.getLast? = some (.label onFalse) ∧ True :=
    (ensures_collect (R := fun _ list => list.getLast? = some (.label onFalse))
      (ensures_emit _)).mono (fun _ h => h) fun _ _ h => ⟨h, trivial⟩
  refine hsecond.bind fun second => .given fun hlast => .behind _ fun _ => .behind _ fun _ => ?_
  exact (ensures_splice hlast).mono (fun _ h => h) fun _ _ hlast => Frame.terminated_eq hlast

/-- Behind a conditional statement with two sides control goes on unless both of them return. -/
theorem ensures_ifElse (condition : Operand) {positive negative : Lowering Unit}
    {returns' : Bool}
    (hpositive : Ensures (fun frame => frame.terminated = false) positive fun _ frame =>
      frame.terminated = returns)
    (hnegative : Ensures (fun frame => frame.terminated = false) negative fun _ frame =>
      frame.terminated = returns') :
    Ensures P (ifElse condition positive negative) fun _ frame =>
      frame.terminated = (returns && returns') := by
  refine .behind _ fun onTrue => .behind _ fun onFalse => .behind _ fun stop => ?_
  refine ((ensures_side hpositive).mono (fun _ h => h) fun _ _ h => ⟨h.1, trivial⟩).bind
    fun first => .given fun hfirst => ?_
  refine ((ensures_side hnegative).mono (fun _ h => h) fun _ _ h => ⟨h, trivial⟩).bind
    fun second => .given fun hsecond => .behind _ fun _ => .behind _ fun _ => ?_
  obtain ⟨hsecond, i, hi, hterminator⟩ := hsecond
  refine (ensures_splice hi).bind fun _ => ?_
  rw [hfirst, hsecond]
  -- The sides meet behind the statement if one of them gets there.
  cases returns <;> cases returns'
  case true.true =>
    exact (ensures_pure () fun _ frame => frame.blocks.last? = some i).mono (fun _ h => h)
      fun _ _ hlast => (Frame.terminated_eq hlast).trans hterminator
  all_goals
    exact (ensures_emit (.label stop)).mono (fun _ h => h)
      fun _ _ hlast => Frame.terminated_eq hlast

end Lowering

mutual

/-- **A statement is terminated if it returns**, and only then. -/
theorem Stmt.ensures_lower (site : Site) (s : Stmt) :
    Ensures (fun frame => frame.terminated = false) (s.lower site) fun _ frame =>
      frame.terminated = s.returns := by
  cases s with
  | block id stmts span => exact Stmt.ensures_lowerAll site stmts false
  | varDecl id ty name value span => exact keeps_varDecl site id name value
  | ifThen condition positive span => exact .behind _ fun operand => ensures_ifThen operand _
  | ifElse condition positive negative span =>
      refine (Ensures.behind _ fun operand => ensures_ifElse operand
        (positive.ensures_lower site) (negative.ensures_lower site)).mono (fun _ h => h) ?_
      intro _ frame h
      rw [h, Stmt.returns, Bool.and_comm]
  | ret value span =>
      cases value with
      | none =>
          exact (ensures_emit _).mono (fun _ h => h) fun _ _ hlast => Frame.terminated_eq hlast
      | some e =>
          exact .behind _ fun operand =>
            (ensures_emit _).mono (fun _ h => h) fun _ _ hlast => Frame.terminated_eq hlast
  | expr e span => exact (e.keeps_lower site).bind fun _ => keeps_pure ()

/-- **Statements are terminated if one of them returns**, whether they were terminated before or
not. -/
theorem Stmt.ensures_lowerAll (site : Site) (stmts : List Stmt) (before : Bool) :
    Ensures (fun frame => frame.terminated = before) (Stmt.lowerAll site stmts) fun _ frame =>
      frame.terminated = (before || Stmt.anyReturns stmts) := by
  cases stmts with
  | nil =>
      exact (ensures_pure () fun _ frame => frame.terminated = before).mono (fun _ h => h)
        fun _ _ h => by simp [h, Stmt.anyReturns]
  | cons s rest =>
      refine ensures_terminated.bind fun b => ?_
      rintro frame a frame' ⟨rfl, hbefore⟩ hrun
      cases hopen : frame.terminated with
      | true =>
          rw [hopen] at hrun hbefore
          cases hrun
          rw [hopen, ← hbefore, Bool.true_or]
      | false =>
          rw [hopen] at hrun hbefore
          have hrest := (s.ensures_lower site).bind fun _ =>
            Stmt.ensures_lowerAll site rest s.returns
          rw [hrest frame a frame' hopen hrun, ← hbefore, Stmt.anyReturns, Bool.false_or]

end

end ClassLang
