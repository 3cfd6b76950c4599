import ClassLang.Proofs.Order.Sites
import ClassLang.Proofs.Order.Trees

/-!
# The code of the same function in two units

A function is lowered from its tree, and the lowering asks the unit about nodes and symbols of the
function only.  So the code of trees that are paired is the same up to the names of the globals of
string literals: for expressions (`Expr.inStep_lower`), statements (`Stmt.inStep_lower`) and
functions (`Site.Renamed.lowerFunction`).
-/

open List (Forall₂)

namespace ClassLang

open Lowering

variable {σ : String → String} {N : NodeId → NodeId → Prop} {r : SymbolId → SymbolId → Prop}
  {site site' : Site} {n n' : NodeId} {i j : SymbolId}

/-! ## Places -/

namespace Lowering

section

variable (h : site.Renamed σ N r site')

include h

/-- Addresses of fields that are alike are taken in step. -/
theorem inStep_fieldAddress {base base' : Operand} (hbase : base' = base.rename σ)
    (hij : site.symbols.Alike σ r site'.symbols i j) :
    InStep σ r (fieldAddress site base i) (fieldAddress site' base' j)
      fun a b => b = a.rename σ := by
  have hfield := h.ctx.field? hij
  unfold fieldAddress Site.symbols
  cases he : site.ctx.symbols.field? i <;> cases he' : site'.ctx.symbols.field? j <;>
    rw [he, he'] at hfield <;> cases hfield
  · exact inStep_broken _
  · next e e' hentry =>
    dsimp only
    rw [hentry.offset]
    split
    · exact inStep_throw _
    · refine (inStep_storage h hentry.ty).bind fun s s' hs => ?_
      subst hs
      refine (inStep_temp _).bind fun a b hab => ?_
      subst hab hbase
      exact (inStep_emit rfl).bind fun _ _ _ => inStep_pure rfl

/-- A string literal has no address of its own. -/
theorem inStep_symbolAddress (hij : site.symbols.Alike σ r site'.symbols i j) (span span' : Span) :
    InStep σ r (symbolAddress site i span) (symbolAddress site' j span')
      fun a b => b = a.rename σ := by
  unfold symbolAddress Site.symbols
  rcases hij with hij | ⟨e, e', he, -⟩
  · obtain ⟨s, s', hs, hs', hpaired⟩ := h.ctx.table.get? hij (Context.Renamed.shown i)
    rw [hs, hs']
    cases hpaired with
    | argument he =>
        dsimp only
        rw [he.ty.isPointer]
        split
        · exact inStep_broken _
        · exact inStep_current hij _ _
    | localVariable _ => exact inStep_current hij _ _
    | field _ =>
        exact (inStep_receiver h span span').bind
          fun a b hab => inStep_fieldAddress h hab (.inl hij)
    | _ => exact inStep_broken _
  · rw [show site.ctx.symbols.get? i = _ from SymbolTable.literal?_eq_some_iff.1 he]
    exact inStep_broken _

end

end Lowering

/-! ## Expressions -/

section

variable (h : site.Renamed σ N r site')

include h

/-- A literal is lowered in step. -/
theorem Literal.inStep_lower (value : Literal) (hn : N n n') (span span' : Span) :
    InStep σ r (value.lower site n span) (value.lower site' n' span')
      fun a b => b = a.rename σ := by
  cases value with
  | bool b => exact inStep_pure rfl
  | int k =>
      refine (inStep_typeOf h hn span span').bind fun ty ty' hty => ?_
      refine (inStep_storage h hty).bind fun s s' hs => ?_
      subst hs
      exact inStep_pure rfl
  | string text =>
      refine (inStep_symbolOf h hn _ span span').bind fun i j hij => ?_
      have hunique := h.ctx.eq_iff hij
      rcases hij with hij | ⟨e, e', he, he', htext, hname⟩
      · rw [show site.symbols.literal? i = none from h.ctx.table.literal?_left hij]
        exact inStep_broken _
      · rw [he, he']
        refine (inStep_storage h (SymbolTable.SameText.storage htext)).bind fun s s' hs => ?_
        subst hs
        refine (inStep_temp _).bind fun a b hab => ?_
        subst hab
        refine (inStep_emit ?_).bind fun _ _ _ =>
          (inStep_record h.ctx.injective hunique rfl).bind fun _ _ _ => inStep_pure rfl
        rw [hname]
        rfl

/-- Names of nodes that correspond are lowered in step. -/
theorem Ident.inStep_lower (ident ident' : Ident) (hn : N n n') :
    InStep σ r (ident.lower site n) (ident'.lower site' n') fun a b => b = a.rename σ := by
  refine (inStep_symbolOf h hn _ _ _).bind fun i j hij => ?_
  have hload : InStep σ r (do load (← symbolAddress site i ident.span))
      (do load (← symbolAddress site' j ident'.span)) fun a b => b = a.rename σ :=
    (inStep_symbolAddress h hij _ _).bind fun a b hab => inStep_load hab
  rcases hij with hij | ⟨e, e', he, he', -⟩
  · obtain ⟨s, s', hs, hs', hpaired⟩ := h.ctx.table.get? hij (Context.Renamed.shown i)
    rw [show site.symbols.get? i = _ from hs, show site'.symbols.get? j = _ from hs']
    cases hpaired with
    | argument he =>
        dsimp only
        rw [he.ty.isPointer, he.name]
        split
        · refine (inStep_storage h he.ty).bind fun s s' hs => ?_
          subst hs
          exact inStep_pure rfl
        · exact hload
    | _ => exact hload
  · rw [SymbolTable.literal?_eq_some_iff.1 he, SymbolTable.literal?_eq_some_iff.1 he']
    exact hload

/-- Members of objects that are lowered in step are. -/
theorem Ident.inStep_lowerMember (ident ident' : Ident) (hn : N n n') {object object' : Expr}
    (hobject : N object.id object'.id) {value value' address address' : Lowering Operand}
    (hvalue : InStep σ r value value' fun a b => b = a.rename σ)
    (haddress : InStep σ r address address' fun a b => b = a.rename σ) :
    InStep σ r (ident.lowerMember site n object value address)
      (ident'.lowerMember site' n' object' value' address') fun a b => b = a.rename σ := by
  refine (inStep_symbolOf h hn _ _ _).bind fun i j hij => ?_
  refine (inStep_typeOf h hobject _ _).bind fun ty ty' hty => ?_
  dsimp only
  rw [hty.isPointer]
  split
  · exact hvalue.bind fun a b hab => inStep_fieldAddress h hab hij
  · exact haddress.bind fun a b hab => inStep_fieldAddress h hab hij

omit h in
/-- The operands of a `||` or `&&` are lowered in step, and so is the whole. -/
theorem Lowering.inStep_shortCircuit {left left' right right' : Lowering Operand}
    (hleft : InStep σ r left left' fun a b => b = a.rename σ)
    (hright : InStep σ r right right' fun a b => b = a.rename σ) :
    InStep σ r (shortCircuit site left right) (shortCircuit site' left' right')
      fun a b => b = a.rename σ := by
  refine inStep_freshLabel.bind fun start _ hstart => inStep_freshLabel.bind fun rest _ hrest =>
    inStep_freshLabel.bind fun stop _ hstop => ?_
  subst hstart hrest hstop
  refine (inStep_emit rfl).bind fun _ _ _ => (inStep_emit rfl).bind fun _ _ _ => ?_
  refine hleft.bind fun a b hab => (inStep_currentLabel site site').bind fun l _ hl => ?_
  subst hab hl
  refine (inStep_emit rfl).bind fun _ _ _ => (inStep_emit rfl).bind fun _ _ _ => ?_
  refine hright.bind fun a b hab => (inStep_currentLabel site site').bind fun l _ hl => ?_
  subst hab hl
  refine (inStep_emit rfl).bind fun _ _ _ => (inStep_emit rfl).bind fun _ _ _ => ?_
  refine (inStep_temp _).bind fun a b hab => ?_
  subst hab
  exact (inStep_emit rfl).bind fun _ _ _ => inStep_pure rfl

/-- The operands of an operator are lowered in step, and so is the whole. -/
theorem BinaryOp.inStep_lower (op : BinaryOp) (hn : N n n') (span span' : Span)
    {left left' right right' : Lowering Operand}
    (hleft : InStep σ r left left' fun a b => b = a.rename σ)
    (hright : InStep σ r right right' fun a b => b = a.rename σ) :
    InStep σ r (op.lower site n span left right) (op.lower site' n' span' left' right')
      fun a b => b = a.rename σ := by
  cases op with
  | or => exact inStep_shortCircuit hleft hright
  | and | compare op =>
      refine hleft.bind fun a b hab => hright.bind fun a' b' hab' => ?_
      refine (inStep_temp _).bind fun d d' hd => ?_
      subst hab hab' hd
      exact (inStep_emit rfl).bind fun _ _ _ => inStep_pure rfl
  | arith op =>
      refine hleft.bind fun a b hab => hright.bind fun a' b' hab' => ?_
      refine (inStep_typeOf h hn span span').bind fun ty ty' hty => ?_
      refine (inStep_storage h hty).bind fun s s' hs => ?_
      subst hs
      refine (inStep_temp _).bind fun d d' hd => ?_
      subst hab hab' hd
      exact (inStep_emit rfl).bind fun _ _ _ => inStep_pure rfl

/-- Casts between classes that are paired are lowered in step. -/
theorem Lowering.inStep_upcast {receiver receiver' : Operand}
    (hreceiver : receiver' = receiver.rename σ) {actual actual' : Option SymbolId}
    (hactual : Option.Rel r actual actual') {owner owner' : SymbolId} (howner : r owner owner') :
    InStep σ r (upcast site receiver actual owner) (upcast site' receiver' actual' owner')
      fun a b => b = a.rename σ := by
  have hsame : actual' = some owner' ↔ actual = some owner := by
    cases hactual with
    | none => simp
    | some hxy => simpa using Relator.eq_iff_eq h.ctx.unique hxy howner
  unfold upcast
  simp only [hsame]
  split
  · exact inStep_pure hreceiver
  · rw [show site'.symbols.receiverType owner' = site.symbols.receiverType owner from
      h.ctx.table.receiverType howner]
    refine (inStep_temp _).bind fun d d' hd => ?_
    subst hreceiver hd
    exact (inStep_emit rfl).bind fun _ _ _ => inStep_pure rfl

omit h in
/-- What comes behind the receiver of a call: arguments, and the call itself. -/
theorem Lowering.inStep_callWith {self self' : List Operand}
    (hself : self' = self.map (Operand.rename σ)) {name name' : String} (hname : name' = name)
    (signature : Signature) {args args' : Lowering (List Operand)}
    (hargs : InStep σ r args args' fun l l' => l' = l.map (Operand.rename σ)) :
    InStep σ r
      (do
        let values ← args
        let dest ← if signature.returnType.isVoid then pure none
          else some <$> temp signature.returnType
        emit (.call dest name signature (self ++ values))
        return dest)
      (do
        let values ← args'
        let dest ← if signature.returnType.isVoid then pure none
          else some <$> temp signature.returnType
        emit (.call dest name' signature (self' ++ values))
        return dest) fun a b => b = a.map (Operand.rename σ) := by
  refine hargs.bind fun values values' hvalues => ?_
  subst hself hname hvalues
  have hemit : ∀ d d', d' = d.map (Operand.rename σ) → InStep σ r
      (do emit (.call d name' signature (self ++ values)); return d)
      (do
        emit (.call d' name' signature
          (self.map (Operand.rename σ) ++ values.map (Operand.rename σ)))
        return d') fun a b => b = a.map (Operand.rename σ) := by
    intro d d' hd
    subst hd
    refine (inStep_emit ?_).bind fun _ _ _ => inStep_pure rfl
    rw [← List.map_append]
    rfl
  have htemp : InStep σ r (some <$> temp signature.returnType) (some <$> temp signature.returnType)
      fun d d' => d' = d.map (Operand.rename σ) :=
    (inStep_temp _).map fun a b hab => congrArg some hab
  dsimp only
  split
  · exact hemit none none rfl
  · exact htemp.bind hemit

/-- A call is lowered in step where its receiver and its arguments are. -/
theorem Ident.inStep_lowerCall (callee callee' : Ident) (hn : N n n')
    {receiver receiver' : Lowering (Operand × Option SymbolId)}
    (hreceiver : InStep σ r receiver receiver' fun p q =>
      q.1 = p.1.rename σ ∧ Option.Rel r p.2 q.2)
    {args args' : Lowering (List Operand)}
    (hargs : InStep σ r args args' fun l l' => l' = l.map (Operand.rename σ)) :
    InStep σ r (callee.lowerCall site n receiver args) (callee'.lowerCall site' n' receiver' args')
      fun a b => b = a.map (Operand.rename σ) := by
  refine (inStep_symbolOf h hn _ _ _).bind fun i j hij => ?_
  have hfunction := h.ctx.function? hij
  rw [Site.symbols, Site.symbols]
  cases he : site.ctx.symbols.function? i <;> cases he' : site'.ctx.symbols.function? j <;>
    rw [he, he'] at hfunction <;> cases hfunction
  · exact inStep_broken _
  · next e e' hentry =>
    have hij : r i j := hij.of_get? (SymbolTable.function?_eq_some_iff.1 he) rfl
    have hsignature : InStep σ r (liftM (site.ctx.symbols.signature i) : Lowering _)
        (liftM (site'.ctx.symbols.signature j)) fun s s' => s' = s :=
      inStep_lift fun s hs => ⟨s, (h.ctx.table.signature Context.Renamed.shown hij).trans hs, rfl⟩
    refine hsignature.bind fun s s' hs => ?_
    subst hs
    obtain ⟨signature, names⟩ := s'
    have howner := hentry.owner
    dsimp only
    cases ho : e.owner <;> cases ho' : e'.owner <;> rw [ho, ho'] at howner <;> cases howner
    · exact inStep_callWith rfl hentry.linkName signature hargs
    · next hoo =>
      refine hreceiver.bind fun p q hpq => (inStep_upcast h hpq.1 hpq.2 hoo).bind fun a b hab => ?_
      exact inStep_callWith (congrArg (fun x => [x]) hab) hentry.linkName signature hargs

end

/-- Expressions that are paired have numbers that are. -/
theorem Expr.Paired.id {e e' : Expr} (h : e.Paired N e') : N e.id e'.id := by
  cases h <;> assumption

namespace Expr

mutual

/-- **The code of an expression.** -/
theorem inStep_lower (h : site.Renamed σ N r site') : (e e' : Expr) → e.Paired N e' →
    InStep σ r (e.lower site) (e'.lower site') fun a b => b = a.map (Operand.rename σ)
  | .literal n value span, _, he => by
      cases he with
      | literal hn _ _ span' =>
          simp only [lower]
          exact (Literal.inStep_lower h value hn span span').map fun a b hab => congrArg some hab
  | .name n ident, _, he => by
      cases he with
      | @name _ _ _ ident' hn _ =>
          simp only [lower]
          exact (Ident.inStep_lower h ident ident' hn).map fun a b hab => congrArg some hab
  | .binary n op left right span, _, he => by
      cases he with
      | @binary _ _ _ _ left' right' hn _ hleft hright _ span' =>
          simp only [lower]
          have hl := inStep_needed site site' left.span left'.span (inStep_lower h left _ hleft)
          have hr := inStep_needed site site' right.span right'.span (inStep_lower h right _ hright)
          exact (op.inStep_lower h hn span span' hl hr).map fun a b hab => congrArg some hab
  | .assign n target value span, _, he => by
      cases he with
      | assign _ htarget hvalue =>
          simp only [lower]
          refine (inStep_needed site site' _ _ (inStep_lower h value _ hvalue)).bind
            fun a b hab => ?_
          refine (inStep_lowerAddress h target _ htarget).bind fun a' b' hab' => ?_
          subst hab hab'
          exact (inStep_emit rfl).bind fun _ _ _ => inStep_pure rfl
  | .call n callee args span, _, he => by
      cases he with
      | @call _ _ _ callee' _ _ hn _ hargs _ span' =>
          simp only [lower]
          refine Ident.inStep_lowerCall h callee callee' hn ?_ (inStep_lowerAll h args _ hargs)
          exact (inStep_receiver h span span').bind fun a b hab => inStep_pure ⟨hab, h.owner⟩
  | .methodCall n object callee args span, _, he => by
      cases he with
      | @methodCall _ _ _ _ _ callee' _ _ hn hobject _ hargs =>
          simp only [lower]
          refine Ident.inStep_lowerCall h callee callee' hn ?_ (inStep_lowerAll h args _ hargs)
          refine (inStep_typeOf h hobject.id _ _).bind fun ty ty' hty => ?_
          refine (inStep_needed site site' _ _ (inStep_lower h object _ hobject)).bind
            fun a b hab => ?_
          exact inStep_pure ⟨hab, hty.classBehindPointer?⟩
  | .member n object ident span, _, he => by
      cases he with
      | @member _ _ _ object' _ ident' hn hobject =>
          simp only [lower]
          have hvalue := inStep_needed site site' object.span object'.span
            (inStep_lower h object _ hobject)
          refine (Ident.inStep_lowerMember h ident ident' hn hobject.id hvalue
            (inStep_lowerAddress h object _ hobject)).bind fun a b hab => ?_
          exact (inStep_load hab).map fun a b hab => congrArg some hab

/-- The code for the place that an expression names. -/
theorem inStep_lowerAddress (h : site.Renamed σ N r site') : (e e' : Expr) → e.Paired N e' →
    InStep σ r (e.lowerAddress site) (e'.lowerAddress site') fun a b => b = a.rename σ
  | .name n ident, _, he => by
      cases he with
      | name hn _ =>
          simp only [lowerAddress]
          exact (inStep_symbolOf h hn _ _ _).bind fun i j hij => inStep_symbolAddress h hij _ _
  | .member n object ident span, _, he => by
      cases he with
      | @member _ _ _ object' _ ident' hn hobject =>
          simp only [lowerAddress]
          have hvalue := inStep_needed site site' object.span object'.span
            (inStep_lower h object _ hobject)
          exact Ident.inStep_lowerMember h ident ident' hn hobject.id hvalue
            (inStep_lowerAddress h object _ hobject)
  | .literal .., _, _ | .binary .., _, _ | .assign .., _, _ | .call .., _, _
  | .methodCall .., _, _ => by
      simp only [lowerAddress]
      exact inStep_broken _

/-- The code of arguments. -/
theorem inStep_lowerAll (h : site.Renamed σ N r site') : (args args' : List Expr) →
    Forall₂ (Expr.Paired N) args args' → InStep σ r (lowerAll site args) (lowerAll site' args')
      fun l l' => l' = l.map (Operand.rename σ)
  | [], _, hargs => by
      cases hargs
      simp only [lowerAll]
      exact inStep_pure rfl
  | arg :: rest, _, hargs => by
      cases hargs with
      | cons harg hrest =>
          simp only [lowerAll]
          refine (inStep_needed site site' _ _ (inStep_lower h arg _ harg)).bind fun a b hab => ?_
          refine (inStep_lowerAll h rest _ hrest).bind fun l l' hl => inStep_pure ?_
          rw [hab, hl]
          rfl

end

end Expr

/-! ## Statements -/

/-- The code for one side of a conditional statement. -/
theorem Lowering.inStep_side (label continuation : Label) {fill fill' : Lowering Unit}
    (h : InStep σ r fill fill' fun _ _ => True) :
    InStep σ r (side label continuation fill) (side label continuation fill') fun p q =>
      q.1 = p.1 ∧ q.2 = p.2.map (Instruction.rename σ) := by
  refine InStep.collect (Q := fun a b => b = a) ?_
  refine (inStep_emit rfl).bind fun _ _ _ => h.bind fun _ _ _ => ?_
  refine inStep_terminated.bind fun a b hab => ?_
  subst hab
  dsimp only
  split
  · exact (inStep_emit rfl).bind fun _ _ _ => inStep_pure rfl
  · exact inStep_pure rfl

/-- A branch without an alternative is lowered in step where its body is. -/
theorem Lowering.inStep_ifThen {condition condition' : Operand}
    (hcondition : condition' = condition.rename σ) {positive positive' : Lowering Unit}
    (h : InStep σ r positive positive' fun _ _ => True) :
    InStep σ r (Lowering.ifThen condition positive) (Lowering.ifThen condition' positive')
      fun _ _ => True := by
  refine inStep_freshLabel.bind fun onTrue _ htrue =>
    inStep_freshLabel.bind fun onFalse _ hfalse => ?_
  subst htrue hfalse hcondition
  refine (inStep_side _ _ h).bind fun p q hpq => ?_
  refine ((inStep_emit rfl).collect).bind fun p' q' hpq' => (inStep_emit rfl).bind fun _ _ _ => ?_
  exact (inStep_splice hpq.2).bind fun _ _ _ => inStep_splice hpq'.2

/-- A branch with an alternative is lowered in step where both sides are. -/
theorem Lowering.inStep_ifElse {condition condition' : Operand}
    (hcondition : condition' = condition.rename σ)
    {positive positive' negative negative' : Lowering Unit}
    (h : InStep σ r positive positive' fun _ _ => True)
    (hnegative : InStep σ r negative negative' fun _ _ => True) :
    InStep σ r (Lowering.ifElse condition positive negative)
      (Lowering.ifElse condition' positive' negative') fun _ _ => True := by
  refine inStep_freshLabel.bind fun onTrue _ htrue => inStep_freshLabel.bind fun onFalse _ hfalse =>
    inStep_freshLabel.bind fun stop _ hstop => ?_
  subst htrue hfalse hstop hcondition
  refine (inStep_side _ _ h).bind fun p q hpq =>
    (inStep_side _ _ hnegative).bind fun p' q' hpq' => ?_
  refine (inStep_emit rfl).bind fun _ _ _ => (inStep_splice hpq.2).bind fun _ _ _ =>
    (inStep_splice hpq'.2).bind fun _ _ _ => ?_
  rw [hpq.1, hpq'.1]
  split
  · exact inStep_emit rfl
  · exact inStep_pure trivial

/-- Variable declarations that are paired are lowered in step. -/
theorem Lowering.inStep_varDecl (h : site.Renamed σ N r site') (hn : N n n') (name name' : Ident)
    {value value' : Option Expr} (hvalue : Option.Rel (Expr.Paired N) value value') :
    InStep σ r (varDecl site n name value) (varDecl site' n' name' value') fun _ _ => True := by
  refine (inStep_symbolOf h hn _ _ _).bind fun i j hij => ?_
  refine (inStep_storage h (h.ctx.symbolType hij)).bind fun s s' hs => ?_
  subst hs
  refine (inStep_allocate h.ctx.injective (h.ctx.eq_iff hij) s').bind fun slot slot' hslot => ?_
  cases hvalue with
  | none => exact inStep_pure trivial
  | some he =>
      refine (inStep_needed site site' _ _ (Expr.inStep_lower h _ _ he)).bind fun a b hab => ?_
      subst hslot hab
      exact inStep_emit rfl

namespace Stmt

mutual

/-- **The code of a statement.** -/
theorem inStep_lower (h : site.Renamed σ N r site') : (s s' : Stmt) → s.Paired N s' →
    InStep σ r (s.lower site) (s'.lower site') fun _ _ => True
  | .block n stmts span, _, hs => by
      cases hs with
      | block _ hstmts =>
          simp only [lower]
          exact inStep_lowerAll h stmts _ hstmts
  | .varDecl n ty name value span, _, hs => by
      cases hs with
      | varDecl hn _ _ hvalue =>
          simp only [lower]
          exact inStep_varDecl h hn _ _ hvalue
  | .ifThen condition positive span, _, hs => by
      cases hs with
      | ifThen hcondition hpositive =>
          simp only [lower]
          exact (inStep_needed site site' _ _ (Expr.inStep_lower h condition _ hcondition)).bind
            fun a b hab => inStep_ifThen hab (inStep_lower h positive _ hpositive)
  | .ifElse condition positive negative span, _, hs => by
      cases hs with
      | ifElse hcondition hpositive hnegative =>
          simp only [lower]
          exact (inStep_needed site site' _ _ (Expr.inStep_lower h condition _ hcondition)).bind
            fun a b hab => inStep_ifElse hab (inStep_lower h positive _ hpositive)
              (inStep_lower h negative _ hnegative)
  | .ret none span, _, hs => by
      cases hs with
      | ret hvalue =>
          cases hvalue
          simp only [lower]
          exact inStep_emit rfl
  | .ret (some e) span, _, hs => by
      cases hs with
      | ret hvalue =>
          cases hvalue with
          | some he =>
              simp only [lower]
              refine (inStep_needed site site' _ _ (Expr.inStep_lower h e _ he)).bind
                fun a b hab => ?_
              subst hab
              exact inStep_emit rfl
  | .expr e span, _, hs => by
      cases hs with
      | expr he =>
          simp only [lower]
          exact (Expr.inStep_lower h e _ he).bind fun _ _ _ => inStep_pure trivial

/-- The code of statements. -/
theorem inStep_lowerAll (h : site.Renamed σ N r site') : (stmts stmts' : List Stmt) →
    Forall₂ (Stmt.Paired N) stmts stmts' →
    InStep σ r (lowerAll site stmts) (lowerAll site' stmts') fun _ _ => True
  | [], _, hstmts => by
      cases hstmts
      simp only [lowerAll]
      exact inStep_pure trivial
  | s :: rest, _, hstmts => by
      cases hstmts with
      | cons hs hrest =>
          simp only [lowerAll]
          refine inStep_terminated.bind fun a b hab => ?_
          subst hab
          split
          · exact inStep_pure trivial
          · exact (inStep_lower h s _ hs).bind fun _ _ _ => inStep_lowerAll h rest _ hrest

end

end Stmt

/-! ## Functions -/

/-- Storage for arguments. -/
theorem Lowering.inStep_bindArguments (h : site.Renamed σ N r site') {args args' : List SymbolId}
    (hargs : Forall₂ r args args') :
    InStep σ r (bindArguments site args) (bindArguments site' args') fun _ _ => True := by
  induction hargs with
  | nil => exact inStep_pure trivial
  | @cons i j _ _ hij _ ih =>
      have hty := h.ctx.table.symbolType hij (Context.Renamed.shown i)
      have hpointer : (site'.symbols.symbolType j).isPointer =
          (site.symbols.symbolType i).isPointer := hty.isPointer
      have hname : site'.symbols.name j = site.symbols.name i := h.ctx.table.name hij
      simp only [bindArguments]
      rw [hpointer, hname]
      split
      · exact ih
      · refine (inStep_storage h hty).bind fun s s' hs => ?_
        subst hs
        refine (inStep_allocate h.ctx.injective (h.ctx.eq_iff (.inl hij)) s').bind
          fun slot slot' hslot => ?_
        subst hslot
        exact (inStep_emit rfl).bind fun _ _ _ => ih

/-- The code of a body: that of a block, or none. -/
theorem Lowering.inStep_body (h : site.Renamed σ N r site') (hij : r i j) (signature : Signature)
    {block block' : Option Block}
    (hblock : Option.Rel (fun b b' => b.toStmt.Paired N b'.toStmt) block block') :
    InStep σ r (body site i signature block) (body site' j signature block') fun _ _ => True := by
  have hend : InStep σ r
      (do
        if ← terminated then return ()
        else if signature.returnType.isVoid then emit (.ret none)
        else broken (.returns site.function))
      (do
        if ← terminated then return ()
        else if signature.returnType.isVoid then emit (.ret none)
        else broken (.returns site'.function)) fun _ _ => True := by
    refine inStep_terminated.bind fun a b hab => ?_
    subst hab
    split
    · exact inStep_pure trivial
    · split
      · exact inStep_emit rfl
      · exact inStep_broken _
  cases hblock with
  | none => exact hend
  | some hb =>
      have harguments := h.ctx.table.arguments Context.Renamed.shown hij
      refine (inStep_bindArguments h harguments).bind fun _ _ _ => ?_
      cases hb with
      | block _ hstmts => exact (Stmt.inStep_lowerAll h _ _ hstmts).bind fun _ _ _ => hend

/-- Two frames at the start of a function. -/
theorem Frame.paired_start (site site' : Site) : site.frame.Paired σ r site'.frame where
  top := rfl
  below := rfl
  locations _ _ _ := rfl
  counters := rfl
  label := rfl

/-- **The code of the same function** is the same up to the names of the globals of string
literals. -/
theorem Site.Renamed.lowerFunction (h : site.Renamed σ N r site')
    (hfunction : site'.function = site.function) (hij : r i j) {block block' : Option Block}
    (hblock : Option.Rel (fun b b' => b.toStmt.Paired N b'.toStmt) block block') :
    Except.Follows (fun code code' => code' = code.rename σ) (site.lowerFunction i block)
      (site'.lowerFunction j block') := by
  have hsignature : Except.Follows (fun s s' => s' = s) (site.symbols.signature i)
      (site'.symbols.signature j) :=
    fun s hs => ⟨s, (h.ctx.table.signature Context.Renamed.shown hij).trans hs, rfl⟩
  refine hsignature.bind fun s s' hs => ?_
  subst hs
  refine (inStep_body h hij s'.1 hblock _ _ (Frame.paired_start site site')).bind fun p q hpq => ?_
  refine hpq.2.finish.bind fun code code' hcode => Except.follows_ok ?_
  rw [hfunction, hcode, Instruction.rename, Instruction.renameAll_eq_map]

end ClassLang
