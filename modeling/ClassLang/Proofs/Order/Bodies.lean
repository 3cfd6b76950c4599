import ClassLang.Proofs.Order.Declarations

/-!
# Bodies are resolved in step

By the time bodies are resolved all entries are complete, so nothing is hidden any more: names,
members and types are found alike in both contexts, and one lemma for each program carries the
agreement through expressions, statements and functions (`FunctionDecl.inStep_resolveBody`).
-/

open List (Forall₂)

namespace ClassLang

open Analysis

variable {part : Part} {m : Pairing}

/-! ## Checks of types -/

/-- Two names of types are formed in step, whatever they are. -/
theorem inStep_typeName (ty ty' : Ty) :
    InStep part m (typeName ty) (typeName ty') fun _ _ _ => True :=
  inStep_read fun _ _ _ => inStep_pure trivial

/-- Two reports that name types. -/
theorem inStep_mismatchOfTypes {a b a' b' : Ty} {cause cause' : String → String → Mismatch}
    (span span' : Span) :
    InStep part m (do mismatch (cause (← typeName a) (← typeName b)) span)
      (do mismatch (cause' (← typeName a') (← typeName b')) span') fun _ _ _ => True :=
  (inStep_typeName _ _).bind fun _ _ _ _ _ => (inStep_typeName _ _).bind fun _ _ _ _ _ =>
    inStep_mismatch _ _ _ _

/-- Types that belong together are stored or refused alike. -/
theorem inStep_checkAssignable {a b a' b' : Ty} (ha : a.Paired m.symbols a')
    (hb : b.Paired m.symbols b') (span span' : Span) :
    InStep part m (checkAssignable a b span) (checkAssignable a' b' span') fun _ _ _ => True := by
  unfold checkAssignable
  rw [ha.isAssignableTo m.uniqueSymbols hb]
  split
  · exact inStep_pure trivial
  · exact inStep_mismatchOfTypes _ _

/-- Conditions that belong together are accepted or refused alike. -/
theorem inStep_expectBool {a a' : Ty} (ha : a.Paired m.symbols a') (what : String)
    (span span' : Span) :
    InStep part m (expectBool a what span) (expectBool a' what span') fun _ _ _ => True := by
  unfold expectBool
  rw [ha.isBool, ha.isError]
  split
  · exact inStep_pure trivial
  · exact (inStep_typeName _ _).bind fun _ _ _ _ _ => inStep_mismatch _ _ _ _

/-- Integers that belong together have common types that do. -/
theorem inStep_integerPair {a b a' b' : Ty} (ha : a.Paired m.symbols a')
    (hb : b.Paired m.symbols b') (operator : String) (span span' : Span) :
    InStep part m (integerPair a b operator span) (integerPair a' b' operator span')
      fun m' t t' => t.Paired m'.symbols t' := by
  unfold integerPair
  rw [ha.isError, hb.isError, ha.isInteger, ha.beq m.uniqueSymbols hb]
  split
  · exact inStep_pure .error
  · split
    · exact inStep_pure ha
    · exact (inStep_typeName _ _).bind fun _ _ _ _ _ => (inStep_typeName _ _).bind fun _ _ _ _ _ =>
        inStep_mismatch_return _ _ _ _ fun _ _ => .error

/-- Typed searches are in step where the searches are. -/
theorem inStep_typed {n n' : NodeId} (hn : part.nodes n n') {find find' : Analysis Ty}
    (h : InStep part m find find' fun m' t t' => t.Paired m'.symbols t') :
    InStep part m (typed n find) (typed n' find') fun m' t t' => t.Paired m'.symbols t' :=
  h.bind fun _ _ _ _ ht => (inStep_bindType hn ht).bind fun _ _ _ hle _ =>
    inStep_pure (ht.imp fun _ _ => hle.symbols)

/-! ## Names and members -/

section

variable (hshown : ∀ i, ¬ part.hidden i)

/-- An expected type, if there is one. -/
abbrev Expected (m : Pairing) : Option Ty → Option Ty → Prop := Option.Rel (Ty.Paired m.symbols)

/-- A literal has types that belong together where the expected ones do. -/
theorem Literal.inStep_resolve (value : Literal) (span span' : Span)
    {expected expected' : Option Ty} (h : Expected m expected expected') :
    InStep part m (value.resolve span expected) (value.resolve span' expected')
      fun m' t t' => t.Paired m'.symbols t' := by
  have hliteral : Ty.ofLiteral expected' = Ty.ofLiteral expected := by
    cases h with
    | none => rfl
    | some ht => simp only [Ty.ofLiteral, Option.bind_some, ht.primitive?]
  unfold Literal.resolve
  rw [hliteral]
  split
  · exact inStep_pure (.primitive _)
  · exact inStep_pure (.pointer (.primitive _))
  · dsimp only
    split
    · exact inStep_pure (.primitive _)
    · exact inStep_mismatch_return _ _ _ _ fun _ _ => .primitive _

include hshown in
/-- A name has types that belong together in scopes that do. -/
theorem Ident.inStep_resolveValue {ident ident' : Ident} (hname : ident'.name = ident.name)
    {n n' : NodeId} (hn : part.nodes n n') {s s' : ScopeId} (hs : m.scopes s s') :
    InStep part m (ident.resolveValue n s) (ident'.resolveValue n' s')
      fun m' t t' => t.Paired m'.symbols t' := by
  refine inStep_read fun c c' hpaired => ?_
  have hlookup := hpaired.lookupName? hshown hs ident.name
  rw [hname]
  cases hx : c.lookupName? s ident.name <;> cases hx' : c'.lookupName? s' ident.name <;>
    rw [hx, hx'] at hlookup <;> cases hlookup
  · exact inStep_report_return _ _ fun _ _ => .error
  · next i j hij =>
    have htype := hpaired.table.symbolType hij (hshown i)
    obtain ⟨x, x', hget, hget', hsymbol⟩ := hpaired.table.get? hij (hshown i)
    have hbind : InStep part m (do bindSymbol n i; return c.symbols.symbolType i)
        (do bindSymbol n' j; return c'.symbols.symbolType j)
        fun m' t t' => t.Paired m'.symbols t' :=
      (inStep_bindSymbol hn hij (hshown i)).bind fun _ _ _ hle _ =>
        inStep_pure (htype.imp fun _ _ => hle.symbols)
    simp only [hget, hget']
    cases hsymbol with
    | argument | localVariable | field => exact hbind
    | _ => exact inStep_mismatch_return _ _ _ _ fun _ _ => .error

include hshown in
/-- Types that belong together have members that do. -/
theorem SymbolTable.Paired.memberOf? {t t' : SymbolTable}
    (h : SymbolTable.Paired part.hidden m.symbols t t') {a a' : Ty} (ha : a.Paired m.symbols a')
    (name : String) :
    Option.Rel (Option.Rel m.symbols) (t.memberOf? a name) (t'.memberOf? a' name) := by
  have hobject : (a.pointee?.getD a).Paired m.symbols (a'.pointee?.getD a') := by
    have hpointee := ha.pointee?
    cases hp : a.pointee? <;> cases hp' : a'.pointee? <;> rw [hp, hp'] at hpointee <;>
      cases hpointee
    · exact ha
    · assumption
  unfold SymbolTable.memberOf?
  revert hobject
  generalize a.pointee?.getD a = object
  generalize a'.pointee?.getD a' = object'
  intro hobject
  cases hobject with
  | classType hij => exact .some (h.member? m.uniqueSymbols hshown hij name)
  | structType hij => exact .some (h.structField? hij (hshown _) name)
  | _ => exact .none

include hshown in
/-- A member has types that belong together in objects that do. -/
theorem Ident.inStep_resolveMember {ident ident' : Ident} (hname : ident'.name = ident.name)
    {n n' : NodeId} (hn : part.nodes n n') {a a' : Ty} (ha : a.Paired m.symbols a') (isPlace : Bool)
    (objectSpan objectSpan' span span' : Span) :
    InStep part m (ident.resolveMember n a isPlace objectSpan span)
      (ident'.resolveMember n' a' isPlace objectSpan' span')
      fun m' t t' => t.Paired m'.symbols t' := by
  unfold Ident.resolveMember
  rw [ha.isError, ha.isPointer, hname]
  split
  · exact inStep_pure .error
  · split
    · exact inStep_mismatch_return _ _ _ _ fun _ _ => .error
    · refine inStep_read fun c c' hpaired => ?_
      have hmember := hpaired.table.memberOf? hshown ha ident.name
      dsimp only
      cases hx : c.symbols.memberOf? a ident.name <;>
        cases hx' : c'.symbols.memberOf? a' ident.name <;> rw [hx, hx'] at hmember <;> cases hmember
      · exact (inStep_typeName _ _).bind fun _ _ _ _ _ =>
          inStep_mismatch_return _ _ _ _ fun _ _ => .error
      · next o o' ho =>
        cases ho with
        | none => exact inStep_report_return _ _ fun _ _ => .error
        | @some i j hij =>
          have htype := hpaired.table.symbolType hij (hshown i)
          have hfield := hpaired.table.field? hij (hshown i)
          dsimp only
          cases hf : c.symbols.field? i <;> cases hf' : c'.symbols.field? j <;>
            rw [hf, hf'] at hfield <;> cases hfield
          · exact inStep_mismatch_return _ _ _ _ fun _ _ => .error
          · exact (inStep_bindSymbol hn hij (hshown i)).bind fun _ _ _ hle _ =>
              inStep_pure (htype.imp fun _ _ => hle.symbols)

/-! ## Calls -/

include hshown in
/-- Callees that belong together have signatures that do. -/
theorem Ident.inStep_resolveCallee (ident ident' : Ident) {target target' : Option SymbolId}
    (h : Option.Rel m.symbols target target') :
    InStep part m (ident.resolveCallee target) (ident'.resolveCallee target')
      fun m' => Option.Rel fun x y => m'.symbols x.1 y.1 ∧ x.2.Paired m'.symbols y.2 := by
  refine inStep_read fun c c' hpaired => ?_
  cases h with
  | none => exact inStep_report_return _ _ fun _ _ => .none
  | @some i j hij =>
      have hfunction := hpaired.table.function? hij (hshown i)
      dsimp only
      cases hf : c.symbols.function? i <;> cases hf' : c'.symbols.function? j <;>
        rw [hf, hf'] at hfunction <;> cases hfunction
      · exact inStep_mismatch_return _ _ _ _ fun _ _ => .none
      · exact inStep_pure (.some ⟨hij, ‹_›⟩)

/-- The number of arguments is accepted or refused alike. -/
theorem FunctionEntry.inStep_checkCount {e e' : FunctionEntry} (h : e.Paired m.symbols e')
    (expected given : Nat) (span span' : Span) :
    InStep part m (e.checkCount expected given span) (e'.checkCount expected given span')
      fun _ _ _ => True := by
  unfold FunctionEntry.checkCount
  rw [h.traits]
  dsimp only
  split
  · split
    · exact inStep_pure trivial
    · exact inStep_mismatch _ _ _ _
  · split
    · exact inStep_pure trivial
    · exact inStep_mismatch _ _ _ _

/-- The mark for further arguments is left out of both lists. -/
theorem SymbolTable.Paired.declaredArguments {hidden : SymbolId → Prop}
    {r : SymbolId → SymbolId → Prop} {t t' : SymbolTable} (h : SymbolTable.Paired hidden r t t')
    {e e' : FunctionEntry} (he : e.Paired r e') :
    Forall₂ r (t.declaredArguments e) (t'.declaredArguments e') := by
  refine List.rel_filter (fun i j hij => ?_) he.arguments
  obtain ⟨x, x', hget, hget', hakin, -⟩ := h i j hij
  have hsame : (t'.get? j != some .variadicMarker) = (t.get? i != some .variadicMarker) := by
    rw [hget, hget', Bool.eq_iff_iff, bne_iff_ne, bne_iff_ne]
    cases hakin <;> simp
  exact iff_of_eq (congrArg (· = true) hsame.symm)

include hshown in
/-- Calls of callees that belong together go on alike. -/
theorem Ident.inStep_resolveCall (ident ident' : Ident) {n n' : NodeId} (hn : part.nodes n n')
    {target target' : Option SymbolId} (h : Option.Rel m.symbols target target')
    {given given' : Nat} (hgiven : given' = given)
    (span span' : Span) :
    InStep part m (ident.resolveCall n target given span)
      (ident'.resolveCall n' target' given' span')
      fun m' => Option.Rel fun x y =>
        Forall₂ (Ty.Paired m'.symbols) x.1 y.1 ∧ x.2.Paired m'.symbols y.2 := by
  subst hgiven
  refine (inStep_resolveCallee hshown ident ident' h).bind fun m₁ found found' h₁ hfound => ?_
  cases hfound with
  | none => exact inStep_pure .none
  | @some x y hxy =>
      obtain ⟨i, e⟩ := x
      obtain ⟨j, e'⟩ := y
      obtain ⟨hij, he⟩ := hxy
      refine (inStep_bindSymbol hn hij (hshown i)).bind fun m₂ _ _ h₂ _ => ?_
      refine inStep_read fun c c' hpaired => ?_
      have he₂ : e.Paired m₂.symbols e' := by
        have := (Symbol.Paired.function he).imp fun _ _ => h₂.symbols
        cases this
        assumption
      have hparams : Forall₂ (Ty.Paired m₂.symbols)
          ((c.symbols.declaredArguments e).map c.symbols.symbolType)
          ((c'.symbols.declaredArguments e').map c'.symbols.symbolType) :=
        List.rel_map (fun i j hij => hpaired.table.symbolType hij (hshown i))
          (hpaired.table.declaredArguments he₂)
      dsimp only
      rw [← hparams.length_eq]
      refine (FunctionEntry.inStep_checkCount he₂ _ _ _ _).bind fun m₃ _ _ h₃ _ => ?_
      exact inStep_pure (.some ⟨hparams.imp fun _ _ ht => ht.imp fun _ _ => h₃.symbols,
        he₂.returnType.imp fun _ _ => h₃.symbols⟩)

include hshown in
/-- Receivers that belong together have methods that do. -/
theorem Ident.inStep_resolveMethod {ident ident' : Ident} (hname : ident'.name = ident.name)
    {a a' : Ty} (ha : a.Paired m.symbols a') :
    InStep part m (ident.resolveMethod a) (ident'.resolveMethod a')
      fun m' => Option.Rel (Option.Rel m'.symbols) := by
  unfold Ident.resolveMethod
  rw [ha.isError, hname]
  split
  · exact inStep_pure .none
  · refine inStep_read fun c c' hpaired => ?_
    have hclass : Option.Rel m.symbols
        (a.classBehindPointer?.filter fun id => (c.symbols.class? id).isSome)
        (a'.classBehindPointer?.filter fun id => (c'.symbols.class? id).isSome) := by
      have hbehind := ha.classBehindPointer?
      cases hx : a.classBehindPointer? <;> cases hx' : a'.classBehindPointer? <;>
        rw [hx, hx'] at hbehind <;> cases hbehind
      · exact .none
      · next i j hij =>
        simp only [Option.filter, hpaired.table.isSome_class? hij]
        split
        · exact .some hij
        · exact .none
    dsimp only
    revert hclass
    generalize a.classBehindPointer?.filter _ = o
    generalize a'.classBehindPointer?.filter _ = o'
    intro hclass
    cases hclass with
    | none => exact (inStep_typeName _ _).bind fun _ _ _ _ _ =>
        inStep_mismatch_return _ _ _ _ fun _ _ => .none
    | some hij =>
        exact inStep_pure (.some (hpaired.table.member? m.uniqueSymbols hshown hij ident.name))

/-! ## Expressions -/

namespace Expr

/-- Expressions that belong together are both literals or neither is. -/
theorem Paired.isIntLiteral {N : NodeId → NodeId → Prop} {e e' : Expr} (h : e.Paired N e') :
    e'.isIntLiteral = e.isIntLiteral := by
  cases h with
  | literal _ value => cases value <;> rfl
  | _ => rfl

/-- Expressions that belong together are both places or neither is. -/
theorem Paired.isPlace {N : NodeId → NodeId → Prop} {e e' : Expr} (h : e.Paired N e') :
    e'.isPlace = e.isPlace := by
  cases h <;> rfl

/-- Targets that belong together are accepted or refused alike. -/
theorem inStep_checkTarget {e e' : Expr} (h : e.Paired part.nodes e') {t t' : Ty}
    (ht : t.Paired m.symbols t') :
    InStep part m (e.checkTarget t) (e'.checkTarget t') fun _ _ _ => True := by
  cases h with
  | name hn hname =>
      next n n' ident ident' =>
      refine inStep_read fun c c' hpaired => ?_
      have hargument : ((c'.bindings.symbol? n').bind c'.symbols.get?).any Symbol.isArgument =
          ((c.bindings.symbol? n).bind c.symbols.get?).any Symbol.isArgument := by
        have hsymbol := hpaired.symbol? n n' hn
        cases hx : c.bindings.symbol? n <;> cases hx' : c'.bindings.symbol? n' <;>
          rw [hx, hx'] at hsymbol <;> cases hsymbol
        · rfl
        · next i j hij =>
          obtain ⟨x, x', hget, hget', hakin, -⟩ := hpaired.table i j hij.1
          simp only [Option.bind_some, hget, hget', Option.any_some]
          cases hakin <;> rfl
      dsimp only
      rw [hargument, ht.isPointer]
      split
      · exact inStep_mismatch _ _ _ _
      · exact inStep_pure trivial
  | _ => exact inStep_pure trivial

/-- Operands are expected alike where the operation is. -/
theorem expected_operandHint (op : BinaryOp) {expected expected' : Option Ty}
    (h : Expected m expected expected') :
    Expected m (operandHint op expected) (operandHint op expected') := by
  cases op with
  | or | and => exact .some (.primitive _)
  | arith => exact h
  | compare => exact .none

/-- Operands that belong together are accepted or refused alike, with results that
belong together. -/
theorem inStep_checkOperator (op : BinaryOp) {a b a' b' : Ty} (ha : a.Paired m.symbols a')
    (hb : b.Paired m.symbols b') (left left' right right' span span' : Span) :
    InStep part m (checkOperator op a b left right span) (checkOperator op a' b' left' right' span')
      fun m' t t' => t.Paired m'.symbols t' := by
  cases op with
  | or | and =>
      exact (inStep_expectBool ha _ _ _).bind fun m₁ _ _ h₁ _ =>
        (inStep_expectBool (hb.imp fun _ _ => h₁.symbols) _ _ _).bind fun _ _ _ _ _ =>
          inStep_pure (.primitive _)
  | arith op => exact inStep_integerPair ha hb _ _ _
  | compare op =>
      exact (inStep_integerPair ha hb _ _ _).bind fun _ _ _ _ _ => inStep_pure (.primitive _)

/-! ### One kind of expression at a time -/

/-- In scopes that belong together, and with expected types that do, two expressions are resolved
alike. -/
def ResolvesInStep (part : Part) (e e' : Expr) : Prop :=
  ∀ ⦃m : Pairing⦄ ⦃s s' : ScopeId⦄, m.scopes s s' →
    ∀ ⦃expected expected' : Option Ty⦄, Expected m expected expected' →
      InStep part m (e.resolve s expected) (e'.resolve s' expected')
        fun m' t t' => t.Paired m'.symbols t'

/-- In scopes that belong together, two lists of arguments are resolved alike, with the types of
parameters that belong together and without any. -/
structure ArgumentsInStep (part : Part) (args args' : List Expr) : Prop where
  all : ∀ ⦃m : Pairing⦄ ⦃s s' : ScopeId⦄, m.scopes s s' →
    InStep part m (resolveAll s args) (resolveAll s' args') fun _ _ _ => True
  fitted : ∀ ⦃m : Pairing⦄ ⦃s s' : ScopeId⦄, m.scopes s s' →
    ∀ ⦃params params' : List Ty⦄, Forall₂ (Ty.Paired m.symbols) params params' →
      InStep part m (resolveArguments s params args) (resolveArguments s' params' args')
        fun _ _ _ => True

/-- The arguments of a call, once its target has been looked up. -/
theorem ArgumentsInStep.behind {args args' : List Expr} (hargs : ArgumentsInStep part args args')
    {s s' : ScopeId} (hs : m.scopes s s') {found found' : Option (List Ty × Ty)}
    (hfound : Option.Rel (fun x y => Forall₂ (Ty.Paired m.symbols) x.1 y.1 ∧
      x.2.Paired m.symbols y.2) found found') :
    InStep part m
      (match found with
        | some (params, result) => do resolveArguments s params args; return result
        | none => do resolveAll s args; return Ty.error)
      (match found' with
        | some (params, result) => do resolveArguments s' params args'; return result
        | none => do resolveAll s' args'; return Ty.error)
      fun m' t t' => t.Paired m'.symbols t' := by
  cases hfound with
  | none => exact (hargs.all hs).bind fun _ _ _ _ _ => inStep_pure .error
  | some hfound =>
      exact (hargs.fitted hs hfound.1).bind fun m₂ _ _ h₂ _ =>
        inStep_pure (hfound.2.imp fun _ _ => h₂.symbols)

/-- The sides of an operator are resolved in the same order. -/
theorem inStep_binary {n n' : NodeId} (hn : part.nodes n n') (op : BinaryOp)
    {left left' right right' : Expr} (hleft : left.Paired part.nodes left')
    (hright : right.Paired part.nodes right') (ih₁ : ResolvesInStep part left left')
    (ih₂ : ResolvesInStep part right right') (span span' : Span) :
    ResolvesInStep part (.binary n op left right span) (.binary n' op left' right' span') := by
  intro m s s' hs expected expected' hexpected
  have hhint := expected_operandHint op hexpected
  have horder : (left'.isIntLiteral && !right'.isIntLiteral) =
      (left.isIntLiteral && !right.isIntLiteral) := by
    rw [hleft.isIntLiteral, hright.isIntLiteral]
  cases hswapped : left.isIntLiteral && !right.isIntLiteral with
  | true =>
      rw [resolve_binary_swapped hswapped, resolve_binary_swapped (horder.trans hswapped)]
      refine inStep_typed hn ((ih₂ hs hhint).bind fun m₁ b b' h₁ hb => ?_)
      refine (ih₁ (h₁.scopes hs) (.some hb)).bind fun m₂ a a' h₂ ha => ?_
      exact inStep_checkOperator op ha (hb.imp fun _ _ => h₂.symbols) _ _ _ _ _ _
  | false =>
      rw [resolve_binary hswapped, resolve_binary (horder.trans hswapped)]
      refine inStep_typed hn ((ih₁ hs hhint).bind fun m₁ a a' h₁ ha => ?_)
      refine (ih₂ (h₁.scopes hs) (.some ha)).bind fun m₂ b b' h₂ hb => ?_
      exact inStep_checkOperator op (ha.imp fun _ _ => h₂.symbols) hb _ _ _ _ _ _

/-- The value of an assignment is expected to have the type of its target. -/
theorem inStep_assign {n n' : NodeId} (hn : part.nodes n n') {target target' value value' : Expr}
    (htarget : target.Paired part.nodes target') (ih₁ : ResolvesInStep part target target')
    (ih₂ : ResolvesInStep part value value') (span span' : Span) :
    ResolvesInStep part (.assign n target value span) (.assign n' target' value' span') := by
  intro m s s' hs expected expected' hexpected
  simp only [resolve]
  refine inStep_typed hn ((ih₁ hs .none).bind fun m₁ t t' h₁ ht => ?_)
  refine (inStep_checkTarget htarget ht).bind fun m₂ _ _ h₂ _ => ?_
  have ht₂ := ht.imp fun _ _ => h₂.symbols
  refine (ih₂ ((h₁.trans h₂).scopes hs) (.some ht₂)).bind fun m₃ v v' h₃ hv => ?_
  exact (inStep_checkAssignable hv (ht₂.imp fun _ _ => h₃.symbols) _ _).bind
    fun _ _ _ _ _ => inStep_pure (.primitive _)

section

variable (hshown : ∀ i, ¬ part.hidden i)

include hshown

/-- The callee of a call is found from scopes that belong together. -/
theorem inStep_call {n n' : NodeId} (hn : part.nodes n n') {callee callee' : Ident}
    (hname : callee'.name = callee.name) {args args' : List Expr}
    (hlength : args'.length = args.length) (ih : ArgumentsInStep part args args')
    (span span' : Span) :
    ResolvesInStep part (.call n callee args span) (.call n' callee' args' span') := by
  intro m s s' hs expected expected' hexpected
  simp only [resolve]
  refine inStep_typed hn (inStep_read fun c c' hpaired => ?_)
  rw [hname]
  refine (Ident.inStep_resolveCall hshown callee callee' hn
    (hpaired.lookupName? hshown hs callee.name) hlength span span').bind
    fun m₁ found found' h₁ hfound => ?_
  exact ih.behind (h₁.scopes hs) hfound

/-- The callee of a method call is found from receivers whose types belong together. -/
theorem inStep_methodCall {n n' : NodeId} (hn : part.nodes n n') {receiver receiver' : Expr}
    {callee callee' : Ident} (hname : callee'.name = callee.name) {args args' : List Expr}
    (hlength : args'.length = args.length) (ih₁ : ResolvesInStep part receiver receiver')
    (ih₂ : ArgumentsInStep part args args') (span span' : Span) :
    ResolvesInStep part (.methodCall n receiver callee args span)
      (.methodCall n' receiver' callee' args' span') := by
  intro m s s' hs expected expected' hexpected
  simp only [resolve]
  refine inStep_typed hn ((ih₁ hs .none).bind fun m₁ t t' h₁ ht => ?_)
  refine (Ident.inStep_resolveMethod hshown hname ht).bind fun m₂ o o' h₂ ho => ?_
  have hs₂ := (h₁.trans h₂).scopes hs
  cases ho with
  | none => exact (ih₂.all hs₂).bind fun _ _ _ _ _ => inStep_pure .error
  | some htarget =>
      refine (Ident.inStep_resolveCall hshown callee callee' hn htarget hlength span span').bind
        fun m₃ found found' h₃ hfound => ?_
      exact ih₂.behind (h₃.scopes hs₂) hfound

end

mutual

/-- **Two expressions that are the same are resolved alike.** -/
theorem inStep_resolve (hshown : ∀ i, ¬ part.hidden i) :
    (e e' : Expr) → e.Paired part.nodes e' → ResolvesInStep part e e'
  | .literal n value span, _, h => by
      cases h with
      | literal hn =>
          intro m s s' hs expected expected' hexpected
          simp only [resolve]
          exact inStep_typed hn (value.inStep_resolve _ _ hexpected)
  | .name n ident, _, h => by
      cases h with
      | name hn hname =>
          intro m s s' hs expected expected' hexpected
          simp only [resolve]
          exact inStep_typed hn (Ident.inStep_resolveValue hshown hname hn hs)
  | .binary n op left right span, _, h => by
      cases h with
      | binary hn _ hleft hright =>
          exact inStep_binary hn op hleft hright (inStep_resolve hshown left _ hleft)
            (inStep_resolve hshown right _ hright) _ _
  | .assign n target value span, _, h => by
      cases h with
      | assign hn htarget hvalue =>
          exact inStep_assign hn htarget (inStep_resolve hshown target _ htarget)
            (inStep_resolve hshown value _ hvalue) _ _
  | .call n callee args span, _, h => by
      cases h with
      | call hn hname hargs =>
          exact inStep_call hshown hn hname hargs.length_eq.symm
            ⟨inStep_resolveAll hshown args _ hargs, inStep_resolveArguments hshown args _ hargs⟩ _ _
  | .methodCall n receiver callee args span, _, h => by
      cases h with
      | methodCall hn hreceiver hname hargs =>
          exact inStep_methodCall hshown hn hname hargs.length_eq.symm
            (inStep_resolve hshown receiver _ hreceiver)
            ⟨inStep_resolveAll hshown args _ hargs, inStep_resolveArguments hshown args _ hargs⟩ _ _
  | .member n object ident span, _, h => by
      cases h with
      | member hn hobject hname =>
          intro m s s' hs expected expected' hexpected
          simp only [resolve]
          refine inStep_typed hn ((inStep_resolve hshown object _ hobject hs .none).bind
            fun m₁ t t' h₁ ht => ?_)
          rw [hobject.isPlace]
          exact Ident.inStep_resolveMember hshown hname hn ht _ _ _ _ _

/-- Arguments that belong together are resolved in step without parameters. -/
theorem inStep_resolveAll (hshown : ∀ i, ¬ part.hidden i) :
    (args args' : List Expr) → Forall₂ (Expr.Paired part.nodes) args args' →
    ∀ ⦃m : Pairing⦄ ⦃s s' : ScopeId⦄, m.scopes s s' →
      InStep part m (resolveAll s args) (resolveAll s' args') fun _ _ _ => True
  | [], _, h => by
      cases h
      exact fun _ _ _ _ => inStep_pure trivial
  | arg :: rest, _, h => by
      cases h with
      | cons harg hrest =>
          intro m s s' hs
          simp only [resolveAll]
          exact (inStep_resolve hshown arg _ harg hs .none).bind fun m₁ _ _ h₁ _ =>
            inStep_resolveAll hshown rest _ hrest (h₁.scopes hs)

/-- Arguments that belong together are resolved in step with parameters that do. -/
theorem inStep_resolveArguments (hshown : ∀ i, ¬ part.hidden i) :
    (args args' : List Expr) → Forall₂ (Expr.Paired part.nodes) args args' →
    ∀ ⦃m : Pairing⦄ ⦃s s' : ScopeId⦄, m.scopes s s' → ∀ ⦃params params' : List Ty⦄,
      Forall₂ (Ty.Paired m.symbols) params params' →
      InStep part m (resolveArguments s params args) (resolveArguments s' params' args')
        fun _ _ _ => True
  | [], _, h => by
      cases h
      intro m s s' hs params params' hparams
      simp only [resolveArguments]
      exact inStep_pure trivial
  | arg :: rest, _, h => by
      cases h with
      | cons harg hrest =>
          intro m s s' hs params params' hparams
          cases hparams with
          | nil =>
              simp only [resolveArguments]
              refine (inStep_resolve hshown arg _ harg hs .none).bind fun m₁ t t' h₁ ht => ?_
              rw [ht.isVoid]
              split
              · exact (inStep_mismatch _ _ _ _).bind fun m₂ _ _ h₂ _ =>
                  inStep_resolveArguments hshown rest _ hrest ((h₁.trans h₂).scopes hs) .nil
              · exact inStep_resolveArguments hshown rest _ hrest (h₁.scopes hs) .nil
          | cons hparam hparams =>
              simp only [resolveArguments]
              refine (inStep_resolve hshown arg _ harg hs (.some hparam)).bind
                fun m₁ t t' h₁ ht => ?_
              refine (inStep_checkAssignable ht (hparam.imp fun _ _ => h₁.symbols) _ _).bind
                fun m₂ _ _ h₂ _ => ?_
              have h := h₁.trans h₂
              exact inStep_resolveArguments hshown rest _ hrest (h.scopes hs)
                (hparams.imp fun _ _ ht => ht.imp fun _ _ => h.symbols)

end

end Expr

/-! ## Statements -/

namespace Stmt

/-- Statements that belong together are both blocks or neither is. -/
theorem Paired.isBlock {N : NodeId → NodeId → Prop} {s s' : Stmt} (h : s.Paired N s') :
    s'.isBlock = s.isBlock := by
  cases h <;> rfl

mutual

/-- Statements that belong together both return on every path or neither does. -/
theorem Paired.returns {N : NodeId → NodeId → Prop} : (s s' : Stmt) → s.Paired N s' →
    s'.returns = s.returns
  | .block _ stmts _, _, h => by
      cases h with
      | block _ hstmts => exact Paired.anyReturns stmts _ hstmts
  | .varDecl .., _, h => by cases h; rfl
  | .ifThen .., _, h => by cases h; rfl
  | .ifElse _ positive negative _, _, h => by
      cases h with
      | ifElse _ hpositive hnegative =>
          simp only [Stmt.returns, Paired.returns positive _ hpositive,
            Paired.returns negative _ hnegative]
  | .ret .., _, h => by cases h; rfl
  | .expr .., _, h => by cases h; rfl

/-- The same for lists of statements. -/
theorem Paired.anyReturns {N : NodeId → NodeId → Prop} : (l l' : List Stmt) →
    Forall₂ (Stmt.Paired N) l l' → Stmt.anyReturns l' = Stmt.anyReturns l
  | [], _, h => by cases h; rfl
  | s :: rest, _, h => by
      cases h with
      | cons hs hrest =>
          simp only [Stmt.anyReturns, Paired.returns s _ hs, Paired.anyReturns rest _ hrest]

end

/-- The scopes of branches belong together where those around them do. -/
theorem inStep_branchScope {b b' : Stmt} (h : b.Paired part.nodes b') {s s' : ScopeId}
    (hs : m.scopes s s') :
    InStep part m (b.branchScope s) (b'.branchScope s') fun m' x x' => m'.scopes x x' := by
  unfold branchScope
  rw [h.isBlock]
  split
  · exact inStep_pure hs
  · exact inStep_pushScope hs .block

/-- A variable is added, attached to its node, and bound. -/
theorem inStep_declareVariable {n n' : NodeId} (hn : part.nodes n n') {name name' : Ident}
    (hname : name'.name = name.name) {s s' : ScopeId} (hs : m.scopes s s') {t t' : Ty}
    (ht : t.Paired m.symbols t') :
    InStep part m
      (do
        let symbol ← addSymbol (.localVariable ⟨name.name, name.span, t⟩)
        bindSymbol n symbol
        let _ ← define s name.name symbol name.span)
      (do
        let symbol ← addSymbol (.localVariable ⟨name'.name, name'.span, t'⟩)
        bindSymbol n' symbol
        let _ ← define s' name'.name symbol name'.span) fun _ _ _ => True := by
  have hsymbol : (Symbol.localVariable ⟨name.name, name.span, t⟩).Paired m.symbols
      (.localVariable ⟨name'.name, name'.span, t'⟩) := .localVariable ⟨hname, ht⟩
  refine (inStep_addSymbol hsymbol).bind fun m₁ i j h₁ hij => ?_
  refine (inStep_bindSymbol hn hij.1 hij.2).bind fun m₂ _ _ h₂ _ => ?_
  rw [hname]
  exact (inStep_define ((h₁.trans h₂).scopes hs) (h₂.symbols hij.1) _ _ _).bind
    fun _ _ _ _ _ => inStep_pure trivial

section

variable (hshown : ∀ i, ¬ part.hidden i)

include hshown

/-- Returns that belong together are resolved in step. -/
theorem inStep_resolveReturn {value value' : Option Expr}
    (h : Option.Rel (Expr.Paired part.nodes) value value') (span span' : Span) {s s' : ScopeId}
    (hs : m.scopes s s') {t t' : Ty} (ht : t.Paired m.symbols t') :
    InStep part m (resolveReturn value span s t) (resolveReturn value' span' s' t')
      fun _ _ _ => True := by
  cases h with
  | none =>
      simp only [resolveReturn, ht.isVoid, ht.isError]
      split
      · exact inStep_pure trivial
      · exact (inStep_typeName _ _).bind fun _ _ _ _ _ => inStep_mismatch _ _ _ _
  | some hvalue =>
      simp only [resolveReturn, ht.isVoid]
      refine (Expr.inStep_resolve hshown _ _ hvalue hs (.some ht)).bind fun m₁ a a' h₁ ha => ?_
      split
      · exact inStep_mismatch _ _ _ _
      · exact inStep_checkAssignable ha (ht.imp fun _ _ => h₁.symbols) _ _

/-- Variable declarations that belong together are resolved in step. -/
theorem inStep_resolveVarDecl {n n' : NodeId} (hn : part.nodes n n') {ty ty' : TypeExpr}
    (hty : ty'.bare = ty.bare) {name name' : Ident} (hname : name'.name = name.name)
    {value value' : Option Expr} (h : Option.Rel (Expr.Paired part.nodes) value value')
    {s s' : ScopeId} (hs : m.scopes s s') :
    InStep part m (resolveVarDecl n ty name value s) (resolveVarDecl n' ty' name' value' s')
      fun _ _ _ => True := by
  refine (TypeExpr.inStep_resolveStorage hty hs "variable").bind fun m₁ t t' h₁ ht => ?_
  cases h with
  | none => exact inStep_declareVariable hn hname (h₁.scopes hs) ht
  | some hvalue =>
      refine (Expr.inStep_resolve hshown _ _ hvalue (h₁.scopes hs) (.some ht)).bind
        fun m₂ a a' h₂ ha => ?_
      have ht₂ := ht.imp fun _ _ => h₂.symbols
      refine (inStep_checkAssignable ha ht₂ _ _).bind fun m₃ _ _ h₃ _ => ?_
      exact inStep_declareVariable hn hname (((h₁.trans h₂).trans h₃).scopes hs)
        (ht₂.imp fun _ _ => h₃.symbols)

/-- Conditions that belong together are resolved in step. -/
theorem inStep_resolveCondition {e e' : Expr} (h : e.Paired part.nodes e') {s s' : ScopeId}
    (hs : m.scopes s s') :
    InStep part m (resolveCondition e s) (resolveCondition e' s') fun _ _ _ => True :=
  (Expr.inStep_resolve hshown _ _ h hs (.some (.primitive _))).bind fun _ _ _ _ ha =>
    inStep_expectBool ha _ _ _

end

mutual

/-- **Two statements that are the same are resolved alike.** -/
theorem inStep_resolve (hshown : ∀ i, ¬ part.hidden i) {m : Pairing} {t t' : Ty}
    (ht : t.Paired m.symbols t') {s s' : ScopeId} (hs : m.scopes s s') :
    (stmt stmt' : Stmt) → stmt.Paired part.nodes stmt' →
    InStep part m (stmt.resolve t s) (stmt'.resolve t' s') fun _ _ _ => True
  | .block n stmts span, _, h => by
      cases h with
      | block hn hstmts =>
          simp only [resolve]
          exact (inStep_scopeFor hn hs .block).bind fun m₁ x x' h₁ hx =>
            inStep_resolveAll hshown (ht.imp fun _ _ => h₁.symbols) hx stmts _ hstmts
  | .varDecl n ty name value span, _, h => by
      cases h with
      | varDecl hn hty hname hvalue =>
          simp only [resolve]
          exact inStep_resolveVarDecl hshown hn hty hname hvalue hs
  | .ifThen condition positive span, _, h => by
      cases h with
      | ifThen hcondition hpositive =>
          simp only [resolve]
          refine (inStep_resolveCondition hshown hcondition hs).bind fun m₁ _ _ h₁ _ => ?_
          refine (inStep_branchScope hpositive (h₁.scopes hs)).bind fun m₂ x x' h₂ hx => ?_
          exact inStep_resolve hshown (ht.imp fun _ _ => (h₁.trans h₂).symbols) hx positive _
            hpositive
  | .ifElse condition positive negative span, _, h => by
      cases h with
      | ifElse hcondition hpositive hnegative =>
          simp only [resolve]
          refine (inStep_resolveCondition hshown hcondition hs).bind fun m₁ _ _ h₁ _ => ?_
          refine (inStep_branchScope hpositive (h₁.scopes hs)).bind fun m₂ x x' h₂ hx => ?_
          have h₁₂ := h₁.trans h₂
          refine (inStep_resolve hshown (ht.imp fun _ _ => h₁₂.symbols) hx positive _
            hpositive).bind fun m₃ _ _ h₃ _ => ?_
          refine (inStep_branchScope hnegative ((h₁₂.trans h₃).scopes hs)).bind
            fun m₄ y y' h₄ hy => ?_
          exact inStep_resolve hshown (ht.imp fun _ _ => ((h₁₂.trans h₃).trans h₄).symbols) hy
            negative _ hnegative
  | .ret value span, _, h => by
      cases h with
      | ret hvalue =>
          simp only [resolve]
          exact inStep_resolveReturn hshown hvalue _ _ hs ht
  | .expr e span, _, h => by
      cases h with
      | expr he =>
          simp only [resolve]
          exact (Expr.inStep_resolve hshown e _ he hs .none).bind fun _ _ _ _ _ =>
            inStep_pure trivial

/-- Lists of statements that belong together are resolved in step. -/
theorem inStep_resolveAll (hshown : ∀ i, ¬ part.hidden i) {m : Pairing} {t t' : Ty}
    (ht : t.Paired m.symbols t') {s s' : ScopeId} (hs : m.scopes s s') :
    (stmts stmts' : List Stmt) → Forall₂ (Stmt.Paired part.nodes) stmts stmts' →
    InStep part m (resolveAll t s stmts) (resolveAll t' s' stmts') fun _ _ _ => True
  | [], _, h => by
      cases h
      exact inStep_pure trivial
  | stmt :: rest, _, h => by
      cases h with
      | cons hstmt hrest =>
          simp only [resolveAll]
          exact (inStep_resolve hshown ht hs stmt _ hstmt).bind fun m₁ _ _ h₁ _ =>
            inStep_resolveAll hshown (ht.imp fun _ _ => h₁.symbols) (h₁.scopes hs) rest _ hrest

end

end Stmt

/-! ## Functions -/

/-- **Two bodies that are the same are resolved alike.** -/
theorem FunctionDecl.inStep_resolveBody {f f' : FunctionDecl} (hf : f.Paired part.nodes f')
    (hshown : ∀ i, ¬ part.hidden i) :
    InStep part m f.resolveBody f'.resolveBody fun _ a b => b = a := by
  have hbody := hf.body
  unfold resolveBody
  cases hb : f.body <;> cases hb' : f'.body <;> rw [hb, hb'] at hbody <;> cases hbody
  · next b b' hblock =>
    refine inStep_read fun c c' hpaired => ?_
    have hsymbol := hpaired.symbol? _ _ hf.node
    have hscope := hpaired.scope? _ _ hf.node
    cases hx : c.bindings.symbol? f.id <;> cases hx' : c'.bindings.symbol? f'.id <;>
      rw [hx, hx'] at hsymbol <;> cases hsymbol
    · exact inStep_pure rfl
    · next i j hij =>
      cases hy : c.bindings.scope? f.id <;> cases hy' : c'.bindings.scope? f'.id <;>
        rw [hy, hy'] at hscope <;> cases hscope
      · exact inStep_pure rfl
      · next s s' hs =>
        have htype : (((c.symbols.function? i).map FunctionEntry.returnType).getD .error).Paired
            m.symbols (((c'.symbols.function? j).map FunctionEntry.returnType).getD .error) := by
          have hfunction := hpaired.table.function? hij.1 hij.2
          cases he : c.symbols.function? i <;> cases he' : c'.symbols.function? j <;>
            rw [he, he'] at hfunction <;> cases hfunction
          · exact .error
          · exact FunctionEntry.Paired.returnType ‹_›
        have hreturns : Stmt.anyReturns b'.stmts = Stmt.anyReturns b.stmts :=
          Stmt.Paired.returns b.toStmt b'.toStmt hblock
        dsimp only [FunctionBody.block?]
        rw [htype.isVoid, htype.isError, hreturns]
        refine (Stmt.inStep_resolve hshown htype hs _ _ hblock).bind fun m₁ _ _ _ _ => ?_
        split
        · exact inStep_pure rfl
        · exact inStep_mismatch_return _ _ _ _ fun _ _ => rfl
  · exact inStep_pure rfl

/-- Bodies of functions that belong together are resolved in step, one behind the other.
-/
theorem FunctionDecl.inStep_resolveBodies {fs fs' : List FunctionDecl}
    (h : Forall₂ (FunctionDecl.Paired part.nodes) fs fs') (hshown : ∀ i, ¬ part.hidden i) :
    InStep part m (resolveBodies fs) (resolveBodies fs') fun _ a b => b = a := by
  induction h generalizing m with
  | nil => exact inStep_pure rfl
  | cons hf _ ih =>
      refine (inStep_resolveBody hf hshown).bind fun m₁ a b _ hab => ih.bind fun m₂ n n' _ hn => ?_
      subst hab hn
      exact inStep_pure rfl

/-- The functions of two items. -/
theorem Item.Paired.functions {N : NodeId → NodeId → Prop} {item item' : Item}
    (h : item.Paired N item') :
    Forall₂ (FunctionDecl.Paired N) item.functions item'.functions := by
  cases h with
  | structDecl _ => exact .nil
  | function h => exact .cons h .nil
  | classDecl h =>
      refine List.rel_filterMap (fun member member' hmember => ?_) h.members
      cases hmember with
      | field _ => exact .none
      | method h => exact .some h

end

end ClassLang
