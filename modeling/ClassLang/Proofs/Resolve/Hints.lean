import ClassLang.Proofs.Resolve.Acts

/-!
# Integer literals without a hint

An integer literal takes its type from its surroundings, and arithmetic hands this hint on to
its operands.  Where the hint is lost, a literal is an `int32`.  If an expression was resolved
without a report, then this is all that can go wrong (`Expr.follows_loosened`): a literal may be
too large for an `int32`, and the operands of an arithmetic operator may have got different
types.  Each such report is about a literal that had been something else than an `int32`
(`FollowsUp`).

Two runs are compared, one that reports nothing and one that has gone astray behind a slip
(`Slip.Astray`): their contexts are alike but for some odd nodes, and the second has reported the
slip.  `Slip.Follows` says of two programs that the second of them goes no further astray than
that, and gives an answer that fits the first one.
-/

namespace ClassLang

open Analysis

/-! ## Follow-up reports -/

mutual

/-- A part of a part is a part. -/
theorem Expr.subexprs_subset (sub : Expr) : (e : Expr) → sub ∈ e.subexprs →
    sub.subexprs ⊆ e.subexprs
  | .literal id value span, h => by
      rw [Expr.subexprs, List.mem_singleton] at h
      rw [h]
      exact List.Subset.refl _
  | .name id ident, h => by
      rw [Expr.subexprs, List.mem_singleton] at h
      rw [h]
      exact List.Subset.refl _
  | .binary id op left right span, h => by
      have hleft := Expr.subexprs_subset sub left
      have hright := Expr.subexprs_subset sub right
      grind [Expr.subexprs]
  | .assign id target value span, h => by
      have htarget := Expr.subexprs_subset sub target
      have hvalue := Expr.subexprs_subset sub value
      grind [Expr.subexprs]
  | .call id callee args span, h => by
      have hargs := Expr.subexprsOfAll_subset sub args
      grind [Expr.subexprs]
  | .methodCall id receiver callee args span, h => by
      have hreceiver := Expr.subexprs_subset sub receiver
      have hargs := Expr.subexprsOfAll_subset sub args
      grind [Expr.subexprs]
  | .member id object ident span, h => by
      have hobject := Expr.subexprs_subset sub object
      grind [Expr.subexprs]

theorem Expr.subexprsOfAll_subset (sub : Expr) : (es : List Expr) → sub ∈ Expr.subexprsOfAll es →
    sub.subexprs ⊆ Expr.subexprsOfAll es
  | [], h => by simp [Expr.subexprsOfAll] at h
  | e :: rest, h => by
      have he := Expr.subexprs_subset sub e
      have hrest := Expr.subexprsOfAll_subset sub rest
      grind [Expr.subexprsOfAll]

end

/-- An integer literal with another type than `int32`, which its surroundings gave it. -/
def Expr.IsHinted (accepted : Context) : Expr → Prop
  | .literal id (.int _) _ => accepted.bindings.type? id ≠ some .int32
  | _ => False

instance (accepted : Context) : DecidablePred (Expr.IsHinted accepted)
  | .literal id (.int _) _ => inferInstanceAs (Decidable (accepted.bindings.type? id ≠ some .int32))
  | .literal _ (.bool _) _ | .literal _
    (.string _) _ | .name .. | .binary .. | .assign .. | .call ..
  | .methodCall .. | .member .. => inferInstanceAs (Decidable False)

/-- A report about a hinted literal of an expression, which lost its hint. -/
inductive FollowsUp (accepted : Context) (e : Expr) : SemanticError → Prop
  /-- The literal does not fit into an `int32`. -/
  | literal {id : NodeId} {n : Nat} {span : Span} (hmem : .literal id (.int n) span ∈ e.subexprs)
      (hhinted : (Expr.literal id (.int n) span).IsHinted accepted)
      (hlarge : Primitive.fits (.int .w32) n = false) :
      FollowsUp accepted e (.mismatch (.literalTooLarge n "int32") span)
  /-- An operand with the literal in it does not have the type of the other operand. -/
  | operands {id : NodeId} {op : ArithOp} {left right literal : Expr} {span : Span} {l r : String}
      (hmem : .binary id (.arith op) left right span ∈ e.subexprs)
      (hliteral : literal ∈ left.subexprs ++ right.subexprs) (hhinted : literal.IsHinted accepted) :
      FollowsUp accepted e (.mismatch (.operands op.text l r) span)

/-- Without hinted literals there are no follow-up reports. -/
theorem FollowsUp.hinted {accepted : Context} {e : Expr} {error : SemanticError}
    (h : FollowsUp accepted e error) : ∃ literal ∈ e.subexprs, literal.IsHinted accepted := by
  cases h with
  | literal hmem hhinted => exact ⟨_, hmem, hhinted⟩
  | operands hmem hliteral hhinted =>
      refine ⟨_, Expr.subexprs_subset _ e hmem ?_, hhinted⟩
      exact List.mem_cons_of_mem _ hliteral

/-! ## Slips -/

/-- A slip in a unit that was accepted: in one expression, a name became one that nothing has. -/
structure Slip where
  /-- What is known about the unit that was accepted. -/
  accepted : Context
  /-- The expression, without the slip. -/
  old : Expr
  /-- The name in its place. -/
  ident : Ident
  /-- The name that took its place. -/
  fresh : String

/-- Some nodes have the types that they have in the end. -/
def SameTypes (accepted : Context) (nodes : List NodeId) (ctx : Context) : Prop :=
  ∀ n ∈ nodes, accepted.bindings.type? n = ctx.bindings.type? n

namespace SameTypes

variable {accepted ctx ctx₁ : Context} {nodes nodes' : List NodeId}

theorem mono (h : SameTypes accepted nodes ctx) (hnodes : nodes' ⊆ nodes) :
    SameTypes accepted nodes' ctx :=
  fun n hn => h n (hnodes hn)

/-- What runs at other nodes does not matter. -/
theorem before (h : SameTypes accepted nodes ctx₁) {α : Type} {m : Analysis α} {a : α}
    {odd : List NodeId} {name : String} (hm : Acts odd nodes' name m) (hrun : m.run ctx = (a, ctx₁))
    (hapart : ∀ n ∈ nodes, n ∉ nodes') : SameTypes accepted nodes ctx :=
  fun n hn => (h n hn).trans (hm.type? hrun (hapart n hn))

theorem attachType {id : NodeId} {ty : Ty}
    (h : SameTypes accepted nodes ((Deed.attachType id ty).apply ctx)) (hid : id ∉ nodes) :
    SameTypes accepted nodes ctx := by
  intro n hn
  have hne : n ≠ id := fun heq => hid (heq ▸ hn)
  rw [h n hn, Deed.apply, Bindings.type?_bindType, if_neg hne]

end SameTypes

namespace Slip

/-- The second of two contexts has gone astray: it has the report of the slip and others that
follow up, and symbols may be missing at odd nodes. -/
structure Astray (slip : Slip) (odd : List NodeId) (ctx ctx' : Context) : Prop where
  alike : ctx.Alike odd ctx'
  reported : ∃ further, (∀ error ∈ further, FollowsUp slip.accepted slip.old error) ∧
    ctx'.diagnostics =
      ctx.diagnostics.reportAll (.unresolved slip.fresh slip.ident.span :: further)

/-- Two programs, the second of which runs where things have gone astray: no further errors are
reported but those that follow up, and the answers fit. -/
def Follows {α : Type} (slip : Slip) (odd nodes : List NodeId) (m m' : Analysis α)
    (R : α → α → Prop) : Prop :=
  ∀ ctx ctx' a ctx₁, m.run ctx = (a, ctx₁) → ctx₁.Clean → SameTypes slip.accepted nodes ctx₁ →
    slip.Astray odd ctx ctx' →
    ∃ a' ctx₁', m'.run ctx' = (a', ctx₁') ∧ slip.Astray odd ctx₁ ctx₁' ∧ R a a'

end Slip

section

variable {α β : Type} {slip : Slip} {odd odd' nodes nodes' others : List NodeId}
  {ctx ctx' : Context} {R R' : α → α → Prop} {S : β → β → Prop}

namespace Slip.Astray

theorem mono (h : slip.Astray odd ctx ctx') (hodd : odd ⊆ odd') : slip.Astray odd' ctx ctx' :=
  ⟨h.alike.mono hodd, h.reported⟩

/-- Types may differ. -/
theorem attachType (h : slip.Astray odd ctx ctx') (node : NodeId) (ty ty' : Ty) :
    slip.Astray odd ((Deed.attachType node ty).apply ctx) ((Deed.attachType node ty').apply ctx') :=
  ⟨⟨h.alike.symbols, h.alike.scopes, h.alike.scope?, h.alike.symbol?⟩, h.reported⟩

/-- At an odd node, a symbol may be missing. -/
theorem attachSymbol (h : slip.Astray odd ctx ctx') {node : NodeId} (hnode : node ∈ odd)
    (symbol : SymbolId) : slip.Astray odd ((Deed.attachSymbol node symbol).apply ctx) ctx' := by
  refine ⟨⟨h.alike.symbols, h.alike.scopes, h.alike.scope?, fun n hn => ?_⟩, h.reported⟩
  have hne : n ≠ node := fun heq => hn (heq ▸ hnode)
  rw [h.alike.symbol? n hn, Deed.apply, Bindings.symbol?_bindSymbol, if_neg hne]

/-- One more report. -/
theorem report (h : slip.Astray odd ctx ctx') {error : SemanticError}
    (herror : FollowsUp slip.accepted slip.old error) :
    slip.Astray odd ctx ((Deed.report error).apply ctx') := by
  obtain ⟨further, hfurther, hdiagnostics⟩ := h.reported
  refine ⟨⟨h.alike.symbols, h.alike.scopes, h.alike.scope?, h.alike.symbol?⟩,
    further ++ [error], ?_, ?_⟩
  · simpa [or_imp, forall_and] using ⟨hfurther, herror⟩
  · rw [← List.cons_append, Diagnostics.reportAll_append, ← hdiagnostics]
    rfl

end Slip.Astray

/-- The runs that a run is made of. -/
theorem Analysis.run_bind_cases {m : Analysis α} {f : α → Analysis β} {b : β} {ctx₂ : Context}
    (h : (m >>= f).run ctx = (b, ctx₂)) :
    ∃ a ctx₁, m.run ctx = (a, ctx₁) ∧ (f a).run ctx₁ = (b, ctx₂) :=
  ⟨_, _, rfl, h⟩

theorem Analysis.run_typed_cases {node : NodeId} {find : Analysis Ty} {ty : Ty} {ctx₂ : Context}
    (h : (typed node find).run ctx = (ty, ctx₂)) : ∃ ctx₁, find.run ctx = (ty, ctx₁) ∧
      ctx₂ = (Deed.attachType node ty).apply ctx₁ := by
  cases h
  exact ⟨_, rfl, rfl⟩

theorem Analysis.run_typed {node : NodeId} {find : Analysis Ty} {ty : Ty} {ctx₁ : Context}
    (h : find.run ctx = (ty, ctx₁)) : (typed node find).run ctx =
      (ty, (Deed.attachType node ty).apply ctx₁) := by
  unfold typed
  rw [run_bind_of h]
  rfl

/-- **What is the same program on both sides does not lead further astray.** -/
theorem Analysis.Acts.follows {m : Analysis α} {name : String} (hm : Acts odd nodes name m)
    (hR : ∀ a, R a a) : slip.Follows odd [] m m R := by
  intro ctx ctx' a ctx₁ hrun hclean _ h
  obtain ⟨ctx₁', hrun', halike, hsame, hsame'⟩ := hm.follow h.alike hrun hclean
  obtain ⟨further, hfurther, hdiagnostics⟩ := h.reported
  refine ⟨a, ctx₁', hrun', ⟨halike, further, hfurther, ?_⟩, hR a⟩
  rw [hsame, hsame', hdiagnostics]

namespace Slip.Follows

theorem mono {m m' : Analysis α} (h : slip.Follows odd nodes m m' R) (hnodes : nodes ⊆ nodes')
    (hR : ∀ a a', R a a' → R' a a') : slip.Follows odd nodes' m m' R' := by
  intro ctx ctx' a ctx₁ hrun hclean htypes hastray
  obtain ⟨a', ctx₁', hrun', h', ha⟩ := h ctx ctx' a ctx₁ hrun hclean (htypes.mono hnodes) hastray
  exact ⟨a', ctx₁', hrun', h', hR a a' ha⟩

/-- One program after another, which is about other nodes. -/
theorem bind {m m' : Analysis α} {f f' : α → Analysis β} (hm : slip.Follows odd nodes m m' R)
    (hf : ∀ a a', R a a' → slip.Follows odd nodes' (f a) (f' a') S)
    (hacts : ∀ a, Acts odd others slip.fresh (f a)) (hapart : ∀ n ∈ nodes, n ∉ others) :
    slip.Follows odd (nodes ++ nodes') (m >>= f) (m' >>= f') S := by
  intro ctx ctx' b ctx₂ hrun hclean htypes h
  obtain ⟨a, ctx₁, hfirst, hrest⟩ := run_bind_cases hrun
  have htypes₁ := (htypes.mono (List.subset_append_left _ _)).before (hacts a) hrest hapart
  obtain ⟨a', ctx₁', hfirst', h₁, ha⟩ :=
    hm ctx ctx' a ctx₁ hfirst ((hacts a).clean hrest hclean) htypes₁ h
  obtain ⟨b', ctx₂', hrest', h₂, hb⟩ := hf a a' ha ctx₁ ctx₁' b ctx₂ hrest hclean
    (htypes.mono (List.subset_append_right _ _)) h₁
  exact ⟨b', ctx₂', (run_bind_of hfirst' _).trans hrest', h₂, hb⟩

/-- The answer becomes the type of a node. -/
theorem typed {find find' : Analysis Ty} {R : Ty → Ty → Prop} {id : NodeId}
    (h : slip.Follows odd nodes find find' R) (hid : id ∉ nodes) :
    slip.Follows odd (id :: nodes) (typed id find) (typed id find') R := by
  intro ctx ctx' ty ctx₂ hrun hclean htypes hastray
  obtain ⟨ctx₁, hfind, rfl⟩ := run_typed_cases hrun
  have htypes₁ := (htypes.mono (List.subset_cons_self id nodes)).attachType hid
  obtain ⟨ty', ctx₁', hfind', h', hty⟩ := h ctx ctx' ty ctx₁ hfind hclean htypes₁ hastray
  exact ⟨ty', _, run_typed hfind', h'.attachType id ty ty', hty⟩

end Slip.Follows

end

/-! ## Losing a hint -/

/-- A hint, or none that makes a literal anything but an `int32`. -/
def Ty.LostHint (hint hint' : Option Ty) : Prop :=
  hint' = hint ∨ Ty.ofLiteral hint' = .int .w32

/-- The type that an expression may have without its hint. -/
inductive Expr.Loosens (accepted : Context) (e : Expr) (ty : Ty) : Ty → Prop
  | same : Loosens accepted e ty ty
  | error : Loosens accepted e ty .error
  | literal {literal : Expr} (hinteger : ty.isInteger = true) (hmem : literal ∈ e.subexprs)
      (hhinted : literal.IsHinted accepted) : Loosens accepted e ty .int32

namespace Expr.Loosens

variable {accepted : Context} {e : Expr} {ty ty' : Ty}

/-- An operand without its hint is a lost hint for the other one. -/
theorem lostHint (h : e.Loosens accepted ty ty') : Ty.LostHint (some ty) (some ty') := by
  cases h with
  | same => exact .inl rfl
  | error => exact .inr rfl
  | literal => exact .inr rfl

/-- What cannot be resolved stays so. -/
theorem isError (h : e.Loosens accepted ty ty') (herror : ty.isError = true) :
    ty'.isError = true := by
  cases h with
  | same => exact herror
  | error => rfl
  | literal hinteger => cases ty <;> simp_all [Ty.isInteger, Ty.isError]

/-- Only integers depend on hints. -/
theorem cases_of_not_integer (h : e.Loosens accepted ty ty') (hinteger : ty.isInteger = false) :
    ty' = ty ∨ ty' = .error := by
  cases h with
  | same => exact .inl rfl
  | error => exact .inr rfl
  | literal hinteger' => simp [hinteger] at hinteger'

end Expr.Loosens

/-- A literal that fits has the type that is expected. -/
theorem Literal.run_resolve_int {n : Nat} {hint : Option Ty} (h : (Ty.ofLiteral hint).fits n = true)
    (span : Span) (ctx : Context) :
    ((Literal.int n).resolve span hint).run ctx = (.primitive (Ty.ofLiteral hint), ctx) := by
  simp only [Literal.resolve, h, if_true]
  rfl

/-- A literal that does not fit is reported. -/
theorem Literal.run_resolve_large {n : Nat} {hint : Option Ty}
    (h : (Ty.ofLiteral hint).fits n = false) (span : Span) (ctx : Context) :
    ((Literal.int n).resolve span hint).run ctx = (.primitive (Ty.ofLiteral hint),
      (Deed.report (.mismatch (.literalTooLarge n (Ty.ofLiteral hint).name) span)).apply ctx) := by
  simp only [Literal.resolve, h, Bool.false_eq_true, if_false]
  rfl

section

variable {slip : Slip} {odd : List NodeId}

/-- A literal without its hint. -/
theorem Literal.follows_loosened {id : NodeId} {value : Literal} {span : Span}
    (hmem : .literal id value span ∈ slip.old.subexprs) {hint hint' : Option Ty}
    (hlost : Ty.LostHint hint hint') :
    slip.Follows odd [id] (typed id (value.resolve span hint)) (typed id (value.resolve span hint'))
      ((Expr.literal id value span).Loosens slip.accepted) := by
  have hsame : value.resolve span hint' = value.resolve span hint → slip.Follows odd [id]
      (typed id (value.resolve span hint)) (typed id (value.resolve span hint'))
      ((Expr.literal id value span).Loosens slip.accepted) := by
    intro heq
    have hacts : Acts odd [id] slip.fresh (typed id (value.resolve span hint)) :=
      acts_typed (by simp) (value.acts_resolve span hint)
    rw [heq]
    exact (hacts.follows fun _ => .same).mono (by simp) fun _ _ h => h
  cases value with
  | bool b => exact hsame rfl
  | string text => exact hsame rfl
  | int n =>
      rcases hlost with rfl | hlost
      · exact hsame rfl
      · by_cases hint32 : Ty.ofLiteral hint = .int .w32
        · exact hsame (by simp only [Literal.resolve, hlost, hint32])
        · intro ctx ctx' ty ctx₂ hrun hclean htypes h
          obtain ⟨ctx₁, hvalue, rfl⟩ := run_typed_cases hrun
          have htype : slip.accepted.bindings.type? id = some ty := by
            rw [htypes id (by simp), Deed.apply, Bindings.type?_bindType, if_pos rfl]
          cases hfits : (Ty.ofLiteral hint).fits n with
          | false =>
              rw [Literal.run_resolve_large hfits] at hvalue
              cases hvalue
              simp [Context.Clean, Deed.apply, Diagnostics.hasErrors_report] at hclean
          | true =>
              rw [Literal.run_resolve_int hfits] at hvalue
              cases hvalue
              have hhinted : (Expr.literal id (.int n) span).IsHinted slip.accepted := by
                simp [Expr.IsHinted, htype, hint32]
              have hloosens : (Expr.literal id (.int n) span).Loosens slip.accepted
                  (.primitive (Ty.ofLiteral hint)) (.primitive (Ty.ofLiteral hint')) := by
                rw [hlost]
                exact .literal (Ty.isInteger_ofLiteral hint) (Expr.mem_subexprs _) hhinted
              cases hfits' : (Ty.ofLiteral hint').fits n with
              | true =>
                  exact ⟨_, _, run_typed (Literal.run_resolve_int hfits' span ctx'),
                    h.attachType id _ _, hloosens⟩
              | false =>
                  refine ⟨_, _, run_typed (Literal.run_resolve_large hfits' span ctx'),
                    (h.report ?_).attachType id _ _, hloosens⟩
                  rw [hlost] at hfits' ⊢
                  exact .literal hmem hhinted hfits'

/-! ## Arithmetic -/

/-- Operands that cannot be resolved have no common type. -/
theorem run_integerPair_error {left right : Ty} (h : (left.isError || right.isError) = true)
    (operator : String) (span : Span) (ctx : Context) :
    (integerPair left right operator span).run ctx = (.error, ctx) := by
  simp only [integerPair, h, if_true]
  rfl

/-- Operands of one integer type have this type. -/
theorem run_integerPair_same {ty : Ty} (h : ty.isInteger = true) (operator : String) (span : Span)
    (ctx : Context) : (integerPair ty ty operator span).run ctx = (ty, ctx) := by
  have herror : ty.isError = false := by cases ty <;> simp_all [Ty.isInteger, Ty.isError]
  simp only [integerPair, herror, Bool.or_self, Bool.false_eq_true, if_false, h, beq_self_eq_true,
    Bool.and_self, if_true]
  rfl

/-- Operands of different types are reported. -/
theorem run_integerPair_apart {left right : Ty} (h : (left.isError || right.isError) = false)
    (hne : left ≠ right) (operator : String) (span : Span) (ctx : Context) :
    (integerPair left right operator span).run ctx = (.error,
      (Deed.report (.mismatch (.operands operator (ctx.symbols.typeName left)
        (ctx.symbols.typeName right)) span)).apply ctx) := by
  have hbeq : (left == right) = false := by simpa using hne
  simp only [integerPair, h, Bool.false_eq_true, if_false, hbeq, Bool.and_false]
  rfl

/-- **Arithmetic with operands that lost their hints.** -/
theorem follows_integerPair {id : NodeId} {op : ArithOp} {left right : Expr} {span : Span}
    (hmem : .binary id (.arith op) left right span ∈ slip.old.subexprs) {l r l' r' : Ty}
    (hl : left.Loosens slip.accepted l l') (hr : right.Loosens slip.accepted r r') :
    slip.Follows odd [] (integerPair l r op.text span) (integerPair l' r' op.text span)
      ((Expr.binary id (.arith op) left right span).Loosens slip.accepted) := by
  intro ctx ctx' ty ctx₁ hrun hclean _ h
  obtain ⟨-, rfl, hpair⟩ := does_integerPair l r op.text span ctx ty ctx₁ hrun hclean
  have herror : (l'.isError || r'.isError) = true → ∃ ty' ctx₁',
      (integerPair l' r' op.text span).run ctx' = (ty', ctx₁') ∧ slip.Astray odd ctx₁ ctx₁' ∧
      (Expr.binary id (.arith op) left right span).Loosens slip.accepted ty ty' := fun herror =>
    ⟨_, _, run_integerPair_error herror op.text span ctx', h, .error⟩
  rcases hpair with hpair | ⟨rfl, rfl, hinteger⟩
  · apply herror
    rw [Bool.or_eq_true] at hpair ⊢
    exact hpair.imp hl.isError hr.isError
  · -- the types were equal; they differ now if just one of them was given by a literal
    have hleft := List.subset_append_left left.subexprs right.subexprs
    have hright := List.subset_append_right left.subexprs right.subexprs
    have hapart : ∀ {literal}, l' ≠ r' → literal ∈ left.subexprs ++ right.subexprs →
        literal.IsHinted slip.accepted → ∃ ty' ctx₁',
        (integerPair l' r' op.text span).run ctx' = (ty', ctx₁') ∧ slip.Astray odd ctx₁ ctx₁' ∧
        (Expr.binary id (.arith op) left right span).Loosens slip.accepted r ty' := by
      intro literal hne hliteral hhinted
      cases hnone : l'.isError || r'.isError with
      | true => exact herror hnone
      | false =>
          exact ⟨_, _, run_integerPair_apart hnone hne op.text span ctx',
            h.report (.operands hmem hliteral hhinted), .error⟩
    cases hl with
    | error => exact herror rfl
    | same =>
        cases hr with
        | error => exact herror (by simp [Ty.isError])
        | same => exact ⟨_, _, run_integerPair_same hinteger op.text span ctx', h, .same⟩
        | literal _ hliteral hhinted =>
            by_cases heq : r = .int32
            · rw [heq] at hinteger ⊢
              exact ⟨_, _, run_integerPair_same hinteger op.text span ctx', h, .same⟩
            · exact hapart heq (hright hliteral) hhinted
    | literal _ hliteral hhinted =>
        cases hr with
        | error => exact herror (by simp [Ty.isError])
        | same =>
            by_cases heq : r = .int32
            · rw [heq] at hinteger ⊢
              exact ⟨_, _, run_integerPair_same hinteger op.text span ctx', h, .same⟩
            · exact hapart (Ne.symm heq) (hleft hliteral) hhinted
        | literal =>
            refine ⟨_, _, run_integerPair_same rfl op.text span ctx', h, ?_⟩
            exact .literal hinteger (List.mem_cons_of_mem _ (hleft hliteral)) hhinted

/-! ## Expressions -/

/-- Two operands, the second of which takes the type of the first one for its hint. -/
theorem Slip.Follows.operands {scope : ScopeId} {a b : Expr} {hint hint' : Option Ty}
    (ha : slip.Follows odd a.nodes (a.resolve scope hint) (a.resolve scope hint')
      (a.Loosens slip.accepted))
    (hb : ∀ s s', a.Loosens slip.accepted s s' → slip.Follows odd b.nodes (b.resolve scope (some s))
      (b.resolve scope (some s')) (b.Loosens slip.accepted))
    (check : Ty → Ty → Analysis Ty) {R : Ty → Ty → Prop}
    (hcheck : ∀ s s' t t', a.Loosens slip.accepted s s' → b.Loosens slip.accepted t t' →
      slip.Follows odd [] (check s t) (check s' t') R)
    (hacts : ∀ s t, Acts odd [] slip.fresh (check s t)) (hodd : ∀ n ∈ b.nodes, n ∉ odd)
    (hapart : ∀ n ∈ a.nodes, n ∉ b.nodes) :
    slip.Follows odd (a.nodes ++ b.nodes)
      (do let s ← a.resolve scope hint; let t ← b.resolve scope (some s); check s t)
      (do let s ← a.resolve scope hint'; let t ← b.resolve scope (some s); check s t) R := by
  refine ha.bind (fun s s' hs => ?_) (fun s => ?_) hapart
  · rw [← List.append_nil b.nodes]
    exact (hb s s' hs).bind (fun t t' ht => hcheck s s' t t' hs ht) (hacts s) (by simp)
  · exact (b.acts_resolve scope _ hodd).bind fun t => (hacts s t).mono (by simp)

/-- An expression that takes no hint does not notice that it is lost. -/
theorem Expr.follows_of_unhinted {scope : ScopeId} {e : Expr} {hint hint' : Option Ty}
    (hodd : ∀ n ∈ e.nodes, n ∉ odd) (hsame : e.resolve scope hint' = e.resolve scope hint) :
    slip.Follows odd e.nodes (e.resolve scope hint) (e.resolve scope hint')
      (e.Loosens slip.accepted) := by
  have hacts : Acts odd e.nodes slip.fresh (e.resolve scope hint) := e.acts_resolve scope hint hodd
  rw [hsame]
  exact (hacts.follows fun _ => .same).mono (by simp) fun _ _ h => h

/-- **An expression without its hint**: reports can only be about literals that had one. -/
theorem Expr.follows_loosened (scope : ScopeId) : (e : Expr) → e.nodes.Nodup →
    (∀ n ∈ e.nodes, n ∉ odd) → e.subexprs ⊆ slip.old.subexprs → ∀ hint hint',
    Ty.LostHint hint hint' → slip.Follows odd e.nodes (e.resolve scope hint) (e.resolve scope hint')
      (e.Loosens slip.accepted)
  | .literal id value span, _, _, hsub, hint, hint', hlost => by
      simp only [resolve]
      exact Literal.follows_loosened (hsub (Expr.mem_subexprs _)) hlost
  | .binary id (.arith op) left right span, hnodes, hodd, hsub, hint, hint', hlost => by
      have hmem := hsub (Expr.mem_subexprs _)
      simp only [subexprs, List.cons_subset, List.append_subset] at hsub
      rw [nodes_binary] at hnodes hodd ⊢
      simp only [List.nodup_cons, List.nodup_append, List.mem_append, not_or] at hnodes
      obtain ⟨hid, hl, hr, hapart⟩ := hnodes
      have hoddl : ∀ n ∈ left.nodes, n ∉ odd := fun n hn => hodd n (by simp [hn])
      have hoddr : ∀ n ∈ right.nodes, n ∉ odd := fun n hn => hodd n (by simp [hn])
      have hleft := follows_loosened scope left hl hoddl hsub.2.1
      have hright := follows_loosened scope right hr hoddr hsub.2.2
      cases horder : left.isIntLiteral && !right.isIntLiteral with
      | true =>
          rw [resolve_binary_swapped horder, resolve_binary_swapped horder]
          have hpair := (hright _ _ hlost).operands (fun s s' hs => hleft _ _ hs.lostHint)
            (fun s t => integerPair t s op.text span)
            (fun s s' t t' hs ht => follows_integerPair hmem ht hs)
            (fun s t => acts_integerPair t s op.text span) hoddl
            fun n hn hn' => hapart n hn' n hn rfl
          exact (hpair.mono (by grind) fun _ _ h => h).typed (by simp [hid])
      | false =>
          rw [resolve_binary horder, resolve_binary horder]
          have hpair := (hleft _ _ hlost).operands (fun s s' hs => hright _ _ hs.lostHint)
            (fun s t => integerPair s t op.text span)
            (fun s s' t t' hs ht => follows_integerPair hmem hs ht)
            (fun s t => acts_integerPair s t op.text span) hoddr
            fun n hn hn' => hapart n hn n hn' rfl
          exact hpair.typed (by simp [hid])
  | .binary _ .or .., _, hodd, _, _, _, _ => follows_of_unhinted hodd rfl
  | .binary _ .and .., _, hodd, _, _, _, _ => follows_of_unhinted hodd rfl
  | .binary _ (.compare _) .., _, hodd, _, _, _, _ => follows_of_unhinted hodd rfl
  | .name .., _, hodd, _, _, _, _ => follows_of_unhinted hodd rfl
  | .assign .., _, hodd, _, _, _, _ => follows_of_unhinted hodd rfl
  | .call .., _, hodd, _, _, _, _ => follows_of_unhinted hodd rfl
  | .methodCall .., _, hodd, _, _, _, _ => follows_of_unhinted hodd rfl
  | .member .., _, hodd, _, _, _, _ => follows_of_unhinted hodd rfl

end

end ClassLang
