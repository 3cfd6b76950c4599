import ClassLang.Proofs.Resolve.Verdicts

/-!
# Comparisons read from the other side

`a < b` says the same as `b > a`, and mostly both are accepted or both are reported.  The operand
that is resolved first gives the other one its hint, and only integer literals look at hints, with
the arithmetic whose first operand does so (`Expr.takesHint`).  A bare literal is resolved behind
the other operand, on whichever side it stands, so that it gets its hint.

Arithmetic with a literal in front is not, and this is where the sides differ
(`Expr.MissesHint`).  On the left it becomes an `int32`, whatever it is compared with; on the
right it takes the type of the left operand.

Both orders report what the operands report by themselves, under the hints that they get, and
operands that do not fit together (`Expr.reports_compare`); hints that give literals one type make
no difference (`Expr.resolve_hint`).
-/

namespace ClassLang

open Analysis

/-- The comparison with its operands on the other sides. -/
def CompareOp.mirrored : CompareOp → CompareOp
  | .eq => .eq
  | .ne => .ne
  | .gt => .lt
  | .lt => .gt
  | .ge => .le
  | .le => .ge

/-! ## Hints -/

namespace Expr

variable {scope : ScopeId} {ctx : Context}

/-- The type of an expression is taken from its surroundings: it is an integer literal, or
arithmetic in which the operand that is resolved first takes its type from there. -/
def takesHint : Expr → Bool
  | .literal _ (.int _) _ => true
  | .binary _ (.arith _) left right _ =>
    if left.isIntLiteral && !right.isIntLiteral then right.takesHint else left.takesHint
  | _ => false

/-- An integer literal takes its type from its surroundings. -/
theorem takesHint_of_isIntLiteral {e : Expr} (h : e.isIntLiteral = true) : e.takesHint = true := by
  unfold isIntLiteral at h
  split at h
  · rfl
  · cases h

/-- **Hints that give literals one type make no difference**, and other hints make one only where
a hint is taken. -/
theorem resolve_hint {hint hint' : Option Ty} : (e : Expr) →
    (e.takesHint = true → Ty.ofLiteral hint' = Ty.ofLiteral hint) →
    e.resolve scope hint' = e.resolve scope hint
  | .literal id (.int n) span, h => by simp only [resolve, Literal.resolve, h rfl]
  | .binary id (.arith op) left right span, h => by
      simp only [takesHint] at h
      cases horder : left.isIntLiteral && !right.isIntLiteral with
      | true =>
          simp only [horder, if_true] at h
          simp only [resolve_binary_swapped horder, operandHint, resolve_hint right h]
      | false =>
          simp only [horder, Bool.false_eq_true, if_false] at h
          simp only [resolve_binary horder, operandHint, resolve_hint left h]
  | .literal _ (.bool _) _, _ | .literal _ (.string _) _, _ | .name .., _ | .binary _ .or .., _
  | .binary _ .and .., _ | .binary _ (.compare _) .., _ | .assign .., _ | .call .., _
  | .methodCall .., _ | .member .., _ => rfl

end Expr

/-- Two operands have no common type, or it is the type of both. -/
theorem Analysis.always_integerPair (left right : Ty) (operator : String) (span : Span) :
    Always (integerPair left right operator span) fun _ ty _ =>
      ty = .error ∨ ty = left ∧ ty = right := by
  intro ctx
  by_cases herror : (left.isError || right.isError) = true
  · rw [run_integerPair_error herror]
    exact .inl rfl
  · by_cases hsame : left.isInteger = true ∧ left = right
    · obtain ⟨hinteger, rfl⟩ := hsame
      rw [run_integerPair_same hinteger]
      exact .inr ⟨rfl, rfl⟩
    · refine .inl ?_
      have hpair : (left.isInteger && left == right) = false := by simpa using hsame
      simp only [integerPair, herror, hpair]
      rfl

namespace Expr

variable {scope : ScopeId} {ctx : Context}

/-- A node whose type is that of its first part, or none. -/
theorem always_typed_first {first : Analysis Ty} {second : Ty → Analysis Ty}
    {check : Ty → Ty → Analysis Ty} {ty : Ty} (id : NodeId)
    (hfirst : Always first fun _ s _ => s = ty ∨ s = .error)
    (hcheck : ∀ s t, Always (check s t) fun _ u _ => u = .error ∨ u = s) :
    Always (typed id do let s ← first; let t ← second s; check s t) fun _ u _ =>
      u = ty ∨ u = .error := by
  have hsecond : ∀ s, Always (second s) fun _ _ _ => True := fun _ _ => trivial
  have hall := hfirst.bind fun s => (hsecond s).bind fun t => hcheck s t
  intro ctx
  obtain ⟨s, -, hs, -, -, -, hu⟩ := hall ctx
  rcases hu with hu | hu
  · exact .inr hu
  · exact hs.imp hu.trans hu.trans

/-- **What takes a hint has the type that a literal has there**, or none. -/
theorem always_takesHint (scope : ScopeId) (hint : Option Ty) : (e : Expr) → e.takesHint = true →
    Always (e.resolve scope hint) fun _ ty _ => ty = .primitive (Ty.ofLiteral hint) ∨ ty = .error
  | .literal id (.int n) span, _ => by
      intro ctx
      refine .inl ?_
      cases hfits : (Ty.ofLiteral hint).fits n with
      | true => simp only [resolve, run_typed (Literal.run_resolve_int hfits span ctx)]
      | false => simp only [resolve, run_typed (Literal.run_resolve_large hfits span ctx)]
  | .binary id (.arith op) left right span, h => by
      simp only [takesHint] at h
      cases horder : left.isIntLiteral && !right.isIntLiteral with
      | true =>
          simp only [horder, if_true] at h
          rw [resolve_binary_swapped horder]
          exact always_typed_first id (always_takesHint scope hint right h) fun s t =>
            (always_integerPair t s op.text span).mono fun _ _ _ hu => hu.imp_right And.right
      | false =>
          simp only [horder, Bool.false_eq_true, if_false] at h
          rw [resolve_binary horder]
          exact always_typed_first id (always_takesHint scope hint left h) fun s t =>
            (always_integerPair s t op.text span).mono fun _ _ _ hu => hu.imp_right And.left

/-- The type that is found for an expression under a hint. -/
def typeIn (scope : ScopeId) (ctx : Context) (hint : Option Ty) (e : Expr) : Ty :=
  ((e.resolve scope hint).run ctx).1

/-- Arithmetic that takes its type from its surroundings is compared to an integer of another type
than `int32`, which it does not see if it is resolved first. -/
def MissesHint (scope : ScopeId) (ctx : Context) (e other : Expr) : Prop :=
  e.takesHint = true ∧ e.isIntLiteral = false ∧
    Ty.ofLiteral (some (other.typeIn scope ctx none)) ≠ .int .w32

end Expr

/-! ## Operands -/

/-- Types that can be compared; what has no type is comparable to everything. -/
def Ty.Compares (left right : Ty) : Prop :=
  left = .error ∨ right = .error ∨ left.isInteger = true ∧ left = right

theorem Ty.Compares.symm {left right : Ty} (h : left.Compares right) : right.Compares left := by
  rcases h with h | h | ⟨hinteger, rfl⟩
  · exact .inr (.inl h)
  · exact .inl h
  · exact .inr (.inr ⟨hinteger, rfl⟩)

/-- A type that makes a literal something else than an `int32` is an integer type itself. -/
theorem Ty.ofLiteral_some {ty : Ty} (h : Ty.ofLiteral (some ty) ≠ .int .w32) :
    ty.isInteger = true ∧ ty = .primitive (Ty.ofLiteral (some ty)) := by
  cases ty with
  | primitive p =>
      simp only [ofLiteral, Option.bind_some, primitive?] at h ⊢
      split at h
      · next hp => exact ⟨hp, by rw [if_pos hp]⟩
      · exact absurd rfl h
  | _ => exact absurd rfl h

theorem Analysis.reports_integerPair (left right : Ty) (operator : String) (span : Span)
    (ctx : Context) :
    (integerPair left right operator span).Reports ctx ↔ ¬ left.Compares right := by
  by_cases herror : (left.isError || right.isError) = true
  · have hcompares : left.Compares right := by
      cases left <;> cases right <;> simp_all [Ty.Compares, Ty.isError]
    simp [Reports, run_integerPair_error herror, hcompares]
  · by_cases hsame : left.isInteger = true ∧ left = right
    · have hcompares : left.Compares right := .inr (.inr hsame)
      obtain ⟨hinteger, rfl⟩ := hsame
      simp [Reports, run_integerPair_same hinteger, hcompares]
    · have hcompares : ¬ left.Compares right := by
        rintro (rfl | rfl | h)
        · exact herror rfl
        · exact herror (by simp [Ty.isError])
        · exact hsame h
      have hpair : (left.isInteger && left == right) = false := by simpa using hsame
      have hrun : (integerPair left right operator span).run ctx = (.error,
          (Deed.report (.mismatch (.operands operator (ctx.symbols.typeName left)
            (ctx.symbols.typeName right)) span)).apply ctx) := by
        simp only [integerPair, herror, hpair]
        rfl
      cases hds : ctx.diagnostics
      simp [Reports, hrun, Deed.apply, Diagnostics.report, hds, hcompares]

namespace Expr

variable {scope : ScopeId} {ctx : Context}

/-- Something is reported about two operands that are compared: about the first one, about the
second one, which has the type of the first one for its hint, or because they do not fit. -/
def PairReports (scope : ScopeId) (ctx : Context) (first second : Expr) : Prop :=
  (first.resolve scope none).Reports ctx ∨
    (second.resolve scope (some (first.typeIn scope ctx none))).Reports ctx ∨
    ¬ (first.typeIn scope ctx none).Compares
      (second.typeIn scope ctx (some (first.typeIn scope ctx none)))

/-- A comparison reports what its operands report, in the order in which they are resolved. -/
theorem reports_pair (id : NodeId) (first second : Expr) (check : Ty → Ty → Analysis Ty)
    (hcheck : ∀ s t, Judged (check s t))
    (hreports : ∀ s t, (check s t).Reports ctx ↔ ¬ s.Compares t) :
    (typed id do
      let s ← first.resolve scope none
      let t ← second.resolve scope (some s)
      check s t).Reports ctx ↔ PairReports scope ctx first second := by
  obtain ⟨s, errors, hs⟩ := first.judged_resolve scope none ctx
  obtain ⟨t, more, ht⟩ := second.judged_resolve scope (some s) ctx
  obtain ⟨u, last, hu⟩ := hcheck s t ctx
  have hall := (hs.bind (f := fun s => do let t ← second.resolve scope (some s); check s t)
    (ht.bind hu)).typed id
  have hfirst : first.typeIn scope ctx none = s := hs.answer
  have hsecond : second.typeIn scope ctx (some s) = t := ht.answer
  rw [hall.reports_iff, PairReports, hfirst, hsecond, hs.reports_iff, ht.reports_iff,
    ← hreports, hu.reports_iff]
  simp only [ne_eq, List.append_eq_nil_iff]
  tauto

/-- The check of the operands of a comparison, in either order. -/
theorem reports_check (left right : Ty) (operator : String) (span : Span) :
    (do let _ ← integerPair left right operator span; return Ty.bool : Analysis Ty).Reports ctx ↔
      ¬ left.Compares right := by
  rw [← reports_integerPair left right operator span ctx]
  exact Iff.rfl

/-- A comparison whose left operand is resolved first. -/
theorem reports_compare {left right : Expr} (h : (left.isIntLiteral && !right.isIntLiteral) = false)
    (expected : Option Ty) (id : NodeId) (op : CompareOp) (span : Span) :
    ((Expr.binary id (.compare op) left right span).resolve scope expected).Reports ctx ↔
      PairReports scope ctx left right := by
  rw [resolve_binary h]
  exact reports_pair id left right (fun s t => checkOperator (.compare op) s t _ _ span)
    (fun s t => judged_checkOperator _ _ _ _ _ _) fun s t => reports_check s t op.text span

/-- A comparison with a literal on the left, which is resolved second. -/
theorem reports_compare_swapped {left right : Expr}
    (h : (left.isIntLiteral && !right.isIntLiteral) = true) (expected : Option Ty) (id : NodeId)
    (op : CompareOp) (span : Span) :
    ((Expr.binary id (.compare op) left right span).resolve scope expected).Reports ctx ↔
      PairReports scope ctx right left := by
  rw [resolve_binary_swapped h]
  exact reports_pair id right left (fun s t => checkOperator (.compare op) t s _ _ span)
    (fun s t => judged_checkOperator _ _ _ _ _ _) fun s t =>
      (reports_check t s op.text span).trans (not_congr ⟨Ty.Compares.symm, Ty.Compares.symm⟩)

/-- What takes a hint makes an `int32` of literals that it gives a hint to. -/
theorem ofLiteral_typeIn {e : Expr} (h : e.takesHint = true) :
    Ty.ofLiteral (some (e.typeIn scope ctx none)) = .int .w32 := by
  rcases always_takesHint scope none e h ctx with hty | hty
  · rw [typeIn, hty]
    rfl
  · rw [typeIn, hty]
    rfl

/-- An operand that is resolved second may as well be resolved by itself, if the hint that it gets
makes no difference to it. -/
theorem pairReports_iff {first second : Expr} (h : second.takesHint = true →
    Ty.ofLiteral (some (first.typeIn scope ctx none)) = .int .w32) :
    PairReports scope ctx first second ↔
      (first.resolve scope none).Reports ctx ∨ (second.resolve scope none).Reports ctx ∨
        ¬ (first.typeIn scope ctx none).Compares (second.typeIn scope ctx none) := by
  have hresolve : second.resolve scope (some (first.typeIn scope ctx none)) =
      second.resolve scope none := resolve_hint second h
  have htype : second.typeIn scope ctx (some (first.typeIn scope ctx none)) =
      second.typeIn scope ctx none := by
    unfold typeIn at hresolve ⊢
    rw [hresolve]
  rw [PairReports, htype, hresolve]

/-- **Where no operand gets a hint that matters, they may be resolved in either order.** -/
theorem pairReports_comm {a b : Expr}
    (ha : a.takesHint = true → Ty.ofLiteral (some (b.typeIn scope ctx none)) = .int .w32)
    (hb : b.takesHint = true → Ty.ofLiteral (some (a.typeIn scope ctx none)) = .int .w32) :
    PairReports scope ctx a b ↔ PairReports scope ctx b a := by
  have hcompares : (a.typeIn scope ctx none).Compares (b.typeIn scope ctx none) ↔
      (b.typeIn scope ctx none).Compares (a.typeIn scope ctx none) :=
    ⟨Ty.Compares.symm, Ty.Compares.symm⟩
  rw [pairReports_iff hb, pairReports_iff ha, hcompares]
  tauto

/-- **Both orders report the same** unless an operand misses its hint. -/
theorem reports_mirrored {a b : Expr} (ha : ¬ a.MissesHint scope ctx b)
    (hb : ¬ b.MissesHint scope ctx a) (op : CompareOp) (id id' : NodeId) (span span' : Span)
    (expected expected' : Option Ty) :
    ((Expr.binary id (.compare op) a b span).resolve scope expected).Reports ctx ↔
      ((Expr.binary id' (.compare op.mirrored) b a span').resolve scope expected').Reports ctx := by
  cases hla : a.isIntLiteral with
  | true =>
      cases hlb : b.isIntLiteral with
      | true =>
          -- two literals are resolved from left to right, each of them as an `int32`
          rw [reports_compare (by simp [hlb]), reports_compare (by simp [hla])]
          exact pairReports_comm (fun _ => ofLiteral_typeIn (takesHint_of_isIntLiteral hlb))
            fun _ => ofLiteral_typeIn (takesHint_of_isIntLiteral hla)
      | false => rw [reports_compare_swapped (by simp [hla, hlb]), reports_compare (by simp [hlb])]
  | false =>
      cases hlb : b.isIntLiteral with
      | true => rw [reports_compare (by simp [hla]), reports_compare_swapped (by simp [hla, hlb])]
      | false =>
          rw [reports_compare (by simp [hla]), reports_compare (by simp [hlb])]
          refine pairReports_comm (fun h => ?_) fun h => ?_
          · exact Decidable.not_not.1 fun hne => ha ⟨h, hla, hne⟩
          · exact Decidable.not_not.1 fun hne => hb ⟨h, hlb, hne⟩

/-- An operand that misses its hint is not compared to another one that takes hints. -/
theorem MissesHint.other {a b : Expr} (h : a.MissesHint scope ctx b) :
    b.takesHint = false ∧ b.isIntLiteral = false := by
  have htakes : b.takesHint = false := by
    cases hb : b.takesHint with
    | false => rfl
    | true => exact absurd (ofLiteral_typeIn hb) h.2.2
  refine ⟨htakes, ?_⟩
  cases hliteral : b.isIntLiteral with
  | false => rfl
  | true => simp [takesHint_of_isIntLiteral hliteral] at htakes

/-- **On the left, the operand has no hint**: it is an `int32`, or has no type at all, and does
not fit the other operand if it is an `int32`. -/
theorem MissesHint.reports_left {a b : Expr} (h : a.MissesHint scope ctx b) (op : CompareOp)
    (id : NodeId) (span : Span) (expected : Option Ty) :
    ((Expr.binary id (.compare op) a b span).resolve scope expected).Reports ctx ↔
      (a.resolve scope none).Reports ctx ∨ (b.resolve scope none).Reports ctx ∨
        a.typeIn scope ctx none ≠ .error := by
  obtain ⟨htakes, hliteral, hhint⟩ := h
  obtain ⟨hother, -⟩ := MissesHint.other ⟨htakes, hliteral, hhint⟩
  have hnever : b.takesHint = true → Ty.ofLiteral (some (a.typeIn scope ctx none)) = .int .w32 :=
    fun htrue => absurd htrue (by simp [hother])
  obtain ⟨hinteger, -⟩ := Ty.ofLiteral_some hhint
  have hcompares : (a.typeIn scope ctx none).Compares (b.typeIn scope ctx none) ↔
      a.typeIn scope ctx none = .error := by
    refine ⟨?_, .inl⟩
    rintro (herror | herror | ⟨-, hsame⟩)
    · exact herror
    · rw [herror] at hinteger
      cases hinteger
    · rw [← hsame] at hhint
      exact absurd (ofLiteral_typeIn htakes) hhint
  rw [reports_compare (by simp [hliteral]), pairReports_iff hnever, hcompares]

/-- **On the right, the operand has its hint**: it takes the type of the other operand. -/
theorem MissesHint.reports_right {a b : Expr} (h : a.MissesHint scope ctx b) (op : CompareOp)
    (id : NodeId) (span : Span) (expected : Option Ty) :
    ((Expr.binary id (.compare op) b a span).resolve scope expected).Reports ctx ↔
      (b.resolve scope none).Reports ctx ∨
        (a.resolve scope (some (b.typeIn scope ctx none))).Reports ctx := by
  obtain ⟨-, hother⟩ := h.other
  obtain ⟨htakes, -, hhint⟩ := h
  obtain ⟨hinteger, hty⟩ := Ty.ofLiteral_some hhint
  have hcompares : (b.typeIn scope ctx none).Compares
      (a.typeIn scope ctx (some (b.typeIn scope ctx none))) := by
    rcases always_takesHint scope _ a htakes ctx with hsame | herror
    · exact .inr (.inr ⟨hinteger, hty.trans hsame.symm⟩)
    · exact .inr (.inl herror)
  rw [reports_compare (by simp [hother]), PairReports]
  simp only [hcompares, not_true_eq_false, or_false]

instance (scope : ScopeId) (ctx : Context) (e other : Expr) :
    Decidable (e.MissesHint scope ctx other) :=
  inferInstanceAs (Decidable (_ ∧ _ ∧ _))

end Expr

/-- **Comparisons are accepted from both sides or from none**, unless an operand misses its hint.
Then the literals of this operand are `int32` if it stands on the left, which is reported unless
something else was; on the right they are of the type that the left operand has. -/
theorem comparison_mirrored (scope : ScopeId) (ctx : Context) (a b : Expr) (op : CompareOp)
    (id id' : NodeId) (span span' : Span) (expected expected' : Option Ty) :
    (¬ a.MissesHint scope ctx b → ¬ b.MissesHint scope ctx a →
      (((Expr.binary id (.compare op) a b span).resolve scope expected).Reports ctx ↔
        ((Expr.binary id' (.compare op.mirrored) b a span').resolve scope expected').Reports ctx)) ∧
    (a.MissesHint scope ctx b →
      (((Expr.binary id (.compare op) a b span).resolve scope expected).Reports ctx ↔
        (a.resolve scope none).Reports ctx ∨ (b.resolve scope none).Reports ctx ∨
          a.typeIn scope ctx none ≠ .error) ∧
      (((Expr.binary id' (.compare op.mirrored) b a span').resolve scope expected').Reports ctx ↔
        (b.resolve scope none).Reports ctx ∨
          (a.resolve scope (some (b.typeIn scope ctx none))).Reports ctx)) :=
  ⟨fun ha hb => Expr.reports_mirrored ha hb op id id' span span' expected expected',
    fun h => ⟨h.reports_left op id span expected, h.reports_right op.mirrored id' span' expected'⟩⟩

/-- The root class, and one variable in the root scope. -/
def Context.ofVariable (ident : Ident) (ty : Ty) : Context :=
  { Context.initial with
    symbols := Context.initial.symbols.add (.localVariable ⟨ident.name, ident.span, ty⟩)
    scopes := Context.initial.scopes.bind 0 ident.name Context.initial.symbols.size }

/-- The expression `1 + 2`. -/
def Expr.onePlusTwo : Expr :=
  .binary 2 (.arith .add) (.literal 0 (.int 1) {}) (.literal 1 (.int 2) {}) {}

/-- `1 + 2 < x` and `x > 1 + 2`, where `x` is an `int32`, and where it is an `int64`. -/
theorem comparison_mirrored_sum :
    (((Expr.binary 4 (.compare .lt) .onePlusTwo (.name 3 ⟨"x", {}⟩) {}).resolve 0 none).Reports
        (.ofVariable ⟨"x", {}⟩ .int32) ↔
      ((Expr.binary 4 (.compare .gt) (.name 3 ⟨"x", {}⟩) .onePlusTwo {}).resolve 0 none).Reports
        (.ofVariable ⟨"x", {}⟩ .int32)) ∧
    (((Expr.binary 4 (.compare .gt) (.name 3 ⟨"x", {}⟩) .onePlusTwo {}).resolve 0 none).Reports
        (.ofVariable ⟨"x", {}⟩ (.primitive (.int .w64))) ↔
      ((Expr.name 3 ⟨"x", {}⟩).resolve 0 none).Reports
          (.ofVariable ⟨"x", {}⟩ (.primitive (.int .w64))) ∨
        (Expr.onePlusTwo.resolve 0 (some (.primitive (.int .w64)))).Reports
          (.ofVariable ⟨"x", {}⟩ (.primitive (.int .w64)))) :=
  ⟨(comparison_mirrored 0 _ _ _ .lt 4 4 {} {} none none).1 (by decide) (by decide),
    ((comparison_mirrored 0 _ _ _ .lt 4 4 {} {} none none).2 (by decide)).2⟩

/-- An `int64` is compared to `1 + 2` on its right, but not on its left. -/
theorem comparison_asymmetric : ¬ ∀ (scope : ScopeId) (ctx : Context) (a b : Expr) (op : CompareOp)
    (id : NodeId) (span : Span) (expected : Option Ty),
    (((Expr.binary id (.compare op) a b span).resolve scope expected).Reports ctx ↔
      ((Expr.binary id (.compare op.mirrored) b a span).resolve scope expected).Reports ctx) := by
  intro h
  have hsum := h 0 (.ofVariable ⟨"x", {}⟩ (.primitive (.int .w64))) .onePlusTwo (.name 3 ⟨"x", {}⟩)
    .lt 4 {} none
  revert hsum
  decide

end ClassLang
