import ClassLang.Proofs.Render.Integers

/-!
# Arithmetic in both output languages

An arithmetic instruction has operands of the type of its result, and the constants among them
stand in the source (`Instruction.Integral`).  LLVM text says this type, so the instruction
computes the exact result wherever there is a place for it.  C text says it only through the
variables: two constants are computed in the type that C finds for them, `int` or `long`, whatever
type the result has.  So C agrees exactly unless both operands are constants and the result
leaves that type (`compile_arithmetic`), and then it has no meaning (`compile_not_sameArithmetic`).
-/

namespace ClassLang

/-- Integer constants stand in the source. -/
def Operand.Literal : Operand → Prop
  | .const n _ => 0 ≤ n ∧ n < 2 ^ 63
  | _ => True

/-- Arithmetic on integers works in an integer type of the source. -/
def Instruction.Integral : Instruction → Prop
  | .arith _ dest left right => dest.ty = .bool ∨ ∃ q : Primitive, q.isInteger = true ∧
      dest.ty = .int q.bits q.isSigned ∧ left.ty = dest.ty ∧ right.ty = dest.ty ∧
      left.Literal ∧ right.Literal
  | _ => True

section

variable {site : Site} {params : List (String × StorageType)} {own : List SymbolId}
  {ret : StorageType} {vars vars' : List SymbolId} {p p' : Point} {r : Region}

theorem Point.literal_fresh (p : Point) (t : StorageType) : (p.fresh t).Literal := trivial

theorem OperatorCode.integral {id : NodeId} {a b dest : Operand} {op : BinaryOp} {t : StorageType}
    {instruction : Operand → Instruction} (h : OperatorCode site id a b op t instruction)
    (hdest : dest.ty = t) (ha : a.Literal) (hb : b.Literal) : (instruction dest).Integral := by
  cases h with
  | and => exact .inl hdest
  | arith op q htype hinteger hleft hright =>
      exact .inr ⟨q, hinteger, hdest, hleft.trans hdest.symm, hright.trans hdest.symm, ha, hb⟩
  | compare => trivial

theorem Upcasts.integral {actual owner : SymbolId} {receiver a : Operand}
    (h : Upcasts site actual owner receiver p a r p') (hreceiver : receiver.Literal) :
    r.All Instruction.Integral ∧ a.Literal := by
  cases h with
  | same => exact ⟨Region.all_empty, hreceiver⟩
  | cast => exact ⟨Region.all_step.2 trivial, trivial⟩

/-- **Arithmetic of expressions works in types of the source.** -/
theorem Lowers.integral {task : Task} {ops : List Operand}
    (h : Lowers site params own vars task p ops r p')
    (hregular : ∀ sub ∈ task.subexprs, sub.Regular) :
    r.All Instruction.Integral ∧ ∀ a ∈ ops, a.Literal := by
  induction h with
  | bool id b span p =>
      refine ⟨Region.all_empty, ?_⟩
      cases b <;> simp [Operand.ofBool, Operand.Literal]
  | @int id q n span p htype hinteger hfits =>
      refine ⟨Region.all_empty, List.forall_mem_singleton.2 ?_⟩
      have hmax : n ≤ 2 ^ 63 - 1 := hregular _ (Expr.mem_subexprs _)
      exact ⟨Int.natCast_nonneg n, by omega⟩
  | string => exact ⟨Region.all_step.2 trivial, by simp [Point.literal_fresh]⟩
  | argument => exact ⟨Region.all_empty, by simp [Operand.Literal]⟩
  | load haddress hty ih =>
      obtain ⟨hcode, -⟩ := ih hregular
      exact ⟨Region.all_seq.2 ⟨hcode, Region.all_step.2 trivial⟩, by simp [Point.literal_fresh]⟩
  | or hleft hright ha hb ih₁ ih₂ =>
      obtain ⟨hregular₁, hregular₂⟩ := Expr.forall_binary hregular
      obtain ⟨hcode₁, -⟩ := ih₁ hregular₁
      obtain ⟨hcode₂, -⟩ := ih₂ hregular₂
      exact ⟨Region.all_shortCircuit (fun _ => trivial) (fun _ => trivial) hcode₁ hcode₂ trivial
        trivial, by simp [Point.literal_fresh]⟩
  | operator hleft hright hcode ih₁ ih₂ =>
      obtain ⟨hregular₁, hregular₂⟩ := Expr.forall_binary hregular
      obtain ⟨hcode₁, hops₁⟩ := ih₁ hregular₁
      obtain ⟨hcode₂, hops₂⟩ := ih₂ hregular₂
      refine ⟨Region.all_seq.2 ⟨hcode₁, Region.all_seq.2 ⟨hcode₂, Region.all_step.2 ?_⟩⟩,
        by simp [Point.literal_fresh]⟩
      exact hcode.integral rfl (hops₁ _ (List.mem_singleton_self _))
        (hops₂ _ (List.mem_singleton_self _))
  | assign hvalue haddress hty ih₁ ih₂ =>
      obtain ⟨hregular₁, hregular₂⟩ := Expr.forall_assign hregular
      obtain ⟨hcode₁, -⟩ := ih₁ hregular₂
      obtain ⟨hcode₂, -⟩ := ih₂ hregular₁
      exact ⟨Region.all_seq.2 ⟨hcode₁, Region.all_seq.2 ⟨hcode₂, Region.all_step.2 trivial⟩⟩,
        by simp⟩
  | @call e id callee object args function entry signature names p p₁ p₂ self values r₁ r₂ hcall
      hsymbol hentry hsignature hself hvalues htakes hcallable ih₁ ih₂ =>
      obtain ⟨hregular₁, hregular₂⟩ := hcall.forall_parts hregular entry.owner
      obtain ⟨hcode₁, -⟩ := ih₁ hregular₁
      obtain ⟨hcode₂, -⟩ := ih₂ hregular₂
      refine ⟨Region.all_seq.2 ⟨hcode₁, Region.all_seq.2 ⟨hcode₂, Region.all_step.2 trivial⟩⟩,
        fun a ha => ?_⟩
      unfold Point.result at ha
      split at ha
      · simp at ha
      · rw [List.mem_singleton.1 ha]
        exact p₂.literal_fresh _
  | stored => exact ⟨Region.all_empty, by simp [Operand.Literal]⟩
  | ownField => exact ⟨Region.all_step.2 trivial, by simp [Point.literal_fresh]⟩
  | member hsymbol hbase hty hfield ih =>
      obtain ⟨hcode, -⟩ := ih (Expr.forall_member hregular)
      exact ⟨Region.all_seq.2 ⟨hcode, Region.all_step.2 trivial⟩, by simp [Point.literal_fresh]⟩
  | basePointer _ _ _ ih => exact ih hregular
  | basePlace _ _ _ ih => exact ih hregular
  | free => exact ⟨Region.all_empty, by simp⟩
  | self _ _ _ hcast =>
      obtain ⟨hcode, hop⟩ := hcast.integral trivial
      exact ⟨hcode, by simpa using hop⟩
  | object _ _ _ _ hcast ih =>
      obtain ⟨hcode₁, hops₁⟩ := ih (Task.forall_object hregular)
      obtain ⟨hcode₂, hop⟩ := hcast.integral (hops₁ _ (List.mem_singleton_self _))
      exact ⟨Region.all_seq.2 ⟨hcode₁, hcode₂⟩, by simpa using hop⟩
  | nil => exact ⟨Region.all_empty, by simp⟩
  | cons hvalue hvalues ih₁ ih₂ =>
      obtain ⟨hregular₁, hregular₂⟩ := Expr.forall_all hregular
      obtain ⟨hcode₁, hops₁⟩ := ih₁ hregular₁
      obtain ⟨hcode₂, hops₂⟩ := ih₂ hregular₂
      exact ⟨Region.all_seq.2 ⟨hcode₁, hcode₂⟩,
        List.forall_mem_cons.2 ⟨hops₁ _ (List.mem_singleton_self _), hops₂⟩⟩

/-- **Arithmetic of statements works in types of the source.** -/
theorem LowersStmt.integral {task : StmtTask}
    (h : LowersStmt site params own ret vars task p r p' vars')
    (hregular : ∀ visit ∈ task.visits, visit.Regular) : r.All Instruction.Integral := by
  induction h with
  | nil => exact Region.all_empty
  | cons _ _ _ ih₁ ih₂ =>
      obtain ⟨hfirst, hrest⟩ := Stmt.allProper_cons.1 hregular
      exact Region.all_seq.2 ⟨ih₁ hfirst, ih₂ hrest⟩
  | last _ _ _ ih => exact ih (Stmt.allProper_cons.1 hregular).1
  | block _ _ _ ih => exact ih (Stmt.proper_block.1 hregular)
  | declare => exact Region.all_step.2 trivial
  | declareWith _ _ _ _ _ _ hvalue _ =>
      obtain ⟨hcode, -⟩ := hvalue.integral (Stmt.proper_varDecl.1 hregular _ rfl)
      exact Region.all_seq.2 ⟨Region.all_step.2 trivial, Region.all_seq.2
        ⟨hcode, Region.all_step.2 trivial⟩⟩
  | ifThen _ hcondition _ _ ih =>
      obtain ⟨hproper, hside⟩ := Stmt.proper_ifThen.1 hregular
      exact Region.all_seq.2 ⟨(hcondition.integral hproper).1,
        Region.all_ifThen (fun _ => trivial) (fun _ => trivial) (ih hside) trivial⟩
  | ifElse _ hcondition _ _ _ ih₁ ih₂ =>
      obtain ⟨hproper, hside₁, hside₂⟩ := Stmt.proper_ifElse.1 hregular
      exact Region.all_seq.2 ⟨(hcondition.integral hproper).1,
        Region.all_ifElse (fun _ => trivial) (fun _ => trivial) (ih₁ hside₁) (ih₂ hside₂) trivial⟩
  | ret => exact Region.all_step.2 trivial
  | retValue _ hvalue _ _ =>
      exact Region.all_seq.2 ⟨(hvalue.integral (Stmt.proper_ret.1 hregular _ rfl)).1,
        Region.all_step.2 trivial⟩
  | expr _ hvalue => exact (hvalue.integral (Stmt.proper_expr.1 hregular)).1

theorem BindsArguments.integral {arguments : List SymbolId}
    (h : BindsArguments site params vars arguments p r p' vars') :
    r.All Instruction.Integral := by
  induction h with
  | nil => exact Region.all_empty
  | pointer _ _ ih => exact ih
  | value _ _ _ _ _ ih =>
      exact Region.all_seq.2 ⟨Region.all_step.2 trivial, Region.all_seq.2
        ⟨Region.all_step.2 trivial, ih⟩⟩

theorem LowersBody.integral {arguments : List SymbolId} {block : Block}
    (h : LowersBody site params ret arguments (some block) r)
    (hproper : Stmt.AllProper block.stmts) : r.All Instruction.Integral := by
  cases h with
  | leaves harguments hstmts _ =>
      exact Region.all_seq.2 ⟨harguments.integral, hstmts.integral hproper⟩
  | goesOn harguments hstmts _ _ =>
      exact Region.all_seq.2 ⟨harguments.integral, Region.all_seq.2
        ⟨hstmts.integral hproper, Region.all_step.2 trivial⟩⟩

/-- All arithmetic of a unit works in types of the source. -/
theorem Accepted.integral {source : String} {script : Script} {compiled : Compiled}
    (h : Accepted source script compiled) {name : String} {signature : Signature}
    {names : List String} {body : List Instruction}
    (hmem : .function name signature names body ∈ compiled.unit) :
    ∀ i ∈ body, i.Integral := by
  rcases h.generates.written hmem with rfl | ⟨decl, hdecl, block, hblock, _, _, _, _, -, hcode, heq⟩
  · simp [Instruction.Integral]
  · cases heq
    exact hcode.body.integral (Stmt.proper_block.1
      ((Script.proper_functions h.proper hdecl).2 block hblock))

end

/-! ## Types in C -/

/-- An integer type of the source. -/
def Primitive.intType (q : Primitive) : IntType := ⟨q.bits, q.isSigned⟩

/-- The type that C gives to an operand that is a constant. -/
def Operand.constantType : Operand → Option IntType
  | .const n _ => some (if n < 2 ^ 31 then .int else .long)
  | _ => none

/-- What an operand stands for in C: a constant for itself, and anything else for a variable of
its type. -/
def Operand.Holds (known : C.Variables) (v : Int) : Operand → Prop
  | .const n _ => v = n
  | .temp id (.int bits signed) => known (C.tempName id) = some ⟨⟨bits, signed⟩, v⟩
  | .named name (.int bits signed) => known name = some ⟨⟨bits, signed⟩, v⟩
  | _ => False

/-- Both operands are constants, and the result leaves the type that C computes them in. -/
def C.Overflows (left right : Operand) (result : Int) : Prop :=
  ∃ s ∈ left.constantType, ∃ t ∈ right.constantType, ¬ (s.common t).Contains result

section

variable {q : Primitive} {t : IntType} {a left right : Operand} {known : C.Variables} {v x y : Int}

theorem IntType.int_contains : IntType.int.Contains v ↔ -2 ^ 31 ≤ v ∧ v < 2 ^ 31 := Iff.rfl

theorem IntType.long_contains : IntType.long.Contains v ↔ -2 ^ 63 ≤ v ∧ v < 2 ^ 63 := Iff.rfl

/-- The type that an operand and one of a type of the source are converted to has place for all
values of the latter. -/
theorem Primitive.contains_common (hq : q.isInteger = true)
    (ht : t = .int ∨ t = .long ∨ t = q.intType) (hv : q.intType.Contains v) :
    (t.common q.intType).Contains v := by
  cases q with
  | void | bool => cases hq
  | int w | uint w =>
      rcases ht with rfl | rfl | rfl <;> cases w <;>
        simp [Primitive.intType, IntType.common, IntType.promote, IntType.int, IntType.long,
          Primitive.bits, Width.bits, Primitive.isSigned, IntType.Contains,
          StorageType.Contains] at hv ⊢ <;> omega

/-- Two constants are converted to a type that has place for both. -/
theorem IntType.contains_common_constants {s t : IntType} (hs : s = .int ∨ s = .long)
    (ht : t = .int ∨ t = .long) :
    (s.common t).signed = true ∧ (s.Contains v → (s.common t).Contains v) ∧
      (t.Contains v → (s.common t).Contains v) := by
  have hwider : IntType.int.Contains v → IntType.long.Contains v := by
    rw [int_contains, long_contains]
    omega
  rcases hs with rfl | rfl <;> rcases ht with rfl | rfl
  · exact ⟨rfl, id, id⟩
  · exact ⟨rfl, hwider, id⟩
  · exact ⟨rfl, id, hwider⟩
  · exact ⟨rfl, id, id⟩

/-- The type of a constant has place for it. -/
theorem Operand.Holds.constantType (h : a.Holds known v) (ht : t ∈ a.constantType)
    (hliteral : a.Literal) : (t = .int ∨ t = .long) ∧ t.Contains v := by
  cases a with
  | const n ty =>
      cases h
      cases ht
      obtain ⟨hnonneg, hlt⟩ := hliteral
      split
      · next hsmall => exact ⟨.inl rfl, IntType.int_contains.2 ⟨by omega, hsmall⟩⟩
      · next hlarge => exact ⟨.inr rfl, IntType.long_contains.2 ⟨by omega, hlt⟩⟩
  | _ => cases ht

/-- The number that an operand is in C. -/
theorem Operand.Holds.number?_eq (h : a.Holds known v) (hty : a.ty = .int q.bits q.isSigned)
    (hliteral : a.Literal) :
    (C.Expr.ofOperand a).number? known = some ⟨a.constantType.getD q.intType, v⟩ := by
  cases a with
  | const n ty =>
      cases hty
      cases h
      obtain ⟨hnonneg, hlt⟩ := hliteral
      have htype : IntType.ofConstant v = some (if v < 2 ^ 31 then .int else .long) := by
        unfold IntType.ofConstant
        split
        · next hsmall => rw [if_pos (by omega)]
        · next hlarge => rw [if_pos (by omega), if_neg (by omega)]
      change (IntType.ofConstant v).map _ = _
      rw [htype]
      rfl
  | temp id ty => cases hty; exact h
  | named name ty => cases hty; exact h
  | global name ty => cases hty; exact h.elim
  | label l => exact h.elim

/-- An operand of a type of the source holds one of its values. -/
structure Operand.Reads (known : C.Variables) (q : Primitive) (v : Int) (a : Operand) : Prop where
  holds : a.Holds known v
  ty : a.ty = .int q.bits q.isSigned
  literal : a.Literal
  contains : q.intType.Contains v

/-- **C computes the exact result**, unless it overflows. -/
theorem C.number?_arith {op : ArithOp} {result : Int} (hq : q.isInteger = true)
    (hleft : left.Reads known q x) (hright : right.Reads known q y)
    (hexact : op.exact x y = some result) (hresult : q.intType.Contains result) :
    (¬ C.Overflows left right result → ∃ t, (C.Expr.binary op.text (.ofOperand left)
        (.ofOperand right)).number? known = some ⟨t, result⟩) ∧
      (C.Overflows left right result → (C.Expr.binary op.text (.ofOperand left)
        (.ofOperand right)).number? known = none) := by
  have hnumber : (C.Expr.binary op.text (.ofOperand left) (.ofOperand right)).number? known =
      C.Number.arith? op ⟨left.constantType.getD q.intType, x⟩
        ⟨right.constantType.getD q.intType, y⟩ := by
    simp only [C.Expr.number?, C.arithOp?_text, hleft.holds.number?_eq hleft.ty hleft.literal,
      hright.holds.number?_eq hright.ty hright.literal, Option.bind_eq_bind, Option.bind_some]
  rw [hnumber]
  -- a variable among the operands makes the common type wide enough for its own
  have hvariable : (∀ v, q.intType.Contains v → ((left.constantType.getD q.intType).common
      (right.constantType.getD q.intType)).Contains v) → ∃ t,
      C.Number.arith? op ⟨left.constantType.getD q.intType, x⟩
        ⟨right.constantType.getD q.intType, y⟩ = some ⟨t, result⟩ := fun hwide =>
    ⟨_, C.Number.arith?_of_contains (hwide x hleft.contains) (hwide y hright.contains) hexact
      (hwide result hresult)⟩
  cases hs : left.constantType with
  | none =>
      have hcalm : ¬ C.Overflows left right result := by simp [C.Overflows, hs]
      refine ⟨fun _ => ?_, fun h => absurd h hcalm⟩
      rw [hs] at hvariable
      apply hvariable
      intro v hv
      rw [Option.getD_none, IntType.common_comm]
      cases ht : right.constantType with
      | none => exact q.contains_common hq (.inr (.inr rfl)) hv
      | some t =>
          have htype := (hright.holds.constantType ht hright.literal).1
          exact q.contains_common hq (htype.imp_right .inl) hv
  | some s =>
      obtain ⟨hstype, hsx⟩ := hleft.holds.constantType hs hleft.literal
      cases ht : right.constantType with
      | none =>
          have hcalm : ¬ C.Overflows left right result := by simp [C.Overflows, ht]
          refine ⟨fun _ => ?_, fun h => absurd h hcalm⟩
          rw [hs, ht] at hvariable
          exact hvariable fun v hv => q.contains_common hq (hstype.imp_right .inl) hv
      | some t =>
          obtain ⟨httype, hty⟩ := hright.holds.constantType ht hright.literal
          obtain ⟨hsigned, hwiden, -⟩ := IntType.contains_common_constants (v := x) hstype httype
          obtain ⟨-, -, hwiden'⟩ := IntType.contains_common_constants (v := y) hstype httype
          have hoverflows : C.Overflows left right result ↔ ¬ (s.common t).Contains result := by
            simp [C.Overflows, hs, ht]
          rw [hoverflows]
          exact ⟨fun h => ⟨s.common t, C.Number.arith?_of_contains (a := ⟨s, x⟩) (b := ⟨t, y⟩)
              (hwiden hsx) (hwiden' hty) hexact (not_not.1 h)⟩,
            C.Number.arith?_of_overflow (a := ⟨s, x⟩) (b := ⟨t, y⟩) (hwiden hsx) (hwiden' hty)
              hsigned hexact⟩

end

/-! ## Units -/

/-- **Arithmetic in LLVM is exact, and in C as well unless it overflows.**  For every arithmetic
instruction on integers of an accepted source, and for all values of its operands, if the exact
result has a place in the type of the instruction, then this is what the instruction computes as
it is written for LLVM, at the width of this type.  The statement that is written for C defines
a variable with the same value, unless both operands are constants and the result leaves the type
that C computes them in; then, and only then, the statement has no meaning. -/
theorem compile_arithmetic {source : String} {compiled : Compiled}
    (h : compile source = .ok compiled) {name : String} {signature : Signature}
    {names : List String} {body : List Instruction}
    (hmem : .function name signature names body ∈ compiled.unit) {op : ArithOp}
    {dest left right : Operand} (hi : .arith op dest left right ∈ body) {bits : Nat}
    {signed : Bool} (hty : dest.ty = .int bits signed) {known : C.Variables} {x y result : Int}
    (hleft : left.Holds known x) (hright : right.Holds known y) (hx : dest.ty.Contains x)
    (hy : dest.ty.Contains y) (hexact : op.exact x y = some result)
    (hresult : dest.ty.Contains result) :
    (Llvm.instruction (.arith op dest left right) = Llvm.value dest ++ " = " ++
        (Llvm.arithName op signed ++ " " ++ ("i" ++ toString bits ++ " " ++ Llvm.value left) ++
          ", " ++ Llvm.value right) ∧
      (Llvm.perform (Llvm.arithName op signed) (BitVec.ofInt bits x) (BitVec.ofInt bits y)).map
        (IntType.mk bits signed).read = some result) ∧
    ∃ stmt, C.stmt? (.arith op dest left right) = some stmt ∧
      C.instruction (.arith op dest left right) = stmt.text ∧
      (¬ C.Overflows left right result → stmt.defines? known = some result) ∧
      (C.Overflows left right result → stmt.defines? known = none) := by
  obtain ⟨script, haccepted⟩ := accepted_of_compile h
  rcases haccepted.integral hmem _ hi with hbool | ⟨q, hq, hdest, hleftTy, hrightTy, hlit₁, hlit₂⟩
  · cases hty.symm.trans hbool
  obtain ⟨rfl, rfl⟩ : bits = q.bits ∧ signed = q.isSigned := by
    simpa using hty.symm.trans hdest
  have hbits : 0 < q.intType.bits := by
    cases q with
    | void | bool => cases hq
    | int w | uint w => cases w <;> decide
  rw [hdest] at hx hy hresult
  have hreads : left.Reads known q x := ⟨hleft, hleftTy.trans hdest, hlit₁, hx⟩
  have hreads' : right.Reads known q y := ⟨hright, hrightTy.trans hdest, hlit₂, hy⟩
  obtain ⟨hcalm, hoverflow⟩ := C.number?_arith hq hreads hreads' hexact hresult
  refine ⟨⟨?_, Llvm.perform_eq (t := q.intType) hbits hx hy hexact hresult⟩, _, rfl, rfl,
    fun hno => ?_, fun hover => ?_⟩
  · simp [Llvm.instruction, Llvm.define, Llvm.typed, Llvm.type, hreads.ty, StorageType.isSigned]
  · obtain ⟨t, hnumber⟩ := hcalm hno
    rw [C.define, hdest, C.Stmt.defines?, hnumber, Option.map_some]
    exact congrArg some (IntType.convert_of_contains (t := q.intType) hbits hresult)
  · rw [C.define, hdest, C.Stmt.defines?, hoverflow hover]
    rfl

/-- Whether the function `f` of a source has an arithmetic instruction. -/
def hasArith (source : String) (op : ArithOp) (dest left right : Operand) : Bool :=
  match compile source with
  | .ok compiled =>
    match compiled.unit.function? "f" with
    | some (_, _, body) => body.any fun
      | .arith op' dest' left' right' => (op', dest', left', right') == (op, dest, left, right)
      | _ => false
    | none => false
  | .error _ => false

theorem exists_of_hasArith (source : String) (op : ArithOp) (dest left right : Operand)
    (h : hasArith source op dest left right = true) :
    ∃ compiled signature names body, compile source = .ok compiled ∧
      .function "f" signature names body ∈ compiled.unit ∧ .arith op dest left right ∈ body := by
  unfold hasArith at h
  split at h
  · next compiled hcompile =>
      split at h
      · next signature names body hfunction =>
          obtain ⟨i, hi, heq⟩ := List.any_eq_true.1 h
          split at heq
          · cases eq_of_beq heq
            exact ⟨compiled, signature, names, body, hcompile,
              CodeUnit.mem_of_function? hfunction, hi⟩
          · cases heq
      · cases h
  · cases h

/-- A sum of a variable and a constant that is no `int`, in an unsigned type. -/
def sumSource : String := "uint32 f(uint32 n) { return n + 3000000000; }"

theorem compile_arithmetic_sum : ∃ compiled signature names body dest left right,
    compile sumSource = .ok compiled ∧ .function "f" signature names body ∈ compiled.unit ∧
    .arith .add dest left right ∈ body ∧ dest.ty = .int 32 false ∧
    (Llvm.perform (Llvm.arithName .add false) (BitVec.ofInt 32 1294967295)
      (BitVec.ofInt 32 3000000000)).map (IntType.mk 32 false).read = some 4294967295 ∧
    ∃ stmt, C.stmt? (.arith .add dest left right) = some stmt ∧
      stmt.defines? (fun _ => some ⟨⟨32, false⟩, 1294967295⟩) = some 4294967295 := by
  obtain ⟨compiled, signature, names, body, hcompile, hmem, hi⟩ :=
    exists_of_hasArith sumSource .add (.temp 2 (.int 32 false)) (.temp 1 (.int 32 false))
      (.const 3000000000 (.int 32 false)) (by decide +kernel)
  have hleft : (Operand.temp 1 (.int 32 false)).Holds
      (fun _ => some ⟨⟨32, false⟩, 1294967295⟩) 1294967295 := rfl
  have hexact : ArithOp.exact .add 1294967295 3000000000 = some 4294967295 := rfl
  obtain ⟨⟨-, hllvm⟩, stmt, hstmt, -, hcalm, -⟩ := compile_arithmetic hcompile hmem hi rfl hleft rfl
    (by simp [Operand.ty, StorageType.Contains]) (by simp [Operand.ty, StorageType.Contains]) hexact
    (by simp [Operand.ty, StorageType.Contains])
  exact ⟨compiled, signature, names, body, _, _, _, hcompile, hmem, hi, rfl, hllvm, stmt, hstmt,
    hcalm (by simp [C.Overflows, Operand.constantType])⟩

/-- A product of two constants that is too large for an `int`. -/
def productSource : String := "int64 f() { return 2000000000 * 2; }"

/-- **C does not always compute the exact result.**  The product of two constants of a wide type
is computed as an `int`, for which it is too large, although there is a place for it in the type
of the instruction. -/
theorem compile_not_sameArithmetic : ∃ compiled signature names body op dest left right result,
    compile productSource = .ok compiled ∧
    .function "f" signature names body ∈ compiled.unit ∧ .arith op dest left right ∈ body ∧
    dest.ty = .int 64 true ∧ left = .const 2000000000 dest.ty ∧ right = .const 2 dest.ty ∧
    op.exact 2000000000 2 = some result ∧ dest.ty.Contains result ∧
    ∃ stmt, C.stmt? (.arith op dest left right) = some stmt ∧
      ∀ known, stmt.defines? known = none := by
  obtain ⟨compiled, signature, names, body, hcompile, hmem, hi⟩ :=
    exists_of_hasArith productSource .mul (.temp 0 (.int 64 true))
      (.const 2000000000 (.int 64 true)) (.const 2 (.int 64 true)) (by decide +kernel)
  exact ⟨compiled, signature, names, body, .mul, _, _, _, 4000000000, hcompile, hmem, hi, rfl, rfl,
    rfl, rfl, by simp [StorageType.Contains, Operand.ty], _, rfl, fun _ => by rfl⟩

end ClassLang
