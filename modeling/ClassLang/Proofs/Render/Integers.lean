import ClassLang.Proofs.Lower.WellTyped
import ClassLang.Render.C
import ClassLang.Render.Llvm
import Mathlib.Data.Int.Bitwise

/-!
# Integers in C and in LLVM

What the two output languages make of an arithmetic operation on integers.

* LLVM has untyped bits, and the instruction says how wide they are (`Llvm.perform`).
* C gives each operand a type: a variable has the type it was declared with, and a decimal
  constant is an `int` if it fits and a `long` otherwise.  Both operands are converted to a
  common type, which is at least `int`, and the operation is done in this type; an overflow of
  a signed type has no meaning (`C.Expr.number?`).

The measure for both is the exact result (`ArithOp.exact`): what the operation gives on integers
without bounds.
-/

namespace ClassLang

/-- The result on integers without bounds: division truncates, and bits are those of two's
complement. -/
def ArithOp.exact (op : ArithOp) (x y : Int) : Option Int :=
  match op with
  | .add => some (x + y)
  | .sub => some (x - y)
  | .mul => some (x * y)
  | .div => if y = 0 then none else some (x.tdiv y)
  | .bitAnd => some (x.land y)
  | .bitOr => some (x.lor y)
  | .bitXor => some (Int.xor x y)

/-! ## Integer types -/

/-- An integer type. -/
structure IntType where
  bits : Nat
  signed : Bool
  deriving DecidableEq, Repr, Inhabited

namespace IntType

/-- The values of the type. -/
def Contains (t : IntType) (v : Int) : Prop := (StorageType.int t.bits t.signed).Contains v

instance (t : IntType) (v : Int) : Decidable (t.Contains v) :=
  match t with
  | ⟨bits, true⟩ => inferInstanceAs (Decidable (-2 ^ (bits - 1) ≤ v ∧ v < 2 ^ (bits - 1)))
  | ⟨bits, false⟩ => inferInstanceAs (Decidable (0 ≤ v ∧ v < 2 ^ bits))

/-- The value that bits stand for. -/
def read (t : IntType) (z : BitVec t.bits) : Int := if t.signed then z.toInt else z.toNat

/-- Conversion to a type keeps the low bits. -/
def convert (t : IntType) (v : Int) : Int := t.read (BitVec.ofInt t.bits v)

variable {t : IntType} {v : Int}

theorem contains_zero (t : IntType) : t.Contains 0 := by
  obtain ⟨bits, signed⟩ := t
  have hpos : ∀ n : Nat, (0 : Int) < 2 ^ n := fun n => Int.pow_pos (by decide)
  cases signed with
  | true => exact ⟨Int.neg_nonpos_of_nonneg (Int.le_of_lt (hpos _)), hpos _⟩
  | false => exact ⟨Int.le_refl 0, hpos _⟩

/-- The values of a type are read back from their bits. -/
theorem convert_of_contains (ht : 0 < t.bits) (hv : t.Contains v) : t.convert v = v := by
  obtain ⟨bits, signed⟩ := t
  cases signed with
  | true => exact BitVec.toInt_ofInt_eq_self ht hv.1 hv.2
  | false =>
      obtain ⟨hnonneg, hlt⟩ := hv
      have hmod : v % 2 ^ bits = v := Int.emod_eq_of_lt hnonneg hlt
      simp only [convert, read, BitVec.toNat_ofInt]
      push_cast
      rw [hmod]
      exact Int.toNat_of_nonneg hnonneg

/-- The type `int`. -/
def int : IntType := ⟨32, true⟩

/-- The type `long`. -/
def long : IntType := ⟨64, true⟩

/-- What is narrower than `int` is computed as an `int`. -/
def promote (t : IntType) : IntType := if t.bits < 32 then int else t

/-- The type that two operands are converted to: the wider one, and of two types with the same
width the unsigned one. -/
def common (s t : IntType) : IntType :=
  if s.promote.bits < t.promote.bits then t.promote
  else if t.promote.bits < s.promote.bits then s.promote
  else ⟨s.promote.bits, s.promote.signed && t.promote.signed⟩

/-- The type of a decimal constant, if there is one that can hold it. -/
def ofConstant (v : Int) : Option IntType :=
  if v.natAbs < 2 ^ 31 then some int else if v.natAbs < 2 ^ 63 then some long else none

theorem common_comm (s t : IntType) : s.common t = t.common s := by
  unfold common
  split
  · next hlt => rw [if_neg (Nat.not_lt.2 hlt.le)]
  · next hle =>
      split
      · rfl
      · next hge =>
          rw [Nat.le_antisymm (Nat.not_lt.1 hge) (Nat.not_lt.1 hle), Bool.and_comm]

/-- The operands of an operation are as wide as an `int` at least. -/
theorem le_bits_promote (t : IntType) : 32 ≤ t.promote.bits := by
  unfold promote
  split
  · exact Nat.le_refl 32
  · next hle => exact Nat.not_lt.1 hle

theorem le_bits_common (s t : IntType) : 32 ≤ (s.common t).bits := by
  have hs := s.le_bits_promote
  have ht := t.le_bits_promote
  unfold common
  split
  · exact ht
  · split
    · exact hs
    · exact hs

end IntType

/-! ## C -/

namespace C

/-- A value with its type. -/
structure Number where
  type : IntType
  value : Int
  deriving DecidableEq, Repr

/-- The variables that an expression may use. -/
abbrev Variables := String → Option Number

/-- The operation that is written with a sign. -/
def arithOp? (sign : String) : Option ArithOp :=
  [.add, .sub, .mul, .div, .bitAnd, .bitOr, .bitXor].find? fun op => op.text == sign

/-- An operation in a type: unsigned types wrap around, and signed types must not overflow. -/
def compute (op : ArithOp) (t : IntType) (x y : Int) : Option Int := do
  let result ← op.exact x y
  if t.signed then if t.Contains result then some result else none
  else some (t.convert result)

/-- An operation on two numbers, in their common type. -/
def Number.arith? (op : ArithOp) (a b : Number) : Option Number :=
  let t := a.type.common b.type
  (compute op t (t.convert a.value) (t.convert b.value)).map (⟨t, ·⟩)

/-- The number that an expression of constants, variables and arithmetic stands for. -/
def Expr.number? (known : Variables) : Expr → Option Number
  | .int v => (IntType.ofConstant v).map (⟨·, v⟩)
  | .name n => known n
  | .binary sign left right => do
    let op ← arithOp? sign
    let a ← left.number? known
    let b ← right.number? known
    a.arith? op b
  | _ => none

/-- The value of the variable of an integer type that a statement defines. -/
def Stmt.defines? (known : Variables) : Stmt → Option Int
  | .define (.int bits signed) _ e =>
    (e.number? known).map fun number => IntType.convert ⟨bits, signed⟩ number.value
  | _ => none

theorem arithOp?_text (op : ArithOp) : arithOp? op.text = some op := by
  cases op <;> decide

section

variable {op : ArithOp} {result : Int} {a b : Number}

/-- Operands that have a place in the common type keep their values. -/
theorem Number.arith?_eq (ha : (a.type.common b.type).Contains a.value)
    (hb : (a.type.common b.type).Contains b.value) :
    a.arith? op b =
      (compute op (a.type.common b.type) a.value b.value).map (⟨a.type.common b.type, ·⟩) := by
  have hbits : 0 < (a.type.common b.type).bits :=
    Nat.lt_of_lt_of_le (by decide) (IntType.le_bits_common _ _)
  simp only [arith?]
  rw [IntType.convert_of_contains hbits ha, IntType.convert_of_contains hbits hb]

/-- A result that has a place in the common type is exact. -/
theorem Number.arith?_of_contains (ha : (a.type.common b.type).Contains a.value)
    (hb : (a.type.common b.type).Contains b.value) (hexact : op.exact a.value b.value = some result)
    (hresult : (a.type.common b.type).Contains result) :
    a.arith? op b = some ⟨a.type.common b.type, result⟩ := by
  have hbits : 0 < (a.type.common b.type).bits :=
    Nat.lt_of_lt_of_le (by decide) (IntType.le_bits_common _ _)
  have hcompute : compute op (a.type.common b.type) a.value b.value = some result := by
    cases hsigned : (a.type.common b.type).signed with
    | true => simp [compute, hexact, hsigned, hresult]
    | false => simp [compute, hexact, hsigned, IntType.convert_of_contains hbits hresult]
  rw [arith?_eq ha hb, hcompute]
  rfl

/-- An overflow of a signed type has no meaning. -/
theorem Number.arith?_of_overflow (ha : (a.type.common b.type).Contains a.value)
    (hb : (a.type.common b.type).Contains b.value) (hsigned : (a.type.common b.type).signed = true)
    (hexact : op.exact a.value b.value = some result)
    (hresult : ¬ (a.type.common b.type).Contains result) : a.arith? op b = none := by
  rw [arith?_eq ha hb]
  simp [compute, hexact, hsigned, hresult]

end

end C

/-! ## LLVM -/

namespace Llvm

/-- What an instruction does to bits, by its name.  A signed division must not overflow. -/
def perform (name : String) {bits : Nat} (x y : BitVec bits) : Option (BitVec bits) :=
  match name with
  | "add" => some (x + y)
  | "sub" => some (x - y)
  | "mul" => some (x * y)
  | "sdiv" => if y = 0 ∨ x = .intMin bits ∧ y = -1 then none else some (x.sdiv y)
  | "udiv" => if y = 0 then none else some (x.udiv y)
  | "and" => some (x &&& y)
  | "or" => some (x ||| y)
  | "xor" => some (x ^^^ y)
  | _ => none

end Llvm

section

variable {bits : Nat}

/-- The bits of an integer are those of two's complement. -/
theorem getLsbD_ofInt (x : Int) (i : Nat) :
    (BitVec.ofInt bits x).getLsbD i = (decide (i < bits) && x.testBit i) := by
  cases x with
  | ofNat n => simp [Int.testBit, BitVec.getLsbD_ofNat, BitVec.ofInt_natCast]
  | negSucc n =>
      rw [BitVec.ofInt_negSucc_eq_not_ofNat]
      simp only [BitVec.getLsbD_not, BitVec.getLsbD_ofNat, Int.testBit]
      grind

theorem ofInt_sub (x y : Int) :
    BitVec.ofInt bits (x - y) = BitVec.ofInt bits x - BitVec.ofInt bits y := by
  rw [Int.sub_eq_add_neg, BitVec.ofInt_add, BitVec.ofInt_neg, BitVec.sub_eq_add_neg]

theorem ofInt_land (x y : Int) :
    BitVec.ofInt bits (x.land y) = BitVec.ofInt bits x &&& BitVec.ofInt bits y := by
  apply BitVec.eq_of_getLsbD_eq
  intro i hi
  simp only [BitVec.getLsbD_and, getLsbD_ofInt, Int.testBit_land, hi, decide_true, Bool.true_and]

theorem ofInt_lor (x y : Int) :
    BitVec.ofInt bits (x.lor y) = BitVec.ofInt bits x ||| BitVec.ofInt bits y := by
  apply BitVec.eq_of_getLsbD_eq
  intro i hi
  simp only [BitVec.getLsbD_or, getLsbD_ofInt, Int.testBit_lor, hi, decide_true, Bool.true_and]

theorem ofInt_xor (x y : Int) :
    BitVec.ofInt bits (Int.xor x y) = BitVec.ofInt bits x ^^^ BitVec.ofInt bits y := by
  apply BitVec.eq_of_getLsbD_eq
  intro i hi
  simp only [BitVec.getLsbD_xor, getLsbD_ofInt, Int.testBit_lxor, hi, decide_true, Bool.true_and]

/-- The values of a type have bits of their own. -/
theorem IntType.ofInt_inj {t : IntType} {x y : Int} (ht : 0 < t.bits) (hx : t.Contains x)
    (hy : t.Contains y) (h : BitVec.ofInt t.bits x = BitVec.ofInt t.bits y) : x = y := by
  rw [← convert_of_contains ht hx, ← convert_of_contains ht hy, convert, convert, h]

/-- Unsigned numbers are divided as natural numbers. -/
theorem ofInt_tdiv_unsigned {x y : Int} (hx : (IntType.mk bits false).Contains x)
    (hy : (IntType.mk bits false).Contains y) :
    BitVec.ofInt bits (x.tdiv y) = (BitVec.ofInt bits x).udiv (BitVec.ofInt bits y) := by
  obtain ⟨m, rfl⟩ := Int.eq_ofNat_of_zero_le hx.1
  obtain ⟨n, rfl⟩ := Int.eq_ofNat_of_zero_le hy.1
  have hm : m < 2 ^ bits := by exact_mod_cast hx.2
  have hn : n < 2 ^ bits := by exact_mod_cast hy.2
  apply BitVec.eq_of_toNat_eq
  rw [← Int.ofNat_tdiv, BitVec.ofInt_natCast, BitVec.ofInt_natCast, BitVec.ofInt_natCast,
    BitVec.udiv_eq, BitVec.toNat_udiv, BitVec.toNat_ofNat, BitVec.toNat_ofNat, BitVec.toNat_ofNat,
    Nat.mod_eq_of_lt hm, Nat.mod_eq_of_lt hn]
  exact Nat.mod_eq_of_lt (Nat.lt_of_le_of_lt (Nat.div_le_self m n) hm)

/-- Signed numbers are divided as integers. -/
theorem ofInt_tdiv_signed (hbits : 0 < bits) {x y : Int}
    (hx : (IntType.mk bits true).Contains x) (hy : (IntType.mk bits true).Contains y) :
    BitVec.ofInt bits (x.tdiv y) = (BitVec.ofInt bits x).sdiv (BitVec.ofInt bits y) := by
  apply BitVec.eq_of_toInt_eq
  rw [BitVec.toInt_sdiv, BitVec.toInt_ofInt_eq_self hbits hx.1 hx.2,
    BitVec.toInt_ofInt_eq_self hbits hy.1 hy.2, BitVec.toInt_ofInt]

end

/-- **An instruction computes the exact result**, if there is a place for it in its type. -/
theorem Llvm.perform_eq {op : ArithOp} {t : IntType} {x y result : Int} (ht : 0 < t.bits)
    (hx : t.Contains x) (hy : t.Contains y) (hexact : op.exact x y = some result)
    (hresult : t.Contains result) :
    (Llvm.perform (Llvm.arithName op t.signed) (BitVec.ofInt t.bits x) (BitVec.ofInt t.bits y)).map
      t.read = some result := by
  suffices hbits : Llvm.perform (Llvm.arithName op t.signed) (BitVec.ofInt t.bits x)
      (BitVec.ofInt t.bits y) = some (BitVec.ofInt t.bits result) by
    rw [hbits, Option.map_some]
    exact congrArg some (IntType.convert_of_contains ht hresult)
  cases op with
  | add => cases hexact; exact congrArg some (BitVec.ofInt_add x y).symm
  | sub => cases hexact; exact congrArg some (ofInt_sub x y).symm
  | mul => cases hexact; exact congrArg some (BitVec.ofInt_mul x y).symm
  | bitAnd => cases hexact; exact congrArg some (ofInt_land x y).symm
  | bitOr => cases hexact; exact congrArg some (ofInt_lor x y).symm
  | bitXor => cases hexact; exact congrArg some (ofInt_xor x y).symm
  | div =>
      simp only [ArithOp.exact, Option.ite_none_left_eq_some, Option.some.injEq] at hexact
      obtain ⟨hzero, rfl⟩ := hexact
      obtain ⟨bits, signed⟩ := t
      have hnonzero : BitVec.ofInt bits y ≠ 0 := by
        intro h
        apply hzero
        exact IntType.ofInt_inj ht hy (IntType.contains_zero _) (h.trans (by simp))
      cases signed with
      | false =>
          rw [ofInt_tdiv_unsigned hx hy]
          exact if_neg hnonzero
      | true =>
          rw [ofInt_tdiv_signed ht hx hy]
          apply if_neg
          rintro (h | ⟨hleft, hright⟩)
          · exact hnonzero h
          · -- the smallest number divided by minus one is too large
            have hx' : x = -2 ^ (bits - 1) := by
              rw [← BitVec.toInt_ofInt_eq_self ht hx.1 hx.2, hleft, BitVec.toInt_intMin_of_pos ht]
            have hy' : y = -1 := by
              rw [← BitVec.toInt_ofInt_eq_self ht hy.1 hy.2, hright]
              simp [BitVec.neg_one_eq_allOnes, BitVec.toInt_allOnes, show 0 < bits from ht]
            have hlt := hresult.2
            rw [hx', hy'] at hlt
            simp at hlt

end ClassLang
