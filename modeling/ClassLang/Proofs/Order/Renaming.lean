import Mathlib.Data.List.Basic
import Mathlib.Data.List.Nodup
import Mathlib.Logic.Function.Basic
import ClassLang.Proofs.Lower.Names

/-!
# Renaming globals

The globals of string literals are numbered by their first occurrence in the whole unit, so the code
of a function shows where the function stands.  Apart from that it does not: code is compared up to
a renaming of the globals of string literals (`RenamesLiterals`), which leaves all other names
alone.
-/

namespace ClassLang

/-- The name of the global of the string literal with a number. -/
def literalName (k : Nat) : String := ".str" ++ toString k

/-- A renaming of the globals of string literals: no two names become one, and no other name
changes. -/
structure RenamesLiterals (σ : String → String) : Prop where
  injective : Function.Injective σ
  literals : ∀ k, ∃ l, σ (literalName k) = literalName l
  others : ∀ name, (∀ k, name ≠ literalName k) → σ name = name

variable (σ : String → String)

/-- An operand with globals renamed. -/
def Operand.rename : Operand → Operand
  | .global name ty => .global (σ name) ty
  | other => other

mutual

/-- An instruction with globals renamed: where the text of a string literal is declared, and
wherever an operand is a global. -/
def Instruction.rename : Instruction → Instruction
  | .stringLiteral name text => .stringLiteral (σ name) text
  | .function name signature paramNames body =>
    .function name signature paramNames (Instruction.renameAll body)
  | .alloca dest ty count => .alloca (dest.rename σ) ty count
  | .load dest address => .load (dest.rename σ) (address.rename σ)
  | .store value address => .store (value.rename σ) (address.rename σ)
  | .elementPtr dest base indices => .elementPtr (dest.rename σ) (base.rename σ) indices
  | .cast dest value => .cast (dest.rename σ) (value.rename σ)
  | .arith op dest left right => .arith op (dest.rename σ) (left.rename σ) (right.rename σ)
  | .compare op dest left right => .compare op (dest.rename σ) (left.rename σ) (right.rename σ)
  | .branch condition onTrue onFalse => .branch (condition.rename σ) onTrue onFalse
  | .phi dest incoming =>
    .phi (dest.rename σ) (incoming.map fun (value, l) => (value.rename σ, l))
  | .call dest callee signature args =>
    .call (dest.map (Operand.rename σ)) callee signature (args.map (Operand.rename σ))
  | .ret value => .ret (value.map (Operand.rename σ))
  | .structRecord name fields => .structRecord name fields
  | .classRecord record => .classRecord record
  | .externalFunction name signature => .externalFunction name signature
  | .label l => .label l
  | .jump l => .jump l

/-- Instructions with globals renamed. -/
def Instruction.renameAll : List Instruction → List Instruction
  | [] => []
  | i :: rest => i.rename :: Instruction.renameAll rest

end

variable {σ}

/-- Instructions are renamed one by one. -/
theorem Instruction.renameAll_eq_map (code : List Instruction) :
    Instruction.renameAll σ code = code.map (Instruction.rename σ) := by
  induction code with
  | nil => simp [Instruction.renameAll]
  | cons i rest ih => simp [Instruction.renameAll, ih]

@[simp] theorem Operand.ty_rename (a : Operand) : (a.rename σ).ty = a.ty := by
  cases a <;> rfl

/-- A renaming that keeps names apart keeps operands apart. -/
theorem Operand.rename_injective (h : Function.Injective σ) :
    Function.Injective (Operand.rename σ) := by
  intro a b hab
  cases a <;> cases b <;> simp only [rename, reduceCtorEq, Operand.global.injEq] at hab ⊢
  · exact hab
  · exact hab
  · exact hab
  · exact ⟨h hab.1, hab.2⟩
  · exact hab

@[simp] theorem Instruction.label?_rename (i : Instruction) : (i.rename σ).label? = i.label? := by
  cases i <;> simp [rename, label?]

@[simp] theorem Instruction.isTerminator_rename (i : Instruction) :
    (i.rename σ).isTerminator = i.isTerminator := by
  cases i <;> simp [rename, isTerminator]

/-! ## Renaming by number -/

/-- Literals with different numbers have different names. -/
theorem literalName_injective : Function.Injective literalName :=
  fun _ _ h => Nat.toString_inj ((String.append_right_inj _).1 h)

/-- Numbers that are exchanged one to one give a renaming. -/
theorem exists_renamesLiterals {π : Nat → Nat} (hπ : Function.Injective π) :
    ∃ σ, RenamesLiterals σ ∧ ∀ k, σ (literalName k) = literalName (π k) := by
  let σ : String → String := Function.extend literalName (literalName ∘ π) id
  have hliteral : ∀ k, σ (literalName k) = literalName (π k) := fun k =>
    literalName_injective.extend_apply _ _ k
  have hother : ∀ name, (¬ ∃ k, literalName k = name) → σ name = name := fun name h =>
    Function.extend_apply' _ _ name h
  refine ⟨σ, ⟨fun a b hab => ?_, fun k => ⟨π k, hliteral k⟩, fun name h => ?_⟩, hliteral⟩
  · by_cases ha : ∃ k, literalName k = a <;> by_cases hb : ∃ k, literalName k = b
    · obtain ⟨k, rfl⟩ := ha
      obtain ⟨l, rfl⟩ := hb
      rw [hliteral, hliteral] at hab
      rw [hπ (literalName_injective hab)]
    · obtain ⟨k, rfl⟩ := ha
      rw [hliteral, hother b hb] at hab
      exact absurd ⟨_, hab⟩ hb
    · obtain ⟨l, rfl⟩ := hb
      rw [hliteral, hother a ha] at hab
      exact absurd ⟨_, hab.symm⟩ ha
    · rwa [hother a ha, hother b hb] at hab
  · exact hother name fun ⟨k, hk⟩ => h k hk.symm

/-- Two lists of the same texts in different orders number them differently; a renaming leads from
one to the other. -/
theorem exists_renamesLiterals_of_perm {texts texts' : List String} (hnodup : texts.Nodup)
    (hperm : texts.Perm texts') : ∃ σ, RenamesLiterals σ ∧ ∀ text ∈ texts,
      σ (literalName (texts.idxOf text)) = literalName (texts'.idxOf text) := by
  let π : Nat → Nat := fun k => (texts[k]?.map texts'.idxOf).getD k
  have hbound : ∀ {k : Nat} {text}, texts[k]? = some text → texts'.idxOf text < texts.length := by
    intro k text hk
    rw [hperm.length_eq, List.idxOf_lt_length_iff]
    exact hperm.subset (List.mem_of_getElem? hk)
  have hπ : Function.Injective π := by
    intro k l hkl
    cases hk : texts[k]? <;> cases hl : texts[l]? <;> simp only [π, hk, hl, Option.map_none,
      Option.map_some, Option.getD_none, Option.getD_some] at hkl
    · exact hkl
    · have hlt := hbound hl
      have hle := List.getElem?_eq_none_iff.1 hk
      omega
    · have hlt := hbound hk
      have hle := List.getElem?_eq_none_iff.1 hl
      omega
    · rw [List.idxOf_inj (hperm.subset (List.mem_of_getElem? hk))] at hkl
      subst hkl
      exact (List.getElem?_inj (List.getElem?_eq_some_iff.1 hk).1 hnodup).1 (hk.trans hl.symm)
  obtain ⟨σ, hσ, hliteral⟩ := exists_renamesLiterals hπ
  refine ⟨σ, hσ, fun text htext => ?_⟩
  rw [hliteral]
  simp only [π, List.getElem?_idxOf htext, Option.map_some, Option.getD_some]

end ClassLang
