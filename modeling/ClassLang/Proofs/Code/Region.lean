import ClassLang.Code.Instruction

/-!
# Regions

The code of a function body is a flat list, but it is not an arbitrary one: every jump
comes from a conditional statement or from `||`, so the list is the flattening of a tree.
A **region** is that tree.  Facts about control flow are proved by induction on regions,
and the lowering of expressions and statements only has to say which region it emits.

* `Region.code` is the flattening;
* `Region.leaves` says that control never reaches the end of the region, and
  `Region.codeOpen_iff` that this is what the last instruction shows;
* `Region.exit` is the label of the block that control is in at the end.
-/

namespace ClassLang

namespace Instruction

/-- An instruction inside a block: it places no label and goes to none. -/
def IsPlain : Instruction → Prop
  | .alloca .. | .load .. | .store .. | .elementPtr .. | .cast .. | .arith .. | .compare ..
  | .call .. | .ret .. => True
  | _ => False

/-- A plain instruction ends a list exactly if it leaves the function. -/
theorem IsPlain.isTerminator {i : Instruction} (h : i.IsPlain) :
    i.isTerminator = i.isReturn := by
  cases i <;> simp_all [IsPlain, Instruction.isTerminator, isReturn]

end Instruction

/-- Whether a list of instructions can be continued: it does not end in a terminator. -/
def CodeOpen (code : List Instruction) : Prop :=
  code.getLast?.any Instruction.isTerminator = false

/-- An empty list can be continued. -/
@[simp] theorem codeOpen_nil : CodeOpen [] := rfl

/-- What can be continued is told by the last instruction. -/
@[simp] theorem codeOpen_append_singleton (code : List Instruction) (i : Instruction) :
    CodeOpen (code ++ [i]) ↔ i.isTerminator = false := by
  simp [CodeOpen]

@[simp] theorem codeOpen_singleton (i : Instruction) :
    CodeOpen [i] ↔ i.isTerminator = false := codeOpen_append_singleton [] i

/-- The last instruction of a list that is not empty decides. -/
theorem codeOpen_append_of_ne_nil (front : List Instruction) {code : List Instruction}
    (h : code ≠ []) : CodeOpen (front ++ code) ↔ CodeOpen code := by
  simp [CodeOpen, List.getLast?_append, List.getLast?_eq_some_getLast h]

/-- Open lists put together are open. -/
theorem CodeOpen.append {a b : List Instruction} (ha : CodeOpen a) (hb : CodeOpen b) :
    CodeOpen (a ++ b) := by
  by_cases h : b = []
  · simpa [h] using ha
  · exact (codeOpen_append_of_ne_nil a h).2 hb

/-- A piece of a function body, as a tree. -/
inductive Region
  | empty
  | step (instruction : Instruction)
  | seq (first second : Region)
  /-- `left || right`: the right side runs only if the left value is false. -/
  | shortCircuit (start rest stop : Label) (left : Region) (leftValue : Operand)
      (right : Region) (rightValue dest : Operand)
  /-- A conditional statement without a second side. -/
  | ifThen (condition : Operand) (onTrue onFalse : Label) (positive : Region)
  /-- A conditional statement with two sides. -/
  | ifElse (condition : Operand) (onTrue onFalse stop : Label) (positive negative : Region)

namespace Region

/-- Whether every path through the region leaves the function. -/
def leaves : Region → Bool
  | .empty => false
  | .step i => i.isReturn
  | .seq _ second => second.leaves
  | .shortCircuit .. => false
  | .ifThen .. => false
  | .ifElse _ _ _ _ positive negative => positive.leaves && negative.leaves

/-- The label of the block that control is in behind the region, when it was in the block
`entry` in front of it. -/
def exit (entry : Option Label) : Region → Option Label
  | .empty => entry
  | .step _ => entry
  | .seq first second => second.exit (first.exit entry)
  | .shortCircuit _ _ stop _ _ _ _ _ => some stop
  | .ifThen _ _ onFalse _ => some onFalse
  | .ifElse _ _ onFalse stop positive negative =>
    if positive.leaves && negative.leaves then negative.exit (some onFalse) else some stop

/-- The same for a block that has a label. -/
def exitFrom (entry : Label) (region : Region) : Label :=
  (region.exit (some entry)).getD entry

/-- What one side of a conditional statement does at its end: it goes on behind the
statement, unless it leaves the function. -/
def jumpOn (continuation : Label) (side : Region) : List Instruction :=
  if side.leaves then [] else [.jump continuation]

/-- The place where the sides meet, if one of them gets there. -/
def meeting (stop : Label) (positive negative : Region) : List Instruction :=
  if positive.leaves && negative.leaves then [] else [.label stop]

/-- The region as a list of instructions. -/
def code : Region → List Instruction
  | .empty => []
  | .step i => [i]
  | .seq first second => first.code ++ second.code
  | .shortCircuit start rest stop left leftValue right rightValue dest =>
    [.jump start, .label start] ++ left.code ++ [.branch leftValue stop rest, .label rest]
      ++ right.code ++ [.jump stop, .label stop,
        .phi dest [(leftValue, left.exitFrom start), (rightValue, right.exitFrom rest)]]
  | .ifThen condition onTrue onFalse positive =>
    [.branch condition onTrue onFalse, .label onTrue] ++ positive.code
      ++ positive.jumpOn onFalse ++ [.label onFalse]
  | .ifElse condition onTrue onFalse stop positive negative =>
    [.branch condition onTrue onFalse, .label onTrue] ++ positive.code
      ++ positive.jumpOn stop ++ [.label onFalse] ++ negative.code ++ negative.jumpOn stop
      ++ positive.meeting stop negative

/-- Nothing stands behind a part that leaves the function, and steps are plain. -/
def Proper : Region → Prop
  | .empty => True
  | .step i => i.IsPlain
  | .seq first second => first.Proper ∧ second.Proper ∧ first.leaves = false
  | .shortCircuit _ _ _ left _ right _ _ =>
    left.Proper ∧ right.Proper ∧ left.leaves = false ∧ right.leaves = false
  | .ifThen _ _ _ positive => positive.Proper
  | .ifElse _ _ _ _ positive negative => positive.Proper ∧ negative.Proper

/-- A block with a label leads to a block with a label. -/
theorem exit_some (region : Region) (entry : Label) :
    region.exit (some entry) = some (region.exitFrom entry) := by
  suffices h : ∀ l, ∃ l', region.exit (some l) = some l' by
    obtain ⟨l', hl'⟩ := h entry
    simp [exitFrom, hl']
  induction region with
  | empty => exact fun l => ⟨l, rfl⟩
  | step i => exact fun l => ⟨l, rfl⟩
  | seq first second ih₁ ih₂ =>
      intro l
      obtain ⟨l₁, h₁⟩ := ih₁ l
      obtain ⟨l₂, h₂⟩ := ih₂ l₁
      exact ⟨l₂, by simp [exit, h₁, h₂]⟩
  | shortCircuit start rest stop => exact fun _ => ⟨stop, rfl⟩
  | ifThen condition onTrue onFalse => exact fun _ => ⟨onFalse, rfl⟩
  | ifElse condition onTrue onFalse stop positive negative ih₁ ih₂ =>
      intro l
      simp only [exit]
      split
      · exact ih₂ onFalse
      · exact ⟨stop, rfl⟩

/-- A region without code does not leave the function. -/
theorem leaves_of_code_eq_nil {region : Region} (h : region.code = []) :
    region.leaves = false := by
  induction region with
  | empty => rfl
  | step i => simp [code] at h
  | seq first second ih₁ ih₂ => exact ih₂ (List.append_eq_nil_iff.1 h).2
  | shortCircuit => simp [code] at h
  | ifThen => simp [code] at h
  | ifElse => simp [code] at h

/-- **The last instruction tells.**  A region can be continued exactly if it does not
leave the function. -/
theorem codeOpen_iff {region : Region} (h : region.Proper) :
    CodeOpen region.code ↔ region.leaves = false := by
  induction region with
  | empty => simp [code, leaves]
  | step i => simp [code, leaves, Instruction.IsPlain.isTerminator h]
  | seq first second ih₁ ih₂ =>
      obtain ⟨hfirst, hsecond, hopen⟩ := h
      by_cases hnil : second.code = []
      · simp [code, leaves, hnil, leaves_of_code_eq_nil hnil, (ih₁ hfirst).2 hopen]
      · simp only [code, leaves, codeOpen_append_of_ne_nil _ hnil, ih₂ hsecond]
  | shortCircuit start rest stop left leftValue right rightValue dest =>
      simp only [code, leaves, iff_true]
      rw [codeOpen_append_of_ne_nil _ (by simp)]
      simp [CodeOpen, Instruction.isTerminator]
  | ifThen condition onTrue onFalse positive =>
      simp only [code, leaves, codeOpen_append_singleton, Instruction.isTerminator]
  | ifElse condition onTrue onFalse stop positive negative ih₁ ih₂ =>
      obtain ⟨hpositive, hnegative⟩ := h
      by_cases hmeet : positive.leaves && negative.leaves
      · have hneg : negative.leaves = true := by simp_all
        have hclosed : ¬ CodeOpen negative.code := by simp [ih₂ hnegative, hneg]
        have hne : negative.code ≠ [] := by
          intro hnil
          simp [leaves_of_code_eq_nil hnil] at hneg
        have hpos : positive.leaves = true := by simp_all
        simp only [code, meeting, jumpOn, hpos, hneg, leaves, Bool.and_self, if_true,
          List.append_nil, codeOpen_append_of_ne_nil _ hne, hclosed]
        simp
      · simp only [code, leaves, meeting, hmeet, Bool.false_eq_true, if_false,
          codeOpen_append_singleton, Instruction.isTerminator]

/-! ## Labels and values -/

/-- The labels that a region places, in textual order. -/
def labels (region : Region) : List Label := region.code.filterMap Instruction.label?

/-- The values that a region defines, in textual order. -/
def dests (region : Region) : List Operand := region.code.filterMap Instruction.dest?

section

variable (side first second left right positive negative : Region) (start rest stop : Label)
  (a b dest : Operand) (onTrue onFalse : Label)

attribute [local simp] code

/-- A jump to the end places no label. -/
@[simp] theorem labels_jumpOn : (side.jumpOn stop).filterMap Instruction.label? = [] := by
  unfold jumpOn
  split <;> simp [List.filterMap_cons, Instruction.label?]

/-- A jump to the end defines nothing. -/
@[simp] theorem dests_jumpOn : (side.jumpOn stop).filterMap Instruction.dest? = [] := by
  unfold jumpOn
  split <;> simp [List.filterMap_cons, Instruction.dest?]

/-- The place where two sides meet defines nothing. -/
@[simp] theorem dests_meeting :
    (positive.meeting stop negative).filterMap Instruction.dest? = [] := by
  unfold meeting
  split <;> simp [List.filterMap_cons, Instruction.dest?]

@[simp] theorem labels_empty : Region.empty.labels = [] := rfl

@[simp] theorem labels_seq : (first.seq second).labels = first.labels ++ second.labels := by
  simp [labels]

/-- The labels of a short-circuit operation are in textual order. -/
@[simp] theorem labels_shortCircuit :
    (Region.shortCircuit start rest stop left a right b dest).labels =
      start :: (left.labels ++ rest :: (right.labels ++ [stop])) := by
  simp [labels, List.filterMap_cons, Instruction.label?]

@[simp] theorem labels_ifThen : (Region.ifThen a onTrue onFalse positive).labels =
    onTrue :: (positive.labels ++ [onFalse]) := by
  simp [labels, List.filterMap_cons, Instruction.label?]

/-- The last label of a conditional statement is there only if control gets to it. -/
@[simp] theorem labels_ifElse : (Region.ifElse a onTrue onFalse stop positive negative).labels =
    onTrue :: (positive.labels ++ onFalse :: (negative.labels ++
      if positive.leaves && negative.leaves then [] else [stop])) := by
  by_cases h : positive.leaves && negative.leaves <;>
    simp [labels, meeting, h, List.filterMap_cons, Instruction.label?]

@[simp] theorem dests_empty : Region.empty.dests = [] := rfl

@[simp] theorem dests_step (i : Instruction) : (Region.step i).dests = i.dest?.toList := by
  unfold dests code
  cases h : i.dest? <;> simp [h]

@[simp] theorem dests_seq : (first.seq second).dests = first.dests ++ second.dests := by
  simp [dests]

/-- The result of a short-circuit operation is defined last. -/
@[simp] theorem dests_shortCircuit :
    (Region.shortCircuit start rest stop left a right b dest).dests =
      left.dests ++ (right.dests ++ [dest]) := by
  simp [dests, List.filterMap_cons, Instruction.dest?]

@[simp] theorem dests_ifThen :
    (Region.ifThen a onTrue onFalse positive).dests = positive.dests := by
  simp [dests, List.filterMap_cons, Instruction.dest?]

@[simp] theorem dests_ifElse : (Region.ifElse a onTrue onFalse stop positive negative).dests =
    positive.dests ++ negative.dests := by
  simp [dests, List.filterMap_cons, Instruction.dest?]

end

/-- A plain step places no label. -/
@[simp] theorem labels_step {i : Instruction} (h : i.IsPlain) : (Region.step i).labels = [] := by
  cases i <;> first | rfl | exact h.elim

/-! ## What is picked from plain instructions -/

/-- What is picked from the instructions of a region, in textual order. -/
def picked {α : Type} (pick : Instruction → Option α) (r : Region) : List α :=
  r.code.filterMap pick

/-- Nothing is picked from labels, jumps and merges: what a region puts around its parts does not
matter. -/
class PicksPlain {α : Type} (pick : Instruction → Option α) : Prop where
  eq_none : ∀ i : Instruction, ¬ i.IsPlain → pick i = none

section

variable {α : Type} (pick : Instruction → Option α)
  (side first second left right positive negative : Region) (start rest stop onTrue onFalse : Label)
  (a b dest : Operand)

@[simp] theorem picked_empty : Region.empty.picked pick = [] := rfl

@[simp] theorem picked_step (i : Instruction) :
    (Region.step i).picked pick = (pick i).toList := by
  unfold picked code
  cases h : pick i <;> simp [h]

@[simp] theorem picked_seq :
    (first.seq second).picked pick = first.picked pick ++ second.picked pick := by
  simp [picked, code]

variable [PicksPlain pick]

/-- Nothing is picked from labels. -/
theorem picks_label (l : Label) : pick (.label l) = none := PicksPlain.eq_none _ id

/-- Nothing is picked from jumps. -/
theorem picks_jump (l : Label) : pick (.jump l) = none := PicksPlain.eq_none _ id

/-- Nothing is picked from branches. -/
theorem picks_branch : pick (.branch a onTrue onFalse) = none := PicksPlain.eq_none _ id

/-- Nothing is picked from merges. -/
theorem picks_phi (incoming : List (Operand × Label)) : pick (.phi dest incoming) = none :=
  PicksPlain.eq_none _ id

/-- Nothing is picked from a jump to the end. -/
@[simp] theorem picked_jumpOn : (side.jumpOn stop).filterMap pick = [] := by
  unfold jumpOn
  split <;> simp [picks_jump]

/-- Nothing is picked where two sides meet. -/
@[simp] theorem picked_meeting : (positive.meeting stop negative).filterMap pick = [] := by
  unfold meeting
  split <;> simp [picks_label]

/-- What is picked from a short-circuit operation is picked from its operands. -/
@[simp] theorem picked_shortCircuit :
    (Region.shortCircuit start rest stop left a right b dest).picked pick =
      left.picked pick ++ right.picked pick := by
  simp [picked, code, picks_label, picks_jump, picks_branch, picks_phi]

/-- What is picked from a conditional statement is picked from its side. -/
@[simp] theorem picked_ifThen :
    (Region.ifThen a onTrue onFalse positive).picked pick = positive.picked pick := by
  simp [picked, code, picks_label, picks_branch]

/-- What is picked from a conditional statement is picked from its two sides. -/
@[simp] theorem picked_ifElse :
    (Region.ifElse a onTrue onFalse stop positive negative).picked pick =
      positive.picked pick ++ negative.picked pick := by
  simp [picked, code, picks_label, picks_branch]

end

/-! ## Properties of all instructions -/

/-- All instructions of a region. -/
def All (P : Instruction → Prop) (r : Region) : Prop := ∀ i ∈ r.code, P i

variable {P : Instruction → Prop} {r₁ r₂ : Region}

/-- An empty region has no instructions. -/
theorem all_empty : Region.empty.All P := by
  simp [All, code]

/-- A region of one instruction. -/
theorem all_step {i : Instruction} : (Region.step i).All P ↔ P i := by
  simp [All, code]

/-- Two regions in a row. -/
theorem all_seq : (r₁.seq r₂).All P ↔ r₁.All P ∧ r₂.All P := by
  simp [All, code, or_imp, forall_and]

section

variable (hlabel : ∀ l, P (.label l)) (hjump : ∀ l, P (.jump l))

include hlabel hjump

/-- A short-circuit operation adds labels, jumps, a branch and a merge. -/
theorem all_shortCircuit {start rest stop : Label} {a b dest : Operand} (h₁ : r₁.All P)
    (h₂ : r₂.All P) (hbranch : P (.branch a stop rest))
    (hphi : P (.phi dest [(a, r₁.exitFrom start), (b, r₂.exitFrom rest)])) :
    (Region.shortCircuit start rest stop r₁ a r₂ b dest).All P := by
  intro i hi
  simp only [code, List.mem_append, List.mem_cons, List.not_mem_nil, or_false] at hi
  rcases hi with ((((rfl | rfl) | hi) | rfl | rfl) | hi) | rfl | rfl | rfl
  · exact hjump _
  · exact hlabel _
  · exact h₁ i hi
  · exact hbranch
  · exact hlabel _
  · exact h₂ i hi
  · exact hjump _
  · exact hlabel _
  · exact hphi

omit hlabel in
/-- A jump to the end is a jump, if there is one. -/
theorem all_jumpOn {stop : Label} (r : Region) : ∀ i ∈ r.jumpOn stop, P i := by
  unfold jumpOn
  split
  · simp
  · simpa using hjump stop

/-- A conditional statement with one side adds labels, a jump and a branch. -/
theorem all_ifThen {a : Operand} {onTrue onFalse : Label} (h : r₁.All P)
    (hbranch : P (.branch a onTrue onFalse)) : (Region.ifThen a onTrue onFalse r₁).All P := by
  intro i hi
  simp only [code, List.mem_append, List.mem_cons, List.not_mem_nil, or_false] at hi
  rcases hi with (((rfl | rfl) | hi) | hi) | rfl
  · exact hbranch
  · exact hlabel _
  · exact h i hi
  · exact all_jumpOn hjump r₁ i hi
  · exact hlabel _

/-- A conditional statement with two sides adds labels, jumps and a branch. -/
theorem all_ifElse {a : Operand} {onTrue onFalse stop : Label} (h₁ : r₁.All P) (h₂ : r₂.All P)
    (hbranch : P (.branch a onTrue onFalse)) :
    (Region.ifElse a onTrue onFalse stop r₁ r₂).All P := by
  have hmeeting : ∀ i ∈ r₁.meeting stop r₂, P i := by
    unfold meeting
    split
    · simp
    · simpa using hlabel stop
  intro i hi
  simp only [code, List.mem_append, List.mem_cons, List.not_mem_nil, or_false] at hi
  rcases hi with ((((((rfl | rfl) | hi) | hi) | rfl) | hi) | hi) | hi
  · exact hbranch
  · exact hlabel _
  · exact h₁ i hi
  · exact all_jumpOn hjump r₁ i hi
  · exact hlabel _
  · exact h₂ i hi
  · exact all_jumpOn hjump r₂ i hi
  · exact hmeeting i hi

end

end Region

end ClassLang
