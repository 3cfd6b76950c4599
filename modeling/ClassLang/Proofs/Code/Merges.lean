import ClassLang.Proofs.Code.Blocks

/-!
# Where values of several blocks meet

A `phi` is **exact** if it stands immediately behind a label and pairs its values with
exactly the blocks that go to that label, each of them once (`ExactPhi`).  A label that is
placed once is gone to only from inside the region that places it, since all jumps of a
region stay in it (`Region.forward_code`).  So the jumps of a whole body to the label of a
`||` are those that the `||` itself has made, one at the end of each of its two operands,
whatever these operands consist of.
-/

namespace ClassLang

/-! ## Blocks and jumps of a list -/

/-- The block behind a list of instructions, if `block` is the one in front of it: the one of
the last label. -/
def blockAfter (block : Option Label) (code : List Instruction) : Option Label :=
  (code.filterMap Instruction.label?).getLast?.or block

/-- Something in the block `block` of a body goes to a label. -/
def JumpsTo (body : List Instruction) (block : Option Label) (l : Label) : Prop :=
  ∃ (place : Nat) (i : Instruction), body[place]? = some i ∧ l ∈ i.targets ∧
    blockAfter none (body.take place) = block

/-- The jumps of a list, with the blocks that they stand in. -/
def jumpsOf (block : Option Label) : List Instruction → List (Option Label × Label)
  | [] => []
  | i :: rest => i.targets.map (fun l => (block, l)) ++ jumpsOf (i.label?.or block) rest

section

variable {block : Option Label} {code code' : List Instruction} {i : Instruction}

@[simp] theorem blockAfter_nil : blockAfter block [] = block := rfl

@[simp] theorem blockAfter_append :
    blockAfter block (code ++ code') = blockAfter (blockAfter block code) code' := by
  simp [blockAfter, List.filterMap_append, List.getLast?_append, Option.or_assoc]

@[simp] theorem blockAfter_cons :
    blockAfter block (i :: code) = blockAfter (i.label?.or block) code := by
  change blockAfter block ([i] ++ code) = _
  rw [blockAfter_append]
  cases h : i.label? <;> simp [blockAfter, h]

/-- Only a label changes the block. -/
theorem blockAfter_take_succ {place : Nat} (hi : code[place]? = some i) :
    blockAfter block (code.take (place + 1)) =
      i.label?.or (blockAfter block (code.take place)) := by
  simp [List.take_succ_of_getElem? hi]

@[simp] theorem jumpsOf_nil : jumpsOf block [] = [] := rfl

/-- The jumps of a list begin with those of its first instruction. -/
theorem jumpsOf_cons : jumpsOf block (i :: code) =
    i.targets.map (fun l => (block, l)) ++ jumpsOf (i.label?.or block) code := rfl

@[simp] theorem jumpsOf_append : jumpsOf block (code ++ code') =
    jumpsOf block code ++ jumpsOf (blockAfter block code) code' := by
  induction code generalizing block with
  | nil => rfl
  | cons i rest ih => simp [jumpsOf_cons, ih]

/-- The list of jumps is complete, and holds nothing else. -/
theorem mem_jumpsOf {from? : Option Label} {l : Label} : (from?, l) ∈ jumpsOf block code ↔
    ∃ (place : Nat) (i : Instruction), code[place]? = some i ∧ l ∈ i.targets ∧
      blockAfter block (code.take place) = from? := by
  induction code generalizing block with
  | nil => simp
  | cons i rest ih =>
      rw [jumpsOf_cons, List.mem_append, ih]
      constructor
      · rintro (h | ⟨place, j, hj, hl, hblock⟩)
        · obtain ⟨l', hl', heq⟩ := List.mem_map.1 h
          cases heq
          exact ⟨0, i, rfl, hl', rfl⟩
        · exact ⟨place + 1, j, hj, hl, by simpa using hblock⟩
      · rintro ⟨place, j, hj, hl, hblock⟩
        cases place with
        | zero =>
            cases hj
            exact .inl (List.mem_map.2 ⟨l, hl, by rw [← hblock]; rfl⟩)
        | succ place => exact .inr ⟨place, j, hj, hl, by simpa using hblock⟩

end

/-- A block goes to a label if it is listed among the jumps. -/
theorem jumpsTo_iff {body : List Instruction} {block : Option Label} {l : Label} :
    JumpsTo body block l ↔ (block, l) ∈ jumpsOf none body := mem_jumpsOf.symm

/-! ## Exact merges -/

/-- A `phi` stands immediately behind a label, and its values are paired with the blocks that
go there, each of them once.  `J` says which blocks go to a label. -/
def ExactPhi (J : Option Label → Label → Prop) (front : List Instruction) (i : Instruction) :
    Prop :=
  ∀ dest incoming, i = .phi dest incoming →
    ∃ l, front.getLast? = some (.label l) ∧ (incoming.map Prod.snd).Nodup ∧
      ∀ block, J block l ↔ ∃ l' ∈ incoming.map Prod.snd, block = some l'

/-- What is no merge is exact. -/
theorem exactPhi_of_ne {J : Option Label → Label → Prop} {front : List Instruction}
    {i : Instruction} (h : ∀ dest incoming, i ≠ .phi dest incoming) : ExactPhi J front i :=
  fun dest incoming hi => absurd hi (h dest incoming)

namespace Region

/-- The block behind the flattening of a region. -/
theorem blockAfter_code {r : Region} (h : r.Proper) (entry : Option Label) :
    blockAfter entry r.code = r.exit entry := by
  have hjump : ∀ (entry : Option Label) (side : Region) (stop : Label),
      blockAfter entry (side.jumpOn stop) = entry := by
    intro entry side stop
    simp [blockAfter]
  induction r generalizing entry with
  | empty => rfl
  | step i => simp [code, exit, Instruction.IsPlain.label?_eq h]
  | seq first second ih₁ ih₂ => simp [code, exit, ih₁ h.1, ih₂ h.2.1]
  | shortCircuit => simp [code, exit, Instruction.label?]
  | ifThen => simp [code, exit, Instruction.label?]
  | ifElse a onTrue onFalse stop positive negative ih₁ ih₂ =>
      by_cases hmeet : positive.leaves && negative.leaves
      · simp [code, exit, meeting, hmeet, hjump, ih₂ h.2, Instruction.label?]
      · simp [code, exit, meeting, hmeet, Instruction.label?]

/-- The block behind a region is the one in front of it or one of its own. -/
theorem exitFrom_mem {r : Region} (h : r.Proper) (entry : Label) :
    r.exitFrom entry ∈ entry :: r.labels := by
  have hexit : (r.labels.getLast?).or (some entry) = some (r.exitFrom entry) := by
    rw [← exit_some, ← blockAfter_code h]
    rfl
  cases hlast : r.labels.getLast? with
  | none =>
      simp only [hlast, Option.none_or, Option.some.injEq] at hexit
      rw [← hexit]
      exact List.mem_cons_self
  | some l =>
      simp only [hlast, Option.some_or, Option.some.injEq] at hexit
      exact List.mem_cons_of_mem _ (hexit ▸ List.mem_of_getLast? hlast)

/-- A region only goes to its own labels. -/
theorem mem_labels_of_mem_jumpsOf {r : Region} (h : r.Proper) (entry block : Option Label)
    (l : Label) (hl : (block, l) ∈ jumpsOf entry r.code) : l ∈ r.labels := by
  obtain ⟨place, i, hi, htarget, -⟩ := mem_jumpsOf.1 hl
  exact (forward_code h).mem_labels (List.mem_of_getElem? hi) htarget

/-! The jumps of each kind of region. -/

section

variable {left right positive negative : Region} {start rest stop onTrue onFalse l : Label}
  {a b dest : Operand} {entry block : Option Label}

/-- The jumps of a `||` or `&&`: to its second operand, inside its operands, and from
the end of each to the label behind. -/
theorem mem_jumpsOf_shortCircuit (hleft : left.Proper) (hright : right.Proper) :
    (block, l) ∈ jumpsOf entry (Region.shortCircuit start rest stop left a right b dest).code ↔
      (block = entry ∧ l = start) ∨ (block, l) ∈ jumpsOf (some start) left.code ∨
      (block = some (left.exitFrom start) ∧ (l = stop ∨ l = rest)) ∨
      (block, l) ∈ jumpsOf (some rest) right.code ∨
      (block = some (right.exitFrom rest) ∧ l = stop) := by
  simp only [code, jumpsOf_append, jumpsOf_cons, jumpsOf_nil, blockAfter_append, blockAfter_cons,
    blockAfter_nil, blockAfter_code hleft, blockAfter_code hright, Instruction.targets,
    Instruction.label?, exit_some, List.map_cons, List.map_nil, Option.some_or, Option.none_or,
    List.append_nil, List.mem_append, List.mem_cons, List.not_mem_nil, Prod.mk.injEq]
  grind

/-- A side that does not leave goes on to the label behind it. -/
theorem mem_jumpsOf_jumpOn {side : Region} :
    (block, l) ∈ jumpsOf entry (side.jumpOn stop) ↔
      side.leaves = false ∧ block = entry ∧ l = stop := by
  unfold jumpOn
  split
  · simp_all
  · simp_all [jumpsOf_cons, Instruction.targets]

/-- The jumps of a branch without an alternative. -/
theorem mem_jumpsOf_ifThen (hpositive : positive.Proper) :
    (block, l) ∈ jumpsOf entry (Region.ifThen a onTrue onFalse positive).code ↔
      (block = entry ∧ (l = onTrue ∨ l = onFalse)) ∨
      (block, l) ∈ jumpsOf (some onTrue) positive.code ∨
      (positive.leaves = false ∧ block = some (positive.exitFrom onTrue) ∧ l = onFalse) := by
  simp only [code, jumpsOf_append, jumpsOf_cons, jumpsOf_nil, blockAfter_append, blockAfter_cons,
    blockAfter_nil, blockAfter_code hpositive, Instruction.targets, Instruction.label?, exit_some,
    List.map_cons, List.map_nil, Option.some_or, Option.none_or, List.append_nil, List.mem_append,
    List.mem_cons, List.not_mem_nil, Prod.mk.injEq, mem_jumpsOf_jumpOn]
  grind

/-- Jumping on opens no block. -/
theorem blockAfter_jumpOn {side : Region} : blockAfter entry (side.jumpOn stop) = entry := by
  simp [blockAfter]

/-- The jumps of a branch with an alternative. -/
theorem mem_jumpsOf_ifElse (hpositive : positive.Proper) (hnegative : negative.Proper) :
    (block, l) ∈ jumpsOf entry (Region.ifElse a onTrue onFalse stop positive negative).code ↔
      (block = entry ∧ (l = onTrue ∨ l = onFalse)) ∨
      (block, l) ∈ jumpsOf (some onTrue) positive.code ∨
      (positive.leaves = false ∧ block = some (positive.exitFrom onTrue) ∧ l = stop) ∨
      (block, l) ∈ jumpsOf (some onFalse) negative.code ∨
      (negative.leaves = false ∧ block = some (negative.exitFrom onFalse) ∧ l = stop) := by
  have hmeeting : ∀ entry, jumpsOf entry (positive.meeting stop negative) = [] := by
    intro entry
    unfold meeting
    split <;> simp [jumpsOf_cons, Instruction.targets]
  simp only [code, jumpsOf_append, jumpsOf_cons, jumpsOf_nil, blockAfter_append, blockAfter_cons,
    blockAfter_nil, blockAfter_jumpOn, blockAfter_code hpositive, blockAfter_code hnegative,
    Instruction.targets, Instruction.label?, exit_some, List.map_cons, List.map_nil,
    Option.some_or, Option.none_or, List.append_nil, List.mem_append, List.mem_cons,
    List.not_mem_nil, Prod.mk.injEq, mem_jumpsOf_jumpOn, hmeeting]
  grind

end

/-- The merges of a region are exact for jumps `J`, as far as these go to its labels only from
inside. -/
def MergesBy (J : Option Label → Label → Prop) (r : Region) : Prop :=
  r.labels.Nodup → ∀ (entry : Option Label) (front : List Instruction),
    (∀ l ∈ r.labels, ∀ block, J block l ↔ (block, l) ∈ jumpsOf entry r.code) →
      Everywhere (ExactPhi J) front r.code

section

variable {J : Option Label → Label → Prop}

/-- Jumping on merges nothing. -/
theorem exactPhi_jumpOn (front : List Instruction) (side : Region) (stop : Label) :
    Everywhere (ExactPhi J) front (side.jumpOn stop) := by
  unfold jumpOn
  split
  · trivial
  · exact ⟨exactPhi_of_ne (by simp), trivial⟩

/-- Two regions in a row leave the labels of each other alone. -/
theorem MergesBy.seq {first second : Region} (hfirst : first.Proper) (hsecond : second.Proper)
    (ih₁ : first.MergesBy J) (ih₂ : second.MergesBy J) : (first.seq second).MergesBy J := by
  intro hlabels entry front hJ
  rw [labels_seq, List.nodup_append] at hlabels
  obtain ⟨hlabels₁, hlabels₂, hapart⟩ := hlabels
  simp only [labels_seq, code, jumpsOf_append, blockAfter_code hfirst, List.mem_append] at hJ
  refine everywhere_append.2 ⟨ih₁ hlabels₁ entry _ fun l hl block => ?_,
    ih₂ hlabels₂ (first.exit entry) _ fun l hl block => ?_⟩
  · rw [hJ l (.inl hl) block, or_iff_left]
    exact fun hmem => hapart l hl l (mem_labels_of_mem_jumpsOf hsecond _ _ l hmem) rfl
  · rw [hJ l (.inr hl) block, or_iff_right]
    exact fun hmem => hapart l (mem_labels_of_mem_jumpsOf hfirst _ _ l hmem) l hl rfl

/-- The `phi` of a short-circuit operation knows the blocks that its operands end in. -/
theorem MergesBy.shortCircuit {start rest stop : Label} {left right : Region} {a b dest : Operand}
    (hleft : left.Proper) (hright : right.Proper) (ih₁ : left.MergesBy J)
    (ih₂ : right.MergesBy J) :
    (Region.shortCircuit start rest stop left a right b dest).MergesBy J := by
  intro hlabels entry front hJ
  simp only [mem_jumpsOf_shortCircuit hleft hright] at hJ
  have hin₁ := mem_labels_of_mem_jumpsOf hleft (some start)
  have hin₂ := mem_labels_of_mem_jumpsOf hright (some rest)
  simp only [labels_shortCircuit, List.nodup_cons, List.nodup_append, List.mem_append,
    List.mem_cons, List.not_mem_nil, or_false] at hlabels hJ
  simp only [code, everywhere_append]
  refine ⟨⟨⟨⟨?_, ih₁ (by grind) (some start) _ fun l hl block => by grind⟩, ?_⟩,
    ih₂ (by grind) (some rest) _ fun l hl block => by grind⟩, ?_⟩
  · exact ⟨exactPhi_of_ne (by simp), exactPhi_of_ne (by simp), trivial⟩
  · exact ⟨exactPhi_of_ne (by simp), exactPhi_of_ne (by simp), trivial⟩
  · refine ⟨exactPhi_of_ne (by simp), exactPhi_of_ne (by simp), ?_, trivial⟩
    rintro dest' incoming ⟨⟩
    -- the operands end in blocks of their own, and only these two go to the end
    have hexit₁ := exitFrom_mem hleft start
    have hexit₂ := exitFrom_mem hright rest
    refine ⟨stop, List.getLast?_concat, ?_, fun block => ?_⟩
    · simp only [List.mem_cons] at hexit₁ hexit₂
      simp only [List.map_cons, List.map_nil, List.nodup_cons, List.mem_singleton,
        List.not_mem_nil, not_false_iff, List.nodup_nil, and_true]
      grind
    · simp only [List.map_cons, List.map_nil, List.mem_cons, List.not_mem_nil, or_false,
        exists_eq_or_imp, exists_eq_left]
      grind

/-- A branch without an alternative merges exactly where its body does. -/
theorem MergesBy.ifThen {a : Operand} {onTrue onFalse : Label} {positive : Region}
    (hpositive : positive.Proper) (ih : positive.MergesBy J) :
    (Region.ifThen a onTrue onFalse positive).MergesBy J := by
  intro hlabels entry front hJ
  have hin := mem_labels_of_mem_jumpsOf hpositive (some onTrue)
  simp only [mem_jumpsOf_ifThen hpositive] at hJ
  simp only [labels_ifThen, List.nodup_cons, List.nodup_append, List.mem_append,
    List.mem_cons, List.not_mem_nil, or_false] at hlabels hJ
  simp only [code, everywhere_append]
  refine ⟨⟨⟨?_, ih (by grind) (some onTrue) _ fun l hl block => by grind⟩,
    exactPhi_jumpOn _ _ _⟩, exactPhi_of_ne (by simp), trivial⟩
  exact ⟨exactPhi_of_ne (by simp), exactPhi_of_ne (by simp), trivial⟩

/-- A branch with an alternative merges exactly where both of its sides do. -/
theorem MergesBy.ifElse {a : Operand} {onTrue onFalse stop : Label} {positive negative : Region}
    (hpositive : positive.Proper) (hnegative : negative.Proper) (ih₁ : positive.MergesBy J)
    (ih₂ : negative.MergesBy J) :
    (Region.ifElse a onTrue onFalse stop positive negative).MergesBy J := by
  intro hlabels entry front hJ
  simp only [mem_jumpsOf_ifElse hpositive hnegative] at hJ
  have hin₁ := mem_labels_of_mem_jumpsOf hpositive (some onTrue)
  have hin₂ := mem_labels_of_mem_jumpsOf hnegative (some onFalse)
  have hstop : ∀ l, l ∈ (if positive.leaves && negative.leaves then [] else [stop]) ↔
      (positive.leaves && negative.leaves) = false ∧ l = stop := by
    intro l
    split <;> simp_all
  simp only [labels_ifElse, List.nodup_cons, List.nodup_append, List.mem_append,
    List.mem_cons, hstop] at hlabels hJ
  simp only [code, everywhere_append]
  refine ⟨⟨⟨⟨⟨⟨?_, ih₁ (by grind) (some onTrue) _ fun l hl block => by grind⟩,
    exactPhi_jumpOn _ _ _⟩, exactPhi_of_ne (by simp), trivial⟩,
    ih₂ (by grind) (some onFalse) _ fun l hl block => by grind⟩, exactPhi_jumpOn _ _ _⟩, ?_⟩
  · exact ⟨exactPhi_of_ne (by simp), exactPhi_of_ne (by simp), trivial⟩
  · unfold meeting
    split
    · trivial
    · exact ⟨exactPhi_of_ne (by simp), trivial⟩

/-- **The merges of a region are exact.** -/
theorem mergesBy {r : Region} (h : r.Proper) : r.MergesBy J := by
  induction r with
  | empty => exact fun _ _ _ _ => trivial
  | step i =>
      exact fun _ _ _ _ => ⟨exactPhi_of_ne (by rintro dest incoming rfl; exact h.elim), trivial⟩
  | seq first second ih₁ ih₂ => exact .seq h.1 h.2.1 (ih₁ h.1) (ih₂ h.2.1)
  | shortCircuit start rest stop left a right b dest ih₁ ih₂ =>
      exact .shortCircuit h.1 h.2.1 (ih₁ h.1) (ih₂ h.2.1)
  | ifThen a onTrue onFalse positive ih => exact .ifThen h (ih h)
  | ifElse a onTrue onFalse stop positive negative ih₁ ih₂ =>
      exact .ifElse h.1 h.2 (ih₁ h.1) (ih₂ h.2)

end

end Region

/-- All merges of a body are exact. -/
def ExactMerges (body : List Instruction) : Prop :=
  ∀ (place : Nat) (dest : Operand) (incoming : List (Operand × Label)),
    body[place]? = some (.phi dest incoming) →
    ∃ (before : Nat) (l : Label), place = before + 1 ∧ body[before]? = some (.label l) ∧
      (incoming.map Prod.snd).Nodup ∧
      ∀ block, JumpsTo body block l ↔ ∃ l' ∈ incoming.map Prod.snd, block = some l'

/-- **The merges of the flattening of a region are exact.** -/
theorem Region.exactMerges {r : Region} (h : r.Proper) (hlabels : r.labels.Nodup) :
    ExactMerges r.code := by
  have hall : Everywhere (ExactPhi (JumpsTo r.code)) [] r.code :=
    mergesBy h hlabels none _ fun l _ block => jumpsTo_iff
  intro place dest incoming hphi
  obtain ⟨l, hlast, hnodup, hjumps⟩ := hall.get hphi dest incoming rfl
  cases place with
  | zero => simp at hlast
  | succ before =>
      have hlt := (List.getElem?_eq_some_iff.1 hphi).1
      have hbefore : r.code[before]? = some r.code[before] := List.getElem?_eq_getElem (by omega)
      rw [List.take_succ_of_getElem? hbefore, List.getLast?_concat, Option.some.injEq] at hlast
      exact ⟨before, l, rfl, hlast ▸ hbefore, hnodup, hjumps⟩

end ClassLang
