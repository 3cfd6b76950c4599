import ClassLang.Proofs.Code.Flow

/-!
# Values in regions

A region tells which values are known at its end (`Region.avail`) and at each label that it
places (`Region.entries`).  If every part of it only reads what is known there
(`Region.Supplied`) and no label is placed twice, then its flattening can be checked against
that labelling (`Region.guardedBy`), so definitions dominate what reads them.
-/

namespace ClassLang.Region

/-- The values that are known behind a region.  What only one side of it defines is not. -/
def avail (s : List Operand) : Region → List Operand
  | .empty => s
  | .step i => i.dest?.toList ++ s
  | .seq first second => second.avail (first.avail s)
  | .shortCircuit _ _ _ left _ _ _ dest => dest :: left.avail s
  | .ifThen .. => s
  | .ifElse _ _ _ _ positive negative =>
    if positive.leaves && negative.leaves then negative.avail s else s

/-- Everything that is read in a region is known where it is read. -/
def Supplied (s : List Operand) : Region → Prop
  | .empty => True
  | .step i => ∀ a ∈ i.reads, a.Known s
  | .seq first second => first.Supplied s ∧ second.Supplied (first.avail s)
  | .shortCircuit _ _ _ left a right b _ =>
    left.Supplied s ∧ a.Known (left.avail s) ∧
      right.Supplied (left.avail s) ∧ b.Known (right.avail (left.avail s))
  | .ifThen condition _ _ positive => condition.Known s ∧ positive.Supplied s
  | .ifElse condition _ _ _ positive negative =>
    condition.Known s ∧ positive.Supplied s ∧ negative.Supplied s

/-- The labels of a region with the values that are known there. -/
def entries (s : List Operand) : Region → List (Label × List Operand)
  | .empty | .step _ => []
  | .seq first second => first.entries s ++ second.entries (first.avail s)
  | .shortCircuit start rest stop left _ right _ _ =>
    (start, s) :: (left.entries s ++
      (rest, left.avail s) :: (right.entries (left.avail s) ++ [(stop, left.avail s)]))
  | .ifThen _ onTrue onFalse positive => (onTrue, s) :: (positive.entries s ++ [(onFalse, s)])
  | .ifElse _ onTrue onFalse stop positive negative =>
    (onTrue, s) :: (positive.entries s ++ (onFalse, s) :: (negative.entries s ++
      if positive.leaves && negative.leaves then [] else [(stop, s)]))

/-- What is known in front of a region is known behind it. -/
theorem subset_avail (r : Region) (s : List Operand) : s ⊆ r.avail s := by
  induction r generalizing s with
  | empty => exact List.Subset.refl s
  | step i => exact List.subset_append_right _ _
  | seq first second ih₁ ih₂ => exact List.Subset.trans (ih₁ s) (ih₂ _)
  | shortCircuit _ _ _ left _ _ _ dest ih => exact List.subset_cons_of_subset _ (ih s)
  | ifThen => exact List.Subset.refl s
  | ifElse _ _ _ _ positive negative _ ih =>
      unfold avail
      split
      · exact ih s
      · exact List.Subset.refl s

/-- What is known behind a region was known in front of it or is defined in it. -/
theorem avail_subset (r : Region) (s : List Operand) : r.avail s ⊆ s ++ r.dests := by
  induction r generalizing s with
  | empty => simp [avail]
  | step i => simp [avail, List.append_subset]
  | seq first second ih₁ ih₂ =>
      intro a ha
      have := ih₂ _ ha
      have := @ih₁ s a
      simp only [dests_seq, List.mem_append] at *
      grind
  | shortCircuit _ _ _ left _ _ _ dest ih =>
      intro a ha
      have := @ih s a
      simp only [dests_shortCircuit, avail, List.mem_append, List.mem_cons] at *
      grind
  | ifThen => exact List.subset_append_left _ _
  | ifElse _ _ _ _ positive negative _ ih =>
      unfold avail
      split
      · intro a ha
        have := @ih s a
        simp only [dests_ifElse, List.mem_append] at *
        grind
      · exact List.subset_append_left _ _

/-- The labels of the entries are those that are placed. -/
theorem map_fst_entries {r : Region} (h : r.Proper) (s : List Operand) :
    (r.entries s).map Prod.fst = r.labels := by
  induction r generalizing s with
  | empty => rfl
  | step i => exact (labels_step h).symm
  | seq first second ih₁ ih₂ => simp [entries, ih₁ h.1, ih₂ h.2.1]
  | shortCircuit _ _ _ _ _ _ _ _ ih₁ ih₂ => simp [entries, ih₁ h.1, ih₂ h.2.1]
  | ifThen _ _ _ _ ih => simp [entries, ih h]
  | ifElse _ _ _ _ positive negative ih₁ ih₂ =>
      by_cases hmeet : positive.leaves && negative.leaves <;>
        simp [entries, ih₁ h.1, ih₂ h.2, hmeet]

/-- Distinct keys can be given their values. -/
theorem exists_labelling {entries : List (Label × List Operand)}
    (h : (entries.map Prod.fst).Nodup) : ∃ A : Labelling, ∀ e ∈ entries, A e.1 = e.2 := by
  induction entries with
  | nil => exact ⟨fun _ => [], by simp⟩
  | cons e rest ih =>
      obtain ⟨hnew, hrest⟩ := List.nodup_cons.1 h
      obtain ⟨A, hA⟩ := ih hrest
      refine ⟨fun l => if l = e.1 then e.2 else A l, fun e' he' => ?_⟩
      rcases List.mem_cons.1 he' with rfl | he'
      · simp
      · have hne : e'.1 ≠ e.1 := fun heq => hnew (heq ▸ List.mem_map_of_mem he')
        simpa [hne] using hA e' he'

/-! ## The flattening -/

section

variable {A : Labelling} {entry : Option Label} {s : List Operand} {front : List Instruction}

@[simp] theorem after_jumpOn (t : Supply) (side : Region) (stop : Label) :
    t.after A (side.jumpOn stop) = t := by
  unfold jumpOn
  split <;> rfl

/-- What is known behind the flattening of a region. -/
theorem after_code {r : Region} (h : r.Proper) (hA : ∀ e ∈ r.entries s, A e.1 = e.2) :
    Supply.after A ⟨entry, s⟩ r.code = ⟨r.exit entry, r.avail s⟩ := by
  induction r generalizing s entry with
  | empty => rfl
  | step i => exact Instruction.supply_of_label? (by cases i <;> first | rfl | exact h.elim)
  | seq first second ih₁ ih₂ =>
      simp only [entries, List.forall_mem_append] at hA
      rw [code, Supply.after_append, ih₁ h.1 hA.1, ih₂ h.2.1 hA.2]
      rfl
  | shortCircuit start rest stop left a right b dest ih₁ ih₂ =>
      simp only [entries, List.forall_mem_cons, List.forall_mem_append, List.not_mem_nil,
        false_implies, implies_true, and_true] at hA
      obtain ⟨-, -, -, -, hstop⟩ := hA
      simp only [code, Supply.after_append, Supply.after_cons, Supply.after_nil,
        Instruction.supply, hstop]
      rfl
  | ifThen a onTrue onFalse positive ih =>
      simp only [entries, List.forall_mem_cons, List.forall_mem_append, List.not_mem_nil,
        false_implies, implies_true, and_true] at hA
      obtain ⟨-, -, hfalse⟩ := hA
      simp only [code, Supply.after_append, Supply.after_cons, Supply.after_nil,
        Instruction.supply, hfalse]
      rfl
  | ifElse a onTrue onFalse stop positive negative ih₁ ih₂ =>
      simp only [entries, List.forall_mem_cons, List.forall_mem_append] at hA
      obtain ⟨-, -, hfalse, hnegative, hstop⟩ := hA
      simp only [code, Supply.after_append, Supply.after_cons, Supply.after_nil, after_jumpOn,
        Instruction.supply, hfalse, ih₂ h.2 hnegative, meeting, exit, avail]
      split at hstop
      · next hmeet => simp [hmeet]
      · next hmeet =>
          have hvalues : A stop = s := hstop _ (List.mem_singleton_self _)
          simp only [hmeet, Bool.false_eq_true, if_false, Supply.after_cons, Supply.after_nil,
            Instruction.supply, hvalues]

/-- What is known behind the first instructions of a body, all of it defined there. -/
structure Supplies (A : Labelling) (front : List Instruction) (entry : Option Label)
    (s : List Operand) : Prop where
  supplyOf_eq : supplyOf A front = ⟨entry, s⟩
  defined : s ⊆ front.filterMap Instruction.dest?

namespace Supplies

variable {t : List Operand} {l : Label}

/-- The values that the labelling tells are those that are known. -/
theorem values (h : Supplies A front entry s) : (supplyOf A front).values = s := by
  rw [h.supplyOf_eq]

/-- The block that the labelling tells is the one at hand. -/
theorem block_eq (h : Supplies A front entry s) : (supplyOf A front).block = entry := by
  rw [h.supplyOf_eq]

/-- Behind a region its values are known. -/
theorem code {r : Region} (h : Supplies A front entry s) (hproper : r.Proper)
    (hA : ∀ e ∈ r.entries s, A e.1 = e.2) :
    Supplies A (front ++ r.code) (r.exit entry) (r.avail s) := by
  refine ⟨by rw [supplyOf_append, h.supplyOf_eq, after_code hproper hA], fun a ha => ?_⟩
  rw [List.filterMap_append, List.mem_append]
  exact (List.mem_append.1 (r.avail_subset s ha)).imp (fun hs => h.defined hs) id

/-- At a label those values are known that the labelling gives for it. -/
theorem label (h : Supplies A front entry s) (hl : A l = t) (ht : t ⊆ s) :
    Supplies A (front ++ [.label l]) (some l) t := by
  refine ⟨by rw [supplyOf_concat, Instruction.supply, hl], fun a ha => ?_⟩
  rw [List.filterMap_append]
  exact List.mem_append_left _ (h.defined (ht ha))

/-- Behind a terminator the same values are known. -/
theorem terminator {i : Instruction} (h : Supplies A front entry s)
    (hi : i.isTerminator = true) : Supplies A (front ++ [i]) entry s := by
  have hdest : i.dest? = none := by cases i <;> first | rfl | simp [Instruction.isTerminator] at hi
  refine ⟨?_, fun a ha => ?_⟩
  · rw [supplyOf_concat, Instruction.supply_of_label? (Instruction.label?_of_isTerminator hi),
      h.supplyOf_eq, hdest]
    rfl
  · rw [List.filterMap_append]
    exact List.mem_append_left _ (h.defined ha)

/-- Behind the end of a block and the start of another one. -/
theorem block {i : Instruction} (h : Supplies A front entry s) (hi : i.isTerminator = true)
    (hl : A l = t) (ht : t ⊆ s) : Supplies A (front ++ [i, .label l]) (some l) t := by
  simpa using (h.terminator hi).label hl ht

/-- Behind a jump on, the same values are known. -/
theorem jumpOn {r : Region} (h : Supplies A front entry s) (stop : Label) :
    Supplies A (front ++ r.jumpOn stop) entry s := by
  unfold Region.jumpOn
  split
  · simpa using h
  · exact h.terminator rfl

/-! Each kind of instruction is checked against what is known in front of it. -/

/-- A plain instruction is checked where what it reads is known. -/
theorem guarded_plain {i : Instruction} (h : Supplies A front entry s) (hi : i.IsPlain)
    (hreads : ∀ a ∈ i.reads, a.Known s) : Guarded A front i := by
  refine ⟨h.values ▸ h.defined, h.values ▸ hreads, ?_, ?_, ?_⟩
  · cases i <;> first | exact hi.elim | simp [Instruction.targets]
  · rintro l rfl
    exact hi.elim
  · cases i <;> first | exact hi.elim | simp [Instruction.incoming]

/-- A jump is checked where the values of its label are known. -/
theorem guarded_jump (h : Supplies A front entry s) (hl : A l ⊆ s) : Guarded A front (.jump l) :=
  ⟨h.values ▸ h.defined, by simp [Instruction.reads],
    by simpa [Instruction.targets, h.values] using hl, by simp, by simp [Instruction.incoming]⟩

/-- A branch is checked where its condition and the values of both labels are known. -/
theorem guarded_branch {a : Operand} {onTrue onFalse : Label} (h : Supplies A front entry s)
    (ha : a.Known s) (htrue : A onTrue ⊆ s) (hfalse : A onFalse ⊆ s) :
    Guarded A front (.branch a onTrue onFalse) :=
  ⟨h.values ▸ h.defined, by simpa [Instruction.reads, h.values] using ha,
    by simpa [Instruction.targets, h.values] using ⟨htrue, hfalse⟩, by simp,
    by simp [Instruction.incoming]⟩

/-- A label is checked behind a terminator. -/
theorem guarded_label (h : Supplies A front entry s) (hclosed : ¬ CodeOpen front) :
    Guarded A front (.label l) :=
  ⟨h.values ▸ h.defined, by simp [Instruction.reads], by simp [Instruction.targets],
    fun _ _ => hclosed, by simp [Instruction.incoming]⟩

/-- A merge is checked where each of its values is known at the end of its block. -/
theorem guarded_phi {dest : Operand} {incoming : List (Operand × Label)}
    (h : Supplies A front (some l) s)
    (hincoming : ∀ pair ∈ incoming, ∃ front' i rest t, front = front' ++ i :: rest ∧
      i.isTerminator = true ∧ Supplies A front' (some pair.2) t ∧ pair.1.Known t ∧
      l ∈ i.targets) : Guarded A front (.phi dest incoming) := by
  refine ⟨h.values ▸ h.defined, by simp [Instruction.reads], by simp [Instruction.targets],
    by simp, fun pair hpair => ?_⟩
  obtain ⟨front', i, rest, t, hsplit, hi, ht, hknown, hl⟩ := hincoming pair hpair
  exact ⟨front', i, rest, l, hsplit, hi, ht.block_eq, ht.values ▸ hknown, h.block_eq, hl⟩

/-- A terminator and the label behind it are checked together. -/
theorem guarded_block {i : Instruction} (h : Supplies A front entry s)
    (hi : i.isTerminator = true) (hguarded : Guarded A front i) :
    Everywhere (Guarded A) front [i, .label l] :=
  ⟨hguarded, (h.terminator hi).guarded_label (by simp [hi]), trivial⟩

/-- A jump on is checked where the values of its label are known. -/
theorem guarded_jumpOn {r : Region} (h : Supplies A front entry s)
    (hl : r.leaves = false → A l ⊆ s) : Everywhere (Guarded A) front (r.jumpOn l) := by
  unfold Region.jumpOn
  split
  · trivial
  · next hleaves => exact ⟨h.guarded_jump (hl (by simpa using hleaves)), trivial⟩

end Supplies

/-- Behind one side of a conditional statement, its last block has ended. -/
theorem not_codeOpen_jumpOn {r : Region} (h : r.Proper) (front : List Instruction) (stop : Label) :
    ¬ CodeOpen (front ++ r.code ++ r.jumpOn stop) := by
  unfold jumpOn
  split
  · next hleaves =>
      have hne : r.code ≠ [] := fun hnil => by simp [leaves_of_code_eq_nil hnil] at hleaves
      rw [List.append_nil, codeOpen_append_of_ne_nil _ hne, codeOpen_iff h]
      simpa using hleaves
  · rw [codeOpen_append_singleton]
    simp [Instruction.isTerminator]

/-- The flattening of a region is checked wherever what the region reads is known. -/
def GuardedBy (A : Labelling) (r : Region) : Prop :=
  ∀ ⦃s : List Operand⦄ ⦃entry : Option Label⦄ ⦃front : List Instruction⦄, r.Supplied s →
    (∀ e ∈ r.entries s, A e.1 = e.2) → Supplies A front entry s →
      Everywhere (Guarded A) front r.code

/-- A short-circuit operation checks its right operand with what the left one makes known, and
its `phi` at the ends of both. -/
theorem GuardedBy.shortCircuit {start rest stop : Label} {left right : Region}
    {a b dest : Operand} (hleft : left.Proper) (hright : right.Proper) (ih₁ : left.GuardedBy A)
    (ih₂ : right.GuardedBy A) :
    (Region.shortCircuit start rest stop left a right b dest).GuardedBy A := by
  intro s entry front hsupplied hA hfront
  obtain ⟨hleftReads, ha, hrightReads, hb⟩ := hsupplied
  simp only [entries, List.forall_mem_cons, List.forall_mem_append, List.not_mem_nil,
    false_implies, implies_true, and_true] at hA
  obtain ⟨hstart, hleftA, hrest, hrightA, hstop⟩ := hA
  have h₁ := hfront.block (i := .jump start) rfl hstart (List.Subset.refl _)
  have h₂ := h₁.code hleft hleftA
  have h₃ := h₂.block (i := .branch a stop rest) rfl hrest (List.Subset.refl _)
  have h₄ := h₃.code hright hrightA
  have h₅ := h₄.block (i := .jump stop) rfl hstop (subset_avail _ _)
  simp only [code, everywhere_append, ← List.append_assoc]
  refine ⟨⟨⟨⟨hfront.guarded_block rfl (hfront.guarded_jump (hstart ▸ List.Subset.refl _)),
    ih₁ hleftReads hleftA h₁⟩,
    h₂.guarded_block rfl (h₂.guarded_branch ha (hstop ▸ List.Subset.refl _)
      (hrest ▸ List.Subset.refl _))⟩,
    ih₂ hrightReads hrightA h₃⟩, ?_⟩
  change Everywhere (Guarded A) _ ([.jump stop, .label stop] ++ [_])
  refine everywhere_append.2 ⟨h₄.guarded_block rfl (h₄.guarded_jump ?_),
    h₅.guarded_phi fun pair hpair => ?_, trivial⟩
  · rw [hstop]
    exact subset_avail _ _
  simp only [List.mem_cons, List.not_mem_nil, or_false] at hpair
  rcases hpair with rfl | rfl
  · exact ⟨_, _, _, _, by simp only [List.append_assoc]; rfl, rfl, exit_some left start ▸ h₂,
      ha, List.mem_cons_self ..⟩
  · exact ⟨_, _, _, _, by simp only [List.append_assoc]; rfl, rfl, exit_some right rest ▸ h₄,
      hb, List.mem_cons_self ..⟩

/-- A branch without an alternative is checked where its body is. -/
theorem GuardedBy.ifThen {a : Operand} {onTrue onFalse : Label} {positive : Region}
    (hpositive : positive.Proper) (ih : positive.GuardedBy A) :
    (Region.ifThen a onTrue onFalse positive).GuardedBy A := by
  intro s entry front hsupplied hA hfront
  obtain ⟨ha, hreads⟩ := hsupplied
  simp only [entries, List.forall_mem_cons, List.forall_mem_append, List.not_mem_nil,
    false_implies, implies_true, and_true] at hA
  obtain ⟨htrue, hpositiveA, hfalse⟩ := hA
  have h₁ := hfront.block (i := .branch a onTrue onFalse) rfl htrue (List.Subset.refl _)
  have h₂ := h₁.code (r := positive) hpositive hpositiveA
  have h₃ := h₂.jumpOn (r := positive) onFalse
  simp only [code, everywhere_append, ← List.append_assoc]
  exact ⟨⟨⟨hfront.guarded_block rfl (hfront.guarded_branch ha (htrue ▸ List.Subset.refl _)
      (hfalse ▸ List.Subset.refl _)), ih hreads hpositiveA h₁⟩,
    h₂.guarded_jumpOn fun _ => hfalse ▸ subset_avail _ _⟩,
    h₃.guarded_label (not_codeOpen_jumpOn (r := positive) hpositive _ _), trivial⟩

/-- Both sides of a conditional statement start with what is known at its condition, and so does
what is behind it. -/
theorem GuardedBy.ifElse {a : Operand} {onTrue onFalse stop : Label} {positive negative : Region}
    (hpositive : positive.Proper) (hnegative : negative.Proper) (ih₁ : positive.GuardedBy A)
    (ih₂ : negative.GuardedBy A) :
    (Region.ifElse a onTrue onFalse stop positive negative).GuardedBy A := by
  intro s entry front hsupplied hA hfront
  obtain ⟨ha, hreads₁, hreads₂⟩ := hsupplied
  simp only [entries, List.forall_mem_cons, List.forall_mem_append] at hA
  obtain ⟨htrue, hpositiveA, hfalse, hnegativeA, hstop⟩ := hA
  have hmeet : (positive.leaves && negative.leaves) = false → A stop = s := fun hmeet => by
    simpa [hmeet] using hstop
  have h₁ := hfront.block (i := .branch a onTrue onFalse) rfl htrue (List.Subset.refl _)
  have h₂ := h₁.code hpositive hpositiveA
  have h₃ := h₂.jumpOn (r := positive) stop
  have h₄ := h₃.label hfalse (subset_avail _ _)
  have h₅ := h₄.code hnegative hnegativeA
  have h₆ := h₅.jumpOn (r := negative) stop
  simp only [code, everywhere_append, ← List.append_assoc]
  refine ⟨⟨⟨⟨⟨⟨hfront.guarded_block rfl (hfront.guarded_branch ha (htrue ▸ List.Subset.refl _)
      (hfalse ▸ List.Subset.refl _)), ih₁ hreads₁ hpositiveA h₁⟩,
    h₂.guarded_jumpOn fun hgoesOn => ?_⟩,
    h₃.guarded_label (not_codeOpen_jumpOn hpositive _ _), trivial⟩,
    ih₂ hreads₂ hnegativeA h₄⟩,
    h₅.guarded_jumpOn fun hgoesOn => ?_⟩, ?_⟩
  · rw [hmeet (by simp [hgoesOn])]
    exact subset_avail _ _
  · rw [hmeet (by simp [hgoesOn])]
    exact subset_avail _ _
  · unfold meeting
    split
    · trivial
    · exact ⟨h₆.guarded_label (not_codeOpen_jumpOn hnegative _ _), trivial⟩

/-- **A region whose parts only read what is known there can be checked.** -/
theorem guardedBy {r : Region} (hproper : r.Proper) : r.GuardedBy A := by
  induction r with
  | empty => exact fun _ _ _ _ _ _ => trivial
  | step i =>
      exact fun _ _ _ hsupplied _ hfront => ⟨hfront.guarded_plain hproper hsupplied, trivial⟩
  | seq first second ih₁ ih₂ =>
      intro s entry front hsupplied hA hfront
      simp only [entries, List.forall_mem_append] at hA
      exact everywhere_append.2 ⟨ih₁ hproper.1 hsupplied.1 hA.1 hfront,
        ih₂ hproper.2.1 hsupplied.2 hA.2 (hfront.code hproper.1 hA.1)⟩
  | shortCircuit start rest stop left a right b dest ih₁ ih₂ =>
      exact GuardedBy.shortCircuit hproper.1 hproper.2.1 (ih₁ hproper.1) (ih₂ hproper.2.1)
  | ifThen a onTrue onFalse positive ih => exact GuardedBy.ifThen hproper (ih hproper)
  | ifElse a onTrue onFalse stop positive negative ih₁ ih₂ =>
      exact GuardedBy.ifElse hproper.1 hproper.2 (ih₁ hproper.1) (ih₂ hproper.2)

end

/-- **The flattening of a region can be checked** against the labelling that it tells. -/
theorem exists_guarded {r : Region} (hproper : r.Proper) (hlabels : r.labels.Nodup)
    (hsupplied : r.Supplied []) : ∃ A, Everywhere (Guarded A) [] r.code := by
  obtain ⟨A, hA⟩ := exists_labelling (map_fst_entries hproper [] ▸ hlabels)
  exact ⟨A, guardedBy hproper hsupplied hA ⟨rfl, List.Subset.refl _⟩⟩

end ClassLang.Region
