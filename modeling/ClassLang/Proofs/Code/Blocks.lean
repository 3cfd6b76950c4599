import ClassLang.Proofs.Code.Availability

/-!
# Blocks

A body is a **graph of blocks** if it can be cut into blocks that start with a label and end
with a terminator, if jumps only go forward, and if no block is left out (`BlockGraph`).

The flattening of a region is one, and three facts about regions say why:

* `Region.forward_code`: a jump of a region goes to a label that stands further down in the
  same region;
* `Region.blockRule_code`: a label stands exactly where a block has ended, and something
  further up goes to it;
* `Region.getLast?_code`: a region that leaves the function ends with a return.

The first one makes every walk run downwards, so `BlockGraph.walk_lt` bounds all of them, and
the second one leads back from every place to the first instruction.
-/

namespace ClassLang

/-! ## Jumps go forward -/

/-- Whatever an instruction of a list goes to is placed behind it, in the list or in what
follows. -/
def Forward : List Instruction → List Instruction → Prop
  | [], _ => True
  | i :: rest, behind => (∀ l ∈ i.targets, .label l ∈ rest ++ behind) ∧ Forward rest behind

section

variable {code code' behind behind' : List Instruction}

@[simp] theorem forward_nil : Forward [] behind := trivial

theorem forward_cons {i : Instruction} : Forward (i :: code) behind ↔
    (∀ l ∈ i.targets, .label l ∈ code ++ behind) ∧ Forward code behind := Iff.rfl

@[simp] theorem forward_append :
    Forward (code ++ code') behind ↔ Forward code (code' ++ behind) ∧ Forward code' behind := by
  induction code with
  | nil => simp
  | cons i rest ih => simp [forward_cons, ih, and_assoc]

theorem Forward.mono (h : Forward code behind) (hsub : behind ⊆ behind') :
    Forward code behind' := by
  induction code with
  | nil => trivial
  | cons i rest ih =>
      refine ⟨fun l hl => ?_, ih h.2⟩
      have hmem := h.1 l hl
      simp only [List.mem_append] at hmem ⊢
      exact hmem.imp id fun hbehind => hsub hbehind

/-- The place of the label that a jump goes to. -/
theorem Forward.get (h : Forward code []) {place : Nat} {i : Instruction} {l : Label}
    (hi : code[place]? = some i) (hl : l ∈ i.targets) :
    ∃ target, place < target ∧ code[target]? = some (.label l) := by
  have hlength : (code.take place).length = place :=
    List.length_take_of_le (Nat.le_of_lt (List.getElem?_eq_some_iff.1 hi).1)
  have hsplit := List.eq_take_append hi
  rw [hsplit, forward_append, forward_cons] at h
  have hmem : .label l ∈ code.drop (place + 1) := by simpa using h.2.1 l hl
  obtain ⟨k, hk⟩ := List.mem_iff_getElem?.1 hmem
  rw [List.getElem?_drop] at hk
  exact ⟨place + 1 + k, by omega, hk⟩

/-- Everything that a list goes to is placed in it. -/
theorem Forward.mem_labels (h : Forward code []) {i : Instruction} {l : Label} (hi : i ∈ code)
    (hl : l ∈ i.targets) : l ∈ code.filterMap Instruction.label? := by
  obtain ⟨place, hplace⟩ := List.mem_iff_getElem?.1 hi
  obtain ⟨target, -, htarget⟩ := h.get hplace hl
  exact List.mem_filterMap.2 ⟨_, List.mem_of_getElem? htarget, rfl⟩

end

theorem Instruction.IsPlain.targets_eq {i : Instruction} (h : i.IsPlain) : i.targets = [] := by
  cases i <;> first | rfl | exact h.elim

theorem Instruction.IsPlain.label?_eq {i : Instruction} (h : i.IsPlain) : i.label? = none := by
  cases i <;> first | rfl | exact h.elim

namespace Region

/-- **Jumps of a region go forward** and stay in the region. -/
theorem forward_code {r : Region} (h : r.Proper) : Forward r.code [] := by
  have hjump : ∀ (side : Region) {stop : Label} {behind : List Instruction},
      (side.leaves = false → .label stop ∈ behind) → Forward (side.jumpOn stop) behind := by
    intro side stop behind hstop
    unfold jumpOn
    split
    · trivial
    · next hleaves =>
        simpa [forward_cons, Instruction.targets] using hstop (by simpa using hleaves)
  induction r with
  | empty => trivial
  | step i => exact ⟨by simp [Instruction.IsPlain.targets_eq h], trivial⟩
  | seq first second ih₁ ih₂ =>
      exact forward_append.2 ⟨(ih₁ h.1).mono (List.nil_subset _), ih₂ h.2.1⟩
  | shortCircuit start rest stop left a right b dest ih₁ ih₂ =>
      have h₁ := fun behind => (ih₁ h.1).mono (List.nil_subset behind)
      have h₂ := fun behind => (ih₂ h.2.1).mono (List.nil_subset behind)
      simp [code, forward_cons, Instruction.targets, h₁, h₂]
  | ifThen a onTrue onFalse positive ih =>
      have h₁ := fun behind => (ih h).mono (List.nil_subset behind)
      simp [code, forward_cons, Instruction.targets, h₁, hjump]
  | ifElse a onTrue onFalse stop positive negative ih₁ ih₂ =>
      have h₁ := fun behind => (ih₁ h.1).mono (List.nil_subset behind)
      have h₂ := fun behind => (ih₂ h.2).mono (List.nil_subset behind)
      have hmeeting : (positive.leaves && negative.leaves) = false →
          .label stop ∈ positive.meeting stop negative := by
        intro hgoesOn
        simp [meeting, hgoesOn]
      have hlast : Forward (positive.meeting stop negative) [] := by
        unfold meeting
        split <;> simp [forward_cons, Instruction.targets]
      have hpositive : ∀ front : List Instruction, Forward (positive.jumpOn stop)
          (front ++ positive.meeting stop negative) := by
        intro front
        apply hjump
        intro hgoesOn
        exact List.mem_append_right _ (hmeeting (by simp [hgoesOn]))
      have hnegative : Forward (negative.jumpOn stop) (positive.meeting stop negative) := by
        apply hjump
        intro hgoesOn
        exact hmeeting (by simp [hgoesOn])
      have hpositive' := hpositive (.label onFalse :: (negative.code ++ negative.jumpOn stop))
      simp only [List.cons_append, List.append_assoc] at hpositive'
      simp [code, forward_cons, Instruction.targets, h₁, h₂, hlast, hnegative, hpositive']

/-! ## Where blocks start -/

end Region

/-- A label stands exactly where a block has ended, and something further up goes to it. -/
structure BlockRule (front : List Instruction) (i : Instruction) : Prop where
  starts : i.label?.isSome = true ↔ ¬ CodeOpen front
  reached : ∀ l, i = .label l → ∃ j ∈ front, l ∈ j.targets

section

variable {front : List Instruction} {i : Instruction}

/-- Inside a block there are no labels. -/
theorem blockRule_of_open (hopen : CodeOpen front) (hi : i.label? = none) : BlockRule front i :=
  ⟨by simp [hi, hopen], fun l hl => by simp [hl, Instruction.label?] at hi⟩

/-- A block that has ended is followed by one that something goes to. -/
theorem blockRule_label {l : Label} (hclosed : ¬ CodeOpen front)
    (hreached : ∃ j ∈ front, l ∈ j.targets) : BlockRule front (.label l) := by
  refine ⟨by simp [Instruction.label?, hclosed], ?_⟩
  rintro l' hl'
  cases hl'
  exact hreached

/-- A block that has just started is open. -/
theorem codeOpen_next (front : List Instruction) (i : Instruction) (l : Label) :
    CodeOpen (front ++ [i, .label l]) := by
  rw [codeOpen_append_of_ne_nil _ (by simp)]
  rfl

/-- The end of a block and the start of the next one. -/
theorem blockRule_next {l : Label} (hopen : CodeOpen front) (hi : i.isTerminator = true)
    (hreached : ∃ j ∈ front ++ [i], l ∈ j.targets) :
    Everywhere BlockRule front [i, .label l] :=
  ⟨blockRule_of_open hopen (Instruction.label?_of_isTerminator hi),
    blockRule_label (by simp [hi]) hreached, trivial⟩

end

namespace Region

theorem blockRule_jumpOn {r : Region} {front : List Instruction} (h : r.Proper)
    (hopen : CodeOpen front) (stop : Label) :
    Everywhere BlockRule (front ++ r.code) (r.jumpOn stop) := by
  unfold jumpOn
  split
  · trivial
  · next hleaves =>
      have hcode : CodeOpen r.code := (codeOpen_iff h).2 (by simpa using hleaves)
      exact ⟨blockRule_of_open (hopen.append hcode) rfl, trivial⟩

theorem mem_jumpOn {r : Region} (h : r.leaves = false) (stop : Label) :
    .jump stop ∈ r.jumpOn stop := by
  simp [jumpOn, h]

/-- **Blocks of a region start where others end**, and all of them are reached. -/
theorem blockRule_code {r : Region} (h : r.Proper) {front : List Instruction}
    (hopen : CodeOpen front) : Everywhere BlockRule front r.code := by
  induction r generalizing front with
  | empty => trivial
  | step i => exact ⟨blockRule_of_open hopen (Instruction.IsPlain.label?_eq h), trivial⟩
  | seq first second ih₁ ih₂ =>
      have hfirst : CodeOpen first.code := (codeOpen_iff h.1).2 h.2.2
      exact everywhere_append.2 ⟨ih₁ h.1 hopen, ih₂ h.2.1 (hopen.append hfirst)⟩
  | shortCircuit start rest stop left a right b dest ih₁ ih₂ =>
      obtain ⟨hleft, hright, hleftOn, hrightOn⟩ := h
      have h₁ := codeOpen_next front (.jump start) start
      have h₂ := h₁.append ((codeOpen_iff hleft).2 hleftOn)
      have h₃ := codeOpen_next (front ++ [.jump start, .label start] ++ left.code)
        (.branch a stop rest) rest
      have h₄ := h₃.append ((codeOpen_iff hright).2 hrightOn)
      have h₅ := codeOpen_next (front ++ [.jump start, .label start] ++ left.code ++
        [.branch a stop rest, .label rest] ++ right.code) (.jump stop) stop
      simp only [code, everywhere_append, ← List.append_assoc]
      refine ⟨⟨⟨⟨blockRule_next hopen rfl ?_, ih₁ hleft h₁⟩, blockRule_next h₂ rfl ?_⟩,
        ih₂ hright h₃⟩, ?_⟩
      · exact ⟨.jump start, by simp, by simp [Instruction.targets]⟩
      · exact ⟨.branch a stop rest, by simp, by simp [Instruction.targets]⟩
      · change Everywhere BlockRule _ ([.jump stop, .label stop] ++ [_])
        refine everywhere_append.2 ⟨blockRule_next h₄ rfl ?_, blockRule_of_open h₅ rfl, trivial⟩
        exact ⟨.jump stop, by simp, by simp [Instruction.targets]⟩
  | ifThen a onTrue onFalse positive ih =>
      have h₁ := codeOpen_next front (.branch a onTrue onFalse) onTrue
      simp only [code, everywhere_append, ← List.append_assoc]
      refine ⟨⟨⟨blockRule_next hopen rfl ?_, ih h h₁⟩,
        blockRule_jumpOn (r := positive) h h₁ onFalse⟩,
        blockRule_label (not_codeOpen_jumpOn (r := positive) h _ _) ?_, trivial⟩
      · exact ⟨.branch a onTrue onFalse, by simp, by simp [Instruction.targets]⟩
      · exact ⟨.branch a onTrue onFalse, by simp, by simp [Instruction.targets]⟩
  | ifElse a onTrue onFalse stop positive negative ih₁ ih₂ =>
      obtain ⟨hpositive, hnegative⟩ := h
      have h₁ := codeOpen_next front (.branch a onTrue onFalse) onTrue
      have h₂ : CodeOpen (front ++ [.branch a onTrue onFalse, .label onTrue] ++ positive.code ++
          positive.jumpOn stop ++ [.label onFalse]) := by
        simp [-List.append_assoc, Instruction.isTerminator]
      simp only [code, everywhere_append, ← List.append_assoc]
      refine ⟨⟨⟨⟨⟨⟨blockRule_next hopen rfl ?_, ih₁ hpositive h₁⟩,
        blockRule_jumpOn hpositive h₁ stop⟩,
        blockRule_label (not_codeOpen_jumpOn hpositive _ _) ?_, trivial⟩, ih₂ hnegative h₂⟩,
        blockRule_jumpOn hnegative h₂ stop⟩, ?_⟩
      · exact ⟨.branch a onTrue onFalse, by simp, by simp [Instruction.targets]⟩
      · exact ⟨.branch a onTrue onFalse, by simp, by simp [Instruction.targets]⟩
      · unfold meeting
        split
        · trivial
        · next hmeet =>
            -- one of the sides gets to the end, and it jumps there
            refine ⟨blockRule_label (not_codeOpen_jumpOn hnegative _ _)
              ⟨.jump stop, ?_, by simp [Instruction.targets]⟩, trivial⟩
            by_cases hgoesOn : positive.leaves = false
            · simp [mem_jumpOn hgoesOn]
            · have hgoesOn' : negative.leaves = false := by simp_all
              simp [mem_jumpOn hgoesOn']

/-- A region that leaves the function ends with a return. -/
theorem getLast?_code {r : Region} (h : r.leaves = true) (hproper : r.Proper) :
    ∃ value, r.code.getLast? = some (.ret value) := by
  have hbehind : ∀ (front : List Instruction) (side : Region), side.leaves = true →
      (front ++ side.code).getLast? = side.code.getLast? := by
    intro front side hleaves
    have hne : side.code ≠ [] := fun hnil => by simp [leaves_of_code_eq_nil hnil] at hleaves
    rw [List.getLast?_append, List.getLast?_eq_some_getLast hne, Option.some_or]
  induction r with
  | empty => cases h
  | step i =>
      cases i with
      | ret value => exact ⟨value, rfl⟩
      | _ => cases h
  | seq first second ih₁ ih₂ =>
      obtain ⟨value, hvalue⟩ := ih₂ h hproper.2.1
      exact ⟨value, by rw [code, hbehind _ second h, hvalue]⟩
  | shortCircuit => cases h
  | ifThen => cases h
  | ifElse a onTrue onFalse stop positive negative ih₁ ih₂ =>
      obtain ⟨hpos, hneg⟩ := Bool.and_eq_true_iff.1 h
      obtain ⟨value, hvalue⟩ := ih₂ hneg hproper.2
      refine ⟨value, ?_⟩
      simp only [code, meeting, jumpOn, hpos, hneg, Bool.and_self, if_true, List.append_nil]
      rw [hbehind _ negative hneg, hvalue]

end Region

/-! ## Block graphs -/

/-- A body that consists of blocks.  Control enters it at its first instruction. -/
structure BlockGraph (body : List Instruction) : Prop where
  /-- No label is placed twice. -/
  labels_nodup : (body.filterMap Instruction.label?).Nodup
  /-- What a jump or a branch goes to is placed strictly behind it. -/
  target : ∀ (place : Nat) (i : Instruction) (l : Label), body[place]? = some i → l ∈ i.targets →
    ∃ target, place < target ∧ body[target]? = some (.label l)
  /-- A label stands immediately behind a terminator. -/
  label : ∀ (place : Nat) (l : Label), body[place]? = some (.label l) →
    ∃ (before : Nat) (i : Instruction), place = before + 1 ∧ body[before]? = some i ∧
      i.isTerminator = true
  /-- A terminator is the last instruction or stands immediately in front of a label. -/
  terminator : ∀ (place : Nat) (i : Instruction), body[place]? = some i → i.isTerminator = true →
    place + 1 = body.length ∨ ∃ l, body[place + 1]? = some (.label l)
  /-- The last instruction is a return. -/
  ends : ∃ value, body.getLast? = some (.ret value)
  /-- Control can get to every place, so to every block. -/
  reachable : ∀ place, place < body.length → ∃ passed, Walk body place passed

/-- Without a label, a place is the next one of the one that control came from. -/
theorem Edge.eq_succ {body : List Instruction} {place target : Nat} (h : Edge body place target)
    (hlabel : ∀ l, body[target]? ≠ some (.label l)) : target = place + 1 := by
  cases h with
  | next => rfl
  | goto _ _ htarget => exact absurd htarget (hlabel _)

/-- Whether the instructions up to a place can be continued is up to the last of them. -/
theorem codeOpen_take_succ {body : List Instruction} {place : Nat} {i : Instruction}
    (hi : body[place]? = some i) : CodeOpen (body.take (place + 1)) ↔ i.isTerminator = false := by
  rw [List.take_succ_of_getElem? hi, codeOpen_append_singleton]

/-- Where blocks only start behind others that go to them, every place can be reached: from a
label the way leads back to a jump, from any other place to the one before. -/
theorem exists_walk {body : List Instruction} (hbody : Everywhere BlockRule [] body) {place : Nat}
    (h : place < body.length) : ∃ passed, Walk body place passed := by
  induction place using Nat.strongRecOn with
  | ind place ih =>
      have hi : body[place]? = some body[place] := List.getElem?_eq_getElem h
      have hrule := hbody.get hi
      cases place with
      | zero => exact ⟨[], .start⟩
      | succ before =>
          have hbefore : body[before]? = some body[before] := List.getElem?_eq_getElem (by omega)
          by_cases hlabel : ∃ l, body[before + 1] = .label l
          · obtain ⟨l, hl⟩ := hlabel
            obtain ⟨j, hj, htarget⟩ := hrule.reached l hl
            obtain ⟨k, hk⟩ := List.mem_iff_getElem?.1 hj
            have hlt : k < before + 1 := by
              have := (List.getElem?_eq_some_iff.1 hk).1
              simp at this
              omega
            rw [List.getElem?_take_of_lt hlt] at hk
            obtain ⟨passed, hwalk⟩ := ih k hlt (by omega)
            exact ⟨k :: passed, hwalk.step (.goto hk htarget (hl ▸ hi))⟩
          · have hnone : body[before + 1].label? = none := by
              cases hcase : body[before + 1] with
              | label l => exact absurd ⟨l, hcase⟩ hlabel
              | _ => rfl
            have hopen : CodeOpen (body.take (before + 1)) := by
              by_contra hclosed
              have hsome := hrule.starts.2 hclosed
              simp [hnone] at hsome
            obtain ⟨passed, hwalk⟩ := ih before (by omega) (by omega)
            exact ⟨before :: passed,
              hwalk.step (.next hbefore ((codeOpen_take_succ hbefore).1 hopen))⟩

/-- **The flattening of a region is a graph of blocks**, if the region leaves the function and
places no label twice. -/
theorem Region.blockGraph {r : Region} (hproper : r.Proper) (hleaves : r.leaves = true)
    (hlabels : r.labels.Nodup) : BlockGraph r.code := by
  have hrules := r.blockRule_code hproper codeOpen_nil
  refine ⟨hlabels, fun place i l hi hl => (forward_code hproper).get hi hl, ?_, ?_,
    getLast?_code hleaves hproper, fun place hplace => exists_walk hrules hplace⟩
  · intro place l hl
    have hclosed : ¬ CodeOpen (r.code.take place) := (hrules.get hl).starts.1 rfl
    cases place with
    | zero => exact absurd codeOpen_nil hclosed
    | succ before =>
        have hlt := (List.getElem?_eq_some_iff.1 hl).1
        have hbefore : r.code[before]? = some r.code[before] :=
          List.getElem?_eq_getElem (by omega)
        exact ⟨before, _, rfl, hbefore, by simpa [codeOpen_take_succ hbefore] using hclosed⟩
  · intro place i hi hterminator
    by_cases hlast : place + 1 = r.code.length
    · exact .inl hlast
    · right
      have hlt := (List.getElem?_eq_some_iff.1 hi).1
      have hnext : r.code[place + 1]? = some r.code[place + 1] :=
        List.getElem?_eq_getElem (by omega)
      have hlabel := (hrules.get hnext).starts.2 (by simp [codeOpen_take_succ hi, hterminator])
      rw [hnext]
      cases hcase : r.code[place + 1] with
      | label l => exact ⟨l, rfl⟩
      | _ => simp [hcase, Instruction.label?] at hlabel

namespace BlockGraph

variable {body : List Instruction} {place target : Nat} {passed : List Nat}

/-- Control only goes forward, and stays in the body. -/
theorem edge_lt (h : BlockGraph body) (hedge : Edge body place target) :
    place < target ∧ target < body.length := by
  cases hedge with
  | @next i hi hnext =>
      refine ⟨by omega, ?_⟩
      have hlt := (List.getElem?_eq_some_iff.1 hi).1
      by_contra hge
      -- the last instruction is a return, behind which control does not go on
      obtain ⟨value, hlast⟩ := h.ends
      have hplace : place = body.length - 1 := by omega
      rw [List.getLast?_eq_getElem?, ← hplace, hi] at hlast
      cases hlast
      cases hnext
  | @goto _ i l hi hl htarget =>
      obtain ⟨target', hlt, htarget'⟩ := h.target _ _ _ hi hl
      have heq := List.place_unique h.labels_nodup htarget rfl htarget' rfl
      exact ⟨by omega, (List.getElem?_eq_some_iff.1 htarget).1⟩

/-- Control never comes back to a place. -/
theorem acyclic (h : BlockGraph body) (place : Nat) :
    ¬ Relation.TransGen (Edge body) place place := by
  have hforward : ∀ target, Relation.TransGen (Edge body) place target → place < target := by
    intro target hpath
    induction hpath with
    | single hedge => exact (h.edge_lt hedge).1
    | tail _ hedge ih => exact Nat.lt_trans ih (h.edge_lt hedge).1
  intro hpath
  exact Nat.lt_irrefl place (hforward place hpath)

/-- A walk stays in the body, and passes no more places than it has gone forward. -/
theorem walk_lt (h : BlockGraph body) (hwalk : Walk body place passed) :
    passed.length ≤ place ∧ place < body.length := by
  induction hwalk with
  | start =>
      obtain ⟨value, hlast⟩ := h.ends
      have hne : body ≠ [] := fun hnil => by simp [hnil] at hlast
      exact ⟨Nat.le_refl 0, List.length_pos_iff.2 hne⟩
  | step _ hedge ih =>
      have hlt := h.edge_lt hedge
      simp only [List.length_cons]
      omega

/-- Control goes on from every instruction that is not a return. -/
theorem exists_edge (h : BlockGraph body) {i : Instruction} (hi : body[place]? = some i)
    (hgoesOn : i.isReturn = false) : ∃ target, Edge body place target := by
  by_cases hnext : i.isTerminator = false
  · exact ⟨place + 1, .next hi hnext⟩
  · have htarget : ∃ l, l ∈ i.targets := by
      cases i <;> simp_all [Instruction.isTerminator, Instruction.isReturn, Instruction.targets]
    obtain ⟨l, hl⟩ := htarget
    obtain ⟨target, -, hlabel⟩ := h.target _ _ _ hi hl
    exact ⟨target, .goto hi hl hlabel⟩

/-- **Every run ends, and ends with a return**: a walk is shorter than the body, and only at
a return it cannot go on. -/
theorem run_ends (h : BlockGraph body) (hwalk : Walk body place passed) :
    passed.length < body.length ∧
      ((∃ target, Edge body place target) ∨ ∃ value, body[place]? = some (.ret value)) := by
  obtain ⟨hle, hlt⟩ := h.walk_lt hwalk
  refine ⟨by omega, ?_⟩
  have hi : body[place]? = some body[place] := List.getElem?_eq_getElem hlt
  cases hreturn : body[place].isReturn with
  | false => exact .inl (h.exists_edge hi hreturn)
  | true =>
      right
      rw [hi]
      cases hcase : body[place] with
      | ret value => exact ⟨value, rfl⟩
      | _ => simp [hcase, Instruction.isReturn] at hreturn

end BlockGraph

end ClassLang
