import ClassLang.Proofs.Code.Merges
import ClassLang.Proofs.Lower.BlockGraph
import ClassLang.Render.C

/-!
# Merging values in C

The C text of a body has no `phi`.  It keeps two numbers instead, the current block and the
one that control came from, which every label updates (`C.Stmt.track`), and a `phi` becomes a
chain of comparisons.  Two facts make this faithful:

* on every way through the code, the first number is the block that the text of the body
  shows (`C.block_trackOf`), so at a label the second one is the block of the jump;
* the blocks that jump to the label of a `phi` are those that it knows (`ExactMerges`), each
  paired with one value, so one of the comparisons succeeds or only the last value is left.
-/

namespace ClassLang

namespace C

/-- What the C text of a function keeps about control: `stp_pred` and `stp_block`. -/
structure Track where
  pred : Int := -1
  block : Int := -1

/-- A label makes itself the current block. -/
def Stmt.track (t : Track) : Stmt → Track
  | .mark label => ⟨t.block, label⟩
  | _ => t

/-- What is kept behind the places that control has passed, the last one first. -/
def trackOf (body : List Instruction) : List Nat → Track
  | [] => {}
  | place :: earlier =>
    ((body[place]?.bind stmt?).map (Stmt.track (trackOf body earlier))).getD (trackOf body earlier)

/-- The expression that is left of a chain of comparisons. -/
def Expr.chosen (pred : Int) : Expr → Expr
  | .select label value otherwise =>
    if pred = label then value.chosen pred else otherwise.chosen pred
  | e => e

/-- The number of a block. -/
def blockNumber (block : Option Label) : Int := (block.map Int.ofNat).getD (-1)

section

variable {body : List Instruction} {place : Nat} {passed : List Nat} {i : Instruction}

theorem trackOf_label {l : Label} (h : body[place]? = some (.label l)) :
    trackOf body (place :: passed) = ⟨(trackOf body passed).block, l⟩ := by
  simp [trackOf, h, stmt?, Stmt.track]

/-- Only labels change what is kept. -/
theorem trackOf_of_label? (h : body[place]? = some i) (hi : i.label? = none) :
    trackOf body (place :: passed) = trackOf body passed := by
  cases i with
  | label => cases hi
  | call dest => cases dest <;> simp [trackOf, h, stmt?, define, Stmt.track]
  | _ => simp [trackOf, h, stmt?, define, Stmt.track]

/-- **The current block is the one that the text shows.** -/
theorem block_trackOf (hwalk : Walk body place passed) (hi : body[place]? = some i) :
    (trackOf body (place :: passed)).block =
      blockNumber (blockAfter none (body.take (place + 1))) := by
  induction hwalk generalizing i with
  | start =>
      rw [blockAfter_take_succ hi]
      cases hlabel : i.label? with
      | none =>
          rw [trackOf_of_label? hi hlabel]
          simp [trackOf, blockNumber]
      | some l =>
          cases i <;> simp only [Instruction.label?, reduceCtorEq, Option.some.injEq] at hlabel
          subst hlabel
          simp [trackOf_label hi, blockNumber]
  | @step before place passed hwalk hedge ih =>
      rw [blockAfter_take_succ hi]
      cases hlabel : i.label? with
      | none =>
          -- without a label, control has come from the place before
          have hnext : place = before + 1 := hedge.eq_succ fun l hl => by
            rw [hi, Option.some.injEq] at hl
            simp [hl, Instruction.label?] at hlabel
          obtain ⟨j, hj⟩ : ∃ j, body[before]? = some j := by
            cases hedge with
            | next hj => exact ⟨_, hj⟩
            | goto hj => exact ⟨_, hj⟩
          rw [trackOf_of_label? hi hlabel, ih hj, hnext]
          rfl
      | some l =>
          cases i <;> simp only [Instruction.label?, reduceCtorEq, Option.some.injEq] at hlabel
          subst hlabel
          simp [trackOf_label hi, blockNumber]

end

/-- An operand is no comparison. -/
@[simp] theorem Expr.chosen_ofOperand (pred : Int) (a : Operand) :
    (Expr.ofOperand a).chosen pred = .ofOperand a := by
  unfold ofOperand
  split <;> rfl

/-- The comparisons of a `phi` find the value of a block that it knows. -/
theorem Expr.chosen_merge {incoming : List (Operand × Label)} {value : Operand} {l : Label}
    (hnodup : (incoming.map Prod.snd).Nodup) (hmem : (value, l) ∈ incoming) :
    (merge incoming).chosen l = .ofOperand value := by
  induction incoming with
  | nil => simp at hmem
  | cons pair rest ih =>
      obtain ⟨first, l'⟩ := pair
      obtain ⟨hnew, hnodup'⟩ := List.nodup_cons.1 hnodup
      cases rest with
      | nil =>
          obtain ⟨rfl, rfl⟩ : value = first ∧ l = l' := by simpa using hmem
          simp [merge]
      | cons next rest =>
          by_cases heq : l = l'
          · subst heq
            have hfirst : value = first := by
              rcases List.mem_cons.1 hmem with hhere | hlater
              · exact congrArg Prod.fst hhere
              · exact absurd (List.mem_map_of_mem hlater) hnew
            simp [merge, chosen, hfirst]
          · have hlater : (value, l) ∈ next :: rest := by
              rcases List.mem_cons.1 hmem with hhere | hlater
              · exact absurd (congrArg Prod.snd hhere) heq
              · exact hlater
            have hne : (l : Int) ≠ l' := fun hcast => heq (Int.ofNat_inj.1 hcast)
            simpa [merge, chosen, hne] using ih hnodup' hlater

end C

/-- The last places that control has passed, the last one first: the label of its block and a
jump in another block that goes there. -/
def CameFrom (body : List Instruction) (passed : List Nat) (block : Option Label) : Prop :=
  ∃ (start jump : Nat) (earlier : List Nat) (l : Label) (i : Instruction),
    passed = start :: jump :: earlier ∧ body[start]? = some (.label l) ∧
    body[jump]? = some i ∧ l ∈ i.targets ∧ blockAfter none (body.take jump) = block

/-- **The C text finds the value of the block that control came from.** -/
theorem BlockGraph.chosen_merge {body : List Instruction} (hgraph : BlockGraph body)
    (hexact : ExactMerges body) {place : Nat} {passed : List Nat} (hwalk : Walk body place passed)
    {dest : Operand} {incoming : List (Operand × Label)}
    (hphi : body[place]? = some (.phi dest incoming)) :
    ∃ l value, CameFrom body passed (some l) ∧ (value, l) ∈ incoming ∧
      (∀ other, (other, l) ∈ incoming → other = value) ∧
      (C.Expr.merge incoming).chosen (C.trackOf body passed).pred = .ofOperand value := by
  obtain ⟨start, l, hstart, hlabel, hnodup, hjumps⟩ := hexact place dest incoming hphi
  obtain ⟨before, terminator, hbefore, hterminator, hends⟩ := hgraph.label start l hlabel
  -- control came to the `phi` from the label, and to the label by a jump
  cases hwalk with
  | start => omega
  | @step start' _ passed hwalk hedge =>
      have hstart' := hedge.eq_succ fun l' hl' => by simp [hphi] at hl'
      obtain rfl : start' = start := by omega
      cases hwalk with
      | start => omega
      | @step jump _ passed hwalk hedge =>
          cases hedge with
          | @next i hi hnext =>
              obtain rfl : jump = before := by omega
              rw [hterminator, Option.some.injEq] at hi
              simp [← hi, hends] at hnext
          | @goto _ i l' hi hl' htarget =>
              rw [hlabel] at htarget
              cases htarget
              have hcame : JumpsTo body (blockAfter none (body.take jump)) l :=
                ⟨jump, i, hi, hl', rfl⟩
              obtain ⟨l', hmem, hblock⟩ := (hjumps _).1 hcame
              obtain ⟨⟨value, l''⟩, hvalue, rfl⟩ := List.mem_map.1 hmem
              have hpred : (C.trackOf body (start' :: jump :: passed)).pred = l'' := by
                rw [C.trackOf_label hlabel, C.block_trackOf hwalk hi, blockAfter_take_succ hi,
                  Instruction.label?_of_isTerminator (Instruction.isTerminator_of_targets hl'),
                  Option.none_or, hblock]
                rfl
              refine ⟨l'', value, ⟨start', jump, passed, l, i, rfl, hlabel, hi, hl', hblock⟩,
                hvalue, fun other hother => ?_, hpred ▸ C.Expr.chosen_merge hnodup hvalue⟩
              exact congrArg Prod.fst (List.inj_on_of_nodup_map hnodup hother hvalue rfl)

/-- **Merges are exact, and C takes the right value.**  In every function of an accepted
source, a `phi` stands behind the label of its block and pairs one value with each block that
goes there; on every way to it, the C text chooses the value of the block that control came
from. -/
theorem compile_exactMerges {source : String} {compiled : Compiled}
    (h : compile source = .ok compiled) {name : String} {signature : Signature}
    {names : List String} {body : List Instruction}
    (hmem : .function name signature names body ∈ compiled.unit) :
    ExactMerges body ∧
      ∀ place passed dest incoming, Walk body place passed →
        body[place]? = some (.phi dest incoming) →
        ∃ l value, CameFrom body passed (some l) ∧ (value, l) ∈ incoming ∧
          (∀ other, (other, l) ∈ incoming → other = value) ∧
          (C.Expr.merge incoming).chosen (C.trackOf body passed).pred = .ofOperand value := by
  obtain ⟨script, haccepted⟩ := accepted_of_compile h
  obtain ⟨id, block, entry, signature', region, hcode, heq⟩ :=
    haccepted.generates.functions _ _ _ _ hmem
  cases heq
  have hproper : region.Proper := hcode.body.supplied.1
  have hlabels : region.labels.Nodup := hcode.body.numbered.2
  have hgraph := Region.blockGraph hproper hcode.body.leaves_eq hlabels
  have hexact := Region.exactMerges hproper hlabels
  exact ⟨hexact, fun place passed dest incoming hwalk hphi =>
    hgraph.chosen_merge hexact hwalk hphi⟩

/-- What an instruction does to control: the label that it places, whether control stops
here, and the labels that it goes to. -/
def Instruction.control (i : Instruction) : Option Label × Bool × List Label :=
  (i.label?, i.isTerminator, i.targets)

/-- The values that an instruction chooses from, each with its block. -/
def Instruction.choices? : Instruction → Option (List (Operand × Label))
  | .phi _ incoming => some incoming
  | _ => none

/-- Control in the sample's function up to its `phi`: the left operand of `||` is in block 0,
the right one in block 1, and both go on to block 2. -/
def sampleControl : List (Option Label × Bool × List Label) :=
  [(none, false, []), (none, false, []), (none, true, [0]),
    (some 0, false, []), (none, false, []), (none, true, [2, 1]),
    (some 1, false, []), (none, false, []), (none, false, []), (none, false, []),
    (none, true, [2]), (some 2, false, [])]

/-- The function of the sample merges the operands of its `||`. -/
theorem sample_merges :
    (match compile sampleSource with
      | .ok compiled => (compiled.unit.function? "A_f").map fun f =>
          ((f.2.2.take 12).map Instruction.control, f.2.2[12]?.bind Instruction.choices?)
      | .error _ => none) =
    some (sampleControl, some [(.temp 1 .bool, 0), (.temp 4 .bool, 1)]) := by
  decide +kernel

section

variable {body : List Instruction} {k : Nat} {placed : Option Label} {targets : List Label}

/-- Control goes on behind an instruction where it does not stop. -/
theorem Edge.of_control (h : body[k]?.map Instruction.control = some (placed, false, targets)) :
    Edge body k (k + 1) := by
  obtain ⟨i, hi, hcontrol⟩ := Option.map_eq_some_iff.1 h
  exact .next hi (congrArg (·.2.1) hcontrol)

/-- Control goes to the labels of a jump. -/
theorem Edge.of_target {stops stops' : Bool} {target : Nat} {l : Label} {targets' : List Label}
    (h : body[k]?.map Instruction.control = some (placed, stops, targets)) (hl : l ∈ targets)
    (h' : body[target]?.map Instruction.control = some (some l, stops', targets')) :
    Edge body k target := by
  obtain ⟨i, hi, hcontrol⟩ := Option.map_eq_some_iff.1 h
  obtain ⟨j, hj, hlabel⟩ := Option.map_eq_some_iff.1 h'
  have htargets : i.targets = targets := congrArg (·.2.2) hcontrol
  have hj' : j = .label l := by
    cases j <;> simp_all [Instruction.control, Instruction.label?]
  exact .goto hi (htargets ▸ hl) (hj' ▸ hj)

/-- The block that a list ends in is the last label that it places. -/
theorem blockAfter_none_eq (code : List Instruction) :
    blockAfter none code = ((code.map Instruction.control).filterMap Prod.fst).getLast? := by
  rw [blockAfter, Option.or_none, List.filterMap_map]
  rfl

/-- The block that control came from is the one that the jump stands in. -/
theorem CameFrom.block_eq {start jump : Nat} {earlier : List Nat} {block : Option Label}
    (h : CameFrom body (start :: jump :: earlier) block) :
    blockAfter none (body.take jump) = block := by
  obtain ⟨_, _, _, _, _, hpassed, -, -, -, hblock⟩ := h
  cases hpassed
  exact hblock

/-- Control comes to the `phi` of the sample past the right operand of `||` and through it,
once out of block 0 and once out of block 1. -/
theorem sample_walks (hcontrol : (body.take 12).map Instruction.control = sampleControl) :
    Walk body 12 [11, 5, 4, 3, 2, 1, 0] ∧
    Walk body 12 [11, 10, 9, 8, 7, 6, 5, 4, 3, 2, 1, 0] ∧
    blockAfter none (body.take 5) = some 0 ∧ blockAfter none (body.take 10) = some 1 := by
  have hat : ∀ k < 12, body[k]?.map Instruction.control = sampleControl[k]? :=
    fun k hk => by rw [← hcontrol, List.getElem?_map, List.getElem?_take_of_lt hk]
  have htake : ∀ k ≤ 12, (body.take k).map Instruction.control = sampleControl.take k :=
    fun k hk => by rw [← hcontrol, ← List.map_take, List.take_take, Nat.min_eq_left hk]
  have hnext : ∀ k < 12, (sampleControl[k]?.map fun c => c.2.1) = some false →
      Edge body k (k + 1) := fun k hk hgoes => by
    obtain ⟨⟨placed, stops, targets⟩, hplace, rfl⟩ := Option.map_eq_some_iff.1 hgoes
    exact .of_control ((hat k hk).trans hplace)
  have hjump : Edge body 5 11 := .of_target (hat 5 (by decide)) (by decide) (hat 11 (by decide))
  have hleft : Walk body 5 [4, 3, 2, 1, 0] :=
    ((((Walk.start.step (hnext 0 (by decide) rfl)).step (hnext 1 (by decide) rfl)).step
      (.of_target (hat 2 (by decide)) (by decide) (hat 3 (by decide)))).step
      (hnext 3 (by decide) rfl)).step (hnext 4 (by decide) rfl)
  have hright : Walk body 10 [9, 8, 7, 6, 5, 4, 3, 2, 1, 0] :=
    ((((hleft.step (.of_target (hat 5 (by decide)) (by decide) (hat 6 (by decide)))).step
      (hnext 6 (by decide) rfl)).step (hnext 7 (by decide) rfl)).step
      (hnext 8 (by decide) rfl)).step (hnext 9 (by decide) rfl)
  refine ⟨(hleft.step hjump).step (hnext 11 (by decide) rfl),
    (hright.step (.of_target (hat 10 (by decide)) (by decide) (hat 11 (by decide)))).step
      (hnext 11 (by decide) rfl), ?_, ?_⟩
  · rw [blockAfter_none_eq, htake 5 (by decide)]
    rfl
  · rw [blockAfter_none_eq, htake 10 (by decide)]
    rfl

end

theorem compile_exactMerges_sample : ∃ compiled signature names body dest left right,
    compile sampleSource = .ok compiled ∧ .function "A_f" signature names body ∈ compiled.unit ∧
    ExactMerges body ∧ body[12]? = some (.phi dest [(left, 0), (right, 1)]) ∧
    -- past the right operand of `||`
    Walk body 12 [11, 5, 4, 3, 2, 1, 0] ∧ CameFrom body [11, 5, 4, 3, 2, 1, 0] (some 0) ∧
    (C.Expr.merge [(left, 0), (right, 1)]).chosen
      (C.trackOf body [11, 5, 4, 3, 2, 1, 0]).pred = .ofOperand left ∧
    -- through the right operand
    Walk body 12 [11, 10, 9, 8, 7, 6, 5, 4, 3, 2, 1, 0] ∧
    CameFrom body [11, 10, 9, 8, 7, 6, 5, 4, 3, 2, 1, 0] (some 1) ∧
    (C.Expr.merge [(left, 0), (right, 1)]).chosen
      (C.trackOf body [11, 10, 9, 8, 7, 6, 5, 4, 3, 2, 1, 0]).pred = .ofOperand right := by
  have h := sample_merges
  split at h
  · next compiled hcompile =>
      obtain ⟨⟨signature, names, body⟩, hfunction, heval⟩ := Option.map_eq_some_iff.1 h
      rw [Prod.mk.injEq] at heval
      obtain ⟨hcontrol, hchoices⟩ := heval
      obtain ⟨i, hi, hphi⟩ := Option.bind_eq_some_iff.1 hchoices
      cases i with
      | phi dest incoming =>
          cases hphi
          obtain ⟨hexact, hchosen⟩ :=
            compile_exactMerges hcompile (CodeUnit.mem_of_function? hfunction)
          obtain ⟨hshort, hlong, hblock, hblock'⟩ := sample_walks hcontrol
          obtain ⟨l, value, hcame, hvalue, -, hchose⟩ := hchosen 12 _ _ _ hshort hi
          obtain ⟨l', value', hcame', hvalue', -, hchose'⟩ := hchosen 12 _ _ _ hlong hi
          obtain rfl : 0 = l := Option.some.inj (hblock.symm.trans hcame.block_eq)
          obtain rfl : 1 = l' := Option.some.inj (hblock'.symm.trans hcame'.block_eq)
          obtain rfl : value = .temp 1 .bool := by simpa using hvalue
          obtain rfl : value' = .temp 4 .bool := by simpa using hvalue'
          exact ⟨compiled, signature, names, body, dest, _, _, hcompile,
            CodeUnit.mem_of_function? hfunction, hexact, hi, hshort, hcame, hchose, hlong,
            hcame', hchose'⟩
      | _ => cases hphi
  · cases h

end ClassLang
