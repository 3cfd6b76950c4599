import ClassLang.Proofs.Code.Merges
import ClassLang.Proofs.Meaning.Machine

/-!
# Running regions

A region can be run as the tree that it is, without labels and jumps (`Region.run`).  The
machine on the flattening of the region does the same: where the tree goes on, the machine gets
to what stands behind the region (`Region.goesThrough`), in the block that the region ends in; and
where the tree returns, so does the machine (`Region.returns`).
-/

namespace ClassLang

/-- How a run through a region ends: behind it, or with a return. -/
inductive Finish
  | goesOn (s : RunState)
  | returned (value : Option Value) (world : World)

/-- Goes on with something else, unless there was a return. -/
def Finish.andThen (finish : Finish) (f : RunState → Finish) : Finish :=
  match finish with
  | .goesOn s => f s
  | .returned value world => .returned value world

section

variable (env : Environment) (input : String → Value)

/-- A plain instruction. -/
def Instruction.run (s : RunState) : Instruction → Finish
  | .ret value => .returned (value.map (s.value input)) s.world
  | i => .goesOn (s.perform env input i)

/-- A region, run as a tree. -/
def Region.run : Region → RunState → Finish
  | .empty, s => .goesOn s
  | .step i, s => i.run env input s
  | .seq first second, s => (first.run s).andThen second.run
  | .shortCircuit _ _ _ left leftValue right rightValue dest, s =>
    (left.run s).andThen fun s₁ =>
      if (s₁.value input leftValue).truth then
        .goesOn (s₁.define dest (s₁.value input leftValue))
      else (right.run s₁).andThen fun s₂ => .goesOn (s₂.define dest (s₂.value input rightValue))
  | .ifThen condition _ _ positive, s =>
    if (s.value input condition).truth then positive.run s else .goesOn s
  | .ifElse condition _ _ _ positive negative, s =>
    if (s.value input condition).truth then positive.run s else negative.run s

end

variable {env : Environment} {input : String → Value} {s s' : RunState} {value : Option Value}
  {world : World}

namespace Finish

variable {finish : Finish} {f : RunState → Finish}

theorem andThen_goesOn (h : finish.andThen f = .goesOn s') :
    ∃ s, finish = .goesOn s ∧ f s = .goesOn s' := by
  cases finish with
  | goesOn s => exact ⟨s, rfl, h⟩
  | returned => cases h

theorem andThen_returned (h : finish.andThen f = .returned value world) :
    finish = .returned value world ∨ ∃ s, finish = .goesOn s ∧ f s = .returned value world := by
  cases finish with
  | goesOn s => exact .inr ⟨s, rfl, h⟩
  | returned => exact .inl h

end Finish

/-! ## Jumps -/

/-- The labels of a body are distinct. -/
def Unambiguous (body : List Instruction) : Prop := (body.filterMap Instruction.label?).Nodup

/-- What stands behind something in a part of a list up to its end. -/
theorem suffix_of_append {α : Type} {first second whole : List α}
    (h : first ++ second <:+ whole) : second <:+ whole := (List.suffix_append _ _).trans h

theorem suffix_of_cons {α : Type} {a : α} {rest whole : List α} (h : a :: rest <:+ whole) :
    rest <:+ whole := (List.suffix_cons _ _).trans h

section

variable {body code : List Instruction} {l onTrue onFalse : Label} {a : Operand}
  {block came : Option Label}

/-- A label that stands once is found. -/
theorem Unambiguous.seek_eq (hbody : Unambiguous body) (hplace : .label l :: code <:+ body) :
    seek body l = .label l :: code := by
  obtain ⟨front, rfl⟩ := hplace
  have hfront : ∀ i ∈ front, (i.label? != some l) = true := by
    intro i hi
    rw [bne_iff_ne]
    intro hl
    rw [Unambiguous, List.filterMap_append, List.nodup_append] at hbody
    exact hbody.2.2 l (List.mem_filterMap.2 ⟨i, hi, hl⟩) l
      (List.mem_filterMap.2 ⟨.label l, List.mem_cons_self, rfl⟩) rfl
  rw [seek, List.dropWhile_append_of_pos hfront, List.dropWhile_cons_of_neg]
  simp [Instruction.label?]

/-- A step to a label enters its block. -/
theorem reaches_label (hbody : Unambiguous body) (hplace : .label l :: code <:+ body)
    {c : Config} (hstep : c.step env input body = .goesOn { c with rest := seek body l }) :
    Reaches env input body c ⟨code, some l, c.block, c.state⟩ := by
  rw [hbody.seek_eq hplace] at hstep
  exact (Reaches.next hstep).trans (.next rfl)

theorem reaches_jump (hbody : Unambiguous body) (hplace : .label l :: code <:+ body)
    (rest : List Instruction) :
    Reaches env input body ⟨.jump l :: rest, block, came, s⟩ ⟨code, some l, block, s⟩ :=
  reaches_label hbody hplace rfl

theorem reaches_onTrue (hbody : Unambiguous body) (hplace : .label onTrue :: code <:+ body)
    (ha : (s.value input a).truth = true) (rest : List Instruction) :
    Reaches env input body ⟨.branch a onTrue onFalse :: rest, block, came, s⟩
      ⟨code, some onTrue, block, s⟩ :=
  reaches_label hbody hplace (by simp [Config.step, ha])

theorem reaches_onFalse (hbody : Unambiguous body) (hplace : .label onFalse :: code <:+ body)
    (ha : (s.value input a).truth = false) (rest : List Instruction) :
    Reaches env input body ⟨.branch a onTrue onFalse :: rest, block, came, s⟩
      ⟨code, some onFalse, block, s⟩ :=
  reaches_label hbody hplace (by simp [Config.step, ha])

/-- A merge takes the value of the block that control came from. -/
theorem reaches_phi {dest : Operand} {incoming : List (Operand × Label)}
    (h : (incoming.find? fun pair => some pair.2 == came).map Prod.fst = some a)
    (rest : List Instruction) (block : Option Label) :
    Reaches env input body ⟨.phi dest incoming :: rest, block, came, s⟩
      ⟨rest, block, came, s.define dest (s.value input a)⟩ := by
  obtain ⟨pair, hpair, rfl⟩ := Option.map_eq_some_iff.1 h
  exact .next (by simp [Config.step, hpair])

end

namespace Region

/-- What leaves the function on every path returns. -/
theorem run_of_leaves {r : Region} (h : r.leaves = true) (s : RunState) :
    ∃ value world, r.run env input s = .returned value world := by
  induction r generalizing s with
  | empty | shortCircuit | ifThen => cases h
  | step i =>
      cases i <;> first | exact ⟨_, _, rfl⟩ | cases h
  | seq first second ih₁ ih₂ =>
      simp only [run]
      cases hfirst : first.run env input s with
      | goesOn s₁ => exact ih₂ h s₁
      | returned value world => exact ⟨value, world, rfl⟩
  | ifElse condition onTrue onFalse stop positive negative ih₁ ih₂ =>
      have hleaves : positive.leaves = true ∧ negative.leaves = true := by
        simpa [leaves] using h
      simp only [run]
      split
      · exact ih₁ hleaves.1 s
      · exact ih₂ hleaves.2 s

theorem leaves_of_goesOn {r : Region} (h : r.run env input s = .goesOn s') :
    r.leaves = false := by
  cases hleaves : r.leaves with
  | false => rfl
  | true =>
      obtain ⟨value, world, hreturned⟩ := run_of_leaves hleaves s
      cases h.symm.trans hreturned

/-- A plain instruction that does not return goes on with the next one. -/
theorem step_plain {i : Instruction} (hi : i.IsPlain) (hrun : i.run env input s = .goesOn s')
    (body rest : List Instruction) (block came : Option Label) :
    Config.step env input body ⟨i :: rest, block, came, s⟩ = .goesOn ⟨rest, block, came, s'⟩ := by
  cases i <;> first | exact hi.elim | (cases hrun; rfl) | cases hrun

/-- A plain instruction that returns ends the run. -/
theorem step_return {i : Instruction} (hrun : i.run env input s = .returned value world)
    (body rest : List Instruction) (block came : Option Label) :
    Config.step env input body ⟨i :: rest, block, came, s⟩ = .returned value world := by
  cases i <;> first | (cases hrun; rfl) | cases hrun

section

variable {body : List Instruction}

/-- The labels of a part are distinct. -/
theorem nodup_labels (hbody : Unambiguous body) {r : Region} {back : List Instruction}
    (hplace : r.code ++ back <:+ body) : r.labels.Nodup := by
  obtain ⟨front, rfl⟩ := hplace
  rw [Unambiguous, List.filterMap_append, List.filterMap_append, List.nodup_append,
    List.nodup_append] at hbody
  exact hbody.2.1.1

/-- One side of a conditional statement goes on behind the statement. -/
theorem reaches_jumpOn (hbody : Unambiguous body) {side : Region} (hside : side.leaves = false)
    {l : Label} {code : List Instruction} (hplace : .label l :: code <:+ body)
    (rest : List Instruction) (block came : Option Label) :
    Reaches env input body ⟨side.jumpOn l ++ rest, block, came, s⟩ ⟨code, some l, block, s⟩ := by
  simp only [jumpOn, hside, Bool.false_eq_true, if_false]
  exact reaches_jump hbody hplace rest

/-- Where the tree goes on, the machine gets to what stands behind the region. -/
def GoesThrough (env : Environment) (input : String → Value) (body : List Instruction)
    (r : Region) : Prop :=
  ∀ ⦃back : List Instruction⦄, r.code ++ back <:+ body →
    ∀ (block came : Option Label) ⦃s s' : RunState⦄, r.run env input s = .goesOn s' →
      ∃ came', Reaches env input body ⟨r.code ++ back, block, came, s⟩
        ⟨back, r.exit block, came', s'⟩

/-- Control comes to the `phi` out of the block that the last operand ends in. -/
theorem GoesThrough.shortCircuit (hbody : Unambiguous body) {start rest stop : Label}
    {left right : Region} {a b dest : Operand} (hleft : left.Proper) (hright : right.Proper)
    (ih₁ : left.GoesThrough env input body) (ih₂ : right.GoesThrough env input body) :
    (Region.shortCircuit start rest stop left a right b dest).GoesThrough env input body := by
  intro back hplace block came s s' hrun
  have hnodup := nodup_labels hbody hplace
  simp only [code, List.append_assoc, List.cons_append, List.nil_append] at hplace ⊢
  have hstart := suffix_of_cons hplace
  have hrest := suffix_of_cons (suffix_of_append (suffix_of_cons hstart))
  have hstop := suffix_of_cons (suffix_of_append (suffix_of_cons hrest))
  obtain ⟨s₁, hrun₁, hrun⟩ := Finish.andThen_goesOn hrun
  obtain ⟨came₁, h₁⟩ := ih₁ (suffix_of_cons hstart) (some start) block hrun₁
  rw [exit_some] at h₁
  split at hrun
  · next htrue =>
      cases hrun
      exact ⟨_, (reaches_jump hbody hstart _).trans (h₁.trans
        ((reaches_onTrue hbody hstop htrue _).trans (reaches_phi (by simp) back _)))⟩
  · next hfalse =>
      obtain ⟨s₂, hrun₂, hrun⟩ := Finish.andThen_goesOn hrun
      cases hrun
      obtain ⟨came₂, h₂⟩ := ih₂ (suffix_of_cons hrest) (some rest) _ hrun₂
      rw [exit_some] at h₂
      -- the sides end in blocks of their own
      have hne : left.exitFrom start ≠ right.exitFrom rest := by
        have hmem₁ := exitFrom_mem hleft start
        have hmem₂ := exitFrom_mem hright rest
        simp only [labels_shortCircuit, List.nodup_cons, List.nodup_append, List.mem_append,
          List.mem_cons] at hnodup hmem₁ hmem₂
        grind
      exact ⟨_, (reaches_jump hbody hstart _).trans (h₁.trans
        ((reaches_onFalse hbody hrest (by simpa using hfalse) _).trans (h₂.trans
          ((reaches_jump hbody hstop _).trans (reaches_phi (by simp [hne]) back _)))))⟩

theorem GoesThrough.ifThen (hbody : Unambiguous body) {a : Operand} {onTrue onFalse : Label}
    {positive : Region} (ih : positive.GoesThrough env input body) :
    (Region.ifThen a onTrue onFalse positive).GoesThrough env input body := by
  intro back hplace block came s s' hrun
  simp only [code, List.append_assoc, List.cons_append, List.nil_append] at hplace ⊢
  have honTrue := suffix_of_cons hplace
  have honFalse := suffix_of_append (suffix_of_append (suffix_of_cons honTrue))
  simp only [run] at hrun
  split at hrun
  · next htrue =>
      obtain ⟨came₁, h₁⟩ := ih (suffix_of_cons honTrue) (some onTrue) block hrun
      exact ⟨_, (reaches_onTrue hbody honTrue htrue _).trans (h₁.trans
        (reaches_jumpOn hbody (leaves_of_goesOn hrun) honFalse _ _ _))⟩
  · next hfalse =>
      cases hrun
      exact ⟨_, reaches_onFalse hbody honFalse (by simpa using hfalse) _⟩

/-- The side that runs goes on, so there is a label behind the statement to go to. -/
theorem GoesThrough.ifElse (hbody : Unambiguous body) {a : Operand}
    {onTrue onFalse stop : Label} {positive negative : Region}
    (ih₁ : positive.GoesThrough env input body) (ih₂ : negative.GoesThrough env input body) :
    (Region.ifElse a onTrue onFalse stop positive negative).GoesThrough env input body := by
  intro back hplace block came s s' hrun
  have hgoesOn := leaves_of_goesOn hrun
  simp only [leaves] at hgoesOn
  simp only [code, exit, meeting, hgoesOn, Bool.false_eq_true, if_false, List.append_assoc,
    List.cons_append, List.nil_append] at hplace ⊢
  have honTrue := suffix_of_cons hplace
  have honFalse := suffix_of_append (suffix_of_append (suffix_of_cons honTrue))
  have hstop := suffix_of_append (suffix_of_append (suffix_of_cons honFalse))
  simp only [run] at hrun
  split at hrun
  · next htrue =>
      obtain ⟨came₁, h₁⟩ := ih₁ (suffix_of_cons honTrue) (some onTrue) block hrun
      exact ⟨_, (reaches_onTrue hbody honTrue htrue _).trans (h₁.trans
        (reaches_jumpOn hbody (leaves_of_goesOn hrun) hstop _ _ _))⟩
  · next hfalse =>
      obtain ⟨came₁, h₁⟩ := ih₂ (suffix_of_cons honFalse) (some onFalse) block hrun
      exact ⟨_, (reaches_onFalse hbody honFalse (by simpa using hfalse) _).trans (h₁.trans
        (reaches_jumpOn hbody (leaves_of_goesOn hrun) hstop _ _ _))⟩

/-- **Where the tree goes on, the machine gets to what stands behind the region.** -/
theorem goesThrough (hbody : Unambiguous body) {r : Region} (hproper : r.Proper) :
    r.GoesThrough env input body := by
  induction r with
  | empty =>
      intro back _ block came s s' hrun
      cases hrun
      exact ⟨came, .refl⟩
  | step i =>
      exact fun _ _ block came _ _ hrun =>
        ⟨came, .next (step_plain hproper hrun body _ block came)⟩
  | seq first second ih₁ ih₂ =>
      intro back hplace block came s s' hrun
      obtain ⟨s₁, hfirst, hsecond⟩ := Finish.andThen_goesOn hrun
      rw [code, List.append_assoc] at hplace ⊢
      obtain ⟨came₁, h₁⟩ := ih₁ hproper.1 hplace block came hfirst
      obtain ⟨came₂, h₂⟩ :=
        ih₂ hproper.2.1 (suffix_of_append hplace) (first.exit block) came₁ hsecond
      exact ⟨came₂, h₁.trans h₂⟩
  | shortCircuit start rest stop left a right b dest ih₁ ih₂ =>
      exact GoesThrough.shortCircuit hbody hproper.1 hproper.2.1 (ih₁ hproper.1)
        (ih₂ hproper.2.1)
  | ifThen a onTrue onFalse positive ih => exact GoesThrough.ifThen hbody (ih hproper)
  | ifElse a onTrue onFalse stop positive negative ih₁ ih₂ =>
      exact GoesThrough.ifElse hbody (ih₁ hproper.1) (ih₂ hproper.2)

/-- **Where the tree returns, so does the machine.** -/
theorem returns (hbody : Unambiguous body) {r : Region} (hproper : r.Proper)
    {back : List Instruction} (hplace : r.code ++ back <:+ body) (block came : Option Label)
    (hrun : r.run env input s = .returned value world) :
    Returns env input body ⟨r.code ++ back, block, came, s⟩ value world := by
  induction r generalizing back block came s with
  | empty => cases hrun
  | step i => exact .done (step_return hrun body back block came)
  | seq first second ih₁ ih₂ =>
      rw [code, List.append_assoc] at hplace ⊢
      rcases Finish.andThen_returned hrun with hfirst | ⟨s₁, hfirst, hsecond⟩
      · exact ih₁ hproper.1 hplace block came hfirst
      · obtain ⟨came₁, h₁⟩ := goesThrough hbody hproper.1 hplace block came hfirst
        exact h₁.returns (ih₂ hproper.2.1 (suffix_of_append hplace) _ came₁ hsecond)
  | shortCircuit start rest stop left a right b dest ih₁ ih₂ =>
      obtain ⟨hleft, hright, -, -⟩ := hproper
      simp only [code, List.append_assoc, List.cons_append, List.nil_append] at hplace ⊢
      have hstart := suffix_of_cons hplace
      have hrest := suffix_of_cons (suffix_of_append (suffix_of_cons hstart))
      rcases Finish.andThen_returned hrun with hrun | ⟨s₁, hrun₁, hrun⟩
      · exact (reaches_jump hbody hstart _).returns
          (ih₁ hleft (suffix_of_cons hstart) (some start) block hrun)
      · obtain ⟨came₁, h₁⟩ := goesThrough hbody hleft (suffix_of_cons hstart) (some start) block
          hrun₁
        split at hrun
        · cases hrun
        · next hfalse =>
            rcases Finish.andThen_returned hrun with hrun | ⟨s₂, -, hrun⟩
            · exact ((reaches_jump hbody hstart _).trans (h₁.trans
                (reaches_onFalse hbody hrest (by simpa using hfalse) _))).returns
                (ih₂ hright (suffix_of_cons hrest) (some rest) _ hrun)
            · cases hrun
  | ifThen a onTrue onFalse positive ih =>
      simp only [code, List.append_assoc, List.cons_append, List.nil_append] at hplace ⊢
      have honTrue := suffix_of_cons hplace
      simp only [run] at hrun
      split at hrun
      · next htrue =>
          exact (reaches_onTrue hbody honTrue htrue _).returns
            (ih hproper (suffix_of_cons honTrue) (some onTrue) block hrun)
      · cases hrun
  | ifElse a onTrue onFalse stop positive negative ih₁ ih₂ =>
      simp only [code, List.append_assoc, List.cons_append, List.nil_append] at hplace ⊢
      have honTrue := suffix_of_cons hplace
      have honFalse := suffix_of_append (suffix_of_append (suffix_of_cons honTrue))
      simp only [run] at hrun
      split at hrun
      · next htrue =>
          exact (reaches_onTrue hbody honTrue htrue _).returns
            (ih₁ hproper.1 (suffix_of_cons honTrue) (some onTrue) block hrun)
      · next hfalse =>
          exact (reaches_onFalse hbody honFalse (by simpa using hfalse) _).returns
            (ih₂ hproper.2 (suffix_of_cons honFalse) (some onFalse) block hrun)

end

end Region

end ClassLang
