import ClassLang.Proofs.Code.Region
import Mathlib.Data.List.Induction

/-!
# Control flow and dominance

The places of a body are the numbers of its instructions.  `Edge` says where control can go
from a place, a `Walk` is a way from the first instruction to a place, and a place
**dominates** another one if every walk to that one passes it first.

Walks are not followed one by one.  Instead every label is assigned the values that are
known where it is placed (`Labelling`), the way a type is assigned to a variable: reading a
body once from its start then tells which values are known at each place (`Supply`), and it
is enough to check every jump against the assignment.  `Everywhere.dominates` draws the
conclusion about all walks.
-/

namespace ClassLang

namespace Instruction

/-- The operands that an instruction reads at its own place. -/
def reads : Instruction → List Operand
  | .load _ address => [address]
  | .store value address => [value, address]
  | .elementPtr _ base _ => [base]
  | .cast _ value => [value]
  | .arith _ _ left right | .compare _ _ left right => [left, right]
  | .branch condition _ _ => [condition]
  | .call _ _ _ args => args
  | .ret value => value.toList
  | _ => []

/-- The operands that are read at the end of the block they are paired with. -/
def incoming : Instruction → List (Operand × Label)
  | .phi _ incoming => incoming
  | _ => []

/-- All operands that an instruction reads. -/
def operands (i : Instruction) : List Operand := i.reads ++ i.incoming.map Prod.fst

/-- The operands of each instruction. -/
theorem operands_eq (i : Instruction) : i.operands = match i with
    | .load _ address => [address]
    | .store value address => [value, address]
    | .elementPtr _ base _ => [base]
    | .cast _ value => [value]
    | .arith _ _ left right | .compare _ _ left right => [left, right]
    | .branch condition _ _ => [condition]
    | .phi _ incoming => incoming.map Prod.fst
    | .call _ _ _ args => args
    | .ret value => value.toList
    | _ => [] := by
  cases i <;> simp [operands, reads, incoming]

/-- The labels that an instruction may go to. -/
def targets : Instruction → List Label
  | .jump l => [l]
  | .branch _ onTrue onFalse => [onTrue, onFalse]
  | _ => []

end Instruction

/-- Control may go from one place of a body to another one. -/
inductive Edge (body : List Instruction) : Nat → Nat → Prop
  | next {place : Nat} {i : Instruction} (h : body[place]? = some i)
      (hnext : i.isTerminator = false) : Edge body place (place + 1)
  | goto {place target : Nat} {i : Instruction} {l : Label} (h : body[place]? = some i)
      (hl : l ∈ i.targets) (hlabel : body[target]? = some (.label l)) : Edge body place target

/-- A way from the first instruction to a place, with the places passed before, the last
one first. -/
inductive Walk (body : List Instruction) : Nat → List Nat → Prop
  | start : Walk body 0 []
  | step {place target : Nat} {passed : List Nat} (h : Walk body place passed)
      (hedge : Edge body place target) : Walk body target (place :: passed)

/-- Every way to `place` passes `dominator` first. -/
def Dominates (body : List Instruction) (dominator place : Nat) : Prop :=
  ∀ passed, Walk body place passed → dominator ∈ passed

/-- A place is in the block that starts with a label. -/
def InBlock (body : List Instruction) (l : Label) (place : Nat) : Prop :=
  ∃ start < place, body[start]? = some (.label l) ∧
    ∀ k, start < k → k ≤ place → ∀ l', body[k]? ≠ some (.label l')

/-- An instruction at a place defines a value. -/
def DefinedAt (body : List Instruction) (a : Operand) (place : Nat) : Prop :=
  ∃ i, body[place]? = some i ∧ i.dest? = some a

/-! ## What is known at a place -/

/-- The values that are assigned to labels. -/
abbrev Labelling := Label → List Operand

/-- What is known in front of an instruction: its block and the values defined on every way
to it. -/
structure Supply where
  block : Option Label
  values : List Operand

/-- What is known behind an instruction. -/
def Instruction.supply (A : Labelling) (s : Supply) : Instruction → Supply
  | .label l => ⟨some l, A l⟩
  | i => ⟨s.block, i.dest?.toList ++ s.values⟩

/-- What is known behind a list of instructions. -/
def Supply.after (A : Labelling) (s : Supply) (code : List Instruction) : Supply :=
  code.foldl (Instruction.supply A) s

/-- What is known behind the first instructions of a body. -/
def supplyOf (A : Labelling) (front : List Instruction) : Supply := Supply.after A ⟨none, []⟩ front

section

variable {A : Labelling} {s : Supply} {i : Instruction} {front code code' : List Instruction}

/-- An instruction that is no label stays in the block and adds its own value. -/
theorem Instruction.supply_of_label? (h : i.label? = none) :
    i.supply A s = ⟨s.block, i.dest?.toList ++ s.values⟩ := by
  cases i <;> first | rfl | simp [Instruction.label?] at h

@[simp] theorem Supply.after_nil : s.after A [] = s := rfl

@[simp] theorem Supply.after_append :
    s.after A (code ++ code') = (s.after A code).after A code' := List.foldl_append

@[simp] theorem Supply.after_cons :
    s.after A (i :: code) = (i.supply A s).after A code := rfl

/-- What is known behind a list in two parts is found one part behind the other. -/
theorem supplyOf_append : supplyOf A (front ++ code) = (supplyOf A front).after A code :=
  Supply.after_append

/-- What is known behind one more instruction. -/
theorem supplyOf_concat : supplyOf A (front ++ [i]) = i.supply A (supplyOf A front) :=
  Supply.after_append

/-- The block that is known is the one of the last label. -/
theorem exists_label_of_block {l : Label} (h : (supplyOf A front).block = some l) :
    ∃ start < front.length, front[start]? = some (.label l) ∧
      ∀ k, start < k → k < front.length → ∀ l', front[k]? ≠ some (.label l') := by
  induction front using List.reverseRecOn with
  | nil => simp [supplyOf] at h
  | append_singleton front i ih =>
      rw [supplyOf_concat] at h
      cases hi : i.label? with
      | some l' =>
          cases i <;> simp only [Instruction.label?, reduceCtorEq, Option.some.injEq] at hi
          cases h
          refine ⟨front.length, by simp, by simp, fun k hk hlt => ?_⟩
          simp only [List.length_append, List.length_singleton] at hlt
          omega
      | none =>
          rw [Instruction.supply_of_label? hi] at h
          obtain ⟨start, hstart, hlabel, hrest⟩ := ih h
          refine ⟨start, by simp; omega, by rwa [List.getElem?_append_left hstart],
            fun k hk hlt l' => ?_⟩
          simp only [List.length_append, List.length_singleton] at hlt
          rcases Nat.lt_or_ge k front.length with hfront | hfront
          · rw [List.getElem?_append_left hfront]
            exact hrest k hk hfront l'
          · obtain rfl : k = front.length := by omega
            rw [List.getElem?_concat_length]
            rintro ⟨⟩
            simp [Instruction.label?] at hi

end

/-! ## Checking a body -/

/-- A property of every instruction of a list and of what stands in front of it. -/
def Everywhere (P : List Instruction → Instruction → Prop) :
    List Instruction → List Instruction → Prop
  | _, [] => True
  | front, i :: rest => P front i ∧ Everywhere P (front ++ [i]) rest

section

variable {P : List Instruction → Instruction → Prop} {front code code' : List Instruction}

@[simp] theorem everywhere_nil : Everywhere P front [] := trivial

@[simp] theorem everywhere_append :
    Everywhere P front (code ++ code') ↔
      Everywhere P front code ∧ Everywhere P (front ++ code) code' := by
  induction code generalizing front with
  | nil => simp
  | cons i rest ih => simp [Everywhere, ih, and_assoc]

/-- A list, split at a place. -/
theorem List.eq_take_append {α : Type} {l : List α} {n : Nat} {a : α} (h : l[n]? = some a) :
    l = l.take n ++ a :: l.drop (n + 1) := by
  obtain ⟨hlt, hget⟩ := List.getElem?_eq_some_iff.1 h
  rw [← hget, List.getElem_cons_drop, List.take_append_drop]

/-- The property of one instruction. -/
theorem Everywhere.get (h : Everywhere P [] code) {place : Nat} {i : Instruction}
    (hi : code[place]? = some i) : P (code.take place) i := by
  rw [List.eq_take_append hi, everywhere_append] at h
  simpa using h.2.1

end

/-- A value that an instruction reads is known; everything else always is. -/
def Operand.Known (values : List Operand) : Operand → Prop
  | .temp n t => .temp n t ∈ values
  | _ => True

/-- What a labelling promises about an instruction and what stands in front of it. -/
structure Guarded (A : Labelling) (front : List Instruction) (i : Instruction) : Prop where
  /-- What is known has been defined further up. -/
  defined : (supplyOf A front).values ⊆ front.filterMap Instruction.dest?
  reads : ∀ a ∈ i.reads, a.Known (supplyOf A front).values
  targets : ∀ l ∈ i.targets, A l ⊆ (supplyOf A front).values
  /-- A block only starts where the one before has ended. -/
  label : ∀ l, i = .label l → ¬ CodeOpen front
  /-- A value that is paired with a block is known where that block ends, and that block
  goes to the one of the instruction. -/
  incoming : ∀ pair ∈ i.incoming, ∃ front' terminator rest stop,
    front = front' ++ terminator :: rest ∧ terminator.isTerminator = true ∧
    (supplyOf A front').block = some pair.2 ∧ pair.1.Known (supplyOf A front').values ∧
    (supplyOf A front).block = some stop ∧ stop ∈ terminator.targets

/-- What is known in front of a place: behind a label only what the label is assigned. -/
def knownAt (A : Labelling) (body : List Instruction) (place : Nat) : List Operand :=
  match body[place]? with
  | some (.label l) => A l
  | _ => (supplyOf A (body.take place)).values

section

variable {A : Labelling} {body : List Instruction}

/-- In front of an instruction that is no label, what is known comes from those before
it. -/
theorem knownAt_of_label? {place : Nat} {i : Instruction} (hi : body[place]? = some i)
    (hlabel : i.label? = none) : knownAt A body place = (supplyOf A (body.take place)).values := by
  unfold knownAt
  rw [hi]
  split
  · next h =>
      cases h
      simp [Instruction.label?] at hlabel
  · rfl

/-- A terminator is no label. -/
theorem Instruction.label?_of_isTerminator {i : Instruction} (h : i.isTerminator = true) :
    i.label? = none := by
  cases i <;> first | rfl | simp [Instruction.isTerminator] at h

/-- What goes to a label is a terminator. -/
theorem Instruction.isTerminator_of_targets {i : Instruction} {l : Label} (h : l ∈ i.targets) :
    i.isTerminator = true := by
  cases i <;> first | rfl | simp [Instruction.targets] at h

/-- One more element of a list is the one at the place. -/
theorem List.take_succ_of_getElem? {α : Type} {l : List α} {n : Nat} {a : α}
    (h : l[n]? = some a) : l.take (n + 1) = l.take n ++ [a] := by
  rw [List.take_add_one, h]
  rfl

/-- Along an edge, nothing is known that was not known before or defined there. -/
theorem Edge.known_or_defined (hbody : Everywhere (Guarded A) [] body) {place target : Nat}
    (h : Edge body place target) {a : Operand} (ha : a ∈ knownAt A body target) :
    a ∈ knownAt A body place ∨ DefinedAt body a place := by
  cases h with
  | @next i hi hnext =>
      have htake := List.take_succ_of_getElem? hi
      -- a terminator stands in front of every label, so the next place has none
      have htarget : knownAt A body (place + 1) =
          (supplyOf A (body.take (place + 1))).values := by
        unfold knownAt
        split
        · next l hl =>
            refine absurd ?_ ((hbody.get hl).label l rfl)
            rw [htake, codeOpen_append_singleton]
            exact hnext
        · rfl
      rw [htarget, htake, supplyOf_concat] at ha
      cases hlabel : i.label? with
      | some l =>
          cases i <;> simp only [Instruction.label?, reduceCtorEq, Option.some.injEq] at hlabel
          left
          unfold knownAt
          rw [hi]
          exact ha
      | none =>
          rw [Instruction.supply_of_label? hlabel] at ha
          rcases List.mem_append.1 ha with ha | ha
          · exact .inr ⟨i, hi, by simpa using ha⟩
          · exact .inl (by rwa [knownAt_of_label? hi hlabel])
  | @goto _ i l hi hl hlabel =>
      have hknown : knownAt A body target = A l := by
        unfold knownAt
        rw [hlabel]
      rw [hknown] at ha
      rw [knownAt_of_label? hi (Instruction.label?_of_isTerminator
        (Instruction.isTerminator_of_targets hl))]
      exact .inl ((hbody.get hi).targets l hl ha)

/-- What is known at a place has been defined on every way to it. -/
theorem Walk.defined (hbody : Everywhere (Guarded A) [] body) {place : Nat} {passed : List Nat}
    (h : Walk body place passed) {a : Operand} (ha : a ∈ knownAt A body place) :
    ∃ d ∈ passed, DefinedAt body a d := by
  induction h with
  | start =>
      unfold knownAt at ha
      split at ha
      · next l hl => exact absurd codeOpen_nil ((hbody.get hl).label l rfl)
      · simp [supplyOf] at ha
  | step _ hedge ih =>
      rcases hedge.known_or_defined hbody ha with hknown | hdefined
      · obtain ⟨d, hd, hdefined⟩ := ih hknown
        exact ⟨d, List.mem_cons_of_mem _ hd, hdefined⟩
      · exact ⟨_, List.mem_cons_self .., hdefined⟩

/-- A place without a label is in the block that is known in front of it. -/
theorem inBlock_of_supplyOf {front : List Instruction} {i : Instruction} {rest : List Instruction}
    {l : Label} (hblock : (supplyOf A front).block = some l) (hi : i.label? = none) :
    InBlock (front ++ i :: rest) l front.length := by
  obtain ⟨start, hstart, hlabel, hrest⟩ := exists_label_of_block hblock
  refine ⟨start, hstart, by rwa [List.getElem?_append_left hstart], fun k hk hle l' => ?_⟩
  rcases Nat.lt_or_eq_of_le hle with hlt | rfl
  · rw [List.getElem?_append_left hlt]
    exact hrest k hk hlt l'
  · rw [List.getElem?_append_right (Nat.le_refl _)]
    rintro h
    simp only [Nat.sub_self, List.getElem?_cons_zero, Option.some.injEq] at h
    simp [h, Instruction.label?] at hi

/-- An element of a list without repetitions comes from one place. -/
theorem List.place_unique {α β : Type} {f : α → Option β} {l : List α} {b : β}
    (h : (l.filterMap f).Nodup) {m n : Nat} {x y : α} (hm : l[m]? = some x) (hx : f x = some b)
    (hn : l[n]? = some y) (hy : f y = some b) : m = n := by
  induction l generalizing m n with
  | nil => simp at hm
  | cons a rest ih =>
      have hmem : ∀ {k : Nat} {z : α}, rest[k]? = some z → f z = some b → b ∈ rest.filterMap f :=
        fun hk hz => List.mem_filterMap.2 ⟨_, List.mem_of_getElem? hk, hz⟩
      have hhead : f a = some b → b ∉ rest.filterMap f := fun ha => by
        rw [List.filterMap_cons_some ha] at h
        exact (List.nodup_cons.1 h).1
      have hrest : (rest.filterMap f).Nodup :=
        List.Nodup.sublist ((List.sublist_cons_self a rest).filterMap f) h
      cases m with
      | zero =>
          cases n with
          | zero => rfl
          | succ n =>
              cases hm
              exact absurd (hmem (by simpa using hn) hy) (hhead hx)
      | succ m =>
          cases n with
          | zero =>
              cases hn
              exact absurd (hmem (by simpa using hm) hx) (hhead hy)
          | succ n => exact congrArg Nat.succ (ih hrest (by simpa using hm) (by simpa using hn))

/-- **What is known at a place has a definition that dominates it.** -/
theorem Everywhere.dominates (hbody : Everywhere (Guarded A) [] body)
    (hdests : (body.filterMap Instruction.dest?).Nodup) {place : Nat} {i : Instruction}
    (hi : body[place]? = some i) (hlabel : i.label? = none) {a : Operand}
    (ha : a ∈ (supplyOf A (body.take place)).values) :
    ∃ d, DefinedAt body a d ∧ Dominates body d place := by
  obtain ⟨j, hj, hdest⟩ := List.mem_filterMap.1 ((hbody.get hi).defined ha)
  obtain ⟨d, hd⟩ := List.mem_iff_getElem?.1 (List.mem_of_mem_take hj)
  refine ⟨d, ⟨j, hd, hdest⟩, fun passed hwalk => ?_⟩
  obtain ⟨d', hmem, k, hk, hdest'⟩ := hwalk.defined hbody (by rwa [knownAt_of_label? hi hlabel])
  rwa [List.place_unique hdests hd hdest hk hdest']

end

end ClassLang
