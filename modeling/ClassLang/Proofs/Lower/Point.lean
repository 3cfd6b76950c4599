import ClassLang.Lower.Frame
import ClassLang.Proofs.Code.Region

/-!
# What a lowering program emits

A lowering program changes a frame in two ways: it puts instructions behind the list being
filled, and it moves the **point** that the lowering stands at (the address book, the
numbers given out, and the current label).  Which instructions it emits depends on the
point only.  `Emits` says exactly that, and the lemmas below say it for each elementary
program; longer programs are read off step by step with `Emits.bind`.
-/

namespace ClassLang

/-- A frame without its lists of instructions. -/
structure Point where
  addresses : AddressBook
  counters : Counters
  label : Option Label

namespace Point

/-- The frame that stands at a point and fills the lists of a stack. -/
def frame (p : Point) (blocks : BlockStack) : Frame :=
  ⟨blocks, p.addresses, p.counters, p.label⟩

/-- The point where the lowering of a function starts. -/
def start (function : String) : Point := ⟨{ function }, {}, none⟩

/-- The number of the next value. -/
def temps (p : Point) : Nat := p.counters.temps

/-- The number of the next label. -/
def labels (p : Point) : Nat := p.counters.labels

/-- The next value, at some type. -/
def fresh (p : Point) (ty : StorageType) : Operand := .temp p.temps ty

/-- The point behind the definition of a value. -/
def next (p : Point) : Point :=
  { p with counters := { p.counters with temps := p.counters.temps + 1 } }

/-- The point after some labels were given out. -/
def issue (p : Point) (count : Nat) : Point :=
  { p with counters := { p.counters with labels := p.counters.labels + count } }

/-- The point at the start of a block. -/
def enter (p : Point) (label : Label) : Point := { p with label := some label }

/-- The point where a place of a symbol is known. -/
def record (p : Point) (symbol : SymbolId) (place : Operand) : Point :=
  { p with addresses := p.addresses.record symbol place }

/-- The result of a call: nothing if there is no value to give back. -/
def result (p : Point) (ty : StorageType) : Option Operand :=
  if ty.isVoid then none else some (p.fresh ty)

/-- The point behind a call. -/
def afterResult (p : Point) (ty : StorageType) : Point := if ty.isVoid then p else p.next

section

variable (p : Point) (l : Label) (n : Nat) (symbol : SymbolId) (place : Operand)

@[simp] theorem temps_next : p.next.temps = p.temps + 1 := rfl
@[simp] theorem temps_issue : (p.issue n).temps = p.temps := rfl
@[simp] theorem temps_enter : (p.enter l).temps = p.temps := rfl
@[simp] theorem temps_record : (p.record symbol place).temps = p.temps := rfl
@[simp] theorem labels_next : p.next.labels = p.labels := rfl
@[simp] theorem labels_issue : (p.issue n).labels = p.labels + n := rfl
@[simp] theorem labels_enter : (p.enter l).labels = p.labels := rfl
@[simp] theorem labels_record : (p.record symbol place).labels = p.labels := rfl
@[simp] theorem label_next : p.next.label = p.label := rfl
@[simp] theorem label_issue : (p.issue n).label = p.label := rfl
@[simp] theorem label_enter : (p.enter l).label = some l := rfl
@[simp] theorem label_record : (p.record symbol place).label = p.label := rfl
@[simp] theorem addresses_next : p.next.addresses = p.addresses := rfl
@[simp] theorem addresses_issue : (p.issue n).addresses = p.addresses := rfl
@[simp] theorem addresses_enter : (p.enter l).addresses = p.addresses := rfl
@[simp] theorem addresses_record :
    (p.record symbol place).addresses = p.addresses.record symbol place := rfl
@[simp] theorem ty_fresh (ty : StorageType) : (p.fresh ty).ty = ty := rfl

end

end Point

namespace BlockStack

/-- Whether the list being filled can be continued. -/
def Open (stack : BlockStack) : Prop := CodeOpen stack.top

@[simp] theorem splice_nil (stack : BlockStack) : stack.splice [] = stack := by
  simp [splice]

@[simp] theorem splice_splice (stack : BlockStack) (a b : List Instruction) :
    (stack.splice a).splice b = stack.splice (a ++ b) := by
  simp [splice]

/-- A list stays open if what comes behind it is open. -/
theorem Open.splice {stack : BlockStack} (h : stack.Open) {code : List Instruction}
    (hcode : CodeOpen code) : (stack.splice code).Open :=
  CodeOpen.append h hcode

end BlockStack

/-- From a point, behind any list that can be continued, the program succeeds with a
result, emits `code` and moves on to another point. -/
def Emits {α : Type} (m : Lowering α) (p : Point) (a : α) (code : List Instruction)
    (p' : Point) : Prop :=
  ∀ blocks : BlockStack, blocks.Open →
    m.run (p.frame blocks) = .ok (a, p'.frame (blocks.splice code))

section

variable {α β : Type} {p p' p'' : Point}

/-- A value alone emits nothing. -/
theorem emits_pure (a : α) (p : Point) : Emits (pure a) p a [] p := by
  intro blocks _
  simp
  rfl

/-- One program after another.  The first one must leave a list that can be continued. -/
theorem Emits.bind {m : Lowering α} {f : α → Lowering β} {a : α} {b : β}
    {code code' : List Instruction} (hm : Emits m p a code p') (hopen : CodeOpen code)
    (hf : Emits (f a) p' b code' p'') : Emits (m >>= f) p b (code ++ code') p'' := by
  intro blocks hblocks
  have hrest := hf (blocks.splice code) (hblocks.splice hopen)
  rw [StateT.run_bind, hm blocks hblocks]
  change (f a).run (p'.frame (blocks.splice code)) = _
  simpa using hrest

/-- A program that emits nothing, followed by another one. -/
theorem Emits.then {m : Lowering α} {f : α → Lowering β} {a : α} {b : β}
    {code : List Instruction} (hm : Emits m p a [] p') (hf : Emits (f a) p' b code p'') :
    Emits (m >>= f) p b code p'' := by
  simpa using hm.bind codeOpen_nil hf

/-- A program followed by one that emits nothing. -/
theorem Emits.finally {m : Lowering α} {f : α → Lowering β} {a : α} {b : β}
    {code : List Instruction} (hm : Emits m p a code p') (hopen : CodeOpen code)
    (hf : Emits (f a) p' b [] p'') : Emits (m >>= f) p b code p'' := by
  simpa using hm.bind hopen hf

/-- A result that is mapped emits the same instructions. -/
theorem Emits.map {m : Lowering α} {a : α} {code : List Instruction} (g : α → β)
    (hm : Emits m p a code p') : Emits (g <$> m) p (g a) code p' := by
  intro blocks hblocks
  rw [StateT.run_map, hm blocks hblocks]
  rfl

/-- What is known without looking at the frame. -/
theorem emits_lift {x : Except InternalError α} {a : α} (hx : x = .ok a) (p : Point) :
    Emits (liftM x : Lowering α) p a [] p := by
  intro blocks _
  subst hx
  rw [BlockStack.splice_nil]
  rfl

end

namespace Lowering

/-- A fresh temporary emits nothing and takes one number. -/
theorem emits_temp (ty : StorageType) (p : Point) :
    Emits (temp ty) p (p.fresh ty) [] p.next := by
  intro blocks _
  simp
  rfl

/-- A fresh label emits nothing and takes one number. -/
theorem emits_freshLabel (p : Point) : Emits freshLabel p p.labels [] (p.issue 1) := by
  intro blocks _
  simp
  rfl

/-- An instruction that places no label leaves the point where it is. -/
theorem emits_emit {i : Instruction} (hi : i.label? = none) (p : Point) :
    Emits (emit i) p () [i] p := by
  intro blocks _
  simp [emit, hi]
  rfl

/-- An emitted label starts a block. -/
theorem emits_label (l : Label) (p : Point) :
    Emits (emit (.label l)) p () [.label l] (p.enter l) := by
  intro blocks _
  rfl

/-- Recording an address emits nothing. -/
theorem emits_record (symbol : SymbolId) (place : Operand) (p : Point) :
    Emits (record symbol place) p () [] (p.record symbol place) := by
  intro blocks _
  simp
  rfl

/-- Behind a list that can be continued there is something to reach. -/
theorem emits_terminated (p : Point) : Emits terminated p false [] p := by
  intro blocks hblocks
  have hlast : blocks.last?.any Instruction.isTerminator = false := hblocks
  change Except.ok (blocks.last?.any Instruction.isTerminator, _) = _
  rw [hlast]
  simp

end Lowering

/-- A block ends with a terminator and another one starts behind it. -/
theorem Emits.switch {α : Type} {p p' : Point} {m : Lowering α} {a : α} {l : Label}
    {code : List Instruction} (hm : Emits m (p.enter l) a code p') (i : Instruction) :
    Emits (do Lowering.emit i; Lowering.emit (.label l); m) p a (i :: .label l :: code) p' := by
  intro blocks _
  have hopen : (blocks.splice [i, .label l]).Open :=
    (codeOpen_append_of_ne_nil blocks.top (by simp)).2 rfl
  have hstart : (do Lowering.emit i; Lowering.emit (.label l); m).run (p.frame blocks) =
      m.run ((p.enter l).frame (blocks.splice [i, .label l])) := by
    simp [Lowering.emit, Point.frame, Point.enter, BlockStack.emit, Instruction.label?]
  rw [hstart, hm _ hopen]
  simp

/-- Behind a list that ends in a terminator, the program does nothing. -/
def Skips {α : Type} (m : Lowering α) (p : Point) (a : α) : Prop :=
  ∀ blocks : BlockStack, ¬ blocks.Open → m.run (p.frame blocks) = .ok (a, p.frame blocks)

/-- A program that ends in a terminator, followed by one that does nothing there. -/
theorem Emits.skip {α β : Type} {p p' : Point} {m : Lowering α} {f : α → Lowering β} {a : α}
    {b : β} {code : List Instruction} (hm : Emits m p a code p') (hclosed : ¬ CodeOpen code)
    (hf : Skips (f a) p' b) : Emits (m >>= f) p b code p' := by
  intro blocks hblocks
  have hne : code ≠ [] := by
    rintro rfl
    exact hclosed codeOpen_nil
  have hrest := hf (blocks.splice code) fun hopen =>
    hclosed ((codeOpen_append_of_ne_nil blocks.top hne).1 hopen)
  rw [StateT.run_bind, hm blocks hblocks]
  exact hrest

namespace Lowering

/-- Behind a terminator nothing can be reached. -/
theorem run_terminated_of_closed {blocks : BlockStack} (h : ¬ blocks.Open) (p : Point) :
    terminated.run (p.frame blocks) = .ok (true, p.frame blocks) := by
  have hlast : blocks.last?.any Instruction.isTerminator = true := by
    simpa [BlockStack.Open, CodeOpen, BlockStack.last?] using h
  change Except.ok (blocks.last?.any Instruction.isTerminator, _) = _
  rw [hlast]

/-- Code that is collected goes to a list of its own. -/
theorem emits_collect {α : Type} {fill : Lowering α} {p p' : Point} {a : α}
    {code : List Instruction} (h : Emits fill p a code p') :
    Emits (collect fill) p (a, code) [] p' := by
  intro blocks _
  have hfill := h blocks.push rfl
  have hpop : (blocks.push.splice code).pop = .ok (code, blocks) := rfl
  simp only [collect, StateT.run_bind]
  change (do
    let s ← fill.run (p.frame blocks.push)
    let q ← (liftM s.2.blocks.pop : Lowering _).run s.2
    Except.ok ((s.1, q.1.1), { q.2 with blocks := q.1.2 })) = _
  rw [hfill]
  change (do
    let q ← (liftM (blocks.push.splice code).pop : Lowering _).run
      (p'.frame (blocks.push.splice code))
    Except.ok ((a, q.1.1), { q.2 with blocks := q.1.2 })) = _
  rw [hpop]
  simp
  rfl

/-- Instructions that were collected go behind an instruction. -/
theorem emits_spliced (i : Instruction) (hi : i.label? = none) (first second : List Instruction)
    (p : Point) :
    Emits (do emit i; splice first; splice second) p () (i :: (first ++ second)) p := by
  intro blocks _
  simp [emit, splice, Point.frame, hi, BlockStack.emit]
  rfl

end Lowering

end ClassLang
