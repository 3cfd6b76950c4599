import Mathlib.Data.List.Forall2
import ClassLang.Proofs.Symbol.Ancestry
import ClassLang.Proofs.Symbol.Growth
import ClassLang.Symbol.Members

/-!
# Symbols of two tables that stand for the same thing

Two units that consist of the same declarations give different numbers to them.  A relation
between the numbers of two tables pairs those that stand for the same thing; types and entries
are paired when they are equal up to the numbers in them.  Numbers are paired one to one, so
questions that compare symbols have the same answer on both sides, and so do the walks that follow
references (`SymbolTable.Paired.member?`).

While members are declared, the entries of some symbols are not comparable yet, because their turn
comes at another time in the other unit: these are hidden, and only their kinds and names are known
to be the same.
-/

open List (Forall₂)

/-! ## Lists and optional values -/

section

variable {α β γ δ : Type} {R : α → β → Prop} {S : γ → δ → Prop}

/-- Less may be asked of what two options hold. -/
theorem Option.Rel.imp {R' : α → β → Prop} (h : ∀ a b, R a b → R' a b) {o : Option α}
    {o' : Option β} (ho : Option.Rel R o o') : Option.Rel R' o o' := by
  cases ho with
  | none => exact .none
  | some hab => exact .some (h _ _ hab)

/-- Steps that may find nothing, one behind the other. -/
theorem Option.Rel.bind {o : Option α} {o' : Option β} {f : α → Option γ} {g : β → Option δ}
    (ho : Option.Rel R o o') (h : ∀ a b, R a b → Option.Rel S (f a) (g b)) :
    Option.Rel S (o.bind f) (o'.bind g) := by
  cases ho with
  | none => exact .none
  | some hab => exact h _ _ hab

/-- What is made of two things that are related. -/
theorem Option.Rel.map {o : Option α} {o' : Option β} {f : α → γ} {g : β → δ}
    (ho : Option.Rel R o o') (h : ∀ a b, R a b → S (f a) (g b)) :
    Option.Rel S (o.map f) (o'.map g) := by
  cases ho with
  | none => exact .none
  | some hab => exact .some (h _ _ hab)

/-- Either both hold something or neither does. -/
theorem Option.Rel.isSome_eq {o : Option α} {o' : Option β} (ho : Option.Rel R o o') :
    o'.isSome = o.isSome := by
  cases ho <;> rfl

/-- What is read off related values is equal if they do not differ in it. -/
theorem Option.Rel.map_eq {o : Option α} {o' : Option β} {f : α → γ} {g : β → γ}
    (ho : Option.Rel R o o') (h : ∀ a b, R a b → g b = f a) : o'.map g = o.map f := by
  cases ho with
  | none => rfl
  | some hab => rw [Option.map_some, Option.map_some, h _ _ hab]

/-- The first elements that pass a test are related, if the test treats related ones
alike. -/
theorem List.Forall₂.find? {l : List α} {l' : List β} {p : α → Bool} {q : β → Bool}
    (hl : Forall₂ R l l') (h : ∀ a b, R a b → q b = p a) :
    Option.Rel R (l.find? p) (l'.find? q) := by
  induction hl with
  | nil => exact .none
  | @cons a b _ _ hab _ ih =>
      simp only [List.find?_cons, h a b hab]
      split
      · exact .some hab
      · exact ih

/-- The first results are related, if related elements lead to related ones. -/
theorem List.Forall₂.findSome? {l : List α} {l' : List β} {f : α → Option γ} {g : β → Option δ}
    (hl : Forall₂ R l l') (h : ∀ a b, R a b → Option.Rel S (f a) (g b)) :
    Option.Rel S (l.findSome? f) (l'.findSome? g) := by
  induction hl with
  | nil => exact .none
  | @cons a b _ _ hab _ ih =>
      have hhead := h a b hab
      simp only [List.findSome?_cons]
      cases hf : f a <;> cases hg : g b <;> rw [hf, hg] at hhead <;> cases hhead
      · exact ih
      · exact .some ‹_›

/-- Related elements that are made into the same give the same list. -/
theorem List.Forall₂.map_eq {l : List α} {l' : List β} {f : α → γ} {g : β → γ}
    (hl : Forall₂ R l l') (h : ∀ a b, R a b → g b = f a) : l'.map g = l.map f := by
  induction hl with
  | nil => rfl
  | cons hab _ ih => rw [List.map_cons, List.map_cons, h _ _ hab, ih]

/-- Related lists are empty together. -/
theorem List.Forall₂.isEmpty_eq {l : List α} {l' : List β} (hl : Forall₂ R l l') :
    l'.isEmpty = l.isEmpty := by
  cases hl <;> rfl

/-- Every element on the left has a partner. -/
theorem List.Forall₂.exists_of_mem_left {l : List α} {l' : List β} (hl : Forall₂ R l l') {a : α}
    (ha : a ∈ l) : ∃ b ∈ l', R a b := by
  induction hl with
  | nil => cases ha
  | @cons x y _ _ hxy _ ih =>
      rcases List.mem_cons.1 ha with rfl | ha
      · exact ⟨y, List.mem_cons_self .., hxy⟩
      · obtain ⟨b, hb, hab⟩ := ih ha
        exact ⟨b, List.mem_cons_of_mem _ hb, hab⟩

/-- Every element on the right has a partner. -/
theorem List.Forall₂.exists_of_mem_right {l : List α} {l' : List β} (hl : Forall₂ R l l') {b : β}
    (hb : b ∈ l') : ∃ a ∈ l, R a b := by
  obtain ⟨a, ha, hab⟩ := hl.flip.exists_of_mem_left hb
  exact ⟨a, ha, hab⟩

/-- Lists of numbers that are paired one to one have the same elements. -/
theorem List.Forall₂.contains [BEq α] [LawfulBEq α] [BEq β] [LawfulBEq β] {l : List α}
    {l' : List β} {a : α} {b : β} (hl : Forall₂ R l l') (hunique : Relator.BiUnique R)
    (hab : R a b) : l'.contains b = l.contains a := by
  rw [Bool.eq_iff_iff, List.contains_iff_mem, List.contains_iff_mem]
  exact (List.rel_mem hunique hab hl).symm

/-- What is paired one to one compares as what it is paired with. -/
theorem Relator.eq_iff_eq (h : Relator.BiUnique R) {a a' : α} {b b' : β} (hab : R a b)
    (hab' : R a' b') : b = b' ↔ a = a' :=
  (Relator.rel_eq h hab hab').symm

end

namespace ClassLang

/-! ## Types -/

/-- Two types that are equal up to the numbers in them. -/
inductive Ty.Paired (r : SymbolId → SymbolId → Prop) : Ty → Ty → Prop
  | primitive (p : Primitive) : Paired r (.primitive p) (.primitive p)
  | pointer {a b : Ty} (h : Paired r a b) : Paired r (.pointer a) (.pointer b)
  | array {a b : Ty} (size : Nat) (h : Paired r a b) : Paired r (.array a size) (.array b size)
  | function {i j : SymbolId} (h : r i j) : Paired r (.function i) (.function j)
  | classType {i j : SymbolId} (h : r i j) : Paired r (.classType i) (.classType j)
  | structType {i j : SymbolId} (h : r i j) : Paired r (.structType i) (.structType j)
  | error : Paired r .error .error

/-- Apart from pointers, only equal types can be assigned, or those that could not be resolved. -/
theorem Ty.isAssignableTo_of_not_isPointer {a : Ty} (h : a.isPointer = false) (b : Ty) :
    a.isAssignableTo b = (a.isError || b.isError || a == b) := by
  cases a <;> cases b <;> simp_all [isAssignableTo, isPointer, isError]

namespace Ty.Paired

variable {r r' : SymbolId → SymbolId → Prop} {a b a' b' : Ty}

/-- More numbers may be paired. -/
theorem imp (h : Paired r a b) (hr : ∀ i j, r i j → r' i j) : Paired r' a b := by
  induction h with
  | primitive p => exact .primitive p
  | pointer _ ih => exact .pointer ih
  | array size _ ih => exact .array size ih
  | function h => exact .function (hr _ _ h)
  | classType h => exact .classType (hr _ _ h)
  | structType h => exact .structType (hr _ _ h)
  | error => exact .error

/-- Whether it is a pointer does not depend on the numbers. -/
theorem isPointer (h : Paired r a b) : b.isPointer = a.isPointer := by
  cases h <;> rfl

/-- Whether it is `void` does not depend on the numbers. -/
theorem isVoid (h : Paired r a b) : b.isVoid = a.isVoid := by
  cases h <;> rfl

/-- Whether it is a truth value does not depend on the numbers. -/
theorem isBool (h : Paired r a b) : b.isBool = a.isBool := by
  cases h <;> rfl

/-- Whether it is an integer does not depend on the numbers. -/
theorem isInteger (h : Paired r a b) : b.isInteger = a.isInteger := by
  cases h <;> rfl

/-- Whether it stands for an error does not depend on the numbers. -/
theorem isError (h : Paired r a b) : b.isError = a.isError := by
  cases h <;> rfl

/-- Which primitive type it is does not depend on the numbers. -/
theorem primitive? (h : Paired r a b) : b.primitive? = a.primitive? := by
  cases h <;> rfl

/-- What pointers point to is paired. -/
theorem pointee? (h : Paired r a b) : Option.Rel (Paired r) a.pointee? b.pointee? := by
  cases h with
  | pointer h => exact .some h
  | _ => exact .none

/-- The classes behind pointers are paired. -/
theorem classBehindPointer? (h : Paired r a b) :
    Option.Rel r a.classBehindPointer? b.classBehindPointer? := by
  cases h with
  | pointer h =>
      cases h with
      | classType h => exact .some h
      | _ => exact .none
  | _ => exact .none

/-- The records that are stored as such are paired. -/
theorem inlineRecord? (h : Paired r a b) : Option.Rel r a.inlineRecord? b.inlineRecord? := by
  induction h with
  | array _ _ ih => exact ih
  | classType h | structType h => exact .some h
  | _ => exact .none

/-- Pointers to paired types are paired. -/
theorem pointers (h : Paired r a b) (depth : Nat) :
    Paired r (a.pointers depth) (b.pointers depth) := by
  induction depth with
  | zero => exact h
  | succ depth ih => exact .pointer ih

/-- Types compare as the types they are paired with. -/
theorem eq_iff (hunique : Relator.BiUnique r) (h : Paired r a b) (h' : Paired r a' b') :
    b = b' ↔ a = a' := by
  induction h generalizing a' b' with
  | pointer _ ih =>
      cases h' with
      | pointer h' => simp [ih h']
      | _ => simp
  | array _ _ ih =>
      cases h' with
      | array _ h' => simp [ih h']
      | _ => simp
  | function h | classType h | structType h =>
      cases h' with
      | function h' | classType h' | structType h' => simp [Relator.eq_iff_eq hunique h h']
      | _ => simp
  | _ => cases h' <;> simp

/-- **Paired types are equal together**, if the numbers are paired one to one. -/
theorem beq (hunique : Relator.BiUnique r) (h : Paired r a b) (h' : Paired r a' b') :
    (b == b') = (a == a') := by
  rw [Bool.eq_iff_iff, beq_iff_eq, beq_iff_eq]
  exact h.eq_iff hunique h'

/-- Whether a value may be assigned does not depend on the numbers. -/
theorem isAssignableTo (hunique : Relator.BiUnique r) (h : Paired r a b) (h' : Paired r a' b') :
    b.isAssignableTo b' = a.isAssignableTo a' := by
  have hplain : ∀ {a b a' b'}, Paired r a b → Paired r a' b' → a.isPointer = false →
      b.isAssignableTo b' = a.isAssignableTo a' := by
    intro a b a' b' h h' hpointer
    rw [isAssignableTo_of_not_isPointer hpointer a',
      isAssignableTo_of_not_isPointer (h.isPointer.trans hpointer) b', h.isError, h'.isError,
      h.beq hunique h']
  induction h generalizing a' b' with
  | pointer _ ih =>
      cases h' with
      | pointer h' => simpa only [Ty.isAssignableTo] using ih h'
      | _ => rfl
  | primitive p => exact hplain (.primitive p) h' rfl
  | array size h => exact hplain (.array size h) h' rfl
  | function h => exact hplain (.function h) h' rfl
  | classType h => exact hplain (.classType h) h' rfl
  | structType h => exact hplain (.structType h) h' rfl
  | error => exact hplain .error h' rfl

end Ty.Paired

/-! ## Entries -/

section

variable (r : SymbolId → SymbolId → Prop)

/-- Two layouts of the same fields and slots. -/
structure ClassLayout.Paired (l l' : ClassLayout) : Prop where
  fields : Forall₂ r l.fields l'.fields
  dispatch : Forall₂ r l.dispatch l'.dispatch

/-- Two entries of the same class. -/
structure ClassEntry.Paired (e e' : ClassEntry) : Prop where
  name : e'.name = e.name
  parent : Option.Rel r e.parent e'.parent
  fields : Forall₂ r e.fields e'.fields
  functions : Forall₂ r e.functions e'.functions
  external : e'.external = e.external
  layout : Option.Rel (ClassLayout.Paired r) e.layout e'.layout

/-- Two entries of the same struct. -/
structure StructEntry.Paired (e e' : StructEntry) : Prop where
  name : e'.name = e.name
  fields : Forall₂ r e.fields e'.fields

/-- Two entries of the same function. -/
structure FunctionEntry.Paired (e e' : FunctionEntry) : Prop where
  name : e'.name = e.name
  linkName : e'.linkName = e.linkName
  returnType : Ty.Paired r e.returnType e'.returnType
  arguments : Forall₂ r e.arguments e'.arguments
  traits : e'.traits = e.traits
  owner : Option.Rel r e.owner e'.owner
  resolved : e'.resolved = e.resolved

/-- Two entries of the same field. -/
structure FieldEntry.Paired (e e' : FieldEntry) : Prop where
  name : e'.name = e.name
  ty : Ty.Paired r e.ty e'.ty
  owner : r e.owner e'.owner
  offset : e'.offset = e.offset

/-- Two entries of the same variable. -/
structure VariableEntry.Paired (e e' : VariableEntry) : Prop where
  name : e'.name = e.name
  ty : Ty.Paired r e.ty e'.ty

/-- Two symbols that are equal up to their places and the numbers in them.  Literals are never
paired: they are numbered through the whole unit. -/
inductive Symbol.Paired : Symbol → Symbol → Prop
  | classEntry {e e' : ClassEntry} (h : e.Paired r e') : Paired (.classEntry e) (.classEntry e')
  | structEntry {e e' : StructEntry} (h : e.Paired r e') : Paired (.structEntry e) (.structEntry e')
  | function {e e' : FunctionEntry} (h : e.Paired r e') : Paired (.function e) (.function e')
  | field {e e' : FieldEntry} (h : e.Paired r e') : Paired (.field e) (.field e')
  | argument {e e' : VariableEntry} (h : e.Paired r e') : Paired (.argument e) (.argument e')
  | localVariable {e e' : VariableEntry} (h : e.Paired r e') :
      Paired (.localVariable e) (.localVariable e')
  | variadicMarker : Paired .variadicMarker .variadicMarker

end

/-- Two symbols of the same kind and the same name; functions have the same traits as well. -/
inductive Symbol.Akin : Symbol → Symbol → Prop
  | classEntry {e e' : ClassEntry} (h : e'.name = e.name) : Akin (.classEntry e) (.classEntry e')
  | structEntry {e e' : StructEntry} (h : e'.name = e.name) :
      Akin (.structEntry e) (.structEntry e')
  | function {e e' : FunctionEntry} (h : e'.name = e.name) (htraits : e'.traits = e.traits) :
      Akin (.function e) (.function e')
  | field {e e' : FieldEntry} (h : e'.name = e.name) : Akin (.field e) (.field e')
  | argument {e e' : VariableEntry} (h : e'.name = e.name) : Akin (.argument e) (.argument e')
  | localVariable {e e' : VariableEntry} (h : e'.name = e.name) :
      Akin (.localVariable e) (.localVariable e')
  | variadicMarker : Akin .variadicMarker .variadicMarker

namespace Symbol

variable {r r' : SymbolId → SymbolId → Prop} {s s' s₁ s₁' : Symbol}

/-- A symbol keeps its kind and its name. -/
theorem Akin.later (h : s.Akin s') (hlater : s.Later s₁) (hlater' : s'.Later s₁') :
    s₁.Akin s₁' := by
  cases h with
  | classEntry h =>
      cases s₁ <;> cases s₁' <;> simp only [Later, reduceCtorEq] at hlater hlater'
      exact .classEntry (hlater'.1.trans (h.trans hlater.1.symm))
  | structEntry h =>
      cases s₁ <;> cases s₁' <;> simp only [Later, reduceCtorEq] at hlater hlater'
      exact .structEntry (hlater'.trans (h.trans hlater.symm))
  | function h htraits =>
      cases s₁ <;> cases s₁' <;> simp only [Later, reduceCtorEq] at hlater hlater'
      exact .function (hlater'.1.trans (h.trans hlater.1.symm))
        (hlater'.2.2.2.1.trans (htraits.trans hlater.2.2.2.1.symm))
  | field h =>
      cases s₁ <;> cases s₁' <;> simp only [Later, reduceCtorEq] at hlater hlater'
      exact .field (hlater'.1.trans (h.trans hlater.1.symm))
  | argument h =>
      rw [show s₁ = _ from hlater, show s₁' = _ from hlater']
      exact .argument h
  | localVariable h =>
      rw [show s₁ = _ from hlater, show s₁' = _ from hlater']
      exact .localVariable h
  | variadicMarker =>
      rw [show s₁ = _ from hlater, show s₁' = _ from hlater']
      exact .variadicMarker

/-- Symbols that are akin have one name. -/
theorem Akin.name (h : s.Akin s') : s'.name = s.name := by
  cases h with
  | variadicMarker => rfl
  | classEntry h | structEntry h | function h _ | field h | argument h | localVariable h => exact h

/-- Symbols that are paired are akin. -/
theorem Paired.akin (h : s.Paired r s') : s.Akin s' := by
  cases h with
  | classEntry h => exact .classEntry h.name
  | structEntry h => exact .structEntry h.name
  | function h => exact .function h.name h.traits
  | field h => exact .field h.name
  | argument h => exact .argument h.name
  | localVariable h => exact .localVariable h.name
  | variadicMarker => exact .variadicMarker

/-- More numbers may be paired. -/
theorem Paired.imp (h : s.Paired r s') (hr : ∀ i j, r i j → r' i j) : s.Paired r' s' := by
  have hids : ∀ l l', Forall₂ r l l' → Forall₂ r' l l' := fun _ _ hl => hl.imp hr
  cases h with
  | classEntry h =>
      refine .classEntry ⟨h.name, h.parent.imp hr, hids _ _ h.fields, hids _ _ h.functions,
        h.external, h.layout.imp fun _ _ hl => ⟨hids _ _ hl.fields, hids _ _ hl.dispatch⟩⟩
  | structEntry h => exact .structEntry ⟨h.name, hids _ _ h.fields⟩
  | function h =>
      exact .function ⟨h.name, h.linkName, h.returnType.imp hr, hids _ _ h.arguments, h.traits,
        h.owner.imp hr, h.resolved⟩
  | field h => exact .field ⟨h.name, h.ty.imp hr, hr _ _ h.owner, h.offset⟩
  | argument h => exact .argument ⟨h.name, h.ty.imp hr⟩
  | localVariable h => exact .localVariable ⟨h.name, h.ty.imp hr⟩
  | variadicMarker => exact .variadicMarker

end Symbol

/-! ## Tables -/

namespace SymbolTable

/-- Two tables agree on the numbers that are paired: they are given out, and what stands under
them is paired, or at least of the same kind if it is hidden. -/
def Paired (hidden : SymbolId → Prop) (r : SymbolId → SymbolId → Prop) (t t' : SymbolTable) :
    Prop :=
  ∀ i j, r i j → ∃ s s', t.get? i = some s ∧ t'.get? j = some s' ∧ s.Akin s' ∧
    (¬ hidden i → s.Paired r s')

namespace Paired

variable {hidden : SymbolId → Prop} {r : SymbolId → SymbolId → Prop} {t t' : SymbolTable}
  {i j : SymbolId}

/-- A number that is paired has been given out on the left. -/
theorem lt_left (h : Paired hidden r t t') (hij : r i j) : i < t.size := by
  obtain ⟨s, s', hs, -⟩ := h i j hij
  exact lt_size_of_get? hs

/-- A number that is paired has been given out on the right. -/
theorem lt_right (h : Paired hidden r t t') (hij : r i j) : j < t'.size := by
  obtain ⟨s, s', -, hs', -⟩ := h i j hij
  exact lt_size_of_get? hs'

/-- What stands under paired numbers is paired, unless it is hidden. -/
theorem get? (h : Paired hidden r t t') (hij : r i j) (hi : ¬ hidden i) :
    ∃ s s', t.get? i = some s ∧ t'.get? j = some s' ∧ s.Paired r s' := by
  obtain ⟨s, s', hs, hs', -, hpaired⟩ := h i j hij
  exact ⟨s, s', hs, hs', hpaired hi⟩

/-- What is read off symbols that are paired is related if it is for all paired symbols. -/
theorem bind_get? {γ δ : Type} {S : γ → δ → Prop} (h : Paired hidden r t t') (hij : r i j)
    (hi : ¬ hidden i) {f : Symbol → Option γ} {g : Symbol → Option δ}
    (hf : ∀ s s', s.Paired r s' → Option.Rel S (f s) (g s')) :
    Option.Rel S ((t.get? i).bind f) ((t'.get? j).bind g) := by
  obtain ⟨s, s', hs, hs', hpaired⟩ := h.get? hij hi
  rw [hs, hs']
  exact hf s s' hpaired

/-- Under paired numbers there are paired classes, or none. -/
theorem class? (h : Paired hidden r t t') (hij : r i j) (hi : ¬ hidden i) :
    Option.Rel (ClassEntry.Paired r) (t.class? i) (t'.class? j) :=
  h.bind_get? hij hi fun s s' hs => by
    cases hs with
    | classEntry h => exact .some h
    | _ => exact .none

/-- Under paired numbers there are paired structs, or none. -/
theorem struct? (h : Paired hidden r t t') (hij : r i j) (hi : ¬ hidden i) :
    Option.Rel (StructEntry.Paired r) (t.struct? i) (t'.struct? j) :=
  h.bind_get? hij hi fun s s' hs => by
    cases hs with
    | structEntry h => exact .some h
    | _ => exact .none

/-- Under paired numbers there are paired functions, or none. -/
theorem function? (h : Paired hidden r t t') (hij : r i j) (hi : ¬ hidden i) :
    Option.Rel (FunctionEntry.Paired r) (t.function? i) (t'.function? j) :=
  h.bind_get? hij hi fun s s' hs => by
    cases hs with
    | function h => exact .some h
    | _ => exact .none

/-- Under paired numbers there are paired fields, or none. -/
theorem field? (h : Paired hidden r t t') (hij : r i j) (hi : ¬ hidden i) :
    Option.Rel (FieldEntry.Paired r) (t.field? i) (t'.field? j) :=
  h.bind_get? hij hi fun s s' hs => by
    cases hs with
    | field h => exact .some h
    | _ => exact .none

/-- Whether there is a class under a number is known of hidden symbols, too. -/
theorem isSome_class? (h : Paired hidden r t t') (hij : r i j) :
    (t'.class? j).isSome = (t.class? i).isSome := by
  obtain ⟨s, s', hs, hs', hkind, -⟩ := h i j hij
  simp only [SymbolTable.class?, hs, hs', Option.bind_some]
  cases hkind <;> rfl

/-- Paired classes have paired parents, or none. -/
theorem parent? (h : Paired hidden r t t') (hij : r i j) (hi : ¬ hidden i) :
    Option.Rel r (t.parent? i) (t'.parent? j) :=
  (h.class? hij hi).bind fun _ _ he => he.parent

/-- Names are known of hidden symbols, too. -/
theorem name (h : Paired hidden r t t') (hij : r i j) : t'.name j = t.name i := by
  obtain ⟨s, s', hs, hs', hakin, -⟩ := h i j hij
  simp only [SymbolTable.name, hs, hs', Option.map_some, Option.getD_some, hakin.name]

/-- Paired symbols have paired types. -/
theorem symbolType (h : Paired hidden r t t') (hij : r i j) (hi : ¬ hidden i) :
    Ty.Paired r (t.symbolType i) (t'.symbolType j) := by
  obtain ⟨s, s', hs, hs', hpaired⟩ := h.get? hij hi
  simp only [SymbolTable.symbolType, hs, hs']
  cases hpaired with
  | classEntry _ => exact .classType hij
  | structEntry _ => exact .structType hij
  | function _ => exact .function hij
  | field h | argument h | localVariable h => exact h.ty
  | variadicMarker => exact .error

/-- Fields of one name in paired structs are paired. -/
theorem structField? (h : Paired hidden r t t') (hij : r i j) (hi : ¬ hidden i) (name : String) :
    Option.Rel r (t.structField? i name) (t'.structField? j name) :=
  (h.struct? hij hi).bind fun _ _ he => he.fields.find? fun f f' hf => by rw [h.name hf]

end Paired

/-! ## Walks -/

section

variable {hidden : SymbolId → Prop} {r : SymbolId → SymbolId → Prop} {t t' : SymbolTable}
  {i j : SymbolId}

/-- A walk that has seen as many symbols as it can still take steps is at its end. -/
theorem Paired.length_lt (h : Paired hidden r t t') {seen seen' : List SymbolId}
    (hseen : Forall₂ r seen seen') (hnodup : seen.Nodup) (hnodup' : seen'.Nodup) :
    seen.length ≤ t.size ∧ seen'.length ≤ t'.size := by
  constructor
  · refine length_le_of_nodup hnodup fun x hx => ?_
    obtain ⟨y, -, hxy⟩ := hseen.exists_of_mem_left hx
    exact h.lt_left hxy
  · refine length_le_of_nodup hnodup' fun y hy => ?_
    obtain ⟨x, -, hxy⟩ := hseen.exists_of_mem_right hy
    exact h.lt_right hxy

/-- **Ancestors are paired.**  The walks do not run out of fuel, as each step sees a symbol that
was not seen before. -/
theorem Paired.ancestorsUpTo (h : Paired hidden r t t') (hunique : Relator.BiUnique r)
    (hshown : ∀ i, ¬ hidden i) {fuel fuel' : Nat} {seen seen' : List SymbolId}
    (hseen : Forall₂ r seen seen') (hnodup : seen.Nodup) (hnodup' : seen'.Nodup)
    (hfuel : t.size < fuel + seen.length) (hfuel' : t'.size < fuel' + seen'.length) (hij : r i j) :
    Forall₂ r (t.ancestorsUpTo fuel seen i) (t'.ancestorsUpTo fuel' seen' j) := by
  obtain ⟨hlength, hlength'⟩ := h.length_lt hseen hnodup hnodup'
  induction fuel generalizing fuel' seen seen' i j with
  | zero => omega
  | succ fuel ih =>
      obtain ⟨fuel', rfl⟩ : ∃ n, fuel' = n + 1 := ⟨fuel' - 1, by omega⟩
      have hcontains := hseen.contains hunique hij
      simp only [SymbolTable.ancestorsUpTo, hcontains]
      split
      · exact .nil
      · next hnew =>
          refine .cons hij ?_
          have hparent := h.parent? hij (hshown i)
          cases hp : t.parent? i <;> cases hp' : t'.parent? j <;> rw [hp, hp'] at hparent <;>
            cases hparent
          · exact .nil
          · next p p' hpp =>
              have hnext : (i :: seen).Nodup :=
                List.nodup_cons.2 ⟨by simpa using hnew, hnodup⟩
              have hnext' : (j :: seen').Nodup :=
                List.nodup_cons.2 ⟨by rwa [← hcontains, List.contains_iff_mem] at hnew, hnodup'⟩
              obtain ⟨hle, hle'⟩ := h.length_lt (.cons hij hseen) hnext hnext'
              simp only [List.length_cons] at hle hle'
              exact ih (.cons hij hseen) hnext hnext' (by simp; omega) (by simp; omega) hpp hle hle'

/-- The chains of ancestors of paired classes are paired. -/
theorem Paired.ancestors (h : Paired hidden r t t') (hunique : Relator.BiUnique r)
    (hshown : ∀ i, ¬ hidden i) (hij : r i j) : Forall₂ r (t.ancestors i) (t'.ancestors j) :=
  h.ancestorsUpTo hunique hshown .nil List.nodup_nil List.nodup_nil (by simp) (by simp) hij

/-- Members of one name in paired classes are paired. -/
theorem Paired.ownMember? (h : Paired hidden r t t') (hshown : ∀ i, ¬ hidden i) (hij : r i j)
    (name : String) : Option.Rel r (t.ownMember? i name) (t'.ownMember? j name) := by
  refine (h.class? hij (hshown i)).bind fun e e' he => ?_
  refine (List.rel_append he.fields he.functions).find? fun m m' hm => ?_
  rw [h.name hm]

/-- **A member is looked up alike in both tables.** -/
theorem Paired.member? (h : Paired hidden r t t') (hunique : Relator.BiUnique r)
    (hshown : ∀ i, ¬ hidden i) (hij : r i j) (name : String) :
    Option.Rel r (t.member? i name) (t'.member? j name) :=
  (h.ancestors hunique hshown hij).findSome? fun _ _ hxy => h.ownMember? hshown hxy name

end

end SymbolTable

end ClassLang
