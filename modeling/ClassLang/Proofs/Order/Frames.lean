import ClassLang.Proofs.Order.Pairing
import ClassLang.Proofs.Order.Renaming

/-!
# Two lowerings in step

The same function is lowered in two units.  The code is the same up to the names of the globals of
string literals, and symbols that are paired are at the same places (`Frame.Paired`).
`Lowering.InStep` says that one program follows another: where the first one succeeds, the second
one does (`Except.Follows`), and frames that agree lead to frames that agree.
-/

open List (Forall₂)

/-! ## Results that follow each other -/

/-- Where one result is there, the other one is, related by `Q`. -/
def Except.Follows {ε α β : Type} (Q : α → β → Prop) (x : Except ε α) (y : Except ε β) : Prop :=
  ∀ a, x = .ok a → ∃ b, y = .ok b ∧ Q a b

section

variable {ε α β γ δ : Type} {Q : α → β → Prop} {R : γ → δ → Prop} {x : Except ε α} {y : Except ε β}

/-- Answers that are related follow each other. -/
theorem Except.follows_ok {a : α} {b : β} (h : Q a b) :
    Except.Follows Q (.ok a : Except ε α) (.ok b) := by
  intro a' ha
  cases ha
  exact ⟨b, rfl, h⟩

/-- Anything follows an error. -/
theorem Except.follows_error (error : ε) : Except.Follows Q (.error error) y := by
  intro a ha
  cases ha

/-- What follows is composed step by step. -/
theorem Except.Follows.bind {f : α → Except ε γ} {g : β → Except ε δ} (h : Except.Follows Q x y)
    (hnext : ∀ a b, Q a b → Except.Follows R (f a) (g b)) :
    Except.Follows R (x >>= f) (y >>= g) := by
  cases x with
  | error _ => exact Except.follows_error _
  | ok a =>
      obtain ⟨b, rfl, hab⟩ := h a rfl
      exact hnext a b hab

/-- A list is mapped alike where its entries are. -/
theorem Except.Follows.mapM {S : γ → δ → Prop} {f : γ → Except ε α} {g : δ → Except ε β}
    {l : List γ} {l' : List δ} (hl : Forall₂ S l l')
    (h : ∀ a b, S a b → Except.Follows Q (f a) (g b)) :
    Except.Follows (Forall₂ Q) (l.mapM f) (l'.mapM g) := by
  induction hl with
  | nil => exact Except.follows_ok .nil
  | cons hab _ ih =>
      rw [List.mapM_cons, List.mapM_cons]
      exact (h _ _ hab).bind fun c d hcd =>
        ih.bind fun cs ds hcds => Except.follows_ok (.cons hcd hcds)

end

/-! ## Frames -/

namespace ClassLang

/-- Two frames that agree up to a renaming of globals. -/
structure Frame.Paired (σ : String → String) (r : SymbolId → SymbolId → Prop) (f f' : Frame) :
    Prop where
  top : f'.blocks.top = f.blocks.top.map (Instruction.rename σ)
  below : f'.blocks.below = f.blocks.below.map (List.map (Instruction.rename σ))
  locations : ∀ i j, r i j →
    f'.addresses.locations j = (f.addresses.locations i).map (Operand.rename σ)
  counters : f'.counters = f.counters
  label : f'.label = f.label

namespace AddressBook

/-- The places of a book are the locations of its symbols. -/
theorem mem_places_iff {book : AddressBook} {i : SymbolId} {place : Operand} :
    (i, place) ∈ book.places ↔ place ∈ book.locations i := by
  simp [locations]

/-- The places of a symbol for which a place is recorded. -/
theorem locations_record (book : AddressBook) (i : SymbolId) (place : Operand) :
    (book.record i place).locations i =
      if place ∈ book.locations i then book.locations i else book.locations i ++ [place] := by
  have hcontains : book.places.contains (i, place) = true ↔ place ∈ book.locations i := by
    rw [List.contains_iff_mem, mem_places_iff]
  unfold record
  by_cases hmem : place ∈ book.locations i
  · rw [if_pos (hcontains.2 hmem), if_pos hmem]
  · rw [if_neg (mt hcontains.1 hmem), if_neg hmem]
    simp [locations]

end AddressBook

namespace Frame.Paired

variable {σ : String → String} {r : SymbolId → SymbolId → Prop} {f f' : Frame} {i j : SymbolId}

/-- A place is recorded for symbols that are paired, or for symbols that are not paired with
anything. -/
theorem record (h : f.Paired σ r f') (hσ : Function.Injective σ)
    (hij : ∀ a b, r a b → (i = a ↔ j = b)) (place : Operand) :
    Paired σ r { f with addresses := f.addresses.record i place }
      { f' with addresses := f'.addresses.record j (place.rename σ) } :=
  { h with
    locations := by
      intro a b hab
      have hplaces := h.locations a b hab
      by_cases ha : i = a
      · obtain rfl := (hij a b hab).1 ha
        subst ha
        have hmem : place.rename σ ∈ (f.addresses.locations i).map (Operand.rename σ) ↔
            place ∈ f.addresses.locations i :=
          List.mem_map_of_injective (Operand.rename_injective hσ)
        simp only [AddressBook.locations_record, hplaces, hmem]
        split
        · rfl
        · rw [List.map_append, List.map_singleton]
      · have hb : j ≠ b := mt (hij a b hab).2 ha
        rw [AddressBook.locations_record_of_ne _ _ ha, AddressBook.locations_record_of_ne _ _ hb]
        exact hplaces }

/-- Renamed instructions are spliced alike. -/
theorem splice (h : f.Paired σ r f') (code : List Instruction) :
    Paired σ r { f with blocks := f.blocks.splice code }
      { f' with blocks := f'.blocks.splice (code.map (Instruction.rename σ)) } :=
  { h with
    top := by simp only [BlockStack.splice, h.top, List.map_append]
    below := h.below }

/-- The last instructions of two frames differ by the renaming. -/
theorem last? (h : f.Paired σ r f') :
    f'.blocks.last? = f.blocks.last?.map (Instruction.rename σ) := by
  rw [BlockStack.last?, BlockStack.last?, h.top, List.getLast?_map]

/-- The list being filled is closed. -/
theorem pop (h : f.Paired σ r f') : Except.Follows (fun p q =>
    q.1 = p.1.map (Instruction.rename σ) ∧ q.2.top = p.2.top.map (Instruction.rename σ) ∧
      q.2.below = p.2.below.map (List.map (Instruction.rename σ))) f.blocks.pop f'.blocks.pop := by
  unfold BlockStack.pop
  rw [h.below]
  cases f.blocks.below with
  | nil => exact Except.follows_error _
  | cons list rest => exact Except.follows_ok ⟨h.top, rfl, rfl⟩

/-- Two frames are finished alike, with bodies that differ by the renaming. -/
theorem finish (h : f.Paired σ r f') : Except.Follows (fun code code' =>
    code' = code.map (Instruction.rename σ)) f.blocks.finish f'.blocks.finish := by
  unfold BlockStack.finish
  rw [h.below]
  cases f.blocks.below with
  | nil => exact Except.follows_ok h.top
  | cons list rest => exact Except.follows_error _

end Frame.Paired

namespace Lowering

variable {α β γ δ : Type} {σ : String → String} {r : SymbolId → SymbolId → Prop}

/-- A program follows another one, with results related by `Q`. -/
def InStep (σ : String → String) (r : SymbolId → SymbolId → Prop) (x : Lowering α)
    (y : Lowering β) (Q : α → β → Prop) : Prop :=
  ∀ f f', f.Paired σ r f' →
    Except.Follows (fun p q => Q p.1 q.1 ∧ p.2.Paired σ r q.2) (x.run f) (y.run f')

variable {x : Lowering α} {y : Lowering β} {Q : α → β → Prop}

/-- Two programs in step are composed step by step. -/
theorem InStep.bind {R : γ → δ → Prop} {k : α → Lowering γ} {k' : β → Lowering δ}
    (h : InStep σ r x y Q) (hnext : ∀ a b, Q a b → InStep σ r (k a) (k' b) R) :
    InStep σ r (x >>= k) (y >>= k') R := by
  intro f f' hf
  rw [StateT.run_bind, StateT.run_bind]
  exact (h f f' hf).bind fun p q hpq => hnext p.1 q.1 hpq.1 p.2 q.2 hpq.2

/-- Values alone are in step. -/
theorem inStep_pure {a : α} {b : β} (h : Q a b) : InStep σ r (pure a) (pure b) Q :=
  fun _ _ hf => Except.follows_ok ⟨h, hf⟩

/-- Nothing has to follow a program that fails. -/
theorem inStep_throw (error : InternalError) : InStep σ r (throw error : Lowering α) y Q :=
  fun _ _ _ => Except.follows_error error

/-- A broken invariant is followed by anything. -/
theorem inStep_broken (rule : Invariant) : InStep σ r (broken rule : Lowering α) y Q :=
  inStep_throw _

/-- Results that are mapped are in step. -/
theorem InStep.map {R : γ → δ → Prop} {k : α → γ} {k' : β → δ} (h : InStep σ r x y Q)
    (hk : ∀ a b, Q a b → R (k a) (k' b)) : InStep σ r (k <$> x) (k' <$> y) R := by
  rw [map_eq_pure_bind, map_eq_pure_bind]
  exact h.bind fun a b hab => inStep_pure (hk a b hab)

/-- What is known without looking at the frame. -/
theorem inStep_lift {x : Except InternalError α} {y : Except InternalError β}
    (h : Except.Follows Q x y) : InStep σ r (liftM x : Lowering α) (liftM y : Lowering β) Q :=
  fun _ _ hf => h.bind fun _ _ hab => Except.follows_ok ⟨hab, hf⟩

/-- Programs that first look at the frames. -/
theorem inStep_read {k : Frame → Lowering α} {k' : Frame → Lowering β}
    (h : ∀ f f', f.Paired σ r f' → InStep σ r (k f) (k' f') Q) :
    InStep σ r (get >>= k) (get >>= k') Q :=
  fun f f' hf => h f f' hf f f' hf

/-- Frames may be changed alike. -/
theorem inStep_modify {k k' : Frame → Frame}
    (h : ∀ f f', f.Paired σ r f' → (k f).Paired σ r (k' f')) :
    InStep σ r (modify k : Lowering Unit) (modify k') fun _ _ => True :=
  fun f f' hf => Except.follows_ok ⟨trivial, h f f' hf⟩

/-- Fresh temporaries are in step. -/
theorem inStep_temp (ty : StorageType) :
    InStep σ r (temp ty) (temp ty) fun a b => b = a.rename σ := by
  intro f f' hf
  refine Except.follows_ok ⟨?_, { hf with counters := ?_ }⟩
  · exact congrArg (fun counters : Counters => (counters.temp ty).1) hf.counters
  · exact congrArg (fun counters : Counters => (counters.temp ty).2) hf.counters

/-- Fresh labels are in step, and are the same. -/
theorem inStep_freshLabel : InStep σ r freshLabel freshLabel fun a b => b = a := by
  intro f f' hf
  refine Except.follows_ok ⟨?_, { hf with counters := ?_ }⟩
  · exact congrArg (fun counters : Counters => counters.label.1) hf.counters
  · exact congrArg (fun counters : Counters => counters.label.2) hf.counters

/-- Instructions that differ by the renaming are emitted in step. -/
theorem inStep_emit {i i' : Instruction} (h : i' = i.rename σ) :
    InStep σ r (emit i) (emit i') fun _ _ => True := by
  subst h
  refine inStep_modify fun f f' hf => ?_
  have hspliced := hf.splice [i]
  exact { hspliced with label := by simp only [Instruction.label?_rename, hf.label] }

/-- Two frames both end in a terminator or neither does. -/
theorem inStep_terminated : InStep σ r terminated terminated fun a b => b = a := by
  refine inStep_read fun f f' hf => inStep_pure ?_
  rw [hf.last?]
  cases f.blocks.last? <;> simp

/-- Code that differs by the renaming is spliced in step. -/
theorem inStep_splice {code code' : List Instruction}
    (h : code' = code.map (Instruction.rename σ)) :
    InStep σ r (splice code) (splice code') fun _ _ => True := by
  subst h
  exact inStep_modify fun f f' hf => hf.splice code

/-- Symbols that are paired are given places in step. -/
theorem inStep_record {i j : SymbolId} {place place' : Operand} (hσ : Function.Injective σ)
    (hij : ∀ a b, r a b → (i = a ↔ j = b)) (hplace : place' = place.rename σ) :
    InStep σ r (record i place) (record j place') fun _ _ => True := by
  subst hplace
  exact inStep_modify fun f f' hf => hf.record hσ hij place

/-- Lists that are filled in step are the same lists. -/
theorem InStep.collect (h : InStep σ r x y Q) :
    InStep σ r (Lowering.collect x) (Lowering.collect y) fun p q =>
      Q p.1 q.1 ∧ q.2 = p.2.map (Instruction.rename σ) := by
  refine (inStep_modify fun f f' hf => ?_).bind fun _ _ _ => h.bind fun a b hab => ?_
  · exact { hf with top := rfl, below := by simp [BlockStack.push, hf.top, hf.below] }
  · refine inStep_read fun f f' hf => (inStep_lift (hf.pop)).bind fun p q hpq => ?_
    refine (inStep_modify fun f f' hf => ?_).bind fun _ _ _ => inStep_pure ⟨hab, hpq.1⟩
    exact { hf with top := hpq.2.1, below := hpq.2.2 }

/-! ### Variables -/

/-- Loads from addresses that differ by the renaming are in step. -/
theorem inStep_load {address address' : Operand} (h : address' = address.rename σ) :
    InStep σ r (load address) (load address') fun a b => b = a.rename σ := by
  subst h
  unfold load
  rw [Operand.ty_rename]
  split
  · exact inStep_broken _
  · refine (inStep_temp _).bind fun a b hab => ?_
    subst hab
    exact (inStep_emit rfl).bind fun _ _ _ => inStep_pure rfl

/-- Allocations for symbols that are paired are in step. -/
theorem inStep_allocate {i j : SymbolId} (hσ : Function.Injective σ)
    (hij : ∀ a b, r a b → (i = a ↔ j = b)) (ty : StorageType) :
    InStep σ r (allocate i ty) (allocate j ty) fun a b => b = a.rename σ := by
  refine (inStep_temp _).bind fun a b hab => ?_
  subst hab
  exact (inStep_emit rfl).bind fun _ _ _ => (inStep_record hσ hij rfl).bind fun _ _ _ =>
    inStep_pure rfl

/-- The address of symbols that are paired. -/
theorem inStep_current {i j : SymbolId} (hij : r i j) (table table' : SymbolTable) :
    InStep σ r (do (← get).addresses.current i table) (do (← get).addresses.current j table')
      fun a b => b = a.rename σ := by
  refine inStep_read fun f f' hf => inStep_lift ?_
  have hfind : ((f'.addresses.locations j).find? fun place => place.ty.pointee?.isSome) =
      ((f.addresses.locations i).find? fun place => place.ty.pointee?.isSome).map
        (Operand.rename σ) := by
    rw [hf.locations i j hij, List.find?_map]
    simp
  unfold AddressBook.current
  rw [hfind]
  cases (f.addresses.locations i).find? fun place => place.ty.pointee?.isSome with
  | none => exact Except.follows_error _
  | some place => exact Except.follows_ok rfl

end Lowering

end ClassLang
