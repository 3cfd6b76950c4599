import ClassLang.Proofs.Lower.Names
import ClassLang.Proofs.Lower.Receivers
import ClassLang.Proofs.Lower.SingleAssignment
import ClassLang.Proofs.Resolve.Finished

/-!
# Casts

A cast makes the receiver of one call an object of the class that declares the callee.  Its result
is handed on to this call as its receiver, and nothing else reads it (`HandedOn`): code reads the
addresses of variables, and apart from them only values that belong to the same expression
(`Tidy`).  A cast is safe because the class that it leads to is an ancestor, whose record has the
fields that the record of the descendant begins with (`compile_upcasts`).
-/

namespace ClassLang

/-! ## Handing on -/

/-- An instruction calls a function that a class declares, with a value as its receiver. -/
def SymbolTable.CallsWith (table : SymbolTable) (owner : SymbolId) (receiver : Operand)
    (i : Instruction) : Prop :=
  ∃ function entry signature names result args declaring,
    table.function? function = some entry ∧ entry.owner = some owner ∧
    table.class? owner = some declaring ∧ function ∈ declaring.functions ∧
    table.signature function = .ok (signature, names) ∧
    i = .call result entry.linkName signature (receiver :: args) ∧ receiver ∉ args

/-- No instruction of some code reads a value. -/
def Unread (a : Operand) (code : List Instruction) : Prop := ∀ i ∈ code, a ∉ i.operands

@[simp] theorem unread_nil (a : Operand) : Unread a [] := by
  simp [Unread]

@[simp] theorem unread_append {a : Operand} {code code' : List Instruction} :
    Unread a (code ++ code') ↔ Unread a code ∧ Unread a code' := by
  simp [Unread, or_imp, forall_and]

@[simp] theorem unread_cons {a : Operand} {i : Instruction} {code : List Instruction} :
    Unread a (i :: code) ↔ a ∉ i.operands ∧ Unread a code := by
  simp [Unread]

/-- In some code, a value of class `actual` is cast to the class `owner`, and the result is handed
on to a call of a function that `owner` declares.  Nothing else reads the result. -/
structure HandedOn (table : SymbolTable) (code : List Instruction) (dest value : Operand)
    (actual owner : SymbolId) : Prop where
  inherits : table.Inherits actual owner
  other : actual ≠ owner
  value_ty : value.ty = table.receiverType actual
  dest_ty : dest.ty = table.receiverType owner
  called : ∃ before between call after,
    code = before ++ .cast dest value :: (between ++ call :: after) ∧
    table.CallsWith owner dest call ∧ Unread dest before ∧ Unread dest between ∧
    Unread dest after ∧ dest ≠ value

/-- Every cast in some code is handed on. -/
def HandsOn (table : SymbolTable) (code : List Instruction) : Prop :=
  ∀ dest value, .cast dest value ∈ code →
    ∃ actual owner, HandedOn table code dest value actual owner

namespace HandedOn

variable {table : SymbolTable} {code front back : List Instruction} {dest value : Operand}
  {actual owner : SymbolId}

/-- Code around it may be added that does not read the result. -/
theorem around (h : HandedOn table code dest value actual owner) (hfront : Unread dest front)
    (hback : Unread dest back) :
    HandedOn table (front ++ code ++ back) dest value actual owner := by
  obtain ⟨before, between, call, after, heq, hcalls, hbefore, hbetween, hafter, hne⟩ := h.called
  refine ⟨h.inherits, h.other, h.value_ty, h.dest_ty, front ++ before, between, call, after ++ back,
    by simp [heq], hcalls, ?_, hbetween, ?_, hne⟩
  · exact unread_append.2 ⟨hfront, hbefore⟩
  · exact unread_append.2 ⟨hafter, hback⟩

/-- A cast stays handed on behind code that does not read it. -/
theorem append_left (h : HandedOn table code dest value actual owner) (hfront : Unread dest front) :
    HandedOn table (front ++ code) dest value actual owner := by
  simpa using h.around hfront (unread_nil dest)

/-- A cast stays handed on in front of code that does not read it. -/
theorem append_right (h : HandedOn table code dest value actual owner) (hback : Unread dest back) :
    HandedOn table (code ++ back) dest value actual owner := by
  simpa using h.around (unread_nil dest) hback

end HandedOn

/-! ## Tidy code -/

/-- An operand is no value at all, one of some known values, or a value with a number in a range. -/
def Operand.Within (known : List Operand) (low high : Nat) : Operand → Prop
  | .temp n t => .temp n t ∈ known ∨ low ≤ n ∧ n < high
  | _ => True

/-- An instruction reads some operands, and otherwise nothing that is defined by instructions. -/
def Instruction.ReadsFrom (left : List Operand) (i : Instruction) : Prop :=
  ∀ a ∈ i.operands, a ∈ left ∨ a.tempId? = none

attribute [local simp] Instruction.ReadsFrom Instruction.operands Instruction.reads
  Instruction.incoming

/-- Known values have smaller numbers. -/
def Earlier (n : Nat) (known : List Operand) : Prop := ∀ m t, .temp m t ∈ known → m < n

/-- Code that defines values with numbers in a range, and leaves some operands for what comes
behind it.  It reads known values and its own only; its casts are handed on inside of it, so none
of them is left. -/
structure Tidy (table : SymbolTable) (known : List Operand) (low high : Nat)
    (code : List Instruction) (left : List Operand) : Prop where
  le : low ≤ high
  reads : ∀ i ∈ code, ∀ a ∈ i.operands, a.Within known low high
  within : ∀ a ∈ left, a.Within known low high
  casts : ∀ dest value, .cast dest value ∈ code → ∃ n t, dest = .temp n t ∧ low ≤ n ∧ n < high ∧
    dest ∉ left ∧ ∃ actual owner, HandedOn table code dest value actual owner

/-- Some more values are known behind code that defines them: not the results of casts. -/
structure Reveals (known known' : List Operand) (low high : Nat) (code : List Instruction) :
    Prop where
  new : ∀ n t, .temp n t ∈ known' → .temp n t ∈ known ∨ low ≤ n ∧ n < high
  casts : ∀ dest value, .cast dest value ∈ code → dest ∉ known'

section

variable {table : SymbolTable} {known known' left left' : List Operand} {low mid high : Nat}
  {code code' : List Instruction}

/-- An operand stays within a wider range, and within known values that were kept. -/
theorem Operand.Within.mono {a : Operand} (h : a.Within known mid high) {low' high' : Nat}
    (hknown : ∀ m t, .temp m t ∈ known → .temp m t ∈ known' ∨ low' ≤ m ∧ m < high')
    (hlow : low' ≤ mid) (hhigh : high ≤ high') : a.Within known' low' high' := by
  cases a with
  | temp n t =>
      rcases h with h | h
      · exact hknown n t h
      · exact .inr ⟨by omega, by omega⟩
  | _ => trivial

/-- An operand that is no temporary is within anything. -/
theorem Operand.Within.of_tempId? {a : Operand} (h : a.tempId? = none) :
    a.Within known low high := by
  cases a with
  | temp n t => cases h
  | _ => trivial

/-- What is out of the range and not known is not met. -/
theorem Operand.Within.ne {a : Operand} (h : a.Within known low high) {n : Nat} {t : StorageType}
    (hknown : .temp n t ∉ known) (hrange : n < low ∨ high ≤ n) : .temp n t ≠ a := by
  rintro rfl
  rcases h with h | h
  · exact hknown h
  · omega

/-- Values known earlier are known earlier than what comes later. -/
theorem Earlier.mono (h : Earlier low known) (hle : low ≤ high) : Earlier high known :=
  fun m t hm => Nat.lt_of_lt_of_le (h m t hm) hle

/-- What code reveals is known earlier than what comes behind it. -/
theorem Reveals.earlier (h : Reveals known known' low high code) (hle : low ≤ high)
    (hknown : Earlier low known) : Earlier high known' := by
  intro n t hmem
  rcases h.new n t hmem with hmem | hmem
  · exact hknown.mono hle n t hmem
  · exact hmem.2

namespace Tidy

/-- No code is tidy. -/
theorem nil (known : List Operand) (n : Nat) : Tidy table known n n [] [] :=
  ⟨Nat.le_refl n, by simp, by simp, by simp⟩

/-- Operands that are left without any code. -/
theorem of_left {left : List Operand} (n : Nat) (h : ∀ a ∈ left, a.Within known n n) :
    Tidy table known n n [] left :=
  ⟨Nat.le_refl n, by simp, h, by simp⟩

/-- Values that are out of the range of some code are not read in it. -/
theorem unread (h : Tidy table known low high code left) {n : Nat} {t : StorageType}
    (hknown : .temp n t ∉ known) (hrange : n < low ∨ high ≤ n) : Unread (.temp n t) code :=
  fun i hi hread => (h.reads i hi _ hread).ne hknown hrange rfl

/-- A value that is neither known nor of the range is not left over. -/
theorem not_mem_left (h : Tidy table known low high code left) {n : Nat} {t : StorageType}
    (hknown : .temp n t ∉ known) (hrange : n < low ∨ high ≤ n) : .temp n t ∉ left :=
  fun hmem => (h.within _ hmem).ne hknown hrange rfl

/-- **Tidy code one behind the other.**  In between values may have become known. -/
theorem append (hknown : Earlier low known) (h : Tidy table known low mid code left)
    (h' : Tidy table known' mid high code' left') (hreveals : Reveals known known' low mid code) :
    Tidy table known low high (code ++ code') (left ++ left') := by
  have hle := h.le
  have hle' := h'.le
  have hwiden : ∀ a : Operand, a.Within known low mid → a.Within known low high := fun a ha =>
    ha.mono (fun _ _ => .inl) (Nat.le_refl _) hle'
  have hwiden' : ∀ a : Operand, a.Within known' mid high → a.Within known low high := by
    refine fun a ha => ha.mono (fun n t hn => ?_) hle (Nat.le_refl _)
    exact (hreveals.new n t hn).imp_right fun hn => ⟨hn.1, by omega⟩
  refine ⟨by omega, fun i hi a ha => ?_, fun a ha => ?_, fun dest value hcast => ?_⟩
  · rcases List.mem_append.1 hi with hi | hi
    · exact hwiden a (h.reads i hi a ha)
    · exact hwiden' a (h'.reads i hi a ha)
  · exact (List.mem_append.1 ha).elim (fun ha => hwiden a (h.within a ha))
      fun ha => hwiden' a (h'.within a ha)
  · rcases List.mem_append.1 hcast with hcast | hcast
    · obtain ⟨n, t, rfl, hlow, hmid, hleft, actual, owner, hhanded⟩ := h.casts dest value hcast
      have hfree := hreveals.casts _ value hcast
      exact ⟨n, t, rfl, hlow, by omega, by simp [hleft, h'.not_mem_left hfree (.inl hmid)],
        actual, owner, hhanded.append_right (h'.unread hfree (.inl hmid))⟩
    · obtain ⟨n, t, rfl, hlow, hmid, hleft, actual, owner, hhanded⟩ := h'.casts dest value hcast
      -- Known values have smaller numbers than everything in the second part.
      have hfree : .temp n t ∉ known := fun hmem => by
        have := hknown n t hmem
        omega
      exact ⟨n, t, rfl, by omega, hmid, by simp [hleft, h.not_mem_left hfree (.inr hlow)],
        actual, owner, hhanded.append_left (h.unread hfree (.inr hlow))⟩

/-- Nothing has to become known. -/
theorem reveals (hknown : Earlier low known) (h : Tidy table known low mid code left) :
    Reveals known known low mid code := by
  refine ⟨fun _ _ => .inl, fun dest value hcast hmem => ?_⟩
  obtain ⟨n, t, rfl, hlow, -⟩ := h.casts dest value hcast
  have := hknown n t hmem
  omega

/-- What becomes known in two parts. -/
theorem reveals_append {known'' : List Operand} (h : Tidy table known low mid code left)
    (hreveals : Reveals known known' low mid code)
    (hreveals' : Reveals known' known'' mid high code') (hle : mid ≤ high) :
    Reveals known known'' low high (code ++ code') := by
  have hlow := h.le
  refine ⟨fun n t hmem => ?_, fun dest value hcast hmem => ?_⟩
  · rcases hreveals'.new n t hmem with hmem | hmem
    · exact (hreveals.new n t hmem).imp_right fun hn => ⟨hn.1, by omega⟩
    · exact .inr ⟨by omega, hmem.2⟩
  · rcases List.mem_append.1 hcast with hcast | hcast
    · obtain ⟨n, t, rfl, -, hn, -⟩ := h.casts dest value hcast
      rcases hreveals'.new n t hmem with hmem | hmem
      · exact hreveals.casts _ value hcast hmem
      · omega
    · exact hreveals'.casts dest value hcast hmem

/-- Tidy code one behind the other, where nothing becomes known. -/
theorem seq (hknown : Earlier low known) (h : Tidy table known low mid code left)
    (h' : Tidy table known mid high code' left') :
    Tidy table known low high (code ++ code') (left ++ left') :=
  h.append hknown h' (h.reveals hknown)

/-- Behind an instruction that is no cast there are the same casts. -/
theorem mem_of_mem_append_singleton {i : Instruction} {dest value : Operand}
    (hcast : i.upcast? = none) (hmem : .cast dest value ∈ code ++ [i]) :
    .cast dest value ∈ code := by
  rcases List.mem_append.1 hmem with hmem | hmem
  · exact hmem
  · rw [← List.mem_singleton.1 hmem] at hcast
    cases hcast

/-- An instruction that reads operands that were left, and leaves some of them or new ones. -/
theorem read (h : Tidy table known low mid code left) {i : Instruction}
    (hcast : i.upcast? = none) (hreads : i.ReadsFrom left) (hle : mid ≤ high)
    (hleft : ∀ a ∈ left', a ∈ left ∨ ∃ n t, a = .temp n t ∧ mid ≤ n ∧ n < high) :
    Tidy table known low high (code ++ [i]) left' := by
  have hlow := h.le
  have hwiden : ∀ a : Operand, a.Within known low mid → a.Within known low high := fun a ha =>
    ha.mono (fun _ _ => .inl) (Nat.le_refl _) hle
  refine ⟨by omega, fun j hj a ha => ?_, fun a ha => ?_, fun dest value hmem => ?_⟩
  · rcases List.mem_append.1 hj with hj | hj
    · exact hwiden a (h.reads j hj a ha)
    · rw [List.mem_singleton.1 hj] at ha
      rcases hreads a ha with ha | ha
      · exact hwiden a (h.within a ha)
      · exact .of_tempId? ha
  · rcases hleft a ha with ha | ⟨n, t, rfl, hmid, hhigh⟩
    · exact hwiden a (h.within a ha)
    · exact .inr ⟨by omega, hhigh⟩
  · have hmem' : .cast dest value ∈ code := mem_of_mem_append_singleton hcast hmem
    obtain ⟨n, t, rfl, hmin, hmax, hnot, actual, owner, hhanded⟩ := h.casts dest value hmem'
    have hunread : .temp n t ∉ i.operands := fun hread =>
      (hreads _ hread).elim hnot fun hnone => by cases hnone
    refine ⟨n, t, rfl, hmin, by omega, fun hmem => ?_, actual, owner,
      hhanded.append_right (by simpa using hunread)⟩
    rcases hleft _ hmem with hmem | ⟨m, t', heq, hm, -⟩
    · exact hnot hmem
    · cases heq
      omega

/-- Fewer operands may be left. -/
theorem sub (h : Tidy table known low high code left) (hsub : left' ⊆ left) :
    Tidy table known low high code left' :=
  ⟨h.le, h.reads, fun a ha => h.within a (hsub ha), fun dest value hcast => by
    obtain ⟨n, t, rfl, hlow, hhigh, hnot, hhanded⟩ := h.casts dest value hcast
    exact ⟨n, t, rfl, hlow, hhigh, fun hmem => hnot (hsub hmem), hhanded⟩⟩

/-- An instruction that defines the next value. -/
theorem define (h : Tidy table known low mid code left) {i : Instruction} (t : StorageType)
    (hcast : i.upcast? = none) (hreads : i.ReadsFrom left) :
    Tidy table known low (mid + 1) (code ++ [i]) [.temp mid t] :=
  h.read hcast hreads (Nat.le_succ mid) fun _ ha =>
    .inr ⟨mid, t, List.mem_singleton.1 ha, Nat.le_refl mid, Nat.lt_succ_self mid⟩

/-- An instruction that defines nothing. -/
theorem silent (h : Tidy table known low mid code left) {i : Instruction}
    (hcast : i.upcast? = none) (hreads : i.ReadsFrom left) :
    Tidy table known low mid (code ++ [i]) left :=
  h.read hcast hreads (Nat.le_refl mid) fun _ ha => .inl ha

/-- **A cast, the code of arguments, and the call that the cast is made for.**  This code reads the
receiver as a value that is known. -/
theorem castAndCall {actual owner : SymbolId} {value : Operand} {call : Instruction}
    {values : List Operand} {last : Nat} (hknown : Earlier mid known)
    (h : Tidy table known (mid + 1) high code values) (hother : actual ≠ owner)
    (hinherits : table.Inherits actual owner) (hvalue : value.ty = table.receiverType actual)
    (hcalls : table.CallsWith owner (.temp mid (table.receiverType owner)) call)
    (hreads : call.operands = .temp mid (table.receiverType owner) :: values)
    (hcast : call.upcast? = none) (hvalue_ne : ∀ n t, mid ≤ n → .temp n t ≠ value)
    (hlast : high ≤ last) (hleft : ∀ a ∈ left, ∃ n t, a = .temp n t ∧ high ≤ n ∧ n < last) :
    Tidy table (value :: known) mid last
      (.cast (.temp mid (table.receiverType owner)) value :: (code ++ [call])) left := by
  have hle := h.le
  have hwiden : ∀ a : Operand, a.Within known (mid + 1) high →
      a.Within (value :: known) mid last := fun a ha =>
    ha.mono (fun _ _ hn => .inl (List.mem_cons_of_mem _ hn)) (Nat.le_succ mid) hlast
  have hnot : ∀ n t, n < high → .temp n t ∉ left := fun n t hn hmem => by
    obtain ⟨n', t', heq, hn', -⟩ := hleft _ hmem
    cases heq
    omega
  refine ⟨by omega, fun i hi a ha => ?_, fun a ha => ?_, fun dest value' hmem => ?_⟩
  · rcases List.mem_cons.1 hi with rfl | hi
    · cases a with
      | temp n t =>
          refine .inl ?_
          simp at ha
          simp [ha]
      | _ => trivial
    · rcases List.mem_append.1 hi with hi | hi
      · exact hwiden a (h.reads i hi a ha)
      · rw [List.mem_singleton.1 hi, hreads] at ha
        rcases List.mem_cons.1 ha with rfl | ha
        · exact .inr ⟨Nat.le_refl mid, by omega⟩
        · exact hwiden a (h.within a ha)
  · obtain ⟨n, t, rfl, hn, hn'⟩ := hleft a ha
    exact .inr ⟨by omega, hn'⟩
  · rcases List.mem_cons.1 hmem with heq | hmem
    · -- The cast itself: nothing but the call reads its result.
      cases heq
      refine ⟨mid, _, rfl, Nat.le_refl mid, by omega, hnot mid _ (by omega), actual, owner,
        hinherits, hother, hvalue, rfl, [], code, call, [], rfl, hcalls, unread_nil _, ?_,
        unread_nil _, hvalue_ne mid _ (Nat.le_refl mid)⟩
      exact h.unread (fun hmem => Nat.lt_irrefl mid (hknown _ _ hmem)) (.inl (Nat.lt_succ_self mid))
    · -- A cast in the arguments: neither the cast in front nor the call reads its result.
      have hmem' : .cast dest value' ∈ code := mem_of_mem_append_singleton hcast hmem
      obtain ⟨n, t, rfl, hn, hn', hmiss, actual', owner', hhanded⟩ := h.casts dest value' hmem'
      have hcall : .temp n t ∉ call.operands := by
        rw [hreads, List.mem_cons, not_or]
        refine ⟨fun heq => ?_, hmiss⟩
        cases heq
        omega
      have hcastUnread : Unread (.temp n t)
          [.cast (.temp mid (table.receiverType owner)) value] := by
        simpa using hvalue_ne n t (by omega)
      exact ⟨n, t, rfl, by omega, by omega, hnot n t hn', actual', owner',
        (hhanded.append_right (by simpa using hcall)).append_left hcastUnread⟩

/-- **A receiver that is cast for a call**, and the code of the arguments behind the cast. -/
theorem handOn {actual owner : SymbolId} {value : Operand} {call : Instruction}
    {values : List Operand} {last : Nat} (hknown : Earlier low known)
    (h : Tidy table known low mid code [value]) (h' : Tidy table known (mid + 1) high code' values)
    (hinherits : table.Inherits actual owner) (hother : actual ≠ owner)
    (hvalue : value.ty = table.receiverType actual)
    (hcalls : table.CallsWith owner (.temp mid (table.receiverType owner)) call)
    (hreads : call.operands = .temp mid (table.receiverType owner) :: values)
    (hcast : call.upcast? = none) (hlast : high ≤ last)
    (hleft : ∀ a ∈ left, ∃ n t, a = .temp n t ∧ high ≤ n ∧ n < last) :
    Tidy table known low last (code ++
      .cast (.temp mid (table.receiverType owner)) value :: (code' ++ [call])) left := by
  have hmid : Earlier mid known := hknown.mono h.le
  have hvalue_ne : ∀ n t, mid ≤ n → .temp n t ≠ value := fun n t hn =>
    (h.within value (List.mem_singleton_self _)).ne
      (fun hmem => Nat.not_lt.2 hn (hmid n t hmem)) (.inr hn)
  have hpart := h'.castAndCall hmid hother hinherits hvalue hcalls hreads hcast hvalue_ne hlast
    hleft
  refine (h.append hknown hpart ⟨fun n t hmem => ?_, fun dest value' hmem => ?_⟩).sub
    (List.subset_append_right _ _)
  · rcases List.mem_cons.1 hmem with heq | hmem
    · have hwithin := h.within value (List.mem_singleton_self _)
      rwa [← heq] at hwithin
    · exact .inl hmem
  · obtain ⟨n, t, rfl, hn, hn', hnot, -⟩ := h.casts dest value' hmem
    rw [List.mem_cons, not_or]
    refine ⟨by simpa using hnot, fun hmem => ?_⟩
    have := hknown n t hmem
    omega

/-- The code of `||`. -/
theorem shortCircuit {r₁ r₂ : Region} {a b : Operand} (start rest stop : Label)
    (hknown : Earlier low known) (h₁ : Tidy table known low mid r₁.code [a])
    (h₂ : Tidy table known mid high r₂.code [b]) :
    Tidy table known low (high + 1)
      (Region.shortCircuit start rest stop r₁ a r₂ b (.temp high .bool)).code
      [.temp high .bool] := by
  have hfirst := (((Tidy.nil known low).silent (i := .jump start) rfl (by simp)).silent
    (i := .label start) rfl (by simp)).seq hknown h₁
  have hsecond := ((hfirst.silent (i := .branch a stop rest) rfl (by simp)).silent
    (i := .label rest) rfl (by simp)).seq hknown h₂
  have hthird := ((hsecond.silent (i := .jump stop) rfl (by simp)).silent
    (i := .label stop) rfl (by simp)).define (i := .phi (.temp high .bool)
      [(a, r₁.exitFrom start), (b, r₂.exitFrom rest)]) .bool rfl (by simp)
  simpa [Region.code] using hthird

/-- One side of a conditional statement. -/
theorem jumpOn {r : Region} (stop : Label) (h : Tidy table known low high code left) :
    Tidy table known low high (code ++ r.jumpOn stop) left := by
  unfold Region.jumpOn
  split
  · simpa using h
  · exact h.silent rfl (by simp)

/-- The code of a conditional statement without a second side. -/
theorem ifThen {r : Region} {a : Operand} (onTrue onFalse : Label) (hknown : Earlier low known)
    (h : Tidy table known low mid code [a]) (h' : Tidy table known mid high r.code []) :
    Tidy table known low high (code ++ (Region.ifThen a onTrue onFalse r).code) [] := by
  have hside := (((h.silent (i := .branch a onTrue onFalse) rfl (by simp)).silent
    (i := .label onTrue) rfl (by simp)).seq hknown h').jumpOn (r := r) onFalse
  have hend := (hside.silent (i := .label onFalse) rfl (by simp)).sub (List.nil_subset _)
  simpa [Region.code] using hend

/-- The code of a conditional statement with two sides. -/
theorem ifElse {r₁ r₂ : Region} {a : Operand} {next : Nat} (onTrue onFalse stop : Label)
    (hknown : Earlier low known) (h : Tidy table known low mid code [a])
    (h₁ : Tidy table known mid next r₁.code []) (h₂ : Tidy table known next high r₂.code []) :
    Tidy table known low high (code ++ (Region.ifElse a onTrue onFalse stop r₁ r₂).code) [] := by
  have hfirst := (((h.silent (i := .branch a onTrue onFalse) rfl (by simp)).silent
    (i := .label onTrue) rfl (by simp)).seq hknown h₁).jumpOn (r := r₁) stop
  have hsecond := ((hfirst.silent (i := .label onFalse) rfl (by simp)).seq hknown h₂).jumpOn
    (r := r₂) stop
  have hend : Tidy table known low high _ [] := hsecond.sub (List.nil_subset _)
  by_cases hmeet : r₁.leaves && r₂.leaves
  · simpa [Region.code, Region.meeting, hmeet] using hend
  · simpa [Region.code, Region.meeting, hmeet] using
      hend.silent (i := .label stop) rfl (by simp)

end Tidy

end

/-! ## Expressions -/

/-- Code for the receiver of a call: it is tidy, or it ends with a cast whose result is left for
the call. -/
inductive ReceiverCode (table : SymbolTable) (known : List Operand) (low : Nat) :
    Option SymbolId → Nat → List Instruction → List Operand → Prop
  | tidy {high : Nat} {code : List Instruction} {left : List Operand} (owner : Option SymbolId)
      (h : Tidy table known low high code left) : ReceiverCode table known low owner high code left
  | cast {mid : Nat} {code : List Instruction} {value : Operand} {actual owner : SymbolId}
      (h : Tidy table known low mid code [value]) (hinherits : table.Inherits actual owner)
      (hother : actual ≠ owner) (hvalue : value.ty = table.receiverType actual) :
      ReceiverCode table known low (some owner) (mid + 1)
        (code ++ [.cast (.temp mid (table.receiverType owner)) value])
        [.temp mid (table.receiverType owner)]

/-- The code of a receiver and of arguments, and the call of a function that its owner declares. -/
theorem ReceiverCode.call {table : SymbolTable} {known : List Operand} {low mid high last : Nat}
    {owner : Option SymbolId} {code code' : List Instruction} {self values left : List Operand}
    {i : Instruction} (h : ReceiverCode table known low owner mid code self)
    (hknown : Earlier low known) (h' : Tidy table known mid high code' values)
    (hreads : i.operands = self ++ values) (hcast : i.upcast? = none)
    (hcalls : ∀ declaring receiver, owner = some declaring → self = [receiver] →
      receiver ∉ values → table.CallsWith declaring receiver i) (hlast : high ≤ last)
    (hleft : ∀ a ∈ left, ∃ n t, a = .temp n t ∧ high ≤ n ∧ n < last) :
    Tidy table known low last (code ++ (code' ++ [i])) left := by
  cases h with
  | tidy owner h =>
      rw [← List.append_assoc]
      refine (h.seq hknown h').read hcast (fun a ha => .inl ?_) hlast fun a ha => .inr (hleft a ha)
      rwa [← hreads]
  | @cast mid code value actual owner h hinherits hother hvalue =>
      have hle := h.le
      have hnot : .temp mid (table.receiverType owner) ∉ values := by
        refine h'.not_mem_left (fun hmem => ?_) (.inl (Nat.lt_succ_self mid))
        have := hknown _ _ hmem
        omega
      rw [List.append_assoc]
      exact h.handOn hknown h' hinherits hother hvalue (hcalls owner _ rfl rfl hnot) hreads hcast
        hlast hleft

/-- The code of a task hands its casts on, apart from the one of a receiver. -/
def Task.HandsOn (table : SymbolTable) (known : List Operand) (low high : Nat)
    (code : List Instruction) (left : List Operand) : Task → Prop
  | .receiver _ owner => ReceiverCode table known low owner high code left
  | _ => Tidy table known low high code left

section

variable {site : Site} {params : List (String × StorageType)} {own : List SymbolId}
  {ret : StorageType} {vars vars' : List SymbolId} {p p' : Point} {r : Region}
  {known : List Operand}

/-- A function of a class that can be called is listed by the class. -/
theorem SymbolTable.Ok.listed {table : SymbolTable} (hok : table.Ok) {function owner : SymbolId}
    {entry : FunctionEntry} (hentry : table.function? function = some entry)
    (howner : entry.owner = some owner) (hcallable : table.Callable function) :
    ∃ declaring, table.class? owner = some declaring ∧ function ∈ declaring.functions := by
  rcases hcallable with ⟨entry', hentry', hnone⟩ | ⟨id, declaring, hclass, hlisted⟩
  · cases hentry.symm.trans hentry'
    cases hnone.symm.trans howner
  · obtain ⟨entry', hentry', howner'⟩ := hok.class_functions hclass hlisted
    cases hentry.symm.trans hentry'
    cases howner.symm.trans howner'
    exact ⟨declaring, hclass, hlisted⟩

/-- What is known in front of an expression is known behind it. -/
theorem Lowers.keepsStocked {task : Task} {ops : List Operand}
    (hlowers : Lowers site params own vars task p ops r p')
    (h : Stocked site vars p.addresses known) : Stocked site vars p'.addresses known :=
  fun v hv => (h v hv).imp fun _ ha =>
    ⟨ha.1, AddressBook.current_congr (hlowers.locations (.inl hv)) ha.2⟩

/-- A receiver that is cast is of the class that declares the callee. -/
theorem Upcasts.receiverCode {actual owner : SymbolId} {value a : Operand} {low : Nat}
    {code : List Instruction} (h : Upcasts site actual owner value p a r p')
    (hcode : Tidy site.symbols known low p.temps code [value])
    (hinherits : site.symbols.Inherits actual owner)
    (hvalue : value.ty = site.symbols.receiverType actual) :
    ReceiverCode site.symbols known low (some owner) p'.temps (code ++ r.code) [a] := by
  cases h with
  | same => simpa [Region.code] using ReceiverCode.tidy (some owner) hcode
  | cast hother => exact .cast hcode hinherits hother hvalue

/-- **Expressions hand their casts on.** -/
theorem Lowers.handsOn {task : Task} {ops : List Operand} (hok : site.symbols.Ok)
    (h : Lowers site params own vars task p ops r p') (hknown : Earlier p.temps known)
    (hs : Stocked site vars p.addresses known) :
    task.HandsOn site.symbols known p.temps p'.temps r.code ops := by
  induction h with
  | bool => exact .of_left _ (by simp [Operand.ofBool, Operand.Within])
  | int => exact .of_left _ (by simp [Operand.Within])
  | string => exact (Tidy.nil known _).define _ rfl (by simp [Operand.tempId?])
  | argument => exact .of_left _ (by simp [Operand.Within])
  | load haddress hty ih => exact (show Tidy .. from ih hknown hs).define _ rfl (by simp)
  | or hleft _ _ _ ih₁ ih₂ =>
      have htidy₁ : Tidy .. := ih₁ hknown hs
      exact htidy₁.shortCircuit _ _ _ hknown (ih₂ (hknown.mono htidy₁.le) (hleft.keepsStocked hs))
  | @operator id op left right span p p₁ p₂ a b r₁ r₂ t instruction hleft hright hcode ih₁ ih₂ =>
      have htidy₁ : Tidy .. := ih₁ hknown hs
      have htidy₂ : Tidy .. := ih₂ (hknown.mono htidy₁.le) (hleft.keepsStocked hs)
      have hreads : (instruction (p₂.fresh t)).ReadsFrom ([a] ++ [b]) := by cases hcode <;> simp
      have htidy := (htidy₁.seq hknown htidy₂).define t hcode.upcast? hreads
      simpa [Region.code, Task.HandsOn, Point.fresh] using htidy
  | @assign id target value span p p₁ p₂ a address r₁ r₂ hvalue _ _ ih₁ ih₂ =>
      have htidy₁ : Tidy .. := ih₁ hknown hs
      have htidy₂ : Tidy .. := ih₂ (hknown.mono htidy₁.le) (hvalue.keepsStocked hs)
      have htidy := ((htidy₁.seq hknown htidy₂).silent (i := .store a address) rfl (by simp)).sub
        (List.nil_subset _)
      simpa [Region.code, Task.HandsOn] using htidy
  | @call e id callee object args function entry signature names p p₁ p₂ self values r₁ r₂ hcall
      hsymbol hentry hsignature hself hvalues htakes hcallable ih₁ ih₂ =>
      have hle : p.temps ≤ p₁.temps := hself.numbered.counts.le
      have hreceiver : ReceiverCode .. := ih₁ hknown hs
      have htidy : Tidy .. := ih₂ (hknown.mono hle) (hself.keepsStocked hs)
      refine hreceiver.call hknown htidy (by simp) rfl
        (fun declaring receiver howner hself hnot => ?_) ?_ ?_
      · obtain ⟨ancestor, hclass, hlisted⟩ := hok.listed hentry howner hcallable
        exact ⟨function, entry, signature, names, _, values, ancestor, hentry, howner, hclass,
          hlisted, hsignature, by rw [hself]; rfl, hnot⟩
      · unfold Point.afterResult
        split <;> simp
      · unfold Point.result Point.afterResult
        split <;> simp [Point.fresh]
  | stored _ _ _ _ hvar hcurrent =>
      obtain ⟨a, ha, hcurrent'⟩ := hs _ hvar
      cases hcurrent.symm.trans hcurrent'
      exact .of_left _ (by simp [Operand.Within, ha])
  | ownField => exact (Tidy.nil known _).define _ rfl (by simp [Operand.tempId?])
  | member _ _ _ _ ih => exact (show Tidy .. from ih hknown hs).define _ rfl (by simp)
  | basePointer _ _ _ ih => exact ih hknown hs
  | basePlace _ _ _ ih => exact ih hknown hs
  | free => exact .tidy none (.nil known _)
  | self howner _ hinherits hcast =>
      exact hcast.receiverCode (.of_left _ (by simp [Operand.Within])) hinherits rfl
  | object htype hvalue hty hinherits hcast ih =>
      exact hcast.receiverCode (ih hknown hs) hinherits hty
  | nil => exact .nil known _
  | cons hvalue _ ih₁ ih₂ =>
      have htidy₁ : Tidy .. := ih₁ hknown hs
      exact htidy₁.seq hknown (ih₂ (hknown.mono htidy₁.le) (hvalue.keepsStocked hs))

/-! ## Statements -/

/-- Behind the code between two points, the addresses of some variables are known, and they are no
results of casts. -/
def Site.Shows (site : Site) (known : List Operand) (low : Nat) (code : List Instruction)
    (vars : List SymbolId) (p : Point) : Prop :=
  ∃ known', Stocked site vars p.addresses known' ∧ Reveals known known' low p.temps code

/-- Nothing has to be known that was not known before. -/
theorem Tidy.shows {low high : Nat} {code : List Instruction} {left : List Operand}
    (h : Tidy site.symbols known low high code left) (hhigh : p'.temps = high)
    (hknown : Earlier low known) (hs : Stocked site vars p'.addresses known) :
    site.Shows known low code vars p' :=
  ⟨known, hs, hhigh ▸ h.reveals hknown⟩

/-- Storage for a variable. -/
theorem Tidy.allocation (p : Point) (t : StorageType) :
    Tidy site.symbols known p.temps (p.temps + 1) [p.allocation t] [] :=
  ((Tidy.nil known p.temps).define (.pointer t) (i := p.allocation t) rfl
    (by simp [Point.allocation])).sub (List.nil_subset _)

/-- An allocation reveals the address it defines. -/
theorem reveals_allocation (p : Point) (t : StorageType) :
    Reveals known (p.fresh (.pointer t) :: known) p.temps (p.temps + 1) [p.allocation t] := by
  refine ⟨fun n t' hmem => ?_, by simp [Point.allocation]⟩
  rcases List.mem_cons.1 hmem with heq | hmem
  · cases heq
    exact .inr ⟨Nat.le_refl _, Nat.lt_succ_self _⟩
  · exact .inl hmem

/-- The store of the value that a variable starts with reads the value and the address. -/
theorem Tidy.initialize (p : Point) (t : StorageType) {high : Nat} {code : List Instruction}
    {a : Operand} (hknown : Earlier (p.temps + 1) (p.fresh (.pointer t) :: known))
    (hvalue : Tidy site.symbols (p.fresh (.pointer t) :: known) (p.temps + 1) high code [a]) :
    Tidy site.symbols (p.fresh (.pointer t) :: known) (p.temps + 1) high
      (code ++ [.store a (p.fresh (.pointer t))]) [] := by
  have hleft : Tidy site.symbols (p.fresh (.pointer t) :: known) (p.temps + 1) (p.temps + 1)
      [] [p.fresh (.pointer t)] := .of_left _ (by simp [Point.fresh, Operand.Within])
  exact ((hleft.seq hknown hvalue).silent (i := .store a (p.fresh (.pointer t))) rfl
    (by simp)).sub (List.nil_subset _)

/-- **Statements hand their casts on**, and the addresses of the variables that can be seen behind
them are no results of casts. -/
theorem LowersStmt.handsOn {task : StmtTask} (hok : site.symbols.Ok)
    (h : LowersStmt site params own ret vars task p r p' vars') (hknown : Earlier p.temps known)
    (hs : Stocked site vars p.addresses known) :
    Tidy site.symbols known p.temps p'.temps r.code [] ∧
      (r.leaves = false → site.Shows known p.temps r.code vars' p') := by
  induction h generalizing known with
  | nil vars p =>
      have htidy : Tidy site.symbols known p.temps p.temps [] [] := .nil known _
      exact ⟨htidy, fun _ => htidy.shows rfl hknown hs⟩
  | cons hfirst hgoesOn hrest ih₁ ih₂ =>
      obtain ⟨htidy₁, hshows⟩ := ih₁ hknown hs
      obtain ⟨known₁, hs₁, hreveals⟩ := hshows hgoesOn
      obtain ⟨htidy₂, hshows⟩ := ih₂ (hreveals.earlier htidy₁.le hknown) hs₁
      refine ⟨htidy₁.append hknown htidy₂ hreveals, fun hleaves => ?_⟩
      obtain ⟨known₂, hs₂, hreveals'⟩ := hshows hleaves
      exact ⟨known₂, hs₂, htidy₁.reveals_append hreveals hreveals' htidy₂.le⟩
  | last rest hfirst hleaves ih =>
      exact ⟨(ih hknown hs).1, fun hgoesOn => by cases hleaves.symm.trans hgoesOn⟩
  | block id span hstmts ih =>
      have htidy := (ih hknown hs).1
      exact ⟨htidy, fun _ => htidy.shows rfl hknown (hstmts.stocked hs)⟩
  | @declare vars id symbol t ty name span p hsymbol hty hallocates =>
      exact ⟨.allocation p t, fun _ => ⟨_, hs.allocate hallocates, reveals_allocation p t⟩⟩
  | @declareWith vars id symbol t ty name value span p p₁ a r hsymbol hty hallocates hvalue hfits =>
      have hslot : Tidy site.symbols known p.temps (p.temps + 1) [p.allocation t] [] :=
        .allocation p t
      have hreveals : Reveals known (p.fresh (.pointer t) :: known) _ _ _ := reveals_allocation p t
      have hs₁ := hs.allocate hallocates
      have hknown₁ := hreveals.earlier (Nat.le_succ _) hknown
      have hvalueTidy : Tidy .. := hvalue.handsOn hok hknown₁
        fun v hv => hs₁ v (List.mem_cons_of_mem _ hv)
      have hstore := Tidy.initialize p t hknown₁ hvalueTidy
      refine ⟨hslot.append hknown hstore hreveals, fun _ => ⟨_, fun v hv => ?_,
        hslot.reveals_append hreveals (hstore.reveals hknown₁) hstore.le⟩⟩
      have hplace : v ∈ vars ∨ site.symbols.literal? v = none := by
        rcases List.mem_cons.1 hv with rfl | hv
        · exact .inr hallocates.literal?
        · exact .inl hv
      exact (hs₁ v hv).imp fun _ ha =>
        ⟨ha.1, AddressBook.current_congr (hvalue.locations hplace) ha.2⟩
  | @ifThen vars vars₁ condition positive span p p₁ p₂ a r r₁ hcondition ha hpositive ih =>
      have hcode : Tidy .. := hcondition.handsOn hok hknown hs
      have hs₁ := hcondition.keepsStocked hs
      have htidy := hcode.ifThen p₁.labels (p₁.labels + 1) hknown (ih (hknown.mono hcode.le) hs₁).1
      exact ⟨htidy, fun _ => htidy.shows rfl hknown (hpositive.stocked hs₁)⟩
  | @ifElse vars vars₁ vars₂ condition positive negative span p p₁ p₂ p₃ a r r₁ r₂ hcondition ha
      hpositive hnegative ih₁ ih₂ =>
      have hcode : Tidy .. := hcondition.handsOn hok hknown hs
      have hs₁ := hcondition.keepsStocked hs
      have htidy₁ := (ih₁ (hknown.mono hcode.le) hs₁).1
      have hs₂ := hpositive.stocked hs₁
      have htidy₂ := (ih₂ (hknown.mono (hcode.le.trans htidy₁.le)) hs₂).1
      have htidy := hcode.ifElse p₁.labels (p₁.labels + 1) (p₁.labels + 2) hknown htidy₁ htidy₂
      rw [Point.temps_meet]
      refine ⟨htidy, fun _ => htidy.shows (Point.temps_meet ..) hknown ?_⟩
      rw [Point.addresses_meet]
      exact hnegative.stocked hs₂
  | ret vars span p hvoid =>
      exact ⟨(Tidy.nil known _).silent rfl (by simp), fun hgoesOn => by cases hgoesOn⟩
  | retValue span hvalue hty hvoid =>
      have hcode : Tidy .. := hvalue.handsOn hok hknown hs
      exact ⟨(hcode.silent rfl (by simp)).sub (List.nil_subset _), fun hgoesOn => by cases hgoesOn⟩
  | expr span hvalue =>
      have hcode : Tidy .. := hvalue.handsOn hok hknown hs
      have htidy := hcode.sub (List.nil_subset _)
      exact ⟨htidy, fun _ => htidy.shows rfl hknown (hvalue.keepsStocked hs)⟩

/-- Storage for arguments is tidy. -/
theorem BindsArguments.handsOn {arguments : List SymbolId}
    (h : BindsArguments site params vars arguments p r p' vars') (hknown : Earlier p.temps known)
    (hs : Stocked site vars p.addresses known) :
    Tidy site.symbols known p.temps p'.temps r.code [] ∧
      site.Shows known p.temps r.code vars' p' := by
  induction h generalizing known with
  | nil vars p =>
      have htidy : Tidy site.symbols known p.temps p.temps [] [] := .nil known _
      exact ⟨htidy, htidy.shows rfl hknown hs⟩
  | pointer _ _ ih => exact ih hknown hs
  | @value vars vars₁ arg rest p p₁ r t hvalue hty hparam hallocates hrest ih =>
      have hslot : Tidy site.symbols known p.temps (p.temps + 1) [p.allocation t] [] :=
        .allocation p t
      have hreveals : Reveals known (p.fresh (.pointer t) :: known) _ _ _ := reveals_allocation p t
      have hknown₁ := hreveals.earlier (Nat.le_succ _) hknown
      obtain ⟨htidy, known₂, hs₂, hreveals'⟩ := ih hknown₁ (hs.allocate hallocates)
      have hleft : Tidy site.symbols (p.fresh (.pointer t) :: known) (p.temps + 1) (p.temps + 1)
          [] [p.fresh (.pointer t)] := .of_left _ (by simp [Point.fresh, Operand.Within])
      have hstore := (hleft.silent (i := .store (.named (site.symbols.name arg) t)
        (p.fresh (.pointer t))) rfl (by simp [Operand.tempId?])).sub (List.nil_subset _)
      have hcode := hstore.seq hknown₁ htidy
      exact ⟨hslot.append hknown hcode hreveals, known₂, hs₂, hslot.reveals_append hreveals
        (hstore.reveals_append (hstore.reveals hknown₁) hreveals' htidy.le) hcode.le⟩

/-- **The casts of a function are handed on.** -/
theorem LowersBody.handsOn {arguments : List SymbolId} {block : Option Block}
    (hok : site.symbols.Ok) (h : LowersBody site params ret arguments block r) :
    HandsOn site.symbols r.code := by
  have hnothing : Earlier (Point.start site.function).temps [] := fun _ _ hmem => by cases hmem
  have hs : Stocked site [] (Point.start site.function).addresses [] := fun _ hv => by cases hv
  obtain ⟨last, htidy⟩ : ∃ last, Tidy site.symbols [] 0 last r.code [] := by
    cases h with
    | implicit => exact ⟨0, (Tidy.nil [] 0).silent rfl (by simp)⟩
    | leaves harguments hstmts =>
        obtain ⟨htidy, known, hs', hreveals⟩ := harguments.handsOn hnothing hs
        exact ⟨_, htidy.append hnothing
          (hstmts.handsOn hok (hreveals.earlier htidy.le hnothing) hs').1 hreveals⟩
    | goesOn harguments hstmts =>
        obtain ⟨htidy, known, hs', hreveals⟩ := harguments.handsOn hnothing hs
        have hstmtsTidy := (hstmts.handsOn hok (hreveals.earlier htidy.le hnothing) hs').1
        exact ⟨_, htidy.append hnothing (hstmtsTidy.silent (i := .ret none) rfl (by simp)) hreveals⟩
  intro dest value hcast
  obtain ⟨_, _, -, -, -, -, hhanded⟩ := htidy.casts dest value hcast
  exact hhanded

end

/-! ## Units -/

/-- The fields of a record that begins with the slots of another one begin with its fields. -/
theorem SymbolTable.FieldsOf.isPrefix {table : SymbolTable} {slots slots' : List SymbolId}
    {fields fields' : List RecordField} (h : table.FieldsOf slots fields)
    (h' : table.FieldsOf slots' fields') (hslots : slots' <+: slots) : fields' <+: fields := by
  obtain ⟨rest, rfl⟩ := hslots
  induction h' generalizing fields with
  | nil => exact List.nil_prefix
  | @cons slot field slots' fields' hfield hrest ih =>
      cases h with
      | @cons _ field' _ fields hfield' hrest' =>
          have heq : field' = field := by
            have hty := Except.ok.inj (hfield'.2.symm.trans hfield.2)
            have hname := hfield'.1.trans hfield.1.symm
            cases field
            cases field'
            simp_all
          rw [heq]
          exact (List.prefix_cons_inj field).2 (ih hrest')

/-- The record of a class that a unit declares has the fields that the class stores. -/
theorem Generates.fieldsOf {script : Script} {ctx : Context} {unit : CodeUnit}
    (h : Generates script ctx unit) (hcomplete : Complete script ctx) {id : SymbolId}
    (hid : (ctx.symbols.class? id).isSome = true) {record : ClassRecord}
    (hmem : .classRecord record ∈ unit) (hname : record.name = ctx.symbols.name id) :
    ctx.symbols.FieldsOf (ctx.symbols.slots id) record.fields := by
  obtain ⟨fields, hdeclared, hfields⟩ := h.records hcomplete (.inl hid)
  have hmem' : (ctx.symbols.name id, record.fields) ∈ unit.filterMap Instruction.record? :=
    List.mem_filterMap.2 ⟨_, hmem, by rw [← hname]; rfl⟩
  have heq := List.inj_on_of_nodup_map (h.distinct hcomplete) hmem' hdeclared rfl
  cases heq
  exact hfields

/-- There are casts in functions only. -/
theorem Generates.cast_not_mem {script : Script} {ctx : Context} {unit : CodeUnit}
    (h : Generates script ctx unit) (dest value : Operand) : .cast dest value ∉ unit := by
  obtain ⟨parts, hparts, rfl⟩ := h
  intro hmem
  rcases hparts.cases hmem with ⟨_, heq⟩ | ⟨id, hcode | hcode | hcode | hcode⟩
  · cases heq
  · obtain ⟨_, _, _, _, heq⟩ := hcode
    cases heq
  · obtain ⟨_, _, _, _, _, _, heq⟩ := hcode
    cases heq
  · obtain ⟨_, _, _, _, heq⟩ := hcode
    cases heq
  · obtain ⟨_, _, _, _, _, heq⟩ := hcode
    cases heq

/-- A class inherits from another one, a unit declares records for both, and the record of the
first one begins with the fields of the second one. -/
structure SafeUpcast (table : SymbolTable) (unit : CodeUnit) (actual owner : SymbolId) : Prop where
  inherits : Relation.TransGen table.Extending actual owner
  declared : ∃ record inherited : ClassRecord, .classRecord record ∈ unit ∧
    record.name = table.name actual ∧ .classRecord inherited ∈ unit ∧
    inherited.name = table.name owner
  fields : ∀ record inherited : ClassRecord, .classRecord record ∈ unit →
    record.name = table.name actual → .classRecord inherited ∈ unit →
    inherited.name = table.name owner → inherited.fields <+: record.fields

/-- What a cast that is handed on leads to is safe. -/
theorem HandedOn.safe {script : Script} {ctx : Context} {unit : CodeUnit} {t table : SymbolTable}
    {body : List Instruction} {dest value : Operand} {actual owner : SymbolId}
    (hgenerates : Generates script ctx unit) (hcomplete : Complete script ctx)
    (hfinished : t.FinishedAs table ctx.symbols)
    (h : HandedOn ctx.symbols body dest value actual owner) :
    SafeUpcast ctx.symbols unit actual owner := by
  obtain ⟨-, -, -, -, -, ⟨-, -, -, -, -, -, declaring, -, -, howner, -⟩, -⟩ := h.called
  have hancestor : (ctx.symbols.class? owner).isSome = true := by simp [howner]
  have hclass := h.inherits.isClass hancestor
  have hdeclared : ∀ id, (ctx.symbols.class? id).isSome = true →
      ∃ record : ClassRecord, .classRecord record ∈ unit ∧ record.name = ctx.symbols.name id := by
    intro id hid
    obtain ⟨entry, hentry⟩ := Option.isSome_iff_exists.1 hid
    obtain ⟨i, hi, entry', fields, slots, hentry', -, -, rfl⟩ := hgenerates.classes hcomplete hentry
    exact ⟨_, hi, (SymbolTable.name_of_class? hentry').symm⟩
  obtain ⟨record, hrecord, hname⟩ := hdeclared actual hclass
  obtain ⟨inherited, hinherited, hname'⟩ := hdeclared owner hancestor
  refine ⟨?_, ⟨record, inherited, hrecord, hname, hinherited, hname'⟩,
    fun record inherited hrecord hname hinherited hname' => ?_⟩
  · exact (Relation.reflTransGen_iff_eq_or_transGen.1 h.inherits).resolve_left
      fun heq => h.other heq.symm
  · exact (hgenerates.fieldsOf hcomplete hclass hrecord hname).isPrefix
      (hgenerates.fieldsOf hcomplete hancestor hinherited hname')
      (hfinished.slots_isPrefix h.inherits hancestor)

/-- **Every cast is a safe upcast, and there is one exactly where it is needed.**

* Casts stand in functions only.  A cast in a function of an accepted source leads from a class to
  a proper ancestor.  Its result is the receiver of one call, of a function that the ancestor
  declares, and is read by nothing else; and the record of the ancestor has the fields that the
  record of the class begins with, with names and types.
* The casts of a function are, in order, those of the receivers in its body whose class is not the
  one that declares the callee. -/
theorem compile_upcasts {source : String} {compiled : Compiled}
    (h : compile source = .ok compiled) :
    (∀ dest value, .cast dest value ∉ compiled.unit) ∧
    (∀ name signature names body, .function name signature names body ∈ compiled.unit →
      ∀ dest value, .cast dest value ∈ body → ∃ actual owner,
        HandedOn compiled.context.symbols body dest value actual owner ∧
        SafeUpcast compiled.context.symbols compiled.unit actual owner) ∧
    ∃ script, parse source = .ok script ∧
      ∀ decl ∈ script.items.flatMap Item.functions, ∀ block ∈ decl.body.block?,
        ∃ id entry signature names body,
          compiled.context.bindings.symbol? decl.id = some id ∧
          compiled.context.symbols.function? id = some entry ∧
          .function entry.linkName signature names body ∈ compiled.unit ∧
          body.filterMap Instruction.upcast? =
            (Stmt.receiversOfAll (.ofFunction compiled.context id) block.stmts).filterMap
              compiled.context.symbols.upcast? := by
  obtain ⟨script, table, haccepted, -, hfinished⟩ := finished_of_compile h
  refine ⟨haccepted.generates.cast_not_mem,
    fun name signature names body hmem dest value hcast => ?_,
    script, haccepted.parse_eq, fun decl hdecl block hblock => ?_⟩
  · obtain ⟨id, block, entry, signature', region, hcode, heq⟩ :=
      haccepted.generates.functions name signature names body hmem
    cases heq
    have hok : (Site.ofFunction compiled.context id).symbols.Ok := haccepted.complete.table
    obtain ⟨actual, owner, hhanded⟩ := LowersBody.handsOn hok hcode.body dest value hcast
    exact ⟨actual, owner, hhanded,
      hhanded.safe haccepted.generates haccepted.complete hfinished⟩
  · obtain ⟨id, entry, signature, region, hsymbol, hcode, hmem⟩ :=
      haccepted.generates.bodies hdecl block hblock
    exact ⟨id, entry, signature, _, _, hsymbol, hcode.function?, hmem, hcode.body.upcasts_eq⟩

/-- Calls of functions of the own class and of the parent, with receivers of either kind. -/
def upcastsSource : String :=
  "class A { int8 x; int8 f(int8 n) { return n; } } " ++
    "class B extends A { int8 y; int8 g(B* b) { f(b.g(b)); b.f(y); return g(b); } }"

/-- What is found out about these classes by compiling them: there are two casts, for the calls of
`f`. -/
theorem upcastsSource_evaluated :
    (match compile upcastsSource with
      | .ok compiled => ((compiled.unit.function? "B_g").map fun f =>
          f.2.2.filterMap Instruction.upcast?) ==
            some [(.pointer (.record "B"), .pointer (.record "A")),
              (.pointer (.record "B"), .pointer (.record "A"))]
      | .error _ => false) = true := by
  decide +kernel

/-- A concrete cast, to the class that an inherited method is declared in. -/
theorem compile_upcasts_inherited : ∃ compiled signature names body dest value actual owner,
    compile upcastsSource = .ok compiled ∧
    .function "B_g" signature names body ∈ compiled.unit ∧ .cast dest value ∈ body ∧
    value.ty = .pointer (.record "B") ∧ dest.ty = .pointer (.record "A") ∧
    HandedOn compiled.context.symbols body dest value actual owner ∧
    SafeUpcast compiled.context.symbols compiled.unit actual owner := by
  have h := upcastsSource_evaluated
  split at h
  · next compiled hcompile =>
      obtain ⟨⟨signature, names, body⟩, hfunction, hcasts⟩ :=
        Option.map_eq_some_iff.1 (beq_iff_eq.1 h)
      have hmem := CodeUnit.mem_of_function? hfunction
      have hfirst : (StorageType.pointer (.record "B"), StorageType.pointer (.record "A")) ∈
          body.filterMap Instruction.upcast? := by
        rw [hcasts]
        exact List.mem_cons_self ..
      obtain ⟨i, hi, hupcast⟩ := List.mem_filterMap.1 hfirst
      cases i with
      | cast dest value =>
          obtain ⟨hvalue, hdest⟩ := Prod.mk.inj (Option.some.inj hupcast)
          obtain ⟨actual, owner, hhanded, hsafe⟩ :=
            (compile_upcasts hcompile).2.1 _ _ _ _ hmem dest value hi
          exact ⟨compiled, signature, names, body, dest, value, actual, owner, hcompile, hmem, hi,
            hvalue, hdest, hhanded, hsafe⟩
      | _ => cases hupcast
  · cases h

end ClassLang
