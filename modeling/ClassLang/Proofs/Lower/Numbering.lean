import ClassLang.Proofs.Lower.StmtEmission
import Mathlib.Data.List.Nodup

/-!
# Values and labels are numbered

The counters of a point are what its code may use: the values that a region defines are
numbered in textual order, from the counter in front of it to the counter behind it
(`Counts`), and the labels that it places were given out in between, each one once
(`Region.Places`).
-/

namespace ClassLang

/-! ## Values -/

/-- Values numbered from one number up to another one. -/
inductive Counts : Nat → List Operand → Nat → Prop
  | nil (n : Nat) : Counts n [] n
  | cons {n n' : Nat} {rest : List Operand} (t : StorageType) (h : Counts (n + 1) rest n') :
      Counts n (.temp n t :: rest) n'

namespace Counts

variable {n m k : Nat} {first second : List Operand}

/-- One value is numbered by the number it has. -/
theorem single (n : Nat) (t : StorageType) : Counts n [.temp n t] (n + 1) := .cons t (.nil _)

/-- Values numbered one list behind the other are numbered. -/
theorem append (h₁ : Counts n first m) (h₂ : Counts m second k) :
    Counts n (first ++ second) k := by
  induction h₁ with
  | nil => exact h₂
  | cons t _ ih => exact .cons t (ih h₂)

/-- Numbers go up. -/
theorem le (h : Counts n first m) : n ≤ m := by
  induction h with
  | nil => exact Nat.le_refl _
  | cons _ _ ih => omega

/-- The value at a place has the number of the place. -/
theorem getElem? (h : Counts n first m) {i : Nat} {a : Operand} (ha : first[i]? = some a) :
    ∃ t, a = .temp (n + i) t := by
  induction h generalizing i with
  | nil => simp at ha
  | @cons n n' rest t _ ih =>
      cases i with
      | zero => exact ⟨t, by simpa using ha.symm⟩
      | succ i =>
          obtain ⟨t', ht'⟩ := ih (by simpa using ha)
          exact ⟨t', by rw [ht', Nat.add_right_comm, Nat.add_assoc]⟩

/-- The numbers are distinct. -/
theorem nodup_tempId? (h : Counts n first m) : (first.map Operand.tempId?).Nodup := by
  induction h with
  | nil => exact List.nodup_nil
  | @cons n n' rest t hrest ih =>
      refine List.nodup_cons.2 ⟨fun hmem => ?_, ih⟩
      obtain ⟨a, ha, heq⟩ := List.mem_map.1 hmem
      obtain ⟨i, hi⟩ := List.mem_iff_getElem?.1 ha
      obtain ⟨t', rfl⟩ := hrest.getElem? hi
      simp only [Operand.tempId?, Option.some.injEq] at heq
      omega

/-- Values that are numbered differ. -/
theorem nodup (h : Counts n first m) : first.Nodup := h.nodup_tempId?.of_map _

end Counts

/-! ## Labels -/

/-- A region places labels that were given out between two counters, each one once. -/
structure Region.Places (r : Region) (l l' : Nat) : Prop where
  le : l ≤ l'
  bounds : ∀ k : Nat, k ∈ r.labels → l ≤ k ∧ k < l'
  nodup : r.labels.Nodup

namespace Region.Places

variable {r r₁ r₂ : Region} {l m k : Nat} {a b dest : Operand}

/-- A region without labels places none. -/
theorem of_labels_eq_nil (h : r.labels = []) (l : Nat) : r.Places l l :=
  ⟨Nat.le_refl _, by simp [h], by simp [h]⟩

/-- A plain instruction places no label. -/
theorem step {i : Instruction} (h : i.IsPlain) (l : Nat) : (Region.step i).Places l l :=
  of_labels_eq_nil (labels_step h) l

/-- Regions with counters one behind the other share no label. -/
theorem apart (h₁ : r₁.Places l m) (h₂ : r₂.Places m k) :
    ∀ i ∈ r₁.labels, ∀ j ∈ r₂.labels, i ≠ j := by
  rintro i hi _ hj rfl
  have := h₁.bounds i hi
  have := h₂.bounds i hj
  omega

/-- Regions one behind the other place labels that were given out one behind the other.
-/
theorem seq (h₁ : r₁.Places l m) (h₂ : r₂.Places m k) : (r₁.seq r₂).Places l k := by
  have hle := h₁.le
  have hle' := h₂.le
  refine ⟨by omega, fun j hj => ?_, ?_⟩
  · rw [labels_seq, List.mem_append] at hj
    rcases hj with hj | hj
    · have := h₁.bounds j hj
      omega
    · have := h₂.bounds j hj
      omega
  · rw [labels_seq, List.nodup_append]
    exact ⟨h₁.nodup, h₂.nodup, h₁.apart h₂⟩

/-- Some of the labels that were given out first, and those of the parts. -/
theorem of_perm {n : Nat} (fresh : List Nat) (h : r₁.Places (l + n) k)
    (hfresh : fresh.Sublist (List.range' l n)) (hperm : r.labels.Perm (fresh ++ r₁.labels)) :
    r.Places l k := by
  have hle := h.le
  have hissued : ∀ j ∈ fresh, l ≤ j ∧ j < l + n := fun j hj => by
    simpa using List.mem_range'_1.1 (hfresh.subset hj)
  refine ⟨by omega, fun j hj => ?_, hperm.nodup_iff.2 (List.nodup_append.2 ⟨?_, h.nodup, ?_⟩)⟩
  · rcases List.mem_append.1 (hperm.subset hj) with hj | hj
    · have := hissued j hj
      omega
    · have := h.bounds j hj
      omega
  · exact List.Nodup.sublist hfresh List.nodup_range'
  · rintro i hi _ hj rfl
    have := hissued i hi
    have := h.bounds i hj
    omega

/-- A `||` or `&&` places its three labels and those of its operands. -/
theorem shortCircuit (h₁ : r₁.Places (l + 3) m) (h₂ : r₂.Places m k) :
    (Region.shortCircuit l (l + 1) (l + 2) r₁ a r₂ b dest).Places l k := by
  refine (h₁.seq h₂).of_perm _ (List.Sublist.refl _) (List.perm_iff_count.2 fun x => ?_)
  simp only [labels_shortCircuit, labels_seq, List.range', Nat.add_assoc, Nat.reduceAdd,
    List.count_append, List.count_cons, List.count_nil]
  omega

/-- A branch without an alternative places its two labels and those of its body. -/
theorem ifThen (h : r.Places (l + 2) m) : (Region.ifThen a l (l + 1) r).Places l m := by
  refine h.of_perm _ (List.Sublist.refl _) (List.perm_iff_count.2 fun x => ?_)
  simp only [labels_ifThen, List.range', List.count_append, List.count_cons, List.count_nil]
  omega

/-- A branch with an alternative places its three labels and those of its sides. -/
theorem ifElse (h₁ : r₁.Places (l + 3) m) (h₂ : r₂.Places m k) :
    (Region.ifElse a l (l + 1) (l + 2) r₁ r₂).Places l k := by
  refine (h₁.seq h₂).of_perm (l :: (l + 1) :: if r₁.leaves && r₂.leaves then [] else [l + 2]) ?_
    (List.perm_iff_count.2 fun x => ?_)
  · split <;> simp [List.range']
  · simp only [labels_ifElse, labels_seq, List.count_append, List.count_cons]
    omega

end Region.Places

/-! ## Code -/

variable {site : Site} {params : List (String × StorageType)} {own : List SymbolId}
  {ret : StorageType}
  {vars vars' : List SymbolId} {p p' : Point} {r : Region}

/-- A region uses the numbers between two points. -/
structure Region.Numbered (r : Region) (p p' : Point) : Prop where
  counts : Counts p.temps r.dests p'.temps
  places : r.Places p.labels p'.labels

namespace Region.Numbered

variable {p₁ p₂ : Point} {r₁ r₂ : Region}

/-- An empty region uses no number. -/
theorem empty (p : Point) : Region.empty.Numbered p p := ⟨.nil _, .of_labels_eq_nil rfl _⟩

/-- A step that defines the next value. -/
theorem define {i : Instruction} {t : StorageType} (hi : i.IsPlain)
    (hdest : i.dest? = some (p.fresh t)) : (Region.step i).Numbered p p.next :=
  ⟨by simpa [hdest, Point.fresh] using Counts.single p.temps t, .step hi _⟩

/-- A step that defines nothing. -/
theorem silent {i : Instruction} (hi : i.IsPlain) (hdest : i.dest? = none) :
    (Region.step i).Numbered p p := ⟨by simpa [hdest] using Counts.nil p.temps, .step hi _⟩

/-- Regions one behind the other use numbers one behind the other. -/
theorem seq (h₁ : r₁.Numbered p p₁) (h₂ : r₂.Numbered p₁ p₂) : (r₁.seq r₂).Numbered p p₂ :=
  ⟨by simpa using h₁.counts.append h₂.counts, h₁.places.seq h₂.places⟩

end Region.Numbered

/-- A cast to an ancestor numbers its values. -/
theorem Upcasts.numbered {actual owner : SymbolId} {receiver a : Operand}
    (h : Upcasts site actual owner receiver p a r p') : r.Numbered p p' := by
  cases h with
  | same => exact .empty p
  | cast => exact .define trivial rfl

/-- The instruction of an operator defines its result. -/
theorem OperatorCode.dest? {id : NodeId} {a b dest : Operand} {op : BinaryOp}
    {t : StorageType} {instruction : Operand → Instruction}
    (h : OperatorCode site id a b op t instruction) : (instruction dest).dest? = some dest := by
  cases h <;> rfl

/-- Expressions use the numbers between their points. -/
theorem Lowers.numbered {task : Task} {ops : List Operand}
    (h : Lowers site params own vars task p ops r p') : r.Numbered p p' := by
  induction h with
  | bool | int | argument | stored | free | nil => exact .empty _
  | string => exact ⟨.single _ _, .of_labels_eq_nil rfl _⟩
  | ownField => exact .define trivial rfl
  | load _ _ ih => exact ih.seq (.define trivial rfl)
  | @or id left right span p p₁ p₂ a b r₁ r₂ _ _ _ _ ih₁ ih₂ =>
      refine ⟨?_, ih₁.places.shortCircuit ih₂.places⟩
      simpa [Point.fresh] using ih₁.counts.append (ih₂.counts.append (.single p₂.temps .bool))
  | operator _ _ hcode ih₁ ih₂ => exact ih₁.seq (ih₂.seq (.define hcode.isPlain hcode.dest?))
  | assign _ _ _ ih₁ ih₂ => exact ih₁.seq (ih₂.seq (.silent trivial rfl))
  | @call e id callee object args function entry signature names p p₁ p₂ self values r₁ r₂ hcall
      hsymbol hentry hsignature hself hvalues htakes hcallable ih₁ ih₂ =>
      refine ih₁.seq (ih₂.seq ?_)
      unfold Point.result Point.afterResult
      split
      · exact .silent trivial rfl
      · exact .define trivial rfl
  | member _ _ _ _ ih => exact ih.seq (.define trivial rfl)
  | basePointer _ _ _ ih => exact ih
  | basePlace _ _ _ ih => exact ih
  | self _ _ _ hcast => exact hcast.numbered
  | object _ _ _ _ hcast ih => exact ih.seq hcast.numbered
  | cons _ _ ih₁ ih₂ => exact ih₁.seq ih₂

/-- An allocation numbers the address it defines. -/
theorem Point.numbered_allocation (p : Point) (symbol : SymbolId) (t : StorageType) :
    (Region.step (p.allocation t)).Numbered p (p.allocated symbol t) :=
  ⟨.single _ _, .of_labels_eq_nil rfl _⟩

/-- Statements use the numbers between their points. -/
theorem LowersStmt.numbered {task : StmtTask}
    (h : LowersStmt site params own ret vars task p r p' vars') : r.Numbered p p' := by
  induction h with
  | nil => exact .empty _
  | cons _ _ _ ih₁ ih₂ => exact ih₁.seq ih₂
  | last _ _ _ ih => exact ih
  | block _ _ _ ih => exact ih
  | declare => exact Point.numbered_allocation _ _ _
  | declareWith _ _ _ _ _ _ hvalue =>
      exact (Point.numbered_allocation _ _ _).seq (hvalue.numbered.seq (.silent trivial rfl))
  | ifThen _ hcondition _ _ ih =>
      have hcode := hcondition.numbered
      exact ⟨by simpa using hcode.counts.append ih.counts, hcode.places.seq ih.places.ifThen⟩
  | @ifElse vars vars₁ vars₂ condition positive negative span p p₁ p₂ p₃ a r r₁ r₂ hcondition _ _ _
      ih₁ ih₂ =>
      have hcode := hcondition.numbered
      refine ⟨?_, ?_⟩
      · simpa using hcode.counts.append (ih₁.counts.append ih₂.counts)
      · rw [Point.labels_meet]
        exact hcode.places.seq (ih₁.places.ifElse ih₂.places)
  | ret => exact .silent trivial rfl
  | retValue _ hvalue => exact hvalue.numbered.seq (.silent trivial rfl)
  | expr _ hvalue => exact hvalue.numbered

/-- Storing the arguments numbers their addresses. -/
theorem BindsArguments.numbered {arguments : List SymbolId}
    (h : BindsArguments site params vars arguments p r p' vars') : r.Numbered p p' := by
  induction h with
  | nil => exact .empty _
  | pointer _ _ ih => exact ih
  | value _ _ _ _ _ ih =>
      exact (Point.numbered_allocation _ _ _).seq (.seq (.silent trivial rfl) ih)

/-- The values of a function are numbered from zero, and its labels are distinct. -/
theorem LowersBody.numbered {arguments : List SymbolId} {block : Option Block}
    (h : LowersBody site params ret arguments block r) :
    (∃ n, Counts 0 r.dests n) ∧ r.labels.Nodup := by
  have hnumbered : ∃ p', r.Numbered (.start site.function) p' := by
    cases h with
    | implicit => exact ⟨_, .silent trivial rfl⟩
    | leaves harguments hstmts => exact ⟨_, harguments.numbered.seq hstmts.numbered⟩
    | goesOn harguments hstmts =>
        exact ⟨_, harguments.numbered.seq (hstmts.numbered.seq (.silent trivial rfl))⟩
  obtain ⟨p', hnumbered⟩ := hnumbered
  exact ⟨⟨_, hnumbered.counts⟩, hnumbered.places.nodup⟩

end ClassLang
