import ClassLang.Proofs.Accepted
import ClassLang.Proofs.Code.Availability
import ClassLang.Proofs.Lower.Numbering

/-!
# Single assignment

Generated code defines every value once, and in front of everything that reads it: on each
way to the reading instruction (`compile_singleAssignment`).  A variable is read through the
value that holds its address, which the address book names; so the invariant is that the
addresses of all variables in sight are known (`Stocked`).
-/

namespace ClassLang

theorem Operand.Known.mono {a : Operand} {s s' : List Operand} (h : a.Known s) (hs : s ⊆ s') :
    a.Known s' := by
  cases a with
  | temp n t => exact hs h
  | const | named | global | label => trivial

theorem Region.known_fresh (r : Region) (p : Point) {i : Instruction} {t : StorageType}
    {s : List Operand} (h : i.dest? = some (p.fresh t)) :
    (p.fresh t).Known ((r.seq (.step i)).avail s) := by
  simp [Region.avail, h, Point.fresh, Operand.Known]

/-- The addresses of the variables that can be seen are known values. -/
def Stocked (site : Site) (vars : List SymbolId) (book : AddressBook) (s : List Operand) : Prop :=
  ∀ v ∈ vars, ∃ a ∈ s, book.current v site.symbols = .ok a

section

variable {site : Site} {params : List (String × StorageType)} {own : List SymbolId}
  {ret : StorageType}
  {vars vars' : List SymbolId} {p p' : Point} {r : Region} {s s' : List Operand}

theorem Stocked.mono {book : AddressBook} (h : Stocked site vars book s) (hs : s ⊆ s') :
    Stocked site vars book s' :=
  fun v hv => (h v hv).imp fun _ ha => ⟨hs ha.1, ha.2⟩

/-- Expressions do not move variables. -/
theorem Lowers.stocked {task : Task} {ops : List Operand}
    (hlowers : Lowers site params own vars task p ops r p') (h : Stocked site vars p.addresses s) :
    Stocked site vars p'.addresses (r.avail s) :=
  fun v hv => (h v hv).imp fun _ ha => ⟨r.subset_avail s ha.1,
    AddressBook.current_congr (hlowers.locations (.inl hv)) ha.2⟩

/-- New storage can be seen, and everything else as before. -/
theorem Stocked.allocate (h : Stocked site vars p.addresses s) {symbol : SymbolId} {t : StorageType}
    (hallocates : Allocates site vars symbol t p) :
    Stocked site (symbol :: vars) (p.allocated symbol t).addresses (p.fresh (.pointer t) :: s) := by
  intro v hv
  rcases List.mem_cons.1 hv with rfl | hv
  · exact ⟨_, List.mem_cons_self .., hallocates.current⟩
  · obtain ⟨a, ha, hcurrent⟩ := h v hv
    exact ⟨a, List.mem_cons_of_mem _ ha, (hallocates.others v hv).trans hcurrent⟩

theorem Upcasts.supplied {actual owner : SymbolId} {receiver a : Operand}
    (h : Upcasts site actual owner receiver p a r p') (hreceiver : receiver.Known s) :
    r.Supplied s ∧ a.Known (r.avail s) := by
  cases h with
  | same => exact ⟨trivial, hreceiver⟩
  | cast => exact ⟨by simpa [Region.Supplied, Instruction.reads] using hreceiver,
      List.mem_cons_self ..⟩

theorem OperatorCode.reads {id : NodeId} {a b dest : Operand} {op : BinaryOp}
    {t : StorageType} {instruction : Operand → Instruction}
    (h : OperatorCode site id a b op t instruction) : (instruction dest).reads = [a, b] := by
  cases h <;> rfl

/-- An instruction behind two regions may read the value of each. -/
theorem Region.supplied_pair {r₁ r₂ : Region} {i : Instruction} {a b : Operand}
    (h₁ : r₁.Supplied s ∧ ∀ x ∈ [a], x.Known (r₁.avail s))
    (h₂ : r₂.Supplied (r₁.avail s) ∧ ∀ x ∈ [b], x.Known (r₂.avail (r₁.avail s)))
    (hreads : i.reads = [a, b]) : (r₁.seq (r₂.seq (.step i))).Supplied s := by
  refine ⟨h₁.1, h₂.1, ?_⟩
  simp only [Region.Supplied, hreads, List.forall_mem_cons, List.not_mem_nil, false_implies,
    implies_true, and_true]
  exact ⟨(h₁.2 a (List.mem_singleton_self _)).mono (Region.subset_avail _ _),
    h₂.2 b (List.mem_singleton_self _)⟩

/-- The result of a call is known behind it. -/
theorem Region.known_result (r : Region) (p : Point) (t : StorageType) (callee : String)
    (signature : Signature) (args : List Operand) :
    ∀ a ∈ (p.result t).toList,
      a.Known ((r.seq (.step (.call (p.result t) callee signature args))).avail s) := by
  intro a ha
  have hdest : p.result t = some a := Option.mem_toList.1 ha
  unfold Point.result at hdest ⊢
  split at hdest
  · cases hdest
  · next hvoid =>
      cases hdest
      rw [if_neg hvoid]
      exact r.known_fresh p rfl

/-- **Expressions read what is known**, and so are the operands that they leave. -/
theorem Lowers.supplied {task : Task} {ops : List Operand}
    (h : Lowers site params own vars task p ops r p') (hs : Stocked site vars p.addresses s) :
    r.Supplied s ∧ ∀ a ∈ ops, a.Known (r.avail s) := by
  induction h generalizing s with
  | bool => exact ⟨trivial, by simp [Operand.ofBool, Operand.Known]⟩
  | int => exact ⟨trivial, by simp [Operand.Known]⟩
  | string =>
      refine ⟨by simp [Region.Supplied, Instruction.reads, Operand.Known], ?_⟩
      simp [Region.avail, Instruction.dest?, Point.fresh, Operand.Known]
  | argument => exact ⟨trivial, by simp [Operand.Known]⟩
  | load _ _ ih =>
      obtain ⟨hcode, hknown⟩ := ih hs
      exact ⟨⟨hcode, by simpa [Region.Supplied, Instruction.reads] using hknown⟩,
        List.forall_mem_singleton.2 (Region.known_fresh _ _ rfl)⟩
  | or hleft hright _ _ ih₁ ih₂ =>
      obtain ⟨hcode₁, hknown₁⟩ := ih₁ hs
      obtain ⟨hcode₂, hknown₂⟩ := ih₂ (hleft.stocked hs)
      exact ⟨⟨hcode₁, hknown₁ _ (List.mem_singleton_self _), hcode₂,
        hknown₂ _ (List.mem_singleton_self _)⟩,
        List.forall_mem_singleton.2 (List.mem_cons_self ..)⟩
  | operator hleft hright hcode ih₁ ih₂ =>
      exact ⟨Region.supplied_pair (ih₁ hs) (ih₂ (hleft.stocked hs)) hcode.reads,
        List.forall_mem_singleton.2 (Region.known_fresh _ _ hcode.dest?)⟩
  | assign hvalue haddress _ ih₁ ih₂ =>
      exact ⟨Region.supplied_pair (ih₁ hs) (ih₂ (hvalue.stocked hs)) rfl, by simp⟩
  | @call e id callee object args function entry signature names p p₁ p₂ self values r₁ r₂ hcall
      hsymbol hentry hsignature hself hvalues htakes hcallable ih₁ ih₂ =>
      obtain ⟨hcode₁, hknown₁⟩ := ih₁ hs
      obtain ⟨hcode₂, hknown₂⟩ := ih₂ (hself.stocked hs)
      refine ⟨⟨hcode₁, hcode₂, fun a ha => ?_⟩, (r₁.seq r₂).known_result p₂ _ _ _ _⟩
      rcases List.mem_append.1 ha with ha | ha
      · exact (hknown₁ a ha).mono (Region.subset_avail _ _)
      · exact hknown₂ a ha
  | @stored id symbol entry n t ident p hsymbol hentry hstored hvar hcurrent hty =>
      obtain ⟨a, ha, hknown⟩ := hs symbol hvar
      cases hcurrent.symm.trans hknown
      exact ⟨trivial, List.forall_mem_singleton.2 ha⟩
  | ownField =>
      refine ⟨by simp [Region.Supplied, Instruction.reads, Operand.Known], ?_⟩
      simp [Region.avail, Instruction.dest?, Point.fresh, Operand.Known]
  | member _ _ _ _ ih =>
      obtain ⟨hcode, hknown⟩ := ih hs
      exact ⟨⟨hcode, by simpa [Region.Supplied, Instruction.reads] using hknown⟩,
        List.forall_mem_singleton.2 (Region.known_fresh _ _ rfl)⟩
  | basePointer _ _ _ ih => exact ih hs
  | basePlace _ _ _ ih => exact ih hs
  | free => exact ⟨trivial, by simp⟩
  | self _ _ _ hcast =>
      obtain ⟨hcode, hknown⟩ := hcast.supplied trivial
      exact ⟨hcode, List.forall_mem_singleton.2 hknown⟩
  | object _ _ _ _ hcast ih =>
      obtain ⟨hcode₁, hknown₁⟩ := ih hs
      obtain ⟨hcode₂, hknown₂⟩ := hcast.supplied (hknown₁ _ (List.mem_singleton_self _))
      exact ⟨⟨hcode₁, hcode₂⟩, List.forall_mem_singleton.2 hknown₂⟩
  | nil => exact ⟨trivial, by simp⟩
  | cons hvalue hvalues ih₁ ih₂ =>
      obtain ⟨hcode₁, hknown₁⟩ := ih₁ hs
      obtain ⟨hcode₂, hknown₂⟩ := ih₂ (hvalue.stocked hs)
      refine ⟨⟨hcode₁, hcode₂⟩, fun a ha => ?_⟩
      rcases List.mem_cons.1 ha with rfl | ha
      · exact (hknown₁ _ (List.mem_singleton_self _)).mono (Region.subset_avail _ _)
      · exact hknown₂ a ha

/-- Statements do not move the variables in front of them. -/
theorem LowersStmt.stocked {task : StmtTask}
    (hlowers : LowersStmt site params own ret vars task p r p' vars')
    (h : Stocked site vars p.addresses s) : Stocked site vars p'.addresses s :=
  fun v hv => (h v hv).imp fun a ha => ⟨ha.1, hlowers.current.2 v hv a ha.2⟩

/-- **Statements read what is known**, and leave the variables in sight behind them known. -/
theorem LowersStmt.supplied {task : StmtTask}
    (h : LowersStmt site params own ret vars task p r p' vars')
    (hs : Stocked site vars p.addresses s) :
    r.Supplied s ∧ (r.leaves = false → Stocked site vars' p'.addresses (r.avail s)) := by
  induction h generalizing s with
  | nil => exact ⟨trivial, fun _ => hs⟩
  | cons _ hgoesOn _ ih₁ ih₂ =>
      obtain ⟨hcode₁, hs₁⟩ := ih₁ hs
      obtain ⟨hcode₂, hs₂⟩ := ih₂ (hs₁ hgoesOn)
      exact ⟨⟨hcode₁, hcode₂⟩, hs₂⟩
  | last _ _ _ ih => exact ih hs
  | block _ _ hstmts ih =>
      exact ⟨(ih hs).1, fun _ => (hstmts.stocked hs).mono (Region.subset_avail _ _)⟩
  | declare _ _ _ _ _ hallocates =>
      exact ⟨by simp [Region.Supplied, Point.allocation, Instruction.reads],
        fun _ => hs.allocate hallocates⟩
  | @declareWith vars id symbol t ty name value span p p₁ a r hsymbol hty hallocates hvalue hfits =>
      have hs₁ := hs.allocate hallocates
      have hseen : Stocked site vars (p.allocated symbol t).addresses (p.fresh (.pointer t) :: s) :=
        fun v hv => hs₁ v (List.mem_cons_of_mem _ hv)
      obtain ⟨hcode, hknown⟩ := hvalue.supplied hseen
      refine ⟨⟨by simp [Region.Supplied, Point.allocation, Instruction.reads], hcode, ?_⟩,
        fun _ v hv => ?_⟩
      · simp only [Region.Supplied, Instruction.reads, List.forall_mem_cons, List.not_mem_nil,
          false_implies, implies_true, and_true]
        exact ⟨hknown _ (List.mem_singleton_self _),
          Region.subset_avail _ _ (List.mem_cons_self ..)⟩
      · rcases List.mem_cons.1 hv with rfl | hv
        · exact ⟨_, r.subset_avail _ (List.mem_cons_self ..), AddressBook.current_congr
            (hvalue.locations (.inr hallocates.literal?)) hallocates.current⟩
        · exact hvalue.stocked hseen v hv
  | ifThen _ hcondition _ hpositive ih =>
      obtain ⟨hcode, hknown⟩ := hcondition.supplied hs
      have hs₁ := hcondition.stocked hs
      exact ⟨⟨hcode, hknown _ (List.mem_singleton_self _), (ih hs₁).1⟩,
        fun _ => hpositive.stocked hs₁⟩
  | @ifElse vars vars₁ vars₂ condition positive negative span p p₁ p₂ p₃ a r r₁ r₂ hcondition _
      hpositive hnegative ih₁ ih₂ =>
      obtain ⟨hcode, hknown⟩ := hcondition.supplied hs
      have hs₁ := hcondition.stocked hs
      have hs₂ := hpositive.stocked hs₁
      refine ⟨⟨hcode, hknown _ (List.mem_singleton_self _), (ih₁ hs₁).1, (ih₂ hs₂).1⟩,
        fun hgoesOn => ?_⟩
      have hmeet : (r₁.leaves && r₂.leaves) = false := hgoesOn
      simpa [Point.meet, Region.avail, hmeet] using hnegative.stocked hs₂
  | ret => exact ⟨by simp [Region.Supplied, Instruction.reads], fun _ => hs⟩
  | retValue _ hvalue =>
      obtain ⟨hcode, hknown⟩ := hvalue.supplied hs
      exact ⟨⟨hcode, by simpa [Region.Supplied, Instruction.reads] using hknown⟩,
        by simp [Region.leaves, Instruction.isReturn]⟩
  | expr _ hvalue => exact ⟨(hvalue.supplied hs).1, fun _ => hvalue.stocked hs⟩

theorem BindsArguments.supplied {arguments : List SymbolId}
    (h : BindsArguments site params vars arguments p r p' vars')
    (hs : Stocked site vars p.addresses s) :
    r.Supplied s ∧ r.leaves = false ∧ Stocked site vars' p'.addresses (r.avail s) := by
  induction h generalizing s with
  | nil => exact ⟨trivial, rfl, hs⟩
  | pointer _ _ ih => exact ih hs
  | value _ _ _ hallocates _ ih =>
      obtain ⟨hcode, hgoesOn, hs'⟩ := ih (hs.allocate hallocates)
      refine ⟨⟨by simp [Region.Supplied, Point.allocation, Instruction.reads], ?_, hcode⟩,
        hgoesOn, hs'⟩
      simp [Region.Supplied, Region.avail, Point.allocation, Instruction.reads, Instruction.dest?,
        Point.fresh, Operand.Known]

theorem BindsArguments.proper {arguments : List SymbolId}
    (h : BindsArguments site params vars arguments p r p' vars') : r.Proper := by
  induction h with
  | nil => trivial
  | pointer _ _ ih => exact ih
  | value _ _ _ _ _ ih => exact ⟨trivial, ⟨trivial, ih, rfl⟩, rfl⟩

/-- Whole functions read what is known, from nothing. -/
theorem LowersBody.supplied {arguments : List SymbolId} {block : Option Block}
    (h : LowersBody site params ret arguments block r) : r.Proper ∧ r.Supplied [] := by
  have hnone : ∀ book, Stocked site [] book [] := fun _ v hv => by simp at hv
  cases h with
  | implicit => exact ⟨trivial, by simp [Region.Supplied, Instruction.reads]⟩
  | leaves harguments hstmts _ =>
      obtain ⟨hcode, hgoesOn, hs⟩ := harguments.supplied (hnone _)
      exact ⟨⟨harguments.proper, hstmts.shape.1, hgoesOn⟩, hcode, (hstmts.supplied hs).1⟩
  | goesOn harguments hstmts hleaves _ =>
      obtain ⟨hcode, hgoesOn, hs⟩ := harguments.supplied (hnone _)
      exact ⟨⟨harguments.proper, ⟨hstmts.shape.1, trivial, hleaves⟩, hgoesOn⟩, hcode,
        (hstmts.supplied hs).1, by simp [Region.Supplied, Instruction.reads]⟩

end

/-! ## Units -/

/-- A value that is read has a definition that dominates the place where it is read. -/
def ReadsDominated (body : List Instruction) : Prop :=
  ∀ place i n t, body[place]? = some i → .temp n t ∈ i.reads →
    ∃ d, DefinedAt body (.temp n t) d ∧ Dominates body d place

/-- A value that is paired with a block has a definition that dominates the end of that
block, and control goes from there to the block that reads it. -/
def IncomingDominated (body : List Instruction) : Prop :=
  ∀ place i n t l, body[place]? = some i → (.temp n t, l) ∈ i.incoming →
    ∃ d last terminator block, DefinedAt body (.temp n t) d ∧ Dominates body d last ∧
      InBlock body l last ∧ body[last]? = some terminator ∧ terminator.isTerminator = true ∧
      block ∈ terminator.targets ∧ InBlock body block place

section

variable {A : Labelling} {body : List Instruction}

theorem readsDominated (hbody : Everywhere (Guarded A) [] body)
    (hdests : (body.filterMap Instruction.dest?).Nodup) : ReadsDominated body := by
  intro place i n t hi hread
  have hlabel : i.label? = none := by cases i <;> first | rfl | simp [Instruction.reads] at hread
  exact hbody.dominates hdests hi hlabel ((hbody.get hi).reads _ hread)

theorem incomingDominated (hbody : Everywhere (Guarded A) [] body)
    (hdests : (body.filterMap Instruction.dest?).Nodup) : IncomingDominated body := by
  intro place i n t l hi hread
  have hlabel : i.label? = none := by
    cases i <;> first | rfl | simp [Instruction.incoming] at hread
  obtain ⟨front', terminator, rest, block, hsplit, hterminator, hblock, hknown, hown, htarget⟩ :=
    (hbody.get hi).incoming _ hread
  have hlength : (body.take place).length = place :=
    List.length_take_of_le (Nat.le_of_lt (List.getElem?_eq_some_iff.1 hi).1)
  have hown' : InBlock (body.take place ++ i :: body.drop (place + 1)) block
      (body.take place).length :=
    inBlock_of_supplyOf hown hlabel
  rw [← List.eq_take_append hi, hlength] at hown'
  -- the block that ends further up, as a part of the body
  have hbody' : body = front' ++ terminator :: (rest ++ i :: body.drop (place + 1)) := by
    conv_lhs => rw [List.eq_take_append hi, hsplit]
    simp
  have hlast : body[front'.length]? = some terminator := by
    rw [hbody']
    simp
  have htake : body.take front'.length = front' := by
    rw [hbody']
    simp
  have hlabel' := Instruction.label?_of_isTerminator hterminator
  obtain ⟨d, hdefined, hdominates⟩ := hbody.dominates hdests hlast hlabel'
    (a := .temp n t) (by rwa [htake])
  refine ⟨d, front'.length, terminator, block, hdefined, hdominates, ?_, hlast, hterminator,
    htarget, hown'⟩
  rw [hbody']
  exact inBlock_of_supplyOf hblock hlabel'

end

/-- **Generated code is in single assignment form.**  In every function of an accepted
source, the values are numbered in textual order, so none is defined twice; no label is
placed twice; and the definition of a value dominates everything that reads it. -/
theorem compile_singleAssignment {source : String} {compiled : Compiled}
    (h : compile source = .ok compiled) {name : String} {signature : Signature}
    {names : List String} {body : List Instruction}
    (hmem : .function name signature names body ∈ compiled.unit) :
    (∀ (k : Nat) (a : Operand), (body.filterMap Instruction.dest?)[k]? = some a →
        ∃ t, a = .temp k t) ∧
      (∀ n t t' d d', DefinedAt body (.temp n t) d → DefinedAt body (.temp n t') d' → d = d') ∧
      (body.filterMap Instruction.label?).Nodup ∧ ReadsDominated body ∧ IncomingDominated body := by
  obtain ⟨script, haccepted⟩ := accepted_of_compile h
  obtain ⟨id, block, entry, signature', region, hcode, heq⟩ :=
    haccepted.generates.functions _ _ _ _ hmem
  cases heq
  obtain ⟨⟨n, hcounts⟩, hlabels⟩ := hcode.body.numbered
  obtain ⟨hproper, hsupplied⟩ := hcode.body.supplied
  obtain ⟨A, hguarded⟩ := Region.exists_guarded hproper hlabels hsupplied
  refine ⟨fun k a ha => by simpa using hcounts.getElem? ha, ?_, hlabels,
    readsDominated hguarded hcounts.nodup, incomingDominated hguarded hcounts.nodup⟩
  rintro n t t' d d' ⟨i, hi, hdest⟩ ⟨i', hi', hdest'⟩
  have hnumbers : (region.code.filterMap fun i => i.dest?.map Operand.tempId?).Nodup := by
    rw [← List.map_filterMap]
    exact hcounts.nodup_tempId?
  exact List.place_unique hnumbers hi (by rw [hdest]; rfl) hi' (by rw [hdest']; rfl)

theorem compile_singleAssignment_sample : ∃ compiled signature names body,
    compile sampleSource = .ok compiled ∧ .function "A_f" signature names body ∈ compiled.unit ∧
    body.length = 20 ∧
    (∀ (k : Nat) (a : Operand), (body.filterMap Instruction.dest?)[k]? = some a →
      ∃ t, a = .temp k t) ∧
    (∀ n t t' d d', DefinedAt body (.temp n t) d → DefinedAt body (.temp n t') d' → d = d') ∧
    (body.filterMap Instruction.label?).Nodup ∧ ReadsDominated body ∧ IncomingDominated body := by
  obtain ⟨compiled, signature, names, body, hcompile, hmem, hlength⟩ := sample_function
  exact ⟨compiled, signature, names, body, hcompile, hmem, hlength,
    compile_singleAssignment hcompile hmem⟩

end ClassLang
