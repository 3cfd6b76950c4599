import Mathlib.Algebra.Ring.Int.Defs
import ClassLang.Proofs.Accepted
import ClassLang.Proofs.Code.Flow
import ClassLang.Proofs.Lower.Names

/-!
# Generated code is well typed

`Instruction.WellTyped` is the typing rule of each instruction, relative to the records of
its unit and the return type of its function, and `Operand.Valid` says that parameters and
constants are what they claim to be.  Every instruction of generated code keeps both
(`compile_wellTyped`): the rules of lowering already ask for it, one instruction at a time.
-/

namespace ClassLang

/-- The integers that are values of a type. -/
def StorageType.Contains : StorageType → Int → Prop
  | .bool, value => value = 0 ∨ value = 1
  | .int bits true, value => -2 ^ (bits - 1) ≤ value ∧ value < 2 ^ (bits - 1)
  | .int bits false, value => 0 ≤ value ∧ value < 2 ^ bits
  | _, _ => False

/-- A constant lies in the range of its type, and a parameter has its own type. -/
def Operand.Valid (params : List (String × StorageType)) : Operand → Prop
  | .const value ty => ty.Contains value
  | .named name ty => (name, ty) ∈ params
  | _ => True

/-- A unit declares a record with a field of a type at an index. -/
def CodeUnit.HasField (unit : CodeUnit) (record : String) (index : Nat) (ty : StorageType) : Prop :=
  ∃ fields, (record, fields) ∈ unit.filterMap Instruction.record? ∧
    ∃ h : index < fields.length, fields[index].ty = ty

/-- What a value of a type can be at most one of: nothing for `void`. -/
def StorageType.result (ty : StorageType) : Option StorageType :=
  if ty.isVoid then none else some ty

/-- The typing rules of instructions in a function that gives back `ret`. -/
def Instruction.WellTyped (unit : CodeUnit) (ret : StorageType) : Instruction → Prop
  | .label _ | .jump _ => True
  | .alloca dest ty _ => dest.ty = .pointer ty
  | .load dest address => address.ty.pointee? = some dest.ty
  | .store value address => address.ty.pointee? = some value.ty
  | .elementPtr dest base indices =>
    match base.ty with
    | .pointer (.record name) =>
      ∃ index ty, indices = [0, index] ∧ unit.HasField name index ty ∧ dest.ty = .pointer ty
    | .pointer (.array element size) =>
      ∃ index, indices = [0, index] ∧ index < size ∧ dest.ty = .pointer element
    | _ => False
  | .cast dest value => dest.ty.pointee?.isSome = true ∧ value.ty.pointee?.isSome = true
  | .arith op dest left right =>
    left.ty = dest.ty ∧ right.ty = dest.ty ∧
      ((∃ bits signed, dest.ty = .int bits signed) ∨ op = .bitAnd ∧ dest.ty = .bool)
  | .compare _ dest left right =>
    dest.ty = .bool ∧ ∃ bits signed, left.ty = .int bits signed ∧ right.ty = .int bits signed
  | .branch condition _ _ => condition.ty = .bool
  | .phi dest incoming => dest.ty = .bool ∧ ∀ pair ∈ incoming, pair.1.ty = .bool
  | .call dest _ signature args =>
    signature.Takes (args.map Operand.ty) ∧ dest.map Operand.ty = signature.returnType.result
  | .ret value => value.map Operand.ty = ret.result
  | .stringLiteral .. | .structRecord .. | .classRecord _ | .externalFunction ..
  | .function .. => False

/-- An instruction keeps its typing rule, and its operands are what they claim to be. -/
def Instruction.Sound (unit : CodeUnit) (params : List (String × StorageType))
    (ret : StorageType) (i : Instruction) : Prop :=
  i.WellTyped unit ret ∧ ∀ a ∈ i.operands, a.Valid params

/-! ## Expressions and statements -/

section

variable {site : Site} {params : List (String × StorageType)} {own : List SymbolId}
  {vars : List SymbolId}
  {p p' : Point} {r : Region} {unit : CodeUnit} {ret : StorageType}

theorem Instruction.sound_label (l : Label) : (Instruction.label l).Sound unit params ret :=
  ⟨trivial, by simp [Instruction.operands_eq]⟩

theorem Instruction.sound_jump (l : Label) : (Instruction.jump l).Sound unit params ret :=
  ⟨trivial, by simp [Instruction.operands_eq]⟩

theorem Instruction.sound_branch {a : Operand} {onTrue onFalse : Label} (hty : a.ty = .bool)
    (ha : a.Valid params) : (Instruction.branch a onTrue onFalse).Sound unit params ret :=
  ⟨hty, by simpa [Instruction.operands_eq] using ha⟩

/-- A literal that fits lies in the range of its type. -/
theorem Primitive.contains_of_fits {q : Primitive} {n : Nat} (h : q.fits n = true) :
    (StorageType.int q.bits q.isSigned).Contains n := by
  have hcast : ∀ k : Nat, n < 2 ^ k → (n : Int) < 2 ^ k := fun k hlt => by
    simpa using Int.ofNat_lt.2 hlt
  cases q with
  | int width =>
      have hlt := hcast (width.bits - 1) (of_decide_eq_true h)
      change -2 ^ (width.bits - 1) ≤ (n : Int) ∧ (n : Int) < 2 ^ (width.bits - 1)
      exact ⟨by omega, hlt⟩
  | uint width => exact ⟨Int.natCast_nonneg n, hcast width.bits (of_decide_eq_true h)⟩
  | void => simp [Primitive.fits] at h
  | bool => simp [Primitive.fits] at h

theorem OperatorCode.sound {id : NodeId} {op : BinaryOp} {a b dest : Operand} {t : StorageType}
    {instruction : Operand → Instruction} (h : OperatorCode site id a b op t instruction)
    (hdest : dest.ty = t) (ha : a.Valid params) (hb : b.Valid params) :
    (instruction dest).Sound unit params ret := by
  cases h with
  | and hleft hright =>
      exact ⟨⟨hleft.trans hdest.symm, hright.trans hdest.symm, .inr ⟨rfl, hdest⟩⟩,
        by simpa [Instruction.operands_eq] using ⟨ha, hb⟩⟩
  | arith op q htype hinteger hleft hright =>
      exact ⟨⟨hleft.trans hdest.symm, hright.trans hdest.symm, .inl ⟨_, _, hdest⟩⟩,
        by simpa [Instruction.operands_eq] using ⟨ha, hb⟩⟩
  | compare op bits signed hleft hright =>
      exact ⟨⟨hdest, bits, signed, hleft, hright⟩, by
        simpa [Instruction.operands_eq] using ⟨ha, hb⟩⟩

theorem Upcasts.sound {actual owner : SymbolId} {receiver a : Operand}
    (h : Upcasts site actual owner receiver p a r p')
    (hty : receiver.ty = site.symbols.receiverType actual) (hreceiver : receiver.Valid params) :
    r.All (Instruction.Sound unit params ret) ∧ a.Valid params := by
  cases h with
  | same => exact ⟨Region.all_empty, hreceiver⟩
  | cast =>
      refine ⟨Region.all_step.2 ⟨⟨rfl, ?_⟩, by simpa [Instruction.operands_eq] using hreceiver⟩,
        trivial⟩
      rw [hty]
      rfl

/-- A field of a record is declared in the unit, where the lowering reaches for it. -/
theorem Instruction.sound_elementPtr {record : SymbolId} {index : Nat} {t : StorageType}
    {dest base : Operand} (hbase : base.ty = site.symbols.receiverType record)
    (hdest : dest.ty = .pointer t) (hvalid : base.Valid params)
    (hfield : unit.HasField (site.symbols.name record) index t) :
    (Instruction.elementPtr dest base [0, index]).Sound unit params ret := by
  refine ⟨?_, by simpa [Instruction.operands_eq] using hvalid⟩
  simp only [Instruction.WellTyped, hbase, SymbolTable.receiverType]
  exact ⟨index, t, rfl, hfield, hdest⟩

/-- A value is loaded from a place that stores its type. -/
theorem Point.sound_load (p : Point) {address : Operand} {t : StorageType}
    (hty : address.ty = .pointer t) (hvalid : address.Valid params) :
    (Instruction.load (p.fresh t) address).Sound unit params ret := by
  refine ⟨?_, by simpa [Instruction.operands_eq] using hvalid⟩
  simp [Instruction.WellTyped, hty, StorageType.pointee?]

/-- A value is stored in a place for its type. -/
theorem Instruction.sound_store {a address : Operand} (hty : address.ty = .pointer a.ty)
    (ha : a.Valid params) (haddress : address.Valid params) :
    (Instruction.store a address).Sound unit params ret := by
  refine ⟨?_, by simpa [operands_eq] using ⟨ha, haddress⟩⟩
  simp [WellTyped, hty, StorageType.pointee?]

/-- A call takes what its signature asks for, and defines what that gives back. -/
theorem Point.sound_call (p : Point) {signature : Signature} {args : List Operand}
    (htakes : signature.Takes (args.map Operand.ty)) (hargs : ∀ a ∈ args, a.Valid params)
    (callee : String) :
    (Instruction.call (p.result signature.returnType) callee signature args).Sound unit params
      ret := by
  refine ⟨⟨htakes, ?_⟩, by simpa [Instruction.operands_eq] using hargs⟩
  unfold Point.result StorageType.result
  split <;> rfl

theorem Point.valid_result (p : Point) (t : StorageType) :
    ∀ a ∈ (p.result t).toList, a.Valid params := by
  unfold Point.result
  split <;> simp [Point.fresh, Operand.Valid]

/-- The value of a disjunction comes from the side that control comes from. -/
theorem Region.sound_shortCircuit {r₁ r₂ : Region} {a b : Operand} {l₁ l₂ l₃ : Label}
    (h₁ : r₁.All (Instruction.Sound unit params ret))
    (h₂ : r₂.All (Instruction.Sound unit params ret)) (ha : a.ty = .bool) (hb : b.ty = .bool)
    (hvalid₁ : a.Valid params) (hvalid₂ : b.Valid params) (p : Point) :
    (Region.shortCircuit l₁ l₂ l₃ r₁ a r₂ b (p.fresh .bool)).All
      (Instruction.Sound unit params ret) := by
  refine Region.all_shortCircuit Instruction.sound_label Instruction.sound_jump h₁ h₂
    (Instruction.sound_branch ha hvalid₁) ⟨⟨rfl, ?_⟩, ?_⟩
  · simpa using ⟨ha, hb⟩
  · simpa [Instruction.operands_eq] using ⟨hvalid₁, hvalid₂⟩

/-- **The code of expressions is sound**, and so are the operands that it leaves. -/
theorem Lowers.sound {task : Task} {ops : List Operand}
    (h : Lowers site params own vars task p ops r p')
    (hfields : ∀ record field index t, site.symbols.FieldAt record field index t →
      unit.HasField (site.symbols.name record) index t) :
    r.All (Instruction.Sound unit params ret) ∧ ∀ a ∈ ops, a.Valid params := by
  induction h with
  | bool id b span p =>
      refine ⟨Region.all_empty, ?_⟩
      cases b <;> simp [Operand.ofBool, Operand.Valid, StorageType.Contains]
  | int span p htype hinteger hfits =>
      refine ⟨Region.all_empty, ?_⟩
      simpa [Operand.Valid] using Primitive.contains_of_fits hfits
  | string span p hsymbol hentry htext hvar =>
      refine ⟨Region.all_step.2 ⟨⟨0, rfl, Nat.succ_pos _, rfl⟩, ?_⟩, ?_⟩
      · simp [Instruction.operands_eq, Operand.Valid]
      · simp [Point.fresh, Operand.Valid]
  | argument ident p hsymbol hentry hpointer hty hparam =>
      exact ⟨Region.all_empty, by simpa [Operand.Valid] using hparam⟩
  | @load e p p₁ address r t haddress hty ih =>
      have hvalid := ih.2 _ (List.mem_singleton_self _)
      exact ⟨Region.all_seq.2 ⟨ih.1, Region.all_step.2 (p₁.sound_load hty hvalid)⟩,
        by simp [Point.fresh, Operand.Valid]⟩
  | or hleft hright ha hb ih₁ ih₂ =>
      exact ⟨Region.sound_shortCircuit ih₁.1 ih₂.1 ha hb (ih₁.2 _ (List.mem_singleton_self _))
        (ih₂.2 _ (List.mem_singleton_self _)) _, by simp [Point.fresh, Operand.Valid]⟩
  | operator hleft hright hcode ih₁ ih₂ =>
      refine ⟨Region.all_seq.2 ⟨ih₁.1, Region.all_seq.2 ⟨ih₂.1, Region.all_step.2 ?_⟩⟩, ?_⟩
      · exact hcode.sound rfl (ih₁.2 _ (List.mem_singleton_self _))
          (ih₂.2 _ (List.mem_singleton_self _))
      · simp [Point.fresh, Operand.Valid]
  | assign hvalue haddress hty ih₁ ih₂ =>
      refine ⟨Region.all_seq.2 ⟨ih₁.1, Region.all_seq.2 ⟨ih₂.1, Region.all_step.2 ?_⟩⟩, by simp⟩
      exact Instruction.sound_store hty (ih₁.2 _ (List.mem_singleton_self _))
        (ih₂.2 _ (List.mem_singleton_self _))
  | @call e id callee object args function entry signature names p p₁ p₂ self values r₁ r₂ hcall
      hsymbol hentry hsignature hself hvalues htakes hcallable ih₁ ih₂ =>
      have hargs := List.forall_mem_append.2 ⟨ih₁.2, ih₂.2⟩
      exact ⟨Region.all_seq.2 ⟨ih₁.1, Region.all_seq.2 ⟨ih₂.1, Region.all_step.2
        (p₂.sound_call htakes hargs entry.linkName)⟩⟩, p₂.valid_result _⟩
  | stored => exact ⟨Region.all_empty, by simp [Operand.Valid]⟩
  | ownField ident p hsymbol howner hself hfield =>
      refine ⟨Region.all_step.2 (Instruction.sound_elementPtr rfl rfl hself
        (hfields _ _ _ _ hfield)), ?_⟩
      simp [Point.fresh, Operand.Valid]
  | member hsymbol hbase hty hfield ih =>
      refine ⟨Region.all_seq.2 ⟨ih.1, Region.all_step.2 (Instruction.sound_elementPtr hty rfl
        (ih.2 _ (List.mem_singleton_self _)) (hfields _ _ _ _ hfield))⟩, ?_⟩
      simp [Point.fresh, Operand.Valid]
  | basePointer _ _ _ ih => exact ih
  | basePlace _ _ _ ih => exact ih
  | free p => exact ⟨Region.all_empty, by simp⟩
  | self howner hself hinherits hcast =>
      obtain ⟨hcode, hvalid⟩ := hcast.sound rfl hself
      exact ⟨hcode, by simpa using hvalid⟩
  | object htype hvalue hty hinherits hcast ih =>
      obtain ⟨hcode, hvalid⟩ := hcast.sound hty (ih.2 _ (List.mem_singleton_self _))
      exact ⟨Region.all_seq.2 ⟨ih.1, hcode⟩, by simpa using hvalid⟩
  | nil p => exact ⟨Region.all_empty, by simp⟩
  | cons hvalue hvalues ih₁ ih₂ =>
      refine ⟨Region.all_seq.2 ⟨ih₁.1, ih₂.1⟩, fun a ha => ?_⟩
      rcases List.mem_cons.1 ha with rfl | ha
      · exact ih₁.2 _ (List.mem_singleton_self _)
      · exact ih₂.2 a ha

/-- New storage is sound. -/
theorem Point.sound_allocation (p : Point) (t : StorageType) :
    (p.allocation t).Sound unit params ret :=
  ⟨rfl, by simp [Point.allocation, Instruction.operands_eq]⟩

/-- Storage is filled with a value of its type. -/
theorem Point.sound_store (p : Point) {a : Operand} {t : StorageType} (hty : a.ty = t)
    (ha : a.Valid params) : (Instruction.store a (p.fresh (.pointer t))).Sound unit params ret :=
  ⟨by rw [← hty]; rfl, by simpa [Instruction.operands_eq, Point.fresh, Operand.Valid] using ha⟩

/-- **The code of statements is sound.** -/
theorem LowersStmt.sound {vars' : List SymbolId} {task : StmtTask}
    (h : LowersStmt site params own ret vars task p r p' vars')
    (hfields : ∀ record field index t, site.symbols.FieldAt record field index t →
      unit.HasField (site.symbols.name record) index t) :
    r.All (Instruction.Sound unit params ret) := by
  induction h with
  | nil => exact Region.all_empty
  | cons _ _ _ ih₁ ih₂ => exact Region.all_seq.2 ⟨ih₁, ih₂⟩
  | last _ _ _ ih => exact ih
  | block _ _ _ ih => exact ih
  | declare => exact Region.all_step.2 (Point.sound_allocation _ _)
  | declareWith ty name span hsymbol hty hallocates hvalue hfits =>
      obtain ⟨hcode, hvalid⟩ := hvalue.sound hfields
      exact Region.all_seq.2 ⟨Region.all_step.2 (Point.sound_allocation _ _), Region.all_seq.2
        ⟨hcode, Region.all_step.2 (Point.sound_store _ hfits
          (hvalid _ (List.mem_singleton_self _)))⟩⟩
  | ifThen span hcondition ha hpositive ih =>
      obtain ⟨hcode, hvalid⟩ := hcondition.sound hfields
      exact Region.all_seq.2 ⟨hcode, Region.all_ifThen Instruction.sound_label
        Instruction.sound_jump ih (Instruction.sound_branch ha
          (hvalid _ (List.mem_singleton_self _)))⟩
  | ifElse span hcondition ha hpositive hnegative ih₁ ih₂ =>
      obtain ⟨hcode, hvalid⟩ := hcondition.sound hfields
      exact Region.all_seq.2 ⟨hcode, Region.all_ifElse Instruction.sound_label
        Instruction.sound_jump ih₁ ih₂
        (Instruction.sound_branch ha (hvalid _ (List.mem_singleton_self _)))⟩
  | ret vars span p hvoid =>
      refine Region.all_step.2 ⟨?_, by simp [Instruction.operands_eq]⟩
      simp [Instruction.WellTyped, StorageType.result, hvoid]
  | retValue span hvalue hty hvoid =>
      obtain ⟨hcode, hvalid⟩ := hvalue.sound hfields
      refine Region.all_seq.2 ⟨hcode, Region.all_step.2 ⟨?_, ?_⟩⟩
      · simp [Instruction.WellTyped, StorageType.result, hvoid, hty]
      · simpa [Instruction.operands_eq] using hvalid
  | expr span hvalue => exact (hvalue.sound hfields).1

theorem BindsArguments.sound {vars' arguments : List SymbolId}
    (h : BindsArguments site params vars arguments p r p' vars') :
    r.All (Instruction.Sound unit params ret) := by
  induction h with
  | nil => exact Region.all_empty
  | pointer _ _ ih => exact ih
  | value hvalue hty hparam hallocates hrest ih =>
      exact Region.all_seq.2 ⟨Region.all_step.2 (Point.sound_allocation _ _), Region.all_seq.2
        ⟨Region.all_step.2 (Point.sound_store _ rfl hparam), ih⟩⟩

theorem LowersBody.sound {arguments : List SymbolId} {block : Option Block}
    (h : LowersBody site params ret arguments block r)
    (hfields : ∀ record field index t, site.symbols.FieldAt record field index t →
      unit.HasField (site.symbols.name record) index t) :
    r.All (Instruction.Sound unit params ret) := by
  have hret : ret.isVoid = true → (Instruction.ret none).Sound unit params ret := fun hvoid =>
    ⟨by simp [Instruction.WellTyped, StorageType.result, hvoid], by simp [Instruction.operands_eq]⟩
  cases h with
  | implicit hvoid => exact Region.all_step.2 (hret hvoid)
  | leaves harguments hstmts _ => exact Region.all_seq.2 ⟨harguments.sound, hstmts.sound hfields⟩
  | goesOn harguments hstmts _ hvoid =>
      exact Region.all_seq.2 ⟨harguments.sound, Region.all_seq.2
        ⟨hstmts.sound hfields, Region.all_step.2 (hret hvoid)⟩⟩

end

/-! ## Units -/

/-- Every parameter of a function has a name. -/
theorem IsCodeOf.length_names {ctx : Context} {id : SymbolId} {block : Option Block}
    {entry : FunctionEntry} {signature : Signature} {region : Region}
    (h : IsCodeOf ctx id block entry signature region) (htable : ctx.symbols.Lowerable) :
    (ctx.symbols.parameterNames entry).length = signature.params.length := by
  obtain ⟨ret, types, -, -, htypes, hsignature⟩ := SymbolTable.signature_eq htable.ok h.function?
    (htable.resolved id entry h.function?)
  cases h.signature_eq.symm.trans hsignature
  have hlength := htypes.length_eq
  rw [SymbolTable.parameterTypes, List.length_map] at hlength
  cases hentry : entry.owner <;> simp [SymbolTable.parameterNames, hentry, hlength]

/-- The fields that records store are declared. -/
theorem Generates.hasField {script : Script} {ctx : Context} {unit : CodeUnit}
    (h : Generates script ctx unit) (hcomplete : Complete script ctx) {record field : SymbolId}
    {index : Nat} {t : StorageType}
    (hfield : ctx.symbols.FieldAt record field index t) :
    unit.HasField (ctx.symbols.name record) index t := by
  obtain ⟨hslot, entry, hentry, -, hty⟩ := hfield
  have hrecord : (ctx.symbols.class? record).isSome = true ∨
      (ctx.symbols.struct? record).isSome = true := by
    unfold SymbolTable.slots at hslot
    split at hslot
    · next hget => simp [SymbolTable.class?, Symbol.class?, hget]
    · next hget => simp [SymbolTable.struct?, Symbol.struct?, hget]
    · simp at hslot
  obtain ⟨fields, hmem, hfields⟩ := h.records hcomplete hrecord
  obtain ⟨hindex, hget⟩ := List.getElem?_eq_some_iff.1 hslot
  have hlength := hfields.length_eq
  obtain ⟨-, hstored⟩ := hfields.get hindex (hlength ▸ hindex)
  have htype := SymbolTable.symbolType_of_field? hentry
  refine ⟨fields, hmem, hlength ▸ hindex, ?_⟩
  simp only [List.get_eq_getElem, hget, htype, hty, Except.ok.injEq] at hstored
  exact hstored.symm

/-- **Generated code is well typed.**  In every function of an accepted source, parameters
have distinct names and types, every instruction keeps its typing rule, and every parameter
and every constant that it reads is what it claims to be.  No record is declared twice, so
the fields of a record are those of one declaration. -/
theorem compile_wellTyped {source : String} {compiled : Compiled}
    (h : compile source = .ok compiled) {name : String} {signature : Signature}
    {names : List String} {body : List Instruction}
    (hmem : .function name signature names body ∈ compiled.unit) :
    names.length = signature.params.length ∧ names.Nodup ∧
      ((compiled.unit.filterMap Instruction.record?).map Prod.fst).Nodup ∧
      ∀ i ∈ body, i.Sound compiled.unit (names.zip signature.params) signature.returnType := by
  obtain ⟨script, haccepted⟩ := accepted_of_compile h
  obtain ⟨id, block, entry, signature', region, hcode, heq⟩ :=
    haccepted.generates.functions _ _ _ _ hmem
  cases heq
  refine ⟨hcode.length_names haccepted.complete.lowerable, hcode.names,
    haccepted.generates.distinct haccepted.complete, ?_⟩
  exact hcode.body.sound fun record field index t hfield =>
    haccepted.generates.hasField haccepted.complete hfield

theorem compile_wellTyped_sample : ∃ compiled signature names body,
    compile sampleSource = .ok compiled ∧ .function "A_f" signature names body ∈ compiled.unit ∧
    body.length = 20 ∧ names.length = signature.params.length ∧ names.Nodup ∧
    ((compiled.unit.filterMap Instruction.record?).map Prod.fst).Nodup ∧
    ∀ i ∈ body, i.Sound compiled.unit (names.zip signature.params) signature.returnType := by
  obtain ⟨compiled, signature, names, body, hcompile, hmem, hlength⟩ := sample_function
  exact ⟨compiled, signature, names, body, hcompile, hmem, hlength, compile_wellTyped hcompile hmem⟩

end ClassLang
