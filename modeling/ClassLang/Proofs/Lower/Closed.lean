import ClassLang.Proofs.Accepted
import ClassLang.Proofs.Code.Flow
import ClassLang.Proofs.Lower.Names

/-!
# Generated code is closed

A unit needs nothing but what it declares.  Functions are used by calls and by the dispatch
slots of classes, and records by the types of fields, signatures and operands; everything that
is used in this way is declared in the same unit, a function exactly once and with the
signature it is used with (`compile_closed`).  The rules of lowering say where a symbol comes
from, and `Supplies` says that the unit has a declaration for each symbol of its table.
-/

namespace ClassLang

/-- The records that a type is made of. -/
def StorageType.records : StorageType → List String
  | .void | .bool | .int _ _ => []
  | .pointer base | .array base _ => base.records
  | .record name => [name]

/-- The types that a function takes and gives back. -/
def Signature.types (signature : Signature) : List StorageType :=
  signature.returnType :: signature.params

namespace Instruction

/-- The types that an instruction is written with, apart from those of its operands. -/
def ownTypes : Instruction → List StorageType
  | .structRecord _ fields => fields.map RecordField.ty
  | .classRecord record => record.fields.map RecordField.ty ++
      record.dispatch.slots.flatMap fun slot => slot.signature.types
  | .externalFunction _ signature | .function _ signature _ _ | .call _ _ signature _ =>
    signature.types
  | .alloca _ ty _ => [ty]
  | _ => []

/-- All types of an instruction. -/
def types (i : Instruction) : List StorageType :=
  i.ownTypes ++ (i.dest?.toList ++ i.operands).map Operand.ty

/-- The dispatch record of the parent of a class. -/
def parentRecord? : Instruction → Option String
  | .classRecord record => record.dispatch.parentRecord
  | _ => none

/-- The record types that an instruction uses. -/
def recordUses (i : Instruction) : List String :=
  i.types.flatMap StorageType.records ++ i.parentRecord?.toList

/-- The functions that an instruction uses. -/
def functionUses : Instruction → List (String × Signature)
  | .call _ callee signature _ => [(callee, signature)]
  | .classRecord record => record.dispatch.slots.map fun slot => (slot.function, slot.signature)
  | _ => []

/-- The function that an instruction declares. -/
def function? : Instruction → Option (String × Signature)
  | .externalFunction name signature | .function name signature _ _ => some (name, signature)
  | _ => none

/-- The instructions of a function. -/
def body : Instruction → List Instruction
  | .function _ _ _ code => code
  | _ => []

end Instruction

/-- All instructions of a unit: its declarations and those in the bodies of its functions. -/
def CodeUnit.instructions (unit : CodeUnit) : List Instruction :=
  unit.flatMap fun i => i :: i.body

/-- The records of a type are declared in a unit. -/
def StorageType.DeclaredIn (unit : CodeUnit) (t : StorageType) : Prop :=
  ∀ name ∈ t.records, name ∈ unit.flatMap Instruction.recordNames

/-- Everything that an instruction uses is declared in a unit. -/
structure Instruction.ClosedIn (unit : CodeUnit) (i : Instruction) : Prop where
  functions : ∀ use ∈ i.functionUses, use ∈ unit.filterMap Instruction.function?
  types : ∀ t ∈ i.types, t.DeclaredIn unit
  parent : ∀ name ∈ i.parentRecord?, name ∈ unit.flatMap Instruction.recordNames

/-- A unit declares what stands in a table. -/
structure Supplies (unit : CodeUnit) (table : SymbolTable) : Prop where
  types : ∀ ty t, ty.Known table → table.storageType ty = .ok t → t.DeclaredIn unit
  functions : ∀ function entry signature names, table.Callable function →
    table.function? function = some entry → table.signature function = .ok (signature, names) →
    (entry.linkName, signature) ∈ unit.filterMap Instruction.function?

section

variable {unit : CodeUnit} {table : SymbolTable}

@[simp] theorem StorageType.declaredIn_pointer {t : StorageType} :
    (StorageType.pointer t).DeclaredIn unit ↔ t.DeclaredIn unit := Iff.rfl

@[simp] theorem StorageType.declaredIn_array {t : StorageType} {size : Nat} :
    (StorageType.array t size).DeclaredIn unit ↔ t.DeclaredIn unit := Iff.rfl

@[simp] theorem StorageType.declaredIn_void : StorageType.void.DeclaredIn unit := by
  simp [StorageType.DeclaredIn, StorageType.records]

@[simp] theorem StorageType.declaredIn_bool : StorageType.bool.DeclaredIn unit := by
  simp [StorageType.DeclaredIn, StorageType.records]

@[simp] theorem StorageType.declaredIn_int (bits : Nat) (signed : Bool) :
    (StorageType.int bits signed).DeclaredIn unit := by
  simp [StorageType.DeclaredIn, StorageType.records]

/-! ## What comes from a table -/

/-- The type of a receiver is that of a record of the unit. -/
theorem Supplies.receiverType (h : Supplies unit table) {id : SymbolId}
    (hid : (table.class? id).isSome = true) : (table.receiverType id).DeclaredIn unit :=
  h.types (.classType id) (.record (table.name id)) hid rfl

/-- The types of symbols are declared. -/
theorem Supplies.symbolType (h : Supplies unit table) (hok : table.Ok) {id : SymbolId}
    {t : StorageType} (ht : table.storageType (table.symbolType id) = .ok t) :
    t.DeclaredIn unit := by
  unfold SymbolTable.symbolType at ht
  split at ht
  · next hs => exact h.types _ t (by simp [Ty.Known, SymbolTable.class?, hs, Symbol.class?]) ht
  · next hs => exact h.types _ t (by simp [Ty.Known, SymbolTable.struct?, hs, Symbol.struct?]) ht
  · cases ht
  · next hs => exact h.types _ t (hok _ _ hs).1 ht
  · next hs => exact h.types _ t (hok _ _ hs).1 ht
  · next hs => exact h.types _ t (hok _ _ hs).1 ht
  · cases ht
    exact StorageType.declaredIn_int 8 true
  · cases ht
  · cases ht

/-- The types of signatures are declared. -/
theorem Supplies.signature (h : Supplies unit table) (htable : table.Lowerable) {id : SymbolId}
    {entry : FunctionEntry} (hentry : table.function? id = some entry) {signature : Signature}
    {names : List String} (hsignature : table.signature id = .ok (signature, names)) :
    ∀ t ∈ signature.types, t.DeclaredIn unit := by
  obtain ⟨ret, types, hret, -, htypes, heq⟩ :=
    SymbolTable.signature_eq htable.ok hentry (htable.resolved id entry hentry)
  cases hsignature.symm.trans heq
  intro t ht
  rcases List.mem_cons.1 ht with rfl | ht
  · exact h.types _ _ (htable.ok.function hentry (htable.resolved id entry hentry)).1 hret
  · rcases List.mem_append.1 ht with ht | ht
    · obtain ⟨c, hc, rfl⟩ := Option.map_eq_some_iff.1 (Option.mem_toList.1 ht)
      obtain ⟨owner, howner, -⟩ := SymbolTable.Ok.owner htable.ok hentry hc
      exact h.receiverType (by simp [howner])
    · obtain ⟨ty, hty, hstorage⟩ := List.Forall₂.exists_left htypes ht
      obtain ⟨a, -, rfl⟩ := List.mem_map.1 hty
      exact h.symbolType htable.ok hstorage

/-- The type of a stored field is declared in the unit. -/
theorem Supplies.fieldAt (h : Supplies unit table) (hok : table.Ok) {record field : SymbolId}
    {index : Nat} {t : StorageType} (hfield : table.FieldAt record field index t) :
    t.DeclaredIn unit := by
  obtain ⟨-, entry, hentry, -, ht⟩ := hfield
  exact h.types _ t (hok.field hentry).1 ht

end

/-! ## Expressions and statements -/

/-- The class whose function a receiver is for. -/
def Task.owner? : Task → Option SymbolId
  | .receiver _ owner => owner
  | _ => none

section

variable {site : Site} {params : List (String × StorageType)} {own vars : List SymbolId}
  {p p' : Point} {r : Region} {unit : CodeUnit} {ret : StorageType}

/-- An instruction of a body that is no call and creates no storage. -/
theorem Instruction.closedIn_of_operands {i : Instruction} (huses : i.functionUses = [])
    (hparent : i.parentRecord? = none) (hown : i.ownTypes = [])
    (hdest : ∀ a ∈ i.dest?, a.ty.DeclaredIn unit)
    (hreads : ∀ a ∈ i.operands, a.ty.DeclaredIn unit) :
    i.ClosedIn unit := by
  refine ⟨by simp [huses], fun t ht => ?_, by simp [hparent]⟩
  rw [types, hown, List.nil_append, List.map_append] at ht
  rcases List.mem_append.1 ht with ht | ht
  · obtain ⟨a, ha, rfl⟩ := List.mem_map.1 ht
    exact hdest a (Option.mem_toList.1 ha)
  · obtain ⟨a, ha, rfl⟩ := List.mem_map.1 ht
    exact hreads a ha

/-- A label names no record. -/
theorem Instruction.closedIn_label (l : Label) : (Instruction.label l).ClosedIn unit :=
  closedIn_of_operands rfl rfl rfl (by simp [dest?]) (by simp [operands_eq])

/-- A jump names no record. -/
theorem Instruction.closedIn_jump (l : Label) : (Instruction.jump l).ClosedIn unit :=
  closedIn_of_operands rfl rfl rfl (by simp [dest?]) (by simp [operands_eq])

/-- A branch names the records in the type of its condition. -/
theorem Instruction.closedIn_branch {a : Operand} {onTrue onFalse : Label}
    (ha : a.ty.DeclaredIn unit) : (Instruction.branch a onTrue onFalse).ClosedIn unit :=
  closedIn_of_operands rfl rfl rfl (by simp [dest?])
    (by simpa [operands_eq] using ha)

/-- A pointer to an element names the records in its own type and that of its base. -/
theorem Instruction.closedIn_elementPtr {dest base : Operand} {indices : List Nat}
    (hdest : dest.ty.DeclaredIn unit) (hbase : base.ty.DeclaredIn unit) :
    (Instruction.elementPtr dest base indices).ClosedIn unit :=
  closedIn_of_operands rfl rfl rfl (by simpa [dest?] using hdest)
    (by simpa [operands_eq] using hbase)

/-- The instruction of an operator names the records in the types of its operands. -/
theorem OperatorCode.closed {id : NodeId} {op : BinaryOp} {a b dest : Operand} {t : StorageType}
    {instruction : Operand → Instruction} (h : OperatorCode site id a b op t instruction)
    (hdest : dest.ty.DeclaredIn unit) (ha : a.ty.DeclaredIn unit) (hb : b.ty.DeclaredIn unit) :
    (instruction dest).ClosedIn unit := by
  cases h <;> exact Instruction.closedIn_of_operands rfl rfl rfl
    (by simpa [Instruction.dest?] using hdest)
    (by simpa [Instruction.operands_eq] using ⟨ha, hb⟩)

/-- The result of an operator is of a type that is declared. -/
theorem OperatorCode.declaredIn {id : NodeId} {op : BinaryOp} {a b : Operand} {t : StorageType}
    {instruction : Operand → Instruction} (h : OperatorCode site id a b op t instruction) :
    t.DeclaredIn unit := by
  cases h <;> simp

/-- A cast to an ancestor names records of the unit. -/
theorem Upcasts.closed {actual owner : SymbolId} {receiver a : Operand}
    (h : Upcasts site actual owner receiver p a r p') (hreceiver : receiver.ty.DeclaredIn unit)
    (howner : (site.symbols.receiverType owner).DeclaredIn unit) :
    r.All (Instruction.ClosedIn unit) ∧ a.ty.DeclaredIn unit := by
  cases h with
  | same => exact ⟨Region.all_empty, hreceiver⟩
  | cast =>
      exact ⟨Region.all_step.2 (Instruction.closedIn_of_operands rfl rfl rfl
        (by simpa [Instruction.dest?] using howner)
        (by simpa [Instruction.operands_eq] using hreceiver)),
        howner⟩

/-- Everything that a region uses is declared, and so are the types of the operands that it
leaves. -/
structure ClosedCode (unit : CodeUnit) (r : Region) (ops : List Operand) : Prop where
  code : r.All (Instruction.ClosedIn unit)
  types : ∀ a ∈ ops, a.ty.DeclaredIn unit

namespace ClosedCode

variable {r₁ r₂ : Region} {a b address : Operand} {t : StorageType}

/-- The result of closed code is of a type that is declared. -/
theorem type (h : ClosedCode unit r [a]) : a.ty.DeclaredIn unit :=
  h.types a (List.mem_singleton_self a)

/-- What stands at an address has the type that the address points to. -/
theorem load (h : ClosedCode unit r [address]) (hty : address.ty = .pointer t) :
    ClosedCode unit (r.seq (.step (.load (p.fresh t) address))) [p.fresh t] := by
  have ht : t.DeclaredIn unit := by
    have haddress := h.type
    rwa [hty] at haddress
  refine ⟨Region.all_seq.2 ⟨h.code, Region.all_step.2
    (Instruction.closedIn_of_operands rfl rfl rfl ?_ ?_)⟩, ?_⟩
  · simpa [Instruction.dest?, Point.fresh, Operand.ty] using ht
  · simpa [Instruction.operands_eq] using h.type
  · simpa [Point.fresh, Operand.ty] using ht

/-- A disjunction uses both sides, and jumps. -/
theorem or {l₁ l₂ l₃ : Label} (h₁ : ClosedCode unit r₁ [a]) (h₂ : ClosedCode unit r₂ [b])
    (ha : a.ty = .bool) (hb : b.ty = .bool) :
    ClosedCode unit (.shortCircuit l₁ l₂ l₃ r₁ a r₂ b (p.fresh .bool)) [p.fresh .bool] := by
  refine ⟨Region.all_shortCircuit Instruction.closedIn_label Instruction.closedIn_jump h₁.code
    h₂.code (Instruction.closedIn_branch h₁.type)
    (Instruction.closedIn_of_operands rfl rfl rfl ?_ ?_), ?_⟩
  · simp [Instruction.dest?, Point.fresh, Operand.ty]
  · simp [Instruction.operands_eq, ha, hb]
  · simp [Point.fresh, Operand.ty]

/-- Closed operands and an operator are closed code. -/
theorem operator {id : NodeId} {op : BinaryOp} {instruction : Operand → Instruction}
    (h₁ : ClosedCode unit r₁ [a]) (h₂ : ClosedCode unit r₂ [b])
    (hcode : OperatorCode site id a b op t instruction) :
    ClosedCode unit (r₁.seq (r₂.seq (.step (instruction (p.fresh t))))) [p.fresh t] := by
  refine ⟨Region.all_seq.2 ⟨h₁.code, Region.all_seq.2 ⟨h₂.code, Region.all_step.2
    (hcode.closed hcode.declaredIn h₁.type h₂.type)⟩⟩, ?_⟩
  simpa [Point.fresh, Operand.ty] using hcode.declaredIn

/-- An assignment leaves no operand. -/
theorem assign (h₁ : ClosedCode unit r₁ [a]) (h₂ : ClosedCode unit r₂ [address]) :
    ClosedCode unit (r₁.seq (r₂.seq (.step (.store a address)))) [] := by
  refine ⟨Region.all_seq.2 ⟨h₁.code, Region.all_seq.2 ⟨h₂.code, Region.all_step.2
    (Instruction.closedIn_of_operands rfl rfl rfl (by simp [Instruction.dest?]) ?_)⟩⟩, by simp⟩
  simpa [Instruction.operands_eq] using ⟨h₁.type, h₂.type⟩

/-- A call uses its function, with the types of its signature. -/
theorem call (htable : site.symbols.Lowerable) (hsupplies : Supplies unit site.symbols)
    {function : SymbolId} {entry : FunctionEntry} {signature : Signature} {names : List String}
    {self values : List Operand} (hentry : site.symbols.function? function = some entry)
    (hsignature : site.symbols.signature function = .ok (signature, names))
    (hcallable : site.symbols.Callable function) (h₁ : ClosedCode unit r₁ self)
    (h₂ : ClosedCode unit r₂ values) :
    ClosedCode unit (r₁.seq (r₂.seq (.step (.call (p.result signature.returnType) entry.linkName
      signature (self ++ values))))) (p.result signature.returnType).toList := by
  have htypes := hsupplies.signature htable hentry hsignature
  -- the result has the return type of the signature
  have hresult : ∀ a ∈ p.result signature.returnType, a.ty.DeclaredIn unit := by
    intro a ha
    unfold Point.result at ha
    split at ha
    · cases ha
    · cases ha
      exact htypes _ (List.mem_cons_self ..)
  refine ⟨Region.all_seq.2 ⟨h₁.code, Region.all_seq.2 ⟨h₂.code, Region.all_step.2
    ⟨fun use huse => ?_, fun t ht => ?_, by simp [Instruction.parentRecord?]⟩⟩⟩,
    fun a ha => hresult a (Option.mem_toList.1 ha)⟩
  · rw [List.mem_singleton.1 huse]
    exact hsupplies.functions _ _ _ _ hcallable hentry hsignature
  · rcases List.mem_append.1 ht with ht | ht
    · exact htypes t ht
    · obtain ⟨a, ha, rfl⟩ := List.mem_map.1 ht
      rcases List.mem_append.1 ha with ha | ha
      · exact hresult a (Option.mem_toList.1 ha)
      · have ha' : a ∈ self ∨ a ∈ values := by simpa [Instruction.operands_eq] using ha
        exact ha'.elim (h₁.types a) (h₂.types a)

end ClosedCode

/-- **What the code of expressions uses is declared**, and so are the types of the operands that
it leaves. -/
theorem Lowers.closed {task : Task} {ops : List Operand}
    (h : Lowers site params own vars task p ops r p') (htable : site.symbols.Lowerable)
    (hsupplies : Supplies unit site.symbols)
    (hparams : ∀ pair ∈ params, pair.2.DeclaredIn unit)
    (howner : ∀ c ∈ task.owner?, (site.symbols.class? c).isSome = true) :
    ClosedCode unit r ops := by
  induction h with
  | bool id b span p => exact ⟨Region.all_empty, by simp [Operand.ofBool, Operand.ty]⟩
  | int span p htype hinteger hfits => exact ⟨Region.all_empty, by simp [Operand.ty]⟩
  | string span p hsymbol hentry htext hvar =>
      exact ⟨Region.all_step.2 (Instruction.closedIn_elementPtr (by simp [Point.fresh, Operand.ty])
        (by simp [Operand.ty])), by simp [Point.fresh, Operand.ty]⟩
  | argument ident p hsymbol hentry hpointer hty hparam =>
      exact ⟨Region.all_empty, by simpa [Operand.ty] using hparams _ hparam⟩
  | load haddress hty ih => exact (ih (by simp [Task.owner?])).load hty
  | or hleft hright ha hb ih₁ ih₂ =>
      exact (ih₁ (by simp [Task.owner?])).or (ih₂ (by simp [Task.owner?])) ha hb
  | operator hleft hright hcode ih₁ ih₂ =>
      exact (ih₁ (by simp [Task.owner?])).operator (ih₂ (by simp [Task.owner?])) hcode
  | assign hvalue haddress hty ih₁ ih₂ =>
      exact (ih₁ (by simp [Task.owner?])).assign (ih₂ (by simp [Task.owner?]))
  | @call e id callee object args function entry signature names p p₁ p₂ self values r₁ r₂ hcall
      hsymbol hentry hsignature hself hvalues htakes hcallable ih₁ ih₂ =>
      have hclass : ∀ c ∈ entry.owner, (site.symbols.class? c).isSome = true := by
        intro c hc
        obtain ⟨owner, howner, -⟩ := SymbolTable.Ok.owner htable.ok hentry hc
        simp [howner]
      exact .call htable hsupplies hentry hsignature hcallable (ih₁ hclass)
        (ih₂ (by simp [Task.owner?]))
  | @stored id symbol entry n t ident p hsymbol hentry hstored hvar hcurrent hty =>
      refine ⟨Region.all_empty, ?_⟩
      have hsame := SymbolTable.symbolType_of_storedVariable? hentry
      simpa [Operand.ty] using hsupplies.symbolType htable.ok (hsame ▸ hty)
  | ownField ident p hsymbol hsite hself hfield =>
      have ht := hsupplies.fieldAt htable.ok hfield
      exact ⟨Region.all_step.2 (Instruction.closedIn_elementPtr
        (by simpa [Point.fresh, Operand.ty] using ht) (hparams _ hself)),
        by simpa [Point.fresh, Operand.ty] using ht⟩
  | member hsymbol hbase hty hfield ih =>
      have hobject := ih (by simp [Task.owner?])
      have ht := hsupplies.fieldAt htable.ok hfield
      exact ⟨Region.all_seq.2 ⟨hobject.code, Region.all_step.2 (Instruction.closedIn_elementPtr
        (by simpa [Point.fresh, Operand.ty] using ht) hobject.type)⟩,
        by simpa [Point.fresh, Operand.ty] using ht⟩
  | basePointer _ _ _ ih => exact ih (by simp [Task.owner?])
  | basePlace _ _ _ ih => exact ih (by simp [Task.owner?])
  | free p => exact ⟨Region.all_empty, by simp⟩
  | self hsite hself hinherits hcast =>
      obtain ⟨hcode, hvalue⟩ := hcast.closed (hparams _ hself)
        (hsupplies.receiverType (howner _ rfl))
      exact ⟨hcode, by simpa using hvalue⟩
  | object htype hvalue hty hinherits hcast ih =>
      have hobject := ih (by simp [Task.owner?])
      obtain ⟨hcode, hvalue⟩ := hcast.closed hobject.type (hsupplies.receiverType (howner _ rfl))
      exact ⟨Region.all_seq.2 ⟨hobject.code, hcode⟩, by simpa using hvalue⟩
  | nil p => exact ⟨Region.all_empty, by simp⟩
  | cons hvalue hvalues ih₁ ih₂ =>
      have hfirst := ih₁ (by simp [Task.owner?])
      have hrest := ih₂ (by simp [Task.owner?])
      exact ⟨Region.all_seq.2 ⟨hfirst.code, hrest.code⟩,
        List.forall_mem_cons.2 ⟨hfirst.type, hrest.types⟩⟩

/-- New storage has a declared type. -/
theorem Point.closedIn_allocation (p : Point) {t : StorageType} (ht : t.DeclaredIn unit) :
    (p.allocation t).ClosedIn unit := by
  refine ⟨by simp [allocation, Instruction.functionUses], ?_,
    by simp [allocation, Instruction.parentRecord?]⟩
  simpa [allocation, Instruction.types, Instruction.ownTypes, Instruction.dest?,
    Instruction.operands_eq, Point.fresh, Operand.ty] using ht

/-- Storing a value names the records in its type. -/
theorem Point.closedIn_store (p : Point) {a : Operand} {t : StorageType} (hty : a.ty = t)
    (ht : t.DeclaredIn unit) : (Instruction.store a (p.fresh (.pointer t))).ClosedIn unit := by
  refine Instruction.closedIn_of_operands rfl rfl rfl (by simp [Instruction.dest?]) ?_
  simpa [Instruction.operands_eq, hty] using ht

/-- A return names the records in the type of its value. -/
theorem Instruction.closedIn_ret {value : Option Operand}
    (h : ∀ a ∈ value, a.ty.DeclaredIn unit) : (Instruction.ret value).ClosedIn unit :=
  closedIn_of_operands rfl rfl rfl (by simp [dest?])
    (by simpa [operands_eq] using h)

/-- **What the code of statements uses is declared.** -/
theorem LowersStmt.closed {vars' : List SymbolId} {task : StmtTask}
    (h : LowersStmt site params own ret vars task p r p' vars') (htable : site.symbols.Lowerable)
    (hsupplies : Supplies unit site.symbols)
    (hparams : ∀ pair ∈ params, pair.2.DeclaredIn unit) :
    r.All (Instruction.ClosedIn unit) := by
  induction h with
  | nil => exact Region.all_empty
  | cons _ _ _ ih₁ ih₂ => exact Region.all_seq.2 ⟨ih₁, ih₂⟩
  | last _ _ _ ih => exact ih
  | block _ _ _ ih => exact ih
  | declare ty name span hsymbol hty hallocates =>
      exact Region.all_step.2 (Point.closedIn_allocation _ (hsupplies.symbolType htable.ok hty))
  | declareWith ty name span hsymbol hty hallocates hvalue hfits =>
      have ht := hsupplies.symbolType htable.ok hty
      obtain ⟨hcode, -⟩ := hvalue.closed htable hsupplies hparams (by simp [Task.owner?])
      exact Region.all_seq.2 ⟨Region.all_step.2 (Point.closedIn_allocation _ ht), Region.all_seq.2
        ⟨hcode, Region.all_step.2 (Point.closedIn_store _ hfits ht)⟩⟩
  | ifThen span hcondition ha hpositive ih =>
      obtain ⟨hcode, hvalues⟩ := hcondition.closed htable hsupplies hparams (by simp [Task.owner?])
      exact Region.all_seq.2 ⟨hcode, Region.all_ifThen Instruction.closedIn_label
        Instruction.closedIn_jump ih
        (Instruction.closedIn_branch (hvalues _ (List.mem_singleton_self _)))⟩
  | ifElse span hcondition ha hpositive hnegative ih₁ ih₂ =>
      obtain ⟨hcode, hvalues⟩ := hcondition.closed htable hsupplies hparams (by simp [Task.owner?])
      exact Region.all_seq.2 ⟨hcode, Region.all_ifElse Instruction.closedIn_label
        Instruction.closedIn_jump ih₁ ih₂
        (Instruction.closedIn_branch (hvalues _ (List.mem_singleton_self _)))⟩
  | ret => exact Region.all_step.2 (Instruction.closedIn_ret (by simp))
  | retValue span hvalue hty hvoid =>
      obtain ⟨hcode, hvalues⟩ := hvalue.closed htable hsupplies hparams (by simp [Task.owner?])
      exact Region.all_seq.2 ⟨hcode, Region.all_step.2
        (Instruction.closedIn_ret (by simpa using hvalues))⟩
  | expr span hvalue => exact (hvalue.closed htable hsupplies hparams (by simp [Task.owner?])).1

/-- Storing the arguments names the records in their types. -/
theorem BindsArguments.closed {vars' arguments : List SymbolId}
    (h : BindsArguments site params vars arguments p r p' vars') (hok : site.symbols.Ok)
    (hsupplies : Supplies unit site.symbols) :
    r.All (Instruction.ClosedIn unit) := by
  induction h with
  | nil => exact Region.all_empty
  | pointer _ _ ih => exact ih
  | value hvalue hty hparam hallocates hrest ih =>
      have ht := hsupplies.symbolType hok hty
      exact Region.all_seq.2 ⟨Region.all_step.2 (Point.closedIn_allocation _ ht), Region.all_seq.2
        ⟨Region.all_step.2 (Point.closedIn_store _ rfl ht), ih⟩⟩

/-- The code of a body names records of the unit. -/
theorem LowersBody.closed {arguments : List SymbolId} {block : Option Block}
    (h : LowersBody site params ret arguments block r) (htable : site.symbols.Lowerable)
    (hsupplies : Supplies unit site.symbols)
    (hparams : ∀ pair ∈ params, pair.2.DeclaredIn unit) :
    r.All (Instruction.ClosedIn unit) := by
  cases h with
  | implicit hvoid => exact Region.all_step.2 (Instruction.closedIn_ret (by simp))
  | leaves harguments hstmts _ =>
      exact Region.all_seq.2 ⟨harguments.closed htable.ok hsupplies,
        hstmts.closed htable hsupplies hparams⟩
  | goesOn harguments hstmts _ hvoid =>
      exact Region.all_seq.2 ⟨harguments.closed htable.ok hsupplies, Region.all_seq.2
        ⟨hstmts.closed htable hsupplies hparams,
          Region.all_step.2 (Instruction.closedIn_ret (by simp))⟩⟩

end

/-! ## Units -/

section

variable {ctx : Context} {script : Script} {unit : CodeUnit} {parts : UnitParts}

/-- **Every function that can be called is declared.** -/
theorem Generates.callable (h : Generates script ctx unit) (hcomplete : Complete script ctx)
    {g : SymbolId} (hg : ctx.symbols.Callable g) :
    ∃ i ∈ unit, IsExternalCode ctx g i ∨ IsFunctionCode ctx g i := by
  obtain ⟨parts, hparts, rfl⟩ := h
  obtain ⟨root, hroot, hexternals⟩ := hparts.externals
  -- It is listed as an external function or as one of an item.
  have hlisted : g ∈ root.functions ++ script.items.flatMap ctx.externalsOf ∨
      ∃ item ∈ script.items, g ∈ ctx.functionsOf item := by
    rcases hg with ⟨entry, hentry, howner⟩ | ⟨id, entry, hentry, hmem⟩
    · obtain ⟨decl, hitem, hsymbol⟩ := hcomplete.function_source hentry howner
      cases hkind : decl.body.isExternal with
      | true =>
          refine .inl (List.mem_append_right _ (List.mem_flatMap.2 ⟨_, hitem, ?_⟩))
          simp [Context.externalsOf, hkind, hsymbol]
      | false => exact .inr ⟨_, hitem, by simp [Context.functionsOf, hkind, hsymbol]⟩
    · by_cases hid : id = SymbolTable.rootClass
      · subst hid
        cases hentry.symm.trans hroot
        exact .inl (List.mem_append_left _ hmem)
      · obtain ⟨decl, hitem, hsymbol, -, -⟩ := hcomplete.class_source hentry hid
        exact .inr ⟨_, hitem, by simpa [Context.functionsOf, hsymbol, hentry] using hmem⟩
  rcases hlisted with hmem | ⟨item, hitem, hmem⟩
  · obtain ⟨i, hi, hcode⟩ := List.Forall₂.exists_right hexternals hmem
    exact ⟨i, UnitParts.mem_code.2 (by simp [hi]), .inl hcode⟩
  · obtain ⟨code, hcode, hall, -⟩ := List.Forall₂.exists_right hparts.functions hitem
    obtain ⟨i, hi, hfunction⟩ := List.Forall₂.exists_right hall hmem
    refine ⟨i, UnitParts.mem_code.2 ?_, .inr hfunction⟩
    exact .inr (.inr (.inr (.inr (.inr ⟨code, hcode, hi⟩))))

/-- Every class adds its record names to the unit. -/
theorem Generates.mem_recordNames (h : Generates script ctx unit) (hcomplete : Complete script ctx)
    {id : SymbolId} {entry : ClassEntry} (hentry : ctx.symbols.class? id = some entry)
    {name : String} (hname : name ∈ entry.recordNames) :
    name ∈ unit.flatMap Instruction.recordNames := by
  obtain ⟨i, hi, hcode⟩ := h.classes hcomplete hentry
  exact List.mem_flatMap.2 ⟨i, hi, (hcode.names hentry).1 ▸ hname⟩

/-- **The unit declares what stands in the table.** -/
theorem Generates.supplies (h : Generates script ctx unit) (hcomplete : Complete script ctx) :
    Supplies unit ctx.symbols := by
  refine ⟨fun ty => ?_, fun g entry signature names hg hentry hsignature => ?_⟩
  · induction ty with
    | primitive q =>
        intro t _ ht
        cases q <;> cases ht <;> simp
    | pointer base ih =>
        intro t hknown ht
        have hbase : base.Known ctx.symbols := hknown
        obtain ⟨t', ht', -⟩ := hbase.storageType
        rw [SymbolTable.storageType, ht'] at ht
        cases ht
        exact ih t' hbase ht'
    | classType id =>
        intro t hknown ht name hname
        cases ht
        obtain ⟨entry, hentry⟩ := Option.isSome_iff_exists.1 hknown
        rw [List.mem_singleton.1 hname, SymbolTable.name_of_class? hentry]
        exact h.mem_recordNames hcomplete hentry (List.mem_cons_self ..)
    | structType id =>
        intro t hknown ht name hname
        cases ht
        obtain ⟨entry, hentry⟩ := Option.isSome_iff_exists.1 hknown
        rw [List.mem_singleton.1 hname, SymbolTable.name_of_struct? hentry]
        obtain ⟨i, hi, hcode⟩ := h.structs hcomplete hentry
        exact List.mem_flatMap.2 ⟨i, hi, (hcode.names hentry).1 ▸ List.mem_singleton_self _⟩
    | _ => exact fun _ hknown => hknown.elim
  · obtain ⟨i, hi, hcode⟩ := h.callable hcomplete hg
    refine List.mem_filterMap.2 ⟨i, hi, ?_⟩
    rcases hcode with ⟨entry', signature', hentry', hsignature', rfl⟩ |
      ⟨block, entry', signature', region, hcode, rfl⟩
    · cases hentry.symm.trans hentry'
      cases hsignature.symm.trans hsignature'
      rfl
    · cases hentry.symm.trans hcode.function?
      cases hsignature.symm.trans hcode.signature_eq
      rfl

/-- The fields of a record have declared types. -/
theorem Supplies.fieldsOf {table : SymbolTable} (h : Supplies unit table) (hok : table.Ok)
    {slots : List SymbolId} {fields : List RecordField} (hfields : table.FieldsOf slots fields) :
    ∀ t ∈ fields.map RecordField.ty, t.DeclaredIn unit := by
  intro t ht
  obtain ⟨field, hfield, rfl⟩ := List.mem_map.1 ht
  obtain ⟨slot, -, -, hty⟩ := List.Forall₂.exists_left hfields hfield
  exact h.symbolType hok hty

/-- The declaration of a class uses the functions of its slots, and the dispatch record of its
parent. -/
theorem IsClassCode.closed (hgenerates : Generates script ctx unit)
    (hcomplete : Complete script ctx) {id : SymbolId} {i : Instruction} (h : IsClassCode ctx id i) :
    i.ClosedIn unit := by
  have hsupplies := hgenerates.supplies hcomplete
  obtain ⟨entry, fields, slots, hentry, hfields, hslots, rfl⟩ := h
  refine ⟨fun use huse => ?_, fun t ht => ?_, fun name hname => ?_⟩
  · obtain ⟨slot, hslot, rfl⟩ := List.mem_map.1 huse
    obtain ⟨g, names, hg, hname, hsignature⟩ := hslots slot hslot
    obtain ⟨e, he⟩ := hcomplete.table.callable_function hg
    rw [hname, SymbolTable.linkName_eq he]
    exact hsupplies.functions g e _ names hg he hsignature
  · have ht' : t ∈ fields.map RecordField.ty ∨
        t ∈ slots.flatMap fun slot => slot.signature.types := by
      simpa [Instruction.types, Instruction.ownTypes, Instruction.dest?,
        Instruction.operands_eq, Context.classRecord] using ht
    rcases ht' with ht' | ht'
    · exact hsupplies.fieldsOf hcomplete.table hfields t ht'
    · obtain ⟨slot, hslot, ht'⟩ := List.mem_flatMap.1 ht'
      obtain ⟨g, names, hg, -, hsignature⟩ := hslots slot hslot
      obtain ⟨e, he⟩ := hcomplete.table.callable_function hg
      exact hsupplies.signature hcomplete.lowerable he hsignature t ht'
  · obtain ⟨parent, hparent, rfl⟩ := Option.map_eq_some_iff.1 hname
    obtain ⟨c, -, hclass⟩ := Option.bind_eq_some_iff.1 hparent
    exact hgenerates.mem_recordNames hcomplete hclass (by simp [ClassEntry.recordNames])

/-- A function is declared with declared types, and its body is closed. -/
theorem IsFunctionCode.closed (hsupplies : Supplies unit ctx.symbols)
    (htable : ctx.symbols.Lowerable) {id : SymbolId} {i : Instruction}
    (h : IsFunctionCode ctx id i) : ∀ j ∈ i :: i.body, j.ClosedIn unit := by
  obtain ⟨block, entry, signature, region, hcode, rfl⟩ := h
  have htypes := hsupplies.signature htable hcode.function? hcode.signature_eq
  have hparams : ∀ pair ∈ ctx.symbols.parameters entry signature, pair.2.DeclaredIn unit :=
    fun pair hpair => htypes _ (List.mem_cons_of_mem _ (List.of_mem_zip hpair).2)
  intro j hj
  rcases List.mem_cons.1 hj with rfl | hj
  · refine ⟨by simp [Instruction.functionUses], fun t ht => htypes t ?_,
      by simp [Instruction.parentRecord?]⟩
    simpa [Instruction.types, Instruction.ownTypes, Instruction.dest?,
      Instruction.operands_eq] using ht
  · exact hcode.body.closed htable hsupplies hparams j hj

/-- **Every instruction of a unit is closed.** -/
theorem Generates.closed (h : Generates script ctx unit) (hcomplete : Complete script ctx) :
    ∀ i ∈ unit.instructions, i.ClosedIn unit := by
  have hsupplies := h.supplies hcomplete
  intro j hj
  obtain ⟨i, hi, hmem⟩ := List.mem_flatMap.1 hj
  obtain ⟨parts, hparts, rfl⟩ := id h
  rcases hparts.cases hi with ⟨entry, rfl⟩ | ⟨id, hcode | hcode | hcode | hcode⟩
  · rw [List.mem_singleton.1 hmem]
    exact Instruction.closedIn_of_operands rfl rfl rfl (by simp [Instruction.dest?])
      (by simp [Instruction.operands_eq])
  · obtain ⟨entry, fields, hentry, hfields, rfl⟩ := hcode
    rw [List.mem_singleton.1 hmem]
    refine ⟨by simp [Instruction.functionUses], fun t ht => ?_, by simp [Instruction.parentRecord?]⟩
    refine hsupplies.fieldsOf hcomplete.table hfields t ?_
    simpa [Instruction.types, Instruction.ownTypes, Instruction.dest?,
      Instruction.operands_eq] using ht
  · have hclosed := hcode.closed h hcomplete
    obtain ⟨_, _, _, -, -, -, rfl⟩ := hcode
    rwa [List.mem_singleton.1 hmem]
  · obtain ⟨entry, signature, hentry, hsignature, rfl⟩ := hcode
    rw [List.mem_singleton.1 hmem]
    refine ⟨by simp [Instruction.functionUses], fun t ht => ?_, by simp [Instruction.parentRecord?]⟩
    refine hsupplies.signature hcomplete.lowerable hentry hsignature t ?_
    simpa [Instruction.types, Instruction.ownTypes, Instruction.dest?,
      Instruction.operands_eq] using ht
  · exact hcode.closed hsupplies hcomplete.lowerable j hmem

/-- Functions are declared in order among the globals. -/
theorem Instruction.function?_sublist (code : List Instruction) :
    ((code.filterMap Instruction.function?).map Prod.fst).Sublist
      (code.flatMap Instruction.globalNames) := by
  induction code with
  | nil => exact .slnil
  | cons i rest ih =>
      rw [List.flatMap_cons]
      cases i with
      | stringLiteral name text => exact ih.cons name
      | classRecord record => exact (ih.cons _).cons _
      | externalFunction name signature => exact ih.cons_cons name
      | function name signature names body => exact ih.cons_cons name
      | _ => exact ih

/-- What is found under a key, if no key is there twice. -/
theorem List.filter_fst_eq_singleton {α β : Type} [DecidableEq α] {l : List (α × β)} {pair : α × β}
    (hnodup : (l.map Prod.fst).Nodup) (hmem : pair ∈ l) :
    (l.filter fun other => other.1 = pair.1) = [pair] := by
  induction l with
  | nil => simp at hmem
  | cons other rest ih =>
      obtain ⟨hnew, hrest⟩ := List.nodup_cons.1 hnodup
      rcases List.mem_cons.1 hmem with rfl | hmem
      · have hnone : (rest.filter fun other => other.1 = pair.1) = [] := by
          refine List.filter_eq_nil_iff.2 fun other hother => ?_
          have hne : other.1 ≠ pair.1 := fun heq => hnew (heq ▸ List.mem_map_of_mem hother)
          simpa using hne
        rw [List.filter_cons_of_pos (by simp), hnone]
      · have hne : other.1 ≠ pair.1 := fun heq => hnew (heq ▸ List.mem_map_of_mem hmem)
        rw [List.filter_cons_of_neg (by simpa using hne), ih hrest hmem]

end

/-- **Generated code is closed and unambiguous.**  No record type and no global is declared
twice.  Every function that a call or a dispatch slot uses is declared once in the unit, with
the signature it is used with; and every record type that is used is declared. -/
theorem compile_closed {source : String} {compiled : Compiled}
    (h : compile source = .ok compiled) :
    (compiled.unit.flatMap Instruction.recordNames).Nodup ∧
      (compiled.unit.flatMap Instruction.globalNames).Nodup ∧
      ∀ i ∈ compiled.unit.instructions,
        (∀ use ∈ i.functionUses, ((compiled.unit.filterMap Instruction.function?).filter
          fun function => function.1 = use.1) = [use]) ∧
        ∀ name ∈ i.recordUses, name ∈ compiled.unit.flatMap Instruction.recordNames := by
  obtain ⟨script, haccepted⟩ := accepted_of_compile h
  have hglobals := haccepted.generates.globals_nodup haccepted.complete haccepted.proper
  refine ⟨haccepted.generates.records_nodup haccepted.complete, hglobals, fun i hi => ?_⟩
  obtain ⟨hfunctions, htypes, hparent⟩ := haccepted.generates.closed haccepted.complete i hi
  refine ⟨fun use huse => ?_, fun name hname => ?_⟩
  · exact List.filter_fst_eq_singleton ((Instruction.function?_sublist _).nodup hglobals)
      (hfunctions use huse)
  · rcases List.mem_append.1 hname with hname | hname
    · obtain ⟨t, ht, hname⟩ := List.mem_flatMap.1 hname
      exact htypes t ht name hname
    · exact hparent name (Option.mem_toList.1 hname)

/-- A concrete unit, with the records and globals it declares and the body of a
function. -/
theorem compile_closed_sample : ∃ compiled signature names body,
    compile sampleSource = .ok compiled ∧ .function "A_f" signature names body ∈ compiled.unit ∧
    body.length = 20 ∧ (compiled.unit.flatMap Instruction.recordNames).Nodup ∧
    (compiled.unit.flatMap Instruction.globalNames).Nodup ∧
    ∀ i ∈ compiled.unit.instructions,
      (∀ use ∈ i.functionUses, ((compiled.unit.filterMap Instruction.function?).filter
        fun function => function.1 = use.1) = [use]) ∧
      ∀ name ∈ i.recordUses, name ∈ compiled.unit.flatMap Instruction.recordNames := by
  obtain ⟨compiled, signature, names, body, hcompile, hmem, hlength⟩ := sample_function
  exact ⟨compiled, signature, names, body, hcompile, hmem, hlength, compile_closed hcompile⟩

end ClassLang
