import ClassLang.Proofs.Lower.Rules

/-!
# The lowering of expressions follows the rules

Whatever the rules derive, the lowering programs emit: the operands, the flattened region
and the next point are the ones of the derivation (`Lowers.emits`).  In particular, where
there is a derivation there is no internal error.  This file does so for expressions.
-/

namespace ClassLang

open Lowering

variable {site : Site} {params : List (String × StorageType)} {own : List SymbolId}
  {vars vars' : List SymbolId}
  {p p' : Point} {r : Region}

/-- The shape of the region of an expression: it is proper, control gets to its end, and
there the current label is the one that the point keeps. -/
structure Region.Through (r : Region) (p p' : Point) : Prop where
  proper : r.Proper
  goesOn : r.leaves = false
  label : p'.label = r.exit p.label

/-- A cast to an ancestor goes through. -/
theorem Upcasts.through {actual owner : SymbolId} {receiver a : Operand}
    (h : Upcasts site actual owner receiver p a r p') : r.Through p p' := by
  cases h with
  | same => exact ⟨trivial, rfl, rfl⟩
  | cast => exact ⟨trivial, rfl, rfl⟩

/-- The code of a cast can be continued. -/
theorem Upcasts.codeOpen {actual owner : SymbolId} {receiver a : Operand}
    (h : Upcasts site actual owner receiver p a r p') : CodeOpen r.code :=
  (Region.codeOpen_iff h.through.proper).2 h.through.goesOn

/-- The instruction of an operator is plain. -/
theorem OperatorCode.isPlain {id : NodeId} {a b dest : Operand} {op : BinaryOp}
    {t : StorageType} {instruction : Operand → Instruction}
    (h : OperatorCode site id a b op t instruction) : (instruction dest).IsPlain := by
  cases h <;> trivial

/-- The instruction of an operator is no return. -/
theorem OperatorCode.isReturn {id : NodeId} {a b dest : Operand} {op : BinaryOp}
    {t : StorageType} {instruction : Operand → Instruction}
    (h : OperatorCode site id a b op t instruction) : (instruction dest).isReturn = false := by
  cases h <;> rfl

/-- Regions of expressions always let control through. -/
theorem Lowers.through {task : Task} {ops : List Operand}
    (h : Lowers site params own vars task p ops r p') : r.Through p p' := by
  induction h with
  | bool | int | argument | stored | free | nil => exact ⟨trivial, rfl, rfl⟩
  | string | ownField => exact ⟨trivial, rfl, rfl⟩
  | load _ _ ih => exact ⟨⟨ih.proper, trivial, ih.goesOn⟩, rfl, ih.label⟩
  | or _ _ _ _ ih₁ ih₂ => exact ⟨⟨ih₁.proper, ih₂.proper, ih₁.goesOn, ih₂.goesOn⟩, rfl, rfl⟩
  | operator _ _ hcode ih₁ ih₂ =>
      refine ⟨⟨ih₁.proper, ⟨ih₂.proper, hcode.isPlain, ih₂.goesOn⟩, ih₁.goesOn⟩,
        hcode.isReturn, ?_⟩
      simp [Region.exit, ih₂.label, ih₁.label]
  | assign _ _ _ ih₁ ih₂ =>
      refine ⟨⟨ih₁.proper, ⟨ih₂.proper, trivial, ih₂.goesOn⟩, ih₁.goesOn⟩, rfl, ?_⟩
      simp [Region.exit, ih₂.label, ih₁.label]
  | @call e id callee object args function entry signature names p p₁ p₂ self values r₁ r₂
      _ _ _ _ _ _ _ hcallable ih₁ ih₂ =>
      refine ⟨⟨ih₁.proper, ⟨ih₂.proper, trivial, ih₂.goesOn⟩, ih₁.goesOn⟩, rfl, ?_⟩
      have hlabel : (p₂.afterResult signature.returnType).label = p₂.label := by
        unfold Point.afterResult
        split <;> rfl
      simp [Region.exit, hlabel, ih₂.label, ih₁.label]
  | member _ _ _ _ ih => exact ⟨⟨ih.proper, trivial, ih.goesOn⟩, rfl, ih.label⟩
  | basePointer _ _ _ ih => exact ih
  | basePlace _ _ _ ih => exact ih
  | self _ _ _ hcast => exact hcast.through
  | object _ _ _ _ hcast ih =>
      have hthrough := hcast.through
      refine ⟨⟨ih.proper, hthrough.proper, ih.goesOn⟩, hthrough.goesOn, ?_⟩
      simp [Region.exit, hthrough.label, ih.label]
  | cons _ _ ih₁ ih₂ =>
      refine ⟨⟨ih₁.proper, ih₂.proper, ih₁.goesOn⟩, ih₂.goesOn, ?_⟩
      simp [Region.exit, ih₂.label, ih₁.label]

/-- The code of an expression can be continued. -/
theorem Lowers.codeOpen {task : Task} {ops : List Operand}
    (h : Lowers site params own vars task p ops r p') : CodeOpen r.code :=
  (Region.codeOpen_iff h.through.proper).2 h.through.goesOn

namespace Lowering

/-- The symbol of a node is found without code. -/
theorem emits_symbolOf {node : NodeId} {symbol : SymbolId}
    (h : site.ctx.bindings.symbol? node = some symbol) (facet : Facet) (span : Span) (p : Point) :
    Emits (symbolOf site node facet span) p symbol [] p := by
  simpa [symbolOf, h] using emits_pure symbol p

/-- The type of a node is found without code. -/
theorem emits_typeOf {node : NodeId} {ty : Ty}
    (h : site.ctx.bindings.type? node = some ty) (span : Span) (p : Point) :
    Emits (typeOf site node span) p ty [] p := by
  simpa [typeOf, h] using emits_pure ty p

/-- The storage of a type is found without code. -/
theorem emits_storage {ty : Ty} {t : StorageType} (h : site.symbols.storageType ty = .ok t)
    (p : Point) : Emits (storage site ty) p t [] p :=
  emits_lift h p

/-- The receiver of the function is at hand without code. -/
theorem emits_receiver {owner : SymbolId} (h : site.owner = some owner) (span : Span)
    (p : Point) :
    Emits (receiver site span) p (.named selfName (site.symbols.receiverType owner)) [] p := by
  simpa [receiver, h] using emits_pure _ p

/-- The current label is known without code. -/
theorem emits_currentLabel {l : Label} (h : p.label = some l) :
    Emits (currentLabel site) p l [] p := by
  intro blocks _
  simp [currentLabel, Point.frame, h]
  rfl

/-- A value that is needed is emitted where there is one. -/
theorem emits_needed (site : Site) {find : Lowering (Option Operand)} {a : Operand}
    {code : List Instruction} (h : Emits find p (some a) code p') (hopen : CodeOpen code)
    (span : Span) : Emits (needed site span find) p a code p' :=
  h.finally hopen (emits_pure a p')

/-- A load emits one instruction. -/
theorem emits_load {address : Operand} {t : StorageType} (h : address.ty = .pointer t)
    (p : Point) : Emits (load address) p (p.fresh t) [.load (p.fresh t) address] p.next := by
  simp only [load, h, StorageType.pointee?]
  refine (emits_temp t p).then ?_
  exact (emits_emit rfl p.next).finally rfl (emits_pure (p.fresh t) p.next)

/-- The address of a field emits one instruction. -/
theorem emits_fieldAddress {record field : SymbolId} {index : Nat} {t : StorageType}
    (h : site.symbols.FieldAt record field index t) (base : Operand) (p : Point) :
    Emits (fieldAddress site base field) p (p.fresh (.pointer t))
      [.elementPtr (p.fresh (.pointer t)) base [0, index]] p.next := by
  obtain ⟨entry, hentry, hoffset, hty⟩ := h.entry
  simp only [fieldAddress, hentry, hoffset]
  refine (emits_storage hty p).then ((emits_temp (.pointer t) p).then ?_)
  exact (emits_emit rfl p.next).finally rfl (emits_pure (p.fresh (.pointer t)) p.next)

/-- An allocation emits one instruction, and records the address. -/
theorem emits_allocate (symbol : SymbolId) (t : StorageType) (p : Point) :
    Emits (allocate symbol t) p (p.fresh (.pointer t)) [p.allocation t]
      (p.allocated symbol t) := by
  refine (emits_temp (.pointer t) p).then ?_
  refine (emits_emit (i := p.allocation t) rfl p.next).finally rfl ?_
  exact (emits_record symbol (p.fresh (.pointer t)) p.next).then (emits_pure _ _)

/-- The address of a variable that has storage. -/
theorem emits_symbolAddress_stored {symbol : SymbolId} {entry : VariableEntry} {a : Operand}
    (hentry : site.symbols.storedVariable? symbol = some entry)
    (hstored : ¬ site.symbols.PointerArgument symbol)
    (hcurrent : p.addresses.current symbol site.symbols = .ok a) (span : Span) :
    Emits (symbolAddress site symbol span) p a [] p := by
  have hbook : Emits (do (← get).addresses.current symbol site.symbols : Lowering Operand)
      p a [] p := by
    intro blocks hblocks
    have := emits_lift hcurrent p blocks hblocks
    simpa [Point.frame] using this
  unfold symbolAddress
  cases hget : site.symbols.get? symbol with
  | none => simp [SymbolTable.storedVariable?, hget] at hentry
  | some found =>
      cases found with
      | argument found =>
          have hnot : found.ty.isPointer = false :=
            Bool.eq_false_iff.2 fun hpointer => hstored ⟨found, hget, hpointer⟩
          simpa [hnot] using hbook
      | localVariable found => simpa using hbook
      | _ => simp [SymbolTable.storedVariable?, hget, Symbol.storedVariable?] at hentry

/-- The address of a field of the receiver. -/
theorem emits_symbolAddress_field {owner field : SymbolId} {index : Nat} {t : StorageType}
    (howner : site.owner = some owner) (h : site.symbols.FieldAt owner field index t)
    (span : Span) (p : Point) :
    Emits (symbolAddress site field span) p (p.fresh (.pointer t))
      [.elementPtr (p.fresh (.pointer t))
        (.named selfName (site.symbols.receiverType owner)) [0, index]] p.next := by
  obtain ⟨entry, hentry, -⟩ := h.entry
  unfold symbolAddress
  cases hget : site.symbols.get? field with
  | none => simp [SymbolTable.field?, hget] at hentry
  | some found =>
      cases found with
      | field found =>
          exact (emits_receiver howner span p).then (emits_fieldAddress h _ p)
      | _ => simp [SymbolTable.field?, hget, Symbol.field?] at hentry

/-- A cast to an ancestor emits the code of the cast. -/
theorem emits_upcast {actual owner : SymbolId} {receiver a : Operand}
    (h : Upcasts site actual owner receiver p a r p') :
    Emits (upcast site receiver (some actual) owner) p a r.code p' := by
  cases h with
  | same heq => simpa [upcast, heq, Region.code] using emits_pure receiver p
  | cast hne =>
      simp only [upcast, Option.some.injEq, hne, if_false]
      refine (emits_temp (site.symbols.receiverType owner) p).then ?_
      exact (emits_emit rfl p.next).finally rfl (emits_pure _ p.next)

end Lowering

/-- Where the receiver of a call comes from, with the class it is an object of. -/
def Lowering.receiverSource (site : Site) (span : Span) :
    Option Expr → Lowering (Operand × Option SymbolId)
  | none => return (← receiver site span, site.owner)
  | some e => do
    let ty ← typeOf site e.id e.span
    return (← needed site e.span (e.lower site), ty.classBehindPointer?)

/-- What a function of a class, or of no class, takes in front of its arguments. -/
def Lowering.receiverFor (site : Site) (source : Lowering (Operand × Option SymbolId)) :
    Option SymbolId → Lowering (List Operand)
  | none => pure []
  | some owner => do
    let (operand, actual) ← source
    return [← upcast site operand actual owner]

/-- The program of a task emits some code and gives the operands. -/
def Task.Emits (site : Site) (p : Point) (ops : List Operand) (code : List Instruction)
    (p' : Point) : Task → Prop
  | .value e => ClassLang.Emits (e.lower site) p ops.head? code p'
  | .address e => ∃ a, ops = [a] ∧ ClassLang.Emits (e.lowerAddress site) p a code p'
  | .base e => ∃ a ty, ops = [a] ∧ site.ctx.bindings.type? e.id = some ty ∧
      ClassLang.Emits (if ty.isPointer then needed site e.span (e.lower site)
        else e.lowerAddress site) p a code p'
  | .receiver object owner => ∀ span,
      ClassLang.Emits (receiverFor site (receiverSource site span object) owner) p ops code p'
  | .values es => ClassLang.Emits (Expr.lowerAll site es) p ops code p'

/-- A name that is no pointer argument is loaded. -/
theorem emits_lower_name {ident : Ident} {id : NodeId} {symbol : SymbolId} {a : Operand}
    {t : StorageType} {code : List Instruction}
    (hsymbol : site.ctx.bindings.symbol? id = some symbol)
    (hstored : ¬ site.symbols.PointerArgument symbol)
    (haddress : Emits (symbolAddress site symbol ident.span) p a code p')
    (hopen : CodeOpen code) (hty : a.ty = .pointer t) :
    Emits (ident.lower site id) p (p'.fresh t) (code ++ [.load (p'.fresh t) a]) p'.next := by
  have hload : Emits (do load (← symbolAddress site symbol ident.span)) p (p'.fresh t)
      (code ++ [.load (p'.fresh t) a]) p'.next :=
    haddress.bind hopen (emits_load hty p')
  refine (emits_symbolOf hsymbol .symbol ident.span p).then ?_
  simp only
  split
  · next entry hentry =>
      have hnot : entry.ty.isPointer = false :=
        Bool.eq_false_iff.2 fun hpointer => hstored ⟨entry, hentry, hpointer⟩
      simpa [hnot] using hload
  · exact hload

/-- A field is no argument. -/
theorem SymbolTable.FieldAt.not_pointerArgument {table : SymbolTable}
    {record field : SymbolId} {index : Nat} {t : StorageType}
    (h : table.FieldAt record field index t) : ¬ table.PointerArgument field := by
  rintro ⟨entry, hentry, -⟩
  obtain ⟨found, hfound, -⟩ := h.entry
  simp [SymbolTable.field?, hentry, Symbol.field?] at hfound

/-- The value of a place is loaded from its address. -/
theorem emits_lower_of_address {e : Expr} {a : Operand} {t : StorageType}
    (h : Lowers site params own vars (.address e) p [a] r p')
    (haddress : Emits (e.lowerAddress site) p a r.code p') (hty : a.ty = .pointer t) :
    Emits (e.lower site) p (some (p'.fresh t)) (r.code ++ [.load (p'.fresh t) a]) p'.next := by
  have hopen := h.codeOpen
  cases h with
  | stored ident hsymbol hentry hstored hvar hcurrent hty =>
      have hplace := emits_symbolAddress_stored hentry hstored hcurrent ident.span
      exact (emits_lower_name hsymbol hstored hplace hopen hty).map some
  | ownField ident p hsymbol howner hself hfield =>
      have hplace := emits_symbolAddress_field howner hfield ident.span p
      exact (emits_lower_name hsymbol hfield.not_pointerArgument hplace hopen hty).map some
  | member =>
      exact haddress.bind hopen ((emits_load hty _).map some)

/-- The code of a call, from the code of its receiver and of its arguments. -/
theorem emits_lowerCall {callee : Ident} {id : NodeId} {function : SymbolId}
    {entry : FunctionEntry} {signature : Signature} {names : List String} {p₁ p₂ : Point}
    {self values : List Operand} {code₁ code₂ : List Instruction}
    {source : Lowering (Operand × Option SymbolId)} {args : Lowering (List Operand)}
    (hsymbol : site.ctx.bindings.symbol? id = some function)
    (hentry : site.symbols.function? function = some entry)
    (hsignature : site.symbols.signature function = .ok (signature, names))
    (hself : Emits (receiverFor site source entry.owner) p self code₁ p₁)
    (hopen₁ : CodeOpen code₁) (hvalues : Emits args p₁ values code₂ p₂)
    (hopen₂ : CodeOpen code₂) :
    Emits (callee.lowerCall site id source args) p (p₂.result signature.returnType)
      (code₁ ++ (code₂ ++ [.call (p₂.result signature.returnType) entry.linkName signature
        (self ++ values)])) (p₂.afterResult signature.returnType) := by
  let call (self values : List Operand) (dest : Option Operand) : Lowering (Option Operand) := do
    emit (.call dest entry.linkName signature (self ++ values))
    return dest
  let rest (self : List Operand) : Lowering (Option Operand) := do
    let values ← args
    if signature.returnType.isVoid then call self values none
    else do
      let dest ← temp signature.returnType
      call self values (some dest)
  have hrest : Emits (rest self) p₁ (p₂.result signature.returnType)
      (code₂ ++ [.call (p₂.result signature.returnType) entry.linkName signature
        (self ++ values)]) (p₂.afterResult signature.returnType) := by
    refine hvalues.bind hopen₂ ?_
    unfold Point.result Point.afterResult
    split
    · exact (emits_emit rfl _).finally rfl (emits_pure _ _)
    · refine (emits_temp signature.returnType p₂).then ?_
      exact (emits_emit rfl _).finally rfl (emits_pure _ _)
  refine (emits_symbolOf hsymbol .function callee.span p).then ?_
  simp only [hentry]
  refine (emits_lift hsignature p).then ?_
  have hall := hself.bind hopen₁ hrest
  cases howner : entry.owner with
  | none => simpa [howner, receiverFor, rest, call] using hall
  | some owner => simpa [howner, receiverFor, rest, call] using hall

/-- The code of `left || right`, from the code of its sides. -/
theorem emits_shortCircuit {left right : Lowering Operand} {p₁ p₂ : Point} {a b : Operand}
    {r₁ r₂ : Region} (hleft : Emits left ((p.issue 3).enter p.labels) a r₁.code p₁)
    (hthrough₁ : r₁.Through ((p.issue 3).enter p.labels) p₁)
    (hright : Emits right (p₁.enter (p.labels + 1)) b r₂.code p₂)
    (hthrough₂ : r₂.Through (p₁.enter (p.labels + 1)) p₂) :
    Emits (shortCircuit site left right) p (p₂.fresh .bool)
      (Region.shortCircuit p.labels (p.labels + 1) (p.labels + 2) r₁ a r₂ b
        (p₂.fresh .bool)).code (p₂.enter (p.labels + 2)).next := by
  have hopen₁ := (Region.codeOpen_iff hthrough₁.proper).2 hthrough₁.goesOn
  have hopen₂ := (Region.codeOpen_iff hthrough₂.proper).2 hthrough₂.goesOn
  have hlabel₁ : p₁.label = some (r₁.exitFrom p.labels) := by
    rw [hthrough₁.label, Point.label_enter, Region.exit_some]
  have hlabel₂ : p₂.label = some (r₂.exitFrom (p.labels + 1)) := by
    rw [hthrough₂.label, Point.label_enter, Region.exit_some]
  have hphi : Emits (do
      let dest ← temp .bool
      emit (.phi dest [(a, r₁.exitFrom p.labels), (b, r₂.exitFrom (p.labels + 1))])
      return dest) (p₂.enter (p.labels + 2)) (p₂.fresh .bool)
      [.phi (p₂.fresh .bool) [(a, r₁.exitFrom p.labels), (b, r₂.exitFrom (p.labels + 1))]]
      (p₂.enter (p.labels + 2)).next :=
    (emits_temp .bool _).then ((emits_emit rfl _).finally rfl (emits_pure _ _))
  simp only [Region.code, List.append_assoc, List.cons_append, List.nil_append]
  refine (emits_freshLabel p).then ((emits_freshLabel _).then ((emits_freshLabel _).then ?_))
  refine Emits.switch (hleft.bind hopen₁ ?_) (.jump p.labels)
  refine (emits_currentLabel hlabel₁).then (Emits.switch (hright.bind hopen₂ ?_)
    (.branch a (p.labels + 2) (p.labels + 1)))
  exact (emits_currentLabel hlabel₂).then (hphi.switch (.jump (p.labels + 2)))

/-- The code of an operator that evaluates both sides, from the code of its sides. -/
theorem emits_operator {op : BinaryOp} {id : NodeId} {left right : Lowering Operand}
    {p₁ p₂ : Point} {a b : Operand} {t : StorageType} {code₁ code₂ : List Instruction}
    {instruction : Operand → Instruction} (hleft : Emits left p a code₁ p₁)
    (hopen₁ : CodeOpen code₁) (hright : Emits right p₁ b code₂ p₂) (hopen₂ : CodeOpen code₂)
    (hcode : OperatorCode site id a b op t instruction) (span : Span) :
    Emits (op.lower site id span left right) p (p₂.fresh t)
      (code₁ ++ (code₂ ++ [instruction (p₂.fresh t)])) p₂.next := by
  cases hcode with
  | and =>
      refine hleft.bind hopen₁ (hright.bind hopen₂ ((emits_temp .bool p₂).then ?_))
      exact (emits_emit rfl _).finally rfl (emits_pure _ _)
  | arith op q htype hinteger =>
      have hstorage : site.symbols.storageType (.primitive q) = .ok (.int q.bits q.isSigned) := by
        cases q <;> simp_all [SymbolTable.storageType, Primitive.isInteger]
      refine hleft.bind hopen₁ (hright.bind hopen₂ ((emits_typeOf htype span p₂).then ?_))
      refine (emits_storage hstorage p₂).then ((emits_temp _ p₂).then ?_)
      exact (emits_emit rfl _).finally rfl (emits_pure _ _)
  | compare =>
      refine hleft.bind hopen₁ (hright.bind hopen₂ ((emits_temp .bool p₂).then ?_))
      exact (emits_emit rfl _).finally rfl (emits_pure _ _)

/-- A whole number is a constant of its type. -/
theorem emits_int {id : NodeId} {q : Primitive} (n : Nat) (span : Span) (p : Point)
    (htype : site.ctx.bindings.type? id = some (.primitive q)) (hinteger : q.isInteger = true) :
    (Task.value (.literal id (.int n) span)).Emits site p [.const n (.int q.bits q.isSigned)] []
      p := by
  have hstorage : site.symbols.storageType (.primitive q) = .ok (.int q.bits q.isSigned) := by
    cases q <;> simp_all [SymbolTable.storageType, Primitive.isInteger]
  exact Emits.map some ((emits_typeOf htype span p).then ((emits_storage hstorage p).then
    (emits_pure _ p)))

/-- A string literal is a pointer into its constant, which is recorded. -/
theorem emits_string {id : NodeId} {symbol : SymbolId} {entry : LiteralEntry} (span : Span)
    (p : Point) (hsymbol : site.ctx.bindings.symbol? id = some symbol)
    (hentry : site.symbols.literal? symbol = some entry) :
    (Task.value (.literal id (.string entry.text) span)).Emits site p [p.fresh (.pointer .int8)]
      [.elementPtr (p.fresh (.pointer .int8)) (.global entry.globalName
        (.pointer (.array .int8 (Text.byteLength entry.text.toList + 1)))) [0, 0]]
      (p.next.record symbol (p.fresh (.pointer .int8))) := by
  refine Emits.map some ((emits_symbolOf hsymbol .stringLiteral span p).then ?_)
  simp only [hentry]
  have hstorage : site.symbols.storageType entry.storage =
      .ok (.array .int8 (Text.byteLength entry.text.toList + 1)) := rfl
  refine (emits_storage hstorage p).then ((emits_temp (.pointer .int8) p).then ?_)
  refine (emits_emit rfl _).finally rfl ?_
  exact (emits_record symbol (p.fresh (.pointer .int8)) p.next).then (emits_pure _ _)

/-- The address of a member, from the pointer to its object. -/
theorem emits_member {id : NodeId} {object : Expr} {ident : Ident} {span : Span}
    {record field : SymbolId} {index : Nat} {t : StorageType} {p₁ : Point} {base : Operand}
    {code : List Instruction} (hsymbol : site.ctx.bindings.symbol? id = some field)
    (hfield : site.symbols.FieldAt record field index t)
    (hbase : (Task.base object).Emits site p [base] code p₁) (hopen : CodeOpen code) :
    (Task.address (.member id object ident span)).Emits site p [p₁.fresh (.pointer t)]
      (code ++ [.elementPtr (p₁.fresh (.pointer t)) base [0, index]]) p₁.next := by
  obtain ⟨a, ty, ha, htype, hemits⟩ := hbase
  cases ha
  refine ⟨_, rfl, (emits_symbolOf hsymbol .field _ _).then ((emits_typeOf htype _ _).then ?_)⟩
  cases hpointer : ty.isPointer with
  | true =>
      simp only [hpointer, if_true] at hemits ⊢
      exact hemits.bind hopen (emits_fieldAddress hfield _ _)
  | false =>
      simp only [hpointer] at hemits ⊢
      exact hemits.bind hopen (emits_fieldAddress hfield _ _)

/-- The receiver of the function, for a method of its class or of an ancestor. -/
theorem emits_self {actual owner : SymbolId} {a : Operand} (howner : site.owner = some actual)
    (hcast : Upcasts site actual owner (.named selfName (site.symbols.receiverType actual)) p a r
      p') : (Task.receiver none (some owner)).Emits site p [a] r.code p' := by
  intro span
  have hsource : Emits (receiverSource site span none) p
      (.named selfName (site.symbols.receiverType actual), site.owner) [] p :=
    (emits_receiver howner span p).then (emits_pure _ p)
  refine hsource.then ?_
  rw [howner]
  exact (emits_upcast hcast).finally hcast.codeOpen (emits_pure _ _)

/-- An object in front of a call, for a method of its class or of an ancestor. -/
theorem emits_object {object : Expr} {actual owner : SymbolId} {p₁ p₂ : Point} {a b : Operand}
    {r₁ r₂ : Region}
    (htype : site.ctx.bindings.type? object.id = some (.pointer (.classType actual)))
    (hvalue : ClassLang.Emits (object.lower site) p (some a) r₁.code p₁)
    (hopen : CodeOpen r₁.code) (hcast : Upcasts site actual owner a p₁ b r₂ p₂) :
    (Task.receiver (some object) (some owner)).Emits site p [b] (r₁.seq r₂).code p₂ := by
  intro span
  have h₁ := emits_needed site hvalue hopen object.span
  have hsource : Emits (receiverSource site span (some object)) p (a, some actual) r₁.code p₁ :=
    (emits_typeOf htype object.span p).then (h₁.finally hopen (emits_pure _ _))
  refine hsource.bind hopen ?_
  exact (emits_upcast hcast).finally hcast.codeOpen (emits_pure _ _)

/-- **Expressions are lowered by the rules.** -/
theorem Lowers.emits {task : Task} {ops : List Operand}
    (h : Lowers site params own vars task p ops r p') : task.Emits site p ops r.code p' := by
  induction h with
  | bool id b span p => exact (emits_pure (Operand.ofBool b) p).map some
  | int span p htype hinteger hfits => exact emits_int _ span p htype hinteger
  | string span p hsymbol hentry htext hvar =>
      subst htext
      exact emits_string span p hsymbol hentry
  | argument ident p hsymbol hentry hpointer hty hparam =>
      refine Emits.map some ((emits_symbolOf hsymbol .symbol ident.span p).then ?_)
      simp only [hentry, hpointer, if_true]
      exact (emits_storage hty p).then (emits_pure _ p)
  | load haddress hty ih =>
      obtain ⟨a, ha, hemits⟩ := ih
      cases ha
      exact emits_lower_of_address haddress hemits hty
  | or hleft hright ha hb ih₁ ih₂ =>
      have h₁ := emits_needed site ih₁ hleft.codeOpen
      have h₂ := emits_needed site ih₂ hright.codeOpen
      exact (emits_shortCircuit (h₁ _) hleft.through (h₂ _) hright.through).map some
  | operator hleft hright hcode ih₁ ih₂ =>
      have h₁ := emits_needed site ih₁ hleft.codeOpen
      have h₂ := emits_needed site ih₂ hright.codeOpen
      exact (emits_operator (h₁ _) hleft.codeOpen (h₂ _) hright.codeOpen hcode _).map some
  | assign hvalue haddress hty ih₁ ih₂ =>
      obtain ⟨a, ha, h₂⟩ := ih₂
      cases ha
      have h₁ := emits_needed site ih₁ hvalue.codeOpen
      refine (h₁ _).bind hvalue.codeOpen (h₂.bind haddress.codeOpen ?_)
      exact (emits_emit rfl _).finally rfl (emits_pure _ _)
  | call hcall hsymbol hentry hsignature hself hvalues htakes hcallable ih₁ ih₂ =>
      have hhead : ∀ o : Option Operand, o.toList.head? = o := by
        intro o
        cases o <;> rfl
      simp only [Task.Emits, hhead]
      cases hcall with
      | call id callee args span =>
          exact emits_lowerCall hsymbol hentry hsignature (ih₁ span) hself.codeOpen ih₂
            hvalues.codeOpen
      | methodCall id object callee args span =>
          exact emits_lowerCall hsymbol hentry hsignature (ih₁ span) hself.codeOpen ih₂
            hvalues.codeOpen
  | stored ident hsymbol hentry hstored hvar hcurrent hty =>
      refine ⟨_, rfl, (emits_symbolOf hsymbol .symbol ident.span _).then ?_⟩
      exact emits_symbolAddress_stored hentry hstored hcurrent ident.span
  | ownField ident p hsymbol howner hself hfield =>
      refine ⟨_, rfl, (emits_symbolOf hsymbol .symbol ident.span _).then ?_⟩
      exact emits_symbolAddress_field howner hfield ident.span p
  | member hsymbol hbase hty hfield ih => exact emits_member hsymbol hfield ih hbase.codeOpen
  | @basePointer object ty p p₁ base r htype hpointer hvalue ih =>
      refine ⟨base, ty, rfl, htype, ?_⟩
      simpa [hpointer] using emits_needed site ih hvalue.codeOpen object.span
  | @basePlace object ty p p₁ base r htype hplace haddress ih =>
      obtain ⟨a, ha, hemits⟩ := ih
      cases ha
      refine ⟨base, ty, rfl, htype, ?_⟩
      simpa [hplace] using hemits
  | free p => exact fun _ => emits_pure [] p
  | self howner hself hinherits hcast => exact emits_self howner hcast
  | object htype hvalue hty hinherits hcast ih => exact emits_object htype ih hvalue.codeOpen hcast
  | nil p => exact emits_pure [] p
  | cons hvalue hvalues ih₁ ih₂ =>
      have h₁ := emits_needed site ih₁ hvalue.codeOpen
      exact (h₁ _).bind hvalue.codeOpen (ih₂.finally hvalues.codeOpen (emits_pure _ _))

end ClassLang
