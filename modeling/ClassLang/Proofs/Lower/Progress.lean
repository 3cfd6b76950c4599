import ClassLang.Proofs.Lower.Complete
import ClassLang.Proofs.Lower.Emission
import Mathlib.Data.List.Forall2

/-!
# Typed trees can be lowered

For every typed expression or statement there is a derivation by the rules of lowering
(`Typed.lowers`, `TypedStmt.lowers`), and the operands have the storage types of what they
compute.  What links the two sets of rules is `Located`: everything that can be seen from a
place in the tree is found from the point that the lowering stands at.
-/

namespace ClassLang

variable {site : Site} {params : List (String × StorageType)} {own : List SymbolId}
  {vars : List SymbolId}
  {view : View} {n : Nat} {p p' : Point} {r : Region}

theorem AddressBook.current_congr {book book' : AddressBook} {symbol : SymbolId}
    {symbols : SymbolTable} {a : Operand} (h : book'.locations symbol = book.locations symbol)
    (ha : book.current symbol symbols = .ok a) : book'.current symbol symbols = .ok a := by
  unfold AddressBook.current at ha ⊢
  rw [h]
  split at ha
  · exact ha
  · cases ha

/-- Expressions only record where literals are. -/
theorem Lowers.locations {task : Task} {ops : List Operand}
    (h : Lowers site params own vars task p ops r p') {v : SymbolId}
    (hv : v ∈ vars ∨ site.symbols.literal? v = none) :
    p'.addresses.locations v = p.addresses.locations v := by
  induction h with
  | bool | int | argument | stored | free | nil => rfl
  | ownField => rfl
  | @string id text symbol entry span p hsymbol hentry htext hvar =>
      refine p.addresses.locations_record_of_ne _ ?_
      rintro rfl
      rcases hv with hv | hv
      · exact hvar hv
      · simp [hentry] at hv
  | load _ _ ih => exact ih
  | or _ _ _ _ ih₁ ih₂ => exact ih₂.trans ih₁
  | operator _ _ _ ih₁ ih₂ => exact ih₂.trans ih₁
  | assign _ _ _ ih₁ ih₂ => exact ih₂.trans ih₁
  | @call e id callee object args function entry signature names p p₁ p₂ self values r₁ r₂ hcall
      hsymbol hentry hsignature hself hvalues htakes hcallable ih₁ ih₂ =>
      have hresult : (p₂.afterResult signature.returnType).addresses = p₂.addresses := by
        unfold Point.afterResult
        split <;> rfl
      rw [hresult, ih₂, ih₁]
  | member _ _ _ _ ih => exact ih
  | basePointer _ _ _ ih => exact ih
  | basePlace _ _ _ ih => exact ih
  | self _ _ _ hcast => cases hcast <;> rfl
  | object _ _ _ _ hcast ih => cases hcast <;> exact ih
  | cons _ _ ih₁ ih₂ => exact ih₂.trans ih₁

/-- Everything that can be seen from a place in a function is found by an address book:
pointers among the parameters, and everything else in storage.  Variables from number `n`
on are still unknown. -/
structure Located (site : Site) (params : List (String × StorageType)) (own : List SymbolId)
    (view : View) (vars : List SymbolId) (n : Nat) (book : AddressBook) : Prop where
  owner : site.owner = view.owner
  receiver : ∀ c, view.owner = some c → (selfName, site.symbols.receiverType c) ∈ params
  pointers : ∀ v ∈ view.visible, ∀ entry t, site.symbols.get? v = some (.argument entry) →
    entry.ty.isPointer = true → site.symbols.storageType entry.ty = .ok t →
    (entry.name, t) ∈ params ∧ (v ∈ own ∨ entry.name = selfName ∧ site.owner.isSome = true)
  stored : ∀ v ∈ view.visible, ∀ entry, site.symbols.storedVariable? v = some entry →
    ¬ site.symbols.PointerArgument v → v ∈ vars ∧ ∃ m t,
      site.symbols.storageType entry.ty = .ok t ∧
      book.current v site.symbols = .ok (.temp m (.pointer t))
  earlier : ∀ v ∈ vars, v < n ∧ site.symbols.literal? v = none
  unknown : ∀ v, n ≤ v → site.symbols.literal? v = none → book.locations v = []

/-- What was found is still found where the variables have not moved. -/
theorem Located.keep {book book' : AddressBook} {n' : Nat}
    (h : Located site params own view vars n book) (hn : n ≤ n')
    (hvars : ∀ v ∈ vars, ∀ a, book.current v site.symbols = .ok a →
      book'.current v site.symbols = .ok a)
    (hunknown : ∀ v, n' ≤ v → site.symbols.literal? v = none → book'.locations v = []) :
    Located site params own view vars n' book' where
  owner := h.owner
  receiver := h.receiver
  pointers := h.pointers
  stored v hv entry hentry hpointer := by
    obtain ⟨hmem, m, t, ht, hcurrent⟩ := h.stored v hv entry hentry hpointer
    exact ⟨hmem, m, t, ht, hvars v hmem _ hcurrent⟩
  earlier v hv := ⟨Nat.lt_of_lt_of_le (h.earlier v hv).1 hn, (h.earlier v hv).2⟩
  unknown := hunknown

theorem Located.lowers {task : Task} {ops : List Operand}
    (h : Located site params own view vars n p.addresses)
    (hlowers : Lowers site params own vars task p ops r p') :
    Located site params own view vars n p'.addresses := by
  refine h.keep (Nat.le_refl n) (fun v hv a ha => ?_) fun v hn hliteral => ?_
  · exact AddressBook.current_congr (hlowers.locations (.inl hv)) ha
  · rw [hlowers.locations (.inr hliteral), h.unknown v hn hliteral]

/-! ## Expressions -/

/-- An operand has the storage type of a type. -/
def SymbolTable.Holds (table : SymbolTable) (ty : Ty) (a : Operand) : Prop :=
  table.storageType ty = .ok a.ty

/-- An operand points to storage for a type. -/
def SymbolTable.PointsTo (table : SymbolTable) (ty : Ty) (a : Operand) : Prop :=
  ∃ t, table.storageType ty = .ok t ∧ a.ty = .pointer t

/-- The operands of a task fit the types of what it computes; there is none for `void`. -/
def Task.Fits (table : SymbolTable) : Task → List Ty → List Operand → Prop
  | .value _, types, ops => List.Forall₂ table.Holds (types.filter fun ty => !ty.isVoid) ops
  | .address _, types, ops | .base _, types, ops => List.Forall₂ table.PointsTo types ops
  | .receiver _ _, types, ops | .values _, types, ops => List.Forall₂ table.Holds types ops

/-- A string literal is bound to the storage of its text. -/
def Expr.TextBound (ctx : Context) : Expr → Prop
  | .literal id (.string text) _ => ctx.HoldsText id text
  | _ => True

section

variable {table : SymbolTable} {ty : Ty} {e : Expr} {ops : List Operand} {a : Operand}

theorem Task.fits_value (h : ty.isVoid = false) :
    (Task.value e).Fits table [ty] ops ↔ ∃ a, ops = [a] ∧ table.Holds ty a := by
  simp [Task.Fits, h, List.forall₂_cons_left_iff, and_comm]

theorem Task.fits_void (h : ty.isVoid = true) :
    (Task.value e).Fits table [ty] ops ↔ ops = [] := by
  simp [Task.Fits, h, List.forall₂_nil_left_iff]

theorem Task.fits_address :
    (Task.address e).Fits table [ty] ops ↔ ∃ a, ops = [a] ∧ table.PointsTo ty a := by
  simp [Task.Fits, List.forall₂_cons_left_iff, and_comm]

theorem Task.fits_base :
    (Task.base e).Fits table [ty] ops ↔ ∃ a, ops = [a] ∧ table.PointsTo ty a := by
  simp [Task.Fits, List.forall₂_cons_left_iff, and_comm]

theorem SymbolTable.storageType_integer (table : SymbolTable) {q : Primitive}
    (h : q.isInteger = true) :
    table.storageType (.primitive q) = .ok (.int q.bits q.isSigned) := by
  cases q <;> first | rfl | simp [Primitive.isInteger] at h

theorem Primitive.isVoid_integer {q : Primitive} (h : q.isInteger = true) :
    (Ty.primitive q).isVoid = false := by
  cases q <;> first | rfl | simp [Primitive.isInteger] at h

theorem SymbolTable.holds_pointer : table.Holds (.pointer ty) a ↔ table.PointsTo ty a := by
  unfold SymbolTable.Holds SymbolTable.PointsTo
  rw [SymbolTable.storageType]
  cases table.storageType ty with
  | error e => simp [bind, Except.bind]
  | ok t => simp [bind, Except.bind, pure, Except.pure, eq_comm]

/-- A pointer to a record points to a receiver. -/
theorem SymbolTable.PointsTo.record {record : SymbolId} (h : table.PointsTo ty a)
    (hrecord : ty = .classType record ∨ ty = .structType record) :
    a.ty = table.receiverType record := by
  obtain ⟨t, ht, hty⟩ := h
  rcases hrecord with rfl | rfl <;> (cases ht; exact hty)

end

/-- A program that succeeds at each element of a list succeeds at the list. -/
theorem List.mapM_ok {α β ε : Type} {f : α → Except ε β} {R : α → β → Prop} {l : List α}
    (h : ∀ a ∈ l, ∃ b, f a = .ok b ∧ R a b) : ∃ bs, l.mapM f = .ok bs ∧ List.Forall₂ R l bs := by
  induction l with
  | nil => exact ⟨[], rfl, .nil⟩
  | cons a rest ih =>
      obtain ⟨b, hb, hr⟩ := h a (List.mem_cons_self ..)
      obtain ⟨bs, hbs, hall⟩ := ih fun a' ha' => h a' (List.mem_cons_of_mem _ ha')
      exact ⟨b :: bs, by rw [List.mapM_cons, hb, hbs]; rfl, .cons hr hall⟩

/-- A function that is known has a signature. -/
theorem SymbolTable.signature_eq {table : SymbolTable} (hok : table.Ok) {id : SymbolId}
    {entry : FunctionEntry} (hentry : table.function? id = some entry)
    (hresolved : entry.resolved = true) :
    ∃ ret types, table.storageType entry.returnType = .ok ret ∧
      ret.isVoid = entry.returnType.isVoid ∧
      List.Forall₂ (fun ty t => table.storageType ty = .ok t) (table.parameterTypes entry) types ∧
      table.signature id = .ok (⟨ret, (entry.owner.map table.receiverType).toList ++ types,
        entry.traits.variadic⟩, table.parameterNames entry) := by
  obtain ⟨hknown, hlistable⟩ := hok.function hentry hresolved
  obtain ⟨ret, hret, hvoid⟩ := hknown.storageType
  have harguments : table.arguments id = table.declaredArguments entry := by
    simp [SymbolTable.arguments, hentry]
  obtain ⟨types, htypes, hall⟩ := List.mapM_ok (l := table.declaredArguments entry)
    (f := fun a => table.storageType (table.symbolType a))
    (R := fun a t => table.storageType (table.symbolType a) = .ok t) fun a ha => by
      obtain ⟨ha, hmark⟩ := List.mem_filter.1 ha
      rcases hlistable a ha with h | ⟨v, hv⟩
      · simp [h] at hmark
      · have hstored : table.storedVariable? a = some v := by
          simp [SymbolTable.storedVariable?, hv, Symbol.storedVariable?]
        obtain ⟨t, ht, -⟩ := (hok.storable hstored).1.storageType
        have hty : table.storageType (table.symbolType a) = .ok t := by
          simpa [SymbolTable.symbolType, hv] using ht
        exact ⟨t, hty, hty⟩
  refine ⟨ret, types, hret, hvoid, List.forall₂_map_left_iff.2 hall, ?_⟩
  simp only [SymbolTable.signature, hentry, harguments, htypes, hret, SymbolTable.parameterNames]
  cases entry.owner <;> rfl

/-- What the rules of lowering find in the table of a complete script. -/
structure SymbolTable.Lowerable (table : SymbolTable) : Prop where
  ok : table.Ok
  resolved : table.Resolved
  placed : table.Placed

/-- The receiver of a call, as an object of the class that declares the function. -/
theorem upcasts_exists (site : Site) (actual owner : SymbolId) {receiver : Operand} (p : Point)
    (hty : receiver.ty = site.symbols.receiverType actual) :
    ∃ a r p', Upcasts site actual owner receiver p a r p' ∧
      a.ty = site.symbols.receiverType owner := by
  by_cases h : actual = owner
  · subst h
    exact ⟨receiver, .empty, p, .same rfl, hty⟩
  · exact ⟨_, _, _, .cast h, rfl⟩

/-- Storage types of parameters are the types of the first arguments. -/
theorem SymbolTable.storageTypes_front {table : SymbolTable} {params types : List Ty}
    {stored : List StorageType} {values : List Operand}
    (hstored : List.Forall₂ (fun ty t => table.storageType ty = .ok t) params stored)
    (hvalues : List.Forall₂ table.Holds types values) (hparams : params <+: types) :
    stored <+: values.map Operand.ty := by
  induction hstored generalizing types values with
  | nil => exact List.nil_prefix
  | cons ht _ ih =>
      cases hvalues with
      | nil => simp at hparams
      | cons hv hrest =>
          obtain ⟨rfl, hmore⟩ := List.cons_prefix_cons.1 hparams
          rw [List.map_cons, List.cons_prefix_cons]
          exact ⟨Except.ok.inj (ht.symm.trans hv), ih hrest hmore⟩

/-- The arguments of a call have the types that the signature wants. -/
theorem SymbolTable.takes {table : SymbolTable} {owner : Option SymbolId} {variadic : Bool}
    {self values : List Operand} {params types : List Ty} {stored : List StorageType}
    (ret : StorageType) (hself : self.map Operand.ty = (owner.map table.receiverType).toList)
    (hvalues : List.Forall₂ table.Holds types values)
    (hstored : List.Forall₂ (fun ty t => table.storageType ty = .ok t) params stored)
    (hparams : params <+: types) (hcount : variadic = false → types.length = params.length) :
    Signature.Takes ⟨ret, (owner.map table.receiverType).toList ++ stored, variadic⟩
      ((self ++ values).map Operand.ty) := by
  rw [List.map_append, hself]
  refine ⟨(List.prefix_append_right_inj _).2 (storageTypes_front hstored hvalues hparams),
    fun h => ?_⟩
  simp only [List.length_append, List.length_map, ← hvalues.length_eq, ← hstored.length_eq,
    hcount h]

/-- The operand of a receiver points to an object of the class that declares the function. -/
theorem Typed.receiver_types {ctx : Context} {object : Option Expr} {owner : Option SymbolId}
    {types : List Ty} {table : SymbolTable} {ops : List Operand}
    (h : Typed ctx view (.receiver object owner) types)
    (hfits : (Task.receiver object owner).Fits table types ops) :
    ops.map Operand.ty = (owner.map table.receiverType).toList := by
  cases h with
  | free =>
      cases hfits
      rfl
  | self _ _ =>
      obtain ⟨a, hrest, ha, hnil, rfl⟩ := List.forall₂_cons_left_iff.1 hfits
      cases hnil
      simp [(SymbolTable.holds_pointer.1 ha).record (.inl rfl)]
  | object _ _ _ =>
      obtain ⟨a, hrest, ha, hnil, rfl⟩ := List.forall₂_cons_left_iff.1 hfits
      cases hnil
      simp [(SymbolTable.holds_pointer.1 ha).record (.inl rfl)]

/-! ## One rule at a time -/

/-- A task can be lowered at every point where all that it can see is located, and the operands
fit the types of what it computes. -/
def Task.CanLower (site : Site) (params : List (String × StorageType)) (own : List SymbolId)
    (view : View) (vars : List SymbolId) (n : Nat) (task : Task) (types : List Ty) : Prop :=
  ∀ ⦃p : Point⦄, Located site params own view vars n p.addresses →
    ∃ ops r p', Lowers site params own vars task p ops r p' ∧ task.Fits site.symbols types ops

/-- The instruction for operands of an operator that evaluates both sides. -/
theorem OperatorType.code {op : BinaryOp} {operand ty : Ty} (hop : OperatorType op operand ty)
    {id : NodeId} (htype : site.ctx.bindings.type? id = some ty) {left right : Expr}
    {ops₁ ops₂ : List Operand} (hfits₁ : (Task.value left).Fits site.symbols [operand] ops₁)
    (hfits₂ : (Task.value right).Fits site.symbols [operand] ops₂) :
    ∃ a b t instruction, ops₁ = [a] ∧ ops₂ = [b] ∧ OperatorCode site id a b op t instruction ∧
      ty.isVoid = false ∧ site.symbols.storageType ty = .ok t := by
  cases hop with
  | and =>
      obtain ⟨a, rfl, ha⟩ := (Task.fits_value rfl).1 hfits₁
      obtain ⟨b, rfl, hb⟩ := (Task.fits_value rfl).1 hfits₂
      exact ⟨a, b, _, _, rfl, rfl, .and (Except.ok.inj ha).symm (Except.ok.inj hb).symm, rfl, rfl⟩
  | arith op q hinteger =>
      have hnonvoid := Primitive.isVoid_integer hinteger
      have hstorage := site.symbols.storageType_integer hinteger
      obtain ⟨a, rfl, ha⟩ := (Task.fits_value hnonvoid).1 hfits₁
      obtain ⟨b, rfl, hb⟩ := (Task.fits_value hnonvoid).1 hfits₂
      exact ⟨a, b, _, _, rfl, rfl, .arith op q htype hinteger
        (Except.ok.inj (ha.symm.trans hstorage)) (Except.ok.inj (hb.symm.trans hstorage)),
        hnonvoid, hstorage⟩
  | compare op q hinteger =>
      have hnonvoid := Primitive.isVoid_integer hinteger
      have hstorage := site.symbols.storageType_integer hinteger
      obtain ⟨a, rfl, ha⟩ := (Task.fits_value hnonvoid).1 hfits₁
      obtain ⟨b, rfl, hb⟩ := (Task.fits_value hnonvoid).1 hfits₂
      exact ⟨a, b, _, _, rfl, rfl, .compare op q.bits q.isSigned
        (Except.ok.inj (ha.symm.trans hstorage)) (Except.ok.inj (hb.symm.trans hstorage)),
        rfl, rfl⟩

namespace Task.CanLower

variable {id : NodeId} {left right target value : Expr} {span : Span} {ty : Ty}

/-- A string literal is the address of the text that it is bound to. -/
theorem string {text : String} (htext : site.ctx.HoldsText id text) :
    CanLower site params own view vars n (.value (.literal id (.string text) span))
      [.pointer .int8] := by
  intro p hlocated
  obtain ⟨symbol, entry, hsymbol, hentry, htext⟩ := htext
  have hvar : symbol ∉ vars := fun hmem => by
    have hnone := (hlocated.earlier symbol hmem).2
    rw [show site.symbols.literal? symbol = some entry from hentry] at hnone
    cases hnone
  exact ⟨_, _, _, .string span p hsymbol hentry htext hvar, (Task.fits_value rfl).2 ⟨_, rfl, rfl⟩⟩

/-- A pointer among the arguments is a parameter of the code. -/
theorem argument (htable : site.symbols.Lowerable) {symbol : SymbolId} {entry : VariableEntry}
    (ident : Ident) (hsymbol : site.ctx.bindings.symbol? id = some symbol)
    (hentry : site.symbols.get? symbol = some (.argument entry))
    (hpointer : entry.ty.isPointer = true) (hvisible : symbol ∈ view.visible) :
    CanLower site params own view vars n (.value (.name id ident)) [entry.ty] := by
  intro p hlocated
  have hstored : site.symbols.storedVariable? symbol = some entry := by
    simp [SymbolTable.storedVariable?, hentry, Symbol.storedVariable?]
  have hstorable := htable.ok.storable hstored
  obtain ⟨t, ht, -⟩ := hstorable.1.storageType
  obtain ⟨hparam, hown⟩ := hlocated.pointers symbol hvisible entry t hentry hpointer ht
  exact ⟨_, _, _, .argument ident p hsymbol hentry hpointer ht hparam hown,
    (Task.fits_value hstorable.2).2 ⟨_, rfl, ht⟩⟩

/-- A disjunction needs `bool` on both sides. -/
theorem or (ih₁ : CanLower site params own view vars n (.value left) [.bool])
    (ih₂ : CanLower site params own view vars n (.value right) [.bool]) :
    CanLower site params own view vars n (.value (.binary id .or left right span)) [.bool] := by
  intro p hlocated
  obtain ⟨ops₁, r₁, p₁, hlowers₁, hfits₁⟩ := ih₁ (p := (p.issue 3).enter p.labels) hlocated
  have hlocated₁ : Located site params own view vars n p₁.addresses :=
    Located.lowers (p := (p.issue 3).enter p.labels) hlocated hlowers₁
  obtain ⟨ops₂, r₂, p₂, hlowers₂, hfits₂⟩ := ih₂ (p := p₁.enter (p.labels + 1)) hlocated₁
  obtain ⟨a, rfl, ha⟩ := (Task.fits_value rfl).1 hfits₁
  obtain ⟨b, rfl, hb⟩ := (Task.fits_value rfl).1 hfits₂
  refine ⟨_, _, _, .or hlowers₁ hlowers₂ (Except.ok.inj ha).symm (Except.ok.inj hb).symm, ?_⟩
  exact (Task.fits_value rfl).2 ⟨_, rfl, rfl⟩

/-- The other operators need two sides of the type that they work on. -/
theorem operator {op : BinaryOp} {operand : Ty} (htype : site.ctx.bindings.type? id = some ty)
    (hop : OperatorType op operand ty)
    (ih₁ : CanLower site params own view vars n (.value left) [operand])
    (ih₂ : CanLower site params own view vars n (.value right) [operand]) :
    CanLower site params own view vars n (.value (.binary id op left right span)) [ty] := by
  intro p hlocated
  obtain ⟨ops₁, r₁, p₁, hlowers₁, hfits₁⟩ := ih₁ hlocated
  obtain ⟨ops₂, r₂, p₂, hlowers₂, hfits₂⟩ := ih₂ (hlocated.lowers hlowers₁)
  obtain ⟨a, b, t, instruction, rfl, rfl, hcode, hvoid, hstorage⟩ := hop.code htype hfits₁ hfits₂
  exact ⟨_, _, _, .operator hlowers₁ hlowers₂ hcode,
    (Task.fits_value hvoid).2 ⟨_, rfl, hstorage⟩⟩

/-- An assignment needs a value of the type that its target stores. -/
theorem assign (hstorable : ty.Storable site.symbols)
    (ih₁ : CanLower site params own view vars n (.value value) [ty])
    (ih₂ : CanLower site params own view vars n (.address target) [ty]) :
    CanLower site params own view vars n (.value (.assign id target value span)) [.void] := by
  intro p hlocated
  obtain ⟨ops₁, r₁, p₁, hlowers₁, hfits₁⟩ := ih₁ hlocated
  obtain ⟨ops₂, r₂, p₂, hlowers₂, hfits₂⟩ := ih₂ (hlocated.lowers hlowers₁)
  obtain ⟨a, rfl, ha⟩ := (Task.fits_value hstorable.2).1 hfits₁
  obtain ⟨b, rfl, t, ht, hty⟩ := Task.fits_address.1 hfits₂
  cases ha.symm.trans ht
  exact ⟨_, _, _, .assign hlowers₁ hlowers₂ hty, (Task.fits_void rfl).2 rfl⟩

/-- A call needs a receiver and arguments that fit the signature. -/
theorem call (htable : site.symbols.Lowerable) {e : Expr} {callee : Ident}
    {object : Option Expr} {args : List Expr} {function : SymbolId} {entry : FunctionEntry}
    {selfTypes types : List Ty} (hcall : e.IsCall id callee object args)
    (hsymbol : site.ctx.bindings.symbol? id = some function)
    (hentry : site.symbols.function? function = some entry) (hresolved : entry.resolved = true)
    (hself : Typed site.ctx view (.receiver object entry.owner) selfTypes)
    (hparams : site.symbols.parameterTypes entry <+: types)
    (hcount : entry.traits.variadic = false →
      types.length = (site.symbols.parameterTypes entry).length)
    (hcallable : site.symbols.Callable function)
    (ih₁ : CanLower site params own view vars n (.receiver object entry.owner) selfTypes)
    (ih₂ : CanLower site params own view vars n (.values args) types) :
    CanLower site params own view vars n (.value e) [entry.returnType] := by
  intro p hlocated
  obtain ⟨ops₁, r₁, p₁, hlowers₁, hfits₁⟩ := ih₁ hlocated
  obtain ⟨ops₂, r₂, p₂, hlowers₂, hfits₂⟩ := ih₂ (hlocated.lowers hlowers₁)
  obtain ⟨ret, stored, hret, hvoid, hstored, hsignature⟩ :=
    SymbolTable.signature_eq htable.ok hentry hresolved
  have hselfTypes := hself.receiver_types hfits₁
  refine ⟨_, _, _, .call hcall hsymbol hentry hsignature hlowers₁ hlowers₂
    (SymbolTable.takes ret hselfTypes hfits₂ hstored hparams hcount) hcallable, ?_⟩
  cases hempty : entry.returnType.isVoid with
  | true => simp [Task.fits_void hempty, Point.result, hvoid, hempty]
  | false =>
      refine (Task.fits_value hempty).2 ⟨p₂.fresh ret, ?_, hret⟩
      simp [Point.result, hvoid, hempty]

/-- A member needs an object of the record that stores the field. -/
theorem member (htable : site.symbols.Lowerable) {object : Expr} {ident : Ident}
    {record field : SymbolId} {entry : FieldEntry}
    (hsymbol : site.ctx.bindings.symbol? id = some field)
    (hrecord : ty = .classType record ∨ ty = .structType record)
    (hstores : site.symbols.Stores record field) (hentry : site.symbols.field? field = some entry)
    (ih : CanLower site params own view vars n (.base object) [ty]) :
    CanLower site params own view vars n (.address (.member id object ident span))
      [entry.ty] := by
  intro p hlocated
  obtain ⟨ops, r, p₁, hlowers, hfits⟩ := ih hlocated
  obtain ⟨a, rfl, hpoints⟩ := Task.fits_base.1 hfits
  obtain ⟨index, t, hfield, ht⟩ := htable.placed.fields record field entry hstores hentry
  exact ⟨_, _, _, .member hsymbol hlowers (hpoints.record hrecord) hfield,
    Task.fits_address.2 ⟨_, rfl, t, ht, rfl⟩⟩

/-- The receiver of a function is handed on to the methods that it calls. -/
theorem self {actual owner : SymbolId} (howner : view.owner = some actual)
    (hinherits : site.symbols.Inherits actual owner) :
    CanLower site params own view vars n (.receiver none (some owner))
      [.pointer (.classType owner)] := by
  intro p hlocated
  obtain ⟨a, r, p₁, hcast, hty⟩ := upcasts_exists site actual owner p
    (rfl : (Operand.named selfName (site.symbols.receiverType actual)).ty = _)
  refine ⟨_, _, _, .self (hlocated.owner.trans howner) (hlocated.receiver actual howner)
    hinherits hcast, .cons ?_ .nil⟩
  exact SymbolTable.holds_pointer.2 ⟨_, rfl, hty⟩

/-- An object is a receiver for the methods of its ancestors. -/
theorem object {object : Expr} {actual owner : SymbolId}
    (htype : site.ctx.bindings.type? object.id = some (.pointer (.classType actual)))
    (hinherits : site.symbols.Inherits actual owner)
    (ih : CanLower site params own view vars n (.value object) [.pointer (.classType actual)]) :
    CanLower site params own view vars n (.receiver (some object) (some owner))
      [.pointer (.classType owner)] := by
  intro p hlocated
  obtain ⟨ops, r, p₁, hlowers, hfits⟩ := ih hlocated
  obtain ⟨a, rfl, ha⟩ := (Task.fits_value rfl).1 hfits
  have hactual := (SymbolTable.holds_pointer.1 ha).record (.inl rfl)
  obtain ⟨b, r', p₂, hcast, hty⟩ := upcasts_exists site actual owner p₁ hactual
  refine ⟨_, _, _, .object htype hlowers hactual hinherits hcast, .cons ?_ .nil⟩
  exact SymbolTable.holds_pointer.2 ⟨_, rfl, hty⟩

/-- An argument in front of others. -/
theorem cons {e : Expr} {rest : List Expr} {types : List Ty} (hvoid : ty.isVoid = false)
    (ih₁ : CanLower site params own view vars n (.value e) [ty])
    (ih₂ : CanLower site params own view vars n (.values rest) types) :
    CanLower site params own view vars n (.values (e :: rest)) (ty :: types) := by
  intro p hlocated
  obtain ⟨ops₁, r₁, p₁, hlowers₁, hfits₁⟩ := ih₁ hlocated
  obtain ⟨ops₂, r₂, p₂, hlowers₂, hfits₂⟩ := ih₂ (hlocated.lowers hlowers₁)
  obtain ⟨a, rfl, ha⟩ := (Task.fits_value hvoid).1 hfits₁
  exact ⟨_, _, _, .cons hlowers₁ hlowers₂, .cons ha hfits₂⟩

end Task.CanLower

/-- **Typed expressions can be lowered.**  The induction is on the typing, and what is located
in front of a task is located behind it as well. -/
theorem Typed.lowers {task : Task} {types : List Ty} (htable : site.symbols.Lowerable)
    (h : Typed site.ctx view task types)
    (htexts : ∀ sub ∈ task.subexprs, sub.TextBound site.ctx) :
    task.CanLower site params own view vars n types := by
  induction h with
  | bool b span =>
      exact fun p _ => ⟨_, _, _, .bool _ b span p, (Task.fits_value rfl).2 ⟨_, rfl, rfl⟩⟩
  | int span htype hinteger hfits =>
      exact fun p _ => ⟨_, _, _, .int span p htype hinteger hfits,
        (Task.fits_value (Primitive.isVoid_integer hinteger)).2
          ⟨_, rfl, site.symbols.storageType_integer hinteger⟩⟩
  | string text span htype => exact .string (htexts _ (Expr.mem_subexprs _))
  | argument ident htype hsymbol hentry hpointer hvisible =>
      exact .argument htable ident hsymbol hentry hpointer hvisible
  | load htype haddress ih =>
      intro p hlocated
      obtain ⟨ops, r, p₁, hlowers, hfits⟩ := ih htexts hlocated
      obtain ⟨a, rfl, t, ht, hty⟩ := Task.fits_address.1 hfits
      have hstorable := haddress.storable htable.ok
      exact ⟨_, _, _, .load hlowers hty, (Task.fits_value hstorable.2).2 ⟨_, rfl, ht⟩⟩
  | or span htype hleft hright ih₁ ih₂ =>
      obtain ⟨htexts₁, htexts₂⟩ := Expr.forall_binary htexts
      exact .or (ih₁ htexts₁) (ih₂ htexts₂)
  | operator span htype hleft hright hop ih₁ ih₂ =>
      obtain ⟨htexts₁, htexts₂⟩ := Expr.forall_binary htexts
      exact .operator htype hop (ih₁ htexts₁) (ih₂ htexts₂)
  | assign span htype htarget hvalue haddress ih₁ ih₂ =>
      obtain ⟨htexts₁, htexts₂⟩ := Expr.forall_assign htexts
      exact .assign (haddress.storable htable.ok) (ih₁ htexts₂) (ih₂ htexts₁)
  | call hcall htype hsymbol hentry hresolved hself hvalues hparams hcount hcallable ih₁ ih₂ =>
      obtain ⟨htexts₁, htexts₂⟩ := hcall.forall_parts htexts _
      exact .call htable hcall hsymbol hentry hresolved hself hparams hcount hcallable
        (ih₁ htexts₁) (ih₂ htexts₂)
  | stored ident hsymbol hentry hstored hvisible =>
      intro p hlocated
      obtain ⟨hvar, m, t, ht, hcurrent⟩ := hlocated.stored _ hvisible _ hentry hstored
      exact ⟨_, _, _, .stored ident hsymbol hentry hstored hvar hcurrent ht,
        Task.fits_address.2 ⟨_, rfl, t, ht, rfl⟩⟩
  | @ownField id owner field entry ident hsymbol howner hstores hentry =>
      intro p hlocated
      obtain ⟨index, t, hfield, ht⟩ := htable.placed.fields owner field entry hstores hentry
      exact ⟨_, _, _, .ownField ident p hsymbol (hlocated.owner.trans howner)
        (hlocated.receiver owner howner) hfield, Task.fits_address.2 ⟨_, rfl, t, ht, rfl⟩⟩
  | member span hsymbol hbase hrecord hstores hentry ih =>
      exact .member htable hsymbol hrecord hstores hentry
        (ih (Expr.forall_member htexts))
  | basePointer htype hvalue ih =>
      intro p hlocated
      obtain ⟨ops, r, p₁, hlowers, hfits⟩ := ih htexts hlocated
      obtain ⟨a, rfl, ha⟩ := (Task.fits_value rfl).1 hfits
      exact ⟨_, _, _, .basePointer htype rfl hlowers,
        Task.fits_base.2 ⟨a, rfl, SymbolTable.holds_pointer.1 ha⟩⟩
  | basePlace htype hplace haddress ih =>
      intro p hlocated
      obtain ⟨ops, r, p₁, hlowers, hfits⟩ := ih htexts hlocated
      obtain ⟨a, rfl, hpoints⟩ := Task.fits_address.1 hfits
      exact ⟨_, _, _, .basePlace htype hplace hlowers, Task.fits_base.2 ⟨a, rfl, hpoints⟩⟩
  | free => exact fun p _ => ⟨_, _, _, .free p, .nil⟩
  | self howner hinherits => exact .self howner hinherits
  | object htype hvalue hinherits ih =>
      exact .object htype hinherits (ih (Task.forall_object htexts))
  | nil => exact fun p _ => ⟨_, _, _, .nil p, .nil⟩
  | cons hvalue hvoid hvalues ih₁ ih₂ =>
      obtain ⟨htexts₁, htexts₂⟩ := Expr.forall_all htexts
      exact .cons hvoid (ih₁ htexts₁) (ih₂ htexts₂)

/-! ## Statements -/

section

variable {book : AddressBook} {symbol other : SymbolId} {place : Operand} {symbols : SymbolTable}

/-- Recording a place does not move other variables. -/
theorem AddressBook.current_record_of_ne (h : symbol ≠ other) :
    (book.record symbol place).current other symbols = book.current other symbols := by
  have hfunction : (book.record symbol place).function = book.function := by
    unfold AddressBook.record
    split <;> rfl
  simp only [AddressBook.current, book.locations_record_of_ne place h, hfunction]

/-- The first place of a symbol that was unknown is its address. -/
theorem AddressBook.current_record {ty : StorageType} (h : book.locations symbol = [])
    (hplace : place.ty = .pointer ty) :
    (book.record symbol place).current symbol symbols = .ok place := by
  have hnew : (symbol, place) ∉ book.places := fun hmem => by
    have hlocation : place ∈ book.locations symbol :=
      List.mem_map.2 ⟨(symbol, place), List.mem_filter.2 ⟨hmem, by simp⟩, rfl⟩
    simp [h] at hlocation
  have hlocations : (book.record symbol place).locations symbol = [place] := by
    have hfilter : (book.places.filter fun known => known.1 == symbol).map Prod.snd = [] := h
    simp [AddressBook.record, AddressBook.locations, hnew, hfilter]
  simp [AddressBook.current, hlocations, hplace, StorageType.pointee?]

end

/-- A variable that was unknown gets storage. -/
theorem allocates_of_unknown {symbol : SymbolId} (t : StorageType)
    (hunknown : p.addresses.locations symbol = []) (hvars : symbol ∉ vars)
    (hliteral : site.symbols.literal? symbol = none) : Allocates site vars symbol t p where
  current := AddressBook.current_record hunknown rfl
  others _ hv := AddressBook.current_record_of_ne fun heq => hvars (heq ▸ hv)
  literal? := hliteral

/-- Statements do not move the variables that can be seen in front of them. -/
theorem LowersStmt.current {ret : StorageType} {task : StmtTask} {vars' : List SymbolId}
    (h : LowersStmt site params own ret vars task p r p' vars') :
    vars ⊆ vars' ∧ ∀ v ∈ vars, ∀ a, p.addresses.current v site.symbols = .ok a →
      p'.addresses.current v site.symbols = .ok a := by
  have hexpr : ∀ {vars : List SymbolId} {task : Task} {p p' : Point} {ops : List Operand}
      {r : Region}, Lowers site params own vars task p ops r p' → ∀ v ∈ vars, ∀ a,
      p.addresses.current v site.symbols = .ok a → p'.addresses.current v site.symbols = .ok a :=
    fun hlowers v hv a ha => AddressBook.current_congr (hlowers.locations (.inl hv)) ha
  induction h with
  | nil => exact ⟨fun _ h => h, fun _ _ _ h => h⟩
  | cons _ _ _ ih₁ ih₂ =>
      exact ⟨fun v hv => ih₂.1 (ih₁.1 hv), fun v hv a ha => ih₂.2 v (ih₁.1 hv) a (ih₁.2 v hv a ha)⟩
  | last _ _ _ ih => exact ih
  | block _ _ _ ih => exact ⟨fun _ h => h, ih.2⟩
  | declare _ _ _ _ _ hallocates =>
      refine ⟨List.subset_cons_self _ _, fun v hv a ha => ?_⟩
      rw [hallocates.others v hv, ha]
  | declareWith _ _ _ _ _ hallocates hvalue _ =>
      refine ⟨List.subset_cons_self _ _, fun v hv a ha => hexpr hvalue v hv a ?_⟩
      rw [hallocates.others v hv, ha]
  | ifThen _ hcondition _ _ ih =>
      exact ⟨fun _ h => h, fun v hv a ha => ih.2 v hv a (hexpr hcondition v hv a ha)⟩
  | @ifElse vars vars₁ vars₂ condition positive negative span p p₁ p₂ p₃ a r r₁ r₂ hcondition _ _ _
      ih₁ ih₂ =>
      refine ⟨fun _ h => h, fun v hv a ha => ?_⟩
      rw [Point.addresses_meet]
      exact ih₂.2 v hv a (ih₁.2 v hv a (hexpr hcondition v hv a ha))
  | ret => exact ⟨fun _ h => h, fun _ _ _ h => h⟩
  | retValue _ hvalue _ _ => exact ⟨fun _ h => h, hexpr hvalue⟩
  | expr _ hvalue => exact ⟨fun _ h => h, hexpr hvalue⟩

/-- A local variable that gets storage can be seen from now on. -/
theorem Located.allocate {symbol : SymbolId} {entry : VariableEntry} {t : StorageType}
    (h : Located site params own view vars n p.addresses)
    (hentry : site.symbols.get? symbol = some (.localVariable entry)) (hnew : n ≤ symbol)
    (ht : site.symbols.storageType entry.ty = .ok t) :
    Allocates site vars symbol t p ∧ Located site params own (view.declare symbol) (symbol :: vars)
      (symbol + 1) (p.allocated symbol t).addresses := by
  have hliteral : site.symbols.literal? symbol = none := by
    simp [SymbolTable.literal?, hentry, Symbol.literal?]
  have hvars : symbol ∉ vars := fun hmem => Nat.not_lt.2 hnew (h.earlier symbol hmem).1
  have hallocates : Allocates site vars symbol t p :=
    allocates_of_unknown t (h.unknown symbol hnew hliteral) hvars hliteral
  refine ⟨hallocates, ⟨h.owner, h.receiver, fun v hv e t' he hpointer ht' => ?_,
    fun v hv e he hargument => ?_, fun v hv => ?_, fun v hv hnone => ?_⟩⟩
  · rcases List.mem_cons.1 hv with rfl | hv
    · cases hentry.symm.trans he
    · exact h.pointers v hv e t' he hpointer ht'
  · rcases List.mem_cons.1 hv with rfl | hv
    · have heq : e = entry := by
        simpa [SymbolTable.storedVariable?, hentry, Symbol.storedVariable?, eq_comm] using he
      subst heq
      exact ⟨List.mem_cons_self .., p.temps, t, ht, hallocates.current⟩
    · obtain ⟨hmem, m, t', ht', hcurrent⟩ := h.stored v hv e he hargument
      exact ⟨List.mem_cons_of_mem _ hmem, m, t', ht', (hallocates.others v hmem).trans hcurrent⟩
  · rcases List.mem_cons.1 hv with rfl | hv
    · exact ⟨Nat.lt_succ_self _, hliteral⟩
    · have hv' := h.earlier v hv
      exact ⟨Nat.lt_of_lt_of_le hv'.1 (Nat.le_succ_of_le hnew), hv'.2⟩
  · have hne : symbol ≠ v := Nat.ne_of_lt hv
    refine (p.addresses.locations_record_of_ne _ hne).trans ?_
    exact h.unknown v (Nat.le_trans hnew (Nat.le_of_succ_le hv)) hnone

/-- Whether every path through a task ends in a `return`. -/
def StmtTask.returns : StmtTask → Bool
  | .one s => s.returns
  | .all stmts => Stmt.anyReturns stmts

/-- The string literals on the way through a tree are bound to their texts. -/
def Visit.TextBound (ctx : Context) : Visit → Prop
  | .expr e => e.TextBound ctx
  | _ => True

/-- The value of an expression that is not `void`. -/
theorem Typed.lowers_value {e : Expr} {ty : Ty} (htable : site.symbols.Lowerable)
    (h : Typed site.ctx view (.value e) [ty])
    (htexts : ∀ visit ∈ e.visits, visit.TextBound site.ctx)
    (hlocated : Located site params own view vars n p.addresses) (hvoid : ty.isVoid = false) :
    ∃ a r p', Lowers site params own vars (.value e) p [a] r p' ∧
      site.symbols.storageType ty = .ok a.ty := by
  obtain ⟨ops, r, p', hlowers, hfits⟩ := h.lowers htable
    (fun sub hsub => htexts (.expr sub) (List.mem_map_of_mem hsub)) hlocated
  obtain ⟨a, rfl, ha⟩ := (Task.fits_value hvoid).1 hfits
  exact ⟨a, r, p', hlowers, ha⟩

/-- The storage type of a local variable. -/
theorem SymbolTable.Lowerable.storageType_local {table : SymbolTable} (htable : table.Lowerable)
    {symbol : SymbolId} {entry : VariableEntry}
    (hentry : table.get? symbol = some (.localVariable entry)) :
    ∃ t, table.storageType entry.ty = .ok t ∧
      table.storageType (table.symbolType symbol) = .ok t := by
  obtain ⟨t, ht, -⟩ := (htable.ok symbol _ hentry).1.storageType
  exact ⟨t, ht, by rwa [SymbolTable.symbolType, hentry]⟩

/-- Statements can be lowered at every point where all that they can see is located.  Their code
leaves the function exactly if they return on every path, and behind code that goes on all that
can be seen is located again. -/
def StmtTask.CanLower (site : Site) (params : List (String × StorageType)) (own : List SymbolId)
    (t : StorageType) (view : View) (n : Nat) (task : StmtTask) (view' : View) (n' : Nat) : Prop :=
  ∀ ⦃vars : List SymbolId⦄ ⦃p : Point⦄, Located site params own view vars n p.addresses →
    ∃ r p' vars', LowersStmt site params own t vars task p r p' vars' ∧ r.leaves = task.returns ∧
      (∀ v, n' ≤ v → site.symbols.literal? v = none → p'.addresses.locations v = []) ∧
      (r.leaves = false → Located site params own view' vars' n' p'.addresses)

namespace StmtTask.CanLower

variable {t : StorageType} {view₁ view₂ : View} {n₁ n₂ : Nat} {s positive negative : Stmt}
  {condition : Expr} {span : Span}

/-- A statement in front of others. -/
theorem cons {rest : List Stmt} (hle : n₁ ≤ n₂)
    (ih₁ : CanLower site params own t view n (.one s) view₁ n₁)
    (ih₂ : CanLower site params own t view₁ n₁ (.all rest) view₂ n₂) :
    CanLower site params own t view n (.all (s :: rest)) view₂ n₂ := by
  intro vars p hlocated
  obtain ⟨r₁, p₁, vars₁, hlowers₁, hleaves₁, hunknown₁, hlocated₁⟩ := ih₁ hlocated
  have hreturns : r₁.leaves = s.returns := hleaves₁
  cases hgoesOn : r₁.leaves with
  | true =>
      refine ⟨_, _, _, .last rest hlowers₁ hgoesOn, ?_,
        fun v hv => hunknown₁ v (Nat.le_trans hle hv), ?_⟩
      · simp [StmtTask.returns, Stmt.anyReturns, ← hreturns, hgoesOn]
      · simp [hgoesOn]
  | false =>
      obtain ⟨r₂, p₂, vars₂, hlowers₂, hleaves₂, hunknown₂, hlocated₂⟩ := ih₂ (hlocated₁ hgoesOn)
      refine ⟨_, _, _, .cons hlowers₁ hgoesOn hlowers₂, ?_, hunknown₂, hlocated₂⟩
      simp [StmtTask.returns, Stmt.anyReturns, ← hreturns, hgoesOn, Region.leaves, hleaves₂]

/-- A declaration with a value: the value does not see the variable, but finds everything else
where it was. -/
theorem declareWith (htable : site.symbols.Lowerable) {id : NodeId} {symbol : SymbolId}
    {entry : VariableEntry} {value : Expr} (ty : TypeExpr) (name : Ident)
    (hsymbol : site.ctx.bindings.symbol? id = some symbol)
    (hentry : site.symbols.get? symbol = some (.localVariable entry)) (hnew : n ≤ symbol)
    (hvalue : Typed site.ctx view (.value value) [entry.ty])
    (htexts : ∀ visit ∈ value.visits, visit.TextBound site.ctx) :
    CanLower site params own t view n (.one (.varDecl id ty name (some value) span))
      (view.declare symbol) (symbol + 1) := by
  intro vars p hlocated
  obtain ⟨t', ht', hty⟩ := htable.storageType_local hentry
  obtain ⟨hallocates, hlocated'⟩ := hlocated.allocate hentry hnew ht'
  have hbefore : Located site params own view vars (symbol + 1)
      (p.allocated symbol t').addresses :=
    hlocated.keep (Nat.le_succ_of_le hnew) (fun v hv a ha => (hallocates.others v hv).trans ha)
      hlocated'.unknown
  obtain ⟨a, r₁, p₁, hlowers, ha⟩ :=
    hvalue.lowers_value htable htexts hbefore (htable.ok symbol _ hentry).2
  refine ⟨_, _, _, .declareWith ty name span hsymbol hty hallocates hlowers
    (Except.ok.inj (ha.symm.trans ht')), rfl, fun v hv hnone => ?_, fun _ => ?_⟩
  · rw [hlowers.locations (.inr hnone), hlocated'.unknown v hv hnone]
  · refine hlocated'.keep (Nat.le_refl _) (fun v hv b hb => ?_) fun v hv hnone => ?_
    · exact AddressBook.current_congr (hlowers.locations (.inr (hlocated'.earlier v hv).2)) hb
    · rw [hlowers.locations (.inr hnone), hlocated'.unknown v hv hnone]

/-- A conditional statement without an alternative. -/
theorem ifThen (htable : site.symbols.Lowerable) (hle : n ≤ n₁)
    (hcondition : Typed site.ctx view (.value condition) [.bool])
    (htexts : ∀ visit ∈ condition.visits, visit.TextBound site.ctx)
    (ih : CanLower site params own t view n (.one positive) view₁ n₁) :
    CanLower site params own t view n (.one (.ifThen condition positive span)) view n₁ := by
  intro vars p hlocated
  obtain ⟨a, r, p₁, hlowers, ha⟩ := hcondition.lowers_value htable htexts hlocated rfl
  have hlocated₁ := hlocated.lowers hlowers
  obtain ⟨r₁, p₂, vars₁, hlowers₁, -, hunknown, -⟩ :=
    ih (p := (p₁.issue 2).enter p₁.labels) hlocated₁
  exact ⟨_, _, _, .ifThen span hlowers (Except.ok.inj ha).symm hlowers₁, rfl, hunknown, fun _ =>
    hlocated₁.keep hle hlowers₁.current.2 hunknown⟩

/-- A conditional statement with two sides: variables of the first are unknown again in the
second. -/
theorem ifElse (htable : site.symbols.Lowerable) (hle₁ : n ≤ n₁) (hle₂ : n₁ ≤ n₂)
    (hcondition : Typed site.ctx view (.value condition) [.bool])
    (htexts : ∀ visit ∈ condition.visits, visit.TextBound site.ctx)
    (ih₁ : CanLower site params own t view n (.one positive) view₁ n₁)
    (ih₂ : CanLower site params own t view n₁ (.one negative) view₂ n₂) :
    CanLower site params own t view n (.one (.ifElse condition positive negative span)) view
      n₂ := by
  intro vars p hlocated
  obtain ⟨a, r, p₁, hlowers, ha⟩ := hcondition.lowers_value htable htexts hlocated rfl
  have hlocated₁ := hlocated.lowers hlowers
  obtain ⟨r₁, p₂, vars₁, hlowers₁, hleaves₁, hunknown₁, -⟩ :=
    ih₁ (p := (p₁.issue 3).enter p₁.labels) hlocated₁
  have hlocated₂ : Located site params own view vars n₁ p₂.addresses :=
    hlocated₁.keep hle₁ hlowers₁.current.2 hunknown₁
  obtain ⟨r₂, p₃, vars₂, hlowers₂, hleaves₂, hunknown₂, -⟩ :=
    ih₂ (p := p₂.enter (p₁.labels + 1)) hlocated₂
  have hmeet := p₃.addresses_meet (p₁.labels + 2) r₁ r₂
  refine ⟨_, _, _, .ifElse span hlowers (Except.ok.inj ha).symm hlowers₁ hlowers₂, ?_,
    hmeet ▸ hunknown₂, fun _ => hmeet ▸ hlocated₂.keep hle₂ hlowers₂.current.2 hunknown₂⟩
  simp [Region.leaves, hleaves₁, hleaves₂, StmtTask.returns, Stmt.returns, Bool.and_comm]

end StmtTask.CanLower

/-- **Typed statements can be lowered.**  Their code leaves the function exactly if they
return on every path. -/
theorem TypedStmt.lowers {ret : Ty} {t : StorageType} {task : StmtTask} {view' : View} {n' : Nat}
    (htable : site.symbols.Lowerable) (hret : site.symbols.storageType ret = .ok t)
    (hvoid : t.isVoid = ret.isVoid) (h : TypedStmt site.ctx ret view n task view' n')
    (htexts : ∀ visit ∈ task.visits, visit.TextBound site.ctx) :
    task.CanLower site params own t view n view' n' := by
  induction h with
  | nil view n =>
      exact fun vars p hlocated => ⟨_, _, _, .nil vars p, rfl, hlocated.unknown, fun _ => hlocated⟩
  | cons hfirst hrest ih₁ ih₂ =>
      exact .cons hrest.le (ih₁ fun v hv => htexts v (List.mem_append_left _ hv))
        (ih₂ fun v hv => htexts v (List.mem_append_right _ hv))
  | block id span hstmts ih =>
      intro vars p hlocated
      obtain ⟨r₁, p₁, vars₁, hlowers, hleaves, hunknown, -⟩ := ih
        (fun v hv => htexts v (List.mem_cons_of_mem _ (List.mem_cons_of_mem _ hv))) hlocated
      exact ⟨_, _, _, .block id span hlowers, hleaves, hunknown, fun _ =>
        hlocated.keep hstmts.le hlowers.current.2 hunknown⟩
  | declare ty name span hsymbol hentry hnew =>
      intro vars p hlocated
      obtain ⟨t', ht', hty⟩ := htable.storageType_local hentry
      obtain ⟨hallocates, hlocated'⟩ := hlocated.allocate hentry hnew ht'
      exact ⟨_, _, _, .declare ty name span hsymbol hty hallocates, rfl, hlocated'.unknown,
        fun _ => hlocated'⟩
  | declareWith ty name span hsymbol hentry hnew hvalue =>
      exact .declareWith htable ty name hsymbol hentry hnew hvalue
        fun v hv => htexts v (List.mem_cons_of_mem _ hv)
  | ifThen span hcondition hpositive ih =>
      exact .ifThen htable hpositive.le hcondition
        (fun v hv => htexts v (List.mem_cons_of_mem _ (List.mem_append_left _ hv)))
        (ih fun v hv => htexts v (List.mem_cons_of_mem _ (List.mem_append_right _ hv)))
  | ifElse span hcondition hpositive hnegative ih₁ ih₂ =>
      exact .ifElse htable hpositive.le hnegative.le hcondition
        (fun v hv => htexts v (List.mem_cons_of_mem _
          (List.mem_append_left _ (List.mem_append_left _ hv))))
        (ih₁ fun v hv => htexts v (List.mem_cons_of_mem _
          (List.mem_append_left _ (List.mem_append_right _ hv))))
        (ih₂ fun v hv => htexts v (List.mem_cons_of_mem _ (List.mem_append_right _ hv)))
  | ret view n span hempty =>
      exact fun vars p hlocated => ⟨_, _, _, .ret vars span p (hvoid.trans hempty), rfl,
        hlocated.unknown, fun _ => hlocated⟩
  | retValue n span hvalue hempty =>
      intro vars p hlocated
      obtain ⟨a, r, p₁, hlowers, ha⟩ := hvalue.lowers_value htable
        (fun v hv => htexts v (List.mem_cons_of_mem _ hv)) hlocated hempty
      exact ⟨_, _, _, .retValue span hlowers (Except.ok.inj (ha.symm.trans hret))
        (hvoid.trans hempty), rfl, (hlocated.lowers hlowers).unknown,
        fun _ => hlocated.lowers hlowers⟩
  | expr n span hvalue =>
      intro vars p hlocated
      obtain ⟨ops, r, p₁, hlowers, -⟩ := hvalue.lowers htable
        (fun sub hsub => htexts (.expr sub) (List.mem_cons_of_mem _ (List.mem_map_of_mem hsub)))
        hlocated
      exact ⟨_, _, _, .expr span hlowers, hlowers.through.goesOn,
        (hlocated.lowers hlowers).unknown, fun _ => hlocated.lowers hlowers⟩

end ClassLang
