import ClassLang.Proofs.Resolve.Clean
import ClassLang.Proofs.Resolve.Scopes
import ClassLang.Resolve.Expr

/-!
# Resolving expressions is sound

If resolving an expression reports nothing, the expression is typed (`Expr.does_resolve`):
every rule of the analysis that does not report leads to a rule of `Typed`.  An expression
attaches things to its own nodes only (`Rebinds`), so what was found for one part is still
there when the next part has been resolved.
-/

namespace ClassLang

open Analysis

/-- Only what is attached to some nodes has changed. -/
structure Rebinds (nodes : List NodeId) (ctx ctx' : Context) : Prop where
  symbols : ctx'.symbols = ctx.symbols
  scopes : ctx'.scopes = ctx.scopes
  symbol? : ∀ n ∉ nodes, ctx'.bindings.symbol? n = ctx.bindings.symbol? n
  type? : ∀ n ∉ nodes, ctx'.bindings.type? n = ctx.bindings.type? n
  scope? : ∀ n, ctx'.bindings.scope? n = ctx.bindings.scope? n

namespace Rebinds

variable {nodes nodes' : List NodeId} {ctx ctx' ctx'' : Context}

/-- Nothing has changed. -/
theorem refl (nodes : List NodeId) (ctx : Context) : Rebinds nodes ctx ctx :=
  ⟨rfl, rfl, fun _ _ => rfl, fun _ _ => rfl, fun _ => rfl⟩

/-- Two runs in a row change what either may. -/
theorem trans (h : Rebinds nodes ctx ctx') (h' : Rebinds nodes ctx' ctx'') :
    Rebinds nodes ctx ctx'' :=
  ⟨h'.symbols.trans h.symbols, h'.scopes.trans h.scopes,
    fun n hn => (h'.symbol? n hn).trans (h.symbol? n hn),
    fun n hn => (h'.type? n hn).trans (h.type? n hn),
    fun n => (h'.scope? n).trans (h.scope? n)⟩

/-- What has changed may be stated of more nodes. -/
theorem mono (h : Rebinds nodes ctx ctx') (hsub : nodes ⊆ nodes') : Rebinds nodes' ctx ctx' :=
  ⟨h.symbols, h.scopes, fun n hn => h.symbol? n fun hmem => hn (hsub hmem),
    fun n hn => h.type? n fun hmem => hn (hsub hmem), h.scope?⟩

/-- Attaching a symbol changes its node. -/
theorem bindSymbol (node : NodeId) (symbol : SymbolId) (ctx : Context) :
    Rebinds [node] ctx { ctx with bindings := ctx.bindings.bindSymbol node symbol } := by
  refine ⟨rfl, rfl, fun n hn => ?_, fun _ _ => rfl, fun _ => rfl⟩
  rw [Bindings.symbol?_bindSymbol, if_neg (by simpa using hn)]

/-- Attaching a type changes its node. -/
theorem bindType (node : NodeId) (ty : Ty) (ctx : Context) :
    Rebinds [node] ctx { ctx with bindings := ctx.bindings.bindType node ty } := by
  refine ⟨rfl, rfl, fun _ _ => rfl, fun n hn => ?_, fun _ => rfl⟩
  rw [Bindings.type?_bindType, if_neg (by simpa using hn)]

/-- A scope is as ready as it was, since names are looked up alike. -/
theorem ready (h : Rebinds nodes ctx ctx') {scope : ScopeId} {view : View}
    (hready : ctx.Ready scope view) : ctx'.Ready scope view :=
  hready.congr h.symbols h.scopes

/-- Typing survives what happens at other nodes. -/
theorem typed (h : Rebinds nodes ctx ctx') (hok : ctx.symbols.Ok) {view : View} {task : Task}
    {types : List Ty} (ht : Typed ctx view task types)
    (hdisjoint : ∀ n ∈ task.subexprs.map Expr.id, n ∉ nodes) : Typed ctx' view task types := by
  refine ht.mono hok (by rw [h.symbols]; exact .refl _) fun sub hsub => ?_
  have hn := hdisjoint sub.id (List.mem_map_of_mem hsub)
  exact ⟨h.type? _ hn, fun _ => h.symbol? _ hn⟩

end Rebinds

/-- What resolving an expression does. -/
def ResolvesTo (scope : ScopeId) (e : Expr) (ctx : Context) (ty : Ty) (ctx' : Context) : Prop :=
  Rebinds e.nodes ctx ctx' ∧ ∀ view, ctx.Ready scope view → Typed ctx' view (.value e) [ty]

/-- A typed search attaches the type that it finds. -/
theorem does_typed {node : NodeId} {find : Analysis Ty} {R : Context → Ty → Context → Prop}
    (h : Does find R) :
    Does (Analysis.typed node find) fun ctx ty ctx' => ∃ ctx₁, R ctx ty ctx₁ ∧
      ctx' = { ctx₁ with bindings := ctx₁.bindings.bindType node ty } := by
  refine (h.bind fun ty => (does_bindType node ty).bind fun _ => does_pure ty).mono ?_
  rintro ctx ty ctx' ⟨ty', ctx₁, hr, _, ctx₂, rfl, rfl, rfl⟩
  exact ⟨ctx₁, hr, rfl⟩

/-! ## The checks -/

/-- A check without report finds that the value may be stored. -/
theorem does_checkAssignable (actual target : Ty) (span : Span) :
    Does (checkAssignable actual target span) fun ctx _ ctx' =>
      ctx' = ctx ∧ actual.isAssignableTo target = true := by
  unfold checkAssignable
  split
  · next h => exact (does_pure ()).mono fun ctx _ ctx' hr => ⟨hr.2, h⟩
  · refine does_read fun before => ?_
    exact (does_read fun _ => (does_mismatch _ _).never).never

/-- A check without report finds a `bool`, or a type that is unknown. -/
theorem does_expectBool (ty : Ty) (what : String) (span : Span) :
    Does (expectBool ty what span) fun ctx _ ctx' =>
      ctx' = ctx ∧ (ty.isBool || ty.isError) = true := by
  unfold expectBool
  split
  · next h => exact (does_pure ()).mono fun ctx _ ctx' hr => ⟨hr.2, h⟩
  · exact (does_read fun before => (does_mismatch _ _).never).never

/-- A check without report finds two integers of one type, or a type that is unknown. -/
theorem does_integerPair (left right : Ty) (operator : String) (span : Span) :
    Does (integerPair left right operator span) fun ctx ty ctx' => ctx' = ctx ∧
      ((left.isError || right.isError) = true ∨
        ty = left ∧ right = left ∧ left.isInteger = true) := by
  unfold integerPair
  split
  · next h => exact (does_pure _).mono fun ctx _ ctx' hr => ⟨hr.2, .inl h⟩
  · split
    · next h =>
        have heq : left.isInteger = true ∧ left = right := by simpa using h
        exact (does_pure left).mono fun ctx _ ctx' hr => ⟨hr.2, .inr ⟨hr.1, heq.2.symm, heq.1⟩⟩
    · exact does_read fun before => does_read fun _ => does_mismatch_return _ _ _

/-- A check without report finds as many arguments as the function takes. -/
theorem does_checkCount (entry : FunctionEntry) (expected given : Nat) (span : Span) :
    Does (entry.checkCount expected given span) fun ctx _ ctx' => ctx' = ctx ∧
      expected ≤ given ∧ (entry.traits.variadic = false → given = expected) := by
  unfold FunctionEntry.checkCount
  cases hvariadic : entry.traits.variadic with
  | true =>
      simp only [if_true]
      split
      · next h => exact (does_pure ()).mono fun ctx _ ctx' hr => ⟨hr.2, h, by simp⟩
      · exact (does_mismatch _ _).never
  | false =>
      simp only [Bool.false_eq_true, if_false]
      split
      · next h => exact (does_pure ()).mono fun ctx _ ctx' hr =>
          ⟨hr.2, Nat.le_of_eq h.symm, fun _ => h⟩
      · exact (does_mismatch _ _).never

/-! ## Literals and names -/

/-- The type of an integer literal is an integer, whatever is expected. -/
theorem Ty.isInteger_ofLiteral (expected : Option Ty) :
    (Ty.ofLiteral expected).isInteger = true := by
  unfold Ty.ofLiteral
  split
  · split
    · assumption
    · rfl
  · rfl

/-- Resolving a literal is sound. -/
theorem does_resolve_literal (scope : ScopeId) (id : NodeId) (value : Literal) (span : Span)
    (expected : Option Ty) :
    Does (Analysis.typed id (value.resolve span expected))
      (ResolvesTo scope (.literal id value span)) := by
  have hrebinds : ∀ ctx ty, Rebinds (Expr.literal id value span).nodes ctx
      { ctx with bindings := ctx.bindings.bindType id ty } := fun ctx ty => .bindType id ty ctx
  cases value with
  | bool b =>
      refine (does_typed (does_pure Ty.bool)).mono ?_
      rintro ctx ty ctx' ⟨_, ⟨rfl, rfl⟩, rfl⟩
      refine ⟨hrebinds _ _, fun view _ => .bool b span ?_⟩
      simp [Bindings.type?_bindType]
  | string text =>
      refine (does_typed (does_pure (Ty.pointer .int8))).mono ?_
      rintro ctx ty ctx' ⟨_, ⟨rfl, rfl⟩, rfl⟩
      refine ⟨hrebinds _ _, fun view _ => .string text span ?_⟩
      simp [Bindings.type?_bindType]
  | int n =>
      have hfind : Does (Literal.resolve (.int n) span expected) fun ctx ty ctx' =>
          ctx' = ctx ∧ ty = .primitive (Ty.ofLiteral expected) ∧
            (Ty.ofLiteral expected).fits n = true := by
        simp only [Literal.resolve]
        split
        · next hfits =>
            exact (does_pure _).mono fun ctx ty ctx' hr => ⟨hr.2, hr.1, hfits⟩
        · exact does_mismatch_return _ _ _
      refine (does_typed hfind).mono ?_
      rintro ctx ty ctx' ⟨_, ⟨rfl, rfl, hfits⟩, rfl⟩
      refine ⟨hrebinds _ _, fun view _ => .int span ?_ (Ty.isInteger_ofLiteral expected) hfits⟩
      simp [Bindings.type?_bindType]

/-- What a name stands for as a value. -/
theorem does_resolveValue (ident : Ident) (node : NodeId) (scope : ScopeId) :
    Does (ident.resolveValue node scope) fun ctx ty ctx' =>
      (ty = .error ∧ ctx' = ctx ∧ ∃ id, ctx.lookupName? scope ident.name = some id ∧
        ctx.symbols.get? id = none) ∨
      ∃ id, ctx.lookupName? scope ident.name = some id ∧
        ((ctx.symbols.storedVariable? id).isSome = true ∨ (ctx.symbols.field? id).isSome = true) ∧
        ty = ctx.symbols.symbolType id ∧
        ctx' = { ctx with bindings := ctx.bindings.bindSymbol node id } := by
  refine does_read fun before => ?_
  split
  · exact does_report_return _ _
  · next id hname =>
      have hbind : Does (do Analysis.bindSymbol node id; return before.symbols.symbolType id)
          fun ctx ty ctx' => ty = before.symbols.symbolType id ∧
            ctx' = { ctx with bindings := ctx.bindings.bindSymbol node id } := by
        refine ((does_bindSymbol node id).bind fun _ => does_pure _).mono ?_
        rintro ctx ty ctx' ⟨_, _, rfl, rfl, rfl⟩
        exact ⟨rfl, rfl⟩
      split
      · next entry hentry =>
          refine hbind.mono ?_
          rintro ctx ty ctx' ⟨rfl, rfl⟩ rfl
          refine .inr ⟨id, hname, .inl ?_, rfl, rfl⟩
          simp [SymbolTable.storedVariable?, hentry, Symbol.storedVariable?]
      · next entry hentry =>
          refine hbind.mono ?_
          rintro ctx ty ctx' ⟨rfl, rfl⟩ rfl
          refine .inr ⟨id, hname, .inl ?_, rfl, rfl⟩
          simp [SymbolTable.storedVariable?, hentry, Symbol.storedVariable?]
      · next entry hentry =>
          refine hbind.mono ?_
          rintro ctx ty ctx' ⟨rfl, rfl⟩ rfl
          refine .inr ⟨id, hname, .inr ?_, rfl, rfl⟩
          simp [SymbolTable.field?, hentry, Symbol.field?]
      · exact does_mismatch_return _ _ _
      · next hnone =>
          refine (does_pure Ty.error).mono ?_
          rintro ctx ty ctx' ⟨rfl, rfl⟩ rfl
          exact .inl ⟨rfl, rfl, id, hname, hnone⟩

/-- A name that finds something finds a symbol. -/
theorem Context.Ready.get?_of_lookupName? {ctx : Context} {scope : ScopeId} {view : View}
    (h : ctx.Ready scope view) {name : String} {id : SymbolId}
    (hname : ctx.lookupName? scope name = some id) :
    ∃ symbol, ctx.symbols.get? id = some symbol := by
  rcases h.sees.of_lookupName? hname with ⟨-, hstored⟩ | ⟨symbol, hsymbol, -⟩ | ⟨owner, -, hmember⟩
  · obtain ⟨entry, hentry⟩ := Option.isSome_iff_exists.1 hstored
    exact (SymbolTable.storedVariable?_eq_some_iff.1 hentry).elim (⟨_, ·⟩) (⟨_, ·⟩)
  · exact ⟨symbol, hsymbol⟩
  · obtain ⟨c, entry, -, hentry, hmem⟩ := hmember
    rcases List.mem_append.1 hmem with hmem | hmem
    · obtain ⟨f, hf, -⟩ := h.ok.table.class_fields hentry hmem
      exact ⟨_, SymbolTable.field?_eq_some_iff.1 hf⟩
    · obtain ⟨f, hf, -⟩ := h.ok.table.class_functions hentry hmem
      exact ⟨_, SymbolTable.function?_eq_some_iff.1 hf⟩

/-- A variable that a name finds can be seen. -/
theorem Context.Ready.mem_variables {ctx : Context} {scope : ScopeId} {view : View}
    (h : ctx.Ready scope view) {name : String} {id : SymbolId} {entry : VariableEntry}
    (hname : ctx.lookupName? scope name = some id)
    (hentry : ctx.symbols.storedVariable? id = some entry) : id ∈ view.visible := by
  obtain ⟨s, hs, hstored⟩ := Option.bind_eq_some_iff.1 hentry
  rcases h.sees.of_lookupName? hname with ⟨hmem, -⟩ | ⟨symbol, hsymbol, hitem⟩ | ⟨owner, -, hmember⟩
  · exact hmem
  · rw [hs] at hsymbol
    cases hsymbol
    cases s <;> simp_all [Symbol.storedVariable?, Symbol.IsItem]
  · obtain ⟨c, e, -, he, hmem⟩ := hmember
    rcases List.mem_append.1 hmem with hmem | hmem
    · obtain ⟨f, hf, -⟩ := h.ok.table.class_fields he hmem
      cases hs.symm.trans (SymbolTable.field?_eq_some_iff.1 hf)
      cases hstored
    · obtain ⟨f, hf, -⟩ := h.ok.table.class_functions he hmem
      cases hs.symm.trans (SymbolTable.function?_eq_some_iff.1 hf)
      cases hstored

/-- A field that a name finds is one of the receiver. -/
theorem Context.Ready.stores {ctx : Context} {scope : ScopeId} {view : View}
    (h : ctx.Ready scope view) {name : String} {id : SymbolId} {entry : FieldEntry}
    (hname : ctx.lookupName? scope name = some id)
    (hentry : ctx.symbols.field? id = some entry) :
    ∃ owner, view.owner = some owner ∧ ctx.symbols.Stores owner id := by
  have hs := SymbolTable.field?_eq_some_iff.1 hentry
  rcases h.sees.of_lookupName? hname with
    ⟨-, hstored⟩ | ⟨symbol, hsymbol, hitem⟩ | ⟨owner, ho, hmember⟩
  · simp [SymbolTable.storedVariable?, hs, Symbol.storedVariable?] at hstored
  · cases hs.symm.trans hsymbol
    exact hitem.elim
  · exact ⟨owner, ho, hmember.stores h.ok.table hentry⟩

/-- Resolving a name is sound. -/
theorem does_resolve_name (scope : ScopeId) (id : NodeId) (ident : Ident) :
    Does (Analysis.typed id (ident.resolveValue id scope)) (ResolvesTo scope (.name id ident)) := by
  refine (does_typed (does_resolveValue ident id scope)).mono ?_
  rintro ctx ty ctx' ⟨ctx₁, ⟨rfl, rfl, symbol, hname, hnone⟩ | ⟨symbol, hname, hkind, rfl, rfl⟩,
    rfl⟩
  · refine ⟨.bindType id _ _, fun view hready => ?_⟩
    obtain ⟨s, hs⟩ := hready.get?_of_lookupName? hname
    simp [hnone] at hs
  · refine ⟨(Rebinds.bindSymbol id symbol ctx).trans (.bindType id _ _), fun view hready => ?_⟩
    have hsymbol : ((ctx.bindings.bindSymbol id symbol).bindType id
        (ctx.symbols.symbolType symbol)).symbol? id = some symbol := by
      simp [Bindings.symbol?_bindSymbol]
    have htype : ((ctx.bindings.bindSymbol id symbol).bindType id
        (ctx.symbols.symbolType symbol)).type? id = some (ctx.symbols.symbolType symbol) := by
      simp [Bindings.type?_bindType]
    rcases hkind with hstored | hfield
    · obtain ⟨entry, hentry⟩ := Option.isSome_iff_exists.1 hstored
      have hmem := hready.mem_variables hname hentry
      rw [SymbolTable.symbolType_of_storedVariable? hentry] at htype ⊢
      by_cases hpointer : ctx.symbols.PointerArgument symbol
      · obtain ⟨found, hfound, hpointer⟩ := hpointer
        have heq : found = entry := by
          simpa [SymbolTable.storedVariable?, hfound, Symbol.storedVariable?] using hentry
        subst heq
        exact .argument ident htype hsymbol hfound hpointer hmem
      · exact .load htype (.stored ident hsymbol hentry hpointer hmem)
    · obtain ⟨entry, hentry⟩ := Option.isSome_iff_exists.1 hfield
      obtain ⟨owner, howner, hstores⟩ := hready.stores hname hentry
      rw [SymbolTable.symbolType_of_field? hentry] at htype ⊢
      exact .load htype (.ownField ident hsymbol howner hstores hentry)

/-! ## Members and calls -/

/-- Only classes and structs have members. -/
theorem SymbolTable.memberOf?_eq {symbols : SymbolTable} {object : Ty} {name : String}
    {field : SymbolId} (h : symbols.memberOf? object name = some (some field)) :
    ∃ record, object.pointee?.getD object = .classType record ∧
        symbols.member? record name = some field ∨
      object.pointee?.getD object = .structType record ∧
        symbols.structField? record name = some field := by
  unfold memberOf? at h
  split at h
  · next record hty => exact ⟨record, .inl ⟨hty, by simpa using h⟩⟩
  · next record hty => exact ⟨record, .inr ⟨hty, by simpa using h⟩⟩
  · cases h

/-- What a member stands for. -/
theorem does_resolveMember (ident : Ident) (node : NodeId) (object : Ty) (isPlace : Bool)
    (objectSpan span : Span) :
    Does (ident.resolveMember node object isPlace objectSpan span) fun ctx ty ctx' =>
      (object.isError = true ∧ ctx' = ctx) ∨
      ((object.isPointer = true ∨ isPlace = true) ∧ ∃ record field entry,
        (object.pointee?.getD object = .classType record ∧
            ctx.symbols.member? record ident.name = some field ∨
          object.pointee?.getD object = .structType record ∧
            ctx.symbols.structField? record ident.name = some field) ∧
        ctx.symbols.field? field = some entry ∧ ty = ctx.symbols.symbolType field ∧
        ctx' = { ctx with bindings := ctx.bindings.bindSymbol node field }) := by
  unfold Ident.resolveMember
  split
  · next h => exact (does_pure _).mono fun ctx _ ctx' hr => .inl ⟨h, hr.2⟩
  · split
    · exact does_mismatch_return _ _ _
    · next hplace =>
        have hplace' : object.isPointer = true ∨ isPlace = true := by
          cases h : object.isPointer <;> simp_all
        refine does_read fun before => ?_
        simp only
        split
        · exact does_read fun _ => does_mismatch_return _ _ _
        · exact does_report_return _ _
        · next field hfound =>
            split
            · next entry hentry =>
                refine ((does_bindSymbol node field).bind fun _ => does_pure _).mono ?_
                rintro ctx ty ctx' ⟨_, _, rfl, rfl, rfl⟩ rfl
                obtain ⟨record, hrecord⟩ := SymbolTable.memberOf?_eq hfound
                exact .inr ⟨hplace', record, field, entry, hrecord, hentry, rfl, rfl⟩
            · exact does_mismatch_return _ _ _

/-- What a call stands for. -/
theorem does_resolveCall (callee : Ident) (node : NodeId) (target : Option SymbolId)
    (given : Nat) (span : Span) :
    Does (callee.resolveCall node target given span) fun ctx result ctx' =>
      ∃ function entry, target = some function ∧ ctx.symbols.function? function = some entry ∧
        result = some (ctx.symbols.parameterTypes entry, entry.returnType) ∧
        (ctx.symbols.parameterTypes entry).length ≤ given ∧
        (entry.traits.variadic = false → given = (ctx.symbols.parameterTypes entry).length) ∧
        ctx' = { ctx with bindings := ctx.bindings.bindSymbol node function } := by
  have hcallee : Does (callee.resolveCallee target) fun ctx result ctx' => ctx' = ctx ∧
      ∃ function entry, target = some function ∧ ctx.symbols.function? function = some entry ∧
        result = some (function, entry) := by
    refine does_read fun before => ?_
    split
    · exact does_report_return _ _
    · next function =>
        simp only
        split
        · next entry hentry =>
            refine (does_pure _).mono ?_
            rintro ctx result ctx' ⟨rfl, rfl⟩ rfl
            exact ⟨rfl, function, entry, rfl, hentry, rfl⟩
        · exact does_mismatch_return _ _ _
  refine (hcallee.bind (S := fun found ctx result ctx' => ∀ function entry,
    found = some (function, entry) →
      result = some (ctx.symbols.parameterTypes entry, entry.returnType) ∧
      (ctx.symbols.parameterTypes entry).length ≤ given ∧
      (entry.traits.variadic = false → given = (ctx.symbols.parameterTypes entry).length) ∧
      ctx' = { ctx with bindings := ctx.bindings.bindSymbol node function })
    fun found => ?_).mono ?_
  · cases found with
    | none => exact (does_pure _).mono fun ctx _ ctx' _ function entry h => by cases h
    | some found =>
        obtain ⟨function, entry⟩ := found
        refine ((does_bindSymbol node function).bind fun _ =>
          does_read (S := fun ctx result ctx' =>
            result = some (ctx.symbols.parameterTypes entry, entry.returnType) ∧
              (ctx.symbols.parameterTypes entry).length ≤ given ∧
              (entry.traits.variadic = false →
                given = (ctx.symbols.parameterTypes entry).length) ∧
              ctx' = ctx) fun before =>
          ((does_checkCount entry _ given span).bind fun _ => does_pure _).mono ?_).mono ?_
        · rintro ctx result ctx' ⟨_, _, ⟨rfl, hle, hcount⟩, rfl, rfl⟩ rfl
          exact ⟨rfl, hle, hcount, rfl⟩
        · rintro ctx result ctx' ⟨_, _, rfl, rfl, hle, hcount, rfl⟩ f e heq
          cases heq
          exact ⟨rfl, hle, hcount, rfl⟩
  · rintro ctx result ctx' ⟨found, _, ⟨rfl, function, entry, rfl, hentry, rfl⟩, h⟩
    obtain ⟨hresult, hle, hcount, rfl⟩ := h function entry rfl
    exact ⟨function, entry, rfl, hentry, hresult, hle, hcount, rfl⟩

/-- The member that a call of a method stands for. -/
theorem does_resolveMethod (callee : Ident) (receiver : Ty) :
    Does (callee.resolveMethod receiver) fun ctx result ctx' => ctx' = ctx ∧
      (receiver.isError = true ∨ ∃ id, receiver = .pointer (.classType id) ∧
        result = some (ctx.symbols.member? id callee.name)) := by
  unfold Ident.resolveMethod
  split
  · next h => exact (does_pure _).mono fun ctx _ ctx' hr => ⟨hr.2, .inl h⟩
  · refine does_read fun before => ?_
    simp only
    split
    · next id hid =>
        refine (does_pure _).mono ?_
        rintro ctx result ctx' ⟨rfl, rfl⟩ rfl
        refine ⟨rfl, .inr ⟨id, ?_, rfl⟩⟩
        have hclass : receiver.classBehindPointer? = some id := (Option.filter_eq_some_iff.1 hid).1
        unfold Ty.classBehindPointer? at hclass
        split at hclass
        · cases hclass
          rfl
        · cases hclass
    · exact does_read fun _ => does_mismatch_return _ _ _

/-! ## Operators -/

/-- Two parts, one after the other: each keeps its typing. -/
theorem typed_pair {scope : ScopeId} {e e' : Expr} {ty ty' : Ty} {ctx ctx₁ ctx₂ : Context}
    (h : ResolvesTo scope e ctx ty ctx₁) (h' : ResolvesTo scope e' ctx₁ ty' ctx₂)
    (hdisjoint : ∀ n ∈ e.nodes, n ∉ e'.nodes) {view : View} (hready : ctx.Ready scope view) :
    Typed ctx₂ view (.value e) [ty] ∧ Typed ctx₂ view (.value e') [ty'] := by
  have hready₁ := h.1.ready hready
  exact ⟨h'.1.typed hready₁.ok.table (h.2 view hready) hdisjoint, h'.2 view hready₁⟩

/-- The end of the analysis of an operator, when its operands have been resolved. -/
theorem does_operator (op : BinaryOp) (left right : Ty) (leftSpan rightSpan span : Span) :
    Does (match op with
      | .or | .and => do
        Analysis.expectBool left ("'" ++ op.text ++ "'") leftSpan
        Analysis.expectBool right ("'" ++ op.text ++ "'") rightSpan
        return Ty.bool
      | .arith op => Analysis.integerPair left right op.text span
      | .compare op => do
        let _ ← Analysis.integerPair left right op.text span
        return Ty.bool)
      fun ctx ty ctx' => ctx' = ctx ∧ (left.isError = false → right.isError = false →
        (op = .or ∧ left = .bool ∧ right = .bool ∧ ty = .bool) ∨
        (right = left ∧ OperatorType op left ty)) := by
  have hbool : ∀ ty : Ty, (ty.isBool || ty.isError) = true → ty.isError = false → ty = .bool := by
    intro ty h hno
    rw [hno, Bool.or_false] at h
    unfold Ty.isBool at h
    split at h
    · rfl
    · cases h
  have hinteger : ∀ ty : Ty, ty.isInteger = true → ∃ q, ty = .primitive q ∧ q.isInteger = true := by
    intro ty h
    unfold Ty.isInteger at h
    split at h
    · next q => exact ⟨q, rfl, h⟩
    · cases h
  cases op with
  | or =>
      refine ((does_expectBool left _ _).bind fun _ => (does_expectBool right _ _).bind fun _ =>
        does_pure Ty.bool).mono ?_
      rintro ctx ty ctx' ⟨_, _, ⟨rfl, hl⟩, _, _, ⟨rfl, hr⟩, rfl, rfl⟩
      exact ⟨rfl, fun hnl hnr => .inl ⟨rfl, hbool left hl hnl, hbool right hr hnr, rfl⟩⟩
  | and =>
      refine ((does_expectBool left _ _).bind fun _ => (does_expectBool right _ _).bind fun _ =>
        does_pure Ty.bool).mono ?_
      rintro ctx ty ctx' ⟨_, _, ⟨rfl, hl⟩, _, _, ⟨rfl, hr⟩, rfl, rfl⟩
      refine ⟨rfl, fun hnl hnr => .inr ?_⟩
      rw [hbool left hl hnl, hbool right hr hnr]
      exact ⟨rfl, .and⟩
  | arith op =>
      refine (does_integerPair left right op.text span).mono ?_
      rintro ctx ty ctx' ⟨rfl, h⟩
      refine ⟨rfl, fun hnl hnr => .inr ?_⟩
      rcases h with h | ⟨rfl, rfl, hint⟩
      · simp [hnl, hnr] at h
      · obtain ⟨q, rfl, hq⟩ := hinteger _ hint
        exact ⟨rfl, .arith op q hq⟩
  | compare op =>
      refine ((does_integerPair left right op.text span).bind fun _ => does_pure Ty.bool).mono ?_
      rintro ctx ty ctx' ⟨_, _, ⟨rfl, h⟩, rfl, rfl⟩
      refine ⟨rfl, fun hnl hnr => .inr ?_⟩
      rcases h with h | ⟨rfl, rfl, hint⟩
      · simp [hnl, hnr] at h
      · obtain ⟨q, rfl, hq⟩ := hinteger _ hint
        exact ⟨rfl, .compare op q hq⟩

/-- The end of the analysis of an operator gives its node a type. -/
theorem resolvesTo_binary {scope : ScopeId} {id : NodeId} {op : BinaryOp} {left right : Expr}
    {span : Span} {ctx ctx₂ : Context} {leftType rightType ty : Ty}
    (hrebinds : Rebinds (left.nodes ++ right.nodes) ctx ctx₂)
    (htyped : ∀ view, ctx.Ready scope view →
      Typed ctx₂ view (.value left) [leftType] ∧ Typed ctx₂ view (.value right) [rightType])
    (hop : leftType.isError = false → rightType.isError = false →
      (op = .or ∧ leftType = .bool ∧ rightType = .bool ∧ ty = .bool) ∨
      (rightType = leftType ∧ OperatorType op leftType ty))
    (hid : id ∉ left.nodes ++ right.nodes) :
    ResolvesTo scope (.binary id op left right span) ctx ty
      { ctx₂ with bindings := ctx₂.bindings.bindType id ty } := by
  have hlast := Rebinds.bindType id ty ctx₂
  refine ⟨?_, fun view hready => ?_⟩
  · refine (hrebinds.mono ?_).trans (hlast.mono ?_)
    · intro n hn
      simp only [Expr.nodes_binary]
      exact List.mem_cons_of_mem id hn
    · simp
  · obtain ⟨hleft, hright⟩ := htyped view hready
    have hok := (hrebinds.ready hready).ok.table
    have hleft' := hlast.typed hok hleft fun n hn hmem => by
      rw [List.mem_singleton] at hmem
      exact hid (List.mem_append_left _ (hmem ▸ hn))
    have hright' := hlast.typed hok hright fun n hn hmem => by
      rw [List.mem_singleton] at hmem
      exact hid (List.mem_append_right _ (hmem ▸ hn))
    have htype : (ctx₂.bindings.bindType id ty).type? id = some ty := by
      simp [Bindings.type?_bindType]
    rcases hop (hleft.known hok).isError (hright.known hok).isError with
      ⟨rfl, rfl, rfl, rfl⟩ | ⟨rfl, hop⟩
    · exact .or span htype hleft' hright'
    · exact .operator span htype hleft' hright' hop

/-- Where an assignment may go to. -/
theorem does_checkTarget (target : Expr) (ty : Ty) :
    Does (target.checkTarget ty) fun ctx _ ctx' => ctx' = ctx ∧
      ∀ id ident, target = .name id ident → ∀ symbol entry,
        ctx.bindings.symbol? id = some symbol →
        ctx.symbols.get? symbol = some (.argument entry) → ty.isPointer = false := by
  unfold Expr.checkTarget
  split
  · next id ident =>
      refine does_read fun before => ?_
      simp only
      split
      · exact (does_mismatch _ _).never
      · next h =>
          refine (does_pure _).mono ?_
          rintro ctx _ ctx' ⟨_, rfl⟩ rfl
          refine ⟨rfl, ?_⟩
          rintro id' ident' heq symbol entry hsymbol hentry
          cases heq
          simpa [hsymbol, hentry, Symbol.isArgument] using h
  · next hname =>
      refine (does_pure _).mono ?_
      rintro ctx _ ctx' ⟨_, rfl⟩
      exact ⟨rfl, fun id ident heq => absurd heq (hname id ident)⟩

/-! ## Arguments and calls -/

/-- What resolving arguments against the types of parameters does. -/
def ResolvesArguments (scope : ScopeId) (params : List Ty) (args : List Expr) (ctx ctx' : Context) :
    Prop :=
  Rebinds (Expr.nodesOfAll args) ctx ctx' ∧
    ∀ view, ctx.Ready scope view → (∀ ty ∈ params, ty.Storable ctx.symbols) →
      ∃ types, Typed ctx' view (.values args) types ∧ types.length = args.length ∧
        (params.length ≤ args.length → params <+: types)

/-- One more argument, which fits its parameter or has none. -/
theorem resolvesArguments_cons {scope : ScopeId} {params params' : List Ty} {arg : Expr}
    {rest : List Expr} {actual : Ty} {ctx ctx₁ ctx₂ : Context}
    (harg : ResolvesTo scope arg ctx actual ctx₁)
    (hrest : ResolvesArguments scope params rest ctx₁ ctx₂)
    (hdisjoint : ∀ n ∈ arg.nodes, n ∉ Expr.nodesOfAll rest)
    (hfits : (params' = [] ∧ params = [] ∧ actual.isVoid = false) ∨
      ∃ param, params' = param :: params ∧ actual.isAssignableTo param = true) :
    ResolvesArguments scope params' (arg :: rest) ctx ctx₂ := by
  refine ⟨?_, fun view hready hstorable => ?_⟩
  · rw [Expr.nodesOfAll_cons]
    exact (harg.1.mono (List.subset_append_left _ _)).trans
      (hrest.1.mono (List.subset_append_right _ _))
  · have hready₁ := harg.1.ready hready
    have hvalue := harg.2 view hready
    have hvalue' := hrest.1.typed hready₁.ok.table hvalue hdisjoint
    have hstorable₁ : ∀ ty ∈ params, ty.Storable ctx₁.symbols := by
      rw [harg.1.symbols]
      intro ty hty
      rcases hfits with ⟨-, rfl, -⟩ | ⟨param, rfl, -⟩
      · simp at hty
      · exact hstorable ty (List.mem_cons_of_mem param hty)
    obtain ⟨types, htypes, hlength, hparams⟩ := hrest.2 view hready₁ hstorable₁
    have hvoid : actual.isVoid = false ∧ (params' = [] ∨ params' = actual :: params) := by
      rcases hfits with ⟨rfl, -, hvoid⟩ | ⟨param, rfl, hassignable⟩
      · exact ⟨hvoid, .inl rfl⟩
      · have hparam := hstorable param (by simp)
        have heq : actual = param := (hvalue.known hready₁.ok.table).eq_of_isAssignableTo
          (by rw [harg.1.symbols]; exact hparam.1) hassignable
        exact ⟨heq ▸ hparam.2, .inr (by rw [heq])⟩
    refine ⟨actual :: types, .cons hvalue' hvoid.1 htypes, by simp [hlength], fun hle => ?_⟩
    rcases hvoid.2 with rfl | rfl
    · exact List.nil_prefix
    · exact List.prefix_cons_inj actual |>.2 (hparams (Nat.le_of_succ_le_succ hle))

/-- The parameters of a function have types that can be stored. -/
theorem SymbolTable.Ok.storable_parameterTypes {table : SymbolTable} (h : table.Ok)
    {symbol : SymbolId} {entry : FunctionEntry} (hentry : table.function? symbol = some entry)
    (hresolved : entry.resolved = true) : ∀ ty ∈ table.parameterTypes entry, ty.Storable table := by
  intro ty hty
  obtain ⟨a, ha, rfl⟩ := List.mem_map.1 hty
  obtain ⟨hmem, hmark⟩ := List.mem_filter.1 ha
  rcases (h.function hentry hresolved).2 a hmem with hmarker | ⟨v, hv⟩
  · simp [hmarker] at hmark
  · have hok : v.ty.Storable table := h a _ hv
    simpa [SymbolTable.symbolType, hv] using hok

/-- What the analysis of a call does once its target has been looked up. -/
def ResolvesCall (scope : ScopeId) (id : NodeId) (target : Option SymbolId) (args : List Expr)
    (ctx : Context) (ty : Ty) (ctx' : Context) : Prop :=
  ∃ function entry, target = some function ∧ ctx.symbols.function? function = some entry ∧
    ty = entry.returnType ∧ Rebinds (id :: Expr.nodesOfAll args) ctx ctx' ∧
    ctx'.bindings.symbol? id = some function ∧
    ∀ view, ctx.Ready scope view → ∃ types, Typed ctx' view (.values args) types ∧
      ctx.symbols.parameterTypes entry <+: types ∧
      (entry.traits.variadic = false → types.length = (ctx.symbols.parameterTypes entry).length)

/-- Once the callee is known, the rest of a call is sound where its arguments are. -/
theorem does_resolveTarget {scope : ScopeId} {callee : Ident} {id : NodeId}
    {target : Option SymbolId} {args : List Expr} {span : Span}
    {R : Context → Unit → Context → Prop} (hid : id ∉ Expr.nodesOfAll args)
    (hargs : ∀ params, Does (Expr.resolveArguments scope params args)
      fun ctx _ ctx' => ResolvesArguments scope params args ctx ctx')
    (hall : Does (Expr.resolveAll scope args) R) :
    Does (do
      match ← callee.resolveCall id target args.length span with
      | some (params, result) => Expr.resolveArguments scope params args; return result
      | none => Expr.resolveAll scope args; return Ty.error)
      (ResolvesCall scope id target args) := by
  refine ((does_resolveCall callee id target args.length span).bind
    (S := fun found ctx ty ctx' => ∀ params result, found = some (params, result) →
      ty = result ∧ ResolvesArguments scope params args ctx ctx') fun found => ?_).mono ?_
  · cases found with
    | none =>
        exact (hall.bind fun _ => does_pure Ty.error).mono fun _ _ _ _ _ _ h => by cases h
    | some found =>
        obtain ⟨params, result⟩ := found
        refine ((hargs params).bind fun _ => does_pure result).mono ?_
        rintro ctx ty ctx' ⟨_, _, h, rfl, rfl⟩ _ _ heq
        cases heq
        exact ⟨rfl, h⟩
  · rintro ctx ty ctx' ⟨found, ctx₁, ⟨function, entry, rfl, hentry, rfl, hle, hcount, rfl⟩, h⟩
    obtain ⟨rfl, hrebinds, htyped⟩ := h _ _ rfl
    have hfirst := Rebinds.bindSymbol id function ctx
    refine ⟨function, entry, rfl, hentry, rfl, ?_, ?_, fun view hready => ?_⟩
    · exact (hfirst.mono (by simp)).trans (hrebinds.mono fun n hn => List.mem_cons_of_mem id hn)
    · rw [hrebinds.symbol? id hid]
      simp [Bindings.symbol?_bindSymbol]
    · obtain ⟨types, htypes, hlength, hparams⟩ := htyped view (hfirst.ready hready)
        (hready.ok.table.storable_parameterTypes hentry (hready.resolved function entry hentry))
      exact ⟨types, htypes, hparams hle, fun hv => hlength.trans (hcount hv)⟩

/-- A call attaches things to its own node and those of its arguments. -/
theorem ResolvesCall.rebinds {scope : ScopeId} {id : NodeId} {target : Option SymbolId}
    {args : List Expr} {ctx ctx' : Context} {ty : Ty}
    (h : ResolvesCall scope id target args ctx ty ctx') :
    Rebinds (id :: Expr.nodesOfAll args) ctx ctx' := by
  obtain ⟨_, _, _, _, _, hrebinds, _⟩ := h
  exact hrebinds

/-- A call is typed once its receiver and its target are. -/
theorem ResolvesCall.typed {scope : ScopeId} {e : Expr} {id : NodeId} {callee : Ident}
    {object : Option Expr} {target : Option SymbolId} {args : List Expr} {ctx ctx' : Context}
    {ty : Ty} (h : ResolvesCall scope id target args ctx ty ctx')
    (hcall : e.IsCall id callee object args) (hid : id ∉ Expr.nodesOfAll args) {view : View}
    (hready : ctx.Ready scope view)
    (hself : ∀ function entry, target = some function →
      ctx.symbols.function? function = some entry →
      ctx.symbols.Callable function ∧
        ∃ types, Typed { ctx' with bindings := ctx'.bindings.bindType id ty } view
          (.receiver object entry.owner) types) :
    Typed { ctx' with bindings := ctx'.bindings.bindType id ty } view (.value e) [ty] := by
  obtain ⟨function, entry, rfl, hentry, rfl, hrebinds, hsymbol, hargs⟩ := h
  obtain ⟨types, htypes, hparams, hcount⟩ := hargs view hready
  obtain ⟨hcallable, selfTypes, hself⟩ := hself function entry rfl hentry
  have hok := (hrebinds.ready hready).ok.table
  have hlast := Rebinds.bindType id entry.returnType ctx'
  have hvalues := hlast.typed hok htypes fun n hn hmem => by
    rw [List.mem_singleton] at hmem
    exact hid (hmem ▸ hn)
  have hsymbols : ctx'.symbols = ctx.symbols := hrebinds.symbols
  refine .call hcall ?_ hsymbol ?_ (hready.resolved function entry hentry) hself hvalues ?_ ?_ ?_
  · simp [Bindings.type?_bindType]
  · rw [hsymbols]
    exact hentry
  · rw [hsymbols]
    exact hparams
  · rw [hsymbols]
    exact hcount
  · rw [hsymbols]
    exact hcallable

/-- The receiver of a call without one in front of it. -/
theorem Context.Ready.typed_receiver {ctx ctx' : Context} {scope : ScopeId} {view : View}
    (h : ctx.Ready scope view) (hsymbols : ctx'.symbols = ctx.symbols) {name : String}
    {function : SymbolId} {entry : FunctionEntry}
    (hname : ctx.lookupName? scope name = some function)
    (hentry : ctx.symbols.function? function = some entry) :
    ctx.symbols.Callable function ∧
      ∃ types, Typed ctx' view (.receiver none entry.owner) types := by
  have hs := SymbolTable.function?_eq_some_iff.1 hentry
  rcases h.sees.of_lookupName? hname with
    ⟨-, hstored⟩ | ⟨symbol, hsymbol, hitem⟩ | ⟨owner, ho, hmember⟩
  · simp [SymbolTable.storedVariable?, hs, Symbol.storedVariable?] at hstored
  · cases hs.symm.trans hsymbol
    have hfree : _ = none := hitem
    rw [hfree]
    exact ⟨.inl ⟨_, hentry, hfree⟩, [], .free⟩
  · obtain ⟨c, hc, hinherits, hcallable⟩ := hmember.owner h.ok.table hentry
    rw [hc]
    exact ⟨hcallable, _, .self ho (hsymbols ▸ hinherits)⟩

/-- The receiver of a call with one in front of it. -/
theorem Context.Ready.typed_object {ctx ctx' : Context} {scope : ScopeId} {view : View}
    (h : ctx.Ready scope view) {object : Expr} {actual : SymbolId}
    (hvalue : Typed ctx view (.value object) [.pointer (.classType actual)])
    {nodes : List NodeId} (hrebinds : Rebinds nodes ctx ctx')
    (hdisjoint : ∀ n ∈ object.nodes, n ∉ nodes) {name : String} {function : SymbolId}
    {entry : FunctionEntry} (hname : ctx.symbols.member? actual name = some function)
    (hentry : ctx.symbols.function? function = some entry) :
    ctx.symbols.Callable function ∧
      ∃ types, Typed ctx' view (.receiver (some object) entry.owner) types := by
  obtain ⟨c, hc, hinherits, hcallable⟩ :=
    (SymbolTable.hasMember_of_member? hname).owner h.ok.table hentry
  have hvalue' := hrebinds.typed h.ok.table hvalue hdisjoint
  rw [hc]
  exact ⟨hcallable, _, .object hvalue'.type? hvalue' (hrebinds.symbols ▸ hinherits)⟩

/-- An assignment is typed once its sides are. -/
theorem resolvesTo_assign {scope : ScopeId} {id : NodeId} {target value : Expr} {span : Span}
    {ctx ctx₁ ctx₂ : Context} {targetType valueType : Ty}
    (htarget : ResolvesTo scope target ctx targetType ctx₁) (hplace : target.isPlace = true)
    (hargument : ∀ id ident, target = .name id ident → ∀ symbol entry,
      ctx₁.bindings.symbol? id = some symbol →
      ctx₁.symbols.get? symbol = some (.argument entry) → targetType.isPointer = false)
    (hvalue : ResolvesTo scope value ctx₁ valueType ctx₂)
    (hassignable : valueType.isAssignableTo targetType = true)
    (hid : id ∉ target.nodes ++ value.nodes) (hdisjoint : ∀ n ∈ target.nodes, n ∉ value.nodes) :
    ResolvesTo scope (.assign id target value span) ctx .void
      { ctx₂ with bindings := ctx₂.bindings.bindType id .void } := by
  have hlast := Rebinds.bindType id .void ctx₂
  refine ⟨?_, fun view hready => ?_⟩
  · rw [Expr.nodes_assign]
    refine (htarget.1.mono ?_).trans ((hvalue.1.mono ?_).trans (hlast.mono (by simp)))
    · exact fun n hn => List.mem_cons_of_mem id (List.mem_append_left _ hn)
    · exact fun n hn => List.mem_cons_of_mem id (List.mem_append_right _ hn)
  · have hready₁ := htarget.1.ready hready
    have hok₁ := hready₁.ok.table
    have hok₂ := (hvalue.1.ready hready₁).ok.table
    have haddress := (htarget.2 view hready).address hplace hargument
    have hvalue₂ := hvalue.2 view hready₁
    have haddress₂ := hvalue.1.typed hok₁ haddress hdisjoint
    have heq : valueType = targetType :=
      (hvalue₂.known hok₂).eq_of_isAssignableTo (haddress₂.storable hok₂).1 hassignable
    rw [heq] at hvalue₂
    have htarget : ctx₂.bindings.type? target.id = some targetType :=
      (hvalue.1.type? _ (hdisjoint _ target.id_mem_nodes)).trans (htarget.2 view hready).type?
    have hne : target.id ≠ id := fun heq =>
      hid (List.mem_append_left _ (heq ▸ target.id_mem_nodes))
    refine Typed.assign span (by simp [Bindings.type?_bindType])
      (by simpa [Bindings.type?_bindType, hne] using htarget) (?_ : Typed _ _ _ [targetType]) ?_
    · refine hlast.typed hok₂ hvalue₂ fun n hn hmem => hid ?_
      rw [List.mem_singleton] at hmem
      exact List.mem_append_right _ (hmem ▸ hn)
    · refine hlast.typed hok₂ haddress₂ fun n hn hmem => hid ?_
      rw [List.mem_singleton] at hmem
      exact List.mem_append_left _ (hmem ▸ hn)

/-- A member is typed once its object is. -/
theorem resolvesTo_member {scope : ScopeId} {id : NodeId} {object : Expr} {ident : Ident}
    {span : Span} {ctx ctx₁ : Context} {objectType : Ty} {record field : SymbolId}
    {entry : FieldEntry} (hobject : ResolvesTo scope object ctx objectType ctx₁)
    (hplace : objectType.isPointer = true ∨ object.isPlace = true)
    (hfound : objectType.pointee?.getD objectType = .classType record ∧
        ctx₁.symbols.member? record ident.name = some field ∨
      objectType.pointee?.getD objectType = .structType record ∧
        ctx₁.symbols.structField? record ident.name = some field)
    (hentry : ctx₁.symbols.field? field = some entry) (hid : id ∉ object.nodes) :
    ResolvesTo scope (.member id object ident span) ctx (ctx₁.symbols.symbolType field)
      { ctx₁ with
        bindings := (ctx₁.bindings.bindSymbol id field).bindType id
          (ctx₁.symbols.symbolType field) } := by
  have hlast := (Rebinds.bindSymbol id field ctx₁).trans
    (.bindType id (ctx₁.symbols.symbolType field) _)
  refine ⟨?_, fun view hready => ?_⟩
  · rw [Expr.nodes_member]
    exact (hobject.1.mono fun n hn => List.mem_cons_of_mem id hn).trans (hlast.mono (by simp))
  · have hok := (hobject.1.ready hready).ok.table
    have hvalue := hobject.2 view hready
    have hkeeps : ∀ n ∈ object.nodes, n ∉ [id] := fun n hn hmem =>
      hid (List.mem_singleton.1 hmem ▸ hn)
    have hbase : Typed ctx₁ view (.base object) [objectType.pointee?.getD objectType] := by
      cases hpointer : objectType.isPointer with
      | true =>
          cases objectType <;> simp only [Ty.isPointer, reduceCtorEq] at hpointer
          exact .basePointer hvalue.type? hvalue
      | false =>
          have hpointee : objectType.pointee?.getD objectType = objectType := by
            cases objectType <;> simp_all [Ty.isPointer, Ty.pointee?]
          rw [hpointee]
          refine .basePlace hvalue.type? hpointer (hvalue.address ?_ fun _ _ _ _ _ _ _ => hpointer)
          simpa [hpointer] using hplace
    have hty := SymbolTable.symbolType_of_field? hentry
    have hstores : ctx₁.symbols.Stores record field := by
      rcases hfound with ⟨-, hmember⟩ | ⟨-, hfield⟩
      · exact (SymbolTable.hasMember_of_member? hmember).stores hok hentry
      · exact SymbolTable.stores_of_structField? hfield
    rw [hty]
    refine .load (by simp [Bindings.type?_bindType, Expr.id]) ?_
    refine .member span (by simp [Bindings.symbol?_bindSymbol])
      (hty ▸ hlast.typed hok hbase hkeeps) ?_ hstores hentry
    exact hfound.imp And.left And.left

/-! ## One kind of expression at a time -/

/-- Whatever type is expected, resolving an expression is sound. -/
def Expr.DoesResolve (scope : ScopeId) (e : Expr) : Prop :=
  ∀ expected, Does (e.resolve scope expected) (ResolvesTo scope e)

namespace Expr.DoesResolve

variable {scope : ScopeId}

/-- The sides of an operator are resolved in the order that its literals ask for. -/
theorem binary {id : NodeId} {op : BinaryOp} {left right : Expr} {span : Span}
    (hnodes : (Expr.binary id op left right span).nodes.Nodup) (hleft : left.DoesResolve scope)
    (hright : right.DoesResolve scope) : DoesResolve scope (.binary id op left right span) := by
  intro expected
  rw [Expr.nodes_binary, List.nodup_cons, List.nodup_append] at hnodes
  obtain ⟨hid, -, -, hdisjoint⟩ := hnodes
  simp only [Expr.resolve]
  split
  · refine (does_typed ((hright _).bind fun rightType => (hleft _).bind fun leftType =>
      (does_pure _).bind fun (pair : Ty × Ty) =>
        does_operator op pair.1 pair.2 _ _ span)).mono ?_
    rintro ctx ty ctx' ⟨_, ⟨_, ctx₁, h₁, _, ctx₂, h₂, _, _, ⟨rfl, rfl⟩, rfl, hop⟩, rfl⟩
    refine resolvesTo_binary ?_ (fun view hready => ?_) hop hid
    · exact (h₁.1.mono (List.subset_append_right _ _)).trans
        (h₂.1.mono (List.subset_append_left _ _))
    · exact (typed_pair h₁ h₂ (fun n hn hn' => hdisjoint n hn' n hn rfl) hready).symm
  · refine (does_typed ((hleft _).bind fun leftType => (hright _).bind fun rightType =>
      (does_pure _).bind fun (pair : Ty × Ty) =>
        does_operator op pair.1 pair.2 _ _ span)).mono ?_
    rintro ctx ty ctx' ⟨_, ⟨_, ctx₁, h₁, _, ctx₂, h₂, _, _, ⟨rfl, rfl⟩, rfl, hop⟩, rfl⟩
    refine resolvesTo_binary ?_ (fun view hready => ?_) hop hid
    · exact (h₁.1.mono (List.subset_append_left _ _)).trans
        (h₂.1.mono (List.subset_append_right _ _))
    · exact typed_pair h₁ h₂ (fun n hn hn' => hdisjoint n hn n hn' rfl) hready

/-- An assignment resolves its target, and then its value. -/
theorem assign {id : NodeId} {target value : Expr} {span : Span}
    (hplace : target.isPlace = true) (hnodes : (Expr.assign id target value span).nodes.Nodup)
    (htarget : target.DoesResolve scope) (hvalue : value.DoesResolve scope) :
    DoesResolve scope (.assign id target value span) := by
  intro expected
  rw [Expr.nodes_assign, List.nodup_cons, List.nodup_append] at hnodes
  obtain ⟨hid, -, -, hdisjoint⟩ := hnodes
  simp only [Expr.resolve]
  refine (does_typed ((htarget none).bind fun targetType =>
    (does_checkTarget target targetType).bind fun _ => (hvalue _).bind fun valueType =>
    (does_checkAssignable valueType targetType _).bind fun _ => does_pure Ty.void)).mono ?_
  rintro ctx ty ctx' ⟨_, ⟨targetType, ctx₁, h₁, _, _, ⟨rfl, hargument⟩, valueType, ctx₂, h₂, _, _,
    ⟨rfl, hassignable⟩, rfl, rfl⟩, rfl⟩
  exact resolvesTo_assign h₁ hplace hargument h₂ hassignable hid
    fun n hn hn' => hdisjoint n hn n hn' rfl

/-- A call without a receiver goes to what its scope has for the callee. -/
theorem call {id : NodeId} {callee : Ident} {args : List Expr} {span : Span}
    (hid : id ∉ Expr.nodesOfAll args)
    (hargs : ∀ params, Does (Expr.resolveArguments scope params args)
      fun ctx _ ctx' => ResolvesArguments scope params args ctx ctx')
    (hall : Does (Expr.resolveAll scope args)
      fun ctx _ ctx' => Rebinds (Expr.nodesOfAll args) ctx ctx') :
    DoesResolve scope (.call id callee args span) := by
  intro expected
  simp only [Expr.resolve]
  refine (does_typed (R := fun ctx => ResolvesCall scope id
    (ctx.lookupName? scope callee.name) args ctx) (does_read fun before =>
    (does_resolveTarget hid hargs hall).mono ?_)).mono ?_
  · rintro ctx ty ctx' h rfl
    exact h
  · rintro ctx ty ctx' ⟨ctx₁, h, rfl⟩
    refine ⟨?_, fun view hready => ?_⟩
    · rw [Expr.nodes_call]
      exact h.rebinds.trans ((Rebinds.bindType id ty ctx₁).mono (by simp))
    · refine h.typed (.call id callee args span) hid hready ?_
      intro function entry hname hentry
      obtain ⟨hcallable, types, htypes⟩ := hready.typed_receiver h.rebinds.symbols hname hentry
      exact ⟨hcallable, types, (Rebinds.bindType id ty ctx₁).typed
        (h.rebinds.ready hready).ok.table htypes (by simp [Task.subexprs])⟩

/-- A method call goes to what the class of its receiver has for the callee. -/
theorem methodCall {id : NodeId} {receiver : Expr} {callee : Ident} {args : List Expr} {span : Span}
    (hnodes : (Expr.methodCall id receiver callee args span).nodes.Nodup)
    (hreceiver : receiver.DoesResolve scope)
    (hargs : ∀ params, Does (Expr.resolveArguments scope params args)
      fun ctx _ ctx' => ResolvesArguments scope params args ctx ctx')
    (hall : Does (Expr.resolveAll scope args)
      fun ctx _ ctx' => Rebinds (Expr.nodesOfAll args) ctx ctx') :
    DoesResolve scope (.methodCall id receiver callee args span) := by
  intro expected
  rw [Expr.nodes_methodCall, List.nodup_cons, List.nodup_append] at hnodes
  obtain ⟨hid, -, -, hdisjoint⟩ := hnodes
  have hid' : id ∉ Expr.nodesOfAll args := fun h => hid (List.mem_append_right _ h)
  have hdisjoint' : ∀ n ∈ receiver.nodes, n ∉ id :: Expr.nodesOfAll args := by
    intro n hn hmem
    rcases List.mem_cons.1 hmem with rfl | hmem
    · exact hid (List.mem_append_left _ hn)
    · exact hdisjoint n hn n hmem rfl
  simp only [Expr.resolve]
  refine (does_typed ((hreceiver none).bind fun receiverType =>
    (does_resolveMethod callee receiverType).bind (S := fun found ctx ty ctx' =>
      Rebinds (id :: Expr.nodesOfAll args) ctx ctx' ∧
      ∀ target, found = some target → ResolvesCall scope id target args ctx ty ctx')
    fun found => ?_)).mono ?_
  · cases found with
    | none =>
        refine (hall.bind fun _ => does_pure Ty.error).mono ?_
        rintro ctx ty ctx' ⟨_, _, hrebinds, rfl, rfl⟩
        exact ⟨hrebinds.mono fun n hn => List.mem_cons_of_mem id hn, by simp⟩
    | some target =>
        refine (does_resolveTarget hid' hargs hall).mono ?_
        rintro ctx ty ctx' h
        exact ⟨h.rebinds, by simpa using h⟩
  · rintro ctx ty ctx' ⟨ctx₂, ⟨receiverType, ctx₁, h₁, found, _, ⟨rfl, hfound⟩, hrebinds, h₂⟩, rfl⟩
    have hlast := hrebinds.trans ((Rebinds.bindType id ty ctx₂).mono (by simp))
    refine ⟨?_, fun view hready => ?_⟩
    · rw [Expr.nodes_methodCall]
      refine (h₁.1.mono ?_).trans (hlast.mono ?_)
      · exact fun n hn => List.mem_cons_of_mem id (List.mem_append_left _ hn)
      · exact List.cons_subset_cons id (List.subset_append_right _ _)
    · have hready₁ := h₁.1.ready hready
      have hvalue := h₁.2 view hready
      rcases hfound with herror | ⟨c, rfl, rfl⟩
      · simp [(hvalue.known hready₁.ok.table).isError] at herror
      · refine (h₂ _ rfl).typed (.methodCall id receiver callee args span) hid' hready₁ ?_
        intro function entry hname hentry
        exact hready₁.typed_object hvalue hlast hdisjoint' hname hentry

/-- A member goes to what the record of its object has for the name. -/
theorem member {id : NodeId} {object : Expr} {ident : Ident} {span : Span}
    (hid : id ∉ object.nodes) (hobject : object.DoesResolve scope) :
    DoesResolve scope (.member id object ident span) := by
  intro expected
  simp only [Expr.resolve]
  refine (does_typed ((hobject none).bind fun objectType =>
    does_resolveMember ident id objectType object.isPlace object.span span)).mono ?_
  rintro ctx ty ctx' ⟨_, ⟨objectType, ctx₁, h, hmember⟩, rfl⟩
  rcases hmember with ⟨herror, rfl⟩ | ⟨hplace, record, field, entry, hfound, hentry, rfl, rfl⟩
  · refine ⟨?_, fun view hready => ?_⟩
    · rw [Expr.nodes_member]
      exact (h.1.mono fun n hn => List.mem_cons_of_mem id hn).trans
        ((Rebinds.bindType id ty _).mono (by simp))
    · have hknown := (h.2 view hready).known (h.1.ready hready).ok.table
      simp [hknown.isError] at herror
  · exact resolvesTo_member h hplace hfound hentry hid

end Expr.DoesResolve

/-! ## The induction -/

mutual

/-- **Resolving an expression is sound.** -/
theorem Expr.does_resolve (scope : ScopeId) (e : Expr) (hproper : e.Proper)
    (hnodes : e.nodes.Nodup) : e.DoesResolve scope := by
  cases e with
  | literal id value span => exact fun expected => does_resolve_literal scope id value span expected
  | name id ident => exact fun _ => does_resolve_name scope id ident
  | binary id op left right span =>
      rw [Expr.proper_binary] at hproper
      obtain ⟨hl, hr, -⟩ := List.nodup_append.1
        (List.nodup_cons.1 (Expr.nodes_binary .. ▸ hnodes)).2
      exact .binary hnodes (Expr.does_resolve scope left hproper.1 hl)
        (Expr.does_resolve scope right hproper.2 hr)
  | assign id target value span =>
      rw [Expr.proper_assign] at hproper
      obtain ⟨ht, hv, -⟩ := List.nodup_append.1
        (List.nodup_cons.1 (Expr.nodes_assign .. ▸ hnodes)).2
      exact .assign hproper.1 hnodes (Expr.does_resolve scope target hproper.2.1 ht)
        (Expr.does_resolve scope value hproper.2.2 hv)
  | call id callee args span =>
      rw [Expr.proper_call] at hproper
      obtain ⟨hid, hargs⟩ := List.nodup_cons.1 (Expr.nodes_call .. ▸ hnodes)
      exact .call hid (fun params => Expr.does_resolveArguments scope params args hproper hargs)
        (Expr.does_resolveAll scope args hproper hargs)
  | methodCall id receiver callee args span =>
      rw [Expr.proper_methodCall] at hproper
      obtain ⟨hr, hargs, -⟩ :=
        List.nodup_append.1 (List.nodup_cons.1 (Expr.nodes_methodCall .. ▸ hnodes)).2
      exact .methodCall hnodes (Expr.does_resolve scope receiver hproper.1 hr)
        (fun params => Expr.does_resolveArguments scope params args hproper.2 hargs)
        (Expr.does_resolveAll scope args hproper.2 hargs)
  | member id object ident span =>
      rw [Expr.proper_member] at hproper
      obtain ⟨hid, hobject⟩ := List.nodup_cons.1 (Expr.nodes_member .. ▸ hnodes)
      exact .member hid (Expr.does_resolve scope object hproper hobject)

/-- Resolving arguments without parameters touches their own nodes only. -/
theorem Expr.does_resolveAll (scope : ScopeId) (args : List Expr) (hproper : Expr.AllProper args)
    (hnodes : (Expr.nodesOfAll args).Nodup) :
    Does (Expr.resolveAll scope args) fun ctx _ ctx' =>
      Rebinds (Expr.nodesOfAll args) ctx ctx' := by
  cases args with
  | nil =>
      simp only [Expr.resolveAll]
      refine (does_pure ()).mono ?_
      rintro ctx _ ctx' ⟨_, rfl⟩
      exact .refl _ _
  | cons arg rest =>
      rw [Expr.allProper_cons] at hproper
      rw [Expr.nodesOfAll_cons, List.nodup_append] at hnodes
      simp only [Expr.resolveAll]
      refine ((Expr.does_resolve scope arg hproper.1 hnodes.1 none).bind fun _ =>
        Expr.does_resolveAll scope rest hproper.2 hnodes.2.1).mono ?_
      rintro ctx _ ctx' ⟨_, ctx₁, h₁, h₂⟩
      rw [Expr.nodesOfAll_cons]
      exact (h₁.1.mono (List.subset_append_left _ _)).trans (h₂.mono (List.subset_append_right _ _))

/-- Resolving arguments with their parameters is sound. -/
theorem Expr.does_resolveArguments (scope : ScopeId) (params : List Ty) (args : List Expr)
    (hproper : Expr.AllProper args) (hnodes : (Expr.nodesOfAll args).Nodup) :
    Does (Expr.resolveArguments scope params args)
      fun ctx _ ctx' => ResolvesArguments scope params args ctx ctx' := by
  cases args with
  | nil =>
      simp only [Expr.resolveArguments]
      refine (does_pure ()).mono ?_
      rintro ctx _ ctx' ⟨_, rfl⟩
      refine ⟨.refl _ _, fun view _ _ => ⟨[], .nil, rfl, fun hle => ?_⟩⟩
      obtain rfl := List.eq_nil_of_length_eq_zero (Nat.le_zero.1 hle)
      exact List.prefix_rfl
  | cons arg rest =>
      rw [Expr.allProper_cons] at hproper
      rw [Expr.nodesOfAll_cons, List.nodup_append] at hnodes
      have harg := Expr.does_resolve scope arg hproper.1 hnodes.1
      have hrest := fun params =>
        Expr.does_resolveArguments scope params rest hproper.2 hnodes.2.1
      have hdisjoint : ∀ n ∈ arg.nodes, n ∉ Expr.nodesOfAll rest :=
        fun n hn hn' => hnodes.2.2 n hn n hn' rfl
      cases params with
      | nil =>
          simp only [Expr.resolveArguments]
          refine ((harg none).bind (S := fun actual ctx _ ctx' => actual.isVoid = false ∧
            ResolvesArguments scope [] rest ctx ctx') fun actual => ?_).mono ?_
          · split
            · exact (does_mismatch _ _).bind_never fun _ => hrest []
            · next hvoid => exact (hrest []).mono fun _ _ _ h => ⟨by simpa using hvoid, h⟩
          · rintro ctx _ ctx' ⟨actual, ctx₁, h₁, hvoid, h₂⟩
            exact resolvesArguments_cons h₁ h₂ hdisjoint (.inl ⟨rfl, rfl, hvoid⟩)
      | cons param params =>
          simp only [Expr.resolveArguments]
          refine ((harg (some param)).bind fun actual =>
            (does_checkAssignable actual param arg.span).bind fun _ => hrest params).mono ?_
          rintro ctx _ ctx' ⟨actual, ctx₁, h₁, _, _, ⟨rfl, hassignable⟩, h₂⟩
          exact resolvesArguments_cons h₁ h₂ hdisjoint (.inr ⟨param, rfl, hassignable⟩)

end

end ClassLang
