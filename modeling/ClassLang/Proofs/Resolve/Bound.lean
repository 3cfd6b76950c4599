import ClassLang.Proofs.Accepted
import ClassLang.Proofs.Resolve.Declared

/-!
# A script that resolves is bound completely

The type `error` is taken by every check, so that one mistake is reported once.  It must not
get through in silence, though: where nothing is reported, every declaration has a symbol of
its kind, every expression has a type in which no part is missing, and every name, member and
call is bound to a symbol of which it has the type (`resolve_fullyBound`).
-/

namespace ClassLang

open Analysis

/-- Whether a part of the type could not be resolved. -/
def Ty.hasError : Ty → Bool
  | .pointer base => base.hasError
  | .array base _ => base.hasError
  | .error => true
  | .primitive _ | .function _ | .classType _ | .structType _ => false

theorem Ty.Known.hasError {table : SymbolTable} {ty : Ty} (h : ty.Known table) :
    ty.hasError = false := by
  induction ty with
  | pointer base ih => exact ih h
  | array base size => exact h.elim
  | error => exact h.elim
  | _ => rfl

/-- What kind of symbol a node has. -/
def Context.kindAt? (ctx : Context) (node : NodeId) : Option String :=
  ((ctx.bindings.symbol? node).bind ctx.symbols.get?).map Symbol.kindName

/-- The name, member or call is bound, and has the type of what it is bound to. -/
def Expr.Refers (ctx : Context) : Expr → Prop
  | .name id _ => ∃ x, ctx.bindings.symbol? id = some x ∧
      ctx.kindAt? id ∈ [some "argument", some "local variable", some "field"] ∧
      ctx.bindings.type? id = some (ctx.symbols.symbolType x)
  | .member id _ _ _ => ∃ x, ctx.bindings.symbol? id = some x ∧ ctx.kindAt? id = some "field" ∧
      ctx.bindings.type? id = some (ctx.symbols.symbolType x)
  | .call id _ _ _ | .methodCall id _ _ _ _ => ∃ x entry, ctx.bindings.symbol? id = some x ∧
      ctx.symbols.function? x = some entry ∧ ctx.bindings.type? id = some entry.returnType
  | .literal _ _ _ | .binary _ _ _ _ _ | .assign _ _ _ _ => True

/-- The expression has a type, and what it refers to is known. -/
structure Expr.Bound (ctx : Context) (e : Expr) : Prop where
  type : ∃ ty, ctx.bindings.type? e.id = some ty ∧ ty.hasError = false
  refers : e.Refers ctx

/-- The nodes that declare something, with what they declare. -/
def FunctionDecl.declarations (decl : FunctionDecl) : List (NodeId × String) :=
  (decl.id, "function") :: (decl.params.map fun param => (param.id, "argument")) ++
    decl.visits.filterMap fun
      | .stmt (.varDecl id _ _ _ _) => some (id, "local variable")
      | _ => none

@[inherit_doc FunctionDecl.declarations]
def Item.declarations : Item → List (NodeId × String)
  | .classDecl decl => (decl.id, "class") :: (decl.fields.map fun field => (field.id, "field")) ++
      decl.methods.flatMap FunctionDecl.declarations
  | .structDecl decl => (decl.id, "struct") :: decl.fields.map fun field => (field.id, "field")
  | .function decl => decl.declarations

@[inherit_doc FunctionDecl.declarations]
def Script.declarations (script : Script) : List (NodeId × String) :=
  script.items.flatMap Item.declarations

/-- The types that are stored for a symbol. -/
def Symbol.storedTypes : Symbol → List Ty
  | .field entry => [entry.ty]
  | .argument entry | .localVariable entry => [entry.ty]
  | .function entry => [entry.returnType]
  | .classEntry _ | .structEntry _ | .literal _ | .variadicMarker => []

/-- Nothing in a script is left open. -/
structure FullyBound (script : Script) (ctx : Context) : Prop where
  /-- Every declaration has a symbol of its kind. -/
  declarations : ∀ node kind, (node, kind) ∈ script.declarations → ctx.kindAt? node = some kind
  /-- Every expression of every body is bound. -/
  exprs : ∀ e, .expr e ∈ script.visits → e.Bound ctx
  /-- Every function has its signature. -/
  signatures : ∀ id entry, ctx.symbols.function? id = some entry → entry.resolved = true
  /-- No stored type has a part that could not be resolved. -/
  types : ∀ id s, ctx.symbols.get? id = some s → ∀ ty ∈ s.storedTypes, ty.hasError = false

section

variable {ctx : Context} {view view' : View} {node : NodeId} {x : SymbolId} {s : Symbol}

/-! ## Expressions and statements -/

theorem Context.kindAt?_eq (hx : ctx.bindings.symbol? node = some x)
    (hs : ctx.symbols.get? x = some s) :
    ctx.kindAt? node = some s.kindName := by
  simp [kindAt?, hx, hs]

theorem Context.kindAt?_class (hx : ctx.bindings.symbol? node = some x) {e : ClassEntry}
    (he : ctx.symbols.class? x = some e) : ctx.kindAt? node = some "class" :=
  ctx.kindAt?_eq hx (SymbolTable.class?_eq_some_iff.1 he)

theorem Context.kindAt?_struct (hx : ctx.bindings.symbol? node = some x) {e : StructEntry}
    (he : ctx.symbols.struct? x = some e) : ctx.kindAt? node = some "struct" :=
  ctx.kindAt?_eq hx (SymbolTable.struct?_eq_some_iff.1 he)

theorem Context.kindAt?_function (hx : ctx.bindings.symbol? node = some x) {e : FunctionEntry}
    (he : ctx.symbols.function? x = some e) : ctx.kindAt? node = some "function" :=
  ctx.kindAt?_eq hx (SymbolTable.function?_eq_some_iff.1 he)

theorem Context.kindAt?_field (hx : ctx.bindings.symbol? node = some x) {e : FieldEntry}
    (he : ctx.symbols.field? x = some e) :
    ctx.kindAt? node = some "field" ∧ ctx.symbols.symbolType x = e.ty :=
  ⟨ctx.kindAt?_eq hx (SymbolTable.field?_eq_some_iff.1 he), SymbolTable.symbolType_of_field? he⟩

theorem Context.kindAt?_variable (hx : ctx.bindings.symbol? node = some x) {e : VariableEntry}
    (he : ctx.symbols.storedVariable? x = some e) :
    ctx.kindAt? node ∈ [some "argument", some "local variable"] ∧
      ctx.symbols.symbolType x = e.ty := by
  refine ⟨?_, SymbolTable.symbolType_of_storedVariable? he⟩
  rcases SymbolTable.storedVariable?_eq_some_iff.1 he with hs | hs <;>
    simp [ctx.kindAt?_eq hx hs, Symbol.kindName]

/-- The name of a variable, which has its type. -/
theorem Expr.bound_variable (hok : ctx.symbols.Ok) {entry : VariableEntry} (ident : Ident)
    (hsymbol : ctx.bindings.symbol? node = some x)
    (hentry : ctx.symbols.storedVariable? x = some entry)
    (htype : ctx.bindings.type? node = some entry.ty) : (Expr.name node ident).Bound ctx := by
  obtain ⟨hkind, hsame⟩ := ctx.kindAt?_variable hsymbol hentry
  refine ⟨⟨_, htype, (hok.storable hentry).1.hasError⟩, x, hsymbol, ?_, hsame ▸ htype⟩
  exact List.mem_append_left [some "field"] hkind

/-- The name of a field of the receiver, which has its type. -/
theorem Expr.bound_ownField (hok : ctx.symbols.Ok) {entry : FieldEntry} (ident : Ident)
    (hsymbol : ctx.bindings.symbol? node = some x)
    (hentry : ctx.symbols.field? x = some entry)
    (htype : ctx.bindings.type? node = some entry.ty) : (Expr.name node ident).Bound ctx := by
  obtain ⟨hkind, hsame⟩ := ctx.kindAt?_field hsymbol hentry
  exact ⟨⟨_, htype, (hok.field hentry).1.hasError⟩, x, hsymbol, by simp [hkind], hsame ▸ htype⟩

/-- A member, which has the type of its field. -/
theorem Expr.bound_member (hok : ctx.symbols.Ok) {entry : FieldEntry} (object : Expr)
    (ident : Ident) (span : Span) (hsymbol : ctx.bindings.symbol? node = some x)
    (hentry : ctx.symbols.field? x = some entry)
    (htype : ctx.bindings.type? node = some entry.ty) :
    (Expr.member node object ident span).Bound ctx := by
  obtain ⟨hkind, hsame⟩ := ctx.kindAt?_field hsymbol hentry
  exact ⟨⟨_, htype, (hok.field hentry).1.hasError⟩, x, hsymbol, hkind, hsame ▸ htype⟩

/-- A call, which has the type that its function gives back. -/
theorem Expr.IsCall.bound (hok : ctx.symbols.Ok) {e : Expr} {callee : Ident}
    {object : Option Expr} {args : List Expr} {entry : FunctionEntry}
    (hcall : e.IsCall node callee object args) (hsymbol : ctx.bindings.symbol? node = some x)
    (hentry : ctx.symbols.function? x = some entry) (hresolved : entry.resolved = true)
    (htype : ctx.bindings.type? node = some entry.returnType) : e.Bound ctx := by
  have hknown := (hok.function hentry hresolved).1.hasError
  cases hcall <;> exact ⟨⟨_, htype, hknown⟩, x, entry, hsymbol, hentry, htype⟩

/-- **What is typed is bound.**  The place that is assigned to is no value, so that its type is
asked for. -/
theorem Typed.bound {task : Task} {types : List Ty} (hok : ctx.symbols.Ok)
    (h : Typed ctx view task types)
    (haddress : ∀ e, task = .address e → ∃ ty, types = [ty] ∧ ctx.bindings.type? e.id = some ty) :
    ∀ sub ∈ task.subexprs, sub.Bound ctx := by
  induction h with
  | bool b span htype => exact List.forall_mem_singleton.2 ⟨⟨_, htype, rfl⟩, trivial⟩
  | int span htype => exact List.forall_mem_singleton.2 ⟨⟨_, htype, rfl⟩, trivial⟩
  | string text span htype => exact List.forall_mem_singleton.2 ⟨⟨_, htype, rfl⟩, trivial⟩
  | @argument id symbol entry ident htype hsymbol hentry =>
      have hstored : ctx.symbols.storedVariable? symbol = some entry := by
        simp [SymbolTable.storedVariable?, hentry, Symbol.storedVariable?]
      exact List.forall_mem_singleton.2 (Expr.bound_variable hok ident hsymbol hstored htype)
  | load htype _ ih =>
      apply ih
      intro e he
      cases he
      exact ⟨_, rfl, htype⟩
  | or span htype _ _ ih₁ ih₂ =>
      exact List.forall_mem_cons.2 ⟨⟨⟨_, htype, rfl⟩, trivial⟩,
        List.forall_mem_append.2 ⟨ih₁ (by simp), ih₂ (by simp)⟩⟩
  | operator span htype _ _ hop ih₁ ih₂ =>
      exact List.forall_mem_cons.2 ⟨⟨⟨_, htype, by cases hop <;> rfl⟩, trivial⟩,
        List.forall_mem_append.2 ⟨ih₁ (by simp), ih₂ (by simp)⟩⟩
  | assign span htype htarget _ _ ih₁ ih₂ =>
      refine List.forall_mem_cons.2 ⟨⟨⟨_, htype, rfl⟩, trivial⟩,
        List.forall_mem_append.2 ⟨ih₂ ?_, ih₁ (by simp)⟩⟩
      intro e he
      cases he
      exact ⟨_, rfl, htarget⟩
  | call hcall htype hsymbol hentry hresolved _ _ _ _ _ ih₁ ih₂ =>
      have hself := hcall.bound hok hsymbol hentry hresolved htype
      cases hcall with
      | call => exact List.forall_mem_cons.2 ⟨hself, ih₂ (by simp)⟩
      | methodCall =>
          refine List.forall_mem_cons.2 ⟨hself, List.forall_mem_append.2 ⟨?_, ih₂ (by simp)⟩⟩
          simpa [Task.subexprs] using ih₁
  | stored ident hsymbol hentry =>
      obtain ⟨ty, hty, htype⟩ := haddress _ rfl
      cases hty
      exact List.forall_mem_singleton.2 (Expr.bound_variable hok ident hsymbol hentry htype)
  | ownField ident hsymbol _ _ hentry =>
      obtain ⟨ty, hty, htype⟩ := haddress _ rfl
      cases hty
      exact List.forall_mem_singleton.2 (Expr.bound_ownField hok ident hsymbol hentry htype)
  | @member id object ident record field ty entry span hsymbol _ _ _ hentry ih =>
      obtain ⟨ty, hty, htype⟩ := haddress _ rfl
      cases hty
      exact List.forall_mem_cons.2
        ⟨Expr.bound_member hok object ident span hsymbol hentry htype, ih (by simp)⟩
  | basePointer _ _ ih => exact ih (by simp)
  | basePlace htype _ _ ih =>
      apply ih
      intro e he
      cases he
      exact ⟨_, rfl, htype⟩
  | free | self | nil =>
      intro sub hsub
      cases hsub
  | object _ _ _ ih => simpa [Task.subexprs] using ih
  | cons _ _ _ ih₁ ih₂ => exact List.forall_mem_append.2 ⟨ih₁ (by simp), ih₂ (by simp)⟩

/-- What is met on the way through a statement is bound. -/
def Visit.Bound (ctx : Context) : Visit → Prop
  | .expr e => e.Bound ctx
  | .stmt (.varDecl id _ _ _ _) => ctx.kindAt? id = some "local variable"
  | _ => True

theorem Typed.visits_bound {e : Expr} {types : List Ty} (hok : ctx.symbols.Ok)
    (h : Typed ctx view (.value e) types) : ∀ visit ∈ e.visits, visit.Bound ctx := by
  intro visit hvisit
  obtain ⟨sub, hsub, rfl⟩ := List.mem_map.1 hvisit
  exact h.bound hok nofun sub hsub

/-- **Statements that are typed are bound.** -/
theorem TypedStmt.bound {ret : Ty} {n n' : Nat} {task : StmtTask} (hok : ctx.symbols.Ok)
    (h : TypedStmt ctx ret view n task view' n') : ∀ visit ∈ task.visits, visit.Bound ctx := by
  induction h with
  | nil =>
      intro visit hvisit
      cases hvisit
  | cons _ _ ih₁ ih₂ =>
      intro visit hvisit
      rcases List.mem_append.1 hvisit with hvisit | hvisit
      · exact ih₁ visit hvisit
      · exact ih₂ visit hvisit
  | block id span _ ih =>
      intro visit hvisit
      rcases List.mem_cons.1 hvisit with rfl | hvisit
      · trivial
      · rcases List.mem_cons.1 hvisit with rfl | hvisit
        · trivial
        · exact ih visit hvisit
  | declare ty name span hsymbol hentry _ =>
      intro visit hvisit
      rw [List.mem_singleton.1 hvisit]
      exact ctx.kindAt?_eq hsymbol hentry
  | declareWith ty name span hsymbol hentry _ hvalue =>
      intro visit hvisit
      rcases List.mem_cons.1 hvisit with rfl | hvisit
      · exact ctx.kindAt?_eq hsymbol hentry
      · exact hvalue.visits_bound hok visit hvisit
  | ifThen span hcondition _ ih =>
      intro visit hvisit
      rcases List.mem_cons.1 hvisit with rfl | hvisit
      · trivial
      · rcases List.mem_append.1 hvisit with hvisit | hvisit
        · exact hcondition.visits_bound hok visit hvisit
        · exact ih visit hvisit
  | ifElse span hcondition _ _ ih₁ ih₂ =>
      intro visit hvisit
      rcases List.mem_cons.1 hvisit with rfl | hvisit
      · trivial
      · rcases List.mem_append.1 hvisit with hvisit | hvisit
        · rcases List.mem_append.1 hvisit with hvisit | hvisit
          · exact hcondition.visits_bound hok visit hvisit
          · exact ih₁ visit hvisit
        · exact ih₂ visit hvisit
  | ret =>
      intro visit hvisit
      rw [List.mem_singleton.1 hvisit]
      trivial
  | retValue n span hvalue _ =>
      intro visit hvisit
      rcases List.mem_cons.1 hvisit with rfl | hvisit
      · trivial
      · exact hvalue.visits_bound hok visit hvisit
  | expr n span hvalue =>
      intro visit hvisit
      rcases List.mem_cons.1 hvisit with rfl | hvisit
      · trivial
      · exact hvalue.visits_bound hok visit hvisit

end

/-! ## Functions, items and scripts -/

section

variable {script : Script} {ctx : Context} {decl : FunctionDecl} {owner : Option SymbolId}
  {id : SymbolId}

/-- The body of a function that was checked is bound. -/
theorem Checked.visits_bound (h : Checked ctx decl owner id) (hok : ctx.symbols.Ok) :
    ∀ visit ∈ decl.visits, visit.Bound ctx := by
  obtain ⟨entry, -, -, -, -, hbody⟩ := h
  intro visit hvisit
  rcases List.mem_cons.1 hvisit with rfl | hvisit
  · trivial
  · split at hvisit
    · next block hblock =>
        obtain ⟨view, n, htyped⟩ := hbody block (by simp [hblock, FunctionBody.block?])
        obtain ⟨view', n', hstmts⟩ := htyped.stmts
        rcases List.mem_cons.1 hvisit with rfl | hvisit
        · trivial
        · exact hstmts.bound hok visit hvisit
    · cases hvisit

/-- What a function declares has symbols. -/
theorem Checked.declarations (h : Checked ctx decl owner id) (hok : ctx.symbols.Ok)
    (hframed : Framed ctx decl owner id) {node : NodeId} {kind : String}
    (hmem : (node, kind) ∈ decl.declarations) : ctx.kindAt? node = some kind := by
  rcases List.mem_append.1 hmem with hmem | hmem
  · rcases List.mem_cons.1 hmem with heq | hmem
    · obtain ⟨entry, hsymbol, hentry, -⟩ := h
      cases heq
      exact ctx.kindAt?_function hsymbol hentry
    · obtain ⟨param, hparam, heq⟩ := List.mem_map.1 hmem
      obtain ⟨-, scope, -, hpresents⟩ := hframed
      obtain ⟨a, entry, hsymbol, hentry, -⟩ := hpresents.binds.params param hparam
      cases heq
      exact ctx.kindAt?_eq hsymbol hentry
  · obtain ⟨visit, hvisit, hsome⟩ := List.mem_filterMap.1 hmem
    have hbound := h.visits_bound hok visit hvisit
    split at hsome
    · cases hsome
      exact hbound
    · cases hsome

/-- What an item declares has symbols. -/
theorem Item.Holds.declarations {item : Item} (hok : ctx.symbols.Ok)
    (hchecked : item.Holds (Checked ctx) ctx id) (hframed : item.Holds (Framed ctx) ctx id)
    (hmembers : item.Members ctx id) {node : NodeId} {kind : String}
    (hmem : (node, kind) ∈ item.declarations) : ctx.kindAt? node = some kind := by
  cases item with
  | function decl => exact hchecked.2.1.declarations hok hframed.2.1 hmem
  | structDecl decl =>
      rcases List.mem_cons.1 hmem with heq | hmem
      · obtain ⟨hsymbol, entry, hentry, -⟩ := hchecked
        cases heq
        exact ctx.kindAt?_struct hsymbol hentry
      · obtain ⟨field, hfield, heq⟩ := List.mem_map.1 hmem
        obtain ⟨x, entry, hx, hentry, -⟩ := hmembers.bound field hfield
        cases heq
        exact (ctx.kindAt?_field hx hentry).1
  | classDecl decl =>
      obtain ⟨hsymbol, ⟨entry, hentry, -⟩, _, -, -, -, hmethods⟩ := hchecked
      obtain ⟨-, -, _, -, -, -, hmethods'⟩ := hframed
      rcases List.mem_append.1 hmem with hmem | hmem
      · rcases List.mem_cons.1 hmem with heq | hmem
        · cases heq
          exact ctx.kindAt?_class hsymbol hentry
        · obtain ⟨field, hfield, heq⟩ := List.mem_map.1 hmem
          obtain ⟨member, hmember, hsome⟩ := List.mem_filterMap.1 hfield
          cases member <;> simp only [reduceCtorEq, Option.some.injEq] at hsome
          subst hsome
          obtain ⟨x, hx, ⟨entry, hentry, -⟩, -⟩ := hmembers.declared _ hmember
          cases heq
          exact (ctx.kindAt?_field hx hentry).1
      · obtain ⟨m, hm, hmem⟩ := List.mem_flatMap.1 hmem
        obtain ⟨g, -, hg⟩ := hmethods m hm
        obtain ⟨g', -, hg'⟩ := hmethods' m hm
        cases hg.symbol?.symm.trans hg'.1
        exact hg.declarations hok hg' hmem

/-- Expressions are met in functions. -/
theorem Script.expr_mem_visits {e : Expr} (h : .expr e ∈ script.visits) :
    ∃ item ∈ script.items, ∃ decl ∈ item.functions, .expr e ∈ decl.visits := by
  obtain ⟨item, hitem, hvisit⟩ := List.mem_flatMap.1 h
  refine ⟨item, hitem, ?_⟩
  cases item with
  | classDecl decl =>
      simp only [Item.visits, List.mem_cons, reduceCtorEq, false_or] at hvisit
      exact List.mem_flatMap.1 hvisit
  | structDecl decl => simp [Item.visits] at hvisit
  | function decl =>
      simp only [Item.visits, List.mem_cons, reduceCtorEq, false_or] at hvisit
      exact ⟨decl, List.mem_singleton_self _, hvisit⟩

end

/-- What the declarations of a script are bound to in the end. -/
theorem Script.declaredIn {script : Script} (hproper : script.Proper)
    (hclean : script.resolvedContext.Clean) : DeclaredIn script script.resolvedContext := by
  have hbodies := FunctionDecl.does_resolveBodies (script.items.flatMap Item.functions)
    (fun decl hdecl => script.proper_functions hproper hdecl) (Script.functions_nodup hproper)
  obtain ⟨hbefore, hresolve⟩ :=
    script.does_resolve_bodies hproper hbodies script.declaredContext _ _ rfl hclean
  obtain ⟨-, houtline⟩ := script.does_declare hproper .initial _ _ rfl hbefore
  obtain ⟨-, -, -, -, hdeclared, -⟩ := hresolve (houtline rfl)
  exact hdeclared

/-- **A script that is resolved without a report is bound completely.**  What the declaration of
names reports is still among the reports behind resolution, so that there is only one thing to
ask for. -/
theorem resolve_fullyBound {source : String} {script : Script} (hparse : parse source = .ok script)
    (hclean : script.resolvedContext.Clean) : FullyBound script script.resolvedContext := by
  have hproper := Script.proper_of_parse hparse
  have hanalysed := script.analysed hproper hclean
  have hdeclared := script.declaredIn hproper hclean
  have hok := hanalysed.ok.table
  constructor
  · intro node kind hmem
    obtain ⟨item, hitem, hmem⟩ := List.mem_flatMap.1 hmem
    obtain ⟨id, hchecked⟩ := hanalysed.checked item hitem
    obtain ⟨id', hframed, hmembers⟩ := hdeclared.items item hitem
    cases hchecked.1.symm.trans hframed.1
    exact hchecked.declarations hok hframed hmembers hmem
  · intro e hvisit
    obtain ⟨item, hitem, decl, hdecl, hvisit⟩ := Script.expr_mem_visits hvisit
    obtain ⟨id, hchecked⟩ := hanalysed.checked item hitem
    obtain ⟨owner, g, hfunction⟩ := hchecked.function hdecl
    exact hfunction.visits_bound hok (.expr e) hvisit
  · exact hanalysed.resolved
  · intro id s hs ty hty
    have hsok := hok id s hs
    cases s with
    | field entry => exact List.mem_singleton.1 hty ▸ Ty.Known.hasError hsok.1
    | argument entry => exact List.mem_singleton.1 hty ▸ Ty.Known.hasError hsok.1
    | localVariable entry => exact List.mem_singleton.1 hty ▸ Ty.Known.hasError hsok.1
    | function entry =>
        have hentry : script.resolvedContext.symbols.function? id = some entry := by
          simp [SymbolTable.function?, hs, Symbol.function?]
        have hresolved := hanalysed.resolved id entry hentry
        exact List.mem_singleton.1 hty ▸ (hsok.2 hresolved).1.hasError
    | _ => cases hty

/-- A source in which every kind of thing is declared. -/
def declaringSource : String :=
  "struct P { int32 x; } class A { P p; int32 get() { return p.x; } }" ++
    "int32 f(A* a, int32 k) { int32 y = k; y = a.get() + y; return y; }"

/-- What is declared in it, found out by resolving it. -/
theorem declaringSource_evaluated :
    (match parse declaringSource with
      | .ok script => !script.resolvedContext.diagnostics.hasErrors &&
          script.declarations.map Prod.snd == ["struct", "field", "class", "field", "function",
            "function", "argument", "argument", "local variable"]
      | .error _ => false) = true := by
  decide +kernel

theorem resolve_fullyBound_declaring : ∃ script, parse declaringSource = .ok script ∧
    script.resolvedContext.Clean ∧
    script.declarations.map Prod.snd = ["struct", "field", "class", "field", "function", "function",
      "argument", "argument", "local variable"] ∧
    FullyBound script script.resolvedContext := by
  have h := declaringSource_evaluated
  split at h
  · next script hparse =>
      simp only [Bool.and_eq_true, Bool.not_eq_true', beq_iff_eq] at h
      exact ⟨script, hparse, h.1, h.2, resolve_fullyBound hparse h.1⟩
  · cases h

end ClassLang
