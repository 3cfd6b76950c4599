import ClassLang.Proofs.Resolve.Signature
import ClassLang.Resolve.Stmt

/-!
# What resolution may do to symbols

An analysis goes on after an error, and what it leaves behind is used by the steps after it.
`Always m R` says what every run of `m` has done, reports or not; its sibling `Does` only
speaks of runs that report nothing.

Once classes have their parents, resolution changes the symbol table in five ways only
(`SymbolTable.Edit`), and none of them touches the lineage of a class: what its parent is, and
that it has not been laid out.  So what is known about lineages behind the `extends` clauses
is known behind the whole resolution (`Script.edits_resolveBodies` and the lemmas before it).
-/

namespace ClassLang

namespace SymbolTable

variable {t t' : SymbolTable} {id : SymbolId}

/-- One change that resolution makes to a table once parents are known. -/
inductive Edit : SymbolTable → SymbolTable → Prop
  | add (t : SymbolTable) {s : Symbol} (hclass : s.class? = none) (hliteral : s.literal? = none)
      (hbare : s.bare = s) : Edit t (t.add s)
  | field (t : SymbolTable) (owner field : SymbolId) : Edit t (t.pushField owner field)
  | function (t : SymbolTable) (id function : SymbolId) : Edit t (t.pushFunction id function)
  | replace (t : SymbolTable) (id old new : SymbolId) : Edit t (t.replaceFunction id old new)
  | sign (t : SymbolTable) {id : SymbolId} {entry : FunctionEntry}
      (h : t.function? id = some entry) (returnType : Ty) (arguments : List SymbolId) :
      Edit t (t.modify id fun _ => .function { entry with returnType, arguments, resolved := true })

/-- Any number of such changes. -/
abbrev Edits : SymbolTable → SymbolTable → Prop := Relation.ReflTransGen Edit

/-- The same classes with the same parents. -/
def SameLineage (t t' : SymbolTable) : Prop :=
  ∀ id, (t'.class? id).map ClassEntry.parent = (t.class? id).map ClassEntry.parent

/-- Lineages that stay twice stay. -/
theorem SameLineage.trans {t'' : SymbolTable} (h : t.SameLineage t') (h' : t'.SameLineage t'') :
    t.SameLineage t'' :=
  fun id => (h' id).trans (h id)

/-- A symbol that changes into one with the same lineage. -/
theorem sameLineage_modify {f : Symbol → Symbol}
    (h : ∀ s, t.get? id = some s →
      (f s).class?.map ClassEntry.parent = s.class?.map ClassEntry.parent) :
    t.SameLineage (t.modify id f) := by
  intro other
  rw [class?, class?, get?_modify]
  by_cases heq : id = other
  · subst heq
    cases hs : t.get? id with
    | none => simp
    | some s => simpa using h s hs
  · simp [heq]

/-- No edit touches a lineage. -/
theorem Edit.sameLineage (h : Edit t t') : t.SameLineage t' := by
  cases h with
  | @add s hclass =>
      intro other
      rw [class?, class?, get?_add]
      split
      · next heq => simp [heq, hclass, get?_eq_none (Nat.le_refl t.size)]
      · rfl
  | field => exact sameLineage_modify fun s _ => by cases s <;> rfl
  | function => exact sameLineage_modify fun s _ => by cases s <;> rfl
  | replace => exact sameLineage_modify fun s _ => by cases s <;> rfl
  | sign hentry =>
      refine sameLineage_modify fun s hs => ?_
      have hfunction := function?_eq_some_iff.1 hentry
      cases hs.symm.trans hfunction
      rfl

/-- No edit lays out a class. -/
theorem Edit.unlaid (h : Edit t t') (hunlaid : t.Unlaid) : t'.Unlaid := by
  cases h with
  | add _ _ hbare => exact hunlaid.add hbare
  | field | function | replace =>
      refine hunlaid.modify fun s _ hs => ?_
      cases s with
      | classEntry e =>
          have hlayout := Symbol.bare_classEntry_iff.1 hs
          exact Symbol.bare_classEntry_iff.2 hlayout
      | structEntry e => rfl
      | _ => exact hs
  | sign => exact hunlaid.modify fun _ _ _ => rfl

/-- **Edits keep lineages.** -/
theorem Edits.sameLineage (h : t.Edits t') : t.SameLineage t' := by
  induction h with
  | refl => exact fun _ => rfl
  | tail _ hstep ih => exact ih.trans hstep.sameLineage

/-- **Edits lay nothing out.** -/
theorem Edits.unlaid (h : t.Edits t') (hunlaid : t.Unlaid) : t'.Unlaid := by
  induction h with
  | refl => exact hunlaid
  | tail _ hstep ih => exact hstep.unlaid ih

end SymbolTable

namespace Analysis

variable {α β : Type}

/-- What a program has done, whatever it reported. -/
def Always (m : Analysis α) (R : Context → α → Context → Prop) : Prop :=
  ∀ ctx, R ctx (m.run ctx).1 (m.run ctx).2

/-- More may be true of what was done than is said. -/
theorem Always.mono {R R' : Context → α → Context → Prop} {m : Analysis α} (h : Always m R)
    (hR : ∀ ctx a ctx', R ctx a ctx' → R' ctx a ctx') : Always m R' :=
  fun ctx => hR ctx _ _ (h ctx)

/-- One program after another. -/
theorem Always.bind {R : Context → α → Context → Prop} {S : α → Context → β → Context → Prop}
    {m : Analysis α} {f : α → Analysis β} (hm : Always m R) (hf : ∀ a, Always (f a) (S a)) :
    Always (m >>= f) fun ctx b ctx'' => ∃ a ctx', R ctx a ctx' ∧ S a ctx' b ctx'' :=
  fun ctx => ⟨_, _, hm ctx, hf (m.run ctx).1 (m.run ctx).2⟩

/-- A loop, for a relation that holds of no step and of steps one after the other. -/
theorem always_forM {R : Context → Context → Prop} (hrefl : ∀ ctx, R ctx ctx)
    (htrans : ∀ {ctx ctx' ctx''}, R ctx ctx' → R ctx' ctx'' → R ctx ctx'')
    {f : α → Analysis PUnit} (all : List α)
    (h : ∀ a ∈ all, Always (f a) fun ctx _ ctx' => R ctx ctx') :
    Always (all.forM f) fun ctx _ ctx' => R ctx ctx' := by
  induction all with
  | nil => exact hrefl
  | cons a rest ih =>
      have hrest := ih fun b hb => h b (List.mem_cons_of_mem _ hb)
      exact fun ctx => htrans (h a (List.mem_cons_self ..) ctx) (hrest _)

/-! ### Steps -/

/-- Adding a symbol always gives the next number. -/
theorem always_addSymbol (s : Symbol) : Always (addSymbol s) fun ctx id ctx' =>
    id = ctx.symbols.size ∧ ctx' = { ctx with symbols := ctx.symbols.add s } :=
  fun _ => ⟨rfl, rfl⟩

/-- Binding a node always does just that. -/
theorem always_bindSymbol (node : NodeId) (symbol : SymbolId) :
    Always (bindSymbol node symbol) fun ctx _ ctx' =>
      ctx' = { ctx with bindings := ctx.bindings.bindSymbol node symbol } :=
  fun _ => rfl

/-- A name that is taken is reported, and any other is bound. -/
theorem always_define (scope : ScopeId) (name : String) (symbol : SymbolId) (span : Span) :
    Always (define scope name symbol span) fun ctx bound ctx' =>
      (bound = false ∧ ctx.scopes.lookupLocal? scope name ≠ none ∧
        ctx'.symbols = ctx.symbols ∧ ctx'.scopes = ctx.scopes ∧ ctx'.bindings = ctx.bindings) ∨
      (bound = true ∧ ctx.scopes.lookupLocal? scope name = none ∧
        ctx' = { ctx with scopes := ctx.scopes.bind scope name symbol }) := by
  intro ctx
  generalize hresult : (define scope name symbol span).run ctx = result
  rw [define, StateT.run_bind, StateT.run_get, pure_bind] at hresult
  dsimp only at hresult
  split at hresult
  · next existing htaken =>
      cases hresult
      exact .inl ⟨rfl, by simp [htaken], rfl, rfl, rfl⟩
  · next hfree =>
      cases hresult
      exact .inr ⟨rfl, hfree, rfl⟩

/-- A name that was free is bound, and its symbol is listed. -/
theorem always_defineThen (scope : ScopeId) (name : String) (symbol : SymbolId) (span : Span)
    (f : SymbolTable → SymbolTable) :
    Always (do if ← define scope name symbol span then modifySymbols f) fun ctx _ ctx' =>
      (ctx.scopes.lookupLocal? scope name ≠ none ∧ ctx'.symbols = ctx.symbols ∧
        ctx'.scopes = ctx.scopes ∧ ctx'.bindings = ctx.bindings) ∨
      (ctx.scopes.lookupLocal? scope name = none ∧
        ctx' = { ctx with
          scopes := ctx.scopes.bind scope name symbol, symbols := f ctx.symbols }) := by
  have hthen : ∀ bound : Bool, Always (if bound then modifySymbols f else pure PUnit.unit)
      fun ctx _ ctx' => ctx' = if bound then { ctx with symbols := f ctx.symbols } else ctx := by
    rintro (_ | _) <;> exact fun _ => rfl
  refine ((always_define scope name symbol span).bind hthen).mono ?_
  rintro ctx _ ctx' ⟨_, _, ⟨rfl, hunchanged⟩ | ⟨rfl, hfree, rfl⟩, rfl⟩
  · exact .inl hunchanged
  · exact .inr ⟨hfree, rfl⟩

/-- A node without a scope always gets a new one. -/
theorem always_scopeFor (node : NodeId) (parent : ScopeId) (kind : ScopeKind) :
    Always (scopeFor node parent kind) fun ctx scope ctx' => ctx.bindings.scope? node = none →
      scope = ctx.scopes.size ∧ ctx' = { ctx with
        scopes := ctx.scopes.push parent kind
        bindings := ctx.bindings.bindScope node ctx.scopes.size } := by
  intro ctx hnone
  have hrun : (scopeFor node parent kind).run ctx = (ctx.scopes.size, { ctx with
      scopes := ctx.scopes.push parent kind
      bindings := ctx.bindings.bindScope node ctx.scopes.size }) := by
    simp [scopeFor, hnone]
    rfl
  rw [hrun]
  exact ⟨rfl, rfl⟩

/-! ### Edits -/

/-- A program that only edits the symbol table, whatever else it does. -/
abbrev Edits (m : Analysis α) : Prop := Always m fun ctx _ ctx' => ctx.symbols.Edits ctx'.symbols

/-- A result changes no symbol. -/
theorem edits_pure (a : α) : Edits (pure a) := fun _ => .refl

/-- Reading the context changes no symbol. -/
theorem edits_get : Edits (get : Analysis Context) := fun _ => .refl

/-- Edits in a row are edits. -/
theorem Edits.bind {m : Analysis α} {f : α → Analysis β} (hm : Edits m) (hf : ∀ a, Edits (f a)) :
    Edits (m >>= f) :=
  (Always.bind hm hf).mono fun _ _ _ ⟨_, _, h, h'⟩ => h.trans h'

/-- A change that leaves the symbols alone. -/
theorem edits_modify {f : Context → Context} (h : ∀ ctx, (f ctx).symbols = ctx.symbols) :
    Edits (modify f : Analysis Unit) := by
  intro ctx
  have hrun : ((modify f : Analysis Unit).run ctx).2 = f ctx := rfl
  rw [hrun, h]

/-- Changes of the table are edits if each one is. -/
theorem edits_modifySymbols {f : SymbolTable → SymbolTable} (h : ∀ t, SymbolTable.Edit t (f t)) :
    Edits (modifySymbols f) :=
  fun ctx => .single (h ctx.symbols)

/-- A symbol that is no class and no literal may be added. -/
theorem edits_addSymbol {s : Symbol} (hclass : s.class? = none) (hliteral : s.literal? = none)
    (hbare : s.bare = s) : Edits (addSymbol s) :=
  fun ctx => .single (.add ctx.symbols hclass hliteral hbare)

/-- A report changes no symbol. -/
theorem edits_report (error : SemanticError) : Edits (report error) := edits_modify fun _ => rfl

/-- A mismatch is reported, which changes no symbol. -/
theorem edits_mismatch (cause : Mismatch) (span : Span) : Edits (mismatch cause span) :=
  edits_report _

/-- A report with a result changes no symbol. -/
theorem edits_report_return (error : SemanticError) (a : α) :
    Edits (do report error; return a) :=
  (edits_report error).bind fun _ => edits_pure a

/-- A mismatch with a result changes no symbol. -/
theorem edits_mismatch_return (cause : Mismatch) (span : Span) (a : α) :
    Edits (do mismatch cause span; return a) :=
  edits_report_return _ a

/-- A new scope changes no symbol. -/
theorem edits_pushScope (parent : ScopeId) (kind : ScopeKind) : Edits (pushScope parent kind) :=
  fun _ => .refl

/-- What a node stands for is no part of the table. -/
theorem edits_bindSymbol (node : NodeId) (symbol : SymbolId) : Edits (bindSymbol node symbol) :=
  edits_modify fun _ => rfl

/-- What type a node has is no part of the table. -/
theorem edits_bindType (node : NodeId) (ty : Ty) : Edits (bindType node ty) :=
  edits_modify fun _ => rfl

/-- What scope a node opens is no part of the table. -/
theorem edits_bindScope (node : NodeId) (scope : ScopeId) : Edits (bindScope node scope) :=
  edits_modify fun _ => rfl

/-- Binding a name changes no symbol, whether it was free or not. -/
theorem edits_define (scope : ScopeId) (name : String) (symbol : SymbolId) (span : Span) :
    Edits (define scope name symbol span) := by
  refine (always_define scope name symbol span).mono ?_
  rintro ctx _ ctx' (⟨-, -, hsymbols, -⟩ | ⟨-, -, rfl⟩)
  · exact hsymbols ▸ .refl
  · exact .refl

/-- A name is bound, and its symbol is listed if that was possible. -/
theorem edits_defineThen (scope : ScopeId) (name : String) (symbol : SymbolId) (span : Span)
    {f : SymbolTable → SymbolTable} (h : ∀ t, SymbolTable.Edit t (f t)) :
    Edits (do if ← define scope name symbol span then modifySymbols f) := by
  refine (edits_define _ _ _ _).bind fun bound => ?_
  split
  · exact edits_modifySymbols h
  · exact edits_pure _

/-- Looking up or opening a scope changes no symbol. -/
theorem edits_scopeFor (node : NodeId) (parent : ScopeId) (kind : ScopeKind) :
    Edits (scopeFor node parent kind) := by
  refine edits_get.bind fun ctx => ?_
  split
  · exact edits_pure _
  · exact (edits_pushScope _ _).bind fun scope => (edits_bindScope _ _).bind fun _ => edits_pure _

/-- Looking up a symbol changes none. -/
theorem edits_symbolOf? (node : NodeId) : Edits (symbolOf? node) :=
  edits_get.bind fun _ => edits_pure _

/-- Edits for each element of a list are edits. -/
theorem edits_forM {f : α → Analysis PUnit} (all : List α) (h : ∀ a ∈ all, Edits (f a)) :
    Edits (all.forM f) :=
  always_forM (fun _ => .refl) .trans all h

/-- A signature is one edit of its function. -/
theorem edits_sign (id : SymbolId) (returnType : Ty) (arguments : List SymbolId) (span : Span) :
    Edits (sign id returnType arguments span) := by
  intro ctx
  rw [sign, StateT.run_bind, StateT.run_get, pure_bind]
  unfold SymbolTable.setSignature
  cases hentry : ctx.symbols.function? id with
  | none => exact edits_mismatch _ _ ctx
  | some entry =>
      by_cases hresolved : entry.resolved
      · simp only [hresolved, if_true]
        exact .refl
      · simp only [hresolved]
        exact .single (.sign ctx.symbols hentry returnType arguments)

end Analysis

open Analysis

/-! ## Types -/

namespace TypeExpr

/-- Resolving the base of a type changes no symbol. -/
theorem edits_resolveBase (base : TypeBase) (scope : ScopeId) : Edits (resolveBase base scope) := by
  unfold resolveBase
  split
  · exact edits_pure _
  · refine edits_get.bind fun ctx => ?_
    split
    · exact edits_report_return _ _
    · split
      · exact edits_pure _
      · exact edits_pure _
      · exact edits_mismatch_return _ _ _
      · exact edits_pure _

/-- Resolving a type changes no symbol. -/
theorem edits_resolve (ty : TypeExpr) (scope : ScopeId) : Edits (ty.resolve scope) := by
  refine (edits_resolveBase _ _).bind fun base => ?_
  split
  · exact edits_pure _
  · exact edits_pure _

/-- Resolving the type of something stored changes no symbol. -/
theorem edits_resolveStorage (ty : TypeExpr) (scope : ScopeId) (what : String) :
    Edits (ty.resolveStorage scope what) := by
  refine (ty.edits_resolve scope).bind fun resolved => ?_
  split
  · exact edits_mismatch_return _ _ _
  · exact edits_pure _

end TypeExpr

/-! ## Declarations -/

/-- A field is added, and then listed with its owner. -/
theorem FieldDecl.edits_add (field : FieldDecl) (ty : Ty) (owner : SymbolId) :
    Edits (field.add ty owner) :=
  (edits_addSymbol rfl rfl rfl).bind fun _ => (edits_bindSymbol _ _).bind fun _ => edits_pure _

/-- A field of a struct makes edits only. -/
theorem FieldDecl.edits_declareInStruct (field : FieldDecl) (owner : SymbolId) :
    Edits (field.declareInStruct owner) := by
  refine (TypeExpr.edits_resolveStorage _ _ _).bind fun ty => edits_get.bind fun ctx => ?_
  split
  · exact edits_report _
  · exact (field.edits_add ty owner).bind fun id => edits_modifySymbols fun t => .field t owner id

/-- The fields of a struct make edits only. -/
theorem StructDecl.edits_declareFields (decl : StructDecl) : Edits decl.declareFields := by
  refine (edits_symbolOf? _).bind fun symbol => ?_
  split
  · exact edits_pure _
  · exact edits_forM _ fun field _ => field.edits_declareInStruct _

/-- A field of a class makes edits only. -/
theorem FieldDecl.edits_declareInClass (field : FieldDecl) (owner : SymbolId) (scope : ScopeId) :
    Edits (field.declareInClass owner scope) :=
  (TypeExpr.edits_resolveStorage _ _ _).bind fun ty => (field.edits_add ty owner).bind fun id =>
    edits_defineThen _ _ _ _ fun t => .field t owner id

/-- Parameters make edits only: each one is a new symbol. -/
theorem Param.edits_declareAll (scope : ScopeId) (params : List Param) :
    Edits (Param.declareAll scope params) := by
  induction params with
  | nil => exact edits_pure _
  | cons param rest ih =>
      exact (TypeExpr.edits_resolveStorage _ _ _).bind fun ty => (edits_addSymbol rfl rfl rfl).bind
        fun id => (edits_bindSymbol _ _).bind fun _ => (edits_define _ _ _ _).bind fun _ =>
          ih.bind fun _ => edits_pure _

/-- The receiver makes an edit only: it is a new symbol. -/
theorem FunctionDecl.edits_declareReceiver (decl : FunctionDecl) (scope : ScopeId)
    (owner : Option SymbolId) : Edits (decl.declareReceiver scope owner) := by
  cases owner with
  | none => exact edits_pure _
  | some owner =>
      exact (edits_addSymbol rfl rfl rfl).bind fun _ => (edits_define _ _ _ _).bind fun _ =>
        edits_pure _

/-- A signature makes edits only: its parameters, the receiver and itself. -/
theorem FunctionDecl.edits_resolveSignature (decl : FunctionDecl) (id : SymbolId)
    (scope : ScopeId) (owner : Option SymbolId) :
    Edits (decl.resolveSignature id scope owner) := by
  have hmark : ∀ declared, Edits (markVariadic decl.body.isVariadic declared) := by
    intro declared
    unfold markVariadic
    split
    · exact (edits_addSymbol rfl rfl rfl).bind fun _ => edits_pure _
    · exact edits_pure _
  rw [resolveSignature_eq]
  exact (TypeExpr.edits_resolve _ _).bind fun _ => (decl.edits_declareReceiver scope owner).bind
    fun _ => (Param.edits_declareAll scope decl.params).bind fun declared =>
      (hmark declared).bind fun _ => edits_sign _ _ _ _

/-- The function that makes an object is added, and then listed with its class. -/
theorem ClassDecl.edits_installInit (decl : ClassDecl) (id : SymbolId) (scope : ScopeId) :
    Edits (decl.installInit id scope) :=
  (edits_addSymbol rfl rfl rfl).bind fun init =>
    edits_defineThen _ _ _ _ fun t => .function t id init

/-- A function that a class declares for making objects takes the place of the first
one. -/
theorem FunctionDecl.edits_bindInit (method : FunctionDecl) (id owner : SymbolId) (scope : ScopeId)
    (classPlace : Span) : Edits (method.bindInit id owner scope classPlace) := by
  refine edits_get.bind fun ctx => ?_
  dsimp only
  split
  · next old _ =>
      split
      · have hreplace := edits_modifySymbols fun t => .replace t owner old id
        split
        · exact (edits_modify fun _ => rfl).bind fun _ => hreplace
        · exact hreplace
      · exact edits_report _
  · exact edits_report _

/-- A function of a class makes edits only. -/
theorem FunctionDecl.edits_declareInClass (method : FunctionDecl) (decl : ClassDecl)
    (owner : SymbolId) (classScope : ScopeId) :
    Edits (method.declareInClass decl owner classScope) := by
  refine (edits_addSymbol rfl rfl rfl).bind fun id => (edits_bindSymbol _ _).bind fun _ =>
    (edits_scopeFor _ _ _).bind fun scope => (method.edits_resolveSignature id scope _).bind
      fun _ => ?_
  split
  · exact method.edits_bindInit _ _ _ _
  · exact edits_defineThen _ _ _ _ fun t => .function t owner id

/-- The members of a class make edits only. -/
theorem ClassDecl.edits_declareMembers (decl : ClassDecl) : Edits decl.declareMembers := by
  refine (edits_symbolOf? _).bind fun symbol => ?_
  split
  · exact edits_pure _
  · next id =>
      refine (edits_scopeFor _ _ _).bind fun scope => (decl.edits_installInit id scope).bind
        fun _ => edits_forM _ fun member _ => ?_
      cases member with
      | field f => exact f.edits_declareInClass id scope
      | method f => exact f.edits_declareInClass decl id scope

/-- A function outside of classes makes edits only. -/
theorem FunctionDecl.edits_declareFree (decl : FunctionDecl) : Edits decl.declareFree := by
  refine (edits_symbolOf? _).bind fun symbol => ?_
  split
  · exact edits_pure _
  · exact (edits_scopeFor _ _ _).bind fun scope => decl.edits_resolveSignature _ scope none

/-- Looking for a struct in itself changes no symbol. -/
theorem Item.edits_checkContainment (item : Item) : Edits item.checkContainment := by
  have hcheck : ∀ (name : Ident) (node : NodeId), Edits (name.checkContainment node) := by
    intro name node
    refine edits_get.bind fun ctx => ?_
    split
    · exact edits_pure _
    · split
      · exact edits_mismatch _ _
      · exact edits_pure _
  cases item with
  | classDecl decl => exact hcheck decl.name decl.id
  | structDecl decl => exact hcheck decl.name decl.id
  | function decl => exact edits_pure _

/-! ## Expressions -/

/-- Naming a type changes no symbol. -/
theorem edits_typeName (ty : Ty) : Edits (typeName ty) := edits_get.bind fun _ => edits_pure _

/-- Checking an assignment changes no symbol. -/
theorem edits_checkAssignable (actual target : Ty) (span : Span) :
    Edits (checkAssignable actual target span) := by
  unfold checkAssignable
  split
  · exact edits_pure _
  · exact (edits_typeName _).bind fun _ => (edits_typeName _).bind fun _ => edits_mismatch _ _

/-- Checking a condition changes no symbol. -/
theorem edits_expectBool (ty : Ty) (what : String) (span : Span) :
    Edits (expectBool ty what span) := by
  unfold expectBool
  split
  · exact edits_pure _
  · exact (edits_typeName _).bind fun _ => edits_mismatch _ _

/-- Checking two integers changes no symbol. -/
theorem edits_integerPair (left right : Ty) (operator : String) (span : Span) :
    Edits (integerPair left right operator span) := by
  unfold integerPair
  split
  · exact edits_pure _
  · split
    · exact edits_pure _
    · exact (edits_typeName _).bind fun _ => (edits_typeName _).bind fun _ =>
        edits_mismatch_return _ _ _

/-- Noting a type changes no symbol. -/
theorem edits_typed (node : NodeId) {find : Analysis Ty} (h : Edits find) :
    Edits (typed node find) :=
  h.bind fun _ => (edits_bindType _ _).bind fun _ => edits_pure _

/-- Resolving a literal changes no symbol. -/
theorem Literal.edits_resolve (value : Literal) (span : Span) (expected : Option Ty) :
    Edits (value.resolve span expected) := by
  unfold Literal.resolve
  split
  · exact edits_pure _
  · exact edits_pure _
  · dsimp only
    split
    · exact edits_pure _
    · exact edits_mismatch_return _ _ _

/-- Resolving a name changes no symbol. -/
theorem Ident.edits_resolveValue (ident : Ident) (node : NodeId) (scope : ScopeId) :
    Edits (ident.resolveValue node scope) := by
  refine edits_get.bind fun ctx => ?_
  split
  · exact edits_report_return _ _
  · split
    · exact (edits_bindSymbol _ _).bind fun _ => edits_pure _
    · exact (edits_bindSymbol _ _).bind fun _ => edits_pure _
    · exact (edits_bindSymbol _ _).bind fun _ => edits_pure _
    · exact edits_mismatch_return _ _ _
    · exact edits_pure _

/-- Resolving a member changes no symbol. -/
theorem Ident.edits_resolveMember (ident : Ident) (node : NodeId) (object : Ty) (isPlace : Bool)
    (objectSpan span : Span) :
    Edits (ident.resolveMember node object isPlace objectSpan span) := by
  unfold resolveMember
  split
  · exact edits_pure _
  · split
    · exact edits_mismatch_return _ _ _
    · refine edits_get.bind fun ctx => ?_
      dsimp only
      split
      · exact (edits_typeName _).bind fun _ => edits_mismatch_return _ _ _
      · exact edits_report_return _ _
      · split
        · exact (edits_bindSymbol _ _).bind fun _ => edits_pure _
        · exact edits_mismatch_return _ _ _

/-- Resolving what is called changes no symbol. -/
theorem Ident.edits_resolveCallee (ident : Ident) (target : Option SymbolId) :
    Edits (ident.resolveCallee target) := by
  refine edits_get.bind fun ctx => ?_
  split
  · exact edits_report_return _ _
  · dsimp only
    split
    · exact edits_pure _
    · exact edits_mismatch_return _ _ _

/-- Counting arguments changes no symbol. -/
theorem FunctionEntry.edits_checkCount (entry : FunctionEntry) (expected given : Nat)
    (span : Span) : Edits (entry.checkCount expected given span) := by
  have hsplit : ∀ fits : Prop, ∀ _ : Decidable fits, Edits (if fits then pure () else
      mismatch (.argumentCount entry.name entry.traits.variadic expected given) span) := by
    intro fits _
    split
    · exact edits_pure _
    · exact edits_mismatch _ _
  exact hsplit _ _

/-- Resolving a call without its arguments changes no symbol. -/
theorem Ident.edits_resolveCall (callee : Ident) (node : NodeId) (target : Option SymbolId)
    (given : Nat) (span : Span) : Edits (callee.resolveCall node target given span) := by
  refine (callee.edits_resolveCallee target).bind fun found => ?_
  split
  · exact edits_pure _
  · exact (edits_bindSymbol _ _).bind fun _ => edits_get.bind fun ctx =>
      (FunctionEntry.edits_checkCount _ _ _ _).bind fun _ => edits_pure _

/-- Resolving a function of a receiver changes no symbol. -/
theorem Ident.edits_resolveMethod (callee : Ident) (receiver : Ty) :
    Edits (callee.resolveMethod receiver) := by
  unfold resolveMethod
  split
  · exact edits_pure _
  · refine edits_get.bind fun ctx => ?_
    dsimp only
    split
    · exact edits_pure _
    · exact (edits_typeName _).bind fun _ => edits_mismatch_return _ _ _

namespace Expr

/-- Checking the target of an assignment changes no symbol. -/
theorem edits_checkTarget (target : Expr) (ty : Ty) : Edits (target.checkTarget ty) := by
  unfold checkTarget
  split
  · refine edits_get.bind fun ctx => ?_
    dsimp only
    split
    · exact edits_mismatch _ _
    · exact edits_pure _
  · exact edits_pure _

/-- Checking the operands of an operator changes no symbol. -/
theorem edits_operator (op : BinaryOp) (left right : Ty) (leftSpan rightSpan span : Span) :
    Edits (match op with
      | .or | .and => do
        Analysis.expectBool left ("'" ++ op.text ++ "'") leftSpan
        Analysis.expectBool right ("'" ++ op.text ++ "'") rightSpan
        return Ty.bool
      | .arith op => Analysis.integerPair left right op.text span
      | .compare op => do
        let _ ← Analysis.integerPair left right op.text span
        return Ty.bool) := by
  cases op with
  | or | and =>
      exact (edits_expectBool _ _ _).bind fun _ => (edits_expectBool _ _ _).bind fun _ =>
        edits_pure _
  | arith op => exact edits_integerPair _ _ _ _
  | compare op => exact (edits_integerPair _ _ _ _).bind fun _ => edits_pure _

mutual

/-- Resolving an expression changes no symbol. -/
theorem edits_resolve (scope : ScopeId) (expected : Option Ty) :
    (e : Expr) → Edits (e.resolve scope expected)
  | .literal id value span => by
      simp only [resolve]
      exact edits_typed id (value.edits_resolve span expected)
  | .name id ident => by
      simp only [resolve]
      exact edits_typed id (ident.edits_resolveValue id scope)
  | .binary id op left right span => by
      have hleft := fun hint => edits_resolve scope hint left
      have hright := fun hint => edits_resolve scope hint right
      simp only [resolve]
      refine edits_typed id ?_
      split
      · exact (hright _).bind fun _ => (hleft _).bind fun _ => edits_operator op _ _ _ _ span
      · exact (hleft _).bind fun _ => (hright _).bind fun _ => edits_operator op _ _ _ _ span
  | .assign id target value span => by
      have htarget := edits_resolve scope none target
      have hvalue := fun hint => edits_resolve scope hint value
      simp only [resolve]
      exact edits_typed id (htarget.bind fun _ => (target.edits_checkTarget _).bind fun _ =>
        (hvalue _).bind fun _ => (edits_checkAssignable _ _ _).bind fun _ => edits_pure _)
  | .call id callee args span => by
      have hargs := edits_resolveAll scope args
      have htyped := fun params => edits_resolveArguments scope params args
      simp only [resolve]
      refine edits_typed id (edits_get.bind fun ctx =>
        (callee.edits_resolveCall _ _ _ _).bind fun found => ?_)
      split
      · exact (htyped _).bind fun _ => edits_pure _
      · exact hargs.bind fun _ => edits_pure _
  | .methodCall id receiver callee args span => by
      have hreceiver := edits_resolve scope none receiver
      have hargs := edits_resolveAll scope args
      have htyped := fun params => edits_resolveArguments scope params args
      simp only [resolve]
      refine edits_typed id (hreceiver.bind fun ty => (callee.edits_resolveMethod ty).bind
        fun target => ?_)
      split
      · exact hargs.bind fun _ => edits_pure _
      · refine (callee.edits_resolveCall _ _ _ _).bind fun found => ?_
        split
        · exact (htyped _).bind fun _ => edits_pure _
        · exact hargs.bind fun _ => edits_pure _
  | .member id object ident span => by
      have hobject := edits_resolve scope none object
      simp only [resolve]
      exact edits_typed id (hobject.bind fun _ => ident.edits_resolveMember _ _ _ _ _)

/-- Resolving expressions changes no symbol. -/
theorem edits_resolveAll (scope : ScopeId) : (args : List Expr) → Edits (resolveAll scope args)
  | [] => edits_pure _
  | arg :: rest => by
      have harg := edits_resolve scope none arg
      have hrest := edits_resolveAll scope rest
      simp only [resolveAll]
      exact harg.bind fun _ => hrest

/-- Resolving arguments changes no symbol. -/
theorem edits_resolveArguments (scope : ScopeId) :
    (params : List Ty) → (args : List Expr) → Edits (resolveArguments scope params args)
  | _, [] => by
      simp only [resolveArguments]
      exact edits_pure _
  | param :: params, arg :: rest => by
      have harg := edits_resolve scope (some param) arg
      have hrest := edits_resolveArguments scope params rest
      simp only [resolveArguments]
      exact harg.bind fun _ => (edits_checkAssignable _ _ _).bind fun _ => hrest
  | [], arg :: rest => by
      have harg := edits_resolve scope none arg
      have hrest := edits_resolveArguments scope [] rest
      simp only [resolveArguments]
      refine harg.bind fun actual => ?_
      split
      · exact (edits_mismatch _ _).bind fun _ => hrest
      · exact hrest

end

end Expr

/-! ## Statements -/

namespace Stmt

/-- Resolving a return changes no symbol. -/
theorem edits_resolveReturn (value : Option Expr) (span : Span) (scope : ScopeId)
    (returnType : Ty) : Edits (resolveReturn value span scope returnType) := by
  unfold resolveReturn
  split
  · refine (Expr.edits_resolve _ _ _).bind fun actual => ?_
    split
    · exact edits_mismatch _ _
    · exact edits_checkAssignable _ _ _
  · split
    · exact edits_pure _
    · exact (edits_typeName _).bind fun _ => edits_mismatch _ _

/-- A declaration in a body adds its variable. -/
theorem edits_resolveVarDecl (id : NodeId) (ty : TypeExpr) (name : Ident) (value : Option Expr)
    (scope : ScopeId) : Edits (resolveVarDecl id ty name value scope) := by
  have hdeclare : ∀ ty : Ty, Edits (do
      let symbol ← Analysis.addSymbol (.localVariable ⟨name.name, name.span, ty⟩)
      Analysis.bindSymbol id symbol
      let _ ← Analysis.define scope name.name symbol name.span) := fun ty =>
    (edits_addSymbol rfl rfl rfl).bind fun _ => (edits_bindSymbol _ _).bind fun _ =>
      (edits_define _ _ _ _).bind fun _ => edits_pure _
  refine (TypeExpr.edits_resolveStorage _ _ _).bind fun ty => ?_
  cases value with
  | none => exact hdeclare ty
  | some value =>
      exact (Expr.edits_resolve _ _ _).bind fun _ => (edits_checkAssignable _ _ _).bind
        fun _ => hdeclare ty

/-- Resolving a condition changes no symbol. -/
theorem edits_resolveCondition (condition : Expr) (scope : ScopeId) :
    Edits (resolveCondition condition scope) :=
  (Expr.edits_resolve _ _ _).bind fun _ => edits_expectBool _ _ _

/-- A scope for one side of a conditional statement changes no symbol. -/
theorem edits_branchScope (branch : Stmt) (parent : ScopeId) :
    Edits (branch.branchScope parent) := by
  unfold branchScope
  split
  · exact edits_pure _
  · exact edits_pushScope _ _

mutual

/-- Resolving a statement makes edits only. -/
theorem edits_resolve (returnType : Ty) (scope : ScopeId) :
    (s : Stmt) → Edits (s.resolve returnType scope)
  | .block id stmts span => by
      have hstmts := fun inner => edits_resolveAll returnType inner stmts
      simp only [resolve]
      exact (edits_scopeFor _ _ _).bind fun inner => hstmts inner
  | .varDecl id ty name value span => by
      simp only [resolve]
      exact edits_resolveVarDecl id ty name value scope
  | .ifThen condition positive span => by
      have hpositive := fun inner => edits_resolve returnType inner positive
      simp only [resolve]
      exact (edits_resolveCondition _ _).bind fun _ => (edits_branchScope _ _).bind
        fun inner => hpositive inner
  | .ifElse condition positive negative span => by
      have hpositive := fun inner => edits_resolve returnType inner positive
      have hnegative := fun inner => edits_resolve returnType inner negative
      simp only [resolve]
      exact (edits_resolveCondition _ _).bind fun _ => (edits_branchScope _ _).bind
        fun inner => (hpositive inner).bind fun _ => (edits_branchScope _ _).bind
          fun inner => hnegative inner
  | .ret value span => by
      simp only [resolve]
      exact edits_resolveReturn value span scope returnType
  | .expr e span => by
      simp only [resolve]
      exact (Expr.edits_resolve _ _ _).bind fun _ => edits_pure _

/-- Resolving statements makes edits only. -/
theorem edits_resolveAll (returnType : Ty) (scope : ScopeId) :
    (stmts : List Stmt) → Edits (resolveAll returnType scope stmts)
  | [] => by
      simp only [resolveAll]
      exact edits_pure _
  | s :: rest => by
      have hs := edits_resolve returnType scope s
      have hrest := edits_resolveAll returnType scope rest
      simp only [resolveAll]
      exact hs.bind fun _ => hrest

end

end Stmt

/-! ## Bodies and what comes before them -/

/-- Resolving a body makes edits only. -/
theorem FunctionDecl.edits_resolveBody (decl : FunctionDecl) : Edits decl.resolveBody := by
  unfold resolveBody
  split
  · exact edits_pure _
  · refine edits_get.bind fun ctx => ?_
    split
    · refine (Stmt.edits_resolve _ _ _).bind fun _ => ?_
      split
      · exact edits_pure _
      · exact edits_mismatch_return _ _ _
    · exact edits_pure _

/-- **Bodies only edit the table.** -/
theorem FunctionDecl.edits_resolveBodies (decls : List FunctionDecl) :
    Edits (FunctionDecl.resolveBodies decls) := by
  induction decls with
  | nil => exact edits_pure _
  | cons decl rest ih =>
      exact decl.edits_resolveBody.bind fun _ => ih.bind fun _ => edits_pure _

/-- What is left of the declarations of a script once classes have their parents. -/
def Script.resolveMembers (script : Script) : Analysis Unit := do
  script.structs.forM StructDecl.declareFields
  script.classes.forM ClassDecl.declareMembers
  script.functions.forM FunctionDecl.declareFree
  script.items.forM Item.checkContainment
  let ctx ← get
  (LinkName.clashes [] (LinkName.ofScript ctx script)).forM Analysis.report

/-- **Members and signatures only edit the table.** -/
theorem Script.edits_resolveMembers (script : Script) : Edits script.resolveMembers :=
  (edits_forM _ fun decl _ => decl.edits_declareFields).bind fun _ =>
    (edits_forM _ fun decl _ => decl.edits_declareMembers).bind fun _ =>
      (edits_forM _ fun decl _ => decl.edits_declareFree).bind fun _ =>
        (edits_forM _ fun item _ => item.edits_checkContainment).bind fun _ =>
          edits_get.bind fun _ => edits_forM _ fun error _ => edits_report error

end ClassLang
