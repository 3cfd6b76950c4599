import ClassLang.Proofs.Resolve.Class
import ClassLang.Proofs.Resolve.Edits

/-!
# Filling in, whatever is reported

`Fills` says what reading a declaration may change.  A declaration with errors changes no more
than one without: what is wrong is reported, and the entry, the name or the scope that it
would have changed is left alone.  So there is one lemma here for each program that reads
declarations, up to the signatures of functions, and none of them asks whether it reports.
-/

namespace ClassLang

/-- Contexts that only differ in what was reported. -/
theorem Fills.ofSame {changed : List SymbolId} {nodes : List NodeId} {touched : List ScopeId}
    {ctx ctx' : Context} (hsymbols : ctx'.symbols = ctx.symbols)
    (hscopes : ctx'.scopes = ctx.scopes) (hbindings : ctx'.bindings = ctx.bindings) :
    Fills changed nodes touched ctx ctx' := by
  refine .ofConfined ⟨?_, ?_, ?_, ?_, ?_, ?_, ?_⟩ hsymbols <;> simp [hscopes, hbindings]

namespace Analysis

variable {α β : Type} {changed : List SymbolId} {nodes : List NodeId} {touched : List ScopeId}

/-- A program that changes no more than some entries, nodes and scopes, whatever it reports. -/
abbrev Filling (changed : List SymbolId) (nodes : List NodeId) (touched : List ScopeId)
    (m : Analysis α) : Prop :=
  Always m fun ctx _ ctx' => Fills changed nodes touched ctx ctx'

/-- A value alone changes nothing. -/
theorem filling_pure (a : α) : Filling changed nodes touched (pure a) := fun ctx => .refl _ _ _ ctx

/-- Reading the context changes nothing. -/
theorem filling_get : Filling changed nodes touched (get : Analysis Context) :=
  fun ctx => .refl _ _ _ ctx

/-- Programs one behind the other fill in what each may. -/
theorem Filling.bind {m : Analysis α} {f : α → Analysis β} (hm : Filling changed nodes touched m)
    (hf : ∀ a, Filling changed nodes touched (f a)) : Filling changed nodes touched (m >>= f) :=
  (Always.bind hm hf).mono fun _ _ _ ⟨_, _, h, h'⟩ => h.trans h'

/-- A loop fills in what each of its rounds may. -/
theorem filling_forM {f : α → Analysis PUnit} (all : List α)
    (h : ∀ a ∈ all, Filling changed nodes touched (f a)) :
    Filling changed nodes touched (all.forM f) :=
  always_forM (Fills.refl _ _ _) Fills.trans all h

/-- A report changes no entry. -/
theorem filling_report (error : SemanticError) : Filling changed nodes touched (report error) :=
  fun _ => .ofSame rfl rfl rfl

/-- A mismatch changes no entry. -/
theorem filling_mismatch (cause : Mismatch) (span : Span) :
    Filling changed nodes touched (mismatch cause span) :=
  filling_report _

/-- A report with an answer changes no entry. -/
theorem filling_report_return (error : SemanticError) (a : α) :
    Filling changed nodes touched (do report error; return a) :=
  (filling_report error).bind fun _ => filling_pure a

/-- A mismatch with an answer changes no entry. -/
theorem filling_mismatch_return (cause : Mismatch) (span : Span) (a : α) :
    Filling changed nodes touched (do mismatch cause span; return a) :=
  filling_report_return _ a

/-- A new symbol that is no item fills in nothing of the others. -/
theorem filling_addSymbol {s : Symbol} (hs : ¬ s.IsItem) :
    Filling changed nodes touched (addSymbol s) :=
  fun _ => .add hs

/-- A symbol is attached to one of the nodes. -/
theorem filling_bindSymbol {node : NodeId} (hnode : node ∈ nodes) (symbol : SymbolId) :
    Filling changed nodes touched (bindSymbol node symbol) :=
  fun _ => .bindSymbol hnode symbol

/-- A name is defined in one of the scopes, or it is taken and reported. -/
theorem filling_define {scope : ScopeId} (hscope : scope ∈ touched) (name : String)
    (symbol : SymbolId) (span : Span) :
    Filling changed nodes touched (define scope name symbol span) := by
  refine (always_define scope name symbol span).mono ?_
  rintro ctx _ ctx' (⟨-, -, hsymbols, hscopes, hbindings⟩ | ⟨-, -, rfl⟩)
  · exact .ofSame hsymbols hscopes hbindings
  · exact .bindName hscope name symbol

/-- The first signature that a function is given stays. -/
theorem filling_sign {id : SymbolId} (hid : id ∈ changed) (returnType : Ty)
    (arguments : List SymbolId) (span : Span) :
    Filling changed nodes touched (sign id returnType arguments span) := by
  intro ctx
  rw [sign, StateT.run_bind, StateT.run_get, pure_bind]
  unfold SymbolTable.setSignature
  cases hentry : ctx.symbols.function? id with
  | none => exact filling_mismatch _ _ ctx
  | some entry =>
      by_cases hresolved : entry.resolved
      · simp only [hresolved, if_true]
        exact .refl _ _ _ ctx
      · simp only [hresolved]
        have hlater := SymbolTable.later_sign hentry (by simpa using hresolved) returnType arguments
        refine .modify hid hlater fun s hs => ?_
        cases hs.symm.trans (SymbolTable.function?_eq_some_iff.1 hentry)
        rfl

/-- The mark for further arguments is no item. -/
theorem filling_markVariadic (variadic : Bool) (declared : List SymbolId) :
    Filling changed nodes touched (markVariadic variadic declared) := by
  unfold markVariadic
  split
  · exact (filling_addSymbol fun h => by cases h).bind fun _ => filling_pure _
  · exact filling_pure _

end Analysis

open Analysis

variable {changed : List SymbolId} {nodes : List NodeId} {touched : List ScopeId}

/-! ## Types -/

namespace TypeExpr

/-- Reading the base of a type changes no entry, known or not. -/
theorem filling_resolveBase (base : TypeBase) (scope : ScopeId) :
    Filling changed nodes touched (resolveBase base scope) := by
  unfold resolveBase
  split
  · exact filling_pure _
  · refine filling_get.bind fun ctx => ?_
    split
    · exact filling_report_return _ _
    · split
      · exact filling_pure _
      · exact filling_pure _
      · exact filling_mismatch_return _ _ _
      · exact filling_pure _

/-- Reading a type changes no entry, known or not. -/
theorem filling_resolve (ty : TypeExpr) (scope : ScopeId) :
    Filling changed nodes touched (ty.resolve scope) := by
  refine (filling_resolveBase _ _).bind fun base => ?_
  split
  · exact filling_pure _
  · exact filling_pure _

/-- Reading a type to store changes no entry, whether it may be stored or not. -/
theorem filling_resolveStorage (ty : TypeExpr) (scope : ScopeId) (what : String) :
    Filling changed nodes touched (ty.resolveStorage scope what) := by
  refine (ty.filling_resolve scope).bind fun resolved => ?_
  split
  · exact filling_mismatch_return _ _ _
  · exact filling_pure _

end TypeExpr

/-! ## Fields and signatures -/

/-- A field is added and attached to its own node. -/
theorem FieldDecl.filling_add {field : FieldDecl} (hfield : field.id ∈ nodes) (ty : Ty)
    (owner : SymbolId) : Filling changed nodes touched (field.add ty owner) :=
  (filling_addSymbol fun h => by cases h).bind fun _ => (filling_bindSymbol hfield _).bind fun _ =>
    filling_pure _

/-- A field of a struct fills the entry of the struct. -/
theorem FieldDecl.filling_declareInStruct {field : FieldDecl} {owner : SymbolId}
    (hfield : field.id ∈ nodes) (howner : owner ∈ changed) :
    Filling changed nodes touched (field.declareInStruct owner) := by
  have hpush : ∀ id, Filling changed nodes touched
      (modifySymbols fun symbols => symbols.pushField owner id) := fun id ctx =>
    (fills_pushField ctx nodes touched owner id).mono (by simpa using fun _ => howner)
      (fun _ h => h) fun _ h _ => h
  refine (TypeExpr.filling_resolveStorage _ _ _).bind fun ty => filling_get.bind fun ctx => ?_
  split
  · exact filling_report _
  · exact (FieldDecl.filling_add hfield ty owner).bind hpush

/-- Parameters are declared in the scope of their function. -/
theorem Param.filling_declareAll {scope : ScopeId} (hscope : scope ∈ touched)
    {params : List Param} (hparams : ∀ param ∈ params, param.id ∈ nodes) :
    Filling changed nodes touched (Param.declareAll scope params) := by
  induction params with
  | nil => exact filling_pure _
  | cons param rest ih =>
      have hrest := ih fun p hp => hparams p (List.mem_cons_of_mem _ hp)
      exact (TypeExpr.filling_resolveStorage _ _ _).bind fun ty =>
        (filling_addSymbol fun h => by cases h).bind fun id =>
        (filling_bindSymbol (hparams param (List.mem_cons_self ..)) id).bind fun _ =>
        (filling_define hscope _ _ _).bind fun _ => hrest.bind fun _ => filling_pure _

/-- The receiver is declared in the scope of its function. -/
theorem FunctionDecl.filling_declareReceiver (decl : FunctionDecl) {scope : ScopeId}
    (hscope : scope ∈ touched) (owner : Option SymbolId) :
    Filling changed nodes touched (decl.declareReceiver scope owner) := by
  cases owner with
  | none => exact filling_pure _
  | some owner =>
      exact (filling_addSymbol fun h => by cases h).bind fun _ => (filling_define hscope _ _ _).bind
        fun _ => filling_pure _

/-- **A signature** changes the entry of its function, and binds names in its scope only. -/
theorem FunctionDecl.filling_resolveSignature (decl : FunctionDecl) {id : SymbolId}
    {scope : ScopeId} (owner : Option SymbolId) (hid : id ∈ changed) (hscope : scope ∈ touched)
    (hparams : ∀ param ∈ decl.params, param.id ∈ nodes) :
    Filling changed nodes touched (decl.resolveSignature id scope owner) := by
  rw [resolveSignature_eq]
  exact (TypeExpr.filling_resolve _ _).bind fun _ =>
    (decl.filling_declareReceiver hscope owner).bind fun _ =>
    (Param.filling_declareAll hscope hparams).bind fun declared =>
    (filling_markVariadic _ declared).bind fun _ => filling_sign hid _ _ _

/-- **The fields of a struct** change the entry of the struct only. -/
theorem StructDecl.always_declareFields (decl : StructDecl) :
    Always decl.declareFields fun ctx _ ctx' => ∀ changed,
      (∀ id, ctx.bindings.symbol? decl.id = some id → id ∈ changed) →
      Fills changed (decl.fields.map FieldDecl.id) [] ctx ctx' := by
  intro ctx changed hchanged
  cases hsymbol : ctx.bindings.symbol? decl.id with
  | none =>
      have hrun : (decl.declareFields.run ctx).2 = ctx := by
        simp [declareFields, symbolOf?, hsymbol]
        rfl
      rw [hrun]
      exact .refl _ _ _ ctx
  | some id =>
      have hrun : decl.declareFields.run ctx =
          (decl.fields.forM fun field => field.declareInStruct id).run ctx := by
        simp [declareFields, symbolOf?, hsymbol]
      rw [hrun]
      exact filling_forM _ (fun field hfield => FieldDecl.filling_declareInStruct
        (List.mem_map_of_mem hfield) (hchanged id hsymbol)) ctx

end ClassLang
