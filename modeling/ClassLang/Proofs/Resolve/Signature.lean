import ClassLang.Proofs.Resolve.Fills

/-!
# Signatures

Resolving the signature of a function binds its receiver and its parameters in a scope of
its own.  Afterwards the function is `Prepared`: from its scope, its body can see its
parameters and its receiver, the members of its class, and the items of the unit.
-/

namespace ClassLang

open Analysis

/-- The argument that stands for the receiver of a function of a class. -/
def SymbolTable.Receiver (table : SymbolTable) (owner symbol : SymbolId) : Prop :=
  ∃ entry, table.get? symbol = some (.argument entry) ∧ entry.name = selfName ∧
    entry.ty = .pointer (.classType owner)

/-- The names of the parameters of a function, that of its receiver first. -/
def SymbolTable.parameterNames (table : SymbolTable) (entry : FunctionEntry) : List String :=
  (entry.owner.map fun _ => selfName).toList ++ (table.declaredArguments entry).map table.name

/-- A later table names the parameters of a function alike. -/
theorem SymbolTable.Later.parameterNames {t t' : SymbolTable} (h : t.Later t')
    {entry : FunctionEntry} (hargs : ∀ a ∈ entry.arguments, t.Listable a) :
    t'.parameterNames entry = t.parameterNames entry := by
  have hnames : ∀ a ∈ t.declaredArguments entry, t'.name a = t.name a := fun a ha =>
    h.name (hargs a (List.mem_filter.1 ha).1).lt_size
  simp only [SymbolTable.parameterNames, h.declaredArguments hargs, List.map_congr_left hnames]

/-- A parameter has an argument of its own, to which its name is bound. -/
def Param.IsBound (ctx : Context) (scope : ScopeId) (param : Param) : Prop :=
  ∃ a entry, ctx.bindings.symbol? param.id = some a ∧
    ctx.symbols.get? a = some (.argument entry) ∧ entry.name = param.name.name ∧
    ctx.scopes.lookupLocal? scope param.name.name = some a

/-- A parameter stays bound where its node and its scope keep what they have. -/
theorem Param.IsBound.keep {ctx ctx' : Context} {scope : ScopeId} {param : Param}
    (h : param.IsBound ctx scope)
    (hsymbol : ctx'.bindings.symbol? param.id = ctx.bindings.symbol? param.id)
    (hlater : ctx.symbols.Later ctx'.symbols)
    (hkept : ∀ name a, ctx.scopes.lookupLocal? scope name = some a →
      ctx'.scopes.lookupLocal? scope name = some a) : param.IsBound ctx' scope := by
  obtain ⟨a, entry, hbound, hentry, hname, hlookup⟩ := h
  exact ⟨a, entry, hsymbol.trans hbound, hlater.argument hentry, hname, hkept _ _ hlookup⟩

/-- A receiver is one in every later table. -/
theorem SymbolTable.Receiver.later {t t' : SymbolTable} {owner symbol : SymbolId}
    (h : t.Receiver owner symbol) (hlater : t.Later t') : t'.Receiver owner symbol := by
  obtain ⟨entry, hentry, hfacts⟩ := h
  exact ⟨entry, hlater.argument hentry, hfacts⟩

/-- The scope of a function binds its parameters and, in a class, its receiver, and nothing
else. -/
structure BindsParameters (ctx : Context) (decl : FunctionDecl) (owner : Option SymbolId)
    (scope : ScopeId) : Prop where
  params : ∀ param ∈ decl.params, param.IsBound ctx scope
  receiver : ∀ c ∈ owner, ∃ a, ctx.scopes.lookupLocal? scope selfName = some a ∧
    ctx.symbols.Receiver c a
  names : ∀ name a, ctx.scopes.lookupLocal? scope name = some a →
    (∃ param ∈ decl.params, param.name.name = name) ∨
      name = selfName ∧ ∃ c, owner = some c ∧ ctx.symbols.Receiver c a

/-- The parameters of a function stay bound where their nodes and their scope keep what
they have. -/
theorem BindsParameters.keep {ctx ctx' : Context} {decl : FunctionDecl} {owner : Option SymbolId}
    {scope : ScopeId} (h : BindsParameters ctx decl owner scope)
    (hsymbols : ∀ param ∈ decl.params,
      ctx'.bindings.symbol? param.id = ctx.bindings.symbol? param.id)
    (hlater : ctx.symbols.Later ctx'.symbols)
    (hsame : ∀ name, ctx'.scopes.lookupLocal? scope name = ctx.scopes.lookupLocal? scope name) :
    BindsParameters ctx' decl owner scope where
  params param hparam := (h.params param hparam).keep (hsymbols param hparam) hlater
    fun name a hname => (hsame name).trans hname
  receiver c hc := by
    obtain ⟨a, ha, hreceiver⟩ := h.receiver c hc
    exact ⟨a, (hsame _).trans ha, hreceiver.later hlater⟩
  names name a hname := by
    rcases h.names name a ((hsame name).symm.trans hname) with hparam | ⟨hself, c, hc, hreceiver⟩
    · exact .inl hparam
    · exact .inr ⟨hself, c, hc, hreceiver.later hlater⟩

/-- The scope that functions of a class, or of none, lie in. -/
def Context.Encloses (ctx : Context) (outer : ScopeId) : Option SymbolId → Prop
  | none => outer = ScopeTree.root
  | some c => ctx.scopes.kind outer = .classBody c ∧ ctx.scopes.parent? outer = some ScopeTree.root

/-- The scope around a function stays what it is. -/
theorem Context.Encloses.confined {ctx ctx' : Context} {outer : ScopeId} {owner : Option SymbolId}
    {nodes : List NodeId} {touched : List ScopeId} (h : ctx.Encloses outer owner)
    (hconfined : Confined nodes touched ctx ctx') (houter : outer < ctx.scopes.size) :
    ctx'.Encloses outer owner := by
  cases owner with
  | none => exact h
  | some c =>
      exact ⟨(hconfined.kind outer houter).trans h.1, (hconfined.parent? outer houter).trans h.2⟩

/-- The name is one that a function of a class, or of none, takes an argument by. -/
def FunctionDecl.TakesName (decl : FunctionDecl) (owner : Option SymbolId) (name : String) : Prop :=
  (∃ param ∈ decl.params, param.name.name = name) ∨ name = selfName ∧ owner.isSome = true

/-- The signature of a function names its arguments as they are written. -/
def NamesArguments (ctx : Context) (decl : FunctionDecl) (owner : Option SymbolId) (id : SymbolId) :
    Prop :=
  ∃ entry, ctx.symbols.function? id = some entry ∧ entry.resolved = true ∧
    (∀ a ∈ entry.arguments, ctx.symbols.Listable a) ∧
    ∀ name ∈ ctx.symbols.parameterNames entry, decl.TakesName owner name

/-- The scope of a function: what it binds, and where it lies. -/
structure Presents (ctx : Context) (decl : FunctionDecl) (owner : Option SymbolId) (id : SymbolId)
    (scope : ScopeId) : Prop where
  opened : scope < ctx.scopes.size
  kind : ctx.scopes.kind scope = .function id
  binds : BindsParameters ctx decl owner scope
  around : ∃ outer < ctx.scopes.size, ctx.scopes.parent? scope = some outer ∧
    ctx.Encloses outer owner
  named : NamesArguments ctx decl owner id

/-- The entry of a function is final once it has a signature. -/
theorem SymbolTable.Later.resolved {t t' : SymbolTable} (hlater : t.Later t') {id : SymbolId}
    {entry : FunctionEntry} (h : t.function? id = some entry) (hresolved : entry.resolved = true) :
    t'.function? id = some entry := by
  obtain ⟨entry', hentry', -, -, -, -, hsame⟩ := hlater.function? h
  rw [hentry', hsame hresolved]

/-- A signature names its arguments alike in a later table. -/
theorem NamesArguments.later {ctx ctx' : Context} {decl : FunctionDecl} {owner : Option SymbolId}
    {id : SymbolId} (h : NamesArguments ctx decl owner id)
    (hlater : ctx.symbols.Later ctx'.symbols) :
    NamesArguments ctx' decl owner id := by
  obtain ⟨entry, hentry, hresolved, hlistable, hnames⟩ := h
  refine ⟨entry, hlater.resolved hentry hresolved, hresolved,
    fun a ha => (hlistable a ha).later hlater, fun name hname => ?_⟩
  rw [hlater.parameterNames hlistable] at hname
  exact hnames name hname

/-- What happens at other nodes, in new scopes and in the bodies of classes does not matter. -/
theorem Presents.confined {ctx ctx' : Context} {decl : FunctionDecl} {owner : Option SymbolId}
    {id : SymbolId} {scope : ScopeId} {nodes : List NodeId} {touched : List ScopeId}
    (h : Presents ctx decl owner id scope) (hconfined : Confined nodes touched ctx ctx')
    (hlater : ctx.symbols.Later ctx'.symbols)
    (htouched : ∀ s ∈ touched, ∃ c, ctx.scopes.kind s = .classBody c)
    (hdisjoint : ∀ n ∈ decl.params.map Param.id, n ∉ nodes) :
    Presents ctx' decl owner id scope := by
  have hapart : scope ∉ touched := by
    intro hmem
    obtain ⟨c, hc⟩ := htouched scope hmem
    cases h.kind.symm.trans hc
  obtain ⟨outer, houter, hparent, hencloses⟩ := h.around
  constructor
  · exact Nat.lt_of_lt_of_le h.opened hconfined.size
  · exact (hconfined.kind scope h.opened).trans h.kind
  · exact h.binds.keep
      (fun param hparam => hconfined.symbol? _ (hdisjoint _ (List.mem_map_of_mem hparam))) hlater
      fun name => hconfined.lookupLocal? h.opened hapart name
  · exact ⟨outer, Nat.lt_of_lt_of_le houter hconfined.size,
      (hconfined.parent? scope h.opened).trans hparent, hencloses.confined hconfined houter⟩
  · exact h.named.later hlater

/-- Everything that the body of a function needs is known. -/
structure Prepared (ctx : Context) (decl : FunctionDecl) (id : SymbolId) (scope : ScopeId)
    (view : View) (entry : FunctionEntry) : Prop where
  symbol? : ctx.bindings.symbol? decl.id = some id
  scope? : ctx.bindings.scope? decl.id = some scope
  inside : ScopeTree.root < scope
  sees : ctx.Sees scope view
  function? : ctx.symbols.function? id = some entry
  resolved : entry.resolved = true
  written : entry.traits.implicit = false
  listable : ∀ a ∈ entry.arguments, ctx.symbols.Listable a
  distinct : (ctx.symbols.parameterNames entry).Nodup
  owner : view.owner = entry.owner
  /-- The variables are the arguments and the receiver. -/
  visible : ∀ v ∈ view.visible, v ∈ entry.arguments ∨
    ∃ owner, entry.owner = some owner ∧ ctx.symbols.Receiver owner v
  unopened : ctx.Unopened decl.body.nodes
  presents : Presents ctx decl entry.owner id scope

/-- A declaration and its function in a class, or in none. -/
def IsPrepared (ctx : Context) (decl : FunctionDecl) (owner : Option SymbolId) (id : SymbolId) :
    Prop :=
  ∃ scope view entry, Prepared ctx decl id scope view entry ∧ entry.owner = owner

/-- What happens at other nodes, in new scopes and in the bodies of classes does not matter. -/
theorem Prepared.confined {ctx ctx' : Context} {decl : FunctionDecl} {id : SymbolId}
    {scope : ScopeId} {view : View} {entry : FunctionEntry} {nodes : List NodeId}
    {touched : List ScopeId} (h : Prepared ctx decl id scope view entry)
    (htree : ctx.scopes.Descends) (hconfined : Confined nodes touched ctx ctx')
    (hlater : ctx.symbols.Later ctx'.symbols)
    (htouched : ∀ s ∈ touched, ∃ c, ctx.scopes.kind s = .classBody c)
    (hdisjoint : ∀ n ∈ decl.nodes, n ∉ nodes) : Prepared ctx' decl id scope view entry where
  symbol? := (hconfined.symbol? _ (hdisjoint _ (List.mem_cons_self ..))).trans h.symbol?
  scope? := (hconfined.scope? _ (hdisjoint _ (List.mem_cons_self ..))).trans h.scope?
  inside := h.inside
  sees := h.sees.confined htree hconfined hlater fun s _ hs => htouched s hs
  function? := hlater.resolved h.function? h.resolved
  resolved := h.resolved
  written := h.written
  listable a ha := (h.listable a ha).later hlater
  distinct := hlater.parameterNames h.listable ▸ h.distinct
  owner := h.owner
  visible v hv := by
    refine (h.visible v hv).imp_right ?_
    rintro ⟨owner, howner, a, ha, hfacts⟩
    exact ⟨owner, howner, a, hlater.argument ha, hfacts⟩
  unopened n hn := by
    refine (hconfined.scope? n (hdisjoint n ?_)).trans (h.unopened n hn)
    exact List.mem_cons_of_mem _ (List.mem_append_right _ hn)
  presents := h.presents.confined hconfined hlater htouched fun n hn =>
    hdisjoint n (List.mem_cons_of_mem _ (List.mem_append_left _ hn))

/-- A prepared function stays prepared while other nodes and class bodies change. -/
theorem IsPrepared.confined {ctx ctx' : Context} {decl : FunctionDecl} {owner : Option SymbolId}
    {id : SymbolId} {nodes : List NodeId} {touched : List ScopeId}
    (h : IsPrepared ctx decl owner id) (htree : ctx.scopes.Descends)
    (hconfined : Confined nodes touched ctx ctx') (hlater : ctx.symbols.Later ctx'.symbols)
    (htouched : ∀ s ∈ touched, ∃ c, ctx.scopes.kind s = .classBody c)
    (hdisjoint : ∀ n ∈ decl.nodes, n ∉ nodes) : IsPrepared ctx' decl owner id := by
  obtain ⟨scope, view, entry, hprepared, howner⟩ := h
  exact ⟨scope, view, entry, hprepared.confined htree hconfined hlater htouched hdisjoint, howner⟩

/-! ## Parameters -/

/-- The context behind the declaration of an argument. -/
def Context.declareArgument (ctx : Context) (scope : ScopeId) (entry : VariableEntry) : Context :=
  { ctx with
    symbols := ctx.symbols.add (.argument entry)
    scopes := ctx.scopes.bind scope entry.name ctx.symbols.size }

section

variable {ctx : Context} {pending : List SymbolId} {scope : ScopeId} {view : View}
  {entry : VariableEntry}

/-- A new argument leaves a growing table growing. -/
theorem Context.Growing.declareArgument (h : ctx.Growing pending)
    (hscope : scope < ctx.scopes.size) (hinside : ScopeTree.root < scope)
    (hty : entry.ty.Storable ctx.symbols)
    (hfree : ctx.scopes.lookupLocal? scope entry.name = none) :
    (ctx.declareArgument scope entry).Growing pending := by
  have hadd : ({ ctx with symbols := ctx.symbols.add (.argument entry) } : Context).Growing
      pending :=
    h.add (hty.later (SymbolTable.later_add _ _)) rfl nofun
  exact hadd.bindName hscope hfree (by simp) hinside

/-- A new argument is seen from its scope. -/
theorem Context.Sees.declareArgument (h : ctx.Sees scope view) (htree : ctx.scopes.Descends)
    (hfree : ctx.scopes.lookupLocal? scope entry.name = none) :
    (ctx.declareArgument scope entry).Sees scope (view.declare ctx.symbols.size) := by
  have hadd : ({ ctx with symbols := ctx.symbols.add (.argument entry) } : Context).Sees scope
      view :=
    h.confined htree (Confined.addSymbol [] [] _ _) (SymbolTable.later_add _ _) (by simp)
  exact hadd.bindVariable htree hfree
    (by simp [SymbolTable.storedVariable?, Symbol.storedVariable?])

/-- A new argument fills in nothing of the others. -/
theorem fills_declareArgument (ctx : Context) (nodes : List NodeId) (scope : ScopeId)
    (entry : VariableEntry) : Fills [] nodes [scope] ctx (ctx.declareArgument scope entry) :=
  (Fills.add (s := .argument entry) id).trans
    (Fills.bindName (List.mem_singleton_self scope) entry.name ctx.symbols.size)

end

/-- What declaring parameters does to the names of their scope. -/
structure BindsParams (scope : ScopeId) (params : List Param) (ctx ctx' : Context) : Prop where
  bound : ∀ param ∈ params, param.IsBound ctx' scope
  names : ∀ name a, ctx'.scopes.lookupLocal? scope name = some a →
    ctx.scopes.lookupLocal? scope name = some a ∨ ∃ param ∈ params, param.name.name = name
  kept : ∀ name a, ctx.scopes.lookupLocal? scope name = some a →
    ctx'.scopes.lookupLocal? scope name = some a

/-- One parameter, and then the others. -/
theorem BindsParams.cons {scope : ScopeId} {param : Param} {rest : List Param}
    {ctx ctx₁ ctx' : Context} (hrest : BindsParams scope rest ctx₁ ctx')
    (hfills : Fills [] (rest.map Param.id) [scope] ctx₁ ctx')
    (hparam : param.IsBound ctx₁ scope) (hnew : param.id ∉ rest.map Param.id)
    (hfirst : ∀ name, ctx₁.scopes.lookupLocal? scope name =
      if name = param.name.name then ctx₁.scopes.lookupLocal? scope param.name.name
      else ctx.scopes.lookupLocal? scope name)
    (hfree : ctx.scopes.lookupLocal? scope param.name.name = none) :
    BindsParams scope (param :: rest) ctx ctx' where
  bound other hother := by
    rcases List.mem_cons.1 hother with rfl | hother
    · exact hparam.keep (hfills.confined.symbol? _ hnew) hfills.later hrest.kept
    · exact hrest.bound other hother
  names name a hname := by
    rcases hrest.names name a hname with hname | ⟨other, hother, hsame⟩
    · rw [hfirst] at hname
      split at hname
      · next heq => exact .inr ⟨param, List.mem_cons_self .., heq.symm⟩
      · exact .inl hname
    · exact .inr ⟨other, List.mem_cons_of_mem _ hother, hsame⟩
  kept name a hname := by
    apply hrest.kept
    rw [hfirst, if_neg, hname]
    intro heq
    rw [heq, hfree] at hname
    cases hname

/-- What resolving parameters does, in a scope that shows a view. -/
def ResolvesParams (scope : ScopeId) (params : List Param) (ctx : Context) (ids : List SymbolId)
    (ctx' : Context) : Prop :=
  ∀ pending view, ctx.Growing pending → ScopeTree.root < scope → ctx.Sees scope view →
    ctx'.Growing pending ∧ Fills [] (params.map Param.id) [scope] ctx ctx' ∧
      ctx.symbols.Extends ctx'.symbols ∧ (∀ a ∈ ids, ctx'.symbols.Listable a) ∧
      (∀ a ∈ ids, ctx.scopes.lookupLocal? scope (ctx'.symbols.name a) = none) ∧
      (ids.map ctx'.symbols.name).Nodup ∧
      ids.map ctx'.symbols.name = params.map (fun param => param.name.name) ∧
      BindsParams scope params ctx ctx' ∧
      ∃ view', ctx'.Sees scope view' ∧ view'.owner = view.owner ∧
        ∀ v ∈ view'.visible, v ∈ ids ∨ v ∈ view.visible

/-- One more parameter in front. -/
theorem ResolvesParams.cons {scope : ScopeId} {param : Param} {rest : List Param} {ty : Ty}
    {ids : List SymbolId} {ctx ctx' : Context} (hty : ctx.Ok → ty.Storable ctx.symbols)
    (hnew : param.id ∉ rest.map Param.id)
    (hfree : ctx.scopes.lookupLocal? scope param.name.name = none)
    (hrest : ResolvesParams scope rest
      { ctx with
        symbols := ctx.symbols.add (.argument ⟨param.name.name, param.name.span, ty⟩)
        scopes := ctx.scopes.bind scope param.name.name ctx.symbols.size
        bindings := ctx.bindings.bindSymbol param.id ctx.symbols.size } ids ctx') :
    ResolvesParams scope (param :: rest) ctx (ctx.symbols.size :: ids) ctx' := by
  intro pending view hgrowing hinside hsees
  let entry : VariableEntry := ⟨param.name.name, param.name.span, ty⟩
  have hgrowing₁ : (ctx.declareArgument scope entry).Growing pending :=
    hgrowing.declareArgument hsees.opened hinside (hty hgrowing.ok) hfree
  have hsees₁ : (ctx.declareArgument scope entry).Sees scope (view.declare ctx.symbols.size) :=
    hsees.declareArgument hgrowing.ok.tree hfree
  have hfills₁ := fills_declareArgument ctx ((param :: rest).map Param.id) scope entry
  have hparam : param.id ∈ (param :: rest).map Param.id := List.mem_cons_self ..
  have hfills₂ := hfills₁.trans (Fills.bindSymbol hparam ctx.symbols.size)
  obtain ⟨hgrowing', hfills', hextends, hlistable, hunbound, hdistinct, hnames, hbinds, view',
    hsees', howner, hvariables⟩ :=
      hrest pending (view.declare ctx.symbols.size) (hgrowing₁.bindings _) hinside
      ⟨hsees₁.opened, hsees₁.shows⟩
  have hhead : ctx'.symbols.get? ctx.symbols.size = some (.argument entry) :=
    hfills'.later.argument (SymbolTable.get?_add_size _ _)
  have hname : ctx'.symbols.name ctx.symbols.size = param.name.name := by
    simp [SymbolTable.name, hhead, Symbol.name, entry]
  have hother : ∀ a ∈ ids, param.name.name ≠ ctx'.symbols.name a ∧
      ctx.scopes.lookupLocal? scope (ctx'.symbols.name a) = none := by
    intro a ha
    have hfree' := hunbound a ha
    rw [ScopeTree.lookupLocal?_bind _ _ hsees.opened hfree] at hfree'
    split at hfree'
    · cases hfree'
    · next hne => exact ⟨fun heq => hne ⟨rfl, heq.symm⟩, hfree'⟩
  refine ⟨hgrowing', hfills₂.trans (hfills'.mono (fun _ h _ => h) ?_ fun _ h _ => h),
    (SymbolTable.extends_add _ _).trans hextends, ?_, ?_, ?_, ?_, ?_, view', hsees', howner, ?_⟩
  · exact fun n hn => by simpa using Or.inr (by simpa using hn)
  · intro a ha
    rcases List.mem_cons.1 ha with rfl | ha
    · exact .inr ⟨entry, hhead⟩
    · exact hlistable a ha
  · intro a ha
    rcases List.mem_cons.1 ha with rfl | ha
    · rwa [hname]
    · exact (hother a ha).2
  · rw [List.map_cons, List.nodup_cons, hname]
    refine ⟨fun hmem => ?_, hdistinct⟩
    obtain ⟨a, ha, heq⟩ := List.mem_map.1 hmem
    exact (hother a ha).1 heq.symm
  · rw [List.map_cons, List.map_cons, hname, hnames]
  · refine hbinds.cons hfills' ⟨ctx.symbols.size, entry, ?_, ?_, rfl, ?_⟩ hnew (fun name => ?_)
      hfree
    · simp [Bindings.symbol?_bindSymbol]
    · exact SymbolTable.get?_add_size _ _
    · simp [ScopeTree.lookupLocal?_bind _ _ hsees.opened hfree]
    · by_cases heq : name = param.name.name <;>
        simp [ScopeTree.lookupLocal?_bind _ _ hsees.opened hfree, heq]
  · intro v hv
    rcases hvariables v hv with hv | hv
    · exact .inl (List.mem_cons_of_mem _ hv)
    · rcases List.mem_cons.1 hv with rfl | hv
      · exact .inl (List.mem_cons_self ..)
      · exact .inr hv

/-- Declaring parameters gives each one an argument. -/
theorem Param.does_declareAll (scope : ScopeId) (params : List Param)
    (hnodes : (params.map Param.id).Nodup) :
    Does (Param.declareAll scope params) fun ctx ids ctx' =>
      ResolvesParams scope params ctx ids ctx' := by
  induction params with
  | nil =>
      refine (does_pure _).mono ?_
      rintro ctx _ ctx' ⟨rfl, rfl⟩ pending view hgrowing hinside hsees
      exact ⟨hgrowing, .refl _ _ _ _, .refl _, by simp, by simp, by simp, rfl,
        ⟨by simp, fun _ _ h => .inl h, fun _ _ h => h⟩, view, hsees, rfl, fun v hv => .inr hv⟩
  | cons param rest ih =>
      obtain ⟨hnew, hnodes⟩ := List.nodup_cons.1 hnodes
      refine ((TypeExpr.does_resolveStorage param.ty scope "parameter").bind fun ty =>
        (does_addSymbol _).bind fun id => (does_bindSymbol param.id id).bind fun _ =>
        (does_define scope param.name.name id param.name.span).bind fun _ =>
        (ih hnodes).bind fun ids => does_pure (id :: ids)).mono ?_
      rintro _ _ ctx' ⟨ty, ctx, ⟨rfl, hty⟩, _, _, ⟨rfl, rfl⟩, _, _, rfl, _, _, ⟨-, hfree, rfl⟩,
        ids, _, hrest, rfl, rfl⟩
      exact .cons hty hnew hfree hrest

/-! ## Whole signatures -/

/-- Binds the receiver of a function of a class. -/
def FunctionDecl.declareReceiver (decl : FunctionDecl) (scope : ScopeId) :
    Option SymbolId → Analysis Unit
  | none => pure ()
  | some owner => do
    let receiver ← Analysis.addSymbol
      (.argument { name := selfName, span := decl.name.span, ty := .pointer (.classType owner) })
    let _ ← Analysis.define scope selfName receiver decl.name.span

/-- Adds the mark for further arguments behind the declared ones. -/
def Analysis.markVariadic (variadic : Bool) (declared : List SymbolId) : Analysis (List SymbolId) :=
  if variadic then do
    let mark ← Analysis.addSymbol .variadicMarker
    return declared ++ [mark]
  else return declared

/-- Gives a function its signature. -/
def Analysis.sign (id : SymbolId) (returnType : Ty) (arguments : List SymbolId) (span : Span) :
    Analysis Unit := do
  match (← get).symbols.setSignature id returnType arguments with
  | .ok symbols => modify fun ctx => { ctx with symbols }
  | .error error => Analysis.mismatch (.signature error) span

/-- Declaring the receiver binds it where the function has an owner. -/
theorem FunctionDecl.does_declareReceiver (decl : FunctionDecl) (scope : ScopeId)
    (owner : Option SymbolId) : Does (decl.declareReceiver scope owner) fun ctx _ ctx' =>
      ∀ pending, ctx.Growing pending → ScopeTree.root < scope → ctx.Sees scope ⟨owner, []⟩ →
        (∀ c ∈ owner, (ctx.symbols.class? c).isSome = true) →
        ctx'.Growing pending ∧ Fills [] [] [scope] ctx ctx' ∧
          ctx.symbols.Extends ctx'.symbols ∧
          (∀ c ∈ owner, ∃ a, ctx'.scopes.lookupLocal? scope selfName = some a ∧
            ctx'.symbols.Receiver c a) ∧
          (∀ name a, ctx'.scopes.lookupLocal? scope name = some a →
            ctx.scopes.lookupLocal? scope name = some a ∨
              name = selfName ∧ ∃ c, owner = some c ∧ ctx'.symbols.Receiver c a) ∧
          ∃ view, ctx'.Sees scope view ∧ view.owner = owner ∧
            ∀ v ∈ view.visible, ∃ c, owner = some c ∧ ctx'.symbols.Receiver c v := by
  cases owner with
  | none =>
      refine (does_pure _).mono ?_
      rintro ctx _ ctx' ⟨-, rfl⟩ pending hgrowing hinside hsees -
      exact ⟨hgrowing, .refl _ _ _ _, .refl _, by simp, fun _ _ h => .inl h, _, hsees, rfl, by simp⟩
  | some owner =>
      let entry : VariableEntry := ⟨selfName, decl.name.span, .pointer (.classType owner)⟩
      refine ((does_addSymbol (.argument entry)).bind fun id =>
        (does_define scope selfName id decl.name.span).bind fun _ => does_pure ()).mono ?_
      rintro ctx _ ctx' ⟨_, _, ⟨rfl, rfl⟩, _, _, ⟨-, hfree, rfl⟩, -, rfl⟩ pending hgrowing hinside
        hsees hclass
      have hty : entry.ty.Storable ctx.symbols := ⟨hclass owner rfl, rfl⟩
      have hreceiver : (ctx.symbols.add (.argument entry)).Receiver owner ctx.symbols.size :=
        ⟨entry, SymbolTable.get?_add_size _ _, rfl, rfl⟩
      have hlookup := ScopeTree.lookupLocal?_bind ctx.scopes ctx.symbols.size hsees.opened hfree
      refine ⟨hgrowing.declareArgument hsees.opened hinside hty hfree,
        fills_declareArgument ctx [] scope entry, SymbolTable.extends_add _ _, ?_, ?_, _,
        hsees.declareArgument hgrowing.ok.tree hfree, rfl, fun v hv => ?_⟩
      · rintro c ⟨⟩
        exact ⟨ctx.symbols.size, by simp [hlookup], hreceiver⟩
      · intro name a hname
        rw [hlookup] at hname
        split at hname
        · next heq =>
            cases hname
            exact .inr ⟨heq.2, owner, rfl, hreceiver⟩
        · exact .inl hname
      · rw [List.mem_singleton.1 (show v ∈ [ctx.symbols.size] from hv)]
        exact ⟨owner, rfl, hreceiver⟩

/-- The mark for further arguments stands behind the declared ones. -/
theorem does_markVariadic (variadic : Bool) (declared : List SymbolId) :
    Does (Analysis.markVariadic variadic declared) fun ctx arguments ctx' =>
      (declared ⊆ arguments ∧ ∀ t, ctx'.symbols.Later t → ∀ entry : FunctionEntry,
        entry.arguments = arguments → (t.declaredArguments entry).Sublist declared) ∧
      ∀ pending, ctx.Growing pending → (∀ a ∈ declared, ctx.symbols.Listable a) →
        ctx'.Growing pending ∧ Fills [] [] [] ctx ctx' ∧ ctx.symbols.Extends ctx'.symbols ∧
          ∀ a ∈ arguments, ctx'.symbols.Listable a := by
  cases variadic with
  | false =>
      refine (does_pure _).mono ?_
      rintro ctx _ ctx' ⟨rfl, rfl⟩
      refine ⟨⟨fun _ h => h, fun t _ entry hentry => ?_⟩, fun pending hgrowing hlistable =>
        ⟨hgrowing, .refl _ _ _ _, .refl _, hlistable⟩⟩
      exact hentry ▸ List.filter_sublist
  | true =>
      refine ((does_addSymbol .variadicMarker).bind fun mark =>
        does_pure (declared ++ [mark])).mono ?_
      rintro ctx _ ctx' ⟨_, _, ⟨rfl, rfl⟩, rfl, rfl⟩
      refine ⟨⟨List.subset_append_left _ _, fun t hlater entry hentry => ?_⟩,
        fun pending hgrowing hlistable => ⟨hgrowing.add trivial rfl nofun, .add id,
          SymbolTable.extends_add _ _, fun a ha => ?_⟩⟩
      · have hmark := hlater.variadicMarker (SymbolTable.get?_add_size ctx.symbols .variadicMarker)
        simp [SymbolTable.declaredArguments, hentry, List.filter_append, hmark]
      · rcases List.mem_append.1 ha with ha | ha
        · exact (hlistable a ha).later (SymbolTable.later_add _ _)
        · rw [List.mem_singleton.1 ha]
          exact .inl (SymbolTable.get?_add_size _ _)

/-- Signing a function completes its entry, which had no signature before. -/
theorem does_sign (id : SymbolId) (returnType : Ty) (arguments : List SymbolId) (span : Span) :
    Does (Analysis.sign id returnType arguments span) fun ctx _ ctx' =>
      ∀ pending entry, ctx.Growing (id :: pending) → ctx.symbols.function? id = some entry →
        entry.resolved = false → returnType.Known ctx.symbols →
        (∀ a ∈ arguments, ctx.symbols.Listable a) →
        ctx'.Growing pending ∧ Fills [id] [] [] ctx ctx' ∧
          ctx'.symbols.function? id =
            some { entry with returnType, arguments, resolved := true } := by
  refine does_read fun before => ?_
  split
  · next symbols hsymbols =>
      refine (does_modify (f := fun ctx => { ctx with symbols }) fun _ => rfl).mono ?_
      rintro ctx _ ctx' rfl rfl pending entry hgrowing hentry hopen hreturn harguments
      simp only [SymbolTable.setSignature, hentry, hopen, Bool.false_eq_true, if_false,
        Except.ok.injEq] at hsymbols
      subst hsymbols
      have hlater := SymbolTable.later_sign hentry hopen returnType arguments
      have hfunction : ∀ s, before.symbols.get? id = some s → s = .function entry := by
        intro s hs
        have hs' : s.function? = some entry := by simpa [SymbolTable.function?, hs] using hentry
        cases s <;> simp_all [Symbol.function?]
      refine ⟨⟨?_, ?_, ?_, hgrowing.opened, hgrowing.kind⟩, ?_, ?_⟩
      · exact hgrowing.ok.symbols (hgrowing.ok.table.sign hentry hopen hreturn harguments) hlater
      · exact hgrowing.unlaid.modify fun _ _ _ => rfl
      · exact hgrowing.pending.sign rfl
      · refine Fills.modify (List.mem_singleton_self id) hlater fun s hs => ?_
        rw [hfunction s hs]
        rfl
      · have hs := SymbolTable.function?_eq_some_iff.1 hentry
        simp [SymbolTable.function?, SymbolTable.get?_modify, hs, Symbol.function?]
  · exact (does_mismatch _ _).never

/-- What resolving a signature does: the function has it, and its scope shows its arguments. -/
def Signs (decl : FunctionDecl) (id : SymbolId) (scope : ScopeId) (owner : Option SymbolId)
    (ctx ctx' : Context) : Prop :=
  ∀ pending entry, ctx.Growing (id :: pending) → ScopeTree.root < scope →
    ctx.Sees scope ⟨owner, []⟩ → (∀ c ∈ owner, (ctx.symbols.class? c).isSome = true) →
    ctx.symbols.function? id = some entry → entry.resolved = false →
    ctx'.Growing pending ∧ Fills [id] (decl.params.map Param.id) [scope] ctx ctx' ∧
      ∃ view entry', ctx'.Sees scope view ∧ view.owner = owner ∧
        ctx'.symbols.function? id = some entry' ∧ entry'.resolved = true ∧
        entry'.owner = entry.owner ∧ entry'.traits = entry.traits ∧
        (∀ a ∈ entry'.arguments, ctx'.symbols.Listable a) ∧
        (entry.owner = owner → (ctx'.symbols.parameterNames entry').Nodup ∧
          ∀ name ∈ ctx'.symbols.parameterNames entry', decl.TakesName owner name) ∧
        ((∀ name, ctx.scopes.lookupLocal? scope name = none) →
          BindsParameters ctx' decl owner scope) ∧
        ∀ v ∈ view.visible, v ∈ entry'.arguments ∨
          ∃ c, owner = some c ∧ ctx'.symbols.Receiver c v

/-- A signature is resolved in five steps: result, receiver, parameters, mark, entry. -/
theorem FunctionDecl.resolveSignature_eq (decl : FunctionDecl) (id : SymbolId) (scope : ScopeId)
    (owner : Option SymbolId) :
    decl.resolveSignature id scope owner = (do
      let returnType ← decl.returnType.resolve scope
      decl.declareReceiver scope owner
      let declared ← Param.declareAll scope decl.params
      let arguments ← Analysis.markVariadic decl.body.isVariadic declared
      Analysis.sign id returnType arguments decl.name.span) := by
  unfold resolveSignature markVariadic sign
  cases owner with
  | none => cases decl.body.isVariadic <;> rfl
  | some owner => cases decl.body.isVariadic <;> rfl

/-- Behind the receiver, the parameters are bound. -/
theorem BindsParams.parameters {decl : FunctionDecl} {owner : Option SymbolId} {scope : ScopeId}
    {ctx ctx' : Context} (h : BindsParams scope decl.params ctx ctx')
    (hlater : ctx.symbols.Later ctx'.symbols)
    (hself : ∀ c ∈ owner, ∃ a, ctx.scopes.lookupLocal? scope selfName = some a ∧
      ctx.symbols.Receiver c a)
    (hnames : ∀ name a, ctx.scopes.lookupLocal? scope name = some a →
      name = selfName ∧ ∃ c, owner = some c ∧ ctx.symbols.Receiver c a) :
    BindsParameters ctx' decl owner scope where
  params := h.bound
  receiver c hc := by
    obtain ⟨a, ha, hreceiver⟩ := hself c hc
    exact ⟨a, h.kept _ _ ha, hreceiver.later hlater⟩
  names name a hname := by
    rcases h.names name a hname with hname | hparam
    · obtain ⟨hself', c, hc, hreceiver⟩ := hnames name a hname
      exact .inr ⟨hself', c, hc, hreceiver.later hlater⟩
    · exact .inl hparam

/-- The parameters of the code have the names that are written, and the receiver's. -/
theorem SymbolTable.takesNames {t : SymbolTable} {decl : FunctionDecl} {entry : FunctionEntry}
    (hdeclared : ((t.declaredArguments entry).map t.name).Sublist
      (decl.params.map fun param => param.name.name))
    (hdistinct : (decl.params.map fun param => param.name.name).Nodup)
    (hself : ∀ c ∈ entry.owner, ∀ param ∈ decl.params, param.name.name ≠ selfName) :
    (t.parameterNames entry).Nodup ∧
      ∀ name ∈ t.parameterNames entry, decl.TakesName entry.owner name := by
  refine ⟨List.nodup_append.2 ⟨?_, hdistinct.sublist hdeclared, fun n hn m hm heq => ?_⟩,
    fun name hname => ?_⟩
  · cases entry.owner <;> simp
  · obtain ⟨c, hc, rfl⟩ := Option.map_eq_some_iff.1 (Option.mem_toList.1 hn)
    obtain ⟨param, hparam, hname⟩ := List.mem_map.1 (hdeclared.subset hm)
    exact hself c hc param hparam (hname.trans heq.symm)
  · rcases List.mem_append.1 hname with hname | hname
    · obtain ⟨c, hc, rfl⟩ := Option.map_eq_some_iff.1 (Option.mem_toList.1 hname)
      exact .inr ⟨rfl, Option.isSome_of_eq_some hc⟩
    · exact .inl (List.mem_map.1 (hdeclared.subset hname))

/-- **A signature that is resolved** makes the parameters visible. -/
theorem FunctionDecl.does_resolveSignature (decl : FunctionDecl) (id : SymbolId) (scope : ScopeId)
    (owner : Option SymbolId) (hnodes : (decl.params.map Param.id).Nodup) :
    Does (decl.resolveSignature id scope owner) fun ctx _ ctx' =>
      Signs decl id scope owner ctx ctx' := by
  rw [resolveSignature_eq]
  refine ((TypeExpr.does_resolve decl.returnType scope).bind fun returnType =>
    (decl.does_declareReceiver scope owner).bind fun _ =>
    (Param.does_declareAll scope decl.params hnodes).bind fun declared =>
    (does_markVariadic decl.body.isVariadic declared).bind fun arguments =>
    does_sign id returnType arguments decl.name.span).mono ?_
  rintro _ _ ctx' ⟨returnType, ctx, ⟨rfl, hreturn⟩, _, ctx₁, hreceiver, declared, ctx₂, hparams,
    arguments, ctx₃, ⟨⟨hsubset, hdeclared⟩, hmark⟩, hsign⟩ pending entry hgrowing hinside hsees
    hclass hentry hopen
  obtain ⟨hgrowing₁, hfills₁, hextends₁, hself, hnames₁, view₁, hsees₁, howner₁, hreceivers⟩ :=
    hreceiver _ hgrowing hinside hsees hclass
  obtain ⟨hgrowing₂, hfills₂, hextends₂, hlistable₂, hunbound, hdistinct, hwritten, hbinds, view,
    hsees₂, howner₂, hvariables⟩ := hparams _ view₁ hgrowing₁ hinside hsees₁
  obtain ⟨hgrowing₃, hfills₃, hextends₃, hlistable₃⟩ := hmark _ hgrowing₂ hlistable₂
  have hextends := hextends₁.trans (hextends₂.trans hextends₃)
  obtain ⟨hgrowing', hfills', hentry'⟩ := hsign pending entry hgrowing₃
    (hextends.function? hentry) hopen ((hreturn hgrowing.ok).later hextends.later) hlistable₃
  -- Marking and signing open no scope and bind no name.
  have hlast := (hfills₃.mono (by simp) (fun _ h => h) fun _ h _ => h).trans hfills'
  have hsees' := hsees₂.confined hgrowing₂.ok.tree hlast.confined hlast.later (by simp)
  refine ⟨hgrowing', ?_, view, _, hsees', howner₂.trans howner₁, hentry', rfl, rfl, rfl,
    fun a ha => (hlistable₃ a ha).later hfills'.later, fun howner => ?_, fun hempty => ?_, ?_⟩
  · exact (hfills₁.mono (by simp) (by simp) fun _ h _ => h).trans
      ((hfills₂.mono (by simp) (fun _ h => h) fun _ h _ => h).trans
        (hlast.mono (fun _ h _ => h) (by simp) (by simp)))
  · have hnames : ∀ a ∈ declared, ctx'.symbols.name a = ctx₂.symbols.name a := fun a ha =>
      hlast.later.name (hlistable₂ a ha).lt_size
    have hmap := (hdeclared _ hfills'.later
      { entry with returnType, arguments, resolved := true } rfl).map ctx'.symbols.name
    rw [List.map_congr_left hnames, hwritten] at hmap
    refine howner ▸ SymbolTable.takesNames hmap (hwritten ▸ hdistinct)
      fun c hc param hparam heq => ?_
    -- The receiver is bound before the parameters, so that none of them has its name.
    obtain ⟨receiver, hbound, -⟩ := hself c (howner ▸ hc)
    obtain ⟨a, ha, hname⟩ := List.mem_map.1 (hwritten ▸ List.mem_map_of_mem hparam :
      param.name.name ∈ declared.map ctx₂.symbols.name)
    have hfree := hunbound a ha
    rw [hname, heq, hbound] at hfree
    cases hfree
  · refine (hbinds.parameters hfills₂.later hself fun name a hname => ?_).keep
      (fun param _ => hlast.confined.symbol? _ (by simp)) hlast.later
      (hlast.confined.lookupLocal? hsees₂.opened (by simp))
    exact (hnames₁ name a hname).resolve_left fun hname => by cases (hempty name).symm.trans hname
  · intro v hv
    rcases hvariables v hv with hv | hv
    · exact .inl (hsubset hv)
    · obtain ⟨c, hc, a, ha, hfacts⟩ := hreceivers v hv
      exact .inr ⟨c, hc, a, (hfills₂.later.trans hlast.later).argument ha, hfacts⟩

/-- A function whose scope was opened in `outer` and whose signature was resolved there. -/
theorem Signs.prepare {decl : FunctionDecl} {id : SymbolId} {outer scope : ScopeId}
    {owner : Option SymbolId} {ctx ctx' : Context} {entry : FunctionEntry}
    {pending : List SymbolId}
    (hsigns : Signs decl id scope owner { ctx with
      scopes := ctx.scopes.push outer (.function id)
      bindings := ctx.bindings.bindScope decl.id ctx.scopes.size } ctx')
    (hscope : scope = ctx.scopes.size) (hnodes : decl.nodes.Nodup)
    (hgrowing : ctx.Growing (id :: pending)) (hsees : ctx.Sees outer ⟨owner, []⟩)
    (hencloses : ctx.Encloses outer owner)
    (hclass : ∀ c ∈ owner, (ctx.symbols.class? c).isSome = true)
    (hsymbol : ctx.bindings.symbol? decl.id = some id) (hunopened : ctx.Unopened decl.nodes)
    (hentry : ctx.symbols.function? id = some entry) (hopen : entry.resolved = false)
    (howner : entry.owner = owner) (hwritten : entry.traits.implicit = false) :
    ctx'.Growing pending ∧ Fills [id] decl.nodes [] ctx ctx' ∧ IsPrepared ctx' decl owner id := by
  subst hscope
  obtain ⟨hid, hnodes⟩ := List.nodup_cons.1 hnodes
  have hkind : ∀ c, ScopeKind.function id = .classBody c → owner = some c := nofun
  have hsees₁ := hsees.push hgrowing.ok.tree hkind
  obtain ⟨hgrowing', hfills, view, entry', hsees', hview, hentry', hresolved, howner', htraits,
    hlistable, hdistinct, hbinds, hvariables⟩ :=
      hsigns pending entry ((hgrowing.push hsees.opened _).bindings _)
      hgrowing.opened ⟨hsees₁.opened, hsees₁.shows⟩ hclass hentry hopen
  have hparams : ∀ n, n ∉ decl.params.map Param.id → n ≠ decl.id →
      ctx'.bindings.scope? n = ctx.bindings.scope? n := by
    intro n hn hne
    refine (hfills.confined.scope? n hn).trans ?_
    rw [Bindings.scope?_bindScope, if_neg hne]
  have hdecl : decl.id ∉ decl.params.map Param.id := fun hmem =>
    hid (List.mem_append_left _ hmem)
  have hpushed : ctx.scopes.size ≤ (ctx.scopes.push outer (.function id)).size := by
    simp
  refine ⟨hgrowing', ?_, ctx.scopes.size, view, entry', ?_, howner'.trans howner⟩
  · have hall : Fills [id] decl.nodes [ctx.scopes.size] ctx ctx' :=
      (Fills.openScope (List.mem_cons_self ..) outer (.function id)).trans (hfills.mono
        (fun _ h _ => h) (fun n hn => List.mem_cons_of_mem _ (List.mem_append_left _ hn))
          fun _ h _ => h)
    refine hall.mono (fun _ h _ => h) (fun _ h => h) fun s hs hlt => ?_
    exact absurd hlt (by simp [List.mem_singleton.1 hs])
  · constructor
    · exact (hfills.confined.symbol? _ hdecl).trans hsymbol
    · refine (hfills.confined.scope? _ hdecl).trans ?_
      rw [Bindings.scope?_bindScope, if_pos rfl]
    · exact hgrowing.opened
    · exact hsees'
    · exact hentry'
    · exact hresolved
    · rw [htraits, hwritten]
    · exact hlistable
    · exact (hdistinct howner).1
    · rw [hview, howner', howner]
    · intro v hv
      rw [howner', howner]
      exact hvariables v hv
    · intro n hn
      have hn' : n ∈ decl.nodes := List.mem_cons_of_mem _ (List.mem_append_right _ hn)
      rw [hparams n, hunopened n hn']
      · exact fun hmem => (List.nodup_append.1 hnodes).2.2 n hmem n hn rfl
      · rintro rfl
        exact hid (List.mem_append_right _ hn)
    · rw [howner', howner]
      have hopened := hsees₁.opened
      constructor
      · exact Nat.lt_of_lt_of_le hopened hfills.confined.size
      · rw [hfills.confined.kind _ hopened, ScopeTree.kind_push, if_pos rfl]
      · exact hbinds fun name => by rw [ScopeTree.lookupLocal?_push, if_pos rfl]
      · refine ⟨outer, Nat.lt_of_lt_of_le hsees.opened
          (Nat.le_trans hpushed hfills.confined.size), ?_, ?_⟩
        · rw [hfills.confined.parent? _ hopened, ScopeTree.parent?_push, if_pos rfl]
        · exact (hencloses.confined (Confined.openScope decl.id [] outer (.function id) ctx)
            hsees.opened).confined hfills.confined (Nat.lt_of_lt_of_le hsees.opened hpushed)
      · exact ⟨entry', hentry', hresolved, hlistable, (hdistinct howner).2⟩

end ClassLang
