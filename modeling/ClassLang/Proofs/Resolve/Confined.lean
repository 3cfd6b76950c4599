import ClassLang.Proofs.Resolve.Clean
import ClassLang.Proofs.Resolve.Scopes
import ClassLang.Resolve.Type

/-!
# What the steps of an analysis keep

An analysis of a part of a tree attaches things to the nodes of this part, binds names in a
few scopes and opens new ones; everything else stays as it is.  `Confined` says which nodes
and which scopes are concerned.  What could be seen from a scope can still be seen
(`Context.Sees.confined`), and what was right stays right.
-/

namespace ClassLang

open Analysis

/-- Only some nodes and some of the scopes that were there have changed; a scope keeps its
kind and its place in the tree in any case. -/
structure Confined (nodes : List NodeId) (touched : List ScopeId) (ctx ctx' : Context) : Prop where
  symbol? : ∀ n ∉ nodes, ctx'.bindings.symbol? n = ctx.bindings.symbol? n
  type? : ∀ n ∉ nodes, ctx'.bindings.type? n = ctx.bindings.type? n
  scope? : ∀ n ∉ nodes, ctx'.bindings.scope? n = ctx.bindings.scope? n
  size : ctx.scopes.size ≤ ctx'.scopes.size
  scopes : ∀ id < ctx.scopes.size, id ∉ touched → ctx'.scopes.get? id = ctx.scopes.get? id
  parent? : ∀ id < ctx.scopes.size, ctx'.scopes.parent? id = ctx.scopes.parent? id
  kind : ∀ id < ctx.scopes.size, ctx'.scopes.kind id = ctx.scopes.kind id

namespace Confined

variable {nodes nodes' : List NodeId} {touched touched' : List ScopeId}
  {ctx ctx' ctx'' : Context}

/-- Nothing has changed. -/
theorem refl (nodes : List NodeId) (touched : List ScopeId) (ctx : Context) :
    Confined nodes touched ctx ctx :=
  ⟨fun _ _ => rfl, fun _ _ => rfl, fun _ _ => rfl, Nat.le_refl _, fun _ _ _ => rfl,
    fun _ _ => rfl, fun _ _ => rfl⟩

/-- Two runs in a row change what either may. -/
theorem trans (h : Confined nodes touched ctx ctx') (h' : Confined nodes touched ctx' ctx'') :
    Confined nodes touched ctx ctx'' where
  symbol? n hn := (h'.symbol? n hn).trans (h.symbol? n hn)
  type? n hn := (h'.type? n hn).trans (h.type? n hn)
  scope? n hn := (h'.scope? n hn).trans (h.scope? n hn)
  size := Nat.le_trans h.size h'.size
  scopes id hid hn :=
    (h'.scopes id (Nat.lt_of_lt_of_le hid h.size) hn).trans (h.scopes id hid hn)
  parent? id hid := (h'.parent? id (Nat.lt_of_lt_of_le hid h.size)).trans (h.parent? id hid)
  kind id hid := (h'.kind id (Nat.lt_of_lt_of_le hid h.size)).trans (h.kind id hid)

/-- What has changed may be stated of more nodes and scopes. -/
theorem mono (h : Confined nodes touched ctx ctx') (hnodes : nodes ⊆ nodes')
    (htouched : ∀ id ∈ touched, id < ctx.scopes.size → id ∈ touched') :
    Confined nodes' touched' ctx ctx' where
  symbol? n hn := h.symbol? n fun hmem => hn (hnodes hmem)
  type? n hn := h.type? n fun hmem => hn (hnodes hmem)
  scope? n hn := h.scope? n fun hmem => hn (hnodes hmem)
  size := h.size
  scopes id hid hn := h.scopes id hid fun hmem => hn (htouched id hmem hid)
  parent? := h.parent?
  kind := h.kind

/-- A scope that is not touched binds what it did. -/
theorem lookupLocal? (h : Confined nodes touched ctx ctx') {scope : ScopeId}
    (hscope : scope < ctx.scopes.size) (htouched : scope ∉ touched) (name : String) :
    ctx'.scopes.lookupLocal? scope name = ctx.scopes.lookupLocal? scope name := by
  simp only [ScopeTree.lookupLocal?, h.scopes scope hscope htouched]

/-- New symbols are confined to anything. -/
theorem addSymbol (nodes : List NodeId) (touched : List ScopeId) (symbols : SymbolTable)
    (ctx : Context) : Confined nodes touched ctx { ctx with symbols } :=
  ⟨fun _ _ => rfl, fun _ _ => rfl, fun _ _ => rfl, Nat.le_refl _, fun _ _ _ => rfl,
    fun _ _ => rfl, fun _ _ => rfl⟩

/-- Attaching a symbol is confined to its node. -/
theorem bindSymbol (node : NodeId) (symbol : SymbolId) (touched : List ScopeId) (ctx : Context) :
    Confined [node] touched ctx { ctx with bindings := ctx.bindings.bindSymbol node symbol } := by
  refine ⟨fun n hn => ?_, fun _ _ => rfl, fun _ _ => rfl, Nat.le_refl _, fun _ _ _ => rfl,
    fun _ _ => rfl, fun _ _ => rfl⟩
  rw [Bindings.symbol?_bindSymbol, if_neg (by simpa using hn)]

/-- Attaching a scope is confined to its node. -/
theorem bindScope (node : NodeId) (scope : ScopeId) (touched : List ScopeId) (ctx : Context) :
    Confined [node] touched ctx { ctx with bindings := ctx.bindings.bindScope node scope } := by
  refine ⟨fun _ _ => rfl, fun _ _ => rfl, fun n hn => ?_, Nat.le_refl _, fun _ _ _ => rfl,
    fun _ _ => rfl, fun _ _ => rfl⟩
  rw [Bindings.scope?_bindScope, if_neg (by simpa using hn)]

/-- A new scope is confined to itself. -/
theorem push (nodes : List NodeId) (touched : List ScopeId) (parent : ScopeId) (kind : ScopeKind)
    (ctx : Context) :
    Confined nodes touched ctx { ctx with scopes := ctx.scopes.push parent kind } := by
  refine ⟨fun _ _ => rfl, fun _ _ => rfl, fun _ _ => rfl, ?_, fun id hid _ => ?_,
    fun id hid => ?_, fun id hid => ?_⟩
  · simp
  · exact ScopeTree.get?_push_of_lt _ _ _ hid
  · simp [ScopeTree.parent?_push, Nat.ne_of_lt hid]
  · simp [ScopeTree.kind_push, Nat.ne_of_lt hid]

/-- Binding a name is confined to its scope. -/
theorem bindName (nodes : List NodeId) (scope : ScopeId) (name : String) (symbol : SymbolId)
    (ctx : Context) :
    Confined nodes [scope] ctx { ctx with scopes := ctx.scopes.bind scope name symbol } := by
  refine ⟨fun _ _ => rfl, fun _ _ => rfl, fun _ _ => rfl, ?_, fun id hid hn => ?_,
    fun id hid => ?_, fun id hid => ?_⟩
  · simp
  · have hne : scope ≠ id := fun heq => hn (by simp [heq])
    simp [ScopeTree.get?_bind, hne]
  · simp
  · simp

/-- A scope that is opened for a node. -/
theorem openScope (node : NodeId) (touched : List ScopeId) (parent : ScopeId) (kind : ScopeKind)
    (ctx : Context) :
    Confined [node] touched ctx { ctx with
      scopes := ctx.scopes.push parent kind
      bindings := ctx.bindings.bindScope node ctx.scopes.size } :=
  (push [node] touched parent kind ctx).trans (bindScope node ctx.scopes.size touched _)

end Confined

namespace Context

variable {nodes : List NodeId} {touched : List ScopeId} {ctx ctx' : Context} {scope : ScopeId}
  {view : View}

/-- A scope that is not touched shows what it did; that of a class shows the members of
the class anyway. -/
theorem Shows.confined (h : ctx.Shows view scope) (hscope : scope < ctx.scopes.size)
    (hconfined : Confined nodes touched ctx ctx') (hlater : ctx.symbols.Later ctx'.symbols)
    (htouched : scope ∈ touched → ∃ c, ctx.scopes.kind scope = .classBody c) :
    ctx'.Shows view scope := by
  unfold Shows at h ⊢
  rw [hconfined.kind scope hscope]
  split at h
  · exact h
  · next hkind =>
      have hnot : scope ∉ touched := fun hmem => by
        obtain ⟨c, hc⟩ := htouched hmem
        exact hkind c hc
      intro name id hname
      rw [hconfined.lookupLocal? hscope hnot] at hname
      rcases h name id hname with ⟨hmem, hstored⟩ | ⟨symbol, hsymbol, hitem⟩
      · refine .inl ⟨hmem, ?_⟩
        obtain ⟨entry, hentry⟩ := Option.isSome_iff_exists.1 hstored
        rcases SymbolTable.storedVariable?_eq_some_iff.1 hentry with hs | hs
        · simp [SymbolTable.storedVariable?, hlater.argument hs, Symbol.storedVariable?]
        · simp [SymbolTable.storedVariable?, hlater.localVariable hs, Symbol.storedVariable?]
      · obtain ⟨symbol', hsymbol', hl⟩ := hlater id symbol hsymbol
        exact .inr ⟨symbol', hsymbol', hl.isItem_iff.2 hitem⟩

/-- The chain of a scope does not change. -/
theorem chain_confined (htree : ctx.scopes.Descends) (hscope : scope < ctx.scopes.size)
    (hconfined : Confined nodes touched ctx ctx') :
    ctx'.scopes.chain scope = ctx.scopes.chain scope :=
  ScopeTree.chain_congr htree (fun i hi => hconfined.parent? i (Nat.lt_of_le_of_lt hi hscope))
    hscope (Nat.lt_of_lt_of_le hscope hconfined.size)

/-- **What could be seen can still be seen**, if only class bodies along the chain got more
names. -/
theorem Sees.confined (h : ctx.Sees scope view) (htree : ctx.scopes.Descends)
    (hconfined : Confined nodes touched ctx ctx') (hlater : ctx.symbols.Later ctx'.symbols)
    (htouched : ∀ s ∈ ctx.scopes.chain scope, s ∈ touched →
      ∃ c, ctx.scopes.kind s = .classBody c) : ctx'.Sees scope view := by
  refine ⟨Nat.lt_of_lt_of_le h.opened hconfined.size, ?_⟩
  rw [chain_confined htree h.opened hconfined]
  intro s hs
  have hlt := Nat.lt_of_le_of_lt (ScopeTree.le_of_mem_chain htree hs) h.opened
  exact (h.shows s hs).confined hlt hconfined hlater (htouched s hs)

/-- A new scope that binds nothing shows what the scope around it shows. -/
theorem Sees.push (h : ctx.Sees scope view) (htree : ctx.scopes.Descends) {kind : ScopeKind}
    (hkind : ∀ c, kind = .classBody c → view.owner = some c) :
    ({ ctx with scopes := ctx.scopes.push scope kind } : Context).Sees ctx.scopes.size view := by
  have hconfined := Confined.push [] [] scope kind ctx
  have hsees := h.confined htree hconfined (.refl _) (by simp)
  have hopened : ctx.scopes.size < (ctx.scopes.push scope kind).size := by simp
  refine ⟨hopened, fun s hs => ?_⟩
  rw [ScopeTree.chain_eq (htree.push h.opened kind) hopened, ScopeTree.parent?_push,
    if_pos rfl] at hs
  rcases List.mem_cons.1 hs with rfl | hs
  · unfold Shows
    simp only [ScopeTree.kind_push, if_true]
    split
    · next c => exact hkind c rfl
    · intro name id hname
      simp [ScopeTree.lookupLocal?_push] at hname
  · exact hsees.shows s hs

/-- A variable that is bound in a scope can be seen there. -/
theorem Sees.bindVariable (h : ctx.Sees scope view) (htree : ctx.scopes.Descends) {name : String}
    {symbol : SymbolId} (hfree : ctx.scopes.lookupLocal? scope name = none)
    (hstored : (ctx.symbols.storedVariable? symbol).isSome = true) :
    ({ ctx with scopes := ctx.scopes.bind scope name symbol } : Context).Sees scope
      (view.declare symbol) := by
  refine ⟨by simpa using h.opened, ?_⟩
  rw [chain_confined htree h.opened (Confined.bindName [] scope name symbol ctx)]
  intro s hs
  have hshows := h.shows s hs
  unfold Shows at hshows ⊢
  simp only [ScopeTree.kind_bind]
  split at hshows
  · exact hshows
  · intro other found hname
    simp only [ScopeTree.lookupLocal?_bind _ _ h.opened hfree] at hname
    split at hname
    · cases hname
      exact .inl ⟨List.mem_cons_self .., hstored⟩
    · exact (hshows other found hname).imp_left fun hvisible =>
        ⟨List.mem_cons_of_mem _ hvisible.1, hvisible.2⟩

/-- What a name is bound to is a symbol of the table. -/
theorem Ok.get?_of_lookup? (h : ctx.Ok) {name : String} {id : SymbolId}
    (hname : ctx.scopes.lookup? scope name = some id) :
    ∃ symbol, ctx.symbols.get? id = some symbol := by
  obtain ⟨s, -, hs⟩ := List.exists_of_findSome?_eq_some hname
  exact Option.isSome_iff_exists.1 ((ctx.symbols.isSome_get?_iff id).2 (h.bound s name id hs))

/-- A context with a later table of entries that are right. -/
theorem Ok.symbols (h : ctx.Ok) {symbols : SymbolTable} (hok : symbols.Ok)
    (hlater : ctx.symbols.Later symbols) : ({ ctx with symbols } : Context).Ok where
  table := hok
  tree := h.tree
  bound s name id hname := Nat.lt_of_lt_of_le (h.bound s name id hname) hlater.size_le
  root name id hname := by
    obtain ⟨s, hs, hitem⟩ := h.root name id hname
    obtain ⟨s', hs', hl⟩ := hlater id s hs
    exact ⟨s', hs', hl.isItem_iff.2 hitem⟩

/-- What is attached to nodes does not matter. -/
theorem Ok.bindings (h : ctx.Ok) (bindings : Bindings) : ({ ctx with bindings } : Context).Ok :=
  ⟨h.table, h.tree, h.bound, h.root⟩

/-- A new scope leaves a context right. -/
theorem Ok.push (h : ctx.Ok) (hscope : scope < ctx.scopes.size) (kind : ScopeKind) :
    ({ ctx with scopes := ctx.scopes.push scope kind } : Context).Ok where
  table := h.table
  tree := h.tree.push hscope kind
  bound s name id hname := by
    simp only [ScopeTree.lookupLocal?_push] at hname
    split at hname
    · cases hname
    · exact h.bound s name id hname
  root name id hname := by
    simp only [ScopeTree.lookupLocal?_push] at hname
    split at hname
    · cases hname
    · exact h.root name id hname

/-- A name can be bound to a symbol in a scope inside the unit. -/
theorem Ok.bindName (h : ctx.Ok) (hscope : scope < ctx.scopes.size) {name : String}
    {symbol : SymbolId} (hfree : ctx.scopes.lookupLocal? scope name = none)
    (hsymbol : symbol < ctx.symbols.size) (hinside : ScopeTree.root < scope) :
    ({ ctx with scopes := ctx.scopes.bind scope name symbol } : Context).Ok where
  table := h.table
  tree := h.tree.bind scope name symbol
  bound s other id hname := by
    simp only [ScopeTree.lookupLocal?_bind _ _ hscope hfree] at hname
    split at hname
    · cases hname
      exact hsymbol
    · exact h.bound s other id hname
  root other id hname := by
    simp only [ScopeTree.lookupLocal?_bind _ _ hscope hfree] at hname
    rw [if_neg fun hand => Nat.ne_of_lt hinside hand.1] at hname
    exact h.root other id hname

end Context

/-! ## Written types -/

/-- A written type that is resolved is known. -/
theorem TypeExpr.does_resolve (ty : TypeExpr) (scope : ScopeId) :
    Does (ty.resolve scope) fun ctx t ctx' => ctx' = ctx ∧ (ctx.Ok → t.Known ctx.symbols) := by
  have hbase : Does (TypeExpr.resolveBase ty.base scope) fun ctx t ctx' =>
      ctx' = ctx ∧ (ctx.Ok → t.Known ctx.symbols) := by
    unfold TypeExpr.resolveBase
    split
    · exact (does_pure _).mono fun ctx t ctx' h => ⟨h.2, fun _ => by rw [h.1]; trivial⟩
    · next ident =>
        refine does_read fun before => ?_
        split
        · exact does_report_return _ _
        · next id hname =>
            split
            · next entry hentry =>
                refine (does_pure _).mono ?_
                rintro ctx t ctx' ⟨rfl, rfl⟩ rfl
                exact ⟨rfl, fun _ => by simp [Ty.Known, SymbolTable.class?, hentry, Symbol.class?]⟩
            · next entry hentry =>
                refine (does_pure _).mono ?_
                rintro ctx t ctx' ⟨rfl, rfl⟩ rfl
                exact ⟨rfl, fun _ => by
                  simp [Ty.Known, SymbolTable.struct?, hentry, Symbol.struct?]⟩
            · exact does_mismatch_return _ _ _
            · next hnone =>
                refine (does_pure _).mono ?_
                rintro ctx t ctx' ⟨rfl, rfl⟩ rfl
                refine ⟨rfl, fun hok => ?_⟩
                obtain ⟨symbol, hsymbol⟩ := hok.get?_of_lookup? hname
                simp [hnone] at hsymbol
  refine (hbase.bind (S := fun base ctx t ctx' => ctx' = ctx ∧
    (base.Known ctx.symbols → t.Known ctx.symbols)) fun base => ?_).mono ?_
  · split
    · exact (does_pure _).mono fun ctx t ctx' h => ⟨h.2, fun hknown => hknown.elim⟩
    · exact (does_pure _).mono fun ctx t ctx' h =>
        ⟨h.2, fun hknown => by rw [h.1, Ty.known_pointers]; exact hknown⟩
  · rintro ctx t ctx' ⟨base, _, ⟨rfl, hknown⟩, rfl, h⟩
    exact ⟨rfl, fun hok => h (hknown hok)⟩

/-- The type of a variable, a field or a parameter can be stored. -/
theorem TypeExpr.does_resolveStorage (ty : TypeExpr) (scope : ScopeId) (what : String) :
    Does (ty.resolveStorage scope what) fun ctx t ctx' =>
      ctx' = ctx ∧ (ctx.Ok → t.Storable ctx.symbols) := by
  refine ((TypeExpr.does_resolve ty scope).bind (S := fun base ctx t ctx' => ctx' = ctx ∧ t = base ∧
    base.isVoid = false) fun base => ?_).mono ?_
  · split
    · exact does_mismatch_return _ _ _
    · next h => exact (does_pure _).mono fun ctx t ctx' hr => ⟨hr.2, hr.1, by simpa using h⟩
  · rintro ctx t ctx' ⟨base, _, ⟨rfl, hknown⟩, rfl, rfl, hvoid⟩
    exact ⟨rfl, fun hok => ⟨hknown hok, hvoid⟩⟩

end ClassLang
