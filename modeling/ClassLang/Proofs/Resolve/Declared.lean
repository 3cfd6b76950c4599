import ClassLang.Proofs.Resolve.Script

/-!
# Declarations behind the bodies

Resolving bodies attaches things to the nodes of bodies only, and it touches none of the
scopes that were there.  So what the declarations of a script were bound to when they were
read, they are bound to in the end (`DeclaredIn`): items, the members of records, parameters,
and the names of the top level and of the scopes of functions.
-/

namespace ClassLang

open Analysis

/-- A function has a symbol, and a scope that binds its parameters. -/
def Framed (ctx : Context) (decl : FunctionDecl) (owner : Option SymbolId) (id : SymbolId) : Prop :=
  ctx.bindings.symbol? decl.id = some id ∧
    ∃ scope, ctx.bindings.scope? decl.id = some scope ∧ Presents ctx decl owner id scope

/-- Everything outside the bodies of functions is bound. -/
structure DeclaredIn (script : Script) (ctx : Context) : Prop where
  items : ∀ item ∈ script.items, ∃ id, item.Holds (Framed ctx) ctx id ∧ item.Members ctx id
  started : SymbolTable.initial.Later ctx.symbols ∧
    ctx.symbols.class? SymbolTable.rootClass = SymbolTable.initial.class? SymbolTable.rootClass
  opened : ScopeTree.root < ctx.scopes.size
  kind : ctx.scopes.kind ScopeTree.root = .root
  names : ∀ name, ctx.scopes.lookupLocal? ScopeTree.root name = ctx.topLevel? script.items name
  parents : ∀ decl ∈ script.classes, decl.HasParent script.items ctx

/-! ## Nodes outside bodies -/

/-- The head of a function is not in its body. -/
theorem FunctionDecl.not_mem_body {decl : FunctionDecl} (hnodes : decl.nodes.Nodup) {n : NodeId}
    (hn : n ∈ decl.id :: decl.params.map Param.id) : n ∉ decl.body.nodes := by
  have hparts : ((decl.id :: decl.params.map Param.id) ++ decl.body.nodes).Nodup := hnodes
  intro hbody
  exact (List.nodup_append.1 hparts).2.2 n hn n hbody rfl

theorem Item.function_nodup {item : Item} (hnodes : item.nodes.Nodup) {decl : FunctionDecl}
    (hdecl : decl ∈ item.functions) : decl.nodes.Nodup := by
  have hall : (item.functions.flatMap FunctionDecl.nodes).Nodup :=
    hnodes.sublist item.functions_sublist
  exact hall.sublist (List.sublist_flatten_of_mem (List.mem_map_of_mem hdecl))

/-- The head of a function is in no body of its item. -/
theorem Item.head_not_mem_bodyNodes {item : Item} (hnodes : item.nodes.Nodup) {decl : FunctionDecl}
    (hdecl : decl ∈ item.functions) {n : NodeId} (hn : n ∈ decl.id :: decl.params.map Param.id) :
    n ∉ FunctionDecl.bodyNodes item.functions := by
  intro hmem
  obtain ⟨other, hother, hbody⟩ := List.mem_flatMap.1 hmem
  have hhead : n ∈ decl.nodes := List.mem_append_left decl.body.nodes hn
  have hsame : decl = other := List.eq_of_mem_flatMap (hnodes.sublist item.functions_sublist) hdecl
    hother hhead (other.body_subset_nodes hbody)
  subst hsame
  exact decl.not_mem_body (item.function_nodup hnodes hdecl) hn hbody

/-- The node of a member is in no body of its class. -/
theorem Item.memberIds_not_mem_bodyNodes {item : Item} (hnodes : item.nodes.Nodup) {n : NodeId}
    (hn : n ∈ item.memberIds) : n ∉ FunctionDecl.bodyNodes item.functions := by
  cases item with
  | function decl => cases hn
  | structDecl decl => simp [Item.functions, FunctionDecl.bodyNodes]
  | classDecl decl =>
      intro hmem
      obtain ⟨member, hmember, rfl⟩ := List.mem_map.1 hn
      obtain ⟨m, hm, hbody⟩ := List.mem_flatMap.1 hmem
      obtain ⟨other, hother, hsome⟩ := List.mem_filterMap.1 hm
      cases other <;> simp only [reduceCtorEq, Option.some.injEq] at hsome
      subst hsome
      next f =>
        have hsame : member = .method f :=
          List.eq_of_mem_flatMap (List.nodup_cons.1 hnodes).2 hmember
          hother member.id_mem_nodes (f.body_subset_nodes hbody)
        subst hsame
        exact f.not_mem_body (Item.function_nodup hnodes hm) (List.mem_cons_self ..) hbody

section

variable {script : Script} {item : Item} {ctx ctx' : Context}

/-- A node that is in no body of its item is in no body at all. -/
theorem Script.not_mem_bodyNodes (hproper : script.Proper) (hitem : item ∈ script.items)
    {n : NodeId} (hn : n ∈ item.nodes) (hlocal : n ∉ FunctionDecl.bodyNodes item.functions) :
    n ∉ FunctionDecl.bodyNodes (script.items.flatMap Item.functions) := by
  intro hmem
  obtain ⟨decl, hdecl, hbody⟩ := List.mem_flatMap.1 hmem
  obtain ⟨other, hother, hof⟩ := List.mem_flatMap.1 hdecl
  have hn' : n ∈ other.functions.flatMap FunctionDecl.nodes :=
    List.mem_flatMap.2 ⟨decl, hof, decl.body_subset_nodes hbody⟩
  have hsame : item = other := List.eq_of_mem_flatMap hproper.nodup hitem hother hn
    (other.functions_sublist.subset hn')
  subst hsame
  exact hlocal (List.mem_flatMap.2 ⟨decl, hof, hbody⟩)

/-- The head of a function is in no body of the script. -/
theorem Script.head_not_mem_bodyNodes (hproper : script.Proper) (hitem : item ∈ script.items)
    {decl : FunctionDecl} (hdecl : decl ∈ item.functions) {n : NodeId}
    (hn : n ∈ decl.id :: decl.params.map Param.id) :
    n ∉ FunctionDecl.bodyNodes (script.items.flatMap Item.functions) := by
  have hnodes := Script.item_nodup hproper hitem
  have hmem : n ∈ item.functions.flatMap FunctionDecl.nodes :=
    List.mem_flatMap.2 ⟨decl, hdecl, List.mem_append_left decl.body.nodes hn⟩
  exact Script.not_mem_bodyNodes hproper hitem (item.functions_sublist.subset hmem)
    (item.head_not_mem_bodyNodes hnodes hdecl hn)

/-! ## Behind the bodies -/

/-- A function that is prepared for its body is framed behind all bodies. -/
theorem IsPrepared.framed {decl : FunctionDecl} {owner : Option SymbolId} {id : SymbolId}
    {nodes : List NodeId} (h : IsPrepared ctx decl owner id)
    (hadvances : Advances nodes [] ctx ctx')
    (hapart : ∀ n ∈ decl.id :: decl.params.map Param.id, n ∉ nodes) :
    Framed ctx' decl owner id := by
  obtain ⟨scope, view, entry, hprepared, rfl⟩ := h
  have hid := hapart decl.id (List.mem_cons_self ..)
  refine ⟨(hadvances.confined.symbol? _ hid).trans hprepared.symbol?, scope,
    (hadvances.confined.scope? _ hid).trans hprepared.scope?, ?_⟩
  exact hprepared.presents.confined hadvances.confined hadvances.extend.later (by simp)
    fun n hn => hapart n (List.mem_cons_of_mem _ hn)

/-- **Bodies change nothing that is declared.** -/
theorem Settled.declared (hproper : script.Proper) (h : Settled script ctx)
    (hadvances : Advances (FunctionDecl.bodyNodes
    (script.items.flatMap Item.functions)) [] ctx ctx') :
    DeclaredIn script ctx' := by
  have hids : ∀ item ∈ script.items,
      ctx'.bindings.symbol? item.id = ctx.bindings.symbol? item.id := by
    intro item hitem
    apply hadvances.confined.symbol?
    cases item with
    | function decl =>
        exact Script.head_not_mem_bodyNodes hproper hitem (List.mem_singleton_self _)
          (List.mem_cons_self ..)
    | _ =>
        intro hmem
        exact Script.id_not_mem_functions hproper hitem (by simp)
          (FunctionDecl.bodyNodes_subset _ hmem)
  constructor
  · intro item hitem
    have hnodes := Script.item_nodup hproper hitem
    obtain ⟨id, hfilled, hmembers⟩ := h.members item hitem
    have hapart : ∀ decl ∈ item.functions, ∀ n ∈ decl.id :: decl.params.map Param.id,
        n ∉ FunctionDecl.bodyNodes (script.items.flatMap Item.functions) :=
      fun decl hdecl n hn => Script.head_not_mem_bodyNodes hproper hitem hdecl hn
    refine ⟨id, hfilled.extend hadvances.extend ((hids item hitem).trans hfilled.1) ?_ ?_, ?_⟩
    · intro decl hdecl
      exact hadvances.confined.symbol? _ (hapart decl hdecl _ (List.mem_cons_self ..))
    · intro decl hdecl owner g hprepared
      exact hprepared.framed hadvances (hapart decl hdecl)
    · apply hmembers.keep h.ok.table hadvances.extend.later
      · rintro decl rfl
        obtain ⟨-, ⟨e, he, -⟩, -⟩ := hfilled
        exact ⟨e, e, he, (hadvances.storage.class? id).trans he, rfl, rfl⟩
      · rintro decl rfl
        obtain ⟨-, e, he, -⟩ := hfilled
        exact ⟨e, he, (hadvances.storage.struct? id).trans he⟩
      · intro n hn
        exact hadvances.confined.symbol? n (Script.not_mem_bodyNodes hproper hitem
          (item.memberIds_subset hn) (item.memberIds_not_mem_bodyNodes hnodes hn))
  · exact ⟨h.started.1.trans hadvances.extend.later,
      (hadvances.storage.class? _).trans h.started.2⟩
  · exact Nat.lt_of_lt_of_le h.opened hadvances.confined.size
  · exact (hadvances.confined.kind _ h.opened).trans h.kind
  · intro name
    rw [hadvances.confined.lookupLocal? h.opened (by simp), h.names]
    exact Context.topLevel?_congr hids
  · intro decl hdecl
    exact (h.parents decl hdecl).keep (Script.mem_classes.1 hdecl) hids
      fun id _ => hadvances.storage.parent? id

end

/-- What resolving a script does, in two steps: the declarations are settled, and then the
bodies are resolved. -/
theorem Script.does_resolve_bodies (script : Script) (hproper : script.Proper)
    {R : Context → Nat → Context → Prop}
    (hbodies : Does (FunctionDecl.resolveBodies (script.items.flatMap Item.functions)) R) :
    Does script.resolve fun ctx _ ctx' => Outline script.items ctx → ∃ ctx₁ count,
      Settled script ctx₁ ∧ (∀ item ∈ script.items, item.FreeOfItself ctx₁) ∧
        DeclaredIn script ctx' ∧ R ctx₁ count ctx' := by
  refine does_read fun before => ?_
  have hboth := (FunctionDecl.does_resolveBodies _
    (fun decl hdecl => script.proper_functions hproper hdecl)
    (Script.functions_nodup hproper)).and hbodies
  refine ((script.does_resolveDeclarations hproper).bind fun _ => hboth.bind fun bodies =>
    does_read (S := fun ctx _ ctx' => ctx' = ctx) fun after =>
      (does_pure _).mono fun ctx _ ctx' h _ => h.2).mono ?_
  rintro ctx _ ctx' ⟨_, ctx₁, hdeclared, count, ctx₂, ⟨hresolve, hrun⟩, rfl⟩ - houtline
  obtain ⟨h, -, hfree⟩ := hdeclared houtline
  obtain ⟨-, -, hadvances, -⟩ := hresolve h.ok h.resolved fun decl hdecl => by
    obtain ⟨item, hitem, hof⟩ := List.mem_flatMap.1 hdecl
    obtain ⟨id, hfilled⟩ := h.filled item hitem
    exact hfilled.function hof
  exact ⟨ctx₁, count, h, hfree, h.declared hproper hadvances, hrun⟩

end ClassLang
