import ClassLang.Proofs.Accepted
import ClassLang.Proofs.Resolve.Lookup

/-!
# Names are lexically scoped

The rule of scoping, by itself (`Denotes`): a name means the variable that the innermost block
around it declares in front of it; otherwise a parameter or the receiver; otherwise, in a class,
the nearest member of this name; otherwise what the top level has.  Resolution opens scopes on
its way, asks them from the inside out, and lets the body of a class answer from the symbol
table.  Where it reports nothing, it binds every name, and every call without a receiver, to
what the rule says (`resolve_lexicallyScoped`).
-/

namespace ClassLang

open Analysis

/-! ## The rule -/

/-- The parameter of a name. -/
def FunctionDecl.parameter? (decl : FunctionDecl) (name : String) : Option Param :=
  decl.params.find? fun param => param.name.name == name

/-- The class that the functions of an item belong to. -/
def Item.owner? (ctx : Context) : Item → Option SymbolId
  | .classDecl decl => ctx.bindings.symbol? decl.id
  | .structDecl _ | .function _ => none

/-- The argument that a function of a class has for its receiver. -/
def Context.IsReceiver (ctx : Context) (decl : FunctionDecl) (owner s : SymbolId) : Prop :=
  ∃ scope, ctx.bindings.scope? decl.id = some scope ∧
    ctx.scopes.lookupLocal? scope selfName = some s ∧ ctx.symbols.Receiver owner s

/-- **What a use of a name denotes**, in a function that belongs to a class or to none. -/
inductive Denotes (ctx : Context) (items : List Item) (owner : Option SymbolId)
    (decl : FunctionDecl) (use : NameUse) (s : SymbolId) : Prop
  /-- A variable of the innermost block that has one of this name. -/
  | variableOf {node : NodeId} (hdeclared : use.frames.find? use.name = some node)
      (hs : ctx.bindings.symbol? node = some s)
  /-- A parameter. -/
  | parameter {param : Param} (hno : use.frames.find? use.name = none)
      (hparam : decl.parameter? use.name = some param)
      (hs : ctx.bindings.symbol? param.id = some s)
  /-- The receiver of a function of a class. -/
  | receiver {c : SymbolId} (hno : use.frames.find? use.name = none)
      (hparam : decl.parameter? use.name = none) (howner : owner = some c)
      (hself : use.name = selfName) (hs : ctx.IsReceiver decl c s)
  /-- A member of the class. -/
  | member {c : SymbolId} (hno : use.frames.find? use.name = none)
      (hparam : decl.parameter? use.name = none) (howner : owner = some c)
      (hself : use.name ≠ selfName) (hs : ctx.symbols.NearestMember use.name c s)
  /-- What the top level has: an item or the root class. -/
  | topLevel (hno : use.frames.find? use.name = none) (hparam : decl.parameter? use.name = none)
      (howner : ∀ c, owner = some c → use.name ≠ selfName ∧
        ∀ m, ¬ ctx.symbols.NearestMember use.name c m)
      (hs : ctx.topLevel? items use.name = some s)

/-- **The rule leaves no choice.** -/
theorem Denotes.unique {ctx : Context} {items : List Item} {owner : Option SymbolId}
    {decl : FunctionDecl} {use : NameUse} {s s' : SymbolId} (h : Denotes ctx items owner decl use s)
    (h' : Denotes ctx items owner decl use s') : s = s' := by
  cases h with
  | variableOf hdeclared hs =>
      cases h' <;> simp_all
  | parameter hno hparam hs =>
      cases h' <;> simp_all
  | @receiver c hno hparam howner hself hs =>
      obtain ⟨scope, hscope, hlookup, -⟩ := hs
      cases h' with
      | receiver _ _ _ _ hs' =>
          obtain ⟨scope', hscope', hlookup', -⟩ := hs'
          cases hscope.symm.trans hscope'
          exact Option.some.inj (hlookup.symm.trans hlookup')
      | topLevel _ _ howner' => exact absurd hself (howner' c howner).1
      | _ => simp_all
  | @member c hno hparam howner hself hs =>
      cases h' with
      | member _ _ howner' _ hs' =>
          cases howner.symm.trans howner'
          exact hs.unique hs'
      | topLevel _ _ howner' => exact absurd hs ((howner' c howner).2 s)
      | _ => simp_all
  | topLevel hno hparam howner hs =>
      cases h' with
      | receiver _ _ howner' hself' _ => exact absurd hself' (howner _ howner').1
      | member _ _ howner' _ hs' => exact absurd hs' ((howner _ howner').2 s')
      | _ => simp_all

/-- What is looked up in a visit of a tree: the node and the name. -/
def Visit.reference? : Visit → Option (NodeId × String)
  | .expr e => e.reference?.map fun name => (e.id, name)
  | _ => none

/-- Names are bound by the rule of scoping. -/
structure LexicallyScoped (script : Script) (ctx : Context) : Prop where
  /-- The uses of names in a body are its names and its calls without a receiver. -/
  uses : ∀ item ∈ script.items, ∀ decl ∈ item.functions,
    decl.uses.map (fun use => (use.node, use.name)) = decl.visits.filterMap Visit.reference?
  /-- Each of them is bound to what it denotes, and to nothing else. -/
  bound : ∀ item ∈ script.items, ∀ decl ∈ item.functions, ∀ use ∈ decl.uses,
    ∃ s, ctx.bindings.symbol? use.node = some s ∧
      ∀ s', Denotes ctx script.items (item.owner? ctx) decl use s' ↔ s' = s
  /-- The own members of a class are those that it declares, and perhaps an `init`. -/
  members : ∀ decl, .classDecl decl ∈ script.items →
    ∃ c, ctx.bindings.symbol? decl.id = some c ∧ HasMembers ctx decl.members c
  /-- The ancestors of a class are those that the `extends` clauses name. -/
  parents : ∀ decl, .classDecl decl ∈ script.items → decl.HasParent script.items ctx

/-! ## All names are uses -/

theorem Expr.uses_map (e : Expr) (frames : Frames) :
    (e.uses frames).map (fun use => (use.node, use.name)) =
    e.visits.filterMap Visit.reference? := by
  simp only [Expr.uses, Expr.visits, List.map_filterMap, List.filterMap_map]
  congr 1
  funext sub
  simp [Function.comp_def, Visit.reference?, Option.map_map]

theorem Expr.usesOfOption_map (e : Option Expr) (frames : Frames) :
    (Expr.usesOfOption frames e).map (fun use => (use.node, use.name)) =
      (Expr.visitsOfOption e).filterMap Visit.reference? := by
  cases e with
  | none => rfl
  | some e => exact e.uses_map frames

mutual

theorem Stmt.uses_map (s : Stmt) (frames : Frames) :
    (s.uses frames).map (fun use => (use.node, use.name)) =
    s.visits.filterMap Visit.reference? := by
  cases s with
  | block id stmts span =>
      simp only [Stmt.uses, Stmt.visits, List.filterMap_cons, Visit.reference?]
      exact Stmt.usesOfAll_map stmts _
  | varDecl id ty name value span =>
      simp only [Stmt.uses, Stmt.visits, List.filterMap_cons, Visit.reference?]
      exact Expr.usesOfOption_map value frames
  | ifThen condition positive span =>
      simp only [Stmt.uses, Stmt.visits, List.filterMap_cons, Visit.reference?, List.map_append,
        List.filterMap_append]
      rw [Expr.uses_map, Stmt.uses_map]
  | ifElse condition positive negative span =>
      simp only [Stmt.uses, Stmt.visits, List.filterMap_cons, Visit.reference?, List.map_append,
        List.filterMap_append, List.append_assoc]
      rw [Expr.uses_map, Stmt.uses_map, Stmt.uses_map]
  | ret value span =>
      simp only [Stmt.uses, Stmt.visits, List.filterMap_cons, Visit.reference?]
      exact Expr.usesOfOption_map value frames
  | expr e span =>
      simp only [Stmt.uses, Stmt.visits, List.filterMap_cons, Visit.reference?]
      exact e.uses_map frames

theorem Stmt.usesOfAll_map (stmts : List Stmt) (frames : Frames) :
    (Stmt.usesOfAll frames stmts).map (fun use => (use.node, use.name)) =
      (Stmt.visitsOfAll stmts).filterMap Visit.reference? := by
  cases stmts with
  | nil => rfl
  | cons s rest =>
      simp only [Stmt.usesOfAll, Stmt.visitsOfAll, List.map_append, List.filterMap_append]
      rw [Stmt.uses_map, Stmt.usesOfAll_map]

end

/-- **Every name in a body is among its uses**, once and in order. -/
theorem FunctionDecl.uses_map (decl : FunctionDecl) :
    decl.uses.map (fun use => (use.node, use.name)) = decl.visits.filterMap Visit.reference? := by
  cases hbody : decl.body with
  | external variadic =>
      simp [FunctionDecl.uses, FunctionDecl.visits, hbody, FunctionBody.block?, Visit.reference?]
  | block b =>
      simp only [FunctionDecl.uses, FunctionDecl.visits, hbody, FunctionBody.block?, Block.toStmt,
        Stmt.uses, List.filterMap_cons, Visit.reference?]
      exact Stmt.usesOfAll_map b.stmts _

/-! ## Names outside of blocks -/

section

variable {script : Script} {ctx : Context} {decl : FunctionDecl} {owner : Option SymbolId}
  {id : SymbolId} {scope : ScopeId}

/-- At the top level, a name is looked up among the items. -/
theorem DeclaredIn.lookupName? (h : DeclaredIn script ctx) (htree : ctx.scopes.Descends)
    (name : String) :
    ctx.lookupName? ScopeTree.root name = ctx.topLevel? script.items name := by
  have hkind : ∀ c, ctx.scopes.kind ScopeTree.root ≠ .classBody c := by
    intro c hc
    cases h.kind.symm.trans hc
  rw [Context.lookupName?_eq htree h.opened, Context.ownName?_of_kind hkind, htree.parent?_root,
    h.names, Option.bind_none, Option.or_none]

/-- From a function, a name is looked up among the parameters, the members of the class, and the
items. -/
theorem Presents.lookupName? (h : Presents ctx decl owner id scope)
    (hdeclared : DeclaredIn script ctx) (htree : ctx.scopes.Descends) (name : String) :
    ctx.lookupName? scope name = (ctx.scopes.lookupLocal? scope name).or
      ((owner.bind fun c => ctx.symbols.member? c name).or (ctx.topLevel? script.items name)) := by
  obtain ⟨outer, houter, hparent, hencloses⟩ := h.around
  have hkind : ∀ c, ctx.scopes.kind scope ≠ .classBody c := by
    intro c hc
    cases h.kind.symm.trans hc
  have hroot := hdeclared.lookupName? htree name
  rw [Context.lookupName?_eq htree h.opened, Context.ownName?_of_kind hkind, hparent,
    Option.bind_some]
  cases owner with
  | none =>
      have hsame : outer = ScopeTree.root := hencloses
      rw [hsame, hroot, Option.bind_none, Option.none_or]
  | some c =>
      have hown : ctx.ownName? outer name = ctx.symbols.member? c name := by
        simp [Context.ownName?, hencloses.1]
      rw [Context.lookupName?_eq htree houter, hown, hencloses.2, Option.bind_some,
        Option.bind_some, hroot]

/-- What the scope of a function binds a name to is the parameter of this name. -/
theorem BindsParameters.parameter? (h : BindsParameters ctx decl owner scope) {name : String}
    {param : Param} (hparam : decl.parameter? name = some param) :
    ∃ a, ctx.bindings.symbol? param.id = some a ∧
      ctx.scopes.lookupLocal? scope name = some a := by
  obtain ⟨a, entry, hsymbol, -, -, hlookup⟩ := h.params param (List.mem_of_find?_eq_some hparam)
  have hname : param.name.name = name := by simpa using List.find?_some hparam
  exact ⟨a, hsymbol, hname ▸ hlookup⟩

/-- No parameter of a name: then the scope of a function has at most the receiver for it. -/
theorem BindsParameters.receiver_of_none (h : BindsParameters ctx decl owner scope) {name : String}
    (hparam : decl.parameter? name = none) {a : SymbolId}
    (hlookup : ctx.scopes.lookupLocal? scope name = some a) :
    name = selfName ∧ ∃ c, owner = some c ∧ ctx.symbols.Receiver c a := by
  rcases h.names name a hlookup with ⟨param, hmem, hname⟩ | hreceiver
  · have hne := List.find?_eq_none.1 hparam param hmem
    exact absurd (beq_iff_eq.2 hname) hne
  · exact hreceiver

/-- **What a use is bound to is what it denotes.** -/
theorem NameUse.IsFound.denotes {use : NameUse} (h : use.IsFound ctx (ctx.lookupName? scope))
    (hscope : ctx.bindings.scope? decl.id = some scope)
    (hpresents : Presents ctx decl owner id scope)
    (hdeclared : DeclaredIn script ctx) (htree : ctx.scopes.Descends)
    (hacyclic : ctx.symbols.Acyclic) :
    ∃ s, ctx.bindings.symbol? use.node = some s ∧ Denotes ctx script.items owner decl use s := by
  obtain ⟨s, hs, hlookup⟩ := h
  refine ⟨s, hs, ?_⟩
  unfold Frames.lookup? at hlookup
  cases hfind : use.frames.find? use.name with
  | some node =>
      rw [hfind] at hlookup
      exact .variableOf hfind hlookup
  | none =>
      simp only [hfind] at hlookup
      rw [hpresents.lookupName? hdeclared htree] at hlookup
      cases hparam : decl.parameter? use.name with
      | some param =>
          obtain ⟨a, hsymbol, hlocal⟩ := hpresents.binds.parameter? hparam
          rw [hlocal, Option.some_or] at hlookup
          exact .parameter hfind hparam (hsymbol.trans hlookup)
      | none =>
          cases hlocal : ctx.scopes.lookupLocal? scope use.name with
          | some a =>
              rw [hlocal, Option.some_or] at hlookup
              cases hlookup
              obtain ⟨hself, c, howner, hreceiver⟩ := hpresents.binds.receiver_of_none hparam hlocal
              exact .receiver hfind hparam howner hself ⟨scope, hscope, hself ▸ hlocal, hreceiver⟩
          | none =>
              rw [hlocal, Option.none_or] at hlookup
              -- in a class, `self` is bound, so that the name is another one
              have hself : ∀ c, owner = some c → use.name ≠ selfName := by
                intro c hc heq
                obtain ⟨a, ha, -⟩ := hpresents.binds.receiver c hc
                rw [heq, ha] at hlocal
                cases hlocal
              cases hmember : owner.bind fun c => ctx.symbols.member? c use.name with
              | some m =>
                  rw [hmember, Option.some_or] at hlookup
                  cases hlookup
                  obtain ⟨c, howner, hm⟩ := Option.bind_eq_some_iff.1 hmember
                  exact .member hfind hparam howner (hself c howner)
                    ((SymbolTable.member?_eq_some_iff hacyclic).1 hm)
              | none =>
                  rw [hmember, Option.none_or] at hlookup
                  refine .topLevel hfind hparam (fun c howner =>
                    ⟨hself c howner, fun m hm => ?_⟩) hlookup
                  rw [howner, Option.bind_some, (SymbolTable.member?_eq_some_iff hacyclic).2
                    hm] at hmember
                  cases hmember

end

/-- A function of an item belongs to the class that the item is. -/
theorem Item.Holds.owner? {P : FunctionDecl → Option SymbolId → SymbolId → Prop} {ctx : Context}
    {item : Item} {id : SymbolId} (h : item.Holds P ctx id) {decl : FunctionDecl}
    (hdecl : decl ∈ item.functions) : ∃ g, P decl (item.owner? ctx) g := by
  cases item with
  | function f =>
      rw [List.mem_singleton.1 hdecl]
      exact ⟨id, h.2.1⟩
  | structDecl s => cases hdecl
  | classDecl c =>
      obtain ⟨hsymbol, -, _, -, -, -, hfunctions⟩ := h
      obtain ⟨g, -, hg⟩ := hfunctions decl hdecl
      have howner : (Item.classDecl c).owner? ctx = some id := hsymbol
      exact ⟨g, howner ▸ hg⟩

/-- **Each use of a name in a script is bound to what it denotes.** -/
theorem Script.uses_denote {script : Script} (hproper : script.Proper)
    (hclean : script.resolvedContext.Clean) : DeclaredIn script script.resolvedContext ∧
      ∀ item ∈ script.items, ∀ decl ∈ item.functions, ∀ use ∈ decl.uses,
        ∃ s, script.resolvedContext.bindings.symbol? use.node = some s ∧
          Denotes script.resolvedContext script.items
            (item.owner? script.resolvedContext) decl use s := by
  have hanalysed := script.analysed hproper hclean
  have hfunctions : ∀ decl ∈ script.items.flatMap Item.functions, decl.Proper :=
    fun decl hdecl => script.proper_functions hproper hdecl
  have hnodup := Script.functions_nodup hproper
  have hbodies := (FunctionDecl.does_resolveBodies _ hfunctions hnodup).and
    (FunctionDecl.does_bindAllUses _ hfunctions hnodup)
  obtain ⟨hbefore, hresolve⟩ :=
    script.does_resolve_bodies hproper hbodies script.declaredContext _ _ rfl hclean
  obtain ⟨-, houtline⟩ := script.does_declare hproper .initial _ _ rfl hbefore
  obtain ⟨ctx₁, count, hsettled, -, hdeclared, hsound, hbinds⟩ := hresolve (houtline rfl)
  have hprepared : ∀ decl ∈ script.items.flatMap Item.functions,
      ∃ owner id, IsPrepared ctx₁ decl owner id := by
    intro decl hdecl
    obtain ⟨item, hitem, hof⟩ := List.mem_flatMap.1 hdecl
    obtain ⟨id, hfilled⟩ := hsettled.filled item hitem
    exact hfilled.function hof
  obtain ⟨-, -, hadvances, -⟩ := hsound hsettled.ok hsettled.resolved hprepared
  have huses := hbinds hsettled.ok hsettled.resolved hsettled.acyclic hprepared
  refine ⟨hdeclared, fun item hitem decl hdecl use huse => ?_⟩
  obtain ⟨id, hframed, -⟩ := hdeclared.items item hitem
  obtain ⟨g, -, scope, hscope, hpresents⟩ := hframed.owner? hdecl
  have hnode := Script.head_not_mem_bodyNodes hproper hitem hdecl (List.mem_cons_self ..)
  have hfound := huses decl (List.mem_flatMap.2 ⟨item, hitem, hdecl⟩) scope
    ((hadvances.confined.scope? _ hnode).symm.trans hscope) use huse
  exact hfound.denotes hscope hpresents hdeclared hanalysed.ok.tree hanalysed.acyclic

/-- **Names are lexically scoped**, in every script that is resolved without a report. -/
theorem resolve_lexicallyScoped {source : String} {script : Script}
    (hparse : parse source = .ok script) (hclean : script.resolvedContext.Clean) :
    LexicallyScoped script script.resolvedContext := by
  obtain ⟨hdeclared, hdenote⟩ := Script.uses_denote (Script.proper_of_parse hparse) hclean
  constructor
  · exact fun item hitem decl hdecl => decl.uses_map
  · intro item hitem decl hdecl use huse
    obtain ⟨s, hs, hdenotes⟩ := hdenote item hitem decl hdecl use huse
    refine ⟨s, hs, fun s' => ⟨fun hdenotes' => hdenotes'.unique hdenotes, ?_⟩⟩
    rintro rfl
    exact hdenotes
  · intro decl hitem
    obtain ⟨id, hframed, hmembers⟩ := hdeclared.items _ hitem
    exact ⟨id, hframed.1, hmembers⟩
  · exact fun decl hitem => hdeclared.parents decl (Script.mem_classes.2 hitem)

/-- A source with names of every kind; variables hide each other in a block and in a branch. -/
def scopedSource : String :=
  "class A { int32 n; int32 m; int32 get() { return n; } } " ++
    "class B extends A \x7b int32 f(int32 k) \x7b int32 n = m + k; " ++
    "\x7b int32 n = n; k = n; \x7d " ++
    "if (k == n) int32 k = get(); return g(k); \x7d \x7d int32 g(int32 n) { return n; }"

/-- The names that are used in it, with the variables among them. -/
theorem scopedSource_evaluated :
    (match parse scopedSource with
      | .ok script => !script.resolvedContext.diagnostics.hasErrors &&
          (script.items.flatMap Item.functions).map (fun decl =>
            decl.uses.map fun use => (use.name, use.frames.find? use.name)) == [[("n", none)],
            [("m", none), ("k", none), ("n", some 13), ("k", none), ("n", some 16), ("k", none),
              ("n", some 13), ("get", none), ("g", none), ("k", none)], [("n", none)]]
      | .error _ => false) = true := by
  decide +kernel

theorem resolve_lexicallyScoped_hiding : ∃ script, parse scopedSource = .ok script ∧
    script.resolvedContext.Clean ∧
    (script.items.flatMap Item.functions).map (fun decl =>
      decl.uses.map fun use => (use.name, use.frames.find? use.name)) = [[("n", none)],
      [("m", none), ("k", none), ("n", some 13), ("k", none), ("n", some 16), ("k", none),
        ("n", some 13), ("get", none), ("g", none), ("k", none)], [("n", none)]] ∧
    LexicallyScoped script script.resolvedContext := by
  have h := scopedSource_evaluated
  split at h
  · next script hparse =>
      simp only [Bool.and_eq_true, Bool.not_eq_true', beq_iff_eq] at h
      exact ⟨script, hparse, h.1, h.2, resolve_lexicallyScoped hparse h.1⟩
  · cases h

end ClassLang
