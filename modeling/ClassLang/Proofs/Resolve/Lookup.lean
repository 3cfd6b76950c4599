import ClassLang.Proofs.Resolve.Declared

/-!
# Names in bodies

Which variables a name can mean at a place is a matter of the tree alone: `Frames` lists the
blocks around the place with the variables declared so far, and `Stmt.uses` walks through a
statement and writes down every use of a name with its frames.  The analysis keeps scopes
instead, which it opens as it goes.  `Reflects` says that a scope and frames give the same
answers; every statement keeps it, and so each use is bound to what its frames say
(`FunctionDecl.does_bindUses`).
-/

namespace ClassLang

open Analysis

/-! ## Frames and uses -/

/-- The blocks around a place, innermost first.  Each has the variables that it declares in
front of the place, newest first: their names, and the nodes of their declarations. -/
abbrev Frames := List (List (String × NodeId))

namespace Frames

/-- The declaration that a name means: the one in the innermost block that has one. -/
def find? (frames : Frames) (name : String) : Option NodeId :=
  frames.findSome? (List.lookup name)

/-- One more variable in the innermost block. -/
def declare (frames : Frames) (name : String) (node : NodeId) : Frames :=
  match frames with
  | [] => [[(name, node)]]
  | frame :: rest => ((name, node) :: frame) :: rest

/-- The nodes of the declarations. -/
def nodes (frames : Frames) : List NodeId := frames.flatMap fun frame => frame.map Prod.snd

/-- A block without variables adds no node. -/
theorem nodes_nil_cons (frames : Frames) : nodes ([] :: frames) = frames.nodes := rfl

/-- The new variable hides what its name meant. -/
theorem find?_declare (frames : Frames) (name : String) (node : NodeId) (other : String) :
    (frames.declare name node).find? other =
      if other = name then some node else frames.find? other := by
  by_cases h : other = name
  · subst h
    cases frames <;> simp [declare, find?]
  · have hne : (other == name) = false := by simpa using h
    cases frames <;> simp [declare, find?, List.findSome?_cons, List.lookup_cons, h, hne]

/-- A declaration adds its own node only. -/
theorem mem_nodes_declare {frames : Frames} {name : String} {node n : NodeId}
    (h : n ∈ (frames.declare name node).nodes) : n = node ∨ n ∈ frames.nodes := by
  cases frames <;> simpa [declare, nodes] using h

/-- What a name means is declared in one of the blocks. -/
theorem mem_nodes_of_find? {frames : Frames} {name : String} {node : NodeId}
    (h : frames.find? name = some node) : node ∈ frames.nodes := by
  obtain ⟨frame, hframe, hlookup⟩ := List.exists_of_findSome?_eq_some h
  obtain ⟨before, after, rfl, -⟩ := List.lookup_eq_some_iff.1 hlookup
  exact List.mem_flatMap.2 ⟨_, hframe, by simp⟩

end Frames

/-- A place where a name is looked up: its node, the name, and the blocks around it. -/
structure NameUse where
  node : NodeId
  name : String
  frames : Frames

/-- The name that an expression is looked up by: it is a name itself, or a call without a
receiver. -/
def Expr.reference? : Expr → Option String
  | .name _ ident => some ident.name
  | .call _ callee _ _ => some callee.name
  | .literal _ _ _ | .binary _ _ _ _ _ | .assign _ _ _ _ | .methodCall _ _ _ _ _
  | .member _ _ _ _ => none

/-- The uses of names in an expression. -/
def Expr.uses (frames : Frames) (e : Expr) : List NameUse :=
  e.subexprs.filterMap fun sub => sub.reference?.map fun name => ⟨sub.id, name, frames⟩

/-- The uses of names in an expression that may be missing. -/
def Expr.usesOfOption (frames : Frames) : Option Expr → List NameUse
  | some e => e.uses frames
  | none => []

namespace Stmt

/-- The blocks behind a statement: a variable is declared when its initial value has been
read. -/
def declare (frames : Frames) : Stmt → Frames
  | .varDecl id _ name _ _ => frames.declare name.name id
  | .block _ _ _ | .ifThen _ _ _ | .ifElse _ _ _ _ | .ret _ _ | .expr _ _ => frames

/-- The blocks around what a branch begins with: a branch without braces is a block of its
own. -/
def branchFrames (branch : Stmt) (frames : Frames) : Frames :=
  if branch.isBlock then frames else [] :: frames

mutual

/-- The uses of names in a statement. -/
def uses (frames : Frames) : Stmt → List NameUse
  | .block _ stmts _ => usesOfAll ([] :: frames) stmts
  | .varDecl _ _ _ value _ => Expr.usesOfOption frames value
  | .ifThen condition positive _ =>
    condition.uses frames ++ positive.uses (positive.branchFrames frames)
  | .ifElse condition positive negative _ =>
    condition.uses frames ++ (positive.uses (positive.branchFrames frames) ++
      negative.uses (negative.branchFrames frames))
  | .ret value _ => Expr.usesOfOption frames value
  | .expr e _ => e.uses frames

/-- The uses of names in statements, one after the other. -/
def usesOfAll (frames : Frames) : List Stmt → List NameUse
  | [] => []
  | s :: rest => s.uses frames ++ usesOfAll (s.declare frames) rest

end

end Stmt

/-- The uses of names in the body of a function. -/
def FunctionDecl.uses (decl : FunctionDecl) : List NameUse :=
  match decl.body.block? with
  | some block => block.toStmt.uses []
  | none => []

/-! ## Expressions -/

/-- The expressions that are looked up by a name are bound to what the scope has for it. -/
structure Looks (scope : ScopeId) (nodes : List NodeId) (es : List Expr) (ctx ctx' : Context) :
    Prop where
  rebinds : Rebinds nodes ctx ctx'
  bound : ∀ view, ctx.Ready scope view → ∀ e ∈ es, ∀ name, e.reference? = some name →
    ∃ s, ctx'.bindings.symbol? e.id = some s ∧ ctx.lookupName? scope name = some s

namespace Looks

variable {scope : ScopeId} {nodes nodes' : List NodeId} {es es' : List Expr} {e : Expr}
  {ctx ctx₁ ctx' : Context}

/-- Where there is no expression, no name has to be looked up. -/
theorem of_rebinds (h : Rebinds nodes ctx ctx') : Looks scope nodes [] ctx ctx' :=
  ⟨h, by simp⟩

/-- What is looked up may be stated of more nodes. -/
theorem mono (h : Looks scope nodes es ctx ctx') (hnodes : nodes ⊆ nodes') :
    Looks scope nodes' es ctx ctx' :=
  ⟨h.rebinds.mono hnodes, h.bound⟩

/-- The order does not matter. -/
theorem perm (h : Looks scope nodes es ctx ctx') (hes : es' ⊆ es) :
    Looks scope nodes es' ctx ctx' :=
  ⟨h.rebinds, fun view hready e he => h.bound view hready e (hes he)⟩

/-- Expressions one after the other. -/
theorem append (h : Looks scope nodes es ctx ctx₁) (h' : Looks scope nodes' es' ctx₁ ctx')
    (hapart : ∀ e ∈ es, e.id ∉ nodes') : Looks scope (nodes ++ nodes') (es ++ es') ctx ctx' where
  rebinds := (h.rebinds.mono (List.subset_append_left _ _)).trans
    (h'.rebinds.mono (List.subset_append_right _ _))
  bound view hready e he name hname := by
    rcases List.mem_append.1 he with he | he
    · obtain ⟨s, hs, hlookup⟩ := h.bound view hready e he name hname
      exact ⟨s, (h'.rebinds.symbol? _ (hapart e he)).trans hs, hlookup⟩
    · obtain ⟨s, hs, hlookup⟩ := h'.bound view (h.rebinds.ready hready) e he name hname
      refine ⟨s, hs, ?_⟩
      simpa only [Context.lookupName?, h.rebinds.symbols, h.rebinds.scopes] using hlookup

/-- An expression that is not looked up. -/
theorem insert (h : Looks scope nodes es ctx ctx') (he : e.reference? = none) :
    Looks scope nodes (e :: es) ctx ctx' where
  rebinds := h.rebinds
  bound view hready sub hsub name hname := by
    rcases List.mem_cons.1 hsub with rfl | hsub
    · rw [he] at hname
      cases hname
    · exact h.bound view hready sub hsub name hname

/-- The type that a node gets in the end. -/
theorem bindType (h : Looks scope nodes es ctx ctx') {id : NodeId} (hid : id ∈ nodes) (ty : Ty) :
    Looks scope nodes es ctx { ctx' with bindings := ctx'.bindings.bindType id ty } where
  rebinds := h.rebinds.trans ((Rebinds.bindType id ty ctx').mono (by simpa using hid))
  bound := h.bound

/-- An expression that is not looked up gets its type when its parts are resolved. -/
theorem around (h : Looks scope nodes es ctx ctx') (he : e.reference? = none) (ty : Ty) :
    Looks scope (e.id :: nodes) (e :: es) ctx
      { ctx' with bindings := ctx'.bindings.bindType e.id ty } := by
  have hall : Looks scope (e.id :: nodes) (e :: es) ctx ctx' :=
    (h.mono (List.subset_cons_self ..)).insert he
  exact hall.bindType (List.mem_cons_self ..) ty

/-- An expression that is bound to what is found for its name. -/
theorem bindSymbol {id : NodeId} {s : SymbolId} (hid : e.id = id)
    (hlookup : ∀ name, e.reference? = some name → ctx.lookupName? scope name = some s) :
    Looks scope [id] [e] ctx { ctx with bindings := ctx.bindings.bindSymbol id s } where
  rebinds := .bindSymbol id s ctx
  bound view hready sub hsub name hname := by
    rw [List.mem_singleton.1 hsub] at hname ⊢
    exact ⟨s, by simp [Bindings.symbol?_bindSymbol, hid], hlookup name hname⟩

end Looks

/-- Every expression inside another one has a node of it. -/
theorem Expr.id_mem_nodes_of_subexprs {e sub : Expr} (h : sub ∈ e.subexprs) : sub.id ∈ e.nodes :=
  List.mem_map_of_mem h

/-- Two expressions in a row, in any order of their parts. -/
theorem Looks.pair {scope : ScopeId} {left right : Expr} {ctx ctx₁ ctx' : Context}
    (h : Looks scope left.nodes left.subexprs ctx ctx₁)
    (h' : Looks scope right.nodes right.subexprs ctx₁ ctx')
    (hapart : ∀ n ∈ left.nodes, n ∉ right.nodes) :
    Looks scope (left.nodes ++ right.nodes) (left.subexprs ++ right.subexprs) ctx ctx' :=
  h.append h' fun _ hsub => hapart _ (Expr.id_mem_nodes_of_subexprs hsub)

/-- A call: its node is bound to its target, and then its arguments are resolved. -/
theorem does_resolveCallee {scope : ScopeId} {e : Expr} {callee : Ident} {id : NodeId}
    {target : Option SymbolId} {args : List Expr} {span : Span} (he : e.id = id)
    (hid : id ∉ Expr.nodesOfAll args)
    (hargs : ∀ params, Does (Expr.resolveArguments scope params args) fun ctx _ ctx' =>
      Looks scope (Expr.nodesOfAll args) (Expr.subexprsOfAll args) ctx ctx')
    (hall : Does (Expr.resolveAll scope args) fun ctx _ ctx' =>
      Looks scope (Expr.nodesOfAll args) (Expr.subexprsOfAll args) ctx ctx') :
    Does (do
      match ← callee.resolveCall id target args.length span with
      | some (params, result) => Expr.resolveArguments scope params args; return result
      | none => Expr.resolveAll scope args; return Ty.error)
      fun ctx _ ctx' => (∀ name, e.reference? = some name → ctx.lookupName? scope name = target) →
        Looks scope (id :: Expr.nodesOfAll args) (e :: Expr.subexprsOfAll args) ctx ctx' := by
  refine ((does_resolveCall callee id target args.length span).bind (S := fun _ ctx _ ctx' =>
    Looks scope (Expr.nodesOfAll args) (Expr.subexprsOfAll args) ctx ctx') fun found => ?_).mono ?_
  · cases found with
    | none =>
        refine (hall.bind fun _ => does_pure Ty.error).mono ?_
        rintro ctx ty ctx' ⟨_, _, h, -, rfl⟩
        exact h
    | some found =>
        refine ((hargs found.1).bind fun _ => does_pure found.2).mono ?_
        rintro ctx ty ctx' ⟨_, _, h, -, rfl⟩
        exact h
  · rintro ctx ty ctx' ⟨found, ctx₁, ⟨function, entry, rfl, -, -, -, -, rfl⟩, h⟩ hlookup
    have hfirst : Looks scope [id] [e] ctx
        { ctx with bindings := ctx.bindings.bindSymbol id function } := .bindSymbol he hlookup
    apply hfirst.append h
    intro sub hsub
    rw [List.mem_singleton.1 hsub, he]
    exact hid

/-! ### One kind of expression at a time -/

/-- Whatever type is expected, the names in an expression are looked up in its scope. -/
def Expr.DoesLook (scope : ScopeId) (e : Expr) : Prop :=
  ∀ expected, Does (e.resolve scope expected) fun ctx _ ctx' =>
    Looks scope e.nodes e.subexprs ctx ctx'

namespace Expr.DoesLook

variable {scope : ScopeId}

/-- A name is bound to what the scope has for it. -/
theorem name (id : NodeId) (ident : Ident) : DoesLook scope (.name id ident) := by
  intro expected
  refine (does_typed (does_resolveValue ident id scope)).mono ?_
  rintro ctx ty ctx' ⟨ctx₁, ⟨rfl, rfl, symbol, hname, hnone⟩ | ⟨symbol, hname, -, rfl, rfl⟩, rfl⟩
  · -- nothing is found that is no symbol
    refine ⟨.bindType id _ _, fun view hready => ?_⟩
    obtain ⟨s, hs⟩ := hready.get?_of_lookupName? hname
    simp [hnone] at hs
  · have hbound : Looks scope [id] [.name id ident] ctx
        { ctx with bindings := ctx.bindings.bindSymbol id symbol } := by
      refine .bindSymbol rfl fun name hsame => ?_
      cases hsame
      exact hname
    exact hbound.bindType (List.mem_singleton_self id) _

/-- The sides of an operator are resolved in the order that its literals ask for. -/
theorem binary {id : NodeId} {op : BinaryOp} {left right : Expr} {span : Span}
    (hnodes : (Expr.binary id op left right span).nodes.Nodup) (hleft : left.DoesLook scope)
    (hright : right.DoesLook scope) : DoesLook scope (.binary id op left right span) := by
  intro expected
  rw [Expr.nodes_binary, List.nodup_cons, List.nodup_append] at hnodes
  obtain ⟨-, hl, hr, hdisjoint⟩ := hnodes
  have hend : ∀ {ctx ctx' : Context} (ty : Ty),
      Looks scope (left.nodes ++ right.nodes) (left.subexprs ++ right.subexprs) ctx ctx' →
      Looks scope (Expr.binary id op left right span).nodes
        (Expr.binary id op left right span).subexprs ctx
        { ctx' with bindings := ctx'.bindings.bindType id ty } := by
    intro ctx ctx' ty h
    rw [Expr.nodes_binary, Expr.subexprs]
    exact h.around (e := .binary id op left right span) rfl ty
  simp only [Expr.resolve]
  split
  · refine (does_typed ((hright _).bind fun rightType => (hleft _).bind fun leftType =>
      (does_pure _).bind fun (pair : Ty × Ty) =>
        does_operator op pair.1 pair.2 _ _ span)).mono ?_
    rintro ctx ty ctx' ⟨_, ⟨_, ctx₁, h₁, _, ctx₂, h₂, _, _, ⟨rfl, rfl⟩, rfl, -⟩, rfl⟩
    have hboth := h₁.pair h₂ fun n hn hn' => hdisjoint n hn' n hn rfl
    exact hend ty ((hboth.mono (by simp)).perm (by simp))
  · refine (does_typed ((hleft _).bind fun leftType => (hright _).bind fun rightType =>
      (does_pure _).bind fun (pair : Ty × Ty) =>
        does_operator op pair.1 pair.2 _ _ span)).mono ?_
    rintro ctx ty ctx' ⟨_, ⟨_, ctx₁, h₁, _, ctx₂, h₂, _, _, ⟨rfl, rfl⟩, rfl, -⟩, rfl⟩
    exact hend ty (h₁.pair h₂ fun n hn hn' => hdisjoint n hn n hn' rfl)

/-- An assignment resolves its target, and then its value. -/
theorem assign {id : NodeId} {target value : Expr} {span : Span}
    (hnodes : (Expr.assign id target value span).nodes.Nodup) (htarget : target.DoesLook scope)
    (hvalue : value.DoesLook scope) : DoesLook scope (.assign id target value span) := by
  intro expected
  rw [Expr.nodes_assign, List.nodup_cons, List.nodup_append] at hnodes
  obtain ⟨-, ht, hv, hdisjoint⟩ := hnodes
  simp only [Expr.resolve]
  refine (does_typed ((htarget none).bind fun targetType =>
    (does_checkTarget target targetType).bind fun _ =>
    (hvalue (some targetType)).bind fun valueType =>
    (does_checkAssignable valueType targetType _).bind fun _ => does_pure Ty.void)).mono ?_
  rintro ctx ty ctx' ⟨ctx₂, ⟨targetType, ctx₁, h₁, _, _, ⟨rfl, -⟩, valueType, _, h₂, _, _,
    ⟨rfl, -⟩, rfl, rfl⟩, rfl⟩
  have hboth := h₁.pair h₂ fun n hn hn' => hdisjoint n hn n hn' rfl
  rw [Expr.nodes_assign, Expr.subexprs]
  exact hboth.around (e := .assign id target value span) rfl Ty.void

/-- A call without a receiver is bound to what the scope has for its callee. -/
theorem call {id : NodeId} {callee : Ident} {args : List Expr} {span : Span}
    (hid : id ∉ Expr.nodesOfAll args)
    (hargs : ∀ params, Does (Expr.resolveArguments scope params args) fun ctx _ ctx' =>
      Looks scope (Expr.nodesOfAll args) (Expr.subexprsOfAll args) ctx ctx')
    (hall : Does (Expr.resolveAll scope args) fun ctx _ ctx' =>
      Looks scope (Expr.nodesOfAll args) (Expr.subexprsOfAll args) ctx ctx') :
    DoesLook scope (.call id callee args span) := by
  intro expected
  simp only [Expr.resolve]
  refine (does_typed (R := fun ctx _ ctx' => Looks scope (Expr.call id callee args span).nodes
    (Expr.call id callee args span).subexprs ctx ctx') (does_read fun before =>
    (does_resolveCallee (e := .call id callee args span) rfl hid hargs hall).mono ?_)).mono ?_
  · rintro ctx ty ctx' h rfl
    rw [Expr.nodes_call, Expr.subexprs]
    apply h
    intro name hname
    cases hname
    rfl
  · rintro ctx ty ctx' ⟨ctx₁, h, rfl⟩
    exact h.bindType (List.mem_cons_self ..) ty

/-- A method call looks nothing up by itself: its callee is found in the class of the
receiver. -/
theorem methodCall {id : NodeId} {receiver : Expr} {callee : Ident} {args : List Expr} {span : Span}
    (hnodes : (Expr.methodCall id receiver callee args span).nodes.Nodup)
    (hreceiver : receiver.DoesLook scope)
    (hargs : ∀ params, Does (Expr.resolveArguments scope params args) fun ctx _ ctx' =>
      Looks scope (Expr.nodesOfAll args) (Expr.subexprsOfAll args) ctx ctx')
    (hall : Does (Expr.resolveAll scope args) fun ctx _ ctx' =>
      Looks scope (Expr.nodesOfAll args) (Expr.subexprsOfAll args) ctx ctx') :
    DoesLook scope (.methodCall id receiver callee args span) := by
  intro expected
  rw [Expr.nodes_methodCall, List.nodup_cons, List.nodup_append] at hnodes
  obtain ⟨hid, -, -, hdisjoint⟩ := hnodes
  have hid' : id ∉ Expr.nodesOfAll args := fun h => hid (List.mem_append_right _ h)
  have hself : (Expr.methodCall id receiver callee args span).reference? = none := rfl
  simp only [Expr.resolve]
  refine (does_typed ((hreceiver none).bind fun receiverType =>
    (does_resolveMethod callee receiverType).bind (S := fun _ ctx _ ctx' =>
      Looks scope (id :: Expr.nodesOfAll args)
        (.methodCall id receiver callee args span :: Expr.subexprsOfAll args) ctx ctx')
    fun found => ?_)).mono ?_
  · cases found with
    | none =>
        refine (hall.bind fun _ => does_pure Ty.error).mono ?_
        rintro ctx ty ctx' ⟨_, _, h, -, rfl⟩
        exact (h.mono (List.subset_cons_self ..)).insert hself
    | some target =>
        refine (does_resolveCallee (e := .methodCall id receiver callee args span) rfl hid' hargs
          hall).mono ?_
        intro ctx ty ctx' h
        apply h
        intro name hname
        cases hname
  · rintro ctx ty ctx' ⟨ctx₂, ⟨receiverType, ctx₁, h₁, found, _, ⟨rfl, -⟩, h₂⟩, rfl⟩
    have hboth := h₁.append h₂ fun sub hsub hmem => by
      have hsub' := Expr.id_mem_nodes_of_subexprs hsub
      rcases List.mem_cons.1 hmem with heq | hmem
      · exact hid (List.mem_append_left _ (heq ▸ hsub'))
      · exact hdisjoint _ hsub' _ hmem rfl
    have hsame : Looks scope (Expr.methodCall id receiver callee args span).nodes
        (Expr.methodCall id receiver callee args span).subexprs ctx ctx₂ :=
      (hboth.mono (by simp)).perm (by simp [Expr.subexprs])
    exact hsame.bindType (by simp) ty

/-- A member is found in the record of its object, and not in the scope. -/
theorem member {id : NodeId} {object : Expr} {ident : Ident} {span : Span}
    (hid : id ∉ object.nodes) (hobject : object.DoesLook scope) :
    DoesLook scope (.member id object ident span) := by
  intro expected
  simp only [Expr.resolve]
  refine (does_typed ((hobject none).bind fun objectType =>
    does_resolveMember ident id objectType object.isPlace object.span span)).mono ?_
  rintro ctx ty ctx' ⟨_, ⟨objectType, ctx₁, h, hmember⟩, rfl⟩
  rw [Expr.nodes_member, Expr.subexprs]
  have hself : (Expr.member id object ident span).reference? = none := rfl
  rcases hmember with ⟨-, rfl⟩ | ⟨-, record, field, entry, -, -, -, rfl⟩
  · exact h.around hself ty
  · have hlast : Looks scope [id] [] ctx₁
        { ctx₁ with bindings := ctx₁.bindings.bindSymbol id field } :=
      .of_rebinds (.bindSymbol id field ctx₁)
    have hboth := h.append hlast fun sub hsub hmem =>
      hid (List.mem_singleton.1 hmem ▸ Expr.id_mem_nodes_of_subexprs hsub)
    have hall : Looks scope (id :: object.nodes)
        (.member id object ident span :: object.subexprs) ctx
        { ctx₁ with bindings := ctx₁.bindings.bindSymbol id field } :=
      ((hboth.mono (by simp)).perm (by simp)).insert hself
    exact hall.bindType (List.mem_cons_self ..) ty

end Expr.DoesLook

mutual

/-- **Names in an expression are looked up in its scope.** -/
theorem Expr.does_look (scope : ScopeId) (e : Expr) (hnodes : e.nodes.Nodup) :
    e.DoesLook scope := by
  cases e with
  | literal id value span =>
      intro expected
      refine (does_resolve_literal scope id value span expected).mono ?_
      intro ctx ty ctx' h
      exact (Looks.of_rebinds h.1).insert rfl
  | name id ident => exact .name id ident
  | binary id op left right span =>
      obtain ⟨hl, hr, -⟩ := List.nodup_append.1
        (List.nodup_cons.1 (Expr.nodes_binary .. ▸ hnodes)).2
      exact .binary hnodes (Expr.does_look scope left hl) (Expr.does_look scope right hr)
  | assign id target value span =>
      obtain ⟨ht, hv, -⟩ := List.nodup_append.1
        (List.nodup_cons.1 (Expr.nodes_assign .. ▸ hnodes)).2
      exact .assign hnodes (Expr.does_look scope target ht) (Expr.does_look scope value hv)
  | call id callee args span =>
      obtain ⟨hid, hargs⟩ := List.nodup_cons.1 (Expr.nodes_call .. ▸ hnodes)
      exact .call hid (fun params => Expr.does_lookArguments scope params args hargs)
        (Expr.does_lookAll scope args hargs)
  | methodCall id receiver callee args span =>
      obtain ⟨hr, hargs, -⟩ :=
        List.nodup_append.1 (List.nodup_cons.1 (Expr.nodes_methodCall .. ▸ hnodes)).2
      exact .methodCall hnodes (Expr.does_look scope receiver hr)
        (fun params => Expr.does_lookArguments scope params args hargs)
        (Expr.does_lookAll scope args hargs)
  | member id object ident span =>
      obtain ⟨hid, hobject⟩ := List.nodup_cons.1 (Expr.nodes_member .. ▸ hnodes)
      exact .member hid (Expr.does_look scope object hobject)

/-- The names in arguments of an unknown function are looked up. -/
theorem Expr.does_lookAll (scope : ScopeId) (args : List Expr)
    (hnodes : (Expr.nodesOfAll args).Nodup) :
    Does (Expr.resolveAll scope args) fun ctx _ ctx' =>
      Looks scope (Expr.nodesOfAll args) (Expr.subexprsOfAll args) ctx ctx' := by
  cases args with
  | nil =>
      simp only [Expr.resolveAll]
      refine (does_pure ()).mono ?_
      rintro ctx _ ctx' ⟨_, rfl⟩
      exact .of_rebinds (.refl _ _)
  | cons arg rest =>
      rw [Expr.nodesOfAll_cons, List.nodup_append] at hnodes
      simp only [Expr.resolveAll]
      refine ((Expr.does_look scope arg hnodes.1 none).bind fun _ =>
        Expr.does_lookAll scope rest hnodes.2.1).mono ?_
      rintro ctx _ ctx' ⟨_, ctx₁, h₁, h₂⟩
      rw [Expr.nodesOfAll_cons, Expr.subexprsOfAll]
      exact h₁.append h₂ fun sub hsub hmem =>
        hnodes.2.2 _ (Expr.id_mem_nodes_of_subexprs hsub) _ hmem rfl

/-- The names in arguments are looked up, whatever types the parameters have. -/
theorem Expr.does_lookArguments (scope : ScopeId) (params : List Ty) (args : List Expr)
    (hnodes : (Expr.nodesOfAll args).Nodup) :
    Does (Expr.resolveArguments scope params args) fun ctx _ ctx' =>
      Looks scope (Expr.nodesOfAll args) (Expr.subexprsOfAll args) ctx ctx' := by
  cases args with
  | nil =>
      simp only [Expr.resolveArguments]
      refine (does_pure ()).mono ?_
      rintro ctx _ ctx' ⟨_, rfl⟩
      exact .of_rebinds (.refl _ _)
  | cons arg rest =>
      rw [Expr.nodesOfAll_cons, List.nodup_append] at hnodes
      have hrest := fun params => Expr.does_lookArguments scope params rest hnodes.2.1
      have hapart : ∀ sub ∈ arg.subexprs, sub.id ∉ Expr.nodesOfAll rest := fun sub hsub hmem =>
        hnodes.2.2 _ (Expr.id_mem_nodes_of_subexprs hsub) _ hmem rfl
      rw [Expr.nodesOfAll_cons, Expr.subexprsOfAll]
      cases params with
      | nil =>
          simp only [Expr.resolveArguments]
          refine ((Expr.does_look scope arg hnodes.1 none).bind (S := fun _ ctx _ ctx' =>
            Looks scope (Expr.nodesOfAll rest) (Expr.subexprsOfAll rest) ctx ctx')
            fun actual => ?_).mono ?_
          · split
            · exact (does_mismatch _ _).bind_never fun _ => hrest []
            · exact hrest []
          · rintro ctx _ ctx' ⟨_, ctx₁, h₁, h₂⟩
            exact h₁.append h₂ hapart
      | cons param params =>
          simp only [Expr.resolveArguments]
          refine ((Expr.does_look scope arg hnodes.1 (some param)).bind fun actual =>
            (does_checkAssignable actual param arg.span).bind fun _ => hrest params).mono ?_
          rintro ctx _ ctx' ⟨_, ctx₁, h₁, _, _, ⟨rfl, -⟩, h₂⟩
          exact h₁.append h₂ hapart

end

/-! ## Scopes and frames -/

namespace SymbolTable

variable {t t' : SymbolTable}

/-- Members stay, where classes and the names in them do. -/
theorem AddsStorage.ownMember? (h : t.AddsStorage t') (hok : t.Ok) (id : SymbolId) (name : String) :
    t'.ownMember? id name = t.ownMember? id name := by
  cases hentry : t.class? id with
  | none => simp [SymbolTable.ownMember?, h.class?, hentry]
  | some e =>
      exact h.extend.later.ownMember? (fun _ => hok.member_lt_size hentry) hentry
        ((h.class? id).trans hentry) rfl rfl name

/-- The nearest member depends on the members and the parents of classes only. -/
theorem NearestMember.congr {name : String} {id member : SymbolId}
    (h : t.NearestMember name id member) (hown : ∀ id, t'.ownMember? id name = t.ownMember? id name)
    (hparent : ∀ id, t'.parent? id = t.parent? id) : t'.NearestMember name id member := by
  induction h with
  | own h => exact .own ((hown _).trans h)
  | inherited h hp _ ih => exact .inherited ((hown _).trans h) ((hparent _).trans hp) ih

/-- Added storage changes no member. -/
theorem AddsStorage.member? (h : t.AddsStorage t') (hok : t.Ok) (hacyclic : t.Acyclic)
    (id : SymbolId) (name : String) : t'.member? id name = t.member? id name := by
  ext member
  rw [member?_eq_some_iff hacyclic, member?_eq_some_iff (hacyclic.congr h.parent?)]
  constructor
  · exact fun hnearest => hnearest.congr (fun id => (h.ownMember? hok id name).symm)
      fun id => (h.parent? id).symm
  · exact fun hnearest => hnearest.congr (fun id => h.ownMember? hok id name) h.parent?

end SymbolTable

/-- What a scope itself has for a name. -/
def Context.ownName? (ctx : Context) (scope : ScopeId) (name : String) : Option SymbolId :=
  match ctx.scopes.kind scope with
  | .classBody id => ctx.symbols.member? id name
  | _ => ctx.scopes.lookupLocal? scope name

/-- Outside a class, a scope itself binds what its own list binds. -/
theorem Context.ownName?_of_kind {ctx : Context} {scope : ScopeId}
    (hkind : ∀ c, ctx.scopes.kind scope ≠ .classBody c) (name : String) :
    ctx.ownName? scope name = ctx.scopes.lookupLocal? scope name := by
  unfold Context.ownName?
  split
  · next c hc => exact absurd hc (hkind c)
  · rfl

/-- A name is looked up in a scope, and then in the one around it. -/
theorem Context.lookupName?_eq {ctx : Context} (htree : ctx.scopes.Descends) {scope : ScopeId}
    (hscope : scope < ctx.scopes.size) (name : String) :
    ctx.lookupName? scope name = (ctx.ownName? scope name).or
      ((ctx.scopes.parent? scope).bind fun parent => ctx.lookupName? parent name) := by
  have hchain : ctx.lookupName? scope name =
      (ctx.scopes.chain scope).findSome? fun s => ctx.ownName? s name := rfl
  rw [hchain, ScopeTree.chain_eq htree hscope, List.findSome?_cons]
  cases ctx.ownName? scope name with
  | some s => rfl
  | none => cases ctx.scopes.parent? scope <;> rfl

/-- The first answer of a search depends on the answers only. -/
theorem List.findSome?_congr {α β : Type} {l : List α} {f g : α → Option β}
    (h : ∀ a ∈ l, f a = g a) : l.findSome? f = l.findSome? g := by
  induction l with
  | nil => rfl
  | cons a rest ih =>
      rw [List.findSome?_cons, List.findSome?_cons, h a (List.mem_cons_self ..),
        ih fun b hb => h b (List.mem_cons_of_mem a hb)]

section

variable {ctx ctx' : Context} {scope : ScopeId} {view : View} {nodes : List NodeId}
  {touched : List ScopeId} {frames : Frames} {found : String → Option SymbolId} {use : NameUse}

/-- A name keeps its meaning, where only scopes further inside are touched. -/
theorem Context.lookupName?_advances (hok : ctx.Ok) (hacyclic : ctx.symbols.Acyclic)
    (hscope : scope < ctx.scopes.size) (hadvances : Advances nodes touched ctx ctx')
    (hapart : ∀ s ∈ touched, scope < s) (name : String) :
    ctx'.lookupName? scope name = ctx.lookupName? scope name := by
  unfold Context.lookupName?
  rw [Context.chain_confined hok.tree hscope hadvances.confined]
  apply List.findSome?_congr
  intro s hs
  have hle := ScopeTree.le_of_mem_chain hok.tree hs
  have hlt := Nat.lt_of_le_of_lt hle hscope
  have hnot : s ∉ touched := fun hmem => Nat.not_lt.2 hle (hapart s hmem)
  rw [hadvances.confined.kind s hlt, hadvances.confined.lookupLocal? hlt hnot]
  cases ctx.scopes.kind s with
  | classBody c => exact hadvances.storage.member? hok.table hacyclic c name
  | _ => rfl

/-- What a name stands for, by the frames around it and by what is found outside of them. -/
def Frames.lookup? (frames : Frames) (ctx : Context) (found : String → Option SymbolId)
    (name : String) : Option SymbolId :=
  match frames.find? name with
  | some node => ctx.bindings.symbol? node
  | none => found name

/-- Frames find a name alike where their nodes have the same symbols. -/
theorem Frames.lookup?_congr
    (h : ∀ n ∈ frames.nodes, ctx'.bindings.symbol? n = ctx.bindings.symbol? n) (name : String) :
    frames.lookup? ctx' found name = frames.lookup? ctx found name := by
  unfold Frames.lookup?
  cases hfind : frames.find? name with
  | none => rfl
  | some node => exact h node (Frames.mem_nodes_of_find? hfind)

/-- The use is bound to what its frames say. -/
def NameUse.IsFound (ctx : Context) (found : String → Option SymbolId) (use : NameUse) : Prop :=
  ∃ s, ctx.bindings.symbol? use.node = some s ∧ use.frames.lookup? ctx found use.name = some s

/-- What a use finds stays, where neither its node nor its frames are touched. -/
theorem NameUse.IsFound.advances (h : use.IsFound ctx found)
    (hadvances : Advances nodes touched ctx ctx') (hnode : use.node ∉ nodes)
    (hframes : ∀ n ∈ use.frames.nodes, n ∉ nodes) : use.IsFound ctx' found := by
  obtain ⟨s, hs, hlookup⟩ := h
  refine ⟨s, (hadvances.confined.symbol? _ hnode).trans hs, ?_⟩
  rw [Frames.lookup?_congr fun n hn => hadvances.confined.symbol? n (hframes n hn)]
  exact hlookup

/-- **From the scope, the same is found as by the frames.**  The scope is not the body of a
class, so that names can be bound in it. -/
structure Reflects (ctx : Context) (scope : ScopeId) (frames : Frames)
    (found : String → Option SymbolId) : Prop where
  acyclic : ctx.symbols.Acyclic
  kind : ∀ c, ctx.scopes.kind scope ≠ .classBody c
  names : ∀ name, ctx.lookupName? scope name = frames.lookup? ctx found name

/-- Scopes go on to reflect the frames, where neither is touched. -/
theorem Reflects.advances (h : Reflects ctx scope frames found) (hready : ctx.Ready scope view)
    (hadvances : Advances nodes touched ctx ctx') (hapart : ∀ s ∈ touched, scope < s)
    (hframes : ∀ n ∈ frames.nodes, n ∉ nodes) : Reflects ctx' scope frames found where
  acyclic := h.acyclic.congr hadvances.storage.parent?
  kind c := by
    rw [hadvances.confined.kind scope hready.sees.opened]
    exact h.kind c
  names name := by
    rw [Context.lookupName?_advances hready.ok h.acyclic hready.sees.opened hadvances hapart,
      h.names, Frames.lookup?_congr fun n hn => hadvances.confined.symbol? n (hframes n hn)]

/-- A scope that was just opened reflects one more block, in which nothing is declared. -/
theorem Reflects.push (h : Reflects ctx scope frames found) (hready : ctx.Ready scope view) :
    Reflects { ctx with scopes := ctx.scopes.push scope .block } ctx.scopes.size ([] :: frames)
      found where
  acyclic := h.acyclic
  kind c := by simp [ScopeTree.kind_push]
  names name := by
    have hopened : ctx.scopes.size < (ctx.scopes.push scope .block).size := by simp
    have htree := hready.ok.tree.push hready.sees.opened .block
    have hadvances : Advances [] [] ctx { ctx with scopes := ctx.scopes.push scope .block } :=
      ⟨.push [] [] scope .block ctx, .refl _⟩
    have hparent := Context.lookupName?_advances hready.ok h.acyclic hready.sees.opened hadvances
      (by simp) name
    have hnone : ({ ctx with scopes := ctx.scopes.push scope .block } : Context).ownName?
        ctx.scopes.size name = none := by
      simp [Context.ownName?, ScopeTree.kind_push, ScopeTree.lookupLocal?_push]
    rw [Context.lookupName?_eq htree hopened, hnone, Option.none_or, ScopeTree.parent?_push,
      if_pos rfl]
    exact hparent.trans (h.names name)

/-- A variable is found by its name from now on. -/
theorem Reflects.declare (h : Reflects ctx scope frames found) (hready : ctx.Ready scope view)
    {id : NodeId} {entry : VariableEntry} (hfree : ctx.scopes.lookupLocal? scope entry.name = none)
    (hid : id ∉ frames.nodes) :
    Reflects (ctx.declareVariable id scope entry) scope (frames.declare entry.name id) found := by
  have hadvances := advances_declareVariable ctx id scope entry
  have hopened := hready.sees.opened
  have hkind : ∀ c, (ctx.declareVariable id scope entry).scopes.kind scope ≠ .classBody c := by
    intro c
    rw [hadvances.confined.kind scope hopened]
    exact h.kind c
  refine ⟨h.acyclic.congr hadvances.storage.parent?, hkind, fun name => ?_⟩
  have hparent : ((ctx.declareVariable id scope entry).scopes.parent? scope).bind
      (fun parent => (ctx.declareVariable id scope entry).lookupName? parent name) =
      (ctx.scopes.parent? scope).bind fun parent => ctx.lookupName? parent name := by
    rw [hadvances.confined.parent? scope hopened]
    cases hparent : ctx.scopes.parent? scope with
    | none => rfl
    | some parent =>
        have hlt := hready.ok.tree scope parent hparent
        exact Context.lookupName?_advances hready.ok h.acyclic (Nat.lt_trans hlt hopened) hadvances
          (by simpa using hlt) name
  have hopened' : scope < (ctx.declareVariable id scope entry).scopes.size :=
    Nat.lt_of_lt_of_le hopened hadvances.confined.size
  have hlocal : (ctx.declareVariable id scope entry).scopes.lookupLocal? scope name =
      if name = entry.name then some ctx.symbols.size else ctx.scopes.lookupLocal? scope name :=
    ScopeTree.lookupLocal?_bind_same ctx.scopes _ hopened hfree name
  rw [Context.lookupName?_eq (hready.ok.tree.bind scope entry.name ctx.symbols.size) hopened',
    hparent, Context.ownName?_of_kind hkind, hlocal, Frames.lookup?, Frames.find?_declare]
  by_cases hname : name = entry.name
  · simp [hname, Context.declareVariable, Bindings.symbol?_bindSymbol]
  · have hsame := Context.lookupName?_eq hready.ok.tree hopened name
    rw [Context.ownName?_of_kind h.kind] at hsame
    rw [if_neg hname, if_neg hname, ← hsame, h.names]
    exact (Frames.lookup?_congr (fun n hn => hadvances.confined.symbol? n fun hmem =>
      hid (List.mem_singleton.1 hmem ▸ hn)) name).symm

end

/-! ## Statements -/

/-- Every use of a name comes from an expression that is looked up by it. -/
theorem NameUse.of_mem_uses {e : Expr} {frames : Frames} {use : NameUse} (h : use ∈ e.uses frames) :
    use.frames = frames ∧ ∃ sub ∈ e.subexprs, use.node = sub.id ∧
      sub.reference? = some use.name := by
  obtain ⟨sub, hsub, huse⟩ := List.mem_filterMap.1 h
  obtain ⟨name, hname, rfl⟩ := Option.map_eq_some_iff.1 huse
  exact ⟨rfl, sub, hsub, rfl, hname⟩

/-- A use is at a node of the tree, and what it can mean is declared around the tree or in it. -/
def NameUse.Within (use : NameUse) (frames : Frames) (nodes : List NodeId) : Prop :=
  use.node ∈ nodes ∧ ∀ n ∈ use.frames.nodes, n ∈ frames.nodes ∨ n ∈ nodes

/-- A use within some nodes is within more nodes. -/
theorem NameUse.Within.mono {use : NameUse} {frames : Frames} {nodes nodes' : List NodeId}
    (h : use.Within frames nodes) (hnodes : nodes ⊆ nodes') : use.Within frames nodes' :=
  ⟨hnodes h.1, fun n hn => (h.2 n hn).imp_right fun hmem => hnodes hmem⟩

/-- Frames around a part, which has some more declarations around it. -/
theorem NameUse.Within.outward {use : NameUse} {frames frames' : Frames} {nodes : List NodeId}
    (h : use.Within frames' nodes) (hframes : ∀ n ∈ frames'.nodes, n ∈ frames.nodes ∨ n ∈ nodes) :
    use.Within frames nodes := by
  refine ⟨h.1, fun n hn => ?_⟩
  rcases h.2 n hn with hmem | hmem
  · exact hframes n hmem
  · exact .inr hmem

/-- The uses in an expression are at its nodes. -/
theorem Expr.uses_within {e : Expr} {frames : Frames} :
    ∀ use ∈ e.uses frames, use.Within frames e.nodes := by
  intro use huse
  obtain ⟨hframes, sub, hsub, hnode, -⟩ := NameUse.of_mem_uses huse
  exact ⟨hnode ▸ Expr.id_mem_nodes_of_subexprs hsub, fun n hn => .inl (hframes ▸ hn)⟩

/-- The same for an expression that may be missing. -/
theorem Expr.usesOfOption_within {e : Option Expr} {frames : Frames} :
    ∀ use ∈ Expr.usesOfOption frames e, use.Within frames (Expr.nodesOfOption e) := by
  cases e with
  | none =>
      intro use huse
      cases huse
  | some e => exact e.uses_within

/-- A branch declares nothing before it begins. -/
theorem Stmt.nodes_branchFrames (s : Stmt) (frames : Frames) :
    (s.branchFrames frames).nodes = frames.nodes := by
  unfold Stmt.branchFrames
  split
  · rfl
  · exact frames.nodes_nil_cons

/-- A branch begins inside the blocks around it. -/
theorem NameUse.Within.branch {use : NameUse} {s : Stmt} {frames : Frames} {nodes : List NodeId}
    (h : use.Within (s.branchFrames frames) nodes) : use.Within frames nodes := by
  rwa [NameUse.Within, Stmt.nodes_branchFrames] at h

/-- A statement declares its own nodes only. -/
theorem Stmt.nodes_declare {s : Stmt} {frames : Frames} :
    ∀ n ∈ (s.declare frames).nodes, n ∈ frames.nodes ∨ n ∈ s.nodes := by
  intro n hn
  cases s with
  | varDecl id ty name value span =>
      rcases Frames.mem_nodes_declare hn with rfl | hn
      · exact .inr (List.mem_cons_self ..)
      · exact .inl hn
  | _ => exact .inl hn

mutual

/-- The uses in a statement are within it. -/
theorem Stmt.uses_within (s : Stmt) (frames : Frames) :
    ∀ use ∈ s.uses frames, use.Within frames s.nodes := by
  intro use huse
  cases s with
  | block id stmts span =>
      have hwithin := Stmt.usesOfAll_within stmts ([] :: frames) use huse
      exact (hwithin.outward fun n hn => .inl hn).mono (List.subset_cons_self ..)
  | varDecl id ty name value span =>
      exact (Expr.usesOfOption_within use huse).mono (List.subset_cons_self ..)
  | ifThen condition positive span =>
      rcases List.mem_append.1 huse with huse | huse
      · exact (condition.uses_within use huse).mono (List.subset_append_left _ _)
      · exact (Stmt.uses_within positive _ use huse).branch.mono (List.subset_append_right _ _)
  | ifElse condition positive negative span =>
      rcases List.mem_append.1 huse with huse | huse
      · exact (condition.uses_within use huse).mono (List.subset_append_left _ _)
      · apply NameUse.Within.mono _ (List.subset_append_right condition.nodes _)
        rcases List.mem_append.1 huse with huse | huse
        · exact (Stmt.uses_within positive _ use huse).branch.mono (List.subset_append_left _ _)
        · exact (Stmt.uses_within negative _ use huse).branch.mono (List.subset_append_right _ _)
  | ret value span => exact Expr.usesOfOption_within use huse
  | expr e span => exact e.uses_within use huse

/-- The uses in statements are at their nodes, or at those around them. -/
theorem Stmt.usesOfAll_within (stmts : List Stmt) (frames : Frames) :
    ∀ use ∈ Stmt.usesOfAll frames stmts, use.Within frames (Stmt.nodesOfAll stmts) := by
  intro use huse
  cases stmts with
  | nil => cases huse
  | cons s rest =>
      rcases List.mem_append.1 huse with huse | huse
      · exact (Stmt.uses_within s frames use huse).mono (List.subset_append_left _ _)
      · have hwithin := Stmt.usesOfAll_within rest _ use huse
        apply (hwithin.mono (List.subset_append_right s.nodes _)).outward
        intro n hn
        exact (Stmt.nodes_declare n hn).imp_right fun hmem => List.mem_append_left _ hmem

end

/-- What there is in front of a part of a body: its scope reflects its frames, and its nodes are
still untouched. -/
structure Begins (ret : Ty) (scope : ScopeId) (frames : Frames) (found : String → Option SymbolId)
    (nodes : List NodeId) (ctx : Context) (view : View) : Prop where
  ready : ctx.Ready scope view
  known : ret.Known ctx.symbols
  unopened : ctx.Unopened nodes
  apart : ∀ n ∈ frames.nodes, n ∉ nodes
  reflects : Reflects ctx scope frames found

/-- What resolving a statement does to names: each use is bound to what its frames say, and the
scope reflects what has been declared. -/
def BindsUses (ret : Ty) (scope : ScopeId) (s : Stmt) (ctx ctx' : Context) : Prop :=
  ∀ view frames found, Begins ret scope frames found s.nodes ctx view →
    Reflects ctx' scope (s.declare frames) found ∧ ∀ use ∈ s.uses frames, use.IsFound ctx' found

/-- What resolving statements in a row does to names. -/
def BindsAllUses (ret : Ty) (scope : ScopeId) (stmts : List Stmt) (ctx ctx' : Context) : Prop :=
  ∀ view frames found, Begins ret scope frames found (Stmt.nodesOfAll stmts) ctx view →
    ∀ use ∈ Stmt.usesOfAll frames stmts, use.IsFound ctx' found

/-- What resolving a branch does to names: it leaves the scope around it as it was. -/
def BranchBindsUses (ret : Ty) (scope : ScopeId) (s : Stmt) (ctx ctx' : Context) : Prop :=
  ∀ view frames found, Begins ret scope frames found s.nodes ctx view →
    Reflects ctx' scope frames found ∧
      ∀ use ∈ s.uses (s.branchFrames frames), use.IsFound ctx' found

section

variable {ret : Ty} {ctx ctx₁ ctx' : Context} {scope : ScopeId} {view view' : View}
  {nodes nodes' : List NodeId} {touched : List ScopeId} {frames frames' : Frames}
  {found : String → Option SymbolId} {e : Expr}

/-- What a part begins with is what the whole begins with. -/
theorem Begins.part (h : Begins ret scope frames found nodes ctx view) (hsubset : nodes' ⊆ nodes) :
    Begins ret scope frames found nodes' ctx view where
  ready := h.ready
  known := h.known
  unopened n hn := h.unopened n (hsubset hn)
  apart n hn hmem := h.apart n hn (hsubset hmem)
  reflects := h.reflects

/-- What follows begins behind what was resolved at other nodes. -/
theorem Begins.next (h : Begins ret scope frames found nodes' ctx view)
    (hadvances : Advances nodes touched ctx ctx') (hready : ctx'.Ready scope view')
    (hreflects : Reflects ctx' scope frames' found) (hapart : ∀ n ∈ nodes', n ∉ nodes)
    (hframes : ∀ n ∈ frames'.nodes, n ∈ frames.nodes ∨ n ∈ nodes) :
    Begins ret scope frames' found nodes' ctx' view' where
  ready := hready
  known := h.known.extends hadvances
  unopened := h.unopened.advances hadvances hapart
  apart n hn hmem := by
    rcases hframes n hn with hold | hnew
    · exact h.apart n hold hmem
    · exact hapart n hmem hnew
  reflects := hreflects

/-- **Names in an expression mean what the frames say.** -/
theorem Looks.findsUses (h : Looks scope e.nodes e.subexprs ctx ctx')
    (hbegins : Begins ret scope frames found e.nodes ctx view) :
    Reflects ctx' scope frames found ∧ ∀ use ∈ e.uses frames, use.IsFound ctx' found := by
  have hadvances := h.rebinds.advances []
  refine ⟨hbegins.reflects.advances hbegins.ready hadvances (by simp) hbegins.apart, ?_⟩
  intro use huse
  obtain ⟨hframes, sub, hsub, hnode, hname⟩ := NameUse.of_mem_uses huse
  obtain ⟨s, hs, hlookup⟩ := h.bound view hbegins.ready sub hsub use.name hname
  refine ⟨s, hnode ▸ hs, ?_⟩
  rw [hframes, Frames.lookup?_congr fun n hn =>
    hadvances.confined.symbol? n (hbegins.apart n hn), ← hbegins.reflects.names]
  exact hlookup

/-- Uses stay found, where what follows is at other nodes. -/
theorem NameUse.IsFound.next {use : NameUse} (h : use.IsFound ctx found)
    (hwithin : use.Within frames nodes') (hadvances : Advances nodes touched ctx ctx')
    (hapart : ∀ n ∈ nodes', n ∉ nodes) (hframes : ∀ n ∈ frames.nodes, n ∉ nodes) :
    use.IsFound ctx' found := by
  apply h.advances hadvances (hapart _ hwithin.1)
  intro n hn
  rcases hwithin.2 n hn with hmem | hmem
  · exact hframes n hmem
  · exact hapart n hmem

end

/-- A condition looks its names up. -/
theorem does_lookCondition (scope : ScopeId) (condition : Expr) (hnodes : condition.nodes.Nodup) :
    Does (Stmt.resolveCondition condition scope) fun ctx _ ctx' =>
      Looks scope condition.nodes condition.subexprs ctx ctx' := by
  refine ((Expr.does_look scope condition hnodes (some .bool)).bind fun ty =>
    does_expectBool ty "if condition" condition.span).mono ?_
  rintro ctx _ ctx' ⟨ty, ctx₁, h, rfl, -⟩
  exact h

/-- A return binds the uses in its value. -/
theorem does_bindsReturn {ret : Ty} (scope : ScopeId) (value : Option Expr) (span : Span)
    (hnodes : (Expr.nodesOfOption value).Nodup) :
    Does (Stmt.resolveReturn value span scope ret) fun ctx _ ctx' =>
      BindsUses ret scope (.ret value span) ctx ctx' := by
  cases value with
  | none =>
      have hsame : Does (Stmt.resolveReturn none span scope ret) fun ctx _ ctx' => ctx' = ctx := by
        simp only [Stmt.resolveReturn]
        split
        · exact (does_pure ()).mono fun ctx _ ctx' h => h.2
        · exact (does_read fun _ => (does_mismatch _ _).never).never
      refine hsame.mono ?_
      rintro ctx _ ctx' rfl view frames found hbegins
      exact ⟨hbegins.reflects, by simp [Stmt.uses, Expr.usesOfOption]⟩
  | some e =>
      simp only [Stmt.resolveReturn]
      refine ((Expr.does_look scope e hnodes (some ret)).bind
        (S := fun _ ctx _ ctx' => ctx' = ctx) fun actual => ?_).mono ?_
      · split
        · exact (does_mismatch _ _).never
        · exact (does_checkAssignable actual ret e.span).mono fun ctx _ ctx' h => h.1
      · rintro ctx _ ctx' ⟨actual, ctx₁, h, rfl⟩ view frames found hbegins
        exact h.findsUses hbegins

/-- A variable declaration binds the uses in its value, before the variable is there. -/
theorem does_bindsVarDecl {ret : Ty} (scope : ScopeId) (id : NodeId) (ty : TypeExpr) (name : Ident)
    (value : Option Expr) (span : Span) (hnodes : (id :: Expr.nodesOfOption value).Nodup) :
    Does (Stmt.resolveVarDecl id ty name value scope) fun ctx _ ctx' =>
      BindsUses ret scope (.varDecl id ty name value span) ctx ctx' := by
  let entry (t : Ty) : VariableEntry := ⟨name.name, name.span, t⟩
  have hdeclare := fun t => does_declareVariable id scope (entry t) name.span
  cases value with
  | none =>
      refine ((TypeExpr.does_resolveStorage ty scope "variable").bind hdeclare).mono ?_
      rintro ctx _ ctx' ⟨t, _, ⟨rfl, -⟩, hfree, rfl⟩ view frames found hbegins
      have hid : id ∉ frames.nodes := fun hmem => hbegins.apart id hmem (List.mem_cons_self ..)
      exact ⟨hbegins.reflects.declare hbegins.ready hfree hid, nofun⟩
  | some e =>
      rw [List.nodup_cons] at hnodes
      refine ((TypeExpr.does_resolveStorage ty scope "variable").bind fun t =>
        (Expr.does_look scope e hnodes.2 (some t)).bind fun actual =>
        (does_checkAssignable actual t e.span).bind fun _ => hdeclare t).mono ?_
      rintro ctx _ ctx' ⟨t, _, ⟨rfl, -⟩, actual, _, h, _, ctx₁, ⟨rfl, -⟩, hfree, rfl⟩ view frames
        found hbegins
      obtain ⟨hreflects, huses⟩ := h.findsUses (hbegins.part (List.subset_cons_self ..))
      have hid : id ∉ frames.nodes := fun hmem => hbegins.apart id hmem (List.mem_cons_self ..)
      refine ⟨hreflects.declare (h.rebinds.ready hbegins.ready) hfree hid, fun use huse => ?_⟩
      apply (huses use huse).next (e.uses_within use huse)
        (advances_declareVariable ctx₁ id scope (entry t))
      · intro n hn hmem
        exact hnodes.1 (List.mem_singleton.1 hmem ▸ hn)
      · intro n hn hmem
        exact hid (List.mem_singleton.1 hmem ▸ hn)

/-- A block reflects its own variables inside, and leaves everything outside as it was. -/
theorem does_bindsScoped {ret : Ty} {scope : ScopeId} {id : NodeId} {stmts : List Stmt}
    (span : Span)
    (hproper : Stmt.AllProper stmts) (hnodes : (id :: Stmt.nodesOfAll stmts).Nodup)
    (hall : ∀ inner, Does (Stmt.resolveAll ret inner stmts)
      fun ctx _ ctx' => BindsAllUses ret inner stmts ctx ctx') :
    Does ((Stmt.block id stmts span).resolve ret scope)
      fun ctx _ ctx' => BindsUses ret scope (.block id stmts span) ctx ctx' := by
  obtain ⟨hid, hstmts⟩ := List.nodup_cons.1 hnodes
  have hrun : Does ((Stmt.block id stmts span).resolve ret scope) fun ctx _ ctx' => ∃ inner ctx₁,
      ((ctx.bindings.scope? id = some inner ∧ ctx₁ = ctx) ∨
        (ctx.bindings.scope? id = none ∧ inner = ctx.scopes.size ∧
          ctx₁ = { ctx with
            scopes := ctx.scopes.push scope .block
            bindings := ctx.bindings.bindScope id ctx.scopes.size })) ∧
      BindsAllUses ret inner stmts ctx₁ ctx' := by
    simp only [Stmt.resolve]
    exact (does_scopeFor id scope .block).bind hall
  refine ((does_scoped hid span fun inner =>
    Stmt.does_resolveAll ret inner stmts hproper hstmts).and hrun).mono ?_
  rintro ctx _ ctx' ⟨hresolves, inner, ctx₁, hscope, huses⟩ view frames found hbegins
  obtain ⟨hadvances, -⟩ := hresolves view hbegins.ready hbegins.known hbegins.unopened
  refine ⟨hbegins.reflects.advances hbegins.ready hadvances (by simp) hbegins.apart, ?_⟩
  have hnone : ctx.bindings.scope? id = none := hbegins.unopened id (List.mem_cons_self ..)
  rcases hscope with ⟨hsome, -⟩ | ⟨-, rfl, rfl⟩
  · simp [hnone] at hsome
  · have hopen : Advances [id] [] { ctx with scopes := ctx.scopes.push scope .block }
        { ctx with
          scopes := ctx.scopes.push scope .block
          bindings := ctx.bindings.bindScope id ctx.scopes.size } :=
      ⟨.bindScope id ctx.scopes.size [] _, .refl _⟩
    have hready := hbegins.ready.push
    have hreflects := hbegins.reflects.push hbegins.ready
    have hframes : ∀ n ∈ Frames.nodes ([] :: frames), n ∉ (Stmt.block id stmts span).nodes :=
      hbegins.apart
    apply huses view ([] :: frames) found
    constructor
    · exact hready.congr rfl rfl
    · exact hbegins.known
    · apply Context.Unopened.advances (fun n hn => ?_) hopen fun n hn hmem => ?_
      · exact hbegins.unopened n (List.mem_cons_of_mem id hn)
      · exact hid (List.mem_singleton.1 hmem ▸ hn)
    · exact fun n hn hmem => hframes n hn (List.mem_cons_of_mem id hmem)
    · apply hreflects.advances hready hopen (by simp)
      intro n hn hmem
      exact hframes n hn (List.mem_singleton.1 hmem ▸ List.mem_cons_self ..)

/-- A branch without braces is a block of its own. -/
theorem does_bindsBranch {ret : Ty} {scope : ScopeId} {s : Stmt} (hproper : s.Proper)
    (hnodes : s.nodes.Nodup)
    (hs : ∀ inner, Does (s.resolve ret inner) fun ctx _ ctx' => BindsUses ret inner s ctx ctx') :
    Does (do let inner ← s.branchScope scope; s.resolve ret inner)
      fun ctx _ ctx' => BranchBindsUses ret scope s ctx ctx' := by
  cases hblock : s.isBlock with
  | true =>
      have hscope : s.branchScope scope = pure scope := by simp [Stmt.branchScope, hblock]
      rw [hscope]
      refine ((does_pure scope).bind hs).mono ?_
      rintro ctx _ ctx' ⟨_, _, ⟨rfl, rfl⟩, h⟩ view frames found hbegins
      obtain ⟨hreflects, huses⟩ := h view frames found hbegins
      have hdeclare : s.declare frames = frames := by
        cases s <;> simp_all [Stmt.isBlock, Stmt.declare]
      have hframes : s.branchFrames frames = frames := by simp [Stmt.branchFrames, hblock]
      rw [hdeclare] at hreflects
      rw [hframes]
      exact ⟨hreflects, huses⟩
  | false =>
      have hscope : s.branchScope scope = Analysis.pushScope scope .block := by
        simp [Stmt.branchScope, hblock]
      rw [hscope]
      refine ((does_pushScope scope .block).bind fun inner =>
        (Stmt.does_resolve ret inner s hproper hnodes).and (hs inner)).mono ?_
      rintro ctx _ ctx' ⟨inner, _, ⟨rfl, rfl⟩, hresolves, huses⟩ view frames found hbegins
      have hready := hbegins.ready.push
      obtain ⟨hadvances, -⟩ := hresolves view hready hbegins.known hbegins.unopened
      have hadvances' : Advances s.nodes [ctx.scopes.size] ctx ctx' :=
        Advances.trans ⟨Confined.push _ _ _ _ _, .refl _⟩ hadvances
      have hframes : s.branchFrames frames = [] :: frames := by simp [Stmt.branchFrames, hblock]
      rw [hframes]
      constructor
      · exact hbegins.reflects.advances hbegins.ready hadvances'
          (by simpa using hbegins.ready.sees.opened) hbegins.apart
      · exact (huses view ([] :: frames) found ⟨hready, hbegins.known, hbegins.unopened,
          hbegins.apart, hbegins.reflects.push hbegins.ready⟩).2

/-- A branch binds its uses behind a condition that binds its own. -/
theorem does_bindsIfThen {ret : Ty} {scope : ScopeId} {condition : Expr} {positive : Stmt}
    (span : Span) (hproper : positive.Proper)
    (hnodes : (condition.nodes ++ positive.nodes).Nodup)
    (hpositive : ∀ inner, Does (positive.resolve ret inner)
      fun ctx _ ctx' => BindsUses ret inner positive ctx ctx') :
    Does ((Stmt.ifThen condition positive span).resolve ret scope)
      fun ctx _ ctx' => BindsUses ret scope (.ifThen condition positive span) ctx ctx' := by
  rw [List.nodup_append] at hnodes
  obtain ⟨hc, hp, hdisjoint⟩ := hnodes
  simp only [Stmt.resolve]
  refine ((does_lookCondition scope condition hc).bind fun _ =>
    (does_branch fun inner => Stmt.does_resolve ret inner positive hproper hp).and
    (does_bindsBranch hproper hp hpositive)).mono ?_
  rintro ctx _ ctx' ⟨_, ctx₁, h, hresolves, hbinds⟩ view frames found hbegins
  obtain ⟨hreflects₁, huses₁⟩ := h.findsUses (hbegins.part (List.subset_append_left _ _))
  have hbegins₁ : Begins ret scope frames found positive.nodes ctx₁ view :=
    (hbegins.part (List.subset_append_right _ _)).next (h.rebinds.advances [])
      (h.rebinds.ready hbegins.ready) hreflects₁
      (fun n hn hn' => hdisjoint n hn' n hn rfl) fun n hn => .inl hn
  obtain ⟨hadvances, -⟩ := hresolves view hbegins₁.ready hbegins₁.known hbegins₁.unopened
  obtain ⟨hreflects, huses⟩ := hbinds view frames found hbegins₁
  refine ⟨hreflects, fun use huse => ?_⟩
  rcases List.mem_append.1 huse with huse | huse
  · exact (huses₁ use huse).next (condition.uses_within use huse) hadvances
      (fun n hn hn' => hdisjoint n hn n hn' rfl) hbegins₁.apart
  · exact huses use huse

/-- Of two branches, neither sees what the other declares. -/
theorem does_bindsIfElse {ret : Ty} {scope : ScopeId} {condition : Expr} {positive negative : Stmt}
    (span : Span) (hproper₁ : positive.Proper) (hproper₂ : negative.Proper)
    (hnodes : (condition.nodes ++ (positive.nodes ++ negative.nodes)).Nodup)
    (hpositive : ∀ inner, Does (positive.resolve ret inner)
      fun ctx _ ctx' => BindsUses ret inner positive ctx ctx')
    (hnegative : ∀ inner, Does (negative.resolve ret inner)
      fun ctx _ ctx' => BindsUses ret inner negative ctx ctx') :
    Does ((Stmt.ifElse condition positive negative span).resolve ret scope)
      fun ctx _ ctx' => BindsUses ret scope
        (.ifElse condition positive negative span) ctx ctx' := by
  rw [List.nodup_append, List.nodup_append] at hnodes
  obtain ⟨hc, ⟨hp, hn, hpn⟩, hdisjoint⟩ := hnodes
  simp only [Stmt.resolve]
  refine ((does_lookCondition scope condition hc).bind fun _ =>
    ((does_branch fun inner => Stmt.does_resolve ret inner positive hproper₁ hp).and
    (does_bindsBranch hproper₁ hp hpositive)).bind fun _ =>
    (does_branch fun inner => Stmt.does_resolve ret inner negative hproper₂ hn).and
    (does_bindsBranch hproper₂ hn hnegative)).mono ?_
  rintro ctx _ ctx' ⟨_, ctx₁, h, _, ctx₂, ⟨hresolves₁, hbinds₁⟩, hresolves₂, hbinds₂⟩ view frames
    found hbegins
  obtain ⟨hreflects₁, huses₁⟩ := h.findsUses (hbegins.part (List.subset_append_left _ _))
  have hbegins₁ : Begins ret scope frames found (positive.nodes ++ negative.nodes) ctx₁ view :=
    (hbegins.part (List.subset_append_right _ _)).next (h.rebinds.advances [])
      (h.rebinds.ready hbegins.ready) hreflects₁
      (fun n hn hn' => hdisjoint n hn' n hn rfl) fun n hn => .inl hn
  have hfirst := hbegins₁.part (List.subset_append_left _ _)
  obtain ⟨hadvances₁, -, hready₂⟩ := hresolves₁ view hfirst.ready hfirst.known hfirst.unopened
  obtain ⟨hreflects₂, huses₂⟩ := hbinds₁ view frames found hfirst
  have hsecond : Begins ret scope frames found negative.nodes ctx₂ view :=
    (hbegins₁.part (List.subset_append_right _ _)).next hadvances₁ hready₂ hreflects₂
      (fun n hn hn' => hpn n hn' n hn rfl) fun n hn => .inl hn
  obtain ⟨hadvances₂, -⟩ := hresolves₂ view hsecond.ready hsecond.known hsecond.unopened
  obtain ⟨hreflects, huses⟩ := hbinds₂ view frames found hsecond
  have hboth := (hadvances₁.mono (List.subset_append_left _ _) fun _ hi _ => hi).trans
    (hadvances₂.mono (List.subset_append_right _ _) fun _ hi _ => hi)
  refine ⟨hreflects, fun use huse => ?_⟩
  rcases List.mem_append.1 huse with huse | huse
  · exact (huses₁ use huse).next (condition.uses_within use huse) hboth
      (fun n hn hn' => hdisjoint n hn n hn' rfl) hbegins₁.apart
  rcases List.mem_append.1 huse with huse | huse
  · exact (huses₂ use huse).next (positive.uses_within _ use huse).branch hadvances₂
      (fun n hn hn' => hpn n hn n hn' rfl) hsecond.apart
  · exact huses use huse

mutual

/-- **Each name in a statement is bound to what its frames say.** -/
theorem Stmt.does_bindUses (ret : Ty) (scope : ScopeId) (s : Stmt) (hproper : s.Proper)
    (hnodes : s.nodes.Nodup) :
    Does (s.resolve ret scope) fun ctx _ ctx' => BindsUses ret scope s ctx ctx' := by
  cases s with
  | block id stmts span =>
      rw [Stmt.proper_block] at hproper
      exact does_bindsScoped span hproper hnodes fun inner =>
        Stmt.does_bindAllUses ret inner stmts hproper (List.nodup_cons.1 hnodes).2
  | varDecl id ty name value span =>
      simp only [Stmt.resolve]
      exact does_bindsVarDecl scope id ty name value span hnodes
  | ifThen condition positive span =>
      rw [Stmt.proper_ifThen] at hproper
      rw [Stmt.nodes] at hnodes
      exact does_bindsIfThen span hproper.2 hnodes fun inner =>
        Stmt.does_bindUses ret inner positive hproper.2 (List.nodup_append.1 hnodes).2.1
  | ifElse condition positive negative span =>
      rw [Stmt.proper_ifElse] at hproper
      rw [Stmt.nodes] at hnodes
      obtain ⟨hp, hn, -⟩ := List.nodup_append.1 (List.nodup_append.1 hnodes).2.1
      exact does_bindsIfElse span hproper.2.1 hproper.2.2 hnodes
        (fun inner => Stmt.does_bindUses ret inner positive hproper.2.1 hp)
        (fun inner => Stmt.does_bindUses ret inner negative hproper.2.2 hn)
  | ret value span =>
      simp only [Stmt.resolve]
      exact does_bindsReturn scope value span hnodes
  | expr e span =>
      simp only [Stmt.resolve]
      refine ((Expr.does_look scope e hnodes none).bind fun _ => does_pure ()).mono ?_
      rintro ctx _ ctx' ⟨ty, _, h, -, rfl⟩ view frames found hbegins
      exact h.findsUses hbegins

/-- Statements bind the uses in them, one behind the other. -/
theorem Stmt.does_bindAllUses (ret : Ty) (scope : ScopeId) (stmts : List Stmt)
    (hproper : Stmt.AllProper stmts) (hnodes : (Stmt.nodesOfAll stmts).Nodup) :
    Does (Stmt.resolveAll ret scope stmts)
      fun ctx _ ctx' => BindsAllUses ret scope stmts ctx ctx' := by
  cases stmts with
  | nil =>
      simp only [Stmt.resolveAll]
      refine (does_pure ()).mono ?_
      rintro ctx _ ctx' ⟨_, rfl⟩ view frames found hbegins
      exact nofun
  | cons s rest =>
      rw [Stmt.allProper_cons] at hproper
      rw [Stmt.nodesOfAll, List.nodup_append] at hnodes
      obtain ⟨hs, hrest, hdisjoint⟩ := hnodes
      simp only [Stmt.resolveAll]
      refine (((Stmt.does_resolve ret scope s hproper.1 hs).and
        (Stmt.does_bindUses ret scope s hproper.1 hs)).bind fun _ =>
        (Stmt.does_resolveAll ret scope rest hproper.2 hrest).and
        (Stmt.does_bindAllUses ret scope rest hproper.2 hrest)).mono ?_
      rintro ctx _ ctx' ⟨_, ctx₁, ⟨hresolves₁, hbinds₁⟩, hresolves₂, hbinds₂⟩ view frames found
        hbegins
      have hfirst := hbegins.part (List.subset_append_left _ _)
      obtain ⟨hadvances₁, view₁, -, hready₁⟩ :=
        hresolves₁ view hfirst.ready hfirst.known hfirst.unopened
      obtain ⟨hreflects₁, huses₁⟩ := hbinds₁ view frames found hfirst
      have hnext : Begins ret scope (s.declare frames) found (Stmt.nodesOfAll rest) ctx₁ view₁ :=
        (hbegins.part (List.subset_append_right _ _)).next hadvances₁ hready₁ hreflects₁
          (fun n hn hn' => hdisjoint n hn' n hn rfl) Stmt.nodes_declare
      obtain ⟨hadvances₂, -⟩ := hresolves₂ view₁ hnext.ready hnext.known hnext.unopened
      intro use huse
      rcases List.mem_append.1 huse with huse | huse
      · exact (huses₁ use huse).next (s.uses_within frames use huse) hadvances₂
          (fun n hn hn' => hdisjoint n hn n hn' rfl)
          (hbegins.part (List.subset_append_right _ _)).apart
      · exact hbinds₂ view₁ _ found hnext use huse

end

/-! ## Bodies -/

/-- The uses of a function are those in its block. -/
theorem FunctionDecl.uses_eq {decl : FunctionDecl} {block : Block}
    (h : decl.body.block? = some block) :
    decl.uses = block.toStmt.uses [] := by
  simp [FunctionDecl.uses, h]

/-- The uses of a function are at the nodes of its body. -/
theorem FunctionDecl.uses_within {decl : FunctionDecl} :
    ∀ use ∈ decl.uses, use.Within [] decl.body.nodes := by
  intro use huse
  cases hblock : decl.body.block? with
  | none => simp [FunctionDecl.uses, hblock] at huse
  | some block =>
      rw [FunctionDecl.uses_eq hblock] at huse
      rw [FunctionDecl.nodes_body hblock]
      exact block.toStmt.uses_within [] use huse

/-- The scope of a function reflects no block at all. -/
theorem Prepared.begins {ctx : Context} {decl : FunctionDecl} {id : SymbolId} {scope : ScopeId}
    {view : View} {entry : FunctionEntry} (h : Prepared ctx decl id scope view entry) (hok : ctx.Ok)
    (hresolved : ctx.symbols.Resolved) (hacyclic : ctx.symbols.Acyclic) :
    Begins entry.returnType scope [] (ctx.lookupName? scope) decl.body.nodes ctx view where
  ready := ⟨hok, hresolved, h.inside, h.sees⟩
  known := (hok.table.function h.function? h.resolved).1
  unopened := h.unopened
  apart := nofun
  reflects :=
    { acyclic := hacyclic
      kind := fun c hc => by cases h.presents.kind.symm.trans hc
      names := fun name => rfl }

/-- **Each name in a body is bound to what its frames say**, and outside of the body to what is
found from the scope of the function. -/
theorem FunctionDecl.does_bindUses (decl : FunctionDecl) (hproper : decl.Proper)
    (hnodes : decl.nodes.Nodup) :
    Does decl.resolveBody fun ctx _ ctx' => ∀ owner id scope, ctx.Ok → ctx.symbols.Resolved →
      ctx.symbols.Acyclic → IsPrepared ctx decl owner id →
        ctx.bindings.scope? decl.id = some scope →
      ∀ use ∈ decl.uses, use.IsFound ctx' (ctx.lookupName? scope) := by
  unfold FunctionDecl.resolveBody
  split
  · next hnone =>
      refine (does_pure _).mono ?_
      rintro ctx _ ctx' - owner id scope - - - - - use huse
      simp [FunctionDecl.uses, hnone] at huse
  · next block hblock =>
      have hbody : decl.body.nodes = block.id :: Stmt.nodesOfAll block.stmts :=
        FunctionDecl.nodes_body hblock
      have hblockNodes : (block.id :: Stmt.nodesOfAll block.stmts).Nodup :=
        hbody ▸ (List.nodup_append.1 (List.nodup_cons.1 hnodes).2).2.1
      refine does_read fun before => ?_
      split
      · next f scope hsymbol hscope =>
          refine ((Stmt.does_bindUses _ scope block.toStmt (hproper.2 block hblock)
            hblockNodes).bind
            (S := fun _ ctx _ ctx' => ctx' = ctx) fun _ => ?_).mono ?_
          · split
            · exact (does_pure _).mono fun ctx _ ctx' h => h.2
            · exact does_mismatch_return _ _ _
          · rintro ctx _ ctx' ⟨_, _, hbinds, rfl⟩ rfl owner id scope' hok hresolved hacyclic
              ⟨_, view, entry, hprepared, -⟩ hscope'
            cases hsymbol.symm.trans hprepared.symbol?
            cases hscope.symm.trans hprepared.scope?
            cases hscope.symm.trans hscope'
            simp only [hprepared.function?, Option.map_some, Option.getD_some] at hbinds
            have hbegins := hprepared.begins hok hresolved hacyclic
            rw [hbody] at hbegins
            rw [FunctionDecl.uses_eq hblock]
            exact (hbinds view [] _ hbegins).2
      · next hmissing =>
          refine (does_pure _).mono ?_
          rintro ctx _ ctx' - rfl owner id scope - - - ⟨_, view, entry, hprepared, -⟩
          exact absurd hprepared.scope? (hmissing id _ hprepared.symbol?)

/-- Uses in the body of a function that is prepared stay found. -/
theorem NameUse.IsFound.body {ctx ctx₁ ctx' : Context} {decl : FunctionDecl} {use : NameUse}
    {scope : ScopeId} {nodes nodes' : List NodeId} (h : use.IsFound ctx₁ (ctx.lookupName? scope))
    (huse : use ∈ decl.uses) (hok : ctx.Ok) (hacyclic : ctx.symbols.Acyclic)
    (hscope : scope < ctx.scopes.size) (hfirst : Advances nodes [] ctx ctx₁)
    (hadvances : Advances nodes' [] ctx₁ ctx') (hapart : ∀ n ∈ decl.body.nodes, n ∉ nodes') :
    use.IsFound ctx' (ctx'.lookupName? scope) := by
  have hboth : Advances (nodes ++ nodes') [] ctx ctx' :=
    (hfirst.mono (List.subset_append_left _ _) fun _ hi _ => hi).trans
      (hadvances.mono (List.subset_append_right _ _) fun _ hi _ => hi)
  have hsame : ctx'.lookupName? scope = ctx.lookupName? scope :=
    funext (Context.lookupName?_advances hok hacyclic hscope hboth (by simp))
  rw [hsame]
  exact h.next (decl.uses_within use huse) hadvances hapart (by simp [Frames.nodes])

/-- **Names in bodies**, which are resolved one after the other. -/
theorem FunctionDecl.does_bindAllUses (decls : List FunctionDecl)
    (hproper : ∀ decl ∈ decls, decl.Proper) (hnodes : (decls.flatMap FunctionDecl.nodes).Nodup) :
    Does (FunctionDecl.resolveBodies decls) fun ctx _ ctx' =>
      ctx.Ok → ctx.symbols.Resolved → ctx.symbols.Acyclic →
      (∀ decl ∈ decls, ∃ owner id, IsPrepared ctx decl owner id) →
      ∀ decl ∈ decls, ∀ scope, ctx.bindings.scope? decl.id = some scope →
        ∀ use ∈ decl.uses, use.IsFound ctx' (ctx'.lookupName? scope) := by
  induction decls with
  | nil =>
      refine (does_pure _).mono ?_
      rintro ctx _ ctx' - - - - - decl hdecl
      cases hdecl
  | cons decl rest ih =>
      rw [List.flatMap_cons] at hnodes
      obtain ⟨hdecl, hrest, hapart⟩ := List.nodup_append.1 hnodes
      have hproper₁ := hproper decl (List.mem_cons_self ..)
      have hproper' : ∀ d ∈ rest, d.Proper := fun d hd => hproper d (List.mem_cons_of_mem _ hd)
      refine (((decl.does_resolveBody hproper₁ hdecl).and (decl.does_bindUses hproper₁ hdecl)).bind
        fun resolved => ((FunctionDecl.does_resolveBodies rest hproper' hrest).and
        (ih hproper' hrest)).bind fun count => does_pure _).mono ?_
      rintro ctx _ ctx' ⟨_, ctx₁, ⟨hbody, hbinds⟩, _, ctx₂, ⟨hbodies, hbindsRest⟩, -, rfl⟩ hok
        hresolved hacyclic hprepared d hd scope hscope use huse
      obtain ⟨owner, id, hfirst⟩ := hprepared decl (List.mem_cons_self ..)
      obtain ⟨hok₁, hresolved₁, hadvances₁, -⟩ := hbody owner id hok hresolved hfirst
      have hkeep : ∀ d ∈ rest, ∃ owner id, IsPrepared ctx₁ d owner id := by
        intro d hd
        obtain ⟨owner, id, hd'⟩ := hprepared d (List.mem_cons_of_mem _ hd)
        exact ⟨owner, id, hd'.confined hok.tree hadvances₁.confined hadvances₁.extend.later
          (by simp) fun n hn hmem =>
            hapart n (decl.body_subset_nodes hmem) n (List.mem_flatMap.2 ⟨d, hd, hn⟩) rfl⟩
      obtain ⟨-, -, hadvances₂, -⟩ := hbodies hok₁ hresolved₁ hkeep
      rcases List.mem_cons.1 hd with rfl | hd
      · have hopened : scope < ctx.scopes.size := by
          obtain ⟨_, view, entry, h, -⟩ := hfirst
          cases hscope.symm.trans h.scope?
          exact h.sees.opened
        have hfound := hbinds owner id scope hok hresolved hacyclic hfirst hscope use huse
        apply hfound.body huse hok hacyclic hopened hadvances₁ hadvances₂
        intro n hn hmem
        exact hapart n (d.body_subset_nodes hn) n (FunctionDecl.bodyNodes_subset rest hmem) rfl
      · have hnode : d.id ∉ decl.body.nodes := fun hmem =>
          hapart d.id (decl.body_subset_nodes hmem) d.id
            (List.mem_flatMap.2 ⟨d, hd, List.mem_cons_self ..⟩) rfl
        exact hbindsRest hok₁ hresolved₁ (hacyclic.congr hadvances₁.storage.parent?) hkeep d hd
          scope ((hadvances₁.confined.scope? _ hnode).trans hscope) use huse

end ClassLang
