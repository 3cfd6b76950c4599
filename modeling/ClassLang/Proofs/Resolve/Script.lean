import ClassLang.Proofs.Resolve.Settle

/-!
# Bodies, and a whole script

The bodies of functions are resolved when all declarations are settled.  Each body is typed
(`TypedBody`), and resolving the bodies behind it does not change that.  Together: a script
that is resolved without a report is `Analysed`.
-/

namespace ClassLang

open Analysis

/-- A body is typed for its function: what it can see at its start are the arguments and the
receiver, and it returns a value if one is asked for. -/
structure TypedBody (ctx : Context) (entry : FunctionEntry) (block : Block) (view : View)
    (n : Nat) : Prop where
  owner : view.owner = entry.owner
  visible : ∀ v ∈ view.visible, v ∈ entry.arguments ∨
    ∃ owner, entry.owner = some owner ∧ ctx.symbols.Receiver owner v
  distinct : (ctx.symbols.parameterNames entry).Nodup
  /-- Local variables have larger numbers than arguments. -/
  earlier : ∀ v ∈ entry.arguments, v < n
  stmts : ∃ view' n', TypedStmt ctx entry.returnType view n (.all block.stmts) view' n'
  returns : entry.returnType.isVoid = true ∨ Stmt.anyReturns block.stmts = true

/-- A function that has its signature and, if it has a body, a typed one. -/
def Checked (ctx : Context) (decl : FunctionDecl) (owner : Option SymbolId) (id : SymbolId) :
    Prop :=
  ∃ entry, ctx.bindings.symbol? decl.id = some id ∧ ctx.symbols.function? id = some entry ∧
    entry.resolved = true ∧ entry.owner = owner ∧
    ∀ block ∈ decl.body.block?, ∃ view n, TypedBody ctx entry block view n

theorem Checked.symbol? {ctx : Context} {decl : FunctionDecl} {owner : Option SymbolId}
    {id : SymbolId} (h : Checked ctx decl owner id) : ctx.bindings.symbol? decl.id = some id := by
  obtain ⟨entry, hsymbol, -⟩ := h
  exact hsymbol

/-- The numbers of the nodes of a body. -/
theorem FunctionDecl.nodes_body {decl : FunctionDecl} {block : Block}
    (h : block ∈ decl.body.block?) : decl.body.nodes = block.id :: Stmt.nodesOfAll block.stmts := by
  cases hbody : decl.body with
  | block b =>
      simp only [hbody, FunctionBody.block?, Option.mem_def, Option.some.injEq] at h
      subst h
      rfl
  | external variadic => simp [hbody, FunctionBody.block?] at h

theorem FunctionDecl.body_subset_nodes (decl : FunctionDecl) : decl.body.nodes ⊆ decl.nodes :=
  fun _ hn => List.mem_cons_of_mem _ (List.mem_append_right _ hn)

theorem FunctionDecl.visits_body {decl : FunctionDecl} {block : Block}
    (h : block ∈ decl.body.block?) : Stmt.visitsOfAll block.stmts ⊆ decl.visits := by
  cases hbody : decl.body with
  | block b =>
      simp only [hbody, FunctionBody.block?, Option.mem_def, Option.some.injEq] at h
      subst h
      intro visit hvisit
      simp only [FunctionDecl.visits, hbody]
      exact List.mem_cons_of_mem _ (List.mem_cons_of_mem _ hvisit)
  | external variadic => simp [hbody, FunctionBody.block?] at h

/-- A body stays typed in a table that has more, if its nodes are left alone. -/
theorem Checked.extend {ctx ctx' : Context} {decl : FunctionDecl} {owner : Option SymbolId}
    {id : SymbolId} (h : Checked ctx decl owner id) (hok : ctx.symbols.Ok)
    (hextends : ctx.symbols.Extends ctx'.symbols)
    (hid : ctx'.bindings.symbol? decl.id = ctx.bindings.symbol? decl.id)
    (hkept : ∀ visit ∈ decl.visits, visit.KeptIn ctx ctx') : Checked ctx' decl owner id := by
  obtain ⟨entry, hsymbol, hentry, hresolved, howner, hbody⟩ := h
  refine ⟨entry, hid.trans hsymbol, hextends.function? hentry, hresolved, howner,
    fun block hblock => ?_⟩
  obtain ⟨view, n, htyped⟩ := hbody block hblock
  obtain ⟨view', n', hstmts⟩ := htyped.stmts
  have hlistable := (hok.function hentry hresolved).2
  refine ⟨view, n, htyped.owner, fun v hv => ?_,
    hextends.later.parameterNames hlistable ▸ htyped.distinct, htyped.earlier,
    ⟨view', n', ?_⟩, htyped.returns⟩
  · refine (htyped.visible v hv).imp_right ?_
    rintro ⟨c, hc, a, ha, hfacts⟩
    exact ⟨c, hc, a, hextends.later.argument ha, hfacts⟩
  · exact hstmts.mono hok hextends fun visit hvisit =>
      hkept visit (FunctionDecl.visits_body hblock hvisit)

/-- What happens at other nodes does not matter to a body that is typed. -/
theorem Checked.advances {ctx ctx' : Context} {decl : FunctionDecl} {owner : Option SymbolId}
    {id : SymbolId} {nodes : List NodeId} (h : Checked ctx decl owner id) (hok : ctx.symbols.Ok)
    (hadvances : Advances nodes [] ctx ctx') (hdisjoint : ∀ n ∈ decl.nodes, n ∉ nodes) :
    Checked ctx' decl owner id := by
  refine h.extend hok hadvances.extend
    (hadvances.confined.symbol? _ (hdisjoint _ (List.mem_cons_self ..))) fun visit hvisit =>
    Visit.keptIn fun n hn => ?_
  have hmem : n ∈ decl.visits.filterMap Visit.node? := List.mem_filterMap.2 ⟨visit, hvisit, hn⟩
  have hn' := hdisjoint n (decl.body_subset_nodes (decl.visits_sublist.subset hmem))
  exact ⟨hadvances.confined.type? n hn', hadvances.confined.symbol? n hn'⟩

/-- What resolving the body of a function that is prepared does. -/
def ResolvesBody (decl : FunctionDecl) (ctx ctx' : Context) : Prop :=
  ∀ owner id, ctx.Ok → ctx.symbols.Resolved → IsPrepared ctx decl owner id →
    ctx'.Ok ∧ ctx'.symbols.Resolved ∧ Advances decl.body.nodes [] ctx ctx' ∧
      Checked ctx' decl owner id

/-- A block that is resolved in the scope of a function that is prepared, and returns where the
function has to. -/
theorem resolvesBody_of_block {decl : FunctionDecl} {block : Block} {f : SymbolId}
    {scope : ScopeId} {ret : Ty} {before ctx' : Context} (hnodes : decl.nodes.Nodup)
    (hblock : decl.body.block? = some block) (hsymbol : before.bindings.symbol? decl.id = some f)
    (hscope : before.bindings.scope? decl.id = some scope)
    (hret : ((before.symbols.function? f).map FunctionEntry.returnType).getD .error = ret)
    (hstmt : ResolvesStmt ret scope [] (.one block.toStmt) before ctx')
    (hreturns : ret.isVoid = true ∨ ret.isError = true ∨ Stmt.anyReturns block.stmts = true) :
    ResolvesBody decl before ctx' := by
  have hbody : decl.body.nodes = block.id :: Stmt.nodesOfAll block.stmts :=
    FunctionDecl.nodes_body hblock
  intro owner id hok hresolved ⟨scope', view, entry, hprepared, howner⟩
  cases hsymbol.symm.trans hprepared.symbol?
  cases hscope.symm.trans hprepared.scope?
  simp only [hprepared.function?, Option.map_some, Option.getD_some] at hret
  subst hret
  obtain ⟨hknown, hlistable⟩ := hok.table.function hprepared.function? hprepared.resolved
  obtain ⟨hadvances, view', htyped, hready⟩ := hstmt view
    ⟨hok, hresolved, hprepared.inside, hprepared.sees⟩ hknown
    fun n hn => hprepared.unopened n (hbody ▸ hn)
  have hadvances' : Advances decl.body.nodes [] before ctx' :=
    hadvances.mono (fun n hn => hbody ▸ hn) fun _ h _ => h
  refine ⟨hready.ok, hready.resolved, hadvances', entry, ?_,
    hadvances.extend.function? hprepared.function?, hprepared.resolved, howner, ?_⟩
  · refine (hadvances.confined.symbol? _ fun hmem => ?_).trans hprepared.symbol?
    exact (List.nodup_cons.1 hnodes).1 (List.mem_append_right _ (hbody ▸ hmem))
  · rintro b hb
    cases hblock.symm.trans hb
    cases htyped with
    | block _ _ hlist =>
        refine ⟨view, _, hprepared.owner, fun v hv => ?_,
          hadvances.extend.later.parameterNames hlistable ▸ hprepared.distinct,
          fun a ha => ?_, ⟨_, _, hlist⟩, ?_⟩
        · refine (hprepared.visible v hv).imp_right ?_
          rintro ⟨c, hc, a, ha, hfacts⟩
          exact ⟨c, hc, a, hadvances.extend.later.argument ha, hfacts⟩
        · exact (hlistable a ha).lt_size
        · rcases hreturns with hvoid | herror | hreturns
          · exact .inl hvoid
          · simp [hknown.isError] at herror
          · exact .inr hreturns

/-- **A body that is resolved is typed.** -/
theorem FunctionDecl.does_resolveBody (decl : FunctionDecl) (hproper : decl.Proper)
    (hnodes : decl.nodes.Nodup) :
    Does decl.resolveBody fun ctx _ ctx' => ResolvesBody decl ctx ctx' := by
  unfold FunctionDecl.resolveBody
  split
  · next hnone =>
      refine (does_pure _).mono ?_
      rintro ctx _ ctx' ⟨-, rfl⟩ owner id hok hresolved ⟨scope, view, entry, hprepared, howner⟩
      exact ⟨hok, hresolved, ⟨.refl _ _ _, .refl _⟩, entry, hprepared.symbol?, hprepared.function?,
        hprepared.resolved, howner, by simp [hnone]⟩
  · next block hblock =>
      have hbody : decl.body.nodes = block.id :: Stmt.nodesOfAll block.stmts :=
        FunctionDecl.nodes_body hblock
      have hblockNodes : (block.id :: Stmt.nodesOfAll block.stmts).Nodup :=
        hbody ▸ (List.nodup_append.1 (List.nodup_cons.1 hnodes).2).2.1
      obtain ⟨hid, hstmts⟩ := List.nodup_cons.1 hblockNodes
      have hall : Stmt.AllProper block.stmts := Stmt.proper_block.1 (hproper.2 block hblock)
      refine does_read fun before => ?_
      split
      · next f scope hsymbol hscope =>
          have hresolve : ∀ ret, Does (block.toStmt.resolve ret scope) fun ctx _ ctx' =>
              ResolvesStmt ret scope [] (.one block.toStmt) ctx ctx' := fun ret =>
            does_scoped hid block.span fun inner =>
              Stmt.does_resolveAll ret inner block.stmts hall hstmts
          refine ((hresolve _).bind (S := fun _ ctx _ ctx' => ctx' = ctx ∧
            ((((before.symbols.function? f).map FunctionEntry.returnType).getD .error).isVoid =
              true ∨
             (((before.symbols.function? f).map FunctionEntry.returnType).getD .error).isError =
               true ∨
              Stmt.anyReturns block.stmts = true)) fun _ => ?_).mono ?_
          · split
            · next hreturns =>
                refine (does_pure _).mono ?_
                rintro ctx _ ctx' ⟨-, rfl⟩
                exact ⟨rfl, by simpa [or_assoc] using hreturns⟩
            · exact does_mismatch_return _ _ _
          · rintro ctx _ ctx' ⟨_, _, hstmt, rfl, hreturns⟩ rfl
            exact resolvesBody_of_block hnodes hblock hsymbol hscope rfl hstmt hreturns
      · next hmissing =>
          refine (does_pure _).mono ?_
          rintro ctx _ ctx' - rfl owner id - - ⟨scope, view, entry, hprepared, -⟩
          exact absurd hprepared.scope? (hmissing id scope hprepared.symbol?)

/-- The numbers of the nodes of the bodies of functions. -/
def FunctionDecl.bodyNodes (decls : List FunctionDecl) : List NodeId :=
  decls.flatMap fun decl => decl.body.nodes

theorem FunctionDecl.bodyNodes_subset (decls : List FunctionDecl) :
    FunctionDecl.bodyNodes decls ⊆ decls.flatMap FunctionDecl.nodes := by
  intro n hn
  obtain ⟨decl, hdecl, hn⟩ := List.mem_flatMap.1 hn
  exact List.mem_flatMap.2 ⟨decl, hdecl, decl.body_subset_nodes hn⟩

/-- **Bodies one after the other**: all of them are typed in the end. -/
theorem FunctionDecl.does_resolveBodies (decls : List FunctionDecl)
    (hproper : ∀ decl ∈ decls, decl.Proper) (hnodes : (decls.flatMap FunctionDecl.nodes).Nodup) :
    Does (FunctionDecl.resolveBodies decls) fun ctx _ ctx' =>
      ctx.Ok → ctx.symbols.Resolved → (∀ decl ∈ decls, ∃ owner id, IsPrepared ctx decl owner id) →
      ctx'.Ok ∧ ctx'.symbols.Resolved ∧ Advances (FunctionDecl.bodyNodes decls) [] ctx ctx' ∧
        ∀ decl ∈ decls, ∀ owner id, IsPrepared ctx decl owner id → Checked ctx' decl owner id := by
  induction decls with
  | nil =>
      refine (does_pure _).mono ?_
      rintro ctx _ ctx' ⟨-, rfl⟩ hok hresolved -
      exact ⟨hok, hresolved, ⟨.refl _ _ _, .refl _⟩, by simp⟩
  | cons decl rest ih =>
      rw [List.flatMap_cons] at hnodes
      obtain ⟨hdecl, hrest, hapart⟩ := List.nodup_append.1 hnodes
      refine ((decl.does_resolveBody (hproper decl (List.mem_cons_self ..)) hdecl).bind
        fun resolved => (ih (fun d hd => hproper d (List.mem_cons_of_mem _ hd)) hrest).bind
          fun count => does_pure _).mono ?_
      rintro ctx _ ctx' ⟨_, ctx₁, hbody, _, ctx₂, hbodies, -, rfl⟩ hok hresolved hprepared
      obtain ⟨owner, id, hfirst⟩ := hprepared decl (List.mem_cons_self ..)
      obtain ⟨hok₁, hresolved₁, hadvances₁, -⟩ := hbody owner id hok hresolved hfirst
      have hkeep : ∀ d ∈ rest, ∀ owner id, IsPrepared ctx d owner id → IsPrepared ctx₁ d owner id :=
        fun d hd owner id hd' => hd'.confined hok.tree hadvances₁.confined hadvances₁.extend.later
          (by simp) fun n hn hmem =>
            hapart n (decl.body_subset_nodes hmem) n (List.mem_flatMap.2 ⟨d, hd, hn⟩) rfl
      obtain ⟨hok', hresolved', hadvances', hchecked⟩ := hbodies hok₁ hresolved₁ fun d hd => by
        obtain ⟨owner, id, hd'⟩ := hprepared d (List.mem_cons_of_mem _ hd)
        exact ⟨owner, id, hkeep d hd owner id hd'⟩
      refine ⟨hok', hresolved', (hadvances₁.mono ?_ fun _ h _ => h).trans
        (hadvances'.mono ?_ fun _ h _ => h), fun d hd owner id hd' => ?_⟩
      · exact List.subset_append_left _ _
      · exact List.subset_append_right _ _
      · rcases List.mem_cons.1 hd with rfl | hd
        · obtain ⟨-, -, -, hfirst'⟩ := hbody owner id hok hresolved hd'
          exact hfirst'.advances hok₁.table hadvances' fun n hn hmem =>
            hapart n hn n (FunctionDecl.bodyNodes_subset rest hmem) rfl
        · exact hchecked d hd owner id (hkeep d hd owner id hd')

/-! ## The whole script -/

/-- A script that was resolved: its declarations are known and its bodies are typed. -/
structure Analysed (script : Script) (ctx : Context) : Prop where
  ok : ctx.Ok
  resolved : ctx.symbols.Resolved
  unlaid : ctx.symbols.Unlaid
  acyclic : ctx.symbols.Acyclic
  root : ∃ entry, ctx.symbols.class? SymbolTable.rootClass = some entry ∧
    entry.name = rootClassName ∧ entry.external = true
  checked : ∀ item ∈ script.items, ∃ id, item.Holds (Checked ctx) ctx id
  /-- There are no classes, structs and functions outside classes but those of the items and the
  root class. -/
  source : ∀ id s, ctx.symbols.get? id = some s → s.IsItem →
    id = SymbolTable.rootClass ∨ ∃ item ∈ script.items, ctx.bindings.symbol? item.id = some id
  links : LinkName.Distinct ctx script

/-- The nodes of the functions of an item are nodes of the item. -/
theorem Item.functions_sublist (item : Item) :
    (item.functions.flatMap FunctionDecl.nodes).Sublist item.nodes := by
  cases item with
  | classDecl decl =>
      refine List.Sublist.cons _ ?_
      simp only [Item.functions, ClassDecl.methods]
      induction decl.members with
      | nil => simp
      | cons member rest ih =>
          cases member with
          | field f => simpa [ClassMember.nodes] using ih.cons f.id
          | method f => simpa [ClassMember.nodes] using ih
  | structDecl decl => simp [Item.functions]
  | function decl => simp [Item.functions, Item.nodes]

theorem Script.functions_nodup {script : Script} (hproper : script.Proper) :
    ((script.items.flatMap Item.functions).flatMap FunctionDecl.nodes).Nodup := by
  refine List.Sublist.nodup ?_ hproper.nodup
  unfold Script.nodes
  induction script.items with
  | nil => simp
  | cons item rest ih => simpa using item.functions_sublist.append ih

/-- Lists that have nothing in common have no common element. -/
theorem List.eq_of_mem_flatMap {α β : Type} {l : List α} {f : α → List β}
    (hnodup : (l.flatMap f).Nodup) {a b : α} (ha : a ∈ l) (hb : b ∈ l) {x : β} (hxa : x ∈ f a)
    (hxb : x ∈ f b) : a = b := by
  induction l with
  | nil => simp at ha
  | cons c rest ih =>
      rw [List.flatMap_cons] at hnodup
      obtain ⟨-, hrest, hapart⟩ := List.nodup_append.1 hnodup
      rcases List.mem_cons.1 ha with rfl | ha' <;> rcases List.mem_cons.1 hb with rfl | hb'
      · rfl
      · exact absurd rfl (hapart x hxa x (List.mem_flatMap.2 ⟨b, hb', hxb⟩))
      · exact absurd rfl (hapart x hxb x (List.mem_flatMap.2 ⟨a, ha', hxa⟩))
      · exact ih hrest ha' hb'

/-- A class or a struct has a node of its own. -/
theorem Item.id_not_mem_functions {item : Item} (hnodes : item.nodes.Nodup)
    (hrecord : ∀ decl, item ≠ .function decl) :
    item.id ∉ item.functions.flatMap FunctionDecl.nodes := by
  cases item with
  | function decl => exact absurd rfl (hrecord decl)
  | structDecl decl => simp [Item.functions]
  | classDecl decl =>
      intro hmem
      obtain ⟨m, hm, hn⟩ := List.mem_flatMap.1 hmem
      exact (List.nodup_cons.1 hnodes).1 (ClassMember.mem_nodesOf hm hn)

theorem Script.id_not_mem_functions {script : Script} (hproper : script.Proper) {item : Item}
    (hitem : item ∈ script.items) (hrecord : ∀ decl, item ≠ .function decl) :
    item.id ∉ (script.items.flatMap Item.functions).flatMap FunctionDecl.nodes := by
  intro hmem
  obtain ⟨decl, hdecl, hn⟩ := List.mem_flatMap.1 hmem
  obtain ⟨other, hother, hof⟩ := List.mem_flatMap.1 hdecl
  have hmem' : item.id ∈ other.functions.flatMap FunctionDecl.nodes :=
    List.mem_flatMap.2 ⟨decl, hof, hn⟩
  have heq : item = other := List.eq_of_mem_flatMap hproper.nodup hitem hother
    item.id_mem_nodes (other.functions_sublist.subset hmem')
  subst heq
  exact Item.id_not_mem_functions (Script.item_nodup hproper hitem) hrecord hmem'

/-- What is known about an item stays in a table that has more, if its nodes are left alone. -/
theorem Item.Holds.extend {P P' : FunctionDecl → Option SymbolId → SymbolId → Prop}
    {ctx ctx' : Context} {item : Item} {id : SymbolId} (h : item.Holds P ctx id)
    (hextends : ctx.symbols.Extends ctx'.symbols)
    (hid : ctx'.bindings.symbol? item.id = some id)
    (hbound : ∀ decl ∈ item.functions,
      ctx'.bindings.symbol? decl.id = ctx.bindings.symbol? decl.id)
    (hP : ∀ decl ∈ item.functions, ∀ owner g, P decl owner g → P' decl owner g) :
    item.Holds P' ctx' id := by
  refine ⟨hid, ?_⟩
  cases item with
  | function decl =>
      obtain ⟨-, hdecl, entry, hentry, hlink⟩ := h
      exact ⟨hP decl (by simp [Item.functions]) none id hdecl, entry, hextends.function? hentry,
        hlink⟩
  | structDecl decl =>
      obtain ⟨-, entry, hentry, hname⟩ := h
      exact ⟨entry, hextends.struct? hentry, hname⟩
  | classDecl decl =>
      obtain ⟨-, ⟨entry, hentry, hname, hexternal⟩, entry', hentry', hlisted, hapart,
        hfunctions⟩ := h
      cases hentry.symm.trans hentry'
      obtain ⟨entry'', hentry'', hname', -, -, hsame, hexternal'⟩ := hextends.class? hentry
      refine ⟨⟨entry'', hentry'', hname'.trans hname, hexternal'.trans hexternal⟩, entry'',
        hentry'', fun g hg => ?_, fun m hm m' hm' heq => ?_, fun m hm => ?_⟩
      · rcases hlisted g (hsame ▸ hg) with ⟨m, hm, hsymbol⟩ | ⟨e, he, hrest⟩
        · exact .inl ⟨m, hm, (hbound m hm).trans hsymbol⟩
        · exact .inr ⟨e, hextends.function? he, hrest⟩
      · rw [hbound m hm, hbound m' hm'] at heq
        exact hapart m hm m' hm' heq
      · obtain ⟨g, hg, hm'⟩ := hfunctions m hm
        exact ⟨g, hsame ▸ hg, hP m hm (some id) g hm'⟩

/-- The functions of an item that has been filled in are prepared. -/
theorem Item.Holds.function {P : FunctionDecl → Option SymbolId → SymbolId → Prop} {ctx : Context}
    {item : Item} {id : SymbolId} (h : item.Holds P ctx id) {decl : FunctionDecl}
    (hdecl : decl ∈ item.functions) : ∃ owner g, P decl owner g := by
  cases item with
  | function f =>
      rw [List.mem_singleton.1 hdecl]
      exact ⟨none, id, h.2.1⟩
  | structDecl s => simp [Item.functions] at hdecl
  | classDecl c =>
      obtain ⟨-, -, entry, -, -, -, hfunctions⟩ := h
      obtain ⟨g, -, hg⟩ := hfunctions decl hdecl
      exact ⟨some id, g, hg⟩

theorem Script.proper_functions {script : Script} (hproper : script.Proper) {decl : FunctionDecl}
    (hdecl : decl ∈ script.items.flatMap Item.functions) : decl.Proper := by
  obtain ⟨item, hitem, hof⟩ := List.mem_flatMap.1 hdecl
  have hitem' := hproper.items item hitem
  cases item with
  | function f =>
      rw [List.mem_singleton.1 hof]
      exact hitem'
  | structDecl s => simp [Item.functions] at hof
  | classDecl c =>
      obtain ⟨member, hmember, hsome⟩ := List.mem_filterMap.1 hof
      cases member <;> simp only [reduceCtorEq, Option.some.injEq] at hsome
      subst hsome
      exact (hitem'.2 _ hmember).1

/-- **A script that is resolved without a report is analysed.** -/
theorem Script.does_resolve (script : Script) (hproper : script.Proper) :
    Does script.resolve fun ctx _ ctx' => Outline script.items ctx → Analysed script ctx' := by
  refine does_read fun before => ?_
  refine ((script.does_resolveDeclarations hproper).bind fun _ =>
    (FunctionDecl.does_resolveBodies _ (fun decl hdecl => script.proper_functions hproper hdecl)
      (Script.functions_nodup hproper)).bind fun bodies =>
    does_read (S := fun ctx _ ctx' => ctx' = ctx) fun after =>
      (does_pure _).mono fun ctx _ ctx' h _ => h.2).mono ?_
  rintro ctx _ ctx' ⟨_, ctx₁, hdeclared, _, ctx₂, hbodies, rfl⟩ - houtline
  obtain ⟨h, hlinks, -⟩ := hdeclared houtline
  obtain ⟨hok, hresolved, hadvances, hchecked⟩ := hbodies h.ok h.resolved fun decl hdecl => by
    obtain ⟨item, hitem, hof⟩ := List.mem_flatMap.1 hdecl
    obtain ⟨id, hfilled⟩ := h.filled item hitem
    exact hfilled.function hof
  have hitems : ∀ item ∈ script.items, ∃ id, ctx₁.bindings.symbol? item.id = some id ∧
      item.Holds (Checked ctx') ctx' id := by
    intro item hitem
    obtain ⟨id, hfilled⟩ := h.filled item hitem
    have hfunctions : ∀ decl ∈ item.functions, ∀ owner f, IsPrepared ctx₁ decl owner f →
        Checked ctx' decl owner f := fun decl hdecl =>
      hchecked decl (List.mem_flatMap.2 ⟨item, hitem, hdecl⟩)
    have hbound : ∀ decl ∈ item.functions,
        ctx'.bindings.symbol? decl.id = ctx₁.bindings.symbol? decl.id := by
      intro decl hdecl
      obtain ⟨owner, g, hprepared⟩ := hfilled.function hdecl
      rw [hprepared.symbol?, (hfunctions decl hdecl owner g hprepared).symbol?]
    refine ⟨id, hfilled.1, hfilled.extend hadvances.extend ?_ hbound hfunctions⟩
    cases item with
    | function decl => exact (hbound decl (by simp [Item.functions])).trans hfilled.1
    | _ => exact (hadvances.confined.symbol? _ fun hmem =>
        Script.id_not_mem_functions hproper hitem (by simp)
          (FunctionDecl.bodyNodes_subset _ hmem)).trans hfilled.1
  refine ⟨hok, hresolved, hadvances.storage.unlaid h.unlaid,
    h.acyclic.congr hadvances.storage.parent?, ?_, ?_, ?_, ?_⟩
  · obtain ⟨entry, hentry, hfacts⟩ := h.root
    exact ⟨entry, (hadvances.storage.class? _).trans hentry, hfacts⟩
  · intro item hitem
    obtain ⟨id, -, hholds⟩ := hitems item hitem
    exact ⟨id, hholds⟩
  · intro id s hs hisItem
    refine (h.source id s (hadvances.storage.item hs hisItem) hisItem).imp_right ?_
    rintro ⟨item, hitem, hsymbol⟩
    obtain ⟨id', hsymbol', hholds⟩ := hitems item hitem
    cases hsymbol.symm.trans hsymbol'
    exact ⟨item, hitem, hholds.1⟩
  · obtain ⟨entry, hentry, -⟩ := h.root
    refine hlinks.extend (P := IsPrepared ctx₁) h.ok.table hadvances.extend (by simp [hentry])
      fun item hitem => ?_
    obtain ⟨id, hfilled⟩ := h.filled item hitem
    obtain ⟨id', hsymbol, hholds⟩ := hitems item hitem
    cases hsymbol.symm.trans hfilled.1
    exact ⟨id, hfilled, hholds.1⟩

end ClassLang
