import ClassLang.Proofs.Resolve.Acts
import ClassLang.Proofs.Resolve.Filling

/-!
# Two records of the members of a class

The scope of a class body binds the names of its members, and types are looked up there; the
entry of the class lists their symbols, and expressions, layouts and code are made from it.
Both are changed by separate calls.  `MembersAgree` says that they do not diverge.

A member that is declared gets its symbol and its signature first, which concerns neither
record; then it enters the class in one of four ways (`Enters`): it is left out, it is listed
with the fields or with the functions under a name that was free, or it takes the place of the
`init` that was there.  Each of them changes both records alike, whatever is reported on the
way (`MembersAgree.enters`), and so does a class as a whole
(`ClassDecl.always_declareFirst`).
-/

namespace ClassLang

open Analysis

/-- The scope of a class body and the entry of the class agree: names have one member each,
which is the same for both, and one of the functions is called `init`. -/
structure MembersAgree (ctx : Context) (owner : SymbolId) (scope : ScopeId) (entry : ClassEntry) :
    Prop where
  opened : scope < ctx.scopes.size
  kind : ctx.scopes.kind scope = .classBody owner
  listed : ctx.symbols.class? owner = some entry
  known : ∀ m ∈ entry.fields ++ entry.functions, m < ctx.symbols.size
  same : ∀ name, ctx.scopes.lookupLocal? scope name = ctx.symbols.ownMember? owner name
  distinct : ((entry.fields ++ entry.functions).map ctx.symbols.name).Nodup
  init : (entry.functions.map ctx.symbols.name).count initName = 1

/-- How a member enters a class, if it does. -/
inductive Enters (owner : SymbolId) (scope : ScopeId) (ctx : Context) : Context → Prop
  /-- The member is left out. -/
  | left {ctx' : Context} (hsymbols : ctx'.symbols = ctx.symbols)
      (hscopes : ctx'.scopes = ctx.scopes) (hbindings : ctx'.bindings = ctx.bindings) :
      Enters owner scope ctx ctx'
  | field {x : SymbolId} {name : String} (hx : x < ctx.symbols.size)
      (hname : ctx.symbols.name x = name) (hfree : ctx.scopes.lookupLocal? scope name = none) :
      Enters owner scope ctx { ctx with
        scopes := ctx.scopes.bind scope name x
        symbols := ctx.symbols.pushField owner x }
  | function {x : SymbolId} {name : String} (hx : x < ctx.symbols.size)
      (hname : ctx.symbols.name x = name) (hfree : ctx.scopes.lookupLocal? scope name = none) :
      Enters owner scope ctx { ctx with
        scopes := ctx.scopes.bind scope name x
        symbols := ctx.symbols.pushFunction owner x }
  | init {x old : SymbolId} (hx : x < ctx.symbols.size) (hname : ctx.symbols.name x = initName)
      (hold : ctx.scopes.lookupLocal? scope initName = some old) :
      Enters owner scope ctx { ctx with
        scopes := ctx.scopes.rebound scope initName old x
        symbols := ctx.symbols.replaceFunction owner old x }

section

variable {ctx ctx' : Context} {owner : SymbolId} {scope : ScopeId} {entry entry' : ClassEntry}
  {changed : List SymbolId} {nodes nodes' : List NodeId} {touched : List ScopeId}

theorem Context.Unopened.fills (h : ctx.Unopened nodes)
    (hfills : Fills changed nodes' touched ctx ctx') (hapart : ∀ n ∈ nodes, n ∉ nodes') :
    ctx'.Unopened nodes :=
  fun n hn => (hfills.confined.scope? n (hapart n hn)).trans (h n hn)

/-- Who enters a class changes its entry and its scope only. -/
theorem Enters.fills (h : Enters owner scope ctx ctx') : Fills [owner] [] [scope] ctx ctx' := by
  cases h with
  | left hsymbols hscopes hbindings => exact .ofSame hsymbols hscopes hbindings
  | @field x name =>
      exact (Fills.bindName (List.mem_singleton_self _) name x).trans (fills_pushField _ _ _ _ _)
  | @function x name =>
      exact (Fills.bindName (List.mem_singleton_self _) name x).trans
        (fills_modifyClass _ _ _ (SymbolTable.later_pushFunction _ _ _) fun _ => rfl)
  | @init x old =>
      exact (Fills.rebind (List.mem_singleton_self _) initName old x).trans
        (fills_modifyClass _ _ _ (SymbolTable.later_replaceFunction _ _ _ _) fun _ => rfl)

namespace MembersAgree

/-- What happens elsewhere does not matter. -/
theorem keep (h : MembersAgree ctx owner scope entry)
    (hfills : Fills changed nodes touched ctx ctx')
    (howner : owner ∉ changed) (hscope : scope ∉ touched) :
    MembersAgree ctx' owner scope entry where
  opened := Nat.lt_of_lt_of_le h.opened hfills.confined.size
  kind := (hfills.confined.kind scope h.opened).trans h.kind
  listed := (hfills.class? howner).trans h.listed
  known m hm := Nat.lt_of_lt_of_le (h.known m hm) hfills.later.size_le
  same name := by
    rw [hfills.confined.lookupLocal? h.opened hscope, h.same]
    exact (hfills.later.ownMember? h.known h.listed ((hfills.class? howner).trans h.listed) rfl rfl
      name).symm
  distinct := by
    rw [hfills.later.memberNames h.known]
    exact h.distinct
  init := by
    rw [List.map_congr_left fun m hm => hfills.later.name (h.known m (List.mem_append_right _ hm))]
    exact h.init

/-- **One more member**, under a name that was free. -/
theorem insert (h : MembersAgree ctx owner scope entry) {before after : List SymbolId}
    {x : SymbolId} {name : String} {symbols : SymbolTable} (hlater : ctx.symbols.Later symbols)
    (hx : x < ctx.symbols.size) (hname : ctx.symbols.name x = name)
    (hfree : ctx.scopes.lookupLocal? scope name = none)
    (hlisted : symbols.class? owner = some entry')
    (hbefore : entry.fields ++ entry.functions = before ++ after)
    (hafter : entry'.fields ++ entry'.functions = before ++ x :: after)
    (hinit : (entry'.functions.map symbols.name).count initName = 1) :
    MembersAgree { ctx with scopes := ctx.scopes.bind scope name x, symbols } owner scope
      entry' := by
  have hname' : symbols.name x = name := (hlater.name hx).trans hname
  have hnew : name ∉ (entry.fields ++ entry.functions).map ctx.symbols.name :=
    SymbolTable.not_mem_names h.listed ((h.same name).symm.trans hfree)
  constructor
  · simpa using h.opened
  · simpa using h.kind
  · exact hlisted
  · intro m hm
    refine Nat.lt_of_lt_of_le ?_ hlater.size_le
    rw [hafter] at hm
    rcases List.mem_append.1 hm with hm | hm
    · exact h.known m (hbefore ▸ List.mem_append_left _ hm)
    · rcases List.mem_cons.1 hm with rfl | hm
      · exact hx
      · exact h.known m (hbefore ▸ List.mem_append_right _ hm)
  · intro other
    rw [ScopeTree.lookupLocal?_bind_same ctx.scopes x h.opened hfree, h.same,
      hlater.ownMember?_insert h.known h.listed hlisted hbefore hafter, hname']
    rw [hname', ← h.same, hfree]
  · rw [hafter]
    apply SymbolTable.nodup_names_insert
    · rw [← hbefore, hlater.memberNames h.known]
      exact h.distinct
    · rw [← hbefore, hlater.memberNames h.known, hname']
      exact hnew
  · exact hinit

theorem init_mem (h : MembersAgree ctx owner scope entry) :
    initName ∈ entry.functions.map ctx.symbols.name :=
  List.count_pos_iff.1 (h.init ▸ Nat.one_pos)

/-- The name `init` stands for a function. -/
theorem init_bound (h : MembersAgree ctx owner scope entry) :
    ctx.scopes.lookupLocal? scope initName ≠ none := by
  intro hfree
  have hnew := SymbolTable.not_mem_names h.listed ((h.same initName).symm.trans hfree)
  apply hnew
  rw [List.map_append]
  exact List.mem_append_right _ h.init_mem

theorem init_not_mem_fields (h : MembersAgree ctx owner scope entry) {old : SymbolId}
    (hold : ctx.symbols.name old = initName) : old ∉ entry.fields := by
  intro hmem
  have hdistinct := h.distinct
  rw [List.map_append, List.nodup_append] at hdistinct
  exact hdistinct.2.2 _ (List.mem_map_of_mem hmem) _ h.init_mem hold

/-- **Another `init`** in the place of the one that was there. -/
theorem replace (h : MembersAgree ctx owner scope entry) {x old : SymbolId}
    (hx : x < ctx.symbols.size) (hname : ctx.symbols.name x = initName)
    (hold : ctx.scopes.lookupLocal? scope initName = some old) :
    MembersAgree { ctx with
      scopes := ctx.scopes.rebound scope initName old x
      symbols := ctx.symbols.replaceFunction owner old x } owner scope
      { entry with functions := SymbolTable.replaceFirst old x entry.functions } := by
  have hlater := SymbolTable.later_replaceFunction ctx.symbols owner old x
  have hlisted : (ctx.symbols.replaceFunction owner old x).class? owner =
      some { entry with functions := SymbolTable.replaceFirst old x entry.functions } :=
    class?_modifyClass _ owner _ h.listed
  have hown : ctx.symbols.ownMember? owner initName = some old := (h.same initName).symm.trans hold
  have holdName : ctx.symbols.name old = initName := by
    rw [SymbolTable.ownMember?_eq h.listed] at hown
    simpa using List.find?_some hown
  have hsame : (ctx.symbols.replaceFunction owner old x).name = ctx.symbols.name :=
    funext fun m => SymbolTable.name_modify (fun s => by cases s <;> rfl) ctx.symbols owner m
  have hnames : (SymbolTable.replaceFirst old x entry.functions).map ctx.symbols.name =
      entry.functions.map ctx.symbols.name :=
    SymbolTable.map_name_replaceFirst (hname.trans holdName.symm) _
  constructor
  · simpa using h.opened
  · simpa using h.kind
  · exact hlisted
  · intro m hm
    refine Nat.lt_of_lt_of_le ?_ hlater.size_le
    rcases List.mem_append.1 hm with hm | hm
    · exact h.known m (List.mem_append_left _ hm)
    · rcases SymbolTable.mem_replaceFirst hm with rfl | hm
      · exact hx
      · exact h.known m (List.mem_append_right _ hm)
  · intro other
    have hfound := hlater.ownMember?_replace h.known h.listed hlisted rfl rfl
      (by rw [hsame, hname, hown]) (h.init_not_mem_fields holdName) (by rw [hsame]) other
    simp only [ScopeTree.lookupLocal?_rebound hold, true_and, hfound, hsame, hname, h.same]
  · simp only [hsame, List.map_append, hnames]
    simpa using h.distinct
  · simp only [hsame, hnames]
    exact h.init

/-- **Whoever enters the class, and however**, the two records agree again. -/
theorem enters (h : MembersAgree ctx owner scope entry) (henters : Enters owner scope ctx ctx') :
    ∃ entry', MembersAgree ctx' owner scope entry' := by
  cases henters with
  | left hsymbols hscopes hbindings =>
      have hsame : Fills [] [] [] ctx ctx' := .ofSame hsymbols hscopes hbindings
      exact ⟨entry, h.keep hsame (by simp) (by simp)⟩
  | @field x name hx hname hfree =>
      have hlater := SymbolTable.later_pushField ctx.symbols owner x
      refine ⟨_, h.insert hlater hx hname hfree (class?_pushField ctx owner x h.listed) rfl
        (List.append_assoc _ _ _) ?_⟩
      rw [List.map_congr_left fun m hm => hlater.name (h.known m (List.mem_append_right _ hm))]
      exact h.init
  | @function x name hx hname hfree =>
      have hlater := SymbolTable.later_pushFunction ctx.symbols owner x
      have hne : name ≠ initName := by
        rintro rfl
        exact h.init_bound hfree
      refine ⟨_, h.insert hlater hx hname hfree (class?_modifyClass _ owner _ h.listed)
        (List.append_nil _).symm (List.append_assoc _ _ _).symm ?_⟩
      have hnames : (entry.functions ++ [x]).map (ctx.symbols.pushFunction owner x).name =
          entry.functions.map ctx.symbols.name ++ [name] := by
        rw [List.map_append, List.map_singleton, hlater.name hx, hname,
          List.map_congr_left fun m hm => hlater.name (h.known m (List.mem_append_right _ hm))]
      rw [hnames, List.count_append, h.init]
      simp [hne]
  | init hx hname hold => exact ⟨_, h.replace hx hname hold⟩

/-- **A class that gets its first function**, called `init`. -/
theorem start {init : SymbolId} (hinit : init < ctx.symbols.size)
    (hname : ctx.symbols.name init = initName) (hopened : scope < ctx.scopes.size)
    (hkind : ctx.scopes.kind scope = .classBody owner)
    (hunbound : ∀ name, ctx.scopes.lookupLocal? scope name = none)
    (hlisted : ctx.symbols.class? owner = some entry) (hfields : entry.fields = [])
    (hfunctions : entry.functions = []) :
    MembersAgree { ctx with
      scopes := ctx.scopes.bind scope initName init
      symbols := ctx.symbols.pushFunction owner init } owner scope
      { entry with functions := [init] } := by
  have hlater := SymbolTable.later_pushFunction ctx.symbols owner init
  have hlisted' : (ctx.symbols.pushFunction owner init).class? owner =
      some { entry with functions := [init] } := by
    rw [SymbolTable.pushFunction, class?_modifyClass _ owner _ hlisted, hfunctions]
    rfl
  have hname' : (ctx.symbols.pushFunction owner init).name init = initName :=
    (hlater.name hinit).trans hname
  constructor
  · simpa using hopened
  · simpa using hkind
  · exact hlisted'
  · rw [hfields]
    intro m hm
    obtain rfl : m = init := by simpa using hm
    exact Nat.lt_of_lt_of_le hinit hlater.size_le
  · intro name
    rw [ScopeTree.lookupLocal?_bind_same ctx.scopes init hopened (hunbound _), hunbound,
      SymbolTable.ownMember?_eq hlisted', hfields]
    by_cases hcalled : name = initName
    · simp [hcalled, hname']
    · simp [hcalled, hname', Ne.symm hcalled]
  · simp [hfields]
  · simp [hname']

end MembersAgree

end

/-! ## Members -/

/-- A field gets its symbol, and enters the class if its name is free. -/
theorem FieldDecl.always_declareInClass (field : FieldDecl) (owner : SymbolId) (scope : ScopeId) :
    Always (field.declareInClass owner scope) fun ctx _ ctx' =>
      ∃ mid, Fills [] [field.id] [] ctx mid ∧ Enters owner scope mid ctx' := by
  have hadd : ∀ ty, Always (field.add ty owner) fun ctx id ctx' =>
      Fills [] [field.id] [] ctx ctx' ∧ id < ctx'.symbols.size ∧
        ctx'.symbols.name id = field.name.name := by
    intro ty ctx
    have hfills : Filling [] [field.id] [] (field.add ty owner) :=
      FieldDecl.filling_add (List.mem_singleton_self _) ty owner
    refine ⟨hfills ctx, ?_, ?_⟩
    · exact Nat.lt_of_lt_of_eq (Nat.lt_succ_self _) (SymbolTable.size_add ..).symm
    · exact congrArg (fun s => (s.map Symbol.name).getD "") (SymbolTable.get?_add_size ..)
  have hty : Filling [] [field.id] [] (field.ty.resolveStorage scope "field") :=
    field.ty.filling_resolveStorage scope "field"
  refine (Always.bind hty fun ty => (hadd ty).bind fun id =>
    always_defineThen scope field.name.name id field.name.span fun symbols =>
      symbols.pushField owner id).mono ?_
  rintro ctx _ ctx' ⟨ty, ctx₁, hfills₁, id, ctx₂, ⟨hfills₂, hid, hname⟩, henters⟩
  refine ⟨ctx₂, hfills₁.trans hfills₂, ?_⟩
  rcases henters with ⟨-, hsymbols, hscopes, hbindings⟩ | ⟨hfree, rfl⟩
  · exact .left hsymbols hscopes hbindings
  · exact .field hid hname hfree

/-- An `init` enters the class if it may replace the one that was there. -/
theorem FunctionDecl.always_bindInit (method : FunctionDecl) (id owner : SymbolId) (scope : ScopeId)
    (classPlace : Span) :
    Always (method.bindInit id owner scope classPlace) fun ctx _ ctx' =>
      id < ctx.symbols.size → ctx.symbols.name id = initName → Enters owner scope ctx ctx' := by
  intro ctx hid hname
  rw [run_bindInit]
  cases hold : ctx.scopes.lookupLocal? scope initName with
  | none => exact .left rfl rfl rfl
  | some old =>
      dsimp only
      split
      · have henters : Enters owner scope ctx _ := .init hid hname hold
        have happly : (Deed.rebind scope initName id).apply ctx =
            { ctx with scopes := ctx.scopes.rebound scope initName old id } := by
          simp [Deed.apply, ScopeTree.rebind?_eq hold]
        rw [StateT.run_bind]
        change Enters owner scope ctx { (Deed.rebind scope initName id).apply ctx with
          symbols := ((Deed.rebind scope initName id).apply ctx).symbols.replaceFunction owner
            old id }
        rw [happly]
        exact henters
      · exact .left rfl rfl rfl

/-- A function that has its signature enters the class if its name is free. -/
theorem FunctionDecl.always_enterClass (method : FunctionDecl) (id owner : SymbolId)
    (scope : ScopeId) (classPlace : Span) :
    Always (if method.name.name = initName then method.bindInit id owner scope classPlace
      else do
        if ← Analysis.define scope method.name.name id method.name.span then
          Analysis.modifySymbols fun symbols => symbols.pushFunction owner id) fun ctx _ ctx' =>
      id < ctx.symbols.size → ctx.symbols.name id = method.name.name →
        Enters owner scope ctx ctx' := by
  split
  · next hcalled =>
      rw [hcalled]
      exact method.always_bindInit id owner scope classPlace
  · refine (always_defineThen scope method.name.name id method.name.span _).mono ?_
    rintro ctx _ ctx' henters hid hname
    rcases henters with ⟨-, hsymbols, hscopes, hbindings⟩ | ⟨hfree, rfl⟩
    · exact .left hsymbols hscopes hbindings
    · exact .function hid hname hfree

/-- A function gets its symbol and its signature, and enters the class if it may. -/
theorem FunctionDecl.always_declareInClass (method : FunctionDecl) (decl : ClassDecl)
    (owner : SymbolId) (scope : ScopeId) :
    Always (method.declareInClass decl owner scope) fun ctx _ ctx' => ctx.Unopened method.nodes →
      ∃ mid, Fills [] method.nodes [] ctx mid ∧ Enters owner scope mid ctx' := by
  let entry := FunctionEntry.memberOf decl.name.name owner method.name.name
    (some method.name.span) {}
  have hparams : ∀ param ∈ method.params, param.id ∈ method.nodes := fun param hparam =>
    List.mem_cons_of_mem _ (List.mem_append_left _ (List.mem_map_of_mem hparam))
  have hsign : ∀ id inner, Filling [id] method.nodes [inner]
      (method.resolveSignature id inner (some owner)) := fun id inner =>
    method.filling_resolveSignature (some owner) (List.mem_singleton_self id)
      (List.mem_singleton_self inner) hparams
  refine ((always_addSymbol (.function entry)).bind fun id => (always_bindSymbol method.id id).bind
    fun _ => (always_scopeFor method.id scope (.function id)).bind fun inner =>
    Always.bind (hsign id inner) fun _ =>
    method.always_enterClass id owner scope decl.name.span).mono ?_
  rintro ctx _ ctx' ⟨_, _, ⟨rfl, rfl⟩, _, _, rfl, inner, ctx₁, hscope, _, ctx₂, hsigns, henters⟩
    hunopened
  obtain ⟨rfl, rfl⟩ := hscope (hunopened method.id (List.mem_cons_self ..))
  -- The symbol and the scope of the function are new.
  have hfills : Fills [ctx.symbols.size] method.nodes [ctx.scopes.size] ctx ctx₂ :=
    (Fills.add (s := .function entry) nofun).trans
      ((Fills.bindSymbol (List.mem_cons_self ..) ctx.symbols.size).trans
        ((Fills.openScope (List.mem_cons_self ..) scope (.function ctx.symbols.size)).trans hsigns))
  have hlt : ctx.symbols.size < (ctx.symbols.add (.function entry)).size := by simp
  have hname : (ctx.symbols.add (.function entry)).name ctx.symbols.size = method.name.name := by
    simp [SymbolTable.name, entry, Symbol.name, FunctionEntry.memberOf]
  refine ⟨ctx₂, hfills.mono ?_ (fun _ h => h) ?_, henters ?_ ?_⟩
  · intro x hx hxlt
    exact absurd hxlt (by simp [List.mem_singleton.1 hx])
  · intro s hs hslt
    exact absurd hslt (by simp [List.mem_singleton.1 hs])
  · exact Nat.lt_of_lt_of_le hlt hsigns.later.size_le
  · exact (hsigns.later.name hlt).trans hname

/-- **A member that is declared** enters its class, or is left out. -/
theorem ClassMember.always_declare (member : ClassMember) (decl : ClassDecl) (owner : SymbolId)
    (scope : ScopeId) :
    Always (member.declare decl owner scope) fun ctx _ ctx' => ctx.Unopened member.nodes →
      ∃ mid, Fills [] member.nodes [] ctx mid ∧ Enters owner scope mid ctx' := by
  cases member with
  | field f => exact (f.always_declareInClass owner scope).mono fun _ _ _ h _ => h
  | method f => exact f.always_declareInClass decl owner scope

/-- Members one after the other. -/
theorem ClassMember.always_declareAll (decl : ClassDecl) (owner : SymbolId) (scope : ScopeId)
    {members : List ClassMember} (hnodes : (ClassMember.nodesOf members).Nodup) :
    Always (members.forM fun member => member.declare decl owner scope) fun ctx _ ctx' =>
      ∀ entry, MembersAgree ctx owner scope entry → ctx.Unopened (ClassMember.nodesOf members) →
        Fills [owner] (ClassMember.nodesOf members) [scope] ctx ctx' ∧
          ∃ entry', MembersAgree ctx' owner scope entry' := by
  induction members with
  | nil => exact fun ctx entry h _ => ⟨.refl _ _ _ _, entry, h⟩
  | cons member rest ih =>
      have hparts : (member.nodes ++ ClassMember.nodesOf rest).Nodup := hnodes
      obtain ⟨-, hrest, hapart⟩ := List.nodup_append.1 hparts
      refine ((member.always_declare decl owner scope).bind fun _ => ih hrest).mono ?_
      rintro ctx _ ctx' ⟨_, ctx₁, hmember, hall⟩ entry h hunopened
      obtain ⟨mid, hfills, henters⟩ := hmember fun n hn =>
        hunopened n (List.mem_append_left (ClassMember.nodesOf rest) hn)
      have hfills₁ : Fills [owner] member.nodes [scope] ctx ctx₁ :=
        (hfills.mono (by simp) (fun _ h => h) (by simp)).trans
          (henters.fills.mono (fun _ h _ => h) (by simp) fun _ h _ => h)
      obtain ⟨entry₁, h₁⟩ := (h.keep hfills (by simp) (by simp)).enters henters
      have hunopened₁ : ctx₁.Unopened (ClassMember.nodesOf rest) := by
        refine Context.Unopened.fills (fun n hn => ?_) hfills₁ fun n hn hmem =>
          hapart n hmem n hn rfl
        exact hunopened n (List.mem_append_right member.nodes hn)
      obtain ⟨hfills', h'⟩ := hall entry₁ h₁ hunopened₁
      refine ⟨(hfills₁.mono (fun _ h _ => h) ?_ fun _ h _ => h).trans
        (hfills'.mono (fun _ h _ => h) ?_ fun _ h _ => h), h'⟩
      · exact List.subset_append_left member.nodes _
      · exact List.subset_append_right member.nodes _

/-! ## Classes -/

namespace ClassDecl

/-- The first step of declaring a class: its scope is opened, and it gets its `init` and the
members `first`.  The result is the class and its scope, if the class has a symbol. -/
def declareFirst (decl : ClassDecl) (first : List ClassMember) :
    Analysis (Option (SymbolId × ScopeId)) := do
  match ← symbolOf? decl.id with
  | none => return none
  | some id =>
    let scope ← scopeFor decl.id ScopeTree.root (.classBody id)
    decl.installInit id scope
    first.forM fun member => member.declare decl id scope
    return some (id, scope)

/-- What is left of declaring a class behind its first members. -/
def declareRest (decl : ClassDecl) (rest : List ClassMember) :
    Option (SymbolId × ScopeId) → Analysis Unit
  | none => return ()
  | some (id, scope) => rest.forM fun member => member.declare decl id scope

/-- A class can be declared in two steps, wherever its members are divided. -/
theorem declareMembers_eq {decl : ClassDecl} {first rest : List ClassMember}
    (h : decl.members = first ++ rest) :
    decl.declareMembers = decl.declareFirst first >>= decl.declareRest rest := by
  unfold declareMembers declareFirst
  rw [bind_assoc]
  congr 1
  funext symbol
  cases symbol with
  | none => rfl
  | some id => simp [h, declareRest]

/-- A class that nothing is known of but its name, and perhaps its parent. -/
structure Waits (ctx : Context) (decl : ClassDecl) : Prop where
  unopened : ctx.Unopened (Item.classDecl decl).nodes
  empty : ∀ id, ctx.bindings.symbol? decl.id = some id →
    ∃ entry, ctx.symbols.class? id = some entry ∧ entry.fields = [] ∧ entry.functions = []

/-- A class has its symbol and its scope, and its records agree. -/
def Agrees (ctx : Context) (decl : ClassDecl) (id : SymbolId) : Prop :=
  ctx.bindings.symbol? decl.id = some id ∧ ∃ scope entry,
    ctx.bindings.scope? decl.id = some scope ∧ MembersAgree ctx id scope entry

/-- The `init` that every class starts with is both bound and listed. -/
theorem always_installInit (decl : ClassDecl) (id : SymbolId) (scope : ScopeId) :
    Always (decl.installInit id scope) fun ctx _ ctx' => ∀ entry, scope < ctx.scopes.size →
      ctx.scopes.kind scope = .classBody id → (∀ name, ctx.scopes.lookupLocal? scope name = none) →
      ctx.symbols.class? id = some entry → entry.fields = [] → entry.functions = [] →
      Fills [id] [] [scope] ctx ctx' ∧ ∃ entry', MembersAgree ctx' id scope entry' := by
  let init : FunctionEntry :=
    { FunctionEntry.memberOf decl.name.name id initName none { implicit := true } with
      returnType := .void, resolved := true }
  refine ((always_addSymbol (.function init)).bind fun f =>
    always_defineThen scope initName f decl.name.span fun symbols =>
      symbols.pushFunction id f).mono ?_
  rintro ctx _ ctx' ⟨_, _, ⟨rfl, rfl⟩, hdefine⟩ entry hopened hkind hunbound hlisted hfields
    hfunctions
  rcases hdefine with ⟨htaken, -⟩ | ⟨hfree, rfl⟩
  · exact absurd (hunbound initName) htaken
  · let added : Context := { ctx with symbols := ctx.symbols.add (.function init) }
    have hadd : Fills [] [] [] ctx added := .add (s := .function init) nofun
    have hlt : ctx.symbols.size < added.symbols.size := by simp [added]
    have hname : added.symbols.name ctx.symbols.size = initName := by
      simp [added, SymbolTable.name, init, Symbol.name, FunctionEntry.memberOf]
    have hlisted' : added.symbols.class? id = some entry := SymbolTable.class?_add_of_some hlisted
    have henters : Enters id scope added _ := .function hlt hname hfree
    exact ⟨(hadd.mono (by simp) (fun _ h => h) (by simp)).trans henters.fills, _,
      MembersAgree.start hlt hname hopened hkind hunbound hlisted' hfields hfunctions⟩

/-- **A class that is declared**, up to some member: its records agree, and only its own entry and
nodes have changed. -/
theorem always_declareFirst (decl : ClassDecl) {first rest : List ClassMember}
    (hmembers : decl.members = first ++ rest) (hnodes : (Item.classDecl decl).nodes.Nodup) :
    Always (decl.declareFirst first) fun ctx _ ctx' => decl.Waits ctx → ∀ changed,
      (∀ id, ctx.bindings.symbol? decl.id = some id → id ∈ changed) →
      Fills changed (Item.classDecl decl).nodes [] ctx ctx' ∧
        ∀ id, ctx.bindings.symbol? decl.id = some id → decl.Agrees ctx' id := by
  obtain ⟨hid, hnodup⟩ := List.nodup_cons.1 hnodes
  have hsplit : decl.members.flatMap ClassMember.nodes =
      ClassMember.nodesOf first ++ ClassMember.nodesOf rest := by
    rw [hmembers, List.flatMap_append]
    rfl
  rw [hsplit] at hid hnodup
  intro ctx hwaits changed hchanged
  cases hsymbol : ctx.bindings.symbol? decl.id with
  | none =>
      have hrun : ((decl.declareFirst first).run ctx).2 = ctx := by
        simp [declareFirst, symbolOf?, hsymbol]
        rfl
      rw [hrun]
      exact ⟨.refl _ _ _ _, fun id hid => by cases hid⟩
  | some id =>
      obtain ⟨entry, hlisted, hfields, hfunctions⟩ := hwaits.empty id hsymbol
      have hrun : ((decl.declareFirst first).run ctx).2 = ((do
          let scope ← scopeFor decl.id ScopeTree.root (.classBody id)
          decl.installInit id scope
          first.forM fun member => member.declare decl id scope : Analysis Unit).run ctx).2 := by
        simp [declareFirst, symbolOf?, hsymbol]
        rfl
      rw [hrun]
      obtain ⟨scope, opened, hscope, _, started, hinit, hall⟩ :=
        (always_scopeFor decl.id ScopeTree.root (.classBody id)).bind (fun scope =>
          (decl.always_installInit id scope).bind fun _ =>
            ClassMember.always_declareAll decl id scope (List.nodup_append.1 hnodup).1) ctx
      obtain ⟨rfl, rfl⟩ := hscope (hwaits.unopened decl.id (List.mem_cons_self ..))
      have hopen : Fills [id] (Item.classDecl decl).nodes [ctx.scopes.size] ctx { ctx with
          scopes := ctx.scopes.push ScopeTree.root (.classBody id)
          bindings := ctx.bindings.bindScope decl.id ctx.scopes.size } :=
        Fills.openScope (List.mem_cons_self ..) ScopeTree.root (.classBody id)
      obtain ⟨hfills₁, entry₁, hagree₁⟩ := hinit entry (by simp) (by simp [ScopeTree.kind_push])
        (by simp [ScopeTree.lookupLocal?_push]) hlisted hfields hfunctions
      have hfills₂ := hopen.trans (hfills₁.mono (fun _ h _ => h) (by simp) fun _ h _ => h)
      have hunopened : started.Unopened (ClassMember.nodesOf first) := by
        intro n hn
        have hne : n ≠ decl.id := by
          rintro rfl
          exact hid (List.mem_append_left _ hn)
        rw [hfills₁.confined.scope? n (by simp), Bindings.scope?_bindScope, if_neg hne]
        exact hwaits.unopened n (List.mem_cons_of_mem _ (hsplit ▸ List.mem_append_left _ hn))
      obtain ⟨hfills₃, entry', hagree⟩ := hall entry₁ hagree₁ hunopened
      have hfills := hfills₂.trans (hfills₃.mono (fun _ h _ => h) (fun n hn =>
        List.mem_cons_of_mem _ (hsplit ▸ List.mem_append_left _ hn)) fun _ h _ => h)
      refine ⟨hfills.mono ?_ (fun _ h => h) ?_, ?_⟩
      · intro x hx _
        rw [List.mem_singleton.1 hx]
        exact hchanged id hsymbol
      · intro s hs hlt
        exact absurd hlt (by simp [List.mem_singleton.1 hs])
      · -- The class has kept its symbol and its scope.
        rintro _ ⟨⟩
        have hnot : decl.id ∉ ClassMember.nodesOf first := fun hmem =>
          hid (List.mem_append_left _ hmem)
        refine ⟨?_, ctx.scopes.size, entry', ?_, hagree⟩
        · rw [hfills₃.confined.symbol? _ hnot, hfills₁.confined.symbol? _ (by simp)]
          exact hsymbol
        · rw [hfills₃.confined.scope? _ hnot, hfills₁.confined.scope? _ (by simp),
            Bindings.scope?_bindScope, if_pos rfl]

end ClassDecl

end ClassLang
