import ClassLang.Proofs.Resolve.Members

/-!
# Members of structs and classes

Reading the members of a record fills its entry and leaves other records alone.  Behind a
class, its functions are those that it declares and, if it declares no `init`, the one that
every class starts with (`HasFunctions`).
-/

namespace ClassLang

open Analysis

/-! ## Fields -/

/-- A field symbol that was just added belongs to its record and is not listed yet. -/
theorem Context.Growing.addField {ctx : Context} {pending : List SymbolId}
    (h : ctx.Growing pending) {entry : FieldEntry} (hty : entry.ty.Storable ctx.symbols)
    (hoffset : entry.offset = none) :
    ({ ctx with
      symbols := (ctx.symbols.add (.field entry)).pushField entry.owner ctx.symbols.size } :
      Context).Growing pending := by
  have hadd : ({ ctx with symbols := ctx.symbols.add (.field entry) } : Context).Growing pending :=
    h.add (hty.later (SymbolTable.later_add _ _))
      (by obtain ⟨_, _, _, _, _⟩ := entry; simp_all [Symbol.bare]) nofun
  refine hadd.pushField ⟨entry, ?_, rfl⟩ ?_
  · simp [SymbolTable.field?, Symbol.field?]
  · -- The fields that are listed have smaller numbers.
    intro s hs
    have hlisted : ∀ f, ctx.symbols.FieldOf f entry.owner → f ≠ ctx.symbols.size :=
      fun f hf => Nat.ne_of_lt hf.lt_size
    rw [SymbolTable.get?_add] at hs
    split at hs
    · cases hs
      simp
    · have hok := h.ok.table _ s hs
      cases s with
      | classEntry e => exact fun hmem => hlisted _ (hok.2.1 _ hmem) rfl
      | structEntry e => exact fun hmem => hlisted _ (hok.2 _ hmem) rfl
      | _ => simp

/-- One more field fills the entry of its owner only. -/
theorem fills_pushField (ctx : Context) (nodes : List NodeId) (touched : List ScopeId)
    (owner field : SymbolId) :
    Fills [owner] nodes touched ctx
      { ctx with symbols := ctx.symbols.pushField owner field } := by
  refine Fills.modify (List.mem_singleton_self _) (SymbolTable.later_pushField _ _ _) fun s _ => ?_
  cases s <;> rfl

/-- What stands under the number of a struct that gets a field. -/
theorem struct?_pushField (t : SymbolTable) (owner field : SymbolId) {entry : StructEntry}
    (h : t.struct? owner = some entry) :
    (t.pushField owner field).struct? owner =
      some { entry with fields := entry.fields ++ [field] } := by
  have hs := SymbolTable.struct?_eq_some_iff.1 h
  simp [SymbolTable.pushField, SymbolTable.struct?, SymbolTable.get?_modify, hs, Symbol.struct?]

/-- What reading a field of a struct does: the struct has one field more. -/
def DeclaresField (owner : SymbolId) (field : FieldDecl) (ctx ctx' : Context) : Prop :=
  ∀ pending (done : List FieldDecl), ctx.Growing pending → HasFields ctx done owner →
    (∀ f ∈ done, f.id ≠ field.id) →
    ctx'.Growing pending ∧ Fills [owner] [field.id] [] ctx ctx' ∧
      HasFields ctx' (done ++ [field]) owner

/-- A field of a struct is listed in its entry. -/
theorem FieldDecl.does_declareInStruct (field : FieldDecl) (owner : SymbolId) :
    Does (field.declareInStruct owner) fun ctx _ ctx' => DeclaresField owner field ctx ctx' := by
  refine ((TypeExpr.does_resolveStorage field.ty ScopeTree.root "field").bind
    (S := fun ty ctx _ ctx' => (ctx.Ok → ty.Storable ctx.symbols) →
      DeclaresField owner field ctx ctx')
    fun ty => ?_).mono ?_
  · refine does_read fun before => ?_
    split
    · exact (does_report _).never
    · next hfree =>
        refine ((((does_addSymbol _).bind fun id => (does_bindSymbol field.id id).bind fun _ =>
          does_pure id)).bind fun id => does_modifySymbols _).mono ?_
        rintro ctx _ ctx' ⟨_, _, ⟨_, _, ⟨rfl, rfl⟩, _, _, rfl, rfl, rfl⟩, rfl⟩ rfl hty pending done
          hgrowing hfields hapart
        let entry : FieldEntry := ⟨field.name.name, field.name.span, ty, owner, none⟩
        let added : Context := { before with
          symbols := before.symbols.add (.field entry)
          bindings := before.bindings.bindSymbol field.id before.symbols.size }
        let pushed : Context :=
          { added with symbols := added.symbols.pushField owner before.symbols.size }
        have hpush : Fills [owner] [field.id] [] added pushed :=
          fills_pushField added [field.id] [] owner before.symbols.size
        have hfills : Fills [owner] [field.id] [] before pushed :=
          (Fills.add (s := .field entry) fun h => h).trans
            ((Fills.bindSymbol (List.mem_singleton_self _) _).trans hpush)
        have hentry : added.symbols.field? before.symbols.size = some entry := by
          simp [added, SymbolTable.field?, Symbol.field?]
        obtain ⟨entry', hentry', hname, -, howner⟩ := hpush.later.field? hentry
        have hbound : pushed.bindings.symbol? field.id = some before.symbols.size := by
          simp [pushed, added, Bindings.symbol?_bindSymbol]
        have hkept : ∀ f ∈ done, pushed.bindings.symbol? f.id = before.bindings.symbol? f.id :=
          fun f hf => hfills.confined.symbol? _ (by simpa using hapart f hf)
        have hstorable : entry.ty.Storable before.symbols := hty hgrowing.ok
        have hgrowing' : pushed.Growing pending := (hgrowing.addField hstorable rfl).bindings _
        obtain ⟨e, he, hlist, hnodup⟩ := hfields.listed
        have he' : pushed.symbols.struct? owner =
            some { e with fields := e.fields ++ [before.symbols.size] } := by
          refine struct?_pushField _ owner _ ?_
          rw [SymbolTable.struct?_add,
            if_neg (Nat.ne_of_lt (SymbolTable.lt_size_of_get?
              (SymbolTable.struct?_eq_some_iff.1 he)))]
          exact he
        refine ⟨hgrowing', hfills, ⟨fun f hf => ?_, _, he', ?_, ?_⟩⟩
        · rcases List.mem_append.1 hf with hf | hf
          · exact (hfields.bound f hf).keep hfills.later (hkept f hf)
          · rw [List.mem_singleton.1 hf]
            exact ⟨before.symbols.size, entry', hbound, hentry', hname, howner⟩
        · rw [List.map_append, List.map_append, hlist, List.map_singleton, List.map_singleton,
            hbound, List.map_congr_left hkept]
        · -- The name was free when the field was read.
          have hnames : e.fields.map pushed.symbols.name = e.fields.map before.symbols.name :=
            List.map_congr_left fun f hf =>
              hfills.later.name (hgrowing.ok.table.field_lt_size he hf)
          have hnew : pushed.symbols.name before.symbols.size = field.name.name :=
            (SymbolTable.name_of_field? hentry').trans hname
          rw [List.map_append, hnames, List.map_singleton, hnew, List.nodup_append]
          refine ⟨hnodup, by simp, fun a ha b hb heq => ?_⟩
          obtain ⟨f, hf, rfl⟩ := List.mem_map.1 ha
          rw [List.mem_singleton] at hb
          have hnone : e.fields.find? (fun f => before.symbols.name f == field.name.name) =
              none := by
            simpa [SymbolTable.structField?, he] using hfree
          simpa [heq, hb] using List.find?_eq_none.1 hnone f hf
  · rintro _ _ ctx' ⟨ty, ctx, ⟨rfl, hty⟩, hrest⟩
    exact hrest hty

/-- The fields of a struct. -/
theorem StructDecl.does_declareFields (decl : StructDecl)
    (hnodes : (decl.fields.map FieldDecl.id).Nodup) :
    Does decl.declareFields fun ctx _ ctx' => ∀ pending id entry, ctx.Growing pending →
      ctx.bindings.symbol? decl.id = some id → ctx.symbols.struct? id = some entry →
      entry.fields = [] →
      ctx'.Growing pending ∧ Fills [id] (decl.fields.map FieldDecl.id) [] ctx ctx' ∧
        HasFields ctx' decl.fields id := by
  refine ((does_symbolOf? decl.id).bind (S := fun symbol ctx _ ctx' =>
    ∀ pending id entry, ctx.Growing pending → symbol = some id →
      ctx.symbols.struct? id = some entry → entry.fields = [] → ctx'.Growing pending ∧
      Fills [id] (decl.fields.map FieldDecl.id) [] ctx ctx' ∧ HasFields ctx' decl.fields id)
    fun symbol => ?_).mono ?_
  · split
    · refine (does_pure _).mono ?_
      rintro ctx _ ctx' ⟨-, rfl⟩ pending id entry - hnone
      cases hnone
    · next id =>
        have hloop : ∀ i : Context × List SymbolId, Does
            (decl.fields.forM fun field => field.declareInStruct id) fun ctx _ ctx' =>
              (ctx.Growing i.2 ∧ Fills [id] (decl.fields.map FieldDecl.id) [] i.1 ctx ∧
                HasFields ctx [] id) →
              (ctx'.Growing i.2 ∧ Fills [id] (decl.fields.map FieldDecl.id) [] i.1 ctx' ∧
                HasFields ctx' decl.fields id) := by
          rintro ⟨start, pending⟩
          refine does_forM (I := fun (done : List FieldDecl) ctx => ctx.Growing pending ∧
            Fills [id] (decl.fields.map FieldDecl.id) [] start ctx ∧ HasFields ctx done id)
            fun done f rest hall => ?_
          refine (f.does_declareInStruct id).mono ?_
          rintro ctx _ ctx' h ⟨hgrowing, hfills, hfields⟩
          have hapart : ∀ other ∈ done, other.id ≠ f.id := by
            rw [hall, List.map_append, List.nodup_append] at hnodes
            exact fun other hother => hnodes.2.2 _ (List.mem_map_of_mem hother) f.id (by simp)
          obtain ⟨hgrowing', hfills', hfields'⟩ := h pending done hgrowing hfields hapart
          refine ⟨hgrowing', hfills.trans (hfills'.mono (fun _ h _ => h) ?_ fun _ h _ => h),
            hfields'⟩
          simp [hall]
        refine (Does.forall (ι := Context × List SymbolId) hloop).mono ?_
        rintro ctx _ ctx' h pending _ entry hgrowing ⟨⟩ hentry hempty
        exact h ⟨ctx, pending⟩ ⟨hgrowing, .refl _ _ _ _, by simp, entry, hentry, by simp [hempty],
          by simp [hempty]⟩
  · rintro _ _ ctx' ⟨symbol, ctx, ⟨rfl, rfl⟩, hrest⟩ pending id entry hgrowing hid
    exact hrest pending id entry hgrowing hid

/-! ## Names that are bound anew -/

/-- Rebinding a name in a scope changes that name only. -/
theorem Scope.get?_rebind (scope : Scope) (name other : String) (old new : SymbolId) :
    (scope.rebind name old new).get? other =
      if other = name then (scope.get? name).map fun _ => new else scope.get? other := by
  simp only [Scope.get?, Scope.rebind]
  induction scope.names with
  | nil => simp
  | cons binding rest ih =>
      obtain ⟨n, id⟩ := binding
      by_cases hn : n = name
      · by_cases hother : other = name
        · simp [hn, hother]
        · have hne : (other == name) = false := by simpa using hother
          simpa [hn, hother, hne, List.lookup_cons] using ih
      · by_cases hother : other = name
        · subst hother
          have hne : (other == n) = false := by simpa using Ne.symm hn
          simpa [hn, hne, List.lookup_cons] using ih
        · by_cases hsame : other = n
          · simp [hn, hsame]
          · have hne : (other == n) = false := by simpa using hsame
            simpa [hn, hother, hne, List.lookup_cons] using ih

namespace ScopeTree

variable {tree : ScopeTree} {scope : ScopeId} {name : String} {old new : SymbolId}

/-- The tree in which a name of a scope stands for something else. -/
def rebound (tree : ScopeTree) (scope : ScopeId) (name : String) (old new : SymbolId) :
    ScopeTree :=
  ⟨tree.scopes.modify scope fun s => s.rebind name old new⟩

/-- Rebinding answers with the old symbol and the tree behind it. -/
theorem rebind?_eq (h : tree.lookupLocal? scope name = some old) :
    tree.rebind? scope name new = some (old, tree.rebound scope name old new) := by
  simp [rebind?, h, rebound]

/-- Rebinding changes one scope only. -/
theorem get?_rebound (tree : ScopeTree) (scope : ScopeId) (name : String) (old new : SymbolId)
    (id : ScopeId) : (tree.rebound scope name old new).get? id =
      if scope = id then (tree.get? id).map fun s => s.rebind name old new else tree.get? id := by
  simp only [get?, rebound, List.getElem?_modify]
  split <;> simp

/-- Rebinding changes one name of one scope. -/
theorem lookupLocal?_rebound (h : tree.lookupLocal? scope name = some old) (id : ScopeId)
    (other : String) : (tree.rebound scope name old new).lookupLocal? id other =
      if id = scope ∧ other = name then some new else tree.lookupLocal? id other := by
  simp only [lookupLocal?, get?_rebound] at h ⊢
  by_cases hid : id = scope
  · subst hid
    obtain ⟨s, hs, hold⟩ := Option.bind_eq_some_iff.1 h
    by_cases hother : other = name
    · simp [hs, Scope.get?_rebind, hother, hold]
    · simp [hs, Scope.get?_rebind, hother]
  · simp [hid, Ne.symm hid]

@[simp] theorem parent?_rebound (tree : ScopeTree) (scope : ScopeId) (name : String)
    (old new : SymbolId) (id : ScopeId) :
    (tree.rebound scope name old new).parent? id = tree.parent? id := by
  simp only [parent?, get?_rebound]
  split
  · cases tree.get? id <;> rfl
  · rfl

@[simp] theorem kind_rebound (tree : ScopeTree) (scope : ScopeId) (name : String)
    (old new : SymbolId) (id : ScopeId) :
    (tree.rebound scope name old new).kind id = tree.kind id := by
  simp only [kind, get?_rebound]
  split
  · cases tree.get? id <;> rfl
  · rfl

@[simp] theorem size_rebound (tree : ScopeTree) (scope : ScopeId) (name : String)
    (old new : SymbolId) : (tree.rebound scope name old new).size = tree.size := by
  simp [size, rebound]

end ScopeTree

/-- Rebinding a name fills no entry and attaches nothing. -/
theorem Fills.rebind {changed : List SymbolId} {nodes : List NodeId} {touched : List ScopeId}
    {ctx : Context} {scope : ScopeId} (hscope : scope ∈ touched) (name : String)
    (old new : SymbolId) :
    Fills changed nodes touched ctx
      { ctx with scopes := ctx.scopes.rebound scope name old new } := by
  refine Fills.ofConfined ⟨fun _ _ => rfl, fun _ _ => rfl, fun _ _ => rfl, ?_, fun id _ hid => ?_,
    fun id _ => ?_, fun id _ => ?_⟩ rfl
  · simp
  · have hne : scope ≠ id := fun heq => hid (heq ▸ hscope)
    simp [ScopeTree.get?_rebound, hne]
  · simp
  · simp

/-- Rebinding inside a class leaves a growing table growing. -/
theorem Context.Growing.rebind {ctx : Context} {pending : List SymbolId} {scope : ScopeId}
    {name : String} {old new : SymbolId} (h : ctx.Growing pending)
    (hold : ctx.scopes.lookupLocal? scope name = some old) (hnew : new < ctx.symbols.size)
    (hinside : ScopeTree.root < scope) :
    ({ ctx with scopes := ctx.scopes.rebound scope name old new } : Context).Growing pending := by
  refine ⟨⟨h.ok.table, ?_, ?_, ?_⟩, h.unlaid, h.pending, by simpa using h.opened,
    by simpa using h.kind⟩
  · intro id parent hparent
    rw [ScopeTree.parent?_rebound] at hparent
    exact h.ok.tree id parent hparent
  · intro s other id hname
    simp only [ScopeTree.lookupLocal?_rebound hold] at hname
    split at hname
    · cases hname
      exact hnew
    · exact h.ok.bound s other id hname
  · intro other id hname
    simp only [ScopeTree.lookupLocal?_rebound hold] at hname
    rw [if_neg fun hand => Nat.ne_of_lt hinside hand.1] at hname
    exact h.ok.root other id hname

/-! ## Classes -/

/-- The numbers of the nodes of members. -/
def ClassMember.nodesOf (members : List ClassMember) : List NodeId :=
  members.flatMap ClassMember.nodes

/-- The nodes of a method are among those of the members. -/
theorem ClassMember.mem_nodesOf {members : List ClassMember} {m : FunctionDecl}
    (hm : m ∈ ClassMember.methodsOf members) {n : NodeId} (hn : n ∈ m.nodes) :
    n ∈ ClassMember.nodesOf members := by
  obtain ⟨member, hmember, hsome⟩ := List.mem_filterMap.1 hm
  cases member <;> simp only [reduceCtorEq, Option.some.injEq] at hsome
  subst hsome
  exact List.mem_flatMap.2 ⟨_, hmember, hn⟩

/-- A field adds no method. -/
theorem ClassMember.methodsOf_append_field (members : List ClassMember) (f : FieldDecl) :
    ClassMember.methodsOf (members ++ [.field f]) = ClassMember.methodsOf members := by
  simp [ClassMember.methodsOf]

/-- A method comes behind the earlier ones. -/
theorem ClassMember.methodsOf_append_method (members : List ClassMember) (m : FunctionDecl) :
    ClassMember.methodsOf (members ++ [.method m]) = ClassMember.methodsOf members ++ [m] := by
  simp [ClassMember.methodsOf]

/-- The nodes of a member are among those of the members. -/
theorem ClassMember.nodes_subset {members : List ClassMember} {member : ClassMember}
    (hmember : member ∈ members) : member.nodes ⊆ ClassMember.nodesOf members :=
  fun _ hn => List.mem_flatMap.2 ⟨member, hmember, hn⟩

/-- The nodes of methods are apart from others where those of the members are. -/
theorem ClassMember.nodes_method {members : List ClassMember} {nodes : List NodeId}
    (h : ∀ m ∈ members, ∀ n ∈ m.nodes, n ∉ nodes) :
    ∀ m ∈ ClassMember.methodsOf members, ∀ n ∈ m.nodes, n ∉ nodes := by
  intro m hm n hn
  obtain ⟨member, hmember, hn'⟩ := List.mem_flatMap.1 (ClassMember.mem_nodesOf hm hn)
  exact h member hmember n hn'

/-- The functions of a class: those that it declares, for which `P` holds, and perhaps one
that it did not write.  Each declaration has a symbol of its own. -/
def HasFunctions (P : FunctionDecl → Option SymbolId → SymbolId → Prop) (ctx : Context)
    (methods : List FunctionDecl) (owner : SymbolId) : Prop :=
  ∃ entry, ctx.symbols.class? owner = some entry ∧
    (∀ g ∈ entry.functions, (∃ m ∈ methods, ctx.bindings.symbol? m.id = some g) ∨
      ∃ e, ctx.symbols.function? g = some e ∧ e.resolved = true ∧ e.returnType = .void ∧
        e.arguments = []) ∧
    (∀ m ∈ methods, ∀ m' ∈ methods, ctx.bindings.symbol? m.id = ctx.bindings.symbol? m'.id →
      m = m') ∧
    ∀ m ∈ methods, ∃ g ∈ entry.functions, P m (some owner) g

/-- All functions of a class have their signatures. -/
abbrev ClassReady (ctx : Context) (methods : List FunctionDecl) (owner : SymbolId) : Prop :=
  HasFunctions (IsPrepared ctx) ctx methods owner

/-- A prepared function is attached to its declaration. -/
theorem IsPrepared.symbol? {ctx : Context} {decl : FunctionDecl} {owner : Option SymbolId}
    {id : SymbolId} (h : IsPrepared ctx decl owner id) :
    ctx.bindings.symbol? decl.id = some id := by
  obtain ⟨scope, view, entry, hprepared, -⟩ := h
  exact hprepared.symbol?

section

variable {ctx ctx' : Context} {methods : List FunctionDecl} {owner : SymbolId}
  {nodes : List NodeId} {touched : List ScopeId}

/-- What happens elsewhere does not matter to a class. -/
theorem HasFunctions.keep (h : ClassReady ctx methods owner) (htree : ctx.scopes.Descends)
    (hconfined : Confined nodes touched ctx ctx') (hlater : ctx.symbols.Later ctx'.symbols)
    (htouched : ∀ s ∈ touched, ∃ c, ctx.scopes.kind s = .classBody c)
    (hdisjoint : ∀ m ∈ methods, ∀ n ∈ m.nodes, n ∉ nodes)
    (hfunctions : ∀ entry, ctx.symbols.class? owner = some entry →
      ∃ entry', ctx'.symbols.class? owner = some entry' ∧ entry'.functions = entry.functions) :
    ClassReady ctx' methods owner := by
  obtain ⟨entry, hentry, hlisted, hapart, hprepared⟩ := h
  obtain ⟨entry', hentry', hsame⟩ := hfunctions entry hentry
  have hbound : ∀ m ∈ methods, ctx'.bindings.symbol? m.id = ctx.bindings.symbol? m.id :=
    fun m hm => hconfined.symbol? _ (hdisjoint m hm _ (List.mem_cons_self ..))
  refine ⟨entry', hentry', fun g hg => ?_, fun m hm m' hm' heq => ?_, fun m hm => ?_⟩
  · rcases hlisted g (hsame ▸ hg) with ⟨m, hm, hsymbol⟩ | ⟨e, he, hresolved, hvoid⟩
    · exact .inl ⟨m, hm, (hbound m hm).trans hsymbol⟩
    · exact .inr ⟨e, hlater.resolved he hresolved, hresolved, hvoid⟩
  · rw [hbound m hm, hbound m' hm'] at heq
    exact hapart m hm m' hm' heq
  · obtain ⟨g, hg, hprep⟩ := hprepared m hm
    exact ⟨g, hsame ▸ hg, hprep.confined htree hconfined hlater htouched (hdisjoint m hm)⟩

/-- A class gets one more function, which may take the place of one that was not written. -/
theorem HasFunctions.extend (h : ClassReady ctx methods owner) {m : FunctionDecl} {g : SymbolId}
    (hm : IsPrepared ctx m (some owner) g) (htree : ctx.scopes.Descends)
    (hconfined : Confined [] touched ctx ctx') (hlater : ctx.symbols.Later ctx'.symbols)
    (htouched : ∀ s ∈ touched, ∃ c, ctx.scopes.kind s = .classBody c) {entry entry' : ClassEntry}
    (hentry : ctx.symbols.class? owner = some entry)
    (hentry' : ctx'.symbols.class? owner = some entry') (hfresh : g ∉ entry.functions)
    (hnew : g ∈ entry'.functions)
    (hold : ∀ x ∈ entry'.functions, x = g ∨ x ∈ entry.functions)
    (hkept : ∀ x ∈ entry.functions, (∀ e, ctx.symbols.function? x = some e →
      e.traits.implicit = false) → x ∈ entry'.functions) :
    ClassReady ctx' (methods ++ [m]) owner := by
  obtain ⟨entry₀, hentry₀, hlisted, hapart, hprepared⟩ := h
  cases hentry₀.symm.trans hentry
  have hkeep : ∀ m g, IsPrepared ctx m (some owner) g → IsPrepared ctx' m (some owner) g :=
    fun m g hprep => hprep.confined htree hconfined hlater htouched (by simp)
  have hbound : ∀ m : FunctionDecl, ctx'.bindings.symbol? m.id = ctx.bindings.symbol? m.id :=
    fun m => hconfined.symbol? _ (by simp)
  have hother : ∀ m' ∈ methods, ctx.bindings.symbol? m'.id ≠ ctx.bindings.symbol? m.id := by
    intro m' hm' heq
    obtain ⟨g', hg', hprep⟩ := hprepared m' hm'
    rw [hprep.symbol?, hm.symbol?] at heq
    cases heq
    exact hfresh hg'
  refine ⟨entry', hentry', fun x hx => ?_, fun a ha b hb heq => ?_, fun m' hm' => ?_⟩
  · rcases hold x hx with rfl | hx
    · exact .inl ⟨m, by simp, (hkeep m x hm).symbol?⟩
    · rcases hlisted x hx with ⟨m', hm', hsymbol⟩ | ⟨e, he, hresolved, hvoid⟩
      · exact .inl ⟨m', by simp [hm'], (hbound m').trans hsymbol⟩
      · exact .inr ⟨e, hlater.resolved he hresolved, hresolved, hvoid⟩
  · rw [hbound, hbound] at heq
    rcases List.mem_append.1 ha with ha | ha <;> rcases List.mem_append.1 hb with hb | hb
    · exact hapart a ha b hb heq
    · rw [List.mem_singleton.1 hb] at heq
      exact absurd heq (hother a ha)
    · rw [List.mem_singleton.1 ha] at heq
      exact absurd heq.symm (hother b hb)
    · rw [List.mem_singleton.1 ha, List.mem_singleton.1 hb]
  · rcases List.mem_append.1 hm' with hm' | hm'
    · obtain ⟨g', hg', hprep⟩ := hprepared m' hm'
      refine ⟨g', hkept g' hg' fun e he => ?_, hkeep m' g' hprep⟩
      obtain ⟨_, _, e', hprep', -⟩ := hprep
      cases he.symm.trans hprep'.function?
      exact hprep'.written
    · rw [List.mem_singleton.1 hm']
      exact ⟨g, hnew, hkeep m g hm⟩

end

/-- What holds while the members of a class are read, after some of them. -/
structure ClassBody (owner : SymbolId) (scope : ScopeId) (pending : List SymbolId)
    (members : List ClassMember) (ctx : Context) : Prop where
  growing : ctx.Growing pending
  inside : ScopeTree.root < scope
  sees : ctx.Sees scope ⟨some owner, []⟩
  kind : ctx.scopes.kind scope = .classBody owner
  parent : ctx.scopes.parent? scope = some ScopeTree.root
  ready : ClassReady ctx (ClassMember.methodsOf members) owner
  names : NamesMembers ctx members owner scope
  /-- The name `init` always stands for a function of the class. -/
  init : ∃ f entry, ctx.scopes.lookupLocal? scope initName = some f ∧
    ctx.symbols.class? owner = some entry ∧ f ∈ entry.functions

section

variable {ctx : Context} {pending : List SymbolId} {owner : SymbolId} {scope : ScopeId}
  {members : List ClassMember}

/-- The owner of a body is a class. -/
theorem ClassBody.isClass (h : ClassBody owner scope pending members ctx) :
    (ctx.symbols.class? owner).isSome = true := by
  obtain ⟨entry, hentry, -⟩ := h.ready
  simp [hentry]

/-- Every member that the entry lists is in the table. -/
theorem ClassBody.known (h : ClassBody owner scope pending members ctx) {entry : ClassEntry}
    (hentry : ctx.symbols.class? owner = some entry) :
    ∀ m ∈ entry.fields ++ entry.functions, m < ctx.symbols.size :=
  fun _ => h.growing.ok.table.member_lt_size hentry

/-- The new field comes behind the other fields of its class. -/
theorem class?_pushField (ctx : Context) (owner field : SymbolId) {entry : ClassEntry}
    (h : ctx.symbols.class? owner = some entry) :
    (ctx.symbols.pushField owner field).class? owner =
      some { entry with fields := entry.fields ++ [field] } := by
  have hs := SymbolTable.class?_eq_some_iff.1 h
  simp [SymbolTable.pushField, SymbolTable.class?, SymbolTable.get?_modify, hs, Symbol.class?]

/-- A change of a class is made to its entry. -/
theorem class?_modifyClass (t : SymbolTable) (owner : SymbolId) (f : ClassEntry → ClassEntry)
    {entry : ClassEntry} (h : t.class? owner = some entry) :
    (t.modifyClass owner f).class? owner = some (f entry) := by
  have hs := SymbolTable.class?_eq_some_iff.1 h
  simp [SymbolTable.modifyClass, SymbolTable.class?, SymbolTable.get?_modify, hs, Symbol.class?]

/-- A change that keeps the parent fills the entry of one class. -/
theorem fills_modifyClass (ctx : Context) (nodes : List NodeId) (touched : List ScopeId)
    {owner : SymbolId} {f : ClassEntry → ClassEntry}
    (hlater : ctx.symbols.Later (ctx.symbols.modifyClass owner f))
    (hparent : ∀ e, (f e).parent = e.parent) :
    Fills [owner] nodes touched ctx
      { ctx with symbols := ctx.symbols.modifyClass owner f } := by
  refine Fills.modify (List.mem_singleton_self _) hlater fun s _ => ?_
  cases s with
  | classEntry e => simp [Symbol.class?, hparent]
  | _ => rfl

/-- The only scope that is touched is the body of the class. -/
theorem ClassBody.touched (h : ClassBody owner scope pending members ctx) :
    ∀ s ∈ [scope], ∃ c, ctx.scopes.kind s = .classBody c := by
  simpa using ⟨owner, h.kind⟩

/-- A name that is free is not `init`. -/
theorem ClassBody.ne_init_of_free (h : ClassBody owner scope pending members ctx) {name : String}
    (hfree : ctx.scopes.lookupLocal? scope name = none) : initName ≠ name := by
  rintro rfl
  obtain ⟨f, -, hf, -⟩ := h.init
  cases hf.symm.trans hfree

/-- The context behind the declaration of a field of a class. -/
def Context.declareField (ctx : Context) (node : NodeId) (scope : ScopeId) (entry : FieldEntry) :
    Context :=
  { ctx with
    symbols := (ctx.symbols.add (.field entry)).pushField entry.owner ctx.symbols.size
    scopes := ctx.scopes.bind scope entry.name ctx.symbols.size
    bindings := ctx.bindings.bindSymbol node ctx.symbols.size }

/-- A field of the class gets its name and is listed. -/
theorem ClassBody.declareField (h : ClassBody owner scope pending members ctx) {field : FieldDecl}
    {entry : FieldEntry} (hname : entry.name = field.name.name) (howner : entry.owner = owner)
    (hty : entry.ty.Storable ctx.symbols) (hoffset : entry.offset = none)
    (hfree : ctx.scopes.lookupLocal? scope entry.name = none)
    (hdisjoint : ∀ m ∈ members, ∀ n ∈ m.nodes, n ∉ [field.id]) :
    ClassBody owner scope pending (members ++ [.field field])
      (ctx.declareField field.id scope entry) ∧
      Fills [owner] [field.id] [scope] ctx (ctx.declareField field.id scope entry) := by
  subst howner
  have hlt : ctx.symbols.size < (ctx.declareField field.id scope entry).symbols.size := by
    simp [Context.declareField, SymbolTable.pushField]
  have hgrowing : (ctx.declareField field.id scope entry).Growing pending :=
    ((h.growing.addField hty hoffset).bindings _).bindName h.sees.opened hfree hlt h.inside
  have hfills : Fills [entry.owner] [field.id] [scope] ctx
      (ctx.declareField field.id scope entry) :=
    (Fills.add (s := .field entry) fun h => h).trans
      ((Fills.bindSymbol (List.mem_singleton_self _) _).trans
        ((Fills.bindName (List.mem_singleton_self _) _ _).trans (fills_pushField _ _ _ _ _)))
  obtain ⟨f, e, hf, he, hmem⟩ := h.init
  have hadd : (ctx.symbols.add (.field entry)).class? entry.owner = some e :=
    SymbolTable.class?_add_of_some he
  have he' : (ctx.declareField field.id scope entry).symbols.class? entry.owner =
      some { e with fields := e.fields ++ [ctx.symbols.size] } :=
    class?_pushField { ctx with symbols := ctx.symbols.add (.field entry) } entry.owner _ hadd
  have hfield : (ctx.symbols.add (.field entry)).field? ctx.symbols.size = some entry := by
    simp [SymbolTable.field?, Symbol.field?]
  obtain ⟨entry', hentry', hname', -⟩ := (SymbolTable.later_pushField
    (ctx.symbols.add (.field entry)) entry.owner ctx.symbols.size).field? hfield
  have hnamed : (ctx.declareField field.id scope entry).symbols.name ctx.symbols.size =
      entry.name :=
    (SymbolTable.name_of_field? hentry').trans hname'
  have hlookup := ScopeTree.lookupLocal?_bind_same ctx.scopes ctx.symbols.size h.sees.opened hfree
  refine ⟨⟨hgrowing, h.inside, ?_, ?_, ?_, ?_, ?_, f, _, ?_, he', hmem⟩, hfills⟩
  · exact h.sees.confined h.growing.ok.tree hfills.confined hfills.later fun s _ => h.touched s
  · simpa [Context.declareField] using h.kind
  · simpa [Context.declareField] using h.parent
  · rw [ClassMember.methodsOf_append_field]
    apply h.ready.keep h.growing.ok.tree hfills.confined hfills.later h.touched
      (ClassMember.nodes_method hdisjoint)
    intro e₁ he₁
    cases he.symm.trans he₁
    exact ⟨_, he', rfl⟩
  · have hmember : (ClassMember.field field).name.name = entry.name := hname.symm
    have hbound : (ctx.declareField field.id scope entry).bindings.symbol? field.id =
        some ctx.symbols.size :=
      (Bindings.symbol?_bindSymbol ..).trans (if_pos rfl)
    have hsymbols : ∀ m ∈ members, (ctx.declareField field.id scope entry).bindings.symbol? m.id =
        ctx.bindings.symbol? m.id :=
      fun m hm => hfills.confined.symbol? _ (hdisjoint m hm _ m.id_mem_nodes)
    obtain ⟨e₁, he₁, hlists⟩ := h.names.members.listed
    cases he.symm.trans he₁
    have hnew : entry.name ∉ (e.fields ++ e.functions).map ctx.symbols.name :=
      SymbolTable.not_mem_names he ((h.names.same _).trans hfree)
    have hlists' : ListsMembers (ctx.declareField field.id scope entry) (members ++ [.field field])
        { e with fields := e.fields ++ [ctx.symbols.size] } := by
      refine (hlists.keep h.growing.ok.table hfills.later he rfl rfl hsymbols).addField hbound ?_
        rfl rfl
      rw [hnamed, hfills.later.memberNames (h.known he)]
      exact hnew
    refine h.names.push hfills.later he' hlists' (fun name => ?_) (fun name => ?_) hsymbols hbound
      ⟨entry', hentry', hname'.trans hname⟩ (h.names.ne_of_free (hmember ▸ hfree))
    · rw [hfills.later.ownMember?_insert (h.known he) he he' rfl (List.append_assoc _ _ _), hnamed,
        hmember]
      rw [hnamed, h.names.same, hfree]
    · rw [hmember]
      exact hlookup name
  · exact (hlookup initName).trans (by rw [if_neg (h.ne_init_of_free hfree), hf])

/-- A field of a class is listed in its entry, and functions are left alone. -/
theorem FieldDecl.does_declareInClass (field : FieldDecl) (owner : SymbolId) (scope : ScopeId) :
    Does (field.declareInClass owner scope) fun ctx _ ctx' => ∀ pending members,
      ClassBody owner scope pending members ctx → (∀ m ∈ members, ∀ n ∈ m.nodes, n ∉ [field.id]) →
      ClassBody owner scope pending (members ++ [.field field]) ctx' ∧
        Fills [owner] [field.id] [scope] ctx ctx' := by
  refine ((TypeExpr.does_resolveStorage field.ty scope "field").bind fun ty =>
    ((does_addSymbol _).bind fun id => (does_bindSymbol field.id id).bind fun _ =>
      does_pure id).bind
      fun id => does_defineThen scope field.name.name id field.name.span _).mono ?_
  rintro _ _ ctx' ⟨ty, ctx, ⟨rfl, hty⟩, _, _, ⟨_, _, ⟨rfl, rfl⟩, _, _, rfl, rfl, rfl⟩, hfree, rfl⟩
    pending members h hdisjoint
  let entry : FieldEntry := ⟨field.name.name, field.name.span, ty, owner, none⟩
  have hname : entry.name = field.name.name := rfl
  exact h.declareField hname rfl (hty h.growing.ok) rfl hfree hdisjoint

/-- Steps that touch no class and no scope that was there. -/
theorem ClassBody.keep {ctx' : Context} {nodes : List NodeId} {pending' : List SymbolId}
    (h : ClassBody owner scope pending members ctx) (hfills : Fills [] nodes [] ctx ctx')
    (hgrowing : ctx'.Growing pending') (hdisjoint : ∀ m ∈ members, ∀ n ∈ m.nodes, n ∉ nodes) :
    ClassBody owner scope pending' members ctx' where
  growing := hgrowing
  inside := h.inside
  sees := h.sees.confined h.growing.ok.tree hfills.confined hfills.later (by simp)
  kind := (hfills.confined.kind scope h.sees.opened).trans h.kind
  parent := (hfills.confined.parent? scope h.sees.opened).trans h.parent
  ready := h.ready.keep h.growing.ok.tree hfills.confined hfills.later (by simp)
    (ClassMember.nodes_method hdisjoint)
    fun entry hentry => ⟨entry, (hfills.class? (by simp)).trans hentry, rfl⟩
  names := by
    obtain ⟨e, he⟩ := Option.isSome_iff_exists.1 h.isClass
    exact h.names.keep h.growing.ok.table hfills.later he ((hfills.class? (by simp)).trans he)
      rfl rfl (fun m hm => hfills.confined.symbol? _ (hdisjoint m hm _ m.id_mem_nodes))
      fun name => hfills.confined.lookupLocal? h.sees.opened (by simp) name
  init := by
    obtain ⟨f, entry, hf, hentry, hmem⟩ := h.init
    refine ⟨f, entry, ?_, (hfills.class? (by simp)).trans hentry, hmem⟩
    rw [hfills.confined.lookupLocal? h.sees.opened (by simp), hf]

/-- A function of the class gets its name and is listed. -/
theorem ClassBody.push {m : FunctionDecl} {g : SymbolId}
    (h : ClassBody owner scope pending members ctx) (hm : IsPrepared ctx m (some owner) g)
    (hname : ctx.symbols.name g = m.name.name)
    (hfresh : ∀ entry, ctx.symbols.class? owner = some entry → g ∉ entry.functions)
    (hfree : ctx.scopes.lookupLocal? scope m.name.name = none) :
    ClassBody owner scope pending (members ++ [.method m]) { ctx with
      scopes := ctx.scopes.bind scope m.name.name g
      symbols := ctx.symbols.pushFunction owner g } ∧
    Fills [owner] [] [scope] ctx { ctx with
      scopes := ctx.scopes.bind scope m.name.name g
      symbols := ctx.symbols.pushFunction owner g } := by
  have hlt : g < (ctx.symbols.pushFunction owner g).size := by
    simpa [SymbolTable.pushFunction, SymbolTable.modifyClass] using hm.lt_size
  have hlater := SymbolTable.later_pushFunction ctx.symbols owner g
  have hfills : Fills [owner] [] [scope] ctx { ctx with
      scopes := ctx.scopes.bind scope m.name.name g
      symbols := ctx.symbols.pushFunction owner g } :=
    (Fills.bindName (List.mem_singleton_self _) m.name.name g).trans
      (fills_modifyClass { ctx with scopes := ctx.scopes.bind scope m.name.name g } _ _ hlater
        fun _ => rfl)
  have hgrowing := (h.growing.modifyClass (h.growing.ok.table.pushFunction hm.functionOf) hlater
    fun _ => rfl).bindName h.sees.opened hfree hlt h.inside
  obtain ⟨f, entry, hf, hentry, hmem⟩ := h.init
  have hentry' : (ctx.symbols.pushFunction owner g).class? owner =
      some { entry with functions := entry.functions ++ [g] } :=
    class?_modifyClass _ owner _ hentry
  have hlookup := ScopeTree.lookupLocal?_bind_same ctx.scopes g h.sees.opened hfree
  have hname' := (hlater.name hm.lt_size).trans hname
  refine ⟨⟨hgrowing, h.inside, ?_, ?_, ?_, ?_, ?_, f, _, ?_, hentry', List.mem_append_left _ hmem⟩,
    hfills⟩
  · exact h.sees.confined h.growing.ok.tree hfills.confined hfills.later fun s _ => h.touched s
  · simpa using h.kind
  · simpa using h.parent
  · rw [ClassMember.methodsOf_append_method]
    refine h.ready.extend hm h.growing.ok.tree hfills.confined hfills.later h.touched hentry hentry'
      (hfresh entry hentry) (by simp) ?_ ?_
    · intro x hx
      exact (List.mem_append.1 hx).symm.imp_left List.mem_singleton.1
    · exact fun x hx _ => List.mem_append_left _ hx
  · obtain ⟨e₁, he₁, hlists⟩ := h.names.members.listed
    cases hentry.symm.trans he₁
    have hnew : m.name.name ∉ (entry.fields ++ entry.functions).map ctx.symbols.name :=
      SymbolTable.not_mem_names hentry ((h.names.same _).trans hfree)
    have hkept : ListsMembers { ctx with
        scopes := ctx.scopes.bind scope m.name.name g
        symbols := ctx.symbols.pushFunction owner g } members entry :=
      hlists.keep h.growing.ok.table hlater hentry rfl rfl fun _ _ => rfl
    rw [← hname', ← hlater.memberNames (h.known hentry)] at hnew
    refine h.names.push hlater hentry' (hkept.addFunction (h.ne_init_of_free hfree).symm hm.symbol?
      hnew rfl rfl) (fun name => ?_) (fun name => ?_) (fun _ _ => rfl)
      hm.symbol? (hm.stands.later hlater) (h.names.ne_of_free hfree)
    · rw [hlater.ownMember?_insert (h.known hentry) hentry hentry' (List.append_nil _).symm
        (List.append_assoc _ _ _).symm, hname']
      · rfl
      · rw [hname', h.names.same, hfree]
    · exact hlookup name
  · exact (hlookup initName).trans (by rw [if_neg (h.ne_init_of_free hfree), hf])

/-- What replaces an entry of a list is in the list. -/
theorem SymbolTable.mem_replaceFirst_new {old new : SymbolId} {ids : List SymbolId}
    (h : old ∈ ids) : new ∈ SymbolTable.replaceFirst old new ids := by
  induction ids with
  | nil => simp at h
  | cons id rest ih =>
      simp only [SymbolTable.replaceFirst]
      split
      · exact List.mem_cons_self ..
      · next hne =>
          refine List.mem_cons_of_mem _ (ih ?_)
          exact (List.mem_cons.1 h).resolve_left fun heq => hne heq.symm

/-- Every other entry of the list stays. -/
theorem SymbolTable.mem_replaceFirst_of_ne {old new id : SymbolId} {ids : List SymbolId}
    (h : id ∈ ids) (hne : id ≠ old) : id ∈ SymbolTable.replaceFirst old new ids := by
  induction ids with
  | nil => simp at h
  | cons other rest ih =>
      simp only [SymbolTable.replaceFirst]
      split
      · next heq =>
          refine List.mem_cons_of_mem _ ((List.mem_cons.1 h).resolve_left fun hsame => hne ?_)
          rw [hsame, heq]
      · rcases List.mem_cons.1 h with rfl | h
        · exact List.mem_cons_self ..
        · exact List.mem_cons_of_mem _ (ih h)

/-- A plain `init` takes the place of the one that the class started with. -/
theorem ClassBody.replace {m : FunctionDecl} {g old : SymbolId} {e : FunctionEntry}
    (h : ClassBody owner scope pending members ctx) (hm : IsPrepared ctx m (some owner) g)
    (hname : ctx.symbols.name g = m.name.name) (hcalled : m.name.name = initName)
    (hfresh : ∀ entry, ctx.symbols.class? owner = some entry → g ∉ entry.functions)
    (hold : ctx.scopes.lookupLocal? scope initName = some old)
    (he : ctx.symbols.function? old = some e) (himplicit : e.traits.implicit = true) :
    ClassBody owner scope pending (members ++ [.method m]) { ctx with
      scopes := ctx.scopes.rebound scope initName old g
      symbols := ctx.symbols.replaceFunction owner old g } ∧
    Fills [owner] [] [scope] ctx { ctx with
      scopes := ctx.scopes.rebound scope initName old g
      symbols := ctx.symbols.replaceFunction owner old g } := by
  have hlt : g < (ctx.symbols.replaceFunction owner old g).size := by
    simpa [SymbolTable.replaceFunction, SymbolTable.modifyClass] using hm.lt_size
  have hlater := SymbolTable.later_replaceFunction ctx.symbols owner old g
  have hfills : Fills [owner] [] [scope] ctx { ctx with
      scopes := ctx.scopes.rebound scope initName old g
      symbols := ctx.symbols.replaceFunction owner old g } :=
    (Fills.rebind (List.mem_singleton_self _) initName old g).trans
      (fills_modifyClass { ctx with scopes := ctx.scopes.rebound scope initName old g } _ _ hlater
        fun _ => rfl)
  have hgrowing := (h.growing.modifyClass (h.growing.ok.table.replaceFunction hm.functionOf) hlater
    fun _ => rfl).rebind hold hlt h.inside
  obtain ⟨f, entry, hf, hentry, hmem⟩ := h.init
  cases hold.symm.trans hf
  have hentry' : (ctx.symbols.replaceFunction owner old g).class? owner =
      some { entry with functions := SymbolTable.replaceFirst old g entry.functions } :=
    class?_modifyClass _ owner _ hentry
  have hnew : g ∈ SymbolTable.replaceFirst old g entry.functions :=
    SymbolTable.mem_replaceFirst_new hmem
  have hname' := (hlater.name hm.lt_size).trans hname
  refine ⟨⟨hgrowing, h.inside, ?_, ?_, ?_, ?_, ?_, g, _, ?_, hentry', hnew⟩, hfills⟩
  · exact h.sees.confined h.growing.ok.tree hfills.confined hfills.later fun s _ => h.touched s
  · simpa using h.kind
  · simpa using h.parent
  · rw [ClassMember.methodsOf_append_method]
    refine h.ready.extend hm h.growing.ok.tree hfills.confined hfills.later h.touched hentry hentry'
      (hfresh entry hentry) hnew (fun x hx => SymbolTable.mem_replaceFirst hx) ?_
    intro x hx hwritten
    refine SymbolTable.mem_replaceFirst_of_ne hx ?_
    rintro rfl
    simp [hwritten e he] at himplicit
  · obtain ⟨e₁, he₁, hlists⟩ := h.names.members.listed
    cases hentry.symm.trans he₁
    have hkept : ListsMembers { ctx with
        scopes := ctx.scopes.rebound scope initName old g
        symbols := ctx.symbols.replaceFunction owner old g } members entry :=
      hlists.keep h.growing.ok.table hlater hentry rfl rfl fun _ _ => rfl
    have hown : ctx.symbols.ownMember? owner initName = some old := (h.names.same _).trans hold
    rw [SymbolTable.ownMember?_eq hentry] at hown
    have holdName : (ctx.symbols.replaceFunction owner old g).name old = initName := by
      rw [hlater.name (h.growing.ok.table.member_lt_size hentry (List.mem_append_right _ hmem))]
      simpa using List.find?_some hown
    refine h.names.push hlater hentry' (hkept.replaceInit hcalled hm.symbol? (hname'.trans hcalled)
      hmem holdName (h.names.ne_init hold he himplicit) rfl rfl) (fun name => ?_)
        (fun name => ?_) (fun _ _ => rfl)
      hm.symbol? (hm.stands.later hlater) (hcalled ▸ h.names.ne_init hold he himplicit)
    · refine (hlater.ownMember?_replace (h.known hentry) hentry hentry' rfl rfl ?_ ?_
        (hname'.trans hname.symm) name).trans ?_
      · rw [hname', hcalled, h.names.same, hold]
      · exact h.growing.ok.table.not_mem_fields hentry he
      · rw [hname']
        rfl
    · simp only [ScopeTree.lookupLocal?_rebound hold, true_and]
      rw [← hcalled]
      rfl
  · simp only [ScopeTree.lookupLocal?_rebound hold, and_self, if_true]

/-- An `init` that is accepted replaces the one that was not written. -/
theorem FunctionDecl.does_bindInit (method : FunctionDecl) (id owner : SymbolId) (scope : ScopeId)
    (classPlace : Span) :
    Does (method.bindInit id owner scope classPlace) fun ctx _ ctx' => ∃ old e,
      ctx.scopes.lookupLocal? scope initName = some old ∧ ctx.symbols.function? old = some e ∧
      e.traits.implicit = true ∧ ctx' = { ctx with
        scopes := ctx.scopes.rebound scope initName old id
        symbols := ctx.symbols.replaceFunction owner old id } := by
  refine does_read fun before => ?_
  cases hold : before.scopes.lookupLocal? scope initName with
  | none => exact (does_report _).never
  | some old =>
      simp only [ScopeTree.rebind?_eq hold, Option.bind_some]
      split
      · next hplain =>
          refine ((does_modify (f := fun ctx => { ctx with
            scopes := before.scopes.rebound scope initName old id }) fun _ => rfl).bind fun _ =>
            does_modifySymbols _).mono ?_
          rintro ctx _ ctx' ⟨_, _, rfl, rfl⟩ rfl
          simp only [Bool.and_eq_true, Option.any_eq_true] at hplain
          obtain ⟨-, e, he, himplicit⟩ := hplain
          exact ⟨old, e, hold, he, himplicit, rfl⟩
      · exact (does_report _).never

/-- What declaring a member of a class of some name does. -/
def DeclaresMember (name : String) (owner : SymbolId) (scope : ScopeId) (member : ClassMember)
    (ctx ctx' : Context) : Prop :=
  ∀ pending (done : List ClassMember),
    (∃ entry, ctx.symbols.class? owner = some entry ∧ entry.name = name) →
    ClassBody owner scope pending done ctx →
    (∀ m ∈ done, ∀ n ∈ m.nodes, n ∉ member.nodes) →
    ctx.Unopened member.nodes →
    ClassBody owner scope pending (done ++ [member]) ctx' ∧
      Fills [owner] member.nodes [scope] ctx ctx'

/-- A function that has its signature gets its name and is listed. -/
theorem FunctionDecl.does_enterClass (method : FunctionDecl) (id owner : SymbolId) (scope : ScopeId)
    (classPlace : Span) :
    Does (if method.name.name = initName then method.bindInit id owner scope classPlace
      else do
        if ← Analysis.define scope method.name.name id method.name.span then
          Analysis.modifySymbols fun symbols => symbols.pushFunction owner id) fun ctx _ ctx' =>
      ∀ pending members, ClassBody owner scope pending members ctx →
        IsPrepared ctx method (some owner) id → ctx.symbols.name id = method.name.name →
        (∀ entry, ctx.symbols.class? owner = some entry → id ∉ entry.functions) →
        ClassBody owner scope pending (members ++ [.method method]) ctx' ∧
          Fills [owner] [] [scope] ctx ctx' := by
  split
  · next hcalled =>
      refine (method.does_bindInit id owner scope classPlace).mono ?_
      rintro ctx _ ctx' ⟨old, e, hold, he, himplicit, rfl⟩ pending members h hm hname hfresh
      exact h.replace hm hname hcalled hfresh hold he himplicit
  · refine (does_defineThen scope method.name.name id method.name.span _).mono ?_
    rintro ctx _ ctx' ⟨hfree, rfl⟩ pending members h hm hname hfresh
    exact h.push hm hname hfresh hfree

/-- A function of a class is listed, and it has its signature. -/
theorem FunctionDecl.does_declareInClass (method : FunctionDecl) (decl : ClassDecl)
    (owner : SymbolId) (scope : ScopeId) (hnodes : method.nodes.Nodup) :
    Does (method.declareInClass decl owner scope) fun ctx _ ctx' =>
      DeclaresMember decl.name.name owner scope (.method method) ctx ctx' := by
  let entry := FunctionEntry.memberOf decl.name.name owner method.name.name
    (some method.name.span) {}
  have hparams : (method.params.map Param.id).Nodup :=
    (List.nodup_append.1 (List.nodup_cons.1 hnodes).2).1
  refine ((does_addSymbol (.function entry)).bind fun id => (does_bindSymbol method.id id).bind
    fun _ => (does_scopeFor method.id scope (.function id)).bind fun inner =>
    (method.does_resolveSignature id inner (some owner) hparams).bind fun _ =>
    method.does_enterClass id owner scope decl.name.span).mono ?_
  rintro ctx _ ctx' ⟨_, _, ⟨rfl, rfl⟩, _, _, rfl, inner, ctx₂, hscope, _, ctx₃, hsigns, henter⟩
    pending done ⟨e, he, hcalled⟩ h hdisjoint hunopened
  rcases hscope with ⟨hsome, -⟩ | ⟨-, hinner, rfl⟩
  · have hnone := hunopened method.id (List.mem_cons_self ..)
    cases hnone.symm.trans hsome
  · -- The symbol of the function is new, so the class is as it was.
    have hok : (Symbol.function entry).Ok (ctx.symbols.add (.function entry)) ctx.symbols.size := by
      refine ⟨?_, nofun⟩
      rintro c ⟨⟩
      exact ⟨e, SymbolTable.class?_add_of_some he, by rw [hcalled]; rfl⟩
    have hfills₁ : Fills [] method.nodes [] ctx { ctx with
        symbols := ctx.symbols.add (.function entry)
        bindings := ctx.bindings.bindSymbol method.id ctx.symbols.size } :=
      (Fills.add (s := .function entry) nofun).trans
        (Fills.bindSymbol (List.mem_cons_self ..) ctx.symbols.size)
    have h₁ := h.keep hfills₁ ((h.growing.addFunction hok).bindings _) hdisjoint
    have hclass₁ : ∀ c ∈ some owner, ((ctx.symbols.add (.function entry)).class? c).isSome =
        true := by
      rintro c ⟨⟩
      exact h₁.isClass
    have hentry₁ : (ctx.symbols.add (.function entry)).function? ctx.symbols.size = some entry := by
      simp [SymbolTable.function?, Symbol.function?]
    obtain ⟨hgrowing₃, hfills₃, hprepared⟩ := hsigns.prepare hinner hnodes h₁.growing h₁.sees
      ⟨h₁.kind, h₁.parent⟩ hclass₁ (by simp [Bindings.symbol?_bindSymbol]) hunopened hentry₁ rfl
        rfl rfl
    have hfills : Fills [] method.nodes [] ctx ctx₃ :=
      ((hfills₁.mono (by simp) (fun _ h => h) fun _ h _ => h).trans hfills₃).mono
        (fun x hx hlt => absurd hlt (by simp [List.mem_singleton.1 hx])) (fun _ h => h)
        fun _ h _ => h
    have hfresh : ∀ e, ctx₃.symbols.class? owner = some e → ctx.symbols.size ∉ e.functions := by
      intro e he hmem
      rw [hfills.class? (by simp)] at he
      obtain ⟨f, hf, -⟩ := h.growing.ok.table.class_functions he hmem
      simp [SymbolTable.function?, SymbolTable.get?_eq_none (Nat.le_refl _)] at hf
    obtain ⟨entry₃, hentry₃, hcalled₃, -⟩ := hfills₃.later.function? hentry₁
    obtain ⟨hbody, hfills'⟩ := henter pending _ (h.keep hfills hgrowing₃ hdisjoint) hprepared
      ((SymbolTable.name_of_function? hentry₃).trans hcalled₃) hfresh
    refine ⟨hbody, ?_⟩
    exact (hfills.mono (by simp) (fun _ hn => hn) (by simp)).trans
      (hfills'.mono (fun _ h _ => h) (by simp) fun _ h _ => h)

/-- Declaring a member fills the entry of its class, whatever kind of member it is. -/
theorem ClassMember.does_declare (member : ClassMember) (decl : ClassDecl) (owner : SymbolId)
    (scope : ScopeId) (hnodes : member.nodes.Nodup) :
    Does (member.declare decl owner scope) fun ctx _ ctx' =>
      DeclaresMember decl.name.name owner scope member ctx ctx' := by
  cases member with
  | field f =>
      refine (f.does_declareInClass owner scope).mono ?_
      intro ctx _ ctx' h pending done _ hbody hdisjoint _
      exact h pending done hbody hdisjoint
  | method f => exact f.does_declareInClass decl owner scope hnodes

end

/-- A class whose body was opened, and of which nothing is known but its name. -/
structure ClassStart (name : String) (owner : SymbolId) (scope : ScopeId) (pending : List SymbolId)
    (ctx : Context) : Prop where
  growing : ctx.Growing pending
  inside : ScopeTree.root < scope
  sees : ctx.Sees scope ⟨some owner, []⟩
  kind : ctx.scopes.kind scope = .classBody owner
  parent : ctx.scopes.parent? scope = some ScopeTree.root
  unbound : ∀ name, ctx.scopes.lookupLocal? scope name = none
  empty : ∃ entry, ctx.symbols.class? owner = some entry ∧ entry.name = name ∧
    entry.functions = [] ∧ entry.fields = []

/-- The names of a class that has one function, called `init`. -/
theorem NamesMembers.start {ctx : Context} {owner f : SymbolId} {scope : ScopeId}
    {entry : ClassEntry}
    (hentry : ctx.symbols.class? owner = some entry) (hfunctions : entry.functions = [f])
    (hfields : entry.fields = []) (hname : ctx.symbols.name f = initName)
    (hscope : ∀ name, ctx.scopes.lookupLocal? scope name = if name = initName
    then some f else none) :
    NamesMembers ctx [] owner scope := by
  have hown : ∀ name, ctx.symbols.ownMember? owner name = ctx.scopes.lookupLocal? scope name := by
    intro name
    rw [SymbolTable.ownMember?_eq hentry, hfunctions, hfields, hscope]
    by_cases hinit : name = initName
    · simp [hname, hinit]
    · simp [hname, hinit, Ne.symm hinit]
  refine ⟨⟨⟨entry, hentry, .start hfunctions hfields hname⟩, by simp, fun name x hx => ?_⟩, hown⟩
  rw [hown, hscope] at hx
  split at hx
  · next hinit => exact .inr hinit
  · cases hx

/-- Every class starts with a function `init`, which it did not write. -/
theorem ClassDecl.does_installInit (decl : ClassDecl) (id : SymbolId) (scope : ScopeId) :
    Does (decl.installInit id scope) fun ctx _ ctx' => ∀ pending,
      ClassStart decl.name.name id scope pending ctx →
      ClassBody id scope pending [] ctx' ∧ Fills [id] [] [scope] ctx ctx' := by
  let init : FunctionEntry :=
    { FunctionEntry.memberOf decl.name.name id initName none { implicit := true } with
      returnType := .void, resolved := true }
  refine ((does_addSymbol (.function init)).bind fun f =>
    does_defineThen scope initName f decl.name.span fun symbols =>
      symbols.pushFunction id f).mono ?_
  rintro ctx _ ctx' ⟨_, _, ⟨rfl, rfl⟩, hfree, rfl⟩ pending h
  obtain ⟨entry, hentry, hcalled, hempty, hfields⟩ := h.empty
  have hok : (Symbol.function init).Ok (ctx.symbols.add (.function init)) ctx.symbols.size := by
    refine ⟨?_, fun _ => ⟨trivial, fun _ ha => by cases ha⟩⟩
    rintro c ⟨⟩
    exact ⟨entry, SymbolTable.class?_add_of_some hentry, by rw [hcalled]; rfl⟩
  have hinit : (ctx.symbols.add (.function init)).function? ctx.symbols.size = some init := by
    simp [SymbolTable.function?, Symbol.function?]
  have hgrowing := h.growing.add hok rfl fun e he => by cases he; rfl
  have hlater := SymbolTable.later_pushFunction
    (ctx.symbols.add (.function init)) id ctx.symbols.size
  have hlt : ctx.symbols.size <
      ((ctx.symbols.add (.function init)).pushFunction id ctx.symbols.size).size := by
    simp [SymbolTable.pushFunction, SymbolTable.modifyClass]
  have hgrowing' := (hgrowing.modifyClass (hgrowing.ok.table.pushFunction ⟨init, hinit, rfl⟩) hlater
    fun _ => rfl).bindName h.sees.opened hfree hlt h.inside
  have hfills : Fills [id] [] [scope] ctx { ctx with
      symbols := (ctx.symbols.add (.function init)).pushFunction id ctx.symbols.size
      scopes := ctx.scopes.bind scope initName ctx.symbols.size } :=
    (Fills.add (s := .function init) fun h => by cases h).trans
      ((Fills.bindName (List.mem_singleton_self _) initName ctx.symbols.size).trans
        (fills_modifyClass { ctx with
          symbols := ctx.symbols.add (.function init)
          scopes := ctx.scopes.bind scope initName ctx.symbols.size } _ _ hlater fun _ => rfl))
  have hentry' : ((ctx.symbols.add (.function init)).pushFunction id ctx.symbols.size).class? id =
      some { entry with functions := [ctx.symbols.size] } := by
    rw [SymbolTable.pushFunction, class?_modifyClass _ id _ (SymbolTable.class?_add_of_some hentry),
      hempty]
    rfl
  have hinit' := hlater.resolved hinit rfl
  have hlookup : ∀ name, (ctx.scopes.bind scope initName ctx.symbols.size).lookupLocal? scope name =
      if name = initName then some ctx.symbols.size else none := by
    intro name
    rw [ScopeTree.lookupLocal?_bind_same ctx.scopes _ h.sees.opened hfree, h.unbound]
  refine ⟨⟨hgrowing', h.inside, ?_, ?_, ?_, ⟨_, hentry', ?_, ?_, ?_⟩, ?_, ?_⟩, hfills⟩
  · refine h.sees.confined h.growing.ok.tree hfills.confined hfills.later fun s _ hs => ?_
    exact ⟨id, by rw [List.mem_singleton.1 hs, h.kind]⟩
  · simpa using h.kind
  · simpa using h.parent
  · intro g hg
    rw [List.mem_singleton.1 hg]
    exact .inr ⟨init, hinit', rfl, rfl, rfl⟩
  · simp [ClassMember.methodsOf]
  · simp [ClassMember.methodsOf]
  · exact NamesMembers.start hentry' rfl hfields (SymbolTable.name_of_function? hinit') hlookup
  · exact ⟨ctx.symbols.size, _, (hlookup initName).trans (if_pos rfl), hentry',
      List.mem_singleton_self _⟩

/-- The members of a class, one after the other. -/
theorem ClassDecl.does_declareEach (decl : ClassDecl) (id : SymbolId) (scope : ScopeId)
    (hnodes : (decl.members.flatMap ClassMember.nodes).Nodup) :
    Does (decl.members.forM fun member => member.declare decl id scope) fun ctx _ ctx' =>
      ∀ pending entry, ctx.symbols.class? id = some entry → entry.name = decl.name.name →
        ClassBody id scope pending [] ctx →
        ctx.Unopened (decl.members.flatMap ClassMember.nodes) →
        ClassBody id scope pending decl.members ctx' ∧
          Fills [id] (decl.members.flatMap ClassMember.nodes) [scope] ctx ctx' := by
  have hloop : ∀ i : Context × List SymbolId, Does
      (decl.members.forM fun member => member.declare decl id scope) fun ctx _ ctx' =>
      (ClassBody id scope i.2 [] ctx ∧
        Fills [id] (ClassMember.nodesOf []) [scope] i.1 ctx) →
      (∃ entry, i.1.symbols.class? id = some entry ∧ entry.name = decl.name.name) →
      i.1.Unopened (ClassMember.nodesOf decl.members) →
      ClassBody id scope i.2 decl.members ctx' ∧
        Fills [id] (ClassMember.nodesOf decl.members) [scope] i.1 ctx' := by
    rintro ⟨start, pending⟩
    refine (does_forM (I := fun done ctx =>
      (∃ entry, start.symbols.class? id = some entry ∧ entry.name = decl.name.name) →
      start.Unopened (ClassMember.nodesOf decl.members) →
      ClassBody id scope pending done ctx ∧
        Fills [id] (ClassMember.nodesOf done) [scope] start ctx)
      fun done member rest hall => ?_).mono ?_
    · have hparts : (ClassMember.nodesOf done ++
          (member.nodes ++ ClassMember.nodesOf rest)).Nodup := by
        simpa [hall, ClassMember.nodesOf] using hnodes
      obtain ⟨-, hrest, hapart⟩ := List.nodup_append.1 hparts
      refine (member.does_declare decl id scope (List.nodup_append.1 hrest).1).mono ?_
      rintro ctx _ ctx' h hdone ⟨entry, hentry, hcalled⟩ hunopened
      obtain ⟨hbody, hfills⟩ := hdone ⟨entry, hentry, hcalled⟩ hunopened
      obtain ⟨entry', hentry', hname', -⟩ := hfills.later.class? hentry
      have hfresh : ∀ n ∈ member.nodes, n ∉ ClassMember.nodesOf done := fun n hn hmem =>
        hapart n hmem n (List.mem_append_left _ hn) rfl
      obtain ⟨hbody', hfills'⟩ := h pending done ⟨entry', hentry', hname'.trans hcalled⟩ hbody
        (fun m hm n hn hmem => hfresh n hmem (ClassMember.nodes_subset hm hn)) fun n hn => by
          refine (hfills.confined.scope? n (hfresh n hn)).trans (hunopened n ?_)
          simp only [hall, ClassMember.nodesOf, List.flatMap_append, List.flatMap_cons]
          exact List.mem_append_right _ (List.mem_append_left _ hn)
      refine ⟨hbody', (hfills.mono (fun _ h _ => h) ?_ fun _ h _ => h).trans
        (hfills'.mono (fun _ h _ => h) ?_ fun _ h _ => h)⟩
      · simp [ClassMember.nodesOf]
      · simp [ClassMember.nodesOf]
    · rintro ctx _ ctx' h hstart hcalled hunopened
      exact h (fun _ _ => hstart) hcalled hunopened
  refine (Does.forall (ι := Context × List SymbolId) hloop).mono ?_
  rintro ctx _ ctx' h pending entry hentry hcalled hbody hunopened
  exact h ⟨ctx, pending⟩ ⟨hbody, .refl _ _ _ _⟩ ⟨entry, hentry, hcalled⟩ hunopened

/-- **A class whose members are declared** has all its functions, and other records are as
they were. -/
theorem ClassDecl.does_declareMembers (decl : ClassDecl)
    (hnodes : (Item.classDecl decl).nodes.Nodup) :
    Does decl.declareMembers fun ctx _ ctx' => ∀ pending id entry, ctx.Growing pending →
      ctx.bindings.symbol? decl.id = some id → ctx.symbols.class? id = some entry →
      entry.name = decl.name.name → entry.functions = [] → entry.fields = [] →
      ctx.Unopened (Item.classDecl decl).nodes →
      ctx'.Growing pending ∧ Fills [id] (Item.classDecl decl).nodes [] ctx ctx' ∧
        ctx'.bindings.symbol? decl.id = some id ∧ ClassReady ctx' decl.methods id ∧
          HasMembers ctx' decl.members id := by
  obtain ⟨hid, hmembers⟩ := List.nodup_cons.1 hnodes
  refine ((does_symbolOf? decl.id).bind (S := fun symbol ctx _ ctx' =>
    ∀ pending id entry, ctx.Growing pending → symbol = some id →
      ctx.bindings.symbol? decl.id = some id → ctx.symbols.class? id = some entry →
      entry.name = decl.name.name → entry.functions = [] → entry.fields = [] →
      ctx.Unopened (Item.classDecl decl).nodes →
      ctx'.Growing pending ∧ Fills [id] (Item.classDecl decl).nodes [] ctx ctx' ∧
        ctx'.bindings.symbol? decl.id = some id ∧ ClassReady ctx' decl.methods id ∧
          HasMembers ctx' decl.members id)
    fun symbol => ?_).mono ?_
  · split
    · refine (does_pure _).mono ?_
      rintro ctx _ ctx' ⟨-, rfl⟩ pending id entry - hnone
      cases hnone
    · next id =>
        refine ((does_scopeFor decl.id ScopeTree.root (.classBody id)).bind fun scope =>
          (decl.does_installInit id scope).bind fun _ =>
          decl.does_declareEach id scope hmembers).mono ?_
        rintro ctx _ ctx' ⟨scope, ctx₁, hscope, _, ctx₂, hinit, hrest⟩ pending _ entry hgrowing ⟨⟩
          hsymbol hentry hcalled hempty hfields hunopened
        rcases hscope with ⟨hsome, -⟩ | ⟨-, rfl, rfl⟩
        · cases (hunopened decl.id (List.mem_cons_self ..)).symm.trans hsome
        · have hkind : ∀ c, ScopeKind.classBody id = .classBody c → some id = some c := by
            rintro c ⟨⟩
            rfl
          have hsees := (hgrowing.sees_root (some id)).push hgrowing.ok.tree hkind
          have hopen : Fills [id] (Item.classDecl decl).nodes [ctx.scopes.size] ctx { ctx with
              scopes := ctx.scopes.push ScopeTree.root (.classBody id)
              bindings := ctx.bindings.bindScope decl.id ctx.scopes.size } :=
            Fills.openScope (List.mem_cons_self ..) ScopeTree.root (.classBody id)
          obtain ⟨hbody₂, hfills₂⟩ := hinit pending
            { growing := (hgrowing.push hgrowing.opened _).bindings _
              inside := hgrowing.opened
              sees := ⟨hsees.opened, hsees.shows⟩
              kind := by simp [ScopeTree.kind_push]
              parent := by simp [ScopeTree.parent?_push]
              unbound := by simp [ScopeTree.lookupLocal?_push]
              empty := ⟨entry, hentry, hcalled, hempty, hfields⟩ }
          obtain ⟨entry₂, hentry₂, hname₂, -⟩ := hfills₂.later.class? hentry
          have hunopened₂ : ctx₂.Unopened (decl.members.flatMap ClassMember.nodes) := by
            intro n hn
            have hne : n ≠ decl.id := by
              rintro rfl
              exact hid hn
            rw [hfills₂.confined.scope? n (by simp), Bindings.scope?_bindScope, if_neg hne]
            exact hunopened n (List.mem_cons_of_mem _ hn)
          obtain ⟨hbody', hfills'⟩ :=
            hrest pending entry₂ hentry₂ (hname₂.trans hcalled) hbody₂ hunopened₂
          have hfills := hopen.trans ((hfills₂.mono (fun _ h _ => h) (by simp) fun _ h _ => h).trans
            (hfills'.mono (fun _ h _ => h) (fun n hn => List.mem_cons_of_mem _ hn) fun _ h _ => h))
          refine ⟨hbody'.growing, hfills.mono (fun _ h _ => h) (fun _ h => h) fun s hs hlt => ?_,
            ?_, hbody'.ready, hbody'.names.members⟩
          · exact absurd hlt (by simp [List.mem_singleton.1 hs])
          · exact (hfills'.confined.symbol? _ hid).trans
              ((hfills₂.confined.symbol? _ (by simp)).trans hsymbol)
  · rintro _ _ ctx' ⟨symbol, ctx, ⟨rfl, rfl⟩, hrest⟩ pending id entry hgrowing hsymbol
    exact hrest pending id entry hgrowing hsymbol hsymbol

end ClassLang
