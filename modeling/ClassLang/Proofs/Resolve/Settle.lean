import Mathlib.Data.List.Basic
import ClassLang.Proofs.Resolve.Class

/-!
# All declarations of a script

Structs, classes and functions are filled in one after the other, each item once.  What
was known about an item that is still to come is known when its turn comes, and what an
item got stays.  In the end everything that the bodies of functions rely on is settled
(`Script.does_resolveDeclarations`).
-/

namespace ClassLang

open Analysis

namespace Item

/-- Reads what stands inside an item, apart from the bodies of its functions. -/
def fill : Item → Analysis Unit
  | .structDecl decl => decl.declareFields
  | .classDecl decl => decl.declareMembers
  | .function decl => decl.declareFree

/-- What is known about an item that has been filled in, where `P` holds for its functions. -/
def Holds (P : FunctionDecl → Option SymbolId → SymbolId → Prop) (item : Item) (ctx : Context)
    (id : SymbolId) : Prop :=
  ctx.bindings.symbol? item.id = some id ∧
    match item with
    | .classDecl decl =>
      (∃ entry, ctx.symbols.class? id = some entry ∧ entry.name = decl.name.name ∧
        entry.external = false) ∧ HasFunctions P ctx decl.methods id
    | .structDecl decl => ∃ entry, ctx.symbols.struct? id = some entry ∧
        entry.name = decl.name.name
    | .function decl => P decl none id ∧
        ∃ entry, ctx.symbols.function? id = some entry ∧ entry.linkName = decl.name.name

/-- All functions of an item have their signatures. -/
abbrev Filled (item : Item) (ctx : Context) (id : SymbolId) : Prop :=
  item.Holds (IsPrepared ctx) ctx id

/-- The members inside a record have their symbols. -/
def Members (ctx : Context) (id : SymbolId) : Item → Prop
  | .classDecl decl => HasMembers ctx decl.members id
  | .structDecl decl => HasFields ctx decl.fields id
  | .function _ => True

/-- The numbers of the nodes of the members of a record. -/
def memberIds : Item → List NodeId
  | .classDecl decl => decl.members.map ClassMember.id
  | .structDecl decl => decl.fields.map FieldDecl.id
  | .function _ => []

theorem memberIds_subset (item : Item) : item.memberIds ⊆ item.nodes := by
  intro n hn
  cases item with
  | classDecl decl =>
      obtain ⟨member, hmember, rfl⟩ := List.mem_map.1 hn
      exact List.mem_cons_of_mem _ (List.mem_flatMap.2 ⟨member, hmember, member.id_mem_nodes⟩)
  | structDecl decl => exact List.mem_cons_of_mem _ hn
  | function decl => cases hn

/-- The functions that wait for their signature until an item is filled in. -/
def waiting (ctx : Context) : Item → Option SymbolId
  | .function decl => ctx.bindings.symbol? decl.id
  | _ => none

end Item

/-- The signature of a function outside classes. -/
theorem FunctionDecl.does_declareFree (decl : FunctionDecl) (hnodes : decl.nodes.Nodup) :
    Does decl.declareFree fun ctx _ ctx' => ∀ pending id entry, ctx.Growing (id :: pending) →
      ctx.bindings.symbol? decl.id = some id → ctx.Unopened decl.nodes →
      ctx.symbols.function? id = some entry → entry.resolved = false → entry.owner = none →
      entry.traits.implicit = false →
      ctx'.Growing pending ∧ Fills [id] decl.nodes [] ctx ctx' ∧ IsPrepared ctx' decl none id := by
  refine ((does_symbolOf? decl.id).bind (S := fun symbol ctx _ ctx' =>
    ∀ pending id entry, symbol = some id → ctx.Growing (id :: pending) →
      ctx.bindings.symbol? decl.id = some id → ctx.Unopened decl.nodes →
      ctx.symbols.function? id = some entry → entry.resolved = false → entry.owner = none →
      entry.traits.implicit = false →
      ctx'.Growing pending ∧ Fills [id] decl.nodes [] ctx ctx' ∧ IsPrepared ctx' decl none id)
    fun symbol => ?_).mono ?_
  · split
    · refine (does_pure _).mono ?_
      rintro ctx _ ctx' ⟨-, rfl⟩ pending id entry hnone
      cases hnone
    · next id =>
        refine ((does_scopeFor decl.id ScopeTree.root (.function id)).bind fun scope =>
          decl.does_resolveSignature id scope none
            (List.nodup_append.1 (List.nodup_cons.1 hnodes).2).1).mono ?_
        rintro ctx _ ctx' ⟨scope, ctx₁, hscope, hsigns⟩ pending _ entry ⟨⟩ hgrowing hsymbol
          hunopened hentry hopen howner hwritten
        rcases hscope with ⟨hsome, -⟩ | ⟨-, hscope, rfl⟩
        · cases (hunopened decl.id (List.mem_cons_self ..)).symm.trans hsome
        · exact hsigns.prepare hscope hnodes hgrowing (hgrowing.sees_root none) rfl
            (by simp) hsymbol
            hunopened hentry hopen howner hwritten
  · rintro _ _ ctx' ⟨symbol, ctx, ⟨rfl, rfl⟩, hrest⟩ pending id entry hgrowing hsymbol
    exact hrest pending id entry hsymbol hgrowing hsymbol

/-- **Filling in an item** changes its own entry only. -/
theorem Item.does_fill (item : Item) (hnodes : item.nodes.Nodup) :
    Does item.fill fun ctx _ ctx' => ∀ pending id s,
      ctx.Growing ((item.waiting ctx).toList ++ pending) →
      ctx.bindings.symbol? item.id = some id → ctx.symbols.get? id = some s → item.Outlines s →
      ctx.Unopened item.nodes →
      ctx'.Growing pending ∧ Fills [id] item.nodes [] ctx ctx' ∧ item.Filled ctx' id ∧
        item.Members ctx' id := by
  cases item with
  | classDecl decl =>
      refine (decl.does_declareMembers hnodes).mono ?_
      rintro ctx _ ctx' h pending id s hgrowing hid hs houtlines hunopened
      cases s <;> simp only [Item.Outlines] at houtlines
      next entry =>
        obtain ⟨hname, hexternal, hempty, hfields⟩ := houtlines
        have hentry : ctx.symbols.class? id = some entry := by
          simp [SymbolTable.class?, hs, Symbol.class?]
        obtain ⟨hgrowing', hfills, hsymbol, hready, hmembers⟩ :=
          h pending id entry hgrowing hid hentry hname hempty hfields hunopened
        obtain ⟨entry', hentry', hname', hexternal'⟩ := hfills.later.class? hentry
        exact ⟨hgrowing', hfills, ⟨hsymbol,
          ⟨entry', hentry', hname'.trans hname, hexternal'.trans hexternal⟩, hready⟩, hmembers⟩
  | structDecl decl =>
      refine (decl.does_declareFields (List.nodup_cons.1 hnodes).2).mono ?_
      rintro ctx _ ctx' h pending id s hgrowing hid hs houtlines hunopened
      cases s <;> simp only [Item.Outlines] at houtlines
      next entry =>
        have hentry : ctx.symbols.struct? id = some entry := by
          simp [SymbolTable.struct?, hs, Symbol.struct?]
        obtain ⟨hname, hempty⟩ := houtlines
        obtain ⟨hgrowing', hfills, hfields⟩ := h pending id entry hgrowing hid hentry hempty
        obtain ⟨entry', hentry', hname'⟩ := hfills.later.struct? hentry
        obtain ⟨hdecl, -⟩ := List.nodup_cons.1 hnodes
        refine ⟨hgrowing', hfills.mono (fun _ h _ => h) ?_ fun _ h _ => h, ⟨?_, entry', hentry',
          hname'.trans hname⟩, hfields⟩
        · exact fun n hn => List.mem_cons_of_mem _ hn
        · exact (hfills.confined.symbol? _ hdecl).trans hid
  | function decl =>
      refine (decl.does_declareFree hnodes).mono ?_
      rintro ctx _ ctx' h pending id s hgrowing hid hs houtlines hunopened
      cases s <;> simp only [Item.Outlines] at houtlines
      next entry =>
        obtain ⟨hlink, howner, hopen, htraits⟩ := houtlines
        have hentry : ctx.symbols.function? id = some entry := by
          simp [SymbolTable.function?, hs, Symbol.function?]
        have hwaiting : Item.waiting ctx (.function decl) = some id := hid
        obtain ⟨hgrowing', hfills, hprepared⟩ := h pending id entry
          (by simpa [hwaiting] using hgrowing) hid hunopened hentry hopen howner (by rw [htraits])
        obtain ⟨entry', hentry', -, hlink', -⟩ := hfills.later.function? hentry
        exact ⟨hgrowing', hfills, ⟨hprepared.symbol?, hprepared, entry', hentry',
          hlink'.trans hlink⟩, trivial⟩

/-- What an item got stays while others are filled in. -/
theorem Item.Holds.fills {item : Item} {ctx ctx' : Context} {id : SymbolId}
    {changed : List SymbolId} {nodes : List NodeId} (h : item.Filled ctx id)
    (hfills : Fills changed nodes [] ctx ctx') (htree : ctx.scopes.Descends) (hid : id ∉ changed)
    (hdisjoint : ∀ n ∈ item.nodes, n ∉ nodes) : item.Filled ctx' id := by
  obtain ⟨hsymbol, hrest⟩ := h
  refine ⟨(hfills.confined.symbol? _ (hdisjoint _ item.id_mem_nodes)).trans hsymbol, ?_⟩
  cases item with
  | classDecl decl =>
      obtain ⟨⟨entry, hentry, hfacts⟩, hready⟩ := hrest
      refine ⟨⟨entry, (hfills.class? hid).trans hentry, hfacts⟩, ?_⟩
      refine hready.keep htree hfills.confined hfills.later (by simp) ?_
        fun e he => ⟨e, (hfills.class? hid).trans he, rfl⟩
      intro m hm n hn
      exact hdisjoint n (List.mem_cons_of_mem _ (ClassMember.mem_nodesOf hm hn))
  | structDecl decl =>
      obtain ⟨entry, hentry, hname⟩ := hrest
      have hs := SymbolTable.struct?_eq_some_iff.1 hentry
      refine ⟨entry, SymbolTable.struct?_eq_some_iff.2 ?_, hname⟩
      rw [hfills.entries id (SymbolTable.lt_size_of_get? hs) hid, hs]
  | function decl =>
      obtain ⟨hprepared, entry, hentry, hlink⟩ := hrest
      obtain ⟨entry', hentry', -, hlink', -⟩ := hfills.later.function? hentry
      exact ⟨hprepared.confined htree hfills.confined hfills.later (by simp) hdisjoint,
        entry', hentry', hlink'.trans hlink⟩

/-- Members stay what they are while other records are filled in. -/
theorem Item.Members.keep {item : Item} {ctx ctx' : Context} {id : SymbolId}
    (h : item.Members ctx id) (hok : ctx.symbols.Ok) (hlater : ctx.symbols.Later ctx'.symbols)
    (hclass : ∀ decl, item = .classDecl decl → ∃ e e', ctx.symbols.class? id = some e ∧
      ctx'.symbols.class? id = some e' ∧ e'.fields = e.fields ∧ e'.functions = e.functions)
    (hstruct : ∀ decl, item = .structDecl decl → ∃ e, ctx.symbols.struct? id = some e ∧
      ctx'.symbols.struct? id = some e)
    (hsymbols : ∀ n ∈ item.memberIds, ctx'.bindings.symbol? n = ctx.bindings.symbol? n) :
    item.Members ctx' id := by
  cases item with
  | classDecl decl =>
      obtain ⟨e, e', he, he', hfields, hfunctions⟩ := hclass decl rfl
      exact HasMembers.keep h hok hlater he he' hfields hfunctions fun member hmember =>
        hsymbols _ (List.mem_map_of_mem hmember)
  | structDecl decl =>
      obtain ⟨e, he, he'⟩ := hstruct decl rfl
      exact HasFields.keep h hok hlater he he' fun field hfield =>
        hsymbols _ (List.mem_map_of_mem hfield)
  | function decl => trivial

/-! ## One item after the other -/

/-- The symbols of items. -/
def Item.idsOf (ctx : Context) (items : List Item) : List SymbolId :=
  items.filterMap fun item => ctx.bindings.symbol? item.id

/-- The functions among items that wait for their signature. -/
def Item.waitingOf (ctx : Context) (items : List Item) : List SymbolId :=
  items.filterMap (Item.waiting ctx)

/-- Some items have been filled in since `start`, and some are still to come. -/
structure FilledUpTo (start : Context) (done todo : List Item) (ctx : Context) : Prop where
  growing : ctx.Growing (Item.waitingOf start todo)
  fills : Fills (Item.idsOf start done) (done.flatMap Item.nodes) [] start ctx
  filled : ∀ item ∈ done, ∃ id, start.bindings.symbol? item.id = some id ∧ item.Filled ctx id ∧
    item.Members ctx id

/-- The items in the order in which they are filled in. -/
def Script.fillOrder (script : Script) : List Item :=
  script.structs.map .structDecl ++ (script.classes.map .classDecl ++
    script.functions.map .function)

theorem Script.fillOrder_perm (script : Script) : script.fillOrder.Perm script.items := by
  unfold Script.fillOrder Script.structs Script.classes Script.functions
  induction script.items with
  | nil => exact .refl _
  | cons item rest ih =>
      cases item with
      | structDecl decl => simpa using ih
      | classDecl decl => simpa using List.perm_middle.trans (ih.cons _)
      | function decl =>
          simp only [List.filterMap_cons, List.map_cons, ← List.append_assoc] at ih ⊢
          exact List.perm_middle.trans (ih.cons _)

/-- When its turn comes, an item is as it was at the start. -/
theorem FilledUpTo.ready {items done rest : List Item} {item : Item} {start ctx : Context}
    (houtline : Outline items start) (h : FilledUpTo start done (item :: rest) ctx)
    (hperm : (done ++ item :: rest).Perm items) (hnodes : (items.flatMap Item.nodes).Nodup) :
    ∃ id s, start.bindings.symbol? item.id = some id ∧
      ctx.Growing ((item.waiting ctx).toList ++ Item.waitingOf start rest) ∧
      ctx.bindings.symbol? item.id = some id ∧ ctx.symbols.get? id = some s ∧ item.Outlines s ∧
      ctx.Unopened item.nodes := by
  have hnodup := (hperm.flatMap_right Item.nodes).symm.nodup hnodes
  simp only [List.flatMap_append, List.flatMap_cons] at hnodup
  have hids := houtline.apart.perm hperm.symm fun hne => Ne.symm hne
  have hmem : item ∈ items := hperm.subset (by simp)
  obtain ⟨id, s, hid, hs, houtlines, -⟩ := houtline.bound item hmem
  have hnew : ∀ n ∈ item.nodes, n ∉ done.flatMap Item.nodes := fun n hn hdone =>
    (List.nodup_append.1 hnodup).2.2 n hdone n (List.mem_append_left _ hn) rfl
  have hnotDone : id ∉ Item.idsOf start done := by
    intro hdone
    obtain ⟨other, hother, hsame⟩ := List.mem_filterMap.1 hdone
    exact (List.pairwise_append.1 hids).2.2 other hother item (List.mem_cons_self ..)
      (hsame.trans hid.symm)
  have hid' : ctx.bindings.symbol? item.id = some id :=
    (h.fills.confined.symbol? _ (hnew _ item.id_mem_nodes)).trans hid
  have hs' : ctx.symbols.get? id = some s :=
    (h.fills.entries id (SymbolTable.lt_size_of_get? hs) hnotDone).trans hs
  have hunopened : ctx.Unopened item.nodes := fun n hn =>
    (h.fills.confined.scope? n (hnew n hn)).trans (houtline.unopened n)
  have hwaiting : item.waiting ctx = item.waiting start := by
    cases item with
    | function decl => exact hid'.trans hid.symm
    | _ => rfl
  have hgrowing : ctx.Growing ((item.waiting ctx).toList ++ Item.waitingOf start rest) := by
    have hall := h.growing
    rw [hwaiting]
    unfold Item.waitingOf at hall ⊢
    rw [List.filterMap_cons] at hall
    cases hw : item.waiting start <;> simpa [hw] using hall
  exact ⟨id, s, hid, hgrowing, hid', hs', houtlines, hunopened⟩

/-- One more item. -/
theorem FilledUpTo.step {items done rest : List Item} {item : Item} {start ctx ctx' : Context}
    (houtline : Outline items start) (h : FilledUpTo start done (item :: rest) ctx)
    (hperm : (done ++ item :: rest).Perm items) (hnodes : (items.flatMap Item.nodes).Nodup)
    (hstep : ∀ pending id s, ctx.Growing ((item.waiting ctx).toList ++ pending) →
      ctx.bindings.symbol? item.id = some id → ctx.symbols.get? id = some s → item.Outlines s →
      ctx.Unopened item.nodes →
      ctx'.Growing pending ∧ Fills [id] item.nodes [] ctx ctx' ∧ item.Filled ctx' id ∧
        item.Members ctx' id) :
    FilledUpTo start (done ++ [item]) rest ctx' := by
  have hnodup := (hperm.flatMap_right Item.nodes).symm.nodup hnodes
  simp only [List.flatMap_append, List.flatMap_cons] at hnodup
  have hapart : ∀ n ∈ done.flatMap Item.nodes, ∀ m ∈ item.nodes, n ≠ m := fun n hn m hm =>
    (List.nodup_append.1 hnodup).2.2 n hn m (List.mem_append_left _ hm)
  have hids := houtline.apart.perm hperm.symm fun hne => Ne.symm hne
  obtain ⟨id, s, hid, hgrowing, hid', hs', houtlines, hunopened⟩ := h.ready houtline hperm hnodes
  obtain ⟨hgrowing', hfills, hfilled⟩ := hstep _ id s hgrowing hid' hs' houtlines hunopened
  refine ⟨hgrowing', ?_, fun other hother => ?_⟩
  · refine (h.fills.mono ?_ ?_ fun _ h _ => h).trans (hfills.mono ?_ ?_ fun _ h _ => h)
    · exact fun x hx _ => by simpa [Item.idsOf] using .inl (by simpa [Item.idsOf] using hx)
    · simp
    · intro x hx _
      rw [List.mem_singleton.1 hx]
      simp [Item.idsOf, hid]
    · simp
  · rcases List.mem_append.1 hother with hother | hother
    · obtain ⟨x, hx, hfilledx, hmembersx⟩ := h.filled other hother
      have hother' : x ∉ [id] := by
        intro hsame
        rw [List.mem_singleton.1 hsame] at hx
        exact (List.pairwise_append.1 hids).2.2 other hother item (List.mem_cons_self ..)
          (hx.trans hid.symm)
      have hdisjoint : ∀ n ∈ other.nodes, n ∉ item.nodes := fun n hn hitem =>
        hapart n (List.mem_flatMap.2 ⟨other, hother, hn⟩) n hitem rfl
      refine ⟨x, hx, hfilledx.fills hfills h.growing.ok.tree hother' hdisjoint,
        hmembersx.keep h.growing.ok.table hfills.later ?_ ?_ fun n hn =>
          hfills.confined.symbol? n (hdisjoint n (other.memberIds_subset hn))⟩
      · rintro decl rfl
        obtain ⟨-, ⟨e, he, -⟩, -⟩ := hfilledx
        exact ⟨e, e, he, (hfills.class? hother').trans he, rfl, rfl⟩
      · rintro decl rfl
        obtain ⟨-, e, he, -⟩ := hfilledx
        exact ⟨e, he, (hfills.struct? hother').trans he⟩
    · rw [List.mem_singleton.1 hother]
      exact ⟨id, hid, hfilled⟩

/-- The declarations of a script are known: everything that bodies and layouts rely on. -/
structure Settled (script : Script) (ctx : Context) : Prop where
  ok : ctx.Ok
  resolved : ctx.symbols.Resolved
  unlaid : ctx.symbols.Unlaid
  acyclic : ctx.symbols.Acyclic
  root : ∃ entry, ctx.symbols.class? SymbolTable.rootClass = some entry ∧
    entry.name = rootClassName ∧ entry.external = true
  started : SymbolTable.initial.Later ctx.symbols ∧
    ctx.symbols.class? SymbolTable.rootClass = SymbolTable.initial.class? SymbolTable.rootClass
  filled : ∀ item ∈ script.items, ∃ id, item.Filled ctx id
  /-- There are no classes, structs and functions outside classes but those of the items and the
  root class. -/
  source : ∀ id s, ctx.symbols.get? id = some s → s.IsItem →
    id = SymbolTable.rootClass ∨ ∃ item ∈ script.items, ctx.bindings.symbol? item.id = some id
  members : ∀ item ∈ script.items, ∃ id, item.Filled ctx id ∧ item.Members ctx id
  opened : ScopeTree.root < ctx.scopes.size
  kind : ctx.scopes.kind ScopeTree.root = .root
  names : ∀ name, ctx.scopes.lookupLocal? ScopeTree.root name = ctx.topLevel? script.items name
  parents : ∀ decl ∈ script.classes, decl.HasParent script.items ctx

/-- After the last item everything is settled. -/
theorem FilledUpTo.settled {script : Script} {start ctx : Context}
    (houtline : Outline script.items start)
    (hparents : ∀ decl ∈ script.classes, decl.HasParent script.items start)
    (h : FilledUpTo start script.fillOrder [] ctx) : Settled script ctx := by
  have hfilled : ∀ item ∈ script.items, ∃ id, start.bindings.symbol? item.id = some id ∧
      item.Filled ctx id ∧ item.Members ctx id :=
    fun item hitem => h.filled item (script.fillOrder_perm.mem_iff.2 hitem)
  have hids : ∀ item ∈ script.items,
      ctx.bindings.symbol? item.id = start.bindings.symbol? item.id := by
    intro item hitem
    obtain ⟨id, hid, hf, -⟩ := hfilled item hitem
    exact hf.1.trans hid.symm
  refine ⟨h.growing.ok, ?_, h.growing.unlaid, houtline.acyclic.congr h.fills.parents, ?_, ?_, ?_,
    ?_, ?_, h.growing.opened, h.growing.kind, ?_, ?_⟩
  · intro id entry hentry
    cases hresolved : entry.resolved with
    | true => rfl
    | false => exact absurd (h.growing.pending id entry hentry hresolved) (by simp [Item.waitingOf])
  · obtain ⟨entry, hentry, hname, hexternal, -⟩ := houtline.root
    obtain ⟨entry', hentry', hname', hexternal'⟩ := h.fills.later.class? hentry
    exact ⟨entry', hentry', hname'.trans hname, hexternal'.trans hexternal⟩
  · refine ⟨houtline.started.1.trans h.fills.later, (h.fills.class? fun hmem => ?_).trans
      houtline.started.2⟩
    obtain ⟨item, hitem, hsymbol⟩ := List.mem_filterMap.1 hmem
    obtain ⟨id, s, hid, -, -, hne⟩ := houtline.bound item (script.fillOrder_perm.subset hitem)
    exact hne (Option.some.inj (hid.symm.trans hsymbol))
  · intro item hitem
    obtain ⟨id, -, hf, -⟩ := hfilled item hitem
    exact ⟨id, hf⟩
  · intro id s' hs' hisItem
    rcases Nat.lt_or_ge id start.symbols.size with hlt | hge
    · obtain ⟨s, hs⟩ := Option.isSome_iff_exists.1 ((start.symbols.isSome_get?_iff id).2 hlt)
      rcases houtline.source id s hs with ⟨hroot, -⟩ | ⟨item, hitem, hsymbol⟩
      · obtain ⟨s₁, hs₁, hlater⟩ := h.fills.later id s hs
        cases hs'.symm.trans hs₁
        exact .inl (hroot (hlater.isItem_iff.1 hisItem))
      · obtain ⟨x, hx, hf, -⟩ := hfilled item hitem
        cases hsymbol.symm.trans hx
        exact .inr ⟨item, hitem, hf.1⟩
    · exact absurd hisItem (h.fills.items id s' hge hs')
  · intro item hitem
    obtain ⟨id, -, hf⟩ := hfilled item hitem
    exact ⟨id, hf⟩
  · intro name
    have hopened : ScopeTree.root < start.scopes.size := by
      rw [houtline.scopes]
      exact Nat.zero_lt_one
    rw [h.fills.confined.lookupLocal? hopened (by simp), houtline.names]
    exact Context.topLevel?_congr hids
  · intro decl hdecl
    exact (hparents decl hdecl).keep (Script.mem_classes.1 hdecl) hids fun id _ =>
      h.fills.parents id

/-- Before anything is filled in, the functions among the items wait. -/
theorem Outline.growing {items todo : List Item} {ctx : Context} (h : Outline items ctx)
    (hsubset : items ⊆ todo) : ctx.Growing (Item.waitingOf ctx todo) := by
  refine ⟨h.ok, h.unlaid, ?_, ?_, h.kind⟩
  · intro id entry hentry hopen
    have hs := SymbolTable.function?_eq_some_iff.1 hentry
    rcases h.source id _ hs with ⟨-, hresolved⟩ | ⟨item, hitem, hsymbol⟩
    · simp [hresolved entry rfl] at hopen
    · obtain ⟨x, s', hx, hs', houtlines, -⟩ := h.bound item hitem
      cases hsymbol.symm.trans hx
      cases hs.symm.trans hs'
      cases item <;> simp only [Item.Outlines] at houtlines
      exact List.mem_filterMap.2 ⟨_, hsubset hitem, hsymbol⟩
  · rw [h.scopes]
    exact Nat.zero_lt_one

/-- Structs, classes and functions are filled in. -/
theorem Script.does_fill (script : Script) (hproper : script.Proper) :
    Does (script.fillOrder.forM Item.fill) fun ctx _ ctx' =>
      Outline script.items ctx → (∀ decl ∈ script.classes, decl.HasParent script.items ctx) →
        Settled script ctx' := by
  have hloop : ∀ start : Context, Does (script.fillOrder.forM Item.fill) fun ctx _ ctx' =>
      Outline script.items start → (∀ decl ∈ script.classes, decl.HasParent script.items start) →
        start = ctx → Settled script ctx' := by
    intro start
    have hrun : Does (script.fillOrder.forM Item.fill) fun ctx _ ctx' =>
        (∃ todo, script.fillOrder = [] ++ todo ∧
          (Outline script.items start → FilledUpTo start [] todo ctx)) →
        ∃ todo, script.fillOrder = script.fillOrder ++ todo ∧
          (Outline script.items start → FilledUpTo start script.fillOrder todo ctx') := by
      refine does_forM (I := fun done ctx => ∃ todo, script.fillOrder = done ++ todo ∧
        (Outline script.items start → FilledUpTo start done todo ctx)) fun done item rest hall => ?_
      have hmem : item ∈ script.items := script.fillOrder_perm.subset (by simp [hall])
      refine (item.does_fill (Script.item_nodup hproper hmem)).mono ?_
      rintro ctx _ ctx' hstep ⟨todo, htodo, hdone⟩
      have htodo' : todo = item :: rest := List.append_cancel_left (htodo.symm.trans hall)
      subst htodo'
      exact ⟨rest, by simpa using hall, fun houtline => (hdone houtline).step houtline
        (hall ▸ script.fillOrder_perm) hproper.nodup hstep⟩
    refine hrun.mono ?_
    rintro ctx _ ctx' h houtline hparents rfl
    obtain ⟨todo, htodo, hfilled⟩ := h ⟨script.fillOrder, rfl, fun _ =>
      ⟨houtline.growing script.fillOrder_perm.symm.subset, .refl _ _ _ _, by simp⟩⟩
    have hnil : todo = [] := by simpa using htodo
    exact (hnil ▸ hfilled houtline).settled houtline hparents
  refine (Does.forall (ι := Context) hloop).mono ?_
  rintro ctx _ ctx' h houtline hparents
  exact h ctx houtline hparents rfl

/-- The class or struct of an item does not contain itself. -/
def Item.FreeOfItself (ctx : Context) (item : Item) : Prop :=
  (∀ decl, item ≠ .function decl) →
    ∀ id, ctx.bindings.symbol? item.id = some id → ctx.symbols.containsItself id = false

theorem Item.does_checkContainment (item : Item) :
    Does item.checkContainment fun ctx _ ctx' => ctx' = ctx ∧ item.FreeOfItself ctx := by
  have hcheck : ∀ (name : Ident) (node : NodeId),
      Does (name.checkContainment node) fun ctx _ ctx' => ctx' = ctx ∧
        ∀ id, ctx.bindings.symbol? node = some id → ctx.symbols.containsItself id = false := by
    intro name node
    refine does_read fun before => ?_
    split
    · next hnone =>
        refine (does_pure _).mono ?_
        rintro ctx _ ctx' ⟨-, rfl⟩ rfl
        exact ⟨rfl, by simp [hnone]⟩
    · next id hsome =>
        split
        · exact (does_mismatch _ _).never
        · next hfree =>
            refine (does_pure _).mono ?_
            rintro ctx _ ctx' ⟨-, rfl⟩ rfl
            exact ⟨rfl, by simpa [hsome] using hfree⟩
  cases item with
  | classDecl decl => exact (hcheck decl.name decl.id).mono fun _ _ _ h => ⟨h.1, fun _ => h.2⟩
  | structDecl decl => exact (hcheck decl.name decl.id).mono fun _ _ _ h => ⟨h.1, fun _ => h.2⟩
  | function decl => exact (does_pure _).mono fun _ _ _ h =>
      ⟨h.2, fun hother => absurd rfl (hother decl)⟩

/-- Errors are reported, so there are none. -/
theorem does_reportAll (errors : List SemanticError) :
    Does (errors.forM Analysis.report) fun ctx _ ctx' => errors = [] ∧ ctx' = ctx := by
  induction errors with
  | nil => exact (does_pure _).mono fun ctx _ ctx' h => ⟨rfl, h.2⟩
  | cons error rest ih => exact (does_report error).bind_never fun _ => ih

/-! ## Names of the generated code -/

namespace LinkName

/-- What has to be different for two names of the generated code to be different. -/
def key (link : LinkName) : Bool × String := (link.isRecord, link.name)

/-- The generated code of a script has no name twice. -/
def Distinct (ctx : Context) (script : Script) : Prop :=
  ((ofScript ctx script).map key).Nodup

/-- **Without a clash all names are different.** -/
theorem nodup_of_clashes {taken links : List LinkName} (h : clashes taken links = [])
    (htaken : (taken.map key).Nodup) : ((taken ++ links).map key).Nodup := by
  induction links generalizing taken with
  | nil => simpa using htaken
  | cons link rest ih =>
      unfold clashes at h
      split at h
      · cases h
      · next hfree =>
          have hnew : link.key ∉ taken.map key := by
            intro hmem
            obtain ⟨first, hfirst, hsame⟩ := List.mem_map.1 hmem
            obtain ⟨hkind, hname⟩ := Prod.mk.inj hsame
            simpa [hkind, hname] using List.find?_eq_none.1 hfree first hfirst
          have htaken' : ((taken ++ [link]).map key).Nodup := by
            rw [List.map_append, List.map_singleton]
            exact List.nodup_append.2 ⟨htaken, by simp, fun a ha b hb heq =>
              hnew (List.mem_singleton.1 hb ▸ heq ▸ ha)⟩
          simpa using ih h htaken'

variable {ctx ctx' : Context}

/-- What a class brings into the generated code stays while its table gets more. -/
theorem ofClass_extend (hok : ctx.symbols.Ok) (hextends : ctx.symbols.Extends ctx'.symbols)
    {id : SymbolId} {entry : ClassEntry} (hentry : ctx.symbols.class? id = some entry)
    (span : Span) : ofClass ctx' id span = ofClass ctx id span := by
  obtain ⟨entry', hentry', hname, -, -, hfunctions, -⟩ := hextends.class? hentry
  have hsame : entry.functions.filterMap ctx'.symbols.function? =
      entry.functions.filterMap ctx.symbols.function? := by
    refine List.filterMap_congr fun g hg => ?_
    obtain ⟨e, he, -⟩ := hok.class_functions hentry hg
    rw [he, hextends.function? he]
  simp only [ofClass, hentry, hentry', hname, hfunctions, hsame, ClassEntry.dispatchRecord,
    ClassEntry.dispatchInstance, ClassEntry.nameGlobal]

theorem Distinct.extend {script : Script} (h : Distinct ctx script) (hok : ctx.symbols.Ok)
    (hextends : ctx.symbols.Extends ctx'.symbols)
    (hroot : (ctx.symbols.class? SymbolTable.rootClass).isSome = true)
    {P : FunctionDecl → Option SymbolId → SymbolId → Prop}
    (hitems : ∀ item ∈ script.items, ∃ id, item.Holds P ctx id ∧
      ctx'.bindings.symbol? item.id = some id) : Distinct ctx' script := by
  obtain ⟨root, hroot⟩ := Option.isSome_iff_exists.1 hroot
  have hsame : ∀ item ∈ script.items, ofItem ctx' item = ofItem ctx item := by
    intro item hitem
    obtain ⟨id, hholds, hsymbol'⟩ := hitems item hitem
    cases item with
    | classDecl decl =>
        obtain ⟨hsymbol, ⟨entry, hentry, -⟩, -⟩ := hholds
        simp only [Item.id] at hsymbol hsymbol'
        simp only [ofItem, hsymbol, hsymbol', ofClass_extend hok hextends hentry]
    | structDecl decl => rfl
    | function decl => rfl
  unfold Distinct ofScript
  rw [ofClass_extend hok hextends hroot, List.flatMap_congr hsame]
  exact h

end LinkName

theorem Script.resolveDeclarations_eq (script : Script) :
    script.resolveDeclarations = (do
      script.classes.forM ClassDecl.bindParent
      script.fillOrder.forM Item.fill
      script.items.forM Item.checkContainment
      let ctx ← get
      (LinkName.clashes [] (LinkName.ofScript ctx script)).forM Analysis.report) := by
  simp [resolveDeclarations, fillOrder, Item.fill]

/-- **What the declarations of a script say is settled**, if nothing is reported. -/
theorem Script.does_resolveDeclarations (script : Script) (hproper : script.Proper) :
    Does script.resolveDeclarations fun ctx _ ctx' =>
      Outline script.items ctx → Settled script ctx' ∧ LinkName.Distinct ctx' script ∧
        ∀ item ∈ script.items, item.FreeOfItself ctx' := by
  rw [resolveDeclarations_eq]
  have hcheck : Does (script.items.forM Item.checkContainment) fun ctx _ ctx' =>
      Settled script ctx → Settled script ctx' ∧ ∀ item ∈ script.items, item.FreeOfItself ctx' := by
    refine (does_forM (I := fun done ctx => Settled script ctx ∧
      ∀ item ∈ done, item.FreeOfItself ctx) fun done item rest _ => ?_).mono
      fun ctx _ ctx' h hsettled => h ⟨hsettled, by simp⟩
    refine item.does_checkContainment.mono ?_
    rintro ctx _ ctx' ⟨rfl, hfree⟩ ⟨hsettled, hdone⟩
    refine ⟨hsettled, fun other hother => ?_⟩
    rcases List.mem_append.1 hother with hother | hother
    · exact hdone other hother
    · rwa [List.mem_singleton.1 hother]
  refine (script.does_bindParents.bind fun _ => (script.does_fill hproper).bind fun _ =>
    hcheck.bind (S := fun _ ctx _ ctx' => ctx' = ctx ∧ LinkName.Distinct ctx script)
      fun _ => ?_).mono ?_
  · refine does_read fun before => (does_reportAll _).mono ?_
    rintro ctx _ ctx' ⟨hnone, rfl⟩ rfl
    have hlinks : (([] ++ LinkName.ofScript before script).map LinkName.key).Nodup :=
      LinkName.nodup_of_clashes hnone List.nodup_nil
    exact ⟨rfl, hlinks⟩
  · rintro ctx _ ctx' ⟨_, ctx₁, hbound, _, ctx₂, hfill, _, ctx₃, hchecked, rfl, hlinks⟩ houtline
    obtain ⟨houtline₁, hparents⟩ := hbound houtline
    obtain ⟨hsettled, hfree⟩ := hchecked (hfill houtline₁ hparents)
    exact ⟨hsettled, hlinks, hfree⟩

end ClassLang
