import ClassLang.Declare
import ClassLang.Proofs.Resolve.Confined
import ClassLang.Proofs.Symbol.Ancestry
import ClassLang.Resolve.Decl

/-!
# Declaring top-level names

What is known about the items of a script once their names are bound: `Outline`.  Every
item has a symbol of its own, no two items share a name, and there are no other classes,
structs and functions outside classes than those of the items and the root class.
`Item.does_declareAll` follows the items one by one.
-/

namespace ClassLang

open Analysis

namespace SymbolTable

variable {t : SymbolTable} {id : SymbolId} {s : Symbol}

/-- Only some functions still wait for their signatures. -/
def Pending (table : SymbolTable) (ids : List SymbolId) : Prop :=
  ∀ id entry, table.function? id = some entry → entry.resolved = false → id ∈ ids

/-- A table without layouts stays one with another symbol without. -/
theorem Unlaid.add (h : t.Unlaid) (hs : s.bare = s) : (t.add s).Unlaid := by
  intro id s' hs'
  rw [get?_add] at hs'
  split at hs'
  · cases hs'
    exact hs
  · exact h id s' hs'

/-- The next number of a table has no symbol yet. -/
theorem get?_size (t : SymbolTable) : t.get? t.size = none := by
  simp [get?, size]

section

variable (t) (s) (id)

/-- A new symbol is the class that it is, and changes no other. -/
theorem class?_add : (t.add s).class? id = if id = t.size then s.class? else t.class? id := by
  simp only [class?, get?_add]
  split <;> rfl

/-- A new symbol is the struct that it is, and changes no other. -/
theorem struct?_add : (t.add s).struct? id = if id = t.size then s.struct? else t.struct? id := by
  simp only [struct?, get?_add]
  split <;> rfl

/-- A new symbol is the function that it is, and changes no other. -/
theorem function?_add :
    (t.add s).function? id = if id = t.size then s.function? else t.function? id := by
  simp only [function?, get?_add]
  split <;> rfl

end

/-- One more symbol changes no class. -/
theorem class?_add_of_some {entry : ClassEntry} (h : t.class? id = some entry) :
    (t.add s).class? id = some entry := by
  rw [class?_add, if_neg (Nat.ne_of_lt (lt_size_of_get? (class?_eq_some_iff.1 h))), h]

/-- A function that has its signature, or anything else, leaves nothing open. -/
theorem Pending.add {ids : List SymbolId} (h : t.Pending ids)
    (hs : ∀ entry, s.function? = some entry → entry.resolved = true) : (t.add s).Pending ids := by
  intro id entry hentry hopen
  rw [function?_add] at hentry
  split at hentry
  · simp [hs entry hentry] at hopen
  · exact h id entry hentry hopen

end SymbolTable

/-- A symbol is the one of an item, of which only the name is known; a class may have its
parent already. -/
def Item.Outlines (item : Item) (s : Symbol) : Prop :=
  match item, s with
  | .classDecl decl, .classEntry e =>
    e.name = decl.name.name ∧ e.external = false ∧ e.functions = [] ∧ e.fields = []
  | .structDecl decl, .structEntry e => e.name = decl.name.name ∧ e.fields = []
  | .function decl, .function e =>
    e.linkName = decl.name.name ∧ e.owner = none ∧ e.resolved = false ∧
      e.traits = { external := decl.body.isExternal, variadic := decl.body.isVariadic }
  | _, _ => False

/-- The symbol that an item gets is an outline of it. -/
theorem Item.outlines_symbol (item : Item) : item.Outlines item.symbol := by
  cases item <;> simp [Outlines, Item.symbol, FunctionEntry.free]

/-- The symbol that an item gets is right in every table. -/
theorem Item.ok_symbol (item : Item) (t : SymbolTable) (id : SymbolId) :
    item.symbol.Ok t id := by
  cases item <;> simp [Item.symbol, Symbol.Ok, FunctionEntry.free]

/-- The symbol that an item gets has no layout. -/
theorem Item.bare_symbol (item : Item) : item.symbol.bare = item.symbol := by
  cases item <;> rfl

/-- The symbol that an item gets is an item. -/
theorem Item.isItem_symbol (item : Item) : item.symbol.IsItem := by
  cases item <;> simp [Item.symbol, Symbol.IsItem, FunctionEntry.free]

/-- The number of an item is one of its nodes. -/
theorem Item.id_mem_nodes (item : Item) : item.id ∈ item.nodes := by
  cases item <;> exact List.mem_cons_self ..

/-- No node stands for two things in an item. -/
theorem Script.item_nodup {script : Script} {item : Item} (hproper : script.Proper)
    (hitem : item ∈ script.items) : item.nodes.Nodup :=
  hproper.nodup.sublist (List.sublist_flatten_of_mem (List.mem_map_of_mem hitem))

/-- The item of a name. -/
def Item.named? (items : List Item) (name : String) : Option Item :=
  items.find? fun item => item.name.name == name

/-- What a name stands for at the top level: the root class or an item. -/
def Context.topLevel? (ctx : Context) (items : List Item) (name : String) : Option SymbolId :=
  if name = rootClassName then some SymbolTable.rootClass
  else (Item.named? items name).bind fun item => ctx.bindings.symbol? item.id

/-- What a name stands for depends on the symbols of the items only. -/
theorem Context.topLevel?_congr {ctx ctx' : Context} {items : List Item} {name : String}
    (h : ∀ item ∈ items, ctx'.bindings.symbol? item.id = ctx.bindings.symbol? item.id) :
    ctx.topLevel? items name = ctx'.topLevel? items name := by
  unfold topLevel?
  split
  · rfl
  · cases hfind : Item.named? items name with
    | none => rfl
    | some item => exact (h item (List.mem_of_find?_eq_some hfind)).symm

/-- One more item answers for its own name, if no other one did. -/
theorem Context.topLevel?_append (ctx : Context) (items : List Item) (item : Item) (name : String) :
    ctx.topLevel? (items ++ [item]) name =
      if name = rootClassName then some SymbolTable.rootClass
      else ((Item.named? items name).or (if item.name.name = name then some item else none)).bind
        fun item => ctx.bindings.symbol? item.id := by
  simp only [topLevel?, Item.named?, List.find?_append, List.find?_singleton, beq_iff_eq]

/-- What is known about items when only their names are bound. -/
structure Outline (items : List Item) (ctx : Context) : Prop where
  ok : ctx.Ok
  unlaid : ctx.symbols.Unlaid
  acyclic : ctx.symbols.Acyclic
  /-- Every item has a symbol. -/
  bound : ∀ item ∈ items, ∃ id s, ctx.bindings.symbol? item.id = some id ∧
    ctx.symbols.get? id = some s ∧ item.Outlines s ∧ id ≠ SymbolTable.rootClass
  /-- Different items have different symbols. -/
  apart : items.Pairwise fun a b => ctx.bindings.symbol? a.id ≠ ctx.bindings.symbol? b.id
  root : ∃ entry, ctx.symbols.class? SymbolTable.rootClass = some entry ∧
    entry.name = rootClassName ∧ entry.external = true ∧ entry.parent = none
  /-- The root class has the members it starts with. -/
  started : SymbolTable.initial.Later ctx.symbols ∧
    ctx.symbols.class? SymbolTable.rootClass = SymbolTable.initial.class? SymbolTable.rootClass
  /-- Classes, structs and functions without a signature come from items. -/
  source : ∀ id s, ctx.symbols.get? id = some s →
    (s.IsItem → id = SymbolTable.rootClass) ∧
      (∀ entry, s.function? = some entry → entry.resolved = true) ∨
    ∃ item ∈ items, ctx.bindings.symbol? item.id = some id
  scopes : ctx.scopes.size = 1
  kind : ctx.scopes.kind ScopeTree.root = .root
  unopened : ∀ n, ctx.bindings.scope? n = none
  names : ∀ name, ctx.scopes.lookupLocal? ScopeTree.root name = ctx.topLevel? items name

namespace Context

/-- The initial table is right. -/
theorem ok_initial : initial.Ok where
  table := SymbolTable.ok_initial
  tree id parent h := by
    cases id with
    | zero => cases h
    | succ id => cases h
  bound scope name id h := by
    cases scope with
    | zero =>
        simp only [initial, ScopeTree.lookupLocal?, ScopeTree.get?, List.getElem?_cons_zero,
          Option.bind_some, Scope.get?, List.lookup_cons, List.lookup_nil] at h
        split at h
        · cases h
          decide
        · cases h
    | succ scope => cases h
  root name id h := by
    simp only [initial, ScopeTree.lookupLocal?, ScopeTree.get?, ScopeTree.root,
      List.getElem?_cons_zero, Option.bind_some, Scope.get?, List.lookup_cons, List.lookup_nil] at h
    split at h
    · cases h
      exact ⟨_, rfl, trivial⟩
    · cases h

/-- Before anything is declared there is only the root class. -/
theorem outline_initial : Outline [] initial where
  ok := ok_initial
  unlaid id s h := by
    have hlt : id < 5 := SymbolTable.lt_size_of_get? h
    match id, hlt with
    | 0, _ | 1, _ | 2, _ | 3, _ | 4, _ => cases h; rfl
  acyclic id h := by
    obtain ⟨parent, hparent, -⟩ := Relation.TransGen.head'_iff.1 h
    have hlt : id < 5 := SymbolTable.lt_size_of_parent? hparent
    match id, hlt with
    | 0, _ | 1, _ | 2, _ | 3, _ | 4, _ => cases hparent
  bound := by simp
  apart := List.Pairwise.nil
  root := ⟨_, rfl, rfl, rfl, rfl⟩
  started := ⟨.refl _, rfl⟩
  source id s h := by
    have hlt : id < 5 := SymbolTable.lt_size_of_get? h
    refine .inl ?_
    match id, hlt with
    | 0, _ =>
        cases h
        exact ⟨fun _ => rfl, nofun⟩
    | 1, _ | 2, _ =>
        cases h
        exact ⟨nofun, nofun⟩
    | 3, _ | 4, _ =>
        cases h
        exact ⟨nofun, fun _ hf => by cases hf; rfl⟩
  scopes := rfl
  kind := rfl
  unopened _ := rfl
  names name := by
    by_cases h : name = rootClassName
    · simp [initial, ScopeTree.lookupLocal?, ScopeTree.get?, ScopeTree.root, Scope.get?,
        topLevel?, h]
    · have hne : (name == rootClassName) = false := by simpa using h
      simp [initial, ScopeTree.lookupLocal?, ScopeTree.get?, ScopeTree.root, Scope.get?,
        topLevel?, h, List.lookup_cons, hne, Item.named?]

/-- An item can be bound at the top level. -/
theorem Ok.bindItem {ctx : Context} (h : ctx.Ok) (hscope : ScopeTree.root < ctx.scopes.size)
    {name : String} {symbol : SymbolId} {s : Symbol}
    (hfree : ctx.scopes.lookupLocal? ScopeTree.root name = none)
    (hget : ctx.symbols.get? symbol = some s) (hitem : s.IsItem) :
    ({ ctx with scopes := ctx.scopes.bind ScopeTree.root name symbol } : Context).Ok where
  table := h.table
  tree := h.tree.bind ScopeTree.root name symbol
  bound scope other id hname := by
    simp only [ScopeTree.lookupLocal?_bind _ _ hscope hfree] at hname
    split at hname
    · cases hname
      exact SymbolTable.lt_size_of_get? hget
    · exact h.bound scope other id hname
  root other id hname := by
    simp only [ScopeTree.lookupLocal?_bind _ _ hscope hfree] at hname
    split at hname
    · cases hname
      exact ⟨s, hget, hitem⟩
    · exact h.root other id hname

end Context

/-- The context behind the declaration of an item. -/
def Context.declareItem (ctx : Context) (item : Item) : Context :=
  { ctx with
    symbols := ctx.symbols.add item.symbol
    scopes := ctx.scopes.bind ScopeTree.root item.name.name ctx.symbols.size
    bindings := ctx.bindings.bindSymbol item.id ctx.symbols.size }

/-- Declaring an item without report adds its symbol, under a name that was free. -/
theorem Item.does_declare (item : Item) :
    Does item.declare fun ctx _ ctx' =>
      ctx.scopes.lookupLocal? ScopeTree.root item.name.name = none ∧
        ctx' = ctx.declareItem item := by
  refine does_read fun before => ?_
  split
  · exact does_report_return _ _
  · next hfree =>
      refine ((does_addSymbol item.symbol).bind fun id =>
        (does_define ScopeTree.root item.name.name id item.name.span).bind fun bound =>
        (does_bindSymbol item.id id).bind fun _ => does_pure bound).mono ?_
      rintro ctx _ ctx' ⟨_, _, ⟨rfl, rfl⟩, _, _, ⟨-, -, rfl⟩, _, _, rfl, -, rfl⟩ rfl
      exact ⟨hfree, rfl⟩

/-- The symbols of other items stay. -/
theorem Context.symbol?_declareItem (ctx : Context) {item other : Item}
    (h : other.id ≠ item.id) :
    (ctx.declareItem item).bindings.symbol? other.id = ctx.bindings.symbol? other.id := by
  simp [Context.declareItem, Bindings.symbol?_bindSymbol, h]

/-- The declared item is attached to the new symbol. -/
theorem Context.symbol?_declareItem_self (ctx : Context) (item : Item) :
    (ctx.declareItem item).bindings.symbol? item.id = some ctx.symbols.size := by
  simp [Context.declareItem, Bindings.symbol?_bindSymbol]

/-- One more name at the top is that of the new item, which was free. -/
theorem Outline.names_declareItem {items : List Item} {ctx : Context} (h : Outline items ctx)
    (item : Item) (hnew : ∀ other ∈ items, other.id ≠ item.id)
    (hfree : ctx.scopes.lookupLocal? ScopeTree.root item.name.name = none) (name : String) :
    (ctx.declareItem item).scopes.lookupLocal? ScopeTree.root name =
      (ctx.declareItem item).topLevel? (items ++ [item]) name := by
  have hroot : ScopeTree.root < ctx.scopes.size := by
    rw [h.scopes]
    exact Nat.zero_lt_one
  have hnames := h.names name
  simp only [Context.declareItem, ScopeTree.lookupLocal?_bind_same _ _ hroot hfree]
  rw [Context.topLevel?_append]
  by_cases hname : name = item.name.name
  · subst hname
    rw [hfree, Context.topLevel?] at hnames
    split at hnames
    · cases hnames
    · next hne =>
        have hother : Item.named? items item.name.name = none := by
          cases hfind : Item.named? items item.name.name with
          | none => rfl
          | some other =>
              obtain ⟨id, s, hid, -⟩ := h.bound other (List.mem_of_find?_eq_some hfind)
              simp [hfind, hid] at hnames
        simp [hne, hother, Bindings.symbol?_bindSymbol]
  · have hother : item.name.name ≠ name := fun heq => hname heq.symm
    rw [if_neg hname, if_neg hother, Option.or_none, hnames]
    exact Context.topLevel?_congr fun other hmem => ctx.symbol?_declareItem (hnew other hmem)

/-- **One more item** keeps what is known about the items before it. -/
theorem Outline.declareItem {items : List Item} {ctx : Context} (h : Outline items ctx)
    (item : Item) (hnew : ∀ other ∈ items, other.id ≠ item.id)
    (hfree : ctx.scopes.lookupLocal? ScopeTree.root item.name.name = none) :
    Outline (items ++ [item]) (ctx.declareItem item) := by
  have hroot : ScopeTree.root < ctx.scopes.size := by
    rw [h.scopes]
    exact Nat.zero_lt_one
  have hlater := SymbolTable.later_add ctx.symbols item.symbol
  have hkept : ∀ other ∈ items, (ctx.declareItem item).bindings.symbol? other.id =
      ctx.bindings.symbol? other.id :=
    fun other hother => ctx.symbol?_declareItem (hnew other hother)
  have hown := ctx.symbol?_declareItem_self item
  obtain ⟨rootEntry, hrootEntry, hrootFacts⟩ := h.root
  have hrootSize : SymbolTable.rootClass ≠ ctx.symbols.size :=
    Nat.ne_of_lt (SymbolTable.lt_size_of_get? (SymbolTable.class?_eq_some_iff.1 hrootEntry))
  constructor
  · exact Context.Ok.bindItem ((h.ok.symbols (h.ok.table.add (item.ok_symbol _ _))
      hlater).bindings _)
      hroot hfree (SymbolTable.get?_add_size _ _) item.isItem_symbol
  · exact h.unlaid.add item.bare_symbol
  · refine h.acyclic.congr fun id => ?_
    simp only [Context.declareItem, SymbolTable.parent?, SymbolTable.class?_add]
    split
    · next heq =>
        rw [heq, SymbolTable.class?, SymbolTable.get?_size]
        cases item <;> rfl
    · rfl
  · intro other hother
    rcases List.mem_append.1 hother with hother | hother
    · obtain ⟨id, s, hid, hs, hfacts⟩ := h.bound other hother
      exact ⟨id, s, (hkept other hother).trans hid, SymbolTable.get?_add_of_some _ hs, hfacts⟩
    · rw [List.mem_singleton.1 hother]
      exact ⟨_, _, hown, SymbolTable.get?_add_size _ _, item.outlines_symbol, Ne.symm hrootSize⟩
  · refine List.pairwise_append.2 ⟨?_, List.pairwise_singleton _ _, ?_⟩
    · refine h.apart.imp_of_mem fun {a b} ha hb hne => ?_
      rwa [hkept a ha, hkept b hb]
    · intro a ha b hb
      rw [List.mem_singleton.1 hb, hkept a ha, hown]
      obtain ⟨id, s, hid, hs, -⟩ := h.bound a ha
      rw [hid]
      exact fun heq => Nat.ne_of_lt (SymbolTable.lt_size_of_get? hs) (Option.some.inj heq)
  · exact ⟨rootEntry, SymbolTable.class?_add_of_some hrootEntry, hrootFacts⟩
  · refine ⟨h.started.1.trans hlater, ?_⟩
    rw [← h.started.2, hrootEntry]
    exact SymbolTable.class?_add_of_some hrootEntry
  · intro id s hs
    simp only [Context.declareItem, SymbolTable.get?_add] at hs
    split at hs
    · next heq => exact .inr ⟨item, by simp, by rw [hown, heq]⟩
    · refine (h.source id s hs).imp_right ?_
      rintro ⟨other, hother, hid⟩
      exact ⟨other, List.mem_append_left _ hother, (hkept other hother).trans hid⟩
  · simpa [Context.declareItem] using h.scopes
  · simpa [Context.declareItem] using h.kind
  · intro n
    simpa [Context.declareItem] using h.unopened n
  · exact h.names_declareItem item hnew hfree

/-- **Every item gets a symbol**, or something is reported. -/
theorem Item.does_declareAll (items : List Item) :
    Does (Item.declareAll items) fun ctx _ ctx' => ∀ done, Outline done ctx →
      (done ++ items).Pairwise (fun a b => a.id ≠ b.id) → Outline (done ++ items) ctx' := by
  induction items with
  | nil =>
      refine (does_pure _).mono ?_
      rintro ctx _ ctx' ⟨-, rfl⟩ done hdone -
      simpa using hdone
  | cons item rest ih =>
      refine (item.does_declare.bind fun bound => ih.bind fun declared => does_pure _).mono ?_
      rintro ctx _ ctx' ⟨_, _, ⟨hfree, rfl⟩, _, _, hrest, -, rfl⟩ done hdone hids
      have hnew : ∀ other ∈ done, other.id ≠ item.id := fun other hother =>
        (List.pairwise_append.1 hids).2.2 other hother item (List.mem_cons_self ..)
      have hrest' := hrest (done ++ [item]) (hdone.declareItem item hnew hfree)
        (by simpa using hids)
      simpa using hrest'

/-- The items of a script that was parsed have numbers of their own. -/
theorem Script.ids_nodup {script : Script} (hproper : script.Proper) :
    (script.items.map Item.id).Nodup := by
  refine List.Sublist.nodup ?_ hproper.nodup
  unfold Script.nodes
  induction script.items with
  | nil => simp
  | cons item rest ih =>
      have hhead : [item.id].Sublist item.nodes := by
        rw [List.singleton_sublist]
        cases item <;> simp [Item.nodes, Item.id, FunctionDecl.nodes]
      simpa using hhead.append ih

/-- The items of a script that was declared without a report. -/
theorem Script.does_declare (script : Script) (hproper : script.Proper) :
    Does script.declare fun ctx _ ctx' => ctx = .initial → Outline script.items ctx' := by
  refine (Item.does_declareAll script.items).mono ?_
  rintro ctx _ ctx' h rfl
  refine h [] Context.outline_initial ?_
  simpa [List.Nodup, List.pairwise_map] using Script.ids_nodup hproper

/-! ## Parents -/

/-- What stands under a number after a class got its parent. -/
theorem SymbolTable.get?_setParent {t : SymbolTable} {id parent other : SymbolId} {s : Symbol}
    (h : (t.setParent id parent).get? other = some s) :
    t.get? other = some s ∨ ∃ e, other = id ∧ t.get? id = some (.classEntry e) ∧
      s = .classEntry { e with parent := some parent } := by
  simp only [SymbolTable.setParent, SymbolTable.modifyClass, SymbolTable.get?_modify] at h
  split at h
  · next heq =>
      subst heq
      obtain ⟨s₀, hs₀, rfl⟩ := Option.map_eq_some_iff.1 h
      cases s₀ with
      | classEntry e => exact .inr ⟨e, rfl, hs₀, rfl⟩
      | _ => exact .inl hs₀
  · exact .inl h

/-- A class that gets a parent is still known by its name only. -/
theorem Outline.setParent {items : List Item} {ctx : Context} (h : Outline items ctx)
    {id parent : SymbolId} (hid : id ≠ SymbolTable.rootClass)
    (hnot : ¬ ctx.symbols.Inherits parent id) :
    Outline items { ctx with symbols := ctx.symbols.setParent id parent } := by
  have hlater := SymbolTable.later_setParent ctx.symbols id parent
  have hrootEntry : (ctx.symbols.setParent id parent).class? SymbolTable.rootClass =
      ctx.symbols.class? SymbolTable.rootClass := by
    simp [SymbolTable.setParent, SymbolTable.modifyClass, SymbolTable.class?,
      SymbolTable.get?_modify, hid]
  constructor
  · exact h.ok.symbols (h.ok.table.setParent id parent) hlater
  · intro other s hs
    rcases SymbolTable.get?_setParent hs with hs | ⟨e, rfl, he, rfl⟩
    · exact h.unlaid other s hs
    · have hlayout := Symbol.bare_classEntry_iff.1 (h.unlaid _ _ he)
      exact Symbol.bare_classEntry_iff.2 hlayout
  · exact h.acyclic.setParent hnot
  · intro item hitem
    obtain ⟨other, s, hother, hs, houtlines, hroot⟩ := h.bound item hitem
    obtain ⟨s', hs', -⟩ := hlater other s hs
    refine ⟨other, s', hother, hs', ?_, hroot⟩
    rcases SymbolTable.get?_setParent hs' with hs' | ⟨e, rfl, he, rfl⟩
    · rw [hs] at hs'
      cases hs'
      exact houtlines
    · rw [hs] at he
      cases he
      cases item <;> exact houtlines
  · exact h.apart
  · obtain ⟨entry, hentry, hfacts⟩ := h.root
    exact ⟨entry, hrootEntry.trans hentry, hfacts⟩
  · exact ⟨h.started.1.trans hlater, hrootEntry.trans h.started.2⟩
  · intro other s hs
    rcases SymbolTable.get?_setParent hs with hs | ⟨e, rfl, he, rfl⟩
    · exact h.source other s hs
    · rcases h.source _ _ he with ⟨hitem, -⟩ | hsource
      · exact absurd (hitem trivial) hid
      · exact .inr hsource
  · exact h.scopes
  · exact h.kind
  · exact h.unopened
  · exact h.names

/-- The name that a class gives for its parent: without one, it extends the root class. -/
def ClassDecl.parentName (decl : ClassDecl) : String :=
  (decl.parent.map Ident.name).getD rootClassName

/-- The parent of a class is the class that the top level has for the name given. -/
def ClassDecl.HasParent (decl : ClassDecl) (items : List Item) (ctx : Context) : Prop :=
  ∃ id parent, ctx.bindings.symbol? decl.id = some id ∧ ctx.symbols.parent? id = some parent ∧
    ctx.topLevel? items decl.parentName = some parent

/-- A class keeps its parent where the items keep their symbols. -/
theorem ClassDecl.HasParent.keep {decl : ClassDecl} {items : List Item} {ctx ctx' : Context}
    (h : decl.HasParent items ctx) (hdecl : .classDecl decl ∈ items)
    (hids : ∀ item ∈ items, ctx'.bindings.symbol? item.id = ctx.bindings.symbol? item.id)
    (hparents : ∀ id, ctx.bindings.symbol? decl.id = some id →
      ctx'.symbols.parent? id = ctx.symbols.parent? id) : decl.HasParent items ctx' := by
  obtain ⟨id, parent, hid, hparent, hname⟩ := h
  exact ⟨id, parent, (hids _ hdecl).trans hid, (hparents id hid).trans hparent,
    (Context.topLevel?_congr hids).symm.trans hname⟩

/-- What a name in front of all declarations stands for. -/
theorem Outline.lookup? {items : List Item} {ctx : Context} (h : Outline items ctx)
    (name : String) :
    ctx.scopes.lookup? ScopeTree.root name = ctx.topLevel? items name := by
  have hroot : ScopeTree.root < ctx.scopes.size := by
    rw [h.scopes]
    exact Nat.zero_lt_one
  rw [h.ok.tree.lookup?_root hroot, h.names]

/-- The parent of a class is the one that it names, and does not inherit from the class. -/
theorem ClassDecl.does_resolveParent (decl : ClassDecl) (id : SymbolId) :
    Does (decl.resolveParent id) fun ctx parent ctx' => ctx' = ctx ∧
      (∀ items, Outline items ctx → ctx.topLevel? items decl.parentName = some parent) ∧
      (ctx.symbols.Acyclic → ctx.symbols.parent? SymbolTable.rootClass = none →
        id ≠ SymbolTable.rootClass → ¬ ctx.symbols.Inherits parent id) := by
  unfold ClassDecl.resolveParent
  split
  · next hnone =>
      refine (does_pure _).mono ?_
      rintro ctx _ ctx' ⟨rfl, rfl⟩
      refine ⟨rfl, fun items _ => ?_, fun _ hroot hid hinherits => ?_⟩
      · simp [ClassDecl.parentName, hnone, Context.topLevel?]
      · rcases Relation.ReflTransGen.cases_head hinherits with heq | ⟨parent, hparent, -⟩
        · exact hid heq.symm
        · simp [hroot] at hparent
  · next ident hsome =>
      refine does_read fun before => ?_
      split
      · exact does_report_return _ _
      · next parent hlookup =>
          split
          · exact does_mismatch_return _ _ _
          · split
            · exact does_mismatch_return _ _ _
            · next hnot =>
                refine (does_pure _).mono ?_
                rintro ctx _ ctx' ⟨rfl, rfl⟩ rfl
                refine ⟨rfl, fun items houtline => ?_, fun hacyclic _ _ =>
                  SymbolTable.not_inherits_of_isSubclassOf hacyclic (by simpa using hnot)⟩
                simpa [ClassDecl.parentName, hsome]
                  using (houtline.lookup? ident.name).symm.trans hlookup

/-- What giving a class its parent does: the class has it, and no other class changes. -/
structure BindsParent (items : List Item) (decl : ClassDecl) (ctx ctx' : Context) : Prop where
  outline : Outline items ctx'
  parent : decl.HasParent items ctx'
  bindings : ctx'.bindings = ctx.bindings
  others : ∀ id, ctx.bindings.symbol? decl.id ≠ some id →
    ctx'.symbols.parent? id = ctx.symbols.parent? id

/-- Binding a parent without report gives the class the parent it names. -/
theorem ClassDecl.does_bindParent {items : List Item} (decl : ClassDecl)
    (hdecl : .classDecl decl ∈ items) :
    Does decl.bindParent fun ctx _ ctx' => Outline items ctx → BindsParent items decl ctx ctx' := by
  refine ((does_symbolOf? decl.id).bind (S := fun symbol ctx _ ctx' =>
    symbol = ctx.bindings.symbol? decl.id → Outline items ctx → BindsParent items decl ctx ctx')
    fun symbol => ?_).mono ?_
  · split
    · refine (does_pure _).mono ?_
      rintro ctx _ ctx' - hsymbol h
      obtain ⟨id, s, hid, -⟩ := h.bound _ hdecl
      cases hsymbol.trans hid
    · next id =>
        refine ((decl.does_resolveParent id).bind fun parent => does_modifySymbols _).mono ?_
        rintro _ _ ctx' ⟨parent, ctx, ⟨rfl, hname, hparent⟩, rfl⟩ hsymbol h
        obtain ⟨id', s, hid', hs, houtlines, hid⟩ := h.bound _ hdecl
        cases hsymbol.trans hid'
        obtain ⟨entry, hentry, -, -, hnone⟩ := h.root
        have hroot : ctx.symbols.parent? SymbolTable.rootClass = none := by
          simp [SymbolTable.parent?, hentry, hnone]
        have hclass : (ctx.symbols.class? id).isSome = true := by
          cases s <;> simp only [Item.Outlines] at houtlines
          simp [SymbolTable.class?, hs, Symbol.class?]
        constructor
        · exact h.setParent hid (hparent h.acyclic hroot hid)
        · exact ⟨id, parent, hid', by simp [SymbolTable.parent?_setParent, hclass], hname items h⟩
        · rfl
        · intro other hother
          have hne : other ≠ id := fun heq => hother (heq ▸ hid')
          simp [SymbolTable.parent?_setParent, hne]
  · rintro ctx _ ctx' ⟨symbol, _, ⟨rfl, rfl⟩, hrest⟩ h
    exact hrest rfl h

/-- Different classes have different symbols. -/
theorem Outline.classes_apart {script : Script} {ctx : Context} (h : Outline script.items ctx) :
    script.classes.Pairwise fun a b => ctx.bindings.symbol? a.id ≠ ctx.bindings.symbol? b.id := by
  refine h.apart.filterMap _ fun item item' hne decl hdecl decl' hdecl' => ?_
  cases item <;> simp only [reduceCtorEq, Option.some.injEq] at hdecl
  cases item' <;> simp only [reduceCtorEq, Option.some.injEq] at hdecl'
  subst hdecl hdecl'
  exact hne

/-- **Classes get their parents** without a circle. -/
theorem Script.does_bindParents (script : Script) :
    Does (script.classes.forM ClassDecl.bindParent) fun ctx _ ctx' => Outline script.items ctx →
      Outline script.items ctx' ∧ ∀ decl ∈ script.classes, decl.HasParent script.items ctx' := by
  have hrun : Does (script.classes.forM ClassDecl.bindParent) fun ctx _ ctx' =>
      (Outline script.items ctx ∧ ∀ decl ∈ ([] : List ClassDecl), decl.HasParent script.items ctx) →
      Outline script.items ctx' ∧ ∀ decl ∈ script.classes, decl.HasParent script.items ctx' := by
    refine does_forM (I := fun done ctx => Outline script.items ctx ∧
      ∀ decl : ClassDecl, decl ∈ done → decl.HasParent script.items ctx)
        fun done decl rest hall => ?_
    have hclass : ∀ other ∈ done ++ [decl], .classDecl other ∈ script.items := by
      intro other hother
      apply Script.mem_classes.1
      rw [hall, List.append_cons]
      exact List.mem_append_left _ hother
    refine (ClassDecl.does_bindParent decl (hclass decl (by simp))).mono ?_
    rintro ctx _ ctx' hbinds ⟨houtline, hdone⟩
    have hstep := hbinds houtline
    refine ⟨hstep.outline, fun other hother => ?_⟩
    rcases List.mem_append.1 hother with hbefore | hnow
    · have hne := (List.pairwise_append.1 (hall ▸ houtline.classes_apart)).2.2 other hbefore decl
        (List.mem_cons_self ..)
      apply (hdone other hbefore).keep (hclass other hother)
      · intro item _
        rw [hstep.bindings]
      · intro id hid
        exact hstep.others id fun hsame => hne (hid.trans hsame.symm)
    · rw [List.mem_singleton.1 hnow]
      exact hstep.parent
  refine hrun.mono ?_
  intro ctx _ ctx' h houtline
  exact h ⟨houtline, by simp⟩

end ClassLang
