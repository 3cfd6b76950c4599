import ClassLang.Proofs.Order.Parents
import ClassLang.Proofs.Resolve.Underway

/-!
# Two scripts before their members are declared

When classes have their parents and nothing else is known, two scripts with the same items agree:
an item has the symbol it was declared with, up to the parent of a class, and parents are named by
the clauses (`Script.Outset`).  This is where the comparison of the two runs starts
(`Script.Reordered.paired_outset`).
-/

open List (Forall₂)

namespace ClassLang

open Analysis

/-- A symbol without its parent. -/
def Symbol.orphan : Symbol → Symbol
  | .classEntry e => .classEntry { e with parent := none }
  | s => s

@[simp] theorem Item.orphan_symbol (item : Item) : item.symbol.orphan = item.symbol := by
  cases item <;> rfl

/-- What stands in a table when only names and parents are known: the symbols every unit starts
with, and those of the items. -/
structure Sketched (items : List Item) (ctx : Context) : Prop where
  initial : ∀ i s, SymbolTable.initial.get? i = some s → ctx.symbols.get? i = some s
  untyped : ∀ n, ctx.bindings.type? n = none
  bound : ∀ n id, ctx.bindings.symbol? n = some id → SymbolTable.initial.size ≤ id ∧
    ∃ item ∈ items, item.id = n ∧ ∃ s, ctx.symbols.get? id = some s ∧ s.orphan = item.symbol

theorem sketched_initial : Sketched [] .initial where
  initial _ _ h := h
  untyped _ := rfl
  bound _ _ h := by cases h

theorem Sketched.size_le {items : List Item} {ctx : Context} (h : Sketched items ctx) :
    SymbolTable.initial.size ≤ ctx.symbols.size :=
  SymbolTable.lt_size_of_get? (h.initial 4 _ rfl)

/-- **One more item**, whether its name is taken or not. -/
theorem Sketched.declare {items : List Item} {item : Item} {ctx ctx' : Context}
    (h : Sketched items ctx) (_hnew : ∀ other ∈ items, other.id ≠ item.id)
    (hstep : item.Declares ctx ctx') : Sketched (items ++ [item]) ctx' := by
  rcases hstep with ⟨hsymbols, hbindings⟩ | ⟨hsymbols, hbindings⟩
  · refine ⟨?_, ?_, ?_⟩ <;> simp only [hsymbols, hbindings]
    · exact h.initial
    · exact h.untyped
    · intro n id hid
      obtain ⟨hle, other, hother, hn, hs⟩ := h.bound n id hid
      exact ⟨hle, other, List.mem_append_left _ hother, hn, hs⟩
  · refine ⟨?_, ?_, ?_⟩ <;> simp only [hsymbols, hbindings]
    · exact fun i s hs => SymbolTable.get?_add_of_some _ (h.initial i s hs)
    · exact h.untyped
    · intro n id hid
      rw [Bindings.symbol?_bindSymbol] at hid
      split at hid
      · next heq =>
          cases hid
          exact ⟨h.size_le, item, by simp, heq.symm, _, SymbolTable.get?_add_size _ _,
            item.orphan_symbol⟩
      · obtain ⟨hle, other, hother, hn, s, hs, horphan⟩ := h.bound n id hid
        exact ⟨hle, other, List.mem_append_left _ hother, hn, s,
          SymbolTable.get?_add_of_some _ hs, horphan⟩

/-- Parents do not matter. -/
theorem Sketched.bindParent {items : List Item} {decl : ClassDecl} {ctx : Context}
    (h : Sketched items ctx) : Sketched items (decl.bindParent.run ctx).2 := by
  cases hsymbol : ctx.bindings.symbol? decl.id with
  | none =>
      rw [decl.run_bindParent_of_none hsymbol]
      exact h
  | some id =>
      obtain ⟨hsymbols, hbindings, -⟩ := decl.always_resolveParent id ctx
      have hle := (h.bound _ _ hsymbol).1
      rw [decl.run_bindParent hsymbol, hsymbols]
      refine ⟨fun i s hs => ?_, by simpa only [hbindings] using h.untyped, fun n x hx => ?_⟩
      · have hne : id ≠ i := fun heq =>
          Nat.not_lt.2 (heq ▸ hle) (SymbolTable.lt_size_of_get? hs)
        simpa [SymbolTable.setParent, SymbolTable.modifyClass, SymbolTable.get?_modify, hne] using
          h.initial i s hs
      · rw [hbindings] at hx
        obtain ⟨hle, item, hitem, hn, s, hs, horphan⟩ := h.bound n x hx
        refine ⟨hle, item, hitem, hn, ?_⟩
        simp only [SymbolTable.setParent, SymbolTable.modifyClass, SymbolTable.get?_modify]
        split
        · rw [hs]
          exact ⟨_, rfl, by cases s <;> exact horphan⟩
        · exact ⟨s, hs, horphan⟩

namespace Script

theorem sketched_parentedContext {script : Script} (hids : (script.items.map Item.id).Nodup) :
    Sketched script.items script.parentedContext := by
  have hdeclared : Sketched script.items script.declaredContext :=
    Item.always_declareAll Sketched.declare script.items .initial [] sketched_initial hids
  have hparents := always_forM (f := ClassDecl.bindParent)
    (R := fun ctx ctx' => Sketched script.items ctx → Sketched script.items ctx') (fun _ h => h)
    (fun h h' hctx => h' (h hctx)) script.classes fun decl _ ctx h => h.bindParent
  exact hparents script.declaredContext hdeclared

/-- What is known about a script whose names are bound and whose classes have their parents,
without a report. -/
structure Outset (script : Script) (ctx : Context) : Prop where
  outline : Outline script.items ctx
  unfilled : Unfilled script.items ctx
  sketched : Sketched script.items ctx
  parents : ∀ decl ∈ script.classes, decl.HasParent script.items ctx
  clean : ctx.Clean

theorem outset {script : Script} (hproper : script.Proper) (hclean : script.parentedContext.Clean) :
    script.Outset script.parentedContext := by
  have hids := Script.ids_nodup hproper
  obtain ⟨hdeclared, hparents⟩ := script.does_bindParents script.declaredContext _ _ rfl hclean
  obtain ⟨-, houtline⟩ := script.does_declare hproper .initial _ _ rfl hdeclared
  obtain ⟨houtline', hparents⟩ := hparents (houtline rfl)
  exact ⟨houtline', unfilled_parentedContext hids, sketched_parentedContext hids, hparents, hclean⟩

/-- The symbols of twins, and those every unit starts with. -/
def SameItem (script script' : Script) (ctx ctx' : Context) (i j : SymbolId) : Prop :=
  (i = j ∧ i < SymbolTable.initial.size) ∨ ∃ item item', Twins script script' item item' ∧
    ctx.bindings.symbol? item.id = some i ∧ ctx'.bindings.symbol? item'.id = some j

variable {script script' : Script} {ctx ctx' : Context}

theorem Outset.symbol (h : script.Outset ctx) (hproper : script.Proper) {item : Item}
    (hitem : item ∈ script.items) : ∃ id s, ctx.bindings.symbol? item.id = some id ∧
      ctx.symbols.get? id = some s ∧ s.orphan = item.symbol := by
  obtain ⟨id, _, hid, -⟩ := h.outline.bound item hitem
  obtain ⟨-, other, hother, hsame, s, hs, horphan⟩ := h.sketched.bound _ _ hid
  obtain rfl := hproper.item_eq hother hitem (hsame ▸ other.id_mem_nodes) item.id_mem_nodes
  exact ⟨id, s, hid, hs, horphan⟩

/-- Items with the same symbol are the same. -/
theorem Outset.item_eq (h : script.Outset ctx) (hproper : script.Proper) {item other : Item}
    (hitem : item ∈ script.items) (hother : other ∈ script.items) {id : SymbolId}
    (hid : ctx.bindings.symbol? item.id = some id)
    (hid' : ctx.bindings.symbol? other.id = some id) : item = other :=
  hproper.item_eq hitem hother item.id_mem_nodes
    (h.unfilled.apart _ _ _ hid hid' ▸ other.id_mem_nodes)

/-- Inside items, nothing is bound. -/
theorem Outset.symbol?_eq_none (h : script.Outset ctx) (hproper : script.Proper) {item : Item}
    (hitem : item ∈ script.items) {n : NodeId} (hn : n ∈ item.nodes) (hne : n ≠ item.id) :
    ctx.bindings.symbol? n = none := by
  cases hsymbol : ctx.bindings.symbol? n with
  | none => rfl
  | some id =>
      obtain ⟨-, other, hother, rfl, -⟩ := h.sketched.bound n id hsymbol
      exact absurd (congrArg Item.id (hproper.item_eq hother hitem other.id_mem_nodes hn)) hne

/-- The root scope binds the names of the top level, and lies in no other scope. -/
theorem Outset.root (h : script.Outset ctx) : ∃ x, ctx.scopes.get? ScopeTree.root = some x ∧
    x.kind = .root ∧ x.parent = none ∧ ∀ name, x.get? name = ctx.topLevel? script.items name := by
  have hlt : ScopeTree.root < ctx.scopes.size := by
    rw [h.outline.scopes]
    exact Nat.zero_lt_one
  obtain ⟨x, hx⟩ : ∃ x, ctx.scopes.get? ScopeTree.root = some x :=
    ⟨_, List.getElem?_eq_getElem hlt⟩
  refine ⟨x, hx, ?_, ?_, fun name => ?_⟩
  · simpa [ScopeTree.kind, hx] using h.outline.kind
  · cases hparent : x.parent with
    | none => rfl
    | some p =>
        have hlow := h.outline.ok.tree ScopeTree.root p
          (by simp [ScopeTree.parent?, hx, hparent])
        exact absurd hlow (Nat.not_lt_zero p)
  · simpa [ScopeTree.lookupLocal?, hx] using h.outline.names name

namespace Reordered

variable (h : Reordered script script') (ho : script.Outset ctx) (ho' : script'.Outset ctx')

include h ho ho'

/-- Symbols of twins are paired one to one. -/
theorem sameItem_unique : Relator.BiUnique (SameItem script script' ctx ctx') := by
  have hlow : ∀ {script : Script} {ctx : Context} {n i}, script.Outset ctx →
      ctx.bindings.symbol? n = some i → ¬ i < SymbolTable.initial.size :=
    fun ho hi => Nat.not_lt.2 (ho.sketched.bound _ _ hi).1
  constructor
  · rintro i j k (⟨rfl, hi⟩ | ⟨a, a', ha, hi, hk⟩) (⟨rfl, hj⟩ | ⟨b, b', hb, hj, hk'⟩)
    · rfl
    · exact absurd hi (hlow ho' hk')
    · exact absurd hj (hlow ho' hk)
    · obtain rfl := ho'.item_eq h.proper' ha.mem' hb.mem' hk hk'
      obtain rfl := h.twins_unique.1 ha hb
      exact Option.some.inj (hi.symm.trans hj)
  · rintro i j k (⟨rfl, hi⟩ | ⟨a, a', ha, hi, hj⟩) (⟨rfl, hi'⟩ | ⟨b, b', hb, hi', hk⟩)
    · rfl
    · exact absurd hi (hlow ho hi')
    · exact absurd hi' (hlow ho hi)
    · obtain rfl := ho.item_eq h.proper ha.mem hb.mem hi hi'
      obtain rfl := h.twins_unique.2 ha hb
      exact Option.some.inj (hj.symm.trans hk)

/-- What is paired when classes have their parents. -/
def outsetPairing : Pairing where
  symbols := SameItem script script' ctx ctx'
  scopes s s' := s = ScopeTree.root ∧ s' = ScopeTree.root
  uniqueSymbols := h.sameItem_unique ho ho'
  uniqueScopes :=
    ⟨fun _ _ _ ha hb => ha.1.trans hb.1.symm, fun _ _ _ ha hb => ha.2.trans hb.2.symm⟩

/-- Names of the top level stand for twins. -/
theorem topLevel? (name : String) : Option.Rel (SameItem script script' ctx ctx')
    (ctx.topLevel? script.items name) (ctx'.topLevel? script'.items name) := by
  unfold Context.topLevel?
  split
  · exact .some (.inl ⟨rfl, by decide⟩)
  · refine (h.named? name).bind fun item item' htwins => ?_
    obtain ⟨i, -, hi, -⟩ := ho.symbol h.proper htwins.mem
    obtain ⟨j, -, hj, -⟩ := ho'.symbol h.proper' htwins.mem'
    rw [hi, hj]
    exact .some (.inr ⟨item, item', htwins, hi, hj⟩)

omit h ho ho' in
/-- The entries that are there from the start. -/
theorem paired_initial {i : SymbolId} (hi : i < SymbolTable.initial.size) :
    ∃ s, SymbolTable.initial.get? i = some s ∧ s.Paired (SameItem script script' ctx ctx') s := by
  have hself : ∀ k < 5, SameItem script script' ctx ctx' k k := fun k hk => .inl ⟨rfl, hk⟩
  match i, hi with
  | 0, _ =>
      refine ⟨_, rfl, .classEntry ⟨rfl, .none, ?_, ?_, rfl, .none⟩⟩
      · exact .cons (hself 1 (by decide)) (.cons (hself 2 (by decide)) .nil)
      · exact .cons (hself 3 (by decide)) (.cons (hself 4 (by decide)) .nil)
  | 1, _ => exact ⟨_, rfl, .field ⟨rfl, .pointer (.primitive _), hself 0 (by decide), rfl⟩⟩
  | 2, _ => exact ⟨_, rfl, .field ⟨rfl, .primitive _, hself 0 (by decide), rfl⟩⟩
  | 3, _ | 4, _ =>
      exact ⟨_, rfl, .function ⟨rfl, rfl, .primitive _, .nil, rfl, .some (hself 0 (by decide)),
        rfl⟩⟩

/-- The parents of twins are named by their clauses. -/
theorem paired_parent {decl decl' : ClassDecl}
    (htwins : Twins script script' (.classDecl decl) (.classDecl decl')) {i j : SymbolId}
    (hi : ctx.bindings.symbol? decl.id = some i) (hj : ctx'.bindings.symbol? decl'.id = some j) :
    Option.Rel (SameItem script script' ctx ctx') (ctx.symbols.parent? i)
      (ctx'.symbols.parent? j) := by
  obtain ⟨x, p, hx, hp, hname⟩ := ho.parents decl (mem_classes.2 htwins.mem)
  obtain ⟨y, q, hy, hq, hname'⟩ := ho'.parents decl' (mem_classes.2 htwins.mem')
  cases hi.symm.trans hx
  cases hj.symm.trans hy
  have hrel := h.topLevel? ho ho' decl.parentName
  rwa [hname, ← h.parentName htwins, hname', ← hp, ← hq] at hrel

/-- The entries of twins differ in numbers only. -/
theorem paired_entry (htwins : Twins script script' item item') {i j : SymbolId}
    (hi : ctx.bindings.symbol? item.id = some i) (hj : ctx'.bindings.symbol? item'.id = some j) :
    ∃ s s', ctx.symbols.get? i = some s ∧ ctx'.symbols.get? j = some s' ∧
      s.Paired (SameItem script script' ctx ctx') s' := by
  obtain ⟨_, s, hi', hs, horphan⟩ := ho.symbol h.proper htwins.mem
  obtain ⟨_, s', hj', hs', horphan'⟩ := ho'.symbol h.proper' htwins.mem'
  cases hi.symm.trans hi'
  cases hj.symm.trans hj'
  refine ⟨s, s', hs, hs', ?_⟩
  cases h.paired htwins with
  | structDecl hdecl =>
      cases s <;> simp only [Symbol.orphan, Item.symbol, reduceCtorEq] at horphan
      cases s' <;> simp only [Symbol.orphan, Item.symbol, reduceCtorEq] at horphan'
      cases horphan
      cases horphan'
      exact .structEntry ⟨hdecl.name, .nil⟩
  | function hdecl =>
      cases s <;> simp only [Symbol.orphan, Item.symbol, reduceCtorEq] at horphan
      cases s' <;> simp only [Symbol.orphan, Item.symbol, reduceCtorEq] at horphan'
      cases horphan
      cases horphan'
      refine .function ⟨hdecl.name, hdecl.name, .error, .nil, ?_, .none, rfl⟩
      simp [FunctionEntry.free, hdecl.body.isExternal, hdecl.body.isVariadic]
  | @classDecl decl decl' hdecl =>
      cases s <;> simp only [Symbol.orphan, Item.symbol, reduceCtorEq] at horphan
      cases s' <;> simp only [Symbol.orphan, Item.symbol, reduceCtorEq] at horphan'
      next e e' =>
        have hparent := h.paired_parent ho ho' htwins hi hj
        simp only [SymbolTable.parent?, SymbolTable.class?, hs, hs', Symbol.class?,
          Option.bind_some] at hparent
        obtain ⟨_, _, _, _, _, _, _⟩ := e
        obtain ⟨_, _, _, _, _, _, _⟩ := e'
        cases horphan
        cases horphan'
        exact .classEntry ⟨hdecl.name, hparent, .nil, .nil, rfl, .none⟩

theorem paired_symbols : SymbolTable.Paired (fun _ => False) (SameItem script script' ctx ctx')
    ctx.symbols ctx'.symbols := by
  rintro i j (⟨rfl, hi⟩ | ⟨item, item', htwins, hi, hj⟩)
  · obtain ⟨s, hs, hpaired⟩ := paired_initial hi
    exact ⟨s, s, ho.sketched.initial i s hs, ho'.sketched.initial i s hs, hpaired.akin,
      fun _ => hpaired⟩
  · obtain ⟨s, s', hs, hs', hpaired⟩ := h.paired_entry ho ho' htwins hi hj
    exact ⟨s, s', hs, hs', hpaired.akin, fun _ => hpaired⟩

/-- **When classes have their parents, the scripts agree.** -/
theorem paired_outset : Context.Paired h.part (h.outsetPairing ho ho') ctx ctx' where
  table := h.paired_symbols ho ho'
  known _ hi := hi.elim
  scopes := by
    rintro s s' ⟨rfl, rfl⟩
    obtain ⟨x, hx, hkind, hparent, hnames⟩ := ho.root
    obtain ⟨x', hx', hkind', hparent', hnames'⟩ := ho'.root
    refine ⟨x, x', hx, hx', ?_, ?_, fun name => ?_⟩
    · rw [hkind, hkind']
      exact .root
    · rw [hparent, hparent']
      exact .none
    · rw [hnames, hnames']
      exact h.topLevel? ho ho' name
  descends := ho.outline.ok.tree
  descends' := ho'.outline.ok.tree
  symbol? := by
    rintro n n' ⟨items, htwins, hn⟩
    have hid : h.part.nodes items.1.id items.2.id := ⟨items, htwins, htwins.id⟩
    -- Only the nodes of items have symbols, and those of twins correspond.
    by_cases heq : n = items.1.id
    · subst heq
      obtain rfl := h.part.uniqueNodes.2 ⟨items, htwins, hn⟩ hid
      obtain ⟨i, -, hi, -⟩ := ho.symbol h.proper htwins.mem
      obtain ⟨j, -, hj, -⟩ := ho'.symbol h.proper' htwins.mem'
      rw [hi, hj]
      exact .some ⟨.inr ⟨items.1, items.2, htwins, hi, hj⟩, id⟩
    · have heq' : n' ≠ items.2.id := by
        rintro rfl
        exact heq (h.part.uniqueNodes.1 ⟨items, htwins, hn⟩ hid)
      rw [ho.symbol?_eq_none h.proper htwins.mem hn.mem.1 heq,
        ho'.symbol?_eq_none h.proper' htwins.mem' hn.mem.2 heq']
      exact .none
  type? n n' _ := by
    rw [ho.sketched.untyped, ho'.sketched.untyped]
    exact .none
  scope? n n' _ := by
    rw [ho.outline.unopened, ho'.outline.unopened]
    exact .none
  clean := iff_of_true ho'.clean ho.clean

end Reordered

end Script

end ClassLang
