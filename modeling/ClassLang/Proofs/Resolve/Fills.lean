import ClassLang.Proofs.Resolve.Items
import ClassLang.Proofs.Resolve.Stmt

/-!
# Filling in declarations

While members and signatures are read, records and functions get their contents, one item
after the other.  `Context.Growing` says what is right at any time, with the functions that
still wait for their signatures; `Fills` says what reading one declaration may change: the
entry of its own class or struct, and nothing about other records or about parents.
-/

namespace ClassLang

open Analysis

namespace SymbolTable

variable {t : SymbolTable} {id : SymbolId} {f : Symbol → Symbol} {s : Symbol}

/-- A change that leaves functions alone changes no function. -/
theorem function?_modify (h : ∀ s, t.get? id = some s → (f s).function? = s.function?)
    (x : SymbolId) : (t.modify id f).function? x = t.function? x := by
  simp only [function?, get?_modify]
  split
  · next heq =>
      subst heq
      cases hget : t.get? id with
      | none => rfl
      | some s => exact h s hget
  · rfl

/-- A change that leaves parents alone changes no parent. -/
theorem parent?_modify
    (h : ∀ s, t.get? id = some s → (f s).class?.bind ClassEntry.parent =
      s.class?.bind ClassEntry.parent) (x : SymbolId) :
    (t.modify id f).parent? x = t.parent? x := by
  simp only [parent?, class?, get?_modify]
  split
  · next heq =>
      subst heq
      cases hget : t.get? id with
      | none => rfl
      | some s => simpa using h s hget
  · rfl

/-- A change that adds no layout lays nothing out. -/
theorem Unlaid.modify (h : t.Unlaid)
    (hf : ∀ s, t.get? id = some s → s.bare = s → (f s).bare = f s) : (t.modify id f).Unlaid := by
  intro x s hs
  rw [get?_modify] at hs
  split at hs
  · next heq =>
      subst heq
      obtain ⟨s₀, hs₀, rfl⟩ := Option.map_eq_some_iff.1 hs
      exact hf s₀ hs₀ (h id s₀ hs₀)
  · exact h x s hs

/-- Functions wait for their signatures where the functions are the same. -/
theorem Pending.congr {t' : SymbolTable} {ids : List SymbolId} (h : t.Pending ids)
    (heq : ∀ x, t'.function? x = t.function? x) : t'.Pending ids :=
  fun x entry hentry hopen => h x entry ((heq x).symm.trans hentry) hopen

/-- A function that gets its signature waits no longer. -/
theorem Pending.sign {ids : List SymbolId} (h : t.Pending (id :: ids)) {entry : FunctionEntry}
    (hresolved : entry.resolved = true) : (t.modify id fun _ => .function entry).Pending ids := by
  intro x e he hopen
  obtain ⟨s, hs, hfunction⟩ := Option.bind_eq_some_iff.1 he
  rw [get?_modify] at hs
  split at hs
  · obtain ⟨s₀, -, rfl⟩ := Option.map_eq_some_iff.1 hs
    cases hfunction
    simp [hresolved] at hopen
  · next hne =>
      rcases List.mem_cons.1 (h x e (by simp [function?, hs, hfunction]) hopen) with heq | hmem
      · exact absurd heq.symm hne
      · exact hmem

end SymbolTable

/-- Everything that is known is right, nothing is laid out, and only some functions wait for
their signatures. -/
structure Context.Growing (ctx : Context) (pending : List SymbolId) : Prop where
  ok : ctx.Ok
  unlaid : ctx.symbols.Unlaid
  pending : ctx.symbols.Pending pending
  opened : ScopeTree.root < ctx.scopes.size
  kind : ctx.scopes.kind ScopeTree.root = .root

/-- What reading a declaration may change: the entries `changed`, some nodes and some scopes.
No item is added, and no class changes its parent. -/
structure Fills (changed : List SymbolId) (nodes : List NodeId) (touched : List ScopeId)
    (ctx ctx' : Context) : Prop where
  confined : Confined nodes touched ctx ctx'
  later : ctx.symbols.Later ctx'.symbols
  entries : ∀ id < ctx.symbols.size, id ∉ changed → ctx'.symbols.get? id = ctx.symbols.get? id
  items : ∀ id s, ctx.symbols.size ≤ id → ctx'.symbols.get? id = some s → ¬ s.IsItem
  parents : ∀ id, ctx'.symbols.parent? id = ctx.symbols.parent? id

namespace Fills

variable {changed changed' : List SymbolId} {nodes nodes' : List NodeId}
  {touched touched' : List ScopeId} {ctx ctx' ctx'' : Context} {id : SymbolId}

/-- Nothing is filled in. -/
theorem refl (changed : List SymbolId) (nodes : List NodeId) (touched : List ScopeId)
    (ctx : Context) : Fills changed nodes touched ctx ctx := by
  refine ⟨.refl nodes touched ctx, .refl _, fun _ _ _ => rfl, fun id s hid hs => ?_, fun _ => rfl⟩
  simp [SymbolTable.get?_eq_none hid] at hs

/-- Two runs in a row fill in what either may. -/
theorem trans (h : Fills changed nodes touched ctx ctx')
    (h' : Fills changed nodes touched ctx' ctx'') : Fills changed nodes touched ctx ctx'' where
  confined := h.confined.trans h'.confined
  later := h.later.trans h'.later
  entries id hid hnot :=
    (h'.entries id (Nat.lt_of_lt_of_le hid h.later.size_le) hnot).trans (h.entries id hid hnot)
  items id s hid hs := by
    rcases Nat.lt_or_ge id ctx'.symbols.size with hlt | hge
    · obtain ⟨s₁, hs₁⟩ := Option.isSome_iff_exists.1 ((ctx'.symbols.isSome_get?_iff id).2 hlt)
      obtain ⟨s₂, hs₂, hlater⟩ := h'.later id s₁ hs₁
      cases hs.symm.trans hs₂
      rw [hlater.isItem_iff]
      exact h.items id s₁ hid hs₁
    · exact h'.items id s hge hs
  parents id := (h'.parents id).trans (h.parents id)

/-- What is filled in may be stated of more. -/
theorem mono (h : Fills changed nodes touched ctx ctx')
    (hchanged : ∀ id ∈ changed, id < ctx.symbols.size → id ∈ changed') (hnodes : nodes ⊆ nodes')
    (htouched : ∀ id ∈ touched, id < ctx.scopes.size → id ∈ touched') :
    Fills changed' nodes' touched' ctx ctx' :=
  ⟨h.confined.mono hnodes htouched, h.later,
    fun id hid hnot => h.entries id hid fun hmem => hnot (hchanged id hmem hid), h.items,
    h.parents⟩

/-- What is read off the symbols of items is as it was. -/
theorem bind_get? {α : Type} {f : Symbol → Option α} (hf : ∀ s a, f s = some a → s.IsItem)
    (h : Fills changed nodes touched ctx ctx') (hid : id ∉ changed) :
    (ctx'.symbols.get? id).bind f = (ctx.symbols.get? id).bind f := by
  rcases Nat.lt_or_ge id ctx.symbols.size with hlt | hge
  · rw [h.entries id hlt hid]
  · rw [SymbolTable.get?_eq_none hge, Option.bind_none]
    cases hs : ctx'.symbols.get? id with
    | none => rfl
    | some s =>
        cases hread : f s with
        | none => exact hread
        | some a => exact absurd (hf s a hread) (h.items id s hge hs)

/-- A class is as it was. -/
theorem class? (h : Fills changed nodes touched ctx ctx') (hid : id ∉ changed) :
    ctx'.symbols.class? id = ctx.symbols.class? id :=
  h.bind_get? (fun _ _ => Symbol.isItem_of_class?) hid

/-- A struct is as it was. -/
theorem struct? (h : Fills changed nodes touched ctx ctx') (hid : id ∉ changed) :
    ctx'.symbols.struct? id = ctx.symbols.struct? id :=
  h.bind_get? (fun _ _ => Symbol.isItem_of_struct?) hid

/-- A new symbol that is no item fills in nothing of the others. -/
theorem add {s : Symbol} (hs : ¬ s.IsItem) :
    Fills changed nodes touched ctx { ctx with symbols := ctx.symbols.add s } := by
  have hclass : s.class? = none := by
    cases hclass : s.class? with
    | none => rfl
    | some e => exact absurd (Symbol.isItem_of_class? hclass) hs
  refine ⟨.addSymbol _ _ _ _, SymbolTable.later_add _ _,
    fun id hid _ => SymbolTable.get?_add_of_lt _ _ hid, fun id s' hid hs' => ?_, fun id => ?_⟩
  · simp only [SymbolTable.get?_add] at hs'
    split at hs'
    · cases hs'
      exact hs
    · simp [SymbolTable.get?_eq_none hid] at hs'
  · simp only [SymbolTable.parent?, SymbolTable.class?_add]
    split
    · next heq => simp [hclass, heq, SymbolTable.class?, SymbolTable.get?_eq_none (Nat.le_refl _)]
    · rfl

/-- Nodes and scopes that are concerned, with the symbols left as they are. -/
theorem ofConfined (h : Confined nodes touched ctx ctx') (hsymbols : ctx'.symbols = ctx.symbols) :
    Fills changed nodes touched ctx ctx' := by
  have hrefl := Fills.refl changed nodes touched ctx
  refine ⟨h, ?_, ?_, ?_, ?_⟩
  · exact hsymbols ▸ hrefl.later
  · exact hsymbols ▸ hrefl.entries
  · exact hsymbols ▸ hrefl.items
  · exact hsymbols ▸ hrefl.parents

/-- A symbol is attached to one of the nodes. -/
theorem bindSymbol {node : NodeId} (hnode : node ∈ nodes) (symbol : SymbolId) :
    Fills changed nodes touched ctx { ctx with bindings := ctx.bindings.bindSymbol node symbol } :=
  ofConfined ((Confined.bindSymbol node symbol touched ctx).mono (by simpa using hnode)
    fun _ h _ => h) rfl

/-- A scope is opened and attached to one of the nodes. -/
theorem openScope {node : NodeId} (hnode : node ∈ nodes) (parent : ScopeId) (kind : ScopeKind) :
    Fills changed nodes touched ctx { ctx with
      scopes := ctx.scopes.push parent kind
      bindings := ctx.bindings.bindScope node ctx.scopes.size } :=
  ofConfined ((Confined.openScope node touched parent kind ctx).mono (by simpa using hnode)
    fun _ h _ => h) rfl

/-- A name is bound in one of the scopes. -/
theorem bindName {scope : ScopeId} (hscope : scope ∈ touched) (name : String)
    (symbol : SymbolId) :
    Fills changed nodes touched ctx { ctx with scopes := ctx.scopes.bind scope name symbol } :=
  ofConfined ((Confined.bindName nodes scope name symbol ctx).mono (fun _ h => h)
    (by simpa using fun _ => hscope)) rfl

/-- An entry changes, but not the parent of a class. -/
theorem modify {f : Symbol → Symbol} (hid : id ∈ changed)
    (hlater : ctx.symbols.Later (ctx.symbols.modify id f))
    (hparent : ∀ s, ctx.symbols.get? id = some s → (f s).class?.bind ClassEntry.parent =
      s.class?.bind ClassEntry.parent) :
    Fills changed nodes touched ctx { ctx with symbols := ctx.symbols.modify id f } := by
  refine ⟨.addSymbol _ _ _ _, hlater, fun x _ hx => ?_, fun x s hx hs => ?_,
    SymbolTable.parent?_modify hparent⟩
  · have hne : id ≠ x := fun heq => hx (heq ▸ hid)
    simp [SymbolTable.get?_modify, hne]
  · simp [SymbolTable.get?_modify, SymbolTable.get?_eq_none hx] at hs

end Fills

namespace Context

variable {ctx ctx' : Context} {pending : List SymbolId} {scope : ScopeId} {view : View}

namespace Growing

/-- The scope of the unit shows the items to everyone. -/
theorem sees_root (h : ctx.Growing pending) (owner : Option SymbolId) :
    ctx.Sees ScopeTree.root ⟨owner, []⟩ := by
  refine ⟨h.opened, fun s hs => ?_⟩
  have hs' : s = ScopeTree.root := Nat.le_zero.1 (ScopeTree.le_of_mem_chain h.ok.tree hs)
  subst hs'
  unfold Shows
  rw [h.kind]
  exact fun name id hname => .inr (h.ok.root name id hname)

/-- What is attached to nodes makes no difference to a growing table. -/
theorem bindings (h : ctx.Growing pending) (bindings : Bindings) :
    ({ ctx with bindings } : Context).Growing pending :=
  ⟨h.ok.bindings bindings, h.unlaid, h.pending, h.opened, h.kind⟩

/-- A new symbol that is right leaves a growing table growing. -/
theorem add (h : ctx.Growing pending) {s : Symbol}
    (hs : s.Ok (ctx.symbols.add s) ctx.symbols.size) (hbare : s.bare = s)
    (hresolved : ∀ entry, s.function? = some entry → entry.resolved = true) :
    ({ ctx with symbols := ctx.symbols.add s } : Context).Growing pending :=
  ⟨h.ok.symbols (h.ok.table.add hs) (SymbolTable.later_add _ _), h.unlaid.add hbare,
    h.pending.add hresolved, h.opened, h.kind⟩

/-- A function of which only the name is known waits for its signature. -/
theorem addFunction (h : ctx.Growing pending) {entry : FunctionEntry}
    (hs : (Symbol.function entry).Ok (ctx.symbols.add (.function entry)) ctx.symbols.size) :
    ({ ctx with symbols := ctx.symbols.add (.function entry) } : Context).Growing
      (ctx.symbols.size :: pending) := by
  refine ⟨h.ok.symbols (h.ok.table.add hs) (SymbolTable.later_add _ _), h.unlaid.add rfl, ?_,
    h.opened, h.kind⟩
  intro id e he hopen
  rw [SymbolTable.function?_add] at he
  split at he
  · next heq => simp [heq]
  · exact List.mem_cons_of_mem _ (h.pending id e he hopen)

/-- A new scope leaves a growing table growing. -/
theorem push (h : ctx.Growing pending) (hscope : scope < ctx.scopes.size) (kind : ScopeKind) :
    ({ ctx with scopes := ctx.scopes.push scope kind } : Context).Growing pending := by
  refine ⟨h.ok.push hscope kind, h.unlaid, h.pending, ?_, ?_⟩
  · simpa using Nat.lt_succ_of_lt h.opened
  · rw [ScopeTree.kind_push, if_neg (Nat.ne_of_lt h.opened), h.kind]

/-- A new name inside leaves a growing table growing. -/
theorem bindName (h : ctx.Growing pending) (hscope : scope < ctx.scopes.size) {name : String}
    {symbol : SymbolId} (hfree : ctx.scopes.lookupLocal? scope name = none)
    (hsymbol : symbol < ctx.symbols.size) (hinside : ScopeTree.root < scope) :
    ({ ctx with scopes := ctx.scopes.bind scope name symbol } : Context).Growing pending :=
  ⟨h.ok.bindName hscope hfree hsymbol hinside, h.unlaid, h.pending, by simpa using h.opened,
    by simpa using h.kind⟩

/-- An entry changes into one that is right. -/
theorem modify (h : ctx.Growing pending) {id : SymbolId} {f : Symbol → Symbol}
    (hok : (ctx.symbols.modify id f).Ok) (hlater : ctx.symbols.Later (ctx.symbols.modify id f))
    (hbare : ∀ s, ctx.symbols.get? id = some s → s.bare = s → (f s).bare = f s)
    (hfunction : ∀ s, ctx.symbols.get? id = some s → (f s).function? = s.function?) :
    ({ ctx with symbols := ctx.symbols.modify id f } : Context).Growing pending :=
  ⟨h.ok.symbols hok hlater, h.unlaid.modify hbare,
    h.pending.congr (SymbolTable.function?_modify hfunction), h.opened, h.kind⟩

/-- Fields can be added to records. -/
theorem pushField (h : ctx.Growing pending) {owner field : SymbolId}
    (hfield : ctx.symbols.FieldOf field owner)
    (hnew : ∀ s, ctx.symbols.get? owner = some s →
      field ∉ (match s with
        | .classEntry e => e.fields
        | .structEntry e => e.fields
        | _ => [])) :
    ({ ctx with symbols := ctx.symbols.pushField owner field } : Context).Growing pending := by
  refine h.modify (h.ok.table.pushField hfield hnew) (SymbolTable.later_pushField _ _ _) ?_ ?_
  · intro s _ hbare
    cases s with
    | classEntry e =>
        have hlayout : e.layout = none := Symbol.bare_classEntry_iff.1 hbare
        exact Symbol.bare_classEntry_iff.2 hlayout
    | structEntry e => rfl
    | _ => exact hbare
  · intro s _
    cases s <;> rfl

/-- A class entry changes in its functions only. -/
theorem modifyClass (h : ctx.Growing pending) {id : SymbolId} {f : ClassEntry → ClassEntry}
    (hok : (ctx.symbols.modifyClass id f).Ok)
    (hlater : ctx.symbols.Later (ctx.symbols.modifyClass id f))
    (hlayout : ∀ e, (f e).layout = e.layout) :
    ({ ctx with symbols := ctx.symbols.modifyClass id f } : Context).Growing pending := by
  refine h.modify hok hlater ?_ ?_
  · intro s _ hbare
    cases s with
    | classEntry e =>
        exact Symbol.bare_classEntry_iff.2 ((hlayout e).trans (Symbol.bare_classEntry_iff.1 hbare))
    | _ => exact hbare
  · intro s _
    cases s <;> rfl

end Growing

end Context

end ClassLang
