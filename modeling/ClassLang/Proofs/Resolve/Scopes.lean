import ClassLang.Proofs.Resolve.Typing

/-!
# What a scope shows

A name is looked up along the chain of scopes around it.  Scopes get smaller numbers than
the scopes inside them, so chains end, and a chain is not changed by scopes that are opened
later (`ScopeTree.chain_congr`).  `Context.Sees` says that everything that can be found
from a scope belongs to a view: variables of the function, members of its class, and
top-level items.
-/

namespace ClassLang

namespace ScopeTree

variable {tree tree' : ScopeTree} {id : ScopeId}

/-- Every scope has a larger number than the one around it. -/
def Descends (tree : ScopeTree) : Prop :=
  ∀ id parent, tree.parent? id = some parent → parent < id

/-- Behind the tree there is no scope. -/
theorem get?_eq_none (h : tree.size ≤ id) : tree.get? id = none := List.getElem?_eq_none h

/-- What stands under a number after a scope was opened. -/
theorem get?_push (tree : ScopeTree) (parent : ScopeId) (kind : ScopeKind) (id : ScopeId) :
    (tree.push parent kind).get? id =
      if id = tree.size then some { kind, parent := some parent } else tree.get? id := by
  rcases Nat.lt_trichotomy id tree.size with h | h | h
  · rw [get?_push_of_lt tree parent kind h, if_neg (Nat.ne_of_lt h)]
  · rw [h, get?_push_size, if_pos rfl]
  · rw [get?_eq_none (Nat.le_of_lt h), get?_eq_none, if_neg (Nat.ne_of_gt h)]
    simpa using Nat.succ_le_of_lt h

@[simp] theorem parent?_bind (tree : ScopeTree) (scope : ScopeId) (name : String)
    (symbol : SymbolId) (id : ScopeId) :
    (tree.bind scope name symbol).parent? id = tree.parent? id := by
  simp only [parent?, get?_bind]
  split
  · cases tree.get? id <;> rfl
  · rfl

@[simp] theorem kind_bind (tree : ScopeTree) (scope : ScopeId) (name : String)
    (symbol : SymbolId) (id : ScopeId) :
    (tree.bind scope name symbol).kind id = tree.kind id := by
  simp only [kind, get?_bind]
  split
  · cases tree.get? id <;> rfl
  · rfl

/-- What a scope binds after a free name was bound somewhere. -/
theorem lookupLocal?_bind (tree : ScopeTree) {scope : ScopeId} {name : String}
    (symbol : SymbolId) (hscope : scope < tree.size)
    (hfree : tree.lookupLocal? scope name = none) (id : ScopeId) (other : String) :
    (tree.bind scope name symbol).lookupLocal? id other =
      if id = scope ∧ other = name then some symbol else tree.lookupLocal? id other := by
  simp only [lookupLocal?, get?_bind] at hfree ⊢
  by_cases hid : id = scope
  · subst hid
    obtain ⟨s, hs⟩ : ∃ s, tree.get? id = some s := ⟨_, List.getElem?_eq_getElem hscope⟩
    simp only [hs, Option.bind_some] at hfree
    by_cases hname : other = name
    · subst hname
      simp [hs, Scope.get?_bind, hfree]
    · simp [hs, Scope.get?_bind, hname]
  · simp [hid, Ne.symm hid]

/-- A new name, in the scope that binds it. -/
theorem lookupLocal?_bind_same (tree : ScopeTree) {scope : ScopeId} {name : String}
    (symbol : SymbolId) (hscope : scope < tree.size)
    (hfree : tree.lookupLocal? scope name = none) (other : String) :
    (tree.bind scope name symbol).lookupLocal? scope other =
      if other = name then some symbol else tree.lookupLocal? scope other := by
  simp only [lookupLocal?_bind tree symbol hscope hfree, true_and]

/-- The chain of a scope depends on the parents of the scopes up to it. -/
theorem chainUpTo_congr (htree : tree.Descends)
    (h : ∀ i ≤ id, tree'.parent? i = tree.parent? i) {fuel fuel' : Nat} (hfuel : id < fuel)
    (hfuel' : id < fuel') : tree'.chainUpTo fuel' id = tree.chainUpTo fuel id := by
  induction id using Nat.strongRecOn generalizing fuel fuel' with
  | ind id ih =>
      obtain ⟨fuel, rfl⟩ := Nat.exists_eq_succ_of_ne_zero (Nat.ne_of_gt (Nat.zero_lt_of_lt hfuel))
      obtain ⟨fuel', rfl⟩ := Nat.exists_eq_succ_of_ne_zero (Nat.ne_of_gt (Nat.zero_lt_of_lt hfuel'))
      simp only [chainUpTo, h id (Nat.le_refl id)]
      cases hparent : tree.parent? id with
      | none => rfl
      | some parent =>
          have hlt : parent < id := htree id parent hparent
          simp only
          rw [ih parent hlt (fun i hi => h i (Nat.le_trans hi (Nat.le_of_lt hlt)))
            (Nat.lt_of_lt_of_le hlt (Nat.le_of_lt_succ hfuel))
            (Nat.lt_of_lt_of_le hlt (Nat.le_of_lt_succ hfuel'))]

/-- A chain depends on the scopes up to its start only. -/
theorem chain_congr (htree : tree.Descends) (h : ∀ i ≤ id, tree'.parent? i = tree.parent? i)
    (hid : id < tree.size) (hid' : id < tree'.size) : tree'.chain id = tree.chain id :=
  chainUpTo_congr htree h hid hid'

/-- The chain of a scope goes down. -/
theorem le_of_mem_chainUpTo (htree : tree.Descends) {fuel : Nat} {s : ScopeId}
    (h : s ∈ tree.chainUpTo fuel id) : s ≤ id := by
  induction fuel generalizing id with
  | zero => simp [chainUpTo] at h
  | succ fuel ih =>
      simp only [chainUpTo] at h
      rcases List.mem_cons.1 h with rfl | h
      · exact Nat.le_refl s
      · split at h
        · next parent hparent =>
            exact Nat.le_trans (ih h) (Nat.le_of_lt (htree id parent hparent))
        · simp at h

/-- A chain goes to smaller numbers. -/
theorem le_of_mem_chain (htree : tree.Descends) {s : ScopeId} (h : s ∈ tree.chain id) :
    s ≤ id :=
  le_of_mem_chainUpTo htree h

/-- The chain of a scope goes on with the chain of the scope around it. -/
theorem chain_eq (htree : tree.Descends) (hid : id < tree.size) :
    tree.chain id = id :: match tree.parent? id with
      | some parent => tree.chain parent
      | none => [] := by
  obtain ⟨n, hn⟩ := Nat.exists_eq_succ_of_ne_zero (Nat.ne_of_gt (Nat.zero_lt_of_lt hid))
  simp only [chain, hn, chainUpTo]
  cases hparent : tree.parent? id with
  | none => rfl
  | some parent =>
      have hlt : parent < id := htree id parent hparent
      have hlt' : parent < n := Nat.lt_of_lt_of_le hlt (Nat.le_of_lt_succ (hn ▸ hid))
      simp only [← chainUpTo.eq_2]
      rw [chainUpTo_congr htree (fun _ _ => rfl) (Nat.lt_succ_of_lt hlt') hlt']

/-- Nothing lies around the outermost scope. -/
theorem Descends.parent?_root (htree : tree.Descends) : tree.parent? root = none := by
  cases hparent : tree.parent? root with
  | none => rfl
  | some parent => exact absurd (htree _ _ hparent) (Nat.not_lt_zero _)

/-- From the outermost scope, a name is looked up there only. -/
theorem Descends.lookup?_root (htree : tree.Descends) (hroot : root < tree.size) (name : String) :
    tree.lookup? root name = tree.lookupLocal? root name := by
  rw [lookup?, chain_eq htree hroot, htree.parent?_root]
  cases hlocal : tree.lookupLocal? root name <;> simp [hlocal]

/-- The new scope has the parent it was opened in. -/
theorem parent?_push (tree : ScopeTree) (parent : ScopeId) (kind : ScopeKind) (id : ScopeId) :
    (tree.push parent kind).parent? id =
      if id = tree.size then some parent else tree.parent? id := by
  simp only [parent?, get?_push]
  split <;> rfl

/-- The new scope is of the kind it was opened as. -/
theorem kind_push (tree : ScopeTree) (parent : ScopeId) (kind : ScopeKind) (id : ScopeId) :
    (tree.push parent kind).kind id = if id = tree.size then kind else tree.kind id := by
  simp only [ScopeTree.kind, get?_push]
  split <;> rfl

/-- The new scope binds nothing. -/
theorem lookupLocal?_push (tree : ScopeTree) (parent : ScopeId) (kind : ScopeKind)
    (id : ScopeId) (name : String) :
    (tree.push parent kind).lookupLocal? id name =
      if id = tree.size then none else tree.lookupLocal? id name := by
  simp only [lookupLocal?, get?_push]
  split <;> rfl

/-- In a tree with a new scope, parents still come first. -/
theorem Descends.push (htree : tree.Descends) {parent : ScopeId} (hparent : parent < tree.size)
    (kind : ScopeKind) : (tree.push parent kind).Descends := by
  intro id p hp
  rw [parent?_push] at hp
  split at hp
  · next heq =>
      cases hp
      rwa [heq]
  · exact htree id p hp

/-- Binding a name changes no parent. -/
theorem Descends.bind (htree : tree.Descends) (scope : ScopeId) (name : String)
    (symbol : SymbolId) : (tree.bind scope name symbol).Descends := by
  intro id p hp
  rw [parent?_bind] at hp
  exact htree id p hp

end ScopeTree

/-- The functions of a table all have their signatures. -/
def SymbolTable.Resolved (table : SymbolTable) : Prop :=
  ∀ id entry, table.function? id = some entry → entry.resolved = true

namespace Context

variable {ctx ctx' : Context} {view : View} {scope : ScopeId}

/-- A context in which everything that is known is right. -/
structure Ok (ctx : Context) : Prop where
  table : ctx.symbols.Ok
  tree : ctx.scopes.Descends
  /-- Names are bound to symbols. -/
  bound : ∀ scope name id, ctx.scopes.lookupLocal? scope name = some id → id < ctx.symbols.size
  /-- At the top level, names are bound to items. -/
  root : ∀ name id, ctx.scopes.lookupLocal? ScopeTree.root name = some id →
    ∃ symbol, ctx.symbols.get? id = some symbol ∧ symbol.IsItem

/-- What a scope itself binds can be seen in a view.  The body of a class shows its
members. -/
def Shows (ctx : Context) (view : View) (scope : ScopeId) : Prop :=
  match ctx.scopes.kind scope with
  | .classBody id => view.owner = some id
  | _ => ∀ name id, ctx.scopes.lookupLocal? scope name = some id →
    (id ∈ view.visible ∧ (ctx.symbols.storedVariable? id).isSome = true) ∨
      ∃ symbol, ctx.symbols.get? id = some symbol ∧ symbol.IsItem

/-- Everything that can be found from a scope belongs to a view. -/
structure Sees (ctx : Context) (scope : ScopeId) (view : View) : Prop where
  opened : scope < ctx.scopes.size
  shows : ∀ s ∈ ctx.scopes.chain scope, ctx.Shows view s

/-- **A name finds what can be seen.** -/
theorem Sees.of_lookupName? (h : ctx.Sees scope view) {name : String} {id : SymbolId}
    (hname : ctx.lookupName? scope name = some id) :
    (id ∈ view.visible ∧ (ctx.symbols.storedVariable? id).isSome = true) ∨
      (∃ symbol, ctx.symbols.get? id = some symbol ∧ symbol.IsItem) ∨
      ∃ owner, view.owner = some owner ∧ ctx.symbols.HasMember owner id := by
  obtain ⟨s, hs, hfound⟩ := List.exists_of_findSome?_eq_some hname
  have hshows := h.shows s hs
  unfold Shows at hshows
  split at hfound
  · next c hkind =>
      rw [hkind] at hshows
      exact .inr (.inr ⟨c, hshows, SymbolTable.hasMember_of_member? hfound⟩)
  · next hkind =>
      split at hshows
      · next c hc => exact absurd hc (hkind c)
      · rcases hshows name id hfound with hvariable | hitem
        · exact .inl hvariable
        · exact .inr (.inl hitem)

/-- Everything that a body needs is known, and the scope, which is not that of the unit, shows
it. -/
structure Ready (ctx : Context) (scope : ScopeId) (view : View) : Prop where
  ok : ctx.Ok
  resolved : ctx.symbols.Resolved
  inside : ScopeTree.root < scope
  sees : ctx.Sees scope view

/-- Only symbols and scopes count. -/
theorem Ready.congr (h : ctx.Ready scope view) (hsymbols : ctx'.symbols = ctx.symbols)
    (hscopes : ctx'.scopes = ctx.scopes) : ctx'.Ready scope view := by
  obtain ⟨⟨htable, htree, hbound, hroot⟩, hresolved, hinside, hopened, hshows⟩ := h
  constructor
  · constructor <;> simpa only [hsymbols, hscopes]
  · simpa only [hsymbols]
  · exact hinside
  · constructor
    · simpa only [hscopes]
    · simpa only [Shows, hsymbols, hscopes] using hshows

end Context

end ClassLang
