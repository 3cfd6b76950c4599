import Mathlib.Order.Basic
import ClassLang.Proofs.Order.Pairing
import ClassLang.Proofs.Resolve.Signature

/-!
# Two analyses in step

The same part of a program is analysed in two units that order their declarations differently.
What was analysed before it differs, and so do the numbers that symbols, scopes and nodes get.  A
`Pairing` says which numbers stand for the same thing, and `Context.Paired` that two contexts agree
on what is paired.  `Analysis.InStep` says that two programs lead from such contexts to such
contexts: both add symbols and scopes at the same moments, which are paired from then on, and one
reports an error exactly if the other does.
-/

open List (Forall₂)

namespace ClassLang

/-! ## Pairings -/

/-- Symbols and scopes of two units that stand for the same thing, one to one. -/
structure Pairing where
  symbols : SymbolId → SymbolId → Prop
  scopes : ScopeId → ScopeId → Prop
  uniqueSymbols : Relator.BiUnique symbols
  uniqueScopes : Relator.BiUnique scopes

namespace Pairing

/-- One more pair of numbers that were not paired before. -/
def Adding (r : Nat → Nat → Prop) (i j : Nat) : Nat → Nat → Prop :=
  fun a b => r a b ∨ a = i ∧ b = j

/-- A relation stays one to one with a pair of numbers that are new on both sides. -/
theorem biUnique_adding {r : Nat → Nat → Prop} (hunique : Relator.BiUnique r) {i j : Nat}
    (hi : ∀ b, ¬ r i b) (hj : ∀ a, ¬ r a j) : Relator.BiUnique (Adding r i j) := by
  constructor
  · rintro a b c (hac | ⟨ha, hc⟩) (hbc | ⟨hb, hc'⟩)
    · exact hunique.1 hac hbc
    · exact absurd (hc' ▸ hac) (hj a)
    · exact absurd (hc ▸ hbc) (hj b)
    · exact ha.trans hb.symm
  · rintro a b c (hab | ⟨ha, hb⟩) (hac | ⟨ha', hc⟩)
    · exact hunique.2 hab hac
    · exact absurd (ha' ▸ hab) (hi b)
    · exact absurd (ha ▸ hac) (hi c)
    · exact hb.trans hc.symm

/-- A pairing that pairs at least what another one pairs. -/
structure Le (m m' : Pairing) : Prop where
  symbols : ∀ {i j}, m.symbols i j → m'.symbols i j
  scopes : ∀ {s s'}, m.scopes s s' → m'.scopes s s'

instance : Preorder Pairing where
  le := Le
  le_refl _ := ⟨id, id⟩
  le_trans _ _ _ h h' := ⟨fun hij => h'.symbols (h.symbols hij), fun hs => h'.scopes (h.scopes hs)⟩

end Pairing

/-- What scopes belong to. -/
inductive ScopeKind.Paired (r : SymbolId → SymbolId → Prop) : ScopeKind → ScopeKind → Prop
  | root : Paired r .root .root
  | classBody {i j : SymbolId} (h : r i j) : Paired r (.classBody i) (.classBody j)
  | function {i j : SymbolId} (h : r i j) : Paired r (.function i) (.function j)
  | block : Paired r .block .block

/-- Scopes of paired kinds stay so when more is paired. -/
theorem ScopeKind.Paired.imp {r r' : SymbolId → SymbolId → Prop} {kind kind' : ScopeKind}
    (h : kind.Paired r kind') (hr : ∀ i j, r i j → r' i j) : kind.Paired r' kind' := by
  cases h with
  | root => exact .root
  | classBody h => exact .classBody (hr _ _ h)
  | function h => exact .function (hr _ _ h)
  | block => exact .block

/-- Two scopes that bind the same names to symbols that are paired. -/
structure Scope.Paired (m : Pairing) (s s' : Scope) : Prop where
  kind : s.kind.Paired m.symbols s'.kind
  parent : Option.Rel m.scopes s.parent s'.parent
  names : ∀ name, Option.Rel m.symbols (s.get? name) (s'.get? name)

/-- Scopes that are paired stay so when more is paired. -/
theorem Scope.Paired.le {m m' : Pairing} {s s' : Scope} (h : s.Paired m s') (hle : m ≤ m') :
    s.Paired m' s' where
  kind := h.kind.imp fun _ _ => hle.symbols
  parent := h.parent.imp fun _ _ => hle.scopes
  names name := (h.names name).imp fun _ _ => hle.symbols

/-! ## Contexts -/

/-- What is compared of two units. -/
structure Part where
  /-- Nodes that stand for the same part of a program, one to one. -/
  nodes : NodeId → NodeId → Prop
  /-- Symbols of the first unit whose entries are not compared. -/
  hidden : SymbolId → Prop
  uniqueNodes : Relator.BiUnique nodes

/-- Two contexts agree on a part of two units. -/
structure Context.Paired (part : Part) (m : Pairing) (c c' : Context) : Prop where
  table : SymbolTable.Paired part.hidden m.symbols c.symbols c'.symbols
  known : ∀ i, part.hidden i → i < c.symbols.size
  scopes : ∀ s s', m.scopes s s' → ∃ x x', c.scopes.get? s = some x ∧ c'.scopes.get? s' = some x' ∧
    x.Paired m x'
  descends : c.scopes.Descends
  descends' : c'.scopes.Descends
  symbol? : ∀ n n', part.nodes n n' →
    Option.Rel (fun i j => m.symbols i j ∧ ¬ part.hidden i) (c.bindings.symbol? n)
      (c'.bindings.symbol? n')
  type? : ∀ n n', part.nodes n n' →
    Option.Rel (Ty.Paired m.symbols) (c.bindings.type? n) (c'.bindings.type? n')
  scope? : ∀ n n', part.nodes n n' →
    Option.Rel m.scopes (c.bindings.scope? n) (c'.bindings.scope? n')
  clean : c'.Clean ↔ c.Clean

namespace Context.Paired

variable {part : Part} {m : Pairing} {c c' : Context} {s s' : ScopeId} {i j : SymbolId}

/-- Scopes that are paired are in their trees. -/
theorem scope_lt (h : Paired part m c c') (hs : m.scopes s s') :
    s < c.scopes.size ∧ s' < c'.scopes.size := by
  obtain ⟨x, x', hx, hx', -⟩ := h.scopes s s' hs
  exact ⟨(List.getElem?_eq_some_iff.1 hx).1, (List.getElem?_eq_some_iff.1 hx').1⟩

/-- Scopes that are paired belong to things that are. -/
theorem scopeKind (h : Paired part m c c') (hs : m.scopes s s') :
    (c.scopes.kind s).Paired m.symbols (c'.scopes.kind s') := by
  obtain ⟨x, x', hx, hx', hpaired⟩ := h.scopes s s' hs
  simpa only [ScopeTree.kind, hx, hx', Option.map_some, Option.getD_some] using hpaired.kind

/-- Scopes that are paired have parents that are. -/
theorem scopeParent? (h : Paired part m c c') (hs : m.scopes s s') :
    Option.Rel m.scopes (c.scopes.parent? s) (c'.scopes.parent? s') := by
  obtain ⟨x, x', hx, hx', hpaired⟩ := h.scopes s s' hs
  simpa only [ScopeTree.parent?, hx, hx', Option.bind_some] using hpaired.parent

/-- Scopes that are paired bind a name to symbols that are. -/
theorem lookupLocal? (h : Paired part m c c') (hs : m.scopes s s') (name : String) :
    Option.Rel m.symbols (c.scopes.lookupLocal? s name) (c'.scopes.lookupLocal? s' name) := by
  obtain ⟨x, x', hx, hx', hpaired⟩ := h.scopes s s' hs
  simpa only [ScopeTree.lookupLocal?, hx, hx', Option.bind_some] using hpaired.names name

/-- The scopes around two scopes that are paired are paired. -/
theorem chain (h : Paired part m c c') (hs : m.scopes s s') :
    Forall₂ m.scopes (c.scopes.chain s) (c'.scopes.chain s') := by
  induction s using Nat.strongRecOn generalizing s' with
  | ind s ih =>
      obtain ⟨hlt, hlt'⟩ := h.scope_lt hs
      rw [ScopeTree.chain_eq h.descends hlt, ScopeTree.chain_eq h.descends' hlt']
      refine .cons hs ?_
      have hparent := h.scopeParent? hs
      cases hp : c.scopes.parent? s <;> cases hp' : c'.scopes.parent? s' <;>
        rw [hp, hp'] at hparent <;> cases hparent
      · exact .nil
      · exact ih _ (h.descends _ _ hp) ‹_›

/-- **A name of the top level or of a scope inside is found alike.** -/
theorem lookup? (h : Paired part m c c') (hs : m.scopes s s') (name : String) :
    Option.Rel m.symbols (c.scopes.lookup? s name) (c'.scopes.lookup? s' name) :=
  (h.chain hs).findSome? fun _ _ hxx => h.lookupLocal? hxx name

/-- **A name in a body is found alike**, be it a member of a class or not. -/
theorem lookupName? (h : Paired part m c c') (hshown : ∀ i, ¬ part.hidden i) (hs : m.scopes s s')
    (name : String) : Option.Rel m.symbols (c.lookupName? s name) (c'.lookupName? s' name) := by
  refine (h.chain hs).findSome? fun x x' hxx => ?_
  have hkind := h.scopeKind hxx
  have hlocal := h.lookupLocal? hxx name
  cases hk : c.scopes.kind x <;> cases hk' : c'.scopes.kind x' <;> rw [hk, hk'] at hkind <;>
    cases hkind
  · exact hlocal
  · exact h.table.member? m.uniqueSymbols hshown ‹_› name
  · exact hlocal
  · exact hlocal

/-! ### Steps -/

/-- Both contexts may report an error. -/
theorem report (h : Paired part m c c') (error error' : SemanticError) :
    Paired part m { c with diagnostics := c.diagnostics.report error }
      { c' with diagnostics := c'.diagnostics.report error' } :=
  { h with clean := by simp [Clean, Diagnostics.hasErrors_report] }

/-- Nodes that are paired may get symbols that are, unless they are hidden. -/
theorem bindSymbol (h : Paired part m c c') {n n' : NodeId} (hn : part.nodes n n')
    (hij : m.symbols i j) (hi : ¬ part.hidden i) :
    Paired part m { c with bindings := c.bindings.bindSymbol n i }
      { c' with bindings := c'.bindings.bindSymbol n' j } :=
  { h with
    symbol? := by
      intro a a' ha
      simp only [Bindings.symbol?_bindSymbol, Relator.eq_iff_eq part.uniqueNodes ha hn]
      split
      · exact .some ⟨hij, hi⟩
      · exact h.symbol? a a' ha }

/-- Nodes that are paired may get types that are. -/
theorem bindType (h : Paired part m c c') {n n' : NodeId} (hn : part.nodes n n') {ty ty' : Ty}
    (hty : ty.Paired m.symbols ty') :
    Paired part m { c with bindings := c.bindings.bindType n ty }
      { c' with bindings := c'.bindings.bindType n' ty' } :=
  { h with
    type? := by
      intro a a' ha
      simp only [Bindings.type?_bindType, Relator.eq_iff_eq part.uniqueNodes ha hn]
      split
      · exact .some hty
      · exact h.type? a a' ha }

/-- Nodes that are paired may get scopes that are. -/
theorem bindScope (h : Paired part m c c') {n n' : NodeId} (hn : part.nodes n n')
    (hs : m.scopes s s') :
    Paired part m { c with bindings := c.bindings.bindScope n s }
      { c' with bindings := c'.bindings.bindScope n' s' } :=
  { h with
    scope? := by
      intro a a' ha
      simp only [Bindings.scope?_bindScope, Relator.eq_iff_eq part.uniqueNodes ha hn]
      split
      · exact .some hs
      · exact h.scope? a a' ha }

/-- Names of two scopes that are paired change alike. -/
theorem modifyScope (h : Paired part m c c') (hs : m.scopes s s') {tree tree' : ScopeTree}
    {f f' : Scope → Scope}
    (htree : ∀ x, tree.get? x = if s = x then (c.scopes.get? x).map f else c.scopes.get? x)
    (htree' : ∀ x, tree'.get? x = if s' = x then (c'.scopes.get? x).map f' else c'.scopes.get? x)
    (hparent : ∀ x, (f x).parent = x.parent) (hparent' : ∀ x, (f' x).parent = x.parent)
    (hf : ∀ x x', c.scopes.get? s = some x → c'.scopes.get? s' = some x' → x.Paired m x' →
      (f x).Paired m (f' x')) :
    Paired part m { c with scopes := tree } { c' with scopes := tree' } :=
  { h with
    scopes := by
      intro a a' ha
      obtain ⟨x, x', hx, hx', hpaired⟩ := h.scopes a a' ha
      simp only [htree, htree', Relator.eq_iff_eq m.uniqueScopes hs ha, hx, hx', Option.map_some]
      split
      · next heq =>
          subst heq
          obtain rfl := m.uniqueScopes.2 ha hs
          exact ⟨_, _, rfl, rfl, hf x x' hx hx' hpaired⟩
      · exact ⟨_, _, rfl, rfl, hpaired⟩
    descends := by
      intro a p hp
      refine h.descends a p ?_
      simp only [ScopeTree.parent?, htree] at hp ⊢
      split at hp <;> cases hget : c.scopes.get? a <;> simp_all
    descends' := by
      intro a p hp
      refine h.descends' a p ?_
      simp only [ScopeTree.parent?, htree'] at hp ⊢
      split at hp <;> cases hget : c'.scopes.get? a <;> simp_all }

/-- Scopes that are paired may bind a name to symbols that are. -/
theorem bindName (h : Paired part m c c') (hs : m.scopes s s') (hij : m.symbols i j)
    (name : String) :
    Paired part m { c with scopes := c.scopes.bind s name i }
      { c' with scopes := c'.scopes.bind s' name j } := by
  refine h.modifyScope hs (fun x => ScopeTree.get?_bind _ _ _ _ _)
    (fun x => ScopeTree.get?_bind _ _ _ _ _) (fun _ => rfl) (fun _ => rfl) ?_
  intro x x' _ _ hpaired
  refine ⟨hpaired.kind, hpaired.parent, fun other => ?_⟩
  have hother := hpaired.names other
  simp only [Scope.get?_bind]
  cases hx : x.get? other <;> cases hx' : x'.get? other <;> rw [hx, hx'] at hother <;> cases hother
  · simp only [Option.none_or]
    split
    · exact .some hij
    · exact .none
  · exact .some ‹_›

/-- Entries of two tables change alike. -/
theorem modifySymbol (h : Paired part m c c') (hij : m.symbols i j) (hi : ¬ part.hidden i)
    {f g : Symbol → Symbol}
    (hf : ∀ x x', c.symbols.get? i = some x → c'.symbols.get? j = some x' →
      x.Paired m.symbols x' → (f x).Paired m.symbols (g x')) :
    Paired part m { c with symbols := c.symbols.modify i f }
      { c' with symbols := c'.symbols.modify j g } :=
  { h with
    table := by
      intro a b hab
      obtain ⟨x, x', hx, hx', hkind, hpaired⟩ := h.table a b hab
      simp only [SymbolTable.get?_modify, Relator.eq_iff_eq m.uniqueSymbols hij hab, hx, hx',
        Option.map_some]
      split
      · next heq =>
          subst heq
          obtain rfl := m.uniqueSymbols.2 hab hij
          have hnew := hf x x' hx hx' (hpaired hi)
          exact ⟨_, _, rfl, rfl, hnew.akin, fun _ => hnew⟩
      · exact ⟨_, _, rfl, rfl, hkind, hpaired⟩
    known := by
      intro a ha
      simpa using h.known a ha }

end Context.Paired

/-! ## Programs -/

/-- Two runs have gone on: what is paired newly was not there before. -/
structure Advance (part : Part) (m : Pairing) (c c' : Context) (m' : Pairing) (d d' : Context) :
    Prop where
  le : m ≤ m'
  newSymbols : ∀ i j, m'.symbols i j →
    m.symbols i j ∨ c.symbols.size ≤ i ∧ c'.symbols.size ≤ j
  newScopes : ∀ s s', m'.scopes s s' → m.scopes s s' ∨ c.scopes.size ≤ s ∧ c'.scopes.size ≤ s'
  symbols : c.symbols.size ≤ d.symbols.size ∧ c'.symbols.size ≤ d'.symbols.size
  scopes : c.scopes.size ≤ d.scopes.size ∧ c'.scopes.size ≤ d'.scopes.size
  paired : Context.Paired part m' d d'

namespace Advance

variable {part : Part} {m m' m'' : Pairing} {c c' d d' e e' : Context}

/-- A step that adds nothing. -/
theorem still (hsymbols : c.symbols.size ≤ d.symbols.size ∧ c'.symbols.size ≤ d'.symbols.size)
    (hscopes : c.scopes.size ≤ d.scopes.size ∧ c'.scopes.size ≤ d'.scopes.size)
    (h : Context.Paired part m d d') : Advance part m c c' m d d' :=
  ⟨le_refl m, fun _ _ => .inl, fun _ _ => .inl, hsymbols, hscopes, h⟩

/-- Two runs that go on twice have gone on. -/
theorem trans (h : Advance part m c c' m' d d') (h' : Advance part m' d d' m'' e e') :
    Advance part m c c' m'' e e' where
  le := h.le.trans h'.le
  newSymbols i j hij := by
    rcases h'.newSymbols i j hij with hij | ⟨hi, hj⟩
    · exact h.newSymbols i j hij
    · exact .inr ⟨Nat.le_trans h.symbols.1 hi, Nat.le_trans h.symbols.2 hj⟩
  newScopes s s' hs := by
    rcases h'.newScopes s s' hs with hs | ⟨hs, hs'⟩
    · exact h.newScopes s s' hs
    · exact .inr ⟨Nat.le_trans h.scopes.1 hs, Nat.le_trans h.scopes.2 hs'⟩
  symbols := ⟨Nat.le_trans h.symbols.1 h'.symbols.1, Nat.le_trans h.symbols.2 h'.symbols.2⟩
  scopes := ⟨Nat.le_trans h.scopes.1 h'.scopes.1, Nat.le_trans h.scopes.2 h'.scopes.2⟩
  paired := h'.paired

/-- Two symbols are added that are equal up to numbers. -/
theorem addSymbol (h : Context.Paired part m c c') {s s' : Symbol} (hs : s.Paired m.symbols s') :
    ∃ m', m'.symbols c.symbols.size c'.symbols.size ∧
      Advance part m c c' m' { c with symbols := c.symbols.add s }
        { c' with symbols := c'.symbols.add s' } := by
  have hi : ∀ j, ¬ m.symbols c.symbols.size j := fun j hij =>
    Nat.lt_irrefl _ (h.table.lt_left hij)
  have hj : ∀ i, ¬ m.symbols i c'.symbols.size := fun i hij =>
    Nat.lt_irrefl _ (h.table.lt_right hij)
  let m' : Pairing := { m with
    symbols := Pairing.Adding m.symbols c.symbols.size c'.symbols.size
    uniqueSymbols := Pairing.biUnique_adding m.uniqueSymbols hi hj }
  have hle : m ≤ m' := ⟨.inl, id⟩
  refine ⟨m', .inr ⟨rfl, rfl⟩, hle, ?_, fun _ _ => .inl, by simp, by simp, ?_⟩
  · rintro i j (hij | ⟨rfl, rfl⟩)
    · exact .inl hij
    · exact .inr ⟨Nat.le_refl _, Nat.le_refl _⟩
  · constructor
    · rintro i j (hij | ⟨rfl, rfl⟩)
      · obtain ⟨x, x', hx, hx', hkind, hpaired⟩ := h.table i j hij
        exact ⟨x, x', SymbolTable.get?_add_of_some _ hx, SymbolTable.get?_add_of_some _ hx', hkind,
          fun hi => (hpaired hi).imp fun _ _ => hle.symbols⟩
      · exact ⟨s, s', SymbolTable.get?_add_size _ _, SymbolTable.get?_add_size _ _, hs.akin,
          fun _ => hs.imp fun _ _ => hle.symbols⟩
    · intro i hi
      exact Nat.lt_of_lt_of_le (h.known i hi) (by simp)
    · intro a a' ha
      obtain ⟨x, x', hx, hx', hpaired⟩ := h.scopes a a' ha
      exact ⟨x, x', hx, hx', hpaired.le hle⟩
    · exact h.descends
    · exact h.descends'
    · exact fun n n' hn => (h.symbol? n n' hn).imp fun _ _ hij => ⟨hle.symbols hij.1, hij.2⟩
    · exact fun n n' hn => (h.type? n n' hn).imp fun _ _ ht => ht.imp fun _ _ => hle.symbols
    · exact h.scope?
    · exact h.clean

/-- Two scopes are opened in scopes that are paired. -/
theorem pushScope (h : Context.Paired part m c c') {s s' : ScopeId} (hs : m.scopes s s')
    {kind kind' : ScopeKind} (hkind : kind.Paired m.symbols kind') :
    ∃ m', m'.scopes c.scopes.size c'.scopes.size ∧
      Advance part m c c' m' { c with scopes := c.scopes.push s kind }
        { c' with scopes := c'.scopes.push s' kind' } := by
  have hi : ∀ x, ¬ m.scopes c.scopes.size x := fun x hx => Nat.lt_irrefl _ (h.scope_lt hx).1
  have hj : ∀ x, ¬ m.scopes x c'.scopes.size := fun x hx => Nat.lt_irrefl _ (h.scope_lt hx).2
  let m' : Pairing := { m with
    scopes := Pairing.Adding m.scopes c.scopes.size c'.scopes.size
    uniqueScopes := Pairing.biUnique_adding m.uniqueScopes hi hj }
  have hle : m ≤ m' := ⟨id, .inl⟩
  refine ⟨m', .inr ⟨rfl, rfl⟩, hle, fun _ _ => .inl, ?_, by simp, by simp, ?_⟩
  · rintro x x' (hx | ⟨rfl, rfl⟩)
    · exact .inl hx
    · exact .inr ⟨Nat.le_refl _, Nat.le_refl _⟩
  · constructor
    · exact h.table
    · exact h.known
    · rintro a a' (ha | ⟨rfl, rfl⟩)
      · obtain ⟨hlt, hlt'⟩ := h.scope_lt ha
        obtain ⟨x, x', hx, hx', hpaired⟩ := h.scopes a a' ha
        exact ⟨x, x', (ScopeTree.get?_push_of_lt _ _ _ hlt).trans hx,
          (ScopeTree.get?_push_of_lt _ _ _ hlt').trans hx', hpaired.le hle⟩
      · refine ⟨_, _, ScopeTree.get?_push_size _ _ _, ScopeTree.get?_push_size _ _ _, ?_⟩
        exact ⟨hkind, .some (hle.scopes hs), fun _ => .none⟩
    · exact h.descends.push (h.scope_lt hs).1 kind
    · exact h.descends'.push (h.scope_lt hs).2 kind'
    · exact h.symbol?
    · exact h.type?
    · exact fun n n' hn => (h.scope? n n' hn).imp fun _ _ => hle.scopes
    · exact h.clean

end Advance

namespace Analysis

variable {α β γ δ : Type} {part : Part} {m m' : Pairing}

/-- Two programs lead from contexts that agree to contexts that agree, with results related by
`Q`. -/
def InStep (part : Part) (m : Pairing) (p : Analysis α) (q : Analysis β)
    (Q : Pairing → α → β → Prop) : Prop :=
  ∀ c c', Context.Paired part m c c' → ∃ m',
    Advance part m c c' m' (p.run c).2 (q.run c').2 ∧ Q m' (p.run c).1 (q.run c').1

variable {Q : Pairing → α → β → Prop} {p : Analysis α} {q : Analysis β}

/-- One program after another; what was paired is paired later. -/
theorem InStep.bind {R : Pairing → γ → δ → Prop} {f : α → Analysis γ} {g : β → Analysis δ}
    (h : InStep part m p q Q)
    (hnext : ∀ m' a b, m ≤ m' → Q m' a b → InStep part m' (f a) (g b) R) :
    InStep part m (p >>= f) (q >>= g) R := by
  intro c c' hpaired
  obtain ⟨m₁, hadvance, hq⟩ := h c c' hpaired
  obtain ⟨m₂, hadvance', hr⟩ := hnext m₁ _ _ hadvance.le hq _ _ hadvance.paired
  exact ⟨m₂, hadvance.trans hadvance', hr⟩

/-- Values alone are in step. -/
theorem inStep_pure {a : α} {b : β} (h : Q m a b) : InStep part m (pure a) (pure b) Q :=
  fun _ _ hpaired =>
    ⟨m, .still ⟨Nat.le_refl _, Nat.le_refl _⟩ ⟨Nat.le_refl _, Nat.le_refl _⟩ hpaired, h⟩

/-- Programs that first look at the contexts. -/
theorem inStep_read {f : Context → Analysis α} {g : Context → Analysis β}
    (h : ∀ c c', Context.Paired part m c c' → InStep part m (f c) (g c') Q) :
    InStep part m (get >>= f) (get >>= g) Q :=
  fun c c' hpaired => h c c' hpaired c c' hpaired

/-- Changes that add nothing. -/
theorem inStep_modify {f g : Context → Context}
    (hsymbols : ∀ c, (f c).symbols.size = c.symbols.size ∧ (g c).symbols.size = c.symbols.size)
    (hscopes : ∀ c, (f c).scopes.size = c.scopes.size ∧ (g c).scopes.size = c.scopes.size)
    (h : ∀ c c', Context.Paired part m c c' → Context.Paired part m (f c) (g c')) :
    InStep part m (modify f : Analysis Unit) (modify g) fun _ _ _ => True := by
  intro c c' hpaired
  refine ⟨m, .still ?_ ?_ (h c c' hpaired), trivial⟩
  · exact ⟨Nat.le_of_eq (hsymbols c).1.symm, Nat.le_of_eq (hsymbols c').2.symm⟩
  · exact ⟨Nat.le_of_eq (hscopes c).1.symm, Nat.le_of_eq (hscopes c').2.symm⟩

/-- Two reports are in step, whatever they say. -/
theorem inStep_report (error error' : SemanticError) :
    InStep part m (report error) (report error') fun _ _ _ => True :=
  inStep_modify (fun _ => ⟨rfl, rfl⟩) (fun _ => ⟨rfl, rfl⟩) fun _ _ h => h.report error error'

/-- Two mismatches are in step, whatever they say. -/
theorem inStep_mismatch (cause cause' : Mismatch) (span span' : Span) :
    InStep part m (mismatch cause span) (mismatch cause' span') fun _ _ _ => True :=
  inStep_report _ _

/-- Two reports with answers that agree are in step. -/
theorem inStep_report_return (error error' : SemanticError) {a : α} {b : β}
    (h : ∀ m' : Pairing, m ≤ m' → Q m' a b) :
    InStep part m (do report error; return a) (do report error'; return b) Q :=
  (inStep_report error error').bind fun _ _ _ hle _ => inStep_pure (h _ hle)

/-- Two mismatches with answers that agree are in step. -/
theorem inStep_mismatch_return (cause cause' : Mismatch) (span span' : Span) {a : α} {b : β}
    (h : ∀ m' : Pairing, m ≤ m' → Q m' a b) :
    InStep part m (do mismatch cause span; return a) (do mismatch cause' span'; return b) Q :=
  inStep_report_return _ _ h

/-- New symbols that are paired get numbers that are paired. -/
theorem inStep_addSymbol {s s' : Symbol} (hs : s.Paired m.symbols s') :
    InStep part m (addSymbol s) (addSymbol s') fun m' i j => m'.symbols i j ∧ ¬ part.hidden i := by
  intro c c' hpaired
  obtain ⟨m', hnew, hadvance⟩ := Advance.addSymbol hpaired hs
  exact ⟨m', hadvance, hnew, fun hi => Nat.lt_irrefl _ (hpaired.known _ hi)⟩

/-- New scopes in scopes that are paired get numbers that are paired. -/
theorem inStep_pushScope {s s' : ScopeId} (hs : m.scopes s s') {kind kind' : ScopeKind}
    (hkind : kind.Paired m.symbols kind') :
    InStep part m (pushScope s kind) (pushScope s' kind') fun m' x x' => m'.scopes x x' := by
  intro c c' hpaired
  obtain ⟨m', hnew, hadvance⟩ := Advance.pushScope hpaired hs hkind
  exact ⟨m', hadvance, hnew⟩

/-- Attaching symbols that are paired is in step. -/
theorem inStep_bindSymbol {n n' : NodeId} (hn : part.nodes n n') {i j : SymbolId}
    (hij : m.symbols i j) (hi : ¬ part.hidden i) :
    InStep part m (bindSymbol n i) (bindSymbol n' j) fun _ _ _ => True :=
  inStep_modify (fun _ => ⟨rfl, rfl⟩) (fun _ => ⟨rfl, rfl⟩) fun _ _ h => h.bindSymbol hn hij hi

/-- Attaching types that are paired is in step. -/
theorem inStep_bindType {n n' : NodeId} (hn : part.nodes n n') {ty ty' : Ty}
    (hty : ty.Paired m.symbols ty') :
    InStep part m (bindType n ty) (bindType n' ty') fun _ _ _ => True :=
  inStep_modify (fun _ => ⟨rfl, rfl⟩) (fun _ => ⟨rfl, rfl⟩) fun _ _ h => h.bindType hn hty

/-- Attaching scopes that are paired is in step. -/
theorem inStep_bindScope {n n' : NodeId} (hn : part.nodes n n') {s s' : ScopeId}
    (hs : m.scopes s s') : InStep part m (bindScope n s) (bindScope n' s') fun _ _ _ => True :=
  inStep_modify (fun _ => ⟨rfl, rfl⟩) (fun _ => ⟨rfl, rfl⟩) fun _ _ h => h.bindScope hn hs

/-- Nodes that are paired have symbols that are, which are not hidden. -/
theorem inStep_symbolOf? {n n' : NodeId} (hn : part.nodes n n') :
    InStep part m (symbolOf? n) (symbolOf? n') fun m' o o' =>
      Option.Rel (fun i j => m'.symbols i j ∧ ¬ part.hidden i) o o' :=
  inStep_read fun _ _ h => inStep_pure (h.symbol? _ _ hn)

/-- A name is bound in both scopes, or it is taken in both. -/
theorem inStep_define {s s' : ScopeId} (hs : m.scopes s s') {i j : SymbolId} (hij : m.symbols i j)
    (name : String) (span span' : Span) :
    InStep part m (define s name i span) (define s' name j span') fun _ a b => b = a := by
  intro c c' hpaired
  have hlocal := hpaired.lookupLocal? hs name
  cases hx : c.scopes.lookupLocal? s name <;> cases hx' : c'.scopes.lookupLocal? s' name <;>
    rw [hx, hx'] at hlocal <;> cases hlocal
  · have hrun : (define s name i span).run c =
        (true, { c with scopes := c.scopes.bind s name i }) := by
      simp [define, hx]; rfl
    have hrun' : (define s' name j span').run c' =
        (true, { c' with scopes := c'.scopes.bind s' name j }) := by
      simp [define, hx']; rfl
    rw [hrun, hrun']
    exact ⟨m, .still (by simp) (by simp) (hpaired.bindName hs hij name), rfl⟩
  · next x x' _ =>
    have hrun : (define s name i span).run c =
        (do report (.duplicate name (c.placeOf x) span); return false).run c := by
      simp [define, hx]
    have hrun' : (define s' name j span').run c' =
        (do report (.duplicate name (c'.placeOf x') span'); return false).run c' := by
      simp [define, hx']
    rw [hrun, hrun']
    exact inStep_report_return _ _ (fun _ _ => rfl) c c' hpaired

/-- The scopes of two nodes: those they opened before, or new ones. -/
theorem inStep_scopeFor {n n' : NodeId} (hn : part.nodes n n') {s s' : ScopeId} (hs : m.scopes s s')
    {kind kind' : ScopeKind} (hkind : kind.Paired m.symbols kind') :
    InStep part m (scopeFor n s kind) (scopeFor n' s' kind') fun m' x x' => m'.scopes x x' := by
  refine inStep_read fun c c' hpaired => ?_
  have hscope := hpaired.scope? n n' hn
  cases hx : c.bindings.scope? n <;> cases hx' : c'.bindings.scope? n' <;>
    rw [hx, hx'] at hscope <;> cases hscope
  · exact (inStep_pushScope hs hkind).bind fun m' x x' _ hx => (inStep_bindScope hn hx).bind
      fun m'' _ _ hle _ => inStep_pure (hle.scopes hx)
  · exact inStep_pure ‹_›

/-- An entry that is compared changes alike in both tables. -/
theorem inStep_modifySymbol {i j : SymbolId} (hij : m.symbols i j) (hi : ¬ part.hidden i)
    {f f' : Symbol → Symbol}
    (hf : ∀ x x', x.Paired m.symbols x' → (f x).Paired m.symbols (f' x')) :
    InStep part m (modifySymbols fun t => t.modify i f) (modifySymbols fun t => t.modify j f')
      fun _ _ _ => True :=
  inStep_modify (fun _ => by simp) (fun _ => ⟨rfl, rfl⟩) fun _ _ h =>
    h.modifySymbol hij hi fun x x' _ _ => hf x x'

/-- A name is defined, and its symbol is listed if that was possible. -/
theorem inStep_defineThen {s s' : ScopeId} (hs : m.scopes s s') {i j : SymbolId}
    (hij : m.symbols i j) (name : String) (span span' : Span) {f f' : SymbolTable → SymbolTable}
    (hf : ∀ m' : Pairing, m ≤ m' →
      InStep part m' (modifySymbols f) (modifySymbols f') fun _ _ _ => True) :
    InStep part m (do if ← define s name i span then modifySymbols f)
      (do if ← define s' name j span' then modifySymbols f') fun _ _ _ => True := by
  refine (inStep_define hs hij name span span').bind fun m' a b hle hab => ?_
  subst hab
  split
  · exact hf m' hle
  · exact inStep_pure trivial

/-- A program for each of two elements that belong together. -/
theorem inStep_forM {R : α → β → Prop} {f : α → Analysis PUnit} {g : β → Analysis PUnit}
    {l : List α} {l' : List β} (hl : Forall₂ R l l')
    (h : ∀ m' a b, m ≤ m' → R a b → InStep part m' (f a) (g b) fun _ _ _ => True) :
    InStep part m (l.forM f) (l'.forM g) fun _ _ _ => True := by
  induction hl generalizing m with
  | nil => exact inStep_pure trivial
  | cons hab _ ih =>
      exact (h m _ _ (le_refl m) hab).bind fun m' _ _ hle _ =>
        ih fun m'' a b hle' => h m'' a b (hle.trans hle')

end Analysis

end ClassLang
