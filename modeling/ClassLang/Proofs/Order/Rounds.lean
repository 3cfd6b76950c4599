import ClassLang.Proofs.Order.InStep
import ClassLang.Proofs.Resolve.Fills

/-!
# The same steps in two orders

A round runs one step for each item of a unit.  Two units with the same items run the same steps
in different orders.  No step changes what belongs to another item (`Context.Spares`), so when the
turn of an item comes, both units agree on it as they did at the start, and they agree on what the
step makes of it until the end.  Each step takes numbers from an interval of its own, so the
pairings of the single steps fit together (`Round.paired`).
-/

open List (Forall₂)

namespace ClassLang

open Analysis

/-! ## What a step leaves alone -/

/-- Nothing changes but the entries `own` and some nodes; entries that do change keep their kinds
and names, and scopes that are there stay as they are. -/
structure Context.Spares (own : SymbolId → Prop) (nodes : NodeId → Prop) (c d : Context) :
    Prop where
  entries : ∀ i s, c.symbols.get? i = some s → ¬ own i → d.symbols.get? i = some s
  later : c.symbols.Later d.symbols
  scopes : ∀ s x, c.scopes.get? s = some x → d.scopes.get? s = some x
  size : c.scopes.size ≤ d.scopes.size
  symbol? : ∀ n, ¬ nodes n → d.bindings.symbol? n = c.bindings.symbol? n
  type? : ∀ n, ¬ nodes n → d.bindings.type? n = c.bindings.type? n
  scope? : ∀ n, ¬ nodes n → d.bindings.scope? n = c.bindings.scope? n
  descends : d.scopes.Descends

namespace Context.Spares

variable {own own' : SymbolId → Prop} {nodes nodes' : NodeId → Prop} {c d e : Context}

theorem refl (own : SymbolId → Prop) (nodes : NodeId → Prop) (h : c.scopes.Descends) :
    Spares own nodes c c :=
  ⟨fun _ _ hs _ => hs, .refl _, fun _ _ hx => hx, Nat.le_refl _, fun _ _ => rfl, fun _ _ => rfl,
    fun _ _ => rfl, h⟩

theorem trans (h : Spares own nodes c d) (h' : Spares own nodes d e) : Spares own nodes c e where
  entries i s hs hi := h'.entries i s (h.entries i s hs hi) hi
  later := h.later.trans h'.later
  scopes s x hx := h'.scopes s x (h.scopes s x hx)
  size := Nat.le_trans h.size h'.size
  symbol? n hn := (h'.symbol? n hn).trans (h.symbol? n hn)
  type? n hn := (h'.type? n hn).trans (h.type? n hn)
  scope? n hn := (h'.scope? n hn).trans (h.scope? n hn)
  descends := h'.descends

theorem mono (h : Spares own nodes c d) (hown : ∀ i, own i → own' i)
    (hnodes : ∀ n, nodes n → nodes' n) : Spares own' nodes' c d where
  entries i s hs hi := h.entries i s hs fun ho => hi (hown i ho)
  later := h.later
  scopes := h.scopes
  size := h.size
  symbol? n hn := h.symbol? n fun hm => hn (hnodes n hm)
  type? n hn := h.type? n fun hm => hn (hnodes n hm)
  scope? n hn := h.scope? n fun hm => hn (hnodes n hm)
  descends := h.descends

/-- What stays within some nodes and opens no scope that is there spares all other nodes. -/
theorem ofConfined {touched : List NodeId} (h : Confined touched [] c d)
    (hentries : ∀ i s, c.symbols.get? i = some s → ¬ own i → d.symbols.get? i = some s)
    (hlater : c.symbols.Later d.symbols) (hd : d.scopes.Descends) :
    Spares own (· ∈ touched) c d where
  entries := hentries
  later := hlater
  scopes s x hx := (h.scopes s (List.getElem?_eq_some_iff.1 hx).1 (by simp)).trans hx
  size := h.size
  symbol? := h.symbol?
  type? := h.type?
  scope? := h.scope?
  descends := hd

/-- Entries that are filled in spare those that are not. -/
theorem ofFills {changed : List SymbolId} {touched : List NodeId} (h : Fills changed touched [] c d)
    (hd : d.scopes.Descends) : Spares (· ∈ changed) (· ∈ touched) c d :=
  ofConfined h.confined
    (fun i _ hs hi => (h.entries i (SymbolTable.lt_size_of_get? hs) hi).trans hs) h.later hd

end Context.Spares

/-- Two contexts agree on a part that other steps spare. -/
theorem Context.Paired.spares {part : Part} {m : Pairing} {c c' d d' : Context}
    (h : Context.Paired part m c c') {own own' : SymbolId → Prop} {nodes nodes' : NodeId → Prop}
    (hspares : Context.Spares own nodes c d) (hspares' : Context.Spares own' nodes' c' d')
    (hown : ∀ i, own i → part.hidden i) (hown' : ∀ i j, m.symbols i j → own' j → part.hidden i)
    (hnodes : ∀ n n', part.nodes n n' → ¬ nodes n ∧ ¬ nodes' n') (hclean : d'.Clean ↔ d.Clean) :
    Context.Paired part m d d' where
  table i j hij := by
    obtain ⟨s, s', hs, hs', hakin, hpaired⟩ := h.table i j hij
    obtain ⟨t, ht, hlater⟩ := hspares.later i s hs
    obtain ⟨t', ht', hlater'⟩ := hspares'.later j s' hs'
    refine ⟨t, t', ht, ht', hakin.later hlater hlater', fun hi => ?_⟩
    cases (hspares.entries i s hs fun ho => hi (hown i ho)).symm.trans ht
    cases (hspares'.entries j s' hs' fun ho => hi (hown' i j hij ho)).symm.trans ht'
    exact hpaired hi
  known i hi := Nat.lt_of_lt_of_le (h.known i hi) hspares.later.size_le
  scopes s s' hs := by
    obtain ⟨x, x', hx, hx', hpaired⟩ := h.scopes s s' hs
    exact ⟨x, x', hspares.scopes s x hx, hspares'.scopes s' x' hx', hpaired⟩
  descends := hspares.descends
  descends' := hspares'.descends
  symbol? n n' hn := by
    rw [hspares.symbol? n (hnodes n n' hn).1, hspares'.symbol? n' (hnodes n n' hn).2]
    exact h.symbol? n n' hn
  type? n n' hn := by
    rw [hspares.type? n (hnodes n n' hn).1, hspares'.type? n' (hnodes n n' hn).2]
    exact h.type? n n' hn
  scope? n n' hn := by
    rw [hspares.scope? n (hnodes n n' hn).1, hspares'.scope? n' (hnodes n n' hn).2]
    exact h.scope? n n' hn
  clean := hclean

/-! ## One round -/

/-- The context behind the first `k` steps. -/
def Analysis.upTo {ι : Type} (f : ι → Analysis PUnit) (all : List ι) (s : Context) (k : Nat) :
    Context :=
  (((all.take k).forM f).run s).2

section

variable {ι : Type} {f : ι → Analysis PUnit} {all : List ι} {s : Context} {k l : Nat} {a : ι}

@[simp] theorem Analysis.upTo_zero : upTo f all s 0 = s := rfl

theorem Analysis.forM_append (first rest : List ι) (c : Context) :
    ((first ++ rest).forM f).run c = (rest.forM f).run ((first.forM f).run c).2 := by
  induction first generalizing c with
  | nil => rfl
  | cons b first ih => exact ih _

theorem Analysis.upTo_succ (h : all[k]? = some a) :
    upTo f all s (k + 1) = ((f a).run (upTo f all s k)).2 := by
  unfold upTo
  rw [List.take_add_one, h, Option.toList_some, forM_append]
  rfl

theorem Analysis.upTo_length : upTo f all s all.length = ((all.forM f).run s).2 := by
  rw [upTo, List.take_length]

/-- A round over items, each of which may change its `own` entries and nodes; runs that report
nothing reported nothing before. -/
structure Round (f : ι → Analysis PUnit) (all : List ι) (own : ι → SymbolId → Prop)
    (nodes : ι → NodeId → Prop) (s : Context) : Prop where
  nodup : all.Nodup
  descends : s.scopes.Descends
  step : ∀ k a, all[k]? = some a → (upTo f all s (k + 1)).Clean → (upTo f all s k).Clean ∧
    Context.Spares (own a) (nodes a) (upTo f all s k) (upTo f all s (k + 1))

namespace Round

variable {own : ι → SymbolId → Prop} {nodes : ι → NodeId → Prop}

/-- Prefixes of a run that reports nothing report nothing. -/
theorem clean (h : Round f all own nodes s) (hkl : k ≤ l) (hl : l ≤ all.length)
    (hclean : (upTo f all s l).Clean) : (upTo f all s k).Clean := by
  induction l with
  | zero => rwa [Nat.le_zero.1 hkl]
  | succ l ih =>
      rcases Nat.le_or_eq_of_le_succ hkl with hkl | rfl
      · exact ih hkl (Nat.le_of_succ_le hl)
          (h.step l _ (List.getElem?_eq_getElem hl) hclean).1
      · exact hclean

/-- The steps between two moments spare an item whose turn is not among them. -/
theorem spares (h : Round f all own nodes s) (hkl : k ≤ l) (hl : l ≤ all.length)
    (hclean : (upTo f all s l).Clean) {x : Nat} (hx : all[x]? = some a) (hother : x < k ∨ l ≤ x) :
    Context.Spares (fun i => ∃ b ∈ all, b ≠ a ∧ own b i) (fun n => ∃ b ∈ all, b ≠ a ∧ nodes b n)
      (upTo f all s k) (upTo f all s l) := by
  have hdescends : ∀ k ≤ all.length, (upTo f all s k).Clean → (upTo f all s k).scopes.Descends := by
    intro k hk hclean
    cases k with
    | zero => exact h.descends
    | succ k => exact (h.step k _ (List.getElem?_eq_getElem hk) hclean).2.descends
  induction l with
  | zero =>
      obtain rfl := Nat.le_zero.1 hkl
      exact .refl _ _ h.descends
  | succ l ih =>
      rcases Nat.le_or_eq_of_le_succ hkl with hkl | rfl
      · have hget : all[l]? = some all[l] := List.getElem?_eq_getElem hl
        obtain ⟨hbefore, hstep⟩ := h.step l _ hget hclean
        have hne : all[l] ≠ a := by
          rintro rfl
          have hxl : x = l :=
            (List.getElem?_inj (List.getElem?_eq_some_iff.1 hx).1 h.nodup).1 (hx.trans hget.symm)
          omega
        refine (ih hkl (Nat.le_of_succ_le hl) hbefore (by omega)).trans (hstep.mono ?_ ?_)
        · exact fun i hi => ⟨_, List.getElem_mem hl, hne, hi⟩
        · exact fun n hn => ⟨_, List.getElem_mem hl, hne, hn⟩
      · exact .refl _ _ (hdescends _ hl hclean)

/-- Numbers only grow. -/
theorem sizes (h : Round f all own nodes s) (hkl : k ≤ l) (hl : l ≤ all.length)
    (hclean : (upTo f all s l).Clean) :
    (upTo f all s k).symbols.size ≤ (upTo f all s l).symbols.size ∧
      (upTo f all s k).scopes.size ≤ (upTo f all s l).scopes.size := by
  induction l with
  | zero =>
      obtain rfl := Nat.le_zero.1 hkl
      exact ⟨Nat.le_refl _, Nat.le_refl _⟩
  | succ l ih =>
      rcases Nat.le_or_eq_of_le_succ hkl with hkl | rfl
      · obtain ⟨hbefore, hstep⟩ := h.step l _ (List.getElem?_eq_getElem hl) hclean
        obtain ⟨hsymbols, hscopes⟩ := ih hkl (Nat.le_of_succ_le hl) hbefore
        exact ⟨Nat.le_trans hsymbols hstep.later.size_le, Nat.le_trans hscopes hstep.size⟩
      · exact ⟨Nat.le_refl _, Nat.le_refl _⟩

/-- What the turns of two items add lies apart. -/
theorem turns_apart (h : Round f all own nodes s) (hclean : (upTo f all s all.length).Clean)
    {b : ι} (ha : all[k]? = some a) (hb : all[l]? = some b) (hne : a ≠ b) :
    ((upTo f all s (k + 1)).symbols.size ≤ (upTo f all s l).symbols.size ∧
        (upTo f all s (k + 1)).scopes.size ≤ (upTo f all s l).scopes.size) ∨
      (upTo f all s (l + 1)).symbols.size ≤ (upTo f all s k).symbols.size ∧
        (upTo f all s (l + 1)).scopes.size ≤ (upTo f all s k).scopes.size := by
  have hbefore : ∀ {k l : Nat} {b}, all[l]? = some b → k < l →
      (upTo f all s (k + 1)).symbols.size ≤ (upTo f all s l).symbols.size ∧
        (upTo f all s (k + 1)).scopes.size ≤ (upTo f all s l).scopes.size := by
    intro k l b hb hkl
    have hlt := Nat.le_of_lt (List.getElem?_eq_some_iff.1 hb).1
    exact h.sizes hkl hlt (h.clean hlt (Nat.le_refl _) hclean)
  have hkl : k ≠ l := by
    rintro rfl
    exact hne (Option.some.inj (ha.symm.trans hb))
  rcases Nat.lt_or_gt_of_ne hkl with hkl | hlk
  · exact .inl (hbefore hb hkl)
  · exact .inr (hbefore ha hlk)

end Round

end

/-! ## Two rounds -/

/-- Relations that are one to one fit together if what each adds lies in an interval of its
own. -/
theorem Pairing.biUnique_union {ι : Type} {r : Nat → Nat → Prop} {rs : ι → Nat → Nat → Prop}
    {low high low' high' : ι → Nat} (hunique : ∀ a, Relator.BiUnique (rs a))
    (hle : ∀ a i j, r i j → rs a i j)
    (hnew : ∀ a i j, rs a i j → r i j ∨ (low a ≤ i ∧ i < high a) ∧ low' a ≤ j ∧ j < high' a)
    (hapart : ∀ a b, a ≠ b → high a ≤ low b ∨ high b ≤ low a)
    (hapart' : ∀ a b, a ≠ b → high' a ≤ low' b ∨ high' b ≤ low' a) :
    Relator.BiUnique fun i j => ∃ a, rs a i j := by
  constructor
  · rintro i i' j ⟨a, ha⟩ ⟨b, hb⟩
    by_cases hab : a = b
    · exact (hunique b).1 (hab ▸ ha) hb
    rcases hnew a i j ha with hi | ⟨-, hj⟩
    · exact (hunique b).1 (hle b i j hi) hb
    rcases hnew b i' j hb with hi' | ⟨-, hj'⟩
    · exact (hunique a).1 ha (hle a i' j hi')
    · have := hapart' a b hab
      omega
  · rintro i j j' ⟨a, ha⟩ ⟨b, hb⟩
    by_cases hab : a = b
    · exact (hunique b).2 (hab ▸ ha) hb
    rcases hnew a i j ha with hj | ⟨hi, -⟩
    · exact (hunique b).2 (hle b i j hj) hb
    rcases hnew b i j' hb with hj' | ⟨hi', -⟩
    · exact (hunique a).2 ha (hle a i j' hj')
    · have := hapart a b hab
      omega

/-- How two units divide into items: nodes of items correspond, and items have entries and nodes of
their own. -/
structure Division {ι : Type} (all : List ι) (pairs : ι → NodeId → NodeId → Prop)
    (own own' : ι → SymbolId → Prop) (nodes nodes' : ι → NodeId → Prop) (m : Pairing)
    (s s' : Context) : Prop where
  uniqueNodes : Relator.BiUnique fun n n' => ∃ a ∈ all, pairs a n n'
  apart : ∀ a ∈ all, ∀ b ∈ all, b ≠ a → ∀ n n', pairs a n n' → ¬ nodes b n ∧ ¬ nodes' b n'
  owned : ∀ a ∈ all, ∀ i j, m.symbols i j → (own' a j ↔ own a i)
  ownApart : ∀ a ∈ all, ∀ b ∈ all, ∀ i, own a i → own b i → a = b
  known : ∀ a ∈ all, ∀ i, own a i → i < s.symbols.size
  known' : ∀ a ∈ all, ∀ j, own' a j → j < s'.symbols.size
  /-- The nodes of an item are bound to no entry of another one. -/
  bound : ∀ a ∈ all, ∀ b ∈ all, b ≠ a → ∀ n n' i, pairs a n n' → s.bindings.symbol? n = some i →
    ¬ own b i

section

variable {ι : Type} {all all' : List ι} {pairs : ι → NodeId → NodeId → Prop}
  {own own' : ι → SymbolId → Prop} {nodes nodes' : ι → NodeId → Prop} {m : Pairing}
  {f g : ι → Analysis PUnit} {s s' : Context}

namespace Division

variable (h : Division all pairs own own' nodes nodes' m s s')

/-- What is compared when both units are complete. -/
def whole : Part where
  nodes n n' := ∃ a ∈ all, pairs a n n'
  hidden _ := False
  uniqueNodes := h.uniqueNodes

/-- What is compared when it is the turn of an item. -/
def part {a : ι} (ha : a ∈ all) : Part where
  nodes := pairs a
  hidden i := ∃ b ∈ all, b ≠ a ∧ own b i
  uniqueNodes :=
    ⟨fun _ _ _ hx hy => h.uniqueNodes.1 ⟨a, ha, hx⟩ ⟨a, ha, hy⟩,
      fun _ _ _ hx hy => h.uniqueNodes.2 ⟨a, ha, hx⟩ ⟨a, ha, hy⟩⟩

/-- Units that agree agree on the part of each item. -/
theorem paired_part (hpaired : Context.Paired h.whole m s s') {a : ι} (ha : a ∈ all) :
    Context.Paired (h.part ha) m s s' where
  table i j hij := by
    obtain ⟨x, x', hx, hx', hakin, hsame⟩ := hpaired.table i j hij
    exact ⟨x, x', hx, hx', hakin, fun _ => hsame id⟩
  known := by
    rintro i ⟨b, hb, -, hi⟩
    exact h.known b hb i hi
  scopes := hpaired.scopes
  descends := hpaired.descends
  descends' := hpaired.descends'
  symbol? n n' hn := by
    have hsymbol := hpaired.symbol? n n' ⟨a, ha, hn⟩
    cases hx : s.bindings.symbol? n <;> cases hx' : s'.bindings.symbol? n' <;>
      rw [hx, hx'] at hsymbol <;> cases hsymbol
    · exact .none
    · next i j hij =>
      refine .some ⟨hij.1, ?_⟩
      rintro ⟨b, hb, hne, hi⟩
      exact h.bound a ha b hb hne n n' i hn hx hi
  type? n n' hn := hpaired.type? n n' ⟨a, ha, hn⟩
  scope? n n' hn := hpaired.scope? n n' ⟨a, ha, hn⟩
  clean := hpaired.clean

end Division

/-- Two rounds over the same items. -/
structure Rounds (all all' : List ι) (pairs : ι → NodeId → NodeId → Prop)
    (own own' : ι → SymbolId → Prop) (nodes nodes' : ι → NodeId → Prop) (m : Pairing)
    (f g : ι → Analysis PUnit) (s s' : Context) : Prop where
  division : Division all pairs own own' nodes nodes' m s s'
  perm : all'.Perm all
  first : Round f all own nodes s
  second : Round g all' own' nodes' s'
  inStep : ∀ a (ha : a ∈ all),
    InStep (division.part ha) m (f a) (g a) fun _ _ _ => True
  paired : Context.Paired division.whole m s s'
  clean : (upTo f all s all.length).Clean

namespace Rounds

variable (h : Rounds all all' pairs own own' nodes nodes' m f g s s')

include h

/-- The nodes of an item are no nodes of other items. -/
theorem nodes_apart {a : ι} (ha : a ∈ all) (n n' : NodeId) (hn : pairs a n n') :
    (¬ ∃ b ∈ all, b ≠ a ∧ nodes b n) ∧ ¬ ∃ b ∈ all', b ≠ a ∧ nodes' b n' := by
  constructor
  · rintro ⟨b, hb, hne, hmem⟩
    exact (h.division.apart a ha b hb hne n n' hn).1 hmem
  · rintro ⟨b, hb, hne, hmem⟩
    exact (h.division.apart a ha b (h.perm.subset hb) hne n n' hn).2 hmem

/-- **When its turn comes, both units agree on an item**, and on what its step makes of it. -/
theorem turn {x y : Nat} {a : ι} (hx : all[x]? = some a) (hy : all'[y]? = some a)
    (hclean' : (upTo g all' s' y).Clean) (ha : a ∈ all) :
    ∃ m', Advance (h.division.part ha) m (upTo f all s x) (upTo g all' s' y) m'
      (upTo f all s (x + 1)) (upTo g all' s' (y + 1)) := by
  have hlt := (List.getElem?_eq_some_iff.1 hx).1
  have hlt' := (List.getElem?_eq_some_iff.1 hy).1
  have hclean := h.first.clean (Nat.le_of_lt hlt) (Nat.le_refl _) h.clean
  have hspares := h.first.spares (Nat.zero_le x) (Nat.le_of_lt hlt) hclean hx (.inr (Nat.le_refl x))
  have hspares' := h.second.spares (Nat.zero_le y) (Nat.le_of_lt hlt') hclean' hy
    (.inr (Nat.le_refl y))
  have hpaired : Context.Paired (h.division.part ha) m (upTo f all s x) (upTo g all' s' y) := by
    refine (h.division.paired_part h.paired ha).spares hspares hspares' (fun i hi => hi) ?_
      (h.nodes_apart ha) (iff_of_true hclean' hclean)
    rintro i j hij ⟨b, hb, hne, hj⟩
    exact ⟨b, h.perm.subset hb, hne, (h.division.owned b (h.perm.subset hb) i j hij).1 hj⟩
  obtain ⟨m', hadvance, -⟩ := h.inStep a ha _ _ hpaired
  rw [upTo_succ hx, upTo_succ hy]
  exact ⟨m', hadvance⟩

/-- **The second round reports nothing either.** -/
theorem clean_second : ∀ y ≤ all'.length, (upTo g all' s' y).Clean := by
  intro y
  induction y with
  | zero =>
      intro _
      exact h.paired.clean.2 (h.first.clean (Nat.zero_le _) (Nat.le_refl _) h.clean)
  | succ y ih =>
      intro hy
      have hmem : all'[y] ∈ all := h.perm.subset (List.getElem_mem hy)
      obtain ⟨x, hx⟩ := List.getElem?_of_mem hmem
      obtain ⟨m', hadvance⟩ :=
        h.turn hx (List.getElem?_eq_getElem hy) (ih (Nat.le_of_succ_le hy)) hmem
      exact hadvance.paired.clean.2 (h.first.clean (List.getElem?_eq_some_iff.1 hx).1
        (Nat.le_refl _) h.clean)

/-- What is paired behind the turn of an item stays so; it was paired before, or it is between the
sizes at the beginning and the end of the turn. -/
theorem behind {a : ι} (ha : a ∈ all) : ∃ m' : Pairing, m ≤ m' ∧
    Context.Paired (h.division.part ha) m' (upTo f all s all.length)
      (upTo g all' s' all'.length) ∧ ∃ x y, all[x]? = some a ∧ all'[y]? = some a ∧
    (∀ i j, m'.symbols i j → m.symbols i j ∨
      ((upTo f all s x).symbols.size ≤ i ∧ i < (upTo f all s (x + 1)).symbols.size) ∧
        (upTo g all' s' y).symbols.size ≤ j ∧ j < (upTo g all' s' (y + 1)).symbols.size) ∧
    (∀ i j, m'.scopes i j → m.scopes i j ∨
      ((upTo f all s x).scopes.size ≤ i ∧ i < (upTo f all s (x + 1)).scopes.size) ∧
        (upTo g all' s' y).scopes.size ≤ j ∧ j < (upTo g all' s' (y + 1)).scopes.size) := by
  obtain ⟨x, hx⟩ := List.getElem?_of_mem ha
  obtain ⟨y, hy⟩ := List.getElem?_of_mem (h.perm.symm.subset ha)
  have hlt := (List.getElem?_eq_some_iff.1 hx).1
  have hlt' := (List.getElem?_eq_some_iff.1 hy).1
  have hclean' := h.clean_second _ (Nat.le_refl _)
  obtain ⟨m', hadvance⟩ := h.turn hx hy (h.clean_second y (Nat.le_of_lt hlt')) ha
  refine ⟨m', hadvance.le, ?_, x, y, hx, hy, ?_, ?_⟩
  · have hspares := h.first.spares hlt (Nat.le_refl _) h.clean hx (.inl (Nat.lt_succ_self x))
    have hspares' := h.second.spares hlt' (Nat.le_refl _) hclean' hy (.inl (Nat.lt_succ_self y))
    refine hadvance.paired.spares hspares hspares' (fun i hi => hi) ?_ (h.nodes_apart ha)
      (iff_of_true hclean' h.clean)
    -- Entries of other items were there at the start.
    rintro i j hij ⟨b, hb, hne, hj⟩
    refine ⟨b, h.perm.subset hb, hne, ?_⟩
    rcases hadvance.newSymbols i j hij with hij | ⟨-, hnew⟩
    · exact (h.division.owned b (h.perm.subset hb) i j hij).1 hj
    · have hsize := (h.second.sizes (Nat.zero_le y) (Nat.le_of_lt hlt')
        (h.clean_second y (Nat.le_of_lt hlt'))).1
      exact absurd (h.division.known' b (h.perm.subset hb) j hj)
        (Nat.not_lt.2 (Nat.le_trans hsize hnew))
  · intro i j hij
    refine (hadvance.newSymbols i j hij).imp_right fun ⟨hi, hj⟩ => ?_
    exact ⟨⟨hi, hadvance.paired.table.lt_left hij⟩, hj, hadvance.paired.table.lt_right hij⟩
  · intro i j hij
    refine (hadvance.newScopes i j hij).imp_right fun ⟨hi, hj⟩ => ?_
    obtain ⟨hi', hj'⟩ := hadvance.paired.scope_lt hij
    exact ⟨⟨hi, hi'⟩, hj, hj'⟩

/-- What is paired behind the turns of all items is one pairing. -/
theorem gather : ∃ (ms : { a // a ∈ all } → Pairing) (m' : Pairing), (∀ a, m ≤ ms a) ∧
    (∀ a, Context.Paired (h.division.part a.2) (ms a) (upTo f all s all.length)
      (upTo g all' s' all'.length)) ∧
    (∀ a i j, (ms a).symbols i j → m.symbols i j ∨ s.symbols.size ≤ i) ∧
    (∀ i j, m'.symbols i j ↔ ∃ a, (ms a).symbols i j) ∧
    ∀ i j, m'.scopes i j ↔ ∃ a, (ms a).scopes i j := by
  choose ms hle hpaired x y hx hy hsymbols hscopes using
    fun a : { a // a ∈ all } => h.behind a.2
  have hclean' := h.clean_second _ (Nat.le_refl _)
  have hne : ∀ {a b : { a // a ∈ all }}, a ≠ b → a.1 ≠ b.1 := fun hab heq => hab (Subtype.ext heq)
  have hturns := fun a b hab => h.first.turns_apart h.clean (hx a) (hx b) (hne hab)
  have hturns' := fun a b hab => h.second.turns_apart hclean' (hy a) (hy b) (hne hab)
  let m' : Pairing :=
    { symbols := fun i j => ∃ a, (ms a).symbols i j
      scopes := fun i j => ∃ a, (ms a).scopes i j
      uniqueSymbols := Pairing.biUnique_union (fun a => (ms a).uniqueSymbols)
        (fun a _ _ => (hle a).symbols) hsymbols
        (fun a b hab => (hturns a b hab).imp And.left And.left)
        (fun a b hab => (hturns' a b hab).imp And.left And.left)
      uniqueScopes := Pairing.biUnique_union (fun a => (ms a).uniqueScopes)
        (fun a _ _ => (hle a).scopes) hscopes
        (fun a b hab => (hturns a b hab).imp And.right And.right)
        (fun a b hab => (hturns' a b hab).imp And.right And.right) }
  refine ⟨ms, m', hle, hpaired, fun a i j hij => ?_, fun _ _ => .rfl, fun _ _ => .rfl⟩
  refine (hsymbols a i j hij).imp_right fun hnew => Nat.le_trans ?_ hnew.1.1
  have hlt := Nat.le_of_lt (List.getElem?_eq_some_iff.1 (hx a)).1
  exact (h.first.sizes (Nat.zero_le _) hlt (h.first.clean hlt (Nat.le_refl _) h.clean)).1

/-- **Behind both rounds the units agree on everything.** -/
theorem paired_end : ∃ m' : Pairing, m ≤ m' ∧
    Context.Paired h.division.whole m' (upTo f all s all.length) (upTo g all' s' all'.length) := by
  rcases List.eq_nil_or_concat all with rfl | ⟨_, last, hlast⟩
  · obtain rfl := h.perm.eq_nil
    exact ⟨m, le_refl m, h.paired⟩
  have hmem : last ∈ all := by simp [hlast]
  obtain ⟨ms, m', hle, hpaired, hnew, hsymbols, hscopes⟩ := h.gather
  have hlem : ∀ a, ms a ≤ m' := fun a =>
    ⟨fun hij => (hsymbols _ _).2 ⟨a, hij⟩, fun hij => (hscopes _ _).2 ⟨a, hij⟩⟩
  refine ⟨m', (hle ⟨last, hmem⟩).trans (hlem _), ?_⟩
  constructor
  · intro i j hij
    obtain ⟨a, hij⟩ := (hsymbols i j).1 hij
    -- The turn of the item that an entry belongs to says what becomes of it.
    obtain ⟨b, hij, hshown⟩ : ∃ b : { b // b ∈ all }, (ms b).symbols i j ∧
        ¬ (h.division.part b.2).hidden i := by
      by_cases hown : ∃ b ∈ all, own b i
      · obtain ⟨b, hb, hi⟩ := hown
        refine ⟨⟨b, hb⟩, ?_, ?_⟩
        · rcases hnew a i j hij with hij | hsize
          · exact (hle _).symbols hij
          · exact absurd (h.division.known b hb i hi) (Nat.not_lt.2 hsize)
        · rintro ⟨c, hc, hne, hi'⟩
          exact hne (h.division.ownApart c hc b hb i hi' hi)
      · exact ⟨a, hij, fun ⟨c, hc, _, hi⟩ => hown ⟨c, hc, hi⟩⟩
    obtain ⟨x, x', hx, hx', hakin, hsame⟩ := (hpaired b).table i j hij
    exact ⟨x, x', hx, hx', hakin, fun _ => (hsame hshown).imp fun _ _ => (hlem b).symbols⟩
  · exact fun _ hi => absurd hi id
  · intro i j hij
    obtain ⟨a, hij⟩ := (hscopes i j).1 hij
    obtain ⟨x, x', hx, hx', hsame⟩ := (hpaired a).scopes i j hij
    exact ⟨x, x', hx, hx', hsame.le (hlem a)⟩
  · exact (hpaired ⟨last, hmem⟩).descends
  · exact (hpaired ⟨last, hmem⟩).descends'
  · rintro n n' ⟨a, ha, hn⟩
    exact ((hpaired ⟨a, ha⟩).symbol? n n' hn).imp fun _ _ hij => ⟨(hlem _).symbols hij.1, id⟩
  · rintro n n' ⟨a, ha, hn⟩
    exact ((hpaired ⟨a, ha⟩).type? n n' hn).imp fun _ _ hty => hty.imp fun _ _ => (hlem _).symbols
  · rintro n n' ⟨a, ha, hn⟩
    exact ((hpaired ⟨a, ha⟩).scope? n n' hn).imp fun _ _ => (hlem _).scopes
  · exact iff_of_true (h.clean_second _ (Nat.le_refl _)) h.clean

end Rounds

end

end ClassLang
