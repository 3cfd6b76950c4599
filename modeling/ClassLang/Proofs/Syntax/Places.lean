import ClassLang.Proofs.Token.Tiling

/-!
# Places of nodes

The place of a node is put together from the places of its parts.  It should start where the first
token of the node starts and reach to the end of the last one, as far as a length can say: over
several lines the length counts the parts and not what stands between them (`Span.Covers`).

Merging keeps this, if the parts are merged in source order (`Span.Covers.merge`): on one line the
second part starts at the end of the first or behind it, so that the hull is what the columns say;
on different lines the lengths add up to no more than there are bytes.  For the same reason no sum
and no difference leaves the 32 bits of the fields, if the source is not too long
(`Span.Covers.mergeChecked?_eq`).
-/

namespace ClassLang

/-! ## Tokens in order -/

/-- Tokens of a source, one behind another. -/
structure InOrder (source : List Char) (tokens : List Token) : Prop where
  lexemes : ∀ token ∈ tokens, token.IsAt source
  ordered : tokens.Pairwise (Token.Precedes source)

namespace InOrder

variable {source : List Char} {tokens : List Token}

theorem sublist {part : List Token} (h : InOrder source tokens) (hpart : part.Sublist tokens) :
    InOrder source part :=
  ⟨fun token htoken => h.lexemes token (hpart.subset htoken), h.ordered.sublist hpart⟩

theorem of_lex (source : String) : InOrder source.toList (lex source).all :=
  ⟨(tiles_lex source).lexemes, (tiles_lex source).ordered⟩

end InOrder

namespace Token

variable {source : List Char} {token next : Token}

/-- A token lies inside the source. -/
theorem IsAt.stop_le (h : token.IsAt source) :
    token.span.stop source ≤ Text.byteLength source := by
  obtain ⟨before, after, hsource, hoffset, hlen, -⟩ := h
  rw [Span.stop, hoffset, hlen, hsource, Text.byteLength_append, Text.byteLength_append]
  omega

/-- A token that starts later is not on an earlier line. -/
theorem IsAt.line_le (h : token.IsAt source) (h' : next.IsAt source)
    (hle : token.span.offset source ≤ next.span.offset source) :
    token.span.line ≤ next.span.line := by
  obtain ⟨before, after, hsource, hoffset, -, hline, -⟩ := h
  obtain ⟨before', after', hsource', hoffset', -, hline', -⟩ := h'
  have hcount : before.count '\n' ≤ before'.count '\n' := by
    rcases List.prefix_or_prefix_of_prefix ⟨_, hsource.symm⟩ ⟨_, hsource'.symm⟩ with hpre | hpre
    · exact hpre.sublist.count_le _
    · -- the shorter text has as many bytes, so that nothing follows it
      obtain ⟨more, rfl⟩ := hpre
      have hmore : more = [] := by
        by_contra hne
        have hpos := Text.byteLength_pos hne
        rw [hoffset, hoffset', Text.byteLength_append] at hle
        omega
      simp [hmore]
  omega

/-- On one line, columns are as far apart as bytes. -/
theorem IsAt.offset_add_col (h : token.IsAt source) (h' : next.IsAt source)
    (hline : token.span.line = next.span.line) :
    token.span.offset source + next.span.col = next.span.offset source + token.span.col := by
  obtain ⟨-, -, -, -, -, -, hcol⟩ := h
  obtain ⟨-, -, -, -, -, -, hcol'⟩ := h'
  rw [Span.offset, Span.offset, hline]
  omega

end Token

/-! ## Places that cover tokens -/

/-- A place from the start of one token to the end of another, as far as a length can say. -/
structure Span.Reaches (source : List Char) (span : Span) (first last : Token) : Prop where
  line : span.line = first.span.line
  col : span.col = first.span.col
  le : first.span.offset source + span.len ≤ last.span.stop source
  eq : first.span.line = last.span.line →
    first.span.offset source + span.len = last.span.stop source

/-- A place that starts with the first of some tokens.  It is not longer than up to the end of the
last of them, and just as long if the first and the last one are on one line. -/
def Span.Covers (source : List Char) (span : Span) (tokens : List Token) : Prop :=
  ∃ first last, tokens.head? = some first ∧ tokens.getLast? = some last ∧
    span.Reaches source first last

/-- The sum of two numbers of 32 bits. -/
def checkedAdd? (a b : Nat) : Option Nat := if a + b < Nat.pow 2 32 then some (a + b) else none

/-- The difference of two numbers. -/
def checkedSub? (a b : Nat) : Option Nat := if b ≤ a then some (a - b) else none

/-- The span from the start of `a` that also covers `b`, unless a sum or a difference on the way
leaves the 32 bits. -/
def Span.mergeChecked? (a b : Span) : Option Span :=
  if a.line = b.line then do
    let start := min a.col b.col
    let stop := max (← checkedAdd? a.col a.len) (← checkedAdd? b.col b.len)
    return ⟨a.line, start, ← checkedSub? stop start⟩
  else do
    return ⟨a.line, a.col, ← checkedAdd? a.len b.len⟩

namespace Span

variable {source : List Char} {a b : Span} {first last first' last' : Token}

theorem reaches_self (token : Token) : token.span.Reaches source token token :=
  ⟨rfl, rfl, Nat.le_refl _, fun _ => rfl⟩

/-- **Merging two places**, the first of which ends in front of the second. -/
theorem Reaches.merge (ha : a.Reaches source first last) (hb : b.Reaches source first' last')
    (hfirst : first.IsAt source) (hfirst' : first'.IsAt source) (hlast' : last'.IsAt source)
    (hle : last.span.stop source ≤ first'.span.offset source)
    (hle' : first'.span.offset source ≤ last'.span.offset source) :
    (a.merge b).Reaches source first last' := by
  have hastop := ha.le
  have hbstop := hb.le
  have hlines : first.span.line ≤ first'.span.line := hfirst.line_le hfirst' (by omega)
  have hlines' : first'.span.line ≤ last'.span.line := hfirst'.line_le hlast' hle'
  unfold Span.merge
  rw [ha.line, hb.line, ha.col, hb.col]
  split
  · next hline =>
      have hcols := hfirst.offset_add_col hfirst' hline
      have hmin : min first.span.col first'.span.col = first.span.col := by omega
      have hmax : max (first.span.col + a.len) (first'.span.col + b.len) =
          first'.span.col + b.len := by omega
      rw [hmin, hmax]
      refine ⟨rfl, rfl, ?_, fun hsame => ?_⟩
      · simp only
        omega
      · have hbeq := hb.eq (hline.symm.trans hsame)
        simp only
        omega
  · next hline =>
      refine ⟨rfl, rfl, ?_, fun hsame => ?_⟩
      · simp only
        omega
      · omega

/-- **No sum and no difference leaves the 32 bits**, if the parts are merged in source order. -/
theorem Reaches.mergeChecked?_eq (ha : a.Reaches source first last)
    (hb : b.Reaches source first' last') (hlast' : last'.IsAt source)
    (hle : last.span.stop source ≤ first'.span.offset source)
    (hsize : Text.byteLength source < Nat.pow 2 32 - 1) : a.mergeChecked? b = some (a.merge b) := by
  have hastop := ha.le
  have hbstop := hb.le
  have hend := hlast'.stop_le
  have hcol : first.span.col ≤ first.span.offset source + 1 := by
    rw [Span.offset]
    omega
  have hcol' : first'.span.col ≤ first'.span.offset source + 1 := by
    rw [Span.offset]
    omega
  have hadd : checkedAdd? a.col a.len = some (a.col + a.len) := by
    rw [checkedAdd?, ha.col, if_pos (by omega)]
  have hadd' : checkedAdd? b.col b.len = some (b.col + b.len) := by
    rw [checkedAdd?, hb.col, if_pos (by omega)]
  have hlens : checkedAdd? a.len b.len = some (a.len + b.len) := by
    rw [checkedAdd?, if_pos (by omega)]
  have hsub : checkedSub? (max (a.col + a.len) (b.col + b.len)) (min a.col b.col) =
      some (max (a.col + a.len) (b.col + b.len) - min a.col b.col) := by
    rw [checkedSub?, if_pos (by omega)]
  unfold mergeChecked? Span.merge
  split
  · simp [hadd, hadd', hsub]
  · simp [hlens]

/-! ## Merging the places of tokens -/

theorem covers_singleton (token : Token) : token.span.Covers source [token] :=
  ⟨token, token, rfl, rfl, reaches_self token⟩

end Span

namespace InOrder

variable {source : List Char} {us vs mid : List Token} {first last first' last' : Token}

/-- The last of some tokens starts and ends behind the first of them. -/
theorem le_last {tokens : List Token} (h : InOrder source tokens)
    (hlast : tokens.getLast? = some last) :
    ∀ token ∈ tokens, token.span.offset source ≤ last.span.offset source ∧
      token.span.stop source ≤ last.span.stop source := by
  obtain ⟨front, rfl⟩ := List.getLast?_eq_some_iff.1 hlast
  intro token htoken
  rcases List.mem_append.1 htoken with hfront | hsame
  · have hprecedes := (List.pairwise_append.1 h.ordered).2.2 token hfront last (by simp)
    obtain ⟨hlt, hstop⟩ := hprecedes
    refine ⟨Nat.le_of_lt hlt, Nat.le_trans hstop ?_⟩
    rw [Span.stop]
    omega
  · rw [List.mem_singleton.1 hsame]
    exact ⟨Nat.le_refl _, Nat.le_refl _⟩

/-- The first of some tokens starts in front of them. -/
theorem first_le {tokens : List Token} (h : InOrder source tokens)
    (hfirst : tokens.head? = some first) :
    ∀ token ∈ tokens, first.span.offset source ≤ token.span.offset source := by
  obtain ⟨rest, rfl⟩ := List.head?_eq_some_iff.1 hfirst
  intro token htoken
  rcases List.mem_cons.1 htoken with rfl | hrest
  · exact Nat.le_refl _
  · exact Nat.le_of_lt ((List.pairwise_cons.1 h.ordered).1 token hrest).1

/-- Of two pieces of the source, the first one ends in front of the second. -/
theorem stop_le (h : InOrder source (us ++ mid ++ vs)) (hlast : us.getLast? = some last)
    (hfirst : vs.head? = some first) :
    last.span.stop source ≤ first.span.offset source :=
  ((List.pairwise_append.1 h.ordered).2.2 last
    (List.mem_append_left _ (List.mem_of_getLast? hlast)) first (List.mem_of_head? hfirst)).2

end InOrder

namespace Span.Covers

variable {source : List Char} {a b : Span} {us mid vs : List Token}

/-- **Merging the places of two pieces of the source**, with other tokens in between. -/
theorem merge (ha : a.Covers source us) (hb : b.Covers source vs)
    (h : InOrder source (us ++ mid ++ vs)) : (a.merge b).Covers source (us ++ mid ++ vs) := by
  obtain ⟨first, last, hfirst, hlast, hreaches⟩ := ha
  obtain ⟨first', last', hfirst', hlast', hreaches'⟩ := hb
  have hvs : InOrder source vs := h.sublist (List.sublist_append_right ..)
  have hle' := (hvs.le_last hlast' first' (List.mem_of_head? hfirst')).1
  refine ⟨first, last', by simp [hfirst], by simp [hlast'], ?_⟩
  refine hreaches.merge hreaches' (h.lexemes _ ?_) (h.lexemes _ ?_) (h.lexemes _ ?_)
    (h.stop_le hlast hfirst') hle'
  · simp [List.mem_of_head? hfirst]
  · simp [List.mem_of_head? hfirst']
  · simp [List.mem_of_getLast? hlast']

/-- **Merging them does not leave the 32 bits.** -/
theorem mergeChecked?_eq (ha : a.Covers source us) (hb : b.Covers source vs)
    (h : InOrder source (us ++ mid ++ vs)) (hsize : Text.byteLength source < Nat.pow 2 32 - 1) :
    a.mergeChecked? b = some (a.merge b) := by
  obtain ⟨first, last, hfirst, hlast, hreaches⟩ := ha
  obtain ⟨first', last', hfirst', hlast', hreaches'⟩ := hb
  refine hreaches.mergeChecked?_eq hreaches' (h.lexemes _ ?_) (h.stop_le hlast hfirst') hsize
  simp [List.mem_of_getLast? hlast']

end Span.Covers

/-! ## Sources of one line -/

/-- A place that has another one inside, on one line. -/
structure Span.Contains (outer inner : Span) : Prop where
  line : outer.line = inner.line
  col : outer.col ≤ inner.col
  stop : inner.col + inner.len ≤ outer.col + outer.len

/-- All tokens of a source of one line are on the first one. -/
theorem Token.IsAt.line_eq_one {source : List Char} {token : Token} (h : token.IsAt source)
    (hline : '\n' ∉ source) : token.span.line = 1 := by
  obtain ⟨before, after, hsource, -, -, heq, -⟩ := h
  have hcount : before.count '\n' = 0 := by
    refine List.count_eq_zero.2 fun hmem => hline ?_
    rw [hsource]
    exact List.mem_append_left _ hmem
  omega

/-- **On one line, the place of tokens contains the places of pieces of them.** -/
theorem Span.Covers.contains {source : List Char} {outer inner : Span} {tokens part : List Token}
    (houter : outer.Covers source tokens) (hinner : inner.Covers source part)
    (h : InOrder source tokens) (hpart : part.Sublist tokens) (hline : '\n' ∉ source) :
    outer.Contains inner := by
  obtain ⟨first, last, hfirst, hlast, hreaches⟩ := houter
  obtain ⟨first', last', hfirst', hlast', hreaches'⟩ := hinner
  have hmem := List.mem_of_head? hfirst
  have hmem' := hpart.subset (List.mem_of_head? hfirst')
  have hones : ∀ token ∈ tokens, token.span.line = 1 := fun token htoken =>
    (h.lexemes token htoken).line_eq_one hline
  have hlines := (hones first hmem).trans (hones first' hmem').symm
  have hend := (hones last (List.mem_of_getLast? hlast)).symm
  have hstop := hreaches.eq ((hones first hmem).trans hend)
  have hstop' := hreaches'.le
  have hcols := (h.lexemes first hmem).offset_add_col (h.lexemes first' hmem') hlines
  have hle := h.first_le hfirst first' hmem'
  have hle' := (h.le_last hlast last' (hpart.subset (List.mem_of_getLast? hlast'))).2
  refine ⟨?_, ?_, ?_⟩
  · rw [hreaches.line, hreaches'.line, hlines]
  · rw [hreaches.col, hreaches'.col]
    omega
  · rw [hreaches.col, hreaches'.col]
    omega

end ClassLang
