import ClassLang.Proofs.Syntax.Offset

/-!
# Going on after errors

A list whose values may be left out is read to its end: each round reads at least one token, be it
by the value or by skipping behind it, so that the bound on the rounds is never met
(`Parser.Rounds`).  For statements, members and declarations this is so, and `Parser.items` gives
its items and leaves no token behind whatever the source is.
-/

namespace ClassLang

/-- In front of anything but the end mark there is a token. -/
theorem ParserState.tokens_eq_cons {s : ParserState} (hended : s.Ended) (h : s.peek.kind ≠ .eof) :
    s.tokens = s.peek :: s.tokens.tail := by
  unfold ParserState.peek at *
  cases htokens : s.tokens with
  | nil =>
      rw [htokens] at h
      exact absurd hended.eof h
  | cons token rest => rfl

namespace Parser

/-! ## What is skipped -/

/-- In front of anything but a closing brace a token is skipped. -/
theorem length_afterStatement (token : Token) (rest : List Token)
    (h : token.kind ≠ .mark .rightBrace) :
    (afterStatement 0 (token :: rest)).length ≤ rest.length := by
  rw [afterStatement]
  split
  · exact (afterStatement_suffix _ _).length_le
  · next hkind => exact absurd hkind h
  · exact Nat.le_refl _
  · exact (afterStatement_suffix _ _).length_le

/-- In front of anything but a word that starts a declaration a token is skipped. -/
theorem length_afterItem (token : Token) (rest : List Token)
    (h : token.kind ≠ .keyword .classWord ∧ token.kind ≠ .keyword .structWord ∧
      token.kind ≠ .keyword .externWord) : (afterItem 0 (token :: rest)).length ≤ rest.length := by
  obtain ⟨hclass, hstruct, hextern⟩ := h
  rw [afterItem]
  split
  · next hkind => exact absurd hkind hclass
  · next hkind => exact absurd hkind hstruct
  · next hkind => exact absurd hkind hextern
  · exact (afterItem_suffix _ _).length_le
  · exact Nat.le_refl _
  · exact Nat.le_refl _
  · exact (afterItem_suffix _ _).length_le

/-! ## Rounds -/

section

variable {α : Type} {stop : TokenKind → Bool} {p : Parser α} {skip : Parser Unit}
  {after : List Token → List Token} {I : ParserState → Prop}

/-- In a round a token is read, and what was known is still known behind it. -/
def Rounds (stop : TokenKind → Bool) (p : Parser α) (skip : Parser Unit)
    (I : ParserState → Prop) : Prop :=
  ∀ s : ParserState, I s → stop s.peek.kind = false → ∃ found s', attempt p skip s = .ok found s' ∧
    I s' ∧ s'.tokens.length < s.tokens.length

theorem recoveringUpTo_stop {fuel : Nat} {s : ParserState} (h : stop s.peek.kind = true) :
    recoveringUpTo stop p skip (fuel + 1) s = .ok [] s := by
  have hpeek : peek s = .ok s.peek s := rfl
  rw [recoveringUpTo, bind_of_ok hpeek, if_pos h]
  rfl

theorem recoveringUpTo_round {fuel : Nat} {s s' : ParserState} {found : Option α}
    (h : stop s.peek.kind = false) (hattempt : attempt p skip s = .ok found s') :
    recoveringUpTo stop p skip (fuel + 1) s =
      (recoveringUpTo stop p skip fuel >>= fun rest => pure (found.toList ++ rest)) s' := by
  have hpeek : peek s = .ok s.peek s := rfl
  rw [recoveringUpTo, bind_of_ok hpeek, if_neg (by simp [h]), bind_of_ok hattempt]

/-- **Enough rounds lead to the end of the list.** -/
theorem Rounds.ends (h : Rounds stop p skip I) {fuel : Nat} {s : ParserState} (hs : I s)
    (hfuel : s.tokens.length < fuel) : ∃ as s', recoveringUpTo stop p skip fuel s = .ok as s' ∧
      I s' ∧ stop s'.peek.kind = true := by
  induction fuel generalizing s with
  | zero => exact absurd hfuel (Nat.not_lt_zero _)
  | succ fuel ih =>
      cases hstop : stop s.peek.kind with
      | true => exact ⟨[], s, recoveringUpTo_stop hstop, hs, hstop⟩
      | false =>
          obtain ⟨found, mid, hattempt, hmid, hlt⟩ := h s hs hstop
          obtain ⟨as, s', hrest, hs', hstop'⟩ := ih hmid (by omega)
          refine ⟨found.toList ++ as, s', ?_, hs', hstop'⟩
          rw [recoveringUpTo_round hstop hattempt, bind_of_ok hrest]
          rfl

/-- More rounds than enough change nothing. -/
theorem Rounds.enough (h : Rounds stop p skip I) {fuel fuel' : Nat} {s : ParserState} (hs : I s)
    (hfuel : s.tokens.length < fuel) (hfuel' : s.tokens.length < fuel') :
    recoveringUpTo stop p skip fuel s = recoveringUpTo stop p skip fuel' s := by
  induction fuel generalizing s fuel' with
  | zero => exact absurd hfuel (Nat.not_lt_zero _)
  | succ fuel ih =>
      obtain ⟨fuel', rfl⟩ : ∃ m, fuel' = m + 1 := ⟨fuel' - 1, by omega⟩
      cases hstop : stop s.peek.kind with
      | true => rw [recoveringUpTo_stop hstop, recoveringUpTo_stop hstop]
      | false =>
          obtain ⟨found, mid, hattempt, hmid, hlt⟩ := h s hs hstop
          obtain ⟨as, s', hrest, -⟩ := h.ends hmid (show mid.tokens.length < fuel by omega)
          have hrest' : recoveringUpTo stop p skip fuel' mid = .ok as s' :=
            (ih hmid (by omega) (by omega)).symm.trans hrest
          rw [recoveringUpTo_round hstop hattempt, recoveringUpTo_round hstop hattempt,
            bind_of_ok hrest, bind_of_ok hrest']

theorem Rounds.recovering_ends (h : Rounds stop p skip I) {s : ParserState} (hs : I s) :
    ∃ as s', recovering stop p skip s = .ok as s' ∧ I s' ∧ stop s'.peek.kind = true :=
  h.ends hs (Nat.lt_succ_self _)

/-- Behind the first value the list is read as if it started there. -/
theorem Rounds.recovering_round (h : Rounds stop p skip I) {s s' : ParserState} (hs : I s)
    {a : α} (hstop : stop s.peek.kind = false) (hp : p s = .ok a s') :
    recovering stop p skip s = (recovering stop p skip >>= fun rest => pure (a :: rest)) s' := by
  obtain ⟨found, mid, hattempt, hmid, hlt⟩ := h s hs hstop
  obtain ⟨rfl, rfl⟩ : some a = found ∧ s' = mid := by
    rw [attempt_of_ok hp] at hattempt
    cases hattempt
    exact ⟨rfl, rfl⟩
  obtain ⟨as, last, hrest, -⟩ := h.recovering_ends hmid
  have hmore : recoveringUpTo stop p skip s.tokens.length s' = .ok as last :=
    (h.enough hmid hlt (Nat.lt_succ_self _)).trans hrest
  have hround : recovering stop p skip s = recoveringUpTo stop p skip (s.tokens.length + 1) s := rfl
  rw [hround, recoveringUpTo_round hstop hattempt, bind_of_ok hmore, bind_of_ok hrest]
  rfl

/-- A value that takes a token where it can be read, and a way to skip that takes one where the
value takes none. -/
theorem rounds_of_runs {move : α → α} (h : Runs 0 [] AnyKind True move p p)
    (hskip : Skips skip after) (hafter : ∀ tokens, after tokens <:+ tokens)
    (heof : stop .eof = true)
    (hfail : ∀ (s s' : ParserState) (error : SyntaxError) (token : Token) (rest : List Token),
      s.Ended → stop s.peek.kind = false → p s = .fail error s' → s.tokens = token :: rest →
      s'.tokens = s.tokens → (after s.tokens).length ≤ rest.length) :
    Rounds stop p skip ParserState.Ended := by
  intro s hended hstop
  have hsuffix := h.suffix hended
  have hended' := h.ended hended
  cases hp : p s with
  | ok a s' =>
      rw [hp] at hended'
      have hlt := (h s.peek).advances trivial (fun hne => hne rfl) hended rfl hp
      exact ⟨some a, s', attempt_of_ok hp, hended', hlt⟩
  | fail error s' =>
      rw [hp] at hsuffix hended'
      refine ⟨none, _, attempt_of_fail hskip hp, hended'.suffix rfl (hafter _), ?_⟩
      by_cases hsame : s'.tokens = s.tokens
      · have hpeek : s.peek.kind ≠ .eof := by
          intro hkind
          rw [hkind, heof] at hstop
          cases hstop
        have hcons := ParserState.tokens_eq_cons hended hpeek
        have hle := hfail s s' error _ _ hended hstop hp hcons hsame
        have hlength := congrArg List.length hcons
        rw [List.length_cons] at hlength
        simp only [hsame]
        omega
      · have hlt : s'.tokens.length < s.tokens.length :=
          Nat.lt_of_le_of_ne hsuffix.length_le fun hlength => hsame (hsuffix.eq_of_length hlength)
        exact Nat.lt_of_le_of_lt (hafter s'.tokens).length_le hlt

end

/-- Statements and members: skipping stops in front of a closing brace only. -/
theorem rounds_statement {α : Type} {move : α → α} {p : Parser α}
    (h : Runs 0 [] AnyKind True move p p) :
    Rounds closesBraces p skipStatement ParserState.Ended := by
  refine rounds_of_runs h skips_skipStatement (afterStatement_suffix 0) rfl ?_
  intro s s' error token rest _ hstop _ htokens _
  rw [htokens]
  refine length_afterStatement token rest fun hkind => ?_
  have hpeek : s.peek.kind = .mark .rightBrace := by
    rw [ParserState.peek, htokens]
    exact hkind
  rw [hpeek] at hstop
  cases hstop

theorem item_of_class {s : ParserState} (h : s.peek.kind = .keyword .classWord) :
    item s = (Item.classDecl <$> classDecl) s := by
  have hpeek : peek s = .ok s.peek s := rfl
  rw [item, bind_of_ok hpeek, h]

theorem item_of_struct {s : ParserState} (h : s.peek.kind = .keyword .structWord) :
    item s = (Item.structDecl <$> structDecl) s := by
  have hpeek : peek s = .ok s.peek s := rfl
  rw [item, bind_of_ok hpeek, h]

theorem item_of_external {s : ParserState} (h : s.peek.kind = .keyword .externWord) :
    item s = (Item.function <$> externalDecl) s := by
  have hpeek : peek s = .ok s.peek s := rfl
  rw [item, bind_of_ok hpeek, h]

/-- Declarations: where skipping stops at once, the word that starts a declaration was read. -/
theorem rounds_item : Rounds (· == .eof) item skipItem ParserState.Ended := by
  refine rounds_of_runs runs_item skips_skipItem (afterItem_suffix 0) rfl ?_
  intro s s' error token rest hended _ hp htokens hsame
  have hpeek : s.peek = token := by
    rw [ParserState.peek, htokens]
    rfl
  have hreads : ∀ {α : Type} {move : α → α} {kind : TokenKind} {q : Parser α} {g : α → Item},
      RunsBehind 0 [] kind move q → kind ≠ .eof → s.peek.kind = kind → item s ≠ (g <$> q) s := by
    intro α move kind q g hq hkind hs hitem
    have hlt := hq.advances hkind hended hs
    have hrest : (q s).rest.tokens = s'.tokens := by
      cases hend : q s with
      | ok a mid =>
          have hok : item s = .ok (g a) mid := hitem.trans (bind_of_ok hend)
          cases hok.symm.trans hp
      | fail error' mid =>
          have hfail : item s = .fail error' mid := hitem.trans (bind_of_fail hend)
          cases hfail.symm.trans hp
          rfl
    rw [hrest, hsame] at hlt
    exact Nat.lt_irrefl _ hlt
  rw [htokens]
  rw [← hpeek] at htokens ⊢
  refine length_afterItem s.peek rest ⟨?_, ?_, ?_⟩
  · intro hkind
    exact hreads runs_classDecl (by simp) hkind (item_of_class hkind)
  · intro hkind
    exact hreads runs_structDecl (by simp) hkind (item_of_struct hkind)
  · intro hkind
    exact hreads runs_externalDecl (by simp) hkind (item_of_external hkind)

/-- **Items are read to the end**, whatever errors there are. -/
theorem items_ends {s : ParserState} (hended : s.Ended) :
    ∃ found s', items s = .ok found s' ∧ s'.tokens = [] ∧ s'.eof = s.eof := by
  obtain ⟨found, s', hitems, hended', hstop⟩ := rounds_item.recovering_ends hended
  have hruns : Runs 0 [] AnyKind False (List.map (Item.shifted 0)) items items := runs_items
  obtain ⟨-, -, -, heof⟩ := (hruns s.peek).reads hended rfl
  refine ⟨found, s', hitems, ?_, ?_⟩
  · cases htokens : s'.tokens with
    | nil => rfl
    | cons token rest =>
        have hkind : s'.peek.kind = .eof := by simpa using hstop
        rw [ParserState.peek, htokens] at hkind
        exact absurd hkind (hended'.tokens token (by simp [htokens]))
  · have hrest : (items s).rest = s' := congrArg Parsed.rest hitems
    rw [← hrest]
    exact heof

end Parser

end ClassLang
