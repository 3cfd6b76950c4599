import ClassLang.Proofs.Syntax.Arithmetic
import ClassLang.Proofs.Syntax.Offset
import ClassLang.Proofs.Syntax.Written

/-!
# Two parsers on one track

A parser with checked arithmetic does what the one without bounds does, as long as nothing
overflows; and nothing overflows because of what the nodes so far are written with.  So both are
followed at once: `Parser.Tracks P p' p Q` is a triple about the tokens read so far and the next
token, and says besides that `p'` and `p` end alike.

The triple speaks of runs that report errors too.  Whether nothing was left out is known in the end
only, so it is a proposition that the errors at the end have to agree with.
-/

namespace ClassLang

variable {source : List Char} {clean : Prop}

/-- A state behind some tokens of the source. -/
structure ParserState.StandsBehind (source : List Char) (front : List Token) (s : ParserState) :
    Prop where
  eof : s.eof.kind = .eof
  inOrder : InOrder source (front ++ s.tokens ++ [s.eof])

/-- The tokens read so far stand in order. -/
theorem ParserState.StandsBehind.front {front : List Token} {s : ParserState}
    (h : s.StandsBehind source front) : InOrder source front :=
  h.inOrder.sublist (by rw [List.append_assoc]; exact List.sublist_append_left ..)

/-- A state that has read more stands behind more. -/
theorem ParserState.StandsBehind.later {front read : List Token} {s s' : ParserState}
    (h : s.StandsBehind source front) (htokens : s.tokens = read ++ s'.tokens)
    (heof : s'.eof = s.eof) : s'.StandsBehind source (front ++ read) where
  eof := heof ▸ h.eof
  inOrder := by
    have hinOrder := h.inOrder
    rw [htokens] at hinOrder
    simpa [heof] using hinOrder

namespace Parser

/-- In front of both parsers `P` holds of the tokens read so far and of the next one.  They end
alike, if the source is not too long, and where they give a value `Q` holds behind them. -/
structure Tracks {α : Type} (source : List Char) (clean : Prop) (P : List Token → Token → Prop)
    (p' p : Parser α) (Q : α → List Token → Token → Prop) : Prop where
  moves : ∀ s, (p s).rest.tokens <:+ s.tokens ∧ (p s).rest.eof = s.eof
  grows : ∀ {s s' : ParserState} {a : α}, p s = .ok a s' → s'.errors = [] → s.errors = []
  same : Text.byteLength source < Nat.pow 2 32 - 1 → ¬ clean →
    ∀ {front : List Token} {s : ParserState},
    s.StandsBehind source front → P front s.peek → p' s = p s
  tracks : ∀ {front : List Token} {s s' : ParserState} {a : α}, s.StandsBehind source front →
    P front s.peek → p s = .ok a s' → (clean → s'.errors = []) →
    ∃ read, s.tokens = read ++ s'.tokens ∧ Q a (front ++ read) s'.peek

section

variable {α β : Type} {P P' : List Token → Token → Prop} {p' p : Parser α}
  {Q Q' : α → List Token → Token → Prop} {R : β → List Token → Token → Prop}

/-- A triple may ask for more in front and promise less behind. -/
theorem Tracks.consequence (h : Tracks source clean P p' p Q)
    (hpre : ∀ front next, InOrder source front → P' front next → P front next)
    (hpost : ∀ a front next, InOrder source front → Q a front next → Q' a front next) :
    Tracks source clean P' p' p Q' where
  moves := h.moves
  grows := h.grows
  same hsize hunclean _ _ hs hP := h.same hsize hunclean hs (hpre _ _ hs.front hP)
  tracks := by
    intro front s s' a hs hP hp herrors
    obtain ⟨read, htokens, hQ⟩ := h.tracks hs (hpre _ _ hs.front hP) hp herrors
    have heof : s'.eof = s.eof := by
      have hmoves := (h.moves s).2
      rwa [hp] at hmoves
    exact ⟨read, htokens, hpost _ _ _ (hs.later htokens heof).front hQ⟩

/-- A triple may ask for more in front. -/
theorem Tracks.pre (h : Tracks source clean P p' p Q)
    (hpre : ∀ front next, InOrder source front → P' front next → P front next) :
    Tracks source clean P' p' p Q :=
  h.consequence hpre fun _ _ _ _ => id

/-- A triple may promise less behind. -/
theorem Tracks.post (h : Tracks source clean P p' p Q)
    (hpost : ∀ a front next, InOrder source front → Q a front next → Q' a front next) :
    Tracks source clean P p' p Q' :=
  h.consequence (fun _ _ _ => id) hpost

/-- A parser that reads no token and merges nothing. -/
theorem tracks_of_stays (h : ∀ s : ParserState, ∃ a s', p s = .ok a s' ∧ s'.tokens = s.tokens ∧
    s'.eof = s.eof ∧ s'.errors = s.errors ∧
      ∀ front, InOrder source front → P front s.peek → Q a front s.peek) :
    Tracks source clean P p p Q where
  moves s := by
    obtain ⟨a, s', hp, htokens, heof, -⟩ := h s
    rw [hp]
    exact ⟨htokens ▸ List.suffix_rfl, heof⟩
  grows := by
    intro s s' a hp herrors
    obtain ⟨_, _, heq, -, -, hsame, -⟩ := h s
    cases hp.symm.trans heq
    exact hsame.symm.trans herrors
  same _ _ _ _ _ _ := rfl
  tracks := by
    intro front s s' a hs hP hp _
    obtain ⟨_, _, heq, htokens, heof, -, hQ⟩ := h s
    cases hp.symm.trans heq
    have hpeek : s'.peek = s.peek := by rw [ParserState.peek, ParserState.peek, htokens, heof]
    refine ⟨[], htokens.symm, ?_⟩
    rw [List.append_nil, hpeek]
    exact hQ front hs.front hP

/-- A parser that gives no value. -/
theorem tracks_of_fails (h : ∀ s : ParserState, ∃ error, p s = .fail error s) :
    Tracks source clean P p p Q where
  moves s := by
    obtain ⟨error, hp⟩ := h s
    rw [hp]
    exact ⟨List.suffix_rfl, rfl⟩
  grows := by
    intro s s' a hp
    obtain ⟨error, heq⟩ := h s
    cases hp.symm.trans heq
  same _ _ _ _ _ _ := rfl
  tracks := by
    intro front s s' a _ _ hp
    obtain ⟨error, heq⟩ := h s
    cases hp.symm.trans heq

/-- Values alone read nothing. -/
theorem tracks_pure {a : α}
    (h : ∀ front next, InOrder source front → P front next → Q a front next) :
    Tracks source clean P (pure a) (pure a) Q :=
  tracks_of_stays fun s => ⟨a, s, rfl, rfl, rfl, rfl, fun front hfront => h front _ hfront⟩

/-- Failures promise anything. -/
theorem tracks_fail (error : SyntaxError) :
    Tracks source clean P (fail error : Parser α) (fail error) Q :=
  tracks_of_fails fun _ => ⟨error, rfl⟩

/-- Parsers without rounds left promise anything. -/
theorem tracks_exhausted : Tracks source clean P (exhausted : Parser α) exhausted Q :=
  tracks_of_fails fun _ => ⟨_, rfl⟩

/-- One parser after another. -/
theorem Tracks.bind {f' f : α → Parser β} (hp : Tracks source clean P p' p Q)
    (hf : ∀ a, Tracks source clean (Q a) (f' a) (f a) R) :
    Tracks source clean P (p' >>= f') (p >>= f) R where
  moves s := by
    obtain ⟨hsuffix, heof⟩ := hp.moves s
    cases hend : p s with
    | ok a mid =>
        obtain ⟨hsuffix', heof'⟩ := (hf a).moves mid
        rw [hend] at hsuffix heof
        rw [bind_of_ok hend]
        exact ⟨hsuffix'.trans hsuffix, heof'.trans heof⟩
    | fail error mid =>
        rw [hend] at hsuffix heof
        rw [bind_of_fail hend]
        exact ⟨hsuffix, heof⟩
  grows := by
    intro s s' b h herrors
    obtain ⟨a, mid, hpok, hfok⟩ := bind_ok h
    exact hp.grows hpok ((hf a).grows hfok herrors)
  same := by
    intro hsize hunclean front s hs hP
    have hsame := hp.same hsize hunclean hs hP
    cases hend : p s with
    | ok a mid =>
        obtain ⟨read, htokens, hQ⟩ := hp.tracks hs hP hend fun hclean => absurd hclean hunclean
        have heof := (hp.moves s).2
        rw [hend] at heof
        rw [bind_of_ok hend, bind_of_ok (hsame.trans hend)]
        exact (hf a).same hsize hunclean (hs.later htokens heof) hQ
    | fail error mid => rw [bind_of_fail hend, bind_of_fail (hsame.trans hend)]
  tracks := by
    intro front s s' b hs hP h herrors
    obtain ⟨a, mid, hpok, hfok⟩ := bind_ok h
    obtain ⟨read, htokens, hQ⟩ :=
      hp.tracks hs hP hpok fun hclean => (hf a).grows hfok (herrors hclean)
    have heof := (hp.moves s).2
    rw [hpok] at heof
    obtain ⟨more, htokens', hR⟩ := (hf a).tracks (hs.later htokens heof) hQ hfok herrors
    refine ⟨read ++ more, by rw [htokens, htokens', List.append_assoc], ?_⟩
    rwa [← List.append_assoc]

/-- A triple of values that are mapped. -/
theorem Tracks.map {g : α → β} (hp : Tracks source clean P p' p fun a => R (g a)) :
    Tracks source clean P (g <$> p') (g <$> p) R :=
  hp.bind fun _ => tracks_pure fun _ _ _ => id

/-- A triple that holds for every number of rounds. -/
theorem tracks_bounded {p' p : Nat → Parser α}
    (h : ∀ fuel, Tracks source clean P (p' fuel) (p fuel) Q) :
    Tracks source clean P (bounded p') (bounded p) Q where
  moves s := (h (s.tokens.length + 1)).moves s
  grows {s} := (h (s.tokens.length + 1)).grows
  same hsize hunclean _ s := (h (s.tokens.length + 1)).same hsize hunclean
  tracks {_ s} := (h (s.tokens.length + 1)).tracks

/-- From each state the parsers do what others do. -/
theorem Tracks.of_states (h : ∀ s : ParserState, ∃ q' q : Parser α,
    Tracks source clean P q' q Q ∧ p' s = q' s ∧ p s = q s) : Tracks source clean P p' p Q where
  moves s := by
    obtain ⟨q', q, hq, -, hp⟩ := h s
    rw [hp]
    exact hq.moves s
  grows := by
    intro s s' a hok
    obtain ⟨q', q, hq, -, hp⟩ := h s
    exact hq.grows (hp ▸ hok)
  same := by
    intro hsize hunclean front s hs hP
    obtain ⟨q', q, hq, hp', hp⟩ := h s
    rw [hp', hp]
    exact hq.same hsize hunclean hs hP
  tracks := by
    intro front s s' a hs hP hok
    obtain ⟨q', q, hq, -, hp⟩ := h s
    exact hq.tracks hs hP (hp ▸ hok)

/-- **Two places are merged**, those of two pieces of what has been read. -/
theorem tracks_merged {overflow : Parser Span} {a b : Span} {f' : Span → Parser α}
    (hcovers : ∀ front next, P front next → ∃ us mid vs, (us ++ mid ++ vs).Sublist front ∧
      a.Covers source us ∧ b.Covers source vs)
    (h : Tracks source clean P (f' (a.merge b)) p Q) :
    Tracks source clean P ((checked overflow).merge a b >>= f') p Q where
  moves := h.moves
  grows := h.grows
  tracks := h.tracks
  same := by
    intro hsize hunclean front s hs hP
    obtain ⟨us, mid, vs, hpart, ha, hb⟩ := hcovers _ _ hP
    have hmerged : (checked overflow).merge a b = pure (a.merge b) := by
      simp only [checked, ha.mergeChecked?_eq hb (hs.front.sublist hpart) hsize]
    rw [hmerged]
    exact h.same hsize hunclean hs hP

end

/-! ## Single tokens -/

end Parser

/-- Where the tokens go on, the next one is the first of them. -/
theorem ParserState.StandsBehind.tokens_eq {front : List Token} {s : ParserState}
    (h : s.StandsBehind source front) (hpeek : s.peek.kind ≠ .eof) :
    s.tokens = [s.peek] ++ s.skip.tokens := by
  unfold peek skip at *
  cases htokens : s.tokens with
  | nil => simp [htokens, h.eof] at hpeek
  | cons token rest => simp

namespace Parser

section

variable {β : Type} {P : List Token → Token → Prop} {kind : TokenKind}
  {R : β → List Token → Token → Prop}

/-- What is known behind a token that was read. -/
def Past (P : List Token → Token → Prop) (token : Token) (front : List Token) (_ : Token) : Prop :=
  ∃ before, P before token ∧ front = before ++ [token]

/-- Looking at the next token reads nothing. -/
theorem tracks_peek : Tracks source clean P peek peek fun token front next =>
    token = next ∧ P front next :=
  tracks_of_stays fun s => ⟨s.peek, s, rfl, rfl, rfl, rfl, fun _ _ hP => ⟨rfl, hP⟩⟩

/-- Comparing the next token reads nothing. -/
theorem tracks_check {f' f : Bool → Parser β}
    (h : ∀ found, Tracks source clean P (f' found) (f found) R) :
    Tracks source clean P (check kind >>= f') (check kind >>= f) R := by
  refine Tracks.bind (Q := fun _ => P) ?_ h
  exact tracks_of_stays fun s => ⟨_, s, rfl, rfl, rfl, rfl, fun _ _ => id⟩

/-- Taking a number reads nothing. -/
theorem tracks_freshId : Tracks source clean P freshId freshId fun _ => P :=
  tracks_of_stays fun s => ⟨s.nextId, _, rfl, rfl, rfl, rfl, fun _ _ => id⟩

/-- A parser that takes the next token, if it is one that it wants, and fails otherwise. -/
theorem tracks_of_takes {α : Type} {p : Parser α} {Q : α → List Token → Token → Prop}
    (h : ∀ s : ParserState, (∃ error, p s = .fail error s) ∨ ∃ a, p s = .ok a s.skip ∧
      ∀ front, P front s.peek → s.peek.kind ≠ .eof ∧ Q a (front ++ [s.peek]) s.skip.peek) :
    Tracks source clean P p p Q where
  moves s := by
    rcases h s with ⟨error, hp⟩ | ⟨a, hp, -⟩
    · rw [hp]
      exact ⟨List.suffix_rfl, rfl⟩
    · rw [hp]
      exact ⟨List.tail_suffix _, rfl⟩
  grows := by
    intro s s' a hp herrors
    rcases h s with ⟨error, heq⟩ | ⟨b, heq, -⟩
    · cases hp.symm.trans heq
    · cases hp.symm.trans heq
      exact herrors
  same _ _ _ _ _ _ := rfl
  tracks := by
    intro front s s' a hs hP hp _
    rcases h s with ⟨error, heq⟩ | ⟨b, heq, hQ⟩
    · cases hp.symm.trans heq
    · cases hp.symm.trans heq
      obtain ⟨hpeek, hQ⟩ := hQ front hP
      exact ⟨[s.peek], hs.tokens_eq hpeek, hQ⟩

/-- Advancing puts the next token behind. -/
theorem tracks_advance (h : ∀ front next, P front next → next.kind ≠ .eof) :
    Tracks source clean P advance advance (Past P) :=
  tracks_of_takes fun s => .inr ⟨s.peek, rfl, fun front hP => ⟨h _ _ hP, front, hP, rfl⟩⟩

/-- An expected token is put behind. -/
theorem tracks_expect (hkind : kind ≠ .eof) : Tracks source clean P (expect kind) (expect kind)
    fun token front next => token.kind = kind ∧ Past P token front next := by
  refine tracks_of_takes fun s => ?_
  unfold expect
  simp only
  split
  · next h => exact .inr ⟨s.peek, rfl, fun front hP => ⟨h ▸ hkind, h, front, hP, rfl⟩⟩
  · split
    · exact .inl ⟨_, rfl⟩
    · exact .inl ⟨_, rfl⟩

/-- A name is put behind, with the place of its token. -/
theorem tracks_ident : Tracks source clean P ident ident fun name front next =>
    ∃ token, name.IsWritten token ∧ Past P token front next := by
  refine tracks_of_takes fun s => ?_
  unfold ident
  simp only
  split
  · next h =>
      exact .inr ⟨_, rfl, fun front hP => ⟨by simp [h], s.peek, ⟨h, rfl⟩, front, hP, rfl⟩⟩
  · exact .inl ⟨_, rfl⟩
  · exact .inl ⟨_, rfl⟩

/-- A token that may be there. -/
theorem tracks_eat {f' f : Bool → Parser β} (hkind : kind ≠ .eof)
    (hthere : Tracks source clean (fun front next => ∃ token, token.kind = kind ∧
      Past P token front next) (f' true) (f true) R)
    (hmissing : Tracks source clean P (f' false) (f false) R) :
    Tracks source clean P (eat kind >>= f') (eat kind >>= f) R := by
  refine .of_states fun s => ?_
  by_cases h : s.peek.kind = kind
  · have heat : eat kind s = .ok true s.skip := if_pos h
    refine ⟨expect kind >>= fun _ => f' true, expect kind >>= fun _ => f true, ?_, ?_, ?_⟩
    · exact (tracks_expect hkind).bind fun token =>
        hthere.pre fun front next _ hpast => ⟨token, hpast⟩
    · have hexpect : expect kind s = .ok s.peek s.skip := if_pos h
      rw [bind_of_ok heat, bind_of_ok hexpect]
    · have hexpect : expect kind s = .ok s.peek s.skip := if_pos h
      rw [bind_of_ok heat, bind_of_ok hexpect]
  · have heat : eat kind s = .ok false s := if_neg h
    exact ⟨f' false, f false, hmissing, bind_of_ok heat, bind_of_ok heat⟩

end

end Parser

end ClassLang
