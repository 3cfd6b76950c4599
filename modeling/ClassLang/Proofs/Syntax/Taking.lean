import ClassLang.Proofs.Syntax.Printing

/-!
# What a parser takes

`Parser.Takes p words rest Q` says that `p`, in front of `words`, gives a value with `Q` and stops
in front of `rest`, and that nothing is reported.  Numbers and places of nodes do not occur in it:
it holds for every state that shows these words.  There is one rule for each step on single tokens,
and one for each loop that lists of the grammar are read with.
-/

namespace ClassLang

/-- The kind of the first of some words, or the end mark. -/
def Word.firstKind : List Word → TokenKind
  | [] => .eof
  | w :: _ => w.kind

/-- The words still to be read; no error was noted. -/
structure ParserState.Shows (s : ParserState) (words : List Word) : Prop where
  words_eq : s.tokens.map Token.word = words
  eof_kind : s.eof.kind = .eof
  errors_eq : s.errors = []

namespace ParserState.Shows

variable {s : ParserState} {words rest : List Word} {w : Word}

/-- There are as many tokens as words. -/
theorem length_eq (h : s.Shows words) : s.tokens.length = words.length := by
  rw [← h.words_eq, List.length_map]

/-- The next token is of the kind of the first word. -/
theorem peek_kind (h : s.Shows words) : s.peek.kind = Word.firstKind words := by
  rw [← h.words_eq]
  unfold peek
  cases s.tokens with
  | nil => exact h.eof_kind
  | cons token rest => rfl

/-- The next token is written as the first word. -/
theorem peek_word (h : s.Shows (w :: rest)) : s.peek.word = w := by
  have hwords := h.words_eq
  unfold peek
  cases htokens : s.tokens with
  | nil => simp [htokens] at hwords
  | cons token tokens =>
      rw [htokens, List.map_cons] at hwords
      exact (List.cons.inj hwords).1

/-- Behind the first token the other words are shown. -/
theorem skip (h : s.Shows (w :: rest)) : s.skip.Shows rest where
  words_eq := by
    have hwords := congrArg List.tail h.words_eq
    simpa [ParserState.skip, List.map_tail] using hwords
  eof_kind := h.eof_kind
  errors_eq := h.errors_eq

/-- Taking a number shows the same words. -/
theorem freshId (h : s.Shows words) :
    ({ s with nextId := s.nextId + 1 } : ParserState).Shows words :=
  ⟨h.words_eq, h.eof_kind, h.errors_eq⟩

end ParserState.Shows

namespace Parser

/-- In front of words, a parser gives a value and stops in front of other words. -/
def Takes {α : Type} (p : Parser α) (words rest : List Word) (Q : α → Prop) : Prop :=
  ∀ s : ParserState, s.Shows words → ∃ a s', p s = .ok a s' ∧ s'.Shows rest ∧ Q a

section

variable {α β : Type} {p : Parser α} {words mid rest : List Word} {Q : α → Prop}
  {R : β → Prop} {w : Word}

/-- A value alone takes nothing. -/
theorem takes_pure {a : α} (h : Q a) : Takes (pure a) words words Q :=
  fun s hs => ⟨a, s, rfl, hs, h⟩

/-- Parsers one behind the other take their words one behind the other. -/
theorem Takes.bind {f : α → Parser β} (hp : Takes p words mid Q)
    (hf : ∀ a, Q a → Takes (f a) mid rest R) : Takes (p >>= f) words rest R := by
  intro s hs
  obtain ⟨a, s₁, heq, hs₁, ha⟩ := hp s hs
  obtain ⟨b, s₂, heq', hs₂, hb⟩ := hf a ha s₁ hs₁
  exact ⟨b, s₂, by simpa only [Bind.bind, Parser.bind, heq] using heq', hs₂, hb⟩

/-- What is known of the value may be weakened. -/
theorem Takes.mono {Q' : α → Prop} (h : Takes p words rest Q) (himp : ∀ a, Q a → Q' a) :
    Takes p words rest Q' := by
  intro s hs
  obtain ⟨a, s', heq, hs', ha⟩ := h s hs
  exact ⟨a, s', heq, hs', himp a ha⟩

/-- A value that is mapped takes the same words. -/
theorem Takes.map {g : α → β} (hp : Takes p words rest fun a => R (g a)) :
    Takes (g <$> p) words rest R :=
  hp.bind fun _ ha => takes_pure ha

/-- The bound on the number of rounds is large enough. -/
theorem takes_bounded {p : Nat → Parser α}
    (h : ∀ fuel, words.length < fuel → Takes (p fuel) words rest Q) :
    Takes (bounded p) words rest Q := by
  intro s hs
  exact h (s.tokens.length + 1) (by rw [hs.length_eq]; exact Nat.lt_succ_self _) s hs

/-- Grouping does not matter. -/
theorem bind_assoc' {γ : Type} (p : Parser α) (f : α → Parser β) (g : β → Parser γ) :
    (p >>= f) >>= g = p >>= fun a => f a >>= g := by
  funext s
  simp only [Bind.bind, Parser.bind]
  cases p s <;> rfl

end

section

variable {words rest : List Word} {w : Word} {kind : TokenKind}

/-- Looking at the next token takes nothing. -/
theorem takes_peek : Takes peek words words fun token => token.kind = Word.firstKind words :=
  fun s hs => ⟨s.peek, s, rfl, hs, hs.peek_kind⟩

/-- The next token is written as the first word. -/
theorem takes_peek_word : Takes peek (w :: rest) (w :: rest) fun token => token.word = w :=
  fun s hs => ⟨s.peek, s, rfl, hs, hs.peek_word⟩

/-- Advancing takes the first word. -/
theorem takes_advance : Takes advance (w :: rest) rest fun token => token.word = w :=
  fun s hs => ⟨s.peek, s.skip, rfl, hs.skip, hs.peek_word⟩

/-- Comparing the next token takes nothing. -/
theorem takes_check :
    Takes (check kind) words words fun found => found = (Word.firstKind words == kind) :=
  fun s hs => ⟨_, s, rfl, hs, by rw [hs.peek_kind]⟩

/-- The token is there. -/
theorem takes_eat (h : w.kind = kind) : Takes (eat kind) (w :: rest) rest (· = true) := by
  intro s hs
  have hkind : s.peek.kind = kind := hs.peek_kind.trans h
  exact ⟨true, s.skip, by simp [eat, hkind], hs.skip, rfl⟩

/-- Another token is there. -/
theorem takes_eat_other (h : Word.firstKind words ≠ kind) :
    Takes (eat kind) words words (· = false) := by
  intro s hs
  have hkind : s.peek.kind ≠ kind := fun heq => h (hs.peek_kind.symm.trans heq)
  exact ⟨false, s, by simp [eat, hkind], hs, rfl⟩

/-- An expected token is taken. -/
theorem takes_expect (h : w.kind = kind) : Takes (expect kind) (w :: rest) rest fun _ => True := by
  intro s hs
  have hkind : s.peek.kind = kind := hs.peek_kind.trans h
  exact ⟨s.peek, s.skip, by simp [expect, hkind], hs.skip, trivial⟩

/-- Taking a number takes no word. -/
theorem takes_freshId : Takes freshId words words fun _ => True :=
  fun s hs => ⟨s.nextId, _, rfl, hs.freshId, trivial⟩

/-- A name is taken as it is written. -/
theorem takes_ident {name : String} :
    Takes ident (Word.name name :: rest) rest fun found => found.name = name := by
  intro s hs
  have hword := hs.peek_word
  have hkind : s.peek.kind = .identifier := congrArg Word.kind hword
  have hlexeme : s.peek.lexeme = name := congrArg Word.lexeme hword
  exact ⟨⟨s.peek.lexeme, s.peek.span⟩, s.skip, by simp [ident, hkind], hs.skip, hlexeme⟩

end

/-! ## Lists -/

/-- There are at least as many words as commas. -/
theorem Word.length_le_listed (lists : List (List Word)) :
    lists.length ≤ (Word.listed lists).length + 1 := by
  cases lists with
  | nil => simp
  | cons first rest =>
      have hrest : rest.length ≤ (rest.flatMap fun words => Word.mark .comma :: words).length := by
        induction rest with
        | nil => simp
        | cons words rest ih =>
            simp only [List.flatMap_cons, List.length_append, List.length_cons]
            omega
      simp only [Word.listed, List.length_append, List.length_cons]
      omega

section

variable {α β γ : Type} {p : Parser α} {wordsOf : β → List Word} {bare : α → γ} {bare' : β → γ}
  {rest : List Word}

/-- Values with commas in between.  Each of them is read in front of a comma, or of what stands
behind all of them. -/
theorem takes_separatedUpTo {fuel bound : Nat} {xs : List β} (hne : xs ≠ [])
    (hfuel : xs.length < fuel + 1) (hrest : Word.firstKind rest ≠ .mark .comma)
    (hbound : (Word.listed (xs.map wordsOf) ++ rest).length ≤ bound)
    (hp : ∀ x ∈ xs, ∀ behind, behind = rest ∨ Word.firstKind behind = .mark .comma →
      (wordsOf x ++ behind).length ≤ bound →
      Takes p (wordsOf x ++ behind) behind fun a => bare a = bare' x) :
    Takes (separatedUpTo p fuel) (Word.listed (xs.map wordsOf) ++ rest) rest
      fun as => as.map bare = xs.map bare' := by
  induction xs generalizing fuel with
  | nil => exact absurd rfl hne
  | cons x xs ih =>
      cases fuel with
      | zero => simp at hfuel
      | succ fuel =>
          cases xs with
          | nil =>
              have hwords : Word.listed ([x].map wordsOf) = wordsOf x := by simp [Word.listed]
              rw [hwords] at hbound ⊢
              refine (hp x (List.mem_cons_self ..) rest (.inl rfl) hbound).bind fun a ha =>
                (takes_eat_other hrest).bind ?_
              rintro _ rfl
              exact takes_pure (by simp [ha])
          | cons y ys =>
              have hwords : Word.listed ((x :: y :: ys).map wordsOf) ++ rest =
                  wordsOf x ++ (.mark .comma :: (Word.listed ((y :: ys).map wordsOf) ++ rest)) := by
                simp [Word.listed]
              rw [hwords] at hbound ⊢
              have hfirst := hp x (List.mem_cons_self ..) _ (.inr rfl) hbound
              have hothers := ih (by simp) (by simpa using hfuel : (y :: ys).length < fuel + 1)
                (by simp only [List.length_append, List.length_cons] at hbound ⊢; omega)
                fun z hz => hp z (List.mem_cons_of_mem _ hz)
              refine hfirst.bind fun a ha => (takes_eat rfl).bind ?_
              rintro _ rfl
              exact hothers.bind fun as has => takes_pure (by simp [ha, has])

/-- Every value has a word of its own. -/
theorem length_le_flatMap {xs : List β} (h : ∀ x ∈ xs, wordsOf x ≠ []) :
    xs.length ≤ (xs.flatMap wordsOf).length := by
  induction xs with
  | nil => simp
  | cons x xs ih =>
      have hone := List.length_pos_iff.2 (h x (List.mem_cons_self ..))
      have hothers := ih fun y hy => h y (List.mem_cons_of_mem _ hy)
      simp only [List.flatMap_cons, List.length_append, List.length_cons]
      omega

/-- Values up to a token that ends the list.  Each of them is read in front of the next one, or of
what stands behind all of them. -/
theorem takes_loop {loop : Nat → Parser (List α)} (stop : TokenKind → Bool)
    (Behind : List Word → Prop) {bound : Nat}
    (hend : ∀ fuel, stop (Word.firstKind rest) = true → Takes (loop (fuel + 1)) rest rest (· = []))
    (hround : ∀ fuel words mid as', stop (Word.firstKind words) = false → ∀ a',
      Takes p words mid (fun a => bare a = a') →
      Takes (loop fuel) mid rest (fun as => as.map bare = as') →
      Takes (loop (fuel + 1)) words rest fun as => as.map bare = a' :: as')
    {fuel : Nat} {xs : List β} (hfuel : xs.length < fuel)
    (hstop : stop (Word.firstKind rest) = true) (hbehind : Behind rest)
    (hstart : ∀ x ∈ xs, ∀ behind, stop (Word.firstKind (wordsOf x ++ behind)) = false ∧
      Behind (wordsOf x ++ behind))
    (hbound : (xs.flatMap wordsOf ++ rest).length ≤ bound)
    (hp : ∀ x ∈ xs, ∀ behind, Behind behind → (wordsOf x ++ behind).length ≤ bound →
      Takes p (wordsOf x ++ behind) behind fun a => bare a = bare' x) :
    Takes (loop fuel) (xs.flatMap wordsOf ++ rest) rest fun as => as.map bare = xs.map bare' := by
  induction xs generalizing fuel with
  | nil =>
      obtain ⟨fuel, rfl⟩ := Nat.exists_eq_succ_of_ne_zero (Nat.ne_zero_of_lt hfuel)
      exact (hend fuel hstop).mono fun as has => by simp [has]
  | cons x xs ih =>
      obtain ⟨fuel, rfl⟩ := Nat.exists_eq_succ_of_ne_zero (Nat.ne_zero_of_lt hfuel)
      rw [List.flatMap_cons, List.append_assoc] at hbound ⊢
      have hnext : Behind (xs.flatMap wordsOf ++ rest) := by
        cases xs with
        | nil => exact hbehind
        | cons y ys =>
            rw [List.flatMap_cons, List.append_assoc]
            exact (hstart y (by simp) _).2
      have hothers := ih (Nat.lt_of_succ_lt_succ hfuel)
        (fun y hy => hstart y (List.mem_cons_of_mem _ hy))
        (by simp only [List.length_append] at hbound ⊢; omega)
        fun y hy => hp y (List.mem_cons_of_mem _ hy)
      exact hround fuel _ _ _ (hstart x (List.mem_cons_self ..) _).1 _
        (hp x (List.mem_cons_self ..) _ hnext hbound) hothers

variable {stop : TokenKind → Bool} {xs : List β}

/-- There are at most as many values as words in front of the end. -/
theorem length_lt_of_starts (heof : stop .eof = true)
    (hstart : ∀ x ∈ xs, ∀ behind, stop (Word.firstKind (wordsOf x ++ behind)) = false) {fuel : Nat}
    (hfuel : (xs.flatMap wordsOf ++ rest).length < fuel) : xs.length < fuel := by
  have hle : xs.length ≤ (xs.flatMap wordsOf).length := by
    refine length_le_flatMap fun x hx hempty => ?_
    have hgoes := hstart x hx []
    rw [hempty, List.append_nil, Word.firstKind, heof] at hgoes
    cases hgoes
  rw [List.length_append] at hfuel
  omega

/-- Values up to a token that ends the list. -/
theorem takes_many (heof : stop .eof = true) (hstop : stop (Word.firstKind rest) = true)
    (hstart : ∀ x ∈ xs, ∀ behind, stop (Word.firstKind (wordsOf x ++ behind)) = false)
    (hp : ∀ x ∈ xs, ∀ behind, Takes p (wordsOf x ++ behind) behind fun a => bare a = bare' x) :
    Takes (many stop p) (xs.flatMap wordsOf ++ rest) rest
      fun as => as.map bare = xs.map bare' := by
  refine takes_bounded fun fuel hfuel => takes_loop stop (fun _ => True)
    (fun fuel hends => ?_) (fun fuel words mid as' hgoes a' hfirst hothers => ?_)
    (length_lt_of_starts heof hstart hfuel) hstop trivial
    (fun x hx behind => ⟨hstart x hx behind, trivial⟩) (Nat.le_refl _)
    fun x hx behind _ _ => hp x hx behind
  · refine takes_peek.bind fun token htoken => ?_
    rw [htoken, if_pos hends]
    exact takes_pure rfl
  · refine takes_peek.bind fun token htoken => ?_
    rw [htoken, if_neg (by rw [hgoes]; exact Bool.false_ne_true)]
    exact hfirst.bind fun a ha => hothers.bind fun as has => takes_pure (by simp [ha, has])

/-- Values up to a token that ends the list; none of them has to be left out. -/
theorem takes_recovering {skip : Parser Unit} (Behind : List Word → Prop) (heof : stop .eof = true)
    (hstop : stop (Word.firstKind rest) = true) (hbehind : Behind rest)
    (hstart : ∀ x ∈ xs, ∀ behind, stop (Word.firstKind (wordsOf x ++ behind)) = false ∧
      Behind (wordsOf x ++ behind))
    (hp : ∀ x ∈ xs, ∀ behind, Behind behind →
      (wordsOf x ++ behind).length ≤ (xs.flatMap wordsOf ++ rest).length →
      Takes p (wordsOf x ++ behind) behind fun a => bare a = bare' x) :
    Takes (recovering stop p skip) (xs.flatMap wordsOf ++ rest) rest
      fun as => as.map bare = xs.map bare' := by
  refine takes_bounded fun fuel hfuel => takes_loop stop Behind
    (fun fuel hends => ?_) (fun fuel words mid as' hgoes a' hfirst hothers => ?_)
    (length_lt_of_starts heof (fun x hx behind => (hstart x hx behind).1) hfuel) hstop hbehind
    hstart (Nat.le_refl _) hp
  · refine takes_peek.bind fun token htoken => ?_
    rw [htoken, if_pos hends]
    exact takes_pure rfl
  · have hattempt : Takes (attempt p skip) words mid
        fun found => ∃ a, found = some a ∧ bare a = a' := by
      intro s hs
      obtain ⟨a, s', heq, hs', ha⟩ := hfirst s hs
      exact ⟨some a, s', by simp [attempt, heq], hs', a, rfl, ha⟩
    refine takes_peek.bind fun token htoken => ?_
    rw [htoken, if_neg (by rw [hgoes]; exact Bool.false_ne_true)]
    refine hattempt.bind ?_
    rintro _ ⟨a, rfl, ha⟩
    exact hothers.bind fun as has => takes_pure (by simp [ha, has])

end

end Parser

end ClassLang
