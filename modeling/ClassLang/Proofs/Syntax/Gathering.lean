import ClassLang.Proofs.Syntax.Grammar
import ClassLang.Proofs.Syntax.Offset

/-!
# Words that are gathered

What a parser reads where it gives a value and no error is noted.  `Parser.Reads P p Q` is a triple
about the words read so far and the next token.  The words of a rule of the grammar are gathered
from left to right, in the order in which the rule is written: `Gathered before e` says that the
words behind `before` derive from `e`, and each step on tokens and each loop has a lemma about what
it adds to `e`.
-/

namespace ClassLang

open Grammar

namespace ParserState

/-- The words still to be read. -/
def words (s : ParserState) : List Word := s.tokens.map Token.word

/-- Where the tokens go on, the first word is the one of the next token. -/
theorem words_eq_cons {s : ParserState} (heof : s.eof.kind = .eof) (h : s.peek.kind ≠ .eof) :
    s.words = s.peek.word :: s.skip.words := by
  unfold words peek skip at *
  cases htokens : s.tokens with
  | nil => simp [htokens, heof] at h
  | cons token rest => simp

end ParserState

namespace Parser

/-- In front of a parser `P` holds of the words read so far and of the next token; where it gives
a value and no error was noted, `Q` holds behind it. -/
structure Reads {α : Type} (P : List Word → Token → Prop) (p : Parser α)
    (Q : α → List Word → Token → Prop) : Prop where
  clean : ∀ {s s' : ParserState} {a : α}, p s = .ok a s' → s'.errors = [] → s.errors = []
  reads : ∀ {s s' : ParserState} {a : α} {front : List Word}, p s = .ok a s' → s'.errors = [] →
    s.eof.kind = .eof → P front s.peek →
    s'.eof = s.eof ∧ ∃ words, s.words = words ++ s'.words ∧ Q a (front ++ words) s'.peek

section

variable {α β : Type} {P P' : List Word → Token → Prop} {p : Parser α}
  {Q Q' : α → List Word → Token → Prop} {R : β → List Word → Token → Prop}

/-- A triple may ask for more in front and promise less behind. -/
theorem Reads.consequence (h : Reads P p Q) (hpre : ∀ front next, P' front next → P front next)
    (hpost : ∀ a front next, Q a front next → Q' a front next) : Reads P' p Q' where
  clean := h.clean
  reads := by
    intro s s' a front hp herrors heof hP
    obtain ⟨heof', words, hwords, hQ⟩ := h.reads hp herrors heof (hpre _ _ hP)
    exact ⟨heof', words, hwords, hpost _ _ _ hQ⟩

/-- A triple may ask for more in front. -/
theorem Reads.pre (h : Reads P p Q) (hpre : ∀ front next, P' front next → P front next) :
    Reads P' p Q :=
  h.consequence hpre fun _ _ _ => id

/-- A triple may promise less behind. -/
theorem Reads.post (h : Reads P p Q) (hpost : ∀ a front next, Q a front next → Q' a front next) :
    Reads P p Q' :=
  h.consequence (fun _ _ => id) hpost

/-- A parser that reads no token. -/
theorem reads_of_stays (h : ∀ s : ParserState, ∃ a s', p s = .ok a s' ∧ s'.tokens = s.tokens ∧
    s'.eof = s.eof ∧ s'.errors = s.errors ∧ ∀ front, P front s.peek → Q a front s.peek) :
    Reads P p Q where
  clean := by
    intro s s' a hp herrors
    obtain ⟨_, _, heq, -, -, hsame, -⟩ := h s
    cases hp.symm.trans heq
    exact hsame.symm.trans herrors
  reads := by
    intro s s' a front hp _ _ hP
    obtain ⟨_, _, heq, htokens, heof, -, hQ⟩ := h s
    cases hp.symm.trans heq
    have hpeek : s'.peek = s.peek := by rw [ParserState.peek, ParserState.peek, htokens, heof]
    refine ⟨heof, [], by simp [ParserState.words, htokens], ?_⟩
    rw [List.append_nil, hpeek]
    exact hQ front hP

/-- A parser that gives no value. -/
theorem reads_of_fails (h : ∀ s : ParserState, ∃ error s', p s = .fail error s') :
    Reads P p Q where
  clean := by
    intro s s' a hp
    obtain ⟨error, rest, heq⟩ := h s
    cases hp.symm.trans heq
  reads := by
    intro s s' a front hp
    obtain ⟨error, rest, heq⟩ := h s
    cases hp.symm.trans heq

/-- A value alone reads nothing. -/
theorem reads_pure {a : α} (h : ∀ front next, P front next → Q a front next) :
    Reads P (pure a) Q :=
  reads_of_stays fun s => ⟨a, s, rfl, rfl, rfl, rfl, fun front => h front _⟩

/-- A failure promises anything. -/
theorem reads_fail (error : SyntaxError) : Reads P (fail error : Parser α) Q :=
  reads_of_fails fun s => ⟨error, s, rfl⟩

/-- A parser without rounds left promises anything. -/
theorem reads_exhausted : Reads P (exhausted : Parser α) Q :=
  reads_of_fails fun s => ⟨_, s, rfl⟩

/-- Triples are composed one behind the other. -/
theorem Reads.bind {f : α → Parser β} (hp : Reads P p Q) (hf : ∀ a, Reads (Q a) (f a) R) :
    Reads P (p >>= f) R where
  clean := by
    intro s s' b h herrors
    obtain ⟨a, mid, hpok, hfok⟩ := bind_ok h
    exact hp.clean hpok ((hf a).clean hfok herrors)
  reads := by
    intro s s' b front h herrors heof hP
    obtain ⟨a, mid, hpok, hfok⟩ := bind_ok h
    obtain ⟨heof₁, u, hu, hQ⟩ := hp.reads hpok ((hf a).clean hfok herrors) heof hP
    obtain ⟨heof₂, v, hv, hR⟩ := (hf a).reads hfok herrors (heof₁ ▸ heof) hQ
    refine ⟨heof₂.trans heof₁, u ++ v, by rw [hu, hv, List.append_assoc], ?_⟩
    rwa [← List.append_assoc]

/-- A triple of a value that is mapped. -/
theorem Reads.map {g : α → β} (hp : Reads P p fun a => R (g a)) : Reads P (g <$> p) R :=
  hp.bind fun _ => reads_pure fun _ _ => id

/-- A triple that holds for every number of rounds. -/
theorem reads_bounded {p : Nat → Parser α} (h : ∀ fuel, Reads P (p fuel) Q) :
    Reads P (bounded p) Q :=
  ⟨fun {s} => (h (s.tokens.length + 1)).clean, fun {s} => (h (s.tokens.length + 1)).reads⟩

end

/-! ## Single tokens -/

section

variable {P : List Word → Token → Prop} {kind : TokenKind}

/-- Looking at the next token reads nothing. -/
theorem reads_peek : Reads P peek fun token front next => token = next ∧ P front next :=
  reads_of_stays fun s => ⟨s.peek, s, rfl, rfl, rfl, rfl, fun _ hP => ⟨rfl, hP⟩⟩

/-- Comparing the next token reads nothing. -/
theorem reads_check : Reads P (check kind) fun found front next =>
    found = (next.kind == kind) ∧ P front next :=
  reads_of_stays fun s => ⟨_, s, rfl, rfl, rfl, rfl, fun _ hP => ⟨rfl, hP⟩⟩

/-- Taking a number reads nothing. -/
theorem reads_freshId : Reads P freshId fun _ => P :=
  reads_of_stays fun s => ⟨s.nextId, _, rfl, rfl, rfl, rfl, fun _ => id⟩

/-- What is known behind a token that was read. -/
def Behind (P : List Word → Token → Prop) (token : Token) (front : List Word) (_ : Token) : Prop :=
  ∃ before, P before token ∧ front = before ++ [token.word]

/-- Advancing puts the next token behind. -/
theorem reads_advance (h : ∀ front next, P front next → next.kind ≠ .eof) :
    Reads P advance (Behind P) where
  clean := by
    intro s s' a hp herrors
    cases hp
    exact herrors
  reads := by
    intro s s' a front hp _ heof hP
    cases hp
    exact ⟨rfl, [s.peek.word], ParserState.words_eq_cons heof (h _ _ hP), front, hP, rfl⟩

/-- Eating takes the next token where it is of the kind asked for. -/
theorem eat_eq (kind : TokenKind) (s : ParserState) :
    eat kind s = if s.peek.kind = kind then .ok true s.skip else .ok false s := rfl

/-- Eating puts a token of the kind behind, or the next token is of another kind. -/
theorem reads_eat (kind : TokenKind) (hkind : kind ≠ .eof) :
    Reads P (eat kind) fun eaten front next =>
      if eaten then ∃ token, token.kind = kind ∧ Behind P token front next
      else next.kind ≠ kind ∧ P front next where
  clean := by
    intro s s' a hp herrors
    rw [eat_eq] at hp
    split at hp <;> cases hp <;> exact herrors
  reads := by
    intro s s' a front hp _ heof hP
    rw [eat_eq] at hp
    split at hp
    · next h =>
        cases hp
        exact ⟨rfl, [s.peek.word], ParserState.words_eq_cons heof (h ▸ hkind), s.peek, h, front, hP,
          rfl⟩
    · next h =>
        cases hp
        refine ⟨rfl, [], rfl, ?_⟩
        rw [List.append_nil]
        exact ⟨h, hP⟩

/-- An expected token is put behind. -/
theorem reads_expect (kind : TokenKind) (hkind : kind ≠ .eof) :
    Reads P (expect kind) fun token front next =>
    token.kind = kind ∧ Behind P token front next where
  clean := by
    intro s s' a hp herrors
    unfold expect at hp
    simp only at hp
    split at hp
    · cases hp
      exact herrors
    · split at hp <;> cases hp
  reads := by
    intro s s' a front hp _ heof hP
    unfold expect at hp
    simp only at hp
    split at hp
    · next h =>
        cases hp
        exact ⟨rfl, [s.peek.word], ParserState.words_eq_cons heof (h ▸ hkind), h, front, hP, rfl⟩
    · split at hp <;> cases hp

/-- A name is put behind. -/
theorem reads_ident : Reads P ident fun _ front next =>
    ∃ token, token.kind = .identifier ∧ Behind P token front next where
  clean := by
    intro s s' a hp herrors
    unfold ident at hp
    simp only at hp
    split at hp <;> cases hp
    exact herrors
  reads := by
    intro s s' a front hp _ heof hP
    unfold ident at hp
    simp only at hp
    split at hp
    · next h =>
        cases hp
        exact ⟨rfl, [s.peek.word], ParserState.words_eq_cons heof (by rw [h]; nofun), s.peek, h,
          front, hP, rfl⟩
    · cases hp
    · cases hp

end

/-! ## Rules of the grammar -/

/-- Behind the words `before` there are words that derive from a part of the grammar. -/
def Gathered (before : List Word) (e : Ebnf) (front : List Word) (_ : Token) : Prop :=
  ∃ words, front = before ++ words ∧ Derives looseRule e words

/-- Nothing was read behind the words `before`. -/
def Nothing (before front : List Word) (_ : Token) : Prop := front = before

/-- Where a parser gives a value, the words that it has read derive from a part of the grammar. -/
def Yields {α : Type} (p : Parser α) (e : Ebnf) : Prop :=
  ∀ before, Reads (Nothing before) p fun _ => Gathered before e

section

variable {α : Type} {before front : List Word} {a b c : Ebnf} {next next' : Token}

/-- What has been gathered may be read by a wider expression. -/
theorem Gathered.mono (h : Gathered before a front next)
    (himp : ∀ words, Derives looseRule a words → Derives looseRule b words) :
    Gathered before b front next := by
  obtain ⟨words, hfront, hwords⟩ := h
  exact ⟨words, hfront, himp words hwords⟩

/-- A rule was gathered. -/
theorem Gathered.rule {n : Nonterminal} (h : Gathered before (looseRule n) front next) :
    Gathered before (.nonterminal n) front next :=
  h.mono fun _ hwords => .nonterminal hwords

/-- The part that was gathered behind another one is taken as a group. -/
theorem Gathered.group (h : Gathered before (a ++ b ++ c) front next) :
    Gathered before (a ++ (b ++ c)) front next := by
  refine h.mono fun words hwords => ?_
  obtain _ | _ | ⟨hab, hc⟩ := hwords
  obtain _ | _ | ⟨ha, hb⟩ := hab
  rw [List.append_assoc]
  exact ha.append (hb.append hc)

/-- What may be missing is there. -/
theorem Gathered.present (h : Gathered before (a ++ b) front next) :
    Gathered before (a ++ .option b) front next := by
  refine h.mono fun words hwords => ?_
  obtain _ | _ | ⟨ha, hb⟩ := hwords
  exact ha.append hb.present

/-- What may be missing is not there. -/
theorem Gathered.absent (h : Gathered before a front next) :
    Gathered before (a ++ .option b) front next := by
  refine h.mono fun words hwords => ?_
  rw [← List.append_nil words]
  exact hwords.append .absent

/-- What may be repeated has not come yet. -/
theorem Gathered.start (h : Gathered before a front next) :
    Gathered before (a ++ .many b) front next := by
  refine h.mono fun words hwords => ?_
  rw [← List.append_nil words]
  exact hwords.append .done

/-- What may be repeated has come once more. -/
theorem Gathered.again (h : Gathered before (a ++ .many b ++ b) front next) :
    Gathered before (a ++ .many b) front next := by
  refine h.mono fun words hwords => ?_
  obtain _ | _ | ⟨hab, hb⟩ := hwords
  obtain _ | _ | ⟨ha, hmany⟩ := hab
  rw [List.append_assoc]
  exact ha.append (hmany.snoc hb)

/-- One more value with a comma in front of it. -/
theorem Gathered.another (h : Gathered before (a ++ listed b ++ mark .comma ++ b) front next) :
    Gathered before (a ++ listed b) front next := by
  refine h.mono fun words hwords => ?_
  obtain _ | _ | ⟨habc, hlast⟩ := hwords
  obtain _ | _ | ⟨hab, hcomma⟩ := habc
  obtain _ | _ | ⟨ha, hlisted⟩ := hab
  obtain _ | _ | ⟨hfirst, hmany⟩ := hlisted
  have hlonger := ha.append (hfirst.append (hmany.snoc (hcomma.append hlast)))
  simp only [List.append_assoc] at hlonger ⊢
  exact hlonger

/-- More words behind those that were gathered. -/
theorem Gathered.append {words : List Word} (h : Gathered before a front next)
    (hb : Derives looseRule b words) : Gathered before (a ++ b) (front ++ words) next' := by
  obtain ⟨words', rfl, hwords⟩ := h
  exact ⟨words' ++ words, by rw [List.append_assoc], hwords.append hb⟩

/-- A token behind the words that were gathered. -/
theorem Gathered.behind {token : Token} (h : Behind (Gathered before a) token front next)
    (hb : Derives looseRule b [token.word]) : Gathered before (a ++ b) front next := by
  obtain ⟨front', hfront', rfl⟩ := h
  exact hfront'.append hb

/-- The first token. -/
theorem Gathered.first {token : Token} (h : Behind (Nothing before) token front next)
    (hb : Derives looseRule b [token.word]) : Gathered before b front next := by
  obtain ⟨front', rfl, rfl⟩ := h
  exact ⟨[token.word], rfl, hb⟩

/-- The reading of a part, behind some words. -/
theorem Reads.after {p : Parser α} {P : List Word → Token → Prop}
    {R : α → List Word → Token → Prop}
    (h : ∀ before, Reads (Nothing before) p fun a front next =>
      ∃ words, front = before ++ words ∧ R a words next) :
    Reads P p fun a front next => ∃ before first words, P before first ∧
      front = before ++ words ∧ R a words next where
  clean := (h []).clean
  reads := by
    intro s s' a front hp herrors heof hP
    obtain ⟨heof', words, hwords, words', hfront, hR⟩ :=
      (h front).reads hp herrors heof rfl
    exact ⟨heof', words, hwords, front, s.peek, words', hP, hfront, hR⟩

/-- A part behind the words that were gathered. -/
theorem Yields.gathers {p : Parser α} (h : Yields p b) :
    Reads (Gathered before a) p fun _ => Gathered before (a ++ b) := by
  refine (Reads.after (R := fun _ words _ => Derives looseRule b words) h).post ?_
  rintro _ _ next ⟨front, first, words, hfront, rfl, hwords⟩
  exact hfront.append hwords

/-- What a parser yields may be read by a wider expression. -/
theorem Yields.mono {p : Parser α} (h : Yields p a)
    (himp : ∀ words, Derives looseRule a words → Derives looseRule b words) : Yields p b :=
  fun before => (h before).post fun _ _ _ hgathered => hgathered.mono himp

/-- What is yielded does not depend on the value. -/
theorem Yields.map {β : Type} {p : Parser α} {g : α → β} (h : Yields p a) : Yields (g <$> p) a :=
  fun before => Reads.map (R := fun _ => Gathered before a) (h before)

/-- A parser without rounds left yields anything. -/
theorem yields_exhausted : Yields (exhausted : Parser α) a := fun _ => reads_exhausted

/-- What is yielded for every number of rounds. -/
theorem yields_bounded {p : Nat → Parser α} (h : ∀ fuel, Yields (p fuel) a) :
    Yields (bounded p) a :=
  fun before => reads_bounded fun fuel => h fuel before

/-- An expected mark is gathered. -/
theorem gathers_expect {m : Mark} : Reads (Gathered before a) (expect (.mark m))
    fun _ => Gathered before (a ++ mark m) :=
  (reads_expect _ (by nofun)).post fun _ _ _ h => .behind h.2 (.mark h.1)

/-- An expected token is a word of its kind. -/
theorem yields_expect {kind : TokenKind} (h : kind ≠ .eof) :
    Yields (expect kind) (.terminal (.word kind)) :=
  fun _ => (reads_expect _ h).post fun _ _ _ h => .first h.2 (.terminal h.1)

/-- A token that may be there. -/
theorem Reads.eat {β : Type} {m : TokenKind} {f : Bool → Parser β}
    {R : β → List Word → Token → Prop} (hm : m ≠ .eof)
    (hthere : Reads (Gathered before (a ++ .terminal (.word m))) (f true) R)
    (hmissing : Reads (Gathered before a) (f false) R) :
    Reads (Gathered before a) (eat m >>= f) R := by
  refine (reads_eat m hm).bind fun eaten => ?_
  cases eaten with
  | true =>
      refine hthere.pre ?_
      intro front next ⟨token, hkind, hbehind⟩
      exact .behind hbehind (.terminal hkind)
  | false => exact hmissing.pre fun _ _ => And.right

/-- A token that is looked at. -/
theorem Reads.check {β : Type} {kind : TokenKind} {f : Bool → Parser β}
    {P : List Word → Token → Prop} {R : β → List Word → Token → Prop}
    (h : ∀ found, Reads P (f found) R) : Reads P (check kind >>= f) R :=
  (reads_check.post fun _ _ _ => And.right).bind h

/-- A name that is read is gathered. -/
theorem gathers_ident : Reads (Gathered before a) ident fun _ => Gathered before (a ++ name) :=
  reads_ident.post fun _ _ _ ⟨_, hkind, h⟩ => .behind h (.name hkind)

/-- A value that is looked at only. -/
theorem reads_pure_gathered {x : α} :
    Reads (Gathered before a) (pure x) fun _ => Gathered before a :=
  reads_pure fun _ _ => id

end

/-! ## Lists -/

section

variable {α : Type} {p : Parser α} {before : List Word} {a b : Ebnf}

/-- One or more values with commas in between.  What is gathered in front of the first of them is
said by what is gathered behind it. -/
theorem gathers_separatedUpTo (h : Yields p b) (fuel : Nat) {P : List Word → Token → Prop}
    (hfirst : Reads P p fun _ => Gathered before (a ++ .many (mark .comma ++ b))) :
    Reads P (separatedUpTo p fuel) fun _ => Gathered before (a ++ .many (mark .comma ++ b)) := by
  induction fuel generalizing P with
  | zero => exact reads_exhausted
  | succ fuel ih =>
      refine hfirst.bind fun first => Reads.eat nofun ?_ reads_pure_gathered
      have hnext : Reads (Gathered before (a ++ .many (mark .comma ++ b) ++ mark .comma)) p
          fun _ => Gathered before (a ++ .many (mark .comma ++ b)) :=
        h.gathers.post fun _ _ next hgathered => hgathered.group.again
      exact (ih hnext).bind fun rest => reads_pure_gathered

/-- A separated list yields the listed words of its parts. -/
theorem yields_separated (h : Yields p b) : Yields (separated p) (listed b) := by
  intro before
  refine reads_bounded fun fuel => gathers_separatedUpTo h fuel ?_
  exact (h before).post fun _ _ _ hgathered => hgathered.start

/-- Values up to a token that ends the list. -/
theorem gathers_manyUpTo (stop : TokenKind → Bool) (h : Yields p b) (fuel : Nat) :
    Reads (Gathered before (a ++ .many b)) (manyUpTo stop p fuel)
      fun _ => Gathered before (a ++ .many b) := by
  induction fuel with
  | zero => exact reads_exhausted
  | succ fuel ih =>
      refine reads_peek.bind fun token => Reads.pre (P := Gathered before (a ++ .many b)) ?_ ?_
      · split
        · exact reads_pure_gathered
        · refine h.gathers.bind fun first => ?_
          refine (ih.pre fun _ _ hgathered => hgathered.again).bind fun rest => ?_
          exact reads_pure_gathered
      · exact fun _ _ => And.right

/-- A repetition gathers its parts. -/
theorem gathers_many (stop : TokenKind → Bool) (h : Yields p b) :
    Reads (Gathered before a) (many stop p) fun _ => Gathered before (a ++ .many b) :=
  (reads_bounded fun fuel => gathers_manyUpTo stop h fuel).pre fun _ _ hgathered => hgathered.start

/-- Where a value had to be left out, an error was noted. -/
theorem reads_attempt {skip : Parser Unit} {P : List Word → Token → Prop}
    {Q : α → List Word → Token → Prop} (h : Reads P p Q)
    (hskip : ∀ s, ∃ tokens, skip s = .ok () { s with tokens }) :
    Reads P (attempt p skip) fun found front next => ∃ a, found = some a ∧ Q a front next := by
  have hcases : ∀ {s s' : ParserState} {found : Option α}, attempt p skip s = .ok found s' →
      s'.errors = [] → ∃ a, found = some a ∧ p s = .ok a s' := by
    intro s s' found hok herrors
    unfold attempt at hok
    cases hp : p s with
    | ok a rest =>
        rw [hp] at hok
        cases hok
        exact ⟨a, rfl, rfl⟩
    | fail error rest =>
        obtain ⟨tokens, hskipped⟩ := hskip { rest with errors := rest.errors ++ [error] }
        have hreport : (report error >>= fun _ => skip) rest =
            skip { rest with errors := rest.errors ++ [error] } := rfl
        simp only [hp, hreport, hskipped, Parsed.ok.injEq] at hok
        obtain ⟨-, rfl⟩ := hok
        simp at herrors
  constructor
  · intro s s' found hok herrors
    obtain ⟨a, -, hp⟩ := hcases hok herrors
    exact h.clean hp herrors
  · intro s s' found front hok herrors heof hP
    obtain ⟨a, rfl, hp⟩ := hcases hok herrors
    obtain ⟨heof', words, hwords, hQ⟩ := h.reads hp herrors heof hP
    exact ⟨heof', words, hwords, a, rfl, hQ⟩

/-- What one more value keeps holds of all of them, and the end is reached. -/
theorem reads_recovering (stop : TokenKind → Bool) {skip : Parser Unit}
    {I : List α → List Word → Token → Prop} (h : ∀ done, Reads (I done) p fun a => I (done ++ [a]))
    (hskip : ∀ s, ∃ tokens, skip s = .ok () { s with tokens }) :
    Reads (I []) (recovering stop p skip) fun values front next =>
      stop next.kind = true ∧ I values front next := by
  refine reads_bounded fun fuel => ?_
  suffices hrounds : ∀ done, Reads (I done) (recoveringUpTo stop p skip fuel)
      fun values front next => stop next.kind = true ∧ I (done ++ values) front next from hrounds []
  induction fuel with
  | zero => exact fun _ => reads_exhausted
  | succ fuel ih =>
      refine fun done => reads_peek.bind fun token => ?_
      split
      · next hstop =>
          refine reads_pure fun front next ⟨htoken, hI⟩ => ?_
          exact ⟨htoken ▸ hstop, by rwa [List.append_nil]⟩
      · refine ((reads_attempt (h done) hskip).pre fun _ _ => And.right).bind fun found => ?_
        refine ((ih (done ++ found.toList)).pre ?_).bind fun rest => reads_pure ?_
        · rintro front next ⟨first, rfl, hI⟩
          exact hI
        · intro front next hI
          rwa [← List.append_assoc]

/-- A repetition that recovers gathers its parts, where no error is noted. -/
theorem gathers_recovering (stop : TokenKind → Bool) {skip : Parser Unit} (h : Yields p b)
    (hskip : ∀ s, ∃ tokens, skip s = .ok () { s with tokens }) :
    Reads (Gathered before a) (recovering stop p skip)
      fun _ => Gathered before (a ++ .many b) := by
  have hround : Reads (Gathered before (a ++ .many b)) p fun _ => Gathered before (a ++ .many b) :=
    h.gathers.post fun _ _ _ hgathered => hgathered.again
  exact (reads_recovering stop (fun _ => hround) hskip).consequence
    (fun _ _ hgathered => hgathered.start) fun _ _ _ => And.right

/-- Skipping a statement changes only the tokens. -/
theorem skips_statement (s : ParserState) : ∃ tokens, skipStatement s = .ok () { s with tokens } :=
  ⟨_, rfl⟩

/-- Skipping an item changes only the tokens. -/
theorem skips_item (s : ParserState) : ∃ tokens, skipItem s = .ok () { s with tokens } :=
  ⟨_, rfl⟩

end

end Parser

end ClassLang
