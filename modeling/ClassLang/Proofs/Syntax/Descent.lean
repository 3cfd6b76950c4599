import ClassLang.Proofs.Syntax.Offset

/-!
# Recursions that go down

A loop or a recursion of the parser is given by a body, which takes the parser for its calls as an
argument.  It comes to an end if every call is made with fewer tokens ahead than there were:
then the body does the same whatever calls would do that do not (`Parser.Ends`), and there is only
one parser that solves the recursion (`Parser.Ends.solution_iff`).

Bodies with that property are those that agree on more tokens than their calls do
(`Parser.Descends`).  The rules below find it along a body: a token that is read makes one
token less (`Parser.Agree.behind`).  A parser that counts its rounds, or its depth, and starts
with a count above the number of tokens then never runs out of it (`Parser.Descends.ends`).
-/

namespace ClassLang

/-- Tokens that end do so behind one of them. -/
theorem ParserState.Ended.skip {s : ParserState} (h : s.Ended) : s.skip.Ended :=
  h.suffix rfl (List.tail_suffix _)

/-- One token less is ahead behind a token. -/
theorem ParserState.Ended.length_skip {s : ParserState} (h : s.Ended) (hpeek : s.peek.kind ≠ .eof) :
    s.skip.tokens.length < s.tokens.length := by
  unfold ParserState.peek at hpeek
  cases htokens : s.tokens with
  | nil =>
      rw [htokens] at hpeek
      exact absurd h.eof hpeek
  | cons token rest => simp [ParserState.skip, htokens]

namespace Parser

/-! ## Agreement -/

section

variable {α β : Type} {k : Nat} {now : Prop} {s : ParserState} {p q : Parser α}

/-- From a state two parsers do the same.  They leave no more tokens than there were, and fewer
if they give a value and `now` holds. -/
structure AgreeFrom (now : Prop) (s : ParserState) (p q : Parser α) : Prop where
  same : p s = q s
  ended : (q s).rest.Ended
  shrinks : (q s).rest.tokens.length ≤ s.tokens.length
  takes : now → ∀ {a : α} {s' : ParserState}, q s = .ok a s' → s'.tokens.length < s.tokens.length

/-- In the state the parsers are other ones. -/
theorem AgreeFrom.congr {p' q' : Parser α} (h : AgreeFrom now s p q) (hp : p' s = p s)
    (hq : q' s = q s) : AgreeFrom now s p' q' where
  same := hp.trans (h.same.trans hq.symm)
  ended := hq ▸ h.ended
  shrinks := hq ▸ h.shrinks
  takes := hq ▸ h.takes

/-- The same from every state with fewer than `k` tokens ahead. -/
def Agree (k : Nat) (now : Prop) (p q : Parser α) : Prop :=
  ∀ s : ParserState, s.Ended → s.tokens.length < k → AgreeFrom now s p q

/-- Agreement may be stated of fewer tokens, and of less that is taken. -/
theorem Agree.mono {k' : Nat} {now' : Prop} (h : Agree k now p q) (hk : k' ≤ k)
    (hnow : now' → now) : Agree k' now' p q := by
  intro s hended hs
  have hfrom := h s hended (Nat.lt_of_lt_of_le hs hk)
  exact ⟨hfrom.same, hfrom.ended, hfrom.shrinks, fun h' => hfrom.takes (hnow h')⟩

/-- Agreement may be stated without what is taken. -/
theorem Agree.weaken (h : Agree k now p q) : Agree k False p q := h.mono (Nat.le_refl _) False.elim

/-- A parser that runs on tokens as described agrees with itself. -/
theorem agreeFrom_of_runsAt {A : TokenKind → Prop} {move : α → α}
    (h : RunsAt 0 [] A now s.peek move p p) (hA : ¬ A .eof) (hended : s.Ended) :
    AgreeFrom now s p p := by
  obtain ⟨read, htokens, -, heof⟩ := h.reads hended rfl
  have hsuffix : (p s).rest.tokens <:+ s.tokens := ⟨read, htokens.symm⟩
  exact ⟨rfl, hended.suffix heof hsuffix, hsuffix.length_le, fun hnow {_ _} =>
    h.advances hnow hA hended rfl⟩

/-- A parser that makes no calls agrees with itself. -/
theorem agree_of_runs {A : TokenKind → Prop} {move : α → α}
    (h : Runs 0 [] A now move p p) (hA : ¬ A .eof) : Agree k now p p :=
  fun s hended _ => agreeFrom_of_runsAt (h s.peek) hA hended

/-- A parser leaves no more tokens than there were. -/
def Shrinks (p : Parser α) : Prop :=
  ∀ s : ParserState, s.Ended → (p s).rest.Ended ∧ (p s).rest.tokens.length ≤ s.tokens.length

/-- A parser that leaves no more tokens agrees with itself. -/
theorem Shrinks.agree (h : Shrinks p) : Agree k False p p :=
  fun s hended _ => ⟨rfl, (h s hended).1, (h s hended).2, False.elim⟩

/-- A value alone leaves the tokens as they are. -/
theorem agreeFrom_pure (hended : s.Ended) (a : α) : AgreeFrom False s (pure a) (pure a) :=
  ⟨rfl, hended, Nat.le_refl _, False.elim⟩

/-- A failure leaves the tokens as they are. -/
theorem agreeFrom_fail (hended : s.Ended) (error : SyntaxError) :
    AgreeFrom now s (fail error : Parser α) (fail error) :=
  ⟨rfl, hended, Nat.le_refl _, nofun⟩

/-- A value alone agrees with itself. -/
theorem agree_pure (a : α) : Agree k False (pure a : Parser α) (pure a) :=
  fun _ hended _ => agreeFrom_pure hended a

/-- A parser without rounds left agrees with itself. -/
theorem agree_exhausted : Agree k now (exhausted : Parser α) exhausted :=
  fun s hended _ => (agreeFrom_fail hended (.unexpectedEof s.eof.span)).congr rfl rfl

variable {f g : α → Parser β}

/-- Agreement from a state is composed step by step. -/
theorem AgreeFrom.bind (hp : AgreeFrom now s p q)
    (hf : ∀ a s', q s = .ok a s' → AgreeFrom False s' (f a) (g a)) :
    AgreeFrom now s (p >>= f) (q >>= g) := by
  obtain ⟨hsame, hended, hshrinks, htakes⟩ := hp
  cases hend : q s with
  | fail error mid =>
      rw [hend] at hsame hended hshrinks
      have hfail : (q >>= g) s = .fail error mid := bind_of_fail hend
      refine ⟨(bind_of_fail hsame).trans hfail.symm, ?_, ?_, fun _ {_ _} hok => ?_⟩
      · rwa [hfail]
      · rwa [hfail]
      · cases hfail.symm.trans hok
  | ok a mid =>
      rw [hend] at hsame hshrinks
      obtain ⟨hsame', hended', hshrinks', -⟩ := hf a mid hend
      have hok : (q >>= g) s = g a mid := bind_of_ok hend
      refine ⟨(bind_of_ok hsame).trans (hsame'.trans hok.symm), ?_, ?_,
        fun hnow {b last} hlast => ?_⟩
      · rwa [hok]
      · rw [hok]
        exact Nat.le_trans hshrinks' hshrinks
      · rw [hok] at hlast
        rw [hlast] at hshrinks'
        exact Nat.lt_of_le_of_lt hshrinks' (htakes hnow hend)

/-- Agreement from a state goes on where the rest agrees from every state. -/
theorem AgreeFrom.next (hp : AgreeFrom now s p q) (hs : s.tokens.length < k)
    (hf : ∀ a, Agree k False (f a) (g a)) : AgreeFrom now s (p >>= f) (q >>= g) := by
  refine hp.bind fun a s' hok => hf a s' ?_ ?_
  · have hended := hp.ended
    rwa [hok] at hended
  · have hshrinks := hp.shrinks
    rw [hok] at hshrinks
    exact Nat.lt_of_le_of_lt hshrinks hs

/-- Behind a value that takes a token, agreement is needed for one token less. -/
theorem AgreeFrom.behind (hp : AgreeFrom True s p q) (hs : s.tokens.length < k + 1)
    (hf : ∀ a, Agree k False (f a) (g a)) : AgreeFrom now s (p >>= f) (q >>= g) := by
  have hbind : AgreeFrom True s (p >>= f) (q >>= g) := by
    refine hp.bind fun a s' hok => hf a s' ?_ ?_
    · have hended := hp.ended
      rwa [hok] at hended
    · exact Nat.lt_of_lt_of_le (hp.takes trivial hok) (Nat.le_of_lt_succ hs)
  exact ⟨hbind.same, hbind.ended, hbind.shrinks, fun _ => hbind.takes trivial⟩

/-- Agreement goes on behind a parser. -/
theorem Agree.next (hp : Agree k now p q) (hf : ∀ a, Agree k False (f a) (g a)) :
    Agree k now (p >>= f) (q >>= g) :=
  fun s hended hs => (hp s hended hs).next hs hf

/-- Behind a parser that takes a token, the rest may agree on one token less. -/
theorem Agree.behind (hp : Agree (k + 1) True p q) (hf : ∀ a, Agree k False (f a) (g a)) :
    Agree (k + 1) now (p >>= f) (q >>= g) :=
  fun s hended hs => (hp s hended hs).behind hs hf

/-- Values that are mapped agree. -/
theorem Agree.map {g : α → β} (hp : Agree k now p q) : Agree k now (g <$> p) (g <$> q) :=
  hp.next fun _ => agree_pure _

/-- Looking at the kind of the next token takes nothing. -/
theorem agree_check {kind : TokenKind} {f g : Bool → Parser β}
    (h : ∀ found, Agree k now (f found) (g found)) :
    Agree k now (check kind >>= f) (check kind >>= g) :=
  fun s hended hs => (h (s.peek.kind == kind) s hended hs).congr rfl rfl

/-- Looking at the next token takes nothing. -/
theorem agreeFrom_peek {f g : Token → Parser β} (h : AgreeFrom now s (f s.peek) (g s.peek)) :
    AgreeFrom now s (peek >>= f) (peek >>= g) :=
  h.congr rfl rfl

/-- Advancing takes a token, unless it is the last one. -/
theorem agreeFrom_advance (hended : s.Ended) (h : s.peek.kind ≠ .eof) :
    AgreeFrom True s advance advance where
  same := rfl
  ended := hended.skip
  shrinks := Nat.le_of_lt (hended.length_skip h)
  takes := by
    rintro - _ _ ⟨⟩
    exact hended.length_skip h

/-- Behind a token that is eaten the rest may agree on one token less, from one state.
-/
theorem agreeFrom_eat {kind : TokenKind} {f g : Bool → Parser β} (hkind : kind ≠ .eof)
    (hended : s.Ended) (hs : s.tokens.length < k + 1) (hthere : Agree k False (f true) (g true))
    (hmissing : AgreeFrom now s (f false) (g false)) :
    AgreeFrom now s (eat kind >>= f) (eat kind >>= g) := by
  by_cases hpeek : s.peek.kind = kind
  · have heat : ∀ h : Bool → Parser β, (eat kind >>= h) s = (advance >>= fun _ => h true) s := by
      intro h
      have hok : eat kind s = .ok true s.skip := by rw [eat, if_pos hpeek]
      exact bind_of_ok hok
    exact ((agreeFrom_advance hended (hpeek ▸ hkind)).behind hs fun _ => hthere).congr (heat f)
      (heat g)
  · have heat : ∀ h : Bool → Parser β, (eat kind >>= h) s = h false s := by
      intro h
      have hok : eat kind s = .ok false s := by rw [eat, if_neg hpeek]
      exact bind_of_ok hok
    exact hmissing.congr (heat f) (heat g)

/-- Behind a token that is eaten the rest may agree on one token less. -/
theorem agree_eat {kind : TokenKind} {f g : Bool → Parser β} (hkind : kind ≠ .eof)
    (hthere : Agree k False (f true) (g true)) (hmissing : Agree (k + 1) now (f false) (g false)) :
    Agree (k + 1) now (eat kind >>= f) (eat kind >>= g) :=
  fun s hended hs => agreeFrom_eat hkind hended hs hthere (hmissing s hended hs)

/-- Eating goes on where the rest agrees in both cases. -/
theorem agree_eat_next {kind : TokenKind} {f g : Bool → Parser β} (hkind : kind ≠ .eof)
    (h : ∀ found, Agree k now (f found) (g found)) :
    Agree k now (eat kind >>= f) (eat kind >>= g) := fun s hended hs =>
  agreeFrom_eat hkind hended (Nat.lt_succ_of_lt hs) (h true).weaken (h false s hended hs)

/-- Parsers that count their rounds agree where they do for every count. -/
theorem agree_bounded {p q : Nat → Parser α} (h : ∀ fuel, Agree k now (p fuel) (q fuel)) :
    Agree k now (bounded p) (bounded q) :=
  fun s hended hs => (h (s.tokens.length + 1) s hended hs).congr rfl rfl

end

/-! ## Recursions -/

section

variable {ι α : Type} {body : (ι → Parser α) → ι → Parser α} {p : ι → Parser α}
  {loop : Nat → ι → Parser α}

/-- A recursion with a given body comes to an end, and does `p`: the body does `p` whatever calls
do that do not have fewer tokens ahead. -/
def Ends (body : (ι → Parser α) → ι → Parser α) (p : ι → Parser α) : Prop :=
  ∀ (i : ι) (s : ParserState), s.Ended → ∀ calls : ι → Parser α,
    (∀ (j : ι) (s' : ParserState), s'.Ended → s'.tokens.length < s.tokens.length →
      calls j s' = p j s') →
    body calls i s = p i s

/-- **A recursion that ends has one solution.** -/
theorem Ends.solution_iff (h : Ends body p) {q : ι → Parser α} :
    (∀ (i : ι) (s : ParserState), s.Ended → q i s = body q i s) ↔
      ∀ (i : ι) (s : ParserState), s.Ended → q i s = p i s := by
  constructor
  · intro hq i s hended
    induction hlength : s.tokens.length using Nat.strongRecOn generalizing i s with
    | ind length ih =>
        rw [hq i s hended]
        refine h i s hended q fun j s' hended' hlt => ?_
        exact ih _ (hlength ▸ hlt) j s' hended' rfl
  · intro hq i s hended
    rw [hq i s hended]
    exact (h i s hended q fun j s' hended' _ => hq j s' hended').symm

/-- A body agrees on states with one token more than its calls agree on. -/
def Descends (body : (ι → Parser α) → ι → Parser α) : Prop :=
  ∀ (k : Nat) (calls calls' : ι → Parser α), (∀ j, Agree k False (calls j) (calls' j)) →
    ∀ i, Agree (k + 1) False (body calls i) (body calls' i)

/-- A parser that counts down its rounds, or its depth, with a given body. -/
structure Fuelled (body : (ι → Parser α) → ι → Parser α) (loop : Nat → ι → Parser α) : Prop where
  zero : ∀ i, loop 0 i = exhausted
  succ : ∀ fuel i, loop (fuel + 1) i = body (loop fuel) i

/-- A count that is higher than the number of tokens ahead makes no difference. -/
theorem Descends.enough (h : Descends body) (hloop : Fuelled body loop) {k fuel fuel' : Nat}
    (hfuel : k ≤ fuel) (hfuel' : k ≤ fuel') (i : ι) :
    Agree k False (loop fuel i) (loop fuel' i) := by
  induction k generalizing fuel fuel' i with
  | zero => exact fun s _ hs => absurd hs (Nat.not_lt_zero _)
  | succ k ih =>
      obtain ⟨fuel, rfl⟩ := Nat.exists_eq_succ_of_ne_zero (Nat.ne_of_gt (Nat.zero_lt_of_lt hfuel))
      obtain ⟨fuel', rfl⟩ := Nat.exists_eq_succ_of_ne_zero (Nat.ne_of_gt (Nat.zero_lt_of_lt hfuel'))
      rw [hloop.succ, hloop.succ]
      exact h k _ _ (fun j => ih (Nat.le_of_succ_le_succ hfuel) (Nat.le_of_succ_le_succ hfuel') j) i

/-- **A body that goes down ends its recursion**, and a count that starts above the number of tokens
is never used up. -/
theorem Descends.ends (h : Descends body) (hloop : Fuelled body loop) :
    Ends body fun i => bounded (loop · i) := by
  intro i s hended calls hcalls
  have hbounded : bounded (loop · i) s = body (loop s.tokens.length) i s := by
    rw [← hloop.succ]
    rfl
  refine Eq.trans ?_ hbounded.symm
  refine (h s.tokens.length calls (loop s.tokens.length) (fun j s' hended' hs' => ?_) i s hended
    (Nat.lt_succ_self _)).same
  obtain ⟨hsame, hended'', hshrinks, -⟩ :=
    h.enough hloop (Nat.le_refl (s'.tokens.length + 1)) hs' j s' hended' (Nat.lt_succ_self _)
  exact ⟨(hcalls j s' hended' hs').trans hsame, hended'', hshrinks, False.elim⟩

/-- Two parsers that count down together agree where their bodies do. -/
theorem Fuelled.agree {k : Nat} {body' : (ι → Parser α) → ι → Parser α}
    {loop' : Nat → ι → Parser α} (hloop : Fuelled body loop) (hloop' : Fuelled body' loop')
    (hbody : ∀ calls calls' : ι → Parser α, (∀ j, Agree k False (calls j) (calls' j)) →
      ∀ i, Agree k False (body calls i) (body' calls' i)) (i : ι) :
    Agree k False (bounded (loop · i)) (bounded (loop' · i)) := by
  refine agree_bounded fun fuel => ?_
  induction fuel generalizing i with
  | zero =>
      rw [hloop.zero, hloop'.zero]
      exact agree_exhausted
  | succ fuel ih =>
      rw [hloop.succ, hloop'.succ]
      exact hbody _ _ ih i

end

end Parser

end ClassLang
