import ClassLang.Proofs.Syntax.Tracking

/-!
# Tokens piece by piece

What a rule of the grammar reads is told in pieces, one behind another: `Collected before S` says
that the tokens behind `before` are as `S` has it, and `Then S R` that something as `R` has it
follows.  A parser that is known by its own tokens (`Parser.Collects`) can be put behind any other
(`Collects.behind`), whatever was read in front of it.

Each loop of the grammar has a rule here.  The two loops over members and statements differ in what
happens to a value that cannot be read: `many` gives up, and `recovering` notes the error and goes
on behind the tokens that it skips, which is why those are there only if something was reported.
-/

namespace ClassLang

/-- The tokens of a node with the parentheses around it. -/
def WrittenAs (W : Writing) (node : Node) (tokens : List Token) : Prop :=
  ∃ opens core closes, tokens = opens ++ core ++ closes ∧ W node opens core closes

/-- Further tokens in front of nodes, if something was reported. -/
theorem Strewn.behind {W : Writing} {clean : Prop} {nodes : List Node} {tokens other : List Token}
    (h : Strewn W clean nodes tokens) (hother : clean → other = []) :
    Strewn W clean nodes (other ++ tokens) := by
  have hboth : ∀ {more : List Token}, (clean → more = []) → clean → other ++ more = [] :=
    fun hmore hclean => by rw [hother hclean, hmore hclean, List.append_nil]
  cases h with
  | nil hmore => exact .nil (hboth hmore)
  | @cons node nodes more opens core closes tokens hmore h hrest =>
      have hcons := Strewn.cons (hboth hmore) h hrest
      simpa only [List.append_assoc] using hcons

namespace Parser

variable {source : List Char} {clean : Prop}

/-- Behind the tokens `before` there are tokens as `S` has it. -/
def Collected (before : List Token) (S : List Token → Prop) (front : List Token) (_ : Token) :
    Prop :=
  ∃ tokens, front = before ++ tokens ∧ S tokens

/-- Tokens as `S` has it, and behind them tokens as `R` has it. -/
def Then (S R : List Token → Prop) (tokens : List Token) : Prop :=
  ∃ us vs, tokens = us ++ vs ∧ S us ∧ R vs

/-- Nothing was read. -/
def Empty (tokens : List Token) : Prop := tokens = []

/-- A token of a kind. -/
def OfKind (kind : TokenKind) (token : Token) (tokens : List Token) : Prop :=
  tokens = [token] ∧ token.kind = kind

/-- A name. -/
def Named (name : Ident) (tokens : List Token) : Prop :=
  ∃ token, tokens = [token] ∧ name.IsWritten token

/-- Where both parsers give a value, the tokens that they have read are as `R` has it. -/
def Collects {α : Type} (source : List Char) (clean : Prop) (p' p : Parser α)
    (R : α → List Token → Prop) : Prop :=
  ∀ before, Tracks source clean (Collected before Empty) p' p fun a => Collected before (R a)

section

variable {α β : Type} {before : List Token} {S S' : List Token → Prop} {p' p : Parser α}
  {R R' : α → List Token → Prop} {Q : β → List Token → Token → Prop}
  {Q' : α → List Token → Token → Prop} {kind : TokenKind}

theorem Collected.mono {front : List Token} {next next' : Token}
    (h : Collected before S front next) (himp : ∀ tokens, S tokens → S' tokens) :
    Collected before S' front next' := by
  obtain ⟨tokens, hfront, hS⟩ := h
  exact ⟨tokens, hfront, himp tokens hS⟩

/-- More tokens behind those that were collected. -/
theorem Collected.append {T : List Token → Prop} {front tokens : List Token} {next next' : Token}
    (h : Collected before S front next) (hT : T tokens) :
    Collected before (Then S T) (front ++ tokens) next' := by
  obtain ⟨us, rfl, hS⟩ := h
  exact ⟨us ++ tokens, List.append_assoc .., us, tokens, rfl, hS, hT⟩

/-- **A parser behind other tokens.** -/
theorem Collects.behind (h : Collects source clean p' p R) :
    Tracks source clean (Collected before S) p' p fun a => Collected before (Then S (R a)) where
  moves := (h []).moves
  grows := (h []).grows
  same hsize hunclean front _ hs _ :=
    (h front).same hsize hunclean hs ⟨[], (List.append_nil _).symm, rfl⟩
  tracks := by
    intro front s s' a hs hS hp herrors
    obtain ⟨read, htokens, tokens, hread, hR⟩ :=
      (h front).tracks hs ⟨[], (List.append_nil _).symm, rfl⟩ hp herrors
    refine ⟨read, htokens, ?_⟩
    rw [hread]
    exact hS.append hR

/-- What has been read is as the value says. -/
theorem collects_pure {a : α} :
    Tracks source clean (Collected before (R a)) (pure a) (pure a)
      fun a => Collected before (R a) :=
  tracks_pure fun _ _ _ => id

/-- What is known of the tokens in front, said in another way. -/
theorem Tracks.regroup (h : Tracks source clean (Collected before S') p' p Q')
    (himp : ∀ tokens, S tokens → S' tokens) :
    Tracks source clean (Collected before S) p' p Q' :=
  h.pre fun _ _ _ hcollected => hcollected.mono himp

theorem Collects.mono (h : Collects source clean p' p R)
    (himp : ∀ a tokens, R a tokens → R' a tokens) : Collects source clean p' p R' :=
  fun before => (h before).post fun a _ _ _ hcollected => hcollected.mono (himp a)

theorem Collects.map {g : α → β} {T : β → List Token → Prop}
    (h : Collects source clean p' p fun a => T (g a)) :
    Collects source clean (g <$> p') (g <$> p) T :=
  fun before => Tracks.map (R := fun b => Collected before (T b)) (h before)

theorem collects_exhausted : Collects source clean (exhausted : Parser α) exhausted R :=
  fun _ => tracks_exhausted

theorem collects_bounded {p' p : Nat → Parser α}
    (h : ∀ fuel, Collects source clean (p' fuel) (p fuel) R) :
    Collects source clean (bounded p') (bounded p) R :=
  fun before => tracks_bounded fun fuel => h fuel before

theorem collects_expect (hkind : kind ≠ .eof) :
    Collects source clean (expect kind) (expect kind) (OfKind kind) :=
  fun _ => (tracks_expect hkind).post fun _ _ _ _ ⟨htoken, _, ⟨tokens, hbefore, hempty⟩, hfront⟩ =>
    ⟨_, by rw [hfront, hbefore, show tokens = [] from hempty, List.append_nil], rfl, htoken⟩

theorem collects_ident : Collects source clean ident ident Named :=
  fun _ => tracks_ident.post fun _ _ _ _ ⟨token, hname, _, ⟨tokens, hbefore, hempty⟩, hfront⟩ =>
    ⟨_, by rw [hfront, hbefore, show tokens = [] from hempty, List.append_nil], token, rfl, hname⟩

/-- A token that was looked at. -/
theorem collects_advance {token : Token} (hkind : token.kind ≠ .eof) :
    Tracks source clean (fun front next => token = next ∧ Collected before S front next)
      advance advance fun taken front next =>
        taken = token ∧ Collected before (Then S (· = [token])) front next := by
  refine (tracks_advance ?_).post ?_
  · rintro front next ⟨rfl, -⟩
    exact hkind
  · rintro _ _ next - ⟨front, ⟨rfl, hbefore⟩, rfl⟩
    exact ⟨rfl, hbefore.append rfl⟩

/-- A token that may be there. -/
theorem collects_eat {f' f : Bool → Parser β} (hkind : kind ≠ .eof)
    (hthere : Tracks source clean
      (Collected before (Then S fun tokens => ∃ token, OfKind kind token tokens))
      (f' true) (f true) Q)
    (hmissing : Tracks source clean (Collected before S) (f' false) (f false) Q) :
    Tracks source clean (Collected before S) (eat kind >>= f') (eat kind >>= f) Q :=
  tracks_eat hkind (hthere.pre fun _ _ _ ⟨token, htoken, _, hbefore, hfront⟩ =>
    hfront ▸ hbefore.append ⟨token, rfl, htoken⟩) hmissing

/-- **Two places are merged**, those of two pieces of what has been collected. -/
theorem collects_merged {overflow : Parser Span} {a b : Span} {f' : Span → Parser β}
    {p : Parser β}
    (hmerge : ∀ tokens, S tokens → ∃ us mid vs, us ++ mid ++ vs <:+: tokens ∧
      a.Covers source us ∧ b.Covers source vs ∧
        ((a.merge b).Covers source (us ++ mid ++ vs) → S' tokens))
    (h : Tracks source clean (Collected before S') (f' (a.merge b)) p Q) :
    Tracks source clean (Collected before S) ((checked overflow).merge a b >>= f') p Q := by
  have hS' : ∀ front next, InOrder source front → Collected before S front next →
      Collected before S' front next := by
    rintro front next hfront ⟨tokens, rfl, hS⟩
    obtain ⟨us, mid, vs, hin, ha, hb, himp⟩ := hmerge tokens hS
    exact ⟨tokens, rfl,
      himp (ha.merge hb (hfront.sublist (hin.sublist.trans (List.sublist_append_right ..))))⟩
  refine tracks_merged ?_ (h.pre hS')
  rintro front next ⟨tokens, rfl, hS⟩
  obtain ⟨us, mid, vs, hin, ha, hb, -⟩ := hmerge tokens hS
  exact ⟨us, mid, vs, hin.sublist.trans (List.sublist_append_right ..), ha, hb⟩

end

/-! ## Lists -/

section

variable {α : Type} {W : Writing} {before : List Token} {S : List Token → Prop} {p' p : Parser α}
  {node : α → Node}

/-- One or more values with commas in between. -/
theorem collects_separated
    (h : Collects source clean p' p fun a => WrittenAs (Wrapped W) (node a)) :
    Collects source clean (separated p') (separated p)
      fun values => Listed W (values.map node) := by
  suffices hrounds : ∀ fuel, Collects source clean (separatedUpTo p' fuel) (separatedUpTo p fuel)
      fun values tokens => values ≠ [] ∧ Listed W (values.map node) tokens from
    (collects_bounded hrounds).mono fun _ _ => And.right
  intro fuel
  induction fuel with
  | zero => exact collects_exhausted
  | succ fuel ih =>
      refine fun before => (h before).bind fun first => collects_eat nofun ?_ ?_
      · refine ih.behind.bind fun rest => collects_pure.regroup ?_
        rintro _ ⟨_, us, rfl, ⟨_, _, rfl, ⟨opens, core, closes, rfl, hfirst⟩, comma, rfl, hcomma⟩,
          hrest, hlisted⟩
        refine ⟨List.cons_ne_nil _ _, ?_⟩
        cases rest with
        | nil => exact absurd rfl hrest
        | cons next rest => simpa using Listed.cons hfirst hcomma hlisted
      · refine collects_pure.regroup ?_
        rintro _ ⟨opens, core, closes, rfl, hfirst⟩
        exact ⟨List.cons_ne_nil _ _, .one hfirst⟩

/-- Values up to a token that ends the list. -/
theorem collects_many (stop : TokenKind → Bool)
    (h : Collects source clean p' p fun a => WrittenAs W (node a)) :
    Collects source clean (many stop p') (many stop p) fun values =>
      Strewn W True (values.map node) := by
  refine collects_bounded fun fuel => ?_
  induction fuel with
  | zero => exact collects_exhausted
  | succ fuel ih =>
      refine fun before => (tracks_peek.post fun _ _ _ _ => And.right).bind fun token => ?_
      split
      · refine collects_pure.regroup ?_
        rintro _ rfl
        exact .nil fun _ => rfl
      · refine (h before).bind fun first => ih.behind.bind fun rest => collects_pure.regroup ?_
        rintro _ ⟨_, us, rfl, ⟨opens, core, closes, rfl, hfirst⟩, hrest⟩
        exact .cons (fun _ => rfl) hfirst hrest

/-- A value that is left out if it cannot be read, which is reported then. -/
theorem collects_attempt {skip : Parser Unit} {after : List Token → List Token}
    {R : α → List Token → Prop} (h : Collects source clean p' p R) (hskip : Skips skip after)
    (hafter : ∀ tokens, after tokens <:+ tokens) :
    Collects source clean (attempt p' skip) (attempt p skip) fun found tokens =>
      match found with
      | some a => R a tokens
      | none => ¬ clean := by
  refine fun before => ⟨fun s => ?_, ?_, ?_, ?_⟩
  · obtain ⟨hsuffix, heof⟩ := (h before).moves s
    cases hp : p s with
    | ok a rest =>
        rw [hp] at hsuffix heof
        rw [attempt_of_ok hp]
        exact ⟨hsuffix, heof⟩
    | fail error rest =>
        rw [hp] at hsuffix heof
        rw [attempt_of_fail hskip hp]
        exact ⟨(hafter _).trans hsuffix, heof⟩
  · intro s s' found hok herrors
    cases hp : p s with
    | ok a rest =>
        cases (attempt_of_ok hp).symm.trans hok
        exact (h before).grows hp herrors
    | fail error rest =>
        cases (attempt_of_fail hskip hp).symm.trans hok
        simp at herrors
  · intro hsize hunclean front s hs hbefore
    unfold attempt
    rw [(h before).same hsize hunclean hs hbefore]
  · intro front s s' found hs hbefore hok herrors
    obtain ⟨hsuffix, -⟩ := (h before).moves s
    cases hp : p s with
    | ok a rest =>
        cases (attempt_of_ok hp).symm.trans hok
        exact (h before).tracks hs hbefore hp herrors
    | fail error rest =>
        -- the error was noted, so that the reading is not clean, and more tokens were skipped
        cases (attempt_of_fail hskip hp).symm.trans hok
        rw [hp] at hsuffix
        obtain ⟨read, hread⟩ := (hafter _).trans hsuffix
        obtain ⟨tokens, rfl, -⟩ := hbefore
        refine ⟨read, hread.symm, tokens ++ read, List.append_assoc .., fun hclean => ?_⟩
        simpa using herrors hclean

/-- Values up to a token that ends the list, with those left out that cannot be read. -/
theorem collects_recovering (stop : TokenKind → Bool) {skip : Parser Unit}
    {after : List Token → List Token}
    (h : Collects source clean p' p fun a => WrittenAs W (node a)) (hskip : Skips skip after)
    (hafter : ∀ tokens, after tokens <:+ tokens) :
    Collects source clean (recovering stop p' skip) (recovering stop p skip) fun values =>
      Strewn W clean (values.map node) := by
  refine collects_bounded fun fuel => ?_
  induction fuel with
  | zero => exact collects_exhausted
  | succ fuel ih =>
      refine fun before => (tracks_peek.post fun _ _ _ _ => And.right).bind fun token => ?_
      split
      · refine collects_pure.regroup ?_
        rintro _ rfl
        exact .nil fun _ => rfl
      · refine (collects_attempt h hskip hafter before).bind fun found =>
          ih.behind.bind fun rest => collects_pure.regroup ?_
        cases found with
        | some first =>
            rintro _ ⟨_, us, rfl, ⟨opens, core, closes, rfl, hfirst⟩, hrest⟩
            exact .cons (fun _ => rfl) hfirst hrest
        | none =>
            rintro _ ⟨_, us, rfl, hunclean, hrest⟩
            exact hrest.behind fun hclean => absurd hclean hunclean

end

end Parser

end ClassLang
