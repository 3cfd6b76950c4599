import ClassLang.Proofs.Syntax.Recovery
import ClassLang.Proofs.Token.Stream

/-!
# What parsing reports

Parsing notes syntax errors as they are met, adds the lexical errors and puts all of them in the
order of their places.  Nothing is lost on the way: the items are read to the end of the source, so
that every lexical error has been met by then, and the order only moves errors past those of
later places (`SyntaxError.StablySorted`).
-/

namespace ClassLang

namespace SyntaxError

/-- Whether an error is about a place. -/
def isAt (line col : Nat) (error : SyntaxError) : Bool :=
  error.span.line == line && error.span.col == col

/-- The same errors in the order of their places, those of one place in the order given. -/
structure StablySorted (given sorted : List SyntaxError) : Prop where
  perm : sorted.Perm given
  ordered : sorted.Pairwise fun a b => b.span.startsBefore a.span = false
  stable : ∀ line col, sorted.filter (isAt line col) = given.filter (isAt line col)

/-- Places are compared by line, and on one line by column. -/
theorem startsBefore_iff {a b : Span} :
    a.startsBefore b = true ↔ a.line < b.line ∨ a.line = b.line ∧ a.col < b.col := by
  simp [Span.startsBefore]

/-- Inserting an error adds it and loses none. -/
theorem insertByPlace_perm (error : SyntaxError) (errors : List SyntaxError) :
    (insertByPlace error errors).Perm (error :: errors) := by
  induction errors with
  | nil => exact .refl _
  | cons head rest ih =>
      rw [insertByPlace]
      split
      · exact .refl _
      · exact (ih.cons head).trans (.swap ..)

/-- Inserting an error keeps the others in order. -/
theorem insertByPlace_ordered (error : SyntaxError) {errors : List SyntaxError}
    (h : errors.Pairwise fun a b => b.span.startsBefore a.span = false) :
    (insertByPlace error errors).Pairwise fun a b => b.span.startsBefore a.span = false := by
  induction errors with
  | nil => simp [insertByPlace]
  | cons head rest ih =>
      obtain ⟨hhead, hrest⟩ := List.pairwise_cons.1 h
      rw [insertByPlace]
      split
      · next hbefore =>
          refine List.pairwise_cons.2 ⟨?_, h⟩
          intro other hother
          rw [startsBefore_iff] at hbefore
          have hnot : other.span.startsBefore head.span = false := by
            rcases List.mem_cons.1 hother with rfl | hmem
            · exact Bool.eq_false_iff.2 fun htrue => by
                rw [startsBefore_iff] at htrue
                omega
            · exact hhead other hmem
          refine Bool.eq_false_iff.2 fun htrue => Bool.eq_false_iff.1 hnot ?_
          rw [startsBefore_iff] at htrue ⊢
          omega
      · next hnot =>
          refine List.pairwise_cons.2 ⟨?_, ih hrest⟩
          intro other hother
          rcases List.mem_cons.1 ((insertByPlace_perm error rest).subset hother) with rfl | hmem
          · exact Bool.eq_false_iff.2 hnot
          · exact hhead other hmem

/-- An error comes behind those that are about its place. -/
theorem insertByPlace_stable (error : SyntaxError) {errors : List SyntaxError}
    (h : errors.Pairwise fun a b => b.span.startsBefore a.span = false) (line col : Nat) :
    (insertByPlace error errors).filter (isAt line col) =
      errors.filter (isAt line col) ++ [error].filter (isAt line col) := by
  induction errors with
  | nil => rfl
  | cons head rest ih =>
      obtain ⟨hhead, hrest⟩ := List.pairwise_cons.1 h
      rw [insertByPlace]
      split
      · next hbefore =>
          cases hat : isAt line col error with
          | false => simp [hat]
          | true =>
              -- Every other error is about a later place.
              have hnone : (head :: rest).filter (isAt line col) = [] := by
                refine List.filter_eq_nil_iff.2 fun other hother hat' => ?_
                have hle : other.span.startsBefore head.span = false := by
                  rcases List.mem_cons.1 hother with rfl | hmem
                  · exact Bool.eq_false_iff.2 fun htrue => by
                      rw [startsBefore_iff] at htrue
                      omega
                  · exact hhead other hmem
                refine Bool.eq_false_iff.1 hle (startsBefore_iff.2 ?_)
                rw [startsBefore_iff] at hbefore
                simp only [isAt, Bool.and_eq_true, beq_iff_eq] at hat hat'
                omega
              rw [List.filter_cons, if_pos hat, hnone]
              simp [hat]
      · rw [List.filter_cons, List.filter_cons, ih hrest]
        split <;> rfl

/-- **Sorting is stable**: errors of one place stay in the order of their reports. -/
theorem sortByPlace_stablySorted (errors : List SyntaxError) :
    StablySorted errors (sortByPlace errors) := by
  suffices h : ∀ (errors given sorted : List SyntaxError), StablySorted given sorted →
      StablySorted (given ++ errors)
        (errors.foldl (fun sorted error => insertByPlace error sorted) sorted) from
    h errors [] [] ⟨.refl _, .nil, fun _ _ => rfl⟩
  intro errors
  induction errors with
  | nil => exact fun given sorted h => by simpa using h
  | cons error rest ih =>
      intro given sorted h
      have hinsert : StablySorted (given ++ [error]) (insertByPlace error sorted) :=
        ⟨(insertByPlace_perm error sorted).trans ((h.perm.cons error).trans
            (List.perm_append_singleton error given).symm),
          insertByPlace_ordered error h.ordered, fun line col => by
            rw [insertByPlace_stable error h.ordered, h.stable, List.filter_append]⟩
      have hrest := ih _ _ hinsert
      rwa [List.append_assoc, List.singleton_append] at hrest

end SyntaxError

/-- The tokens of a source end in the end mark. -/
theorem ParserState.ended_ofSource (source : String) : (ParserState.ofSource source).Ended :=
  ⟨rfl, lex_kind_ne_eof source⟩

/-- **Parsing reports everything, in order.**  The items are read to the end of the source, where
the errors that a stream of the source has met are those of lexing all of it.  The source is
accepted if there are neither lexical nor syntax errors; otherwise all of them are reported, sorted
by their places, the syntax errors of a place first. -/
theorem parse_reports (source : String) : ∃ found rest,
    Parser.items (.ofSource source) = .ok found rest ∧ rest.tokens = [] ∧
      (∃ stream, TokenStream.Shows source stream rest) ∧
      (∀ stream, TokenStream.Shows source stream rest →
        stream.peek.1.kind = .eof ∧ stream.peek.2.takeErrors.1 = (lex source).errors) ∧
      (∀ script, parse source = .ok script → script.items = found) ∧
      ((∃ script, parse source = .ok script) ↔ rest.errors = [] ∧ (lex source).errors = []) ∧
      ∀ errors, parse source = .error errors →
        SyntaxError.StablySorted (rest.errors ++ (lex source).errors.map .ofLexError) errors := by
  obtain ⟨found, rest, hitems, htokens, heof⟩ :=
    Parser.items_ends (ParserState.ended_ofSource source)
  refine ⟨found, rest, hitems, htokens, ?_, ?_, ?_⟩
  · have hnone : [] <:+ (lex source).tokens := List.nil_suffix
    obtain ⟨stream, hstream⟩ := TokenStream.shows_suffix hnone
    exact ⟨stream, hstream.own htokens heof⟩
  · intro stream hstream
    obtain ⟨hpeek, herrors⟩ := hstream.takeErrors htokens
    exact ⟨by rw [hpeek, heof]; rfl, herrors⟩
  · have hreading : Script.readLexed (lex source) =
        ⟨⟨found, (ParserState.ofSource source).peek.span.merge rest.peek.span, rest.nextId⟩,
          rest.errors⟩ := by
      unfold Script.readLexed
      simp only
      rw [show Parser.items (.ofLexed (lex source)) = .ok found rest from hitems]
      rfl
    cases hall : rest.errors ++ (lex source).errors.map SyntaxError.ofLexError with
    | nil =>
        obtain ⟨hrecorded, hlexical⟩ := List.append_eq_nil_iff.1 hall
        have hparse : parse source = .ok ⟨found,
            (ParserState.ofSource source).peek.span.merge rest.peek.span, rest.nextId⟩ := by
          unfold parse
          simp only [hreading, hall]
        rw [hparse]
        refine ⟨fun script h => by cases h; rfl, ⟨fun _ => ?_, fun _ => ⟨_, rfl⟩⟩, nofun⟩
        exact ⟨hrecorded, List.map_eq_nil_iff.1 hlexical⟩
    | cons error others =>
        have hparse : parse source = .error (SyntaxError.sortByPlace (error :: others)) := by
          unfold parse
          simp only [hreading, hall]
        rw [hparse]
        refine ⟨nofun, ⟨fun ⟨_, h⟩ => (nomatch h), fun ⟨hrecorded, hlexical⟩ => ?_⟩, ?_⟩
        · rw [hrecorded, hlexical] at hall
          cases hall
        · intro errors h
          cases h
          exact SyntaxError.sortByPlace_stablySorted _

-- Two syntax errors, with the two lexical ones of the source at their places in between.
example : (match parse "int8 f(x) # class \"z" with
    | .ok _ => []
    | .error errors => errors.map fun error : SyntaxError => (error.span.col, error.kind)) =
    [(9, .expectedIdentifier), (11, .lexical), (19, .lexical), (21, .unexpectedEof)] := by
  decide +kernel

end ClassLang
