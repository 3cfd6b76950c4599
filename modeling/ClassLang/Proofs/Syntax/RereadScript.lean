import ClassLang.Proofs.Syntax.RereadStmt

/-!
# Reading declarations and scripts again

Declarations start with a word or a type, and none of them goes on behind its last token; so what
stands behind does not matter.  Behind the last item there is nothing: reading the text of a script
gives the script (`parse_print`).
-/

namespace ClassLang

open ClassLang.Parser

/-! ## Parameters -/

namespace Param

theorem takes (param : Param) {rest : List Word} :
    Takes Parser.param (param.words ++ rest) rest fun found => found.bare = param.bare := by
  rw [words, List.append_assoc]
  refine (param.ty.takes_words (fun heq => by cases heq)).bind fun ty hty =>
    takes_ident.bind fun name hname =>
    takes_freshId.bind fun _ _ => takes_pure ?_
  simp [Param.bare, Ident.bare, hty, hname]

theorem firstKind_words (param : Param) (rest : List Word) (m : Mark) :
    Word.firstKind (param.words ++ rest) ≠ .mark m := by
  rw [words, List.append_assoc]
  intro heq
  rcases TypeExpr.kind_cases heq with ⟨_, hkind⟩ | hkind <;> cases hkind

theorem allWords_eq_nil {params : List Param} {variadic : Bool} :
    allWords params variadic = [] ↔ params = [] ∧ variadic = false := by
  cases variadic <;> simp [allWords]

/-- Parameters, and dots behind them where there may be some, in front of the parenthesis. -/
theorem takes_paramsUpTo {isExternal variadic : Bool}
    (hexternal : variadic = true → isExternal = true)
    {params : List Param} (hsome : allWords params variadic ≠ []) {fuel : Nat}
    (hfuel : (allWords params variadic).length ≤ fuel) {rest : List Word} :
    Takes (paramsUpTo isExternal fuel)
      (Word.listed (allWords params variadic) ++ .mark .rightParen :: rest)
      (.mark .rightParen :: rest)
      fun found => found.1.map Param.bare = params.map Param.bare ∧ found.2 = variadic := by
  induction params generalizing fuel with
  | nil =>
      cases variadic with
      | false => exact absurd rfl hsome
      | true =>
          obtain ⟨fuel, rfl⟩ := Nat.exists_eq_succ_of_ne_zero (Nat.ne_zero_of_lt hfuel)
          refine takes_peek.bind fun token _ => (takes_eat (w := .mark .ellipsis) rfl).bind ?_
          rintro _ rfl
          rw [if_pos rfl, if_pos (hexternal rfl)]
          refine takes_check.bind ?_
          rintro _ rfl
          exact takes_pure ⟨rfl, rfl⟩
  | cons param params ih =>
      have hwords : allWords (param :: params) variadic = param.words ::
        allWords params variadic := rfl
      rw [hwords] at hfuel ⊢
      obtain ⟨fuel, rfl⟩ := Nat.exists_eq_succ_of_ne_zero (Nat.ne_zero_of_lt hfuel)
      cases hothers : allWords params variadic with
      | nil =>
          obtain ⟨rfl, rfl⟩ := allWords_eq_nil.1 hothers
          rw [Word.listed, List.append_assoc]
          refine takes_peek.bind fun token _ =>
            (takes_eat_other (param.firstKind_words _ _)).bind ?_
          rintro _ rfl
          refine param.takes.bind fun first hfirst =>
            (takes_eat_other (fun heq => by cases heq)).bind ?_
          rintro _ rfl
          exact takes_pure (by simp [hfirst])
      | cons next lists =>
          have hread := ih (by simp [hothers]) (Nat.le_of_succ_le_succ hfuel)
          rw [hothers] at hread
          have hlisted : Word.listed (param.words :: next :: lists) ++ .mark .rightParen :: rest =
              param.words ++ .mark .comma ::
                (Word.listed (next :: lists) ++ .mark .rightParen :: rest) := by
            simp [Word.listed]
          rw [hlisted]
          refine takes_peek.bind fun token _ =>
            (takes_eat_other (param.firstKind_words _ _)).bind ?_
          rintro _ rfl
          refine param.takes.bind fun first hfirst => (takes_eat rfl).bind ?_
          rintro _ rfl
          exact hread.bind fun found hfound => takes_pure (by simp [hfirst, hfound])

/-- Parameters are read with their parentheses. -/
theorem takes_params {isExternal variadic : Bool} (hexternal : variadic = true → isExternal = true)
    {params : List Param} {rest : List Word} :
    Takes (Parser.params isExternal) (listWords params variadic ++ rest) rest
      fun found => found.1.map Param.bare = params.map Param.bare ∧ found.2 = variadic := by
  have hwords : listWords params variadic ++ rest = .mark .leftParen ::
      (Word.listed (allWords params variadic) ++ .mark .rightParen :: rest) := by
    simp [listWords]
  rw [hwords]
  refine (takes_expect rfl).bind fun _ _ => takes_check.bind ?_
  rintro _ rfl
  by_cases hnone : allWords params variadic = []
  · obtain ⟨rfl, rfl⟩ := allWords_eq_nil.1 hnone
    refine (takes_pure (Q := (· = ([], false))) rfl).bind ?_
    rintro _ rfl
    exact (takes_expect rfl).bind fun _ _ => takes_pure ⟨rfl, rfl⟩
  · have hgoes : (Word.firstKind (Word.listed (allWords params variadic) ++
        .mark .rightParen :: rest) == .mark .rightParen) = false := by
      cases params with
      | nil =>
          cases variadic with
          | false => exact absurd rfl hnone
          | true => rfl
      | cons param params =>
          have hlisted : Word.listed (allWords (param :: params) variadic) = param.words ++
              (allWords params variadic).flatMap fun words => .mark .comma :: words := rfl
          rw [hlisted, List.append_assoc, beq_eq_false_iff_ne]
          exact param.firstKind_words _ _
    rw [hgoes, if_neg Bool.false_ne_true]
    refine (takes_bounded fun fuel hlength => takes_paramsUpTo hexternal hnone ?_).bind
      fun found hfound => (takes_expect rfl).bind fun _ _ => takes_pure hfound
    have hle := Word.length_le_listed (allWords params variadic)
    simp only [List.length_append, List.length_cons] at hlength
    omega

end Param

/-! ## Declarations -/

section

variable {ty ty' : TypeExpr} {name name' : Ident} {params : List Param} {rest : List Word}

/-- A function with a body is read from its parameters on. -/
theorem takes_functionRest (hty : ty'.bare = ty.bare) (hname : name'.name = name.name)
    {body : Block} (hbody : Stmt.AllPrintable body.stmts) :
    Takes (functionRest ty' name') (Param.listWords params false ++ (body.words ++ rest)) rest
      fun found => found.bare =
        ⟨0, ty.bare, name.bare, params.map Param.bare, .block body.bare, {}⟩ := by
  have hinternal : false = true → false = true := id
  refine takes_freshId.bind fun _ _ => (Param.takes_params hinternal).bind fun found hfound =>
    (Block.takes hbody).bind fun block hblock => takes_pure ?_
  simp [FunctionDecl.bare, FunctionBody.bare, Ident.bare, hty, hname, hfound, hblock]

/-- So is one that is defined elsewhere. -/
theorem takes_externalRest (hty : ty'.bare = ty.bare) (hname : name'.name = name.name)
    {variadic : Bool} :
    Takes (externalRest ty' name')
      (Param.listWords params variadic ++ .mark .semicolon :: rest) rest
      fun found => found.bare =
        ⟨0, ty.bare, name.bare, params.map Param.bare, .external variadic, {}⟩ := by
  refine takes_freshId.bind fun _ _ => (Param.takes_params fun _ => rfl).bind fun found hfound =>
    (takes_expect rfl).bind fun _ _ => takes_pure ?_
  simp [FunctionDecl.bare, FunctionBody.bare, Ident.bare, hty, hname, hfound]

end

/-- **Functions are read as they are written**, behind `extern` if they are defined elsewhere. -/
theorem FunctionDecl.Printable.takes {decl : FunctionDecl} (hdecl : decl.Printable)
    {rest : List Word} :
    Takes (if decl.body.isExternal then externalDecl else freeFunction) (decl.words ++ rest) rest
      fun found => found.bare = decl.bare := by
  obtain ⟨id, returnType, name, params, body, span⟩ := decl
  cases body with
  | block body =>
      obtain ⟨-, -, -, hbody⟩ := hdecl
      have hwords : (FunctionDecl.mk id returnType name params (.block body) span).words ++ rest =
          returnType.words ++ .name name.name ::
            (Param.listWords params false ++ (body.words ++ rest)) := by
        simp [FunctionDecl.words]
      rw [hwords]
      refine (returnType.takes_words (fun heq => by cases heq)).bind fun ty hty =>
        takes_ident.bind fun name' hname => takes_check.bind ?_
      rintro _ rfl
      exact takes_functionRest hty hname hbody
  | external variadic =>
      have hwords : (FunctionDecl.mk id returnType name params (.external variadic) span).words ++
          rest = .keyword .externWord :: (returnType.words ++ .name name.name ::
            (Param.listWords params variadic ++ .mark .semicolon :: rest)) := by
        simp [FunctionDecl.words]
      rw [hwords]
      exact (takes_expect rfl).bind fun _ _ =>
        (returnType.takes_words (fun heq => by cases heq)).bind
        fun ty hty => takes_ident.bind fun name' hname => (takes_externalRest hty hname).bind
          fun found hfound => takes_pure hfound

/-- Fields of structs. -/
theorem FieldDecl.takes (field : FieldDecl) {rest : List Word} :
    Takes fieldDecl (field.words ++ rest) rest fun found => found.bare = field.bare := by
  rw [words, List.append_assoc]
  refine (field.ty.takes_words (fun heq => by cases heq)).bind fun ty hty =>
    takes_ident.bind fun name hname =>
    (takes_expect rfl).bind fun _ _ => takes_freshId.bind fun _ _ => takes_pure ?_
  simp [FieldDecl.bare, Ident.bare, hty, hname]

/-- Members of classes. -/
theorem ClassMember.Printable.takes {member : ClassMember} (hmember : member.Printable)
    {rest : List Word} :
    Takes classMember (member.words ++ rest) rest fun found => found.bare = member.bare := by
  cases member with
  | field f =>
      have hwords : (ClassMember.field f).words ++ rest =
          f.ty.words ++ .name f.name.name :: .mark .semicolon :: rest := by
        simp [ClassMember.words, FieldDecl.words]
      rw [hwords]
      refine (f.ty.takes_words (fun heq => by cases heq)).bind fun ty hty =>
        takes_ident.bind fun name hname =>
        takes_check.bind ?_
      rintro _ rfl
      refine Takes.map ((takes_expect rfl).bind fun _ _ => takes_freshId.bind fun _ _ =>
        takes_pure ?_)
      simp [ClassMember.bare, FieldDecl.bare, Ident.bare, hty, hname]
  | method f =>
      obtain ⟨⟨-, -, -, hbody⟩, hinternal⟩ := hmember
      obtain ⟨id, returnType, name, params, body, span⟩ := f
      cases body with
      | external _ => cases hinternal
      | block body =>
          have hwords : (ClassMember.method
            ⟨id, returnType, name, params, .block body, span⟩).words ++
              rest = returnType.words ++ .name name.name ::
                (Param.listWords params false ++ (body.words ++ rest)) := by
            simp [ClassMember.words, FunctionDecl.words]
          rw [hwords]
          refine (returnType.takes_words (fun heq => by cases heq)).bind fun ty hty =>
            takes_ident.bind fun name' hname => takes_check.bind ?_
          rintro _ rfl
          exact Takes.map ((takes_functionRest hty hname hbody).mono fun found hfound =>
            congrArg ClassMember.method hfound)

theorem FieldDecl.goes (field : FieldDecl) (rest : List Word) :
    closesBraces (Word.firstKind (field.words ++ rest)) = false := by
  rw [words, List.append_assoc]
  exact (TokenKind.goes_of_startsStmt (field.ty.startsStmt_words _)).1

theorem ClassMember.Printable.goes {member : ClassMember} (hmember : member.Printable)
    (rest : List Word) : closesBraces (Word.firstKind (member.words ++ rest)) = false := by
  cases member with
  | field f => exact f.goes rest
  | method f =>
      obtain ⟨id, returnType, name, params, body, span⟩ := f
      cases body with
      | external _ => cases hmember.2
      | block body =>
          rw [ClassMember.words, FunctionDecl.words, List.append_assoc]
          exact (TokenKind.goes_of_startsStmt (returnType.startsStmt_words _)).1

/-- Classes. -/
theorem takes_classDecl {decl : ClassDecl} (hmembers : ∀ member ∈ decl.members, member.Printable)
    {rest : List Word} :
    Takes classDecl ((Item.classDecl decl).words ++ rest) rest
      fun found => Item.bare (.classDecl found) = Item.bare (.classDecl decl) := by
  obtain ⟨id, name, parent, members, span⟩ := decl
  have hbody : Takes (recovering closesBraces classMember skipStatement)
      (members.flatMap ClassMember.words ++ .mark .rightBrace :: rest) (.mark .rightBrace :: rest)
      fun found => found.map ClassMember.bare = members.map ClassMember.bare :=
    takes_recovering (fun _ => True) rfl rfl trivial
      (fun member hmember behind => ⟨(hmembers member hmember).goes behind, trivial⟩)
      fun member hmember behind _ _ => (hmembers member hmember).takes
  have hend : ∀ {name' : Ident}, name'.name = name.name → ∀ {parent' : Option Ident},
      parent'.map Ident.bare = parent.map Ident.bare → ∀ (id' : NodeId) (start : Token),
      Takes (do
          let _ ← expect (.mark .leftBrace)
          let found ← recovering closesBraces classMember skipStatement
          let stop ← expect (.mark .rightBrace)
          return (⟨id', name', parent', found, start.span.merge stop.span⟩ : ClassDecl))
        (.mark .leftBrace :: (members.flatMap ClassMember.words ++ .mark .rightBrace :: rest)) rest
        fun found =>
          Item.bare (.classDecl found) =
            Item.bare (.classDecl ⟨id, name, parent, members, span⟩) := by
    intro name' hname parent' hparent id' start
    refine (takes_expect rfl).bind fun _ _ => hbody.bind fun found hfound =>
      (takes_expect rfl).bind fun _ _ => takes_pure ?_
    simp [Item.bare, Ident.bare, hname, hparent, hfound]
  cases parent with
  | none =>
      have hwords : (Item.classDecl ⟨id, name, none, members, span⟩).words ++ rest =
          .keyword .classWord :: .name name.name :: .mark .leftBrace ::
            (members.flatMap ClassMember.words ++ .mark .rightBrace :: rest) := by
        simp [Item.words]
      rw [hwords]
      refine (takes_expect rfl).bind fun start _ => takes_freshId.bind fun id' _ =>
        takes_ident.bind fun name' hname => (takes_eat_other (fun heq => by cases heq)).bind ?_
      rintro _ rfl
      refine (takes_pure (Q := (· = none)) rfl).bind fun parent' hparent => ?_
      exact hend hname (by rw [hparent]) id' start
  | some parent =>
      have hwords : (Item.classDecl ⟨id, name, some parent, members, span⟩).words ++ rest =
          .keyword .classWord :: .name name.name :: .keyword .extendsWord :: .name parent.name ::
            .mark .leftBrace :: (members.flatMap ClassMember.words ++
              .mark .rightBrace :: rest) := by
        simp [Item.words]
      rw [hwords]
      refine (takes_expect rfl).bind fun start _ => takes_freshId.bind fun id' _ =>
        takes_ident.bind fun name' hname => (takes_eat rfl).bind ?_
      rintro _ rfl
      refine (Takes.map (R := fun found => found.map Ident.bare = some parent.bare)
        (takes_ident.mono fun found hfound => ?_)).bind fun parent' hparent => ?_
      · simp [Ident.bare, hfound]
      · exact hend hname hparent id' start

/-- Structs. -/
theorem takes_structDecl {decl : StructDecl} {rest : List Word} :
    Takes structDecl ((Item.structDecl decl).words ++ rest) rest
      fun found => Item.bare (.structDecl found) = Item.bare (.structDecl decl) := by
  have hwords : (Item.structDecl decl).words ++ rest =
      .keyword .structWord :: .name decl.name.name :: .mark .leftBrace ::
        (decl.fields.flatMap FieldDecl.words ++ .mark .rightBrace :: rest) := by
    simp [Item.words]
  have hbody : Takes (many closesBraces fieldDecl)
      (decl.fields.flatMap FieldDecl.words ++ .mark .rightBrace :: rest) (.mark .rightBrace :: rest)
      fun found => found.map FieldDecl.bare = decl.fields.map FieldDecl.bare :=
    takes_many rfl rfl (fun field _ behind => field.goes behind) fun field _ behind => field.takes
  rw [hwords]
  refine (takes_expect rfl).bind fun _ _ => takes_freshId.bind fun _ _ =>
    takes_ident.bind fun name hname => (takes_expect rfl).bind fun _ _ =>
      hbody.bind fun found hfound => (takes_expect rfl).bind fun _ _ => takes_pure ?_
  simp [Item.bare, Ident.bare, hname, hfound]

/-- **Items are read as they are written.** -/
theorem Item.Printable.takes {i : Item} (hi : i.Printable) {rest : List Word} :
    Takes item (i.words ++ rest) rest fun found => found.bare = i.bare := by
  refine takes_peek.bind fun token hkind => ?_
  cases i with
  | classDecl decl =>
      simp only [show token.kind = .keyword .classWord from hkind]
      exact Takes.map (takes_classDecl hi.2.2)
  | structDecl decl =>
      simp only [show token.kind = .keyword .structWord from hkind]
      exact Takes.map takes_structDecl
  | function decl =>
      have htakes : Takes (if decl.body.isExternal then externalDecl else freeFunction)
          (decl.words ++ rest) rest fun found =>
            (Item.function found).bare = (Item.function decl).bare :=
        (FunctionDecl.Printable.takes hi).mono fun found hfound => congrArg Item.function hfound
      have hwords : (Item.function decl).words = decl.words := rfl
      rw [hwords] at hkind ⊢
      rw [FunctionDecl.words] at hkind
      cases hbody : decl.body with
      | external variadic =>
          rw [hbody] at hkind htakes
          simp only [show token.kind = .keyword .externWord from hkind]
          exact Takes.map htakes
      | block body =>
          rw [hbody, List.append_assoc] at hkind
          rw [hbody] at htakes
          rcases TypeExpr.kind_cases hkind.symm with ⟨_, htype⟩ | htype
          · simp only [htype]
            exact Takes.map htakes
          · simp only [htype]
            exact Takes.map htakes

theorem Item.Printable.goes {i : Item} (hi : i.Printable) (rest : List Word) :
    (Word.firstKind (i.words ++ rest) == .eof) = false := by
  rw [beq_eq_false_iff_ne]
  intro heof
  cases i with
  | classDecl _ => cases heof
  | structDecl _ => cases heof
  | function decl =>
      rw [Item.words, FunctionDecl.words] at heof
      cases hbody : decl.body with
      | external _ =>
          rw [hbody] at heof
          cases heof
      | block _ =>
          rw [hbody, List.append_assoc] at heof
          rcases TypeExpr.kind_cases heof with ⟨_, htype⟩ | htype <;> cases htype

/-! ## Scripts -/

theorem Script.takes {script : Script} (hscript : script.Printable) :
    Takes Parser.items script.words [] fun found =>
      found.map Item.bare = script.items.map Item.bare := by
  have hitems : Takes Parser.items (script.items.flatMap Item.words ++ []) []
      fun found => found.map Item.bare = script.items.map Item.bare :=
    takes_recovering (fun _ => True) rfl rfl trivial
      (fun i hi behind => ⟨(hscript i hi).goes behind, trivial⟩)
      fun i hi behind _ _ => (hscript i hi).takes
  rwa [List.append_nil] at hitems

/-- **The parser inverts printing.**  The text of a script is read without an error, and what is
read is the script up to the numbers and the places of its nodes. -/
theorem parse_print {script : Script} (hscript : script.Printable) :
    ∃ found, parse script.print = .ok found ∧ found.bare = script.bare := by
  obtain ⟨htokens, hlexed, heof⟩ := Word.lex_spaced (Script.Printable.cuts hscript)
  have hstart : (ParserState.ofLexed (lex script.print)).Shows script.words := ⟨htokens, heof, rfl⟩
  obtain ⟨found, rest, hread, hrest, hfound⟩ := Script.takes hscript _ hstart
  have hitems : (Script.readLexed (lex script.print)).script.items = found := by
    rw [Script.readLexed, hread]
  have hnone : (Script.readLexed (lex script.print)).errors ++
      (lex script.print).errors.map .ofLexError = [] := by
    rw [Script.readLexed, hread, Script.print, hlexed]
    exact congrArg (· ++ []) hrest.errors_eq
  refine ⟨(Script.readLexed (lex script.print)).script, ?_, ?_⟩
  · simp only [parse, hnone]
  · rw [Script.bare, hitems, hfound, Script.bare]

namespace Script

/-- A name without a place. -/
def named (name : String) : Ident := ⟨name, {}⟩

/-- A script with operations in operations and in front of a dot, an assignment of an assignment, a
product of two names as a statement, one `if` in another, and text that has to be escaped. -/
def sampler : Script where
  items :=
    let a := Expr.name 0 (named "a")
    let b := Expr.name 0 (named "b")
    let minus left right := Expr.binary 0 (.arith .sub) left right {}
    let int : TypeExpr := ⟨.primitive (.int .w32), 0, {}⟩
    [.function ⟨0, int, named "puts", [⟨0, ⟨.primitive (.int .w8), 1, {}⟩, named "text", {}⟩],
        .external true, {}⟩,
      .structDecl ⟨0, named "Pair", [⟨0, int, named "first", {}⟩], {}⟩,
      .classDecl ⟨0, named "Child", some (named "Base"), [.field ⟨0, int, named "part", {}⟩,
        .method ⟨0, int, named "run", [⟨0, int, named "a", {}⟩, ⟨0, int, named "b", {}⟩], .block ⟨0,
          [.expr (.binary 0 (.arith .mul) a b {}) {},
            .varDecl 0 ⟨.named (named "Pair"), 2, {}⟩ (named "p")
              (some (.assign 0 (.member 0 (minus a b) (named "part") {})
                (.assign 0 a (.literal 0 (.int 7) {}) {}) {})) {},
            .ifElse (.binary 0 (.compare .lt) (minus a (minus b a)) (minus (minus a b) a) {})
              (.ifElse a (.ret none {}) (.block 0 [] {}) {})
              (.ifThen (.literal 0 (.bool true) {})
                (.expr (.call 0 (named "puts") [.literal 0 (.string "\"a\\b\"\n") {}, b] {}) {}) {})
              {}], {}⟩, {}⟩], {}⟩]
  span := {}
  nodeCount := 0

end Script

theorem parse_print_sampler :
    Script.sampler.print = "extern int32 puts ( int8 * text , ... ) ; " ++
        "struct Pair \x7b int32 first ; \x7d class Child extends Base \x7b int32 part ; " ++
        "int32 run ( int32 a , int32 b ) \x7b ( a * b ) ; " ++
        "Pair * * p = ( a - b ) . part = a = 7 ; " ++
        "if ( a - ( b - a ) < a - b - a ) if ( a ) return ; else \x7b \x7d " ++
        "else if ( true ) puts ( \"\\\"a\\\\b\\\"\\n\" , b ) ; \x7d \x7d" ∧
      Script.sampler.Printable ∧
      ∃ found, parse Script.sampler.print = .ok found ∧ found.bare = Script.sampler.bare := by
  have hnames : ∀ name ∈ ["puts", "text", "Pair", "first", "Child", "Base", "part", "run", "a", "b",
      "p"], (Script.named name).Printable := by
    unfold Ident.Printable IsName
    decide +kernel
  have hseven : 7 ≤ Parser.maxLiteral := by decide
  have hprintable : Script.sampler.Printable := by
    simp only [List.forall_mem_cons] at hnames
    simp [Script.sampler, Script.Printable, Item.Printable, ClassMember.Printable,
      FunctionDecl.Printable, FieldDecl.Printable, Param.Printable, TypeExpr.Printable,
      Stmt.Printable, Stmt.AllPrintable, Stmt.endsOpen, Expr.Printable, Expr.AllPrintable,
      Expr.isPlace, FunctionBody.isExternal, hnames, hseven]
  exact ⟨by decide +kernel, hprintable, parse_print hprintable⟩

end ClassLang
