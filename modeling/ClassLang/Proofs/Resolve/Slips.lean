import ClassLang.Proofs.Resolve.Hints

/-!
# An expression with a slip

In an expression that was resolved without a report, one name is replaced by one that nothing has
(`Expr.Renames`).  Both runs are the same in front of the name.  There the second run reports the
name, and goes on with the type `error`, which fits everywhere: each check that reads it says
nothing.  Only as a hint it is no substitute, for a literal that looks at it becomes an `int32`.

`Slip.Diverges` says this of two programs: from one context, the second goes astray.  It is kept
by what runs in front of the slip, and by what follows it (`Slip.Follows`).
-/

namespace ClassLang

open Analysis

/-! ## Programs with a slip -/

/-- Two programs that start in one context; the second has a slip, and goes astray by it. -/
def Slip.DivergesFrom {α : Type} (slip : Slip) (odd nodes : List NodeId) (ctx : Context)
    (m m' : Analysis α) (R : α → α → Prop) : Prop :=
  ∀ a ctx₁, m.run ctx = (a, ctx₁) → ctx₁.Clean → SameTypes slip.accepted nodes ctx₁ →
    ∃ a' ctx₁', m'.run ctx = (a', ctx₁') ∧ slip.Astray odd ctx₁ ctx₁' ∧ R a a'

/-- The same, wherever nothing has the name of the slip. -/
def Slip.Diverges {α : Type} (slip : Slip) (odd nodes : List NodeId) (m m' : Analysis α)
    (R : α → α → Prop) : Prop :=
  ∀ ctx, ctx.Lacks slip.fresh → slip.DivergesFrom odd nodes ctx m m' R

section

variable {α β : Type} {slip : Slip} {odd odd' odd₀ nodes nodes' others : List NodeId}
  {ctx : Context}
  {R R' : α → α → Prop} {S : β → β → Prop}

namespace Slip.DivergesFrom

/-- Two programs that diverge from a context diverge with more nodes and weaker answers.
-/
theorem mono {m m' : Analysis α} (h : slip.DivergesFrom odd nodes ctx m m' R) (hodd : odd ⊆ odd')
    (hnodes : nodes ⊆ nodes') (hR : ∀ a a', R a a' → R' a a') :
    slip.DivergesFrom odd' nodes' ctx m m' R' := by
  intro a ctx₁ hrun hclean htypes
  obtain ⟨a', ctx₁', hrun', h', ha⟩ := h a ctx₁ hrun hclean (htypes.mono hnodes)
  exact ⟨a', ctx₁', hrun', h'.mono hodd, hR a a' ha⟩

/-- What runs behind a slip. -/
theorem bind {m m' : Analysis α} {f f' : α → Analysis β}
    (hm : slip.DivergesFrom odd nodes ctx m m' R)
    (hf : ∀ a a', R a a' → slip.Follows odd nodes' (f a) (f' a') S)
    (hacts : ∀ a, Acts odd₀ others slip.fresh (f a)) (hapart : ∀ n ∈ nodes, n ∉ others) :
    slip.DivergesFrom odd (nodes ++ nodes') ctx (m >>= f) (m' >>= f') S := by
  intro b ctx₂ hrun hclean htypes
  obtain ⟨a, ctx₁, hfirst, hrest⟩ := run_bind_cases hrun
  have htypes₁ := (htypes.mono (List.subset_append_left _ _)).before (hacts a) hrest hapart
  obtain ⟨a', ctx₁', hfirst', h₁, ha⟩ := hm a ctx₁ hfirst ((hacts a).clean hrest hclean) htypes₁
  obtain ⟨b', ctx₂', hrest', h₂, hb⟩ := hf a a' ha ctx₁ ctx₁' b ctx₂ hrest hclean
    (htypes.mono (List.subset_append_right _ _)) h₁
  exact ⟨b', ctx₂', (run_bind_of hfirst' _).trans hrest', h₂, hb⟩

/-- What is the same program behind a slip that left no trace in the answer. -/
theorem andThen {m m' : Analysis α} {f : α → Analysis β}
    (hm : slip.DivergesFrom odd nodes ctx m m' Eq)
    (hf : ∀ a, Acts odd others slip.fresh (f a)) (hapart : ∀ n ∈ nodes, n ∉ others) :
    slip.DivergesFrom odd nodes ctx (m >>= f) (m' >>= f) Eq := by
  have hfollows : ∀ a a', a = a' → slip.Follows odd [] (f a) (f a') Eq := by
    rintro a _ rfl
    exact (hf a).follows fun _ => rfl
  exact (hm.bind hfollows hf hapart).mono (List.Subset.refl _) (by simp) fun _ _ h => h

/-- What runs in front of a slip. -/
theorem behind {m : Analysis α} {f f' : α → Analysis β}
    (hf : ∀ a ctx₁, m.run ctx = (a, ctx₁) → ctx₁.Clean →
      slip.DivergesFrom odd nodes ctx₁ (f a) (f' a) S)
    (hacts : ∀ a, Acts odd₀ others slip.fresh (f a)) :
    slip.DivergesFrom odd nodes ctx (m >>= f) (m >>= f') S := by
  intro b ctx₂ hrun hclean htypes
  obtain ⟨a, ctx₁, hfirst, hrest⟩ := run_bind_cases hrun
  obtain ⟨b', ctx₂', hrest', h'⟩ :=
    hf a ctx₁ hfirst ((hacts a).clean hrest hclean) b ctx₂ hrest hclean htypes
  exact ⟨b', ctx₂', (run_bind_of hfirst _).trans hrest', h'⟩

/-- Both programs read the same. -/
theorem read {f f' : Context → Analysis β}
    (hf : slip.DivergesFrom odd nodes ctx (f ctx) (f' ctx) S) :
    slip.DivergesFrom odd nodes ctx (get >>= f) (get >>= f') S :=
  hf

end Slip.DivergesFrom

namespace Slip.Diverges

/-- Two programs that diverge do so with more nodes and weaker answers. -/
theorem mono {m m' : Analysis α} (h : slip.Diverges odd nodes m m' R) (hodd : odd ⊆ odd')
    (hnodes : nodes ⊆ nodes') (hR : ∀ a a', R a a' → R' a a') :
    slip.Diverges odd' nodes' m m' R' :=
  fun ctx hlacks => (h ctx hlacks).mono hodd hnodes hR

/-- The slip happens in front: what follows it follows both runs. -/
theorem bind {m m' : Analysis α} {f f' : α → Analysis β} (hm : slip.Diverges odd nodes m m' R)
    (hf : ∀ a a', R a a' → slip.Follows odd nodes' (f a) (f' a') S)
    (hacts : ∀ a, Acts odd₀ others slip.fresh (f a)) (hapart : ∀ n ∈ nodes, n ∉ others) :
    slip.Diverges odd (nodes ++ nodes') (m >>= f) (m' >>= f') S :=
  fun ctx hlacks => (hm ctx hlacks).bind hf hacts hapart

/-- The slip happens in front, and what follows is the same program. -/
theorem andThen {m m' : Analysis α} {f : α → Analysis β} (hm : slip.Diverges odd nodes m m' Eq)
    (hf : ∀ a, Acts odd others slip.fresh (f a)) (hapart : ∀ n ∈ nodes, n ∉ others) :
    slip.Diverges odd nodes (m >>= f) (m' >>= f) Eq :=
  fun ctx hlacks => (hm ctx hlacks).andThen hf hapart

/-- What runs in front of a slip does not bring the name of the slip into being. -/
theorem behind {m : Analysis α} {f f' : α → Analysis β} (hm : Acts odd₀ others slip.fresh m)
    (hf : ∀ a, slip.Diverges odd nodes (f a) (f' a) S) :
    slip.Diverges odd nodes (m >>= f) (m >>= f') S := by
  intro ctx hlacks b ctx₂ hrun hclean htypes
  obtain ⟨a, ctx₁, hfirst, hrest⟩ := run_bind_cases hrun
  obtain ⟨b', ctx₂', hrest', h'⟩ :=
    hf a ctx₁ (hm.lacks hfirst hlacks) b ctx₂ hrest hclean htypes
  exact ⟨b', ctx₂', (run_bind_of hfirst _).trans hrest', h'⟩

/-- Two programs that read the context diverge where they diverge with each context that
is read. -/
theorem read {f f' : Context → Analysis β}
    (hf : ∀ ctx, slip.Diverges odd nodes (f ctx) (f' ctx) S) :
    slip.Diverges odd nodes (get >>= f) (get >>= f') S :=
  fun ctx hlacks => .read (hf ctx ctx hlacks)

/-- The answer becomes the type of a node. -/
theorem typed {find find' : Analysis Ty} {R : Ty → Ty → Prop} {id : NodeId}
    (h : slip.Diverges odd nodes find find' R) (hid : id ∉ nodes) :
    slip.Diverges odd (id :: nodes) (typed id find) (typed id find') R := by
  intro ctx hlacks ty ctx₂ hrun hclean htypes
  obtain ⟨ctx₁, hfind, rfl⟩ := run_typed_cases hrun
  have htypes₁ := (htypes.mono (List.subset_cons_self id nodes)).attachType hid
  obtain ⟨ty', ctx₁', hfind', h', hty⟩ := h ctx hlacks ty ctx₁ hfind hclean htypes₁
  exact ⟨ty', _, run_typed hfind', h'.attachType id ty ty', hty⟩

end Slip.Diverges

/-- Two programs that do nothing, as long as they have nothing to report. -/
theorem Slip.follows_silent {m m' : Analysis Unit} (hm : Does m fun ctx _ ctx₁ => ctx₁ = ctx)
    (hm' : ∀ ctx, m'.run ctx = ((), ctx)) : slip.Follows odd [] m m' Eq := by
  intro ctx ctx' a ctx₁ hrun hclean _ h
  obtain ⟨-, rfl⟩ := hm ctx a ctx₁ hrun hclean
  exact ⟨(), ctx', hm' ctx', h, rfl⟩

/-- A check that is left out. -/
theorem Slip.Follows.skip {m : Analysis Unit} {m' : Analysis β} {f : Unit → Analysis β}
    (h : slip.Follows odd nodes (f ()) m' S) (hm : Does m fun ctx _ ctx₁ => ctx₁ = ctx)
    (hacts : Acts odd₀ others slip.fresh (f ())) :
    slip.Follows odd nodes (m >>= f) m' S := by
  intro ctx ctx' b ctx₂ hrun hclean htypes hastray
  obtain ⟨_, ctx₁, hfirst, hrest⟩ := run_bind_cases hrun
  obtain ⟨-, rfl⟩ := hm ctx () ctx₁ hfirst (hacts.clean hrest hclean)
  exact h ctx₁ ctx' b ctx₂ hrest hclean htypes hastray

end

/-! ## Checks -/

/-- The type that an expression may have by a slip. -/
def Ty.Recovers (ty ty' : Ty) : Prop := ty' = .error ∨ ty' = ty

/-- The check of a type that changes nothing, and has nothing against the type `error`. -/
structure Analysis.Forgives (check : Ty → Analysis Unit) : Prop where
  keeps : ∀ ty, Does (check ty) fun ctx _ ctx₁ => ctx₁ = ctx
  error : ∀ ctx, (check .error).run ctx = ((), ctx)
  acts : ∀ odd nodes name ty, Acts odd nodes name (check ty)

/-- A check that forgives follows the slip. -/
theorem Analysis.Forgives.follows {check : Ty → Analysis Unit} (h : Forgives check) {slip : Slip}
    {odd : List NodeId} {ty ty' : Ty} (hty : ty.Recovers ty') :
    slip.Follows odd [] (check ty) (check ty') Eq := by
  rcases hty with rfl | rfl
  · exact Slip.follows_silent (h.keeps ty) h.error
  · exact (h.acts odd [] slip.fresh ty').follows fun _ => rfl

/-- A value that is stored. -/
theorem forgives_checkAssignable (target : Ty) (span : Span) :
    Forgives fun ty => checkAssignable ty target span where
  keeps ty := (does_checkAssignable ty target span).mono fun _ _ _ h => h.1
  error ctx := by
    simp only [checkAssignable, Ty.isAssignableTo, if_true]
    rfl
  acts _ _ _ ty := acts_checkAssignable ty target span

/-- Every type may be stored in one that is unknown. -/
theorem Ty.isAssignableTo_error (ty : Ty) : ty.isAssignableTo .error = true := by
  cases ty <;> rfl

/-- Anything can be stored in what is unknown. -/
theorem run_checkAssignable_error (ty : Ty) (span : Span) (ctx : Context) :
    (checkAssignable ty .error span).run ctx = ((), ctx) := by
  simp only [checkAssignable, Ty.isAssignableTo_error, if_true]
  rfl

/-- A condition that is a `bool` or unknown is accepted without a word. -/
theorem run_expectBool {ty : Ty} (h : (ty.isBool || ty.isError) = true) (what : String)
    (span : Span) (ctx : Context) : (expectBool ty what span).run ctx = ((), ctx) := by
  simp only [expectBool, h, if_true]
  rfl

/-- A condition. -/
theorem forgives_expectBool (what : String) (span : Span) :
    Forgives fun ty => expectBool ty what span where
  keeps ty := (does_expectBool ty what span).mono fun _ _ _ h => h.1
  error := run_expectBool rfl what span
  acts _ _ _ ty := acts_expectBool ty what span

/-- Nothing is known about what is assigned to. -/
theorem Expr.run_checkTarget_error (target : Expr) (ctx : Context) :
    (target.checkTarget .error).run ctx = ((), ctx) := by
  cases target with
  | name id ident =>
      simp only [checkTarget, Ty.isPointer, Bool.and_false, Bool.false_eq_true, if_false]
      rfl
  | _ => rfl

namespace Expr

variable {slip : Slip} {odd : List NodeId}

/-- The check of an argument, whose parameter may be missing. -/
def checkArgument (param : Option Ty) (actual : Ty) (span : Span) : Analysis Unit :=
  match param with
  | some param => Analysis.checkAssignable actual param span
  | none => if actual.isVoid then Analysis.mismatch .voidArgument span else pure ()

/-- The check of an argument forgives. -/
theorem forgives_checkArgument (param : Option Ty) (span : Span) :
    Forgives fun ty => checkArgument param ty span := by
  cases param with
  | some param => exact forgives_checkAssignable param span
  | none =>
      refine ⟨fun ty => ?_, fun ctx => rfl, fun odd nodes name ty => ?_⟩
      · unfold checkArgument
        dsimp only
        split
        · exact (does_mismatch _ _).never
        · exact (does_pure ()).mono fun ctx _ ctx₁ h => h.2
      · unfold checkArgument
        dsimp only
        split
        · exact acts_mismatch _ _
        · exact acts_pure ()

/-- The first argument is resolved and checked against the first parameter, then the
others against the others. -/
theorem resolveArguments_cons (scope : ScopeId) (params : List Ty) (arg : Expr) (rest : List Expr) :
    resolveArguments scope params (arg :: rest) = (do
      let actual ← arg.resolve scope params.head?
      checkArgument params.head? actual arg.span
      resolveArguments scope params.tail rest) := by
  cases params with
  | cons param params =>
      simp only [resolveArguments, checkArgument, List.head?_cons, List.tail_cons]
  | nil =>
      simp only [resolveArguments, checkArgument, List.head?_nil, List.tail_nil]
      congr 1
      funext actual
      split <;> simp

/-- **An operator with an operand that cannot be resolved.** -/
theorem follows_checkOperator {a b : Expr} {l l' r r' : Ty}
    (hl : a.Loosens slip.accepted l l') (hr : b.Loosens slip.accepted r r')
    (herror : (l'.isError || r'.isError) = true) (op : BinaryOp) (leftSpan rightSpan span : Span) :
    slip.Follows odd [] (checkOperator op l r leftSpan rightSpan span)
      (checkOperator op l' r' leftSpan rightSpan span) Ty.Recovers := by
  have hbool : ∀ {e : Expr} {ty ty' : Ty}, e.Loosens slip.accepted ty ty' →
      (ty.isBool || ty.isError) = true → (ty'.isBool || ty'.isError) = true := by
    intro e ty ty' hloosens h
    have hinteger : ty.isInteger = false := by
      cases ty with
      | primitive p =>
          cases p <;> simp_all [Ty.isBool, Ty.isError, Ty.isInteger, Primitive.isInteger]
      | _ => rfl
    rcases hloosens.cases_of_not_integer hinteger with rfl | rfl
    · exact h
    · rfl
  intro ctx ctx' ty ctx₁ hrun hclean _ h
  cases op with
  | or | and =>
      obtain ⟨-, _, _, ⟨rfl, hl'⟩, _, _, ⟨rfl, hr'⟩, rfl, rfl⟩ :=
        ((does_expectBool l _ leftSpan).bind fun _ => (does_expectBool r _ rightSpan).bind
          fun _ => does_pure Ty.bool) ctx ty ctx₁ hrun hclean
      refine ⟨.bool, ctx', ?_, h, .inr rfl⟩
      refine (run_bind_of (run_expectBool (hbool hl hl') _ leftSpan ctx') _).trans ?_
      exact run_bind_of (run_expectBool (hbool hr hr') _ rightSpan ctx') _
  | arith op =>
      obtain ⟨-, rfl, -⟩ := does_integerPair l r op.text span ctx ty ctx₁ hrun hclean
      exact ⟨.error, ctx', run_integerPair_error herror op.text span ctx', h, .inl rfl⟩
  | compare op =>
      have hdoes := (does_integerPair l r op.text span).bind fun _ => does_pure Ty.bool
      obtain ⟨-, _, _, ⟨rfl, -⟩, rfl, rfl⟩ := hdoes ctx ty ctx₁ hrun hclean
      exact ⟨.bool, ctx', run_bind_of (run_integerPair_error herror op.text span ctx') _, h,
        .inr rfl⟩

/-- **Arguments about which nothing is known any more.** -/
theorem follows_resolveAll (scope : ScopeId) : (params : List Ty) → (args : List Expr) →
    (nodesOfAll args).Nodup → (∀ n ∈ nodesOfAll args, n ∉ odd) →
    subexprsOfAll args ⊆ slip.old.subexprs →
    slip.Follows odd (nodesOfAll args) (resolveArguments scope params args)
      (resolveAll scope args) Eq
  | params, [], _, _, _ => by
      simp only [resolveArguments, resolveAll]
      have hacts : Acts odd [] slip.fresh (pure () : Analysis Unit) := acts_pure ()
      exact hacts.follows fun _ => rfl
  | params, arg :: rest, hnodes, hodd, hsub => by
      rw [nodesOfAll_cons] at hnodes hodd ⊢
      simp only [subexprsOfAll, List.append_subset] at hsub
      obtain ⟨harg, hrest, hapart⟩ := List.nodup_append.1 hnodes
      have hoddr : ∀ n ∈ nodesOfAll rest, n ∉ odd := fun n hn => hodd n (List.mem_append_right _ hn)
      have hfollows := follows_resolveAll scope params.tail rest hrest hoddr hsub.2
      have hacts : Acts odd (nodesOfAll rest) slip.fresh
          (resolveArguments scope params.tail rest) :=
        acts_resolveArguments scope params.tail rest hoddr
      have hcheck := forgives_checkArgument params.head? arg.span
      have hfirst := arg.follows_loosened scope harg
        (fun n hn => hodd n (List.mem_append_left _ hn)) hsub.1 params.head? none (.inr rfl)
      have hchecked := fun ty => (hcheck.acts odd (nodesOfAll rest) slip.fresh ty).bind fun _ =>
        hacts
      rw [resolveArguments_cons]
      simp only [resolveAll]
      exact hfirst.bind (fun ty ty' _ => hfollows.skip (hcheck.keeps ty) hacts) hchecked
        fun n hn hn' => hapart n hn n hn' rfl

end Expr

/-! ## Operands and arguments with a slip -/

namespace Slip.Diverges

variable {slip : Slip} {scope : ScopeId}

/-- The slip is in the operand that is resolved first. -/
theorem first {a a' b : Expr} {hint : Option Ty}
    (ha : slip.Diverges a.nodes a.nodes (a.resolve scope hint) (a'.resolve scope hint) Ty.Recovers)
    (hb : b.nodes.Nodup) (hsub : b.subexprs ⊆ slip.old.subexprs)
    (hapart : ∀ n ∈ a.nodes, n ∉ b.nodes) (check : Ty → Ty → Analysis Ty)
    (hcheck : ∀ s t t', b.Loosens slip.accepted t t' →
      slip.Follows a.nodes [] (check s t) (check .error t') Ty.Recovers)
    (hacts : ∀ s t, Acts a.nodes [] slip.fresh (check s t)) :
    slip.Diverges a.nodes (a.nodes ++ b.nodes)
      (do let s ← a.resolve scope hint; let t ← b.resolve scope (some s); check s t)
      (do let s ← a'.resolve scope hint; let t ← b.resolve scope (some s); check s t)
      Ty.Recovers := by
  have hodd : ∀ n ∈ b.nodes, n ∉ a.nodes := fun n hn hn' => hapart n hn' hn
  have hrest : ∀ s, Acts a.nodes b.nodes slip.fresh
      (do let t ← b.resolve scope (some s); check s t) := fun s =>
    (b.acts_resolve scope _ hodd).bind fun t => (hacts s t).mono (List.nil_subset _)
  refine ha.bind (fun s s' hs => ?_) hrest hapart
  rcases hs with rfl | rfl
  · have hloosened := b.follows_loosened scope hb hodd hsub (some s) (some .error) (.inr rfl)
    rw [← List.append_nil b.nodes]
    exact hloosened.bind (fun t t' ht => hcheck s t t' ht) (hacts s) (by simp)
  · exact ((hrest s').follows fun _ => .inr rfl).mono (List.nil_subset _) fun _ _ h => h

/-- The slip is in the operand that is resolved second. -/
theorem second {b b' : Expr}
    (hb : ∀ hint, slip.Diverges b.nodes b.nodes (b.resolve scope hint) (b'.resolve scope hint)
      Ty.Recovers) (a : Expr) (hint : Option Ty) (check : Ty → Ty → Analysis Ty)
    (hcheck : ∀ s t, slip.Follows b.nodes [] (check s t) (check s .error) Ty.Recovers)
    (hacts : ∀ s t, Acts b.nodes [] slip.fresh (check s t)) :
    slip.Diverges b.nodes b.nodes
      (do let s ← a.resolve scope hint; let t ← b.resolve scope (some s); check s t)
      (do let s ← a.resolve scope hint; let t ← b'.resolve scope (some s); check s t)
      Ty.Recovers := by
  have hfirst : Acts [] a.nodes slip.fresh (a.resolve scope hint) :=
    a.acts_resolve scope hint (by simp)
  refine behind hfirst fun s => ?_
  rw [← List.append_nil b.nodes]
  refine ((hb (some s)).mono (by simp) (List.Subset.refl _) fun _ _ h => h).bind
    (fun t t' ht => ?_) (hacts s) (by simp)
  rw [List.append_nil]
  rcases ht with rfl | rfl
  · exact hcheck s t
  · exact (hacts s t').follows fun _ => .inr rfl

section

variable {e e' : Expr} {hint : Option Ty} {check : Ty → Analysis Unit}

/-- A check of what has a slip. -/
theorem checked
    (h : slip.Diverges e.nodes e.nodes (e.resolve scope hint) (e'.resolve scope hint) Ty.Recovers)
    (hcheck : Forgives check) :
    slip.Diverges e.nodes e.nodes (do check (← e.resolve scope hint))
      (do check (← e'.resolve scope hint)) Eq := by
  have hacts : ∀ ty, Acts [] [] slip.fresh (check ty) := hcheck.acts [] [] slip.fresh
  exact (h.bind (fun ty ty' hty => hcheck.follows hty) hacts (by simp)).mono (List.Subset.refl _)
    (by simp) fun _ _ h => h

/-- A check of what has a slip, and what follows it. -/
theorem checkedThen {β : Type}
    (h : slip.Diverges e.nodes e.nodes (e.resolve scope hint) (e'.resolve scope hint) Ty.Recovers)
    (hcheck : Forgives check) {rest : Analysis β} {others : List NodeId}
    (hrest : Acts e.nodes others slip.fresh rest) (hapart : ∀ n ∈ e.nodes, n ∉ others) :
    slip.Diverges e.nodes e.nodes (do check (← e.resolve scope hint); rest)
      (do check (← e'.resolve scope hint); rest) Eq := by
  have hboth := (h.checked hcheck).andThen (fun _ => hrest) hapart
  simpa only [bind_assoc] using hboth

end

end Slip.Diverges

namespace Expr

variable {slip : Slip} {scope : ScopeId}

/-- Arguments are resolved one part behind the other. -/
theorem resolveAll_append (scope : ScopeId) (before rest : List Expr) :
    resolveAll scope (before ++ rest) = (do resolveAll scope before; resolveAll scope rest) := by
  induction before with
  | nil => simp [resolveAll]
  | cons arg before ih => simp [resolveAll, ih]

/-- Arguments with their parameters are resolved one part behind the other. -/
theorem resolveArguments_append (scope : ScopeId) (params : List Ty) (before rest : List Expr) :
    resolveArguments scope params (before ++ rest) = (do
      resolveArguments scope params before
      resolveArguments scope (params.drop before.length) rest) := by
  induction before generalizing params with
  | nil => simp [resolveArguments]
  | cons arg before ih =>
      rw [List.cons_append, resolveArguments_cons, resolveArguments_cons, ih]
      simp

/-- The slip is in an argument about which nothing is known. -/
theorem diverges_resolveAll {arg arg' : Expr} {before after : List Expr}
    (harg : slip.Diverges arg.nodes arg.nodes (arg.resolve scope none) (arg'.resolve scope none)
      Ty.Recovers)
    (hapart : ∀ n ∈ arg.nodes, n ∉ nodesOfAll after) :
    slip.Diverges arg.nodes arg.nodes (resolveAll scope (before ++ arg :: after))
      (resolveAll scope (before ++ arg' :: after)) Eq := by
  have hbefore : Acts [] (nodesOfAll before) slip.fresh (resolveAll scope before) :=
    acts_resolveAll scope before (by simp)
  have hafter : Acts arg.nodes (nodesOfAll after) slip.fresh (resolveAll scope after) :=
    acts_resolveAll scope after fun n hn hn' => hapart n hn' hn
  rw [resolveAll_append, resolveAll_append]
  simp only [resolveAll]
  refine .behind hbefore fun _ => ?_
  have hfollows : slip.Follows arg.nodes [] (resolveAll scope after) (resolveAll scope after) Eq :=
    hafter.follows fun _ => rfl
  exact (harg.bind (fun _ _ _ => hfollows) (fun _ => hafter) hapart).mono (List.Subset.refl _)
    (by simp) fun _ _ h => h

/-- The slip is in an argument. -/
theorem diverges_resolveArguments {arg arg' : Expr} {before after : List Expr} (params : List Ty)
    (harg : ∀ hint, slip.Diverges arg.nodes arg.nodes (arg.resolve scope hint)
      (arg'.resolve scope hint) Ty.Recovers)
    (hspan : arg'.span = arg.span) (hapart : ∀ n ∈ arg.nodes, n ∉ nodesOfAll after) :
    slip.Diverges arg.nodes arg.nodes (resolveArguments scope params (before ++ arg :: after))
      (resolveArguments scope params (before ++ arg' :: after)) Eq := by
  have hbefore : Acts [] (nodesOfAll before) slip.fresh (resolveArguments scope params before) :=
    acts_resolveArguments scope params before (by simp)
  have hafter : ∀ params, Acts arg.nodes (nodesOfAll after) slip.fresh
      (resolveArguments scope params after) := fun params =>
    acts_resolveArguments scope params after fun n hn hn' => hapart n hn' hn
  rw [resolveArguments_append, resolveArguments_append]
  simp only [resolveArguments_cons, hspan]
  refine .behind hbefore fun _ => ?_
  exact (harg _).checkedThen (forgives_checkArgument _ arg.span) (hafter _) hapart

/-! ## Renaming -/

/-- In an expression, one name is replaced by another one; all numbers and places stay. -/
inductive Renames (ident : Ident) (fresh : String) : Expr → Expr → Prop
  | name (id : NodeId) : Renames ident fresh (.name id ident) (.name id ⟨fresh, ident.span⟩)
  | left {id : NodeId} {op : BinaryOp} {left left' right : Expr} {span : Span}
      (h : Renames ident fresh left left') :
      Renames ident fresh (.binary id op left right span) (.binary id op left' right span)
  | right {id : NodeId} {op : BinaryOp} {left right right' : Expr} {span : Span}
      (h : Renames ident fresh right right') :
      Renames ident fresh (.binary id op left right span) (.binary id op left right' span)
  | target {id : NodeId} {target target' value : Expr} {span : Span}
      (h : Renames ident fresh target target') :
      Renames ident fresh (.assign id target value span) (.assign id target' value span)
  | value {id : NodeId} {target value value' : Expr} {span : Span}
      (h : Renames ident fresh value value') :
      Renames ident fresh (.assign id target value span) (.assign id target value' span)
  | argument {id : NodeId} {callee : Ident} {before after : List Expr} {arg arg' : Expr}
      {span : Span} (h : Renames ident fresh arg arg') :
      Renames ident fresh (.call id callee (before ++ arg :: after) span)
        (.call id callee (before ++ arg' :: after) span)
  | receiver {id : NodeId} {receiver receiver' : Expr} {callee : Ident} {args : List Expr}
      {span : Span} (h : Renames ident fresh receiver receiver') :
      Renames ident fresh (.methodCall id receiver callee args span)
        (.methodCall id receiver' callee args span)
  | methodArgument {id : NodeId} {receiver : Expr} {callee : Ident} {before after : List Expr}
      {arg arg' : Expr} {span : Span} (h : Renames ident fresh arg arg') :
      Renames ident fresh (.methodCall id receiver callee (before ++ arg :: after) span)
        (.methodCall id receiver callee (before ++ arg' :: after) span)
  | object {id : NodeId} {object object' : Expr} {member : Ident} {span : Span}
      (h : Renames ident fresh object object') :
      Renames ident fresh (.member id object member span) (.member id object' member span)

namespace Renames

variable {ident : Ident} {fresh : String} {e e' : Expr}

/-- Neither the expression nor the one with a new name is a literal. -/
theorem isIntLiteral (h : e.Renames ident fresh e') :
    e.isIntLiteral = false ∧ e'.isIntLiteral = false := by
  cases h <;> exact ⟨rfl, rfl⟩

/-- A place stays a place under a new name. -/
theorem isPlace (h : e.Renames ident fresh e') : e'.isPlace = e.isPlace := by
  cases h <;> rfl

/-- The new name stands where the old one stood. -/
theorem span (h : e.Renames ident fresh e') : e'.span = e.span := by
  cases h <;> rfl

end Renames

/-- The type that an expression may have by a slip in it.  If it is the same, then the slip is
not the expression itself, and there is no target to check. -/
def Recovers (e' : Expr) (ty ty' : Ty) : Prop :=
  ty' = .error ∨ ty' = ty ∧ ∀ s, e'.checkTarget s = pure ()

/-- What an expression recovers with is a type it may have by a slip. -/
theorem Recovers.recovers {e' : Expr} {ty ty' : Ty} (h : e'.Recovers ty ty') : ty.Recovers ty' :=
  h.imp_right And.left

/-- What is no target recovers with every type that recovers. -/
theorem recovers_of {e' : Expr} (h : ∀ s, e'.checkTarget s = pure ()) {ty ty' : Ty}
    (hty : ty.Recovers ty') : e'.Recovers ty ty' :=
  hty.imp_right fun hsame => ⟨hsame, h⟩

/-- Resolving an expression with a slip goes astray by it, whatever its surroundings expect. -/
def DivergesTo (slip : Slip) (scope : ScopeId) (e e' : Expr) : Prop :=
  ∀ hint, slip.Diverges e.nodes e.nodes (e.resolve scope hint) (e'.resolve scope hint) e'.Recovers

/-- An expression that goes astray has a type that recovers. -/
theorem DivergesTo.recovers {e e' : Expr} (h : e.DivergesTo slip scope e') (hint : Option Ty) :
    slip.Diverges e.nodes e.nodes (e.resolve scope hint) (e'.resolve scope hint) Ty.Recovers :=
  (h hint).mono (List.Subset.refl _) (List.Subset.refl _) fun _ _ h => h.recovers

/-- The type of an expression that is no target. -/
theorem diverges_typed {id : NodeId} {nodes : List NodeId} {find find' : Analysis Ty} {e' : Expr}
    (hfind : slip.Diverges (id :: nodes) nodes find find' Ty.Recovers) (hid : id ∉ nodes)
    (htarget : ∀ s, e'.checkTarget s = pure ()) :
    slip.Diverges (id :: nodes) (id :: nodes) (typed id find) (typed id find') e'.Recovers :=
  (hfind.typed hid).mono (List.Subset.refl _) (List.Subset.refl _) fun _ _ h =>
    recovers_of htarget h

/-- **The slip itself is reported.** -/
theorem divergesTo_name (id : NodeId) :
    (Expr.name id slip.ident).DivergesTo slip scope (.name id ⟨slip.fresh, slip.ident.span⟩) := by
  intro hint ctx hlacks ty ctx₂ hrun hclean _
  simp only [resolve] at hrun ⊢
  obtain ⟨ctx₁, hvalue, rfl⟩ := run_typed_cases hrun
  have hslip : ((⟨slip.fresh, slip.ident.span⟩ : Ident).resolveValue id scope).run ctx =
      (.error, (Deed.report (.unresolved slip.fresh slip.ident.span)).apply ctx) := by
    simp [Ident.resolveValue, hlacks.lookupName? scope]
    rfl
  have hastray : slip.Astray [id] ctx₁
      ((Deed.report (.unresolved slip.fresh slip.ident.span)).apply ctx) := by
    obtain ⟨-, ⟨-, rfl, -⟩ | ⟨symbol, -, -, -, rfl⟩⟩ :=
      does_resolveValue slip.ident id scope ctx ty ctx₁ hvalue hclean
    · exact ⟨⟨rfl, rfl, rfl, fun _ _ => rfl⟩, [], by simp, rfl⟩
    · refine ⟨⟨rfl, rfl, rfl, fun n hn => ?_⟩, [], by simp, rfl⟩
      rw [List.mem_singleton] at hn
      simp [Bindings.symbol?_bindSymbol, hn, Deed.apply]
  exact ⟨.error, _, run_typed hslip, hastray.attachType id ty .error, .inl rfl⟩

section

variable {id : NodeId} {op : BinaryOp} {left left' right right' : Expr} {span : Span}

/-- A slip in the left operand goes astray in the whole operation. -/
theorem divergesTo_left (h : left.Renames slip.ident slip.fresh left')
    (hleft : left.DivergesTo slip scope left') (hsub : right.subexprs ⊆ slip.old.subexprs)
    (hnodes : (Expr.binary id op left right span).nodes.Nodup) :
    (Expr.binary id op left right span).DivergesTo slip scope (.binary id op left' right span) := by
  intro hint
  simp only [nodes_binary, List.nodup_cons, List.nodup_append] at hnodes
  obtain ⟨hid, -, hright, hapart⟩ := hnodes
  have hfind := Slip.Diverges.first (hleft.recovers (operandHint op hint)) hright hsub
    (fun n hn hn' => hapart n hn n hn' rfl)
    (fun s t => checkOperator op s t left.span right.span span)
    (fun s t t' ht => follows_checkOperator (a := left) .error ht rfl op _ _ span)
    fun s t => acts_checkOperator op s t _ _ span
  rw [nodes_binary, resolve_binary (by simp [h.isIntLiteral]),
    resolve_binary (by simp [h.isIntLiteral]), h.span]
  exact diverges_typed (hfind.mono (by grind) (List.Subset.refl _) fun _ _ h => h) hid fun _ => rfl

/-- A slip in the right operand goes astray in the whole operation. -/
theorem divergesTo_right (h : right.Renames slip.ident slip.fresh right')
    (hright : right.DivergesTo slip scope right') (hsub : left.subexprs ⊆ slip.old.subexprs)
    (hnodes : (Expr.binary id op left right span).nodes.Nodup) :
    (Expr.binary id op left right span).DivergesTo slip scope (.binary id op left right' span) := by
  intro hint
  simp only [nodes_binary, List.nodup_cons, List.nodup_append] at hnodes
  obtain ⟨hid, hleft, -, hapart⟩ := hnodes
  rw [nodes_binary]
  cases horder : left.isIntLiteral with
  | true =>
      have hfind := Slip.Diverges.first (hright.recovers (operandHint op hint)) hleft hsub
        (fun n hn hn' => hapart n hn' n hn rfl)
        (fun s t => checkOperator op t s left.span right.span span)
        (fun s t t' ht => follows_checkOperator (b := right) ht .error (by simp [Ty.isError])
          op _ _ span)
        fun s t => acts_checkOperator op t s _ _ span
      rw [resolve_binary_swapped (by simp [horder, h.isIntLiteral]),
        resolve_binary_swapped (by simp [horder, h.isIntLiteral]), h.span]
      exact diverges_typed (hfind.mono (by grind) (by grind) fun _ _ h => h) hid fun _ => rfl
  | false =>
      have hfind := Slip.Diverges.second hright.recovers left (operandHint op hint)
        (fun s t => checkOperator op s t left.span right.span span)
        (fun s t => follows_checkOperator (a := left) (b := right) .same .error
          (by simp [Ty.isError]) op _ _ span)
        fun s t => acts_checkOperator op s t _ _ span
      rw [resolve_binary (by simp [horder]), resolve_binary (by simp [horder]), h.span]
      exact diverges_typed (hfind.mono (by grind) (by grind) fun _ _ h => h) hid fun _ => rfl

end

/-- A value is resolved and stored in what has a certain type. -/
def resolveStored (scope : ScopeId) (value : Expr) (targetType : Ty) : Analysis Ty := do
  let valueType ← value.resolve scope (some targetType)
  Analysis.checkAssignable valueType targetType value.span
  return Ty.void

/-- Resolving and storing a value touches the nodes of the value only. -/
theorem acts_resolveStored {odd : List NodeId} {name : String} {value : Expr}
    (hodd : ∀ n ∈ value.nodes, n ∉ odd) (targetType : Ty) :
    Acts odd value.nodes name (resolveStored scope value targetType) :=
  (value.acts_resolve scope _ hodd).bind fun _ =>
    (acts_checkAssignable _ _ _).bind fun _ => acts_pure _

section

variable {id : NodeId} {target target' value value' : Expr} {span : Span}

/-- A value is stored in something that may be unknown by a slip. -/
theorem follows_resolveStored {odd : List NodeId} (hnodes : value.nodes.Nodup)
    (hodd : ∀ n ∈ value.nodes, n ∉ odd) (hsub : value.subexprs ⊆ slip.old.subexprs) {ty ty' : Ty}
    (hty : ty.Recovers ty') : slip.Follows odd value.nodes (resolveStored scope value ty)
      (resolveStored scope value ty') Ty.Recovers := by
  rcases hty with rfl | rfl
  · have hvoid : Acts odd [] slip.fresh (pure Ty.void : Analysis Ty) := acts_pure _
    have hstored : ∀ s s', slip.Follows odd ([] ++ [])
        (do checkAssignable s ty value.span; return Ty.void)
        (do checkAssignable s' .error value.span; return Ty.void) Ty.Recovers := fun s s' =>
      (Slip.follows_silent ((does_checkAssignable s ty value.span).mono fun _ _ _ h => h.1)
        (run_checkAssignable_error s' value.span)).bind
        (fun _ _ _ => hvoid.follows fun _ => .inr rfl) (fun _ => hvoid) (by simp)
    have hloosened :=
      value.follows_loosened scope hnodes hodd hsub (some ty) (some .error) (.inr rfl)
    have hbind := hloosened.bind (fun s s' _ => hstored s s')
      (fun s => (acts_checkAssignable s ty value.span).bind fun _ => hvoid) (by simp)
    exact hbind.mono (by simp) fun _ _ h => h
  · have hacts : Acts odd value.nodes slip.fresh (resolveStored scope value ty') :=
      acts_resolveStored hodd ty'
    exact (hacts.follows fun _ => .inr rfl).mono (List.nil_subset _) fun _ _ h => h

/-- A slip in the target goes astray in the whole assignment. -/
theorem divergesTo_target (htarget : target.DivergesTo slip scope target')
    (hsub : value.subexprs ⊆ slip.old.subexprs)
    (hnodes : (Expr.assign id target value span).nodes.Nodup) :
    (Expr.assign id target value span).DivergesTo slip scope (.assign id target' value span) := by
  intro hint
  simp only [nodes_assign, List.nodup_cons, List.nodup_append] at hnodes
  obtain ⟨hid, -, hvalue, hapart⟩ := hnodes
  have hodd : ∀ n ∈ value.nodes, n ∉ target.nodes := fun n hn hn' => hapart n hn' n hn rfl
  have hstored : ∀ s, Acts target.nodes value.nodes slip.fresh (resolveStored scope value s) :=
    acts_resolveStored hodd
  have hrest : ∀ s s', target'.Recovers s s' → slip.Follows target.nodes value.nodes
      (do target.checkTarget s; resolveStored scope value s)
      (do target'.checkTarget s'; resolveStored scope value s') Ty.Recovers := by
    intro s s' hs
    have hcheck : slip.Follows target.nodes [] (target.checkTarget s)
        (target'.checkTarget s') Eq := by
      apply Slip.follows_silent ((does_checkTarget target s).mono fun _ _ _ h => h.1)
      intro ctx
      rcases hs with rfl | ⟨-, hpure⟩
      · exact run_checkTarget_error target' ctx
      · rw [hpure]
        rfl
    exact hcheck.bind (fun _ _ _ => follows_resolveStored hvalue hodd hsub hs.recovers)
      (fun _ => hstored s) (by simp)
  have hchecked : ∀ s, Acts [] value.nodes slip.fresh
      (do target.checkTarget s; resolveStored scope value s) := fun s =>
    (acts_checkTarget (by simp) s).bind fun _ => acts_resolveStored (by simp) s
  have hfind := (htarget none).bind hrest hchecked fun n hn hn' => hapart n hn n hn' rfl
  rw [nodes_assign]
  exact diverges_typed (hfind.mono (by grind) (List.Subset.refl _) fun _ _ h => h) hid fun _ => rfl

/-- A slip in the value goes astray in the whole assignment. -/
theorem divergesTo_value (hvalue : value.DivergesTo slip scope value')
    (hspan : value'.span = value.span) (hnodes : (Expr.assign id target value span).nodes.Nodup) :
    (Expr.assign id target value span).DivergesTo slip scope (.assign id target value' span) := by
  intro hint
  rw [nodes_assign, List.nodup_cons] at hnodes
  have hvoid : Acts value.nodes [] slip.fresh (pure Ty.void : Analysis Ty) := acts_pure _
  have htarget : Acts [] target.nodes slip.fresh (target.resolve scope none) :=
    target.acts_resolve scope none (by simp)
  have hchecked : ∀ s, Acts [] [] slip.fresh (target.checkTarget s) := acts_checkTarget (by simp)
  have hfind := Slip.Diverges.behind htarget fun s => Slip.Diverges.behind (hchecked s) fun _ =>
    (hvalue.recovers (some s)).checkedThen (forgives_checkAssignable s value.span) hvoid (by simp)
  rw [nodes_assign]
  simp only [resolve, hspan]
  exact diverges_typed (hfind.mono (by grind) (by grind) fun _ _ h => .inr h.symm) hnodes.1
    fun _ => rfl

end

/-! Calls and members -/

section

variable {id : NodeId} {callee member : Ident} {receiver receiver' object object' arg arg' : Expr}
  {before after args : List Expr} {span : Span}

/-- A function with its arguments: what a call does when it knows what it stands for. -/
def resolveGiven (scope : ScopeId) (args : List Expr) : Option (List Ty × Ty) → Analysis Ty
  | some (params, result) => do resolveArguments scope params args; return result
  | none => do resolveAll scope args; return .error

/-- Resolving the arguments touches the nodes of the arguments only. -/
theorem acts_resolveGiven {odd : List NodeId} {name : String}
    (hodd : ∀ n ∈ nodesOfAll args, n ∉ odd) (found : Option (List Ty × Ty)) :
    Acts odd (nodesOfAll args) name (resolveGiven scope args found) := by
  cases found with
  | none => exact (acts_resolveAll scope args hodd).bind fun _ => acts_pure _
  | some found => exact (acts_resolveArguments scope _ args hodd).bind fun _ => acts_pure _

/-- The slip is in an argument, whatever is known about the function. -/
theorem diverges_resolveGiven (harg : arg.DivergesTo slip scope arg') (hspan : arg'.span = arg.span)
    (hapart : ∀ n ∈ arg.nodes, n ∉ nodesOfAll after) (before : List Expr)
    (found : Option (List Ty × Ty)) :
    slip.Diverges arg.nodes arg.nodes (resolveGiven scope (before ++ arg :: after) found)
      (resolveGiven scope (before ++ arg' :: after) found) Ty.Recovers := by
  have hsame : slip.Diverges arg.nodes arg.nodes (resolveGiven scope (before ++ arg :: after) found)
      (resolveGiven scope (before ++ arg' :: after) found) Eq := by
    cases found with
    | none =>
        exact (diverges_resolveAll (harg.recovers none) hapart).andThen
          (fun _ => acts_pure Ty.error)
          fun n _ => List.not_mem_nil
    | some found =>
        exact (diverges_resolveArguments found.1 harg.recovers hspan hapart).andThen
          (fun _ => acts_pure found.2) fun n _ => List.not_mem_nil
  exact hsame.mono (List.Subset.refl _) (List.Subset.refl _) fun _ _ h => .inr h.symm

/-- A call looks its callee up, and then resolves what it has been given. -/
theorem resolve_call (scope : ScopeId) (hint : Option Ty) (id : NodeId) (callee : Ident)
    (args : List Expr) (span : Span) :
    (Expr.call id callee args span).resolve scope hint = (typed id do
      let target := (← get).lookupName? scope callee.name
      resolveGiven scope args (← callee.resolveCall id target args.length span)) := by
  simp only [resolve]
  rfl

/-- What a call of a method does once its receiver has a type. -/
def resolveReceived (scope : ScopeId) (id : NodeId) (callee : Ident) (args : List Expr)
    (span : Span) (receiverType : Ty) : Analysis Ty := do
  match ← callee.resolveMethod receiverType with
  | none => resolveGiven scope args none
  | some target => resolveGiven scope args (← callee.resolveCall id target args.length span)

/-- A call of a method resolves its receiver, and then what the receiver takes. -/
theorem resolve_methodCall (scope : ScopeId) (hint : Option Ty) (id : NodeId) (receiver : Expr)
    (callee : Ident) (args : List Expr) (span : Span) :
    (Expr.methodCall id receiver callee args span).resolve scope hint = (typed id do
      resolveReceived scope id callee args span (← receiver.resolve scope none)) := by
  simp only [resolve]
  rfl

/-- What follows a receiver touches the nodes of the arguments only. -/
theorem acts_resolveReceived {odd : List NodeId} {name : String}
    (hodd : ∀ n ∈ nodesOfAll args, n ∉ odd) (receiverType : Ty) : Acts odd (nodesOfAll args) name
      (resolveReceived scope id callee args span receiverType) := by
  refine (callee.acts_resolveMethod receiverType).bind fun target => ?_
  cases target with
  | none => exact acts_resolveGiven hodd none
  | some target => exact (callee.acts_resolveCall id target _ span).bind (acts_resolveGiven hodd)

/-- The expressions inside two lists are those of the one and of the other. -/
theorem subexprsOfAll_append (before after : List Expr) :
    subexprsOfAll (before ++ after) = subexprsOfAll before ++ subexprsOfAll after := by
  induction before with
  | nil => rfl
  | cons e before ih => simp [subexprsOfAll, ih]

/-- The nodes of two lists are those of the one and of the other. -/
theorem nodesOfAll_append (before after : List Expr) :
    nodesOfAll (before ++ after) = nodesOfAll before ++ nodesOfAll after := by
  simp [nodesOfAll, subexprsOfAll_append]

/-- The slip is in an argument of a function. -/
theorem divergesTo_argument (harg : arg.DivergesTo slip scope arg') (hspan : arg'.span = arg.span)
    (hnodes : (Expr.call id callee (before ++ arg :: after) span).nodes.Nodup) :
    (Expr.call id callee (before ++ arg :: after) span).DivergesTo slip scope
      (.call id callee (before ++ arg' :: after) span) := by
  intro hint
  have hlength : (before ++ arg' :: after).length = (before ++ arg :: after).length := by simp
  simp only [nodes_call, nodesOfAll_append, nodesOfAll_cons, List.nodup_cons, List.nodup_append]
    at hnodes
  obtain ⟨hid, -, ⟨-, -, hapart⟩, -⟩ := hnodes
  have hcallee : ∀ target given, Acts [] [] slip.fresh (callee.resolveCall id target given span) :=
    fun target given => callee.acts_resolveCall id target given span
  have hfind := Slip.Diverges.read fun ctx : Context =>
    Slip.Diverges.behind (hcallee (ctx.lookupName? scope callee.name)
      (before ++ arg :: after).length)
      (diverges_resolveGiven harg hspan (fun n hn hn' => hapart n hn n hn' rfl) before)
  rw [resolve_call, resolve_call, hlength, nodes_call, nodesOfAll_append, nodesOfAll_cons]
  exact diverges_typed (hfind.mono (by grind) (by grind) fun _ _ h => h) hid fun _ => rfl

/-- The slip is in an argument, and the receiver has a type. -/
theorem diverges_resolveReceived (harg : arg.DivergesTo slip scope arg')
    (hspan : arg'.span = arg.span) (hapart : ∀ n ∈ arg.nodes, n ∉ nodesOfAll after)
    (receiverType : Ty) :
    slip.Diverges arg.nodes arg.nodes
      (resolveReceived scope id callee (before ++ arg :: after) span receiverType)
      (resolveReceived scope id callee (before ++ arg' :: after) span receiverType)
      Ty.Recovers := by
  have hlength : (before ++ arg' :: after).length = (before ++ arg :: after).length := by simp
  have hgiven := diverges_resolveGiven harg hspan hapart before
  have hmethod : Acts [] [] slip.fresh (callee.resolveMethod receiverType) :=
    callee.acts_resolveMethod receiverType
  have hcallee : ∀ target given, Acts [] [] slip.fresh (callee.resolveCall id target given span) :=
    fun target given => callee.acts_resolveCall id target given span
  refine .behind hmethod fun target => ?_
  cases target with
  | none => exact hgiven none
  | some target =>
      rw [hlength]
      exact .behind (hcallee target _) hgiven

/-- The slip is in an argument of a member function. -/
theorem divergesTo_methodArgument (harg : arg.DivergesTo slip scope arg')
    (hspan : arg'.span = arg.span)
    (hnodes : (Expr.methodCall id receiver callee (before ++ arg :: after) span).nodes.Nodup) :
    (Expr.methodCall id receiver callee (before ++ arg :: after) span).DivergesTo slip scope
      (.methodCall id receiver callee (before ++ arg' :: after) span) := by
  intro hint
  rw [nodes_methodCall, nodesOfAll_append, nodesOfAll_cons] at hnodes ⊢
  obtain ⟨hid, hall⟩ := List.nodup_cons.1 hnodes
  have hapart : ∀ n ∈ arg.nodes, n ∉ nodesOfAll after := fun n hn hn' =>
    (List.nodup_append.1 (List.nodup_append.1 (List.nodup_append.1 hall).2.1).2.1).2.2 n hn n hn'
      rfl
  have hreceiver : Acts [] receiver.nodes slip.fresh (receiver.resolve scope none) :=
    receiver.acts_resolve scope none (by simp)
  have hreceived : ∀ ty, slip.Diverges arg.nodes arg.nodes
      (resolveReceived scope id callee (before ++ arg :: after) span ty)
      (resolveReceived scope id callee (before ++ arg' :: after) span ty) Ty.Recovers :=
    diverges_resolveReceived harg hspan hapart
  rw [resolve_methodCall, resolve_methodCall]
  have hfind := Slip.Diverges.behind hreceiver hreceived
  exact diverges_typed (hfind.mono (by grind) (by grind) fun _ _ h => h) hid fun _ => rfl

/-- Nothing is known about a function any more. -/
theorem follows_resolveGiven {odd : List NodeId} (hnodes : (nodesOfAll args).Nodup)
    (hodd : ∀ n ∈ nodesOfAll args, n ∉ odd) (hsub : subexprsOfAll args ⊆ slip.old.subexprs)
    (found : Option (List Ty × Ty)) :
    slip.Follows odd (nodesOfAll args) (resolveGiven scope args found)
      (resolveGiven scope args none)
      Ty.Recovers := by
  cases found with
  | none =>
      have hacts : Acts odd (nodesOfAll args) slip.fresh (resolveGiven scope args none) :=
        acts_resolveGiven hodd none
      exact (hacts.follows fun _ => .inr rfl).mono (List.nil_subset _) fun _ _ h => h
  | some found =>
      have hresult : Acts odd [] slip.fresh (pure found.2 : Analysis Ty) := acts_pure _
      have hpure : slip.Follows odd [] (pure found.2) (pure Ty.error) Ty.Recovers := by
        intro ctx ctx' ty ctx₁ hrun _ _ h
        cases hrun
        exact ⟨.error, ctx', rfl, h, .inl rfl⟩
      exact ((follows_resolveAll scope found.1 args hnodes hodd hsub).bind (fun _ _ _ => hpure)
        (fun _ => hresult) (by simp)).mono (by simp) fun _ _ h => h

/-- The receiver of a call is unknown, and the call stands for nothing any more. -/
theorem follows_resolveReceived {odd : List NodeId} (hnodes : (nodesOfAll args).Nodup)
    (hodd : ∀ n ∈ nodesOfAll args, n ∉ odd) (hid : id ∈ odd)
    (hsub : subexprsOfAll args ⊆ slip.old.subexprs) (receiverType : Ty) :
    slip.Follows odd (nodesOfAll args) (resolveReceived scope id callee args span receiverType)
      (resolveReceived scope id callee args span .error) Ty.Recovers := by
  intro ctx ctx' ty ctx₂ hrun hclean htypes h
  have hsame : resolveReceived scope id callee args span .error = resolveGiven scope args none :=
    rfl
  have hgiven : ∀ found, slip.Follows odd (nodesOfAll args) (resolveGiven scope args found)
      (resolveGiven scope args none) Ty.Recovers := follows_resolveGiven hnodes hodd hsub
  have hacts : ∀ found, Acts odd (nodesOfAll args) slip.fresh (resolveGiven scope args found) :=
    acts_resolveGiven hodd
  rw [hsame]
  obtain ⟨target, ctx₁, hmethod, hrest⟩ := run_bind_cases hrun
  cases target with
  | none =>
      obtain ⟨-, rfl, -⟩ := does_resolveMethod callee receiverType ctx none ctx₁ hmethod
        ((hacts none).clean hrest hclean)
      exact hgiven none ctx₁ ctx' ty ctx₂ hrest hclean htypes h
  | some target =>
      obtain ⟨found, ctx₃, hcall, hlast⟩ := run_bind_cases hrest
      obtain ⟨hclean₁, function, entry, -, -, -, -, -, rfl⟩ := does_resolveCall callee id target
        args.length span ctx₁ found ctx₃ hcall ((hacts found).clean hlast hclean)
      obtain ⟨-, rfl, -⟩ := does_resolveMethod callee receiverType ctx _ ctx₁ hmethod hclean₁
      exact hgiven found _ ctx' ty ctx₂ hlast hclean htypes (h.attachSymbol hid function)

/-- The slip is in the receiver of a call. -/
theorem divergesTo_receiver (hreceiver : receiver.DivergesTo slip scope receiver')
    (hsub : subexprsOfAll args ⊆ slip.old.subexprs)
    (hnodes : (Expr.methodCall id receiver callee args span).nodes.Nodup) :
    (Expr.methodCall id receiver callee args span).DivergesTo slip scope
      (.methodCall id receiver' callee args span) := by
  intro hint
  simp only [nodes_methodCall, List.nodup_cons, List.nodup_append, List.mem_append,
    not_or] at hnodes
  obtain ⟨hid, -, hargs, hapart⟩ := hnodes
  have hodd : ∀ n ∈ nodesOfAll args, n ∉ id :: receiver.nodes := by grind
  have hacts : ∀ ty, Acts (id :: receiver.nodes) (nodesOfAll args) slip.fresh
      (resolveReceived scope id callee args span ty) := acts_resolveReceived hodd
  have hrest : ∀ ty ty', ty.Recovers ty' → slip.Follows (id :: receiver.nodes) (nodesOfAll args)
      (resolveReceived scope id callee args span ty)
      (resolveReceived scope id callee args span ty') Ty.Recovers := by
    rintro ty ty' (rfl | rfl)
    · exact follows_resolveReceived hargs hodd (List.mem_cons_self ..) hsub ty
    · exact ((hacts ty').follows fun _ => .inr rfl).mono (List.nil_subset _) fun _ _ h => h
  have hfind := ((hreceiver.recovers none).mono (List.subset_cons_self id _) (List.Subset.refl _)
    fun _ _ h => h).bind hrest hacts fun n hn hn' => hapart n hn n hn' rfl
  rw [nodes_methodCall, resolve_methodCall, resolve_methodCall]
  exact diverges_typed (hfind.mono (by grind) (List.Subset.refl _) fun _ _ h => h) (by simp [hid])
    fun _ => rfl

/-- The slip is in the object of a member. -/
theorem divergesTo_object (hobject : object.DivergesTo slip scope object')
    (hplace : object'.isPlace = object.isPlace) (hspan : object'.span = object.span)
    (hnodes : (Expr.member id object member span).nodes.Nodup) :
    (Expr.member id object member span).DivergesTo slip scope (.member id object' member span) := by
  intro hint
  rw [nodes_member] at hnodes ⊢
  have hacts : ∀ ty, Acts (id :: object.nodes) [] slip.fresh
      (member.resolveMember id ty object.isPlace object.span span) := fun ty =>
    member.acts_resolveMember id ty _ _ span
  have hrest : ∀ ty ty', ty.Recovers ty' → slip.Follows (id :: object.nodes) []
      (member.resolveMember id ty object.isPlace object.span span)
      (member.resolveMember id ty' object.isPlace object.span span) Ty.Recovers := by
    rintro ty ty' (rfl | rfl)
    · intro ctx ctx' result ctx₁ hrun hclean _ h
      refine ⟨.error, ctx', rfl, ?_, .inl rfl⟩
      obtain ⟨-, ⟨-, rfl⟩ | ⟨-, _, field, _, -, -, -, rfl⟩⟩ :=
        does_resolveMember member id ty _ _ span ctx result ctx₁ hrun hclean
      · exact h
      · exact h.attachSymbol (List.mem_cons_self ..) field
    · exact (hacts ty').follows fun _ => .inr rfl
  have hfind := ((hobject.recovers none).mono (List.subset_cons_self id _) (List.Subset.refl _)
    fun _ _ h => h).bind hrest hacts (by simp)
  simp only [resolve, hplace, hspan]
  exact diverges_typed (hfind.mono (List.Subset.refl _) (by simp) fun _ _ h => h)
    (List.nodup_cons.1 hnodes).1 fun _ => rfl

end

/-- **An expression with a slip**: the slip is reported, and otherwise only literals that lost
their hints. -/
theorem Renames.divergesTo {e e' : Expr} (h : e.Renames slip.ident slip.fresh e') :
    e.nodes.Nodup → e.subexprs ⊆ slip.old.subexprs → e.DivergesTo slip scope e' := by
  induction h with
  | name id => exact fun _ _ => divergesTo_name id
  | left h ih =>
      intro hnodes hsub
      have hparts := hnodes
      simp only [nodes_binary, List.nodup_cons, List.nodup_append] at hparts
      simp only [subexprs, List.cons_subset, List.append_subset] at hsub
      exact divergesTo_left h (ih hparts.2.1 hsub.2.1) hsub.2.2 hnodes
  | right h ih =>
      intro hnodes hsub
      have hparts := hnodes
      simp only [nodes_binary, List.nodup_cons, List.nodup_append] at hparts
      simp only [subexprs, List.cons_subset, List.append_subset] at hsub
      exact divergesTo_right h (ih hparts.2.2.1 hsub.2.2) hsub.2.1 hnodes
  | target h ih =>
      intro hnodes hsub
      have hparts := hnodes
      simp only [nodes_assign, List.nodup_cons, List.nodup_append] at hparts
      simp only [subexprs, List.cons_subset, List.append_subset] at hsub
      exact divergesTo_target (ih hparts.2.1 hsub.2.1) hsub.2.2 hnodes
  | value h ih =>
      intro hnodes hsub
      have hparts := hnodes
      simp only [nodes_assign, List.nodup_cons, List.nodup_append] at hparts
      simp only [subexprs, List.cons_subset, List.append_subset] at hsub
      exact divergesTo_value (ih hparts.2.2.1 hsub.2.2) h.span hnodes
  | argument h ih =>
      intro hnodes hsub
      have hparts := hnodes
      simp only [nodes_call, nodesOfAll_append, nodesOfAll_cons, List.nodup_cons, List.nodup_append]
        at hparts
      simp only [subexprs, subexprsOfAll_append, subexprsOfAll, List.cons_subset,
        List.append_subset]
        at hsub
      exact divergesTo_argument (ih hparts.2.2.1.1 hsub.2.2.1) h.span hnodes
  | receiver h ih =>
      intro hnodes hsub
      have hparts := hnodes
      simp only [nodes_methodCall, List.nodup_cons, List.nodup_append] at hparts
      simp only [subexprs, List.cons_subset, List.append_subset] at hsub
      exact divergesTo_receiver (ih hparts.2.1 hsub.2.1) hsub.2.2 hnodes
  | methodArgument h ih =>
      intro hnodes hsub
      have hparts := hnodes
      simp only [nodes_methodCall, nodesOfAll_append, nodesOfAll_cons, List.nodup_cons,
        List.nodup_append] at hparts
      simp only [subexprs, subexprsOfAll_append, subexprsOfAll, List.cons_subset,
        List.append_subset]
        at hsub
      exact divergesTo_methodArgument (ih hparts.2.2.1.2.1.1 hsub.2.2.2.1) h.span hnodes
  | object h ih =>
      intro hnodes hsub
      rw [subexprs, List.cons_subset] at hsub
      exact divergesTo_object (ih (List.nodup_cons.1 hnodes).2 hsub.2) h.isPlace h.span hnodes

end Expr

end ClassLang
