import ClassLang.Proofs.Accepted
import ClassLang.Proofs.Lower.BlockGraph
import ClassLang.Proofs.Meaning.Expressions

/-!
# The code of functions does what they mean

A run of the region of statements and carrying out the statements go side by side
(`LowersStmt.computes`): both go on, with variables in the same places, or both return.  With
storage for the arguments in front (`BindsArguments.computes`) this holds of whole functions,
and since the machine does on the flattening what a run does on the region, generated code has
the meaning of its source (`compile_preservesMeaning`).
-/

namespace ClassLang

section

variable {env : Environment} {act : Activation} {locals : Locals} {site : Site}
  {params : List (String × StorageType)} {own vars vars' : List SymbolId} {ret : StorageType}
  {input : String → Value} {p p' : Point} {r : Region} {s s' : RunState}

/-! ## Storage -/

/-- A place for a variable, among those that are known. -/
theorem Agrees.bind (h : Agrees site locals vars p s) {symbol : SymbolId} {n : Nat}
    {t : StorageType} {place : Place}
    (hcurrent : p.addresses.current symbol site.symbols = .ok (.temp n t)) (hn : n < p.temps)
    (hplace : s.temps n = .pointer place) :
    Agrees site (locals.bind symbol place) (symbol :: vars) p s := by
  intro v hv
  by_cases heq : v = symbol
  · subst heq
    exact ⟨n, t, place, hcurrent, hn, by simp [Locals.bind], hplace⟩
  · have hold : v ∈ vars := (List.mem_cons.1 hv).resolve_left heq
    obtain ⟨m, t', place', hm, hlt, hlocals, htemps⟩ := h v hold
    exact ⟨m, t', place', hm, hlt, by simp [Locals.bind, heq, hlocals], htemps⟩

/-- New storage moves no variable. -/
theorem Agrees.allocate (h : Agrees site locals vars p s) {symbol : SymbolId} {t : StorageType}
    (hallocates : Allocates site vars symbol t p) (env : Environment) (input : String → Value) :
    Agrees site locals vars (p.allocated symbol t) (s.perform env input (p.allocation t)) := by
  apply h.keep (Nat.le_succ _)
  · intro v hv a ha
    exact (hallocates.others v hv).trans ha
  · exact s.keeps_perform env input (.inr rfl)

/-- The value that new storage leaves is its place. -/
theorem RunState.temps_allocation (env : Environment) (input : String → Value) (s : RunState)
    (p : Point) (t : StorageType) :
    (s.perform env input (p.allocation t)).temps p.temps = .pointer s.world.next := by
  simp [RunState.perform, Point.allocation, RunState.define, Point.fresh]

theorem RunState.world_allocation (env : Environment) (input : String → Value) (s : RunState)
    (p : Point) (t : StorageType) :
    (s.perform env input (p.allocation t)).world = s.world.allocate := by
  simp [RunState.perform, Point.allocation]

/-! ## Statements -/

/-- Carries out a task. -/
def StmtTask.exec (env : Environment) (act : Activation) (locals : Locals) :
    StmtTask → Effect Outcome
  | .one stmt => stmt.exec env act locals
  | .all stmts => Stmt.execAll env act locals stmts

/-- A run from a state and carrying out a task end alike: they go on with the same world and
the variables in the same places, while values below a counter are kept, or they return the
same. -/
inductive EndsAlike (site : Site) (vars : List SymbolId) (p : Point) (n : Nat) (s : RunState) :
    Finish → Option (Outcome × World) → Prop
  | goesOn {locals : Locals} {s' : RunState} (hagrees : Agrees site locals vars p s')
      (hkeeps : s.Keeps n s') :
      EndsAlike site vars p n s (.goesOn s') (some (.goesOn locals, s'.world))
  | returned (value : Option Value) (world : World) :
      EndsAlike site vars p n s (.returned value world) (some (.returned value, world))

namespace EndsAlike

variable {n m : Nat} {finish : Finish} {result : Option (Outcome × World)}

/-- What came in front of a run. -/
theorem after (h : EndsAlike site vars p m s' finish result) (hkeeps : s.Keeps n s')
    (hle : n ≤ m) : EndsAlike site vars p n s finish result := by
  cases h with
  | goesOn hagrees hkeeps' => exact .goesOn hagrees (hkeeps.trans hkeeps' hle)
  | returned value world => exact .returned value world

/-- Behind a block the variables in front of it can be seen, where they were. -/
theorem leave {x : Effect Outcome} {world : World}
    (h : EndsAlike site vars' p' n s finish (x world))
    (hback : ∀ s', s.Keeps n s' → Agrees site locals vars p s') :
    EndsAlike site vars p n s finish ((Outcome.leave locals <$> x) world) := by
  cases hresult : x world with
  | none => rw [hresult] at h; cases h
  | some pair =>
      rw [Effect.map_apply _ hresult]
      rw [hresult] at h
      cases h with
      | goesOn _ hkeeps => exact .goesOn (hback _ hkeeps) hkeeps
      | returned value world => exact .returned value world

end EndsAlike

/-- Statements do not move the variables in front of them. -/
theorem Agrees.lowersStmt {task : StmtTask} (h : Agrees site locals vars p s)
    (hlowers : LowersStmt site params own ret vars task p r p' vars')
    (hkeeps : s.Keeps p.temps s') : Agrees site locals vars p' s' :=
  h.keep hlowers.numbered.counts.le hlowers.current.2 hkeeps

/-- Labels do not matter. -/
theorem Agrees.issue (h : Agrees site locals vars p s) (count : Nat) :
    Agrees site locals vars (p.issue count) s := h

theorem Agrees.enter (h : Agrees site locals vars p s) (l : Label) :
    Agrees site locals vars (p.enter l) s := h

/-- What is stored does not matter. -/
theorem Agrees.changeWorld (h : Agrees site locals vars p s) (world : World) :
    Agrees site locals vars p { s with world } := h

/-! ## One rule at a time -/

/-- From every state that agrees with the variables in front, the run of a region and carrying
out its task end alike. -/
def FollowsStmt (env : Environment) (act : Activation) (input : String → Value) (site : Site)
    (vars : List SymbolId) (task : StmtTask) (p : Point) (r : Region) (p' : Point)
    (vars' : List SymbolId) : Prop :=
  ∀ ⦃locals : Locals⦄ ⦃s : RunState⦄, Agrees site locals vars p s →
    EndsAlike site vars' p' p.temps s (r.run env input s) (task.exec env act locals s.world)

namespace FollowsStmt

variable {vars₁ vars₂ : List SymbolId} {stmt positive negative : Stmt} {condition : Expr}
  {span : Span} {p₁ p₂ p₃ : Point} {a : Operand} {r₁ r₂ : Region}

/-- A statement that goes on, and what is behind it. -/
theorem cons {rest : List Stmt}
    (hfirst : LowersStmt site params own ret vars (.one stmt) p r₁ p₁ vars₁)
    (ih₁ : FollowsStmt env act input site vars (.one stmt) p r₁ p₁ vars₁)
    (ih₂ : FollowsStmt env act input site vars₁ (.all rest) p₁ r₂ p₂ vars₂) :
    FollowsStmt env act input site vars (.all (stmt :: rest)) p (r₁.seq r₂) p₂ vars₂ := by
  intro locals s hs
  have hbeside := ih₁ hs
  rw [StmtTask.exec] at hbeside
  rw [StmtTask.exec, Stmt.execAll, Region.run]
  generalize hfinish : r₁.run env input s = finish at hbeside
  generalize hresult : stmt.exec env act locals s.world = result at hbeside
  cases hbeside with
  | goesOn hagrees hkeeps =>
      rw [Effect.bind_apply hresult]
      exact (ih₂ hagrees).after hkeeps hfirst.numbered.counts.le
  | returned value world =>
      rw [Effect.bind_apply hresult]
      exact .returned value world

/-- Nothing behind a statement that leaves is carried out. -/
theorem last (rest : List Stmt) (hleaves : r.leaves = true)
    (ih : FollowsStmt env act input site vars (.one stmt) p r p₁ vars₁) :
    FollowsStmt env act input site vars (.all (stmt :: rest)) p r p₁ vars₁ := by
  intro locals s hs
  have hbeside := ih hs
  rw [StmtTask.exec] at hbeside
  rw [StmtTask.exec, Stmt.execAll]
  obtain ⟨value, world, hrun⟩ : ∃ value world, r.run env input s = .returned value world :=
    Region.run_of_leaves hleaves s
  rw [hrun] at hbeside ⊢
  generalize hresult : stmt.exec env act locals s.world = result at hbeside
  cases hbeside
  rw [Effect.bind_apply hresult]
  exact .returned value world

/-- A declaration without a value binds the variable to new storage. -/
theorem declare (hact : act.Enters site own input) {id : NodeId} {symbol : SymbolId}
    {t : StorageType} {ty : TypeExpr} {name : Ident}
    (hsymbol : site.ctx.bindings.symbol? id = some symbol)
    (hallocates : Allocates site vars symbol t p) :
    FollowsStmt env act input site vars (.one (.varDecl id ty name none span)) p
      (.step (p.allocation t)) (p.allocated symbol t) (symbol :: vars) := by
  intro locals s hs
  have hbound := (hs.allocate hallocates env input).bind hallocates.current (Nat.lt_succ_self _)
    (s.temps_allocation env input p t)
  rw [StmtTask.exec, Stmt.exec, Effect.bind_apply (hact.symbol_apply hsymbol _)]
  have hrun := EndsAlike.goesOn hbound (s.keeps_perform env input (p := p) (.inr rfl))
  rw [s.world_allocation env input p t] at hrun
  exact hrun

/-- A declaration with a value stores it in the new storage, which its evaluation does not
move. -/
theorem declareWith (htable : site.symbols.Lowerable) (hact : act.Enters site own input)
    {id : NodeId} {symbol : SymbolId} {t : StorageType} {ty : TypeExpr} {name : Ident}
    {value : Expr} (hsymbol : site.ctx.bindings.symbol? id = some symbol)
    (hallocates : Allocates site vars symbol t p)
    (hvalue : Lowers site params own vars (.value value) (p.allocated symbol t) [a] r p₁) :
    FollowsStmt env act input site vars (.one (.varDecl id ty name (some value) span)) p
      ((Region.step (p.allocation t)).seq (r.seq (.step (.store a (p.fresh (.pointer t))))))
      p₁ (symbol :: vars) := by
  intro locals s hs
  have hs₁ := hs.allocate hallocates env input
  obtain ⟨s₂, hrun, hgives, hkeeps, -⟩ := hvalue.computes env htable hact hs₁
  have hvalue' := hgives.needed
  rw [s.world_allocation env input p t] at hvalue'
  have hkeeps₂ : s.Keeps p.temps s₂ :=
    (s.keeps_perform env input (p := p) (.inr rfl)).trans hkeeps (Nat.le_succ _)
  -- the initial value leaves the new place where it is
  have hplace : s₂.temps p.temps = .pointer s.world.next :=
    (hkeeps _ (Nat.lt_succ_self _)).trans (s.temps_allocation env input p t)
  have hbound : Agrees site (locals.bind symbol s.world.next) (symbol :: vars) p₁ s₂ :=
    (hs₁.lowers hvalue hkeeps).bind
      (AddressBook.current_congr (hvalue.locations (.inr hallocates.literal?)) hallocates.current)
      (Nat.lt_of_lt_of_le (Nat.lt_succ_self _) hvalue.numbered.counts.le) hplace
  have hexec : (Stmt.varDecl id ty name (some value) span).exec env act locals s.world =
      some (.goesOn (locals.bind symbol s.world.next),
        s₂.world.store s.world.next (s₂.value input a)) := by
    rw [Stmt.exec, Effect.bind_apply (hact.symbol_apply hsymbol _)]
    refine (Effect.bind_apply (x := Effect.allocate) rfl).trans ?_
    exact Effect.bind_apply hvalue'
  have hrun' : ((Region.step (p.allocation t)).seq (r.seq (.step
      (.store a (p.fresh (.pointer t)))))).run env input s =
      .goesOn { s₂ with world := s₂.world.store s.world.next (s₂.value input a) } := by
    apply Region.run_seq rfl
    apply Region.run_seq hrun
    simp [Region.run, Instruction.run, RunState.perform, Point.fresh, hplace]
  rw [StmtTask.exec, hexec, hrun']
  exact .goesOn (hbound.changeWorld _) hkeeps₂

/-- Without an alternative, control meets behind the statement whether it ran or not. -/
theorem ifThen (htable : site.symbols.Lowerable) (hact : act.Enters site own input)
    (hcondition : Lowers site params own vars (.value condition) p [a] r p₁)
    (hpositive : LowersStmt site params own ret vars (.one positive)
      ((p₁.issue 2).enter p₁.labels) r₁ p₂ vars₁)
    (ih : FollowsStmt env act input site vars (.one positive) ((p₁.issue 2).enter p₁.labels) r₁
      p₂ vars₁) :
    FollowsStmt env act input site vars (.one (.ifThen condition positive span)) p
      (r.seq (.ifThen a p₁.labels (p₁.labels + 1) r₁)) (p₂.enter (p₁.labels + 1)) vars := by
  intro locals s hs
  obtain ⟨s₁, hrun, hgives, hkeeps, -⟩ := hcondition.computes env htable hact hs
  have hle : p.temps ≤ p₁.temps := hcondition.numbered.counts.le
  have hs₁ := ((hs.lowers hcondition hkeeps).issue 2).enter p₁.labels
  rw [StmtTask.exec, Stmt.exec, Effect.bind_apply hgives.needed, Region.run, hrun]
  simp only [Finish.andThen, Region.run]
  split
  · next htrue =>
      have hside := (ih hs₁).leave fun s' hk =>
        (hs₁.lowersStmt hpositive hk).enter (p₁.labels + 1)
      exact hside.after hkeeps hle
  · next hfalse =>
      exact .goesOn ((hs₁.lowersStmt hpositive (.refl _ s₁)).enter (p₁.labels + 1)) hkeeps

/-- With an alternative, one of the sides runs. -/
theorem ifElse (htable : site.symbols.Lowerable) (hact : act.Enters site own input)
    (hcondition : Lowers site params own vars (.value condition) p [a] r p₁)
    (hpositive : LowersStmt site params own ret vars (.one positive)
      ((p₁.issue 3).enter p₁.labels) r₁ p₂ vars₁)
    (hnegative : LowersStmt site params own ret vars (.one negative)
      (p₂.enter (p₁.labels + 1)) r₂ p₃ vars₂)
    (ih₁ : FollowsStmt env act input site vars (.one positive) ((p₁.issue 3).enter p₁.labels) r₁
      p₂ vars₁)
    (ih₂ : FollowsStmt env act input site vars (.one negative) (p₂.enter (p₁.labels + 1)) r₂ p₃
      vars₂) :
    FollowsStmt env act input site vars (.one (.ifElse condition positive negative span)) p
      (r.seq (.ifElse a p₁.labels (p₁.labels + 1) (p₁.labels + 2) r₁ r₂))
      (p₃.meet (p₁.labels + 2) r₁ r₂) vars := by
  intro locals s hs
  obtain ⟨s₁, hrun, hgives, hkeeps, -⟩ := hcondition.computes env htable hact hs
  have hle : p.temps ≤ p₁.temps := hcondition.numbered.counts.le
  have hs₁ := ((hs.lowers hcondition hkeeps).issue 3).enter p₁.labels
  -- the sides stand one behind the other, and so do their numbers
  have hs₂ : ∀ s', s₁.Keeps p₁.temps s' →
      Agrees site locals vars (p₂.enter (p₁.labels + 1)) s' := fun s' hk =>
    (hs₁.lowersStmt hpositive hk).enter (p₁.labels + 1)
  have hle₂ : p₁.temps ≤ p₂.temps := hpositive.numbered.counts.le
  have hs₃ : ∀ s', s₁.Keeps p₁.temps s' →
      Agrees site locals vars (p₃.meet (p₁.labels + 2) r₁ r₂) s' := by
    intro s' hk
    have hbehind : Agrees site locals vars p₃ s' :=
      (hs₂ s' hk).lowersStmt hnegative (.refl _ s')
    unfold Point.meet
    split
    · exact hbehind
    · exact hbehind.enter (p₁.labels + 2)
  rw [StmtTask.exec, Stmt.exec, Effect.bind_apply hgives.needed, Region.run, hrun]
  simp only [Finish.andThen, Region.run]
  split
  · next htrue =>
      exact ((ih₁ hs₁).leave hs₃).after hkeeps hle
  · next hfalse =>
      have hside := (ih₂ (hs₂ s₁ (.refl _ s₁))).after (.refl p₁.temps s₁) hle₂
      exact (hside.leave hs₃).after hkeeps hle

end FollowsStmt

/-- **The code of statements does what they say.**  The induction is on the rules, and the
invariant is that the values at the addresses of variables are their places. -/
theorem LowersStmt.computes (env : Environment) (htable : site.symbols.Lowerable)
    (hact : act.Enters site own input) {task : StmtTask}
    (h : LowersStmt site params own ret vars task p r p' vars') :
    FollowsStmt env act input site vars task p r p' vars' := by
  induction h with
  | nil vars p =>
      intro locals s hs
      rw [StmtTask.exec, Stmt.execAll]
      exact .goesOn hs (.refl _ s)
  | cons hfirst _ _ ih₁ ih₂ => exact ih₁.cons hfirst ih₂
  | last rest _ hleaves ih => exact ih.last rest hleaves
  | block id span hstmts ih =>
      intro locals s hs
      rw [StmtTask.exec, Stmt.exec]
      exact (ih hs).leave fun s' hkeeps => hs.lowersStmt hstmts hkeeps
  | declare _ _ _ hsymbol _ hallocates => exact .declare hact hsymbol hallocates
  | declareWith _ _ _ hsymbol _ hallocates hvalue _ =>
      exact .declareWith htable hact hsymbol hallocates hvalue
  | ifThen _ hcondition _ hpositive ih => exact ih.ifThen htable hact hcondition hpositive
  | ifElse _ hcondition _ hpositive hnegative ih₁ ih₂ =>
      exact ih₁.ifElse htable hact hcondition hpositive hnegative ih₂
  | ret vars span p hvoid =>
      intro locals s _
      rw [StmtTask.exec, Stmt.exec]
      exact .returned none s.world
  | retValue span hvalue hty hvoid =>
      intro locals s hs
      obtain ⟨s₁, hrun, hgives, -, -⟩ := hvalue.computes env htable hact hs
      rw [StmtTask.exec, Stmt.exec, Effect.bind_apply hgives.needed, Region.run, hrun]
      exact .returned _ s₁.world
  | expr span hvalue =>
      intro locals s hs
      obtain ⟨s₁, hrun, ⟨value, heval, -⟩, hkeeps, -⟩ := hvalue.computes env htable hact hs
      rw [StmtTask.exec, Stmt.exec, Effect.bind_apply heval, hrun]
      exact .goesOn (hs.lowers hvalue hkeeps) hkeeps

/-! ## Functions -/

/-- **Arguments that are no pointers get their cells**, filled with their values. -/
theorem BindsArguments.computes (env : Environment) (hact : act.Enters site own input)
    {arguments : List SymbolId} (h : BindsArguments site params vars arguments p r p' vars')
    (hown : ∀ arg ∈ arguments, arg ∈ own) (hs : Agrees site locals vars p s) :
    ∃ s' locals', r.run env input s = .goesOn s' ∧
      act.bindArguments locals arguments s.world = some (locals', s'.world) ∧
      Agrees site locals' vars' p' s' := by
  induction h generalizing s locals with
  | nil vars p => exact ⟨s, locals, rfl, rfl, hs⟩
  | @pointer vars vars₁ arg rest p p₁ r hpointer hrest ih =>
      obtain ⟨s', locals', hrun, hbind, hagrees⟩ :=
        ih (fun a ha => hown a (List.mem_cons_of_mem _ ha)) hs
      refine ⟨s', locals', hrun, ?_, hagrees⟩
      rw [Activation.bindArguments, hact.symbols_eq, if_pos hpointer, hbind]
  | @value vars vars₁ arg rest p p₁ r t hvalue hty hparam hallocates hrest ih =>
      have hbound := (hs.allocate hallocates env input).bind hallocates.current
        (Nat.lt_succ_self _) (s.temps_allocation env input p t)
      have hargument : input (site.symbols.name arg) = act.argument arg :=
        hact.argument arg (hown arg (List.mem_cons_self ..))
      -- storing the value changes the world only
      obtain ⟨s', locals', hrun, hbind, hagrees⟩ :=
        ih (s := { s.perform env input (p.allocation t) with
            world := s.world.allocate.store s.world.next (act.argument arg) })
          (fun a ha => hown a (List.mem_cons_of_mem _ ha)) (hbound.changeWorld _)
      refine ⟨s', locals', ?_, ?_, hagrees⟩
      · refine Region.run_seq rfl (Region.run_seq ?_ hrun)
        simp [Region.run, Instruction.run, RunState.perform, Point.allocation, Point.fresh,
          RunState.define, hargument]
      · rw [Activation.bindArguments, hact.symbols_eq, if_neg (by simp [hvalue])]
        refine (Effect.bind_apply (x := Effect.allocate) rfl).trans ?_
        exact (Effect.bind_apply (x := Effect.store _ _) rfl).trans hbind

/-- The value that a function gives back. -/
def Outcome.result : Outcome → Option Value
  | .goesOn _ => none
  | .returned value => value

/-- **The code of a body does what the body says.** -/
theorem LowersBody.computes (env : Environment) (htable : site.symbols.Lowerable)
    (hact : act.Enters site own input) {block : Block}
    (h : LowersBody site params ret own (some block) r) (s : RunState) :
    ∃ locals outcome world world', act.bindArguments (fun _ => none) own s.world =
        some (locals, world) ∧
      Stmt.execAll env act locals block.stmts world = some (outcome, world') ∧
      r.run env input s = .returned outcome.result world' := by
  have hnone : ∀ p, Agrees site (fun _ => none) [] p s := fun _ v hv => by simp at hv
  cases h with
  | @leaves _ p₁ p₂ r₁ r₂ vars₁ vars₂ harguments hstmts hleaves =>
      obtain ⟨s₁, locals, hrun, hbind, hs⟩ :=
        harguments.computes env hact (fun _ h => h) (hnone _)
      have hbeside := hstmts.computes env htable hact hs
      obtain ⟨value, world, hreturned⟩ :
          ∃ value world, r₂.run env input s₁ = .returned value world :=
        Region.run_of_leaves hleaves s₁
      rw [hreturned, StmtTask.exec] at hbeside
      generalize hresult : Stmt.execAll env act locals block.stmts s₁.world = result at hbeside
      cases hbeside
      exact ⟨locals, .returned value, s₁.world, world, hbind, hresult,
        by rw [Region.run, hrun]; exact hreturned⟩
  | @goesOn _ p₁ p₂ r₁ r₂ vars₁ vars₂ harguments hstmts hleaves hvoid =>
      obtain ⟨s₁, locals, hrun, hbind, hs⟩ :=
        harguments.computes env hact (fun _ h => h) (hnone _)
      have hbeside := hstmts.computes env htable hact hs
      rw [StmtTask.exec] at hbeside
      generalize hfinish : r₂.run env input s₁ = finish at hbeside
      generalize hresult : Stmt.execAll env act locals block.stmts s₁.world = result at hbeside
      rw [Region.run, hrun]
      simp only [Finish.andThen, Region.run, hfinish]
      cases hbeside with
      | goesOn _ _ => exact ⟨locals, _, s₁.world, _, hbind, hresult, rfl⟩
      | returned value world => exact ⟨locals, _, s₁.world, _, hbind, hresult, rfl⟩

end

theorem valueOf_nil {α : Type} [DecidableEq α] (keys : List α) (key : α) :
    valueOf keys [] key = .undefined := by
  cases keys <;> rfl

theorem valueOf_cons {α : Type} [DecidableEq α] (k : α) (keys : List α) (values : List Value)
    (key : α) : valueOf (k :: keys) values key =
      if k = key then values.headD .undefined else valueOf keys values.tail key := by
  cases values with
  | nil => simp [valueOf_nil]
  | cons v values => rfl

section

variable {ctx : Context} {id : SymbolId} {block : Option Block} {entry : FunctionEntry}
  {signature : Signature} {region : Region}

/-- A call with values for the parameters enters the function. -/
theorem IsCodeOf.enters (h : IsCodeOf ctx id block entry signature region) (values : List Value) :
    (Activation.ofCall ctx entry values).Enters (Site.ofFunction ctx id)
      (ctx.symbols.declaredArguments entry)
      (valueOf (ctx.symbols.parameterNames entry) values) := by
  have hsite : (Site.ofFunction ctx id).owner = entry.owner := by
    simp [Site.ofFunction, h.function?]
  have hnames := h.names
  unfold SymbolTable.parameterNames at hnames ⊢
  cases howner : entry.owner with
  | none =>
      rw [howner] at hnames hsite
      refine ⟨rfl, rfl, fun hself => by simp [hsite] at hself, fun symbol hsymbol => ?_⟩
      simp only [Activation.argument, Activation.ofCall, howner, if_pos hsymbol]
      exact valueOf_map _ hnames values hsymbol
  | some c =>
      rw [howner] at hnames hsite
      obtain ⟨hself, hnodup⟩ := List.nodup_cons.1 hnames
      refine ⟨rfl, rfl, fun _ => ?_, fun symbol hsymbol => ?_⟩
      · simp [Activation.ofCall, howner, valueOf_cons]
      · have hne : selfName ≠ ctx.symbols.name symbol := fun heq =>
          hself (heq ▸ List.mem_map_of_mem hsymbol)
        simp only [Activation.argument, Activation.ofCall, howner, if_pos hsymbol]
        exact (valueOf_cons _ _ _ _).trans ((if_neg hne).trans (valueOf_map _ hnodup _ hsymbol))

/-- The machine gives back what the function means, and leaves the world in the same state. -/
theorem IsCodeOf.returns {block : Block} (h : IsCodeOf ctx id (some block) entry signature region)
    (htable : ctx.symbols.Lowerable) (env : Environment) (values : List Value)
    (temps : Nat → Value) (world : World) :
    ∃ value world', ctx.evaluate env id block values world = some (value, world') ∧
      Returns env (valueOf (ctx.symbols.parameterNames entry) values) region.code
        ⟨region.code, none, none, ⟨temps, world⟩⟩ value world' := by
  obtain ⟨locals, outcome, world₁, world', hbind, hexec, hrun⟩ :=
    h.body.computes env (show (Site.ofFunction ctx id).symbols.Lowerable from htable)
      (h.enters values) ⟨temps, world⟩
  refine ⟨outcome.result, world', ?_, ?_⟩
  · have hown : (Activation.ofCall ctx entry values).own = ctx.symbols.declaredArguments entry :=
      rfl
    rw [Context.evaluate, h.function?, Effect.known_bind, hown, Effect.bind_apply hbind,
      Effect.bind_apply hexec]
    cases outcome <;> rfl
  · have hbody : Unambiguous region.code := h.body.numbered.2
    have hplace : region.code ++ [] <:+ region.code := by simp
    simpa using Region.returns hbody h.body.supplied.1 hplace none none hrun

end

/-- **Lowering keeps the meaning of functions.**  Every function with a body has code in the
unit, and for all values of its parameters, in every environment and every world, the machine
runs through this code to a return.  What it gives back, and the world that it leaves behind
with memory and all that was done to it and to the environment, is what the evaluation of the
syntax tree says. -/
theorem compile_preservesMeaning {source : String} {compiled : Compiled} {script : Script}
    (h : compile source = .ok compiled) (hparse : parse source = .ok script) {decl : FunctionDecl}
    (hdecl : decl ∈ script.items.flatMap Item.functions) {block : Block}
    (hblock : block ∈ decl.body.block?) :
    ∃ id signature names body, compiled.context.bindings.symbol? decl.id = some id ∧
      .function (compiled.context.symbols.linkName id) signature names body ∈ compiled.unit ∧
      ∀ (env : Environment) (values : List Value) (temps : Nat → Value) (world : World),
        ∃ value world', compiled.context.evaluate env id block values world =
            some (value, world') ∧
          Returns env (valueOf names values) body ⟨body, none, none, ⟨temps, world⟩⟩ value
            world' := by
  obtain ⟨script', haccepted⟩ := accepted_of_compile h
  cases hparse.symm.trans haccepted.parse_eq
  obtain ⟨id, entry, signature, region, hsymbol, hcode, hmem⟩ :=
    haccepted.generates.bodies hdecl block hblock
  refine ⟨id, signature, _, region.code, hsymbol, ?_, fun env values temps world =>
    hcode.returns haccepted.complete.lowerable env values temps world⟩
  rw [SymbolTable.linkName_eq hcode.function?]
  exact hmem

theorem sample_parsed : (match parse sampleSource with
      | .ok script => (script.items.flatMap Item.functions).any fun d => d.body.block?.isSome
      | .error _ => false) = true := by
  decide +kernel

theorem sample_body : ∃ script decl block, parse sampleSource = .ok script ∧
    decl ∈ script.items.flatMap Item.functions ∧ block ∈ decl.body.block? := by
  have h := sample_parsed
  split at h
  · next script hparse =>
      obtain ⟨decl, hdecl, hbody⟩ := List.any_eq_true.1 h
      obtain ⟨block, hblock⟩ := Option.isSome_iff_exists.1 hbody
      exact ⟨script, decl, block, hparse, hdecl, hblock⟩
  · cases h

theorem compile_preservesMeaning_sample : ∃ compiled script decl block,
    compile sampleSource = .ok compiled ∧ parse sampleSource = .ok script ∧
    decl ∈ script.items.flatMap Item.functions ∧ block ∈ decl.body.block? ∧
    ∃ id signature names body, compiled.context.bindings.symbol? decl.id = some id ∧
      .function (compiled.context.symbols.linkName id) signature names body ∈ compiled.unit ∧
      ∀ (env : Environment) (values : List Value) (temps : Nat → Value) (world : World),
        ∃ value world', compiled.context.evaluate env id block values world =
            some (value, world') ∧
          Returns env (valueOf names values) body ⟨body, none, none, ⟨temps, world⟩⟩ value
            world' := by
  obtain ⟨compiled, -, -, -, hcompile, -⟩ := sample_function
  obtain ⟨script, decl, block, hparse, hdecl, hblock⟩ := sample_body
  exact ⟨compiled, script, decl, block, hcompile, hparse, hdecl, hblock,
    compile_preservesMeaning hcompile hparse hdecl hblock⟩

end ClassLang
