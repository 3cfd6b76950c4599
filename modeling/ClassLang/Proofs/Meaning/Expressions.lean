import ClassLang.Proofs.Lower.Function
import ClassLang.Proofs.Lower.Numbering
import ClassLang.Proofs.Meaning.Evaluation
import ClassLang.Proofs.Meaning.Regions

/-!
# The code of expressions computes their values

A run of the region of an expression and the evaluation of the expression go side by side
(`Lowers.computes`).  The values that instructions define are numbered, so code only defines
values from the counter of its point on: what is below the counter stays as it is
(`RunState.Keeps`), and with it the addresses of the variables that can be seen (`Agrees`).
-/

namespace ClassLang

/-! ## States -/

/-- An operand is defined in front of a counter. -/
def Operand.Below (n : Nat) : Operand → Prop
  | .temp id _ => id < n
  | _ => True

@[simp] theorem Operand.below_temp {n id : Nat} {t : StorageType} :
    (Operand.temp id t).Below n ↔ id < n := Iff.rfl

/-- The values below a counter stay as they are. -/
def RunState.Keeps (n : Nat) (s s' : RunState) : Prop := ∀ id < n, s'.temps id = s.temps id

section

variable {input : String → Value} {s s₁ s₂ : RunState} {n m : Nat} {a : Operand} {v : Value}
  {p : Point} {t : StorageType}

/-- What is defined in front of a counter is in front of every later one. -/
theorem Operand.Below.mono (h : a.Below n) (hle : n ≤ m) : a.Below m := by
  cases a with
  | temp id t => exact Nat.lt_of_lt_of_le h hle
  | _ => trivial

/-- A fresh temporary is defined behind its point. -/
theorem Point.below_fresh (p : Point) (t : StorageType) : (p.fresh t).Below p.next.temps :=
  Nat.lt_succ_self _

namespace RunState

/-- A state keeps its own values. -/
theorem Keeps.refl (n : Nat) (s : RunState) : s.Keeps n s := fun _ _ => rfl

/-- What is kept twice is kept, below the lower counter. -/
theorem Keeps.trans (h₁ : s.Keeps n s₁) (h₂ : s₁.Keeps m s₂) (hle : n ≤ m) : s.Keeps n s₂ :=
  fun id hid => (h₂ id (Nat.lt_of_lt_of_le hid hle)).trans (h₁ id hid)

/-- Keeping the values below a counter keeps those of the operands. -/
theorem Keeps.value (h : s.Keeps n s₁) (ha : a.Below n) : s₁.value input a = s.value input a := by
  cases a with
  | temp id t => exact h id ha
  | _ => rfl

/-- The same for a list of operands. -/
theorem Keeps.values (h : s.Keeps n s₁) {ops : List Operand} (hops : ∀ a ∈ ops, a.Below n) :
    ops.map (s₁.value input) = ops.map (s.value input) :=
  List.map_congr_left fun a ha => h.value (hops a ha)

@[simp] theorem world_define (s : RunState) (dest : Operand) (v : Value) :
    (s.define dest v).world = s.world := by
  cases dest <;> rfl

@[simp] theorem value_define_fresh : (s.define (p.fresh t) v).value input (p.fresh t) = v := by
  simp [define, Point.fresh, RunState.value]

/-- Defining a fresh temporary keeps the values below it. -/
theorem keeps_define (s : RunState) (p : Point) (t : StorageType) (v : Value) :
    s.Keeps p.temps (s.define (p.fresh t) v) := by
  intro id hid
  exact Function.update_of_ne (Nat.ne_of_lt hid) v s.temps

/-- An instruction defines no other value than its own. -/
theorem keeps_perform (env : Environment) (input : String → Value) (s : RunState) {p : Point}
    {i : Instruction} {t : StorageType} (h : i.dest? = none ∨ i.dest? = some (p.fresh t)) :
    s.Keeps p.temps (s.perform env input i) := by
  have hdefine : ∀ (world : World) (dest : Operand) (v : Value), i.dest? = some dest →
      s.Keeps p.temps (({ s with world } : RunState).define dest v) := by
    intro world dest v hdest
    rw [hdest] at h
    cases h.resolve_left (by simp)
    exact keeps_define { s with world } p t v
  cases i with
  | call dest callee signature args =>
      cases dest with
      | none => exact .refl _ s
      | some dest => exact hdefine _ dest _ rfl
  | alloca dest | load dest | elementPtr dest | cast dest => exact hdefine _ dest _ rfl
  | arith op dest | compare op dest => exact hdefine _ dest _ rfl
  | _ => exact .refl _ s

end RunState

end

/-! ## Tasks -/

section

variable (env : Environment) (act : Activation) (locals : Locals)

/-- The receiver of a call: the object in front of it, or the receiver of the function. -/
def Activation.receiver : Option Expr → Effect Value
  | none => pure act.self
  | some object => (object.eval env act locals).needed

/-- The evaluation of a task gives values and leads from one world to another. -/
def Task.Gives (world : World) (values : List Value) (world' : World) : Task → Prop
  | .value e => ∃ value, e.eval env act locals world = some (value, world') ∧ values = value.toList
  | .address e => ∃ place, e.locate env act locals world = some (place, world') ∧
      values = [.pointer place]
  | .base object => ∃ base, act.base object (object.eval env act locals)
      (object.locate env act locals) world = some (base.place, world') ∧ values = [base]
  | .receiver object owner =>
      Activation.selfFor (act.receiver env locals object) owner world = some (values, world')
  | .values es => Expr.evalAll env act locals es world = some (values, world')

end

variable {env : Environment} {act : Activation} {locals : Locals} {world world' : World}
  {site : Site} {params : List (String × StorageType)} {own vars : List SymbolId}
  {input : String → Value} {p p' : Point} {r : Region}

/-- A task that gives one value has it. -/
theorem Task.Gives.needed {e : Expr} {v : Value}
    (h : (Task.value e).Gives env act locals world [v] world') :
    (e.eval env act locals).needed world = some (v, world') := by
  obtain ⟨value, heval, hvalues⟩ := h
  cases value with
  | none => cases hvalues
  | some v' =>
      cases hvalues
      exact Effect.needed_apply heval

/-- A call evaluates its receiver and its arguments, and then the callee. -/
theorem Expr.IsCall.eval_eq {e : Expr} {id : NodeId} {callee : Ident} {object : Option Expr}
    {args : List Expr} (h : e.IsCall id callee object args) :
    e.eval env act locals =
      act.callOf env id (act.receiver env locals object) (Expr.evalAll env act locals args) := by
  cases h with
  | call => rw [Expr.eval]; rfl
  | methodCall => rw [Expr.eval]; rfl

/-! ## Names -/

/-- An activation of the function that is lowered, with the values of its parameters. -/
structure Activation.Enters (act : Activation) (site : Site) (own : List SymbolId)
    (input : String → Value) : Prop where
  ctx : act.ctx = site.ctx
  declared : act.own = own
  self : site.owner.isSome = true → input selfName = act.self
  argument : ∀ symbol ∈ own, input (site.symbols.name symbol) = act.argument symbol

/-- The values at the addresses of variables are their places. -/
def Agrees (site : Site) (locals : Locals) (vars : List SymbolId) (p : Point) (s : RunState) :
    Prop :=
  ∀ v ∈ vars, ∃ n t place, p.addresses.current v site.symbols = .ok (.temp n t) ∧ n < p.temps ∧
    locals v = some place ∧ s.temps n = .pointer place

/-- Variables stay where they are. -/
theorem Agrees.keep {s s' : RunState} (h : Agrees site locals vars p s) (hle : p.temps ≤ p'.temps)
    (hcurrent : ∀ v ∈ vars, ∀ a, p.addresses.current v site.symbols = .ok a →
      p'.addresses.current v site.symbols = .ok a) (hkeeps : s.Keeps p.temps s') :
    Agrees site locals vars p' s' := by
  intro v hv
  obtain ⟨n, t, place, hn, hlt, hplace, htemps⟩ := h v hv
  exact ⟨n, t, place, hcurrent v hv _ hn, Nat.lt_of_lt_of_le hlt hle, hplace,
    (hkeeps n hlt).trans htemps⟩

/-- Code that only keeps values leaves the variables where they are. -/
theorem Agrees.lowers {s s' : RunState} {task : Task} {ops : List Operand}
    (h : Agrees site locals vars p s) (hlowers : Lowers site params own vars task p ops r p')
    (hkeeps : s.Keeps p.temps s') : Agrees site locals vars p' s' :=
  h.keep hlowers.numbered.counts.le
    (fun _ hv _ ha => AddressBook.current_congr (hlowers.locations (.inl hv)) ha) hkeeps

namespace Activation.Enters

variable (hact : act.Enters site own input)

include hact

/-- The activation has the symbols of the function that is lowered. -/
theorem symbols_eq : act.symbols = site.symbols := congrArg Context.symbols hact.ctx

/-- The symbol of a node is the one the analysis attached. -/
theorem symbol_apply {id : NodeId} {symbol : SymbolId}
    (h : site.ctx.bindings.symbol? id = some symbol) (world : World) :
    act.symbol id world = some (symbol, world) := by
  rw [Activation.symbol, hact.ctx, h]
  rfl

/-- Only arguments that are pointers are used as they are. -/
theorem direct?_eq_none {symbol : SymbolId} (h : ¬ site.symbols.PointerArgument symbol) :
    act.direct? symbol = none := by
  rw [direct?, hact.symbols_eq]
  split
  · next entry hentry => exact if_neg fun hpointer => h ⟨entry, hentry, hpointer⟩
  · rfl

/-- An argument that is a pointer stands for its value. -/
theorem direct?_eq {symbol : SymbolId} {entry : VariableEntry}
    (h : site.symbols.get? symbol = some (.argument entry)) (hpointer : entry.ty.isPointer = true) :
    act.direct? symbol = some (act.argument symbol) := by
  simp [direct?, hact.symbols_eq, h, hpointer]

/-- The offset of a field is its number in the layout. -/
theorem offset?_eq {record field : SymbolId} {index : Nat} {t : StorageType}
    (h : site.symbols.FieldAt record field index t) : act.offset? field = some index := by
  obtain ⟨entry, hentry, hoffset, -⟩ := h.entry
  simp [Activation.offset?, hact.symbols_eq, hentry, hoffset]

/-- A field of the receiver is at its number. -/
theorem place?_field {record field : SymbolId} {index : Nat} {t : StorageType}
    (h : site.symbols.FieldAt record field index t) (locals : Locals) :
    act.place? locals field = some (act.self.place.select [index]) := by
  obtain ⟨entry, hentry, -⟩ := h.entry
  simp [place?, hact.symbols_eq, SymbolTable.field?_eq_some_iff.1 hentry, hact.offset?_eq h]

/-- A variable is at its place. -/
theorem place?_stored {symbol : SymbolId} {entry : VariableEntry}
    (h : site.symbols.storedVariable? symbol = some entry) (locals : Locals) :
    act.place? locals symbol = locals symbol := by
  rcases SymbolTable.storedVariable?_eq_some_iff.1 h with hget | hget <;>
    simp [place?, hact.symbols_eq, hget]

/-- The parameter of an argument that is used as it is. -/
theorem input_eq {symbol : SymbolId} {entry : VariableEntry}
    (h : site.symbols.get? symbol = some (.argument entry))
    (hown : symbol ∈ own ∨ entry.name = selfName ∧ site.owner.isSome = true) :
    input entry.name = act.argument symbol := by
  by_cases hmem : symbol ∈ own
  · rw [← SymbolTable.name_argument h]
    exact hact.argument symbol hmem
  · obtain ⟨hname, howner⟩ := hown.resolve_left hmem
    rw [hname, hact.self howner, Activation.argument, hact.declared, if_neg hmem]

end Activation.Enters

/-- What has an address is loaded. -/
theorem Lowers.eval_eq_load (hact : act.Enters site own input) {e : Expr} {ops : List Operand}
    (h : Lowers site params own vars (.address e) p ops r p') {place : Place}
    (hlocate : e.locate env act locals world = some (place, world')) :
    e.eval env act locals world = some (some (world'.load place), world') := by
  have hname : ∀ {id : NodeId} {ident : Ident} {symbol : SymbolId},
      site.ctx.bindings.symbol? id = some symbol → ¬ site.symbols.PointerArgument symbol →
      (Expr.name id ident).locate env act locals world = some (place, world') →
      (Expr.name id ident).eval env act locals world =
        some (some (world'.load place), world') := by
    intro id ident symbol hsymbol hpointer hlocate
    rw [Expr.locate, Effect.bind_apply (hact.symbol_apply hsymbol world)] at hlocate
    rw [Expr.eval, Effect.bind_apply (hact.symbol_apply hsymbol world)]
    simp only [hact.direct?_eq_none hpointer]
    exact Effect.map_apply some (Effect.bind_apply hlocate)
  cases h with
  | stored _ hsymbol _ hstored => exact hname hsymbol hstored hlocate
  | ownField _ _ hsymbol _ _ hfield => exact hname hsymbol hfield.not_pointerArgument hlocate
  | member =>
      rw [Expr.locate] at hlocate
      rw [Expr.eval]
      exact Effect.map_apply some (Effect.bind_apply hlocate)

/-! ## Code -/

/-- A run through a region goes beside the evaluation of a task. -/
structure Computes (env : Environment) (act : Activation) (locals : Locals)
    (input : String → Value) (task : Task) (p : Point) (ops : List Operand) (r : Region)
    (p' : Point) (s s' : RunState) : Prop where
  run : r.run env input s = .goesOn s'
  gives : task.Gives env act locals s.world (ops.map (s'.value input)) s'.world
  keeps : s.Keeps p.temps s'
  below : ∀ a ∈ ops, a.Below p'.temps

/-- Regions run one behind the other. -/
theorem Region.run_seq {s s₁ s₂ : RunState} {r₁ r₂ : Region} (h₁ : r₁.run env input s = .goesOn s₁)
    (h₂ : r₂.run env input s₁ = .goesOn s₂) : (r₁.seq r₂).run env input s = .goesOn s₂ := by
  rw [Region.run, h₁]
  exact h₂

/-- A pointer to an object is a pointer to its part of another class. -/
theorem Upcasts.run {actual owner : SymbolId} {receiver a : Operand}
    (h : Upcasts site actual owner receiver p a r p') (hbelow : receiver.Below p.temps)
    (s : RunState) :
    ∃ s', r.run env input s = .goesOn s' ∧ s'.world = s.world ∧
      s'.value input a = s.value input receiver ∧ s.Keeps p.temps s' ∧ a.Below p'.temps := by
  cases h with
  | same => exact ⟨s, rfl, rfl, rfl, .refl _ s, hbelow⟩
  | cast =>
      refine ⟨_, rfl, ?_, ?_, s.keeps_perform env input (.inr rfl), p.below_fresh _⟩
      · simp [RunState.perform]
      · simp [RunState.perform]

/-- A call defines a value if there is one to give back. -/
theorem RunState.run_call (env : Environment) (input : String → Value) (s : RunState) (p : Point)
    (ty : StorageType) (callee : String) (signature : Signature) (args : List Operand) :
    ∃ s', (Region.step (.call (p.result ty) callee signature args)).run env input s = .goesOn s' ∧
      s'.world = s.world.call env callee (args.map (s.value input)) ∧
      (p.result ty).toList.map (s'.value input) = (if ty.isVoid then none
        else some (s.world.reply env callee (args.map (s.value input)))).toList ∧
      s.Keeps p.temps s' ∧ ∀ a ∈ (p.result ty).toList, a.Below (p.afterResult ty).temps := by
  cases hvoid : ty.isVoid with
  | true =>
      refine ⟨_, rfl, ?_, ?_, s.keeps_perform env input (t := ty) (.inl ?_), ?_⟩ <;>
        simp [Point.result, hvoid, RunState.perform, Instruction.dest?]
  | false =>
      refine ⟨_, rfl, ?_, ?_, s.keeps_perform env input (t := ty) (.inr ?_), ?_⟩
      · simp [Point.result, hvoid, RunState.perform]
      · simp [Point.result, hvoid, RunState.perform]
      · simp [Point.result, hvoid, Instruction.dest?]
      · simpa [Point.result, Point.afterResult, hvoid] using p.below_fresh ty

/-- An operator that evaluates both sides. -/
theorem OperatorCode.computes (hact : act.Enters site own input) {id : NodeId} {a b : Operand}
    {op : BinaryOp} {t : StorageType} {instruction : Operand → Instruction}
    (h : OperatorCode site id a b op t instruction) {left right : Effect (Option Value)}
    {s s₁ s₂ : RunState} (hleft : left.needed s.world = some (s₁.value input a, s₁.world))
    (hright : right.needed s₁.world = some (s₂.value input b, s₂.world))
    (ha : s₂.value input a = s₁.value input a) (p : Point) :
    ∃ v, (Region.step (instruction (p.fresh t))).run env input s₂ =
        .goesOn (s₂.define (p.fresh t) v) ∧
      act.binary env id op left right s.world = some (some v, s₂.world) := by
  rw [Activation.binary, Effect.bind_apply hleft, ← ha]
  cases h with
  | and => exact ⟨_, rfl, Effect.bind_apply hright⟩
  | compare => exact ⟨_, rfl, Effect.bind_apply hright⟩
  | arith op q htype =>
      refine ⟨_, rfl, (Effect.bind_apply hright).trans ?_⟩
      rw [hact.ctx, htype]
      rfl

/-! ## One rule at a time -/

/-- From every state that agrees with the variables, the run of a region goes beside the
evaluation of its task. -/
def Follows (env : Environment) (act : Activation) (locals : Locals) (input : String → Value)
    (site : Site) (vars : List SymbolId) (task : Task) (p : Point) (ops : List Operand)
    (r : Region) (p' : Point) : Prop :=
  ∀ ⦃s : RunState⦄, Agrees site locals vars p s →
    ∃ s', Computes env act locals input task p ops r p' s s'

section

variable {id : NodeId} {ident : Ident} {e left right target value : Expr} {span : Span}
  {p₁ p₂ : Point} {a b address base : Operand} {values : List Operand} {r₁ r₂ : Region}
  {t : StorageType} {s : RunState}

/-- A string literal is the address of the first byte of its constant. -/
theorem Activation.Enters.computes_string (hact : act.Enters site own input) {text : String}
    {symbol : SymbolId} {entry : LiteralEntry}
    (hsymbol : site.ctx.bindings.symbol? id = some symbol)
    (hentry : site.symbols.literal? symbol = some entry) (ty : StorageType) :
    ∃ s', Computes env act locals input (.value (.literal id (.string text) span)) p
      [p.fresh (.pointer .int8)]
      (.step (.elementPtr (p.fresh (.pointer .int8)) (.global entry.globalName ty) [0, 0]))
      (p.next.record symbol (p.fresh (.pointer .int8))) s s' := by
  refine ⟨_, rfl, ⟨some (.pointer { root := .global entry.globalName, path := [0] }), ?_, ?_⟩,
    s.keeps_perform env input (.inr rfl), by simpa using p.below_fresh _⟩
  · rw [Expr.eval, Activation.literal]
    refine Effect.map_apply some ((Effect.bind_apply (hact.symbol_apply hsymbol _)).trans ?_)
    rw [hact.symbols_eq, hentry]
    simp [RunState.perform, Effect.known_bind, Effect.pure_apply]
  · simp [RunState.perform, Place.select]

/-- What stands at the address of an expression is its value. -/
theorem Follows.load (hact : act.Enters site own input)
    (haddress : Lowers site params own vars (.address e) p [address] r p₁)
    (ih : Follows env act locals input site vars (.address e) p [address] r p₁) :
    Follows env act locals input site vars (.value e) p [p₁.fresh t]
      (r.seq (.step (.load (p₁.fresh t) address))) p₁.next := by
  intro s hs
  obtain ⟨s₁, hrun, ⟨place, hlocate, hplace⟩, hkeeps, -⟩ := ih hs
  have haddr : s₁.value input address = .pointer place := by simpa using hplace
  refine ⟨_, Region.run_seq hrun rfl, ⟨some (s₁.world.load place), ?_, ?_⟩,
    hkeeps.trans (s₁.keeps_perform env input (.inr rfl)) haddress.numbered.counts.le,
    by simpa using p₁.below_fresh t⟩
  · rw [haddress.eval_eq_load hact hlocate]
    simp [RunState.perform]
  · simp [RunState.perform, haddr]

/-- The right side of a disjunction runs when the left side has not decided it. -/
theorem Follows.or
    (hleft : Lowers site params own vars (.value left) ((p.issue 3).enter p.labels) [a] r₁ p₁)
    (hright : Lowers site params own vars (.value right) (p₁.enter (p.labels + 1)) [b] r₂ p₂)
    (ih₁ : Follows env act locals input site vars (.value left) ((p.issue 3).enter p.labels) [a]
      r₁ p₁)
    (ih₂ : Follows env act locals input site vars (.value right) (p₁.enter (p.labels + 1)) [b]
      r₂ p₂) :
    Follows env act locals input site vars (.value (.binary id .or left right span)) p
      [p₂.fresh .bool]
      (.shortCircuit p.labels (p.labels + 1) (p.labels + 2) r₁ a r₂ b (p₂.fresh .bool))
      (p₂.enter (p.labels + 2)).next := by
  intro s hs
  obtain ⟨s₁, hrun₁, hgives₁, hkeeps₁, -⟩ := ih₁ hs
  have hs₁ : Agrees site locals vars p₁ s₁ :=
    Agrees.lowers (p := (p.issue 3).enter p.labels) hs hleft hkeeps₁
  have hle₁ : p.temps ≤ p₁.temps := hleft.numbered.counts.le
  have hle : p.temps ≤ p₂.temps := Nat.le_trans hle₁ hright.numbered.counts.le
  have hleftRun := hgives₁.needed
  by_cases htrue : (s₁.value input a).truth = true
  · -- the left side decides
    refine ⟨s₁.define (p₂.fresh .bool) (s₁.value input a), ?_, ⟨some (.bool true), ?_, ?_⟩,
      hkeeps₁.trans (s₁.keeps_define p₂ _ _) hle, by simpa using p₂.below_fresh _⟩
    · simp [Region.run, hrun₁, Finish.andThen, htrue]
    · rw [Expr.eval, Activation.binary, Effect.bind_apply hleftRun]
      simp [htrue, Effect.pure_apply]
    · simp [Value.eq_of_truth htrue]
  · obtain ⟨s₂, hrun₂, ⟨value, heval, hvalue⟩, hkeeps₂, -⟩ := ih₂ hs₁
    refine ⟨s₂.define (p₂.fresh .bool) (s₂.value input b), ?_, ⟨value, ?_, ?_⟩,
      (hkeeps₁.trans hkeeps₂ hle₁).trans (s₂.keeps_define p₂ _ _) hle,
      by simpa using p₂.below_fresh _⟩
    · simp [Region.run, hrun₁, hrun₂, Finish.andThen, htrue]
    · rw [Expr.eval, Activation.binary, Effect.bind_apply hleftRun]
      simpa [htrue] using heval
    · simpa using hvalue

/-- The other operators run both sides and combine their values. -/
theorem Follows.operator (hact : act.Enters site own input) {op : BinaryOp}
    {instruction : Operand → Instruction}
    (hleft : Lowers site params own vars (.value left) p [a] r₁ p₁)
    (hright : Lowers site params own vars (.value right) p₁ [b] r₂ p₂)
    (hcode : OperatorCode site id a b op t instruction)
    (ih₁ : Follows env act locals input site vars (.value left) p [a] r₁ p₁)
    (ih₂ : Follows env act locals input site vars (.value right) p₁ [b] r₂ p₂) :
    Follows env act locals input site vars (.value (.binary id op left right span)) p
      [p₂.fresh t] (r₁.seq (r₂.seq (.step (instruction (p₂.fresh t))))) p₂.next := by
  intro s hs
  obtain ⟨s₁, hrun₁, hgives₁, hkeeps₁, hbelow₁⟩ := ih₁ hs
  obtain ⟨s₂, hrun₂, hgives₂, hkeeps₂, -⟩ := ih₂ (hs.lowers hleft hkeeps₁)
  have hle₁ : p.temps ≤ p₁.temps := hleft.numbered.counts.le
  have hle : p.temps ≤ p₂.temps := Nat.le_trans hle₁ hright.numbered.counts.le
  have ha : s₂.value input a = s₁.value input a := hkeeps₂.value (hbelow₁ a (by simp))
  obtain ⟨v, hstep, heval⟩ := hcode.computes hact hgives₁.needed hgives₂.needed ha p₂
  refine ⟨s₂.define (p₂.fresh t) v, Region.run_seq hrun₁ (Region.run_seq hrun₂ hstep),
    ⟨some v, ?_, by simp⟩,
    (hkeeps₁.trans hkeeps₂ hle₁).trans (s₂.keeps_define p₂ _ _) hle,
    by simpa using p₂.below_fresh _⟩
  rw [Expr.eval, heval, RunState.world_define]

/-- An assignment stores the value of its right side at the address of its target. -/
theorem Follows.assign
    (hvalue : Lowers site params own vars (.value value) p [a] r₁ p₁)
    (ih₁ : Follows env act locals input site vars (.value value) p [a] r₁ p₁)
    (ih₂ : Follows env act locals input site vars (.address target) p₁ [address] r₂ p₂) :
    Follows env act locals input site vars (.value (.assign id target value span)) p []
      (r₁.seq (r₂.seq (.step (.store a address)))) p₂ := by
  intro s hs
  obtain ⟨s₁, hrun₁, hgives₁, hkeeps₁, hbelow₁⟩ := ih₁ hs
  obtain ⟨s₂, hrun₂, ⟨place, hlocate, hplace⟩, hkeeps₂, -⟩ := ih₂ (hs.lowers hvalue hkeeps₁)
  have ha : s₂.value input a = s₁.value input a := hkeeps₂.value (hbelow₁ a (by simp))
  have haddr : s₂.value input address = .pointer place := by simpa using hplace
  refine ⟨_, Region.run_seq hrun₁ (Region.run_seq hrun₂ rfl), ⟨none, ?_, rfl⟩,
    hkeeps₁.trans hkeeps₂ hvalue.numbered.counts.le, by simp⟩
  rw [Expr.eval, Effect.bind_apply hgives₁.needed, Effect.bind_apply hlocate]
  simp [RunState.perform, ha, haddr]
  rfl

/-- A call hands its receiver and the values of its arguments to the function. -/
theorem Follows.call (htable : site.symbols.Lowerable) (hact : act.Enters site own input)
    {callee : Ident} {object : Option Expr} {args : List Expr} {function : SymbolId}
    {entry : FunctionEntry} {signature : Signature} {names : List String} {self : List Operand}
    (hcall : e.IsCall id callee object args)
    (hsymbol : site.ctx.bindings.symbol? id = some function)
    (hentry : site.symbols.function? function = some entry)
    (hsignature : site.symbols.signature function = .ok (signature, names))
    (hself : Lowers site params own vars (.receiver object entry.owner) p self r₁ p₁)
    (hvalues : Lowers site params own vars (.values args) p₁ values r₂ p₂)
    (ih₁ : Follows env act locals input site vars (.receiver object entry.owner) p self r₁ p₁)
    (ih₂ : Follows env act locals input site vars (.values args) p₁ values r₂ p₂) :
    Follows env act locals input site vars (.value e) p (p₂.result signature.returnType).toList
      (r₁.seq (r₂.seq (.step (.call (p₂.result signature.returnType) entry.linkName signature
        (self ++ values))))) (p₂.afterResult signature.returnType) := by
  intro s hs
  obtain ⟨s₁, hrun₁, hgives₁, hkeeps₁, hbelow₁⟩ := ih₁ hs
  obtain ⟨s₂, hrun₂, hgives₂, hkeeps₂, -⟩ := ih₂ (hs.lowers hself hkeeps₁)
  have hle₁ : p.temps ≤ p₁.temps := hself.numbered.counts.le
  have hle : p.temps ≤ p₂.temps := Nat.le_trans hle₁ hvalues.numbered.counts.le
  have hargs : (self ++ values).map (s₂.value input) =
      self.map (s₁.value input) ++ values.map (s₂.value input) := by
    rw [List.map_append, hkeeps₂.values hbelow₁]
  have hvoid : entry.returnType.isVoid = signature.returnType.isVoid := by
    obtain ⟨_, hsignature', -, hvoid, -⟩ := htable.signature hentry
    cases hsignature.symm.trans hsignature'
    exact hvoid.symm
  have heval : e.eval env act locals s.world =
      some (if signature.returnType.isVoid then none
          else some (s₂.world.reply env entry.linkName ((self ++ values).map (s₂.value input))),
        s₂.world.call env entry.linkName ((self ++ values).map (s₂.value input))) := by
    rw [hcall.eval_eq, Activation.callOf, Effect.bind_apply (hact.symbol_apply hsymbol _),
      hact.symbols_eq, hentry, Effect.known_bind, Effect.bind_apply hgives₁,
      Effect.bind_apply hgives₂, hargs, ← hvoid]
    rfl
  obtain ⟨s₃, hrun₃, hworld, hresult, hkeeps₃, hbelow₃⟩ := s₂.run_call env input p₂
    signature.returnType entry.linkName signature (self ++ values)
  refine ⟨s₃, Region.run_seq hrun₁ (Region.run_seq hrun₂ hrun₃), ⟨_, ?_, hresult⟩,
    (hkeeps₁.trans hkeeps₂ hle₁).trans hkeeps₃ hle, hbelow₃⟩
  rw [heval, hworld]

/-- A variable with storage stands where the point says. -/
theorem Activation.Enters.computes_stored (hact : act.Enters site own input) {symbol : SymbolId}
    {entry : VariableEntry} {n : Nat}
    (hsymbol : site.ctx.bindings.symbol? id = some symbol)
    (hentry : site.symbols.storedVariable? symbol = some entry) (hvar : symbol ∈ vars)
    (hcurrent : p.addresses.current symbol site.symbols = .ok (.temp n (.pointer t))) :
    Follows env act locals input site vars (.address (.name id ident)) p [.temp n (.pointer t)]
      .empty p := by
  intro s hs
  obtain ⟨m, t', place, hm, hlt, hplace, htemps⟩ := hs symbol hvar
  cases hcurrent.symm.trans hm
  refine ⟨s, rfl, ⟨place, ?_, by simpa using htemps⟩, .refl _ s, by simpa using hlt⟩
  rw [Expr.locate, Effect.bind_apply (hact.symbol_apply hsymbol _), hact.place?_stored hentry,
    hplace]
  rfl

/-- A field without an object in front of it is a part of the receiver. -/
theorem Activation.Enters.computes_ownField (hact : act.Enters site own input)
    {owner field : SymbolId} {index : Nat} (ty : StorageType)
    (hsymbol : site.ctx.bindings.symbol? id = some field) (howner : site.owner = some owner)
    (hfield : site.symbols.FieldAt owner field index t) :
    ∃ s', Computes env act locals input (.address (.name id ident)) p [p.fresh (.pointer t)]
      (.step (.elementPtr (p.fresh (.pointer t)) (.named selfName ty) [0, index])) p.next s s' := by
  refine ⟨_, rfl, ⟨act.self.place.select [index], ?_, ?_⟩,
    s.keeps_perform env input (.inr rfl), by simpa using p.below_fresh _⟩
  · rw [Expr.locate, Effect.bind_apply (hact.symbol_apply hsymbol _), hact.place?_field hfield]
    simp [RunState.perform, Effect.known]
  · simp [RunState.perform, hact.self (by simp [howner])]

/-- A member is a part of the object in front of it. -/
theorem Follows.member (hact : act.Enters site own input) {object : Expr}
    {record field : SymbolId} {index : Nat}
    (hsymbol : site.ctx.bindings.symbol? id = some field)
    (hbase : Lowers site params own vars (.base object) p [base] r p₁)
    (hfield : site.symbols.FieldAt record field index t)
    (ih : Follows env act locals input site vars (.base object) p [base] r p₁) :
    Follows env act locals input site vars (.address (.member id object ident span)) p
      [p₁.fresh (.pointer t)]
      (r.seq (.step (.elementPtr (p₁.fresh (.pointer t)) base [0, index]))) p₁.next := by
  intro s hs
  obtain ⟨s₁, hrun, ⟨v, hbase', hv⟩, hkeeps, -⟩ := ih hs
  have hvalue : s₁.value input base = v := by simpa using hv
  refine ⟨_, Region.run_seq hrun rfl, ⟨v.place.select [index], ?_, ?_⟩,
    hkeeps.trans (s₁.keeps_perform env input (.inr rfl)) hbase.numbered.counts.le,
    by simpa using p₁.below_fresh _⟩
  · rw [Expr.locate, Activation.member, Effect.bind_apply (hact.symbol_apply hsymbol _),
      hact.offset?_eq hfield, Effect.known_bind, Effect.bind_apply hbase']
    simp [RunState.perform, Effect.pure_apply]
  · simp [RunState.perform, hvalue]

/-- The object in front of a method call is handed on as an object of the declaring class. -/
theorem Follows.object {object : Expr} {actual owner : SymbolId}
    (hvalue : Lowers site params own vars (.value object) p [a] r₁ p₁)
    (hcast : Upcasts site actual owner a p₁ b r₂ p₂)
    (ih : Follows env act locals input site vars (.value object) p [a] r₁ p₁) :
    Follows env act locals input site vars (.receiver (some object) (some owner)) p [b]
      (r₁.seq r₂) p₂ := by
  intro s hs
  obtain ⟨s₁, hrun₁, hgives, hkeeps₁, hbelow₁⟩ := ih hs
  obtain ⟨s₂, hrun₂, hworld, hcasted, hkeeps₂, hbelow₂⟩ := hcast.run (hbelow₁ a (by simp)) s₁
  refine ⟨s₂, Region.run_seq hrun₁ hrun₂, ?_,
    hkeeps₁.trans hkeeps₂ hvalue.numbered.counts.le, by simpa using hbelow₂⟩
  rw [List.map_singleton, hcasted, hworld]
  exact Effect.map_apply _ hgives.needed

/-- Arguments run one behind the other, and later ones leave the values of earlier ones. -/
theorem Follows.cons {rest : List Expr}
    (hvalue : Lowers site params own vars (.value e) p [a] r₁ p₁)
    (hvalues : Lowers site params own vars (.values rest) p₁ values r₂ p₂)
    (ih₁ : Follows env act locals input site vars (.value e) p [a] r₁ p₁)
    (ih₂ : Follows env act locals input site vars (.values rest) p₁ values r₂ p₂) :
    Follows env act locals input site vars (.values (e :: rest)) p (a :: values) (r₁.seq r₂)
      p₂ := by
  intro s hs
  obtain ⟨s₁, hrun₁, hgives₁, hkeeps₁, hbelow₁⟩ := ih₁ hs
  obtain ⟨s₂, hrun₂, hgives₂, hkeeps₂, hbelow₂⟩ := ih₂ (hs.lowers hvalue hkeeps₁)
  have ha : s₂.value input a = s₁.value input a := hkeeps₂.value (hbelow₁ a (by simp))
  refine ⟨s₂, Region.run_seq hrun₁ hrun₂, ?_, hkeeps₁.trans hkeeps₂ hvalue.numbered.counts.le,
    ?_⟩
  · rw [Task.Gives, Expr.evalAll, Effect.bind_apply hgives₁.needed, Effect.bind_apply hgives₂]
    simp [ha, Effect.pure_apply]
  · intro b hb
    rcases List.mem_cons.1 hb with rfl | hb
    · exact (hbelow₁ b (by simp)).mono hvalues.numbered.counts.le
    · exact hbelow₂ b hb

end

/-- **The code of expressions computes their values.**  The run through the region goes on,
with the world that the evaluation leads to, and the operands have the values that it gives. -/
theorem Lowers.computes (env : Environment) (htable : site.symbols.Lowerable)
    (hact : act.Enters site own input) {task : Task} {ops : List Operand}
    (h : Lowers site params own vars task p ops r p') :
    Follows env act locals input site vars task p ops r p' := by
  induction h with
  | bool id b span p =>
      intro s _
      refine ⟨s, rfl, ⟨some (.bool b), ?_, ?_⟩, .refl _ s, by simp [Operand.ofBool, Operand.Below]⟩
      · rw [Expr.eval]
        rfl
      · cases b <;> rfl
  | @int id q n span p htype hinteger hfits =>
      intro s _
      refine ⟨s, rfl, ⟨some (.int n), ?_, rfl⟩, .refl _ s, by simp [Operand.Below]⟩
      rw [Expr.eval]
      rfl
  | string span p hsymbol hentry => exact fun s _ => hact.computes_string hsymbol hentry _
  | @argument id symbol entry t ident p hsymbol hentry hpointer hty hparam hown =>
      intro s _
      refine ⟨s, rfl, ⟨some (act.argument symbol), ?_, ?_⟩, .refl _ s, by simp [Operand.Below]⟩
      · rw [Expr.eval, Effect.bind_apply (hact.symbol_apply hsymbol _)]
        simp only [hact.direct?_eq hentry hpointer]
        rfl
      · simp [hact.input_eq hentry hown]
  | load haddress _ ih => exact ih.load hact haddress
  | or hleft hright _ _ ih₁ ih₂ => exact Follows.or hleft hright ih₁ ih₂
  | operator hleft hright hcode ih₁ ih₂ => exact Follows.operator hact hleft hright hcode ih₁ ih₂
  | assign hvalue _ _ ih₁ ih₂ => exact Follows.assign hvalue ih₁ ih₂
  | call hcall hsymbol hentry hsignature hself hvalues _ _ ih₁ ih₂ =>
      exact Follows.call htable hact hcall hsymbol hentry hsignature hself hvalues ih₁ ih₂
  | stored _ hsymbol hentry _ hvar hcurrent =>
      exact hact.computes_stored hsymbol hentry hvar hcurrent
  | ownField _ p hsymbol howner _ hfield =>
      exact fun s _ => hact.computes_ownField _ hsymbol howner hfield
  | member hsymbol hbase _ hfield ih => exact ih.member hact hsymbol hbase hfield
  | @basePointer object ty p p₁ base r htype hpointer hvalue ih =>
      intro s hs
      obtain ⟨s₁, hrun, hgives, hkeeps, hbelow⟩ := ih hs
      refine ⟨s₁, hrun, ⟨s₁.value input base, ?_, rfl⟩, hkeeps, hbelow⟩
      rw [Activation.base, hact.ctx, htype, Effect.known_bind, if_pos hpointer]
      exact Effect.map_apply _ hgives.needed
  | @basePlace object ty p p₁ base r htype hplace haddress ih =>
      intro s hs
      obtain ⟨s₁, hrun, ⟨place, hlocate, hvalues⟩, hkeeps, hbelow⟩ := ih hs
      refine ⟨s₁, hrun, ⟨.pointer place, ?_, hvalues⟩, hkeeps, hbelow⟩
      rw [Activation.base, hact.ctx, htype, Effect.known_bind, if_neg (by simp [hplace])]
      exact hlocate
  | free p => exact fun s _ => ⟨s, rfl, rfl, .refl _ s, by simp⟩
  | @self actual owner p p₁ a r howner hself hinherits hcast =>
      intro s _
      obtain ⟨s₁, hrun, hworld, hvalue, hkeeps, hbelow⟩ := hcast.run trivial s
      refine ⟨s₁, hrun, ?_, hkeeps, by simpa using hbelow⟩
      rw [List.map_singleton, hvalue, hworld, RunState.value_named, hact.self (by simp [howner])]
      rfl
  | object _ hvalue _ _ hcast ih => exact ih.object hvalue hcast
  | nil p =>
      intro s _
      refine ⟨s, rfl, ?_, .refl _ s, by simp⟩
      rw [Task.Gives, Expr.evalAll]
      rfl
  | cons hvalue hvalues ih₁ ih₂ => exact ih₁.cons hvalue hvalues ih₂

end ClassLang
