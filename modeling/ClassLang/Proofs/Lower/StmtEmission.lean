import ClassLang.Proofs.Lower.Emission

/-!
# The lowering of statements and functions follows the rules

The same for statements (`LowersStmt.emits`), for the storage of arguments
(`BindsArguments.emits`) and for whole functions (`LowersBody.lowerFunction_eq`).  The
sides of a conditional statement are filled in lists of their own and spliced behind the
branch, which gives the flattening of the region.
-/

namespace ClassLang

open Lowering

variable {site : Site} {params : List (String × StorageType)} {own : List SymbolId}
  {ret : StorageType}
  {vars vars' : List SymbolId} {p p' : Point} {r : Region}

/-- Regions of statements are proper, and the point keeps the current label. -/
theorem LowersStmt.shape {task : StmtTask}
    (h : LowersStmt site params own ret vars task p r p' vars') :
    r.Proper ∧ p'.label = r.exit p.label := by
  induction h with
  | nil => exact ⟨trivial, rfl⟩
  | cons _ hgoesOn _ ih₁ ih₂ =>
      exact ⟨⟨ih₁.1, ih₂.1, hgoesOn⟩, by simp [Region.exit, ih₂.2, ih₁.2]⟩
  | last _ _ _ ih => exact ih
  | block _ _ _ ih => exact ih
  | declare => exact ⟨trivial, rfl⟩
  | declareWith _ _ _ _ _ _ hvalue =>
      have hthrough := hvalue.through
      refine ⟨⟨trivial, ⟨hthrough.proper, trivial, hthrough.goesOn⟩, rfl⟩, ?_⟩
      simpa [Region.exit] using hthrough.label
  | ifThen _ hcondition _ _ ih =>
      exact ⟨⟨hcondition.through.proper, ih.1, hcondition.through.goesOn⟩, rfl⟩
  | ifElse _ hcondition _ _ _ ih₁ ih₂ =>
      refine ⟨⟨hcondition.through.proper, ⟨ih₁.1, ih₂.1⟩, hcondition.through.goesOn⟩, ?_⟩
      simp only [Point.meet, Region.exit]
      split
      · simpa using ih₂.2
      · rfl
  | ret => exact ⟨trivial, rfl⟩
  | retValue _ hvalue =>
      have hthrough := hvalue.through
      exact ⟨⟨hthrough.proper, trivial, hthrough.goesOn⟩, hthrough.label⟩
  | expr _ hvalue => exact ⟨hvalue.through.proper, hvalue.through.label⟩

namespace Lowering

/-- The code of one side of a conditional statement goes to a list of its own. -/
theorem emits_side {fill : Lowering Unit} {label : Label} (continuation : Label)
    (h : Emits fill (p.enter label) () r.code p') (hproper : r.Proper) :
    Emits (side label continuation fill) p
      (!r.leaves, .label label :: (r.code ++ r.jumpOn continuation)) [] p' := by
  have hopen := Region.codeOpen_iff hproper
  refine emits_collect ((emits_label label p).bind rfl ?_)
  cases hleaves : r.leaves with
  | false =>
      have hjump : Region.jumpOn continuation r = [.jump continuation] := by
        simp [Region.jumpOn, hleaves]
      rw [hjump]
      refine h.bind (hopen.2 hleaves) ((emits_terminated p').then ?_)
      simpa using (emits_emit (i := .jump continuation) rfl p').map fun _ => true
  | true =>
      have hjump : Region.jumpOn continuation r = [] := by simp [Region.jumpOn, hleaves]
      rw [hjump]
      change Emits _ _ _ (r.code ++ []) p'
      rw [List.append_nil]
      refine h.skip (by simp [hopen, hleaves]) ?_
      intro blocks hclosed
      rw [StateT.run_bind, run_terminated_of_closed hclosed]
      rfl

/-- The code of a conditional statement without a second side. -/
theorem emits_ifThen {condition : Operand} {positive : Lowering Unit}
    (h : Emits positive ((p.issue 2).enter p.labels) () r.code p') (hproper : r.Proper) :
    Emits (Lowering.ifThen condition positive) p ()
      (Region.ifThen condition p.labels (p.labels + 1) r).code (p'.enter (p.labels + 1)) := by
  have hside := emits_side (p.labels + 1) h hproper
  have hsecond := emits_collect (emits_label (p.labels + 1) p')
  refine (emits_freshLabel p).then ((emits_freshLabel _).then (hside.then (hsecond.then ?_)))
  simpa [Region.code] using emits_spliced (.branch condition p.labels (p.labels + 1)) rfl
    (.label p.labels :: (r.code ++ r.jumpOn (p.labels + 1))) [.label (p.labels + 1)]
    (p'.enter (p.labels + 1))

/-- The code of a conditional statement with two sides. -/
theorem emits_ifElse {condition : Operand} {positive negative : Lowering Unit} {p₁ p₂ : Point}
    {r₁ r₂ : Region}
    (h₁ : Emits positive ((p.issue 3).enter p.labels) () r₁.code p₁) (hproper₁ : r₁.Proper)
    (h₂ : Emits negative (p₁.enter (p.labels + 1)) () r₂.code p₂) (hproper₂ : r₂.Proper) :
    Emits (Lowering.ifElse condition positive negative) p ()
      (Region.ifElse condition p.labels (p.labels + 1) (p.labels + 2) r₁ r₂).code
      (p₂.meet (p.labels + 2) r₁ r₂) := by
  have hfirst := emits_side (p.labels + 2) h₁ hproper₁
  have hsecond := emits_side (p.labels + 2) h₂ hproper₂
  refine (emits_freshLabel p).then ((emits_freshLabel _).then ((emits_freshLabel _).then
    (hfirst.then (hsecond.then ?_))))
  intro blocks _
  by_cases hmeet : r₁.leaves && r₂.leaves
  · have hleaves : r₁.leaves = true ∧ r₂.leaves = true := by simpa using hmeet
    simp [emit, splice, Point.frame, Point.meet, BlockStack.emit, Instruction.label?,
      Region.code, Region.meeting, hleaves]
    rfl
  · have hgoesOn : (!r₁.leaves || !r₂.leaves) = true := by
      cases h : r₁.leaves <;> simp_all
    simp [emit, splice, Point.frame, Point.meet, BlockStack.emit, Instruction.label?,
      Region.code, Region.meeting, hmeet, hgoesOn]
    rfl

end Lowering

/-- The program of a task emits some code. -/
def StmtTask.Emits (site : Site) (p : Point) (code : List Instruction) (p' : Point) :
    StmtTask → Prop
  | .one s => ClassLang.Emits (s.lower site) p () code p'
  | .all stmts => ClassLang.Emits (Stmt.lowerAll site stmts) p () code p'

/-- What comes behind a terminator is left out. -/
theorem skips_lowerAll (site : Site) (stmts : List Stmt) (p : Point) :
    Skips (Stmt.lowerAll site stmts) p () := by
  intro blocks hclosed
  cases stmts with
  | nil => rfl
  | cons s rest =>
      simp only [Stmt.lowerAll]
      rw [StateT.run_bind, run_terminated_of_closed hclosed]
      rfl

/-- **Statements are lowered by the rules.** -/
theorem LowersStmt.emits {task : StmtTask}
    (h : LowersStmt site params own ret vars task p r p' vars') : task.Emits site p r.code p' := by
  induction h with
  | nil vars p => exact emits_pure () p
  | cons hfirst hgoesOn hrest ih₁ ih₂ =>
      have hopen := (Region.codeOpen_iff hfirst.shape.1).2 hgoesOn
      simp only [StmtTask.Emits, Stmt.lowerAll]
      exact (emits_terminated _).then (ih₁.bind hopen ih₂)
  | last rest hfirst hleaves ih =>
      have hclosed := mt (Region.codeOpen_iff hfirst.shape.1).1 (by simp [hleaves])
      simp only [StmtTask.Emits, Stmt.lowerAll]
      exact (emits_terminated _).then (ih.skip hclosed (skips_lowerAll site rest _))
  | block id span hstmts ih => exact ih
  | declare ty name span hsymbol hty hallocates =>
      refine (emits_symbolOf hsymbol .variable name.span _).then ((emits_storage hty _).then ?_)
      exact (emits_allocate _ _ _).finally rfl (emits_pure () _)
  | declareWith ty name span hsymbol hty hallocates hvalue hfits =>
      have hneeded := emits_needed site hvalue.emits hvalue.codeOpen
      refine (emits_symbolOf hsymbol .variable name.span _).then ((emits_storage hty _).then ?_)
      refine (emits_allocate _ _ _).bind rfl ((hneeded _).bind hvalue.codeOpen ?_)
      exact emits_emit rfl _
  | ifThen span hcondition ha hpositive ih =>
      have hneeded := emits_needed site hcondition.emits hcondition.codeOpen
      exact (hneeded _).bind hcondition.codeOpen (emits_ifThen ih hpositive.shape.1)
  | ifElse span hcondition ha hpositive hnegative ih₁ ih₂ =>
      have hneeded := emits_needed site hcondition.emits hcondition.codeOpen
      exact (hneeded _).bind hcondition.codeOpen
        (emits_ifElse ih₁ hpositive.shape.1 ih₂ hnegative.shape.1)
  | ret vars span p hvoid => exact emits_emit rfl p
  | retValue span hvalue hty hvoid =>
      have hneeded := emits_needed site hvalue.emits hvalue.codeOpen
      exact (hneeded _).bind hvalue.codeOpen (emits_emit rfl _)
  | expr span hvalue =>
      exact hvalue.emits.finally hvalue.codeOpen (emits_pure () _)

/-- Storage for arguments lets control through. -/
theorem BindsArguments.through {arguments : List SymbolId}
    (h : BindsArguments site params vars arguments p r p' vars') : r.Through p p' := by
  induction h with
  | nil => exact ⟨trivial, rfl, rfl⟩
  | pointer _ _ ih => exact ih
  | value _ _ _ _ _ ih => exact ⟨⟨trivial, ⟨trivial, ih.proper, rfl⟩, rfl⟩, ih.goesOn, ih.label⟩

/-- **Arguments get their storage by the rules.** -/
theorem BindsArguments.emits {arguments : List SymbolId}
    (h : BindsArguments site params vars arguments p r p' vars') :
    Emits (bindArguments site arguments) p () r.code p' := by
  induction h with
  | nil vars p => exact emits_pure () p
  | pointer hpointer hrest ih => simpa [bindArguments, hpointer] using ih
  | value hvalue hty hparam hallocates hrest ih =>
      simp only [bindArguments, hvalue]
      refine (emits_storage hty _).then ((emits_allocate _ _ _).bind rfl ?_)
      exact (emits_emit rfl _).bind rfl ih

/-- The body of a function follows the rules. -/
theorem LowersBody.emits {id : SymbolId} {signature : Signature} {block : Option Block}
    (h : LowersBody site params signature.returnType (site.symbols.arguments id) block r) :
    ∃ p', Emits (Lowering.body site id signature block) (.start site.function) () r.code p' := by
  cases h with
  | implicit hvoid =>
      refine ⟨.start site.function, (emits_terminated _).then ?_⟩
      simp only [hvoid]
      exact emits_emit rfl _
  | @leaves block p₁ p₂ r₁ r₂ vars₁ vars₂ harguments hstmts hleaves =>
      have hproper := harguments.through
      have hopen := (Region.codeOpen_iff hproper.proper).2 hproper.goesOn
      have hclosed := mt (Region.codeOpen_iff hstmts.shape.1).1 (by simp [hleaves])
      refine ⟨p₂, harguments.emits.bind hopen (hstmts.emits.skip hclosed ?_)⟩
      intro blocks hblocks
      rw [StateT.run_bind, run_terminated_of_closed hblocks]
      rfl
  | @goesOn block p₁ p₂ r₁ r₂ vars₁ vars₂ harguments hstmts hleaves hvoid =>
      have hproper := harguments.through
      have hopen := (Region.codeOpen_iff hproper.proper).2 hproper.goesOn
      have hopen' := (Region.codeOpen_iff hstmts.shape.1).2 hleaves
      refine ⟨p₂, harguments.emits.bind hopen (hstmts.emits.bind hopen' ?_)⟩
      refine (emits_terminated p₂).then ?_
      simp only [hvoid]
      exact emits_emit rfl p₂

/-- **A function is lowered by the rules.**  Where its signature is known and its body has a
region, its code is that signature with the flattened region. -/
theorem LowersBody.lowerFunction_eq {id : SymbolId} {signature : Signature}
    {names : List String} {block : Option Block}
    (hsignature : site.symbols.signature id = .ok (signature, names))
    (h : LowersBody site params signature.returnType (site.symbols.arguments id) block r) :
    site.lowerFunction id block = .ok (.function site.function signature names r.code) := by
  obtain ⟨p', hemits⟩ := h.emits
  have hrun := hemits { function := site.function } rfl
  have hframe : site.frame = (Point.start site.function).frame { function := site.function } := rfl
  simp only [Site.lowerFunction, hsignature, hframe, hrun, bind, Except.bind]
  simp [Point.frame, BlockStack.splice, BlockStack.finish]
  rfl

end ClassLang
