import ClassLang.Proofs.Lower.Unit
import ClassLang.Proofs.Syntax.Parse

/-!
# Sources that are accepted

The stages of a compilation fit together: a source that parses, declares its names and
resolves without an error is laid out and has code (`compile_ne_internal`).  So a
compilation ends in code or in diagnostics, and what is known about accepted sources
(`Accepted`) is the ground for everything that is proved about generated code.
-/

namespace ClassLang

namespace Script

/-- The context behind the declaration of names. -/
def declaredContext (script : Script) : Context := (script.declare.run .initial).2

/-- The context behind resolution. -/
def resolvedContext (script : Script) : Context := (script.resolve.run script.declaredContext).2

/-- A script that is resolved without an error is analysed. -/
theorem analysed {script : Script} (hproper : script.Proper)
    (hclean : script.resolvedContext.Clean) : Analysed script script.resolvedContext := by
  obtain ⟨hbefore, hresolve⟩ := script.does_resolve hproper script.declaredContext _ _ rfl hclean
  obtain ⟨-, hdeclare⟩ := script.does_declare hproper .initial _ _ rfl hbefore
  exact hresolve (hdeclare rfl)

/-- The stages of a compilation, one after the other. -/
theorem compile_eq (script : Script) :
    script.compile = (do
      script.declaredContext.stopOnErrors .declaration
      script.resolvedContext.stopOnErrors .resolution
      match script.resolvedContext.layOut with
      | (some error, _) => .error (.internal (.invariant (.layouts error)))
      | (none, ctx) =>
        match (ctx.internLiterals script).unitCode script with
        | .ok unit => .ok ⟨unit, ctx.internLiterals script⟩
        | .error error => .error (.internal error)) := rfl

end Script

/-- What is known about a source that has code. -/
structure Accepted (source : String) (script : Script) (compiled : Compiled) : Prop where
  parse_eq : parse source = .ok script
  proper : script.Proper
  complete : Complete script compiled.context
  generates : Generates script compiled.context compiled.unit

/-- A script without errors has code. -/
theorem Script.compile_of_clean {script : Script} (hproper : script.Proper)
    (hdeclared : script.declaredContext.Clean) (hresolved : script.resolvedContext.Clean) :
    ∃ laid unit, script.resolvedContext.layOut = (none, laid) ∧
      laid.generate script = .ok unit ∧
      script.compile = .ok ⟨unit, laid.internLiterals script⟩ ∧
      Complete script (laid.internLiterals script) ∧
      Generates script (laid.internLiterals script) unit := by
  obtain ⟨laid, hlaid, hcomplete⟩ := (script.analysed hproper hresolved).complete hproper
  obtain ⟨unit, hunit, hgenerates⟩ := hcomplete.unitCode_eq hproper
  refine ⟨laid, unit, hlaid, hunit, ?_, hcomplete, hgenerates⟩
  rw [Script.compile_eq, Context.stopOnErrors, Context.stopOnErrors, hdeclared, hresolved, hlaid]
  simp only [hunit]
  rfl

/-- A script with errors has diagnostics. -/
theorem Script.compile_of_errors {script : Script}
    (h : ¬ (script.declaredContext.Clean ∧ script.resolvedContext.Clean)) :
    ∃ stage diagnostics, script.compile = .error (.diagnostics stage diagnostics) := by
  rw [Script.compile_eq]
  cases hdeclared : script.declaredContext.diagnostics.hasErrors with
  | true => exact ⟨_, _, by rw [Context.stopOnErrors, hdeclared]; rfl⟩
  | false =>
      cases hresolved : script.resolvedContext.diagnostics.hasErrors with
      | true =>
          rw [Context.stopOnErrors, Context.stopOnErrors, hdeclared, hresolved]
          exact ⟨_, _, rfl⟩
      | false => exact absurd ⟨hdeclared, hresolved⟩ h

/-- What was resolved without an error and laid out is what code was generated from. -/
theorem resolved_of_compile {source : String} {compiled : Compiled}
    (h : compile source = .ok compiled) : ∃ script laid, Accepted source script compiled ∧
      script.resolvedContext.Clean ∧ script.resolvedContext.layOut = (none, laid) ∧
      compiled.context = laid.internLiterals script := by
  unfold compile at h
  split at h
  · next script hparse =>
      have hproper := Script.proper_of_parse hparse
      by_cases hclean : script.declaredContext.Clean ∧ script.resolvedContext.Clean
      · obtain ⟨laid, unit, hlaid, -, hcompile, hcomplete, hgenerates⟩ :=
          script.compile_of_clean hproper hclean.1 hclean.2
        cases h.symm.trans hcompile
        exact ⟨script, laid, ⟨hparse, hproper, hcomplete, hgenerates⟩, hclean.2, hlaid, rfl⟩
      · obtain ⟨stage, diagnostics, herror⟩ := script.compile_of_errors hclean
        cases h.symm.trans herror
  · cases h

/-- **Accepted sources have been analysed, laid out and lowered.** -/
theorem accepted_of_compile {source : String} {compiled : Compiled}
    (h : compile source = .ok compiled) : ∃ script, Accepted source script compiled := by
  obtain ⟨script, _, haccepted, -⟩ := resolved_of_compile h
  exact ⟨script, haccepted⟩

/-- **No source breaks a rule of the compiler.**  A compilation ends in code or in
diagnostics; and if no stage before the layout reports an error, the layout is found and
code is generated. -/
theorem compile_ne_internal (source : String) :
    (∀ error, compile source ≠ .error (.internal error)) ∧
      ∀ script, parse source = .ok script → script.declaredContext.Clean →
        script.resolvedContext.Clean →
        ∃ laid unit, script.resolvedContext.layOut = (none, laid) ∧
          laid.generate script = .ok unit ∧
          compile source = .ok ⟨unit, laid.internLiterals script⟩ := by
  refine ⟨fun error herror => ?_, fun script hparse hdeclared hresolved => ?_⟩
  · unfold compile at herror
    split at herror
    · next script hparse =>
        have hproper := Script.proper_of_parse hparse
        by_cases hclean : script.declaredContext.Clean ∧ script.resolvedContext.Clean
        · obtain ⟨_, _, -, -, hcompile, -⟩ := script.compile_of_clean hproper hclean.1 hclean.2
          cases herror.symm.trans hcompile
        · obtain ⟨_, _, hdiagnostics⟩ := script.compile_of_errors hclean
          cases herror.symm.trans hdiagnostics
    · cases herror
  · obtain ⟨laid, unit, hlaid, hunit, hcompile, -⟩ :=
      script.compile_of_clean (Script.proper_of_parse hparse) hdeclared hresolved
    exact ⟨laid, unit, hlaid, hunit, by simp only [compile, hparse, hcompile]⟩

/-! ## A sample -/

/-- A function of a unit, by its name. -/
def CodeUnit.function? (unit : CodeUnit) (name : String) :
    Option (Signature × List String × List Instruction) :=
  unit.findSome? fun
    | .function n signature names body => if n = name then some (signature, names, body) else none
    | _ => none

theorem CodeUnit.mem_of_function? {unit : CodeUnit} {name : String} {signature : Signature}
    {names : List String} {body : List Instruction}
    (h : unit.function? name = some (signature, names, body)) :
    .function name signature names body ∈ unit := by
  obtain ⟨i, hi, hsome⟩ := List.exists_of_findSome?_eq_some h
  split at hsome
  · split at hsome
    · next heq =>
        cases hsome
        exact heq ▸ hi
    · cases hsome
  · cases hsome

/-- A class whose function has a conditional statement, `||`, a field and a call. -/
def sampleSource : String :=
  "class A { int8 n; bool f(bool b) { if (b || n > 1) return b; return f(true); } }"

/-- What is found out about the sample by compiling it: it is accepted, and its function has
twenty instructions. -/
theorem sample_evaluated :
    (match parse sampleSource with
      | .ok script => !script.declaredContext.diagnostics.hasErrors &&
          !script.resolvedContext.diagnostics.hasErrors &&
          (match script.compile with
            | .ok compiled =>
                (compiled.unit.function? "A_f").map (fun f => f.2.2.length) == some 20
            | .error _ => false)
      | .error _ => false) = true := by
  decide +kernel

/-- The sample is accepted. -/
theorem sample_clean : ∃ script, parse sampleSource = .ok script ∧
    script.declaredContext.Clean ∧ script.resolvedContext.Clean := by
  have h := sample_evaluated
  split at h
  · next script hparse =>
      simp only [Bool.and_eq_true, Bool.not_eq_true'] at h
      exact ⟨script, hparse, h.1.1, h.1.2⟩
  · cases h

/-- The function of the sample has code. -/
theorem sample_function : ∃ compiled signature names body, compile sampleSource = .ok compiled ∧
    .function "A_f" signature names body ∈ compiled.unit ∧ body.length = 20 := by
  have h := sample_evaluated
  split at h
  · next script hparse =>
      rw [Bool.and_eq_true] at h
      have hunit := h.2
      split at hunit
      · next compiled hcompile =>
          rw [beq_iff_eq] at hunit
          obtain ⟨⟨signature, names, body⟩, hfunction, hlength⟩ :=
            Option.map_eq_some_iff.1 hunit
          exact ⟨compiled, signature, names, body, by rw [compile, hparse]; exact hcompile,
            CodeUnit.mem_of_function? hfunction, hlength⟩
      · cases hunit
  · cases h

theorem compile_ne_internal_sample : ∃ script laid unit, parse sampleSource = .ok script ∧
    script.resolvedContext.layOut = (none, laid) ∧ laid.generate script = .ok unit ∧
    compile sampleSource = .ok ⟨unit, laid.internLiterals script⟩ := by
  obtain ⟨script, hparse, hdeclared, hresolved⟩ := sample_clean
  obtain ⟨laid, unit, hlaid, hunit, hcompile⟩ :=
    (compile_ne_internal sampleSource).2 script hparse hdeclared hresolved
  exact ⟨script, laid, unit, hparse, hlaid, hunit, hcompile⟩

end ClassLang
