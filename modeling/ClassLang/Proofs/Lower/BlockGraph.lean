import ClassLang.Proofs.Code.Blocks
import ClassLang.Proofs.Lower.SingleAssignment

/-!
# Generated code consists of blocks

The code of a function is the flattening of a region that leaves the function on every path
(`LowersBody.leaves_eq`): a body either does so itself or gets a return at its end.  With labels
that are issued once (`LowersBody.numbered`) this makes it a graph of blocks.
-/

namespace ClassLang

variable {site : Site} {params : List (String × StorageType)} {ret : StorageType}
  {arguments : List SymbolId} {block : Option Block} {r : Region}

/-- No function is left open. -/
theorem LowersBody.leaves_eq (h : LowersBody site params ret arguments block r) :
    r.leaves = true := by
  cases h with
  | implicit => rfl
  | leaves _ _ hleaves => exact hleaves
  | goesOn => rfl

/-- **Generated bodies are graphs of blocks.**  In every function of an accepted source,
labels are placed once, jumps go forward to them, blocks stand one behind the other and none
of them is unreachable.  So control never comes back to a place, and every run ends with a
return. -/
theorem compile_blockGraph {source : String} {compiled : Compiled}
    (h : compile source = .ok compiled) {name : String} {signature : Signature}
    {names : List String} {body : List Instruction}
    (hmem : .function name signature names body ∈ compiled.unit) :
    BlockGraph body ∧ (∀ place, ¬ Relation.TransGen (Edge body) place place) ∧
      ∀ place passed, Walk body place passed → passed.length < body.length ∧
        ((∃ target, Edge body place target) ∨ ∃ value, body[place]? = some (.ret value)) := by
  obtain ⟨script, haccepted⟩ := accepted_of_compile h
  obtain ⟨id, block, entry, signature', region, hcode, heq⟩ :=
    haccepted.generates.functions _ _ _ _ hmem
  cases heq
  have hproper : region.Proper := hcode.body.supplied.1
  have hgraph := Region.blockGraph hproper hcode.body.leaves_eq hcode.body.numbered.2
  exact ⟨hgraph, hgraph.acyclic, fun place passed hwalk => hgraph.run_ends hwalk⟩

theorem compile_blockGraph_sample : ∃ compiled signature names body,
    compile sampleSource = .ok compiled ∧ .function "A_f" signature names body ∈ compiled.unit ∧
    body.length = 20 ∧ BlockGraph body ∧
    (∀ place, ¬ Relation.TransGen (Edge body) place place) ∧
    ∀ place passed, Walk body place passed → passed.length < body.length ∧
      ((∃ target, Edge body place target) ∨ ∃ value, body[place]? = some (.ret value)) := by
  obtain ⟨compiled, signature, names, body, hcompile, hmem, hlength⟩ := sample_function
  exact ⟨compiled, signature, names, body, hcompile, hmem, hlength,
    compile_blockGraph hcompile hmem⟩

end ClassLang
