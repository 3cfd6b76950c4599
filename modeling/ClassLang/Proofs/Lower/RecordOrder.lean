import ClassLang.Proofs.Accepted
import ClassLang.Proofs.Code.Flow
import ClassLang.Proofs.Lower.Names

/-!
# The order of records

A unit declares its records in one fixed order: structs as they are written, the root class,
classes as they are written (`Generates.records_eq`).  Where records have to be complete before
they are stored in others, this order can be used only if every record that is stored by value
comes first in it.  Nothing else is checked about the order, so there are accepted sources
whose records are not in such an order (`compile_not_inOrder`).
-/

namespace ClassLang

/-- The record that a value of a type contains, if it contains one. -/
def StorageType.inline? : StorageType → Option String
  | .record name => some name
  | .array base _ => base.inline?
  | _ => none

/-- The records that an instruction stores by value in the record that it declares. -/
def Instruction.inlineRecords (i : Instruction) : List String :=
  ((i.record?.map Prod.snd).getD []).filterMap fun field => field.ty.inline?

/-- The names of the records that are declared, in order. -/
def CodeUnit.recordOrder (unit : CodeUnit) : List String :=
  (unit.filterMap Instruction.record?).map Prod.fst

/-- Every record is declared before it is stored by value. -/
def CodeUnit.InOrder (unit : CodeUnit) : Prop :=
  ∀ place i, unit[place]? = some i → ∀ name ∈ i.inlineRecords,
    name ∈ CodeUnit.recordOrder (unit.take place)

/-- The records of a script: structs, the root class, classes. -/
def Script.recordOrder (script : Script) : List String :=
  script.structs.map (fun decl => decl.name.name) ++
    rootClassName :: script.classes.map fun decl => decl.name.name

section

variable {ctx : Context} {script : Script} {unit : CodeUnit}

theorem CodeUnit.recordOrder_append (code code' : List Instruction) :
    recordOrder (code ++ code') = recordOrder code ++ recordOrder code' := by
  simp [recordOrder]

theorem CodeUnit.recordOrder_eq_nil {code : List Instruction} (h : ∀ i ∈ code, i.record? = none) :
    recordOrder code = [] := by
  simp [recordOrder, List.filterMap_eq_nil_iff.2 h]

theorem List.Forall₂.map_eq {α β γ : Type} {R : α → β → Prop} {l : List α} {l' : List β}
    {f : α → γ} {g : β → Option γ} (h : List.Forall₂ R l l')
    (heq : ∀ a ∈ l, ∀ b, R a b → g b = some (f a)) : l'.filterMap g = l.map f := by
  induction h with
  | nil => rfl
  | cons hab _ ih =>
      rw [List.filterMap_cons_some (heq _ (List.mem_cons_self ..) _ hab), List.map_cons,
        ih fun a ha => heq a (List.mem_cons_of_mem _ ha)]

/-- **Records are declared as they are written**, structs before classes. -/
theorem Generates.records_eq (h : Generates script ctx unit) (hcomplete : Complete script ctx) :
    unit.recordOrder = script.recordOrder := by
  obtain ⟨parts, hparts, rfl⟩ := h
  have hliterals : CodeUnit.recordOrder ctx.literalDeclarations = [] := by
    refine CodeUnit.recordOrder_eq_nil fun i hi => ?_
    obtain ⟨entry, -, rfl⟩ := List.mem_map.1 hi
    rfl
  have hexternals : CodeUnit.recordOrder parts.externals = [] := by
    refine CodeUnit.recordOrder_eq_nil fun i hi => ?_
    obtain ⟨_, -, hall⟩ := hparts.externals
    obtain ⟨_, -, _, _, -, -, rfl⟩ := List.Forall₂.exists_left hall hi
    rfl
  have hfunctions : CodeUnit.recordOrder parts.functions.flatten = [] := by
    refine CodeUnit.recordOrder_eq_nil fun i hi => ?_
    obtain ⟨code, hcode, hmem⟩ := List.mem_flatten.1 hi
    obtain ⟨_, -, hall, -⟩ := List.Forall₂.exists_left hparts.functions hcode
    obtain ⟨_, -, _, _, _, _, -, rfl⟩ := List.Forall₂.exists_left hall hmem
    rfl
  have hstructs : CodeUnit.recordOrder parts.structs =
      script.structs.map fun decl => decl.name.name := by
    rw [CodeUnit.recordOrder, List.map_filterMap]
    refine List.Forall₂.map_eq hparts.structs ?_
    rintro decl hdecl i ⟨id, hsymbol, entry, fields, hentry, -, rfl⟩
    obtain ⟨id', hsymbol', entry', hentry', hname⟩ :=
      hcomplete.checked _ (Script.mem_structs.1 hdecl)
    cases hsymbol.symm.trans hsymbol'
    cases hentry.symm.trans hentry'
    simp [Instruction.record?, hname]
  have hclasses : CodeUnit.recordOrder parts.classes =
      script.classes.map fun decl => decl.name.name := by
    rw [CodeUnit.recordOrder, List.map_filterMap]
    refine List.Forall₂.map_eq hparts.classes ?_
    rintro decl hdecl i ⟨id, hsymbol, entry, fields, slots, hentry, -, -, rfl⟩
    obtain ⟨id', hsymbol', ⟨entry', hentry', hname, -⟩, -⟩ :=
      hcomplete.checked _ (Script.mem_classes.1 hdecl)
    cases hsymbol.symm.trans hsymbol'
    cases hentry.symm.trans hentry'
    simp [Instruction.record?, Context.classRecord, hname]
  have hroot : CodeUnit.recordOrder (parts.root :: parts.classes) =
      rootClassName :: CodeUnit.recordOrder parts.classes := by
    obtain ⟨entry, hentry, hname, -⟩ := hcomplete.root
    obtain ⟨entry', fields, slots, hentry', -, -, heq⟩ := hparts.root
    cases hentry.symm.trans hentry'
    simp [CodeUnit.recordOrder, heq, Instruction.record?, Context.classRecord, hname]
  simp only [UnitParts.code, CodeUnit.recordOrder_append, hliterals, hexternals, hfunctions, hroot,
    hstructs, hclasses, List.nil_append, List.append_nil, Script.recordOrder]

/-- What comes before a name in a list without repetitions. -/
theorem List.mem_before_iff {α : Type} [DecidableEq α] {front back : List α} {a b : α}
    (hnodup : (front ++ b :: back).Nodup) :
    a ∈ front ↔ (front ++ b :: back).idxOf a < (front ++ b :: back).idxOf b := by
  have hb : b ∉ front := fun hmem =>
    (List.nodup_append.1 hnodup).2.2 b hmem b (List.mem_cons_self ..) rfl
  have hplace : (front ++ b :: back).idxOf b = front.length := by
    simp [List.idxOf_append, hb]
  rw [hplace, List.idxOf_append]
  split
  · next hmem => exact ⟨fun _ => List.idxOf_lt_length_iff.2 hmem, fun _ => hmem⟩
  · next hmem => exact ⟨fun h => absurd h hmem, fun h => by omega⟩

/-- **When records are in order**: those that are stored by value come first. -/
theorem CodeUnit.inOrder_iff (hnodup : unit.recordOrder.Nodup) :
    unit.InOrder ↔ ∀ owner fields, (owner, fields) ∈ unit.filterMap Instruction.record? →
      ∀ field ∈ fields, ∀ name ∈ field.ty.inline?,
        unit.recordOrder.idxOf name < unit.recordOrder.idxOf owner := by
  -- The place of a declaration splits the order at the record that it declares.
  have hsplit : ∀ place i owner fields, unit[place]? = some i → i.record? = some (owner, fields) →
      ∀ name, name ∈ recordOrder (unit.take place) ↔
        unit.recordOrder.idxOf name < unit.recordOrder.idxOf owner := by
    intro place i owner fields hi hrecord name
    have horder : unit.recordOrder =
        recordOrder (unit.take place) ++ owner :: recordOrder (unit.drop (place + 1)) := by
      refine (congrArg recordOrder (List.eq_take_append hi)).trans ?_
      rw [recordOrder_append]
      simp [recordOrder, hrecord]
    rw [horder] at hnodup ⊢
    exact List.mem_before_iff hnodup
  constructor
  · intro h owner fields hmem field hfield name hname
    obtain ⟨i, hi, hrecord⟩ := List.mem_filterMap.1 hmem
    obtain ⟨place, hplace⟩ := List.getElem?_of_mem hi
    refine (hsplit place i owner fields hplace hrecord name).1 (h place i hplace name ?_)
    exact List.mem_filterMap.2 ⟨field, by simpa [hrecord] using hfield, hname⟩
  · intro h place i hi name hname
    obtain ⟨field, hfield, hinline⟩ := List.mem_filterMap.1 hname
    cases hrecord : i.record? with
    | none => simp [hrecord] at hfield
    | some record =>
        obtain ⟨owner, fields⟩ := record
        rw [hsplit place i owner fields hi hrecord name]
        refine h owner fields (List.mem_filterMap.2 ⟨i, List.mem_of_getElem? hi, hrecord⟩) field ?_
          name hinline
        simpa [hrecord] using hfield

end

/-- **The records of a unit are in the order of their declarations**: structs, the root class,
classes.  They can be declared in this order, each before it is stored by value, exactly if all
that a record stores by value stands before it in the source in this sense. -/
theorem compile_recordOrder {source : String} {compiled : Compiled}
    (h : compile source = .ok compiled) :
    ∃ script, parse source = .ok script ∧ compiled.unit.recordOrder = script.recordOrder ∧
      (compiled.unit.InOrder ↔
        ∀ owner fields, (owner, fields) ∈ compiled.unit.filterMap Instruction.record? →
          ∀ field ∈ fields, ∀ name ∈ field.ty.inline?,
            script.recordOrder.idxOf name < script.recordOrder.idxOf owner) := by
  obtain ⟨script, haccepted⟩ := accepted_of_compile h
  have horder := haccepted.generates.records_eq haccepted.complete
  refine ⟨script, haccepted.parse_eq, horder, ?_⟩
  rw [← horder]
  exact CodeUnit.inOrder_iff (haccepted.generates.distinct haccepted.complete)

theorem compile_recordOrder_sample : ∃ script compiled, compile sampleSource = .ok compiled ∧
    parse sampleSource = .ok script ∧ compiled.unit.recordOrder = script.recordOrder ∧
      (compiled.unit.InOrder ↔
        ∀ owner fields, (owner, fields) ∈ compiled.unit.filterMap Instruction.record? →
          ∀ field ∈ fields, ∀ name ∈ field.ty.inline?,
            script.recordOrder.idxOf name < script.recordOrder.idxOf owner) := by
  obtain ⟨compiled, _, _, _, hcompile, -⟩ := sample_function
  obtain ⟨script, hparse, horder, hiff⟩ := compile_recordOrder hcompile
  exact ⟨script, compiled, hcompile, hparse, horder, hiff⟩

/-- A struct that stores another one, which is written behind it. -/
def forwardSource : String := "struct A { B b; } struct B { int32 x; }"

/-- What is found out by compiling it: the first declaration stores `B`. -/
theorem forward_evaluated :
    (match compile forwardSource with
      | .ok compiled => compiled.unit[0]?.map Instruction.inlineRecords == some ["B"]
      | .error _ => false) = true := by
  decide +kernel

/-- **An accepted source may store a record by value before it is declared.** -/
theorem compile_not_inOrder : ∃ compiled, compile forwardSource = .ok compiled ∧
    ¬ compiled.unit.InOrder := by
  have h := forward_evaluated
  split at h
  · next compiled hcompile =>
      refine ⟨compiled, hcompile, fun horder => ?_⟩
      cases hi : compiled.unit[0]? with
      | none => simp [hi] at h
      | some i =>
          have hrecords : i.inlineRecords = ["B"] := by simpa [hi] using h
          have hmem := horder 0 i hi "B" (by simp [hrecords])
          simp [CodeUnit.recordOrder] at hmem
  · cases h

end ClassLang
