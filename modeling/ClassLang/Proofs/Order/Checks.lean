import ClassLang.Proofs.Order.Members
import ClassLang.Proofs.Symbol.Containment

/-!
# Checks of the whole unit in two orders

When members are declared, two rules are checked that concern the unit as a whole: no record
stores itself, and no two names of the generated code are equal.  Both speak about what is paired,
and the second one about a list of names that is only permuted, so scripts with the same items
pass both or none (`Script.Reordered.passes`).
-/

open List (Forall₂)

theorem List.Forall₂.filterMap {α β γ δ : Type} {R : α → β → Prop} {S : γ → δ → Prop} {l : List α}
    {l' : List β} {f : α → Option γ} {g : β → Option δ} (hl : Forall₂ R l l')
    (h : ∀ a b, R a b → Option.Rel S (f a) (g b)) :
    Forall₂ S (l.filterMap f) (l'.filterMap g) := by
  induction hl with
  | nil => exact .nil
  | @cons a b _ _ hab _ ih =>
      have hhead := h a b hab
      simp only [List.filterMap_cons]
      cases hf : f a <;> cases hg : g b <;> rw [hf, hg] at hhead <;> cases hhead
      · exact ih
      · exact .cons ‹_› ih

namespace ClassLang

open Analysis Relation

/-! ## Records inside records -/

namespace SymbolTable.Paired

variable {hidden : SymbolId → Prop} {r : SymbolId → SymbolId → Prop} {t t' : SymbolTable}
  {i j : SymbolId}

/-- What is stored directly inside a record is paired. -/
theorem inlineRecords (h : Paired hidden r t t') (hshown : ∀ i, ¬ hidden i) (hij : r i j) :
    Forall₂ r (t.inlineRecords i) (t'.inlineRecords j) := by
  have hstored : ∀ {fields fields'}, Forall₂ r fields fields' → Forall₂ r
      (fields.filterMap fun f => (t.field? f).bind fun e => e.ty.inlineRecord?)
      (fields'.filterMap fun f => (t'.field? f).bind fun e => e.ty.inlineRecord?) :=
    fun hfields => hfields.filterMap fun f f' hf =>
      (h.field? hf (hshown f)).bind fun _ _ he => he.ty.inlineRecord?
  obtain ⟨s, s', hs, hs', hpaired⟩ := h.get? hij (hshown i)
  simp only [SymbolTable.inlineRecords, hs, hs']
  cases hpaired with
  | @classEntry e e' he =>
      refine List.rel_append ?_ (hstored he.fields)
      have hparent := he.parent
      cases hp : e.parent <;> cases hp' : e'.parent <;> rw [hp, hp'] at hparent <;> cases hparent
      · exact .nil
      · exact .cons ‹_› .nil
  | structEntry he => exact hstored he.fields
  | _ => exact .nil

/-- **A record that contains itself** in the second table does so in the first one. -/
theorem containsItself (h : Paired hidden r t t') (hunique : Relator.BiUnique r)
    (hshown : ∀ i, ¬ hidden i) (hij : r i j) (hfree : t.containsItself i = false) :
    t'.containsItself j = false := by
  have hlift : ∀ {k'}, t'.Contains j k' → ∃ k, r k k' ∧ t.Contains i k := by
    have hstep : ∀ {a a' b'}, r a a' → t'.Embeds a' b' → ∃ b, r b b' ∧ t.Embeds a b := by
      intro a a' b' ha hembeds
      obtain ⟨b, hb, hbb⟩ :=
        (h.inlineRecords hshown ha).exists_of_mem_right (mem_inlineRecords_iff.2 hembeds)
      exact ⟨b, hbb, mem_inlineRecords_iff.1 hb⟩
    intro k' hpath
    induction hpath with
    | single hembeds =>
        obtain ⟨k, hk, hembeds⟩ := hstep hij hembeds
        exact ⟨k, hk, .single hembeds⟩
    | tail _ hembeds ih =>
        obtain ⟨middle, hmiddle, hpath⟩ := ih
        obtain ⟨k, hk, hembeds⟩ := hstep hmiddle hembeds
        exact ⟨k, hk, hpath.tail hembeds⟩
  refine eq_false_of_ne_true fun htrue => ?_
  obtain ⟨k, hk, hpath⟩ := hlift (containsItself_iff_contains.1 htrue)
  obtain rfl := hunique.1 hij hk
  rw [containsItself_iff_contains.2 hpath] at hfree
  cases hfree

end SymbolTable.Paired

/-- Nothing is said about a record that does not contain itself. -/
theorem Item.run_checkContainment {item : Item} {ctx : Context} (h : item.FreeOfItself ctx) :
    item.checkContainment.run ctx = ((), ctx) := by
  have hcheck : ∀ (name : Ident) (node : NodeId), (∀ id, ctx.bindings.symbol? node = some id →
      ctx.symbols.containsItself id = false) →
      (name.checkContainment node).run ctx = ((), ctx) := by
    intro name node hfree
    cases hsymbol : ctx.bindings.symbol? node with
    | none =>
        simp [Ident.checkContainment, hsymbol]
        rfl
    | some id =>
        simp [Ident.checkContainment, hsymbol, hfree id hsymbol]
        rfl
  cases item with
  | classDecl decl => exact hcheck decl.name decl.id (h nofun)
  | structDecl decl => exact hcheck decl.name decl.id (h nofun)
  | function decl => rfl

/-! ## Names of the generated code -/

namespace LinkName

/-- Names that are different do not clash. -/
theorem clashes_eq_nil {taken links : List LinkName} (h : ((taken ++ links).map key).Nodup) :
    clashes taken links = [] := by
  induction links generalizing taken with
  | nil => rfl
  | cons link rest ih =>
      have hfind : (taken.find? fun t => t.isRecord == link.isRecord && t.name == link.name) =
          none := by
        refine List.find?_eq_none.2 fun first hfirst hsame => ?_
        simp only [Bool.and_eq_true, beq_iff_eq] at hsame
        rw [List.map_append, List.nodup_append] at h
        exact h.2.2 _ (List.mem_map_of_mem hfirst) link.key (by simp) (Prod.ext hsame.1 hsame.2)
      simp only [clashes, hfind]
      exact ih (by simpa using h)

variable {m : Pairing} {part : Part} {c c' : Context}

/-- Classes that are paired bring the same names. -/
theorem keys_ofClass (h : Context.Paired part m c c') (hshown : ∀ i, ¬ part.hidden i)
    {i j : SymbolId} (hij : m.symbols i j) (span span' : Span) :
    (ofClass c' j span').map key = (ofClass c i span).map key := by
  have hclass := h.table.class? hij (hshown i)
  unfold ofClass
  cases hc : c.symbols.class? i <;> cases hc' : c'.symbols.class? j <;> rw [hc, hc'] at hclass <;>
    cases hclass
  next e e' he =>
    have hfunctions : ((e'.functions.filterMap c'.symbols.function?).map fun f =>
        (false, f.linkName)) = (e.functions.filterMap c.symbols.function?).map fun f =>
        (false, f.linkName) :=
      (he.functions.filterMap fun g _ hg => h.table.function? hg (hshown g)).map_eq
        fun _ _ hf => by rw [hf.linkName]
    simpa [key, Function.comp_def, ClassEntry.dispatchRecord, ClassEntry.dispatchInstance,
      ClassEntry.nameGlobal, he.name] using hfunctions

/-- Twins bring the same names. -/
theorem keys_ofItem (h : Context.Paired part m c c') (hshown : ∀ i, ¬ part.hidden i)
    {item item' : Item} (hpaired : item.Paired part.nodes item') :
    (ofItem c' item').map key = (ofItem c item).map key := by
  cases hpaired with
  | @classDecl d d' hd =>
      have hsymbol := h.symbol? _ _ hd.node
      cases hs : c.bindings.symbol? d.id <;> cases hs' : c'.bindings.symbol? d'.id <;>
        rw [hs, hs'] at hsymbol <;> cases hsymbol <;> simp only [ofItem, hs, hs']
      next hij => exact keys_ofClass h hshown hij.1 _ _
  | structDecl hd => simp [ofItem, key, hd.name]
  | function hd => simp [ofItem, key, hd.name]

end LinkName

namespace Script

variable {script script' : Script} {ctx ctx' : Context}

/-- A unit that has no record that contains itself, and no name twice. -/
structure Passes (script : Script) (ctx : Context) : Prop where
  free : ∀ item ∈ script.items, item.FreeOfItself ctx
  distinct : LinkName.Distinct ctx script

/-- The checks of a unit. -/
def check (script : Script) : Analysis Unit := do
  script.items.forM Item.checkContainment
  let ctx ← get
  (LinkName.clashes [] (LinkName.ofScript ctx script)).forM Analysis.report

/-- **Nothing is said about a unit that passes the checks.** -/
theorem run_check (h : script.Passes ctx) : script.check.run ctx = ((), ctx) := by
  have hitems : ∀ items : List Item, (∀ item ∈ items, item.FreeOfItself ctx) →
      (items.forM Item.checkContainment).run ctx = ((), ctx) := by
    intro items hitems
    induction items with
    | nil => rfl
    | cons item rest ih =>
        rw [List.forM_eq_forM, List.forM_cons, StateT.run_bind,
          item.run_checkContainment (hitems item (List.mem_cons_self ..))]
        exact ih fun other hother => hitems other (List.mem_cons_of_mem _ hother)
  have hclashes : LinkName.clashes [] (LinkName.ofScript ctx script) = [] :=
    LinkName.clashes_eq_nil h.distinct
  have hreports : ((LinkName.clashes [] (LinkName.ofScript ctx script)).forM Analysis.report).run
      ctx = ((), ctx) := by rw [hclashes]; rfl
  rw [check, StateT.run_bind, hitems _ h.free]
  exact hreports

/-- A unit about which nothing is said passes the checks. -/
theorem does_check (script : Script) :
    Does script.check fun ctx _ ctx' => ctx' = ctx ∧ script.Passes ctx := by
  have hitems : Does (script.items.forM Item.checkContainment) fun ctx _ ctx' =>
      ctx' = ctx ∧ ∀ item ∈ script.items, item.FreeOfItself ctx := by
    have hloop (start : Context) : Does (script.items.forM Item.checkContainment) fun ctx _ ctx' =>
        (ctx = start ∧ ∀ item ∈ ([] : List Item), item.FreeOfItself start) →
        ctx' = start ∧ ∀ item ∈ script.items, item.FreeOfItself start := by
      refine does_forM (I := fun (done : List Item) ctx => ctx = start ∧
        ∀ item ∈ done, item.FreeOfItself start) fun done item rest _ =>
          item.does_checkContainment.mono ?_
      rintro ctx _ ctx' ⟨rfl, hfree⟩ ⟨rfl, hdone⟩
      refine ⟨rfl, fun other hother => ?_⟩
      rcases List.mem_append.1 hother with hother | hother
      · exact hdone other hother
      · exact List.mem_singleton.1 hother ▸ hfree
    exact (Does.forall hloop).mono fun ctx _ _ h => h ctx ⟨rfl, by simp⟩
  refine (hitems.bind (S := fun _ ctx _ ctx' => ctx' = ctx ∧ LinkName.Distinct ctx script)
    fun _ => ?_).mono ?_
  · refine does_read fun before => (does_reportAll _).mono ?_
    rintro ctx _ ctx' ⟨hnone, rfl⟩ rfl
    have hlinks : (([] ++ LinkName.ofScript before script).map LinkName.key).Nodup :=
      LinkName.nodup_of_clashes hnone List.nodup_nil
    exact ⟨rfl, hlinks⟩
  · rintro ctx _ ctx' ⟨_, _, ⟨rfl, hfree⟩, rfl, hlinks⟩
    exact ⟨rfl, hfree, hlinks⟩

namespace Reordered

/-- **Scripts with the same items pass the checks together.** -/
theorem passes (h : Reordered script script') {m : Pairing}
    (hpaired : Context.Paired h.part m ctx ctx')
    (hroot : m.symbols SymbolTable.rootClass SymbolTable.rootClass) (hpasses : script.Passes ctx) :
    script'.Passes ctx' := by
  constructor
  · intro item' hitem' hrecord j hj
    obtain ⟨item, htwins⟩ := h.symm.exists_twin hitem'
    have hsymbol := hpaired.symbol? _ _ ⟨(item, item'), htwins.symm, htwins.symm.id⟩
    rw [hj] at hsymbol
    cases hi : ctx.bindings.symbol? item.id with
    | none =>
        rw [hi] at hsymbol
        cases hsymbol
    | some i =>
        rw [hi] at hsymbol
        cases hsymbol with
        | some hij =>
            refine hpaired.table.containsItself m.uniqueSymbols (fun _ => id) hij.1
              (hpasses.free item htwins.mem' ?_ i hi)
            rintro decl rfl
            cases h.paired htwins.symm with
            | function => exact hrecord _ rfl
  · obtain ⟨pairs, pairs', hpairs, hpairs', hperm, htwins⟩ := h.exists_pairs (.refl _) (.refl _)
    have hitems : ((script'.items.flatMap (LinkName.ofItem ctx')).map LinkName.key).Perm
        ((script.items.flatMap (LinkName.ofItem ctx)).map LinkName.key) := by
      rw [← hpairs, ← hpairs', List.map_flatMap, List.map_flatMap, List.flatMap_map,
        List.flatMap_map]
      refine (hperm.flatMap_right _).trans
        (List.Perm.of_eq (List.flatMap_congr fun pair hpair => ?_))
      exact LinkName.keys_ofItem hpaired (fun _ => id) (h.paired (htwins pair hpair))
    have hdistinct := hpasses.distinct
    unfold LinkName.Distinct LinkName.ofScript at hdistinct ⊢
    rw [List.map_append] at hdistinct ⊢
    rw [LinkName.keys_ofClass hpaired (fun _ => id) hroot {} {}]
    exact ((hitems.append_left _).nodup_iff).2 hdistinct

end Reordered

end Script

end ClassLang
