import ClassLang.Proofs.Lower.Progress
import ClassLang.Proofs.Lower.StmtEmission
import Mathlib.Data.List.Nodup

/-!
# Functions of a complete script

Every function of a complete script has code: its arguments get storage
(`bindsArguments_exists`), its body is lowered by the rules (`TypedBody.lowers`), and so the
lowering program succeeds (`IsCodeOf.lowerFunction_eq`).
-/

namespace ClassLang

variable {site : Site} {params : List (String × StorageType)} {own : List SymbolId}
  {vars : List SymbolId}
  {p p' : Point} {r : Region}

/-- An argument of a function and its storage type. -/
def SymbolTable.ArgumentOf (table : SymbolTable) (params : List (String × StorageType))
    (arg : SymbolId) : Prop :=
  ∃ entry t, table.get? arg = some (.argument entry) ∧ table.storageType entry.ty = .ok t ∧
    (entry.name, t) ∈ params

theorem SymbolTable.symbolType_argument {table : SymbolTable} {arg : SymbolId}
    {entry : VariableEntry} (h : table.get? arg = some (.argument entry)) :
    table.symbolType arg = entry.ty := by
  simp [SymbolTable.symbolType, h]

theorem SymbolTable.name_argument {table : SymbolTable} {arg : SymbolId}
    {entry : VariableEntry} (h : table.get? arg = some (.argument entry)) :
    table.name arg = entry.name := by
  simp [SymbolTable.name, h, Symbol.name]

/-- **Arguments get their storage**: those that are no pointers are found there. -/
theorem bindsArguments_exists (arguments : List SymbolId)
    (harguments : ∀ a ∈ arguments, site.symbols.ArgumentOf params a) (hnodup : arguments.Nodup)
    (hunknown : ∀ a ∈ arguments, p.addresses.locations a = [])
    (hvars : ∀ a ∈ arguments, a ∉ vars) :
    ∃ r p' vars', BindsArguments site params vars arguments p r p' vars' ∧ vars ⊆ vars' ∧
      (∀ v ∈ vars', v ∈ vars ∨ v ∈ arguments) ∧
      (∀ v ∈ vars, p'.addresses.current v site.symbols = p.addresses.current v site.symbols) ∧
      (∀ v, v ∉ arguments → p'.addresses.locations v = p.addresses.locations v) ∧
      ∀ a ∈ arguments, (site.symbols.symbolType a).isPointer = false → a ∈ vars' ∧
        ∃ m t, site.symbols.storageType (site.symbols.symbolType a) = .ok t ∧
          p'.addresses.current a site.symbols = .ok (.temp m (.pointer t)) := by
  induction arguments generalizing vars p with
  | nil =>
      exact ⟨_, _, _, .nil vars p, fun _ h => h, fun v hv => .inl hv, fun _ _ => rfl,
        fun _ _ => rfl, by simp⟩
  | cons a rest ih =>
      obtain ⟨ha, hrest⟩ := List.nodup_cons.1 hnodup
      obtain ⟨entry, t, hentry, ht, hparam⟩ := harguments a (List.mem_cons_self ..)
      have hty := SymbolTable.symbolType_argument hentry
      have htail : ∀ a' ∈ rest, site.symbols.ArgumentOf params a' := fun a' h =>
        harguments a' (List.mem_cons_of_mem _ h)
      cases hpointer : (site.symbols.symbolType a).isPointer with
      | true =>
          obtain ⟨r, p', vars', hbinds, hsubset, hnew, hcurrent, hlocations, hstored⟩ :=
            ih (p := p) htail hrest (fun a' h => hunknown a' (List.mem_cons_of_mem _ h))
              fun a' h => hvars a' (List.mem_cons_of_mem _ h)
          refine ⟨r, p', vars', .pointer hpointer hbinds, hsubset, fun v hv => ?_, hcurrent,
            fun v hv => hlocations v fun h => hv (List.mem_cons_of_mem _ h),
            fun a' ha' hvalue => ?_⟩
          · exact (hnew v hv).imp_right (List.mem_cons_of_mem _)
          · rcases List.mem_cons.1 ha' with rfl | ha'
            · simp [hpointer] at hvalue
            · exact hstored a' ha' hvalue
      | false =>
          have hunknown' := hunknown a (List.mem_cons_self ..)
          have hallocates : Allocates site vars a t p :=
            allocates_of_unknown t hunknown' (hvars a (List.mem_cons_self ..))
              (by simp [SymbolTable.literal?, hentry, Symbol.literal?])
          have hother : ∀ a' ∈ rest, a ≠ a' := fun a' h heq => ha (heq ▸ h)
          obtain ⟨r, p', vars', hbinds, hsubset, hnew, hcurrent, hlocations, hstored⟩ :=
            ih (p := p.allocated a t) htail hrest
              (fun a' h => (p.addresses.locations_record_of_ne _ (hother a' h)).trans
                (hunknown a' (List.mem_cons_of_mem _ h)))
              (fun a' h hmem => (List.mem_cons.1 hmem).elim (fun heq => hother a' h heq.symm)
                (hvars a' (List.mem_cons_of_mem _ h)))
          refine ⟨_, p', vars', .value hpointer (hty ▸ ht)
            (SymbolTable.name_argument hentry ▸ hparam) hallocates hbinds,
            fun v hv => hsubset (List.mem_cons_of_mem _ hv), fun v hv => ?_, fun v hv => ?_,
            fun v hv => ?_, fun a' ha' hvalue => ?_⟩
          · rcases hnew v hv with hv | hv
            · exact (List.mem_cons.1 hv).elim (fun h => .inr (h ▸ List.mem_cons_self ..)) .inl
            · exact .inr (List.mem_cons_of_mem _ hv)
          · exact (hcurrent v (List.mem_cons_of_mem _ hv)).trans (hallocates.others v hv)
          · rw [List.mem_cons, not_or] at hv
            exact (hlocations v hv.2).trans (p.addresses.locations_record_of_ne _ (Ne.symm hv.1))
          · rcases List.mem_cons.1 ha' with rfl | ha'
            · refine ⟨hsubset (List.mem_cons_self ..), p.temps, t, hty ▸ ht, ?_⟩
              exact (hcurrent a' (List.mem_cons_self ..)).trans hallocates.current
            · exact hstored a' ha' hvalue

/-! ## Whole functions -/

/-- The parameters of a function: names and storage types. -/
def SymbolTable.parameters (table : SymbolTable) (entry : FunctionEntry) (signature : Signature) :
    List (String × StorageType) :=
  (table.parameterNames entry).zip signature.params

/-- An instruction is the code of a function: its signature is that of its declaration, and
its body follows the rules. -/
structure IsCodeOf (ctx : Context) (id : SymbolId) (block : Option Block) (entry : FunctionEntry)
    (signature : Signature) (region : Region) : Prop where
  function? : ctx.symbols.function? id = some entry
  signature_eq : ctx.symbols.signature id = .ok (signature, ctx.symbols.parameterNames entry)
  names : (ctx.symbols.parameterNames entry).Nodup
  body : LowersBody (Site.ofFunction ctx id) (ctx.symbols.parameters entry signature)
    signature.returnType (ctx.symbols.declaredArguments entry) block region

theorem SymbolTable.arguments_eq {table : SymbolTable} {id : SymbolId} {entry : FunctionEntry}
    (h : table.function? id = some entry) : table.arguments id = table.declaredArguments entry := by
  simp [SymbolTable.arguments, h]

theorem SymbolTable.linkName_eq {table : SymbolTable} {id : SymbolId} {entry : FunctionEntry}
    (h : table.function? id = some entry) : table.linkName id = entry.linkName := by
  simp [SymbolTable.linkName, h]

/-- The lowering program finds the code of a function. -/
theorem IsCodeOf.lowerFunction_eq {ctx : Context} {id : SymbolId} {block : Option Block}
    {entry : FunctionEntry} {signature : Signature} {region : Region}
    (h : IsCodeOf ctx id block entry signature region) :
    (Site.ofFunction ctx id).lowerFunction id block = .ok (.function entry.linkName signature
      (ctx.symbols.parameterNames entry) region.code) := by
  have hbody := h.body
  rw [← SymbolTable.arguments_eq h.function?] at hbody
  have hsignature : (Site.ofFunction ctx id).symbols.signature id = _ := h.signature_eq
  rw [LowersBody.lowerFunction_eq hsignature hbody, ← SymbolTable.linkName_eq h.function?]
  rfl

/-- The parameters of a function are its receiver and its arguments. -/
theorem SymbolTable.parameters_eq {table : SymbolTable} {entry : FunctionEntry} (ret : StorageType)
    (types : List StorageType) (variadic : Bool) :
    table.parameters entry ⟨ret, (entry.owner.map table.receiverType).toList ++ types, variadic⟩ =
      (entry.owner.map fun c => (selfName, table.receiverType c)).toList ++
        ((table.declaredArguments entry).map table.name).zip types := by
  unfold SymbolTable.parameters SymbolTable.parameterNames
  cases entry.owner <;> rfl

/-- An argument has its name and its type among the parameters. -/
theorem SymbolTable.mem_zip_names {table : SymbolTable} {args : List SymbolId}
    {types : List StorageType}
    (h : List.Forall₂ (fun ty t => table.storageType ty = .ok t) (args.map table.symbolType) types)
    {a : SymbolId} (ha : a ∈ args) :
    ∃ t, table.storageType (table.symbolType a) = .ok t ∧
      (table.name a, t) ∈ (args.map table.name).zip types := by
  induction args generalizing types with
  | nil => simp at ha
  | cons b rest ih =>
      cases h with
      | cons ht hrest =>
          rcases List.mem_cons.1 ha with rfl | ha
          · exact ⟨_, ht, List.mem_cons_self ..⟩
          · obtain ⟨t, ht', hmem⟩ := ih hrest ha
            exact ⟨t, ht', List.mem_cons_of_mem _ hmem⟩

/-- A listed argument that is not the mark for further ones. -/
theorem SymbolTable.Ok.declared {table : SymbolTable} (hok : table.Ok) {id : SymbolId}
    {entry : FunctionEntry} (hentry : table.function? id = some entry)
    (hresolved : entry.resolved = true) {a : SymbolId} :
    a ∈ table.declaredArguments entry ↔
      a ∈ entry.arguments ∧ ∃ e, table.get? a = some (.argument e) := by
  rw [SymbolTable.declaredArguments, List.mem_filter]
  refine and_congr_right fun ha => ?_
  rcases (hok.function hentry hresolved).2 a ha with hmark | ⟨e, he⟩
  · simp [hmark]
  · simp [he]

/-- A function has a signature, with a parameter for its receiver and for each argument. -/
theorem SymbolTable.Lowerable.signature {table : SymbolTable} (h : table.Lowerable) {id : SymbolId}
    {entry : FunctionEntry} (hentry : table.function? id = some entry) :
    ∃ signature, table.signature id = .ok (signature, table.parameterNames entry) ∧
      table.storageType entry.returnType = .ok signature.returnType ∧
      signature.returnType.isVoid = entry.returnType.isVoid ∧
      (∀ a ∈ table.declaredArguments entry,
        table.ArgumentOf (table.parameters entry signature) a) ∧
      ∀ c, entry.owner = some c →
        (selfName, table.receiverType c) ∈ table.parameters entry signature := by
  have hresolved := h.resolved id entry hentry
  obtain ⟨ret, types, hret, hvoid, htypes, hsignature⟩ :=
    SymbolTable.signature_eq h.ok hentry hresolved
  refine ⟨_, hsignature, hret, hvoid, fun a ha => ?_, fun c hc => ?_⟩
  · obtain ⟨-, e, he⟩ := (h.ok.declared hentry hresolved).1 ha
    obtain ⟨t, ht, hmem⟩ := SymbolTable.mem_zip_names htypes ha
    rw [SymbolTable.symbolType_argument he] at ht
    rw [SymbolTable.name_argument he] at hmem
    rw [SymbolTable.parameters_eq]
    exact ⟨e, t, he, ht, List.mem_append_right _ hmem⟩
  · rw [SymbolTable.parameters_eq]
    exact List.mem_append_left _ (by simp [hc])

/-- When the arguments of a function have their storage, its body finds everything. -/
theorem TypedBody.located {entry : FunctionEntry} {block : Block} {view : View} {n : Nat}
    {id : SymbolId} (htable : site.symbols.Lowerable) (h : TypedBody site.ctx entry block view n)
    (hentry : site.symbols.function? id = some entry) (howner : site.owner = entry.owner)
    (harguments : ∀ a ∈ site.symbols.declaredArguments entry, site.symbols.ArgumentOf params a)
    (hself : ∀ c, entry.owner = some c → (selfName, site.symbols.receiverType c) ∈ params) :
    ∃ r p' vars', BindsArguments site params [] (site.symbols.declaredArguments entry)
      (.start site.function) r p' vars' ∧
      Located site params (site.symbols.declaredArguments entry) view vars' n p'.addresses := by
  have hdeclared := fun a => htable.ok.declared hentry (htable.resolved id entry hentry) (a := a)
  have hnodup : (site.symbols.declaredArguments entry).Nodup :=
    List.Nodup.of_map _ (List.nodup_append.1 h.distinct).2.1
  obtain ⟨r, p', vars', hbinds, -, hnew, -, hlocations, hstored⟩ :=
    bindsArguments_exists (p := .start site.function) _ harguments hnodup (fun _ _ => rfl)
      fun _ _ => List.not_mem_nil
  refine ⟨r, p', vars', hbinds, howner.trans h.owner.symm, fun c hc => hself c (h.owner ▸ hc),
    fun v hv e t he hpointer ht => ?_, fun v hv e he hargument => ?_, fun v hv => ?_,
      fun v hv _ => ?_⟩
  · rcases h.visible v hv with hlisted | ⟨c, hc, e', he', hname, hty⟩
    · obtain ⟨e', t', he', ht', hmem⟩ := harguments v ((hdeclared v).2 ⟨hlisted, e, he⟩)
      cases he.symm.trans he'
      cases ht.symm.trans ht'
      exact ⟨hmem, .inl ((hdeclared v).2 ⟨hlisted, e, he⟩)⟩
    · cases he.symm.trans he'
      rw [hty] at ht
      cases ht
      exact ⟨hname ▸ hself c hc, .inr ⟨hname, by rw [howner, hc]; rfl⟩⟩
  · rcases h.visible v hv with hlisted | ⟨c, hc, e', he', hname, hty⟩
    · rcases (htable.ok.function hentry (htable.resolved id entry hentry)).2 v hlisted with
        hmark | ⟨e', he'⟩
      · simp [SymbolTable.storedVariable?, hmark, Symbol.storedVariable?] at he
      · have heq : e' = e := by
          simpa [SymbolTable.storedVariable?, he', Symbol.storedVariable?] using he
        subst heq
        have hvalue : (site.symbols.symbolType v).isPointer = false := by
          rw [SymbolTable.symbolType_argument he']
          exact Bool.not_eq_true _ ▸ fun htrue => hargument ⟨e', he', htrue⟩
        obtain ⟨hmem, m, t, ht, hcurrent⟩ := hstored v ((hdeclared v).2 ⟨hlisted, e', he'⟩) hvalue
        rw [SymbolTable.symbolType_argument he'] at ht
        exact ⟨hmem, m, t, ht, hcurrent⟩
    · exact absurd ⟨e', he', by simp [hty, Ty.isPointer]⟩ hargument
  · have hmem := (hnew v hv).resolve_left (by simp)
    obtain ⟨hlisted, e, he⟩ := (hdeclared v).1 hmem
    exact ⟨h.earlier v hlisted, by simp [SymbolTable.literal?, he, Symbol.literal?]⟩
  · refine (hlocations v fun hmem => ?_).trans rfl
    exact Nat.not_lt.2 hv (h.earlier v ((hdeclared v).1 hmem).1)

/-- **The body of a checked function is lowered by the rules.** -/
theorem Checked.isCodeOf {ctx : Context} {decl : FunctionDecl} {owner : Option SymbolId}
    {id : SymbolId} {block : Block} (htable : ctx.symbols.Lowerable)
    (h : Checked ctx decl owner id) (hblock : block ∈ decl.body.block?)
    (htexts : ∀ visit ∈ decl.visits, visit.TextBound ctx) :
    ∃ entry signature region, IsCodeOf ctx id (some block) entry signature region := by
  obtain ⟨entry, -, hentry, -, -, hbody⟩ := h
  obtain ⟨view, n, htyped⟩ := hbody block hblock
  obtain ⟨view', n', hstmts⟩ := htyped.stmts
  obtain ⟨signature, hsignature, hret, hvoid, harguments, hself⟩ := htable.signature hentry
  have howner : (Site.ofFunction ctx id).owner = entry.owner := by
    change (ctx.symbols.function? id).bind _ = _
    rw [hentry]
    rfl
  have htable' : (Site.ofFunction ctx id).symbols.Lowerable := htable
  obtain ⟨r₁, p₁, vars₁, hbinds, hlocated⟩ :=
    TypedBody.located htable' htyped hentry howner harguments hself
  obtain ⟨r₂, p₂, vars₂, hlowers, hleaves, -, -⟩ := TypedStmt.lowers htable' hret hvoid hstmts
    (fun visit hvisit => htexts visit (FunctionDecl.visits_body hblock hvisit)) hlocated
  cases hgoesOn : r₂.leaves with
  | true =>
      exact ⟨entry, signature, _, hentry, hsignature, htyped.distinct,
        .leaves hbinds hlowers hgoesOn⟩
  | false =>
      have hempty : signature.returnType.isVoid = true := by
        rcases htyped.returns with hempty | hreturns
        · exact hvoid.trans hempty
        · rw [hleaves, show (StmtTask.all block.stmts).returns = _ from hreturns] at hgoesOn
          cases hgoesOn
      exact ⟨entry, signature, _, hentry, hsignature, htyped.distinct,
        .goesOn hbinds hlowers hgoesOn hempty⟩

/-- A function that is not written in the source only returns. -/
theorem SymbolTable.Lowerable.isCodeOf_implicit {ctx : Context} {id : SymbolId}
    {entry : FunctionEntry} (htable : ctx.symbols.Lowerable)
    (hentry : ctx.symbols.function? id = some entry) (hvoid : entry.returnType = .void)
    (harguments : entry.arguments = []) :
    ∃ signature, IsCodeOf ctx id none entry signature (.step (.ret none)) := by
  obtain ⟨signature, hsignature, -, hempty, -, -⟩ := htable.signature hentry
  refine ⟨signature, hentry, hsignature, ?_, .implicit (hempty.trans (by rw [hvoid]; rfl))⟩
  simp only [SymbolTable.parameterNames, SymbolTable.declaredArguments, harguments]
  cases entry.owner <;> simp

end ClassLang
