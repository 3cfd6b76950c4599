import ClassLang.Proofs.Symbol.Layout
import Mathlib.Data.Fintype.EquivFin
import Mathlib.Algebra.BigOperators.Group.Finset.Basic

/-!
# Records that contain themselves

A record stores its parent and the records in its fields, and through them others
(`SymbolTable.Embeds`).  References may form any graph.  The search for a record among those
it stores looks at each record once, so it ends within a number of steps that the table tells
(`searchStored_eq`), and it finds the record exactly if there is a way back to it
(`containsItself_iff_contains`).

If there is no way back to any record, records can be measured from the inside out: each has
one size (`existsUnique_hasSize`), however scalars are measured and records are padded.
-/

namespace ClassLang

/-- A value of the type stores the record in place. -/
inductive Ty.Holds : Ty → SymbolId → Prop
  | classType (id : SymbolId) : Holds (.classType id) id
  | structType (id : SymbolId) : Holds (.structType id) id
  | array {base : Ty} {id : SymbolId} (size : Nat) (h : Holds base id) : Holds (.array base size) id

theorem Ty.inlineRecord?_eq_some_iff {ty : Ty} {id : SymbolId} :
    ty.inlineRecord? = some id ↔ ty.Holds id := by
  constructor
  · intro h
    induction ty with
    | classType _ => cases h; exact .classType id
    | structType _ => cases h; exact .structType id
    | array base size ih => exact .array size (ih h)
    | _ => cases h
  · intro h
    induction h with
    | classType id => rfl
    | structType id => rfl
    | array size h ih => exact ih

namespace SymbolTable

variable {t : SymbolTable} {id record next : SymbolId}

/-- A record stores another one directly: a class its parent, and a class or a struct what its
own fields hold in place. -/
inductive Embeds (t : SymbolTable) : SymbolId → SymbolId → Prop
  | parent {id parent : SymbolId} (h : t.parent? id = some parent) : Embeds t id parent
  | classField {id f record : SymbolId} {entry : ClassEntry} {field : FieldEntry}
      (h : t.class? id = some entry) (hf : f ∈ entry.fields) (hfield : t.field? f = some field)
      (hty : field.ty.Holds record) : Embeds t id record
  | structField {id f record : SymbolId} {entry : StructEntry} {field : FieldEntry}
      (h : t.struct? id = some entry) (hf : f ∈ entry.fields) (hfield : t.field? f = some field)
      (hty : field.ty.Holds record) : Embeds t id record

/-- A record is stored in another one, at some depth. -/
def Contains (t : SymbolTable) : SymbolId → SymbolId → Prop := Relation.TransGen t.Embeds

/-- The fields that hold a record in place. -/
theorem mem_filterMap_inlineRecord? {fields : List SymbolId} :
    record ∈ fields.filterMap (fun f => (t.field? f).bind fun entry => entry.ty.inlineRecord?) ↔
      ∃ f ∈ fields, ∃ field, t.field? f = some field ∧ field.ty.Holds record := by
  simp only [List.mem_filterMap, Option.bind_eq_some_iff, Ty.inlineRecord?_eq_some_iff]

/-- The list of the records that are stored directly is right. -/
theorem mem_inlineRecords_iff : record ∈ t.inlineRecords id ↔ t.Embeds id record := by
  constructor
  · intro h
    unfold inlineRecords at h
    split at h
    · next entry hentry =>
        have hclass := class?_eq_some_iff.2 hentry
        rcases List.mem_append.1 h with h | h
        · refine .parent ?_
          simpa [parent?, hclass] using h
        · obtain ⟨f, hf, field, hfield, hty⟩ := mem_filterMap_inlineRecord?.1 h
          exact .classField hclass hf hfield hty
    · next entry hentry =>
        obtain ⟨f, hf, field, hfield, hty⟩ := mem_filterMap_inlineRecord?.1 h
        exact .structField (struct?_eq_some_iff.2 hentry) hf hfield hty
    · cases h
  · intro h
    cases h with
    | parent h =>
        obtain ⟨entry, hentry, hparent⟩ := Option.bind_eq_some_iff.1 h
        simp [inlineRecords, class?_eq_some_iff.1 hentry, hparent]
    | classField h hf hfield hty =>
        simp only [inlineRecords, class?_eq_some_iff.1 h]
        exact List.mem_append_right _ (mem_filterMap_inlineRecord?.2 ⟨_, hf, _, hfield, hty⟩)
    | structField h hf hfield hty =>
        simp only [inlineRecords, struct?_eq_some_iff.1 h]
        exact mem_filterMap_inlineRecord?.2 ⟨_, hf, _, hfield, hty⟩

/-- Only what has a symbol stores something. -/
theorem Embeds.lt_size (h : t.Embeds id record) : id < t.size := by
  cases h with
  | parent h => exact lt_size_of_parent? h
  | classField h => exact lt_size_of_get? (class?_eq_some_iff.1 h)
  | structField h => exact lt_size_of_get? (struct?_eq_some_iff.1 h)

theorem inlineRecords_eq_nil (h : t.size ≤ id) : t.inlineRecords id = [] := by
  simp [inlineRecords, get?_eq_none h]

/-! ## The search -/

/-- What is known in the middle of a search for a record. -/
structure Searching (t : SymbolTable) (record : SymbolId) (seen pending : List SymbolId) :
    Prop where
  stored : ∀ id ∈ pending, t.Contains record id
  apart : record ∉ seen
  /-- What the record stores directly has been met, and so has what those store that were looked
  at. -/
  met : ∀ id, id = record ∨ id ∈ seen → ∀ other, t.Embeds id other →
    other ∈ seen ∨ other ∈ pending

theorem searching_start (t : SymbolTable) (record : SymbolId) :
    t.Searching record [] (t.inlineRecords record).reverse where
  stored id hid := .single (mem_inlineRecords_iff.1 (List.mem_reverse.1 hid))
  apart := by simp
  met id hid other hother := by
    obtain rfl : id = record := by simpa using hid
    exact .inr (List.mem_reverse.2 (mem_inlineRecords_iff.2 hother))

section

variable {seen pending : List SymbolId}

/-- A record that was looked at before is left out. -/
theorem Searching.skip (h : t.Searching record seen (next :: pending)) (hseen : next ∈ seen) :
    t.Searching record seen pending where
  stored id hid := h.stored id (List.mem_cons_of_mem _ hid)
  apart := h.apart
  met id hid other hother := by
    rcases h.met id hid other hother with hmet | hmet
    · exact .inl hmet
    · rcases List.mem_cons.1 hmet with rfl | hmet
      · exact .inl hseen
      · exact .inr hmet

/-- Another record is looked at, and what it stores has to be looked at later. -/
theorem Searching.look (h : t.Searching record seen (next :: pending)) (hother : next ≠ record) :
    t.Searching record (next :: seen) ((t.inlineRecords next).reverse ++ pending) where
  stored id hid := by
    rcases List.mem_append.1 hid with hid | hid
    · have hnext := h.stored next (List.mem_cons_self ..)
      exact hnext.tail (mem_inlineRecords_iff.1 (List.mem_reverse.1 hid))
    · exact h.stored id (List.mem_cons_of_mem _ hid)
  apart := by
    rw [List.mem_cons, not_or]
    exact ⟨Ne.symm hother, h.apart⟩
  met id hid other hembeds := by
    by_cases heq : id = next
    · subst heq
      exact .inr (List.mem_append_left _ (List.mem_reverse.2 (mem_inlineRecords_iff.2 hembeds)))
    · have hid' : id = record ∨ id ∈ seen := by
        simpa [heq] using hid
      rcases h.met id hid' other hembeds with hmet | hmet
      · exact .inl (List.mem_cons_of_mem _ hmet)
      · rcases List.mem_cons.1 hmet with rfl | hmet
        · exact .inl (List.mem_cons_self ..)
        · exact .inr (List.mem_append_right _ hmet)

/-- When nothing is pending, everything that the record stores was looked at. -/
theorem Searching.mem_seen (h : t.Searching record seen []) (hid : t.Contains record id) :
    id ∈ seen := by
  induction hid with
  | single hstep => simpa using h.met record (.inl rfl) _ hstep
  | tail _ hstep ih => simpa using h.met _ (.inr ih) _ hstep

/-- **The answer of a search is right.** -/
theorem Searching.answer {steps : Nat} {answer : Bool} (h : t.Searching record seen pending)
    (hanswer : t.searchStored record steps seen pending = some answer) :
    answer = true ↔ t.Contains record record := by
  induction steps generalizing seen pending with
  | zero => cases hanswer
  | succ steps ih =>
      cases pending with
      | nil =>
          cases hanswer
          simpa using fun hrecord => h.apart (h.mem_seen hrecord)
      | cons next pending =>
          rw [searchStored] at hanswer
          split at hanswer
          · next heq =>
              cases hanswer
              simpa [heq] using h.stored next (List.mem_cons_self ..)
          · next hother =>
              split at hanswer
              · next hseen => exact ih (h.skip (by simpa using hseen)) hanswer
              · exact ih (h.look hother) hanswer

/-- How many records are stored directly by those that were not looked at. -/
def unread (t : SymbolTable) (seen : List SymbolId) : Nat :=
  ∑ id ∈ Finset.range t.size \ seen.toFinset, (t.inlineRecords id).length

/-- A record that is looked at for the first time pays for what it puts among the pending ones. -/
theorem unread_cons (hnew : next ∉ seen) :
    t.unread (next :: seen) + (t.inlineRecords next).length = t.unread seen := by
  rw [unread, unread, List.toFinset_cons, Finset.sdiff_insert]
  by_cases hlt : next < t.size
  · refine Finset.sum_erase_add _ _ ?_
    simp [hlt, hnew]
  · rw [inlineRecords_eq_nil (Nat.not_lt.1 hlt), Finset.erase_eq_of_notMem (by simp [hlt])]
    rfl

/-- **A search ends**: each step takes one of the pending records away. -/
theorem isSome_searchStored {steps : Nat} (h : pending.length + t.unread seen < steps) :
    (t.searchStored record steps seen pending).isSome = true := by
  induction steps generalizing seen pending with
  | zero => omega
  | succ steps ih =>
      cases pending with
      | nil => rfl
      | cons next pending =>
          rw [List.length_cons] at h
          rw [searchStored]
          split
          · rfl
          · split
            · exact ih (by omega)
            · next hnew =>
                have hpaid : t.unread (next :: seen) + (t.inlineRecords next).length =
                    t.unread seen := unread_cons (by simpa using hnew)
                refine ih ?_
                rw [List.length_append, List.length_reverse]
                omega

end

theorem searchSteps_eq (t : SymbolTable) (record : SymbolId) :
    t.searchSteps record = (t.inlineRecords record).length + t.unread [] + 1 := by
  rw [searchSteps, unread, List.toFinset_nil, Finset.sdiff_empty, List.length_flatMap]
  rfl

/-- The search for a record among those it stores has an answer. -/
theorem exists_searchStored {steps : Nat} (h : t.searchSteps record ≤ steps) :
    ∃ answer, t.searchStored record steps [] (t.inlineRecords record).reverse = some answer := by
  refine Option.isSome_iff_exists.1 (isSome_searchStored ?_)
  rw [searchSteps_eq] at h
  rw [List.length_reverse]
  omega

/-- **Containment is decided exactly.** -/
theorem containsItself_iff_contains :
    t.containsItself record = true ↔ t.Contains record record := by
  obtain ⟨answer, hanswer⟩ := exists_searchStored (Nat.le_refl (t.searchSteps record))
  rw [containsItself, hanswer, Option.getD_some]
  exact (searching_start t record).answer hanswer

/-- Four values of a struct in another one; the inner struct contains itself, and the search for
the outer one meets the inner one again and again. -/
example :
    let table : SymbolTable := ⟨[.structEntry ⟨"Outer", {}, [1]⟩,
      .field ⟨"inner", {}, .array (.structType 2) 4, 0, none⟩, .structEntry ⟨"Inner", {}, [3]⟩,
      .field ⟨"self", {}, .structType 2, 2, none⟩]⟩
    table.containsItself 0 = false ∧ table.containsItself 2 = true := by
  decide

/-- **The search ends**, and with enough steps its answer does not depend on their number. -/
theorem searchStored_eq {steps : Nat} (h : t.searchSteps record ≤ steps) :
    t.searchStored record steps [] (t.inlineRecords record).reverse =
      some (t.containsItself record) := by
  obtain ⟨answer, hanswer⟩ := exists_searchStored h
  have hsame : answer = true ↔ t.containsItself record = true :=
    ((searching_start t record).answer hanswer).trans containsItself_iff_contains.symm
  rw [hanswer, Bool.eq_iff_iff.2 hsame]

/-! ## Without a record that contains itself -/

/-- No record contains itself. -/
def Contained (t : SymbolTable) : Prop := ∀ id, ¬ t.Contains id id

/-- **The way into records ends** if none contains itself. -/
theorem Contained.wellFounded (h : t.Contained) :
    WellFounded fun inner outer => t.Embeds outer inner := by
  let inside (inner outer : Fin t.size) : Prop := t.Contains outer inner
  have htrans : IsTrans (Fin t.size) inside := ⟨fun _ _ _ hab hbc => hbc.trans hab⟩
  have hirrefl : Std.Irrefl inside := ⟨fun id => h id⟩
  have hinside : WellFounded inside := Finite.wellFounded_of_trans_of_irrefl inside
  have hacc : ∀ id : Fin t.size, Acc (fun inner outer => t.Embeds outer inner) id.val := by
    intro id
    induction id using hinside.induction with
    | _ id ih =>
        refine ⟨_, fun inner hinner => ?_⟩
        by_cases hlt : inner < t.size
        · exact ih ⟨inner, hlt⟩ (.single hinner)
        · exact ⟨_, fun other hother => absurd hother.lt_size hlt⟩
  refine ⟨fun id => ⟨_, fun inner hinner => ?_⟩⟩
  exact (hacc ⟨id, hinner.lt_size⟩).inv hinner

end SymbolTable

/-! ## Sizes -/

/-- How values are measured: scalars, arrays of elements of one size, and records of parts one
behind the other, with whatever padding there is. -/
structure SizeRule where
  scalar : Ty → Nat
  array : Nat → Nat → Nat
  record : List Nat → Nat

namespace SymbolTable

variable {t t' : SymbolTable} {id record : SymbolId}

/-- The types of fields. -/
def fieldTypes? (t : SymbolTable) (fields : List SymbolId) : Option (List Ty) :=
  fields.mapM fun f => (t.field? f).map FieldEntry.ty

/-- What a record consists of: a class of its parent and the own fields, a struct of its
fields. -/
inductive HasParts (t : SymbolTable) : Ty → List Ty → Prop
  | classType {id : SymbolId} {entry : ClassEntry} {tys : List Ty} (h : t.class? id = some entry)
      (htys : t.fieldTypes? entry.fields = some tys) :
      HasParts t (.classType id) (entry.parent.toList.map .classType ++ tys)
  | structType {id : SymbolId} {entry : StructEntry} {tys : List Ty}
      (h : t.struct? id = some entry) (htys : t.fieldTypes? entry.fields = some tys) :
      HasParts t (.structType id) tys

/-- The sizes of values of types, found from the inside out. -/
inductive HaveSizes (t : SymbolTable) (rule : SizeRule) : List Ty → List Nat → Prop
  | nil : HaveSizes t rule [] []
  | primitive {p : Primitive} {tys : List Ty} {ns : List Nat} (hrest : HaveSizes t rule tys ns) :
      HaveSizes t rule (.primitive p :: tys) (rule.scalar (.primitive p) :: ns)
  | pointer {base : Ty} {tys : List Ty} {ns : List Nat} (hrest : HaveSizes t rule tys ns) :
      HaveSizes t rule (.pointer base :: tys) (rule.scalar (.pointer base) :: ns)
  | array {base : Ty} {size n : Nat} {tys : List Ty} {ns : List Nat}
      (hbase : HaveSizes t rule [base] [n]) (hrest : HaveSizes t rule tys ns) :
      HaveSizes t rule (.array base size :: tys) (rule.array size n :: ns)
  | record {ty : Ty} {parts tys : List Ty} {ms ns : List Nat} (hparts : t.HasParts ty parts)
      (hsizes : HaveSizes t rule parts ms) (hrest : HaveSizes t rule tys ns) :
      HaveSizes t rule (ty :: tys) (rule.record ms :: ns)

/-- The size of the values of a type. -/
def HasSize (t : SymbolTable) (rule : SizeRule) (ty : Ty) (n : Nat) : Prop :=
  t.HaveSizes rule [ty] [n]

variable {rule : SizeRule} {ty : Ty} {tys parts : List Ty} {ns : List Nat}

theorem HasParts.unique {parts' : List Ty} (h : t.HasParts ty parts) (h' : t.HasParts ty parts') :
    parts' = parts := by
  cases h with
  | classType h htys =>
      cases h' with
      | classType h' htys' =>
          cases h.symm.trans h'
          cases htys.symm.trans htys'
          rfl
  | structType h htys =>
      cases h' with
      | structType h' htys' =>
          cases h.symm.trans h'
          exact Option.some.inj (htys'.symm.trans htys)

/-- **Sizes are determined.** -/
theorem HaveSizes.unique {ns' : List Nat} (h : t.HaveSizes rule tys ns)
    (h' : t.HaveSizes rule tys ns') : ns' = ns := by
  induction h generalizing ns' with
  | nil => cases h'; rfl
  | primitive hrest ih =>
      cases h' with
      | primitive hrest' => rw [ih hrest']
      | record hparts' => cases hparts'
  | pointer hrest ih =>
      cases h' with
      | pointer hrest' => rw [ih hrest']
      | record hparts' => cases hparts'
  | array hbase hrest ihbase ihrest =>
      cases h' with
      | array hbase' hrest' =>
          cases ihbase hbase'
          rw [ihrest hrest']
      | record hparts' => cases hparts'
  | record hparts hsizes hrest ihsizes ihrest =>
      cases h' with
      | record hparts' hsizes' hrest' =>
          cases hparts.unique hparts'
          rw [ihsizes hsizes', ihrest hrest']
      | _ => cases hparts

/-- One size in front of others. -/
theorem HaveSizes.cons {n : Nat} (h : t.HasSize rule ty n) (hrest : t.HaveSizes rule tys ns) :
    t.HaveSizes rule (ty :: tys) (n :: ns) := by
  cases h with
  | primitive => exact .primitive hrest
  | pointer => exact .pointer hrest
  | array hbase => exact .array hbase hrest
  | record hparts hsizes => exact .record hparts hsizes hrest

theorem exists_haveSizes (h : ∀ ty ∈ tys, ∃ n, t.HasSize rule ty n) :
    ∃ ns, t.HaveSizes rule tys ns := by
  induction tys with
  | nil => exact ⟨[], .nil⟩
  | cons ty rest ih =>
      obtain ⟨n, hn⟩ := h ty (List.mem_cons_self ..)
      obtain ⟨ns, hns⟩ := ih fun ty' hty' => h ty' (List.mem_cons_of_mem _ hty')
      exact ⟨n :: ns, .cons hn hns⟩

/-- The fields of a record have types, which are known. -/
theorem exists_fieldTypes? (hok : t.Ok) {fields : List SymbolId}
    (hfields : ∀ f ∈ fields, t.FieldOf f id) :
    ∃ tys, t.fieldTypes? fields = some tys ∧ ∀ ty ∈ tys, ty.Known t ∧
      ∃ f ∈ fields, ∃ field, t.field? f = some field ∧ field.ty = ty := by
  induction fields with
  | nil => exact ⟨[], rfl, by simp⟩
  | cons f rest ih =>
      obtain ⟨field, hfield, -⟩ := hfields f (List.mem_cons_self ..)
      obtain ⟨tys, htys, hall⟩ := ih fun f hf => hfields f (List.mem_cons_of_mem _ hf)
      refine ⟨field.ty :: tys, ?_, fun ty hty => ?_⟩
      · rw [fieldTypes?] at htys ⊢
        simp [List.mapM_cons, hfield, htys]
      · rcases List.mem_cons.1 hty with rfl | hty
        · have hstored : field.ty.Storable t := hok f _ (field?_eq_some_iff.1 hfield)
          exact ⟨hstored.1, f, List.mem_cons_self .., field, hfield, rfl⟩
        · obtain ⟨hknown, g, hg, hrest⟩ := hall ty hty
          exact ⟨hknown, g, List.mem_cons_of_mem _ hg, hrest⟩

/-- A known type has a size if the records that it holds have one. -/
theorem exists_hasSize_of_known (hknown : ty.Known t)
    (hheld : ∀ id, ty.Holds id → ∃ n, t.HasSize rule ty n) : ∃ n, t.HasSize rule ty n := by
  cases ty with
  | primitive p => exact ⟨_, .primitive .nil⟩
  | pointer base => exact ⟨_, .pointer .nil⟩
  | classType id => exact hheld id (.classType id)
  | structType id => exact hheld id (.structType id)
  | _ => exact hknown.elim

/-- A record has parts: types that can be stored, and the records in them it stores directly. -/
theorem exists_hasParts (hok : t.Ok)
    (hparents : ∀ id parent, t.parent? id = some parent → (t.class? parent).isSome = true)
    (hholds : ty.Holds id) (hknown : ty.Known t) : ∃ parts, t.HasParts ty parts ∧
      ∀ part ∈ parts, part.Known t ∧ ∀ r, part.Holds r → t.Embeds id r := by
  cases hholds with
  | classType =>
      obtain ⟨entry, hentry⟩ := Option.isSome_iff_exists.1 hknown
      obtain ⟨tys, htys, hfields⟩ :=
        exists_fieldTypes? hok fun f hf => hok.class_fields hentry hf
      refine ⟨_, .classType hentry htys, fun part hpart => ?_⟩
      rcases List.mem_append.1 hpart with hpart | hpart
      · obtain ⟨parent, hparent, rfl⟩ := List.mem_map.1 hpart
        have hextends : t.parent? id = some parent := by
          simpa [parent?, hentry] using hparent
        refine ⟨hparents id parent hextends, fun r hr => ?_⟩
        cases hr
        exact .parent hextends
      · obtain ⟨hpartKnown, f, hf, field, hfield, rfl⟩ := hfields part hpart
        exact ⟨hpartKnown, fun r hr => .classField hentry hf hfield hr⟩
  | structType =>
      obtain ⟨entry, hentry⟩ := Option.isSome_iff_exists.1 hknown
      obtain ⟨tys, htys, hfields⟩ :=
        exists_fieldTypes? hok (hok id _ (struct?_eq_some_iff.1 hentry)).2
      refine ⟨_, .structType hentry htys, fun part hpart => ?_⟩
      obtain ⟨hpartKnown, f, hf, field, hfield, rfl⟩ := hfields part hpart
      exact ⟨hpartKnown, fun r hr => .structField hentry hf hfield hr⟩
  | array => exact hknown.elim

/-- **Every record has a size** if none contains itself. -/
theorem Contained.exists_hasSize (h : t.Contained) (hok : t.Ok)
    (hparents : ∀ id parent, t.parent? id = some parent → (t.class? parent).isSome = true)
    (rule : SizeRule) (hknown : ty.Known t) : ∃ n, t.HasSize rule ty n := by
  have hrecord : ∀ id ty, ty.Holds id → ty.Known t → ∃ n, t.HasSize rule ty n := by
    intro id
    induction id using h.wellFounded.induction with
    | _ id ih =>
        intro ty hholds hty
        obtain ⟨parts, hparts, hstored⟩ := exists_hasParts hok hparents hholds hty
        obtain ⟨ns, hsizes⟩ : ∃ ns, t.HaveSizes rule parts ns :=
          exists_haveSizes fun part hpart =>
            exists_hasSize_of_known (hstored part hpart).1 fun r hr =>
              ih r ((hstored part hpart).2 r hr) part hr (hstored part hpart).1
        exact ⟨_, .record hparts hsizes .nil⟩
  exact exists_hasSize_of_known hknown fun id hid => hrecord id ty hid hknown

theorem Contained.existsUnique_hasSize (h : t.Contained) (hok : t.Ok)
    (hparents : ∀ id parent, t.parent? id = some parent → (t.class? parent).isSome = true)
    (rule : SizeRule) (hknown : ty.Known t) : ∃! n, t.HasSize rule ty n := by
  obtain ⟨n, hn⟩ := h.exists_hasSize hok hparents rule hknown
  refine ⟨n, hn, fun m hm => ?_⟩
  cases hn.unique hm
  rfl

/-! ## Tables that differ in other things -/

/-- Only classes and structs store something. -/
theorem Embeds.isRecord (h : t.Embeds id record) :
    (∃ entry, t.class? id = some entry) ∨ ∃ entry, t.struct? id = some entry := by
  cases h with
  | parent h =>
      obtain ⟨entry, hentry, -⟩ := Option.bind_eq_some_iff.1 h
      exact .inl ⟨entry, hentry⟩
  | classField h => exact .inl ⟨_, h⟩
  | structField h => exact .inr ⟨_, h⟩

/-- Storage and layouts change nothing about what records store. -/
theorem AddsStorage.embeds (h : t.AddsStorage t') (hembeds : t'.Embeds id record) :
    t.Embeds id record := by
  cases hembeds with
  | parent hparent => exact .parent ((h.parent? id).symm.trans hparent)
  | classField he hf hfield hty =>
      exact .classField ((h.class? id).symm.trans he) hf ((h.field? _).symm.trans hfield) hty
  | structField he hf hfield hty =>
      exact .structField ((h.struct? id).symm.trans he) hf ((h.field? _).symm.trans hfield) hty

theorem Dressed.embeds (h : t.Dressed t') (hembeds : t'.Embeds id record) : t.Embeds id record := by
  cases hembeds with
  | parent hparent => exact .parent ((h.parent? id).symm.trans hparent)
  | classField he hf hfield hty => exact .classField (h.class? he) hf (h.field? hfield) hty
  | structField he hf hfield hty =>
      exact .structField ((h.struct? id).symm.trans he) hf (h.field? hfield) hty

theorem Contained.mono (h : t.Contained) (hembeds : ∀ id record, t'.Embeds id record →
    t.Embeds id record) : t'.Contained :=
  fun id hid => h id (Relation.TransGen.mono hembeds _ _ hid)

end SymbolTable

end ClassLang
