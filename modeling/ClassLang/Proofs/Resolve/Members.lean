import Mathlib.Data.List.Find
import Mathlib.Data.List.Nodup
import ClassLang.Proofs.Resolve.Signature

/-!
# The members of a class by their names

The scope of a class body binds the names of its members, and the entry of the class lists
their symbols.  `NamesMembers` says that the two agree: a name is bound to a symbol exactly
if the class has it as its own member of this name, every member that was declared is found
under its name, and the only name besides is `init`.  Each step of reading a class binds a
name and lists a symbol (`NamesMembers.push`), or leaves both alone (`NamesMembers.keep`).
-/

namespace ClassLang

namespace SymbolTable

variable {t t' : SymbolTable} {owner old new : SymbolId} {e e' : ClassEntry}

/-- The own member of a class is the first one of its fields and functions that has the
name. -/
theorem ownMember?_eq (he : t.class? owner = some e) (name : String) :
    t.ownMember? owner name = (e.fields ++ e.functions).find? fun m => t.name m == name := by
  simp [ownMember?, he]

/-- What a class lists was there when it was listed. -/
theorem Ok.member_lt_size (hok : t.Ok) (he : t.class? owner = some e) {m : SymbolId}
    (hm : m ∈ e.fields ++ e.functions) : m < t.size := by
  rcases List.mem_append.1 hm with hfield | hfunction
  · exact (hok.class_fields he hfield).lt_size
  · obtain ⟨f, hf, -⟩ := hok.class_functions he hfunction
    exact lt_size_of_get? (function?_eq_some_iff.1 hf)

/-- The members that a class lists keep their names. -/
theorem Later.memberNames (hlater : t.Later t') (hlt : ∀ m ∈ e.fields ++ e.functions, m < t.size) :
    (e.fields ++ e.functions).map t'.name = (e.fields ++ e.functions).map t.name :=
  List.map_congr_left fun m hm => hlater.name (hlt m hm)

/-- A function is no field. -/
theorem Ok.not_mem_fields (hok : t.Ok) (he : t.class? owner = some e) {function : SymbolId}
    {entry : FunctionEntry} (h : t.function? function = some entry) : function ∉ e.fields := by
  intro hmem
  obtain ⟨field, hfield, -⟩ := hok.class_fields he hmem
  cases (field?_eq_some_iff.1 hfield).symm.trans (function?_eq_some_iff.1 h)

/-- Names are found alike in a later table. -/
theorem find?_name_later (hlater : t.Later t') {ids : List SymbolId} (hids : ∀ m ∈ ids, m < t.size)
    (name : String) :
    (ids.find? fun m => t'.name m == name) = ids.find? fun m => t.name m == name :=
  List.find?_congr fun m hm => by rw [hlater.name (hids m hm)]

/-- A class that lists what it listed has the same members. -/
theorem Later.ownMember? (hlater : t.Later t') (hlt : ∀ m ∈ e.fields ++ e.functions, m < t.size)
    (he : t.class? owner = some e) (he' : t'.class? owner = some e')
    (hfields : e'.fields = e.fields) (hfunctions : e'.functions = e.functions) (name : String) :
    t'.ownMember? owner name = t.ownMember? owner name := by
  rw [ownMember?_eq he, ownMember?_eq he', hfields, hfunctions]
  exact find?_name_later hlater hlt name

/-- A symbol that is listed answers for its name, if no other one did. -/
theorem Later.ownMember?_insert (hlater : t.Later t')
    (hlt : ∀ m ∈ e.fields ++ e.functions, m < t.size) (he : t.class? owner = some e)
    (he' : t'.class? owner = some e') {before after : List SymbolId}
    (hlisted : e.fields ++ e.functions = before ++ after)
    (hlisted' : e'.fields ++ e'.functions = before ++ new :: after)
    (hfree : t.ownMember? owner (t'.name new) = none) (name : String) :
    t'.ownMember? owner name = if name = t'.name new
      then some new else t.ownMember? owner name := by
  rw [hlisted] at hlt
  have hbefore := find?_name_later hlater fun m hm => hlt m (List.mem_append_left _ hm)
  have hafter := find?_name_later hlater fun m hm => hlt m (List.mem_append_right _ hm)
  rw [ownMember?_eq he, hlisted, List.find?_append] at hfree ⊢
  rw [ownMember?_eq he', hlisted', List.find?_append, List.find?_cons, hbefore, hafter]
  by_cases hname : name = t'.name new
  · subst hname
    simp [(Option.or_eq_none_iff.1 hfree).1]
  · have hne : (t'.name new == name) = false := by simpa using Ne.symm hname
    rw [if_neg hname, hne]

/-- What replaces the first answer of a search is found in its place. -/
theorem find?_replaceFirst {p : SymbolId → Bool} {ids : List SymbolId}
    (hfind : ids.find? p = some old)
    (hnew : p new = true) : (replaceFirst old new ids).find? p = some new := by
  induction ids with
  | nil => cases hfind
  | cons id rest ih =>
      simp only [replaceFirst]
      split
      · simp [hnew]
      · next hne =>
          cases hid : p id with
          | true =>
              rw [List.find?_cons, hid] at hfind
              exact absurd (Option.some.inj hfind) hne
          | false =>
              rw [List.find?_cons, hid] at hfind
              simpa [hid] using ih hfind

/-- A search that is interested in neither symbol finds the same. -/
theorem find?_replaceFirst_of_neg {p : SymbolId → Bool} (ids : List SymbolId) (hold : p old = false)
    (hnew : p new = false) : (replaceFirst old new ids).find? p = ids.find? p := by
  induction ids with
  | nil => rfl
  | cons id rest ih =>
      simp only [replaceFirst]
      split
      · next heq => simp [heq, hold, hnew]
      · rw [List.find?_cons, List.find?_cons, ih]

/-- A list of members with another one of the same name has the same names. -/
theorem map_name_replaceFirst (hname : t.name new = t.name old) (ids : List SymbolId) :
    (replaceFirst old new ids).map t.name = ids.map t.name := by
  induction ids with
  | nil => rfl
  | cons id rest ih =>
      simp only [replaceFirst]
      split
      · next heq => simp [heq, hname]
      · rw [List.map_cons, List.map_cons, ih]

/-- A symbol whose name is new can be listed anywhere. -/
theorem nodup_names_insert {before after : List SymbolId}
    (h : ((before ++ after).map t.name).Nodup) (hnew : t.name new ∉ (before ++ after).map t.name) :
    ((before ++ new :: after).map t.name).Nodup := by
  rw [(List.perm_middle.map _).nodup_iff, List.map_cons, List.nodup_cons]
  exact ⟨hnew, h⟩

/-- A function that takes the place of another one of its name answers for the name. -/
theorem Later.ownMember?_replace (hlater : t.Later t')
    (hlt : ∀ m ∈ e.fields ++ e.functions, m < t.size) (he : t.class? owner = some e)
    (he' : t'.class? owner = some e') (hfields : e'.fields = e.fields)
    (hfunctions : e'.functions = replaceFirst old new e.functions)
    (hold : t.ownMember? owner (t'.name new) = some old) (hfield : old ∉ e.fields)
    (hnew : t'.name new = t.name new) (name : String) :
    t'.ownMember? owner name = if name = t'.name new
      then some new else t.ownMember? owner name := by
  have hnames : (replaceFirst old new e.functions).find? (fun m => t'.name m == name) =
      (replaceFirst old new e.functions).find? fun m => t.name m == name := by
    apply List.find?_congr
    intro m hm
    rcases mem_replaceFirst hm with rfl | hm
    · rw [hnew]
    · rw [hlater.name (hlt m (List.mem_append_right _ hm))]
  rw [ownMember?_eq he, List.find?_append] at hold
  rw [ownMember?_eq he, ownMember?_eq he', hfields, hfunctions, List.find?_append,
    List.find?_append,
    find?_name_later hlater (fun m hm => hlt m (List.mem_append_left _ hm)), hnames]
  have hnone : (e.fields.find? fun m => t.name m == t'.name new) = none := by
    cases hfind : e.fields.find? fun m => t.name m == t'.name new with
    | none => rfl
    | some found =>
        rw [hfind] at hold
        cases hold
        exact absurd (List.mem_of_find?_eq_some hfind) hfield
  rw [hnone, Option.none_or] at hold
  by_cases hname : name = t'.name new
  · subst hname
    rw [hnone, if_pos rfl, Option.none_or]
    exact find?_replaceFirst hold (by simp [hnew])
  · have holdName : t.name old = t'.name new := by simpa using List.find?_some hold
    rw [if_neg hname, find?_replaceFirst_of_neg]
    · simpa [holdName] using Ne.symm hname
    · simpa [← hnew] using Ne.symm hname

end SymbolTable

namespace ClassMember

/-- The name of a member. -/
def name : ClassMember → Ident
  | .field f => f.name
  | .method f => f.name

/-- The number of the node of a member. -/
def id : ClassMember → NodeId
  | .field f => f.id
  | .method f => f.id

/-- The number of a member is one of its nodes. -/
theorem id_mem_nodes (member : ClassMember) : member.id ∈ member.nodes := by
  cases member <;> exact List.mem_cons_self ..

end ClassMember

/-- A field has a symbol, which belongs to its record. -/
def FieldDecl.IsBound (ctx : Context) (owner : SymbolId) (field : FieldDecl) : Prop :=
  ∃ x entry, ctx.bindings.symbol? field.id = some x ∧ ctx.symbols.field? x = some entry ∧
    entry.name = field.name.name ∧ entry.owner = owner

/-- A field stays bound where its node keeps its symbol. -/
theorem FieldDecl.IsBound.keep {ctx ctx' : Context} {owner : SymbolId} {field : FieldDecl}
    (h : field.IsBound ctx owner) (hlater : ctx.symbols.Later ctx'.symbols)
    (hsymbol : ctx'.bindings.symbol? field.id = ctx.bindings.symbol? field.id) :
    field.IsBound ctx' owner := by
  obtain ⟨x, entry, hx, hentry, hname, howner⟩ := h
  obtain ⟨entry', hentry', hname', -, howner'⟩ := hlater.field? hentry
  exact ⟨x, entry', hsymbol.trans hx, hentry', hname'.trans hname, howner'.trans howner⟩

/-- The fields of a struct: each has its symbol, and the struct lists them in the order in which it
declares them.  No two have one name. -/
structure HasFields (ctx : Context) (fields : List FieldDecl) (owner : SymbolId) : Prop where
  bound : ∀ field ∈ fields, field.IsBound ctx owner
  listed : ∃ entry, ctx.symbols.struct? owner = some entry ∧
    entry.fields.map some = (fields.map fun f => ctx.bindings.symbol? f.id) ∧
    (entry.fields.map ctx.symbols.name).Nodup

/-- What is listed in a struct was there when it was listed. -/
theorem SymbolTable.Ok.field_lt_size {t : SymbolTable} {owner f : SymbolId} {e : StructEntry}
    (hok : t.Ok) (he : t.struct? owner = some e) (hf : f ∈ e.fields) : f < t.size := by
  have hfield := (hok owner _ (SymbolTable.struct?_eq_some_iff.1 he)).2 f hf
  exact SymbolTable.FieldOf.lt_size hfield

/-- The fields of a struct stay where their nodes keep their symbols. -/
theorem HasFields.keep {ctx ctx' : Context} {fields : List FieldDecl} {owner : SymbolId}
    {e : StructEntry} (h : HasFields ctx fields owner) (hok : ctx.symbols.Ok)
    (hlater : ctx.symbols.Later ctx'.symbols) (he : ctx.symbols.struct? owner = some e)
    (he' : ctx'.symbols.struct? owner = some e)
    (hsymbols : ∀ field ∈ fields, ctx'.bindings.symbol? field.id = ctx.bindings.symbol? field.id) :
    HasFields ctx' fields owner := by
  refine ⟨fun field hfield => (h.bound field hfield).keep hlater (hsymbols field hfield), e, he',
    ?_⟩
  obtain ⟨entry, hentry, hlist, hnodup⟩ := h.listed
  cases he.symm.trans hentry
  constructor
  · rw [hlist]
    exact List.map_congr_left fun f hf => (hsymbols f hf).symm
  · rwa [List.map_congr_left fun f hf => hlater.name (hok.field_lt_size he hf)]

/-- A symbol is the one of a member: a field, or a function that was written. -/
def ClassMember.Stands (ctx : Context) (x : SymbolId) : ClassMember → Prop
  | .field f => ∃ entry, ctx.symbols.field? x = some entry ∧ entry.name = f.name.name
  | .method _ => ∃ entry, ctx.symbols.function? x = some entry ∧ entry.traits.implicit = false

/-- A symbol of a member is one in every later table. -/
theorem ClassMember.Stands.later {ctx ctx' : Context} {x : SymbolId} {member : ClassMember}
    (h : member.Stands ctx x) (hlater : ctx.symbols.Later ctx'.symbols) : member.Stands ctx' x := by
  cases member with
  | field f =>
      obtain ⟨entry, hentry, hname⟩ := h
      obtain ⟨entry', hentry', hname', -⟩ := hlater.field? hentry
      exact ⟨entry', hentry', hname'.trans hname⟩
  | method f =>
      obtain ⟨entry, hentry, hwritten⟩ := h
      obtain ⟨entry', hentry', -, -, -, htraits, -⟩ := hlater.function? hentry
      exact ⟨entry', hentry', htraits ▸ hwritten⟩

/-- A function of a class that has its signature is a symbol of its declaration. -/
theorem IsPrepared.stands {ctx : Context} {m : FunctionDecl} {owner : Option SymbolId}
    {g : SymbolId} (h : IsPrepared ctx m owner g) : (ClassMember.method m).Stands ctx g := by
  obtain ⟨scope, view, entry, hprepared, -⟩ := h
  exact ⟨entry, hprepared.function?, hprepared.written⟩

/-- A prepared function is in the table. -/
theorem IsPrepared.lt_size {ctx : Context} {m : FunctionDecl} {owner : Option SymbolId}
    {g : SymbolId} (h : IsPrepared ctx m owner g) : g < ctx.symbols.size := by
  obtain ⟨entry, hentry, -⟩ := h.stands
  exact SymbolTable.lt_size_of_get? (SymbolTable.function?_eq_some_iff.1 hentry)

/-- A prepared function belongs to its class. -/
theorem IsPrepared.functionOf {ctx : Context} {m : FunctionDecl} {owner g : SymbolId}
    (h : IsPrepared ctx m (some owner) g) : ctx.symbols.FunctionOf g owner := by
  obtain ⟨scope, view, entry, hprepared, howner⟩ := h
  exact ⟨entry, hprepared.function?, howner⟩

/-- The fields among members. -/
def ClassMember.fieldsOf (members : List ClassMember) : List FieldDecl :=
  members.filterMap fun
    | .field f => some f
    | .method _ => none

/-- The functions among members. -/
def ClassMember.methodsOf (members : List ClassMember) : List FunctionDecl :=
  members.filterMap fun
    | .method f => some f
    | .field _ => none

/-- The fields among members are the members that are fields. -/
theorem ClassMember.mem_fieldsOf {members : List ClassMember} {f : FieldDecl} :
    f ∈ ClassMember.fieldsOf members ↔ .field f ∈ members := by
  unfold fieldsOf
  rw [List.mem_filterMap]
  constructor
  · rintro ⟨member, hmember, hsome⟩
    cases member <;> cases hsome
    exact hmember
  · exact fun h => ⟨_, h, rfl⟩

/-- The functions among members are the members that are functions. -/
theorem ClassMember.mem_methodsOf {members : List ClassMember} {m : FunctionDecl} :
    m ∈ ClassMember.methodsOf members ↔ .method m ∈ members := by
  unfold methodsOf
  rw [List.mem_filterMap]
  constructor
  · rintro ⟨member, hmember, hsome⟩
    cases member <;> cases hsome
    exact hmember
  · exact fun h => ⟨_, h, rfl⟩

/-- The functions among members, but for `init`. -/
def ClassMember.furtherOf (members : List ClassMember) : List FunctionDecl :=
  (ClassMember.methodsOf members).filter fun m => m.name.name != initName

/-- What a class lists: its fields, and its functions behind `init`, in the order in which it
declares them.  No two members have one name. -/
structure ListsMembers (ctx : Context) (members : List ClassMember) (entry : ClassEntry) :
    Prop where
  fields : entry.fields.map some =
    (ClassMember.fieldsOf members).map fun f => ctx.bindings.symbol? f.id
  functions : ∃ init rest, entry.functions = init :: rest ∧ ctx.symbols.name init = initName ∧
    (∀ m ∈ ClassMember.methodsOf members, m.name.name = initName →
      ctx.bindings.symbol? m.id = some init) ∧
    rest.map some = (ClassMember.furtherOf members).map fun m => ctx.bindings.symbol? m.id
  distinct : ((entry.fields ++ entry.functions).map ctx.symbols.name).Nodup

namespace ListsMembers

variable {ctx ctx' : Context} {members : List ClassMember} {owner x : SymbolId}
  {entry entry' : ClassEntry}

/-- The functions of a class have different names. -/
theorem functions_nodup (h : ListsMembers ctx members entry) :
    (entry.functions.map ctx.symbols.name).Nodup := by
  have hall := h.distinct
  rw [List.map_append] at hall
  exact (List.nodup_append.1 hall).2.1

/-- A class that has nothing but `init`. -/
theorem start {f : SymbolId} (hfunctions : entry.functions = [f]) (hfields : entry.fields = [])
    (hname : ctx.symbols.name f = initName) : ListsMembers ctx [] entry where
  fields := by rw [hfields]; rfl
  functions := ⟨f, [], hfunctions, hname, by simp [ClassMember.methodsOf], rfl⟩
  distinct := by simp [hfields, hfunctions]

/-- A class goes on to list its members where their nodes keep their symbols. -/
theorem keep (h : ListsMembers ctx members entry) (hok : ctx.symbols.Ok)
    (hlater : ctx.symbols.Later ctx'.symbols) (he : ctx.symbols.class? owner = some entry)
    (hfields : entry'.fields = entry.fields) (hfunctions : entry'.functions = entry.functions)
    (hsymbols : ∀ m ∈ members, ctx'.bindings.symbol? m.id = ctx.bindings.symbol? m.id) :
    ListsMembers ctx' members entry' := by
  have hmethods : ∀ m ∈ ClassMember.methodsOf members,
      ctx'.bindings.symbol? m.id = ctx.bindings.symbol? m.id :=
    fun m hm => hsymbols _ (ClassMember.mem_methodsOf.1 hm)
  constructor
  · rw [hfields, h.fields]
    exact List.map_congr_left fun f hf => (hsymbols _ (ClassMember.mem_fieldsOf.1 hf)).symm
  · obtain ⟨init, rest, hlist, hinit, hwritten, hrest⟩ := h.functions
    refine ⟨init, rest, hfunctions.trans hlist, ?_, fun m hm hcalled => ?_, ?_⟩
    · rw [hlater.name (hok.member_lt_size he (by simp [hlist])), hinit]
    · exact (hmethods m hm).trans (hwritten m hm hcalled)
    · rw [hrest]
      exact List.map_congr_left fun m hm => (hmethods m (List.mem_filter.1 hm).1).symm
  · rw [hfields, hfunctions, hlater.memberNames fun _ => hok.member_lt_size he]
    exact h.distinct

/-- One more field. -/
theorem addField (h : ListsMembers ctx members entry) {field : FieldDecl}
    (hx : ctx.bindings.symbol? field.id = some x)
    (hnew : ctx.symbols.name x ∉ (entry.fields ++ entry.functions).map ctx.symbols.name)
    (hfields : entry'.fields = entry.fields ++ [x])
    (hfunctions : entry'.functions = entry.functions) :
    ListsMembers ctx (members ++ [.field field]) entry' where
  fields := by simp [hfields, h.fields, hx, ClassMember.fieldsOf]
  functions := by simpa [hfunctions, ClassMember.furtherOf, ClassMember.methodsOf] using h.functions
  distinct := by
    rw [hfields, hfunctions, List.append_assoc]
    exact SymbolTable.nodup_names_insert h.distinct hnew

/-- One more function that is not called `init`. -/
theorem addFunction (h : ListsMembers ctx members entry) {method : FunctionDecl}
    (hcalled : method.name.name ≠ initName) (hx : ctx.bindings.symbol? method.id = some x)
    (hnew : ctx.symbols.name x ∉ (entry.fields ++ entry.functions).map ctx.symbols.name)
    (hfields : entry'.fields = entry.fields)
    (hfunctions : entry'.functions = entry.functions ++ [x]) :
    ListsMembers ctx (members ++ [.method method]) entry' where
  fields := by simp [hfields, h.fields, ClassMember.fieldsOf]
  functions := by
    obtain ⟨init, rest, hlist, hinit, hwritten, hrest⟩ := h.functions
    refine ⟨init, rest ++ [x], by simp [hfunctions, hlist], hinit, fun m hm hm' => ?_, ?_⟩
    · simp only [ClassMember.methodsOf, List.filterMap_append, List.mem_append] at hm
      rcases hm with hm | hm
      · exact hwritten m hm hm'
      · obtain rfl : m = method := by simpa using hm
        exact absurd hm' hcalled
    · simp [hrest, hx, hcalled, ClassMember.furtherOf, ClassMember.methodsOf]
  distinct := by
    rw [hfields, hfunctions, ← List.append_assoc]
    exact SymbolTable.nodup_names_insert (by simpa using h.distinct) (by simpa using hnew)

/-- An `init` in the place of the one that was not written. -/
theorem replaceInit (h : ListsMembers ctx members entry) {method : FunctionDecl} {old : SymbolId}
    (hcalled : method.name.name = initName) (hx : ctx.bindings.symbol? method.id = some x)
    (hname : ctx.symbols.name x = initName) (hold : old ∈ entry.functions)
    (holdName : ctx.symbols.name old = initName) (hfresh : ∀ m ∈ members, m.name.name ≠ initName)
    (hfields : entry'.fields = entry.fields)
    (hfunctions : entry'.functions = SymbolTable.replaceFirst old x entry.functions) :
    ListsMembers ctx (members ++ [.method method]) entry' := by
  obtain ⟨init, rest, hlist, hinit, hwritten, hrest⟩ := h.functions
  -- The one that was not written is the first, since no other function has its name.
  have hfirst : old = init :=
    List.inj_on_of_nodup_map h.functions_nodup hold (by simp [hlist]) (holdName.trans hinit.symm)
  subst hfirst
  have hlist' : entry'.functions = x :: rest := by
    rw [hfunctions, hlist]
    simp [SymbolTable.replaceFirst]
  constructor
  · simp [hfields, h.fields, ClassMember.fieldsOf]
  · refine ⟨x, rest, hlist', hname, fun m hm hm' => ?_, ?_⟩
    · simp only [ClassMember.methodsOf, List.filterMap_append, List.mem_append] at hm
      rcases hm with hm | hm
      · exact absurd hm' (hfresh _ (ClassMember.mem_methodsOf.1 hm))
      · obtain rfl : m = method := by simpa using hm
        exact hx
    · simp [hrest, hcalled, ClassMember.furtherOf, ClassMember.methodsOf]
  · have hsame : (entry'.fields ++ entry'.functions).map ctx.symbols.name =
        (entry.fields ++ entry.functions).map ctx.symbols.name := by
      simp [hfields, hlist, hlist', hname, hinit]
    rw [hsame]
    exact h.distinct

end ListsMembers

/-- A name that finds no member is the name of none. -/
theorem SymbolTable.not_mem_names {t : SymbolTable} {owner : SymbolId} {e : ClassEntry}
    (he : t.class? owner = some e) {name : String} (hnone : t.ownMember? owner name = none) :
    name ∉ (e.fields ++ e.functions).map t.name := by
  intro hmem
  rw [SymbolTable.ownMember?_eq he, List.find?_eq_none] at hnone
  obtain ⟨m, hm, heq⟩ := List.mem_map.1 hmem
  exact hnone m hm (by simp [heq])

/-- The own members of a class: those that it declares, each under its name, and perhaps an
`init` that it did not write. -/
structure HasMembers (ctx : Context) (members : List ClassMember) (owner : SymbolId) : Prop where
  listed : ∃ entry, ctx.symbols.class? owner = some entry ∧ ListsMembers ctx members entry
  declared : ∀ member ∈ members, ∃ x, ctx.bindings.symbol? member.id = some x ∧
    member.Stands ctx x ∧ ctx.symbols.ownMember? owner member.name.name = some x
  only : ∀ name x, ctx.symbols.ownMember? owner name = some x →
    (∃ member ∈ members, member.name.name = name) ∨ name = initName

section

variable {ctx ctx' : Context} {members : List ClassMember} {owner : SymbolId} {scope : ScopeId}
  {e e' : ClassEntry}

/-- A class keeps its members where their nodes keep their symbols. -/
theorem HasMembers.keep (h : HasMembers ctx members owner) (hok : ctx.symbols.Ok)
    (hlater : ctx.symbols.Later ctx'.symbols) (he : ctx.symbols.class? owner = some e)
    (he' : ctx'.symbols.class? owner = some e') (hfields : e'.fields = e.fields)
    (hfunctions : e'.functions = e.functions)
    (hsymbols : ∀ member ∈ members,
      ctx'.bindings.symbol? member.id = ctx.bindings.symbol? member.id) :
    HasMembers ctx' members owner := by
  have hsame := hlater.ownMember? (fun _ => hok.member_lt_size he) he he' hfields hfunctions
  constructor
  · obtain ⟨entry, hentry, hlists⟩ := h.listed
    cases he.symm.trans hentry
    exact ⟨e', he', hlists.keep hok hlater he hfields hfunctions hsymbols⟩
  · intro member hmember
    obtain ⟨x, hx, hstands, hown⟩ := h.declared member hmember
    exact ⟨x, (hsymbols member hmember).trans hx, hstands.later hlater, (hsame _).trans hown⟩
  · intro name x hname
    exact h.only name x ((hsame name).symm.trans hname)

/-- The scope of a class body binds the own members of the class. -/
structure NamesMembers (ctx : Context) (members : List ClassMember) (owner : SymbolId)
    (scope : ScopeId) : Prop where
  members : HasMembers ctx members owner
  same : ∀ name, ctx.symbols.ownMember? owner name = ctx.scopes.lookupLocal? scope name

/-- A scope goes on to name the members of its class where both keep what they have. -/
theorem NamesMembers.keep (h : NamesMembers ctx members owner scope) (hok : ctx.symbols.Ok)
    (hlater : ctx.symbols.Later ctx'.symbols) (he : ctx.symbols.class? owner = some e)
    (he' : ctx'.symbols.class? owner = some e') (hfields : e'.fields = e.fields)
    (hfunctions : e'.functions = e.functions)
    (hsymbols : ∀ member ∈ members,
      ctx'.bindings.symbol? member.id = ctx.bindings.symbol? member.id)
    (hscope : ∀ name, ctx'.scopes.lookupLocal? scope name = ctx.scopes.lookupLocal? scope name) :
    NamesMembers ctx' members owner scope where
  members := h.members.keep hok hlater he he' hfields hfunctions hsymbols
  same name := by
    rw [hlater.ownMember? (fun _ => hok.member_lt_size he) he he' hfields hfunctions, h.same,
      hscope]

/-- **One more member**: its name is bound to a symbol that the class lists for it. -/
theorem NamesMembers.push (h : NamesMembers ctx members owner scope) {member : ClassMember}
    {x : SymbolId} (hlater : ctx.symbols.Later ctx'.symbols)
    (he' : ctx'.symbols.class? owner = some e')
    (hlists : ListsMembers ctx' (members ++ [member]) e')
    (hown : ∀ name, ctx'.symbols.ownMember? owner name =
      if name = member.name.name then some x else ctx.symbols.ownMember? owner name)
    (hscope : ∀ name, ctx'.scopes.lookupLocal? scope name =
      if name = member.name.name then some x else ctx.scopes.lookupLocal? scope name)
    (hsymbols : ∀ m ∈ members, ctx'.bindings.symbol? m.id = ctx.bindings.symbol? m.id)
    (hx : ctx'.bindings.symbol? member.id = some x) (hstands : member.Stands ctx' x)
    (hnew : ∀ m ∈ members, m.name.name ≠ member.name.name) :
    NamesMembers ctx' (members ++ [member]) owner scope := by
  constructor
  · constructor
    · exact ⟨e', he', hlists⟩
    · intro m hm
      rcases List.mem_append.1 hm with hm | hm
      · obtain ⟨y, hy, hstandsy, howny⟩ := h.members.declared m hm
        exact ⟨y, (hsymbols m hm).trans hy, hstandsy.later hlater, by
          rw [hown, if_neg (hnew m hm), howny]⟩
      · rw [List.mem_singleton.1 hm]
        exact ⟨x, hx, hstands, by rw [hown, if_pos rfl]⟩
    · intro name y hname
      rw [hown] at hname
      split at hname
      · next heq => exact .inl ⟨member, by simp, heq.symm⟩
      · rcases h.members.only name y hname with ⟨m, hm, heq⟩ | hinit
        · exact .inl ⟨m, List.mem_append_left _ hm, heq⟩
        · exact .inr hinit
  · intro name
    rw [hown, hscope, h.same]

/-- A name that is free is the name of no member. -/
theorem NamesMembers.ne_of_free (h : NamesMembers ctx members owner scope) {name : String}
    (hfree : ctx.scopes.lookupLocal? scope name = none) :
    ∀ m ∈ members, m.name.name ≠ name := by
  intro m hm heq
  obtain ⟨x, -, -, hown⟩ := h.members.declared m hm
  rw [h.same, heq, hfree] at hown
  cases hown

/-- As long as `init` stands for a function that was not written, no member is called so. -/
theorem NamesMembers.ne_init (h : NamesMembers ctx members owner scope) {old : SymbolId}
    {entry : FunctionEntry} (hold : ctx.scopes.lookupLocal? scope initName = some old)
    (hentry : ctx.symbols.function? old = some entry) (himplicit : entry.traits.implicit = true) :
    ∀ m ∈ members, m.name.name ≠ initName := by
  intro m hm heq
  obtain ⟨x, -, hstands, hown⟩ := h.members.declared m hm
  rw [h.same, heq, hold] at hown
  cases hown
  cases m with
  | field f =>
      obtain ⟨field, hfield, -⟩ := hstands
      cases (SymbolTable.field?_eq_some_iff.1 hfield).symm.trans
        (SymbolTable.function?_eq_some_iff.1 hentry)
  | method f =>
      obtain ⟨entry', hentry', hwritten⟩ := hstands
      cases hentry.symm.trans hentry'
      simp [himplicit] at hwritten

end

end ClassLang
