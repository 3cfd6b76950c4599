import ClassLang.Proofs.Resolve.Class
import Mathlib.Data.List.Chain
import Mathlib.Data.List.Induction

/-!
# Scopes as nested environments

A tree of scopes is told by the calls that made it: what was opened in what, and what each
scope binds a name to.  The second is read off the calls alone (`ScopeTree.binding?`): the
symbol that the name was first defined as, or the last one it was rebound to since.

There are two invariants of a sequence of calls.

1.  The tree has the parents and the bindings of its calls (`Mirrors`).  This needs only that
    every call is about a scope that is there.
2.  The list of symbols that a scope keeps for itself agrees with its bindings.  Rebinding
    looks the old symbol up in that list, so no symbol may stand for two names of a scope.
-/

namespace ClassLang

namespace ScopeTree

/-- A call that is made on a tree of scopes. -/
inductive Call
  | push (parent : ScopeId) (kind : ScopeKind)
  | define (scope : ScopeId) (name : String) (symbol : SymbolId)
  | rebind (scope : ScopeId) (name : String) (symbol : SymbolId)
  deriving DecidableEq, Repr

namespace Call

/-- The scope that a call is about. -/
def scope : Call → ScopeId
  | push parent _ => parent
  | define scope _ _ => scope
  | rebind scope _ _ => scope

/-- The tree behind a call.  One that fails leaves the tree as it is. -/
def run (tree : ScopeTree) : Call → ScopeTree
  | push parent kind => tree.push parent kind
  | define scope name symbol => (tree.define scope name symbol).toOption.getD tree
  | rebind scope name symbol => ((tree.rebind? scope name symbol).map Prod.snd).getD tree

/-- The scope in which a call opens another one. -/
def opensIn? : Call → Option ScopeId
  | push parent _ => some parent
  | _ => none

/-- What a call asks to define a name of a scope as. -/
def defines? (scope : ScopeId) (name : String) : Call → Option SymbolId
  | define s n symbol => if s = scope ∧ n = name then some symbol else none
  | _ => none

/-- What a call asks to rebind a name of a scope to. -/
def rebinds? (scope : ScopeId) (name : String) : Call → Option SymbolId
  | rebind s n symbol => if s = scope ∧ n = name then some symbol else none
  | _ => none

/-- The name that a call asks to define in a scope. -/
def names? (scope : ScopeId) : Call → Option String
  | define s name _ => if s = scope then some name else none
  | _ => none

/-- The symbol that a call binds. -/
def symbol? : Call → Option SymbolId
  | push _ _ => none
  | define _ _ symbol => some symbol
  | rebind _ _ symbol => some symbol

end Call

/-! ## What the calls say -/

/-- The scopes in which the calls open others, in order. -/
def parents (calls : List Call) : List ScopeId := calls.filterMap Call.opensIn?

/-- The number of scopes behind the calls. -/
def opened (calls : List Call) : Nat := (parents calls).length + 1

/-- The scope in which a scope was opened. -/
def openedIn? (calls : List Call) : ScopeId → Option ScopeId
  | 0 => none
  | id + 1 => (parents calls)[id]?

/-- What a name of a scope is bound to behind the calls: what it was first defined as, unless it
was rebound since, and then the last symbol it was rebound to. -/
def binding? (scope : ScopeId) (name : String) : List Call → Option SymbolId
  | [] => none
  | call :: later =>
    match call.defines? scope name with
    | some first => some ((later.filterMap (Call.rebinds? scope name)).getLast?.getD first)
    | none => binding? scope name later

/-- The names that were defined in a scope, in the order of their first definition. -/
def namesIn (scope : ScopeId) (calls : List Call) : List String :=
  (calls.filterMap (Call.names? scope)).eraseDups

/-- Every call is about a scope that is there. -/
inductive Legal : List Call → Prop
  | nil : Legal []
  | append {calls : List Call} {call : Call} :
      Legal calls → call.scope < opened calls → Legal (calls ++ [call])

/-- At no time does a symbol stand for two names of one scope. -/
def Apart (calls : List Call) : Prop :=
  ∀ before, before <+: calls → ∀ scope name other symbol,
    binding? scope name before = some symbol → binding? scope other before = some symbol →
      name = other

/-- The tree behind the calls. -/
def behind (calls : List Call) : ScopeTree := calls.foldl Call.run initial

variable {calls : List Call} {scope id : ScopeId} {name : String} {symbol : SymbolId}

/-- One more call runs behind the others. -/
theorem behind_append (calls : List Call) (call : Call) :
    behind (calls ++ [call]) = call.run (behind calls) := by
  simp [behind]

/-- One call more: a name that is bound can be rebound, and one that is not can be defined. -/
theorem binding?_append (scope : ScopeId) (name : String) (calls : List Call) (call : Call) :
    binding? scope name (calls ++ [call]) =
      match binding? scope name calls with
      | some bound => some ((call.rebinds? scope name).getD bound)
      | none => call.defines? scope name := by
  induction calls with
  | nil =>
      simp only [List.nil_append, binding?]
      cases call.defines? scope name <;> simp
  | cons first later ih =>
      simp only [List.cons_append, binding?]
      cases first.defines? scope name with
      | none => exact ih
      | some symbol =>
          cases hlast : call.rebinds? scope name <;> simp [List.filterMap_append, hlast]

/-- What a call that opens no scope leaves as it is. -/
theorem openedIn?_append {call : Call} (hopens : call.opensIn? = none) (id : ScopeId) :
    openedIn? (calls ++ [call]) id = openedIn? calls id := by
  cases id <;> simp [openedIn?, parents, hopens]

/-- Opening a scope says where the new scope is, and nothing about others. -/
theorem openedIn?_push (calls : List Call) (parent : ScopeId) (kind : ScopeKind) (id : ScopeId) :
    openedIn? (calls ++ [.push parent kind]) id =
      if id = opened calls then some parent else openedIn? calls id := by
  have hparents : parents (calls ++ [.push parent kind]) = parents calls ++ [parent] := by
    simp [parents, Call.opensIn?]
  cases id with
  | zero => rfl
  | succ id =>
      rw [openedIn?, openedIn?, hparents]
      rcases Nat.lt_trichotomy id (parents calls).length with h | h | h
      · have hne : id + 1 ≠ opened calls := Nat.ne_of_lt (Nat.succ_lt_succ h)
        rw [List.getElem?_append_left h, if_neg hne]
      · have heq : id + 1 = opened calls := congrArg Nat.succ h
        rw [if_pos heq, h, List.getElem?_concat_length]
      · have hne : id + 1 ≠ opened calls := Nat.ne_of_gt (Nat.succ_lt_succ h)
        rw [if_neg hne, List.getElem?_eq_none (Nat.le_of_lt h), List.getElem?_eq_none]
        simpa using Nat.succ_le_of_lt h

/-- A scope is opened in one that is there already. -/
theorem Legal.openedIn?_lt (h : Legal calls) {parent : ScopeId}
    (hparent : openedIn? calls id = some parent) : parent < id := by
  induction h with
  | nil => cases id <;> simp [openedIn?, parents] at hparent
  | @append calls call _ hscope ih =>
      cases call with
      | push outer kind =>
          rw [openedIn?_push] at hparent
          split at hparent
          · next heq =>
              cases hparent
              rwa [heq]
          · exact ih hparent
      | define | rebind => exact ih ((openedIn?_append rfl id).symm.trans hparent)

/-- Every scope but the outermost one was opened in another one. -/
theorem isSome_openedIn? (hid : id < opened calls) (hroot : id ≠ root) :
    (openedIn? calls id).isSome := by
  cases id with
  | zero => exact absurd rfl hroot
  | succ id => simpa [openedIn?, opened] using hid

/-- A name is bound to what it is first defined as. -/
theorem binding?_define (s : ScopeId) (n : String) (symbol : SymbolId) :
    binding? scope name (calls ++ [.define s n symbol]) =
      (binding? scope name calls).or (if s = scope ∧ n = name then some symbol else none) := by
  rw [binding?_append]
  cases binding? scope name calls <;> rfl

/-- A name that is bound stands for what it is rebound to. -/
theorem binding?_rebind (s : ScopeId) (n : String) (symbol : SymbolId) :
    binding? scope name (calls ++ [.rebind s n symbol]) =
      (binding? scope name calls).map fun bound => if s = scope ∧
      n = name then symbol else bound := by
  rw [binding?_append]
  cases binding? scope name calls with
  | none => rfl
  | some bound =>
      simp only [Call.rebinds?, Option.map_some]
      split <;> rfl

/-- A call about a name of a scope leaves all others as they are. -/
theorem binding?_append_other {call : Call} (hdefine : call.defines? scope name = none)
    (hrebind : call.rebinds? scope name = none) :
    binding? scope name (calls ++ [call]) = binding? scope name calls := by
  rw [binding?_append, hdefine, hrebind]
  cases binding? scope name calls <;> rfl

/-- A definition binds no other name. -/
theorem binding?_define_other {s : ScopeId} {n : String} (h : ¬ (s = scope ∧ n = name)) :
    binding? scope name (calls ++ [.define s n symbol]) = binding? scope name calls :=
  binding?_append_other (if_neg h) rfl

/-- A rebinding changes no other name. -/
theorem binding?_rebind_other {s : ScopeId} {n : String} (h : ¬ (s = scope ∧ n = name)) :
    binding? scope name (calls ++ [.rebind s n symbol]) = binding? scope name calls :=
  binding?_append_other rfl (if_neg h)

/-- The names that were defined in a scope are those that it binds. -/
theorem mem_namesIn : name ∈ namesIn scope calls ↔ (binding? scope name calls).isSome := by
  rw [namesIn, List.mem_eraseDups]
  induction calls with
  | nil => simp [binding?]
  | cons call later ih =>
      have hhere : call.names? scope = some name ↔ (call.defines? scope name).isSome := by
        cases call with
        | define s n symbol => by_cases hs : s = scope <;> simp [Call.names?, Call.defines?, hs]
        | push | rebind => simp [Call.names?, Call.defines?]
      simp only [binding?, List.mem_filterMap, List.mem_cons, exists_eq_or_imp, hhere] at ih ⊢
      cases call.defines? scope name with
      | some first => simp
      | none => simpa using ih

/-- A call names a name for the first time, or adds none. -/
theorem namesIn_append (scope : ScopeId) (calls : List Call) (call : Call) :
    namesIn scope (calls ++ [call]) = namesIn scope calls ++
      ((call.names? scope).filter fun name => (binding? scope name calls).isNone).toList := by
  have hbound : ∀ name, name ∈ calls.filterMap (Call.names? scope) ↔
      (binding? scope name calls).isSome := fun name => by
    rw [← mem_namesIn, namesIn, List.mem_eraseDups]
  rw [namesIn, List.filterMap_append, List.eraseDups_append, ← namesIn]
  congr 1
  cases hname : call.names? scope with
  | none => simp [hname, List.removeAll]
  | some name =>
      rw [List.filterMap_cons_some hname, List.filterMap_nil, List.removeAll]
      cases hb : binding? scope name calls with
      | none =>
          rw [List.filter_cons_of_pos (by simp [hbound, hb])]
          simp [Option.filter, hb, List.eraseDups_cons]
      | some bound =>
          rw [List.filter_cons_of_neg (by simp [hbound, hb])]
          simp [Option.filter, hb]

/-- A scope has each of its names once. -/
theorem nodup_namesIn (scope : ScopeId) (calls : List Call) : (namesIn scope calls).Nodup := by
  induction calls using List.reverseRecOn with
  | nil => simp [namesIn]
  | append_singleton before call ih =>
      rw [namesIn_append, List.nodup_append]
      refine ⟨ih, ?_, fun name hname other hother heq => ?_⟩
      · cases (call.names? scope).filter _ <;> simp
      · have hnew := (Option.filter_eq_some_iff.1 (Option.mem_toList.1 hother)).2
        rw [mem_namesIn, heq] at hname
        cases hb : binding? scope other before <;> simp_all

/-! ## The tree mirrors its calls -/

variable {tree : ScopeTree} {old : SymbolId}

/-- A name that a scope binds is not defined again. -/
theorem run_define_of_some (h : tree.lookupLocal? scope name = some old) :
    Call.run tree (.define scope name symbol) = tree := by
  simp [Call.run, define, h, Except.toOption]

/-- A name that is free is defined. -/
theorem run_define_of_none (h : tree.lookupLocal? scope name = none) :
    Call.run tree (.define scope name symbol) = tree.bind scope name symbol := by
  simp [Call.run, define, h, Except.toOption]

/-- A name that is bound is rebound. -/
theorem run_rebind_of_some (h : tree.lookupLocal? scope name = some old) :
    Call.run tree (.rebind scope name symbol) = tree.rebound scope name old symbol := by
  simp [Call.run, rebind?_eq h]

/-- A name that a scope does not bind is not rebound. -/
theorem run_rebind_of_none (h : tree.lookupLocal? scope name = none) :
    Call.run tree (.rebind scope name symbol) = tree := by
  simp [Call.run, rebind?, h]

/-- A tree has the scopes, the parents and the bindings that calls lead to. -/
structure Mirrors (tree : ScopeTree) (calls : List Call) : Prop where
  size : tree.size = opened calls
  parent : ∀ id, tree.parent? id = openedIn? calls id
  bound : ∀ scope name, tree.lookupLocal? scope name = binding? scope name calls

/-- A tree that has only the outermost scope mirrors no calls. -/
theorem mirrors_initial : Mirrors initial [] where
  size := rfl
  parent id := by cases id <;> rfl
  bound scope name := by cases scope <;> rfl

/-- The tree goes on to mirror its calls when a scope is opened. -/
theorem Mirrors.push (h : Mirrors tree calls) (parent : ScopeId) (kind : ScopeKind) :
    Mirrors (tree.push parent kind) (calls ++ [.push parent kind]) where
  size := by simp [h.size, opened, parents, Call.opensIn?]
  parent id := by rw [parent?_push, openedIn?_push, h.size, h.parent]
  bound scope name := by
    rw [lookupLocal?_push, binding?_append_other rfl rfl, ← h.bound]
    split
    · next heq =>
        -- A scope that is not there yet binds nothing.
        simp [lookupLocal?, get?_eq_none (Nat.le_of_eq heq.symm)]
    · rfl

/-- A call that opens no scope leaves the parents as they are. -/
theorem Mirrors.keep {tree' : ScopeTree} {call : Call} (h : Mirrors tree calls)
    (hopens : call.opensIn? = none) (hsize : tree'.size = tree.size)
    (hparent : ∀ id, tree'.parent? id = tree.parent? id)
    (hbound : ∀ scope name,
      tree'.lookupLocal? scope name = binding? scope name (calls ++ [call])) :
    Mirrors tree' (calls ++ [call]) where
  size := by simp [hsize, h.size, opened, parents, hopens]
  parent id := by rw [hparent, h.parent, openedIn?_append hopens]
  bound := hbound

/-- The tree goes on to mirror its calls when a name is defined. -/
theorem Mirrors.define (h : Mirrors tree calls) (hscope : scope < tree.size) (name : String)
    (symbol : SymbolId) :
    Mirrors (Call.run tree (.define scope name symbol)) (calls ++ [.define scope name symbol]) := by
  cases hlocal : tree.lookupLocal? scope name with
  | some existing =>
      rw [run_define_of_some hlocal]
      refine h.keep rfl rfl (fun _ => rfl) fun s n => ?_
      rw [h.bound]
      by_cases heq : scope = s ∧ name = n
      · rw [binding?_define, ← heq.1, ← heq.2, ← h.bound, hlocal, Option.some_or]
      · rw [binding?_define_other heq]
  | none =>
      rw [run_define_of_none hlocal]
      refine h.keep rfl (by simp) (by simp) fun s n => ?_
      rw [lookupLocal?_bind tree symbol hscope hlocal]
      by_cases heq : s = scope ∧ n = name
      · rw [if_pos heq, heq.1, heq.2, binding?_define, ← h.bound, hlocal, Option.none_or,
          if_pos ⟨rfl, rfl⟩]
      · rw [if_neg heq, h.bound, binding?_define_other fun hand => heq ⟨hand.1.symm, hand.2.symm⟩]

/-- The tree goes on to mirror its calls when a name is rebound. -/
theorem Mirrors.rebind (h : Mirrors tree calls) (scope : ScopeId) (name : String)
    (symbol : SymbolId) :
    Mirrors (Call.run tree (.rebind scope name symbol)) (calls ++ [.rebind scope name symbol]) := by
  cases hlocal : tree.lookupLocal? scope name with
  | none =>
      rw [run_rebind_of_none hlocal]
      refine h.keep rfl rfl (fun _ => rfl) fun s n => ?_
      rw [h.bound]
      by_cases heq : scope = s ∧ name = n
      · rw [binding?_rebind, ← heq.1, ← heq.2, ← h.bound, hlocal, Option.map_none]
      · rw [binding?_rebind_other heq]
  | some old =>
      rw [run_rebind_of_some hlocal]
      refine h.keep rfl (by simp) (by simp) fun s n => ?_
      rw [lookupLocal?_rebound hlocal]
      by_cases heq : s = scope ∧ n = name
      · rw [if_pos heq, heq.1, heq.2, binding?_rebind, ← h.bound, hlocal, Option.map_some,
          if_pos ⟨rfl, rfl⟩]
      · rw [if_neg heq, h.bound, binding?_rebind_other fun hand => heq ⟨hand.1.symm, hand.2.symm⟩]

/-- **The tree behind calls mirrors them.** -/
theorem Legal.mirrors (h : Legal calls) : Mirrors (behind calls) calls := by
  induction h with
  | nil => exact mirrors_initial
  | @append calls call _ hscope ih =>
      rw [behind_append]
      cases call with
      | push parent kind => exact ih.push parent kind
      | define scope name symbol => exact ih.define (ih.size ▸ hscope) name symbol
      | rebind scope name symbol => exact ih.rebind scope name symbol

/-- Behind legal calls every scope was opened in an earlier one. -/
theorem Legal.descends (h : Legal calls) : (behind calls).Descends := by
  intro id parent hparent
  rw [h.mirrors.parent] at hparent
  exact h.openedIn?_lt hparent

/-! ## Chains -/

/-- A chain leads from scope to surrounding scope and ends at the root. -/
theorem chain_links (htree : tree.Descends)
    (houter : ∀ id < tree.size, id ≠ root → (tree.parent? id).isSome) (hid : id < tree.size) :
    (tree.chain id).head? = some id ∧
      (tree.chain id).IsChain (fun inner outer => tree.parent? inner = some outer) ∧
      (tree.chain id).getLast? = some root := by
  induction id using Nat.strongRecOn with
  | ind id ih =>
      rw [chain_eq htree hid]
      cases hparent : tree.parent? id with
      | none =>
          obtain rfl : id = root := by
            by_contra hne
            simpa [hparent] using houter id hid hne
          simp
      | some parent =>
          have hlt : parent < id := htree id parent hparent
          obtain ⟨hhead, hlinks, hlast⟩ := ih parent hlt (Nat.lt_trans hlt hid)
          refine ⟨rfl, List.isChain_cons.2 ⟨?_, hlinks⟩, ?_⟩
          · intro outer houter
            rw [hhead] at houter
            cases houter
            exact hparent
          · simp [List.getLast?_cons, hlast]

/-- A chain of scopes goes down to smaller numbers. -/
theorem chain_descends (htree : tree.Descends)
    (hlinks : (tree.chain id).IsChain fun inner outer => tree.parent? inner = some outer) :
    (tree.chain id).Pairwise (· > ·) :=
  (hlinks.imp fun inner outer h => htree inner outer h).pairwise

/-! ## Symbols -/

/-- Opening a scope changes no list of symbols. -/
theorem symbols_push (tree : ScopeTree) (parent : ScopeId) (kind : ScopeKind) (id : ScopeId) :
    (tree.push parent kind).symbols id = tree.symbols id := by
  simp only [symbols, get?_push]
  split
  · next heq => simp [heq, get?_eq_none (Nat.le_refl tree.size)]
  · rfl

/-- A name that is bound puts its symbol at the end of the list. -/
theorem symbols_bind (hscope : scope < tree.size) (id : ScopeId) :
    (tree.bind scope name symbol).symbols id =
      tree.symbols id ++ if scope = id then [symbol] else [] := by
  simp only [symbols, get?_bind]
  split
  · next heq =>
      subst heq
      obtain ⟨s, hs⟩ : ∃ s, tree.get? scope = some s := ⟨_, List.getElem?_eq_getElem hscope⟩
      simp [hs, Scope.bind]
  · simp

/-- A name that is rebound has its symbol replaced in the list. -/
theorem symbols_rebound (tree : ScopeTree) (scope : ScopeId) (name : String) (old new : SymbolId)
    (id : ScopeId) : (tree.rebound scope name old new).symbols id =
      if scope = id then SymbolTable.replaceFirst old new
        (tree.symbols id) else tree.symbols id := by
  simp only [symbols, get?_rebound]
  split
  · cases tree.get? id <;> rfl
  · rfl

/-- The current bindings of a scope, in the order in which its names were first defined. -/
def bindings (scope : ScopeId) (calls : List Call) : List SymbolId :=
  (namesIn scope calls).filterMap fun name => binding? scope name calls

/-- Where one name only stands for the symbol, exchanging it in the list is rebinding the name. -/
theorem replaceFirst_filterMap {names : List String} {bound : String → Option SymbolId}
    {old new : SymbolId} (hname : bound name = some old)
    (honly : ∀ other, bound other = some old → other = name) (hnodup : names.Nodup) :
    SymbolTable.replaceFirst old new (names.filterMap bound) =
      names.filterMap fun other => if other = name then some new else bound other := by
  induction names with
  | nil => rfl
  | cons first rest ih =>
      obtain ⟨hfirst, hrest⟩ := List.nodup_cons.1 hnodup
      by_cases heq : first = name
      · subst heq
        have hkept : ∀ other ∈ rest,
            (if other = first then some new else bound other) = bound other := by
          intro other hother
          have hne : other ≠ first := ne_of_mem_of_not_mem hother hfirst
          exact if_neg hne
        rw [List.filterMap_cons_some hname, SymbolTable.replaceFirst, if_pos rfl,
          List.filterMap_cons_some (b := new), List.filterMap_congr hkept]
        exact if_pos rfl
      · cases hbound : bound first with
        | none =>
            rw [List.filterMap_cons_none hbound, ih hrest, List.filterMap_cons_none]
            rw [if_neg heq, hbound]
        | some symbol =>
            have hne : symbol ≠ old := fun h => heq (honly first (h ▸ hbound))
            rw [List.filterMap_cons_some hbound, SymbolTable.replaceFirst, if_neg hne, ih hrest,
              List.filterMap_cons_some]
            rw [if_neg heq, hbound]

/-- Symbols that are apart were apart before. -/
theorem Apart.before {call : Call} (h : Apart (calls ++ [call])) : Apart calls :=
  fun before hbefore => h before (hbefore.trans (List.prefix_append _ _))

/-- A call that names nothing new and binds nothing changes no list. -/
theorem bindings_append {call : Call}
    (hnames : ∀ name, call.names? scope = some name → (binding? scope name calls).isSome)
    (hbound : ∀ name, binding? scope name (calls ++ [call]) = binding? scope name calls) :
    bindings scope (calls ++ [call]) = bindings scope calls := by
  have hnone : ((call.names? scope).filter fun name => (binding? scope name calls).isNone) =
      none := by
    refine Option.filter_eq_none_iff.2 fun name hname => ?_
    simpa [Option.isSome_iff_ne_none] using hnames name hname
  simp [bindings, namesIn_append, hnone, hbound]

/-- A name that is free puts its symbol behind the others. -/
theorem bindings_define_free (hfree : binding? scope name calls = none) (symbol : SymbolId) :
    bindings scope (calls ++ [.define scope name symbol]) = bindings scope calls ++ [symbol] := by
  have hkept : ∀ other ∈ namesIn scope calls,
      binding? scope other (calls ++ [.define scope name symbol]) = binding? scope other calls := by
    intro other hother
    refine binding?_define_other ?_
    rintro ⟨-, rfl⟩
    simp [mem_namesIn, hfree] at hother
  have hnew : [name].filterMap (binding? scope · (calls ++ [.define scope name symbol])) =
      [symbol] := by
    simp [binding?_define, hfree]
  have hnames : namesIn scope (calls ++ [.define scope name symbol]) =
      namesIn scope calls ++ [name] := by
    simp [namesIn_append, Call.names?, Option.filter, hfree]
  rw [bindings, hnames, List.filterMap_append, List.filterMap_congr hkept, hnew, bindings]

/-- A name that is rebound has its symbol replaced, if no other name has it. -/
theorem bindings_rebind {old : SymbolId} (hold : binding? scope name calls = some old)
    (honly : ∀ other, binding? scope other calls = some old → other = name) (new : SymbolId) :
    bindings scope (calls ++ [.rebind scope name new]) =
      SymbolTable.replaceFirst old new (bindings scope calls) := by
  have hnames : namesIn scope (calls ++ [.rebind scope name new]) = namesIn scope calls := by
    simp [namesIn_append, Call.names?]
  rw [bindings, bindings, hnames, replaceFirst_filterMap hold honly (nodup_namesIn scope calls)]
  refine List.filterMap_congr fun other _ => ?_
  by_cases heq : other = name
  · rw [binding?_rebind, heq, hold, if_pos rfl, Option.map_some, if_pos ⟨rfl, rfl⟩]
  · rw [if_neg heq, binding?_rebind_other fun hand => heq hand.2.symm]

/-- The list of a scope that calls did not change. -/
theorem Mirrors.symbols_define (h : Mirrors tree calls) {s : ScopeId} (hs : s < tree.size)
    (hlist : tree.symbols scope = bindings scope calls) (name : String) (symbol : SymbolId) :
    (Call.run tree (.define s name symbol)).symbols scope =
      bindings scope (calls ++ [.define s name symbol]) := by
  have hlocal := h.bound s name
  cases hbound : binding? s name calls with
  | some existing =>
      rw [run_define_of_some (hlocal.trans hbound), hlist, bindings_append]
      · intro other hother
        simp only [Call.names?] at hother
        split at hother
        · next heq =>
            cases hother
            simp [← heq, hbound]
        · cases hother
      · intro other
        by_cases heq : s = scope ∧ name = other
        · rw [binding?_define, ← heq.1, ← heq.2, hbound, Option.some_or]
        · exact binding?_define_other heq
  | none =>
      rw [run_define_of_none (hlocal.trans hbound), symbols_bind hs, hlist]
      split
      · next heq =>
          subst heq
          rw [bindings_define_free hbound]
      · next hne =>
          rw [List.append_nil, bindings_append]
          · simp [Call.names?, hne]
          · exact fun other => binding?_define_other fun hand => hne hand.1

/-- The list of a scope agrees with its bindings behind a rebinding. -/
theorem Mirrors.symbols_rebind (h : Mirrors tree calls) {s : ScopeId}
    (hlist : tree.symbols scope = bindings scope calls) (name : String) (symbol : SymbolId)
    (honly : ∀ old, binding? s name calls = some old →
      ∀ other, binding? s other calls = some old → other = name) :
    (Call.run tree (.rebind s name symbol)).symbols scope =
      bindings scope (calls ++ [.rebind s name symbol]) := by
  have hlocal := h.bound s name
  cases hbound : binding? s name calls with
  | none =>
      rw [run_rebind_of_none (hlocal.trans hbound), hlist, bindings_append]
      · nofun
      · intro other
        by_cases heq : s = scope ∧ name = other
        · rw [binding?_rebind, ← heq.1, ← heq.2, hbound, Option.map_none]
        · exact binding?_rebind_other heq
  | some old =>
      rw [run_rebind_of_some (hlocal.trans hbound), symbols_rebound, hlist]
      split
      · next heq =>
          subst heq
          rw [bindings_rebind hbound (honly old hbound)]
      · next hne =>
          rw [bindings_append]
          · nofun
          · exact fun other => binding?_rebind_other fun hand => hne hand.1

/-- **A scope lists its bindings in the order of definition.** -/
theorem Legal.symbols_eq (h : Legal calls) (hapart : Apart calls) (scope : ScopeId) :
    (behind calls).symbols scope = bindings scope calls := by
  induction h with
  | nil => cases scope <;> rfl
  | @append calls call hlegal hscope ih =>
      have hlist := ih hapart.before
      rw [behind_append]
      cases call with
      | push parent kind =>
          rw [Call.run, symbols_push, hlist, bindings_append]
          · nofun
          · exact fun other => binding?_append_other rfl rfl
      | define s name symbol =>
          exact hlegal.mirrors.symbols_define (hlegal.mirrors.size ▸ hscope) hlist name symbol
      | rebind s name symbol =>
          exact hlegal.mirrors.symbols_rebind hlist name symbol fun old hold other hother =>
            hapart calls (List.prefix_append _ _) s other name old hother hold

/-- A symbol stands in the bindings of a scope once. -/
theorem nodup_bindings (hapart : Apart calls) (scope : ScopeId) : (bindings scope calls).Nodup := by
  refine List.Nodup.filterMap (fun name other symbol hname hother => ?_) (nodup_namesIn scope calls)
  exact hapart calls (List.prefix_refl calls) scope name other symbol hname hother

/-- The bindings of a scope are the symbols of its names. -/
theorem mem_bindings :
    symbol ∈ bindings scope calls ↔ ∃ name, binding? scope name calls = some symbol := by
  rw [bindings, List.mem_filterMap]
  constructor
  · rintro ⟨name, -, hname⟩
    exact ⟨name, hname⟩
  · rintro ⟨name, hname⟩
    exact ⟨name, by simp [mem_namesIn, hname], hname⟩

/-- A binding was made by a call. -/
theorem mem_of_binding? (h : binding? scope name calls = some symbol) :
    .define scope name symbol ∈ calls ∨ .rebind scope name symbol ∈ calls := by
  induction calls using List.reverseRecOn with
  | nil => cases h
  | append_singleton before call ih =>
      rw [binding?_append] at h
      cases hbound : binding? scope name before with
      | none =>
          have hcall : call.defines? scope name = some symbol := by simpa [hbound] using h
          have heq : call = .define scope name symbol := by
            cases call <;> simp_all [Call.defines?]
          simp [heq]
      | some bound =>
          rw [hbound] at h
          cases hcall : call.rebinds? scope name with
          | none =>
              have hkept : binding? scope name before = some symbol := by
                simpa [hcall, hbound] using h
              exact (ih hkept).imp (List.mem_append_left _) (List.mem_append_left _)
          | some new =>
              have heq : call = .rebind scope name symbol := by
                cases call <;> simp_all [Call.rebinds?]
              simp [heq]

/-- If no two calls bind the same symbol, it never stands for two names. -/
theorem apart_of_nodup (h : (calls.filterMap Call.symbol?).Nodup) : Apart calls := by
  intro before hbefore scope name other symbol hname hother
  -- The two bindings come from one call.
  have hsame : ∀ call ∈ calls, ∀ call' ∈ calls,
      call.symbol? = some symbol → call'.symbol? = some symbol → call = call' := by
    let Same (call call' : Call) : Prop :=
      call.symbol? = some symbol → call'.symbol? = some symbol → call = call'
    have : Std.Symm Same := ⟨fun call call' hsame h' h => (hsame h h').symm⟩
    have hpairs : calls.Pairwise Same :=
      (List.pairwise_filterMap.1 h).imp fun hne hs hs' => absurd rfl (hne _ hs _ hs')
    intro call hcall call' hcall'
    exact hpairs.forall_of_forall (fun _ _ _ _ => rfl) hcall hcall'
  have hin := hbefore.subset
  rcases mem_of_binding? hname with h₁ | h₁ <;> rcases mem_of_binding? hother with h₂ | h₂ <;>
    simpa using hsame _ (hin h₁) _ (hin h₂) rfl rfl

/-! ## Nested environments -/

/-- **A tree of scopes is a tree of nested environments.**  Chains go down to the root, the nearest
scope that binds a name answers for it, with the symbol that the calls bound the name to, a call
that fails changes nothing, and a scope lists each of its bindings once, in the order in which the
names were defined. -/
theorem Legal.environments (h : Legal calls) :
    (∀ scope < opened calls,
      ((behind calls).chain scope).head? = some scope ∧
      ((behind calls).chain scope).IsChain (fun inner outer => openedIn? calls inner = some outer) ∧
      ((behind calls).chain scope).Pairwise (· > ·) ∧
      ((behind calls).chain scope).getLast? = some root ∧ (behind calls).parent? root = none ∧
      ∀ name symbol, (behind calls).lookup? scope name = some symbol ↔
        ∃ inner nearest outer, (behind calls).chain scope = inner ++ nearest :: outer ∧
          binding? nearest name calls = some symbol ∧
          ∀ s ∈ inner, binding? s name calls = none) ∧
    (∀ scope name symbol,
      (behind calls).lookupLocal? scope name = binding? scope name calls ∧
      (∀ existing, binding? scope name calls = some existing →
        (behind calls).define scope name symbol = .error (.alreadyDefined name existing) ∧
        behind (calls ++ [.define scope name symbol]) = behind calls ∧
        (behind calls).rebind? scope name symbol =
          some (existing, behind (calls ++ [.rebind scope name symbol]))) ∧
      (binding? scope name calls = none →
        (behind calls).define scope name symbol =
          .ok (behind (calls ++ [.define scope name symbol])) ∧
        (behind calls).rebind? scope name symbol = none ∧
        behind (calls ++ [.rebind scope name symbol]) = behind calls)) ∧
    (Apart calls → ∀ scope,
      (behind calls).symbols scope =
        (namesIn scope calls).filterMap (fun name => binding? scope name calls) ∧
      ((behind calls).symbols scope).Nodup ∧
      ∀ symbol, symbol ∈ (behind calls).symbols scope ↔
        ∃ name, binding? scope name calls = some symbol) := by
  have hmirrors := h.mirrors
  refine ⟨fun scope hscope => ?_, fun scope name symbol => ?_, fun hapart scope => ?_⟩
  · have hsize : scope < (behind calls).size := hmirrors.size.symm ▸ hscope
    have houter : ∀ id < (behind calls).size, id ≠ root → ((behind calls).parent? id).isSome := by
      intro id hid hne
      rw [hmirrors.parent]
      exact isSome_openedIn? (hmirrors.size ▸ hid) hne
    obtain ⟨hhead, hlinks, hlast⟩ := chain_links h.descends houter hsize
    refine ⟨hhead, ?_, chain_descends h.descends hlinks, hlast, h.descends.parent?_root, ?_⟩
    · simpa only [hmirrors.parent] using hlinks
    · intro name symbol
      rw [lookup?, List.findSome?_eq_some_iff]
      simp only [hmirrors.bound]
  · have hlocal := hmirrors.bound scope name
    refine ⟨hlocal, fun existing hbound => ?_, fun hfree => ?_⟩
    · rw [hbound] at hlocal
      refine ⟨by simp [define, hlocal], ?_, ?_⟩
      · rw [behind_append, run_define_of_some hlocal]
      · rw [behind_append, run_rebind_of_some hlocal, rebind?_eq hlocal]
    · rw [hfree] at hlocal
      refine ⟨?_, by simp [rebind?, hlocal], ?_⟩
      · rw [behind_append, run_define_of_none hlocal]
        simp [define, hlocal]
      · rw [behind_append, run_rebind_of_none hlocal]
  · rw [h.symbols_eq hapart]
    exact ⟨rfl, nodup_bindings hapart scope, fun symbol => mem_bindings⟩

/-- A class with an `init` that is exchanged and a method; the names `size` and `init` are then
asked for once more. -/
def memberCalls : List Call :=
  [.define 0 "Box" 1, .push 0 (.classBody 1), .define 1 "init" 2, .define 1 "size" 3,
    .rebind 1 "init" 9, .push 1 (.function 9), .define 2 "size" 4, .define 1 "size" 7,
    .rebind 2 "init" 5]

/-- The calls for the members of a class are legal. -/
theorem legal_memberCalls : Legal memberCalls :=
  .append (.append (.append (.append (.append (.append (.append (.append (.append .nil
    (by decide)) (by decide)) (by decide)) (by decide)) (by decide)) (by decide)) (by decide))
    (by decide)) (by decide)

/-- The inner `size` hides the outer one, and the exchanged `init` keeps its place. -/
theorem Legal.environments_members :
    Legal memberCalls ∧ Apart memberCalls ∧
      (behind memberCalls).lookup? 2 "size" = some 4 ∧
      (behind memberCalls).lookup? 2 "init" = some 9 ∧
      behind (memberCalls ++ [.define 1 "size" 8]) = behind memberCalls ∧
      (behind memberCalls).symbols 1 = [9, 3] := by
  have hapart : Apart memberCalls := apart_of_nodup (by decide)
  obtain ⟨hchain, hlocal, hsymbols⟩ := Legal.environments legal_memberCalls
  obtain ⟨-, -, -, -, -, hlookup⟩ := hchain 2 (by decide)
  refine ⟨legal_memberCalls, hapart, (hlookup "size" 4).2 ?_, (hlookup "init" 9).2 ?_,
    ((hlocal 1 "size" 8).2.1 3 (by decide +kernel)).2.1, (hsymbols hapart 1).1.trans ?_⟩
  · exact ⟨[], 2, [1, 0], by decide +kernel, by decide +kernel, by simp⟩
  · exact ⟨[2], 1, [0], by decide +kernel, by decide +kernel, by decide +kernel⟩
  · decide +kernel

end ScopeTree

end ClassLang
