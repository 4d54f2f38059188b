import Mathlib
import Febc.SymbolTable

/-!
# Resolving names in a symbol table

A symbol table is built by two calls: adding a scope under an earlier scope (or as a root), and
binding a name in a scope that exists. Seen from these calls, scope `i` is the `i`-th scope added,
with the kind and parent it was added with, and the symbol a scope binds to a name is the one most
recently bound there.

Because every parent is an earlier scope, the walk from a scope to its root only goes down in
number: `ancestors` never needs its guard and is exactly the chain of parents, ending at a scope
without one. Resolving a name, finding the enclosing class and finding the enclosing function are
walks along that chain.

`TableCall` is a call, `SymbolTable.call` makes one and `SymbolTable.build` a sequence of them;
`SymbolTable.Built` is what a table built by calls keeps, carried by `Built.call`.

Main statements:
* `ancestors_of_earlier`: where every parent is earlier, the walk steps from each scope to its
  parent and stops exactly at a root;
* `scope_chains_resolve_innermost`: in a table built by any sequence of calls, the walk from a
  scope starts there, goes to each scope's parent, decreases and ends at a root; a name resolves
  to the symbol most recently bound in the first scope along the walk that binds it; and the
  enclosing class and function are the first class and function scopes along the walk.
-/

namespace Febc

/-- A call that builds a symbol table. -/
inductive TableCall where
  /-- Add a scope with a kind, under a parent or as a root. -/
  | addScope (kind : ScopeKind) (parent : Option Nat)
  /-- Bind a name in a scope. -/
  | define (scope : Nat) (name : String) (symbol : Symbol)

namespace TableCall

/-- The scope a call adds, with its kind and parent. -/
def added? : TableCall → Option (ScopeKind × Option Nat)
  | addScope kind parent => some (kind, parent)
  | define .. => none

/-- The scopes a sequence of calls adds, in order: scope `i` is the `i`-th. -/
def scopes (calls : List TableCall) : List (ScopeKind × Option Nat) := calls.filterMap added?

/-- The symbol a call binds to a name in a scope. -/
def bound? (scope : Nat) (name : String) : TableCall → Option Symbol
  | define s n symbol => if s = scope ∧ n = name then some symbol else none
  | addScope .. => none

/-- The symbol most recently bound to a name in a scope. -/
def lastBound (calls : List TableCall) (scope : Nat) (name : String) : Option Symbol :=
  (calls.filterMap (bound? scope name)).getLast?

/-- The parent the calls gave a scope. -/
def parentOf (calls : List TableCall) (s : Nat) : Option Nat := ((scopes calls)[s]?).bind (·.2)

/-- The class a scope is the body of, if the calls added it as one. -/
def classOf (calls : List TableCall) (s : Nat) : Option BinaryName :=
  match (scopes calls)[s]? with
  | some (.type name, _) => some name
  | _ => none

/-- Did the calls add the scope as a function's? -/
def isFunction (calls : List TableCall) (s : Nat) : Bool :=
  match (scopes calls)[s]? with
  | some (.function .., _) => true
  | _ => false

@[simp] theorem scopes_append (calls more : List TableCall) :
    scopes (calls ++ more) = scopes calls ++ scopes more :=
  List.filterMap_append

theorem lastBound_append_define (calls : List TableCall) (s : Nat) (name : String) (symbol : Symbol)
    (scope : Nat) (n : String) :
    lastBound (calls ++ [define s name symbol]) scope n =
      if s = scope ∧ name = n then some symbol else lastBound calls scope n := by
  by_cases same : s = scope ∧ name = n
  · simp [lastBound, bound?, same]
  · simp only [lastBound, List.filterMap_append, List.filterMap_cons, bound?, same, if_false,
      List.filterMap_nil, List.append_nil]

theorem lastBound_append_addScope (calls : List TableCall) (kind : ScopeKind) (parent : Option Nat)
    (scope : Nat) (n : String) :
    lastBound (calls ++ [addScope kind parent]) scope n = lastBound calls scope n := by
  simp [lastBound, bound?]

end TableCall

namespace SymbolTable

/-- Make a call the way a resolver makes it: a scope under an earlier scope or as a root, a
binding in a scope that exists; `none` for any other call. -/
def call (t : SymbolTable) : TableCall → Option SymbolTable
  | .addScope kind parent => (t.addScope? kind parent).map (·.1)
  | .define scope name symbol => if scope < t.size then some (t.define scope name symbol).1 else none

/-- Make calls one after another; `none` as soon as one is not allowed. -/
def build (t : SymbolTable) : List TableCall → Option SymbolTable
  | [] => some t
  | c :: rest => (t.call c).bind (·.build rest)

/-! ## The walk to the root -/

/-- Every scope's parent is an earlier scope. -/
def ParentsEarlier (t : SymbolTable) : Prop := ∀ s p, t.parent s = some p → p < s

theorem ancestors_eq_cons (t : SymbolTable) (s : Nat) : ∃ rest, t.ancestors s = s :: rest := by
  rw [ancestors]
  exact ⟨_, rfl⟩

theorem ancestors_of_root {t : SymbolTable} {s : Nat} (root : t.parent s = none) : t.ancestors s = [s] := by
  rw [ancestors]
  simp only [root]

theorem ancestors_of_parent {t : SymbolTable} (earlier : t.ParentsEarlier) {s p : Nat}
    (up : t.parent s = some p) : t.ancestors s = s :: t.ancestors p := by
  rw [ancestors]
  simp only [up, if_pos (earlier s p up)]

/-- Where every parent is earlier, the walk from a scope steps from each scope to its parent,
stops at a scope without one, and decreases. -/
theorem ancestors_of_earlier {t : SymbolTable} (earlier : t.ParentsEarlier) (s : Nat) :
    (t.ancestors s).IsChain (fun a b => t.parent a = some b) ∧
      (∀ root, (t.ancestors s).getLast? = some root → t.parent root = none) ∧
      (t.ancestors s).Pairwise (· > ·) := by
  induction s using Nat.strong_induction_on with
  | _ s ih =>
    cases up : t.parent s with
    | none => simp [ancestors_of_root up, up]
    | some p =>
      -- the walk goes on from the parent, which is below `s`, and so is all of its own walk
      have lower := earlier s p up
      obtain ⟨chain, ends, decreasing⟩ := ih p lower
      obtain ⟨rest, walk⟩ := ancestors_eq_cons t p
      rw [walk] at chain ends decreasing
      have below : ∀ a ∈ p :: rest, a < s := by
        intro a mem
        rcases List.mem_cons.mp mem with rfl | later
        · exact lower
        · exact Nat.lt_trans ((List.pairwise_cons.mp decreasing).1 a later) lower
      rw [ancestors_of_parent earlier up, walk]
      exact ⟨List.IsChain.cons_cons up chain, fun root last => ends root (by simpa using last),
        List.pairwise_cons.mpr ⟨below, decreasing⟩⟩

/-! ## What the calls build -/

/-- What a table built by the calls `calls` keeps: its scopes are those the calls added, with
their kinds and parents; a scope binds a name to the symbol most recently bound there; and every
parent is earlier. -/
structure Built (calls : List TableCall) (t : SymbolTable) : Prop where
  scopes : t.scopes.toList.map (fun sc => (sc.kind, sc.parent)) = TableCall.scopes calls
  lookup : ∀ s name, t.lookup s name = TableCall.lastBound calls s name
  earlier : t.ParentsEarlier

theorem built_empty : Built [] {} where
  scopes := rfl
  lookup _ _ := rfl
  earlier _ _ up := nomatch up

section Steps

variable {calls : List TableCall} {t : SymbolTable}

theorem Built.scope?_eq (built : Built calls t) (s : Nat) :
    (t.scope? s).map (fun sc => (sc.kind, sc.parent)) = (TableCall.scopes calls)[s]? := by
  rw [← built.scopes, List.getElem?_map, scope?, Array.getElem?_toList]

theorem Built.parent_eq (built : Built calls t) (s : Nat) : t.parent s = TableCall.parentOf calls s := by
  rw [TableCall.parentOf, ← built.scope?_eq s, parent]
  cases t.scope? s <;> rfl

theorem Built.kind_eq (built : Built calls t) (s : Nat) :
    t.kind s = (((TableCall.scopes calls)[s]?).map (·.1)).getD .block := by
  rw [← built.scope?_eq s, kind, Option.map_map]
  rfl

theorem Built.addScope (built : Built calls t) {kind : ScopeKind} {parent : Option Nat}
    {t' : SymbolTable} {id : Nat} (added : t.addScope? kind parent = some (t', id)) :
    Built (calls ++ [.addScope kind parent]) t' := by
  have pushed : t' = ⟨t.scopes.push ⟨kind, parent, []⟩⟩ ∧ ∀ p, parent = some p → p < t.size := by
    unfold addScope? at added
    cases parent with
    | none => simp only [Option.some.injEq, Prod.mk.injEq] at added; exact ⟨added.1.symm, nofun⟩
    | some p =>
      by_cases fits : p < t.size
      · simp only [fits, if_true, Option.some.injEq, Prod.mk.injEq] at added
        exact ⟨added.1.symm, fun q same => Option.some.inj same ▸ fits⟩
      · simp [fits] at added
  obtain ⟨rfl, under⟩ := pushed
  have old : ∀ s, s < t.size → (⟨t.scopes.push ⟨kind, parent, []⟩⟩ : SymbolTable).scope? s = t.scope? s := by
    intro s lt
    simp only [scope?, Array.getElem?_push, size] at lt ⊢
    rw [if_neg (Nat.ne_of_lt lt)]
  have new : (⟨t.scopes.push ⟨kind, parent, []⟩⟩ : SymbolTable).scope? t.size = some ⟨kind, parent, []⟩ := by
    simp [scope?, size]
  have beyond : ∀ s, t.size < s → (⟨t.scopes.push ⟨kind, parent, []⟩⟩ : SymbolTable).scope? s = none := by
    intro s gt
    simp only [scope?, size] at gt ⊢
    exact Array.getElem?_eq_none (by simp; omega)
  refine ⟨?_, fun s name => ?_, fun s p up => ?_⟩
  · rw [TableCall.scopes_append, ← built.scopes]
    simp [TableCall.scopes, TableCall.added?]
  · rw [TableCall.lastBound_append_addScope, ← built.lookup]
    rcases Nat.lt_trichotomy s t.size with lt | rfl | gt
    · rw [SymbolTable.lookup, SymbolTable.lookup, old s lt]
    · have outside : t.scope? t.size = none := Array.getElem?_eq_none (Nat.le_refl _)
      simp [SymbolTable.lookup, new, outside, Scope.lookup]
    · have outside : t.scope? s = none := Array.getElem?_eq_none (Nat.le_of_lt gt)
      simp [SymbolTable.lookup, beyond s gt, outside]
  · rcases Nat.lt_trichotomy s t.size with lt | rfl | gt
    · rw [SymbolTable.parent, old s lt] at up
      exact built.earlier s p up
    · simp only [SymbolTable.parent, new, Option.bind_some] at up
      exact under p up
    · simp [SymbolTable.parent, beyond s gt] at up

theorem Built.define (built : Built calls t) {scope : Nat} (known : scope < t.size) (name : String)
    (symbol : Symbol) : Built (calls ++ [.define scope name symbol]) (t.define scope name symbol).1 := by
  have kept : ∀ s, ((t.define scope name symbol).1.scope? s).map (fun sc => (sc.kind, sc.parent)) =
      (t.scope? s).map (fun sc => (sc.kind, sc.parent)) := by
    intro s
    by_cases same : s = scope
    · subst same
      simp [SymbolTable.define, scope?, Array.getElem?_modify, Function.comp_def]
    · simp [SymbolTable.define, scope?, Array.getElem?_modify, Ne.symm same]
  have none_added : TableCall.scopes [.define scope name symbol] = [] := rfl
  refine ⟨?_, fun s n => ?_, fun s p up => ?_⟩
  · rw [TableCall.scopes_append, none_added, List.append_nil, ← built.scopes]
    apply List.ext_getElem?
    intro s
    simpa [scope?] using kept s
  · rw [TableCall.lastBound_append_define, ← built.lookup]
    by_cases same : scope = s ∧ name = n
    · obtain ⟨rfl, rfl⟩ := same
      simp [lookup_define_self t scope name symbol known]
    · rw [if_neg same]
      by_cases here : scope = s
      · subst here
        have other : name ≠ n := fun eq => same ⟨rfl, eq⟩
        simp only [SymbolTable.define, SymbolTable.lookup, scope?, Array.getElem?_modify, if_true]
        cases t.scopes[scope]? <;> simp [Scope.lookup, other]
      · simp [SymbolTable.define, SymbolTable.lookup, scope?, Array.getElem?_modify, here]
  · have parents : (t.define scope name symbol).1.parent s = t.parent s := by
      have := congrArg (Option.bind · (·.2)) (kept s)
      simpa [SymbolTable.parent, Option.bind_map] using this
    exact built.earlier s p (parents ▸ up)

/-- One call keeps what a built table keeps. -/
theorem Built.call (built : Built calls t) {c : TableCall} {t' : SymbolTable} (made : t.call c = some t') :
    Built (calls ++ [c]) t' := by
  cases c with
  | addScope kind parent =>
    simp only [SymbolTable.call, Option.map_eq_some_iff] at made
    obtain ⟨⟨t'', id⟩, added, rfl⟩ := made
    exact built.addScope added
  | define scope name symbol =>
    by_cases known : scope < t.size
    · simp only [SymbolTable.call, known, if_true, Option.some.injEq] at made
      exact made ▸ built.define known name symbol
    · simp [SymbolTable.call, known] at made

/-- A sequence of calls keeps what a built table keeps. -/
theorem Built.build (built : Built calls t) {more : List TableCall} {t' : SymbolTable}
    (made : t.build more = some t') : Built (calls ++ more) t' := by
  induction more generalizing calls t with
  | nil => simpa [SymbolTable.build] using (Option.some.inj made) ▸ built
  | cons c rest ih =>
    simp only [SymbolTable.build, Option.bind_eq_some_iff] at made
    obtain ⟨t'', first, rest⟩ := made
    simpa using ih (built.call first) rest

end Steps

/-- Name resolution in a table built by any sequence of calls: the walk from a scope starts
there, goes from each scope to the parent it was added under, decreases, and ends at a scope
added as a root; a name resolves to the symbol most recently bound to it in the first scope along
the walk that binds it, and to nothing if none does; the enclosing class and the enclosing
function are the first class scope and the first function scope along the walk. -/
theorem scope_chains_resolve_innermost {calls : List TableCall} {t : SymbolTable}
    (built : ({} : SymbolTable).build calls = some t) (s : Nat) :
    (t.ancestors s).head? = some s ∧
    (t.ancestors s).IsChain (fun a b => TableCall.parentOf calls a = some b) ∧
    (t.ancestors s).Pairwise (· > ·) ∧
    (∀ root, (t.ancestors s).getLast? = some root → TableCall.parentOf calls root = none) ∧
    (∀ name, t.resolve s name = (t.ancestors s).findSome? (TableCall.lastBound calls · name)) ∧
    t.enclosingClass s = (t.ancestors s).findSome? (TableCall.classOf calls) ∧
    t.enclosingFunction s = (t.ancestors s).find? (TableCall.isFunction calls) := by
  have inv : Built calls t := by simpa using built_empty.build built
  obtain ⟨chain, ends, decreasing⟩ := ancestors_of_earlier inv.earlier s
  have parents : (fun a b => t.parent a = some b) = (fun a b => TableCall.parentOf calls a = some b) := by
    funext a b
    rw [inv.parent_eq]
  refine ⟨ancestors_head t s, parents ▸ chain, decreasing,
    fun root last => inv.parent_eq root ▸ ends root last, fun name => ?_, ?_, ?_⟩
  · rw [resolve]
    congr 1
    funext a
    exact inv.lookup a name
  · rw [enclosingClass]
    congr 1
    funext a
    rw [inv.kind_eq, TableCall.classOf]
    cases (TableCall.scopes calls)[a]? with
    | none => rfl
    | some entry => obtain ⟨kind, _⟩ := entry; cases kind <;> rfl
  · rw [enclosingFunction]
    congr 1
    funext a
    rw [inv.kind_eq, TableCall.isFunction]
    cases (TableCall.scopes calls)[a]? with
    | none => rfl
    | some entry => obtain ⟨kind, _⟩ := entry; cases kind <;> rfl

/-- The nesting of the table's own check: a unit, a class in it, a function in the class and a
block in the function, with `x` bound both as a field of the class and as a local of the
function, seen from the block. -/
theorem scope_chains_resolve_through_nested_scopes :
    let calls : List TableCall := [.addScope .unit none, .addScope (.type .object) (some 0),
      .addScope (.function false 2) (some 1), .addScope .block (some 2),
      .define 1 "x" (.var (.field .object false)), .define 2 "x" (.var (.slot 1))]
    let t : SymbolTable := ⟨#[⟨.unit, none, []⟩, ⟨.type .object, some 0, [("x", .var (.field .object false))]⟩,
      ⟨.function false 2, some 1, [("x", .var (.slot 1))]⟩, ⟨.block, some 2, []⟩]⟩
    ({} : SymbolTable).build calls = some t ∧
    (t.ancestors 3).head? = some 3 ∧
    (t.ancestors 3).IsChain (fun a b => TableCall.parentOf calls a = some b) ∧
    (t.ancestors 3).Pairwise (· > ·) ∧
    (∀ root, (t.ancestors 3).getLast? = some root → TableCall.parentOf calls root = none) ∧
    (∀ name, t.resolve 3 name = (t.ancestors 3).findSome? (TableCall.lastBound calls · name)) ∧
    t.enclosingClass 3 = (t.ancestors 3).findSome? (TableCall.classOf calls) ∧
    t.enclosingFunction 3 = (t.ancestors 3).find? (TableCall.isFunction calls) :=
  ⟨rfl, scope_chains_resolve_innermost rfl 3⟩

end SymbolTable

end Febc
