import Febc.Proofs.SlotWalks

/-!
# Private slots

Lowering takes local slots of its own above those the resolver assigned: an iterator for a `for`
loop, the lock and the caught exception of a synchronized block, the exception a `finally`
handler throws again, and for a resource block two exception slots shared by its resources and
one slot per resource. They are taken last in, first out.

`Stmt.privateSlots` is the most slots a statement holds at once. `Takes symbols R need m` says
that the step `m` holds at most `need` slots at once: from any first free slot `n`, it gives back
every slot it takes, raises the highest mark to `n + need`, goes through only if those slots are
addressable, and stores only into locals of `R` (those the resolver named) and into its own
slots `[n, n + need)`. Every statement takes `privateSlots` slots (`takes_lowerStmt`).

Main statement: `takes_lowerStmt`, the slots a statement takes, by induction over statements.
Each construct is one lemma over the steps it is made of (`takes_forEach`, `takes_lowerWith`,
`takes_lowerSynchronized`, `takes_lowerTry`, `takes_lowerTry_finally`); the induction only
assembles them.
-/

namespace Febc

/-! ## The private slots a statement holds -/

mutual

/-- The most private slots lowering a statement holds at once: a loop's iterator, the exception a
`finally` handler throws again, the lock and the exception of a synchronized block, and the two
exceptions and one slot per resource of a resource block, each below what the blocks within it
hold while it is held. -/
def Stmt.privateSlots : Stmt → Nat
  | .block b => b.privateSlots
  | .ifChain clauses none => privateSlotsOfClauses clauses
  | .ifChain clauses (some b) => max (privateSlotsOfClauses clauses) b.privateSlots
  | .whileLoop _ _ body => body.privateSlots
  | .forEach _ _ _ body => body.privateSlots + 1
  | .guarded body catches none => max body.privateSlots (privateSlotsOfCatches catches)
  | .guarded body catches (some fin) =>
    max (max body.privateSlots (privateSlotsOfCatches catches)) (fin.privateSlots + 1)
  | .synchronized _ body => max (body.privateSlots + 1) 2
  | .withResources resources body => body.privateSlots + resources.length + 2
  | _ => 0

/-- The most private slots a block's statements hold at once. -/
def Block.privateSlots : Block → Nat
  | .mk stmts _ => privateSlotsOfStmts stmts

/-- The most private slots one of the statements holds at once. -/
def privateSlotsOfStmts : List Stmt → Nat
  | [] => 0
  | st :: rest => max st.privateSlots (privateSlotsOfStmts rest)

/-- The most private slots one of the clauses' blocks holds at once. -/
def privateSlotsOfClauses : List (Expr × Block) → Nat
  | [] => 0
  | (_, body) :: rest => max body.privateSlots (privateSlotsOfClauses rest)

/-- The most private slots one of the catch clauses' blocks holds at once. -/
def privateSlotsOfCatches : List Catch → Nat
  | [] => 0
  | .mk _ _ body :: rest => max body.privateSlots (privateSlotsOfCatches rest)

end

mutual

/-- The scopes the blocks within a statement open. -/
def Stmt.scopes : Stmt → List Nat
  | .block b => b.scopes
  | .ifChain clauses none => scopesOfClauses clauses
  | .ifChain clauses (some b) => scopesOfClauses clauses ++ b.scopes
  | .whileLoop _ _ body | .forEach _ _ _ body | .synchronized _ body | .withResources _ body => body.scopes
  | .guarded body catches none => body.scopes ++ scopesOfCatches catches
  | .guarded body catches (some fin) => body.scopes ++ scopesOfCatches catches ++ fin.scopes
  | _ => []

/-- The scope a block opens, if any, and those the blocks within it open. -/
def Block.scopes : Block → List Nat
  | .mk stmts scope => scope.toList ++ scopesOfStmts stmts

/-- The scopes the blocks within some statements open. -/
def scopesOfStmts : List Stmt → List Nat
  | [] => []
  | st :: rest => st.scopes ++ scopesOfStmts rest

/-- The scopes the clauses' blocks open. -/
def scopesOfClauses : List (Expr × Block) → List Nat
  | [] => []
  | (_, body) :: rest => body.scopes ++ scopesOfClauses rest

/-- The scopes the catch clauses' blocks open. -/
def scopesOfCatches : List Catch → List Nat
  | [] => []
  | .mk _ _ body :: rest => body.scopes ++ scopesOfCatches rest

end

example : (Stmt.forEach none ⟨"x", default⟩ (.literal .null default)
    (.mk [.synchronized (.literal .null default) (.mk [] (some 3))] none)).privateSlots = 3 := by decide

/-! ## Slots taken above a starting point -/

theorem SymbolTable.LocalsIn.mono {t : SymbolTable} {R R' : Nat → Prop} {scope : Nat} (named : t.LocalsIn R scope)
    (wider : ∀ j, R j → R' j) : t.LocalsIn R' scope :=
  fun name i found => wider i (named name i found)

/-- The scope a block declares its names in, its own or else the enclosing one. -/
theorem SymbolTable.localsIn_getD {t : SymbolTable} {R : Nat → Prop} {scope : Option Nat} {fallback : Nat}
    (declared : ∀ sc, scope = some sc → t.LocalsIn R sc) (named : t.LocalsIn R fallback) :
    t.LocalsIn R (scope.getD fallback) := by
  cases scope with
  | none => exact named
  | some sc => exact declared sc rfl

namespace LocalsLayout

/-- `l'` is `l` with `taken` more private slots taken, and with its highest mark raised to `width`
slots above `l`'s next one, all of them addressable. -/
def Raised (l l' : LocalsLayout) (taken width : Nat) : Prop :=
  l'.next = l.next + taken ∧ l'.high = max l.high (l.next + width) ∧ taken ≤ width ∧
    (width = 0 ∨ l.next + width ≤ 256)

namespace Raised

variable {l l₁ l₂ : LocalsLayout} {d w : Nat}

theorem refl (marked : l.next ≤ l.high) : Raised l l 0 0 :=
  ⟨rfl, by omega, Nat.le_refl 0, .inl rfl⟩

theorem congr {d' w' : Nat} (raised : Raised l l₁ d w) (taken : d = d') (width : w = w') : Raised l l₁ d' w' :=
  taken ▸ width ▸ raised

theorem taken_le (raised : Raised l l₁ d w) : d ≤ w := raised.2.2.1

theorem marked (raised : Raised l l₁ d w) : l₁.next ≤ l₁.high := by
  obtain ⟨next, high, le, -⟩ := raised
  calc l₁.next = l.next + d := next
    _ ≤ l.next + w := Nat.add_le_add_left le _
    _ ≤ max l.high (l.next + w) := le_max_right _ _
    _ = l₁.high := high.symm

/-- Taking the next slot, which must be addressable. -/
theorem take (raised : Raised l l₁ d w) (room : l₁.next ≤ 255) (next : l₂.next = l₁.next + 1)
    (high : l₂.high = max l₁.high (l₁.next + 1)) : Raised l l₂ (d + 1) (max w (d + 1)) := by
  obtain ⟨next₁, high₁, le, fits⟩ := raised
  refine ⟨by omega, by rw [high, high₁, next₁]; omega, by omega, .inr (by omega)⟩

/-- Giving the last slot back. -/
theorem release (raised : Raised l l₁ (d + 1) w) (next : l₂.next = l₁.next - 1) (high : l₂.high = l₁.high) :
    Raised l l₂ d w := by
  obtain ⟨next₁, high₁, le, fits⟩ := raised
  exact ⟨by omega, by rw [high, high₁], by omega, fits⟩

/-- A step that holds `n` slots above those taken. -/
theorem run {n : Nat} (raised : Raised l l₁ d w) (next : l₂.next = l₁.next)
    (high : l₂.high = max l₁.high (l₁.next + n)) (fits : n = 0 ∨ l₁.next + n ≤ 256) :
    Raised l l₂ d (max w (d + n)) := by
  obtain ⟨next₁, high₁, le, fits₁⟩ := raised
  refine ⟨by omega, by rw [high, high₁, next₁]; omega, by omega, ?_⟩
  rcases fits with rfl | fits
  · rcases fits₁ with rfl | fits₁ <;> [exact .inl (by omega); exact .inr (by omega)]
  · exact .inr (by omega)

/-- A step that holds `n` slots above those taken stores within a window of `need` slots that
covers them. -/
theorem window {R : Nat → Prop} {n need j : Nat} (raised : Raised l l₁ d w) (le : d + n ≤ need) :
    R j ∨ l₁.next ≤ j ∧ j < l₁.next + n → R j ∨ l.next ≤ j ∧ j < l.next + need :=
  Or.imp_right fun ⟨lo, hi⟩ => ⟨by have := raised.1; omega, by have := raised.1; omega⟩

/-- The next free slot lies in a window of `need` slots that covers it. -/
theorem own {R : Nat → Prop} {need : Nat} (raised : Raised l l₁ d w) (lt : d < need) :
    R l₁.next ∨ l.next ≤ l₁.next ∧ l₁.next < l.next + need :=
  .inr ⟨by have := raised.1; omega, by have := raised.1; omega⟩

/-- With every slot given back, the mark is raised by the width. -/
theorem close {need : Nat} (raised : Raised l l₁ 0 w) (same : w = need) :
    l₁.next = l.next ∧ l₁.high = max l.high (l.next + need) ∧ (need = 0 ∨ l.next + need ≤ 256) := by
  obtain ⟨next, high, -, fits⟩ := raised
  subst same
  exact ⟨next, high, fits⟩

end Raised

end LocalsLayout

namespace Lowering

/-! ## Steps that hold private slots -/

/-- Lowering `m` holds at most `need` private slots at once, in every environment over `symbols`
whose innermost scope names its locals in `R`: from any private slots `l` whose highest mark covers
the next slot, it gives back every slot it takes, raises the highest mark to `need` above the next
slot, goes through only if those slots are addressable, and stores only into slots of `R` and the
`need` slots from the next one on. -/
def Takes {α : Type} (symbols : SymbolTable) (R : Nat → Prop) (need : Nat) (m : LowerM α) : Prop :=
  ∀ env : FunctionEnv, env.symbols = symbols → symbols.LocalsIn R env.scope → ∀ l : LocalsLayout,
    l.next ≤ l.high → Walks env l m (fun k => R k ∨ l.next ≤ k ∧ k < l.next + need) fun _ l' =>
      l'.next = l.next ∧ l'.high = max l.high (l.next + need) ∧ (need = 0 ∨ l.next + need ≤ 256)

section Takes

variable {α β : Type} {symbols : SymbolTable} {R : Nat → Prop}

/-- The slots of `R` and a window of private slots lie among those of `R` and a wider window. -/
theorem window_mono {n n' w w' j : Nat} (low : n' ≤ n) (high : n + w ≤ n' + w') :
    R j ∨ n ≤ j ∧ j < n + w → R j ∨ n' ≤ j ∧ j < n' + w' :=
  Or.imp_right fun ⟨lo, hi⟩ => ⟨by omega, by omega⟩

theorem Steady.takes {m : LowerM α} {Q : α → Prop} (steady : Steady R m Q) : Takes symbols R 0 m :=
  fun env same named l marked => (steady env (same ▸ named) l).mono
    (fun _ _ ⟨_, kept⟩ => ⟨kept ▸ rfl, by rw [kept]; omega, .inl rfl⟩) fun _ => .inl

theorem takes_pure (a : α) : Takes symbols R 0 (pure a : LowerM α) :=
  (steady_pure (R := R) (Q := fun _ => True) a trivial).takes

/-- One step, then another: together they hold the larger number of slots either holds. -/
theorem Takes.bind {m : LowerM α} {k : α → LowerM β} {n₁ n₂ : Nat} (first : Takes symbols R n₁ m)
    (rest : ∀ a, Takes symbols R n₂ (k a)) : Takes symbols R (max n₁ n₂) (m >>= k) := by
  intro env same named l marked
  apply Walks.bind ((first env same named l marked).mono (fun _ _ facts => facts) fun _ =>
    window_mono (Nat.le_refl _) (by omega))
  rintro a l₁ ⟨next₁, high₁, fits₁⟩
  apply (rest a env same named l₁ (by omega)).mono
  · rintro _ l₂ ⟨next₂, high₂, fits₂⟩
    exact ⟨by omega, by rw [high₂, high₁, next₁]; omega, by omega⟩
  · intro j window
    rw [next₁] at window
    exact window_mono (Nat.le_refl _) (by omega) window

/-- A step that keeps the private slots, then one that holds some. -/
theorem Takes.steady_bind {m : LowerM α} {k : α → LowerM β} {P : α → Prop} {n : Nat} (first : Steady R m P)
    (rest : ∀ a, P a → Takes symbols R n (k a)) : Takes symbols R n (m >>= k) :=
  fun env same named l marked => Walks.steady_bind first (same ▸ named) (fun _ => .inl) fun a holds =>
    rest a holds env same named l marked

theorem takes_ite {c : Prop} [Decidable c] {yes no : LowerM α} {n : Nat} (onYes : Takes symbols R n yes)
    (onNo : Takes symbols R n no) : Takes symbols R n (if c then yes else no) := by
  split
  · exact onYes
  · exact onNo

theorem Takes.mono {m : LowerM α} {n n' : Nat} (takes : Takes symbols R n m) (same : n = n') :
    Takes symbols R n' m :=
  same ▸ takes

theorem takes_withScope {m : LowerM α} {n : Nat} (scope : Option Nat)
    (named : ∀ sc, scope = some sc → symbols.LocalsIn R sc) (takes : Takes symbols R n m) :
    Takes symbols R n (withScope scope m) := by
  cases scope with
  | none => exact takes
  | some sc =>
    exact fun env same _ l marked => walks_withScope (takes { env with scope := sc } same (named sc rfl) l marked)

section Held

variable {env : FunctionEnv} {l₀ l : LocalsLayout} {d w need : Nat} {allowed : Nat → Prop}
  {post : β → LocalsLayout → Prop}

open LocalsLayout (Raised)

/-- Taking the next slot, within a walk that counts the slots taken since `l₀`. -/
theorem Walks.take_bind {k : Nat → LowerM β} (raised : Raised l₀ l d w)
    (rest : ∀ l', Raised l₀ l' (d + 1) (max w (d + 1)) → Walks env l' (k l.next) allowed post) :
    Walks env l (takeSlot >>= k) allowed post :=
  walks_takeSlot.bind fun _ l' ⟨same, room, next, high⟩ => same ▸ rest l' (raised.take room next high)

/-- Giving the last slot back, within a walk that counts the slots taken since `l₀`. -/
theorem Walks.release_bind {k : Unit → LowerM β} (raised : Raised l₀ l (d + 1) w)
    (rest : ∀ l', Raised l₀ l' d w → Walks env l' (k ()) allowed post) :
    Walks env l (releaseSlot >>= k) allowed post :=
  walks_releaseSlot.bind fun _ l' ⟨next, high⟩ => rest l' (raised.release next high)

/-- A step that holds `n` slots, above the `d` taken since `l₀`, within the walk of a step that
holds `need` slots from `l₀`'s next one. -/
theorem Walks.run_bind {m : LowerM α} {k : α → LowerM β} {n : Nat} (first : Takes symbols R n m)
    (same : env.symbols = symbols) (named : symbols.LocalsIn R env.scope) (raised : Raised l₀ l d w)
    (fits : d + n ≤ need)
    (rest : ∀ a l', Raised l₀ l' d (max w (d + n)) →
      Walks env l' (k a) (fun j => R j ∨ l₀.next ≤ j ∧ j < l₀.next + need) post) :
    Walks env l (m >>= k) (fun j => R j ∨ l₀.next ≤ j ∧ j < l₀.next + need) post :=
  ((first env same named l raised.marked).mono (fun _ _ facts => facts) fun _ => raised.window fits).bind
    fun a l' ⟨next, high, fitsₙ⟩ => rest a l' (raised.run next high fitsₙ)

/-- Storing into the slot that was next free at `l`, one of the `need` from `l₀`'s next one. -/
theorem walks_store_taken {l' : LocalsLayout} (raised : Raised l₀ l d w) (lt : d < need) :
    Walks env l' (op .storeA [l.next]) (fun j => R j ∨ l₀.next ≤ j ∧ j < l₀.next + need) fun _ l'' => l'' = l' :=
  walks_op_store (raised.own lt)

/-- Giving back the only slot still taken closes the walk of a step that holds `need` slots. -/
theorem walks_release_close (raised : Raised l₀ l 1 w) (same : w = need) :
    Walks env l releaseSlot allowed fun _ l' =>
      l'.next = l₀.next ∧ l'.high = max l₀.high (l₀.next + need) ∧ (need = 0 ∨ l₀.next + need ≤ 256) :=
  walks_releaseSlot.mono (fun _ _ ⟨next, high⟩ => (raised.release next high).close same) fun _ => id

end Held

/-- A steady step taken on a condition, before the rest of a walk. -/
theorem Walks.steady_ite_bind {env : FunctionEnv} {l : LocalsLayout} {allowed : Nat → Prop} {c : Prop}
    [Decidable c] {first : LowerM Unit} {k : Unit → LowerM α} {P : Unit → Prop} {post : α → LocalsLayout → Prop}
    (steady : Steady R first P) (named : env.symbols.LocalsIn R env.scope) (wider : ∀ j, R j → allowed j)
    (rest : ∀ u, Walks env l (k u) allowed post) : Walks env l (if c then first >>= k else k ()) allowed post :=
  walks_ite (fun _ => Walks.steady_bind steady named wider fun u _ => rest u) fun _ => rest ()

theorem takes_steady_ite_bind {c : Prop} [Decidable c] {first : LowerM Unit} {k : Unit → LowerM α}
    {P : Unit → Prop} {n : Nat} (steady : Steady R first P) (rest : ∀ u, Takes symbols R n (k u)) :
    Takes symbols R n (if c then first >>= k else k ()) :=
  takes_ite (Takes.steady_bind steady fun u _ => rest u) (rest ())

/-- A step that holds private slots, then one that keeps them. -/
theorem Takes.bind_steady {m : LowerM α} {k : α → LowerM β} {Q : β → Prop} {n : Nat} (first : Takes symbols R n m)
    (rest : ∀ a, Steady R (k a) Q) : Takes symbols R n (m >>= k) :=
  (first.bind fun a => (rest a).takes).mono (Nat.max_zero n)

theorem walks_blockScope_bind {env : FunctionEnv} {l : LocalsLayout} {allowed : Nat → Prop} {scope : Option Nat}
    {k : Nat → LowerM α} {post : α → LocalsLayout → Prop} (walks : Walks env l (k (scope.getD env.scope)) allowed post) :
    Walks env l (blockScope scope >>= k) allowed post := by
  unfold blockScope
  simp only [bind_assoc, pure_bind]
  exact walks_read_bind walks

/-- Binding a name of a block: a store into a local of the scope the block declares it in. -/
theorem Walks.declare_bind {env : FunctionEnv} {l : LocalsLayout} {allowed : Nat → Prop} {scope : Option Nat}
    (name : Ident) {k : Unit → LowerM α} {post : α → LocalsLayout → Prop}
    (declared : env.symbols.LocalsIn R (scope.getD env.scope)) (wider : ∀ j, R j → allowed j)
    (rest : ∀ u, Walks env l (k u) allowed post) :
    Walks env l (blockScope scope >>= fun s => storeDeclared s name >>= k) allowed post :=
  walks_blockScope_bind ((walks_storeDeclared name declared wider).bind fun u _ kept => kept ▸ rest u)

theorem Takes.declare_bind {scope : Option Nat} (name : Ident) {k : Unit → LowerM α} {n : Nat}
    (declared : ∀ sc, scope = some sc → symbols.LocalsIn R sc) (rest : ∀ u, Takes symbols R n (k u)) :
    Takes symbols R n (blockScope scope >>= fun s => storeDeclared s name >>= k) :=
  fun env same named l marked => Walks.declare_bind name (same ▸ symbols.localsIn_getD declared named)
    (fun _ => .inl) fun u => rest u env same named l marked

end Takes

/-! ## Steps that hold no private slot -/

section Steady

variable {R : Nat → Prop}

/-- Popping the value on the stack into a local of the innermost scope. -/
theorem steady_storeDeclared_here (name : Ident) :
    Steady R (do storeDeclared (← read).scope name) fun _ => True :=
  fun _ named _ => walks_read_bind ((walks_storeDeclared name named fun _ => id).mono
    (fun _ _ kept => ⟨trivial, kept⟩) fun _ => id)

theorem steady_filterClasses : ∀ filters, Steady R (filterClasses filters) fun _ => True
  | [] => steady_pure _ trivial
  | f :: rest => by
    rw [filterClasses]
    refine (steady_resolve _).bind fun found _ => ?_
    split
    · exact (steady_onPool _).bind fun _ _ => (steady_filterClasses rest).bind fun _ _ => steady_pure _ trivial
    · exact (steady_report _ _ _).bind fun _ _ => steady_filterClasses rest

theorem steady_catchFilters (filters : List Ident) : Steady R (catchFilters filters) fun _ => True := by
  unfold catchFilters
  split
  · exact steady_pure _ trivial
  · exact steady_filterClasses _

theorem steady_patchBreaks (target : Nat) : ∀ records, Steady R (patchBreaks target records) fun _ => True
  | [] => steady_pure () trivial
  | _ :: rest => (steady_patchJump _ _).bind fun _ _ => steady_patchBreaks target rest

theorem steady_resolveBreaks : Steady R resolveBreaks fun _ => True :=
  steady_offset.bind fun _ _ => steady_leaveLoop.bind fun _ _ => steady_patchBreaks _ _

theorem steady_lowerDecls : ∀ decls, Steady R (lowerDecls decls) fun _ => True
  | [] => steady_pure () trivial
  | (name, init) :: rest => by
    have stores : Steady R (do storeDeclared (← read).scope name; lowerDecls rest) fun _ => True :=
      (steady_storeDeclared_here name).bind fun _ _ => steady_lowerDecls rest
    cases init with
    | some e =>
      rw [lowerDecls]
      exact (steady_lowerExpr e).bind fun _ _ => stores
    | none =>
      rw [lowerDecls]
      exact (steady_op (o := .pushNull) _ (by decide)).bind fun _ _ => stores

theorem steady_reportMissingLoop (isBreak : Bool) (label : Option Ident) (pos : Position) :
    Steady R (reportMissingLoop isBreak label pos) fun _ => True := by
  unfold reportMissingLoop
  cases label with
  | none => exact steady_report _ _ _
  | some l => exact steady_inLoop.bind fun _ _ => steady_ite (steady_report _ _ _) (steady_report _ _ _)

theorem steady_lowerBreak (label : Option Ident) (pos : Position) : Steady R (lowerBreak label pos) fun _ => True := by
  unfold lowerBreak
  refine (steady_findLoop label).bind fun found _ => ?_
  split
  · exact (steady_pushJumpPlaceholder _).bind fun _ _ => steady_recordBreak _ _
  · exact steady_reportMissingLoop _ _ _

theorem steady_lowerContinue (label : Option Ident) (pos : Position) :
    Steady R (lowerContinue label pos) fun _ => True := by
  unfold lowerContinue
  refine (steady_findLoop label).bind fun found _ => ?_
  split
  · exact steady_jump _ _
  · exact steady_reportMissingLoop _ _ _

theorem steady_lowerReturn (value : Option Expr) (pos : Position) : Steady R (lowerReturn value pos) fun _ => True := by
  unfold lowerReturn
  refine steady_read_bind fun _ => ?_
  split
  · have returns : Steady R (op .ret []) fun _ => True := steady_op _ (by decide)
    cases value with
    | some v =>
      dsimp only
      exact (steady_report _ _ _).bind fun _ _ => (steady_lowerExpr v).bind fun _ _ =>
        (steady_op (o := .pop) _ (by decide)).bind fun _ _ => returns
    | none => exact returns
  · have returns : Steady R (op .retA []) fun _ => True := steady_op _ (by decide)
    cases value with
    | some v => exact (steady_lowerExpr v).bind fun _ _ => returns
    | none => exact (steady_op (o := .pushNull) _ (by decide)).bind fun _ _ => returns

end Steady

/-! ## Constructs that hold private slots -/

section Constructs

variable {symbols : SymbolTable} {R : Nat → Prop}

/-- A synchronized block keeps its lock in the next slot and, in its handler, the exception in the
one after: the block itself runs above the lock. -/
theorem takes_lowerSynchronized {lock body : LowerM Unit} {n : Nat} (locks : Steady R lock fun _ => True)
    (runs : Takes symbols R n body) : Takes symbols R (max (n + 1) 2) (lowerSynchronized lock body) := by
  intro env same named l marked
  have named' : env.symbols.LocalsIn R env.scope := same ▸ named
  have resolved : ∀ j, R j → R j ∨ l.next ≤ j ∧ j < l.next + max (n + 1) 2 := fun _ => .inl
  have raised₀ := LocalsLayout.Raised.refl marked
  unfold lowerSynchronized
  refine Walks.steady_bind steady_freshLabel named' resolved fun exit _ => ?_
  refine Walks.steady_bind locks named' resolved fun _ _ => ?_
  refine Walks.steady_bind (steady_op _ (by decide)) named' resolved fun _ _ => ?_
  refine Walks.take_bind raised₀ fun l₁ raised₁ => ?_
  refine (walks_store_taken raised₀ (by omega)).bind fun _ _ kept => ?_
  subst kept
  refine Walks.steady_bind (steady_callIntrinsic _) named' resolved fun _ _ => ?_
  refine Walks.steady_bind steady_offset named' resolved fun bodyStart _ => ?_
  refine Walks.run_bind runs same named raised₁ (by omega) fun _ l₂ raised₂ => ?_
  refine Walks.steady_bind steady_offset named' resolved fun bodyStop _ => ?_
  refine Walks.steady_bind (steady_op _ (by decide)) named' resolved fun _ _ => ?_
  refine Walks.steady_bind (steady_callIntrinsic _) named' resolved fun _ _ => ?_
  refine Walks.steady_bind (steady_jump _ _) named' resolved fun _ _ => ?_
  refine Walks.steady_bind steady_offset named' resolved fun handler _ => ?_
  refine Walks.steady_bind steady_enterHandler named' resolved fun _ _ => ?_
  refine Walks.take_bind raised₂ fun l₃ raised₃ => ?_
  refine (walks_store_taken raised₂ (by omega)).bind fun _ _ kept => ?_
  subst kept
  refine Walks.steady_bind (steady_op _ (by decide)) named' resolved fun _ _ => ?_
  refine Walks.steady_bind (steady_callIntrinsic _) named' resolved fun _ _ => ?_
  refine Walks.steady_bind steady_offset named' resolved fun handlerStop _ => ?_
  refine Walks.steady_bind (steady_op _ (by decide)) named' resolved fun _ _ => ?_
  refine Walks.steady_bind (steady_op _ (by decide)) named' resolved fun _ _ => ?_
  refine Walks.release_bind raised₃ fun l₄ raised₄ => ?_
  refine Walks.release_bind raised₄ fun l₅ raised₅ => ?_
  extract_lets guarding
  -- both slots are given back: the rows and the exit leave the slots alone
  have guards : ∀ u, Steady R (guarding u) fun _ => True :=
    fun _ => (steady_addHandler _ _ _ _).bind fun _ _ => steady_place exit
  exact (steady_ite ((steady_addHandler _ _ _ _).bind fun u _ => guards u) (guards ())).ends named' resolved
    fun _ => raised₅.close (by omega)

theorem steady_guardRange (start stop handler : Nat) :
    ∀ classes, Steady R (guardRange start stop handler classes) fun _ => True
  | [] => steady_pure () trivial
  | _ :: rest => (steady_addHandler _ _ _ _).bind fun _ _ => steady_guardRange start stop handler rest

theorem steady_guardAll (handler : Nat) : ∀ ranges, Steady R (guardAll handler ranges) fun _ => True
  | [] => steady_pure () trivial
  | _ :: rest => (steady_addHandler _ _ _ _).bind fun _ _ => steady_guardAll handler rest

/-- A guarded block with a `finally` block lowers that block twice: on the normal path where the
body and the clauses ran, and in a handler that keeps the exception in the next slot, so that the
second copy runs above it. -/
theorem takes_lowerTry_finally {body fin : LowerM Unit} {clauses : Nat → Nat → Nat → LowerM (List (Nat × Nat))}
    (hasClauses : Bool) {nb nc nf : Nat} (runs : Takes symbols R nb body)
    (catches : ∀ tryStart tryStop afterHandlers, Takes symbols R nc (clauses tryStart tryStop afterHandlers))
    (finishes : Takes symbols R nf fin) :
    Takes symbols R (max (max nb nc) (nf + 1)) (lowerTry body clauses hasClauses (some fin)) := by
  intro env same named l marked
  have named' : env.symbols.LocalsIn R env.scope := same ▸ named
  have resolved : ∀ j, R j → R j ∨ l.next ≤ j ∧ j < l.next + max (max nb nc) (nf + 1) := fun _ => .inl
  have raised₀ := LocalsLayout.Raised.refl marked
  unfold lowerTry
  refine Walks.steady_bind steady_freshLabel named' resolved fun exit _ => ?_
  refine Walks.steady_bind (Steady.map (Q := fun r => ∃ label, r = some label)
    (steady_freshLabel.mono fun a _ => ⟨a, rfl⟩)) named' resolved fun normal labelled => ?_
  obtain ⟨normal, rfl⟩ := labelled
  beta_reduce
  simp only [Option.getD_some]
  refine Walks.steady_bind steady_offset named' resolved fun tryStart _ => ?_
  refine Walks.run_bind runs same named raised₀ (by omega) fun _ l₁ raised₁ => ?_
  refine Walks.steady_bind steady_offset named' resolved fun tryStop _ => ?_
  refine Walks.steady_ite_bind (steady_jump _ _) named' resolved fun _ => ?_
  refine Walks.run_bind (catches _ _ _) same named raised₁ (by omega) fun ranges l₂ raised₂ => ?_
  refine Walks.steady_bind (steady_place _) named' resolved fun _ _ => ?_
  refine Walks.run_bind finishes same named raised₂ (by omega) fun _ l₃ raised₃ => ?_
  refine Walks.steady_bind (steady_jump _ _) named' resolved fun _ _ => ?_
  refine Walks.steady_bind steady_offset named' resolved fun handler _ => ?_
  refine Walks.steady_bind steady_enterHandler named' resolved fun _ _ => ?_
  refine Walks.take_bind raised₃ fun l₄ raised₄ => ?_
  refine (walks_store_taken raised₃ (by omega)).bind fun _ _ kept => ?_
  subst kept
  refine Walks.run_bind finishes same named raised₄ (by omega) fun _ l₅ raised₅ => ?_
  refine Walks.steady_bind (steady_op _ (by decide)) named' resolved fun _ _ => ?_
  refine Walks.steady_bind (steady_op _ (by decide)) named' resolved fun _ _ => ?_
  refine Walks.release_bind raised₅ fun l₆ raised₆ => ?_
  have rethrows : Steady R (guardAll handler ranges >>= fun _ => place exit) fun _ => True :=
    (steady_guardAll _ _).bind fun _ _ => steady_place exit
  exact (steady_ite ((steady_addHandler _ _ _ _).bind fun _ _ => rethrows) rethrows).ends named' resolved
    fun _ => raised₆.close (by omega)

/-- A guarded block without a `finally` block runs its body, then its clauses, each where the
body ran. -/
theorem takes_lowerTry {body : LowerM Unit} {clauses : Nat → Nat → Nat → LowerM (List (Nat × Nat))}
    (hasClauses : Bool) {nb nc : Nat} (runs : Takes symbols R nb body)
    (catches : ∀ tryStart tryStop afterHandlers, Takes symbols R nc (clauses tryStart tryStop afterHandlers)) :
    Takes symbols R (max nb nc) (lowerTry body clauses hasClauses none) := by
  unfold lowerTry
  simp only [pure_bind, Option.getD_none]
  refine Takes.steady_bind steady_freshLabel fun exit _ => Takes.steady_bind steady_offset fun tryStart _ => ?_
  refine runs.bind fun _ => Takes.steady_bind steady_offset fun tryStop _ => ?_
  exact takes_steady_ite_bind (steady_jump _ _) fun _ =>
    (catches _ _ _).bind_steady fun _ => steady_place exit

end Constructs

/-! ## Resource blocks -/

section Resources

variable {symbols : SymbolTable} {R : Nat → Prop} {env : FunctionEnv} {l₀ l : LocalsLayout} {d w need : Nat}

open LocalsLayout (Raised)

/-- Opening resources keeps each in the next slot, above those opened before it. -/
theorem walks_openResources {scope : Nat} (same : env.symbols = symbols) (named : symbols.LocalsIn R env.scope)
    (declared : symbols.LocalsIn R scope) (resources : List (Option Ident × Expr)) (raised : Raised l₀ l d w)
    (fits : d + resources.length ≤ need) :
    Walks env l (openResources scope resources) (fun j => R j ∨ l₀.next ≤ j ∧ j < l₀.next + need) fun opened l' =>
      opened.length = resources.length ∧ Raised l₀ l' (d + resources.length) (max w (d + resources.length)) := by
  have named' : env.symbols.LocalsIn R env.scope := same ▸ named
  have resolved : ∀ j, R j → R j ∨ l₀.next ≤ j ∧ j < l₀.next + need := fun _ => .inl
  induction resources generalizing l d w with
  | nil =>
    have le := raised.taken_le
    exact walks_pure [] ⟨rfl, raised.congr (by simp) (by simp only [List.length_nil]; omega)⟩
  | cons resource rest ih =>
    obtain ⟨binding, e⟩ := resource
    rw [openResources]
    refine Walks.steady_bind (steady_lowerExpr e) named' resolved fun _ _ => ?_
    cases binding <;> dsimp only
    case' some name =>
      refine Walks.steady_bind (steady_op _ (by decide)) named' resolved fun _ _ => ?_
      refine (walks_storeDeclared name (same ▸ declared) resolved).bind fun _ _ kept => ?_
      subst kept
    all_goals
      simp only [List.length_cons] at fits
      refine Walks.take_bind raised fun l₁ raised₁ => ?_
      refine (walks_store_taken raised (by omega)).bind fun _ _ kept => ?_
      subst kept
      refine Walks.steady_bind steady_offset named' resolved fun start _ => ?_
      refine (ih raised₁ (by omega)).bind fun more l₂ opening => ?_
      obtain ⟨length, raised₂⟩ := opening
      exact walks_pure _ ⟨by simp [length], raised₂.congr (by simp; omega) (by simp; omega)⟩

theorem steady_closeResource : Steady R closeResource fun _ => True :=
  (steady_callIntrinsic _).bind fun _ _ => steady_op _ (by decide)

/-- Closing resources gives back one slot each, and stores only into the two exception slots. -/
theorem walks_closeResources {allowed : Nat → Prop} {primary secondary : Nat}
    (named : env.symbols.LocalsIn R env.scope) (wider : ∀ j, R j → allowed j) (primaryIn : allowed primary)
    (secondaryIn : allowed secondary) (opened : List (Nat × Nat)) (raised : Raised l₀ l (d + opened.length) w) :
    Walks env l (closeResources primary secondary opened) allowed fun _ l' => Raised l₀ l' d w := by
  -- the stores into the exception slots are steady steps in the wider set of slots
  have named' : env.symbols.LocalsIn allowed env.scope := named.mono wider
  have kept : ∀ j, allowed j → allowed j := fun _ => id
  induction opened generalizing l with
  | nil => exact walks_pure () raised
  | cons resource rest ih =>
    obtain ⟨slot, start⟩ := resource
    rw [closeResources]
    dsimp only
    refine Walks.steady_bind steady_offset named' kept fun stop _ => ?_
    refine Walks.steady_bind steady_freshLabel named' kept fun after _ => ?_
    refine Walks.steady_bind (steady_op _ (by decide)) named' kept fun _ _ => ?_
    refine Walks.steady_bind steady_closeResource named' kept fun _ _ => ?_
    refine Walks.steady_bind (steady_jump _ _) named' kept fun _ _ => ?_
    refine Walks.steady_bind steady_offset named' kept fun closeHandler _ => ?_
    refine Walks.steady_bind steady_enterHandler named' kept fun _ _ => ?_
    refine Walks.steady_bind (steady_op_store primaryIn) named' kept fun _ _ => ?_
    refine Walks.steady_bind (steady_op _ (by decide)) named' kept fun _ _ => ?_
    refine Walks.steady_bind steady_closeResource named' kept fun _ _ => ?_
    refine Walks.steady_bind steady_offset named' kept fun closeStop _ => ?_
    refine Walks.steady_bind (steady_op _ (by decide)) named' kept fun _ _ => ?_
    refine Walks.steady_bind (steady_op _ (by decide)) named' kept fun _ _ => ?_
    refine Walks.steady_bind steady_offset named' kept fun suppressHandler _ => ?_
    refine Walks.steady_bind steady_enterHandler named' kept fun _ _ => ?_
    refine Walks.steady_bind (steady_op_store secondaryIn) named' kept fun _ _ => ?_
    refine Walks.steady_bind (steady_op _ (by decide)) named' kept fun _ _ => ?_
    refine Walks.steady_bind (steady_op _ (by decide)) named' kept fun _ _ => ?_
    refine Walks.steady_bind (steady_callIntrinsic _) named' kept fun _ _ => ?_
    refine Walks.steady_bind (steady_op _ (by decide)) named' kept fun _ _ => ?_
    refine Walks.steady_bind (steady_op _ (by decide)) named' kept fun _ _ => ?_
    refine Walks.steady_ite_bind (steady_addHandler _ _ _ _) named' kept fun _ => ?_
    refine Walks.steady_bind (steady_addHandler _ _ _ _) named' kept fun _ _ => ?_
    refine Walks.steady_bind (steady_place _) named' kept fun _ _ => ?_
    exact Walks.release_bind raised fun _ raised' => ih raised'

/-- A resource block keeps the two exceptions in the next two slots, its resources above them, and
runs its block above its resources. -/
theorem takes_lowerWith (resources : List (Option Ident × Expr)) {scope : Option Nat} {body : LowerM Unit} {n : Nat}
    (declared : ∀ sc, scope = some sc → symbols.LocalsIn R sc) (runs : Takes symbols R n body) :
    Takes symbols R (n + resources.length + 2) (lowerWith resources scope body) := by
  intro env same named l marked
  have named' : env.symbols.LocalsIn R env.scope := same ▸ named
  have resolved : ∀ j, R j → R j ∨ l.next ≤ j ∧ j < l.next + (n + resources.length + 2) := fun _ => .inl
  have raised₀ := LocalsLayout.Raised.refl marked
  unfold lowerWith
  refine Walks.take_bind raised₀ fun l₁ raised₁ => ?_
  refine Walks.take_bind raised₁ fun l₂ raised₂ => ?_
  refine walks_blockScope_bind ?_
  refine (walks_openResources same named (symbols.localsIn_getD declared named) resources raised₂ (by omega)).bind
    fun opened l₃ opening => ?_
  obtain ⟨length, raised₃⟩ := opening
  refine Walks.run_bind runs same named raised₃ (by omega) fun _ l₄ raised₄ => ?_
  have raised₄' : Raised l l₄ (0 + 1 + 1 + opened.reverse.length) _ :=
    raised₄.congr (by rw [List.length_reverse, length]) rfl
  refine (walks_closeResources named' resolved (raised₀.own (by omega)) (raised₁.own (by omega)) _ raised₄').bind
    fun _ l₅ raised₅ => ?_
  refine Walks.release_bind raised₅ fun l₆ raised₆ => ?_
  exact walks_release_close raised₆ (by omega)

end Resources

/-! ## Loops -/

section Loops

variable {symbols : SymbolTable} {R : Nat → Prop}

/-- A `while` loop holds what its body holds. -/
theorem takes_whileLoop (label : Option Ident) (test : Expr) {body : LowerM Unit} {n : Nat}
    (runs : Takes symbols R n body) :
    Takes symbols R n (do
      let start ← freshLabel
      let exit ← freshLabel
      place start
      lowerCondition test exit
      enterLoop label start
      body
      jump .jump start
      place exit
      resolveBreaks) :=
  Takes.steady_bind steady_freshLabel fun start _ => Takes.steady_bind steady_freshLabel fun exit _ =>
    Takes.steady_bind (steady_place start) fun _ _ => Takes.steady_bind (steady_lowerCondition test exit) fun _ _ =>
      Takes.steady_bind (steady_enterLoop label start) fun _ _ => runs.bind_steady fun _ =>
        (steady_jump _ _).bind fun _ _ => (steady_place exit).bind fun _ _ => steady_resolveBreaks

/-- A `for` loop keeps its iterator in the next slot, and runs its body above it. -/
theorem takes_forEach (label : Option Ident) (var : Ident) (iterable : Expr) {scope : Option Nat}
    {body : LowerM Unit} {n : Nat} (declared : ∀ sc, scope = some sc → symbols.LocalsIn R sc)
    (runs : Takes symbols R n body) :
    Takes symbols R (n + 1) (do
      lowerExpr iterable
      callIntrinsic .getIterator
      let iterator ← takeSlot
      op .storeA [iterator]
      let start ← freshLabel
      let exit ← freshLabel
      place start
      op .loadA [iterator]
      callIntrinsic .hasNext
      jumpUnlessTrue exit
      op .loadA [iterator]
      callIntrinsic .getNext
      storeDeclared (← blockScope scope) var
      enterLoop label start
      body
      jump .jump start
      place exit
      resolveBreaks
      releaseSlot) := by
  intro env same named l marked
  have named' : env.symbols.LocalsIn R env.scope := same ▸ named
  have resolved : ∀ j, R j → R j ∨ l.next ≤ j ∧ j < l.next + (n + 1) := fun _ => .inl
  have raised₀ := LocalsLayout.Raised.refl marked
  refine Walks.steady_bind (steady_lowerExpr iterable) named' resolved fun _ _ => ?_
  refine Walks.steady_bind (steady_callIntrinsic _) named' resolved fun _ _ => ?_
  refine Walks.take_bind raised₀ fun l₁ raised₁ => ?_
  refine (walks_store_taken raised₀ (by omega)).bind fun _ _ kept => ?_
  subst kept
  refine Walks.steady_bind steady_freshLabel named' resolved fun start _ => ?_
  refine Walks.steady_bind steady_freshLabel named' resolved fun exit _ => ?_
  refine Walks.steady_bind (steady_place _) named' resolved fun _ _ => ?_
  refine Walks.steady_bind (steady_op _ (by decide)) named' resolved fun _ _ => ?_
  refine Walks.steady_bind (steady_callIntrinsic _) named' resolved fun _ _ => ?_
  refine Walks.steady_bind (steady_jumpUnlessTrue _) named' resolved fun _ _ => ?_
  refine Walks.steady_bind (steady_op _ (by decide)) named' resolved fun _ _ => ?_
  refine Walks.steady_bind (steady_callIntrinsic _) named' resolved fun _ _ => ?_
  refine Walks.declare_bind var (same ▸ symbols.localsIn_getD declared named) resolved fun _ => ?_
  refine Walks.steady_bind (steady_enterLoop _ _) named' resolved fun _ _ => ?_
  refine Walks.run_bind runs same named raised₁ (by omega) fun _ l₂ raised₂ => ?_
  refine Walks.steady_bind (steady_jump _ _) named' resolved fun _ _ => ?_
  refine Walks.steady_bind (steady_place _) named' resolved fun _ _ => ?_
  refine Walks.steady_bind steady_resolveBreaks named' resolved fun _ _ => ?_
  exact walks_release_close raised₂ (by omega)

end Loops

/-! ## Every statement -/

/-- The scope a block opens is among its scopes. -/
theorem Block.declared_of_scopes {P : Nat → Prop} {b : Block} (named : ∀ sc ∈ b.scopes, P sc) :
    ∀ sc, b.scope = some sc → P sc := by
  cases b with
  | mk stmts scope =>
    intro sc same
    simp only [Block.scope] at same
    subst same
    exact named sc (by simp [Block.scopes])

section Statements

variable {symbols : SymbolTable} {R : Nat → Prop}

mutual

/-- A statement whose blocks name their locals in `R` holds at most `privateSlots` slots at once:
the induction follows the statement, and each construct is one of the lemmas above. -/
theorem takes_lowerStmt (st : Stmt) (named : ∀ sc ∈ st.scopes, symbols.LocalsIn R sc) :
    Takes symbols R st.privateSlots (lowerStmt st) := by
  cases st with
  | block b =>
    rw [lowerStmt]
    exact takes_lowerBlock b named
  | declare _ decls =>
    rw [lowerStmt]
    exact (steady_lowerDecls decls).takes
  | eval e =>
    rw [lowerStmt]
    exact ((steady_lowerExpr e).bind fun _ _ => steady_op _ (by decide)).takes
  | ifChain clauses otherwise =>
    cases otherwise with
    | none =>
      rw [lowerStmt]
      dsimp only
      exact Takes.steady_bind steady_freshLabel fun after _ =>
        (takes_lowerClauses after _ clauses named).bind_steady fun _ => steady_place after
    | some b =>
      simp only [Stmt.scopes, List.forall_mem_append] at named
      obtain ⟨clausesNamed, blockNamed⟩ := named
      rw [lowerStmt]
      dsimp only
      exact Takes.steady_bind steady_freshLabel fun after _ => (takes_lowerClauses after _ clauses clausesNamed).bind
        fun _ => (takes_lowerBlock b blockNamed).bind_steady fun _ => steady_place after
  | whileLoop label test body =>
    rw [lowerStmt]
    exact takes_whileLoop label test (takes_lowerBlock body named)
  | forEach label var iterable body =>
    rw [lowerStmt]
    exact takes_forEach label var iterable (Block.declared_of_scopes named) (takes_lowerBlock body named)
  | breakLoop label pos =>
    rw [lowerStmt]
    exact (steady_lowerBreak label pos).takes
  | continueLoop label pos =>
    rw [lowerStmt]
    exact (steady_lowerContinue label pos).takes
  | returnValue value pos =>
    rw [lowerStmt]
    exact (steady_lowerReturn value pos).takes
  | throwValue e _ =>
    rw [lowerStmt]
    exact ((steady_lowerExpr e).bind fun _ _ => steady_op _ (by decide)).takes
  | guarded body catches always =>
    cases always with
    | none =>
      simp only [Stmt.scopes, List.forall_mem_append] at named
      obtain ⟨bodyNamed, catchesNamed⟩ := named
      rw [lowerStmt]
      exact takes_lowerTry _ (takes_lowerBlock body bodyNamed)
        fun _ _ _ => takes_lowerCatches _ _ _ catches catchesNamed
    | some fin =>
      simp only [Stmt.scopes, List.forall_mem_append] at named
      obtain ⟨⟨bodyNamed, catchesNamed⟩, finNamed⟩ := named
      rw [lowerStmt]
      exact takes_lowerTry_finally _ (takes_lowerBlock body bodyNamed)
        (fun _ _ _ => takes_lowerCatches _ _ _ catches catchesNamed) (takes_lowerBlock fin finNamed)
  | synchronized lock body =>
    rw [lowerStmt]
    exact takes_lowerSynchronized (steady_lowerExpr lock) (takes_lowerBlock body named)
  | withResources resources body =>
    rw [lowerStmt]
    exact takes_lowerWith resources (Block.declared_of_scopes named) (takes_lowerBlock body named)
  | empty =>
    rw [lowerStmt]
    exact takes_pure ()

/-- Statements one after the other hold the most any of them holds. -/
theorem takes_lowerStmts (stmts : List Stmt) (named : ∀ sc ∈ scopesOfStmts stmts, symbols.LocalsIn R sc) :
    Takes symbols R (privateSlotsOfStmts stmts) (lowerStmts stmts) := by
  cases stmts with
  | nil =>
    rw [lowerStmts]
    exact takes_pure ()
  | cons st rest =>
    simp only [scopesOfStmts, List.forall_mem_append] at named
    obtain ⟨first, later⟩ := named
    rw [lowerStmts]
    exact (takes_lowerStmt st first).bind fun _ => takes_lowerStmts rest later

/-- A block holds what its statements hold, in the scope it opens. -/
theorem takes_lowerBlock (b : Block) (named : ∀ sc ∈ b.scopes, symbols.LocalsIn R sc) :
    Takes symbols R b.privateSlots (lowerBlock b) := by
  cases b with
  | mk stmts scope =>
    have declared := Block.declared_of_scopes named
    simp only [Block.scopes, List.forall_mem_append] at named
    rw [lowerBlock]
    exact takes_withScope scope declared (takes_lowerStmts stmts named.2)

/-- The clauses of an `if` chain hold the most any of their blocks holds. -/
theorem takes_lowerClauses (after : Nat) (hasElse : Bool) (clauses : List (Expr × Block))
    (named : ∀ sc ∈ scopesOfClauses clauses, symbols.LocalsIn R sc) :
    Takes symbols R (privateSlotsOfClauses clauses) (lowerClauses after hasElse clauses) := by
  cases clauses with
  | nil =>
    rw [lowerClauses]
    exact takes_pure ()
  | cons clause rest =>
    obtain ⟨test, body⟩ := clause
    simp only [scopesOfClauses, List.forall_mem_append] at named
    obtain ⟨first, later⟩ := named
    rw [lowerClauses]
    dsimp only
    exact Takes.steady_bind steady_freshLabel fun next _ =>
      Takes.steady_bind (steady_lowerCondition test next) fun _ _ => (takes_lowerBlock body first).bind fun _ =>
        takes_steady_ite_bind (steady_jump _ _) fun _ =>
          Takes.steady_bind (steady_place next) fun _ _ => takes_lowerClauses after hasElse rest later

/-- Catch clauses hold the most any of their blocks holds. -/
theorem takes_lowerCatches (tryStart tryStop afterHandlers : Nat) (catches : List Catch)
    (named : ∀ sc ∈ scopesOfCatches catches, symbols.LocalsIn R sc) :
    Takes symbols R (privateSlotsOfCatches catches) (lowerCatches tryStart tryStop afterHandlers catches) := by
  cases catches with
  | nil =>
    rw [lowerCatches]
    exact takes_pure []
  | cons c rest =>
    obtain ⟨filters, param, body⟩ := c
    simp only [scopesOfCatches, List.forall_mem_append] at named
    obtain ⟨first, later⟩ := named
    rw [lowerCatches]
    dsimp only
    exact Takes.steady_bind (steady_catchFilters filters) fun classes _ =>
      Takes.steady_bind steady_offset fun handler _ => Takes.steady_bind steady_enterHandler fun _ _ =>
        Takes.declare_bind param (Block.declared_of_scopes first) fun _ => (takes_lowerBlock body first).bind fun _ =>
          Takes.steady_bind steady_offset fun handlerStop _ => takes_steady_ite_bind (steady_jump _ _) fun _ =>
            takes_steady_ite_bind (steady_guardRange _ _ _ _) fun _ =>
              (takes_lowerCatches tryStart tryStop afterHandlers rest later).bind_steady fun _ =>
                steady_pure (Q := fun _ => True) _ trivial

end

end Statements

end Lowering

end Febc
