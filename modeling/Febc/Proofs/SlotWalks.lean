import Febc.Proofs.Labels
import Febc.Proofs.Resolution

/-!
# Walks: what a lowering step does to the private slots and the stores

The private slots of a function are a stack: `takeSlot` answers the next free slot and raises the
highest mark past it, `releaseSlot` gives the last one back. Whether a construct's slot is safe
from being overwritten is a question about every `storeA` the lowering emits while the slot is
taken. This module gives the view of a lowering step that answers it.

`Walks env l m allowed post` says that the step `m`, from any state whose private slots are `l`,
either stops or ends with private slots that satisfy `post`, having driven the code builder
through a sequence of calls (`Builds`, the calls of `BuilderOp`) whose stores all go into slots
that `allowed` admits. Nothing is asked of the state beyond its private slots, so walks compose
with `Walks.bind` and are proved one primitive step at a time. `Steady R m Q` is the walk of a
step that leaves the private slots as it found them and stores only into slots of `R`, in every
environment whose innermost scope names its locals in `R`: every expression is one
(`steady_lowerExpr`), since only assignments store, and only into the locals they name.

Main statements:
* `Builds.addressable`: every load or store of a local among calls that go through addresses a
  slot of one byte;
* `walks_takeSlot` and `walks_releaseSlot`: the stack discipline of the private slots;
* `steady_lowerExpr`: lowering an expression keeps the private slots and stores only into the
  locals its scopes name.
-/

namespace Febc

namespace BuilderOp

/-- The call stores the value on the stack into local slot `k`. -/
def Stores (k : Nat) (o : BuilderOp) : Prop := ∃ rest, o = pushInstruction .storeA (k :: rest)

/-- The call loads or stores local slot `k`. -/
def Addresses (k : Nat) (o : BuilderOp) : Prop :=
  ∃ opcode rest, (opcode = .loadA ∨ opcode = .storeA) ∧ o = pushInstruction opcode (k :: rest)

theorem runStep_runAll_append (ops ops' : List BuilderOp) (b : CodeBuilder) :
    runStep (runAll (ops ++ ops')) b = runStep (runAll ops >>= fun _ => runAll ops') b := by
  induction ops generalizing b with
  | nil => rfl
  | cons o rest ih =>
    simp only [List.cons_append, runAll]
    rw [runStep_bind, runStep_bind, runStep_bind]
    split
    · rename_i b₁ _
      rw [ih b₁, runStep_bind]
    · rfl

end BuilderOp

/-- The slots that a scope's variables and constants occupy satisfy `R`. -/
def SymbolTable.LocalsIn (t : SymbolTable) (R : Nat → Prop) (scope : Nat) : Prop :=
  ∀ name i, t.resolve scope name = some (.var (.slot i)) ∨ t.resolve scope name = some (.const (.slot i)) → R i

/-- A place that, if it is a local, is a slot of `R`. -/
def Access.In (R : Nat → Prop) (a : Access) : Prop := ∀ i, a = .slot i → R i

namespace LocalsLayout

theorem pushPrivate_of_ok {l l' : LocalsLayout} {k : Nat} (pushed : l.pushPrivate = .ok (k, l')) :
    k = l.next ∧ l.next ≤ 255 ∧ l' = ⟨l.next + 1, max l.high (l.next + 1)⟩ := by
  unfold pushPrivate at pushed
  split at pushed
  · cases pushed
  · cases pushed
    exact ⟨rfl, by omega, rfl⟩

theorem popPrivate_of_some {l l' : LocalsLayout} (popped : l.popPrivate = some l') :
    l' = { l with next := l.next - 1 } := by
  unfold popPrivate at popped
  split at popped
  · cases popped
  · cases popped
    rfl

end LocalsLayout

namespace Lowering

/-! ## Calls on the code builder -/

/-- Calls that take a code builder from `b` to `b'` without failing. -/
def Builds (b : CodeBuilder) (ops : List BuilderOp) (b' : CodeBuilder) : Prop :=
  runStep (BuilderOp.runAll ops) b = (.ok (), b')

theorem builds_nil (b : CodeBuilder) : Builds b [] b := rfl

theorem Builds.append {b b₁ b₂ : CodeBuilder} {ops ops' : List BuilderOp} (first : Builds b ops b₁)
    (second : Builds b₁ ops' b₂) : Builds b (ops ++ ops') b₂ := by
  unfold Builds at *
  rw [BuilderOp.runStep_runAll_append, runStep_bind, first]
  exact second

theorem builds_single {b b' : CodeBuilder} {o : BuilderOp} (ran : runStep o.run b = (.ok (), b')) :
    Builds b [o] b' := by
  unfold Builds
  rw [BuilderOp.runAll, runStep_bind, ran]
  rfl

/-- The builder refuses a load or store of a local past one byte, so every such call among calls
that go through addresses a slot of one byte. -/
theorem Builds.addressable {b b' : CodeBuilder} {ops : List BuilderOp} (built : Builds b ops b') :
    ∀ o ∈ ops, ∀ k, o.Addresses k → k ≤ 255 := by
  induction ops generalizing b with
  | nil => exact fun _ absent => absurd absent List.not_mem_nil
  | cons o rest ih =>
    unfold Builds at built
    rw [BuilderOp.runAll] at built
    obtain ⟨_, b₁, first, later⟩ := runStep_bind_eq_ok built
    intro o' member k addressing
    rcases List.mem_cons.1 member with rfl | there
    · obtain ⟨opcode, rest', isLocal, rfl⟩ := addressing
      have checked := (CodeBuilder.pushInstruction_checks first).2.2
      exact checked k (by simp) isLocal
    · exact ih later o' there k addressing

/-- Calls that store only into slots that `allowed` admits. -/
def StoresIn (allowed : Nat → Prop) (ops : List BuilderOp) : Prop :=
  ∀ o ∈ ops, ∀ k, o.Stores k → allowed k

theorem StoresIn.append {allowed : Nat → Prop} {ops ops' : List BuilderOp} (first : StoresIn allowed ops)
    (second : StoresIn allowed ops') : StoresIn allowed (ops ++ ops') := by
  intro o member
  rcases List.mem_append.1 member with here | there
  · exact first o here
  · exact second o there

theorem StoresIn.mono {allowed allowed' : Nat → Prop} {ops : List BuilderOp} (stores : StoresIn allowed ops)
    (wider : ∀ k, allowed k → allowed' k) : StoresIn allowed' ops :=
  fun o member k storing => wider k (stores o member k storing)

theorem storesIn_nil (allowed : Nat → Prop) : StoresIn allowed [] := fun _ absent => absurd absent List.not_mem_nil

/-! ## Walks -/

/-- A step of lowering, from any state with private slots `l`, either stops or answers `a` with
private slots `l'` such that `post a l'`, having built its code through calls that store only into
slots `allowed` admits. -/
def Walks {α : Type} (env : FunctionEnv) (l : LocalsLayout) (m : LowerM α) (allowed : Nat → Prop)
    (post : α → LocalsLayout → Prop) : Prop :=
  ∀ s : Lowering, s.locals = l → Returns (fun _ => True) (runStep (m.run env) s) fun a s' =>
    post a s'.locals ∧ ∃ ops, Builds s.code ops s'.code ∧ StoresIn allowed ops

section Walks

variable {α β : Type} {env : FunctionEnv} {l : LocalsLayout} {allowed : Nat → Prop}

theorem Walks.bind {m : LowerM α} {k : α → LowerM β} {mid : α → LocalsLayout → Prop}
    {post : β → LocalsLayout → Prop} (first : Walks env l m allowed mid)
    (rest : ∀ a l', mid a l' → Walks env l' (k a) allowed post) :
    Walks env l (m >>= k) allowed post := by
  intro s locals
  have split : (m >>= k).run env = m.run env >>= fun a => (k a).run env := rfl
  rw [split]
  apply returns_bind
  apply (first s locals).mono
  rintro a s₁ ⟨got, ops, built, stores⟩
  apply (rest a s₁.locals got s₁ rfl).mono
  rintro c s₂ ⟨done, ops', built', stores'⟩
  exact ⟨done, ops ++ ops', built.append built', stores.append stores'⟩

theorem Walks.mono {m : LowerM α} {post post' : α → LocalsLayout → Prop} {allowed' : Nat → Prop}
    (walks : Walks env l m allowed post) (weaker : ∀ a l', post a l' → post' a l')
    (wider : ∀ k, allowed k → allowed' k) : Walks env l m allowed' post' :=
  fun s locals => Returns.mono (walks s locals) fun a _ ⟨holds, ops, built, stores⟩ =>
    ⟨weaker a _ holds, ops, built, stores.mono wider⟩

theorem walks_pure (a : α) {post : α → LocalsLayout → Prop} (holds : post a l) :
    Walks env l (pure a) allowed post :=
  fun _ locals => ⟨locals ▸ holds, [], builds_nil _, storesIn_nil _⟩

theorem walks_throw (h : Halt) {post : α → LocalsLayout → Prop} : Walks env l (throw h) allowed post :=
  fun _ _ => trivial

theorem walks_ite {c : Prop} [Decidable c] {yes no : LowerM α} {post : α → LocalsLayout → Prop}
    (onYes : c → Walks env l yes allowed post) (onNo : ¬c → Walks env l no allowed post) :
    Walks env l (if c then yes else no) allowed post := by
  split
  · exact onYes ‹_›
  · exact onNo ‹_›

theorem walks_read_bind {k : FunctionEnv → LowerM α} {post : α → LocalsLayout → Prop}
    (walks : Walks env l (k env) allowed post) : Walks env l (read >>= k) allowed post := walks

theorem walks_withScope {scope : Nat} {m : LowerM α} {post : α → LocalsLayout → Prop}
    (walks : Walks { env with scope := scope } l m allowed post) :
    Walks env l (withScope (some scope) m) allowed post := walks

/-- A step that changes neither the code nor the private slots. -/
theorem walks_modify {f : Lowering → Lowering} {post : Unit → LocalsLayout → Prop} (code : ∀ s, (f s).code = s.code)
    (locals : ∀ s, (f s).locals = s.locals) (holds : post () l) : Walks env l (modify f) allowed post :=
  fun s same => ⟨(locals s).trans same ▸ holds, [], (code s) ▸ builds_nil _, storesIn_nil _⟩

/-- A step of the code builder that is one call. -/
theorem walks_onCode {m : CodeM α} (o : BuilderOp) {post : α → LocalsLayout → Prop}
    (same : ∀ c a c', runStep m c = (.ok a, c') → runStep o.run c = (.ok (), c'))
    (stores : ∀ k, o.Stores k → allowed k) (holds : ∀ a, post a l) :
    Walks env l (onCode m) allowed post := by
  intro s locals
  rw [runStep_onCode]
  rcases ran : runStep m s.code with ⟨_ | a, c'⟩
  · trivial
  · refine ⟨locals ▸ holds a, [o], builds_single (same _ a c' ran), ?_⟩
    intro o' member k storing
    rw [List.mem_singleton.1 member] at storing
    exact stores k storing

/-- A step of the code builder that changes nothing. -/
theorem walks_onCode_read {m : CodeM α} {post : α → LocalsLayout → Prop}
    (same : ∀ c, (runStep m c).2 = c) (holds : ∀ a, post a l) : Walks env l (onCode m) allowed post := by
  intro s locals
  rw [runStep_onCode]
  have kept := same s.code
  rcases ran : runStep m s.code with ⟨_ | a, c'⟩
  · trivial
  · refine ⟨locals ▸ holds a, [], ?_, storesIn_nil _⟩
    rw [ran] at kept
    rw [show c' = s.code from kept]
    exact builds_nil _

theorem walks_onPool (m : PoolM α) {post : α → LocalsLayout → Prop} (holds : ∀ a, post a l) :
    Walks env l (onPool m) allowed post := by
  intro s locals
  rw [runStep_onPool]
  cases (runStep m s.pool).1 with
  | error => trivial
  | ok a => exact ⟨locals ▸ holds a, [], builds_nil _, storesIn_nil _⟩

/-- Taking a private slot answers the next one, below 256, and raises the highest mark past it. -/
theorem walks_takeSlot :
    Walks env l takeSlot allowed fun k l' =>
      k = l.next ∧ l.next ≤ 255 ∧ l'.next = l.next + 1 ∧ l'.high = max l.high (l.next + 1) := by
  intro s locals
  simp only [takeSlot, ReaderT.run, runStep_mk]
  subst locals
  rcases pushed : s.locals.pushPrivate with _ | ⟨k, l'⟩
  · trivial
  · obtain ⟨rfl, room, rfl⟩ := LocalsLayout.pushPrivate_of_ok pushed
    exact ⟨⟨rfl, room, rfl, rfl⟩, [], builds_nil _, storesIn_nil _⟩

/-- Releasing a private slot gives back the last one taken and keeps the highest mark. -/
theorem walks_releaseSlot : Walks env l releaseSlot allowed fun _ l' => l'.next = l.next - 1 ∧ l'.high = l.high := by
  intro s locals
  simp only [releaseSlot, ReaderT.run, runStep_mk]
  subst locals
  rcases popped : s.locals.popPrivate with _ | l'
  · trivial
  · obtain rfl := LocalsLayout.popPrivate_of_some popped
    exact ⟨⟨rfl, rfl⟩, [], builds_nil _, storesIn_nil _⟩

/-- A store into a slot that `allowed` admits. -/
theorem walks_op_store {k : Nat} (own : allowed k) : Walks env l (op .storeA [k]) allowed fun _ l' => l' = l :=
  walks_onCode (.pushInstruction .storeA [k]) (fun _ _ _ ran => ran)
    (fun j ⟨_, same⟩ => by
      injection same with _ operands
      injection operands with slot
      exact slot ▸ own)
    fun _ => rfl

/-- An instruction that stores nothing. -/
theorem walks_op {o : Opcode} (xs : List Nat) (plain : o ≠ .storeA) :
    Walks env l (op o xs) allowed fun _ l' => l' = l :=
  walks_onCode (.pushInstruction o xs) (fun _ _ _ ran => ran)
    (fun _ ⟨_, same⟩ => by
      injection same with opcode
      exact absurd opcode plain)
    fun _ => rfl

theorem walks_report (kind : DiagnosticKind) (pos : Position) (message : String) :
    Walks env l (report kind pos message) allowed fun _ l' => l' = l :=
  walks_modify (fun _ => rfl) (fun _ => rfl) rfl

end Walks

/-! ## Steps that keep the private slots -/

/-- A step that keeps the private slots and stores only into slots of `R`, in every environment
whose innermost scope names its locals in `R`; what it answers satisfies `Q`. -/
def Steady {α : Type} (R : Nat → Prop) (m : LowerM α) (Q : α → Prop) : Prop :=
  ∀ env : FunctionEnv, env.symbols.LocalsIn R env.scope → ∀ l, Walks env l m R fun a l' => Q a ∧ l' = l

section Steady

variable {α β : Type} {R : Nat → Prop}

theorem Steady.bind {m : LowerM α} {k : α → LowerM β} {P : α → Prop} {Q : β → Prop} (first : Steady R m P)
    (rest : ∀ a, P a → Steady R (k a) Q) : Steady R (m >>= k) Q :=
  fun env named l => (first env named l).bind fun a _ ⟨holds, same⟩ => same ▸ rest a holds env named l

theorem Steady.mono {m : LowerM α} {Q Q' : α → Prop} (steady : Steady R m Q) (weaker : ∀ a, Q a → Q' a) :
    Steady R m Q' :=
  fun env named l => (steady env named l).mono (fun a _ ⟨holds, same⟩ => ⟨weaker a holds, same⟩) fun _ => id

theorem steady_pure (a : α) {Q : α → Prop} (holds : Q a) : Steady R (pure a) Q :=
  fun _ _ _ => walks_pure a ⟨holds, rfl⟩

theorem Steady.map {m : LowerM α} {f : α → β} {Q : β → Prop} (steady : Steady R m fun a => Q (f a)) :
    Steady R (f <$> m) Q := by
  rw [map_eq_pure_bind]
  exact steady.bind fun a holds => steady_pure (f a) holds

theorem steady_ite {c : Prop} [Decidable c] {yes no : LowerM α} {Q : α → Prop} (onYes : Steady R yes Q)
    (onNo : Steady R no Q) : Steady R (if c then yes else no) Q := by
  split
  · exact onYes
  · exact onNo

theorem steady_read_bind {k : FunctionEnv → LowerM α} {Q : α → Prop} (rest : ∀ e, Steady R (k e) Q) :
    Steady R (read >>= k) Q :=
  fun env named l => walks_read_bind (rest env env named l)

/-- Reading the state for what the step does not depend on. -/
theorem steady_get_bind {k : Lowering → LowerM α} {Q : α → Prop} (rest : ∀ t, Steady R (k t) Q) :
    Steady R (get >>= k) Q :=
  fun env named l s locals => rest s env named l s locals

theorem steady_throw (h : Halt) {Q : α → Prop} : Steady R (throw h) Q :=
  fun _ _ _ => walks_throw h

theorem steady_modify {f : Lowering → Lowering} (code : ∀ s, (f s).code = s.code)
    (locals : ∀ s, (f s).locals = s.locals) : Steady R (modify f) fun _ => True :=
  fun _ _ _ => walks_modify code locals ⟨trivial, rfl⟩

/-- A step of the code builder that is one call storing nothing. -/
theorem steady_onCode {m : CodeM α} (o : BuilderOp)
    (same : ∀ c a c', runStep m c = (.ok a, c') → runStep o.run c = (.ok (), c')) (plain : ∀ k, ¬o.Stores k) :
    Steady R (onCode m) fun _ => True :=
  fun _ _ _ => walks_onCode o same (fun k storing => absurd storing (plain k)) fun _ => ⟨trivial, rfl⟩

theorem steady_onPool (m : PoolM α) : Steady R (onPool m) fun _ => True :=
  fun _ _ _ => walks_onPool m fun _ => ⟨trivial, rfl⟩

theorem steady_report (kind : DiagnosticKind) (pos : Position) (message : String) :
    Steady R (report kind pos message) fun _ => True :=
  steady_modify (fun _ => rfl) fun _ => rfl

/-- Reporting, then answering. -/
theorem steady_report_pure {Q : α → Prop} (kind : DiagnosticKind) (pos : Position) (message : String)
    {a : α} (holds : Q a) : Steady R (report kind pos message >>= fun _ => pure a) Q :=
  (steady_report kind pos message).bind fun _ _ => steady_pure a holds

end Steady

/-- A step that keeps the private slots, within a walk whose stores admit those of `R`. -/
theorem Walks.steady_bind {α β : Type} {R : Nat → Prop} {env : FunctionEnv} {l : LocalsLayout}
    {allowed : Nat → Prop} {m : LowerM α} {k : α → LowerM β} {P : α → Prop} {post : β → LocalsLayout → Prop}
    (first : Steady R m P) (named : env.symbols.LocalsIn R env.scope) (wider : ∀ j, R j → allowed j)
    (rest : ∀ a, P a → Walks env l (k a) allowed post) : Walks env l (m >>= k) allowed post :=
  ((first env named l).mono (fun _ _ holds => holds) wider).bind fun a _ ⟨holds, same⟩ => same ▸ rest a holds

/-- A step that keeps the private slots, last in a walk. -/
theorem Steady.ends {α : Type} {R : Nat → Prop} {env : FunctionEnv} {l : LocalsLayout} {allowed : Nat → Prop}
    {m : LowerM α} {Q : α → Prop} {post : α → LocalsLayout → Prop} (steady : Steady R m Q)
    (named : env.symbols.LocalsIn R env.scope) (wider : ∀ j, R j → allowed j) (holds : ∀ a, post a l) :
    Walks env l m allowed post :=
  (steady env named l).mono (fun a _ ⟨_, kept⟩ => kept ▸ holds a) wider

/-! ## The primitive steps -/

section Primitives

variable {R : Nat → Prop}

/-- An instruction that is no store. -/
theorem steady_op {o : Opcode} (xs : List Nat) (plain : o ≠ .storeA) : Steady R (op o xs) fun _ => True :=
  fun _ _ _ => (walks_op xs plain).mono (fun _ _ kept => ⟨trivial, kept⟩) fun _ => id

/-- A store into a slot of `R`. -/
theorem steady_op_store {k : Nat} (own : R k) : Steady R (op .storeA [k]) fun _ => True :=
  fun _ _ _ => (walks_op_store own).mono (fun _ _ kept => ⟨trivial, kept⟩) fun _ => id

theorem steady_offset : Steady R offset fun _ => True :=
  fun _ _ _ => walks_onCode_read CodeBuilder.currentOffset_keeps fun _ => ⟨trivial, rfl⟩

theorem steady_freshLabel : Steady R freshLabel fun _ => True :=
  steady_onCode .freshLabel (fun c _ _ ran => by
    show runStep (CodeBuilder.freshLabel >>= fun _ => pure ()) c = _
    rw [runStep_bind, ran]
    rfl) fun _ ⟨_, same⟩ => by cases same

theorem steady_place (label : Nat) : Steady R (place label) fun _ => True :=
  steady_onCode (.placeLabel label) (fun _ _ _ ran => ran) fun _ ⟨_, same⟩ => by cases same

theorem steady_jump (o : Opcode) (label : Nat) : Steady R (jump o label) fun _ => True :=
  steady_onCode (.pushJump o label) (fun _ _ _ ran => ran) fun _ ⟨_, same⟩ => by cases same

theorem steady_enterHandler : Steady R enterHandler fun _ => True :=
  steady_onCode .enterHandler (fun _ _ _ ran => ran) fun _ ⟨_, same⟩ => by cases same

theorem steady_addHandler (start stop handler : Nat) (catchClass : Option Nat) :
    Steady R (addHandler start stop handler catchClass) fun _ => True :=
  steady_onCode (.addHandler start stop handler catchClass) (fun _ _ _ ran => ran) fun _ ⟨_, same⟩ => by cases same

theorem steady_pushJumpPlaceholder (o : Opcode) :
    Steady R (onCode (CodeBuilder.pushJumpPlaceholder o)) fun _ => True :=
  steady_onCode (.pushJumpPlaceholder o) (fun c _ _ ran => by
    show runStep (CodeBuilder.pushJumpPlaceholder o >>= fun _ => pure ()) c = _
    rw [runStep_bind, ran]
    rfl) fun _ ⟨_, same⟩ => by cases same

theorem steady_patchJump (operand target : Nat) :
    Steady R (onCode (CodeBuilder.patchJump operand target)) fun _ => True :=
  steady_onCode (.patchJump operand target) (fun _ _ _ ran => ran) fun _ ⟨_, same⟩ => by cases same

theorem steady_invokeEntry (o : Opcode) (ref : FunctionRef) : Steady R (invokeEntry o ref) fun _ => True :=
  (steady_onPool _).bind fun index _ =>
    steady_onCode (.pushInvoke o index ref.descriptor) (fun _ _ _ ran => ran) fun _ ⟨_, same⟩ => by cases same

theorem steady_callIntrinsic (f : Intrinsic) : Steady R (callIntrinsic f) fun _ => True := steady_invokeEntry _ _

theorem steady_loadBoolean (v : BooleanField) : Steady R (loadBoolean v) fun _ => True :=
  (steady_onPool _).bind fun _ _ => steady_op _ (by decide)

theorem steady_loadConstant (index : Nat) : Steady R (loadConstant index) fun _ => True := steady_op _ (by decide)

theorem steady_loadString (text : String) : Steady R (loadString text) fun _ => True :=
  (steady_onPool _).bind fun _ _ => steady_loadConstant _

theorem steady_testTruth : Steady R testTruth fun _ => True := steady_callIntrinsic _

theorem steady_jumpUnlessTrue (label : Nat) : Steady R (jumpUnlessTrue label) fun _ => True :=
  steady_testTruth.bind fun _ _ => steady_jump _ _

theorem steady_enterLoop (label : Option Ident) (continueLabel : Nat) :
    Steady R (enterLoop label continueLabel) fun _ => True :=
  steady_modify (fun _ => rfl) fun _ => rfl

theorem steady_recordBreak (loop operand : Nat) : Steady R (recordBreak loop operand) fun _ => True :=
  steady_modify (fun _ => rfl) fun _ => rfl

theorem steady_findLoop (label : Option Ident) : Steady R (findLoop label) fun _ => True :=
  steady_get_bind fun _ => steady_pure _ trivial

theorem steady_inLoop : Steady R inLoop fun _ => True := steady_get_bind fun _ => steady_pure _ trivial

theorem steady_leaveLoop : Steady R leaveLoop fun _ => True := by
  intro env _ l s locals
  simp only [leaveLoop, ReaderT.run, runStep_mk]
  split
  · exact ⟨⟨trivial, locals⟩, [], builds_nil _, storesIn_nil _⟩
  · trivial

end Primitives

/-! ## Places, names and calls -/

section Places

variable {R : Nat → Prop} {env : FunctionEnv} {l : LocalsLayout} {allowed : Nat → Prop}

/-- Popping the value on the stack into a local that `scope` names in `R`. -/
theorem walks_storeDeclared {scope : Nat} (name : Ident) (named : env.symbols.LocalsIn R scope)
    (wider : ∀ j, R j → allowed j) : Walks env l (storeDeclared scope name) allowed fun _ l' => l' = l := by
  unfold storeDeclared
  refine walks_read_bind ?_
  split
  next i found => exact walks_op_store (wider i (named name.text i (.inl found)))
  next i found => exact walks_op_store (wider i (named name.text i (.inr found)))
  · exact (walks_report _ _ _).bind fun _ _ same => same ▸ walks_op _ (by decide)

theorem steady_load : ∀ a : Access, Steady R a.load fun _ => True
  | .slot _ => steady_op _ (by decide)
  | .staticField _ => steady_op _ (by decide)
  | .instanceField _ => steady_op _ (by decide)
  | .dynamicMember => steady_callIntrinsic _
  | .subscript => steady_callIntrinsic _
  | .value => steady_pure () trivial
  | .invalid => steady_op _ (by decide)

/-- Storing into a place stores only into its slot, if it is a local. -/
theorem steady_store : ∀ a : Access, a.In R → Steady R a.store fun _ => True
  | .slot i, inside => (steady_op _ (by decide)).bind fun _ _ => steady_op_store (inside i rfl)
  | .staticField _, _ => (steady_op _ (by decide)).bind fun _ _ => steady_op _ (by decide)
  | .instanceField _, _ => (steady_op _ (by decide)).bind fun _ _ => steady_op _ (by decide)
  | .dynamicMember, _ => steady_callIntrinsic _
  | .subscript, _ => steady_callIntrinsic _
  | .value, _ => steady_pure () trivial
  | .invalid, _ => steady_pure () trivial

theorem steady_duplicateAddress (a : Access) : Steady R a.duplicateAddress fun _ => True := by
  unfold Access.duplicateAddress
  split
  · exact steady_pure () trivial
  · exact steady_op _ (by decide)
  · exact steady_op _ (by decide)

theorem steady_memberName (name : Ident) : Steady R (memberName name) fun _ => True := by
  unfold memberName
  split
  · exact steady_pure _ trivial
  · exact steady_throw _

theorem steady_fieldEntry (owner : BinaryName) (name : Ident) : Steady R (fieldEntry owner name) fun _ => True :=
  (steady_memberName name).bind fun _ _ => steady_onPool _

theorem steady_functionRef (owner : BinaryName) (name : Ident) (arity : Nat) :
    Steady R (functionRef owner name arity) fun _ => True :=
  (steady_memberName name).bind fun _ _ => steady_read_bind fun _ => steady_pure _ trivial

/-- A name resolved in the innermost scope: a local it names is a slot of `R`. -/
theorem steady_resolve (name : String) :
    Steady R (resolve name) fun found => ∀ i, found = some (.var (.slot i)) ∨ found = some (.const (.slot i)) → R i :=
  fun _ named _ => walks_read_bind (walks_pure _ ⟨named name, rfl⟩)

theorem steady_accessVariable (name : Ident) :
    ∀ storage, Steady R (accessVariable name storage) fun a => ∀ i, a = .slot i → storage = .slot i
  | .slot _ => steady_pure _ fun _ same => by cases same; rfl
  | .field owner _ => by
    refine (steady_fieldEntry owner name).bind fun field _ => ?_
    exact steady_ite (steady_pure _ fun _ same => by cases same) (steady_read_bind fun _ =>
      steady_ite (steady_report_pure _ _ _ fun _ same => by cases same)
        ((steady_op _ (by decide)).bind fun _ _ => steady_pure _ fun _ same => by cases same))

theorem steady_accessName (name : Ident) (forWrite : Bool) : Steady R (accessName name forWrite) (Access.In R) := by
  unfold accessName
  refine (steady_resolve _).bind fun found named => ?_
  split
  · exact steady_report_pure _ _ _ fun _ same => by cases same
  next _ storage =>
    refine steady_ite (steady_report_pure _ _ _ fun _ same => by cases same) ?_
    exact (steady_accessVariable _ _).mono fun a slot i same => named i (.inr (by rw [slot i same]))
  next _ storage =>
    exact (steady_accessVariable _ _).mono fun a slot i same => named i (.inl (by rw [slot i same]))
  · exact steady_ite (steady_report_pure _ _ _ fun _ same => by cases same)
      (steady_ite (steady_report_pure _ _ _ fun _ same => by cases same)
        ((steady_functionRef _ _ _).bind fun _ _ => (steady_onPool _).bind fun _ _ =>
          (steady_loadConstant _).bind fun _ _ => steady_pure _ fun _ same => by cases same))
  · exact steady_ite (steady_report_pure _ _ _ fun _ same => by cases same)
      ((steady_onPool _).bind fun _ _ => (steady_loadConstant _).bind fun _ _ => steady_pure _ fun _ same => by cases same)

theorem steady_accessSelf (pos : Position) (forWrite : Bool) : Steady R (accessSelf pos forWrite) (Access.In R) := by
  unfold accessSelf
  exact steady_ite (steady_report_pure _ _ _ fun _ same => by cases same) (steady_read_bind fun _ =>
    steady_ite (steady_report_pure _ _ _ fun _ same => by cases same)
      ((steady_op _ (by decide)).bind fun _ _ => steady_pure _ fun _ same => by cases same))

theorem steady_staticMember? (obj : Expr) (name : Ident) :
    Steady R (staticMember? obj name) fun found => ∀ a, found = some a → a.In R := by
  unfold staticMember?
  refine steady_read_bind fun env => ?_
  split
  · refine steady_ite (steady_pure _ fun _ same => by cases same) ?_
    split
    · exact Steady.map ((steady_accessVariable _ _).mono fun a slot _ same i here => by
        cases same
        cases slot i here)
    · exact steady_pure _ fun _ same => by cases same
  · split
    · exact (steady_fieldEntry _ _).bind fun _ _ => steady_pure _ fun _ same => by
        cases same
        exact fun _ here => by cases here
    · exact steady_pure _ fun _ same => by cases same
  · exact steady_pure _ fun _ same => by cases same

theorem steady_lowerLiteral : ∀ lit : Literal, Steady R (lowerLiteral lit) fun _ => True
  | .integer _ | .long _ | .float _ | .double _ =>
    (steady_onPool _).bind fun _ _ => (steady_loadConstant _).bind fun _ _ => steady_callIntrinsic _
  | .string _ => steady_loadString _
  | .boolean true | .boolean false => steady_loadBoolean _
  | .null => steady_op _ (by decide)

theorem steady_evaluateBinary (o : BinaryOp) : Steady R (evaluateBinary o) fun _ => True :=
  (steady_loadString _).bind fun _ _ => steady_callIntrinsic _

theorem steady_evaluateUnary (o : UnaryOp) : Steady R (evaluateUnary o) fun _ => True :=
  (steady_loadString _).bind fun _ _ => steady_callIntrinsic _

theorem steady_construct (cls : BinaryName) (init : Intrinsic) : Steady R (construct cls init) fun _ => True :=
  (steady_onPool _).bind fun _ _ => (steady_op _ (by decide)).bind fun _ _ => (steady_op _ (by decide)).bind fun _ _ =>
    steady_callIntrinsic _

theorem steady_invoke (o : Opcode) (ref : FunctionRef) {args : LowerM Unit} (pushes : Steady R args fun _ => True) :
    Steady R (invoke o ref args) fun _ => True :=
  pushes.bind fun _ _ => steady_invokeEntry o ref

theorem steady_callFunction (owner : BinaryName) (isStatic : Bool) (arities : List Nat) (name : Ident) (arity : Nat)
    {args : LowerM Unit} (pushes : Steady R args fun _ => True) :
    Steady R (callFunction owner isStatic arities name arity args) fun _ => True := by
  unfold callFunction
  refine steady_ite ((steady_report _ _ _).bind fun _ _ => steady_op _ (by decide)) ?_
  refine (steady_functionRef _ _ _).bind fun ref _ => ?_
  exact steady_ite (steady_invoke _ _ pushes) (steady_read_bind fun _ =>
    steady_ite ((steady_report _ _ _).bind fun _ _ => steady_op _ (by decide))
      ((steady_op _ (by decide)).bind fun _ _ => steady_invoke _ _ pushes))

theorem steady_bindMemberCall (obj : Expr) (name : Ident) (arity : Nat) :
    Steady R (bindMemberCall obj name arity) fun _ => True := by
  unfold bindMemberCall
  refine steady_read_bind fun env => ?_
  split
  · split
    · exact steady_pure _ trivial
    · exact steady_pure _ trivial
  · split
    · exact (steady_memberName _).bind fun _ _ => steady_pure _ trivial
    · exact steady_pure _ trivial
  · exact steady_pure _ trivial

theorem steady_unresolvedClass (cls : Ident) : Steady R (unresolvedClass cls) fun _ => True :=
  (steady_report _ _ _).bind fun _ _ => steady_op _ (by decide)

theorem steady_unresolvedFunction (name : Ident) : Steady R (unresolvedFunction name) fun _ => True :=
  (steady_report _ _ _).bind fun _ _ => steady_op _ (by decide)

end Places

/-! ## Expressions -/

section Expressions

variable {R : Nat → Prop}

mutual

/-- An expression keeps the private slots, and stores only into the locals its assignments name. -/
theorem steady_lowerExpr (e : Expr) : Steady R (lowerExpr e) fun _ => True := by
  cases e with
  | literal lit pos =>
    rw [lowerExpr]
    exact steady_lowerLiteral lit
  | ident name =>
    rw [lowerExpr]
    exact (steady_accessName name false).bind fun a _ => steady_load a
  | self pos =>
    rw [lowerExpr]
    exact (steady_accessSelf pos false).bind fun a _ => steady_load a
  | member obj name =>
    rw [lowerExpr]
    exact (steady_lowerMember obj name).bind fun a _ => steady_load a
  | index obj key =>
    rw [lowerExpr]
    exact (steady_lowerExpr obj).bind fun _ _ => (steady_lowerExpr key).bind fun _ _ => steady_load .subscript
  | list items pos =>
    rw [lowerExpr]
    exact (steady_construct _ _).bind fun _ _ => steady_lowerItems items
  | map entries pos =>
    rw [lowerExpr]
    exact (steady_construct _ _).bind fun _ _ => steady_lowerEntries entries
  | assign target o value =>
    rw [lowerExpr]
    refine (steady_lowerTarget target).bind fun place inside => ?_
    extract_lets storing
    have stores : ∀ u, Steady R (storing u) fun _ => True := fun _ => steady_store place inside
    split
    · exact (steady_lowerExpr value).bind fun u _ => stores u
    · exact (steady_duplicateAddress place).bind fun _ _ => (steady_load place).bind fun _ _ =>
        (steady_lowerExpr value).bind fun _ _ => (steady_evaluateBinary _).bind fun u _ => stores u
  | cond test thenValue elseValue =>
    rw [lowerExpr]
    exact steady_freshLabel.bind fun otherwise _ => steady_freshLabel.bind fun done _ =>
      (steady_lowerExpr test).bind fun _ _ => (steady_jumpUnlessTrue otherwise).bind fun _ _ =>
      (steady_lowerExpr thenValue).bind fun _ _ => (steady_jump _ done).bind fun _ _ =>
      (steady_place otherwise).bind fun _ _ => (steady_lowerExpr elseValue).bind fun _ _ => steady_place done
  | logical o left right =>
    cases o <;> rw [lowerExpr] <;>
      exact steady_freshLabel.bind fun done _ => (steady_lowerExpr left).bind fun _ _ =>
        (steady_op _ (by decide)).bind fun _ _ => steady_testTruth.bind fun _ _ => (steady_jump _ done).bind fun _ _ =>
        (steady_op _ (by decide)).bind fun _ _ => (steady_lowerExpr right).bind fun _ _ => steady_place done
  | binary o left right =>
    rw [lowerExpr]
    exact (steady_lowerExpr left).bind fun _ _ => (steady_lowerExpr right).bind fun _ _ => steady_evaluateBinary o
  | unary o operand pos =>
    rw [lowerExpr]
    exact (steady_lowerExpr operand).bind fun _ _ => steady_evaluateUnary o
  | call callee args =>
    cases callee with
    | ident name =>
      rw [lowerExpr]
      refine (steady_resolve _).bind fun found _ => ?_
      split
      · exact steady_callFunction _ _ _ name _ (steady_lowerArgs args)
      · exact steady_unresolvedFunction name
      · exact (steady_accessName name false).bind fun place _ => (steady_load place).bind fun _ _ =>
          (steady_lowerArgs args).bind fun _ _ => steady_callIntrinsic _
    | member obj name =>
      rw [lowerExpr]
      refine (steady_bindMemberCall obj name _).bind fun call _ => ?_
      split
      · exact steady_invoke _ _ (steady_lowerArgs args)
      · exact steady_callFunction _ _ _ name _ (steady_lowerArgs args)
      · exact (steady_lowerExpr obj).bind fun _ _ => (steady_memberName name).bind fun _ _ =>
          steady_invoke _ _ (steady_lowerArgs args)
    | _ =>
      rw [lowerExpr.eq_16 _ _ (fun _ => Expr.noConfusion) (fun _ _ => Expr.noConfusion)]
      exact (steady_lowerExpr _).bind fun _ _ => (steady_lowerArgs args).bind fun _ _ => steady_callIntrinsic _
  | new cls args =>
    rw [lowerExpr]
    refine (steady_resolve _).bind fun found _ => ?_
    split
    · exact (steady_onPool _).bind fun _ _ => (steady_op _ (by decide)).bind fun _ _ =>
        (steady_op _ (by decide)).bind fun _ _ => steady_invoke _ _ (steady_lowerArgs args)
    · exact steady_unresolvedClass cls
termination_by (sizeOf e, 1)
decreasing_by all_goals (apply Prod.Lex.left; simp only [Expr.ident.sizeOf_spec, Expr.member.sizeOf_spec, Expr.index.sizeOf_spec, Expr.list.sizeOf_spec,
    Expr.map.sizeOf_spec, Expr.assign.sizeOf_spec, Expr.cond.sizeOf_spec, Expr.logical.sizeOf_spec,
    Expr.binary.sizeOf_spec, Expr.unary.sizeOf_spec, Expr.call.sizeOf_spec, Expr.new.sizeOf_spec]; omega)

theorem steady_lowerArgs (args : List Expr) : Steady R (lowerArgs args) fun _ => True := by
  cases args with
  | nil =>
    rw [lowerArgs]
    exact steady_pure () trivial
  | cons e rest =>
    rw [lowerArgs]
    exact (steady_lowerExpr e).bind fun _ _ => steady_lowerArgs rest
termination_by (sizeOf args, 0)
decreasing_by all_goals (apply Prod.Lex.left; simp only [List.cons.sizeOf_spec]; omega)

theorem steady_lowerItems (items : List Expr) : Steady R (lowerItems items) fun _ => True := by
  cases items with
  | nil =>
    rw [lowerItems]
    exact steady_pure () trivial
  | cons e rest =>
    rw [lowerItems]
    exact (steady_op _ (by decide)).bind fun _ _ => (steady_lowerExpr e).bind fun _ _ =>
      (steady_callIntrinsic _).bind fun _ _ => steady_lowerItems rest
termination_by (sizeOf items, 0)
decreasing_by all_goals (apply Prod.Lex.left; simp only [List.cons.sizeOf_spec]; omega)

theorem steady_lowerEntries (entries : List (Expr × Expr)) : Steady R (lowerEntries entries) fun _ => True := by
  cases entries with
  | nil =>
    rw [lowerEntries]
    exact steady_pure () trivial
  | cons entry rest =>
    obtain ⟨key, value⟩ := entry
    rw [lowerEntries]
    exact (steady_op _ (by decide)).bind fun _ _ => (steady_lowerExpr key).bind fun _ _ =>
      (steady_lowerExpr value).bind fun _ _ => (steady_callIntrinsic _).bind fun _ _ => steady_lowerEntries rest
termination_by (sizeOf entries, 0)
decreasing_by all_goals (apply Prod.Lex.left; simp only [List.cons.sizeOf_spec, Prod.mk.sizeOf_spec]; omega)

theorem steady_lowerMember (obj : Expr) (name : Ident) : Steady R (lowerMember obj name) (Access.In R) := by
  rw [lowerMember]
  refine (steady_staticMember? obj name).bind fun found static => ?_
  split
  · exact steady_pure _ (static _ rfl)
  · exact (steady_lowerExpr obj).bind fun _ _ => (steady_loadString _).bind fun _ _ =>
      steady_pure _ fun _ same => by cases same
termination_by (sizeOf obj, 2)
decreasing_by all_goals (apply Prod.Lex.right; decide)

theorem steady_lowerTarget (target : Expr) : Steady R (lowerTarget target) (Access.In R) := by
  cases target with
  | ident name =>
    rw [lowerTarget]
    exact steady_accessName name true
  | self pos =>
    rw [lowerTarget]
    exact steady_accessSelf pos true
  | member obj name =>
    rw [lowerTarget]
    exact steady_lowerMember obj name
  | index obj key =>
    rw [lowerTarget]
    exact (steady_lowerExpr obj).bind fun _ _ => (steady_lowerExpr key).bind fun _ _ =>
      steady_pure _ fun _ same => by cases same
  | _ =>
    rw [lowerTarget.eq_5 _ (fun _ => Expr.noConfusion) (fun _ => Expr.noConfusion) (fun _ _ => Expr.noConfusion)
      (fun _ _ => Expr.noConfusion)]
    exact steady_report_pure _ _ _ fun _ same => by cases same
termination_by (sizeOf target, 3)
decreasing_by all_goals (apply Prod.Lex.left; simp only [Expr.member.sizeOf_spec, Expr.index.sizeOf_spec]; omega)

end

theorem steady_lowerCondition (test : Expr) (otherwise : Nat) :
    Steady R (lowerCondition test otherwise) fun _ => True :=
  (steady_lowerExpr test).bind fun _ _ => steady_jumpUnlessTrue otherwise

end Expressions

end Lowering

end Febc
