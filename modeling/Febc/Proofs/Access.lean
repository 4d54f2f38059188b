import Febc.Lowering.Expr
import Febc.Proofs.Steps

/-!
# Places, calls and values keep the stack balanced

Reaching a place pushes what the place holds (`Access.held`): nothing for a local or a static
field, the receiver for an instance field, an object and a key for a member or a subscript
reached through the kernel, and the value itself for a function or a class used as a value.
Loading through the place replaces what it holds by its value, storing takes the value on top
and leaves it there, and duplicating the address doubles what it holds. A call pushes exactly
its result, whether it is bound statically, dispatched, or reported and replaced by null.

Main statements:
* `leaves_load`, `leaves_store`, `leaves_duplicateAddress`: the stack effect of each use of a
  place;
* `runs_accessName`: a name reaches a place whose field entry fits its operand, and a place to
  assign to is never a bare value;
* `leaves_callFunction`: a call of a known function leaves one value.
-/

namespace Febc

namespace Access

/-- How many values stand on the stack for a place once it is reached: what reaches it, or the
value itself when the place is only a value. -/
def held : Access → Nat
  | .value => 1
  | a => a.addressSize

/-- The field entry a place names is a field of the pool. -/
def Refers (entries : Array Constant) : Access → Prop
  | .staticField f | .instanceField f => Names entries f Constant.isField
  | _ => True

theorem Refers.mono {entries entries' : Array Constant} {a : Access} (refers : a.Refers entries)
    (grown : entries.toList <+: entries'.toList) : a.Refers entries' := by
  cases a <;> first | exact Names.mono refers grown | trivial

end Access

namespace Lowering

section Places

variable {env : FunctionEnv} {s : Lowering} {h : Nat → Nat}

theorem Leaves.read_bind {f : FunctionEnv → LowerM Unit} {k k' : Nat} (leaves : Leaves env (f env) k k') :
    Leaves env (read >>= f) k k' := leaves

theorem Leaves.withScope {scope : Nat} {m : LowerM Unit} {k k' : Nat}
    (leaves : Leaves { env with scope := scope } m k k') : Leaves env (withScope (some scope) m) k k' := leaves

theorem resolve_bind {α : Type} (name : String) (f : Option Symbol → LowerM α) :
    (resolve name >>= f) = (read >>= fun env => f (env.symbols.resolve env.scope name)) := by
  simp [resolve]

theorem Leaves.cast {m : LowerM Unit} {k₁ k₂ j₁ j₂ : Nat} (leaves : Leaves env m k₁ k₂) (start : k₁ = j₁)
    (finish : k₂ = j₂) : Leaves env m j₁ j₂ := start ▸ finish ▸ leaves

theorem leaves_report (kind : DiagnosticKind) (pos : Position) (message : String) (k : Nat) :
    Leaves env (report kind pos message) k k := fun _ _ holds =>
  (runs_report kind pos message).mono fun _ _ _ _ _ ⟨still, _, _⟩ => ⟨still.holds holds, still.contained []⟩

theorem leaves_pushNull (k : Nat) : Leaves env (op .pushNull []) k (k + 1) :=
  leaves_op (o := .pushNull) ⟨rfl, rfl, rfl⟩ rfl (by simp [Opcode.operands]) rfl rfl (Nat.zero_le k) (by push_cast; rfl)

theorem leaves_duplicate (k : Nat) : Leaves env (op .duplicate []) (k + 1) (k + 2) :=
  leaves_op (o := .duplicate) ⟨rfl, rfl, rfl⟩ rfl (by simp [Opcode.operands]) rfl rfl (Nat.le_add_left 1 k)
    (by push_cast; omega)

theorem leaves_pop (k : Nat) : Leaves env (op .pop []) (k + 1) k :=
  leaves_op (o := .pop) ⟨rfl, rfl, rfl⟩ rfl (by simp [Opcode.operands]) rfl rfl (Nat.le_add_left 1 k)
    (by push_cast; omega)

/-- Loading a local slot; a slot past one byte stops with an allowed error. -/
theorem leaves_loadA (slot k : Nat) : Leaves env (op .loadA [slot]) k (k + 1) :=
  leaves_op (o := .loadA) ⟨rfl, rfl, rfl⟩ rfl (by simp [Opcode.operands]) rfl rfl (Nat.zero_le k) (by push_cast; rfl)

theorem leaves_storeA (slot k : Nat) : Leaves env (op .storeA [slot]) (k + 1) k :=
  leaves_op (o := .storeA) ⟨rfl, rfl, rfl⟩ rfl (by simp [Opcode.operands]) rfl rfl (Nat.le_add_left 1 k)
    (by push_cast; omega)

theorem leaves_loadStaticField {entries : Array Constant} {f : Nat} (names : Names entries f Constant.isField)
    (k : Nat) : LeavesAbove entries env (op .loadStaticField [f]) k (k + 1) :=
  leaves_poolOp (o := .loadStaticField) ⟨rfl, rfl⟩ rfl rfl rfl (Nat.zero_le k) (by push_cast; rfl) names

theorem leaves_loadInstanceField {entries : Array Constant} {f : Nat} (names : Names entries f Constant.isField)
    (k : Nat) : LeavesAbove entries env (op .loadInstanceField [f]) (k + 1) (k + 1) :=
  leaves_poolOp (o := .loadInstanceField) ⟨rfl, rfl⟩ rfl rfl rfl (Nat.le_add_left 1 k) (by push_cast; omega) names

/-- Loading through a place replaces what it holds by its value; an invalid place loads null. -/
theorem leaves_load (a : Access) {entries : Array Constant} (refers : a.Refers entries) (k : Nat) :
    LeavesAbove entries env a.load (k + a.held) (k + 1) := by
  cases a with
  | slot i => exact (leaves_loadA i k).above entries
  | staticField f => exact leaves_loadStaticField refers k
  | instanceField f => exact leaves_loadInstanceField refers k
  | dynamicMember => exact (leaves_callIntrinsic .loadField k).above entries
  | subscript => exact (leaves_callIntrinsic .loadSubscript k).above entries
  | value => exact (leaves_pure (k + 1)).above entries
  | invalid => exact (leaves_pushNull k).above entries

/-- Storing through a place takes the value on top and what the place holds, and pushes the value
back: an assignment is an expression. -/
theorem leaves_store (a : Access) {entries : Array Constant} (refers : a.Refers entries) (storable : a ≠ .value)
    (k : Nat) : LeavesAbove entries env a.store (k + a.held + 1) (k + 1) := by
  cases a with
  | slot i => exact ((leaves_duplicate k).seq fun _ => leaves_storeA i (k + 1)).above entries
  | staticField f =>
    exact ((leaves_duplicate k).above entries).seq fun _ =>
      leaves_poolOp (o := .storeStaticField) ⟨rfl, rfl⟩ rfl rfl rfl (Nat.le_add_left 1 _) (by push_cast; omega)
        refers
  | instanceField f =>
    exact ((leaves_op (o := .duplicateX1) (k := k + 2) ⟨rfl, rfl, rfl⟩ rfl (by simp [Opcode.operands])
      rfl rfl (Nat.le_add_left 2 k) (show ((k + 3 : Nat) : Int) = _ by push_cast; omega)).above entries).seq fun _ =>
        leaves_poolOp (o := .storeInstanceField) ⟨rfl, rfl⟩ rfl rfl rfl (Nat.le_add_left 2 _) (by push_cast; omega)
          refers
  | dynamicMember => exact (leaves_callIntrinsic .storeField k).above entries
  | subscript => exact (leaves_callIntrinsic .storeSubscript k).above entries
  | value => exact absurd rfl storable
  | invalid => exact (leaves_pure (k + 1)).above entries

/-- Duplicating the address of a place, to load it and store it in one assignment. -/
theorem leaves_duplicateAddress (a : Access) (storable : a ≠ .value) (k : Nat) :
    Leaves env a.duplicateAddress (k + a.held) (k + a.held + a.held) := by
  cases a with
  | instanceField f => exact leaves_duplicate k
  | dynamicMember | subscript =>
    exact leaves_op (o := .duplicate2) ⟨rfl, rfl, rfl⟩ rfl (by simp [Opcode.operands]) rfl rfl (Nat.le_add_left 2 k)
      (by simp only [Access.held, Access.addressSize]; push_cast; omega)
  | value => exact absurd rfl storable
  | slot | staticField | invalid => exact leaves_pure k

end Places

/-! ## Names -/

/-- A place reached from a stack of `k` values: what it holds stands above them, the field entry
it names is a field of the pool, and nothing around it changed. -/
def Reaches (s : Lowering) (k : Nat) (a : Access) (s' : Lowering) : Prop :=
  s'.Holds (k + a.held) ∧ Contained [] s s' ∧ a.Refers s'.pool.entries

section Names

variable {env : FunctionEnv} {s : Lowering} {h : Nat → Nat}

theorem runs_memberName (name : Ident) :
    Runs env s h (memberName name) fun text s' h' => text = name.text ∧ s' = s ∧ h' = h := by
  unfold memberName
  split
  · exact runs_pure _ ⟨rfl, rfl, rfl⟩
  · exact runs_of_error rfl trivial

theorem runs_fieldEntry (owner : BinaryName) (name : Ident) :
    Runs env s h (fieldEntry owner name) fun f s' _ => Still s s' ∧ Names s'.pool.entries f Constant.isField := by
  apply Runs.bind (runs_memberName name)
  rintro text s₁ h₁ - - ⟨-, rfl, rfl⟩
  exact (runs_onPool (ConstantPool.interns_fieldRef _)).mono fun _ _ _ _ _ ⟨still, _, _, _, _, names⟩ =>
    ⟨still, names⟩

theorem runs_functionRef (owner : BinaryName) (name : Ident) (arity : Nat) :
    Runs env s h (functionRef owner name arity) fun ref s' h' =>
      ref.descriptor = .dynamic arity ∧ s' = s ∧ h' = h := by
  apply Runs.bind (runs_memberName name)
  rintro text s₁ h₁ - - ⟨-, rfl, rfl⟩
  exact Runs.read_bind (runs_pure _ ⟨rfl, rfl, rfl⟩)

/-- Reporting a problem and going on with an invalid place: nothing is pushed. -/
theorem runs_reportInvalid (kind : DiagnosticKind) (pos : Position) (message : String) {k : Nat}
    (holds : s.Holds k) :
    Runs env s h (do report kind pos message; pure Access.invalid) fun a s' _ => Reaches s k a s' ∧ a ≠ .value := by
  apply Runs.bind (runs_report kind pos message)
  rintro _ s₁ h₁ - - ⟨still, -, rfl⟩
  exact runs_pure _ ⟨⟨still.holds holds, still.contained [], trivial⟩, nofun⟩

/-- The receiver `this`, loaded from slot zero. -/
theorem runs_loadSelf {a : Access} (held : a.held = 1) (refers : a.Refers s.pool.entries) {k : Nat}
    (holds : s.Holds k) :
    Runs env s h (do op .loadA [0]; pure a) fun b s' _ => b = a ∧ Reaches s k b s' := by
  apply Runs.bind (leaves_loadA 0 k s h holds)
  rintro _ s₁ h₁ - grown₁ ⟨holds₁, contained⟩
  exact runs_pure _ ⟨rfl, by rw [held]; exact holds₁, contained, refers.mono grown₁.pool⟩

/-- A variable is a slot or a field; an instance field of a static function is reported. -/
theorem runs_accessVariable (name : Ident) (storage : Storage) {k : Nat} (holds : s.Holds k) :
    Runs env s h (accessVariable name storage) fun a s' _ => Reaches s k a s' ∧ a ≠ .value := by
  cases storage with
  | slot i => exact runs_pure _ ⟨⟨holds, Contained.refl [] s, trivial⟩, nofun⟩
  | field owner isStatic =>
    apply Runs.bind (runs_fieldEntry owner name)
    rintro f s₁ h₁ - grown₁ ⟨still, names⟩
    cases isStatic with
    | true => exact runs_pure _ ⟨⟨still.holds holds, still.contained [], names⟩, nofun⟩
    | false =>
      apply Runs.read_bind
      split
      · exact (runs_reportInvalid _ _ _ (still.holds holds)).mono fun _ _ _ _ grown₂ ⟨⟨holds₂, contained, wide⟩, ne⟩ =>
          ⟨⟨holds₂, (still.contained []).trans contained, wide⟩, ne⟩
      · exact (runs_loadSelf (a := .instanceField f) rfl names (still.holds holds)).mono
          fun _ _ _ _ grown₂ ⟨same, holds₂, contained, wide⟩ =>
            ⟨⟨holds₂, (still.contained []).trans contained, wide⟩, by rw [same]; exact nofun⟩

/-- A function or a class used as a value: its pool entry is pushed, and it is the value. -/
theorem runs_pushEntry {m : LowerM Nat}
    (interned : Runs env s h m fun i s' _ => Still s s' ∧ Names s'.pool.entries i Constant.isLoadable) {k : Nat}
    (holds : s.Holds k) :
    Runs env s h (do let index ← m; loadConstant index; pure Access.value) fun a s' _ => Reaches s k a s' := by
  apply Runs.bind interned
  rintro index s₁ h₁ - grown₁ ⟨still, names⟩
  apply Runs.bind (leaves_loadConstant names k s₁ h₁ (still.holds holds) (List.prefix_refl _))
  rintro _ s₂ h₂ - grown₂ ⟨holds₂, contained⟩
  exact runs_pure _ ⟨holds₂, (still.contained []).trans contained, trivial⟩

/-- A name reaches the place of its symbol. An unknown name, a constant or a function assigned
to, and an overloaded function used as a value are reported, and reach nothing. -/
theorem runs_accessName (name : Ident) (forWrite : Bool) {k : Nat} (holds : s.Holds k) :
    Runs env s h (accessName name forWrite) fun a s' _ => Reaches s k a s' ∧ (forWrite = true → a ≠ .value) := by
  rw [accessName, resolve_bind]
  apply Runs.read_bind
  have invalid : ∀ kind pos message, Runs env s h (do report kind pos message; pure Access.invalid)
      fun a s' _ => Reaches s k a s' ∧ (forWrite = true → a ≠ .value) := fun kind pos message =>
    (runs_reportInvalid kind pos message holds).mono fun _ _ _ _ _ ⟨reaches, ne⟩ => ⟨reaches, fun _ => ne⟩
  have variable_ : ∀ storage, Runs env s h (accessVariable name storage)
      fun a s' _ => Reaches s k a s' ∧ (forWrite = true → a ≠ .value) := fun storage =>
    (runs_accessVariable name storage holds).mono fun _ _ _ _ _ ⟨reaches, ne⟩ => ⟨reaches, fun _ => ne⟩
  split
  · exact invalid _ _ _
  · split
    · exact invalid _ _ _
    · exact variable_ _
  · exact variable_ _
  · split
    · exact invalid _ _ _
    · rename_i reading
      split
      · exact invalid _ _ _
      · apply Runs.bind (runs_functionRef _ name _)
        rintro ref _ _ - - ⟨-, rfl, rfl⟩
        exact (runs_pushEntry ((runs_onPool (ConstantPool.interns_functionRef ref)).mono
          fun _ _ _ _ _ ⟨still, _, _, _, _, describes⟩ => ⟨still, describes.loadable⟩) holds).mono
          fun _ _ _ _ _ reaches => ⟨reaches, fun writing => absurd writing reading⟩
  · split
    · exact invalid _ _ _
    · rename_i reading
      exact (runs_pushEntry ((runs_onPool (ConstantPool.interns_binaryName _)).mono
        fun _ _ _ _ _ ⟨still, _, _, _, _, names⟩ => ⟨still, names.loadable_of_class⟩) holds).mono
        fun _ _ _ _ _ reaches => ⟨reaches, fun writing => absurd writing reading⟩

/-- `this` is the receiver in slot zero; it cannot be assigned to, and a static function has
none. -/
theorem runs_accessSelf (pos : Position) (forWrite : Bool) {k : Nat} (holds : s.Holds k) :
    Runs env s h (accessSelf pos forWrite) fun a s' _ => Reaches s k a s' ∧ (forWrite = true → a ≠ .value) := by
  unfold accessSelf
  cases forWrite with
  | true => exact (runs_reportInvalid _ _ _ holds).mono fun _ _ _ _ _ ⟨reaches, ne⟩ => ⟨reaches, fun _ => ne⟩
  | false =>
    apply Runs.read_bind
    split
    · exact (runs_reportInvalid _ _ _ holds).mono fun _ _ _ _ _ ⟨reaches, ne⟩ => ⟨reaches, fun _ => ne⟩
    · exact (runs_loadSelf (a := .value) rfl trivial holds).mono fun _ _ _ _ _ ⟨_, reaches⟩ => ⟨reaches, nofun⟩

/-- A member reached without the kernel: a field of the class on `this`, or a static field of a
named class. Nothing happens when there is none. -/
theorem runs_staticMember (obj : Expr) (name : Ident) {k : Nat} (holds : s.Holds k) :
    Runs env s h (staticMember? obj name) fun r s' h' =>
      (r = none → s' = s ∧ h' = h) ∧ ∀ a, r = some a → Reaches s k a s' ∧ a ≠ .value := by
  have nothing : Runs env s h (pure none) fun (r : Option Access) s' h' =>
      (r = none → s' = s ∧ h' = h) ∧ ∀ a, r = some a → Reaches s k a s' ∧ a ≠ .value :=
    runs_pure none ⟨fun _ => ⟨rfl, rfl⟩, by simp⟩
  unfold staticMember?
  apply Runs.read_bind
  cases obj with
  | self pos =>
    dsimp only
    split
    · exact nothing
    · split
      · exact Runs.map ((runs_accessVariable name _ holds).mono fun _ _ _ _ _ reached =>
          ⟨by simp, fun _ same => by cases same; exact reached⟩)
      · exact nothing
  | ident cls =>
    dsimp only
    split
    · apply Runs.bind (runs_fieldEntry _ name)
      rintro f s₁ h₁ - - ⟨still, names⟩
      exact runs_pure _ ⟨by simp, fun _ same => by
        cases same
        exact ⟨⟨still.holds holds, still.contained [], names⟩, by simp⟩⟩
    · exact nothing
  | _ => exact nothing

end Names

/-! ## Calls and values -/

section Calls

variable {env : FunctionEnv}

theorem leaves_reportNull (kind : DiagnosticKind) (pos : Position) (message : String) (k : Nat) :
    Leaves env (do report kind pos message; op .pushNull []) k (k + 1) :=
  (leaves_report kind pos message k).seq fun _ => leaves_pushNull k

theorem leaves_unresolvedClass (cls : Ident) (k : Nat) : Leaves env (unresolvedClass cls) k (k + 1) :=
  leaves_reportNull _ _ _ k

theorem leaves_unresolvedFunction (name : Ident) (k : Nat) : Leaves env (unresolvedFunction name) k (k + 1) :=
  leaves_reportNull _ _ _ k

theorem params_dynamic (arity : Nat) : (FunctionDescriptor.dynamic arity).params.length = arity := by
  simp [FunctionDescriptor.dynamic]

/-- Pushing the arguments of a call, then invoking it, leaves its result. -/
theorem leaves_invoke {o : Opcode} (invoke_ : o.isInvoke = true) {ref : FunctionRef} {arity : Nat}
    (dynamic : ref.descriptor = .dynamic arity) {args : LowerM Unit}
    (pushes : ∀ j, Leaves env args j (j + arity)) (k : Nat) :
    Leaves env (invoke o ref args) (k + o.receivers) (k + 1) :=
  (pushes (k + o.receivers)).seq fun _ =>
    (leaves_invokeEntry (k := k) invoke_ ref rfl rfl).cast (by rw [dynamic, params_dynamic]; omega)
      (by rw [dynamic]; rfl)

/-- Pushing the arguments of an initializer, then invoking it on the object below them, leaves
nothing of them. -/
theorem leaves_initialize {ref : FunctionRef} {arity : Nat} (initializer : ref.descriptor = .initializer arity)
    {args : LowerM Unit} (pushes : ∀ j, Leaves env args j (j + arity)) (k : Nat) :
    Leaves env (invoke .invokeSpecial ref args) (k + 1) k :=
  (pushes (k + 1)).seq fun _ =>
    (leaves_invokeEntry (k := k) (o := .invokeSpecial) rfl ref rfl rfl).cast
      (by simp [initializer, FunctionDescriptor.initializer, Opcode.receivers]; omega)
      (by simp [initializer, FunctionDescriptor.initializer])

/-- A call of a function the symbol table knows leaves one value: its result, or null when no
overload takes that many arguments or an instance function is called from a static one. -/
theorem leaves_callFunction (owner : BinaryName) (isStatic : Bool) (arities : List Nat) (name : Ident)
    (arity : Nat) {args : LowerM Unit} (pushes : ∀ j, Leaves env args j (j + arity)) (k : Nat) :
    Leaves env (callFunction owner isStatic arities name arity args) k (k + 1) := by
  unfold callFunction
  split
  · exact leaves_reportNull _ _ _ k
  · intro s h holds
    apply Runs.bind (runs_functionRef owner name arity)
    rintro ref s₁ h₁ - - ⟨dynamic, rfl, rfl⟩
    cases isStatic with
    | true => exact leaves_invoke (o := .invokeStatic) rfl dynamic pushes k s₁ h₁ holds
    | false =>
      apply Runs.read_bind
      split
      · exact leaves_reportNull _ _ _ k s₁ h₁ holds
      · exact ((leaves_loadA 0 k).seq fun _ => leaves_invoke (o := .invokeVirtual) rfl dynamic pushes k) s₁ h₁ holds

/-- Binding a member call emits nothing; a call of a named class's function is a dynamic call of
its arity. -/
theorem runs_bindMemberCall (obj : Expr) (name : Ident) (arity : Nat) {s : Lowering} {h : Nat → Nat} :
    Runs env s h (bindMemberCall obj name arity) fun c s' h' =>
      s' = s ∧ h' = h ∧ ∀ ref, c = .ofClass ref → ref.descriptor = .dynamic arity := by
  unfold bindMemberCall
  apply Runs.read_bind
  cases obj with
  | self pos =>
    dsimp only
    split
    · exact runs_pure _ ⟨rfl, rfl, nofun⟩
    · exact runs_pure _ ⟨rfl, rfl, nofun⟩
  | ident cls =>
    dsimp only
    split
    · apply Runs.bind (runs_memberName name)
      rintro text _ _ - - ⟨-, rfl, rfl⟩
      exact runs_pure _ ⟨rfl, rfl, fun _ same => by cases same; rfl⟩
    · exact runs_pure _ ⟨rfl, rfl, nofun⟩
  | _ => exact runs_pure _ ⟨rfl, rfl, nofun⟩

/-- A new list or map: the object, a copy consumed by its initializer. -/
theorem leaves_construct (cls : BinaryName) {init : Intrinsic} (initializes : init.takes = 1 ∧ init.gives = 0)
    (k : Nat) : Leaves env (construct cls init) k (k + 1) :=
  Leaves.after_pool (ConstantPool.interns_binaryName cls) fun _ p names =>
    (leaves_poolOp (o := .new) ⟨rfl, rfl⟩ rfl rfl rfl (Nat.zero_le k) (by push_cast; rfl) names).seq fun _ =>
      ((leaves_duplicate k).above p.entries).seq fun _ => by
        have call : Leaves env (callIntrinsic init) (k + 1 + init.takes) (k + 1 + init.gives) :=
          leaves_callIntrinsic init (k + 1)
        rw [initializes.1, initializes.2] at call
        exact call.above p.entries

theorem leaves_evaluateBinary (o : BinaryOp) (k : Nat) : Leaves env (evaluateBinary o) (k + 2) (k + 1) :=
  (leaves_loadString o.symbol (k + 2)).seq fun _ => leaves_callIntrinsic .evaluateBinary k

theorem leaves_evaluateUnary (o : UnaryOp) (k : Nat) : Leaves env (evaluateUnary o) (k + 1) (k + 1) :=
  (leaves_loadString o.symbol (k + 1)).seq fun _ => leaves_callIntrinsic .evaluateUnary k

/-- A literal pushes its value: a boxed primitive, a string, a boolean constant or null. -/
theorem leaves_lowerLiteral (lit : Literal) (k : Nat) : Leaves env (lowerLiteral lit) k (k + 1) := by
  have boxed : ∀ (data : ConstantData) (box : Intrinsic), box.takes = 1 → box.gives = 1 →
      Leaves env (lowerLiteral.boxed data box) k (k + 1) := fun data box takes gives =>
    Leaves.after_pool (ConstantPool.interns_constantData data) fun _ p names =>
      (leaves_loadConstant names k).seq fun _ => by
        have call : Leaves env (callIntrinsic box) (k + box.takes) (k + box.gives) := leaves_callIntrinsic box k
        rw [takes, gives] at call
        exact call.above p.entries
  cases lit with
  | integer v => exact boxed _ _ rfl rfl
  | long v => exact boxed _ _ rfl rfl
  | float bits => exact boxed _ _ rfl rfl
  | double bits => exact boxed _ _ rfl rfl
  | string text => exact leaves_loadString text k
  | boolean b => cases b <;> exact leaves_loadBoolean _ k
  | null => exact leaves_pushNull k

end Calls

end Lowering

end Febc
