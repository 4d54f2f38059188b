import Febc.Proofs.Assignment

/-!
# How calls are bound

A call is lowered by what its callee names. A name of a function the symbol table knows, or a
member of `this` that names an instance function of the class, is called by the function's owner
and slot: statically, or virtually on `this`. A member of a named class is a static call of that
class. Any other member call dispatches on its receiver by name, and any other callee is a value
called through the kernel. `new C(...)` makes an object of the class and runs its initializer on
a copy.

`CallCode` and `NewCode` are these rules, one constructor per way a call is bound, each with the
code it gives. Whatever the rule, the code is either one diagnostic and a null, with no argument
lowered, or the receiver the opcode takes, every argument once and in order, and one invoke of a
function entry whose descriptor takes exactly the arguments (`CallShape`). A member name that is
not a valid name stops the lowering.

Main statement: `calls_lower_by_their_callee`.
-/

namespace Febc

namespace Lowering

/-- One diagnostic, then null in place of the call's value. -/
def refusal (kind : DiagnosticKind) (pos : Position) (message : String) : LowerM Unit := do
  report kind pos message
  op .pushNull []

/-- The receiver (nothing for a static call), every argument once and in order, then the invoke
of a function entry. -/
def invocation (receiver : LowerM Unit) (args : List Expr) (o : Opcode) (ref : FunctionRef) :
    LowerM Unit := do
  receiver
  lowerArgs args
  invokeEntry o ref

/-- A function of a class, called with `arity` arguments: its slot is known for the class being
compiled. -/
def slotRef (env : FunctionEnv) (owner : BinaryName) (name : String) (arity : Nat) :
    FunctionRef :=
  ⟨owner, name, .dynamic arity, tableIndexOf env.layout owner name arity⟩

/-- The code of a call of a function the symbol table knows, with `args` for arguments. -/
inductive KnownCall (env : FunctionEnv) (args : List Expr) (owner : BinaryName) (isStatic : Bool)
    (arities : List Nat) (name : Ident) : LowerM Unit → Prop
  /-- No overload takes that many arguments. -/
  | noOverload (message : String) (missing : args.length ∉ arities) :
      KnownCall env args owner isStatic arities name (refusal .noMatchingOverload name.pos message)
  /-- The function's name is no member name. -/
  | malformed (e : NameError) (takes : args.length ∈ arities)
      (bad : checkUnqualified name.text = .error e) :
      KnownCall env args owner isStatic arities name (stop (.malformedName e))
  /-- A static function: no receiver. -/
  | static (takes : args.length ∈ arities) (good : checkUnqualified name.text = .ok ())
      (static : isStatic = true) :
      KnownCall env args owner isStatic arities name
        (invocation (pure ()) args .invokeStatic (slotRef env owner name.text args.length))
  /-- An instance function called from a static one. -/
  | fromStatic (message : String) (takes : args.length ∈ arities)
      (good : checkUnqualified name.text = .ok ()) (notStatic : isStatic = false)
      (context : env.isStatic = true) :
      KnownCall env args owner isStatic arities name
        (refusal .instanceReferenceFromStatic name.pos message)
  /-- An instance function, called on `this`. -/
  | virtual (takes : args.length ∈ arities) (good : checkUnqualified name.text = .ok ())
      (notStatic : isStatic = false) (context : env.isStatic = false) :
      KnownCall env args owner isStatic arities name
        (invocation (op .loadA [0]) args .invokeVirtual (slotRef env owner name.text args.length))

/-- A member call `obj.name(...)` dispatches on its receiver unless `obj` is `this` and `name`
an instance function of the class, or `obj` names a class. -/
def Dispatched (env : FunctionEnv) (obj : Expr) (name : Ident) : Prop :=
  match obj with
  | .self _ =>
    ∀ owner arities,
      env.symbols.resolve env.layout.scope name.text ≠ some (.function owner false arities)
  | .ident cls => ∀ owner, env.symbols.resolve env.scope cls.text ≠ some (.type owner)
  | _ => True

/-- A callee called as a value through the kernel: a name of a variable, a constant or a class,
or an expression that is neither a name nor a member. -/
def CalledValue (env : FunctionEnv) : Expr → Prop
  | .ident name =>
    ∃ sym, env.symbols.resolve env.scope name.text = some sym ∧ sym.isFunction = false
  | .member .. => False
  | _ => True

/-- The code of a call `callee(args)`, by what the callee names. -/
inductive CallCode (env : FunctionEnv) (args : List Expr) : Expr → LowerM Unit → Prop
  /-- A name that resolves to nothing. -/
  | unresolved (name : Ident) (message : String)
      (missing : env.symbols.resolve env.scope name.text = none) :
      CallCode env args (.ident name) (refusal .unresolvedSymbol name.pos message)
  /-- A name of a function. -/
  | named (name : Ident) (owner : BinaryName) (isStatic : Bool) (arities : List Nat)
      {m : LowerM Unit}
      (found : env.symbols.resolve env.scope name.text = some (.function owner isStatic arities))
      (call : KnownCall env args owner isStatic arities name m) :
      CallCode env args (.ident name) m
  /-- `this.name(...)` of an instance function of the class. -/
  | onSelf (pos : Position) (name : Ident) (owner : BinaryName) (arities : List Nat)
      {m : LowerM Unit}
      (found :
        env.symbols.resolve env.layout.scope name.text = some (.function owner false arities))
      (call : KnownCall env args owner false arities name m) :
      CallCode env args (.member (.self pos) name) m
  /-- `C.name(...)` of a class `C`: a static call of the class. -/
  | ofClass (cls name : Ident) (owner : BinaryName)
      (found : env.symbols.resolve env.scope cls.text = some (.type owner))
      (good : checkUnqualified name.text = .ok ()) :
      CallCode env args (.member (.ident cls) name)
        (invocation (pure ()) args .invokeStatic (slotRef env owner name.text args.length))
  /-- `C.name(...)` whose name is no member name. -/
  | ofClassMalformed (cls name : Ident) (owner : BinaryName) (e : NameError)
      (found : env.symbols.resolve env.scope cls.text = some (.type owner))
      (bad : checkUnqualified name.text = .error e) :
      CallCode env args (.member (.ident cls) name) (stop (.malformedName e))
  /-- Any other member call: on the object, by name. -/
  | dispatch (obj : Expr) (name : Ident) (dispatched : Dispatched env obj name)
      (good : checkUnqualified name.text = .ok ()) :
      CallCode env args (.member obj name)
        (invocation (lowerExpr obj) args .invokeDynamic
          ⟨.object, name.text, .dynamic args.length, 0⟩)
  /-- Any other member call whose name is no member name: the object, then the stop. -/
  | dispatchMalformed (obj : Expr) (name : Ident) (e : NameError)
      (dispatched : Dispatched env obj name)
      (bad : checkUnqualified name.text = .error e) :
      CallCode env args (.member obj name) (do lowerExpr obj; stop (.malformedName e))
  /-- Any other callee: its value, called through the kernel. -/
  | value (callee : Expr) (called : CalledValue env callee) :
      CallCode env args callee
        (invocation (lowerExpr callee) args .invokeDynamic (Intrinsic.invoke args.length).reference)

/-- The code of `new cls(args)`. -/
inductive NewCode (env : FunctionEnv) (args : List Expr) (cls : Ident) : LowerM Unit → Prop
  /-- A name that resolves to no class. -/
  | unresolved (message : String)
      (missing : ∀ owner, env.symbols.resolve env.scope cls.text ≠ some (.type owner)) :
      NewCode env args cls (refusal .unresolvedSymbol cls.pos message)
  /-- A new object and a copy of it, the arguments, then the class's initializer on the copy. -/
  | constructs (owner : BinaryName)
      (found : env.symbols.resolve env.scope cls.text = some (.type owner)) :
      NewCode env args cls
        (invocation (do let index ← onPool owner.intern; op .new [index]; op .duplicate []) args
          .invokeSpecial ⟨owner, initializeName, .initializer args.length, 0⟩)

/-- What every call comes to: one diagnostic of the three a call can draw and a null; or the
receiver its opcode takes, the arguments, and the invoke of a function entry whose descriptor
takes exactly the arguments; or a stop at a member name that is no name. -/
inductive CallShape (env : FunctionEnv) (args : List Expr) : LowerM Unit → Prop
  | refused (kind : DiagnosticKind) (pos : Position) (message : String)
      (drawn : kind = .unresolvedSymbol ∨ kind = .noMatchingOverload ∨
        kind = .instanceReferenceFromStatic) :
      CallShape env args (refusal kind pos message)
  | invokes (receiver : LowerM Unit) (o : Opcode) (ref : FunctionRef)
      (call : o = .invokeStatic ∨ o = .invokeVirtual ∨ o = .invokeDynamic)
      (params : ref.descriptor = .dynamic args.length)
      (receives : ∀ k, Leaves env receiver k (k + o.receivers)) :
      CallShape env args (invocation receiver args o ref)
  | halts (before : LowerM Unit) (e : NameError) :
      CallShape env args (do before; stop (.malformedName e))

/-! ## The lowering follows the rules -/

section Lowers

variable (env : FunctionEnv)

theorem run_memberName_bind_ok {α : Type} {name : Ident}
    (good : checkUnqualified name.text = .ok ()) (f : String → LowerM α) :
    (memberName name >>= f).run env = (f name.text).run env := by
  simp only [memberName, good]
  rfl

theorem run_memberName_bind_error {α : Type} {name : Ident} {e : NameError}
    (bad : checkUnqualified name.text = .error e) (f : String → LowerM α) :
    (memberName name >>= f).run env = (stop (.malformedName e) : LowerM α).run env := by
  simp only [memberName, bad]
  rfl

theorem run_functionRef_bind_ok {α : Type} {owner : BinaryName} {name : Ident} {arity : Nat}
    (good : checkUnqualified name.text = .ok ()) (f : FunctionRef → LowerM α) :
    (functionRef owner name arity >>= f).run env =
      (f (slotRef env owner name.text arity)).run env := by
  simp only [functionRef, bind_assoc]
  rw [run_memberName_bind_ok env good]
  rfl

theorem run_functionRef_bind_error {α : Type} {owner : BinaryName} {name : Ident} {arity : Nat}
    {e : NameError} (bad : checkUnqualified name.text = .error e) (f : FunctionRef → LowerM α) :
    (functionRef owner name arity >>= f).run env =
      (stop (.malformedName e) : LowerM α).run env := by
  simp only [functionRef, bind_assoc]
  exact run_memberName_bind_error env bad _

/-- A call of a function the symbol table knows follows `KnownCall`. -/
theorem knownCall_callFunction (args : List Expr) (owner : BinaryName) (isStatic : Bool)
    (arities : List Nat) (name : Ident) :
    ∃ m, KnownCall env args owner isStatic arities name m ∧
      (callFunction owner isStatic arities name args.length (lowerArgs args)).run env =
        m.run env := by
  by_cases takes : args.length ∈ arities
  · have present : arities.contains args.length = true := by simpa using takes
    simp only [callFunction, present, Bool.not_true, Bool.false_eq_true, ↓reduceIte]
    cases check : checkUnqualified name.text with
    | error e => exact ⟨_, .malformed e takes check, run_functionRef_bind_error env check _⟩
    | ok u =>
      cases isStatic with
      | true =>
        refine ⟨_, .static takes check rfl, ?_⟩
        rw [run_functionRef_bind_ok env check]
        rfl
      | false =>
        simp only [Bool.false_eq_true, ↓reduceIte]
        cases context : env.isStatic with
        | true =>
          refine ⟨_, .fromStatic ?_ takes check rfl context, ?_⟩
          rotate_left
          rw [run_functionRef_bind_ok env check, run_read_bind, context]
          rfl
        | false =>
          refine ⟨_, .virtual takes check rfl context, ?_⟩
          rw [run_functionRef_bind_ok env check, run_read_bind, context]
          rfl
  · have missing : arities.contains args.length = false := by simpa using takes
    exact ⟨_, .noOverload _ takes, by simp only [callFunction, refusal, missing]; rfl⟩

theorem run_bindMemberCall_dispatch {α : Type} {obj : Expr} {name : Ident} (arity : Nat)
    (dispatched : Dispatched env obj name) (f : MemberCall → LowerM α) :
    (bindMemberCall obj name arity >>= f).run env = (f .dispatch).run env := by
  unfold bindMemberCall
  rw [bind_assoc, run_read_bind]
  cases obj with
  | self pos =>
    cases found : env.symbols.resolve env.layout.scope name.text with
    | none => rfl
    | some sym =>
      cases sym with
      | function owner isStatic arities =>
        cases isStatic with
        | false => exact absurd found (dispatched owner arities)
        | true => rfl
      | _ => rfl
  | ident cls =>
    cases found : env.symbols.resolve env.scope cls.text with
    | none => simp only [found]; rfl
    | some sym =>
      cases sym with
      | type owner => exact absurd found (dispatched owner)
      | _ => simp only [found]; rfl
  | _ => rfl

theorem run_bindMemberCall_onSelf {α : Type} {pos : Position} {name : Ident} (arity : Nat)
    {owner : BinaryName} {arities : List Nat}
    (found : env.symbols.resolve env.layout.scope name.text = some (.function owner false arities))
    (f : MemberCall → LowerM α) :
    (bindMemberCall (.self pos) name arity >>= f).run env =
      (f (.onSelf owner arities)).run env := by
  unfold bindMemberCall
  rw [bind_assoc, run_read_bind]
  simp only [found]
  rfl

theorem run_bindMemberCall_ofClass {α : Type} {cls name : Ident} (arity : Nat) {owner : BinaryName}
    (found : env.symbols.resolve env.scope cls.text = some (.type owner))
    (good : checkUnqualified name.text = .ok ()) (f : MemberCall → LowerM α) :
    (bindMemberCall (.ident cls) name arity >>= f).run env =
      (f (.ofClass (slotRef env owner name.text arity))).run env := by
  unfold bindMemberCall
  rw [bind_assoc, run_read_bind]
  simp only [found, bind_assoc]
  rw [run_memberName_bind_ok env good]
  rfl

theorem run_bindMemberCall_ofClass_error {α : Type} {cls name : Ident} (arity : Nat)
    {owner : BinaryName} {e : NameError}
    (found : env.symbols.resolve env.scope cls.text = some (.type owner))
    (bad : checkUnqualified name.text = .error e) (f : MemberCall → LowerM α) :
    (bindMemberCall (.ident cls) name arity >>= f).run env =
      (stop (.malformedName e) : LowerM α).run env := by
  unfold bindMemberCall
  rw [bind_assoc, run_read_bind]
  simp only [found, bind_assoc]
  exact run_memberName_bind_error env bad _

/-- A callee that is neither a name nor a member is a value, called through the kernel. -/
theorem lowerExpr_call_value {callee : Expr} (notName : ∀ name, callee ≠ .ident name)
    (notMember : ∀ obj name, callee ≠ .member obj name) (args : List Expr) :
    lowerExpr (.call callee args) =
      invocation (lowerExpr callee) args .invokeDynamic
        (Intrinsic.invoke args.length).reference := by
  rw [lowerExpr]
  · rfl
  · exact notName
  · exact notMember

/-- A member call follows `CallCode`. -/
theorem callCode_member (args : List Expr) (obj : Expr) (name : Ident) :
    ∃ m, CallCode env args (.member obj name) m ∧
      (lowerExpr (.call (.member obj name) args)).run env = m.run env := by
  have dispatch (dispatched : Dispatched env obj name) :
      ∃ m, CallCode env args (.member obj name) m ∧
        (lowerExpr (.call (.member obj name) args)).run env = m.run env := by
    simp only [lowerExpr]
    rw [run_bindMemberCall_dispatch env _ dispatched]
    cases check : checkUnqualified name.text with
    | error e =>
      refine ⟨_, .dispatchMalformed obj name e dispatched check, ?_⟩
      simp only [ReaderT.run_bind, run_memberName_bind_error env check]
    | ok u =>
      refine ⟨_, .dispatch obj name dispatched check, ?_⟩
      simp only [invocation, ReaderT.run_bind, run_memberName_bind_ok env check]
      rfl
  cases obj with
  | self pos =>
    cases found : env.symbols.resolve env.layout.scope name.text with
    | none => exact dispatch fun _ _ => by simp [found]
    | some sym =>
      cases sym with
      | function owner isStatic arities =>
        cases isStatic with
        | false =>
          obtain ⟨m, call, lowers⟩ := knownCall_callFunction env args owner false arities name
          refine ⟨m, .onSelf pos name owner arities found call, ?_⟩
          simp only [lowerExpr]
          rw [run_bindMemberCall_onSelf env _ found]
          exact lowers
        | true => exact dispatch fun _ _ => by simp [found]
      | _ => exact dispatch fun _ _ => by simp [found]
  | ident cls =>
    cases found : env.symbols.resolve env.scope cls.text with
    | none => exact dispatch fun _ => by simp [found]
    | some sym =>
      cases sym with
      | type owner =>
        cases check : checkUnqualified name.text with
        | error e =>
          refine ⟨_, .ofClassMalformed cls name owner e found check, ?_⟩
          simp only [lowerExpr]
          exact run_bindMemberCall_ofClass_error env _ found check _
        | ok u =>
          refine ⟨_, .ofClass cls name owner found check, ?_⟩
          simp only [lowerExpr]
          rw [run_bindMemberCall_ofClass env _ found check]
          rfl
      | _ => exact dispatch fun _ => by simp [found]
  | _ => exact dispatch trivial

/-- Every call follows `CallCode`. -/
theorem callCode_lowerExpr (args : List Expr) (callee : Expr) :
    ∃ m, CallCode env args callee m ∧ (lowerExpr (.call callee args)).run env = m.run env := by
  cases callee with
  | ident name =>
    simp only [lowerExpr]
    rw [resolve_bind, run_read_bind]
    cases found : env.symbols.resolve env.scope name.text with
    | none => exact ⟨_, .unresolved name _ found, rfl⟩
    | some sym =>
      cases sym with
      | function owner isStatic arities =>
        obtain ⟨m, call, lowers⟩ := knownCall_callFunction env args owner isStatic arities name
        exact ⟨m, .named name owner isStatic arities found call, lowers⟩
      | _ =>
        refine ⟨_, .value _ ⟨_, found, rfl⟩, ?_⟩
        simp only [invocation, lowerExpr, bind_assoc]
        rfl
  | member obj name => exact callCode_member env args obj name
  | _ => exact ⟨_, .value _ trivial, by rw [lowerExpr_call_value] <;> simp⟩

/-- Every `new` follows `NewCode`. -/
theorem newCode_lowerExpr (args : List Expr) (cls : Ident) :
    ∃ m, NewCode env args cls m ∧ (lowerExpr (.new cls args)).run env = m.run env := by
  simp only [lowerExpr]
  rw [resolve_bind, run_read_bind]
  cases found : env.symbols.resolve env.scope cls.text with
  | none => exact ⟨_, .unresolved _ (by simp [found]), rfl⟩
  | some sym =>
    cases sym with
    | type owner =>
      refine ⟨_, .constructs owner found, ?_⟩
      simp only [invocation, bind_assoc]
      rfl
    | _ => exact ⟨_, .unresolved _ (by simp [found]), rfl⟩

end Lowers

/-! ## What the rules come to -/

section Shape

variable {env : FunctionEnv} {args : List Expr}

theorem CallShape.halts_now (e : NameError) : CallShape env args (stop (.malformedName e)) := by
  simpa using (CallShape.halts (pure ()) e : CallShape env args _)

theorem KnownCall.shape {owner : BinaryName} {isStatic : Bool} {arities : List Nat} {name : Ident}
    {m : LowerM Unit} (call : KnownCall env args owner isStatic arities name m) :
    CallShape env args m := by
  cases call with
  | noOverload message _ => exact .refused _ _ _ (Or.inr (Or.inl rfl))
  | malformed e _ _ => exact .halts_now e
  | static _ _ _ => exact .invokes _ _ _ (Or.inl rfl) rfl fun k => leaves_pure k
  | fromStatic message _ _ _ _ => exact .refused _ _ _ (Or.inr (Or.inr rfl))
  | virtual _ _ _ _ => exact .invokes _ _ _ (Or.inr (Or.inl rfl)) rfl fun k => leaves_loadA 0 k

theorem CallCode.shape {callee : Expr} {m : LowerM Unit} (code : CallCode env args callee m) :
    CallShape env args m := by
  cases code with
  | unresolved name message _ => exact .refused _ _ _ (Or.inl rfl)
  | named _ _ _ _ _ call => exact call.shape
  | onSelf _ _ _ _ _ call => exact call.shape
  | ofClass _ _ _ _ _ => exact .invokes _ _ _ (Or.inl rfl) rfl fun k => leaves_pure k
  | ofClassMalformed _ _ _ e _ _ => exact .halts_now e
  | dispatch obj _ _ _ =>
    exact .invokes _ _ _ (Or.inr (Or.inr rfl)) rfl fun k => leaves_lowerExpr obj env k
  | dispatchMalformed obj _ e _ _ => exact .halts _ e
  | value callee _ =>
    exact .invokes _ _ _ (Or.inr (Or.inr rfl)) rfl fun k => leaves_lowerExpr callee env k

end Shape

/-- Every call is lowered by the rule its callee selects, and comes to one diagnostic and a
null with no argument lowered, or to the receiver its opcode takes, every argument once and in
order, and one invoke of a function entry that takes exactly the arguments; every `new` to one
diagnostic and a null, or to a new object, a copy of it, the arguments, and the class's
initializer of that arity. -/
theorem calls_lower_by_their_callee (env : FunctionEnv) (args : List Expr) :
    (∀ callee, ∃ m, (lowerExpr (.call callee args)).run env = m.run env ∧
      CallCode env args callee m ∧ CallShape env args m) ∧
    ∀ cls, ∃ m, (lowerExpr (.new cls args)).run env = m.run env ∧ NewCode env args cls m := by
  constructor
  · intro callee
    obtain ⟨m, code, lowers⟩ := callCode_lowerExpr env args callee
    exact ⟨m, lowers, code, code.shape⟩
  · intro cls
    obtain ⟨m, code, lowers⟩ := newCode_lowerExpr env args cls
    exact ⟨m, lowers, code⟩

end Lowering

end Febc
