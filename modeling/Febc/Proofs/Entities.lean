import Febc.Proofs.Classes

/-!
# What every compiled entity satisfies

The code of every function of every entity a unit compiles to is what `InstructionAttribute.Compiled`
describes, read in the entity's own pool; each statement below reads one part of it off
`Session.returns_compileUnit`. They hold of every entity that is answered, whatever the scopes and
whatever was reported, from channels none of which is open: those of a new session, and those every
class leaves behind.

Main statements:
* `compiled_jumps_stay_in_code`: jumps land on instructions, the code never runs off its end, and
  the returns match the descriptor;
* `compileUnit_stops_only_on_limits`: with scopes of the expected kinds, compiling stops only on
  a limit of the format or a malformed name;
* `compiled_code_is_stack_consistent`: a height at every offset that every instruction respects;
* `compiled_rows_are_well_formed` and `compiled_rows_nest_innermost_first`: the exception table;
* `compiled_references_are_typed`: every pool index an entity holds, in its code or outside it,
  names an entry of its own pool of the kind the format asks for.
-/

namespace Febc

open Lowering Session

variable (c : Compiler) (unit : CompilationUnit) (session : Session)

/-- Every entity a unit compiles to has its functions compiled in its own pool. -/
theorem compileUnit_compiled (idle : session.channels.Idle) :
    Returns (fun _ => True) (runStep ((compileUnit unit).run c) session) fun entities _ =>
      ∀ e ∈ entities, e.entity.Compiled :=
  (returns_compileUnit (fun _ _ => trivial) unit (.inr fun _ _ => ⟨trivial, trivial⟩) idle).mono
    fun _ _ written e mem => (written.2 e mem).1

/-- The scopes of a unit that declares the class `demo/Main` and sees the class `demo/Error`:
scope 1 is the class, scope 2 its static function with one local, and scope 3 the block of a
catch clause, which binds `e` to that local. -/
def guardedCompiler : Compiler :=
  ⟨{}, ⟨#[⟨.unit, none, [("Error", .type ⟨"demo/Error"⟩)]⟩, ⟨.type ⟨"demo/Main"⟩, some 0, []⟩,
    ⟨.function true 1, some 1, []⟩, ⟨.block, some 2, [("e", .var (.slot 0))]⟩]⟩⟩

/-- The unit `class Main { static f() { try { true; } catch (Error e) {} finally {} } }`. -/
def guardedUnit : CompilationUnit :=
  ⟨[⟨⟨"Main", ⟨1, 7⟩⟩, 0, [], [.function ⟨⟨"f", ⟨2, 10⟩⟩, false, 8, [],
    some (.mk [.guarded (.mk [.eval (.literal (.boolean true) ⟨3, 11⟩)] none)
      [.mk [⟨"Error", ⟨4, 14⟩⟩] ⟨"e", ⟨4, 20⟩⟩ (.mk [] (some 3))] (some (.mk [] none))] none), 2⟩], 1⟩], 0⟩

/-- Control never leaves the code of a compiled function: every jump lands on an instruction of the
same code, the last instruction never falls through, and the function returns a value exactly
when the descriptor it names has a result. -/
theorem compiled_jumps_stay_in_code (idle : session.channels.Idle) :
    Returns (fun _ => True) (runStep ((compileUnit unit).run c) session) fun entities _ =>
      ∀ e ∈ entities, ∀ m ∈ e.entity.functions, ∃ d : FunctionDescriptor,
        e.entity.constants[m.descriptorIndex - 1]? = some (.utf8 d.render) ∧
        ∀ attr ∈ m.attributes, ∃ (a : InstructionAttribute) (is : List Instruction),
          attr.info = a.serialize ∧ decode a.code = .ok is ∧
          (∀ i ∈ is, ∀ t, i.jumpTarget? = some t → Starts is t ∧ t < a.code.length) ∧
          (∃ i, is.getLast? = some i ∧ i.opcode.isUnconditional = true) ∧
          ∀ i ∈ is, (i.opcode = .ret → d.ret = none) ∧ (i.opcode = .retA → d.ret.isSome) := by
  apply (compileUnit_compiled c unit session idle).mono
  intro entities _ compiled e mem m member
  obtain ⟨d, described, attributes⟩ := compiled e mem m member
  refine ⟨d, described, fun attr held => ?_⟩
  obtain ⟨a, is, info, code⟩ := attributes attr held
  refine ⟨a, is, info, code.decodes, code.jumps, code.stops, fun i mem => ?_⟩
  obtain ⟨ret, retA⟩ := code.returns i mem
  constructor
  · intro isRet
    simpa using ret isRet
  · intro isRetA
    simpa using retA isRetA

theorem compiled_jumps_stay_in_code_of_new_session :
    ({} : Session).channels.Idle ∧
    Returns (fun _ => True) (runStep ((compileUnit guardedUnit).run guardedCompiler) {}) fun entities _ =>
      ∀ e ∈ entities, ∀ m ∈ e.entity.functions, ∃ d : FunctionDescriptor,
        e.entity.constants[m.descriptorIndex - 1]? = some (.utf8 d.render) ∧
        ∀ attr ∈ m.attributes, ∃ (a : InstructionAttribute) (is : List Instruction),
          attr.info = a.serialize ∧ decode a.code = .ok is ∧
          (∀ i ∈ is, ∀ t, i.jumpTarget? = some t → Starts is t ∧ t < a.code.length) ∧
          (∃ i, is.getLast? = some i ∧ i.opcode.isUnconditional = true) ∧
          ∀ i ∈ is, (i.opcode = .ret → d.ret = none) ∧ (i.opcode = .retA → d.ret.isSome) :=
  ⟨ChannelSet.idle_empty, compiled_jumps_stay_in_code guardedCompiler guardedUnit {} ChannelSet.idle_empty⟩

/-- Compiling a unit whose classes and functions have scopes of the kinds compiling expects, from
channels none of which is open, keeps every promise of the layers below: it stops only on a limit
of the format or a malformed name. -/
theorem compileUnit_stops_only_on_limits (kinds : ∀ cls ∈ unit.classes, cls.Scoped c.symbols)
    (idle : session.channels.Idle) :
    Returns Halt.Allowed (runStep ((compileUnit unit).run c) session) fun _ _ => True :=
  (returns_compileUnit (fun _ allowed => allowed) unit (.inl kinds) idle).mono fun _ _ _ => trivial

theorem compileUnit_stops_only_on_limits_of_one_class :
    (∀ cls ∈ [(⟨⟨"A", default⟩, 0, [], [], 0⟩ : ClassDecl)], cls.Scoped ⟨#[⟨.type ⟨"A"⟩, none, []⟩]⟩) ∧
    ({} : Session).channels.Idle ∧
    Returns Halt.Allowed (runStep ((compileUnit ⟨[⟨⟨"A", default⟩, 0, [], [], 0⟩], 0⟩).run
      ⟨{}, ⟨#[⟨.type ⟨"A"⟩, none, []⟩]⟩⟩) {}) fun _ _ => True :=
  ⟨by decide, ChannelSet.idle_empty,
    compileUnit_stops_only_on_limits ⟨{}, ⟨#[⟨.type ⟨"A"⟩, none, []⟩]⟩⟩ ⟨[⟨⟨"A", default⟩, 0, [], [], 0⟩], 0⟩ {}
      (by decide) ChannelSet.idle_empty⟩

/-- Compiled code is stack consistent: a statement leaves the stack as it found it, empty, and an
expression leaves one value more; every function's code has a height at each offset, zero at the
entry and one at each handler, at which each instruction finds the operands it takes, moves the
stack as its effect says to the height of the offsets it goes to next, and stays within the stack
bound of the code. -/
theorem compiled_code_is_stack_consistent (idle : session.channels.Idle) :
    (∀ env st, Leaves env (lowerStmt st) 0 0) ∧ (∀ env e k, Leaves env (lowerExpr e) k (k + 1)) ∧
    Returns (fun _ => True) (runStep ((compileUnit unit).run c) session) fun entities _ =>
      ∀ e ∈ entities, ∀ m ∈ e.entity.functions, ∀ attr ∈ m.attributes,
        ∃ (a : InstructionAttribute) (is : List Instruction), attr.info = a.serialize ∧ decode a.code = .ok is ∧
          ∃ height : Nat → Nat, height 0 = 0 ∧ (∀ row ∈ a.handlers, height row.handler = 1) ∧
            ∀ i ∈ is, height i.offset ≤ a.maxStack ∧ ∃ after, i.Moves e.entity.constants (height i.offset) after ∧
              after ≤ a.maxStack ∧ (i.opcode.isUnconditional = false → height (i.offset + i.opcode.length) = after) ∧
              ∀ t, i.jumpTarget? = some t → height t = after := by
  refine ⟨fun env st => leaves_lowerStmt st env, fun env e k => leaves_lowerExpr e env k, ?_⟩
  apply (compileUnit_compiled c unit session idle).mono
  intro entities _ compiled e mem m member attr held
  obtain ⟨d, -, attributes⟩ := compiled e mem m member
  obtain ⟨a, is, info, code⟩ := attributes attr held
  exact ⟨a, is, info, code.decodes, code.heights⟩

theorem compiled_code_is_stack_consistent_of_new_session :
    ({} : Session).channels.Idle ∧
    (∀ env st, Leaves env (lowerStmt st) 0 0) ∧ (∀ env e k, Leaves env (lowerExpr e) k (k + 1)) ∧
    Returns (fun _ => True) (runStep ((compileUnit guardedUnit).run guardedCompiler) {}) fun entities _ =>
      ∀ e ∈ entities, ∀ m ∈ e.entity.functions, ∀ attr ∈ m.attributes,
        ∃ (a : InstructionAttribute) (is : List Instruction), attr.info = a.serialize ∧ decode a.code = .ok is ∧
          ∃ height : Nat → Nat, height 0 = 0 ∧ (∀ row ∈ a.handlers, height row.handler = 1) ∧
            ∀ i ∈ is, height i.offset ≤ a.maxStack ∧ ∃ after, i.Moves e.entity.constants (height i.offset) after ∧
              after ≤ a.maxStack ∧ (i.opcode.isUnconditional = false → height (i.offset + i.opcode.length) = after) ∧
              ∀ t, i.jumpTarget? = some t → height t = after :=
  ⟨ChannelSet.idle_empty, compiled_code_is_stack_consistent guardedCompiler guardedUnit {} ChannelSet.idle_empty⟩

/-- Every row of the exception table of compiled code covers a nonempty range of whole
instructions, ending at an instruction or at the end of the code, and its handler is an
instruction of the code. -/
theorem compiled_rows_are_well_formed (idle : session.channels.Idle) :
    Returns (fun _ => True) (runStep ((compileUnit unit).run c) session) fun entities _ =>
      ∀ e ∈ entities, ∀ m ∈ e.entity.functions, ∀ attr ∈ m.attributes,
        ∃ (a : InstructionAttribute) (is : List Instruction), attr.info = a.serialize ∧ decode a.code = .ok is ∧
          ∀ row ∈ a.handlers, row.start < row.stop ∧ row.stop ≤ a.code.length ∧ row.handler < a.code.length ∧
            Starts is row.start ∧ (Starts is row.stop ∨ row.stop = a.code.length) ∧ Starts is row.handler := by
  apply (compileUnit_compiled c unit session idle).mono
  intro entities _ compiled e mem m member attr held
  obtain ⟨d, -, attributes⟩ := compiled e mem m member
  obtain ⟨a, is, info, code⟩ := attributes attr held
  exact ⟨a, is, info, code.decodes, code.rows⟩

theorem compiled_rows_are_well_formed_of_new_session :
    ({} : Session).channels.Idle ∧
    Returns (fun _ => True) (runStep ((compileUnit guardedUnit).run guardedCompiler) {}) fun entities _ =>
      ∀ e ∈ entities, ∀ m ∈ e.entity.functions, ∀ attr ∈ m.attributes,
        ∃ (a : InstructionAttribute) (is : List Instruction), attr.info = a.serialize ∧ decode a.code = .ok is ∧
          ∀ row ∈ a.handlers, row.start < row.stop ∧ row.stop ≤ a.code.length ∧ row.handler < a.code.length ∧
            Starts is row.start ∧ (Starts is row.stop ∨ row.stop = a.code.length) ∧ Starts is row.handler :=
  ⟨ChannelSet.idle_empty, compiled_rows_are_well_formed guardedCompiler guardedUnit {} ChannelSet.idle_empty⟩

/-- Every pool index an entity holds names an entry of its own pool, of the kind the format asks
for. Each entry of the pool refers only to entries before it: a string and a class to a text, a
field and a function to a class and two texts. The entity itself and its superclasses are
classes; the name of every attribute, and the name and descriptor of every member, are texts.
In the code of every function, `New` takes a class, the field instructions a field, the
invocations a function and `LoadCpr` a number, a string, a function or a class, and every class
an exception row catches is a class. -/
theorem compiled_references_are_typed (idle : session.channels.Idle) :
    Returns (fun _ => True) (runStep ((compileUnit unit).run c) session) fun entities _ =>
      ∀ e ∈ entities,
        (∀ (j : Nat) (k : Constant), e.entity.constants[j]? = some k → k.PointsBelow e.entity.constants (j + 1)) ∧
        Names e.entity.constants e.entity.self Constant.isClassRef ∧
        (∀ i ∈ e.entity.supers, Names e.entity.constants i Constant.isClassRef) ∧
        (∀ attr ∈ e.entity.attributes, Names e.entity.constants attr.nameIndex Constant.isUtf8) ∧
        (∀ m ∈ e.entity.fields ++ e.entity.functions, Names e.entity.constants m.nameIndex Constant.isUtf8 ∧
          Names e.entity.constants m.descriptorIndex Constant.isUtf8 ∧
          ∀ attr ∈ m.attributes, Names e.entity.constants attr.nameIndex Constant.isUtf8) ∧
        ∀ m ∈ e.entity.functions, ∀ attr ∈ m.attributes,
          ∃ (a : InstructionAttribute) (is : List Instruction), attr.info = a.serialize ∧ decode a.code = .ok is ∧
            (∀ i ∈ is, i.Refers e.entity.constants) ∧
            ∀ row ∈ a.handlers, ∀ k, row.catchClass = some k → Names e.entity.constants k Constant.isClassRef := by
  apply (returns_compileUnit (fun _ _ => trivial) unit (.inr fun _ _ => ⟨trivial, trivial⟩) idle).mono
  rintro entities _ ⟨-, written⟩ e mem
  obtain ⟨compiled, named⟩ := written e mem
  refine ⟨named.pool, named.self, named.supers, named.attributes, fun m member => ?_, fun m member attr held => ?_⟩
  · have memberNamed : m.Named e.entity.constants := by
      rcases List.mem_append.mp member with field | function
      · exact named.fields m field
      · exact named.functions m function
    exact ⟨memberNamed.name, memberNamed.descriptor, memberNamed.attributes⟩
  · obtain ⟨d, -, attributes⟩ := compiled m member
    obtain ⟨a, is, info, code⟩ := attributes attr held
    exact ⟨a, is, info, code.decodes, code.refers, code.catches⟩

theorem compiled_references_are_typed_of_one_class :
    ({} : Session).channels.Idle ∧
    Returns (fun _ => True) (runStep ((compileUnit ⟨[⟨⟨"A", default⟩, 0, [], [], 0⟩], 0⟩).run
      ⟨{}, ⟨#[⟨.type ⟨"A"⟩, none, []⟩]⟩⟩) {}) fun entities _ =>
      ∀ e ∈ entities,
        (∀ (j : Nat) (k : Constant), e.entity.constants[j]? = some k → k.PointsBelow e.entity.constants (j + 1)) ∧
        Names e.entity.constants e.entity.self Constant.isClassRef ∧
        (∀ i ∈ e.entity.supers, Names e.entity.constants i Constant.isClassRef) ∧
        (∀ attr ∈ e.entity.attributes, Names e.entity.constants attr.nameIndex Constant.isUtf8) ∧
        (∀ m ∈ e.entity.fields ++ e.entity.functions, Names e.entity.constants m.nameIndex Constant.isUtf8 ∧
          Names e.entity.constants m.descriptorIndex Constant.isUtf8 ∧
          ∀ attr ∈ m.attributes, Names e.entity.constants attr.nameIndex Constant.isUtf8) ∧
        ∀ m ∈ e.entity.functions, ∀ attr ∈ m.attributes,
          ∃ (a : InstructionAttribute) (is : List Instruction), attr.info = a.serialize ∧ decode a.code = .ok is ∧
            (∀ i ∈ is, i.Refers e.entity.constants) ∧
            ∀ row ∈ a.handlers, ∀ k, row.catchClass = some k → Names e.entity.constants k Constant.isClassRef :=
  ⟨ChannelSet.idle_empty, compiled_references_are_typed ⟨{}, ⟨#[⟨.type ⟨"A"⟩, none, []⟩]⟩⟩
    ⟨[⟨⟨"A", default⟩, 0, [], [], 0⟩], 0⟩ {} ChannelSet.idle_empty⟩

end Febc
