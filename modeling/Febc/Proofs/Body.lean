import Febc.Proofs.Ladder
import Febc.Lowering.Class

/-!
# Finished function bodies

A body is lowered from a sound state on a channel of its own; lowered whole, it leaves the stack
empty, every label placed and no loop open (`Settled`). Finishing adds the implicit return where
the end is reachable and hands the code over; what is then known of the code attribute is
`InstructionAttribute.Compiled`: it decodes to a laid out list of instructions whose jumps land
on instructions, whose last instruction never falls through, whose returns match the function,
with a height at every offset that each instruction moves as its effect says, and an exception
table of rows over whole instructions, nested innermost first.

Main statements:
* `Lowering.returns_finish_code`: finishing a balanced body answers compiled code, with an
  initializer's return right after the body where its end is reachable, or stops on a limit;
* `Session.returns_lowerBody_code`: lowering a balanced body in a session answers an attribute
  whose bytes are compiled code laid out as the body left it, closes the body's channel and leaves
  the others alone.
-/

namespace Febc

namespace ChannelSet

/-- The active channel, if there is one, is open. -/
def ActiveOpen (cs : ChannelSet) : Prop :=
  ∀ p, cs.active = some p → ∃ bytes, cs.slots[p]? = some (some bytes)

/-- What a body needs of the channels it starts on: the active channel is open, and the channel it
is given to build on, if any, is open and empty. -/
def Ready (cs : ChannelSet) (channel : Option Nat) : Prop :=
  cs.ActiveOpen ∧ ∀ ch, channel = some ch → cs.slots[ch]? = some (some #[])

end ChannelSet

namespace CodeBuilder

/-- A body starts on the channel it is given, or on a new one, made active; the channel active
before is remembered, and the other channels are left alone. -/
theorem started_of_ready {cs : ChannelSet} {channel : Option Nat} (ready : cs.Ready channel) :
    ∃ cs' : ChannelSet, (match channel with
        | some ch => onChannel cs ch
        | none => start cs) =
        .ok { channels := cs', channel := channel.getD cs.slots.size, previousActive := cs.active } ∧
      cs'.active = some (channel.getD cs.slots.size) ∧ cs'.slots[channel.getD cs.slots.size]? = some (some #[]) ∧
      ∀ c ≠ channel.getD cs.slots.size, cs'.slots[c]? = cs.slots[c]? := by
  cases channel with
  | some ch =>
    have empty := ready.2 ch rfl
    refine ⟨⟨cs.slots, some ch⟩, ?_, rfl, empty, fun _ _ => rfl⟩
    simp [onChannel, runStep, ChannelSet.setActive, ExceptT.run, ExceptT.mk, StateT.run, empty]
  | none =>
    refine ⟨⟨cs.slots.push (some #[]), some cs.slots.size⟩, ?_, rfl, by simp, fun c other => ?_⟩
    · simp [start, onChannel, runStep, ChannelSet.add, ChannelSet.setActive, ExceptT.run, ExceptT.mk, StateT.run]
    · simp only [Option.getD_none] at other
      simp [Array.getElem?_push, other]

/-- The channels once a builder's code is handed over: its channel closed, and the channel that
was active before it made active again. -/
def released (b : CodeBuilder) : ChannelSet :=
  ⟨b.channels.slots.set! b.channel none, b.previousActive.filter (· != b.channel)⟩

theorem checkTargets_ok (size : Nat) (is : List Instruction)
    (inside : ∀ i ∈ is, ∀ t, i.jumpTarget? = some t → t ≤ size) : checkTargets size is = .ok () := by
  induction is with
  | nil => rfl
  | cons i rest ih =>
    have restInside : ∀ j ∈ rest, ∀ t, j.jumpTarget? = some t → t ≤ size :=
      fun j mem => inside j (List.mem_cons_of_mem i mem)
    unfold checkTargets
    split
    · rename_i t target
      rw [if_neg (Nat.not_lt.mpr (inside i List.mem_cons_self t target))]
      exact ih restInside
    · exact ih restInside

theorem runStep_remove {b : CodeBuilder} (live : b.Live) :
    runStep (onChannels ChannelSet.remove) b =
      (.ok b.code, { b with channels := ⟨b.channels.slots.set! b.channel none, none⟩ }) := by
  obtain ⟨active, bytes, slot⟩ := live
  rw [runStep_onChannels]
  simp [runStep, ChannelSet.remove, ExceptT.run, ExceptT.mk, StateT.run, slot, active, code_of_slot slot]

/-- Handing over the code of a live builder whose labels are all placed and whose jumps stay inside
the code stops only on a limit of the format; otherwise it answers the code with the builder's
bounds and table, and releases the channel. -/
theorem returns_result {b : CodeBuilder} (live : b.Live) (encoded : b.Encoded) (placed : b.unplacedLabels = [])
    (previous : ∀ p, b.previousActive = some p → p ≠ b.channel → ∃ bytes, b.channels.slots[p]? = some (some bytes))
    (inside : ∀ i ∈ b.instructions, ∀ t, i.jumpTarget? = some t → t ≤ b.code.size) :
    Returns Halt.Allowed (runStep result b) fun a b' =>
      a = ⟨b.maxDepth, b.localCount, b.code.toList, b.handlers.toList⟩ ∧ b'.channels = b.released := by
  have decoded : decode b.code.toList = .ok b.instructions := by
    rw [encoded.1]
    exact decode_image _ encoded.2.1 encoded.2.2
  have checked := checkTargets_ok _ _ inside
  have placed' : ({ b with channels := { slots := b.channels.slots.set! b.channel none } } : CodeBuilder).unplacedLabels = [] :=
    placed
  unfold result
  rw [runStep_bind, runStep_remove live]
  simp only [runStep_bind, runStep_get, placed', List.isEmpty_nil, Bool.not_true, Bool.false_eq_true, if_false]
  rcases hp : b.previousActive with _ | p
  · by_cases deep : b.maxDepth > maxWord
    · simp [deep, Halt.Allowed, Error.Allowed]
    by_cases long : b.code.size > maxWord
    · simp [deep, long, Halt.Allowed, Error.Allowed]
    simp [deep, long, decoded, checked, liftOutcome, released, hp, runStep_pure]
  · by_cases same : p = b.channel
    · by_cases deep : b.maxDepth > maxWord
      · simp [same, deep, Halt.Allowed, Error.Allowed]
      by_cases long : b.code.size > maxWord
      · simp [same, deep, long, Halt.Allowed, Error.Allowed]
      simp [same, deep, long, decoded, checked, liftOutcome, released, hp, runStep_pure, Option.filter_some]
    obtain ⟨bytes, slot⟩ := previous p hp same
    have reactivated : runStep (onChannels (fun _ => ChannelSet.setActive p))
        ({ b with channels := { slots := b.channels.slots.set! b.channel none }, previousActive := some p } :
          CodeBuilder) =
        (.ok (), { b with
          channels := { slots := b.channels.slots.set! b.channel none, active := some p }
          previousActive := some p }) := by
      rw [runStep_onChannels]
      simp [runStep, ChannelSet.setActive, ExceptT.run, ExceptT.mk, StateT.run, 
        Ne.symm same, slot]
    simp only [same, ne_eq, not_false_eq_true, if_true]
    rw [runStep_bind, reactivated]
    by_cases deep : b.maxDepth > maxWord
    · simp [deep, Halt.Allowed, Error.Allowed]
    by_cases long : b.code.size > maxWord
    · simp [deep, long, Halt.Allowed, Error.Allowed]
    simp [deep, long, decoded, checked, liftOutcome, released, hp, runStep_pure, Option.filter_some, same]

end CodeBuilder

/-- What is known of the code of a finished body, whose bytes decode to `is`: every jump lands
on an instruction; the last instruction never falls through; the returns match the function; a
height is noted at every offset, zero at the entry and one at every handler, at which each
instruction finds what it takes and which it moves as its effect says, within the stack bound;
the exception table is made of rows over whole instructions, nested innermost first; and every
pool index the code takes, and every class a row catches, names an entry of the kind it asks for. -/
structure InstructionAttribute.Compiled (a : InstructionAttribute) (init : Bool) (entries : Array Constant)
    (is : List Instruction) : Prop where
  decodes : decode a.code = .ok is
  laid : Laid 0 is
  jumps : ∀ i ∈ is, ∀ t, i.jumpTarget? = some t → Starts is t ∧ t < a.code.length
  stops : ∃ i, is.getLast? = some i ∧ i.opcode.isUnconditional = true
  returns : ∀ i ∈ is, (i.opcode = .ret → init = true) ∧ (i.opcode = .retA → init = false)
  heights : ∃ height : Nat → Nat, height 0 = 0 ∧ (∀ row ∈ a.handlers, height row.handler = 1) ∧
    ∀ i ∈ is, height i.offset ≤ a.maxStack ∧ ∃ after, i.Moves entries (height i.offset) after ∧
      after ≤ a.maxStack ∧ (i.opcode.isUnconditional = false → height (i.offset + i.opcode.length) = after) ∧
      ∀ t, i.jumpTarget? = some t → height t = after
  rows : ∀ row ∈ a.handlers, row.start < row.stop ∧ row.stop ≤ a.code.length ∧ row.handler < a.code.length ∧
    Starts is row.start ∧ (Starts is row.stop ∨ row.stop = a.code.length) ∧ Starts is row.handler
  nested : a.handlers.Pairwise fun row later => row.Within later.start later.stop
  refers : ∀ i ∈ is, i.Refers entries
  catches : ∀ row ∈ a.handlers, ∀ c, row.catchClass = some c → Names entries c Constant.isClassRef

/-- The pool an attribute's invocations are read in may grow. -/
theorem InstructionAttribute.Compiled.mono {a : InstructionAttribute} {init : Bool} {entries entries' : Array Constant}
    {is : List Instruction} (compiled : a.Compiled init entries is) (grown : entries.toList <+: entries'.toList) :
    a.Compiled init entries' is := by
  obtain ⟨height, entry, handlers, moves⟩ := compiled.heights
  refine { compiled with
    heights := ⟨height, entry, handlers, fun i mem => ?_⟩
    refers := fun i mem => (compiled.refers i mem).mono grown
    catches := fun row mem c caught => (compiled.catches row mem c caught).mono grown }
  obtain ⟨bounded, after, step, rest⟩ := moves i mem
  exact ⟨bounded, after, step.mono grown, rest⟩

namespace Lowering

open CodeBuilder

section Initializers

variable {env : FunctionEnv}

/-- Storing the initial values of declarators into their fields: each value is pushed, with the
object below it for an instance field, and stored. -/
theorem leaves_initializeDeclarators (isStatic : Bool) (decls : List (Ident × Option Expr)) :
    Leaves env (initializeDeclarators isStatic decls) 0 0 := by
  induction decls with
  | nil => exact leaves_pure 0
  | cons decl rest ih =>
    obtain ⟨name, _ | init⟩ := decl
    · rw [initializeDeclarators]
      exact ih
    · rw [initializeDeclarators]
      apply Leaves.read_bind
      intro s h empty
      apply Runs.bind (runs_fieldEntry _ name)
      rintro field s₁ h₁ - - ⟨still, names⟩
      have stores : LeavesAbove s₁.pool.entries env (if isStatic then (do lowerExpr init; op .storeStaticField [field]; initializeDeclarators isStatic rest)
          else (do op .loadA [0]; lowerExpr init; op .storeInstanceField [field]; initializeDeclarators isStatic rest)) 0 0 := by
        split
        · exact ((leaves_lowerExpr init env 0).above _).seq fun _ =>
            (leaves_poolOp (o := .storeStaticField) ⟨rfl, rfl⟩ rfl rfl rfl (Nat.le_refl 1) (by decide) names).seq
              fun _ => ih.above _
        · exact ((leaves_loadA 0 0).above _).seq fun _ => ((leaves_lowerExpr init env 1).above _).seq fun _ =>
            (leaves_poolOp (o := .storeInstanceField) ⟨rfl, rfl⟩ rfl rfl rfl (Nat.le_refl 2) (by decide) names).seq
              fun _ => ih.above _
      apply (stores s₁ h₁ (still.holds empty) (List.prefix_refl _)).mono
      rintro _ s₂ h₂ - - ⟨holds₂, contained₂⟩
      exact ⟨holds₂, (still.contained []).trans contained₂⟩

theorem leaves_initializeFields_go (isStatic : Bool) (fields : List FieldDecl) :
    Leaves env (initializeFields.go isStatic fields) 0 0 := by
  induction fields with
  | nil =>
    rw [initializeFields.go]
    exact leaves_pure 0
  | cons decl rest ih =>
    rw [initializeFields.go]
    split
    · exact (leaves_initializeDeclarators isStatic decl.decls).seq fun _ => ih
    · exact ih

/-- Initializing the static fields, or the instance fields, in the class scope. -/
theorem leaves_initializeFields (fields : List FieldDecl) (isStatic : Bool) :
    Leaves env (initializeFields fields isStatic) 0 0 := by
  unfold initializeFields
  exact Leaves.read_bind (Leaves.withScope (leaves_initializeFields_go isStatic fields))

/-- An initializer first calls the superclass's initializer on `this`, then initializes the
instance fields. -/
theorem leaves_initializeInstance (fields : List FieldDecl) : Leaves env (initializeInstance fields) 0 0 := by
  unfold initializeInstance
  apply Leaves.read_bind
  intro s h empty
  apply Runs.bind (runs_onPool (ConstantPool.interns_functionRef _))
  rintro index s₁ h₁ - - ⟨still, -, -, -, small, describes⟩
  apply Runs.bind (leaves_loadA 0 0 s₁ h₁ (still.holds empty))
  rintro _ s₂ h₂ - grown₂ ⟨holds₂, contained₂⟩
  apply Runs.bind (runs_pushInvoke rfl (describes.mono grown₂.pool) small holds₂ (Nat.le_refl _)
    (show ((0 : Nat) : Int) = ((0 + 1 : Nat) : Int) + (FunctionDescriptor.initializer 0).stackEffect - 1 by
      simp [FunctionDescriptor.stackEffect_initializer]))
  rintro _ s₃ h₃ - - ⟨contained₃, -, depth₃⟩
  apply (leaves_initializeFields fields false s₃ h₃ (Or.inl depth₃)).mono
  rintro _ s₄ h₄ - - ⟨holds₄, contained₄⟩
  exact ⟨holds₄, (still.contained []).trans contained₂ |>.trans contained₃ |>.trans contained₄⟩

end Initializers

variable {init : Bool} {env : FunctionEnv} {s s' : Lowering} {h : Nat → Nat}

/-- Every label handed out is placed, and no loop is open: the state a whole body leaves. -/
def Settled (s : Lowering) : Prop :=
  (∀ l < s.code.labels.size, ∃ p : Nat, s.code.labels[l]? = some (.placed p)) ∧ s.loops.frames = []

/-- A body starts settled: no label is handed out and no loop is open. -/
theorem settled_start (b : CodeBuilder) (pool : ConstantPool) (diagnostics : Array Diagnostic)
    (locals : LocalsLayout) (fresh : b.labels = #[]) : Settled ⟨b, pool, diagnostics, locals, {}⟩ :=
  ⟨fun l below => by simp [fresh] at below, rfl⟩

theorem Settled.keep (settled : s.Settled) (contained : Contained [] s s') : s'.Settled := by
  refine ⟨fun l below => ?_, contained.frames.trans settled.2⟩
  by_cases old : l < s.code.labels.size
  · rw [contained.labels l old List.not_mem_nil]
    exact settled.1 l old
  · exact contained.placed l (Nat.le_of_not_lt old) below List.not_mem_nil

theorem Settled.breaks (settled : s.Settled) (sound : Sound init s h) : s.loops.breaks = [] := by
  apply List.eq_nil_iff_forall_not_mem.mpr
  intro r mem
  have open_ := (sound.breaks r mem).1
  simp [settled.2] at open_

theorem Settled.pending (settled : s.Settled) (sound : Sound init s h) : s.pending = [] := by
  apply List.eq_nil_iff_forall_not_mem.mpr
  intro p mem
  rcases mem_pending.mp mem with ⟨l, fixups, r, unplaced, -⟩ | ⟨r, mem, -⟩
  · obtain ⟨q, placed⟩ := settled.1 l (Array.getElem?_eq_some_iff.mp unplaced).1
    rw [placed] at unplaced
    cases unplaced
  · rw [settled.breaks sound] at mem
    cases mem

/-- A body lowered whole, with its end unreachable, is compiled code; the heights are those noted
from its entry, where the stack is empty. -/
theorem Sound.compiled (sound : Sound init s h) (settled : s.Settled) (unreached : s.code.depth = none)
    (entry : h 0 = 0) (count : Nat) :
    InstructionAttribute.Compiled ⟨s.code.maxDepth, count, s.code.code.toList, s.code.handlers.toList⟩ init
      s.pool.entries s.code.instructions := by
  have pending := settled.pending sound
  -- a jump waits for nothing, so it targets an instruction: the end of the code is unreachable
  have targets : ∀ i ∈ s.code.instructions, i.opcode.isJump = true → ∃ t, i.operands = [t] ∧
      Starts s.code.instructions t ∧ ∃ after, i.Moves s.pool.entries (h i.offset) after ∧ h t = after := by
    intro i mem jump
    obtain ⟨after, step, -, -, target⟩ := sound.moves i mem
    rcases target jump with waiting | ⟨t, operands, at_, height⟩
    · rw [pending] at waiting
      cases waiting
    · rcases at_ with starts | ⟨-, reached⟩
      · exact ⟨t, operands, starts, after, step, height⟩
      · simp [unreached] at reached
  have jumpTarget : ∀ i ∈ s.code.instructions, ∀ t, i.jumpTarget? = some t →
      i.opcode.isJump = true ∧ i.operands = [t] ∧ Starts s.code.instructions t := by
    intro i mem t found
    unfold Instruction.jumpTarget? at found
    split at found
    · rename_i jump
      obtain ⟨t', operands, starts, -⟩ := targets i mem jump
      rw [operands] at found
      cases found
      exact ⟨jump, operands, starts⟩
    · cases found
  have below : ∀ t, Starts s.code.instructions t → t < s.code.code.size := by
    rintro t ⟨j, mem, rfl⟩
    exact offset_lt sound mem
  refine {
    decodes := by rw [sound.encoded.1]; exact decode_image _ sound.encoded.2.1 sound.encoded.2.2
    laid := sound.encoded.2.1
    jumps := fun i mem t found => ?_
    stops := sound.ends unreached
    returns := sound.returns
    heights := ⟨h, entry, fun row mem => (sound.handlers row mem).2, fun i mem => ?_⟩
    rows := fun row mem => ?_
    nested := sound.nested
    refers := sound.refers
    catches := sound.catches }
  · obtain ⟨-, -, starts⟩ := jumpTarget i mem t found
    exact ⟨starts, by simpa using below t starts⟩
  · obtain ⟨after, step, bounded, falls, -⟩ := sound.moves i mem
    refine ⟨sound.bounded.2 i mem, after, step, bounded, falls, fun t found => ?_⟩
    obtain ⟨jump, operands, -⟩ := jumpTarget i mem t found
    obtain ⟨t', operands', -, after', step', height⟩ := targets i mem jump
    obtain rfl : t' = t := by simpa [operands] using operands'.symm
    rw [height]
    exact moves_unique (not_invoke_of_jump jump) step' step
  · obtain ⟨nonempty, high, first, last⟩ := sound.ranges row mem
    obtain ⟨starts, -⟩ := sound.handlers row mem
    refine ⟨nonempty, by simpa using high, by simpa using below _ starts, first, ?_, starts⟩
    simpa [Boundary] using last

theorem Settled.unplacedLabels (settled : s.Settled) : s.code.unplacedLabels = [] := by
  apply List.filter_eq_nil_iff.mpr
  intro l mem
  obtain ⟨p, placed⟩ := settled.1 l (List.mem_range.mp mem)
  simp [placed]

section Finish

variable {α β : Type} {post : α → Lowering → Prop}

theorem returns_get_bind {f : Lowering → LowerM α} (returns : Returns Halt.Allowed (runStep ((f s).run env) s) post) :
    Returns Halt.Allowed (runStep ((get >>= f).run env) s) post := returns

theorem returns_read_bind {f : FunctionEnv → LowerM α} (returns : Returns Halt.Allowed (runStep ((f env).run env) s) post) :
    Returns Halt.Allowed (runStep ((read >>= f).run env) s) post := returns

/-- A run followed by a last step that need not keep the state sound. -/
theorem Runs.returns_bind {m : LowerM β} {f : β → LowerM α} {mid : β → Lowering → (Nat → Nat) → Prop}
    (first : Runs env s h m mid) (sound : Sound env.isInitializer s h)
    (rest : ∀ b s' h', Sound env.isInitializer s' h' → Grows s h s' h' → mid b s' h' →
      Returns Halt.Allowed (runStep ((f b).run env) s') post) :
    Returns Halt.Allowed (runStep ((m >>= f).run env) s) post := by
  have split : (m >>= f).run env = m.run env >>= fun b => (f b).run env := rfl
  rw [split]
  apply Febc.returns_bind
  exact (first sound).mono fun b s' ⟨h', sound', grown, holds⟩ => rest b s' h' sound' grown holds

/-- Once the end of a body is unreachable, finishing checks that no `break` waits, records the
local count and hands the code over: the bytes of the code, which decode to its instructions. -/
theorem returns_finishTail_code (sound : Sound env.isInitializer s h) (settled : s.Settled)
    (unreached : s.code.depth = none) (entry : h 0 = 0) :
    Returns Halt.Allowed (runStep ((do
        if (← get).loops.pending ≠ 0 then refuse .breaksOutlived
        let count := (← get).locals.count
        onCode (CodeBuilder.setLocalCount count)
        onCode CodeBuilder.result : LowerM InstructionAttribute).run env) s) fun a s' =>
      a.code = s.code.code.toList ∧ a.Compiled env.isInitializer s.pool.entries s.code.instructions ∧
        s'.pool = s.pool ∧ s'.diagnostics = s.diagnostics ∧ s'.code.channels = s.code.released := by
  apply returns_get_bind
  have none_pending : s.loops.pending = 0 := by simp [LoopStack.pending, settled.breaks sound]
  simp only [none_pending, ne_eq, not_true_eq_false, if_false]
  apply returns_get_bind
  rw [show ∀ (m : CodeM Unit) (k : Unit → LowerM InstructionAttribute), (onCode m >>= k).run env =
    (onCode m).run env >>= fun u => (k u).run env from fun _ _ => rfl, runStep_bind, runStep_onCode,
    runStep_setLocalCount]
  dsimp only
  rw [runStep_onCode]
  have compiled := sound.compiled settled unreached entry s.locals.count
  have inside : ∀ i ∈ s.code.instructions, ∀ t, i.jumpTarget? = some t → t ≤ s.code.code.size := by
    intro i mem t found
    have below := (compiled.jumps i mem t found).2
    simp only [Array.length_toList] at below
    omega
  have returned := returns_result (b := { s.code with localCount := s.locals.count }) sound.live sound.encoded
    settled.unplacedLabels sound.previous inside
  dsimp only
  revert returned
  generalize runStep result { s.code with localCount := s.locals.count } = r
  obtain ⟨_ | a, b⟩ := r
  · exact id
  · rintro ⟨rfl, channels⟩
    exact ⟨rfl, compiled, rfl, rfl, channels⟩

/-- Finishing a body whose stack is empty at its end: where the end is reachable it returns,
nothing from an initializer and null from any other function; then the code is handed over, the
bytes of the builder that decode to its instructions. An initializer's return is the instruction
after the body's. -/
theorem returns_finish_code (sound : Sound env.isInitializer s h) (settled : s.Settled) (empty : s.Holds 0)
    (entry : h 0 = 0) :
    Returns Halt.Allowed (runStep (finish.run env) s) fun a s' => ∃ t h', Sound env.isInitializer t h' ∧
      Grows s h t h' ∧ a.code = t.code.code.toList ∧ a.Compiled env.isInitializer t.pool.entries t.code.instructions ∧
      (s.code.depth = some 0 → env.isInitializer = true →
        t.code.instructions = s.code.instructions ++ [⟨s.code.code.size, .ret, []⟩] ∧
          t.code.code.size = s.code.code.size + 1) ∧
      s'.pool = t.pool ∧ s'.diagnostics = t.diagnostics ∧ s'.code.channels = t.code.released := by
  -- the height noted at the entry stays zero as long as code is only appended after it
  have kept : ∀ t h', Grows s h t h' → s.code.depth = some 0 → h' 0 = 0 := by
    intro t h' grown reached
    rw [grown.heights 0 (by rcases Nat.eq_zero_or_pos s.code.code.size with none | some <;> simp_all), entry]
  have close : ∀ t h', Sound env.isInitializer t h' → Grows s h t h' → Contained [] s t → t.code.depth = none →
      s.code.depth = some 0 → (env.isInitializer = true →
        t.code.instructions = s.code.instructions ++ [⟨s.code.code.size, .ret, []⟩] ∧
          t.code.code.size = s.code.code.size + 1) →
      Returns Halt.Allowed (runStep ((do
        if (← get).loops.pending ≠ 0 then refuse .breaksOutlived
        let count := (← get).locals.count
        onCode (CodeBuilder.setLocalCount count)
        onCode CodeBuilder.result : LowerM InstructionAttribute).run env) t) fun a s' => ∃ t h',
          Sound env.isInitializer t h' ∧ Grows s h t h' ∧ a.code = t.code.code.toList ∧
            a.Compiled env.isInitializer t.pool.entries t.code.instructions ∧
            (s.code.depth = some 0 → env.isInitializer = true →
              t.code.instructions = s.code.instructions ++ [⟨s.code.code.size, .ret, []⟩] ∧
                t.code.code.size = s.code.code.size + 1) ∧
            s'.pool = t.pool ∧ s'.diagnostics = t.diagnostics ∧ s'.code.channels = t.code.released := by
    intro t h' sound' grown contained unreached reached returned
    apply (returns_finishTail_code sound' (settled.keep contained) unreached (kept t h' grown reached)).mono
    rintro a s' ⟨code, compiled, facts⟩
    exact ⟨t, h', sound', grown, code, compiled, fun _ => returned, facts⟩
  unfold finish
  apply returns_get_bind
  dsimp only
  split
  · rename_i reachable
    have reached : s.code.depth = some 0 := by
      rcases empty with reached | ⟨unreached, -⟩
      · exact reached
      · simp [isReachable, unreached] at reachable
    apply returns_read_bind
    split
    · rename_i initializer
      apply Runs.returns_bind (runs_op (o := .ret) ⟨rfl, rfl⟩ rfl (by simp [Opcode.operands]) empty rfl
        (Nat.le_refl 0) rfl ⟨fun _ => initializer, fun other => absurd other (by decide)⟩ (Instruction.refers_of_bare rfl))
        sound
      rintro _ s₁ h₁ sound₁ grown₁ ⟨contained₁, returned₁, depth₁⟩
      refine close s₁ h₁ sound₁ grown₁ contained₁ depth₁ reached fun _ => ⟨returned₁, ?_⟩
      rw [size_of_append sound sound₁ returned₁]
      rfl
    · rename_i other
      apply Runs.returns_bind (leaves_pushNull 0 s h empty) sound
      rintro _ s₁ h₁ sound₁ grown₁ ⟨holds₁, contained₁⟩
      apply Runs.returns_bind (runs_stop (o := .retA) ⟨rfl, rfl⟩ rfl rfl rfl (Nat.le_refl 1) rfl
        ⟨fun same => absurd same (by decide), fun _ => by simpa using other⟩ holds₁) sound₁
      rintro _ s₂ h₂ sound₂ grown₂ ⟨contained₂, depth₂⟩
      exact close s₂ h₂ sound₂ (grown₁.trans grown₂) (contained₁.trans contained₂) depth₂ reached
        fun initializer => absurd initializer other
  · rename_i unreachable
    have unreached : s.code.depth = none := by simpa [isReachable] using unreachable
    apply (returns_finishTail_code sound settled unreached entry).mono
    rintro a s' ⟨code, compiled, facts⟩
    exact ⟨s, h, sound, Grows.refl s h, code, compiled, fun reached => absurd (unreached.symm.trans reached) (by simp),
      facts⟩

end Finish

end Lowering

/-- How a session relates to a later one: the pool stays consistent and only grows, and
diagnostics are only added. -/
structure Session.Grows (session session' : Session) : Prop where
  pool : session'.pool.Consistent
  entries : session.pool.entries.toList <+: session'.pool.entries.toList
  diagnostics : session.diagnostics.toList <+: session'.diagnostics.toList

/-- What lowering a body on channel `n` does to a session besides growing it: the channel `n` is
closed and the others are left alone, and the channel active before is active again unless it
was `n`. -/
structure Session.Closes (n : Nat) (session session' : Session) : Prop extends Session.Grows session session' where
  others : ∀ c ≠ n, session'.channels.slots[c]? = session.channels.slots[c]?
  closed : session'.channels.slots[n]? = some none
  active : session'.channels.active = session.channels.active.filter (· != n)

theorem InstructionAttribute.returns_intern (a : InstructionAttribute) {p : ConstantPool} (consistent : p.Consistent) :
    Returns Error.Allowed (runStep a.intern p) fun attr p' =>
      attr.info = a.serialize ∧ Names p'.entries attr.nameIndex Constant.isUtf8 ∧ p'.Consistent ∧
        p.entries.toList <+: p'.entries.toList := by
  unfold InstructionAttribute.intern
  apply returns_bind
  exact (ConstantPool.interns_utf8 _ p consistent).mono fun i p' ⟨grown, entry⟩ =>
    ⟨rfl, grown.texts entry, grown.1, grown.2.1⟩

namespace Session

open Lowering CodeBuilder

/-- Lowering a body, on the channel given or on a new one, that leaves the stack empty and its
code laid out as `Laid` says, of the pool, the instructions, the offset where the body's code
ends and the height there. The body runs from an empty, reachable code whose first free private
slot is the shape's base. Lowering stops only on a limit of the format; otherwise the attribute
it answers holds compiled code laid out as the body left it, and an initializer whose end is
reachable returns right after its body. -/
theorem returns_lowerBody_code (layout : ClassLayout) (shape : FunctionShape) (channel : Option Nat)
    {body : LowerM Unit} (c : Compiler) (session : Session)
    (Laid : Array Constant → (Instruction → Prop) → Nat → Option Nat → Prop)
    (mono : ∀ {entries entries' : Array Constant} {code code' : Instruction → Prop} {stop : Nat}
      {depth : Option Nat}, entries.toList <+: entries'.toList → (∀ i, code i → code' i) →
        Laid entries code stop depth → Laid entries' code' stop depth)
    (bodies : ∀ s h, Sound shape.isInitializer s h → s.code.code.size = 0 → s.code.depth = some 0 →
      s.locals.next = shape.localsBase →
      Runs ⟨c.symbols, layout, shape.isStatic, shape.isInitializer, shape.scope⟩ s h body fun _ s' _ =>
        s'.Holds 0 ∧ Contained [] s s' ∧ Laid s'.pool.entries (Fixed s') s'.code.code.size s'.code.depth)
    (ready : session.channels.Ready channel) (consistent : session.pool.Consistent) :
    Returns Halt.Allowed (runStep ((lowerBody layout shape channel body).run c) session) fun attr session' =>
      (∃ (a : InstructionAttribute) (is : List Instruction), attr.info = a.serialize ∧
        a.Compiled shape.isInitializer session'.pool.entries is ∧
        ∃ stop depth, Laid session'.pool.entries (· ∈ is) stop depth ∧
          (depth = some 0 → shape.isInitializer = true → ⟨stop, .ret, []⟩ ∈ is ∧ a.code.length = stop + 1)) ∧
        Names session'.pool.entries attr.nameIndex Constant.isUtf8 ∧
        Closes (channel.getD session.channels.slots.size) session session' := by
  obtain ⟨pool, channels, diagnostics⟩ := session
  obtain ⟨cs, started, active, empty, others⟩ := started_of_ready ready
  dsimp only at ready consistent started active empty others ⊢
  simp only [lowerBody, ReaderT.run, runStep_mk]
  split
  next failed =>
    cases failed.symm.trans started
  next code built =>
  obtain rfl := Except.ok.inj (built.symm.trans started)
  have previous : ∀ p, channels.active = some p → p ≠ channel.getD channels.slots.size →
      ∃ bytes, cs.slots[p]? = some (some bytes) := by
    intro p found other
    rw [others p other]
    exact ready.1 p found
  have start := sound_start shape.isInitializer pool diagnostics shape.localsBase active empty previous consistent
  have code₀ : CodeBuilder.code
      { channels := cs, channel := channel.getD channels.slots.size, previousActive := channels.active } = #[] :=
    code_of_slot empty
  have returned : Returns Halt.Allowed _ fun (a : InstructionAttribute) (s' : Lowering) =>
      ∃ t h', Sound shape.isInitializer t h' ∧ Lowering.Grows _ (fun _ => 0) t h' ∧
        a.Compiled shape.isInitializer t.pool.entries t.code.instructions ∧
        (∃ stop depth, Laid t.pool.entries (· ∈ t.code.instructions) stop depth ∧
          (depth = some 0 → shape.isInitializer = true →
            ⟨stop, .ret, []⟩ ∈ t.code.instructions ∧ a.code.length = stop + 1)) ∧
        s'.pool = t.pool ∧ s'.diagnostics = t.diagnostics ∧ s'.code.channels = t.code.released :=
    Runs.returns_bind (f := fun _ => finish) (bodies _ _ start (by simp [code₀]) rfl rfl) start
      fun _ s₁ h₁ sound₁ grown₁ left =>
        (returns_finish_code sound₁ ((settled_start _ _ _ _ rfl).keep left.2.1) left.1
          (grown₁.heights 0 (Or.inr ⟨by simp [code₀], rfl⟩))).mono fun a _ finished => by
          obtain ⟨t, h', sound, grown, bytes, compiled, ended, kept⟩ := finished
          refine ⟨t, h', sound, grown₁.trans grown, compiled, ⟨s₁.code.code.size, s₁.code.depth,
            mono grown.pool (fun _ fixed => (grown.fixed sound₁ fixed).1) left.2.2, fun reached init => ?_⟩, kept⟩
          obtain ⟨appended, size⟩ := ended reached init
          refine ⟨by simp [appended], ?_⟩
          rw [bytes, Array.length_toList, size]
  simp only [ReaderT.run] at returned
  revert returned
  generalize runStep _ _ = r
  obtain ⟨_ | a, ⟨code', pool', diagnostics', locals', loops'⟩⟩ := r
  · exact id
  rintro ⟨t, h', sound, grown, compiled, ⟨stop, depth, laid, ended⟩, rfl, rfl, channels'⟩
  dsimp only at channels' ⊢
  have interned := a.returns_intern sound.pool
  revert interned
  generalize runStep a.intern t.pool = q
  obtain ⟨_ | attr, pool''⟩ := q
  · exact id
  rintro ⟨info, named, consistent'', grown''⟩
  have n_eq : t.code.channel = channel.getD channels.slots.size := grown.channel
  have below : t.code.channel < t.code.channels.slots.size := by
    obtain ⟨-, bytes, slot⟩ := sound.live
    exact (Array.getElem?_eq_some_iff.mp slot).1
  refine ⟨⟨a, _, info, compiled.mono grown'', stop, depth, mono grown'' (fun _ mem => mem) laid, ended⟩, named,
    ⟨⟨consistent'', grown.pool.trans grown'', grown.diagnostics⟩, fun c other => ?_, ?_, ?_⟩⟩
  · simp only [channels', released, Array.set!_eq_setIfInBounds, Array.getElem?_setIfInBounds]
    rw [if_neg (by rw [n_eq]; exact Ne.symm other), grown.others c (by simpa using other)]
    exact others c other
  · simp [channels', released, n_eq.symm, below]
  · simp [channels', released, grown.previousActive, n_eq]

/-- Lowering a balanced body, on the channel given or on a new one, stops only on a limit of the
format; otherwise the attribute it answers holds compiled code, read in the session's pool. -/
theorem returns_lowerBody (layout : ClassLayout) (shape : FunctionShape) (channel : Option Nat) {body : LowerM Unit}
    (c : Compiler) (session : Session)
    (bodies : Leaves ⟨c.symbols, layout, shape.isStatic, shape.isInitializer, shape.scope⟩ body 0 0)
    (ready : session.channels.Ready channel) (consistent : session.pool.Consistent) :
    Returns Halt.Allowed (runStep ((lowerBody layout shape channel body).run c) session) fun attr session' =>
      (∃ (a : InstructionAttribute) (is : List Instruction), attr.info = a.serialize ∧
        a.Compiled shape.isInitializer session'.pool.entries is) ∧
        Names session'.pool.entries attr.nameIndex Constant.isUtf8 ∧
        Closes (channel.getD session.channels.slots.size) session session' :=
  (returns_lowerBody_code layout shape channel c session (fun _ _ _ _ => True) (fun _ _ _ => trivial)
    (fun s h _ _ reached _ => (bodies s h (.inl reached)).mono fun _ _ _ _ _ left => ⟨left.1, left.2, trivial⟩)
    ready consistent).mono fun _ _ ⟨⟨a, is, info, compiled, _⟩, named, closes⟩ => ⟨⟨a, is, info, compiled⟩, named, closes⟩

end Session

end Febc
