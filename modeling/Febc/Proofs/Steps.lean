import Febc.Proofs.Preserve

/-!
# What each step of lowering does

`Runs env s h m post` specifies a step `m` of lowering a function body: from a sound state `s`
with heights `h`, the step either stops with an allowed error, or returns a value `a` in a sound
state `s'`, with heights `h'`, that grew from `s` and satisfies `post a s' h'`. Specifications of
sequenced steps compose by `Runs.bind`, so that every construct of the source is specified from
the specifications of the steps it is made of, and no proof unfolds a step twice.

This module specifies each primitive step: emitting a plain instruction, an invocation or a
jump; handing out and placing labels; entering a handler and guarding a range; taking and
releasing private slots; entering a loop; interning constants and reporting diagnostics.

Main statements:
* `Runs.bind`: a step followed by another meets the second's specification from every state the
  first's specification allows;
* `runs_op`, `runs_invokeEntry`, `runs_jump_placed`, `runs_jump_unplaced`: the steps that emit
  code move the stack as their opcode, or the descriptor they name, says;
* `runs_place`: placing a label retargets exactly the jumps that wait for it.
-/

namespace Febc

namespace Lowering

open CodeBuilder

/-! ## Running the layers below -/

theorem runStep_onCode {α : Type} (env : FunctionEnv) (m : CodeM α) (s : Lowering) :
    runStep ((onCode m).run env) s = ((runStep m s.code).1, { s with code := (runStep m s.code).2 }) := by
  obtain ⟨code, pool, diagnostics, locals, loops⟩ := s
  rfl

theorem runStep_onPool {α : Type} (env : FunctionEnv) (m : PoolM α) (s : Lowering) :
    runStep ((onPool m).run env) s =
      ((runStep m s.pool).1.mapError .error, { s with pool := (runStep m s.pool).2 }) := by
  obtain ⟨code, pool, diagnostics, locals, loops⟩ := s
  rfl

/-! ## Specifications -/

/-- From a sound state, the step either stops with an allowed error, or returns a value in a
sound state that grew from the one it started in and satisfies `post`. -/
def Runs {α : Type} (env : FunctionEnv) (s : Lowering) (height : Nat → Nat) (m : LowerM α)
    (post : α → Lowering → (Nat → Nat) → Prop) : Prop :=
  Sound env.isInitializer s height →
    Returns Halt.Allowed (runStep (m.run env) s) fun a s' =>
      ∃ height', Sound env.isInitializer s' height' ∧ Grows s height s' height' ∧ post a s' height'

section Runs

variable {α β : Type} {env : FunctionEnv} {s : Lowering} {h : Nat → Nat}

theorem Runs.bind {m : LowerM α} {f : α → LowerM β} {mid : α → Lowering → (Nat → Nat) → Prop}
    {post : β → Lowering → (Nat → Nat) → Prop} (first : Runs env s h m mid)
    (rest : ∀ a s' h', Sound env.isInitializer s' h' → Grows s h s' h' → mid a s' h' →
      Runs env s' h' (f a) post) :
    Runs env s h (m >>= f) post := by
  intro sound
  have split : (m >>= f).run env = m.run env >>= fun a => (f a).run env := rfl
  rw [split]
  apply returns_bind
  apply (first sound).mono
  rintro a s₁ ⟨h₁, sound₁, grown₁, mid₁⟩
  apply (rest a s₁ h₁ sound₁ grown₁ mid₁ sound₁).mono
  rintro b s₂ ⟨h₂, sound₂, grown₂, post₂⟩
  exact ⟨h₂, sound₂, grown₁.trans grown₂, post₂⟩

theorem Runs.mono {m : LowerM α} {post post' : α → Lowering → (Nat → Nat) → Prop}
    (runs : Runs env s h m post)
    (weaker : ∀ a s' h', Sound env.isInitializer s' h' → Grows s h s' h' → post a s' h' → post' a s' h') :
    Runs env s h m post' := fun sound =>
  (runs sound).mono fun a s' ⟨h', sound', grown, holds⟩ =>
    ⟨h', sound', grown, weaker a s' h' sound' grown holds⟩

/-- A run may assume the state it starts from is sound. -/
theorem Runs.of_sound {m : LowerM α} {post : α → Lowering → (Nat → Nat) → Prop}
    (runs : Sound env.isInitializer s h → Runs env s h m post) : Runs env s h m post :=
  fun sound => runs sound sound

/-- A step's post may name the state the step ends in. -/
theorem Runs.ends {m : LowerM α} {post : α → Lowering → (Nat → Nat) → Prop} (runs : Runs env s h m post) :
    Runs env s h m fun a s' h' => post a s' h' ∧ runStep (m.run env) s = (.ok a, s') := by
  intro sound
  have returns := runs sound
  revert returns
  generalize runStep (m.run env) s = r
  rcases r with ⟨_ | a, s'⟩
  · exact id
  · rintro ⟨h', sound', grown, holds⟩
    exact ⟨h', sound', grown, holds, rfl⟩

theorem runs_pure (a : α) {post : α → Lowering → (Nat → Nat) → Prop} (holds : post a s h) :
    Runs env s h (pure a) post := fun sound => ⟨h, sound, Grows.refl s h, holds⟩

theorem Runs.map {m : LowerM α} {f : α → β} {post : β → Lowering → (Nat → Nat) → Prop}
    (runs : Runs env s h m fun a => post (f a)) : Runs env s h (f <$> m) post := by
  rw [map_eq_pure_bind]
  exact Runs.bind runs fun a _ _ _ _ holds => runs_pure (f a) holds

theorem Runs.read_bind {f : FunctionEnv → LowerM α} {post : α → Lowering → (Nat → Nat) → Prop}
    (runs : Runs env s h (f env) post) : Runs env s h (read >>= f) post := runs

theorem Runs.get_bind {f : Lowering → LowerM α} {post : α → Lowering → (Nat → Nat) → Prop}
    (runs : Runs env s h (f s) post) : Runs env s h (get >>= f) post := runs

theorem Runs.withScope {scope : Nat} {m : LowerM α} {post : α → Lowering → (Nat → Nat) → Prop}
    (runs : Runs { env with scope := scope } s h m post) : Runs env s h (withScope (some scope) m) post :=
  runs

theorem runs_of_error {m : LowerM α} {post : α → Lowering → (Nat → Nat) → Prop} {e : Error}
    {s' : Lowering} (stops : runStep (m.run env) s = (.error (.error e), s')) (allowed : e.Allowed) :
    Runs env s h m post := by
  intro _
  rw [stops]
  exact allowed

end Runs

/-! ## Steps that leave the code alone -/

/-- The step left the code, the loops and the private slots as they were. -/
structure Still (s s' : Lowering) : Prop where
  code : s'.code = s.code
  loops : s'.loops = s.loops
  locals : s'.locals = s.locals

theorem Still.refl (s : Lowering) : Still s s := ⟨rfl, rfl, rfl⟩

theorem Still.trans {s₁ s₂ s₃ : Lowering} (first : Still s₁ s₂) (second : Still s₂ s₃) : Still s₁ s₃ :=
  ⟨second.code.trans first.code, second.loops.trans first.loops, second.locals.trans first.locals⟩

/-- A step that keeps every label and the loops spans nothing around it. -/
theorem Spans.of_kept {own : List Nat} {s s' : Lowering} (labels : s'.code.labels = s.code.labels)
    (loops : s'.loops = s.loops) : Spans own s s' where
  size := by simp [labels]
  labels _ _ _ := by rw [labels]
  placed _ low high _ := absurd high (by rw [labels]; omega)
  frames := by rw [loops]
  breaks := ⟨[], by rw [loops]; rfl⟩

/-- A step that keeps every label, the loops, the private slots and the rows, and only appends
code, leaves everything around it as it was. -/
theorem Contained.of_kept {own : List Nat} {s s' : Lowering} (labels : s'.code.labels = s.code.labels)
    (loops : s'.loops = s.loops) (slots : s'.locals.next = s.locals.next)
    (grown : s.code.code.size ≤ s'.code.code.size) (handlers : s'.code.handlers = s.code.handlers) :
    Contained own s s' :=
  { Spans.of_kept labels loops with
    slots := slots
    grown := grown
    rows := .of_handlers handlers }

theorem Still.contained {s s' : Lowering} (still : Still s s') (own : List Nat) : Contained own s s' :=
  .of_kept (by rw [still.code]) still.loops (by rw [still.locals]) (Nat.le_of_eq (by rw [still.code]))
    (by rw [still.code])

theorem Still.holds {s s' : Lowering} {k : Nat} (still : Still s s') (holds : s.Holds k) : s'.Holds k := by
  unfold Holds
  rw [still.code]
  exact holds

section Quiet

variable {env : FunctionEnv} {s : Lowering} {h : Nat → Nat}

theorem runs_report (kind : DiagnosticKind) (pos : Position) (message : String) :
    Runs env s h (report kind pos message) fun _ s' h' =>
      Still s s' ∧ s'.diagnostics = s.diagnostics.push ⟨kind, pos, message⟩ ∧ h' = h := by
  intro sound
  rw [runStep_report, returns_ok]
  exact ⟨h, sound.congr rfl rfl rfl, Grows.congr rfl rfl rfl (by simp), ⟨rfl, rfl, rfl⟩, rfl, rfl⟩

theorem runs_onPool {m : PoolM Nat} {post : Nat → ConstantPool → Prop}
    (interns : ConstantPool.Interns m post) :
    Runs env s h (onPool m) fun i s' h' =>
      Still s s' ∧ s'.diagnostics = s.diagnostics ∧ h' = h ∧ 1 ≤ i ∧ i ≤ 65535 ∧ post i s'.pool := by
  intro sound
  rw [runStep_onPool]
  have spec := interns s.pool sound.pool
  revert spec
  cases runStep m s.pool with
  | mk r p' =>
    cases r with
    | error e => exact id
    | ok i =>
      rintro ⟨grown, holds⟩
      obtain ⟨sound', grows⟩ := sound.grow ({ s with pool := p' }) rfl rfl grown.1 grown.2.1 rfl
      exact ⟨h, sound', grows, ⟨rfl, rfl, rfl⟩, rfl, rfl, grown.2.2.1, grown.2.2.2, holds⟩

theorem runs_offset : Runs env s h offset fun n s' h' => n = s.code.code.size ∧ n ≤ maxWord ∧ s' = s ∧ h' = h := by
  intro sound
  rw [offset, runStep_onCode, runStep_currentOffset sound.live]
  split
  · exact trivial
  · rename_i short
    exact ⟨h, sound, Grows.refl s h, rfl, by omega, rfl, rfl⟩

theorem runs_takeSlot : Runs env s h takeSlot fun slot s' h' =>
    slot = s.locals.next ∧ slot ≤ 255 ∧ s'.locals.next = slot + 1 ∧ s'.code = s.code ∧ s'.loops = s.loops ∧
      h' = h := by
  intro sound
  dsimp only [takeSlot, runStep, ReaderT.run, ExceptT.run, ExceptT.mk, StateT.run]
  unfold LocalsLayout.pushPrivate
  by_cases full : s.locals.next > 255
  · rw [if_pos full]
    exact trivial
  · rw [if_neg full]
    exact ⟨h, sound.congr rfl rfl rfl, Grows.congr rfl rfl rfl (List.prefix_refl _), rfl, by omega, rfl, rfl, rfl, rfl⟩

theorem runs_releaseSlot (taken : s.locals.next ≠ 0) : Runs env s h releaseSlot fun _ s' h' =>
    s'.locals.next = s.locals.next - 1 ∧ s'.code = s.code ∧ s'.loops = s.loops ∧ h' = h := by
  intro sound
  dsimp only [releaseSlot, runStep, ReaderT.run, ExceptT.run, ExceptT.mk, StateT.run]
  unfold LocalsLayout.popPrivate
  rw [if_neg taken]
  exact ⟨h, sound.congr rfl rfl rfl, Grows.congr rfl rfl rfl (List.prefix_refl _), rfl, rfl, rfl, rfl⟩

theorem runs_findLoop (label : Option Ident) : Runs env s h (findLoop label) fun found s' h' =>
    found = s.loops.find? (label.map (·.text)) ∧ s' = s ∧ h' = h :=
  fun sound => ⟨h, sound, Grows.refl s h, rfl, rfl, rfl⟩

theorem runs_inLoop : Runs env s h inLoop fun open_ s' h' => open_ = !s.loops.isEmpty ∧ s' = s ∧ h' = h :=
  fun sound => ⟨h, sound, Grows.refl s h, rfl, rfl, rfl⟩

/-- Entering a loop whose `continue` label stands where the stack is empty. -/
theorem runs_enterLoop (label : Option Ident) {continueLabel p : Nat}
    (placed : s.code.labels[continueLabel]? = some (.placed p)) (height : h p = 0) :
    Runs env s h (enterLoop label continueLabel) fun _ s' h' =>
      s'.loops = (s.loops.push (label.map (·.text)) continueLabel).2 ∧ s'.code = s.code ∧
        s'.locals = s.locals ∧ h' = h := by
  intro sound
  obtain ⟨sound', grown⟩ := sound.enterLoop ({ s with loops := (s.loops.push (label.map (·.text)) continueLabel).2 })
    (label.map (·.text)) placed height rfl rfl rfl rfl
  exact ⟨h, sound', grown, rfl, rfl, rfl, rfl⟩

end Quiet

/-! ## Steps that emit code -/

theorem stopping_of_falls (b : CodeBuilder) {op : Opcode} (falls : op.isUnconditional = false) :
    b.stopping op = b := by
  simp [stopping, falls]

theorem stackEffect_of_invoke {op : Opcode} (invoke : op.isInvoke = true) : op.stackEffect = none := by
  cases op <;> simp_all [Opcode.isInvoke, Opcode.stackEffect]

theorem falls_of_invoke {op : Opcode} (invoke : op.isInvoke = true) : op.isUnconditional = false := by
  cases op <;> simp_all [Opcode.isInvoke, Opcode.isUnconditional]

theorem length_of_jump {op : Opcode} (jump : op.isJump = true) : op.length = 3 := by
  simp [Opcode.length_eq_sum, operands_of_jump jump, OperandWidth.bytes]

/-- The operands of a plain instruction fit their widths: a local slot was checked to fit a byte,
and every other operand fits two. -/
theorem operands_u16 {o : Opcode} (wide : OperandWidth.u16 ∈ o.operands) : o.operands = [.u16] := by
  cases o <;> simp_all [Opcode.operands]

theorem fits_of_addressable {o : Opcode} {xs : List Nat} (offset : Nat) (count : xs.length = o.operands.length)
    (narrow : Addressable o xs) (wide : o.operands = [.u16] → ∀ x ∈ xs, x ≤ 65535) :
    Instruction.Fits ⟨offset, o, xs⟩ := by
  refine ⟨count, fun p mem => ?_⟩
  obtain ⟨width, x⟩ := p
  cases width with
  | u8 =>
    obtain ⟨which, single⟩ := operands_u8 (List.of_mem_zip mem).1
    simp only [single] at mem
    cases xs with
    | nil => simp at mem
    | cons y rest =>
      simp only [List.zip_cons_cons, List.zip_nil_left, List.mem_singleton, Prod.mk.injEq] at mem
      obtain ⟨-, rfl⟩ := mem
      simpa [maxLocal, OperandWidth.max] using narrow x (by simp) which
  | u16 => simpa [OperandWidth.max] using wide (operands_u16 (List.of_mem_zip mem).1) x (List.of_mem_zip mem).2

section Emit

variable {init : Bool} {env : FunctionEnv} {s s' : Lowering} {h : Nat → Nat}

/-- Appending an instruction that leaves the labels and the loops alone keeps the state sound,
and the instruction ends the code. -/
theorem Sound.appendKept (sound : Sound init s h) (s' : Lowering) {i : Instruction} {effect : Int} {after : Nat}
    (at_ : i.offset = s.code.code.size) (fits : i.Fits)
    (moves : i.Moves s.pool.entries (s.code.depth.getD 0) after) (refers : i.Refers s.pool.entries)
    (result : s.code.depthAfter effect = after)
    (returns : (i.opcode = .ret → init = true) ∧ (i.opcode = .retA → init = false))
    (target : i.opcode.isJump = true → ∃ t, i.operands = [t] ∧ s.code.Target t ∧ h t = after)
    (code : s'.code = ((s.code.write i.bytes).adjusted effect).stopping i.opcode)
    (pool : s'.pool = s.pool) (diagnostics : s'.diagnostics = s.diagnostics)
    (loops : s'.loops = s.loops) (locals : s'.locals = s.locals) :
    ∃ h', Sound init s' h' ∧ Grows s h s' h' ∧ Contained [] s s' ∧
      s'.code.instructions = s.code.instructions ++ [i] ∧
      s'.code.depth = if i.opcode.isUnconditional then none else some after := by
  have labels : s'.code.labels = s.code.labels := by rw [code]; simp
  have pending : s'.pending = s.pending := by simp [Lowering.pending, labels, loops]
  have depth : s'.code.depth = if i.opcode.isUnconditional then none else some after := by
    rw [code]; simp [result]
  obtain ⟨sound', grown⟩ := sound.append _ at_ fits moves refers returns (by rw [code]; simp) (by rw [code]; simp)
    (by rw [code]; simp) (by rw [code]; simp) depth (by rw [code]; simp [result]) pool diagnostics
    (by rw [labels]) (fun l p found => labels ▸ found) (fun l st found => Or.inl (labels ▸ found))
    (by rw [loops]) (by rw [loops]) (fun r mem => Or.inl (loops ▸ mem)) (fun r mem => loops ▸ mem)
    (fun p mem => pending ▸ mem)
    (fun jump => Or.inr (target jump))
  refine ⟨_, sound', grown, .of_kept labels loops (by rw [locals]) grown.size (by rw [code]; simp), ?_, depth⟩
  rw [instructions_congr (b := s.code.write i.bytes) (by rw [code]; simp) (by rw [code]; simp)]
  exact (encoded_write sound.live sound.encoded at_ fits).2

/-- A plain instruction, whose operands fit, on a stack holding what it takes. -/
theorem runs_op {o : Opcode} {xs : List Nat} (plain : o.isJump = false ∧ o.isInvoke = false)
    (count : xs.length = o.operands.length) (wide : o.operands = [.u16] → ∀ x ∈ xs, x ≤ 65535)
    {k after : Nat} {e : Int}
    (holds : s.Holds k) (effect : o.stackEffect = some e) (room : o.pops ≤ k) (result : (after : Int) = k + e)
    (returns : (o = .ret → env.isInitializer = true) ∧ (o = .retA → env.isInitializer = false))
    (refers : Instruction.Refers s.pool.entries ⟨s.code.code.size, o, xs⟩) :
    Runs env s h (op o xs) fun _ s' _ =>
      Contained [] s s' ∧ s'.code.instructions = s.code.instructions ++ [⟨s.code.code.size, o, xs⟩] ∧
        s'.code.depth = if o.isUnconditional then none else some after := by
  intro sound
  rw [op, runStep_onCode]
  by_cases narrow : Addressable o xs
  · rw [runStep_pushInstruction sound.live plain count narrow, returns_ok]
    have moves : Instruction.Moves s.pool.entries ⟨s.code.code.size, o, xs⟩ (s.code.depth.getD 0) after := by
      unfold Instruction.Moves
      simp only [effect, holds.getD]
      exact ⟨room, result⟩
    exact sound.appendKept _ rfl (fits_of_addressable _ count narrow wide) moves refers
      (by simp only [depthAfter, effect, Option.getD_some, holds.getD, Int.ofNat_eq_natCast]; omega) returns
      (fun jump => by simp [plain.1] at jump) rfl rfl rfl rfl rfl
  · obtain ⟨slot, step⟩ := runStep_pushInstruction_wide (b := s.code) plain narrow
    rw [step]
    trivial

/-- Invoking the function entry at `index`, which describes `d`, on a stack that holds its
arguments, and its receiver unless the call is static. -/
theorem runs_pushInvoke {o : Opcode} (invoke : o.isInvoke = true) {index : Nat} {d : FunctionDescriptor}
    {k after : Nat} (describes : Describes s.pool.entries index d) (small : index ≤ 65535) (holds : s.Holds k)
    (room : d.params.length + o.receivers ≤ k) (result : (after : Int) = k + d.stackEffect - o.receivers) :
    Runs env s h (onCode (CodeBuilder.pushInvoke o index d)) fun _ s' _ =>
      Contained [] s s' ∧ s'.code.instructions = s.code.instructions ++ [⟨s.code.code.size, o, [index]⟩] ∧
        s'.code.depth = some after := by
  intro sound
  rw [runStep_onCode, runStep_pushInvoke sound.live invoke, returns_ok]
  have moves : Instruction.Moves s.pool.entries ⟨s.code.code.size, o, [index]⟩ (s.code.depth.getD 0) after := by
    unfold Instruction.Moves
    simp only [stackEffect_of_invoke invoke, holds.getD]
    exact ⟨index, d, rfl, describes, room, result⟩
  have fits : Instruction.Fits ⟨s.code.code.size, o, [index]⟩ :=
    ⟨by simp [operands_of_invoke invoke], by simp [operands_of_invoke invoke, OperandWidth.max, small]⟩
  have effect : s.code.depthAfter (invokeEffect o d) = after := by
    simp only [depthAfter, invokeEffect, holds.getD]
    simp only [Opcode.receivers] at room result
    split at result <;> simp_all <;> omega
  obtain ⟨h₂, sound₂, grown₂, contained, appended, depth⟩ := sound.appendKept
    ({ s with code := (s.code.write (encodeInstruction o [index])).adjusted (invokeEffect o d) }) rfl fits
    moves (Instruction.refers_of_describes invoke rfl describes) effect ⟨fun ret => absurd invoke (by rw [show o = .ret from ret]; decide),
      fun ret => absurd invoke (by rw [show o = .retA from ret]; decide)⟩
    (fun jump => absurd invoke (by rw [not_invoke_of_jump jump]; decide))
    (by rw [stopping_of_falls _ (falls_of_invoke invoke)]; rfl) rfl rfl rfl rfl
  refine ⟨h₂, sound₂, grown₂, contained, appended, ?_⟩
  rw [depth, falls_of_invoke invoke]
  rfl

/-- Invoking a function reference on a stack that holds its arguments, and its receiver unless
the call is static. -/
theorem runs_invokeEntry {o : Opcode} (invoke : o.isInvoke = true) (ref : FunctionRef) {k after : Nat}
    (holds : s.Holds k) (room : ref.descriptor.params.length + o.receivers ≤ k)
    (result : (after : Int) = k + ref.descriptor.stackEffect - o.receivers) :
    Runs env s h (invokeEntry o ref) fun _ s' _ => Contained [] s s' ∧ s'.code.depth = some after := by
  apply Runs.bind (runs_onPool (ConstantPool.interns_functionRef ref))
  rintro index s₁ h₁ - - ⟨still, -, rfl, -, small, describes⟩
  apply (runs_pushInvoke invoke describes small (still.holds holds) room result).mono
  rintro _ s₂ h₂ - - ⟨contained, -, depth⟩
  exact ⟨(still.contained []).trans contained, depth⟩

/-- A jump whose label is placed goes to the label's offset at once; the label is where the stack
holds what the jump leaves. -/
theorem runs_jump_placed {o : Opcode} (jump : o.isJump = true) {l p k after : Nat}
    (placed : s.code.labels[l]? = some (.placed p)) (holds : s.Holds k) (room : o.pops ≤ k)
    (result : (after : Int) = k + o.stackEffect.getD 0) (height : h p = after) :
    Runs env s h (Lowering.jump o l) fun _ s' _ =>
      Contained [] s s' ∧ s'.code.instructions = s.code.instructions ++ [⟨s.code.code.size, o, [p]⟩] ∧
        s'.code.depth = (if o.isUnconditional then none else some after) ∧ s'.loops = s.loops := by
  intro sound
  rw [Lowering.jump, runStep_onCode, runStep_pushJump sound.live jump, returns_ok]
  have target : s.code.labelTarget l = p := by simp [labelTarget, placed]
  obtain ⟨small, reach⟩ := sound.placed l p placed
  have moves : Instruction.Moves s.pool.entries ⟨s.code.code.size, o, [p]⟩ (s.code.depth.getD 0) after := by
    unfold Instruction.Moves
    rw [stackEffect_of_plain (not_invoke_of_jump jump)]
    simp only [holds.getD]
    exact ⟨room, result⟩
  have fits : Instruction.Fits ⟨s.code.code.size, o, [p]⟩ :=
    ⟨by simp [operands_of_jump jump], by simp only [maxWord] at small; simp [operands_of_jump jump, OperandWidth.max, small]⟩
  rw [target, addFixup_of_placed (by simpa using placed)]
  obtain ⟨h', sound', grown, contained, instructions, depth⟩ := sound.appendKept
    { s with code := ((s.code.write (encodeInstruction o [p])).adjusted (o.stackEffect.getD 0)).stopping o }
    rfl fits moves (Instruction.refers_of_jump jump) (by simp only [depthAfter, holds.getD, Int.ofNat_eq_natCast]; omega)
    ⟨fun ret => absurd jump (by rw [show o = .ret from ret]; decide),
      fun ret => absurd jump (by rw [show o = .retA from ret]; decide)⟩
    (fun _ => ⟨p, rfl, reach, height⟩) rfl rfl rfl rfl rfl
  exact ⟨h', sound', grown, contained, instructions, depth, rfl⟩

/-- A jump whose label is not placed yet waits in the label's fixups, which record the height the
jump leaves. -/
theorem runs_jump_unplaced {o : Opcode} (jump : o.isJump = true) {l k after : Nat} {fixups : Array Nat}
    {r : Option Nat} (unplaced : s.code.labels[l]? = some (.unplaced fixups r)) (holds : s.Holds k)
    (room : o.pops ≤ k) (result : (after : Int) = k + o.stackEffect.getD 0) (agrees : ∀ d, r = some d → d = after) :
    Runs env s h (Lowering.jump o l) fun _ s' _ =>
      Contained [l] s s' ∧
        s'.code.labels[l]? = some (.unplaced (fixups.push (s.code.code.size + 1)) (some after)) ∧
        s'.code.instructions = s.code.instructions ++ [⟨s.code.code.size, o, [0]⟩] ∧
        s'.code.depth = if o.isUnconditional then none else some after := by
  intro sound
  rw [Lowering.jump, runStep_onCode, runStep_pushJump sound.live jump, returns_ok]
  have target : s.code.labelTarget l = 0 := by simp [labelTarget, unplaced]
  rw [target]
  dsimp only
  let i : Instruction := ⟨s.code.code.size, o, [0]⟩
  let written := (s.code.write i.bytes).adjusted (o.stackEffect.getD 0)
  have depthAfter : s.code.depthAfter (o.stackEffect.getD 0) = after := by
    simp only [depthAfter, holds.getD, Int.ofNat_eq_natCast]; omega
  have here : ((written.addFixup l (s.code.code.size + 1)).stopping o).labels[l]? =
      some (.unplaced (fixups.push (s.code.code.size + 1)) (some after)) := by
    rw [stopping_labels, addFixup_unplaced written (by simpa [written] using unplaced)]
    cases r with
    | none => simp [written, depthAfter]
    | some d => simp [agrees d rfl]
  have others : ∀ j, j ≠ l → ((written.addFixup l (s.code.code.size + 1)).stopping o).labels[j]? = s.code.labels[j]? := by
    intro j other
    rw [stopping_labels, addFixup_ne written other]
    rfl
  have moves : i.Moves s.pool.entries (s.code.depth.getD 0) after := by
    unfold Instruction.Moves
    simp only [i]
    rw [stackEffect_of_plain (not_invoke_of_jump jump)]
    simp only [holds.getD]
    exact ⟨room, result⟩
  have fits : i.Fits := ⟨by simp [i, operands_of_jump jump], by simp [i, operands_of_jump jump, OperandWidth.max]⟩
  obtain ⟨sound', grown⟩ := sound.append
    ({ s with code := (written.addFixup l (s.code.code.size + 1)).stopping o }) (i := i) rfl fits moves
    (Instruction.refers_of_jump jump)
    ⟨fun ret => absurd jump (by rw [show o = .ret from ret]; decide),
      fun ret => absurd jump (by rw [show o = .retA from ret]; decide)⟩
    (by simp [written]) (by simp [written]) (by simp [written]) (by simp [written])
    (by simp [written, i, depthAfter]) (by simp [written, depthAfter]) rfl rfl (by simp [written])
    (fun j p found => by
      have other : j ≠ l := by rintro rfl; rw [unplaced] at found; cases found
      rw [others j other]; exact found)
    (fun j st found => by
      by_cases same : j = l
      · subst same
        rw [here, Option.some.injEq] at found
        exact Or.inr ⟨fixups, r, found.symm, unplaced, agrees, jump⟩
      · rw [others j same] at found
        exact Or.inl found)
    rfl rfl (fun rec mem => Or.inl mem) (fun rec mem => mem)
    (fun p mem => by
      rcases mem_pending.mp mem with ⟨j, fx, d, found, inFx⟩ | ⟨rec, memR, at_⟩
      · by_cases same : j = l
        · subst same
          rw [unplaced, Option.some.injEq, LabelState.unplaced.injEq] at found
          obtain ⟨rfl, rfl⟩ := found
          exact mem_pending.mpr (Or.inl ⟨j, _, _, here, by simp [inFx]⟩)
        · exact mem_pending.mpr (Or.inl ⟨j, fx, d, by rw [others j same]; exact found, inFx⟩)
      · exact mem_pending.mpr (Or.inr ⟨rec, memR, at_⟩))
    (fun _ => Or.inl (mem_pending.mpr (Or.inl ⟨l, _, _, here, by simp [i]⟩)))
  refine ⟨_, sound', grown, ?_, here, ?_, by simp [depthAfter]⟩
  · exact {
      size := by simp
      labels := fun j _ other => others j (by simpa using other)
      placed := fun j low high _ => absurd high (by simp; omega)
      frames := rfl
      breaks := ⟨[], rfl⟩
      slots := rfl
      grown := grown.size
      rows := .of_handlers (by simp) }
  · exact (instructions_congr (c := (written.addFixup l (s.code.code.size + 1)).stopping o)
      (b := s.code.write i.bytes) (by simp [written]) (by simp [written])).trans
      (encoded_write sound.live sound.encoded rfl fits).2

/-- Placing a label that jumps wait for, where the depth agrees with theirs: the jumps are
retargeted here, and unreachable code becomes reachable with their depth. -/
theorem runs_place {l : Nat} {fixups : Array Nat} {r : Option Nat}
    (unplaced : s.code.labels[l]? = some (.unplaced fixups r))
    (agrees : ∀ c d, s.code.depth = some c → r = some d → c = d) :
    Runs env s h (place l) fun _ s' _ =>
      Contained [l] s s' ∧ s'.code.labels[l]? = some (.placed s.code.code.size) ∧
        s'.code.depth = (if s.code.depth.isNone then some (r.getD 0) else s.code.depth) ∧
        s'.code.code.size = s.code.code.size ∧
        s'.code.instructions = s.code.instructions.map (Instruction.patch fixups.toList s.code.code.size) ∧
        s'.loops = s.loops := by
  intro sound
  rw [place, runStep_onCode]
  by_cases short : s.code.code.size ≤ maxWord
  · have inside : ∀ o ∈ fixups.toList, o + 2 ≤ s.code.code.size := by
      intro o mem
      obtain ⟨j, memJ, jump, rfl, -⟩ := (sound.fixups l fixups r unplaced).2 o mem
      have := end_le sound j memJ
      rw [length_of_jump jump] at this
      omega
    rw [runStep_placeLabel sound.live unplaced inside short, returns_ok]
    obtain ⟨h', sound', grown, instructions⟩ := sound.place ({ s with code := _ }) unplaced agrees short rfl
      rfl rfl rfl
    have labels : ∀ j, j ≠ l → (((({ s.code with labels := s.code.labels.set! l (.placed s.code.code.size) }).overwriteAll
        s.code.code.size fixups.toList).reached r).labels[j]? = s.code.labels[j]?) := by
      intro j other
      simp [reached_eq, Array.set!_eq_setIfInBounds, Ne.symm other]
    have below : l < s.code.labels.size := (Array.getElem?_eq_some_iff.mp unplaced).1
    have size : ((({ s.code with labels := s.code.labels.set! l (.placed s.code.code.size) }).overwriteAll
        s.code.code.size fixups.toList).reached r).code.size = s.code.code.size := by
      rw [reached_eq]
      exact code_size_overwriteAll (b := { s.code with labels := s.code.labels.set! l (.placed s.code.code.size) })
        sound.live _ _
    refine ⟨h', sound', grown, ?_, by simp [reached_eq, Array.set!_eq_setIfInBounds, below],
      by simp [reached_eq], size, instructions, rfl⟩
    exact {
      size := by simp [reached_eq]
      labels := fun j _ other => labels j (by simpa using other)
      placed := fun j low high _ => absurd high (by simp [reached_eq]; omega)
      frames := rfl
      breaks := ⟨[], rfl⟩
      slots := rfl
      grown := grown.size
      rows := .of_handlers (by simp [reached_eq]) }
  · rw [runStep_placeLabel_long sound.live l (by omega)]
    trivial

/-- A fresh label waits for nothing yet. -/
theorem runs_freshLabel : Runs env s h Lowering.freshLabel fun l s' h' =>
    l = s.code.labels.size ∧ s'.code.labels[l]? = some (.unplaced #[] none) ∧ Contained [l] s s' ∧
      s'.code.depth = s.code.depth ∧ s'.code.code.size = s.code.code.size ∧ h' = h := by
  intro sound
  rw [Lowering.freshLabel, runStep_onCode, CodeBuilder.runStep_freshLabel, returns_ok]
  obtain ⟨sound', grown⟩ := sound.freshLabel
    ({ s with code := { s.code with labels := s.code.labels.push (.unplaced #[] none) } }) rfl rfl rfl rfl
  refine ⟨h, sound', grown, rfl, by simp, ?_, rfl, rfl, rfl⟩
  exact {
    size := by simp
    labels := fun j below _ => by simp [Array.getElem?_push, Nat.ne_of_lt below]
    placed := fun j low high other => absurd (by simp at high; omega : j = s.code.labels.size) (by simpa using other)
    frames := rfl
    breaks := ⟨[], rfl⟩
    slots := rfl
    grown := Nat.le_refl _
    rows := .of_handlers rfl }

/-- Entering a handler where the code is unreachable: the stack holds the caught exception. -/
theorem runs_enterHandler (unreached : s.code.depth = none) : Runs env s h Lowering.enterHandler fun _ s' _ =>
    Contained [] s s' ∧ s'.code.depth = some 1 ∧ s'.code.instructions = s.code.instructions ∧
      s'.code.code.size = s.code.code.size ∧ s'.code.handlers = s.code.handlers := by
  intro sound
  rw [Lowering.enterHandler, runStep_onCode, CodeBuilder.runStep_enterHandler, returns_ok]
  obtain ⟨sound', grown⟩ := sound.enterHandler ({ s with code := ({ s.code with depth := some 0 }).adjusted 1 })
    unreached rfl rfl rfl rfl
  exact ⟨_, sound', grown, .of_kept rfl rfl rfl (Nat.le_refl _) rfl, by simp [adjusted, depthAfter], rfl, rfl, rfl⟩

/-- A row of the exception table over a range of whole instructions that every earlier row lies
inside or apart from, whose handler starts at an instruction noted at height one. The row is the
only change. -/
theorem runs_addHandler {start stop handler : Nat} (catchClass : Option Nat)
    (covers : s.code.Covers start stop)
    (apart : ∀ r ∈ s.code.handlers.toList, r.Within start stop)
    (starts : Starts s.code.instructions handler) (height : h handler = 1)
    (catches : ∀ c, catchClass = some c → Names s.pool.entries c Constant.isClassRef) :
    Runs env s h (Lowering.addHandler start stop handler catchClass) fun _ s' h' =>
      Spans [] s s' ∧ s'.locals = s.locals ∧
        s'.code.handlers = s.code.handlers.push ⟨start, stop, handler, catchClass⟩ ∧
        s'.code.depth = s.code.depth ∧ s'.code.code.size = s.code.code.size ∧ h' = h := by
  intro sound
  have inside : handler < s.code.code.size := by
    obtain ⟨j, mem, rfl⟩ := starts
    exact offset_lt sound mem
  rw [Lowering.addHandler, runStep_onCode,
    CodeBuilder.runStep_addHandler sound.live catchClass ⟨covers.1, covers.2.1, inside⟩, returns_ok]
  obtain ⟨sound', grown⟩ := sound.addHandler
    ({ s with code := { s.code with handlers := s.code.handlers.push ⟨start, stop, handler, catchClass⟩ } })
    ⟨start, stop, handler, catchClass⟩ covers apart starts height catches rfl rfl rfl rfl
  exact ⟨h, sound', grown, .of_kept rfl rfl, rfl, rfl, rfl, rfl, rfl⟩

/-- Appending one instruction grows the code by its length. -/
theorem size_of_append {init : Bool} {s' : Lowering} {h' : Nat → Nat} (sound : Sound init s h)
    (sound' : Sound init s' h') {i : Instruction}
    (appended : s'.code.instructions = s.code.instructions ++ [i]) :
    s'.code.code.size = s.code.code.size + i.opcode.length := by
  rw [size_eq_length_image sound'.encoded, size_eq_length_image sound.encoded, appended, image_append,
    List.length_append]
  simp [image, Instruction.length_bytes i (sound'.encoded.2.2 i (by simp [appended]))]

end Emit

end Lowering

/-! ## Constants and intrinsics -/

namespace Intrinsic

/-- What an intrinsic takes from the stack: its arguments, and a receiver unless it is static. -/
def takes (f : Intrinsic) : Nat := f.reference.descriptor.params.length + f.invocation.receivers

/-- What an intrinsic leaves on the stack: its result, if it has one. -/
def gives (f : Intrinsic) : Nat := if f.reference.descriptor.ret.isSome then 1 else 0

theorem invocation_isInvoke (f : Intrinsic) : f.invocation.isInvoke = true := by
  cases f <;> rfl

@[simp] theorem takes_invoke (arity : Nat) : (invoke arity).takes = arity + 1 := by
  simp [takes, reference, invocation, FunctionDescriptor.dynamic, Opcode.receivers]

@[simp] theorem gives_invoke (arity : Nat) : (invoke arity).gives = 1 := by
  simp [gives, reference, FunctionDescriptor.dynamic]

end Intrinsic

namespace Lowering

/-! ## Balanced steps -/

/-- Run from any sound state whose stack holds `k` values, the step ends with `k'` values,
reached unless `k'` is zero, and leaves the labels, loops and slots around it as it found them.
Every expression is such a step from `k` to `k + 1`, and every statement from `0` to `0`. -/
def Leaves (env : FunctionEnv) (m : LowerM Unit) (k k' : Nat) : Prop :=
  ∀ s h, s.Holds k → Runs env s h m fun _ s' _ => s'.Holds k' ∧ Contained [] s s'

/-- `Leaves`, from the states whose pool begins with `entries`: a step that uses pool indices
handed out before it, which name entries of `entries`. -/
def LeavesAbove (entries : Array Constant) (env : FunctionEnv) (m : LowerM Unit) (k k' : Nat) : Prop :=
  ∀ s h, s.Holds k → entries.toList <+: s.pool.entries.toList →
    Runs env s h m fun _ s' _ => s'.Holds k' ∧ Contained [] s s'

section Values

variable {env : FunctionEnv} {s : Lowering} {h : Nat → Nat}

theorem Leaves.seq {m : LowerM Unit} {f : Unit → LowerM Unit} {k₁ k₂ k₃ : Nat}
    (first : Leaves env m k₁ k₂) (second : ∀ u, Leaves env (f u) k₂ k₃) : Leaves env (m >>= f) k₁ k₃ := by
  intro s h holds
  apply Runs.bind (first s h holds)
  rintro u s₁ h₁ - grown₁ ⟨holds₁, contained₁⟩
  apply (second u s₁ h₁ holds₁).mono
  rintro _ s₂ h₂ - grown₂ ⟨holds₂, contained₂⟩
  exact ⟨holds₂, contained₁.trans contained₂⟩

theorem leaves_pure (k : Nat) : Leaves env (pure ()) k k :=
  fun s _ holds => runs_pure () ⟨holds, Contained.refl [] s⟩

theorem Leaves.above {m : LowerM Unit} {k k' : Nat} (leaves : Leaves env m k k') (entries : Array Constant) :
    LeavesAbove entries env m k k' :=
  fun s h holds _ => leaves s h holds

/-- Every pool begins with the empty one. -/
theorem LeavesAbove.leaves {m : LowerM Unit} {k k' : Nat} (above : LeavesAbove #[] env m k k') :
    Leaves env m k k' :=
  fun s h holds => above s h holds (List.nil_prefix)

-- the pool only grows, so what a step finds in it stays there for the next
theorem LeavesAbove.seq {entries : Array Constant} {m : LowerM Unit} {f : Unit → LowerM Unit} {k₁ k₂ k₃ : Nat}
    (first : LeavesAbove entries env m k₁ k₂) (second : ∀ u, LeavesAbove entries env (f u) k₂ k₃) :
    LeavesAbove entries env (m >>= f) k₁ k₃ := by
  intro s h holds above
  apply Runs.bind (first s h holds above)
  rintro u s₁ h₁ - grown₁ ⟨holds₁, contained₁⟩
  apply (second u s₁ h₁ holds₁ (above.trans grown₁.pool)).mono
  rintro _ s₂ h₂ - grown₂ ⟨holds₂, contained₂⟩
  exact ⟨holds₂, contained₁.trans contained₂⟩

/-- A pool step that interns an entry, followed by a step that may use the entries the pool it
left holds. -/
theorem Leaves.after_pool {m : PoolM Nat} {post : Nat → ConstantPool → Prop} {f : Nat → LowerM Unit} {k k' : Nat}
    (interns : ConstantPool.Interns m post)
    (second : ∀ i (p : ConstantPool), post i p → LeavesAbove p.entries env (f i) k k') :
    Leaves env (onPool m >>= f) k k' := by
  intro s h holds
  apply Runs.bind (runs_onPool interns)
  rintro i s₁ h₁ - - ⟨still, -, -, -, -, interned⟩
  apply (second i s₁.pool interned s₁ h₁ (still.holds holds) (List.prefix_refl _)).mono
  rintro _ s₂ h₂ - - ⟨holds₂, contained₂⟩
  exact ⟨holds₂, (still.contained []).trans contained₂⟩

/-- A step that changes nothing but the pool and the diagnostics, followed by a balanced one. -/
theorem Leaves.after_still {α : Type} {m : LowerM α} {good : α → Prop} {f : α → LowerM Unit} {k k' : Nat}
    (first : ∀ s h, Runs env s h m fun a s' _ => Still s s' ∧ good a)
    (second : ∀ a, good a → Leaves env (f a) k k') : Leaves env (m >>= f) k k' := by
  intro s h holds
  apply Runs.bind (first s h)
  rintro a s₁ h₁ - grown₁ ⟨still, isGood⟩
  apply (second a isGood s₁ h₁ (still.holds holds)).mono
  rintro _ s₂ h₂ - grown₂ ⟨holds₂, contained₂⟩
  exact ⟨holds₂, (still.contained []).trans contained₂⟩

/-- A plain instruction that falls through, from a state whose pool names what it refers to. -/
theorem runs_fallingOp {o : Opcode} {xs : List Nat} (plain : o.isJump = false ∧ o.isInvoke = false)
    (count : xs.length = o.operands.length) (wide : o.operands = [.u16] → ∀ x ∈ xs, x ≤ 65535)
    (falls : o.isUnconditional = false) {k after : Nat} {e : Int} (effect : o.stackEffect = some e)
    (room : o.pops ≤ k) (result : (after : Int) = k + e) (holds : s.Holds k)
    (refers : Instruction.Refers s.pool.entries ⟨s.code.code.size, o, xs⟩) :
    Runs env s h (op o xs) fun _ s' _ => s'.Holds after ∧ Contained [] s s' := by
  have returns : (o = .ret → env.isInitializer = true) ∧ (o = .retA → env.isInitializer = false) :=
    ⟨fun ret => absurd falls (by rw [ret]; decide), fun ret => absurd falls (by rw [ret]; decide)⟩
  apply (runs_op plain count wide holds effect room result returns refers).mono
  rintro _ s' h' - - ⟨contained, -, depth⟩
  rw [falls] at depth
  exact ⟨Or.inl depth, contained⟩

/-- A plain instruction that falls through and takes no pool index. -/
theorem leaves_op {o : Opcode} {xs : List Nat} (plain : o.isJump = false ∧ o.isInvoke = false ∧ o.entryKind = none)
    (count : xs.length = o.operands.length) (wide : o.operands = [.u16] → ∀ x ∈ xs, x ≤ 65535)
    (falls : o.isUnconditional = false) {k after : Nat} {e : Int} (effect : o.stackEffect = some e)
    (room : o.pops ≤ k) (result : (after : Int) = k + e) : Leaves env (op o xs) k after :=
  fun _ _ holds => runs_fallingOp ⟨plain.1, plain.2.1⟩ count wide falls effect room result holds
    (Instruction.refers_of_none plain.2.2)

/-- An instruction that falls through and takes the index of a pool entry of the kind its opcode
asks for. -/
theorem leaves_poolOp {o : Opcode} {kind : Constant → Bool} (plain : o.isJump = false ∧ o.isInvoke = false)
    (asks : o.entryKind = some kind) (falls : o.isUnconditional = false) {k after : Nat} {e : Int}
    (effect : o.stackEffect = some e) (room : o.pops ≤ k) (result : (after : Int) = k + e)
    {entries : Array Constant} {f : Nat} (names : Names entries f kind) :
    LeavesAbove entries env (op o [f]) k after := by
  intro s h holds above
  apply Runs.of_sound
  intro sound
  have operands := Opcode.operands_of_entryKind asks
  have small : f ≤ 65535 := by
    have := (names.mono above).le_size
    have := sound.pool.bounded
    simp only [ConstantPool.maxIndex] at this
    omega
  exact runs_fallingOp plain (by rw [operands]; rfl) (fun _ x mem => by simpa [List.mem_singleton.mp mem] using small)
    falls effect room result holds (Instruction.refers_of_names asks rfl (names.mono above))

/-- An invocation replaces its arguments, and its receiver unless it is static, by its result,
if it has one. -/
theorem leaves_invokeEntry {o : Opcode} (invoke : o.isInvoke = true) (ref : FunctionRef) {k t g : Nat}
    (takes : ref.descriptor.params.length + o.receivers = t)
    (gives : (if ref.descriptor.ret.isSome then 1 else 0) = g) :
    Leaves env (invokeEntry o ref) (k + t) (k + g) := by
  intro s h holds
  apply (runs_invokeEntry (k := k + t) invoke ref holds (by omega) (?_ : ((k + g : Nat) : Int) = _)).mono
  · rintro _ s' h' - - ⟨contained, depth⟩
    exact ⟨Or.inl depth, contained⟩
  · simp only [FunctionDescriptor.stackEffect]
    cases result : ref.descriptor.ret.isSome <;> simp only [result, Bool.false_eq_true, if_true, if_false] at gives ⊢ <;> omega

/-- An intrinsic replaces what it takes by what it gives. -/
theorem leaves_callIntrinsic (f : Intrinsic) (k : Nat) :
    Leaves env (callIntrinsic f) (k + f.takes) (k + f.gives) :=
  leaves_invokeEntry f.invocation_isInvoke f.reference rfl rfl

/-- Pushing a value through the pool: a constant, a string, a boolean. -/
theorem leaves_loadConstant {entries : Array Constant} {index : Nat} (names : Names entries index Constant.isLoadable)
    (k : Nat) : LeavesAbove entries env (loadConstant index) k (k + 1) :=
  leaves_poolOp (o := .loadCpr) ⟨rfl, rfl⟩ rfl rfl rfl (Nat.zero_le k) (by push_cast; rfl) names

theorem leaves_loadString (text : String) (k : Nat) : Leaves env (loadString text) k (k + 1) :=
  Leaves.after_pool (ConstantPool.interns_constantData (.string text)) fun _ _ names => leaves_loadConstant names k

theorem leaves_loadBoolean (b : BooleanField) (k : Nat) : Leaves env (loadBoolean b) k (k + 1) :=
  Leaves.after_pool (ConstantPool.interns_fieldRef b.reference) fun _ _ names =>
    leaves_poolOp (o := .loadStaticField) ⟨rfl, rfl⟩ rfl rfl rfl (Nat.zero_le k) (by push_cast; rfl) names

/-- A conditional jump, taken on a zero or a nonzero value, to a label that waits: it is recorded
at the label with the height below the tested value. -/
theorem runs_branch {o : Opcode} (branch : o = .jumpEq0I ∨ o = .jumpNe0I) {l k : Nat} {fixups : Array Nat}
    {r : Option Nat} (unplaced : s.code.labels[l]? = some (.unplaced fixups r)) (holds : s.Holds (k + 1))
    (agrees : ∀ d, r = some d → d = k) :
    Runs env s h (Lowering.jump o l) fun _ s' _ =>
      Contained [l] s s' ∧ s'.code.depth = some k ∧
        s'.code.labels[l]? = some (.unplaced (fixups.push (s.code.code.size + 1)) (some k)) ∧
        s'.code.instructions = s.code.instructions ++ [⟨s.code.code.size, o, [0]⟩] := by
  have jump : o.isJump = true := by rcases branch with rfl | rfl <;> rfl
  have falls : o.isUnconditional = false := by rcases branch with rfl | rfl <;> rfl
  have room : o.pops ≤ k + 1 := by rcases branch with rfl | rfl <;> simp [Opcode.pops]
  have result : ((k : Nat) : Int) = ((k + 1 : Nat) : Int) + o.stackEffect.getD 0 := by
    rcases branch with rfl | rfl <;> simp only [Opcode.stackEffect, Option.getD_some] <;> omega
  apply (runs_jump_unplaced jump unplaced holds room result agrees).mono
  rintro _ s' h' - - ⟨contained, label, instructions, depth⟩
  rw [falls] at depth
  exact ⟨contained, depth, label, instructions⟩

/-- Testing the truth of the value on the stack, and jumping to a label that waits when it is
false. -/
theorem runs_jumpUnlessTrue {l k : Nat} {fixups : Array Nat} {r : Option Nat}
    (unplaced : s.code.labels[l]? = some (.unplaced fixups r)) (holds : s.Holds (k + 1))
    (agrees : ∀ d, r = some d → d = k) :
    Runs env s h (jumpUnlessTrue l) fun _ s' _ =>
      Contained [l] s s' ∧ s'.code.depth = some k ∧ ∃ o : Nat, s.code.code.size ≤ o ∧
        s'.code.labels[l]? = some (.unplaced (fixups.push (o + 1)) (some k)) ∧
        (⟨o, .jumpEq0I, [0]⟩ : Instruction) ∈ s'.code.instructions ∧ s'.code.code.size = o + 3 := by
  apply Runs.bind (leaves_callIntrinsic .isTrue k s h holds)
  rintro _ s₁ h₁ sound₁ grown₁ ⟨tested, contained₁⟩
  apply (runs_branch (Or.inl rfl) (contained₁.keeps unplaced List.not_mem_nil) tested agrees).mono
  rintro _ s₂ h₂ sound₂ - ⟨contained₂, depth₂, label, instructions⟩
  exact ⟨contained₁.trans contained₂, depth₂, s₁.code.code.size, grown₁.size, label,
    by rw [instructions]; simp, size_of_append sound₁ sound₂ instructions⟩

end Values

end Lowering

end Febc
