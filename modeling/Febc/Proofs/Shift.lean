import Febc.Proofs.Builder

/-!
# Renumbered channels

Channels are numbered in the order they are opened, and closing one leaves its number used: a
session that compiled classes before holds closed channels, and every channel it opens next has a
higher number than in a new session. Nothing of the code depends on those numbers. This module
states that for the channel and code-builder layers: `ChannelSet.shift n` puts `n` closed
channels before the others and numbers every channel `n` higher, and each step run on a shifted
state answers what it answers on the state itself, leaves the shifted state it leaves, and stops
the same way, a channel it names numbered `n` higher (`Halt.shift`).

The statement is `Renames f g m' m`: running `m'` on `f s` is running `m` on `s`, then mapping
the state by `f` and a stop by `g`. Mostly `m'` is `m` itself; a step that names a channel names
it `n` higher on the renumbered side. The statement is kept by binding, so every step built from
the ones here has it too.

Main statements:
* `Renames.bind`: a step followed by steps that rename renames;
* `ChannelSet.renumbers_remove`, `renumbers_setActive`, `renumbers_patch`, `renames_emit`: the
  channel steps, on their renumbered channel;
* `CodeBuilder.shifts_result` and the other `shifts_` lemmas: every step of a code builder.
-/

namespace Febc

/-- The same violation, a channel it names numbered `n` higher. -/
def Violation.shift (n : Nat) : Violation → Violation
  | .channelNotOpen id => .channelNotOpen (id + n)
  | v => v

/-- The same stop, a channel it names numbered `n` higher. -/
def Halt.shift (n : Nat) : Halt → Halt
  | .error e => .error e
  | .violation v => .violation (v.shift n)

@[simp] theorem Halt.shift_error (n : Nat) (e : Error) : Halt.shift n (.error e) = .error e := rfl

@[simp] theorem Halt.shift_channelNotOpen (n id : Nat) :
    Halt.shift n (.violation (.channelNotOpen id)) = .violation (.channelNotOpen (id + n)) := rfl

section Renames

variable {ε σ α β : Type}

/-- Running `m'` on `f s` answers what `m` answers on `s`, with a stop mapped by `g`, and leaves
`f` of the state `m` leaves. With `m' = m`, the step commutes with `f`. -/
def Renames (f : σ → σ) (g : ε → ε) (m' m : ExceptT ε (StateM σ) α) : Prop :=
  ∀ s, runStep m' (f s) = ((runStep m s).1.mapError g, f (runStep m s).2)

variable {f : σ → σ} {g : ε → ε}

theorem Renames.bind {m' m : ExceptT ε (StateM σ) α} {k' k : α → ExceptT ε (StateM σ) β}
    (first : Renames f g m' m) (rest : ∀ a, Renames f g (k' a) (k a)) : Renames f g (m' >>= k') (m >>= k) := by
  intro s
  rw [runStep_bind, runStep_bind, first s]
  obtain ⟨_ | a, s'⟩ := runStep m s
  · rfl
  · exact rest a s'

theorem renames_pure (a : α) : Renames f g (pure a : ExceptT ε (StateM σ) α) (pure a) := fun _ => rfl

/-- A stop that the map of stops keeps. -/
theorem renames_throw {e : ε} (fixed : g e = e) : Renames f g (throw e : ExceptT ε (StateM σ) α) (throw e) := by
  intro s
  simp [Except.mapError, fixed]

/-- A stop, whatever was to follow it. -/
theorem renames_throw_bind {e : ε} (fixed : g e = e) {k' k : α → ExceptT ε (StateM σ) β} :
    Renames f g (throw e >>= k') (throw e >>= k) := by
  intro s
  rw [runStep_bind, runStep_bind]
  simp [Except.mapError, fixed]

theorem renames_ite {c : Prop} [Decidable c] {yes' yes no' no : ExceptT ε (StateM σ) α}
    (onYes : Renames f g yes' yes) (onNo : Renames f g no' no) :
    Renames f g (if c then yes' else no') (if c then yes else no) := by
  split
  · exact onYes
  · exact onNo

/-- A change of the state that the map passes through. -/
theorem renames_modify {h : σ → σ} (swap : ∀ s, h (f s) = f (h s)) :
    Renames f g (modify h : ExceptT ε (StateM σ) PUnit) (modify h) := by
  intro s
  simp [swap]
  rfl

/-- Reading the state: the step that follows on `f s` renames the one that follows on `s`. -/
theorem renames_get_bind {k' k : σ → ExceptT ε (StateM σ) α} (rest : ∀ s, Renames f g (k' (f s)) (k s)) :
    Renames f g (get >>= k') (get >>= k) := by
  intro s
  rw [runStep_bind, runStep_bind]
  exact rest s s

end Renames

namespace ChannelSet

/-- The same channels after `n` closed ones, each numbered `n` higher. -/
def shift (n : Nat) (cs : ChannelSet) : ChannelSet :=
  ⟨Array.replicate n none ++ cs.slots, cs.active.map (· + n)⟩

@[simp] theorem shift_active (n : Nat) (cs : ChannelSet) : (cs.shift n).active = cs.active.map (· + n) := rfl

@[simp] theorem getElem?_shift (n id : Nat) (cs : ChannelSet) : (cs.shift n).slots[id + n]? = cs.slots[id]? := by
  simp [shift, Array.getElem?_append_right]

theorem modify_shift (n id : Nat) (cs : ChannelSet) (f : Option (Array UInt8) → Option (Array UInt8)) :
    (cs.shift n).slots.modify (id + n) f = Array.replicate n none ++ cs.slots.modify id f := by
  apply Array.ext_getElem?
  intro j
  simp only [shift, Array.getElem?_modify, Array.getElem?_append, Array.size_replicate]
  split <;> split <;> grind

theorem set!_shift (n id : Nat) (cs : ChannelSet) (x : Option (Array UInt8)) :
    (cs.shift n).slots.set! (id + n) x = Array.replicate n none ++ cs.slots.set! id x := by
  simp [shift, Array.setIfInBounds_append_right]

/-- The open channels are those of the state itself: the ones put before are closed. -/
@[simp] theorem openCount_shift (n : Nat) (cs : ChannelSet) : (cs.shift n).openCount = cs.openCount := by
  simp [openCount, shift, List.countP_replicate]

theorem bytes?_shift (n id : Nat) (cs : ChannelSet) :
    (cs.shift n).bytes? (id + n) = (cs.bytes? id).mapError (Halt.shift n) := by
  simp only [bytes?, getElem?_shift]
  split <;> rfl

/-- What a step of the channels does, renumbered: on the shifted channels, the step on a channel
`n` higher renames the step on the channel itself. -/
def Renumbers {α : Type} (step : Nat → ChannelM α) : Prop :=
  ∀ n id, Renames (shift n) (Halt.shift n) (step (id + n)) (step id)

theorem renumbers_size : Renumbers size := by
  intro n id cs
  simp only [size, runStep_mk, bytes?_shift]
  cases cs.bytes? id <;> rfl

theorem renumbers_remove : Renumbers remove := by
  intro n id cs
  obtain ⟨slots, active⟩ := cs
  simp only [remove, runStep_mk]
  rw [show (⟨slots, active⟩ : ChannelSet).shift n = ⟨Array.replicate n none ++ slots, active.map (· + n)⟩ from rfl]
  have found : (Array.replicate n none ++ slots)[id + n]? = slots[id]? :=
    getElem?_shift n id ⟨slots, active⟩
  rw [found]
  split
  · have set := set!_shift n id ⟨slots, active⟩ none
    simp only [shift] at set
    simp only [Except.mapError, set, shift]
    congr 2
    cases active with
    | none => rfl
    | some v => by_cases same : v = id <;> simp [same]
  · rfl

theorem renumbers_setActive : Renumbers setActive := by
  intro n id cs
  obtain ⟨slots, active⟩ := cs
  simp only [setActive, runStep_mk]
  have found : (Array.replicate n none ++ slots)[id + n]? = slots[id]? :=
    getElem?_shift n id ⟨slots, active⟩
  simp only [shift, found]
  split <;> rfl

theorem renumbers_patch (offset value : Nat) : Renumbers fun id => patch id offset value := by
  intro n id cs
  obtain ⟨slots, active⟩ := cs
  simp only [patch, runStep_mk]
  have found : (Array.replicate n none ++ slots)[id + n]? = slots[id]? :=
    getElem?_shift n id ⟨slots, active⟩
  simp only [shift, found]
  split
  · split
    · rfl
    · split
      · rfl
      · have modified := modify_shift n id ⟨slots, active⟩
        simp only [shift] at modified
        simp [Except.mapError, modified]
  · rfl

/-- Opening a channel after the renumbered ones numbers it `n` higher. -/
theorem runStep_add_shift (n : Nat) (cs : ChannelSet) :
    runStep add (cs.shift n) = (.ok (cs.slots.size + n), (runStep add cs).2.shift n) := by
  obtain ⟨slots, active⟩ := cs
  simp [add, shift, Nat.add_comm]

/-- Checking operands stops only with a violation that names no channel. -/
theorem checkOperands_fixed {o : Opcode} {operands : List Nat} {h : Halt} (stopped : checkOperands o operands = .error h)
    (n : Nat) : Halt.shift n h = h := by
  unfold checkOperands at stopped
  split at stopped
  · cases stopped
    rfl
  · split at stopped
    · cases stopped
      rfl
    · cases stopped

/-- Emitting writes to the active channel, whatever its number. -/
theorem renames_emit (o : Opcode) (operands : List Nat) (n : Nat) :
    Renames (shift n) (Halt.shift n) (emit o operands) (emit o operands) := by
  intro cs
  obtain ⟨slots, active⟩ := cs
  simp only [emit, runStep_mk, shift]
  split
  · rfl
  · cases active with
    | none => rfl
    | some id =>
      have found : (Array.replicate n none ++ slots)[id + n]? = slots[id]? :=
        getElem?_shift n id ⟨slots, none⟩
      simp only [Option.map_some, found]
      split
      · split
        · have modified := modify_shift n id ⟨slots, some id⟩
          simp only [shift] at modified
          simp [Except.mapError, modified]
        · rename_i stopped
          simp [Except.mapError, checkOperands_fixed stopped n]
      · rfl

end ChannelSet

namespace CodeBuilder

/-- The same builder on the renumbered channels: its own channel and the one active before it
numbered `n` higher. -/
def shift (n : Nat) (b : CodeBuilder) : CodeBuilder :=
  { b with channels := b.channels.shift n, channel := b.channel + n, previousActive := b.previousActive.map (· + n) }

@[simp] theorem shift_labels (n : Nat) (b : CodeBuilder) : (b.shift n).labels = b.labels := rfl
@[simp] theorem shift_depth (n : Nat) (b : CodeBuilder) : (b.shift n).depth = b.depth := rfl
@[simp] theorem shift_maxDepth (n : Nat) (b : CodeBuilder) : (b.shift n).maxDepth = b.maxDepth := rfl
@[simp] theorem shift_handlers (n : Nat) (b : CodeBuilder) : (b.shift n).handlers = b.handlers := rfl
@[simp] theorem shift_localCount (n : Nat) (b : CodeBuilder) : (b.shift n).localCount = b.localCount := rfl

/-- A step of a code builder that renames itself under renumbering the channels, by any amount. -/
def Shifts {α : Type} (m : CodeM α) : Prop := ∀ n, Renames (shift n) (Halt.shift n) m m

section Shifts

variable {α β : Type}

theorem Shifts.bind {m : CodeM α} {k : α → CodeM β} (first : Shifts m) (rest : ∀ a, Shifts (k a)) :
    Shifts (m >>= k) :=
  fun n => (first n).bind fun a => rest a n

theorem shifts_pure (a : α) : Shifts (pure a : CodeM α) := fun _ => renames_pure a

/-- A stop that names no channel. -/
theorem shifts_throw {h : Halt} (fixed : ∀ n, Halt.shift n h = h) : Shifts (throw h : CodeM α) :=
  fun n => renames_throw (fixed n)

theorem shifts_throw_bind {h : Halt} (fixed : ∀ n, Halt.shift n h = h) {k : α → CodeM β} : Shifts (throw h >>= k) :=
  fun n => renames_throw_bind (fixed n)

theorem shifts_ite {c : Prop} [Decidable c] {yes no : CodeM α} (onYes : Shifts yes) (onNo : Shifts no) :
    Shifts (if c then yes else no) :=
  fun n => renames_ite (onYes n) (onNo n)

/-- A change of the builder that passes through renumbering. -/
theorem shifts_modify {h : CodeBuilder → CodeBuilder} (swap : ∀ n b, h (b.shift n) = (h b).shift n) :
    Shifts (modify h : CodeM PUnit) :=
  fun n => renames_modify (swap n)

/-- Reading the builder for what renumbering keeps. -/
theorem shifts_get_bind {k : CodeBuilder → CodeM α} (reads : ∀ n b, k (b.shift n) = k b) (rest : ∀ b, Shifts (k b)) :
    Shifts (get >>= k) :=
  fun n => renames_get_bind fun b => by rw [reads]; exact rest b n

/-- A step of the channels on the builder's own channel, or on one it names, numbered `n` higher on
the renumbered side. -/
theorem renames_onChannels {n : Nat} {step' step : Nat → ChannelM α}
    (renames : ∀ id, Renames (ChannelSet.shift n) (Halt.shift n) (step' (id + n)) (step id)) :
    Renames (shift n) (Halt.shift n) (onChannels step') (onChannels step) := by
  intro b
  obtain ⟨cs, channel, previous, labels, depth, maxDepth, handlers, localCount⟩ := b
  simp only [onChannels, runStep_mk, shift]
  rw [renames channel cs]

theorem shifts_onChannels {step : Nat → ChannelM α} (renumbers : ChannelSet.Renumbers step) :
    Shifts (onChannels step) :=
  fun n => renames_onChannels (renumbers n)

end Shifts

/-- Starting on a renumbered channel gives the renumbered builder. -/
theorem onChannel_shift (n channel : Nat) (cs : ChannelSet) :
    onChannel (cs.shift n) (channel + n) = ((onChannel cs channel).map (shift n)).mapError (Halt.shift n) := by
  unfold onChannel
  rw [ChannelSet.renumbers_setActive n channel cs]
  generalize runStep (ChannelSet.setActive channel) cs = r
  obtain ⟨_ | _, cs'⟩ := r <;> rfl

/-- Starting on a new channel after the renumbered ones gives the renumbered builder. -/
theorem start_shift (n : Nat) (cs : ChannelSet) : start (cs.shift n) = ((start cs).map (shift n)).mapError (Halt.shift n) := by
  unfold start
  rw [ChannelSet.runStep_add_shift]
  exact onChannel_shift n _ _

theorem shifts_emit (o : Opcode) (operands : List Nat) : Shifts (emit o operands) :=
  fun n => renames_onChannels fun _ => ChannelSet.renames_emit o operands n

theorem shifts_currentOffset : Shifts currentOffset :=
  (shifts_onChannels ChannelSet.renumbers_size).bind fun size =>
    shifts_ite (shifts_throw fun _ => rfl) (shifts_pure size)

theorem shifts_freshLabel : Shifts freshLabel := fun _ _ => rfl

theorem shifts_patch (offset value : Nat) : Shifts (patch offset value) :=
  shifts_onChannels (ChannelSet.renumbers_patch offset value)

theorem shifts_patchAll (offset : Nat) : ∀ fixups : List Nat, Shifts (patchAll offset fixups)
  | [] => shifts_pure ()
  | f :: rest => (shifts_patch f offset).bind fun _ => shifts_patchAll offset rest

theorem shifts_placeLabel (label : Nat) : Shifts (placeLabel label) := by
  refine shifts_currentOffset.bind fun offset => shifts_get_bind (fun _ _ => rfl) fun b => ?_
  refine (shifts_modify fun _ _ => rfl).bind fun _ => ?_
  split
  · exact shifts_pure ()
  · exact shifts_throw fun _ => rfl
  · refine (shifts_patchAll offset _).bind fun _ => shifts_modify fun n b => ?_
    -- reaching unreachable code reads only the depth, which renumbering keeps
    rw [shift_depth]
    split <;> rfl

theorem shifts_adjust (effect : Int) : Shifts (adjust effect) := shifts_modify fun _ _ => rfl

theorem shifts_endIfUnconditional (o : Opcode) : Shifts (endIfUnconditional o) :=
  shifts_ite (shifts_modify fun _ _ => rfl) (shifts_pure ())

theorem shifts_pushInstruction (o : Opcode) (operands : List Nat) : Shifts (pushInstruction o operands) := by
  unfold pushInstruction
  extract_lets ending emitting checking
  have ends : ∀ u, Shifts (ending u) := fun _ => shifts_endIfUnconditional o
  have emits : ∀ u, Shifts (emitting u) := by
    intro u
    refine (shifts_emit o operands).bind fun _ => ?_
    split
    · exact (shifts_adjust _).bind ends
    · exact ends ()
  have checks : ∀ u, Shifts (checking u) := by
    intro u
    refine shifts_ite ?_ (emits ())
    split
    · exact shifts_ite (shifts_throw_bind fun _ => rfl) (emits ())
    · exact emits ()
  exact shifts_ite (shifts_throw_bind fun _ => rfl) (checks ())

theorem shifts_pushInvoke (o : Opcode) (function : Nat) (descriptor : FunctionDescriptor) :
    Shifts (pushInvoke o function descriptor) := by
  unfold pushInvoke
  extract_lets receiver invoking
  have invokes : ∀ u, Shifts (invoking u) := fun _ =>
    (shifts_emit o [function]).bind fun _ => shifts_adjust _
  exact shifts_ite (shifts_throw_bind fun _ => rfl) (invokes ())

theorem shifts_pushJump (o : Opcode) (label : Nat) : Shifts (pushJump o label) := by
  unfold pushJump
  extract_lets jumping
  have jumps : ∀ u, Shifts (jumping u) := fun _ =>
    shifts_get_bind (fun _ _ => rfl) fun _ => (shifts_emit o _).bind fun _ => (shifts_adjust _).bind fun _ =>
      (shifts_modify fun _ _ => rfl).bind fun _ => shifts_endIfUnconditional o
  exact shifts_ite (shifts_throw_bind fun _ => rfl) (jumps ())

theorem shifts_pushJumpPlaceholder (o : Opcode) : Shifts (pushJumpPlaceholder o) := by
  unfold pushJumpPlaceholder
  extract_lets jumping
  have jumps : ∀ u, Shifts (jumping u) := fun _ =>
    (shifts_emit o [0]).bind fun _ => (shifts_adjust _).bind fun _ =>
      (shifts_endIfUnconditional o).bind fun _ => shifts_pure _
  exact shifts_ite (shifts_throw_bind fun _ => rfl) (jumps ())

theorem shifts_patchJump (operand target : Nat) : Shifts (patchJump operand target) :=
  shifts_patch operand target

theorem shifts_enterHandler : Shifts enterHandler :=
  (shifts_modify fun _ _ => rfl).bind fun _ => shifts_adjust 1

theorem shifts_addHandler (start stop handler : Nat) (catchClass : Option Nat) :
    Shifts (addHandler start stop handler catchClass) :=
  (shifts_onChannels ChannelSet.renumbers_size).bind fun _ =>
    shifts_ite (shifts_modify fun _ _ => rfl) (shifts_throw fun _ => rfl)

theorem shifts_setLocalCount (count : Nat) : Shifts (setLocalCount count) := shifts_modify fun _ _ => rfl

theorem shifts_liftOutcome {α : Type} (x : Outcome α) (kept : ∀ h, x = .error h → ∀ n, Halt.shift n h = h) :
    Shifts (liftOutcome x : CodeM α) := by
  cases x with
  | ok a => exact shifts_pure a
  | error h => exact shifts_throw (kept h rfl)

/-- Checking jump targets stops only with a violation that names no channel. -/
theorem checkTargets_fixed (size : Nat) (is : List Instruction) (h : Halt) (stopped : checkTargets size is = .error h) :
    ∀ n, Halt.shift n h = h := by
  induction is with
  | nil => cases stopped
  | cons i rest ih =>
    simp only [checkTargets] at stopped
    split at stopped
    · split at stopped
      · cases stopped
        exact fun _ => rfl
      · exact ih stopped
    · exact ih stopped

/-- Finishing the code closes the builder's channel and activates the one active before, whatever
their numbers. -/
theorem shifts_result : Shifts result := by
  intro n
  unfold result
  refine (shifts_onChannels ChannelSet.renumbers_remove n).bind fun code => renames_get_bind fun b => ?_
  obtain ⟨cs, channel, previous, labels, depth, maxDepth, handlers, localCount⟩ := b
  extract_lets unplaced' finishing' decoding' sizing' bounding' checking'
    unplaced finishing decoding sizing bounding checking
  -- the checks read the labels, the depth bound and the code, which renumbering keeps
  have same : checking' = checking := rfl
  have finishes : ∀ insns, Renames (shift n) (Halt.shift n) (finishing insns) (finishing insns) := fun insns =>
    (shifts_liftOutcome _ (checkTargets_fixed _ _) n).bind fun _ => renames_pure _
  have decodes : ∀ u, Renames (shift n) (Halt.shift n) (decoding u) (decoding u) := by
    intro u
    simp only [decoding]
    split
    · exact (renames_pure _).bind finishes
    · exact renames_throw_bind rfl
  have sizes : ∀ u, Renames (shift n) (Halt.shift n) (sizing u) (sizing u) := fun _ =>
    renames_ite (renames_throw_bind rfl) (decodes ())
  have bounds : ∀ u, Renames (shift n) (Halt.shift n) (bounding u) (bounding u) := fun _ =>
    renames_ite (renames_throw_bind rfl) (sizes ())
  have checks : ∀ u, Renames (shift n) (Halt.shift n) (checking u) (checking u) := fun _ =>
    renames_ite (renames_throw_bind rfl) (bounds ())
  rw [same]
  cases previous with
  | none => exact checks ()
  | some p =>
    by_cases other : p = channel
    · simp only [shift, Option.map_some, other, ne_eq, not_true_eq_false, if_false]
      exact checks ()
    · have other' : p + n ≠ channel + n := by omega
      simp only [shift, Option.map_some, ne_eq, other, other', not_false_eq_true, if_true]
      exact (renames_onChannels fun _ => ChannelSet.renumbers_setActive n p).bind checks

end CodeBuilder

end Febc
