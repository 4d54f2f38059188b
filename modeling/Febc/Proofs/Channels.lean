import Febc.Proofs.Stream
import Febc.Proofs.Body

/-!
# The contract of a channel set

A channel set is seen from outside through what its calls did: for each number, the bytes of the
channel if it is open, which channel is active, and how many numbers were handed out since the
set was last cleared. `ChannelView` is that picture, and `ChannelView.after` says what a call that
goes through does to it: a new channel gets the next number and starts empty, an emission appends
the instruction's bytes to the active channel, a patch overwrites two bytes with a big-endian
value, removing a channel closes it, and clearing closes every channel and starts the numbering
again.

A set reached by any sequence of calls shows the view those calls build (`Shows.runAll`). The
numbers are fresh only since the last clear: a number that a clear dropped is handed out again,
and a call naming it then reaches the new channel. A call naming a number that is not open stops
on a violation and leaves the set as it was.

Main statements:
* `channel_sets_keep_their_contract`: after any sequence of calls that went through, the set
  shows the view of the calls, a channel is closed exactly when its number was not handed out
  since the last clear or was removed since, a new channel gets the number of channels opened
  since the last clear, and each call answers and stops as the contract says;
* `channel_numbers_restart_after_clear`: a number dropped by a clear is handed out again.
-/

namespace Febc

/-- A call on a channel set. -/
inductive ChannelOp where
  | add
  | remove (id : Nat)
  | setActive (id : Nat)
  | clear
  | size (id : Nat)
  | bytes (id : Nat)
  | emit (op : Opcode) (operands : List Nat)
  | patch (id offset value : Nat)
  deriving DecidableEq

namespace ChannelOp

/-- Make a call, dropping what it answers. -/
def run : ChannelOp → ChannelM Unit
  | add => do let _ ← ChannelSet.add; pure ()
  | remove id => do let _ ← ChannelSet.remove id; pure ()
  | setActive id => ChannelSet.setActive id
  | clear => ChannelSet.clear
  | size id => do let _ ← ChannelSet.size id; pure ()
  | bytes id => do let _ ← ChannelSet.bytes id; pure ()
  | emit op operands => do let _ ← ChannelSet.emit op operands; pure ()
  | patch id offset value => ChannelSet.patch id offset value

/-- Make calls one after another, stopping at the first that fails. -/
def runAll : List ChannelOp → ChannelM Unit
  | [] => pure ()
  | call :: rest => do call.run; runAll rest

/-- The channel a call names, if it names one. -/
def channel? : ChannelOp → Option Nat
  | remove id | setActive id | size id | bytes id | patch id _ _ => some id
  | add | clear | emit _ _ => none

/-- The calls since the last clear, once `call` follows `calls`. -/
def since (calls : List ChannelOp) (call : ChannelOp) : List ChannelOp :=
  if call = clear then [] else calls ++ [call]

/-- The calls after the last clear. -/
def sinceClear (calls : List ChannelOp) : List ChannelOp := calls.foldl since []

end ChannelOp

/-- Two bytes of a list overwritten by a big-endian value. -/
def overwriteWord (bytes : List UInt8) (offset value : Nat) : List UInt8 :=
  (bytes.set offset (value / 256).toUInt8).set (offset + 1) value.toUInt8

/-- A channel set seen from outside: the bytes of each open channel, the active channel, and how
many numbers were handed out since the last clear. -/
structure ChannelView where
  contents : Nat → Option (List UInt8)
  active : Option Nat
  issued : Nat

namespace ChannelView

/-- No channel open and no number handed out. -/
def empty : ChannelView := ⟨fun _ => none, none, 0⟩

/-- What a call that goes through does to the channels. -/
def after (v : ChannelView) : ChannelOp → ChannelView
  | .add => { v with contents := Function.update v.contents v.issued (some []), issued := v.issued + 1 }
  | .remove id =>
    { v with
      contents := Function.update v.contents id none
      active := if v.active = some id then none else v.active }
  | .setActive id => { v with active := some id }
  | .clear => empty
  | .size _ | .bytes _ => v
  | .emit op operands =>
    match v.active with
    | some id =>
      let grown := (v.contents id).map (· ++ encodeInstruction op operands)
      { v with contents := Function.update v.contents id grown }
    | none => v
  | .patch id offset value =>
    { v with contents := Function.update v.contents id ((v.contents id).map (overwriteWord · offset value)) }

/-- The view a sequence of calls builds from no channels. -/
def ofCalls (calls : List ChannelOp) : ChannelView := calls.foldl after empty

end ChannelView

namespace ChannelSet

/-- The bytes of channel `id`, if it is open. -/
def contents (cs : ChannelSet) (id : Nat) : Option (List UInt8) :=
  match cs.slots[id]? with
  | some (some b) => some b.toList
  | _ => none

/-- A channel set shows a view when the same channels are open with the same bytes, the same
channel is active, and the numbers handed out are its slots; its active channel is open. -/
structure Shows (cs : ChannelSet) (v : ChannelView) : Prop where
  contents : ∀ id, cs.contents id = v.contents id
  active : cs.active = v.active
  issued : cs.slots.size = v.issued
  activeOpen : cs.ActiveOpen

/-! ## Reading a channel -/

section Reading

variable {cs : ChannelSet} {id : Nat}

theorem contents_of_slot {b : Array UInt8} (slot : cs.slots[id]? = some (some b)) :
    cs.contents id = some b.toList := by
  simp [contents, slot]

theorem slot_of_contents {l : List UInt8} (opened : cs.contents id = some l) :
    ∃ b, cs.slots[id]? = some (some b) ∧ b.toList = l := by
  unfold contents at opened
  split at opened
  · rename_i b slot
    exact ⟨b, slot, Option.some.inj opened⟩
  · cases opened

/-- A channel is closed exactly when its slot holds no bytes. -/
theorem contents_eq_none : cs.contents id = none ↔ ∀ b, cs.slots[id]? ≠ some (some b) := by
  constructor
  · intro closed b slot
    rw [contents_of_slot slot] at closed
    cases closed
  · intro closed
    cases opened : cs.contents id with
    | none => rfl
    | some l =>
      obtain ⟨b, slot, -⟩ := slot_of_contents opened
      exact absurd slot (closed b)

theorem contents_push (cs : ChannelSet) (a : Option Nat) (j : Nat) :
    (⟨cs.slots.push (some #[]), a⟩ : ChannelSet).contents j =
      Function.update cs.contents cs.slots.size (some []) j := by
  by_cases fresh : j = cs.slots.size
  · subst fresh
    simp [contents]
  · rw [Function.update_of_ne fresh]
    simp [contents, Array.getElem?_push, fresh]

theorem contents_set! (cs : ChannelSet) (a : Option Nat) (x : Option (Array UInt8)) {id : Nat}
    (inside : id < cs.slots.size) (j : Nat) :
    (⟨cs.slots.set! id x, a⟩ : ChannelSet).contents j = Function.update cs.contents id (x.map Array.toList) j := by
  by_cases same : j = id
  · subst same
    cases x <;> simp [contents, Array.set!_eq_setIfInBounds, inside]
  · rw [Function.update_of_ne same]
    simp [contents, Array.set!_eq_setIfInBounds, Ne.symm same]

end Reading

/-! ## One call at a time -/

section Calls

variable {cs : ChannelSet} {id : Nat} {b : Array UInt8}

theorem runStep_add (cs : ChannelSet) :
    runStep add cs = (.ok cs.slots.size, ⟨cs.slots.push (some #[]), cs.active⟩) := by
  obtain ⟨slots, active⟩ := cs
  rfl

theorem runStep_clear (cs : ChannelSet) : runStep clear cs = (.ok (), {}) := rfl

/-- A call whose answer is dropped stops where the call stops. -/
theorem runStep_discard {α : Type} (m : ChannelM α) (cs : ChannelSet) :
    runStep (do let _ ← m; pure ()) cs = match runStep m cs with
      | (.ok _, next) => (.ok (), next)
      | (.error h, next) => (.error h, next) := by
  rw [runStep_bind]
  rcases runStep m cs with ⟨_ | _, next⟩ <;> rfl

/-- A call naming a channel that is not open stops on a violation and changes nothing. -/
theorem runStep_closed {call : ChannelOp} (named : call.channel? = some id) (closed : cs.contents id = none) :
    runStep call.run cs = (.error (.violation (.channelNotOpen id)), cs) := by
  obtain ⟨slots, active⟩ := cs
  have empty : slots[id]? = none ∨ slots[id]? = some none := by
    have slot := contents_eq_none.mp closed
    rcases looked : slots[id]? with _ | _ | bytes
    · exact Or.inl rfl
    · exact Or.inr rfl
    · exact absurd looked (slot bytes)
  cases call with
  | add | clear | emit => cases named
  | remove j | size j | bytes j =>
    simp only [ChannelOp.channel?, Option.some.injEq] at named
    subst named
    rw [ChannelOp.run, runStep_discard]
    rcases empty with looked | looked <;>
      simp [remove, size, bytes, bytes?, runStep_mk, looked, violate, Except.map]
  | setActive j | patch j offset value =>
    simp only [ChannelOp.channel?, Option.some.injEq] at named
    subst named
    rw [ChannelOp.run]
    rcases empty with looked | looked <;> simp [setActive, patch, runStep_mk, looked, violate]

theorem runStep_remove_open (slot : cs.slots[id]? = some (some b)) :
    runStep (remove id) cs =
      (.ok b, ⟨cs.slots.set! id none, if cs.active = some id then none else cs.active⟩) := by
  obtain ⟨slots, active⟩ := cs
  simp only at slot
  simp only [remove, runStep_mk, slot]

theorem runStep_setActive_open (slot : cs.slots[id]? = some (some b)) :
    runStep (setActive id) cs = (.ok (), ⟨cs.slots, some id⟩) := by
  obtain ⟨slots, active⟩ := cs
  simp only at slot
  simp only [setActive, runStep_mk, slot]

theorem runStep_size_open (slot : cs.slots[id]? = some (some b)) : runStep (size id) cs = (.ok b.size, cs) := by
  simp [size, bytes?, runStep_mk, slot, Except.map]

theorem runStep_bytes_open (slot : cs.slots[id]? = some (some b)) : runStep (bytes id) cs = (.ok b, cs) := by
  simp [bytes, bytes?, runStep_mk, slot]

/-- The two bytes at `offset` overwritten by a big-endian value. -/
def overwritten (b : Array UInt8) (offset value : Nat) : Array UInt8 :=
  (b.set! offset (value / 256).toUInt8).set! (offset + 1) value.toUInt8

theorem toList_overwritten (b : Array UInt8) (offset value : Nat) :
    (overwritten b offset value).toList = overwriteWord b.toList offset value := by
  simp [overwritten, overwriteWord]

/-- A patch of an open channel: an offset whose end is no machine word overflows, one whose end
lies past the channel is outside it, and any other overwrites its two bytes. -/
theorem runStep_patch_open (slot : cs.slots[id]? = some (some b)) (offset value : Nat) :
    runStep (patch id offset value) cs =
      if offset + 2 ≥ offsetBound then (.error (.violation .offsetOverflow), cs)
      else if offset + 2 > b.size then (.error (.violation (.patchOutside offset b.size)), cs)
      else (.ok (), ⟨cs.slots.set! id (some (overwritten b offset value)), cs.active⟩) := by
  obtain ⟨slots, active⟩ := cs
  simp only at slot
  simp only [patch, runStep_mk, slot, violate, set!_of_slot slot, overwritten]

theorem runStep_emit_miscounted {op : Opcode} {xs : List Nat} (count : op.operands.length ≠ xs.length) :
    runStep (emit op xs) cs = (.error (.violation (.operandCount op)), cs) := by
  obtain ⟨slots, active⟩ := cs
  simp [emit, runStep_mk, count, violate]

/-- With no channel active an emission stops on a violation: the operand count is checked
first. -/
theorem runStep_emit_idle (idle : cs.active = none) (op : Opcode) (xs : List Nat) :
    runStep (emit op xs) cs =
      (.error (.violation (if op.operands.length ≠ xs.length then .operandCount op else .noActiveChannel)), cs) := by
  obtain ⟨slots, active⟩ := cs
  simp only at idle
  subst idle
  by_cases count : op.operands.length ≠ xs.length <;> simp [emit, runStep_mk, count, violate]

theorem runStep_emit_active (active : cs.active = some id) (slot : cs.slots[id]? = some (some b))
    {op : Opcode} {xs : List Nat} (count : xs.length = op.operands.length) (checked : checkOperands op xs = .ok ()) :
    runStep (emit op xs) cs =
      (.ok b.size, ⟨cs.slots.set! id (some (b ++ (encodeInstruction op xs).toArray)), cs.active⟩) := by
  obtain ⟨slots, act⟩ := cs
  simp only at active slot
  subst active
  simp [emit, runStep_mk, count, slot, checked, set!_of_slot slot]

theorem runStep_emit_refused (active : cs.active = some id) (slot : cs.slots[id]? = some (some b))
    {op : Opcode} {xs : List Nat} (count : xs.length = op.operands.length) {h : Halt}
    (refused : checkOperands op xs = .error h) : runStep (emit op xs) cs = (.error h, cs) := by
  obtain ⟨slots, act⟩ := cs
  simp only at active slot
  subst active
  simp [emit, runStep_mk, count, slot, refused]

end Calls

/-! ## Showing a view, call after call -/

section Views

variable {cs : ChannelSet} {v : ChannelView} {id : Nat} {b : Array UInt8}

theorem shows_empty : ({} : ChannelSet).Shows ChannelView.empty where
  contents _ := by simp [contents, ChannelView.empty]
  active := rfl
  issued := rfl
  activeOpen _ idle := by cases idle

theorem Shows.contents_eq (shows : cs.Shows v) : cs.contents = v.contents := funext shows.contents

theorem Shows.open_of_slot (shows : cs.Shows v) (slot : cs.slots[id]? = some (some b)) :
    v.contents id = some b.toList := by
  rw [← shows.contents, contents_of_slot slot]

theorem Shows.add (shows : cs.Shows v) : Shows ⟨cs.slots.push (some #[]), cs.active⟩ (v.after .add) where
  contents j := by
    rw [contents_push, shows.contents_eq, shows.issued]
    rfl
  active := shows.active
  issued := by simp [ChannelView.after, shows.issued]
  activeOpen p active := by
    obtain ⟨bytes, slot⟩ := shows.activeOpen p active
    have inside := (Array.getElem?_eq_some_iff.mp slot).1
    exact ⟨bytes, by simp [Array.getElem?_push, Nat.ne_of_lt inside, slot]⟩

theorem Shows.remove (shows : cs.Shows v) (slot : cs.slots[id]? = some (some b)) :
    Shows ⟨cs.slots.set! id none, if cs.active = some id then none else cs.active⟩ (v.after (.remove id)) where
  contents j := by
    rw [contents_set! cs _ none (Array.getElem?_eq_some_iff.mp slot).1, shows.contents_eq]
    rfl
  active := by simp [ChannelView.after, shows.active]
  issued := by simp [ChannelView.after, shows.issued]
  activeOpen p active := by
    by_cases was : cs.active = some id
    · simp [was] at active
    · simp only [was, if_false] at active
      have other : p ≠ id := fun same => was (same ▸ active)
      obtain ⟨bytes, slot'⟩ := shows.activeOpen p active
      exact ⟨bytes, by simp [Array.set!_eq_setIfInBounds, Ne.symm other, slot']⟩

theorem Shows.setActive (shows : cs.Shows v) (slot : cs.slots[id]? = some (some b)) :
    Shows ⟨cs.slots, some id⟩ (v.after (.setActive id)) where
  contents := shows.contents
  active := rfl
  issued := shows.issued
  activeOpen p active := by
    cases active
    exact ⟨b, slot⟩

theorem Shows.emit (shows : cs.Shows v) (active : cs.active = some id) (slot : cs.slots[id]? = some (some b))
    (op : Opcode) (xs : List Nat) :
    Shows ⟨cs.slots.set! id (some (b ++ (encodeInstruction op xs).toArray)), cs.active⟩ (v.after (.emit op xs)) where
  contents j := by
    have viewActive : v.active = some id := shows.active ▸ active
    rw [contents_set! cs _ _ (Array.getElem?_eq_some_iff.mp slot).1, shows.contents_eq]
    simp [ChannelView.after, viewActive, shows.open_of_slot slot]
  active := by
    have viewActive : v.active = some id := shows.active ▸ active
    simp [ChannelView.after, viewActive, active]
  issued := by
    have viewActive : v.active = some id := shows.active ▸ active
    simp [ChannelView.after, viewActive, shows.issued]
  activeOpen p act := by
    rw [active] at act
    cases act
    exact ⟨_, slot_set! slot⟩

theorem Shows.patch (shows : cs.Shows v) (slot : cs.slots[id]? = some (some b)) (offset value : Nat) :
    Shows ⟨cs.slots.set! id (some (overwritten b offset value)), cs.active⟩ (v.after (.patch id offset value)) where
  contents j := by
    rw [contents_set! cs _ _ (Array.getElem?_eq_some_iff.mp slot).1, shows.contents_eq]
    simp [ChannelView.after, shows.open_of_slot slot, toList_overwritten]
  active := shows.active
  issued := by simp [ChannelView.after, shows.issued]
  activeOpen p active := by
    obtain ⟨bytes, slot'⟩ := shows.activeOpen p active
    by_cases same : p = id
    · subst same
      exact ⟨_, slot_set! slot⟩
    · exact ⟨bytes, by simp [Array.set!_eq_setIfInBounds, Ne.symm same, slot']⟩

/-- A call that goes through leaves a set showing the view after the call, and the channel it
names, if any, was open. -/
theorem Shows.run (shows : cs.Shows v) {call : ChannelOp} {cs' : ChannelSet}
    (ran : runStep call.run cs = (.ok (), cs')) :
    cs'.Shows (v.after call) ∧ ∀ id, call.channel? = some id → v.contents id ≠ none := by
  have named : ∀ id, call.channel? = some id → ∃ b, cs.slots[id]? = some (some b) := by
    intro id names
    cases opened : cs.contents id with
    | none =>
      rw [runStep_closed names opened] at ran
      cases ran
    | some l =>
      obtain ⟨b, slot, -⟩ := slot_of_contents opened
      exact ⟨b, slot⟩
  refine ⟨?_, fun id names => ?_⟩
  · cases call with
    | add =>
      rw [ChannelOp.run, runStep_discard, runStep_add] at ran
      cases ran
      exact shows.add
    | remove id =>
      obtain ⟨b, slot⟩ := named id rfl
      rw [ChannelOp.run, runStep_discard, runStep_remove_open slot] at ran
      cases ran
      exact shows.remove slot
    | setActive id =>
      obtain ⟨b, slot⟩ := named id rfl
      rw [ChannelOp.run, runStep_setActive_open slot] at ran
      cases ran
      exact shows.setActive slot
    | clear =>
      rw [ChannelOp.run, runStep_clear] at ran
      cases ran
      exact shows_empty
    | size id =>
      obtain ⟨b, slot⟩ := named id rfl
      rw [ChannelOp.run, runStep_discard, runStep_size_open slot] at ran
      cases ran
      exact shows
    | bytes id =>
      obtain ⟨b, slot⟩ := named id rfl
      rw [ChannelOp.run, runStep_discard, runStep_bytes_open slot] at ran
      cases ran
      exact shows
    | emit op xs =>
      rw [ChannelOp.run, runStep_discard] at ran
      by_cases count : op.operands.length ≠ xs.length
      · rw [runStep_emit_miscounted count] at ran
        cases ran
      cases act : cs.active with
      | none =>
        rw [runStep_emit_idle act] at ran
        cases ran
      | some id =>
        obtain ⟨b, slot⟩ := shows.activeOpen id act
        have counted : xs.length = op.operands.length := (Decidable.not_not.mp count).symm
        cases checked : checkOperands op xs with
        | error h =>
          rw [runStep_emit_refused act slot counted checked] at ran
          cases ran
        | ok u =>
          rw [runStep_emit_active act slot counted checked] at ran
          cases ran
          exact shows.emit act slot op xs
    | patch id offset value =>
      obtain ⟨b, slot⟩ := named id rfl
      rw [ChannelOp.run, runStep_patch_open slot] at ran
      split at ran
      · cases ran
      · split at ran
        · cases ran
        · cases ran
          exact shows.patch slot offset value
  · obtain ⟨b, slot⟩ := named id names
    rw [shows.open_of_slot slot]
    exact Option.some_ne_none _

end Views

end ChannelSet

/-! ## What a view owes to the calls since the last clear -/

namespace ChannelView

/-- What a view owes to the calls since the last clear: the numbers handed out are counted by
the new channels among them, a channel is closed exactly when its number was not handed out or
was removed since, and only numbers handed out were removed. -/
structure Tracks (v : ChannelView) (since : List ChannelOp) : Prop where
  issued : v.issued = since.count .add
  closed : ∀ id, v.contents id = none ↔ v.issued ≤ id ∨ .remove id ∈ since
  removed : ∀ id, .remove id ∈ since → id < v.issued

theorem tracks_empty : empty.Tracks [] where
  issued := rfl
  closed id := by simp [empty]
  removed _ mem := by cases mem

section Tracking

variable {v : ChannelView} {since : List ChannelOp}

theorem update_map_eq_none (c : Nat → Option (List UInt8)) (id j : Nat) (f : List UInt8 → List UInt8) :
    Function.update c id ((c id).map f) j = none ↔ c j = none := by
  by_cases same : j = id
  · subst same
    simp
  · simp [Function.update_of_ne same]

/-- A call that neither opens, removes nor clears a channel keeps what the view owes, as long as
it hands out no number and closes no channel. -/
theorem Tracks.keep (tracks : v.Tracks since) {call : ChannelOp} (notAdd : call ≠ .add)
    (notRemove : ∀ id, call ≠ .remove id) (notClear : call ≠ .clear) {w : ChannelView}
    (issued : w.issued = v.issued) (closed : ∀ id, w.contents id = none ↔ v.contents id = none) :
    w.Tracks (ChannelOp.since since call) := by
  rw [ChannelOp.since, if_neg notClear]
  refine ⟨?_, fun id => ?_, fun id mem => ?_⟩
  · simp [issued, tracks.issued, List.count_append, notAdd]
  · rw [closed, tracks.closed, issued]
    simp [(notRemove id).symm]
  · rw [issued]
    exact tracks.removed id (by simpa [(notRemove id).symm] using mem)

/-- What the view owes to the calls since the last clear holds after each call that goes through:
a new channel gets a number never removed, and a removed channel was open. -/
theorem Tracks.after_call (tracks : v.Tracks since) {call : ChannelOp}
    (named : ∀ id, call.channel? = some id → v.contents id ≠ none) :
    (v.after call).Tracks (ChannelOp.since since call) := by
  cases call with
  | add =>
    refine ⟨?_, fun j => ?_, fun j mem => ?_⟩
    · simp [after, ChannelOp.since, tracks.issued]
    · by_cases fresh : j = v.issued
      · subst fresh
        have never : .remove v.issued ∉ since := fun mem => Nat.lt_irrefl _ (tracks.removed _ mem)
        simp [after, ChannelOp.since, never]
      · have shift : v.issued ≤ j ↔ v.issued + 1 ≤ j := by omega
        simp only [after, ChannelOp.since, Function.update_of_ne fresh, reduceCtorEq, if_false,
          List.mem_append, List.mem_singleton, or_false, tracks.closed j, shift]
    · simp only [ChannelOp.since, reduceCtorEq, if_false, List.mem_append, List.mem_singleton,
        or_false] at mem
      have below := tracks.removed j mem
      simp only [after]
      omega
  | remove id =>
    have handed : id < v.issued :=
      Nat.lt_of_not_le fun le => named id rfl ((tracks.closed id).mpr (Or.inl le))
    refine ⟨?_, fun j => ?_, fun j mem => ?_⟩
    · simp [after, ChannelOp.since, tracks.issued, List.count_append]
    · by_cases same : j = id
      · subst same
        simp [after, ChannelOp.since]
      · simp [after, ChannelOp.since, tracks.closed j, same]
    · simp only [ChannelOp.since, reduceCtorEq, if_false, List.mem_append, List.mem_singleton,
        ChannelOp.remove.injEq] at mem
      rcases mem with mem | rfl
      · exact tracks.removed j mem
      · exact handed
  | clear => exact ⟨rfl, fun j => by simp [after, empty, ChannelOp.since], fun j mem => by simp [ChannelOp.since] at mem⟩
  | setActive id | size id | bytes id => apply tracks.keep <;> simp [after]
  | emit op xs => apply tracks.keep <;> cases act : v.active <;> simp [after, act, update_map_eq_none]
  | patch id offset value => apply tracks.keep <;> simp [after, update_map_eq_none]

end Tracking

end ChannelView

namespace ChannelSet

/-- Calls that all go through, from a set showing a view that owes what it should to the calls
since the last clear, reach a set showing the view after them, which owes the same to the calls
since the last clear. -/
theorem Shows.runAll {cs : ChannelSet} {v : ChannelView} {since : List ChannelOp} (shows : cs.Shows v)
    (tracks : v.Tracks since) {calls : List ChannelOp} {cs' : ChannelSet}
    (ran : runStep (ChannelOp.runAll calls) cs = (.ok (), cs')) :
    cs'.Shows (calls.foldl ChannelView.after v) ∧
      (calls.foldl ChannelView.after v).Tracks (calls.foldl ChannelOp.since since) := by
  -- induction on the calls; each one that goes through keeps both invariants
  induction calls generalizing cs v since with
  | nil =>
    cases ran
    exact ⟨shows, tracks⟩
  | cons call rest ih =>
    rw [ChannelOp.runAll] at ran
    obtain ⟨_, c₁, first, later⟩ := runStep_bind_eq_ok ran
    obtain ⟨shows₁, named⟩ := shows.run first
    exact ih shows₁ (tracks.after_call named) later

end ChannelSet

open ChannelSet ChannelView in
/-- A channel set keeps its contract over every sequence of calls that goes through. The set
shows the view the calls build: each open channel holds the bytes emitted into it while it was
active, with its patches written over them. A channel is closed exactly when its number was not
handed out since the last clear, or was removed since. A new channel gets the number of channels
opened since the last clear, so numbers are fresh only since then. A call naming a channel that
is not open stops on a violation and changes nothing, and so does an emission with no channel
active. An emission answers the size of the active channel before it, and a patch of two bytes
inside a channel overwrites them with a big-endian value; one past the end is outside the
channel, and one whose end is no machine word overflows. -/
theorem channel_sets_keep_their_contract (calls : List ChannelOp) {cs : ChannelSet}
    (ran : runStep (ChannelOp.runAll calls) {} = (.ok (), cs)) :
    cs.Shows (ofCalls calls) ∧
      (∀ id, cs.contents id = none ↔
        (ChannelOp.sinceClear calls).count .add ≤ id ∨ .remove id ∈ ChannelOp.sinceClear calls) ∧
      runStep add cs = (.ok ((ChannelOp.sinceClear calls).count .add), ⟨cs.slots.push (some #[]), cs.active⟩) ∧
      (∀ (call : ChannelOp) (id : Nat), call.channel? = some id → cs.contents id = none →
        runStep call.run cs = (.error (.violation (.channelNotOpen id)), cs)) ∧
      (∀ op xs, cs.active = none → ∃ e, runStep (emit op xs) cs = (.error (.violation e), cs) ∧
        (e = .operandCount op ∨ e = .noActiveChannel)) ∧
      (∀ id l op xs, cs.active = some id → cs.contents id = some l → xs.length = op.operands.length →
        checkOperands op xs = .ok () →
        ∃ cs', runStep (emit op xs) cs = (.ok l.length, cs') ∧ cs'.Shows ((ofCalls calls).after (.emit op xs))) ∧
      ∀ id l offset value, cs.contents id = some l →
        (offset + 2 ≥ offsetBound → runStep (patch id offset value) cs = (.error (.violation .offsetOverflow), cs)) ∧
        (offset + 2 < offsetBound → offset + 2 > l.length →
          runStep (patch id offset value) cs = (.error (.violation (.patchOutside offset l.length)), cs)) ∧
        (offset + 2 < offsetBound → offset + 2 ≤ l.length →
          ∃ cs', runStep (patch id offset value) cs = (.ok (), cs') ∧
            cs'.Shows ((ofCalls calls).after (.patch id offset value))) := by
  obtain ⟨shows, tracks⟩ := shows_empty.runAll tracks_empty ran
  have issued : cs.slots.size = (ChannelOp.sinceClear calls).count .add := shows.issued.trans tracks.issued
  refine ⟨shows, fun id => ?_, ?_, fun call id named closed => runStep_closed named closed,
    fun op xs idle => ?_, fun id l op xs active opened count checked => ?_, fun id l offset value opened => ?_⟩
  · rw [shows.contents id, tracks.closed id, tracks.issued]
    rfl
  · rw [runStep_add, issued]
  · rw [runStep_emit_idle idle]
    refine ⟨_, rfl, ?_⟩
    by_cases count : op.operands.length ≠ xs.length
    · exact Or.inl (if_pos count)
    · exact Or.inr (if_neg count)
  · obtain ⟨b, slot, rfl⟩ := slot_of_contents opened
    exact ⟨_, by rw [runStep_emit_active active slot count checked, Array.length_toList],
      shows.emit active slot op xs⟩
  · obtain ⟨b, slot, rfl⟩ := slot_of_contents opened
    have patched := runStep_patch_open slot offset value
    rw [Array.length_toList]
    refine ⟨fun overflow => by rw [patched, if_pos overflow], fun fits outside => ?_, fun fits inside => ?_⟩
    · rw [patched, if_neg (Nat.not_le_of_lt fits), if_pos outside]
    · exact ⟨_, by rw [patched, if_neg (Nat.not_le_of_lt fits), if_neg (Nat.not_lt_of_le inside)],
        shows.patch slot offset value⟩

/-- Channel 0 written, the set cleared, channels 0 and 1 opened and 0 removed: the next channel
is numbered 2, and naming channel 0 stops. -/
theorem channel_contract_after_clear_and_removal :
    runStep (ChannelOp.runAll [.add, .setActive 0, .emit .nop [], .clear, .add, .add, .remove 0]) {} =
        (.ok (), ⟨#[none, some #[]], none⟩) ∧
      runStep ChannelSet.add ⟨#[none, some #[]], none⟩ = (.ok 2, ⟨#[none, some #[], some #[]], none⟩) ∧
      runStep (ChannelOp.size 0).run ⟨#[none, some #[]], none⟩ =
        (.error (.violation (.channelNotOpen 0)), ⟨#[none, some #[]], none⟩) := by
  have ran : runStep (ChannelOp.runAll [.add, .setActive 0, .emit .nop [], .clear, .add, .add, .remove 0]) {} =
      (.ok (), ⟨#[none, some #[]], none⟩) := by rfl
  have contract := channel_sets_keep_their_contract _ ran
  exact ⟨ran, contract.2.2.1, contract.2.2.2.1 (.size 0) 0 rfl rfl⟩

/-- Clearing starts the numbering again: once channel 0 is opened, removed and the set cleared,
the next channel is numbered 0 again, and the size of channel 0 is then the new channel's. -/
theorem channel_numbers_restart_after_clear :
    runStep (ChannelOp.runAll [.add, .remove 0, .clear]) {} = (.ok (), {}) ∧
      runStep ChannelSet.add {} = (.ok 0, ⟨#[some #[]], none⟩) ∧
      runStep (ChannelSet.size 0) ⟨#[some #[]], none⟩ = (.ok 0, ⟨#[some #[]], none⟩) :=
  ⟨rfl, rfl, rfl⟩

end Febc
