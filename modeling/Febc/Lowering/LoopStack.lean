/-!
# Loops being lowered

The stack of loops around the statement being lowered. Each loop has a fresh identifier, an
optional label, and the label its `continue` jumps to. A `break` is lowered as a jump whose target
is not known yet, and recorded against its loop; leaving the loop hands back its records, in the
order they were made, so that they can be patched with the loop's exit.

Main statements:
* `pop_partition`: leaving a loop splits the records into those of the loop, in the order they
  were made, and the rest;
* `push_identifier`: loops receive distinct, increasing identifiers.
-/

namespace Febc

/-- A loop being lowered. -/
structure LoopFrame where
  identifier : Nat
  label : Option String
  /-- The label `continue` jumps to. -/
  continueLabel : Nat
  deriving DecidableEq, Repr, Inhabited

/-- A `break` waiting for its loop's exit. -/
structure BreakRecord where
  loop : Nat
  /-- Offset of the jump operand to patch. -/
  operand : Nat
  deriving DecidableEq, Repr, Inhabited

/-- Open loops, innermost last, and the breaks waiting for them, the latest first. -/
structure LoopStack where
  frames : List LoopFrame := []
  nextIdentifier : Nat := 0
  breaks : List BreakRecord := []
  deriving Inhabited

namespace LoopStack

/-- Enter a loop; answers its identifier. -/
def push (s : LoopStack) (label : Option String) (continueLabel : Nat) : Nat × LoopStack :=
  (s.nextIdentifier,
    { s with frames := s.frames ++ [⟨s.nextIdentifier, label, continueLabel⟩],
             nextIdentifier := s.nextIdentifier + 1 })

/-- Leave the innermost loop, answering its break records; none if no loop is open. -/
def pop (s : LoopStack) : Option (List BreakRecord × LoopStack) :=
  match s.frames.getLast? with
  | none => none
  | some frame =>
    some ((s.breaks.filter (·.loop == frame.identifier)).reverse,
      { s with frames := s.frames.dropLast, breaks := s.breaks.filter (·.loop != frame.identifier) })

/-- Is no loop open? -/
def isEmpty (s : LoopStack) : Bool := s.frames.isEmpty

/-- The innermost loop, or the innermost loop with a label. -/
def find? (s : LoopStack) (label : Option String) : Option LoopFrame :=
  match label with
  | none => s.frames.getLast?
  | some l => s.frames.reverse.find? (·.label == some l)

/-- Record a break against a loop. -/
def recordBreak (s : LoopStack) (loop operand : Nat) : LoopStack :=
  { s with breaks := ⟨loop, operand⟩ :: s.breaks }

/-- Number of breaks still waiting. -/
def pending (s : LoopStack) : Nat := s.breaks.length

theorem push_identifier (s : LoopStack) (label : Option String) (c : Nat) :
    (s.push label c).1 = s.nextIdentifier ∧
      (s.push label c).2.nextIdentifier = s.nextIdentifier + 1 := ⟨rfl, rfl⟩

theorem pop_partition (s : LoopStack) (records : List BreakRecord) (rest : LoopStack)
    (h : s.pop = some (records, rest)) :
    ∃ frame, s.frames.getLast? = some frame ∧
      records = (s.breaks.filter (·.loop == frame.identifier)).reverse ∧
      rest.breaks = s.breaks.filter (·.loop != frame.identifier) := by
  unfold pop at h
  cases hf : s.frames.getLast? with
  | none => simp [hf] at h
  | some frame =>
    simp only [hf, Option.some.injEq, Prod.mk.injEq] at h
    exact ⟨frame, rfl, h.1.symm, by rw [← h.2]⟩

end LoopStack

end Febc
