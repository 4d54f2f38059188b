import Mathlib
import Febc.Lowering.LoopStack

/-!
# The records of a loop stack

Lowering calls a loop stack in three ways: it enters a loop, records a `break` against a loop
that is open, and leaves the innermost loop. Seen from these calls, the stack keeps the `break`
records partitioned by open loop: the records waiting are exactly those made against a loop still
open, in the order they were made, and leaving a loop hands back exactly the records made against
it, keeping the others in order. Identifiers are never handed out twice, so a loop once left has
no record waiting and never takes one again.

`LoopCall` is a call, `LoopStack.call` makes one call the way lowering may (a record only against
an open loop, leaving only while a loop is open), and `LoopStack.runCalls` makes a sequence of
them. `LoopStack.Partitioned` is the invariant that a stack reached by calls keeps, carried by
`Partitioned.call` and `Partitioned.runCalls`.

Main statements:
* `find?_some_eq_some_iff`: the loop a label finds is the innermost open loop with that label;
* `Partitioned.pop`: leaving the innermost loop hands back the records made against it;
* `loop_stack_partitions_breaks`: after any sequence of calls, identifiers are distinct, the
  records waiting are those of the open loops, leaving a loop hands back its own records in the
  order they were made, and a label finds the innermost loop that carries it.
-/

namespace Febc

/-- A call on a loop stack. -/
inductive LoopCall where
  /-- Enter a loop, with its label and the label its `continue` jumps to. -/
  | push (label : Option String) (continueLabel : Nat)
  /-- Record a `break` against a loop, with the offset of its jump operand. -/
  | recordBreak (loop operand : Nat)
  /-- Leave the innermost loop. -/
  | pop
  deriving DecidableEq, Repr

/-- What a call answers. -/
inductive LoopAnswer where
  /-- The identifier of the loop entered. -/
  | entered (identifier : Nat)
  | recorded
  /-- The records of the loop left. -/
  | left (records : List BreakRecord)
  deriving DecidableEq, Repr

namespace LoopCall

/-- The record a call makes, if it records one. -/
def record? : LoopCall → Option BreakRecord
  | recordBreak loop operand => some ⟨loop, operand⟩
  | push .. | pop => none

/-- The records a sequence of calls makes, in the order it makes them. -/
def records (calls : List LoopCall) : List BreakRecord := calls.filterMap record?

@[simp] theorem records_nil : records [] = [] := rfl

@[simp] theorem records_append (calls more : List LoopCall) :
    records (calls ++ more) = records calls ++ records more :=
  List.filterMap_append

end LoopCall

/-- The identifiers of the loops entered, in order. -/
def LoopAnswer.identifiers (answers : List LoopAnswer) : List Nat :=
  answers.filterMap fun
    | .entered i => some i
    | .recorded | .left _ => none

@[simp] theorem LoopAnswer.identifiers_append (answers more : List LoopAnswer) :
    identifiers (answers ++ more) = identifiers answers ++ identifiers more :=
  List.filterMap_append

namespace LoopStack

/-- The identifiers of the open loops, outermost first. -/
def openIds (s : LoopStack) : List Nat := s.frames.map (·.identifier)

/-- Make a call the way lowering makes it: a record only against an open loop, leaving only while
a loop is open; `none` for any other call. -/
def call (s : LoopStack) : LoopCall → Option (LoopAnswer × LoopStack)
  | .push label continueLabel =>
    some (.entered (s.push label continueLabel).1, (s.push label continueLabel).2)
  | .recordBreak loop operand =>
    if loop ∈ s.openIds then some (.recorded, s.recordBreak loop operand) else none
  | .pop => s.pop.map fun left => (.left left.1, left.2)

/-- Make calls one after another, answering each; `none` as soon as one is not allowed. -/
def runCalls (s : LoopStack) : List LoopCall → Option (List LoopAnswer × LoopStack)
  | [] => some ([], s)
  | c :: rest => (s.call c).bind fun first =>
    (first.2.runCalls rest).map fun more => (first.1 :: more.1, more.2)

/-! ## Finding a loop -/

/-- A label finds the innermost open loop that carries it. -/
theorem find?_some_eq_some_iff (s : LoopStack) (l : String) (frame : LoopFrame) :
    s.find? (some l) = some frame ↔
      ∃ outer inner, s.frames = outer ++ frame :: inner ∧ frame.label = some l ∧
        ∀ g ∈ inner, g.label ≠ some l := by
  simp only [find?, List.find?_eq_some_iff_append, beq_iff_eq, Bool.not_eq_true',
    beq_eq_false_iff_ne, ne_eq]
  constructor
  · rintro ⟨labelled, inner, outer, reversed, above⟩
    refine ⟨outer.reverse, inner.reverse, ?_, labelled, fun g mem => above g (List.mem_reverse.mp mem)⟩
    simpa using congrArg List.reverse reversed
  · rintro ⟨outer, inner, split, labelled, above⟩
    exact ⟨labelled, inner.reverse, outer.reverse, by simp [split],
      fun g mem => above g (List.mem_reverse.mp mem)⟩

/-! ## What each call does to the open loops and the records -/

@[simp] theorem openIds_push (s : LoopStack) (label : Option String) (c : Nat) :
    (s.push label c).2.openIds = s.openIds ++ [s.nextIdentifier] := by
  simp [openIds, LoopStack.push]

@[simp] theorem nextIdentifier_push (s : LoopStack) (label : Option String) (c : Nat) :
    (s.push label c).2.nextIdentifier = s.nextIdentifier + 1 := rfl

@[simp] theorem breaks_push (s : LoopStack) (label : Option String) (c : Nat) :
    (s.push label c).2.breaks = s.breaks := rfl

@[simp] theorem openIds_recordBreak (s : LoopStack) (loop operand : Nat) :
    (s.recordBreak loop operand).openIds = s.openIds := rfl

@[simp] theorem nextIdentifier_recordBreak (s : LoopStack) (loop operand : Nat) :
    (s.recordBreak loop operand).nextIdentifier = s.nextIdentifier := rfl

@[simp] theorem breaks_recordBreak (s : LoopStack) (loop operand : Nat) :
    (s.recordBreak loop operand).breaks = ⟨loop, operand⟩ :: s.breaks := rfl

/-- What leaving a loop leaves behind: the loops outside it, and the records of the others. -/
def leave (s : LoopStack) (loop : Nat) : LoopStack :=
  { s with frames := s.frames.dropLast, breaks := s.breaks.filter (·.loop != loop) }

theorem pop_of_getLast? {s : LoopStack} {frame : LoopFrame} (innermost : s.frames.getLast? = some frame) :
    s.pop = some ((s.breaks.filter (·.loop == frame.identifier)).reverse, s.leave frame.identifier) := by
  simp only [LoopStack.pop, innermost, leave]

/-- The innermost loop's identifier follows those of the loops it leaves open. -/
theorem openIds_of_getLast? {s : LoopStack} {frame : LoopFrame} (innermost : s.frames.getLast? = some frame) :
    s.openIds = (s.leave frame.identifier).openIds ++ [frame.identifier] := by
  rw [openIds, openIds, leave, ← List.map_singleton, ← List.map_append,
    List.dropLast_append_getLast? frame innermost]

/-! ## The invariant -/

/-- What a stack reached by the calls `calls`, which answered `answers`, keeps: the identifiers
handed out are distinct and below the counter, and so are those of the open loops (which increase
outwards in); every record made was made against an identifier below the counter; and the records
waiting, oldest first, are exactly the records made against a loop still open. -/
structure Partitioned (calls : List LoopCall) (answers : List LoopAnswer) (s : LoopStack) : Prop where
  entered_nodup : (LoopAnswer.identifiers answers).Nodup
  entered_below : ∀ i ∈ LoopAnswer.identifiers answers, i < s.nextIdentifier
  open_sorted : s.openIds.Pairwise (· < ·)
  open_below : ∀ i ∈ s.openIds, i < s.nextIdentifier
  records_below : ∀ r ∈ LoopCall.records calls, r.loop < s.nextIdentifier
  waiting : s.breaks.reverse = (LoopCall.records calls).filter (·.loop ∈ s.openIds)

theorem partitioned_empty : Partitioned [] [] {} where
  entered_nodup := List.nodup_nil
  entered_below _ mem := nomatch mem
  open_sorted := List.Pairwise.nil
  open_below _ mem := nomatch mem
  records_below _ mem := nomatch mem
  waiting := rfl

section Steps

variable {calls : List LoopCall} {answers : List LoopAnswer} {s : LoopStack}

theorem Partitioned.push (inv : Partitioned calls answers s) (label : Option String) (c : Nat) :
    Partitioned (calls ++ [.push label c]) (answers ++ [.entered s.nextIdentifier])
      (s.push label c).2 := by
  have records : LoopCall.records [.push label c] = [] := rfl
  have entered : LoopAnswer.identifiers [.entered s.nextIdentifier] = [s.nextIdentifier] := rfl
  refine ⟨?_, ?_, ?_, ?_, ?_, ?_⟩
  · rw [LoopAnswer.identifiers_append, entered]
    exact List.nodup_append.mpr ⟨inv.entered_nodup, List.nodup_singleton _,
      fun i mem j same => Nat.ne_of_lt ((List.mem_singleton.mp same) ▸ inv.entered_below i mem)⟩
  · intro i mem
    rw [LoopAnswer.identifiers_append, entered, List.mem_append, List.mem_singleton] at mem
    rcases mem with old | rfl
    · exact Nat.lt_succ_of_lt (inv.entered_below i old)
    · exact Nat.lt_succ_self _
  · rw [openIds_push]
    exact List.pairwise_append.mpr ⟨inv.open_sorted, List.pairwise_singleton _ _,
      fun i mem j same => (List.mem_singleton.mp same) ▸ inv.open_below i mem⟩
  · intro i mem
    rw [openIds_push, List.mem_append, List.mem_singleton] at mem
    rcases mem with old | rfl
    · exact Nat.lt_succ_of_lt (inv.open_below i old)
    · exact Nat.lt_succ_self _
  · intro r mem
    rw [LoopCall.records_append, records, List.append_nil] at mem
    exact Nat.lt_succ_of_lt (inv.records_below r mem)
  · have unchanged : ∀ r ∈ LoopCall.records calls,
        decide (r.loop ∈ s.openIds ++ [s.nextIdentifier]) = decide (r.loop ∈ s.openIds) := by
      intro r mem
      simp [Nat.ne_of_lt (inv.records_below r mem)]
    rw [breaks_push, openIds_push, LoopCall.records_append, records, List.append_nil,
      List.filter_congr unchanged, inv.waiting]

theorem Partitioned.recordBreak (inv : Partitioned calls answers s) {loop : Nat} (opened : loop ∈ s.openIds)
    (operand : Nat) :
    Partitioned (calls ++ [.recordBreak loop operand]) (answers ++ [.recorded])
      (s.recordBreak loop operand) := by
  have records : LoopCall.records [.recordBreak loop operand] = [⟨loop, operand⟩] := rfl
  have entered : LoopAnswer.identifiers (answers ++ [.recorded]) = LoopAnswer.identifiers answers := by
    simp [LoopAnswer.identifiers]
  refine ⟨entered ▸ inv.entered_nodup, entered ▸ inv.entered_below, inv.open_sorted, inv.open_below,
    ?_, ?_⟩
  · intro r mem
    rw [LoopCall.records_append, records, List.mem_append, List.mem_singleton] at mem
    rcases mem with old | rfl
    · exact inv.records_below r old
    · exact inv.open_below loop opened
  · rw [breaks_recordBreak, openIds_recordBreak, LoopCall.records_append, records, List.filter_append,
      ← inv.waiting]
    simp [opened]

/-- Leaving the innermost loop hands back the records made against it, oldest first. -/
theorem Partitioned.pop (inv : Partitioned calls answers s) {frame : LoopFrame}
    (innermost : s.frames.getLast? = some frame) :
    s.pop = some ((LoopCall.records calls).filter (·.loop = frame.identifier), s.leave frame.identifier) := by
  have opened : frame.identifier ∈ s.openIds :=
    List.mem_map_of_mem (List.mem_of_getLast? innermost)
  have handed : (s.breaks.filter (·.loop == frame.identifier)).reverse =
      (LoopCall.records calls).filter (·.loop = frame.identifier) := by
    rw [← List.filter_reverse, inv.waiting, List.filter_filter]
    refine List.filter_congr fun r _ => ?_
    by_cases same : r.loop = frame.identifier
    · simp [same, opened]
    · simp [same]
  rw [pop_of_getLast? innermost, handed]

/-- Leaving a loop keeps the records of the others in the order they were made. -/
theorem breaks_leave (s : LoopStack) (loop : Nat) :
    (s.leave loop).breaks.reverse = s.breaks.reverse.filter (·.loop ≠ loop) := by
  rw [leave, ← List.filter_reverse]
  exact List.filter_congr fun r _ => by simp [bne, Bool.beq_eq_decide_eq]

theorem Partitioned.leave (inv : Partitioned calls answers s) {frame : LoopFrame}
    (innermost : s.frames.getLast? = some frame) :
    Partitioned (calls ++ [.pop]) (answers ++ [.left ((LoopCall.records calls).filter (·.loop = frame.identifier))])
      (s.leave frame.identifier) := by
  have records : LoopCall.records [.pop] = [] := rfl
  have entered : LoopAnswer.identifiers (answers ++ [.left ((LoopCall.records calls).filter
      (·.loop = frame.identifier))]) = LoopAnswer.identifiers answers := by
    simp [LoopAnswer.identifiers]
  -- the innermost identifier is above every other open one, so it is not among them
  have split := openIds_of_getLast? innermost
  have sorted := inv.open_sorted
  rw [split, List.pairwise_append] at sorted
  have apart : frame.identifier ∉ (s.leave frame.identifier).openIds :=
    fun mem => Nat.lt_irrefl _ (sorted.2.2 _ mem _ (List.mem_singleton_self _))
  refine ⟨entered ▸ inv.entered_nodup, entered ▸ inv.entered_below, sorted.1,
    fun i mem => inv.open_below i (split ▸ List.mem_append_left _ mem), ?_, ?_⟩
  · rw [LoopCall.records_append, records, List.append_nil]
    exact inv.records_below
  · rw [breaks_leave, inv.waiting, List.filter_filter, LoopCall.records_append, records, List.append_nil]
    refine List.filter_congr fun r _ => ?_
    rw [split]
    by_cases same : r.loop = frame.identifier
    · simp [same, apart]
    · simp [same]

/-- One call keeps the invariant. -/
theorem Partitioned.call (inv : Partitioned calls answers s) {c : LoopCall} {a : LoopAnswer}
    {s' : LoopStack} (made : s.call c = some (a, s')) :
    Partitioned (calls ++ [c]) (answers ++ [a]) s' := by
  cases c with
  | push label continueLabel =>
    obtain ⟨rfl, rfl⟩ := Prod.mk.inj (Option.some.inj made)
    exact inv.push label continueLabel
  | recordBreak loop operand =>
    by_cases opened : loop ∈ s.openIds
    · simp only [LoopStack.call, opened, if_true, Option.some.injEq, Prod.mk.injEq] at made
      obtain ⟨rfl, rfl⟩ := made
      exact inv.recordBreak opened operand
    · simp [LoopStack.call, opened] at made
  | pop =>
    cases innermost : s.frames.getLast? with
    | none => simp [LoopStack.call, LoopStack.pop, innermost] at made
    | some frame =>
      simp only [LoopStack.call, inv.pop innermost, Option.map_some, Option.some.injEq,
        Prod.mk.injEq] at made
      obtain ⟨rfl, rfl⟩ := made
      exact inv.leave innermost

/-- A sequence of calls keeps the invariant. -/
theorem Partitioned.runCalls (inv : Partitioned calls answers s) {more : List LoopCall}
    {moreAnswers : List LoopAnswer} {s' : LoopStack} (ran : s.runCalls more = some (moreAnswers, s')) :
    Partitioned (calls ++ more) (answers ++ moreAnswers) s' := by
  induction more generalizing calls answers s moreAnswers with
  | nil =>
    obtain ⟨rfl, rfl⟩ := Prod.mk.inj (Option.some.inj ran)
    simpa using inv
  | cons c rest ih =>
    simp only [LoopStack.runCalls, Option.bind_eq_some_iff, Option.map_eq_some_iff] at ran
    obtain ⟨⟨a, t⟩, made, ⟨more, t'⟩, ranRest, same⟩ := ran
    obtain ⟨rfl, rfl⟩ := Prod.mk.inj same
    simpa using ih (inv.call made) ranRest

end Steps

/-- The loop stack's contract, after any sequence of calls from the empty stack in which records
are made only against open loops and loops are left only while one is open: the identifiers
handed out are pairwise distinct; the records waiting are those made against a loop still open,
in the order they were made, so none is left once no loop is open; leaving the innermost loop
hands back exactly the records made against it, in the order they were made, and keeps the
others in order; and a `break` without a label finds the innermost loop, one with a label the
innermost loop carrying it. -/
theorem loop_stack_partitions_breaks {calls : List LoopCall} {answers : List LoopAnswer}
    {s : LoopStack} (ran : ({} : LoopStack).runCalls calls = some (answers, s)) :
    (LoopAnswer.identifiers answers).Nodup ∧
    s.breaks.reverse = (LoopCall.records calls).filter (·.loop ∈ s.openIds) ∧
    (∀ r ∈ s.breaks, r.loop ∈ s.openIds) ∧
    (s.isEmpty = true → s.pending = 0) ∧
    (∀ frame, s.find? none = some frame →
      ∃ rest, s.pop = some ((LoopCall.records calls).filter (·.loop = frame.identifier), rest) ∧
        rest.frames = s.frames.dropLast ∧
        rest.breaks.reverse = s.breaks.reverse.filter (·.loop ≠ frame.identifier)) ∧
    s.find? none = s.frames.getLast? ∧
    (∀ l frame, s.find? (some l) = some frame ↔
      ∃ outer inner, s.frames = outer ++ frame :: inner ∧ frame.label = some l ∧
        ∀ g ∈ inner, g.label ≠ some l) := by
  have inv : Partitioned calls answers s := by simpa using partitioned_empty.runCalls ran
  have belongs : ∀ r ∈ s.breaks, r.loop ∈ s.openIds := by
    intro r mem
    have waiting : r ∈ (LoopCall.records calls).filter (·.loop ∈ s.openIds) :=
      inv.waiting ▸ List.mem_reverse.mpr mem
    simpa using (List.mem_filter.mp waiting).2
  refine ⟨inv.entered_nodup, inv.waiting, belongs, fun empty => ?_, fun frame top => ?_, rfl,
    find?_some_eq_some_iff s⟩
  · have none_open : s.openIds = [] := by simpa [openIds, isEmpty] using empty
    cases waiting : s.breaks with
    | nil => simp [pending, waiting]
    | cons r _ => simpa [none_open] using belongs r (waiting ▸ List.mem_cons_self)
  · exact ⟨_, inv.pop top, rfl, breaks_leave s _⟩

/-- The nested loops of the lowering's own check, before either is left: an outer loop labelled
`outer`, an inner loop without a label, and two breaks of the inner loop around one of the outer
loop. -/
theorem loop_stack_partitions_nested_breaks :
    let calls : List LoopCall := [.push (some "outer") 0, .push none 1, .recordBreak 1 3,
      .recordBreak 0 7, .recordBreak 1 12]
    let s : LoopStack := ⟨[⟨0, some "outer", 0⟩, ⟨1, none, 1⟩], 2, [⟨1, 12⟩, ⟨0, 7⟩, ⟨1, 3⟩]⟩
    let answers : List LoopAnswer := [.entered 0, .entered 1, .recorded, .recorded, .recorded]
    ({} : LoopStack).runCalls calls = some (answers, s) ∧
    (LoopAnswer.identifiers answers).Nodup ∧
    s.breaks.reverse = (LoopCall.records calls).filter (·.loop ∈ s.openIds) ∧
    (∀ r ∈ s.breaks, r.loop ∈ s.openIds) ∧
    (s.isEmpty = true → s.pending = 0) ∧
    (∀ frame, s.find? none = some frame →
      ∃ rest, s.pop = some ((LoopCall.records calls).filter (·.loop = frame.identifier), rest) ∧
        rest.frames = s.frames.dropLast ∧
        rest.breaks.reverse = s.breaks.reverse.filter (·.loop ≠ frame.identifier)) ∧
    s.find? none = s.frames.getLast? ∧
    (∀ l frame, s.find? (some l) = some frame ↔
      ∃ outer inner, s.frames = outer ++ frame :: inner ∧ frame.label = some l ∧
        ∀ g ∈ inner, g.label ≠ some l) :=
  ⟨rfl, loop_stack_partitions_breaks rfl⟩

end LoopStack

end Febc
