import Febc.Lowering.Monad
import Febc.Proofs.Outcome

/-!
# What lowering keeps true

While a function body is lowered, its code is a list of laid out instructions whose byte image
is the builder's channel, and a stack height is noted for every offset of it. `Sound` collects
what holds of such a state after every step:

* the channel is open and active, and its bytes decode to the instructions;
* each instruction finds the operands it takes, and moves the stack from its noted height to the
  height noted after it (an invocation by the descriptor its pool entry names);
* each jump either waits to be patched (its label is unplaced, or it is a `break` waiting for its
  loop's exit) or targets an instruction, or the end of reachable code, whose noted height is the
  one the jump leaves;
* a placed label stands at such a target; the open loops' `continue` labels are placed where the
  stack is empty, and loops further in were entered later; every `break` record names an open
  loop and a jump at an empty stack;
* code is unreachable only after an instruction that never falls through;
* every row of the exception table covers a non-empty range of whole instructions, its handler
  starts at an instruction whose noted height is one, and a row meets a later row only inside it.

`Grows` relates a state to every later one: the code only grows, and what it held keeps its
offsets, opcodes and noted heights; loops are numbered in the order they are entered, and a
`break` record stays until its loop is left. `Contained` is what a whole expression or statement
adds to that: the labels and loops around it are left as they were, its own labels are all
placed, its private slots are released, and the rows it adds cover only code it emitted.
-/

namespace Febc

/-! ## Stack effects -/

namespace Opcode

/-- The operands an instruction takes from the stack, for the opcodes whose effect does not
depend on a descriptor. -/
def pops : Opcode → Nat
  | .duplicate | .loadInstanceField | .storeStaticField | .storeA | .pop | .jumpEq0I | .jumpNe0I
  | .jumpEq0A | .jumpNe0A | .throw | .retA => 1
  | .duplicateX1 | .duplicate2 | .swap | .storeInstanceField => 2
  | _ => 0

/-- The receiver an invocation takes below its arguments: none for a static call. -/
def receivers (op : Opcode) : Nat := if op = .invokeStatic then 0 else 1

end Opcode

namespace Instruction

/-- The instruction finds the operands it takes on a stack of height `before`, and leaves one of
height `after`. An invocation's effect is that of the descriptor its pool entry names, less its
receiver. -/
def Moves (entries : Array Constant) (i : Instruction) (before after : Nat) : Prop :=
  match i.opcode.stackEffect with
  | some e => i.opcode.pops ≤ before ∧ (after : Int) = before + e
  | none => ∃ f d, i.operands = [f] ∧ Describes entries f d ∧
      d.params.length + i.opcode.receivers ≤ before ∧
      (after : Int) = before + d.stackEffect - i.opcode.receivers

theorem moves_retarget {entries : Array Constant} {i : Instruction} (jump : i.opcode.isJump = true)
    (t before after : Nat) : (i.retarget t).Moves entries before after ↔ i.Moves entries before after := by
  obtain ⟨offset, op, operands⟩ := i
  cases op <;> simp_all [Moves, retarget, Opcode.isJump, Opcode.stackEffect]

theorem moves_patch {entries : Array Constant} {i : Instruction} (offsets : List Nat) (v : Nat)
    (jumps : i.offset + 1 ∈ offsets → i.opcode.isJump = true) (before after : Nat) :
    (i.patch offsets v).Moves entries before after ↔ i.Moves entries before after := by
  unfold patch
  split
  · rename_i hit
    exact moves_retarget (jumps hit) v before after
  · exact Iff.rfl

theorem Moves.mono {entries entries' : Array Constant} {i : Instruction} {before after : Nat}
    (moves : i.Moves entries before after) (grown : entries.toList <+: entries'.toList) :
    i.Moves entries' before after := by
  unfold Moves at moves ⊢
  split
  · rename_i e effect
    simpa [effect] using moves
  · rename_i effect
    simp only [effect] at moves
    obtain ⟨f, d, operands, describes, room, after⟩ := moves
    exact ⟨f, d, operands, describes.mono grown, room, after⟩

end Instruction

/-! ## Pool operands -/

/-- The kind of pool entry the operand of an opcode names, for the opcodes that take a pool
index: a class to make, a field, a function to call, or a constant to load. -/
def Opcode.entryKind : Opcode → Option (Constant → Bool)
  | .new => some Constant.isClassRef
  | .loadStaticField | .storeStaticField | .loadInstanceField | .storeInstanceField => some Constant.isField
  | .invokeSpecial | .invokeVirtual | .invokeDynamic | .invokeStatic => some Constant.isFunction
  | .loadCpr => some Constant.isLoadable
  | _ => none

/-- An opcode that asks for a pool entry takes one two-byte operand, its index. -/
theorem Opcode.operands_of_entryKind {o : Opcode} {kind : Constant → Bool} (asks : o.entryKind = some kind) :
    o.operands = [.u16] := by
  cases o <;> simp_all [Opcode.entryKind, Opcode.operands]

namespace Instruction

/-- The pool index an instruction takes names an entry of the kind its opcode asks for. -/
def Refers (entries : Array Constant) (i : Instruction) : Prop :=
  ∀ kind, i.opcode.entryKind = some kind → ∃ f, i.operands = [f] ∧ Names entries f kind

theorem Refers.mono {entries entries' : Array Constant} {i : Instruction} (refers : i.Refers entries)
    (grown : entries.toList <+: entries'.toList) : i.Refers entries' := by
  intro kind asks
  obtain ⟨f, operands, names⟩ := refers kind asks
  exact ⟨f, operands, names.mono grown⟩

/-- An instruction whose opcode asks for no pool entry refers to none. -/
theorem refers_of_none {entries : Array Constant} {i : Instruction} (none : i.opcode.entryKind = none) :
    i.Refers entries := by
  intro kind asks
  rw [none] at asks
  cases asks

/-- An instruction that takes an entry of the kind its opcode asks for refers to it. -/
theorem refers_of_names {entries : Array Constant} {i : Instruction} {kind : Constant → Bool} {f : Nat}
    (asks : i.opcode.entryKind = some kind) (operands : i.operands = [f]) (names : Names entries f kind) :
    i.Refers entries := by
  intro kind' asks'
  rw [asks, Option.some.injEq] at asks'
  subst asks'
  exact ⟨f, operands, names⟩

/-- An instruction without operands refers to no pool entry. -/
theorem refers_of_bare {entries : Array Constant} {i : Instruction} (bare : i.opcode.operands = []) :
    i.Refers entries := by
  intro kind asks
  rw [Opcode.operands_of_entryKind asks] at bare
  cases bare

/-- A jump takes no pool index. -/
theorem refers_of_jump {entries : Array Constant} {i : Instruction} (jump : i.opcode.isJump = true) :
    i.Refers entries := by
  intro kind asks
  obtain ⟨offset, op, operands⟩ := i
  cases op <;> simp_all [Opcode.isJump, Opcode.entryKind]

/-- Patching the targets of jumps leaves every pool index as it was. -/
theorem refers_patch {entries : Array Constant} {i : Instruction} (offsets : List Nat) (v : Nat)
    (jumps : i.offset + 1 ∈ offsets → i.opcode.isJump = true) :
    (i.patch offsets v).Refers entries ↔ i.Refers entries := by
  unfold patch
  split
  · rename_i hit
    have jump := jumps hit
    exact ⟨fun _ => refers_of_jump jump, fun _ => refers_of_jump (by simpa [retarget] using jump)⟩
  · exact Iff.rfl

/-- An invocation whose function entry describes its call takes a function of the pool. -/
theorem refers_of_describes {entries : Array Constant} {i : Instruction} {f : Nat} {d : FunctionDescriptor}
    (invoke : i.opcode.isInvoke = true) (operands : i.operands = [f]) (describes : Describes entries f d) :
    i.Refers entries := by
  intro kind asks
  obtain ⟨one, owner, descriptor, name, slot, entry, -⟩ := describes
  have same : kind = Constant.isFunction := by
    obtain ⟨offset, op, xs⟩ := i
    cases op <;> simp_all [Opcode.isInvoke, Opcode.entryKind]
  subst same
  exact ⟨f, operands, one, _, entry, rfl⟩

end Instruction

/-! ## Targets and waiting jumps -/

namespace CodeBuilder

/-- Where a jump may go: to an instruction of the code, or to its end while the end is reachable
(the next instruction will stand there). -/
def Target (b : CodeBuilder) (t : Nat) : Prop :=
  Starts b.instructions t ∨ (t = b.code.size ∧ b.depth.isSome = true)

/-- An instruction starts at the offset, or the code ends there. -/
def Boundary (b : CodeBuilder) (o : Nat) : Prop :=
  Starts b.instructions o ∨ o = b.code.size

/-- A range of the code is non-empty and made of whole instructions: it starts at an instruction,
and stops at one or where the code ends. -/
def Covers (b : CodeBuilder) (start stop : Nat) : Prop :=
  start < stop ∧ stop ≤ b.code.size ∧ Starts b.instructions start ∧ b.Boundary stop

/-- A range stays one of whole instructions as code is appended or patched: instructions keep their
offsets, and code appended starts where the code ended. -/
theorem Covers.extend {b b' : CodeBuilder} {start stop : Nat} (covers : b.Covers start stop)
    (size : b.code.size ≤ b'.code.size) (starts : ∀ o, Starts b.instructions o → Starts b'.instructions o)
    (appended : b.code.size < b'.code.size → Starts b'.instructions b.code.size) : b'.Covers start stop := by
  obtain ⟨nonempty, high, first, last⟩ := covers
  refine ⟨nonempty, Nat.le_trans high size, starts _ first, ?_⟩
  rcases last with inside | at_end
  · exact Or.inl (starts _ inside)
  · rcases Nat.lt_or_eq_of_le size with grew | same
    · exact Or.inl (at_end ▸ appended grew)
    · exact Or.inr (at_end.trans same)

end CodeBuilder

/-- A row lies inside a range or apart from it. -/
def HandlerSite.Within (row : HandlerSite) (start stop : Nat) : Prop :=
  row.stop ≤ start ∨ stop ≤ row.start ∨ (start ≤ row.start ∧ row.stop ≤ stop)

/-- How the open loops relate to those of every later state: identifiers only grow, a loop open
later is open now or was entered since, and a `break` record stays until its loop is left. -/
structure LoopStack.Grows (l l' : LoopStack) : Prop where
  counter : l.nextIdentifier ≤ l'.nextIdentifier
  entered : ∀ fr ∈ l'.frames, fr ∈ l.frames ∨ l.nextIdentifier ≤ fr.identifier
  records : ∀ r ∈ l.breaks, r ∈ l'.breaks ∨
    (r.loop ∉ l'.frames.map (·.identifier) ∧ r.loop < l'.nextIdentifier)

namespace LoopStack.Grows

theorem refl (l : LoopStack) : l.Grows l :=
  ⟨Nat.le_refl _, fun _ mem => Or.inl mem, fun _ mem => Or.inl mem⟩

theorem trans {l₁ l₂ l₃ : LoopStack} (first : l₁.Grows l₂) (second : l₂.Grows l₃) : l₁.Grows l₃ where
  counter := Nat.le_trans first.counter second.counter
  entered fr mem := by
    rcases second.entered fr mem with old | late
    · exact first.entered fr old
    · exact Or.inr (Nat.le_trans first.counter late)
  records r mem := by
    rcases first.records r mem with kept | ⟨closed, below⟩
    · exact second.records r kept
    · -- a loop once left is never open again: later loops have larger identifiers
      refine Or.inr ⟨fun reopened => ?_, Nat.lt_of_lt_of_le below second.counter⟩
      obtain ⟨fr, memF, same⟩ := List.mem_map.mp reopened
      rcases second.entered fr memF with old | late
      · exact closed (List.mem_map.mpr ⟨fr, old, same⟩)
      · omega

theorem push (l : LoopStack) (label : Option String) (continueLabel : Nat) :
    l.Grows (l.push label continueLabel).2 where
  counter := Nat.le_succ _
  entered fr mem := by
    simp only [LoopStack.push, List.mem_append, List.mem_singleton] at mem
    rcases mem with old | rfl
    · exact Or.inl old
    · exact Or.inr (Nat.le_refl _)
  records _ mem := Or.inl mem

theorem recordBreak (l : LoopStack) (loop operand : Nat) : l.Grows (l.recordBreak loop operand) :=
  ⟨Nat.le_refl _, fun _ mem => Or.inl mem, fun _ mem => Or.inl (List.mem_cons_of_mem _ mem)⟩

end LoopStack.Grows

/-- The operand offsets of the jumps that wait for a label. -/
def LabelState.waiting : LabelState → List Nat
  | .unplaced fixups _ => fixups.toList
  | .placed _ => []

namespace Lowering

/-- The operand offsets of the jumps whose target is not written yet: those that wait for a
label, and the `break`s that wait for their loop's exit. -/
def pending (s : Lowering) : List Nat :=
  s.code.labels.toList.flatMap LabelState.waiting ++ s.loops.breaks.map (·.operand)

theorem mem_pending {s : Lowering} {p : Nat} :
    p ∈ s.pending ↔
      (∃ (l : Nat) (fixups : Array Nat) (r : Option Nat),
        s.code.labels[l]? = some (.unplaced fixups r) ∧ p ∈ fixups.toList) ∨
        ∃ r ∈ s.loops.breaks, r.operand = p := by
  simp only [pending, List.mem_append, List.mem_flatMap, List.mem_map]
  apply or_congr_left
  constructor
  · rintro ⟨st, mem, waits⟩
    obtain ⟨l, below, rfl⟩ := List.getElem_of_mem mem
    cases hst : s.code.labels.toList[l] with
    | unplaced fixups r =>
      rw [hst] at waits
      exact ⟨l, fixups, r, by rw [← Array.getElem?_toList, List.getElem?_eq_getElem below, hst], waits⟩
    | placed _ =>
      rw [hst] at waits
      simp [LabelState.waiting] at waits
  · rintro ⟨l, fixups, r, found, waits⟩
    rw [← Array.getElem?_toList] at found
    exact ⟨.unplaced fixups r, List.mem_of_getElem? found, waits⟩

/-! ## The invariant -/

/-- What holds after every step of lowering a function body, with the stack height `height`
noted at every offset. `init` says whether the function is an initializer, which returns
nothing. -/
structure Sound (init : Bool) (s : Lowering) (height : Nat → Nat) : Prop where
  live : s.code.Live
  encoded : s.code.Encoded
  /-- The channel to re-activate when the code is finished is open. -/
  previous : ∀ p, s.code.previousActive = some p → p ≠ s.code.channel →
    ∃ bytes, s.code.channels.slots[p]? = some (some bytes)
  /-- Returns match the function: an initializer returns nothing, any other function a value. -/
  returns : ∀ i ∈ s.code.instructions, (i.opcode = .ret → init = true) ∧ (i.opcode = .retA → init = false)
  /-- Code is unreachable only right after an instruction that never falls through. -/
  ends : s.code.depth = none →
    ∃ i, s.code.instructions.getLast? = some i ∧ i.opcode.isUnconditional = true
  /-- Where the end is reachable, the height noted there is the depth the builder tracks. -/
  current : ∀ d, s.code.depth = some d → height s.code.code.size = d
  moves : ∀ i ∈ s.code.instructions, ∃ after, i.Moves s.pool.entries (height i.offset) after ∧
    after ≤ s.code.maxDepth ∧
    (i.opcode.isUnconditional = false → height (i.offset + i.opcode.length) = after) ∧
    (i.opcode.isJump = true → i.offset + 1 ∈ s.pending ∨
      ∃ t, i.operands = [t] ∧ s.code.Target t ∧ height t = after)
  bounded : s.code.depth.getD 0 ≤ s.code.maxDepth ∧ ∀ i ∈ s.code.instructions, height i.offset ≤ s.code.maxDepth
  placed : ∀ l p : Nat, s.code.labels[l]? = some (.placed p) → p ≤ CodeBuilder.maxWord ∧ s.code.Target p
  /-- The jumps waiting for a label all leave the depth the label recorded. -/
  fixups : ∀ (l : Nat) (fixups : Array Nat) (r : Option Nat), s.code.labels[l]? = some (.unplaced fixups r) →
    (∀ d, r = some d → d ≤ s.code.maxDepth) ∧
    ∀ f ∈ fixups.toList, ∃ i ∈ s.code.instructions, i.opcode.isJump = true ∧ i.offset + 1 = f ∧
      ∃ d : Nat, r = some d ∧ i.Moves s.pool.entries (height i.offset) d
  breaks : ∀ r ∈ s.loops.breaks, r.loop ∈ s.loops.frames.map (·.identifier) ∧
    ∃ i ∈ s.code.instructions, i.opcode = .jump ∧ i.offset + 1 = r.operand ∧ height i.offset = 0
  frames : ∀ fr ∈ s.loops.frames, fr.identifier < s.loops.nextIdentifier ∧
    ∃ p : Nat, s.code.labels[fr.continueLabel]? = some (.placed p) ∧ height p = 0
  /-- Loops further in were entered later. -/
  ordered : s.loops.frames.Pairwise (·.identifier < ·.identifier)
  handlers : ∀ row ∈ s.code.handlers.toList, Starts s.code.instructions row.handler ∧ height row.handler = 1
  ranges : ∀ row ∈ s.code.handlers.toList, s.code.Covers row.start row.stop
  /-- Rows are nested innermost first: a row meets a later one only inside it. -/
  nested : s.code.handlers.toList.Pairwise fun row later => row.Within later.start later.stop
  /-- The pool index an instruction takes names an entry of the kind it asks for. -/
  refers : ∀ i ∈ s.code.instructions, i.Refers s.pool.entries
  /-- The class a row catches is a class of the pool. -/
  catches : ∀ row ∈ s.code.handlers.toList, ∀ c, row.catchClass = some c → Names s.pool.entries c Constant.isClassRef
  pool : s.pool.Consistent

/-- How a state relates to every later one: the code only grows, and keeps the offsets, opcodes
and noted heights of what it held; placed labels stay; the pool and the diagnostics only grow;
the builder keeps its channel and leaves the others alone. -/
structure Grows (s : Lowering) (height : Nat → Nat) (s' : Lowering) (height' : Nat → Nat) : Prop where
  size : s.code.code.size ≤ s'.code.code.size
  persists : ∀ i ∈ s.code.instructions, ∃ j ∈ s'.code.instructions, j.offset = i.offset ∧ j.opcode = i.opcode
  /-- Code appended where the code ended starts there. -/
  appended : s.code.code.size < s'.code.code.size → Starts s'.code.instructions s.code.code.size
  heights : ∀ o, o < s.code.code.size ∨ (o = s.code.code.size ∧ s.code.depth.isSome = true) →
    height' o = height o
  /-- Reachable code becomes unreachable only by appending code. -/
  reachable : s'.code.code.size = s.code.code.size → s.code.depth.isSome = true → s'.code.depth.isSome = true
  labels : s.code.labels.size ≤ s'.code.labels.size
  placed : ∀ l p : Nat, s.code.labels[l]? = some (.placed p) → s'.code.labels[l]? = some (.placed p)
  pool : s.pool.entries.toList <+: s'.pool.entries.toList
  diagnostics : s.diagnostics.toList <+: s'.diagnostics.toList
  channel : s'.code.channel = s.code.channel
  previousActive : s'.code.previousActive = s.code.previousActive
  others : ∀ c, c ≠ s.code.channel → s'.code.channels.slots[c]? = s.code.channels.slots[c]?
  /-- An instruction whose operand waits for nothing is never rewritten. -/
  kept : ∀ i ∈ s.code.instructions, i.offset < s.code.code.size → i.offset + 1 ∉ s.pending →
    i ∈ s'.code.instructions
  /-- Only the operands of code appended later start to wait. -/
  fresh : ∀ p ∈ s'.pending, p ∈ s.pending ∨ s.code.code.size < p
  loops : s.loops.Grows s'.loops

theorem Grows.refl (s : Lowering) (height : Nat → Nat) : Grows s height s height where
  size := Nat.le_refl _
  persists i mem := ⟨i, mem, rfl, rfl⟩
  appended small := absurd small (Nat.lt_irrefl _)
  heights _ _ := rfl
  reachable _ reached := reached
  labels := Nat.le_refl _
  placed _ _ found := found
  pool := List.prefix_refl _
  diagnostics := List.prefix_refl _
  channel := rfl
  previousActive := rfl
  others _ _ := rfl
  kept _ mem _ _ := mem
  fresh _ mem := Or.inl mem
  loops := .refl _

theorem Grows.trans {s₁ s₂ s₃ : Lowering} {h₁ h₂ h₃ : Nat → Nat} (first : Grows s₁ h₁ s₂ h₂)
    (second : Grows s₂ h₂ s₃ h₃) : Grows s₁ h₁ s₃ h₃ where
  size := Nat.le_trans first.size second.size
  persists i mem := by
    obtain ⟨j, memJ, offset, opcode⟩ := first.persists i mem
    obtain ⟨k, memK, offset', opcode'⟩ := second.persists j memJ
    exact ⟨k, memK, offset'.trans offset, opcode'.trans opcode⟩
  appended grew := by
    by_cases small : s₁.code.code.size < s₂.code.code.size
    · obtain ⟨i, mem, at_⟩ := first.appended small
      obtain ⟨j, memJ, offset, _⟩ := second.persists i mem
      exact ⟨j, memJ, offset.trans at_⟩
    · have same : s₂.code.code.size = s₁.code.code.size := Nat.le_antisymm (Nat.le_of_not_lt small) first.size
      exact same ▸ second.appended (same ▸ grew)
  heights o at_ := by
    rw [← first.heights o at_]
    apply second.heights o
    rcases at_ with below | ⟨rfl, reached⟩
    · exact Or.inl (Nat.lt_of_lt_of_le below first.size)
    · by_cases small : s₁.code.code.size < s₂.code.code.size
      · exact Or.inl small
      · have same : s₂.code.code.size = s₁.code.code.size := Nat.le_antisymm (Nat.le_of_not_lt small) first.size
        exact Or.inr ⟨same.symm, first.reachable same reached⟩
  reachable same reached := by
    have middle : s₂.code.code.size = s₁.code.code.size :=
      Nat.le_antisymm (same ▸ second.size) first.size
    exact second.reachable (same.trans middle.symm) (first.reachable middle reached)
  labels := Nat.le_trans first.labels second.labels
  placed l p found := second.placed l p (first.placed l p found)
  pool := first.pool.trans second.pool
  diagnostics := first.diagnostics.trans second.diagnostics
  channel := second.channel.trans first.channel
  previousActive := second.previousActive.trans first.previousActive
  others c other := by
    rw [second.others c (first.channel ▸ other), first.others c other]
  kept i mem below waits := by
    refine second.kept i (first.kept i mem below waits) (Nat.lt_of_lt_of_le below first.size) fun waits₂ => ?_
    rcases first.fresh _ waits₂ with waits₁ | late
    · exact waits waits₁
    · omega
  fresh p mem := by
    rcases second.fresh p mem with waits | late
    · exact first.fresh p waits
    · exact Or.inr (Nat.lt_of_le_of_lt first.size late)
  loops := first.loops.trans second.loops

/-- What a run of steps leaves as it found it, apart from the labels `own` and the private slots:
the labels handed out before it, the labels it hands out (which it places), the open loops, and
all but the `break` records it adds. -/
structure Spans (own : List Nat) (s s' : Lowering) : Prop where
  size : s.code.labels.size ≤ s'.code.labels.size
  labels : ∀ l < s.code.labels.size, l ∉ own → s'.code.labels[l]? = s.code.labels[l]?
  placed : ∀ l : Nat, s.code.labels.size ≤ l → l < s'.code.labels.size → l ∉ own →
    ∃ p : Nat, s'.code.labels[l]? = some (.placed p)
  frames : s'.loops.frames = s.loops.frames
  breaks : ∃ added, s'.loops.breaks = added ++ s.loops.breaks

/-- The rows of `s'` are those of `s` followed by rows that start at `low` or later, with their
handlers in code emitted after `s`. -/
def RowsFrom (low : Nat) (s s' : Lowering) : Prop :=
  ∃ added : List HandlerSite, s'.code.handlers.toList = s.code.handlers.toList ++ added ∧
    ∀ row ∈ added, low ≤ row.start ∧ s.code.code.size ≤ row.handler

/-- The rows of `s'` are those of `s` followed by rows over code emitted after `s`, with their
handlers in it. -/
def RowsSince (s s' : Lowering) : Prop :=
  RowsFrom s.code.code.size s s'

section Rows

variable {low low' : Nat} {s s' s₁ s₂ s₃ : Lowering}

theorem RowsFrom.mem (rows : RowsFrom low s s') :
    ∀ row ∈ s'.code.handlers.toList, row ∈ s.code.handlers.toList ∨
      low ≤ row.start ∧ s.code.code.size ≤ row.handler := by
  obtain ⟨added, handlers, bound⟩ := rows
  intro row mem
  rw [handlers, List.mem_append] at mem
  exact mem.imp id (bound row)

theorem RowsFrom.trans (first : RowsFrom low s₁ s₂) (second : RowsFrom low' s₂ s₃) (above : low ≤ low')
    (grown : s₁.code.code.size ≤ s₂.code.code.size) : RowsFrom low s₁ s₃ := by
  obtain ⟨added₁, handlers₁, bound₁⟩ := first
  obtain ⟨added₂, handlers₂, bound₂⟩ := second
  refine ⟨added₁ ++ added₂, by rw [handlers₂, handlers₁, List.append_assoc], fun row mem => ?_⟩
  rcases List.mem_append.mp mem with old | new
  · exact bound₁ row old
  · obtain ⟨start, handler⟩ := bound₂ row new
    exact ⟨Nat.le_trans above start, Nat.le_trans grown handler⟩

theorem RowsFrom.mono (rows : RowsFrom low s s') (below : low' ≤ low) : RowsFrom low' s s' := by
  obtain ⟨added, handlers, bound⟩ := rows
  exact ⟨added, handlers, fun row mem => (bound row mem).imp_left (Nat.le_trans below)⟩

/-- Rows appended after a run keep what the run's rows satisfy, when they satisfy it too. -/
theorem RowsFrom.append {more : List HandlerSite} (rows : RowsFrom low s s₁)
    (handlers : s₂.code.handlers.toList = s₁.code.handlers.toList ++ more)
    (bound : ∀ row ∈ more, low ≤ row.start ∧ s.code.code.size ≤ row.handler) : RowsFrom low s s₂ := by
  obtain ⟨added, handlers₁, bound₁⟩ := rows
  refine ⟨added ++ more, by rw [handlers, handlers₁, List.append_assoc], fun row mem => ?_⟩
  rcases List.mem_append.mp mem with old | new
  · exact bound₁ row old
  · exact bound row new

theorem RowsSince.of_handlers (handlers : s'.code.handlers = s.code.handlers) : RowsSince s s' :=
  ⟨[], by rw [handlers, List.append_nil], nofun⟩

theorem RowsFrom.refl (low : Nat) (s : Lowering) : RowsFrom low s s :=
  ⟨[], by rw [List.append_nil], nofun⟩

theorem RowsSince.refl (s : Lowering) : RowsSince s s := RowsFrom.refl _ s

theorem RowsSince.trans (first : RowsSince s₁ s₂) (second : RowsSince s₂ s₃)
    (grown : s₁.code.code.size ≤ s₂.code.code.size) : RowsSince s₁ s₃ :=
  RowsFrom.trans first second grown grown

theorem RowsSince.of_code (code : s'.code = s.code) : RowsSince s s' := .of_handlers (by rw [code])

end Rows

/-- What a whole expression or statement leaves as it found it: what it spans, and the private
slots, which it releases. The code only grows, and the rows it adds to the exception table cover
code it emitted, with their handlers in it. -/
structure Contained (own : List Nat) (s s' : Lowering) : Prop extends Spans own s s' where
  slots : s'.locals.next = s.locals.next
  grown : s.code.code.size ≤ s'.code.code.size
  rows : RowsSince s s'

namespace Spans

variable {own own' own₁ own₂ : List Nat} {s s' s₁ s₂ s₃ : Lowering}

theorem refl (own : List Nat) (s : Lowering) : Spans own s s where
  size := Nat.le_refl _
  labels _ _ _ := rfl
  placed _ low high := absurd high (Nat.not_lt.mpr low)
  frames := rfl
  breaks := ⟨[], rfl⟩

/-- Two runs in a row own the labels either owns: a label placed by the first that the second
does not own stays placed. -/
theorem trans (first : Spans own₁ s₁ s₂) (second : Spans own₂ s₂ s₃) : Spans (own₁ ++ own₂) s₁ s₃ where
  size := Nat.le_trans first.size second.size
  labels l below other := by
    have other₁ : l ∉ own₁ := fun mem => other (List.mem_append_left own₂ mem)
    have other₂ : l ∉ own₂ := fun mem => other (List.mem_append_right own₁ mem)
    rw [second.labels l (Nat.lt_of_lt_of_le below first.size) other₂, first.labels l below other₁]
  placed l low high other := by
    have other₁ : l ∉ own₁ := fun mem => other (List.mem_append_left own₂ mem)
    have other₂ : l ∉ own₂ := fun mem => other (List.mem_append_right own₁ mem)
    by_cases old : l < s₂.code.labels.size
    · obtain ⟨p, found⟩ := first.placed l low old other₁
      exact ⟨p, (second.labels l old other₂).trans found⟩
    · exact second.placed l (Nat.le_of_not_lt old) high other₂
  frames := second.frames.trans first.frames
  breaks := by
    obtain ⟨added₁, breaks₁⟩ := first.breaks
    obtain ⟨added₂, breaks₂⟩ := second.breaks
    exact ⟨added₂ ++ added₁, by rw [breaks₂, breaks₁, List.append_assoc]⟩

/-- A label handed out before a run that does not own it is as it was. -/
theorem keeps (spans : Spans own s s') {l : Nat} {state : LabelState} (found : s.code.labels[l]? = some state)
    (other : l ∉ own) : s'.code.labels[l]? = some state :=
  (spans.labels l (Array.getElem?_eq_some_iff.mp found).1 other).trans found

theorem widen (spans : Spans own s s') (sub : ∀ l ∈ own, l ∈ own') : Spans own' s s' where
  size := spans.size
  labels l below other := spans.labels l below fun mem => other (sub l mem)
  placed l low high other := spans.placed l low high fun mem => other (sub l mem)
  frames := spans.frames
  breaks := spans.breaks

/-- A construct that placed its own labels, all handed out within it, leaves every label alone. -/
theorem close (spans : Spans own s s') (fresh : ∀ l ∈ own, s.code.labels.size ≤ l)
    (placed : ∀ l ∈ own, ∃ p : Nat, s'.code.labels[l]? = some (.placed p)) : Spans [] s s' where
  size := spans.size
  labels l below _ := spans.labels l below fun mem => absurd (fresh l mem) (Nat.not_le.mpr below)
  placed l low high _ := by
    by_cases mine : l ∈ own
    · exact placed l mine
    · exact spans.placed l low high mine
  frames := spans.frames
  breaks := spans.breaks

/-- A label a run owns need not stay owned once the run has made it fresh and placed it. -/
theorem shrink (spans : Spans own s s')
    (kept : ∀ l ∈ own, l ∈ own' ∨ s.code.labels.size ≤ l ∧ ∃ p : Nat, s'.code.labels[l]? = some (.placed p)) :
    Spans own' s s' where
  size := spans.size
  labels l below other := spans.labels l below fun mine => by
    rcases kept l mine with theirs | ⟨fresh, -⟩
    · exact other theirs
    · exact absurd fresh (Nat.not_le.mpr below)
  placed l low high other := by
    by_cases mine : l ∈ own
    · rcases kept l mine with theirs | ⟨-, placed⟩
      · exact absurd theirs other
      · exact placed
    · exact spans.placed l low high mine
  frames := spans.frames
  breaks := spans.breaks

end Spans

namespace Contained

variable {own own' own₁ own₂ : List Nat} {s s' s₁ s₂ s₃ : Lowering}

theorem refl (own : List Nat) (s : Lowering) : Contained own s s :=
  { Spans.refl own s with slots := rfl, grown := Nat.le_refl _, rows := .refl s }

theorem trans (first : Contained own₁ s₁ s₂) (second : Contained own₂ s₂ s₃) :
    Contained (own₁ ++ own₂) s₁ s₃ where
  toSpans := first.toSpans.trans second.toSpans
  slots := second.slots.trans first.slots
  grown := Nat.le_trans first.grown second.grown
  rows := first.rows.trans second.rows first.grown

theorem keeps (contained : Contained own s s') {l : Nat} {state : LabelState}
    (found : s.code.labels[l]? = some state) (other : l ∉ own) : s'.code.labels[l]? = some state :=
  contained.toSpans.keeps found other

theorem widen (contained : Contained own s s') (sub : ∀ l ∈ own, l ∈ own') : Contained own' s s' :=
  { contained with toSpans := contained.toSpans.widen sub }

theorem close (contained : Contained own s s') (fresh : ∀ l ∈ own, s.code.labels.size ≤ l)
    (placed : ∀ l ∈ own, ∃ p : Nat, s'.code.labels[l]? = some (.placed p)) : Contained [] s s' :=
  { contained with toSpans := contained.toSpans.close fresh placed }

theorem shrink (contained : Contained own s s')
    (kept : ∀ l ∈ own, l ∈ own' ∨ s.code.labels.size ≤ l ∧ ∃ p : Nat, s'.code.labels[l]? = some (.placed p)) :
    Contained own' s s' :=
  { contained with toSpans := contained.toSpans.shrink kept }

end Contained

/-- The code here is reached with `k` values on the stack, or is unreachable and `k` is zero. -/
def Holds (s : Lowering) (k : Nat) : Prop :=
  s.code.depth = some k ∨ (s.code.depth = none ∧ k = 0)

theorem Holds.getD {s : Lowering} {k : Nat} (holds : s.Holds k) : s.code.depth.getD 0 = k := by
  rcases holds with reached | ⟨unreached, rfl⟩ <;> simp [*]

/-- A nonempty stack is reached. -/
theorem Holds.reached {s : Lowering} {k : Nat} (holds : s.Holds (k + 1)) : s.code.depth = some (k + 1) :=
  holds.resolve_right fun ⟨_, zero⟩ => Nat.succ_ne_zero k zero

section Start

open CodeBuilder

/-- The state a body is lowered from is sound: its builder writes into an open, empty and active
channel and has no label, loop or row yet, and its pool is consistent. -/
theorem sound_start (init : Bool) {cs : ChannelSet} {channel : Nat} {previous : Option Nat}
    (pool : ConstantPool) (diagnostics : Array Diagnostic) (base : Nat)
    (active : cs.active = some channel) (empty : cs.slots[channel]? = some (some #[]))
    (others : ∀ p, previous = some p → p ≠ channel → ∃ bytes, cs.slots[p]? = some (some bytes))
    (consistent : pool.Consistent) :
    Sound init ⟨{ channels := cs, channel := channel, previousActive := previous }, pool, diagnostics,
      .ofBase base, {}⟩ (fun _ => 0) := by
  have code : ({ channels := cs, channel := channel, previousActive := previous } : CodeBuilder).code = #[] :=
    code_of_slot empty
  have nothing : ({ channels := cs, channel := channel, previousActive := previous } : CodeBuilder).instructions = [] := by
    simp [instructions, code, decode_nil]
  exact {
    live := ⟨active, _, empty⟩
    encoded := by simp [Encoded, nothing, code, image, Laid]
    previous := others
    returns := by simp [nothing]
    ends := by simp
    current := fun _ reached => by cases reached; rfl
    moves := by simp [nothing]
    bounded := by simp [nothing]
    placed := by simp
    fixups := by simp
    breaks := by simp
    frames := by simp
    ordered := by simp
    handlers := by simp
    ranges := by simp
    nested := by simp
    refers := by simp [nothing]
    catches := by simp
    pool := consistent }

/-- The state the code of a function starts from when its builder opens the first channel of a
new session: that channel is active and empty, and the pool and the slots are empty. -/
def entry : Lowering :=
  ⟨{ channels := ⟨#[some #[]], some 0⟩, channel := 0, previousActive := none }, {}, #[], .ofBase 0, {}⟩

theorem sound_entry (init : Bool) : Sound init entry (fun _ => 0) :=
  sound_start init {} #[] 0 rfl rfl (fun _ absent _ => absurd absent (Option.some_ne_none _).symm)
    ConstantPool.consistent_empty

theorem holds_entry : entry.Holds 0 :=
  .inl rfl

end Start

end Lowering

end Febc
