import Febc.Proofs.Sound

/-!
# Each step keeps lowering sound

One lemma per kind of step: appending an instruction, placing a label, patching the `break`s of
a loop being left, entering a handler, adding a row to the exception table, handing out a label,
interning constants, and entering a loop. Each takes a sound state to a sound state that grew from
it, with the heights noted anew where the step changes the depth.
-/

namespace Febc

namespace Lowering

open CodeBuilder

/-- The heights with a new one noted at one offset. -/
def noteAt (height : Nat → Nat) (o v : Nat) : Nat → Nat := fun x => if x = o then v else height x

@[simp] theorem noteAt_self (height : Nat → Nat) (o v : Nat) : noteAt height o v o = v := by
  simp [noteAt]

theorem noteAt_ne (height : Nat → Nat) {o x : Nat} (v : Nat) (other : x ≠ o) :
    noteAt height o v x = height x := by
  simp [noteAt, other]

theorem length_pos (op : Opcode) : 1 ≤ op.length := by
  simp [Opcode.length_eq_sum]

section Append

variable {init : Bool} {s s' : Lowering} {h : Nat → Nat}

theorem end_le (sound : Sound init s h) : ∀ j ∈ s.code.instructions, j.offset + j.opcode.length ≤ s.code.code.size := by
  intro j mem
  rw [size_eq_length_image sound.encoded]
  exact Laid.end_le sound.encoded.2.1 sound.encoded.2.2 j mem

theorem offset_lt (sound : Sound init s h) {j : Instruction} (mem : j ∈ s.code.instructions) : j.offset < s.code.code.size := by
  have := end_le sound j mem
  have := length_pos j.opcode
  omega

theorem Target.lt_or_end {t : Nat} (sound : Sound init s h) (target : s.code.Target t) :
    t < s.code.code.size ∨ (t = s.code.code.size ∧ s.code.depth.isSome = true) := by
  rcases target with ⟨j, mem, rfl⟩ | at_end
  · exact Or.inl (offset_lt sound mem)
  · exact Or.inr at_end

/-- A falling-through instruction that ends where the code ends leaves the end reachable. -/
theorem reached_of_falls (sound : Sound init s h) {j : Instruction} (mem : j ∈ s.code.instructions)
    (falls : j.opcode.isUnconditional = false) (ends : j.offset + j.opcode.length = s.code.code.size) :
    s.code.depth.isSome = true := by
  cases hd : s.code.depth with
  | some d => rfl
  | none =>
    obtain ⟨last, isLast, stops⟩ := sound.ends hd
    rw [size_eq_length_image sound.encoded] at ends
    have same := Laid.getLast_of_end sound.encoded.2.1 sound.encoded.2.2 mem ends
    rw [same, Option.some.injEq] at isLast
    rw [isLast] at falls
    simp [falls] at stops

/-- Appending an instruction at the end of the code keeps the state sound. The label a jump waits
for records the jump's operand, and a `break` placeholder is recorded against an open loop; every
other label and record stays. -/
theorem Sound.append (sound : Sound init s h) (s' : Lowering)
    {i : Instruction} {after : Nat} (at_ : i.offset = s.code.code.size) (fits : i.Fits)
    (moves : i.Moves s.pool.entries (s.code.depth.getD 0) after) (refers : i.Refers s.pool.entries)
    (returns : (i.opcode = .ret → init = true) ∧ (i.opcode = .retA → init = false))
    (channels : s'.code.channels = (s.code.write i.bytes).channels)
    (channel : s'.code.channel = s.code.channel)
    (previousActive : s'.code.previousActive = s.code.previousActive)
    (handlers : s'.code.handlers = s.code.handlers)
    (depth : s'.code.depth = if i.opcode.isUnconditional then none else some after)
    (maxDepth : s'.code.maxDepth = max s.code.maxDepth after)
    (pool : s'.pool = s.pool) (diagnostics : s'.diagnostics = s.diagnostics)
    (labelCount : s'.code.labels.size = s.code.labels.size)
    (keepsPlaced : ∀ l p : Nat, s.code.labels[l]? = some (.placed p) → s'.code.labels[l]? = some (.placed p))
    (labels : ∀ (l : Nat) (st : LabelState), s'.code.labels[l]? = some st → s.code.labels[l]? = some st ∨
      ∃ (fixups : Array Nat) (r : Option Nat), st = .unplaced (fixups.push (i.offset + 1)) (some after) ∧
        s.code.labels[l]? = some (.unplaced fixups r) ∧ (∀ d, r = some d → d = after) ∧ i.opcode.isJump = true)
    (frames : s'.loops.frames = s.loops.frames)
    (nextIdentifier : s'.loops.nextIdentifier = s.loops.nextIdentifier)
    (breaks : ∀ r ∈ s'.loops.breaks, r ∈ s.loops.breaks ∨
      (r.operand = i.offset + 1 ∧ r.loop ∈ s.loops.frames.map (·.identifier) ∧ i.opcode = .jump ∧
        s.code.depth.getD 0 = 0))
    (keptBreaks : ∀ r ∈ s.loops.breaks, r ∈ s'.loops.breaks)
    (pending : ∀ p ∈ s.pending, p ∈ s'.pending)
    (target : i.opcode.isJump = true → i.offset + 1 ∈ s'.pending ∨
      ∃ t, i.operands = [t] ∧ s.code.Target t ∧ h t = after) :
    Sound init s' (noteAt (noteAt h i.offset (s.code.depth.getD 0)) (i.offset + i.opcode.length) after) ∧
      Grows s h s' (noteAt (noteAt h i.offset (s.code.depth.getD 0)) (i.offset + i.opcode.length) after) := by
  obtain ⟨encodedW, instructionsW⟩ := encoded_write sound.live sound.encoded at_ fits
  have instructions : s'.code.instructions = s.code.instructions ++ [i] :=
    (instructions_congr channels channel).trans instructionsW
  have size : s'.code.code.size = s.code.code.size + i.opcode.length := by
    rw [code_congr channels channel, code_write sound.live]
    simp [Instruction.length_bytes i fits]
  have wide := length_pos i.opcode
  have low : ∀ o, o < s.code.code.size →
      noteAt (noteAt h i.offset (s.code.depth.getD 0)) (i.offset + i.opcode.length) after o = h o := by
    intro o below
    rw [noteAt_ne _ _ (by omega), noteAt_ne _ _ (by omega)]
  have here : noteAt (noteAt h i.offset (s.code.depth.getD 0)) (i.offset + i.opcode.length) after i.offset =
      s.code.depth.getD 0 := by
    rw [noteAt_ne _ _ (by omega), noteAt_self]
  have heights : ∀ o, o < s.code.code.size ∨ (o = s.code.code.size ∧ s.code.depth.isSome = true) →
      noteAt (noteAt h i.offset (s.code.depth.getD 0)) (i.offset + i.opcode.length) after o = h o := by
    rintro o (below | ⟨rfl, reached⟩)
    · exact low o below
    · rw [← at_, here]
      cases hd : s.code.depth with
      | none => simp [hd] at reached
      | some d => simp [sound.current d hd, at_]
  have targets : ∀ t, s.code.Target t → s'.code.Target t ∧
      noteAt (noteAt h i.offset (s.code.depth.getD 0)) (i.offset + i.opcode.length) after t = h t := by
    intro t found
    refine ⟨Or.inl ?_, heights t (Target.lt_or_end sound found)⟩
    rw [instructions]
    rcases found with starts | ⟨rfl, _⟩
    · exact starts.append [i]
    · exact ⟨i, by simp, at_⟩
  have live' : s'.code.Live := (live_congr channels channel).mpr (live_write sound.live _)
  have encoded' : s'.code.Encoded := (encoded_congr channels channel).mpr encodedW
  have previous' : ∀ p, s'.code.previousActive = some p → p ≠ s'.code.channel →
      ∃ bytes, s'.code.channels.slots[p]? = some (some bytes) := by
    intro p previous other
    rw [previousActive] at previous
    rw [channel] at other
    obtain ⟨bytes, slot⟩ := sound.previous p previous other
    exact ⟨bytes, by rw [channels, write_slots_ne _ _ other, slot]⟩
  have returns' : ∀ j ∈ s'.code.instructions,
      (j.opcode = .ret → init = true) ∧ (j.opcode = .retA → init = false) := by
    intro j mem
    rw [instructions, List.mem_append, List.mem_singleton] at mem
    rcases mem with old | rfl
    · exact sound.returns j old
    · exact returns
  have ends' : s'.code.depth = none →
      ∃ j, s'.code.instructions.getLast? = some j ∧ j.opcode.isUnconditional = true := by
    intro unreached
    rw [depth] at unreached
    split at unreached
    · rename_i stops
      exact ⟨i, by simp [instructions], stops⟩
    · simp at unreached
  have current' : ∀ d, s'.code.depth = some d →
      noteAt (noteAt h i.offset (s.code.depth.getD 0)) (i.offset + i.opcode.length) after
        s'.code.code.size = d := by
    intro d reached
    rw [depth] at reached
    split at reached
    · simp at reached
    · rw [Option.some.injEq] at reached
      rw [size, ← at_, ← reached]
      simp
  -- the only operand that starts to wait is the appended jump's
  have fresh' : ∀ p ∈ s'.pending, p ∈ s.pending ∨ s.code.code.size < p := by
    intro p mem
    rcases mem_pending.mp mem with ⟨l, fixups, r, found, waits⟩ | ⟨rec, memR, rfl⟩
    · rcases labels l _ found with same | ⟨fixups₀, r₀, grown, old, -, -⟩
      · exact Or.inl (mem_pending.mpr (Or.inl ⟨l, fixups, r, same, waits⟩))
      · obtain ⟨rfl, -⟩ := LabelState.unplaced.inj grown
        simp only [Array.toList_push, List.mem_append, List.mem_singleton] at waits
        rcases waits with waits | rfl
        · exact Or.inl (mem_pending.mpr (Or.inl ⟨l, fixups₀, r₀, old, waits⟩))
        · exact Or.inr (by omega)
    · rcases breaks rec memR with old | ⟨operand, -⟩
      · exact Or.inl (mem_pending.mpr (Or.inr ⟨rec, old, rfl⟩))
      · exact Or.inr (by omega)
  refine ⟨{
      live := live'
      encoded := encoded'
      previous := previous'
      returns := returns'
      ends := ends'
      current := current'
      moves := ?_
      bounded := ?_
      placed := ?_
      fixups := ?_
      breaks := ?_
      frames := ?_
      ordered := by rw [frames]; exact sound.ordered
      handlers := ?_
      ranges := fun row mem => CodeBuilder.Covers.extend (sound.ranges row (by rw [← handlers]; exact mem)) (by rw [size]; omega)
        (fun o starts => by rw [instructions]; exact starts.append [i])
        (fun _ => ⟨i, by simp [instructions], at_⟩)
      nested := by rw [handlers]; exact sound.nested
      refers := fun j mem => by
        rw [instructions, List.mem_append, List.mem_singleton] at mem
        rw [pool]
        rcases mem with old | rfl
        · exact sound.refers j old
        · exact refers
      catches := by rw [handlers, pool]; exact sound.catches
      pool := by rw [pool]; exact sound.pool }, {
      size := by rw [size]; omega
      persists := fun j mem => ⟨j, by rw [instructions]; exact List.mem_append_left _ mem, rfl, rfl⟩
      appended := fun _ => ⟨i, by simp [instructions], at_⟩
      heights := heights
      reachable := fun same => by omega
      labels := by omega
      placed := keepsPlaced
      pool := pool ▸ List.prefix_refl _
      diagnostics := diagnostics ▸ List.prefix_refl _
      channel := channel
      previousActive := previousActive
      others := fun c other => by rw [channels, write_slots_ne _ _ other]
      kept := fun j mem _ _ => by rw [instructions]; exact List.mem_append_left _ mem
      fresh := fresh'
      loops := ⟨Nat.le_of_eq nextIdentifier.symm, fun fr mem => Or.inl (frames ▸ mem), fun r mem => Or.inl (keptBreaks r mem)⟩ }⟩
  · intro j mem
    rw [instructions, List.mem_append, List.mem_singleton] at mem
    rcases mem with old | rfl
    · obtain ⟨afterJ, movesJ, boundJ, fallsJ, jumpJ⟩ := sound.moves j old
      have below := end_le sound j old
      refine ⟨afterJ, ?_, ?_, ?_, ?_⟩
      · rw [pool, low _ (offset_lt sound old)]
        exact movesJ
      · rw [maxDepth]
        omega
      · intro falls
        rw [heights _ ?_]
        · exact fallsJ falls
        rcases Nat.lt_or_eq_of_le below with lt | eq
        · exact Or.inl lt
        · exact Or.inr ⟨eq, reached_of_falls sound old falls eq⟩
      · intro jump
        rcases jumpJ jump with waiting | ⟨t, operands, found, height⟩
        · exact Or.inl (pending _ waiting)
        · obtain ⟨found', height'⟩ := targets t found
          exact Or.inr ⟨t, operands, found', height'.trans height⟩
    · refine ⟨after, ?_, ?_, ?_, ?_⟩
      · rw [pool, here]
        exact moves
      · rw [maxDepth]
        omega
      · intro _
        simp [noteAt]
      · intro jump
        rcases target jump with waiting | ⟨t, operands, found, height⟩
        · exact Or.inl waiting
        · obtain ⟨found', height'⟩ := targets t found
          exact Or.inr ⟨t, operands, found', height'.trans height⟩
  · refine ⟨?_, ?_⟩
    · rw [depth, maxDepth]
      split
      · simp
      · simp only [Option.getD_some]
        omega
    · intro j mem
      rw [instructions, List.mem_append, List.mem_singleton] at mem
      rcases mem with old | rfl
      · have := sound.bounded.2 j old
        rw [low _ (offset_lt sound old), maxDepth]
        omega
      · have := sound.bounded.1
        rw [here, maxDepth]
        omega
  · intro l p found
    rcases labels l _ found with same | ⟨_, _, impossible, _⟩
    · obtain ⟨small, reach⟩ := sound.placed l p same
      exact ⟨small, (targets p reach).1⟩
    · cases impossible
  · intro l fixups r found
    rcases labels l _ found with same | ⟨fixups₀, r₀, extended, old, agree, jump⟩
    · obtain ⟨bound, each⟩ := sound.fixups l fixups r same
      refine ⟨fun d hd => ?_, fun f mem => ?_⟩
      · have := bound d hd
        rw [maxDepth]
        omega
      · obtain ⟨j, memJ, jumpJ, atJ, d, hr, movesJ⟩ := each f mem
        refine ⟨j, by rw [instructions]; exact List.mem_append_left _ memJ, jumpJ, atJ, d, hr, ?_⟩
        rw [pool, low _ (offset_lt sound memJ)]
        exact movesJ
    · obtain ⟨rfl, rfl⟩ := LabelState.unplaced.inj extended
      obtain ⟨_, each⟩ := sound.fixups l fixups₀ r₀ old
      refine ⟨fun d hd => ?_, fun f mem => ?_⟩
      · rw [Option.some.injEq] at hd
        rw [maxDepth, ← hd]
        omega
      · rw [Array.toList_push, List.mem_append, List.mem_singleton] at mem
        rcases mem with earlier | rfl
        · obtain ⟨j, memJ, jumpJ, atJ, d, hr, movesJ⟩ := each f earlier
          refine ⟨j, by rw [instructions]; exact List.mem_append_left _ memJ, jumpJ, atJ, d, ?_, ?_⟩
          · rw [agree d hr]
          · rw [pool, low _ (offset_lt sound memJ)]
            exact movesJ
        · refine ⟨i, by simp [instructions], jump, rfl, after, rfl, ?_⟩
          rw [pool, here]
          exact moves
  · intro r mem
    rcases breaks r mem with old | ⟨operand, loop, isJump, zero⟩
    · obtain ⟨loop, j, memJ, op, atJ, height⟩ := sound.breaks r old
      refine ⟨by rw [frames]; exact loop, j, by rw [instructions]; exact List.mem_append_left _ memJ, op, atJ, ?_⟩
      rw [low _ (offset_lt sound memJ)]
      exact height
    · refine ⟨by rw [frames]; exact loop, i, by simp [instructions], isJump, operand.symm, ?_⟩
      rw [here]
      exact zero
  · intro fr mem
    rw [frames] at mem
    obtain ⟨fresh, p, placedP, height⟩ := sound.frames fr mem
    obtain ⟨_, reach⟩ := sound.placed _ p placedP
    exact ⟨nextIdentifier ▸ fresh, p, keepsPlaced _ p placedP, (targets p reach).2.trans height⟩
  · intro row mem
    rw [handlers] at mem
    obtain ⟨⟨j, memJ, atJ⟩, height⟩ := sound.handlers row mem
    refine ⟨⟨j, by rw [instructions]; exact List.mem_append_left _ memJ, atJ⟩, ?_⟩
    rw [low _ (atJ ▸ offset_lt sound memJ)]
    exact height

/-- Patching jumps keeps the pool index each instruction takes. -/
theorem refers_map_patch (sound : Sound init s h) {offsets : List Nat} {v : Nat}
    (patched : ∀ k ∈ s.code.instructions, k.offset + 1 ∈ offsets → k.opcode.isJump = true) :
    ∀ j ∈ s.code.instructions.map (Instruction.patch offsets v), j.Refers s.pool.entries := by
  intro j mem
  obtain ⟨k, memK, rfl⟩ := List.mem_map.mp mem
  rw [Instruction.refers_patch _ _ (patched k memK)]
  exact sound.refers k memK

theorem moves_unique {entries : Array Constant} {i : Instruction} (plain : i.opcode.isInvoke = false)
    {before a a' : Nat} (first : i.Moves entries before a) (second : i.Moves entries before a') : a = a' := by
  unfold Instruction.Moves at first second
  rw [stackEffect_of_plain plain] at first second
  omega

theorem not_invoke_of_jump {op : Opcode} (jump : op.isJump = true) : op.isInvoke = false := by
  cases op <;> simp_all [Opcode.isJump, Opcode.isInvoke]

/-- The instruction whose operand lies at a waiting offset is the jump that waits there. -/
theorem jump_at (sound : Sound init s h) {j k : Instruction} (mem : j ∈ s.code.instructions)
    (memK : k ∈ s.code.instructions) (same : k.offset + 1 = j.offset + 1) : k = j :=
  Laid.unique sound.encoded.2.1 memK mem (by omega)

/-- Placing a label where the code ends: its waiting jumps are patched to go there, and unreachable
code becomes reachable with the depth the label recorded. -/
theorem Sound.place (sound : Sound init s h) (s' : Lowering) {l : Nat} {fixups : Array Nat} {r : Option Nat}
    (unplaced : s.code.labels[l]? = some (.unplaced fixups r))
    (agrees : ∀ c d, s.code.depth = some c → r = some d → c = d)
    (short : s.code.code.size ≤ maxWord)
    (code : s'.code = (({ s.code with labels := s.code.labels.set! l (.placed s.code.code.size) }).overwriteAll
      s.code.code.size fixups.toList).reached r)
    (pool : s'.pool = s.pool) (loops : s'.loops = s.loops) (diagnostics : s'.diagnostics = s.diagnostics) :
    ∃ h', Sound init s' h' ∧ Grows s h s' h' ∧
      s'.code.instructions = s.code.instructions.map (Instruction.patch fixups.toList s.code.code.size) := by
  obtain ⟨bound, waiting⟩ := sound.fixups l fixups r unplaced
  have jumps : ∀ f ∈ fixups.toList, ∃ j ∈ s.code.instructions, j.opcode.isJump = true ∧ j.offset + 1 = f := by
    intro f mem
    obtain ⟨j, memJ, jump, at_, _⟩ := waiting f mem
    exact ⟨j, memJ, jump, at_⟩
  let marked : CodeBuilder := { s.code with labels := s.code.labels.set! l (.placed s.code.code.size) }
  obtain ⟨encodedP, instructionsP⟩ := encoded_overwriteAll (b := marked)
    sound.live sound.encoded s.code.code.size (by simp only [maxWord] at short; omega) fixups.toList jumps
  have shape := code.trans (by rw [reached_eq, overwriteAll_eq])
  have channels : s'.code.channels = (marked.overwriteAll s.code.code.size fixups.toList).channels := by
    rw [shape]
  have channel : s'.code.channel = (marked.overwriteAll s.code.code.size fixups.toList).channel := by
    rw [shape, overwriteAll_channel]
  have instructions : s'.code.instructions = s.code.instructions.map (Instruction.patch fixups.toList s.code.code.size) :=
    (instructions_congr channels channel).trans instructionsP
  have size : s'.code.code.size = s.code.code.size := by
    rw [code_congr channels channel, code_size_overwriteAll (b := marked) sound.live]
    rfl
  have labels : s'.code.labels = s.code.labels.set! l (.placed s.code.code.size) := by rw [shape]
  have depth : s'.code.depth = if s.code.depth.isNone then some (r.getD 0) else s.code.depth := by rw [shape]
  have maxDepth : s'.code.maxDepth = s.code.maxDepth := by rw [shape]
  have handlers : s'.code.handlers = s.code.handlers := by rw [shape]
  have previousActive : s'.code.previousActive = s.code.previousActive := by rw [shape]
  have others : ∀ c, c ≠ s.code.channel → s'.code.channels.slots[c]? = s.code.channels.slots[c]? := by
    intro c other
    rw [channels, overwriteAll_slots_ne marked _ _ other]
  have reached : s'.code.depth.isSome = true := by
    cases hd : s.code.depth <;> simp [depth, hd]
  have sameChannel : s'.code.channel = s.code.channel := by rw [shape]
  have patchedAfter : ∀ j ∈ s.code.instructions, j.offset + 1 ∈ fixups.toList →
      j.opcode.isJump = true ∧ ∃ d, r = some d ∧ j.Moves s.pool.entries (h j.offset) d := by
    intro j mem hit
    obtain ⟨k, memK, jump, at_, d, hr, movesK⟩ := waiting _ hit
    have same := jump_at sound mem memK at_
    subst same
    exact ⟨jump, d, hr, movesK⟩
  let h' := if s.code.depth.isNone then noteAt h s.code.code.size (r.getD 0) else h
  have low : ∀ o, o < s.code.code.size → h' o = h o := by
    intro o below
    simp only [h']
    split
    · exact noteAt_ne _ _ (by omega)
    · rfl
  have heights : ∀ o, o < s.code.code.size ∨ (o = s.code.code.size ∧ s.code.depth.isSome = true) → h' o = h o := by
    rintro o (below | ⟨rfl, reached⟩)
    · exact low o below
    · cases hd : s.code.depth with
      | none => simp [hd] at reached
      | some d => simp [h', hd]
  have current' : ∀ d, s'.code.depth = some d → h' s'.code.code.size = d := by
    intro d hd
    rw [size]
    rw [depth] at hd
    simp only [h']
    split
    · rename_i unreached
      rw [if_pos unreached, Option.some.injEq] at hd
      rw [noteAt_self, hd]
    · rename_i reachedBefore
      rw [if_neg reachedBefore] at hd
      exact sound.current d hd
  have targets : ∀ t, s.code.Target t → s'.code.Target t ∧ h' t = h t := by
    intro t found
    refine ⟨?_, heights t (Target.lt_or_end sound found)⟩
    rcases found with starts | ⟨rfl, _⟩
    · exact Or.inl (by rw [instructions, starts_map_patch]; exact starts)
    · exact Or.inr ⟨size.symm, reached⟩
  have pendingKept : ∀ p ∈ s.pending, p ∉ fixups.toList → p ∈ s'.pending := by
    intro p waits outside
    rcases mem_pending.mp waits with ⟨l₂, fixups₂, r₂, found, mem⟩ | ⟨rec, mem, at_⟩
    · have other : l₂ ≠ l := by
        rintro rfl
        rw [unplaced, Option.some.injEq, LabelState.unplaced.injEq] at found
        exact outside (found.1 ▸ mem)
      refine mem_pending.mpr (Or.inl ⟨l₂, fixups₂, r₂, ?_, mem⟩)
      rw [labels, Array.set!_eq_setIfInBounds, Array.getElem?_setIfInBounds, if_neg (Ne.symm other)]
      exact found
    · exact mem_pending.mpr (Or.inr ⟨rec, by rw [loops]; exact mem, at_⟩)
  have pendingBack : ∀ p ∈ s'.pending, p ∈ s.pending := by
    intro p waits
    rcases mem_pending.mp waits with ⟨l₂, fixups₂, r₂, found, mem⟩ | ⟨rec, mem, at_⟩
    · refine mem_pending.mpr (Or.inl ⟨l₂, fixups₂, r₂, ?_, mem⟩)
      rw [labels, Array.set!_eq_setIfInBounds, Array.getElem?_setIfInBounds] at found
      split at found
      · split at found <;> simp at found
      · exact found
    · exact mem_pending.mpr (Or.inr ⟨rec, by rw [← loops]; exact mem, at_⟩)
  refine ⟨h', {
      live := (live_congr channels channel).mpr (live_overwriteAll (b := marked) sound.live _ _)
      encoded := (encoded_congr channels channel).mpr encodedP
      previous := ?_
      returns := ?_
      ends := fun unreached => by simp [unreached] at reached
      current := current'
      moves := ?_
      bounded := ?_
      placed := ?_
      fixups := ?_
      breaks := ?_
      frames := ?_
      ordered := by rw [loops]; exact sound.ordered
      handlers := ?_
      ranges := fun row mem => CodeBuilder.Covers.extend (sound.ranges row (by rw [← handlers]; exact mem)) (Nat.le_of_eq size.symm)
        (fun o starts => by rw [instructions, starts_map_patch]; exact starts)
        (fun grew => absurd grew (by rw [size]; exact Nat.lt_irrefl _))
      nested := by rw [handlers]; exact sound.nested
      refers := by
        rw [instructions, pool]
        exact refers_map_patch sound fun k memK hit => (patchedAfter k memK hit).1
      catches := by rw [handlers, pool]; exact sound.catches
      pool := by rw [pool]; exact sound.pool }, {
      size := Nat.le_of_eq (by rw [size])
      persists := fun j mem => ⟨j.patch fixups.toList s.code.code.size,
        by rw [instructions]; exact List.mem_map_of_mem mem, by simp, by simp⟩
      appended := fun grew => by rw [size] at grew; exact absurd grew (Nat.lt_irrefl _)
      heights := heights
      reachable := fun _ _ => reached
      labels := by rw [labels]; simp
      placed := ?_
      pool := pool ▸ List.prefix_refl _
      diagnostics := diagnostics ▸ List.prefix_refl _
      channel := sameChannel
      previousActive := previousActive
      others := others
      kept := fun j mem _ waits => by
        have unpatched : j.patch fixups.toList s.code.code.size = j := by
          unfold Instruction.patch
          rw [if_neg fun hit => waits (mem_pending.mpr (Or.inl ⟨l, fixups, r, unplaced, hit⟩))]
        rw [instructions, ← unpatched]
        exact List.mem_map_of_mem mem
      fresh := fun p mem => Or.inl (pendingBack p mem)
      loops := by rw [loops]; exact .refl _ }, instructions⟩
  · intro p previous other
    rw [previousActive] at previous
    rw [sameChannel] at other
    obtain ⟨bytes, slot⟩ := sound.previous p previous other
    exact ⟨bytes, by rw [others p other, slot]⟩
  · intro j mem
    rw [instructions] at mem
    obtain ⟨k, memK, rfl⟩ := List.mem_map.mp mem
    simpa using sound.returns k memK
  · intro j mem
    rw [instructions] at mem
    obtain ⟨k, memK, rfl⟩ := List.mem_map.mp mem
    obtain ⟨afterK, movesK, boundK, fallsK, jumpK⟩ := sound.moves k memK
    have start := offset_lt sound memK
    refine ⟨afterK, ?_, by rw [maxDepth]; exact boundK, ?_, ?_⟩
    · rw [pool, Instruction.patch_offset, low _ start,
        Instruction.moves_patch _ _ (fun hit => (patchedAfter k memK hit).1)]
      exact movesK
    · intro falls
      simp only [Instruction.patch_offset, Instruction.patch_opcode] at falls ⊢
      rw [heights _ ?_]
      · exact fallsK falls
      rcases Nat.lt_or_eq_of_le (end_le sound k memK) with lt | eq
      · exact Or.inl lt
      · exact Or.inr ⟨eq, reached_of_falls sound memK falls eq⟩
    · intro jump
      rw [Instruction.patch_opcode] at jump
      rw [Instruction.patch_offset]
      by_cases hit : k.offset + 1 ∈ fixups.toList
      · obtain ⟨_, d, hr, movesD⟩ := patchedAfter k memK hit
        have same := moves_unique (not_invoke_of_jump jump) movesK movesD
        refine Or.inr ⟨s.code.code.size, by simp [Instruction.patch, hit, Instruction.retarget],
          Or.inr ⟨size.symm, reached⟩, ?_⟩
        rw [same]
        cases hd : s.code.depth with
        | none => simp [h', hd, hr]
        | some c =>
          have agree := agrees c d hd hr
          simp only [h', hd, Option.isNone_some, Bool.false_eq_true, if_false]
          rw [sound.current c hd, agree]
      · rcases jumpK jump with waits | ⟨t, operands, found, height⟩
        · exact Or.inl (pendingKept _ waits hit)
        · obtain ⟨found', height'⟩ := targets t found
          exact Or.inr ⟨t, by simp [Instruction.patch, hit, operands], found', height'.trans height⟩
  · refine ⟨?_, ?_⟩
    · rw [depth, maxDepth]
      split
      · rename_i unreached
        cases r with
        | none => simp
        | some d => exact bound d rfl
      · exact sound.bounded.1
    · intro j mem
      rw [instructions] at mem
      obtain ⟨k, memK, rfl⟩ := List.mem_map.mp mem
      rw [Instruction.patch_offset, low _ (offset_lt sound memK), maxDepth]
      exact sound.bounded.2 k memK
  · intro l₂ p found
    rw [labels, Array.set!_eq_setIfInBounds, Array.getElem?_setIfInBounds] at found
    split at found
    · split at found
      · rw [Option.some.injEq, LabelState.placed.injEq] at found
        subst found
        exact ⟨short, Or.inr ⟨size.symm, reached⟩⟩
      · cases found
    · obtain ⟨small, reach⟩ := sound.placed l₂ p found
      exact ⟨small, (targets p reach).1⟩
  · intro l₂ fixups₂ r₂ found
    rw [labels, Array.set!_eq_setIfInBounds, Array.getElem?_setIfInBounds] at found
    split at found
    · split at found <;> cases found
    · obtain ⟨bound₂, waiting₂⟩ := sound.fixups l₂ fixups₂ r₂ found
      refine ⟨by rw [maxDepth]; exact bound₂, fun f mem => ?_⟩
      obtain ⟨k, memK, jump, at_, d, hr, movesK⟩ := waiting₂ f mem
      refine ⟨k.patch fixups.toList s.code.code.size, by rw [instructions]; exact List.mem_map_of_mem memK,
        by simpa using jump, by simpa using at_, d, hr, ?_⟩
      rw [pool, Instruction.patch_offset, low _ (offset_lt sound memK),
        Instruction.moves_patch _ _ (fun hit => (patchedAfter k memK hit).1)]
      exact movesK
  · intro rec mem
    rw [loops] at mem
    obtain ⟨loop, k, memK, op, at_, height⟩ := sound.breaks rec mem
    refine ⟨by rw [loops]; exact loop, k.patch fixups.toList s.code.code.size,
      by rw [instructions]; exact List.mem_map_of_mem memK, by simpa using op, by simpa using at_, ?_⟩
    rw [Instruction.patch_offset, low _ (offset_lt sound memK)]
    exact height
  · intro fr mem
    rw [loops] at mem
    obtain ⟨fresh, p, placedP, height⟩ := sound.frames fr mem
    obtain ⟨_, reach⟩ := sound.placed _ p placedP
    have other : fr.continueLabel ≠ l := by
      rintro same
      rw [same, unplaced] at placedP
      cases placedP
    refine ⟨by rw [loops]; exact fresh, p, ?_, (targets p reach).2.trans height⟩
    rw [labels, Array.set!_eq_setIfInBounds, Array.getElem?_setIfInBounds, if_neg (Ne.symm other)]
    exact placedP
  · intro row mem
    rw [handlers] at mem
    obtain ⟨⟨k, memK, at_⟩, height⟩ := sound.handlers row mem
    refine ⟨by rw [instructions, starts_map_patch]; exact ⟨k, memK, at_⟩, ?_⟩
    rw [low _ (at_ ▸ offset_lt sound memK)]
    exact height
  · intro l₂ p found
    have other : l₂ ≠ l := by
      rintro rfl
      rw [unplaced] at found
      cases found
    rw [labels, Array.set!_eq_setIfInBounds, Array.getElem?_setIfInBounds, if_neg (Ne.symm other)]
    exact found

/-- Leaving the innermost loop where the code ends, reachable with an empty stack: the `break`s
recorded against it are patched to go there, and its frame and its records are dropped. -/
theorem Sound.resolve (sound : Sound init s h) (s' : Lowering) {frame : LoopFrame}
    (innermost : s.loops.frames.getLast? = some frame) (empty : s.code.depth = some 0)
    (short : s.code.code.size ≤ maxWord) {offsets : List Nat}
    (exits : ∀ p, p ∈ offsets ↔ ∃ r ∈ s.loops.breaks, r.loop = frame.identifier ∧ r.operand = p)
    (code : s'.code = s.code.overwriteAll s.code.code.size offsets)
    (pool : s'.pool = s.pool) (diagnostics : s'.diagnostics = s.diagnostics)
    (frames : s'.loops.frames = s.loops.frames.dropLast)
    (nextIdentifier : s'.loops.nextIdentifier = s.loops.nextIdentifier)
    (breaks : s'.loops.breaks = s.loops.breaks.filter (·.loop != frame.identifier)) :
    Sound init s' h ∧ Grows s h s' h ∧
      s'.code.instructions = s.code.instructions.map (Instruction.patch offsets s.code.code.size) := by
  -- the patched jumps are the `break`s of the loop, which leave an empty stack
  have exitJump : ∀ f ∈ offsets, ∃ j ∈ s.code.instructions, j.opcode = .jump ∧ j.offset + 1 = f ∧
      h j.offset = 0 := by
    intro f mem
    obtain ⟨r, memR, _, rfl⟩ := (exits f).mp mem
    obtain ⟨_, j, memJ, op, at_, height⟩ := sound.breaks r memR
    exact ⟨j, memJ, op, at_, height⟩
  have jumps : ∀ f ∈ offsets, ∃ j ∈ s.code.instructions, j.opcode.isJump = true ∧ j.offset + 1 = f := by
    intro f mem
    obtain ⟨j, memJ, op, at_, _⟩ := exitJump f mem
    exact ⟨j, memJ, by rw [op]; rfl, at_⟩
  obtain ⟨encodedP, instructionsP⟩ := encoded_overwriteAll sound.live sound.encoded s.code.code.size
    (by simp only [maxWord] at short; omega) offsets jumps
  have shape := code.trans (overwriteAll_eq _ _ _)
  have channels : s'.code.channels = (s.code.overwriteAll s.code.code.size offsets).channels := by
    rw [code]
  have channel : s'.code.channel = s.code.channel := by rw [shape]
  have instructions : s'.code.instructions = s.code.instructions.map (Instruction.patch offsets s.code.code.size) :=
    (instructions_congr channels (by rw [channel, overwriteAll_channel])).trans instructionsP
  have size : s'.code.code.size = s.code.code.size := by
    rw [code_congr channels (by rw [channel, overwriteAll_channel]), code_size_overwriteAll sound.live]
  have labels : s'.code.labels = s.code.labels := by rw [shape]
  have depth : s'.code.depth = s.code.depth := by rw [shape]
  have maxDepth : s'.code.maxDepth = s.code.maxDepth := by rw [shape]
  have handlers : s'.code.handlers = s.code.handlers := by rw [shape]
  have previousActive : s'.code.previousActive = s.code.previousActive := by rw [shape]
  have others : ∀ c, c ≠ s.code.channel → s'.code.channels.slots[c]? = s.code.channels.slots[c]? := by
    intro c other
    rw [channels, overwriteAll_slots_ne _ _ _ other]
  have here : h s.code.code.size = 0 := sound.current 0 empty
  obtain ⟨outer, split⟩ := List.getLast?_eq_some_iff.mp innermost
  have targets : ∀ t, s.code.Target t → s'.code.Target t := by
    intro t found
    rcases found with starts | ⟨rfl, reached⟩
    · exact Or.inl (by rw [instructions, starts_map_patch]; exact starts)
    · exact Or.inr ⟨size.symm, by rw [depth]; exact reached⟩
  have pendingKept : ∀ p ∈ s.pending, p ∉ offsets → p ∈ s'.pending := by
    intro p waits outside
    rcases mem_pending.mp waits with ⟨l, fixups, r, found, mem⟩ | ⟨rec, mem, at_⟩
    · exact mem_pending.mpr (Or.inl ⟨l, fixups, r, by rw [labels]; exact found, mem⟩)
    · have other : rec.loop ≠ frame.identifier := fun same => outside ((exits p).mpr ⟨rec, mem, same, at_⟩)
      refine mem_pending.mpr (Or.inr ⟨rec, ?_, at_⟩)
      rw [breaks, List.mem_filter]
      exact ⟨mem, by simpa using other⟩
  have patchedJump : ∀ k ∈ s.code.instructions, k.offset + 1 ∈ offsets → k.opcode.isJump = true := by
    intro k memK hit
    obtain ⟨j, memJ, jump, at_⟩ := jumps _ hit
    rw [← jump_at sound memK memJ at_]
    exact jump
  refine ⟨{
      live := (live_congr channels (by rw [channel, overwriteAll_channel])).mpr (live_overwriteAll sound.live _ _)
      encoded := (encoded_congr channels (by rw [channel, overwriteAll_channel])).mpr encodedP
      previous := ?_
      returns := ?_
      ends := ?_
      current := fun d hd => by rw [size]; exact sound.current d (depth ▸ hd)
      moves := ?_
      bounded := ?_
      placed := ?_
      fixups := ?_
      breaks := ?_
      frames := ?_
      ordered := by
        rw [frames, split, List.dropLast_concat]
        exact (List.pairwise_append.mp (split ▸ sound.ordered)).1
      handlers := ?_
      ranges := fun row mem => CodeBuilder.Covers.extend (sound.ranges row (by rw [← handlers]; exact mem)) (Nat.le_of_eq size.symm)
        (fun o starts => by rw [instructions, starts_map_patch]; exact starts)
        (fun grew => absurd grew (by rw [size]; exact Nat.lt_irrefl _))
      nested := by rw [handlers]; exact sound.nested
      refers := by
        rw [instructions, pool]
        exact refers_map_patch sound patchedJump
      catches := by rw [handlers, pool]; exact sound.catches
      pool := by rw [pool]; exact sound.pool }, {
      size := Nat.le_of_eq (by rw [size])
      persists := fun j mem => ⟨j.patch offsets s.code.code.size,
        by rw [instructions]; exact List.mem_map_of_mem mem, by simp, by simp⟩
      appended := fun grew => by rw [size] at grew; exact absurd grew (Nat.lt_irrefl _)
      heights := fun _ _ => rfl
      reachable := fun _ reached => by rw [depth]; exact reached
      labels := Nat.le_of_eq (by rw [labels])
      placed := fun l p found => by rw [labels]; exact found
      pool := pool ▸ List.prefix_refl _
      diagnostics := diagnostics ▸ List.prefix_refl _
      channel := channel
      previousActive := previousActive
      others := others
      kept := fun j mem _ waits => by
        have unpatched : j.patch offsets s.code.code.size = j := by
          unfold Instruction.patch
          rw [if_neg fun hit => waits (by
            obtain ⟨rec, memR, -, at_⟩ := (exits _).mp hit
            exact mem_pending.mpr (Or.inr ⟨rec, memR, at_⟩))]
        rw [instructions, ← unpatched]
        exact List.mem_map_of_mem mem
      fresh := fun p mem => by
        rcases mem_pending.mp mem with ⟨l, fixups, r, found, waits⟩ | ⟨rec, memR, at_⟩
        · exact Or.inl (mem_pending.mpr (Or.inl ⟨l, fixups, r, labels ▸ found, waits⟩))
        · rw [breaks, List.mem_filter] at memR
          exact Or.inl (mem_pending.mpr (Or.inr ⟨rec, memR.1, at_⟩))
      loops := {
        counter := Nat.le_of_eq nextIdentifier.symm
        entered := fun fr mem => by
          rw [frames] at mem
          exact Or.inl (List.dropLast_subset _ mem)
        records := fun rec mem => by
          by_cases mine : rec.loop = frame.identifier
          · refine Or.inr ⟨fun reopened => ?_, by rw [nextIdentifier, mine]; exact (sound.frames frame
              (by rw [split]; exact List.mem_append_right _ (List.mem_singleton_self _))).1⟩
            rw [frames, split, List.dropLast_concat] at reopened
            obtain ⟨fr, memF, same⟩ := List.mem_map.mp reopened
            have := (List.pairwise_append.mp (split ▸ sound.ordered)).2.2 fr memF frame (List.mem_singleton_self _)
            omega
          · exact Or.inl (by rw [breaks, List.mem_filter]; exact ⟨mem, by simpa using mine⟩) } }, instructions⟩
  · intro p previous other
    rw [previousActive] at previous
    rw [channel] at other
    obtain ⟨bytes, slot⟩ := sound.previous p previous other
    exact ⟨bytes, by rw [others p other, slot]⟩
  · intro j mem
    rw [instructions] at mem
    obtain ⟨k, memK, rfl⟩ := List.mem_map.mp mem
    simpa using sound.returns k memK
  · intro unreached
    rw [depth, empty] at unreached
    cases unreached
  · intro j mem
    rw [instructions] at mem
    obtain ⟨k, memK, rfl⟩ := List.mem_map.mp mem
    obtain ⟨afterK, movesK, boundK, fallsK, jumpK⟩ := sound.moves k memK
    refine ⟨afterK, ?_, by rw [maxDepth]; exact boundK, ?_, ?_⟩
    · rw [pool, Instruction.patch_offset, Instruction.moves_patch _ _ (patchedJump k memK)]
      exact movesK
    · simp only [Instruction.patch_offset, Instruction.patch_opcode]
      exact fallsK
    · intro jump
      simp only [Instruction.patch_opcode] at jump
      rw [Instruction.patch_offset]
      by_cases hit : k.offset + 1 ∈ offsets
      · obtain ⟨j, memJ, op, at_, height⟩ := exitJump _ hit
        have same := jump_at sound memK memJ at_
        subst same
        have leaves : afterK = 0 := by
          unfold Instruction.Moves at movesK
          rw [op] at movesK
          simp only [Opcode.stackEffect] at movesK
          omega
        refine Or.inr ⟨s.code.code.size, by simp [Instruction.patch, hit, Instruction.retarget],
          Or.inr ⟨size.symm, by rw [depth, empty]; rfl⟩, by rw [here, leaves]⟩
      · rcases jumpK jump with waits | ⟨t, operands, found, height⟩
        · exact Or.inl (pendingKept _ waits hit)
        · exact Or.inr ⟨t, by simp [Instruction.patch, hit, operands], targets t found, height⟩
  · refine ⟨by rw [depth, maxDepth]; exact sound.bounded.1, fun j mem => ?_⟩
    rw [instructions] at mem
    obtain ⟨k, memK, rfl⟩ := List.mem_map.mp mem
    rw [Instruction.patch_offset, maxDepth]
    exact sound.bounded.2 k memK
  · intro l p found
    rw [labels] at found
    obtain ⟨small, reach⟩ := sound.placed l p found
    exact ⟨small, targets p reach⟩
  · intro l fixups r found
    rw [labels] at found
    obtain ⟨bound, waiting⟩ := sound.fixups l fixups r found
    refine ⟨by rw [maxDepth]; exact bound, fun f mem => ?_⟩
    obtain ⟨k, memK, jump, at_, d, hr, movesK⟩ := waiting f mem
    refine ⟨k.patch offsets s.code.code.size, by rw [instructions]; exact List.mem_map_of_mem memK,
      by simpa using jump, by simpa using at_, d, hr, ?_⟩
    rw [pool, Instruction.patch_offset, Instruction.moves_patch _ _ (patchedJump k memK)]
    exact movesK
  · intro rec mem
    rw [breaks, List.mem_filter] at mem
    obtain ⟨old, other⟩ := mem
    obtain ⟨loop, k, memK, op, at_, height⟩ := sound.breaks rec old
    refine ⟨?_, k.patch offsets s.code.code.size, by rw [instructions]; exact List.mem_map_of_mem memK,
      by simpa using op, by simpa using at_, by simpa using height⟩
    rw [frames, split, List.dropLast_concat]
    rw [split, List.map_append, List.mem_append] at loop
    rcases loop with inner | last
    · exact inner
    · simp only [List.map_cons, List.map_nil, List.mem_singleton] at last
      simp [last] at other
  · intro fr mem
    rw [frames, split, List.dropLast_concat] at mem
    obtain ⟨fresh, p, placedP, height⟩ := sound.frames fr (by rw [split]; exact List.mem_append_left _ mem)
    exact ⟨by rw [nextIdentifier]; exact fresh, p, by rw [labels]; exact placedP, height⟩
  · intro row mem
    rw [handlers] at mem
    obtain ⟨⟨k, memK, at_⟩, height⟩ := sound.handlers row mem
    exact ⟨by rw [instructions, starts_map_patch]; exact ⟨k, memK, at_⟩, height⟩

/-- Steps that change neither the code, nor the pool, nor the loops (diagnostics, private slots)
keep the state sound. -/
theorem Sound.congr (sound : Sound init s h) (code : s'.code = s.code) (pool : s'.pool = s.pool)
    (loops : s'.loops = s.loops) : Sound init s' h := by
  obtain ⟨code₁, pool₁, diagnostics₁, locals₁, loops₁⟩ := s'
  simp only at code pool loops
  subst code pool loops
  exact { sound with }

theorem Grows.congr (code : s'.code = s.code) (pool : s'.pool = s.pool) (loops : s'.loops = s.loops)
    (diagnostics : s.diagnostics.toList <+: s'.diagnostics.toList) : Grows s h s' h := by
  obtain ⟨code₁, pool₁, diagnostics₁, locals₁, loops₁⟩ := s'
  simp only at code pool loops diagnostics
  subst code pool loops
  exact { Grows.refl s h with diagnostics := diagnostics }

/-- Starting a handler where the code is unreachable: the stack holds the caught exception. -/
theorem Sound.enterHandler (sound : Sound init s h) (s' : Lowering) (unreached : s.code.depth = none)
    (code : s'.code = ({ s.code with depth := some 0 }).adjusted 1) (pool : s'.pool = s.pool)
    (loops : s'.loops = s.loops) (diagnostics : s'.diagnostics = s.diagnostics) :
    Sound init s' (noteAt h s.code.code.size 1) ∧ Grows s h s' (noteAt h s.code.code.size 1) := by
  have channels : s'.code.channels = s.code.channels := by rw [code]; rfl
  have channel : s'.code.channel = s.code.channel := by rw [code]; rfl
  have instructions : s'.code.instructions = s.code.instructions := instructions_congr channels channel
  have size : s'.code.code.size = s.code.code.size := by rw [code_congr channels channel]
  have labels : s'.code.labels = s.code.labels := by rw [code]; rfl
  have depth : s'.code.depth = some 1 := by rw [code]; simp [adjusted, depthAfter]
  have maxDepth : s'.code.maxDepth = max s.code.maxDepth 1 := by rw [code]; simp [adjusted, depthAfter]
  have handlers : s'.code.handlers = s.code.handlers := by rw [code]; rfl
  have previousActive : s'.code.previousActive = s.code.previousActive := by rw [code]; rfl
  have low : ∀ o, o < s.code.code.size → noteAt h s.code.code.size 1 o = h o :=
    fun o below => noteAt_ne _ _ (by omega)
  -- an unreachable end is the target of no jump and the place of no label
  have targets : ∀ t, s.code.Target t → Starts s.code.instructions t := by
    intro t found
    rcases found with starts | ⟨_, reached⟩
    · exact starts
    · simp [unreached] at reached
  have pending : s'.pending = s.pending := by simp [Lowering.pending, labels, loops]
  refine ⟨{
      live := (live_congr channels channel).mpr sound.live
      encoded := (encoded_congr channels channel).mpr sound.encoded
      previous := fun p previous other => by
        rw [channels]
        exact sound.previous p (previousActive ▸ previous) (channel ▸ other)
      returns := fun j mem => sound.returns j (instructions ▸ mem)
      ends := fun unreached' => by simp [depth] at unreached'
      current := fun d hd => by
        rw [depth, Option.some.injEq] at hd
        rw [size, noteAt_self, hd]
      moves := ?_
      bounded := ?_
      placed := fun l p found => by
        rw [labels] at found
        obtain ⟨small, reach⟩ := sound.placed l p found
        exact ⟨small, Or.inl (by rw [instructions]; exact targets p reach)⟩
      fixups := ?_
      breaks := ?_
      frames := ?_
      ordered := by rw [loops]; exact sound.ordered
      handlers := ?_
      ranges := fun row mem => CodeBuilder.Covers.extend (sound.ranges row (by rw [← handlers]; exact mem)) (Nat.le_of_eq size.symm)
        (fun o starts => by rw [instructions]; exact starts)
        (fun grew => absurd grew (by rw [size]; exact Nat.lt_irrefl _))
      nested := by rw [handlers]; exact sound.nested
      refers := by rw [instructions, pool]; exact sound.refers
      catches := by rw [handlers, pool]; exact sound.catches
      pool := by rw [pool]; exact sound.pool }, {
      size := Nat.le_of_eq (by rw [size])
      persists := fun j mem => ⟨j, by rw [instructions]; exact mem, rfl, rfl⟩
      appended := fun grew => by rw [size] at grew; exact absurd grew (Nat.lt_irrefl _)
      heights := ?_
      reachable := fun _ reached => by simp [unreached] at reached
      labels := Nat.le_of_eq (by rw [labels])
      placed := fun l p found => by rw [labels]; exact found
      pool := pool ▸ List.prefix_refl _
      diagnostics := diagnostics ▸ List.prefix_refl _
      channel := channel
      previousActive := previousActive
      others := fun c _ => by rw [channels]
      kept := fun j mem _ _ => by rw [instructions]; exact mem
      fresh := fun p mem => Or.inl (pending ▸ mem)
      loops := by rw [loops]; exact .refl _ }⟩
  · intro j mem
    rw [instructions] at mem
    obtain ⟨afterJ, movesJ, boundJ, fallsJ, jumpJ⟩ := sound.moves j mem
    refine ⟨afterJ, by rw [pool, low _ (offset_lt sound mem)]; exact movesJ, ?_, ?_, ?_⟩
    · rw [maxDepth]
      omega
    · intro falls
      rcases Nat.lt_or_eq_of_le (end_le sound j mem) with lt | eq
      · rw [low _ lt]
        exact fallsJ falls
      · have := reached_of_falls sound mem falls eq
        simp [unreached] at this
    · intro jump
      rcases jumpJ jump with waits | ⟨t, operands, found, height⟩
      · exact Or.inl (pending ▸ waits)
      · have starts := targets t found
        obtain ⟨k, memK, rfl⟩ := starts
        exact Or.inr ⟨k.offset, operands, Or.inl (by rw [instructions]; exact ⟨k, memK, rfl⟩),
          by rw [low _ (offset_lt sound memK)]; exact height⟩
  · refine ⟨by rw [depth, maxDepth]; exact Nat.le_max_right _ _, fun j mem => ?_⟩
    rw [instructions] at mem
    rw [low _ (offset_lt sound mem), maxDepth]
    have := sound.bounded.2 j mem
    omega
  · intro l fixups r found
    rw [labels] at found
    obtain ⟨bound, waiting⟩ := sound.fixups l fixups r found
    refine ⟨fun d hd => by have := bound d hd; rw [maxDepth]; omega, fun f mem => ?_⟩
    obtain ⟨k, memK, jump, at_, d, hr, movesK⟩ := waiting f mem
    exact ⟨k, by rw [instructions]; exact memK, jump, at_, d, hr,
      by rw [pool, low _ (offset_lt sound memK)]; exact movesK⟩
  · intro rec mem
    rw [loops] at mem
    obtain ⟨loop, k, memK, op, at_, height⟩ := sound.breaks rec mem
    exact ⟨by rw [loops]; exact loop, k, by rw [instructions]; exact memK, op, at_,
      by rw [low _ (offset_lt sound memK)]; exact height⟩
  · intro fr mem
    rw [loops] at mem
    obtain ⟨fresh, p, placedP, height⟩ := sound.frames fr mem
    obtain ⟨k, memK, rfl⟩ := targets p (sound.placed _ p placedP).2
    exact ⟨by rw [loops]; exact fresh, k.offset, by rw [labels]; exact placedP,
      by rw [low _ (offset_lt sound memK)]; exact height⟩
  · intro row mem
    rw [handlers] at mem
    obtain ⟨⟨k, memK, at_⟩, height⟩ := sound.handlers row mem
    exact ⟨⟨k, by rw [instructions]; exact memK, at_⟩, by rw [low _ (at_ ▸ offset_lt sound memK)]; exact height⟩
  · rintro o (below | ⟨_, reached⟩)
    · exact low o below
    · simp [unreached] at reached

/-- A row of the exception table over a range of whole instructions that every row before it
lies inside or apart from, whose handler starts at an instruction noted at height one. -/
theorem Sound.addHandler (sound : Sound init s h) (s' : Lowering) (row : HandlerSite)
    (covers : s.code.Covers row.start row.stop) (apart : ∀ r ∈ s.code.handlers.toList, r.Within row.start row.stop)
    (starts : Starts s.code.instructions row.handler) (height : h row.handler = 1)
    (catches : ∀ c, row.catchClass = some c → Names s.pool.entries c Constant.isClassRef)
    (code : s'.code = { s.code with handlers := s.code.handlers.push row }) (pool : s'.pool = s.pool)
    (loops : s'.loops = s.loops) (diagnostics : s'.diagnostics = s.diagnostics) :
    Sound init s' h ∧ Grows s h s' h := by
  obtain ⟨code₁, pool₁, diagnostics₁, locals₁, loops₁⟩ := s'
  simp only at code pool loops diagnostics
  subst code pool loops diagnostics
  refine ⟨{ sound with
      handlers := fun r mem => ?_
      ranges := fun r mem => ?_
      nested := ?_
      catches := fun r mem => ?_ }, ?_⟩
  · simp only [Array.toList_push, List.mem_append, List.mem_singleton] at mem
    rcases mem with old | rfl
    · exact sound.handlers r old
    · exact ⟨starts, height⟩
  · simp only [Array.toList_push, List.mem_append, List.mem_singleton] at mem
    rcases mem with old | rfl
    · exact sound.ranges r old
    · exact covers
  · rw [Array.toList_push]
    exact List.pairwise_append.mpr ⟨sound.nested, List.pairwise_singleton _ _,
      fun r mem _ last => (List.mem_singleton.mp last) ▸ apart r mem⟩
  · simp only [Array.toList_push, List.mem_append, List.mem_singleton] at mem
    rcases mem with old | rfl
    · exact sound.catches r old
    · exact catches
  · exact { Grows.refl s h with }

/-- A new label, not yet placed, that no jump waits for. -/
theorem Sound.freshLabel (sound : Sound init s h) (s' : Lowering)
    (code : s'.code = { s.code with labels := s.code.labels.push (.unplaced #[] none) })
    (pool : s'.pool = s.pool) (loops : s'.loops = s.loops) (diagnostics : s'.diagnostics = s.diagnostics) :
    Sound init s' h ∧ Grows s h s' h := by
  obtain ⟨code₁, pool₁, diagnostics₁, locals₁, loops₁⟩ := s'
  simp only at code pool loops diagnostics
  subst code pool loops diagnostics
  have pending : pending ⟨{ s.code with labels := s.code.labels.push (.unplaced #[] none) }, s.pool,
      s.diagnostics, locals₁, s.loops⟩ = s.pending := by
    simp [Lowering.pending, LabelState.waiting]
  have old : ∀ (l : Nat) (st : LabelState), (s.code.labels.push (.unplaced #[] none))[l]? = some st →
      s.code.labels[l]? = some st ∨ st = .unplaced #[] none := by
    intro l st found
    rw [Array.getElem?_push] at found
    split at found
    · exact Or.inr (Option.some.inj found).symm
    · exact Or.inl found
  refine ⟨{ sound with
      moves := fun j mem => ?_
      placed := fun l p found => ?_
      fixups := fun l fixups r found => ?_
      frames := fun fr mem => ?_ }, ?_⟩
  · rw [pending]
    exact sound.moves j mem
  · rcases old l _ found with same | impossible
    · exact sound.placed l p same
    · cases impossible
  · rcases old l _ found with same | fresh
    · exact sound.fixups l fixups r same
    · obtain ⟨rfl, rfl⟩ := LabelState.unplaced.inj fresh
      exact ⟨fun d hd => (by cases hd), fun f mem => (by simp at mem)⟩
  · obtain ⟨fresh, p, placedP, height⟩ := sound.frames fr mem
    refine ⟨fresh, p, ?_, height⟩
    simp only [Array.getElem?_push]
    have below : fr.continueLabel < s.code.labels.size := (Array.getElem?_eq_some_iff.mp placedP).1
    rw [if_neg (by omega)]
    exact placedP
  · exact { Grows.refl s h with
      labels := by simp
      fresh := fun p mem => Or.inl (pending ▸ mem)
      placed := fun l p found => by
        simp only [Array.getElem?_push]
        have below : l < s.code.labels.size := (Array.getElem?_eq_some_iff.mp found).1
        rw [if_neg (by omega)]
        exact found }

/-- Interning constants only appends to a consistent pool. -/
theorem Sound.grow (sound : Sound init s h) (s' : Lowering) (code : s'.code = s.code) (loops : s'.loops = s.loops)
    (consistent : s'.pool.Consistent) (grown : s.pool.entries.toList <+: s'.pool.entries.toList)
    (diagnostics : s'.diagnostics = s.diagnostics) :
    Sound init s' h ∧ Grows s h s' h := by
  obtain ⟨code₁, pool₁, diagnostics₁, locals₁, loops₁⟩ := s'
  simp only at code loops diagnostics grown consistent
  subst code loops diagnostics
  refine ⟨{ sound with
      moves := fun j mem => ?_
      fixups := fun l fixups r found => ?_
      refers := fun j mem => (sound.refers j mem).mono grown
      catches := fun r mem c caught => (sound.catches r mem c caught).mono grown
      pool := consistent }, ?_⟩
  · obtain ⟨afterJ, movesJ, rest⟩ := sound.moves j mem
    exact ⟨afterJ, movesJ.mono grown, rest⟩
  · obtain ⟨bound, waiting⟩ := sound.fixups l fixups r found
    refine ⟨bound, fun f mem => ?_⟩
    obtain ⟨k, memK, jump, at_, d, hr, movesK⟩ := waiting f mem
    exact ⟨k, memK, jump, at_, d, hr, movesK.mono grown⟩
  · exact { Grows.refl s h with pool := grown }

/-- Entering a loop whose `continue` label is placed where the stack is empty. -/
theorem Sound.enterLoop (sound : Sound init s h) (s' : Lowering) (label : Option String) {continueLabel p : Nat}
    (placed : s.code.labels[continueLabel]? = some (.placed p)) (empty : h p = 0)
    (code : s'.code = s.code) (pool : s'.pool = s.pool)
    (loops : s'.loops = (s.loops.push label continueLabel).2) (diagnostics : s'.diagnostics = s.diagnostics) :
    Sound init s' h ∧ Grows s h s' h := by
  obtain ⟨code₁, pool₁, diagnostics₁, locals₁, loops₁⟩ := s'
  simp only at code pool loops diagnostics
  subst code pool loops diagnostics
  have pending : pending ⟨s.code, s.pool, s.diagnostics, locals₁, (s.loops.push label continueLabel).2⟩ =
      s.pending := rfl
  refine ⟨{ sound with
      moves := fun j mem => ?_
      breaks := fun r mem => ?_
      frames := fun fr mem => ?_
      ordered := ?_ }, ?_⟩
  · rw [pending]
    exact sound.moves j mem
  · obtain ⟨loop, rest⟩ := sound.breaks r mem
    refine ⟨?_, rest⟩
    simp only [LoopStack.push, List.map_append, List.mem_append]
    exact Or.inl loop
  · simp only [LoopStack.push, List.mem_append, List.mem_singleton] at mem
    rcases mem with old | rfl
    · obtain ⟨fresh, rest⟩ := sound.frames fr old
      exact ⟨by show fr.identifier < s.loops.nextIdentifier + 1; omega, rest⟩
    · exact ⟨by simp [LoopStack.push], p, placed, empty⟩
  · refine List.pairwise_append.mpr ⟨sound.ordered, List.pairwise_singleton _ _, fun fr mem _ last => ?_⟩
    rw [List.mem_singleton] at last
    rw [last]
    exact (sound.frames fr mem).1
  · exact { Grows.refl s h with loops := .push _ _ _ }

end Append

end Lowering

end Febc
