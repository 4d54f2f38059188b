import Febc.Proofs.Body

/-!
# Resolving the labels of a code builder

A caller drives a code builder with a sequence of calls: it hands out labels and places them, and
pushes instructions, jumps to labels, and placeholder jumps that it patches itself. Laid out from
offset zero, each call that writes an instruction takes the next bytes of the code
(`positions`). The code the calls should produce is `resolved`: each instruction as pushed, each
jump to a label carrying the offset where the label is placed, before or after the jump, and each
placeholder the last value patched into it, or zero.

A builder run through the calls follows them (`Follows`): its code is the image of the
instructions resolved against the calls made so far, a placed label holds its offset, and an
unplaced one waits with the operands of the jumps to it. Placing a label patches exactly those
operands (`layout_retarget`), and patching a placeholder changes only it (`layout_repatch`), so
that every call keeps the invariant (`Follows.step`). Finishing the code then reports the labels
that jumps wait for, in the order they were handed out, or hands over the resolved code once the
limits of the format are met; either way the builder's channel is closed and the channel active
before is active again.

Main statements:
* `labels_resolve_exactly`: for every sequence of calls that goes through, finishing the code
  fails on the labels jumps wait for exactly when some jump's label was never placed, and
  otherwise, within the limits of the format, answers code that decodes to the resolved
  instructions; the channels end as they were before the builder started, with its channel
  closed.
-/

namespace Febc

/-- A call on a code builder. -/
inductive BuilderOp where
  | freshLabel
  | placeLabel (label : Nat)
  | pushInstruction (op : Opcode) (operands : List Nat)
  | pushInvoke (op : Opcode) (function : Nat) (descriptor : FunctionDescriptor)
  | pushJump (op : Opcode) (label : Nat)
  | pushJumpPlaceholder (op : Opcode)
  | patchJump (operand target : Nat)
  | enterHandler
  | addHandler (start stop handler : Nat) (catchClass : Option Nat)
  | setLocalCount (count : Nat)
  deriving DecidableEq, Repr

namespace BuilderOp

/-- Make a call, dropping what it answers. -/
def run : BuilderOp → CodeM Unit
  | freshLabel => do let _ ← CodeBuilder.freshLabel; pure ()
  | placeLabel label => CodeBuilder.placeLabel label
  | pushInstruction op operands => CodeBuilder.pushInstruction op operands
  | pushInvoke op function descriptor => CodeBuilder.pushInvoke op function descriptor
  | pushJump op label => CodeBuilder.pushJump op label
  | pushJumpPlaceholder op => do let _ ← CodeBuilder.pushJumpPlaceholder op; pure ()
  | patchJump operand target => CodeBuilder.patchJump operand target
  | enterHandler => CodeBuilder.enterHandler
  | addHandler start stop handler catchClass => CodeBuilder.addHandler start stop handler catchClass
  | setLocalCount count => CodeBuilder.setLocalCount count

/-- Make calls one after another, stopping at the first that fails. -/
def runAll : List BuilderOp → CodeM Unit
  | [] => pure ()
  | op :: rest => do op.run; runAll rest

/-- The bytes a call writes: one instruction's, or none. -/
def width : BuilderOp → Nat
  | pushInstruction op _ | pushInvoke op _ _ | pushJump op _ | pushJumpPlaceholder op => op.length
  | _ => 0

/-- The labels a call hands out. -/
def fresh : BuilderOp → Nat
  | freshLabel => 1
  | _ => 0

/-- The label a call places. -/
def places : BuilderOp → Option Nat
  | placeLabel label => some label
  | _ => none

/-- The label a call jumps to. -/
def jumpsTo? : BuilderOp → Option Nat
  | pushJump _ label => some label
  | _ => none

/-- The value a call patches into the operand at `operand`. -/
def patchOf (operand : Nat) : BuilderOp → Option Nat
  | patchJump at_ target => if at_ = operand then some target else none
  | _ => none

/-- The instruction a call writes at offset `o`: a jump carries `target` of its label, and a
placeholder what `patched` gives for its operand, or zero. -/
def instruction (target : Nat → Nat) (patched : Nat → Option Nat) (o : Nat) :
    BuilderOp → Option Instruction
  | pushInstruction op operands => some ⟨o, op, operands⟩
  | pushInvoke op function _ => some ⟨o, op, [function]⟩
  | pushJump op label => some ⟨o, op, [target label]⟩
  | pushJumpPlaceholder op => some ⟨o, op, [(patched (o + 1)).getD 0]⟩
  | _ => none

/-- What the builder checked of a call that went through: jumps are jumps, invocations invoke,
and other instructions neither jump nor invoke. -/
def Made : BuilderOp → Prop
  | pushInstruction op _ => op.isJump = false ∧ op.isInvoke = false
  | pushInvoke op _ _ => op.isInvoke = true
  | pushJump op _ | pushJumpPlaceholder op => op.isJump = true
  | _ => True

end BuilderOp

open BuilderOp
open CodeBuilder (maxWord)

/-- Each call with the offset of the code where it is made, the first at `o`. -/
def positions : Nat → List BuilderOp → List (Nat × BuilderOp)
  | _, [] => []
  | o, op :: rest => (o, op) :: positions (o + op.width) rest

/-- The size of the code a sequence of calls writes. -/
def codeSize (ops : List BuilderOp) : Nat := (ops.map width).sum

/-- The number of labels a sequence of calls hands out. -/
def labelCount (ops : List BuilderOp) : Nat := (ops.map fresh).sum

/-- Where a sequence of calls first places a label. -/
def placement (label : Nat) (ops : List BuilderOp) : Option Nat :=
  ((positions 0 ops).find? fun p => p.2.places = some label).map Prod.fst

/-- The operand offsets of the jumps to a label, in order. -/
def jumpOperands (label : Nat) (ops : List BuilderOp) : List Nat :=
  (positions 0 ops).filterMap fun p => if p.2.jumpsTo? = some label then some (p.1 + 1) else none

/-- The last value a sequence of calls patches into the operand at `operand`. -/
def lastPatch (operand : Nat) (ops : List BuilderOp) : Option Nat :=
  (ops.filterMap (patchOf operand)).getLast?

/-- The instructions a sequence of calls writes, its jumps and placeholders resolved by `target`
and `patched`. -/
def layout (target : Nat → Nat) (patched : Nat → Option Nat) (ops : List BuilderOp) : List Instruction :=
  (positions 0 ops).filterMap fun p => p.2.instruction target patched p.1

/-- Where the jumps to each label go once the calls are made: the label's placement, or zero. -/
def targets (ops : List BuilderOp) (label : Nat) : Nat := (placement label ops).getD 0

/-- The code a sequence of calls should produce: each jump at the placement of its label, and
each placeholder with the last value patched into it. -/
def resolved (ops : List BuilderOp) : List Instruction :=
  layout (targets ops) (fun operand => lastPatch operand ops) ops

/-- The labels that jumps wait for once the calls are made, in the order they were handed out. -/
def unplaced (ops : List BuilderOp) : List Nat :=
  (List.range (labelCount ops)).filter fun label => placement label ops = none ∧ jumpOperands label ops ≠ []

/-- The operand at `operand` is the operand of a placeholder jump among the calls. -/
def Placeholder (ops : List BuilderOp) (operand : Nat) : Prop :=
  ∃ o op, (o, pushJumpPlaceholder op) ∈ positions 0 ops ∧ operand = o + 1

/-- What a caller promises of a call made after the calls `pre`: the labels it names were handed
out, operands fit in two bytes, and a patch goes into the operand of a placeholder jump made
before. -/
def BuilderOp.Allowed (pre : List BuilderOp) : BuilderOp → Prop
  | placeLabel label | pushJump _ label => label < labelCount pre
  | pushInstruction _ operands => ∀ x ∈ operands, x ≤ 65535
  | pushInvoke _ function _ => function ≤ 65535
  | patchJump operand target =>
    Placeholder pre operand ∧ target ≤ 65535
  | _ => True

/-- Every call of a sequence is allowed after `pre` and the calls before it. -/
def BuilderOp.AllowedAfter (pre : List BuilderOp) : List BuilderOp → Prop
  | [] => True
  | op :: rest => op.Allowed pre ∧ AllowedAfter (pre ++ [op]) rest

/-! ## Laying calls out -/

section Layout

variable {o : Nat} {ops : List BuilderOp}

theorem positions_append (o : Nat) (pre post : List BuilderOp) :
    positions o (pre ++ post) = positions o pre ++ positions (o + codeSize pre) post := by
  induction pre generalizing o with
  | nil => simp [positions, codeSize]
  | cons op rest ih => simp [positions, ih, codeSize, Nat.add_assoc]

theorem positions_concat (pre : List BuilderOp) (op : BuilderOp) :
    positions 0 (pre ++ [op]) = positions 0 pre ++ [(codeSize pre, op)] := by
  simp [positions_append, positions]

theorem mem_positions_concat {pre : List BuilderOp} {op : BuilderOp} {p : Nat × BuilderOp} :
    p ∈ positions 0 (pre ++ [op]) ↔ p ∈ positions 0 pre ∨ p = (codeSize pre, op) := by
  simp [positions_concat]

theorem Placeholder.concat {pre : List BuilderOp} {f : Nat} (placeholder : Placeholder pre f) (op : BuilderOp) :
    Placeholder (pre ++ [op]) f := by
  obtain ⟨o, jop, mem, at_⟩ := placeholder
  exact ⟨o, jop, mem_positions_concat.mpr (Or.inl mem), at_⟩

theorem codeSize_append (pre post : List BuilderOp) : codeSize (pre ++ post) = codeSize pre + codeSize post := by
  simp [codeSize]

/-- A call is made within the code the calls write. -/
theorem bounds_of_mem_positions {p : Nat × BuilderOp} (mem : p ∈ positions o ops) :
    o ≤ p.1 ∧ p.1 + p.2.width ≤ o + codeSize ops := by
  induction ops generalizing o with
  | nil => cases mem
  | cons op rest ih =>
    simp only [positions, List.mem_cons] at mem
    rcases mem with rfl | later
    · simp [codeSize]
    · have inner := ih later
      simp only [codeSize, List.map_cons, List.sum_cons] at inner ⊢
      omega

/-- Two calls that write bytes at one offset are one call. -/
theorem eq_of_mem_positions {p q : Nat × BuilderOp} (hp : p ∈ positions o ops) (hq : q ∈ positions o ops)
    (same : p.1 = q.1) (wp : 0 < p.2.width) (wq : 0 < q.2.width) : p = q := by
  induction ops generalizing o with
  | nil => cases hp
  | cons op rest ih =>
    simp only [positions, List.mem_cons] at hp hq
    rcases hp with rfl | laterP <;> rcases hq with rfl | laterQ
    · rfl
    · have := (bounds_of_mem_positions laterQ).1
      simp only at same wp
      omega
    · have := (bounds_of_mem_positions laterP).1
      simp only at same wq
      omega
    · exact ih laterP laterQ

theorem width_pos {T : Nat → Nat} {P : Nat → Option Nat} {op : BuilderOp} {i : Instruction}
    (written : op.instruction T P o = some i) : 0 < op.width := by
  cases op <;> simp [instruction] at written <;> simp [width, Opcode.length_eq_sum]

theorem width_pos_of_jumpsTo {op : BuilderOp} {label : Nat} (jumps : op.jumpsTo? = some label) : 0 < op.width := by
  cases op <;> simp [jumpsTo?] at jumps
  simp [width, Opcode.length_eq_sum]

theorem offset_of_instruction {T : Nat → Nat} {P : Nat → Option Nat} {op : BuilderOp} {i : Instruction}
    (written : op.instruction T P o = some i) : i.offset = o := by
  cases op <;> simp [instruction] at written <;> rw [← written]

theorem mem_layout {T : Nat → Nat} {P : Nat → Option Nat} {p : Nat × BuilderOp} (mem : p ∈ positions 0 ops)
    {i : Instruction} (written : p.2.instruction T P p.1 = some i) : i ∈ layout T P ops :=
  List.mem_filterMap.mpr ⟨p, mem, written⟩

theorem layout_concat (T : Nat → Nat) (P : Nat → Option Nat) (pre : List BuilderOp) (op : BuilderOp) :
    layout T P (pre ++ [op]) = layout T P pre ++ (op.instruction T P (codeSize pre)).toList := by
  simp only [layout, positions_concat, List.filterMap_append, List.filterMap_cons, List.filterMap_nil]
  cases op.instruction T P (codeSize pre) <;> rfl

theorem placement_concat (label : Nat) (pre : List BuilderOp) (op : BuilderOp) :
    placement label (pre ++ [op]) =
      (placement label pre).or (if op.places = some label then some (codeSize pre) else none) := by
  simp only [placement, positions_concat, List.find?_append, List.find?_cons, List.find?_nil]
  cases (positions 0 pre).find? fun p => p.2.places = some label <;> by_cases hit : op.places = some label <;>
    simp [hit]

theorem jumpOperands_concat (label : Nat) (pre : List BuilderOp) (op : BuilderOp) :
    jumpOperands label (pre ++ [op]) =
      jumpOperands label pre ++ (if op.jumpsTo? = some label then [codeSize pre + 1] else []) := by
  simp only [jumpOperands, positions_concat, List.filterMap_append, List.filterMap_cons, List.filterMap_nil]
  by_cases hit : op.jumpsTo? = some label <;> simp [hit]

theorem lastPatch_concat (operand : Nat) (pre : List BuilderOp) (op : BuilderOp) :
    lastPatch operand (pre ++ [op]) = (op.patchOf operand).or (lastPatch operand pre) := by
  simp only [lastPatch, List.filterMap_append, List.filterMap_cons, List.filterMap_nil, List.getLast?_append]
  cases op.patchOf operand <;> rfl

theorem labelCount_concat (pre : List BuilderOp) (op : BuilderOp) :
    labelCount (pre ++ [op]) = labelCount pre + op.fresh := by
  simp [labelCount]

/-- A call that does not place a label keeps its placement. -/
theorem placement_concat_of_ne {label : Nat} {pre : List BuilderOp} {op : BuilderOp} (other : op.places ≠ some label) :
    placement label (pre ++ [op]) = placement label pre := by
  simp [placement_concat, other]

/-- A call that does not jump to a label keeps the jumps waiting for it. -/
theorem jumpOperands_concat_of_ne {label : Nat} {pre : List BuilderOp} {op : BuilderOp}
    (other : op.jumpsTo? ≠ some label) : jumpOperands label (pre ++ [op]) = jumpOperands label pre := by
  simp [jumpOperands_concat, other]

/-- A call that does not patch an operand keeps the value last patched into it. -/
theorem lastPatch_concat_of_none {f : Nat} {pre : List BuilderOp} {op : BuilderOp} (unpatching : op.patchOf f = none) :
    lastPatch f (pre ++ [op]) = lastPatch f pre := by
  simp [lastPatch_concat, unpatching]

theorem targets_concat {pre : List BuilderOp} {op : BuilderOp} (unplacing : op.places = none) :
    targets (pre ++ [op]) = targets pre := by
  funext l
  rw [targets, placement_concat_of_ne (by simp [unplacing]), targets]

theorem mem_jumpOperands {label f : Nat} :
    f ∈ jumpOperands label ops ↔ ∃ p ∈ positions 0 ops, p.2.jumpsTo? = some label ∧ f = p.1 + 1 := by
  simp only [jumpOperands, List.mem_filterMap]
  constructor
  · rintro ⟨p, mem, hit⟩
    by_cases jumps : p.2.jumpsTo? = some label
    · simp only [jumps, if_true, Option.some.injEq] at hit
      exact ⟨p, mem, jumps, hit.symm⟩
    · simp [jumps] at hit
  · rintro ⟨p, mem, jumps, rfl⟩
    exact ⟨p, mem, by simp [jumps]⟩

/-- Retargeting every jump to one label: the jumps to it are exactly the instructions whose
operand lies at one of its jump operands, since no two calls write at one offset. -/
theorem layout_retarget {T T' : Nat → Nat} {P : Nat → Option Nat} {label v : Nat}
    (others : ∀ l, l ≠ label → T' l = T l) (new : T' label = v) (ops : List BuilderOp) :
    layout T' P ops = (layout T P ops).map (Instruction.patch (jumpOperands label ops) v) := by
  rw [layout, layout, List.map_filterMap]
  apply List.filterMap_congr
  intro p mem
  obtain ⟨o, op⟩ := p
  have apart : ∀ {i : Instruction}, op.instruction T P o = some i → op.jumpsTo? ≠ some label →
      i.offset + 1 ∉ jumpOperands label ops := by
    intro i written other found
    obtain ⟨q, memQ, jumps, at_⟩ := mem_jumpOperands.mp found
    have same : (o, op) = q := by
      refine eq_of_mem_positions mem memQ ?_ (width_pos written) (width_pos_of_jumpsTo jumps)
      have := offset_of_instruction written
      simp only at this ⊢
      omega
    subst same
    exact other jumps
  cases op with
  | pushJump jop l =>
    by_cases hit : l = label
    · subst hit
      have inside : o + 1 ∈ jumpOperands l ops := mem_jumpOperands.mpr ⟨(o, .pushJump jop l), mem, rfl, rfl⟩
      simp [instruction, new, Instruction.patch, inside, Instruction.retarget]
    · have outside := apart (i := ⟨o, jop, [T l]⟩) rfl (by simp [jumpsTo?, hit])
      simp [instruction, others l hit, Instruction.patch_of_not_mem outside]
  | pushInstruction iop xs =>
    have outside := apart (i := ⟨o, iop, xs⟩) rfl (by simp [jumpsTo?])
    simp [instruction, Instruction.patch_of_not_mem outside]
  | pushInvoke iop f d =>
    have outside := apart (i := ⟨o, iop, [f]⟩) rfl (by simp [jumpsTo?])
    simp [instruction, Instruction.patch_of_not_mem outside]
  | pushJumpPlaceholder jop =>
    have outside := apart (i := ⟨o, jop, [(P (o + 1)).getD 0]⟩) rfl (by simp [jumpsTo?])
    simp [instruction, Instruction.patch_of_not_mem outside]
  | freshLabel | placeLabel | enterHandler | addHandler | setLocalCount | patchJump => rfl

/-- Patching the operand of a placeholder jump: only the placeholder writes at that offset, so it
is the one instruction that changes. -/
theorem layout_repatch {T : Nat → Nat} {P P' : Nat → Option Nat} {f t : Nat}
    (others : ∀ g, g ≠ f → P' g = P g) (new : P' f = some t)
    (placeholder : Placeholder ops f) :
    layout T P' ops = (layout T P ops).map (Instruction.patch [f] t) := by
  obtain ⟨o₀, op₀, mem₀, rfl⟩ := placeholder
  rw [layout, layout, List.map_filterMap]
  apply List.filterMap_congr
  intro p mem
  obtain ⟨o, op⟩ := p
  have apart : ∀ {i : Instruction}, op.instruction T P o = some i → (∀ jop, op ≠ pushJumpPlaceholder jop) →
      i.offset + 1 ∉ [o₀ + 1] := by
    intro i written other found
    have same : (o, op) = (o₀, pushJumpPlaceholder op₀) := by
      refine eq_of_mem_positions mem mem₀ ?_ (width_pos written) (by simp [width, Opcode.length_eq_sum])
      have := offset_of_instruction written
      simp only [List.mem_singleton] at found
      simp only
      omega
    cases same
    exact other op₀ rfl
  cases op with
  | pushJumpPlaceholder jop =>
    by_cases hit : o = o₀
    · subst hit
      simp [instruction, new, Instruction.patch, Instruction.retarget]
    · have kept : P' (o + 1) = P (o + 1) := others _ (by omega)
      simp [instruction, kept, Instruction.patch, hit]
  | pushJump jop l =>
    have outside := apart (i := ⟨o, jop, [T l]⟩) rfl (by simp)
    simp [instruction, Instruction.patch_of_not_mem outside]
  | pushInstruction iop xs =>
    have outside := apart (i := ⟨o, iop, xs⟩) rfl (by simp)
    simp [instruction, Instruction.patch_of_not_mem outside]
  | pushInvoke iop g d =>
    have outside := apart (i := ⟨o, iop, [g]⟩) rfl (by simp)
    simp [instruction, Instruction.patch_of_not_mem outside]
  | freshLabel | placeLabel | enterHandler | addHandler | setLocalCount | patchJump => rfl

/-- A call that places no label, jumps nowhere and patches nothing leaves the resolution of the
calls before it as it was, and adds its own instruction. -/
theorem resolved_concat_of_quiet {pre : List BuilderOp} {op : BuilderOp} (unplacing : op.places = none)
    (unpatching : ∀ f, op.patchOf f = none) :
    resolved (pre ++ [op]) =
      resolved pre ++ (op.instruction (targets pre) (fun f => lastPatch f pre) (codeSize pre)).toList := by
  have samePatches : (fun f => lastPatch f (pre ++ [op])) = fun f => lastPatch f pre :=
    funext fun f => lastPatch_concat_of_none (unpatching f)
  rw [resolved, targets_concat unplacing, samePatches, layout_concat]
  rfl

theorem width_of_instruction {T : Nat → Nat} {P : Nat → Option Nat} {op : BuilderOp} {i : Instruction}
    (written : op.instruction T P o = some i) : op.width = i.opcode.length := by
  cases op <;> simp [instruction] at written <;> simp [width, ← written]

theorem width_of_silent {T : Nat → Nat} {P : Nat → Option Nat} {op : BuilderOp}
    (silent : op.instruction T P o = none) : op.width = 0 := by
  cases op <;> simp [instruction] at silent <;> rfl

theorem mem_of_mem_positions {p : Nat × BuilderOp} (mem : p ∈ positions o ops) : p.2 ∈ ops := by
  induction ops generalizing o with
  | nil => cases mem
  | cons op rest ih =>
    simp only [positions, List.mem_cons] at mem
    rcases mem with rfl | later
    · exact List.mem_cons_self
    · exact List.mem_cons_of_mem op (ih later)

theorem exists_mem_positions {op : BuilderOp} (mem : op ∈ ops) : ∃ o', (o', op) ∈ positions o ops := by
  induction ops generalizing o with
  | nil => cases mem
  | cons op' rest ih =>
    rcases List.mem_cons.mp mem with rfl | later
    · exact ⟨o, by simp [positions]⟩
    · obtain ⟨o', found⟩ := ih (o := o + op'.width) later
      exact ⟨o', by simp [positions, found]⟩

/-- A label is placed within the code. -/
theorem placement_le {label p : Nat} (placed : placement label ops = some p) : p ≤ codeSize ops := by
  obtain ⟨q, found, rfl⟩ := Option.map_eq_some_iff.mp placed
  have := bounds_of_mem_positions (List.mem_of_find?_eq_some found)
  omega

/-- The last value patched into an operand was patched by a call of the sequence. -/
theorem patchJump_mem_of_lastPatch {f t : Nat} (patched : lastPatch f ops = some t) : patchJump f t ∈ ops := by
  obtain ⟨op, mem, hit⟩ := List.mem_filterMap.mp (List.mem_of_getLast? patched)
  cases op <;> simp only [patchOf, reduceCtorEq] at hit
  split at hit
  · cases hit
    subst_vars
    exact mem
  · cases hit

/-- Placing a label retargets exactly the jumps that wait for it. -/
theorem resolved_place {pre : List BuilderOp} {label : Nat} (unplaced : placement label pre = none) :
    resolved (pre ++ [placeLabel label]) =
      (resolved pre).map (Instruction.patch (jumpOperands label pre) (codeSize pre)) := by
  have samePatches : (fun f => lastPatch f (pre ++ [placeLabel label])) = fun f => lastPatch f pre :=
    funext fun _ => lastPatch_concat_of_none rfl
  rw [resolved, samePatches, layout_concat]
  simp only [instruction, Option.toList_none, List.append_nil]
  apply layout_retarget
  · intro l other
    rw [targets, placement_concat_of_ne (by simp [places, Ne.symm other]), targets]
  · simp [targets, placement_concat, places, unplaced]

/-- Patching the operand of a placeholder jump retargets that jump alone. -/
theorem resolved_patch {pre : List BuilderOp} {f t : Nat}
    (placeholder : Placeholder pre f) :
    resolved (pre ++ [patchJump f t]) = (resolved pre).map (Instruction.patch [f] t) := by
  rw [resolved, targets_concat rfl, layout_concat]
  simp only [instruction, Option.toList_none, List.append_nil]
  apply layout_repatch _ _ placeholder
  · intro g other
    simp [lastPatch_concat, patchOf, Ne.symm other]
  · simp [lastPatch_concat, patchOf]

end Layout

/-! ## The label table -/

/-- What a label table holds after the calls `pre`: an entry for each label handed out; a placed
label at the offset where it was placed, which fits two bytes; an unplaced label with the operands
of the jumps to it; and no call names a label not yet handed out. -/
structure LabelsFollow (labels : Array LabelState) (pre : List BuilderOp) : Prop where
  count : labels.size = labelCount pre
  placed : ∀ l p, placement l pre = some p → labels[l]? = some (.placed p) ∧ p ≤ maxWord
  waiting : ∀ l < labelCount pre, placement l pre = none →
    ∃ d, labels[l]? = some (.unplaced (jumpOperands l pre).toArray d)
  unnamed : ∀ l, labelCount pre ≤ l → placement l pre = none ∧ jumpOperands l pre = []

namespace LabelsFollow

variable {labels : Array LabelState} {pre : List BuilderOp}

theorem empty : LabelsFollow #[] [] where
  count := rfl
  placed _ _ placed := by cases placed
  waiting _ small := by cases small
  unnamed _ _ := ⟨rfl, rfl⟩

/-- A call that hands out no label, places none and jumps to none leaves the table as it was. -/
theorem quiet (follows : LabelsFollow labels pre) {op : BuilderOp} (handing : op.fresh = 0)
    (unplacing : op.places = none) (jumping : op.jumpsTo? = none) : LabelsFollow labels (pre ++ [op]) := by
  have count : labelCount (pre ++ [op]) = labelCount pre := by rw [labelCount_concat, handing, Nat.add_zero]
  have samePlacement : ∀ l, placement l (pre ++ [op]) = placement l pre :=
    fun _ => placement_concat_of_ne (by simp [unplacing])
  have sameJumps : ∀ l, jumpOperands l (pre ++ [op]) = jumpOperands l pre :=
    fun _ => jumpOperands_concat_of_ne (by simp [jumping])
  constructor
  · rw [count]; exact follows.count
  · simpa only [samePlacement] using follows.placed
  · simpa only [count, samePlacement, sameJumps] using follows.waiting
  · simpa only [count, samePlacement, sameJumps] using follows.unnamed

/-- A new label is the next entry, waiting for no jump. -/
theorem fresh (follows : LabelsFollow labels pre) :
    LabelsFollow (labels.push (.unplaced #[] none)) (pre ++ [.freshLabel]) := by
  have count : labelCount (pre ++ [.freshLabel]) = labelCount pre + 1 := labelCount_concat pre _
  have samePlacement : ∀ l, placement l (pre ++ [.freshLabel]) = placement l pre :=
    fun _ => placement_concat_of_ne (by simp [places])
  have sameJumps : ∀ l, jumpOperands l (pre ++ [.freshLabel]) = jumpOperands l pre :=
    fun _ => jumpOperands_concat_of_ne (by simp [jumpsTo?])
  have kept : ∀ l, l < labelCount pre → (labels.push (.unplaced #[] none))[l]? = labels[l]? := by
    intro l small
    rw [Array.getElem?_push, if_neg (by rw [follows.count]; omega)]
  constructor
  · simp [count, follows.count]
  · intro l p placed
    rw [samePlacement] at placed
    have small : l < labelCount pre := Classical.byContradiction fun large =>
      absurd placed (by rw [(follows.unnamed l (by omega)).1]; simp)
    rw [kept l small]
    exact follows.placed l p placed
  · intro l small unplaced
    rw [samePlacement] at unplaced
    rw [sameJumps]
    rcases Nat.lt_or_ge l (labelCount pre) with old | new
    · rw [kept l old]
      exact follows.waiting l old unplaced
    · have last : l = labels.size := by rw [follows.count]; omega
      refine ⟨none, ?_⟩
      rw [(follows.unnamed l new).2, last, Array.getElem?_push_size]
  · intro l large
    rw [samePlacement, sameJumps]
    exact follows.unnamed l (by omega)

/-- Placing a label that was handed out and not yet placed binds it at the end of the code. -/
theorem place (follows : LabelsFollow labels pre) {label : Nat} (named : label < labelCount pre)
    (unplaced : placement label pre = none) (short : codeSize pre ≤ maxWord) :
    LabelsFollow (labels.set! label (.placed (codeSize pre))) (pre ++ [.placeLabel label]) := by
  have count : labelCount (pre ++ [.placeLabel label]) = labelCount pre := labelCount_concat pre _
  have here : placement label (pre ++ [.placeLabel label]) = some (codeSize pre) := by
    simp [placement_concat, places, unplaced]
  have elsewhere : ∀ l, l ≠ label → placement l (pre ++ [.placeLabel label]) = placement l pre :=
    fun _ other => placement_concat_of_ne (by simp [places, Ne.symm other])
  have sameJumps : ∀ l, jumpOperands l (pre ++ [.placeLabel label]) = jumpOperands l pre :=
    fun _ => jumpOperands_concat_of_ne (by simp [jumpsTo?])
  have inside : label < labels.size := follows.count ▸ named
  constructor
  · simp [count, follows.count]
  · intro l p placed
    by_cases same : l = label
    · subst same
      rw [here] at placed
      cases placed
      exact ⟨by simp [inside], short⟩
    · rw [elsewhere l same] at placed
      simpa [Ne.symm same] using follows.placed l p placed
  · intro l small unplacedNow
    by_cases same : l = label
    · subst same
      rw [here] at unplacedNow
      cases unplacedNow
    · rw [elsewhere l same] at unplacedNow
      rw [count] at small
      simpa [Ne.symm same, sameJumps] using follows.waiting l small unplacedNow
  · intro l large
    rw [count] at large
    rw [elsewhere l (by omega), sameJumps]
    exact follows.unnamed l large

/-- A jump to a label waits for it if it is not yet placed. -/
theorem jump {b : CodeBuilder} (follows : LabelsFollow b.labels pre) {label : Nat} (named : label < labelCount pre)
    (op : Opcode) :
    LabelsFollow (b.addFixup label (codeSize pre + 1)).labels (pre ++ [.pushJump op label]) := by
  have count : labelCount (pre ++ [.pushJump op label]) = labelCount pre := labelCount_concat pre _
  have samePlacement : ∀ l, placement l (pre ++ [.pushJump op label]) = placement l pre :=
    fun _ => placement_concat_of_ne (by simp [places])
  have here : jumpOperands label (pre ++ [.pushJump op label]) = jumpOperands label pre ++ [codeSize pre + 1] := by
    simp [jumpOperands_concat, jumpsTo?]
  have elsewhere : ∀ l, l ≠ label → jumpOperands l (pre ++ [.pushJump op label]) = jumpOperands l pre :=
    fun _ other => jumpOperands_concat_of_ne (by simp [jumpsTo?, Ne.symm other])
  constructor
  · simp [count, follows.count]
  · intro l p placed
    rw [samePlacement] at placed
    obtain ⟨held, small⟩ := follows.placed l p placed
    by_cases same : l = label
    · subst same
      rw [CodeBuilder.addFixup_of_placed held]
      exact ⟨held, small⟩
    · rw [CodeBuilder.addFixup_ne b same]
      exact ⟨held, small⟩
  · intro l small unplaced
    rw [samePlacement] at unplaced
    rw [count] at small
    obtain ⟨d, held⟩ := follows.waiting l small unplaced
    by_cases same : l = label
    · subst same
      rw [CodeBuilder.addFixup_unplaced b held, here, ← List.push_toArray]
      exact ⟨_, rfl⟩
    · rw [CodeBuilder.addFixup_ne b same, elsewhere l same]
      exact ⟨d, held⟩
  · intro l large
    rw [count] at large
    rw [samePlacement, elsewhere l (by omega)]
    exact follows.unnamed l large

/-- A jump is written to go to its label's placement, or to zero until the label is placed. -/
theorem labelTarget_eq {b : CodeBuilder} (follows : LabelsFollow b.labels pre) (label : Nat) :
    b.labelTarget label = targets pre label := by
  unfold CodeBuilder.labelTarget targets
  rcases placed : placement label pre with _ | p
  · rcases Nat.lt_or_ge label (labelCount pre) with small | large
    · obtain ⟨d, held⟩ := follows.waiting label small placed
      simp [held]
    · have missing : b.labels[label]? = none := Array.getElem?_eq_none (by rw [follows.count]; exact large)
      simp [missing]
  · simp [(follows.placed label p placed).1]

/-- The labels a builder reports as waiting are those that jumps wait for. -/
theorem unplacedLabels_eq {b : CodeBuilder} (follows : LabelsFollow b.labels pre) :
    b.unplacedLabels = unplaced pre := by
  unfold CodeBuilder.unplacedLabels unplaced
  rw [follows.count]
  apply List.filter_congr
  intro l mem
  have small : l < labelCount pre := List.mem_range.mp mem
  rcases placed : placement l pre with _ | p
  · obtain ⟨d, held⟩ := follows.waiting l small placed
    simp only [held, true_and]
    cases jumpOperands l pre <;> rfl
  · simp [(follows.placed l p placed).1]

/-- A jump is written to go where its label is placed, or to zero: within two bytes. -/
theorem targets_le (follows : LabelsFollow labels pre) (label : Nat) : targets pre label ≤ maxWord := by
  unfold targets
  rcases placed : placement label pre with _ | p
  · exact Nat.zero_le _
  · exact (follows.placed label p placed).2

/-- The labels that jumps wait for are those some jump goes to and that are never placed. -/
theorem mem_unplaced (follows : LabelsFollow labels pre) {label : Nat} :
    label ∈ unplaced pre ↔ (∃ op, pushJump op label ∈ pre) ∧ placement label pre = none := by
  simp only [unplaced, List.mem_filter, List.mem_range, decide_eq_true_eq]
  constructor
  · rintro ⟨-, never, waited⟩
    obtain ⟨f, found⟩ := List.exists_mem_of_ne_nil _ waited
    obtain ⟨⟨o, op⟩, mem, jumps, -⟩ := mem_jumpOperands.mp found
    cases op with
    | pushJump jop l =>
      cases jumps
      exact ⟨⟨jop, mem_of_mem_positions mem⟩, never⟩
    | _ => cases jumps
  · rintro ⟨⟨op, jumps⟩, never⟩
    obtain ⟨o, mem⟩ := exists_mem_positions (o := 0) jumps
    have waited : jumpOperands label pre ≠ [] :=
      List.ne_nil_of_mem (mem_jumpOperands.mpr ⟨(o, pushJump op label), mem, rfl, rfl⟩)
    have small : label < labelCount pre :=
      Classical.byContradiction fun large => waited (follows.unnamed label (by omega)).2
    exact ⟨small, never, waited⟩

end LabelsFollow

/-- The labels that jumps wait for are listed in the order they were handed out. -/
theorem unplaced_sorted (ops : List BuilderOp) : (unplaced ops).Pairwise (· < ·) :=
  List.pairwise_lt_range.filter _

/-- A jump to the first of two labels, neither placed: only the first is waited for. -/
example : unplaced [.freshLabel, .freshLabel, .pushJump .jump 0] = [0] := by decide

/-! ## What each call does -/

namespace CodeBuilder

theorem overwrite_slots_ne (b : CodeBuilder) (o v : Nat) {c : Nat} (other : c ≠ b.channel) :
    (b.overwrite o v).channels.slots[c]? = b.channels.slots[c]? := by
  simp [overwrite, Array.getElem?_modify, Ne.symm other]

theorem runStep_emit_miscounted (b : CodeBuilder) {op : Opcode} {xs : List Nat}
    (count : xs.length ≠ op.operands.length) :
    runStep (emit op xs) b = (.error (.violation (.operandCount op)), b) := by
  obtain ⟨⟨slots, active⟩, channel, previous, labels, depth, maxDepth, handlers, localCount⟩ := b
  rw [emit, runStep_onChannels]
  simp [ChannelSet.emit, runStep_mk, Ne.symm count, violate]

theorem runStep_pushInstruction_miscounted (b : CodeBuilder) {op : Opcode} {xs : List Nat}
    (plain : op.isJump = false ∧ op.isInvoke = false) (narrow : Addressable op xs)
    (count : xs.length ≠ op.operands.length) :
    runStep (pushInstruction op xs) b = (.error (.violation (.operandCount op)), b) := by
  have refused : runStep (do
      let _ ← emit op xs
      adjust (op.stackEffect.getD 0)
      endIfUnconditional op) b = (.error (.violation (.operandCount op)), b) := by
    simp only [runStep_bind, runStep_emit_miscounted b count]
  simp only [pushInstruction, plain, Bool.or_false, Bool.false_eq_true, if_false]
  rw [stackEffect_of_plain plain.2]
  split
  · rename_i local_
    cases head : xs.head? with
    | none => simpa using refused
    | some slot =>
      have small := narrow slot (by simp [head]) (by simpa using local_)
      simp only [show ¬ slot > maxLocal by omega, if_false]
      simpa using refused
  · simpa using refused

variable {b b' : CodeBuilder}

/-- An instruction pushed without failing neither jumps nor invokes, has the operands its opcode
takes, and addresses a local slot within one byte. -/
theorem pushInstruction_checks {op : Opcode} {xs : List Nat}
    (ran : runStep (pushInstruction op xs) b = (.ok (), b')) :
    (op.isJump = false ∧ op.isInvoke = false) ∧ xs.length = op.operands.length ∧ Addressable op xs := by
  have plain : op.isJump = false ∧ op.isInvoke = false := by
    cases jump : op.isJump <;> cases invoke : op.isInvoke
    · exact ⟨rfl, rfl⟩
    all_goals simp [pushInstruction, jump, invoke] at ran
  have narrow : Addressable op xs := Classical.byContradiction fun wide => by
    obtain ⟨slot, refused⟩ := runStep_pushInstruction_wide (b := b) plain wide
    rw [refused] at ran
    cases ran
  have count : xs.length = op.operands.length := Classical.byContradiction fun count => by
    rw [runStep_pushInstruction_miscounted b plain narrow count] at ran
    cases ran
  exact ⟨plain, count, narrow⟩

theorem invoke_of_ok {op : Opcode} {function : Nat} {descriptor : FunctionDescriptor}
    (ran : runStep (pushInvoke op function descriptor) b = (.ok (), b')) : op.isInvoke = true := by
  cases invoke : op.isInvoke
  · simp [pushInvoke, invoke] at ran
  · rfl

theorem jump_of_ok {op : Opcode} {label : Nat} (ran : runStep (pushJump op label) b = (.ok (), b')) :
    op.isJump = true := by
  cases jump : op.isJump
  · simp [pushJump, jump] at ran
  · rfl

theorem placeholder_of_ok {op : Opcode} {operand : Nat}
    (ran : runStep (pushJumpPlaceholder op) b = (.ok operand, b')) : op.isJump = true := by
  cases jump : op.isJump
  · simp [pushJumpPlaceholder, jump] at ran
  · rfl

/-- Placing a label that is already placed fails. -/
theorem placeLabel_placed_fails (live : b.Live) {label p : Nat} (placed : b.labels[label]? = some (.placed p)) :
    ∃ h, (runStep (placeLabel label) b).1 = .error h := by
  simp only [placeLabel, runStep_bind, runStep_currentOffset live]
  split_ifs
  · exact ⟨_, rfl⟩
  · simp [placed]

/-- A patch that goes through overwrites the two bytes of the operand. -/
theorem overwrite_of_patch (live : b.Live) {offset value : Nat}
    (ran : runStep (patch offset value) b = (.ok (), b')) : b' = b.overwrite offset value := by
  obtain ⟨⟨slots, active⟩, channel, previous, labels, depth, maxDepth, handlers, localCount⟩ := b
  obtain ⟨-, bytes, slot⟩ := live
  simp only at slot
  rw [patch, runStep_onChannels] at ran
  simp only [ChannelSet.patch, runStep_mk, slot] at ran
  split_ifs at ran
  · simp [violate] at ran
  · simp [violate] at ran
  · obtain ⟨-, rfl⟩ := Prod.mk.inj ran
    rfl

theorem addHandler_of_ok (live : b.Live) {start stop handler : Nat} {catchClass : Option Nat}
    (ran : runStep (addHandler start stop handler catchClass) b = (.ok (), b')) :
    b' = { b with handlers := b.handlers.push ⟨start, stop, handler, catchClass⟩ } := by
  simp only [addHandler, runStep_bind, runStep_size live] at ran
  split at ran
  · simp only [runStep_modify, Prod.mk.injEq, true_and] at ran
    exact ran.symm
  · simp at ran

theorem runStep_run_freshLabel (b : CodeBuilder) :
    runStep BuilderOp.freshLabel.run b = (.ok (), { b with labels := b.labels.push (.unplaced #[] none) }) :=
  rfl

theorem fits_single {o : Nat} {op : Opcode} (wide : op.operands = [.u16]) {v : Nat} (small : v ≤ maxWord) :
    Instruction.Fits ⟨o, op, [v]⟩ :=
  ⟨by simp [wide], by simpa [wide, OperandWidth.max, maxWord] using small⟩

/-! ## Following the calls -/

/-- A builder that started on the channels `cs` and went through the calls `pre`: it writes, live,
into a channel of its own the image of the calls resolved so far, and leaves the other channels
and the channel active before as they were; its label table follows the calls; every call was
checked; and every patch went into the operand of a placeholder jump. -/
structure Follows (b : CodeBuilder) (cs : ChannelSet) (pre : List BuilderOp) : Prop where
  live : b.Live
  encoded : b.Encoded
  instructions : b.instructions = resolved pre
  size : b.code.size = codeSize pre
  channel : b.channel = cs.slots.size
  previous : b.previousActive = cs.active
  others : ∀ c, c ≠ cs.slots.size → b.channels.slots[c]? = cs.slots[c]?
  labels : LabelsFollow b.labels pre
  made : ∀ p ∈ positions 0 pre, p.2.Made
  patched : ∀ f t, lastPatch f pre = some t → Placeholder pre f

variable {cs : ChannelSet} {pre : List BuilderOp}

/-- A builder on a new channel follows no calls. -/
theorem follows_start (started : start cs = .ok b) : b.Follows cs [] := by
  simp [start, onChannel, runStep, ChannelSet.add, ChannelSet.setActive, ExceptT.run, ExceptT.mk,
    StateT.run] at started
  subst started
  set b : CodeBuilder :=
    { channels := ⟨cs.slots.push (some #[]), some cs.slots.size⟩, channel := cs.slots.size,
      previousActive := cs.active }
  have empty : b.code = #[] := by simp [b, code]
  have nothing : b.instructions = [] := instructions_eq_of_image (by simp [empty]) trivial (by simp)
  refine ⟨⟨rfl, #[], by simp [b]⟩, ⟨by simp [empty, nothing], by rw [nothing]; trivial, by simp [nothing]⟩,
    by rw [nothing]; rfl, by simp [empty, codeSize], rfl, rfl, ?_, LabelsFollow.empty, by simp [positions],
    fun _ _ patched => by cases patched⟩
  intro c other
  simp [b, Array.getElem?_push, other]

namespace Follows

variable (follows : b.Follows cs pre)
include follows

/-- A builder that agrees on the channels, the previous channel and the labels follows the same
calls. -/
theorem congr (channels : b'.channels = b.channels) (channel : b'.channel = b.channel)
    (previous : b'.previousActive = b.previousActive) (labels : b'.labels = b.labels) : b'.Follows cs pre where
  live := (live_congr channels channel).mpr follows.live
  encoded := (encoded_congr channels channel).mpr follows.encoded
  instructions := (instructions_congr channels channel).trans follows.instructions
  size := by rw [code_congr channels channel, follows.size]
  channel := channel.trans follows.channel
  previous := previous.trans follows.previous
  others c other := by rw [channels]; exact follows.others c other
  labels := labels ▸ follows.labels
  made := follows.made
  patched := follows.patched

theorem made_concat {op : BuilderOp} (made : op.Made) : ∀ p ∈ positions 0 (pre ++ [op]), p.2.Made := by
  intro p mem
  rcases mem_positions_concat.mp mem with old | rfl
  · exact follows.made p old
  · exact made

theorem patched_concat {op : BuilderOp} (unpatching : ∀ f, op.patchOf f = none) :
    ∀ f t, lastPatch f (pre ++ [op]) = some t → Placeholder (pre ++ [op]) f := by
  intro f t patched
  rw [lastPatch_concat, unpatching, Option.none_or] at patched
  exact (follows.patched f t patched).concat op

/-- No patch went into an operand past the end of the code. -/
theorem unpatched_end : lastPatch (codeSize pre + 1) pre = none := by
  rcases patched : lastPatch (codeSize pre + 1) pre with _ | t
  · rfl
  · obtain ⟨o, op, mem, at_⟩ := follows.patched _ t patched
    have bounds := bounds_of_mem_positions mem
    simp only [width, Opcode.length_eq_sum] at bounds
    omega

/-- A jump operand of a label is the operand of a jump of the code, which ends within it. -/
theorem jump_of_operand {label f : Nat} (mem : f ∈ jumpOperands label pre) :
    ∃ j ∈ b.instructions, j.opcode.isJump = true ∧ j.offset + 1 = f ∧ j.offset + 3 ≤ b.code.size := by
  obtain ⟨⟨o, op⟩, memP, jumps, rfl⟩ := mem_jumpOperands.mp mem
  cases op with
  | pushJump jop l =>
    have jump : jop.isJump = true := follows.made _ memP
    have bounds := bounds_of_mem_positions memP
    simp only [width, Lowering.length_of_jump jump] at bounds
    refine ⟨⟨o, jop, [targets pre l]⟩, ?_, jump, rfl, by rw [follows.size]; simp only; omega⟩
    rw [follows.instructions]
    exact mem_layout memP rfl
  | _ => cases jumps

/-- A call that writes nothing, places no label and patches nothing. -/
theorem silent {op : BuilderOp}
    (nothing : op.instruction (targets pre) (fun f => lastPatch f pre) (codeSize pre) = none) (made : op.Made)
    (unplacing : op.places = none) (unpatching : ∀ f, op.patchOf f = none)
    (channels : b'.channels = b.channels) (channel : b'.channel = b.channel)
    (previous : b'.previousActive = b.previousActive) (labels : LabelsFollow b'.labels (pre ++ [op])) :
    b'.Follows cs (pre ++ [op]) where
  live := (live_congr channels channel).mpr follows.live
  encoded := (encoded_congr channels channel).mpr follows.encoded
  instructions := by
    rw [instructions_congr channels channel, follows.instructions, resolved_concat_of_quiet unplacing unpatching,
      nothing, Option.toList_none, List.append_nil]
  size := by rw [code_congr channels channel, follows.size, codeSize_append]; simp [codeSize, width_of_silent nothing]
  channel := channel.trans follows.channel
  previous := previous.trans follows.previous
  others c other := by rw [channels]; exact follows.others c other
  labels := labels
  made := follows.made_concat made
  patched := follows.patched_concat unpatching

/-- A call that writes an instruction at the end of the code, places no label and patches
nothing. -/
theorem push {op : BuilderOp} {i : Instruction}
    (written : op.instruction (targets pre) (fun f => lastPatch f pre) (codeSize pre) = some i) (fits : i.Fits)
    (made : op.Made) (unplacing : op.places = none) (unpatching : ∀ f, op.patchOf f = none)
    (channels : b'.channels = (b.write i.bytes).channels) (channel : b'.channel = b.channel)
    (previous : b'.previousActive = b.previousActive) (labels : LabelsFollow b'.labels (pre ++ [op])) :
    b'.Follows cs (pre ++ [op]) := by
  have at_ : i.offset = b.code.size := by rw [offset_of_instruction written, follows.size]
  obtain ⟨encoded, appended⟩ := encoded_write follows.live follows.encoded at_ fits
  refine ⟨(live_congr channels channel).mpr (live_write follows.live _), (encoded_congr channels channel).mpr encoded,
    ?_, ?_, channel.trans follows.channel, previous.trans follows.previous, ?_, labels, follows.made_concat made,
    follows.patched_concat unpatching⟩
  · rw [instructions_congr channels channel, appended, follows.instructions,
      resolved_concat_of_quiet unplacing unpatching, written]
    rfl
  · rw [code_congr channels channel, code_write follows.live, Array.size_append, follows.size, codeSize_append]
    simp [codeSize, width_of_instruction written, Instruction.length_bytes i fits]
  · intro c other
    rw [channels, write_slots_ne b _ (by rw [follows.channel]; exact other)]
    exact follows.others c other

theorem pushInstruction {op : Opcode} {xs : List Nat} (wide : ∀ x ∈ xs, x ≤ 65535)
    (ran : runStep (CodeBuilder.pushInstruction op xs) b = (.ok (), b')) :
    b'.Follows cs (pre ++ [.pushInstruction op xs]) := by
  obtain ⟨plain, count, narrow⟩ := pushInstruction_checks ran
  rw [runStep_pushInstruction follows.live plain count narrow] at ran
  cases ran
  have kept : (((b.write (encodeInstruction op xs)).adjusted (op.stackEffect.getD 0)).stopping op).labels =
      b.labels := by simp
  exact follows.push (i := ⟨codeSize pre, op, xs⟩) rfl (Lowering.fits_of_addressable _ count narrow fun _ => wide)
    plain rfl (fun _ => rfl) (by simp [Instruction.bytes]) (by simp) (by simp) (kept ▸ follows.labels.quiet rfl rfl rfl)

theorem pushInvoke {op : Opcode} {function : Nat} {descriptor : FunctionDescriptor} (wide : function ≤ 65535)
    (ran : runStep (CodeBuilder.pushInvoke op function descriptor) b = (.ok (), b')) :
    b'.Follows cs (pre ++ [.pushInvoke op function descriptor]) := by
  have invoke := invoke_of_ok ran
  rw [runStep_pushInvoke follows.live invoke] at ran
  cases ran
  exact follows.push (i := ⟨codeSize pre, op, [function]⟩) rfl (fits_single (operands_of_invoke invoke) wide) invoke
    rfl (fun _ => rfl) (by simp [Instruction.bytes]) rfl rfl (follows.labels.quiet rfl rfl rfl)

theorem pushJump {op : Opcode} {label : Nat} (named : label < labelCount pre)
    (ran : runStep (CodeBuilder.pushJump op label) b = (.ok (), b')) :
    b'.Follows cs (pre ++ [.pushJump op label]) := by
  have jump := jump_of_ok ran
  rw [runStep_pushJump follows.live jump label, follows.labels.labelTarget_eq label, follows.size] at ran
  cases ran
  have written : LabelsFollow ((b.write (encodeInstruction op [targets pre label])).adjusted
      (op.stackEffect.getD 0)).labels pre := follows.labels
  exact follows.push (i := ⟨codeSize pre, op, [targets pre label]⟩) rfl
    (fits_single (operands_of_jump jump) (follows.labels.targets_le label)) jump rfl (fun _ => rfl)
    (by simp [Instruction.bytes]) (by simp) (by simp) (by simpa using written.jump named op)

theorem pushJumpPlaceholder {op : Opcode} {operand : Nat}
    (ran : runStep (CodeBuilder.pushJumpPlaceholder op) b = (.ok operand, b')) :
    b'.Follows cs (pre ++ [.pushJumpPlaceholder op]) := by
  have jump := placeholder_of_ok ran
  rw [runStep_pushJumpPlaceholder follows.live jump] at ran
  cases ran
  have written : (BuilderOp.pushJumpPlaceholder op).instruction (targets pre) (fun f => lastPatch f pre)
      (codeSize pre) = some ⟨codeSize pre, op, [0]⟩ := by
    simp [instruction, follows.unpatched_end]
  have kept : (((b.write (encodeInstruction op [0])).adjusted (op.stackEffect.getD 0)).stopping op).labels =
      b.labels := by simp
  exact follows.push written (fits_single (operands_of_jump jump) (Nat.zero_le _)) jump rfl (fun _ => rfl)
    (by simp [Instruction.bytes]) (by simp) (by simp) (kept ▸ follows.labels.quiet rfl rfl rfl)

/-- Placing a label handed out: it was not placed before, since placing it again fails, and the
jumps that wait for it are retargeted to the end of the code. -/
theorem place {label : Nat} (named : label < labelCount pre)
    (ran : runStep (placeLabel label) b = (.ok (), b')) : b'.Follows cs (pre ++ [.placeLabel label]) := by
  have unplaced : placement label pre = none := by
    rcases placed : placement label pre with _ | p
    · rfl
    · obtain ⟨h, refused⟩ := placeLabel_placed_fails follows.live (follows.labels.placed label p placed).1
      rw [ran] at refused
      cases refused
  obtain ⟨d, waiting⟩ := follows.labels.waiting label named unplaced
  have short : b.code.size ≤ maxWord := Classical.byContradiction fun long => by
    rw [runStep_placeLabel_long follows.live label (by omega)] at ran
    cases ran
  have jumps := fun f (mem : f ∈ jumpOperands label pre) => follows.jump_of_operand mem
  have inside : ∀ f ∈ (jumpOperands label pre).toArray.toList, f + 2 ≤ b.code.size := by
    intro f mem
    obtain ⟨j, -, -, at_, ends⟩ := jumps f (by simpa using mem)
    omega
  rw [runStep_placeLabel follows.live waiting inside short, List.toList_toArray] at ran
  cases ran
  set bound : CodeBuilder := { b with labels := b.labels.set! label (.placed b.code.size) }
  obtain ⟨encoded, patched⟩ := encoded_overwriteAll (b := bound) follows.live follows.encoded b.code.size short
    (jumpOperands label pre) fun f mem => (jumps f mem).imp fun _ found => ⟨found.1, found.2.1, found.2.2.1⟩
  have placedFollows : (bound.overwriteAll b.code.size (jumpOperands label pre)).Follows cs
      (pre ++ [.placeLabel label]) := by
    refine ⟨live_overwriteAll (b := bound) follows.live _ _, encoded, ?_, ?_, by simp [bound, follows.channel],
      by rw [overwriteAll_eq]; exact follows.previous, ?_, ?_, follows.made_concat trivial,
      follows.patched_concat fun _ => rfl⟩
    · rw [patched, show bound.instructions = b.instructions from rfl, follows.instructions, resolved_place unplaced,
        follows.size]
    · rw [code_size_overwriteAll (b := bound) follows.live, show bound.code = b.code from rfl, follows.size,
        codeSize_append]
      simp [codeSize, width]
    · intro c other
      rw [overwriteAll_slots_ne _ _ _ (by simp [bound, follows.channel, other])]
      exact follows.others c other
    · rw [overwriteAll_labels, show bound.labels = b.labels.set! label (.placed b.code.size) from rfl, follows.size]
      exact follows.labels.place named unplaced (follows.size ▸ short)
  exact placedFollows.congr (by rw [reached_eq]) (by rw [reached_eq]) (by rw [reached_eq]) (by rw [reached_eq])

/-- Patching the operand of a placeholder jump retargets that jump. -/
theorem repatch {f t : Nat} (placeholder : Placeholder pre f) (wide : t ≤ 65535)
    (ran : runStep (patchJump f t) b = (.ok (), b')) : b'.Follows cs (pre ++ [.patchJump f t]) := by
  have overwritten := overwrite_of_patch follows.live ran
  subst overwritten
  obtain ⟨o, jop, mem, rfl⟩ := placeholder
  have jump : jop.isJump = true := follows.made _ mem
  have inCode : (⟨o, jop, [(lastPatch (o + 1) pre).getD 0]⟩ : Instruction) ∈ b.instructions := by
    rw [follows.instructions]
    exact mem_layout mem rfl
  obtain ⟨encoded, patched⟩ := instructions_overwrite follows.live follows.encoded inCode jump t wide
  refine ⟨live_overwrite follows.live _ t, encoded, ?_, ?_, follows.channel, follows.previous, ?_,
    follows.labels.quiet rfl rfl rfl, follows.made_concat trivial, ?_⟩
  · rw [patched, follows.instructions, resolved_patch ⟨o, jop, mem, rfl⟩]
  · rw [code_size_overwrite follows.live, follows.size, codeSize_append]
    simp [codeSize, width]
  · intro c other
    rw [overwrite_slots_ne b _ _ (by rw [follows.channel]; exact other)]
    exact follows.others c other
  · intro g v lastly
    by_cases same : o + 1 = g
    · subst same
      exact ⟨o, jop, mem_positions_concat.mpr (Or.inl mem), rfl⟩
    · rw [lastPatch_concat] at lastly
      simp only [patchOf, same, if_false, Option.none_or] at lastly
      exact (follows.patched g v lastly).concat _

/-- Every allowed call that goes through keeps the builder following the calls. -/
theorem step {op : BuilderOp} (allowed : op.Allowed pre) (ran : runStep op.run b = (.ok (), b')) :
    b'.Follows cs (pre ++ [op]) := by
  cases op with
  | freshLabel =>
    rw [runStep_run_freshLabel] at ran
    cases ran
    exact follows.silent rfl trivial rfl (fun _ => rfl) rfl rfl rfl follows.labels.fresh
  | placeLabel label => exact follows.place allowed ran
  | pushInstruction op xs => exact follows.pushInstruction allowed ran
  | pushInvoke op function descriptor => exact follows.pushInvoke allowed ran
  | pushJump op label => exact follows.pushJump allowed ran
  | pushJumpPlaceholder op =>
    obtain ⟨operand, b₁, pushed, finished⟩ := runStep_bind_eq_ok ran
    cases finished
    exact follows.pushJumpPlaceholder pushed
  | patchJump f t => exact follows.repatch allowed.1 allowed.2 ran
  | enterHandler =>
    rw [BuilderOp.run, runStep_enterHandler] at ran
    cases ran
    exact follows.silent rfl trivial rfl (fun _ => rfl) rfl rfl rfl (follows.labels.quiet rfl rfl rfl)
  | addHandler start stop handler catchClass =>
    have added := addHandler_of_ok follows.live ran
    subst added
    exact follows.silent rfl trivial rfl (fun _ => rfl) rfl rfl rfl (follows.labels.quiet rfl rfl rfl)
  | setLocalCount count =>
    rw [BuilderOp.run, runStep_setLocalCount] at ran
    cases ran
    exact follows.silent rfl trivial rfl (fun _ => rfl) rfl rfl rfl (follows.labels.quiet rfl rfl rfl)

end Follows

/-- A builder that follows some calls and goes through more allowed calls follows them all. -/
theorem Follows.runAll {ops : List BuilderOp} (follows : b.Follows cs pre) (allowed : AllowedAfter pre ops)
    (ran : runStep (BuilderOp.runAll ops) b = (.ok (), b')) : b'.Follows cs (pre ++ ops) := by
  induction ops generalizing pre b with
  | nil =>
    rw [BuilderOp.runAll, runStep_pure] at ran
    cases ran
    simpa using follows
  | cons op rest ih =>
    obtain ⟨_, b₁, first, later⟩ := runStep_bind_eq_ok ran
    have after := ih (follows.step allowed.1 first) allowed.2 later
    simpa using after

/-! ## Handing the code over -/

@[simp] theorem unplacedLabels_with (b : CodeBuilder) (channels : ChannelSet) (previous : Option Nat) :
    ({ b with channels := channels, previousActive := previous } : CodeBuilder).unplacedLabels = b.unplacedLabels :=
  rfl

/-- Handing over the code of a live builder whose code decodes and whose jumps stay inside it
closes the channel and makes the channel active before active again, whatever the outcome; the
outcome is the first limit the code breaks, or the code. -/
theorem runStep_result (live : b.Live) (encoded : b.Encoded)
    (previous : ∀ p, b.previousActive = some p → p ≠ b.channel → ∃ bytes, b.channels.slots[p]? = some (some bytes))
    (inside : ∀ i ∈ b.instructions, ∀ t, i.jumpTarget? = some t → t ≤ b.code.size) :
    runStep result b =
      (if b.unplacedLabels ≠ [] then .error (.error (.unplacedLabels b.unplacedLabels))
        else if b.maxDepth > maxWord then .error (.error (.stackTooDeep b.maxDepth))
        else if b.code.size > maxWord then .error (.error (.codeTooLong b.code.size))
        else .ok ⟨b.maxDepth, b.localCount, b.code.toList, b.handlers.toList⟩,
       { b with channels := b.released }) := by
  have decoded : decode b.code.toList = .ok b.instructions := by
    rw [encoded.1]
    exact decode_image _ encoded.2.1 encoded.2.2
  have checked := checkTargets_ok _ _ inside
  unfold result
  rw [runStep_bind, runStep_remove live]
  simp only [runStep_bind, runStep_get]
  rcases hp : b.previousActive with _ | p
  case' none =>
    have restored : b.released = ⟨b.channels.slots.set! b.channel none, none⟩ := by simp [released, hp]
    rw [restored]
  case' some =>
    by_cases same : p = b.channel
    case' pos =>
      have restored : b.released = ⟨b.channels.slots.set! b.channel none, none⟩ := by
        simp [released, hp, same, Option.filter_some]
      simp only [same, ne_eq, not_true_eq_false, if_false]
      rw [restored]
    case' neg =>
      obtain ⟨bytes, slot⟩ := previous p hp same
      have reactivated : runStep (onChannels (fun _ => ChannelSet.setActive p))
          ({ b with channels := { slots := b.channels.slots.set! b.channel none }, previousActive := some p } :
            CodeBuilder) =
          (.ok (), { b with
            channels := { slots := b.channels.slots.set! b.channel none, active := some p }
            previousActive := some p }) := by
        rw [runStep_onChannels]
        simp [runStep, ChannelSet.setActive, ExceptT.run, ExceptT.mk, StateT.run, Ne.symm same, slot]
      have restored : b.released = ⟨b.channels.slots.set! b.channel none, some p⟩ := by
        simp [released, hp, same, Option.filter_some]
      simp only [same, ne_eq, not_false_eq_true, if_true]
      rw [runStep_bind, reactivated, restored]
  -- the channels are settled; the outcome is the first limit the code breaks
  all_goals
    simp only [unplacedLabels_with]
    by_cases waiting : b.unplacedLabels = [] <;> by_cases deep : maxWord < b.maxDepth <;>
      by_cases long : maxWord < b.code.size <;>
      simp [waiting, deep, long, decoded, checked, liftOutcome, runStep_pure]

namespace Follows

variable (follows : b.Follows cs pre)
include follows

/-- The channel active before the builder started is open, if it is another one. -/
theorem previous_open (activeOpen : cs.ActiveOpen) :
    ∀ p, b.previousActive = some p → p ≠ b.channel → ∃ bytes, b.channels.slots[p]? = some (some bytes) := by
  intro p active other
  rw [follows.previous] at active
  rw [follows.channel] at other
  rw [follows.others p other]
  exact activeOpen p active

/-- Every jump of the code lands within it, given that every patch does. -/
theorem inside (patchesInside : ∀ f t, BuilderOp.patchJump f t ∈ pre → t ≤ codeSize pre) :
    ∀ i ∈ b.instructions, ∀ t, i.jumpTarget? = some t → t ≤ b.code.size := by
  intro i mem t target
  rw [follows.instructions] at mem
  rw [follows.size]
  obtain ⟨⟨o, op⟩, memP, written⟩ := List.mem_filterMap.mp mem
  have made : op.Made := follows.made _ memP
  cases op with
  | pushInstruction iop xs =>
    cases written
    simp [Instruction.jumpTarget?, made.1] at target
  | pushInvoke iop g d =>
    cases written
    have plain : iop.isJump = false := by
      cases iop <;> simp_all [BuilderOp.Made, Opcode.isInvoke, Opcode.isJump]
    simp [Instruction.jumpTarget?, plain] at target
  | pushJump jop l =>
    cases written
    simp only [Instruction.jumpTarget?, List.head?_cons, if_pos (show jop.isJump = true from made),
      Option.some.injEq] at target
    subst target
    unfold targets
    rcases placed : placement l pre with _ | p
    · exact Nat.zero_le _
    · exact placement_le placed
  | pushJumpPlaceholder jop =>
    cases written
    simp only [Instruction.jumpTarget?, List.head?_cons, if_pos (show jop.isJump = true from made),
      Option.some.injEq] at target
    subst target
    rcases patched : lastPatch (o + 1) pre with _ | v
    · exact Nat.zero_le _
    · exact patchesInside _ _ (patchJump_mem_of_lastPatch patched)
  | _ => cases written

/-- Once the code is handed over, the builder's channel is closed and the other channels, the
channel active before included, are as they were before it started. -/
theorem released_eq (activeOpen : cs.ActiveOpen) : b.released = ⟨cs.slots.push none, cs.active⟩ := by
  obtain ⟨-, bytes, slot⟩ := follows.live
  have inRange : b.channel < b.channels.slots.size := (Array.getElem?_eq_some_iff.mp slot).1
  unfold released
  congr 1
  · apply Array.ext_getElem?
    intro c
    rw [Array.set!_eq_setIfInBounds, Array.getElem?_setIfInBounds, Array.getElem?_push]
    by_cases own : c = cs.slots.size
    · simp [own, ← follows.channel, inRange]
    · simp [own, follows.channel, Ne.symm own, follows.others c own]
  · rw [follows.previous, follows.channel]
    rcases active : cs.active with _ | p
    · rfl
    · obtain ⟨_, open_⟩ := activeOpen p active
      have below : p < cs.slots.size := (Array.getElem?_eq_some_iff.mp open_).1
      simp [Option.filter_some, Nat.ne_of_lt below]

end Follows

end CodeBuilder

/-- The code a builder hands over after a sequence of calls that all go through. The builder
starts on a new channel; every label a call names was handed out before, every operand fits two
bytes, and every patch goes into the operand of an earlier placeholder jump, with a target within
the code. Then finishing fails on the labels that jumps wait for exactly when some jump goes to a
label that is never placed, listing those labels in the order they were handed out; otherwise,
within the limits of the format, it answers code that decodes to the resolved instructions: each
jump to a label carries the offset where the label is placed, before or after the jump, each
placeholder the last value patched into it or zero, and every other operand is as pushed. Whatever
the outcome, the builder's channel is closed and the channel active before is active again. -/
theorem labels_resolve_exactly {cs : ChannelSet} {b₀ b : CodeBuilder} {ops : List BuilderOp}
    (started : CodeBuilder.start cs = .ok b₀) (activeOpen : cs.ActiveOpen) (allowed : AllowedAfter [] ops)
    (patchesInside : ∀ f t, patchJump f t ∈ ops → t ≤ codeSize ops)
    (ran : runStep (BuilderOp.runAll ops) b₀ = (.ok (), b)) :
    ((∃ labels, (runStep CodeBuilder.result b).1 = .error (.error (.unplacedLabels labels))) ↔
        ∃ op label, pushJump op label ∈ ops ∧ placement label ops = none) ∧
      (runStep CodeBuilder.result b).1 =
        (if unplaced ops ≠ [] then .error (.error (.unplacedLabels (unplaced ops)))
        else if b.maxDepth > maxWord then .error (.error (.stackTooDeep b.maxDepth))
        else if codeSize ops > maxWord then .error (.error (.codeTooLong (codeSize ops)))
        else .ok ⟨b.maxDepth, b.localCount, image (resolved ops), b.handlers.toList⟩) ∧
      (∀ label, label ∈ unplaced ops ↔ (∃ op, pushJump op label ∈ ops) ∧ placement label ops = none) ∧
      (unplaced ops).Pairwise (· < ·) ∧
      decode (image (resolved ops)) = .ok (resolved ops) ∧
      (runStep CodeBuilder.result b).2.channels = ⟨cs.slots.push none, cs.active⟩ := by
  have follows : b.Follows cs ops := by simpa using (CodeBuilder.follows_start started).runAll allowed ran
  have handed := CodeBuilder.runStep_result follows.live follows.encoded (follows.previous_open activeOpen)
    (follows.inside patchesInside)
  rw [follows.labels.unplacedLabels_eq, follows.size, follows.encoded.1, follows.instructions] at handed
  have outcome := congrArg Prod.fst handed
  dsimp only at outcome
  have waiting : ∀ label, label ∈ unplaced ops ↔ (∃ op, pushJump op label ∈ ops) ∧ placement label ops = none :=
    fun _ => follows.labels.mem_unplaced
  refine ⟨?_, outcome, waiting, unplaced_sorted ops, ?_, ?_⟩
  · constructor
    · rintro ⟨labels, failed⟩
      -- only labels that jumps wait for make finishing fail on unplaced labels
      have some_ : unplaced ops ≠ [] := by
        intro none_
        rw [outcome] at failed
        simp only [none_, ne_eq, not_true_eq_false, if_false] at failed
        split_ifs at failed <;> cases failed
      obtain ⟨label, found⟩ := List.exists_mem_of_ne_nil _ some_
      obtain ⟨⟨op, jumps⟩, never⟩ := (waiting label).mp found
      exact ⟨op, label, jumps, never⟩
    · rintro ⟨op, label, jumps, never⟩
      have some_ : unplaced ops ≠ [] := List.ne_nil_of_mem ((waiting label).mpr ⟨⟨op, jumps⟩, never⟩)
      exact ⟨unplaced ops, by rw [outcome, if_pos some_]⟩
  · rw [← follows.instructions]
    exact decode_image _ follows.encoded.2.1 follows.encoded.2.2
  · rw [handed]
    exact follows.released_eq activeOpen

/-- Calls that jump forward and back to labels, and patch a placeholder jump to the start. -/
def forwardAndBack : List BuilderOp :=
  [.freshLabel, .freshLabel, .placeLabel 0, .pushInstruction .loadA [0], .pushJump .jumpEq0I 1,
    .pushJump .jump 0, .placeLabel 1, .pushJumpPlaceholder .jump, .patchJump 9 0, .pushInstruction .ret []]

/-- The jump forward carries the offset of the later label, the jump back that of the earlier one,
and the placeholder the value patched into it. -/
example : resolved forwardAndBack =
    [⟨0, .loadA, [0]⟩, ⟨2, .jumpEq0I, [8]⟩, ⟨5, .jump, [0]⟩, ⟨8, .jump, [0]⟩, ⟨11, .ret, []⟩] := by
  decide

/-- A builder on the first channel of an empty set, and the builder once it made those calls. -/
def startedOnEmpty : CodeBuilder := { channels := ⟨#[some #[]], some 0⟩, channel := 0, previousActive := none }

def builtForwardAndBack : CodeBuilder := (runStep (BuilderOp.runAll forwardAndBack) startedOnEmpty).2

theorem forward_and_back_jumps_resolve :
    (runStep CodeBuilder.result builtForwardAndBack).1 =
        .ok ⟨builtForwardAndBack.maxDepth, builtForwardAndBack.localCount, image (resolved forwardAndBack),
          builtForwardAndBack.handlers.toList⟩ ∧
      decode (image (resolved forwardAndBack)) = .ok (resolved forwardAndBack) ∧
      (runStep CodeBuilder.result builtForwardAndBack).2.channels = ⟨#[none], none⟩ := by
  have allowed : AllowedAfter [] forwardAndBack := by
    refine ⟨trivial, trivial, ?_, ?_, ?_, ?_, ?_, trivial, ⟨⟨8, .jump, ?_, rfl⟩, ?_⟩, ?_, trivial⟩ <;>
      (try simp only [BuilderOp.Allowed]) <;> decide
  have patchesInside : ∀ f t, patchJump f t ∈ forwardAndBack → t ≤ codeSize forwardAndBack := by
    intro f t mem
    simp only [forwardAndBack, List.mem_cons, reduceCtorEq, patchJump.injEq, List.not_mem_nil, false_or,
      or_false] at mem
    obtain ⟨-, rfl⟩ := mem
    decide
  have went : (runStep (BuilderOp.runAll forwardAndBack) startedOnEmpty).1.isOk = true := by decide +kernel
  have ran : runStep (BuilderOp.runAll forwardAndBack) startedOnEmpty = (.ok (), builtForwardAndBack) := by
    refine Prod.ext ?_ (by simp only [builtForwardAndBack])
    revert went
    cases (runStep (BuilderOp.runAll forwardAndBack) startedOnEmpty).1 <;> simp [Except.isOk, Except.toBool]
  obtain ⟨-, outcome, -, -, decoded, released⟩ :=
    labels_resolve_exactly (show CodeBuilder.start {} = .ok startedOnEmpty from rfl) (fun _ active => by cases active)
      allowed patchesInside ran
  refine ⟨?_, decoded, released⟩
  rw [outcome, if_neg (by decide), if_neg (by decide +kernel), if_neg (by decide)]

end Febc
