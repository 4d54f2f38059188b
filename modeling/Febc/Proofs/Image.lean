import Mathlib
import Febc.Bytecode.Instruction

/-!
# Byte images of instruction lists

The image of a list of instructions is their encodings one after the other. A list is *laid
out* from an offset when each instruction starts where the one before it ends, and each
instruction *fits* when its operands match its opcode's widths in number and size. Decoding the
image of a laid out list of fitting instructions gives the list back, so reasoning about code can
be done on instruction lists, and the bytes recovered at the end.

Patching the two operand bytes of a jump in an image is the image of the list with that jump
retargeted.

Main statements:
* `decode_image`: decoding inverts the image;
* `image_retarget`: overwriting the operand of a jump in the image retargets the jump.
-/

namespace Febc

namespace OperandWidth

theorem value_encode (w : OperandWidth) (v : Nat) (fits : v ≤ w.max) :
    value (w.encode v) = v := by
  cases w with
  | u8 =>
    simp only [max] at fits
    simp [encode, value, Nat.toUInt8, Nat.mod_eq_of_lt (by omega : v < 256)]
  | u16 =>
    simp only [max] at fits
    have high : v / 256 < 256 := by omega
    simp [encode, value, Nat.toUInt8, Nat.mod_eq_of_lt high]
    omega

end OperandWidth

/-- An instruction is its opcode's byte followed by its operands, each as wide as its kind. -/
theorem Opcode.length_eq_sum (op : Opcode) : op.length = 1 + (op.operands.map OperandWidth.bytes).sum := by
  rw [Opcode.length, List.sum_eq_foldr]

theorem length_encodeOperands (ws : List OperandWidth) (vs : List Nat) (same : vs.length = ws.length) :
    (encodeOperands ws vs).length = (ws.map OperandWidth.bytes).sum := by
  induction ws generalizing vs with
  | nil => cases vs <;> simp [encodeOperands]
  | cons w ws ih =>
    cases vs with
    | nil => simp at same
    | cons v vs =>
      simp only [List.length_cons, Nat.add_right_cancel_iff] at same
      simp [encodeOperands, ih vs same, OperandWidth.length_encode]

theorem readOperands_encodeOperands (ws : List OperandWidth) (vs : List Nat)
    (same : vs.length = ws.length) (fits : ∀ p ∈ ws.zip vs, p.2 ≤ p.1.max) :
    readOperands ws (encodeOperands ws vs) = vs := by
  induction ws generalizing vs with
  | nil => cases vs <;> simp_all [readOperands]
  | cons w ws ih =>
    cases vs with
    | nil => simp at same
    | cons v vs =>
      simp only [List.length_cons, Nat.add_right_cancel_iff] at same
      simp only [List.zip_cons_cons, List.mem_cons, forall_eq_or_imp] at fits
      have taken : (w.encode v ++ encodeOperands ws vs).take w.bytes = w.encode v := by
        simp [← OperandWidth.length_encode w v]
      have dropped : (w.encode v ++ encodeOperands ws vs).drop w.bytes = encodeOperands ws vs := by
        simp [← OperandWidth.length_encode w v]
      simp only [encodeOperands, readOperands, taken, dropped, ih vs same fits.2,
        OperandWidth.value_encode w v fits.1]

namespace Instruction

/-- The operands match the opcode's widths in number, and each is within its width. -/
def Fits (i : Instruction) : Prop :=
  i.operands.length = i.opcode.operands.length ∧
    ∀ p ∈ i.opcode.operands.zip i.operands, p.2 ≤ p.1.max

/-- The same instruction with its only operand replaced. -/
def retarget (i : Instruction) (target : Nat) : Instruction := { i with operands := [target] }

@[simp] theorem retarget_offset (i : Instruction) (t : Nat) : (i.retarget t).offset = i.offset := rfl

@[simp] theorem retarget_opcode (i : Instruction) (t : Nat) : (i.retarget t).opcode = i.opcode := rfl

@[simp] theorem retarget_operands (i : Instruction) (t : Nat) : (i.retarget t).operands = [t] := rfl

theorem length_bytes (i : Instruction) (fits : i.Fits) : i.bytes.length = i.opcode.length := by
  simp [bytes, encodeInstruction, length_encodeOperands _ _ fits.1, Opcode.length_eq_sum]
  omega

end Instruction

/-- Each instruction starts where the one before it ends, the first at offset `o`. -/
def Laid : Nat → List Instruction → Prop
  | _, [] => True
  | o, i :: rest => i.offset = o ∧ Laid (o + i.opcode.length) rest

/-- The bytes of instructions, one after the other. -/
def image (is : List Instruction) : List UInt8 := (is.map Instruction.bytes).flatten

@[simp] theorem image_nil : image [] = [] := rfl

@[simp] theorem image_cons (i : Instruction) (is : List Instruction) :
    image (i :: is) = i.bytes ++ image is := rfl

@[simp] theorem image_append (is js : List Instruction) : image (is ++ js) = image is ++ image js := by
  simp [image]

/-- Some instruction of the list starts at the offset. -/
def Starts (is : List Instruction) (offset : Nat) : Prop := ∃ i ∈ is, i.offset = offset

theorem Starts.append {is : List Instruction} {offset : Nat} (js : List Instruction)
    (starts : Starts is offset) : Starts (is ++ js) offset := by
  obtain ⟨i, mem, at_⟩ := starts
  exact ⟨i, List.mem_append_left js mem, at_⟩

theorem laid_append {o : Nat} {is js : List Instruction} (fits : ∀ i ∈ is, i.Fits) :
    Laid o (is ++ js) ↔ Laid o is ∧ Laid (o + (image is).length) js := by
  induction is generalizing o with
  | nil => simp [Laid]
  | cons i is ih =>
    simp only [List.mem_cons, forall_eq_or_imp] at fits
    simp only [List.cons_append, Laid, image_cons, List.length_append, i.length_bytes fits.1,
      ih fits.2, Nat.add_assoc, and_assoc]

theorem laid_concat {o : Nat} {is : List Instruction} {i : Instruction} (fits : ∀ i ∈ is, i.Fits) :
    Laid o (is ++ [i]) ↔ Laid o is ∧ i.offset = o + (image is).length := by
  simp [laid_append fits, Laid]

/-- Decoding the image of laid out, fitting instructions reads them back, and goes on with what
follows them. -/
theorem decodeFrom_image (o : Nat) (acc : Array Instruction) (is : List Instruction)
    (rest : List UInt8) (laid : Laid o is) (fits : ∀ i ∈ is, i.Fits) :
    decodeFrom o acc (image is ++ rest) =
      decodeFrom (o + (image is).length) (acc ++ is.toArray) rest := by
  induction is generalizing o acc with
  | nil => simp
  | cons i is ih =>
    obtain ⟨at_, laidRest⟩ := laid
    simp only [List.mem_cons, forall_eq_or_imp] at fits
    obtain ⟨⟨count, small⟩, fitsRest⟩ := fits
    have operandLength : (encodeOperands i.opcode.operands i.operands).length = i.opcode.length - 1 := by
      simp [length_encodeOperands _ _ count, Opcode.length_eq_sum]
    have read := readOperands_encodeOperands i.opcode.operands i.operands count small
    subst at_
    rw [image_cons, List.append_assoc, Instruction.bytes, encodeInstruction, List.cons_append,
      decodeFrom]
    simp only [Opcode.ofByte?_toByte, ← operandLength, List.take_left', List.drop_left',
      Nat.lt_irrefl, if_false, read]
    rw [ih _ _ laidRest fitsRest]
    congr 1
    · have length := Instruction.length_bytes i ⟨count, small⟩
      simp only [Instruction.bytes, encodeInstruction] at length
      simp only [List.length_append, List.length_cons] at length ⊢
      omega
    · simp

/-- Decoding inverts the image. -/
theorem decode_image (is : List Instruction) (laid : Laid 0 is) (fits : ∀ i ∈ is, i.Fits) :
    decode (image is) = .ok is := by
  have whole := decodeFrom_image 0 #[] is [] laid fits
  rw [List.append_nil] at whole
  rw [decode, whole, decodeFrom]
  simp [Except.map]

theorem length_image_pre {is pre post : List Instruction} {i : Instruction}
    (split : is = pre ++ i :: post) (laid : Laid 0 is) (fits : ∀ i ∈ is, i.Fits) :
    (image pre).length = i.offset := by
  have fitsPre : ∀ j ∈ pre, j.Fits := fun j mem => fits j (by simp [split, mem])
  rw [split, laid_append fitsPre] at laid
  simpa using laid.2.1.symm

theorem Laid.le_offset {o : Nat} {is : List Instruction} (laid : Laid o is) : ∀ i ∈ is, o ≤ i.offset := by
  induction is generalizing o with
  | nil => simp
  | cons i rest ih =>
    obtain ⟨at_, laidRest⟩ := laid
    intro k mem
    rcases List.mem_cons.mp mem with same | later
    · exact Nat.le_of_eq (by rw [same, at_])
    · have := ih laidRest k later
      omega

/-- Offsets increase along a laid out list, so an offset names at most one instruction. -/
theorem Laid.pairwise {o : Nat} {is : List Instruction} (laid : Laid o is) :
    is.Pairwise fun i j => i.offset < j.offset := by
  induction is generalizing o with
  | nil => exact List.Pairwise.nil
  | cons i rest ih =>
    obtain ⟨at_, laidRest⟩ := laid
    refine List.Pairwise.cons (fun k mem => ?_) (ih laidRest)
    have later := laidRest.le_offset k mem
    have wide : 1 ≤ i.opcode.length := by simp [Opcode.length_eq_sum]
    omega

theorem Laid.unique {o : Nat} {is : List Instruction} (laid : Laid o is) {i j : Instruction}
    (hi : i ∈ is) (hj : j ∈ is) (same : i.offset = j.offset) : i = j := by
  have ordered := laid.pairwise
  rcases List.mem_iff_append.mp hi with ⟨pre, post, rfl⟩
  simp only [List.mem_append, List.mem_cons] at hj
  rw [List.pairwise_append, List.pairwise_cons] at ordered
  rcases hj with before | rfl | after
  · have := ordered.2.2 j before i (by simp)
    omega
  · rfl
  · have := ordered.2.1.1 j after
    omega

/-- An instruction of a laid out list that starts inside another is that instruction. -/
theorem Laid.eq_of_within {o : Nat} {is : List Instruction} (laid : Laid o is) {i j : Instruction}
    (hi : i ∈ is) (hj : j ∈ is) (after : j.offset ≤ i.offset) (before : i.offset < j.offset + j.opcode.length) :
    i = j := by
  induction is generalizing o with
  | nil => cases hi
  | cons k rest ih =>
    obtain ⟨at_, laidRest⟩ := laid
    have wide : 1 ≤ k.opcode.length := by simp [Opcode.length_eq_sum]
    rcases List.mem_cons.mp hi with rfl | laterI <;> rcases List.mem_cons.mp hj with rfl | laterJ
    · rfl
    · have := laidRest.le_offset j laterJ
      omega
    · have := laidRest.le_offset i laterI
      omega
    · exact ih laidRest laterI laterJ

/-- A block of instructions laid one after another from `p`, inside a laid out list, holds every
instruction of the list that starts within the block. -/
theorem Laid.mem_of_block {o : Nat} {is : List Instruction} (laid : Laid o is) :
    ∀ {p : Nat} {block : List Instruction}, Laid p block → block ⊆ is → ∀ i ∈ is, p ≤ i.offset →
      i.offset < p + (block.map fun j => j.opcode.length).sum → i ∈ block
  | _, [], _, _, _, _, low, high => by
    simp only [List.map_nil, List.sum_nil, Nat.add_zero] at high
    omega
  | p, j :: rest, ⟨at_, laidRest⟩, sub, i, mem, low, high => by
    simp only [List.map_cons, List.sum_cons] at high
    by_cases within : i.offset < p + j.opcode.length
    · rw [laid.eq_of_within mem (sub List.mem_cons_self) (by omega) (by omega)]
      exact List.mem_cons_self
    · exact List.mem_cons_of_mem j (laid.mem_of_block laidRest (fun k memK => sub (List.mem_cons_of_mem j memK)) i
        mem (by omega) (by omega))

/-- Every instruction ends within the image. -/
theorem Laid.end_le {is : List Instruction} (laid : Laid 0 is) (fits : ∀ i ∈ is, i.Fits) :
    ∀ i ∈ is, i.offset + i.opcode.length ≤ (image is).length := by
  intro i mem
  rcases List.mem_iff_append.mp mem with ⟨pre, post, split⟩
  have before := length_image_pre split laid fits
  have length := i.length_bytes (fits i mem)
  rw [split]
  simp only [image_append, image_cons, List.length_append]
  omega

/-- The instruction that ends where the image ends is the last one. -/
theorem Laid.getLast_of_end {is : List Instruction} (laid : Laid 0 is) (fits : ∀ i ∈ is, i.Fits)
    {i : Instruction} (mem : i ∈ is) (ends : i.offset + i.opcode.length = (image is).length) :
    is.getLast? = some i := by
  obtain ⟨pre, post, split⟩ := List.mem_iff_append.mp mem
  have before := length_image_pre split laid fits
  have length := i.length_bytes (fits i mem)
  have empty : post = [] := by
    rw [split] at ends
    simp only [image_append, image_cons, List.length_append] at ends
    cases post with
    | nil => rfl
    | cons j rest =>
      have nonempty : 0 < j.bytes.length := by simp [Instruction.bytes, encodeInstruction]
      simp only [image_cons, List.length_append] at ends
      omega
  rw [split, empty]
  simp

namespace Instruction

/-- Retarget the instruction if its operand lies at one of the offsets. -/
def patch (offsets : List Nat) (v : Nat) (i : Instruction) : Instruction :=
  if i.offset + 1 ∈ offsets then i.retarget v else i

@[simp] theorem patch_offset (offsets : List Nat) (v : Nat) (i : Instruction) :
    (i.patch offsets v).offset = i.offset := by
  unfold patch; split <;> rfl

@[simp] theorem patch_opcode (offsets : List Nat) (v : Nat) (i : Instruction) :
    (i.patch offsets v).opcode = i.opcode := by
  unfold patch; split <;> rfl

theorem patch_of_mem {offsets : List Nat} {v : Nat} {i : Instruction} (inside : i.offset + 1 ∈ offsets) :
    i.patch offsets v = i.retarget v := if_pos inside

theorem patch_of_not_mem {offsets : List Nat} {v : Nat} {i : Instruction} (outside : i.offset + 1 ∉ offsets) :
    i.patch offsets v = i := if_neg outside

@[simp] theorem patch_nil (v : Nat) : Instruction.patch [] v = id := by
  funext i
  simp [patch]

theorem patch_patch (f : Nat) (rest : List Nat) (v : Nat) (i : Instruction) :
    (i.patch [f] v).patch rest v = i.patch (f :: rest) v := by
  unfold patch
  by_cases hit : i.offset + 1 = f <;> by_cases later : i.offset + 1 ∈ rest <;> simp [hit, later, retarget]

end Instruction

theorem starts_map_patch (is : List Instruction) (offsets : List Nat) (v : Nat) (o : Nat) :
    Starts (is.map (Instruction.patch offsets v)) o ↔ Starts is o := by
  constructor
  · rintro ⟨_, found, at_⟩
    obtain ⟨i, mem, rfl⟩ := List.mem_map.mp found
    exact ⟨i, mem, by simpa using at_⟩
  · rintro ⟨i, mem, at_⟩
    exact ⟨i.patch offsets v, List.mem_map_of_mem mem, by simpa using at_⟩

/-- Retargeting the jump at one offset of a laid out list changes that instruction only. -/
theorem map_patch_single {o : Nat} {pre post : List Instruction} {j : Instruction}
    (laid : Laid o (pre ++ j :: post)) (v : Nat) :
    (pre ++ j :: post).map (Instruction.patch [j.offset + 1] v) = pre ++ j.retarget v :: post := by
  have ordered := laid.pairwise
  rw [List.pairwise_append, List.pairwise_cons] at ordered
  have keepPre : pre.map (Instruction.patch [j.offset + 1] v) = pre := by
    calc pre.map (Instruction.patch [j.offset + 1] v) = pre.map id := by
          refine List.map_congr_left fun k mem => ?_
          have := ordered.2.2 k mem j (by simp)
          simp [Instruction.patch]
          omega
      _ = pre := List.map_id pre
  have keepPost : post.map (Instruction.patch [j.offset + 1] v) = post := by
    calc post.map (Instruction.patch [j.offset + 1] v) = post.map id := by
          refine List.map_congr_left fun k mem => ?_
          have := ordered.2.1.1 k mem
          simp [Instruction.patch]
          omega
      _ = post := List.map_id post
  simp [keepPre, keepPost, Instruction.patch]

/-- Overwriting the two operand bytes of a two-byte jump retargets it. -/
theorem image_retarget {pre post : List Instruction} {i : Instruction} (v : Nat)
    (width : i.opcode.operands = [.u16]) (fits : i.Fits)
    (before : (image pre).length = i.offset) :
    ((image (pre ++ i :: post)).set (i.offset + 1) (v / 256).toUInt8).set (i.offset + 2) v.toUInt8 =
      image (pre ++ i.retarget v :: post) := by
  obtain ⟨count, _⟩ := fits
  rw [width] at count
  match hops : i.operands, count with
  | [t], _ =>
    simp only [image_append, image_cons, Instruction.bytes, encodeInstruction,
      Instruction.retarget_opcode, Instruction.retarget_operands, width, hops, encodeOperands,
      OperandWidth.encode, List.append_nil, ← before]
    simp [List.set_append_right, List.set_cons_succ, List.set_cons_zero]

end Febc
