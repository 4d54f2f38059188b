import Febc.Proofs.Builder

/-!
# Emitting and decoding instruction streams

Emitting a list of instructions into a channel writes their images one after another, so the
bytes decode back to the list, each instruction at the sum of the lengths before it. Conversely
every byte string is, uniquely, the image of a clean prefix followed by a rest that is empty or
that the decoder cannot start on: its first byte is no opcode, or the instruction it starts
runs past the end. Decoding succeeds exactly on the first kind and reports the second exactly at
the rest's offset.

Operands are sixteen-bit words; a one-byte operand must also fit in a byte, which emission
checks.

Main statements:
* `exists_split`: every byte string splits into decodable instructions and a stuck or empty rest;
* `decode_eq_ok_iff`, `decode_eq_error_iff`: what decoding answers on each split;
* `runStep_emitAll`: emission appends the image of the instructions laid from the channel's size;
* `emitted_streams_decode_back`: emission and decoding are inverse.
-/

namespace Febc

namespace Opcode

theorem toByte_of_ofByte? {byte : UInt8} {op : Opcode} (found : ofByte? byte = some op) :
    op.toByte = byte := by
  simpa using List.find?_some found

end Opcode

namespace OperandWidth

/-- Bytes of the right number read as a value encode back to themselves. -/
theorem encode_value (w : OperandWidth) {bs : List UInt8} (size : bs.length = w.bytes) :
    w.encode (value bs) = bs := by
  cases w with
  | u8 =>
    obtain ⟨b, rfl⟩ := List.length_eq_one_iff.mp size
    simp [encode, value, Nat.toUInt8]
  | u16 =>
    obtain ⟨high, low, rfl⟩ := List.length_eq_two.mp size
    have hh := high.toNat_lt
    have hl := low.toNat_lt
    simp only [encode, value, List.length_cons, List.length_nil, Nat.pow_eq, Nat.pow_zero, Nat.add_zero,
      List.cons.injEq, and_true]
    constructor <;> apply UInt8.toNat_inj.mp <;> simp [Nat.toUInt8]
    omega

theorem max_le (w : OperandWidth) : w.max ≤ 65535 := by
  cases w <;> decide

theorem value_le_max (w : OperandWidth) {bs : List UInt8} (size : bs.length = w.bytes) :
    value bs ≤ w.max := by
  cases w with
  | u8 =>
    obtain ⟨b, rfl⟩ := List.length_eq_one_iff.mp size
    have := b.toNat_lt
    simp only [value, max, List.length_nil, Nat.pow_eq, Nat.pow_zero, Nat.add_zero]
    omega
  | u16 =>
    obtain ⟨high, low, rfl⟩ := List.length_eq_two.mp size
    have hh := high.toNat_lt
    have hl := low.toNat_lt
    simp only [value, max, List.length_cons, List.length_nil, Nat.pow_eq, Nat.pow_zero, Nat.add_zero]
    omega

end OperandWidth

section Operands

theorem length_readOperands (ws : List OperandWidth) (bs : List UInt8) :
    (readOperands ws bs).length = ws.length := by
  induction ws generalizing bs with
  | nil => rfl
  | cons w ws ih => simp [readOperands, ih]

/-- Reading operands from exactly as many bytes as their widths take, and encoding them again,
gives the bytes back. -/
theorem encodeOperands_readOperands (ws : List OperandWidth) {bs : List UInt8}
    (size : bs.length = (ws.map OperandWidth.bytes).sum) :
    encodeOperands ws (readOperands ws bs) = bs := by
  induction ws generalizing bs with
  | nil =>
    simp only [List.map_nil, List.sum_nil] at size
    simp [encodeOperands, List.eq_nil_of_length_eq_zero size]
  | cons w ws ih =>
    simp only [List.map_cons, List.sum_cons] at size
    have first : (bs.take w.bytes).length = w.bytes := by simp; omega
    have rest : (bs.drop w.bytes).length = (ws.map OperandWidth.bytes).sum := by simp; omega
    simp only [readOperands, encodeOperands, w.encode_value first, ih rest, List.take_append_drop]

theorem readOperands_le_max (ws : List OperandWidth) {bs : List UInt8}
    (size : bs.length = (ws.map OperandWidth.bytes).sum) :
    ∀ p ∈ ws.zip (readOperands ws bs), p.2 ≤ p.1.max := by
  induction ws generalizing bs with
  | nil => simp
  | cons w ws ih =>
    simp only [List.map_cons, List.sum_cons] at size
    have first : (bs.take w.bytes).length = w.bytes := by simp; omega
    have rest : (bs.drop w.bytes).length = (ws.map OperandWidth.bytes).sum := by simp; omega
    simp only [readOperands, List.zip_cons_cons, List.mem_cons, forall_eq_or_imp]
    exact ⟨w.value_le_max first, ih rest⟩

end Operands

/-! ## Where decoding stops -/

/-- Decoding cannot start on a byte list that lies at `offset`: its first byte is no opcode, or
the instruction that byte starts runs past the end. The error names the offset, and the byte in
the first case. -/
inductive Stuck (offset : Nat) : List UInt8 → DecodeError → Prop
  | malformed {byte : UInt8} {rest : List UInt8} :
      Opcode.ofByte? byte = none → Stuck offset (byte :: rest) (.malformed offset byte)
  | truncated {byte : UInt8} {rest : List UInt8} {op : Opcode} :
      Opcode.ofByte? byte = some op → (byte :: rest).length < op.length →
        Stuck offset (byte :: rest) (.truncated offset)

theorem decodeFrom_of_stuck {offset : Nat} {rest : List UInt8} {e : DecodeError}
    (stuck : Stuck offset rest e) (acc : Array Instruction) : decodeFrom offset acc rest = .error e := by
  cases stuck with
  | malformed none =>
    rw [decodeFrom]
    simp only [none]
  | truncated found short =>
    rw [decodeFrom]
    simp only [List.length_cons] at short
    simp only [found, List.length_take]
    rw [if_pos (by omega)]

/-- The instruction the decoder reads at the front of a byte list, and what it leaves. -/
theorem read_front {b : UInt8} {rest : List UInt8} {op : Opcode} (found : Opcode.ofByte? b = some op)
    (enough : ¬(rest.take (op.length - 1)).length < op.length - 1) (offset : Nat) :
    let i : Instruction := ⟨offset, op, readOperands op.operands (rest.take (op.length - 1))⟩
    i.Fits ∧ b :: rest = i.bytes ++ rest.drop (op.length - 1) := by
  intro i
  have size : (rest.take (op.length - 1)).length = (op.operands.map OperandWidth.bytes).sum := by
    simp only [List.length_take, Opcode.length_eq_sum] at enough ⊢
    omega
  refine ⟨⟨length_readOperands _ _, readOperands_le_max _ size⟩, ?_⟩
  simp only [i, Instruction.bytes, encodeInstruction, Opcode.toByte_of_ofByte? found,
    encodeOperands_readOperands _ size, List.cons_append, List.take_append_drop]

/-- Every byte string is a clean run of instructions laid from `offset`, followed by a rest that
is empty or on which decoding cannot start. -/
theorem exists_split (offset : Nat) (bytes : List UInt8) :
    ∃ is rest, Laid offset is ∧ (∀ i ∈ is, i.Fits) ∧ bytes = image is ++ rest ∧
      (rest = [] ∨ ∃ e, Stuck (offset + (image is).length) rest e) := by
  -- the cases are the decoder's own: the end, a byte that is no opcode, an instruction cut
  -- short, and one instruction followed by the split of what it leaves
  induction offset, (#[] : Array Instruction), bytes using decodeFrom.induct with
  | case1 => exact ⟨[], [], trivial, by simp, rfl, .inl rfl⟩
  | case2 offset _ b rest none =>
    exact ⟨[], b :: rest, trivial, by simp, rfl, .inr ⟨_, by simpa using Stuck.malformed none⟩⟩
  | case3 offset _ b rest op found front short =>
    refine ⟨[], b :: rest, trivial, by simp, rfl, .inr ⟨.truncated offset, ?_⟩⟩
    simp only [front, List.length_take] at short
    simpa using Stuck.truncated found (by simp; omega)
  | case4 offset _ b rest op found _ enough _ ih =>
    obtain ⟨fits, front⟩ := read_front found enough offset
    obtain ⟨is, tail, laid, allFit, split, ends⟩ := ih
    have length := Instruction.length_bytes _ fits
    refine ⟨_ :: is, tail, ⟨rfl, laid⟩, ?_, by rw [front, split, image_cons, List.append_assoc], ?_⟩
    · simpa using ⟨fits, allFit⟩
    · simp only [image_cons, List.length_append, length]
      simpa [Nat.add_assoc] using ends

theorem decode_split {is : List Instruction} {rest : List UInt8} (laid : Laid 0 is)
    (fits : ∀ i ∈ is, i.Fits) :
    decode (image is ++ rest) = (decodeFrom (image is).length is.toArray rest).map Array.toList := by
  rw [decode, decodeFrom_image 0 #[] is rest laid fits, Nat.zero_add, Array.empty_append]

/-- Decoding succeeds exactly on the images of laid out, fitting instructions, and gives them
back. -/
theorem decode_eq_ok_iff {bytes : List UInt8} {is : List Instruction} :
    decode bytes = .ok is ↔ Laid 0 is ∧ (∀ i ∈ is, i.Fits) ∧ bytes = image is := by
  constructor
  · intro decoded
    obtain ⟨js, rest, laid, fits, split, ends⟩ := exists_split 0 bytes
    rw [split, decode_split laid fits] at decoded
    rcases ends with rfl | ⟨e, stuck⟩
    · rw [decodeFrom] at decoded
      simp only [Except.map, Except.ok.injEq] at decoded
      subst decoded
      exact ⟨laid, fits, by simpa using split⟩
    · rw [Nat.zero_add] at stuck
      simp [decodeFrom_of_stuck stuck, Except.map] at decoded
  · rintro ⟨laid, fits, rfl⟩
    exact decode_image is laid fits

/-- Decoding fails exactly where a clean prefix is followed by a rest it cannot start on, and
reports that rest's error at the offset where the prefix ends. -/
theorem decode_eq_error_iff {bytes : List UInt8} {e : DecodeError} :
    decode bytes = .error e ↔
      ∃ is rest, Laid 0 is ∧ (∀ i ∈ is, i.Fits) ∧ bytes = image is ++ rest ∧
        Stuck (image is).length rest e := by
  constructor
  · intro decoded
    obtain ⟨is, rest, laid, fits, split, ends⟩ := exists_split 0 bytes
    rw [split, decode_split laid fits] at decoded
    rcases ends with rfl | ⟨e', stuck⟩
    · rw [decodeFrom] at decoded
      simp [Except.map] at decoded
    · rw [Nat.zero_add] at stuck
      simp only [decodeFrom_of_stuck stuck, Except.map, Except.error.injEq] at decoded
      exact ⟨is, rest, laid, fits, split, decoded ▸ stuck⟩
  · rintro ⟨is, rest, laid, fits, rfl, stuck⟩
    simp [decode_split laid fits, decodeFrom_of_stuck stuck, Except.map]

/-! ## Emission -/

/-- Instructions placed one after another from an offset. -/
def layFrom : Nat → List (Opcode × List Nat) → List Instruction
  | _, [] => []
  | o, (op, vs) :: rest => ⟨o, op, vs⟩ :: layFrom (o + op.length) rest

/-- The opcode and operands of an instruction, as emission takes them. -/
def Instruction.shape (i : Instruction) : Opcode × List Nat := (i.opcode, i.operands)

/-- The operands of an instruction are sixteen-bit words of the number its opcode takes, and a
one-byte operand fits in a byte. -/
def Shaped (p : Opcode × List Nat) : Prop :=
  p.2.length = p.1.operands.length ∧ (∀ v ∈ p.2, v < 65536) ∧
    ∀ q ∈ p.1.operands.zip p.2, q.1 = .u8 → q.2 ≤ 255

theorem Shaped.fits {p : Opcode × List Nat} (shaped : Shaped p) (o : Nat) :
    (⟨o, p.1, p.2⟩ : Instruction).Fits := by
  obtain ⟨count, words, narrow⟩ := shaped
  refine ⟨count, fun q mem => ?_⟩
  cases hw : q.1 with
  | u8 => exact narrow q mem hw
  | u16 =>
    have := words q.2 (List.of_mem_zip mem).2
    simp only [OperandWidth.max]
    omega

theorem Instruction.shaped {i : Instruction} (fits : i.Fits) : Shaped i.shape := by
  obtain ⟨count, small⟩ := fits
  refine ⟨count, fun v mem => ?_, fun q mem u8 => ?_⟩
  · obtain ⟨k, hk, rfl⟩ := List.getElem_of_mem mem
    simp only [shape] at hk ⊢
    have inZip : k < (i.opcode.operands.zip i.operands).length := by simp; omega
    have held := small _ (List.getElem_mem inZip)
    simp only [List.getElem_zip] at held
    have := OperandWidth.max_le i.opcode.operands[k]
    omega
  · simpa [u8, OperandWidth.max] using small q mem

theorem laid_layFrom (o : Nat) (ps : List (Opcode × List Nat)) : Laid o (layFrom o ps) := by
  induction ps generalizing o with
  | nil => trivial
  | cons p ps ih => exact ⟨rfl, ih _⟩

theorem fits_layFrom {ps : List (Opcode × List Nat)} (shaped : ∀ p ∈ ps, Shaped p) (o : Nat) :
    ∀ i ∈ layFrom o ps, i.Fits := by
  induction ps generalizing o with
  | nil => simp [layFrom]
  | cons p ps ih =>
    simp only [List.mem_cons, forall_eq_or_imp] at shaped
    simp only [layFrom, List.mem_cons, forall_eq_or_imp]
    exact ⟨shaped.1.fits o, ih shaped.2 _⟩

@[simp] theorem shape_layFrom (o : Nat) (ps : List (Opcode × List Nat)) :
    (layFrom o ps).map Instruction.shape = ps := by
  induction ps generalizing o with
  | nil => rfl
  | cons p ps ih => simp [layFrom, Instruction.shape, ih]

/-- The instruction at position `k` is laid at the sum of the lengths before it. -/
theorem offsets_layFrom (o : Nat) (ps : List (Opcode × List Nat)) :
    (layFrom o ps).map Instruction.offset =
      (List.range ps.length).map fun k => o + ((ps.take k).map fun p => p.1.length).sum := by
  induction ps generalizing o with
  | nil => rfl
  | cons p ps ih =>
    simp only [layFrom, List.map_cons, ih, List.length_cons, List.range_succ_eq_map,
      List.take_zero, List.map_nil, List.sum_nil, Nat.add_zero, List.map_map, List.cons.injEq,
      true_and]
    refine List.map_congr_left fun k _ => ?_
    simp [Nat.add_assoc]

/-- Laying out the shapes of a laid out list gives the list back. -/
theorem layFrom_shape {o : Nat} {is : List Instruction} (laid : Laid o is) :
    layFrom o (is.map Instruction.shape) = is := by
  induction is generalizing o with
  | nil => rfl
  | cons i is ih =>
    obtain ⟨at_, laidRest⟩ := laid
    subst at_
    simp [layFrom, Instruction.shape, ih laidRest]

namespace ChannelSet

theorem set!_of_slot {slots : Array (Option (Array UInt8))} {id : Nat} {x : Array UInt8}
    (slot : slots[id]? = some (some x)) (f : Array UInt8 → Array UInt8) :
    slots.modify id (Option.map f) = slots.set! id (some (f x)) := by
  apply Array.ext_getElem?
  intro j
  have inside : id < slots.size := (Array.getElem?_eq_some_iff.mp slot).1
  by_cases same : id = j
  · subst same
    rw [Array.getElem?_modify, Array.set!_eq_setIfInBounds, Array.getElem?_setIfInBounds]
    simpa [inside] using ⟨x, (Array.getElem?_eq_some_iff.mp slot).2, rfl⟩
  · simp [Array.getElem?_modify, Array.set!_eq_setIfInBounds, same]

theorem slot_set! {slots : Array (Option (Array UInt8))} {id : Nat} {x y : Array UInt8}
    (slot : slots[id]? = some (some x)) : (slots.set! id (some y))[id]? = some (some y) := by
  have inside : id < slots.size := (Array.getElem?_eq_some_iff.mp slot).1
  simp [Array.set!_eq_setIfInBounds, inside]

theorem set!_self {slots : Array (Option (Array UInt8))} {id : Nat} {x : Array UInt8}
    (slot : slots[id]? = some (some x)) : slots.set! id (some x) = slots := by
  apply Array.ext_getElem?
  intro j
  by_cases same : id = j
  · subst same
    rw [slot_set! slot, slot]
  · simp [Array.set!_eq_setIfInBounds, same]

/-- One emission into the open, active channel `id` holding `x` appends the instruction's bytes
and answers the size before them. -/
theorem runStep_emit_open {cs : ChannelSet} {id : Nat} {x : Array UInt8}
    (active : cs.active = some id) (slot : cs.slots[id]? = some (some x)) {p : Opcode × List Nat}
    (shaped : Shaped p) :
    runStep (emit p.1 p.2) cs =
      (.ok x.size, { cs with slots := cs.slots.set! id (some (x ++ (encodeInstruction p.1 p.2).toArray)) }) := by
  obtain ⟨count, -, narrow⟩ := shaped
  obtain ⟨slots, act⟩ := cs
  simp only at active slot
  subst active
  simp only [emit, runStep_mk, count, ne_eq, not_true_eq_false, if_false, slot,
    CodeBuilder.checkOperands_ok p.1 p.2 count narrow, set!_of_slot slot]

/-- Emitting a list of instructions one after another into the open, active channel `id`
holding `x` appends the image of the list laid from `x`'s size, and answers each offset. -/
theorem runStep_emitAll {cs : ChannelSet} {id : Nat} {x : Array UInt8}
    (active : cs.active = some id) (slot : cs.slots[id]? = some (some x))
    {ps : List (Opcode × List Nat)} (shaped : ∀ p ∈ ps, Shaped p) :
    runStep (ps.mapM fun p => emit p.1 p.2) cs =
      (.ok ((layFrom x.size ps).map Instruction.offset),
        { cs with slots := cs.slots.set! id (some (x ++ (image (layFrom x.size ps)).toArray)) }) := by
  induction ps generalizing cs x with
  | nil =>
    have same : x ++ (image (layFrom x.size [])).toArray = x := by simp [layFrom]
    rw [List.mapM_nil, runStep_pure, same, set!_self slot]
    rfl
  | cons p ps ih =>
    obtain ⟨op, vs⟩ := p
    simp only [List.mem_cons, forall_eq_or_imp] at shaped
    have length : (encodeInstruction op vs).length = op.length := by
      simpa [Instruction.bytes] using Instruction.length_bytes _ (shaped.1.fits 0)
    have next := @ih { cs with slots := cs.slots.set! id (some (x ++ (encodeInstruction op vs).toArray)) } _
      active (slot_set! slot) shaped.2
    simp only [Array.size_append, List.size_toArray, length] at next
    rw [List.mapM_cons, runStep_bind, runStep_emit_open active slot shaped.1]
    dsimp only
    rw [runStep_bind, next]
    dsimp only
    rw [runStep_pure]
    simp [layFrom, Instruction.bytes, Array.append_assoc, Array.set!_eq_setIfInBounds]

end ChannelSet

/-- Emission and decoding are inverse. Emitting a list of well-shaped instructions one after
another into an empty active channel succeeds, answers for each the sum of the lengths before
it, touches no other channel, and leaves bytes that decode to exactly those instructions at
those offsets. Conversely the instructions a byte string decodes to, emitted again, write that
byte string. And decoding fails exactly where a clean prefix is followed by a byte that is no
opcode, or by an instruction that runs past the end, naming the offset where the prefix ends. -/
theorem emitted_streams_decode_back :
    (∀ (cs : ChannelSet) (id : Nat) (ps : List (Opcode × List Nat)),
      cs.active = some id → cs.slots[id]? = some (some #[]) →
      (∀ p ∈ ps, p.2.length = p.1.operands.length) → (∀ p ∈ ps, ∀ v ∈ p.2, v < 65536) →
      (∀ p ∈ ps, ∀ q ∈ p.1.operands.zip p.2, q.1 = .u8 → q.2 ≤ 255) →
      ∃ bytes is, runStep (ps.mapM fun p => ChannelSet.emit p.1 p.2) cs =
          (.ok (is.map Instruction.offset), { cs with slots := cs.slots.set! id (some bytes) }) ∧
        decode bytes.toList = .ok is ∧ is.map Instruction.shape = ps ∧
        is.map Instruction.offset =
          (List.range ps.length).map fun k => ((ps.take k).map fun p => p.1.length).sum) ∧
    (∀ (bytes : List UInt8) (is : List Instruction), decode bytes = .ok is →
      ∀ (cs : ChannelSet) (id : Nat), cs.active = some id → cs.slots[id]? = some (some #[]) →
        runStep ((is.map Instruction.shape).mapM fun p => ChannelSet.emit p.1 p.2) cs =
          (.ok (is.map Instruction.offset), { cs with slots := cs.slots.set! id (some bytes.toArray) })) ∧
    ∀ (bytes : List UInt8) (e : DecodeError), decode bytes = .error e ↔
      ∃ is rest, Laid 0 is ∧ (∀ i ∈ is, i.Fits) ∧ bytes = image is ++ rest ∧
        Stuck (image is).length rest e := by
  refine ⟨fun cs id ps active slot count words narrow => ?_, fun bytes is decoded cs id active slot => ?_,
    fun bytes e => decode_eq_error_iff⟩
  · have shaped : ∀ p ∈ ps, Shaped p := fun p mem => ⟨count p mem, words p mem, narrow p mem⟩
    refine ⟨(image (layFrom 0 ps)).toArray, layFrom 0 ps, ?_, ?_, shape_layFrom 0 ps, ?_⟩
    · simpa using ChannelSet.runStep_emitAll active slot shaped
    · simpa using decode_image _ (laid_layFrom 0 ps) (fits_layFrom shaped 0)
    · simpa using offsets_layFrom 0 ps
  · obtain ⟨laid, fits, rfl⟩ := decode_eq_ok_iff.mp decoded
    have shaped : ∀ p ∈ is.map Instruction.shape, Shaped p := by
      simpa using fun i mem => Instruction.shaped (fits i mem)
    simpa [layFrom_shape laid] using ChannelSet.runStep_emitAll active slot shaped

/-- A local load, a constant load with a two-byte index, a jump and a return, emitted into the
one channel of a set, decode back to themselves at offsets 0, 2, 5 and 8. -/
theorem emitted_streams_decode_back_of_four_instructions :
    ({ slots := #[some #[]], active := some 0 } : ChannelSet).active = some 0 ∧
    ({ slots := #[some #[]], active := some 0 } : ChannelSet).slots[0]? = some (some #[]) ∧
    ∃ bytes is, runStep (([(.loadA, [1]), (.loadCpr, [300]), (.jump, [0]), (.retA, [])] : List (Opcode × List Nat)).mapM
          fun p => ChannelSet.emit p.1 p.2) { slots := #[some #[]], active := some 0 } =
        (.ok (is.map Instruction.offset), { slots := #[some #[]].set! 0 (some bytes), active := some 0 }) ∧
      decode bytes.toList = .ok is ∧
      is.map Instruction.shape = [(.loadA, [1]), (.loadCpr, [300]), (.jump, [0]), (.retA, [])] ∧
      is.map Instruction.offset = [0, 2, 5, 8] := by
  have active : ({ slots := #[some #[]], active := some 0 } : ChannelSet).active = some 0 := rfl
  have slot : ({ slots := #[some #[]], active := some 0 } : ChannelSet).slots[0]? = some (some #[]) := rfl
  obtain ⟨bytes, is, emitted, decoded, shapes, offsets⟩ := emitted_streams_decode_back.1 _ 0
    [(.loadA, [1]), (.loadCpr, [300]), (.jump, [0]), (.retA, [])] active slot (by decide) (by decide) (by decide)
  exact ⟨active, slot, bytes, is, emitted, decoded, shapes, offsets.trans (by decide)⟩

end Febc
