import Xchannel.Format
import Xchannel.ShiftRegister

/-! CRC32C three ways: a bit at a time, a byte at a time from a table, and eight bytes at a time by the
`crc32` instruction. All are one reflected register over the bits of the bytes, the lowest first. -/
namespace Xchannel.Checksum
open ByteMemory Format ShiftRegister

def castagnoli : BitVec 32 := 0x82F63B78#32

def crcShift (c : UInt32) : UInt32 := if c &&& 1 ≠ 0 then (c >>> 1) ^^^ 0x82F63B78 else c >>> 1

/- The step of the CRC over data bits, in their order. -/
def crcBits (c : UInt32) (bits : List Bool) : UInt32 := bits.foldl (fun c b => crcShift (c ^^^ if b then 1 else 0)) c

def dataBits {n : Nat} (x : BitVec n) : List Bool := (List.range n).map x.getLsbD
def bitsOf (bytes : List UInt8) : List Bool := bytes.flatMap fun b => dataBits b.toBitVec

/-- The CRC a bit at a time. -/
def crc32cBitwise (bytes : List UInt8) : UInt32 :=
  ~~~ bytes.foldl (fun c b => crcShift^[8] (c ^^^ b.toUInt32)) 0xFFFFFFFF

/- `crc32c_sse42`: whole words, then what is left of the bytes; the running value is narrowed between. -/
def crc32cSse42 (mmCrc32U8 : UInt32 → UInt8 → UInt32) (mmCrc32U64 : UInt64 → UInt64 → UInt64) (bytes : List UInt8) : UInt32 :=
  let words := bytes.length / 8
  let c := (List.range words).foldl
    (fun c i => mmCrc32U64 c (UInt64.ofNat (ofLE ((bytes.drop (8 * i)).take 8)))) 0xFFFFFFFFFFFFFFFF
  ~~~ (bytes.drop (8 * words)).foldl mmCrc32U8 c.toUInt32

section Register

theorem lowBit (c : UInt32) : c &&& 1 ≠ 0 ↔ c.toBitVec.getLsbD 0 = true := by
  rw [← UInt32.toBitVec_inj.ne, UInt32.toBitVec_and]
  show c.toBitVec &&& 1#32 ≠ 0#32 ↔ _
  rw [BitVec.and_one_eq_setWidth_ofBool_getLsbD]
  cases c.toBitVec.getLsbD 0 <;> simp

theorem crcShiftRegister (c : UInt32) : (crcShift c).toBitVec = shift castagnoli c.toBitVec := by
  unfold crcShift shift
  by_cases low : c &&& 1 ≠ 0
  · rw [if_pos low, if_pos ((lowBit c).mp low)]
    rfl
  · rw [if_neg low, if_neg (mt (lowBit c).mpr low)]
    rfl

theorem crcShiftsRegister (n : Nat) (c : UInt32) : (crcShift^[n] c).toBitVec = shifts castagnoli n c.toBitVec := by
  unfold shifts
  induction n generalizing c with
  | zero => rfl
  | succ n ih => rw [Function.iterate_succ_apply, Function.iterate_succ_apply, ih, crcShiftRegister]

theorem crcBitsRegister (c : UInt32) (bits : List Bool) : (crcBits c bits).toBitVec = absorb castagnoli c.toBitVec bits := by
  unfold crcBits absorb
  induction bits generalizing c with
  | nil => rfl
  | cons b bits ih =>
    rw [List.foldl_cons, List.foldl_cons, ih, crcShiftRegister, UInt32.toBitVec_xor, feed]
    cases b <;> rfl

theorem castagnoliTop : castagnoli.getLsbD (32 - 1) = true := by decide

end Register

section Bytes

/- The bits of a byte, put into the register at once. -/
theorem wordByte (b : UInt8) : (word (dataBits b.toBitVec) : BitVec 32) = b.toUInt32.toBitVec := by
  apply BitVec.eq_of_getLsbD_eq
  intro i inside
  rw [wordLow, UInt8.toBitVec_toUInt32, BitVec.getLsbD_setWidth, dataBits, List.getD_eq_getElem?_getD, List.getElem?_map]
  by_cases low : i < 8
  · rw [List.getElem?_range low]
    rfl
  · rw [List.getElem?_eq_none (by simpa using low), BitVec.getLsbD_of_ge _ _ (by omega)]
    rfl

theorem byteBits (c : UInt32) (b : UInt8) : crcBits c (dataBits b.toBitVec) = crcShift^[8] (c ^^^ b.toUInt32) := by
  apply UInt32.toBitVec_inj.mp
  have eight : (dataBits b.toBitVec).length = 8 := by simp [dataBits]
  rw [crcBitsRegister, absorbWord _ (by omega), eight, wordByte, crcShiftsRegister, UInt32.toBitVec_xor]

/- The table's word for the lowest byte, and the rest moved down. -/
theorem tableStep (c : UInt32) (b : UInt8) :
    crc32cTable (c ^^^ b.toUInt32).toUInt8 ^^^ (c >>> 8) = crcShift^[8] (c ^^^ b.toUInt32) := by
  apply UInt32.toBitVec_inj.mp
  have entry (x : UInt8) : crc32cTable x = crcShift^[8] x.toUInt32 := rfl
  have gone : b.toUInt32.toBitVec >>> 8 = 0 := by
    apply BitVec.eq_of_getLsbD_eq
    intro i inside
    rw [BitVec.getLsbD_ushiftRight, UInt8.toBitVec_toUInt32, BitVec.getLsbD_setWidth, BitVec.getLsbD_of_ge _ _ (by omega)]
    simp
  have high : (c >>> 8).toBitVec = (c ^^^ b.toUInt32).toBitVec >>> 8 := by
    rw [UInt32.toBitVec_xor, BitVec.ushiftRight_xor_distrib, gone]
    exact (BitVec.xor_zero).symm
  have split (x : UInt32) : x.toBitVec = x.toUInt8.toUInt32.toBitVec ^^^ (x.toBitVec >>> 8) <<< 8 := by
    apply BitVec.eq_of_getLsbD_eq
    intro i inside
    rw [BitVec.getLsbD_xor, UInt8.toBitVec_toUInt32, BitVec.getLsbD_setWidth, UInt32.toBitVec_toUInt8,
      BitVec.getLsbD_setWidth, BitVec.getLsbD_shiftLeft, BitVec.getLsbD_ushiftRight]
    by_cases low : i < 8
    · simp [low, inside]
    · rw [show 8 + (i - 8) = i by omega]
      simp [low, inside]
  rw [UInt32.toBitVec_xor, entry, crcShiftsRegister, crcShiftsRegister, high]
  conv => rhs; rw [split (c ^^^ b.toUInt32)]
  rw [shiftsXor, shiftsDown]
  intro i up
  rw [BitVec.getLsbD_ushiftRight]
  exact BitVec.getLsbD_of_ge _ _ (by omega)

theorem bitsOfCons (b : UInt8) (bytes : List UInt8) : bitsOf (b :: bytes) = dataBits b.toBitVec ++ bitsOf bytes :=
  List.flatMap_cons

theorem bitsOfAppend (xs ys : List UInt8) : bitsOf (xs ++ ys) = bitsOf xs ++ bitsOf ys := List.flatMap_append

theorem crcBitsAppend (c : UInt32) (xs ys : List Bool) : crcBits c (xs ++ ys) = crcBits (crcBits c xs) ys :=
  List.foldl_append

/- The loop over the bytes, as one stream of bits. -/
theorem bytesBits (c : UInt32) (bytes : List UInt8) :
    bytes.foldl (fun c b => crcShift^[8] (c ^^^ b.toUInt32)) c = crcBits c (bitsOf bytes) := by
  induction bytes generalizing c with
  | nil => rfl
  | cons b bytes ih => rw [List.foldl_cons, ih, bitsOfCons, crcBitsAppend, byteBits]

theorem crcStream (bytes : List UInt8) : crc32c bytes = ~~~ crcBits 0xFFFFFFFF (bitsOf bytes) := by
  rw [← bytesBits, crc32c]
  congr 2
  funext c b
  exact tableStep c b

/- A little-endian word has the bits of its bytes. -/
theorem wordBits (bytes : List UInt8) : (List.range (8 * bytes.length)).map (ofLE bytes).testBit = bitsOf bytes := by
  induction bytes with
  | nil => rfl
  | cons b bytes ih =>
    rw [bitsOfCons, ← ih, List.length_cons, Nat.mul_succ, Nat.add_comm, List.range_add,
      List.map_append, List.map_map]
    have value : ofLE (b :: bytes) = 2 ^ 8 * ofLE bytes + b.toNat := Nat.add_comm _ _
    congr 1
    · apply List.map_congr_left
      intro i mem
      rw [value, Nat.testBit_two_pow_mul_add _ b.toNat_lt, if_pos (List.mem_range.mp mem)]
      rfl
    · apply List.map_congr_left
      intro i mem
      rw [Function.comp_apply, value, Nat.testBit_two_pow_mul_add _ b.toNat_lt, if_neg (by omega), Nat.add_sub_cancel_left]

theorem chunkBits {chunk : List UInt8} (whole : chunk.length = 8) :
    dataBits (UInt64.ofNat (ofLE chunk)).toBitVec = bitsOf chunk := by
  rw [← wordBits, whole, dataBits]
  apply List.map_congr_left
  intro i mem
  have small := ofLELt chunk
  rw [whole] at small
  show (BitVec.ofNat 64 (ofLE chunk)).getLsbD i = _
  rw [BitVec.getLsbD_ofNat, decide_eq_true (List.mem_range.mp mem), Bool.true_and]

end Bytes

section Agreement

/- The instruction over the first words leaves what the bits of their bytes leave. -/
theorem wordsBits {mmCrc32U64 : UInt64 → UInt64 → UInt64}
    (word64 : ∀ c v, (mmCrc32U64 c v).toUInt32 = crcBits c.toUInt32 (dataBits v.toBitVec)) (bytes : List UInt8) (c : UInt64)
    {n : Nat} (inside : 8 * n ≤ bytes.length) :
    ((List.range n).foldl (fun c i => mmCrc32U64 c (UInt64.ofNat (ofLE ((bytes.drop (8 * i)).take 8)))) c).toUInt32 =
      crcBits c.toUInt32 (bitsOf (bytes.take (8 * n))) := by
  induction n with
  | zero => rfl
  | succ n ih =>
    have whole : ((bytes.drop (8 * n)).take 8).length = 8 := by
      rw [List.length_take, List.length_drop]
      omega
    rw [List.range_succ, List.foldl_append, List.foldl_cons, List.foldl_nil, word64, ih (by omega), chunkBits whole,
      ← crcBitsAppend, ← bitsOfAppend, Nat.mul_succ, List.take_add]

/- For every byte string, and instructions that do the step over 8 and 64 data bits. -/
theorem implementationsAgree (bytes : List UInt8) :
    crc32c bytes = crc32cBitwise bytes ∧
      ∀ (mmCrc32U8 : UInt32 → UInt8 → UInt32) (mmCrc32U64 : UInt64 → UInt64 → UInt64),
        (∀ c b, mmCrc32U8 c b = crcBits c (dataBits b.toBitVec)) →
        (∀ c v, (mmCrc32U64 c v).toUInt32 = crcBits c.toUInt32 (dataBits v.toBitVec)) →
        crc32cSse42 mmCrc32U8 mmCrc32U64 bytes = crc32c bytes := by
  refine ⟨?_, fun mmCrc32U8 mmCrc32U64 byte8 word64 => ?_⟩
  · rw [crcStream, crc32cBitwise, bytesBits]
  · have tail (c : UInt32) (rest : List UInt8) : rest.foldl mmCrc32U8 c = crcBits c (bitsOf rest) := by
      rw [← bytesBits]
      congr 1
      funext c b
      rw [byte8, byteBits]
    rw [crcStream, crc32cSse42]
    rw [tail, wordsBits word64 bytes _ (Nat.mul_div_le _ _), ← crcBitsAppend, ← bitsOfAppend, List.take_append_drop]
    rfl

/- The standard check value, also by an instruction that does what it is documented to do. -/
theorem implementationsAgreeSmall :
    crc32cSse42 (fun c b => crcBits c (dataBits b.toBitVec)) (fun c v => (crcBits c.toUInt32 (dataBits v.toBitVec)).toUInt64)
      [49, 50, 51, 52, 53, 54, 55, 56, 57] = crc32c [49, 50, 51, 52, 53, 54, 55, 56, 57] ∧
    crc32c [49, 50, 51, 52, 53, 54, 55, 56, 57] = 0xE3069283 :=
  ⟨(implementationsAgree _).2 _ _ (fun _ _ => rfl) fun _ _ => UInt32.toUInt32_toUInt64 _, by decide +kernel⟩

end Agreement
end Xchannel.Checksum
