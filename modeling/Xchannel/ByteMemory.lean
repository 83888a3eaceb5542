import Mathlib

/-! Byte-addressed memories and fixed-width little-endian integers, over no particular
format. A store replaces the bytes of one range; a field is read back from its slice. -/
namespace Xchannel.ByteMemory

abbrev Mem := Nat → UInt8

def slice (m : Mem) (off len : Nat) : List UInt8 := (List.range len).map fun i => m (off + i)

def write (m : Mem) (off : Nat) (bytes : List UInt8) : Mem := fun a =>
  if off ≤ a ∧ a < off + bytes.length then bytes.getD (a - off) 0 else m a

def toLE : Nat → Nat → List UInt8
  | 0, _ => []
  | width+1, n => UInt8.ofNat n :: toLE width (n / 256)

def ofLE : List UInt8 → Nat
  | [] => 0
  | b :: rest => b.toNat + 256 * ofLE rest

def readLE (m : Mem) (off width : Nat) : Nat := ofLE (slice m off width)

@[simp] theorem toLELength (width n : Nat) : (toLE width n).length = width := by
  induction width generalizing n with
  | zero => rfl
  | succ width ih => simp [toLE, ih]

theorem ofLEToLE (width n : Nat) : ofLE (toLE width n) = n % 256 ^ width := by
  induction width generalizing n with
  | zero => simp [toLE, ofLE, Nat.mod_one]
  | succ width ih =>
    have byte : (UInt8.ofNat n).toNat = n % 256 := by simp
    rw [toLE, ofLE, ih, byte, pow_succ, Nat.mul_comm (256 ^ width), Nat.mod_mul]

theorem ofLELt (bytes : List UInt8) : ofLE bytes < 256 ^ bytes.length := by
  induction bytes with
  | nil => simp [ofLE]
  | cons b rest ih =>
    have byte : b.toNat < 256 := b.toNat_lt
    simp only [ofLE, List.length_cons, pow_succ]
    omega

theorem toLEOfLE (bytes : List UInt8) : toLE bytes.length (ofLE bytes) = bytes := by
  induction bytes with
  | nil => rfl
  | cons b rest ih =>
    have byte : b.toNat < 256 := b.toNat_lt
    have high : (b.toNat + 256 * ofLE rest) / 256 = ofLE rest := by omega
    have low : UInt8.ofNat (b.toNat + 256 * ofLE rest) = b := by
      apply UInt8.toNat_inj.mp
      simp only [UInt8.toNat_ofNat']
      omega
    simp only [List.length_cons, ofLE, toLE, low, high, ih]

@[simp] theorem sliceLength (m : Mem) (off len : Nat) : (slice m off len).length = len := by
  simp [slice]

theorem sliceGet (m : Mem) (off len i : Nat) (h : i < len) :
    (slice m off len)[i]? = some (m (off + i)) := by
  simp [slice, h]

theorem sliceCongr {m m' : Mem} {off len : Nat}
    (same : ∀ a, off ≤ a → a < off + len → m' a = m a) : slice m' off len = slice m off len := by
  apply List.map_congr_left
  intro i hi
  exact same (off + i) (by omega) (by have := List.mem_range.mp hi; omega)

theorem sliceAppend (m : Mem) (off a b : Nat) :
    slice m off (a + b) = slice m off a ++ slice m (off + a) b := by
  simp [slice, List.range_add, Nat.add_assoc]

theorem takeSlice (m : Mem) (off len n : Nat) (h : n ≤ len) :
    (slice m off len).take n = slice m off n := by
  obtain ⟨k, rfl⟩ := Nat.exists_eq_add_of_le h
  rw [sliceAppend, List.take_left' (sliceLength m off n)]

theorem readLELt (m : Mem) (off width : Nat) : readLE m off width < 256 ^ width := by
  have h := ofLELt (slice m off width)
  rwa [sliceLength] at h

theorem readLECongr {m m' : Mem} {off width : Nat}
    (same : ∀ a, off ≤ a → a < off + width → m' a = m a) : readLE m' off width = readLE m off width := by
  unfold readLE
  rw [sliceCongr same]

theorem writeOutside {m : Mem} {off : Nat} {bytes : List UInt8} {a : Nat}
    (h : a < off ∨ off + bytes.length ≤ a) : write m off bytes a = m a := by
  unfold write
  exact if_neg (by omega)

theorem writeInside {m : Mem} {off : Nat} {bytes : List UInt8} {i : Nat} {b : UInt8}
    (h : bytes[i]? = some b) : write m off bytes (off + i) = b := by
  have bound : i < bytes.length := (List.getElem?_eq_some_iff.mp h).1
  unfold write
  rw [if_pos (by omega), Nat.add_sub_cancel_left, List.getD_eq_getElem?_getD, h]
  rfl

theorem sliceWriteSame (m : Mem) (off : Nat) (bytes : List UInt8) :
    slice (write m off bytes) off bytes.length = bytes := by
  apply List.ext_getElem?
  intro i
  by_cases h : i < bytes.length
  · have found : bytes[i]? = some bytes[i] := List.getElem?_eq_getElem h
    rw [sliceGet _ _ _ _ h, writeInside found, found]
  · rw [List.getElem?_eq_none (by simpa using h), List.getElem?_eq_none (by omega)]

theorem sliceWriteOther {m : Mem} {off len at_ : Nat} {bytes : List UInt8}
    (h : off + len ≤ at_ ∨ at_ + bytes.length ≤ off) :
    slice (write m at_ bytes) off len = slice m off len := by
  apply sliceCongr
  intro a lo hi
  exact writeOutside (by omega)

/- A field inside a longer store: the bytes of the store from its offset on. -/
theorem sliceWriteInner {m : Mem} {off : Nat} {bytes : List UInt8} {skip len : Nat}
    (h : skip + len ≤ bytes.length) :
    slice (write m off bytes) (off + skip) len = (bytes.drop skip).take len := by
  apply List.ext_getElem?
  intro i
  by_cases hi : i < len
  · have found : bytes[skip + i]? = some bytes[skip + i] := List.getElem?_eq_getElem (by omega)
    rw [sliceGet _ _ _ _ hi, Nat.add_assoc, writeInside found, List.getElem?_take_of_lt hi,
      List.getElem?_drop, found]
  · rw [List.getElem?_eq_none (by simpa using hi), List.getElem?_eq_none (by simp; omega)]

theorem readLEWriteSame (m : Mem) (off width n : Nat) :
    readLE (write m off (toLE width n)) off width = n % 256 ^ width := by
  have same := sliceWriteSame m off (toLE width n)
  rw [toLELength] at same
  rw [readLE, same, ofLEToLE]

theorem readLEWriteOther {m : Mem} {off width at_ : Nat} {bytes : List UInt8}
    (h : off + width ≤ at_ ∨ at_ + bytes.length ≤ off) :
    readLE (write m at_ bytes) off width = readLE m off width := by
  rw [readLE, sliceWriteOther h, readLE]

/- The bytes of a field are determined by its value. -/
theorem sliceOfReadLE {m : Mem} {off width n : Nat} (h : readLE m off width = n) :
    slice m off width = toLE width n := by
  have back := toLEOfLE (slice m off width)
  rw [sliceLength] at back
  rw [← h, readLE, back]

end Xchannel.ByteMemory
