import Mathlib

/-! Reflected linear feedback registers of any width: a shift is linear and, where the polynomial has its
top bit, one-to-one, so no burst of errors that fits the register leaves it as it was. -/
namespace Xchannel.ShiftRegister

variable {w : Nat} (p : BitVec w)

/- One shift; the bit that falls out feeds the polynomial back. -/
def shift (c : BitVec w) : BitVec w := if c.getLsbD 0 then (c >>> 1) ^^^ p else c >>> 1

def bit (b : Bool) : BitVec w := BitVec.setWidth w (BitVec.ofBool b)
def feed (c : BitVec w) (b : Bool) : BitVec w := shift p (c ^^^ bit b)
def absorb (c : BitVec w) (bits : List Bool) : BitVec w := bits.foldl (feed p) c
def shifts (n : Nat) (c : BitVec w) : BitVec w := (shift p)^[n] c

/- A word from its bits, the lowest first. -/
def word : List Bool → BitVec w
  | [] => 0
  | b :: bits => (word bits <<< 1) ^^^ bit b

section Shifts

theorem bitLow (b : Bool) (i : Nat) : (bit b : BitVec w).getLsbD i = (decide (i = 0) && decide (0 < w) && b) := by
  unfold bit
  rw [BitVec.getLsbD_setWidth, BitVec.getLsbD_ofBool]
  by_cases zero : i = 0
  · subst zero
    cases b <;> simp
  · cases b <;> simp [zero]

theorem xorMiddle (a b q : BitVec w) : a ^^^ b ^^^ q = (a ^^^ q) ^^^ b := by
  rw [BitVec.xor_assoc, BitVec.xor_comm b q, ← BitVec.xor_assoc]

theorem xorCancel (a b q : BitVec w) : (a ^^^ q) ^^^ (b ^^^ q) = a ^^^ b := by
  rw [← BitVec.xor_assoc, xorMiddle, BitVec.xor_assoc a q q, BitVec.xor_self, BitVec.xor_zero]

theorem shiftXor (a b : BitVec w) : shift p (a ^^^ b) = shift p a ^^^ shift p b := by
  unfold shift
  rw [BitVec.getLsbD_xor, BitVec.ushiftRight_xor_distrib]
  cases one : a.getLsbD 0 <;> cases two : b.getLsbD 0
  · rfl
  · exact BitVec.xor_assoc _ _ _
  · exact xorMiddle _ _ _
  · exact (xorCancel _ _ _).symm

theorem shiftZero : shift p 0 = 0 := by
  unfold shift
  rw [show (0 : BitVec w).getLsbD 0 = false by simp]
  simp

theorem shiftsXor (n : Nat) (a b : BitVec w) : shifts p n (a ^^^ b) = shifts p n a ^^^ shifts p n b := by
  unfold shifts
  induction n generalizing a b with
  | zero => rfl
  | succ n ih => rw [Function.iterate_succ_apply, Function.iterate_succ_apply, Function.iterate_succ_apply, shiftXor, ih]

theorem shiftsZero (n : Nat) : shifts p n 0 = 0 := Function.iterate_fixed (shiftZero p) n

/- The polynomial's top bit tells which of the two ways a shift went. -/
theorem shiftInjective (top : p.getLsbD (w - 1) = true) : Function.Injective (shift p) := by
  have positive : 0 < w := by
    rcases Nat.eq_zero_or_pos w with rfl | positive
    · simp at top
    · exact positive
  have fell (c : BitVec w) : (shift p c).getLsbD (w - 1) = c.getLsbD 0 := by
    unfold shift
    have clear : (c >>> 1).getLsbD (w - 1) = false := by
      rw [BitVec.getLsbD_ushiftRight]
      exact BitVec.getLsbD_of_ge c _ (by omega)
    cases low : c.getLsbD 0
    · rw [if_neg (by simp)]
      exact clear
    · rw [if_pos rfl, BitVec.getLsbD_xor, clear, top]
      rfl
  intro a b same
  have low : a.getLsbD 0 = b.getLsbD 0 := by rw [← fell a, ← fell b, same]
  have high : a >>> 1 = b >>> 1 := by
    unfold shift at same
    rw [low] at same
    cases fed : b.getLsbD 0
    · rwa [fed, if_neg (by simp), if_neg (by simp)] at same
    · rw [fed, if_pos rfl, if_pos rfl] at same
      exact (BitVec.xor_left_inj p).mp same
  apply BitVec.eq_of_getLsbD_eq
  intro i inside
  cases i with
  | zero => exact low
  | succ i =>
    have := congrArg (fun c : BitVec w => c.getLsbD i) high
    simpa [BitVec.getLsbD_ushiftRight, Nat.add_comm] using this

theorem shiftsInjective (top : p.getLsbD (w - 1) = true) (n : Nat) : Function.Injective (shifts p n) :=
  (shiftInjective p top).iterate n

end Shifts

section Streams

theorem bitXor (x y : Bool) : (bit (x ^^ y) : BitVec w) = bit x ^^^ bit y := by
  apply BitVec.eq_of_getLsbD_eq
  intro i inside
  rw [BitVec.getLsbD_xor, bitLow, bitLow, bitLow]
  cases x <;> cases y <;> simp

theorem xorPairs (a b x y : BitVec w) : (a ^^^ b) ^^^ (x ^^^ y) = (a ^^^ x) ^^^ (b ^^^ y) := by
  rw [BitVec.xor_assoc, ← BitVec.xor_assoc b x y, BitVec.xor_comm b x, BitVec.xor_assoc x b y, ← BitVec.xor_assoc]

theorem feedXor (a b : BitVec w) (x y : Bool) : feed p (a ^^^ b) (x ^^ y) = feed p a x ^^^ feed p b y := by
  unfold feed
  rw [bitXor, xorPairs, shiftXor]

/- What two streams leave differs by what their difference leaves. -/
theorem absorbXor (xs ys : List Bool) (a b : BitVec w) (same : xs.length = ys.length) :
    absorb p (a ^^^ b) (List.zipWith xor xs ys) = absorb p a xs ^^^ absorb p b ys := by
  unfold absorb
  induction xs generalizing ys a b with
  | nil =>
    obtain rfl := List.length_eq_zero_iff.mp same.symm
    rfl
  | cons x xs ih =>
    cases ys with
    | nil => cases same
    | cons y ys =>
      rw [List.zipWith_cons_cons, List.foldl_cons, List.foldl_cons, List.foldl_cons, feedXor]
      exact ih ys _ _ (Nat.succ.inj same)

theorem absorbAppend (c : BitVec w) (xs ys : List Bool) : absorb p c (xs ++ ys) = absorb p (absorb p c xs) ys :=
  List.foldl_append

theorem feedFalse (c : BitVec w) : feed p c false = shift p c := by
  have none : (bit false : BitVec w) = 0 := by
    apply BitVec.eq_of_getLsbD_eq
    intro i inside
    rw [bitLow]
    simp
  rw [feed, none]
  exact congrArg (shift p) (BitVec.xor_zero)

theorem absorbFalse {bits : List Bool} (clear : ∀ b ∈ bits, b = false) (c : BitVec w) :
    absorb p c bits = shifts p bits.length c := by
  unfold absorb shifts
  induction bits generalizing c with
  | nil => rfl
  | cons b bits ih =>
    rw [List.foldl_cons, clear b List.mem_cons_self, feedFalse, ih (fun b mem => clear b (List.mem_cons_of_mem _ mem)),
      List.length_cons, Function.iterate_succ_apply]

theorem wordLow (bits : List Bool) (i : Nat) : (word bits : BitVec w).getLsbD i = (decide (i < w) && bits.getD i false) := by
  induction bits generalizing i with
  | nil =>
    show (0 : BitVec w).getLsbD i = _
    simp
  | cons b bits ih =>
    rw [word, BitVec.getLsbD_xor, BitVec.getLsbD_shiftLeft, ih, bitLow]
    cases i with
    | zero => cases Nat.decLt 0 w <;> simp_all
    | succ i =>
      by_cases inside : i + 1 < w
      · have low : i < w := by omega
        simp [inside, low]
      · simp [inside]

/- Where the lowest bit is clear, a shift moves the rest down. -/
theorem shiftDown (x : BitVec w) (room : x.getLsbD (w - 1) = false) : shift p (x <<< 1) = x := by
  unfold shift
  rcases Nat.eq_zero_or_pos w with rfl | positive
  · exact Subsingleton.elim _ _
  rw [if_neg (by simp)]
  apply BitVec.eq_of_getLsbD_eq
  intro i inside
  rw [BitVec.getLsbD_ushiftRight, BitVec.getLsbD_shiftLeft]
  by_cases last : 1 + i < w
  · simp [last]
  · obtain rfl : i = w - 1 := by omega
    simp [last, room]

theorem shiftsDown (n : Nat) (x : BitVec w) (room : ∀ i, w ≤ i + n → x.getLsbD i = false) : shifts p n (x <<< n) = x := by
  unfold shifts
  induction n generalizing x with
  | zero => exact BitVec.shiftLeft_zero x
  | succ n ih =>
    rw [Function.iterate_succ_apply, BitVec.shiftLeft_add, shiftDown]
    · exact ih x fun i high => room i (by omega)
    · rw [BitVec.getLsbD_shiftLeft, room _ (by omega)]
      simp

/- A shift takes the lowest bit of what a register holds, and the rest moves down. -/
theorem shiftPushed (c x : BitVec w) (b : Bool) (room : x.getLsbD (w - 1) = false) :
    shift p (c ^^^ ((x <<< 1) ^^^ bit b)) = feed p c b ^^^ x := by
  unfold feed
  rw [BitVec.xor_comm (x <<< 1), ← BitVec.xor_assoc, shiftXor, shiftDown p x room]

/- A stream no longer than the register is as good as a word put into it at once. -/
theorem absorbWord {bits : List Bool} (fits : bits.length ≤ w) (c : BitVec w) :
    absorb p c bits = shifts p bits.length (c ^^^ word bits) := by
  unfold absorb shifts
  induction bits generalizing c with
  | nil =>
    show c = c ^^^ 0
    exact (BitVec.xor_zero).symm
  | cons b bits ih =>
    rw [List.length_cons] at fits
    rw [List.foldl_cons, ih (by omega), List.length_cons, Function.iterate_succ_apply, word, shiftPushed]
    rw [wordLow, List.getD_eq_default _ _ (by omega), Bool.and_false]

/- Errors within a burst that fits the register leave a trace in it. -/
theorem burstTraced (top : p.getLsbD (w - 1) = true) {errors : List Bool} {k : Nat}
    (within : ∀ i, errors.getD i false = true → k ≤ i ∧ i < k + w) (some : ∃ i, errors.getD i false = true) :
    absorb p 0 errors ≠ 0 := by
  have before : absorb p 0 (errors.take k) = 0 := by
    rw [absorbFalse p, shiftsZero]
    intro b mem
    obtain ⟨i, low, rfl⟩ := List.mem_iff_getElem.mp mem
    rw [List.length_take] at low
    rw [List.getElem_take]
    by_contra set
    have hit := within i (by rw [List.getD_eq_getElem _ _ (by omega)]; simpa using set)
    omega
  have after : ∀ b ∈ (errors.drop k).drop w, b = false := by
    intro b mem
    obtain ⟨i, low, rfl⟩ := List.mem_iff_getElem.mp mem
    rw [List.drop_drop, List.length_drop] at low
    rw [List.getElem_drop, List.getElem_drop]
    by_contra set
    have hit := within (k + (w + i)) (by rw [List.getD_eq_getElem _ _ (by omega)]; simpa using set)
    omega
  have burst : (word ((errors.drop k).take w) : BitVec w) ≠ 0 := by
    obtain ⟨i, set⟩ := some
    obtain ⟨low, high⟩ := within i set
    intro zero
    have clear := congrArg (fun c : BitVec w => c.getLsbD (i - k)) zero
    simp only [wordLow, List.getD_eq_getElem?_getD, List.getElem?_take, List.getElem?_drop] at clear
    rw [List.getD_eq_getElem?_getD] at set
    rw [if_pos (by omega), show k + (i - k) = i by omega, set] at clear
    simp at clear
    omega
  have split : errors = errors.take k ++ ((errors.drop k).take w ++ (errors.drop k).drop w) := by
    rw [List.take_append_drop, List.take_append_drop]
  have fits : ((errors.drop k).take w).length ≤ w := by
    rw [List.length_take]
    exact Nat.min_le_left _ _
  rw [split, absorbAppend, absorbAppend, before, absorbFalse p after, absorbWord p fits,
    show (0 : BitVec w) ^^^ word ((errors.drop k).take w) = word ((errors.drop k).take w) from BitVec.zero_xor]
  intro lost
  have none := shiftsInjective p top _ (lost.trans (shiftsZero p _).symm)
  exact burst (shiftsInjective p top _ (none.trans (shiftsZero p _).symm))

end Streams
end Xchannel.ShiftRegister
