import Xchannel.Codecs

/-! Burst damage: no change of a body or an extension within 32 consecutive bits goes unnoticed. The stored
CRC continues the stream of bits it covers, and leaves the register with the same value in every body. -/
namespace Xchannel.BurstErrors
open ByteMemory Format StoreRuns ShiftRegister Checksum Codecs

/- The bits of a byte string, byte by byte, each from its lowest. -/
def bitAt (bytes : Nat → UInt8) (n : Nat) : Bool := (bytes (n / 8)).toBitVec.getLsbD (n % 8)

/- The bits that differ all lie within 32 consecutive ones. -/
def Near (len : Nat) (x y : Nat → UInt8) : Prop :=
  ∃ k, ∀ n, n < 8 * len → bitAt x n ≠ bitAt y n → k ≤ n ∧ n < k + 32

structure Burst (len : Nat) (x y : Nat → UInt8) : Prop where
  differ : ∃ n, n < 8 * len ∧ bitAt x n ≠ bitAt y n
  within : Near len x y

section Streams

theorem bitsLength (bytes : List UInt8) : (bitsOf bytes).length = 8 * bytes.length := by
  rw [← wordBits, List.length_map, List.length_range]

theorem bitsGet (bytes : List UInt8) (n : Nat) : (bitsOf bytes).getD n false = bitAt (fun i => bytes.getD i 0) n := by
  induction bytes generalizing n with
  | nil =>
    show false = BitVec.getLsbD (0 : UInt8).toBitVec (n % 8)
    simp
  | cons b bytes ih =>
    have eight : (dataBits b.toBitVec).length = 8 := by simp [dataBits]
    rw [bitsOfCons, List.getD_eq_getElem?_getD]
    by_cases low : n < 8
    · rw [List.getElem?_append_left (by omega), dataBits, List.getElem?_map, List.getElem?_range low]
      unfold bitAt
      rw [Nat.div_eq_of_lt low, Nat.mod_eq_of_lt low]
      rfl
    · have next : n / 8 = (n - 8) / 8 + 1 := by omega
      have rest : n % 8 = (n - 8) % 8 := by omega
      rw [List.getElem?_append_right (by omega), eight, ← List.getD_eq_getElem?_getD, ih]
      unfold bitAt
      rw [next, rest]
      rfl

/- A burst changes what the register holds. -/
theorem burstChanges {xs ys : List UInt8} (same : xs.length = ys.length)
    (burst : Burst xs.length (fun i => xs.getD i 0) (fun i => ys.getD i 0)) (c : UInt32) :
    crcBits c (bitsOf xs) ≠ crcBits c (bitsOf ys) := by
  intro equal
  have lengths : (bitsOf xs).length = (bitsOf ys).length := by rw [bitsLength, bitsLength, same]
  have error (n : Nat) : (List.zipWith xor (bitsOf xs) (bitsOf ys)).getD n false = true ↔
      n < 8 * xs.length ∧ bitAt (fun i => xs.getD i 0) n ≠ bitAt (fun i => ys.getD i 0) n := by
    rw [← bitsGet, ← bitsGet]
    by_cases inside : n < 8 * xs.length
    · have low : n < (bitsOf xs).length := by rwa [bitsLength]
      have low' : n < (bitsOf ys).length := by rwa [← lengths]
      rw [List.getD_eq_getElem _ _ low, List.getD_eq_getElem _ _ low', List.getD_eq_getElem _ _ (by simp; omega),
        List.getElem_zipWith, bne_iff_ne]
      exact ⟨fun h => ⟨inside, h⟩, fun h => h.2⟩
    · rw [List.getD_eq_default _ _ (by rw [List.length_zipWith, ← lengths, Nat.min_self, bitsLength]; omega)]
      exact ⟨nofun, fun h => absurd h.1 inside⟩
  obtain ⟨⟨n, inside, differs⟩, k, within⟩ := burst
  have traced := burstTraced castagnoli castagnoliTop (k := k)
    (fun i set => within i ((error i).mp set).1 ((error i).mp set).2) ⟨n, (error n).mpr ⟨inside, differs⟩⟩
  apply traced
  calc absorb castagnoli 0 (List.zipWith xor (bitsOf xs) (bitsOf ys))
    _ = absorb castagnoli (c.toBitVec ^^^ c.toBitVec) (List.zipWith xor (bitsOf xs) (bitsOf ys)) := by
        rw [BitVec.xor_self]
        rfl
    _ = (crcBits c (bitsOf xs)).toBitVec ^^^ (crcBits c (bitsOf ys)).toBitVec := by
        rw [absorbXor castagnoli _ _ _ _ lengths, crcBitsRegister, crcBitsRegister]
    _ = 0 := by
        rw [equal, BitVec.xor_self]
        rfl

/- The stored CRC, little-endian behind the bytes it covers, brings every register to one value. -/
theorem codeword {covered stored : List UInt8} (four : stored.length = 4)
    (crc : ofLE stored = (crc32c covered).toNat) :
    (crcBits 0xFFFFFFFF (bitsOf (covered ++ stored))).toBitVec = shifts castagnoli 32 (BitVec.allOnes 32) := by
  have length : (bitsOf stored).length = 32 := by rw [bitsLength, four]
  have word : (word (bitsOf stored) : BitVec 32) = ~~~ (crcBits 0xFFFFFFFF (bitsOf covered)).toBitVec := by
    rw [← UInt32.toBitVec_not, ← crcStream]
    apply BitVec.eq_of_getLsbD_eq
    intro i inside
    rw [wordLow, ← wordBits, four, List.getD_eq_getElem?_getD, List.getElem?_map, List.getElem?_range inside,
      decide_eq_true inside, crc]
    rfl
  rw [bitsOfAppend, crcBitsAppend, crcBitsRegister, absorbWord _ (by omega), length, word]
  congr 1
  apply BitVec.eq_of_getLsbD_eq
  intro i inside
  rw [BitVec.getLsbD_xor, BitVec.getLsbD_not, BitVec.getLsbD_allOnes]
  simp [inside]

theorem bitAtCongr {x y : Nat → UInt8} {n : Nat} (same : x (n / 8) = y (n / 8)) : bitAt x n = bitAt y n := by
  unfold bitAt
  rw [same]

theorem byteOfBits {x y : Nat → UInt8} {i : Nat} (same : ∀ n, n / 8 = i → bitAt x n = bitAt y n) : x i = y i := by
  apply UInt8.toBitVec_inj.mp
  apply BitVec.eq_of_getLsbD_eq
  intro j inside
  have bits := same (8 * i + j) (by omega)
  unfold bitAt at bits
  rwa [show (8 * i + j) / 8 = i by omega, show (8 * i + j) % 8 = j by omega] at bits

theorem burstOf {len i : Nat} {x y : Nat → UInt8} (inside : i < len) (changed : x i ≠ y i) (near : Near len x y) :
    Burst len x y := by
  refine ⟨?_, near⟩
  by_contra none
  refine changed (byteOfBits fun n place => ?_)
  by_contra differs
  exact none ⟨n, by omega, differs⟩

/- Bytes that did not change bound what a burst can have hit. -/
theorem Burst.shorten {len short : Nat} {x y : Nat → UInt8} (burst : Burst len x y) (le : short ≤ len)
    (same : ∀ i, short ≤ i → i < len → x i = y i) : Burst short x y := by
  obtain ⟨⟨n, inside, differs⟩, k, within⟩ := burst
  refine ⟨⟨n, ?_, differs⟩, k, fun n inside => within n (by omega)⟩
  by_contra outside
  exact differs (bitAtCongr (same _ (by omega) (by omega)))

theorem Burst.congr {len : Nat} {x y x' y' : Nat → UInt8} (burst : Burst len x y) (left : ∀ i, i < len → x i = x' i)
    (right : ∀ i, i < len → y i = y' i) : Burst len x' y' := by
  have bits (n : Nat) (inside : n < 8 * len) : bitAt x n = bitAt x' n ∧ bitAt y n = bitAt y' n :=
    ⟨bitAtCongr (left _ (by omega)), bitAtCongr (right _ (by omega))⟩
  obtain ⟨⟨n, inside, differs⟩, k, within⟩ := burst
  refine ⟨⟨n, inside, ?_⟩, k, fun n inside differs => within n inside ?_⟩
  · rwa [← (bits n inside).1, ← (bits n inside).2]
  · rwa [(bits n inside).1, (bits n inside).2]

end Streams

section Rolls

/- The bytes under the CRC and the CRC itself are one stream; the rest of a body is compared. -/
theorem decodeStream {b : List UInt8} {e : RollEdge} (decodes : RollEdge.decode b = .ok e) :
    (crcBits 0xFFFFFFFF (bitsOf (b.take 36))).toBitVec = shifts castagnoli 32 (BitVec.allOnes 32) := by
  obtain ⟨whole, crc, _⟩ := decodeOk.mp decodes
  rw [List.take_add (i := 32) (j := 4)]
  exact codeword (by rw [List.length_take, List.length_drop]; omega) crc

theorem decodeReserved {b : List UInt8} {e : RollEdge} (decodes : RollEdge.decode b = .ok e) {i : Nat} (lo : 36 ≤ i)
    (hi : i < 40) : b.getD i 0 = 0 := by
  obtain ⟨_, _, reserved, _⟩ := decodeOk.mp decodes
  obtain ⟨j, rfl⟩ := Nat.exists_eq_add_of_le lo
  have taken : ((b.drop 36).take 4)[j]? = b[36 + j]? := by rw [List.getElem?_take_of_lt (by omega), List.getElem?_drop]
  rw [List.getD_eq_getElem?_getD, ← taken, reserved]
  obtain rfl | rfl | rfl | rfl : j = 0 ∨ j = 1 ∨ j = 2 ∨ j = 3 := by omega
  all_goals rfl

theorem rollBurst {b b' : List UInt8} {e : RollEdge} (decodes : RollEdge.decode b = .ok e) (same : b'.length = b.length)
    (burst : Burst b.length (fun i => b.getD i 0) (fun i => b'.getD i 0)) :
    ∃ err, RollEdge.decode b' = .error err := by
  have whole := (decodeOk.mp decodes).1
  cases result : RollEdge.decode b' with
  | error err => exact ⟨err, rfl⟩
  | ok e' =>
    rw [whole] at burst
    have front : Burst (b.take 36).length (fun i => (b.take 36).getD i 0) (fun i => (b'.take 36).getD i 0) := by
      rw [List.length_take, whole]
      have shortened : Burst 36 (fun i => b.getD i 0) (fun i => b'.getD i 0) := by
        refine burst.shorten (by omega) ?_
        intro i lo hi
        show b.getD i 0 = b'.getD i 0
        rw [decodeReserved decodes lo hi, decodeReserved result lo hi]
      refine shortened.congr ?_ ?_
      all_goals
        intro i low
        simp only [List.getD_eq_getElem?_getD]
        rw [List.getElem?_take_of_lt low]
    refine absurd ?_ (burstChanges (by simp only [List.length_take, same]) front 0xFFFFFFFF)
    exact UInt32.toBitVec_inj.mp ((decodeStream decodes).trans (decodeStream result).symm)

end Rolls

section Extensions

theorem identityBytes {m : Mem} {i : Identity} (accepted : extIdentity m = .ok i) : i.bytes = slice m 144 40 := by
  obtain ⟨rfl, _⟩ := identityOk.mp accepted
  have known (off : Nat) : (BitVec.ofNat 128 (readLE m off 16)).toNat = readLE m off 16 := by
    rw [BitVec.toNat_ofNat]
    exact Nat.mod_eq_of_lt (readLELt m off 16)
  have field (off width : Nat) : slice m off width = toLE width (readLE m off width) := sliceOfReadLE rfl
  rw [Identity.bytes, known, known, ← field, ← field, ← field, sliceAppend m 144 32 8, sliceAppend m 144 16 16]

theorem reservedSame {m m' : Mem} {i i' : Identity} (one : extIdentity m = .ok i) (two : extIdentity m' = .ok i') {a : Nat}
    (place : 184 ≤ a ∧ a < 192 ∨ 193 ≤ a ∧ a < 196 ∨ 200 ≤ a ∧ a < 208) : m a = m' a := by
  obtain ⟨_, _, ⟨zero, zero', zero''⟩, _⟩ := identityOk.mp one
  obtain ⟨_, _, ⟨none, none', none''⟩, _⟩ := identityOk.mp two
  rcases place with ⟨lo, hi⟩ | ⟨lo, hi⟩ | ⟨lo, hi⟩
  · exact sliceBytes ((sliceOfReadLE zero).trans (sliceOfReadLE none).symm) lo hi
  · exact sliceBytes ((sliceOfReadLE zero').trans (sliceOfReadLE none').symm) lo hi
  · exact sliceBytes ((sliceOfReadLE zero'').trans (sliceOfReadLE none'').symm) lo hi

/- Two stored CRCs agree exactly when the registers over the bytes they cover do. -/
theorem crcSame {m m' : Mem} {i i' : Identity} (one : extIdentity m = .ok i) (two : extIdentity m' = .ok i') :
    slice m 196 4 = slice m' 196 4 ↔
      crcBits 0xFFFFFFFF (bitsOf (slice m 144 40)) = crcBits 0xFFFFFFFF (bitsOf (slice m' 144 40)) := by
  have stored {m : Mem} {i : Identity} (accepted : extIdentity m = .ok i) :
      readLE m 196 4 = (~~~ crcBits 0xFFFFFFFF (bitsOf (slice m 144 40))).toNat := by
    obtain ⟨_, _, _, crc, _⟩ := identityOk.mp accepted
    rw [crc, crcStream, identityBytes accepted]
  constructor
  · intro same
    have value : readLE m 196 4 = readLE m' 196 4 := congrArg ofLE same
    rw [stored one, stored two] at value
    exact UInt32.not_inj.mp (UInt32.toNat_inj.mp value)
  · intro same
    rw [sliceOfReadLE (stored one), sliceOfReadLE (stored two), same]

theorem extensionBurst {m m' : Mem} {i : Identity} (accepted : extIdentity m = .ok i) (state : m' 192 = m 192)
    (burst : Burst 64 (fun a => m (144 + a)) (fun a => m' (144 + a))) : ∃ err, extIdentity m' = .error err := by
  cases result : extIdentity m' with
  | error err => exact ⟨err, rfl⟩
  | ok i' =>
    have reserved {a : Nat} (place : 184 ≤ a ∧ a < 192 ∨ 193 ≤ a ∧ a < 196 ∨ 200 ≤ a ∧ a < 208) : m a = m' a :=
      reservedSame accepted result place
    by_cases same : slice m 144 40 = slice m' 144 40
    · -- Only the stored CRC could have changed, and what it covers fixes it.
      have crc := (crcSame accepted result).mpr (by rw [same])
      obtain ⟨⟨n, inside, differs⟩, _⟩ := burst
      refine absurd (bitAtCongr ?_) differs
      show m (144 + n / 8) = m' (144 + n / 8)
      rcases Nat.lt_or_ge (n / 8) 40 with covered | rest
      · exact sliceBytes same (by omega) (by omega)
      · by_cases publication : n / 8 = 48
        · rw [publication]
          exact state.symm
        · by_cases check : 52 ≤ n / 8 ∧ n / 8 < 56
          · exact sliceBytes crc (by omega) (by omega)
          · exact reserved (by omega)
    · -- The burst begins in what is covered, and ends before the stored CRC.
      obtain ⟨a, low, changed⟩ : ∃ a, a < 40 ∧ m (144 + a) ≠ m' (144 + a) := by
        by_contra none
        refine same (sliceCongr fun a lo hi => ?_)
        by_contra changed
        obtain ⟨j, rfl⟩ := Nat.exists_eq_add_of_le lo
        exact none ⟨j, by omega, changed⟩
      obtain ⟨n, rfl, differs⟩ : ∃ n, n / 8 = a ∧ bitAt (fun a => m (144 + a)) n ≠ bitAt (fun a => m' (144 + a)) n := by
        by_contra none
        refine changed (byteOfBits (x := fun a => m (144 + a)) (y := fun a => m' (144 + a)) fun n place => ?_)
        by_contra differs
        exact none ⟨n, place, differs⟩
      have beyond : ∀ i, 40 ≤ i → i < 64 → i ≠ 48 → m (144 + i) = m' (144 + i) := by
        intro i lo hi apart
        rcases Nat.lt_or_ge i 52 with near | far
        · exact reserved (by omega)
        · refine byteOfBits (x := fun a => m (144 + a)) (y := fun a => m' (144 + a)) fun n' place => ?_
          by_contra hit
          obtain ⟨_, k, within⟩ := burst
          have first := within n (by omega) differs
          have second := within n' (by omega) hit
          omega
      have shortened : Burst 40 (fun a => m (144 + a)) (fun a => m' (144 + a)) := burst.shorten (by omega) fun i lo hi => by
        by_cases publication : i = 48
        · rw [publication]
          exact state.symm
        · exact beyond i lo hi publication
      have whole (m : Mem) : ∀ i, i < 40 → m (144 + i) = (slice m 144 40).getD i 0 := by
        intro i low
        simp only [List.getD_eq_getElem?_getD]
        rw [sliceGet _ _ _ _ low]
        rfl
      have front : Burst 40 (fun a => (slice m 144 40).getD a 0) (fun a => (slice m' 144 40).getD a 0) :=
        shortened.congr (whole m) (whole m')
      have crc : slice m 196 4 = slice m' 196 4 := by
        refine sliceCongr fun a lo hi => ?_
        obtain ⟨j, rfl⟩ := Nat.exists_eq_add_of_le (show 144 ≤ a by omega)
        exact beyond j (by omega) (by omega) (by omega)
      refine absurd ((crcSame accepted result).mp crc) (burstChanges (by simp) ?_ _)
      rwa [sliceLength]

end Extensions

/-- For every accepted body and extension, and every other one so close to it. -/
theorem burstsDetected :
    (∀ b e b', RollEdge.decode b = .ok e → b'.length = b.length → b' ≠ b →
      Near b.length (fun i => b.getD i 0) (fun i => b'.getD i 0) → ∃ err, RollEdge.decode b' = .error err) ∧
    (∀ m i m', extIdentity m = .ok i → m' 192 = m 192 → (∃ a, a < 64 ∧ m' (144 + a) ≠ m (144 + a)) →
      Near 64 (fun a => m (144 + a)) (fun a => m' (144 + a)) → ∃ err, extIdentity m' = .error err) := by
  constructor
  · intro b e b' decodes same other near
    obtain ⟨i, inside, changed⟩ : ∃ i, i < b.length ∧ b.getD i 0 ≠ b'.getD i 0 := by
      by_contra none
      refine other (List.ext_getElem same fun i low low' => ?_)
      by_contra changed
      refine none ⟨i, low', ?_⟩
      rw [List.getD_eq_getElem _ _ low', List.getD_eq_getElem _ _ low]
      exact Ne.symm changed
    exact rollBurst decodes same (burstOf inside changed near)
  · rintro m i m' accepted state ⟨a, inside, changed⟩ near
    exact extensionBurst accepted state (burstOf inside (Ne.symm changed) near)

/- A body and an extension with another first byte. -/
theorem burstsDetectedSmall :
    (∃ err, RollEdge.decode ((RollEdge.encode ⟨1, 2, 3⟩).set 0 9) = .error err) ∧
    (∃ err, extIdentity (write (writes (fun _ => 0) (initPrepared (Identity.initial 7))) 144 [9]) = .error err) := by
  have early {x y : Nat → UInt8} (same : ∀ i, i ≠ 0 → x i = y i) (len : Nat) : Near len x y := by
    refine ⟨0, fun n _ differs => ⟨Nat.zero_le n, ?_⟩⟩
    by_contra later
    exact differs (bitAtCongr (same _ (by omega)))
  constructor
  · refine burstsDetected.1 _ ⟨1, 2, 3⟩ _ (decodeEncode (by decide) (by decide) (by decide)) (by simp) ?_ (early ?_ _)
    · decide +kernel
    · intro i apart
      simp only [List.getD_eq_getElem?_getD]
      rw [List.getElem?_set_ne (Ne.symm apart)]
  · refine burstsDetected.2 _ (Identity.initial 7) _ (identityPrepared _ (by decide) (by decide) (by decide)) rfl ⟨0, by decide, by decide +kernel⟩ (early ?_ _)
    intro a apart
    show _ = if _ then _ else _
    rw [if_neg (by simp only [List.length_cons, List.length_nil]; omega)]

end Xchannel.BurstErrors
