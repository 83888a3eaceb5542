import Xchannel.Checksum
import Xchannel.StoreRuns

/-! The two layouts of format v4, the `Roll` body and the header extension: what is encoded is read back,
and what is accepted is what is encoded, but for the publication state. -/
namespace Xchannel.Codecs
open ByteMemory Format WriterCalls StoreRuns

section Rolls

theorem decodeOk {b : List UInt8} {e : RollEdge} :
    RollEdge.decode b = .ok e ↔ b.length = 40 ∧ ofLE ((b.drop 32).take 4) = (crc32c (b.take 32)).toNat ∧
      (b.drop 36).take 4 = [0, 0, 0, 0] ∧ e.nextInstance ≠ 0 ∧
      e = ⟨ofLE (b.take 8), BitVec.ofNat 128 (ofLE ((b.drop 8).take 16)), ofLE ((b.drop 24).take 8)⟩ := by
  simp only [RollEdge.decode, bind, Except.bind, pure, Except.pure, throw, throwThe, MonadExceptOf.throw]
  rw [refusedOk, refusedOk, refusedOk, refusedOk]
  simp only [ne_eq, not_not, Except.ok.injEq]
  constructor
  · rintro ⟨whole, crc, reserved, nonzero, rfl⟩
    exact ⟨whole, crc, reserved, nonzero, rfl⟩
  · rintro ⟨whole, crc, reserved, nonzero, rfl⟩
    exact ⟨whole, crc, reserved, nonzero, rfl⟩

/- A field of a body, from its value. -/
theorem fieldBytes {b : List UInt8} {off width : Nat} (inside : off + width ≤ b.length) :
    toLE width (ofLE ((b.drop off).take width)) = (b.drop off).take width := by
  have whole : ((b.drop off).take width).length = width := by
    rw [List.length_take, List.length_drop]
    omega
  have back := toLEOfLE ((b.drop off).take width)
  rwa [whole] at back

theorem decodeCanonical {b : List UInt8} {e : RollEdge} (decodes : RollEdge.decode b = .ok e) : b = e.encode := by
  obtain ⟨whole, crc, reserved, _, rfl⟩ := decodeOk.mp decodes
  have instanceSmall : ofLE ((b.drop 8).take 16) % 2 ^ 128 = ofLE ((b.drop 8).take 16) := by
    refine Nat.mod_eq_of_lt (Nat.lt_of_lt_of_le (ofLELt _) ?_)
    rw [List.length_take, List.length_drop, whole]
    decide
  have first : toLE 8 (ofLE (b.take 8)) = b.take 8 := @fieldBytes b 0 8 (by omega)
  have covered : RollEdge.covered ⟨ofLE (b.take 8), BitVec.ofNat 128 (ofLE ((b.drop 8).take 16)), ofLE ((b.drop 24).take 8)⟩ =
      b.take 32 := by
    unfold RollEdge.covered
    rw [BitVec.toNat_ofNat, instanceSmall, first, fieldBytes (by omega), fieldBytes (by omega), ← List.take_add,
      ← List.take_add]
  unfold RollEdge.encode
  rw [covered, ← crc, fieldBytes (by omega), ← reserved, ← List.take_add, ← List.take_add]
  exact (List.take_of_length_le (by omega)).symm

/- An edge out of a file names exactly the file that is its child. -/
theorem afterNames {sequence base count : Nat} {inst : InstanceId} {e : RollEdge}
    (made : RollEdge.after sequence base count inst = .ok e) (parent : InstanceId) (next : Identity) :
    e.names sequence parent next = true ↔ next = Identity.successor inst parent sequence := by
  simp only [RollEdge.after, bind, Except.bind, pure, Except.pure, throw, throwThe, MonadExceptOf.throw] at made
  rw [refusedOk, refusedOk] at made
  obtain ⟨more, _, made⟩ := made
  cases made
  unfold RollEdge.names Identity.successor
  simp only [Bool.and_eq_true, beq_iff_eq, decide_eq_true_eq]
  constructor
  · rintro ⟨⟨⟨rfl, rfl⟩, rfl⟩, _⟩
    rfl
  · rintro rfl
    exact ⟨⟨⟨rfl, rfl⟩, rfl⟩, trivial, by omega⟩

end Rolls

section Extensions

/- `init_prepared`: the stores of the extension at the end of the channel header. -/
def initPrepared (identity : Identity) : Fields :=
  [(144, toLE 16 identity.fileInstance.toNat), (160, toLE 16 identity.predecessor.toNat),
   (176, toLE 8 identity.predecessorSequence), (184, toLE 8 0), (192, [0]), (193, toLE 3 0),
   (196, toLE 4 (crc32c identity.bytes).toNat), (200, toLE 8 0)]

theorem channelStoresEnd (sequence R mtu : Nat) (name : List UInt8) (base gen : Nat) (identity : Identity) :
    channelStores sequence R mtu name base gen identity =
      (channelStores sequence R mtu name base gen identity).take 22 ++ initPrepared identity := rfl

theorem identityOk {m : Mem} {i : Identity} :
    extIdentity m = .ok i ↔
      i = ⟨BitVec.ofNat 128 (readLE m 144 16), BitVec.ofNat 128 (readLE m 160 16), readLE m 176 8⟩ ∧
      i.fileInstance ≠ 0 ∧ (readLE m 184 8 = 0 ∧ readLE m 193 3 = 0 ∧ readLE m 200 8 = 0) ∧
      readLE m 196 4 = (crc32c i.bytes).toNat ∧ (i.predecessor = 0 ↔ i.predecessorSequence = u64Max) := by
  simp only [extIdentity, bind, Except.bind, pure, Except.pure, throw, throwThe, MonadExceptOf.throw]
  rw [refusedOk, refusedOk, refusedOk, refusedOk]
  simp only [ne_eq, not_not, not_or, Except.ok.injEq]
  constructor
  · rintro ⟨nonzero, reserved, crc, parent, rfl⟩
    exact ⟨rfl, nonzero, reserved, crc, parent⟩
  · rintro ⟨rfl, nonzero, reserved, crc, parent⟩
    exact ⟨nonzero, reserved, crc, parent, rfl⟩

theorem preparedLater {i : Identity} {k off width : Nat}
    (h : ∀ x ∈ [(144, 16), (160, 16), (176, 8), (184, 8), (192, 1), (193, 3), (196, 4), (200, 8)].drop (k + 1),
      x.1 + x.2 ≤ off ∨ off + width ≤ x.1) : ∀ f ∈ (initPrepared i).drop (k + 1), Misses f off width := by
  have laid : (initPrepared i).map (fun f => (f.1, f.2.length)) =
      [(144, 16), (160, 16), (176, 8), (184, 8), (192, 1), (193, 3), (196, 4), (200, 8)] := by simp [initPrepared]
  intro f mem
  refine h (f.1, f.2.length) ?_
  rw [← laid, ← List.map_drop]
  exact List.mem_map_of_mem mem

theorem identityPrepared (m : Mem) {i : Identity} (nonzero : i.fileInstance ≠ 0) (small : i.predecessorSequence < usize)
    (sentinels : i.predecessor = 0 ↔ i.predecessorSequence = u64Max) : extIdentity (writes m (initPrepared i)) = .ok i := by
  have field (k off width n : Nat) (stored : (initPrepared i)[k]? = some (off, toLE width n))
      (h : ∀ x ∈ [(144, 16), (160, 16), (176, 8), (184, 8), (192, 1), (193, 3), (196, 4), (200, 8)].drop (k + 1),
        x.1 + x.2 ≤ off ∨ off + width ≤ x.1) : readLE (writes m (initPrepared i)) off width = n % 256 ^ width :=
    fieldWrites stored (preparedLater h)
  rw [identityOk]
  refine ⟨?_, nonzero, ⟨?_, ?_, ?_⟩, ?_, sentinels⟩
  · rw [field 0 144 16 _ rfl (by decide), field 1 160 16 _ rfl (by decide), field 2 176 8 _ rfl (by decide)]
    have one : i.fileInstance.toNat % 256 ^ 16 = i.fileInstance.toNat := Nat.mod_eq_of_lt i.fileInstance.isLt
    have two : i.predecessor.toNat % 256 ^ 16 = i.predecessor.toNat := Nat.mod_eq_of_lt i.predecessor.isLt
    have three : i.predecessorSequence % 256 ^ 8 = i.predecessorSequence := Nat.mod_eq_of_lt small
    rw [one, two, three]
    simp
  · exact field 3 184 8 0 rfl (by decide)
  · exact field 5 193 3 0 rfl (by decide)
  · exact field 7 200 8 0 rfl (by decide)
  · rw [field 6 196 4 _ rfl (by decide)]
    exact Nat.mod_eq_of_lt (crc32c i.bytes).toNat_lt

theorem sliceBytes {m m' : Mem} {off width : Nat} (same : slice m off width = slice m' off width) {a : Nat} (lo : off ≤ a)
    (hi : a < off + width) : m a = m' a := by
  obtain ⟨i, rfl⟩ := Nat.exists_eq_add_of_le lo
  have one := sliceGet m off width i (by omega)
  rw [same, sliceGet m' off width i (by omega)] at one
  exact (Option.some.inj one).symm

/- Every byte but the publication state is compared, covered or decoded. -/
theorem identityCanonical {m : Mem} {i : Identity} (accepted : extIdentity m = .ok i) (m' : Mem) {a : Nat} (lo : 144 ≤ a)
    (hi : a < 208) (apart : a ≠ 192) : m a = writes m' (initPrepared i) a := by
  obtain ⟨same, _, ⟨zero, zero', zero''⟩, crc, _⟩ := identityOk.mp accepted
  have field (k off width n : Nat) (value : readLE m off width = n) (stored : (initPrepared i)[k]? = some (off, toLE width n))
      (h : ∀ x ∈ [(144, 16), (160, 16), (176, 8), (184, 8), (192, 1), (193, 3), (196, 4), (200, 8)].drop (k + 1),
        x.1 + x.2 ≤ off ∨ off + width ≤ x.1) (lo : off ≤ a) (hi : a < off + width) : m a = writes m' (initPrepared i) a := by
    refine sliceBytes ?_ lo hi
    have bytes := sliceWrites (m := m') stored (by rw [toLELength]; exact preparedLater h)
    rw [toLELength] at bytes
    rw [bytes]
    exact sliceOfReadLE value
  have known (off : Nat) : (BitVec.ofNat 128 (readLE m off 16)).toNat = readLE m off 16 := by
    rw [BitVec.toNat_ofNat]
    exact Nat.mod_eq_of_lt (readLELt m off 16)
  have file : readLE m 144 16 = i.fileInstance.toNat := by rw [same]; exact (known 144).symm
  have parent : readLE m 160 16 = i.predecessor.toNat := by rw [same]; exact (known 160).symm
  have sequence : readLE m 176 8 = i.predecessorSequence := by rw [same]
  rcases Nat.lt_or_ge a 160 with in0 | out0
  · exact field 0 144 16 _ file rfl (by decide) lo in0
  rcases Nat.lt_or_ge a 176 with in1 | out1
  · exact field 1 160 16 _ parent rfl (by decide) out0 in1
  rcases Nat.lt_or_ge a 184 with in2 | out2
  · exact field 2 176 8 _ sequence rfl (by decide) out1 in2
  rcases Nat.lt_or_ge a 192 with in3 | out3
  · exact field 3 184 8 0 zero rfl (by decide) out2 in3
  rcases Nat.lt_or_ge a 196 with in5 | out5
  · exact field 5 193 3 0 zero' rfl (by decide) (by omega) in5
  rcases Nat.lt_or_ge a 200 with in6 | out6
  · exact field 6 196 4 _ crc rfl (by decide) out5 in6
  · exact field 7 200 8 0 zero'' rfl (by decide) out6 hi

end Extensions

/-- For every edge, every body, every identity and every extension. -/
theorem codecsCanonical :
    (∀ e : RollEdge, e.nextSequence < usize → e.nextBaseRecordIndex < usize → e.nextInstance ≠ 0 →
      RollEdge.decode e.encode = .ok e) ∧
    (∀ b e, RollEdge.decode b = .ok e → b = e.encode) ∧
    (∀ sequence base count inst e, RollEdge.after sequence base count inst = .ok e → ∀ parent next,
      e.names sequence parent next = true ↔ next = Identity.successor inst parent sequence) ∧
    (∀ i : Identity, i.fileInstance ≠ 0 → i.predecessorSequence < usize →
      (i.predecessor = 0 ↔ i.predecessorSequence = u64Max) → ∀ m, extIdentity (writes m (initPrepared i)) = .ok i) ∧
    (∀ m i, extIdentity m = .ok i → ∀ m' a, 144 ≤ a → a < 208 → a ≠ 192 → m a = writes m' (initPrepared i) a) :=
  ⟨fun _ sequence base nonzero => decodeEncode sequence base nonzero, fun _ _ decodes => decodeCanonical decodes,
    fun _ _ _ _ _ made parent next => afterNames made parent next,
    fun _ nonzero small sentinels m => identityPrepared m nonzero small sentinels,
    fun _ _ accepted m' _ lo hi apart => identityCanonical accepted m' lo hi apart⟩

/- An edge to a second file and the identity of a first one, over bytes that were all set. -/
theorem codecsCanonicalSmall :
    RollEdge.decode (RollEdge.encode ⟨1, 2, 3⟩) = .ok ⟨1, 2, 3⟩ ∧
    extIdentity (writes (fun _ => 255) (initPrepared (Identity.initial 7))) = .ok (Identity.initial 7) :=
  ⟨codecsCanonical.1 ⟨1, 2, 3⟩ (by decide) (by decide) (by decide),
    codecsCanonical.2.2.2.1 (Identity.initial 7) (by decide) (by decide) (by decide) _⟩

end Xchannel.Codecs
