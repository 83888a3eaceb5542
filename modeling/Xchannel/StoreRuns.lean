import Xchannel.ChannelLog
import Xchannel.WriterCalls

/-! Runs of plain stores into one file: what they leave in it, field by field, and the whole file
that `init_segment` lays out. -/
namespace Xchannel.StoreRuns
open ByteMemory Format Storage RecordChain SegmentInvariant ChannelInvariant CrashProgram WriterCalls

abbrev Fields := List (Nat × List UInt8)

def writes (m : Mem) (fields : Fields) : Mem := fields.foldl (fun m f => write m f.1 f.2) m

theorem writesAppend (m : Mem) (first rest : Fields) :
    writes m (first ++ rest) = writes (writes m first) rest := List.foldl_append

def Misses (f : Nat × List UInt8) (off width : Nat) : Prop := f.1 + f.2.length ≤ off ∨ off + width ≤ f.1

theorem writesOutside {m : Mem} {fields : Fields} {a : Nat} (out : ∀ f ∈ fields, Misses f a 1) :
    writes m fields a = m a := by
  induction fields generalizing m with
  | nil => rfl
  | cons f fields ih =>
    show writes (write m f.1 f.2) fields a = m a
    rw [ih fun g mem => out g (List.mem_cons_of_mem _ mem)]
    have first := out f List.mem_cons_self
    unfold Misses at first
    exact writeOutside (by omega)

theorem setFileSetFile (d : Disk) (i : Nat) (f f' : File) : (d.setFile i f).setFile i f' = d.setFile i f' := by
  simp only [Disk.setFile, Disk.mk.injEq, and_true]
  funext j
  by_cases h : j = i <;> simp [h]

theorem setFileSelf (d : Disk) (i : Nat) : d.setFile i (d.files i) = d := by
  cases d with
  | mk files fresh segments bound attempts history =>
    simp only [Disk.setFile, Disk.mk.injEq, and_true]
    funext j
    by_cases h : j = i <;> simp [h]

theorem runStores (d : Disk) (ino : Nat) (fields : Fields) :
    run Disk.apply d (stores ino fields) =
      d.setFile ino { d.files ino with data := writes (d.data ino) fields } := by
  induction fields generalizing d with
  | nil => exact (setFileSelf d ino).symm
  | cons f fields ih =>
    show run Disk.apply (d.apply (.store ino f.1 f.2)) (stores ino fields) = _
    rw [ih, Disk.apply, setFileSetFile, setFileSame, setFileData]
    rfl

/- A range keeps the bytes of its last store. -/
theorem sliceWrites {m : Mem} {fields : Fields} {k off : Nat} {bytes : List UInt8} (stored : fields[k]? = some (off, bytes))
    (later : ∀ f ∈ fields.drop (k + 1), Misses f off bytes.length) :
    slice (writes m fields) off bytes.length = bytes := by
  obtain ⟨low, at_k⟩ := List.getElem?_eq_some_iff.mp stored
  have split : fields = fields.take k ++ (off, bytes) :: fields.drop (k + 1) := by
    rw [← at_k, ← List.drop_eq_getElem_cons low, List.take_append_drop]
  rw [split, writesAppend]
  show slice (writes (write _ off bytes) _) off bytes.length = _
  rw [sliceCongr (m := write (writes m (fields.take k)) off bytes) fun a lo hi =>
    writesOutside fun f mem => by
      have apart := later f mem
      unfold Misses at apart ⊢
      omega]
  exact sliceWriteSame _ _ _

/- A field keeps the value of its last store. -/
theorem fieldWrites {m : Mem} {fields : Fields} {k off width n : Nat}
    (stored : fields[k]? = some (off, toLE width n)) (later : ∀ f ∈ fields.drop (k + 1), Misses f off width) :
    readLE (writes m fields) off width = n % 256 ^ width := by
  have bytes := sliceWrites (m := m) stored (by rwa [toLELength])
  rw [toLELength] at bytes
  rw [readLE, bytes, ofLEToLE]

theorem byteWrites {m : Mem} {fields : Fields} {k off : Nat} {b : UInt8}
    (stored : fields[k]? = some (off, [b])) (later : ∀ f ∈ fields.drop (k + 1), Misses f off 1) :
    writes m fields off = b := by
  obtain ⟨low, at_k⟩ := List.getElem?_eq_some_iff.mp stored
  have split : fields = fields.take k ++ (off, [b]) :: fields.drop (k + 1) := by
    rw [← at_k, ← List.drop_eq_getElem_cons low, List.take_append_drop]
  rw [split, writesAppend]
  show writes (write _ off [b]) _ off = _
  rw [writesOutside later]
  exact writeInside (i := 0) rfl

theorem headerWritesOutside {m : Mem} {h : MessageHeader} {p a : Nat} (out : a < p ∨ p + 16 ≤ a) :
    writes m (h.stores p) a = m a := by
  apply writesOutside
  simp only [MessageHeader.stores, List.mem_cons, List.not_mem_nil, or_false, Misses]
  rintro f (rfl | rfl | rfl | rfl | rfl) <;> simp <;> omega

theorem headerWrites (m : Mem) (h : MessageHeader) (p : Nat) :
    MessageHeader.read (writes m (h.stores p)) p = h := by
  have committed : writes m (h.stores p) p = h.committed := by
    apply byteWrites (k := 0) rfl
    simp [MessageHeader.stores, Misses]
  have kind : writes m (h.stores p) (p + 1) = h.headerType := by
    apply byteWrites (k := 1) rfl
    simp [MessageHeader.stores, Misses]
  have messageType : readLE (writes m (h.stores p)) (p + 2) 2 = h.messageType.toNat := by
    rw [fieldWrites (k := 2) rfl (by simp [MessageHeader.stores, Misses])]
    exact Nat.mod_eq_of_lt h.messageType.toNat_lt
  have length : readLE (writes m (h.stores p)) (p + 4) 4 = h.length.toNat := by
    rw [fieldWrites (k := 3) rfl (by simp [MessageHeader.stores, Misses])]
    exact Nat.mod_eq_of_lt h.length.toNat_lt
  have userMeta : readLE (writes m (h.stores p)) (p + 8) 8 = h.userMetaU64.toNat := by
    rw [fieldWrites (k := 4) rfl (by simp [MessageHeader.stores])]
    exact Nat.mod_eq_of_lt h.userMetaU64.toNat_lt
  unfold MessageHeader.read
  rw [committed, kind, messageType, length, userMeta]
  simp

/- Everything `init_segment` stores, up to the first position. -/
def segmentStores (sequence regionSize mtu : Nat) (name : List UInt8) (base gen : Nat)
    (identity : Identity) : Fields :=
  channelStores sequence regionSize mtu name base gen identity ++
    MessageHeader.preinstall.stores firstRecord ++ [(16, toLE 8 (firstRecord + headerSlot))]

/- Where its stores go, and how long they are. -/
def segmentLayout : List (Nat × Nat) :=
  [(0, 1), (4, 4), (1, 1), (2, 2), (8, 8), (16, 8), (24, 8), (32, 8), (40, 8), (48, 4), (52, 4), (56, 2),
   (58, 1), (59, 1), (60, 4), (64, 1), (65, 48), (113, 1), (114, 2), (116, 4), (120, 16), (136, 8), (144, 16),
   (160, 16), (176, 8), (184, 8), (192, 1), (193, 3), (196, 4), (200, 8), (208, 1), (209, 1), (210, 2), (212, 4),
   (216, 8), (16, 8)]

theorem segmentLater {sequence R mtu base gen : Nat} {name : List UInt8} {identity : Identity}
    (named : name.length = 48) {k off width : Nat}
    (h : ∀ x ∈ segmentLayout.drop (k + 1), x.1 + x.2 ≤ off ∨ off + width ≤ x.1) :
    ∀ f ∈ (segmentStores sequence R mtu name base gen identity).drop (k + 1), Misses f off width := by
  have laid : (segmentStores sequence R mtu name base gen identity).map (fun f => (f.1, f.2.length)) =
      segmentLayout := by
    simp [segmentStores, channelStores, MessageHeader.stores, segmentLayout, named, firstRecord]
  intro f mem
  apply h (f.1, f.2.length)
  rw [← laid, ← List.map_drop]
  exact List.mem_map_of_mem mem

theorem segmentBase {sequence R mtu base gen : Nat} {name : List UInt8} {identity : Identity} (m : Mem)
    (named : name.length = 48) (small : base < 2 ^ 64) :
    baseRecordIndex (writes m (segmentStores sequence R mtu name base gen identity)) = base :=
  (fieldWrites (k := 7) rfl (segmentLater named (by decide))).trans (Nat.mod_eq_of_lt small)

theorem segmentLabels {sequence R mtu base gen : Nat} {name : List UInt8} {identity : Identity} (m : Mem)
    (named : name.length = 48) :
    regionSizeField (writes m (segmentStores sequence R mtu name base gen identity)) = R % 2 ^ 32 ∧
    mtuField (writes m (segmentStores sequence R mtu name base gen identity)) = mtu % 2 ^ 32 ∧
    channelName (writes m (segmentStores sequence R mtu name base gen identity)) = name := by
  refine ⟨fieldWrites (k := 9) rfl (segmentLater named (by decide)),
    fieldWrites (k := 10) rfl (segmentLater named (by decide)), ?_⟩
  have stored : (segmentStores sequence R mtu name base gen identity)[16]? = some (65, name) := rfl
  have stamped := sliceWrites (m := m) stored (by rw [named]; exact segmentLater named (by decide))
  rwa [named] at stamped

/- The file it lays out is a whole prepared segment, whatever was in the file before. -/
theorem segmentBlank {sequence R mtu base gen len : Nat} {name : List UInt8} {identity : Identity} (m : Mem)
    (named : name.length = 48) (sequenceSmall : sequence < 2 ^ 64) (regionSmall : R < 2 ^ 32)
    (genSmall : gen < 2 ^ 64) (nonzero : identity.fileInstance ≠ 0)
    (number : identity.predecessorSequence < 2 ^ 64)
    (parent : identity.predecessor = 0 ↔ identity.predecessorSequence = u64Max)
    (inside : R ≤ len) (bound : len ≤ 2 ^ 63 - 1) :
    Blank R sequence ⟨len, writes m (segmentStores sequence R mtu name base gen identity)⟩ identity gen := by
  have later {k off width : Nat} (h : ∀ x ∈ segmentLayout.drop (k + 1), x.1 + x.2 ≤ off ∨ off + width ≤ x.1) :
      ∀ f ∈ (segmentStores sequence R mtu name base gen identity).drop (k + 1), Misses f off width :=
    segmentLater named h
  have large (i : InstanceId) : i.toNat % 256 ^ 16 = i.toNat := Nat.mod_eq_of_lt i.isLt
  have numbered : identity.predecessorSequence % 256 ^ 8 = identity.predecessorSequence :=
    Nat.mod_eq_of_lt number
  have crcSmall : (crc32c identity.bytes).toNat % 256 ^ 4 = (crc32c identity.bytes).toNat :=
    Nat.mod_eq_of_lt (crc32c identity.bytes).toNat_lt
  have header : HeaderOk R sequence identity
      (writes m (segmentStores sequence R mtu name base gen identity)) := by
    refine ⟨?_, ?_, validateOk.mpr ⟨?_, ?_, ⟨?_, ?_⟩, ?_, ?_, ?_⟩,
      prefixOk.mpr ⟨?_, ?_, nonzero, ⟨?_, ?_, ?_⟩, ?_, parent⟩⟩
    · exact byteWrites (k := 0) rfl (later (by decide))
    · exact byteWrites (k := 2) rfl (later (by decide))
    · exact fieldWrites (k := 11) (n := 4) rfl (later (by decide))
    · exact byteWrites (k := 12) rfl (later (by decide))
    · exact byteWrites (k := 13) rfl (later (by decide))
    · exact byteWrites (k := 15) rfl (later (by decide))
    · exact fieldWrites (k := 14) (n := 0) rfl (later (by decide))
    · exact (fieldWrites (k := 9) rfl (later (by decide))).trans (Nat.mod_eq_of_lt regionSmall)
    · exact (fieldWrites (k := 8) rfl (later (by decide))).trans (Nat.mod_eq_of_lt sequenceSmall)
    · exact fieldWrites (k := 1) (n := channelPayload) rfl (later (by decide))
    · rw [fieldWrites (k := 22) (n := identity.fileInstance.toNat) rfl (later (by decide)),
        fieldWrites (k := 23) (n := identity.predecessor.toNat) rfl (later (by decide)),
        fieldWrites (k := 24) (n := identity.predecessorSequence) rfl (later (by decide)), large, large,
        numbered, BitVec.ofNat_toNat, BitVec.ofNat_toNat, BitVec.setWidth_eq, BitVec.setWidth_eq]
    · exact fieldWrites (k := 25) (n := 0) rfl (later (by decide))
    · exact fieldWrites (k := 27) (n := 0) rfl (later (by decide))
    · exact fieldWrites (k := 29) (n := 0) rfl (later (by decide))
    · exact (fieldWrites (k := 28) rfl (later (by decide))).trans crcSmall
  exact
    { header := header
      unpublished := byteWrites (k := 26) rfl (later (by decide))
      gen := (fieldWrites (k := 21) rfl (later (by decide))).trans (Nat.mod_eq_of_lt genSmall)
      count := fieldWrites (k := 6) (n := 0) rfl (later (by decide))
      wp := fieldWrites (k := 35) (n := 224) rfl (later (by decide))
      signed := by
        unfold segmentStores
        rw [writesAppend, readCongr fun a lo hi => writesOutside fun f mem => by
          rw [List.mem_singleton.mp mem]
          simp only [Misses, toLELength]
          omega]
        rw [writesAppend]
        exact headerWrites _ _ _
      inside := inside
      bound := bound }

end Xchannel.StoreRuns
