import Xchannel.ByteMemory

/-! The on-disk format: record headers, the channel header, its v4 extension and the body of a
`Roll`, each read from and written to the bytes of a file at fixed offsets. An instance ID is
the little-endian value of its sixteen bytes. -/
namespace Xchannel.Format
open ByteMemory

abbrev usize : Nat := 2 ^ 64
abbrev u64Max : Nat := 2 ^ 64 - 1
abbrev headerSlot : Nat := 16
abbrev alignment : Nat := 8
abbrev channelPayload : Nat := 192
abbrev firstRecord : Nat := 208
abbrev rollPayload : Nat := 40
abbrev rollTotal : Nat := 56

inductive ErrorKind where
  | invalidData | invalidInput | notFound | alreadyExists | unexpectedEof | other
  deriving DecidableEq, Repr

inductive IoError where
  | text (kind : ErrorKind) (what : String)
  | generationMismatch (expected found : Nat)
  | indexPruned (index earliest : Nat)
  | staleSegment
  | panicked (what : String)
  deriving DecidableEq, Repr

def IoError.kind : IoError → ErrorKind
  | .text kind _ => kind
  | .generationMismatch _ _ => .invalidData
  | .indexPruned _ _ => .notFound
  | .staleSegment => .other
  | .panicked _ => .other

def errOther (what : String) : IoError := .text .other what
def errInvalidData (what : String) : IoError := .text .invalidData what

-- `(x + 7) & !7` on a 64-bit word: the sum wraps as in a release build.
def alignUp (x : Nat) : Nat := (x + (alignment - 1)) % usize / alignment * alignment

inductive HeaderType where
  | channel | user | skip | roll
  deriving DecidableEq, Repr

def HeaderType.raw : HeaderType → UInt8
  | .channel => 0
  | .user => 1
  | .skip => 2
  | .roll => 3

def HeaderType.fromRaw (raw : UInt8) : Except IoError HeaderType :=
  if raw = 0 then .ok .channel
  else if raw = 1 then .ok .user
  else if raw = 2 then .ok .skip
  else if raw = 3 then .ok .roll
  else .error (errInvalidData s!"invalid header_type: {raw}")

@[simp] theorem fromRawRaw (t : HeaderType) : HeaderType.fromRaw t.raw = .ok t := by
  cases t <;> rfl

structure MessageHeader where
  committed : UInt8
  headerType : UInt8
  messageType : UInt16
  length : UInt32
  userMetaU64 : UInt64
  deriving DecidableEq, Repr

def MessageHeader.read (m : Mem) (p : Nat) : MessageHeader where
  committed := m p
  headerType := m (p + 1)
  messageType := UInt16.ofNat (readLE m (p + 2) 2)
  length := UInt32.ofNat (readLE m (p + 4) 4)
  userMetaU64 := UInt64.ofNat (readLE m (p + 8) 8)

/- One store per field, in the order of the layout: a kill may fall between any two of them. -/
def MessageHeader.stores (h : MessageHeader) (p : Nat) : List (Nat × List UInt8) :=
  [(p, [h.committed]), (p + 1, [h.headerType]), (p + 2, toLE 2 h.messageType.toNat),
   (p + 4, toLE 4 h.length.toNat), (p + 8, toLE 8 h.userMetaU64.toNat)]

def MessageHeader.preinstall : MessageHeader := ⟨0, HeaderType.user.raw, 0, 0, 0⟩

def MessageHeader.isCommitted (h : MessageHeader) : Except IoError Bool :=
  if h.committed = 0 then .ok false
  else if h.committed = 1 then .ok true
  else .error (errInvalidData "invalid committed flag")

def MessageHeader.parsedHeaderType (h : MessageHeader) : Except IoError HeaderType :=
  HeaderType.fromRaw h.headerType

def verifyPreinstallSignature (h : MessageHeader) : Except IoError Unit := do
  if ← h.isCommitted then
    throw (errInvalidData ("crashed writer recovery: advanced slot is committed " ++
      "(multi-record publish_wp lag, unsupported)"))
  if h.headerType ≠ HeaderType.user.raw ∨ h.length ≠ 0 ∨ h.messageType ≠ 0 ∨ h.userMetaU64 ≠ 0 then
    throw (errInvalidData "crashed writer recovery: advanced slot is not a pre-installed header")

/- CRC32C. The table entry of a byte, then the byte-at-a-time loop over it. -/
def crc32cTable (byte : UInt8) : UInt32 :=
  (List.range 8).foldl
    (fun c _ => if c &&& 1 ≠ 0 then (c >>> 1) ^^^ 0x82F63B78 else c >>> 1) byte.toUInt32

def crc32c (bytes : List UInt8) : UInt32 :=
  ~~~ bytes.foldl (fun c b => crc32cTable (c ^^^ b.toUInt32).toUInt8 ^^^ (c >>> 8)) 0xFFFFFFFF

abbrev InstanceId := BitVec 128

structure Identity where
  fileInstance : InstanceId
  predecessor : InstanceId
  predecessorSequence : Nat
  deriving DecidableEq, Repr

def Identity.initial (fileInstance : InstanceId) : Identity := ⟨fileInstance, 0, u64Max⟩
def Identity.successor (fileInstance predecessor : InstanceId) (predecessorSequence : Nat) : Identity :=
  ⟨fileInstance, predecessor, predecessorSequence⟩

def Identity.bytes (i : Identity) : List UInt8 :=
  toLE 16 i.fileInstance.toNat ++ toLE 16 i.predecessor.toNat ++ toLE 8 i.predecessorSequence

inductive State where
  | prepared | published
  deriving DecidableEq, Repr

/- The fields of the channel header and of its extension, at their file offsets. -/
def writePosition (m : Mem) : Nat := readLE m 16 8
def messageCount (m : Mem) : Nat := readLE m 24 8
def baseRecordIndex (m : Mem) : Nat := readLE m 32 8
def channelSequence (m : Mem) : Nat := readLE m 40 8
def regionSizeField (m : Mem) : Nat := readLE m 48 4
def mtuField (m : Mem) : Nat := readLE m 52 4
def formatVersion (m : Mem) : Nat := readLE m 56 2
def endianness (m : Mem) : UInt8 := m 58
def systemHeaderSize (m : Mem) : UInt8 := m 59
def userHeaderKind (m : Mem) : Nat := readLE m 60 4
def userHeaderSize (m : Mem) : UInt8 := m 64
def channelName (m : Mem) : List UInt8 := slice m 65 48
def wakeFlags (m : Mem) : UInt8 := m 113
def wakeWord (m : Mem) : Nat := readLE m 116 4
def generation (m : Mem) : Nat := readLE m 136 8
def publicationState (m : Mem) : UInt8 := m 192

def validateChannelHeader (m : Mem) (expectedRegionSize expectedSequence : Nat) : Except IoError Unit := do
  if formatVersion m ≠ 4 then
    throw (errInvalidData s!"unsupported format_version {formatVersion m} (this build expects 4)")
  if endianness m ≠ 1 then
    throw (errInvalidData s!"unsupported endianness {endianness m} (this build expects 1)")
  if systemHeaderSize m ≠ 8 ∨ userHeaderSize m ≠ 8 then
    throw (errInvalidData
      s!"header-size mismatch: file=({systemHeaderSize m}/{userHeaderSize m}) build=(8/8)")
  if userHeaderKind m ≠ 0 then
    throw (errInvalidData s!"unsupported user_header_kind {userHeaderKind m} (this build only reads 0)")
  if regionSizeField m ≠ expectedRegionSize then
    throw (errInvalidData
      s!"region_size mismatch: file={regionSizeField m} expected={expectedRegionSize}")
  if channelSequence m ≠ expectedSequence then
    throw (errInvalidData (s!"channel_sequence mismatch: header={channelSequence m} but file is at " ++
      s!"sequence {expectedSequence} (renamed, misplaced, or swapped segment file?)"))

/- `ChannelHeaderExt::identity`: the extension's bytes start at file offset 144. -/
def extIdentity (m : Mem) : Except IoError Identity := do
  let identity : Identity :=
    ⟨BitVec.ofNat 128 (readLE m 144 16), BitVec.ofNat 128 (readLE m 160 16), readLE m 176 8⟩
  if identity.fileInstance = 0 then
    throw (errInvalidData "v4 file has a zero instance ID")
  if readLE m 184 8 ≠ 0 ∨ readLE m 193 3 ≠ 0 ∨ readLE m 200 8 ≠ 0 then
    throw (errInvalidData "v4 header extension has nonzero reserved bytes")
  if readLE m 196 4 ≠ (crc32c identity.bytes).toNat then
    throw (errInvalidData "v4 header extension fails its CRC")
  if ¬ (identity.predecessor = 0 ↔ identity.predecessorSequence = u64Max) then
    throw (errInvalidData "v4 header extension names a predecessor by only one of ID and sequence")
  return identity

def extState (m : Mem) : Except IoError State :=
  if publicationState m = 0 then .ok .prepared
  else if publicationState m = 1 then .ok .published
  else .error (errInvalidData s!"v4 file has publication state {publicationState m}")

def validateV4Prefix (m : Mem) : Except IoError Identity := do
  if readLE m 4 4 ≠ channelPayload then
    throw (errInvalidData s!"Channel record is {readLE m 4 4} bytes, but v4 makes it 192")
  extIdentity m

def isPublished (m : Mem) : Except IoError Bool := do
  return (← extState m) == .published

theorem refusedOk {ε α : Type} {c : Prop} [Decidable c] {e : ε} {k : Except ε α} {a : α} :
    (if c then Except.error e else k) = .ok a ↔ ¬ c ∧ k = .ok a := by
  by_cases h : c <;> simp [h]

theorem validateOk {m : Mem} {regionSize sequence : Nat} :
    validateChannelHeader m regionSize sequence = .ok () ↔
      formatVersion m = 4 ∧ endianness m = 1 ∧ (systemHeaderSize m = 8 ∧ userHeaderSize m = 8) ∧
      userHeaderKind m = 0 ∧ regionSizeField m = regionSize ∧ channelSequence m = sequence := by
  simp only [validateChannelHeader, bind, Except.bind, pure, Except.pure, throw, throwThe,
    MonadExceptOf.throw]
  rw [refusedOk, refusedOk, refusedOk, refusedOk, refusedOk, refusedOk]
  simp only [ne_eq, not_not, not_or, and_true]

theorem prefixOk {m : Mem} {i : Identity} :
    validateV4Prefix m = .ok i ↔ readLE m 4 4 = 192 ∧
      i = ⟨BitVec.ofNat 128 (readLE m 144 16), BitVec.ofNat 128 (readLE m 160 16), readLE m 176 8⟩ ∧
      i.fileInstance ≠ 0 ∧ (readLE m 184 8 = 0 ∧ readLE m 193 3 = 0 ∧ readLE m 200 8 = 0) ∧
      readLE m 196 4 = (crc32c i.bytes).toNat ∧
      (i.predecessor = 0 ↔ i.predecessorSequence = u64Max) := by
  simp only [validateV4Prefix, extIdentity, bind, Except.bind, pure, Except.pure, throw, throwThe,
    MonadExceptOf.throw]
  rw [refusedOk, refusedOk, refusedOk, refusedOk, refusedOk]
  simp only [ne_eq, not_not, not_or, Except.ok.injEq]
  constructor
  · rintro ⟨length, nonzero, reserved, crc, parent, rfl⟩
    exact ⟨length, rfl, nonzero, reserved, crc, parent⟩
  · rintro ⟨length, rfl, nonzero, reserved, crc, parent⟩
    exact ⟨length, nonzero, reserved, crc, parent, rfl⟩

theorem publishedOk {m : Mem} (h : publicationState m = 1) : isPublished m = .ok true := by
  simp only [isPublished, extState, h]
  rfl

theorem preparedOk {m : Mem} (h : publicationState m = 0) : isPublished m = .ok false := by
  simp only [isPublished, extState, h]
  rfl

theorem preinstallSigned : verifyPreinstallSignature MessageHeader.preinstall = .ok () := by decide

structure RollEdge where
  nextSequence : Nat
  nextInstance : InstanceId
  nextBaseRecordIndex : Nat
  deriving DecidableEq, Repr

/- Overflow is an error, never a wrap. -/
def RollEdge.after (sequence base count : Nat) (next : InstanceId) : Except IoError RollEdge := do
  if usize ≤ sequence + 1 then
    throw (.text .invalidInput "file sequence exhausted")
  if usize ≤ base + count then
    throw (.text .invalidInput "record index exhausted")
  return ⟨sequence + 1, next, base + count⟩

def RollEdge.covered (e : RollEdge) : List UInt8 :=
  toLE 8 e.nextSequence ++ toLE 16 e.nextInstance.toNat ++ toLE 8 e.nextBaseRecordIndex

def RollEdge.encode (e : RollEdge) : List UInt8 :=
  e.covered ++ toLE 4 (crc32c e.covered).toNat ++ [0, 0, 0, 0]

def RollEdge.decode (payload : List UInt8) : Except IoError RollEdge := do
  if payload.length ≠ rollPayload then
    throw (errInvalidData s!"v4 Roll body is {payload.length} bytes, not 40")
  if ofLE ((payload.drop 32).take 4) ≠ (crc32c (payload.take 32)).toNat then
    throw (errInvalidData "v4 Roll fails its CRC")
  if (payload.drop 36).take 4 ≠ [0, 0, 0, 0] then
    throw (errInvalidData "v4 Roll has nonzero reserved bytes")
  let edge : RollEdge := ⟨ofLE (payload.take 8), BitVec.ofNat 128 (ofLE ((payload.drop 8).take 16)),
    ofLE ((payload.drop 24).take 8)⟩
  if edge.nextInstance = 0 then
    throw (errInvalidData "v4 Roll names a zero successor ID")
  return edge

def RollEdge.names (e : RollEdge) (fromSequence : Nat) (fromInstance : InstanceId) (next : Identity) : Bool :=
  e.nextInstance == next.fileInstance && next.predecessor == fromInstance &&
  next.predecessorSequence == fromSequence &&
  (e.nextSequence == fromSequence + 1 && decide (fromSequence + 1 < usize))

/- What a writer lays down is read back. -/
theorem decodeEncode {e : RollEdge} (sequence : e.nextSequence < 2 ^ 64) (base : e.nextBaseRecordIndex < 2 ^ 64)
    (nonzero : e.nextInstance ≠ 0) : RollEdge.decode e.encode = .ok e := by
  have whole : e.encode.length = 40 := by simp [RollEdge.encode, RollEdge.covered]
  have covered : e.encode.take 32 = e.covered := by
    rw [RollEdge.encode, List.append_assoc]
    exact List.take_left' (by simp [RollEdge.covered])
  have crc : (e.encode.drop 32).take 4 = toLE 4 (crc32c e.covered).toNat := by
    rw [RollEdge.encode, List.append_assoc, List.drop_left' (by simp [RollEdge.covered])]
    exact List.take_left' (by simp)
  have reserved : (e.encode.drop 36).take 4 = [0, 0, 0, 0] := by
    rw [RollEdge.encode, List.drop_left' (by simp [RollEdge.covered])]
    rfl
  have first : e.encode.take 8 = toLE 8 e.nextSequence := by
    rw [RollEdge.encode, RollEdge.covered, List.append_assoc, List.append_assoc, List.append_assoc]
    exact List.take_left' (by simp)
  have second : (e.encode.drop 8).take 16 = toLE 16 e.nextInstance.toNat := by
    rw [RollEdge.encode, RollEdge.covered, List.append_assoc, List.append_assoc, List.append_assoc,
      List.drop_left' (by simp)]
    exact List.take_left' (by simp)
  have third : (e.encode.drop 24).take 8 = toLE 8 e.nextBaseRecordIndex := by
    rw [RollEdge.encode, RollEdge.covered, List.append_assoc, List.append_assoc, List.drop_left' (by simp)]
    exact List.take_left' (by simp)
  have crcSmall : (crc32c e.covered).toNat % 256 ^ 4 = (crc32c e.covered).toNat :=
    Nat.mod_eq_of_lt (crc32c e.covered).toNat_lt
  have sequenceSmall : e.nextSequence % 256 ^ 8 = e.nextSequence := Nat.mod_eq_of_lt sequence
  have baseSmall : e.nextBaseRecordIndex % 256 ^ 8 = e.nextBaseRecordIndex := Nat.mod_eq_of_lt base
  have instanceSmall : e.nextInstance.toNat % 256 ^ 16 = e.nextInstance.toNat := Nat.mod_eq_of_lt e.nextInstance.isLt
  simp only [RollEdge.decode, bind, Except.bind, pure, Except.pure, throw, throwThe, MonadExceptOf.throw]
  rw [refusedOk, refusedOk, refusedOk, refusedOk, whole, crc, covered, reserved, first, second, third, ofLEToLE,
    ofLEToLE, ofLEToLE, ofLEToLE, crcSmall, sequenceSmall, baseSmall, instanceSmall, BitVec.ofNat_toNat,
    BitVec.setWidth_eq]
  exact ⟨by decide, by simp, by simp, nonzero, rfl⟩
end Xchannel.Format
