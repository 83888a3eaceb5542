import Xchannel.SegmentWalk

/-! The writer without a helper: reserving, committing, moving to the next region and rolling to
the next file. Every store it makes is one operation, in the order of the source, so a kill can
fall between any two. -/
namespace Xchannel.WriterCalls
open ByteMemory Format Storage CrashProgram

/-- The settings of a `WriterBuilder`. -/
structure Config where
  regionSize : Nat
  fileRollSize : UInt64
  mtu : UInt64
  keepFiles : Option Nat
  channelName : List UInt8
  baseRecordIndex : UInt64
  generation : UInt64
  wakeReaders : Bool
  deriving DecidableEq, Repr

/-- What the setters of the builder see to. -/
structure Formed (cfg : Config) : Prop where
  named : cfg.channelName.length = 48
  kept : ∀ n, cfg.keepFiles = some n → 1 ≤ n

/-- `ino` is the open file, `currentRegionIndex` the region mapped as `current_region`. -/
structure Writer where
  config : Config
  fileSequence : Nat
  fileInstance : InstanceId
  ino : Nat
  fileLen : Nat
  currentRegionIndex : Nat
  nextHdrPos : Nat
  pendingMsgSize : Option Nat
  deriving DecidableEq, Repr

abbrev Io (τ α : Type) := Act Disk.apply τ IoError α
abbrev Self (α : Type) := Io Writer α

def stores (ino : Nat) (fields : List (Nat × List UInt8)) : List Op :=
  fields.map fun f => .store ino f.1 f.2

abbrev maxFileLen : Nat := 2 ^ 63 - 1

/- `File::set_len`: the OS takes a signed length. -/
def setLen {τ : Type} (ino len : Nat) : Io τ Unit :=
  if len ≤ maxFileLen then Act.emit [.setLen ino len]
  else Act.fail (.text .invalidInput s!"set_len({len}): file offset out of range")

/- `RegionMapping::create_writable`: a file too short for the region is extended. -/
def createWritable {τ : Type} (env : Env) (ino baseOffset regionSize : Nat) : Io τ Unit := do
  Act.lift (checkAlignment env baseOffset regionSize)
  let len ← Act.look fun d => d.len ino
  if len < baseOffset + regionSize then
    setLen ino (baseOffset + regionSize)

/- `current_region.get_bytes_mut(offset, len)`: the file offset of the bytes, if in the region. -/
def getBytesMut (offset len : Nat) (what : String) : Self Nat := do
  let w ← Act.self
  Act.refuseIf (usize ≤ offset + len ∨ w.config.regionSize < offset + len)
    (errOther what)
  return w.currentRegionIndex * w.config.regionSize + offset

def preallocationLen (regionSize fileRollSize : Nat) : Except IoError Nat := do
  if fileRollSize = 0 then
    return regionSize
  let rem := fileRollSize % regionSize
  let len := if rem = 0 then fileRollSize else fileRollSize + (regionSize - rem)
  if usize ≤ len then
    throw (.text .invalidInput (s!"file_roll_size {fileRollSize} cannot be rounded up to a " ++
      s!"region_size {regionSize} multiple without overflowing u64"))
  if maxFileLen < len then
    throw (.text .invalidInput (s!"file_roll_size {fileRollSize} (region-aligned to {len}) exceeds " ++
      "the max file offset i64::MAX; use 0 to disable rolling"))
  return len

def setWakeFlag {τ : Type} (ino : Nat) (wake : Bool) : Io τ Unit := do
  let flags ← Act.look fun d => wakeFlags (d.data ino)
  Act.emit [.store ino 113 [if wake then flags ||| 1 else flags &&& ~~~1]]

/- `wake_all`: the bump; waking the sleepers stores nothing. -/
def wakeAll {τ : Type} (ino : Nat) : Io τ Unit := do
  let word ← Act.look fun d => wakeWord (d.data ino)
  Act.emit [.store ino 116 (toLE 4 (word + 1))]

def publish {τ : Type} (ino : Nat) : Io τ Unit := Act.emit [.publish ino]

structure PreparedSegment where
  ino : Nat
  fileLen : Nat
  nextHdr : Nat
  deriving DecidableEq, Repr

/- The stores of `init_segment`, in its order; the bytes it leaves alone are zero. -/
def channelStores (sequence regionSize mtu : Nat) (name : List UInt8) (base gen : Nat)
    (identity : Identity) : List (Nat × List UInt8) :=
  [(0, [1]), (4, toLE 4 channelPayload), (1, [HeaderType.channel.raw]), (2, toLE 2 0), (8, toLE 8 0),
   (16, toLE 8 0), (24, toLE 8 0), (32, toLE 8 base), (40, toLE 8 sequence), (48, toLE 4 regionSize),
   (52, toLE 4 mtu), (56, toLE 2 4), (58, [1]), (59, [8]), (60, toLE 4 0), (64, [8]), (65, name),
   (113, [0]), (114, toLE 2 0), (116, toLE 4 0), (120, toLE 16 0), (136, toLE 8 gen),
   (144, toLE 16 identity.fileInstance.toNat), (160, toLE 16 identity.predecessor.toNat),
   (176, toLE 8 identity.predecessorSequence), (184, toLE 8 0), (192, [0]), (193, toLE 3 0),
   (196, toLE 4 (crc32c identity.bytes).toNat), (200, toLE 8 0)]

def initSegment {τ : Type} (env : Env) (ino sequence regionSize initialLen mtu : Nat) (name : List UInt8)
    (base gen : Nat) (identity : Identity) : Io τ PreparedSegment := do
  setLen ino initialLen
  createWritable env ino 0 regionSize
  Act.emit (stores ino (channelStores sequence regionSize mtu name base gen identity))
  createWritable env ino 0 regionSize
  Act.refuseIf (regionSize < firstRecord + headerSlot)
    (errOther "prepare_segment_at: cannot pre-install first header")
  Act.emit (stores ino (MessageHeader.preinstall.stores firstRecord))
  Act.emit [.store ino 16 (toLE 8 (firstRecord + headerSlot))]
  return ⟨ino, initialLen, firstRecord⟩

/- A new `PREPARED` segment under the private name of its instance. -/
def prepareSegmentAt {τ : Type} (env : Env) (sequence regionSize fileRollSize mtu : Nat)
    (name : List UInt8) (base gen : Nat) (identity : Identity) : Io τ PreparedSegment := do
  let initialLen ← Act.lift (preallocationLen regionSize fileRollSize)
  let taken ← Act.look fun d => (d.findAttempt sequence identity.fileInstance).isSome
  Act.refuseIf (taken)
    (.text .alreadyExists "File exists")
  let ino ← Act.look fun d => d.fresh
  Act.emit [.create sequence identity.fileInstance]
  match ← Act.attempt
      (initSegment env ino sequence regionSize initialLen mtu name base gen identity) with
  | .ok prepared => return prepared
  | .error e =>
    Act.emit [.unlinkAttempt sequence identity.fileInstance]
    Act.fail e

/- Rename without replacing: `true` if installed, `false` if the final name was taken. -/
def installNoReplace {τ : Type} (sequence : Nat) (fileInstance : InstanceId) : Io τ Bool := do
  let present ← Act.look fun d => (d.segments sequence).isSome
  if present then
    return false
  Act.emit [.install sequence fileInstance]
  return true

/- `publish_wp`: the count first, then the position. -/
def publishWp (pos : Nat) : Self Unit := do
  let w ← Act.self
  let count ← Act.look fun d => messageCount (d.data w.ino)
  Act.emit [.store w.ino 24 (toLE 8 (count + 1))]
  Act.emit [.store w.ino 16 (toLE 8 pos)]
  if w.config.wakeReaders then
    wakeAll w.ino

def storeWpLocal (pos : Nat) : Self Unit := do
  let w ← Act.self
  Act.emit [.store w.ino 16 (toLE 8 pos)]

def clearPending : Self Unit := do
  let w ← Act.self
  Act.become { w with pendingMsgSize := none }

/- `adopt_successor`: a file found under the successor's final name is used only if it is the
empty `PREPARED` file of this channel that names this file as its parent. -/
def adoptSuccessor (env : Env) (nextSeq gen : Nat) : Self (Identity × PreparedSegment) := do
  let w ← Act.self
  let refuse (why : String) : Self (Identity × PreparedSegment) :=
    Act.fail (errInvalidData s!"segment {nextSeq} is already installed and {why}")
  match ← Act.look fun d => d.segments nextSeq with
  | none => Act.fail (.text .notFound "No such file or directory")
  | some ino =>
    let len ← Act.lift (preallocationLen w.config.regionSize w.config.fileRollSize.toNat)
    if (← Act.look fun d => d.len ino) ≠ len then
      return ← refuse "has another length"
    createWritable env ino 0 w.config.regionSize
    let m ← Act.look fun d => d.data ino
    Act.lift (validateChannelHeader m w.config.regionSize nextSeq)
    let identity ← Act.lift (validateV4Prefix m)
    if ← Act.lift (isPublished m) then
      return ← refuse "is published"
    if identity.predecessor ≠ w.fileInstance ∨ identity.predecessorSequence ≠ w.fileSequence ∨
        generation m ≠ gen ∨ mtuField m ≠ w.config.mtu.toNat ∨
        Format.channelName m ≠ w.config.channelName then
      return ← refuse "belongs elsewhere"
    if messageCount m ≠ 0 ∨ writePosition m ≠ firstRecord + headerSlot then
      return ← refuse "is not empty"
    createWritable env ino 0 w.config.regionSize
    Act.lift (verifyPreinstallSignature (MessageHeader.read m firstRecord))
    return (identity, ⟨ino, len, firstRecord⟩)

def prepareSuccessor (env : Env) (nextSeq gen : Nat) : Self (Identity × PreparedSegment) := do
  let w ← Act.self
  if ← Act.look fun d => (d.segments nextSeq).isSome then
    return ← adoptSuccessor env nextSeq gen
  let fileInstance ← Act.look fun d => env.ids d.fresh
  let identity := Identity.successor fileInstance w.fileInstance w.fileSequence
  let segment ← prepareSegmentAt env nextSeq w.config.regionSize w.config.fileRollSize.toNat
    w.config.mtu.toNat w.config.channelName 0 gen identity
  if ← installNoReplace nextSeq fileInstance then
    return (identity, segment)
  Act.emit [.unlinkAttempt nextSeq fileInstance]
  adoptSuccessor env nextSeq gen

/- Retention without a helper. -/
def prune (sequence : Nat) : Self Unit := Act.emit [.unlink sequence]

def rollFile (env : Env) : Self Unit := do
  clearPending
  let w ← Act.self
  let rollPos := w.nextHdrPos
  let rollOff := rollPos % w.config.regionSize
  Act.refuseIf (w.config.regionSize - rollOff < rollTotal)
    (errInvalidData s!"no room for a Roll at {rollPos}")
  let oldBase ← Act.look fun d => baseRecordIndex (d.data w.ino)
  let oldCount ← Act.look fun d => messageCount (d.data w.ino)
  let gen ← Act.look fun d => generation (d.data w.ino)
  Act.refuseIf (usize ≤ w.fileSequence + 1)
    (.text .invalidInput "file sequence exhausted")
  let nextSeq := w.fileSequence + 1
  -- 1) the successor, installed under its final name and still PREPARED
  let (identity, prepared) ← prepareSuccessor env nextSeq gen
  let edge ← Act.lift (RollEdge.after w.fileSequence oldBase oldCount identity.fileInstance)
  -- 2) stage the whole Roll in the region already mapped
  let roll ← getBytesMut rollOff rollTotal "roll header outside region"
  Act.emit [.store w.ino (roll + headerSlot) edge.encode]
  Act.emit (stores w.ino
    ((⟨0, HeaderType.roll.raw, 0, UInt32.ofNat rollPayload, 0⟩ : MessageHeader).stores roll))
  -- 3) stamp the base and publish
  Act.emit [.store prepared.ino 32 (toLE 8 edge.nextBaseRecordIndex)]
  setWakeFlag prepared.ino w.config.wakeReaders
  publish prepared.ino
  -- 4) commit the Roll; then the terminal hint, one slot past it
  Act.emit [.commit w.ino roll]
  storeWpLocal (rollPos + rollTotal + headerSlot)
  if w.config.wakeReaders then
    wakeAll w.ino
  Act.become { w with
    fileSequence := nextSeq
    fileInstance := identity.fileInstance
    ino := prepared.ino
    fileLen := prepared.fileLen
    currentRegionIndex := 0
    nextHdrPos := prepared.nextHdr
    pendingMsgSize := none }
  match w.config.keepFiles with
  | some n => if n ≤ nextSeq then prune (nextSeq - n)
  | none => pure ()

def ensureLen (want : Nat) : Self Unit := do
  let w ← Act.self
  if w.fileLen < want then
    setLen w.ino want
    Act.become { w with fileLen := want }

def regionAt (env : Env) (index : Nat) : Self Unit := do
  let w ← Act.self
  ensureLen ((index + 1) * w.config.regionSize)
  createWritable env w.ino (index * w.config.regionSize) w.config.regionSize

def switchRegion (index : Nat) : Self Unit := do
  let w ← Act.self
  Act.become { w with currentRegionIndex := index }

def rollOverRegion (env : Env) : Self Unit := do
  clearPending
  let w ← Act.self
  let regionSize := w.config.regionSize
  let wp := w.nextHdrPos
  let off := wp % regionSize
  let leftover := regionSize - off
  if headerSlot ≤ leftover then
    let skipLen := leftover - headerSlot
    let newWp := wp + headerSlot + skipLen
    let nextIdx := newWp / regionSize
    -- 1) grow the file, map the next region and pre-install its first header
    regionAt env nextIdx
    Act.refuseIf (regionSize < headerSlot)
      (errOther "roll_over_region: cannot pre-install next header")
    Act.emit (stores w.ino (MessageHeader.preinstall.stores (nextIdx * regionSize)))
    -- 2) write and commit the Skip in the old region
    let skip ← getBytesMut off headerSlot "roll_over_region: header bytes"
    Act.emit (stores w.ino
      ((⟨0, HeaderType.skip.raw, 0, UInt32.ofNat skipLen, 0⟩ : MessageHeader).stores skip))
    Act.emit [.commit w.ino skip]
    -- 3) switch to the new region and publish the position
    switchRegion nextIdx
    let w ← Act.self
    Act.become { w with nextHdrPos := newWp }
    storeWpLocal (newWp + headerSlot)
  else
    let nextRegionStart := (wp / regionSize + 1) * regionSize
    let nextIdx := nextRegionStart / regionSize
    regionAt env nextIdx
    switchRegion nextIdx
    if headerSlot ≤ regionSize then
      Act.emit (stores w.ino (MessageHeader.preinstall.stores (nextIdx * regionSize)))
    let w ← Act.self
    Act.become { w with nextHdrPos := nextRegionStart }
    storeWpLocal (nextRegionStart + headerSlot)

/-- The slice `try_reserve` hands out, as file bytes. -/
structure Buffer where
  ino : Nat
  off : Nat
  len : Nat
  deriving DecidableEq, Repr

/- The loop of `try_reserve`. From every state a writer can be in it ends within four rounds:
a region roll, a file roll, a region roll, the reservation. -/
def reserveLoop (env : Env) (msgSize recordWithPadding neededTotal : Nat) : Nat → Self Buffer
  | 0 => Act.fail (.panicked "try_reserve does not end")
  | rounds+1 => do
    let w ← Act.self
    let wp := w.nextHdrPos
    let off := wp % w.config.regionSize
    if 0 < w.config.fileRollSize.toNat ∧ w.config.fileRollSize.toNat < wp + neededTotal then
      rollFile env
      return ← reserveLoop env msgSize recordWithPadding neededTotal rounds
    if w.config.regionSize < off + neededTotal then
      rollOverRegion env
      return ← reserveLoop env msgSize recordWithPadding neededTotal rounds
    let next ← getBytesMut ((off + recordWithPadding) % usize) headerSlot
      "Failed to pre-install next header"
    Act.emit (stores w.ino (MessageHeader.preinstall.stores next))
    Act.become { w with pendingMsgSize := some msgSize }
    let payload ← getBytesMut (off + headerSlot) msgSize "message crosses region boundary"
    return ⟨w.ino, payload, msgSize⟩

def tryReserve (env : Env) (msgSize : UInt64) : Self Buffer := do
  let w ← Act.self
  let n := msgSize.toNat
  Act.refuseIf (0 < w.config.mtu.toNat ∧ w.config.mtu.toNat < n)
    (errOther "MTU exceeded")
  -- `usize` sums, wrapping as in a release build
  let recordSize := (headerSlot + n) % usize
  let recordWithPadding := alignUp recordSize
  let neededTotal := (recordWithPadding + rollTotal) % usize
  Act.refuseIf (w.config.regionSize < neededTotal)
    (errOther (s!"reservation size {n} cannot fit in region_size {w.config.regionSize} " ++
      s!"(needs {neededTotal} bytes including header + padding + room for a Roll)"))
  Act.refuseIf (0 < w.config.fileRollSize.toNat ∧ w.config.fileRollSize.toNat < firstRecord + neededTotal)
    (errOther (s!"reservation size {n} cannot fit in file_roll_size " ++
      s!"{w.config.fileRollSize} (needs {neededTotal} bytes)"))
  reserveLoop env n recordWithPadding neededTotal 4

def commit (msgType : UInt16) (length : UInt32) (userMetaU64 : UInt64) : Self Unit := do
  let w ← Act.self
  clearPending
  match w.pendingMsgSize with
  | none => Act.fail (errOther "commit without preceding try_reserve")
  | some reserved =>
    Act.refuseIf (reserved < length.toNat)
      (errOther s!"commit length {length} exceeds try_reserve size {reserved}")
    let hdrOff := w.nextHdrPos % w.config.regionSize
    let hdr ← getBytesMut hdrOff headerSlot "No header to commit"
    Act.emit (stores w.ino
      [(hdr, [0]), (hdr + 4, toLE 4 length.toNat), (hdr + 1, [HeaderType.user.raw]),
       (hdr + 2, toLE 2 msgType.toNat), (hdr + 8, toLE 8 userMetaU64.toNat)])
    let payloadEnd := w.nextHdrPos + headerSlot + length.toNat
    let nextPos := alignUp payloadEnd
    if length.toNat < reserved then
      let newNextOff := nextPos % w.config.regionSize
      let next ← getBytesMut newNextOff headerSlot
        "Failed to re-install next header on short commit"
      Act.emit (stores w.ino (MessageHeader.preinstall.stores next))
    Act.emit [.commit w.ino hdr]
    Act.become { w with nextHdrPos := nextPos, pendingMsgSize := none }
    publishWp (nextPos + headerSlot)

/- `next_record_index`. -/
def nextRecordIndex (w : Writer) (d : Disk) : Nat :=
  (baseRecordIndex (d.data w.ino) + messageCount (d.data w.ino)) % usize

end Xchannel.WriterCalls
