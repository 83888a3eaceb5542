import Xchannel.ReaderOpen
import Xchannel.ChannelLog

/-! Reading without a helper: one record, a poll and a batch, each with its own loop over regions and
files. `fuel` bounds the records and files one call steps over. -/
namespace Xchannel.ReaderCalls
open ByteMemory Format Storage Observation SegmentWalk ReaderOpen ChannelLog

/-- A validated next segment, opened but not yet committed to the reader. -/
structure Successor where
  sequence : Nat
  fileInstance : InstanceId
  ino : Nat
  baseRecordIndex : Nat
  deriving DecidableEq, Repr

structure ScannedHeader where
  isCommitted : Bool
  headerType : HeaderType
  payloadLen : Nat
  totalLen : Nat
  messageType : UInt16
  userMetaU64 : UInt64
  deriving DecidableEq, Repr

structure RecordLoc where
  mapIdx : Nat
  headerOffset : Nat
  payloadLen : Nat
  deriving DecidableEq, Repr

structure FoundRecord where
  loc : RecordLoc
  messageType : UInt16
  userMetaU64 : UInt64
  deriving DecidableEq, Repr

structure PeekedHeader where
  messageType : UInt16
  userMetaU64 : UInt64
  length : Nat
  deriving DecidableEq, Repr

/-- `MessageRef` and `OwnedMessage`: a place in a mapped region. -/
structure MessageRef where
  region : MappedRegion
  headerOffset : Nat
  payloadLen : Nat
  deriving DecidableEq, Repr

/- What its `header` and `payload` show. -/
def MessageRef.record (regionSize : Nat) (d : Disk) (msg : MessageRef) : Record :=
  let mh := MessageHeader.read (d.data msg.region.ino) (msg.region.regionIdx * regionSize + msg.headerOffset)
  ⟨mh.messageType, mh.userMetaU64,
    slice (d.data msg.region.ino) (msg.region.regionIdx * regionSize + msg.headerOffset + headerSlot) msg.payloadLen⟩

structure MessageBatch where
  segs : List BatchSeg
  pos : List MsgPos
  maps : List MappedRegion
  regionSize : Nat
  deriving DecidableEq, Repr

variable {m : Type → Type} [Observe Disk Reader IoError m]

def pruneToCurrent : m Unit := do
  let r ← Observe.self
  match r.maps.getLast? with
  | none => Observe.fail (.panicked "no current map")
  | some last =>
    refuseIf (last.fileSequence ≠ r.fileSequence ∨ last.regionIdx ≠ r.readPosition / r.regionSize)
      (.panicked "current map does not match reader position")
    Observe.become { r with maps := [last] }

def currentMessageHeaderInfo (env : Env) (off : Nat) : m ScannedHeader := do
  let r ← Observe.self
  match r.maps.getLast? with
  | none => Observe.fail (errOther "reader has no current region mapped")
  | some map =>
    let p := map.regionIdx * r.regionSize + off
    let committed ← lift (← Observe.look fun d =>
      if headerMapped env r.regionSize d map off then (MessageHeader.read (d.data map.ino) p).isCommitted
      else .error faulted)
    if ¬ committed then
      return ⟨false, .user, 0, 0, 0, 0⟩
    let mh ← Observe.look fun d => MessageHeader.read (d.data map.ino) p
    let headerType ← lift mh.parsedHeaderType
    return ⟨true, headerType, mh.length.toNat, headerSlot + mh.length.toNat, mh.messageType, mh.userMetaU64⟩

def switchRegion (env : Env) (idx : Nat) : m Unit := do
  let r ← Observe.self
  match r.maps.getLast? with
  | some last =>
    if last.fileSequence = r.fileSequence ∧ last.regionIdx = idx then
      return ()
    createReadOnly env (idx * r.regionSize) r.regionSize
    Observe.become { r with maps := r.maps ++ [⟨r.fileSequence, idx, r.ino⟩] }
  | none =>
    createReadOnly env (idx * r.regionSize) r.regionSize
    Observe.become { r with maps := r.maps ++ [⟨r.fileSequence, idx, r.ino⟩] }

/- The body of the committed `Roll` at `off` in the region mapped as `maps[mapIdx]`. -/
def rollEdge (mapIdx off payloadLen : Nat) : m RollEdge := do
  let r ← Observe.self
  match r.maps[mapIdx]? with
  | none => Observe.fail (.panicked "index out of bounds")
  | some map =>
    refuseIf (r.regionSize < off + headerSlot + payloadLen)
      (errInvalidData "Roll body extends past its region")
    let body ← Observe.look fun d =>
      slice (d.data map.ino) (map.regionIdx * r.regionSize + off + headerSlot) payloadLen
    lift (RollEdge.decode body)

/- `open_successor` without a helper, for a reader of this region size and generation. -/
def openSuccessor (env : Env) (regionSize gen prevHeader prevSequence : Nat) (prevInstance : InstanceId)
    (edge : RollEdge) : m Successor := do
  let prevBase ← Observe.look fun d => baseRecordIndex (d.data prevHeader)
  let prevCount ← Observe.look fun d => messageCount (d.data prevHeader)
  refuseIf (¬ (prevSequence + 1 < usize ∧ prevSequence + 1 = edge.nextSequence))
    (errInvalidData s!"segment {prevSequence} rolls to segment {edge.nextSequence}, not the next one")
  let nextSequence := prevSequence + 1
  match ← openSegmentIfPresent nextSequence with
  | none => Observe.fail (.text .notFound "No such file or directory")
  | some ino =>
    createReadOnly env 0 regionSize
    let headerType ← lift (← Observe.look fun d => (MessageHeader.read (d.data ino) 0).parsedHeaderType)
    refuseIf (headerType ≠ .channel)
      (errOther "next file missing Channel header")
    let identity ← validatedIdentity ino regionSize nextSequence
    refuseIf (¬ edge.names prevSequence prevInstance identity)
      (errInvalidData (s!"segment {nextSequence} is another instance, or of another parent, than the " ++
        "Roll that leads to it names"))
    let published ← lift (← Observe.look fun d => isPublished (d.data ino))
    refuseIf (¬ published)
      (errInvalidData s!"segment {nextSequence} is not published, but a committed Roll leads to it")
    let base ← Observe.look fun d => baseRecordIndex (d.data ino)
    refuseIf (usize ≤ prevBase + prevCount ∨ base ≠ prevBase + prevCount ∨ base ≠ edge.nextBaseRecordIndex)
      (errInvalidData (s!"base_record_index discontinuity: segment {nextSequence} starts at {base} but " ++
        s!"its Roll says {edge.nextBaseRecordIndex} (segments from a different series?)"))
    let found ← Observe.look fun d => Format.generation (d.data ino)
    refuseIf (found ≠ gen)
      (errInvalidData (s!"generation mismatch: segment {nextSequence} has generation {found} but the " ++
        s!"channel is {gen} (segments from a different incarnation of this path?)"))
    createReadOnly env 0 env.page
    return ⟨nextSequence, identity.fileInstance, ino, base⟩

/- Nothing of the reader moves until the new segment is open and validated. -/
def openNextFile (env : Env) (edge : RollEdge) : m Unit := do
  let r ← Observe.self
  let next ← openSuccessor env r.regionSize r.generation r.header r.fileSequence r.fileInstance edge
  Observe.become { r with
    fileSequence := next.sequence
    baseRecordIndex := next.baseRecordIndex
    position := next.baseRecordIndex
    ino := next.ino
    header := next.ino
    fileInstance := next.fileInstance
    wakeUntrusted := false
    wakeMiss := none
    readPosition := 0
    maps := [⟨next.sequence, 0, next.ino⟩] }

/- Past a Skip or the Channel record. -/
def passService (env : Env) (nextPos : Nat) : m Unit := do
  let r ← Observe.self
  if nextPos % r.regionSize = 0 then
    switchRegion env (nextPos / r.regionSize)
    let r ← Observe.self
    Observe.become { r with readPosition := nextPos }
    pruneToCurrent
  else
    Observe.become { r with readPosition := nextPos }

/- What `consume` does at the user record: the next region is mapped before the cursor moves. -/
def takeRecord (env : Env) (nextPos : Nat) : m Unit := do
  let r ← Observe.self
  if nextPos % r.regionSize = 0 then
    switchRegion env (nextPos / r.regionSize)
  let r ← Observe.self
  Observe.become { r with position := (r.position + 1) % usize, readPosition := nextPos }

/- Only a scan with too little fuel fails so. -/
def endless : IoError := .panicked "the scan does not end"

def scanLoop (env : Env) (consume : Bool) : Nat → m (Option FoundRecord)
  | 0 => Observe.fail endless
  | fuel+1 => do
    let r ← Observe.self
    let off := r.readPosition % r.regionSize
    let leftover := r.regionSize - off
    let hdr ← currentMessageHeaderInfo env off
    if ¬ hdr.isCommitted then
      return none
    refuseIf (leftover < hdr.totalLen)
      (errInvalidData "message payload extends past remaining region bytes")
    let nextPos := alignUp (r.readPosition + hdr.totalLen)
    match hdr.headerType with
    | .user =>
      if consume then
        takeRecord env nextPos
      return some ⟨⟨r.maps.length - 1, off, hdr.payloadLen⟩, hdr.messageType, hdr.userMetaU64⟩
    | .roll =>
      let edge ← rollEdge (r.maps.length - 1) off hdr.payloadLen
      openNextFile env edge
      scanLoop env consume fuel
    | .skip | .channel =>
      passService env nextPos
      scanLoop env consume fuel

def scanToUserRecord (env : Env) (fuel : Nat) (consume : Bool) : m (Option FoundRecord) := do
  pruneToCurrent
  scanLoop env consume fuel

/- `try_read` and `try_read_owned`: the same place, borrowed or shared. -/
def tryRead (env : Env) (fuel : Nat) : m (Option MessageRef) := do
  match ← scanToUserRecord env fuel true with
  | none => return none
  | some found =>
    let r ← Observe.self
    match r.maps[found.loc.mapIdx]? with
    | none => Observe.fail (.panicked "index out of bounds")
    | some map => return some ⟨map, found.loc.headerOffset, found.loc.payloadLen⟩

def peekHeader (env : Env) (fuel : Nat) : m (Option PeekedHeader) := do
  match ← scanToUserRecord env fuel false with
  | none => return none
  | some found => return some ⟨found.messageType, found.userMetaU64, found.loc.payloadLen⟩

/- The loop of `read_owned_into`: what was appended before an error stays appended. -/
def readOwnedLoop (env : Env) (fuel : Nat) : Nat → List MessageRef → m (List MessageRef × Except IoError Unit)
  | 0, out => return (out, .ok ())
  | max+1, out => do
    match ← Observe.attempt (tryRead env fuel) with
    | .ok (some msg) => readOwnedLoop env fuel max (out ++ [msg])
    | .ok none => return (out, .ok ())
    | .error e => return (out, .error e)

/- `try_read` until it returns `None`. -/
def readAll (env : Env) (fuel : Nat) : Nat → m (List MessageRef)
  | 0 => Observe.fail endless
  | calls+1 => do
    match ← tryRead env fuel with
    | none => return []
    | some msg => return msg :: (← readAll env fuel calls)

def pollLoop (env : Env) : Nat → m Bool
  | 0 => Observe.fail endless
  | fuel+1 => do
    let r ← Observe.self
    let off := r.readPosition % r.regionSize
    let leftover := r.regionSize - off
    let hdr ← currentMessageHeaderInfo env off
    if ¬ hdr.isCommitted then
      return false
    refuseIf (leftover < hdr.totalLen)
      (errInvalidData "message payload extends past remaining region bytes")
    let nextPos := alignUp (r.readPosition + hdr.totalLen)
    match hdr.headerType with
    | .user => return true
    | .roll =>
      let edge ← rollEdge (r.maps.length - 1) off hdr.payloadLen
      openNextFile env edge
      pollLoop env fuel
    | .skip | .channel =>
      passService env nextPos
      pollLoop env fuel

def pollForUserMessage (env : Env) (fuel : Nat) : m Bool := do
  pruneToCurrent
  pollLoop env fuel

/-- The local state of `scan_batch`. The region scanned is the last of the maps; `segIdx` is its
segment. -/
structure Scan where
  sequence : Nat
  rolled : Option Successor
  cursor : Nat
  position : Nat
  progressed : Bool
  regionStart : Nat
  cursorOff : Nat
  segIdx : Nat
  deriving DecidableEq, Repr

/-- How one record leaves the inner loop of the scan. -/
inductive ScanStep where
  | stop (s : Scan)
  | inner (s : Scan)
  | outer (s : Scan)

def ensureScanRegionMapped (env : Env) (scanFile scanFileSequence regionIdx : Nat) : m Unit := do
  let r ← Observe.self
  match r.maps.getLast? with
  | some last =>
    if last.fileSequence = scanFileSequence ∧ last.regionIdx = regionIdx then
      return ()
    refuseIf (last.fileSequence = scanFileSequence ∧ regionIdx < last.regionIdx)
      (errInvalidData "batch scan moved backward across regions")
    createReadOnly env (regionIdx * r.regionSize) r.regionSize
    Observe.become { r with maps := r.maps ++ [⟨scanFileSequence, regionIdx, scanFile⟩] }
  | none =>
    createReadOnly env (regionIdx * r.regionSize) r.regionSize
    Observe.become { r with maps := r.maps ++ [⟨scanFileSequence, regionIdx, scanFile⟩] }

/- The head of the outer loop: a new segment of the batch. -/
def enterSegment (env : Env) (s : Scan) : m Scan := do
  let r ← Observe.self
  let regionIndex := s.cursor / r.regionSize
  let regionStart := regionIndex * r.regionSize
  ensureScanRegionMapped env (s.rolled.elim r.ino Successor.ino) s.sequence regionIndex
  let r ← Observe.self
  refuseIf (65535 < r.batchSegs.length)
    (errOther "too many batch segments")
  Observe.become { r with batchSegs := r.batchSegs ++ [⟨r.maps.length - 1⟩] }
  return { s with regionStart := regionStart, cursorOff := s.cursor - regionStart, segIdx := r.batchSegs.length }

/- The successor of the `Roll` at the cursor of the scan. -/
def followRoll (env : Env) (s : Scan) (payloadLen : Nat) : m Successor := do
  let r ← Observe.self
  let edge ← rollEdge (r.maps.length - 1) s.cursorOff payloadLen
  openSuccessor env r.regionSize r.generation (s.rolled.elim r.header Successor.ino) s.sequence
    (s.rolled.elim r.fileInstance Successor.fileInstance) edge

/- One record of the inner loop. -/
def scanRecord (env : Env) (maxBatch : Nat) (s : Scan) : m ScanStep := do
  let r ← Observe.self
  refuseIf (r.regionSize < s.cursorOff + headerSlot)
    (errInvalidData "batch scan landed in an invalid header slot")
  let hdr ← currentMessageHeaderInfo env s.cursorOff
  if ¬ hdr.isCommitted then
    return .stop s
  refuseIf (r.regionSize < s.cursorOff + hdr.totalLen)
    (errInvalidData "message payload extends past region boundary")
  let rollPos := s.regionStart + s.cursorOff
  let nextPos := alignUp (rollPos + hdr.totalLen)
  let nextOff := nextPos - s.regionStart
  match hdr.headerType with
  | .roll =>
    match ← Observe.attempt (followRoll env s hdr.payloadLen) with
    | .ok next =>
      let r ← Observe.self
      Observe.become { r with maps := r.maps ++ [⟨next.sequence, 0, next.ino⟩] }
      return .outer { s with
        sequence := next.sequence, rolled := some next, cursor := 0, position := next.baseRecordIndex,
        progressed := true }
    | .error e =>
      -- what was collected before the Roll is handed over; the next call meets the refusal
      let r ← Observe.self
      if r.batchPos ≠ [] then
        return .stop { s with cursor := rollPos }
      Observe.fail e
  | .user =>
    Observe.become { r with batchPos := r.batchPos ++ [⟨UInt16.ofNat s.segIdx, UInt32.ofNat s.cursorOff⟩] }
    let s := { s with position := (s.position + 1) % usize, progressed := true, cursor := nextPos }
    if maxBatch ≤ r.batchPos.length + 1 then
      return .stop s
    if nextOff = r.regionSize then
      return .outer s
    return .inner { s with cursorOff := nextOff }
  | .skip | .channel =>
    let s := { s with progressed := true, cursor := nextPos }
    if nextOff = r.regionSize then
      return .outer s
    return .inner { s with cursorOff := nextOff }

def batchLoop (env : Env) (maxBatch : Nat) : Nat → Scan → m Scan
  | 0, _ => Observe.fail endless
  | fuel+1, s => do
    match ← scanRecord env maxBatch s with
    | .stop s => return s
    | .inner s => batchLoop env maxBatch fuel s
    | .outer s =>
      let s ← enterSegment env s
      batchLoop env maxBatch fuel s

def scanBatch (env : Env) (fuel maxBatch : Nat) : m (Option Scan) := do
  let r ← Observe.self
  let s ← enterSegment env ⟨r.fileSequence, none, r.readPosition, r.position, false, 0, 0, 0⟩
  let s ← batchLoop env maxBatch fuel s
  if s.progressed then
    return some s
  return none

def clearBatch : m Unit := do
  let r ← Observe.self
  Observe.become { r with batchSegs := [], batchPos := [] }

/- The cursor moves once the whole scan has succeeded. -/
def commitScan (s : Scan) : m Unit := do
  let r ← Observe.self
  let r := { r with readPosition := s.cursor, position := s.position, fileSequence := s.sequence }
  match s.rolled with
  | none => Observe.become r
  | some next =>
    Observe.become { r with
      ino := next.ino
      header := next.ino
      fileInstance := next.fileInstance
      wakeUntrusted := false
      wakeMiss := none
      baseRecordIndex := next.baseRecordIndex }

def batchMax (batchLimit maxBatch : Option UInt16) : Nat := ((maxBatch <|> batchLimit).getD 65535).toNat

def tryReadBatch (env : Env) (fuel : Nat) (maxBatch : Option UInt16) : m (Option MessageBatch) := do
  let r ← Observe.self
  let max := batchMax r.batchLimit maxBatch
  if max = 0 then
    return none
  clearBatch
  pruneToCurrent
  match ← Observe.attempt (scanBatch env fuel max) with
  | .error e =>
    let r ← Observe.self
    Observe.become { r with maps := r.maps.take 1 }
    clearBatch
    Observe.fail e
  | .ok none =>
    clearBatch
    return none
  | .ok (some s) =>
    commitScan s
    let r ← Observe.self
    if r.batchPos = [] then
      clearBatch
      pruneToCurrent
      return none
    return some ⟨r.batchSegs, r.batchPos, r.maps, r.regionSize⟩

def MessageBatch.messageAt (b : MessageBatch) (pos : MsgPos) : m MessageRef := do
  match b.segs[pos.seg.toNat]? with
  | none => Observe.fail (.panicked "index out of bounds")
  | some seg =>
    match b.maps[seg.mapIdx]? with
    | none => Observe.fail (.panicked "index out of bounds")
    | some map =>
      let headerOffset := pos.off.toNat
      refuseIf (b.regionSize < headerOffset + headerSlot)
        (.panicked "message header out of bounds")
      let mh ← Observe.look fun d => MessageHeader.read (d.data map.ino) (map.regionIdx * b.regionSize + headerOffset)
      refuseIf (b.regionSize < headerOffset + headerSlot + mh.length.toNat)
        (.panicked "message payload out of bounds")
      return ⟨map, headerOffset, mh.length.toNat⟩

/- `iter`: every message of the batch through `message_at`, as `get` does for one index. -/
def MessageBatch.iter (b : MessageBatch) : List MsgPos → m (List MessageRef)
  | [] => return []
  | pos :: rest => do
    let msg ← b.messageAt pos
    return msg :: (← b.iter rest)

/-- The reading calls a user makes. -/
inductive ReadCall where
  | tryRead
  | tryReadOwned
  | readOwnedInto (max : Option UInt64)
  | tryReadBatch (maxBatch : Option UInt16)
  | peekHeader
  | pollForUserMessage
  deriving DecidableEq, Repr

inductive Reply where
  | message (msg : Option MessageRef)
  | appended (msgs : List MessageRef) (result : Except IoError Unit)
  | batch (msgs : Option (List MessageRef))
  | peeked (header : Option PeekedHeader)
  | polled (ready : Bool)

def Reply.delivered : Reply → List MessageRef
  | .message msg => msg.toList
  | .appended msgs _ => msgs
  | .batch msgs => msgs.getD []
  | .peeked _ | .polled _ => []

/- A batch is read through its `iter`. -/
def ask (env : Env) (fuel : Nat) : ReadCall → m Reply
  | .tryRead => do return .message (← tryRead env fuel)
  | .tryReadOwned => do return .message (← tryRead env fuel)
  | .readOwnedInto max => do
    let (out, result) ← readOwnedLoop env fuel (max.elim u64Max UInt64.toNat) []
    return .appended out result
  | .tryReadBatch maxBatch => do
    match ← tryReadBatch env fuel maxBatch with
    | none => return .batch none
    | some b => return .batch (some (← b.iter b.pos))
  | .peekHeader => do return .peeked (← peekHeader env fuel)
  | .pollForUserMessage => do return .polled (← pollForUserMessage env fuel)

/- One call after the other, whatever they return. -/
def converse (env : Env) (fuel : Nat) : List ReadCall → m (List (Except IoError Reply))
  | [] => return []
  | c :: calls => do
    let reply ← Observe.attempt (ask env fuel c)
    return reply :: (← converse env fuel calls)

def deliveredOf : Except IoError Reply → List MessageRef
  | .ok reply => reply.delivered
  | .error _ => []

def deliveredBy (replies : List (Except IoError Reply)) : List MessageRef := replies.flatMap deliveredOf

/- The error of a call; `read_owned_into` has appended what it read before. -/
def failureOf : Except IoError Reply → Option IoError
  | .error e => some e
  | .ok (.appended _ (.error e)) => some e
  | .ok _ => none

/- Whether the call found a record. -/
def Reply.found : Reply → Bool
  | .message msg => msg.isSome
  | .appended msgs _ => msgs ≠ []
  | .batch msgs => msgs.isSome
  | .peeked header => header.isSome
  | .polled ready => ready

def foundBy : Except IoError Reply → Bool
  | .ok reply => reply.found
  | .error _ => false

/- A bound of zero asks for nothing. -/
def ReadCall.looks (r : Reader) : ReadCall → Bool
  | .readOwnedInto max => max.elim u64Max UInt64.toNat ≠ 0
  | .tryReadBatch maxBatch => batchMax r.batchLimit maxBatch ≠ 0
  | _ => true

end Xchannel.ReaderCalls
