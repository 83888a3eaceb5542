import Xchannel.WriterCalls

/-! Opening a writer: the sweep of private names, the discard of an unpublished tail, resuming in
the newest segment with its one-record recovery, and finishing a `Roll` a dead writer left. -/
namespace Xchannel.WriterOpen
open ByteMemory Format Storage CrashProgram SegmentWalk WriterCalls

variable {τ : Type}

def sweepStaleAttempts : Io τ Unit := do
  let stale ← Act.look fun d => d.attempts
  Act.emit (stale.map fun a => .unlinkAttempt a.sequence a.fileInstance)

/- `discard_unpublished_tail`. Each round but the last removes the newest final name, so the names
that could ever have been installed bound the rounds. -/
def discardLoop : Nat → Io τ Nat
  | 0 => Act.fail (.panicked "discard_unpublished_tail does not end")
  | rounds+1 => do
    let seq ← Act.look fun d => d.findLatestSequence
    if seq = 0 then
      return 0
    match ← Act.look fun d => d.segments seq with
    | none => discardLoop rounds
    | some ino =>
      if (← Act.look fun d => d.len ino) < firstRecord then
        return seq
      let m ← Act.look fun d => d.data ino
      Act.lift (validateChannelHeader m (regionSizeField m) seq)
      let _ ← Act.lift (validateV4Prefix m)
      if ← Act.lift (isPublished m) then
        return seq
      Act.emit [.unlink seq]
      discardLoop rounds

def discardUnpublishedTail : Io τ Nat := do
  let bound ← Act.look fun d => d.bound
  discardLoop (bound + 1)

/-- What `open_file` returns: the file, the region mapped, its length and the next slot. -/
structure Opened where
  ino : Nat
  regionIndex : Nat
  fileLen : Nat
  nextHdr : Nat
  deriving DecidableEq, Repr

/- Step over the one record whose commit landed but whose position did not. -/
def advancePastOrphan (env : Env) (regionSize : Nat) (o : Opened) (stale : MessageHeader) :
    Io τ Opened := do
  let staleType ← Act.lift stale.parsedHeaderType
  let advance := headerSlot + alignUp stale.length.toNat
  let off := o.nextHdr % regionSize
  match staleType with
  | .user =>
    Act.refuseIf (regionSize < off + advance + headerSlot)
      (errInvalidData ("crashed writer: User-record recovery would cross region boundary; clean up " ++
        "the channel files and start fresh"))
    let advanced ← Act.look fun d => MessageHeader.read (d.data o.ino) (o.nextHdr + advance)
    Act.lift (verifyPreinstallSignature advanced)
    return { o with nextHdr := o.nextHdr + advance }
  | .skip =>
    Act.refuseIf (off + advance ≠ regionSize)
      (errInvalidData "crashed writer: Skip length does not align to region boundary")
    let next := o.regionIndex + 1
    Act.refuseIf (o.fileLen < (next + 1) * regionSize)
      (errInvalidData "crashed writer: Skip points past end of file")
    createWritable env o.ino (next * regionSize) regionSize
    let first ← Act.look fun d => MessageHeader.read (d.data o.ino) (next * regionSize)
    Act.lift (verifyPreinstallSignature first)
    return { o with nextHdr := o.nextHdr + advance, regionIndex := next }
  | .roll => Act.fail (errInvalidData ("crashed writer: unexpected header_type Roll at write_position " ++
      "slot; clean up the channel files and start fresh"))
  | .channel => Act.fail (errInvalidData ("crashed writer: unexpected header_type Channel at " ++
      "write_position slot; clean up the channel files and start fresh"))

/- Nothing is stored until the recount has stopped at the recovered slot; then the count before
the position. -/
def recoverOrphan (env : Env) (regionSize : Nat) (o : Opened) (stale : MessageHeader) : Io τ Opened := do
  let o ← advancePastOrphan env regionSize o stale
  let walked ← Act.lift (← Act.look fun d => walkOn env d o.ino regionSize 0)
  Act.refuseIf (walked.pos ≠ o.nextHdr)
    (errInvalidData (s!"crashed writer: recount stopped at {walked.pos} but the recovered write " ++
      s!"slot is {o.nextHdr}"))
  createWritable env o.ino 0 regionSize
  Act.emit [.store o.ino 24 (toLE 8 walked.users)]
  Act.emit [.store o.ino 16 (toLE 8 (o.nextHdr + headerSlot))]
  return o

/- The slot `write_position` leads to, in a file grown to hold its region; a record committed there
was left by a writer that died before it stored the position. -/
def resumeSlot (env : Env) (ino regionSize initialLen : Nat) : Io τ Opened := do
  let wpPayload ← Act.look fun d => writePosition (d.data ino)
  let nextHdr := wpPayload - headerSlot
  let regionIndex := nextHdr / regionSize
  let targetLen := max ((regionIndex + 1) * regionSize) initialLen
  let len ← Act.look fun d => d.len ino
  if len < targetLen then
    setLen ino targetLen
  createWritable env ino (regionIndex * regionSize) regionSize
  let o : Opened := ⟨ino, regionIndex, max len targetLen, nextHdr⟩
  let stale ← Act.look fun d => MessageHeader.read (d.data ino) nextHdr
  if ← Act.lift stale.isCommitted then
    return ← recoverOrphan env regionSize o stale
  return o

/- The branch of `open_file` for a file that is there: it resumes from `write_position`. -/
def resumeFile (env : Env) (ino sequence regionSize fileRollSize : Nat) : Io τ Opened := do
  let initialLen ← Act.lift (preallocationLen regionSize fileRollSize)
  createWritable env ino 0 regionSize
  let m ← Act.look fun d => d.data ino
  Act.lift (validateChannelHeader m regionSize sequence)
  let _ ← Act.lift (validateV4Prefix m)
  if ¬ (← Act.lift (isPublished m)) then
    Act.refuseIf (sequence ≠ 0)
      (errInvalidData s!"segment {sequence} is unpublished, but is the newest file a writer resumes")
    publish ino
  resumeSlot env ino regionSize initialLen

/- The branch of `open_file` for a channel that is not there yet. -/
def createInitial (env : Env) (cfg : Config) : Io τ Opened := do
  if (← Act.look fun d => d.segments 0).isSome then
    Act.emit [.unlink 0]
  let fileInstance ← Act.look fun d => env.ids d.fresh
  let prepared ← prepareSegmentAt env 0 cfg.regionSize cfg.fileRollSize.toNat cfg.mtu.toNat
    cfg.channelName cfg.baseRecordIndex.toNat cfg.generation.toNat (Identity.initial fileInstance)
  if ← installNoReplace 0 fileInstance then
    publish prepared.ino
    return ⟨prepared.ino, 0, prepared.fileLen, prepared.nextHdr⟩
  Act.emit [.unlinkAttempt 0 fileInstance]
  Act.fail (.text .alreadyExists "File exists")

def openFile (env : Env) (cfg : Config) (sequence : Nat) : Io τ Opened := do
  let existing ← Act.look fun d => d.segments sequence
  match existing with
  | some ino =>
    if 0 < (← Act.look fun d => d.len ino) then
      return ← resumeFile env ino sequence cfg.regionSize cfg.fileRollSize.toNat
    Act.refuseIf (sequence ≠ 0) (errInvalidData s!"segment {sequence} is empty")
    createInitial env cfg
  | none =>
    Act.refuseIf (sequence ≠ 0) (errInvalidData s!"segment {sequence} is empty")
    createInitial env cfg

/- Which of the three shapes a predecessor has: whether its `Roll` is only staged, and whether its
position is behind; anything else is corrupt. -/
def strandedShape (wp : Nat) (walked : WalkEnd) : Option (Bool × Bool) :=
  if walked.stop = .roll ∧ wp = walked.pos + headerSlot + rollTotal then some (false, false)
  else if walked.stop = .roll ∧ wp = walked.pos + headerSlot then some (false, true)
  else if walked.stop = .uncommitted ∧ wp = walked.pos + headerSlot then some (true, true)
  else none

/- `commit_stranded_roll`: finish the roll into `successor` that a dead writer left staged, or
committed with its position behind. -/
def commitStrandedRoll (env : Env) (sequence regionSize gen : Nat) (successor : Identity)
    (successorBase : Nat) : Io τ Unit := do
  let corrupt (what : String) : IoError :=
    errInvalidData s!"segment {sequence + 1} follows segment {sequence}, but {what}"
  match ← Act.look fun d => d.segments sequence with
  | none => return ()
  | some ino =>
    if (← Act.look fun d => d.len ino) < regionSize then
      return ()
    createWritable env ino 0 regionSize
    let m ← Act.look fun d => d.data ino
    Act.lift (validateChannelHeader m regionSize sequence)
    let identity ← Act.lift (validateV4Prefix m)
    let published ← Act.lift (isPublished m)
    Act.refuseIf (¬ published) (corrupt "that one is unpublished")
    Act.refuseIf (generation m ≠ gen ∨ successor.predecessor ≠ identity.fileInstance ∨
        successor.predecessorSequence ≠ sequence)
      (corrupt "does not name it as its parent")
    let count ← Act.look fun d => messageCount (d.data ino)
    Act.refuseIf (usize ≤ baseRecordIndex m + count ∨ baseRecordIndex m + count ≠ successorBase)
      (corrupt s!"starts at record {successorBase} while that one ends at {baseRecordIndex m + count}")
    let wp ← Act.look fun d => writePosition (d.data ino)
    let earliest := wp - (headerSlot + rollTotal)
    let walked ← Act.lift (← Act.look fun d =>
      walkOn env d ino regionSize (earliest - earliest % regionSize))
    let slot := walked.pos
    match strandedShape wp walked with
    | none => Act.fail (corrupt s!"its record chain stops at {slot} with write_position {wp}")
    | some (staged, behind) =>
      let regionStart := slot - slot % regionSize
      if regionStart ≠ 0 then
        createWritable env ino regionStart regionSize
      let roll ← Act.look fun d => MessageHeader.read (d.data ino) slot
      let rollType ← Act.lift roll.parsedHeaderType
      Act.refuseIf (rollType ≠ .roll ∨ roll.length.toNat ≠ rollPayload)
        (corrupt s!"the record at its write position {slot} is not a Roll")
      let body ← Act.lift (← Act.look fun d =>
        loadMapped env regionSize (d.data ino) regionStart (slot - regionStart + headerSlot) rollPayload)
      let edge ← Act.lift (RollEdge.decode body)
      Act.refuseIf (¬ edge.names sequence identity.fileInstance successor ∨
          edge.nextBaseRecordIndex ≠ successorBase)
        (corrupt "its Roll names another file")
      if ¬ behind then
        return ()
      if staged then
        Act.emit [.commit ino slot]
      -- the compare-exchange of the position: nobody else stores it
      if (← Act.look fun d => writePosition (d.data ino)) = slot + headerSlot then
        Act.emit [.store ino 16 (toLE 8 (slot + headerSlot + rollTotal))]
      wakeAll ino

def openOrCreate (env : Env) (cfg : Config) : Io τ Writer := do
  Act.refuseIf (cfg.regionSize % env.page ≠ 0) (.text .invalidInput
    s!"region_size ({cfg.regionSize}) must be a multiple of OS page size ({env.page})")
  Act.refuseIf (cfg.regionSize % alignment ≠ 0) (.text .invalidInput
    s!"region_size ({cfg.regionSize}) must be a multiple of header alignment (8)")
  Act.refuseIf (cfg.regionSize < firstRecord + rollTotal) (.text .invalidInput
    s!"region_size ({cfg.regionSize}) must be >= header space (264)")
  Act.refuseIf (2 ^ 32 - 1 < cfg.regionSize) (.text .invalidInput "region_size too large for u32")
  let sequence ← discardUnpublishedTail
  let o ← openFile env cfg sequence
  setWakeFlag o.ino cfg.wakeReaders
  let identity ← Act.lift (← Act.look fun d => validateV4Prefix (d.data o.ino))
  if 0 < sequence then
    let gen ← Act.look fun d => generation (d.data o.ino)
    let base ← Act.look fun d => baseRecordIndex (d.data o.ino)
    commitStrandedRoll env (sequence - 1) cfg.regionSize gen identity base
  return {
    config := cfg
    fileSequence := sequence
    fileInstance := identity.fileInstance
    ino := o.ino
    fileLen := o.fileLen
    currentRegionIndex := o.regionIndex
    nextHdrPos := o.nextHdr
    pendingMsgSize := none }

/- `WriterBuilder::build`. `saturating_mul` only matters past the sizes refused later. -/
def build (env : Env) (cfg : Config) : Io τ Writer := do
  Act.refuseIf (cfg.fileRollSize ≠ 0 ∧ cfg.fileRollSize.toNat < min (2 * cfg.regionSize) u64Max)
    (.text .invalidInput (s!"file_roll_size {cfg.fileRollSize} must be 0 or span at least two " ++
      s!"regions (2 * region_size = {2 * cfg.regionSize})"))
  sweepStaleAttempts
  openOrCreate env cfg

end Xchannel.WriterOpen
