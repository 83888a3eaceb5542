import Xchannel.SegmentWalk

/-! Opening a reader: at the earliest segment, at the head or at a record's index. A `look` is one
load or one directory operation; an open file is its inode, so it stays readable after an unlink. -/
namespace Xchannel.ReaderOpen
open ByteMemory Format Storage Observation SegmentWalk

/-- `ino` is the file the region belongs to. -/
structure MappedRegion where
  fileSequence : Nat
  regionIdx : Nat
  ino : Nat
  deriving DecidableEq, Repr

/-- A segment of a batch, by its index into the maps. -/
structure BatchSeg where
  mapIdx : Nat
  deriving DecidableEq, Repr

structure MsgPos where
  seg : UInt16
  off : UInt32
  deriving DecidableEq, Repr

/-- `ino` is the open file and `header` the one whose page 0 is mapped; the last of `maps` is the
current region. -/
structure Reader where
  fileSequence : Nat
  ino : Nat
  readPosition : Nat
  position : Nat
  regionSize : Nat
  baseRecordIndex : Nat
  generation : Nat
  batchLimit : Option UInt16
  batchSegs : List BatchSeg
  batchPos : List MsgPos
  maps : List MappedRegion
  header : Nat
  fileInstance : InstanceId
  wakeUntrusted : Bool
  wakeMiss : Option Nat
  deriving DecidableEq, Repr

/- A load through a mapping faults past the end of the region mapped, and on a page wholly past the
end of its file. A header is loaded whole, as the reference the code makes to it covers it. -/
def headerMapped (env : Env) (regionSize : Nat) (d : Disk) (map : MappedRegion) (off : Nat) : Bool :=
  off + headerSlot ≤ regionSize ∧
    map.regionIdx * regionSize + off + headerSlot ≤ (d.len map.ino + env.page - 1) / env.page * env.page

def faulted : IoError := .panicked "load outside the mapped file"

inductive ReaderMode where
  | live | lateJoin | at (index : UInt64)
  deriving DecidableEq, Repr

inductive SegmentStart where
  | beginning | head | at (readPos position : Nat)
  deriving DecidableEq, Repr

structure SegmentHeader where
  regionSize : Nat
  baseRecordIndex : Nat
  messageCount : Nat
  generation : Nat
  deriving DecidableEq, Repr

section Probes
variable {m : Type → Type} {τ : Type} [Observe Disk τ IoError m]

def openSegmentIfPresent (sequence : Nat) : m (Option Nat) := do
  Observe.syscall
  Observe.look fun d => d.segments sequence

/- The checks of a header that every open makes, without its kind. -/
def validatedIdentity (ino expectedRegionSize sequence : Nat) : m Identity := do
  lift (← Observe.look fun d => validateChannelHeader (d.data ino) expectedRegionSize sequence)
  lift (← Observe.look fun d => validateV4Prefix (d.data ino))

def segmentIsPublished (env : Env) (sequence : Nat) : m Bool := do
  match ← openSegmentIfPresent sequence with
  | none => return false
  | some ino =>
    if (← Observe.look fun d => d.len ino) < firstRecord then
      return false
    createReadOnly env 0 env.page
    let regionSize ← Observe.look fun d => regionSizeField (d.data ino)
    let _ ← validatedIdentity ino regionSize sequence
    lift (← Observe.look fun d => isPublished (d.data ino))

/- From the newest down; one that cannot be read is left for its open to report. -/
def latestPublished (env : Env) : List Nat → m (Option Nat)
  | [] => return none
  | seq :: older => do
    match ← Observe.attempt (segmentIsPublished env seq) with
    | .ok false => latestPublished env older
    | _ => return some seq

def findLatestPublishedSequence (env : Env) : m Nat := do
  let seqs ← Observe.look fun d => d.findAllSequences
  match ← latestPublished env seqs.reverse with
  | some seq => return seq
  | none => return seqs.head?.getD 0

def readSegmentHeader (env : Env) (ino sequence : Nat) : m SegmentHeader := do
  createReadOnly env 0 env.page
  let headerType ← lift (← Observe.look fun d => (MessageHeader.read (d.data ino) 0).parsedHeaderType)
  refuseIf (headerType ≠ .channel)
    (errInvalidData s!"segment {sequence} does not begin with a Channel header")
  let regionSize ← Observe.look fun d => regionSizeField (d.data ino)
  let _ ← validatedIdentity ino regionSize sequence
  let published ← lift (← Observe.look fun d => isPublished (d.data ino))
  refuseIf (¬ published)
    (.text .notFound s!"segment {sequence} is not published yet")
  let base ← Observe.look fun d => baseRecordIndex (d.data ino)
  let count ← Observe.look fun d => messageCount (d.data ino)
  let gen ← Observe.look fun d => Format.generation (d.data ino)
  return ⟨regionSize, base, count, gen⟩

/- The next segment is published, or this one was pruned. -/
def newerSegmentExists (env : Env) (sequence : Nat) : m Bool := do
  if ← segmentIsPublished env (sequence + 1) then
    return true
  return (← Observe.look fun d => d.segments sequence).isNone

/- `live_start`. The spin budget is a time, so how many rounds it lasts is left open: `spins`. -/
def liveStart (env : Env) (ino sequence regionSize : Nat) : Nat → Option Nat → m (Nat × Nat)
  | spins, mapped => do
    let wp ← Observe.look fun d => writePosition (d.data ino)
    let count ← Observe.look fun d => messageCount (d.data ino)
    if ← newerSegmentExists env sequence then
      Observe.fail .staleSegment
    let readPos := wp - headerSlot
    divisor regionSize
    let regionIdx := readPos / regionSize
    if mapped ≠ some regionIdx then
      let len ← Observe.look fun d => d.len ino
      -- Where the product would wrap, the mapping that far out is refused instead.
      refuseIf (len < (regionIdx + 1) * regionSize)
        (errInvalidData (s!"Live open: write_position slot {readPos} is past the end of the segment, " ++
          "but no newer segment exists"))
      createReadOnly env (regionIdx * regionSize) regionSize
    let base ← Observe.look fun d => baseRecordIndex (d.data ino)
    let committed ← lift (← Observe.look fun d =>
      if headerMapped env regionSize d ⟨sequence, regionIdx, ino⟩ (readPos % regionSize) then
        (MessageHeader.read (d.data ino) readPos).isCommitted
      else .error faulted)
    if ¬ committed then
      return (readPos, (base + count) % usize)
    let headerType ← lift (← Observe.look fun d => (MessageHeader.read (d.data ino) readPos).parsedHeaderType)
    if headerType = .roll then
      return (readPos, (base + count) % usize)
    match spins with
    | 0 =>
      let walked ← walkSegment env ino regionSize fun pos _ _ => readPos ≤ pos
      refuseIf (walked.pos ≠ readPos)
        (errInvalidData (s!"Live open: write_position slot {readPos} is not on the record chain " ++
          s!"(walk stopped at {walked.pos})"))
      return (readPos, (base + walked.users) % usize)
    | spins+1 => liveStart env ino sequence regionSize spins (some regionIdx)

/- Where `from_segment` starts: the slot and the index of the record there. -/
def startOf (env : Env) (spins ino sequence regionSize : Nat) : SegmentStart → m (Nat × Nat)
  | .beginning => do
    let base ← Observe.look fun d => baseRecordIndex (d.data ino)
    return (0, base)
  | .head => liveStart env ino sequence regionSize spins none
  | .at readPos position => return (readPos, position)

def fromSegment (env : Env) (spins sequence ino : Nat) (start : SegmentStart) : m Reader := do
  createReadOnly env 0 env.page
  let headerType ← lift (← Observe.look fun d => (MessageHeader.read (d.data ino) 0).parsedHeaderType)
  refuseIf (headerType ≠ .channel)
    (errInvalidData "file has another first header, expected Channel header")
  let regionSize ← Observe.look fun d => regionSizeField (d.data ino)
  let identity ← validatedIdentity ino regionSize sequence
  let published ← lift (← Observe.look fun d => isPublished (d.data ino))
  refuseIf (¬ published)
    (.text .notFound s!"segment {sequence} is not published yet")
  let (readPos, position) ← startOf env spins ino sequence regionSize start
  let base ← Observe.look fun d => baseRecordIndex (d.data ino)
  let gen ← Observe.look fun d => Format.generation (d.data ino)
  divisor regionSize
  let regionIndex := readPos / regionSize
  createReadOnly env (regionIndex * regionSize) regionSize
  return {
    fileSequence := sequence
    ino := ino
    readPosition := readPos
    position := position
    regionSize := regionSize
    baseRecordIndex := base
    generation := gen
    batchLimit := none
    batchSegs := []
    batchPos := []
    maps := [⟨sequence, regionIndex, ino⟩]
    header := ino
    fileInstance := identity.fileInstance
    wakeUntrusted := false
    wakeMiss := none }

def probe (env : Env) (sequence : Nat) : m (Option (Nat × SegmentHeader)) := do
  match ← openSegmentIfPresent sequence with
  | none => return none
  | some ino => return some (ino, ← readSegmentHeader env ino sequence)

/- A newest file installed ahead of its roll is not history. The list is newest first. -/
def dropUnpublished (env : Env) : List Nat → m (List Nat)
  | [] => return []
  | [seq] => return [seq]
  | seq :: older => do
    if ← segmentIsPublished env seq then
      return seq :: older
    dropUnpublished env older

/- The last segment whose base is at most `index`; `lo` always qualifies. -/
def searchLoop (env : Env) (seqs : List Nat) (index : Nat) : Nat → Nat → Nat → m (Option Nat)
  | 0, _, _ => Observe.fail (.panicked "binary search does not end")
  | rounds+1, lo, hi => do
    if hi ≤ lo then
      return some lo
    let mid := lo + (hi - lo + 1) / 2
    match ← probe env (seqs.getD mid 0) with
    | none => return none
    | some (_, header) =>
      if header.baseRecordIndex ≤ index then
        searchLoop env seqs index rounds mid hi
      else
        searchLoop env seqs index rounds lo (mid - 1)

/- The end of `locate`, once the segment is known: the walk to the record and the open. -/
def locateIn (env : Env) (index first earliestGeneration seq : Nat) : m (Option Reader) := do
  match ← probe env seq with
  | none => return none
  | some (ino, header) =>
    refuseIf (header.generation ≠ earliestGeneration)
      (errInvalidData (s!"generation mismatch: segment {seq} has generation {header.generation} but " ++
        s!"segment {first} has {earliestGeneration} (segments from a different incarnation of this path?)"))
    let skip := index - header.baseRecordIndex
    let walked ← walkSegment env ino header.regionSize fun _ headerType users =>
      headerType = .user ∧ users = skip
    refuseIf (walked.users ≠ skip ∨ walked.stop = .endOfFile)
      (errInvalidData (s!"segment {seq} holds {walked.users} user records before stopping, but its " ++
        s!"header implies record {index} is in it"))
    return some (← fromSegment env 0 seq ino (.at walked.pos index))

def locate (env : Env) (index : Nat) (expectedGeneration : Option Nat) : m (Option Reader) := do
  let listed ← Observe.look fun d => d.findAllSequences
  let seqs := (← dropUnpublished env listed.reverse).reverse
  match seqs.head?, seqs.getLast? with
  | some first, some last =>
    match ← probe env first with
    | none => return none
    | some (_, earliest) =>
      if let some expected := expectedGeneration then
        refuseIf (earliest.generation ≠ expected)
          (.generationMismatch expected earliest.generation)
      refuseIf (index < earliest.baseRecordIndex)
        (.indexPruned index earliest.baseRecordIndex)
      match ← probe env last with
      | none => return none
      | some (_, latest) =>
        let head := (latest.baseRecordIndex + latest.messageCount) % usize
        refuseIf (head < index)
          (.text .invalidInput s!"record {index} is past the channel head {head}")
        match ← searchLoop env seqs index seqs.length 0 (seqs.length - 1) with
        | none => return none
        | some lo => locateIn env index first earliest.generation (seqs.getD lo 0)
  | _, _ => Observe.fail (.text .notFound "no channel at the path")

def retriesExhausted : IoError := .text .notFound ("Reader::open: the segments kept rolling or " ++
  "disappearing under retention while opening (or none exist)")

def openLive (env : Env) (spins : Nat) : Nat → m Reader
  | 0 => Observe.fail retriesExhausted
  | retries+1 => do
    let seq ← findLatestPublishedSequence env
    match ← openSegmentIfPresent seq with
    | none => openLive env spins retries
    | some ino =>
      match ← Observe.attempt (fromSegment env spins seq ino .head) with
      | .ok reader => return reader
      | .error .staleSegment => openLive env spins retries
      | .error e => Observe.fail e

def openLateJoin (env : Env) : Nat → m Reader
  | 0 => Observe.fail retriesExhausted
  | retries+1 => do
    let seq ← Observe.look fun d => d.findEarliestSequence
    match ← openSegmentIfPresent seq with
    | none => openLateJoin env retries
    | some ino => fromSegment env 0 seq ino .beginning

def openAt (env : Env) (index : Nat) (expectedGeneration : Option Nat) : Nat → m Reader
  | 0 => Observe.fail retriesExhausted
  | retries+1 => do
    match ← locate env index expectedGeneration with
    | some reader => return reader
    | none => openAt env index expectedGeneration retries

abbrev maxOpenRetries : Nat := 8

def openMode (env : Env) (spins : Nat) (expectedGeneration : Option Nat) : ReaderMode → m Reader
  | .live => openLive env spins maxOpenRetries
  | .lateJoin => openLateJoin env maxOpenRetries
  | .at index => openAt env index.toNat expectedGeneration maxOpenRetries

def openWith (env : Env) (spins : Nat) (mode : ReaderMode) (expectedGeneration : Option Nat) : m Reader := do
  let reader ← openMode env spins expectedGeneration mode
  if let some expected := expectedGeneration then
    refuseIf (reader.generation ≠ expected)
      (.generationMismatch expected reader.generation)
  return reader

def headRecordIndex (env : Env) : m Nat := do
  let latest ← findLatestPublishedSequence env
  match ← openSegmentIfPresent latest with
  | none => Observe.fail (.text .notFound "No such file or directory")
  | some ino =>
    let header ← readSegmentHeader env ino latest
    return (header.baseRecordIndex + header.messageCount) % usize

def tailLoop (env : Env) (gen : Nat) : Nat → m Nat
  | 0 => Observe.fail retriesExhausted
  | retries+1 => do
    let seq ← Observe.look fun d => d.findEarliestSequence
    match ← openSegmentIfPresent seq with
    | none => tailLoop env gen retries
    | some ino =>
      let header ← readSegmentHeader env ino seq
      refuseIf (header.generation ≠ gen)
        (.generationMismatch gen header.generation)
      return header.baseRecordIndex

/- `tail_record_index` of a reader opened on generation `gen`. -/
def tailRecordIndex (env : Env) (gen : Nat) : m Nat := tailLoop env gen maxOpenRetries

end Probes

/- `reopen`, behind `seek`, `rewind` and `seek_to_head`: an error leaves the reader as it was. -/
def reopen {m : Type → Type} [Observe Disk Reader IoError m] (env : Env) (spins : Nat) (mode : ReaderMode) :
    m Unit := do
  let r ← Observe.self
  let fresh ← openWith env spins mode (some r.generation)
  Observe.become { fresh with batchLimit := r.batchLimit }

end Xchannel.ReaderOpen
