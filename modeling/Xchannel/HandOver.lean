import Xchannel.Interleaving
import Xchannel.Format

/-! A writer and its helper thread around the roll: the words they share, the successor installed ahead, the
queue of segments to delete. A step is one atomic access, or a section under a lock that the other side can only
find taken. Calls of the operating system do not fail, except where the helper may stop. -/
namespace Xchannel.HandOver
open Format

/-- What `prepare_segment_at` is given on either side; `initialLen` is what `preallocation_len` returns. -/
structure Spec where
  initialLen : Nat
  regionSize : Nat
  mtu : Nat
  channelName : List UInt8
  generation : Nat
  keepFiles : Option Nat
  ids : Nat → InstanceId
  kept : ∀ n, keepFiles = some n → 1 ≤ n
  idsNonzero : ∀ n, ids n ≠ 0

/-- The fields of a segment file that a roll looks at or stores. -/
structure SegmentFile where
  len : Nat
  regionSize : Nat
  sequence : Nat
  identity : Identity
  generation : Nat
  mtu : Nat
  channelName : List UInt8
  baseRecordIndex : Nat
  messageCount : Nat
  writePosition : Nat
  published : Bool
  deriving DecidableEq, Repr

/- `prepare_segment_at`: the mtu is narrowed to 32 bits. -/
def prepareSegmentAt (spec : Spec) (sequence : Nat) (identity : Identity) : SegmentFile where
  len := spec.initialLen
  regionSize := spec.regionSize
  sequence := sequence
  identity := identity
  generation := spec.generation
  mtu := spec.mtu % 2 ^ 32
  channelName := spec.channelName
  baseRecordIndex := 0
  messageCount := 0
  writePosition := firstRecord + headerSlot
  published := false

abbrev doomedQueue : Nat := 2
/- `NONE`. -/
abbrev noSequence : Nat := u64Max

structure NextSegment where
  sequence : Nat
  identity : Identity
  ino : Nat
  deriving DecidableEq, Repr

/-- Where the writer is in `roll_file`, in its retention or in its drop. `todo` are the segments this roll still has
to prune. -/
inductive WriterAt where
  | idle
  | taking | locking | missing | making
  | putting (identity : Identity) (ino : Nat)
  | adopting
  | staging (identity : Identity) (ino : Nat)
  | publishing (identity : Identity) (ino : Nat)
  | switching (identity : Identity) (ino : Nat)
  | handing (todo : List Nat) | storing (todo : List Nat) | releasing (todo : List Nat) | retaining (todo : List Nat)
  | checking (sequence : Nat) (todo : List Nat) | flying (sequence : Nat) (todo : List Nat)
  | unlinking (sequence : Nat) (todo : List Nat) | deleting (sequence : Nat) (todo : List Nat)
  | joining | discarding | draining | undeferring | dropped
  deriving DecidableEq, Repr

/-- Where the helper is in `run` and `prepare_segment`; `deleting` has the segments it took off the queue. -/
inductive HelperAt where
  | top
  | deleting (taken : List Nat)
  | reading
  | passing (sequence : Nat) | clearing (sequence : Nat) | fathering (sequence : Nat)
  | announcing (sequence : Nat) (parent : InstanceId) | judging (sequence : Nat) (parent : InstanceId)
  | making (sequence : Nat) (parent : InstanceId)
  | putting (sequence : Nat) (identity : Identity) (ino : Nat)
  | landing (sequence : Nat) (installed : Option (Identity × Nat))
  | offering (sequence : Nat) (identity : Identity) (ino : Nat)
  | failing | gone
  deriving DecidableEq, Repr

/-- The directory, the words of `Shared`, the writer and its helper. The last three fields are for statements only:
the segments retention has decided to unlink, those it has unlinked, and the errors of failed rolls. -/
structure State where
  names : Nat → Option Nat
  files : Nat → SegmentFile
  fresh : Nat
  claimed : Nat
  readySequence : Nat
  inFlight : Nat
  ready : Option NextSegment
  doomed : List Nat
  segment : Nat × InstanceId
  handoff : Option (Nat × InstanceId)
  currentSequence : Nat
  stop : Bool
  stopped : Bool
  fileSequence : Nat
  fileInstance : InstanceId
  ino : Nat
  deferredPrune : List Nat
  writer : WriterAt
  helper : HelperAt
  condemned : List Nat
  unlinked : List Nat
  failed : List IoError

namespace State

def next (s : State) : Nat := s.fileSequence + 1

def setFile (s : State) (ino : Nat) (f : SegmentFile) : State :=
  { s with files := fun i => if i = ino then f else s.files i }

/- A new file, still under a private name. -/
def allocate (s : State) (f : SegmentFile) : State := { s.setFile s.fresh f with fresh := s.fresh + 1 }

def install (s : State) (sequence ino : Nat) : State :=
  { s with names := fun q => if q = sequence then some ino else s.names q }

def removeFile (s : State) (sequence : Nat) : State :=
  { s with names := fun q => if q = sequence then none else s.names q }

/- `remove_file` for retention. -/
def delete (s : State) (sequence : Nat) : State :=
  { s.removeFile sequence with unlinked := s.unlinked ++ [sequence] }

/- A roll that returns an error. -/
def fail (s : State) (e : IoError) : State := { s with failed := s.failed ++ [e], writer := .idle }

end State

/- The checks of `adopt_successor`. -/
def adoptSuccessor (spec : Spec) (s : State) (f : SegmentFile) : Except IoError Unit := do
  let refuse (why : String) : Except IoError Unit :=
    .error (errInvalidData s!"segment {s.next} is already installed and {why}")
  if f.len ≠ spec.initialLen then
    refuse "has another length"
  if f.regionSize ≠ spec.regionSize then
    .error (errInvalidData s!"region_size mismatch: file={f.regionSize} expected={spec.regionSize}")
  if f.sequence ≠ s.next then
    .error (errInvalidData (s!"channel_sequence mismatch: header={f.sequence} but file is at " ++
      s!"sequence {s.next} (renamed, misplaced, or swapped segment file?)"))
  if f.identity.fileInstance = 0 then
    .error (errInvalidData "v4 file has a zero instance ID")
  if ¬ (f.identity.predecessor = 0 ↔ f.identity.predecessorSequence = u64Max) then
    .error (errInvalidData "v4 header extension names a predecessor by only one of ID and sequence")
  if f.published then
    refuse "is published"
  if f.identity.predecessor ≠ s.fileInstance ∨ f.identity.predecessorSequence ≠ s.fileSequence ∨
      f.generation ≠ spec.generation ∨ f.mtu ≠ spec.mtu ∨ f.channelName ≠ spec.channelName then
    refuse "belongs elsewhere"
  if f.messageCount ≠ 0 ∨ f.writePosition ≠ firstRecord + headerSlot then
    refuse "is not empty"

/- What this roll prunes: what earlier rolls deferred, then the segment that leaves the window. -/
def retention (spec : Spec) (s : State) : List Nat :=
  s.deferredPrune ++ match spec.keepFiles with
    | some n => if n ≤ s.next then [s.next - n] else []
    | none => []

/- `hand_off`: the lock on `segment` may be taken. -/
def handOff (busy : Bool) (s : State) : State :=
  match s.handoff with
  | none => s
  | some segment => if busy then s else { s with segment := segment, handoff := none }

/- One step of the writer's call; `busy` says that a `try_lock` finds the lock taken, `cloned` that the handle on the
new segment could be opened. -/
def writerStep (spec : Spec) (busy cloned : Bool) (s : State) : Option State :=
  match s.writer with
  | .idle | .dropped => none
  -- take or prepare the successor
  | .taking => some { s with writer := if s.readySequence = s.next then .locking else .missing }
  | .locking =>
    if busy then some { s with writer := .missing }
    else match s.ready with
      | none => some { s with writer := .missing }
      | some n =>
        if n.sequence ≠ s.next then some { s with writer := .missing }
        else some { s with
          ready := none
          readySequence := noSequence
          writer := if n.identity.predecessor = s.fileInstance ∧ n.identity.predecessorSequence = s.fileSequence then
            .staging n.identity n.ino else .missing }
  | .missing => some { s with writer := if (s.names s.next).isSome then .adopting else .making }
  | .making =>
    let identity := Identity.successor (spec.ids s.fresh) s.fileInstance s.fileSequence
    some { s.allocate (prepareSegmentAt spec s.next identity) with writer := .putting identity s.fresh }
  | .putting identity ino =>
    if (s.names s.next).isSome then some { s with writer := .adopting }
    else some { s.install s.next ino with writer := .staging identity ino }
  | .adopting =>
    match s.names s.next with
    | none => some (s.fail (.text .notFound "No such file or directory"))
    | some ino =>
      match adoptSuccessor spec s (s.files ino) with
      | .error e => some (s.fail e)
      | .ok () => some { s with writer := .staging (s.files ino).identity ino }
  -- stage the Roll and stamp the base; publish; commit the Roll and switch
  | .staging identity ino =>
    match RollEdge.after s.fileSequence (s.files s.ino).baseRecordIndex (s.files s.ino).messageCount identity.fileInstance with
    | .error e => some (s.fail e)
    | .ok edge =>
      some { s.setFile ino { s.files ino with baseRecordIndex := edge.nextBaseRecordIndex } with writer := .publishing identity ino }
  | .publishing identity ino => some { s.setFile ino { s.files ino with published := true } with writer := .switching identity ino }
  | .switching identity ino =>
    some { s with
      fileSequence := s.next
      fileInstance := identity.fileInstance
      ino := ino
      deferredPrune := []
      writer := .handing (retention spec s) }
  -- `rolled`
  | .handing todo =>
    if cloned then some { handOff busy { s with handoff := some (s.fileSequence, s.fileInstance) } with writer := .storing todo }
    else some { s with writer := .storing todo }
  | .storing todo => some { s with currentSequence := s.fileSequence, writer := .releasing todo }
  -- `release_if_stopped`
  | .releasing todo =>
    match s.stopped, s.doomed with
    | true, sequence :: rest => some { s.delete sequence with doomed := rest }
    | _, _ => some { s with writer := .retaining todo }
  -- `prune`, for one segment after the other
  | .retaining [] => some { s with writer := .idle }
  | .retaining (sequence :: todo) => some { s with writer := .checking sequence todo }
  | .checking sequence todo =>
    if s.stopped then some { s with condemned := s.condemned ++ [sequence], writer := .unlinking sequence todo }
    else some { s with writer := .flying sequence todo }
  | .flying sequence todo =>
    if s.inFlight = sequence then some { s with deferredPrune := s.deferredPrune ++ [sequence], writer := .retaining todo }
    else some { s with condemned := s.condemned ++ [sequence], writer := .unlinking sequence todo }
  | .unlinking sequence todo =>
    if s.doomed.length < doomedQueue then some { s with doomed := s.doomed ++ [sequence], writer := .releasing todo }
    else some { s with writer := .deleting sequence todo }
  | .deleting sequence todo => some { s.delete sequence with writer := .releasing todo }
  -- the drop: join the thread, discard an unused successor, delete what is left
  | .joining => if s.helper = .gone then some { s with writer := .discarding } else none
  | .discarding =>
    match s.ready with
    | none => some { s with writer := .draining }
    | some n =>
      if (s.files n.ino).published then some { s with ready := none, writer := .draining }
      else some { s.removeFile n.sequence with ready := none, writer := .draining }
  | .draining =>
    match s.doomed with
    | [] => some { s with writer := .undeferring }
    | sequence :: rest => some { s.delete sequence with doomed := rest }
  | .undeferring =>
    match s.deferredPrune with
    | [] => some { s with writer := .dropped }
    | sequence :: rest => some { s.delete sequence with deferredPrune := rest, condemned := s.condemned ++ [sequence] }

/- What the helper makes of the position it reads and of the calls that may fail. -/
inductive Turn where
  | goOn | skip | fail
  deriving DecidableEq, Repr

def helperStep (spec : Spec) (turn : Turn) (s : State) : Option State :=
  match s.helper with
  | .gone => none
  | .top => some { s with doomed := [], helper := .deleting s.doomed }
  | .deleting [] => some { s with helper := if s.stop then .gone else .reading }
  | .deleting (sequence :: taken) => some { s.delete sequence with helper := .deleting taken }
  | .reading =>
    match turn with
    | .goOn => some { s with helper := .passing ((s.currentSequence + 1) % usize) }
    | .skip => some { s with helper := .top }
    | .fail => some { s with helper := .failing }
  -- `prepare_segment`
  | .passing sequence => some { s with helper := if s.readySequence = sequence then .top else .clearing sequence }
  | .clearing sequence =>
    match s.ready with
    | none => some { s with helper := .fathering sequence }
    | some n =>
      if n.sequence ≤ s.claimed then some { s with ready := none, readySequence := noSequence, helper := .fathering sequence }
      else some { s with helper := if n.sequence = sequence then .top else .fathering sequence }
  | .fathering sequence =>
    some { s with helper := if (s.segment.1 + 1) % usize = sequence then .announcing sequence s.segment.2 else .top }
  | .announcing sequence parent => some { s with inFlight := sequence, helper := .judging sequence parent }
  | .judging sequence parent =>
    some { s with helper := if sequence ≤ s.claimed then .landing sequence none else .making sequence parent }
  | .making sequence parent =>
    match turn with
    | .fail => some { s with inFlight := noSequence, helper := .failing }
    | _ =>
      let identity := Identity.successor (spec.ids s.fresh) parent (sequence - 1)
      some { s.allocate (prepareSegmentAt spec sequence identity) with helper := .putting sequence identity s.fresh }
  | .putting sequence identity ino =>
    if (s.names sequence).isSome then some { s with helper := .landing sequence none }
    else some { s.install sequence ino with helper := .landing sequence (some (identity, ino)) }
  | .landing sequence installed =>
    match turn, installed with
    | .fail, some _ => some { s with inFlight := noSequence, helper := .failing }
    | _, some (identity, ino) => some { s with inFlight := noSequence, helper := .offering sequence identity ino }
    | _, none => some { s with inFlight := noSequence, helper := .top }
  | .offering sequence identity ino =>
    if s.claimed < sequence then
      some { s with ready := some ⟨sequence, identity, ino⟩, readySequence := sequence, helper := .top }
    else some { s with helper := .top }
  | .failing => some { s with stopped := true, helper := .gone }

/-- A step of either side: what the user of an idle writer does, or one step of the writer or the helper. A roll may
find no room left in the region. -/
inductive Move where
  | commit | roll (full : Option Nat) | moved (busy : Bool) | drop
  | writer (busy cloned : Bool)
  | helper (turn : Turn)
  deriving DecidableEq, Repr

def step (spec : Spec) (s : State) : Move → Option State
  | .commit =>
    if s.writer = .idle then
      some (s.setFile s.ino { s.files s.ino with messageCount := ((s.files s.ino).messageCount + 1) % usize })
    else none
  | .roll full =>
    if s.writer = .idle then
      match full with
      | some position => some (s.fail (errInvalidData s!"no room for a Roll at {position}"))
      | none =>
        if usize ≤ s.next then some (s.fail (.text .invalidInput "file sequence exhausted"))
        else some { s with claimed := s.next, writer := .taking }
    else none
  | .moved busy => if s.writer = .idle then some { handOff busy s with writer := .releasing [] } else none
  | .drop => if s.writer = .idle then some { s with stop := true, writer := .joining } else none
  | .writer busy cloned => writerStep spec busy cloned s
  | .helper turn => helperStep spec turn s

end Xchannel.HandOver
