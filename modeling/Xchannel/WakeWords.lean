import Xchannel.Interleaving
import Xchannel.Format

/-! Readers that sleep on wake words: one thread in `wait_for_message` or `wait_any`, and the writers of its
channels. A step is one access to shared memory or one call of the kernel; a futex wait compares and goes to sleep in
one step. Segments are the kinds of their committed records. -/
namespace Xchannel.WakeWords
open Format (HeaderType usize)

/-- A segment of a channel; `bumps` counts those of the word since it held `startWord`. -/
structure Segment where
  records : List HeaderType
  messageCount : Nat
  wakes : Bool
  startWord : Nat
  bumps : Nat
  deriving DecidableEq, Repr

def Segment.wakeWord (g : Segment) : Nat := (g.startWord + g.bumps) % 2 ^ 32

/-- Where a writer is in `commit`, `roll_over_region` or `roll_file`: the next store it makes, or its `FUTEX_WAKE`. -/
inductive WriterAt where
  | idle
  | counting
  | positioning (kind : HeaderType)
  | bumping (kind : HeaderType)
  | waking (kind : HeaderType)
  | rolling
  deriving DecidableEq, Repr

structure Channel where
  wake : Bool
  segments : Nat → Segment
  current : Nat
  writer : WriterAt

namespace Channel

def own (ch : Channel) : Segment := ch.segments ch.current

def setSegment (ch : Channel) (sequence : Nat) (g : Segment) : Channel :=
  { ch with segments := Function.update ch.segments sequence g }

/- A committed flag is set. -/
def append (ch : Channel) (kind : HeaderType) : Channel :=
  ch.setSegment ch.current { ch.own with records := ch.own.records ++ [kind] }

/- The end of the call: after a Roll the writer is on the successor. -/
def settle (ch : Channel) (kind : HeaderType) : Channel :=
  { ch with current := if kind = .roll then ch.current + 1 else ch.current, writer := .idle }

def commit (ch : Channel) : Channel := { ch.append .user with writer := .counting }

/- `roll_over_region` counts and wakes nothing. -/
def skip (ch : Channel) : Channel := { ch.append .skip with writer := .positioning .skip }

/- The successor is published before the Roll is committed; its flag says what this writer does. -/
def roll (ch : Channel) : Channel :=
  { ch.setSegment (ch.current + 1) ⟨[.channel], 0, ch.wake, 0, 0⟩ with writer := .rolling }

def advance (ch : Channel) : Option Channel :=
  match ch.writer with
  | .idle => none
  | .counting =>
    some { ch.setSegment ch.current { ch.own with messageCount := (ch.own.messageCount + 1) % usize } with
      writer := .positioning .user }
  | .positioning kind =>
    if ch.wake = true ∧ kind ≠ .skip then some { ch with writer := .bumping kind } else some (ch.settle kind)
  -- `wake_all`
  | .bumping kind => some { ch.setSegment ch.current { ch.own with bumps := ch.own.bumps + 1 } with writer := .waking kind }
  | .waking kind => some (ch.settle kind)
  | .rolling => some { ch.append .roll with writer := .positioning .roll }

end Channel

/-- `missedAt` is for statements only: the bumps and the cursor of the last miss. -/
structure Reader where
  channel : Nat
  fileSequence : Nat
  position : Nat
  wakeUntrusted : Bool
  wakeMiss : Option Nat
  missedAt : Nat × Nat
  deriving DecidableEq, Repr

/-- What a call loads for a reader before it looks; `bumps` is for statements only. -/
structure Seen where
  sequence : Nat
  value : Option Nat
  bumps : Nat
  deriving DecidableEq, Repr

/-- A word to sleep on, with the value expected. -/
structure Word where
  channel : Nat
  sequence : Nat
  value : Nat
  deriving DecidableEq, Repr

/-- Where the call is. Both calls load for every reader, look with every reader and then sleep; after a full sleep that
ran out they look again. -/
inductive WaitAt where
  | returned (found : Option Nat)
  | loading (seen : List Seen)
  | looking (seen : List Seen) (i : Nat)
  | deciding (seen : List Seen)
  | asleep (seen : List Seen) (words : List Word) (full : Bool)
  | judging (seen : List Seen) (i : Nat)
  | distrusting (seen : List Seen) (i : Nat)
  deriving DecidableEq, Repr

structure State where
  channels : Nat → Channel
  readers : Nat → Reader
  single : Bool
  call : List Nat
  phase : WaitAt

abbrev waitvMax : Nat := 128

namespace State

def channelOf (s : State) (r : Reader) : Channel := s.channels r.channel
def segmentOf (s : State) (r : Reader) : Segment := (s.channelOf r).segments r.fileSequence
/- The header at the cursor, if it is committed. -/
def header (s : State) (r : Reader) : Option HeaderType := (s.segmentOf r).records[r.position]?

def setChannel (s : State) (c : Nat) (ch : Channel) : State := { s with channels := Function.update s.channels c ch }
def setReader (s : State) (k : Nat) (r : Reader) : State := { s with readers := Function.update s.readers k r }

end State

/- Past a header that is not a user record; `open_next_file` for a Roll. -/
def Reader.pass (r : Reader) : HeaderType → Reader
  | .roll => { r with fileSequence := r.fileSequence + 1, position := 0, wakeUntrusted := false, wakeMiss := none }
  | _ => { r with position := r.position + 1 }

def wakeWordIfWaking (s : State) (r : Reader) : Option Nat :=
  if r.wakeUntrusted then none else if (s.segmentOf r).wakes then some (s.segmentOf r).wakeWord else none

def distrustFlagIfUnwoken (s : State) (r : Reader) (sequence seen : Nat) : Reader :=
  if r.fileSequence ≠ sequence ∨ (s.segmentOf r).wakeWord ≠ seen then r
  else if r.wakeMiss = some seen then { r with wakeUntrusted := true }
  else { r with wakeMiss := some seen, missedAt := ((s.segmentOf r).bumps, r.position) }

/- A reader that followed a roll while looking has a stale word. -/
def wordOf (s : State) (k : Nat) (seen : Seen) : Option Word :=
  let r := s.readers k
  if r.fileSequence = seen.sequence then seen.value.map fun v => ⟨r.channel, r.fileSequence, v⟩ else none

def wordsOf (s : State) (seen : List Seen) : List Word :=
  (s.call.zip seen).filterMap fun e => wordOf s e.1 e.2

/- The comparison of a futex wait. -/
def holds (s : State) (w : Word) : Bool := ((s.channels w.channel).segments w.sequence).wakeWord == w.value

/- What the clock and the kernel decide: the deadline has passed, it leaves a whole capped sleep, `futex_waitv` is
there, the sleep ran out (or was interrupted). -/
structure Timing where
  expired : Bool
  long : Bool
  available : Bool
  timedOut : Bool
  deriving DecidableEq, Repr

def decideSleep (t : Timing) (s : State) (seen : List Seen) : WaitAt :=
  let words := wordsOf s seen
  if t.expired then .returned none
  else if s.single then
    -- with no word the thread sleeps the backoff, or looks again after a roll
    if words ≠ [] ∧ words.all (holds s) then .asleep seen words t.long else .loading []
  else if words ≠ [] ∧ words.length ≤ waitvMax ∧ t.available ∧ words.all (holds s) then
    .asleep seen words (words.length == s.call.length && t.long)
  else .loading []

def threadStep (t : Timing) (s : State) : Option State :=
  match s.phase with
  | .returned _ => none
  | .loading seen =>
    match s.call[seen.length]? with
    | none => some { s with phase := .looking seen 0 }
    | some k =>
      let r := s.readers k
      some { s with phase := .loading (seen ++ [⟨r.fileSequence, wakeWordIfWaking s r, (s.segmentOf r).bumps⟩]) }
  -- `poll_for_user_message`, one header a step, for one reader after the other
  | .looking seen i =>
    match s.call[i]? with
    | none => some { s with phase := .deciding seen }
    | some k =>
      match s.header (s.readers k) with
      | none => some { s with phase := .looking seen (i + 1) }
      | some .user => some { s with phase := .returned (some i) }
      | some kind => some (s.setReader k ((s.readers k).pass kind))
  | .deciding seen => some { s with phase := decideSleep t s seen }
  | .asleep seen _ full => some { s with phase := if t.timedOut && full then .judging seen 0 else .loading [] }
  | .judging seen i =>
    match s.call[i]? with
    | none => some { s with phase := .loading [] }
    | some k =>
      match s.header (s.readers k) with
      | none => some { s with phase := .judging seen (i + 1) }
      | some .user => some { s with phase := .distrusting seen i }
      | some kind => some (s.setReader k ((s.readers k).pass kind))
  | .distrusting seen i =>
    match s.call[i]?, seen[i]? with
    | some k, some ⟨sequence, some value, _⟩ =>
      some { s.setReader k (distrustFlagIfUnwoken s (s.readers k) sequence value) with phase := .returned (some i) }
    | _, _ => some { s with phase := .returned (some i) }

/- `FUTEX_WAKE`. -/
def futexWake (c sequence : Nat) : WaitAt → WaitAt
  | .asleep seen words full =>
    if words.any fun w => w.channel == c && w.sequence == sequence then .loading [] else .asleep seen words full
  | x => x

def writerStep (s : State) (c : Nat) : Option State :=
  let ch := s.channels c
  ch.advance.map fun next =>
    match ch.writer with
    | .waking _ => { s.setChannel c next with phase := futexWake c ch.current s.phase }
    | _ => s.setChannel c next

/-- A step of a writer or of the thread, or what their users call. A reading call takes one header a step. -/
inductive Move where
  | commit (c : Nat) | skip (c : Nat) | roll (c : Nat) | writer (c : Nat)
  | consume (k : Nat) | waitForMessage (k : Nat) | waitAny (call : List Nat)
  | thread (t : Timing)
  deriving DecidableEq, Repr

def onIdle (s : State) (c : Nat) (f : Channel → Channel) : Option State :=
  if (s.channels c).writer = .idle then some (s.setChannel c (f (s.channels c))) else none

/- The readers of `wait_any` are distinct: it borrows each of them. -/
def step (s : State) : Move → Option State
  | .commit c => onIdle s c Channel.commit
  | .skip c => onIdle s c Channel.skip
  | .roll c => onIdle s c Channel.roll
  | .writer c => writerStep s c
  | .thread t => threadStep t s
  | .consume k =>
    match s.phase, s.header (s.readers k) with
    | .returned _, some kind => some (s.setReader k ((s.readers k).pass kind))
    | _, _ => none
  | .waitForMessage k =>
    match s.phase with
    | .returned _ => some { s with single := true, call := [k], phase := .loading [] }
    | _ => none
  | .waitAny call =>
    match s.phase with
    | .returned _ => if call ≠ [] ∧ call.Nodup then some { s with single := false, call := call, phase := .loading [] } else none
    | _ => none

end Xchannel.WakeWords
