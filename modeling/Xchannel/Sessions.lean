import Xchannel.WriterOpen
import Xchannel.ChannelLog

/-! Writer sessions: a program that opens a writer, reserves, fills, commits and rolls as it likes,
and is killed between any two operations. A history of a channel is any number of them. -/
namespace Xchannel.Sessions
open ByteMemory Format Storage CrashProgram ChannelLog WriterCalls WriterOpen

/-- What the user of a writer holds. The slice of the last reservation is borrowed from the writer,
so it is there only until the next call. The last two fields are for statements only: what the
reserved bytes hold, and the records whose commit returned `Ok`. -/
structure Session where
  writer : Writer
  buffer : Option Buffer
  contents : List UInt8
  accepted : List Record
  deriving DecidableEq, Repr

def Session.start (w : Writer) : Session := ⟨w, none, [], []⟩

inductive Call where
  | reserve (msgSize : UInt64)
  | fill (start : Nat) (bytes : List UInt8)
  | commit (msgType : UInt16) (length : UInt32) (userMetaU64 : UInt64)
  | rollFile
  deriving DecidableEq, Repr

abbrev User (α : Type) := Io Session α

def onWriter {α : Type} (x : Self α) : User α := Act.zoom Session.writer (fun w s => { s with writer := w }) x

def release : User Unit := do
  let s ← Act.self
  Act.become { s with buffer := none }

def patch (contents : List UInt8) (start : Nat) (bytes : List UInt8) : List UInt8 :=
  contents.take start ++ bytes ++ contents.drop (start + bytes.length)

def perform (env : Env) : Call → User Unit
  | .reserve msgSize => do
    release
    let b ← onWriter (tryReserve env msgSize)
    let bytes ← Act.look fun d => slice (d.data b.ino) b.off b.len
    let s ← Act.self
    Act.become { s with buffer := some b, contents := bytes }
  | .fill start bytes => do
    let s ← Act.self
    match s.buffer with
    | none => return ()
    | some b =>
      Act.refuseIf (b.len < start + bytes.length)
        (.panicked "range end index out of range for slice")
      Act.emit [.store b.ino (b.off + start) bytes]
      Act.become { s with contents := patch s.contents start bytes }
  | .commit msgType length userMetaU64 => do
    release
    onWriter (commit msgType length userMetaU64)
    let s ← Act.self
    Act.become { s with
      accepted := s.accepted ++ [⟨msgType, userMetaU64, s.contents.take length.toNat⟩] }
  | .rollFile => do
    release
    onWriter (rollFile env)

/- An error goes back to the user, who may go on. -/
def serve (env : Env) : List Call → User Unit
  | [] => return ()
  | c :: calls => do
    let _ ← Act.attempt (perform env c)
    serve env calls

def sessionOps (env : Env) (cfg : Config) (calls : List Call) (d : Disk) : List Op :=
  match (build env cfg : Io Unit Writer) () d with
  | (ops, .error _, _) => ops
  | (ops, .ok w, _) => ops ++ (serve env calls).ops (.start w) (run Disk.apply d ops)

/-- One session: it performs at most `kill` operations. -/
structure Life where
  config : Config
  formed : Formed config
  calls : List Call
  kill : Nat

def Life.ops (env : Env) (l : Life) (d : Disk) : List Op := (sessionOps env l.config l.calls d).take l.kill

/- The operations of one session after the other. -/
def timeline (env : Env) : Disk → List Life → List Op
  | _, [] => []
  | d, l :: lives => l.ops env d ++ timeline env (run Disk.apply d (l.ops env d)) lives

def after (env : Env) (lives : List Life) : Disk := run Disk.apply Disk.empty (timeline env Disk.empty lives)

/- A system with 4 KiB pages, and a channel of one-page regions that never rolls by itself. -/
def smallEnv : Env where
  page := 4096
  ids := fun n => if n < 2 ^ 64 then BitVec.ofNat 128 (n + 1) else 1
  behind := none
  pageSize := ⟨12, by omega, by omega, rfl⟩
  idsNonzero := by
    intro n
    split
    · intro zero
      have := congrArg BitVec.toNat zero
      simp at this
      omega
    · decide

def smallConfig : Config := ⟨4096, 0, 0, none, List.replicate 48 0, 0, 0, false⟩

theorem smallFormed : Formed smallConfig := ⟨rfl, nofun⟩

/- A record, a roll, a short commit and a reopening. -/
def smallLives : List Life :=
  [⟨smallConfig, smallFormed, [.reserve 100, .fill 0 [1, 2, 3], .commit 7 100 9, .rollFile, .reserve 40, .commit 8 3 0],
    200⟩, ⟨smallConfig, smallFormed, [.reserve 0, .commit 5 0 1], 60⟩]

/- A reservation whose sums wrap to an empty record, and a commit that crosses the region, or that
lays the next header over the start of it. -/
def wrappedLives (length : UInt32) (more : List Call) : List Life :=
  [⟨smallConfig, smallFormed, [.reserve 18446744073709551600, .commit 0 length 0] ++ more, 1000⟩]

end Xchannel.Sessions
