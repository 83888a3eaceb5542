import Xchannel.CrashProgram
import Xchannel.Format

/-! The directory and the files of one channel, changed by single stores and file operations.
A name leads to an inode, so an unlinked file stays readable through a handle; final names are
their sequence numbers, private names the pair of a sequence and an instance. -/
namespace Xchannel.Storage
open ByteMemory Format

structure File where
  len : Nat
  data : Mem

structure Attempt where
  sequence : Nat
  fileInstance : InstanceId
  ino : Nat
  deriving DecidableEq, Repr

/-- `bound` is past every final name ever installed; `fresh` is the next unused inode. The
history of publications is a ghost: the inodes published so far, which no program looks at. -/
structure Disk where
  files : Nat → File
  fresh : Nat
  segments : Nat → Option Nat
  bound : Nat
  attempts : List Attempt
  history : List Nat

namespace Disk

def empty : Disk := ⟨fun _ => ⟨0, fun _ => 0⟩, 0, fun _ => none, 0, [], []⟩

def data (d : Disk) (ino : Nat) : Mem := (d.files ino).data
def len (d : Disk) (ino : Nat) : Nat := (d.files ino).len

def setFile (d : Disk) (ino : Nat) (f : File) : Disk :=
  { d with files := fun i => if i = ino then f else d.files i }

def findAttempt (d : Disk) (sequence : Nat) (fileInstance : InstanceId) : Option Attempt :=
  d.attempts.find? fun a => a.sequence = sequence ∧ a.fileInstance = fileInstance

def dropAttempt (d : Disk) (sequence : Nat) (fileInstance : InstanceId) : List Attempt :=
  d.attempts.filter fun a => ¬ (a.sequence = sequence ∧ a.fileInstance = fileInstance)

end Disk

/-- One atomic change: a store, the release store of a `committed` byte or of a publication
state, or a file operation. -/
inductive Op where
  | store (ino off : Nat) (bytes : List UInt8)
  | commit (ino off : Nat)
  | publish (ino : Nat)
  | setLen (ino len : Nat)
  | create (sequence : Nat) (fileInstance : InstanceId)
  | install (sequence : Nat) (fileInstance : InstanceId)
  | unlink (sequence : Nat)
  | unlinkAttempt (sequence : Nat) (fileInstance : InstanceId)
  deriving DecidableEq, Repr

namespace Disk

def apply (d : Disk) : Op → Disk
  | .store ino off bytes => d.setFile ino { d.files ino with data := write (d.data ino) off bytes }
  | .commit ino off => d.setFile ino { d.files ino with data := write (d.data ino) off [1] }
  | .publish ino =>
      { d.setFile ino { d.files ino with data := write (d.data ino) 192 [1] } with
        history := d.history ++ [ino] }
  | .setLen ino len =>
      d.setFile ino ⟨len, fun a => if a < len ∧ a < d.len ino then d.data ino a else 0⟩
  | .create sequence fileInstance =>
      { d.setFile d.fresh ⟨0, fun _ => 0⟩ with
        fresh := d.fresh + 1
        attempts := d.attempts ++ [⟨sequence, fileInstance, d.fresh⟩] }
  | .install sequence fileInstance =>
      match d.findAttempt sequence fileInstance with
      | none => d
      | some a =>
        { d with
          segments := fun s => if s = sequence then some a.ino else d.segments s
          bound := max d.bound (sequence + 1)
          attempts := d.dropAttempt sequence fileInstance }
  | .unlink sequence => { d with segments := fun s => if s = sequence then none else d.segments s }
  | .unlinkAttempt sequence fileInstance => { d with attempts := d.dropAttempt sequence fileInstance }

/- `find_all_sequences`: the final names present, ascending. -/
def findAllSequences (d : Disk) : List Nat :=
  (List.range d.bound).filter fun s => (d.segments s).isSome

def findEarliestSequence (d : Disk) : Nat := d.findAllSequences.head?.getD 0
def findLatestSequence (d : Disk) : Nat := d.findAllSequences.getLast?.getD 0

/- The newest name, when it is known which one that is. -/
theorem latestEq {d : Disk} {s : Nat} (present : (d.segments s).isSome) (low : s < d.bound)
    (newest : ∀ k, (d.segments k).isSome → k ≤ s) : d.findLatestSequence = s := by
  obtain ⟨extra, bound⟩ := Nat.exists_eq_add_of_le (Nat.succ_le_of_lt low)
  have above : (List.map (s + 1 + ·) (List.range extra)).filter (fun k => (d.segments k).isSome) = [] := by
    rw [List.filter_eq_nil_iff]
    intro k mem some
    obtain ⟨j, _, rfl⟩ := List.mem_map.mp mem
    have := newest _ some
    omega
  have split : d.findAllSequences = (List.range s).filter (fun k => (d.segments k).isSome) ++ [s] := by
    rw [findAllSequences, bound, List.range_add, List.filter_append, above, List.append_nil, List.range_succ,
      List.filter_append, List.filter_singleton, present]
    rfl
  rw [findLatestSequence, split, List.getLast?_append, List.getLast?_singleton]
  rfl

theorem latestNone {d : Disk} (absent : ∀ k, d.segments k = none) : d.findLatestSequence = 0 := by
  have none : d.findAllSequences = [] := by
    rw [findAllSequences, List.filter_eq_nil_iff]
    simp [absent]
  rw [findLatestSequence, none]
  rfl

end Disk

/-- What the operating system supplies: its page size, the instance ID that the file created as
inode `n` gets from the random source, and what memory is mapped behind a region, if any is. -/
structure Env where
  page : Nat
  ids : Nat → InstanceId
  behind : Option Mem
  pageSize : ∃ k, 12 ≤ k ∧ k ≤ 24 ∧ page = 2 ^ k
  idsNonzero : ∀ n, ids n ≠ 0

def checkAlignment (env : Env) (baseOffset regionSize : Nat) : Except IoError Unit := do
  if regionSize = 0 then
    throw (.text .invalidInput "region_size must be > 0")
  if regionSize % env.page ≠ 0 then
    throw (.text .invalidInput s!"region_size ({regionSize}) must be a multiple of OS page size ({env.page})")
  if baseOffset % env.page ≠ 0 then
    throw (.text .invalidInput s!"base_offset ({baseOffset}) must be page-aligned (page={env.page})")

theorem alignedOk {env : Env} {baseOffset regionSize : Nat} (positive : 0 < regionSize)
    (paged : regionSize % env.page = 0) (aligned : baseOffset % env.page = 0) :
    checkAlignment env baseOffset regionSize = .ok () := by
  simp only [checkAlignment, bind, Except.bind, pure, Except.pure, throw, throwThe, MonadExceptOf.throw]
  rw [refusedOk, refusedOk, refusedOk]
  exact ⟨by omega, by omega, by omega, rfl⟩

/- Bytes read through the mapping of the region that starts at `start`; a load past its end finds what is
mapped behind it, or faults. -/
def loadMapped (env : Env) (regionSize : Nat) (m : Mem) (start off len : Nat) : Except IoError (List UInt8) :=
  let inside := regionSize - off
  if len ≤ inside then .ok (slice m (start + off) len)
  else match env.behind with
    | none => .error (.panicked "load outside the mapped file")
    | some memory => .ok (slice m (start + off) inside ++ slice memory 0 (len - inside))

theorem loadInside {env : Env} {regionSize off len : Nat} (m : Mem) (start : Nat) (inside : off + len ≤ regionSize) :
    loadMapped env regionSize m start off len = .ok (slice m (start + off) len) :=
  if_pos (by omega)

end Xchannel.Storage
