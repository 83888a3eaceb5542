import Xchannel.Observation
import Xchannel.Storage

/-! `walk_segment_from`: the header-only walk over the records of one segment, for seeking and
recovery. It steps over records by their `length` and never touches a payload. -/
namespace Xchannel.SegmentWalk
open ByteMemory Format Storage Observation

inductive WalkStop where
  | visitor | uncommitted | roll | endOfFile
  deriving DecidableEq, Repr

structure WalkEnd where
  pos : Nat
  users : Nat
  stop : WalkStop
  deriving DecidableEq, Repr

variable {m : Type → Type} {τ : Type} [Observe Disk τ IoError m]

/- A remainder or quotient by zero panics. -/
def divisor (n : Nat) : m Unit := refuseIf (n = 0) (.panicked "attempt to divide by zero")

/- `RegionMapping::create_read_only`: what is mapped is seen by the looks. -/
def createReadOnly (env : Env) (baseOffset regionSize : Nat) : m Unit := do
  lift (checkAlignment env baseOffset regionSize)
  Observe.syscall

/- `fuel` bounds the records walked: a caller gives the file's length, and no record takes less
than a header. -/
def walkLoop (env : Env) (ino regionSize fileLen : Nat) (stop : Nat → HeaderType → Nat → Bool) :
    Nat → Option Nat → Nat → Nat → m WalkEnd
  | 0, _, _, _ => Observe.fail (.panicked "segment walk does not end")
  | fuel+1, mapped, pos, users => do
    divisor regionSize
    let regionIdx := pos / regionSize
    if fileLen < (regionIdx + 1) * regionSize then
      return ⟨pos, users, .endOfFile⟩
    if mapped ≠ some regionIdx then
      createReadOnly env (regionIdx * regionSize) regionSize
    let off := pos % regionSize
    let leftover := regionSize - off
    refuseIf (leftover < headerSlot)
      (errInvalidData "segment walk landed in a region's tail hole")
    let committed ← lift (← Observe.look fun d => (MessageHeader.read (d.data ino) pos).isCommitted)
    if ¬ committed then
      return ⟨pos, users, .uncommitted⟩
    let mh ← Observe.look fun d => MessageHeader.read (d.data ino) pos
    let headerType ← lift mh.parsedHeaderType
    if stop pos headerType users then
      return ⟨pos, users, .visitor⟩
    if headerType = .roll then
      refuseIf (mh.length.toNat ≠ rollPayload ∨ regionSize < off + rollTotal)
        (errInvalidData
          s!"segment walk: Roll at {pos} has a {mh.length}-byte body, not 40")
      return ⟨pos, users, .roll⟩
    let totalLen := headerSlot + mh.length.toNat
    refuseIf (leftover < totalLen)
      (errInvalidData "segment walk: record extends past its region")
    walkLoop env ino regionSize fileLen stop fuel (some regionIdx) (alignUp (pos + totalLen))
      (if headerType = .user then users + 1 else users)

def walkSegmentFrom (env : Env) (ino regionSize start : Nat) (stop : Nat → HeaderType → Nat → Bool) : m WalkEnd := do
  let fileLen ← Observe.look fun d => d.len ino
  walkLoop env ino regionSize fileLen stop (fileLen + 1) none start 0

def walkSegment (env : Env) (ino regionSize : Nat) (stop : Nat → HeaderType → Nat → Bool) : m WalkEnd :=
  walkSegmentFrom env ino regionSize 0 stop

/- The walk of a process that alone changes the disk: every load sees the same state. -/
def walkOn (env : Env) (d : Disk) (ino regionSize start : Nat) : Except IoError WalkEnd :=
  ((walkSegmentFrom env ino regionSize start fun _ _ _ => false : Static Disk Unit IoError WalkEnd) d ()).1

end Xchannel.SegmentWalk
