import Xchannel.SegmentWalk
import Xchannel.SegmentInvariant

/-! What the segment walk returns on a segment that stands still: it follows the record chain and
stops at its end, with the number of User records it stepped over. -/
namespace Xchannel.WalkSpecs
open ByteMemory Format Storage RecordChain SegmentInvariant Observation SegmentWalk

variable {τ : Type} {env : Env} {R ino fileLen : Nat} {d : Disk} {t : τ} {stop : Nat → HeaderType → Nat → Bool}

theorem committedOk {m : Mem} {p : Nat} (h : m p = 1) : (MessageHeader.read m p).isCommitted = .ok true := by
  simp [MessageHeader.isCommitted, MessageHeader.read, h]

theorem uncommittedOk {m : Mem} {p : Nat} (h : m p = 0) : (MessageHeader.read m p).isCommitted = .ok false := by
  simp [MessageHeader.isCommitted, MessageHeader.read, h]

theorem kindOk {m : Mem} {p : Nat} {k : HeaderType} (h : m (p + 1) = k.raw) :
    (MessageHeader.read m p).parsedHeaderType = .ok k := by
  show HeaderType.fromRaw (m (p + 1)) = .ok k
  rw [h, fromRawRaw]

/- A mapping of a whole region is no part of what is seen. -/
theorem createIdle {base : Nat} (paged : R % env.page = 0) (positive : 0 < R) (aligned : base % env.page = 0)
    {β : Type} (f : Unit → Static Disk τ IoError β) : (createReadOnly env base R >>= f) d t = f () d t := by
  unfold createReadOnly
  rw [alignedOk positive paged aligned]
  rfl

theorem mapIdle {c : Prop} [Decidable c] {k : Nat} (paged : R % env.page = 0) (positive : 0 < R)
    {β : Type} (f : Unit → Static Disk τ IoError β) :
    (if c then (createReadOnly env (k * R) R >>= f) else f () : Static Disk τ IoError β) d t = f () d t := by
  split
  · exact createIdle paged positive (by rw [Nat.mul_mod, paged, Nat.mul_zero, Nat.zero_mod]) f
  · rfl

/- One record further. -/
theorem walkRecord (paged : R % env.page = 0) {p : Nat} {k : HeaderType} (here : RecordAt R (d.data ino) p k) (positive : 16 ≤ R)
    (inside : (p / R + 1) * R ≤ fileLen) (bound : fileLen ≤ 2 ^ 63 - 1) (fuel users : Nat) (mapped : Option Nat)
    (go : stop p k users = false) :
    (walkLoop env ino R fileLen stop (fuel + 1) mapped p users : Static Disk τ IoError WalkEnd) d t =
      (walkLoop env ino R fileLen stop fuel (some (p / R)) (nextSlot (d.data ino) p)
        (if k = .user then users + 1 else users) : Static Disk τ IoError WalkEnd) d t := by
  have fits := here.fits
  have len := readLength (d.data ino) p
  have small := lengthLt (d.data ino) p
  have split := slotSplit R p
  have expand : (p / R + 1) * R = p / R * R + R := by ring
  have next : alignUp (p + (headerSlot + lengthAt (d.data ino) p)) = nextSlot (d.data ino) p := by
    show alignUp (p + (16 + _)) = _
    rw [← Nat.add_assoc, alignUpEq (by omega)]
    rfl
  rw [walkLoop]
  unfold divisor
  rw [Static.refuseRun _ _ (by omega), if_neg (by omega), mapIdle paged (by omega)]
  dsimp only
  rw [Static.refuseRun _ _ (by show ¬ (_ < 16); omega), Static.lookRun, committedOk here.committed, Static.liftOk,
    if_neg (by simp), Static.lookRun, kindOk here.kind, Static.liftOk, go, if_neg (by simp), if_neg here.notRoll, len,
    Static.refuseRun _ _ (by show ¬ (_ < 16 + _); omega), next]

/- The open end of the newest segment. -/
theorem walkOpen (paged : R % env.page = 0) {p : Nat} (free : d.data ino p = 0) (room : p % R + 16 ≤ R) (positive : 16 ≤ R)
    (inside : (p / R + 1) * R ≤ fileLen) (fuel users : Nat) (mapped : Option Nat) :
    (walkLoop env ino R fileLen stop (fuel + 1) mapped p users : Static Disk τ IoError WalkEnd) d t =
      (.ok ⟨p, users, .uncommitted⟩, t) := by
  rw [walkLoop]
  unfold divisor
  rw [Static.refuseRun _ _ (by omega), if_neg (by omega), mapIdle paged (by omega)]
  dsimp only
  rw [Static.refuseRun _ _ (by show ¬ (_ < 16); omega), Static.lookRun, uncommittedOk free, Static.liftOk,
    if_pos (by simp), Static.pureRun]

/- A committed `Roll`. -/
theorem walkRoll (paged : R % env.page = 0) {p : Nat} (committed : d.data ino p = 1) (kind : d.data ino (p + 1) = HeaderType.roll.raw)
    (length : lengthAt (d.data ino) p = 40) (room : p % R + 56 ≤ R) (positive : 16 ≤ R)
    (inside : (p / R + 1) * R ≤ fileLen) (fuel users : Nat) (mapped : Option Nat)
    (go : stop p .roll users = false) :
    (walkLoop env ino R fileLen stop (fuel + 1) mapped p users : Static Disk τ IoError WalkEnd) d t =
      (.ok ⟨p, users, .roll⟩, t) := by
  have len := readLength (d.data ino) p
  rw [walkLoop]
  unfold divisor
  rw [Static.refuseRun _ _ (by omega), if_neg (by omega), mapIdle paged (by omega)]
  dsimp only
  rw [Static.refuseRun _ _ (by show ¬ (_ < 16); omega), Static.lookRun, committedOk committed, Static.liftOk,
    if_neg (by simp), Static.lookRun, kindOk kind, Static.liftOk, go, if_neg (by simp), if_pos rfl, len, length,
    Static.refuseRun _ _ (by show ¬ (40 ≠ 40 ∨ _ < _ + 56); omega), Static.pureRun]

/- A whole chain further. -/
theorem walkChain (stop : Nat → HeaderType → Nat → Bool) (paged : R % env.page = 0) {p q : Nat} {slots : Slots} (chain : Chain R (d.data ino) p slots q) (positive : 16 ≤ R)
    (inside : (q / R + 1) * R ≤ fileLen) (bound : fileLen ≤ 2 ^ 63 - 1)
    (go : ∀ x ∈ slots, ∀ n, stop x.1 x.2 n = false) (fuel count : Nat) (mapped : Option Nat) :
    ∃ mapped', (walkLoop env ino R fileLen stop (fuel + slots.length) mapped p count : Static Disk τ IoError WalkEnd) d t =
      (walkLoop env ino R fileLen stop fuel mapped' q (count + users slots) : Static Disk τ IoError WalkEnd) d t := by
  induction chain generalizing mapped count with
  | done p => exact ⟨mapped, rfl⟩
  | @step p k rest q here tail ih =>
    have low : (p / R + 1) * R ≤ fileLen := by
      refine Nat.le_trans (Nat.mul_le_mul_right R (Nat.succ_le_succ (Nat.div_le_div_right ?_))) inside
      have := nextSlotGt (d.data ino) p
      have := tail.le
      omega
    obtain ⟨mapped', walked⟩ := ih inside (fun x mem => go x (List.mem_cons_of_mem _ mem))
      (if k = .user then count + 1 else count) (some (p / R))
    have sum : (if k = .user then count + 1 else count) + users rest = count + users ((p, k) :: rest) := by
      rw [usersCons]
      split <;> omega
    refine ⟨mapped', ?_⟩
    rw [List.length_cons, ← Nat.add_assoc, walkRecord paged here positive low bound _ _ _ (go _ List.mem_cons_self _), walked,
      sum]

/- The walk over a chain that ends open, and over one that ends in a committed `Roll`. -/
theorem walkOnOpen (paged : R % env.page = 0) {p q : Nat} {slots : Slots} (chain : Chain R (d.data ino) p slots q) (positive : 16 ≤ R)
    (free : d.data ino q = 0) (room : q % R + 16 ≤ R) (inside : (q / R + 1) * R ≤ d.len ino)
    (bound : d.len ino ≤ 2 ^ 63 - 1) : walkOn env d ino R p = .ok ⟨q, users slots, .uncommitted⟩ := by
  have few := chain.slotsLe
  have split := slotSplit R q
  have expand : (q / R + 1) * R = q / R * R + R := by ring
  obtain ⟨extra, fuel⟩ : ∃ extra, d.len ino + 1 = extra + 1 + slots.length := ⟨d.len ino - slots.length, by omega⟩
  obtain ⟨mapped, walked⟩ := walkChain (τ := Unit) (t := ()) (fun _ _ _ => false) paged chain positive inside bound
    (fun _ _ _ => rfl) (extra + 1) 0 none
  unfold walkOn walkSegmentFrom
  rw [Static.lookRun, fuel, walked, walkOpen paged free room positive inside, Nat.zero_add]

theorem walkOnRoll (paged : R % env.page = 0) {p q : Nat} {slots : Slots} (chain : Chain R (d.data ino) p slots q) (positive : 16 ≤ R)
    (committed : d.data ino q = 1) (kind : d.data ino (q + 1) = HeaderType.roll.raw)
    (length : lengthAt (d.data ino) q = 40) (room : q % R + 56 ≤ R) (inside : (q / R + 1) * R ≤ d.len ino)
    (bound : d.len ino ≤ 2 ^ 63 - 1) : walkOn env d ino R p = .ok ⟨q, users slots, .roll⟩ := by
  have few := chain.slotsLe
  have split := slotSplit R q
  have expand : (q / R + 1) * R = q / R * R + R := by ring
  obtain ⟨extra, fuel⟩ : ∃ extra, d.len ino + 1 = extra + 1 + slots.length := ⟨d.len ino - slots.length, by omega⟩
  obtain ⟨mapped, walked⟩ := walkChain (τ := Unit) (t := ()) (fun _ _ _ => false) paged chain positive inside bound
    (fun _ _ _ => rfl) (extra + 1) 0 none
  unfold walkOn walkSegmentFrom
  rw [Static.lookRun, fuel, walked, walkRoll paged committed kind length room positive inside _ _ _ rfl, Nat.zero_add]

end Xchannel.WalkSpecs
