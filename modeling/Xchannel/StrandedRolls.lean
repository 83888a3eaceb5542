import Xchannel.ReaderBounds

/-! Finishing the `Roll` a dead writer left, over any bytes of its file: what the call changes and when, and
the condition under which a second call finds nothing left to do. -/
namespace Xchannel.StrandedRolls
open ByteMemory Format Storage CrashProgram Observation SegmentWalk RecordChain WriterCalls WriterOpen WriterSpecs
  ChannelLog ChannelInvariant PartialRun ChainScan WalkSpecs StoreRuns Sessions
  ReaderBounds

section Walk
variable {env : Env} {R len ino : Nat} {d : Disk} {m m' : Mem} {pos q : Nat} {hops : List HeaderType} {stop : WalkStop}

/- The record a walk steps over, and the slot behind it. -/
def stride (R len : Nat) (m : Mem) (pos : Nat) : Option (HeaderType × Nat) :=
  if len < (pos / R + 1) * R ∨ R - pos % R < headerSlot then none
  else match sight m pos with
    | .error _ => none
    | .ok hdr =>
      if hdr.isCommitted ∧ hdr.headerType ≠ .roll ∧ hdr.totalLen ≤ R - pos % R then
        some (hdr.headerType, alignUp (pos + hdr.totalLen))
      else none

/-- Where a walk over a whole segment stops. -/
structure Rests (R len : Nat) (m : Mem) (pos : Nat) (stop : WalkStop) : Prop where
  inside : stop ≠ .endOfFile → (pos / R + 1) * R ≤ len ∧ pos % R + 16 ≤ R
  short : stop = .endOfFile → len < (pos / R + 1) * R
  flag : stop ≠ .endOfFile → (MessageHeader.read m pos).isCommitted = .ok (stop = .roll)
  roll : stop = .roll → (MessageHeader.read m pos).parsedHeaderType = .ok .roll ∧ lengthAt m pos = 40 ∧ pos % R + 56 ≤ R
  whole : stop ≠ .visitor

/- What the walk returns, it came to. -/
theorem walkCameTo {τ : Type} {t : τ} (paged : R % env.page = 0) (positive : 0 < R) {fuel : Nat} {mapped : Option Nat} {users : Nat} {w : WalkEnd}
    (walked : ((walkLoop env ino R len (fun _ _ _ => false) fuel mapped pos users : Static Disk τ IoError WalkEnd) d t).1 = .ok w) :
    (∃ hops, Run (stride R len (d.data ino)) pos hops w.pos) ∧ Rests R len (d.data ino) w.pos w.stop := by
  induction fuel generalizing mapped pos users with
  | zero => cases walked
  | succ fuel ih =>
    unfold walkLoop divisor at walked
    rw [Static.refuseRun _ _ (by omega)] at walked
    dsimp only at walked
    by_cases short : len < (pos / R + 1) * R
    · rw [if_pos short] at walked
      cases walked
      exact ⟨⟨[], .here _⟩, ⟨(by simp), fun _ => short, (by simp), (by simp), (by simp)⟩⟩
    rw [if_neg short, mapIdle paged positive] at walked
    by_cases hole : R - pos % R < headerSlot
    · rw [refuseIf, if_pos hole] at walked
      cases walked
    rw [Static.refuseRun _ _ hole, Static.lookRun] at walked
    have inside : (pos / R + 1) * R ≤ len ∧ pos % R + 16 ≤ R := ⟨by omega, by have : ¬ R - pos % R < 16 := hole; omega⟩
    cases flag : (MessageHeader.read (d.data ino) pos).isCommitted with
    | error e =>
      rw [flag] at walked
      cases walked
    | ok committed =>
    rw [flag, Static.liftOk] at walked
    by_cases free : ¬ committed = true
    · rw [if_pos free] at walked
      cases walked
      refine ⟨⟨[], .here _⟩, ⟨fun _ => inside, (by simp), fun _ => ?_, (by simp), (by simp)⟩⟩
      rw [flag, Bool.eq_false_iff.mpr free]
      rfl
    rw [if_neg free, Static.lookRun] at walked
    obtain rfl : committed = true := not_not.mp free
    cases kind : (MessageHeader.read (d.data ino) pos).parsedHeaderType with
    | error e =>
      rw [kind] at walked
      cases walked
    | ok k =>
    rw [kind, Static.liftOk, if_neg (by simp)] at walked
    by_cases roll : k = .roll
    · subst roll
      rw [if_pos rfl] at walked
      by_cases bad : (MessageHeader.read (d.data ino) pos).length.toNat ≠ rollPayload ∨ R < pos % R + rollTotal
      · rw [refuseIf, if_pos bad] at walked
        cases walked
      rw [Static.refuseRun _ _ bad] at walked
      cases walked
      refine ⟨⟨[], .here _⟩, ⟨fun _ => inside, (by simp), fun _ => flag, fun _ => ⟨kind, ?_⟩, (by simp)⟩⟩
      rw [readLength] at bad
      obtain ⟨length, room⟩ := not_or.mp bad
      exact ⟨not_not.mp length, Nat.not_lt.mp room⟩
    rw [if_neg roll] at walked
    by_cases crosses : R - pos % R < headerSlot + (MessageHeader.read (d.data ino) pos).length.toNat
    · rw [refuseIf, if_pos crosses] at walked
      cases walked
    rw [Static.refuseRun _ _ crosses] at walked
    obtain ⟨⟨hops, run⟩, rests⟩ := ih walked
    refine ⟨⟨k :: hops, .next ?_ run⟩, rests⟩
    rw [stride, if_neg (by omega), sight]
    rw [flag, kind]
    exact if_pos ⟨rfl, roll, Nat.not_lt.mp crosses⟩

/- Nothing is stepped over where a walk stops. -/
theorem Rests.stuck (rests : Rests R len m pos stop) : stride R len m pos = none := by
  unfold stride
  cases stop with
  | visitor => exact absurd rfl rests.whole
  | endOfFile => rw [if_pos (.inl (rests.short rfl))]
  | uncommitted =>
    obtain ⟨inside, room⟩ := rests.inside (by simp)
    rw [if_neg (by show ¬ (_ ∨ _ < 16); omega), sight]
    rw [rests.flag (by simp)]
    rfl
  | roll =>
    obtain ⟨inside, room⟩ := rests.inside (by simp)
    rw [if_neg (by show ¬ (_ ∨ _ < 16); omega), sight]
    rw [rests.flag (by simp), (rests.roll rfl).1]
    exact if_neg fun bad => bad.2.1 rfl

/-- A record that is stepped over, as the bytes have it. -/
structure Stepped (R len : Nat) (m : Mem) (pos : Nat) (k : HeaderType) (next : Nat) : Prop where
  inside : (pos / R + 1) * R ≤ len
  committed : (MessageHeader.read m pos).isCommitted = .ok true
  kind : (MessageHeader.read m pos).parsedHeaderType = .ok k
  notRoll : k ≠ .roll
  fits : pos % R + (16 + lengthAt m pos) ≤ R
  next : next = alignUp (pos + (16 + lengthAt m pos))

theorem strideStepped {k : HeaderType} {next : Nat} :
    stride R len m pos = some (k, next) ↔ Stepped R len m pos k next := by
  constructor
  · intro step
    unfold stride at step
    split at step
    · cases step
    rename_i inside
    obtain ⟨inside, room⟩ := not_or.mp inside
    have room : ¬ R - pos % R < 16 := room
    split at step
    · cases step
    rename_i hdr header
    split at step
    · rename_i ok
      obtain ⟨committed, notRoll, fits⟩ := ok
      cases step
      obtain ⟨_, total, _, _⟩ := sightFields header committed
      unfold sight at header
      dsimp only at header
      cases flag : (MessageHeader.read m pos).isCommitted with
      | error e =>
        rw [flag] at header
        cases header
      | ok b =>
        rw [flag] at header
        cases b with
        | false =>
          cases header
          cases committed
        | true =>
          dsimp only at header
          cases kind : (MessageHeader.read m pos).parsedHeaderType with
          | error e =>
            rw [kind] at header
            cases header
          | ok t =>
            rw [kind] at header
            cases header
            exact ⟨by omega, flag, kind, notRoll, by omega, by rw [total]⟩
    · cases step
  · rintro ⟨inside, committed, kind, notRoll, fits, rfl⟩
    rw [stride, if_neg (by show ¬ (_ ∨ _ < 16); omega), sight]
    rw [committed, kind]
    dsimp only
    rw [readLength]
    exact if_pos ⟨rfl, notRoll, by show 16 + _ ≤ _; omega⟩

/- It leads forward, and no further than the end of the region. -/
theorem Stepped.forward {k : HeaderType} {next : Nat} (stepped : Stepped R len m pos k next) (aligned : 8 ∣ R)
    (bound : len ≤ maxFileLen) : pos < next ∧ next ≤ (pos / R + 1) * R ∧ 8 ∣ next := by
  obtain ⟨inside, _, _, _, fits, rfl⟩ := stepped
  have split := slotSplit R pos
  have expand : (pos / R + 1) * R = pos / R * R + R := by ring
  have bound : len ≤ 2 ^ 63 - 1 := bound
  rw [alignUpEq (by omega)]
  have low := align8Le (pos + (16 + lengthAt m pos))
  exact ⟨by omega, align8LeOf (by omega) (Dvd.dvd.mul_left aligned _), align8Dvd _⟩

theorem pathForward (aligned : 8 ∣ R) (bound : len ≤ maxFileLen) (run : Run (stride R len m) pos hops q) :
    pos + hops.length ≤ q := by
  induction run with
  | here => exact Nat.le_refl _
  | next first rest ih =>
    have := ((strideStepped.mp first).forward aligned bound).1
    rw [List.length_cons]
    omega

/- The slots of a path from a slot are slots. -/
theorem pathAligned (aligned : 8 ∣ R) (bound : len ≤ maxFileLen) (start : 8 ∣ pos) (run : Run (stride R len m) pos hops q) :
    8 ∣ q :=
  run.keeps (fun _ _ _ _ first => ((strideStepped.mp first).forward aligned bound).2.2) start

/- Every region a path enters, it enters at its start. -/
theorem pathFromRegion (aligned : 8 ∣ R) (bound : len ≤ maxFileLen) {k : Nat} (lo : pos ≤ k * R) (hi : k * R ≤ q)
    (run : Run (stride R len m) pos hops q) : ∃ rest, Run (stride R len m) (k * R) rest q := by
  induction run with
  | here s =>
    obtain rfl : s = k * R := Nat.le_antisymm lo hi
    exact ⟨[], .here _⟩
  | @next s a s' labels q first rest ih =>
    obtain ⟨_, low, _⟩ := (strideStepped.mp first).forward aligned bound
    by_cases same : s = k * R
    · rw [← same]
      exact ⟨_, .next first rest⟩
    have region : s / R < k := by
      rcases Nat.eq_zero_or_pos R with rfl | positive
      · omega
      · rw [Nat.div_lt_iff_lt_mul positive]
        omega
    exact ih (Nat.le_trans low (Nat.mul_le_mul_right R region)) hi

/- What a walk can come to, it returns. -/
theorem walkComesTo {τ : Type} {t : τ} (paged : R % env.page = 0) (positive : 0 < R) (run : Run (stride R len (d.data ino)) pos hops q)
    (rests : Rests R len (d.data ino) q stop) (open_ : stop ≠ .endOfFile) (extra : Nat) (mapped : Option Nat) (users : Nat) :
    ∃ n, (walkLoop env ino R len (fun _ _ _ => false) (extra + 1 + hops.length) mapped pos users : Static Disk τ IoError WalkEnd) d t =
      (.ok ⟨q, n, stop⟩, t) := by
  induction run generalizing mapped users with
  | here q =>
    obtain ⟨inside, room⟩ := rests.inside open_
    refine ⟨users, ?_⟩
    rw [List.length_nil, Nat.add_zero, walkLoop]
    unfold divisor
    rw [Static.refuseRun _ _ (by omega), if_neg (by omega), mapIdle paged positive]
    dsimp only
    rw [Static.refuseRun _ _ (by show ¬ (_ < 16); omega), Static.lookRun, rests.flag open_, Static.liftOk]
    cases stop with
    | visitor => exact absurd rfl rests.whole
    | endOfFile => exact absurd rfl open_
    | uncommitted =>
      rw [if_pos (by simp)]
      rfl
    | roll =>
      obtain ⟨kind, length, room⟩ := rests.roll rfl
      rw [if_neg (by simp), Static.lookRun, kind, Static.liftOk, if_neg (by simp), if_pos rfl, readLength, length,
        Static.refuseRun _ _ (by show ¬ (40 ≠ 40 ∨ _ < _ + 56); omega)]
      rfl
  | @next s a s' labels q first rest ih =>
    obtain ⟨inside, committed, kind, notRoll, fits, next⟩ := strideStepped.mp first
    obtain ⟨n, walked⟩ := ih rests (some (s / R)) (if a = .user then users + 1 else users)
    refine ⟨n, ?_⟩
    rw [List.length_cons, ← Nat.add_assoc, walkLoop]
    unfold divisor
    rw [Static.refuseRun _ _ (by omega), if_neg (by omega), mapIdle paged positive]
    dsimp only
    rw [Static.refuseRun _ _ (by show ¬ (_ < 16); omega), Static.lookRun, committed, Static.liftOk, if_neg (by simp),
      Static.lookRun, kind, Static.liftOk, if_neg (by simp), if_neg notRoll, readLength,
      Static.refuseRun _ _ (by show ¬ (_ < 16 + _); omega), ← next]
    exact walked

theorem walkOnComesTo (paged : R % env.page = 0) (positive : 0 < R) (aligned : 8 ∣ R) (bound : d.len ino ≤ maxFileLen)
    (run : Run (stride R (d.len ino) (d.data ino)) pos hops q) (rests : Rests R (d.len ino) (d.data ino) q stop)
    (open_ : stop ≠ .endOfFile) : ∃ n, walkOn env d ino R pos = .ok ⟨q, n, stop⟩ := by
  have few := pathForward aligned bound run
  obtain ⟨inside, room⟩ := rests.inside open_
  have split := slotSplit R q
  have expand : (q / R + 1) * R = q / R * R + R := by ring
  obtain ⟨extra, fuel⟩ : ∃ extra, d.len ino + 1 = extra + 1 + hops.length := ⟨d.len ino - hops.length, by omega⟩
  obtain ⟨n, walked⟩ := walkComesTo (τ := Unit) (t := ()) paged positive run rests open_ extra none 0
  refine ⟨n, ?_⟩
  unfold walkOn walkSegmentFrom
  rw [Static.lookRun, fuel, walked]

theorem walkOnCameTo (paged : R % env.page = 0) (positive : 0 < R) {w : WalkEnd} (walked : walkOn env d ino R pos = .ok w) :
    (∃ hops, Run (stride R (d.len ino) (d.data ino)) pos hops w.pos) ∧ Rests R (d.len ino) (d.data ino) w.pos w.stop :=
  walkCameTo paged positive walked

end Walk

section Call
variable (env : Env) (R seq gen : Nat) (successor : Identity) (base : Nat)

/-- What the header of the predecessor has to say. -/
structure Parent (m : Mem) : Prop where
  header : validateChannelHeader m R seq = .ok ()
  identity : ∃ i, validateV4Prefix m = .ok i ∧ successor.predecessor = i.fileInstance
  published : isPublished m = .ok true
  gen : generation m = gen
  sequence : successor.predecessorSequence = seq
  count : baseRecordIndex m + messageCount m = base
  small : base < usize

/-- A `Roll` that names the successor, as it is read through the mapping of its region. -/
structure Names (m : Mem) (slot : Nat) : Prop where
  kind : (MessageHeader.read m slot).parsedHeaderType = .ok .roll
  length : lengthAt m slot = 40
  body : ∃ bytes, loadMapped env R m (slot - slot % R) (slot - (slot - slot % R) + headerSlot) rollPayload = .ok bytes ∧
    RollEdge.decode bytes = .ok ⟨seq + 1, successor.fileInstance, base⟩

/- Where the walk starts. -/
def hint (m : Mem) : Nat :=
  writePosition m - (headerSlot + rollTotal) - (writePosition m - (headerSlot + rollTotal)) % R

/-- The `Roll` of the predecessor, and whether it is only staged and the position behind it. -/
structure Found (d : Disk) (ino slot : Nat) (staged behind : Bool) : Prop where
  named : d.segments seq = some ino
  long : R ≤ d.len ino
  parent : Parent R seq gen successor base (d.data ino)
  walked : ∃ users stop, walkOn env d ino R (hint R (d.data ino)) = .ok ⟨slot, users, stop⟩ ∧
    strandedShape (writePosition (d.data ino)) ⟨slot, users, stop⟩ = some (staged, behind)
  names : Names env R seq successor base (d.data ino) slot

end Call

/- The bytes with the `Roll` committed, and with the position moved. -/
def marked (m : Mem) (slot : Nat) (staged : Bool) : Mem := if staged then write m slot [1] else m
def moved (m : Mem) (slot : Nat) (staged : Bool) : Mem := write (marked m slot staged) 16 (toLE 8 (slot + 72))

/- What finishing a `Roll` stores. -/
def finishing (m : Mem) (ino slot : Nat) (staged : Bool) : List Op :=
  (if staged then [.commit ino slot] else []) ++
    [.store ino 16 (toLE 8 (slot + 72)), .store ino 116 (toLE 4 (wakeWord (moved m slot staged) + 1))]

def finished (m : Mem) (slot : Nat) (staged : Bool) : Mem :=
  write (moved m slot staged) 116 (toLE 4 (wakeWord (moved m slot staged) + 1))

section Outcomes
variable {env : Env} {R seq gen : Nat} {successor : Identity} {base : Nat} {d : Disk} {ino slot : Nat}
  {staged behind : Bool} {τ : Type} {t : τ}

theorem decodeSmall {bytes : List UInt8} {e : RollEdge} (decodes : RollEdge.decode bytes = .ok e) :
    e.nextSequence < usize := by
  simp only [RollEdge.decode, bind, Except.bind, pure, Except.pure, throw, throwThe, MonadExceptOf.throw] at decodes
  split at decodes
  · cases decodes
  rename_i whole
  split at decodes
  · cases decodes
  split at decodes
  · cases decodes
  split at decodes
  · cases decodes
  cases decodes
  have bound := ofLELt (bytes.take 8)
  rw [List.length_take] at bound
  have : bytes.length = 40 := not_not.mp whole
  rw [this] at bound
  exact bound

/-- What a call comes to. -/
inductive Outcome (env : Env) (R seq gen : Nat) (successor : Identity) (base : Nat) (d : Disk) :
    List Op → Except IoError Unit → Prop where
  | refused (e : IoError) (none : ∀ ino slot staged behind, ¬ Found env R seq gen successor base d ino slot staged behind) :
      Outcome env R seq gen successor base d [] (.error e)
  | absent (named : d.segments seq = none) : Outcome env R seq gen successor base d [] (.ok ())
  | short {ino : Nat} (named : d.segments seq = some ino) (short : d.len ino < R) :
      Outcome env R seq gen successor base d [] (.ok ())
  | complete {ino slot : Nat} {staged : Bool} (found : Found env R seq gen successor base d ino slot staged false) :
      Outcome env R seq gen successor base d [] (.ok ())
  | finish {ino slot : Nat} {staged : Bool} (found : Found env R seq gen successor base d ino slot staged true) :
      Outcome env R seq gen successor base d (finishing (d.data ino) ino slot staged) (.ok ())

theorem shapeCases {wp : Nat} {w : WalkEnd} (shape : strandedShape wp w = some (staged, behind)) :
    (w.stop = .roll ∧ staged = false ∧ behind = false ∧ wp = w.pos + 72) ∨
      (w.stop = .roll ∧ staged = false ∧ behind = true ∧ wp = w.pos + 16) ∨
      (w.stop = .uncommitted ∧ staged = true ∧ behind = true ∧ wp = w.pos + 16) := by
  unfold strandedShape at shape
  split at shape
  · rename_i complete
    cases shape
    exact .inl ⟨complete.1, rfl, rfl, by have : wp = w.pos + 16 + 56 := complete.2; omega⟩
  split at shape
  · rename_i behind
    cases shape
    exact .inr (.inl ⟨behind.1, rfl, rfl, behind.2⟩)
  split at shape
  · rename_i staged
    cases shape
    exact .inr (.inr ⟨staged.1, rfl, rfl, staged.2⟩)
  · cases shape

theorem uncommittedByte {m : Mem} {p : Nat} (flag : (MessageHeader.read m p).isCommitted = .ok false) : m p = 0 := by
  unfold MessageHeader.isCommitted at flag
  by_cases zero : (MessageHeader.read m p).committed = 0
  · exact zero
  rw [if_neg zero] at flag
  by_cases one : (MessageHeader.read m p).committed = 1
  · rw [if_pos one] at flag
    cases flag
  · rw [if_neg one] at flag
    cases flag

theorem committedByte {m : Mem} {p : Nat} (flag : (MessageHeader.read m p).isCommitted = .ok true) : m p = 1 := by
  unfold MessageHeader.isCommitted at flag
  by_cases zero : (MessageHeader.read m p).committed = 0
  · rw [if_pos zero] at flag
    cases flag
  rw [if_neg zero] at flag
  by_cases one : (MessageHeader.read m p).committed = 1
  · exact one
  · rw [if_neg one] at flag
    cases flag

/- A position that is a multiple of 8 is no committed byte. -/
theorem slotApart {m : Mem} (wp : writePosition m = slot + 16) (byte : m slot = 0 ∨ m slot = 1) : slot ≠ 16 := by
  rintro rfl
  have low : writePosition m = (m 16).toNat + 256 * ofLE (slice m 17 7) := rfl
  rcases byte with byte | byte <;> rw [byte, wp] at low
  · have : (0 : UInt8).toNat = 0 := rfl
    omega
  · have : (1 : UInt8).toNat = 1 := rfl
    omega

/- Committing the `Roll` does not touch the position. -/
theorem markedPosition {m : Mem} (aligned : 8 ∣ slot) (byte : m slot = if staged then 0 else 1) (wp : writePosition m = slot + 16) :
    writePosition (marked m slot staged) = slot + 16 := by
  cases staged with
  | false => exact wp
  | true =>
    have apart := slotApart wp (.inl byte)
    rw [← wp]
    exact readLEWriteOther (by show 16 + 8 ≤ slot ∨ slot + 1 ≤ 16; omega)

theorem parentBuilt {m : Mem} {i : Identity} (header : validateChannelHeader m R seq = .ok ()) (identity : validateV4Prefix m = .ok i)
    (published : isPublished m = .ok true)
    (named : ¬ (generation m ≠ gen ∨ successor.predecessor ≠ i.fileInstance ∨ successor.predecessorSequence ≠ seq))
    (counted : ¬ (usize ≤ baseRecordIndex m + messageCount m ∨ baseRecordIndex m + messageCount m ≠ base)) :
    Parent R seq gen successor base m := by
  obtain ⟨gens, named⟩ := not_or.mp named
  obtain ⟨parent, sequence⟩ := not_or.mp named
  obtain ⟨small, count⟩ := not_or.mp counted
  have count := not_not.mp count
  exact ⟨header, ⟨i, identity, not_not.mp parent⟩, published, not_not.mp gens, not_not.mp sequence, count, by omega⟩

/- The edge is determined by what the successor has to be. -/
theorem edgeSame {edge : RollEdge} {parent : InstanceId} (names : edge.names seq parent successor = true)
    (based : edge.nextBaseRecordIndex = base) : edge = ⟨seq + 1, successor.fileInstance, base⟩ := by
  unfold RollEdge.names at names
  simp only [Bool.and_eq_true, beq_iff_eq, decide_eq_true_eq] at names
  obtain ⟨⟨⟨next, _⟩, _⟩, sequence, _⟩ := names
  rcases edge with ⟨a, b, c⟩
  obtain rfl : a = seq + 1 := sequence
  obtain rfl : b = successor.fileInstance := next
  obtain rfl : c = base := based
  rfl

theorem edgeNames {parent : InstanceId} (named : successor.predecessor = parent) (sequence : successor.predecessorSequence = seq)
    (small : seq + 1 < usize) : RollEdge.names ⟨seq + 1, successor.fileInstance, base⟩ seq parent successor = true := by
  unfold RollEdge.names
  simp only [Bool.and_eq_true, beq_iff_eq, decide_eq_true_eq]
  exact ⟨⟨⟨trivial, named⟩, sequence⟩, trivial, small⟩

/- The two stores of a position that is behind, and the wake-up. -/
theorem finishRun (wp : writePosition (marked (d.data ino) slot staged) = slot + 16) :
    (do
      if staged then
        Act.emit [.commit ino slot]
      if (← Act.look fun d => writePosition (d.data ino)) = slot + headerSlot then
        Act.emit [.store ino 16 (toLE 8 (slot + headerSlot + rollTotal))]
      wakeAll ino : Io τ Unit) t d = (finishing (d.data ino) ino slot staged, .ok (), t) := by
  -- the position moves, and the sleepers of the file are woken
  have rest (d' : Disk) (data : d'.data ino = marked (d.data ino) slot staged) :
      (do
        if (← Act.look fun d => writePosition (d.data ino)) = slot + headerSlot then
          Act.emit [.store ino 16 (toLE 8 (slot + headerSlot + rollTotal))]
        wakeAll ino : Io τ Unit) t d' =
      ([.store ino 16 (toLE 8 (slot + 72)), .store ino 116 (toLE 4 (wakeWord (moved (d.data ino) slot staged) + 1))], .ok (), t) := by
    have wp' : writePosition (d'.data ino) = slot + headerSlot := by
      rw [data]
      exact wp
    have after : (run Disk.apply d' [.store ino 16 (toLE 8 (slot + headerSlot + rollTotal))]).data ino =
        moved (d.data ino) slot staged := by
      unfold moved
      rw [← data]
      exact storeData ..
    rw [Act.lookThen]
    dsimp only
    rw [if_pos wp']
    refine @Act.emitThen _ _ _ _ _ _ _ [_] _ _ _ _ _ ?_
    unfold wakeAll
    rw [Act.lookThen, after]
    rfl
  cases staged with
  | false =>
    rw [if_neg (by simp)]
    exact rest d rfl
  | true =>
    rw [if_pos rfl]
    exact Act.emitThen (rest _ (commitData ..))

variable (regions : Regions env R) (sized : Sized d)
include regions sized

/-- What the walk says of the slot. -/
theorem walkedTo {ino slot users : Nat} {stop : WalkStop}
    (walked : walkOn env d ino R (hint R (d.data ino)) = .ok ⟨slot, users, stop⟩)
    (shape : strandedShape (writePosition (d.data ino)) ⟨slot, users, stop⟩ = some (staged, behind)) :
    (∃ hops, Run (stride R (d.len ino) (d.data ino)) (hint R (d.data ino)) hops slot) ∧
      Rests R (d.len ino) (d.data ino) slot stop ∧ (slot / R + 1) * R ≤ d.len ino ∧ slot % R + 16 ≤ R ∧ 8 ∣ slot ∧
      d.data ino slot = if staged then 0 else 1 := by
  have large := regions.large
  obtain ⟨⟨hops, run⟩, rests⟩ := walkOnCameTo regions.paged (by omega) walked
  have open_ : stop ≠ .endOfFile := by
    rintro rfl
    rcases shapeCases shape with ⟨bad, _⟩ | ⟨bad, _⟩ | ⟨bad, _⟩ <;> cases bad
  obtain ⟨inside, room⟩ := rests.inside open_
  have start : 8 ∣ hint R (d.data ino) := Dvd.dvd.trans regions.aligned (Nat.dvd_sub_mod _)
  refine ⟨⟨hops, run⟩, rests, inside, room, pathAligned regions.aligned (sized ino) start run, ?_⟩
  rcases shapeCases shape with ⟨roll, rfl, _⟩ | ⟨roll, rfl, _⟩ | ⟨free, rfl, _⟩
  · obtain rfl : stop = .roll := roll
    exact committedByte (rests.flag open_)
  · obtain rfl : stop = .roll := roll
    exact committedByte (rests.flag open_)
  · obtain rfl : stop = .uncommitted := free
    exact uncommittedByte (rests.flag open_)

/- Which `Roll` is found is determined by the disk. -/
omit regions sized in
theorem Found.unique {ino' slot' : Nat} {staged' behind' : Bool} (found : Found env R seq gen successor base d ino slot staged behind)
    (found' : Found env R seq gen successor base d ino' slot' staged' behind') :
    ino' = ino ∧ slot' = slot ∧ staged' = staged ∧ behind' = behind := by
  cases found.named.symm.trans found'.named
  obtain ⟨users, stop, walked, shape⟩ := found.walked
  obtain ⟨users', stop', walked', shape'⟩ := found'.walked
  cases walked.symm.trans walked'
  cases shape.symm.trans shape'
  exact ⟨rfl, rfl, rfl, rfl⟩

theorem callOutcome : ∃ ops res, commitStrandedRoll env seq R gen successor base t d = (ops, res, t) ∧
    Outcome env R seq gen successor base d ops res := by
  have large := regions.large
  unfold commitStrandedRoll
  dsimp only
  rw [Act.lookThen]
  cases named : d.segments seq with
  | none => exact ⟨_, _, rfl, .absent named⟩
  | some ino =>
  -- a check that fails rules every `Roll` out
  have refused (e : IoError) (none : ∀ slot staged behind, ¬ Found env R seq gen successor base d ino slot staged behind) :
      ∃ ops res, (([], .error e, t) : List Op × Except IoError Unit × τ) = (ops, res, t) ∧
        Outcome env R seq gen successor base d ops res := by
    refine ⟨_, _, rfl, .refused e fun ino' slot staged behind found => ?_⟩
    cases named.symm.trans found.named
    exact none slot staged behind found
  dsimp only
  rw [Act.lookThen]
  by_cases long : d.len ino < R
  · rw [if_pos long]
    exact ⟨_, _, rfl, .short named long⟩
  rw [if_neg long, Act.idleThen (createWritableIdle (by omega) regions.paged (Nat.zero_mod _) (by omega)), Act.lookThen,
    Act.liftThen]
  cases header : validateChannelHeader (d.data ino) R seq with
  | error e => exact refused e fun _ _ _ found => by cases header.symm.trans found.parent.header
  | ok _ =>
  dsimp only
  rw [Act.liftThen]
  cases identity : validateV4Prefix (d.data ino) with
  | error e =>
    refine refused e fun _ _ _ found => ?_
    obtain ⟨_, same, _⟩ := found.parent.identity
    cases identity.symm.trans same
  | ok i =>
  dsimp only
  rw [Act.liftThen]
  cases published : isPublished (d.data ino) with
  | error e => exact refused e fun _ _ _ found => by cases published.symm.trans found.parent.published
  | ok live =>
  dsimp only
  rw [Act.refuseThen]
  by_cases unpublished : ¬ live = true
  · rw [if_pos unpublished]
    refine refused _ fun _ _ _ found => ?_
    cases published.symm.trans found.parent.published
    exact unpublished rfl
  obtain rfl := not_not.mp unpublished
  rw [if_neg unpublished, Act.refuseThen]
  by_cases foreign : generation (d.data ino) ≠ gen ∨ successor.predecessor ≠ i.fileInstance ∨
      successor.predecessorSequence ≠ seq
  · rw [if_pos foreign]
    refine refused _ fun _ _ _ found => ?_
    obtain ⟨_, same, parent⟩ := found.parent.identity
    cases identity.symm.trans same
    rcases foreign with bad | bad | bad
    · exact bad found.parent.gen
    · exact bad parent
    · exact bad found.parent.sequence
  rw [if_neg foreign, Act.lookThen, Act.refuseThen]
  by_cases miscounted : usize ≤ baseRecordIndex (d.data ino) + messageCount (d.data ino) ∨
      baseRecordIndex (d.data ino) + messageCount (d.data ino) ≠ base
  · rw [if_pos miscounted]
    refine refused _ fun _ _ _ found => ?_
    have count := found.parent.count
    have small := found.parent.small
    omega
  rw [if_neg miscounted, Act.lookThen, Act.lookThen, Act.liftThen]
  have parent := parentBuilt header identity published foreign miscounted
  cases walked : walkOn env d ino R (hint R (d.data ino)) with
  | error e =>
    have walked' := walked
    unfold hint at walked'
    rw [walked']
    refine refused e fun _ _ _ found => ?_
    obtain ⟨_, _, same, _⟩ := found.walked
    cases walked.symm.trans same
  | ok w =>
  have walked' := walked
  unfold hint at walked'
  rw [walked']
  dsimp only
  cases shape : strandedShape (writePosition (d.data ino)) w with
  | none =>
    refine refused _ fun _ _ _ found => ?_
    obtain ⟨_, _, same, shape'⟩ := found.walked
    cases walked.symm.trans same
    cases shape.symm.trans shape'
  | some shaped =>
  obtain ⟨staged, behind⟩ := shaped
  obtain ⟨slot, users, stop⟩ := w
  have only {slot' : Nat} {staged' behind' : Bool} (found : Found env R seq gen successor base d ino slot' staged' behind') :
      slot' = slot := by
    obtain ⟨_, _, same, _⟩ := found.walked
    cases walked.symm.trans same
    rfl
  obtain ⟨_, rests, inside, room, aligned, free⟩ := walkedTo regions sized walked shape
  have split := slotSplit R slot
  have expand : (slot / R + 1) * R = slot / R * R + R := by ring
  have start : slot - slot % R = slot / R * R := by omega
  have idle {α : Type} (k : Unit → Io τ α) :
      (if slot - slot % R ≠ 0 then createWritable env ino (slot - slot % R) R >>= k else k () : Io τ α) t d = k () t d := by
    split
    · exact Act.idleThen (createWritableIdle (by omega) regions.paged
        (by rw [start]; exact regionAligned regions.paged _) (by omega))
    · rfl
  dsimp only
  rw [idle, Act.lookThen, Act.liftThen]
  cases kind : (MessageHeader.read (d.data ino) slot).parsedHeaderType with
  | error e =>
    refine refused e fun _ _ _ found => ?_
    obtain rfl := only found
    cases kind.symm.trans found.names.kind
  | ok k =>
  dsimp only
  rw [Act.refuseThen, readLength]
  by_cases other : k ≠ .roll ∨ lengthAt (d.data ino) slot ≠ rollPayload
  · rw [if_pos other]
    refine refused _ fun _ _ _ found => ?_
    obtain rfl := only found
    cases kind.symm.trans found.names.kind
    exact other.elim (fun bad => bad rfl) fun bad => bad found.names.length
  rw [if_neg other, Act.lookThen, Act.liftThen]
  obtain ⟨roll, length⟩ := not_or.mp other
  obtain rfl := not_not.mp roll
  cases body : loadMapped env R (d.data ino) (slot - slot % R) (slot - (slot - slot % R) + headerSlot) rollPayload with
  | error e =>
    refine refused e fun _ _ _ found => ?_
    obtain rfl := only found
    obtain ⟨_, same, _⟩ := found.names.body
    cases body.symm.trans same
  | ok bytes =>
  dsimp only
  rw [Act.liftThen]
  cases decodes : RollEdge.decode bytes with
  | error e =>
    refine refused e fun _ _ _ found => ?_
    obtain rfl := only found
    obtain ⟨_, same, good⟩ := found.names.body
    cases body.symm.trans same
    cases decodes.symm.trans good
  | ok edge =>
  dsimp only
  rw [Act.refuseThen]
  by_cases foreignRoll : ¬ edge.names seq i.fileInstance successor = true ∨ edge.nextBaseRecordIndex ≠ base
  · rw [if_pos foreignRoll]
    refine refused _ fun _ _ _ found => ?_
    obtain rfl := only found
    obtain ⟨_, same, good⟩ := found.names.body
    cases body.symm.trans same
    cases decodes.symm.trans good
    obtain ⟨_, same', parent'⟩ := found.parent.identity
    cases identity.symm.trans same'
    exact foreignRoll.elim (fun bad => bad (edgeNames parent' found.parent.sequence (decodeSmall good))) fun bad => bad rfl
  rw [if_neg foreignRoll]
  obtain ⟨named', based⟩ := not_or.mp foreignRoll
  have same : edge = ⟨seq + 1, successor.fileInstance, base⟩ := edgeSame (not_not.mp named') (not_not.mp based)
  have found : Found env R seq gen successor base d ino slot staged behind :=
    ⟨named, Nat.not_lt.mp long, parent, ⟨users, stop, walked, shape⟩, ⟨kind, not_not.mp length, bytes, body, same ▸ decodes⟩⟩
  cases behind with
  | false => exact ⟨_, _, rfl, .complete found⟩
  | true =>
    have wp : writePosition (d.data ino) = slot + 16 := by
      rcases shapeCases shape with ⟨_, _, bad, _⟩ | ⟨_, _, _, wp⟩ | ⟨_, _, _, wp⟩
      · cases bad
      · exact wp
      · exact wp
    exact ⟨_, _, finishRun (markedPosition aligned free wp), .finish found⟩

end Outcomes

section Finish
variable {env : Env} {R seq gen : Nat} {successor : Identity} {base : Nat} {d : Disk} {ino slot : Nat} {staged behind : Bool}

theorem finishDisk (d : Disk) (ino slot : Nat) (staged : Bool) :
    run Disk.apply d (finishing (d.data ino) ino slot staged) =
      d.setFile ino { d.files ino with data := finished (d.data ino) slot staged } := by
  cases staged with
  | false => exact runStores d ino [(16, _), (116, _)]
  | true => exact runStores d ino [(slot, [1]), (16, _), (116, _)]

/- Only the committed byte, the position and the wake word are stored. -/
theorem finishedOutside {m : Mem} {a : Nat} (apart : a ≠ slot ∧ ¬ (16 ≤ a ∧ a < 24) ∧ ¬ (116 ≤ a ∧ a < 120)) :
    finished m slot staged a = m a := by
  unfold finished moved
  rw [writeOutside (by rw [toLELength]; omega), writeOutside (by rw [toLELength]; omega)]
  unfold marked
  split
  · exact writeOutside (by show _ ∨ slot + 1 ≤ a; omega)
  · rfl

theorem finishedPosition {m : Mem} (small : slot + 72 < 2 ^ 64) : writePosition (finished m slot staged) = slot + 72 := by
  unfold finished writePosition
  rw [readLEWriteOther (by rw [toLELength]; omega)]
  exact (readLEWriteSame _ 16 8 _).trans (Nat.mod_eq_of_lt small)

theorem finishedFlag {m : Mem} (aligned : 8 ∣ slot) (byte : m slot = if staged then 0 else 1)
    (wp : writePosition m = slot + 16) : finished m slot staged slot = 1 := by
  have apart : slot ≠ 16 := slotApart wp (by rw [byte]; cases staged <;> simp)
  unfold finished moved
  rw [writeOutside (by rw [toLELength]; omega), writeOutside (by rw [toLELength]; omega)]
  cases staged with
  | false => exact byte
  | true => exact writeInside (i := 0) rfl

/-- Why a `Roll` may be finished. -/
structure Grounds (R seq : Nat) (successor : Identity) (base : Nat) (d : Disk) (ino slot : Nat) : Prop where
  named : d.segments seq = some ino
  published : isPublished (d.data ino) = .ok true
  chain : ∃ start hops, start % R = 0 ∧ Run (stride R (d.len ino) (d.data ino)) start hops slot ∧
    (Rests R (d.len ino) (d.data ino) slot .uncommitted ∨ Rests R (d.len ino) (d.data ino) slot .roll)
  kind : (MessageHeader.read (d.data ino) slot).parsedHeaderType = .ok .roll
  body : RollEdge.decode (slice (d.data ino) (slot + headerSlot) rollPayload) = .ok ⟨seq + 1, successor.fileInstance, base⟩
  parent : ∃ i, validateV4Prefix (d.data ino) = .ok i ∧ successor.predecessor = i.fileInstance
  sequence : successor.predecessorSequence = seq
  count : baseRecordIndex (d.data ino) + messageCount (d.data ino) = base

/-- What a finished `Roll` has changed. -/
structure Framed (d d' : Disk) (ino slot : Nat) : Prop where
  bytes : ∀ i a, d'.data i a ≠ d.data i a → i = ino ∧ (a = slot ∨ (16 ≤ a ∧ a < 24) ∨ (116 ≤ a ∧ a < 120))
  position : writePosition (d'.data ino) = slot + headerSlot + rollTotal
  lens : ∀ i, d'.len i = d.len i
  segments : d'.segments = d.segments

/-- Finishing a `Roll` is exact, framed and idempotent. -/
structure RollLaw (env : Env) (R seq gen : Nat) (successor : Identity) (base : Nat) (d : Disk) : Prop where
  changes : (commitStrandedRoll env seq R gen successor base : Io Unit Unit).disk () d ≠ d →
    ∃ ino slot, Grounds R seq successor base d ino slot ∧
      Framed d ((commitStrandedRoll env seq R gen successor base : Io Unit Unit).disk () d) ino slot
  failure : ∀ e, (commitStrandedRoll env seq R gen successor base : Io Unit Unit).result () d = .error e →
    (commitStrandedRoll env seq R gen successor base : Io Unit Unit).disk () d = d
  again : (commitStrandedRoll env seq R gen successor base : Io Unit Unit).result () d = .ok () →
    let d' := (commitStrandedRoll env seq R gen successor base : Io Unit Unit).disk () d
    (commitStrandedRoll env seq R gen successor base : Io Unit Unit).result () d' = .ok () ∧
      (commitStrandedRoll env seq R gen successor base : Io Unit Unit).disk () d' = d'

theorem idleOps {x : Io Unit Unit} {res : Except IoError Unit} (run : x () d = ([], res, ())) :
    x.disk () d = d ∧ x.result () d = res := by
  unfold Act.disk Act.ops Act.result
  rw [run]
  exact ⟨rfl, rfl⟩

end Finish

section Congruence
variable {env : Env} {R seq gen len : Nat} {successor : Identity} {base slot pos : Nat}
  {m m' : Mem} {hops : List HeaderType}

theorem strideCongr (same : ∀ a, pos ≤ a → a < pos + 16 → m' a = m a) : stride R len m' pos = stride R len m pos := by
  unfold stride sight
  rw [readCongr same]

/- The header reads the same where the position and the wake word are all that changed in it. -/
theorem Parent.congr (parent : Parent R seq gen successor base m)
    (first : ∀ a, a < 16 → m' a = m a) (low : ∀ a, 24 ≤ a → a < 116 → m' a = m a) (high : ∀ a, 120 ≤ a → a < 208 → m' a = m a) :
    Parent R seq gen successor base m' := by
  have early (off width : Nat) (lo : 24 ≤ off) (hi : off + width ≤ 116) : readLE m' off width = readLE m off width :=
    readLECongr fun a l h => low a (by omega) (by omega)
  have late (off width : Nat) (lo : 120 ≤ off) (hi : off + width ≤ 208) : readLE m' off width = readLE m off width :=
    readLECongr fun a l h => high a (by omega) (by omega)
  have extension : extIdentity m' = extIdentity m := by
    unfold extIdentity
    rw [late 144 16 (by omega) (by omega), late 160 16 (by omega) (by omega), late 176 8 (by omega) (by omega),
      late 184 8 (by omega) (by omega), late 193 3 (by omega) (by omega), late 196 4 (by omega) (by omega),
      late 200 8 (by omega) (by omega)]
  have prefixed : validateV4Prefix m' = validateV4Prefix m := by
    unfold validateV4Prefix
    rw [extension, readLECongr fun a lo hi => first a (by omega)]
  have state : isPublished m' = isPublished m := by
    unfold isPublished extState publicationState
    rw [high 192 (by omega) (by omega)]
  obtain ⟨headerOk, identity, published, gens, sequence, count, small⟩ := parent
  refine ⟨?_, ?_, state.trans published, ?_, sequence, ?_, small⟩
  · rw [validateOk] at headerOk ⊢
    unfold formatVersion endianness systemHeaderSize userHeaderSize userHeaderKind regionSizeField channelSequence at headerOk ⊢
    rwa [early 56 2 (by omega) (by omega), early 60 4 (by omega) (by omega), early 48 4 (by omega) (by omega),
      early 40 8 (by omega) (by omega), low 58 (by omega) (by omega), low 59 (by omega) (by omega),
      low 64 (by omega) (by omega)]
  · rwa [prefixed]
  · rw [← gens]
    exact late 136 8 (by omega) (by omega)
  · rw [← count]
    unfold baseRecordIndex messageCount
    rw [early 32 8 (by omega) (by omega), early 24 8 (by omega) (by omega)]

theorem Names.congr (names : Names env R seq successor base m slot) (inside : slot % R + 56 ≤ R)
    (same : ∀ a, slot < a → a < slot + 56 → m' a = m a) : Names env R seq successor base m' slot := by
  obtain ⟨kind, length, bytes, body, decodes⟩ := names
  have start : slot - slot % R + (slot - (slot - slot % R) + headerSlot) = slot + 16 := by
    have := Nat.mod_le slot R
    show _ + (_ + 16) = _
    omega
  have room : slot - (slot - slot % R) + headerSlot + rollPayload ≤ R := by
    have := Nat.mod_le slot R
    show _ + 16 + 40 ≤ _
    omega
  refine ⟨?_, ?_, bytes, ?_, decodes⟩
  · rw [← kind]
    unfold MessageHeader.parsedHeaderType MessageHeader.read
    dsimp only
    rw [same (slot + 1) (by omega) (by omega)]
  · rw [← length]
    exact readLECongr fun a lo hi => same a (by omega) (by omega)
  · rw [loadInside _ _ room, start] at body ⊢
    rw [← body, sliceCongr fun a lo hi => same a (by omega) (by have : a < slot + 16 + 40 := hi; omega)]

/- The way to a `Roll` behind the header, where the first record leads past it. -/
theorem pathCongr (aligned : 8 ∣ R) (bound : len ≤ maxFileLen) (spans : 208 ≤ alignUp (16 + lengthAt m 0))
    (same : ∀ a, a < 16 ∨ (208 ≤ a ∧ a < slot) → m' a = m a) (run : Run (stride R len m) pos hops slot)
    (start : pos = 0 ∨ 208 ≤ pos) : Run (stride R len m') pos hops slot := by
  induction run with
  | here s => exact .here s
  | @next s a s' labels t first rest ih =>
    have stepped := strideStepped.mp first
    have ahead := (stepped.forward aligned bound).1
    have low : s + 16 ≤ s' := by
      obtain ⟨inside, _, _, _, fits, rfl⟩ := stepped
      have split := slotSplit R s
      have expand : (s / R + 1) * R = s / R * R + R := by ring
      have bound : len ≤ 2 ^ 63 - 1 := bound
      rw [alignUpEq (by omega)]
      have := align8Le (s + (16 + lengthAt m s))
      omega
    have beyond := pathForward aligned bound rest
    refine .next ?_ (ih same ?_)
    · rw [strideCongr fun a lo hi => same a (by omega)]
      exact first
    · rcases start with rfl | start
      · rw [stepped.next, Nat.zero_add]
        exact .inr spans
      · exact .inr (by omega)

end Congruence

section Law
variable {env : Env} {R seq gen : Nat} {successor : Identity} {base : Nat} {d : Disk} {ino slot : Nat} {staged behind : Bool}
  (regions : Regions env R) (sized : Sized d)

/- The disk with the `Roll` finished. -/
def done (d : Disk) (ino slot : Nat) (staged : Bool) : Disk :=
  d.setFile ino { d.files ino with data := finished (d.data ino) slot staged }

theorem doneLen (i : Nat) : (done d ino slot staged).len i = d.len i := by
  by_cases same : i = ino
  · subst same
    exact setFileLen _ _
  · unfold done Disk.len
    rw [setFileOther _ same]

include regions sized in
/-- What is known of a `Roll` that is found. -/
theorem foundFacts (found : Found env R seq gen successor base d ino slot staged true) :
    writePosition (d.data ino) = slot + 16 ∧ 8 ∣ slot ∧ d.data ino slot = (if staged then 0 else 1) ∧
      (slot / R + 1) * R ≤ d.len ino ∧ slot + 72 < 2 ^ 64 ∧
      ∃ hops, Run (stride R (d.len ino) (d.data ino)) (hint R (d.data ino)) hops slot ∧
        (Rests R (d.len ino) (d.data ino) slot .uncommitted ∨ Rests R (d.len ino) (d.data ino) slot .roll) := by
  obtain ⟨users, stop, walked, shape⟩ := found.walked
  obtain ⟨⟨hops, run⟩, rests, inside, room, aligned, byte⟩ := walkedTo regions sized walked shape
  have bound : d.len ino ≤ 2 ^ 63 - 1 := sized ino
  have split := slotSplit R slot
  have expand : (slot / R + 1) * R = slot / R * R + R := by ring
  rcases shapeCases shape with ⟨_, _, bad, _⟩ | ⟨roll, _, _, wp⟩ | ⟨free, _, _, wp⟩
  · cases bad
  · obtain rfl : stop = .roll := roll
    exact ⟨wp, aligned, byte, inside, by omega, hops, run, .inr rests⟩
  · obtain rfl : stop = .uncommitted := free
    exact ⟨wp, aligned, byte, inside, by omega, hops, run, .inl rests⟩

include regions sized in
theorem unitOutcome (seq gen : Nat) (successor : Identity) (base : Nat) :
    ∃ ops res, (commitStrandedRoll env seq R gen successor base : Io Unit Unit) () d = (ops, res, ()) ∧
      Outcome env R seq gen successor base d ops res := callOutcome regions sized

include regions sized in
theorem foundRun (found : Found env R seq gen successor base d ino slot staged true) :
    (commitStrandedRoll env seq R gen successor base : Io Unit Unit) () d =
      (finishing (d.data ino) ino slot staged, .ok (), ()) := by
  obtain ⟨ops, res, run, outcome⟩ := unitOutcome regions sized seq gen successor base
  rw [run]
  cases outcome with
  | refused e none => exact absurd found (none _ _ _ _)
  | absent named => cases named.symm.trans found.named
  | short named short =>
    cases named.symm.trans found.named
    exact absurd found.long (Nat.not_le.mpr short)
  | complete other => cases (found.unique other).2.2.2
  | finish other =>
    obtain ⟨rfl, rfl, rfl, _⟩ := found.unique other
    rfl

include regions sized in
theorem completeRun (found : Found env R seq gen successor base d ino slot staged false) :
    (commitStrandedRoll env seq R gen successor base : Io Unit Unit) () d = ([], .ok (), ()) := by
  obtain ⟨ops, res, run, outcome⟩ := unitOutcome regions sized seq gen successor base
  rw [run]
  cases outcome with
  | refused e none => exact absurd found (none _ _ _ _)
  | absent named => rfl
  | short named short => rfl
  | complete other => rfl
  | finish other => cases (found.unique other).2.2.2

include regions sized in
theorem foundDisk (found : Found env R seq gen successor base d ino slot staged true) :
    (commitStrandedRoll env seq R gen successor base : Io Unit Unit).disk () d = done d ino slot staged ∧
      (commitStrandedRoll env seq R gen successor base : Io Unit Unit).result () d = .ok () := by
  have run := foundRun regions sized found
  unfold Act.disk Act.ops Act.result
  rw [run]
  exact ⟨finishDisk d ino slot staged, rfl⟩

theorem doneData : (done d ino slot staged).data ino = finished (d.data ino) slot staged := setFileData _ _

/- A finished `Roll` has moved the position. -/
theorem doneMoves (wp : writePosition (d.data ino) = slot + 16) (small : slot + 72 < 2 ^ 64) : done d ino slot staged ≠ d := by
  intro same
  have moved : writePosition (finished (d.data ino) slot staged) = slot + 72 := finishedPosition small
  rw [← doneData, same, wp] at moved
  omega

theorem doneSized (sized : Sized d) : Sized (done d ino slot staged) := by
  intro i
  rw [doneLen]
  exact sized i

/- The Channel record spans the header, so a `Roll` lies behind it. -/
theorem prefixLength {m : Mem} {i : Identity} (ok : validateV4Prefix m = .ok i) : lengthAt m 0 = 192 := by
  simp only [validateV4Prefix, bind, Except.bind, throw, throwThe, MonadExceptOf.throw] at ok
  by_cases bad : readLE m 4 4 ≠ channelPayload
  · rw [if_pos bad] at ok
    cases ok
  · exact not_not.mp bad

include regions sized in
theorem foundBehind (found : Found env R seq gen successor base d ino slot staged true) :
    208 ≤ slot ∧ ∃ hops, Run (stride R (d.len ino) (d.data ino)) (slot / R * R) hops slot := by
  obtain ⟨wp, aligned, byte, _, small, hops, path, _⟩ := foundFacts regions sized found
  have large := regions.large
  have start : hint R (d.data ino) ≤ slot / R * R := by
    unfold hint
    rw [wp]
    have mono : (slot + 16 - (headerSlot + rollTotal)) / R * R ≤ slot / R * R :=
      Nat.mul_le_mul_right R (Nat.div_le_div_right (by show _ - 72 ≤ _; omega))
    have one := slotSplit R (slot + 16 - (headerSlot + rollTotal))
    omega
  obtain ⟨rest, way⟩ := pathFromRegion regions.aligned (sized ino) (k := slot / R) start
    (by have := slotSplit R slot; omega) path
  refine ⟨?_, rest, way⟩
  rcases Nat.eq_zero_or_pos (slot / R) with first | later
  · rw [first, Nat.zero_mul] at way
    obtain ⟨_, identity, _⟩ := found.parent.identity
    have spans := prefixLength identity
    cases way with
    | here =>
      have length : lengthAt (d.data ino) 0 = 40 := found.names.length
      omega
    | next one rest =>
      have low := pathForward regions.aligned (sized ino) rest
      rw [(strideStepped.mp one).next, spans] at low
      exact Nat.le_trans (by decide) (Nat.le_trans (Nat.le_add_right _ _) low)
  · have := Nat.le_mul_of_pos_left R later
    have := slotSplit R slot
    omega

include regions sized in
/- A second call that returns and changes nothing has found the `Roll` complete. -/
theorem againInside (found : Found env R seq gen successor base d ino slot staged true)
    (law : RollLaw env R seq gen successor base d) : slot % R + rollTotal ≤ R := by
  obtain ⟨wp, _, _, _, small, _⟩ := foundFacts regions sized found
  obtain ⟨disk, ok⟩ := foundDisk regions sized found
  obtain ⟨ok', same⟩ := law.again ok
  rw [disk] at ok' same
  have named : (done d ino slot staged).segments seq = some ino := found.named
  have position : writePosition (finished (d.data ino) slot staged) = slot + 72 := finishedPosition small
  have sized' : Sized (done d ino slot staged) := doneSized sized
  obtain ⟨ops, res, run, outcome⟩ := unitOutcome regions sized' seq gen successor base
  unfold Act.result at ok'
  rw [run] at ok'
  cases outcome with
  | refused e none => cases ok'
  | absent named' => cases named.symm.trans named'
  | short named' short =>
    cases named.symm.trans named'
    rw [doneLen] at short
    exact absurd found.long (Nat.not_le.mpr short)
  | finish again =>
    obtain ⟨wp', _, _, _, small', _⟩ := foundFacts regions sized' again
    rw [(foundDisk regions sized' again).1] at same
    exact absurd same (doneMoves wp' small')
  | @complete ino' slot' staged' complete =>
    cases named.symm.trans complete.named
    obtain ⟨users, stop, walked, shape⟩ := complete.walked
    obtain ⟨_, rests, _⟩ := walkedTo regions sized' walked shape
    rw [doneData, position] at shape
    rcases shapeCases shape with ⟨roll, _, _, wp'⟩ | ⟨_, _, bad, _⟩ | ⟨_, _, bad, _⟩
    · obtain rfl : stop = .roll := roll
      obtain rfl : slot' = slot := by dsimp only at wp'; omega
      exact (rests.roll rfl).2.2
    · cases bad
    · cases bad

include regions sized in
/- The `Roll` is found again, complete: what is stored for it is nothing that the checks read. -/
theorem insideComplete (found : Found env R seq gen successor base d ino slot staged true)
    (inside : slot % R + rollTotal ≤ R) : Found env R seq gen successor base (done d ino slot staged) ino slot false false := by
  obtain ⟨wp, aligned, byte, within, small, _⟩ := foundFacts regions sized found
  obtain ⟨behind, hops, way⟩ := foundBehind regions sized found
  have large := regions.large
  have fits : slot % R + 56 ≤ R := inside
  have position : writePosition (finished (d.data ino) slot staged) = slot + 72 := finishedPosition small
  have outside (a : Nat) (apart : a ≠ slot ∧ ¬ (16 ≤ a ∧ a < 24) ∧ ¬ (116 ≤ a ∧ a < 120)) :
      finished (d.data ino) slot staged a = d.data ino a := finishedOutside apart
  have names : Names env R seq successor base (finished (d.data ino) slot staged) slot :=
    found.names.congr fits fun a lo hi => outside a (by omega)
  have rests : Rests R ((done d ino slot staged).len ino) ((done d ino slot staged).data ino) slot .roll := by
    rw [doneData, doneLen]
    refine ⟨fun _ => ⟨within, by omega⟩, (by simp), fun _ => ?_, fun _ => ⟨names.kind, names.length, fits⟩, (by simp)⟩
    exact committedOk (finishedFlag aligned byte wp)
  obtain ⟨_, identity, _⟩ := found.parent.identity
  have path : Run (stride R (d.len ino) (finished (d.data ino) slot staged)) (slot / R * R) hops slot := by
    refine pathCongr regions.aligned (sized ino) ?_ (fun a apart => outside a (by omega)) way ?_
    · rw [prefixLength identity]
      decide
    · rcases Nat.eq_zero_or_pos (slot / R) with first | later
      · exact .inl (by rw [first, Nat.zero_mul])
      · have := Nat.le_mul_of_pos_left R later
        exact .inr (by omega)
  rw [← doneData, ← (doneLen ino : (done d ino slot staged).len ino = d.len ino)] at path
  obtain ⟨n, walked⟩ := walkOnComesTo regions.paged (by omega) regions.aligned (doneSized sized ino) path rests (by simp)
  refine ⟨found.named, ?_, ?_, ⟨n, .roll, ?_, ?_⟩, ?_⟩
  · rw [doneLen]
    exact found.long
  · rw [doneData]
    exact found.parent.congr (fun a lo => outside a (by omega)) (fun a lo hi => outside a (by omega))
      fun a lo hi => outside a (by omega)
  · have start : hint R ((done d ino slot staged).data ino) = slot / R * R := by
      unfold hint
      rw [doneData, position]
      show slot + 72 - 72 - (slot + 72 - 72) % R = _
      have := slotSplit R slot
      rw [Nat.add_sub_cancel]
      omega
    rw [start]
    exact walked
  · rw [doneData, position]
    exact if_pos ⟨rfl, rfl⟩
  · rw [doneData]
    exact names

/-- For every content of the file, every successor and generation, and whatever memory lies behind the mapping:
exactly where no `Roll` to be finished reaches past its region. -/
theorem rollFinishedExactly (env : Env) (R seq gen : Nat) (regions : Regions env R) (successor : Identity) (base : Nat) (d : Disk)
    (sized : Sized d) :
    RollLaw env R seq gen successor base d ↔
      ∀ ino slot staged, Found env R seq gen successor base d ino slot staged true → slot % R + rollTotal ≤ R := by
  constructor
  · intro law ino slot staged found
    exact againInside regions sized found law
  intro inside
  obtain ⟨ops, res, run, outcome⟩ := unitOutcome regions sized seq gen successor base
  -- where nothing is stored, nothing is claimed
  have idle (none : (commitStrandedRoll env seq R gen successor base : Io Unit Unit) () d = ([], res, ())) :
      RollLaw env R seq gen successor base d := by
    obtain ⟨disk, result⟩ := idleOps none
    refine ⟨fun changed => absurd disk changed, fun _ _ => disk, fun ok => ?_⟩
    dsimp only
    rw [disk]
    exact ⟨ok, disk⟩
  cases outcome with
  | refused e none => exact idle run
  | absent named => exact idle run
  | short named short => exact idle run
  | complete complete => exact idle run
  | @finish ino slot staged found =>
    have fits : slot % R + 56 ≤ R := inside ino slot staged found
    obtain ⟨wp, _, _, _, small, hops, path, rests⟩ := foundFacts regions sized found
    obtain ⟨disk, ok⟩ := foundDisk regions sized found
    have complete := completeRun regions (doneSized sized) (insideComplete regions sized found fits)
    obtain ⟨disk', ok'⟩ := idleOps complete
    refine ⟨fun _ => ⟨ino, slot, ?_, ?_⟩, fun e failed => ?_, fun _ => ?_⟩
    · obtain ⟨bytes, body, decodes⟩ := found.names.body
      have start : slot - slot % R + (slot - (slot - slot % R) + headerSlot) = slot + headerSlot := by
        have := Nat.mod_le slot R
        omega
      rw [loadInside _ _ (by show _ + 16 + 40 ≤ R; have := Nat.mod_le slot R; omega), start] at body
      cases body
      exact ⟨found.named, found.parent.published, ⟨_, hops, Nat.mod_eq_zero_of_dvd (Nat.dvd_sub_mod _), path, rests⟩, found.names.kind, decodes,
        found.parent.identity, found.parent.sequence, found.parent.count⟩
    · rw [disk]
      refine ⟨fun i a differs => ?_, ?_, fun i => doneLen i, rfl⟩
      · by_cases same : i = ino
        · subst same
          refine ⟨rfl, ?_⟩
          by_contra apart
          rw [doneData] at differs
          exact differs (finishedOutside (by omega))
        · exact absurd (congrFun (setFileDataOther _ same) a) differs
      · rw [doneData]
        exact finishedPosition small
    · cases ok.symm.trans failed
    · dsimp only
      rw [disk]
      exact ⟨ok', disk'⟩

/- Where nothing is mapped behind a region, no such `Roll` is accepted. -/
theorem unmappedInside (none : env.behind = none) (found : Found env R seq gen successor base d ino slot staged behind) :
    slot % R + rollTotal ≤ R := by
  obtain ⟨bytes, body, _⟩ := found.names.body
  by_cases inside : rollPayload ≤ R - (slot - (slot - slot % R) + headerSlot)
  · have := Nat.mod_le slot R
    have inside : 40 ≤ R - (slot - (slot - slot % R) + 16) := inside
    show _ + 56 ≤ _
    omega
  · rw [loadMapped, if_neg inside, none] at body
    cases body

/- A writer that died between the publication of the second file and the commit of the `Roll`. -/
def strandedLives : List Life := [⟨smallConfig, smallFormed, [.reserve 0, .commit 7 0 9, .rollFile], 102⟩]

theorem rollFinishedExactlySmall : RollLaw smallEnv 4096 0 0 ⟨2, 1, 0⟩ 1 (after smallEnv strandedLives) ∧
    (after smallEnv strandedLives).data 0 224 = 0 ∧
    ((commitStrandedRoll smallEnv 0 4096 0 ⟨2, 1, 0⟩ 1 : Io Unit Unit).disk () (after smallEnv strandedLives)).data 0 224 = 1 := by
  refine ⟨(rollFinishedExactly smallEnv 4096 0 0 (pageRegions smallEnv) ⟨2, 1, 0⟩ 1 _ ?_).mpr fun _ _ _ found =>
    unmappedInside rfl found, by decide +kernel, by decide +kernel⟩
  refine sizedRun ?_ fun i => Nat.zero_le _
  decide +kernel

/- Two regions; the staged `Roll` ends sixteen bytes behind the second one, which is mapped right below the
first, so that the rest of its body is what the first region starts with. -/
def mappedEnv : Env := { smallEnv with
  behind := some fun a => ([1, 0, 0, 0, 192, 0, 0, 0] ++ toLE 4 1988034163).getD a 0 }

def crossingDisk : Disk :=
  run Disk.apply (after smallEnv [⟨smallConfig, smallFormed, [], 1000⟩]) ([Op.setLen 0 8192] ++
    [(8, toLE 4 1988034163), (16, toLE 8 8168), (32, [1, 0, 0, 0, 192]), (208, [1, 2]), (212, toLE 4 3872), (4096, [1, 1]),
      (4100, toLE 4 4040), (8152, [0, 3]), (8156, [40]), (8168, [1]), (8176, [2])].map fun s => Op.store 0 s.1 s.2)

/- The `Roll` is committed, and from then on every call fails. -/
theorem crossingRoll :
    let call : Io Unit Unit := commitStrandedRoll mappedEnv 0 4096 0 ⟨2, 1, 0⟩ (1 + 192 * 2 ^ 32)
    call.result () crossingDisk = .ok () ∧ (call.disk () crossingDisk).data 0 8152 = 1 ∧
      call.result () (call.disk () crossingDisk) =
        .error (errInvalidData "segment walk: Roll at 8152 has a 40-byte body, not 40") ∧
      ¬ RollLaw mappedEnv 4096 0 0 ⟨2, 1, 0⟩ (1 + 192 * 2 ^ 32) crossingDisk := by
  have first : (commitStrandedRoll mappedEnv 0 4096 0 ⟨2, 1, 0⟩ (1 + 192 * 2 ^ 32) : Io Unit Unit).result () crossingDisk =
      .ok () := by decide +kernel
  have second : (commitStrandedRoll mappedEnv 0 4096 0 ⟨2, 1, 0⟩ (1 + 192 * 2 ^ 32) : Io Unit Unit).result ()
      ((commitStrandedRoll mappedEnv 0 4096 0 ⟨2, 1, 0⟩ (1 + 192 * 2 ^ 32) : Io Unit Unit).disk () crossingDisk) =
        .error (errInvalidData "segment walk: Roll at 8152 has a 40-byte body, not 40") := by decide +kernel
  refine ⟨first, by decide +kernel, second, fun law => ?_⟩
  cases second.symm.trans (law.again first).1

end Law

end Xchannel.StrandedRolls
