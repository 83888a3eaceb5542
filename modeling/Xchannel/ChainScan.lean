import Xchannel.PartialRun
import Xchannel.ReadLaws

/-! Scanning over any bytes: a slot either leads on to the next place or ends the scan, and this is a
function of the bytes alone. The single reads and the batch scan both follow it. -/
namespace Xchannel.ChainScan
open ByteMemory Format Storage ChannelLog RecordChain Observation SegmentWalk WriterSpecs ReaderOpen ReaderCalls ReadPath
  ReadSpecs BatchSpecs PartialRun
open WriterCalls (maxFileLen)

section Places

/-- Where a scan stands: the open file it reads and a slot of it. -/
structure Place where
  sequence : Nat
  ino : Nat
  fileInstance : InstanceId
  pos : Nat
  deriving DecidableEq, Repr

def place (r : Reader) : Place := ⟨r.fileSequence, r.ino, r.fileInstance, r.readPosition⟩

variable (env : Env) (R gen : Nat) (d : Disk)

/- The header at a slot, as the scans read it. -/
def sight (m : Mem) (pos : Nat) : Except IoError ScannedHeader :=
  let mh := MessageHeader.read m pos
  match mh.isCommitted with
  | .error e => .error e
  | .ok false => .ok ⟨false, .user, 0, 0, 0, 0⟩
  | .ok true =>
    match mh.parsedHeaderType with
    | .error e => .error e
    | .ok t => .ok ⟨true, t, mh.length.toNat, headerSlot + mh.length.toNat, mh.messageType, mh.userMetaU64⟩

def noReader : Reader := ⟨0, 0, 0, 0, 0, 0, 0, none, [], [], [], 0, 0, false, none⟩

/- What the committed `Roll` at a place leads to. -/
def follow (pl : Place) (payloadLen : Nat) : Except IoError Successor :=
  match RollEdge.decode (slice (d.data pl.ino) (pl.pos + headerSlot) payloadLen) with
  | .error e => .error e
  | .ok edge =>
    ((openSuccessor env R gen pl.ino pl.sequence pl.fileInstance edge : Static Disk Reader IoError Successor) d noReader).1

/-- How a place leads on. In a `hole` the header crosses the end of the region; what is `unmapped` lies
past the file; `damaged` is a header that cannot be read or a record that crosses its region; `barred` a
`Roll` that cannot be followed. -/
inductive Onward where
  | hole
  | unmapped
  | damaged
  | free
  | user (next : Place)
  | service (next : Place)
  | roll (next : Place)
  | barred (e : IoError)
  deriving DecidableEq

def onward (pl : Place) : Onward :=
  if R < pl.pos % R + headerSlot then .hole
  else if ¬ headerMapped env R d ⟨0, pl.pos / R, pl.ino⟩ (pl.pos % R) then .unmapped
  else match sight (d.data pl.ino) pl.pos with
    | .error _ => .damaged
    | .ok hdr =>
      if ¬ hdr.isCommitted then .free
      else if R < pl.pos % R + hdr.totalLen then .damaged
      else match hdr.headerType with
        | .user => .user { pl with pos := alignUp (pl.pos + hdr.totalLen) }
        | .skip | .channel => .service { pl with pos := alignUp (pl.pos + hdr.totalLen) }
        | .roll =>
          match follow env R gen d pl hdr.payloadLen with
          | .error e => .barred e
          | .ok next => .roll ⟨next.sequence, next.ino, next.fileInstance, 0⟩

/-- One step of a scan, and whether it leaves the region. -/
inductive Hop where
  | user (ino slot : Nat) (ends : Bool)
  | service (ends : Bool)
  | roll
  deriving DecidableEq, Repr

def hop (pl : Place) : Option (Hop × Place) :=
  match onward env R gen d pl with
  | .user next => some (.user pl.ino pl.pos (next.pos % R = 0), next)
  | .service next => some (.service (next.pos % R = 0), next)
  | .roll next => some (.roll, next)
  | _ => none

end Places

def Hop.item? : Hop → Option (Nat × Nat)
  | .user ino slot _ => some (ino, slot)
  | _ => none

def Hop.crosses : Hop → Bool
  | .user _ _ ends => ends
  | .service ends => ends
  | .roll => true

def usersOf (hops : List Hop) : List (Nat × Nat) := hops.filterMap Hop.item?
def crossed (hops : List Hop) : Nat := hops.countP Hop.crosses

theorem usersOfCons (h : Hop) (hops : List Hop) : usersOf (h :: hops) = h.item?.toList ++ usersOf hops := by
  cases h <;> rfl

theorem crossedCons (h : Hop) (hops : List Hop) :
    crossed (h :: hops) = (if h.crosses then 1 else 0) + crossed hops := by
  rw [crossed, List.countP_cons, Nat.add_comm]
  rfl

theorem usersAppend (a b : List Hop) : usersOf (a ++ b) = usersOf a ++ usersOf b := List.filterMap_append
section Errors

/-- An error of the format or of the system, no panic and no fault. -/
def Plain : IoError → Prop
  | .text _ _ => True
  | _ => False

/-- An error that the format's checks report. -/
def Malformed (e : IoError) : Prop := ∃ what, e = errInvalidData what

theorem Malformed.plain {e : IoError} (malformed : Malformed e) : Plain e := by
  obtain ⟨what, rfl⟩ := malformed
  trivial

theorem refusedWith {α : Type} {P : IoError → Prop} {c : Prop} [Decidable c] {e : IoError} {k : Except IoError α} (h : P e)
    (rest : ∀ e', k = .error e' → P e') : ∀ e', (if c then .error e else k) = .error e' → P e' := by
  intro e' same
  split at same
  · cases same
    exact h
  · exact rest e' same

theorem headerMalformed (m : Mem) (R s : Nat) : ∀ e, validateChannelHeader m R s = .error e → Malformed e := by
  simp only [validateChannelHeader, bind, Except.bind, pure, Except.pure, throw, throwThe, MonadExceptOf.throw]
  exact refusedWith ⟨_, rfl⟩ (refusedWith ⟨_, rfl⟩ (refusedWith ⟨_, rfl⟩ (refusedWith ⟨_, rfl⟩ (refusedWith ⟨_, rfl⟩
    (refusedWith ⟨_, rfl⟩ (by rintro e ⟨⟩))))))

theorem headerPlain (m : Mem) (R s : Nat) : ∀ e, validateChannelHeader m R s = .error e → Plain e :=
  fun e bad => (headerMalformed m R s e bad).plain

theorem prefixMalformed (m : Mem) : ∀ e, validateV4Prefix m = .error e → Malformed e := by
  simp only [validateV4Prefix, extIdentity, bind, Except.bind, pure, Except.pure, throw, throwThe, MonadExceptOf.throw]
  exact refusedWith ⟨_, rfl⟩ (refusedWith ⟨_, rfl⟩ (refusedWith ⟨_, rfl⟩ (refusedWith ⟨_, rfl⟩ (refusedWith ⟨_, rfl⟩
    (by rintro e ⟨⟩)))))

theorem prefixPlain (m : Mem) : ∀ e, validateV4Prefix m = .error e → Plain e :=
  fun e bad => (prefixMalformed m e bad).plain

theorem kindMalformed (mh : MessageHeader) : ∀ e, mh.parsedHeaderType = .error e → Malformed e := by
  simp only [MessageHeader.parsedHeaderType, HeaderType.fromRaw]
  intro e
  split
  · rintro ⟨⟩
  split
  · rintro ⟨⟩
  split
  · rintro ⟨⟩
  split
  · rintro ⟨⟩
  · rintro ⟨⟩
    exact ⟨_, rfl⟩

theorem kindPlain (mh : MessageHeader) : ∀ e, mh.parsedHeaderType = .error e → Plain e :=
  fun e bad => (kindMalformed mh e bad).plain

theorem committedMalformed (mh : MessageHeader) : ∀ e, mh.isCommitted = .error e → Malformed e := by
  simp only [MessageHeader.isCommitted]
  intro e
  split
  · rintro ⟨⟩
  split
  · rintro ⟨⟩
  · rintro ⟨⟩
    exact ⟨_, rfl⟩

theorem committedPlain (mh : MessageHeader) : ∀ e, mh.isCommitted = .error e → Plain e :=
  fun e bad => (committedMalformed mh e bad).plain

theorem publishedMalformed (m : Mem) : ∀ e, isPublished m = .error e → Malformed e := by
  simp only [isPublished, extState, bind, Except.bind, pure, Except.pure]
  intro e
  split
  · rename_i bad
    split at bad
    · cases bad
    split at bad
    · cases bad
    · cases bad
      rintro ⟨⟩
      exact ⟨_, rfl⟩
  · rintro ⟨⟩

theorem publishedPlain (m : Mem) : ∀ e, isPublished m = .error e → Plain e :=
  fun e bad => (publishedMalformed m e bad).plain

theorem decodePlain (payload : List UInt8) : ∀ e, RollEdge.decode payload = .error e → Plain e := by
  simp only [RollEdge.decode, bind, Except.bind, pure, Except.pure, throw, throwThe, MonadExceptOf.throw]
  exact refusedWith trivial (refusedWith trivial (refusedWith trivial (refusedWith trivial (by rintro e ⟨⟩))))

theorem alignmentPlain (env : Env) (base R : Nat) : ∀ e, checkAlignment env base R = .error e → Plain e := by
  simp only [checkAlignment, bind, Except.bind, pure, Except.pure, throw, throwThe, MonadExceptOf.throw]
  exact refusedWith trivial (refusedWith trivial (refusedWith trivial (by rintro e ⟨⟩)))

variable {τ : Type} {env : Env}

theorem createBlind (base R : Nat) : Blind Plain (createReadOnly env base R : Static Disk τ IoError Unit) :=
  blindBind (blindLift (alignmentPlain env base R)) fun _ => blindSyscall

/- A check of what a look returned. -/
theorem checkBlind {α β : Type} {f : Disk → Except IoError α} {g : α → Static Disk τ IoError β}
    (plain : ∀ d e, f d = .error e → Plain e) (next : ∀ a, Blind Plain (g a)) :
    Blind Plain (Observe.look f >>= fun r => lift r >>= g) :=
  fun d t => blindBind (blindLift (plain d)) next d t

theorem identityThen {β : Type} {g : Identity → Static Disk τ IoError β} (i R s : Nat)
    (next : ∀ a, Blind Plain (g a)) : Blind Plain (validatedIdentity i R s >>= g) := by
  refine blindBind (checkBlind (fun _ => headerPlain _ _ _) fun _ d t => ?_) next
  exact blindLift (prefixPlain (d.data i)) d t

theorem successorBlind (R gen header s : Nat) (inst : InstanceId) (edge : RollEdge) :
    Blind Plain (openSuccessor env R gen header s inst edge : Static Disk Reader IoError Successor) := by
  unfold openSuccessor
  refine blindBind (blindLook _) fun _ => blindBind (blindLook _) fun _ => blindBind (blindRefuse trivial) fun _ =>
    blindBind (blindBind blindSyscall fun _ => blindLook _) fun found => ?_
  cases found with
  | none => exact blindFail trivial
  | some i =>
    refine blindBind (createBlind _ _) fun _ => checkBlind (fun _ => kindPlain _) fun _ =>
      blindBind (blindRefuse trivial) fun _ => identityThen _ _ _ fun _ => blindBind (blindRefuse trivial) fun _ =>
      checkBlind (fun _ => publishedPlain _) fun _ => blindBind (blindRefuse trivial) fun _ =>
      blindBind (blindLook _) fun _ => blindBind (blindRefuse trivial) fun _ => blindBind (blindLook _) fun _ =>
      blindBind (blindRefuse trivial) fun _ => blindBind (createBlind _ _) fun _ => blindPure _

end Errors

/- The files the system can hold. -/
def Sized (d : Disk) : Prop := ∀ i, d.len i ≤ maxFileLen

section Views
variable {env : Env} {R gen : Nat} {d : Disk} {pl next : Place}

/-- A committed record inside its region, at a place that is mapped. -/
structure Readable (env : Env) (R : Nat) (d : Disk) (pl : Place) (hdr : ScannedHeader) : Prop where
  room : pl.pos % R + 16 ≤ R
  mapped : headerMapped env R d ⟨0, pl.pos / R, pl.ino⟩ (pl.pos % R)
  header : sight (d.data pl.ino) pl.pos = .ok hdr
  committed : hdr.isCommitted = true
  fits : pl.pos % R + hdr.totalLen ≤ R

/-- Where a record leads, by its kind. -/
inductive Leads (env : Env) (R gen : Nat) (d : Disk) (pl : Place) (hdr : ScannedHeader) : Onward → Prop where
  | user (kind : hdr.headerType = .user) :
      Leads env R gen d pl hdr (.user { pl with pos := alignUp (pl.pos + hdr.totalLen) })
  | service (kind : hdr.headerType = .skip ∨ hdr.headerType = .channel) :
      Leads env R gen d pl hdr (.service { pl with pos := alignUp (pl.pos + hdr.totalLen) })
  | roll {next : Successor} (kind : hdr.headerType = .roll)
      (leads : follow env R gen d pl hdr.payloadLen = .ok next) :
      Leads env R gen d pl hdr (.roll ⟨next.sequence, next.ino, next.fileInstance, 0⟩)
  | barred {e : IoError} (kind : hdr.headerType = .roll)
      (leads : follow env R gen d pl hdr.payloadLen = .error e) : Leads env R gen d pl hdr (.barred e)

/-- What each way on says of the bytes. -/
inductive Sees (env : Env) (R gen : Nat) (d : Disk) (pl : Place) : Onward → Prop where
  | hole (crosses : R < pl.pos % R + 16) : Sees env R gen d pl .hole
  | unmapped (room : pl.pos % R + 16 ≤ R) (off : ¬ headerMapped env R d ⟨0, pl.pos / R, pl.ino⟩ (pl.pos % R)) :
      Sees env R gen d pl .unmapped
  | unreadable {e : IoError} (room : pl.pos % R + 16 ≤ R)
      (mapped : headerMapped env R d ⟨0, pl.pos / R, pl.ino⟩ (pl.pos % R))
      (header : sight (d.data pl.ino) pl.pos = .error e) : Sees env R gen d pl .damaged
  | crossing {hdr : ScannedHeader} (room : pl.pos % R + 16 ≤ R)
      (mapped : headerMapped env R d ⟨0, pl.pos / R, pl.ino⟩ (pl.pos % R))
      (header : sight (d.data pl.ino) pl.pos = .ok hdr) (committed : hdr.isCommitted = true)
      (crosses : R < pl.pos % R + hdr.totalLen) : Sees env R gen d pl .damaged
  | free {hdr : ScannedHeader} (room : pl.pos % R + 16 ≤ R)
      (mapped : headerMapped env R d ⟨0, pl.pos / R, pl.ino⟩ (pl.pos % R))
      (header : sight (d.data pl.ino) pl.pos = .ok hdr) (uncommitted : ¬ hdr.isCommitted = true) :
      Sees env R gen d pl .free
  | record {hdr : ScannedHeader} {way : Onward} (readable : Readable env R d pl hdr)
      (leads : Leads env R gen d pl hdr way) : Sees env R gen d pl way

theorem sees (env : Env) (R gen : Nat) (d : Disk) (pl : Place) : Sees env R gen d pl (onward env R gen d pl) := by
  unfold onward
  by_cases crosses : R < pl.pos % R + headerSlot
  · rw [if_pos crosses]
    exact .hole crosses
  have room : pl.pos % R + 16 ≤ R := Nat.not_lt.mp crosses
  rw [if_neg crosses]
  by_cases mapped : headerMapped env R d ⟨0, pl.pos / R, pl.ino⟩ (pl.pos % R)
  · rw [if_neg (not_not.mpr mapped)]
    cases header : sight (d.data pl.ino) pl.pos with
    | error e => exact .unreadable room mapped header
    | ok hdr =>
      dsimp only
      by_cases committed : hdr.isCommitted = true
      · rw [if_neg (not_not.mpr committed)]
        by_cases beyond : R < pl.pos % R + hdr.totalLen
        · rw [if_pos beyond]
          exact .crossing room mapped header committed beyond
        · rw [if_neg beyond]
          have readable : Readable env R d pl hdr := ⟨room, mapped, header, committed, Nat.not_lt.mp beyond⟩
          refine .record readable ?_
          cases kind : hdr.headerType with
          | user => exact .user kind
          | skip => exact .service (.inl kind)
          | channel => exact .service (.inr kind)
          | roll =>
            dsimp only
            cases leads : follow env R gen d pl hdr.payloadLen with
            | error e => exact .barred kind leads
            | ok next => exact .roll kind leads
      · rw [if_pos committed]
        exact .free room mapped header committed
  · rw [if_pos mapped]
    exact .unmapped room mapped

/- The fields of a committed header. -/
theorem sightFields {m : Mem} {pos : Nat} {hdr : ScannedHeader} (header : sight m pos = .ok hdr)
    (committed : hdr.isCommitted = true) :
    hdr.payloadLen = lengthAt m pos ∧ hdr.totalLen = 16 + lengthAt m pos ∧
      hdr.messageType = (MessageHeader.read m pos).messageType ∧ hdr.userMetaU64 = (MessageHeader.read m pos).userMetaU64 := by
  unfold sight at header
  dsimp only at header
  cases flag : (MessageHeader.read m pos).isCommitted with
  | error e =>
    rw [flag] at header
    cases header
  | ok b =>
    rw [flag] at header
    cases b with
    | false =>
      cases header
      cases committed
    | true =>
      dsimp only at header
      cases kind : (MessageHeader.read m pos).parsedHeaderType with
      | error e =>
        rw [kind] at header
        cases header
      | ok t =>
        rw [kind] at header
        cases header
        exact ⟨readLength m pos, congrArg (16 + ·) (readLength m pos), rfl, rfl⟩

theorem sightPlain {m : Mem} {pos : Nat} {e : IoError} (header : sight m pos = .error e) : Plain e := by
  unfold sight at header
  dsimp only at header
  cases flag : (MessageHeader.read m pos).isCommitted with
  | error e' =>
    rw [flag] at header
    cases header
    exact committedPlain _ _ flag
  | ok b =>
    rw [flag] at header
    cases b with
    | false => cases header
    | true =>
      dsimp only at header
      cases kind : (MessageHeader.read m pos).parsedHeaderType with
      | error e' =>
        rw [kind] at header
        cases header
        exact kindPlain _ _ kind
      | ok t =>
        rw [kind] at header
        cases header

/-- A record inside its region, and the slot after it. -/
structure Spans (R pos next : Nat) : Prop where
  gt : pos + 16 ≤ next
  region : (next % R = 0 ∧ next / R = pos / R + 1) ∨ (next % R ≠ 0 ∧ next / R = pos / R)

theorem spans (regions : Regions env R) {pos len : Nat} (fits : pos % R + (16 + len) ≤ R)
    (below : pos + R + 8 < 2 ^ 64) : Spans R pos (alignUp (pos + (16 + len))) := by
  have large := regions.large
  have split := slotSplit R pos
  have le := align8Le (pos + (16 + len))
  have expand : (pos / R + 1) * R = pos / R * R + R := by ring
  rw [alignUpEq (by omega)]
  have last : align8 (pos + (16 + len)) ≤ (pos / R + 1) * R := align8LeOf (by omega) (regions.aligned.mul_left _)
  refine ⟨by omega, ?_⟩
  rcases Nat.lt_or_ge (align8 (pos + (16 + len))) ((pos / R + 1) * R) with inside | ends
  · right
    have same : align8 (pos + (16 + len)) / R = pos / R :=
      Nat.div_eq_of_lt_le (by omega) inside
    refine ⟨fun zero => ?_, same⟩
    have split' := slotSplit R (align8 (pos + (16 + len)))
    rw [same, zero] at split'
    omega
  · left
    have same : align8 (pos + (16 + len)) = (pos / R + 1) * R := by omega
    rw [same]
    exact ⟨Nat.mul_mod_left _ _, Nat.mul_div_cancel _ (by omega)⟩

/- The slot after a record, from the start of its region. -/
theorem Spans.offset {pos q : Nat} (spans : Spans R pos q) (positive : 0 < R) :
    (q % R = 0 ∧ q - pos / R * R = R) ∨ (q % R ≠ 0 ∧ q - pos / R * R = q % R ∧ q - pos / R * R ≠ R) := by
  have split := slotSplit R q
  have expand : (pos / R + 1) * R = pos / R * R + R := by ring
  rcases spans.region with ⟨zero, region⟩ | ⟨inside, region⟩
  · left
    rw [region, zero, expand] at split
    exact ⟨zero, by omega⟩
  · right
    have below := Nat.mod_lt q positive
    rw [region] at split
    exact ⟨inside, by omega, by omega⟩

/- A place that is mapped is far below the end of the address space. -/
theorem mappedSmall (regions : Regions env R) (sized : Sized d)
    (mapped : headerMapped env R d ⟨0, pl.pos / R, pl.ino⟩ (pl.pos % R)) : pl.pos + R + 8 < 2 ^ 64 := by
  unfold headerMapped at mapped
  simp only [Bool.decide_and, Bool.and_eq_true, decide_eq_true_eq] at mapped
  obtain ⟨_, inside⟩ := mapped
  obtain ⟨k, _, high, page⟩ := env.pageSize
  have small := regions.small
  have len : d.len pl.ino ≤ 2 ^ 63 - 1 := sized pl.ino
  have huge : 2 ^ k ≤ 2 ^ 24 := Nat.pow_le_pow_right (by omega) high
  have rounded : (d.len pl.ino + env.page - 1) / env.page * env.page ≤ d.len pl.ino + env.page - 1 :=
    Nat.div_mul_le_self _ _
  rw [slotSplit] at inside
  omega

theorem Readable.spans (regions : Regions env R) (sized : Sized d) {hdr : ScannedHeader}
    (readable : Readable env R d pl hdr) : Spans R pl.pos (alignUp (pl.pos + hdr.totalLen)) := by
  have small := mappedSmall regions sized readable.mapped
  have fits := readable.fits
  rw [(sightFields readable.header readable.committed).2.1] at fits ⊢
  exact ChainScan.spans regions fits small

end Views

section Hops
variable {env : Env} {R gen : Nat} {d : Disk} {pl next : Place} {h : Hop}

/- The successor a place leads to is the next segment. -/
theorem followNext {len : Nat} {found : Successor} (leads : follow env R gen d pl len = .ok found) :
    found.sequence = pl.sequence + 1 ∧ pl.sequence + 1 < usize := by
  have yields (edge : RollEdge) : Yields (fun a => a.sequence = pl.sequence + 1 ∧ pl.sequence + 1 < usize)
      (openSuccessor env R gen pl.ino pl.sequence pl.fileInstance edge : Static Disk Reader IoError Successor) := by
    unfold openSuccessor
    refine yieldsBind fun _ => yieldsBind fun _ => yieldsRefuse fun fine => yieldsBind fun present => ?_
    have low := (not_not.mp fine).1
    cases present with
    | none => exact yieldsFail
    | some i =>
      exact yieldsBind fun _ => yieldsBind fun _ => yieldsBind fun _ => yieldsBind fun _ => yieldsBind fun _ =>
        yieldsBind fun _ => yieldsBind fun _ => yieldsBind fun _ => yieldsBind fun _ => yieldsBind fun _ =>
        yieldsBind fun _ => yieldsBind fun _ => yieldsBind fun _ => yieldsBind fun _ => yieldsPure ⟨rfl, low⟩
  unfold follow at leads
  split at leads
  · cases leads
  · rename_i edge decoded
    exact yields edge d noReader found _ (Prod.ext leads rfl)

theorem followPlain {len : Nat} {e : IoError} (leads : follow env R gen d pl len = .error e) : Plain e := by
  unfold follow at leads
  split at leads
  · rename_i decoded
    cases leads
    exact decodePlain _ _ decoded
  · exact (successorBlind R gen _ _ _ _ d noReader).2.2 e leads

/- How far a scan can still go: the sequences that are left, and the bytes of the segment. -/
def remaining (pl : Place) : Nat := (2 ^ 64 - pl.sequence) * 2 ^ 64 + (2 ^ 64 - pl.pos)

theorem hopDown (regions : Regions env R) (sized : Sized d) (step : hop env R gen d pl = some (h, next)) :
    remaining next < remaining pl := by
  have view := sees env R gen d pl
  unfold hop at step
  unfold remaining
  generalize onward env R gen d pl = way at step view
  cases view with
  | hole | unmapped | unreadable | crossing | free => cases step
  | @record hdr _ readable leads =>
    have gt := (readable.spans regions sized).gt
    have small := mappedSmall regions sized readable.mapped
    cases leads with
    | barred => cases step
    | user | service =>
      cases step
      show (2 ^ 64 - pl.sequence) * 2 ^ 64 + (2 ^ 64 - alignUp (pl.pos + hdr.totalLen)) < _
      omega
    | @roll found kind leads =>
      cases step
      obtain ⟨same, low⟩ := followNext leads
      have low : pl.sequence + 1 < 2 ^ 64 := low
      have less : 2 ^ 64 - pl.sequence = (2 ^ 64 - (pl.sequence + 1)) + 1 := by omega
      show (2 ^ 64 - found.sequence) * 2 ^ 64 + (2 ^ 64 - 0) < _
      rw [same, less, Nat.add_mul]
      omega

/- No scan takes more rounds than this. -/
abbrev mostRounds : Nat := 2 ^ 129

theorem hopsFew (regions : Regions env R) (sized : Sized d) {hops : List Hop}
    (run : Run (hop env R gen d) pl hops next) : hops.length < mostRounds := by
  have bound := run.bounded (I := fun _ => True) (f := remaining) (fun _ _ _ _ _ => trivial)
    (fun _ _ _ _ step => hopDown regions sized step) trivial
  have most : remaining pl ≤ 2 ^ 64 * 2 ^ 64 + 2 ^ 64 :=
    Nat.add_le_add (Nat.mul_le_mul_right _ (Nat.sub_le _ _)) (Nat.sub_le _ _)
  show _ < 2 ^ 129
  omega

theorem hopService (way : onward env R gen d pl = .service next) :
    hop env R gen d pl = some (.service (next.pos % R = 0), next) := by rw [hop, way]

theorem hopRoll (way : onward env R gen d pl = .roll next) : hop env R gen d pl = some (.roll, next) := by
  rw [hop, way]

theorem hopOver (way : onward env R gen d pl = .user next) :
    hop env R gen d pl = some (.user pl.ino pl.pos (next.pos % R = 0), next) := by rw [hop, way]

/- The way on of a place that a hop leaves. -/
theorem hopUser (step : hop env R gen d pl = some (h, next)) {item : Nat × Nat} (user : h.item? = some item) :
    onward env R gen d pl = .user next ∧ item = (pl.ino, pl.pos) ∧ h = .user pl.ino pl.pos (next.pos % R = 0) := by
  unfold hop at step
  cases view : onward env R gen d pl <;> rw [view] at step <;> cases step
  · cases user
    exact ⟨rfl, rfl, rfl⟩
  · cases user
  · cases user

/- The place after a record of the region. -/
theorem afterRecord (regions : Regions env R) (sized : Sized d)
    (way : onward env R gen d pl = .user next ∨ onward env R gen d pl = .service next) :
    next = { pl with pos := next.pos } ∧ Spans R pl.pos next.pos := by
  have view := sees env R gen d pl
  generalize onward env R gen d pl = way' at view way
  cases view with
  | record readable leads =>
    have spans := readable.spans regions sized
    cases leads with
    | user | service =>
      rcases way with same | same <;> cases same
      exact ⟨rfl, spans⟩
    | roll | barred => rcases way with same | same <;> cases same
  | _ => rcases way with same | same <;> cases same

/- A User record of a path lies inside its region. -/
theorem runFits {hops : List Hop} (run : Run (hop env R gen d) pl hops next) :
    ∀ x ∈ usersOf hops, x.2 % R + 16 + lengthAt (d.data x.1) x.2 ≤ R := by
  induction run with
  | here => exact fun _ mem => absurd mem List.not_mem_nil
  | @next pl h mid hops last first rest ih =>
    intro x mem
    cases user : h.item? with
    | none => exact ih x (by rwa [usersOf, List.filterMap_cons_none user] at mem)
    | some item =>
      rw [usersOf, List.filterMap_cons_some user] at mem
      rcases List.mem_cons.mp mem with rfl | mem
      · obtain ⟨way, rfl, _⟩ := hopUser first user
        have view := sees env R gen d pl
        rw [way] at view
        cases view with
        | record readable leads =>
          have fits := readable.fits
          rw [(sightFields readable.header readable.committed).2.1] at fits
          show pl.pos % R + 16 + lengthAt (d.data pl.ino) pl.pos ≤ R
          omega
      · exact ih x mem

end Hops

/-- The last region mapped is that of the cursor, in the file the reader is in. -/
structure Docked (R gen : Nat) (r : Reader) : Prop where
  region : r.regionSize = R
  generation : r.generation = gen
  header : r.header = r.ino
  map : r.maps.getLast? = some ⟨r.fileSequence, r.readPosition / R, r.ino⟩

section Steps
variable {env : Env} {R gen : Nat} {d : Disk} {r : Reader} {faults : Nat → Option IoError} {n : Nat} {pl next : Place}

theorem sightRun (region : r.regionSize = R) {s i p : Nat} (map : r.maps.getLast? = some ⟨s, p / R, i⟩)
    (mapped : headerMapped env R d ⟨0, p / R, i⟩ (p % R)) :
    (currentMessageHeaderInfo env (p % R) : Trial Disk Reader IoError ScannedHeader) d faults r n =
      (sight (d.data i) p, r, n) := by
  unfold currentMessageHeaderInfo sight
  rw [Trial.selfRun, map, region]
  dsimp only
  rw [slotSplit, Trial.lookRun, if_pos (show headerMapped env R d ⟨s, p / R, i⟩ (p % R) from mapped)]
  cases flag : (MessageHeader.read (d.data i) p).isCommitted with
  | error e => rfl
  | ok committed =>
    rw [Trial.liftOkRun]
    cases committed with
    | false => rfl
    | true =>
      rw [if_neg (by decide), Trial.lookRun]
      cases kind : (MessageHeader.read (d.data i) p).parsedHeaderType with
      | error e => rfl
      | ok t => rfl

theorem sightFaults (region : r.regionSize = R) {s i p : Nat} (map : r.maps.getLast? = some ⟨s, p / R, i⟩)
    (off : ¬ headerMapped env R d ⟨0, p / R, i⟩ (p % R)) :
    (currentMessageHeaderInfo env (p % R) : Trial Disk Reader IoError ScannedHeader) d faults r n =
      (.error faulted, r, n) := by
  unfold currentMessageHeaderInfo
  rw [Trial.selfRun, map, region]
  dsimp only
  rw [Trial.lookRun, if_neg (show ¬ headerMapped env R d ⟨s, p / R, i⟩ (p % R) from off)]
  rfl

theorem Docked.pruned (docked : Docked R gen r) :
    (pruneToCurrent : Trial Disk Reader IoError Unit) d faults r n =
      (.ok (), { r with maps := [⟨r.fileSequence, r.readPosition / R, r.ino⟩] }, n) := by
  unfold pruneToCurrent
  rw [Trial.selfRun, docked.map]
  dsimp only
  rw [Trial.refuseRun]
  · rfl
  · rw [docked.region]
    simp

theorem Docked.alone (docked : Docked R gen r) :
    Docked R gen { r with maps := [⟨r.fileSequence, r.readPosition / R, r.ino⟩] } :=
  { docked with map := rfl }

/- The cursor moved, in a region that is mapped. -/
theorem Docked.moved (docked : Docked R gen r) {q position : Nat} {maps : List MappedRegion}
    (map : maps.getLast? = some ⟨r.fileSequence, q / R, r.ino⟩) :
    Docked R gen { r with readPosition := q, position := position, maps := maps } :=
  { docked with map := map }

theorem Docked.switch (regions : Regions env R) (docked : Docked R gen r) {idx : Nat} (ne : idx ≠ r.readPosition / R) :
    Trial.Spec d faults r n (switchRegion env idx) fun res r' n' =>
      (res = .ok () ∧ r' = { r with maps := r.maps ++ [⟨r.fileSequence, idx, r.ino⟩] }) ∨
      ∃ e, res = .error e ∧ r' = r ∧ Trial.Refused faults n n' e := by
  unfold switchRegion
  apply Trial.specSelf
  rw [docked.map, docked.region]
  dsimp only
  rw [if_neg (by rintro ⟨_, same⟩; exact ne same.symm)]
  refine createSpec regions (regionBase regions idx) ?_ ?_
  · exact ⟨Nat.le_refl _, .inl ⟨rfl, rfl⟩⟩
  · intro e refused
    exact .inr ⟨e, rfl, rfl, refused⟩

/- Both of the steps over a record of the region. -/
theorem Docked.pass (regions : Regions env R) (docked : Docked R gen r) {q : Nat} (spans : Spans R r.readPosition q) :
    Trial.Spec d faults r n (passService env q) fun res r' n' =>
      (res = .ok () ∧ Docked R gen r' ∧ place r' = { place r with pos := q }) ∨
      ∃ e, res = .error e ∧ r' = r ∧ Trial.Refused faults n n' e := by
  obtain rfl := docked.region
  unfold passService
  apply Trial.specSelf
  rcases spans.region with ⟨zero, region⟩ | ⟨inside, region⟩
  · rw [if_pos zero]
    refine Trial.specSeq (docked.switch regions (show q / r.regionSize ≠ _ by omega)) ?_ ?_
    · rintro _ r1 n1 _ (⟨_, rfl⟩ | ⟨e, bad, _⟩)
      · refine Trial.specSelf (Trial.specBecome ?_)
        have moved := @Docked.moved _ _ r docked q r.position (r.maps ++ [⟨r.fileSequence, q / r.regionSize, r.ino⟩]) (by simp)
        unfold Trial.Spec
        rw [moved.pruned]
        exact ⟨Nat.le_refl _, .inl ⟨rfl, moved.alone, rfl⟩⟩
      · cases bad
    · rintro e r1 n1 _ (⟨bad, _⟩ | refused)
      · cases bad
      · exact .inr refused
  · rw [if_neg inside]
    exact ⟨Nat.le_refl _, .inl ⟨rfl, docked.moved (by rw [region]; exact docked.map), rfl⟩⟩

theorem Docked.take (regions : Regions env R) (docked : Docked R gen r) {q : Nat} (spans : Spans R r.readPosition q) :
    Trial.Spec d faults r n (takeRecord env q) fun res r' n' =>
      (res = .ok () ∧ Docked R gen r' ∧ place r' = { place r with pos := q } ∧ ∃ more, r'.maps = r.maps ++ more) ∨
      ∃ e, res = .error e ∧ r' = r ∧ Trial.Refused faults n n' e := by
  obtain rfl := docked.region
  unfold takeRecord
  apply Trial.specSelf
  rcases spans.region with ⟨zero, region⟩ | ⟨inside, region⟩
  · rw [if_pos zero]
    refine Trial.specSeq (docked.switch regions (show q / r.regionSize ≠ _ by omega)) ?_ ?_
    · rintro _ r1 n1 _ (⟨_, rfl⟩ | ⟨e, bad, _⟩)
      · apply Trial.specSelf
        exact ⟨Nat.le_refl _, .inl ⟨rfl, docked.moved (by simp), rfl, _, rfl⟩⟩
      · cases bad
    · rintro e r1 n1 _ (⟨bad, _⟩ | refused)
      · cases bad
      · exact .inr refused
  · rw [if_neg inside]
    exact ⟨Nat.le_refl _, .inl ⟨rfl, docked.moved (by rw [region]; exact docked.map), rfl, [], (List.append_nil _).symm⟩⟩

end Steps
end Xchannel.ChainScan
