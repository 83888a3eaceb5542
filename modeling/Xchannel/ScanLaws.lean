import Xchannel.SweepSpecs

/-! The reading calls over any bytes: what each returns, and where it leaves the reader. -/
namespace Xchannel.ScanLaws
open ByteMemory Format Storage ChannelLog RecordChain Observation SegmentWalk WriterSpecs ReaderOpen ReaderCalls ReadPath
  ReadSpecs BatchSpecs ReadLaws PartialRun ChainScan ScanSpecs SweepSpecs

/-- A message inside its region. -/
def Within (R : Nat) (msg : MessageRef) : Prop := msg.headerOffset + headerSlot + msg.payloadLen ≤ R

/- Why a single read fails, at the place it leaves. -/
def Blocked (env : Env) (R gen : Nat) (d : Disk) (faults : Nat → Option IoError) (fuel n n' : Nat) (pl : Place)
    (e : IoError) : Prop :=
  Trial.Refused faults n n' e ∨ (e = endless ∧ fuel < mostRounds) ∨ Thwarts env R gen d false pl e

section Singles
variable {env : Env} {R gen : Nat} {d : Disk} {r r' : Reader} {faults : Nat → Option IoError} {n fuel : Nat} {pl next : Place}

theorem userFits (way : onward env R gen d pl = .user next) :
    pl.pos % R + 16 + lengthAt (d.data pl.ino) pl.pos ≤ R := by
  have view := sees env R gen d pl
  rw [way] at view
  cases view with
  | record readable leads =>
    have fits := readable.fits
    rw [(sightFields readable.header readable.committed).2.1] at fits
    omega

theorem blockedSoon (regions : Regions env R) (sized : Sized d) {hops : List Hop} {n' : Nat} {e : IoError}
    (run : Run (hop env R gen d) pl hops next)
    (why : Trial.Refused faults n n' e ∨ (e = endless ∧ fuel ≤ hops.length) ∨ Thwarts env R gen d false next e) :
    Blocked env R gen d faults fuel n n' next e := by
  have few := hopsFew regions sized run
  exact why.imp_right fun why => why.imp_left fun short => ⟨short.1, by omega⟩

theorem scanToRaw (regions : Regions env R) (sized : Sized d) (docked : Docked R gen r) {consume : Bool} :
    Trial.Spec d faults r n (scanToUserRecord env fuel consume) (Halted env R gen d faults consume (place r) fuel n) := by
  unfold scanToUserRecord
  exact Trial.specRun docked.pruned (scanRaw regions sized docked.alone)

theorem tryReadRaw (regions : Regions env R) (sized : Sized d) (docked : Docked R gen r) :
    Trial.Spec d faults r n (tryRead env fuel) fun res r' n' => Docked R gen r' ∧ match res with
      | .ok none => ∃ hops, Quiet env R gen d (place r) hops (place r') ∧ onward env R gen d (place r') = .free
      | .ok (some msg) => ∃ hops mid, Quiet env R gen d (place r) hops mid ∧ onward env R gen d mid = .user (place r') ∧
          msg.record R d = recordAt (d.data mid.ino) mid.pos ∧ Within R msg
      | .error e => ∃ hops, Quiet env R gen d (place r) hops (place r') ∧
          Blocked env R gen d faults fuel n n' (place r') e := by
  unfold tryRead
  refine Trial.specSeq (scanToRaw regions sized docked) ?_ ?_
  · rintro found r1 n1 _ post
    cases found with
    | none => exact Trial.specRet post
    | some found =>
      obtain ⟨docked', hops, mid, next, quiet, way, place, there⟩ := post
      obtain ⟨t, map⟩ := place.map
      dsimp only
      apply Trial.specSelf
      rw [map]
      refine Trial.specRet ⟨docked', hops, mid, quiet, ?_, messageRecord rfl place.offset place.length, ?_⟩
      · rw [way, there]
        rfl
      · have fits := userFits way
        unfold Within
        dsimp only
        rw [place.offset, place.length]
        exact fits
  · rintro e r1 n1 _ ⟨docked', hops, quiet, why⟩
    exact ⟨docked', hops, quiet, blockedSoon regions sized quiet.run why⟩

/- A scan that consumes nothing stops at the record it finds. -/
theorem lookRaw (regions : Regions env R) (sized : Sized d) (docked : Docked R gen r) :
    Trial.Spec d faults r n (scanToUserRecord env fuel false) fun res r' n' => Docked R gen r' ∧
      ∃ hops, Quiet env R gen d (place r) hops (place r') ∧
        ∀ e, res = .error e → Blocked env R gen d faults fuel n n' (place r') e := by
  refine Trial.specMono (scanToRaw regions sized docked) ?_
  rintro res r1 n1 _ post
  match res, post with
  | .ok none, ⟨docked', hops, quiet, _⟩ => exact ⟨docked', hops, quiet, (by intros; contradiction)⟩
  | .ok (some found), ⟨docked', hops, mid, next, quiet, _, _, there⟩ =>
    refine ⟨docked', hops, ?_, (by intros; contradiction)⟩
    rw [there]
    exact quiet
  | .error e, ⟨docked', hops, quiet, why⟩ =>
    refine ⟨docked', hops, quiet, ?_⟩
    rintro _ ⟨⟩
    exact blockedSoon regions sized quiet.run why

theorem peekRaw (regions : Regions env R) (sized : Sized d) (docked : Docked R gen r) :
    Trial.Spec d faults r n (peekHeader env fuel) fun res r' n' => Docked R gen r' ∧
      ∃ hops, Quiet env R gen d (place r) hops (place r') ∧
        ∀ e, res = .error e → Blocked env R gen d faults fuel n n' (place r') e := by
  unfold peekHeader
  refine Trial.specSeq (lookRaw regions sized docked) ?_ ?_
  · rintro found r1 n1 _ ⟨docked', hops, quiet, _⟩
    cases found <;> exact Trial.specRet ⟨docked', hops, quiet, (by intros; contradiction)⟩
  · rintro e r1 n1 _ ⟨docked', hops, quiet, why⟩
    refine ⟨docked', hops, quiet, ?_⟩
    rintro _ ⟨⟩
    exact why e rfl

theorem pollRaw (regions : Regions env R) (sized : Sized d) (docked : Docked R gen r) :
    Trial.Spec d faults r n (pollForUserMessage env fuel) fun res r' n' => Docked R gen r' ∧
      ∃ hops, Quiet env R gen d (place r) hops (place r') ∧
        ∀ e, res = .error e → Blocked env R gen d faults fuel n n' (place r') e := by
  have same : (pollForUserMessage env fuel : Trial Disk Reader IoError Bool) =
      Option.isSome <$> scanToUserRecord env fuel false := by
    unfold pollForUserMessage scanToUserRecord
    rw [pollScan, map_bind]
  rw [same, map_eq_pure_bind]
  refine Trial.specSeq (lookRaw regions sized docked) ?_ ?_
  · rintro found r1 n1 _ ⟨docked', hops, quiet, _⟩
    exact Trial.specRet ⟨docked', hops, quiet, (by intros; contradiction)⟩
  · rintro e r1 n1 _ ⟨docked', hops, quiet, why⟩
    refine ⟨docked', hops, quiet, ?_⟩
    rintro _ ⟨⟩
    exact why e rfl

/-- Up to `max` reads: some records of the path were delivered. -/
structure Owned (env : Env) (R gen : Nat) (d : Disk) (faults : Nat → Option IoError) (fuel n max : Nat) (pl : Place)
    (more : List MessageRef) (result : Except IoError Unit) (r' : Reader) (n' : Nat) : Prop where
  docked : Docked R gen r'
  path : ∃ hops, Run (hop env R gen d) pl hops (place r') ∧ more.map (MessageRef.record R d) = itemRecords d (usersOf hops)
  within : ∀ msg ∈ more, Within R msg
  few : more.length ≤ max
  done : result = .ok () → more.length = max ∨ onward env R gen d (place r') = .free
  failed : ∀ e, result = .error e → more.length < max ∧ Blocked env R gen d faults fuel n n' (place r') e

theorem ownedRaw (regions : Regions env R) (sized : Sized d) (docked : Docked R gen r) (max : Nat) (out : List MessageRef) :
    Trial.Spec d faults r n (readOwnedLoop env fuel max out) fun res r' n' => ∃ more result,
      res = .ok (out ++ more, result) ∧ Owned env R gen d faults fuel n max (place r) more result r' n' := by
  induction max generalizing r n out with
  | zero =>
    exact Trial.specRet ⟨[], .ok (), by rw [List.append_nil], docked, ⟨[], .here _, rfl⟩, (by intros; contradiction), Nat.le_refl _,
      fun _ => .inl rfl, (by intros; contradiction)⟩
  | succ max ih =>
    unfold readOwnedLoop
    refine Trial.specAttempt (tryReadRaw regions sized docked) ?_
    rintro res r1 n1 later ⟨docked', post⟩
    rcases res with e | _ | msg
    · obtain ⟨hops, quiet, why⟩ := post
      refine Trial.specRet ⟨[], .error e, by rw [List.append_nil], docked', ⟨hops, quiet.run, by rw [quiet.none]; rfl⟩,
        (by intros; contradiction), Nat.zero_le _, (by intros; contradiction), ?_⟩
      rintro _ ⟨⟩
      exact ⟨Nat.succ_pos _, why⟩
    · obtain ⟨hops, quiet, free⟩ := post
      exact Trial.specRet ⟨[], .ok (), by rw [List.append_nil], docked', ⟨hops, quiet.run, by rw [quiet.none]; rfl⟩,
        (by intros; contradiction), Nat.zero_le _, fun _ => .inr free, (by intros; contradiction)⟩
    · obtain ⟨hops, mid, quiet, way, record, within⟩ := post
      refine Trial.specMono (ih docked' (out ++ [msg])) ?_
      rintro _ r2 n2 _ ⟨more, result, rfl, owned⟩
      obtain ⟨hops', run, records⟩ := owned.path
      refine ⟨msg :: more, result, by rw [List.append_assoc]; rfl, owned.docked, ⟨hops ++ _ :: hops',
        quiet.run.append (.next (hopOver way) run), ?_⟩, ?_, by simpa using owned.few, ?_, ?_⟩
      · rw [usersAppend, quiet.none, List.nil_append, usersOfCons, List.map_cons, records, record]
        rfl
      · rintro x (_ | ⟨_, mem⟩)
        · exact within
        · exact owned.within x mem
      · exact fun fine => (owned.done fine).imp_left (congrArg Nat.succ)
      · intro e bad
        obtain ⟨less, why⟩ := owned.failed e bad
        exact ⟨Nat.succ_lt_succ less, why.imp_left fun refused => refused.widen later (Nat.le_refl _)⟩

end Singles

section Batches
variable {env : Env} {R gen : Nat} {d : Disk} {r r' : Reader} {faults : Nat → Option IoError} {n fuel max : Nat}
  {pl next : Place}

/-- Why a batch fails: as a single read does, or at a place behind records it has taken. -/
def BatchBlocked (env : Env) (R gen : Nat) (d : Disk) (faults : Nat → Option IoError) (max fuel n n' : Nat) (pl : Place)
    (e : IoError) : Prop :=
  ∃ hops pl', Run (hop env R gen d) pl hops pl' ∧ (usersOf hops).length < max ∧
    (Trial.Refused faults n n' e ∨ (e = endless ∧ fuel < mostRounds) ∨ (e = tooMany ∧ 65535 < crossed hops) ∨
      (Thwarts env R gen d true pl' e ∧ crossed hops ≤ 65535 ∧
        ((∃ e', onward env R gen d pl' = .barred e') → usersOf hops = [])))

/-- What a batch read comes to. -/
def BatchEnds (env : Env) (R gen : Nat) (d : Disk) (faults : Nat → Option IoError) (max fuel n : Nat) (pl : Place) :
    Except IoError (Option MessageBatch) → Reader → Nat → Prop
  | .ok none, r, _ => Docked R gen r ∧
      (max = 0 ∨ ∃ hops, Quiet env R gen d pl hops (place r) ∧ onward env R gen d (place r) = .free ∧
        crossed hops ≤ 65535)
  | .ok (some b), r, n' => ∃ hops, Run (hop env R gen d) pl hops (place r) ∧ usersOf hops ≠ [] ∧
      (usersOf hops).length ≤ max ∧ b.regionSize = R ∧ List.Forall₂ (Resolves R b.maps b.segs) b.pos (usersOf hops) ∧
      Rested env R gen d faults max r.maps [] 0 n n' hops (place r) ∧
      (r.maps.getLast? = some ⟨r.fileSequence, r.readPosition / R, r.ino⟩ → Docked R gen r)
  | .error e, r, n' => Docked R gen r ∧ place r = pl ∧ BatchBlocked env R gen d faults max fuel n n' pl e

theorem scanBatchRaw (regions : Regions env R) (sized : Sized d) {map : MappedRegion} (docked : Docked R gen (cleared r map))
    (positive : 0 < max) :
    Trial.Spec d faults (cleared r map) n (scanBatch env fuel max) fun res r' n' => match res with
      | .ok none => Docked R gen r' ∧ ∃ hops, Quiet env R gen d (place (cleared r map)) hops (place r') ∧
          onward env R gen d (place r') = .free ∧ crossed hops ≤ 65535
      | .ok (some sc) => Swept env R gen d faults max (cleared r map) (place (cleared r map)) [] 0 fuel n (.ok sc) r' n'
      | .error e => Swept env R gen d faults max (cleared r map) (place (cleared r map)) [] 0 fuel n (.error e) r' n' := by
  have start : Gathering R gen (cleared r map) (cleared r map)
      ⟨r.fileSequence, none, r.readPosition, r.position, false, 0, 0, 0⟩ (place (cleared r map)) [] :=
    { frozen := ⟨[map], [], [], rfl⟩
      first := rfl
      region := docked.region
      generation := docked.generation
      header := docked.header
      here := rfl
      collected := .nil
      idle := fun _ => ⟨rfl, rfl⟩ }
  unfold scanBatch
  apply Trial.specSelf
  refine Trial.specSeq (start.enter regions rfl rfl docked.map (.inl rfl)) ?_ ?_
  · intro sc r1 n1 later sweeping
    refine Trial.specSeq (sweepRaw regions sized rfl sweeping positive) ?_ ?_
    · intro sc' r2 n2 more swept
      have swept := swept.later later
      cases progressed : sc'.progressed with
      | true =>
        rw [if_pos rfl]
        exact Trial.specRet swept
      | false =>
        rw [if_neg (by decide)]
        obtain ⟨hops, pl', run, gathering, _, rested⟩ := swept
        obtain ⟨same, none⟩ := gathering.idle progressed
        have here := gathering.here
        rw [same] at here
        obtain ⟨map, free, few⟩ := rested.free positive none
        have few : 0 + crossed hops ≤ 65535 := few
        rw [Nat.zero_add] at few
        have docked' := gathering.docked map
        rw [same] at docked'
        subst here
        exact Trial.specRet ⟨docked', hops, ⟨run, none⟩, free, few⟩
    · intro e r2 n2 more swept
      exact swept.later later
  · rintro e r1 n1 _ ⟨frozen, first, why⟩
    refine ⟨frozen, first, [], _, .here _, positive, ?_⟩
    rcases why with refused | many
    · exact .inl refused
    · exact .inr (.inr (.inl many))

theorem tryReadBatchRaw (regions : Regions env R) (sized : Sized d) (docked : Docked R gen r) (maxBatch : Option UInt16) :
    Trial.Spec d faults r n (tryReadBatch env fuel maxBatch)
      (BatchEnds env R gen d faults (batchMax r.batchLimit maxBatch) fuel n (place r)) := by
  have start : Docked R gen (cleared r ⟨r.fileSequence, r.readPosition / R, r.ino⟩) := { docked with map := rfl }
  unfold tryReadBatch
  apply Trial.specSelf
  by_cases zero : batchMax r.batchLimit maxBatch = 0
  · rw [if_pos zero]
    exact Trial.specRet ⟨docked, .inl zero⟩
  · rw [if_neg zero]
    refine Trial.specRun (u := { r with batchSegs := [], batchPos := [] }) rfl ?_
    have docked₁ : Docked R gen { r with batchSegs := [], batchPos := [] } := { docked with }
    refine Trial.specRun docked₁.pruned ?_
    refine Trial.specAttempt (scanBatchRaw regions sized start (Nat.pos_of_ne_zero zero)) ?_
    intro res r1 n1 later post
    match res, post with
    | .error e, ⟨⟨maps, batch, positions, same⟩, first, hops, pl', run, fewer, why⟩ =>
      subst same
      have first : maps.take 1 = [⟨r.fileSequence, r.readPosition / R, r.ino⟩] := first
      refine Trial.specSelf (Trial.specBecome (Trial.specRun (a := ())
        (u := cleared r ⟨r.fileSequence, r.readPosition / R, r.ino⟩) ?_ ?_))
      · dsimp only
        rw [first]
        rfl
      · refine Trial.specFail ⟨start, rfl, hops, pl', run, fewer, ?_⟩
        have few := hopsFew regions sized run
        rcases why with refused | ⟨same, short⟩ | ⟨same, many⟩ | thwarts
        · exact .inl refused
        · exact .inr (.inl ⟨same, by omega⟩)
        · exact .inr (.inr (.inl ⟨same, by omega⟩))
        · obtain ⟨thwarts, few, taken⟩ := thwarts
          exact .inr (.inr (.inr ⟨thwarts, by omega, taken⟩))
    | .ok none, ⟨docked', hops, quiet, free⟩ =>
      refine Trial.specRun (u := { r1 with batchSegs := [], batchPos := [] }) rfl (Trial.specRet ?_)
      exact ⟨{ docked' with }, .inr ⟨hops, quiet, free⟩⟩
    | .ok (some sc), ⟨hops, pl', run, gathering, fewer, rested⟩ =>
      rw [List.nil_append] at gathering fewer
      obtain rfl := gathering.here
      have length := gathering.collected.length_eq
      have positions : (settle sc r1).batchPos = r1.batchPos := rfl
      refine Trial.specRun commitRun (Trial.specSelf ?_)
      by_cases empty : r1.batchPos = []
      · rw [positions, if_pos empty]
        have none : usersOf hops = [] := by
          rw [empty] at length
          exact List.length_eq_zero_iff.mp length.symm
        obtain ⟨map, free, few⟩ := rested.free (Nat.pos_of_ne_zero zero) none
        rw [Nat.zero_add] at few
        have landed : Docked R gen { settle sc r1 with batchSegs := [], batchPos := [] } :=
          { gathering.docked map with }
        refine Trial.specRun (u := { settle sc r1 with batchSegs := [], batchPos := [] }) rfl ?_
        exact Trial.specRun landed.pruned (Trial.specRet ⟨landed.alone, .inr ⟨hops, ⟨run, none⟩, free, few⟩⟩)
      · rw [positions, if_neg empty]
        refine Trial.specRet ⟨hops, run, fun none => empty ?_, fewer, gathering.region, gathering.collected,
          rested, fun map => gathering.docked map⟩
        rw [none] at length
        exact List.length_eq_zero_iff.mp length

/- The batch, read through its `iter`. -/
theorem askBatchRaw (regions : Regions env R) (sized : Sized d) (docked : Docked R gen r) (maxBatch : Option UInt16) :
    Trial.Spec d faults r n (ask env fuel (.tryReadBatch maxBatch)) fun res r' n' => match res with
      | .ok reply => ∃ msgs, reply = .batch msgs ∧ (∀ msg ∈ msgs.getD [], Within R msg) ∧ match msgs with
        | none => BatchEnds env R gen d faults (batchMax r.batchLimit maxBatch) fuel n (place r) (.ok none) r' n'
        | some msgs => ∃ hops, Run (hop env R gen d) (place r) hops (place r') ∧
            msgs.map (MessageRef.record R d) = itemRecords d (usersOf hops) ∧ usersOf hops ≠ [] ∧
            Rested env R gen d faults (batchMax r.batchLimit maxBatch) r'.maps [] 0 n n' hops (place r') ∧
            (r'.maps.getLast? = some ⟨r'.fileSequence, r'.readPosition / R, r'.ino⟩ → Docked R gen r')
      | .error e => BatchEnds env R gen d faults (batchMax r.batchLimit maxBatch) fuel n (place r) (.error e) r' n' := by
  show Trial.Spec d faults r n (tryReadBatch env fuel maxBatch >>= _) _
  refine Trial.specSeq (tryReadBatchRaw regions sized docked maxBatch) ?_ ?_
  · rintro b r1 n1 _ post
    cases b with
    | none => exact Trial.specRet ⟨none, rfl, (by intros; contradiction), post⟩
    | some b =>
      obtain ⟨hops, run, taken, _, region, collected, rested, docked'⟩ := post
      obtain ⟨batch, positions, maps, regionSize⟩ := b
      obtain rfl : regionSize = R := region
      obtain ⟨msgs, iterated, same, within⟩ := iterRun faults (r := r1) (n := n1) collected (runFits run) positions
      exact Trial.specRun iterated (Trial.specRet ⟨some msgs, rfl, within, hops, run, same, taken, rested, docked'⟩)
  · exact fun _ _ _ _ post => post

end Batches

section Calls
variable {env : Env} {R gen : Nat} {d : Disk} {r r' : Reader} {faults : Nat → Option IoError} {n fuel : Nat}

/-- A batch of `max` records ahead of a place ends with one that ends its region. -/
def Overruns (env : Env) (R gen : Nat) (d : Disk) (max : Nat) (pl : Place) : Prop :=
  ∃ before i slot next, Run (hop env R gen d) pl (before ++ [.user i slot true]) next ∧
    (usersOf before).length + 1 = max ∧ crossed before ≤ 65535

/- How many records a call may take. -/
def reach (r : Reader) : ReadCall → Nat
  | .readOwnedInto max => max.elim u64Max UInt64.toNat
  | .tryReadBatch maxBatch => batchMax r.batchLimit maxBatch
  | _ => 1

/-- The batch a call asks for stops inside a region. -/
def StopsInside (env : Env) (R gen : Nat) (d : Disk) (r : Reader) : ReadCall → Prop
  | .tryReadBatch maxBatch => ¬ Overruns env R gen d (batchMax r.batchLimit maxBatch) (place r)
  | _ => True

/-- A header that a call comes to lies outside the region or the file. A batch checks the region. -/
def Exposes (env : Env) (R gen : Nat) (d : Disk) (r : Reader) (c : ReadCall) : Prop :=
  ∃ hops pl, Run (hop env R gen d) (place r) hops pl ∧ (usersOf hops).length < reach r c ∧ match c with
    | .tryReadBatch _ => crossed hops ≤ 65535 ∧ onward env R gen d pl = .unmapped
    | _ => onward env R gen d pl = .unmapped ∨ onward env R gen d pl = .hole

/-- What a call comes to. -/
structure Replied (env : Env) (R gen : Nat) (d : Disk) (faults : Nat → Option IoError) (fuel n : Nat) (r : Reader)
    (c : ReadCall) (res : Except IoError Reply) (r' : Reader) (n' : Nat) : Prop where
  docked : StopsInside env R gen d r c → Docked R gen r'
  failed : ∀ e, failureOf res = some e → Trial.Refused faults n n' e ∨ (e = endless ∧ fuel < mostRounds) ∨ Plain e ∨
    (e = faulted ∧ Exposes env R gen d r c)
  within : ∀ msg ∈ deliveredOf res, Within R msg

theorem blockedFails {n' : Nat} {hops : List Hop} {c : ReadCall} {e : IoError} {pl : Place}
    (run : Run (hop env R gen d) (place r) hops pl) (few : (usersOf hops).length < reach r c)
    (single : ∀ maxBatch, c ≠ .tryReadBatch maxBatch) (why : Blocked env R gen d faults fuel n n' pl e) :
    Trial.Refused faults n n' e ∨ (e = endless ∧ fuel < mostRounds) ∨ Plain e ∨
      (e = faulted ∧ Exposes env R gen d r c) := by
  have exposes (off : onward env R gen d pl = .unmapped ∨ onward env R gen d pl = .hole) : Exposes env R gen d r c := by
    refine ⟨hops, pl, run, few, ?_⟩
    cases c with
    | tryReadBatch maxBatch => exact absurd rfl (single maxBatch)
    | _ => exact off
  rcases why with refused | short | thwarts
  · exact .inl refused
  · exact .inr (.inl short)
  · unfold Thwarts at thwarts
    cases way : onward env R gen d pl <;> rw [way] at thwarts
    · exact .inr (.inr (.inr ⟨thwarts, exposes (.inr way)⟩))
    · exact .inr (.inr (.inr ⟨thwarts, exposes (.inl way)⟩))
    · exact .inr (.inr (.inl thwarts))
    · exact thwarts.elim
    · exact thwarts.elim
    · exact thwarts.elim
    · exact thwarts.elim
    · exact .inr (.inr (.inl thwarts.2))

theorem askRaw (regions : Regions env R) (sized : Sized d) (docked : Docked R gen r) (c : ReadCall) :
    Trial.Spec d faults r n (ask env fuel c) (Replied env R gen d faults fuel n r c) := by
  have looked {e : IoError} {n' : Nat} {r1 : Reader} (c : ReadCall) (one : reach r c = 1)
      (other : ∀ maxBatch, c ≠ .tryReadBatch maxBatch) {hops : List Hop}
      (quiet : Quiet env R gen d (place r) hops (place r1)) (docked' : Docked R gen r1)
      (why : Blocked env R gen d faults fuel n n' (place r1) e) :
      Replied env R gen d faults fuel n r c (.error e) r1 n' := by
    refine ⟨fun _ => docked', ?_, (by intros; contradiction)⟩
    rintro _ ⟨⟩
    exact blockedFails quiet.run (by rw [quiet.none, one]; exact Nat.one_pos) other why
  have single (c : ReadCall) (one : reach r c = 1) (other : ∀ maxBatch, c ≠ .tryReadBatch maxBatch) :
      Trial.Spec d faults r n (do return .message (← tryRead env fuel)) (Replied env R gen d faults fuel n r c) := by
    refine Trial.specSeq (tryReadRaw regions sized docked) ?_ ?_
    · rintro msg r1 n1 _ ⟨docked', post⟩
      cases msg with
      | none => exact Trial.specRet ⟨fun _ => docked', (by intros; contradiction), (by intros; contradiction)⟩
      | some msg =>
        obtain ⟨_, _, _, _, _, within⟩ := post
        refine Trial.specRet ⟨fun _ => docked', (by intros; contradiction), ?_⟩
        rintro _ (_ | ⟨_, mem⟩)
        · exact within
        · cases mem
    · rintro e r1 n1 _ ⟨docked', hops, quiet, why⟩
      exact looked c one other quiet docked' why
  cases c with
  | tryRead => exact single .tryRead rfl (by rintro _ ⟨⟩)
  | tryReadOwned => exact single .tryReadOwned rfl (by rintro _ ⟨⟩)
  | readOwnedInto max =>
    show Trial.Spec d faults r n (readOwnedLoop env fuel (max.elim u64Max UInt64.toNat) [] >>= _) _
    refine Trial.specSeq (ownedRaw regions sized docked _ _) ?_ ?_
    · rintro _ r1 n1 _ ⟨more, result, same, owned⟩
      cases same
      refine Trial.specRet ⟨fun _ => owned.docked, ?_, owned.within⟩
      intro e failed
      cases result with
      | ok _ => cases failed
      | error e' =>
        cases failed
        obtain ⟨less, why⟩ := owned.failed e rfl
        obtain ⟨hops, run, records⟩ := owned.path
        have length : more.length = (usersOf hops).length := by simpa [itemRecords] using congrArg List.length records
        exact blockedFails run (by rw [← length]; exact less) (by rintro _ ⟨⟩) why
    · rintro e r1 n1 _ ⟨_, _, bad, _⟩
      cases bad
  | tryReadBatch maxBatch =>
    refine Trial.specMono (askBatchRaw regions sized docked maxBatch) ?_
    rintro res r1 n1 _ post
    cases res with
    | error e =>
      obtain ⟨docked', _, hops, pl, run, few, why⟩ := post
      refine ⟨fun _ => docked', ?_, (by intros; contradiction)⟩
      rintro _ ⟨⟩
      rcases why with refused | short | ⟨rfl, _⟩ | ⟨thwarts, crossings, _⟩
      · exact .inl refused
      · exact .inr (.inl short)
      · exact .inr (.inr (.inl trivial))
      · unfold Thwarts at thwarts
        cases way : onward env R gen d pl <;> rw [way] at thwarts
        · rw [if_pos rfl] at thwarts
          exact .inr (.inr (.inl thwarts))
        · exact .inr (.inr (.inr ⟨thwarts, hops, pl, run, few, crossings, way⟩))
        · exact .inr (.inr (.inl thwarts))
        · exact thwarts.elim
        · exact thwarts.elim
        · exact thwarts.elim
        · exact thwarts.elim
        · exact .inr (.inr (.inl thwarts.2))
    | ok reply =>
      obtain ⟨msgs, rfl, within, post⟩ := post
      refine ⟨?_, (by intros; contradiction), within⟩
      intro inside
      cases msgs with
      | none => exact post.1
      | some msgs =>
        obtain ⟨hops, run, _, _, rested, docked'⟩ := post
        cases rested with
        | mapped map few why => exact docked' map
        | @overrun before i slot last full few =>
          subst last
          refine absurd ⟨before, i, slot, _, run, ?_, by rwa [Nat.zero_add] at few⟩ inside
          rw [← full, List.nil_append, usersAppend, List.length_append]
          rfl
  | peekHeader =>
    show Trial.Spec d faults r n (peekHeader env fuel >>= _) _
    refine Trial.specSeq (peekRaw regions sized docked) ?_ ?_
    · rintro header r1 n1 _ ⟨docked', _⟩
      exact Trial.specRet ⟨fun _ => docked', (by intros; contradiction), (by intros; contradiction)⟩
    · rintro e r1 n1 _ ⟨docked', hops, quiet, why⟩
      exact looked .peekHeader rfl (by rintro _ ⟨⟩) quiet docked' (why e rfl)
  | pollForUserMessage =>
    show Trial.Spec d faults r n (pollForUserMessage env fuel >>= _) _
    refine Trial.specSeq (pollRaw regions sized docked) ?_ ?_
    · rintro ready r1 n1 _ ⟨docked', _⟩
      exact Trial.specRet ⟨fun _ => docked', (by intros; contradiction), (by intros; contradiction)⟩
    · rintro e r1 n1 _ ⟨docked', hops, quiet, why⟩
      exact looked .pollForUserMessage rfl (by rintro _ ⟨⟩) quiet docked' (why e rfl)

end Calls
end Xchannel.ScanLaws
