import Xchannel.ScanSpecs

/-! The batch scan over any bytes: how far it goes, and what it leaves when it fails. -/
namespace Xchannel.SweepSpecs
open ByteMemory Format Storage ChannelLog RecordChain Observation SegmentWalk WriterSpecs ReaderOpen ReaderCalls ReadPath
  ReadSpecs BatchSpecs PartialRun ChainScan ScanSpecs

/-- A batch scan of reader `r₀` has come to a place and taken some records. -/
structure Gathering (R gen : Nat) (r₀ r : Reader) (sc : Scan) (pl : Place) (taken : List (Nat × Nat)) : Prop where
  frozen : Frozen r₀ r
  first : r.maps.take 1 = r₀.maps
  region : r.regionSize = R
  generation : r.generation = gen
  header : (settle sc r).header = (settle sc r).ino
  here : place (settle sc r) = pl
  collected : List.Forall₂ (Resolves R r.maps r.batchSegs) r.batchPos taken
  idle : sc.progressed = false → settle sc r = r ∧ taken = []

/-- The scan stands in the last segment of the batch. -/
structure Sweeping (R gen : Nat) (r₀ r : Reader) (sc : Scan) (pl : Place) (taken : List (Nat × Nat)) (entered : Nat) : Prop
    extends Gathering R gen r₀ r sc pl taken where
  start : sc.regionStart = pl.pos / R * R
  off : sc.cursorOff = pl.pos % R
  current : sc.segIdx = entered
  map : r.maps.getLast? = some ⟨pl.sequence, pl.pos / R, pl.ino⟩
  last : r.batchSegs.getLast? = some ⟨r.maps.length - 1⟩
  counted : r.batchSegs.length = entered + 1
  few : entered ≤ 65535

/-- How a scan comes to stand in a segment of its batch. -/
def Entered (R gen : Nat) (r₀ : Reader) (faults : Nat → Option IoError) (pl : Place) (taken : List (Nat × Nat))
    (entered n : Nat) : Except IoError Scan → Reader → Nat → Prop
  | .ok sc, r, _ => Sweeping R gen r₀ r sc pl taken entered
  | .error e, r, n' => Frozen r₀ r ∧ r.maps.take 1 = r₀.maps ∧
      (Trial.Refused faults n n' e ∨ (e = tooMany ∧ 65535 < entered))

/-- Why a scan stops with what it has: it has enough, or it comes to an open slot or to a `Roll` it
cannot follow. A record that ends its region may be the last it takes, and then it stands where nothing is
mapped. -/
inductive Rested (env : Env) (R gen : Nat) (d : Disk) (faults : Nat → Option IoError) (max : Nat)
    (maps : List MappedRegion) (taken : List (Nat × Nat)) (entered n n' : Nat) (hops : List Hop) (pl : Place) : Prop where
  | mapped (map : maps.getLast? = some ⟨pl.sequence, pl.pos / R, pl.ino⟩) (few : entered + crossed hops ≤ 65535)
      (why : (taken ++ usersOf hops).length = max ∨ onward env R gen d pl = .free ∨ (taken ++ usersOf hops ≠ [] ∧
        ((∃ e, onward env R gen d pl = .barred e) ∨ ∃ e, Trial.Refused faults n n' e)))
  | overrun {before : List Hop} {i slot : Nat} (last : hops = before ++ [.user i slot true])
      (full : (taken ++ usersOf hops).length = max) (few : entered + crossed before ≤ 65535)

/-- How the batch scan ends: with the records up to some place, or in an error that keeps the reader it
started from. -/
def Swept (env : Env) (R gen : Nat) (d : Disk) (faults : Nat → Option IoError) (max : Nat) (r₀ : Reader) (pl : Place)
    (taken : List (Nat × Nat)) (entered fuel n : Nat) : Except IoError Scan → Reader → Nat → Prop
  | .ok sc, r, n' => ∃ hops pl', Run (hop env R gen d) pl hops pl' ∧
      Gathering R gen r₀ r sc pl' (taken ++ usersOf hops) ∧ (taken ++ usersOf hops).length ≤ max ∧
      Rested env R gen d faults max r.maps taken entered n n' hops pl'
  | .error e, r, n' => Frozen r₀ r ∧ r.maps.take 1 = r₀.maps ∧ ∃ hops pl', Run (hop env R gen d) pl hops pl' ∧
      (taken ++ usersOf hops).length < max ∧
      (Trial.Refused faults n n' e ∨ (e = endless ∧ fuel ≤ hops.length) ∨
        (e = tooMany ∧ 65535 < entered + crossed hops) ∨
        (Thwarts env R gen d true pl' e ∧ entered + crossed hops ≤ 65535 ∧
          ((∃ e', onward env R gen d pl' = .barred e') → taken ++ usersOf hops = [])))

section Rounds
variable {env : Env} {R gen : Nat} {d : Disk} {r₀ r : Reader} {sc : Scan} {pl next : Place} {taken : List (Nat × Nat)}
  {entered max : Nat} {faults : Nat → Option IoError} {n : Nat}

theorem Gathering.docked (gathering : Gathering R gen r₀ r sc pl taken)
    (map : r.maps.getLast? = some ⟨pl.sequence, pl.pos / R, pl.ino⟩) : Docked R gen (settle sc r) := by
  have here := gathering.here
  refine ⟨gathering.region, gathering.generation, gathering.header, ?_⟩
  rw [← here] at map
  exact map

/- One more region mapped. -/
theorem Gathering.mapped (gathering : Gathering R gen r₀ r sc pl taken) (one : r₀.maps.length = 1) (map : MappedRegion) :
    Gathering R gen r₀ { r with maps := r.maps ++ [map] } sc pl taken where
  frozen := frozenMore gathering.frozen _ _ _
  first := by
    obtain ⟨first, same⟩ := List.length_eq_one_iff.mp one
    have := gathering.first
    rw [same] at this ⊢
    exact takeOneAppend this
  region := gathering.region
  generation := gathering.generation
  header := gathering.header
  here := gathering.here
  collected := by
    have := collectedMore gathering.collected [map] []
    rwa [List.append_nil] at this
  idle := fun no => by
    obtain ⟨same, none⟩ := gathering.idle no
    refine ⟨?_, none⟩
    have : settle sc { r with maps := r.maps ++ [map] } = { settle sc r with maps := r.maps ++ [map] } := rfl
    exact this.trans (by rw [same])

/- The end of `enterSegment`, in a region that is mapped. -/
theorem Gathering.push (d : Disk) (faults : Nat → Option IoError) (n : Nat) (gathering : Gathering R gen r₀ r sc pl taken)
    (map : r.maps.getLast? = some ⟨pl.sequence, pl.pos / R, pl.ino⟩) (counted : r.batchSegs.length = entered) :
    Trial.Spec d faults r n (do
      let r ← Observe.self
      refuseIf (65535 < r.batchSegs.length) (errOther "too many batch segments")
      Observe.become { r with batchSegs := r.batchSegs ++ [⟨r.maps.length - 1⟩] }
      return { sc with
        regionStart := pl.pos / R * R, cursorOff := pl.pos - pl.pos / R * R, segIdx := r.batchSegs.length })
      (Entered R gen r₀ faults pl taken entered n) := by
  apply Trial.specSelf
  by_cases many : 65535 < r.batchSegs.length
  · rw [refuseIf, if_pos many]
    exact ⟨Nat.le_refl _, gathering.frozen, gathering.first, .inr ⟨rfl, by omega⟩⟩
  · refine Trial.specRefuse many (Trial.specBecome ⟨Nat.le_refl _, ?_⟩)
    have collected := collectedMore gathering.collected [] [⟨r.maps.length - 1⟩]
    rw [List.append_nil] at collected
    exact
      { frozen := frozenMore gathering.frozen _ _ _
        first := gathering.first
        region := gathering.region
        generation := gathering.generation
        header := gathering.header
        here := gathering.here
        collected := collected
        idle := fun no => by
          obtain ⟨same, none⟩ := gathering.idle no
          refine ⟨?_, none⟩
          have : settle sc { r with batchSegs := r.batchSegs ++ [⟨r.maps.length - 1⟩] } =
              { settle sc r with batchSegs := r.batchSegs ++ [⟨r.maps.length - 1⟩] } := rfl
          exact this.trans (by rw [same]; rfl)
        start := rfl
        off := by
          have := slotSplit R pl.pos
          show pl.pos - pl.pos / R * R = pl.pos % R
          omega
        current := counted
        map := map
        last := by simp
        counted := by simp [counted]
        few := by omega }

/- A new segment of the batch, in the region mapped last or in one after it. -/
theorem Gathering.enter (regions : Regions env R) (one : r₀.maps.length = 1)
    (gathering : Gathering R gen r₀ r sc pl taken) (counted : r.batchSegs.length = entered) {k : Nat}
    (map : r.maps.getLast? = some ⟨pl.sequence, k, pl.ino⟩) (near : k = pl.pos / R ∨ k < pl.pos / R) :
    Trial.Spec d faults r n (enterSegment env sc) (Entered R gen r₀ faults pl taken entered n) := by
  obtain rfl := gathering.region
  obtain rfl := gathering.here
  unfold enterSegment
  apply Trial.specSelf
  rcases near with same | before
  · subst same
    exact Trial.specRun (ensureSame map rfl rfl) (gathering.push d faults n map counted)
  · refine Trial.specSeq (ensureNext regions map before) ?_ ?_
    · rintro _ r1 n1 later (⟨_, rfl⟩ | ⟨e, bad, _⟩)
      · have mapped := gathering.mapped one ⟨(settle sc r).fileSequence, sc.cursor / r.regionSize, (settle sc r).ino⟩
        refine Trial.specMono (mapped.push d faults n1 List.getLast?_concat counted) ?_
        intro res r2 n2 _ post
        match res, post with
        | .ok _, sweeping => exact sweeping
        | .error e, ⟨frozen, first, why⟩ =>
          exact ⟨frozen, first, why.imp_left fun refused => refused.widen later (Nat.le_refl _)⟩
      · cases bad
    · rintro e r1 n1 _ (⟨bad, _⟩ | ⟨e', error, rfl, refused⟩)
      · cases bad
      · cases error
        exact ⟨gathering.frozen, gathering.first, .inl refused⟩

/- The cursor of the scan moved over a record. -/
theorem Gathering.moved (gathering : Gathering R gen r₀ r sc pl taken) {positions : List MsgPos}
    {more : List (Nat × Nat)} (collected : List.Forall₂ (Resolves R r.maps r.batchSegs) positions more)
    (q position off : Nat) :
    Gathering R gen r₀ { r with batchPos := positions }
      { sc with position := position, progressed := true, cursor := q, cursorOff := off } { pl with pos := q } more where
  frozen := frozenMore gathering.frozen _ _ _
  first := gathering.first
  region := gathering.region
  generation := gathering.generation
  header := gathering.header
  here := by
    obtain rfl := gathering.here
    rfl
  collected := collected
  idle := (by simp)

theorem Sweeping.took (sweeping : Sweeping R gen r₀ r sc pl taken entered) (small : R < 2 ^ 32) (positive : 0 < R) :
    List.Forall₂ (Resolves R r.maps r.batchSegs) (r.batchPos ++ [⟨UInt16.ofNat sc.segIdx, UInt32.ofNat sc.cursorOff⟩])
      (taken ++ [(pl.ino, pl.pos)]) := by
  refine List.rel_append sweeping.collected (.cons ⟨⟨r.maps.length - 1⟩, pl.sequence, ?_, ?_, ?_⟩ .nil)
  · have few := sweeping.few
    have index : (UInt16.ofNat sc.segIdx).toNat = r.batchSegs.length - 1 := by
      rw [sweeping.counted, sweeping.current, UInt16.toNat_ofNat', Nat.mod_eq_of_lt (by omega)]
      omega
    rw [index, ← List.getLast?_eq_getElem?]
    exact sweeping.last
  · exact lastMap sweeping.map
  · have below := Nat.mod_lt pl.pos positive
    rw [sweeping.off, UInt32.toNat_ofNat']
    exact Nat.mod_eq_of_lt (by omega)

/- Still in the region after a record. -/
theorem Sweeping.inner (sweeping : Sweeping R gen r₀ r sc pl taken entered) {positions : List MsgPos}
    {more : List (Nat × Nat)} (collected : List.Forall₂ (Resolves R r.maps r.batchSegs) positions more)
    {q : Nat} (position : Nat) (same : q / R = pl.pos / R) :
    Sweeping R gen r₀ { r with batchPos := positions }
      { sc with position := position, progressed := true, cursor := q, cursorOff := q % R } { pl with pos := q } more
      entered where
  toGathering := sweeping.toGathering.moved collected q position (q % R)
  start := by
    show sc.regionStart = q / R * R
    rw [same]
    exact sweeping.start
  off := rfl
  current := sweeping.current
  map := by
    show r.maps.getLast? = some ⟨pl.sequence, q / R, pl.ino⟩
    rw [same]
    exact sweeping.map
  last := sweeping.last
  counted := sweeping.counted
  few := sweeping.few

/- The round at a place that stops every scan. -/
theorem sweepStuck (faults : Nat → Option IoError) (n max : Nat) (sweeping : Sweeping R gen r₀ r sc pl taken entered)
    (stuck : onward env R gen d pl = .hole ∨ onward env R gen d pl = .unmapped ∨ onward env R gen d pl = .damaged) :
    ∃ e, (scanRecord env max sc : Trial Disk Reader IoError ScanStep) d faults r n = (.error e, r, n) ∧
      Thwarts env R gen d true pl e := by
  have view := sees env R gen d pl
  have region := sweeping.region
  have map := sweeping.map
  unfold scanRecord Thwarts
  rw [Trial.selfRun, sweeping.off, region]
  generalize onward env R gen d pl = way at view stuck
  cases view with
  | hole crosses =>
    refine ⟨errInvalidData "batch scan landed in an invalid header slot", ?_, ?_⟩
    · rw [refuseIf, if_pos crosses]
      rfl
    · show if true = true then Plain _ else _
      rw [if_pos rfl]
      trivial
  | unmapped room off =>
    refine ⟨faulted, ?_, rfl⟩
    rw [Trial.refuseRun _ _ _ _ (Nat.not_lt.mpr room)]
    show Trial.andThen _ _ d faults r n = _
    unfold Trial.andThen
    rw [sightFaults region map off]
  | unreadable room mapped header =>
    refine ⟨_, ?_, sightPlain header⟩
    rw [Trial.refuseRun _ _ _ _ (Nat.not_lt.mpr room)]
    show Trial.andThen _ _ d faults r n = _
    unfold Trial.andThen
    rw [sightRun region map mapped, header]
  | crossing room mapped header committed crosses =>
    refine ⟨errInvalidData "message payload extends past region boundary", ?_, trivial⟩
    rw [Trial.refuseRun _ _ _ _ (Nat.not_lt.mpr room), Trial.bindOkRun ((sightRun region map mapped).trans (by rw [header])),
      if_neg (not_not.mpr committed), refuseIf, if_pos crosses]
    rfl
  | free => rcases stuck with bad | bad | bad <;> cases bad
  | record readable leads => cases leads <;> rcases stuck with bad | bad | bad <;> cases bad

theorem sweepFree (sweeping : Sweeping R gen r₀ r sc pl taken entered) (free : onward env R gen d pl = .free) :
    (scanRecord env max sc : Trial Disk Reader IoError ScanStep) d faults r n = (.ok (.stop sc), r, n) := by
  have view := sees env R gen d pl
  rw [free] at view
  cases view with
  | record readable leads => cases leads
  | free room mapped header uncommitted =>
    have region := sweeping.region
    unfold scanRecord
    rw [Trial.selfRun, sweeping.off, region, Trial.refuseRun _ _ _ _ (Nat.not_lt.mpr room),
      Trial.bindOkRun ((sightRun region sweeping.map mapped).trans (by rw [header])), if_pos uncommitted]
    rfl

/- Where the scan goes on after a record that ends at `q`. -/
def goesOn (R : Nat) (sc : Scan) (q : Nat) : ScanStep :=
  if q % R = 0 then .outer { sc with progressed := true, cursor := q }
  else .inner { sc with progressed := true, cursor := q, cursorOff := q % R }

theorem sweepUser (regions : Regions env R) (sized : Sized d) (sweeping : Sweeping R gen r₀ r sc pl taken entered)
    (way : onward env R gen d pl = .user next) :
    (scanRecord env max sc : Trial Disk Reader IoError ScanStep) d faults r n =
      (.ok (if max ≤ r.batchPos.length + 1 then
          .stop { sc with position := (sc.position + 1) % usize, progressed := true, cursor := next.pos }
        else goesOn R { sc with position := (sc.position + 1) % usize } next.pos),
        { r with batchPos := r.batchPos ++ [⟨UInt16.ofNat sc.segIdx, UInt32.ofNat sc.cursorOff⟩] }, n) := by
  have view := sees env R gen d pl
  rw [way] at view
  cases view with
  | record readable leads =>
  cases leads with
  | user kind =>
  have large := regions.large
  have region := sweeping.region
  have spans := readable.spans regions sized
  unfold scanRecord goesOn
  rw [Trial.selfRun, sweeping.off, region, Trial.refuseRun _ _ _ _ (Nat.not_lt.mpr readable.room),
    Trial.bindOkRun ((sightRun region sweeping.map readable.mapped).trans (by rw [readable.header])),
    if_neg (not_not.mpr readable.committed), Trial.refuseRun _ _ _ _ (Nat.not_lt.mpr readable.fits), kind]
  dsimp only
  rw [sweeping.start, slotSplit, Trial.becomeRun]
  rcases spans.offset (by omega) with ⟨zero, whole⟩ | ⟨inside, off, less⟩
  · rw [whole, if_pos rfl, if_pos zero]
    split <;> rfl
  · rw [if_neg less, if_neg inside, off]
    split <;> rfl

theorem sweepService (regions : Regions env R) (sized : Sized d) (sweeping : Sweeping R gen r₀ r sc pl taken entered)
    (way : onward env R gen d pl = .service next) :
    (scanRecord env max sc : Trial Disk Reader IoError ScanStep) d faults r n = (.ok (goesOn R sc next.pos), r, n) := by
  have view := sees env R gen d pl
  rw [way] at view
  cases view with
  | record readable leads =>
  cases leads with
  | service kind =>
  have large := regions.large
  have region := sweeping.region
  have spans := readable.spans regions sized
  unfold scanRecord goesOn
  rw [Trial.selfRun, sweeping.off, region, Trial.refuseRun _ _ _ _ (Nat.not_lt.mpr readable.room),
    Trial.bindOkRun ((sightRun region sweeping.map readable.mapped).trans (by rw [readable.header])),
    if_neg (not_not.mpr readable.committed), Trial.refuseRun _ _ _ _ (Nat.not_lt.mpr readable.fits)]
  dsimp only
  rw [sweeping.start, slotSplit]
  rcases kind with kind | kind
  all_goals
    rw [kind]
    dsimp only
    rcases spans.offset (by omega) with ⟨zero, whole⟩ | ⟨inside, off, less⟩
    · rw [whole, if_pos rfl, if_pos zero]
      rfl
    · rw [if_neg less, if_neg inside, off]
      rfl

/- The round at a `Roll`: into the successor, or what was taken before it. -/
theorem sweepRoll (sweeping : Sweeping R gen r₀ r sc pl taken entered) {hdr : ScannedHeader}
    (readable : Readable env R d pl hdr) (kind : hdr.headerType = .roll) :
    Trial.Spec d faults r n (scanRecord env max sc) fun res r' n' =>
      (∃ found, follow env R gen d pl hdr.payloadLen = .ok found ∧
        res = .ok (.outer { sc with
          sequence := found.sequence, rolled := some found, cursor := 0, position := found.baseRecordIndex,
          progressed := true }) ∧
        r' = { r with maps := r.maps ++ [⟨found.sequence, 0, found.ino⟩] }) ∨
      ∃ e, (Trial.Refused faults n n' e ∨ follow env R gen d pl hdr.payloadLen = .error e) ∧ r' = r ∧
        (res = .ok (.stop sc) ∧ taken ≠ [] ∨ res = .error e ∧ taken = []) := by
  obtain ⟨length, total, _⟩ := sightFields readable.header readable.committed
  have region := sweeping.region
  have cursor : sc.cursor = pl.pos := congrArg Place.pos sweeping.here
  have fits := readable.fits
  have lead : Trial.Spec d faults r n (followRoll env sc hdr.payloadLen) fun res r' n' => r' = r ∧
      (res = follow env R gen d pl hdr.payloadLen ∨ ∃ e, res = .error e ∧ Trial.Refused faults n n' e) := by
    have spec : Trial.Spec d faults r n (rollEdge (r.maps.length - 1) (pl.pos % R) hdr.payloadLen >>=
        openSuccessor env R gen pl.ino pl.sequence pl.fileInstance) _ :=
      leadSpec region sweeping.map (show pl.pos % R + (16 + hdr.payloadLen) ≤ R by rw [length]; omega)
    have header := sweeping.header
    obtain rfl := sweeping.generation
    have off := sweeping.off
    obtain rfl := sweeping.here
    unfold followRoll
    apply Trial.specSelf
    rw [off, region]
    show Trial.Spec d faults r n (rollEdge _ _ _ >>= fun edge => openSuccessor env R r.generation (settle sc r).header
      (settle sc r).fileSequence (settle sc r).fileInstance edge) _
    rw [header]
    exact spec
  have off := sweeping.off
  unfold scanRecord
  apply Trial.specSelf
  refine Trial.specRefuse (by rw [off, region]; exact Nat.not_lt.mpr readable.room) ?_
  refine Trial.specRun (by rw [off]; exact (sightRun region sweeping.map readable.mapped).trans (by rw [readable.header])) ?_
  rw [if_neg (not_not.mpr readable.committed)]
  refine Trial.specRefuse (by rw [off, region]; exact Nat.not_lt.mpr fits) ?_
  rw [kind]
  dsimp only
  refine Trial.specAttempt lead ?_
  rintro res r1 n1 later ⟨rfl, result⟩
  obtain ⟨found, leads, rfl⟩ | ⟨e, why, rfl⟩ : (∃ found, follow env R gen d pl hdr.payloadLen = .ok found ∧ res = .ok found) ∨
      ∃ e, (Trial.Refused faults n n1 e ∨ follow env R gen d pl hdr.payloadLen = .error e) ∧ res = .error e := by
    rcases result with same | ⟨e, error, refused⟩
    · cases leads : follow env R gen d pl hdr.payloadLen with
      | ok found => exact .inl ⟨found, rfl, same.trans leads⟩
      | error e => exact .inr ⟨e, .inr rfl, same.trans leads⟩
    · exact .inr ⟨e, .inl refused, error⟩
  · exact Trial.specSelf (Trial.specBecome ⟨Nat.le_refl _, .inl ⟨found, leads, rfl, rfl⟩⟩)
  · apply Trial.specSelf
    have here : sc.regionStart + sc.cursorOff = sc.cursor := by rw [sweeping.start, off, slotSplit, cursor]
    have same : r1.batchPos = [] ↔ taken = [] := by
      have := sweeping.collected.length_eq
      rw [← List.length_eq_zero_iff, ← List.length_eq_zero_iff, this]
    by_cases empty : r1.batchPos = []
    · rw [if_neg (not_not.mpr empty)]
      exact Trial.specFail (.inr ⟨e, why, rfl, .inr ⟨rfl, same.mp empty⟩⟩)
    · rw [if_pos empty]
      exact Trial.specRet (.inr ⟨e, why, rfl, .inl ⟨by rw [here], fun none => empty (same.mpr none)⟩⟩)

theorem Rested.later {maps : List MappedRegion} {hops : List Hop} {n₁ n₂ : Nat}
    (rested : Rested env R gen d faults max maps taken entered n₁ n₂ hops pl) (later : n ≤ n₁) :
    Rested env R gen d faults max maps taken entered n n₂ hops pl := by
  cases rested with
  | mapped map few why =>
    refine .mapped map few ?_
    rcases why with full | free | ⟨more, barred | ⟨e, refused⟩⟩
    · exact .inl full
    · exact .inr (.inl free)
    · exact .inr (.inr ⟨more, .inl barred⟩)
    · exact .inr (.inr ⟨more, .inr ⟨e, refused.widen later (Nat.le_refl _)⟩⟩)
  | overrun last full few => exact .overrun last full few

/- A scan that has taken nothing rests at an open slot. -/
theorem Rested.free {maps : List MappedRegion} {hops : List Hop} {n' : Nat}
    (rested : Rested env R gen d faults max maps taken entered n n' hops pl) (positive : 0 < max)
    (none : taken ++ usersOf hops = []) : maps.getLast? = some ⟨pl.sequence, pl.pos / R, pl.ino⟩ ∧
      onward env R gen d pl = .free ∧ entered + crossed hops ≤ 65535 := by
  cases rested with
  | overrun last full few =>
    rw [none] at full
    exact absurd full (Nat.ne_of_lt positive)
  | mapped map few why =>
    rw [none] at why
    rcases why with full | free | ⟨some, _⟩
    · exact absurd full (Nat.ne_of_lt positive)
    · exact ⟨map, free, few⟩
    · exact absurd rfl some

theorem Swept.later {fuel n₁ n₂ : Nat} {res : Except IoError Scan}
    (swept : Swept env R gen d faults max r₀ pl taken entered fuel n₁ res r n₂) (later : n ≤ n₁) :
    Swept env R gen d faults max r₀ pl taken entered fuel n res r n₂ := by
  match res, swept with
  | .ok sc, ⟨hops, pl', run, gathering, fewer, rested⟩ =>
    exact ⟨hops, pl', run, gathering, fewer, rested.later later⟩
  | .error e, ⟨frozen, first, hops, pl', run, fewer, why⟩ =>
    exact ⟨frozen, first, hops, pl', run, fewer, why.imp_left fun refused => refused.widen later (Nat.le_refl _)⟩

/- One more step before. -/
theorem Swept.cons {h : Hop} {fuel n₂ : Nat} {res : Except IoError Scan}
    (swept : Swept env R gen d faults max r₀ next (taken ++ h.item?.toList) (entered + if h.crosses then 1 else 0) fuel n
      res r n₂)
    (step : hop env R gen d pl = some (h, next)) :
    Swept env R gen d faults max r₀ pl taken entered (fuel + 1) n res r n₂ := by
  have users (hops : List Hop) : taken ++ h.item?.toList ++ usersOf hops = taken ++ usersOf (h :: hops) := by
    rw [usersOfCons, List.append_assoc]
  have ends (hops : List Hop) : (entered + if h.crosses then 1 else 0) + crossed hops = entered + crossed (h :: hops) := by
    rw [crossedCons, Nat.add_assoc]
  match res, swept with
  | .ok sc, ⟨hops, pl', run, gathering, fewer, rested⟩ =>
    rw [users] at gathering fewer
    refine ⟨h :: hops, pl', .next step run, gathering, fewer, ?_⟩
    cases rested with
    | mapped map few why =>
      rw [ends] at few
      rw [users] at why
      exact .mapped map few why
    | overrun last full few =>
      rw [ends] at few
      rw [users] at full
      exact .overrun (by rw [last]; rfl) full few
  | .error e, ⟨frozen, first, hops, pl', run, fewer, why⟩ =>
    rw [users] at fewer why
    rw [ends] at why
    refine ⟨frozen, first, h :: hops, pl', .next step run, fewer, ?_⟩
    rcases why with refused | ⟨same, short⟩ | many | thwarts
    · exact .inl refused
    · exact .inr (.inl ⟨same, by rw [List.length_cons]; omega⟩)
    · exact .inr (.inr (.inl many))
    · exact .inr (.inr (.inr thwarts))

/- The scan goes on, in the same region or in the next. -/
theorem sweepOn (max : Nat) (regions : Regions env R) (one : r₀.maps.length = 1) (sweeping : Sweeping R gen r₀ r sc pl taken entered)
    {positions : List MsgPos} {more : List (Nat × Nat)} (collected : List.Forall₂ (Resolves R r.maps r.batchSegs) positions more)
    {q fuel : Nat} (position : Nat) (spans : Spans R pl.pos q) (room : more.length < max)
    (next : ∀ r' n' sc' entered', Sweeping R gen r₀ r' sc' { pl with pos := q } more entered' →
      Trial.Spec d faults r' n' (batchLoop env max fuel sc')
        (Swept env R gen d faults max r₀ { pl with pos := q } more entered' fuel n')) :
    Trial.Spec d faults { r with batchPos := positions } n
      (match goesOn R { sc with position := position } q with
      | .stop s => return s
      | .inner s => batchLoop env max fuel s
      | .outer s => do batchLoop env max fuel (← enterSegment env s))
      (Swept env R gen d faults max r₀ { pl with pos := q } more (entered + if q % R = 0 then 1 else 0) fuel n) := by
  unfold goesOn
  rcases spans.region with ⟨zero, region⟩ | ⟨inside, region⟩
  · rw [if_pos zero, if_pos zero]
    dsimp only
    refine Trial.specSeq (Gathering.enter regions one (sweeping.toGathering.moved collected q position sc.cursorOff)
      sweeping.counted sweeping.map (.inr (show pl.pos / R < q / R by omega))) ?_ ?_
    · intro sc' r1 n1 later sweeping'
      refine Trial.specMono (next r1 n1 sc' (entered + 1) sweeping') fun res r2 n2 _ swept => ?_
      exact swept.later later
    · rintro e r1 n1 _ ⟨frozen, first, why⟩
      refine ⟨frozen, first, [], _, .here _, ?_, ?_⟩
      · rwa [usersOf, List.filterMap_nil, List.append_nil]
      · rcases why with refused | many
        · exact .inl refused
        · exact .inr (.inr (.inl many))
  · rw [if_neg inside, if_neg inside]
    exact next _ n _ _ (sweeping.inner collected position region)

/- The round at a User record: the batch is full, or the scan goes on. -/
theorem userRound (regions : Regions env R) (sized : Sized d) (one : r₀.maps.length = 1) {fuel : Nat}
    (sweeping : Sweeping R gen r₀ r sc pl taken entered) (room : taken.length < max)
    (way : onward env R gen d pl = .user next)
    (rest : ∀ r' n' sc' entered', Sweeping R gen r₀ r' sc' next (taken ++ [(pl.ino, pl.pos)]) entered' →
      (taken ++ [(pl.ino, pl.pos)]).length < max → Trial.Spec d faults r' n' (batchLoop env max fuel sc')
        (Swept env R gen d faults max r₀ next (taken ++ [(pl.ino, pl.pos)]) entered' fuel n')) :
    Trial.Spec d faults r n (batchLoop env max (fuel + 1) sc)
      (Swept env R gen d faults max r₀ pl taken entered (fuel + 1) n) := by
  have large := regions.large
  obtain ⟨same, spans⟩ := afterRecord regions sized (.inl way)
  have collected := sweeping.took regions.small (by omega)
  have step := hopOver way
  have length := sweeping.collected.length_eq
  have one' : (taken ++ [(pl.ino, pl.pos)]).length = taken.length + 1 := List.length_append
  unfold batchLoop
  refine Trial.specRun (sweepUser regions sized sweeping way) ?_
  by_cases full : max ≤ r.batchPos.length + 1
  · rw [if_pos full]
    have all : (taken ++ [(pl.ino, pl.pos)]).length = max := by omega
    have moved := sweeping.toGathering.moved collected next.pos ((sc.position + 1) % usize) sc.cursorOff
    rw [← same] at moved
    refine Trial.specRet ⟨[.user pl.ino pl.pos (next.pos % R = 0)], next, .next step (.here next), moved,
      Nat.le_of_eq all, ?_⟩
    rcases spans.region with ⟨zero, _⟩ | ⟨inside, region⟩
    · exact .overrun (show _ = [] ++ [_] by rw [decide_eq_true zero]; rfl) all sweeping.few
    · refine .mapped ?_ ?_ (.inl all)
      · rw [region, same]
        exact sweeping.map
      · rw [decide_eq_false inside]
        exact sweeping.few
  · rw [if_neg full]
    have room' : (taken ++ [(pl.ino, pl.pos)]).length < max := by omega
    refine Trial.specMono (sweepOn max regions one sweeping collected _ spans room' ?_) fun _ _ _ _ swept => ?_
    · intro r' n' sc' entered' there
      rw [← same] at there ⊢
      exact rest r' n' sc' entered' there room'
    · rw [← same] at swept
      refine Swept.cons (h := .user pl.ino pl.pos (next.pos % R = 0)) ?_ step
      simpa only [Hop.item?, Option.toList_some, Hop.crosses, decide_eq_true_eq] using swept

theorem serviceRound (regions : Regions env R) (sized : Sized d) (one : r₀.maps.length = 1) {fuel : Nat}
    (sweeping : Sweeping R gen r₀ r sc pl taken entered) (room : taken.length < max)
    (way : onward env R gen d pl = .service next)
    (rest : ∀ r' n' sc' entered', Sweeping R gen r₀ r' sc' next taken entered' →
      Trial.Spec d faults r' n' (batchLoop env max fuel sc')
        (Swept env R gen d faults max r₀ next taken entered' fuel n')) :
    Trial.Spec d faults r n (batchLoop env max (fuel + 1) sc)
      (Swept env R gen d faults max r₀ pl taken entered (fuel + 1) n) := by
  obtain ⟨same, spans⟩ := afterRecord regions sized (.inr way)
  have step := hopService way
  unfold batchLoop
  refine Trial.specRun (sweepService regions sized sweeping way) ?_
  refine Trial.specMono (sweepOn max regions one sweeping sweeping.collected sc.position spans room ?_)
    fun _ _ _ _ swept => ?_
  · intro r' n' sc' entered' there
    rw [← same] at there ⊢
    exact rest r' n' sc' entered' there
  · rw [← same] at swept
    refine Swept.cons (h := .service (next.pos % R = 0)) ?_ step
    simpa only [Hop.item?, Option.toList_none, List.append_nil, Hop.crosses, decide_eq_true_eq] using swept

/- What was taken before a `Roll` that is not followed. -/
theorem Sweeping.halted (sweeping : Sweeping R gen r₀ r sc pl taken entered) (room : taken.length < max) (fuel : Nat) {n' : Nat}
    {e : IoError} {res : Except IoError ScanStep}
    (why : Trial.Refused faults n n' e ∨ (onward env R gen d pl = .barred e ∧ Plain e))
    (result : res = .ok (.stop sc) ∧ taken ≠ [] ∨ res = .error e ∧ taken = []) :
    (res = .ok (.stop sc) ∧ Swept env R gen d faults max r₀ pl taken entered (fuel + 1) n (.ok sc) r n') ∨
    (res = .error e ∧ Swept env R gen d faults max r₀ pl taken entered (fuel + 1) n (.error e) r n') := by
  have none : taken ++ usersOf [] = taken := List.append_nil taken
  rcases result with ⟨same, some⟩ | ⟨same, empty⟩
  · refine .inl ⟨same, [], pl, .here pl, ?_, ?_, .mapped sweeping.map sweeping.few (.inr (.inr ⟨?_, ?_⟩))⟩
    · rw [none]
      exact sweeping.toGathering
    · rw [none]
      exact Nat.le_of_lt room
    · rwa [none]
    · rcases why with refused | ⟨barred, _⟩
      · exact .inr ⟨e, refused⟩
      · exact .inl ⟨e, barred⟩
  · refine .inr ⟨same, sweeping.frozen, sweeping.first, [], pl, .here pl, by rwa [none], ?_⟩
    rcases why with refused | ⟨barred, plain⟩
    · exact .inl refused
    · refine .inr (.inr (.inr ⟨?_, sweeping.few, fun _ => by rwa [none]⟩))
      unfold Thwarts
      rw [barred]
      exact ⟨rfl, plain⟩

/- The round at a `Roll`, followed or not. -/
theorem rollRound (regions : Regions env R) (one : r₀.maps.length = 1) {fuel : Nat}
    (sweeping : Sweeping R gen r₀ r sc pl taken entered) (room : taken.length < max) {hdr : ScannedHeader}
    (readable : Readable env R d pl hdr) (kind : hdr.headerType = .roll)
    (rest : ∀ found r' n' sc' entered', onward env R gen d pl = .roll found →
      Sweeping R gen r₀ r' sc' found taken entered' → Trial.Spec d faults r' n' (batchLoop env max fuel sc')
        (Swept env R gen d faults max r₀ found taken entered' fuel n'))
    (way : (∃ found, follow env R gen d pl hdr.payloadLen = .ok found ∧
        onward env R gen d pl = .roll ⟨found.sequence, found.ino, found.fileInstance, 0⟩) ∨
      ∃ e, follow env R gen d pl hdr.payloadLen = .error e ∧ onward env R gen d pl = .barred e) :
    Trial.Spec d faults r n (batchLoop env max (fuel + 1) sc)
      (Swept env R gen d faults max r₀ pl taken entered (fuel + 1) n) := by
  have none : taken ++ usersOf [] = taken := List.append_nil taken
  have halt {e : IoError} {n' : Nat} {res : Except IoError ScanStep}
      (why : Trial.Refused faults n n' e ∨ follow env R gen d pl hdr.payloadLen = .error e)
      (result : res = .ok (.stop sc) ∧ taken ≠ [] ∨ res = .error e ∧ taken = []) :=
    sweeping.halted room fuel (why.imp_right fun leads => by
      rcases way with ⟨found, bad, _⟩ | ⟨e', same, barred⟩
      · cases bad.symm.trans leads
      · cases same.symm.trans leads
        exact ⟨barred, followPlain leads⟩) result
  unfold batchLoop
  refine Trial.specSeq (sweepRoll sweeping readable kind) ?_ ?_
  · rintro step r1 n1 later (⟨found, leads, same, rfl⟩ | ⟨e, why, rfl, result⟩)
    · cases same
      obtain ⟨found', same, way⟩ | ⟨e, bad, _⟩ := way
      · cases same.symm.trans leads
        have moved : Gathering R gen r₀ { r with maps := r.maps ++ [⟨found.sequence, 0, found.ino⟩] }
            { sc with
              sequence := found.sequence, rolled := some found, cursor := 0, position := found.baseRecordIndex,
              progressed := true } ⟨found.sequence, found.ino, found.fileInstance, 0⟩ taken :=
          { sweeping.toGathering.mapped one ⟨found.sequence, 0, found.ino⟩ with
            header := rfl
            here := rfl
            idle := (by simp) }
        have step := hopRoll way
        refine Trial.specSeq (moved.enter regions one sweeping.counted List.getLast?_concat
          (.inl (Nat.zero_div R).symm)) ?_ ?_
        · intro sc' r2 n2 more there
          refine Trial.specMono (rest _ r2 n2 sc' _ way there) fun _ _ _ _ swept => ?_
          refine Swept.cons (h := .roll) ?_ step
          simpa only [Hop.item?, Option.toList_none, List.append_nil, Hop.crosses, if_true] using
            swept.later (Nat.le_trans later more)
        · rintro e r2 n2 more ⟨frozen, first, why⟩
          have solo : taken ++ usersOf [.roll] = taken := List.append_nil taken
          refine ⟨frozen, first, [.roll], _, .next step (.here _), by rwa [solo], ?_⟩
          rcases why with refused | ⟨same, many⟩
          · exact .inl (refused.widen later (Nat.le_refl _))
          · exact .inr (.inr (.inl ⟨same, many⟩))
      · cases bad.symm.trans leads
    · rcases halt why result with ⟨same, swept⟩ | ⟨bad, _⟩
      · cases same
        exact Trial.specRet swept
      · cases bad
  · rintro e r1 n1 _ (⟨_, _, bad, _⟩ | ⟨e', why, rfl, result⟩)
    · cases bad
    · rcases halt why result with ⟨bad, _⟩ | ⟨same, swept⟩
      · cases bad
      · cases same
        exact swept

/- Each round takes one step of the path, whatever the bytes. -/
theorem sweepRaw (regions : Regions env R) (sized : Sized d) (one : r₀.maps.length = 1) {fuel : Nat}
    (sweeping : Sweeping R gen r₀ r sc pl taken entered) (room : taken.length < max) :
    Trial.Spec d faults r n (batchLoop env max fuel sc)
      (Swept env R gen d faults max r₀ pl taken entered fuel n) := by
  have none (taken : List (Nat × Nat)) : taken ++ usersOf [] = taken := List.append_nil taken
  induction fuel generalizing r n sc pl taken entered with
  | zero =>
    exact Trial.specFail ⟨sweeping.frozen, sweeping.first, [], pl, .here pl, by rwa [none],
      .inr (.inl ⟨rfl, Nat.le_refl _⟩)⟩
  | succ fuel ih =>
    have view := sees env R gen d pl
    have stuck (way : onward env R gen d pl = .hole ∨ onward env R gen d pl = .unmapped ∨
        onward env R gen d pl = .damaged) : Trial.Spec d faults r n (batchLoop env max (fuel + 1) sc)
          (Swept env R gen d faults max r₀ pl taken entered (fuel + 1) n) := by
      obtain ⟨e, run, thwarts⟩ := sweepStuck faults n max sweeping way
      unfold batchLoop
      refine specStop run ⟨sweeping.frozen, sweeping.first, [], pl, .here pl, by rwa [none],
        .inr (.inr (.inr ⟨thwarts, sweeping.few, ?_⟩))⟩
      rintro ⟨e', barred⟩
      rw [barred] at way
      rcases way with bad | bad | bad <;> cases bad
    cases way : onward env R gen d pl with
    | hole => exact stuck (.inl way)
    | unmapped => exact stuck (.inr (.inl way))
    | damaged => exact stuck (.inr (.inr way))
    | free =>
      unfold batchLoop
      refine Trial.specRun (sweepFree sweeping way) (Trial.specRet ⟨[], pl, .here pl, ?_, ?_,
        .mapped sweeping.map sweeping.few (.inr (.inl way))⟩)
      · rw [none]
        exact sweeping.toGathering
      · rw [none]
        exact Nat.le_of_lt room
    | user next => exact userRound regions sized one sweeping room way fun _ _ _ _ there room => ih there room
    | service next => exact serviceRound regions sized one sweeping room way fun _ _ _ _ there => ih there room
    | roll next =>
      rw [way] at view
      cases view with
      | record readable leads =>
      cases leads with
      | roll kind leads =>
        exact rollRound regions one sweeping room readable kind (fun _ _ _ _ _ _ there => ih there room)
          (.inl ⟨_, leads, way⟩)
    | barred e =>
      rw [way] at view
      cases view with
      | record readable leads =>
      cases leads with
      | barred kind leads =>
        exact rollRound regions one sweeping room readable kind (fun _ _ _ _ _ _ there => ih there room)
          (.inr ⟨_, leads, way⟩)

end Rounds
end Xchannel.SweepSpecs
