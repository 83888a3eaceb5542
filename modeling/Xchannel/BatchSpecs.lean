import Xchannel.ReadSpecs

/-! The batch scan: it moves nothing until it has succeeded, so its progress is that of the reader it
would leave, and an error leaves the reader it started from. -/
namespace Xchannel.BatchSpecs
open ByteMemory Format Storage RecordChain SegmentInvariant ChannelInvariant ChannelLog Observation SegmentWalk
  WalkSpecs WriterSpecs RecoverySpecs BuildSpecs ReaderOpen ReaderCalls ReadPath ReadSpecs

/- The reader as `commitScan` leaves it. -/
def settle (sc : Scan) (r : Reader) : Reader :=
  { r with
    readPosition := sc.cursor
    position := sc.position
    fileSequence := sc.sequence
    ino := sc.rolled.elim r.ino Successor.ino
    header := sc.rolled.elim r.header Successor.ino
    fileInstance := sc.rolled.elim r.fileInstance Successor.fileInstance
    wakeUntrusted := sc.rolled.elim r.wakeUntrusted fun _ => false
    wakeMiss := sc.rolled.elim r.wakeMiss fun _ => none
    baseRecordIndex := sc.rolled.elim r.baseRecordIndex Successor.baseRecordIndex }

theorem commitRun {sc : Scan} {r : Reader} {d : Disk} {faults : Nat → Option IoError} {n : Nat} :
    (commitScan sc : Trial Disk Reader IoError Unit) d faults r n = (.ok (), settle sc r, n) := by
  unfold commitScan settle
  rw [Trial.selfRun]
  cases sc.rolled <;> rfl

/- A position of the batch leads to the slot of a file. -/
def Resolves (R : Nat) (maps : List MappedRegion) (batch : List BatchSeg) (pos : MsgPos) (item : Nat × Nat) : Prop :=
  ∃ seg t, batch[pos.seg.toNat]? = some seg ∧ maps[seg.mapIdx]? = some ⟨t, item.2 / R, item.1⟩ ∧
    pos.off.toNat = item.2 % R

/- How many region and file boundaries lie before the `max`-th User record. -/
def crossings : Nat → List Mark → Nat
  | 0, _ => 0
  | _, [] => 0
  | max+1, .user _ _ :: rest => crossings max rest
  | max+1, .boundary :: rest => 1 + crossings (max + 1) rest
  | max+1, .channel :: rest => crossings (max + 1) rest

section Crossings
variable {max : Nat} (positive : 0 < max) (marks : List Mark)
include positive

theorem crossingsBoundary : crossings max (.boundary :: marks) = 1 + crossings max marks := by
  obtain ⟨max, rfl⟩ := Nat.exists_eq_add_one_of_ne_zero (Nat.ne_of_gt positive)
  rfl

theorem crossingsChannel : crossings max (.channel :: marks) = crossings max marks := by
  obtain ⟨max, rfl⟩ := Nat.exists_eq_add_one_of_ne_zero (Nat.ne_of_gt positive)
  rfl

theorem crossingsUser (i p : Nat) : crossings max (.user i p :: marks) = crossings (max - 1) marks := by
  obtain ⟨max, rfl⟩ := Nat.exists_eq_add_one_of_ne_zero (Nat.ne_of_gt positive)
  rfl

end Crossings

def tooMany : IoError := errOther "too many batch segments"

/- A scan changes nothing of its reader but the maps and the places of the batch. -/
def Frozen (r₀ r : Reader) : Prop := ∃ maps batch positions,
  r = { r₀ with maps := maps, batchSegs := batch, batchPos := positions }

/-- A batch scan of reader `r₀` has taken some records; where it would leave the reader. -/
structure Gathered (R : Nat) (d : Disk) (segs : List Seg) (r₀ r : Reader) (sc : Scan) (taken : List (Nat × Nat))
    (s : Nat) (g : Seg) (p : Nat) : Prop where
  frozen : Frozen r₀ r
  first : r.maps.take 1 = r₀.maps
  landed : Standing R d segs (settle sc r) s g p
  collected : List.Forall₂ (Resolves R r.maps r.batchSegs) r.batchPos taken
  index : sc.position = (r₀.position + taken.length) % usize
  idle : sc.progressed = false → settle sc r = r ∧ taken = []

/-- The scan stands in the last segment of the batch. -/
structure Scanning (R : Nat) (d : Disk) (segs : List Seg) (r₀ r : Reader) (sc : Scan) (taken : List (Nat × Nat))
    (crossed s : Nat) (g : Seg) (p : Nat) : Prop extends Gathered R d segs r₀ r sc taken s g p where
  start : sc.regionStart = p / R * R
  off : sc.cursorOff = p % R
  current : sc.segIdx = crossed
  last : r.batchSegs.getLast? = some ⟨r.maps.length - 1⟩
  counted : r.batchSegs.length = crossed + 1
  few : crossed ≤ 65535

section Lists
variable {R : Nat} {maps : List MappedRegion} {batch : List BatchSeg} {pos : MsgPos} {item : Nat × Nat}

theorem Resolves.more (h : Resolves R maps batch pos item) (maps' : List MappedRegion) (batch' : List BatchSeg) :
    Resolves R (maps ++ maps') (batch ++ batch') pos item := by
  obtain ⟨seg, t, at_seg, at_map, off⟩ := h
  refine ⟨seg, t, ?_, ?_, off⟩
  · rw [List.getElem?_append_left (List.getElem?_eq_some_iff.mp at_seg).1]
    exact at_seg
  · rw [List.getElem?_append_left (List.getElem?_eq_some_iff.mp at_map).1]
    exact at_map

theorem collectedMore {positions : List MsgPos} {taken : List (Nat × Nat)}
    (h : List.Forall₂ (Resolves R maps batch) positions taken) (maps' : List MappedRegion) (batch' : List BatchSeg) :
    List.Forall₂ (Resolves R (maps ++ maps') (batch ++ batch')) positions taken :=
  h.imp fun _ _ resolves => resolves.more maps' batch'

theorem frozenMore {r₀ r : Reader} (h : Frozen r₀ r) (maps : List MappedRegion) (batch : List BatchSeg)
    (positions : List MsgPos) :
    Frozen r₀ { r with maps := maps, batchSegs := batch, batchPos := positions } := by
  obtain ⟨_, _, _, rfl⟩ := h
  exact ⟨maps, batch, positions, rfl⟩

theorem takeOneAppend {maps more : List MappedRegion} {first : MappedRegion} (h : maps.take 1 = [first]) :
    (maps ++ more).take 1 = [first] := by
  cases maps with
  | nil => cases h
  | cons x xs => exact h

end Lists

section Scan
variable {env : Env} {R s p : Nat} {d : Disk} {segs : List Seg} {r₀ r : Reader} {g g' : Seg}
  {faults : Nat → Option IoError} {n max crossed : Nat} {marks : List Mark} {stop : Stop} {sc : Scan}
  {taken : List (Nat × Nat)}

/- The places of a batch are no part of where the reader stands. -/
theorem standingBatch (standing : Standing R d segs r s g p) (batch : List BatchSeg) (positions : List MsgPos) :
    Standing R d segs { r with batchSegs := batch, batchPos := positions } s g p := { standing with }

theorem Gathered.map (gathered : Gathered R d segs r₀ r sc taken s g p) :
    r.maps.getLast? = some ⟨s, p / R, g.ino⟩ := gathered.landed.map

theorem Gathered.region (gathered : Gathered R d segs r₀ r sc taken s g p) : r.regionSize = R :=
  gathered.landed.region

theorem Gathered.cursor (gathered : Gathered R d segs r₀ r sc taken s g p) : sc.cursor = p :=
  gathered.landed.slot

/- Past a record that is not taken, in a region that is mapped. -/
theorem Gathered.passed (gathered : Gathered R d segs r₀ r sc taken s g p) {k : HeaderType}
    (around : Around R d (settle sc r) g p k) (other : k ≠ .user) (more : List MappedRegion)
    (map : (r.maps ++ more).getLast? = some ⟨s, nextSlot (d.data g.ino) p / R, g.ino⟩) (off : Nat)
    (one : r₀.maps.length = 1) :
    Gathered R d segs r₀ { r with maps := r.maps ++ more }
      { sc with progressed := true, cursor := nextSlot (d.data g.ino) p, cursorOff := off } taken s g
      (nextSlot (d.data g.ino) p) where
  frozen := frozenMore gathered.frozen _ _ _
  first := by
    obtain ⟨first, same⟩ := List.length_eq_one_iff.mp one
    have := gathered.first
    rw [same] at this ⊢
    exact takeOneAppend this
  landed := Standing.moved gathered.landed around _ map (by
    rw [if_neg other, Nat.add_zero]
    exact (Standing.small gathered.landed).symm)
  collected := by
    have := collectedMore gathered.collected more []
    rwa [List.append_nil] at this
  index := gathered.index
  idle := by intros; contradiction

/- A User record taken. -/
theorem Scanning.took (scanning : Scanning R d segs r₀ r sc taken crossed s g p)
    (around : Around R d (settle sc r) g p .user) (small : R < 2 ^ 32) (off : Nat) :
    Gathered R d segs r₀
      { r with batchPos := r.batchPos ++ [⟨UInt16.ofNat sc.segIdx, UInt32.ofNat sc.cursorOff⟩] }
      { sc with position := (sc.position + 1) % usize, progressed := true, cursor := nextSlot (d.data g.ino) p,
                cursorOff := off } (taken ++ [(g.ino, p)]) s g (nextSlot (d.data g.ino) p) where
  frozen := frozenMore scanning.frozen _ _ _
  first := scanning.first
  landed := standingBatch (Standing.moved scanning.landed around r.maps
    (by rw [around.here.placed]; exact scanning.map) rfl) _ _
  collected := by
    refine List.rel_append scanning.collected (.cons ⟨⟨r.maps.length - 1⟩, s, ?_, ?_, ?_⟩ .nil)
    · have few := scanning.few
      have index : (UInt16.ofNat sc.segIdx).toNat = r.batchSegs.length - 1 := by
        rw [scanning.counted, scanning.current, UInt16.toNat_ofNat', Nat.mod_eq_of_lt (by omega)]
        omega
      rw [index, ← List.getLast?_eq_getElem?]
      exact scanning.last
    · exact lastMap scanning.map
    · have fits := around.here.fits
      rw [scanning.off, UInt32.toNat_ofNat']
      exact Nat.mod_eq_of_lt (by omega)
  index := by
    show (sc.position + 1) % usize = _
    rw [scanning.index, Nat.mod_add_mod, List.length_append, List.length_singleton, Nat.add_assoc]
  idle := by intros; contradiction

/-- How the scan ends: with the records it has taken, some of those ahead, or in an error that keeps the
reader it started from. It takes none only at the open slot. -/
def Batched (env : Env) (R : Nat) (d : Disk) (segs : List Seg) (faults : Nat → Option IoError) (max : Nat) (r₀ : Reader)
    (taken : List (Nat × Nat)) (crossed : Nat) (marks : List Mark) (stop : Stop) (n : Nat) :
    Except IoError Scan → Reader → Nat → Prop
  | .ok sc, r, _ => ∃ done left s g p, marks = done ++ left ∧
      Gathered R d segs r₀ r sc (taken ++ itemsOf done) s g p ∧ Path env R d segs s p left stop ∧
      (taken ++ itemsOf done).length ≤ max ∧ (taken ++ itemsOf done = [] → left = [] ∧ stop.refusal = none)
  | .error e, r, n' => Frozen r₀ r ∧ r.maps.take 1 = r₀.maps ∧
      (Trial.Refused faults n n' e ∨ (taken = [] ∧ itemsOf marks = [] ∧ stop.refusal = some e) ∨
        (e = tooMany ∧ 65535 < crossed + crossings (max - taken.length) marks))

theorem Batched.cons {res : Except IoError Scan} {n₁ n₂ crossed₁ : Nat} (mark : Mark)
    (h : Batched env R d segs faults max r₀ (taken ++ mark.item?.toList) crossed₁ marks stop n₁ res r n₂)
    (later : n ≤ n₁)
    (excess : 65535 < crossed₁ + crossings (max - (taken ++ mark.item?.toList).length) marks →
      65535 < crossed + crossings (max - taken.length) (mark :: marks)) :
    Batched env R d segs faults max r₀ taken crossed (mark :: marks) stop n res r n₂ := by
  match res, h with
  | .ok sc, ⟨done, left, s, g, p, split, rest⟩ =>
    refine ⟨mark :: done, left, s, g, p, by rw [split]; rfl, ?_⟩
    rwa [itemsCons, ← List.append_assoc]
  | .error e, ⟨frozen, first, why⟩ =>
    refine ⟨frozen, first, ?_⟩
    rcases why with refused | ⟨none, empty, stopped⟩ | ⟨same, many⟩
    · exact .inl (refused.widen later (Nat.le_refl _))
    · obtain ⟨none, no⟩ := List.append_eq_nil_iff.mp none
      exact .inr (.inl ⟨none, by rw [itemsCons, no, empty]; rfl, stopped⟩)
    · exact .inr (.inr ⟨same, excess many⟩)

theorem ensureSame {i seq idx : Nat} {map : MappedRegion} (last : r.maps.getLast? = some map)
    (sequence : map.fileSequence = seq) (region : map.regionIdx = idx) :
    (ensureScanRegionMapped env i seq idx : Trial Disk Reader IoError Unit) d faults r n = (.ok (), r, n) := by
  unfold ensureScanRegionMapped
  rw [Trial.selfRun, last]
  dsimp only
  rw [if_pos ⟨sequence, region⟩]
  rfl

theorem ensureNext (regions : Regions env r.regionSize) {i seq idx : Nat} {map : MappedRegion}
    (last : r.maps.getLast? = some map) (ahead : map.regionIdx < idx) :
    Trial.Spec d faults r n (ensureScanRegionMapped env i seq idx) fun res r' n' =>
      (res = .ok () ∧ r' = { r with maps := r.maps ++ [⟨seq, idx, i⟩] }) ∨
      ∃ e, res = .error e ∧ r' = r ∧ Trial.Refused faults n n' e := by
  unfold ensureScanRegionMapped
  apply Trial.specSelf
  rw [last]
  dsimp only
  rw [if_neg (by rintro ⟨_, same⟩; omega)]
  refine Trial.specRefuse (by rintro ⟨_, back⟩; omega) ?_
  refine createSpec regions (regionBase regions idx) ?_ ?_
  · exact ⟨Nat.le_refl _, .inl ⟨rfl, rfl⟩⟩
  · intro e refused
    exact .inr ⟨e, rfl, rfl, refused⟩

/- The end of `enterSegment`, in a region that is mapped. -/
theorem pushSpec (gathered : Gathered R d segs r₀ r sc taken s g p) (counted : r.batchSegs.length = crossed) :
    Trial.Spec d faults r n (do
      let r ← Observe.self
      refuseIf (65535 < r.batchSegs.length) (errOther "too many batch segments")
      Observe.become { r with batchSegs := r.batchSegs ++ [⟨r.maps.length - 1⟩] }
      return { sc with regionStart := p / R * R, cursorOff := p - p / R * R, segIdx := r.batchSegs.length })
      fun res r' n' => n' = n ∧
        ((∃ sc', res = .ok sc' ∧ Scanning R d segs r₀ r' sc' taken crossed s g p) ∨
          (res = .error tooMany ∧ r' = r ∧ 65535 < crossed)) := by
  apply Trial.specSelf
  by_cases many : 65535 < r.batchSegs.length
  · rw [refuseIf, if_pos many]
    exact ⟨Nat.le_refl _, rfl, .inr ⟨rfl, rfl, by omega⟩⟩
  · refine Trial.specRefuse many (Trial.specBecome ⟨Nat.le_refl _, rfl, .inl ⟨_, rfl, ?_⟩⟩)
    have collected := collectedMore gathered.collected [] [⟨r.maps.length - 1⟩]
    rw [List.append_nil] at collected
    exact
      { frozen := frozenMore gathered.frozen _ _ _
        first := gathered.first
        landed := standingBatch (r := settle sc r) gathered.landed _ _
        collected := collected
        index := gathered.index
        idle := fun no => by
          obtain ⟨same, none⟩ := gathered.idle no
          refine ⟨?_, none⟩
          have : settle sc { r with batchSegs := r.batchSegs ++ [⟨r.maps.length - 1⟩] } =
              { settle sc r with batchSegs := r.batchSegs ++ [⟨r.maps.length - 1⟩] } := rfl
          exact this.trans (by rw [same]; rfl)
        start := rfl
        off := by
          have := slotSplit R p
          show p - p / R * R = p % R
          omega
        current := counted
        last := by simp
        counted := by simp [counted]
        few := by omega }

theorem nextOffset (same : nextSlot (d.data g.ino) p / R = p / R) :
    nextSlot (d.data g.ino) p - p / R * R = nextSlot (d.data g.ino) p % R := by
  have split := slotSplit R (nextSlot (d.data g.ino) p)
  rw [same] at split
  omega

theorem scanFree (view : View env R d segs) (scanning : Scanning R d segs r₀ r sc taken crossed s g p) (free : d.data g.ino p = 0)
    (fits : p % R + 16 ≤ R) :
    (scanRecord env max sc : Trial Disk Reader IoError ScanStep) d faults r n = (.ok (.stop sc), r, n) := by
  have region := scanning.region
  unfold scanRecord
  rw [Trial.selfRun, Trial.refuseRun _ _ _ _ (by rw [region, scanning.off]; exact Nat.not_lt.mpr fits)]
  refine (Trial.bindOkRun (by rw [scanning.off]; exact headerFree region scanning.map (Standing.mapped view scanning.landed) free)).trans ?_
  rw [if_pos (by decide), Trial.pureRun]

theorem scanUser (view : View env R d segs) (scanning : Scanning R d segs r₀ r sc taken crossed s g p)
    (around : Around R d (settle sc r) g p .user) :
    (scanRecord env max sc : Trial Disk Reader IoError ScanStep) d faults r n =
      (.ok (if max ≤ r.batchPos.length + 1 then
          .stop { sc with position := (sc.position + 1) % usize, progressed := true, cursor := nextSlot (d.data g.ino) p }
        else .inner { sc with
          position := (sc.position + 1) % usize, progressed := true, cursor := nextSlot (d.data g.ino) p,
          cursorOff := nextSlot (d.data g.ino) p % R }),
        { r with batchPos := r.batchPos ++ [⟨UInt16.ofNat sc.segIdx, UInt32.ofNat sc.cursorOff⟩] }, n) := by
  have region := scanning.region
  have fits := around.fits
  have inside := userInside around.here
  have below : nextSlot (d.data g.ino) p % R ≠ R := Nat.ne_of_lt (Nat.mod_lt _ (by omega))
  unfold scanRecord
  rw [Trial.selfRun, Trial.refuseRun _ _ _ _ (by rw [region, scanning.off]; show ¬ (R < p % R + 16); omega)]
  refine (Trial.bindOkRun (by rw [scanning.off]
                              exact headerRead region scanning.map (Standing.mapped view scanning.landed) around.here.committed around.here.kind)).trans ?_
  rw [if_neg (by simp), Trial.refuseRun _ _ _ _ (by rw [region, scanning.off]; exact Nat.not_lt.mpr fits)]
  dsimp only
  rw [scanning.start, scanning.off, slotSplit, around.next, nextOffset around.here.placed, region, if_neg below,
    Trial.becomeRun]
  split <;> rfl

theorem scanSkip (view : View env R d segs) (scanning : Scanning R d segs r₀ r sc taken crossed s g p)
    (around : Around R d (settle sc r) g p .skip) :
    (scanRecord env max sc : Trial Disk Reader IoError ScanStep) d faults r n =
      (.ok (.outer { sc with progressed := true, cursor := nextSlot (d.data g.ino) p }), r, n) := by
  have region := scanning.region
  have fits := around.fits
  have whole : nextSlot (d.data g.ino) p - p / R * R = R := by
    have next : nextSlot (d.data g.ino) p = (p / R + 1) * R := around.here.placed
    rw [next, Nat.add_mul, Nat.one_mul]
    omega
  unfold scanRecord
  rw [Trial.selfRun, Trial.refuseRun _ _ _ _ (by rw [region, scanning.off]; show ¬ (R < p % R + 16); omega)]
  refine (Trial.bindOkRun (by rw [scanning.off]
                              exact headerRead region scanning.map (Standing.mapped view scanning.landed) around.here.committed around.here.kind)).trans ?_
  rw [if_neg (by simp), Trial.refuseRun _ _ _ _ (by rw [region, scanning.off]; exact Nat.not_lt.mpr fits)]
  dsimp only
  rw [scanning.start, scanning.off, slotSplit, around.next, whole, region, if_pos rfl]
  rfl

theorem scanChannel (faults : Nat → Option IoError) (n max : Nat) (view : View env R d segs) (scanning : Scanning R d segs r₀ r sc taken crossed s g p)
    (around : Around R d (settle sc r) g p .channel) :
    (scanRecord env max sc : Trial Disk Reader IoError ScanStep) d faults r n =
      (.ok (.inner { sc with
        progressed := true, cursor := nextSlot (d.data g.ino) p, cursorOff := nextSlot (d.data g.ino) p % R }), r, n) ∧
      nextSlot (d.data g.ino) p / R = p / R := by
  have region := scanning.region
  have fits := around.fits
  obtain ⟨_, same⟩ := channelNext view scanning.landed.found around.here
  have below : nextSlot (d.data g.ino) p % R ≠ R := Nat.ne_of_lt (Nat.mod_lt _ (by omega))
  refine ⟨?_, same⟩
  unfold scanRecord
  rw [Trial.selfRun, Trial.refuseRun _ _ _ _ (by rw [region, scanning.off]; show ¬ (R < p % R + 16); omega)]
  refine (Trial.bindOkRun (by rw [scanning.off]
                              exact headerRead region scanning.map (Standing.mapped view scanning.landed) around.here.committed around.here.kind)).trans ?_
  rw [if_neg (by simp), Trial.refuseRun _ _ _ _ (by rw [region, scanning.off]; exact Nat.not_lt.mpr fits)]
  dsimp only
  rw [scanning.start, scanning.off, slotSplit, around.next, nextOffset same, region, if_neg below]
  rfl

/- A new segment of the batch, in a region mapped before or mapped now. -/
theorem enterSame (gathered : Gathered R d segs r₀ r sc taken s g p) (counted : r.batchSegs.length = crossed) :
    Trial.Spec d faults r n (enterSegment env sc) fun res r' n' => n' = n ∧
      ((∃ sc', res = .ok sc' ∧ Scanning R d segs r₀ r' sc' taken crossed s g p) ∨
        (res = .error tooMany ∧ r' = r ∧ 65535 < crossed)) := by
  have sequence : sc.sequence = s := gathered.landed.sequence
  obtain rfl := gathered.region
  obtain rfl := gathered.cursor
  unfold enterSegment
  apply Trial.specSelf
  refine Trial.specRun (ensureSame gathered.map sequence.symm rfl) ?_
  exact pushSpec gathered counted

/- After a Skip: the next region is mapped first. -/
theorem enterNext (view : View env R d segs) (one : r₀.maps.length = 1)
    (scanning : Scanning R d segs r₀ r sc taken crossed s g p) (around : Around R d (settle sc r) g p .skip) :
    Trial.Spec d faults r n (enterSegment env { sc with progressed := true, cursor := nextSlot (d.data g.ino) p })
      fun res r' n' =>
        (∃ sc', res = .ok sc' ∧ Scanning R d segs r₀ r' sc' taken (crossed + 1) s g (nextSlot (d.data g.ino) p)) ∨
        ∃ e, res = .error e ∧ Frozen r₀ r' ∧ r'.maps.take 1 = r₀.maps ∧
          (Trial.Refused faults n n' e ∨ (e = tooMany ∧ 65535 < crossed + 1)) := by
  obtain rfl : sc.sequence = s := scanning.landed.sequence
  have file : sc.rolled.elim r.ino Successor.ino = g.ino := scanning.landed.ino
  obtain ⟨_, region⟩ := skipNext view.regions around.here
  have gathered := scanning.toGathered.passed around (by decide)
    [⟨sc.sequence, nextSlot (d.data g.ino) p / R, g.ino⟩] (by simp) sc.cursorOff one
  obtain rfl := scanning.region
  unfold enterSegment
  apply Trial.specSelf
  refine Trial.specSeq (ensureNext view.regions scanning.map (by dsimp only; omega)) ?_ ?_
  · rintro _ r1 n1 later (⟨_, rfl⟩ | ⟨e, bad, _⟩)
    · rw [file]
      refine Trial.specMono (pushSpec gathered scanning.counted) ?_
      rintro res r2 n2 _ ⟨rfl, ok | ⟨error, rfl, many⟩⟩
      · exact .inl ok
      · exact .inr ⟨tooMany, error, gathered.frozen, gathered.first, .inr ⟨rfl, many⟩⟩
    · cases bad
  · rintro e r1 n1 later (⟨bad, _⟩ | ⟨e', same, rfl, refused⟩)
    · cases bad
    · cases same
      exact .inr ⟨_, rfl, scanning.frozen, scanning.first, .inl refused⟩

theorem followSpec (view : View env R d segs) (scanning : Scanning R d segs r₀ r sc taken crossed s g g.fin)
    (next : segs[s + 1]? = some g') :
    Trial.Spec d faults r n (followRoll env sc 40) fun res r' n' => r' = r ∧
      ((res = .ok ⟨s + 1, g'.ident.fileInstance, g'.ino, g'.base⟩ ∧ d.segments (s + 1) = some g'.ino) ∨
        ∃ e, res = .error e ∧ (Trial.Refused faults n n' e ∨ ∀ t, following env R d s g g' t = (.error e, t))) := by
  obtain ⟨names, inv⟩ := view.stored
  have sequence : sc.sequence = s := scanning.landed.sequence
  have file : sc.rolled.elim r.header Successor.ino = g.ino := scanning.landed.header
  have ident : sc.rolled.elim r.fileInstance Successor.fileInstance = g.ident.fileInstance := scanning.landed.fileInstance
  have gen : r.generation = g.gen := scanning.landed.gen
  unfold followRoll
  apply Trial.specSelf
  rw [scanning.off]
  refine Trial.specRun (edgeRun inv scanning.landed.found next scanning.region scanning.map) ?_
  rw [sequence, file, ident, gen, scanning.region]
  exact successorSpec view scanning.landed.found next

/- The scan in the successor of a `Roll` it has followed. -/
theorem Scanning.rolled (view : View env R d segs) (scanning : Scanning R d segs r₀ r sc taken crossed s g g.fin)
    (one : r₀.maps.length = 1) (next : segs[s + 1]? = some g') :
    Gathered R d segs r₀ { r with maps := r.maps ++ [⟨s + 1, 0, g'.ino⟩] }
      { sc with
        sequence := s + 1, rolled := some ⟨s + 1, g'.ident.fileInstance, g'.ino, g'.base⟩, cursor := 0,
        position := g'.base, progressed := true } taken (s + 1) g' 0 := by
  obtain ⟨names, inv⟩ := view.stored
  have link := inv.link scanning.landed.found next
  have ok' := (inv.each (s + 1) g' next).1
  obtain ⟨_, small, _⟩ := linkSmall inv next
  have reached : g'.base = sc.position := by
    have finished : sc.position = (g.base + users g.slots) % usize := Standing.finished scanning.landed
    rw [finished, ← link.base]
    exact (Nat.mod_eq_of_lt small).symm
  exact
    { frozen := frozenMore scanning.frozen _ _ _
      first := by
        obtain ⟨first, same⟩ := List.length_eq_one_iff.mp one
        have := scanning.first
        rw [same] at this ⊢
        exact takeOneAppend this
      landed :=
        { found := next
          sequence := rfl
          ino := rfl
          header := rfl
          fileInstance := rfl
          region := scanning.region
          gen := scanning.landed.gen.trans link.gen.symm
          base := rfl
          slot := rfl
          map := by
            show (r.maps ++ [(⟨s + 1, 0, g'.ino⟩ : MappedRegion)]).getLast? = _
            rw [Nat.zero_div, List.getLast?_append]
            rfl
          place := ⟨[], g'.slots, rfl, .done 0, ok'.chain, (Nat.mod_eq_of_lt small).symm⟩ }
      collected := by
        have := collectedMore scanning.collected [⟨s + 1, 0, g'.ino⟩] []
        rwa [List.append_nil] at this
      index := by rw [reached]; exact scanning.index
      idle := by intros; contradiction }

/- The round at a committed `Roll`: into the successor, or what was collected before it. -/
theorem scanRoll (view : View env R d segs) (one : r₀.maps.length = 1)
    (scanning : Scanning R d segs r₀ r sc taken crossed s g g.fin) (next : segs[s + 1]? = some g')
    (flag : d.data g.ino g.fin = 1) :
    Trial.Spec d faults r n (scanRecord env max sc) fun res r' n' =>
      (∃ sc', res = .ok (.outer sc') ∧ Gathered R d segs r₀ r' sc' taken (s + 1) g' 0 ∧
        r'.batchSegs.length = crossed + 1 ∧ d.segments (s + 1) = some g'.ino) ∨
      (∃ e, (Trial.Refused faults n n' e ∨ ∀ t, following env R d s g g' t = (.error e, t)) ∧ r' = r ∧
        (res = .ok (.stop sc) ∧ taken ≠ [] ∨ res = .error e ∧ taken = [])) := by
  obtain ⟨names, inv⟩ := view.stored
  have link : Link s (d.data g.ino) g g' := inv.link scanning.landed.found next
  have room : g.fin % R + 56 ≤ R := (inv.each s g scanning.landed.found).1.room
  have region := scanning.region
  have cursor := scanning.cursor
  unfold scanRecord
  apply Trial.specSelf
  refine Trial.specRefuse (by rw [region, scanning.off]; show ¬ (R < g.fin % R + 16); omega) ?_
  refine Trial.specRun (by rw [scanning.off]; exact headerRead region scanning.map (Standing.mapped view scanning.landed) flag link.kind) ?_
  rw [if_neg (by simp), link.length]
  refine Trial.specRefuse (by rw [region, scanning.off]; show ¬ (R < g.fin % R + (16 + 40)); omega) ?_
  dsimp only
  refine Trial.specAttempt (followSpec view scanning next) ?_
  rintro res r1 n1 later ⟨rfl, ⟨rfl, named⟩ | ⟨e, rfl, why⟩⟩
  · exact Trial.specSelf (Trial.specBecome ⟨Nat.le_refl _, .inl ⟨_, rfl, scanning.rolled view one next, scanning.counted,
      named⟩⟩)
  · apply Trial.specSelf
    have here : sc.regionStart + sc.cursorOff = sc.cursor := by
      rw [scanning.start, scanning.off, slotSplit, cursor]
    have same : r1.batchPos = [] ↔ taken = [] := by
      have := scanning.collected.length_eq
      rw [← List.length_eq_zero_iff, ← List.length_eq_zero_iff, this]
    by_cases empty : r1.batchPos = []
    · rw [if_neg (not_not.mpr empty)]
      exact Trial.specFail (.inr ⟨e, why, rfl, .inr ⟨rfl, same.mp empty⟩⟩)
    · rw [if_pos empty]
      exact Trial.specRet (.inr ⟨e, why, rfl, .inl ⟨by rw [here], fun none => empty (same.mpr none)⟩⟩)

theorem batchLoopSpec (view : View env R d segs) (one : r₀.maps.length = 1)
    (path : Path env R d segs s p marks stop) (scanning : Scanning R d segs r₀ r sc taken crossed s g p)
    (room : taken.length < max) {fuel : Nat} (enough : marks.length < fuel) :
    Trial.Spec d faults r n (batchLoop env max fuel sc)
      (Batched env R d segs faults max r₀ taken crossed marks stop n) := by
  obtain ⟨names, inv⟩ := view.stored
  have small := view.regions.small
  obtain ⟨fuel, rfl⟩ := Nat.exists_eq_succ_of_ne_zero (Nat.ne_of_gt (Nat.lt_of_le_of_lt (Nat.zero_le _) enough))
  induction path generalizing r g n fuel sc taken crossed with
  | @caughtUp s h found free =>
    obtain rfl : g = h := Option.some.inj (scanning.landed.found.symm.trans found)
    have fits : g.fin % R + 56 ≤ R := (inv.each s g found).1.room
    unfold batchLoop
    refine Trial.specRun (scanFree view scanning free (by omega)) ?_
    refine Trial.specRet ⟨[], [], s, g, g.fin, rfl, ?_, .caughtUp found free, ?_, fun _ => ⟨rfl, rfl⟩⟩
    · rw [itemsOf, List.filterMap_nil, List.append_nil]
      exact scanning.toGathered
    · rw [itemsOf, List.filterMap_nil, List.append_nil]
      exact Nat.le_of_lt room
  | @record s p h k marks stop found here tail ih =>
    obtain rfl : g = h := Option.some.inj (scanning.landed.found.symm.trans found)
    have around := Standing.around view scanning.landed here
    have left : 0 < max - taken.length := by omega
    simp only [List.length_cons] at enough
    obtain ⟨fuel, rfl⟩ : ∃ f, fuel = f + 1 := ⟨fuel - 1, by omega⟩
    unfold batchLoop
    cases k with
    | roll => exact here.placed.elim
    | channel =>
      obtain ⟨run, same⟩ := scanChannel faults n max view scanning around
      refine Trial.specRun run ?_
      have inner : Scanning R d segs r₀ r { sc with
          progressed := true, cursor := nextSlot (d.data g.ino) p, cursorOff := nextSlot (d.data g.ino) p % R }
          taken crossed s g (nextSlot (d.data g.ino) p) := by
        have gathered := scanning.toGathered.passed around (by decide) []
          (by rw [List.append_nil, same]; exact scanning.map) (nextSlot (d.data g.ino) p % R) one
        simp only [List.append_nil] at gathered
        exact { scanning with
          toGathered := gathered, start := by rw [scanning.start, same], off := rfl }
      refine Trial.specMono (ih inner room fuel (by omega)) fun _ _ _ later post => ?_
      refine Batched.cons .channel (by simpa [Mark.item?] using post) (Nat.le_refl _) ?_
      simp [Mark.item?, crossingsChannel left]
    | user =>
      have took := scanning.took around small sc.cursorOff
      have length := scanning.collected.length_eq
      refine Trial.specRun (scanUser view scanning around) ?_
      by_cases full : max ≤ r.batchPos.length + 1
      · rw [if_pos full]
        refine Trial.specRet ⟨[.user g.ino p], marks, s, g, _, rfl, took, tail, ?_, ?_⟩
        · simp only [itemsOf, List.filterMap_cons, Mark.item?, List.filterMap_nil, List.length_append,
            List.length_singleton]
          omega
        · simp [itemsOf, Mark.item?]
      · rw [if_neg full]
        have inner : Scanning R d segs r₀
            { r with batchPos := r.batchPos ++ [⟨UInt16.ofNat sc.segIdx, UInt32.ofNat sc.cursorOff⟩] }
            { sc with
              position := (sc.position + 1) % usize, progressed := true, cursor := nextSlot (d.data g.ino) p,
              cursorOff := nextSlot (d.data g.ino) p % R } (taken ++ [(g.ino, p)]) crossed s g
            (nextSlot (d.data g.ino) p) :=
          { scanning with
            toGathered := scanning.took around small _
            start := by rw [scanning.start, here.placed]
            off := rfl }
        refine Trial.specMono (ih inner (by simp only [List.length_append, List.length_singleton]; omega) fuel (by omega))
          fun _ _ _ _ post => ?_
        refine Batched.cons (.user g.ino p) post (Nat.le_refl _) ?_
        simp only [Mark.item?, Option.toList_some, List.length_append, List.length_singleton, crossingsUser left,
          Nat.sub_sub]
        exact id
    | skip =>
      refine Trial.specRun (scanSkip view scanning around) ?_
      refine Trial.specSeq (enterNext view one scanning around) ?_ ?_
      · rintro _ r1 n1 later (⟨sc', same, entered⟩ | ⟨e, bad, _⟩)
        · cases same
          refine Trial.specMono (ih entered room fuel (by omega)) fun _ _ _ _ post => ?_
          refine Batched.cons .boundary (by simpa [Mark.item?] using post) later ?_
          simp only [Mark.item?, Option.toList_none, List.append_nil, crossingsBoundary left]
          omega
        · cases bad
      · rintro e r1 n1 later (⟨_, bad, _⟩ | ⟨e', same, frozen, first, why⟩)
        · cases bad
        · cases same
          refine ⟨frozen, first, ?_⟩
          rcases why with refused | ⟨same, many⟩
          · exact .inl refused
          · refine .inr (.inr ⟨same, ?_⟩)
            simp only [markOf, crossingsBoundary left]
            omega
  | @roll s h g' marks stop found next flag named tail ih =>
    obtain rfl : g = h := Option.some.inj (scanning.landed.found.symm.trans found)
    have left : 0 < max - taken.length := by omega
    simp only [List.length_cons] at enough
    obtain ⟨fuel, rfl⟩ : ∃ f, fuel = f + 1 := ⟨fuel - 1, by omega⟩
    unfold batchLoop
    refine Trial.specSeq (scanRoll view one scanning next flag) ?_ ?_
    · rintro step r1 n1 later (⟨sc', same, gathered, counted, _⟩ | ⟨e, why, rfl, ⟨same, some⟩ | ⟨bad, _⟩⟩)
      · cases same
        refine Trial.specSeq (enterSame gathered counted) ?_ ?_
        · rintro _ r2 n2 _ ⟨rfl, ⟨sc'', same, entered⟩ | ⟨bad, _⟩⟩
          · cases same
            refine Trial.specMono (ih entered room fuel (by omega)) fun _ _ _ _ post => ?_
            refine Batched.cons .boundary (by simpa [Mark.item?] using post) later ?_
            simp only [Mark.item?, Option.toList_none, List.append_nil, crossingsBoundary left]
            omega
          · cases bad
        · rintro e r2 n2 _ ⟨rfl, ⟨_, bad, _⟩ | ⟨same, rfl, many⟩⟩
          · cases bad
          · refine ⟨gathered.frozen, gathered.first, .inr (.inr ⟨Except.error.inj same, ?_⟩)⟩
            rw [crossingsBoundary left]
            omega
      · cases same
        refine Trial.specRet ⟨[], _, s, g, g.fin, rfl, ?_, .roll found next flag named tail, ?_, fun none => ?_⟩
        · rw [itemsOf, List.filterMap_nil, List.append_nil]
          exact scanning.toGathered
        · rw [itemsOf, List.filterMap_nil, List.append_nil]
          exact Nat.le_of_lt room
        · rw [itemsOf, List.filterMap_nil, List.append_nil] at none
          exact absurd none some
      · cases bad
    · rintro e r1 n1 later (⟨_, bad, _⟩ | ⟨e', why, rfl, ⟨bad, _⟩ | ⟨same, none⟩⟩)
      · cases bad
      · cases bad
      · cases same
        refine ⟨scanning.frozen, scanning.first, ?_⟩
        rcases why with refused | refuses
        · exact .inl refused
        · exact (namedFollows view found next named refuses r1).elim
  | @refused s h g' e found next flag refuses =>
    obtain rfl : g = h := Option.some.inj (scanning.landed.found.symm.trans found)
    unfold batchLoop
    refine Trial.specSeq (scanRoll view one scanning next flag) ?_ ?_
    · rintro step r1 n1 later (⟨_, _, _, _, named⟩ | ⟨e, why, rfl, ⟨same, some⟩ | ⟨bad, _⟩⟩)
      · exact (namedFollows view found next named refuses r).elim
      · cases same
        refine Trial.specRet ⟨[], _, s, g, g.fin, rfl, ?_, .refused found next flag refuses, ?_, fun none => ?_⟩
        · rw [itemsOf, List.filterMap_nil, List.append_nil]
          exact scanning.toGathered
        · rw [itemsOf, List.filterMap_nil, List.append_nil]
          exact Nat.le_of_lt room
        · rw [itemsOf, List.filterMap_nil, List.append_nil] at none
          exact absurd none some
      · cases bad
    · rintro e' r1 n1 later (⟨_, bad, _⟩ | ⟨e'', why, rfl, ⟨bad, _⟩ | ⟨same, none⟩⟩)
      · cases bad
      · cases bad
      · cases same
        refine ⟨scanning.frozen, scanning.first, ?_⟩
        rcases why with refused | refuses'
        · exact .inl refused
        · exact .inr (.inl ⟨none, rfl, by rw [refusedSame refuses refuses' r1]⟩)

end Scan
end Xchannel.BatchSpecs
