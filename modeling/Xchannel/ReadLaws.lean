import Xchannel.BatchSpecs

/-! Any sequence of reading calls on a channel that stands still: they all walk the same list of
records, whichever of their system calls are refused. -/
namespace Xchannel.ReadLaws
open ByteMemory Format Storage RecordChain SegmentInvariant ChannelInvariant ChannelLog Observation SegmentWalk
  WalkSpecs WriterSpecs RecoverySpecs BuildSpecs ReaderOpen ReaderCalls ReadPath ReadSpecs BatchSpecs

variable {env : Env} {R s p : Nat} {d : Disk} {segs : List Seg} {r r' : Reader} {g g' : Seg}
  {faults : Nat → Option IoError} {n fuel position : Nat} {marks left : List Mark} {stop : Stop}

/-- Some of the records ahead were delivered, in order, and counted in the position. -/
structure Delivered (env : Env) (R : Nat) (d : Disk) (segs : List Seg) (marks : List Mark) (stop : Stop) (position : Nat)
    (out : List MessageRef) (r : Reader) (left : List Mark) : Prop where
  split : ∃ done, marks = done ++ left ∧ out.map (MessageRef.record R d) = itemRecords d (itemsOf done)
  counted : r.position = (position + out.length) % usize
  ahead : Ahead env R d segs r left stop

/- Why a call fails: a system call was refused, or it has come to a `Roll` that is. -/
def Failed (faults : Nat → Option IoError) (n n' : Nat) (left : List Mark) (stop : Stop) (e : IoError) : Prop :=
  Trial.Refused faults n n' e ∨ (left = [] ∧ stop.refusal = some e)

section Deliveries

theorem Ahead.small (ahead : Ahead env R d segs r marks stop) : r.position % usize = r.position := by
  obtain ⟨s, g, p, standing, _⟩ := ahead
  exact Standing.small standing

/- Nothing delivered: only service records were passed. -/
theorem deliveredNone (passed : Passed marks left) (kept : r'.position = position)
    (ahead : Ahead env R d segs r' left stop) : Delivered env R d segs marks stop position [] r' left := by
  obtain ⟨skipped, split, none⟩ := passed
  refine ⟨⟨skipped, split, by rw [none]; rfl⟩, ?_, ahead⟩
  rw [List.length_nil, Nat.add_zero, ← kept, Ahead.small ahead]

theorem Delivered.trans {r₁ r₂ : Reader} {out out' : List MessageRef} {left' : List Mark}
    (first : Delivered env R d segs marks stop position out r₁ left)
    (second : Delivered env R d segs left stop r₁.position out' r₂ left') :
    Delivered env R d segs marks stop position (out ++ out') r₂ left' := by
  obtain ⟨done, split, same⟩ := first.split
  obtain ⟨done', split', same'⟩ := second.split
  refine ⟨⟨done ++ done', by rw [split, split', List.append_assoc], ?_⟩, ?_, second.ahead⟩
  · rw [List.map_append, same, same', itemsAppend, itemRecordsAppend]
  · rw [second.counted, first.counted, Nat.mod_add_mod, List.length_append, Nat.add_assoc]

theorem Delivered.shorter {out : List MessageRef} (delivered : Delivered env R d segs marks stop position out r left) :
    left.length ≤ marks.length := by
  obtain ⟨done, rfl, _⟩ := delivered.split
  simp

theorem Delivered.first {out : List MessageRef} (delivered : Delivered env R d segs marks stop position out r left) :
    out.map (MessageRef.record R d) = (itemRecords d (itemsOf marks)).take out.length := by
  obtain ⟨done, rfl, same⟩ := delivered.split
  have length : out.length = (itemRecords d (itemsOf done)).length := by rw [← same, List.length_map]
  rw [itemsAppend, itemRecordsAppend, length, List.take_left' rfl, same]

theorem Delivered.rest {out : List MessageRef} (delivered : Delivered env R d segs marks stop position out r left) :
    itemsOf left = (itemsOf marks).drop out.length := by
  obtain ⟨done, rfl, same⟩ := delivered.split
  have length : out.length = (itemsOf done).length := by simpa [itemRecords] using congrArg List.length same
  rw [itemsAppend, length, List.drop_left' rfl]

theorem Delivered.fewer {out : List MessageRef} (delivered : Delivered env R d segs marks stop position out r left) :
    out.length ≤ (itemsOf marks).length := by
  obtain ⟨done, rfl, same⟩ := delivered.split
  have length : out.length = (itemsOf done).length := by simpa [itemRecords] using congrArg List.length same
  rw [itemsAppend, List.length_append]
  omega

/- A message at the place of a record shows the record. -/
theorem messageRecord {i t : Nat} {msg : MessageRef} (region : msg.region = ⟨t, p / R, i⟩)
    (offset : msg.headerOffset = p % R) (length : msg.payloadLen = lengthAt (d.data i) p) :
    msg.record R d = recordAt (d.data i) p := by
  unfold MessageRef.record recordAt
  rw [region, offset, length]
  dsimp only
  rw [slotSplit]

end Deliveries

section Calls

theorem scanToSpec (view : View env R d segs) (ahead : Ahead env R d segs r marks stop) (enough : marks.length < fuel)
    {consume : Bool} : Trial.Spec d faults r n (scanToUserRecord env fuel consume)
      (Scanned env R d segs faults consume marks stop r.position n) := by
  obtain ⟨s, g, p, standing, path⟩ := ahead
  unfold scanToUserRecord
  exact Trial.specRun (pruneRun standing) (scanSpec view path (Standing.pruned standing) enough)

theorem tryReadSpec (view : View env R d segs) (ahead : Ahead env R d segs r marks stop) (enough : marks.length < fuel) :
    Trial.Spec d faults r n (tryRead env fuel) fun res r' n' => match res with
      | .ok none => itemsOf marks = [] ∧ stop.refusal = none ∧ Delivered env R d segs marks stop r.position [] r' []
      | .ok (some msg) => ∃ left, Delivered env R d segs marks stop r.position [msg] r' left
      | .error e => ∃ left, Delivered env R d segs marks stop r.position [] r' left ∧ Failed faults n n' left stop e := by
  unfold tryRead
  refine Trial.specSeq (scanToSpec view ahead enough) ?_ ?_
  · rintro found r1 n1 _ post
    cases found with
    | none =>
      obtain ⟨none, stopped, kept, here⟩ := post
      exact Trial.specRet ⟨none, stopped, deliveredNone ⟨marks, (List.append_nil _).symm, none⟩ kept here⟩
    | some found =>
      obtain ⟨i, p, rest, ⟨skipped, split, none⟩, place, moved, here⟩ := post
      obtain ⟨t, map⟩ := place.map
      dsimp only
      apply Trial.specSelf
      rw [map]
      refine Trial.specRet ⟨rest, ⟨skipped ++ [.user i p], by simp [split], ?_⟩, moved, here⟩
      rw [itemsAppend, none, List.map_singleton, messageRecord rfl place.offset place.length]
      rfl
  · rintro e r1 n1 _ ⟨kept, left, passed, here, why⟩
    exact ⟨left, deliveredNone passed kept here, why⟩

/- What a look at the next record tells. -/
def Peeked (d : Disk) (marks : List Mark) (header : PeekedHeader) : Prop :=
  ∃ i p rest, itemsOf marks = (i, p) :: rest ∧
    header = ⟨(recordAt (d.data i) p).messageType, (recordAt (d.data i) p).userMetaU64, lengthAt (d.data i) p⟩

theorem peekSpec (view : View env R d segs) (ahead : Ahead env R d segs r marks stop) (enough : marks.length < fuel) :
    Trial.Spec d faults r n (peekHeader env fuel) fun res r' n' =>
      ∃ left, Delivered env R d segs marks stop r.position [] r' left ∧ match res with
      | .ok none => left = [] ∧ stop.refusal = none
      | .ok (some header) => Peeked d marks header
      | .error e => Failed faults n n' left stop e := by
  unfold peekHeader
  refine Trial.specSeq (scanToSpec view ahead enough) ?_ ?_
  · rintro found r1 n1 _ post
    cases found with
    | none =>
      obtain ⟨none, stopped, kept, here⟩ := post
      exact Trial.specRet ⟨[], deliveredNone ⟨marks, (List.append_nil _).symm, none⟩ kept here, rfl, stopped⟩
    | some found =>
      obtain ⟨i, p, rest, passed, place, kept, here⟩ := post
      have same : r1.position = r.position := by
        rw [kept]
        exact Ahead.small ahead
      refine Trial.specRet ⟨_, deliveredNone passed same here, i, p, itemsOf rest, passed.items, ?_⟩
      rw [place.messageType, place.userMetaU64, place.length]
      rfl
  · rintro e r1 n1 _ ⟨kept, left, passed, here, why⟩
    exact ⟨left, deliveredNone passed kept here, why⟩

theorem pollSpec (view : View env R d segs) (ahead : Ahead env R d segs r marks stop) (enough : marks.length < fuel) :
    Trial.Spec d faults r n (pollForUserMessage env fuel) fun res r' n' =>
      ∃ left, Delivered env R d segs marks stop r.position [] r' left ∧ match res with
      | .ok false => left = [] ∧ stop.refusal = none
      | .ok true => ∃ i p rest, left = .user i p :: rest
      | .error e => Failed faults n n' left stop e := by
  obtain ⟨s, g, p, standing, path⟩ := ahead
  unfold pollForUserMessage
  refine Trial.specRun (pruneRun standing) ?_
  rw [pollScan, map_eq_pure_bind]
  refine Trial.specSeq (scanSpec view path (Standing.pruned standing) enough) ?_ ?_
  · rintro found r1 n1 _ post
    cases found with
    | none =>
      obtain ⟨none, stopped, kept, here⟩ := post
      exact Trial.specRet ⟨[], deliveredNone ⟨marks, (List.append_nil _).symm, none⟩ kept here, rfl, stopped⟩
    | some found =>
      obtain ⟨i, p, rest, passed, _, kept, here⟩ := post
      have same : r1.position = r.position := by
        rw [kept]
        exact Standing.small standing
      exact Trial.specRet ⟨_, deliveredNone passed same here, i, p, rest, rfl⟩
  · rintro e r1 n1 _ ⟨kept, left, passed, here, why⟩
    exact ⟨left, deliveredNone passed kept here, why⟩

/- `max` reads of one record. -/
theorem readOwnedSpec (view : View env R d segs) (ahead : Ahead env R d segs r marks stop) (enough : marks.length < fuel)
    (out : List MessageRef) (max : Nat) :
    Trial.Spec d faults r n (readOwnedLoop env fuel max out) fun res r' n' => ∃ more result left,
      res = .ok (out ++ more, result) ∧ Delivered env R d segs marks stop r.position more r' left ∧
      match result with
      | .ok _ => more.length ≤ max ∧ (more.length = max ∨ (left = [] ∧ stop.refusal = none))
      | .error e => more.length < max ∧ Failed faults n n' left stop e := by
  induction max generalizing r marks n out with
  | zero =>
    refine Trial.specRet ⟨[], .ok (), marks, by rw [List.append_nil], ?_, Nat.le_refl _, .inl rfl⟩
    exact deliveredNone (Passed.all marks) rfl ahead
  | succ max ih =>
    unfold readOwnedLoop
    refine Trial.specAttempt (tryReadSpec view ahead enough) ?_
    intro res r1 n1 later post
    match res, post with
    | .ok none, ⟨_, stopped, delivered⟩ =>
      exact Trial.specRet ⟨[], .ok (), [], by rw [List.append_nil], delivered, Nat.zero_le _, .inr ⟨rfl, stopped⟩⟩
    | .ok (some msg), ⟨left, delivered⟩ =>
      have shorter := delivered.shorter
      refine Trial.specMono (ih delivered.ahead (by omega) (out ++ [msg])) ?_
      rintro res r2 n2 _ ⟨more, result, left', same, delivered', why⟩
      refine ⟨msg :: more, result, left', by rw [same]; simp, delivered.trans delivered', ?_⟩
      cases result with
      | ok _ =>
        obtain ⟨fewer, all | finished⟩ := why
        · exact ⟨Nat.succ_le_succ fewer, .inl (by rw [List.length_cons, all])⟩
        · exact ⟨Nat.succ_le_succ fewer, .inr finished⟩
      | error e =>
        obtain ⟨fewer, refused | finished⟩ := why
        · exact ⟨Nat.succ_lt_succ fewer, .inl (refused.widen later (Nat.le_refl _))⟩
        · exact ⟨Nat.succ_lt_succ fewer, .inr finished⟩
    | .error e, ⟨left, delivered, why⟩ =>
      exact Trial.specRet ⟨[], .error e, left, by rw [List.append_nil], delivered, Nat.succ_pos _, why⟩

/- Every record of a path lies in its region. -/
theorem pathFits (path : Path env R d segs s p marks stop) : ∀ x ∈ itemsOf marks,
    x.2 % R + 16 + lengthAt (d.data x.1) x.2 ≤ R := by
  induction path with
  | caughtUp found free => exact nofun
  | @record s p g k marks stop found here tail ih =>
    intro x mem
    rw [itemsCons] at mem
    rcases List.mem_append.mp mem with first | later
    · cases k with
      | user =>
        cases List.mem_singleton.mp first
        exact here.fits
      | _ => cases first
    · exact ih x later
  | roll found next flag named tail ih => exact ih
  | refused found next flag refuses => exact nofun

theorem iterRun (faults : Nat → Option IoError) {maps : List MappedRegion} {batch : List BatchSeg} {positions : List MsgPos} {taken : List (Nat × Nat)}
    (collected : List.Forall₂ (Resolves R maps batch) positions taken)
    (fits : ∀ x ∈ taken, x.2 % R + 16 + lengthAt (d.data x.1) x.2 ≤ R) (whole : List MsgPos) :
    ∃ msgs, (MessageBatch.iter ⟨batch, whole, maps, R⟩ positions : Trial Disk Reader IoError (List MessageRef)) d faults r n =
      (.ok msgs, r, n) ∧ msgs.map (MessageRef.record R d) = itemRecords d taken ∧
      ∀ msg ∈ msgs, msg.headerOffset + headerSlot + msg.payloadLen ≤ R := by
  induction collected with
  | nil => exact ⟨[], rfl, rfl, nofun⟩
  | @cons pos item positions taken resolves collected ih =>
    obtain ⟨seg, t, at_seg, at_map, off⟩ := resolves
    obtain ⟨msgs, run, same, within⟩ := ih fun x mem => fits x (List.mem_cons_of_mem _ mem)
    have inside := fits item List.mem_cons_self
    have here : (MessageBatch.messageAt ⟨batch, whole, maps, R⟩ pos : Trial Disk Reader IoError MessageRef) d faults r n =
        (.ok ⟨⟨t, item.2 / R, item.1⟩, item.2 % R, lengthAt (d.data item.1) item.2⟩, r, n) := by
      unfold MessageBatch.messageAt
      rw [at_seg]
      dsimp only
      rw [at_map]
      dsimp only
      rw [off, Trial.refuseRun _ _ _ _ (by show ¬ (R < item.2 % R + 16); omega), Trial.lookRun, slotSplit, readLength,
        Trial.refuseRun _ _ _ _ (by show ¬ (R < item.2 % R + 16 + _); omega)]
      rfl
    refine ⟨⟨⟨t, item.2 / R, item.1⟩, item.2 % R, lengthAt (d.data item.1) item.2⟩ :: msgs, ?_, ?_, ?_⟩
    · unfold MessageBatch.iter
      rw [Trial.bindOkRun here, Trial.bindOkRun run]
      rfl
    · rw [List.map_cons, same, messageRecord rfl rfl rfl]
      rfl
    · rintro msg (_ | ⟨_, mem⟩)
      · exact inside
      · exact within msg mem

/- The reader a batch scan starts from. -/
def cleared (r : Reader) (map : MappedRegion) : Reader := { r with batchSegs := [], batchPos := [], maps := [map] }

theorem scanBatchSpec (view : View env R d segs) {map : MappedRegion}
    (standing : Standing R d segs (cleared r map) s g p) (path : Path env R d segs s p marks stop)
    (enough : marks.length < fuel) {max : Nat} (positive : 0 < max) :
    Trial.Spec d faults (cleared r map) n (scanBatch env fuel max) fun res r' n' => match res with
      | .ok none => Frozen (cleared r map) r' ∧ stop.refusal = none ∧ itemsOf marks = [] ∧ Ahead env R d segs r' [] stop
      | .ok (some sc) => Batched env R d segs faults max (cleared r map) [] 0 marks stop n (.ok sc) r' n'
      | .error e => Batched env R d segs faults max (cleared r map) [] 0 marks stop n (.error e) r' n' := by
  have start : Gathered R d segs (cleared r map) (cleared r map)
      ⟨r.fileSequence, none, r.readPosition, r.position, false, 0, 0, 0⟩ [] s g p :=
    { frozen := ⟨[map], [], [], rfl⟩
      first := rfl
      landed := standing
      collected := .nil
      index := (Standing.small standing).symm
      idle := fun _ => ⟨rfl, rfl⟩ }
  unfold scanBatch
  apply Trial.specSelf
  refine Trial.specSeq (enterSame start (show _ = 0 from rfl)) ?_ ?_
  · rintro _ r1 n1 _ ⟨rfl, ⟨sc, same, scanning⟩ | ⟨bad, _⟩⟩
    · cases same
      refine Trial.specSeq (batchLoopSpec view rfl path scanning positive enough) ?_ ?_
      · rintro sc r2 n2 _ post
        by_cases progressed : sc.progressed
        · rw [if_pos progressed]
          exact Trial.specRet post
        · rw [if_neg progressed]
          obtain ⟨done, left, s', g', p', split, gathered, path', _, nothing⟩ := post
          obtain ⟨settled, none⟩ := gathered.idle (by simpa using progressed)
          obtain ⟨rfl, stopped⟩ := nothing none
          have landed := gathered.landed
          rw [settled] at landed
          refine Trial.specRet ⟨gathered.frozen, stopped, ?_, s', g', p', landed, path'⟩
          rw [split, itemsAppend, ← List.nil_append (itemsOf done), none]
          rfl
      · exact fun _ _ _ _ post => post
    · cases bad
  · rintro e r1 n1 _ ⟨rfl, ⟨_, bad, _⟩ | ⟨_, _, many⟩⟩
    · cases bad
    · omega

/- A batch fails as a single read does, or because it crosses too many regions. -/
def BatchFailed (faults : Nat → Option IoError) (n n' max : Nat) (marks : List Mark) (stop : Stop) (e : IoError) : Prop :=
  Trial.Refused faults n n' e ∨ (itemsOf marks = [] ∧ stop.refusal = some e) ∨
    (e = tooMany ∧ 65535 < crossings max marks)

theorem tryReadBatchSpec (view : View env R d segs) (ahead : Ahead env R d segs r marks stop)
    (enough : marks.length < fuel) (maxBatch : Option UInt16) :
    Trial.Spec d faults r n (tryReadBatch env fuel maxBatch) fun res r' n' => match res with
      | .ok none => (∃ left, Delivered env R d segs marks stop r.position [] r' left) ∧
          (batchMax r.batchLimit maxBatch = 0 ∨ (itemsOf marks = [] ∧ stop.refusal = none))
      | .ok (some b) => ∃ done left, marks = done ++ left ∧ itemsOf done ≠ [] ∧
          (itemsOf done).length ≤ batchMax r.batchLimit maxBatch ∧ b.regionSize = R ∧
          List.Forall₂ (Resolves R b.maps b.segs) b.pos (itemsOf done) ∧
          r'.position = (r.position + (itemsOf done).length) % usize ∧ Ahead env R d segs r' left stop
      | .error e => (∃ left, Delivered env R d segs marks stop r.position [] r' left) ∧
          BatchFailed faults n n' (batchMax r.batchLimit maxBatch) marks stop e := by
  obtain ⟨s, g, p, standing, path⟩ := ahead
  have start : Standing R d segs (cleared r ⟨s, p / R, g.ino⟩) s g p :=
    standingBatch (Standing.pruned standing) [] []
  unfold tryReadBatch
  apply Trial.specSelf
  by_cases zero : batchMax r.batchLimit maxBatch = 0
  · rw [if_pos zero]
    exact Trial.specRet ⟨⟨marks, deliveredNone (Passed.all marks) rfl ⟨s, g, p, standing, path⟩⟩, .inl zero⟩
  · rw [if_neg zero]
    refine Trial.specRun (u := { r with batchSegs := [], batchPos := [] }) rfl ?_
    refine Trial.specRun (pruneRun (standingBatch standing [] [])) ?_
    refine Trial.specAttempt (scanBatchSpec view start path enough (Nat.pos_of_ne_zero zero)) ?_
    intro res r1 n1 later post
    match res, post with
    | .error e, ⟨⟨maps, batch, positions, same⟩, first, why⟩ =>
      subst same
      have first : maps.take 1 = [⟨s, p / R, g.ino⟩] := first
      refine Trial.specSelf (Trial.specBecome (Trial.specRun (a := ()) (u := cleared r ⟨s, p / R, g.ino⟩) ?_ ?_))
      · dsimp only
        rw [first]
        rfl
      · refine Trial.specFail ⟨⟨marks, deliveredNone (Passed.all marks) rfl ⟨s, g, p, start, path⟩⟩, ?_⟩
        rcases why with refused | ⟨_, none, stopped⟩ | ⟨same, many⟩
        · exact .inl refused
        · exact .inr (.inl ⟨none, stopped⟩)
        · refine .inr (.inr ⟨same, ?_⟩)
          rwa [Nat.zero_add, List.length_nil, Nat.sub_zero] at many
    | .ok none, ⟨⟨maps, batch, positions, same⟩, stopped, nothing, s', g', p', standing', path'⟩ =>
      subst same
      refine Trial.specRun (u := { cleared r ⟨s, p / R, g.ino⟩ with maps := maps }) rfl (Trial.specRet ?_)
      refine ⟨⟨[], deliveredNone ⟨marks, (List.append_nil _).symm, nothing⟩ rfl ?_⟩, .inr ⟨nothing, stopped⟩⟩
      exact ⟨s', g', p', standingBatch standing' [] [], path'⟩
    | .ok (some sc), ⟨done, left, s', g', p', split, gathered, path', fewer, nothing⟩ =>
      rw [List.nil_append] at gathered fewer nothing
      have positions : (settle sc r1).batchPos = r1.batchPos := rfl
      have length := gathered.collected.length_eq
      have index : sc.position = (r.position + (itemsOf done).length) % usize := gathered.index
      refine Trial.specRun commitRun (Trial.specSelf ?_)
      by_cases empty : r1.batchPos = []
      · rw [positions, if_pos empty]
        have none : itemsOf done = [] := by
          rw [empty] at length
          exact List.length_eq_zero_iff.mp length.symm
        obtain ⟨rfl, stopped⟩ := nothing none
        rw [none, List.length_nil, Nat.add_zero, Standing.small standing] at index
        have landed := standingBatch gathered.landed [] []
        refine Trial.specRun (u := { settle sc r1 with batchSegs := [], batchPos := [] }) rfl ?_
        refine Trial.specRun (pruneRun landed) (Trial.specRet ⟨⟨[], ?_⟩, .inr ⟨?_, stopped⟩⟩)
        · exact deliveredNone ⟨done, split, none⟩ index ⟨s', g', p', Standing.pruned landed, path'⟩
        · rw [split, List.append_nil, none]
      · rw [positions, if_neg empty]
        refine Trial.specRet ⟨done, left, split, fun none => empty ?_, fewer, gathered.landed.region, gathered.collected,
          index, s', g', p', gathered.landed, path'⟩
        rw [none] at length
        exact List.length_eq_zero_iff.mp length

/- The batch, read through its `iter`. -/
theorem batchSpec (view : View env R d segs) (ahead : Ahead env R d segs r marks stop) (enough : marks.length < fuel)
    (maxBatch : Option UInt16) :
    Trial.Spec d faults r n (ask env fuel (.tryReadBatch maxBatch)) fun res r' n' => match res with
      | .ok reply => ∃ msgs left, reply = .batch msgs ∧
          Delivered env R d segs marks stop r.position (msgs.getD []) r' left ∧
          (msgs.getD []).length ≤ batchMax r.batchLimit maxBatch ∧
          (msgs = none → batchMax r.batchLimit maxBatch = 0 ∨ (itemsOf marks = [] ∧ stop.refusal = none)) ∧
          msgs ≠ some []
      | .error e => (∃ left, Delivered env R d segs marks stop r.position [] r' left) ∧
          BatchFailed faults n n' (batchMax r.batchLimit maxBatch) marks stop e := by
  have fits := ahead.elim fun s h => h.elim fun g h => h.elim fun p h => pathFits h.2
  show Trial.Spec d faults r n (tryReadBatch env fuel maxBatch >>= _) _
  refine Trial.specSeq (tryReadBatchSpec view ahead enough maxBatch) ?_ ?_
  · rintro b r1 n1 _ post
    cases b with
    | none =>
      obtain ⟨⟨left, delivered⟩, why⟩ := post
      exact Trial.specRet ⟨none, left, rfl, delivered, Nat.zero_le _, fun _ => why, nofun⟩
    | some b =>
      obtain ⟨done, left, split, taken, fewer, region, collected, index, there⟩ := post
      obtain ⟨batch, positions, maps, regionSize⟩ := b
      obtain rfl : regionSize = R := region
      obtain ⟨msgs, run, same, _⟩ := iterRun faults (r := r1) (n := n1) collected
        (fun x mem => fits x (by rw [split, itemsAppend]; exact List.mem_append_left _ mem)) positions
      have length : msgs.length = (itemsOf done).length := by
        have := congrArg List.length same
        simpa [itemRecords] using this
      refine Trial.specRun run (Trial.specRet ⟨some msgs, left, rfl, ⟨⟨done, split, same⟩, ?_, there⟩, ?_, nofun, ?_⟩)
      · rw [index, Option.getD_some, length]
      · rwa [Option.getD_some, length]
      · intro none
        rw [Option.some.inj none] at length
        exact absurd (List.length_eq_zero_iff.mp length.symm) taken
  · exact fun _ _ _ _ post => post

/-- What any call comes to: some records delivered, and why it failed or found nothing. -/
structure Answered (env : Env) (R : Nat) (d : Disk) (segs : List Seg) (faults : Nat → Option IoError) (marks : List Mark)
    (stop : Stop) (r : Reader) (n : Nat) (c : ReadCall) (res : Except IoError Reply) (r' : Reader) (n' : Nat)
    (left : List Mark) : Prop where
  delivered : Delivered env R d segs marks stop r.position (deliveredOf res) r' left
  failed : ∀ e, failureOf res = some e → Trial.Refused faults n n' e ∨ (itemsOf left = [] ∧ stop.refusal = some e) ∨
    (e = tooMany ∧ ∃ maxBatch, c = .tryReadBatch maxBatch ∧ 65535 < crossings (batchMax r.batchLimit maxBatch) marks)
  nothing : failureOf res = none → foundBy res = false → c.looks r → itemsOf marks = [] ∧ stop.refusal = none
  found : foundBy res = true → itemsOf marks ≠ []

theorem someDelivered {out : List MessageRef} (delivered : Delivered env R d segs marks stop position out r' left)
    (some : out ≠ []) : itemsOf marks ≠ [] := by
  obtain ⟨done, rfl, same⟩ := delivered.split
  intro none
  rw [itemsAppend, List.append_eq_nil_iff] at none
  rw [none.1] at same
  exact some (List.map_eq_nil_iff.mp same)

theorem Delivered.kept (delivered : Delivered env R d segs marks stop position [] r' left) :
    itemsOf marks = itemsOf left := by
  obtain ⟨done, rfl, same⟩ := delivered.split
  have none : itemsOf done = [] := List.map_eq_nil_iff.mp same.symm
  rw [itemsAppend, none, List.nil_append]

theorem Failed.answer {n' : Nat} {e : IoError} (why : Failed faults n n' left stop e) (many : Prop) :
    Trial.Refused faults n n' e ∨ (itemsOf left = [] ∧ stop.refusal = some e) ∨ many := by
  rcases why with refused | ⟨rfl, stopped⟩
  · exact .inl refused
  · exact .inr (.inl ⟨rfl, stopped⟩)

theorem askSpec (view : View env R d segs) (ahead : Ahead env R d segs r marks stop) (enough : marks.length < fuel)
    (c : ReadCall) : Trial.Spec d faults r n (ask env fuel c) fun res r' n' =>
      ∃ left, Answered env R d segs faults marks stop r n c res r' n' left := by
  have single (c : ReadCall) : Trial.Spec d faults r n
      (do return .message (← tryRead env fuel)) fun res r' n' =>
        ∃ left, Answered env R d segs faults marks stop r n c res r' n' left := by
    refine Trial.specSeq (tryReadSpec view ahead enough) ?_ ?_
    · rintro msg r1 n1 _ post
      cases msg with
      | none =>
        obtain ⟨empty, stopped, delivered⟩ := post
        exact Trial.specRet ⟨[], delivered, nofun, fun _ _ _ => ⟨empty, stopped⟩, nofun⟩
      | some msg =>
        obtain ⟨left, delivered⟩ := post
        exact Trial.specRet ⟨left, delivered, nofun, nofun, fun _ => someDelivered delivered nofun⟩
    · rintro e r1 n1 _ ⟨left, delivered, why⟩
      refine ⟨left, delivered, ?_, nofun, nofun⟩
      rintro _ ⟨⟩
      exact why.answer _
  cases c with
  | tryRead => exact single .tryRead
  | tryReadOwned => exact single .tryReadOwned
  | readOwnedInto max =>
    show Trial.Spec d faults r n (readOwnedLoop env fuel (max.elim u64Max UInt64.toNat) [] >>= _) _
    refine Trial.specSeq (readOwnedSpec view ahead enough _ _) ?_ ?_
    · rintro _ r1 n1 _ ⟨more, result, left, same, delivered, why⟩
      cases same
      refine Trial.specRet ⟨left, delivered, ?_, ?_, ?_⟩
      · intro e failed
        cases result with
        | ok _ => cases failed
        | error e' =>
          cases failed
          exact why.2.answer _
      · intro fine none looks
        have none : more = [] := by simpa [foundBy, Reply.found] using none
        subst none
        cases result with
        | error e => cases fine
        | ok _ =>
          obtain ⟨_, all | ⟨rfl, stopped⟩⟩ := why
          · simp only [ReadCall.looks, decide_eq_true_eq] at looks
            exact absurd all.symm looks
          · exact ⟨delivered.kept, stopped⟩
      · intro some
        exact someDelivered delivered (by simpa [foundBy, Reply.found] using some)
    · rintro e r1 n1 _ ⟨_, _, _, bad, _⟩
      cases bad
  | tryReadBatch maxBatch =>
    refine Trial.specMono (batchSpec view ahead enough maxBatch) ?_
    rintro res r1 n1 _ post
    cases res with
    | ok reply =>
      obtain ⟨msgs, left, rfl, delivered, _, nothing, filled⟩ := post
      refine ⟨left, delivered, nofun, ?_, ?_⟩
      · intro _ missing looks
        have missing : msgs = none := by simpa [foundBy, Reply.found] using missing
        simp only [ReadCall.looks, decide_eq_true_eq] at looks
        exact (nothing missing).resolve_left looks
      · intro present
        obtain ⟨msgs, rfl⟩ := Option.isSome_iff_exists.mp present
        exact someDelivered delivered fun empty => filled (congrArg some empty)
    | error e =>
      obtain ⟨⟨left, delivered⟩, why⟩ := post
      refine ⟨left, delivered, ?_, nofun, nofun⟩
      rintro _ ⟨⟩
      rcases why with refused | ⟨empty, stopped⟩ | ⟨same, many⟩
      · exact .inl refused
      · exact .inr (.inl ⟨delivered.kept.symm.trans empty, stopped⟩)
      · exact .inr (.inr ⟨same, maxBatch, rfl, many⟩)
  | peekHeader =>
    show Trial.Spec d faults r n (peekHeader env fuel >>= _) _
    refine Trial.specSeq (peekSpec view ahead enough) ?_ ?_
    · rintro header r1 n1 _ ⟨left, delivered, post⟩
      refine Trial.specRet ⟨left, delivered, nofun, ?_, ?_⟩
      · intro _ none _
        cases header with
        | none => exact ⟨by rw [delivered.kept, post.1]; rfl, post.2⟩
        | some _ => cases none
      · intro some
        cases header with
        | none => cases some
        | some header =>
          obtain ⟨i, p, rest, items, _⟩ := post
          rw [items]
          exact List.cons_ne_nil _ _
    · rintro e r1 n1 _ ⟨left, delivered, why⟩
      refine ⟨left, delivered, ?_, nofun, nofun⟩
      rintro _ ⟨⟩
      exact why.answer _
  | pollForUserMessage =>
    show Trial.Spec d faults r n (pollForUserMessage env fuel >>= _) _
    refine Trial.specSeq (pollSpec view ahead enough) ?_ ?_
    · rintro ready r1 n1 _ ⟨left, delivered, post⟩
      refine Trial.specRet ⟨left, delivered, nofun, ?_, ?_⟩
      · intro _ none _
        cases ready with
        | false => exact ⟨by rw [delivered.kept, post.1]; rfl, post.2⟩
        | true => cases none
      · intro some
        cases ready with
        | false => cases some
        | true =>
          obtain ⟨i, p, rest, rfl⟩ := post
          rw [delivered.kept]
          exact List.cons_ne_nil _ _
    · rintro e r1 n1 _ ⟨left, delivered, why⟩
      refine ⟨left, delivered, ?_, nofun, nofun⟩
      rintro _ ⟨⟩
      exact why.answer _

/- Each error of a conversation is a refusal of the system or of a `Roll`, or of too long a batch. -/
def Excused (faults : Nat → Option IoError) (stop : Stop) (reply : Except IoError Reply) : Prop :=
  ∀ e, failureOf reply = some e → (∃ k, faults k = some e) ∨ stop.refusal = some e ∨ e = tooMany

theorem converseSpec (view : View env R d segs) (ahead : Ahead env R d segs r marks stop) (enough : marks.length < fuel)
    (calls : List ReadCall) : Trial.Spec d faults r n (converse env fuel calls) fun res r' _ =>
      ∃ replies left, res = .ok replies ∧ Delivered env R d segs marks stop r.position (deliveredBy replies) r' left ∧
        ∀ reply ∈ replies, Excused faults stop reply := by
  induction calls generalizing r marks n with
  | nil => exact Trial.specRet ⟨[], marks, rfl, deliveredNone (Passed.all marks) rfl ahead, nofun⟩
  | cons c calls ih =>
    unfold converse
    refine Trial.specAttempt (askSpec view ahead enough c) ?_
    rintro reply r1 n1 _ ⟨left, answered⟩
    have shorter := answered.delivered.shorter
    have excused : Excused faults stop reply := by
      intro e failure
      rcases answered.failed e failure with ⟨k, _, _, refused⟩ | ⟨_, stopped⟩ | ⟨many, _⟩
      · exact .inl ⟨k, refused⟩
      · exact .inr (.inl stopped)
      · exact .inr (.inr many)
    refine Trial.specSeq (ih answered.delivered.ahead (by omega)) ?_ ?_
    · rintro replies r2 n2 _ ⟨_, left', same, delivered, others⟩
      cases same
      refine Trial.specRet ⟨reply :: replies, left', rfl, answered.delivered.trans delivered, ?_⟩
      rintro _ (_ | ⟨_, mem⟩)
      · exact excused
      · exact others _ mem
    · rintro e r2 n2 _ ⟨_, _, bad, _⟩
      cases bad

end Calls

end Xchannel.ReadLaws
