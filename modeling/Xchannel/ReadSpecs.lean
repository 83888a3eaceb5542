import Xchannel.ReadPath

/-! Reading one record and polling, on a channel that stands still and with any calls refused: what is
ahead of the cursor is delivered in order, and an error leaves it as it was. -/
namespace Xchannel.ReadSpecs
open ByteMemory Format Storage RecordChain SegmentInvariant ChannelInvariant ChannelLog Observation SegmentWalk
  WalkSpecs WriterSpecs RecoverySpecs BuildSpecs ReaderOpen ReaderCalls ReadPath

variable {env : Env} {R s p : Nat} {d : Disk} {segs : List Seg} {r : Reader} {g g' : Seg} {faults : Nat → Option IoError}
  {n : Nat} {marks : List Mark} {stop : Stop}

section Slots

/- What the reader finds around a record it stands at. -/
structure Around (R : Nat) (d : Disk) (r : Reader) (g : Seg) (p : Nat) (k : HeaderType) : Prop where
  here : RecordAt R (d.data g.ino) p k
  split : ∃ before rest, g.slots = before ++ (p, k) :: rest ∧ Chain R (d.data g.ino) 0 before p ∧
    Chain R (d.data g.ino) (nextSlot (d.data g.ino) p) rest g.fin ∧
    r.position = (g.base + users before) % usize
  next : alignUp (p + (16 + lengthAt (d.data g.ino) p)) = nextSlot (d.data g.ino) p
  fits : p % R + (16 + lengthAt (d.data g.ino) p) ≤ R

theorem Standing.around (view : View env R d segs) (standing : Standing R d segs r s g p) {k : HeaderType}
    (here : RecordAt R (d.data g.ino) p k) : Around R d r g p k := by
  obtain ⟨names, inv⟩ := view.stored
  obtain ⟨ok, ends⟩ := inv.each s g standing.found
  obtain ⟨before, after, slots, front, back, index⟩ := standing.place
  obtain ⟨rest, same, tail⟩ := back.ahead (endsStop ends) here
  subst same
  have last : p + 16 + lengthAt (d.data g.ino) p ≤ g.fin := ok.slotEnd (x := (p, k)) (by simp [slots])
  have lt : g.fin + 56 ≤ d.len g.ino := ok.finLt
  have small : d.len g.ino ≤ 2 ^ 63 - 1 := ok.bound
  refine ⟨here, ⟨before, rest, slots, front, tail, index⟩, ?_, by have := here.fits; omega⟩
  rw [alignUpEq (by omega), ← Nat.add_assoc]
  rfl

/- A User record never ends its region, and a Skip always does. -/
theorem userInside (here : RecordAt R (d.data g.ino) p .user) :
    nextSlot (d.data g.ino) p % R ≠ 0 := by
  intro zero
  have same : nextSlot (d.data g.ino) p / R = p / R := here.placed
  have beyond := nextSlotGt (d.data g.ino) p
  have split := slotSplit R (nextSlot (d.data g.ino) p)
  have split' := slotSplit R p
  rw [same, zero] at split
  omega

/- Moved over the record at the cursor. -/
theorem Standing.moved (standing : Standing R d segs r s g p) {k : HeaderType} (around : Around R d r g p k)
    (maps : List MappedRegion) {position : Nat}
    (map : maps.getLast? = some ⟨s, nextSlot (d.data g.ino) p / R, g.ino⟩)
    (index : position = (r.position + if k = .user then 1 else 0) % usize) :
    Standing R d segs { r with readPosition := nextSlot (d.data g.ino) p, position := position, maps := maps } s g
      (nextSlot (d.data g.ino) p) := by
  obtain ⟨before, rest, slots, front, tail, place⟩ := around.split
  exact
    { standing with
      slot := rfl
      map := map
      place := ⟨before ++ [(p, k)], rest, by simp [slots], front.snoc around.here, tail, by
        show position = _
        rw [index, place, usersSnoc, Nat.mod_add_mod, Nat.add_assoc]⟩ }

end Slots

section Calls

/- Every slot of the chain, and the one where it ends, lies in a region the file has. -/
theorem Standing.mapped (view : View env R d segs) (standing : Standing R d segs r s g p) :
    headerMapped env R d ⟨s, p / R, g.ino⟩ (p % R) := by
  obtain ⟨names, inv⟩ := view.stored
  have ok : SegOk R s (d.files g.ino) g := (inv.each s g standing.found).1
  obtain ⟨_, after, _, _, back, _⟩ := standing.place
  have fits : p % R + 16 ≤ R := by
    cases back with
    | done => have := ok.room; omega
    | step here _ => have := here.fits; omega
  have region := Nat.div_le_div_right (c := R) back.le
  have inside : (g.fin / R + 1) * R ≤ d.len g.ino := ok.inside
  have below : (p / R + 1) * R ≤ (g.fin / R + 1) * R := Nat.mul_le_mul_right R (Nat.succ_le_succ region)
  have start : (p / R + 1) * R = p / R * R + R := by ring
  have page := pagePositive env
  have rounded : d.len g.ino ≤ (d.len g.ino + env.page - 1) / env.page * env.page := by
    have := Nat.lt_div_mul_add (a := d.len g.ino + env.page - 1) page
    omega
  unfold headerMapped
  simp only [Bool.decide_and, Bool.and_eq_true, decide_eq_true_eq]
  exact ⟨fits, by show _ + 16 ≤ _; omega⟩

/- The current region of a reader or of a scan, and the slot it looks at. -/
theorem headerFree (region : r.regionSize = R) {i : Nat} (map : r.maps.getLast? = some ⟨s, p / R, i⟩)
    (mapped : headerMapped env R d ⟨s, p / R, i⟩ (p % R)) (free : d.data i p = 0) :
    (currentMessageHeaderInfo env (p % R) : Trial Disk Reader IoError ScannedHeader) d faults r n =
      (.ok ⟨false, .user, 0, 0, 0, 0⟩, r, n) := by
  unfold currentMessageHeaderInfo
  rw [Trial.selfRun, map, region]
  dsimp only
  rw [slotSplit, Trial.lookRun, if_pos mapped, uncommittedOk free, Trial.liftOkRun, if_pos (by decide), Trial.pureRun]

theorem headerRead (region : r.regionSize = R) {i : Nat} (map : r.maps.getLast? = some ⟨s, p / R, i⟩)
    (mapped : headerMapped env R d ⟨s, p / R, i⟩ (p % R)) (flag : d.data i p = 1) {k : HeaderType}
    (kind : d.data i (p + 1) = k.raw) : (currentMessageHeaderInfo env (p % R) : Trial Disk Reader IoError ScannedHeader) d faults r n =
      (.ok ⟨true, k, lengthAt (d.data i) p, 16 + lengthAt (d.data i) p, (MessageHeader.read (d.data i) p).messageType,
        (MessageHeader.read (d.data i) p).userMetaU64⟩, r, n) := by
  unfold currentMessageHeaderInfo
  rw [Trial.selfRun, map, region]
  dsimp only
  rw [slotSplit, Trial.lookRun, if_pos mapped, committedOk flag, Trial.liftOkRun, if_neg (by decide), Trial.lookRun, kindOk kind,
    Trial.liftOkRun, Trial.pureRun, readLength]

theorem pruneRun (standing : Standing R d segs r s g p) :
    (pruneToCurrent : Trial Disk Reader IoError Unit) d faults r n =
      (.ok (), { r with maps := [⟨s, p / R, g.ino⟩] }, n) := by
  unfold pruneToCurrent
  rw [Trial.selfRun, standing.map]
  dsimp only
  rw [Trial.refuseRun]
  · rfl
  · rw [standing.sequence, standing.slot, standing.region]
    simp

theorem Standing.pruned (standing : Standing R d segs r s g p) :
    Standing R d segs { r with maps := [⟨s, p / R, g.ino⟩] } s g p :=
  { standing with map := rfl }

/- A call that is refused, or a region mapped. -/
theorem createSpec {base : Nat} (regions : Regions env R) (aligned : base % env.page = 0) {β : Type}
    {f : Unit → Trial Disk Reader IoError β} {Q : Except IoError β → Reader → Nat → Prop}
    (next : Trial.Spec d faults r (n + 1) (f ()) Q)
    (failed : ∀ e, Trial.Refused faults n (n + 1) e → Q (.error e) r (n + 1)) :
    Trial.Spec d faults r n (createReadOnly env base R >>= f) Q := by
  have large := regions.large
  unfold createReadOnly
  rw [alignedOk (by omega) regions.paged aligned]
  exact Trial.specSyscall next fun e refused => failed e ⟨n, Nat.le_refl _, Nat.lt_succ_self _, refused⟩

theorem regionBase (regions : Regions env R) (k : Nat) : k * R % env.page = 0 := regionAligned regions.paged k

theorem channelNext (view : View env R d segs) (found : segs[s]? = some g)
    (here : RecordAt R (d.data g.ino) p .channel) :
    nextSlot (d.data g.ino) p % R ≠ 0 ∧ nextSlot (d.data g.ino) p / R = p / R := by
  have large := view.regions.large
  obtain ⟨names, inv⟩ := view.stored
  have ok : SegOk R s (d.files g.ino) g := (inv.each s g found).1
  have first : p = 0 := here.placed
  subst first
  have next : nextSlot (d.data g.ino) 0 = 208 := by
    have length : lengthAt (d.data g.ino) 0 = 192 := ok.header.length
    unfold nextSlot
    rw [length]
    rfl
  rw [next, Nat.mod_eq_of_lt (by omega), Nat.div_eq_of_lt (by omega), Nat.zero_div]
  exact ⟨by omega, rfl⟩

theorem skipNext (regions : Regions env R) (here : RecordAt R (d.data g.ino) p .skip) :
    nextSlot (d.data g.ino) p % R = 0 ∧ nextSlot (d.data g.ino) p / R = p / R + 1 := by
  have large := regions.large
  have next : nextSlot (d.data g.ino) p = (p / R + 1) * R := here.placed
  rw [next]
  exact ⟨Nat.mul_mod_left _ _, Nat.mul_div_cancel _ (by omega)⟩

/- A service record moves the cursor to the next slot of the same region, or to the next region. -/
theorem serviceNext (view : View env R d segs) (found : segs[s]? = some g) {k : HeaderType}
    (here : RecordAt R (d.data g.ino) p k) (other : k ≠ .user) :
    (nextSlot (d.data g.ino) p % R = 0 ∧ nextSlot (d.data g.ino) p / R = p / R + 1) ∨
      (nextSlot (d.data g.ino) p % R ≠ 0 ∧ nextSlot (d.data g.ino) p / R = p / R) := by
  cases k with
  | user => exact absurd rfl other
  | roll => exact here.placed.elim
  | skip => exact .inl (skipNext view.regions here)
  | channel => exact .inr (channelNext view found here)

theorem Standing.small (standing : Standing R d segs r s g p) : r.position % usize = r.position := by
  obtain ⟨_, _, _, _, _, index⟩ := standing.place
  rw [index, Nat.mod_mod]

theorem switchSpec (view : View env R d segs) (standing : Standing R d segs r s g p) {idx : Nat} (ne : idx ≠ p / R) :
    Trial.Spec d faults r n (switchRegion env idx) fun res r' n' =>
      (res = .ok () ∧ r' = { r with maps := r.maps ++ [⟨s, idx, g.ino⟩] }) ∨
      (∃ e, res = .error e ∧ r' = r ∧ Trial.Refused faults n n' e) := by
  unfold switchRegion
  apply Trial.specSelf
  rw [standing.map, standing.region, standing.sequence, standing.ino]
  dsimp only
  rw [if_neg (by rintro ⟨_, same⟩; exact ne same.symm)]
  refine createSpec view.regions (regionBase view.regions idx) ?_ ?_
  · exact ⟨Nat.le_refl _, .inl ⟨rfl, rfl⟩⟩
  · intro e refused
    exact .inr ⟨e, rfl, rfl, refused⟩

theorem passSpec (view : View env R d segs) (standing : Standing R d segs r s g p) {k : HeaderType}
    (around : Around R d r g p k) (other : k ≠ .user) :
    Trial.Spec d faults r n (passService env (nextSlot (d.data g.ino) p)) fun res r' n' =>
      (res = .ok () ∧ r'.position = r.position ∧ Standing R d segs r' s g (nextSlot (d.data g.ino) p)) ∨
      (∃ e, res = .error e ∧ r' = r ∧ Trial.Refused faults n n' e) := by
  have index : r.position = (r.position + if k = .user then 1 else 0) % usize := by
    rw [if_neg other, Nat.add_zero, Standing.small standing]
  obtain rfl := standing.region
  unfold passService
  apply Trial.specSelf
  rcases serviceNext view standing.found around.here other with ⟨zero, region⟩ | ⟨inside, region⟩
  · rw [if_pos zero, region]
    refine Trial.specSeq (switchSpec view standing (by omega)) ?_ ?_
    · rintro _ r1 n1 _ (⟨_, rfl⟩ | ⟨e, bad, _⟩)
      · refine Trial.specSelf (Trial.specBecome ?_)
        have moved := Standing.moved standing around (r.maps ++ [⟨s, p / r.regionSize + 1, g.ino⟩])
          (by rw [region]; simp) index
        unfold Trial.Spec
        rw [pruneRun moved]
        exact ⟨Nat.le_refl _, .inl ⟨rfl, rfl, Standing.pruned moved⟩⟩
      · cases bad
    · rintro e r1 n1 _ (⟨bad, _⟩ | refused)
      · cases bad
      · exact .inr refused
  · rw [if_neg inside]
    refine ⟨Nat.le_refl _, .inl ⟨rfl, rfl, ?_⟩⟩
    exact Standing.moved standing around _ (by rw [region]; exact standing.map) index

theorem lastMap {maps : List MappedRegion} {map : MappedRegion} (last : maps.getLast? = some map) :
    maps[maps.length - 1]? = some map := by rw [← List.getLast?_eq_getElem?, last]

theorem edgeRun {names : Nat → Option Nat} (inv : Inv R { d with segments := names } segs) (found : segs[s]? = some g) (next : segs[s + 1]? = some g')
    (region : r.regionSize = R) {t : Nat} (map : r.maps.getLast? = some ⟨t, g.fin / R, g.ino⟩) :
    (rollEdge (r.maps.length - 1) (g.fin % R) 40 : Trial Disk Reader IoError RollEdge) d faults r n =
      (.ok ⟨s + 1, g'.ident.fileInstance, g'.base⟩, r, n) := by
  have room : g.fin % R + 56 ≤ R := (inv.each s g found).1.room
  have body : RollEdge.decode (slice (d.data g.ino) (g.fin + headerSlot) 40) =
      .ok ⟨s + 1, g'.ident.fileInstance, g'.base⟩ :=
    rollDecodes (d := { d with segments := names }) inv found next
  obtain rfl := region
  unfold rollEdge
  rw [Trial.selfRun, lastMap map]
  dsimp only
  rw [Trial.refuseRun _ _ _ _ (by show ¬ (r.regionSize < g.fin % r.regionSize + 16 + 40); omega), Trial.lookRun,
    slotSplit, body]
  rfl

/- The reader at the end of a segment has passed all its records. -/
theorem Standing.finished (standing : Standing R d segs r s g g.fin) :
    r.position = (g.base + users g.slots) % usize := by
  obtain ⟨before, after, slots, _, back, index⟩ := standing.place
  rw [index, slots, back.closed, List.append_nil]

/- The successor of a committed `Roll`: found, or refused for what the Roll leads to, or because a
call was. -/
theorem successorSpec (view : View env R d segs) (found : segs[s]? = some g) (next : segs[s + 1]? = some g') :
    Trial.Spec d faults r n (openSuccessor env R g.gen g.ino s g.ident.fileInstance
      ⟨s + 1, g'.ident.fileInstance, g'.base⟩) fun res r' n' => r' = r ∧
      ((res = .ok ⟨s + 1, g'.ident.fileInstance, g'.ino, g'.base⟩ ∧ d.segments (s + 1) = some g'.ino) ∨
        ∃ e, res = .error e ∧ (Trial.Refused faults n n' e ∨ ∀ t, following env R d s g g' t = (.error e, t))) := by
  obtain ⟨names, inv⟩ := view.stored
  refine Trial.specMono (successorAgrees R g.gen g.ino s g.ident.fileInstance ⟨s + 1, g'.ident.fileInstance, g'.base⟩
    d faults r n) ?_
  rintro res r' n' _ ⟨rfl, kept, result⟩
  refine ⟨rfl, ?_⟩
  rcases result with same | ⟨e, error, refused⟩
  · rcases view.rolls s g g' found next with named | ⟨e, refuses⟩
    · left
      refine ⟨?_, named⟩
      have run := followingOk (t := r') view.regions inv found next named
      rw [following] at run
      rw [same, run]
    · right
      refine ⟨e, ?_, .inr refuses⟩
      have run := refuses r'
      rw [following] at run
      rw [same, run]
  · exact .inr ⟨e, error, .inl refused⟩

theorem openNextSpec (view : View env R d segs) (standing : Standing R d segs r s g g.fin)
    (next : segs[s + 1]? = some g') :
    Trial.Spec d faults r n (openNextFile env ⟨s + 1, g'.ident.fileInstance, g'.base⟩) fun res r' n' =>
      (res = .ok () ∧ d.segments (s + 1) = some g'.ino ∧ r'.position = r.position ∧
        Standing R d segs r' (s + 1) g' 0) ∨
      ∃ e, res = .error e ∧ r' = r ∧
        (Trial.Refused faults n n' e ∨ ∀ t, following env R d s g g' t = (.error e, t)) := by
  obtain ⟨names, inv⟩ := view.stored
  have link := inv.link standing.found next
  have ok' := (inv.each (s + 1) g' next).1
  obtain ⟨_, small, _⟩ := linkSmall inv next
  obtain rfl := standing.region
  unfold openNextFile
  apply Trial.specSelf
  rw [standing.gen, standing.header, standing.sequence, standing.fileInstance]
  refine Trial.specSeq (successorSpec view standing.found next) ?_ ?_
  · rintro a r1 n1 _ ⟨rfl, ⟨same, named⟩ | ⟨e, bad, _⟩⟩
    · cases same
      refine ⟨Nat.le_refl _, .inl ⟨rfl, named, ?_, ?_⟩⟩
      · show g'.base = r1.position
        rw [Standing.finished standing, ← link.base]
        exact (Nat.mod_eq_of_lt small).symm
      · exact
          { found := next
            sequence := rfl
            ino := rfl
            header := rfl
            fileInstance := rfl
            region := rfl
            gen := link.gen.symm
            base := rfl
            slot := rfl
            map := by rw [Nat.zero_div]; rfl
            place := ⟨[], g'.slots, rfl, .done 0, ok'.chain, (Nat.mod_eq_of_lt small).symm⟩ }
    · cases bad
  · rintro e r1 n1 _ ⟨rfl, ⟨bad, _⟩ | failed⟩
    · cases bad
    · obtain ⟨e', same, why⟩ := failed
      cases same
      exact .inr ⟨_, rfl, rfl, why⟩

/-- What lies ahead of a reader, wherever it stands. -/
def Ahead (env : Env) (R : Nat) (d : Disk) (segs : List Seg) (r : Reader) (marks : List Mark) (stop : Stop) : Prop :=
  ∃ s g p, Standing R d segs r s g p ∧ Path env R d segs s p marks stop

/- Some of the marks ahead were passed, none of them a User record. -/
def Passed (marks left : List Mark) : Prop := ∃ skipped, marks = skipped ++ left ∧ itemsOf skipped = []

/- The place a scan reports, in the maps of the reader it leaves. -/
structure FoundAt (R : Nat) (d : Disk) (r : Reader) (i p : Nat) (found : FoundRecord) : Prop where
  map : ∃ t, r.maps[found.loc.mapIdx]? = some ⟨t, p / R, i⟩
  offset : found.loc.headerOffset = p % R
  length : found.loc.payloadLen = lengthAt (d.data i) p
  messageType : found.messageType = (MessageHeader.read (d.data i) p).messageType
  userMetaU64 : found.userMetaU64 = (MessageHeader.read (d.data i) p).userMetaU64

/-- How a scan for the next User record ends: at the open slot, at the next record, which is consumed
or not, or in an error that loses nothing. -/
def Scanned (env : Env) (R : Nat) (d : Disk) (segs : List Seg) (faults : Nat → Option IoError) (consume : Bool)
    (marks : List Mark) (stop : Stop) (position n : Nat) : Except IoError (Option FoundRecord) → Reader → Nat → Prop
  | .ok none, r, _ => itemsOf marks = [] ∧ stop.refusal = none ∧ r.position = position ∧ Ahead env R d segs r [] stop
  | .ok (some found), r, _ => ∃ i p rest, Passed marks (.user i p :: rest) ∧ FoundAt R d r i p found ∧
      r.position = (position + if consume then 1 else 0) % usize ∧
      Ahead env R d segs r (if consume then rest else .user i p :: rest) stop
  | .error e, r, n' => r.position = position ∧ ∃ left, Passed marks left ∧ Ahead env R d segs r left stop ∧
      (Trial.Refused faults n n' e ∨ (left = [] ∧ stop.refusal = some e))

theorem Passed.cons {left : List Mark} (h : Passed marks left) {mark : Mark} (none : mark.item? = none) :
    Passed (mark :: marks) left := by
  obtain ⟨skipped, rfl, nothing⟩ := h
  refine ⟨mark :: skipped, rfl, ?_⟩
  rw [itemsCons, none, nothing]
  rfl

theorem Passed.all (marks : List Mark) : Passed marks marks := ⟨[], rfl, rfl⟩

theorem Passed.items {left : List Mark} (h : Passed marks left) : itemsOf marks = itemsOf left := by
  obtain ⟨skipped, rfl, nothing⟩ := h
  rw [itemsAppend, nothing, List.nil_append]

/- One more mark before, that is no User record. -/
theorem Scanned.cons {consume : Bool} {position n₁ n₂ : Nat} {res : Except IoError (Option FoundRecord)}
    (h : Scanned env R d segs faults consume marks stop position n₁ res r n₂) (later : n ≤ n₁) {mark : Mark}
    (none : mark.item? = none) : Scanned env R d segs faults consume (mark :: marks) stop position n res r n₂ := by
  have same : itemsOf (mark :: marks) = itemsOf marks := by rw [itemsCons, none]; rfl
  match res, h with
  | .ok .none, ⟨empty, rest⟩ => exact ⟨same.trans empty, rest⟩
  | .ok (some found), ⟨i, p, rest, passed, more⟩ => exact ⟨i, p, rest, passed.cons none, more⟩
  | .error e, ⟨kept, left, passed, ahead, why⟩ =>
    refine ⟨kept, left, passed.cons none, ahead, ?_⟩
    rcases why with refused | stopped
    · exact .inl (refused.widen later (Nat.le_refl _))
    · exact .inr stopped

theorem markService {i : Nat} {k : HeaderType} (other : k ≠ .user) : (markOf i p k).item? = none := by
  cases k <;> first | rfl | exact absurd rfl other

/- The head of each scan: the slot at the cursor, in the region mapped last. -/
theorem Standing.free (standing : Standing R d segs r s g g.fin)
    (mapped : headerMapped env R d ⟨s, g.fin / R, g.ino⟩ (g.fin % R)) (free : d.data g.ino g.fin = 0) :
    (currentMessageHeaderInfo env (r.readPosition % r.regionSize) : Trial Disk Reader IoError ScannedHeader) d faults r n =
      (.ok ⟨false, .user, 0, 0, 0, 0⟩, r, n) := by
  rw [standing.slot, standing.region]
  exact headerFree standing.region standing.map mapped free

theorem Standing.read (standing : Standing R d segs r s g p)
    (mapped : headerMapped env R d ⟨s, p / R, g.ino⟩ (p % R)) (flag : d.data g.ino p = 1) {k : HeaderType}
    (kind : d.data g.ino (p + 1) = k.raw) :
    (currentMessageHeaderInfo env (r.readPosition % r.regionSize) : Trial Disk Reader IoError ScannedHeader) d faults r n =
      (.ok ⟨true, k, lengthAt (d.data g.ino) p, 16 + lengthAt (d.data g.ino) p,
        (MessageHeader.read (d.data g.ino) p).messageType, (MessageHeader.read (d.data g.ino) p).userMetaU64⟩, r, n) := by
  rw [standing.slot, standing.region]
  exact headerRead standing.region standing.map mapped flag kind

/- A `Roll` that cannot be followed is the one its path says. -/
theorem refusedSame {e e' : IoError} (refuses : ∀ t, following env R d s g g' t = (.error e, t))
    (refuses' : ∀ t, following env R d s g g' t = (.error e', t)) (r : Reader) : e = e' := by
  have same := (refuses r).symm.trans (refuses' r)
  injection same with error
  injection error

/- A User record leaves room for the next slot, so consuming it maps nothing. -/
theorem takeRun (standing : Standing R d segs r s g p) (around : Around R d r g p .user) :
    (takeRecord env (nextSlot (d.data g.ino) p) : Trial Disk Reader IoError Unit) d faults r n =
      (.ok (), { r with position := (r.position + 1) % usize, readPosition := nextSlot (d.data g.ino) p }, n) := by
  have inside := userInside around.here
  obtain rfl := standing.region
  unfold takeRecord
  rw [Trial.selfRun, if_neg inside]
  rfl

/- A round that passes a service record, and one that follows a `Roll`, of whichever scan. -/
theorem passThen (view : View env R d segs) {β : Type} {rest : Trial Disk Reader IoError β}
    {Q : Except IoError β → Reader → Nat → Prop} (standing : Standing R d segs r s g p) {k : HeaderType}
    (around : Around R d r g p k) (other : k ≠ .user)
    (next : ∀ r' n', n ≤ n' → r'.position = r.position → Standing R d segs r' s g (nextSlot (d.data g.ino) p) →
      Trial.Spec d faults r' n' rest Q)
    (failed : ∀ e n', Trial.Refused faults n n' e → Q (.error e) r n') :
    Trial.Spec d faults r n (passService env (nextSlot (d.data g.ino) p) >>= fun _ => rest) Q := by
  refine Trial.specSeq (passSpec view standing around other) ?_ ?_
  · rintro _ r1 n1 later (⟨_, kept, moved⟩ | ⟨e, bad, _⟩)
    · exact next r1 n1 later kept moved
    · cases bad
  · rintro e r1 n1 later (⟨bad, _⟩ | ⟨e', same, rfl, refused⟩)
    · cases bad
    · cases same
      exact failed _ n1 refused

theorem rollThen (view : View env R d segs) {β : Type} {rest : Trial Disk Reader IoError β}
    {Q : Except IoError β → Reader → Nat → Prop} (standing : Standing R d segs r s g g.fin)
    (next : segs[s + 1]? = some g')
    (moved : ∀ r' n', n ≤ n' → d.segments (s + 1) = some g'.ino → r'.position = r.position →
      Standing R d segs r' (s + 1) g' 0 → Trial.Spec d faults r' n' rest Q)
    (failed : ∀ e n', (Trial.Refused faults n n' e ∨ ∀ t, following env R d s g g' t = (.error e, t)) →
      Q (.error e) r n') :
    Trial.Spec d faults r n (rollEdge (r.maps.length - 1) (r.readPosition % r.regionSize) 40 >>= fun edge =>
      openNextFile env edge >>= fun _ => rest) Q := by
  obtain ⟨names, inv⟩ := view.stored
  rw [standing.slot, standing.region]
  refine Trial.specRun (edgeRun inv standing.found next standing.region standing.map) ?_
  refine Trial.specSeq (openNextSpec view standing next) ?_ ?_
  · rintro _ r1 n1 later (⟨_, named, kept, there⟩ | ⟨e, bad, _⟩)
    · exact moved r1 n1 later named kept there
    · cases bad
  · rintro e r1 n1 later (⟨bad, _⟩ | ⟨e', same, rfl, why⟩)
    · cases bad
    · cases same
      exact failed _ n1 why

theorem namedFollows (view : View env R d segs) (found : segs[s]? = some g) (next : segs[s + 1]? = some g')
    (named : d.segments (s + 1) = some g'.ino) {e : IoError}
    (refuses : ∀ t, following env R d s g g' t = (.error e, t)) (r : Reader) : False := by
  obtain ⟨names, inv⟩ := view.stored
  have same := (followingOk (t := r) view.regions inv found next named).symm.trans (refuses r)
  injection same with bad
  cases bad

/- The round of a scan at a committed `Roll`. -/
theorem rollRound {names : Nat → Option Nat} (inv : Inv R { d with segments := names } segs) {consume : Bool} {fuel : Nat}
    {Q : Except IoError (Option FoundRecord) → Reader → Nat → Prop} (standing : Standing R d segs r s g g.fin)
    (mapped : headerMapped env R d ⟨s, g.fin / R, g.ino⟩ (g.fin % R)) (next : segs[s + 1]? = some g')
    (flag : d.data g.ino g.fin = 1)
    (rest : Trial.Spec d faults r n (rollEdge (r.maps.length - 1) (r.readPosition % r.regionSize) 40 >>= fun edge =>
      openNextFile env edge >>= fun _ => scanLoop env consume fuel) Q) :
    Trial.Spec d faults r n (scanLoop env consume (fuel + 1)) Q := by
  have link : Link s (d.data g.ino) g g' := inv.link standing.found next
  have room : g.fin % R + 56 ≤ R := (inv.each s g standing.found).1.room
  unfold scanLoop
  apply Trial.specSelf
  refine Trial.specRun (Standing.read standing mapped flag link.kind) ?_
  rw [if_neg (by simp)]
  refine Trial.specRefuse ?_ ?_
  · rw [standing.slot, standing.region, link.length]
    dsimp only
    omega
  rw [link.length]
  exact rest

theorem scanSpec (view : View env R d segs) {consume : Bool} (path : Path env R d segs s p marks stop)
    (standing : Standing R d segs r s g p) {fuel : Nat} (enough : marks.length < fuel) :
    Trial.Spec d faults r n (scanLoop env consume fuel)
      (Scanned env R d segs faults consume marks stop r.position n) := by
  obtain ⟨names, inv⟩ := view.stored
  obtain ⟨fuel, rfl⟩ := Nat.exists_eq_succ_of_ne_zero (Nat.ne_of_gt (Nat.lt_of_le_of_lt (Nat.zero_le _) enough))
  -- along the path: each service record and each Roll takes one round
  induction path generalizing r g n fuel with
  | @caughtUp s h found free =>
    obtain rfl : g = h := Option.some.inj (standing.found.symm.trans found)
    unfold scanLoop
    apply Trial.specSelf
    refine Trial.specRun (Standing.free standing (Standing.mapped view standing) free) ?_
    exact ⟨Nat.le_refl _, rfl, rfl, rfl, s, g, g.fin, standing, .caughtUp found free⟩
  | @record s p h k marks stop found here tail ih =>
    obtain rfl : g = h := Option.some.inj (standing.found.symm.trans found)
    have around := Standing.around view standing here
    have fits := around.fits
    have service (other : k ≠ .user) : Trial.Spec d faults r n
        (passService env (nextSlot (d.data g.ino) p) >>= fun _ => scanLoop env consume fuel)
        (Scanned env R d segs faults consume (markOf g.ino p k :: marks) stop r.position n) := by
      have none := markService (i := g.ino) (p := p) other
      refine passThen view standing around other ?_ ?_
      · intro r' n' later kept moved
        obtain ⟨fuel, rfl⟩ : ∃ f, fuel = f + 1 := ⟨fuel - 1, by simp only [List.length_cons] at enough; omega⟩
        rw [← kept]
        exact Trial.specMono (ih moved fuel (by simp only [List.length_cons] at enough; omega))
          fun _ _ _ _ post => post.cons later none
      · exact fun e n' refused => ⟨rfl, _, Passed.all _, ⟨s, g, p, standing, .record found here tail⟩, .inl refused⟩
    unfold scanLoop
    apply Trial.specSelf
    refine Trial.specRun (Standing.read standing (Standing.mapped view standing) here.committed here.kind) ?_
    rw [if_neg (by simp)]
    refine Trial.specRefuse ?_ ?_
    · rw [standing.slot, standing.region]
      dsimp only
      omega
    dsimp only
    cases k with
    | roll => exact here.placed.elim
    | skip =>
      rw [standing.slot, around.next]
      exact service (by decide)
    | channel =>
      rw [standing.slot, around.next]
      exact service (by decide)
    | user =>
      dsimp only
      have place : FoundAt R d r g.ino p ⟨⟨r.maps.length - 1, p % R, lengthAt (d.data g.ino) p⟩,
          (MessageHeader.read (d.data g.ino) p).messageType, (MessageHeader.read (d.data g.ino) p).userMetaU64⟩ :=
        ⟨⟨s, lastMap standing.map⟩, rfl, rfl, rfl, rfl⟩
      cases consume with
      | false =>
        rw [standing.slot, standing.region, if_neg (by decide)]
        refine Trial.specRet ⟨g.ino, p, marks, Passed.all _, place, ?_, s, g, p, standing, .record found here tail⟩
        exact (Standing.small standing).symm
      | true =>
        rw [if_pos rfl, standing.slot, standing.region, around.next]
        refine Trial.specRun (takeRun standing around) ?_
        refine Trial.specRet ⟨g.ino, p, marks, Passed.all _, ⟨place.map, rfl, rfl, rfl, rfl⟩, rfl, s, g, _, ?_, tail⟩
        exact Standing.moved standing around _ (by rw [here.placed]; exact standing.map) rfl
  | @roll s h g' marks stop found next flag named tail ih =>
    obtain rfl : g = h := Option.some.inj (standing.found.symm.trans found)
    obtain ⟨fuel, rfl⟩ : ∃ f, fuel = f + 1 := ⟨fuel - 1, by simp only [List.length_cons] at enough; omega⟩
    refine rollRound inv standing (Standing.mapped view standing) next flag (rollThen view standing next ?_ ?_)
    · intro r' n' later _ kept there
      rw [← kept]
      exact Trial.specMono (ih there fuel (by simp only [List.length_cons] at enough; omega))
        fun _ _ _ _ post => post.cons later rfl
    · rintro e n' (refused | refuses)
      · exact ⟨rfl, _, Passed.all _, ⟨s, g, g.fin, standing, .roll found next flag named tail⟩, .inl refused⟩
      · exact (namedFollows view found next named refuses r).elim
  | @refused s h g' e found next flag refuses =>
    obtain rfl : g = h := Option.some.inj (standing.found.symm.trans found)
    refine rollRound inv standing (Standing.mapped view standing) next flag (rollThen view standing next ?_ ?_)
    · intro r' n' later named _ _
      exact (namedFollows view found next named refuses r).elim
    · intro e' n' why
      refine ⟨rfl, _, Passed.all _, ⟨s, g, g.fin, standing, .refused found next flag refuses⟩, ?_⟩
      rcases why with refused | refuses'
      · exact .inl refused
      · exact .inr ⟨rfl, by rw [refusedSame refuses refuses' r]⟩

/- The poll is the scan that consumes nothing, and tells only whether a record is there. -/
theorem pollScan (fuel : Nat) :
    (pollLoop env fuel : Trial Disk Reader IoError Bool) = Option.isSome <$> scanLoop env false fuel := by
  induction fuel with
  | zero => rfl
  | succ fuel ih =>
    unfold pollLoop scanLoop
    rw [map_bind]
    refine bind_congr fun r => ?_
    dsimp only
    rw [map_bind]
    refine bind_congr fun hdr => ?_
    by_cases committed : hdr.isCommitted
    · rw [if_neg (not_not.mpr committed), if_neg (not_not.mpr committed), map_bind]
      refine bind_congr fun _ => ?_
      cases hdr.headerType with
      | user => rfl
      | roll => simp only [ih, map_bind]
      | skip => simp only [ih, map_bind]
      | channel => simp only [ih, map_bind]
    · rw [if_pos committed, if_pos committed]
      rfl

end Calls
end Xchannel.ReadSpecs
