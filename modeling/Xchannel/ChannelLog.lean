import Xchannel.ChannelSteps

/-! The log a channel carries: the User records of its segments, in order. Steps only ever append
to it, one record for each release store of a User record's committed byte. -/
namespace Xchannel.ChannelLog
open ByteMemory Format Storage RecordChain SegmentInvariant ChannelInvariant ChannelSteps CrashProgram

/-- What a reader delivers of one User record. -/
structure Record where
  messageType : UInt16
  userMetaU64 : UInt64
  payload : List UInt8
  deriving DecidableEq, Repr

def recordAt (m : Mem) (p : Nat) : Record :=
  ⟨(MessageHeader.read m p).messageType, (MessageHeader.read m p).userMetaU64, slice m (p + 16) (lengthAt m p)⟩

def slotRecords (m : Mem) (slots : Slots) : List Record :=
  (slots.filter fun x => x.2 = .user).map fun x => recordAt m x.1

def records (d : Disk) (segs : List Seg) : List Record :=
  segs.flatMap fun g => slotRecords (d.data g.ino) g.slots

/-- The records whose committed byte an operation stores. -/
def committedBy (d : Disk) : Op → List Record
  | .commit ino off => if d.data ino (off + 1) = HeaderType.user.raw then [recordAt (d.data ino) off] else []
  | _ => []

def committedLog (d : Disk) : List Op → List Record
  | [] => []
  | op :: ops => committedBy d op ++ committedLog (d.apply op) ops

theorem committedLogAppend (d : Disk) (first rest : List Op) :
    committedLog d (first ++ rest) = committedLog d first ++ committedLog (run Disk.apply d first) rest := by
  induction first generalizing d with
  | nil => rfl
  | cons op ops ih => simp only [List.cons_append, committedLog, runCons, ih, List.append_assoc]

section Segments
variable {R s : Nat} {d : Disk} {segs : List Seg} {g : Seg}

theorem slotRecordsLength (m : Mem) (slots : Slots) : (slotRecords m slots).length = users slots := by
  simp [slotRecords, users]

theorem slotRecordsSnoc (m : Mem) (slots : Slots) (p : Nat) (t : HeaderType) :
    slotRecords m (slots ++ [(p, t)]) = slotRecords m slots ++ if t = .user then [recordAt m p] else [] := by
  unfold slotRecords
  rw [List.filter_append, List.map_append]
  by_cases h : t = .user <;> simp [h]

/- The committed byte is no part of what a reader delivers. -/
theorem recordCongr {m m' : Mem} {p : Nat} (same : ∀ a, p < a → a < p + 16 + lengthAt m p → m' a = m a) :
    recordAt m' p = recordAt m p := by
  have field (off width : Nat) (lo : 1 ≤ off) (hi : off + width ≤ 16) :
      readLE m' (p + off) width = readLE m (p + off) width :=
    readLECongr fun a l h => same a (by omega) (by omega)
  unfold recordAt MessageHeader.read lengthAt
  rw [field 2 2 (by omega) (by omega), field 4 4 (by omega) (by omega),
    field 8 8 (by omega) (by omega),
    sliceCongr fun a lo hi => same a (by omega) (by unfold lengthAt; omega)]

theorem slotRecordsCongr {m m' : Mem} {slots : Slots}
    (same : ∀ x ∈ slots, x.2 = .user → ∀ a, x.1 ≤ a → a < x.1 + 16 + lengthAt m x.1 → m' a = m a) :
    slotRecords m' slots = slotRecords m slots := by
  apply List.map_congr_left
  intro x hx
  obtain ⟨mem, user⟩ := List.mem_filter.mp hx
  exact recordCongr fun a lo hi => same x mem (by simpa using user) a (by omega) hi

/- Where the records of a segment lie: below its end, and above the header unless it is the header. -/
theorem recordBytes {f : File} (ok : SegOk R s f g) {x : Nat × HeaderType} (hx : x ∈ g.slots) {a : Nat}
    (ne : x.2 ≠ .channel) (lo : x.1 ≤ a) (hi : a < x.1 + 16 + lengthAt f.data x.1) :
    a < g.fin ∧ ¬ Adjusted a := by
  have last := ok.slotEnd hx
  refine ⟨by omega, ?_⟩
  rcases ok.slotCases hx with rfl | later
  · exact absurd rfl ne
  · unfold Adjusted
    omega

theorem slotRecordsFrame {f : File} (f' : File) (ok : SegOk R s f g) (same : Frame g.fin f.data f'.data) :
    slotRecords f'.data g.slots = slotRecords f.data g.slots := by
  apply slotRecordsCongr
  intro x hx user a lo hi
  obtain ⟨below, fixed⟩ := recordBytes ok hx (by rw [user]; decide) lo hi
  exact same a below fixed

end Segments

/-- What every step keeps of the published segments: their bytes below their end, and the whole
`Roll` of a segment once it is committed. -/
structure Preserves (d d' : Disk) (segs : List Seg) : Prop where
  below : ∀ (s : Nat) (g : Seg), segs[s]? = some g → Frame g.fin (d.data g.ino) (d'.data g.ino)
  rolled : ∀ (s : Nat) (g g' : Seg), segs[s]? = some g → segs[s + 1]? = some g' → d.data g.ino g.fin = 1 →
    ∀ a, g.fin ≤ a → a < g.fin + 56 → d'.data g.ino a = d.data g.ino a

section Steps
variable {R : Nat} {π : Policy} {d : Disk} {segs segs' : List Seg} {op : Op}

theorem preservesSetFile {i : Nat} {f : File}
    (ok : ∀ s g, segs[s]? = some g → g.ino = i → Frame g.fin (d.data i) f.data ∧
      ∀ g', segs[s + 1]? = some g' → d.data i g.fin = 1 →
        ∀ a, g.fin ≤ a → a < g.fin + 56 → f.data a = d.data i a) :
    Preserves d (d.setFile i f) segs := by
  constructor
  · intro s g found
    by_cases same : g.ino = i
    · rw [same, setFileData]
      exact (ok s g found same).1
    · rw [setFileDataOther f same]
      intro a _ _
      rfl
  · intro s g g' found next flag a lo hi
    by_cases same : g.ino = i
    · rw [same] at flag ⊢
      rw [setFileData]
      exact (ok s g found same).2 g' next flag a lo hi
    · rw [setFileDataOther f same]

theorem preservesApart {i : Nat} {f : File} (apart : i ∉ segs.map Seg.ino) :
    Preserves d (d.setFile i f) segs :=
  preservesSetFile fun _ _ found same => absurd (same ▸ inoMem found) apart

/- The newest segment has no committed `Roll`, so a change above its end is enough to exclude. -/
theorem preservesTop {s : Nat} {g : Seg} {f : File} (inv : Inv R d segs) (found : segs[s]? = some g)
    (top : s + 1 = segs.length) (same : Frame g.fin (d.data g.ino) f.data) :
    Preserves d (d.setFile g.ino f) segs := by
  refine preservesSetFile fun s' g' found' ino => ?_
  have eq := inv.sameIno found' found ino
  subst eq
  cases Option.some.inj (found.symm.trans found')
  refine ⟨same, fun h next => ?_⟩
  rw [noNext top] at next
  contradiction

/- A store to adjusted bytes only. -/
theorem preservesAdjusted {s : Nat} {g : Seg} {off : Nat} {bytes : List UInt8} (inv : Inv R d segs)
    (found : segs[s]? = some g) (only : ∀ a, off ≤ a → a < off + bytes.length → Adjusted a) :
    Preserves d (d.apply (.store g.ino off bytes)) segs := by
  refine preservesSetFile fun s' g' found' ino => ?_
  have eq := inv.sameIno found' found ino
  subst eq
  cases Option.some.inj (found.symm.trans found')
  have ge := (inv.each s' g found).1.finGe
  refine ⟨frameWrite fun a lo hi => .inr (only a lo hi), fun h next flag a lo hi => writeOutside ?_⟩
  by_contra inside
  have adjusted := only a (by omega) (by omega)
  unfold Adjusted at adjusted
  omega

theorem stepPreserves (inv : Inv R d segs) (step : Step R π d segs op segs') :
    Preserves d (d.apply op) segs := by
  have idle {d' : Disk} (same : d'.files = d.files) : Preserves d d' segs := by
    have data (i : Nat) : d'.data i = d.data i := by simp only [Disk.data, same]
    exact ⟨fun s g _ a _ _ => by rw [data], fun s g g' _ _ _ a _ _ => by rw [data]⟩
  cases step with
  | scratch found top settled above free =>
    exact preservesTop inv found top (frameWrite fun a lo _ => .inl (by omega))
  | record found top settled kind data placed fits room inside signed joined bounded =>
    exact preservesTop inv found top (frameWrite fun a lo _ => .inl lo)
  | count found top =>
    refine preservesAdjusted inv found fun a lo hi => .inl ?_
    rw [toLELength] at hi
    omega
  | position found top counted =>
    refine preservesAdjusted inv found fun a lo hi => .inl ?_
    rw [toLELength] at hi
    omega
  | wakeFlags found =>
    refine preservesAdjusted inv found fun a lo hi => .inr (.inl ?_)
    simp at hi
    omega
  | wakeWord found =>
    refine preservesAdjusted inv found fun a lo hi => .inr (.inr ?_)
    rw [toLELength] at hi
    omega
  | stamp named => exact preservesApart (spareApart inv named).2.1
  | spareFlags named => exact preservesApart (spareApart inv named).2.1
  | spareLen named longer bound => exact preservesApart (spareApart inv named).2.1
  | @publish i ident gen named blank parented rolled joined =>
    have same := preservesApart (d := d) (f := { d.files i with data := write (d.data i) 192 [1] })
      (spareApart inv named).2.1
    exact ⟨same.below, same.rolled⟩
  | @commitRoll s g g' found next =>
    refine preservesSetFile fun s' h found' ino => ?_
    have eq := inv.sameIno found' found ino
    subst eq
    cases Option.some.inj (found.symm.trans found')
    refine ⟨frameWrite fun a lo _ => .inl lo, fun h _ flag a lo hi => ?_⟩
    by_cases here : a = g.fin
    · subst here
      rw [flag]
      exact writeInside (i := 0) rfl
    · exact writeOutside (by simp; omega)
  | terminal found next rolled =>
    refine preservesAdjusted inv found fun a lo hi => .inl ?_
    rw [toLELength] at hi
    omega
  | @grow s n g found longer bound =>
    refine preservesSetFile fun s' h found' ino => ?_
    have eq := inv.sameIno found' found ino
    subst eq
    cases Option.some.inj (found.symm.trans found')
    have lt := (inv.each s' g found).1.finLt
    have lenEq : d.len g.ino = (d.files g.ino).len := rfl
    have same (a : Nat) (h : a < g.fin + 56) :
        (if a < n ∧ a < d.len g.ino then d.data g.ino a else 0) = d.data g.ino a :=
      if_pos ⟨by omega, by omega⟩
    exact ⟨fun a below _ => same a (by omega), fun h _ _ a _ hi => same a hi⟩
  | create =>
    have fresh : d.fresh ∉ segs.map Seg.ino := fun mem => by
      obtain ⟨g, mem, same⟩ := List.mem_map.mp mem
      have := inv.old g mem
      omega
    have same := preservesApart (d := d) (f := ⟨0, fun _ => 0⟩) fresh
    exact ⟨same.below, same.rolled⟩
  | attemptStore mem => exact preservesApart (inv.attempts _ mem).2.1
  | attemptLen mem => exact preservesApart (inv.attempts _ mem).2.1
  | install attempt free spare =>
    refine idle ?_
    simp only [Disk.apply, attempt]
  | discard => exact idle rfl
  | prune kept least behind joined => exact idle rfl
  | sweep => exact idle rfl

theorem recordsKept {d' : Disk} (inv : Inv R d segs) (kept : Preserves d d' segs) :
    records d' segs = records d segs := by
  apply List.flatMap_congr
  intro g mem
  obtain ⟨s, found⟩ := List.mem_iff_getElem?.mp mem
  exact slotRecordsFrame (d'.files g.ino) (inv.each s g found).1 (kept.below s g found)

theorem splitTop {s : Nat} {g : Seg} (found : segs[s]? = some g) (top : s + 1 = segs.length) :
    segs = segs.take s ++ [g] := by
  obtain ⟨low, at_s⟩ := List.getElem?_eq_some_iff.mp found
  have whole := List.take_concat_get' segs s low
  rw [at_s, top, List.take_length] at whole
  exact whole.symm

theorem setTop {s : Nat} {g : Seg} (top : s + 1 = segs.length) : segs.set s g = segs.take s ++ [g] := by
  rw [List.set_eq_take_append_cons_drop, if_pos (by omega), top, List.drop_length]

/- The log grows by exactly the User record whose committed byte the step stores. -/
theorem stepRecords (inv : Inv R d segs) (step : Step R π d segs op segs') :
    records (d.apply op) segs' = records d segs ++ committedBy d op := by
  have kept := recordsKept inv (stepPreserves inv step)
  cases step with
  | @record s g t found top settled kind data placed fits room inside signed joined bounded =>
    rw [setTop top]
    have whole := splitTop found top
    have ok := (inv.each s g found).1
    have other (a : Nat) (h : a ≠ g.fin) : (d.apply (.commit g.ino g.fin)).data g.ino a = d.data g.ino a := by
      rw [Disk.apply, setFileData]
      exact writeOutside (by simp; omega)
    have last := slotRecordsFrame ((d.apply (.commit g.ino g.fin)).files g.ino) ok
      fun a below _ => other a (by omega)
    have new : recordAt ((d.apply (.commit g.ino g.fin)).data g.ino) g.fin = recordAt (d.data g.ino) g.fin :=
      recordCongr fun a lo _ => other a (by omega)
    rw [whole] at kept
    unfold records at kept ⊢
    rw [whole]
    simp only [List.flatMap_append, List.flatMap_cons, List.flatMap_nil, List.append_nil, push] at kept ⊢
    rw [slotRecordsSnoc, new, ← List.append_assoc, List.take_left' (by simp; omega), kept]
    rw [committedBy, kind]
    rcases data with rfl | rfl <;> rfl
  | publish named blank parented rolled joined =>
    show List.flatMap _ _ = _
    rw [List.flatMap_append]
    show records _ segs ++ [] = _
    rw [kept, committedBy]
    simp
  | commitRoll found next =>
    rw [kept, committedBy, if_neg (by rw [(inv.link found next).kind]; decide), List.append_nil]
  | _ => exact kept.trans (List.append_nil _).symm

end Steps

section Uniqueness
variable {R s : Nat} {d : Disk} {segs segs' : List Seg} {g g' : Seg}

/- No further record of the chain starts where a segment ends. -/
theorem endsStop {m : Mem} (ends : Ends segs s m g) (t : HeaderType) : ¬ RecordAt R m g.fin t := by
  intro here
  unfold Ends at ends
  cases next : segs[s + 1]? with
  | none =>
    rw [next] at ends
    have free := ends.free
    rw [here.committed] at free
    contradiction
  | some h =>
    rw [next] at ends
    have kind := ends.1.kind
    rw [here.kind] at kind
    have notRoll := here.notRoll
    cases t <;> contradiction

theorem segUnique {f : File} (ok : SegOk R s f g) (ok' : SegOk R s f g') (ino : g.ino = g'.ino)
    (stop : ∀ t, ¬ RecordAt R f.data g.fin t) (stop' : ∀ t, ¬ RecordAt R f.data g'.fin t) : g = g' := by
  obtain ⟨slots, fin⟩ := ok.chain.unique ok'.chain stop stop'
  have ident : g.ident = g'.ident := by
    have same := ok.header.ident.symm.trans ok'.header.ident
    exact Except.ok.inj same
  have base : g.base = g'.base := ok.base.symm.trans ok'.base
  have gen : g.gen = g'.gen := ok.gen.symm.trans ok'.gen
  cases g
  cases g'
  simp_all

/- The published segments are determined by the disk. -/
theorem segsUnique (inv : Inv R d segs) (inv' : Inv R d segs') : segs = segs' := by
  have inos : segs.map Seg.ino = segs'.map Seg.ino := inv.history.symm.trans inv'.history
  have lengths : segs.length = segs'.length := by simpa using congrArg List.length inos
  apply List.ext_getElem lengths
  intro k low low'
  have found : segs[k]? = some segs[k] := List.getElem?_eq_getElem low
  have found' : segs'[k]? = some segs'[k] := List.getElem?_eq_getElem low'
  have ino : segs[k].ino = segs'[k].ino := by
    have at_k := congrArg (fun l => l[k]?) inos
    simpa [found, found'] using at_k
  obtain ⟨ok, ends⟩ := inv.each k _ found
  obtain ⟨ok', ends'⟩ := inv'.each k _ found'
  rw [← ino] at ok' ends'
  exact segUnique ok ok' ino (endsStop ends) (endsStop ends')

end Uniqueness

/-- The operation is one step of a writer in a channel that is as it should be. -/
def Lawful (R : Nat) (π : Policy) (d : Disk) (op : Op) : Prop :=
  ∃ segs segs', Inv R d segs ∧ Step R π d segs op segs'

/-- The same, and it commits no User record. -/
def Quiet (R : Nat) (π : Policy) (d : Disk) (op : Op) : Prop :=
  Lawful R π d op ∧ committedBy d op = []

section Runs
variable {R : Nat} {π : Policy} {d : Disk} {segs segs' : List Seg} {op : Op} {ops : List Op}

theorem lawfulOf (inv : Inv R d segs) (step : Step R π d segs op segs') : Lawful R π d op :=
  ⟨segs, segs', inv, step⟩

theorem lawfulStep (inv : Inv R d segs) (lawful : Lawful R π d op) :
    ∃ segs', Step R π d segs op segs' := by
  obtain ⟨segs0, segs', inv0, step⟩ := lawful
  cases segsUnique inv inv0
  exact ⟨segs', step⟩

/- Over a whole run the log grows by exactly the records committed in it. -/
theorem runRecords (geometry : Geometry R) (inv : Inv R d segs)
    (lawful : Guar Disk.apply (Lawful R π) d ops) :
    ∃ segs', Inv R (run Disk.apply d ops) segs' ∧
      records (run Disk.apply d ops) segs' = records d segs ++ committedLog d ops := by
  induction ops generalizing d segs with
  | nil => exact ⟨segs, inv, by simp [committedLog]⟩
  | cons op ops ih =>
    obtain ⟨segs1, step⟩ := lawfulStep inv lawful.1
    obtain ⟨segs', inv', grown⟩ := ih (stepKeeps geometry inv step) lawful.2
    refine ⟨segs', inv', ?_⟩
    rw [runCons, grown, stepRecords inv step, committedLog, List.append_assoc]

theorem quietLog (quiet : Guar Disk.apply (Quiet R π) d ops) : committedLog d ops = [] := by
  induction ops generalizing d with
  | nil => rfl
  | cons op ops ih => rw [committedLog, quiet.1.2, ih quiet.2, List.append_nil]

theorem quietLawful (quiet : Guar Disk.apply (Quiet R π) d ops) :
    Guar Disk.apply (Lawful R π) d ops := guarMono (fun _ _ h => h.1) quiet

theorem quietRecords (geometry : Geometry R) (inv : Inv R d segs)
    (quiet : Guar Disk.apply (Quiet R π) d ops) (inv' : Inv R (run Disk.apply d ops) segs') :
    records (run Disk.apply d ops) segs' = records d segs := by
  obtain ⟨segs0, inv0, grown⟩ := runRecords geometry inv (quietLawful quiet)
  cases segsUnique inv' inv0
  rw [grown, quietLog quiet, List.append_nil]

end Runs

/-- A region size a channel can have here. -/
structure Regions (env : Env) (R : Nat) : Prop extends Geometry R where
  paged : R % env.page = 0

theorem pageRegions (env : Env) : Regions env env.page := by
  obtain ⟨k, low, high, page⟩ := env.pageSize
  have large : 2 ^ 12 ≤ 2 ^ k := Nat.pow_le_pow_right (by omega) low
  have small : 2 ^ k ≤ 2 ^ 24 := Nat.pow_le_pow_right (by omega) high
  refine ⟨⟨by omega, by omega, ?_⟩, Nat.mod_self _⟩
  rw [page]
  exact Nat.pow_dvd_pow 2 (show 3 ≤ k by omega)

/-- A channel that is as it should be, whatever its region size. -/
def Sound (env : Env) (d : Disk) (segs : List Seg) : Prop := ∃ R, Regions env R ∧ Inv R d segs

/-- A lawful step of a writer with one of the given retention settings. -/
def Legal (env : Env) (uses : Policy → Prop) (d : Disk) (op : Op) : Prop :=
  ∃ π R, uses π ∧ Regions env R ∧ Lawful R π d op

section AnyRegionSize
variable {env : Env} {R R' : Nat} {uses : Policy → Prop} {π : Policy} {d : Disk} {segs segs' : List Seg} {op : Op}
  {ops : List Op}

theorem legalOf (kept : uses π) (regions : Regions env R) (lawful : Guar Disk.apply (Lawful R π) d ops) :
    Guar Disk.apply (Legal env uses) d ops := guarMono (fun _ _ h => ⟨π, R, kept, regions, h⟩) lawful

/- A segment's header fixes the region size, so only an empty channel leaves it open. -/
theorem sameRegionSize (inv : Inv R d segs) (inv' : Inv R' d segs') : segs = segs' ∧ (segs = [] ∨ R = R') := by
  have inos : segs.map Seg.ino = segs'.map Seg.ino := inv.history.symm.trans inv'.history
  cases segs with
  | nil => exact ⟨(List.map_eq_nil_iff.mp inos.symm).symm, .inl rfl⟩
  | cons g rest =>
    cases segs' with
    | nil => simp at inos
    | cons g' rest' =>
      have ino : g.ino = g'.ino := (List.cons.inj inos).1
      have header := (inv.each 0 g rfl).1.header.header
      have header' := (inv'.each 0 g' rfl).1.header.header
      rw [← ino] at header'
      have same : R = R' := (validateOk.mp header).2.2.2.2.1.symm.trans (validateOk.mp header').2.2.2.2.1
      subst same
      exact ⟨segsUnique inv inv', .inr rfl⟩

theorem soundUnique (sound : Sound env d segs) (sound' : Sound env d segs') : segs = segs' := by
  obtain ⟨_, _, inv⟩ := sound
  obtain ⟨_, _, inv'⟩ := sound'
  exact (sameRegionSize inv inv').1

theorem legalStep (sound : Sound env d segs) (legal : Legal env uses d op) :
    ∃ R π segs', uses π ∧ Regions env R ∧ Inv R d segs ∧ Step R π d segs op segs' := by
  obtain ⟨π, R, kept, regions, segs0, segs', inv, step⟩ := legal
  cases soundUnique sound ⟨R, regions, inv⟩
  exact ⟨R, π, segs', kept, regions, inv, step⟩

/- Over a whole run the log grows by exactly the records committed in it. -/
theorem runSound (sound : Sound env d segs) (legal : Guar Disk.apply (Legal env uses) d ops) :
    ∃ segs', Sound env (run Disk.apply d ops) segs' ∧
      records (run Disk.apply d ops) segs' = records d segs ++ committedLog d ops := by
  induction ops generalizing d segs with
  | nil => exact ⟨segs, sound, by simp [committedLog]⟩
  | cons op ops ih =>
    obtain ⟨R, π, segs1, _, regions, inv, step⟩ := legalStep sound legal.1
    obtain ⟨segs', sound', grown⟩ := ih ⟨R, regions, stepKeeps regions.toGeometry inv step⟩ legal.2
    refine ⟨segs', sound', ?_⟩
    rw [runCons, grown, stepRecords inv step, committedLog, List.append_assoc]

/- The induction over runs: what every step keeps of a channel and its segments holds after any run. -/
theorem runInvariant {P : Disk → List Seg → Prop}
    (keeps : ∀ R π d segs op segs', uses π → Regions env R → Inv R d segs → Step R π d segs op segs' →
      P d segs → P (d.apply op) segs')
    (sound : Sound env d segs) (start : P d segs) (legal : Guar Disk.apply (Legal env uses) d ops)
    (sound' : Sound env (run Disk.apply d ops) segs') : P (run Disk.apply d ops) segs' := by
  induction ops generalizing d segs with
  | nil =>
    cases soundUnique sound sound'
    exact start
  | cons op ops ih =>
    obtain ⟨R, π, segs1, used, regions, inv, step⟩ := legalStep sound legal.1
    exact ih ⟨R, regions, stepKeeps regions.toGeometry inv step⟩ (keeps R π d segs op segs1 used regions inv step start)
      legal.2 sound'

/-- Every published segment is under its name. -/
def Named (d : Disk) (segs : List Seg) : Prop := ∀ s g, segs[s]? = some g → d.segments s = some g.ino

/- Only retention takes a name away. -/
theorem stepNamed (unpruned : π.keep = none) (named : Named d segs) (step : Step R π d segs op segs') :
    Named (d.apply op) segs' := by
  cases step with
  | @record s g t found top settled kind data placed fits room inside signed joined bounded =>
    intro k h at_k
    rw [List.getElem?_set] at at_k
    split at at_k
    · rename_i same
      subst same
      split at at_k
      · cases at_k
        exact named _ g found
      · cases at_k
    · exact named k h at_k
  | @publish i ident gen name blank parented rolled joined =>
    intro k h at_k
    rcases Nat.lt_trichotomy k segs.length with low | rfl | high
    · rw [List.getElem?_append_left low] at at_k
      exact named k h at_k
    · rw [List.getElem?_append_right (Nat.le_refl _), Nat.sub_self] at at_k
      cases at_k
      exact name
    · rw [List.getElem?_eq_none (by simp; omega)] at at_k
      cases at_k
  | @install fileInstance a attempt free spare labelled =>
    intro k h at_k
    have low := lengthOf at_k
    simp only [Disk.apply, attempt]
    rw [if_neg (by omega)]
    exact named k h at_k
  | discard =>
    intro k h at_k
    have low := lengthOf at_k
    simp only [Disk.apply]
    rw [if_neg (by omega)]
    exact named k h at_k
  | prune kept least behind joined =>
    rw [unpruned] at kept
    cases kept
  | _ => exact named

theorem unprunedLegal (unpruned : π.keep = none) (regions : Regions env R)
    (lawful : Guar Disk.apply (Lawful R π) d ops) : Guar Disk.apply (Legal env (·.keep = none)) d ops :=
  legalOf unpruned regions lawful

theorem runNamed (sound : Sound env d segs) (named : Named d segs)
    (legal : Guar Disk.apply (Legal env (·.keep = none)) d ops) (sound' : Sound env (run Disk.apply d ops) segs') :
    Named (run Disk.apply d ops) segs' :=
  runInvariant (P := Named) (fun _ _ _ _ _ _ unpruned _ _ step named => stepNamed unpruned named step) sound named legal
    sound'

/-- What never changes of a published segment, and that it only gains slots. -/
structure Extends (g g' : Seg) : Prop where
  ino : g'.ino = g.ino
  ident : g'.ident = g.ident
  base : g'.base = g.base
  gen : g'.gen = g.gen
  slots : g.slots <+: g'.slots

/-- Segments are never lost, and their order stays. -/
def Grows (segs segs' : List Seg) : Prop :=
  ∀ (s : Nat) (g : Seg), segs[s]? = some g → ∃ g', segs'[s]? = some g' ∧ Extends g g'

theorem Extends.refl (g : Seg) : Extends g g := ⟨rfl, rfl, rfl, rfl, List.prefix_rfl⟩

theorem Extends.trans {g g' g'' : Seg} (first : Extends g g') (next : Extends g' g'') : Extends g g'' :=
  ⟨next.ino.trans first.ino, next.ident.trans first.ident, next.base.trans first.base, next.gen.trans first.gen,
    first.slots.trans next.slots⟩

theorem Grows.refl (segs : List Seg) : Grows segs segs := fun _ g found => ⟨g, found, .refl g⟩

theorem Grows.trans {segs'' : List Seg} (first : Grows segs segs') (next : Grows segs' segs'') : Grows segs segs'' := by
  intro s g found
  obtain ⟨g', found', more⟩ := first s g found
  obtain ⟨g'', found'', more'⟩ := next s g' found'
  exact ⟨g'', found'', more.trans more'⟩

theorem stepGrows (step : Step R π d segs op segs') : Grows segs segs' := by
  cases step with
  | @record s g t found top settled kind data placed fits room inside signed joined bounded =>
    intro k h at_k
    rw [List.getElem?_set]
    split
    · rename_i same
      subst same
      cases Option.some.inj (found.symm.trans at_k)
      rw [if_pos (lengthOf found)]
      exact ⟨_, rfl, rfl, rfl, rfl, rfl, List.prefix_append _ _⟩
    · exact ⟨h, at_k, .refl h⟩
  | publish named blank parented rolled joined =>
    intro k h at_k
    rw [List.getElem?_append_left (lengthOf at_k)]
    exact ⟨h, at_k, .refl h⟩
  | _ => exact .refl segs

theorem runGrows (sound : Sound env d segs) (legal : Guar Disk.apply (Legal env uses) d ops)
    (sound' : Sound env (run Disk.apply d ops) segs') : Grows segs segs' :=
  runInvariant (P := fun _ => Grows segs) (fun _ _ _ _ _ _ _ _ _ step grown => grown.trans (stepGrows step)) sound
    (.refl segs) legal sound'

end AnyRegionSize
end Xchannel.ChannelLog
