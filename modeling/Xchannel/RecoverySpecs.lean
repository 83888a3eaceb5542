import Xchannel.RollSpecs
import Xchannel.WalkSpecs
import Xchannel.WriterOpen

/-! Resuming in the newest segment of any channel a killed writer can have left: the sweep, the
discard of an unpublished tail and the one-record recovery. -/
namespace Xchannel.RecoverySpecs
open ByteMemory Format Storage RecordChain SegmentInvariant ChannelInvariant ChannelSteps ChannelLog
  CrashProgram SegmentWalk WalkSpecs WriterCalls WriterOpen StoreRuns WriterSpecs RollSpecs

section Tail
variable {τ : Type} {t : τ} {R s : Nat} {π : Policy} {d : Disk} {segs : List Seg} {g : Seg}

theorem sweepRun (inv : Inv R d segs) (names : List Attempt) :
    Guar Disk.apply (Quiet R π) d (names.map fun a => .unlinkAttempt a.sequence a.fileInstance) ∧
    Inv R (run Disk.apply d (names.map fun a => .unlinkAttempt a.sequence a.fileInstance)) segs := by
  induction names generalizing d with
  | nil => exact ⟨trivial, inv⟩
  | cons a names ih =>
    obtain ⟨guar, last⟩ := ih (sweepKeeps inv a.sequence a.fileInstance)
    exact ⟨⟨⟨lawfulOf inv .sweep, rfl⟩, guar⟩, last⟩

/- Each private name is unlinked, so none is left. -/
theorem sweptAttempts (names : List Attempt) (d : Disk) (b : Attempt) :
    b ∈ (run Disk.apply d (names.map fun a => .unlinkAttempt a.sequence a.fileInstance)).attempts →
      b ∈ d.attempts ∧ b ∉ names := by
  induction names generalizing d with
  | nil => exact fun mem => ⟨mem, by simp⟩
  | cons a names ih =>
    intro mem
    obtain ⟨left, out⟩ := ih _ mem
    obtain ⟨left, miss⟩ := List.mem_filter.mp left
    refine ⟨left, ?_⟩
    intro mem'
    rcases List.mem_cons.mp mem' with rfl | later
    · simp at miss
    · exact out later

theorem sweepFiles (names : List Attempt) (d : Disk) :
    (run Disk.apply d (names.map fun a => .unlinkAttempt a.sequence a.fileInstance)).segments = d.segments := by
  induction names generalizing d with
  | nil => rfl
  | cons a names ih => exact ih _

theorem sweepSpec (inv : Inv R d segs) : Spec (Quiet R π) t d sweepStaleAttempts fun r t' d' =>
    r = .ok () ∧ t' = t ∧ Inv R d' segs ∧ d'.attempts = [] ∧ d'.segments = d.segments := by
  unfold sweepStaleAttempts
  apply specLook
  obtain ⟨guar, inv'⟩ := sweepRun (π := π) inv d.attempts
  refine ⟨guar, rfl, rfl, inv', ?_, sweepFiles _ _⟩
  rw [List.eq_nil_iff_forall_not_mem]
  intro b mem
  obtain ⟨left, out⟩ := sweptAttempts d.attempts d b mem
  exact out left

/- No name is past that of a prepared successor. -/
theorem nameLe (inv : Inv R d segs) {k : Nat} (present : (d.segments k).isSome) : k ≤ segs.length := by
  obtain ⟨i, named⟩ := Option.isSome_iff_exists.mp present
  obtain ⟨_, _, ⟨g, found, _⟩ | ⟨top, _⟩⟩ := inv.names k i named
  · exact Nat.le_of_lt (lengthOf found)
  · omega

theorem latestTop (inv : Inv R d segs) (found : segs[s]? = some g) (top : s + 1 = segs.length)
    (free : d.segments segs.length = none) : d.findLatestSequence = s := by
  have named := inv.newest s g found top
  refine Disk.latestEq (by rw [named]; rfl) (inv.names s _ named).1 fun k present => ?_
  have low := nameLe inv present
  by_contra above
  have : k = segs.length := by omega
  subst this
  rw [free] at present
  contradiction

/- Every check of a header passes on a published segment. -/
theorem headerChecks {i : Nat} (ok : SegOk R s (d.files i) g) :
    validateChannelHeader (d.data i) R s = .ok () ∧ regionSizeField (d.data i) = R ∧
    validateV4Prefix (d.data i) = .ok g.ident ∧ isPublished (d.data i) = .ok true :=
  ⟨ok.header.header, (validateOk.mp ok.header.header).2.2.2.2.1, ok.header.ident, publishedOk ok.published⟩

theorem discardTop (inv : Inv R d segs) (found : segs[s]? = some g) (top : s + 1 = segs.length)
    (free : d.segments segs.length = none) (rounds : Nat) :
    (discardLoop (rounds + 1) : Io τ Nat) t d = ([], .ok s, t) := by
  have ok := (inv.each s g found).1
  obtain ⟨header, region, prefixed, published⟩ := headerChecks ok
  unfold discardLoop
  rw [Act.lookThen, latestTop inv found top free]
  by_cases zero : s = 0
  · rw [if_pos zero, zero]
    rfl
  · have long : ¬ (d.len g.ino < firstRecord) := by
      have ge := ok.finGe
      have lt : g.fin + 56 ≤ d.len g.ino := ok.finLt
      show ¬ (_ < 208)
      omega
    rw [if_neg zero, Act.lookThen, inv.newest s g found top]
    dsimp only
    rw [Act.lookThen, if_neg long, Act.lookThen, region, header, prefixed, published]
    rfl

/-- The channel after the discard: no name past the newest segment, unless nothing is published. -/
structure Trimmed (R : Nat) (d d' : Disk) (segs : List Seg) : Prop where
  inv : Inv R d' segs
  free : segs ≠ [] → d'.segments segs.length = none
  untouched : segs = [] → d' = d
  attempts : d'.attempts = d.attempts

theorem discardSpec (geometry : Geometry R) (inv : Inv R d segs) :
    Spec (Quiet R π) t d discardUnpublishedTail fun r t' d' =>
      r = .ok (segs.length - 1) ∧ t' = t ∧ Trimmed R d d' segs := by
  have large := geometry.large
  unfold discardUnpublishedTail
  apply specLook
  by_cases empty : segs = []
  · have latest : d.findLatestSequence = 0 := by
      cases named : d.segments 0 with
      | none =>
        apply Disk.latestNone
        intro k
        by_contra some
        have low := nameLe inv (Option.isSome_iff_ne_none.mpr some)
        rw [empty] at low
        have : k = 0 := by simpa using low
        exact some (this ▸ named)
      | some i =>
        refine Disk.latestEq (by rw [named]; rfl) (inv.names 0 i named).1 fun k present => ?_
        have low := nameLe inv present
        rw [empty] at low
        simpa using low
    have idle : (discardLoop (d.bound + 1) : Io τ Nat) t d = ([], .ok 0, t) := by
      unfold discardLoop
      rw [Act.lookThen, latest, if_pos rfl]
      rfl
    exact specIdle idle ⟨by rw [empty]; rfl, rfl, inv, fun ne => absurd empty ne, fun _ => rfl, rfl⟩
  · obtain ⟨s, top⟩ : ∃ s, s + 1 = segs.length :=
      ⟨segs.length - 1, by have := List.length_pos_iff.mpr empty; omega⟩
    obtain ⟨g, found⟩ : ∃ g, segs[s]? = some g := ⟨segs[s], List.getElem?_eq_getElem (by omega)⟩
    cases named : d.segments segs.length with
    | none =>
      have idle := discardTop (t := t) inv found top named d.bound
      exact specIdle idle ⟨by rw [← top]; rfl, rfl, inv, fun _ => named, fun e => absurd e empty, rfl⟩
    | some i =>
      obtain ⟨_, apart, ident, gen, blank, parented⟩ := spareApart inv named
      obtain ⟨low, _⟩ := inv.names _ _ named
      obtain ⟨rounds, bound⟩ : ∃ rounds, d.bound = rounds + 1 := ⟨d.bound - 1, by omega⟩
      have latest : d.findLatestSequence = segs.length :=
        Disk.latestEq (by rw [named]; rfl) low fun k present => nameLe inv present
      have header : validateChannelHeader (d.data i) R segs.length = .ok () := blank.header.header
      have region : regionSizeField (d.data i) = R := (validateOk.mp blank.header.header).2.2.2.2.1
      have prefixed : validateV4Prefix (d.data i) = .ok ident := blank.header.ident
      have unpublished : isPublished (d.data i) = .ok false := preparedOk blank.unpublished
      have long : ¬ (d.len i < firstRecord) := by
        have : R ≤ d.len i := blank.inside
        show ¬ (_ < 208)
        omega
      unfold discardLoop
      apply specLook
      rw [latest, if_neg (by omega)]
      apply specLook
      rw [named]
      dsimp only
      apply specLook
      rw [if_neg long]
      apply specLook
      rw [region, header, prefixed, unpublished, bound]
      refine specSkip (u := t) (a := ()) rfl (specSkip (u := t) (a := ident) rfl
        (specSkip (u := t) (a := false) rfl ?_))
      rw [if_neg (by simp)]
      have inv' := unlinkKeeps inv (s := segs.length) (by omega) (.inl rfl)
      have free' : (d.apply (.unlink segs.length)).segments segs.length = none := by simp [Disk.apply]
      refine specEmitTo (v := d.apply (.unlink segs.length)) ⟨⟨lawfulOf inv .discard, rfl⟩, trivial⟩ rfl ?_
      have idle := discardTop (t := t) inv' found top free' rounds
      exact specIdle idle ⟨by rw [← top]; rfl, rfl, inv', fun _ => free', fun e => absurd e empty, rfl⟩

end Tail

section Orphan
variable {τ : Type} {t : τ} {env : Env} {cfg : Config} {s : Nat} {π : Policy} {d : Disk} {segs : List Seg}
  {g : Seg} {R : Nat}

/-- The one record past the stored position. -/
structure Orphan (R : Nat) (m : Mem) (g : Seg) (p : Nat) (k : HeaderType) : Prop where
  here : RecordAt R m p k
  high : 208 ≤ p
  aligned : 8 ∣ p
  next : nextSlot m p = g.fin
  wp : writePosition m = p + 16
  signed : MessageHeader.read m g.fin = .preinstall

theorem laggingOrphan {f : File} (ok : SegOk R s f g) (lagging : Lagging f.data g) :
    ∃ p k, Orphan R f.data g p k := by
  obtain ⟨signed, before, p, k, slots, later, wp, _⟩ := lagging
  have chain := ok.chain
  rw [slots] at chain
  obtain ⟨front, here, last⟩ := chain.split
  have mem : (p, k) ∈ g.slots := by simp [slots]
  refine ⟨p, k, here, ?_, (ok.chain.aligned (Nat.dvd_zero 8)).2 _ mem, ?_, wp, signed⟩
  · rcases ok.slotCases mem with first | high
    · cases first
      have few := front.slotsLe
      have := List.length_pos_iff.mpr later
      omega
    · exact high
  · exact last.nilEq

theorem Orphan.cases {m : Mem} {p : Nat} {k : HeaderType} (orphan : Orphan R m g p k) : k = .user ∨ k = .skip := by
  have placed := orphan.here.placed
  have high := orphan.high
  cases k with
  | channel =>
    have : p = 0 := placed
    omega
  | user => exact .inl rfl
  | skip => exact .inr rfl
  | roll => exact absurd placed id

theorem Orphan.advance {m : Mem} {p : Nat} {k : HeaderType} (orphan : Orphan R m g p k) :
    p + (headerSlot + alignUp (MessageHeader.read m p).length.toNat) = g.fin := by
  have small := lengthLt m p
  rw [readLength, alignUpEq (by omega), ← orphan.next, nextSlot,
    align8Add (show 8 ∣ p + 16 from Nat.dvd_add orphan.aligned ⟨2, rfl⟩)]
  show p + (16 + _) = _
  omega

/- Nothing is committed past a `Roll` that is not. -/
theorem laggingJoined (inv : Inv R d segs) (found : segs[s]? = some g) (top : s + 1 = segs.length)
    (lagging : Lagging (d.data g.ino) g) : Joined d segs := by
  obtain ⟨p, k, orphan⟩ := laggingOrphan (inv.each s g found).1 lagging
  intro j h at_j last
  have ends := (inv.each j h at_j).2
  have next : segs[j + 1]? = some g := by
    rw [show j + 1 = s by omega]
    exact found
  rw [Ends, next] at ends
  rcases ends.2 with flag | ⟨_, empty⟩
  · exact flag
  · have beyond := nextSlotGt (d.data g.ino) p
    have next := orphan.next
    have high := orphan.high
    have : nextSlot (d.data g.ino) p = g.fin := next
    omega

theorem advanceSpec (admitted : Admitted env cfg) (inv : Inv cfg.regionSize d segs) (found : segs[s]? = some g)
    {p : Nat} {k : HeaderType} (orphan : Orphan cfg.regionSize (d.data g.ino) g p k) :
    (advancePastOrphan env cfg.regionSize ⟨g.ino, p / cfg.regionSize, d.len g.ino, p⟩
      (MessageHeader.read (d.data g.ino) p) : Io τ Opened) t d =
        ([], .ok ⟨g.ino, g.fin / cfg.regionSize, d.len g.ino, g.fin⟩, t) := by
  have ok := (inv.each s g found).1
  have large := admitted.geometry.large
  have room := ok.room
  have inside : (g.fin / cfg.regionSize + 1) * cfg.regionSize ≤ d.len g.ino := ok.inside
  have split := slotSplit cfg.regionSize p
  have advance := orphan.advance
  have next := orphan.next
  have signed : verifyPreinstallSignature (MessageHeader.read (d.data g.ino) g.fin) = .ok () := by
    rw [orphan.signed, preinstallSigned]
  unfold advancePastOrphan
  rw [kindOk orphan.here.kind]
  generalize headerSlot + alignUp (MessageHeader.read (d.data g.ino) p).length.toNat = n at advance ⊢
  rcases orphan.cases with rfl | rfl
  · have same : g.fin / cfg.regionSize = p / cfg.regionSize := next ▸ orphan.here.placed
    have offset : p % cfg.regionSize + n = g.fin % cfg.regionSize := by
      have := slotSplit cfg.regionSize g.fin
      rw [same] at this
      omega
    rw [Act.idleThen (a := HeaderType.user) (u := t) rfl]
    dsimp only
    rw [Act.idleThen (Act.refuseIdle (by show ¬ (_ < _ + 16); omega)), Act.lookThen, advance, signed,
      Act.idleThen (a := ()) (u := t) rfl, same]
    rfl
  · have start : g.fin = (p / cfg.regionSize + 1) * cfg.regionSize := next ▸ orphan.here.placed
    have expand : (p / cfg.regionSize + 1) * cfg.regionSize = p / cfg.regionSize * cfg.regionSize + cfg.regionSize := by
      ring
    have index : g.fin / cfg.regionSize = p / cfg.regionSize + 1 := by
      rw [start]
      exact Nat.mul_div_cancel _ (by omega)
    rw [index] at inside
    have expand' : (p / cfg.regionSize + 1 + 1) * cfg.regionSize =
        (p / cfg.regionSize + 1) * cfg.regionSize + cfg.regionSize := by ring
    rw [Act.idleThen (a := HeaderType.skip) (u := t) rfl]
    dsimp only
    rw [Act.idleThen (Act.refuseIdle (by omega)), Act.idleThen (Act.refuseIdle (by omega)),
      Act.idleThen (createWritableIdle (by omega) admitted.paged (regionAligned admitted.paged _) (by omega)),
      Act.lookThen, ← start, signed, Act.idleThen (a := ()) (u := t) rfl, advance, index]
    rfl

theorem recoverSpec (admitted : Admitted env cfg) (inv : Inv cfg.regionSize d segs) (found : segs[s]? = some g)
    (top : s + 1 = segs.length) (clean : d.attempts = []) (lagging : Lagging (d.data g.ino) g) {p : Nat}
    {k : HeaderType} (orphan : Orphan cfg.regionSize (d.data g.ino) g p k) :
    Spec (Quiet cfg.regionSize π) t d
      (recoverOrphan env cfg.regionSize ⟨g.ino, p / cfg.regionSize, d.len g.ino, p⟩
        (MessageHeader.read (d.data g.ino) p))
      fun r t' d' => t' = t ∧ r = .ok ⟨g.ino, g.fin / cfg.regionSize, d'.len g.ino, g.fin⟩ ∧
        Rested cfg.regionSize d' segs s g := by
  have ok := (inv.each s g found).1
  have large := admitted.geometry.large
  have room := ok.room
  have inside : (g.fin / cfg.regionSize + 1) * cfg.regionSize ≤ d.len g.ino := ok.inside
  have expand : (g.fin / cfg.regionSize + 1) * cfg.regionSize =
      g.fin / cfg.regionSize * cfg.regionSize + cfg.regionSize := by ring
  have walked : walkOn env d g.ino cfg.regionSize 0 = .ok ⟨g.fin, users g.slots, .uncommitted⟩ :=
    walkOnOpen admitted.paged ok.chain (by omega) (inv.tail found top).free (by omega) inside ok.bound
  have pushed : Pushed cfg.regionSize d segs s g := ⟨inv, found, top, laggingJoined inv found top lagging, clean⟩
  unfold recoverOrphan
  apply specSkip (advanceSpec admitted inv found orphan)
  apply specLook
  rw [walked]
  apply specSkip (u := t) (a := ⟨g.fin, users g.slots, .uncommitted⟩) rfl
  apply specRefuse
  · exact fun bad => absurd rfl bad
  intro _
  apply specSkip (createWritableIdle (by omega) admitted.paged (Nat.zero_mod _) (by dsimp only; omega))
  obtain ⟨quiet1, pushed1, counted⟩ := pushed.count (π := π)
  refine specEmitTo (v := d.apply (.store g.ino 24 (toLE 8 (users g.slots)))) ⟨quiet1, trivial⟩ rfl ?_
  obtain ⟨quiet2, open2⟩ := pushed1.position (π := π) counted
  refine specEmitTo (v := (d.apply (.store g.ino 24 (toLE 8 (users g.slots)))).apply
    (.store g.ino 16 (toLE 8 (g.fin + 16)))) ⟨quiet2, trivial⟩ rfl ?_
  apply specRet
  refine ⟨rfl, ?_, open2.toRested⟩
  rw [storeLen, storeLen]

/- Where the stored position leads: the open slot, or the one record before it. -/
theorem resumeAt (inv : Inv R d segs) (found : segs[s]? = some g) (top : s + 1 = segs.length) :
    ∃ p, writePosition (d.data g.ino) = p + 16 ∧ p ≤ g.fin ∧ (p / R + 1) * R ≤ d.len g.ino ∧
      ((p = g.fin ∧ Settled (d.data g.ino) g) ∨
        (Lagging (d.data g.ino) g ∧ ∃ k, Orphan R (d.data g.ino) g p k)) := by
  have ok := (inv.each s g found).1
  have inside : (g.fin / R + 1) * R ≤ d.len g.ino := ok.inside
  rcases inv.tail found top with settled | lagging
  · exact ⟨g.fin, settled.wp, Nat.le_refl _, inside, .inl ⟨rfl, settled⟩⟩
  · obtain ⟨p, k, orphan⟩ := laggingOrphan ok lagging
    have below : p ≤ g.fin := by
      have next := nextSlotGt (d.files g.ino).data p
      rw [orphan.next] at next
      omega
    refine ⟨p, orphan.wp, below, ?_, .inr ⟨lagging, k, orphan⟩⟩
    exact Nat.le_trans (Nat.mul_le_mul_right R (Nat.succ_le_succ (Nat.div_le_div_right below))) inside

theorem resumeSlotSpec (admitted : Admitted env cfg) (inv : Inv cfg.regionSize d segs) (found : segs[s]? = some g)
    (top : s + 1 = segs.length) (clean : d.attempts = []) {initial : Nat} (initialBound : initial ≤ 2 ^ 63 - 1) :
    Spec (Quiet cfg.regionSize π) t d (resumeSlot env g.ino cfg.regionSize initial)
      fun r t' d' => t' = t ∧ r = .ok ⟨g.ino, g.fin / cfg.regionSize, d'.len g.ino, g.fin⟩ ∧
        Rested cfg.regionSize d' segs s g := by
  have ok := (inv.each s g found).1
  have large := admitted.geometry.large
  have ge := ok.finGe
  have lenBound : d.len g.ino ≤ 2 ^ 63 - 1 := ok.bound
  have finLt : g.fin + 56 ≤ d.len g.ino := ok.finLt
  obtain ⟨p, wp, below, inside, shape⟩ := resumeAt inv found top
  have expand : (p / cfg.regionSize + 1) * cfg.regionSize = p / cfg.regionSize * cfg.regionSize + cfg.regionSize := by
    ring
  unfold resumeSlot
  apply specLook
  rw [wp]
  have slot : p + 16 - headerSlot = p := Nat.add_sub_cancel p 16
  dsimp only
  rw [slot]
  apply specLook
  -- from the grown file on, the two shapes
  have grown (d1 : Disk) (inv1 : Inv cfg.regionSize d1 segs) (clean1 : d1.attempts = [])
      (len1 : d1.len g.ino = max (d.len g.ino) (max ((p / cfg.regionSize + 1) * cfg.regionSize) initial))
      (same1 : ∀ a, a < d.len g.ino → d1.data g.ino a = d.data g.ino a) :
      Spec (Quiet cfg.regionSize π) t d1 (do
        createWritable env g.ino (p / cfg.regionSize * cfg.regionSize) cfg.regionSize
        let stale ← Act.look fun d => MessageHeader.read (d.data g.ino) p
        if ← Act.lift stale.isCommitted then
          return ← recoverOrphan env cfg.regionSize ⟨g.ino, p / cfg.regionSize,
            max (d.len g.ino) (max ((p / cfg.regionSize + 1) * cfg.regionSize) initial), p⟩ stale
        return ⟨g.ino, p / cfg.regionSize,
          max (d.len g.ino) (max ((p / cfg.regionSize + 1) * cfg.regionSize) initial), p⟩)
        fun r t' d' => t' = t ∧ r = .ok ⟨g.ino, g.fin / cfg.regionSize, d'.len g.ino, g.fin⟩ ∧
          Rested cfg.regionSize d' segs s g := by
    have near (a : Nat) (h : Last g.fin a) : d1.data g.ino a = d.data g.ino a :=
      same1 a (by unfold Last at h; omega)
    apply specSkip (createWritableIdle (by omega) admitted.paged (regionAligned admitted.paged _) (by omega))
    apply specLook
    rcases shape with ⟨rfl, settled⟩ | ⟨lagging, k, orphan⟩
    · have free : d1.data g.ino g.fin = 0 := (same1 _ (by omega)).trans settled.free
      rw [uncommittedOk free]
      apply specSkip (u := t) (a := false) rfl
      rw [if_neg (by simp)]
      apply specRet
      exact ⟨rfl, by rw [len1], inv1, found, top, settled.congr near, clean1⟩
    · have lagging1 := lagging.congr near
      obtain ⟨p1, k1, orphan1⟩ := laggingOrphan (inv1.each s g found).1 lagging1
      have wp1 : writePosition (d1.data g.ino) = p + 16 := by
        rw [← wp]
        exact readLECongr fun a lo hi => same1 a (by omega)
      have same : p1 = p := by
        have : writePosition (d1.data g.ino) = p1 + 16 := orphan1.wp
        omega
      subst same
      rw [committedOk (m := d1.data g.ino) orphan1.here.committed]
      apply specSkip (u := t) (a := true) rfl
      rw [if_pos rfl, ← len1]
      exact recoverSpec admitted inv1 found top clean1 lagging1 orphan1
  split
  · rename_i short
    have fits : max ((p / cfg.regionSize + 1) * cfg.regionSize) initial ≤ maxFileLen := by
      show _ ≤ 2 ^ 63 - 1
      omega
    unfold setLen
    rw [if_pos fits]
    have step : Step cfg.regionSize π d segs
        (.setLen g.ino (max ((p / cfg.regionSize + 1) * cfg.regionSize) initial)) segs :=
      .grow found (by omega) fits
    refine specEmitTo (v := d.apply (.setLen g.ino (max ((p / cfg.regionSize + 1) * cfg.regionSize) initial)))
      ⟨⟨lawfulOf inv step, rfl⟩, trivial⟩ rfl ?_
    refine grown _ (stepKeeps admitted.geometry inv step) clean ?_ ?_
    · rw [Disk.apply, setFileLen]
      exact (Nat.max_eq_right (Nat.le_of_lt short)).symm
    · intro a low
      rw [Disk.apply, setFileData]
      exact if_pos ⟨by omega, low⟩
  · rename_i long
    exact grown d inv clean (by omega) fun a _ => rfl

theorem resumeSpec (admitted : Admitted env cfg) (inv : Inv cfg.regionSize d segs) (found : segs[s]? = some g)
    (top : s + 1 = segs.length) (clean : d.attempts = []) :
    Spec (Quiet cfg.regionSize π) t d (resumeFile env g.ino s cfg.regionSize cfg.fileRollSize.toNat)
      fun r t' d' => t' = t ∧ r = .ok ⟨g.ino, g.fin / cfg.regionSize, d'.len g.ino, g.fin⟩ ∧
        Rested cfg.regionSize d' segs s g := by
  obtain ⟨initial, allocated⟩ := admitted.allocated
  have ok := (inv.each s g found).1
  have large := admitted.geometry.large
  have inside : (g.fin / cfg.regionSize + 1) * cfg.regionSize ≤ d.len g.ino := ok.inside
  have expand : (g.fin / cfg.regionSize + 1) * cfg.regionSize =
      g.fin / cfg.regionSize * cfg.regionSize + cfg.regionSize := by ring
  obtain ⟨header, region, prefixed, published⟩ := headerChecks ok
  unfold resumeFile
  rw [allocated]
  apply specSkip (u := t) (a := initial) rfl
  apply specSkip (createWritableIdle (by omega) admitted.paged (Nat.zero_mod _) (by omega))
  apply specLook
  rw [header, prefixed, published]
  refine specSkip (u := t) (a := ()) rfl (specSkip (u := t) (a := g.ident) rfl
    (specSkip (u := t) (a := true) rfl ?_))
  rw [if_neg (by simp)]
  exact resumeSlotSpec admitted inv found top clean (admitted.length allocated).2

/- The first segment may have been left installed and unpublished; it is published now. -/
theorem publishFirst (geometry : Geometry R) (inv : Inv R d []) {i : Nat} {ident : Identity} {gen : Nat}
    (named : d.segments 0 = some i) (blank : Blank R 0 (d.files i) ident gen) (parented : Parented [] ident gen)
    (clean : d.attempts = []) :
    Quiet R π d (.publish i) ∧
    Rested R (d.apply (.publish i)) [Blank.seg i ident (baseRecordIndex (d.data i)) gen] 0
      (Blank.seg i ident (baseRecordIndex (d.data i)) gen) := by
  have step : Step R π d [] (.publish i) ([] ++ [Blank.seg i ident (baseRecordIndex (d.data i)) gen]) :=
    .publish named blank parented (fun s g found => by simp at found) fun s g found => by simp at found
  obtain ⟨_, settled⟩ := blankPublished geometry blank i
  refine ⟨⟨lawfulOf inv step, rfl⟩, stepKeeps geometry inv step, rfl, rfl, ?_, clean⟩
  have data : (d.apply (.publish i)).data i = write (d.data i) 192 [1] := setFileData _ _
  show Settled ((d.apply (.publish i)).data i) _
  rw [data]
  exact settled

theorem resumeFirstSpec (admitted : Admitted env cfg) (inv : Inv cfg.regionSize d []) {i : Nat}
    (named : d.segments 0 = some i) (clean : d.attempts = []) :
    Spec (Quiet cfg.regionSize π) t d (resumeFile env i 0 cfg.regionSize cfg.fileRollSize.toNat)
      fun r t' d' => t' = t ∧ ∃ g, r = .ok ⟨g.ino, g.fin / cfg.regionSize, d'.len g.ino, g.fin⟩ ∧
        Rested cfg.regionSize d' [g] 0 g := by
  obtain ⟨initial, allocated⟩ := admitted.allocated
  obtain ⟨_, _, ident, gen, blank, parented⟩ := spareApart inv named
  have blank : Blank cfg.regionSize 0 (d.files i) ident gen := blank
  have large := admitted.geometry.large
  have inside : cfg.regionSize ≤ d.len i := blank.inside
  have header : validateChannelHeader (d.data i) cfg.regionSize 0 = .ok () := blank.header.header
  have prefixed : validateV4Prefix (d.data i) = .ok ident := blank.header.ident
  have unpublished : isPublished (d.data i) = .ok false := preparedOk blank.unpublished
  unfold resumeFile
  rw [allocated]
  apply specSkip (u := t) (a := initial) rfl
  apply specSkip (createWritableIdle (by omega) admitted.paged (Nat.zero_mod _) (by omega))
  apply specLook
  rw [header, prefixed, unpublished]
  refine specSkip (u := t) (a := ()) rfl (specSkip (u := t) (a := ident) rfl
    (specSkip (u := t) (a := false) rfl ?_))
  rw [if_pos (by simp)]
  apply specRefuse
  · exact fun bad => absurd rfl bad
  intro _
  obtain ⟨quiet, rested⟩ := publishFirst (π := π) admitted.geometry inv named blank parented clean
  refine specEmitTo (v := d.apply (.publish i)) ⟨quiet, trivial⟩ rfl ?_
  apply specMono (resumeSlotSpec admitted rested.inv rested.found rested.top rested.clean
    (admitted.length allocated).2)
  rintro r t' d' ⟨same, ok, rested'⟩
  exact ⟨same, _, ok, rested'⟩

theorem createInitialSpec (admitted : Admitted env cfg) (inv : Inv cfg.regionSize d [])
    (free : d.segments 0 = none) (clean : d.attempts = []) :
    Spec (Quiet cfg.regionSize cfg.policy) t d (createInitial env cfg)
      fun r t' d' => t' = t ∧ ∃ g, r = .ok ⟨g.ino, g.fin / cfg.regionSize, d'.len g.ino, g.fin⟩ ∧
        Rested cfg.regionSize d' [g] 0 g ∧ g.base = cfg.baseRecordIndex.toNat := by
  have large := admitted.geometry.large
  have fresh : Fresh cfg.regionSize d [] (Identity.initial (env.ids d.fresh)) cfg.generation.toNat := by
    refine ⟨inv, clean, by simp, cfg.generation.toNat_lt, env.idsNonzero _, ?_, ?_, fun _ => rfl, fun s g found => ?_⟩
    · show 2 ^ 64 - 1 < 2 ^ 64
      omega
    · simp [Identity.initial]
    · simp at found
  unfold createInitial
  apply specLook
  rw [free]
  simp only [Option.isSome_none, Bool.false_eq_true, if_false]
  apply specLook
  have prepared := prepareSegmentSpec (t := t) admitted fresh cfg.baseRecordIndex.toNat_lt
  refine specSeq prepared ?_ ?_
  · rintro prepared t1 d1 ⟨rfl, len, allocated, ok, laid⟩
    cases ok
    refine specSeq (installSpec laid fresh.parented free) ?_ ?_
    · rintro a t2 d2 ⟨rfl, ok, inv2, clean2, named2, files2, _⟩
      cases ok
      rw [if_pos rfl]
      have blank2 : Blank cfg.regionSize 0 (d2.files d.fresh) (Identity.initial (env.ids d.fresh))
          cfg.generation.toNat := by
        rw [files2]
        exact laid.blank
      obtain ⟨quiet, rested⟩ := publishFirst (π := cfg.policy) admitted.geometry inv2 named2 blank2 fresh.parented clean2
      refine specEmitTo (v := d2.apply (.publish d.fresh)) ⟨quiet, trivial⟩ rfl ?_
      apply specRet
      have base2 : baseRecordIndex (d2.data d.fresh) = cfg.baseRecordIndex.toNat := by
        rw [Disk.data, files2]
        exact laid.base
      refine ⟨rfl, _, ?_, rested, base2⟩
      have len2 : (d2.apply (.publish d.fresh)).len d.fresh = len := by
        show (d2.setFile d.fresh _).len d.fresh = len
        rw [setFileLen, files2]
        exact laid.length
      have index : 208 / cfg.regionSize = 0 := Nat.div_eq_of_lt (by omega)
      show Except.ok (⟨d.fresh, 0, len, 208⟩ : Opened) =
        Except.ok ⟨d.fresh, 208 / cfg.regionSize, (d2.apply (.publish d.fresh)).len d.fresh, 208⟩
      rw [len2, index]
    · rintro e t2 d2 ⟨_, ok, _⟩
      cases ok
  · rintro e t1 d1 ⟨_, _, _, ok, _⟩
    cases ok

end Orphan

end Xchannel.RecoverySpecs
