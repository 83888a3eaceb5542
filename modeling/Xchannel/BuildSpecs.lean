import Xchannel.RecoverySpecs

/-! Opening a writer: finishing the `Roll` a dead writer left stranded, and the whole of `build`, on
any channel and with any settings. -/
namespace Xchannel.BuildSpecs
open ByteMemory Format Storage RecordChain SegmentInvariant ChannelInvariant ChannelSteps ChannelLog
  CrashProgram SegmentWalk WalkSpecs WriterCalls WriterOpen StoreRuns WriterSpecs RollSpecs RecoverySpecs

section Stranded
variable {τ : Type} {t : τ} {env : Env} {cfg : Config} {s : Nat} {π : Policy} {d : Disk} {segs : List Seg}
  {g g' : Seg} {R : Nat}

/- The record chain of a segment from the start of any region it reaches. -/
theorem chainFrom {f : File} (ok : SegOk R s f g) (geometry : Geometry R) {p : Nat} (below : p ≤ g.fin) :
    ∃ slots, Chain R f.data (p - p % R) slots g.fin := by
  have start : p - p % R = p / R * R := by
    have := slotSplit R p
    omega
  rw [start]
  obtain ⟨_, after, _, _, chain⟩ := ok.chain.fromRegion geometry.aligned (k := p / R) (by omega) (by
    have := slotSplit R p
    omega)
  exact ⟨after, chain⟩

/- What the walk to the end of a segment with a `Roll` finds, from any region start. -/
theorem walkToRoll (paged : R % env.page = 0) (inv : Inv R d segs) (found : segs[s]? = some g) (next : segs[s + 1]? = some g')
    (geometry : Geometry R) {p : Nat} (below : p ≤ g.fin) :
    ∃ n, walkOn env d g.ino R (p - p % R) =
      .ok ⟨g.fin, n, if d.data g.ino g.fin = 1 then .roll else .uncommitted⟩ := by
  have ok := (inv.each s g found).1
  have link := inv.link found next
  have large := geometry.large
  have room := ok.room
  obtain ⟨slots, chain⟩ := chainFrom ok geometry below
  refine ⟨users slots, ?_⟩
  by_cases flag : d.data g.ino g.fin = 1
  · rw [if_pos flag]
    exact walkOnRoll paged chain (by omega) flag link.kind link.length room ok.inside ok.bound
  · rw [if_neg flag]
    have free : d.data g.ino g.fin = 0 := by
      rcases link.position with ⟨one, _⟩ | ⟨one | zero, _⟩
      · exact absurd one flag
      · exact absurd one flag
      · exact zero
    exact walkOnOpen paged chain (by omega) free (by omega) ok.inside ok.bound

theorem linkSmall (inv : Inv R d segs) (next : segs[s + 1]? = some g') :
    s + 1 < 2 ^ 64 ∧ g'.base < 2 ^ 64 ∧ g'.ident.fileInstance ≠ 0 := by
  have ok := (inv.each _ _ next).1
  refine ⟨?_, ?_, (prefixOk.mp ok.header.ident).2.2.1⟩
  · rw [← ok.header.sequence]
    exact readLELt _ _ _
  · rw [← ok.base]
    exact readLELt _ _ _

theorem rollDecodes (inv : Inv R d segs) (found : segs[s]? = some g) (next : segs[s + 1]? = some g') :
    RollEdge.decode (slice (d.data g.ino) (g.fin + headerSlot) rollPayload) =
      .ok ⟨s + 1, g'.ident.fileInstance, g'.base⟩ := by
  obtain ⟨sequence, base, nonzero⟩ := linkSmall inv next
  show RollEdge.decode (slice (d.data g.ino) (g.fin + 16) 40) = _
  rw [(inv.link found next).body]
  exact decodeEncode sequence base nonzero

theorem rollNames (inv : Inv R d segs) (found : segs[s]? = some g) (next : segs[s + 1]? = some g') :
    RollEdge.names ⟨s + 1, g'.ident.fileInstance, g'.base⟩ s g.ident.fileInstance g'.ident = true := by
  obtain ⟨sequence, _, _⟩ := linkSmall inv next
  obtain ⟨parent, number⟩ := (inv.link found next).parent
  simp only [RollEdge.names, parent, number, beq_self_eq_true, Bool.true_and, decide_eq_true_eq]
  exact sequence

/- A `Roll` into the newest segment that is committed joins it. -/
theorem joinedOf (top : s + 2 = segs.length) (found : segs[s]? = some g) (flag : d.data g.ino g.fin = 1) :
    Joined d segs := by
  intro k h at_k last
  have : k = s := by omega
  subst this
  cases Option.some.inj (found.symm.trans at_k)
  exact flag

/- A change to the segment before the newest leaves the newest at rest. -/
theorem Rested.before {d' : Disk} (rested : Rested R d segs (s + 1) g') (inv : Inv R d' segs)
    (same : d'.data g'.ino = d.data g'.ino) (clean : d'.attempts = d.attempts) : Rested R d' segs (s + 1) g' :=
  ⟨inv, rested.found, rested.top, by rw [same]; exact rested.settled, by rw [clean]; exact rested.clean⟩

/- The last store of a roll and the wake, once the `Roll` is committed. -/
theorem finishCommitted (geometry : Geometry R) (rested : Rested R d segs (s + 1) g') (found : segs[s]? = some g)
    (flag : d.data g.ino g.fin = 1) (wp : writePosition (d.data g.ino) = g.fin + 16) :
    Spec (Quiet R π) t d (do
      if (← Act.look fun d => writePosition (d.data g.ino)) = g.fin + headerSlot then
        Act.emit [.store g.ino 16 (toLE 8 (g.fin + headerSlot + rollTotal))]
      wakeAll g.ino)
      fun r t' d' => t' = t ∧ r = .ok () ∧ Open R d' segs (s + 1) g' ∧ d'.len g'.ino = d.len g'.ino := by
  have inv := rested.inv
  have ge := (inv.each s g found).1.finGe
  have ne : g'.ino ≠ g.ino := inv.otherIno found rested.found (by omega)
  apply specLook
  rw [wp, if_pos rfl]
  have step : Step R π d segs (.store g.ino 16 (toLE 8 (g.fin + 72))) segs := .terminal found rested.found flag
  have rested1 := Rested.before rested (stepKeeps geometry inv step) (storeDataOther _ _ ne) rfl
  have flag1 : (d.apply (.store g.ino 16 (toLE 8 (g.fin + 72)))).data g.ino g.fin = 1 := by
    rw [storeData, writeOutside (.inr (by simp; omega))]
    exact flag
  have len1 := storeLen (d := d) g.ino 16 g'.ino (toLE 8 (g.fin + 72))
  refine specEmitTo (v := d.apply (.store g.ino 16 (toLE 8 (g.fin + 72)))) ⟨⟨lawfulOf inv step, rfl⟩, trivial⟩ rfl ?_
  generalize d.apply (.store g.ino 16 _) = d1 at rested1 flag1 len1 ⊢
  have rested2 := rested1.wake 116 (toLE 4 (wakeWord (d1.data g.ino) + 1)) found
    (.inr ⟨rfl, toLELength _ _⟩)
  refine ⟨⟨⟨lawfulOf rested1.inv (.wakeWord found), rfl⟩, trivial⟩, rfl, rfl, ⟨rested2, ?_⟩, ?_⟩
  · refine joinedOf rested.top found ?_
    show (d1.apply (.store g.ino 116 _)).data g.ino g.fin = 1
    rw [storeData, writeOutside (.inr (by simp; omega))]
    exact flag1
  · exact (storeLen _ _ _ _).trans len1

theorem finishRoll (geometry : Geometry R) (rested : Rested R d segs (s + 1) g') (found : segs[s]? = some g)
    {staged : Bool} (flag : staged = false → d.data g.ino g.fin = 1)
    (wp : writePosition (d.data g.ino) = g.fin + 16) :
    Spec (Quiet R π) t d (do
      if staged then
        Act.emit [.commit g.ino g.fin]
      if (← Act.look fun d => writePosition (d.data g.ino)) = g.fin + headerSlot then
        Act.emit [.store g.ino 16 (toLE 8 (g.fin + headerSlot + rollTotal))]
      wakeAll g.ino)
      fun r t' d' => t' = t ∧ r = .ok () ∧ Open R d' segs (s + 1) g' ∧ d'.len g'.ino = d.len g'.ino := by
  have inv := rested.inv
  have ge := (inv.each s g found).1.finGe
  have ne : g'.ino ≠ g.ino := inv.otherIno found rested.found (by omega)
  cases staged with
  | false =>
    rw [if_neg (by simp)]
    exact finishCommitted geometry rested found (flag rfl) wp
  | true =>
    rw [if_pos rfl]
    have step : Step R π d segs (.commit g.ino g.fin) segs := .commitRoll found rested.found
    have quiet : Quiet R π d (.commit g.ino g.fin) :=
      ⟨lawfulOf inv step, if_neg (by rw [(inv.link found rested.found).kind]; decide)⟩
    refine specEmitTo (v := d.apply (.commit g.ino g.fin)) ⟨quiet, trivial⟩ rfl ?_
    have rested1 := Rested.before rested (stepKeeps geometry inv step) (commitDataOther _ ne) rfl
    apply specMono (finishCommitted geometry rested1 found ?_ ?_)
    · rintro r t' d' ⟨same, ok, opened, len⟩
      exact ⟨same, ok, opened, len.trans (commitLen _ _ _)⟩
    · rw [commitData]
      exact writeInside (i := 0) rfl
    · rw [← wp, commitData]
      exact readLECongr fun a lo hi => writeOutside (.inl (by omega))

/- Which shape the walk of a segment with a `Roll` finds. -/
theorem rollShape {m : Mem} (link : Link s m g g') (n : Nat) :
    ∃ staged behind, strandedShape (writePosition m)
        ⟨g.fin, n, if m g.fin = 1 then .roll else .uncommitted⟩ = some (staged, behind) ∧
      (behind = false → m g.fin = 1) ∧
      (behind = true → writePosition m = g.fin + 16 ∧ (staged = false → m g.fin = 1)) := by
  unfold strandedShape
  rcases link.position with ⟨flag, wp⟩ | ⟨flag | flag, wp⟩
  · refine ⟨false, false, ?_, fun _ => flag, nofun⟩
    rw [flag, wp]
    exact if_pos ⟨rfl, rfl⟩
  · refine ⟨false, true, ?_, nofun, fun _ => ⟨wp, fun _ => flag⟩⟩
    rw [flag, wp, if_neg (by simp), if_pos ⟨rfl, rfl⟩]
  · refine ⟨true, true, ?_, nofun, fun _ => ⟨wp, nofun⟩⟩
    rw [flag, wp, if_neg (by simp), if_neg (by simp), if_pos ⟨rfl, rfl⟩]

theorem strandedSpec (admitted : Admitted env cfg) (rested : Rested cfg.regionSize d segs (s + 1) g') :
    Spec (Quiet cfg.regionSize π) t d (commitStrandedRoll env s cfg.regionSize g'.gen g'.ident g'.base)
      fun r t' d' => t' = t ∧ r = .ok () ∧ Open cfg.regionSize d' segs (s + 1) g' ∧ d'.len g'.ino = d.len g'.ino := by
  have inv := rested.inv
  have top : s + 2 = segs.length := rested.top
  have geometry := admitted.geometry
  have large := geometry.large
  obtain ⟨g, found⟩ : ∃ g, segs[s]? = some g := ⟨segs[s], List.getElem?_eq_getElem (by omega)⟩
  unfold commitStrandedRoll
  dsimp only
  apply specLook
  cases named : d.segments s with
  | none => exact ⟨trivial, rfl, rfl, ⟨rested, joinedOf top found (inv.gone s g found top named)⟩, rfl⟩
  | some ino =>
    have same : g.ino = ino := by
      obtain ⟨_, _, ⟨h, found', same⟩ | ⟨last, _⟩⟩ := inv.names s ino named
      · cases Option.some.inj (found.symm.trans found')
        exact same
      · omega
    subst same
    have ok := (inv.each s g found).1
    have link := inv.link found rested.found
    have ge := ok.finGe
    have room := ok.room
    have inside : (g.fin / cfg.regionSize + 1) * cfg.regionSize ≤ d.len g.ino := ok.inside
    have expand : (g.fin / cfg.regionSize + 1) * cfg.regionSize =
        g.fin / cfg.regionSize * cfg.regionSize + cfg.regionSize := by ring
    have split := slotSplit cfg.regionSize g.fin
    obtain ⟨header, _, prefixed, published⟩ := headerChecks ok
    have gens : generation (d.data g.ino) = g'.gen := by
      rw [link.gen]
      exact ok.gen
    have base : baseRecordIndex (d.data g.ino) = g.base := ok.base
    obtain ⟨sequence, baseSmall, nonzero⟩ := linkSmall inv rested.found
    dsimp only
    apply specLook
    rw [if_neg (by omega)]
    apply specSkip (createWritableIdle (by omega) admitted.paged (Nat.zero_mod _) (by omega))
    apply specLook
    rw [header, prefixed, published, gens, base]
    refine specSkip (u := t) (a := ()) rfl (specSkip (u := t) (a := g.ident) rfl
      (specSkip (u := t) (a := true) rfl ?_))
    apply specRefuse
    · exact fun bad => absurd rfl bad
    intro _
    apply specRefuse
    · rintro (bad | bad | bad)
      · exact absurd rfl bad
      · exact absurd link.parent.1 bad
      · exact absurd link.parent.2 bad
    intro _
    apply specLook
    rw [link.count]
    apply specRefuse
    · rintro (bad | bad)
      · have bad : 2 ^ 64 ≤ g.base + users g.slots := bad
        rw [← link.base] at bad
        omega
      · exact absurd link.base.symm bad
    intro _
    apply specLook
    have below : writePosition (d.data g.ino) - (headerSlot + rollTotal) ≤ g.fin := by
      show _ - 72 ≤ _
      rcases link.position with ⟨_, wp⟩ | ⟨_, wp⟩ <;> omega
    obtain ⟨n, walked⟩ := walkToRoll admitted.paged inv found rested.found geometry below
    obtain ⟨staged, behind, shape, done, lags⟩ := rollShape link n
    apply specLook
    rw [walked]
    refine specSkip (u := t) (a := ⟨g.fin, n, if d.data g.ino g.fin = 1 then .roll else .uncommitted⟩) rfl ?_
    rw [shape]
    dsimp only
    rw [show g.fin - g.fin % cfg.regionSize = g.fin / cfg.regionSize * cfg.regionSize by omega]
    refine specSkipIf (f := fun _ => _) (fun _ => createWritableIdle (by omega) admitted.paged
      (regionAligned admitted.paged _) (by omega)) ?_
    apply specLook
    rw [kindOk link.kind, readLength, link.length]
    refine specSkip (u := t) (a := HeaderType.roll) rfl ?_
    apply specRefuse
    · rintro (bad | bad) <;> exact absurd rfl bad
    intro _
    apply specLook
    rw [loadInside _ _ (by show _ + 16 + 40 ≤ _; omega),
      show g.fin / cfg.regionSize * cfg.regionSize + (g.fin - g.fin / cfg.regionSize * cfg.regionSize + headerSlot) =
        g.fin + 16 by show _ + (_ + 16) = _; omega]
    refine specSkip (u := t) (a := _) rfl ?_
    rw [rollDecodes inv found rested.found]
    refine specSkip (u := t) (a := ⟨s + 1, g'.ident.fileInstance, g'.base⟩) rfl ?_
    apply specRefuse
    · rintro (bad | bad)
      · exact absurd (rollNames inv found rested.found) bad
      · exact absurd rfl bad
    intro _
    cases behind with
    | false =>
      rw [if_pos (by simp)]
      exact specRet ⟨rfl, rfl, ⟨rested, joinedOf top found (done rfl)⟩, rfl⟩
    | true =>
      rw [if_neg (by simp)]
      obtain ⟨wp, flag⟩ := lags rfl
      exact finishRoll geometry rested found flag wp

end Stranded

section Admitted
variable {τ : Type} {t : τ} {env : Env} {cfg : Config} {d : Disk} {segs : List Seg}

/- The file of the newest segment, or a first one. -/
theorem openFileSpec (admitted : Admitted env cfg) (inv : Inv cfg.regionSize d segs) (clean : d.attempts = []) :
    Spec (Quiet cfg.regionSize cfg.policy) t d (openFile env cfg (segs.length - 1)) fun r t' d' => t' = t ∧
      ∃ segs' g, r = .ok ⟨g.ino, g.fin / cfg.regionSize, d'.len g.ino, g.fin⟩ ∧
        Rested cfg.regionSize d' segs' (segs.length - 1) g ∧
        (segs = [] → d.segments 0 = none → g.base = cfg.baseRecordIndex.toNat) := by
  have large := admitted.geometry.large
  unfold openFile
  apply specLook
  by_cases empty : segs = []
  · subst empty
    simp only [List.length_nil, Nat.zero_sub]
    cases named : d.segments 0 with
    | none =>
      apply specRefuse
      · exact fun bad => absurd rfl bad
      intro _
      apply specMono (createInitialSpec admitted inv named clean)
      rintro r t' d' ⟨same, g, ok, rested, base⟩
      exact ⟨same, [g], g, ok, rested, fun _ _ => base⟩
    | some i =>
      obtain ⟨_, _, ident, gen, blank, _⟩ := spareApart inv named
      have inside : cfg.regionSize ≤ d.len i := blank.inside
      apply specLook
      rw [if_pos (by omega)]
      apply specMono (resumeFirstSpec admitted inv named clean)
      rintro r t' d' ⟨same, g, ok, rested⟩
      exact ⟨same, [g], g, ok, rested, fun _ => nofun⟩
  · obtain ⟨s, top⟩ : ∃ s, s + 1 = segs.length :=
      ⟨segs.length - 1, by have := List.length_pos_iff.mpr empty; omega⟩
    obtain ⟨g, found⟩ : ∃ g, segs[s]? = some g := ⟨segs[s], List.getElem?_eq_getElem (by omega)⟩
    have last : segs.length - 1 = s := by omega
    have lt : g.fin + 56 ≤ d.len g.ino := (inv.each s g found).1.finLt
    rw [last, inv.newest s g found top]
    apply specLook
    rw [if_pos (by omega)]
    apply specMono (resumeSpec admitted inv found top clean)
    rintro r t' d' ⟨same, ok, rested⟩
    exact ⟨same, segs, g, ok, rested, fun none => absurd none empty⟩

theorem joinedFirst {R : Nat} {g : Seg} (rested : Rested R d segs 0 g) : Joined d segs := by
  intro k h _ last
  have := rested.top
  omega

theorem openOrCreateSpec (admitted : Admitted env cfg) (inv : Inv cfg.regionSize d segs) (clean : d.attempts = []) :
    Spec (Quiet cfg.regionSize cfg.policy) t d (openOrCreate env cfg) fun r t' d' => t' = t ∧
      ∃ w segs' s g, r = .ok w ∧ Ready env cfg w d' segs' s g ∧ w.pendingMsgSize = none ∧
        (segs = [] → d.segments 0 = none → s = 0 ∧ g.base = cfg.baseRecordIndex.toNat) := by
  have large := admitted.geometry.large
  have small := admitted.geometry.small
  have aligned := admitted.geometry.aligned
  unfold openOrCreate
  apply specRefuse
  · exact fun bad => absurd admitted.paged bad
  intro _
  apply specRefuse
  · exact fun bad => absurd (Nat.mod_eq_zero_of_dvd aligned) bad
  intro _
  apply specRefuse
  · intro bad
    exact absurd bad (by show ¬ (_ < 264); omega)
  intro _
  apply specRefuse
  · intro bad
    omega
  intro _
  refine specSeq (discardSpec admitted.geometry inv) ?_ ?_
  rotate_left
  · rintro e t' d' ⟨bad, _⟩
    cases bad
  rintro sequence t1 d1 ⟨ok1, rfl, trimmed⟩
  cases ok1
  refine specSeq (openFileSpec admitted trimmed.inv (trimmed.attempts.trans clean)) ?_ ?_
  rotate_left
  · rintro e t' d' ⟨_, _, _, bad, _⟩
    cases bad
  rintro o t2 d2 ⟨rfl, segs2, g, ok2, rested2, base⟩
  cases ok2
  have base : segs = [] → d.segments 0 = none → segs.length - 1 = 0 ∧ g.base = cfg.baseRecordIndex.toNat := by
    intro empty free
    refine ⟨by rw [empty]; rfl, base empty ?_⟩
    rw [trimmed.untouched empty]
    exact free
  generalize segs.length - 1 = s at rested2 base ⊢
  generalize flagged : (if cfg.wakeReaders then wakeFlags (d2.data g.ino) ||| 1
    else wakeFlags (d2.data g.ino) &&& ~~~1) = flags
  have wake := lawfulOf (π := cfg.policy) rested2.inv (.wakeFlags (b := flags) rested2.found)
  have rested3 := rested2.wake 113 [flags] rested2.found (.inl ⟨rfl, rfl⟩)
  have len3 := storeLen (d := d2) g.ino 113 g.ino [flags]
  refine specSeq (P := fun r t' d' => r = .ok () ∧ t' = t2 ∧ d' = d2.apply (.store g.ino 113 [flags])) ?_ ?_ ?_
  · rw [← flagged] at wake ⊢
    exact ⟨⟨⟨wake, rfl⟩, trivial⟩, rfl, rfl, rfl⟩
  rotate_left
  · rintro e t' d' ⟨bad, _⟩
    cases bad
  rintro _ t3 d3 ⟨_, rfl, rfl⟩
  generalize d2.apply (.store g.ino 113 [flags]) = d3 at rested3 len3 ⊢
  obtain ⟨_, _, prefixed, _⟩ := headerChecks rested3.ok
  apply specLook
  rw [prefixed]
  refine specSkip (u := t3) (a := g.ident) rfl ?_
  have opened (d4 : Disk) (open4 : Open cfg.regionSize d4 segs2 s g) (len4 : d4.len g.ino = d3.len g.ino) :
      Ready env cfg ⟨cfg, s, g.ident.fileInstance, g.ino, d2.len g.ino, g.fin / cfg.regionSize, g.fin, none⟩
        d4 segs2 s g :=
    { toOpen := open4
      config := rfl
      admitted := admitted
      sequence := rfl
      fileInstance := rfl
      ino := rfl
      fileLen := (len4.trans len3).symm
      region := rfl
      slot := rfl
      pending := nofun }
  cases s with
  | zero =>
    rw [if_neg (by omega)]
    exact specRet ⟨rfl, _, segs2, 0, g, rfl, opened d3 ⟨rested3, joinedFirst rested3⟩ rfl, rfl, base⟩
  | succ s =>
    rw [if_pos (by omega)]
    apply specLook
    apply specLook
    have gen : generation (d3.data g.ino) = g.gen := rested3.ok.gen
    have first : baseRecordIndex (d3.data g.ino) = g.base := rested3.ok.base
    rw [gen, first]
    refine specSeq (strandedSpec admitted rested3) ?_ ?_
    · rintro _ t4 d4 ⟨rfl, _, open4, len4⟩
      exact specRet ⟨rfl, _, segs2, s + 1, g, rfl, opened d4 open4 len4, rfl, base⟩
    · rintro e t' d' ⟨_, bad, _⟩
      cases bad

/- With settings it accepts, `build` succeeds on every channel of its region size. -/
theorem buildOk (admitted : Admitted env cfg) (inv : Inv cfg.regionSize d segs) :
    Spec (Quiet cfg.regionSize cfg.policy) t d (build env cfg) fun r t' d' => t' = t ∧
      ∃ w segs' s g, r = .ok w ∧ Ready env cfg w d' segs' s g ∧ w.pendingMsgSize = none ∧
        (segs = [] → d.segments 0 = none → s = 0 ∧ g.base = cfg.baseRecordIndex.toNat) := by
  have rolls := admitted.rolls
  have zero : cfg.fileRollSize ≠ 0 → cfg.fileRollSize.toNat ≠ 0 := fun ne eq =>
    ne (UInt64.toNat_inj.mp eq)
  unfold build
  apply specRefuse
  · rintro ⟨ne, short⟩
    have := zero ne
    omega
  intro _
  refine specSeq (sweepSpec inv) ?_ ?_
  · rintro _ t1 d1 ⟨_, rfl, inv1, clean1, names1⟩
    rw [← names1]
    exact openOrCreateSpec admitted inv1 clean1
  · rintro e t' d' ⟨bad, _⟩
    cases bad

end Admitted

section Refused
variable {τ : Type} {t : τ} {env : Env} {cfg : Config} {π : Policy} {R : Nat} {d : Disk} {segs : List Seg}

/-- Refused, in a channel that is still as it should be. -/
def Refused (R : Nat) (segs : List Seg) (t : τ) (r : Except IoError Writer) (t' : τ) (d' : Disk) : Prop :=
  (∃ e, r = .error e) ∧ t' = t ∧ Inv R d' segs

theorem notOk {α : Type} {r : Except IoError α} (h : ∀ a, r ≠ .ok a) : ∃ e, r = .error e := by
  cases r with
  | ok a => exact absurd rfl (h a)
  | error e => exact ⟨e, rfl⟩

/- A file of another region size is refused, after it was grown to the region asked for. -/
theorem resumeOther (geometry : Geometry R) (settings : Geometry cfg.regionSize) (other : cfg.regionSize ≠ R)
    {i s : Nat} (inv : Inv R d segs) (header : validateChannelHeader (d.data i) R s = .ok ())
    (long : 208 ≤ d.len i)
    (grow : ∀ n, d.len i ≤ n → n ≤ 2 ^ 63 - 1 → Step R π d segs (.setLen i n) segs) :
    Spec (Quiet R π) t d (resumeFile env i s cfg.regionSize cfg.fileRollSize.toNat)
      fun r t' d' => (∃ e, r = .error e) ∧ t' = t ∧ Inv R d' segs := by
  have small := settings.small
  unfold resumeFile
  refine specLift (fun initial _ => ?_) fun e _ => ⟨⟨e, rfl⟩, rfl, inv⟩
  refine specSeq (P := fun r t' d' => t' = t ∧ Inv R d' segs ∧ (∀ a, a < 208 → d'.data i a = d.data i a)) ?_ ?_ ?_
  · unfold createWritable
    refine specLift (fun _ _ => ?_) fun _ _ => ⟨rfl, inv, fun _ _ => rfl⟩
    apply specLook
    split
    · rename_i short
      have fits : 0 + cfg.regionSize ≤ maxFileLen := by show _ ≤ 2 ^ 63 - 1; omega
      unfold setLen
      rw [if_pos fits]
      have step := grow (0 + cfg.regionSize) (by omega) fits
      refine ⟨⟨⟨lawfulOf inv step, rfl⟩, trivial⟩, rfl, stepKeeps geometry inv step, fun a low => ?_⟩
      show (d.apply (.setLen i (0 + cfg.regionSize))).data i a = _
      rw [Disk.apply, setFileData]
      exact if_pos ⟨by omega, by omega⟩
    · exact specRet ⟨rfl, inv, fun _ _ => rfl⟩
  · rintro _ t1 d1 ⟨rfl, inv1, same⟩
    have header1 : validateChannelHeader (d1.data i) R s = .ok () := by
      rw [validateCongr fun a h => same a (by unfold Constant at h; omega)]
      exact header
    obtain ⟨e, refused⟩ := notOk (r := validateChannelHeader (d1.data i) cfg.regionSize s) fun _ ok => other
      ((validateOk.mp ok).2.2.2.2.1.symm.trans (validateOk.mp header1).2.2.2.2.1)
    apply specLook
    rw [refused]
    exact ⟨trivial, ⟨e, rfl⟩, rfl, inv1⟩
  · rintro e t1 d1 ⟨same, inv1, _⟩
    exact ⟨⟨e, rfl⟩, same, inv1⟩

/- A channel without a name is one of any region size. -/
theorem anyRegionSize (inv : Inv R d []) (free : d.segments 0 = none) (R' : Nat) : Inv R' d [] where
  history := inv.history
  distinct := inv.distinct
  old := inv.old
  names := by
    intro s i named
    obtain ⟨_, _, ⟨g, found, _⟩ | ⟨top, _⟩⟩ := inv.names s i named
    · simp at found
    · have : s = 0 := top
      subst this
      rw [free] at named
      cases named
  newest := by simp
  attempts := inv.attempts
  apart := inv.apart
  each := by simp
  gone := by simp

theorem openFileRefused (formed : Formed cfg) (geometry : Geometry R) (settings : Geometry cfg.regionSize)
    (paged : cfg.regionSize % env.page = 0)
    (rolls : cfg.fileRollSize.toNat = 0 ∨ 2 * cfg.regionSize ≤ cfg.fileRollSize.toNat) (inv : Inv R d segs)
    (no : ¬ (Admitted env cfg ∧ Inv cfg.regionSize d segs)) :
    Spec (Quiet R π) t d (openFile env cfg (segs.length - 1))
      fun r t' d' => (∃ e, r = .error e) ∧ t' = t ∧ Inv R d' segs := by
  have large := geometry.large
  -- no length to allocate, or a file of another region size
  have why : (∃ e, preallocationLen cfg.regionSize cfg.fileRollSize.toNat = .error e) ∨
      ¬ Inv cfg.regionSize d segs := by
    by_cases mine : Inv cfg.regionSize d segs
    · refine .inl (notOk fun len ok => no ⟨?_, mine⟩)
      exact ⟨settings, paged, rolls, ⟨len, ok⟩, formed.named, formed.kept⟩
    · exact .inr mine
  have resumed {i s : Nat} (header : validateChannelHeader (d.data i) R s = .ok ()) (long : 208 ≤ d.len i)
      (grow : ∀ n, d.len i ≤ n → n ≤ 2 ^ 63 - 1 → Step R π d segs (.setLen i n) segs) :
      Spec (Quiet R π) t d (resumeFile env i s cfg.regionSize cfg.fileRollSize.toNat)
        fun r t' d' => (∃ e, r = .error e) ∧ t' = t ∧ Inv R d' segs := by
    rcases why with ⟨e, refused⟩ | other
    · unfold resumeFile
      rw [refused]
      exact ⟨trivial, ⟨e, rfl⟩, rfl, inv⟩
    · exact resumeOther geometry settings (fun same => other (same ▸ inv)) inv header long grow
  unfold openFile
  apply specLook
  by_cases empty : segs = []
  · subst empty
    simp only [List.length_nil, Nat.zero_sub]
    cases named : d.segments 0 with
    | none =>
      rcases why with ⟨e, refused⟩ | other
      · apply specRefuse
        · exact fun _ => ⟨⟨_, rfl⟩, rfl, inv⟩
        intro _
        unfold createInitial prepareSegmentAt
        apply specLook
        rw [named, refused]
        exact ⟨trivial, ⟨e, rfl⟩, rfl, inv⟩
      · exact absurd (anyRegionSize inv named _) other
    | some i =>
      obtain ⟨_, _, ident, gen, blank, _⟩ := spareApart inv named
      have inside : R ≤ d.len i := blank.inside
      apply specLook
      rw [if_pos (by omega)]
      exact resumed blank.header.header (by omega) fun n longer bound => .spareLen named longer bound
  · obtain ⟨s, top⟩ : ∃ s, s + 1 = segs.length :=
      ⟨segs.length - 1, by have := List.length_pos_iff.mpr empty; omega⟩
    obtain ⟨g, found⟩ : ∃ g, segs[s]? = some g := ⟨segs[s], List.getElem?_eq_getElem (by omega)⟩
    have last : segs.length - 1 = s := by omega
    have ok := (inv.each s g found).1
    have ge := ok.finGe
    have lt : g.fin + 56 ≤ d.len g.ino := ok.finLt
    rw [last, inv.newest s g found top]
    apply specLook
    rw [if_pos (by omega)]
    exact resumed ok.header.header (by omega) fun n longer bound => .grow found longer bound

theorem openOrCreateRefused (formed : Formed cfg) (geometry : Geometry R)
    (rolls : cfg.fileRollSize.toNat = 0 ∨ 2 * cfg.regionSize ≤ cfg.fileRollSize.toNat ∨ u64Max ≤ cfg.fileRollSize.toNat)
    (inv : Inv R d segs) (no : ¬ (Admitted env cfg ∧ Inv cfg.regionSize d segs)) :
    Spec (Quiet R π) t d (openOrCreate env cfg) (Refused R segs t) := by
  unfold openOrCreate
  apply specRefuse
  · exact fun _ => ⟨⟨_, rfl⟩, rfl, inv⟩
  intro paged
  apply specRefuse
  · exact fun _ => ⟨⟨_, rfl⟩, rfl, inv⟩
  intro aligned
  apply specRefuse
  · exact fun _ => ⟨⟨_, rfl⟩, rfl, inv⟩
  intro large
  apply specRefuse
  · exact fun _ => ⟨⟨_, rfl⟩, rfl, inv⟩
  intro small
  have large : ¬ (cfg.regionSize < 264) := large
  have aligned : ¬ (cfg.regionSize % 8 ≠ 0) := aligned
  have settings : Geometry cfg.regionSize :=
    ⟨by omega, by omega, Nat.dvd_of_mod_eq_zero (by omega)⟩
  have rolls : cfg.fileRollSize.toNat = 0 ∨ 2 * cfg.regionSize ≤ cfg.fileRollSize.toNat := by
    rcases rolls with zero | enough | most
    · exact .inl zero
    · exact .inr enough
    · have : 2 ^ 64 - 1 ≤ cfg.fileRollSize.toNat := most
      omega
  refine specSeq (discardSpec geometry inv) ?_ ?_
  rotate_left
  · rintro e t' d' ⟨bad, _⟩
    cases bad
  rintro sequence t1 d1 ⟨ok1, rfl, trimmed⟩
  cases ok1
  have no1 : ¬ (Admitted env cfg ∧ Inv cfg.regionSize d1 segs) := by
    rintro ⟨admitted, inv1⟩
    rcases (sameRegionSize trimmed.inv inv1).2 with empty | same
    · exact no ⟨admitted, trimmed.untouched empty ▸ inv1⟩
    · exact no ⟨admitted, same ▸ inv⟩
  refine specSeq (openFileRefused formed geometry settings (by omega) rolls trimmed.inv no1) ?_ ?_
  · rintro o t2 d2 ⟨⟨e, bad⟩, _⟩
    cases bad
  · rintro e t2 d2 ⟨_, same, inv2⟩
    exact ⟨⟨e, rfl⟩, same, inv2⟩

end Refused

section Build
variable {τ : Type} {t : τ} {env : Env} {cfg : Config} {π : Policy} {d : Disk} {segs : List Seg}

/-- A legal step that commits no User record. -/
def Calm (env : Env) (uses : Policy → Prop) (d : Disk) (op : Op) : Prop := Legal env uses d op ∧ committedBy d op = []

theorem calmOf {R : Nat} {uses : Policy → Prop} {ops : List Op} (kept : uses π) (regions : Regions env R)
    (quiet : Guar Disk.apply (Quiet R π) d ops) : Guar Disk.apply (Calm env uses) d ops :=
  guarMono (fun _ _ h => ⟨⟨π, R, kept, regions, h.1⟩, h.2⟩) quiet

/- With any settings and on any channel, `build` makes legal steps only and commits nothing; it ends
with a writer at the open end of the newest segment, or refuses. -/
theorem buildSpec {uses : Policy → Prop} (formed : Formed cfg) (kept : uses cfg.policy) (sound : Sound env d segs) :
    Spec (Calm env uses) t d (build env cfg) fun r t' d' => t' = t ∧
      ((∃ w segs' s g, r = .ok w ∧ Ready env cfg w d' segs' s g ∧ w.pendingMsgSize = none) ∨
        ((∃ e, r = .error e) ∧ ∃ segs', Sound env d' segs')) := by
  obtain ⟨R, regions, inv⟩ := sound
  have geometry := regions.toGeometry
  unfold build
  apply specRefuse
  · exact fun _ => ⟨rfl, .inr ⟨⟨_, rfl⟩, segs, R, regions, inv⟩⟩
  intro rolls
  obtain ⟨swept, ok1, same1, inv1, clean1, _⟩ := sweepSpec (t := t) (π := cfg.policy) inv
  refine specSeq (P := fun r t' d' => t' = t ∧ Inv R d' segs ∧ d'.attempts = [])
    ⟨calmOf kept regions swept, same1, inv1, clean1⟩ ?_ ?_
  rotate_left
  · rintro e t' d' ⟨same, inv', _⟩
    exact ⟨same, .inr ⟨⟨e, rfl⟩, segs, R, regions, inv'⟩⟩
  rintro _ t1 d1 ⟨rfl, inv1, clean1⟩
  by_cases accepted : Admitted env cfg ∧ Inv cfg.regionSize d1 segs
  · obtain ⟨admitted, mine⟩ := accepted
    obtain ⟨guar, same, w, segs', s, g, ok, ready, idle, _⟩ := openOrCreateSpec (t := t1) admitted mine clean1
    exact ⟨calmOf kept admitted.regions guar, same, .inl ⟨w, segs', s, g, ok, ready, idle⟩⟩
  · have rolls : cfg.fileRollSize.toNat = 0 ∨ 2 * cfg.regionSize ≤ cfg.fileRollSize.toNat ∨
        u64Max ≤ cfg.fileRollSize.toNat := by
      by_cases zero : cfg.fileRollSize = 0
      · rw [zero]
        exact .inl rfl
      · have enough : ¬ (cfg.fileRollSize.toNat < min (2 * cfg.regionSize) u64Max) := fun short => rolls ⟨zero, short⟩
        omega
    obtain ⟨guar, failed, same, inv2⟩ := openOrCreateRefused (t := t1) (π := cfg.policy) formed geometry rolls
      inv1 accepted
    exact ⟨calmOf kept regions guar, same, .inr ⟨failed, segs, R, regions, inv2⟩⟩

end Build
end Xchannel.BuildSpecs
