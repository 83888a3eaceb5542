import Xchannel.WriterSpecs

/-! Preparing a segment under its private name, installing or adopting it, and the whole of
`roll_file`: the successor is published before the `Roll` that leads to it is committed. -/
namespace Xchannel.RollSpecs
open ByteMemory Format Storage RecordChain SegmentInvariant ChannelInvariant ChannelSteps ChannelLog
  CrashProgram WriterCalls StoreRuns WriterSpecs

section Prepare
variable {τ : Type} {R : Nat} {π : Policy} {d d' : Disk} {segs : List Seg} {s : Nat} {g : Seg}

/- Stores into a private file are nobody's business. -/
theorem privateRun (inv : Inv R d segs) {a : Attempt} (mem : a ∈ d.attempts) (fields : Fields) :
    Guar Disk.apply (Quiet R π) d (stores a.ino fields) ∧
    Inv R (run Disk.apply d (stores a.ino fields)) segs ∧
    a ∈ (run Disk.apply d (stores a.ino fields)).attempts := by
  refine ⟨?_, ?_, ?_⟩
  · induction fields generalizing d with
    | nil => trivial
    | cons f fields ih =>
      exact ⟨⟨lawfulOf inv (.attemptStore mem), rfl⟩, ih (attemptKeeps inv mem _) mem⟩
  · rw [runStores]
    exact attemptKeeps inv mem _
  · rw [runStores]
    exact mem

/- The segments' own files are as they were. -/
theorem Open.elsewhere (o : Open R d segs s g) (inv : Inv R d' segs)
    (same : ∀ i ∈ segs.map Seg.ino, d'.files i = d.files i) (clean : d'.attempts = []) :
    Open R d' segs s g := by
  have data {h : Seg} {k : Nat} (at_k : segs[k]? = some h) : d'.data h.ino = d.data h.ino := by
    simp only [Disk.data, same _ (inoMem at_k)]
  refine ⟨⟨inv, o.found, o.top, ?_, clean⟩, ?_⟩
  · rw [data o.found]
    exact o.settled
  · intro k h at_k last
    rw [data at_k]
    exact o.joined k h at_k last

/-- What a fresh attempt starts from. -/
structure Fresh (R : Nat) (d : Disk) (segs : List Seg) (identity : Identity) (gen : Nat) : Prop where
  inv : Inv R d segs
  clean : d.attempts = []
  small : segs.length < 2 ^ 64
  genSmall : gen < 2 ^ 64
  nonzero : identity.fileInstance ≠ 0
  number : identity.predecessorSequence < 2 ^ 64
  parent : identity.predecessor = 0 ↔ identity.predecessorSequence = u64Max
  parented : Parented segs identity gen

/-- The disk with the attempt laid out under its private name. -/
structure Laid (R : Nat) (π : Policy) (d d' : Disk) (segs : List Seg) (identity : Identity) (gen base len : Nat) : Prop where
  inv : Inv R d' segs
  attempts : d'.attempts = [⟨segs.length, identity.fileInstance, d.fresh⟩]
  blank : Blank R segs.length (d'.files d.fresh) identity gen
  labelled : Labelled π (d'.data d.fresh)
  base : baseRecordIndex (d'.data d.fresh) = base
  length : d'.len d.fresh = len
  names : d'.segments = d.segments
  others : ∀ i, i ≠ d.fresh → d'.files i = d.files i

theorem initSegmentSpec {env : Env} {cfg : Config} {t : τ} {identity : Identity} {gen base len : Nat}
    (admitted : Admitted env cfg)
    (allocated : preallocationLen cfg.regionSize cfg.fileRollSize.toNat = .ok len)
    (fresh : Fresh cfg.regionSize d segs identity gen) (baseSmall : base < 2 ^ 64) :
    Spec (Quiet cfg.regionSize π) t (d.apply (.create segs.length identity.fileInstance))
      (initSegment env d.fresh segs.length cfg.regionSize len cfg.mtu.toNat cfg.channelName base gen identity)
      fun r t' d' => t' = t ∧ r = .ok ⟨d.fresh, len, 208⟩ ∧
        Laid cfg.regionSize cfg.policy d d' segs identity gen base len := by
  obtain ⟨enough, bound⟩ := admitted.length allocated
  have large := admitted.geometry.large
  have inv0 := createKeeps fresh.inv segs.length identity.fileInstance
  generalize create : d.apply (.create segs.length identity.fileInstance) = d0 at inv0
  have attempts0 : d0.attempts = [⟨segs.length, identity.fileInstance, d.fresh⟩] := by
    rw [← create]
    simp [Disk.apply, fresh.clean]
  have mem0 : (⟨segs.length, identity.fileInstance, d.fresh⟩ : Attempt) ∈ d0.attempts := by
    rw [attempts0]
    exact List.mem_singleton_self _
  have others0 (i : Nat) (ne : i ≠ d.fresh) : d0.files i = d.files i := by
    rw [← create]
    exact setFileOther _ ne
  have names0 : d0.segments = d.segments := by
    rw [← create]
    rfl
  unfold initSegment setLen
  rw [if_pos (by show len ≤ 2 ^ 63 - 1; exact bound)]
  refine specEmit ⟨⟨lawfulOf inv0 (.attemptLen mem0), rfl⟩, trivial⟩ ?_
  have inv1 := attemptKeeps inv0 mem0
    ⟨len, fun a => if a < len ∧ a < d0.len d.fresh then d0.data d.fresh a else 0⟩
  show Spec _ _ (d0.setFile d.fresh _) _ _
  generalize sized : d0.setFile d.fresh _ = d1 at inv1
  have length1 : d1.len d.fresh = len := by rw [← sized, setFileLen]
  have mem1 : (⟨segs.length, identity.fileInstance, d.fresh⟩ : Attempt) ∈ d1.attempts := by
    rw [← sized]
    exact mem0
  have mapped {d' : Disk} (long : d'.len d.fresh = len) :
      createWritable env d.fresh 0 cfg.regionSize t d' = ([], .ok (), t) :=
    createWritableIdle (by omega) admitted.paged (Nat.zero_mod _) (by omega)
  apply specSkip (mapped length1)
  obtain ⟨guar2, inv2, mem2⟩ := privateRun (π := π) inv1 mem1
    (channelStores segs.length cfg.regionSize cfg.mtu.toNat cfg.channelName base gen identity)
  refine specEmit guar2 ?_
  apply specSkip (mapped (by rw [runStores, setFileLen]; exact length1))
  apply specRefuse
  · intro bad
    exact absurd bad (by show ¬ (_ < 208 + 16); omega)
  intro _
  obtain ⟨guar3, inv3, mem3⟩ := privateRun (π := π) inv2 mem2 (MessageHeader.preinstall.stores firstRecord)
  refine specEmit guar3 ?_
  obtain ⟨guar4, inv4, mem4⟩ := privateRun (π := π) inv3 mem3 [(16, toLE 8 (firstRecord + headerSlot))]
  refine specEmit guar4 ⟨trivial, rfl, rfl, ?_⟩
  -- the three runs of stores are one, and lay out the whole segment
  have whole : ∀ fields1 fields2 fields3 : Fields, run Disk.apply (run Disk.apply (run Disk.apply d1
      (stores d.fresh fields1)) (stores d.fresh fields2)) (stores d.fresh fields3) =
      d1.setFile d.fresh { d1.files d.fresh with data := writes (d1.data d.fresh) (fields1 ++ fields2 ++ fields3) } := by
    intro fields1 fields2 fields3
    rw [← runStores, ← runAppend, ← runAppend, stores, stores, stores, stores, ← List.map_append, ← List.map_append,
      List.append_assoc]
  change Laid _ _ _ (run Disk.apply (run Disk.apply (run Disk.apply d1 _) _) (stores d.fresh
    [(16, toLE 8 (firstRecord + headerSlot))])) _ _ _ _ _
  rw [whole] at inv4 ⊢
  refine ⟨inv4, ?_, ?_, ?_, ?_, ?_, ?_, ?_⟩
  · show d1.attempts = _
    rw [← sized]
    exact attempts0
  · rw [setFileSame]
    exact segmentBlank _ admitted.named fresh.small admitted.geometry.small fresh.genSmall fresh.nonzero fresh.number
      fresh.parent (enough.trans length1.ge) (length1.le.trans bound)
  · rw [setFileData]
    exact segmentLabels _ admitted.named
  · rw [setFileData]
    exact segmentBase _ admitted.named baseSmall
  · rw [setFileLen]
    exact length1
  · show d1.segments = _
    rw [← sized]
    exact names0
  · intro i ne
    rw [setFileOther _ ne, ← sized, setFileOther _ ne]
    exact others0 i ne

theorem prepareSegmentSpec {env : Env} {cfg : Config} {t : τ} {identity : Identity} {gen base : Nat}
    (admitted : Admitted env cfg) (fresh : Fresh cfg.regionSize d segs identity gen) (baseSmall : base < 2 ^ 64) :
    Spec (Quiet cfg.regionSize cfg.policy) t d
      (prepareSegmentAt env segs.length cfg.regionSize cfg.fileRollSize.toNat cfg.mtu.toNat cfg.channelName base gen
        identity)
      fun r t' d' => t' = t ∧ ∃ len, preallocationLen cfg.regionSize cfg.fileRollSize.toNat = .ok len ∧
        r = .ok ⟨d.fresh, len, 208⟩ ∧ Laid cfg.regionSize cfg.policy d d' segs identity gen base len := by
  obtain ⟨len, allocated⟩ := admitted.allocated
  unfold prepareSegmentAt
  rw [allocated]
  apply specLift
  · intro n same
    cases same
    apply specLook
    apply specRefuse
    · intro taken
      simp [Disk.findAttempt, fresh.clean] at taken
    intro _
    apply specLook
    refine specEmit ⟨⟨lawfulOf fresh.inv .create, rfl⟩, trivial⟩ ?_
    refine specAttempt (specMono (initSegmentSpec admitted allocated fresh baseSmall) ?_)
    rintro r t' d' ⟨rfl, rfl, laid⟩
    exact ⟨trivial, rfl, len, rfl, rfl, laid⟩
  · intro e same
    cases same

/- The private file under the final name: the prepared successor of the newest segment. -/
theorem installSpec {t : τ} {identity : Identity} {gen base len : Nat}
    (laid : Laid R π d d' segs identity gen base len) (parented : Parented segs identity gen)
    (free : d.segments segs.length = none) :
    Spec (Quiet R π) t d' (installNoReplace segs.length identity.fileInstance) fun r t' d'' =>
      t' = t ∧ r = .ok true ∧ Inv R d'' segs ∧ d''.attempts = [] ∧ d''.segments segs.length = some d.fresh ∧
      d''.files = d'.files ∧ ∀ k, k ≠ segs.length → d''.segments k = d.segments k := by
  have found : d'.findAttempt segs.length identity.fileInstance =
      some ⟨segs.length, identity.fileInstance, d.fresh⟩ := by
    simp [Disk.findAttempt, laid.attempts]
  unfold installNoReplace
  apply specLook
  rw [laid.names, free]
  simp only [Option.isSome_none, Bool.false_eq_true, if_false]
  have spare : Spare R segs (d'.files d.fresh) := ⟨identity, gen, laid.blank, parented⟩
  have step : Step R π d' segs (.install segs.length identity.fileInstance) segs :=
    .install found (by rw [laid.names]; exact free) spare laid.labelled
  refine specEmit ⟨⟨lawfulOf laid.inv step, rfl⟩, trivial⟩ ?_
  apply specRet
  refine ⟨rfl, rfl, installKeeps laid.inv found spare, ?_⟩
  simp only [runCons, runNil, Disk.apply, found]
  refine ⟨?_, by simp, trivial, ?_⟩
  · simp [Disk.dropAttempt, laid.attempts]
  · intro k ne
    simp [ne, laid.names]

end Prepare

section Successor
variable {env : Env} {cfg : Config} {w : Writer} {d : Disk} {segs : List Seg} {s : Nat} {g : Seg}
  {π : Policy}

/-- A successor installed under its final name and not yet published. -/
structure Installed (R : Nat) (d : Disk) (segs : List Seg) (g : Seg) (identity : Identity)
    (prepared : PreparedSegment) : Prop where
  named : d.segments segs.length = some prepared.ino
  blank : Blank R segs.length (d.files prepared.ino) identity g.gen
  parented : Parented segs identity g.gen
  length : prepared.fileLen = d.len prepared.ino
  slot : prepared.nextHdr = 208

/- Adoption changes nothing: it only accepts what the invariant says is there, or refuses. -/
theorem adoptSpec (ready : Ready env cfg w d segs s g) (i : Nat) (named : d.segments segs.length = some i) :
    Spec (Quiet cfg.regionSize π) w d (adoptSuccessor env segs.length g.gen) fun r w' d' =>
      w' = w ∧ d' = d ∧ ∀ identity prepared, r = .ok (identity, prepared) →
        Installed cfg.regionSize d segs g identity prepared := by
  obtain ⟨_, _, ident, gen, blank, parented⟩ := spareApart ready.inv named
  obtain ⟨len, allocated⟩ := ready.admitted.allocated
  have large := ready.admitted.geometry.large
  have gens : gen = g.gen := (parented.next s g ready.found ready.top).2.2
  subst gens
  have mapped : createWritable env i 0 cfg.regionSize w d = ([], .ok (), w) :=
    createWritableIdle (by omega) ready.admitted.paged (Nat.zero_mod _) (by
      have : cfg.regionSize ≤ d.len i := blank.inside
      omega)
  unfold adoptSuccessor
  refine specSelf (specLook ?_)
  rw [named]
  simp only [ready.config, allocated]
  apply specLift
  · intro n same
    cases same
    apply specLook
    split
    · exact ⟨trivial, rfl, rfl, fun _ _ ok => by cases ok⟩
    · rename_i length
      apply specSkip mapped
      apply specLook
      have header : validateChannelHeader (d.data i) cfg.regionSize segs.length = .ok () := blank.header.header
      have prefixed : validateV4Prefix (d.data i) = .ok ident := blank.header.ident
      have unpublished : isPublished (d.data i) = .ok false := preparedOk blank.unpublished
      rw [header, prefixed, unpublished]
      refine specSkip (u := w) (a := ()) rfl (specSkip (u := w) (a := ident) rfl
        (specSkip (u := w) (a := false) rfl ?_))
      simp only [Bool.false_eq_true, if_false]
      split
      · exact ⟨trivial, rfl, rfl, fun _ _ ok => by cases ok⟩
      · split
        · exact ⟨trivial, rfl, rfl, fun _ _ ok => by cases ok⟩
        · apply specSkip mapped
          have signed : MessageHeader.read (d.data i) firstRecord = .preinstall := blank.signed
          rw [signed, preinstallSigned]
          refine specSkip (u := w) (a := ()) rfl ⟨trivial, rfl, rfl, fun identity prepared ok => ?_⟩
          cases ok
          exact ⟨named, blank, parented, (not_not.mp length).symm, rfl⟩
  · intro e same
    cases same

/- The writer is where it was, on a disk that changed elsewhere only. -/
theorem Ready.elsewhere {d' : Disk} (ready : Ready env cfg w d segs s g) (inv : Inv cfg.regionSize d' segs)
    (same : ∀ i ∈ segs.map Seg.ino, d'.files i = d.files i) (clean : d'.attempts = []) :
    Ready env cfg w d' segs s g := by
  have file : d'.files g.ino = d.files g.ino := same _ (inoMem ready.found)
  exact { ready with
    toOpen := Open.elsewhere ready.toOpen inv same clean
    fileLen := by rw [ready.fileLen, Disk.len, Disk.len, file]
    pending := by
      have data : d'.data g.ino = d.data g.ino := by rw [Disk.data, file, Disk.data]
      rw [data]
      exact ready.pending }

theorem successorFresh (ready : Ready env cfg w d segs s g) (more : s + 1 < 2 ^ 64) :
    Fresh cfg.regionSize d segs (Identity.successor (env.ids d.fresh) w.fileInstance w.fileSequence) g.gen := by
  have ok := ready.ok
  have named := (prefixOk.mp ok.header.ident).2.2.1
  have top := ready.top
  refine ⟨ready.inv, ready.clean, by omega, ?_, env.idsNonzero _, ?_, ?_, ?_, ?_⟩
  · rw [← ok.gen]
    exact readLELt _ _ _
  · rw [Identity.successor, ready.sequence]
    show s < 2 ^ 64
    omega
  · rw [Identity.successor, ready.sequence, ready.fileInstance]
    refine ⟨fun zero => absurd zero named, fun last => ?_⟩
    have last : s = 2 ^ 64 - 1 := last
    omega
  · intro empty
    rw [empty] at top
    simp at top
  · intro k h at_k last
    have : k = s := by omega
    subst this
    cases Option.some.inj (ready.found.symm.trans at_k)
    exact ⟨ready.fileInstance, ready.sequence, rfl⟩

theorem prepareSuccessorSpec (ready : Ready env cfg w d segs s g) (more : s + 1 < 2 ^ 64) :
    Spec (Quiet cfg.regionSize cfg.policy) w d (prepareSuccessor env segs.length g.gen) fun r w' d' =>
      Ready env cfg w' d' segs s g ∧ w'.pendingMsgSize = w.pendingMsgSize ∧
      ∀ identity prepared, r = .ok (identity, prepared) → Installed cfg.regionSize d' segs g identity prepared := by
  unfold prepareSuccessor
  refine specSelf (specLook ?_)
  cases named : d.segments segs.length with
  | some i =>
    simp only [Option.isSome_some, if_true]
    apply specMono (adoptSpec ready i named)
    rintro r w' d' ⟨rfl, rfl, adopted⟩
    exact ⟨ready, rfl, adopted⟩
  | none =>
    simp only [Option.isSome_none, Bool.false_eq_true, if_false]
    apply specLook
    have fresh := successorFresh ready more
    have apart : d.fresh ∉ segs.map Seg.ino := by
      intro mem
      obtain ⟨h, memH, same⟩ := List.mem_map.mp mem
      have := ready.inv.old h memH
      omega
    rw [ready.config]
    refine specSeq (prepareSegmentSpec ready.admitted fresh (by omega)) ?_ ?_
    · rintro prepared w1 d1 ⟨rfl, len, allocated, ok, laid⟩
      cases ok
      refine specSeq (installSpec laid fresh.parented named) ?_ ?_
      · rintro a w2 d2 ⟨rfl, ok, inv2, clean2, named2, files2, _⟩
        cases ok
        rw [if_pos rfl]
        apply specRet
        refine ⟨Ready.elsewhere ready inv2 (fun i mem => ?_) clean2, rfl, fun identity prepared ok => ?_⟩
        · rw [files2]
          exact laid.others i fun same => apart (same ▸ mem)
        · cases ok
          refine ⟨named2, ?_, fresh.parented, ?_, rfl⟩
          · rw [files2]
            exact laid.blank
          · rw [Disk.len, files2]
            exact laid.length.symm
      · rintro e w2 d2 ⟨_, ok, _⟩
        cases ok
    · rintro e w1 d1 ⟨_, _, _, ok, _⟩
      cases ok

theorem afterOk {sequence base count : Nat} {next : InstanceId} {edge : RollEdge}
    (h : RollEdge.after sequence base count next = .ok edge) :
    edge = ⟨sequence + 1, next, base + count⟩ ∧ base + count < 2 ^ 64 := by
  simp only [RollEdge.after, bind, Except.bind, pure, Except.pure, throw, throwThe, MonadExceptOf.throw] at h
  rw [refusedOk, refusedOk] at h
  obtain ⟨_, low, same⟩ := h
  exact ⟨(Except.ok.inj same).symm, Nat.lt_of_not_le low⟩

theorem encodeLength (e : RollEdge) : e.encode.length = 40 := by simp [RollEdge.encode, RollEdge.covered]

theorem Installed.unchanged {R : Nat} {d' : Disk} {identity : Identity} {prepared : PreparedSegment}
    (h : Installed R d segs g identity prepared) (names : d'.segments = d.segments)
    (file : d'.files prepared.ino = d.files prepared.ino) : Installed R d' segs g identity prepared where
  named := by rw [names]; exact h.named
  blank := by rw [file]; exact h.blank
  parented := h.parented
  length := by rw [Disk.len, file]; exact h.length
  slot := h.slot

/- Stores into the prepared file before it is published. -/
theorem Installed.store {R : Nat} (off : Nat) (bytes : List UInt8) {identity : Identity} {prepared : PreparedSegment}
    (o : Open R d segs s g) (h : Installed R d segs g identity prepared)
    (only : (off = 32 ∧ bytes.length = 8) ∨ (off = 113 ∧ bytes.length = 1)) :
    Open R (d.apply (.store prepared.ino off bytes)) segs s g ∧
    Installed R (d.apply (.store prepared.ino off bytes)) segs g identity prepared ∧
    (d.apply (.store prepared.ino off bytes)).data g.ino = d.data g.ino := by
  obtain ⟨_, apart, _⟩ := spareApart o.inv h.named
  have other (i : Nat) (mem : i ∈ segs.map Seg.ino) :
      (d.apply (.store prepared.ino off bytes)).files i = d.files i :=
    setFileOther _ fun same => apart (same ▸ mem)
  refine ⟨Open.elsewhere o (spareStoreKeeps o.inv h.named only) other o.clean,
    ⟨h.named, ?_, h.parented, ?_, h.slot⟩, ?_⟩
  · rw [Disk.apply, setFileSame]
    exact blankCongr h.blank (fun a _ h => writeOutside (by omega)) (Nat.le_refl _) h.blank.bound
  · rw [storeLen]
    exact h.length
  · rw [Disk.data, other _ (inoMem o.found), Disk.data]

/-- The disk with the whole `Roll` laid out at the open slot. -/
structure Laying (R : Nat) (d d' : Disk) (segs : List Seg) (s : Nat) (g : Seg) (next : InstanceId) (base : Nat) :
    Prop where
  opened : Open R d' segs s g
  staged : Staged s (d'.data g.ino) g next base
  names : d'.segments = d.segments
  others : ∀ i, i ≠ g.ino → d'.files i = d.files i

theorem Open.layRoll {R base : Nat} (next : InstanceId) (o : Open R d segs s g)
    (sum : base = g.base + users g.slots) :
    ∃ d1 d2, d1 = d.apply (.store g.ino (g.fin + 16) (RollEdge.mk (s + 1) next base).encode) ∧
      d2 = run Disk.apply d1 (stores g.ino
        ((⟨0, HeaderType.roll.raw, 0, UInt32.ofNat rollPayload, 0⟩ : MessageHeader).stores g.fin)) ∧
      Quiet R π d (.store g.ino (g.fin + 16) (RollEdge.mk (s + 1) next base).encode) ∧
      Guar Disk.apply (Quiet R π) d1 (stores g.ino
        ((⟨0, HeaderType.roll.raw, 0, UInt32.ofNat rollPayload, 0⟩ : MessageHeader).stores g.fin)) ∧
      Laying R d d2 segs s g next base := by
  obtain ⟨quiet, open1⟩ := o.scratch (π := π) (g.fin + 16)
    (RollEdge.mk (s + 1) next base).encode (.inl (by omega))
  have body := sliceWriteSame (d.data g.ino) (g.fin + 16) (RollEdge.mk (s + 1) next base).encode
  rw [encodeLength] at body
  obtain ⟨d2, ran, guar, open2, header, _, out⟩ := open1.layHeader (π := π)
    (h := ⟨0, HeaderType.roll.raw, 0, UInt32.ofNat rollPayload, 0⟩) (p := g.fin) rfl (Nat.le_refl _)
  refine ⟨_, d2, rfl, ran.symm, quiet, guar, open2, ⟨congrArg MessageHeader.headerType header, ?_, ?_, sum⟩, ?_, ?_⟩
  · rw [← readLength, header]
    rfl
  · rw [sliceCongr fun a lo _ => out a (.inr (by omega)), storeData]
    exact body
  · rw [← ran, runStores]
    rfl
  · intro i ne
    rw [← ran, runStores, setFileOther _ ne]
    exact setFileOther _ ne

/-- The newest segment with its `Roll` committed, followed by the one just published. -/
theorem publishRoll {R base : Nat} {identity : Identity} {prepared : PreparedSegment} (geometry : Geometry R)
    (o : Open R d segs s g) (installed : Installed R d segs g identity prepared)
    (staged : Staged s (d.data g.ino) g identity.fileInstance base)
    (stamped : baseRecordIndex (d.data prepared.ino) = base) :
    Guar Disk.apply (Quiet R π) d
      [.publish prepared.ino, .commit g.ino g.fin, .store g.ino 16 (toLE 8 (g.fin + 72))] ∧
    Open R (run Disk.apply d
        [.publish prepared.ino, .commit g.ino g.fin, .store g.ino 16 (toLE 8 (g.fin + 72))])
      (segs ++ [Blank.seg prepared.ino identity base g.gen]) (s + 1)
      (Blank.seg prepared.ino identity base g.gen) ∧
    (run Disk.apply d
      [.publish prepared.ino, .commit g.ino g.fin, .store g.ino 16 (toLE 8 (g.fin + 72))]).len prepared.ino =
      d.len prepared.ino := by
  obtain ⟨_, apart, _⟩ := spareApart o.inv installed.named
  have ne : prepared.ino ≠ g.ino := fun same => apart (same ▸ inoMem o.found)
  obtain ⟨_, settled⟩ := blankPublished geometry installed.blank prepared.ino
  have top := o.top
  have publishStep : Step R π d segs (.publish prepared.ino)
      (segs ++ [Blank.seg prepared.ino identity base g.gen]) := by
    rw [← stamped]
    refine .publish installed.named installed.blank installed.parented ?_ o.joined
    intro k h at_k last
    have : k = s := by omega
    subst this
    cases Option.some.inj (o.found.symm.trans at_k)
    rw [stamped]
    exact ⟨o.settled, staged⟩
  have inv1 := stepKeeps geometry o.inv publishStep
  generalize published : d.apply (.publish prepared.ino) = d1 at inv1
  have found1 : (segs ++ [Blank.seg prepared.ino identity base g.gen])[s]? = some g := by
    rw [List.getElem?_append_left (lengthOf o.found)]
    exact o.found
  have next1 : (segs ++ [Blank.seg prepared.ino identity base g.gen])[s + 1]? =
      some (Blank.seg prepared.ino identity base g.gen) := by
    rw [top]
    simp
  have rollStep : Step R π d1 (segs ++ [Blank.seg prepared.ino identity base g.gen]) (.commit g.ino g.fin) _ :=
    .commitRoll found1 next1
  have inv2 := stepKeeps geometry inv1 rollStep
  have flag2 : (d1.apply (.commit g.ino g.fin)).data g.ino g.fin = 1 := by
    rw [commitData]
    exact writeInside (i := 0) rfl
  have kind1 : d1.data g.ino (g.fin + 1) = HeaderType.roll.raw := (inv1.link found1 next1).kind
  have lastStep : Step R π (d1.apply (.commit g.ino g.fin))
      (segs ++ [Blank.seg prepared.ino identity base g.gen]) (.store g.ino 16 (toLE 8 (g.fin + 72))) _ :=
    .terminal found1 next1 flag2
  have ge := o.ok.finGe
  have data : ((d1.apply (.commit g.ino g.fin)).apply (.store g.ino 16 (toLE 8 (g.fin + 72)))).data prepared.ino =
      write (d.data prepared.ino) 192 [1] := by
    rw [storeDataOther _ _ ne, commitDataOther _ ne, ← published]
    exact setFileData _ _
  refine ⟨⟨⟨lawfulOf o.inv publishStep, rfl⟩, ?_⟩, ?_, ?_⟩
  · rw [published]
    exact ⟨⟨lawfulOf inv1 rollStep, if_neg (by rw [kind1]; decide)⟩, ⟨lawfulOf inv2 lastStep, rfl⟩, trivial⟩
  · simp only [runCons, runNil, published]
    refine ⟨⟨stepKeeps geometry inv2 lastStep, next1, by simp [top], ?_, ?_⟩, ?_⟩
    · show Settled (_ : Mem) _
      rw [show (Blank.seg prepared.ino identity base g.gen).ino = prepared.ino from rfl, data, ← stamped]
      exact settled
    · show d1.attempts = []
      rw [← published]
      exact o.clean
    · intro k h at_k last
      have : k = s := by
        rw [List.length_append] at last
        simp at last
        omega
      subst this
      cases Option.some.inj (found1.symm.trans at_k)
      rw [storeData, writeOutside (.inr (by simp; omega))]
      exact flag2
  · simp only [runCons, runNil, storeLen, commitLen]
    exact setFileLen _ _

/- The newest file is the writer's; retention may remove the one `n` before it. -/
theorem retainSpec (ready : Ready env cfg w d segs s g) :
    Spec (Quiet cfg.regionSize cfg.policy) w d
      (match cfg.keepFiles with
        | some n => if n ≤ s then prune (s - n) else pure ()
        | none => pure ())
      fun _ w' d' => w' = w ∧ Ready env cfg w' d' segs s g := by
  have top := ready.top
  split
  · rename_i n kept
    split
    · have least := ready.admitted.kept n kept
      have step : Step cfg.regionSize cfg.policy d segs (.unlink (s - n)) segs :=
        .prune kept least (by omega) ready.joined
      have inv := unlinkKeeps ready.inv (s := s - n) (by omega) (.inr ready.joined)
      refine ⟨⟨⟨lawfulOf ready.inv step, rfl⟩, trivial⟩, rfl, ?_⟩
      exact { ready with toOpen := Open.elsewhere ready.toOpen inv (fun _ _ => rfl) ready.clean }
    · exact ⟨trivial, rfl, ready⟩
  · exact ⟨trivial, rfl, ready⟩

theorem rollFileSpec (ready : Ready env cfg w d segs s g) :
    Spec (Quiet cfg.regionSize cfg.policy) w d (rollFile env) fun r w' d' =>
      ∃ segs' s' g', Ready env cfg w' d' segs' s' g' ∧ w'.pendingMsgSize = none ∧ (r = .ok () → g'.fin = 208) := by
  have ok := ready.ok
  have room := ok.room
  have top := ready.top
  have small := ready.admitted.geometry.small
  unfold rollFile
  refine specCleared ready fun w0 ready0 idle0 => specSelf ?_
  dsimp only
  rw [ready0.config, ready0.slot, ready0.ino, ready0.sequence]
  apply specRefuse
  · intro bad
    exact absurd bad (by show ¬ (_ < 56); omega)
  intro _
  refine specLook (specLook (specLook (specRefuse (fun _ => ⟨segs, s, g, ready0, idle0, fun ok => by cases ok⟩)
    fun more => ?_)))
  have oldBase : baseRecordIndex (d.data g.ino) = g.base := ok.base
  have oldCount : messageCount (d.data g.ino) = users g.slots := ready.settled.count
  have gens : generation (d.data g.ino) = g.gen := ok.gen
  rw [oldBase, oldCount, gens, top]
  have more : segs.length < 2 ^ 64 := by
    have : ¬ (2 ^ 64 ≤ s + 1) := more
    omega
  apply specSeq (prepareSuccessorSpec ready0 (by omega))
  case failed =>
    rintro e w1 d1 ⟨ready1, idle1, _⟩
    exact ⟨segs, s, g, ready1, idle1.trans idle0, fun ok => by cases ok⟩
  -- 1) the successor is there, PREPARED
  rintro ⟨identity, prepared⟩ w1 d1 ⟨ready1, idle1, installed1⟩
  have idle1 := idle1.trans idle0
  have installed1 := installed1 identity prepared rfl
  apply specLift
  case failed => exact fun e _ => ⟨segs, s, g, ready1, idle1, fun ok => by cases ok⟩
  intro edge after
  obtain ⟨rfl, baseSmall⟩ := afterOk after
  apply specSkip (getBytesIdle (by rw [ready1.config]; exact small)
    (by rw [ready1.config]; show _ + 56 ≤ _; omega))
  dsimp only
  rw [ready1.config, ready1.slotAt]
  -- 2) stage the Roll
  obtain ⟨d2, d3, ran2, ran3, quiet2, guar3, laying⟩ := Open.layRoll (π := cfg.policy)
    identity.fileInstance ready1.toOpen rfl
  refine specEmitTo ⟨quiet2, trivial⟩ ran2.symm (specEmitTo guar3 ran3.symm ?_)
  have apart := (spareApart ready1.inv installed1.named).2.1
  have installed3 := installed1.unchanged laying.names (laying.others _ fun same => apart (same ▸ inoMem ready1.found))
  -- 3) stamp the base and the flags, and publish
  obtain ⟨open4, installed4, data4⟩ := Installed.store 32 (toLE 8 (g.base + users g.slots))
    laying.opened installed3 (.inl ⟨rfl, toLELength _ _⟩)
  have stamped4 : baseRecordIndex ((d3.apply (.store prepared.ino 32 (toLE 8 (g.base + users g.slots)))).data
      prepared.ino) = g.base + users g.slots := by
    rw [storeData, baseRecordIndex, readLEWriteSame]
    exact Nat.mod_eq_of_lt baseSmall
  refine specEmitTo (v := d3.apply (.store prepared.ino 32 (toLE 8 (g.base + users g.slots))))
    ⟨⟨lawfulOf laying.opened.inv (.stamp installed3.named), rfl⟩, trivial⟩ rfl ?_
  generalize d3.apply (.store prepared.ino 32 _) = d4 at open4 installed4 data4 stamped4 ⊢
  refine specSeq (P := fun r w' d' => r = .ok () ∧ w' = w1 ∧ ∃ b, d' = d4.apply (.store prepared.ino 113 [b])) ?_ ?_
    (fun e w' d' failed => by cases failed.1)
  · exact ⟨⟨⟨lawfulOf open4.inv (.spareFlags installed4.named), rfl⟩, trivial⟩, rfl, rfl, _, rfl⟩
  rintro _ w2 _ ⟨_, rfl, b, rfl⟩
  obtain ⟨open5, installed5, data5⟩ := Installed.store 113 [b] open4 installed4 (.inr ⟨rfl, rfl⟩)
  have stamped5 : baseRecordIndex ((d4.apply (.store prepared.ino 113 [b])).data prepared.ino) =
      g.base + users g.slots := by
    rw [← stamped4, storeData]
    exact readLEWriteOther (.inl (by omega))
  have staged5 : Staged s ((d4.apply (.store prepared.ino 113 [b])).data g.ino) g identity.fileInstance
      (g.base + users g.slots) := by
    rw [data5, data4]
    exact laying.staged
  generalize d4.apply (.store prepared.ino 113 [b]) = d5 at open5 installed5 stamped5 staged5 ⊢
  -- 4) commit the Roll and move the position past it
  obtain ⟨guar6, open6, len6⟩ := publishRoll (π := cfg.policy) ready.admitted.geometry open5 installed5 staged5
    stamped5
  refine specEmit ⟨guar6.1, trivial⟩ (specEmit ⟨guar6.2.1, trivial⟩ (specBind (specSelf ?_)))
  rw [ready1.ino]
  refine ⟨guar6.2.2, ?_⟩
  show Spec _ w2 (run Disk.apply d5 [.publish prepared.ino, .commit g.ino g.fin,
    .store g.ino 16 (toLE 8 (g.fin + 72))]) _ _
  have len6 := len6.trans installed5.length.symm
  generalize run Disk.apply d5 _ = d6 at open6 len6 ⊢
  generalize named : Blank.seg prepared.ino identity (g.base + users g.slots) g.gen = g' at open6
  have ino' : g'.ino = prepared.ino := by rw [← named]; rfl
  have fin' : g'.fin = 208 := by rw [← named]; rfl
  have last (d7 : Disk) (open7 : Open cfg.regionSize d7 (segs ++ [g']) (s + 1) g')
      (len7 : d7.len prepared.ino = prepared.fileLen) :
      Ready env cfg ⟨cfg, segs.length, identity.fileInstance, prepared.ino, prepared.fileLen, 0, prepared.nextHdr,
        none⟩ d7 (segs ++ [g']) segs.length g' := by
    have large := ready.admitted.geometry.large
    exact
      { toOpen := top ▸ open7
        config := rfl
        admitted := ready.admitted
        sequence := rfl
        fileInstance := by rw [← named]; rfl
        ino := ino'.symm
        fileLen := by rw [ino']; exact len7.symm
        region := by rw [fin']; exact (Nat.div_eq_of_lt (by omega)).symm
        slot := by rw [fin']; exact installed5.slot
        pending := fun n some => by cases some }
  have found6 : (segs ++ [g'])[s]? = some g := by
    rw [List.getElem?_append_left (lengthOf ready.found)]
    exact ready.found
  split
  · refine specSeq (P := fun r w' d' => r = .ok () ∧ w' = w2 ∧
      d' = d6.apply (.store g.ino 116 (toLE 4 (wakeWord (d6.data g.ino) + 1)))) ?_ ?_ (fun e w' d' failed => by cases failed.1)
    · exact ⟨⟨⟨lawfulOf open6.inv (.wakeWord found6), rfl⟩, trivial⟩, rfl, rfl, rfl⟩
    · rintro _ w3 _ ⟨_, rfl, rfl⟩
      refine specBecome (specMono (retainSpec (last _ (open6.wake found6 (.inr ⟨rfl, toLELength _ _⟩))
        (by rw [storeLen]; exact len6))) ?_)
      rintro r w' d' ⟨rfl, ready'⟩
      exact ⟨_, _, _, ready', rfl, fun _ => fin'⟩
  · refine specBecome (specMono (retainSpec (last d6 open6 len6)) ?_)
    rintro r w' d' ⟨rfl, ready'⟩
    exact ⟨_, _, _, ready', rfl, fun _ => fin'⟩

end Successor
end Xchannel.RollSpecs
