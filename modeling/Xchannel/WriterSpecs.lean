import Xchannel.StoreRuns

/-! What the calls of a writer do: every operation they perform is a step of the channel, and they
leave the writer at the open end of the newest segment, whether they succeed or not. -/
namespace Xchannel.WriterCalls

def Config.policy (cfg : Config) : ChannelSteps.Policy :=
  ⟨cfg.keepFiles, cfg.regionSize, cfg.mtu.toNat, cfg.channelName⟩

end Xchannel.WriterCalls

namespace Xchannel.WriterSpecs
open ByteMemory Format Storage RecordChain SegmentInvariant ChannelInvariant ChannelSteps ChannelLog
  CrashProgram WriterCalls StoreRuns

/-- The settings the builder accepts. -/
structure Admitted (env : Env) (cfg : Config) : Prop where
  geometry : Geometry cfg.regionSize
  paged : cfg.regionSize % env.page = 0
  rolls : cfg.fileRollSize.toNat = 0 ∨ 2 * cfg.regionSize ≤ cfg.fileRollSize.toNat
  allocated : ∃ len, preallocationLen cfg.regionSize cfg.fileRollSize.toNat = .ok len
  named : cfg.channelName.length = 48
  kept : ∀ n, cfg.keepFiles = some n → 1 ≤ n

theorem Admitted.regions {env : Env} {cfg : Config} (admitted : Admitted env cfg) : Regions env cfg.regionSize :=
  ⟨admitted.geometry, admitted.paged⟩

theorem preallocationBounds {R F len : Nat} (positive : 0 < R) (small : R < 2 ^ 32)
    (rolls : F = 0 ∨ 2 * R ≤ F) (h : preallocationLen R F = .ok len) : R ≤ len ∧ len ≤ 2 ^ 63 - 1 := by
  simp only [preallocationLen, bind, Except.bind, pure, Except.pure, throw, throwThe, MonadExceptOf.throw] at h
  by_cases zero : F = 0
  · rw [if_pos zero] at h
    cases h
    omega
  · rw [if_neg zero, refusedOk, refusedOk] at h
    obtain ⟨_, fits, same⟩ := h
    have len_eq := Except.ok.inj same
    have below := Nat.mod_lt F positive
    rw [len_eq] at fits
    refine ⟨?_, by show len ≤ maxFileLen; omega⟩
    rw [← len_eq]
    split <;> omega

theorem Admitted.length {env : Env} {cfg : Config} (admitted : Admitted env cfg) {len : Nat}
    (h : preallocationLen cfg.regionSize cfg.fileRollSize.toNat = .ok len) :
    cfg.regionSize ≤ len ∧ len ≤ 2 ^ 63 - 1 :=
  preallocationBounds (by have := admitted.geometry.large; omega) admitted.geometry.small admitted.rolls h

/-- The newest segment at rest: no store of a commit outstanding, no private file left. -/
structure Rested (R : Nat) (d : Disk) (segs : List Seg) (s : Nat) (g : Seg) : Prop where
  inv : Inv R d segs
  found : segs[s]? = some g
  top : s + 1 = segs.length
  settled : Settled (d.data g.ino) g
  clean : d.attempts = []

/-- The channel between two calls of its writer. -/
structure Open (R : Nat) (d : Disk) (segs : List Seg) (s : Nat) (g : Seg) : Prop extends Rested R d segs s g where
  joined : Joined d segs

/-- The writer's own view of it. -/
structure Ready (env : Env) (cfg : Config) (w : Writer) (d : Disk) (segs : List Seg) (s : Nat) (g : Seg) : Prop
    extends Open cfg.regionSize d segs s g where
  config : w.config = cfg
  admitted : Admitted env cfg
  sequence : w.fileSequence = s
  fileInstance : w.fileInstance = g.ident.fileInstance
  ino : w.ino = g.ino
  fileLen : w.fileLen = d.len g.ino
  region : w.currentRegionIndex = g.fin / cfg.regionSize
  slot : w.nextHdrPos = g.fin
  pending : ∀ n, w.pendingMsgSize = some n →
    g.fin % cfg.regionSize + align8 (16 + n) + 56 ≤ cfg.regionSize ∧
    MessageHeader.read (d.data g.ino) (g.fin + align8 (16 + n)) = .preinstall ∧ (cfg.mtu.toNat = 0 ∨ n ≤ cfg.mtu.toNat)

section Stores
variable {R s : Nat} {π : Policy} {d : Disk} {segs : List Seg} {g : Seg}

theorem Rested.ok (o : Rested R d segs s g) : SegOk R s (d.files g.ino) g := (o.inv.each s g o.found).1

/- A change to the newest file is none to the segment before it. -/
theorem joinedStore {f : File} (inv : Inv R d segs) (found : segs[s]? = some g) (top : s + 1 = segs.length)
    (joined : Joined d segs) : Joined (d.setFile g.ino f) segs := by
  intro k h at_k last
  rw [setFileDataOther f (inv.otherIno found at_k (by omega))]
  exact joined k h at_k last

theorem Open.scratch (o : Open R d segs s g) (off : Nat) (bytes : List UInt8)
    (above : g.fin < off ∨ (off = g.fin ∧ bytes = [0])) :
    Quiet R π d (.store g.ino off bytes) ∧ Open R (d.apply (.store g.ino off bytes)) segs s g := by
  have ge := o.ok.finGe
  have free : write (d.data g.ino) off bytes g.fin = 0 := by
    rcases above with far | ⟨rfl, rfl⟩
    · rw [writeOutside (.inl far)]
      exact o.settled.free
    · exact writeInside (i := 0) rfl
  have step : Step R π d segs (.store g.ino off bytes) segs :=
    .scratch o.found o.top o.settled (by omega) free
  have inv := scratchKeeps o.inv o.found o.top o.settled (by omega) free
  have low (a : Nat) (h : a < 32) : write (d.data g.ino) off bytes a = d.data g.ino a :=
    writeOutside (.inl (by omega))
  refine ⟨⟨lawfulOf o.inv step, rfl⟩, ⟨inv, o.found, o.top, ⟨?_, ?_, ?_⟩, o.clean⟩, joinedStore o.inv o.found o.top o.joined⟩
  · rw [Disk.apply, setFileData]
    exact free
  · rw [← o.settled.count, Disk.apply, setFileData]
    exact readLECongr fun a lo hi => low a (by omega)
  · rw [← o.settled.wp, Disk.apply, setFileData]
    exact readLECongr fun a lo hi => low a (by omega)

theorem Open.scratchRun (o : Open R d segs s g) (fields : Fields)
    (above : ∀ f ∈ fields, g.fin < f.1 ∨ f = (g.fin, [0])) :
    Guar Disk.apply (Quiet R π) d (stores g.ino fields) ∧
    Open R (d.setFile g.ino { d.files g.ino with data := writes (d.data g.ino) fields }) segs s g := by
  rw [← runStores]
  induction fields generalizing d with
  | nil => exact ⟨trivial, o⟩
  | cons f fields ih =>
    have first : g.fin < f.1 ∨ (f.1 = g.fin ∧ f.2 = [0]) := by
      rcases above f List.mem_cons_self with far | rfl
      · exact .inl far
      · exact .inr ⟨rfl, rfl⟩
    obtain ⟨quiet, next⟩ := o.scratch (π := π) _ _ first
    obtain ⟨guar, last⟩ := ih next fun f' mem => above f' (List.mem_cons_of_mem _ mem)
    exact ⟨⟨quiet, guar⟩, last⟩

/- An uncommitted header goes at the open slot or past it. -/
theorem headerAbove {h : MessageHeader} {p fin : Nat} (free : h.committed = 0) (above : fin ≤ p) :
    ∀ f ∈ h.stores p, fin < f.1 ∨ f = (fin, [0]) := by
  intro f mem
  simp only [MessageHeader.stores, List.mem_cons, List.not_mem_nil, or_false] at mem
  rcases mem with rfl | rfl | rfl | rfl | rfl
  · rcases Nat.eq_or_lt_of_le above with rfl | far
    · exact .inr (by rw [free])
    · exact .inl far
  all_goals exact .inl (by show fin < p + _; omega)

/- Laying an uncommitted header: what is read back, and that nothing else changes. -/
theorem Open.layHeader (o : Open R d segs s g) {h : MessageHeader} {p : Nat} (free : h.committed = 0)
    (above : g.fin ≤ p) : ∃ d', run Disk.apply d (stores g.ino (h.stores p)) = d' ∧
      Guar Disk.apply (Quiet R π) d (stores g.ino (h.stores p)) ∧ Open R d' segs s g ∧
      MessageHeader.read (d'.data g.ino) p = h ∧ d'.len g.ino = d.len g.ino ∧
      ∀ a, a < p ∨ p + 16 ≤ a → d'.data g.ino a = d.data g.ino a := by
  obtain ⟨guar, laid⟩ := o.scratchRun (π := π) _ (headerAbove free above)
  refine ⟨_, runStores _ _ _, guar, laid, ?_, ?_, fun a out => ?_⟩
  · rw [setFileData]
    exact headerWrites _ _ _
  · rw [setFileLen]
    rfl
  · rw [setFileData]
    exact headerWritesOutside out

theorem Rested.grow (o : Rested R d segs s g) {n : Nat} (longer : d.len g.ino ≤ n) (bound : n ≤ 2 ^ 63 - 1) :
    Quiet R π d (.setLen g.ino n) ∧ Rested R (d.apply (.setLen g.ino n)) segs s g := by
  have step : Step R π d segs (.setLen g.ino n) segs := .grow o.found longer bound
  refine ⟨⟨lawfulOf o.inv step, rfl⟩, growKeeps o.inv o.found longer bound, o.found, o.top, ?_, o.clean⟩
  have lt := o.ok.finLt
  have lenEq : d.len g.ino = (d.files g.ino).len := rfl
  rw [Disk.apply, setFileData]
  refine o.settled.congr fun a h => if_pos ?_
  unfold Last at h
  omega

theorem Open.grow (o : Open R d segs s g) {n : Nat} (longer : d.len g.ino ≤ n) (bound : n ≤ 2 ^ 63 - 1) :
    Quiet R π d (.setLen g.ino n) ∧ Open R (d.apply (.setLen g.ino n)) segs s g := by
  obtain ⟨quiet, rested⟩ := o.toRested.grow (π := π) longer bound
  exact ⟨quiet, rested, joinedStore o.inv o.found o.top o.joined⟩

/-- The newest segment right after a commit, until the store of its position. -/
structure Pushed (R : Nat) (d : Disk) (segs : List Seg) (s : Nat) (g : Seg) : Prop where
  inv : Inv R d segs
  found : segs[s]? = some g
  top : s + 1 = segs.length
  joined : Joined d segs
  clean : d.attempts = []

theorem Pushed.ok (o : Pushed R d segs s g) : SegOk R s (d.files g.ino) g := (o.inv.each s g o.found).1

theorem Open.push (o : Open R d segs s g) (geometry : Geometry R) {t : HeaderType}
    (kind : d.data g.ino (g.fin + 1) = t.raw) (data : t = .user ∨ t = .skip)
    (placed : Placed R (d.data g.ino) g.fin t) (fits : g.fin % R + 16 + lengthAt (d.data g.ino) g.fin ≤ R)
    (room : nextSlot (d.data g.ino) g.fin % R + 56 ≤ R)
    (inside : (nextSlot (d.data g.ino) g.fin / R + 1) * R ≤ d.len g.ino)
    (signed : MessageHeader.read (d.data g.ino) (nextSlot (d.data g.ino) g.fin) = .preinstall)
    (bounded : t = .user → π.mtu = 0 ∨ lengthAt (d.data g.ino) g.fin ≤ π.mtu) :
    Lawful R π d (.commit g.ino g.fin) ∧
    Pushed R (d.apply (.commit g.ino g.fin)) (segs.set s (push g t (nextSlot (d.data g.ino) g.fin))) s
      (push g t (nextSlot (d.data g.ino) g.fin)) ∧
    messageCount ((d.apply (.commit g.ino g.fin)).data g.ino) = users g.slots := by
  have ge := o.ok.finGe
  have step := Step.record (π := π) o.found o.top o.settled kind data placed fits room inside signed o.joined
    bounded
  refine ⟨lawfulOf o.inv step, ⟨stepKeeps geometry o.inv step, ?_, ?_, ?_, o.clean⟩, ?_⟩
  · simp [lengthOf o.found]
  · rw [List.length_set]
    exact o.top
  · intro k h at_k last
    rw [List.length_set] at last
    have := o.top
    have ne : s ≠ k := by omega
    rw [List.getElem?_set, if_neg ne] at at_k
    rw [Disk.apply, setFileDataOther _ (o.inv.otherIno o.found at_k ne)]
    exact o.joined k h at_k last
  · rw [← o.settled.count, Disk.apply, setFileData]
    exact readLECongr fun a lo hi => writeOutside (.inl (by omega))

theorem Pushed.count (o : Pushed R d segs s g) :
    Quiet R π d (.store g.ino 24 (toLE 8 (users g.slots))) ∧
    Pushed R (d.apply (.store g.ino 24 (toLE 8 (users g.slots)))) segs s g ∧
    messageCount ((d.apply (.store g.ino 24 (toLE 8 (users g.slots)))).data g.ino) = users g.slots := by
  refine ⟨⟨lawfulOf o.inv (.count o.found o.top), rfl⟩, ⟨countKeeps o.inv o.found o.top, o.found, o.top,
    joinedStore o.inv o.found o.top o.joined, o.clean⟩, ?_⟩
  rw [Disk.apply, setFileData]
  exact countWrite _ _ (by have := o.ok.usersLt; omega)

theorem Pushed.position (o : Pushed R d segs s g) (counted : messageCount (d.data g.ino) = users g.slots) :
    Quiet R π d (.store g.ino 16 (toLE 8 (g.fin + 16))) ∧
    Open R (d.apply (.store g.ino 16 (toLE 8 (g.fin + 16)))) segs s g := by
  have ok := o.ok
  have ge := ok.finGe
  have small : g.fin + 16 < 2 ^ 64 := by
    have := ok.finLt
    have := ok.bound
    omega
  refine ⟨⟨lawfulOf o.inv (.position o.found o.top counted), rfl⟩, ⟨positionKeeps o.inv o.found o.top counted,
    o.found, o.top, ?_, o.clean⟩, joinedStore o.inv o.found o.top o.joined⟩
  rw [storeData]
  refine ⟨?_, ?_, positionWrite _ _ small⟩
  · rw [writeOutside (.inr (by simp; omega))]
    exact (o.inv.tail o.found o.top).free
  · rw [countPositionWrite]
    exact counted

/- Waking stores into the wake fields of one published segment. -/
theorem wakeOther {off : Nat} {h : Seg} {bytes : List UInt8}
    (wake : (off = 113 ∧ bytes.length = 1) ∨ (off = 116 ∧ bytes.length = 4)) {a i : Nat} (out : a < 113 ∨ 120 ≤ a) :
    (d.apply (.store h.ino off bytes)).data i a = d.data i a := by
  by_cases same : i = h.ino
  · subst same
    rw [storeData]
    exact writeOutside (by omega)
  · rw [storeDataOther _ _ same]

theorem Rested.wake (o : Rested R d segs s g) {k : Nat} {h : Seg} (off : Nat) (bytes : List UInt8)
    (at_k : segs[k]? = some h) (wake : (off = 113 ∧ bytes.length = 1) ∨ (off = 116 ∧ bytes.length = 4)) :
    Rested R (d.apply (.store h.ino off bytes)) segs s g := by
  have ge := o.ok.finGe
  refine ⟨wakeKeeps o.inv at_k wake, o.found, o.top, o.settled.congr fun a near => wakeOther wake ?_, o.clean⟩
  unfold Last at near
  omega

theorem Open.wake (o : Open R d segs s g) {k off : Nat} {h : Seg} {bytes : List UInt8} (at_k : segs[k]? = some h)
    (wake : (off = 113 ∧ bytes.length = 1) ∨ (off = 116 ∧ bytes.length = 4)) :
    Open R (d.apply (.store h.ino off bytes)) segs s g := by
  refine ⟨o.toRested.wake _ _ at_k wake, ?_⟩
  intro j h' at_j last
  have ge' := (o.inv.each j h' at_j).1.finGe
  rw [wakeOther wake (by omega)]
  exact o.joined j h' at_j last

/- A Skip that covers the rest of its region, committed over a pre-installed header. -/
theorem Open.pushSkip (o : Open R d segs s g) (geometry : Geometry R) {n : Nat} (small : n < 2 ^ 32)
    (header : MessageHeader.read (d.data g.ino) g.fin = ⟨0, HeaderType.skip.raw, 0, UInt32.ofNat n, 0⟩)
    (covers : g.fin % R + 16 + n = R)
    (signed : MessageHeader.read (d.data g.ino) ((g.fin / R + 1) * R) = .preinstall)
    (inside : (g.fin / R + 1 + 1) * R ≤ d.len g.ino) :
    Quiet R π d (.commit g.ino g.fin) ∧
    ∃ segs' g', Pushed R (d.apply (.commit g.ino g.fin)) segs' s g' ∧ g'.ino = g.ino ∧ g'.ident = g.ident ∧
      g'.fin = (g.fin / R + 1) * R ∧
      messageCount ((d.apply (.commit g.ino g.fin)).data g.ino) = users g'.slots := by
  have large := geometry.large
  have split := slotSplit R g.fin
  have length : lengthAt (d.data g.ino) g.fin = n := by
    rw [← readLength, header]
    exact Nat.mod_eq_of_lt small
  have after : nextSlot (d.data g.ino) g.fin = (g.fin / R + 1) * R := by
    have sum : g.fin + 16 + n = (g.fin / R + 1) * R := by
      have expand : (g.fin / R + 1) * R = g.fin / R * R + R := by ring
      omega
    rw [nextSlot, length, sum]
    exact align8Of (geometry.aligned.mul_left _)
  have kind : d.data g.ino (g.fin + 1) = HeaderType.skip.raw := congrArg MessageHeader.headerType header
  obtain ⟨lawful, pushed, counted⟩ := o.push (π := π) geometry kind (.inr rfl) after
    (by rw [length]; omega) (by rw [after, Nat.mul_mod_left]; omega)
    (by rw [after, Nat.mul_div_cancel _ (by omega)]; exact inside) (by rw [after]; exact signed)
    (fun user => by cases user)
  refine ⟨⟨lawful, if_neg (by rw [kind]; decide)⟩, _, _, pushed, rfl, rfl, after, ?_⟩
  rw [counted]
  show _ = users (g.slots ++ [(g.fin, .skip)])
  rw [usersSnoc]
  rfl

theorem wakeAllRun {τ : Type} (t : τ) (d : Disk) (ino : Nat) :
    wakeAll ino t d = ([.store ino 116 (toLE 4 (wakeWord (d.data ino) + 1))], .ok (), t) := rfl

theorem setWakeFlagRun {τ : Type} (t : τ) (d : Disk) (ino : Nat) (wake : Bool) :
    setWakeFlag ino wake t d =
      ([.store ino 113 [if wake then wakeFlags (d.data ino) ||| 1 else wakeFlags (d.data ino) &&& ~~~1]],
        .ok (), t) := rfl

end Stores

section Idle
variable {τ : Type} {env : Env} {t : τ} {w : Writer} {d : Disk}

theorem createWritableIdle {ino base R : Nat} (positive : 0 < R) (paged : R % env.page = 0)
    (aligned : base % env.page = 0) (inside : base + R ≤ d.len ino) :
    createWritable env ino base R t d = ([], .ok (), t) := by
  unfold createWritable
  rw [alignedOk positive paged aligned, Act.idleThen (a := ()) (u := t) rfl, Act.lookThen, if_neg (by omega)]
  rfl

theorem regionAligned {R page : Nat} (paged : R % page = 0) (k : Nat) : k * R % page = 0 := by
  rw [Nat.mul_mod, paged, Nat.mul_zero, Nat.zero_mod]

theorem getBytesIdle {offset len : Nat} {what : String} (small : w.config.regionSize < 2 ^ 32)
    (inside : offset + len ≤ w.config.regionSize) :
    getBytesMut offset len what w d =
      ([], .ok (w.currentRegionIndex * w.config.regionSize + offset), w) := by
  have fits : ¬ (usize ≤ offset + len ∨ w.config.regionSize < offset + len) := by
    show ¬ (2 ^ 64 ≤ _ ∨ _)
    omega
  unfold getBytesMut
  rw [Act.selfThen, Act.idleThen (Act.refuseIdle fits)]
  rfl

end Idle

section Regions
variable {env : Env} {cfg : Config} {w : Writer} {d : Disk} {segs : List Seg} {s : Nat} {g : Seg}
  {π : Policy}

theorem Ready.slotAt (ready : Ready env cfg w d segs s g) :
    w.currentRegionIndex * cfg.regionSize + g.fin % cfg.regionSize = g.fin := by
  rw [ready.region]
  exact slotSplit _ _

/- `clear_pending` keeps everything else. -/
theorem specCleared {α : Type} {G : Disk → Op → Prop} {f : Unit → Self α}
    {Q : Except IoError α → Writer → Disk → Prop} (ready : Ready env cfg w d segs s g)
    (next : ∀ w', Ready env cfg w' d segs s g → w'.pendingMsgSize = none → Spec G w' d (f ()) Q) :
    Spec G w d (clearPending >>= f) Q := by
  refine specSkip (u := { w with pendingMsgSize := none }) rfl (next _ ?_ rfl)
  exact { ready with pending := fun n none => absurd none (by simp) }

theorem ensureLenSpec (ready : Ready env cfg w d segs s g) (idle : w.pendingMsgSize = none) (want : Nat) :
    Spec (Quiet cfg.regionSize π) w d (ensureLen want) fun r w' d' =>
      Ready env cfg w' d' segs s g ∧ w'.pendingMsgSize = none ∧ (r = .ok () → want ≤ d'.len g.ino) := by
  unfold ensureLen
  apply specSelf
  by_cases short : w.fileLen < want
  · rw [if_pos short]
    unfold setLen
    by_cases fits : want ≤ maxFileLen
    · rw [if_pos fits]
      obtain ⟨quiet, grown⟩ := ready.toOpen.grow (π := π) (n := want)
        (by have := ready.fileLen; omega) fits
      have len : (d.apply (.setLen g.ino want)).len g.ino = want := by simp [Disk.apply]
      rw [← ready.ino] at quiet grown len
      refine specEmit ⟨quiet, trivial⟩ ⟨trivial, ?_, idle, fun _ => ?_⟩
      · exact { ready with
          toOpen := grown
          fileLen := by rw [← ready.ino]; exact len.symm
          pending := fun n some => absurd (idle.symm.trans some) (by simp) }
      · rw [← ready.ino]
        exact len.ge
    · rw [if_neg fits]
      exact ⟨trivial, ready, idle, fun ok => by cases ok⟩
  · rw [if_neg short]
    exact ⟨trivial, ready, idle, fun _ => by
      have := ready.fileLen
      show want ≤ d.len g.ino
      omega⟩

theorem regionAtSpec (ready : Ready env cfg w d segs s g) (idle : w.pendingMsgSize = none) (index : Nat) :
    Spec (Quiet cfg.regionSize π) w d (regionAt env index) fun r w' d' =>
      Ready env cfg w' d' segs s g ∧ w'.pendingMsgSize = none ∧
      (r = .ok () → (index + 1) * cfg.regionSize ≤ d'.len g.ino) := by
  have large := ready.admitted.geometry.large
  unfold regionAt
  apply specSelf
  rw [ready.config, ready.ino]
  refine specSeq (ensureLenSpec ready idle _) ?_ ?_
  · intro _ w' d' ⟨ready', idle', long⟩
    have inside := long rfl
    have fits : index * cfg.regionSize + cfg.regionSize ≤ d'.len g.ino := by
      calc
        index * cfg.regionSize + cfg.regionSize = (index + 1) * cfg.regionSize := by ring
        _ ≤ d'.len g.ino := inside
    have nothing := createWritableIdle (t := w') (by omega) ready.admitted.paged
      (regionAligned ready.admitted.paged index) fits
    exact specIdle nothing ⟨ready', idle', fun _ => inside⟩
  · intro e w' d' ⟨ready', idle', _⟩
    exact ⟨ready', idle', fun ok => by cases ok⟩

theorem rollOverRegionSpec (ready : Ready env cfg w d segs s g) :
    Spec (Quiet cfg.regionSize π) w d (rollOverRegion env) fun r w' d' =>
      ∃ segs' g', Ready env cfg w' d' segs' s g' ∧ w'.pendingMsgSize = none ∧
        (r = .ok () → g'.fin = (g.fin / cfg.regionSize + 1) * cfg.regionSize) := by
  have large := ready.admitted.geometry.large
  have small := ready.admitted.geometry.small
  have room := ready.ok.room
  have split := slotSplit cfg.regionSize g.fin
  have expand : (g.fin / cfg.regionSize + 1) * cfg.regionSize =
      g.fin / cfg.regionSize * cfg.regionSize + cfg.regionSize := by ring
  have newWp : g.fin + headerSlot + (cfg.regionSize - g.fin % cfg.regionSize - headerSlot) =
      (g.fin / cfg.regionSize + 1) * cfg.regionSize := by
    show g.fin + 16 + (_ - 16) = _
    omega
  unfold rollOverRegion
  refine specCleared ready fun w0 ready0 idle0 => ?_
  apply specSelf
  dsimp only
  rw [ready0.config, ready0.slot, ready0.ino, if_pos (by show 16 ≤ _; omega), newWp,
    Nat.mul_div_cancel _ (by omega)]
  refine specSeq (regionAtSpec ready0 idle0 _) ?_ ?_
  · intro _ w1 d1 ⟨ready1, idle1, long⟩
    have inside := long rfl
    apply specRefuse
    · intro bad
      exact absurd bad (by show ¬ (_ < 16); omega)
    intro _
    -- 1) the header of the next region, then the Skip over the rest of this one
    obtain ⟨d2, ran2, guar2, open2, signed2, len2, _⟩ := ready1.toOpen.layHeader (π := π)
      (h := .preinstall) (p := (g.fin / cfg.regionSize + 1) * cfg.regionSize) rfl (by omega)
    refine specEmit guar2 ?_
    rw [ran2]
    apply specSkip (getBytesIdle (by rw [ready1.config]; exact small)
      (by rw [ready1.config]; show _ + 16 ≤ _; omega))
    rw [ready1.config, ready1.slotAt]
    obtain ⟨d3, ran3, guar3, open3, header3, len3, out3⟩ := open2.layHeader (π := π)
      (h := ⟨0, HeaderType.skip.raw, 0, UInt32.ofNat (cfg.regionSize - g.fin % cfg.regionSize - headerSlot), 0⟩)
      (p := g.fin) rfl (Nat.le_refl _)
    refine specEmit guar3 ?_
    rw [ran3]
    -- 2) commit the Skip
    obtain ⟨quiet, segs', g', pushed, ino, ident, fin, counted⟩ := open3.pushSkip (π := π)
      ready.admitted.geometry (by omega) header3 (by show _ + 16 + (_ - 16) = _; omega)
      (by rw [readCongr fun a lo hi => out3 a (.inr (by omega))]; exact signed2)
      (by rw [len3, len2]; exact inside)
    refine specEmit ⟨quiet, trivial⟩ ?_
    -- 3) the position
    obtain ⟨quiet', open'⟩ := pushed.position (π := π) (by rw [ino]; exact counted)
    have inoEq : w1.ino = g'.ino := ready1.ino.trans ino.symm
    rw [← inoEq, fin] at quiet' open'
    refine specSkip (u := { w1 with currentRegionIndex := g.fin / cfg.regionSize + 1 }) rfl ?_
    refine specSelf (specBecome (specSelf ⟨⟨quiet', trivial⟩, segs', g', ?_, idle1, fun _ => fin⟩))
    exact
      { toOpen := open'
        config := ready1.config
        admitted := ready.admitted
        sequence := ready1.sequence
        fileInstance := by rw [ident]; exact ready1.fileInstance
        ino := inoEq
        fileLen := by
          show w1.fileLen = ((d3.apply (.commit g.ino g.fin)).apply (.store w1.ino 16 _)).len g'.ino
          rw [storeLen, commitLen, ino, len3, len2]
          exact ready1.fileLen
        region := by
          rw [fin, Nat.mul_div_cancel _ (by omega)]
          rfl
        slot := fin.symm
        pending := fun n some => absurd (idle1.symm.trans some) (by simp) }
  · intro e w' d' ⟨ready', idle', _⟩
    exact ⟨segs, g, ready', idle', fun ok => by cases ok⟩

end Regions
end Xchannel.WriterSpecs
