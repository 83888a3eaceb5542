import Xchannel.RollSpecs

/-! `try_reserve` and `commit`: a reservation leaves the next slot pre-installed and the writer's
place unchanged; a commit appends exactly the record that was reserved and filled. -/
namespace Xchannel.CallSpecs
open ByteMemory Format Storage RecordChain SegmentInvariant ChannelInvariant ChannelSteps ChannelLog
  CrashProgram WriterCalls StoreRuns WriterSpecs RollSpecs

section Reserve
variable {env : Env} {cfg : Config} {w : Writer} {d : Disk} {segs : List Seg} {s : Nat} {g : Seg} {n : Nat}

/-- What a reservation of `n` bytes leaves: the writer is ready, and holds the buffer if it got one. -/
def Reserved (env : Env) (cfg : Config) (n : Nat) (r : Except IoError Buffer) (w : Writer) (d : Disk) : Prop :=
  ∃ segs s g, Ready env cfg w d segs s g ∧
    match r with
    | .ok b => w.pendingMsgSize = some n ∧ b = ⟨g.ino, g.fin + 16, n⟩
    | .error _ => w.pendingMsgSize = none

/- The last round: the record and room for a `Roll` fit in the region. -/
theorem reserveFits (ready : Ready env cfg w d segs s g) (rounds : Nat)
    (file : cfg.fileRollSize.toNat = 0 ∨ g.fin + (align8 (16 + n) + 56) ≤ cfg.fileRollSize.toNat)
    (region : g.fin % cfg.regionSize + (align8 (16 + n) + 56) ≤ cfg.regionSize)
    (allowed : cfg.mtu.toNat = 0 ∨ n ≤ cfg.mtu.toNat) :
    Spec (Quiet cfg.regionSize cfg.policy) w d
      (reserveLoop env n (align8 (16 + n)) (align8 (16 + n) + 56) (rounds + 1)) (Reserved env cfg n) := by
  have small := ready.admitted.geometry.small
  have ge := align8Le (16 + n)
  have ok := ready.ok
  unfold reserveLoop
  apply specSelf
  rw [ready.config, ready.slot, if_neg (by omega), if_neg (by omega), ready.ino]
  have next : (g.fin % cfg.regionSize + align8 (16 + n)) % usize = g.fin % cfg.regionSize + align8 (16 + n) :=
    Nat.mod_eq_of_lt (by show _ < 2 ^ 64; omega)
  rw [next]
  apply specSkip (getBytesIdle (by rw [ready.config]; exact small)
    (by rw [ready.config]; show _ + _ + 16 ≤ _; omega))
  have slot : w.currentRegionIndex * w.config.regionSize + (g.fin % cfg.regionSize + align8 (16 + n)) =
      g.fin + align8 (16 + n) := by
    rw [ready.config, ← Nat.add_assoc, ready.slotAt]
  rw [slot]
  obtain ⟨d1, ran, guar, open1, signed, len, out⟩ := ready.toOpen.layHeader (π := cfg.policy)
    (h := .preinstall) (p := g.fin + align8 (16 + n)) rfl (by omega)
  refine specEmitTo guar ran (specBecome ?_)
  have ready1 : Ready env cfg ⟨cfg, w.fileSequence, w.fileInstance, g.ino, w.fileLen, w.currentRegionIndex, g.fin,
      some n⟩ d1 segs s g :=
    { toOpen := open1
      config := rfl
      admitted := ready.admitted
      sequence := ready.sequence
      fileInstance := ready.fileInstance
      ino := rfl
      fileLen := by rw [len]; exact ready.fileLen
      region := ready.region
      slot := rfl
      pending := fun m some => by
        cases some
        exact ⟨by omega, signed, allowed⟩ }
  apply specSkip (getBytesIdle small (by show _ + 16 + n ≤ cfg.regionSize; omega))
  refine ⟨trivial, segs, s, g, ready1, rfl, ?_⟩
  show (⟨g.ino, w.currentRegionIndex * cfg.regionSize + (g.fin % cfg.regionSize + 16), n⟩ : Buffer) = _
  rw [← Nat.add_assoc, ready.slotAt]

theorem reserveRegion (ready : Ready env cfg w d segs s g) (rounds : Nat)
    (file : cfg.fileRollSize.toNat = 0 ∨ g.fin + (align8 (16 + n) + 56) ≤ cfg.fileRollSize.toNat)
    (region : cfg.regionSize < g.fin % cfg.regionSize + (align8 (16 + n) + 56))
    (next : ∀ w' d' segs' g', Ready env cfg w' d' segs' s g' →
      g'.fin = (g.fin / cfg.regionSize + 1) * cfg.regionSize →
      Spec (Quiet cfg.regionSize cfg.policy) w' d'
        (reserveLoop env n (align8 (16 + n)) (align8 (16 + n) + 56) rounds) (Reserved env cfg n)) :
    Spec (Quiet cfg.regionSize cfg.policy) w d
      (reserveLoop env n (align8 (16 + n)) (align8 (16 + n) + 56) (rounds + 1)) (Reserved env cfg n) := by
  unfold reserveLoop
  apply specSelf
  rw [ready.config, ready.slot, if_neg (by omega), if_pos region]
  refine specSeq (rollOverRegionSpec ready) ?_ ?_
  · rintro _ w' d' ⟨segs', g', ready', _, fin⟩
    exact next w' d' segs' g' ready' (fin rfl)
  · rintro e w' d' ⟨segs', g', ready', idle, _⟩
    exact ⟨segs', s, g', ready', idle⟩

theorem reserveFile (ready : Ready env cfg w d segs s g) (rounds : Nat)
    (file : 0 < cfg.fileRollSize.toNat ∧ cfg.fileRollSize.toNat < g.fin + (align8 (16 + n) + 56))
    (next : ∀ w' d' segs' s' g', Ready env cfg w' d' segs' s' g' → g'.fin = 208 →
      Spec (Quiet cfg.regionSize cfg.policy) w' d'
        (reserveLoop env n (align8 (16 + n)) (align8 (16 + n) + 56) rounds) (Reserved env cfg n)) :
    Spec (Quiet cfg.regionSize cfg.policy) w d
      (reserveLoop env n (align8 (16 + n)) (align8 (16 + n) + 56) (rounds + 1)) (Reserved env cfg n) := by
  unfold reserveLoop
  apply specSelf
  rw [ready.config, ready.slot, if_pos file]
  refine specSeq (rollFileSpec ready) ?_ ?_
  · rintro _ w' d' ⟨segs', s', g', ready', _, fin⟩
    exact next w' d' segs' s' g' ready' (fin rfl)
  · rintro e w' d' ⟨segs', s', g', ready', idle, _⟩
    exact ⟨segs', s', g', ready', idle⟩

/- At the start of a region the record fits, unless the file is too short for it. -/
theorem reserveRegionStart (ready : Ready env cfg w d segs s g) (rounds k : Nat)
    (fits : align8 (16 + n) + 56 ≤ cfg.regionSize) (start : g.fin = k * cfg.regionSize)
    (file : cfg.fileRollSize.toNat = 0 ∨ g.fin + (align8 (16 + n) + 56) ≤ cfg.fileRollSize.toNat)
    (allowed : cfg.mtu.toNat = 0 ∨ n ≤ cfg.mtu.toNat) :
    Spec (Quiet cfg.regionSize cfg.policy) w d
      (reserveLoop env n (align8 (16 + n)) (align8 (16 + n) + 56) (rounds + 1)) (Reserved env cfg n) := by
  refine reserveFits ready rounds file ?_ allowed
  rw [start, Nat.mul_mod_left]
  omega

/- In a fresh segment: at most one move to the second region, which the file always has. -/
theorem reserveFresh (ready : Ready env cfg w d segs s g) (rounds : Nat)
    (fits : align8 (16 + n) + 56 ≤ cfg.regionSize) (first : g.fin = 208)
    (file : cfg.fileRollSize.toNat = 0 ∨ g.fin + (align8 (16 + n) + 56) ≤ cfg.fileRollSize.toNat)
    (allowed : cfg.mtu.toNat = 0 ∨ n ≤ cfg.mtu.toNat) :
    Spec (Quiet cfg.regionSize cfg.policy) w d
      (reserveLoop env n (align8 (16 + n)) (align8 (16 + n) + 56) (rounds + 2)) (Reserved env cfg n) := by
  have large := ready.admitted.geometry.large
  have rolls := ready.admitted.rolls
  by_cases region : g.fin % cfg.regionSize + (align8 (16 + n) + 56) ≤ cfg.regionSize
  · exact reserveFits ready (rounds + 1) file region allowed
  · apply reserveRegion ready (rounds + 1) file (by omega)
    intro w' d' segs' g' ready' fin
    rw [first, Nat.div_eq_of_lt (by omega)] at fin
    exact reserveRegionStart ready' rounds 1 fits (by omega) (by omega) allowed

/- Four rounds are enough from anywhere. -/
theorem reserveLoopSpec (ready : Ready env cfg w d segs s g)
    (fits : align8 (16 + n) + 56 ≤ cfg.regionSize)
    (file : cfg.fileRollSize.toNat = 0 ∨ 208 + (align8 (16 + n) + 56) ≤ cfg.fileRollSize.toNat)
    (allowed : cfg.mtu.toNat = 0 ∨ n ≤ cfg.mtu.toNat) :
    Spec (Quiet cfg.regionSize cfg.policy) w d
      (reserveLoop env n (align8 (16 + n)) (align8 (16 + n) + 56) 4) (Reserved env cfg n) := by
  by_cases short : 0 < cfg.fileRollSize.toNat ∧ cfg.fileRollSize.toNat < g.fin + (align8 (16 + n) + 56)
  · apply reserveFile ready 3 short
    intro w' d' segs' s' g' ready' first
    exact reserveFresh ready' 1 fits first (by omega) allowed
  · by_cases region : g.fin % cfg.regionSize + (align8 (16 + n) + 56) ≤ cfg.regionSize
    · exact reserveFits ready 3 (by omega) region allowed
    · apply reserveRegion ready 3 (by omega) (by omega)
      intro w' d' segs' g' ready' fin
      by_cases short' : 0 < cfg.fileRollSize.toNat ∧ cfg.fileRollSize.toNat < g'.fin + (align8 (16 + n) + 56)
      · apply reserveFile ready' 2 short'
        intro w'' d'' segs'' s'' g'' ready'' first
        exact reserveFresh ready'' 0 fits first (by omega) allowed
      · exact reserveRegionStart ready' 2 _ fits fin (by omega) allowed

/-- The sizes for which the sums of `try_reserve` do not wrap, or that it refuses before them. -/
def SizeOk (cfg : Config) (msgSize : UInt64) : Prop :=
  msgSize.toNat + 79 < 2 ^ 64 ∨ (0 < cfg.mtu.toNat ∧ cfg.mtu.toNat < msgSize.toNat)

instance (cfg : Config) (msgSize : UInt64) : Decidable (SizeOk cfg msgSize) := by unfold SizeOk; infer_instance

theorem tryReserveSpec (ready : Ready env cfg w d segs s g) {msgSize : UInt64} (sizeOk : SizeOk cfg msgSize) :
    Spec (Quiet cfg.regionSize cfg.policy) w d (tryReserve env msgSize) fun r w' d' =>
      Reserved env cfg msgSize.toNat r w' d' ∨ ((∃ e, r = .error e) ∧ w' = w ∧ d' = d) := by
  unfold tryReserve
  apply specSelf
  dsimp only
  rw [ready.config]
  apply specRefuse
  · exact fun _ => .inr ⟨⟨_, rfl⟩, rfl, rfl⟩
  intro allowed
  have small : msgSize.toNat + 79 < 2 ^ 64 := by
    rcases sizeOk with small | refused
    · exact small
    · exact absurd refused allowed
  have sum : (headerSlot + msgSize.toNat) % usize = 16 + msgSize.toNat := by
    show (16 + msgSize.toNat) % 2 ^ 64 = _
    exact Nat.mod_eq_of_lt (by omega)
  have lt := align8Lt (16 + msgSize.toNat)
  have total : (align8 (16 + msgSize.toNat) + rollTotal) % usize = align8 (16 + msgSize.toNat) + 56 := by
    show (_ + 56) % 2 ^ 64 = _
    exact Nat.mod_eq_of_lt (by omega)
  rw [sum, alignUpEq (by omega), total]
  apply specRefuse
  · exact fun _ => .inr ⟨⟨_, rfl⟩, rfl, rfl⟩
  intro fits
  apply specRefuse
  · exact fun _ => .inr ⟨⟨_, rfl⟩, rfl, rfl⟩
  intro room
  have room : ¬ (0 < cfg.fileRollSize.toNat ∧
    cfg.fileRollSize.toNat < 208 + (align8 (16 + msgSize.toNat) + 56)) := room
  exact specMono (reserveLoopSpec ready (by omega) (by omega) (by omega)) fun r w' d' post => .inl post

end Reserve

section Commit
variable {env : Env} {cfg : Config} {w : Writer} {d : Disk} {segs : List Seg} {s : Nat} {g : Seg}
  {R : Nat} {π : Policy}

/- The stores `commit` makes into the open header, in its order. -/
def commitStores (p : Nat) (msgType : UInt16) (length : UInt32) (userMetaU64 : UInt64) : Fields :=
  [(p, [0]), (p + 4, toLE 4 length.toNat), (p + 1, [HeaderType.user.raw]), (p + 2, toLE 2 msgType.toNat),
   (p + 8, toLE 8 userMetaU64.toNat)]

theorem commitWritesOutside {m : Mem} {p a : Nat} {msgType : UInt16} {length : UInt32} {userMetaU64 : UInt64}
    (out : a < p ∨ p + 16 ≤ a) : writes m (commitStores p msgType length userMetaU64) a = m a := by
  apply writesOutside
  simp only [commitStores, List.mem_cons, List.not_mem_nil, or_false, Misses]
  rintro f (rfl | rfl | rfl | rfl | rfl) <;> simp <;> omega

theorem commitWrites (m : Mem) (p : Nat) (msgType : UInt16) (length : UInt32) (userMetaU64 : UInt64) :
    writes m (commitStores p msgType length userMetaU64) (p + 1) = HeaderType.user.raw ∧
    lengthAt (writes m (commitStores p msgType length userMetaU64)) p = length.toNat ∧
    recordAt (writes m (commitStores p msgType length userMetaU64)) p =
      ⟨msgType, userMetaU64, slice m (p + 16) length.toNat⟩ := by
  have kind : writes m (commitStores p msgType length userMetaU64) (p + 1) = HeaderType.user.raw := by
    apply byteWrites (k := 2) rfl
    simp [commitStores, Misses]
  have len : lengthAt (writes m (commitStores p msgType length userMetaU64)) p = length.toNat := by
    rw [lengthAt, fieldWrites (k := 1) rfl (by simp [commitStores, Misses])]
    exact Nat.mod_eq_of_lt length.toNat_lt
  have type : readLE (writes m (commitStores p msgType length userMetaU64)) (p + 2) 2 = msgType.toNat := by
    rw [fieldWrites (k := 3) rfl (by simp [commitStores, Misses])]
    exact Nat.mod_eq_of_lt msgType.toNat_lt
  have userMeta : readLE (writes m (commitStores p msgType length userMetaU64)) (p + 8) 8 = userMetaU64.toNat := by
    rw [fieldWrites (k := 4) rfl (by simp [commitStores])]
    exact Nat.mod_eq_of_lt userMetaU64.toNat_lt
  refine ⟨kind, len, ?_⟩
  unfold recordAt MessageHeader.read
  rw [len, type, userMeta, sliceCongr fun a lo _ => commitWritesOutside (.inr (by omega))]
  simp

theorem commitAbove {p : Nat} {msgType : UInt16} {length : UInt32} {userMetaU64 : UInt64} :
    ∀ f ∈ commitStores p msgType length userMetaU64, p < f.1 ∨ f = (p, [0]) := by
  simp only [commitStores, List.mem_cons, List.not_mem_nil, or_false]
  rintro f (rfl | rfl | rfl | rfl | rfl)
  · exact .inr rfl
  all_goals exact .inl (by show p < p + _; omega)

/- A User record inside its region, committed over a pre-installed header. -/
theorem pushUser (o : Open R d segs s g) (geometry : Geometry R) {n : Nat}
    (kind : d.data g.ino (g.fin + 1) = HeaderType.user.raw) (length : lengthAt (d.data g.ino) g.fin = n)
    (fits : g.fin % R + align8 (16 + n) + 56 ≤ R)
    (signed : MessageHeader.read (d.data g.ino) (g.fin + align8 (16 + n)) = .preinstall)
    (bounded : π.mtu = 0 ∨ n ≤ π.mtu) :
    Lawful R π d (.commit g.ino g.fin) ∧
    ∃ segs' g', Pushed R (d.apply (.commit g.ino g.fin)) segs' s g' ∧ g'.ino = g.ino ∧ g'.ident = g.ident ∧
      g'.fin = g.fin + align8 (16 + n) ∧ g'.slots = g.slots ++ [(g.fin, .user)] ∧
      messageCount ((d.apply (.commit g.ino g.fin)).data g.ino) + 1 = users g'.slots ∧
      records (d.apply (.commit g.ino g.fin)) segs' = records d segs ++ [recordAt (d.data g.ino) g.fin] := by
  have ok := o.ok
  have ge := align8Le (16 + n)
  have after : nextSlot (d.data g.ino) g.fin = g.fin + align8 (16 + n) := by
    rw [nextSlot, length, Nat.add_assoc]
    exact align8Add ok.aligned
  have large := geometry.large
  obtain ⟨region, offset⟩ := sameRegion (R := R) (p := g.fin) (x := align8 (16 + n)) (by omega)
  have placed : Placed R (d.data g.ino) g.fin .user := by
    show nextSlot (d.data g.ino) g.fin / R = g.fin / R
    rw [after, region]
  obtain ⟨lawful, pushed, counted⟩ := o.push (π := π) geometry kind (.inl rfl) placed
    (by rw [length]; omega) (by rw [after, offset]; exact fits)
    (by rw [after, region]; exact ok.inside) (by rw [after]; exact signed) (fun _ => by rwa [length])
  have grown := stepRecords (π := π) o.inv (.record o.found o.top o.settled kind (.inl rfl) placed
    (by rw [length]; omega) (by rw [after, offset]; exact fits) (by rw [after, region]; exact ok.inside)
    (by rw [after]; exact signed) o.joined fun _ => by rwa [length])
  rw [committedBy, if_pos kind] at grown
  refine ⟨lawful, _, _, pushed, rfl, rfl, after, rfl, ?_, grown⟩
  rw [counted]
  show _ = users (g.slots ++ [(g.fin, .user)])
  rw [usersSnoc]
  rfl

/- Counting and positioning after a User record; waking stores beside them. -/
theorem publishWpSpec {w : Writer} (pushed : Pushed R d segs s g) (ino : w.ino = g.ino)
    (behind : messageCount (d.data g.ino) + 1 = users g.slots) :
    Spec (Quiet R π) w d (publishWp (g.fin + 16)) fun r w' d' =>
      r = .ok () ∧ w' = w ∧ Open R d' segs s g ∧ d'.len g.ino = d.len g.ino := by
  unfold publishWp
  refine specSelf (specLook ?_)
  rw [ino, behind]
  obtain ⟨quiet1, pushed1, counted⟩ := pushed.count (π := π)
  refine specEmitTo (v := d.apply (.store g.ino 24 (toLE 8 (users g.slots)))) ⟨quiet1, trivial⟩ rfl ?_
  obtain ⟨quiet2, open2⟩ := pushed1.position (π := π) counted
  refine specEmitTo (v := (d.apply (.store g.ino 24 (toLE 8 (users g.slots)))).apply
    (.store g.ino 16 (toLE 8 (g.fin + 16)))) ⟨quiet2, trivial⟩ rfl ?_
  have len : (((d.apply (.store g.ino 24 (toLE 8 (users g.slots)))).apply
      (.store g.ino 16 (toLE 8 (g.fin + 16)))).len g.ino) = d.len g.ino := by rw [storeLen, storeLen]
  generalize (d.apply (.store g.ino 24 _)).apply _ = d2 at open2 len ⊢
  split
  · refine ⟨⟨⟨lawfulOf open2.inv (.wakeWord open2.found), rfl⟩, trivial⟩, rfl, rfl, ?_, ?_⟩
    · exact open2.wake open2.found (.inr ⟨rfl, toLELength _ _⟩)
    · rw [← len]
      exact storeLen _ _ _ _
  · exact ⟨trivial, rfl, rfl, open2, len⟩

/- The stores of `commit` into the open header, and what they leave. -/
theorem layCommit (o : Open R d segs s g) (msgType : UInt16) (length : UInt32) (userMetaU64 : UInt64) :
    ∃ d', run Disk.apply d (stores g.ino (commitStores g.fin msgType length userMetaU64)) = d' ∧
      Guar Disk.apply (Quiet R π) d (stores g.ino (commitStores g.fin msgType length userMetaU64)) ∧
      Open R d' segs s g ∧ d'.data g.ino (g.fin + 1) = HeaderType.user.raw ∧
      lengthAt (d'.data g.ino) g.fin = length.toNat ∧
      recordAt (d'.data g.ino) g.fin = ⟨msgType, userMetaU64, slice (d.data g.ino) (g.fin + 16) length.toNat⟩ ∧
      d'.len g.ino = d.len g.ino ∧ ∀ a, g.fin + 16 ≤ a → d'.data g.ino a = d.data g.ino a := by
  obtain ⟨guar, opened⟩ := o.scratchRun (π := π) (commitStores g.fin msgType length userMetaU64)
    commitAbove
  obtain ⟨kind, len, record⟩ := commitWrites (d.data g.ino) g.fin msgType length userMetaU64
  refine ⟨_, runStores _ _ _, guar, opened, ?_, ?_, ?_, setFileLen _ _, fun a out => ?_⟩
  · rw [setFileData]
    exact kind
  · rw [setFileData]
    exact len
  · rw [setFileData]
    exact record
  · rw [setFileData]
    exact commitWritesOutside (.inr out)

/- A ready writer is determined by the disk, up to its place and its reservation. -/
theorem readySame {w w' : Writer} (ready : Ready env cfg w d segs s g) (ready' : Ready env cfg w' d segs s g)
    (next : Nat) : ({ w with nextHdrPos := next, pendingMsgSize := none } : Writer) =
      { w' with nextHdrPos := next, pendingMsgSize := none } := by
  rw [ready.config, ready.sequence, ready.fileInstance, ready.ino, ready.fileLen, ready.region, ready'.config,
    ready'.sequence, ready'.fileInstance, ready'.ino, ready'.fileLen, ready'.region]

/-- The segment has grown by one User record at what was its open end. -/
structure Appended (g g' : Seg) (length : Nat) : Prop where
  ino : g'.ino = g.ino
  slots : g'.slots = g.slots ++ [(g.fin, .user)]
  fin : g'.fin = g.fin + align8 (16 + length)

/- From the commit of the record on. -/
theorem commitLast {w : Writer} {length : Nat} {record : Record} (ready : Ready env cfg w d segs s g)
    (kind : d.data g.ino (g.fin + 1) = HeaderType.user.raw) (len : lengthAt (d.data g.ino) g.fin = length)
    (content : recordAt (d.data g.ino) g.fin = record)
    (fits : g.fin % cfg.regionSize + align8 (16 + length) + 56 ≤ cfg.regionSize)
    (signed : MessageHeader.read (d.data g.ino) (g.fin + align8 (16 + length)) = .preinstall)
    (bounded : π.mtu = 0 ∨ length ≤ π.mtu)
    {Q : Except IoError Unit → Writer → Disk → Prop}
    (done : ∀ w' d' segs' g', Ready env cfg w' d' segs' s g' → w'.pendingMsgSize = none →
      Appended g g' length → records d' segs' = records d segs ++ [record] → Q (.ok ()) w' d') :
    Spec (Lawful cfg.regionSize π) w d (do
      Act.emit [.commit g.ino g.fin]
      Act.become { w with config := cfg, nextHdrPos := g.fin + align8 (16 + length), pendingMsgSize := none }
      publishWp (g.fin + align8 (16 + length) + 16)) Q := by
  obtain ⟨lawful, segs', g', pushed, ino, ident, fin, slots, behind, grown⟩ := pushUser (π := π) ready.toOpen
    ready.admitted.geometry kind len fits signed bounded
  have ge := align8Le (16 + length)
  refine specEmitTo (v := d.apply (.commit g.ino g.fin)) ⟨lawful, trivial⟩ rfl (specBecome ?_)
  rw [← fin]
  have published := publishWpSpec (π := π)
    (w := { w with config := cfg, nextHdrPos := g'.fin, pendingMsgSize := none }) pushed (ready.ino.trans ino.symm)
    (by rw [ino]; exact behind)
  refine ⟨quietLawful published.1, ?_⟩
  obtain ⟨result, same, opened, length'⟩ := published.2
  rw [result]
  refine done _ _ segs' g' ?_ ?_ ⟨ino, slots, fin⟩ ?_
  · rw [same]
    exact
      { toOpen := opened
        config := rfl
        admitted := ready.admitted
        sequence := ready.sequence
        fileInstance := by rw [ident]; exact ready.fileInstance
        ino := ready.ino.trans ino.symm
        fileLen := by
          rw [length', commitLen, ino]
          exact ready.fileLen
        region := by
          rw [fin, (sameRegion (by omega)).1]
          exact ready.region
        slot := rfl
        pending := fun n some => by cases some }
  · rw [same]
  · rw [← content, ← grown]
    exact quietRecords ready.admitted.geometry pushed.inv published.1 opened.inv

theorem commitSpec (ready : Ready env cfg w d segs s g) {msgType : UInt16} {length : UInt32} {userMetaU64 : UInt64} :
    Spec (Lawful cfg.regionSize cfg.policy) w d (commit msgType length userMetaU64) fun r w' d' =>
      ∃ segs' g', Ready env cfg w' d' segs' s g' ∧ w'.pendingMsgSize = none ∧
        match r with
        | .ok _ => (∃ n, w.pendingMsgSize = some n ∧ length.toNat ≤ n) ∧ Appended g g' length.toNat ∧
          records d' segs' = records d segs ++ [⟨msgType, userMetaU64, slice (d.data g.ino) (g.fin + 16) length.toNat⟩]
        | .error _ => d' = d := by
  unfold commit
  apply specSelf
  refine specCleared ready fun w0 ready0 idle0 => ?_
  split
  · exact ⟨trivial, segs, g, ready0, idle0, rfl⟩
  · rename_i n pending
    obtain ⟨fits, signed, allowed⟩ := ready.pending n pending
    have ok := ready.ok
    have small := ready.admitted.geometry.small
    have ge := align8Le (16 + length.toNat)
    apply specRefuse
    · exact fun _ => ⟨segs, g, ready0, idle0, rfl⟩
    intro enough
    have mono := align8Mono (x := 16 + length.toNat) (y := 16 + n) (by omega)
    have bounded : cfg.policy.mtu = 0 ∨ length.toNat ≤ cfg.policy.mtu := by
      show cfg.mtu.toNat = 0 ∨ _ ≤ cfg.mtu.toNat
      omega
    have finSmall : g.fin + 56 ≤ 2 ^ 63 - 1 := ok.finLt.trans ok.bound
    have next : alignUp (g.fin + headerSlot + length.toNat) = g.fin + align8 (16 + length.toNat) := by
      show alignUp (g.fin + 16 + length.toNat) = _
      rw [alignUpEq (by omega), Nat.add_assoc, align8Add ok.aligned]
    dsimp only
    rw [readySame ready ready0, ready.config, ready.slot, ready.ino, next]
    apply specSkip (getBytesIdle (by rw [ready0.config]; exact small)
      (by rw [ready0.config]; show _ + 16 ≤ _; omega))
    rw [ready0.config, ready0.slotAt]
    -- the header, still uncommitted
    obtain ⟨d1, ran1, guar1, open1, kind1, len1, record1, flen1, out1⟩ := layCommit (π := cfg.policy)
      ready0.toOpen msgType length userMetaU64
    refine specEmitTo (quietLawful guar1) ran1 ?_
    have ready1 : Ready env cfg w0 d1 segs s g :=
      { ready0 with
        toOpen := open1
        fileLen := by rw [flen1]; exact ready0.fileLen
        pending := fun m some => absurd (idle0.symm.trans some) (by simp) }
    have same1 : records d1 segs = records d segs := by
      have kept := quietRecords ready.admitted.geometry ready0.inv guar1 (by rw [ran1]; exact open1.inv)
      rwa [ran1] at kept
    by_cases short : length.toNat < n
    · -- a short commit lays the next header again, right after the shorter record
      rw [if_pos short]
      obtain ⟨region, offset⟩ := sameRegion (R := cfg.regionSize) (p := g.fin)
        (x := align8 (16 + length.toNat)) (by omega)
      rw [offset]
      apply specSkip (getBytesIdle (by rw [ready0.config]; exact small)
        (by rw [ready0.config]; show _ + _ + 16 ≤ _; omega))
      have slot : w0.currentRegionIndex * w0.config.regionSize +
          (g.fin % cfg.regionSize + align8 (16 + length.toNat)) = g.fin + align8 (16 + length.toNat) := by
        rw [ready0.config, ← Nat.add_assoc, ready0.slotAt]
      rw [slot]
      obtain ⟨d2, ran2, guar2, open2, signed2, flen2, out2⟩ := open1.layHeader (π := cfg.policy)
        (h := .preinstall) (p := g.fin + align8 (16 + length.toNat)) rfl (by omega)
      have ready2 : Ready env cfg w0 d2 segs s g :=
        { ready1 with
          toOpen := open2
          fileLen := by rw [flen2]; exact ready1.fileLen
          pending := fun m some => absurd (idle0.symm.trans some) (by simp) }
      have kept := quietRecords ready.admitted.geometry open1.inv guar2 (by rw [ran2]; exact open2.inv)
      rw [ran2] at kept
      have len2 : lengthAt (d2.data g.ino) g.fin = length.toNat := by
        rw [← len1]
        exact readLECongr fun a lo hi => out2 a (.inl (by omega))
      have record2 : recordAt (d2.data g.ino) g.fin = recordAt (d1.data g.ino) g.fin :=
        recordCongr fun a lo hi => out2 a (.inl (by omega))
      refine specEmitTo (quietLawful guar2) ran2 (commitLast ready2 ?_ len2 (record2.trans record1) (by omega) signed2
        bounded ?_)
      · rw [out2 _ (.inl (by omega))]
        exact kind1
      · intro w' d' segs' g' ready' idle' appended grown
        exact ⟨segs', g', ready', idle', ⟨n, pending, by omega⟩, appended, by rw [grown, kept, same1]⟩
    · -- the header laid by the reservation is still there
      rw [if_neg short]
      have full : length.toNat = n := by omega
      refine commitLast ready1 kind1 len1 record1 (by omega) ?_ bounded ?_
      · rw [full, readCongr fun a lo hi => out1 a (by omega)]
        exact signed
      · intro w' d' segs' g' ready' idle' appended grown
        exact ⟨segs', g', ready', idle', ⟨n, pending, by omega⟩, appended, by rw [grown, same1]⟩

end Commit
end Xchannel.CallSpecs
