import Xchannel.StepLaws

/-! The fields every segment of a channel carries: region size, record bound, name and generation. A
session stamps them on the files it creates, and nothing changes them afterwards. -/
namespace Xchannel.Labels
open ByteMemory Format Storage RecordChain SegmentInvariant ChannelInvariant ChannelSteps ChannelLog
  CrashProgram WriterCalls WriterSpecs CallSpecs Sessions SessionSpecs StepLaws

/- The bytes of the stamped fields. -/
def Stamp (a : Nat) : Prop := (48 ≤ a ∧ a < 56) ∨ (65 ≤ a ∧ a < 113)

/-- Every segment carries the label, and so does the file prepared to be the next one. -/
structure Stamped (label : Mem → Prop) (d : Disk) (segs : List Seg) : Prop where
  published : ∀ g ∈ segs, label (d.data g.ino)
  spare : ∀ i, d.segments segs.length = some i → label (d.data i)

/-- A label that depends on the stamped fields only. -/
def Stable (label : Mem → Prop) : Prop := ∀ m m', (∀ a, Stamp a → m' a = m a) → label m → label m'

theorem labelledStable (π : Policy) : Stable (Labelled π) := by
  rintro m m' same ⟨region, mtu, name⟩
  refine ⟨?_, ?_, ?_⟩
  · rw [← region]
    exact readLECongr fun a lo hi => same a (.inl ⟨by omega, by omega⟩)
  · rw [← mtu]
    exact readLECongr fun a lo hi => same a (.inl ⟨by omega, by omega⟩)
  · rw [← name]
    exact sliceCongr fun a lo hi => same a (.inr ⟨by omega, by omega⟩)

section Steps
variable {env : Env} {R : Nat} {π : Policy} {uses : Policy → Prop} {label : Mem → Prop} {d : Disk}
  {segs segs' : List Seg} {op : Op} {ops : List Op}

/- A published segment keeps its label. -/
theorem publishedKept (stable : Stable label) (inv : Inv R d segs) (step : Step R π d segs op segs') {g : Seg}
    (mem : g ∈ segs) (here : label (d.data g.ino)) : label ((d.apply op).data g.ino) := by
  obtain ⟨s, found⟩ := List.mem_iff_getElem?.mp mem
  have ge := (inv.each s g found).1.finGe
  refine stable _ _ (fun a stamp => ?_) here
  unfold Stamp at stamp
  exact (stepPreserves inv step).below s g found a (by omega) (by unfold Adjusted; omega)

/- So does the prepared file, as long as it is under its name. -/
theorem spareKept (geometry : Geometry R) (stable : Stable label) (inv : Inv R d segs) (step : Step R π d segs op segs')
    {i : Nat} (named : d.segments segs.length = some i) (here : label (d.data i)) : label ((d.apply op).data i) := by
  obtain ⟨old, apart, ident, gen, blank, _⟩ := spareApart inv named
  have stored {off : Nat} {bytes : List UInt8} (out : ∀ a, Stamp a → a < off ∨ off + bytes.length ≤ a) :
      label ((d.apply (.store i off bytes)).data i) := by
    refine stable _ _ (fun a stamp => ?_) here
    rw [storeData]
    exact writeOutside (out a stamp)
  have elsewhere {s : Nat} {g : Seg} (found : segs[s]? = some g) : i ≠ g.ino := fun same => apart (same ▸ inoMem found)
  cases step with
  | scratch found top settled above free => rwa [storeDataOther _ _ (elsewhere found)]
  | record found top settled kind data placed fits room inside signed joined bounded =>
    rwa [commitDataOther _ (elsewhere found)]
  | count found top => rwa [storeDataOther _ _ (elsewhere found)]
  | position found top counted => rwa [storeDataOther _ _ (elsewhere found)]
  | wakeFlags found => rwa [storeDataOther _ _ (elsewhere found)]
  | wakeWord found => rwa [storeDataOther _ _ (elsewhere found)]
  | stamp named' =>
    cases Option.some.inj (named.symm.trans named')
    refine stored fun a stamp => ?_
    rw [toLELength]
    unfold Stamp at stamp
    omega
  | spareFlags named' =>
    cases Option.some.inj (named.symm.trans named')
    refine stored fun a stamp => ?_
    unfold Stamp at stamp
    simp
    omega
  | @spareLen j n named' longer bound =>
    cases Option.some.inj (named.symm.trans named')
    have inside : R ≤ d.len i := blank.inside
    have large := geometry.large
    refine stable _ _ (fun a stamp => ?_) here
    show ((d.setFile i _).data i) a = _
    rw [setFileData]
    unfold Stamp at stamp
    exact if_pos ⟨by omega, by omega⟩
  | @publish j ident gen named' blank parented rolled joined =>
    cases Option.some.inj (named.symm.trans named')
    refine stable _ _ (fun a stamp => ?_) here
    show ((d.setFile i _).data i) a = _
    rw [setFileData]
    unfold Stamp at stamp
    exact writeOutside (by simp; omega)
  | commitRoll found next => rwa [commitDataOther _ (elsewhere found)]
  | terminal found next rolled => rwa [storeDataOther _ _ (elsewhere found)]
  | grow found longer bound =>
    show label ((d.setFile _ _).data i)
    rwa [setFileDataOther _ (elsewhere found)]
  | create =>
    show label ((d.setFile _ _).data i)
    rwa [setFileDataOther _ (by omega)]
  | attemptStore mem => rwa [storeDataOther _ _ (fun same => (inv.attempts _ mem).2.2 _ (same ▸ named))]
  | attemptLen mem =>
    show label ((d.setFile _ _).data i)
    rwa [setFileDataOther _ (fun same => (inv.attempts _ mem).2.2 _ (same ▸ named))]
  | install attempt free spare =>
    rw [free] at named
    cases named
  | discard => exact here
  | prune kept least behind joined => exact here
  | sweep => exact here

theorem stepStamped (geometry : Geometry R) (stable : Stable label) (used : ∀ m, Labelled π m → label m)
    (inv : Inv R d segs) (stamped : Stamped label d segs) (step : Step R π d segs op segs') :
    Stamped label (d.apply op) segs' := by
  have published (g : Seg) (mem : g ∈ segs) : label ((d.apply op).data g.ino) :=
    publishedKept stable inv step mem (stamped.published g mem)
  have spare (i : Nat) (named : d.segments segs.length = some i) : label ((d.apply op).data i) :=
    spareKept geometry stable inv step named (stamped.spare i named)
  cases step with
  | @record s g t found top settled kind data placed fits room inside signed joined bounded =>
    refine ⟨fun h mem => ?_, fun i named => spare i (by rwa [List.length_set] at named)⟩
    rcases List.mem_or_eq_of_mem_set mem with old | rfl
    · exact published h old
    · exact published g (List.mem_of_getElem? found)
  | @publish i ident gen name blank parented rolled joined =>
    refine ⟨fun h mem => ?_, fun j named => ?_⟩
    · rcases List.mem_append.mp mem with old | last
      · exact published h old
      · rw [List.mem_singleton.mp last]
        exact spare i name
    · -- no name is two past the newest segment
      have low := (inv.names _ j named).2.2
      rw [List.length_append, List.length_singleton] at low
      rcases low with ⟨g, found, _⟩ | ⟨top, _⟩
      · have := lengthOf found
        omega
      · omega
  | @install fileInstance a attempt free prepared labelled =>
    refine ⟨published, fun i named => ?_⟩
    simp only [Disk.apply, attempt, if_true, Option.some.injEq] at named
    subst named
    have data : (d.apply (.install segs.length fileInstance)).data a.ino = d.data a.ino := by
      simp only [Disk.data, Disk.apply, attempt]
    rw [data]
    exact used _ labelled
  | discard =>
    refine ⟨published, fun i named => ?_⟩
    simp [Disk.apply] at named
  | @prune s n kept least behind joined =>
    refine ⟨published, fun i named => spare i ?_⟩
    simp only [Disk.apply] at named
    rwa [if_neg (by omega)] at named
  | _ => exact ⟨published, spare⟩

theorem runStamped (stable : Stable label) (used : ∀ π, uses π → ∀ m, Labelled π m → label m)
    (sound : Sound env d segs) (stamped : Stamped label d segs) (legal : Guar Disk.apply (Legal env uses) d ops)
    (sound' : Sound env (run Disk.apply d ops) segs') : Stamped label (run Disk.apply d ops) segs' :=
  runInvariant (P := Stamped label) (fun _ π _ _ _ _ use regions inv step stamped =>
    stepStamped regions.toGeometry stable (used π use) inv stamped step) sound stamped legal sound'

/-- No record is longer than the bound. -/
def Bounded (mtu : Nat) (d : Disk) (segs : List Seg) : Prop :=
  ∀ g ∈ segs, ∀ p, (p, .user) ∈ g.slots → lengthAt (d.data g.ino) p ≤ mtu

theorem stepBounded {mtu : Nat} (used : π.mtu = mtu) (some : mtu ≠ 0) (inv : Inv R d segs)
    (bounded : Bounded mtu d segs) (step : Step R π d segs op segs') : Bounded mtu (d.apply op) segs' := by
  have kept : Bounded mtu (d.apply op) segs := by
    intro g mem p user
    obtain ⟨s, found⟩ := List.mem_iff_getElem?.mp mem
    have ok := (inv.each s g found).1
    rw [lengthCongr fun a lo hi => ?_]
    · exact bounded g mem p user
    · obtain ⟨below, fixed⟩ := ok.slotBytes user lo hi
      exact (stepPreserves inv step).below s g found a below fixed
  cases step with
  | @record s g t found top settled kind data placed fits room inside signed joined within =>
    intro h mem p user
    rcases List.mem_or_eq_of_mem_set mem with old | rfl
    · exact kept h old p user
    · rcases List.mem_append.mp user with old | last
      · exact kept g (List.mem_of_getElem? found) p old
      · cases List.mem_singleton.mp last
        show lengthAt ((d.apply (.commit g.ino g.fin)).data g.ino) g.fin ≤ mtu
        have length : lengthAt ((d.apply (.commit g.ino g.fin)).data g.ino) g.fin = lengthAt (d.data g.ino) g.fin := by
          rw [commitData]
          exact readLEWriteOther (by simp)
        rw [length]
        have := within rfl
        omega
  | publish name blank parented rolled joined =>
    intro h mem p user
    rcases List.mem_append.mp mem with old | last
    · exact kept h old p user
    · cases List.mem_singleton.mp last
      cases List.mem_singleton.mp user
  | _ => exact kept

theorem runBounded {mtu : Nat} (some : mtu ≠ 0) (used : ∀ π, uses π → π.mtu = mtu)
    (sound : Sound env d segs) (bounded : Bounded mtu d segs) (legal : Guar Disk.apply (Legal env uses) d ops)
    (sound' : Sound env (run Disk.apply d ops) segs') : Bounded mtu (run Disk.apply d ops) segs' :=
  runInvariant (P := Bounded mtu) (fun _ π _ _ _ _ use _ inv step bounded =>
    stepBounded (used π use) some inv bounded step) sound bounded legal sound'

end Steps

section Sessions

/- The fields every published file of a channel carries alike. -/
def fieldsOf (m : Mem) : Nat × List UInt8 × Nat × Nat := (mtuField m, channelName m, generation m, regionSizeField m)

/-- The fields are constant over the channel, and no record is longer than the bound on disk. -/
structure FieldsLaw (d : Disk) : Prop where
  constant : ∀ i ∈ d.history, ∀ j ∈ d.history, fieldsOf (d.data i) = fieldsOf (d.data j)
  honoured : ∀ i ∈ d.history, mtuField (d.data i) ≠ 0 → ∀ slots p, Visits (d.data i) 0 slots p → d.data i p = 1 →
    d.data i (p + 1) = HeaderType.user.raw → lengthAt (d.data i) p ≤ mtuField (d.data i)

theorem sameGeneration {R s : Nat} {d : Disk} {segs : List Seg} {g₀ g : Seg} (inv : Inv R d segs)
    (first : segs[0]? = some g₀) (found : segs[s]? = some g) : g.gen = g₀.gen := by
  induction s generalizing g with
  | zero => rw [Option.some.inj (first.symm.trans found)]
  | succ s ih =>
    have low := lengthOf found
    obtain ⟨h, before⟩ : ∃ h, segs[s]? = some h := ⟨segs[s], List.getElem?_eq_getElem (by omega)⟩
    rw [(inv.link before found).gen, ih before]

theorem fieldsLaw {R : Nat} {d : Disk} {segs : List Seg} {label : Policy} (inv : Inv R d segs)
    (stamped : Stamped (Labelled label) d segs) (narrow : label.mtu < 2 ^ 32)
    (bounded : label.mtu ≠ 0 → Bounded label.mtu d segs) : FieldsLaw d := by
  have published {i : Nat} (mem : i ∈ d.history) : ∃ (s : Nat) (g : Seg), segs[s]? = some g ∧ g.ino = i := by
    rw [inv.history] at mem
    obtain ⟨g, mem, same⟩ := List.mem_map.mp mem
    obtain ⟨s, found⟩ := List.mem_iff_getElem?.mp mem
    exact ⟨s, g, found, same⟩
  have mtuOf {s : Nat} {g : Seg} (found : segs[s]? = some g) : mtuField (d.data g.ino) = label.mtu := by
    rw [(stamped.published g (List.mem_of_getElem? found)).2.1, Nat.mod_eq_of_lt narrow]
  constructor
  · intro i memI j memJ
    obtain ⟨s, g, found, rfl⟩ := published memI
    obtain ⟨s', g', found', rfl⟩ := published memJ
    have positive : 0 < segs.length := Nat.lt_of_le_of_lt (Nat.zero_le s) (lengthOf found)
    obtain ⟨g₀, first⟩ : ∃ g₀, segs[0]? = some g₀ := ⟨segs[0], List.getElem?_eq_getElem positive⟩
    obtain ⟨region, mtu, name⟩ := stamped.published g (List.mem_of_getElem? found)
    obtain ⟨region', mtu', name'⟩ := stamped.published g' (List.mem_of_getElem? found')
    have gen : generation (d.data g.ino) = g₀.gen := (inv.each s g found).1.gen.trans (sameGeneration inv first found)
    have gen' : generation (d.data g'.ino) = g₀.gen := (inv.each s' g' found').1.gen.trans (sameGeneration inv first found')
    unfold fieldsOf
    rw [mtu, mtu', name, name', gen, gen', region, region']
  · intro i mem some slots p walk flag user
    obtain ⟨s, g, found, rfl⟩ := published mem
    rw [mtuOf found] at some ⊢
    obtain ⟨ok, ends⟩ := inv.each s g found
    rcases visitedSlot ok ends walk flag with ⟨t, slot⟩ | ⟨rfl, g', next⟩
    · have kind := (ok.chain.record slot).kind
      obtain rfl : t = .user := rawInj.mp (kind.symm.trans user)
      exact bounded some g (List.mem_of_getElem? found) p slot
    · have roll := (inv.link found next).kind
      exact absurd (roll.symm.trans user) (by decide)

/-- The sessions agree on what they stamp, and the bound they enforce is the one on disk. -/
structure Uniform (R : Nat) (mtu : UInt64) (name : List UInt8) (lives : List Life) : Prop where
  sizes : SizesOk lives
  stamps : ∀ l ∈ lives, l.config.regionSize = R ∧ l.config.mtu = mtu ∧ l.config.channelName = name
  narrow : mtu.toNat < 2 ^ 32

/- In every state between two operations of every history of sessions. -/
theorem channelFieldsConstant (env : Env) (lives : List Life) (R : Nat) (mtu : UInt64) (name : List UInt8)
    (uniform : Uniform R mtu name lives) : FieldsLaw (after env lives) := by
  let label : Policy := ⟨none, R, mtu.toNat, name⟩
  have legal : Guar Disk.apply
      (Legal env fun π => π.region = R ∧ π.mtu = mtu.toNat ∧ π.name = name) Disk.empty
      (timeline env Disk.empty lives) := by
    refine timelineLegal env (fun l mem => ⟨?_, uniform.sizes l mem⟩) emptySound
    obtain ⟨region, same, named⟩ := uniform.stamps l mem
    exact ⟨region, congrArg UInt64.toNat same, named⟩
  obtain ⟨segs, sound, _⟩ := runSound emptySound legal
  have stamped : Stamped (Labelled label) (after env lives) segs :=
    runStamped (labelledStable label) (fun π used m => by
      obtain ⟨region, same, named⟩ := used
      rintro ⟨h₁, h₂, h₃⟩
      exact ⟨by rw [h₁, region], by rw [h₂, same], by rw [h₃, named]⟩) emptySound
      ⟨fun g mem => by simp at mem, fun i named => by simp [Disk.empty] at named⟩ legal sound
  obtain ⟨R', regions, inv⟩ := sound
  exact fieldsLaw inv stamped uniform.narrow fun some =>
    runBounded some (fun π used => used.2.1) emptySound (fun g mem => by simp at mem) legal ⟨R', regions, inv⟩

def boundedConfig (mtu : UInt64) : Config := { smallConfig with mtu := mtu }

theorem boundedFormed (mtu : UInt64) : Formed (boundedConfig mtu) := ⟨rfl, nofun⟩

/- A record at its bound, a roll and a reopening. -/
def boundedLives : List Life :=
  [⟨boundedConfig 100, boundedFormed 100, [.reserve 100, .commit 7 100 9, .rollFile, .reserve 101], 200⟩,
    ⟨boundedConfig 100, boundedFormed 100, [.reserve 5, .commit 5 5 1], 60⟩]

theorem channelFieldsConstantSmall : Uniform 4096 100 (List.replicate 48 0) boundedLives ∧
    FieldsLaw (after smallEnv boundedLives) := by
  have uniform : Uniform 4096 100 (List.replicate 48 0) boundedLives := ⟨by decide, by decide, by decide⟩
  exact ⟨uniform, channelFieldsConstant smallEnv boundedLives 4096 100 _ uniform⟩

/- A session with another bound stamps the file it rolls into with it, and a bound past 32 bits is
enforced whole but stamped cut off. -/
def mixedLives : List Life :=
  [⟨boundedConfig 4294967396, boundedFormed 4294967396, [.reserve 200, .commit 7 200 9], 200⟩,
    ⟨boundedConfig 50, boundedFormed 50, [.rollFile], 200⟩]

theorem mixedFields : SizesOk mixedLives ∧ (after smallEnv mixedLives).history = [0, 1] ∧
    mtuField ((after smallEnv mixedLives).data 0) = 100 ∧ mtuField ((after smallEnv mixedLives).data 1) = 50 ∧
    lengthAt ((after smallEnv mixedLives).data 0) 208 = 200 ∧ ¬ FieldsLaw (after smallEnv mixedLives) := by
  have history : (after smallEnv mixedLives).history = [0, 1] := by decide +kernel
  have first : mtuField ((after smallEnv mixedLives).data 0) = 100 := by decide +kernel
  have second : mtuField ((after smallEnv mixedLives).data 1) = 50 := by decide +kernel
  refine ⟨by decide, history, first, second, by decide +kernel, fun law => ?_⟩
  have same := law.constant 0 (by rw [history]; decide) 1 (by rw [history]; decide)
  generalize (after smallEnv mixedLives).data 0 = m at first same
  generalize (after smallEnv mixedLives).data 1 = m' at second same
  have bounds : mtuField m = mtuField m' := congrArg Prod.fst same
  omega

end Sessions
end Xchannel.Labels
