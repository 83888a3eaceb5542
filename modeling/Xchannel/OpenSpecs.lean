import Xchannel.ReadLaws

/-! Opening a reader on a channel that stands still: what each probe of a file finds, the names in
order, and the open at the earliest segment. -/
namespace Xchannel.OpenSpecs
open ByteMemory Format Storage RecordChain SegmentInvariant ChannelInvariant ChannelLog Observation SegmentWalk
  WalkSpecs WriterSpecs RecoverySpecs BuildSpecs ReaderOpen ReaderCalls ReadPath ReadSpecs ReadLaws

/- The reader an open leaves at slot `p` of a segment. -/
def openedAt (R s : Nat) (g : Seg) (p position : Nat) : Reader where
  fileSequence := s
  ino := g.ino
  readPosition := p
  position := position
  regionSize := R
  baseRecordIndex := g.base
  generation := g.gen
  batchLimit := none
  batchSegs := []
  batchPos := []
  maps := [⟨s, p / R, g.ino⟩]
  header := g.ino
  fileInstance := g.ident.fileInstance
  wakeUntrusted := false
  wakeMiss := none

theorem openedStanding {R s : Nat} {d : Disk} {segs : List Seg} {g : Seg} {p position : Nat} {before after : Slots}
    (found : segs[s]? = some g) (slots : g.slots = before ++ after) (front : Chain R (d.data g.ino) 0 before p)
    (back : Chain R (d.data g.ino) p after g.fin) (index : position = (g.base + users before) % usize) :
    Standing R d segs (openedAt R s g p position) s g p where
  found := found
  sequence := rfl
  ino := rfl
  header := rfl
  fileInstance := rfl
  region := rfl
  gen := rfl
  base := rfl
  slot := rfl
  map := rfl
  place := ⟨before, after, slots, front, back, index⟩

section Names
variable {d : Disk} {s : Nat}

theorem earliestEq (present : (d.segments s).isSome) (low : s < d.bound)
    (earliest : ∀ k, (d.segments k).isSome → s ≤ k) : d.findEarliestSequence = s := by
  obtain ⟨extra, bound⟩ := Nat.exists_eq_add_of_le (Nat.succ_le_of_lt low)
  have below : (List.range s).filter (fun k => (d.segments k).isSome) = [] := by
    rw [List.filter_eq_nil_iff]
    intro k mem some
    have := earliest _ some
    have := List.mem_range.mp mem
    omega
  have split : d.findAllSequences = s :: (List.map (s + 1 + ·) (List.range extra)).filter (fun k => (d.segments k).isSome) := by
    rw [Disk.findAllSequences, bound, List.range_add, List.filter_append, List.range_succ, List.filter_append, below,
      List.nil_append, List.filter_singleton, present]
    rfl
  rw [Disk.findEarliestSequence, split]
  rfl

end Names

section Probes
variable {env : Env} {R s : Nat} {d : Disk} {g : Seg} {τ : Type} {t : τ}

theorem regionField {i : Nat} (ok : SegOk R s (d.files i) g) : regionSizeField (d.data i) = R :=
  (validateOk.mp ok.header.header).2.2.2.2.1

theorem fromSegmentRun (regions : Regions env R) (ok : SegOk R s (d.files g.ino) g) (start : SegmentStart)
    {readPos position : Nat}
    (starts : (startOf env 0 g.ino s R start : Static Disk τ IoError (Nat × Nat)) d t = (.ok (readPos, position), t)) :
    (fromSegment env 0 s g.ino start : Static Disk τ IoError Reader) d t = (.ok (openedAt R s g readPos position), t) := by
  have large := regions.large
  obtain ⟨_, _, _, published⟩ := headerChecks ok
  have base : baseRecordIndex (d.data g.ino) = g.base := ok.base
  have gen : generation (d.data g.ino) = g.gen := ok.gen
  unfold fromSegment
  rw [pageRun, Static.lookRun, channelKind ok, Static.liftOk, Static.refuseRun _ _ (fun bad => bad rfl), Static.lookRun,
    regionField ok, identityRun ok, Static.lookRun, published, Static.liftOk,
    Static.refuseRun _ _ (fun bad => bad rfl), Static.bindOk _ _ starts]
  dsimp only
  rw [Static.lookRun, base, Static.lookRun, gen]
  unfold divisor
  rw [Static.refuseRun _ _ (by omega), createIdle regions.paged (by omega) (regionAligned regions.paged _)]
  rfl

theorem beginningRun (regions : Regions env R) (ok : SegOk R s (d.files g.ino) g) :
    (fromSegment env 0 s g.ino .beginning : Static Disk τ IoError Reader) d t = (.ok (openedAt R s g 0 g.base), t) := by
  have base : baseRecordIndex (d.data g.ino) = g.base := ok.base
  refine fromSegmentRun regions ok .beginning ?_
  unfold startOf
  dsimp only
  rw [Static.lookRun, base]
  rfl

theorem lateJoinRun (regions : Regions env R) (ok : SegOk R s (d.files g.ino) g) (earliest : d.findEarliestSequence = s)
    (named : d.segments s = some g.ino) (spins : Nat) :
    (openWith env spins .lateJoin none : Static Disk τ IoError Reader) d t = (.ok (openedAt R s g 0 g.base), t) := by
  have run : (openMode env spins none .lateJoin : Static Disk τ IoError Reader) d t =
      (.ok (openedAt R s g 0 g.base), t) := by
    unfold openMode openLateJoin
    dsimp only
    rw [Static.lookRun, earliest, presentRun, named]
    exact beginningRun regions ok
  unfold openWith
  rw [Static.bindOk _ _ run]
  rfl

end Probes

section Channels
variable {env : Env} {R s : Nat} {d : Disk} {segs : List Seg} {g : Seg}

/- A channel as a writer leaves it, whichever of its segments were pruned, is one its readers can walk. -/
theorem invView (regions : Regions env R) (inv : Inv R d segs) : View env R d segs where
  regions := regions
  stored := ⟨d.segments, inv⟩
  rolls := by
    intro s g g' found next
    cases named : d.segments (s + 1) with
    | none => exact .inr ⟨_, fun t => followingMissing inv next named⟩
    | some i =>
      obtain ⟨_, _, ⟨h, at_next, ino⟩ | ⟨past, _⟩⟩ := inv.names _ _ named
      · cases Option.some.inj (at_next.symm.trans next)
        exact .inl (by rw [ino])
      · have := lengthOf next
        omega

theorem namedWhole (named : Named d segs) : Whole d segs := fun s g found => named (s + 1) g found

/- Without retention the first segment is the earliest. -/
theorem earliestFirst (inv : Inv R d segs) (named : Named d segs) (found : segs[0]? = some g) :
    d.findEarliestSequence = 0 := by
  have present := named 0 g found
  exact earliestEq (by rw [present]; rfl) (inv.names 0 _ present).1 fun k _ => Nat.zero_le k

/- What an open returns on a channel that stands still. -/
def opened (env : Env) (spins : Nat) (mode : ReaderMode) (d : Disk) : Except IoError Reader :=
  ((openWith env spins mode none : Static Disk Unit IoError Reader) d ()).1

theorem baseSmall (inv : Inv R d segs) (found : segs[s]? = some g) : g.base < usize := by
  rw [← (inv.each s g found).1.base]
  exact readLELt _ _ _

/- Without retention a late joiner stands before the first record of the channel. -/
theorem lateJoinStands (sound : Sound env d segs) (named : Named d segs) (first : segs[0]? = some g) (spins : Nat) :
    ∃ R, View env R d segs ∧ opened env spins .lateJoin d = .ok (openedAt R 0 g 0 g.base) ∧
      Standing R d segs (openedAt R 0 g 0 g.base) 0 g 0 := by
  obtain ⟨R, regions, inv⟩ := sound
  have ok := (inv.each 0 g first).1
  refine ⟨R, invView regions inv, ?_, openedStanding first (List.nil_append _).symm (.done 0) ok.chain ?_⟩
  · unfold opened
    rw [lateJoinRun regions ok (earliestFirst inv named first) (named 0 g first)]
  · exact (Nat.mod_eq_of_lt (baseSmall inv first)).symm

end Channels
end Xchannel.OpenSpecs
