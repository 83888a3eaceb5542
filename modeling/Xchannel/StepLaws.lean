import Xchannel.SessionSpecs

/-! Two laws of every state a history of sessions reaches: the record chain of each published
segment, and that committed records are never changed. Both speak about the bytes alone: a walk
goes by flags, kinds and lengths. -/
namespace Xchannel.StepLaws
open ByteMemory Format Storage RecordChain SegmentInvariant ChannelInvariant ChannelSteps ChannelLog
  CrashProgram WriterCalls WriterOpen WriterSpecs CallSpecs BuildSpecs Sessions SessionSpecs

/-- A walk over committed records other than a `Roll`: the slots it visits and where it stands. -/
inductive Visits (m : Mem) : Nat → List Nat → Nat → Prop where
  | here (p : Nat) : Visits m p [] p
  | next {p q : Nat} {rest : List Nat} (committed : m p = 1) (notRoll : m (p + 1) ≠ HeaderType.roll.raw)
      (tail : Visits m (nextSlot m p) rest q) : Visits m p (p :: rest) q

def committedUsers (m : Mem) (slots : List Nat) : Nat :=
  (slots.filter fun p => m (p + 1) = HeaderType.user.raw).length

/- Where the walk of a segment may end: at its one uncommitted slot, or at a committed `Roll`. -/
def Stops (m : Mem) (p : Nat) : Prop := m p = 0 ∨ (m p = 1 ∧ m (p + 1) = HeaderType.roll.raw)

/-- The chain of a published segment. `stepped` is about every slot the walk visits, the others about
where it ends and about the two advisory words. -/
structure ChainLaw (f : File) : Prop where
  stepped : ∀ slots q, Visits f.data 0 slots q → ∀ p ∈ slots, 8 ∣ p ∧
    p % regionSizeField f.data + 16 + lengthAt f.data p ≤ regionSizeField f.data ∧
    (p / regionSizeField f.data + 1) * regionSizeField f.data ≤ f.len
  ends : ∃ slots fin, Visits f.data 0 slots fin ∧ Stops f.data fin ∧
    (∀ slots' fin', Visits f.data 0 slots' fin' → Stops f.data fin' → slots' = slots ∧ fin' = fin) ∧
    8 ∣ fin ∧ fin % regionSizeField f.data + rollTotal ≤ regionSizeField f.data ∧
    (fin / regionSizeField f.data + 1) * regionSizeField f.data ≤ f.len ∧
    (messageCount f.data = committedUsers f.data slots ∨
      messageCount f.data + 1 = committedUsers f.data slots) ∧
    (writePosition f.data = fin + headerSlot ∨
      (∃ before last, slots = before ++ [last] ∧ writePosition f.data = last + headerSlot) ∨
      (writePosition f.data = fin + rollTotal + headerSlot ∧ f.data fin = 1 ∧
        f.data (fin + 1) = HeaderType.roll.raw))

section Walks
variable {R s : Nat} {m m' : Mem} {p q q' : Nat} {slots slots' : List Nat} {segs : List Seg} {g : Seg}

theorem rawInj {t t' : HeaderType} : t.raw = t'.raw ↔ t = t' := by cases t <;> cases t' <;> decide

theorem Chain.visits {slots : Slots} (chain : Chain R m p slots q) : Visits m p (slots.map Prod.fst) q := by
  induction chain with
  | done p => exact .here p
  | step here tail ih =>
    refine .next here.committed ?_ ih
    rw [here.kind]
    exact fun same => here.notRoll (rawInj.mp same)

theorem Chain.committedUsers {slots : Slots} (chain : Chain R m p slots q) :
    committedUsers m (slots.map Prod.fst) = users slots := by
  induction chain with
  | done p => rfl
  | @step p t rest q here tail ih =>
    unfold StepLaws.committedUsers at ih ⊢
    rw [usersCons, List.map_cons, List.filter_cons, here.kind]
    by_cases user : t = .user
    · simp only [user, decide_true, if_true, List.length_cons, ih, Nat.add_comm]
    · simp only [rawInj, user, decide_false, if_false, Bool.false_eq_true, ih, Nat.zero_add]

/- A walk that goes on from a slot does not stop there. -/
theorem notStops (committed : m p = 1) (notRoll : m (p + 1) ≠ HeaderType.roll.raw) : ¬ Stops m p := by
  rintro (free | ⟨_, roll⟩)
  · rw [committed] at free
    contradiction
  · exact notRoll roll

/- Every walk is a beginning of the one that stops. -/
theorem Visits.within (walk : Visits m p slots q) (whole : Visits m p slots' q') (stops : Stops m q') :
    (∃ rest, slots' = slots ++ rest ∧ Visits m q rest q') := by
  induction walk generalizing slots' with
  | here p => exact ⟨slots', rfl, whole⟩
  | @next p q rest committed notRoll tail ih =>
    cases whole with
    | here => exact absurd stops (notStops committed notRoll)
    | next _ _ tail' =>
      obtain ⟨more, same, last⟩ := ih tail'
      exact ⟨more, by rw [same]; rfl, last⟩

theorem Visits.stopped (walk : Visits m p slots q) (stops : Stops m p) : slots = [] ∧ q = p := by
  cases walk with
  | here => exact ⟨rfl, rfl⟩
  | next committed notRoll _ => exact absurd stops (notStops committed notRoll)

theorem Visits.unique (walk : Visits m p slots q) (stops : Stops m q) (walk' : Visits m p slots' q')
    (stops' : Stops m q') : slots' = slots ∧ q' = q := by
  obtain ⟨rest, same, last⟩ := walk.within walk' stops'
  obtain ⟨rfl, rfl⟩ := last.stopped stops
  exact ⟨by simpa using same, rfl⟩

theorem Visits.congr (walk : Visits m p slots q)
    (same : ∀ x ∈ slots, ∀ a, x ≤ a → a < x + 16 → m' a = m a) : Visits m' p slots q := by
  induction walk with
  | here p => exact .here p
  | @next p q rest committed notRoll tail ih =>
    have head := same p List.mem_cons_self
    refine .next ?_ ?_ ?_
    · rw [head p (by omega) (by omega)]
      exact committed
    · rw [head (p + 1) (by omega) (by omega)]
      exact notRoll
    · rw [nextSlotCongr head]
      exact ih fun x mem => same x (List.mem_cons_of_mem _ mem)

theorem endsStops {m : Mem} (ends : Ends segs s m g) : Stops m g.fin := by
  unfold Ends at ends
  cases next : segs[s + 1]? with
  | none =>
    rw [next] at ends
    exact .inl ends.free
  | some g' =>
    rw [next] at ends
    rcases ends.1.position with ⟨flag, _⟩ | ⟨flag | free, _⟩
    · exact .inr ⟨flag, ends.1.kind⟩
    · exact .inr ⟨flag, ends.1.kind⟩
    · exact .inl free

/- A committed slot a walk comes to is one of the chain, or the `Roll` at its end. -/
theorem visitedSlot {f : File} (ok : SegOk R s f g) (ends : Ends segs s f.data g) (walk : Visits f.data 0 slots p)
    (flag : f.data p = 1) : (∃ t, (p, t) ∈ g.slots) ∨ (p = g.fin ∧ ∃ g', segs[s + 1]? = some g') := by
  obtain ⟨rest, same, last⟩ := walk.within (Chain.visits ok.chain) (endsStops ends)
  cases last with
  | here =>
    refine .inr ⟨rfl, ?_⟩
    cases next : segs[s + 1]? with
    | none =>
      rw [Ends, next] at ends
      have free := ends.free
      rw [flag] at free
      contradiction
    | some g' => exact ⟨g', rfl⟩
  | next _ _ _ =>
    have mem : p ∈ g.slots.map Prod.fst := by simp [same]
    obtain ⟨⟨p, t⟩, found, rfl⟩ := List.mem_map.mp mem
    exact .inl ⟨t, found⟩

/- Where the two advisory words of a segment stand. -/
theorem endsWords {m : Mem} (ends : Ends segs s m g) :
    (messageCount m = users g.slots ∨ messageCount m + 1 = users g.slots) ∧
    (writePosition m = g.fin + 16 ∨
      (∃ before last, g.slots.map Prod.fst = before ++ [last] ∧ writePosition m = last + 16) ∨
      (writePosition m = g.fin + 72 ∧ m g.fin = 1 ∧ m (g.fin + 1) = HeaderType.roll.raw)) := by
  unfold Ends at ends
  cases next : segs[s + 1]? with
  | none =>
    rw [next] at ends
    rcases ends with settled | ⟨_, before, p, t, slots, _, wp, counted | ⟨_, counted⟩⟩
    · exact ⟨.inl settled.count, .inl settled.wp⟩
    · exact ⟨.inl counted, .inr (.inl ⟨before.map Prod.fst, p, by simp [slots], wp⟩)⟩
    · exact ⟨.inr counted, .inr (.inl ⟨before.map Prod.fst, p, by simp [slots], wp⟩)⟩
  | some g' =>
    rw [next] at ends
    refine ⟨.inl ends.1.count, ?_⟩
    rcases ends.1.position with ⟨flag, wp⟩ | ⟨_, wp⟩
    · exact .inr (.inr ⟨wp, flag, ends.1.kind⟩)
    · exact .inl wp

theorem chainLaw {f : File} (ok : SegOk R s f g) (ends : Ends segs s f.data g) : ChainLaw f := by
  have region : regionSizeField f.data = R := (validateOk.mp ok.header.header).2.2.2.2.1
  have whole := Chain.visits ok.chain
  have stops := endsStops ends
  obtain ⟨count, wp⟩ := endsWords ends
  constructor
  · rw [region]
    intro slots q walk p mem
    obtain ⟨rest, same, _⟩ := walk.within whole stops
    have mem' : p ∈ g.slots.map Prod.fst := by
      rw [same]
      exact List.mem_append_left _ mem
    obtain ⟨⟨p, t⟩, found, rfl⟩ := List.mem_map.mp mem'
    have here := ok.chain.record found
    refine ⟨(ok.chain.aligned (Nat.dvd_zero 8)).2 _ found, here.fits, ?_⟩
    have below : p ≤ g.fin := by
      have := ok.slotEnd found
      omega
    exact Nat.le_trans (Nat.mul_le_mul_right R (Nat.succ_le_succ (Nat.div_le_div_right below))) ok.inside
  · rw [region]
    refine ⟨_, g.fin, whole, stops, fun slots' fin' walk' stops' => whole.unique stops walk' stops', ok.aligned,
      ok.room, ok.inside, ?_, wp⟩
    rw [Chain.committedUsers ok.chain]
    exact count

end Walks

section Chains
variable {env : Env} {uses : Policy → Prop} {d : Disk} {segs : List Seg}

/- A published file under a final name is one of the segments. -/
theorem publishedSeg {R s i : Nat} (inv : Inv R d segs) (named : d.segments s = some i) (published : d.data i 192 = 1) :
    ∃ g, segs[s]? = some g ∧ g.ino = i := by
  obtain ⟨_, _, known | ⟨_, _, ident, gen, blank, _⟩⟩ := inv.names s i named
  · exact known
  · have free : d.data i 192 = 0 := blank.unpublished
    rw [published] at free
    contradiction

/-- No size asked for in the sessions makes the sums of `try_reserve` wrap. -/
def SizesOk (lives : List Life) : Prop := ∀ l ∈ lives, ∀ c ∈ l.calls, CallOk l.config c

instance (lives : List Life) : Decidable (SizesOk lives) := by unfold SizesOk; infer_instance

theorem SizesOk.lives {lives : List Life} (sizes : SizesOk lives) : ∀ l ∈ lives, LifeOk (fun _ => True) l :=
  fun l mem => ⟨trivial, sizes l mem⟩

/- In every state between two operations of every history of sessions. -/
theorem recordChainLaw (env : Env) (lives : List Life) (sizes : SizesOk lives) (s i : Nat)
    (named : (after env lives).segments s = some i) (published : (after env lives).data i 192 = 1) :
    ChainLaw ((after env lives).files i) := by
  obtain ⟨segs, ⟨R, _, inv⟩, _⟩ := reached env sizes.lives
  obtain ⟨g, found, rfl⟩ := publishedSeg inv named published
  obtain ⟨segOk, ends⟩ := inv.each s g found
  exact chainLaw segOk ends

theorem recordChainLawSmall : ChainLaw ((after smallEnv smallLives).files 0) :=
  recordChainLaw smallEnv smallLives (by decide) 0 0 (by decide +kernel) (by decide +kernel)

/- With a size for which the sums of `try_reserve` wrap, the reservation fails but stays pending, and
a commit then makes a record that crosses its region. -/
theorem wrappedChain : (after smallEnv (wrappedLives 4096 [])).segments 0 = some 0 ∧
    (after smallEnv (wrappedLives 4096 [])).data 0 192 = 1 ∧
    ¬ ChainLaw ((after smallEnv (wrappedLives 4096 [])).files 0) := by
  refine ⟨by decide +kernel, by decide +kernel, fun law => ?_⟩
  have channel : nextSlot ((after smallEnv (wrappedLives 4096 [])).data 0) 0 = 208 := by decide +kernel
  have last := Visits.here (m := (after smallEnv (wrappedLives 4096 [])).data 0)
    (nextSlot ((after smallEnv (wrappedLives 4096 [])).data 0) 208)
  have walk := Visits.next (by decide +kernel) (by decide +kernel) last
  rw [← channel] at walk
  have crossing := (law.stepped _ _ (.next (by decide +kernel) (by decide +kernel) walk) 208 (by simp [channel])).2.1
  exact absurd crossing (by decide +kernel)

end Chains

section AppendOnly
variable {env : Env} {R : Nat} {uses : Policy → Prop} {π : Policy} {m m' m'' : Mem} {d : Disk} {segs segs' : List Seg}
  {op : Op} {ops : List Op}

/-- What never changes of a published segment: its Channel record but for the adjusted bytes, and
every byte of a committed record. -/
structure Fixed (m m' : Mem) : Prop where
  channel : ∀ a, a < 208 → ¬ Adjusted a → m' a = m a
  record : ∀ slots p, Visits m 0 slots p → p ≠ 0 → m p = 1 →
    ∀ a, p ≤ a → a < p + 16 + lengthAt m p → m' a = m a

theorem Visits.to {p q x : Nat} {slots : List Nat} (walk : Visits m p slots q) (mem : x ∈ slots) :
    (∃ before, Visits m p before x) ∧ m x = 1 := by
  induction walk with
  | here p => simp at mem
  | @next p q rest committed notRoll tail ih =>
    rcases List.mem_cons.mp mem with rfl | later
    · exact ⟨⟨[], .here x⟩, committed⟩
    · obtain ⟨⟨before, walk⟩, flag⟩ := ih later
      exact ⟨⟨p :: before, .next committed notRoll walk⟩, flag⟩

theorem Fixed.header (fixed : Fixed m m') {slots : List Nat} {p : Nat} (walk : Visits m 0 slots p) (flag : m p = 1) :
    ∀ a, p ≤ a → a < p + 16 → m' a = m a := by
  intro a lo hi
  by_cases first : p = 0
  · exact fixed.channel a (by omega) (by unfold Adjusted; omega)
  · exact fixed.record slots p walk first flag a lo (by omega)

theorem Fixed.visits (fixed : Fixed m m') {slots : List Nat} {p : Nat} (walk : Visits m 0 slots p) :
    Visits m' 0 slots p := by
  refine walk.congr fun x mem => ?_
  obtain ⟨⟨before, reach⟩, flag⟩ := walk.to mem
  exact fixed.header reach flag

theorem Fixed.refl (m : Mem) : Fixed m m := ⟨fun _ _ _ => rfl, fun _ _ _ _ _ _ _ _ => rfl⟩

theorem Fixed.trans (first : Fixed m m') (next : Fixed m' m'') : Fixed m m'' where
  channel := fun a low fixed => (next.channel a low fixed).trans (first.channel a low fixed)
  record := by
    intro slots p walk later flag a lo hi
    have same := first.header walk flag
    rw [← first.record slots p walk later flag a lo hi]
    refine next.record slots p (first.visits walk) later ?_ a lo ?_
    · rw [same p (by omega) (by omega)]
      exact flag
    · rw [lengthCongr same]
      exact hi

theorem stepFixed (inv : Inv R d segs) (step : Step R π d segs op segs') {i : Nat} (published : i ∈ d.history) :
    Fixed (d.data i) ((d.apply op).data i) := by
  rw [inv.history] at published
  obtain ⟨g, mem, rfl⟩ := List.mem_map.mp published
  obtain ⟨s, found⟩ := List.mem_iff_getElem?.mp mem
  obtain ⟨ok, ends⟩ := inv.each s g found
  have kept := stepPreserves inv step
  have ge := ok.finGe
  refine ⟨fun a low fixed => kept.below s g found a (by omega) fixed, ?_⟩
  intro slots p walk later flag a lo hi
  rcases visitedSlot ok ends walk flag with ⟨t, slot⟩ | ⟨rfl, g', next⟩
  · have notChannel : t ≠ .channel := by
      rintro rfl
      exact later (ok.chain.record slot).placed
    obtain ⟨below, fixed⟩ := recordBytes ok slot notChannel lo hi
    exact kept.below s g found a below fixed
  · rw [Ends, next] at ends
    have length : lengthAt (d.data g.ino) g.fin = 40 := ends.1.length
    exact kept.rolled s g g' found next flag a lo (by omega)

theorem historyGrows (d : Disk) (op : Op) {i : Nat} (mem : i ∈ d.history) : i ∈ (d.apply op).history := by
  cases op with
  | publish j => exact List.mem_append_left _ mem
  | install s f =>
    simp only [Disk.apply]
    split <;> exact mem
  | _ => exact mem

theorem historyKeeps (d : Disk) (ops : List Op) {i : Nat} (mem : i ∈ d.history) :
    i ∈ (run Disk.apply d ops).history := by
  induction ops generalizing d with
  | nil => exact mem
  | cons op ops ih => exact ih _ (historyGrows d op mem)

theorem publishedHistory (d : Disk) {ops : List Op} {i : Nat} (mem : .publish i ∈ ops) :
    i ∈ (run Disk.apply d ops).history := by
  induction ops generalizing d with
  | nil => simp at mem
  | cons op ops ih =>
    rcases List.mem_cons.mp mem with rfl | later
    · exact historyKeeps _ ops (List.mem_append_right _ (List.mem_singleton.mpr rfl))
    · exact ih _ later

/- One step after the other. -/
theorem runFixed (sound : Sound env d segs) (legal : Guar Disk.apply (Legal env uses) d ops) {i : Nat}
    (published : i ∈ d.history) : Fixed (d.data i) ((run Disk.apply d ops).data i) := by
  induction ops generalizing d segs with
  | nil => exact .refl _
  | cons op ops ih =>
    obtain ⟨R, π, segs1, _, regions, inv, step⟩ := legalStep sound legal.1
    exact (stepFixed inv step published).trans
      (ih ⟨R, regions, stepKeeps regions.toGeometry inv step⟩ legal.2 (historyGrows d op published))

/- Between any two moments of every history of sessions. -/
theorem committedNeverChanges (env : Env) (lives : List Life) (sizes : SizesOk lives) (first more rest : List Op)
    (split : timeline env Disk.empty lives = first ++ more ++ rest) (i : Nat) (published : .publish i ∈ first) :
    Fixed ((run Disk.apply Disk.empty first).data i) ((run Disk.apply Disk.empty (first ++ more)).data i) := by
  have legal := timelineLegal env sizes.lives emptySound
  rw [split, List.append_assoc] at legal
  obtain ⟨before, later⟩ := guarAppend.mp legal
  obtain ⟨segs, sound, _⟩ := runSound emptySound before
  rw [runAppend]
  exact runFixed sound (guarAppend.mp later).1 (publishedHistory _ published)

theorem committedNeverChangesSmall :
    Fixed ((run Disk.apply Disk.empty ((timeline smallEnv Disk.empty smallLives).take 60)).data 0)
      ((run Disk.apply Disk.empty (timeline smallEnv Disk.empty smallLives)).data 0) := by
  have split := List.take_append_drop 60 (timeline smallEnv Disk.empty smallLives)
  have fixed := committedNeverChanges smallEnv smallLives (by decide) _ _ [] ((List.append_nil _).trans split).symm 0
    (by decide +kernel)
  rwa [split] at fixed

/- The same defect: the header that the commit lays for the next record falls on the Channel record,
whose committed byte goes back to 0. -/
theorem wrappedOverwrites : ∃ first more, timeline smallEnv Disk.empty (wrappedLives 3872 []) = first ++ more ∧
    .publish 0 ∈ first ∧
    ¬ Fixed ((run Disk.apply Disk.empty first).data 0) ((run Disk.apply Disk.empty (first ++ more)).data 0) := by
  refine ⟨_, _, (List.take_append_drop 45 _).symm, by decide +kernel, fun fixed => ?_⟩
  exact absurd (fixed.channel 0 (by decide) (by decide)) (by decide +kernel)

end AppendOnly
end Xchannel.StepLaws
