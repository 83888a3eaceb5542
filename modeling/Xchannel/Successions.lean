import Xchannel.HandOverLaws

/-! The hand-over of a successor, over every interleaving of the writer's rolls with the helper: a roll ends, it fails
only where a number runs out, and what it publishes is the file under the next name. -/
namespace Xchannel.Successions
open Format Interleaving HandOver HandOverLaws

variable {spec : Spec} {first : Nat} {s t u : HandOver.State}

/-- What `build` leaves behind: a published newest segment, a helper that has just started. -/
structure Opened (s : HandOver.State) : Prop where
  low : s.fileSequence < usize
  nonzero : s.fileInstance ≠ 0
  made : ∀ q i, s.names q = some i → i < s.fresh
  named : ∀ q i, s.names q = some i → q ≤ s.fileSequence ∧ (s.files i).published = true
  own : s.names s.fileSequence = some s.ino
  ownInstance : (s.files s.ino).identity.fileInstance = s.fileInstance
  claimed : s.claimed = s.fileSequence
  readySequence : s.readySequence = noSequence
  inFlight : s.inFlight = noSequence
  ready : s.ready = none
  segment : s.segment = (s.fileSequence, s.fileInstance)
  handoff : s.handoff = none
  current : s.currentSequence = s.fileSequence
  doomed : s.doomed = []
  deferred : s.deferredPrune = []
  running : s.stop = false ∧ s.stopped = false
  writer : s.writer = .idle
  helper : s.helper = .top
  fresh : s.condemned = [] ∧ s.unlinked = [] ∧ s.failed = []

abbrev Reached (spec : Spec) (s t : HandOver.State) : Prop := Steps (step spec) (fun _ _ => True) s t

theorem openedInv (opened : Opened s) : Inv spec s.fileSequence s where
  low := opened.low
  began := Nat.le_refl _
  nonzero := opened.nonzero
  claims := .inl opened.claimed
  segment := opened.segment ▸ behindCurrent
  handoff p pending := by simp [opened.handoff] at pending
  current := opened.current.le
  made := opened.made
  named q i named := (opened.named q i named).1.trans (Nat.le_succ _)
  published q i named _ := (opened.named q i named).2
  successor i named := absurd (opened.named _ i named).1 (Nat.not_le.mpr (Nat.lt_succ_self _))
  own := opened.own
  ownInstance := opened.ownInstance
  ready n held := by simp [opened.ready] at held
  condemned q mem := by simp [opened.fresh.1] at mem
  deferred q mem := by simp [opened.deferred] at mem
  doomed q mem := by simp [opened.doomed] at mem
  absent q mem := by simp [opened.fresh.2.1] at mem
  gone q mem := by simp [opened.fresh.2.1] at mem
  kept q after le _ := absurd after (Nat.not_lt.mpr le)
  stops stopped := by simp [opened.running.2] at stopped
  joined joined := by
    rw [opened.writer] at joined
    cases joined
  writer := by
    unfold WriterOk
    rw [opened.writer]
    exact fun i named => absurd (opened.named _ i named).1 (Nat.not_le.mpr (Nat.lt_succ_self _))
  helper := restOk (.inl rfl) s opened.helper
  apart q identity i identity' j held := by simp [opened.helper] at held

theorem reachedInv (opened : Opened s) (reached : Reached spec s t) : Inv spec s.fileSequence t :=
  reached.keeps (fun _ _ _ inv _ taken => stepKeeps inv taken) (openedInv opened)

/- The helper leaves the writer's own words as they are. -/
theorem helperFrame {turn : Turn} (taken : helperStep spec turn s = some t) : t.writer = s.writer ∧ t.failed = s.failed ∧
    t.fileSequence = s.fileSequence ∧ t.fileInstance = s.fileInstance ∧ t.deferredPrune = s.deferredPrune ∧
    t.claimed = s.claimed ∧ t.doomed.length ≤ s.doomed.length := by
  unfold helperStep at taken
  split at taken
  case h_1 => cases taken
  all_goals (repeat' split at taken) <;> (obtain rfl := Option.some.inj taken; simp [HandOver.State.delete, HandOver.State.removeFile, HandOver.State.allocate, HandOver.State.setFile, HandOver.State.install])

section Samples

def sampleSpec : Spec where
  initialLen := 8192
  regionSize := 4096
  mtu := 0
  channelName := List.replicate 48 0
  generation := 0
  keepFiles := some 1
  ids n := BitVec.ofNat 128 (n % 2 ^ 64 + 1)
  kept := by simp
  idsNonzero n zero := by
    have same := congrArg BitVec.toNat zero
    simp at same
    omega

/-- A writer on segment `sequence`, the only one of its channel. -/
def sample (sequence : Nat) : HandOver.State where
  names q := if q = sequence then some 0 else none
  files _ := { prepareSegmentAt sampleSpec sequence (Identity.initial 1) with published := true }
  fresh := 1
  claimed := sequence
  readySequence := noSequence
  inFlight := noSequence
  ready := none
  doomed := []
  segment := (sequence, 1)
  handoff := none
  currentSequence := sequence
  stop := false
  stopped := false
  fileSequence := sequence
  fileInstance := 1
  ino := 0
  deferredPrune := []
  writer := .idle
  helper := .top
  condemned := []
  unlinked := []
  failed := []

theorem sampleOpened {sequence : Nat} (low : sequence < usize) : Opened (sample sequence) := by
  refine ⟨low, by simp [sample], ?_, ?_, if_pos rfl, rfl, rfl, rfl, rfl, rfl, rfl, rfl, rfl, rfl, rfl, ⟨rfl, rfl⟩, rfl, rfl, rfl, rfl, rfl⟩
  · intro q i named
    change (if q = sequence then some 0 else none) = some i at named
    split at named <;> cases named
    exact Nat.one_pos
  · intro q i named
    change (if q = sequence then some 0 else none) = some i at named
    split at named <;> cases named
    exact ⟨Nat.le_of_eq ‹_›, rfl⟩

/- A roll begins, and the writer takes `steps` steps while nobody else moves. -/
def rolling (steps : Nat) : List Move := .roll none :: List.replicate steps (.writer false true)
def helping (steps : Nat) : List Move := List.replicate steps (.helper .goOn)

theorem played {ok : HandOver.State → Move → Prop} [∀ s a, Decidable (ok s a)] {α : Type} {v : HandOver.State → α} {x : α} {schedule : List Move}
    (shown : (play (guarded (step spec) ok) s schedule).map v = some x) : ∃ t, Steps (step spec) ok s t ∧ v t = x := by
  obtain ⟨t, run, same⟩ := Option.map_eq_some_iff.mp shown
  exact ⟨t, playSteps run, same⟩

end Samples

section Rolls

/-- A file the writer is about to adopt is still there. -/
def Adoptable (s : HandOver.State) : Prop := s.writer = .adopting → (s.names s.next).isSome

/- Deletions are behind the writer; what the helper installs is ahead of it. -/
theorem helperNext {turn : Turn} (inv : Inv spec first s) (taken : helperStep spec turn s = some t)
    (present : (s.names s.next).isSome) : (t.names s.next).isSome := by
  have ok := inv.helper
  unfold HelperOk at ok
  unfold helperStep at taken
  split at taken
  case h_1 => cases taken
  case h_4 q l at' =>
    rw [at'] at ok
    obtain rfl := Option.some.inj taken
    have earlier := inv.condemned q (ok q List.mem_cons_self)
    show (if s.next = q then none else s.names s.next).isSome
    rw [if_neg (by unfold HandOver.State.next; omega)]
    exact present
  case h_12 q identity i at' =>
    split at taken <;> obtain rfl := Option.some.inj taken
    · exact present
    · show (if s.next = q then some i else s.names s.next).isSome
      split
      · rfl
      · exact present
  all_goals (repeat' split at taken) <;> (obtain rfl := Option.some.inj taken; exact present)

theorem adoptableKeeps (inv : Inv spec first s) (adoptable : Adoptable s) {a : Move} (taken : step spec s a = some t) :
    Adoptable t := by
  intro adopting
  cases a with
  | helper turn =>
    obtain ⟨same, -, sequence, -⟩ := helperFrame taken
    unfold HandOver.State.next
    rw [sequence]
    exact helperNext inv taken (adoptable (same ▸ adopting))
  | writer busy cloned =>
    simp only [step] at taken
    unfold writerStep at taken
    split at taken
    all_goals (repeat' split at taken) <;> (try cases taken) <;>
      simp_all [HandOver.State.fail, HandOver.State.delete, HandOver.State.removeFile, HandOver.State.next]
  | commit | roll full | moved busy | drop =>
    simp only [step] at taken
    (repeat' split at taken) <;> (try cases taken) <;> simp_all [HandOver.State.fail, HandOver.State.setFile]

/- Whatever is installed under the next name is taken. -/
theorem adoptOk (inv : Inv spec first s) (narrow : spec.mtu < 2 ^ 32) (low : s.next < usize) {i : Nat}
    (named : s.names s.next = some i) (unpublished : (s.files i).published = false) :
    adoptSuccessor spec s (s.files i) = .ok () := by
  obtain ⟨⟨base, published, prepared⟩, nonzero, parent, sequence⟩ := inv.successor i named
  generalize s.files i = f at *
  obtain rfl : published = false := by rw [← unpublished, prepared]
  have mtu : f.mtu = spec.mtu := by
    rw [prepared]
    exact Nat.mod_eq_of_lt narrow
  have made : ¬ f.identity.fileInstance = 0#128 := nonzero
  have both : s.fileInstance = 0#128 ↔ s.fileSequence = u64Max := by
    refine iff_of_false inv.nonzero fun last => ?_
    unfold HandOver.State.next at low
    rw [last] at low
    exact absurd low (by decide)
  have len : f.len = spec.initialLen := by rw [prepared]; rfl
  have region : f.regionSize = spec.regionSize := by rw [prepared]; rfl
  have here : f.sequence = s.next := by rw [prepared]; rfl
  have generation : f.generation = spec.generation := by rw [prepared]; rfl
  have name : f.channelName = spec.channelName := by rw [prepared]; rfl
  have count : f.messageCount = 0 := by rw [prepared]; rfl
  have position : f.writePosition = firstRecord + headerSlot := by rw [prepared]; rfl
  unfold adoptSuccessor
  simp [len, region, here, made, both, unpublished, parent, sequence, generation, mtu, name, count, position]
  rfl

/- No room, or a number that runs out: nothing else fails. -/
theorem failsOnly (inv : Inv spec first s) (adoptable : Adoptable s) (narrow : spec.mtu < 2 ^ 32) {a : Move}
    (taken : step spec s a = some t) (fails : t.failed ≠ s.failed) :
    (∃ full, a = .roll full ∧ (full.isSome ∨ usize ≤ s.next)) ∨ ∃ identity i, s.writer = .staging identity i ∧
      usize ≤ (s.files s.ino).baseRecordIndex + (s.files s.ino).messageCount := by
  cases a with
  | helper turn =>
    obtain ⟨-, same, -⟩ := helperFrame taken
    exact absurd same fails
  | roll full =>
    simp only [step] at taken
    (repeat' split at taken) <;> cases taken
    · exact .inl ⟨_, rfl, .inl rfl⟩
    · exact .inl ⟨_, rfl, .inr ‹_›⟩
    · exact absurd rfl fails
  | commit | drop =>
    simp only [step] at taken
    split at taken <;> cases taken
    exact absurd rfl fails
  | moved busy =>
    simp only [step] at taken
    split at taken <;> cases taken
    obtain ⟨_, _, same⟩ := handOffFrame busy s
    rw [same] at fails
    exact absurd rfl fails
  | writer busy cloned =>
    have ok := inv.writer
    unfold WriterOk at ok
    simp only [step] at taken
    cases at' : s.writer with
    | adopting =>
      rw [at'] at ok
      obtain ⟨i, named⟩ := Option.isSome_iff_exists.mp (adoptable at')
      simp only [writerStep, at', named, adoptOk inv narrow ok.2.1 named (ok.2.2 i named)] at taken
      cases taken
      exact absurd rfl fails
    | staging identity i =>
      rw [at'] at ok
      simp only [writerStep, at'] at taken
      split at taken <;> cases taken
      next error =>
        refine .inr ⟨identity, i, rfl, ?_⟩
        by_contra room
        have low : ¬ usize ≤ s.fileSequence + 1 := Nat.not_le.mpr ok.1.2.1
        simp [RollEdge.after, low, room, pure, Except.pure] at error
      next => exact absurd rfl fails
    | handing todo =>
      simp only [writerStep, at'] at taken
      split at taken <;> cases taken
      · rw [← at'] at fails
        obtain ⟨_, _, same⟩ := handOffFrame busy { s with handoff := some (s.fileSequence, s.fileInstance) }
        rw [same] at fails
        exact absurd rfl fails
      · exact absurd rfl fails
    | retaining todo =>
      cases todo <;> simp only [writerStep, at'] at taken <;> cases taken <;> exact absurd rfl fails
    | _ =>
      simp only [writerStep, at'] at taken
      (repeat' split at taken) <;> cases taken <;> exact absurd rfl fails

end Rolls

section Ends

/-- In `roll_file` or in what `moved` does, not at rest and not in the drop. -/
def Busy : WriterAt → Prop
  | .idle | .joining | .discarding | .draining | .undeferring | .dropped => False
  | _ => True

/-- How many steps the writer's call may still take. -/
def toGo (s : HandOver.State) : Nat :=
  let pruning := 8 * s.deferredPrune.length
  s.doomed.length + match s.writer with
    | .taking => pruning + 21
    | .locking => pruning + 20
    | .missing => pruning + 19
    | .making => pruning + 18
    | .putting _ _ => pruning + 17
    | .adopting => pruning + 16
    | .staging _ _ => pruning + 15
    | .publishing _ _ => pruning + 14
    | .switching _ _ => pruning + 13
    | .handing todo => 8 * todo.length + 4
    | .storing todo => 8 * todo.length + 3
    | .releasing todo => 8 * todo.length + 2
    | .retaining todo => 8 * todo.length + 1
    | .checking _ todo => 8 * todo.length + 6
    | .flying _ todo => 8 * todo.length + 5
    | .unlinking _ todo => 8 * todo.length + 4
    | .deleting _ todo => 8 * todo.length + 3
    | _ => 0

theorem retentionLength : (retention spec s).length ≤ s.deferredPrune.length + 1 := by
  unfold retention
  rw [List.length_append]
  refine Nat.add_le_add_left ?_ _
  split
  · split <;> simp
  · simp

theorem writerFalls {busy cloned : Bool} (rolling : Busy s.writer) (taken : writerStep spec busy cloned s = some t) :
    toGo t < toGo s := by
  cases at' : s.writer with
  | idle | joining | discarding | draining | undeferring | dropped =>
    rw [at'] at rolling
    cases rolling
  | switching identity i =>
    have := @retentionLength spec s
    simp only [writerStep, at'] at taken
    cases taken
    simp only [toGo, at']
    omega
  | handing todo =>
    simp only [writerStep, at'] at taken
    split at taken <;> cases taken
    · obtain ⟨_, _, same⟩ := handOffFrame busy { s with handoff := some (s.fileSequence, s.fileInstance), writer := .handing todo }
      rw [same]
      simp [toGo, at']
    · simp [toGo, at']
  | retaining todo =>
    cases todo <;> simp only [writerStep, at'] at taken <;> cases taken <;> simp only [toGo, at', List.length_cons] <;> omega
  | releasing todo =>
    simp only [writerStep, at'] at taken
    split at taken <;> cases taken
    next left => simp [toGo, at', HandOver.State.delete, HandOver.State.removeFile, left]
    next => simp [toGo, at']
  | unlinking q todo =>
    simp only [writerStep, at'] at taken
    split at taken <;> cases taken
    · simp only [toGo, at', List.length_append, List.length_singleton]
      omega
    · simp [toGo, at']
  | _ =>
    simp only [writerStep, at'] at taken
    (repeat' split at taken) <;> cases taken <;>
      simp [toGo, at', HandOver.State.fail, HandOver.State.delete, HandOver.State.removeFile, HandOver.State.allocate,
        HandOver.State.setFile, HandOver.State.install]

theorem helperRises {turn : Turn} (taken : helperStep spec turn s = some t) : toGo t ≤ toGo s := by
  obtain ⟨writer, _, _, _, deferred, _, doomed⟩ := helperFrame taken
  unfold toGo
  rw [writer, deferred]
  exact Nat.add_le_add_right doomed _

/- The writer waits for nothing in a roll. -/
theorem writerEnabled {busy cloned : Bool} (rolling : Busy s.writer) : (writerStep spec busy cloned s).isSome := by
  unfold writerStep
  split <;> (repeat' split) <;> first | rfl | simp_all [Busy]

/-- A step of the writer. -/
def OfWriter : Move → Prop
  | .writer _ _ => True
  | _ => False

theorem rollEnds {n : Nat} (takes : Takes (step spec) (fun s _ => Busy s.writer) (fun _ a => OfWriter a) n s t) :
    n ≤ toGo s := by
  have bounded := takes.bounded (m := toGo) ?_ ?_
  · exact (Nat.le_add_right _ _).trans bounded
  · intro s a t rolling writer taken
    cases a with
    | writer busy cloned => exact writerFalls rolling taken
    | _ => cases writer
  · intro s a t rolling other taken
    cases a with
    | helper turn => exact helperRises taken
    | writer busy cloned => exact absurd trivial other
    | commit | roll full | moved busy | drop =>
      simp only [step] at taken
      split at taken
      next idle =>
        rw [idle] at rolling
        cases rolling
      next => cases taken

end Ends

section Law

/- What a roll has published when it switches. -/
theorem publishedNext (inv : Inv spec first s) {identity : Identity} {i : Nat} (at' : s.writer = .switching identity i) :
    s.names s.next = some i ∧ (s.files i).published = true ∧ (s.files i).identity = identity ∧
      (s.files i).sequence = s.next ∧ identity.predecessor = s.fileInstance ∧ identity.predecessorSequence = s.fileSequence := by
  have ok := inv.writer
  unfold WriterOk at ok
  rw [at'] at ok
  obtain ⟨-, -, named, same, published⟩ := ok
  obtain ⟨⟨_, _, prepared⟩, -, parent, sequence⟩ := inv.successor i named
  refine ⟨named, published, same, ?_, same ▸ parent, same ▸ sequence⟩
  rw [prepared]
  rfl

/- Over every interleaving from an opened writer. -/
theorem handOverLaw (narrow : spec.mtu < 2 ^ 32) (opened : Opened s) (reached : Reached spec s t) :
    (∀ a u, step spec t a = some u → u.failed ≠ t.failed →
      (∃ full, a = .roll full ∧ (full.isSome ∨ usize ≤ t.next)) ∨ ∃ identity i, t.writer = .staging identity i ∧
        usize ≤ (t.files t.ino).baseRecordIndex + (t.files t.ino).messageCount) ∧
    (Busy t.writer → (∀ busy cloned, (step spec t (.writer busy cloned)).isSome) ∧ ∃ most, ∀ n u,
      Takes (step spec) (fun s _ => Busy s.writer) (fun _ a => OfWriter a) n t u → n ≤ most) ∧
    (∀ identity i, t.writer = .switching identity i →
      t.names t.next = some i ∧ (t.files i).published = true ∧ (t.files i).identity = identity ∧
        (t.files i).sequence = t.next ∧ identity.predecessor = t.fileInstance ∧ identity.predecessorSequence = t.fileSequence) ∧
    (∀ q i, q ≤ t.fileSequence → t.names q = some i → (t.files i).published = true) ∧
    ∀ q ∈ t.unlinked, t.names q = none := by
  have inv := reachedInv opened reached
  have adoptable : Adoptable t := by
    have both := reached.keeps (I := fun s' => Inv spec s.fileSequence s' ∧ Adoptable s')
      (fun _ _ _ now _ taken => ⟨stepKeeps now.1 taken, adoptableKeeps now.1 now.2 taken⟩)
      ⟨openedInv opened, fun adopting => by simp [opened.writer] at adopting⟩
    exact both.2
  refine ⟨fun a u taken fails => failsOnly inv adoptable narrow taken fails, fun busy => ⟨fun _ _ => writerEnabled busy, toGo t, ?_⟩, ?_, ?_, inv.absent⟩
  · exact fun n u takes => rollEnds takes
  · exact fun identity i at' => publishedNext inv at'
  · exact fun q i le named => inv.published q i named le

/- The helper installs segment 1, the roll takes it, and the helper deletes segment 0. -/
theorem handOverSmall : ∃ t, Reached sampleSpec (sample 0) t ∧ (t.fileSequence = 1 ∧ t.unlinked = [0]) ∧
    (∀ q i, q ≤ t.fileSequence → t.names q = some i → (t.files i).published = true) ∧ ∀ q ∈ t.unlinked, t.names q = none := by
  obtain ⟨t, reached, there⟩ := @played sampleSpec (sample 0) (fun _ _ => True) _ _ (fun t => (t.fileSequence, t.unlinked)) (1, [0])
    (helping 13 ++ rolling 14 ++ [.helper .goOn, .helper .skip, .helper .goOn, .helper .goOn]) (by decide +kernel)
  obtain ⟨-, -, -, law⟩ := handOverLaw (by decide) (sampleOpened (by decide)) reached
  exact ⟨t, reached, Prod.mk.inj there, law⟩

/- A roll past the last sequence fails. -/
theorem sequenceExhausted : Opened (sample u64Max) ∧ ∃ t, Reached sampleSpec (sample u64Max) t ∧
    t.failed = [.text .invalidInput "file sequence exhausted"] :=
  ⟨sampleOpened (by decide), @played _ _ (fun _ _ => True) _ _ (fun t => t.failed) _ (rolling 0) (by decide +kernel)⟩

end Law
end Xchannel.Successions
