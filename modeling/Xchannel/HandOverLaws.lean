import Xchannel.HandOver

/-! What holds of a writer and its helper in every interleaving: whose file is under which name, what the helper
may still install, and what retention has decided. -/
namespace Xchannel.HandOverLaws
open Format Interleaving HandOver

variable {spec : Spec} {first : Nat} {s s' : HandOver.State}

/-- As `prepare_segment_at` makes it, but for the base and the publication. -/
def Prepared (spec : Spec) (sequence : Nat) (f : SegmentFile) : Prop :=
  ∃ base published, f = { prepareSegmentAt spec sequence f.identity with baseRecordIndex := base, published := published }

/-- A file that names segment `current`, of the instance `parent`, as its predecessor. -/
structure Successor (spec : Spec) (current : Nat) (parent : InstanceId) (f : SegmentFile) : Prop where
  prepared : Prepared spec (current + 1) f
  nonzero : f.identity.fileInstance ≠ 0
  predecessor : f.identity.predecessor = parent
  sequence : f.identity.predecessorSequence = current

/-- What a side has just made, to be segment `sequence`. -/
structure Made (spec : Spec) (sequence : Nat) (made : Identity) (f : SegmentFile) : Prop where
  prepared : Prepared spec sequence f
  unpublished : f.published = false
  same : f.identity = made
  nonzero : made.fileInstance ≠ 0
  sequence : made.predecessorSequence = sequence - 1

/-- The current segment or an earlier one, with its instance if it is the current one. -/
def Behind (s : HandOver.State) (p : Nat × InstanceId) : Prop :=
  p.1 ≤ s.fileSequence ∧ (p.1 = s.fileSequence → p.2 = s.fileInstance)

def Unnamed (s : HandOver.State) (ino : Nat) : Prop := ino < s.fresh ∧ ∀ q, s.names q ≠ some ino

/-- An installed file: still the successor's, or published since. -/
def Offered (s : HandOver.State) (sequence : Nat) (identity : Identity) (ino : Nat) : Prop :=
  sequence ≤ s.next ∧ (sequence = s.next → s.names s.next = some ino ∧ (s.files ino).identity = identity) ∧
    (sequence ≤ s.fileSequence → (s.files ino).published = true) ∧ ino < s.fresh

/-- Between its announcement and the end of its install. -/
def Armed (first : Nat) (s : HandOver.State) (sequence : Nat) : Prop :=
  s.inFlight = sequence ∧ first < sequence ∧ sequence ∉ s.condemned

def Fathered (s : HandOver.State) (sequence : Nat) (parent : InstanceId) : Prop :=
  sequence ≤ s.next ∧ (sequence = s.next → parent = s.fileInstance)

def Unpublished (s : HandOver.State) : Prop := ∀ i, s.names s.next = some i → (s.files i).published = false

/-- The writer has claimed the next segment. -/
def Rolling (s : HandOver.State) : Prop := s.claimed = s.next ∧ s.next < usize ∧ Unpublished s

def Within (s : HandOver.State) (todo : List Nat) : Prop := ∀ q ∈ todo, q < s.fileSequence

def WriterOk (spec : Spec) (s : HandOver.State) : Prop :=
  match s.writer with
  | .idle | .joining | .discarding | .draining | .undeferring | .dropped => Unpublished s
  | .taking | .locking | .missing | .making | .adopting => Rolling s
  | .putting identity ino => Rolling s ∧ Unnamed s ino ∧ Made spec s.next identity (s.files ino) ∧
      identity.predecessor = s.fileInstance
  | .staging identity ino | .publishing identity ino =>
      Rolling s ∧ s.names s.next = some ino ∧ (s.files ino).identity = identity
  | .switching identity ino => s.claimed = s.next ∧ s.next < usize ∧ s.names s.next = some ino ∧
      (s.files ino).identity = identity ∧ (s.files ino).published = true
  | .handing todo | .storing todo | .releasing todo | .retaining todo => Unpublished s ∧ Within s todo
  | .checking sequence todo | .flying sequence todo => Unpublished s ∧ sequence < s.fileSequence ∧ Within s todo
  | .unlinking sequence todo | .deleting sequence todo => Unpublished s ∧ sequence ∈ s.condemned ∧ Within s todo

/-- The thread has been joined. -/
def Joined : WriterAt → Prop
  | .discarding | .draining | .undeferring | .dropped => True
  | _ => False

def HelperOk (spec : Spec) (first : Nat) (s : HandOver.State) : Prop :=
  match s.helper with
  | .deleting taken => ∀ q ∈ taken, q ∈ s.condemned
  | .announcing sequence parent => Fathered s sequence parent
  | .judging sequence parent => Fathered s sequence parent ∧ s.inFlight = sequence
  | .making sequence parent => Fathered s sequence parent ∧ Armed first s sequence
  | .putting sequence identity ino => Fathered s sequence identity.predecessor ∧ Armed first s sequence ∧
      Unnamed s ino ∧ Made spec sequence identity (s.files ino)
  | .landing sequence (some (identity, ino)) => Offered s sequence identity ino
  | .offering sequence identity ino => Offered s sequence identity ino
  | _ => True

structure Inv (spec : Spec) (first : Nat) (s : HandOver.State) : Prop where
  low : s.fileSequence < usize
  began : first ≤ s.fileSequence
  nonzero : s.fileInstance ≠ 0
  claims : s.claimed = s.fileSequence ∨ s.claimed = s.next
  segment : Behind s s.segment
  handoff : ∀ p, s.handoff = some p → Behind s p
  current : s.currentSequence ≤ s.fileSequence
  made : ∀ q i, s.names q = some i → i < s.fresh
  named : ∀ q i, s.names q = some i → q ≤ s.next
  published : ∀ q i, s.names q = some i → q ≤ s.fileSequence → (s.files i).published = true
  successor : ∀ i, s.names s.next = some i → Successor spec s.fileSequence s.fileInstance (s.files i)
  own : s.names s.fileSequence = some s.ino
  ownInstance : (s.files s.ino).identity.fileInstance = s.fileInstance
  ready : ∀ n, s.ready = some n → Offered s n.sequence n.identity n.ino
  condemned : ∀ q ∈ s.condemned, q < s.fileSequence
  deferred : ∀ q ∈ s.deferredPrune, q < s.fileSequence
  doomed : ∀ q ∈ s.doomed, q ∈ s.condemned
  absent : ∀ q ∈ s.unlinked, s.names q = none
  gone : ∀ q ∈ s.unlinked, q ∈ s.condemned
  kept : ∀ q, first < q → q ≤ s.fileSequence → q ∉ s.condemned → (s.names q).isSome
  stops : s.stopped = true → s.helper = .gone
  joined : Joined s.writer → s.helper = .gone
  writer : WriterOk spec s
  helper : HelperOk spec first s
  apart : ∀ q identity i identity' j, s.helper = .putting q identity i → s.writer = .putting identity' j → j ≠ i

/-- A step that leaves the current segment, its successor's name and the files under private names as they are. -/
structure Steady (s s' : HandOver.State) : Prop where
  sequence : s'.fileSequence = s.fileSequence
  parent : s'.fileInstance = s.fileInstance
  next : s'.names s.next = s.names s.next
  made : s.fresh ≤ s'.fresh
  unnamed : ∀ i, Unnamed s i → Unnamed s' i ∧ s'.files i = s.files i
  files : ∀ i, i < s.fresh → (s'.files i).identity = (s.files i).identity ∧
    ((s.files i).published = true → (s'.files i).published = true)

section Frames

theorem Steady.nextSame (steady : Steady s s') : s'.next = s.next := by
  unfold HandOver.State.next
  rw [steady.sequence]

theorem Steady.offered (steady : Steady s s') {q : Nat} {identity : Identity} {i : Nat} (offered : Offered s q identity i) :
    Offered s' q identity i := by
  obtain ⟨near, next, past, made⟩ := offered
  unfold Offered
  rw [steady.nextSame, steady.sequence, steady.next]
  obtain ⟨same, kept⟩ := steady.files i made
  exact ⟨near, fun now => ⟨(next now).1, same.trans (next now).2⟩, fun le => kept (past le), made.trans_le steady.made⟩

theorem Steady.fathered (steady : Steady s s') {q : Nat} {parent : InstanceId} (fathered : Fathered s q parent) :
    Fathered s' q parent := by
  unfold Fathered
  rw [steady.nextSame, steady.parent]
  exact fathered

/- What it leaves the helper with, if it does not decide on what the helper is installing. -/
theorem Steady.helperOk (steady : Steady s s') (ok : HelperOk spec first s) (same : s'.helper = s.helper)
    (flight : s'.inFlight = s.inFlight) (more : ∀ q ∈ s.condemned, q ∈ s'.condemned)
    (spared : ∀ q, s.helper ≠ .gone → Armed first s q → q ∉ s'.condemned) : HelperOk spec first s' := by
  have armed {q : Nat} (running : s.helper ≠ .gone) (armed : Armed first s q) : Armed first s' q :=
    ⟨flight.trans armed.1, armed.2.1, spared q running armed⟩
  unfold HelperOk at ok ⊢
  rw [same]
  cases at' : s.helper with
  | deleting taken =>
    rw [at'] at ok
    exact fun q mem => more q (ok q mem)
  | announcing q parent =>
    rw [at'] at ok
    exact steady.fathered ok
  | judging q parent =>
    rw [at'] at ok
    exact ⟨steady.fathered ok.1, flight.trans ok.2⟩
  | making q parent =>
    rw [at'] at ok
    exact ⟨steady.fathered ok.1, armed (by simp [at']) ok.2⟩
  | putting q identity i =>
    rw [at'] at ok
    obtain ⟨fathered, arms, unnamed, made⟩ := ok
    obtain ⟨unnamed, file⟩ := steady.unnamed i unnamed
    exact ⟨steady.fathered fathered, armed (by simp [at']) arms, unnamed, file ▸ made⟩
  | landing q installed =>
    rw [at'] at ok
    cases installed with
    | none => trivial
    | some x => exact steady.offered ok
  | offering q identity i =>
    rw [at'] at ok
    exact steady.offered ok
  | top | reading | passing | clearing | fathering | failing | gone => trivial

theorem Steady.unpublished (steady : Steady s s') (inv : Inv spec first s)
    (files : ∀ i, i < s.fresh → (s'.files i).published = (s.files i).published) (before : Unpublished s) : Unpublished s' := by
  intro i named
  rw [steady.nextSame, steady.next] at named
  rw [files i (inv.made _ i named)]
  exact before i named

/- What it leaves the writer with. -/
theorem Steady.writerOk (steady : Steady s s') (inv : Inv spec first s) (same : s'.writer = s.writer)
    (claimed : s'.claimed = s.claimed) (more : ∀ q ∈ s.condemned, q ∈ s'.condemned)
    (files : ∀ i, i < s.fresh → (s'.files i).published = (s.files i).published) : WriterOk spec s' := by
  have ok := inv.writer
  have unpublished := steady.unpublished inv files
  have rolling (rolling : Rolling s) : Rolling s' := by
    unfold Rolling
    rw [steady.nextSame, claimed]
    exact ⟨rolling.1, rolling.2.1, unpublished rolling.2.2⟩
  have within {todo : List Nat} (within : Within s todo) : Within s' todo := by
    unfold Within
    rw [steady.sequence]
    exact within
  unfold WriterOk at ok ⊢
  rw [same]
  cases at' : s.writer with
  | idle | joining | discarding | draining | undeferring | dropped =>
    rw [at'] at ok
    exact unpublished ok
  | taking | locking | missing | making | adopting =>
    rw [at'] at ok
    exact rolling ok
  | putting identity i =>
    rw [at'] at ok
    obtain ⟨rolls, unnamed, made, parent⟩ := ok
    obtain ⟨unnamed, file⟩ := steady.unnamed i unnamed
    rw [← steady.nextSame, ← file] at made
    exact ⟨rolling rolls, unnamed, made, parent.trans steady.parent.symm⟩
  | staging identity i | publishing identity i =>
    rw [at'] at ok
    obtain ⟨rolls, named, identity⟩ := ok
    refine ⟨rolling rolls, ?_, ((steady.files i (inv.made _ i named)).1).trans identity⟩
    rw [steady.nextSame, steady.next, named]
  | switching identity i =>
    rw [at'] at ok
    obtain ⟨claims, low, named, identity, published⟩ := ok
    obtain ⟨same, kept⟩ := steady.files i (inv.made _ i named)
    refine ⟨?_, ?_, ?_, same.trans identity, kept published⟩
    · rw [claimed, claims, steady.nextSame]
    · rw [steady.nextSame]
      exact low
    · rw [steady.nextSame, steady.next, named]
  | handing todo | storing todo | releasing todo | retaining todo =>
    rw [at'] at ok
    exact ⟨unpublished ok.1, within ok.2⟩
  | checking q todo | flying q todo =>
    rw [at'] at ok
    refine ⟨unpublished ok.1, ?_, within ok.2.2⟩
    rw [steady.sequence]
    exact ok.2.1
  | unlinking q todo | deleting q todo =>
    rw [at'] at ok
    exact ⟨unpublished ok.1, more q ok.2.1, within ok.2.2⟩

end Frames

section Changes

/- Either side goes on; the helper may announce. -/
theorem helperMoves (inv : Inv spec first s) (x : HelperAt) (flight : Nat) (running : s.helper ≠ .gone)
    (ok : HelperOk spec first { s with inFlight := flight, helper := x })
    (apart : ∀ q identity i identity' j, x = .putting q identity i → s.writer = .putting identity' j → j ≠ i) :
    Inv spec first { s with inFlight := flight, helper := x } :=
  { inv with
    helper := ok
    stops := fun stopped => absurd (inv.stops stopped) running
    joined := fun joined => absurd (inv.joined joined) running
    apart := apart }

theorem writerMoves (inv : Inv spec first s) (x : WriterAt) (ok : WriterOk spec { s with writer := x })
    (joined : Joined x → s.helper = .gone)
    (apart : ∀ q identity i identity' j, s.helper = .putting q identity i → x = .putting identity' j → j ≠ i) :
    Inv spec first { s with writer := x } :=
  { inv with
    writer := ok
    joined := joined
    apart := apart }

theorem allocateSteady (f : SegmentFile) : Steady s (s.allocate f) := by
  have old (i : Nat) (low : i < s.fresh) : (s.allocate f).files i = s.files i := if_neg (Nat.ne_of_lt low)
  refine ⟨rfl, rfl, rfl, Nat.le_succ _, fun i unnamed => ⟨⟨unnamed.1.trans (Nat.lt_succ_self _), unnamed.2⟩, old i unnamed.1⟩, ?_⟩
  intro i low
  rw [old i low]
  exact ⟨rfl, id⟩

theorem allocateKeeps (inv : Inv spec first s) (f : SegmentFile) : Inv spec first (s.allocate f) := by
  have steady : Steady s (s.allocate f) := allocateSteady f
  have old (i : Nat) (low : i < s.fresh) : (s.allocate f).files i = s.files i := if_neg (Nat.ne_of_lt low)
  refine { inv with made := ?_, published := ?_, successor := ?_, ownInstance := ?_, ready := ?_, writer := ?_, helper := ?_ }
  · exact fun q i named => (inv.made q i named).trans (Nat.lt_succ_self _)
  · intro q i named le
    rw [old i (inv.made q i named)]
    exact inv.published q i named le
  · intro i named
    show Successor spec s.fileSequence s.fileInstance _
    rw [old i (inv.made _ i named)]
    exact inv.successor i named
  · show ((s.allocate f).files s.ino).identity.fileInstance = s.fileInstance
    rw [old s.ino (inv.made _ _ inv.own)]
    exact inv.ownInstance
  · exact fun n ready => steady.offered (inv.ready n ready)
  · exact steady.writerOk inv rfl rfl (fun _ mem => mem) fun i low => by rw [old i low]
  · exact steady.helperOk inv.helper rfl rfl (fun _ mem => mem) fun r _ armed => armed.2.2

/- The successor gets its final name. -/
theorem installKeeps (inv : Inv spec first s) {ino : Nat} (free : s.names s.next = none) (unnamed : Unnamed s ino)
    (successor : Successor spec s.fileSequence s.fileInstance (s.files ino)) (unpublished : (s.files ino).published = false)
    (writer : ∀ identity, s.writer ≠ .putting identity ino) (helper : ∀ q identity, s.helper ≠ .putting q identity ino) :
    Inv spec first (s.install s.next ino) := by
  have shown : (s.install s.next ino).names s.next = some ino := if_pos rfl
  have other (q : Nat) (differ : q ≠ s.next) : (s.install s.next ino).names q = s.names q := if_neg differ
  have cases' (q i : Nat) (named : (s.install s.next ino).names q = some i) : q = s.next ∧ i = ino ∨ q ≠ s.next ∧ s.names q = some i := by
    by_cases same : q = s.next
    · rw [same, shown] at named
      exact .inl ⟨same, (Option.some.inj named).symm⟩
    · rw [other q same] at named
      exact .inr ⟨same, named⟩
  have offered {q i : Nat} {identity : Identity} (offered : Offered s q identity i) : Offered (s.install s.next ino) q identity i := by
    obtain ⟨near, now, past⟩ := offered
    refine ⟨near, fun same => ?_, past⟩
    have named := (now same).1
    rw [free] at named
    cases named
  have stays {i : Nat} (hidden : Unnamed s i) (differ : i ≠ ino) : Unnamed (s.install s.next ino) i := by
    refine ⟨hidden.1, fun q named => ?_⟩
    rcases cases' q i named with ⟨_, same⟩ | ⟨_, named⟩
    · exact differ same
    · exact hidden.2 q named
  have waiting : Unpublished (s.install s.next ino) := by
    intro i named
    obtain rfl := Option.some.inj (shown.symm.trans named)
    exact unpublished
  refine { inv with made := ?_, named := ?_, published := ?_, successor := ?_, own := ?_, ready := ?_, absent := ?_, kept := ?_, writer := ?_, helper := ?_ }
  · intro q i named
    rcases cases' q i named with ⟨_, rfl⟩ | ⟨_, named⟩
    · exact unnamed.1
    · exact inv.made q i named
  · intro q i named
    rcases cases' q i named with ⟨rfl, _⟩ | ⟨_, named⟩
    · exact Nat.le_refl _
    · exact inv.named q i named
  · intro q i named le
    rcases cases' q i named with ⟨rfl, _⟩ | ⟨_, named⟩
    · exact absurd le (Nat.not_le.mpr (Nat.lt_succ_self _))
    · exact inv.published q i named le
  · intro i named
    obtain rfl := Option.some.inj (shown.symm.trans named)
    exact successor
  · exact (other _ (Nat.ne_of_lt (Nat.lt_succ_self _))).trans inv.own
  · exact fun n ready => offered (inv.ready n ready)
  · intro q mem
    rw [other q]
    · exact inv.absent q mem
    · have := inv.condemned q (inv.gone q mem)
      unfold HandOver.State.next
      omega
  · intro q after le spared
    rw [other q]
    · exact inv.kept q after le spared
    · unfold HandOver.State.next
      change q ≤ s.fileSequence at le
      omega
  · have ok := inv.writer
    unfold WriterOk at ok ⊢
    rw [show (s.install s.next ino).writer = s.writer from rfl]
    cases at' : s.writer with
    | idle | joining | discarding | draining | undeferring | dropped => exact waiting
    | taking | locking | missing | making | adopting =>
      rw [at'] at ok
      exact ⟨ok.1, ok.2.1, waiting⟩
    | putting identity i =>
      rw [at'] at ok
      have differ : i ≠ ino := by
        rintro rfl
        exact writer identity at'
      exact ⟨⟨ok.1.1, ok.1.2.1, waiting⟩, stays ok.2.1 differ, ok.2.2⟩
    | staging identity i | publishing identity i =>
      rw [at'] at ok
      exact absurd (free.symm.trans ok.2.1) (by simp)
    | switching identity i =>
      rw [at'] at ok
      exact absurd (free.symm.trans ok.2.2.1) (by simp)
    | handing todo | storing todo | releasing todo | retaining todo =>
      rw [at'] at ok
      exact ⟨waiting, ok.2⟩
    | checking q todo | flying q todo | unlinking q todo | deleting q todo =>
      rw [at'] at ok
      exact ⟨waiting, ok.2⟩
  · have ok := inv.helper
    unfold HelperOk at ok ⊢
    rw [show (s.install s.next ino).helper = s.helper from rfl]
    cases at' : s.helper with
    | putting q identity i =>
      rw [at'] at ok
      have differ : i ≠ ino := by
        rintro rfl
        exact helper q identity at'
      exact ⟨ok.1, ok.2.1, stays ok.2.2.1 differ, ok.2.2.2⟩
    | landing q installed =>
      rw [at'] at ok
      cases installed with
      | none => trivial
      | some x => exact offered ok
    | offering q identity i =>
      rw [at'] at ok
      exact offered ok
    | deleting | announcing | judging | making =>
      rw [at'] at ok
      exact ok
    | top | reading | passing | clearing | fathering | failing | gone => trivial

/- A file that has a name is changed; a published one stays published. -/
theorem setFileSteady {ino q : Nat} (named : s.names q = some ino) {f : SegmentFile} (identity : f.identity = (s.files ino).identity)
    (kept : (s.files ino).published = true → f.published = true) : Steady s (s.setFile ino f) := by
  refine ⟨rfl, rfl, rfl, Nat.le_refl _, fun i unnamed => ⟨unnamed, if_neg ?_⟩, fun i _ => ?_⟩
  · rintro rfl
    exact unnamed.2 q named
  · show (if i = ino then f else s.files i).identity = _ ∧ (_ → (if i = ino then f else s.files i).published = true)
    by_cases same : i = ino
    · rw [if_pos same, same]
      exact ⟨identity, kept⟩
    · rw [if_neg same]
      exact ⟨rfl, id⟩

theorem setFileKeeps (inv : Inv spec first s) {ino q : Nat} (named : s.names q = some ino) {f : SegmentFile}
    (identity : f.identity = (s.files ino).identity) (kept : (s.files ino).published = true → f.published = true)
    (prepared : s.names s.next = some ino → Prepared spec s.next f) (x : WriterAt)
    (ok : WriterOk spec { s.setFile ino f with writer := x }) (joined : ¬ Joined x) (put : ∀ identity i, x ≠ .putting identity i) :
    Inv spec first { s.setFile ino f with writer := x } := by
  have steady : Steady s (s.setFile ino f) := setFileSteady named identity kept
  refine { inv with published := ?_, successor := ?_, ownInstance := ?_, ready := ?_, writer := ok, helper := ?_, joined := ?_, apart := ?_ }
  · exact fun r i found le => (steady.files i (inv.made r i found)).2 (inv.published r i found le)
  · intro i found
    have before := inv.successor i found
    have same := (steady.files i (inv.made _ i found)).1
    refine ⟨?_, ?_, ?_, ?_⟩
    · show Prepared spec s.next (if i = ino then f else s.files i)
      by_cases this : i = ino
      · rw [if_pos this]
        exact prepared (this ▸ found)
      · rw [if_neg this]
        exact before.prepared
    · exact fun zero => before.nonzero (same ▸ zero)
    · exact (congrArg Identity.predecessor same).trans before.predecessor
    · exact (congrArg Identity.predecessorSequence same).trans before.sequence
  · exact (congrArg Identity.fileInstance (steady.files s.ino (inv.made _ _ inv.own)).1).trans inv.ownInstance
  · exact fun n ready => steady.offered (inv.ready n ready)
  · exact fun done => absurd done joined
  · exact steady.helperOk inv.helper rfl rfl (fun _ mem => mem) fun r _ armed => armed.2.2
  · exact fun _ _ _ identity j _ held => absurd held (put identity j)

/- Retention decides on a segment that the helper is not installing. -/
theorem condemnKeeps (inv : Inv spec first s) {q : Nat} (earlier : q < s.fileSequence)
    (free : s.helper = .gone ∨ s.inFlight ≠ q) :
    Inv spec first { s with condemned := s.condemned ++ [q] } := by
  have steady : Steady s { s with condemned := s.condemned ++ [q] } :=
    ⟨rfl, rfl, rfl, Nat.le_refl _, fun i unnamed => ⟨unnamed, rfl⟩, fun i _ => ⟨rfl, id⟩⟩
  have more : ∀ r ∈ s.condemned, r ∈ s.condemned ++ [q] := fun r mem => List.mem_append_left _ mem
  refine { inv with condemned := ?_, doomed := ?_, gone := ?_, kept := ?_, writer := ?_, helper := ?_ }
  · intro r mem
    rcases List.mem_append.mp mem with before | last
    · exact inv.condemned r before
    · rw [List.mem_singleton.mp last]
      exact earlier
  · exact fun r mem => more r (inv.doomed r mem)
  · exact fun r mem => more r (inv.gone r mem)
  · exact fun r after le spared => inv.kept r after le fun mem => spared (more r mem)
  · exact steady.writerOk inv rfl rfl more fun _ _ => rfl
  · refine steady.helperOk inv.helper rfl rfl more fun r running armed mem => ?_
    rcases List.mem_append.mp mem with before | last
    · exact armed.2.2 before
    · rw [List.mem_singleton.mp last] at armed
      rcases free with done | other
      · exact running done
      · exact other armed.1

theorem retentionMem {q : Nat} (mem : q ∈ retention spec s) :
    q ∈ s.deferredPrune ∨ ∃ n, spec.keepFiles = some n ∧ n ≤ s.next ∧ q = s.next - n := by
  unfold retention at mem
  rcases List.mem_append.mp mem with before | now
  · exact .inl before
  · cases kept : spec.keepFiles with
    | none =>
      rw [kept] at now
      cases now
    | some n =>
      simp only [kept] at now
      by_cases le : n ≤ s.next
      · rw [if_pos le] at now
        exact .inr ⟨n, rfl, le, List.mem_singleton.mp now⟩
      · rw [if_neg le] at now
        cases now

/- The writer goes on in the successor it has published. -/
theorem switchKeeps (inv : Inv spec first s) {identity : Identity} {ino : Nat} (at' : s.writer = .switching identity ino) :
    Inv spec first { s with
      fileSequence := s.next
      fileInstance := identity.fileInstance
      ino := ino
      deferredPrune := []
      writer := .handing (retention spec s) } := by
  have ok := inv.writer
  unfold WriterOk at ok
  rw [at'] at ok
  obtain ⟨claimed, low, named, same, published⟩ := ok
  have successor := inv.successor ino named
  have further : s.fileSequence < s.next := Nat.lt_succ_self _
  have offered {q i : Nat} {other : Identity} (offered : Offered s q other i) : q ≤ s.next + 1 ∧
      (q = s.next + 1 → s.names (s.next + 1) = some i ∧ (s.files i).identity = other) ∧
        (q ≤ s.next → (s.files i).published = true) ∧ i < s.fresh := by
    obtain ⟨near, now, past, made⟩ := offered
    refine ⟨by omega, fun same => by omega, fun le => ?_, made⟩
    by_cases here : q = s.next
    · obtain rfl := Option.some.inj (named.symm.trans (now here).1)
      exact published
    · refine past ?_
      unfold HandOver.State.next at le here
      omega
  refine { inv with low := low, began := ?_, nonzero := ?_, claims := .inl claimed, segment := ?_, handoff := ?_, current := ?_, named := ?_, published := ?_, successor := ?_, own := named, ownInstance := ?_, ready := ?_, condemned := ?_, deferred := ?_, kept := ?_, joined := ?_, writer := ?_, helper := ?_, apart := ?_ }
  · exact inv.began.trans further.le
  · exact same ▸ successor.nonzero
  · refine ⟨inv.segment.1.trans further.le, fun here => ?_⟩
    have := inv.segment.1
    change s.segment.1 = s.next at here
    omega
  · intro p pending
    have behind := inv.handoff p pending
    refine ⟨behind.1.trans further.le, fun here => ?_⟩
    have := behind.1
    change p.1 = s.next at here
    omega
  · exact inv.current.trans further.le
  · exact fun q i found => (inv.named q i found).trans (Nat.le_succ _)
  · intro q i found le
    change q ≤ s.next at le
    by_cases here : q = s.next
    · rw [here, named] at found
      obtain rfl := Option.some.inj found
      exact published
    · refine inv.published q i found ?_
      unfold HandOver.State.next at le here
      omega
  · intro i found
    have := inv.named _ i found
    change s.next + 1 ≤ s.next at this
    omega
  · exact congrArg Identity.fileInstance same
  · exact fun n ready => offered (inv.ready n ready)
  · exact fun q mem => (inv.condemned q mem).trans further
  · rintro q ⟨⟩
  · intro q after le spared
    change q ≤ s.next at le
    by_cases here : q = s.next
    · show (s.names q).isSome
      rw [here, named]
      rfl
    · refine inv.kept q after ?_ spared
      unfold HandOver.State.next at le here
      omega
  · rintro ⟨⟩
  · refine ⟨fun i found => ?_, fun q mem => ?_⟩
    · have := inv.named _ i found
      change s.next + 1 ≤ s.next at this
      omega
    · rcases retentionMem mem with before | ⟨n, kept, le, rfl⟩
      · exact (inv.deferred q before).trans further
      · have := spec.kept n kept
        show s.next - n < s.next
        omega
  · have ok := inv.helper
    have fathered {q : Nat} {parent : InstanceId} (fathered : Fathered s q parent) :
        q ≤ s.next + 1 ∧ (q = s.next + 1 → parent = identity.fileInstance) := by
      have := fathered.1
      exact ⟨by omega, fun here => by omega⟩
    unfold HelperOk at ok ⊢
    dsimp only
    cases busy : s.helper with
    | deleting taken =>
      rw [busy] at ok
      exact ok
    | announcing q parent =>
      rw [busy] at ok
      exact fathered ok
    | judging q parent | making q parent =>
      rw [busy] at ok
      exact ⟨fathered ok.1, ok.2⟩
    | putting q other i =>
      rw [busy] at ok
      exact ⟨fathered ok.1, ok.2⟩
    | landing q installed =>
      rw [busy] at ok
      cases installed with
      | none => trivial
      | some x => exact offered ok
    | offering q other i =>
      rw [busy] at ok
      exact offered ok
    | top | reading | passing | clearing | fathering | failing | gone => trivial
  · intro q other i other' j _ held
    cases held

end Changes

section Deleting

/- A segment that retention decided on goes. -/
theorem deleteSteady (inv : Inv spec first s) {q : Nat} (decided : q ∈ s.condemned) : Steady s (s.delete q) := by
  have earlier := inv.condemned q decided
  refine ⟨rfl, rfl, if_neg ?_, Nat.le_refl _, fun i unnamed => ⟨⟨unnamed.1, fun r named => ?_⟩, rfl⟩, fun i _ => ⟨rfl, id⟩⟩
  · unfold HandOver.State.next
    omega
  · change (if r = q then none else s.names r) = some i at named
    split at named
    · cases named
    · exact unnamed.2 r named

theorem deleteKeeps (inv : Inv spec first s) {q : Nat} (decided : q ∈ s.condemned) : Inv spec first (s.delete q) := by
  have steady := deleteSteady inv decided
  have fewer (r i : Nat) (named : (s.delete q).names r = some i) : s.names r = some i := by
    change (if r = q then none else s.names r) = some i at named
    split at named
    · cases named
    · exact named
  refine { inv with made := ?_, named := ?_, published := ?_, successor := ?_, own := ?_, ready := ?_, absent := ?_, gone := ?_, kept := ?_, writer := ?_, helper := ?_ }
  · exact fun r i named => inv.made r i (fewer r i named)
  · exact fun r i named => inv.named r i (fewer r i named)
  · exact fun r i named le => inv.published r i (fewer r i named) le
  · exact fun i named => inv.successor i (fewer _ i named)
  · have earlier := inv.condemned q decided
    exact (if_neg (Nat.ne_of_gt earlier)).trans inv.own
  · exact fun n ready => steady.offered (inv.ready n ready)
  · intro r mem
    show (if r = q then none else s.names r) = none
    split
    · rfl
    · rcases List.mem_append.mp mem with before | last
      · exact inv.absent r before
      · exact absurd (List.mem_singleton.mp last) ‹_›
  · intro r mem
    rcases List.mem_append.mp mem with before | last
    · exact inv.gone r before
    · exact List.mem_singleton.mp last ▸ decided
  · intro r after le spared
    show (if r = q then none else s.names r).isSome
    rw [if_neg]
    · exact inv.kept r after le spared
    · rintro rfl
      exact spared decided
  · exact steady.writerOk inv rfl rfl (fun _ mem => mem) fun _ _ => rfl
  · exact steady.helperOk inv.helper rfl rfl (fun _ mem => mem) fun r _ armed => armed.2.2

end Deleting

section Steps
variable {turn : Turn} {t : HandOver.State}

theorem behindCurrent : Behind s (s.fileSequence, s.fileInstance) := ⟨Nat.le_refl _, fun _ => rfl⟩

/- The helper at a place that says nothing. -/
theorem helperRests (inv : Inv spec first s) (x : HelperAt) (flight : Nat) (running : s.helper ≠ .gone)
    (quiet : ∀ u : HandOver.State, u.helper = x → HelperOk spec first u) (put : ∀ q identity i, x ≠ .putting q identity i) :
    Inv spec first { s with inFlight := flight, helper := x } :=
  helperMoves inv x flight running (quiet _ rfl) fun q identity i _ _ held => absurd held (put q identity i)

theorem restOk {x : HelperAt} (rest : x = .top ∨ x = .reading ∨ (∃ q, x = .passing q) ∨ (∃ q, x = .clearing q) ∨
    (∃ q, x = .fathering q) ∨ (∃ q, x = .landing q none) ∨ x = .failing ∨ x = .gone) (u : HandOver.State) (at' : u.helper = x) :
    HelperOk spec first u := by
  unfold HelperOk
  rw [at']
  rcases rest with rfl | rfl | ⟨q, rfl⟩ | ⟨q, rfl⟩ | ⟨q, rfl⟩ | ⟨q, rfl⟩ | rfl | rfl <;> trivial

theorem installNoReplace (inv : Inv spec first s) {q i : Nat} {identity : Identity} (at' : s.helper = .putting q identity i)
    (free : s.names q = none) : Inv spec first { s.install q i with helper := .landing q (some (identity, i)) } := by
  have ok := inv.helper
  unfold HelperOk at ok
  rw [at'] at ok
  obtain ⟨fathered, armed, unnamed, made⟩ := ok
  have running : s.helper ≠ .gone := by simp [at']
  -- a segment up to the current one still has its name: retention has not decided on it
  have next : q = s.next := by
    by_contra other
    have near := fathered.1
    have present := inv.kept q armed.2.1 (by unfold HandOver.State.next at near other; omega) armed.2.2
    rw [free] at present
    cases present
  subst next
  have resting := helperRests inv (.landing s.next none) s.inFlight running (restOk (by simp)) (by simp)
  have successor : Successor spec s.fileSequence s.fileInstance (s.files i) := by
    refine ⟨made.prepared, made.same ▸ made.nonzero, ?_, ?_⟩
    · rw [made.same]
      exact fathered.2 rfl
    · rw [made.same, made.sequence]
      rfl
  have installed := installKeeps resting free unnamed successor made.unpublished
    (fun identity' held => inv.apart _ _ _ _ _ at' held rfl) (by simp)
  refine helperMoves installed _ s.inFlight (by simp [HandOver.State.install]) ?_ (by simp)
  have near : s.next ≠ s.fileSequence := Nat.ne_of_gt (Nat.lt_succ_self _)
  exact ⟨Nat.le_refl _, fun _ => ⟨if_pos rfl, made.same⟩, fun le => absurd le (Nat.not_le.mpr (Nat.lt_succ_self _)), unnamed.1⟩

theorem madeFresh {spec : Spec} {q : Nat} {parent : InstanceId} (n : Nat) :
    Made spec q (.successor (spec.ids n) parent (q - 1)) (prepareSegmentAt spec q (.successor (spec.ids n) parent (q - 1))) :=
  ⟨⟨0, false, rfl⟩, rfl, rfl, spec.idsNonzero n, rfl⟩

theorem freshUnnamed (inv : Inv spec first s) (f : SegmentFile) :
    Unnamed (s.allocate f) s.fresh ∧ (s.allocate f).files s.fresh = f :=
  ⟨⟨Nat.lt_succ_self _, fun r named => absurd (inv.made r _ named) (Nat.lt_irrefl _)⟩, if_pos rfl⟩

theorem makingKeeps (inv : Inv spec first s) {q : Nat} {parent : InstanceId} (at' : s.helper = .making q parent) :
    Inv spec first { s.allocate (prepareSegmentAt spec q (.successor (spec.ids s.fresh) parent (q - 1))) with
      helper := .putting q (.successor (spec.ids s.fresh) parent (q - 1)) s.fresh } := by
  have ok := inv.helper
  unfold HelperOk at ok
  rw [at'] at ok
  have made := allocateKeeps inv (prepareSegmentAt spec q (.successor (spec.ids s.fresh) parent (q - 1)))
  obtain ⟨unnamed, file⟩ := freshUnnamed inv (prepareSegmentAt spec q (.successor (spec.ids s.fresh) parent (q - 1)))
  refine helperMoves made _ s.inFlight ?_ ⟨ok.1, ok.2, unnamed, ?_⟩ ?_
  · show s.helper ≠ .gone
    simp [at']
  · show Made spec q _ _
    rw [file]
    exact madeFresh s.fresh
  · rintro r identity i identity' j ⟨⟩ held
    -- the writer's own attempt is older
    have writer := inv.writer
    unfold WriterOk at writer
    rw [show s.writer = .putting identity' j from held] at writer
    exact Nat.ne_of_lt writer.2.1.1

theorem helperKeeps (inv : Inv spec first s) (taken : helperStep spec turn s = some t) : Inv spec first t := by
  have ok := inv.helper
  unfold HelperOk at ok
  unfold helperStep at taken
  cases at' : s.helper with
  | gone =>
    rw [at'] at taken
    cases taken
  | top =>
    simp only [at', Option.some.injEq] at taken
    subst taken
    have emptied : Inv spec first { s with doomed := [] } := { inv with doomed := by rintro q ⟨⟩ }
    exact helperMoves emptied _ s.inFlight (by simp [at']) inv.doomed (by simp)
  | deleting l =>
    rw [at'] at ok
    cases l with
    | nil =>
      simp only [at', Option.some.injEq] at taken
      subst taken
      refine helperRests inv _ s.inFlight (by simp [at']) (restOk ?_) ?_ <;> split <;> simp
    | cons q l =>
      simp only [at', Option.some.injEq] at taken
      subst taken
      have deleted := deleteKeeps inv (ok q List.mem_cons_self)
      refine helperMoves deleted _ s.inFlight (by simp [HandOver.State.delete, HandOver.State.removeFile, at']) ?_ (by simp)
      exact fun r mem => ok r (List.mem_cons_of_mem _ mem)
  | reading =>
    simp only [at'] at taken
    cases turn <;> (simp only [Option.some.injEq] at taken; subst taken)
    all_goals exact helperRests inv _ s.inFlight (by simp [at']) (restOk (by simp)) (by simp)
  | passing q =>
    simp only [at', Option.some.injEq] at taken
    subst taken
    refine helperRests inv _ s.inFlight (by simp [at']) (restOk ?_) ?_ <;> split <;> simp
  | clearing q =>
    simp only [at'] at taken
    split at taken
    · simp only [Option.some.injEq] at taken
      subst taken
      exact helperRests inv (.fathering q) s.inFlight (by simp [at']) (restOk (by simp)) (by simp)
    next n holds =>
      split at taken <;> (simp only [Option.some.injEq] at taken; subst taken)
      · have emptied : Inv spec first { s with ready := none, readySequence := noSequence } := { inv with ready := by rintro n ⟨⟩ }
        exact helperRests emptied (.fathering q) s.inFlight (by simp [at']) (restOk (by simp)) (by simp)
      · by_cases here : n.sequence = q
        · rw [if_pos here]
          exact helperRests inv .top s.inFlight (by simp [at']) (restOk (by simp)) (by simp)
        · rw [if_neg here]
          exact helperRests inv (.fathering q) s.inFlight (by simp [at']) (restOk (by simp)) (by simp)
  | fathering q =>
    simp only [at', Option.some.injEq] at taken
    subst taken
    by_cases follows : (s.segment.1 + 1) % usize = q
    · rw [if_pos follows]
      refine helperMoves inv _ s.inFlight (by simp [at']) ?_ (by simp)
      have behind := inv.segment
      have small : (s.segment.1 + 1) % usize ≤ s.segment.1 + 1 := Nat.mod_le _ _
      have low := inv.low
      refine ⟨?_, fun here => behind.2 ?_⟩
      · show q ≤ s.fileSequence + 1
        have := behind.1
        omega
      · change q = s.fileSequence + 1 at here
        have := behind.1
        omega
    · rw [if_neg follows]
      exact helperRests inv _ s.inFlight (by simp [at']) (restOk (by simp)) (by simp)
  | announcing q parent =>
    rw [at'] at ok
    simp only [at', Option.some.injEq] at taken
    subst taken
    exact helperMoves inv _ q (by simp [at']) ⟨ok, rfl⟩ (by simp)
  | judging q parent =>
    rw [at'] at ok
    simp only [at', Option.some.injEq] at taken
    subst taken
    by_cases passed : q ≤ s.claimed
    · rw [if_pos passed]
      exact helperRests inv _ s.inFlight (by simp [at']) (restOk (by simp)) (by simp)
    · rw [if_neg passed]
      refine helperMoves inv _ s.inFlight (by simp [at']) ⟨ok.1, ok.2, ?_, ?_⟩ (by simp)
      · have := inv.began
        have := inv.claims
        show first < q
        unfold HandOver.State.next at this
        omega
      · intro mem
        have := inv.condemned q mem
        have := inv.claims
        unfold HandOver.State.next at this
        omega
  | making q parent =>
    rw [at'] at ok
    simp only [at'] at taken
    cases turn with
    | fail =>
      simp only [Option.some.injEq] at taken
      subst taken
      exact helperRests inv _ noSequence (by simp [at']) (restOk (by simp)) (by simp)
    | goOn | skip =>
      simp only [Option.some.injEq] at taken
      subst taken
      exact makingKeeps inv at'
  | putting q identity i =>
    simp only [at'] at taken
    split at taken <;> (simp only [Option.some.injEq] at taken; subst taken)
    · exact helperRests inv _ s.inFlight (by simp [at']) (restOk (by simp)) (by simp)
    next absent => exact installNoReplace inv at' (Option.not_isSome_iff_eq_none.mp absent)
  | landing q installed =>
    rw [at'] at ok
    simp only [at'] at taken
    cases installed with
    | none =>
      have rests : t = { s with inFlight := noSequence, helper := .top } := by
        cases turn <;> exact (Option.some.inj taken).symm
      rw [rests]
      exact helperRests inv _ noSequence (by simp [at']) (restOk (by simp)) (by simp)
    | some x =>
      cases turn with
      | fail =>
        simp only [Option.some.injEq] at taken
        subst taken
        exact helperRests inv _ noSequence (by simp [at']) (restOk (by simp)) (by simp)
      | goOn | skip =>
        simp only [Option.some.injEq] at taken
        subst taken
        exact helperMoves inv _ noSequence (by simp [at']) ok (by simp)
  | offering q identity i =>
    rw [at'] at ok
    simp only [at'] at taken
    split at taken <;> (simp only [Option.some.injEq] at taken; subst taken)
    · have handed : Inv spec first { s with ready := some ⟨q, identity, i⟩, readySequence := q } := by
        refine { inv with ready := ?_ }
        rintro n ⟨⟩
        exact ok
      exact helperRests handed _ s.inFlight (by simp [at']) (restOk (by simp)) (by simp)
    · exact helperRests inv _ s.inFlight (by simp [at']) (restOk (by simp)) (by simp)
  | failing =>
    simp only [at', Option.some.injEq] at taken
    subst taken
    have rests := helperRests inv .gone s.inFlight (by simp [at']) (restOk (by simp)) (by simp)
    exact { rests with stops := fun _ => rfl }

/- The writer at a place where it installs nothing of its own. -/
theorem writerGoes (inv : Inv spec first s) (x : WriterAt) (ok : WriterOk spec { s with writer := x }) (live : ¬ Joined x)
    (put : ∀ identity i, x ≠ .putting identity i) : Inv spec first { s with writer := x } :=
  writerMoves inv x ok (fun joined => absurd joined live) fun _ _ _ identity j _ held => absurd held (put identity j)

theorem failKeeps (inv : Inv spec first s) (unpublished : Unpublished s) (e : IoError) : Inv spec first (s.fail e) := by
  have idle := writerGoes inv .idle unpublished id (by simp)
  exact { idle with }

theorem lockingKeeps {busy cloned : Bool} (inv : Inv spec first s) (at' : s.writer = .locking)
    (taken : writerStep spec busy cloned s = some t) : Inv spec first t := by
  have ok := inv.writer
  unfold WriterOk at ok
  rw [at'] at ok
  have missed := writerGoes inv .missing ok id (by simp)
  simp only [writerStep, at'] at taken
  split at taken
  · exact Option.some.inj taken ▸ missed
  split at taken
  · exact Option.some.inj taken ▸ missed
  next n holds =>
    split at taken
    · exact Option.some.inj taken ▸ missed
    next here =>
      have here : n.sequence = s.next := not_not.mp here
      simp only [Option.some.injEq] at taken
      subst taken
      obtain ⟨named, same⟩ := (inv.ready n holds).2.1 here
      have emptied : Inv spec first { s with ready := none, readySequence := noSequence } := by
        refine { inv with ready := ?_ }
        rintro n ⟨⟩
      split
      · exact writerGoes emptied (.staging n.identity n.ino) ⟨ok, named, same⟩ id (by simp)
      · exact writerGoes emptied .missing ok id (by simp)

theorem ownAttempt (inv : Inv spec first s) (at' : s.writer = .making) :
    Inv spec first { s.allocate (prepareSegmentAt spec s.next (.successor (spec.ids s.fresh) s.fileInstance s.fileSequence)) with
      writer := .putting (.successor (spec.ids s.fresh) s.fileInstance s.fileSequence) s.fresh } := by
  have ok := inv.writer
  unfold WriterOk at ok
  rw [at'] at ok
  have made := allocateKeeps inv (prepareSegmentAt spec s.next (.successor (spec.ids s.fresh) s.fileInstance s.fileSequence))
  obtain ⟨unnamed, file⟩ := freshUnnamed inv (prepareSegmentAt spec s.next (.successor (spec.ids s.fresh) s.fileInstance s.fileSequence))
  have rolling := made.writer
  unfold WriterOk at rolling
  rw [show (s.allocate _).writer = .making from at'] at rolling
  refine writerMoves made _ ⟨rolling, unnamed, ?_, rfl⟩ (by rintro ⟨⟩) ?_
  · show Made spec s.next _ _
    rw [file]
    exact madeFresh s.fresh
  · rintro q identity i identity' j held ⟨⟩
    have helper := inv.helper
    unfold HelperOk at helper
    rw [show s.helper = .putting q identity i from held] at helper
    exact Nat.ne_of_gt helper.2.2.1.1

theorem ownInstall (inv : Inv spec first s) {identity : Identity} {i : Nat} (at' : s.writer = .putting identity i)
    (free : s.names s.next = none) : Inv spec first { s.install s.next i with writer := .staging identity i } := by
  have ok := inv.writer
  unfold WriterOk at ok
  rw [at'] at ok
  obtain ⟨rolling, unnamed, made, parent⟩ := ok
  have waiting := writerGoes inv .adopting rolling id (by simp)
  have successor : Successor spec s.fileSequence s.fileInstance (s.files i) :=
    ⟨made.prepared, made.same ▸ made.nonzero, made.same ▸ parent, made.same ▸ made.sequence⟩
  have installed := installKeeps waiting free unnamed successor made.unpublished (by simp)
    fun q identity' held => inv.apart _ _ _ _ _ held at' rfl
  have rolls := installed.writer
  unfold WriterOk at rolls
  exact writerGoes installed (.staging identity i) ⟨rolls, if_pos rfl, made.same⟩ id (by simp)

theorem preparedStamp {q : Nat} {f : SegmentFile} (prepared : Prepared spec q f) (base : Nat) (published : Bool) :
    Prepared spec q { f with baseRecordIndex := base, published := published } := by
  obtain ⟨_, _, same⟩ := prepared
  generalize f.identity = identity at same
  subst same
  exact ⟨base, published, rfl⟩

theorem stagingKeeps {busy cloned : Bool} (inv : Inv spec first s) {identity : Identity} {i : Nat}
    (at' : s.writer = .staging identity i) (taken : writerStep spec busy cloned s = some t) : Inv spec first t := by
  have ok := inv.writer
  unfold WriterOk at ok
  rw [at'] at ok
  obtain ⟨rolling, named, same⟩ := ok
  simp only [writerStep, at'] at taken
  split at taken
  · exact Option.some.inj taken ▸ failKeeps inv rolling.2.2 _
  next edge _ =>
    obtain rfl := Option.some.inj taken
    have shown : (s.setFile i { s.files i with baseRecordIndex := edge.nextBaseRecordIndex }).files i =
        { s.files i with baseRecordIndex := edge.nextBaseRecordIndex } := if_pos rfl
    refine setFileKeeps (f := { s.files i with baseRecordIndex := edge.nextBaseRecordIndex }) inv named rfl id
      (fun _ => preparedStamp (inv.successor i named).prepared _ _) (.publishing identity i)
      ⟨⟨rolling.1, rolling.2.1, ?_⟩, named, ?_⟩ id (by simp)
    · intro j found
      obtain rfl := Option.some.inj (named.symm.trans found)
      show ((s.setFile i _).files i).published = false
      rw [shown]
      exact rolling.2.2 i named
    · show ((s.setFile i _).files i).identity = identity
      rw [shown]
      exact same

theorem publishingKeeps (inv : Inv spec first s) {identity : Identity} {i : Nat} (at' : s.writer = .publishing identity i) :
    Inv spec first { s.setFile i { s.files i with published := true } with writer := .switching identity i } := by
  have ok := inv.writer
  unfold WriterOk at ok
  rw [at'] at ok
  obtain ⟨rolling, named, same⟩ := ok
  have shown : (s.setFile i { s.files i with published := true }).files i = { s.files i with published := true } := if_pos rfl
  refine setFileKeeps (f := { s.files i with published := true }) inv named rfl (fun _ => rfl)
    (fun _ => preparedStamp (inv.successor i named).prepared _ _) (.switching identity i) ⟨rolling.1, rolling.2.1, named, ?_, ?_⟩ id (by simp)
  · show ((s.setFile i _).files i).identity = identity
    rw [shown]
    exact same
  · show ((s.setFile i _).files i).published = true
    rw [shown]

theorem handOffKeeps (inv : Inv spec first s) (busy : Bool) : Inv spec first (handOff busy s) := by
  unfold handOff
  split
  · exact inv
  next p pending =>
    split
    · exact inv
    · exact { inv with segment := inv.handoff p pending, handoff := by rintro p ⟨⟩ }

theorem handOffFrame (busy : Bool) (s : HandOver.State) :
    ∃ segment handoff, handOff busy s = { s with segment := segment, handoff := handoff } := by
  unfold handOff
  split
  · exact ⟨_, _, rfl⟩
  · split <;> exact ⟨_, _, rfl⟩

/- The successor that the drop removes has not been published. -/
theorem discardKeeps (inv : Inv spec first s) {n : NextSegment} (holds : s.ready = some n) (done : s.helper = .gone)
    (unpublished : (s.files n.ino).published = false) :
    Inv spec first { s.removeFile n.sequence with ready := none, writer := .draining } := by
  have offered := inv.ready n holds
  have next : n.sequence = s.next := by
    by_contra other
    have published := offered.2.2.1 (by have := offered.1; unfold HandOver.State.next at this other; omega)
    rw [unpublished] at published
    cases published
  rw [next]
  have fewer (r i : Nat) (named : (s.removeFile s.next).names r = some i) : s.names r = some i ∧ r ≠ s.next := by
    change (if r = s.next then none else s.names r) = some i at named
    split at named
    · cases named
    next other => exact ⟨named, other⟩
  have older (r : Nat) (le : r ≤ s.fileSequence) : (s.removeFile s.next).names r = s.names r :=
    if_neg (by unfold HandOver.State.next; omega)
  refine { inv with made := ?_, named := ?_, published := ?_, successor := ?_, own := ?_, ready := ?_, absent := ?_, kept := ?_, joined := fun _ => done, writer := ?_, helper := ?_, apart := ?_ }
  · exact fun r i named => inv.made r i (fewer r i named).1
  · exact fun r i named => inv.named r i (fewer r i named).1
  · exact fun r i named le => inv.published r i (fewer r i named).1 le
  · exact fun i named => absurd rfl (fewer _ i named).2
  · exact (older _ (Nat.le_refl _)).trans inv.own
  · rintro n ⟨⟩
  · exact fun r mem => (older r (inv.condemned r (inv.gone r mem)).le).trans (inv.absent r mem)
  · intro r after le spared
    show ((s.removeFile s.next).names r).isSome
    rw [older r le]
    exact inv.kept r after le spared
  · exact fun i named => absurd rfl (fewer _ i named).2
  · exact restOk (by simp) _ done
  · intro _ _ _ _ _ held
    rw [show s.helper = _ from held] at done
    cases done

theorem writerKeeps {busy cloned : Bool} (inv : Inv spec first s) (taken : writerStep spec busy cloned s = some t) :
    Inv spec first t := by
  have ok := inv.writer
  unfold WriterOk at ok
  cases at' : s.writer with
  | idle | dropped =>
    simp only [writerStep, at'] at taken
    cases taken
  | locking => exact lockingKeeps inv at' taken
  | staging identity i => exact stagingKeeps inv at' taken
  | taking =>
    rw [at'] at ok
    simp only [writerStep, at', Option.some.injEq] at taken
    subst taken
    split
    · exact writerGoes inv .locking ok id (by simp)
    · exact writerGoes inv .missing ok id (by simp)
  | missing =>
    rw [at'] at ok
    simp only [writerStep, at', Option.some.injEq] at taken
    subst taken
    split
    · exact writerGoes inv .adopting ok id (by simp)
    · exact writerGoes inv .making ok id (by simp)
  | making =>
    simp only [writerStep, at', Option.some.injEq] at taken
    exact taken ▸ ownAttempt inv at'
  | putting identity i =>
    rw [at'] at ok
    simp only [writerStep, at'] at taken
    split at taken
    · exact Option.some.inj taken ▸ writerGoes inv .adopting ok.1 id (by simp)
    next free => exact Option.some.inj taken ▸ ownInstall inv at' (Option.not_isSome_iff_eq_none.mp free)
  | adopting =>
    rw [at'] at ok
    simp only [writerStep, at'] at taken
    split at taken
    · exact Option.some.inj taken ▸ failKeeps inv ok.2.2 _
    next i named =>
      split at taken
      · exact Option.some.inj taken ▸ failKeeps inv ok.2.2 _
      · exact Option.some.inj taken ▸ writerGoes inv (.staging (s.files i).identity i) ⟨ok, named, rfl⟩ id (by simp)
  | publishing identity i =>
    simp only [writerStep, at', Option.some.injEq] at taken
    exact taken ▸ publishingKeeps inv at'
  | switching identity i =>
    simp only [writerStep, at', Option.some.injEq] at taken
    exact taken ▸ switchKeeps inv at'
  | handing todo =>
    rw [at'] at ok
    simp only [writerStep, at'] at taken
    split at taken
    · obtain rfl := Option.some.inj taken
      rw [← at']
      have pending : Inv spec first { s with handoff := some (s.fileSequence, s.fileInstance) } := by
        refine { inv with handoff := ?_ }
        rintro p ⟨⟩
        exact behindCurrent
      have handed := handOffKeeps pending busy
      obtain ⟨_, _, same⟩ := handOffFrame busy { s with handoff := some (s.fileSequence, s.fileInstance) }
      rw [same] at handed ⊢
      exact writerGoes handed (.storing todo) ok id (by simp)
    · exact Option.some.inj taken ▸ writerGoes inv (.storing todo) ok id (by simp)
  | storing todo =>
    rw [at'] at ok
    simp only [writerStep, at', Option.some.injEq] at taken
    subst taken
    have stored : Inv spec first { s with currentSequence := s.fileSequence } := { inv with current := Nat.le_refl _ }
    exact writerGoes stored (.releasing todo) ok id (by simp)
  | releasing todo =>
    rw [at'] at ok
    simp only [writerStep, at'] at taken
    split at taken
    next q rest _ left =>
      obtain rfl := Option.some.inj taken
      have deleted := deleteKeeps inv (inv.doomed q (left ▸ List.mem_cons_self))
      exact { deleted with doomed := fun r mem => inv.doomed r (left ▸ List.mem_cons_of_mem _ mem) }
    next => exact Option.some.inj taken ▸ writerGoes inv (.retaining todo) ok id (by simp)
  | retaining todo =>
    rw [at'] at ok
    cases todo with
    | nil =>
      simp only [writerStep, at', Option.some.injEq] at taken
      exact taken ▸ writerGoes inv .idle ok.1 id (by simp)
    | cons q todo =>
      simp only [writerStep, at', Option.some.injEq] at taken
      refine taken ▸ writerGoes inv (.checking q todo) ⟨ok.1, ok.2 q List.mem_cons_self, ?_⟩ id (by simp)
      exact fun r mem => ok.2 r (List.mem_cons_of_mem _ mem)
  | checking q todo =>
    rw [at'] at ok
    simp only [writerStep, at'] at taken
    split at taken
    next stopped =>
      obtain rfl := Option.some.inj taken
      have decided := condemnKeeps inv ok.2.1 (.inl (inv.stops stopped))
      exact writerGoes decided (.unlinking q todo) ⟨ok.1, List.mem_append_right _ List.mem_cons_self, ok.2.2⟩ id (by simp)
    · exact Option.some.inj taken ▸ writerGoes inv (.flying q todo) ok id (by simp)
  | flying q todo =>
    rw [at'] at ok
    simp only [writerStep, at'] at taken
    split at taken
    · obtain rfl := Option.some.inj taken
      have deferred : Inv spec first { s with deferredPrune := s.deferredPrune ++ [q] } := by
        refine { inv with deferred := fun r mem => ?_ }
        rcases List.mem_append.mp mem with before | last
        · exact inv.deferred r before
        · exact List.mem_singleton.mp last ▸ ok.2.1
      exact writerGoes deferred (.retaining todo) ⟨ok.1, ok.2.2⟩ id (by simp)
    next free =>
      obtain rfl := Option.some.inj taken
      have decided := condemnKeeps inv ok.2.1 (.inr free)
      exact writerGoes decided (.unlinking q todo) ⟨ok.1, List.mem_append_right _ List.mem_cons_self, ok.2.2⟩ id (by simp)
  | unlinking q todo =>
    rw [at'] at ok
    simp only [writerStep, at'] at taken
    split at taken
    · obtain rfl := Option.some.inj taken
      have queued : Inv spec first { s with doomed := s.doomed ++ [q] } := by
        refine { inv with doomed := fun r mem => ?_ }
        rcases List.mem_append.mp mem with before | last
        · exact inv.doomed r before
        · exact List.mem_singleton.mp last ▸ ok.2.1
      exact writerGoes queued (.releasing todo) ⟨ok.1, ok.2.2⟩ id (by simp)
    · exact Option.some.inj taken ▸ writerGoes inv (.deleting q todo) ok id (by simp)
  | deleting q todo =>
    rw [at'] at ok
    simp only [writerStep, at', Option.some.injEq] at taken
    subst taken
    have deleted := deleteKeeps inv ok.2.1
    have after := deleted.writer
    unfold WriterOk at after
    rw [show (s.delete q).writer = .deleting q todo from at'] at after
    exact writerGoes deleted (.releasing todo) ⟨after.1, after.2.2⟩ id (by simp)
  | joining =>
    rw [at'] at ok
    simp only [writerStep, at'] at taken
    split at taken
    next done => exact Option.some.inj taken ▸ writerMoves inv .discarding ok (fun _ => done) (by simp)
    next => cases taken
  | discarding =>
    rw [at'] at ok
    have done := inv.joined (by rw [at']; trivial)
    simp only [writerStep, at'] at taken
    split at taken
    · exact Option.some.inj taken ▸ writerMoves inv .draining ok (fun _ => done) (by simp)
    next n holds =>
      split at taken
      · obtain rfl := Option.some.inj taken
        have emptied : Inv spec first { s with ready := none } := { inv with ready := by rintro n ⟨⟩ }
        exact writerMoves emptied .draining ok (fun _ => done) (by simp)
      next unpublished => exact Option.some.inj taken ▸ discardKeeps inv holds done (by simpa using unpublished)
  | draining =>
    rw [at'] at ok
    have done := inv.joined (by rw [at']; trivial)
    simp only [writerStep, at'] at taken
    split at taken
    · exact Option.some.inj taken ▸ writerMoves inv .undeferring ok (fun _ => done) (by simp)
    next q rest left =>
      obtain rfl := Option.some.inj taken
      have deleted := deleteKeeps inv (inv.doomed q (left ▸ List.mem_cons_self))
      exact { deleted with doomed := fun r mem => inv.doomed r (left ▸ List.mem_cons_of_mem _ mem) }
  | undeferring =>
    rw [at'] at ok
    have done := inv.joined (by rw [at']; trivial)
    simp only [writerStep, at'] at taken
    split at taken
    · exact Option.some.inj taken ▸ writerMoves inv .dropped ok (fun _ => done) (by simp)
    next q rest left =>
      obtain rfl := Option.some.inj taken
      have decided := condemnKeeps inv (inv.deferred q (left ▸ List.mem_cons_self)) (.inl done)
      have deleted := deleteKeeps decided (q := q) (List.mem_append_right _ List.mem_cons_self)
      exact { deleted with deferred := fun r mem => inv.deferred r (left ▸ List.mem_cons_of_mem _ mem) }

theorem commitKeeps (inv : Inv spec first s) (at' : s.writer = .idle) (n : Nat) :
    Inv spec first (s.setFile s.ino { s.files s.ino with messageCount := n }) := by
  have ok := inv.writer
  unfold WriterOk at ok
  rw [at'] at ok
  have published := inv.published _ _ inv.own (Nat.le_refl _)
  have shown : (s.setFile s.ino { s.files s.ino with messageCount := n }).files s.ino = { s.files s.ino with messageCount := n } :=
    if_pos rfl
  have kept := setFileKeeps (f := { s.files s.ino with messageCount := n }) inv inv.own rfl id
    (fun next => absurd (ok _ next) (by simp [published])) .idle ?_ id (by simp)
  · rw [← at'] at kept
    exact kept
  · intro i named
    show (if i = s.ino then _ else s.files i).published = false
    rw [if_neg]
    · exact ok i named
    · rintro rfl
      exact absurd (ok _ named) (by simp [published])

/- What every step of either side keeps. -/
theorem stepKeeps (inv : Inv spec first s) {a : Move} (taken : step spec s a = some t) : Inv spec first t := by
  have ok := inv.writer
  unfold WriterOk at ok
  cases a with
  | writer busy cloned => exact writerKeeps inv taken
  | helper turn => exact helperKeeps inv taken
  | commit =>
    simp only [step] at taken
    split at taken
    next at' => exact Option.some.inj taken ▸ commitKeeps inv at' _
    next => cases taken
  | roll full =>
    simp only [step] at taken
    split at taken
    next at' =>
      rw [at'] at ok
      cases full with
      | some position => exact Option.some.inj taken ▸ failKeeps inv ok _
      | none =>
        dsimp only at taken
        split at taken
        · exact Option.some.inj taken ▸ failKeeps inv ok _
        next low =>
          obtain rfl := Option.some.inj taken
          have claimed : Inv spec first { s with claimed := s.next } := { inv with
            claims := .inr rfl
            writer := by
              unfold WriterOk
              rw [show ({ s with claimed := s.next } : HandOver.State).writer = .idle from at']
              exact ok }
          exact writerGoes claimed .taking ⟨rfl, Nat.lt_of_not_le low, ok⟩ id (by simp)
    next => cases taken
  | moved busy =>
    simp only [step] at taken
    split at taken
    next at' =>
      rw [at'] at ok
      obtain rfl := Option.some.inj taken
      have handed := handOffKeeps inv busy
      obtain ⟨_, _, same⟩ := handOffFrame busy s
      rw [same] at handed ⊢
      exact writerGoes handed (.releasing []) ⟨ok, by rintro q ⟨⟩⟩ id (by simp)
    next => cases taken
  | drop =>
    simp only [step] at taken
    split at taken
    next at' =>
      rw [at'] at ok
      obtain rfl := Option.some.inj taken
      have stopping : Inv spec first { s with stop := true } := { inv with }
      exact writerGoes stopping .joining ok id (by simp)
    next => cases taken

end Steps
end Xchannel.HandOverLaws
