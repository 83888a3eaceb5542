import Xchannel.ReaderBounds

/-! Opening a file of any bytes: which of the values that the header checks let through the opens and the
walks come back from, with a reader or an error. -/
namespace Xchannel.HeaderUse
open ByteMemory CrashProgram Format Storage Sessions ChannelLog RecordChain Observation SegmentWalk ReaderOpen ReadPath ReadSpecs OpenSpecs ChainScan
  ReaderBounds

/-- An `Err` the caller gets, and no panic or fault. -/
def Unpanicked : IoError → Prop
  | .panicked _ => False
  | _ => True

theorem plainUnpanicked {e : IoError} (plain : Plain e) : Unpanicked e := by
  cases e with
  | panicked what => exact plain
  | _ => trivial

variable {α β : Type} {env : Env} {d : Disk}

/-- Whichever calls the system refuses, with errors of its own, the program comes back. -/
def Returns (d : Disk) (x : Trial Disk Reader IoError α) : Prop :=
  ∀ faults, Honest faults → ∀ r n e, (x d faults r n).1 = .error e → Unpanicked e

/-- What holds of every value it comes back with. -/
def Gives (d : Disk) (x : Trial Disk Reader IoError α) (Q : α → Prop) : Prop :=
  ∀ faults r n a, (x d faults r n).1 = .ok a → Q a

section Rules
variable {x : Trial Disk Reader IoError α} {f : α → Trial Disk Reader IoError β} {Q : α → Prop} {P : β → Prop}

theorem returnsPure (a : α) : Returns d (pure a : Trial Disk Reader IoError α) := by
  rintro faults honest r n e ⟨⟩

theorem returnsFail {e : IoError} (fine : Unpanicked e) : Returns d (Observe.fail e : Trial Disk Reader IoError α) := by
  rintro faults honest r n _ ⟨⟩
  exact fine

theorem returnsStop {e : IoError} {f : α → Trial Disk Reader IoError β} (fine : Unpanicked e) :
    Returns d ((Observe.fail e : Trial Disk Reader IoError α) >>= f) := by
  rintro faults honest r n _ ⟨⟩
  exact fine

theorem returnsSeq (first : Returns d x) (gives : Gives d x Q) (next : ∀ a, Q a → Returns d (f a)) : Returns d (x >>= f) := by
  intro faults honest r n e failed
  have one := first faults honest r n
  have value := gives faults r n
  change (Trial.andThen x f d faults r n).1 = .error e at failed
  unfold Trial.andThen at failed
  generalize x d faults r n = out at failed one value
  obtain ⟨res, r', n'⟩ := out
  cases res with
  | error _ =>
    cases failed
    exact one _ rfl
  | ok a => exact next a (value a rfl) faults honest r' n' e failed

theorem returnsBind (first : Returns d x) (next : ∀ a, Returns d (f a)) : Returns d (x >>= f) :=
  returnsSeq (Q := fun _ => True) first (fun _ _ _ _ _ => trivial) fun a _ => next a

theorem returnsLook {g : Disk → α} (next : Returns d (f (g d))) : Returns d (Observe.look g >>= f) := next

theorem liftReturns {res : Except IoError α} (fine : ∀ e, res = .error e → Unpanicked e) :
    Returns d (lift res : Trial Disk Reader IoError α) := by
  cases res with
  | ok a => exact returnsPure a
  | error e => exact returnsFail (fine e rfl)

theorem returnsLift {res : Except IoError α} (fine : ∀ e, res = .error e → Unpanicked e)
    (next : ∀ a, res = .ok a → Returns d (f a)) : Returns d (lift res >>= f) := by
  cases res with
  | ok a => exact next a rfl
  | error e =>
    rintro faults honest r n _ ⟨⟩
    exact fine e rfl

theorem returnsRefuse {bad : Prop} [Decidable bad] {e : IoError} {f : Unit → Trial Disk Reader IoError β} (fine : Unpanicked e)
    (next : ¬ bad → Returns d (f ())) : Returns d ((refuseIf bad e : Trial Disk Reader IoError Unit) >>= f) := by
  by_cases h : bad
  · rw [refuseIf, if_pos h]
    rintro faults honest r n _ ⟨⟩
    exact fine
  · intro faults honest r n
    rw [Trial.refuseRun _ _ _ _ h]
    exact next h faults honest r n

theorem returnsPast {bad : Prop} [Decidable bad] {e : IoError} {f : Unit → Trial Disk Reader IoError β} (good : ¬ bad)
    (next : Returns d (f ())) : Returns d ((refuseIf bad e : Trial Disk Reader IoError Unit) >>= f) := by
  intro faults honest r n
  rw [Trial.refuseRun _ _ _ _ good]
  exact next faults honest r n

theorem returnsSyscall : Returns d (Observe.syscall : Trial Disk Reader IoError Unit) := by
  intro faults honest r n e failed
  have asked : Agrees (Observe.syscall : Trial Disk Reader IoError Unit) Observe.syscall := agreesSyscall
  obtain ⟨_, _, _, same | ⟨e', same, k, _, _, refused⟩⟩ := asked d faults r n
  · cases failed.symm.trans same
  · cases failed.symm.trans same
    exact plainUnpanicked (honest k _ refused)

theorem returnsAttempt (first : Returns d x) {f : Except IoError α → Trial Disk Reader IoError β}
    (next : ∀ res, (∀ e, res = .error e → Unpanicked e) → Returns d (f res)) : Returns d (Observe.attempt x >>= f) := by
  intro faults honest r n e failed
  exact next (x d faults r n).1 (fun e' => first faults honest r n e') faults honest _ _ e failed

theorem givesPure {a : α} (holds : Q a) : Gives d (pure a : Trial Disk Reader IoError α) Q := by
  rintro faults r n _ ⟨⟩
  exact holds

theorem givesLook {g : Disk → α} (holds : Q (g d)) : Gives d (Observe.look g : Trial Disk Reader IoError α) Q := by
  rintro faults r n a ⟨⟩
  exact holds

theorem givesSeq (first : Gives d x Q) (next : ∀ a, Q a → Gives d (f a) P) : Gives d (x >>= f) P := by
  intro faults r n b came
  have value := first faults r n
  change (Trial.andThen x f d faults r n).1 = .ok b at came
  unfold Trial.andThen at came
  generalize x d faults r n = out at came value
  obtain ⟨res, r', n'⟩ := out
  cases res with
  | error e => cases came
  | ok a => exact next a (value a rfl) faults r' n' b came

theorem givesBind (next : ∀ a, Gives d (f a) P) : Gives d (x >>= f) P :=
  givesSeq (Q := fun _ => True) (fun _ _ _ _ _ => trivial) fun a _ => next a

end Rules

/-- What the checks of a segment's header let through. -/
structure Accepted (m : Mem) (s : Nat) : Prop where
  kind : (MessageHeader.read m 0).parsedHeaderType = .ok .channel
  header : validateChannelHeader m (regionSizeField m) s = .ok ()
  identity : ∃ i, validateV4Prefix m = .ok i
  published : isPublished m = .ok true

/-- The region size is not zero, and the slot `write_position` leads to, if it is in the file, has room for a header in
its region. -/
structure Usable (env : Env) (m : Mem) (len : Nat) : Prop where
  positive : 0 < regionSizeField m
  room : regionSizeField m % env.page = 0 →
    ((writePosition m - headerSlot) / regionSizeField m + 1) * regionSizeField m ≤ len →
      (writePosition m - headerSlot) % regionSizeField m + headerSlot ≤ regionSizeField m

/-- The only file of its directory, of at least a page. -/
structure Lone (env : Env) (d : Disk) (s ino : Nat) : Prop where
  named : d.segments s = some ino
  alone : ∀ k, k ≠ s → d.segments k = none
  low : s < d.bound
  page : env.page ≤ d.len ino

section Probes
variable {s ino k : Nat}

theorem alignmentReturns (base R : Nat) : Returns d (createReadOnly env base R : Trial Disk Reader IoError Unit) := by
  unfold createReadOnly
  exact returnsLift (fun e bad => plainUnpanicked (alignmentPlain env base R e bad)) fun _ _ => returnsSyscall

theorem presentReturns (s : Nat) : Returns d (openSegmentIfPresent s : Trial Disk Reader IoError (Option Nat)) :=
  returnsBind returnsSyscall fun _ => returnsLook (returnsPure _)

theorem presentGives (s : Nat) :
    Gives d (openSegmentIfPresent s : Trial Disk Reader IoError (Option Nat)) (· = d.segments s) :=
  givesBind fun _ => givesLook rfl

theorem identityReturns (i R s : Nat) {f : Identity → Trial Disk Reader IoError α}
    (next : ∀ identity, validateChannelHeader (d.data i) R s = .ok () → validateV4Prefix (d.data i) = .ok identity →
      Returns d (f identity)) : Returns d (validatedIdentity i R s >>= f) := by
  unfold validatedIdentity
  simp only [bind_assoc]
  refine returnsLook (returnsLift (fun e bad => plainUnpanicked (headerPlain _ _ _ e bad)) fun _ header => ?_)
  refine returnsLook ?_
  exact returnsLift (fun e bad => plainUnpanicked (prefixPlain _ e bad)) fun identity prefixed => next identity header prefixed

theorem segmentReturns (k : Nat) : Returns d (segmentIsPublished env k : Trial Disk Reader IoError Bool) := by
  unfold segmentIsPublished
  refine returnsBind (presentReturns k) fun present => ?_
  cases present with
  | none => exact returnsPure false
  | some i =>
    refine returnsLook ?_
    split
    · exact returnsPure false
    refine returnsBind (alignmentReturns 0 env.page) fun _ => returnsLook (identityReturns _ _ _ fun _ _ _ => returnsLook ?_)
    exact liftReturns fun e bad => plainUnpanicked (publishedPlain _ e bad)

theorem latestReturns (env : Env) (listed : List Nat) : Returns d (latestPublished env listed : Trial Disk Reader IoError (Option Nat)) := by
  induction listed with
  | nil => exact returnsPure none
  | cons seq older ih =>
    unfold latestPublished
    refine returnsAttempt (segmentReturns seq) fun res _ => ?_
    rcases res with _ | _ | _
    · exact returnsPure _
    · exact ih
    · exact returnsPure _

theorem findReturns : Returns d (findLatestPublishedSequence env : Trial Disk Reader IoError Nat) := by
  unfold findLatestPublishedSequence
  refine returnsLook (returnsBind (latestReturns env _) fun latest => ?_)
  cases latest with
  | none => exact returnsPure _
  | some seq => exact returnsPure _

theorem headerReturns (i k : Nat) : Returns d (readSegmentHeader env i k : Trial Disk Reader IoError SegmentHeader) := by
  unfold readSegmentHeader
  refine returnsBind (alignmentReturns 0 env.page) fun _ => returnsLook ?_
  refine returnsLift (fun e bad => plainUnpanicked (kindPlain _ e bad)) fun kind _ => returnsRefuse trivial fun _ => ?_
  refine returnsLook (identityReturns _ _ _ fun _ _ _ => returnsLook ?_)
  refine returnsLift (fun e bad => plainUnpanicked (publishedPlain _ e bad)) fun _ _ => returnsRefuse trivial fun _ => ?_
  exact returnsLook (returnsLook (returnsLook (returnsPure _)))

theorem newerReturns (k : Nat) : Returns d (newerSegmentExists env k : Trial Disk Reader IoError Bool) := by
  unfold newerSegmentExists
  refine returnsBind (segmentReturns (k + 1)) fun newer => ?_
  split
  · exact returnsPure true
  · exact returnsLook (returnsPure _)

theorem probeReturns (k : Nat) : Returns d (probe env k : Trial Disk Reader IoError (Option (Nat × SegmentHeader))) := by
  unfold probe
  refine returnsBind (presentReturns k) fun present => ?_
  cases present with
  | none => exact returnsPure none
  | some i => exact returnsBind (headerReturns i k) fun _ => returnsPure _

end Probes

section Values
variable {s ino k : Nat}

theorem givesLift {res : Except IoError α} {Q : α → Prop} (holds : ∀ a, res = .ok a → Q a) :
    Gives d (lift res : Trial Disk Reader IoError α) Q := by
  cases res with
  | ok a =>
    rintro faults r n _ ⟨⟩
    exact holds a rfl
  | error e => rintro faults r n _ ⟨⟩

theorem givesRefuse {bad : Prop} [Decidable bad] {e : IoError} :
    Gives d (refuseIf bad e : Trial Disk Reader IoError Unit) (fun _ => ¬ bad) := by
  by_cases h : bad
  · rw [refuseIf, if_pos h]
    rintro faults r n _ ⟨⟩
  · exact fun _ _ _ _ _ => h

theorem createGives (base R : Nat) :
    Gives d (createReadOnly env base R : Trial Disk Reader IoError Unit) (fun _ => R % env.page = 0) := by
  unfold createReadOnly
  exact givesSeq (givesLift fun _ ok => (alignmentOk ok).2) fun _ paged => fun _ _ _ _ _ => paged

/-- The fields of an accepted header. -/
def Headed (d : Disk) (i k : Nat) (header : SegmentHeader) : Prop :=
  Accepted (d.data i) k ∧ header = ⟨regionSizeField (d.data i), baseRecordIndex (d.data i), messageCount (d.data i),
    Format.generation (d.data i)⟩

theorem headerGives (i k : Nat) : Gives d (readSegmentHeader env i k : Trial Disk Reader IoError SegmentHeader) (Headed d i k) := by
  unfold readSegmentHeader validatedIdentity
  simp only [bind_assoc]
  refine givesBind fun _ => givesSeq (givesLook rfl) ?_
  rintro _ rfl
  refine givesSeq (givesLift fun _ => id) fun kind parsed => givesSeq givesRefuse fun _ channel => ?_
  refine givesSeq (givesLook rfl) ?_
  rintro _ rfl
  refine givesSeq (givesLook rfl) ?_
  rintro _ rfl
  refine givesSeq (givesLift fun _ => id) fun _ header => givesSeq (givesLook rfl) ?_
  rintro _ rfl
  refine givesSeq (givesLift fun _ => id) fun identity prefixed => givesSeq (givesLook rfl) ?_
  rintro _ rfl
  refine givesSeq (givesLift fun _ => id) fun published state => givesSeq givesRefuse fun _ out => ?_
  refine givesSeq (givesLook rfl) ?_
  rintro _ rfl
  refine givesSeq (givesLook rfl) ?_
  rintro _ rfl
  refine givesSeq (givesLook rfl) ?_
  rintro _ rfl
  rintro faults r n _ ⟨⟩
  obtain rfl := not_not.mp channel
  obtain rfl : published = true := not_not.mp out
  exact ⟨⟨parsed, header, ⟨identity, prefixed⟩, state⟩, rfl⟩

theorem probeGives (k : Nat) : Gives d (probe env k : Trial Disk Reader IoError (Option (Nat × SegmentHeader))) fun found =>
    ∀ i header, found = some (i, header) → d.segments k = some i ∧ Headed d i k header := by
  unfold probe
  refine givesSeq (presentGives k) ?_
  rintro present rfl
  cases named : d.segments k with
  | none =>
    rintro faults r n _ ⟨⟩ i header same
    cases same
  | some i =>
    refine givesSeq (headerGives i k) fun header headed => ?_
    rintro faults r n _ ⟨⟩ i' header' same
    cases same
    exact ⟨rfl, headed⟩

end Values

section Starts
variable {s ino : Nat}

/- A walk divides by the region size, and maps before it loads. -/
theorem walkReturns {R : Nat} (positive : 0 < R) (small : R < 2 ^ 32) (sized : Sized d) (i start : Nat)
    (stop : Nat → HeaderType → Nat → Bool) : Returns d (walkSegmentFrom env i R start stop : Trial Disk Reader IoError WalkEnd) := by
  by_cases paged : R % env.page = 0
  · intro faults honest r n e failed
    obtain ⟨_, _, tidy⟩ := walkInside (pagedRegions positive paged small) sized faults n i start stop r
    rcases tidy e failed with ⟨k, _, _, refused⟩ | plain
    · exact plainUnpanicked (honest k e refused)
    · exact plainUnpanicked plain
  · unfold walkSegmentFrom
    refine returnsLook ?_
    unfold walkLoop divisor
    refine returnsPast (by omega) ?_
    dsimp only
    split
    · exact returnsPure _
    · rw [if_pos (by simp)]
      exact returnsSeq (alignmentReturns _ _) (createGives _ _) fun _ aligned => absurd aligned paged

/- Where `write_position` leads inside the file, the load finds a whole header. -/
theorem slotReturns {R pos : Nat} (seq i count : Nat) (last : Nat → Trial Disk Reader IoError (Nat × Nat))
    (room : pos % R + headerSlot ≤ R) (inside : (pos / R + 1) * R ≤ d.len i) (rest : ∀ base, Returns d (last base)) :
    Returns d (do
      let base ← Observe.look fun d => baseRecordIndex (d.data i)
      let committed ← lift (← Observe.look fun d =>
        if headerMapped env R d ⟨seq, pos / R, i⟩ (pos % R) then (MessageHeader.read (d.data i) pos).isCommitted
        else .error faulted)
      if ¬ committed then
        return (pos, (base + count) % usize)
      let headerType ← lift (← Observe.look fun d => (MessageHeader.read (d.data i) pos).parsedHeaderType)
      if headerType = .roll then
        return (pos, (base + count) % usize)
      last base) := by
  have loaded : headerMapped env R d ⟨seq, pos / R, i⟩ (pos % R) = true :=
    insideMapped (by have : _ + 16 ≤ R := room; show ¬ (_ < 16); omega) (by omega)
  refine returnsLook (returnsLook ?_)
  rw [if_pos loaded]
  refine returnsLift (fun e bad => plainUnpanicked (committedPlain _ e bad)) fun committed _ => ?_
  split
  · exact returnsPure _
  refine returnsLook (returnsLift (fun e bad => plainUnpanicked (kindPlain _ e bad)) fun kind _ => ?_)
  split
  · exact returnsPure _
  · exact rest _

theorem liveReturns {R : Nat} (positive : 0 < R) (small : R < 2 ^ 32) (sized : Sized d) (seq i spins : Nat)
    (mapped : Option Nat)
    (room : R % env.page = 0 → ((writePosition (d.data i) - headerSlot) / R + 1) * R ≤ d.len i →
      (writePosition (d.data i) - headerSlot) % R + headerSlot ≤ R)
    (before : ∀ idx, mapped = some idx → R % env.page = 0 ∧ (idx + 1) * R ≤ d.len i) :
    Returns d (liveStart env i seq R spins mapped : Trial Disk Reader IoError (Nat × Nat)) := by
  induction spins using Nat.strongRecOn generalizing mapped with
  | ind spins ih =>
    unfold liveStart divisor
    refine returnsLook (returnsLook (returnsBind (newerReturns seq) fun newer => ?_))
    dsimp only
    split
    · exact returnsStop trivial
    refine returnsPast (by omega) ?_
    by_cases same : mapped = some ((writePosition (d.data i) - headerSlot) / R)
    on_goal 1 =>
      obtain ⟨paged, inside⟩ := before _ same
      rw [if_neg (not_not.mpr same)]
    on_goal 2 =>
      rw [if_pos same]
      refine returnsLook (returnsRefuse trivial fun inside => ?_)
      refine returnsSeq (alignmentReturns _ _) (createGives _ _) fun _ paged => ?_
      have inside := Nat.le_of_not_lt inside
    all_goals
      refine slotReturns seq i _ _ (room paged inside) inside fun base => ?_
      cases spins with
      | zero => exact returnsBind (walkReturns positive small sized i 0 _) fun walked => returnsRefuse trivial fun _ => returnsPure _
      | succ spins =>
        refine ih spins (Nat.lt_succ_self spins) _ ?_
        rintro idx ⟨⟩
        exact ⟨paged, inside⟩

/- Every open ends in this: the checks, and the start they lead to. -/
theorem fromReturns (s i : Nat) (start : SegmentStart) (spins : Nat) (sized : Sized d)
    (usable : Accepted (d.data i) s → Usable env (d.data i) (d.len i)) :
    Returns d (fromSegment env spins s i start : Trial Disk Reader IoError Reader) := by
  unfold fromSegment
  refine returnsBind (alignmentReturns 0 env.page) fun _ => returnsLook ?_
  refine returnsLift (fun e bad => plainUnpanicked (kindPlain _ e bad)) fun kind parsed => returnsRefuse trivial fun channel => ?_
  refine returnsLook (identityReturns _ _ _ fun identity header prefixed => returnsLook ?_)
  refine returnsLift (fun e bad => plainUnpanicked (publishedPlain _ e bad)) fun published state => returnsRefuse trivial fun out => ?_
  obtain rfl := not_not.mp channel
  obtain rfl : published = true := not_not.mp out
  obtain ⟨positive, room⟩ := usable ⟨parsed, header, ⟨identity, prefixed⟩, state⟩
  have small : regionSizeField (d.data i) < 2 ^ 32 := readLELt _ _ _
  have started : Returns d (startOf env spins i s (regionSizeField (d.data i)) start : Trial Disk Reader IoError (Nat × Nat)) := by
    unfold startOf
    cases start with
    | beginning => exact returnsLook (returnsPure _)
    | head => exact liveReturns positive small sized s i spins none room (by rintro idx ⟨⟩)
    | «at» readPos position => exact returnsPure _
  refine returnsBind started fun place => returnsLook (returnsLook ?_)
  unfold divisor
  refine returnsPast (by omega) ?_
  exact returnsBind (alignmentReturns _ _) fun _ => returnsPure _

end Starts

section Opens
variable {s ino : Nat}

theorem Lone.only (lone : Lone env d s ino) {k i : Nat} (named : d.segments k = some i) : k = s ∧ i = ino := by
  by_cases same : k = s
  · subst same
    exact ⟨rfl, Option.some.inj (named.symm.trans lone.named)⟩
  · rw [lone.alone k same] at named
    cases named

theorem Lone.listed (lone : Lone env d s ino) : d.findAllSequences = [s] := by
  have only : (fun k => (d.segments k).isSome) = (· == s) := by
    funext k
    by_cases same : k = s
    · rw [same, lone.named]
      simp
    · rw [lone.alone k same]
      simp [same]
  rw [Disk.findAllSequences, only, List.filter_beq,
    List.count_eq_one_of_mem List.nodup_range (List.mem_range.mpr lone.low)]
  rfl

theorem Lone.earliest (lone : Lone env d s ino) : d.findEarliestSequence = s := by
  rw [Disk.findEarliestSequence, lone.listed]
  rfl

variable (lone : Lone env d s ino) (sized : Sized d) (usable : Accepted (d.data ino) s → Usable env (d.data ino) (d.len ino))
include lone sized usable

theorem liveOpenReturns (spins retries : Nat) : Returns d (openLive env spins retries : Trial Disk Reader IoError Reader) := by
  induction retries with
  | zero => exact returnsFail trivial
  | succ retries ih =>
    unfold openLive
    refine returnsBind findReturns fun seq => returnsSeq (presentReturns seq) (presentGives seq) ?_
    rintro present rfl
    cases named : d.segments seq with
    | none => exact ih
    | some i =>
      obtain ⟨rfl, rfl⟩ := lone.only named
      refine returnsAttempt (fromReturns seq i .head spins sized usable) fun res fine => ?_
      rcases res with e | r
      · cases e with
        | staleSegment => exact ih
        | panicked what => exact absurd (fine _ rfl) id
        | _ => exact returnsFail trivial
      · exact returnsPure r

theorem lateJoinReturns (retries : Nat) : Returns d (openLateJoin env retries : Trial Disk Reader IoError Reader) := by
  induction retries with
  | zero => exact returnsFail trivial
  | succ retries ih =>
    unfold openLateJoin
    refine returnsLook (returnsSeq (presentReturns _) (presentGives _) ?_)
    rintro present rfl
    cases named : d.segments d.findEarliestSequence with
    | none => exact ih
    | some i =>
      obtain ⟨same, rfl⟩ := lone.only named
      rw [same]
      exact fromReturns s i .beginning 0 sized usable

theorem locateInReturns (index first gen seq : Nat) :
    Returns d (locateIn env index first gen seq : Trial Disk Reader IoError (Option Reader)) := by
  unfold locateIn
  refine returnsSeq (probeReturns seq) (probeGives seq) fun found known => ?_
  cases found with
  | none => exact returnsPure none
  | some pair =>
    obtain ⟨i, header⟩ := pair
    obtain ⟨named, accepted, same⟩ := known i header rfl
    obtain ⟨rfl, rfl⟩ := lone.only named
    refine returnsRefuse trivial fun _ => ?_
    have positive := (usable accepted).positive
    have walks : Returns d (walkSegmentFrom env i (regionSizeField (d.data i)) 0 fun _ headerType users =>
        headerType = .user ∧ users = index - header.baseRecordIndex : Trial Disk Reader IoError WalkEnd) :=
      walkReturns positive (readLELt _ _ _) sized i 0 _
    rw [same] at walks ⊢
    refine returnsBind walks fun walked => returnsRefuse trivial fun _ => ?_
    exact returnsBind (fromReturns seq i _ 0 sized usable) fun r => returnsPure _

/- One file is its own earliest and newest segment, so there is nothing to search. -/
theorem locateReturns (index : Nat) (expected : Option Nat) :
    Returns d (locate env index expected : Trial Disk Reader IoError (Option Reader)) := by
  have checked (earliest : SegmentHeader) : Returns d (locateNewest env index s s [s] earliest : Trial Disk Reader IoError (Option Reader)) := by
    unfold locateNewest
    refine returnsBind (probeReturns s) fun found => ?_
    cases found with
    | none => exact returnsPure none
    | some latest =>
      refine returnsRefuse trivial fun _ => ?_
      rw [List.length_singleton, searchLoop, if_pos (Nat.le_refl 0)]
      exact returnsSeq (returnsPure _) (givesPure rfl) (by rintro _ rfl; exact locateInReturns lone sized usable _ _ _ _)
  unfold locate
  refine returnsLook ?_
  rw [lone.listed]
  refine returnsSeq (Q := (· = [s])) (returnsPure _) (givesPure rfl) ?_
  rintro _ rfl
  dsimp only [List.reverse_singleton, List.head?_cons, List.getLast?_singleton, List.length_singleton, Nat.sub_self]
  refine returnsBind (probeReturns s) fun found => ?_
  cases found with
  | none => exact returnsPure none
  | some earliest =>
    cases expected with
    | none => exact returnsRefuse trivial fun _ => checked earliest.2
    | some expected => exact returnsRefuse trivial fun _ => returnsRefuse trivial fun _ => checked earliest.2

theorem atOpenReturns (index : Nat) (expected : Option Nat) (retries : Nat) :
    Returns d (openAt env index expected retries : Trial Disk Reader IoError Reader) := by
  induction retries with
  | zero => exact returnsFail trivial
  | succ retries ih =>
    unfold openAt
    refine returnsBind (locateReturns lone sized usable index expected) fun found => ?_
    cases found with
    | none => exact ih
    | some r => exact returnsPure r

theorem openReturns (spins : Nat) (mode : ReaderMode) (expected : Option Nat) :
    Returns d (openWith env spins mode expected : Trial Disk Reader IoError Reader) := by
  have opened : Returns d (openMode env spins expected mode : Trial Disk Reader IoError Reader) := by
    cases mode with
    | live => exact liveOpenReturns lone sized usable spins _
    | lateJoin => exact lateJoinReturns lone sized usable _
    | «at» index => exact atOpenReturns lone sized usable index.toNat expected _
  unfold openWith
  refine returnsBind opened fun r => ?_
  cases expected with
  | none => exact returnsPure r
  | some expected => exact returnsRefuse trivial fun _ => returnsPure r

end Opens

theorem headReturns : Returns d (headRecordIndex env : Trial Disk Reader IoError Nat) := by
  unfold headRecordIndex
  refine returnsBind findReturns fun latest => returnsBind (presentReturns latest) fun present => ?_
  cases present with
  | none => exact returnsFail trivial
  | some i => exact returnsBind (headerReturns i latest) fun _ => returnsPure _

theorem tailReturns (gen retries : Nat) : Returns d (tailLoop env gen retries : Trial Disk Reader IoError Nat) := by
  induction retries with
  | zero => exact returnsFail trivial
  | succ retries ih =>
    unfold tailLoop
    refine returnsLook (returnsBind (presentReturns _) fun present => ?_)
    cases present with
    | none => exact ih
    | some i => exact returnsBind (headerReturns i _) fun _ => returnsRefuse trivial fun _ => returnsPure _

/-- What the program comes to when the system refuses nothing; it keeps its reader. -/
def Ends (d : Disk) (x : Trial Disk Reader IoError α) (res : Except IoError α) : Prop :=
  ∀ r n, ∃ n', x d (fun _ => none) r n = (res, r, n')

section Ending
variable {x : Trial Disk Reader IoError α} {f : α → Trial Disk Reader IoError β} {a : α} {res : Except IoError β} {e : IoError}

theorem Ends.unreturned {what : String} (ends : Ends d x (.error (.panicked what))) : ¬ Returns d x := by
  intro returns
  obtain ⟨n', run⟩ := ends smallReader 0
  exact returns (fun _ => none) (by rintro k e ⟨⟩) smallReader 0 _ (by rw [run])

theorem endsPure (a : α) : Ends d (pure a : Trial Disk Reader IoError α) (.ok a) := fun _ n => ⟨n, rfl⟩

theorem endsBind (first : Ends d x (.ok a)) (next : Ends d (f a) res) : Ends d (x >>= f) res := by
  intro r n
  obtain ⟨n₁, run⟩ := first r n
  obtain ⟨n₂, rest⟩ := next r n₁
  exact ⟨n₂, by rw [Trial.bindOkRun run, rest]⟩

theorem endsStop (first : Ends d x (.error e)) : Ends d (x >>= f) (.error e) := by
  intro r n
  obtain ⟨n', run⟩ := first r n
  refine ⟨n', ?_⟩
  show Trial.andThen x f d _ r n = _
  unfold Trial.andThen
  rw [run]

theorem endsLook {g : Disk → α} (next : Ends d (f (g d)) res) : Ends d (Observe.look g >>= f) res := next

theorem endsLift {r : Except IoError α} (ok : r = .ok a) (next : Ends d (f a) res) : Ends d (lift r >>= f) res := by
  subst ok
  exact next

theorem endsPast {bad : Prop} [Decidable bad] {f : Unit → Trial Disk Reader IoError β} (good : ¬ bad)
    (next : Ends d (f ()) res) : Ends d ((refuseIf bad e : Trial Disk Reader IoError Unit) >>= f) res := by
  rw [refuseIf, if_neg good]
  exact next

theorem endsAttempt {r : Except IoError α} {f : Except IoError α → Trial Disk Reader IoError β} (first : Ends d x r)
    (next : Ends d (f r) res) : Ends d (Observe.attempt x >>= f) res := by
  intro r n
  obtain ⟨n₁, run⟩ := first r n
  obtain ⟨n₂, rest⟩ := next r n₁
  refine ⟨n₂, ?_⟩
  show f (x d _ r n).1 d _ (x d _ r n).2.1 (x d _ r n).2.2 = _
  rw [run, rest]

end Ending

section Broken
variable {s ino : Nat} {e : IoError}

theorem createEnds {base R : Nat} (positive : 0 < R) (paged : R % env.page = 0) (aligned : base % env.page = 0) :
    Ends d (createReadOnly env base R : Trial Disk Reader IoError Unit) (.ok ()) := by
  unfold createReadOnly
  exact endsLift (alignedOk positive paged aligned) fun _ n => ⟨n + 1, rfl⟩

theorem pageEnds : Ends d (createReadOnly env 0 env.page : Trial Disk Reader IoError Unit) (.ok ()) :=
  createEnds (pagePositive env) (Nat.mod_self _) (Nat.zero_mod _)

theorem presentEnds (k : Nat) : Ends d (openSegmentIfPresent k : Trial Disk Reader IoError (Option Nat)) (.ok (d.segments k)) :=
  fun _ n => ⟨n + 1, rfl⟩

theorem identityEnds (accepted : Accepted (d.data ino) s) {f : Identity → Trial Disk Reader IoError α} {res : Except IoError α}
    (next : ∀ identity, Ends d (f identity) res) : Ends d (validatedIdentity ino (regionSizeField (d.data ino)) s >>= f) res := by
  obtain ⟨identity, prefixed⟩ := accepted.identity
  unfold validatedIdentity
  simp only [bind_assoc]
  exact endsLook (endsLift accepted.header (endsLook (endsLift prefixed (next identity))))

variable (lone : Lone env d s ino) (accepted : Accepted (d.data ino) s)
include lone accepted

theorem publishedEnds : Ends d (segmentIsPublished env s : Trial Disk Reader IoError Bool) (.ok true) := by
  unfold segmentIsPublished
  refine endsBind (presentEnds s) ?_
  rw [lone.named]
  have long : ¬ d.len ino < firstRecord := by
    have := (pageRegions env).large
    have := lone.page
    show ¬ _ < 208
    omega
  refine endsLook ?_
  rw [if_neg long]
  exact endsBind pageEnds (endsLook (identityEnds accepted fun _ => endsLook fun _ n => ⟨n, by rw [accepted.published]; rfl⟩))

theorem findEnds : Ends d (findLatestPublishedSequence env : Trial Disk Reader IoError Nat) (.ok s) := by
  unfold findLatestPublishedSequence
  refine endsLook ?_
  rw [lone.listed]
  refine endsBind (a := some s) ?_ (endsPure s)
  rw [List.reverse_singleton, latestPublished]
  exact endsAttempt (publishedEnds lone accepted) (endsPure _)

omit accepted in
theorem newerEnds : Ends d (newerSegmentExists env s : Trial Disk Reader IoError Bool) (.ok false) := by
  have next : Ends d (segmentIsPublished env (s + 1) : Trial Disk Reader IoError Bool) (.ok false) := by
    unfold segmentIsPublished
    refine endsBind (presentEnds (s + 1)) ?_
    rw [lone.alone (s + 1) (Nat.succ_ne_self s)]
    exact endsPure false
  unfold newerSegmentExists
  refine endsBind next (endsLook ?_)
  show Ends d (pure (d.segments s).isNone) _
  rw [lone.named]
  exact endsPure false

omit lone in
/- An open of an accepted file fails as its start does, or divides by its region size. -/
theorem fromEnds {spins : Nat} {start : SegmentStart}
    (bad : Ends d (startOf env spins ino s (regionSizeField (d.data ino)) start) (.error e) ∨
      (∃ place, Ends d (startOf env spins ino s (regionSizeField (d.data ino)) start) (.ok place)) ∧
        regionSizeField (d.data ino) = 0 ∧ e = .panicked "attempt to divide by zero") :
    Ends d (fromSegment env spins s ino start : Trial Disk Reader IoError Reader) (.error e) := by
  unfold fromSegment
  refine endsBind pageEnds (endsLook (endsLift accepted.kind (endsPast (by simp) (endsLook (identityEnds accepted fun _ =>
    endsLook (endsLift accepted.published (endsPast (by simp) ?_)))))))
  rcases bad with stopped | ⟨⟨place, started⟩, zero, rfl⟩
  · exact endsStop stopped
  · refine endsBind started (endsLook (endsLook (endsStop ?_)))
    rw [divisor, refuseIf, if_pos zero]
    exact fun _ n => ⟨n, rfl⟩

/- A late joiner divides by the region size of the file it finds. -/
theorem zeroBreaks (zero : regionSizeField (d.data ino) = 0) :
    Ends d (openWith env 0 .lateJoin none) (.error (.panicked "attempt to divide by zero")) := by
  unfold openWith openMode openLateJoin
  refine endsStop (endsLook (endsBind (presentEnds _) ?_))
  rw [lone.earliest, lone.named]
  exact fromEnds accepted (.inr ⟨⟨_, endsLook (endsPure _)⟩, zero, rfl⟩)

/- At the head, the header at `write_position - 16` is loaded wherever its region is in the file. -/
theorem crossingBreaks (positive : 0 < regionSizeField (d.data ino)) (paged : regionSizeField (d.data ino) % env.page = 0)
    (inside : ((writePosition (d.data ino) - headerSlot) / regionSizeField (d.data ino) + 1) * regionSizeField (d.data ino) ≤ d.len ino)
    (crosses : ¬ (writePosition (d.data ino) - headerSlot) % regionSizeField (d.data ino) + headerSlot ≤ regionSizeField (d.data ino)) :
    Ends d (openWith env 0 .live none) (.error faulted) := by
  have unmapped : ¬ headerMapped env (regionSizeField (d.data ino)) d
      ⟨s, (writePosition (d.data ino) - headerSlot) / regionSizeField (d.data ino), ino⟩
      ((writePosition (d.data ino) - headerSlot) % regionSizeField (d.data ino)) = true := by
    simp only [headerMapped, Bool.decide_and, Bool.and_eq_true, decide_eq_true_eq]
    exact fun both => crosses both.1
  have starts : Ends d (startOf env 0 ino s (regionSizeField (d.data ino)) .head) (.error faulted) := by
    unfold startOf liveStart
    refine endsLook (endsLook (endsBind (newerEnds lone) ?_))
    dsimp only
    rw [if_neg Bool.false_ne_true]
    unfold divisor
    refine endsPast (by omega) ?_
    rw [if_pos (by simp)]
    refine endsLook (endsPast (by omega) (endsBind (createEnds positive paged ?_) (endsLook (endsLook ?_))))
    · rw [Nat.mul_mod, paged, Nat.mul_zero, Nat.zero_mod]
    · rw [if_neg unmapped]
      exact endsStop fun _ n => ⟨n, rfl⟩
  unfold openWith openMode openLive
  refine endsStop (endsBind (findEnds lone accepted) (endsBind (presentEnds s) ?_))
  rw [lone.named]
  exact endsAttempt (fromEnds accepted (.inl starts)) fun _ n => ⟨n, rfl⟩

end Broken

/-- Every open of the lone file, the two queries on it and every walk of a header it accepts come back, each load of the walk held
to its region and to the file. -/
structure Openable (env : Env) (d : Disk) (s ino : Nat) : Prop where
  opens : ∀ spins mode expected, Returns d (openWith env spins mode expected)
  head : Returns d (headRecordIndex env)
  tail : ∀ gen, Returns d (tailRecordIndex env gen)
  walks : Accepted (d.data ino) s → ∀ start stop,
    Returns d (guardedLoop env ino (regionSizeField (d.data ino)) (d.len ino) stop (d.len ino + 1) none start 0)

/- The checks let through a region size of zero, and a `write_position` that leads into a region's last bytes. -/
theorem headersUsable (env : Env) (d : Disk) (sized : Sized d) (s ino : Nat) (lone : Lone env d s ino) :
    Openable env d s ino ↔ (Accepted (d.data ino) s → Usable env (d.data ino) (d.len ino)) := by
  constructor
  · intro openable accepted
    have positive : 0 < regionSizeField (d.data ino) := by
      rw [Nat.pos_iff_ne_zero]
      exact fun zero => (zeroBreaks lone accepted zero).unreturned (openable.opens 0 .lateJoin none)
    refine ⟨positive, fun paged inside => ?_⟩
    by_contra crosses
    exact (crossingBreaks lone accepted positive paged inside crosses).unreturned (openable.opens 0 .live none)
  · intro usable
    refine ⟨fun spins mode expected => openReturns lone sized usable spins mode expected, headReturns, fun gen => tailReturns gen _, ?_⟩
    intro accepted start stop faults honest r n e failed
    rw [← guardedSame] at failed
    have walks : Returns d (walkSegmentFrom env ino (regionSizeField (d.data ino)) start stop : Trial Disk Reader IoError WalkEnd) :=
      walkReturns (usable accepted).positive (readLELt _ _ _) sized ino start stop
    exact walks faults honest r n e failed

/- Only an install makes a name. -/
def namesOnly (s : Nat) : Op → Bool
  | .install k _ => k = s
  | _ => true

theorem absentRun {s k : Nat} (other : k ≠ s) {ops : List Op} (named : ops.all (namesOnly s)) (absent : d.segments k = none) :
    (run Disk.apply d ops).segments k = none := by
  induction ops generalizing d with
  | nil => exact absent
  | cons o ops ih =>
    rw [List.all_cons, Bool.and_eq_true] at named
    refine ih named.2 ?_
    cases o with
    | install q inst =>
      obtain rfl : q = s := of_decide_eq_true named.1
      unfold Disk.apply
      dsimp only
      split
      · exact absent
      · exact (if_neg other).trans absent
    | unlink q =>
      show (if k = q then none else d.segments k) = none
      split
      · rfl
      · exact absent
    | _ => exact absent

theorem plantedLone (length : Nat) (more : List (Nat × List UInt8)) : Lone smallEnv (plantedDisk length more) 0 0 := by
  have built : ((timeline smallEnv Disk.empty [⟨smallConfig, smallFormed, [], 1000⟩]).all (namesOnly 0)) = true := by
    decide +kernel
  have base : (run Disk.apply Disk.empty (timeline smallEnv Disk.empty [⟨smallConfig, smallFormed, [], 1000⟩])).segments 0 = some 0 ∧
      0 < (run Disk.apply Disk.empty (timeline smallEnv Disk.empty [⟨smallConfig, smallFormed, [], 1000⟩])).bound ∧
      4096 ≤ (run Disk.apply Disk.empty (timeline smallEnv Disk.empty [⟨smallConfig, smallFormed, [], 1000⟩])).len 0 := by
    decide +kernel
  have kept (d : Disk) (stores : List (Nat × List UInt8)) :
      (run Disk.apply d (stores.map fun s => .store 0 s.1 s.2)).segments = d.segments ∧
      (run Disk.apply d (stores.map fun s => .store 0 s.1 s.2)).bound = d.bound ∧
      (run Disk.apply d (stores.map fun s => .store 0 s.1 s.2)).len 0 = d.len 0 := by
    induction stores generalizing d with
    | nil => exact ⟨rfl, rfl, rfl⟩
    | cons store stores ih => exact ih (d.apply (.store 0 store.1 store.2))
  unfold plantedDisk planted
  rw [runAppend]
  obtain ⟨segments, bound, len⟩ := kept (run Disk.apply Disk.empty
    (timeline smallEnv Disk.empty [⟨smallConfig, smallFormed, [], 1000⟩])) ((firstRecord, [1, 1, 0, 0] ++ toLE 4 length) :: more)
  refine ⟨?_, fun k other => ?_, ?_, ?_⟩
  · rw [segments]
    exact base.1
  · rw [segments]
    exact absentRun other built rfl
  · rw [bound]
    exact base.2.1
  · rw [len]
    exact base.2.2

theorem headersUsableSmall : Openable smallEnv (plantedDisk 16 []) 0 0 ↔
    (Accepted ((plantedDisk 16 []).data 0) 0 → Usable smallEnv ((plantedDisk 16 []).data 0) ((plantedDisk 16 []).len 0)) :=
  headersUsable smallEnv (plantedDisk 16 []) (plantedSized 16 []) 0 0 (plantedLone 16 [])

/- A region size of zero passes every check, and a late joiner divides by it. -/
theorem zeroRegion : Lone smallEnv (plantedDisk 16 [(48, [0, 0, 0, 0])]) 0 0 ∧ ¬ Openable smallEnv (plantedDisk 16 [(48, [0, 0, 0, 0])]) 0 0 := by
  have zero : regionSizeField ((plantedDisk 16 [(48, [0, 0, 0, 0])]).data 0) = 0 := by decide +kernel
  have accepted : Accepted ((plantedDisk 16 [(48, [0, 0, 0, 0])]).data 0) 0 := by
    refine ⟨by decide +kernel, by decide +kernel, ⟨⟨1, 0, 18446744073709551615⟩, by decide +kernel⟩, by decide +kernel⟩
  have lone := plantedLone 16 [(48, [0, 0, 0, 0])]
  exact ⟨lone, fun openable => (zeroBreaks lone accepted zero).unreturned (openable.opens 0 .lateJoin none)⟩

end Xchannel.HeaderUse
