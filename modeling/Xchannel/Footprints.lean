import Xchannel.Sessions

/-! Which files a writer stores into: the ones its channel's names lead to, those it makes and the one it
holds, on every disk, well formed or not. -/
namespace Xchannel.Footprints
open ByteMemory Format Storage CrashProgram WriterCalls WriterOpen Sessions

/-- The names of the disk lead to files of `own`, and so will the next inodes. -/
structure Owned (own : Nat → Prop) (d : Disk) : Prop where
  segment : ∀ s i, d.segments s = some i → s < usize ∧ own i
  attempt : ∀ a ∈ d.attempts, a.sequence < usize ∧ own a.ino
  fresh : ∀ i, d.fresh ≤ i → own i

/-- It stores into files of `own` only, under sequences that have names, and a private name it makes is new. -/
def Touches (own : Nat → Prop) (d : Disk) : Op → Prop
  | .store ino _ _ => own ino
  | .commit ino _ => own ino
  | .publish ino => own ino
  | .setLen ino _ => own ino
  | .create sequence fileInstance => sequence < usize ∧ d.findAttempt sequence fileInstance = none
  | .install sequence _ => sequence < usize
  | .unlink sequence => sequence < usize
  | .unlinkAttempt sequence _ => sequence < usize

variable {own : Nat → Prop}

theorem ownedApply (d : Disk) (o : Op) (owned : Owned own d) (touches : Touches own d o) : Owned own (d.apply o) := by
  cases o with
  | store ino off bytes => exact ⟨owned.segment, owned.attempt, owned.fresh⟩
  | commit ino off => exact ⟨owned.segment, owned.attempt, owned.fresh⟩
  | publish ino => exact ⟨owned.segment, owned.attempt, owned.fresh⟩
  | setLen ino len => exact ⟨owned.segment, owned.attempt, owned.fresh⟩
  | create sequence fileInstance =>
    refine ⟨owned.segment, ?_, fun i le => owned.fresh i (Nat.le_of_succ_le le)⟩
    intro a mem
    rcases List.mem_append.mp mem with old | new
    · exact owned.attempt a old
    · rw [List.mem_singleton.mp new]
      exact ⟨touches.1, owned.fresh d.fresh (Nat.le_refl _)⟩
  | install sequence fileInstance =>
    unfold Disk.apply
    dsimp only
    cases found : d.findAttempt sequence fileInstance with
    | none => exact owned
    | some a =>
      refine ⟨?_, fun a' mem => owned.attempt a' (List.mem_of_mem_filter mem), owned.fresh⟩
      intro s i named
      dsimp only at named
      split at named
      next same =>
        cases named
        rw [same]
        exact ⟨touches, (owned.attempt a (List.mem_of_find?_eq_some found)).2⟩
      next => exact owned.segment s i named
  | unlink sequence =>
    refine ⟨?_, owned.attempt, owned.fresh⟩
    intro s i named
    change (if s = sequence then none else d.segments s) = some i at named
    split at named
    · cases named
    · exact owned.segment s i named
  | unlinkAttempt sequence fileInstance =>
    exact ⟨owned.segment, fun a mem => owned.attempt a (List.mem_of_mem_filter mem), owned.fresh⟩

/-- A program of a writer, with `J` of its own state and `V` of its value. -/
abbrev Foots {τ α : Type} (own : Nat → Prop) (J : τ → Prop) (x : Io τ α) (V : α → Prop) : Prop :=
  Keeps (Touches own) (Owned own) J x V

section Parts
variable {τ : Type} {J : τ → Prop} {env : Env} {ino : Nat}

/- Operations that no state matters for. -/
theorem footsEmit {ops : List Op} (meets : ∀ d, ∀ o ∈ ops, Touches own d o) : Foots own J (Act.emit ops : Io τ Unit) fun _ => True :=
  keepsEmit ownedApply fun d _ => meets d

theorem footsOne {o : Op} (meets : ∀ d, Touches own d o) : Foots own J (Act.emit [o] : Io τ Unit) fun _ => True := by
  refine footsEmit fun d o' mem => ?_
  rw [List.mem_singleton.mp mem]
  exact meets d

theorem footsStores (mine : own ino) (fields : List (Nat × List UInt8)) :
    Foots own J (Act.emit (stores ino fields) : Io τ Unit) fun _ => True := by
  refine footsEmit fun d o mem => ?_
  obtain ⟨f, _, rfl⟩ := List.mem_map.mp mem
  exact mine

theorem footsLook {α : Type} (f : Disk → α) : Foots own J (Act.look f : Io τ α) fun _ => True :=
  keepsLook fun _ _ => trivial

theorem footsThen {α β : Type} {x : Io τ α} {f : α → Io τ β} {W : β → Prop} (first : Foots own J x fun _ => True)
    (next : ∀ a, Foots own J (f a) W) : Foots own J (x >>= f) W :=
  keepsBind first fun a _ => next a

theorem footsIf {α : Type} {c : Prop} [Decidable c] {x y : Io τ α} {V : α → Prop} (yes : Foots own J x V) (no : Foots own J y V) :
    Foots own J (if c then x else y) V := by
  split
  · exact yes
  · exact no

theorem footsRefuse {α : Type} {bad : Prop} [Decidable bad] {e : IoError} {f : Unit → Io τ α} {V : α → Prop}
    (next : ¬ bad → Foots own J (f ()) V) : Foots own J (Act.refuseIf bad e >>= f) V :=
  keepsBind (keepsRefuse bad e) fun _ good => next good

theorem footsUnit : Foots own J (pure () : Io τ Unit) fun _ => True := keepsPure trivial

theorem setLenFoots (mine : own ino) (len : Nat) : Foots own J (setLen ino len : Io τ Unit) fun _ => True := by
  unfold setLen
  exact footsIf (footsOne fun _ => mine) (keepsFail _)

theorem createWritableFoots (mine : own ino) (base R : Nat) : Foots own J (createWritable env ino base R : Io τ Unit) fun _ => True := by
  unfold createWritable
  exact footsThen (keepsLift _) fun _ => footsThen (footsLook _) fun _ => footsIf (setLenFoots mine _) footsUnit

theorem setWakeFlagFoots (mine : own ino) (wake : Bool) : Foots own J (setWakeFlag ino wake : Io τ Unit) fun _ => True :=
  footsThen (footsLook _) fun _ => footsOne fun _ => mine

theorem wakeAllFoots (mine : own ino) : Foots own J (wakeAll ino : Io τ Unit) fun _ => True :=
  footsThen (footsLook _) fun _ => footsOne fun _ => mine

theorem initSegmentFoots (mine : own ino) (sequence regionSize initialLen mtu : Nat) (name : List UInt8) (base gen : Nat)
    (identity : Identity) : Foots own J (initSegment env ino sequence regionSize initialLen mtu name base gen identity : Io τ PreparedSegment)
      fun prepared => own prepared.ino := by
  unfold initSegment
  refine footsThen (setLenFoots mine _) fun _ => footsThen (createWritableFoots mine _ _) fun _ => footsThen (footsStores mine _) fun _ => ?_
  refine footsThen (createWritableFoots mine _ _) fun _ => footsRefuse fun _ => ?_
  exact footsThen (footsStores mine _) fun _ => footsThen (footsOne fun _ => mine) fun _ => keepsPure mine

/- The private name is new, so its file is the next inode. -/
theorem prepareFoots {sequence : Nat} (low : sequence < usize) (regionSize fileRollSize mtu : Nat) (name : List UInt8) (base gen : Nat)
    (identity : Identity) : Foots own J
      (prepareSegmentAt env sequence regionSize fileRollSize mtu name base gen identity : Io τ PreparedSegment)
      fun prepared => own prepared.ino := by
  unfold prepareSegmentAt
  refine footsThen (keepsLift _) fun initialLen t d owned mine => specLook (specRefuse ?_ fun free => specLook (specEmit ?_ ?_))
  · intro _
    refine ⟨owned, mine, ?_⟩
    rintro _ ⟨⟩
  · exact ⟨⟨low, Option.not_isSome_iff_eq_none.mp free⟩, trivial⟩
  · have made : Touches own d (.create sequence identity.fileInstance) := ⟨low, Option.not_isSome_iff_eq_none.mp free⟩
    refine keepsBind (keepsAttempt (initSegmentFoots (owned.fresh _ (Nat.le_refl _)) _ _ _ _ _ _ _ _)) (fun res value => ?_) t _
      (ownedApply d _ owned made) mine
    cases res with
    | ok prepared => exact keepsPure (value prepared rfl)
    | error e => exact footsThen (footsOne fun _ => low) fun _ => keepsFail e

theorem installFoots {sequence : Nat} (low : sequence < usize) (fileInstance : InstanceId) :
    Foots own J (installNoReplace sequence fileInstance : Io τ Bool) fun _ => True := by
  unfold installNoReplace
  refine footsThen (footsLook _) fun present => footsIf (keepsPure trivial) ?_
  exact footsThen (footsOne fun _ => low) fun _ => keepsPure trivial

end Parts

/-- The writer's file is its own and its sequence has a name. -/
def Holds (own : Nat → Prop) (w : Writer) : Prop := own w.ino ∧ w.fileSequence < usize

section Calls
variable {env : Env}

/- The writer as it is, and as it is changed in other fields. -/
theorem footsSelf {α : Type} {f : Writer → Self α} {V : α → Prop} (next : ∀ w, Holds own w → Foots own (Holds own) (f w) V) :
    Foots own (Holds own) (Act.self >>= f) V :=
  keepsBind keepsSelf next

theorem footsBecome {w w' : Writer} (held : Holds own w) (ino : w'.ino = w.ino) (sequence : w'.fileSequence = w.fileSequence) :
    Foots own (Holds own) (Act.become w' : Self Unit) fun _ => True :=
  keepsBecome ⟨ino ▸ held.1, sequence ▸ held.2⟩

theorem getBytesMutFoots (offset len : Nat) (what : String) :
    Foots own (Holds own) (getBytesMut offset len what) fun _ => True :=
  footsSelf fun _ _ => footsRefuse fun _ => keepsPure trivial

theorem clearPendingFoots : Foots own (Holds own) clearPending fun _ => True :=
  footsSelf fun _ held => footsBecome held rfl rfl

theorem storeWpLocalFoots (pos : Nat) : Foots own (Holds own) (storeWpLocal pos) fun _ => True :=
  footsSelf fun _ held => footsOne fun _ => held.1

theorem publishWpFoots (pos : Nat) : Foots own (Holds own) (publishWp pos) fun _ => True := by
  refine footsSelf fun w held => footsThen (footsLook _) fun _ => footsThen (footsOne fun _ => held.1) fun _ => ?_
  exact footsThen (footsOne fun _ => held.1) fun _ => footsIf (wakeAllFoots held.1) footsUnit

theorem adoptFoots (nextSeq gen : Nat) : Foots own (Holds own) (adoptSuccessor env nextSeq gen) fun p => own p.2.ino := by
  unfold adoptSuccessor
  refine footsSelf fun w held => keepsBind (keepsLook (V := fun found => ∀ i, found = some i → own i) ?_) fun found mine => ?_
  · intro d owned i named
    exact (owned.segment _ i named).2
  · cases found with
    | none => exact keepsFail _
    | some ino =>
      have mine := mine ino rfl
      refine footsThen (keepsLift _) fun len => footsThen (footsLook _) fun found => footsIf (keepsFail _) ?_
      refine footsThen (createWritableFoots mine _ _) fun _ => footsThen (footsLook _) fun m => footsThen (keepsLift _) fun _ => ?_
      refine footsThen (keepsLift _) fun identity => footsThen (keepsLift _) fun published => footsIf (keepsFail _) ?_
      refine footsIf (keepsFail _) (footsIf (keepsFail _) ?_)
      exact footsThen (createWritableFoots mine _ _) fun _ => footsThen (keepsLift _) fun _ => keepsPure mine

theorem prepareSuccessorFoots {nextSeq : Nat} (low : nextSeq < usize) (gen : Nat) :
    Foots own (Holds own) (prepareSuccessor env nextSeq gen) fun p => own p.2.ino := by
  unfold prepareSuccessor
  have adopt := @adoptFoots own env nextSeq gen
  refine footsSelf fun w _ => footsThen (footsLook _) fun present => footsIf adopt ?_
  refine footsThen (footsLook _) fun fileInstance => keepsBind (prepareFoots low _ _ _ _ _ _ _) fun segment mine => ?_
  refine footsThen (installFoots low _) fun installed => footsIf (keepsPure mine) ?_
  exact footsThen (footsOne fun _ => low) fun _ => adopt

theorem pruneFoots {sequence : Nat} (low : sequence < usize) : Foots own (Holds own) (prune sequence) fun _ => True :=
  footsOne fun _ => low

theorem rollFileFoots : Foots own (Holds own) (rollFile env) fun _ => True := by
  unfold rollFile
  refine footsThen clearPendingFoots fun _ => footsSelf fun w held => footsRefuse fun _ => ?_
  refine footsThen (footsLook _) fun oldBase => footsThen (footsLook _) fun oldCount => footsThen (footsLook _) fun gen => ?_
  refine footsRefuse fun last => ?_
  have low : w.fileSequence + 1 < usize := Nat.lt_of_not_le last
  refine keepsBind (prepareSuccessorFoots low gen) fun successor mine => footsThen (keepsLift _) fun edge => ?_
  refine footsThen (getBytesMutFoots _ _ _) fun roll => footsThen (footsOne fun _ => held.1) fun _ => ?_
  refine footsThen (footsStores held.1 _) fun _ => footsThen (footsOne fun _ => mine) fun _ => ?_
  refine footsThen (setWakeFlagFoots mine _) fun _ => footsThen (footsOne fun _ => mine) fun _ => ?_
  refine footsThen (footsOne fun _ => held.1) fun _ => footsThen (storeWpLocalFoots _) fun _ => ?_
  have leave : Foots own (Holds own) (Act.become { w with
      fileSequence := w.fileSequence + 1
      fileInstance := successor.1.fileInstance
      ino := successor.2.ino
      fileLen := successor.2.fileLen
      currentRegionIndex := 0
      nextHdrPos := successor.2.nextHdr
      pendingMsgSize := none }) fun _ => True := keepsBecome ⟨mine, low⟩
  refine footsIf (footsThen (wakeAllFoots held.1) fun _ => footsThen leave fun _ => ?_) (footsThen leave fun _ => ?_)
  all_goals
    cases w.config.keepFiles with
    | none => exact footsUnit
    | some n => exact footsIf (pruneFoots (by omega)) footsUnit

theorem ensureLenFoots (want : Nat) : Foots own (Holds own) (ensureLen want) fun _ => True :=
  footsSelf fun _ held => footsIf (footsThen (setLenFoots held.1 _) fun _ => footsBecome held rfl rfl) footsUnit

theorem regionAtFoots (index : Nat) : Foots own (Holds own) (regionAt env index) fun _ => True :=
  footsSelf fun _ held => footsThen (ensureLenFoots _) fun _ => createWritableFoots held.1 _ _

theorem switchRegionFoots (index : Nat) : Foots own (Holds own) (switchRegion index) fun _ => True :=
  footsSelf fun _ held => footsBecome held rfl rfl

theorem rollOverRegionFoots : Foots own (Holds own) (rollOverRegion env) fun _ => True := by
  unfold rollOverRegion
  refine footsThen clearPendingFoots fun _ => footsSelf fun w held => footsIf ?_ ?_
  · refine footsThen (regionAtFoots _) fun _ => footsRefuse fun _ => footsThen (footsStores held.1 _) fun _ => ?_
    refine footsThen (getBytesMutFoots _ _ _) fun skip => footsThen (footsStores held.1 _) fun _ => ?_
    refine footsThen (footsOne fun _ => held.1) fun _ => footsThen (switchRegionFoots _) fun _ => ?_
    exact footsSelf fun w held => footsThen (footsBecome held rfl rfl) fun _ => storeWpLocalFoots _
  · refine footsThen (regionAtFoots _) fun _ => footsThen (switchRegionFoots _) fun _ => footsIf ?_ ?_
    · refine footsThen (footsStores held.1 _) fun _ => ?_
      exact footsSelf fun w held => footsThen (footsBecome held rfl rfl) fun _ => storeWpLocalFoots _
    · exact footsSelf fun w held => footsThen (footsBecome held rfl rfl) fun _ => storeWpLocalFoots _

theorem reserveLoopFoots (msgSize recordWithPadding neededTotal rounds : Nat) :
    Foots own (Holds own) (reserveLoop env msgSize recordWithPadding neededTotal rounds) fun b => own b.ino := by
  induction rounds with
  | zero => exact keepsFail _
  | succ rounds ih =>
    refine footsSelf fun w held => footsIf (footsThen rollFileFoots fun _ => ih) (footsIf (footsThen rollOverRegionFoots fun _ => ih) ?_)
    refine footsThen (getBytesMutFoots _ _ _) fun next => footsThen (footsStores held.1 _) fun _ => ?_
    exact footsThen (footsBecome held rfl rfl) fun _ => footsThen (getBytesMutFoots _ _ _) fun payload => keepsPure held.1

theorem tryReserveFoots (msgSize : UInt64) : Foots own (Holds own) (tryReserve env msgSize) fun b => own b.ino := by
  unfold tryReserve
  refine footsSelf fun w held => footsRefuse fun _ => footsRefuse fun _ => footsRefuse fun _ => ?_
  exact reserveLoopFoots _ _ _ _

theorem commitFoots (msgType : UInt16) (length : UInt32) (userMetaU64 : UInt64) :
    Foots own (Holds own) (commit msgType length userMetaU64) fun _ => True := by
  unfold commit
  refine footsSelf fun w held => footsThen clearPendingFoots fun _ => ?_
  cases w.pendingMsgSize with
  | none => exact keepsFail _
  | some reserved =>
    refine footsRefuse fun _ => footsThen (getBytesMutFoots _ _ _) fun hdr => footsThen (footsStores held.1 _) fun _ => ?_
    refine footsIf (footsThen (getBytesMutFoots _ _ _) fun next => footsThen (footsStores held.1 _) fun _ => ?_) ?_
    all_goals
      refine footsThen (footsOne fun _ => held.1) fun _ => footsThen (footsBecome held rfl rfl) fun _ => ?_
      exact publishWpFoots _

end Calls
section Opening
variable {τ : Type} {J : τ → Prop} {env : Env} {ino : Nat}

/- The names it removes are those it saw, of the channel's own attempts. -/
theorem sweepFoots : Foots own J (sweepStaleAttempts : Io τ Unit) fun _ => True := by
  unfold sweepStaleAttempts
  intro t d owned mine
  refine specLook ?_
  have guar : Guar Disk.apply (Touches own) d (d.attempts.map fun a => .unlinkAttempt a.sequence a.fileInstance) := by
    refine guarEach (I := Owned own) ownedApply (fun d' _ o mem => ?_) owned
    obtain ⟨a, listed, rfl⟩ := List.mem_map.mp mem
    exact (owned.attempt a listed).1
  exact ⟨guar, guarKeeps ownedApply guar owned, mine, fun _ _ => trivial⟩

theorem discardFoots (rounds : Nat) : Foots own J (discardLoop rounds : Io τ Nat) fun sequence => sequence < usize := by
  induction rounds with
  | zero => exact keepsFail _
  | succ rounds ih =>
    refine footsThen (footsLook _) fun seq => footsIf (keepsPure (by decide)) ?_
    refine keepsBind (keepsLook (V := fun found => ∀ i, found = some i → seq < usize) ?_) fun found low => ?_
    · intro d owned i named
      exact (owned.segment seq i named).1
    · cases found with
      | none => exact ih
      | some ino =>
        have low := low ino rfl
        refine footsThen (footsLook _) fun len => footsIf (keepsPure low) ?_
        refine footsThen (footsLook _) fun m => footsThen (keepsLift _) fun _ => footsThen (keepsLift _) fun _ => ?_
        refine footsThen (keepsLift _) fun published => footsIf (keepsPure low) ?_
        exact footsThen (footsOne fun _ => low) fun _ => ih

theorem advanceFoots {regionSize : Nat} {o : Opened} (mine : own o.ino) (stale : MessageHeader) :
    Foots own J (advancePastOrphan env regionSize o stale : Io τ Opened) fun o' => own o'.ino := by
  unfold advancePastOrphan
  refine footsThen (keepsLift _) fun staleType => ?_
  cases staleType with
  | user =>
    refine footsRefuse fun _ => footsThen (footsLook _) fun advanced => footsThen (keepsLift _) fun _ => ?_
    exact keepsPure mine
  | skip =>
    refine footsRefuse fun _ => footsRefuse fun _ => footsThen (createWritableFoots mine _ _) fun _ => ?_
    exact footsThen (footsLook _) fun first => footsThen (keepsLift _) fun _ => keepsPure mine
  | roll => exact keepsFail _
  | channel => exact keepsFail _

theorem recoverFoots {regionSize : Nat} {o : Opened} (mine : own o.ino) (stale : MessageHeader) :
    Foots own J (recoverOrphan env regionSize o stale : Io τ Opened) fun o' => own o'.ino := by
  unfold recoverOrphan
  refine keepsBind (advanceFoots mine stale) fun o mine => footsThen (footsLook _) fun end' => ?_
  refine footsThen (keepsLift _) fun walked => footsRefuse fun _ => footsThen (createWritableFoots mine _ _) fun _ => ?_
  exact footsThen (footsOne fun _ => mine) fun _ => footsThen (footsOne fun _ => mine) fun _ => keepsPure mine

theorem resumeSlotFoots (mine : own ino) (regionSize initialLen : Nat) :
    Foots own J (resumeSlot env ino regionSize initialLen : Io τ Opened) fun o => own o.ino := by
  unfold resumeSlot
  refine footsThen (footsLook _) fun wpPayload => footsThen (footsLook _) fun len => ?_
  refine footsIf (footsThen (setLenFoots mine _) fun _ => ?_) ?_
  all_goals
    refine footsThen (createWritableFoots mine _ _) fun _ => footsThen (footsLook _) fun stale => ?_
    exact footsThen (keepsLift _) fun committed => footsIf (recoverFoots mine _) (keepsPure mine)

theorem resumeFileFoots (mine : own ino) (sequence regionSize fileRollSize : Nat) :
    Foots own J (resumeFile env ino sequence regionSize fileRollSize : Io τ Opened) fun o => own o.ino := by
  unfold resumeFile
  refine footsThen (keepsLift _) fun initialLen => footsThen (createWritableFoots mine _ _) fun _ => ?_
  refine footsThen (footsLook _) fun m => footsThen (keepsLift _) fun _ => footsThen (keepsLift _) fun _ => ?_
  refine footsThen (keepsLift _) fun published => footsIf (footsRefuse fun _ => ?_) (resumeSlotFoots mine _ _)
  exact footsThen (footsOne fun _ => mine) fun _ => resumeSlotFoots mine _ _

theorem createInitialFoots (cfg : Config) : Foots own J (createInitial env cfg : Io τ Opened) fun o => own o.ino := by
  have low : 0 < usize := by decide
  refine footsThen (footsLook _) fun present => footsIf (footsThen (footsOne fun _ => low) fun _ => ?_) ?_
  all_goals
    refine footsThen (footsLook _) fun fileInstance => keepsBind (prepareFoots low _ _ _ _ _ _ _) fun prepared mine => ?_
    refine footsThen (installFoots low _) fun installed => footsIf ?_ ?_
    · exact footsThen (footsOne fun _ => mine) fun _ => keepsPure mine
    · exact footsThen (footsOne fun _ => low) fun _ => keepsFail _

theorem openFileFoots (cfg : Config) (sequence : Nat) : Foots own J (openFile env cfg sequence : Io τ Opened) fun o => own o.ino := by
  unfold openFile
  refine keepsBind (keepsLook (V := fun found => ∀ i, found = some i → own i) ?_) fun found mine => ?_
  · intro d owned i named
    exact (owned.segment _ i named).2
  · cases found with
    | none => exact footsRefuse fun _ => createInitialFoots cfg
    | some ino =>
      refine footsThen (footsLook _) fun len => footsIf (resumeFileFoots (mine ino rfl) _ _ _) ?_
      exact footsRefuse fun _ => createInitialFoots cfg

theorem strandedFoots (sequence regionSize gen : Nat) (successor : Identity) (successorBase : Nat) :
    Foots own J (commitStrandedRoll env sequence regionSize gen successor successorBase : Io τ Unit) fun _ => True := by
  unfold commitStrandedRoll
  refine keepsBind (keepsLook (V := fun found => ∀ i, found = some i → own i) ?_) fun found mine => ?_
  · intro d owned i named
    exact (owned.segment _ i named).2
  · cases found with
    | none => exact footsUnit
    | some ino =>
      have mine := mine ino rfl
      refine footsThen (footsLook _) fun len => footsIf footsUnit ?_
      refine footsThen (createWritableFoots mine _ _) fun _ => footsThen (footsLook _) fun m => footsThen (keepsLift _) fun _ => ?_
      refine footsThen (keepsLift _) fun identity => footsThen (keepsLift _) fun published => ?_
      refine footsRefuse fun _ => footsRefuse fun _ => footsThen (footsLook _) fun count => footsRefuse fun _ => ?_
      refine footsThen (footsLook _) fun wp => footsThen (footsLook _) fun end' => footsThen (keepsLift _) fun walked => ?_
      dsimp only
      cases strandedShape wp walked with
      | none => exact keepsFail _
      | some shape =>
        obtain ⟨staged, behind⟩ := shape
        have finish : Foots own J (do
            if (← Act.look fun d => writePosition (d.data ino)) = walked.pos + headerSlot then
              Act.emit [.store ino 16 (toLE 8 (walked.pos + headerSlot + rollTotal))]
            wakeAll ino : Io τ Unit) fun _ => True := by
          refine footsThen (footsLook _) fun now => footsIf ?_ (wakeAllFoots mine)
          exact footsThen (footsOne fun _ => mine) fun _ => wakeAllFoots mine
        refine footsIf (footsThen (createWritableFoots mine _ _) fun _ => ?_) ?_
        all_goals
          refine footsThen (footsLook _) fun roll => footsThen (keepsLift _) fun rollType => footsRefuse fun _ => ?_
          refine footsThen (footsLook _) fun body => footsThen (keepsLift _) fun bytes => footsThen (keepsLift _) fun edge => ?_
          refine footsRefuse fun _ => footsIf footsUnit (footsIf (footsThen (footsOne fun _ => mine) fun _ => ?_) ?_)
          · exact finish
          · exact finish

theorem openOrCreateFoots (cfg : Config) : Foots own J (openOrCreate env cfg : Io τ Writer) (Holds own) := by
  unfold openOrCreate
  refine footsRefuse fun _ => footsRefuse fun _ => footsRefuse fun _ => footsRefuse fun _ => ?_
  refine keepsBind (footsThen (footsLook _) fun bound => discardFoots _) fun sequence low => ?_
  refine keepsBind (openFileFoots cfg sequence) fun o mine => footsThen (setWakeFlagFoots mine _) fun _ => ?_
  refine footsThen (footsLook _) fun m => footsThen (keepsLift _) fun identity => footsIf ?_ (keepsPure ⟨mine, low⟩)
  refine footsThen (footsLook _) fun gen => footsThen (footsLook _) fun base => ?_
  exact footsThen (strandedFoots _ _ _ _ _) fun _ => keepsPure ⟨mine, low⟩

theorem buildFoots (cfg : Config) : Foots own J (build env cfg : Io τ Writer) (Holds own) :=
  footsRefuse fun _ => footsThen sweepFoots fun _ => openOrCreateFoots cfg

end Opening

/-- The same for what the user of a writer holds. -/
def Grips (own : Nat → Prop) (s : Session) : Prop := Holds own s.writer ∧ ∀ b, s.buffer = some b → own b.ino

section Sessions
variable {env : Env}

theorem onWriterFoots {α : Type} {x : Self α} {V : α → Prop} (inside : Foots own (Holds own) x V) :
    Foots own (Grips own) (onWriter x) V :=
  keepsZoom inside (fun _ held => held.1) fun _ _ held grips => ⟨held, grips.2⟩

theorem releaseFoots : Foots own (Grips own) release fun _ => True :=
  keepsBind keepsSelf fun _ grips => keepsBecome ⟨grips.1, by rintro _ ⟨⟩⟩

theorem performFoots (c : Call) : Foots own (Grips own) (perform env c) fun _ => True := by
  cases c with
  | reserve msgSize =>
    refine footsThen releaseFoots fun _ => keepsBind (onWriterFoots (tryReserveFoots _)) fun b mine => ?_
    refine footsThen (footsLook _) fun bytes => keepsBind keepsSelf fun s grips => keepsBecome ⟨grips.1, ?_⟩
    rintro _ ⟨⟩
    exact mine
  | fill start bytes =>
    refine keepsBind keepsSelf fun s grips => ?_
    cases held : s.buffer with
    | none => exact footsUnit
    | some b =>
      refine footsRefuse fun _ => footsThen (footsOne fun _ => grips.2 b held) fun _ => keepsBecome ⟨grips.1, ?_⟩
      rintro _ ⟨⟩
      exact grips.2 b held
  | commit msgType length userMetaU64 =>
    refine footsThen releaseFoots fun _ => footsThen (onWriterFoots (commitFoots _ _ _)) fun _ => ?_
    exact keepsBind keepsSelf fun s grips => keepsBecome grips
  | rollFile => exact footsThen releaseFoots fun _ => onWriterFoots rollFileFoots

theorem serveFoots (calls : List Call) : Foots own (Grips own) (serve env calls) fun _ => True := by
  induction calls with
  | nil => exact footsUnit
  | cons c calls ih => exact keepsBind (keepsAttempt (performFoots c)) fun _ _ => ih

/- A session that may be killed. -/
theorem lifeFoots (l : Life) {d : Disk} (owned : Owned own d) : Guar Disk.apply (Touches own) d (l.ops env d) := by
  refine guarTake _ ?_
  obtain ⟨guar, owned, _, held⟩ := @buildFoots own Unit (fun _ => True) env l.config () d owned trivial
  unfold sessionOps
  simp only [Act.ops, Act.result, Act.disk] at guar owned held
  generalize (build env l.config : Io Unit Writer) () d = out at guar owned held
  obtain ⟨ops, r, _⟩ := out
  cases r with
  | error e => exact guar
  | ok w =>
    have grips : Grips own (.start w) := ⟨held w rfl, by rintro _ ⟨⟩⟩
    exact guarAppend.mpr ⟨guar, (serveFoots l.calls (.start w) _ owned grips).1⟩

end Sessions
end Xchannel.Footprints
