import Xchannel.ScanLaws
import Xchannel.OpenSpecs
import Xchannel.Sessions

/-! Readers on any bytes: the last region mapped stays that of the cursor, every load stays inside its
mapping, and a batch gives what single reads give, each under the exact condition. -/
namespace Xchannel.ReaderBounds
open ByteMemory Format Storage ChannelLog RecordChain Observation SegmentWalk WriterSpecs ReaderOpen ReaderCalls ReadPath CrashProgram
  ReadSpecs BatchSpecs ReadLaws OpenSpecs PartialRun ChainScan ScanSpecs SweepSpecs ScanLaws StoreRuns Sessions

section Opening
variable {τ : Type} {env : Env}

/-- A reader as every open returns it. -/
def Fresh (env : Env) (r : Reader) : Prop := Regions env r.regionSize ∧ Docked r.regionSize r.generation r

theorem pagedRegions {R : Nat} (positive : 0 < R) (paged : R % env.page = 0) (small : R < 2 ^ 32) : Regions env R := by
  have page := pageRegions env
  have large : 264 ≤ env.page := page.large
  have divides : env.page ∣ R := Nat.dvd_of_mod_eq_zero paged
  have le := Nat.le_of_dvd positive divides
  exact ⟨⟨by omega, small, page.aligned.trans divides⟩, paged⟩

theorem alignmentOk {base R : Nat} (ok : checkAlignment env base R = .ok ()) : 0 < R ∧ R % env.page = 0 := by
  simp only [checkAlignment, bind, Except.bind, pure, Except.pure, throw, throwThe, MonadExceptOf.throw] at ok
  rw [refusedOk, refusedOk, refusedOk] at ok
  exact ⟨Nat.pos_of_ne_zero ok.1, not_not.mp ok.2.1⟩

theorem createYields (base R : Nat) :
    Yields (fun _ => 0 < R ∧ R % env.page = 0) (createReadOnly env base R : Static Disk τ IoError Unit) := by
  intro d t a t' run
  cases ok : checkAlignment env base R with
  | ok _ => exact alignmentOk ok
  | error e =>
    unfold createReadOnly at run
    rw [ok] at run
    cases run

theorem segmentYields (spins s i : Nat) (start : SegmentStart) :
    Yields (Fresh env) (fromSegment env spins s i start : Static Disk τ IoError Reader) := by
  unfold fromSegment
  refine yieldsBind fun _ => yieldsBind fun _ => yieldsBind fun _ => yieldsBind fun _ => yieldsSeq (yieldsLook _) ?_
  rintro R ⟨m, same⟩
  have small : R < 2 ^ 32 := by
    rw [same]
    exact readLELt _ _ _
  refine yieldsBind fun identity => yieldsBind fun _ => yieldsBind fun _ => yieldsBind fun _ => yieldsBind fun starts => ?_
  refine yieldsBind fun base => yieldsBind fun gen => yieldsBind fun _ => yieldsSeq (createYields _ _) ?_
  rintro _ ⟨positive, paged⟩
  exact yieldsPure ⟨pagedRegions positive paged small, rfl, rfl, rfl, rfl⟩

theorem liveYields (spins retries : Nat) : Yields (Fresh env) (openLive env spins retries : Static Disk τ IoError Reader) := by
  induction retries with
  | zero => exact yieldsFail
  | succ retries ih =>
    unfold openLive
    refine yieldsBind fun seq => yieldsBind fun present => ?_
    cases present with
    | none => exact ih
    | some i =>
      refine yieldsSeq (yieldsAttempt (segmentYields spins seq i .head)) fun opened fresh => ?_
      rcases opened with e | r
      · cases e with
        | staleSegment => exact ih
        | _ => exact yieldsFail
      · exact yieldsPure (fresh r rfl)

theorem lateJoinYields (retries : Nat) : Yields (Fresh env) (openLateJoin env retries : Static Disk τ IoError Reader) := by
  induction retries with
  | zero => exact yieldsFail
  | succ retries ih =>
    unfold openLateJoin
    refine yieldsBind fun seq => yieldsBind fun present => ?_
    cases present with
    | none => exact ih
    | some i => exact segmentYields 0 seq i .beginning

def FreshIf (env : Env) (found : Option Reader) : Prop := ∀ r, found = some r → Fresh env r

/- The end of `locate`, once its earliest segment is known. -/
def locateNewest {m : Type → Type} {τ : Type} [Observe Disk τ IoError m] (env : Env) (index first last : Nat) (seqs : List Nat)
    (earliest : SegmentHeader) : m (Option Reader) := do
  match ← probe env last with
  | none => return none
  | some (_, latest) =>
    let head := (latest.baseRecordIndex + latest.messageCount) % usize
    refuseIf (head < index)
      (.text .invalidInput s!"record {index} is past the channel head {head}")
    match ← searchLoop env seqs index seqs.length 0 (seqs.length - 1) with
    | none => return none
    | some lo => locateIn env index first earliest.generation (seqs.getD lo 0)

theorem locateYields (index : Nat) (expected : Option Nat) :
    Yields (FreshIf env) (locate env index expected : Static Disk τ IoError (Option Reader)) := by
  have missing : Yields (FreshIf env) (pure none : Static Disk τ IoError (Option Reader)) := yieldsPure (by rintro r ⟨⟩)
  have located (first gen seq : Nat) :
      Yields (FreshIf env) (locateIn env index first gen seq : Static Disk τ IoError (Option Reader)) := by
    unfold locateIn
    refine yieldsBind fun probed => ?_
    cases probed with
    | none => exact missing
    | some found =>
      obtain ⟨i, header⟩ := found
      refine yieldsBind fun _ => yieldsBind fun walked => yieldsBind fun _ =>
        yieldsSeq (segmentYields 0 seq i (.at walked.pos index)) fun r fresh => yieldsPure ?_
      rintro _ ⟨⟩
      exact fresh
  unfold locate
  refine yieldsBind fun listed => yieldsBind fun seqs => ?_
  dsimp only
  cases seqs.reverse.head? with
  | none => exact yieldsFail
  | some first =>
  cases seqs.reverse.getLast? with
  | none => exact yieldsFail
  | some last =>
  refine yieldsBind fun probed => ?_
  cases probed with
  | none => exact missing
  | some earliest =>
  dsimp only
  have searched : Yields (FreshIf env) (locateNewest env index first last seqs.reverse earliest.2 :
      Static Disk τ IoError (Option Reader)) := by
    refine yieldsBind fun probed => ?_
    cases probed with
    | none => exact missing
    | some latest =>
      refine yieldsBind fun _ => yieldsBind fun lo => ?_
      cases lo with
      | none => exact missing
      | some lo => exact located _ _ _
  cases expected with
  | none => exact yieldsBind fun _ => searched
  | some expected => exact yieldsBind fun _ => yieldsBind fun _ => searched

theorem atYields (index : Nat) (expected : Option Nat) (retries : Nat) :
    Yields (Fresh env) (openAt env index expected retries : Static Disk τ IoError Reader) := by
  induction retries with
  | zero => exact yieldsFail
  | succ retries ih =>
    unfold openAt
    refine yieldsSeq (locateYields index expected) fun found fresh => ?_
    cases found with
    | none => exact ih
    | some r => exact yieldsPure (fresh r rfl)

theorem openYields (spins : Nat) (mode : ReaderMode) (expected : Option Nat) :
    Yields (Fresh env) (openWith env spins mode expected : Static Disk τ IoError Reader) := by
  have moded : Yields (Fresh env) (openMode env spins expected mode : Static Disk τ IoError Reader) := by
    cases mode with
    | live => exact liveYields spins _
    | lateJoin => exact lateJoinYields _
    | «at» index => exact atYields index.toNat expected _
  unfold openWith
  refine yieldsSeq moded fun r fresh => ?_
  cases expected with
  | none => exact yieldsPure fresh
  | some expected => exact yieldsBind fun _ => yieldsPure fresh

theorem openedFresh {d : Disk} {spins : Nat} {mode : ReaderMode} {r : Reader} (opens : opened env spins mode d = .ok r) :
    Fresh env r :=
  openYields spins mode none d () r _ (Prod.ext opens rfl)

end Opening

section Walks

/- `walk_segment_from` with each load of a header held to the region mapped and to the file. -/
def guardedLoop {m : Type → Type} {τ : Type} [Observe Disk τ IoError m] (env : Env) (ino regionSize fileLen : Nat)
    (stop : Nat → HeaderType → Nat → Bool) : Nat → Option Nat → Nat → Nat → m WalkEnd
  | 0, _, _, _ => Observe.fail (.panicked "segment walk does not end")
  | fuel+1, mapped, pos, users => do
    divisor regionSize
    let regionIdx := pos / regionSize
    if fileLen < (regionIdx + 1) * regionSize then
      return ⟨pos, users, .endOfFile⟩
    if mapped ≠ some regionIdx then
      createReadOnly env (regionIdx * regionSize) regionSize
    let off := pos % regionSize
    let leftover := regionSize - off
    refuseIf (leftover < headerSlot)
      (errInvalidData "segment walk landed in a region's tail hole")
    let committed ← lift (← Observe.look fun d =>
      if headerMapped env regionSize d ⟨0, regionIdx, ino⟩ off then (MessageHeader.read (d.data ino) pos).isCommitted
      else .error faulted)
    if ¬ committed then
      return ⟨pos, users, .uncommitted⟩
    let mh ← lift (← Observe.look fun d =>
      if headerMapped env regionSize d ⟨0, regionIdx, ino⟩ off then .ok (MessageHeader.read (d.data ino) pos)
      else .error faulted)
    let headerType ← lift mh.parsedHeaderType
    if stop pos headerType users then
      return ⟨pos, users, .visitor⟩
    if headerType = .roll then
      refuseIf (mh.length.toNat ≠ rollPayload ∨ regionSize < off + rollTotal)
        (errInvalidData
          s!"segment walk: Roll at {pos} has a {mh.length}-byte body, not 40")
      return ⟨pos, users, .roll⟩
    let totalLen := headerSlot + mh.length.toNat
    refuseIf (leftover < totalLen)
      (errInvalidData "segment walk: record extends past its region")
    guardedLoop env ino regionSize fileLen stop fuel (some regionIdx) (alignUp (pos + totalLen))
      (if headerType = .user then users + 1 else users)

variable {τ : Type} {env : Env} {R ino : Nat} {d : Disk} {t : τ} {faults : Nat → Option IoError} {n : Nat}
  {stop : Nat → HeaderType → Nat → Bool}

/- A slot with room for its header, in a region the file has, is mapped. -/
theorem insideMapped {pos : Nat} (room : ¬ R - pos % R < headerSlot) (inside : ¬ d.len ino < (pos / R + 1) * R) :
    headerMapped env R d ⟨0, pos / R, ino⟩ (pos % R) := by
  have fits : pos % R + 16 ≤ R := by
    have : ¬ R - pos % R < 16 := room
    omega
  have start : (pos / R + 1) * R = pos / R * R + R := by ring
  have rounded : d.len ino ≤ (d.len ino + env.page - 1) / env.page * env.page := by
    have page := pagePositive env
    have := Nat.lt_div_mul_add (a := d.len ino + env.page - 1) page
    omega
  unfold headerMapped
  simp only [Bool.decide_and, Bool.and_eq_true, decide_eq_true_eq]
  exact ⟨fits, by show _ + 16 ≤ _; omega⟩

theorem bindSame {α β : Type} {x : Trial Disk τ IoError α} {f g : α → Trial Disk τ IoError β}
    (same : ∀ a t n, f a d faults t n = g a d faults t n) : (x >>= f) d faults t n = (x >>= g) d faults t n := by
  show Trial.andThen x f d faults t n = Trial.andThen x g d faults t n
  unfold Trial.andThen
  rcases x d faults t n with ⟨_ | a, t', n'⟩
  · rfl
  · exact same a t' n'

/- The walk never loads a header outside its region or past the file. -/
theorem guardedSame (fuel : Nat) (mapped : Option Nat) (pos users : Nat) :
    (walkLoop env ino R (d.len ino) stop fuel mapped pos users : Trial Disk τ IoError WalkEnd) d faults t n =
      (guardedLoop env ino R (d.len ino) stop fuel mapped pos users : Trial Disk τ IoError WalkEnd) d faults t n := by
  induction fuel generalizing mapped pos users t n with
  | zero => rfl
  | succ fuel ih =>
    unfold walkLoop guardedLoop
    refine bindSame fun _ t n => ?_
    dsimp only
    by_cases short : d.len ino < (pos / R + 1) * R
    · rw [if_pos short, if_pos short]
    rw [if_neg short, if_neg short]
    by_cases new : mapped ≠ some (pos / R)
    on_goal 1 =>
      rw [if_pos new, if_pos new]
      refine bindSame fun _ t n => ?_
    on_goal 2 => rw [if_neg new, if_neg new]
    all_goals
      by_cases hole : R - pos % R < headerSlot
      · rw [refuseIf, if_pos hole]
        rfl
      have inside : headerMapped env R d ⟨0, pos / R, ino⟩ (pos % R) := insideMapped hole short
      rw [Trial.refuseRun _ _ _ _ hole, Trial.refuseRun _ _ _ _ hole, Trial.lookRun, Trial.lookRun, if_pos inside]
      refine bindSame fun committed t n => ?_
      split
      · rfl
      rw [Trial.lookRun, Trial.lookRun, if_pos inside, Trial.liftOkRun]
      refine bindSame fun kind t n => ?_
      split
      · rfl
      split
      · rfl
      exact bindSame fun _ t n => ih _ _ _

/- Nothing but a refusal of the system or an error of the format. -/
def Tidy (faults : Nat → Option IoError) (n : Nat) (res : Except IoError WalkEnd) (_ : Reader) (n' : Nat) : Prop :=
  ∀ e, res = .error e → Trial.Refused faults n n' e ∨ Plain e

theorem Tidy.later {r : Reader} {n₁ n₂ : Nat} {res : Except IoError WalkEnd} (tidy : Tidy faults n₁ res r n₂) (later : n ≤ n₁) :
    Tidy faults n res r n₂ :=
  fun e failed => (tidy e failed).imp_left fun refused => refused.widen later (Nat.le_refl _)

theorem tidyEnd {r : Reader} {n' : Nat} (w : WalkEnd) : Tidy faults n (.ok w) r n' := by
  rintro e ⟨⟩

theorem tidyFail {r : Reader} {e : IoError} (plain : Plain e) :
    Trial.Spec d faults r n (Observe.fail e : Trial Disk Reader IoError WalkEnd) (Tidy faults n) := by
  refine Trial.specFail ?_
  rintro _ ⟨⟩
  exact .inr plain

/- It ends, and with a plain error if with any: no record takes less than a header. -/
theorem walkEnds (regions : Regions env R) (sized : Sized d) (fuel : Nat) (mapped : Option Nat) {pos : Nat} (users : Nat)
    (enough : d.len ino ≤ fuel + pos) {r : Reader} :
    Trial.Spec d faults r n (walkLoop env ino R (d.len ino) stop (fuel + 1) mapped pos users) (Tidy faults n) := by
  have large := regions.large
  induction fuel generalizing mapped pos users n with
  | zero =>
    have split := slotSplit R pos
    have below := Nat.mod_lt pos (show 0 < R by omega)
    have expand : (pos / R + 1) * R = pos / R * R + R := by ring
    unfold walkLoop divisor
    refine Trial.specRefuse (by omega) ?_
    dsimp only
    rw [if_pos (by omega)]
    exact Trial.specRet (tidyEnd _)
  | succ fuel ih =>
    unfold walkLoop divisor
    refine Trial.specRefuse (by omega) ?_
    dsimp only
    by_cases short : d.len ino < (pos / R + 1) * R
    · rw [if_pos short]
      exact Trial.specRet (tidyEnd _)
    rw [if_neg short]
    by_cases new : mapped ≠ some (pos / R)
    on_goal 1 =>
      rw [if_pos new]
      refine createSpec regions (regionBase regions _) (Trial.specMono (P := Tidy faults (n + 1)) ?_
        fun _ _ _ _ tidy => tidy.later (Nat.le_succ n)) fun e refused => ?_
      on_goal 2 =>
        rintro _ ⟨⟩
        exact .inl refused
    on_goal 2 => rw [if_neg new]
    all_goals
      by_cases hole : R - pos % R < headerSlot
      · rw [refuseIf, if_pos hole]
        exact tidyFail trivial
      refine Trial.specRefuse hole (Trial.specLook ?_)
      cases flag : (MessageHeader.read (d.data ino) pos).isCommitted with
      | error e => exact tidyFail (committedPlain _ _ flag)
      | ok committed =>
      refine Trial.specLiftOk ?_
      split
      · exact Trial.specRet (tidyEnd _)
      refine Trial.specLook ?_
      cases kind : (MessageHeader.read (d.data ino) pos).parsedHeaderType with
      | error e => exact tidyFail (kindPlain _ _ kind)
      | ok kind =>
      refine Trial.specLiftOk ?_
      split
      · exact Trial.specRet (tidyEnd _)
      split
      · by_cases bad : (MessageHeader.read (d.data ino) pos).length.toNat ≠ rollPayload ∨ R < pos % R + rollTotal
        · rw [refuseIf, if_pos bad]
          exact tidyFail trivial
        · exact Trial.specRefuse bad (Trial.specRet (tidyEnd _))
      by_cases crosses : R - pos % R < headerSlot + (MessageHeader.read (d.data ino) pos).length.toNat
      · rw [refuseIf, if_pos crosses]
        exact tidyFail trivial
      refine Trial.specRefuse crosses (ih _ _ ?_)
      have crosses : ¬ R - pos % R < 16 + (MessageHeader.read (d.data ino) pos).length.toNat := crosses
      have below := Nat.mod_lt pos (show 0 < R by omega)
      have small : pos + R + 8 < 2 ^ 64 := @mappedSmall env R d ⟨0, ino, 0, pos⟩ regions sized (insideMapped hole short)
      have fits : pos % R + (16 + (MessageHeader.read (d.data ino) pos).length.toNat) ≤ R := by omega
      have beyond := (spans regions fits small).gt
      show d.len ino ≤ fuel + alignUp (pos + (16 + _))
      omega

/- Every walk of a segment, from any start and for any visitor. -/
theorem walkInside (regions : Regions env R) (sized : Sized d) (faults : Nat → Option IoError) (n ino start : Nat) (stop : Nat → HeaderType → Nat → Bool)
    (r : Reader) :
    (walkSegmentFrom env ino R start stop : Trial Disk Reader IoError WalkEnd) d faults r n =
        (guardedLoop env ino R (d.len ino) stop (d.len ino + 1) none start 0 : Trial Disk Reader IoError WalkEnd) d faults r n ∧
      Trial.Spec d faults r n (walkSegmentFrom env ino R start stop) (Tidy faults n) :=
  ⟨guardedSame _ _ _ _, walkEnds regions sized _ _ _ (Nat.le_add_right _ _)⟩

end Walks

section Runs
variable {env : Env} {R gen fuel : Nat} {d : Disk} {r : Reader} {faults : Nat → Option IoError} {n : Nat}

/-- Before each call of a conversation, `ok` holds of the reader and the call. -/
def EachCall (env : Env) (fuel : Nat) (d : Disk) (faults : Nat → Option IoError) (ok : Reader → ReadCall → Prop) :
    List ReadCall → Reader → Nat → Prop
  | [], _, _ => True
  | c :: calls, r, n =>
    let (_, r', n') := (ask env fuel c : Trial Disk Reader IoError Reply) d faults r n
    ok r c ∧ EachCall env fuel d faults ok calls r' n'

/- In a run whose batches stop inside a region, every call starts from a reader that is docked. -/
theorem converseRaw (regions : Regions env R) (sized : Sized d) (docked : Docked R gen r)
    {ok : Reader → ReadCall → Prop} (inside : ∀ r c, ok r c → StopsInside env R gen d r c) {calls : List ReadCall}
    (each : EachCall env fuel d faults ok calls r n) :
    Trial.Spec d faults r n (converse env fuel calls) fun res r' _ => Docked R gen r' ∧ ∃ replies, res = .ok replies ∧
      ∀ reply ∈ replies, ∃ r c n r' n', ok r c ∧ Replied env R gen d faults fuel n r c reply r' n' := by
  induction calls generalizing r n with
  | nil => exact Trial.specRet ⟨docked, [], rfl, (by intros; contradiction)⟩
  | cons c calls ih =>
    unfold EachCall at each
    unfold converse
    have replied : Trial.Spec d faults r n (ask env fuel c) (Replied env R gen d faults fuel n r c) :=
      askRaw regions sized docked c
    generalize run : (ask env fuel c : Trial Disk Reader IoError Reply) d faults r n = out at each
    obtain ⟨res, r', n'⟩ := out
    obtain ⟨good, rest⟩ := each
    unfold Trial.Spec at replied
    rw [run] at replied
    obtain ⟨later, replied⟩ := replied
    refine Trial.specAttempt (P := fun res₁ r₁ n₁ => res₁ = res ∧ r₁ = r' ∧ n₁ = n') ⟨?_, ?_⟩ ?_
    · rw [run]
      exact later
    · rw [run]
      exact ⟨rfl, rfl, rfl⟩
    rintro _ _ _ _ ⟨rfl, rfl, rfl⟩
    refine Trial.specSeq (ih (replied.docked (inside r c good)) rest) ?_ ?_
    · rintro replies r2 n2 _ ⟨docked', _, same, others⟩
      obtain rfl := Except.ok.inj same
      refine Trial.specRet ⟨docked', _ :: replies, rfl, ?_⟩
      rintro reply (_ | ⟨_, mem⟩)
      · exact ⟨r, c, n, _, _, good, replied⟩
      · exact others reply mem
    · rintro e r2 n2 _ ⟨_, _, bad, _⟩
      cases bad

/-- The panics of `prune_to_current`. -/
def Unmoored (e : IoError) : Prop :=
  e = .panicked "no current map" ∨ e = .panicked "current map does not match reader position"

/-- The system refuses calls with errors of its own. -/
def Honest (faults : Nat → Option IoError) : Prop := ∀ k e, faults k = some e → Plain e

/- After each call, whatever it returned, as long as no batch is full with a record that ends its region. -/
theorem cursorStaysMapped (env : Env) (d : Disk) (sized : Sized d) (faults : Nat → Option IoError) (honest : Honest faults)
    (spins : Nat) (mode : ReaderMode) (r : Reader) (opens : opened env spins mode d = .ok r) (fuel : Nat)
    (calls : List ReadCall)
    (inside : EachCall env fuel d faults (StopsInside env r.regionSize r.generation d) calls r 0) :
    ∃ replies r' n, (converse env fuel calls : Trial Disk Reader IoError (List (Except IoError Reply))) d faults r 0 =
        (.ok replies, r', n) ∧
      r'.maps.getLast? = some ⟨r'.fileSequence, r'.readPosition / r'.regionSize, r'.ino⟩ ∧
      ∀ reply ∈ replies, ∀ e, failureOf reply = some e → ¬ Unmoored e := by
  obtain ⟨regions, docked⟩ := openedFresh opens
  obtain ⟨_, docked', replies, same, each⟩ := converseRaw regions sized docked (fun _ _ => id) inside
  refine ⟨replies, _, _, Prod.ext same rfl, ?_, ?_⟩
  · rw [docked'.region]
    exact docked'.map
  · intro reply mem e failure unmoored
    obtain ⟨_, _, _, _, _, _, replied⟩ := each reply mem
    rcases replied.failed e failure with ⟨k, _, _, refused⟩ | ⟨rfl, _⟩ | plain | ⟨rfl, _⟩
    · have plain := honest k e refused
      rcases unmoored with rfl | rfl <;> exact plain
    · rcases unmoored with bad | bad <;> exact absurd bad (by decide)
    · rcases unmoored with rfl | rfl <;> exact plain
    · rcases unmoored with bad | bad <;> exact absurd bad (by decide)

/- A new channel of one 4 KiB region, with a `User` record of so many bytes at its first slot and what
else is stored behind it. -/
def planted (length : Nat) (more : List (Nat × List UInt8)) : List Op :=
  timeline smallEnv Disk.empty [⟨smallConfig, smallFormed, [], 1000⟩] ++
    ((firstRecord, [1, 1, 0, 0] ++ toLE 4 length) :: more).map fun s => .store 0 s.1 s.2

def plantedDisk (length : Nat) (more : List (Nat × List UInt8)) : Disk := run Disk.apply Disk.empty (planted length more)

def fitting : Op → Bool
  | .setLen _ len => len ≤ WriterCalls.maxFileLen
  | _ => true

theorem sizedSet {ino : Nat} {f : File} (fits : f.len ≤ WriterCalls.maxFileLen) (sized : Sized d) : Sized (d.setFile ino f) := by
  intro i
  have old := sized i
  unfold Disk.setFile Disk.len
  dsimp only
  split
  · exact fits
  · exact old

theorem sizedApply {o : Op} (fits : fitting o) (sized : Sized d) : Sized (d.apply o) := by
  cases o with
  | store ino off bytes => exact sizedSet (sized ino) sized
  | commit ino off => exact sizedSet (sized ino) sized
  | publish ino => exact sizedSet (f := { d.files ino with data := write (d.data ino) 192 [1] }) (sized ino) sized
  | setLen ino len => exact sizedSet (of_decide_eq_true fits) sized
  | create s inst => exact sizedSet (f := ⟨0, fun _ => 0⟩) (Nat.zero_le _) sized
  | install s inst =>
    unfold Disk.apply
    dsimp only
    split
    · exact sized
    · exact sized
  | unlink s => exact sized
  | unlinkAttempt s inst => exact sized

theorem sizedRun {ops : List Op} (fits : ops.all fitting) (sized : Sized d) : Sized (run Disk.apply d ops) := by
  induction ops generalizing d with
  | nil => exact sized
  | cons o ops ih =>
    rw [List.all_cons, Bool.and_eq_true] at fits
    exact ih fits.2 (sizedApply fits.1 sized)

theorem plantedSized (length : Nat) (more : List (Nat × List UInt8)) : Sized (plantedDisk length more) := by
  refine sizedRun ?_ fun i => Nat.zero_le _
  rw [planted, List.all_append, List.all_map]
  simp only [Bool.and_eq_true, List.all_eq_true]
  exact ⟨by decide +kernel, fun _ _ => rfl⟩

/- A late joiner of such a channel. -/
def smallReader : Reader :=
  ⟨0, 0, 0, 0, 4096, 0, 0, none, [], [], [⟨0, 0, 0⟩], 0, 1, false, none⟩

theorem plantedOpens : opened smallEnv 0 .lateJoin (plantedDisk 16 []) = .ok smallReader := by
  decide +kernel

/- The way over the one record. -/
theorem plantedRuns {hops : List Hop} {pl : Place}
    (run : Run (hop smallEnv 4096 0 (plantedDisk 16 [])) (place smallReader) hops pl) :
    (∀ h ∈ hops, h.crosses = false) ∧ crossed hops = 0 ∧ ∃ s, pl = ⟨0, 0, 1, s⟩ ∧ s ∈ [0, 208, 240] := by
  have first : hop smallEnv 4096 0 (plantedDisk 16 []) (place smallReader) = some (.service false, ⟨0, 0, 1, 208⟩) := by
    decide +kernel
  have second : hop smallEnv 4096 0 (plantedDisk 16 []) ⟨0, 0, 1, 208⟩ = some (.user 0 208 false, ⟨0, 0, 1, 240⟩) := by
    decide +kernel
  have last : hop smallEnv 4096 0 (plantedDisk 16 []) ⟨0, 0, 1, 240⟩ = none := by decide +kernel
  cases run with
  | here => exact ⟨by simp, rfl, 0, rfl, by decide⟩
  | next one rest =>
    cases first.symm.trans one
    cases rest with
    | here => exact ⟨by simp [Hop.crosses], rfl, 208, rfl, by decide⟩
    | next two rest =>
      cases second.symm.trans two
      obtain ⟨rfl, rfl⟩ := rest.stuck last
      exact ⟨by simp [Hop.crosses], rfl, 240, rfl, by decide⟩

theorem plantedInside (c : ReadCall) : StopsInside smallEnv 4096 0 (plantedDisk 16 []) smallReader c := by
  cases c with
  | tryReadBatch max =>
    rintro ⟨before, i, slot, next, run, _⟩
    exact absurd ((plantedRuns run).1 (.user i slot true) (by simp)) (by simp [Hop.crosses])
  | _ => trivial

theorem eachPair {ok : Reader → ReadCall → Prop} {c c' : ReadCall} (first : ok r c) (second : ∀ r, ok r c') :
    EachCall env fuel d faults ok [c, c'] r n :=
  ⟨first, second _, trivial⟩

theorem cursorStaysMappedSmall : ∃ replies r' n, (converse smallEnv 10 [.tryReadBatch (some 2), .tryRead] :
      Trial Disk Reader IoError (List (Except IoError Reply))) (plantedDisk 16 []) (fun _ => none) smallReader 0 =
        (.ok replies, r', n) ∧
    r'.maps.getLast? = some ⟨r'.fileSequence, r'.readPosition / r'.regionSize, r'.ino⟩ ∧
    ∀ reply ∈ replies, ∀ e, failureOf reply = some e → ¬ Unmoored e := by
  have inside := plantedInside (.tryReadBatch (some 2))
  have opens := plantedOpens
  have sized := plantedSized 16 []
  generalize plantedDisk 16 [] = d at *
  exact cursorStaysMapped smallEnv d sized (fun _ => none) (by rintro k e ⟨⟩) 0 .lateJoin smallReader
    opens 10 [.tryReadBatch (some 2), .tryRead] (eachPair inside fun _ => trivial)

/- What a late joiner comes to in a conversation: where it stands, and the failures. -/
def comesTo (d : Disk) (calls : List ReadCall) : Except IoError (List (Option IoError) × List MappedRegion × Nat) := do
  let r ← opened smallEnv 0 .lateJoin d
  let (res, r', _) := (converse smallEnv 10 calls : Trial Disk Reader IoError (List (Except IoError Reply))) d (fun _ => none) r 0
  return ((← res).map failureOf, r'.maps, r'.readPosition)

/- A record that ends its region fills a batch of one: the cursor is left in a region that is not mapped, and
the next read panics. -/
theorem fullBatchUnmoors :
    comesTo (plantedDisk 3872 []) [.tryReadBatch (some 1)] = .ok ([none], [⟨0, 0, 0⟩], 4096) ∧
    comesTo (plantedDisk 3872 []) [.tryReadBatch (some 1), .tryRead] =
      .ok ([none, some (.panicked "current map does not match reader position")], [⟨0, 0, 0⟩], 4096) := by
  decide +kernel

/-- A reply without a panic, a fault or a payload outside its region. -/
structure Contained (R : Nat) (reply : Except IoError Reply) : Prop where
  failed : ∀ e, failureOf reply = some e → Plain e
  within : ∀ msg ∈ deliveredOf reply, Within R msg

/- A call whose batch stops inside a region and whose headers are all mapped. -/
def Guarded (env : Env) (R gen : Nat) (d : Disk) (r : Reader) (c : ReadCall) : Prop :=
  StopsInside env R gen d r c ∧ ¬ Exposes env R gen d r c

/- In every run whose calls meet the condition, each one ends without a load outside its mapping. A walk
does so from any start. -/
theorem scansStayInside (env : Env) (d : Disk) (sized : Sized d) (faults : Nat → Option IoError) (honest : Honest faults)
    (spins : Nat) (mode : ReaderMode) (r : Reader) (opens : opened env spins mode d = .ok r) (fuel : Nat)
    (enough : mostRounds ≤ fuel) (calls : List ReadCall)
    (guarded : EachCall env fuel d faults (Guarded env r.regionSize r.generation d) calls r 0) :
    (∃ replies r' n, (converse env fuel calls : Trial Disk Reader IoError (List (Except IoError Reply))) d faults r 0 =
        (.ok replies, r', n) ∧ ∀ reply ∈ replies, Contained r.regionSize reply) ∧
      ∀ ino start stop n,
        (walkSegmentFrom env ino r.regionSize start stop : Trial Disk Reader IoError WalkEnd) d faults r n =
          (guardedLoop env ino r.regionSize (d.len ino) stop (d.len ino + 1) none start 0 :
            Trial Disk Reader IoError WalkEnd) d faults r n ∧
        ∀ e, ((walkSegmentFrom env ino r.regionSize start stop : Trial Disk Reader IoError WalkEnd) d faults r n).1 =
          .error e → Plain e := by
  obtain ⟨regions, docked⟩ := openedFresh opens
  refine ⟨?_, fun ino start stop n => ?_⟩
  · obtain ⟨_, docked', replies, same, each⟩ := converseRaw regions sized docked (fun _ _ ok => ok.1) guarded
    refine ⟨replies, _, _, Prod.ext same rfl, fun reply mem => ?_⟩
    obtain ⟨r₁, c, _, _, _, ok, replied⟩ := each reply mem
    refine ⟨fun e failure => ?_, replied.within⟩
    rcases replied.failed e failure with ⟨k, _, _, refused⟩ | ⟨_, short⟩ | plain | ⟨_, exposed⟩
    · exact honest k e refused
    · omega
    · exact plain
    · exact absurd exposed ok.2
  · obtain ⟨same, _, tidy⟩ := walkInside regions sized faults n ino start stop r
    refine ⟨same, fun e failed => ?_⟩
    rcases tidy e failed with ⟨k, _, _, refused⟩ | plain
    · exact honest k e refused
    · exact plain

theorem plantedGuarded (c : ReadCall) : Guarded smallEnv 4096 0 (plantedDisk 16 []) smallReader c := by
  refine ⟨plantedInside c, ?_⟩
  rintro ⟨hops, pl, run, _, exposed⟩
  obtain ⟨_, _, s, rfl, slot⟩ := plantedRuns run
  have shown : ∀ s ∈ [0, 208, 240], onward smallEnv 4096 0 (plantedDisk 16 []) ⟨0, 0, 1, s⟩ ≠ .unmapped ∧
      onward smallEnv 4096 0 (plantedDisk 16 []) ⟨0, 0, 1, s⟩ ≠ .hole := by decide +kernel
  obtain ⟨mapped, room⟩ := shown s slot
  cases c with
  | tryReadBatch max => exact mapped exposed.2
  | _ => exact exposed.elim mapped room

theorem eachOne {ok : Reader → ReadCall → Prop} {c : ReadCall} (first : ok r c) : EachCall env fuel d faults ok [c] r n :=
  ⟨first, trivial⟩

theorem scansStayInsideSmall : ∃ replies r' n, (converse smallEnv mostRounds [.tryReadBatch (some 2)] :
      Trial Disk Reader IoError (List (Except IoError Reply))) (plantedDisk 16 []) (fun _ => none) smallReader 0 =
        (.ok replies, r', n) ∧ ∀ reply ∈ replies, Contained 4096 reply := by
  have guarded := plantedGuarded (.tryReadBatch (some 2))
  have opens := plantedOpens
  have sized := plantedSized 16 []
  generalize plantedDisk 16 [] = d at *
  exact (scansStayInside smallEnv d sized (fun _ => none) (by rintro k e ⟨⟩) 0 .lateJoin smallReader opens mostRounds (Nat.le_refl _)
    [.tryReadBatch (some 2)] (eachOne guarded)).1

/- A record that ends eight bytes before its region: the next read loads a header across the end. -/
theorem holeExposed :
    comesTo (plantedDisk 3864 []) [.tryRead, .tryRead] = .ok ([none, some faulted], [⟨0, 0, 0⟩], 4088) := by
  decide +kernel

end Runs
end Xchannel.ReaderBounds
