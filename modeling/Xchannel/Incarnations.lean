import Xchannel.HeaderUse

/-! An open at a record's index against a path that is deleted and made again: which header each of its
judgements is computed from. A history gives the state that every single look of the call sees. -/
namespace Xchannel.Incarnations
open ByteMemory CrashProgram Format Storage WriterCalls Sessions Observation SegmentWalk ReaderOpen ChainScan ReaderBounds HeaderUse

/-- An index the call refuses, with the file and the header that it computes the refusal from. -/
inductive Refusal where
  | pruned (index ino : Nat) (header : SegmentHeader)
  | pastHead (index ino : Nat) (header : SegmentHeader)
  deriving DecidableEq, Repr

namespace Refusal

def ino : Refusal → Nat
  | .pruned _ ino _ => ino
  | .pastHead _ ino _ => ino

def header : Refusal → SegmentHeader
  | .pruned _ _ header => header
  | .pastHead _ _ header => header

def error : Refusal → IoError
  | .pruned index _ header => .indexPruned index header.baseRecordIndex
  | .pastHead index _ header =>
    let head := (header.baseRecordIndex + header.messageCount) % usize
    .text .invalidInput s!"record {index} is past the channel head {head}"

end Refusal

section Calls
variable {m : Type → Type} {τ : Type} [Observe Disk τ IoError m]

/- The end of `locate`, once the earliest segment is known. -/
def judgeNewest (env : Env) (index first last : Nat) (seqs : List Nat) (earliest : SegmentHeader) :
    m (Except Refusal (Option Reader)) := do
  match ← probe env last with
  | none => return .ok none
  | some (ino, latest) =>
    if (latest.baseRecordIndex + latest.messageCount) % usize < index then
      return .error (.pastHead index ino latest)
    match ← searchLoop env seqs index seqs.length 0 (seqs.length - 1) with
    | none => return .ok none
    | some lo =>
      let found ← locateIn env index first earliest.generation (seqs.getD lo 0)
      return .ok found

/- `locate`, with the two refusals of an index kept apart. -/
def locateJudged (env : Env) (index : Nat) (expectedGeneration : Option Nat) : m (Except Refusal (Option Reader)) := do
  let listed ← Observe.look fun d => d.findAllSequences
  let seqs := (← dropUnpublished env listed.reverse).reverse
  match seqs.head?, seqs.getLast? with
  | some first, some last =>
    match ← probe env first with
    | none => return .ok none
    | some (ino, earliest) =>
      if let some expected := expectedGeneration then
        refuseIf (earliest.generation ≠ expected)
          (.generationMismatch expected earliest.generation)
      if index < earliest.baseRecordIndex then
        return .error (.pruned index ino earliest)
      judgeNewest env index first last seqs earliest
  | _, _ => Observe.fail (.text .notFound "no channel at the path")

def openAtJudged (env : Env) (index : Nat) (expectedGeneration : Option Nat) : Nat → m (Except Refusal Reader)
  | 0 => Observe.fail retriesExhausted
  | retries+1 => do
    match ← locateJudged env index expectedGeneration with
    | .error refusal => return .error refusal
    | .ok (some reader) => return .ok reader
    | .ok none => openAtJudged env index expectedGeneration retries

/- The whole call, when generation `g` is expected. -/
def judgedAt (env : Env) (index g : Nat) : m (Except Refusal Reader) := do
  match ← openAtJudged env index (some g) maxOpenRetries with
  | .error refusal => return .error refusal
  | .ok reader =>
    refuseIf (reader.generation ≠ g) (.generationMismatch g reader.generation)
    return .ok reader

/- A refusal raised as the error that the code makes of it. -/
def raise {α : Type} : Except Refusal α → m α
  | .ok a => return a
  | .error refusal => Observe.fail refusal.error

end Calls

section Erasure
variable {τ : Type} {env : Env} {index : Nat}

/- A check that raises its refusal is one that returns it. -/
theorem refusedSame (bad : Prop) [Decidable bad] (refusal : Refusal) {α : Type} {x : Timed Disk τ IoError α}
    {y : Timed Disk τ IoError (Except Refusal α)} (same : x = y >>= raise) :
    (refuseIf bad refusal.error >>= fun _ => x) = (if bad then pure (.error refusal) else y) >>= raise := by
  unfold refuseIf
  split
  · rfl
  · exact same

theorem newestSame (first last : Nat) (seqs : List Nat) (earliest : SegmentHeader) :
    (locateNewest env index first last seqs earliest : Timed Disk τ IoError (Option Reader)) =
      judgeNewest env index first last seqs earliest >>= raise := by
  unfold locateNewest judgeNewest
  rw [bind_assoc]
  refine congrArg _ (funext fun found => ?_)
  cases found with
  | none => rfl
  | some pair =>
    obtain ⟨ino, latest⟩ := pair
    refine refusedSame _ (.pastHead index ino latest) ?_
    rw [bind_assoc]
    refine congrArg _ (funext fun lo => ?_)
    cases lo with
    | none => rfl
    | some lo =>
      dsimp only
      rw [bind_assoc]
      exact (bind_pure _).symm

/- The two programs differ in the form of the refusals only. -/
theorem locateSame (expected : Option Nat) :
    (locate env index expected : Timed Disk τ IoError (Option Reader)) = locateJudged env index expected >>= raise := by
  unfold locate locateJudged
  simp only [bind_assoc]
  refine congrArg _ (funext fun listed => congrArg _ (funext fun seqs => ?_))
  cases seqs.reverse.head? with
  | none => rfl
  | some first =>
  cases seqs.reverse.getLast? with
  | none => rfl
  | some last =>
  dsimp only
  rw [bind_assoc]
  refine congrArg _ (funext fun found => ?_)
  cases found with
  | none => rfl
  | some pair =>
  obtain ⟨ino, earliest⟩ := pair
  have judged := refusedSame (index < earliest.baseRecordIndex) (.pruned index ino earliest)
    (@newestSame τ env index first last seqs.reverse earliest)
  cases expected with
  | none => exact judged
  | some expected =>
    dsimp only
    rw [bind_assoc]
    exact congrArg _ (funext fun _ => judged)

theorem openAtSame (expected : Option Nat) (retries : Nat) :
    (openAt env index expected retries : Timed Disk τ IoError Reader) = openAtJudged env index expected retries >>= raise := by
  induction retries with
  | zero => rfl
  | succ retries ih =>
    unfold openAt openAtJudged
    rw [locateSame, bind_assoc, bind_assoc]
    refine congrArg _ (funext fun judged => ?_)
    rcases judged with refusal | _ | reader
    · rfl
    · exact ih
    · rfl

theorem openSame (spins : Nat) (index : UInt64) (g : Nat) :
    (openWith env spins (.at index) (some g) : Timed Disk τ IoError Reader) = judgedAt env index.toNat g >>= raise := by
  unfold openWith openMode judgedAt
  dsimp only
  rw [openAtSame, bind_assoc, bind_assoc]
  refine congrArg _ (funext fun judged => ?_)
  cases judged with
  | error refusal => rfl
  | ok reader =>
    dsimp only
    rw [bind_assoc]
    rfl

end Erasure

/-- Neither `IndexPruned` nor the error past the head. -/
def Aside (e : IoError) : Prop :=
  (∀ index earliest, e ≠ .indexPruned index earliest) ∧
    ∀ index head : Nat, e ≠ .text .invalidInput s!"record {index} is past the channel head {head}"

theorem kindAside {k : ErrorKind} {what : String} (other : k ≠ .invalidInput) : Aside (.text k what) := by
  refine ⟨?_, ?_⟩
  · rintro _ _ ⟨⟩
  · rintro index head same
    injection same with kind _
    exact other kind

theorem malformedAside {e : IoError} (malformed : Malformed e) : Aside e := by
  obtain ⟨what, rfl⟩ := malformed
  exact kindAside (by decide)

theorem mismatchAside (expected found : Nat) : Aside (.generationMismatch expected found) := by
  refine ⟨?_, ?_⟩
  · rintro _ _ ⟨⟩
  · rintro _ _ ⟨⟩

theorem panicAside (what : String) : Aside (.panicked what) := by
  refine ⟨?_, ?_⟩
  · rintro _ _ ⟨⟩
  · rintro _ _ ⟨⟩

theorem pastStarts (index head : Nat) : (s!"record {index} is past the channel head {head}").toList.take 3 = "rec".toList := by
  show ("record " ++ toString index ++ " is past the channel head " ++ toString head).toList.take 3 = _
  simp

theorem textAside {what : String} (other : what.toList.take 3 ≠ "rec".toList) : Aside (.text .invalidInput what) := by
  refine ⟨?_, ?_⟩
  · rintro _ _ ⟨⟩
  · intro index head same
    injection same with _ same
    exact other (same ▸ pastStarts index head)

theorem alignmentAside (env : Env) (base R : Nat) : ∀ e, checkAlignment env base R = .error e → Aside e := by
  simp only [checkAlignment, bind, Except.bind, pure, Except.pure, throw, throwThe, MonadExceptOf.throw]
  refine refusedWith (textAside ?_) (refusedWith (textAside ?_) (refusedWith (textAside ?_) ?_))
  · decide
  · show ("region_size (" ++ toString R ++ ") must be a multiple of OS page size (" ++ toString env.page ++ ")").toList.take 3 ≠ _
    simp
  · show ("base_offset (" ++ toString base ++ ") must be page-aligned (page=" ++ toString env.page ++ ")").toList.take 3 ≠ _
    simp
  · rintro e ⟨⟩

section Looks
variable {τ : Type} {env : Env} {h : Nat → Disk} {t : τ} {n : Nat}

open Timed

theorem createQuiet (base R : Nat) : Quiet Aside (createReadOnly env base R : Timed Disk τ IoError Unit) :=
  quietBind (quietLift (alignmentAside env base R)) fun _ => quietSyscall

theorem presentQuiet (k : Nat) : Quiet Aside (openSegmentIfPresent k : Timed Disk τ IoError (Option Nat)) :=
  quietBind quietSyscall fun _ => quietLook _

/- A check of what a look returned. -/
theorem checkQuiet {α β : Type} {f : Disk → Except IoError α} {g : α → Timed Disk τ IoError β}
    (malformed : ∀ d e, f d = .error e → Malformed e) (next : ∀ a, Quiet Aside (g a)) :
    Quiet Aside (Observe.look f >>= fun r => lift r >>= g) :=
  fun h t n => specLook (quietBind (quietLift fun e bad => malformedAside (malformed (h n) e bad)) next h t (n + 1))

theorem identityThen {β : Type} {g : Identity → Timed Disk τ IoError β} (i R s : Nat) (next : ∀ a, Quiet Aside (g a)) :
    Quiet Aside (validatedIdentity i R s >>= g) := by
  unfold validatedIdentity
  simp only [bind_assoc]
  exact checkQuiet (fun _ => headerMalformed _ _ _) fun _ => checkQuiet (fun _ => prefixMalformed _) next

theorem lastQuiet {α : Type} {f : Disk → Except IoError α} (malformed : ∀ d e, f d = .error e → Malformed e) :
    Quiet Aside (do lift (← Observe.look f) : Timed Disk τ IoError α) :=
  fun h t n => specLook (quietLift (fun e bad => malformedAside (malformed (h n) e bad)) h t (n + 1))

theorem segmentQuiet (k : Nat) : Quiet Aside (segmentIsPublished env k : Timed Disk τ IoError Bool) := by
  unfold segmentIsPublished
  refine quietBind (presentQuiet k) fun present => ?_
  cases present with
  | none => exact quietPure false
  | some i =>
    refine quietBind (quietLook _) fun len => ?_
    split
    · exact quietPure false
    · exact quietBind (createQuiet _ _) fun _ => quietBind (quietLook _) fun _ => identityThen _ _ _ fun _ =>
        lastQuiet fun _ => publishedMalformed _

theorem dropQuiet (listed : List Nat) : Quiet Aside (dropUnpublished env listed : Timed Disk τ IoError (List Nat)) := by
  induction listed with
  | nil => exact quietPure []
  | cons seq older ih =>
    cases older with
    | nil => exact quietPure [seq]
    | cons next older =>
      unfold dropUnpublished
      refine quietBind (segmentQuiet seq) fun published => ?_
      split
      · exact quietPure _
      · exact ih

/-- The fields of a header that a probe finds: it opens the file at its first look, and loads them at the last three. -/
structure Loaded (h : Nat → Disk) (n k ino : Nat) (header : SegmentHeader) : Prop where
  named : (h n).segments k = some ino
  base : header.baseRecordIndex = baseRecordIndex ((h (n + 6)).data ino)
  count : header.messageCount = messageCount ((h (n + 7)).data ino)
  gen : header.generation = Format.generation ((h (n + 8)).data ino)

/- How a program that only looks leaves its own state, which errors it has and what holds of its value. -/
def Sees {α : Type} (t : τ) (Q : α → Nat → Prop) (r : Except IoError α) (t' : τ) (n' : Nat) : Prop :=
  t' = t ∧ (∀ e, r = .error e → Aside e) ∧ ∀ a, r = .ok a → Q a n'

theorem seesError {α : Type} {Q : α → Nat → Prop} {e : IoError} {n' : Nat} (aside : Aside e) : Sees t Q (.error e) t n' := by
  refine ⟨rfl, ?_, ?_⟩
  · rintro _ ⟨⟩
    exact aside
  · rintro a ⟨⟩

theorem seesValue {α : Type} {Q : α → Nat → Prop} {a : α} {n' : Nat} (holds : Q a n') : Sees t Q (.ok a) t n' := by
  refine ⟨rfl, ?_, ?_⟩
  · rintro e ⟨⟩
  · rintro _ ⟨⟩
    exact holds

theorem seesQuiet {α β : Type} {Q : β → Nat → Prop} {x : Timed Disk τ IoError α} {f : α → Timed Disk τ IoError β}
    (first : Quiet Aside x) (next : ∀ a n', n ≤ n' → Spec h t n' (f a) (Sees t Q)) : Spec h t n (x >>= f) (Sees t Q) :=
  specQuiet first next fun _ _ aside => seesError aside

theorem seesSeq {α β : Type} {P : α → Nat → Prop} {Q : β → Nat → Prop} {x : Timed Disk τ IoError α}
    {f : α → Timed Disk τ IoError β} (first : Spec h t n x (Sees t P))
    (next : ∀ a n', n ≤ n' → P a n' → Spec h t n' (f a) (Sees t Q)) : Spec h t n (x >>= f) (Sees t Q) := by
  refine specSeq first ?_ ?_
  · rintro a t' n' later ⟨rfl, _, value⟩
    exact next a n' later (value a rfl)
  · rintro e t' n' _ ⟨rfl, errors, _⟩
    exact seesError (errors e rfl)

theorem seesRefuse {β : Type} {Q : β → Nat → Prop} {bad : Prop} [Decidable bad] {e : IoError} {f : Unit → Timed Disk τ IoError β}
    (aside : Aside e) (next : ¬ bad → Spec h t n (f ()) (Sees t Q)) :
    Spec h t n ((refuseIf bad e : Timed Disk τ IoError Unit) >>= f) (Sees t Q) :=
  specRefuse (fun _ => seesError aside) next

theorem seesCheck {α β : Type} {Q : β → Nat → Prop} {f : Disk → Except IoError α} {g : α → Timed Disk τ IoError β}
    (malformed : ∀ d e, f d = .error e → Malformed e) (next : ∀ a, Spec h t (n + 1) (g a) (Sees t Q)) :
    Spec h t n (Observe.look f >>= fun r => lift r >>= g) (Sees t Q) :=
  specLook (specLift (fun a _ => next a) fun e bad => seesError (malformedAside (malformed (h n) e bad)))

theorem seesIdentity {β : Type} {Q : β → Nat → Prop} {g : Identity → Timed Disk τ IoError β} (i R s : Nat)
    (next : ∀ a, Spec h t (n + 2) (g a) (Sees t Q)) : Spec h t n (validatedIdentity i R s >>= g) (Sees t Q) := by
  unfold validatedIdentity
  simp only [bind_assoc]
  exact seesCheck (fun _ => headerMalformed _ _ _) fun _ => seesCheck (fun _ => prefixMalformed _) next

/- A mapping takes no look. -/
theorem seesCreate {β : Type} {Q : β → Nat → Prop} {f : Unit → Timed Disk τ IoError β} (base R : Nat)
    (next : Spec h t n (f ()) (Sees t Q)) : Spec h t n (createReadOnly env base R >>= f) (Sees t Q) := by
  unfold createReadOnly
  rw [bind_assoc]
  exact specLift (fun _ _ => specSyscall next) fun e bad => seesError (alignmentAside env base R e bad)

theorem headerSees (i k : Nat) (named : (h n).segments k = some i) :
    Spec h t (n + 1) (readSegmentHeader env i k) (Sees t fun header n' => n' = n + 9 ∧ Loaded h n k i header) := by
  unfold readSegmentHeader
  refine seesCreate _ _ (seesCheck (fun _ => kindMalformed _) fun kind => ?_)
  refine seesRefuse (kindAside (by decide)) fun _ => specLook (seesIdentity _ _ _ fun _ => ?_)
  refine seesCheck (fun _ => publishedMalformed _) fun _ => seesRefuse (kindAside (by decide)) fun _ => ?_
  exact specLook (specLook (specLook (specRet (seesValue ⟨rfl, named, rfl, rfl, rfl⟩))))

/- A probe opens the file by its name, and then loads its header. -/
theorem probeSees (k : Nat) : Spec h t n (probe env k) (Sees t fun found n' => ∀ i header, found = some (i, header) →
    n' = n + 9 ∧ Loaded h n k i header) := by
  unfold probe openSegmentIfPresent
  rw [bind_assoc]
  refine specSyscall (specLook ?_)
  cases named : (h n).segments k with
  | none =>
    refine specRet (seesValue ?_)
    rintro i header ⟨⟩
  | some i =>
    refine seesSeq (headerSees i k named) ?_
    rintro header n₂ _ loaded
    refine specRet (seesValue ?_)
    rintro i' header' ⟨⟩
    exact loaded

theorem probeQuiet (k : Nat) : Quiet Aside (probe env k : Timed Disk τ IoError (Option (Nat × SegmentHeader))) :=
  fun _ _ _ => specMono (probeSees k) fun _ _ _ _ sees => ⟨sees.1, sees.2.1⟩

theorem searchQuiet (seqs : List Nat) (index rounds lo hi : Nat) :
    Quiet Aside (searchLoop env seqs index rounds lo hi : Timed Disk τ IoError (Option Nat)) := by
  induction rounds generalizing lo hi with
  | zero => exact quietFail (panicAside _)
  | succ rounds ih =>
    unfold searchLoop
    split
    · exact quietPure _
    · refine quietBind (probeQuiet _) fun found => ?_
      cases found with
      | none => exact quietPure none
      | some pair =>
        dsimp only
        split
        · exact ih _ _
        · exact ih _ _

theorem divisorQuiet (R : Nat) : Quiet Aside (divisor R : Timed Disk τ IoError Unit) := quietRefuse (panicAside _)

theorem walkQuiet (i R fileLen : Nat) (stop : Nat → HeaderType → Nat → Bool) (fuel : Nat) (mapped : Option Nat) (pos users : Nat) :
    Quiet Aside (walkLoop env i R fileLen stop fuel mapped pos users : Timed Disk τ IoError WalkEnd) := by
  induction fuel generalizing mapped pos users with
  | zero => exact quietFail (panicAside _)
  | succ fuel ih =>
    unfold walkLoop
    refine quietBind (divisorQuiet R) fun _ => ?_
    have visited : Quiet Aside (do
        let off := pos % R
        let leftover := R - off
        refuseIf (leftover < headerSlot) (errInvalidData "segment walk landed in a region's tail hole")
        let committed ← lift (← Observe.look fun d => (MessageHeader.read (d.data i) pos).isCommitted)
        if ¬ committed then
          return ⟨pos, users, .uncommitted⟩
        let mh ← Observe.look fun d => MessageHeader.read (d.data i) pos
        let headerType ← lift mh.parsedHeaderType
        if stop pos headerType users then
          return ⟨pos, users, .visitor⟩
        if headerType = .roll then
          refuseIf (mh.length.toNat ≠ rollPayload ∨ R < off + rollTotal)
            (errInvalidData s!"segment walk: Roll at {pos} has a {mh.length}-byte body, not 40")
          return ⟨pos, users, .roll⟩
        let totalLen := headerSlot + mh.length.toNat
        refuseIf (leftover < totalLen) (errInvalidData "segment walk: record extends past its region")
        walkLoop env i R fileLen stop fuel (some (pos / R)) (alignUp (pos + totalLen))
          (if headerType = .user then users + 1 else users) : Timed Disk τ IoError WalkEnd) := by
      refine quietBind (quietRefuse (kindAside (by decide))) fun _ => checkQuiet (fun _ => committedMalformed _) fun committed => ?_
      split
      · exact quietPure _
      refine quietBind (quietLook _) fun mh => quietBind (quietLift fun e bad => malformedAside (kindMalformed mh e bad)) fun kind => ?_
      split
      · exact quietPure _
      split
      · exact quietBind (quietRefuse (kindAside (by decide))) fun _ => quietPure _
      · exact quietBind (quietRefuse (kindAside (by decide))) fun _ => ih _ _ _
    dsimp only
    split
    · exact quietPure _
    split
    · exact quietBind (createQuiet _ _) fun _ => visited
    · exact visited

/- The generation of a reader is the one in its file. -/
theorem fromSees (spins s i readPos position : Nat) :
    Spec h t n (fromSegment env spins s i (.at readPos position)) (Sees t fun reader n' => ∃ u, n ≤ u ∧ u < n' ∧ reader.ino = i ∧
      reader.generation = Format.generation ((h u).data i)) := by
  unfold fromSegment
  refine seesQuiet (createQuiet _ _) fun _ n₁ later => seesCheck (fun _ => kindMalformed _) fun kind => ?_
  refine seesRefuse (kindAside (by decide)) fun _ => specLook (seesIdentity _ _ _ fun _ => ?_)
  refine seesCheck (fun _ => publishedMalformed _) fun _ => seesRefuse (kindAside (by decide)) fun _ => ?_
  refine seesSeq (P := fun _ _ => True) (specRet (seesValue trivial)) fun place n₂ later₂ _ => specLook (specLook ?_)
  refine seesRefuse (panicAside _) fun _ => seesQuiet (createQuiet _ _) fun _ n₃ later₃ => specRet (seesValue ⟨n₂ + 1, ?_, ?_, rfl, rfl⟩)
  · omega
  · omega

/-- A file found under one of the path's names after the `n`-th look, with a generation loaded from it later on. -/
def Opened (h : Nat → Disk) (n ino gen : Nat) : Prop :=
  ∃ a u s, n ≤ a ∧ a ≤ u ∧ (h a).segments s = some ino ∧ gen = Format.generation ((h u).data ino)

theorem Opened.widen {n' ino gen : Nat} (opened : Opened h n' ino gen) (low : n ≤ n') : Opened h n ino gen := by
  obtain ⟨a, u, s, from_n, rest⟩ := opened
  exact ⟨a, u, s, by omega, rest⟩

theorem Loaded.opened {k ino : Nat} {header : SegmentHeader} (loaded : Loaded h n k ino header) :
    Opened h n ino header.generation :=
  ⟨n, n + 8, k, Nat.le_refl n, by omega, loaded.named, loaded.gen⟩

theorem locateInSees (index first gen seq : Nat) :
    Spec h t n (locateIn env index first gen seq) (Sees t fun found _ => ∀ reader, found = some reader →
      Opened h n reader.ino reader.generation) := by
  unfold locateIn
  refine seesSeq (probeSees seq) fun found n₁ later known => ?_
  cases found with
  | none =>
    refine specRet (seesValue ?_)
    rintro reader ⟨⟩
  | some pair =>
    obtain ⟨i, header⟩ := pair
    obtain ⟨rfl, loaded⟩ := known i header rfl
    refine seesRefuse (kindAside (by decide)) fun _ => ?_
    refine seesQuiet (quietBind (quietLook _) fun len => walkQuiet _ _ len _ _ _ _ _) fun walked n₂ later₂ => ?_
    refine seesRefuse (kindAside (by decide)) fun _ => ?_
    refine seesSeq (fromSees _ _ _ _ _) ?_
    rintro reader n₃ later₃ ⟨v, from_v, _, rfl, same⟩
    refine specRet (seesValue ?_)
    rintro _ ⟨⟩
    exact ⟨n, v, seq, Nat.le_refl n, by omega, loaded.named, same⟩

/-- During the call, two probes in a row meet two incarnations: the first finds generation `g`, and the second a head below
`index` and another generation. -/
def Overtaken (h : Nat → Disk) (n n' g index : Nat) : Prop :=
  ∃ a first last i j, n ≤ a ∧ a + 17 < n' ∧
    (h a).segments first = some i ∧ Format.generation ((h (a + 8)).data i) = g ∧
    (h (a + 9)).segments last = some j ∧ Format.generation ((h (a + 17)).data j) ≠ g ∧
    (baseRecordIndex ((h (a + 15)).data j) + messageCount ((h (a + 16)).data j)) % usize < index

theorem Overtaken.widen {g index n' m m' : Nat} (overtaken : Overtaken h m m' g index) (low : n ≤ m) (high : m' ≤ n') :
    Overtaken h n n' g index := by
  obtain ⟨a, first, last, i, j, from_m, to_m, rest⟩ := overtaken
  exact ⟨a, first, last, i, j, by omega, by omega, rest⟩

/-- What a refusal is computed from: a header of generation `g`, loaded from a file found under a name. -/
def Fair (h : Nat → Disk) (n g : Nat) (refusal : Refusal) : Prop :=
  refusal.header.generation = g ∧ Opened h n refusal.ino refusal.header.generation

/-- A located reader's file was found under a name, and a refusal is fair, or the call was overtaken. -/
def Located (h : Nat → Disk) (n g index : Nat) (res : Except Refusal (Option Reader)) (n' : Nat) : Prop :=
  match res with
  | .error refusal => Fair h n g refusal ∨ Overtaken h n n' g index
  | .ok found => ∀ reader, found = some reader → Opened h n reader.ino reader.generation

theorem Located.widen {g index m m' n' : Nat} {res : Except Refusal (Option Reader)} (located : Located h m g index res m')
    (low : n ≤ m) (high : m' ≤ n') : Located h n g index res n' := by
  cases res with
  | error refusal =>
    rcases located with ⟨own, opened⟩ | overtaken
    · exact .inl ⟨own, opened.widen low⟩
    · exact .inr (overtaken.widen low high)
  | ok found => exact fun reader same => (located reader same).widen low

/- Behind the earliest segment: only the header of the newest is computed with unjudged. -/
theorem newestSees {g a i first last : Nat} {earliest : SegmentHeader} (index : Nat) (seqs : List Nat)
    (loaded : Loaded h a first i earliest) (own : earliest.generation = g) (low : n ≤ a) :
    Spec h t (a + 9) (judgeNewest env index first last seqs earliest) (Sees t (Located h n g index)) := by
  have missing (n' : Nat) : Located h n g index (.ok none) n' := by rintro reader ⟨⟩
  unfold judgeNewest
  refine seesSeq (probeSees last) fun probed n₁ later₁ known => ?_
  cases probed with
  | none => exact specRet (seesValue (missing _))
  | some pair =>
    obtain ⟨j, latest⟩ := pair
    obtain ⟨rfl, newest⟩ := known j latest rfl
    dsimp only
    split
    next past =>
      refine specRet (seesValue ?_)
      by_cases same : latest.generation = g
      · exact .inl ⟨same, newest.opened.widen (by omega)⟩
      · refine .inr ⟨a, first, last, i, j, low, by omega, loaded.named, loaded.gen.symm.trans own, newest.named, ?_, ?_⟩
        · rw [← newest.gen]
          exact same
        · rw [← newest.base, ← newest.count]
          exact past
    next =>
      refine seesQuiet (searchQuiet _ _ _ _ _) fun lo n₂ later₂ => ?_
      cases lo with
      | none => exact specRet (seesValue (missing _))
      | some lo =>
        refine seesSeq (locateInSees _ _ _ _) fun reader n₃ later₃ opened => specRet (seesValue ?_)
        exact fun r same => (opened r same).widen (by omega)

theorem locateSees (g index : Nat) : Spec h t n (locateJudged env index (some g)) (Sees t (Located h n g index)) := by
  unfold locateJudged
  refine seesQuiet (quietLook _) fun listed n₁ later₁ => seesQuiet (dropQuiet _) fun seqs n₂ later₂ => ?_
  dsimp only
  cases seqs.reverse.head? with
  | none => exact specFail (seesError (kindAside (by decide)))
  | some first =>
  cases seqs.reverse.getLast? with
  | none => exact specFail (seesError (kindAside (by decide)))
  | some last =>
  refine seesSeq (probeSees first) fun probed n₃ later₃ known => ?_
  cases probed with
  | none =>
    refine specRet (seesValue ?_)
    rintro reader ⟨⟩
  | some pair =>
  obtain ⟨i, earliest⟩ := pair
  obtain ⟨rfl, loaded⟩ := known i earliest rfl
  refine seesRefuse (mismatchAside _ _) fun same => ?_
  have own : earliest.generation = g := not_not.mp same
  split
  · exact specRet (seesValue (.inl ⟨own, loaded.opened.widen (by omega)⟩))
  · exact newestSees index _ loaded own (by omega)

/-- What the whole call comes to: a refusal computed from a header of generation `g`, a reader of that generation, or
an error computed from no index. -/
def Judged (h : Nat → Disk) (n g : Nat) : Except IoError (Except Refusal Reader) → Prop
  | .error e => Aside e
  | .ok (.error refusal) => Fair h n g refusal
  | .ok (.ok reader) => reader.generation = g ∧ Opened h n reader.ino reader.generation

theorem atSees (g index retries : Nat) : Spec h t n (openAtJudged env index (some g) retries)
    (Sees t fun res n' => Located h n g index (res.map some) n') := by
  induction retries generalizing n with
  | zero => exact specFail (seesError (kindAside (by decide)))
  | succ retries ih =>
    unfold openAtJudged
    refine seesSeq (locateSees g index) fun res n₁ later located => ?_
    rcases res with refusal | _ | reader
    · exact specRet (seesValue located)
    · refine specMono ih fun r t' n' _ sees => ⟨sees.1, sees.2.1, fun a same => ?_⟩
      exact (sees.2.2 a same).widen later (Nat.le_refl n')
    · exact specRet (seesValue located)

theorem judgedSees (g index : Nat) : Spec h t n (judgedAt env index g)
    (fun res t' n' => t' = t ∧ (Judged h n g res ∨ Overtaken h n n' g index)) := by
  have sees : Spec h t n (judgedAt env index g) (Sees t fun res n' => Judged h n g (.ok res) ∨ Overtaken h n n' g index) := by
    unfold judgedAt
    refine seesSeq (atSees g index _) fun res n₁ later located => ?_
    cases res with
    | error refusal => exact specRet (seesValue located)
    | ok reader =>
      refine seesRefuse (mismatchAside _ _) fun same => specRet (seesValue ?_)
      exact .inl ⟨not_not.mp same, located reader rfl⟩
  refine specMono sees ?_
  rintro (e | res) t' n' _ ⟨rfl, errors, values⟩
  · exact ⟨rfl, .inl (errors e rfl)⟩
  · exact ⟨rfl, values res rfl⟩

end Looks

/-- The answer of the code: a refusal comes out as the error made of it. -/
def raised : Except IoError (Except Refusal Reader) → Except IoError Reader
  | .error e => .error e
  | .ok (.error refusal) => .error refusal.error
  | .ok (.ok reader) => .ok reader

/- A reader after its seek: an error leaves it as it was. -/
def sought (r : Reader) : Except IoError Reader → Reader
  | .ok fresh => { fresh with batchLimit := r.batchLimit }
  | .error _ => r

/-- An open at `index` that expects generation `g`, and a seek by a reader of that generation: they answer as the judged
call does, whose refusals and readers are of generation `g`. -/
structure JudgesGeneration (env : Env) (h : Nat → Disk) (n spins : Nat) (index : UInt64) (g : Nat) (r : Reader)
    (out : Except IoError (Except Refusal Reader)) : Prop where
  judged : Judged h n g out
  opens : ((openWith env spins (.at index) (some g) : Timed Disk Reader IoError Reader) h r n).1 = raised out
  seeks : r.generation = g → ∃ n', (reopen env spins (.at index) : Timed Disk Reader IoError Unit) h r n =
    ((raised out).map fun _ => (), sought r (raised out), n')

theorem generationFirst (env : Env) (h : Nat → Disk) (n spins : Nat) (index : UInt64) (g : Nat) (r : Reader)
    (calm : ¬ Overtaken h n ((judgedAt env index.toNat g : Timed Disk Reader IoError (Except Refusal Reader)) h r n).2.2 g
      index.toNat) : JudgesGeneration env h n spins index g r
      ((judgedAt env index.toNat g : Timed Disk Reader IoError (Except Refusal Reader)) h r n).1 := by
  have sees : Timed.Spec h r n (judgedAt env index.toNat g) _ := judgedSees g index.toNat
  obtain ⟨_, own, judged⟩ := sees
  replace judged := judged.resolve_right calm
  have opened : (openWith env spins (.at index) (some g) : Timed Disk Reader IoError Reader) h r n =
      (raised ((judgedAt env index.toNat g : Timed Disk Reader IoError (Except Refusal Reader)) h r n).1, r,
        ((judgedAt env index.toNat g : Timed Disk Reader IoError (Except Refusal Reader)) h r n).2.2) := by
    rw [openSame]
    show Timed.andThen _ raise h r n = _
    unfold Timed.andThen
    generalize (judgedAt env index.toNat g : Timed Disk Reader IoError (Except Refusal Reader)) h r n = out at own ⊢
    obtain ⟨res, r', n'⟩ := out
    cases own
    rcases res with e | refusal | reader
    · rfl
    · rfl
    · rfl
  refine ⟨judged, by rw [opened], ?_⟩
  rintro rfl
  have reopened : (reopen env spins (.at index) : Timed Disk Reader IoError Unit) h r n =
      (openWith env spins (.at index) (some r.generation) >>= fun fresh =>
        Observe.become { fresh with batchLimit := r.batchLimit } : Timed Disk Reader IoError Unit) h r n := rfl
  rw [reopened]
  show ∃ n', Timed.andThen _ _ h r n = _
  unfold Timed.andThen
  rw [opened]
  cases raised ((judgedAt env index.toNat r.generation : Timed Disk Reader IoError (Except Refusal Reader)) h r n).1 with
  | error e => exact ⟨_, rfl⟩
  | ok fresh => exact ⟨_, rfl⟩

section Instances

def incarnation (g : UInt64) : Config := { smallConfig with generation := g }

/- A channel of generation 1 with one record. -/
def firstLives : List Life := [⟨incarnation 1, ⟨rfl, smallFormed.kept⟩, [.reserve 8, .commit 0 8 0], 1000⟩]

/- Its file deleted, and a channel of generation 2 made at the path. -/
def recreation (d : Disk) : List Op :=
  .unlink 0 :: Life.ops smallEnv ⟨incarnation 2, ⟨rfl, smallFormed.kept⟩, [], 1000⟩ (d.apply (.unlink 0))

/- The path is made again at the given look. -/
def recreatedAt (look : Nat) (d : Disk) (k : Nat) : Disk := if k < look then d else run Disk.apply d (recreation d)

/- On a path that stands still, no incarnation overtakes the other. -/
theorem standsCalm {d : Disk} {g : Nat} (own : ∀ k i, d.segments k = some i → Format.generation (d.data i) = g) (n n' index : Nat) :
    ¬ Overtaken (fun _ => d) n n' g index := by
  rintro ⟨a, first, last, i, j, _, _, _, _, named, foreign, _⟩
  exact foreign (own last j named)

theorem firstOwn (k i : Nat) (named : (after smallEnv firstLives).segments k = some i) :
    Format.generation ((after smallEnv firstLives).data i) = 1 := by
  have built : (timeline smallEnv Disk.empty firstLives).all (namesOnly 0) = true := by decide +kernel
  have zero : (after smallEnv firstLives).segments 0 = some 0 := by decide +kernel
  have own : Format.generation ((after smallEnv firstLives).data 0) = 1 := by decide +kernel
  by_cases same : k = 0
  · subst same
    cases named.symm.trans zero
    exact own
  · unfold after at named
    rw [absentRun same built rfl] at named
    cases named

/- The judged call of a reader of generation 1 at index 1. -/
def judgedSmall (h : Nat → Disk) : Except IoError (Except Refusal Reader) × Reader × Nat :=
  (judgedAt smallEnv (1 : UInt64).toNat 1 : Timed Disk Reader IoError (Except Refusal Reader)) h smallReader 0

theorem generationFirstSmall : JudgesGeneration smallEnv (fun _ => after smallEnv firstLives) 0 0 1 1 smallReader
    (judgedSmall fun _ => after smallEnv firstLives).1 := by
  exact generationFirst smallEnv (fun _ => after smallEnv firstLives) 0 0 1 1 smallReader (standsCalm firstOwn _ _ _)

theorem unfairly {env : Env} {h : Nat → Disk} {n spins : Nat} {index : UInt64} {g : Nat} {r : Reader}
    {out : Except IoError (Except Refusal Reader)} {refusal : Refusal} (refused : out = .ok (.error refusal))
    (foreign : refusal.header.generation ≠ g) : ¬ JudgesGeneration env h n spins index g r out := by
  rintro ⟨judged, _, _⟩
  rw [refused] at judged
  exact foreign judged.1

theorem refusedSmall : (judgedSmall (recreatedAt 10 (after smallEnv firstLives))).1 = .ok (.error (.pastHead 1 1 ⟨4096, 0, 0, 2⟩)) := by
  decide +kernel

/- Made again behind the probe of its earliest segment, the path is judged by the head of the new channel. -/
theorem headOvertakes : ¬ JudgesGeneration smallEnv (recreatedAt 10 (after smallEnv firstLives)) 0 0 1 1 smallReader
    (judgedSmall (recreatedAt 10 (after smallEnv firstLives))).1 :=
  unfairly refusedSmall (by decide)

end Instances
end Xchannel.Incarnations
