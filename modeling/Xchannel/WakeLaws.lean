import Xchannel.WakeWords

/-! What a sleeping reader may rely on: a word that has not moved since it was loaded says that nothing was published
since, but for what the writer is about to announce. -/
namespace Xchannel.WakeLaws
open Format (HeaderType usize)
open Interleaving WakeWords

variable {s t : WakeWords.State} {ch ch' : Channel} {r : Reader} {sn : Seen}

/-- What a reader waits for. -/
def Loud (kind : HeaderType) : Prop := kind = .user ∨ kind = .roll

/-- Between the commit of a record of a waking writer and the bump that announces it. -/
def Unbumped : WriterAt → Prop
  | .counting | .positioning .user | .positioning .roll | .bumping _ => True
  | _ => False

/-- Up to the end of its `FUTEX_WAKE`. -/
def Unwoken : WriterAt → Prop
  | .waking _ => True
  | x => Unbumped x

/-- A Roll has been committed. -/
def Rolled : WriterAt → Prop
  | .positioning .roll | .bumping .roll | .waking .roll => True
  | _ => False

/-- The writer is still busy with record `j` of segment `q`, its newest. -/
def Pending (P : WriterAt → Prop) (ch : Channel) (q j : Nat) : Prop :=
  ch.current = q ∧ j + 1 = ch.own.records.length ∧ P ch.writer

/-- From the cursor on there is nothing to wait for that is not pending. -/
def Quiet (P : WriterAt → Prop) (ch : Channel) (r : Reader) : Prop :=
  ∀ j kind, r.position ≤ j → (ch.segments r.fileSequence).records[j]? = some kind → Loud kind → Pending P ch r.fileSequence j

/-- Readers are on segments that were published. -/
def Placed (ch : Channel) (r : Reader) : Prop :=
  r.fileSequence ≤ ch.current ∨ r.fileSequence = ch.current + 1 ∧ Rolled ch.writer

def RollsLast (ch : Channel) : Prop :=
  ∀ q, .roll ∈ (ch.segments q).records → q < ch.current ∨ q = ch.current ∧ Rolled ch.writer

/-- What was loaded for a reader. -/
def Heard (ch : Channel) (r : Reader) (sn : Seen) : Prop :=
  sn.sequence ≤ r.fileSequence ∧ (r.fileSequence = sn.sequence →
    sn.bumps ≤ (ch.segments r.fileSequence).bumps ∧
    ∀ v, sn.value = some v → v = ((ch.segments r.fileSequence).startWord + sn.bumps) % 2 ^ 32)

/-- What a look that found nothing says. -/
def Looked (ch : Channel) (r : Reader) (sn : Seen) : Prop :=
  ch.wake = true → r.fileSequence = sn.sequence → (ch.segments r.fileSequence).bumps = sn.bumps → Quiet Unbumped ch r

/-- The steps of a writer: it appends, publishes a successor, bumps, or does what no reader sees. -/
inductive Progress (ch ch' : Channel) : Prop where
  | appends (kind : HeaderType) (same : ch'.segments = Function.update ch.segments ch.current
        { ch.own with records := ch.own.records ++ [kind] })
      (current : ch'.current = ch.current) (wake : ch'.wake = ch.wake) (quiet : ¬ Unwoken ch.writer ∧ ¬ Rolled ch.writer)
      (pending : Loud kind → Unbumped ch'.writer) (roll : kind = .roll ↔ Rolled ch'.writer)
  | publishes (same : ch'.segments = Function.update ch.segments (ch.current + 1) ⟨[.channel], 0, ch.wake, 0, 0⟩)
      (current : ch'.current = ch.current) (wake : ch'.wake = ch.wake) (quiet : ¬ Unwoken ch.writer ∧ ¬ Rolled ch.writer)
      (rolled : ¬ Rolled ch'.writer)
  | bumps (same : ch'.segments = Function.update ch.segments ch.current { ch.own with bumps := ch.own.bumps + 1 })
      (current : ch'.current = ch.current) (wake : ch'.wake = ch.wake) (after : Unwoken ch'.writer)
      (rolled : Rolled ch'.writer ↔ Rolled ch.writer)
  | stays (same : ∀ q, (ch'.segments q).records = (ch.segments q).records ∧ (ch'.segments q).bumps = (ch.segments q).bumps ∧
        (ch'.segments q).startWord = (ch.segments q).startWord)
      (current : ch'.current = ch.current) (wake : ch'.wake = ch.wake)
      (unbumped : ch.wake = true → Unbumped ch.writer → Unbumped ch'.writer)
      (unwoken : ch.wake = true → Unwoken ch.writer → Unwoken ch'.writer) (rolled : Rolled ch'.writer ↔ Rolled ch.writer)
  | settles (same : ch'.segments = ch.segments) (current : Rolled ch.writer ∧ ch'.current = ch.current + 1 ∨ ¬ Rolled ch.writer ∧ ch'.current = ch.current)
      (wake : ch'.wake = ch.wake) (idle : ch'.writer = .idle) (unbumped : ch.wake = true → ¬ Unbumped ch.writer)
      (woken : ch.wake = true → Unwoken ch.writer → ∃ kind, ch.writer = .waking kind)

section Writers

theorem commitProgress (idle : ch.writer = .idle) : Progress ch ch.commit := by
  refine .appends .user rfl rfl rfl (by simp [idle, Unwoken, Unbumped, Rolled]) (fun _ => trivial) ?_
  simp [Channel.commit, Rolled]

theorem skipProgress (idle : ch.writer = .idle) : Progress ch ch.skip := by
  refine .appends .skip rfl rfl rfl (by simp [idle, Unwoken, Unbumped, Rolled]) (fun loud => ?_) ?_
  · rcases loud with h | h <;> cases h
  · simp [Channel.skip, Rolled]

theorem rollProgress (idle : ch.writer = .idle) : Progress ch ch.roll :=
  .publishes rfl rfl rfl (by simp [idle, Unwoken, Unbumped, Rolled]) (by simp [Channel.roll, Rolled])

theorem advanceProgress (taken : ch.advance = some ch') : Progress ch ch' := by
  cases at' : ch.writer with
  | idle =>
    simp only [Channel.advance, at'] at taken
    cases taken
  | counting =>
    simp only [Channel.advance, at'] at taken
    cases taken
    refine .stays (fun q => ?_) rfl rfl (fun _ _ => trivial) (fun _ _ => trivial) (by simp [at', Rolled])
    show (Function.update ch.segments ch.current _ q).records = _ ∧ _
    by_cases here : q = ch.current
    · subst here
      simp [Channel.setSegment, Channel.own]
    · simp [Channel.setSegment, Function.update_of_ne here]
  | positioning kind =>
    simp only [Channel.advance, at'] at taken
    split at taken <;> cases taken
    next waking =>
      refine .stays (fun q => ⟨rfl, rfl, rfl⟩) rfl rfl (fun _ _ => trivial) (fun _ _ => trivial) ?_
      cases kind <;> simp [at', Rolled]
    next silent =>
      refine .settles rfl ?_ rfl rfl ?_ ?_
      · cases kind <;> simp [at', Rolled, Channel.settle]
      · intro wake
        obtain rfl : kind = .skip := by
          by_contra other
          exact silent ⟨wake, other⟩
        simp [at', Unbumped]
      · intro wake busy
        obtain rfl : kind = .skip := by
          by_contra other
          exact silent ⟨wake, other⟩
        simp [at', Unwoken, Unbumped] at busy
  | bumping kind =>
    simp only [Channel.advance, at'] at taken
    cases taken
    refine .bumps rfl rfl rfl trivial ?_
    cases kind <;> simp [at', Rolled]
  | waking kind =>
    simp only [Channel.advance, at'] at taken
    cases taken
    refine .settles rfl ?_ rfl rfl (by simp [at', Unbumped]) fun _ _ => ⟨kind, at'⟩
    cases kind <;> simp [at', Rolled, Channel.settle]
  | rolling =>
    simp only [Channel.advance, at'] at taken
    cases taken
    exact .appends .roll rfl rfl rfl (by simp [at', Unwoken, Unbumped, Rolled]) (fun _ => trivial) (by simp [Rolled])

end Writers

section Kept

theorem appended {kind k : HeaderType} {l : List HeaderType} {j : Nat} (found : (l ++ [kind])[j]? = some k) :
    l[j]? = some k ∨ j = l.length ∧ k = kind := by
  rcases Nat.lt_trichotomy j l.length with less | same | more
  · rw [List.getElem?_append_left less] at found
    exact .inl found
  · subst same
    simp at found
    exact .inr ⟨rfl, found.symm⟩
  · rw [List.getElem?_eq_none (by simp; omega)] at found
    cases found

theorem progressWake (progress : Progress ch ch') (wake : ch'.wake = true) : ch.wake = true := by
  rcases progress with ⟨_, _, _, same, _⟩ | ⟨_, _, same, _⟩ | ⟨_, _, same, _⟩ | ⟨_, _, same, _⟩ | ⟨_, _, same, _⟩ <;>
    exact same ▸ wake

theorem placedKeeps (progress : Progress ch ch') (placed : Placed ch r) : Placed ch' r := by
  unfold Placed at *
  rcases progress with ⟨kind, -, current, -, quiet, -, -⟩ | ⟨-, current, -, quiet, -⟩ | ⟨-, current, -, -, rolled⟩ |
    ⟨-, current, -, -, -, rolled⟩ | ⟨-, current, -, -, -, -⟩
  · rw [current]
    exact .inl (placed.resolve_right fun h => quiet.2 h.2)
  · rw [current]
    exact .inl (placed.resolve_right fun h => quiet.2 h.2)
  · rw [current, rolled]
    exact placed
  · rw [current, rolled]
    exact placed
  · rcases current with ⟨-, next⟩ | ⟨still, same⟩
    · rw [next]
      exact .inl (placed.elim (fun le => le.trans (Nat.le_succ _)) fun h => h.1.le)
    · rw [same]
      exact .inl (placed.resolve_right fun h => still h.2)

theorem rollsKeep (progress : Progress ch ch') (rolls : RollsLast ch) : RollsLast ch' := by
  intro q mem
  rcases progress with ⟨kind, same, current, -, quiet, -, roll⟩ | ⟨same, current, -, quiet, -⟩ | ⟨same, current, -, -, rolled⟩ |
    ⟨same, current, -, -, -, rolled⟩ | ⟨same, current, -, -, -, -⟩
  · rw [same] at mem
    rw [current]
    by_cases here : q = ch.current
    · subst here
      rw [Function.update_self] at mem
      rcases List.mem_append.mp mem with old | last
      · exact absurd (((rolls _ old).resolve_left (Nat.lt_irrefl _)).2) quiet.2
      · exact .inr ⟨rfl, roll.mp (List.mem_singleton.mp last).symm⟩
    · rw [Function.update_of_ne here] at mem
      exact .inl ((rolls q mem).resolve_right fun h => here h.1)
  · rw [same] at mem
    rw [current]
    by_cases here : q = ch.current + 1
    · subst here
      rw [Function.update_self] at mem
      simp at mem
    · rw [Function.update_of_ne here] at mem
      exact .inl ((rolls q mem).resolve_right fun h => quiet.2 h.2)
  · rw [same] at mem
    rw [current, rolled]
    refine rolls q ?_
    by_cases here : q = ch.current
    · subst here
      rw [Function.update_self] at mem
      exact mem
    · rw [Function.update_of_ne here] at mem
      exact mem
  · rw [(same q).1] at mem
    rw [current, rolled]
    exact rolls q mem
  · rw [same] at mem
    have old := rolls q mem
    rcases current with ⟨-, next⟩ | ⟨still, same⟩
    · rw [next]
      exact .inl (by omega)
    · rw [same]
      exact .inl (old.resolve_right fun h => still h.2)

/- Where a reader is, a step changes records and bumps of the current segment only. -/
theorem elsewhere (progress : Progress ch ch') (placed : Placed ch r) (other : r.fileSequence ≠ ch.current) :
    (ch'.segments r.fileSequence).records = (ch.segments r.fileSequence).records ∧
      (ch'.segments r.fileSequence).bumps = (ch.segments r.fileSequence).bumps ∧
      (ch'.segments r.fileSequence).startWord = (ch.segments r.fileSequence).startWord := by
  rcases progress with ⟨kind, same, -, -, -, -, -⟩ | ⟨same, -, -, quiet, -⟩ | ⟨same, -, -, -, -⟩ | ⟨same, -, -, -, -, -⟩ |
    ⟨same, -, -, -, -, -⟩
  · rw [same, Function.update_of_ne other]
    exact ⟨rfl, rfl, rfl⟩
  · have older : r.fileSequence ≤ ch.current := placed.resolve_right fun h => quiet.2 h.2
    rw [same, Function.update_of_ne (by omega)]
    exact ⟨rfl, rfl, rfl⟩
  · rw [same, Function.update_of_ne other]
    exact ⟨rfl, rfl, rfl⟩
  · exact same _
  · rw [same]
    exact ⟨rfl, rfl, rfl⟩

theorem countsKeep (progress : Progress ch ch') (placed : Placed ch r) :
    (ch.segments r.fileSequence).bumps ≤ (ch'.segments r.fileSequence).bumps ∧
      (ch'.segments r.fileSequence).startWord = (ch.segments r.fileSequence).startWord ∧
      (ch.segments r.fileSequence).records <+: (ch'.segments r.fileSequence).records := by
  by_cases here : r.fileSequence = ch.current
  · rcases progress with ⟨kind, same, -, -, -, -, -⟩ | ⟨same, -, -, quiet, -⟩ | ⟨same, -, -, -, -⟩ | ⟨same, -, -, -, -, -⟩ |
      ⟨same, -, -, -, -, -⟩
    · rw [same, here, Function.update_self]
      exact ⟨Nat.le_refl _, rfl, List.prefix_append _ _⟩
    · rw [same, here, Function.update_of_ne (by omega)]
      exact ⟨Nat.le_refl _, rfl, List.prefix_refl _⟩
    · rw [same, here, Function.update_self]
      exact ⟨Nat.le_succ _, rfl, List.prefix_refl _⟩
    · obtain ⟨records, bumps, start⟩ := same r.fileSequence
      exact ⟨bumps.ge, start, records ▸ List.prefix_refl _⟩
    · rw [same]
      exact ⟨Nat.le_refl _, rfl, List.prefix_refl _⟩
  · obtain ⟨records, bumps, start⟩ := elsewhere progress placed here
    exact ⟨bumps.ge, start, records ▸ List.prefix_refl _⟩

theorem heardKeeps (progress : Progress ch ch') (placed : Placed ch r) (heard : Heard ch r sn) : Heard ch' r sn := by
  obtain ⟨counts, start, -⟩ := countsKeep progress placed
  refine ⟨heard.1, fun same => ?_⟩
  rw [start]
  exact ⟨(heard.2 same).1.trans counts, (heard.2 same).2⟩

theorem unbumpedUnwoken {x : WriterAt} (unbumped : Unbumped x) : Unwoken x := by
  cases x <;> trivial

/- A writer that is not busy has left nothing to wait for; nor has one that is busy elsewhere. -/
theorem quietNone {P : WriterAt → Prop} (quiet : Quiet P ch r) (idle : P ch.writer → ch.current ≠ r.fileSequence) {j : Nat}
    {kind : HeaderType} (after : r.position ≤ j) (found : (ch.segments r.fileSequence).records[j]? = some kind) : ¬ Loud kind := by
  intro loud
  obtain ⟨here, -, busy⟩ := quiet j kind after found loud
  exact idle busy here

theorem quietElsewhere {P Q : WriterAt → Prop} (quiet : Quiet P ch r) (idle : P ch.writer → ch.current ≠ r.fileSequence)
    (same : (ch'.segments r.fileSequence).records = (ch.segments r.fileSequence).records) : Quiet Q ch' r := by
  intro j kind after found loud
  rw [same] at found
  exact absurd loud (quietNone quiet idle after found)

/- A record that a busy writer appends is pending. -/
theorem quietAppends {P Q : WriterAt → Prop} {kind : HeaderType} (quiet : Quiet P ch r) (idle : ¬ P ch.writer)
    (placed : Placed ch r) (progress : Progress ch ch')
    (same : ch'.segments = Function.update ch.segments ch.current { ch.own with records := ch.own.records ++ [kind] })
    (current : ch'.current = ch.current) (pending : Loud kind → Q ch'.writer) : Quiet Q ch' r := by
  by_cases here : r.fileSequence = ch.current
  · intro j k after found loud
    have own : ch'.own.records = ch.own.records ++ [kind] := by
      rw [Channel.own, current, same, Function.update_self]
    rw [here, same, Function.update_self] at found
    rcases appended found with old | ⟨rfl, rfl⟩
    · refine absurd loud (quietNone quiet (fun busy => absurd busy idle) after ?_)
      rw [here]
      exact old
    · refine ⟨current.trans here.symm, ?_, pending loud⟩
      rw [own]
      simp
  · exact quietElsewhere quiet (fun busy => absurd busy idle) (elsewhere progress placed here).1

theorem lookedKeeps (progress : Progress ch ch') (placed : Placed ch r) (heard : Heard ch r sn) (looked : Looked ch r sn) :
    Looked ch' r sn := by
  intro wake' here unmoved'
  have counts := (countsKeep progress placed).1
  have unmoved : (ch.segments r.fileSequence).bumps = sn.bumps :=
    Nat.le_antisymm (counts.trans unmoved'.le) (heard.2 here).1
  have quiet (wake : ch'.wake = ch.wake) : Quiet Unbumped ch r := looked (wake ▸ wake') here unmoved
  rcases progress with ⟨kind, same, current, wake, still, pending, roll⟩ | ⟨same, current, wake, still, rolled⟩ |
    ⟨same, current, wake, after, rolled⟩ | ⟨same, current, wake, unbumped, unwoken, rolled⟩ |
    ⟨same, current, wake, idle, unbumped, woken⟩
  · exact quietAppends (quiet wake) (fun busy => still.1 (unbumpedUnwoken busy)) placed
      (.appends kind same current wake still pending roll) same current pending
  · refine quietElsewhere (quiet wake) (fun busy => absurd (unbumpedUnwoken busy) still.1) ?_
    have older : r.fileSequence ≤ ch.current := placed.resolve_right fun h => still.2 h.2
    rw [same, Function.update_of_ne (by omega)]
  · have away : r.fileSequence ≠ ch.current := by
      intro at'
      have more : ch.own.bumps + 1 = sn.bumps := by
        rw [same, at', Function.update_self] at unmoved'
        exact unmoved'
      have equal : ch.own.bumps = sn.bumps := by
        rw [at'] at unmoved
        exact unmoved
      omega
    refine quietElsewhere (quiet wake) (fun _ at' => away at'.symm) ?_
    rw [same, Function.update_of_ne away]
  · intro j kind after found loud
    rw [(same _).1] at found
    obtain ⟨at', last, busy⟩ := quiet wake j kind after found loud
    refine ⟨current.trans at', ?_, unbumped (wake ▸ wake') busy⟩
    rw [Channel.own, current, (same _).1]
    exact last
  · exact quietElsewhere (quiet wake) (fun busy => absurd busy (unbumped (wake ▸ wake'))) (by rw [same])

/- While the thread sleeps; a writer that ends its call has woken it. -/
theorem quietKeeps (progress : Progress ch ch') (placed : Placed ch r) (wake' : ch'.wake = true) (quiet : Quiet Unwoken ch r)
    (asleep : r.fileSequence = ch.current → ∀ kind, ch.writer ≠ .waking kind) : Quiet Unwoken ch' r := by
  rcases progress with ⟨kind, same, current, wake, still, pending, roll⟩ | ⟨same, current, wake, still, rolled⟩ |
    ⟨same, current, wake, after, rolled⟩ | ⟨same, current, wake, unbumped, unwoken, rolled⟩ |
    ⟨same, current, wake, idle, unbumped, woken⟩
  · exact quietAppends quiet still.1 placed (.appends kind same current wake still pending roll) same current
      fun loud => unbumpedUnwoken (pending loud)
  · refine quietElsewhere quiet (fun busy => absurd busy still.1) ?_
    have older : r.fileSequence ≤ ch.current := placed.resolve_right fun h => still.2 h.2
    rw [same, Function.update_of_ne (by omega)]
  · have records (q : Nat) : (ch'.segments q).records = (ch.segments q).records := by
      by_cases here : q = ch.current
      · rw [same, here, Function.update_self]
        rfl
      · rw [same, Function.update_of_ne here]
    intro j kind after' found loud
    rw [records] at found
    obtain ⟨at', last, -⟩ := quiet j kind after' found loud
    refine ⟨current.trans at', ?_, after⟩
    rw [Channel.own, current, records]
    exact last
  · intro j kind after found loud
    rw [(same _).1] at found
    obtain ⟨at', last, busy⟩ := quiet j kind after found loud
    refine ⟨current.trans at', ?_, unwoken (wake ▸ wake') busy⟩
    rw [Channel.own, current, (same _).1]
    exact last
  · refine quietElsewhere quiet (fun busy at' => ?_) (by rw [same])
    obtain ⟨kind, waking⟩ := woken (wake ▸ wake') busy
    exact asleep at'.symm kind waking

end Kept

section Phases

def HeardAll (s : WakeWords.State) (seen : List Seen) : Prop :=
  ∀ (i k : Nat) (sn : Seen), s.call[i]? = some k → seen[i]? = some sn → Heard (s.channelOf (s.readers k)) (s.readers k) sn

def LookedTo (s : WakeWords.State) (seen : List Seen) (n : Nat) : Prop :=
  ∀ (i k : Nat) (sn : Seen), i < n → s.call[i]? = some k → seen[i]? = some sn → Looked (s.channelOf (s.readers k)) (s.readers k) sn

/-- No reader that is slept on misses anything. -/
def Guarded (s : WakeWords.State) (seen : List Seen) : Prop :=
  ∀ (i k : Nat) (sn : Seen), s.call[i]? = some k → seen[i]? = some sn → (wordOf s k sn).isSome → (s.channelOf (s.readers k)).wake = true →
    Quiet Unwoken (s.channelOf (s.readers k)) (s.readers k)

def PhaseOk (s : WakeWords.State) : Prop :=
  match s.phase with
  | .returned _ => True
  | .loading seen => HeardAll s seen
  | .looking seen i => HeardAll s seen ∧ LookedTo s seen i
  | .deciding seen | .judging seen _ | .distrusting seen _ => HeardAll s seen ∧ LookedTo s seen s.call.length
  | .asleep seen words full => HeardAll s seen ∧ LookedTo s seen s.call.length ∧ Guarded s seen ∧ words = wordsOf s seen ∧
      (full = true → words.length = s.call.length)

structure Inv (s : WakeWords.State) : Prop where
  rolls : ∀ c, RollsLast (s.channels c)
  placed : ∀ k, Placed (s.channelOf (s.readers k)) (s.readers k)
  distinct : s.call.Nodup
  alone : s.single = true → s.call.length = 1
  phase : PhaseOk s

/- Fewer than 2^32 bumps between a load and its wait. -/
def fewBumps (s : WakeWords.State) (a : Move) : Bool :=
  match a, s.phase with
  | .thread _, .deciding seen => (s.call.zip seen).all fun e =>
    decide ((s.readers e.1).fileSequence = e.2.sequence → (s.segmentOf (s.readers e.1)).bumps < e.2.bumps + 2 ^ 32)
  | _, _ => true

/-- Writers go on, readers and the call stay. -/
structure Grows (s t : WakeWords.State) : Prop where
  readers : t.readers = s.readers
  call : t.call = s.call
  single : t.single = s.single
  channels : ∀ c, t.channels c = s.channels c ∨ Progress (s.channels c) (t.channels c)

theorem Grows.placed (grows : Grows s t) {k : Nat} (placed : Placed (s.channelOf (s.readers k)) (s.readers k)) :
    Placed (t.channelOf (t.readers k)) (t.readers k) := by
  unfold WakeWords.State.channelOf at *
  rw [grows.readers]
  rcases grows.channels (s.readers k).channel with same | progress
  · rw [same]
    exact placed
  · exact placedKeeps progress placed

theorem Grows.heard (grows : Grows s t) (placed : ∀ k, Placed (s.channelOf (s.readers k)) (s.readers k)) {seen : List Seen}
    (heard : HeardAll s seen) : HeardAll t seen := by
  intro i k sn at' found
  rw [grows.call] at at'
  have before := heard i k sn at' found
  have here := placed k
  unfold WakeWords.State.channelOf at *
  rw [grows.readers]
  rcases grows.channels (s.readers k).channel with same | progress
  · rw [same]
    exact before
  · exact heardKeeps progress here before

theorem Grows.looked (grows : Grows s t) (placed : ∀ k, Placed (s.channelOf (s.readers k)) (s.readers k)) {seen : List Seen}
    (heard : HeardAll s seen) {n : Nat} (looked : LookedTo s seen n) : LookedTo t seen n := by
  intro i k sn less at' found
  rw [grows.call] at at'
  have before := looked i k sn less at' found
  have known := heard i k sn at' found
  have here := placed k
  unfold WakeWords.State.channelOf at *
  rw [grows.readers]
  rcases grows.channels (s.readers k).channel with same | progress
  · rw [same]
    exact before
  · exact lookedKeeps progress here known before

theorem Grows.words (grows : Grows s t) (seen : List Seen) : wordsOf t seen = wordsOf s seen := by
  unfold wordsOf wordOf
  rw [grows.call, grows.readers]

theorem wordsLength (s : WakeWords.State) (seen : List Seen) : (wordsOf s seen).length ≤ s.call.length :=
  (List.length_filterMap_le _ _).trans (by rw [List.length_zip]; exact Nat.min_le_left _ _)

/- As many words as readers: the word of each. -/
theorem allIncluded {seen : List Seen} (whole : (wordsOf s seen).length = s.call.length) {i k : Nat} (at' : s.call[i]? = some k) :
    ∃ sn, seen[i]? = some sn ∧ (wordOf s k sn).isSome := by
  have most : (wordsOf s seen).length ≤ (s.call.zip seen).length := List.length_filterMap_le _ _
  have zipped := @List.length_zip _ _ s.call seen
  have every := List.filterMap_length_eq_length.mp (show (wordsOf s seen).length = (s.call.zip seen).length by omega)
  have inside := (List.getElem?_eq_some_iff.mp at').1
  have loaded : i < seen.length := by omega
  refine ⟨seen[i], List.getElem?_eq_getElem loaded, every (k, seen[i]) (List.mem_of_getElem? (i := i) ?_)⟩
  rw [List.getElem?_zip_eq_some]
  exact ⟨at', List.getElem?_eq_getElem loaded⟩

theorem wordIncluded {seen : List Seen} {i k : Nat} (at' : s.call[i]? = some k) (found : seen[i]? = some sn)
    (included : (wordOf s k sn).isSome) : ∃ w ∈ wordsOf s seen, w.channel = (s.readers k).channel ∧
      w.sequence = (s.readers k).fileSequence ∧ (s.readers k).fileSequence = sn.sequence ∧ sn.value = some w.value := by
  obtain ⟨w, is⟩ := Option.isSome_iff_exists.mp included
  refine ⟨w, List.mem_filterMap.mpr ⟨(k, sn), ?_, is⟩, ?_⟩
  · refine List.mem_of_getElem? (i := i) ?_
    rw [List.getElem?_zip_eq_some]
    exact ⟨at', found⟩
  · unfold wordOf at is
    dsimp only at is
    split at is
    next same =>
      obtain ⟨v, value, rfl⟩ := Option.map_eq_some_iff.mp is
      exact ⟨rfl, rfl, same, value⟩
    next => cases is

end Phases

section Steps

theorem growsGuarded (inv : Inv s) (grows : Grows s t) {seen : List Seen} (guarded : Guarded s seen)
    (quietly : ∀ w ∈ wordsOf s seen, t.channels w.channel ≠ s.channels w.channel → w.sequence = (s.channels w.channel).current →
      ∀ kind, (s.channels w.channel).writer ≠ .waking kind) : Guarded t seen := by
  intro i k sn at' found included wake
  rw [grows.call] at at'
  have same : wordOf t k sn = wordOf s k sn := by
    unfold wordOf
    rw [grows.readers]
  rw [same] at included
  obtain ⟨w, mem, here, sequence, -, -⟩ := wordIncluded at' found included
  have before := guarded i k sn at' found included
  have placed := inv.placed k
  unfold WakeWords.State.channelOf at *
  rw [grows.readers] at wake ⊢
  rcases grows.channels (s.readers k).channel with still | progress
  · rw [still] at wake ⊢
    exact before wake
  · by_cases moved : t.channels (s.readers k).channel = s.channels (s.readers k).channel
    · rw [moved] at wake ⊢
      exact before wake
    · have was := progressWake progress wake
      refine quietKeeps progress placed wake (before was) fun at' => ?_
      rw [← here] at moved at' ⊢
      exact quietly w mem moved (sequence.trans at')

/- A step of a writer; a thread asleep on the word of a writer that ends its call has been woken. -/
theorem growsKeeps (inv : Inv s) (grows : Grows s t) (phase : t.phase = s.phase ∨ t.phase = .loading [])
    (quietly : ∀ seen words full, t.phase = .asleep seen words full → ∀ w ∈ words, t.channels w.channel ≠ s.channels w.channel →
      w.sequence = (s.channels w.channel).current → ∀ kind, (s.channels w.channel).writer ≠ .waking kind) : Inv t := by
  refine ⟨fun c => ?_, fun k => grows.placed (inv.placed k), grows.call ▸ inv.distinct, ?_, ?_⟩
  · rcases grows.channels c with same | progress
    · rw [same]
      exact inv.rolls c
    · exact rollsKeep progress (inv.rolls c)
  · rw [grows.single, grows.call]
    exact inv.alone
  · have ok := inv.phase
    unfold PhaseOk at ok ⊢
    rcases phase with same | again
    · rw [same] at quietly ⊢
      cases at' : s.phase with
      | returned found => trivial
      | loading seen =>
        rw [at'] at ok
        exact grows.heard inv.placed ok
      | looking seen i =>
        rw [at'] at ok
        exact ⟨grows.heard inv.placed ok.1, grows.looked inv.placed ok.1 ok.2⟩
      | deciding seen | judging seen i | distrusting seen i =>
        rw [at'] at ok
        dsimp only
        rw [grows.call]
        exact ⟨grows.heard inv.placed ok.1, grows.looked inv.placed ok.1 ok.2⟩
      | asleep seen words full =>
        rw [at'] at ok
        obtain ⟨heard, looked, guarded, rfl, whole⟩ := ok
        dsimp only
        rw [grows.call]
        exact ⟨grows.heard inv.placed heard, grows.looked inv.placed heard looked,
          growsGuarded inv grows guarded (quietly seen _ full at'), (grows.words seen).symm, whole⟩
    · rw [again]
      rintro i k sn _ ⟨⟩

theorem updateGrows {c : Nat} (progress : Progress (s.channels c) ch') (phase : WaitAt) :
    Grows s { s.setChannel c ch' with phase := phase } := by
  refine ⟨rfl, rfl, rfl, fun d => ?_⟩
  show Function.update s.channels c ch' d = _ ∨ Progress _ (Function.update s.channels c ch' d)
  by_cases same : d = c
  · subst same
    rw [Function.update_self]
    exact .inr progress
  · rw [Function.update_of_ne same]
    exact .inl rfl

theorem futexWakeCases (c q : Nat) (x : WaitAt) : futexWake c q x = x ∨ futexWake c q x = .loading [] := by
  cases x with
  | asleep seen words full =>
    unfold futexWake
    dsimp only
    split
    · exact .inr rfl
    · exact .inl rfl
  | _ => exact .inl rfl

/- What the writers do to the rest: nothing, or the thread is woken. -/
theorem idleGrows {c : Nat} {f : Channel → Channel} (taken : onIdle s c f = some t)
    (progress : (s.channels c).writer = .idle → Progress (s.channels c) (f (s.channels c))) :
    Grows s t ∧ t.phase = s.phase ∧ t.channels = Function.update s.channels c (f (s.channels c)) ∧ (s.channels c).writer = .idle := by
  unfold onIdle at taken
  split at taken <;> cases taken
  next idle => exact ⟨updateGrows (progress idle) s.phase, rfl, rfl, idle⟩

theorem writerGrows {c : Nat} (taken : writerStep s c = some t) :
    Grows s t ∧ (t.phase = s.phase ∨ t.phase = .loading []) := by
  obtain ⟨next, advanced, made⟩ := Option.map_eq_some_iff.mp taken
  have progress := advanceProgress advanced
  dsimp only at made
  split at made <;> subst made
  · exact ⟨updateGrows progress _, futexWakeCases c _ s.phase⟩
  · exact ⟨updateGrows progress s.phase, .inl rfl⟩

theorem updatedHere {c d : Nat} (moved : Function.update s.channels c ch' d ≠ s.channels d) : d = c := by
  by_contra other
  exact moved (Function.update_of_ne other _ _)

theorem idleKeeps (inv : Inv s) {c : Nat} {f : Channel → Channel} (taken : onIdle s c f = some t)
    (progress : (s.channels c).writer = .idle → Progress (s.channels c) (f (s.channels c))) : Inv t := by
  obtain ⟨grows, phase, channels, idle⟩ := idleGrows taken progress
  refine growsKeeps inv grows (.inl phase) ?_
  intro seen words full _ w _ moved _ kind waking
  rw [channels] at moved
  rw [updatedHere moved, idle] at waking
  cases waking

theorem writerKeeps (inv : Inv s) {c : Nat} (taken : writerStep s c = some t) : Inv t := by
  obtain ⟨grows, phase⟩ := writerGrows taken
  refine growsKeeps inv grows phase ?_
  obtain ⟨next, advanced, made⟩ := Option.map_eq_some_iff.mp taken
  intro seen words full asleep w mem moved sequence kind waking
  dsimp only at made
  split at made <;> subst made
  next =>
    -- the writer that ends its call has woken who slept on this word
    have here := updatedHere moved
    change futexWake c _ s.phase = _ at asleep
    unfold futexWake at asleep
    split at asleep
    · split at asleep
      · cases asleep
      next away =>
        cases asleep
        refine absurd (List.any_eq_true.mpr ⟨w, mem, ?_⟩) away
        rw [here] at sequence
        simp [here, sequence]
    next other => exact absurd asleep (other seen words full)
  next other =>
    rw [updatedHere moved] at waking
    exact other kind waking

/- The thread alone moves, and it leaves the readers where they are. -/
theorem phaseMoves (inv : Inv s) (x : WaitAt) (ok : PhaseOk { s with phase := x }) : Inv { s with phase := x } :=
  { inv with phase := ok }

theorem placedPass (inv : Inv s) {k : Nat} {kind : HeaderType} (found : s.header (s.readers k) = some kind) :
    Placed (s.channelOf (s.readers k)) ((s.readers k).pass kind) := by
  have placed := inv.placed k
  cases kind with
  | roll =>
    have last := inv.rolls (s.readers k).channel _ (List.mem_of_getElem? found)
    rcases last with before | ⟨here, rolled⟩
    · exact .inl before
    · exact .inr ⟨congrArg (· + 1) here, rolled⟩
  | user | skip | channel => exact placed

/- A reader that goes on keeps what was loaded for it. -/
theorem heardPass {kind : HeaderType} (heard : Heard ch r sn) : Heard ch (r.pass kind) sn := by
  cases kind with
  | roll =>
    refine ⟨heard.1.trans (Nat.le_succ _), fun same => ?_⟩
    have le := heard.1
    change r.fileSequence + 1 = sn.sequence at same
    omega
  | user | skip | channel => exact heard

theorem lookedPass {kind : HeaderType} (heard : Heard ch r sn) (looked : Looked ch r sn) : Looked ch (r.pass kind) sn := by
  cases kind with
  | roll =>
    intro _ same
    have le := heard.1
    change r.fileSequence + 1 = sn.sequence at same
    omega
  | user | skip | channel =>
    intro wake same unmoved j kind after found loud
    exact looked wake same unmoved j kind ((Nat.le_succ _).trans after) found loud

theorem readerOther {k k' : Nat} {x : Reader} (other : k' ≠ k) : (s.setReader k x).readers k' = s.readers k' :=
  Function.update_of_ne other _ _

theorem readerSame {k : Nat} {x : Reader} : (s.setReader k x).readers k = x := Function.update_self _ _ _

theorem readerPlaced (inv : Inv s) {k : Nat} {x : Reader} (own : Placed (s.channelOf x) x) (k' : Nat) :
    Placed ((s.setReader k x).channelOf ((s.setReader k x).readers k')) ((s.setReader k x).readers k') := by
  by_cases same : k' = k
  · subst same
    rw [readerSame]
    exact own
  · rw [readerOther same]
    exact inv.placed k'

theorem passPlaced (inv : Inv s) {k : Nat} {kind : HeaderType} (found : s.header (s.readers k) = some kind) :
    Placed (s.channelOf ((s.readers k).pass kind)) ((s.readers k).pass kind) := by
  have channel : ((s.readers k).pass kind).channel = (s.readers k).channel := by cases kind <;> rfl
  unfold WakeWords.State.channelOf
  rw [channel]
  exact placedPass inv found

theorem passHeard {k : Nat} {kind : HeaderType} {seen : List Seen} (heard : HeardAll s seen) :
    HeardAll (s.setReader k ((s.readers k).pass kind)) seen := by
  have channel : ((s.readers k).pass kind).channel = (s.readers k).channel := by cases kind <;> rfl
  intro i k' sn at' found
  have before := heard i k' sn at' found
  by_cases same : k' = k
  · subst same
    rw [readerSame]
    show Heard (s.channels _) _ sn
    rw [channel]
    exact heardPass before
  · rw [readerOther same]
    exact before

/- The readers before the one that goes on are others, or have looked. -/
theorem passLooked {k n : Nat} {kind : HeaderType} {seen : List Seen} (heard : HeardAll s seen) (looked : LookedTo s seen n) :
    LookedTo (s.setReader k ((s.readers k).pass kind)) seen n := by
  have channel : ((s.readers k).pass kind).channel = (s.readers k).channel := by cases kind <;> rfl
  intro i k' sn less at' found
  have before := looked i k' sn less at' found
  by_cases same : k' = k
  · subst same
    rw [readerSame]
    show Looked (s.channels _) _ sn
    rw [channel]
    exact lookedPass (heard i k' sn at' found) before
  · rw [readerOther same]
    exact before

/- Nothing is there: the reader has looked. -/
theorem lookedNext {seen : List Seen} {i k : Nat} (looked : LookedTo s seen i) (at' : s.call[i]? = some k)
    (none' : s.header (s.readers k) = none) : LookedTo s seen (i + 1) := by
  intro i' k' sn less here found
  by_cases same : i' = i
  · subst same
    obtain rfl := Option.some.inj (at'.symm.trans here)
    intro _ _ _ j kind after there _
    have past := List.getElem?_eq_none_iff.mp none'
    have inside := (List.getElem?_eq_some_iff.mp there).1
    unfold WakeWords.State.segmentOf at past
    omega
  · exact looked i' k' sn (by omega) here found

theorem loadedNext {seen : List Seen} {k : Nat} (heard : HeardAll s seen) (at' : s.call[seen.length]? = some k) :
    HeardAll s (seen ++ [⟨(s.readers k).fileSequence, wakeWordIfWaking s (s.readers k), (s.segmentOf (s.readers k)).bumps⟩]) := by
  intro i k' sn here found
  rcases Nat.lt_trichotomy i seen.length with less | same | more
  · rw [List.getElem?_append_left less] at found
    exact heard i k' sn here found
  · subst same
    obtain rfl := Option.some.inj (at'.symm.trans here)
    simp only [List.getElem?_append_right (Nat.le_refl _), Nat.sub_self, List.getElem?_cons_zero, Option.some.injEq] at found
    subst found
    refine ⟨Nat.le_refl _, fun _ => ⟨Nat.le_refl _, fun v value => ?_⟩⟩
    dsimp only [wakeWordIfWaking] at value
    split at value
    · cases value
    · split at value <;> cases value
      rfl
  · rw [List.getElem?_eq_none (by simp; omega)] at found
    cases found

/- The word compared is the word loaded: it has not moved. -/
theorem unmoved {start now then' : Nat} (same : (start + now) % 2 ^ 32 = (start + then') % 2 ^ 32) (after : then' ≤ now)
    (few : now < then' + 2 ^ 32) : now = then' := by
  omega

theorem sleepGuarded {seen : List Seen} (heard : HeardAll s seen) (looked : LookedTo s seen s.call.length)
    (few : ∀ e ∈ s.call.zip seen, (s.readers e.1).fileSequence = e.2.sequence →
      (s.segmentOf (s.readers e.1)).bumps < e.2.bumps + 2 ^ 32)
    (hold : (wordsOf s seen).all (holds s) = true) : Guarded s seen := by
  intro i k sn at' found included wake
  obtain ⟨w, mem, channel, sequence, here, value⟩ := wordIncluded at' found included
  have word : ((s.channelOf (s.readers k)).segments (s.readers k).fileSequence).wakeWord = w.value := by
    have same := List.all_eq_true.mp hold w mem
    simpa [holds, channel, sequence, WakeWords.State.channelOf] using same
  obtain ⟨since, loaded⟩ := (heard i k sn at' found).2 here
  have within := few (k, sn) (List.mem_of_getElem? (List.getElem?_zip_eq_some.mpr ⟨at', found⟩)) here
  have still := unmoved (word.trans (loaded w.value value)) since within
  have quiet := looked i k sn (List.getElem?_eq_some_iff.mp at').1 at' found wake here still
  intro j kind after there loud
  obtain ⟨current, last, busy⟩ := quiet j kind after there loud
  exact ⟨current, last, unbumpedUnwoken busy⟩

/- A sleep is on every word there is, unmoved; a full one of `wait_any` is on the words of all readers. -/
theorem decideCases (time : Timing) (s : WakeWords.State) (seen : List Seen) : decideSleep time s seen = .returned none ∨
    decideSleep time s seen = .loading [] ∨ ∃ full, decideSleep time s seen = .asleep seen (wordsOf s seen) full ∧
      (wordsOf s seen).all (holds s) = true ∧ wordsOf s seen ≠ [] ∧
      (full = true → s.single = true ∨ (wordsOf s seen).length = s.call.length) := by
  unfold decideSleep
  dsimp only
  split
  · exact .inl rfl
  · split
    next single =>
      split
      next sleeps => exact .inr (.inr ⟨_, rfl, sleeps.2, sleeps.1, fun _ => .inl single⟩)
      next => exact .inr (.inl rfl)
    next =>
      split
      next sleeps => exact .inr (.inr ⟨_, rfl, sleeps.2.2.2, sleeps.1, fun full => .inr (by simp at full; exact full.1)⟩)
      next => exact .inr (.inl rfl)

theorem decideKeeps (inv : Inv s) {time : Timing} {seen : List Seen} (at' : s.phase = .deciding seen) (few : fewBumps s (.thread time)) :
    Inv { s with phase := decideSleep time s seen } := by
  have ok := inv.phase
  unfold PhaseOk at ok
  rw [at'] at ok
  obtain ⟨heard, looked⟩ := ok
  simp only [fewBumps, at', List.all_eq_true, decide_eq_true_eq] at few
  refine phaseMoves inv _ ?_
  rcases decideCases time s seen with left | again | ⟨full, sleeps, hold, some', whole⟩
  · rw [left]
    trivial
  · rw [again]
    rintro i k sn _ ⟨⟩
  · rw [sleeps]
    refine ⟨heard, looked, sleepGuarded heard looked few hold, rfl, fun long => ?_⟩
    rcases whole long with single | all
    · have one := inv.alone single
      have most := wordsLength s seen
      have least := List.length_pos_of_ne_nil some'
      dsimp only
      omega
    · exact all

/- `distrust_flag_if_unwoken` moves no cursor. -/
theorem distrustSame (s : WakeWords.State) (r : Reader) (q v : Nat) :
    (distrustFlagIfUnwoken s r q v).channel = r.channel ∧ (distrustFlagIfUnwoken s r q v).fileSequence = r.fileSequence := by
  unfold distrustFlagIfUnwoken
  split
  · exact ⟨rfl, rfl⟩
  · split <;> exact ⟨rfl, rfl⟩

theorem threadKeeps (inv : Inv s) {time : Timing} (few : fewBumps s (.thread time)) (taken : threadStep time s = some t) : Inv t := by
  have ok := inv.phase
  unfold PhaseOk at ok
  have again : HeardAll s [] := by rintro i k sn _ ⟨⟩
  cases at' : s.phase with
  | returned found =>
    simp only [threadStep, at'] at taken
    cases taken
  | loading seen =>
    rw [at'] at ok
    simp only [threadStep, at'] at taken
    split at taken <;> cases taken
    next => exact phaseMoves inv _ ⟨ok, fun i k sn less => absurd less (Nat.not_lt_zero i)⟩
    next k here => exact phaseMoves inv _ (loadedNext ok here)
  | looking seen i =>
    rw [at'] at ok
    simp only [threadStep, at'] at taken
    split at taken
    next past =>
      cases taken
      refine phaseMoves inv _ ⟨ok.1, fun i' k sn less here found => ok.2 i' k sn ?_ here found⟩
      exact less.trans_le (List.getElem?_eq_none_iff.mp past)
    next k here =>
      split at taken <;> cases taken
      next nothing => exact phaseMoves inv _ ⟨ok.1, lookedNext ok.2 here nothing⟩
      next => exact phaseMoves inv _ trivial
      next kind _ found =>
        refine ⟨inv.rolls, readerPlaced inv (passPlaced inv found), inv.distinct, inv.alone, ?_⟩
        unfold PhaseOk
        rw [show (s.setReader k _).phase = .looking seen i from at']
        exact ⟨passHeard ok.1, passLooked ok.1 ok.2⟩
  | deciding seen =>
    simp only [threadStep, at'] at taken
    cases taken
    exact decideKeeps inv at' few
  | asleep seen words full =>
    rw [at'] at ok
    simp only [threadStep, at'] at taken
    cases taken
    split
    · exact phaseMoves inv _ ⟨ok.1, ok.2.1⟩
    · exact phaseMoves inv _ again
  | judging seen i =>
    rw [at'] at ok
    simp only [threadStep, at'] at taken
    split at taken
    next => exact Option.some.inj taken ▸ phaseMoves inv _ again
    next k here =>
      split at taken <;> cases taken
      next => exact phaseMoves inv _ ok
      next => exact phaseMoves inv _ ok
      next kind _ found =>
        refine ⟨inv.rolls, readerPlaced inv (passPlaced inv found), inv.distinct, inv.alone, ?_⟩
        unfold PhaseOk
        rw [show (s.setReader k _).phase = .judging seen i from at']
        exact ⟨passHeard ok.1, passLooked ok.1 ok.2⟩
  | distrusting seen i =>
    simp only [threadStep, at'] at taken
    split at taken <;> cases taken
    next k sequence value bumps here _ =>
      obtain ⟨channel, same⟩ := distrustSame s (s.readers k) sequence value
      have own : Placed (s.channelOf (distrustFlagIfUnwoken s (s.readers k) sequence value)) (distrustFlagIfUnwoken s (s.readers k) sequence value) := by
        unfold WakeWords.State.channelOf Placed
        rw [channel, same]
        exact inv.placed k
      exact ⟨inv.rolls, readerPlaced inv own, inv.distinct, inv.alone, trivial⟩
    next => exact phaseMoves inv _ trivial

theorem stepKeeps (inv : Inv s) {a : Move} (few : fewBumps s a) (taken : step s a = some t) : Inv t := by
  cases a with
  | commit c => exact idleKeeps inv taken commitProgress
  | skip c => exact idleKeeps inv taken skipProgress
  | roll c => exact idleKeeps inv taken rollProgress
  | writer c => exact writerKeeps inv taken
  | thread time => exact threadKeeps inv few taken
  | consume k =>
    simp only [step] at taken
    split at taken
    next found' kind at' found =>
      cases taken
      refine ⟨inv.rolls, readerPlaced inv (passPlaced inv found), inv.distinct, inv.alone, ?_⟩
      unfold PhaseOk
      rw [show (s.setReader k _).phase = .returned found' from at']
      trivial
    next => cases taken
  | waitForMessage k =>
    simp only [step] at taken
    split at taken <;> cases taken
    refine ⟨inv.rolls, inv.placed, List.nodup_singleton k, fun _ => rfl, ?_⟩
    rintro i k sn _ ⟨⟩
  | waitAny call =>
    simp only [step] at taken
    split at taken
    next =>
      split at taken <;> cases taken
      next distinct =>
        refine ⟨inv.rolls, inv.placed, distinct.2, by rintro ⟨⟩, ?_⟩
        rintro i k sn _ ⟨⟩
    next => cases taken

end Steps

section Law

/-- A thread between two calls; its readers are on published segments, and Rolls end segments. -/
structure Started (s : WakeWords.State) : Prop where
  between : ∃ found, s.phase = .returned found
  rolls : ∀ c, RollsLast (s.channels c)
  placed : ∀ k, Placed (s.channelOf (s.readers k)) (s.readers k)
  none' : s.call = []
  any : s.single = false

theorem startedInv (started : Started s) : Inv s := by
  obtain ⟨found, between⟩ := started.between
  refine ⟨started.rolls, started.placed, started.none' ▸ List.nodup_nil, by simp [started.any], ?_⟩
  unfold PhaseOk
  rw [between]
  trivial

/- Asleep for the full cap: on the word of each reader's own segment, and what is at its cursor, if anything, is what a
writer has not finished to announce. -/
theorem noLostWakeup (started : Started s) (steps : Steps step (fun u a => fewBumps u a) s t) {seen : List Seen} {words : List Word}
    (asleep : t.phase = .asleep seen words true) {i k : Nat} (at' : t.call[i]? = some k) :
    (∃ w ∈ words, w.channel = (t.readers k).channel ∧ w.sequence = (t.readers k).fileSequence) ∧
    ((t.channelOf (t.readers k)).wake = true → ∀ kind, t.header (t.readers k) = some kind → Loud kind →
      Pending Unwoken (t.channelOf (t.readers k)) (t.readers k).fileSequence (t.readers k).position) := by
  have inv := steps.keeps (I := Inv) (fun _ _ _ now few taken => stepKeeps now few taken) (startedInv started)
  have ok := inv.phase
  unfold PhaseOk at ok
  rw [asleep] at ok
  obtain ⟨-, -, guarded, rfl, whole⟩ := ok
  obtain ⟨sn, loaded, included⟩ := allIncluded (whole rfl) at'
  obtain ⟨w, mem, channel, sequence, -⟩ := wordIncluded at' loaded included
  exact ⟨⟨w, mem, channel, sequence⟩, fun wake kind here loud => guarded i k sn at' loaded included wake _ kind (Nat.le_refl _) here loud⟩

/-- Channel `c` has one segment with its Channel record; reader `c` is behind that record. -/
def sample (wake : Bool) : WakeWords.State where
  channels _ := ⟨wake, fun q => if q = 0 then ⟨[.channel], 0, true, 0, 0⟩ else ⟨[], 0, false, 0, 0⟩, 0, .idle⟩
  readers k := ⟨k, 0, 1, false, none, (0, 0)⟩
  single := false
  call := []
  phase := .returned none

theorem sampleStarted (wake : Bool) : Started (sample wake) := by
  refine ⟨⟨none, rfl⟩, fun c q mem => ?_, fun k => .inl (Nat.le_refl _), rfl, rfl⟩
  change HeaderType.roll ∈ (if q = 0 then _ else _ : Segment).records at mem
  split at mem <;> simp at mem

/- A call that waits for a whole capped sleep, on to its end. -/
def sleeping (steps : Nat) : List Move := List.replicate steps (.thread ⟨false, true, true, true⟩)
def writing (c steps : Nat) : List Move := .commit c :: List.replicate steps (.writer c)

theorem played {ok : WakeWords.State → Move → Prop} [∀ s a, Decidable (ok s a)] {α : Type} {v : WakeWords.State → α} {x : α}
    {schedule : List Move} (shown : (play (guarded step ok) s schedule).map v = some x) : ∃ t, Steps step ok s t ∧ v t = x := by
  obtain ⟨t, run, same⟩ := Option.map_eq_some_iff.mp shown
  exact ⟨t, playSteps run, same⟩

def oneSeen : List Seen := [⟨0, some 0, 0⟩]
def oneWord : List Word := [⟨0, 0, 0⟩]

/- A reader falls asleep, and a record is committed; its bump is still to come. -/
theorem noLostWakeupSmall : ∃ t, Steps step (fun u a => fewBumps u a) (sample true) t ∧
    (t.phase = .asleep oneSeen oneWord true ∧ t.header (t.readers 0) = some .user) ∧
    Pending Unwoken (t.channelOf (t.readers 0)) (t.readers 0).fileSequence (t.readers 0).position := by
  obtain ⟨t, steps, there⟩ := @played (sample true) (fun u a => fewBumps u a) _ _
    (fun t => (t.phase, t.call, t.header (t.readers 0), (t.channelOf (t.readers 0)).wake))
    (.asleep oneSeen oneWord true, [0], some .user, true) (.waitForMessage 0 :: (sleeping 5 ++ writing 0 2)) (by decide +kernel)
  obtain ⟨asleep, rest⟩ := Prod.mk.inj there
  obtain ⟨called, rest⟩ := Prod.mk.inj rest
  obtain ⟨here, waking⟩ := Prod.mk.inj rest
  have reader : t.call[0]? = some 0 := by rw [called]; rfl
  exact ⟨t, steps, ⟨asleep, here⟩, (noLostWakeup (sampleStarted true) steps asleep reader).2 waking .user here (.inl rfl)⟩

/- The bump has been made, and the `FUTEX_WAKE` has not: the reader sleeps with a record at its cursor. -/
theorem bumpedAsleep : Started (sample true) ∧ ∃ t, Steps step (fun u a => fewBumps u a) (sample true) t ∧
    t.phase = .asleep oneSeen oneWord true ∧ t.header (t.readers 0) = some .user ∧
    (t.segmentOf (t.readers 0)).bumps = 1 ∧ (t.channels 0).writer = .waking .user := by
  obtain ⟨t, steps, there⟩ := @played (sample true) (fun u a => fewBumps u a) _ _
    (fun t => (t.phase, t.header (t.readers 0), (t.segmentOf (t.readers 0)).bumps, (t.channels 0).writer))
    (.asleep oneSeen oneWord true, some .user, 1, .waking .user) (.waitForMessage 0 :: (sleeping 5 ++ writing 0 3)) (by decide +kernel)
  obtain ⟨asleep, rest⟩ := Prod.mk.inj there
  obtain ⟨here, rest⟩ := Prod.mk.inj rest
  obtain ⟨bumped, waking⟩ := Prod.mk.inj rest
  exact ⟨sampleStarted true, t, steps, asleep, here, bumped, waking⟩

end Law

end Xchannel.WakeLaws
