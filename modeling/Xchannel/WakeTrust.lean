import Xchannel.WakeLaws

/-! When a reader stops to believe a segment's wake flag: never while the writer wakes, however late it does, and at the
second miss when nobody wakes. -/
namespace Xchannel.WakeTrust
open Format (HeaderType usize)
open Interleaving WakeWords WakeLaws

variable {s t : WakeWords.State} {ch ch' : Channel} {r : Reader} {sn : Seen}

section Waking

/-- A miss was for a record whose bump was still to come. -/
def Missed (ch : Channel) (r : Reader) : Prop :=
  ∀ v, r.wakeMiss = some v →
    v = ((ch.segments r.fileSequence).startWord + r.missedAt.1) % 2 ^ 32 ∧
    r.missedAt.1 ≤ (ch.segments r.fileSequence).bumps ∧
    r.missedAt.2 < (ch.segments r.fileSequence).records.length ∧
    ((ch.segments r.fileSequence).bumps = r.missedAt.1 → Pending Unbumped ch r.fileSequence r.missedAt.2)

/-- The reader has gone past the record of its last miss. -/
def Past (r : Reader) (sn : Seen) : Prop :=
  r.fileSequence = sn.sequence → ∀ v, r.wakeMiss = some v → r.missedAt.2 < r.position

def PastTo (s : WakeWords.State) (seen : List Seen) (n : Nat) : Prop :=
  ∀ (i k : Nat) (sn : Seen), i < n → s.call[i]? = some k → seen[i]? = some sn →
    (s.channelOf (s.readers k)).wake = true → Past (s.readers k) sn

def PastOk (s : WakeWords.State) : Prop :=
  match s.phase with
  | .returned _ | .loading _ => True
  | .looking seen i => PastTo s seen i
  | .deciding seen | .asleep seen _ _ | .judging seen _ => PastTo s seen s.call.length
  | .distrusting seen i => PastTo s seen s.call.length ∧ ∀ k, s.call[i]? = some k → s.header (s.readers k) = some .user

/-- Fewer than 2^32 bumps in a segment. -/
def Bounded (s : WakeWords.State) : Prop := ∀ c q, ((s.channels c).segments q).bumps < 2 ^ 32

structure Trust (s : WakeWords.State) : Prop where
  base : Inv s
  bounded : Bounded s
  missed : ∀ k, (s.channelOf (s.readers k)).wake = true → Missed (s.channelOf (s.readers k)) (s.readers k)
  trusted : ∀ k, (s.channelOf (s.readers k)).wake = true → (s.readers k).wakeUntrusted = false
  past : PastOk s

/- The bump that would be the 2^32nd. -/
def bumpsFit (s : WakeWords.State) (a : Move) : Bool :=
  match a with
  | .writer c => match (s.channels c).writer with
    | .bumping _ => decide ((s.channels c).own.bumps + 1 < 2 ^ 32)
    | _ => true
  | _ => true

theorem boundedFew (bounded : Bounded s) (a : Move) : fewBumps s a := by
  unfold fewBumps
  split
  · rw [List.all_eq_true]
    rintro ⟨k, sn⟩ _
    refine decide_eq_true fun _ => ?_
    exact (bounded (s.readers k).channel (s.readers k).fileSequence).trans_le (Nat.le_add_left _ _)
  · rfl

theorem updateBounded (bounded : Bounded s) {c : Nat} (phase : WaitAt)
    (own : ∀ q, (ch'.segments q).bumps < 2 ^ 32) : Bounded { s.setChannel c ch' with phase := phase } := by
  intro d q
  show ((Function.update s.channels c ch' d).segments q).bumps < 2 ^ 32
  by_cases same : d = c
  · subst same
    rw [Function.update_self]
    exact own q
  · rw [Function.update_of_ne same]
    exact bounded d q

theorem segmentBounded (bounded : ∀ q, (ch.segments q).bumps < 2 ^ 32) {q : Nat} {g : Segment} (own : g.bumps < 2 ^ 32) (q' : Nat) :
    (Function.update ch.segments q g q').bumps < 2 ^ 32 := by
  by_cases same : q' = q
  · subst same
    rw [Function.update_self]
    exact own
  · rw [Function.update_of_ne same]
    exact bounded q'

theorem boundedKeeps (bounded : Bounded s) {a : Move} (fit : bumpsFit s a) (taken : step s a = some t) : Bounded t := by
  cases a with
  | commit c | skip c | roll c =>
    simp only [step, onIdle] at taken
    split at taken <;> cases taken
    refine updateBounded bounded s.phase (segmentBounded (bounded c) ?_)
    first | exact bounded c _ | exact Nat.two_pow_pos 32
  | writer c =>
    obtain ⟨next, advanced, made⟩ := Option.map_eq_some_iff.mp taken
    have own (q : Nat) : (next.segments q).bumps < 2 ^ 32 := by
      cases at' : (s.channels c).writer with
      | bumping kind =>
        simp only [bumpsFit, at', decide_eq_true_eq] at fit
        simp only [Channel.advance, at'] at advanced
        cases advanced
        exact segmentBounded (bounded c) fit q
      | positioning kind =>
        simp only [Channel.advance, at'] at advanced
        split at advanced <;> cases advanced <;> exact bounded c q
      | idle =>
        simp only [Channel.advance, at'] at advanced
        cases advanced
      | waking kind =>
        simp only [Channel.advance, at'] at advanced
        cases advanced
        exact bounded c q
      | counting | rolling =>
        simp only [Channel.advance, at'] at advanced
        cases advanced
        refine segmentBounded (bounded c) ?_ q
        exact bounded c (s.channels c).current
    dsimp only at made
    split at made <;> subst made
    · exact updateBounded bounded _ own
    · exact updateBounded bounded s.phase own
  | thread time =>
    simp only [step, threadStep] at taken
    (repeat' split at taken) <;> cases taken <;> exact bounded
  | consume k | waitForMessage k =>
    simp only [step] at taken
    split at taken <;> cases taken
    exact bounded
  | waitAny call =>
    simp only [step] at taken
    (repeat' split at taken) <;> cases taken
    exact bounded

theorem missedKeeps (progress : Progress ch ch') (placed : Placed ch r) (wake' : ch'.wake = true) (missed : ch.wake = true → Missed ch r) :
    Missed ch' r := by
  intro v miss
  obtain ⟨counts, start, grown⟩ := countsKeep progress placed
  have was := progressWake progress wake'
  obtain ⟨value, since, inside, pending⟩ := missed was v miss
  refine ⟨?_, since.trans counts, inside.trans_le grown.length_le, fun still => ?_⟩
  · rw [start]
    exact value
  · obtain ⟨at', last, busy⟩ := pending (Nat.le_antisymm (counts.trans still.le) since)
    rcases progress with ⟨_, _, _, _, quiet, _⟩ | ⟨_, _, _, quiet, _⟩ | ⟨same, _, _, _, _⟩ |
      ⟨same, current, _, unbumped, _⟩ | ⟨_, _, _, _, unbumped, _⟩
    · exact absurd (unbumpedUnwoken busy) quiet.1
    · exact absurd (unbumpedUnwoken busy) quiet.1
    · have more : ch.own.bumps + 1 = r.missedAt.1 := by
        rw [same, ← at', Function.update_self] at still
        exact still
      have less : r.missedAt.1 ≤ ch.own.bumps := by
        rw [← at'] at since
        exact since
      omega
    · refine ⟨current.trans at', ?_, unbumped was busy⟩
      rw [Channel.own, current, (same _).1]
      exact last
    · exact absurd busy (unbumped was)

theorem channelWake {c : Nat} (grows : Grows s t) (wake : (t.channels c).wake = true) : (s.channels c).wake = true := by
  rcases grows.channels c with same | progress
  · exact same ▸ wake
  · exact progressWake progress wake

/- The readers' part of what a writer's step keeps. -/
theorem growsMissed (inv : Inv s) (grows : Grows s t)
    (missed : ∀ k, (s.channelOf (s.readers k)).wake = true → Missed (s.channelOf (s.readers k)) (s.readers k)) (k : Nat)
    (wake : (t.channelOf (t.readers k)).wake = true) : Missed (t.channelOf (t.readers k)) (t.readers k) := by
  have before := missed k
  have placed := inv.placed k
  unfold WakeWords.State.channelOf at *
  rw [grows.readers] at wake ⊢
  rcases grows.channels (s.readers k).channel with same | progress
  · rw [same] at wake ⊢
    exact before wake
  · exact missedKeeps progress placed wake before

theorem growsPast {seen : List Seen} {n : Nat} (grows : Grows s t) (past : PastTo s seen n) : PastTo t seen n := by
  intro i k sn less at' found wake
  rw [grows.call] at at'
  unfold WakeWords.State.channelOf at wake
  rw [grows.readers] at wake ⊢
  exact past i k sn less at' found (channelWake grows wake)

theorem growsHeader (inv : Inv s) (grows : Grows s t) {k : Nat} {kind : HeaderType}
    (here : s.header (s.readers k) = some kind) : t.header (t.readers k) = some kind := by
  have placed := inv.placed k
  unfold WakeWords.State.header WakeWords.State.segmentOf WakeWords.State.channelOf at *
  rw [grows.readers]
  rcases grows.channels (s.readers k).channel with same | progress
  · rw [same]
    exact here
  · obtain ⟨rest, grown⟩ := (countsKeep progress placed).2.2
    rw [← grown, List.getElem?_append_left (List.getElem?_eq_some_iff.mp here).1]
    exact here

theorem growsTrust (trust : Trust s) (grows : Grows s t) (phase : t.phase = s.phase ∨ t.phase = .loading []) (inv : Inv t)
    (bounded : Bounded t) : Trust t := by
  refine ⟨inv, bounded, growsMissed trust.base grows trust.missed, fun k wake => ?_, ?_⟩
  · unfold WakeWords.State.channelOf at wake
    rw [grows.readers] at wake ⊢
    exact trust.trusted k (channelWake grows wake)
  · have past := trust.past
    unfold PastOk at past ⊢
    rcases phase with same | again
    · rw [same]
      cases at' : s.phase with
      | returned found => trivial
      | loading seen => trivial
      | looking seen i =>
        rw [at'] at past
        exact growsPast grows past
      | deciding seen | asleep seen words full | judging seen i =>
        rw [at'] at past
        dsimp only
        rw [grows.call]
        exact growsPast grows past
      | distrusting seen i =>
        rw [at'] at past
        dsimp only
        rw [grows.call]
        exact ⟨growsPast grows past.1, fun k here => growsHeader trust.base grows (past.2 k here)⟩
    · rw [again]
      trivial

theorem missedPass {kind : HeaderType} (missed : Missed ch r) : Missed ch (r.pass kind) := by
  cases kind with
  | roll => rintro v ⟨⟩
  | user | skip | channel => exact missed

theorem pastPass {kind : HeaderType} (past : Past r sn) : Past (r.pass kind) sn := by
  cases kind with
  | roll =>
    rintro _ v ⟨⟩
  | user | skip | channel => exact fun same v miss => (past same v miss).trans (Nat.lt_succ_self _)

theorem trustedPass {kind : HeaderType} (trusted : r.wakeUntrusted = false) : (r.pass kind).wakeUntrusted = false := by
  cases kind <;> first | rfl | exact trusted

theorem passChannel {kind : HeaderType} : (r.pass kind).channel = r.channel := by
  cases kind <;> rfl

/- A reader that stays on its channel, for one property of readers. -/
theorem replaceReader {P : Channel → Reader → Prop} {k : Nat} {x : Reader} (channel : x.channel = (s.readers k).channel)
    (all : ∀ k, (s.channelOf (s.readers k)).wake = true → P (s.channelOf (s.readers k)) (s.readers k))
    (own : (s.channelOf (s.readers k)).wake = true → P (s.channelOf (s.readers k)) x) (k' : Nat)
    (wake : ((s.setReader k x).channelOf ((s.setReader k x).readers k')).wake = true) :
    P ((s.setReader k x).channelOf ((s.setReader k x).readers k')) ((s.setReader k x).readers k') := by
  by_cases same : k' = k
  · subst same
    rw [readerSame] at wake ⊢
    change (s.channels x.channel).wake = true at wake
    show P (s.channels x.channel) x
    rw [channel] at wake ⊢
    exact own wake
  · rw [readerOther same] at wake ⊢
    exact all k' wake

theorem passPast {k n : Nat} {kind : HeaderType} {seen : List Seen} (past : PastTo s seen n) :
    PastTo (s.setReader k ((s.readers k).pass kind)) seen n := by
  intro i k' sn less at' found wake
  by_cases same : k' = k
  · subst same
    rw [readerSame] at wake ⊢
    change (s.channels ((s.readers k').pass kind).channel).wake = true at wake
    rw [passChannel] at wake
    exact pastPass (past i k' sn less at' found wake)
  · rw [readerOther same] at wake ⊢
    exact past i k' sn less at' found wake

/- Nothing is at the cursor: the record of the last miss is behind it. -/
theorem pastNext {seen : List Seen} {i k : Nat} (trust : Trust s) (past : PastTo s seen i) (at' : s.call[i]? = some k)
    (none' : s.header (s.readers k) = none) : PastTo s seen (i + 1) := by
  intro i' k' sn less here found wake
  by_cases same : i' = i
  · subst same
    obtain rfl := Option.some.inj (at'.symm.trans here)
    intro _ v miss
    obtain ⟨-, -, inside, -⟩ := trust.missed k wake v miss
    have beyond := List.getElem?_eq_none_iff.mp none'
    unfold WakeWords.State.segmentOf at beyond
    omega
  · exact past i' k' sn (by omega) here found wake

/- The heart of it: what the writer has committed since it was last heard of is one record, and the reader has gone past
the one it missed before. -/
theorem distrustKeeps (trust : Trust s) {seen : List Seen} {i k q v b : Nat} (at' : s.phase = .distrusting seen i)
    (here : s.call[i]? = some k) (loaded : seen[i]? = some ⟨q, some v, b⟩) (wake : (s.channelOf (s.readers k)).wake = true) :
    (distrustFlagIfUnwoken s (s.readers k) q v).wakeUntrusted = false ∧
      Missed (s.channelOf (s.readers k)) (distrustFlagIfUnwoken s (s.readers k) q v) := by
  have trusted := trust.trusted k wake
  have missed := trust.missed k wake
  unfold distrustFlagIfUnwoken
  split
  · exact ⟨trusted, missed⟩
  next same =>
    obtain ⟨sequence, word⟩ : (s.readers k).fileSequence = q ∧ (s.segmentOf (s.readers k)).wakeWord = v := by
      simpa only [ne_eq, not_or, not_not] using same
    have phase := trust.base.phase
    have past := trust.past
    unfold PhaseOk at phase
    unfold PastOk at past
    rw [at'] at phase past
    have inside := (List.getElem?_eq_some_iff.mp here).1
    have record := past.2 k here
    have bounded := trust.bounded (s.readers k).channel (s.readers k).fileSequence
    -- the word has not moved since it was loaded, so the record at the cursor is the writer's newest
    obtain ⟨since, value⟩ := (phase.1 i k _ here loaded).2 sequence
    have still := unmoved (word.trans (value v rfl)) since (bounded.trans_le (Nat.le_add_left _ _))
    obtain ⟨current, last, busy⟩ :=
      phase.2 i k _ inside here loaded wake sequence still _ .user (Nat.le_refl _) record (.inl rfl)
    split
    next again =>
      exfalso
      obtain ⟨before, counted, -, pending⟩ := missed v again
      have same := unmoved (word.trans before) counted (bounded.trans_le (Nat.le_add_left _ _))
      obtain ⟨-, newest, -⟩ := pending same
      have gone := past.1 i k _ inside here loaded wake sequence v again
      omega
    next =>
      refine ⟨trusted, ?_⟩
      rintro w ⟨⟩
      refine ⟨word.symm, Nat.le_refl _, (List.getElem?_eq_some_iff.mp record).1, fun _ => ⟨current, last, busy⟩⟩

/- A reader goes on, in its call or in a reading one. -/
theorem passTrust (trust : Trust s) {k : Nat} {kind : HeaderType} {phase : WaitAt}
    (inv : Inv { s.setReader k ((s.readers k).pass kind) with phase := phase })
    (past : PastOk { s.setReader k ((s.readers k).pass kind) with phase := phase }) :
    Trust { s.setReader k ((s.readers k).pass kind) with phase := phase } where
  base := inv
  bounded := trust.bounded
  missed := replaceReader (P := Missed) passChannel trust.missed fun wake => missedPass (trust.missed k wake)
  trusted := replaceReader (P := fun _ r => r.wakeUntrusted = false) passChannel trust.trusted
    fun wake => trustedPass (trust.trusted k wake)
  past := past

theorem phaseTrust (trust : Trust s) {x : WaitAt} (inv : Inv { s with phase := x }) (past : PastOk { s with phase := x }) :
    Trust { s with phase := x } :=
  { trust with base := inv, past := past }

theorem threadTrust (trust : Trust s) {time : Timing} (inv : Inv t) (taken : threadStep time s = some t) : Trust t := by
  have past := trust.past
  unfold PastOk at past
  cases at' : s.phase with
  | returned found =>
    simp only [threadStep, at'] at taken
    cases taken
  | loading seen =>
    simp only [threadStep, at'] at taken
    split at taken <;> cases taken
    · exact phaseTrust trust inv fun i k sn less => absurd less (Nat.not_lt_zero i)
    · exact phaseTrust trust inv trivial
  | looking seen i =>
    rw [at'] at past
    simp only [threadStep, at'] at taken
    split at taken
    next beyond =>
      cases taken
      refine phaseTrust trust inv fun i' k sn less here found wake => past i' k sn ?_ here found wake
      exact less.trans_le (List.getElem?_eq_none_iff.mp beyond)
    next k here =>
      split at taken <;> cases taken
      next nothing =>
        have next := pastNext trust past here nothing
        exact phaseTrust trust inv next
      next => exact phaseTrust trust inv trivial
      next kind _ _ =>
        refine @passTrust s trust k kind s.phase inv ?_
        unfold PastOk
        dsimp only
        rw [at']
        exact passPast past
  | deciding seen =>
    rw [at'] at past
    simp only [threadStep, at'] at taken
    cases taken
    refine phaseTrust trust inv ?_
    unfold PastOk
    rcases decideCases time s seen with left | again | ⟨full, sleeps, -⟩
    · rw [left]
      trivial
    · rw [again]
      trivial
    · rw [sleeps]
      exact past
  | asleep seen words full =>
    rw [at'] at past
    simp only [threadStep, at'] at taken
    cases taken
    refine phaseTrust trust inv ?_
    split
    · exact past
    · trivial
  | judging seen i =>
    rw [at'] at past
    simp only [threadStep, at'] at taken
    split at taken
    next => exact Option.some.inj taken ▸ phaseTrust trust (Option.some.inj taken ▸ inv) trivial
    next k here =>
      split at taken <;> cases taken
      next => exact phaseTrust trust inv past
      next found =>
        refine phaseTrust trust inv ⟨past, fun k' again => ?_⟩
        obtain rfl := Option.some.inj (here.symm.trans again)
        exact found
      next kind _ _ =>
        refine @passTrust s trust k kind s.phase inv ?_
        unfold PastOk
        dsimp only
        rw [at']
        exact passPast past
  | distrusting seen i =>
    simp only [threadStep, at'] at taken
    split at taken <;> cases taken
    next k q v b here loaded =>
      obtain ⟨channel, -⟩ := distrustSame s (s.readers k) q v
      exact {
        base := inv
        bounded := trust.bounded
        missed := replaceReader (P := Missed) channel trust.missed fun wake => (distrustKeeps trust at' here loaded wake).2
        trusted := replaceReader (P := fun _ r => r.wakeUntrusted = false) channel trust.trusted
          fun wake => (distrustKeeps trust at' here loaded wake).1
        past := trivial }
    next => exact phaseTrust trust inv trivial

theorem idleTrust (trust : Trust s) {c : Nat} {f : Channel → Channel} (inv : Inv t) (bounded : Bounded t)
    (taken : onIdle s c f = some t)
    (progress : (s.channels c).writer = .idle → Progress (s.channels c) (f (s.channels c))) : Trust t := by
  obtain ⟨grows, phase, -, -⟩ := idleGrows taken progress
  exact growsTrust trust grows (.inl phase) inv bounded

theorem trustKeeps (trust : Trust s) {a : Move} (fit : bumpsFit s a) (taken : step s a = some t) : Trust t := by
  have inv := stepKeeps trust.base (boundedFew trust.bounded a) taken
  have bounded := boundedKeeps trust.bounded fit taken
  cases a with
  | commit c => exact idleTrust trust inv bounded taken commitProgress
  | skip c => exact idleTrust trust inv bounded taken skipProgress
  | roll c => exact idleTrust trust inv bounded taken rollProgress
  | writer c =>
    obtain ⟨grows, phase⟩ := writerGrows taken
    exact growsTrust trust grows phase inv bounded
  | thread time => exact threadTrust trust inv taken
  | consume k =>
    simp only [step] at taken
    split at taken
    next found kind at' _ =>
      cases taken
      refine @passTrust s trust k kind s.phase inv ?_
      unfold PastOk
      dsimp only
      rw [at']
      trivial
    next => cases taken
  | waitForMessage k =>
    simp only [step] at taken
    split at taken <;> cases taken
    exact { trust with base := inv, past := trivial }
  | waitAny call =>
    simp only [step] at taken
    (repeat' split at taken) <;> cases taken
    exact { trust with base := inv, past := trivial }

/-- Nothing of a reader's segment has been missed or distrusted. -/
structure Fresh (s : WakeWords.State) : Prop where
  started : Started s
  bounded : Bounded s
  unmissed : ∀ k, (s.channelOf (s.readers k)).wake = true → (s.readers k).wakeMiss = none
  trusted : ∀ k, (s.channelOf (s.readers k)).wake = true → (s.readers k).wakeUntrusted = false

theorem freshTrust (fresh : Fresh s) : Trust s := by
  obtain ⟨found, between⟩ := fresh.started.between
  refine ⟨startedInv fresh.started, fresh.bounded, fun k wake v miss => ?_, fresh.trusted, ?_⟩
  · rw [fresh.unmissed k wake] at miss
    cases miss
  · unfold PastOk
    rw [between]
    trivial

/- However late the writer wakes. -/
theorem wakingTrusted (fresh : Fresh s) (steps : Steps step (fun u a => bumpsFit u a) s t) (k : Nat)
    (wake : (t.channelOf (t.readers k)).wake = true) : (t.readers k).wakeUntrusted = false :=
  (steps.keeps (I := Trust) (fun _ _ _ trust fit taken => trustKeeps trust fit taken) (freshTrust fresh)).trusted k wake

end Waking

section Silent

variable {k q w n : Nat}

/-- A writer that bumps nothing; the word of segment `q` is `w`. -/
structure Silent (q w : Nat) (ch : Channel) : Prop where
  off : ch.wake = false
  quiet : ∀ kind, ch.writer ≠ .bumping kind
  published : q ≤ ch.current
  word : (ch.segments q).wakeWord = w

theorem ownWord (word : (ch.segments q).wakeWord = w) {g : Segment} (same : g.wakeWord = ch.own.wakeWord) :
    (Function.update ch.segments ch.current g q).wakeWord = w := by
  by_cases here : q = ch.current
  · subst here
    rw [Function.update_self, same]
    exact word
  · rw [Function.update_of_ne here]
    exact word

theorem commitSilent (silent : Silent q w ch) : Silent q w ch.commit :=
  ⟨silent.off, by rintro _ ⟨⟩, silent.published, ownWord silent.word rfl⟩

theorem skipSilent (silent : Silent q w ch) : Silent q w ch.skip :=
  ⟨silent.off, by rintro _ ⟨⟩, silent.published, ownWord silent.word rfl⟩

theorem rollSilent (silent : Silent q w ch) : Silent q w ch.roll := by
  refine ⟨silent.off, by rintro _ ⟨⟩, silent.published, ?_⟩
  have other : q ≠ ch.current + 1 := (Nat.lt_succ_of_le silent.published).ne
  show (Function.update ch.segments (ch.current + 1) _ q).wakeWord = w
  rw [Function.update_of_ne other]
  exact silent.word

theorem settleSilent (silent : Silent q w ch) (kind : HeaderType) : Silent q w (ch.settle kind) := by
  refine ⟨silent.off, by rintro _ ⟨⟩, silent.published.trans ?_, silent.word⟩
  show ch.current ≤ if kind = .roll then ch.current + 1 else ch.current
  split
  · exact Nat.le_succ _
  · exact Nat.le_refl _

theorem advanceSilent (silent : Silent q w ch) (taken : ch.advance = some ch') : Silent q w ch' := by
  cases at' : ch.writer with
  | idle =>
    simp only [Channel.advance, at'] at taken
    cases taken
  | bumping kind => exact absurd at' (silent.quiet kind)
  | positioning kind =>
    simp only [Channel.advance, at', silent.off] at taken
    cases taken
    exact settleSilent silent kind
  | waking kind =>
    simp only [Channel.advance, at'] at taken
    cases taken
    exact settleSilent silent kind
  | counting | rolling =>
    simp only [Channel.advance, at'] at taken
    cases taken
    exact ⟨silent.off, by rintro _ ⟨⟩, silent.published, ownWord silent.word rfl⟩

/-- What was loaded for the reader on segment `q`. -/
def ValueOk (k q w : Nat) (s : WakeWords.State) (seen : List Seen) : Prop :=
  ∀ (i : Nat) (sn : Seen) (v : Nat), s.call[i]? = some k → seen[i]? = some sn → sn.sequence = q → sn.value = some v → v = w

/-- A word was loaded for every reader. -/
def AllHeard (s : WakeWords.State) (seen : List Seen) : Prop :=
  ∀ i k : Nat, s.call[i]? = some k → ∃ sn v, seen[i]? = some sn ∧ sn.value = some v

def SeenOk (k q w : Nat) (s : WakeWords.State) : Prop :=
  match s.phase with
  | .returned _ => True
  | .loading seen | .looking seen _ | .deciding seen => ValueOk k q w s seen
  | .asleep seen _ full => ValueOk k q w s seen ∧ (full = true → AllHeard s seen)
  | .judging seen _ | .distrusting seen _ => ValueOk k q w s seen ∧ AllHeard s seen

/-- After `n` misses in segment `q`. -/
def Tallied (q w n : Nat) (r : Reader) : Prop :=
  (r.fileSequence < q → n = 0) ∧ (r.fileSequence = q → (1 ≤ n → r.wakeMiss = some w ∨ r.wakeUntrusted = true) ∧
    (2 ≤ n → r.wakeUntrusted = true))

/-- With `n` misses of reader `k` in segment `q`. -/
structure Counted (k q w n : Nat) (s : WakeWords.State) : Prop where
  silent : Silent q w (s.channelOf (s.readers k))
  alone : s.single = true → s.call.length = 1
  seen : SeenOk k q w s
  tallied : Tallied q w n (s.readers k)

/-- A full sleep on segment `q` has run out, and the look after it has found a record of reader `k` there. -/
def endsAt (k q : Nat) (s : WakeWords.State) (a : Move) : Bool :=
  match a, s.phase with
  | .thread _, .distrusting seen i =>
    decide (s.call[i]? = some k ∧ seen[i]?.map Seen.sequence = some q ∧ (s.readers k).fileSequence = q)
  | _, _ => false

theorem talliedPass {kind : HeaderType} {r : Reader} (tallied : Tallied q w n r) : Tallied q w n (r.pass kind) := by
  cases kind with
  | roll =>
    refine ⟨fun less => tallied.1 ((Nat.lt_succ_self _).trans less), fun same => ?_⟩
    have none' := tallied.1 (show r.fileSequence < q from Nat.lt_of_succ_le same.le)
    constructor <;> intro some' <;> omega
  | user | skip | channel => exact tallied

/- Writers of other channels are any. -/
theorem channelCounted (counted : Counted k q w n s) {c : Nat} {phase : WaitAt} (same : phase = s.phase ∨ phase = .loading [])
    (own : Silent q w (s.channels c) → Silent q w ch') : Counted k q w n { s.setChannel c ch' with phase := phase } := by
  refine ⟨?_, counted.alone, ?_, counted.tallied⟩
  · have silent := counted.silent
    show Silent q w (Function.update s.channels c ch' (s.readers k).channel)
    unfold WakeWords.State.channelOf at silent
    by_cases here : (s.readers k).channel = c
    · subst here
      rw [Function.update_self]
      exact own silent
    · rw [Function.update_of_ne here]
      exact silent
  · rcases same with rfl | rfl
    · exact counted.seen
    · rintro i sn v _ ⟨⟩

theorem readerCounted {m : Nat} {k' : Nat} {x : Reader} {phase : WaitAt} (counted : Counted k q w n s)
    (channel : x.channel = (s.readers k').channel) (seen : SeenOk k q w { s with phase := phase })
    (other : k ≠ k' → m = n) (own : k = k' → Tallied q w m x) :
    Counted k q w m { s.setReader k' x with phase := phase } := by
  refine ⟨?_, counted.alone, seen, ?_⟩
  · have silent := counted.silent
    show Silent q w (s.channels ((s.setReader k' x).readers k).channel)
    by_cases same : k = k'
    · subst same
      rw [readerSame, channel]
      exact silent
    · rw [readerOther same]
      exact silent
  · show Tallied q w m ((s.setReader k' x).readers k)
    by_cases same : k = k'
    · subst same
      rw [readerSame]
      exact own rfl
    · rw [readerOther same, other same]
      exact counted.tallied

theorem passCounted {k' : Nat} {kind : HeaderType} (counted : Counted k q w n s) :
    Counted k q w n (s.setReader k' ((s.readers k').pass kind)) := by
  refine @readerCounted s k q w n n k' _ s.phase counted passChannel counted.seen (fun _ => rfl) ?_
  rintro rfl
  exact talliedPass counted.tallied

theorem phaseCounted (counted : Counted k q w n s) {x : WaitAt} (seen : SeenOk k q w { s with phase := x }) :
    Counted k q w n { s with phase := x } :=
  { counted with seen := seen }

theorem loadedValue (silent : Silent q w (s.channelOf (s.readers k))) {seen : List Seen} (ok : ValueOk k q w s seen) {k' : Nat}
    (at' : s.call[seen.length]? = some k') :
    ValueOk k q w s (seen ++ [⟨(s.readers k').fileSequence, wakeWordIfWaking s (s.readers k'), (s.segmentOf (s.readers k')).bumps⟩]) := by
  intro i sn v here found sequence value
  rcases Nat.lt_trichotomy i seen.length with less | same | more
  · rw [List.getElem?_append_left less] at found
    exact ok i sn v here found sequence value
  · subst same
    obtain rfl := Option.some.inj (at'.symm.trans here)
    simp only [List.getElem?_append_right (Nat.le_refl _), Nat.sub_self, List.getElem?_cons_zero, Option.some.injEq] at found
    subst found
    dsimp only [wakeWordIfWaking] at value sequence
    split at value
    · cases value
    · split at value <;> cases value
      subst sequence
      exact silent.word
  · rw [List.getElem?_eq_none (by simp; omega)] at found
    cases found

/- A full sleep is on a word of each reader. -/
theorem decideSeen (alone : s.single = true → s.call.length = 1) {time : Timing} {seen : List Seen} (ok : ValueOk k q w s seen) :
    SeenOk k q w { s with phase := decideSleep time s seen } := by
  unfold SeenOk
  dsimp only
  rcases decideCases time s seen with left | again | ⟨full, sleeps, -, some', whole⟩
  · rw [left]
    trivial
  · rw [again]
    rintro i sn v _ ⟨⟩
  · rw [sleeps]
    refine ⟨ok, fun long i k' here => ?_⟩
    have all : (wordsOf s seen).length = s.call.length := by
      rcases whole long with single | all
      · have one := alone single
        have most := wordsLength s seen
        have least := List.length_pos_of_ne_nil some'
        omega
      · exact all
    obtain ⟨sn, loaded, included⟩ := allIncluded all here
    obtain ⟨x, -, -, -, -, value⟩ := wordIncluded here loaded included
    exact ⟨sn, x.value, loaded, value⟩

/- Each miss in the segment is on the same word: the second one ends the belief. -/
theorem distrustCounts {seen : List Seen} {i v b : Nat} (counted : Counted k q w n s)
    (at' : s.phase = .distrusting seen i) (here : s.call[i]? = some k) (loaded : seen[i]? = some ⟨q, some v, b⟩)
    (inside : (s.readers k).fileSequence = q) : Tallied q w (n + 1) (distrustFlagIfUnwoken s (s.readers k) q v) := by
  have ok := counted.seen
  unfold SeenOk at ok
  rw [at'] at ok
  obtain rfl : v = w := ok.1 i _ v here loaded rfl rfl
  have word : (s.segmentOf (s.readers k)).wakeWord = v := by
    unfold WakeWords.State.segmentOf
    rw [inside]
    exact counted.silent.word
  obtain ⟨before, once⟩ := counted.tallied
  unfold distrustFlagIfUnwoken
  rw [if_neg (by simp [inside, word])]
  split
  · exact ⟨fun less => absurd (show (s.readers k).fileSequence < q from less) (by omega), fun _ => ⟨fun _ => .inr rfl, fun _ => rfl⟩⟩
  next first =>
    refine ⟨fun less => absurd (show (s.readers k).fileSequence < q from less) (by omega), fun _ => ⟨fun _ => .inl rfl, fun more => ?_⟩⟩
    rcases (once inside).1 (Nat.le_of_succ_le_succ more) with again | already
    · exact absurd again first
    · exact already

/- A judgement of another reader, or of another segment. -/
theorem distrustRest {seen : List Seen} {i k' q' v b : Nat} (counted : Counted k q w n s)
    (loaded : seen[i]? = some ⟨q', some v, b⟩) (elsewhere : ¬ (seen[i]?.map Seen.sequence = some q ∧ (s.readers k').fileSequence = q)) :
    k = k' → Tallied q w n (distrustFlagIfUnwoken s (s.readers k') q' v) := by
  rintro rfl
  unfold distrustFlagIfUnwoken
  split
  · exact counted.tallied
  next same =>
    obtain ⟨sequence, -⟩ : (s.readers k).fileSequence = q' ∧ (s.segmentOf (s.readers k)).wakeWord = v := by
      simpa only [ne_eq, not_or, not_not] using same
    have away : (s.readers k).fileSequence ≠ q := by
      rintro inside
      refine elsewhere ⟨?_, inside⟩
      rw [loaded, ← inside, sequence]
      rfl
    split <;> exact ⟨counted.tallied.1, fun inside => absurd inside away⟩

theorem threadRest (counted : Counted k q w n s) {time : Timing} (not : ¬ endsAt k q s (.thread time))
    (taken : threadStep time s = some t) : Counted k q w n t := by
  have ok := counted.seen
  unfold SeenOk at ok
  cases at' : s.phase with
  | returned found =>
    simp only [threadStep, at'] at taken
    cases taken
  | loading seen =>
    rw [at'] at ok
    simp only [threadStep, at'] at taken
    split at taken <;> cases taken
    next => exact phaseCounted counted ok
    next k' here => exact phaseCounted counted (loadedValue counted.silent ok here)
  | looking seen i =>
    rw [at'] at ok
    simp only [threadStep, at'] at taken
    split at taken
    next => exact Option.some.inj taken ▸ phaseCounted counted ok
    next k' here =>
      split at taken <;> cases taken
      next => exact phaseCounted counted ok
      next => exact phaseCounted counted trivial
      next => exact passCounted counted
  | deciding seen =>
    rw [at'] at ok
    simp only [threadStep, at'] at taken
    cases taken
    exact phaseCounted counted (decideSeen counted.alone ok)
  | asleep seen words full =>
    rw [at'] at ok
    simp only [threadStep, at'] at taken
    cases taken
    refine phaseCounted counted ?_
    split
    next out =>
      have long := (Bool.and_eq_true_iff.mp out).2
      exact ⟨ok.1, ok.2 long⟩
    next => rintro i sn v _ ⟨⟩
  | judging seen i =>
    rw [at'] at ok
    simp only [threadStep, at'] at taken
    split at taken
    next =>
      cases taken
      refine phaseCounted counted ?_
      rintro i sn v _ ⟨⟩
    next k' here =>
      split at taken <;> cases taken
      next => exact phaseCounted counted ok
      next => exact phaseCounted counted ok
      next => exact passCounted counted
  | distrusting seen i =>
    simp only [threadStep, at'] at taken
    split at taken <;> cases taken
    next k' q' v b here loaded =>
      refine readerCounted counted (distrustSame s (s.readers k') q' v).1 trivial (fun _ => rfl) ?_
      refine fun same => distrustRest counted loaded (fun ends => not ?_) same
      subst same
      unfold endsAt
      rw [at']
      exact decide_eq_true ⟨here, ends⟩
    next => exact phaseCounted counted trivial

/- No sleep of the reader's ends where it is counted, or it is one more. -/
theorem stepRest (counted : Counted k q w n s) {a : Move} (not : ¬ endsAt k q s a) (taken : step s a = some t) :
    Counted k q w n t := by
  cases a with
  | commit c =>
    simp only [step, onIdle] at taken
    split at taken <;> cases taken
    exact channelCounted counted (.inl rfl) commitSilent
  | skip c =>
    simp only [step, onIdle] at taken
    split at taken <;> cases taken
    exact channelCounted counted (.inl rfl) skipSilent
  | roll c =>
    simp only [step, onIdle] at taken
    split at taken <;> cases taken
    exact channelCounted counted (.inl rfl) rollSilent
  | writer c =>
    obtain ⟨next, advanced, made⟩ := Option.map_eq_some_iff.mp taken
    have own (silent : Silent q w (s.channels c)) := advanceSilent silent advanced
    dsimp only at made
    split at made <;> subst made
    · exact channelCounted counted (futexWakeCases c _ s.phase) own
    · exact channelCounted counted (.inl rfl) own
  | thread time => exact threadRest counted not taken
  | consume k' =>
    simp only [step] at taken
    split at taken <;> cases taken
    exact passCounted counted
  | waitForMessage k' =>
    simp only [step] at taken
    split at taken <;> cases taken
    refine ⟨counted.silent, fun _ => rfl, ?_, counted.tallied⟩
    rintro i sn v _ ⟨⟩
  | waitAny call =>
    simp only [step] at taken
    (repeat' split at taken) <;> cases taken
    refine ⟨counted.silent, by rintro ⟨⟩, ?_, counted.tallied⟩
    rintro i sn v _ ⟨⟩

theorem stepEnds (counted : Counted k q w n s) {a : Move} (ends : endsAt k q s a) (taken : step s a = some t) :
    Counted k q w (n + 1) t := by
  unfold endsAt at ends
  split at ends
  next time seen i at' =>
    obtain ⟨here, loaded, inside⟩ := of_decide_eq_true ends
    obtain ⟨sn, found, sequence⟩ := Option.map_eq_some_iff.mp loaded
    have ok := counted.seen
    unfold SeenOk at ok
    rw [at'] at ok
    obtain ⟨sn', v, again, value⟩ := ok.2 i k here
    obtain rfl := Option.some.inj (found.symm.trans again)
    obtain ⟨q', value', b⟩ := sn
    obtain rfl : q' = q := sequence
    obtain rfl : value' = some v := value
    simp only [step, threadStep, at', here, found] at taken
    cases taken
    refine readerCounted counted (distrustSame s (s.readers k) q' v).1 trivial (fun other => absurd rfl other) fun _ => ?_
    exact distrustCounts counted at' here found inside
  next => cases ends

/- The second full sleep that ends with a record of the reader is the last that is believed. -/
theorem silentDistrusted (started : Started s) (silent : Silent q w (s.channelOf (s.readers k)))
    (takes : Takes step (fun _ _ => True) (fun u a => endsAt k q u a) n s t) (twice : 2 ≤ n) (still : (t.readers k).fileSequence = q) :
    (t.readers k).wakeUntrusted = true := by
  obtain ⟨found, between⟩ := started.between
  have start : Counted k q w 0 s := by
    refine ⟨silent, by simp [started.any], ?_, fun _ => rfl, fun _ => by constructor <;> intro some' <;> omega⟩
    unfold SeenOk
    rw [between]
    trivial
  have counted := takes.keeps (I := Counted k q w) (fun _ _ _ _ counted _ not taken => stepRest counted not taken)
    (fun _ _ _ _ counted _ ends taken => stepEnds counted ends taken) start
  exact (counted.tallied.2 still).2 twice

end Silent

section Law

/- Who wakes is believed; who does not is caught at the second full sleep that ends with a record for the reader. -/
theorem distrustedWhenUnwoken {s t : WakeWords.State} {k : Nat} :
    (Fresh s → Steps step (fun u a => bumpsFit u a) s t → (t.channelOf (t.readers k)).wake = true →
      (t.readers k).wakeUntrusted = false) ∧
    ∀ q w n, Started s → Silent q w (s.channelOf (s.readers k)) →
      Takes step (fun _ _ => True) (fun u a => endsAt k q u a) n s t → 2 ≤ n → (t.readers k).fileSequence = q →
      (t.readers k).wakeUntrusted = true :=
  ⟨fun fresh steps wake => wakingTrusted fresh steps k wake,
    fun _ _ _ started silent takes twice still => silentDistrusted started silent takes twice still⟩

theorem sampleFresh (wake : Bool) : Fresh (sample wake) := by
  refine ⟨sampleStarted wake, fun c q => ?_, fun _ _ => rfl, fun _ _ => rfl⟩
  show (if q = 0 then _ else _ : Segment).bumps < 2 ^ 32
  split <;> exact Nat.two_pow_pos 32

theorem sampleSilent (k : Nat) : Silent 0 0 ((sample false).channelOf ((sample false).readers k)) :=
  ⟨rfl, by rintro _ ⟨⟩, Nat.le_refl _, rfl⟩

/- A wait whose sleep runs out while the writers are about to go on to its word; the record is taken. -/
def missing (call : List Nat) : List Move :=
  .waitAny call :: (sleeping (2 * call.length + 3) ++ (call.flatMap fun c => writing c 2) ++ sleeping 3)

theorem distrustedSmall :
    (∃ t, Steps step (fun u a => bumpsFit u a) (sample true) t ∧ (t.readers 0).wakeMiss = some 0 ∧ (t.readers 0).wakeUntrusted = false) ∧
    ∃ t, Takes step (fun _ _ => True) (fun u a => endsAt 0 0 u a) 2 (sample false) t ∧ (t.readers 0).wakeUntrusted = true := by
  constructor
  · obtain ⟨t, steps, there⟩ := @played (sample true) (fun u a => bumpsFit u a) _ _
      (fun t => ((t.readers 0).wakeMiss, (t.channelOf (t.readers 0)).wake)) (some 0, true) (missing [0]) (by decide +kernel)
    obtain ⟨miss, wake⟩ := Prod.mk.inj there
    exact ⟨t, steps, miss, distrustedWhenUnwoken.1 (sampleFresh true) steps wake⟩
  · have shown : (play (tally step (endsAt 0 0)) (0, sample false) (missing [0] ++ .consume 0 :: missing [0])).map
        (fun e => (e.1, (e.2.readers 0).fileSequence)) = some (2, 0) := by decide +kernel
    obtain ⟨⟨n, t⟩, run, same⟩ := Option.map_eq_some_iff.mp shown
    obtain ⟨rfl, still⟩ := Prod.mk.inj same
    have takes := playTakes (.here (sample false)) run
    exact ⟨t, takes, distrustedWhenUnwoken.2 0 0 2 (sampleStarted false) (sampleSilent 0) takes (Nat.le_refl _) still⟩

/-- A full sleep of a call with reader `k` runs out while a record is at that reader's cursor in segment `q`. -/
def runsOut (k q : Nat) (s : WakeWords.State) (a : Move) : Bool :=
  match a, s.phase with
  | .thread time, .asleep _ _ true =>
    time.timedOut && decide (k ∈ s.call ∧ s.header (s.readers k) = some .user ∧ (s.readers k).fileSequence = q)
  | _, _ => false

/- Reader 0 of the call hides the records of reader 1. -/
theorem hiddenTrusted : Fresh (sample false) ∧ Silent 0 0 ((sample false).channelOf ((sample false).readers 1)) ∧
    ∃ t, Takes step (fun _ _ => True) (fun u a => runsOut 1 0 u a) 2 (sample false) t ∧
      (t.readers 1).fileSequence = 0 ∧ (t.readers 1).wakeMiss = none ∧ (t.readers 1).wakeUntrusted = false := by
  have shown : (play (tally step (runsOut 1 0)) (0, sample false) (missing [0, 1] ++ .consume 0 :: .consume 1 :: missing [0, 1])).map
      (fun e => (e.1, (e.2.readers 1).fileSequence, (e.2.readers 1).wakeMiss, (e.2.readers 1).wakeUntrusted)) =
        some (2, 0, none, false) := by decide +kernel
  obtain ⟨⟨n, t⟩, run, same⟩ := Option.map_eq_some_iff.mp shown
  obtain ⟨rfl, rest⟩ := Prod.mk.inj same
  obtain ⟨still, rest⟩ := Prod.mk.inj rest
  obtain ⟨unmissed, trusted⟩ := Prod.mk.inj rest
  exact ⟨sampleFresh false, sampleSilent 1, t, playTakes (.here (sample false)) run, still, unmissed, trusted⟩

end Law

end Xchannel.WakeTrust
