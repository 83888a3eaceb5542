import Xchannel.Successions

/-! What a helper makes of retention. The segments still to be unlinked form one line: those the helper has taken off
the queue, the queue, the writer's own and the deferred ones. A step adds to its end, takes one out, or moves one
back; order and number of the files on disk follow from the line. -/
namespace Xchannel.Retention
open Format Interleaving HandOver HandOverLaws Successions

variable {spec : Spec} {first : Nat} {s t : HandOver.State} {busy cloned : Bool}

/-- Swapped out of the queue by the helper and not yet deleted. -/
def swappedOut (s : HandOver.State) : List Nat :=
  match s.helper with
  | .deleting taken => taken
  | _ => []

def inHand (s : HandOver.State) : List Nat :=
  match s.writer with
  | .handing todo | .storing todo | .releasing todo | .retaining todo => todo
  | .checking q todo | .flying q todo | .unlinking q todo | .deleting q todo => q :: todo
  | _ => []

def overdue (s : HandOver.State) : List Nat := swappedOut s ++ s.doomed ++ inHand s ++ s.deferredPrune

/-- The first segment that retention keeps. -/
def window (spec : Spec) (s : HandOver.State) : Nat :=
  match spec.keepFiles with
  | some n => s.next - n
  | none => 0

/-- What a step does to the line and to the files up to the current one. -/
inductive Effect (spec : Spec) (s : HandOver.State) (a : Move) (t : HandOver.State) : Prop where
  | stays (line : overdue t = overdue s) (sequence : t.fileSequence = s.fileSequence) (unlinked : t.unlinked = s.unlinked)
      (names : ∀ q, q ≤ s.fileSequence → t.names q = s.names q)
  | grows (line : overdue t = overdue s ++ List.range' (window spec s) (window spec t - window spec s))
      (sequence : t.fileSequence = s.next) (unlinked : t.unlinked = s.unlinked) (names : t.names = s.names)
  | loses (before : List Nat) (q : Nat) (after : List Nat) (line : overdue s = before ++ q :: after)
      (left : overdue t = before ++ after) (sequence : t.fileSequence = s.fileSequence)
      (unlinked : t.unlinked = s.unlinked ++ [q]) (names : ∀ r, t.names r = if r = q then none else s.names r)
      (oldest : before = [] ∨ (∃ todo, s.writer = .deleting q todo) ∨
        s.writer = .undeferring ∧ before = swappedOut s ++ s.doomed)
  | defers (before : List Nat) (q : Nat) (todo : List Nat) (line : overdue s = before ++ q :: todo ++ s.deferredPrune)
      (left : overdue t = before ++ todo ++ s.deferredPrune ++ [q]) (at' : s.writer = .flying q todo) (flight : s.inFlight = q)
      (own : ∃ busy cloned, a = .writer busy cloned) (sequence : t.fileSequence = s.fileSequence) (unlinked : t.unlinked = s.unlinked) (names : t.names = s.names)

theorem swappedNone {x : HelperAt} (other : ∀ l, x ≠ .deleting l) (at' : s.helper = x) : swappedOut s = [] := by
  unfold swappedOut
  split
  next l held => exact absurd (at'.symm.trans held) (other l)
  next => rfl

theorem installOlder {q i : Nat} (inv : Inv spec first s) {identity : Identity} (at' : s.helper = .putting q identity i)
    (free : s.names q = none) : s.fileSequence < q := by
  have ok := inv.helper
  unfold HelperOk at ok
  rw [at'] at ok
  by_contra le
  have present := inv.kept q ok.2.1.2.1 (Nat.not_lt.mp le) ok.2.1.2.2
  rw [free] at present
  cases present

theorem helperEffect {turn : Turn} (inv : Inv spec first s) (taken : helperStep spec turn s = some t) :
    Effect spec s (.helper turn) t := by
  obtain ⟨writer, -, sequence, -, deferred, -, -⟩ := helperFrame taken
  have stays (queue : swappedOut t ++ t.doomed = swappedOut s ++ s.doomed) (unlinked : t.unlinked = s.unlinked)
      (names : ∀ q, q ≤ s.fileSequence → t.names q = s.names q) : Effect spec s (.helper turn) t := by
    refine .stays ?_ sequence unlinked names
    unfold overdue inHand
    rw [queue, writer, deferred]
  cases at' : s.helper with
  | gone =>
    simp only [helperStep, at'] at taken
    cases taken
  | top =>
    simp only [helperStep, at'] at taken
    cases taken
    refine stays ?_ rfl fun _ _ => rfl
    rw [swappedNone (by simp) at']
    exact List.append_nil _
  | deleting l =>
    cases l with
    | nil =>
      simp only [helperStep, at'] at taken
      cases taken
      refine stays ?_ rfl fun _ _ => rfl
      have before : swappedOut s = [] := by rw [swappedOut, at']
      rw [before]
      refine congrArg (· ++ s.doomed) (swappedNone ?_ rfl)
      intro l
      dsimp only
      split <;> simp
    | cons q l =>
      simp only [helperStep, at'] at taken
      cases taken
      refine .loses [] q (l ++ s.doomed ++ inHand s ++ s.deferredPrune) ?_ rfl rfl rfl (fun _ => rfl) (.inl rfl)
      rw [overdue, swappedOut, at']
      rfl
  | putting q identity i =>
    simp only [helperStep, at'] at taken
    rw [swappedNone (by simp) at'] at stays
    split at taken <;> cases taken
    · exact stays rfl rfl fun _ _ => rfl
    next free =>
      have ahead := installOlder inv at' (Option.not_isSome_iff_eq_none.mp free)
      exact stays rfl rfl fun r le => if_neg (by omega)
  | _ =>
    simp only [helperStep, at'] at taken
    rw [swappedNone (by simp) at'] at stays
    (repeat' split at taken) <;> cases taken <;> refine stays ?_ rfl fun _ _ => rfl
    all_goals exact congrArg (· ++ s.doomed) (swappedNone (by simp) rfl)

/- What a roll adds to the line. -/
theorem switchEffect {identity : Identity} {i : Nat} (at' : s.writer = .switching identity i)
    (taken : writerStep spec busy cloned s = some t) :
    Effect spec s (.writer busy cloned) t := by
  simp only [writerStep, at'] at taken
  cases taken
  refine .grows ?_ rfl rfl rfl
  have hand : inHand s = [] := by rw [inHand, at']
  show swappedOut s ++ s.doomed ++ retention spec s ++ [] = _
  rw [overdue, hand]
  unfold window retention
  cases spec.keepFiles with
  | none => simp
  | some n =>
    unfold HandOver.State.next
    dsimp only
    split
    next due =>
      have one : s.fileSequence + 1 + 1 - n - (s.fileSequence + 1 - n) = 1 := by omega
      simp [one]
    next early =>
      have none : s.fileSequence + 1 + 1 - n - (s.fileSequence + 1 - n) = 0 := by omega
      simp [none]

theorem writerEffect (inv : Inv spec first s) (taken : writerStep spec busy cloned s = some t) :
    Effect spec s (.writer busy cloned) t := by
  -- a place where the line is as it was
  have stays (line : overdue t = overdue s) (sequence : t.fileSequence = s.fileSequence) (unlinked : t.unlinked = s.unlinked)
      (names : ∀ q, q ≤ s.fileSequence → t.names q = s.names q) :
      Effect spec s (.writer busy cloned) t := .stays line sequence unlinked names
  cases at' : s.writer with
  | switching identity i => exact switchEffect at' taken
  | releasing todo =>
    simp only [writerStep, at'] at taken
    split at taken <;> cases taken
    next q rest stopped left =>
      have none := swappedNone (by simp) (inv.stops stopped)
      refine .loses [] q (rest ++ todo ++ s.deferredPrune) ?_ ?_ rfl rfl (fun _ => rfl) (.inl rfl)
      · rw [overdue, none, left, inHand, at']
        simp
      · show swappedOut s ++ rest ++ inHand s ++ s.deferredPrune = _
        rw [none, inHand, at']
        simp
    next =>
      refine stays ?_ rfl rfl fun _ _ => rfl
      show swappedOut s ++ s.doomed ++ todo ++ s.deferredPrune = _
      rw [overdue, inHand, at']
  | unlinking q todo =>
    simp only [writerStep, at'] at taken
    split at taken <;> cases taken <;> refine stays ?_ rfl rfl fun _ _ => rfl
    · show swappedOut s ++ (s.doomed ++ [q]) ++ todo ++ s.deferredPrune = _
      rw [overdue, inHand, at']
      simp
    · show swappedOut s ++ s.doomed ++ (q :: todo) ++ s.deferredPrune = _
      rw [overdue, inHand, at']
  | flying q todo =>
    simp only [writerStep, at'] at taken
    split at taken <;> cases taken
    next flight =>
      refine .defers (swappedOut s ++ s.doomed) q todo ?_ ?_ at' flight ⟨_, _, rfl⟩ rfl rfl rfl
      · rw [overdue, inHand, at']
      · show swappedOut s ++ s.doomed ++ todo ++ (s.deferredPrune ++ [q]) = _
        simp
    next =>
      refine stays ?_ rfl rfl fun _ _ => rfl
      show swappedOut s ++ s.doomed ++ (q :: todo) ++ s.deferredPrune = _
      rw [overdue, inHand, at']
  | deleting q todo =>
    simp only [writerStep, at'] at taken
    cases taken
    refine .loses (swappedOut s ++ s.doomed) q (todo ++ s.deferredPrune) ?_ ?_ rfl rfl (fun _ => rfl) (.inr (.inl ⟨todo, at'⟩))
    · rw [overdue, inHand, at']
      simp
    · show swappedOut s ++ s.doomed ++ todo ++ s.deferredPrune = _
      simp
  | draining =>
    have none := swappedNone (by simp) (inv.joined (by rw [at']; trivial))
    simp only [writerStep, at'] at taken
    split at taken <;> cases taken
    · refine stays ?_ rfl rfl fun _ _ => rfl
      show swappedOut s ++ s.doomed ++ [] ++ s.deferredPrune = _
      rw [overdue, inHand, at']
    next q rest left =>
      refine .loses [] q (rest ++ s.deferredPrune) ?_ ?_ rfl rfl (fun _ => rfl) (.inl rfl)
      · rw [overdue, none, left, inHand, at']
        simp
      · show swappedOut s ++ rest ++ inHand s ++ s.deferredPrune = _
        rw [none, inHand, at']
        simp
  | undeferring =>
    simp only [writerStep, at'] at taken
    split at taken <;> cases taken
    · refine stays ?_ rfl rfl fun _ _ => rfl
      show swappedOut s ++ s.doomed ++ [] ++ s.deferredPrune = _
      rw [overdue, inHand, at']
    next q rest left =>
      refine .loses (swappedOut s ++ s.doomed) q rest ?_ ?_ rfl rfl (fun _ => rfl) (.inr (.inr ⟨at', rfl⟩))
      · rw [overdue, inHand, at', left]
        simp
      · show swappedOut s ++ s.doomed ++ inHand s ++ rest = _
        rw [inHand, at']
        simp
  | handing todo =>
    simp only [writerStep, at'] at taken
    have hand : overdue s = swappedOut s ++ s.doomed ++ todo ++ s.deferredPrune := by rw [overdue, inHand, at']
    split at taken <;> cases taken
    · rw [← at']
      obtain ⟨_, _, same⟩ := handOffFrame busy { s with handoff := some (s.fileSequence, s.fileInstance) }
      rw [same]
      exact .stays hand.symm rfl rfl fun _ _ => rfl
    · exact stays hand.symm rfl rfl fun _ _ => rfl
  | putting identity i =>
    have hand : overdue s = swappedOut s ++ s.doomed ++ [] ++ s.deferredPrune := by rw [overdue, inHand, at']
    simp only [writerStep, at'] at taken
    split at taken <;> cases taken
    · exact stays hand.symm rfl rfl fun _ _ => rfl
    · exact stays hand.symm rfl rfl fun q le => if_neg (by unfold HandOver.State.next; omega)
  | discarding =>
    have hand : overdue s = swappedOut s ++ s.doomed ++ [] ++ s.deferredPrune := by rw [overdue, inHand, at']
    simp only [writerStep, at'] at taken
    (repeat' split at taken) <;> cases taken
    · exact stays hand.symm rfl rfl fun _ _ => rfl
    · exact stays hand.symm rfl rfl fun _ _ => rfl
    next n holds unpublished =>
      refine stays hand.symm rfl rfl fun q le => if_neg ?_
      rintro rfl
      exact unpublished ((inv.ready n holds).2.2.1 le)
  | checking q todo =>
    have hand : overdue s = swappedOut s ++ s.doomed ++ (q :: todo) ++ s.deferredPrune := by rw [overdue, inHand, at']
    simp only [writerStep, at'] at taken
    split at taken <;> cases taken <;> exact stays hand.symm rfl rfl fun _ _ => rfl
  | retaining todo =>
    have hand : overdue s = swappedOut s ++ s.doomed ++ todo ++ s.deferredPrune := by rw [overdue, inHand, at']
    cases todo <;> simp only [writerStep, at'] at taken <;> cases taken <;> exact stays hand.symm rfl rfl fun _ _ => rfl
  | storing todo =>
    have hand : overdue s = swappedOut s ++ s.doomed ++ todo ++ s.deferredPrune := by rw [overdue, inHand, at']
    simp only [writerStep, at'] at taken
    cases taken
    exact stays hand.symm rfl rfl fun _ _ => rfl
  | _ =>
    have hand : overdue s = swappedOut s ++ s.doomed ++ [] ++ s.deferredPrune := by rw [overdue, inHand, at']
    simp only [writerStep, at'] at taken
    (repeat' split at taken) <;> cases taken <;> exact stays hand.symm rfl rfl fun _ _ => rfl

/- Every step is one of the four. -/
theorem stepEffect (inv : Inv spec first s) {a : Move} (taken : step spec s a = some t) : Effect spec s a t := by
  cases a with
  | helper turn => exact helperEffect inv taken
  | writer busy cloned => exact writerEffect inv taken
  | commit =>
    simp only [step] at taken
    split at taken <;> cases taken
    exact .stays rfl rfl rfl fun _ _ => rfl
  | roll full =>
    simp only [step] at taken
    split at taken
    next idle =>
      have hand : overdue s = swappedOut s ++ s.doomed ++ [] ++ s.deferredPrune := by rw [overdue, inHand, idle]
      (repeat' split at taken) <;> cases taken <;> exact .stays hand.symm rfl rfl fun _ _ => rfl
    next => cases taken
  | moved busy =>
    simp only [step] at taken
    split at taken <;> cases taken
    next idle =>
      have hand : overdue s = swappedOut s ++ s.doomed ++ [] ++ s.deferredPrune := by rw [overdue, inHand, idle]
      obtain ⟨_, _, same⟩ := handOffFrame busy s
      rw [same]
      exact .stays hand.symm rfl rfl fun _ _ => rfl
  | drop =>
    simp only [step] at taken
    split at taken <;> cases taken
    next idle =>
      have hand : overdue s = swappedOut s ++ s.doomed ++ [] ++ s.deferredPrune := by rw [overdue, inHand, idle]
      exact .stays hand.symm rfl rfl fun _ _ => rfl

theorem windowSame (sequence : t.fileSequence = s.fileSequence) : window spec t = window spec s := by
  unfold window HandOver.State.next
  rw [sequence]

theorem windowBehind : window spec s ≤ s.fileSequence := by
  unfold window HandOver.State.next
  split
  next n keeps =>
    have := spec.kept n keeps
    omega
  next => exact Nat.zero_le _

theorem windowGrows (sequence : t.fileSequence = s.next) : window spec s ≤ window spec t := by
  unfold window HandOver.State.next at *
  rw [sequence]
  split <;> omega

section Queues

/- What the writer does to the lists it shares with the helper and to its own. -/
theorem writerLists (taken : writerStep spec busy cloned s = some t) : t.helper = s.helper ∧
    (t.doomed = s.doomed ∨ (∃ q, s.doomed = q :: t.doomed) ∨
      ∃ q todo, s.writer = .unlinking q todo ∧ s.doomed.length < doomedQueue ∧ t.doomed = s.doomed ++ [q]) ∧
    (t.deferredPrune = s.deferredPrune ∨ t.deferredPrune = [] ∨ (∃ q, s.deferredPrune = q :: t.deferredPrune) ∨
      ∃ q todo, s.writer = .flying q todo ∧ s.inFlight = q) ∧
    ∀ q ∈ t.condemned, q ∈ s.condemned ∨ q ∈ overdue s := by
  cases at' : s.writer with
  | releasing todo =>
    simp only [writerStep, at'] at taken
    split at taken <;> cases taken
    next q rest _ left => exact ⟨rfl, .inr (.inl ⟨q, left⟩), .inl rfl, fun _ mem => .inl mem⟩
    next => exact ⟨rfl, .inl rfl, .inl rfl, fun _ mem => .inl mem⟩
  | draining =>
    simp only [writerStep, at'] at taken
    split at taken <;> cases taken
    next => exact ⟨rfl, .inl rfl, .inl rfl, fun _ mem => .inl mem⟩
    next q rest left => exact ⟨rfl, .inr (.inl ⟨q, left⟩), .inl rfl, fun _ mem => .inl mem⟩
  | undeferring =>
    simp only [writerStep, at'] at taken
    split at taken <;> cases taken
    next => exact ⟨rfl, .inl rfl, .inl rfl, fun _ mem => .inl mem⟩
    next q rest left =>
      refine ⟨rfl, .inl rfl, .inr (.inr (.inl ⟨q, left⟩)), fun r mem => ?_⟩
      rcases List.mem_append.mp mem with before | last
      · exact .inl before
      · refine .inr (List.mem_append_right _ ?_)
        rw [left, List.mem_singleton.mp last]
        exact List.mem_cons_self
  | unlinking q todo =>
    simp only [writerStep, at'] at taken
    split at taken <;> cases taken
    next room => exact ⟨rfl, .inr (.inr ⟨q, todo, rfl, room, rfl⟩), .inl rfl, fun _ mem => .inl mem⟩
    next => exact ⟨rfl, .inl rfl, .inl rfl, fun _ mem => .inl mem⟩
  | checking q todo | flying q todo =>
    have hand : q ∈ overdue s := by
      refine List.mem_append_left _ (List.mem_append_right _ ?_)
      rw [inHand, at']
      exact List.mem_cons_self
    have decided (r : Nat) (mem : r ∈ s.condemned ++ [q]) : r ∈ s.condemned ∨ r ∈ overdue s := by
      rcases List.mem_append.mp mem with before | last
      · exact .inl before
      · exact .inr (List.mem_singleton.mp last ▸ hand)
    simp only [writerStep, at'] at taken
    split at taken <;> cases taken
    all_goals first
      | exact ⟨rfl, .inl rfl, .inl rfl, decided⟩
      | exact ⟨rfl, .inl rfl, .inl rfl, fun _ mem => .inl mem⟩
      | exact ⟨rfl, .inl rfl, .inr (.inr (.inr ⟨q, todo, rfl, ‹_›⟩)), fun _ mem => .inl mem⟩
  | handing todo =>
    simp only [writerStep, at'] at taken
    split at taken <;> cases taken
    · rw [← at']
      obtain ⟨_, _, same⟩ := handOffFrame busy { s with handoff := some (s.fileSequence, s.fileInstance) }
      rw [same]
      exact ⟨rfl, .inl rfl, .inl rfl, fun _ mem => .inl mem⟩
    · exact ⟨rfl, .inl rfl, .inl rfl, fun _ mem => .inl mem⟩
  | switching identity i =>
    simp only [writerStep, at'] at taken
    cases taken
    exact ⟨rfl, .inl rfl, .inr (.inl rfl), fun _ mem => .inl mem⟩
  | retaining todo =>
    cases todo <;> simp only [writerStep, at'] at taken <;> cases taken <;>
      exact ⟨rfl, .inl rfl, .inl rfl, fun _ mem => .inl mem⟩
  | _ =>
    simp only [writerStep, at'] at taken
    (repeat' split at taken) <;> cases taken <;> exact ⟨rfl, .inl rfl, .inl rfl, fun _ mem => .inl mem⟩

theorem helperLists {turn : Turn} (taken : helperStep spec turn s = some t) : t.condemned = s.condemned ∧
    (swappedOut t).length + t.doomed.length ≤ (swappedOut s).length + s.doomed.length ∧
    ((swappedOut t).length ≤ (swappedOut s).length ∨ (swappedOut t).length ≤ s.doomed.length) := by
  have empty (l : Option (Identity × Nat)) (q : Nat) : swappedOut { s with helper := .landing q l } = [] := rfl
  cases at' : s.helper with
  | top =>
    simp only [helperStep, at'] at taken
    cases taken
    exact ⟨rfl, by simp [swappedOut], .inr (by simp [swappedOut])⟩
  | deleting l =>
    cases l with
    | nil =>
      simp only [helperStep, at'] at taken
      cases taken
      refine ⟨rfl, ?_, .inl ?_⟩ <;> split <;> simp [swappedOut, at']
    | cons q l =>
      simp only [helperStep, at'] at taken
      cases taken
      refine ⟨rfl, ?_, .inl ?_⟩ <;> simp [swappedOut, at', HandOver.State.delete, HandOver.State.removeFile]
  | _ =>
    simp only [helperStep, at'] at taken
    (repeat' split at taken) <;> cases taken
    all_goals refine ⟨rfl, ?_, .inl ?_⟩ <;> simp [swappedOut, at', HandOver.State.allocate, HandOver.State.setFile, HandOver.State.install]

def Loaded (s : HandOver.State) : Prop := s.doomed.length ≤ doomedQueue ∧ (swappedOut s).length ≤ doomedQueue

theorem swappedSame (helper : t.helper = s.helper) : swappedOut t = swappedOut s := by
  unfold swappedOut
  rw [helper]

/- What the user's own moves leave to the writer and the helper. -/
theorem userLists {a : Move} (taken : step spec s a = some t) (user : (∀ turn, a ≠ .helper turn) ∧ ∀ busy cloned, a ≠ .writer busy cloned) :
    t.helper = s.helper ∧ t.doomed = s.doomed ∧ t.deferredPrune = s.deferredPrune ∧ t.condemned = s.condemned := by
  cases a with
  | helper turn => exact absurd rfl (user.1 turn)
  | writer busy cloned => exact absurd rfl (user.2 busy cloned)
  | moved busy =>
    simp only [step] at taken
    split at taken <;> cases taken
    obtain ⟨_, _, same⟩ := handOffFrame busy s
    rw [same]
    exact ⟨rfl, rfl, rfl, rfl⟩
  | commit | roll full | drop =>
    simp only [step] at taken
    (repeat' split at taken) <;> cases taken <;> exact ⟨rfl, rfl, rfl, rfl⟩

theorem loadedKeeps (loaded : Loaded s) {a : Move} (taken : step spec s a = some t) : Loaded t := by
  obtain ⟨queue, swapped⟩ := loaded
  cases a with
  | helper turn =>
    have fewer := (helperFrame taken).2.2.2.2.2.2
    obtain ⟨-, -, less | less⟩ := helperLists taken
    · exact ⟨fewer.trans queue, less.trans swapped⟩
    · exact ⟨fewer.trans queue, less.trans queue⟩
  | writer busy cloned =>
    obtain ⟨helper, doomed, -, -⟩ := writerLists taken
    refine ⟨?_, (swappedSame helper).symm ▸ swapped⟩
    rcases doomed with same | ⟨q, less⟩ | ⟨q, todo, -, room, more⟩
    · exact same ▸ queue
    · rw [less, List.length_cons] at queue
      omega
    · rw [more, List.length_append]
      exact room
  | commit | roll full | moved busy | drop =>
    obtain ⟨helper, doomed, -⟩ := userLists taken (by simp)
    exact ⟨doomed ▸ queue, (swappedSame helper).symm ▸ swapped⟩

end Queues

section Accounts

/-- From segment `low` on, retention has on its line what it does not keep and what is there, and nothing else. -/
def Accounted (spec : Spec) (low : Nat) (s : HandOver.State) : Prop :=
  (∀ q, low ≤ q → q < window spec s → (s.names q).isSome → q ∈ overdue s) ∧ (∀ q ∈ overdue s, q < window spec s) ∧
    ∀ q ∈ s.condemned, q < window spec s

theorem condemnedOrdered {a : Move} (taken : step spec s a = some t) :
    ∀ q ∈ t.condemned, q ∈ s.condemned ∨ q ∈ overdue s := by
  cases a with
  | helper turn => exact fun q mem => .inl ((helperLists taken).1 ▸ mem)
  | writer busy cloned => exact (writerLists taken).2.2.2
  | commit | roll full | moved busy | drop => exact fun q mem => .inl ((userLists taken (by simp)).2.2.2 ▸ mem)

theorem accountedKeeps {low : Nat} (inv : Inv spec first s) (accounted : Accounted spec low s) {a : Move}
    (taken : step spec s a = some t) : Accounted spec low t := by
  obtain ⟨present, listed, decided⟩ := accounted
  have condemned (q : Nat) (mem : q ∈ t.condemned) : q < window spec s :=
    (condemnedOrdered taken q mem).elim (decided q) (listed q)
  have behind := @windowBehind spec s
  rcases stepEffect inv taken with ⟨line, sequence, -, names⟩ | ⟨line, sequence, -, names⟩ |
    ⟨before, q, after, line, left, sequence, -, names, -⟩ | ⟨before, q, todo, line, left, -, -, -, sequence, -, names⟩
  · unfold Accounted
    rw [windowSame sequence, line]
    refine ⟨fun r from' older there => present r from' older ?_, listed, condemned⟩
    rw [← names r (by omega)]
    exact there
  · have wider := @windowGrows spec s t sequence
    refine ⟨fun r from' older there => ?_, fun r mem => ?_, fun r mem => (condemned r mem).trans_le wider⟩
    · rw [line]
      by_cases old : r < window spec s
      · exact List.mem_append_left _ (present r from' old (names ▸ there))
      · exact List.mem_append_right _ (List.mem_range'_1.mpr (by omega))
    · rw [line] at mem
      rcases List.mem_append.mp mem with old | new
      · exact (listed r old).trans_le wider
      · have := List.mem_range'_1.mp new
        omega
  · unfold Accounted
    rw [windowSame sequence, left]
    refine ⟨fun r from' older there => ?_, fun r mem => listed r ?_, condemned⟩
    · rw [names] at there
      by_cases gone : r = q
      · rw [if_pos gone] at there
        cases there
      · rw [if_neg gone] at there
        have mem := present r from' older there
        rw [line] at mem
        simpa [gone] using mem
    · rw [line]
      exact List.mem_append.mpr ((List.mem_append.mp mem).imp_right (List.mem_cons_of_mem q))
  · have same (r : Nat) : r ∈ overdue t ↔ r ∈ overdue s := by
      rw [line, left]
      simp only [List.mem_append, List.mem_cons, List.not_mem_nil]
      tauto
    unfold Accounted
    rw [windowSame sequence, names]
    exact ⟨fun r from' older there => (same r).mpr (present r from' older there), fun r mem => listed r ((same r).mp mem), condemned⟩

end Accounts

section Drop

/-- Past the queue in the drop, it is empty; at its end, so is the list of deferred prunes. -/
def Spent (s : HandOver.State) : Prop :=
  (s.writer = .undeferring ∨ s.writer = .dropped → s.doomed = []) ∧ (s.writer = .dropped → s.deferredPrune = [])

theorem spentLater (later : s.writer ≠ .undeferring ∧ s.writer ≠ .dropped) : Spent s :=
  ⟨fun at' => (at'.elim later.1 later.2).elim, fun at' => absurd at' later.2⟩

theorem spentKeeps (inv : Inv spec first s) (spent : Spent s) {a : Move} (taken : step spec s a = some t) : Spent t := by
  cases a with
  | helper turn =>
    obtain ⟨writer, -⟩ := helperFrame taken
    have running : ¬ Joined s.writer := by
      intro joined
      simp only [step, helperStep, inv.joined joined] at taken
      cases taken
    refine spentLater ⟨?_, ?_⟩ <;> (rw [writer]; intro at'; rw [at'] at running; exact running trivial)
  | writer busy cloned =>
    simp only [step] at taken
    cases at' : s.writer with
    | draining =>
      simp only [writerStep, at'] at taken
      split at taken <;> cases taken
      next empty => exact ⟨fun _ => empty, by rintro ⟨⟩⟩
      next => exact spentLater (by simp [HandOver.State.delete, HandOver.State.removeFile, at'])
    | undeferring =>
      have doomed := spent.1 (.inl at')
      simp only [writerStep, at'] at taken
      split at taken <;> cases taken
      next empty => exact ⟨fun _ => doomed, fun _ => empty⟩
      next => exact ⟨fun _ => doomed, fun last => absurd (at'.symm.trans last) (by simp)⟩
    | retaining todo =>
      cases todo <;> simp only [writerStep, at'] at taken <;> cases taken <;> exact spentLater (by simp)
    | _ =>
      simp only [writerStep, at'] at taken
      (repeat' split at taken) <;> cases taken <;>
        exact spentLater (by simp [HandOver.State.fail, HandOver.State.delete, HandOver.State.removeFile, at'])
  | commit | roll full | moved busy | drop =>
    simp only [step] at taken
    (repeat' split at taken) <;> cases taken <;> exact spentLater (by simp [HandOver.State.fail, HandOver.State.setFile, *])

theorem openedOverdue (opened : Opened s) : overdue s = [] := by
  have swapped := swappedNone (by simp) opened.helper
  rw [overdue, swapped, opened.doomed, inHand, opened.writer, opened.deferred]
  rfl

theorem reachedAccounted {low : Nat} (opened : Opened s) (older : ∀ q, low ≤ q → q < window spec s → s.names q = none)
    (reached : Reached spec s t) : Inv spec s.fileSequence t ∧ Accounted spec low t ∧ Spent t ∧ Loaded t := by
  refine reached.keeps (I := fun u => Inv spec s.fileSequence u ∧ Accounted spec low u ∧ Spent u ∧ Loaded u)
    (fun u a v now _ taken => ?_) ⟨openedInv opened, ⟨?_, ?_, ?_⟩, spentLater ?_, ?_, ?_⟩
  · exact ⟨stepKeeps now.1 taken, accountedKeeps now.1 now.2.1 taken, spentKeeps now.1 now.2.2.1 taken, loadedKeeps now.2.2.2 taken⟩
  · intro q from' before present
    rw [older q from' before] at present
    cases present
  · rw [openedOverdue opened]
    rintro q ⟨⟩
  · rw [opened.fresh.1]
    rintro q ⟨⟩
  · rw [opened.writer]
    simp
  · rw [opened.doomed]
    exact Nat.zero_le _
  · rw [swappedNone (by simp) opened.helper]
    exact Nat.zero_le _

/- Whatever the interleaving, the window stays, and a drop leaves nothing before it of what the session retired. -/
theorem windowLeft (opened : Opened s) (reached : Reached spec s t) :
    (∀ q, s.fileSequence < q → window spec t ≤ q → q ≤ t.fileSequence → (t.names q).isSome) ∧
    (t.writer = .dropped → ∀ q, window spec s ≤ q → q < window spec t → t.names q = none) := by
  obtain ⟨inv, ⟨present, listed, decided⟩, spent, -⟩ :=
    @reachedAccounted _ _ _ (window spec s) opened (fun q from' before => absurd before (Nat.not_lt.mpr from')) reached
  refine ⟨fun q after kept le => inv.kept q after le fun mem => absurd (decided q mem) (Nat.not_lt.mpr kept), ?_⟩
  intro done q from' before
  have swapped := swappedNone (by simp) (inv.joined (by rw [done]; trivial))
  have nothing : overdue t = [] := by
    rw [overdue, swapped, spent.1 (.inr done), inHand, done, spent.2 done]
    rfl
  by_contra there
  have mem := present q from' before (Option.isSome_iff_ne_none.mpr there)
  rw [nothing] at mem
  cases mem

/- Two rolls, then the drop: the helper deletes what was queued and stops. -/
theorem windowLeftSmall : ∃ t, Reached sampleSpec (sample 0) t ∧ (t.writer = .dropped ∧ t.fileSequence = 2) ∧
    (t.names 2).isSome ∧ t.names 0 = none ∧ t.names 1 = none := by
  obtain ⟨t, reached, there⟩ := @played sampleSpec (sample 0) (fun _ _ => True) _ _ (fun t => (t.writer, t.fileSequence)) (.dropped, 2)
    (rolling 16 ++ rolling 16 ++ [.drop] ++ helping 4 ++ List.replicate 4 (.writer false true)) (by decide +kernel)
  obtain ⟨done, rolled⟩ := Prod.mk.inj there
  obtain ⟨kept, gone⟩ := windowLeft (sampleOpened (by decide)) reached
  have low : window sampleSpec t = 2 := by
    unfold window HandOver.State.next
    rw [rolled]
    rfl
  refine ⟨t, reached, ⟨done, rolled⟩, kept 2 (by decide) low.le rolled.ge, gone done 0 (Nat.le_refl _) ?_, gone done 1 (Nat.zero_le _) ?_⟩ <;>
    (rw [low]; decide)

end Drop

section Order

/-- The queue has room for what the roll pushes; a prune that is deferred is the last one of its roll, and the only one
deferred. -/
def inOrder (s : HandOver.State) (a : Move) : Bool :=
  match a, s.writer with
  | .writer _ _, .unlinking _ _ => decide (s.doomed.length < doomedQueue)
  | .writer _ _, .flying q todo => decide (s.inFlight = q → todo = [] ∧ s.deferredPrune = [])
  | _, _ => true

/-- The line has every segment from the oldest one present up to the window. -/
def Ordered (spec : Spec) (s : HandOver.State) : Prop :=
  ∃ oldest ≤ window spec s, overdue s = List.range' oldest (window spec s - oldest) ∧
    (∀ q < oldest, s.names q = none) ∧ ∀ q ∈ s.unlinked, q < oldest

/- The writer never deletes a segment itself. -/
theorem inOrderQueues {a : Move} (queues : ∀ q todo, s.writer ≠ .deleting q todo) (meets : inOrder s a) (taken : step spec s a = some t)
    (q : Nat) (todo : List Nat) : t.writer ≠ .deleting q todo := by
  intro now
  cases a with
  | helper turn => exact queues q todo ((helperFrame taken).1 ▸ now)
  | commit | roll full | moved busy | drop =>
    simp only [step] at taken
    (repeat' split at taken) <;> cases taken <;> simp_all [HandOver.State.fail, HandOver.State.setFile]
  | writer busy cloned =>
    simp only [step] at taken
    cases at' : s.writer with
    | unlinking r todo =>
      simp only [inOrder, at', decide_eq_true_eq] at meets
      simp only [writerStep, at', if_pos meets] at taken
      cases taken
      cases now
    | deleting r todo => exact queues r todo at'
    | retaining todo => cases todo <;> simp only [writerStep, at'] at taken <;> cases taken <;> cases now
    | _ =>
      simp only [writerStep, at'] at taken
      (repeat' split at taken) <;> cases taken <;>
        simp [HandOver.State.fail, HandOver.State.delete, HandOver.State.removeFile, at'] at now

theorem orderedKeeps (inv : Inv spec first s) (spent : Spent s) (queues : ∀ q todo, s.writer ≠ .deleting q todo)
    (ordered : Ordered spec s) {a : Move} (meets : inOrder s a) (taken : step spec s a = some t) : Ordered spec t := by
  obtain ⟨oldest, old, line', absent, unlinked'⟩ := ordered
  have behind := @windowBehind spec s
  rcases stepEffect inv taken with ⟨line, sequence, unlinked, names⟩ | ⟨line, sequence, unlinked, names⟩ |
    ⟨before, q, after, line, left, sequence, unlinked, names, route⟩ |
    ⟨before, q, todo, line, left, at', flight, ⟨busy, cloned, rfl⟩, sequence, unlinked, names⟩
  · refine ⟨oldest, ?_, ?_, fun q less => (names q (by omega)).trans (absent q less), unlinked ▸ unlinked'⟩
    · rw [windowSame sequence]
      exact old
    · rw [windowSame sequence, line, line']
  · have wider := @windowGrows spec s t sequence
    refine ⟨oldest, old.trans wider, ?_, names ▸ absent, unlinked ▸ unlinked'⟩
    have joined := @List.range'_append_1 oldest (window spec s - oldest) (window spec t - window spec s)
    rw [Nat.add_sub_cancel' old] at joined
    rw [line, line', joined]
    exact congrArg (List.range' oldest) (by omega)
  · have oldestGoes : before = [] := by
      rcases route with none | ⟨todo, deleting⟩ | ⟨at', all⟩
      · exact none
      · exact absurd deleting (queues q todo)
      · rw [all, swappedNone (by simp) (inv.joined (by rw [at']; trivial)), spent.1 (.inl at')]
        rfl
    rw [line', oldestGoes] at line
    obtain ⟨size, count⟩ : ∃ n, window spec s - oldest = n + 1 := by
      refine Nat.exists_eq_succ_of_ne_zero fun zero => ?_
      rw [zero] at line
      cases line
    rw [count, List.range'_succ] at line
    obtain ⟨rfl, rest⟩ := List.cons.inj line
    refine ⟨oldest + 1, ?_, ?_, fun r less => ?_, fun r mem => ?_⟩
    · rw [windowSame sequence]
      omega
    · rw [windowSame sequence, left, oldestGoes, ← rest]
      exact congrArg (List.range' (oldest + 1)) (by omega)
    · rw [names]
      split
      · rfl
      · exact absent r (by omega)
    · rw [unlinked] at mem
      rcases List.mem_append.mp mem with earlier | last
      · exact (unlinked' r earlier).trans (Nat.lt_succ_self _)
      · exact List.mem_singleton.mp last ▸ Nat.lt_succ_self _
  · simp only [inOrder, at', decide_eq_true_eq] at meets
    obtain ⟨rfl, none⟩ := meets flight
    refine ⟨oldest, ?_, ?_, names ▸ absent, unlinked ▸ unlinked'⟩
    · rw [windowSame sequence]
      exact old
    · rw [windowSame sequence, ← line', left, line, none]
      simp

/- Oldest first, in every run that meets the condition, if nothing older than the window was there. -/
theorem oldestFirst (opened : Opened s) (older : ∀ q < window spec s, s.names q = none)
    (steps : Steps (step spec) (fun u a => inOrder u a) s t) : ∀ k ∈ t.unlinked, ∀ j < k, t.names j = none := by
  have kept := steps.keeps
    (I := fun u => Inv spec s.fileSequence u ∧ Spent u ∧ (∀ q todo, u.writer ≠ .deleting q todo) ∧ Ordered spec u)
    (fun u a v now meets taken => ?_) ⟨openedInv opened, spentLater ?_, ?_, window spec s, Nat.le_refl _, ?_, older, ?_⟩
  · obtain ⟨-, -, -, oldest, -, -, absent, unlinked⟩ := kept
    exact fun k mem j less => absent j (less.trans (unlinked k mem))
  · obtain ⟨inv, spent, queues, ordered⟩ := now
    exact ⟨stepKeeps inv taken, spentKeeps inv spent taken, inOrderQueues queues meets taken,
      orderedKeeps inv spent queues ordered meets taken⟩
  · simp [opened.writer]
  · simp [opened.writer]
  · rw [openedOverdue opened]
    simp
  · rw [opened.fresh.2.1]
    rintro q ⟨⟩

/- Two rolls with the helper asleep after its turn on the queue, and then it deletes. -/
theorem oldestFirstSmall : ∃ t, Reached sampleSpec (sample 0) t ∧ t.unlinked = [0, 1] ∧ ∀ k ∈ t.unlinked, ∀ j < k, t.names j = none := by
  obtain ⟨t, steps, there⟩ := @played sampleSpec (sample 0) (fun u a => inOrder u a) _ _ (fun t => t.unlinked) [0, 1]
    (rolling 16 ++ rolling 16 ++ helping 3) (by decide +kernel)
  exact ⟨t, steps.mono fun _ _ _ => trivial, there,
    oldestFirst (sampleOpened (by decide)) (by intro q less; exact absurd less (Nat.not_lt_zero q)) steps⟩

/- Three rolls while the helper sleeps: the queue is full, and segment 2 goes before 0 and 1. -/
theorem queueOvertaken : ∃ t, Opened (sample 0) ∧ Reached sampleSpec (sample 0) t ∧
    ∃ k ∈ t.unlinked, ∃ j < k, (t.names j).isSome := by
  obtain ⟨t, reached, there⟩ := @played sampleSpec (sample 0) (fun _ _ => True) _ _
    (fun t => (t.unlinked, (t.names 0).isSome)) ([2], true)
    (rolling 16 ++ rolling 16 ++ rolling 17) (by decide +kernel)
  obtain ⟨unlinked, present⟩ := Prod.mk.inj there
  exact ⟨t, sampleOpened (by decide), reached, 2, by rw [unlinked]; exact List.mem_cons_self, 0, by decide, present⟩

end Order

section Bound

/-- The published segment files under their final names. -/
def onDisk (s : HandOver.State) : Finset Nat :=
  (Finset.range (s.next + 1)).filter fun q => (s.names q).any fun i => (s.files i).published

/- Between two calls the window and the line are all there is. -/
theorem onDiskBound {n : Nat} (keeps : spec.keepFiles = some n) (inv : Inv spec first s) (accounted : Accounted spec 0 s)
    (rest : Unpublished s) : (onDisk s).card ≤ n + (overdue s).length := by
  have covered : onDisk s ⊆ Finset.Ico (window spec s) s.next ∪ (overdue s).toFinset := by
    intro q mem
    have shown := (Finset.mem_filter.mp mem).2
    obtain ⟨i, named⟩ : ∃ i, s.names q = some i := by
      cases named : s.names q with
      | none =>
        rw [named] at shown
        cases shown
      | some i => exact ⟨i, rfl⟩
    have published : (s.files i).published = true := by
      rw [named] at shown
      exact shown
    have near := inv.named q i named
    have current : q ≠ s.next := by
      rintro rfl
      rw [rest i named] at published
      cases published
    by_cases kept : window spec s ≤ q
    · exact Finset.mem_union_left _ (Finset.mem_Ico.mpr (by omega))
    · refine Finset.mem_union_right _ (List.mem_toFinset.mpr (accounted.1 q (Nat.zero_le _) (Nat.lt_of_not_le kept) ?_))
      rw [named]
      rfl
  have kept : s.next - window spec s ≤ n := by
    unfold window
    rw [keeps]
    dsimp only
    omega
  calc (onDisk s).card ≤ (Finset.Ico (window spec s) s.next ∪ (overdue s).toFinset).card := Finset.card_le_card covered
    _ ≤ (Finset.Ico (window spec s) s.next).card + (overdue s).toFinset.card := Finset.card_union_le _ _
    _ ≤ n + (overdue s).length := by
      rw [Nat.card_Ico]
      exact Nat.add_le_add kept (List.toFinset_card_le _)

theorem idleOverdue (idle : s.writer = .idle) :
    (overdue s).length = (swappedOut s).length + s.doomed.length + s.deferredPrune.length := by
  rw [overdue, inHand, idle]
  simp [Nat.add_assoc]

theorem idleUnpublished (inv : Inv spec first s) (idle : s.writer = .idle) : Unpublished s := by
  have ok := inv.writer
  unfold WriterOk at ok
  rw [idle] at ok
  exact ok

/- Whatever the interleaving: the queue once more, for what the helper has swapped out. -/
theorem diskBound {n : Nat} (keeps : spec.keepFiles = some n) (opened : Opened s) (older : ∀ q < window spec s, s.names q = none)
    (reached : Reached spec s t) (idle : t.writer = .idle) :
    (onDisk t).card ≤ n + 2 * doomedQueue + t.deferredPrune.length := by
  obtain ⟨inv, accounted, -, queue, swapped⟩ := @reachedAccounted _ _ _ 0 opened (fun q _ before => older q before) reached
  have bound := onDiskBound keeps inv accounted (idleUnpublished inv idle)
  rw [idleOverdue idle] at bound
  omega

/- Four rolls around a helper that is stalled with two files swapped out. -/
theorem diskBoundSmall : ∃ t, Reached sampleSpec (sample 0) t ∧ (t.writer = .idle ∧ t.fileSequence = 4) ∧
    (onDisk t).card ≤ 1 + 2 * doomedQueue + t.deferredPrune.length := by
  obtain ⟨t, reached, there⟩ := @played sampleSpec (sample 0) (fun _ _ => True) _ _ (fun t => (t.writer, t.fileSequence)) (.idle, 4)
    (rolling 16 ++ rolling 16 ++ helping 1 ++ rolling 16 ++ rolling 16) (by decide +kernel)
  obtain ⟨idle, rolled⟩ := Prod.mk.inj there
  exact ⟨t, reached, ⟨idle, rolled⟩,
    diskBound rfl (sampleOpened (by decide)) (by intro q less; exact absurd less (Nat.not_lt_zero q)) reached idle⟩

/-- No prune is deferred for an install in flight. -/
def undeferred (s : HandOver.State) (a : Move) : Bool :=
  match a, s.writer with
  | .writer _ _, .flying q _ => decide (s.inFlight ≠ q)
  | _, _ => true

/-- What the roll pushes is at most the second file queued or swapped out. -/
def roomy (s : HandOver.State) (a : Move) : Bool :=
  match a, s.writer with
  | .writer _ _, .unlinking _ _ => decide (s.doomed.length < doomedQueue → (swappedOut s).length + s.doomed.length < doomedQueue)
  | _, _ => true

def Roomy (s : HandOver.State) : Prop := (swappedOut s).length + s.doomed.length ≤ doomedQueue ∧ s.deferredPrune = []

theorem roomyKeeps (room : Roomy s) {a : Move} (still : undeferred s a) (meets : roomy s a) (taken : step spec s a = some t) : Roomy t := by
  obtain ⟨queued, none⟩ := room
  cases a with
  | helper turn =>
    have deferred := (helperFrame taken).2.2.2.2.1
    exact ⟨(helperLists taken).2.1.trans queued, deferred.trans none⟩
  | commit | roll full | moved busy | drop =>
    obtain ⟨helper, doomed, deferred, -⟩ := userLists taken (by simp)
    unfold Roomy
    rw [swappedSame helper, doomed, deferred]
    exact ⟨queued, none⟩
  | writer busy cloned =>
    obtain ⟨helper, doomed, deferred, -⟩ := writerLists taken
    unfold Roomy
    rw [swappedSame helper]
    refine ⟨?_, ?_⟩
    · rcases doomed with same | ⟨q, less⟩ | ⟨q, todo, at', room, more⟩
      · exact same ▸ queued
      · rw [less, List.length_cons] at queued
        omega
      · simp only [roomy, at', decide_eq_true_eq] at meets
        have := meets room
        rw [more, List.length_append, List.length_singleton]
        omega
    · rcases deferred with same | empty | ⟨q, more⟩ | ⟨q, todo, at', flight⟩
      · exact same.trans none
      · exact empty
      · rw [none] at more
        cases more
      · simp only [undeferred, at', decide_eq_true_eq] at still
        exact absurd flight still

/- The bound the queue promises, in every run that meets the condition. -/
theorem promisedBound {n : Nat} (keeps : spec.keepFiles = some n) (opened : Opened s)
    (older : ∀ q < window spec s, s.names q = none) (steps : Steps (step spec) (fun u a => undeferred u a ∧ roomy u a) s t)
    (idle : t.writer = .idle) : (onDisk t).card ≤ n + doomedQueue := by
  obtain ⟨inv, accounted, -, -⟩ := @reachedAccounted _ _ _ 0 opened (fun q _ before => older q before)
    (steps.mono fun _ _ _ => trivial)
  have room := steps.keeps (I := Roomy) (fun _ _ _ now meets taken => roomyKeeps now meets.1 meets.2 taken) ⟨?_, opened.deferred⟩
  · have bound := onDiskBound keeps inv accounted (idleUnpublished inv idle)
    rw [idleOverdue idle, room.2] at bound
    exact bound.trans (Nat.add_le_add_left room.1 _)
  · rw [swappedNone (by simp) opened.helper, opened.doomed]
    exact Nat.zero_le _

theorem promisedBoundSmall : ∃ t, Reached sampleSpec (sample 0) t ∧ (t.writer = .idle ∧ t.fileSequence = 3) ∧
    (onDisk t).card ≤ 1 + doomedQueue := by
  obtain ⟨t, steps, there⟩ := @played sampleSpec (sample 0) (fun u a => undeferred u a ∧ roomy u a) _ _ (fun t => (t.writer, t.fileSequence)) (.idle, 3)
    (rolling 16 ++ rolling 16 ++ rolling 17) (by decide +kernel)
  obtain ⟨idle, rolled⟩ := Prod.mk.inj there
  exact ⟨t, steps.mono fun _ _ _ => trivial, ⟨idle, rolled⟩,
    promisedBound rfl (sampleOpened (by decide)) (by intro q less; exact absurd less (Nat.not_lt_zero q)) steps idle⟩

/- Two rolls, then the helper swaps the queue and is stalled; two more rolls leave five files, with one kept. -/
theorem boundExceeded : Opened (sample 0) ∧ ∃ t, Steps (step sampleSpec) (fun u a => undeferred u a) (sample 0) t ∧
    t.writer = .idle ∧ (onDisk t).card = 1 + doomedQueue + 2 := by
  obtain ⟨t, steps, there⟩ := @played sampleSpec (sample 0) (fun u a => undeferred u a) _ _ (fun t => (t.writer, (onDisk t).card)) (.idle, 5)
    (rolling 16 ++ rolling 16 ++ helping 1 ++ rolling 16 ++ rolling 16) (by decide +kernel)
  obtain ⟨idle, count⟩ := Prod.mk.inj there
  exact ⟨sampleOpened (by decide), t, steps, idle, count⟩

end Bound

end Xchannel.Retention
