import Mathlib

/-! Parties that take atomic steps over one state, in any order: what every step keeps holds of every state
that a run reaches. -/
namespace Xchannel.Interleaving

variable {σ l : Type} {step : σ → l → Option σ} {ok ok' : σ → l → Prop} {s t u : σ}

/-- `s` leads to the state by steps that meet `ok`. -/
inductive Steps (step : σ → l → Option σ) (ok : σ → l → Prop) : σ → σ → Prop where
  | here (s : σ) : Steps step ok s s
  | next {s t u a} (before : Steps step ok s t) (meets : ok t a) (taken : step t a = some u) : Steps step ok s u

/- The one induction over interleavings. -/
theorem Steps.keeps {I : σ → Prop} (keep : ∀ s a t, I s → ok s a → step s a = some t → I t) (steps : Steps step ok s t)
    (start : I s) : I t := by
  induction steps with
  | here => exact start
  | next _ meets taken ih => exact keep _ _ _ ih meets taken

theorem Steps.mono (weaker : ∀ s a, ok s a → ok' s a) (steps : Steps step ok s t) : Steps step ok' s t := by
  induction steps with
  | here => exact .here s
  | next _ meets taken ih => exact .next ih (weaker _ _ meets) taken

theorem Steps.trans (one : Steps step ok s t) (two : Steps step ok t u) : Steps step ok s u := by
  induction two with
  | here => exact one
  | next _ meets taken ih => exact .next ih meets taken

/-- Steps that meet `ok`, `n` of them of one kind. -/
inductive Takes (step : σ → l → Option σ) (ok kind : σ → l → Prop) : Nat → σ → σ → Prop where
  | here (s : σ) : Takes step ok kind 0 s s
  | other {n s t u a} (before : Takes step ok kind n s t) (meets : ok t a) (not : ¬ kind t a) (taken : step t a = some u) :
      Takes step ok kind n s u
  | one {n s t u a} (before : Takes step ok kind n s t) (meets : ok t a) (chosen : kind t a) (taken : step t a = some u) :
      Takes step ok kind (n + 1) s u

theorem Takes.keeps {kind : σ → l → Prop} {I : Nat → σ → Prop} {n : Nat}
    (rest : ∀ n s a t, I n s → ok s a → ¬ kind s a → step s a = some t → I n t)
    (chosen : ∀ n s a t, I n s → ok s a → kind s a → step s a = some t → I (n + 1) t)
    (takes : Takes step ok kind n s t) (start : I 0 s) : I n t := by
  induction takes with
  | here => exact start
  | other _ meets not taken ih => exact rest _ _ _ _ (ih start) meets not taken
  | one _ meets this taken ih => exact chosen _ _ _ _ (ih start) meets this taken

/- A measure that falls at one kind of step and rises at none bounds their number. -/
theorem Takes.bounded {kind : σ → l → Prop} {m : σ → Nat} {n : Nat}
    (falls : ∀ s a t, ok s a → kind s a → step s a = some t → m t < m s)
    (rises : ∀ s a t, ok s a → ¬ kind s a → step s a = some t → m t ≤ m s)
    (takes : Takes step ok kind n s t) : n + m t ≤ m s := by
  refine takes.keeps (I := fun n t => n + m t ≤ m s) ?_ ?_ (Nat.zero_add _).le
  · intro n u a v so meets not taken
    exact (Nat.add_le_add_left (rises u a v meets not taken) n).trans so
  · intro n u a v so meets chosen taken
    have := falls u a v meets chosen taken
    omega

/- A schedule, played; it stops where a step is not enabled or does not meet `ok`. -/
def guarded (step : σ → l → Option σ) (ok : σ → l → Prop) [∀ s a, Decidable (ok s a)] (s : σ) (a : l) : Option σ :=
  if ok s a then step s a else none

def play (step : σ → l → Option σ) (s : σ) (schedule : List l) : Option σ := schedule.foldlM step s

theorem playSteps [∀ s a, Decidable (ok s a)] {schedule : List l} (played : play (guarded step ok) s schedule = some t) :
    Steps step ok s t := by
  induction schedule generalizing s with
  | nil =>
    obtain rfl := Option.some.inj played
    exact .here s
  | cons a schedule ih =>
    obtain ⟨next, taken, rest⟩ := Option.bind_eq_some_iff.mp played
    unfold guarded at taken
    split at taken
    next meets => exact (Steps.next (.here s) meets taken).trans (ih rest)
    next => cases taken

/- Steps of one kind are counted while a schedule is played. -/
def tally (step : σ → l → Option σ) (kind : σ → l → Bool) (e : Nat × σ) (a : l) : Option (Nat × σ) :=
  (step e.2 a).map fun t => (if kind e.2 a then e.1 + 1 else e.1, t)

theorem playTakes {kind : σ → l → Bool} {schedule : List l} {n m : Nat} (takes : Takes step (fun _ _ => True) (fun s a => kind s a) n u s)
    (played : play (tally step kind) (n, s) schedule = some (m, t)) : Takes step (fun _ _ => True) (fun s a => kind s a) m u t := by
  induction schedule generalizing s n with
  | nil =>
    obtain ⟨rfl, rfl⟩ := Prod.mk.inj (Option.some.inj played)
    exact takes
  | cons a schedule ih =>
    obtain ⟨next, tallied, rest⟩ := Option.bind_eq_some_iff.mp played
    obtain ⟨v, taken, rfl⟩ := Option.map_eq_some_iff.mp tallied
    refine ih ?_ rest
    dsimp only
    split
    next chosen => exact .one takes trivial chosen taken
    next not => exact .other takes trivial not taken

end Xchannel.Interleaving
