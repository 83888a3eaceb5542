import Mathlib

/-! Programs that only look at a shared state `σ`, over a state `τ` of their own and errors `ε`
that keep it. One text has three readings: on a state that stands still, the same with system calls
that may be refused, and against a history in which others move the state between any two looks. -/
namespace Xchannel.Observation

/-- A `look` is one atomic load. A `syscall` is a request the system may refuse. -/
class Observe (σ τ ε : outParam Type) (m : Type → Type) extends Monad m where
  look {α : Type} : (σ → α) → m α
  self : m τ
  become : τ → m Unit
  fail {α : Type} : ε → m α
  attempt {α : Type} : m α → m (Except ε α)
  syscall : m Unit

variable {σ τ ε α β : Type}

def lift {m : Type → Type} [Observe σ τ ε m] : Except ε α → m α
  | .ok a => pure a
  | .error e => Observe.fail e

def refuseIf {m : Type → Type} [Observe σ τ ε m] (bad : Prop) [Decidable bad] (e : ε) : m Unit :=
  if bad then Observe.fail e else pure ()

/-- The shared state stands still. -/
def Static (σ τ ε α : Type) : Type := σ → τ → Except ε α × τ

namespace Static

def andThen (x : Static σ τ ε α) (f : α → Static σ τ ε β) : Static σ τ ε β := fun s t =>
  match x s t with
  | (.ok a, t') => f a s t'
  | (.error e, t') => (.error e, t')

instance : Monad (Static σ τ ε) where
  pure a := fun _ t => (.ok a, t)
  bind := andThen

instance : Observe σ τ ε (Static σ τ ε) where
  look f := fun s t => (.ok (f s), t)
  self := fun _ t => (.ok t, t)
  become t := fun _ _ => (.ok (), t)
  fail e := fun _ t => (.error e, t)
  attempt x := fun s t => (.ok (x s t).1, (x s t).2)
  syscall := fun _ t => (.ok (), t)

variable (s : σ) (t : τ)

theorem bindRun (x : Static σ τ ε α) (f : α → Static σ τ ε β) :
    (x >>= f) s t = match x s t with
      | (.ok a, t') => f a s t'
      | (.error e, t') => (.error e, t') := rfl

theorem bindOk {x : Static σ τ ε α} {f : α → Static σ τ ε β} {a : α} {t' : τ}
    (h : x s t = (.ok a, t')) : (x >>= f) s t = f a s t' := by rw [bindRun, h]

theorem bindError {x : Static σ τ ε α} {f : α → Static σ τ ε β} {e : ε} {t' : τ}
    (h : x s t = (.error e, t')) : (x >>= f) s t = (.error e, t') := by rw [bindRun, h]

@[simp] theorem pureRun (a : α) : (pure a : Static σ τ ε α) s t = (.ok a, t) := rfl

@[simp] theorem lookRun (g : σ → α) (f : α → Static σ τ ε β) :
    (Observe.look g >>= f) s t = f (g s) s t := rfl

@[simp] theorem selfRun (f : τ → Static σ τ ε β) : (Observe.self >>= f) s t = f t s t := rfl

@[simp] theorem becomeRun (t' : τ) (f : Unit → Static σ τ ε β) :
    (Observe.become t' >>= f) s t = f () s t' := rfl

@[simp] theorem syscallRun (f : Unit → Static σ τ ε β) : (Observe.syscall >>= f) s t = f () s t := rfl

@[simp] theorem failRun (e : ε) : (Observe.fail e : Static σ τ ε α) s t = (.error e, t) := rfl

@[simp] theorem failBindRun (e : ε) (f : α → Static σ τ ε β) :
    ((Observe.fail e : Static σ τ ε α) >>= f) s t = (.error e, t) := rfl

@[simp] theorem liftRun (r : Except ε α) : (lift r : Static σ τ ε α) s t = (r, t) := by
  cases r <;> rfl

theorem refuseRun {bad : Prop} [Decidable bad] {e : ε} (h : ¬ bad) (f : Unit → Static σ τ ε β) :
    ((refuseIf bad e : Static σ τ ε Unit) >>= f) s t = f () s t := by
  rw [refuseIf, if_neg h]
  rfl

/- A system call that is only sometimes made changes nothing here. -/
theorem maybeSyscall {c : Prop} [Decidable c] (f : Unit → Static σ τ ε β) :
    (if c then (Observe.syscall >>= f) else f () : Static σ τ ε β) s t = f () s t := by
  split <;> rfl

theorem liftOk (a : α) (f : α → Static σ τ ε β) :
    ((lift (.ok a) : Static σ τ ε α) >>= f) s t = f a s t := rfl

end Static

/-- It neither looks at its own state nor changes it, and it fails only with `P`. -/
def Blind (P : ε → Prop) (x : Static σ τ ε α) : Prop :=
  ∀ s t, (x s t).2 = t ∧ (∀ t', (x s t').1 = (x s t).1) ∧ ∀ e, (x s t).1 = .error e → P e

section Blindness
variable {P : ε → Prop}

theorem blindPure (a : α) : Blind P (pure a : Static σ τ ε α) := fun _ _ => ⟨rfl, fun _ => rfl, nofun⟩

theorem blindLook (f : σ → α) : Blind P (Observe.look f : Static σ τ ε α) := fun _ _ => ⟨rfl, fun _ => rfl, nofun⟩

theorem blindSyscall : Blind P (Observe.syscall : Static σ τ ε Unit) := fun _ _ => ⟨rfl, fun _ => rfl, nofun⟩

theorem blindFail {e : ε} (h : P e) : Blind P (Observe.fail e : Static σ τ ε α) := by
  refine fun _ _ => ⟨rfl, fun _ => rfl, fun e' same => ?_⟩
  cases same
  exact h

theorem blindLift {r : Except ε α} (h : ∀ e, r = .error e → P e) : Blind P (lift r : Static σ τ ε α) := by
  cases r with
  | ok a => exact blindPure a
  | error e => exact blindFail (h e rfl)

theorem blindRefuse {bad : Prop} [Decidable bad] {e : ε} (h : P e) :
    Blind P (refuseIf bad e : Static σ τ ε Unit) := by
  unfold refuseIf
  split
  · exact blindFail h
  · exact blindPure ()

theorem blindBind {x : Static σ τ ε α} {f : α → Static σ τ ε β} (first : Blind P x) (next : ∀ a, Blind P (f a)) :
    Blind P (x >>= f) := by
  intro s t
  obtain ⟨kept, same, errors⟩ := first s t
  have run (t' : τ) : (x >>= f) s t' = match (x s t').1 with
      | .ok a => f a s t'
      | .error e => (.error e, t') := by
    obtain ⟨kept', _, _⟩ := first s t'
    rw [Static.bindRun]
    generalize x s t' = out at kept'
    obtain ⟨r, u⟩ := out
    cases kept'
    cases r <;> rfl
  rw [run t]
  cases result : (x s t).1 with
  | ok a =>
    obtain ⟨kept', same', errors'⟩ := next a s t
    refine ⟨kept', fun t' => ?_, errors'⟩
    rw [run t', same t', result]
    exact same' t'
  | error e =>
    refine ⟨rfl, fun t' => ?_, fun e' same' => ?_⟩
    · rw [run t', same t', result]
    · cases same'
      exact errors _ result

end Blindness

/-- What holds of every value a program returns. -/
def Yields (Q : α → Prop) (x : Static σ τ ε α) : Prop := ∀ s t a t', x s t = (.ok a, t') → Q a

section Values
variable {Q : α → Prop}

theorem yieldsPure {a : α} (h : Q a) : Yields Q (pure a : Static σ τ ε α) := by
  rintro s t a' t' ⟨⟩
  exact h

theorem yieldsFail {e : ε} : Yields Q (Observe.fail e : Static σ τ ε α) := by
  rintro s t a t' ⟨⟩

theorem yieldsBind {x : Static σ τ ε β} {f : β → Static σ τ ε α} (next : ∀ b, Yields Q (f b)) : Yields Q (x >>= f) := by
  intro s t a t' run
  rw [Static.bindRun] at run
  rcases first : x s t with ⟨_ | b, t₁⟩
  · rw [first] at run
    cases run
  · rw [first] at run
    exact next b s t₁ a t' run

theorem yieldsLook (f : σ → α) : Yields (fun a => ∃ s, a = f s) (Observe.look f : Static σ τ ε α) := by
  rintro s t a t' ⟨⟩
  exact ⟨s, rfl⟩

theorem yieldsSeq {P : β → Prop} {x : Static σ τ ε β} {f : β → Static σ τ ε α} (first : Yields P x)
    (next : ∀ b, P b → Yields Q (f b)) : Yields Q (x >>= f) := by
  intro s t a t' run
  rw [Static.bindRun] at run
  rcases ran : x s t with ⟨_ | b, t₁⟩
  · rw [ran] at run
    cases run
  · rw [ran] at run
    exact next b (first s t b t₁ ran) s t₁ a t' run

theorem yieldsAttempt {x : Static σ τ ε α} (first : Yields Q x) :
    Yields (fun r => ∀ a, r = .ok a → Q a) (Observe.attempt x : Static σ τ ε (Except ε α)) := by
  rintro s t r t' ⟨⟩ a ok
  exact first s t a (x s t).2 (Prod.ext ok rfl)

/- Past a check, its condition does not hold. -/
theorem yieldsRefuse {bad : Prop} [Decidable bad] {e : ε} {f : Unit → Static σ τ ε α} (next : ¬ bad → Yields Q (f ())) :
    Yields Q ((refuseIf bad e : Static σ τ ε Unit) >>= f) := by
  intro s t a t' run
  by_cases h : bad
  · rw [refuseIf, if_pos h] at run
    cases run
  · rw [Static.refuseRun _ _ h] at run
    exact next h s t a t' run

end Values

/-- The shared state stands still, and the `n`-th system call is refused with the error given for it. -/
def Trial (σ τ ε α : Type) : Type := σ → (Nat → Option ε) → τ → Nat → Except ε α × τ × Nat

namespace Trial

def andThen (x : Trial σ τ ε α) (f : α → Trial σ τ ε β) : Trial σ τ ε β := fun s faults t n =>
  match x s faults t n with
  | (.ok a, t', n') => f a s faults t' n'
  | (.error e, t', n') => (.error e, t', n')

instance : Monad (Trial σ τ ε) where
  pure a := fun _ _ t n => (.ok a, t, n)
  bind := andThen

instance : LawfulMonad (Trial σ τ ε) := LawfulMonad.mk' _
  (fun x => by
    funext s faults t n
    show andThen x (fun a _ _ t n => (.ok (id a), t, n)) s faults t n = x s faults t n
    unfold andThen
    rcases x s faults t n with ⟨_ | _, _, _⟩ <;> rfl)
  (fun _ _ => rfl)
  (fun x f g => by
    funext s faults t n
    show andThen (andThen x f) g s faults t n = andThen x (fun a => andThen (f a) g) s faults t n
    unfold andThen
    rcases x s faults t n with ⟨_ | _, _, _⟩ <;> rfl)

instance : Observe σ τ ε (Trial σ τ ε) where
  look f := fun s _ t n => (.ok (f s), t, n)
  self := fun _ _ t n => (.ok t, t, n)
  become t := fun _ _ _ n => (.ok (), t, n)
  fail e := fun _ _ t n => (.error e, t, n)
  attempt x := fun s faults t n => (.ok (x s faults t n).1, (x s faults t n).2)
  syscall := fun _ faults t n => (match faults n with
    | none => .ok ()
    | some e => .error e, t, n + 1)

section Runs
variable (s : σ) (faults : Nat → Option ε) (t : τ) (n : Nat)

@[simp] theorem pureRun (a : α) : (pure a : Trial σ τ ε α) s faults t n = (.ok a, t, n) := rfl

@[simp] theorem lookRun (g : σ → α) (f : α → Trial σ τ ε β) :
    (Observe.look g >>= f) s faults t n = f (g s) s faults t n := rfl

@[simp] theorem selfRun (f : τ → Trial σ τ ε β) : (Observe.self >>= f) s faults t n = f t s faults t n := rfl

@[simp] theorem becomeRun (t' : τ) (f : Unit → Trial σ τ ε β) :
    (Observe.become t' >>= f) s faults t n = f () s faults t' n := rfl

theorem bindOkRun {s : σ} {faults : Nat → Option ε} {t t' : τ} {n n' : Nat} {x : Trial σ τ ε α}
    {f : α → Trial σ τ ε β} {a : α} (h : x s faults t n = (.ok a, t', n')) :
    (x >>= f) s faults t n = f a s faults t' n' := by
  show andThen x f s faults t n = _
  unfold andThen
  rw [h]

theorem liftOkRun (a : α) (f : α → Trial σ τ ε β) :
    ((lift (.ok a) : Trial σ τ ε α) >>= f) s faults t n = f a s faults t n := rfl

theorem refuseRun {bad : Prop} [Decidable bad] {e : ε} (h : ¬ bad) (f : Unit → Trial σ τ ε β) :
    ((refuseIf bad e : Trial σ τ ε Unit) >>= f) s faults t n = f () s faults t n := by
  rw [refuseIf, if_neg h]
  rfl

end Runs

/-- From `t` and the `n`-th call on, `Q` holds of the result, the state left and the calls made. -/
def Spec (s : σ) (faults : Nat → Option ε) (t : τ) (n : Nat) (x : Trial σ τ ε α)
    (Q : Except ε α → τ → Nat → Prop) : Prop :=
  n ≤ (x s faults t n).2.2 ∧ Q (x s faults t n).1 (x s faults t n).2.1 (x s faults t n).2.2

/-- One of the calls from the `n`-th to before the `n'`-th was refused with `e`. -/
def Refused (faults : Nat → Option ε) (n n' : Nat) (e : ε) : Prop := ∃ k, n ≤ k ∧ k < n' ∧ faults k = some e

theorem Refused.widen {faults : Nat → Option ε} {n m m' n' : Nat} {e : ε} (h : Refused faults m m' e) (lo : n ≤ m)
    (hi : m' ≤ n') : Refused faults n n' e := by
  obtain ⟨k, low, high, refused⟩ := h
  exact ⟨k, by omega, by omega, refused⟩

section Rules
variable {s : σ} {faults : Nat → Option ε} {t : τ} {n : Nat} {Q : Except ε β → τ → Nat → Prop}

theorem specRet {b : β} (post : Q (.ok b) t n) : Spec s faults t n (pure b : Trial σ τ ε β) Q :=
  ⟨Nat.le_refl _, post⟩

theorem specFail {e : ε} (post : Q (.error e) t n) : Spec s faults t n (Observe.fail e : Trial σ τ ε β) Q :=
  ⟨Nat.le_refl _, post⟩

theorem specMono {x : Trial σ τ ε β} {P : Except ε β → τ → Nat → Prop} (first : Spec s faults t n x P)
    (weaker : ∀ r t' n', n ≤ n' → P r t' n' → Q r t' n') : Spec s faults t n x Q :=
  ⟨first.1, weaker _ _ _ first.1 first.2⟩

theorem specSeq {x : Trial σ τ ε α} {f : α → Trial σ τ ε β} {P : Except ε α → τ → Nat → Prop}
    (first : Spec s faults t n x P) (next : ∀ a t' n', n ≤ n' → P (.ok a) t' n' → Spec s faults t' n' (f a) Q)
    (failed : ∀ e t' n', n ≤ n' → P (.error e) t' n' → Q (.error e) t' n') :
    Spec s faults t n (x >>= f) Q := by
  obtain ⟨later, post⟩ := first
  simp only [Spec, Bind.bind, andThen]
  generalize x s faults t n = out at later post
  obtain ⟨r, t', n'⟩ := out
  cases r with
  | error e => exact ⟨later, failed e t' n' later post⟩
  | ok a =>
    obtain ⟨more, last⟩ := next a t' n' later post
    exact ⟨Nat.le_trans later more, last⟩

theorem specLook {g : σ → α} {f : α → Trial σ τ ε β} (next : Spec s faults t n (f (g s)) Q) :
    Spec s faults t n (Observe.look g >>= f) Q := next

theorem specSelf {f : τ → Trial σ τ ε β} (next : Spec s faults t n (f t) Q) :
    Spec s faults t n (Observe.self >>= f) Q := next

theorem specBecome {t' : τ} {f : Unit → Trial σ τ ε β} (next : Spec s faults t' n (f ()) Q) :
    Spec s faults t n (Observe.become t' >>= f) Q := next

theorem specLiftOk {a : α} {f : α → Trial σ τ ε β} (next : Spec s faults t n (f a) Q) :
    Spec s faults t n ((lift (.ok a) : Trial σ τ ε α) >>= f) Q := next

theorem specRefuse {bad : Prop} [Decidable bad] {e : ε} {f : Unit → Trial σ τ ε β} (fine : ¬ bad)
    (next : Spec s faults t n (f ()) Q) : Spec s faults t n ((refuseIf bad e : Trial σ τ ε Unit) >>= f) Q := by
  rw [refuseIf, if_neg fine]
  exact next

theorem specSyscall {f : Unit → Trial σ τ ε β} (next : Spec s faults t (n + 1) (f ()) Q)
    (failed : ∀ e, faults n = some e → Q (.error e) t (n + 1)) :
    Spec s faults t n (Observe.syscall >>= f) Q := by
  cases refused : faults n with
  | none =>
    have run : (Observe.syscall >>= f : Trial σ τ ε β) s faults t n = f () s faults t (n + 1) := by
      simp only [Bind.bind, andThen, Observe.syscall, refused]
    unfold Spec
    rw [run]
    exact ⟨by have := next.1; omega, next.2⟩
  | some e =>
    have run : (Observe.syscall >>= f : Trial σ τ ε β) s faults t n = (.error e, t, n + 1) := by
      simp only [Bind.bind, andThen, Observe.syscall, refused]
    unfold Spec
    rw [run]
    exact ⟨Nat.le_succ n, failed e refused⟩

/- A first part that makes no call. -/
theorem specRun {x : Trial σ τ ε α} {f : α → Trial σ τ ε β} {a : α} {u : τ}
    (run : x s faults t n = (.ok a, u, n)) (next : Spec s faults u n (f a) Q) : Spec s faults t n (x >>= f) Q := by
  have same : (x >>= f) s faults t n = f a s faults u n := by
    show andThen x f s faults t n = _
    unfold andThen
    rw [run]
  unfold Spec at next ⊢
  rw [same]
  exact next

theorem specAttempt {x : Trial σ τ ε α} {f : Except ε α → Trial σ τ ε β} {P : Except ε α → τ → Nat → Prop}
    (first : Spec s faults t n x P) (next : ∀ r t' n', n ≤ n' → P r t' n' → Spec s faults t' n' (f r) Q) :
    Spec s faults t n (Observe.attempt x >>= f) Q := by
  obtain ⟨later, post⟩ := first
  obtain ⟨more, last⟩ := next _ _ _ later post
  exact ⟨Nat.le_trans later more, last⟩

end Rules
end Trial

/-- A program that only observes: in the two readings it returns the same and keeps its own state,
unless one of its calls is refused. -/
def Agrees (x : Trial σ τ ε α) (y : Static σ τ ε α) : Prop := ∀ s faults t n,
  Trial.Spec s faults t n x fun r t' n' => t' = t ∧ (y s t).2 = t ∧
    (r = (y s t).1 ∨ ∃ e, r = .error e ∧ Trial.Refused faults n n' e)

section Agreement
variable {x : Trial σ τ ε α} {y : Static σ τ ε α} {f : α → Trial σ τ ε β} {g : α → Static σ τ ε β}

theorem agreesPure (a : α) : Agrees (pure a : Trial σ τ ε α) (pure a) :=
  fun _ _ _ _ => Trial.specRet ⟨rfl, rfl, .inl rfl⟩

theorem agreesLook (p : σ → α) : Agrees (Observe.look p : Trial σ τ ε α) (Observe.look p) :=
  fun _ _ _ _ => ⟨Nat.le_refl _, rfl, rfl, .inl rfl⟩

theorem agreesFail (e : ε) : Agrees (Observe.fail e : Trial σ τ ε α) (Observe.fail e) :=
  fun _ _ _ _ => ⟨Nat.le_refl _, rfl, rfl, .inl rfl⟩

theorem agreesLift (r : Except ε α) : Agrees (lift r : Trial σ τ ε α) (lift r) := by
  cases r with
  | ok a => exact agreesPure a
  | error e => exact agreesFail e

theorem agreesRefuse (bad : Prop) [Decidable bad] (e : ε) :
    Agrees (refuseIf bad e : Trial σ τ ε Unit) (refuseIf bad e) := by
  unfold refuseIf
  split
  · exact agreesFail e
  · exact agreesPure ()

theorem agreesSyscall : Agrees (Observe.syscall : Trial σ τ ε Unit) Observe.syscall := by
  intro s faults t n
  refine ⟨Nat.le_succ n, rfl, rfl, ?_⟩
  cases refused : faults n with
  | none =>
    left
    show (match faults n with
      | none => Except.ok ()
      | some e => Except.error e) = _
    rw [refused]
    rfl
  | some e =>
    refine .inr ⟨e, ?_, n, Nat.le_refl _, Nat.lt_succ_self _, refused⟩
    show (match faults n with
      | none => Except.ok ()
      | some e => Except.error e) = _
    rw [refused]

/- The part about the still state alone. -/
theorem Agrees.keeps (h : Agrees x y) (s : σ) (t : τ) : (y s t).2 = t := (h s (fun _ => none) t 0).2.2.1

theorem agreesBind (first : Agrees x y) (next : ∀ a, Agrees (f a) (g a)) : Agrees (x >>= f) (y >>= g) := by
  intro s faults t n
  refine Trial.specSeq (first s faults t n) ?_ ?_
  · rintro a t' n' later ⟨rfl, kept, same | ⟨e, bad, _⟩⟩
    · have run : (y >>= g) s t' = g a s t' := by
        rw [Static.bindRun]
        generalize y s t' = out at kept same
        obtain ⟨r, t⟩ := out
        cases same
        cases kept
        rfl
      rw [run]
      refine Trial.specMono (next a s faults t' n') ?_
      rintro r t'' n'' more ⟨rfl, kept', result | ⟨e, bad, refused⟩⟩
      · exact ⟨rfl, kept', .inl result⟩
      · exact ⟨rfl, kept', .inr ⟨e, bad, refused.widen later (Nat.le_refl _)⟩⟩
    · cases bad
  · rintro e t' n' later ⟨rfl, kept, same | ⟨e, bad, refused⟩⟩
    · have run : (y >>= g) s t' = (.error e, t') := by
        rw [Static.bindRun]
        generalize y s t' = out at kept same
        obtain ⟨r, t⟩ := out
        cases same
        cases kept
        rfl
      rw [run]
      exact ⟨rfl, rfl, .inl rfl⟩
    · cases bad
      refine ⟨rfl, ?_, .inr ⟨e, rfl, refused⟩⟩
      rw [Static.bindRun]
      generalize y s t' = out at kept
      obtain ⟨r, t⟩ := out
      have : t = t' := kept
      subst this
      cases r with
      | error e => rfl
      | ok a => exact (next a).keeps s t

end Agreement

/-- The `n`-th look sees the `n`-th state of a history. -/
def Timed (σ τ ε α : Type) : Type := (Nat → σ) → τ → Nat → Except ε α × τ × Nat

namespace Timed

def andThen (x : Timed σ τ ε α) (f : α → Timed σ τ ε β) : Timed σ τ ε β := fun h t n =>
  match x h t n with
  | (.ok a, t', n') => f a h t' n'
  | (.error e, t', n') => (.error e, t', n')

instance : Monad (Timed σ τ ε) where
  pure a := fun _ t n => (.ok a, t, n)
  bind := andThen

instance : LawfulMonad (Timed σ τ ε) := LawfulMonad.mk' _
  (fun x => by
    funext h t n
    show andThen x (fun a _ t n => (.ok (id a), t, n)) h t n = x h t n
    unfold andThen
    rcases x h t n with ⟨_ | _, _, _⟩ <;> rfl)
  (fun _ _ => rfl)
  (fun x f g => by
    funext h t n
    show andThen (andThen x f) g h t n = andThen x (fun a => andThen (f a) g) h t n
    unfold andThen
    rcases x h t n with ⟨_ | _, _, _⟩ <;> rfl)

instance : Observe σ τ ε (Timed σ τ ε) where
  look f := fun h t n => (.ok (f (h n)), t, n + 1)
  self := fun _ t n => (.ok t, t, n)
  become t := fun _ _ n => (.ok (), t, n)
  fail e := fun _ t n => (.error e, t, n)
  attempt x := fun h t n => (.ok (x h t n).1, (x h t n).2)
  syscall := fun _ t n => (.ok (), t, n)

/-- From `t` at time `n`, time does not run back and `Q` holds of the result, the state left
and the time reached. -/
def Spec (h : Nat → σ) (t : τ) (n : Nat) (x : Timed σ τ ε α) (Q : Except ε α → τ → Nat → Prop) : Prop :=
  n ≤ (x h t n).2.2 ∧ Q (x h t n).1 (x h t n).2.1 (x h t n).2.2

variable {h : Nat → σ} {t : τ} {n : Nat} {Q : Except ε β → τ → Nat → Prop}

theorem specRet {b : β} (post : Q (.ok b) t n) : Spec h t n (pure b : Timed σ τ ε β) Q :=
  ⟨Nat.le_refl _, post⟩

theorem specFail {e : ε} (post : Q (.error e) t n) : Spec h t n (Observe.fail e : Timed σ τ ε β) Q :=
  ⟨Nat.le_refl _, post⟩

theorem specMono {x : Timed σ τ ε β} {P : Except ε β → τ → Nat → Prop} (first : Spec h t n x P)
    (weaker : ∀ r t' n', n ≤ n' → P r t' n' → Q r t' n') : Spec h t n x Q :=
  ⟨first.1, weaker _ _ _ first.1 first.2⟩

theorem specSeq {x : Timed σ τ ε α} {f : α → Timed σ τ ε β} {P : Except ε α → τ → Nat → Prop}
    (first : Spec h t n x P) (next : ∀ a t' n', n ≤ n' → P (.ok a) t' n' → Spec h t' n' (f a) Q)
    (failed : ∀ e t' n', n ≤ n' → P (.error e) t' n' → Q (.error e) t' n') :
    Spec h t n (x >>= f) Q := by
  obtain ⟨later, post⟩ := first
  simp only [Spec, Bind.bind, andThen]
  generalize x h t n = out at later post
  obtain ⟨r, t', n'⟩ := out
  cases r with
  | error e => exact ⟨later, failed e t' n' later post⟩
  | ok a =>
    obtain ⟨more, last⟩ := next a t' n' later post
    exact ⟨Nat.le_trans later more, last⟩

theorem specLook {g : σ → α} {f : α → Timed σ τ ε β} (next : Spec h t (n + 1) (f (g (h n))) Q) :
    Spec h t n (Observe.look g >>= f) Q :=
  ⟨Nat.le_trans (Nat.le_succ n) next.1, next.2⟩

theorem specSyscall {f : Unit → Timed σ τ ε β} (next : Spec h t n (f ()) Q) :
    Spec h t n (Observe.syscall >>= f) Q := next

theorem specRefuse {bad : Prop} [Decidable bad] {e : ε} {f : Unit → Timed σ τ ε β}
    (refused : bad → Q (.error e) t n) (next : ¬ bad → Spec h t n (f ()) Q) :
    Spec h t n ((refuseIf bad e : Timed σ τ ε Unit) >>= f) Q := by
  by_cases b : bad
  · simp only [refuseIf, if_pos b]
    exact ⟨Nat.le_refl _, refused b⟩
  · simp only [refuseIf, if_neg b]
    exact next b

theorem specLift {r : Except ε α} {f : α → Timed σ τ ε β} (next : ∀ a, r = .ok a → Spec h t n (f a) Q)
    (failed : ∀ e, r = .error e → Q (.error e) t n) : Spec h t n ((lift r : Timed σ τ ε α) >>= f) Q := by
  cases r with
  | ok a => exact next a rfl
  | error e => exact ⟨Nat.le_refl _, failed e rfl⟩

/-- Against every history it keeps its own state, and it fails only with `P`. -/
def Quiet (P : ε → Prop) (x : Timed σ τ ε α) : Prop :=
  ∀ h t n, Spec h t n x fun r t' _ => t' = t ∧ ∀ e, r = .error e → P e

section Quietness
variable {P : ε → Prop}

theorem quietPure (a : α) : Quiet P (pure a : Timed σ τ ε α) := by
  refine fun _ _ _ => specRet ⟨rfl, ?_⟩
  rintro e ⟨⟩

theorem quietFail {e : ε} (fine : P e) : Quiet P (Observe.fail e : Timed σ τ ε α) := by
  refine fun _ _ _ => specFail ⟨rfl, ?_⟩
  rintro _ ⟨⟩
  exact fine

theorem quietBind {x : Timed σ τ ε α} {f : α → Timed σ τ ε β} (first : Quiet P x) (next : ∀ a, Quiet P (f a)) :
    Quiet P (x >>= f) := by
  intro h t n
  refine specSeq (first h t n) ?_ ?_
  · rintro a t' n' _ ⟨rfl, _⟩
    exact next a h t' n'
  · rintro e t' n' _ ⟨rfl, failed⟩
    exact ⟨rfl, fun _ same => failed _ (by cases same; rfl)⟩

theorem quietLook (f : σ → α) : Quiet P (Observe.look f : Timed σ τ ε α) := by
  refine fun _ _ n => ⟨Nat.le_succ n, rfl, ?_⟩
  rintro e ⟨⟩

theorem quietSyscall : Quiet P (Observe.syscall : Timed σ τ ε Unit) := quietPure ()

theorem quietLift {r : Except ε α} (fine : ∀ e, r = .error e → P e) : Quiet P (lift r : Timed σ τ ε α) := by
  cases r with
  | ok a => exact quietPure a
  | error e => exact quietFail (fine e rfl)

theorem quietRefuse {bad : Prop} [Decidable bad] {e : ε} (fine : P e) :
    Quiet P (refuseIf bad e : Timed σ τ ε Unit) := by
  unfold refuseIf
  split
  · exact quietFail fine
  · exact quietPure ()

theorem specQuiet {h : Nat → σ} {t : τ} {n : Nat} {Q : Except ε β → τ → Nat → Prop} {x : Timed σ τ ε α}
    {f : α → Timed σ τ ε β} (first : Quiet P x) (next : ∀ a n', n ≤ n' → Spec h t n' (f a) Q)
    (failed : ∀ e n', P e → Q (.error e) t n') : Spec h t n (x >>= f) Q := by
  refine specSeq (first h t n) ?_ ?_
  · rintro a t' n' later ⟨rfl, _⟩
    exact next a n' later
  · rintro e t' n' _ ⟨rfl, fine⟩
    exact failed e n' (fine e rfl)

end Quietness
end Timed
end Xchannel.Observation
