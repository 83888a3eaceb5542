import Mathlib

/-! Programs that change a persistent state by single operations and can be killed between
any two of them. A run is its list of operations, so a kill keeps a prefix of that list; the
volatile state is lost with the process. Errors keep both states, as a `?` does. -/
namespace Xchannel.CrashProgram

variable {σ op τ ε α β : Type}

def run (step : σ → op → σ) (s : σ) (ops : List op) : σ := ops.foldl step s

@[simp] theorem runNil (step : σ → op → σ) (s : σ) : run step s [] = s := rfl

@[simp] theorem runCons (step : σ → op → σ) (s : σ) (o : op) (ops : List op) :
    run step s (o :: ops) = run step (step s o) ops := rfl

theorem runAppend (step : σ → op → σ) (s : σ) (first rest : List op) :
    run step s (first ++ rest) = run step (run step s first) rest := List.foldl_append

/-- Every operation meets `G` in the state it is applied to. -/
def Guar (step : σ → op → σ) (G : σ → op → Prop) : σ → List op → Prop
  | _, [] => True
  | s, o :: ops => G s o ∧ Guar step G (step s o) ops

theorem guarAppend {step : σ → op → σ} {G : σ → op → Prop} {s : σ} {first rest : List op} :
    Guar step G s (first ++ rest) ↔ Guar step G s first ∧ Guar step G (run step s first) rest := by
  induction first generalizing s with
  | nil => simp [Guar]
  | cons o ops ih => simp [Guar, ih, and_assoc]

theorem guarTake {step : σ → op → σ} {G : σ → op → Prop} {s : σ} {ops : List op} (n : Nat)
    (h : Guar step G s ops) : Guar step G s (ops.take n) := by
  rw [← List.take_append_drop n ops] at h
  exact (guarAppend.mp h).1

theorem guarAt {step : σ → op → σ} {G : σ → op → Prop} {s : σ} {first : List op} {o : op}
    {rest : List op} (h : Guar step G s (first ++ o :: rest)) : G (run step s first) o :=
  (guarAppend.mp h).2.1

theorem guarMono {step : σ → op → σ} {G H : σ → op → Prop} {s : σ} {ops : List op}
    (weaker : ∀ s o, G s o → H s o) (h : Guar step G s ops) : Guar step H s ops := by
  induction ops generalizing s with
  | nil => trivial
  | cons o ops ih => exact ⟨weaker s o h.1, ih h.2⟩

theorem guarAnd {step : σ → op → σ} {G H : σ → op → Prop} {s : σ} {ops : List op}
    (hG : Guar step G s ops) (hH : Guar step H s ops) : Guar step (fun s o => G s o ∧ H s o) s ops := by
  induction ops generalizing s with
  | nil => trivial
  | cons o ops ih => exact ⟨⟨hG.1, hH.1⟩, ih hG.2 hH.2⟩

/- The one induction over runs: what one operation keeps, every run keeps. -/
theorem guarKeeps {step : σ → op → σ} {G : σ → op → Prop} {I : σ → Prop}
    (keep : ∀ s o, I s → G s o → I (step s o)) {s : σ} {ops : List op} (h : Guar step G s ops)
    (start : I s) : I (run step s ops) := by
  induction ops generalizing s with
  | nil => exact start
  | cons o ops ih => exact ih h.2 (keep s o start h.1)

theorem guarEach {step : σ → op → σ} {G : σ → op → Prop} {I : σ → Prop} (keep : ∀ s o, I s → G s o → I (step s o))
    {s : σ} {ops : List op} (meets : ∀ s, I s → ∀ o ∈ ops, G s o) (start : I s) : Guar step G s ops := by
  induction ops generalizing s with
  | nil => trivial
  | cons o ops ih =>
    have one := meets s start o List.mem_cons_self
    exact ⟨one, ih (fun s inv o mem => meets s inv o (List.mem_cons_of_mem _ mem)) (keep s o start one)⟩

/-- A program over persistent state `σ`, volatile state `τ` and errors `ε`: from the states it
starts in, the operations it performs, its result and the volatile state it leaves. -/
def Act (_step : σ → op → σ) (τ ε α : Type) : Type := τ → σ → List op × Except ε α × τ

namespace Act
variable {step : σ → op → σ}

def ret (a : α) : Act step τ ε α := fun t _ => ([], .ok a, t)

def andThen (x : Act step τ ε α) (f : α → Act step τ ε β) : Act step τ ε β := fun t s =>
  match x t s with
  | (ops, .error e, t') => (ops, .error e, t')
  | (ops, .ok a, t') =>
    match f a t' (run step s ops) with
    | (more, r, t'') => (ops ++ more, r, t'')

instance : Monad (Act step τ ε) where
  pure := ret
  bind := andThen

def fail (e : ε) : Act step τ ε α := fun t _ => ([], .error e, t)
def emit (ops : List op) : Act step τ ε Unit := fun t _ => (ops, .ok (), t)
def look (f : σ → α) : Act step τ ε α := fun t s => ([], .ok (f s), t)
def refuseIf (bad : Prop) [Decidable bad] (e : ε) : Act step τ ε Unit := if bad then fail e else ret ()
def lift (r : Except ε α) : Act step τ ε α := fun t _ => ([], r, t)
def self : Act step τ ε τ := fun t _ => ([], .ok t, t)
def become (t : τ) : Act step τ ε Unit := fun _ _ => ([], .ok (), t)

/- The outcome as a value: the caller goes on with both states as they were left. -/
def attempt (x : Act step τ ε α) : Act step τ ε (Except ε α) := fun t s =>
  match x t s with
  | (ops, r, t') => (ops, .ok r, t')

/- A program over a part of the volatile state. -/
def zoom {υ : Type} (get : τ → υ) (set : υ → τ → τ) (x : Act step υ ε α) : Act step τ ε α := fun t s =>
  match x (get t) s with
  | (ops, r, u) => (ops, r, set u t)

def ops (x : Act step τ ε α) (t : τ) (s : σ) : List op := (x t s).1
def result (x : Act step τ ε α) (t : τ) (s : σ) : Except ε α := (x t s).2.1
def volatile (x : Act step τ ε α) (t : τ) (s : σ) : τ := (x t s).2.2
def disk (x : Act step τ ε α) (t : τ) (s : σ) : σ := run step s (x.ops t s)

/- A first part that performs nothing, and its continuation. -/
theorem idleThen {x : Act step τ ε α} {f : α → Act step τ ε β} {t u : τ} {s : σ} {a : α}
    (idle : x t s = ([], .ok a, u)) : (x >>= f) t s = f a u s := by
  show andThen x f t s = f a u s
  unfold andThen
  rw [idle]
  rfl

theorem lookThen (g : σ → α) (f : α → Act step τ ε β) (t : τ) (s : σ) :
    (look g >>= f) t s = f (g s) t s := rfl

theorem selfThen (f : τ → Act step τ ε β) (t : τ) (s : σ) : (self >>= f) t s = f t t s := rfl

theorem emitThen {ops more : List op} {f : Unit → Act step τ ε β} {t t' : τ} {s : σ} {r : Except ε β}
    (rest : f () t (run step s ops) = (more, r, t')) : (emit ops >>= f) t s = (ops ++ more, r, t') := by
  show andThen (emit ops) f t s = _
  simp only [andThen, emit, rest]

theorem liftThen (r : Except ε α) (f : α → Act step τ ε β) (t : τ) (s : σ) :
    (lift r >>= f) t s = match r with
      | .ok a => f a t s
      | .error e => ([], .error e, t) := by
  cases r <;> rfl

theorem refuseThen (bad : Prop) [Decidable bad] (e : ε) (f : Unit → Act step τ ε β) (t : τ) (s : σ) :
    (refuseIf bad e >>= f) t s = if bad then ([], .error e, t) else f () t s := by
  unfold refuseIf
  split <;> rfl

theorem refuseIdle {bad : Prop} [Decidable bad] {e : ε} {t : τ} {s : σ} (h : ¬ bad) :
    (refuseIf bad e : Act step τ ε Unit) t s = ([], .ok (), t) := by
  rw [refuseIf, if_neg h]
  rfl

end Act

/-- From `t` and `s`, every operation of `x` meets `G`, and `Q` holds of its result and of
both states it leaves. -/
def Spec {step : σ → op → σ} (G : σ → op → Prop) (t : τ) (s : σ) (x : Act step τ ε α)
    (Q : Except ε α → τ → σ → Prop) : Prop :=
  Guar step G s (x.ops t s) ∧ Q (x.result t s) (x.volatile t s) (x.disk t s)

section Rules
variable {step : σ → op → σ} {G : σ → op → Prop} {t : τ} {s : σ} {Q : Except ε β → τ → σ → Prop}

theorem specRet {b : β} (h : Q (.ok b) t s) : Spec G t s (pure b : Act step τ ε β) Q := ⟨trivial, h⟩

theorem specFail {e : ε} (h : Q (.error e) t s) : Spec G t s (Act.fail e : Act step τ ε β) Q :=
  ⟨trivial, h⟩

theorem specBind {x : Act step τ ε α} {f : α → Act step τ ε β}
    (h : Spec G t s x fun r t' s' => match r with
      | .ok a => Spec G t' s' (f a) Q
      | .error e => Q (.error e) t' s') : Spec G t s (x >>= f) Q := by
  obtain ⟨guar, post⟩ := h
  simp only [Spec, Bind.bind, Act.andThen, Act.ops, Act.result, Act.volatile, Act.disk] at guar post ⊢
  generalize x t s = out at guar post
  obtain ⟨ops, r, t'⟩ := out
  cases r with
  | error e => exact ⟨guar, post⟩
  | ok a =>
    simp only at guar post ⊢
    exact ⟨guarAppend.mpr ⟨guar, post.1⟩, by rw [runAppend]; exact post.2⟩

theorem specMono {x : Act step τ ε β} {P : Except ε β → τ → σ → Prop} (h : Spec G t s x P)
    (weaker : ∀ r t' s', P r t' s' → Q r t' s') : Spec G t s x Q :=
  ⟨h.1, weaker _ _ _ h.2⟩

/- Sequencing through a postcondition of the first part, the usual way a caller uses a callee's
specification without unfolding it. -/
theorem specSeq {x : Act step τ ε α} {f : α → Act step τ ε β} {P : Except ε α → τ → σ → Prop}
    (first : Spec G t s x P) (next : ∀ a t' s', P (.ok a) t' s' → Spec G t' s' (f a) Q)
    (failed : ∀ e t' s', P (.error e) t' s' → Q (.error e) t' s') : Spec G t s (x >>= f) Q := by
  apply specBind
  apply specMono first
  intro r t' s' post
  cases r with
  | ok a => exact next a t' s' post
  | error e => exact failed e t' s' post

theorem specEmit {ops : List op} {f : Unit → Act step τ ε β} (guar : Guar step G s ops)
    (next : Spec G t (run step s ops) (f ()) Q) : Spec G t s (Act.emit ops >>= f) Q :=
  specBind ⟨guar, next⟩

theorem specEmitTo {ops : List op} {f : Unit → Act step τ ε β} {v : σ} (guar : Guar step G s ops)
    (ran : run step s ops = v) (next : Spec G t v (f ()) Q) : Spec G t s (Act.emit ops >>= f) Q :=
  specEmit guar (ran ▸ next)

theorem specLook {g : σ → α} {f : α → Act step τ ε β} (next : Spec G t s (f (g s)) Q) :
    Spec G t s (Act.look g >>= f) Q :=
  specBind ⟨trivial, next⟩

theorem specLift {r : Except ε α} {f : α → Act step τ ε β} (next : ∀ a, r = .ok a → Spec G t s (f a) Q)
    (failed : ∀ e, r = .error e → Q (.error e) t s) : Spec G t s (Act.lift r >>= f) Q := by
  apply specBind
  refine ⟨trivial, ?_⟩
  cases r with
  | ok a => exact next a rfl
  | error e => exact failed e rfl

theorem specRefuse {bad : Prop} [Decidable bad] {e : ε} {f : Unit → Act step τ ε β}
    (refused : bad → Q (.error e) t s) (next : ¬ bad → Spec G t s (f ()) Q) :
    Spec G t s (Act.refuseIf bad e >>= f) Q := by
  apply specBind
  by_cases h : bad
  · simp only [Act.refuseIf, if_pos h]
    exact ⟨trivial, refused h⟩
  · simp only [Act.refuseIf, if_neg h]
    exact ⟨trivial, next h⟩

/- A first part that does nothing in this state. -/
theorem specSkip {x : Act step τ ε α} {f : α → Act step τ ε β} {a : α} {u : τ}
    (idle : x t s = ([], .ok a, u)) (next : Spec G u s (f a) Q) : Spec G t s (x >>= f) Q := by
  apply specBind
  simp only [Spec, Act.ops, Act.result, Act.volatile, Act.disk, idle]
  exact ⟨trivial, next⟩

/- The same for a part that only runs under a condition. -/
theorem specSkipIf {c : Prop} [Decidable c] {x : Act step τ ε Unit} {f : Unit → Act step τ ε β}
    (idle : c → x t s = ([], .ok (), t)) (next : Spec G t s (f ()) Q) :
    Spec G t s (if c then x >>= f else f ()) Q := by
  split
  · rename_i yes
    exact specSkip (idle yes) next
  · exact next

theorem specIdle {x : Act step τ ε β} {r : Except ε β} {t' : τ} (idle : x t s = ([], r, t'))
    (post : Q r t' s) : Spec G t s x Q := by
  simp only [Spec, Act.ops, Act.result, Act.volatile, Act.disk, idle]
  exact ⟨trivial, post⟩

theorem specSelf {f : τ → Act step τ ε β} (next : Spec G t s (f t) Q) :
    Spec G t s (Act.self >>= f) Q :=
  specBind ⟨trivial, next⟩

theorem specBecome {t' : τ} {f : Unit → Act step τ ε β} (next : Spec G t' s (f ()) Q) :
    Spec G t s (Act.become t' >>= f) Q :=
  specBind ⟨trivial, next⟩

theorem specZoom {υ : Type} {get : τ → υ} {set : υ → τ → τ} {x : Act step υ ε β}
    (h : Spec G (get t) s x fun r u s' => Q r (set u t) s') : Spec G t s (Act.zoom get set x) Q := h

theorem specAttempt {x : Act step τ ε α} {f : Except ε α → Act step τ ε β}
    (h : Spec G t s x fun r t' s' => Spec G t' s' (f r) Q) : Spec G t s (Act.attempt x >>= f) Q :=
  specBind h

end Rules

/-- From every state, `x` keeps the volatile state and what it returns has `P`. -/
def Returns {step : σ → op → σ} (x : Act step τ ε α) (P : α → Prop) : Prop :=
  ∀ t s, x.volatile t s = t ∧ ∀ a, x.result t s = .ok a → P a

section Returning
variable {step : σ → op → σ} {P : α → Prop} {Q : β → Prop}

theorem returnsBind {x : Act step τ ε α} {f : α → Act step τ ε β} (first : Returns x P)
    (next : ∀ a, P a → Returns (f a) Q) : Returns (x >>= f) Q := by
  intro t s
  obtain ⟨kept, post⟩ := first t s
  simp only [Bind.bind, Act.andThen, Act.result, Act.volatile] at kept post ⊢
  generalize x t s = out at kept post
  obtain ⟨ops, r, t'⟩ := out
  cases kept
  cases r with
  | error e => exact ⟨rfl, fun a bad => by cases bad⟩
  | ok a => exact next a (post a rfl) _ _

theorem returnsRet {a : α} (h : P a) : Returns (pure a : Act step τ ε α) P :=
  fun _ _ => ⟨rfl, fun _ same => by cases same; exact h⟩

theorem returnsFail (e : ε) : Returns (Act.fail e : Act step τ ε α) P :=
  fun _ _ => ⟨rfl, fun _ bad => by cases bad⟩

theorem returnsLook (f : σ → α) : Returns (Act.look f : Act step τ ε α) fun _ => True :=
  fun _ _ => ⟨rfl, fun _ _ => trivial⟩

theorem returnsLift (r : Except ε α) : Returns (Act.lift r : Act step τ ε α) fun _ => True :=
  fun _ _ => ⟨rfl, fun _ _ => trivial⟩

theorem returnsRefuse (bad : Prop) [Decidable bad] (e : ε) :
    Returns (Act.refuseIf bad e : Act step τ ε Unit) fun _ => True := by
  unfold Act.refuseIf
  split
  · exact returnsFail e
  · exact returnsRet trivial

theorem returnsAttempt {x : Act step τ ε α} (h : Returns x P) :
    Returns (Act.attempt x : Act step τ ε (Except ε α)) fun r => ∀ a, r = .ok a → P a :=
  fun t s => ⟨(h t s).1, fun r same => by cases same; exact (h t s).2⟩

end Returning

/-- From every two states with `I` and `J`, each operation meets `G` and leaves `I`, the volatile state is left with
`J`, and what it returns has `V`. -/
def Keeps {step : σ → op → σ} (G : σ → op → Prop) (I : σ → Prop) (J : τ → Prop) (x : Act step τ ε α) (V : α → Prop) : Prop :=
  ∀ t s, I s → J t → Spec G t s x fun r t' s' => I s' ∧ J t' ∧ ∀ a, r = .ok a → V a

section Keeping
variable {step : σ → op → σ} {G : σ → op → Prop} {I : σ → Prop} {J : τ → Prop} {V : α → Prop} {W : β → Prop}

theorem keepsPure {a : α} (value : V a) : Keeps G I J (pure a : Act step τ ε α) V := by
  intro t s inv own
  refine specRet ⟨inv, own, ?_⟩
  rintro _ ⟨⟩
  exact value

theorem keepsFail (e : ε) : Keeps G I J (Act.fail e : Act step τ ε α) V := by
  intro t s inv own
  refine specFail ⟨inv, own, ?_⟩
  rintro _ ⟨⟩

theorem keepsBind {x : Act step τ ε α} {f : α → Act step τ ε β} (first : Keeps G I J x V)
    (next : ∀ a, V a → Keeps G I J (f a) W) : Keeps G I J (x >>= f) W := by
  intro t s inv own
  refine specSeq (first t s inv own) ?_ ?_
  · rintro a t' s' ⟨inv, own, value⟩
    exact next a (value a rfl) t' s' inv own
  · rintro e t' s' ⟨inv, own, _⟩
    refine ⟨inv, own, ?_⟩
    rintro _ ⟨⟩

theorem keepsMono {V' : α → Prop} {x : Act step τ ε α} (first : Keeps G I J x V) (weaker : ∀ a, V a → V' a) :
    Keeps G I J x V' :=
  fun t s inv own => specMono (first t s inv own) fun _ _ _ post => ⟨post.1, post.2.1, fun a ok => weaker a (post.2.2 a ok)⟩

theorem keepsEmit (keep : ∀ s o, I s → G s o → I (step s o)) {ops : List op} (meets : ∀ s, I s → ∀ o ∈ ops, G s o) :
    Keeps G I J (Act.emit ops : Act step τ ε Unit) fun _ => True := by
  intro t s inv own
  have guar := guarEach keep meets inv
  exact ⟨guar, guarKeeps keep guar inv, own, fun _ _ => trivial⟩

theorem keepsLook {f : σ → α} (value : ∀ s, I s → V (f s)) : Keeps G I J (Act.look f : Act step τ ε α) V := by
  intro t s inv own
  refine ⟨trivial, inv, own, ?_⟩
  rintro _ ⟨⟩
  exact value s inv

theorem keepsLift (r : Except ε α) : Keeps G I J (Act.lift r : Act step τ ε α) fun _ => True :=
  fun _ _ inv own => ⟨trivial, inv, own, fun _ _ => trivial⟩

theorem keepsRefuse (bad : Prop) [Decidable bad] (e : ε) :
    Keeps G I J (Act.refuseIf bad e : Act step τ ε Unit) fun _ => ¬ bad := by
  unfold Act.refuseIf
  by_cases h : bad
  · rw [if_pos h]
    exact keepsFail e
  · rw [if_neg h]
    exact keepsPure h

theorem keepsSelf : Keeps G I J (Act.self : Act step τ ε τ) J := by
  intro t s inv own
  refine ⟨trivial, inv, own, ?_⟩
  rintro _ ⟨⟩
  exact own

theorem keepsBecome {t : τ} (own : J t) : Keeps G I J (Act.become t : Act step τ ε Unit) fun _ => True :=
  fun _ _ inv _ => ⟨trivial, inv, own, fun _ _ => trivial⟩

theorem keepsAttempt {x : Act step τ ε α} (first : Keeps G I J x V) :
    Keeps G I J (Act.attempt x : Act step τ ε (Except ε α)) fun r => ∀ a, r = .ok a → V a := by
  intro t s inv own
  obtain ⟨guar, inv', own', value⟩ := first t s inv own
  refine ⟨guar, inv', own', ?_⟩
  rintro _ ⟨⟩
  exact value

theorem keepsZoom {υ : Type} {K : υ → Prop} {get : τ → υ} {set : υ → τ → τ} {x : Act step υ ε α} (first : Keeps G I K x V)
    (inside : ∀ t, J t → K (get t)) (back : ∀ u t, K u → J t → J (set u t)) : Keeps G I J (Act.zoom get set x) V := by
  intro t s inv own
  refine specZoom (specMono (first (get t) s inv (inside t own)) ?_)
  rintro r u s' ⟨inv, ownPart, value⟩
  exact ⟨inv, back u t ownPart own, value⟩

end Keeping
end Xchannel.CrashProgram
