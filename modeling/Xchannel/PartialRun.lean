import Mathlib

/-! Runs of a partial function that labels its steps: the path from a state is unique, so of two
runs one continues the other, and a measure that falls bounds every run. -/
namespace Xchannel.PartialRun

variable {σ l : Type} {step : σ → Option (l × σ)} {s t u : σ} {as bs : List l}

inductive Run (step : σ → Option (l × σ)) : σ → List l → σ → Prop where
  | here (s : σ) : Run step s [] s
  | next {s a s' labels t} (first : step s = some (a, s')) (rest : Run step s' labels t) : Run step s (a :: labels) t

theorem Run.append (one : Run step s as t) (two : Run step t bs u) : Run step s (as ++ bs) u := by
  induction one with
  | here s => exact two
  | next first rest ih => exact .next first (ih two)

theorem Run.snoc {a : l} (run : Run step s as t) (last : step t = some (a, u)) : Run step s (as ++ [a]) u :=
  run.append (.next last (.here u))

theorem Run.split (run : Run step s (as ++ bs) u) : ∃ t, Run step s as t ∧ Run step t bs u := by
  induction as generalizing s with
  | nil => exact ⟨s, .here s, run⟩
  | cons a as ih =>
    cases run with
    | next first rest =>
      obtain ⟨t, one, two⟩ := ih rest
      exact ⟨t, .next first one, two⟩

theorem Run.stuck (run : Run step s as t) (stuck : step s = none) : as = [] ∧ t = s := by
  cases run with
  | here => exact ⟨rfl, rfl⟩
  | next first rest => rw [stuck] at first; cases first

theorem Run.compare (one : Run step s as t) (two : Run step s bs u) :
    (∃ more, bs = as ++ more ∧ Run step t more u) ∨ (∃ more, as = bs ++ more ∧ Run step u more t) := by
  induction one generalizing bs with
  | here s => exact .inl ⟨bs, rfl, two⟩
  | @next s a s' labels t first rest ih =>
    cases two with
    | here => exact .inr ⟨a :: labels, rfl, .next first rest⟩
    | next first' rest' =>
      cases first.symm.trans first'
      rcases ih rest' with ⟨more, rfl, run⟩ | ⟨more, rfl, run⟩
      · exact .inl ⟨more, rfl, run⟩
      · exact .inr ⟨more, rfl, run⟩

/- What one step keeps, and takes from a measure. -/
theorem Run.keeps {I : σ → Prop} (keep : ∀ s a s', I s → step s = some (a, s') → I s') (run : Run step s as t)
    (start : I s) : I t := by
  induction run with
  | here s => exact start
  | next first rest ih => exact ih (keep _ _ _ start first)

theorem Run.bounded {I : σ → Prop} {f : σ → Nat} (keep : ∀ s a s', I s → step s = some (a, s') → I s')
    (down : ∀ s a s', I s → step s = some (a, s') → f s' < f s) (run : Run step s as t) (start : I s) :
    as.length + f t ≤ f s := by
  induction run with
  | here s => simp
  | next first rest ih =>
    have less := down _ _ _ start first
    have more := ih (keep _ _ _ start first)
    rw [List.length_cons]
    omega

end Xchannel.PartialRun
