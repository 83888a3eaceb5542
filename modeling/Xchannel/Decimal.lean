import Mathlib

/-! Natural numbers below a bound as decimal text: printing has one form, parsing also takes a leading plus
and leading zeros. -/
namespace Xchannel.Decimal

def print (n : Nat) : List Char := Nat.toDigits 10 n

def digitStep (bound acc : Nat) (c : Char) : Option Nat :=
  let next := 10 * acc + (c.toNat - '0'.toNat)
  if c.isDigit ∧ next < bound then some next else none

def unsigned (text : List Char) : List Char := if text.head? = some '+' then text.tail else text

def parse (bound : Nat) (text : List Char) : Option Nat :=
  if unsigned text = [] then none else (unsigned text).foldlM (digitStep bound) 0

theorem valueGrows (digits : List Char) (acc : Nat) : acc ≤ Nat.ofDigitChars 10 digits acc := by
  induction digits generalizing acc with
  | nil => simp
  | cons c digits ih =>
    rw [Nat.ofDigitChars_cons]
    have := ih (10 * acc + (c.toNat - '0'.toNat))
    omega

theorem foldSome {bound n : Nat} {digits : List Char} (nonempty : digits ≠ []) (acc : Nat) :
    digits.foldlM (digitStep bound) acc = some n ↔
      (∀ c ∈ digits, c.isDigit = true) ∧ Nat.ofDigitChars 10 digits acc = n ∧ n < bound := by
  induction digits generalizing acc with
  | nil => exact absurd rfl nonempty
  | cons c digits ih =>
    rw [List.foldlM_cons, digitStep, Nat.ofDigitChars_cons]
    have grows := valueGrows digits (10 * acc + (c.toNat - '0'.toNat))
    by_cases good : c.isDigit = true ∧ 10 * acc + (c.toNat - '0'.toNat) < bound
    · rw [if_pos good]
      by_cases last : digits = []
      · subst last
        simp only [List.foldlM_nil, Nat.ofDigitChars_nil, List.mem_singleton, forall_eq]
        constructor
        · intro same
          obtain rfl := Option.some.inj same
          exact ⟨good.1, rfl, good.2⟩
        · rintro ⟨_, rfl, _⟩
          rfl
      · rw [Option.bind_eq_bind, Option.bind_some, ih last]
        simp only [List.mem_cons, forall_eq_or_imp, good.1, true_and]
    · rw [if_neg good]
      constructor
      · intro none
        cases none
      · rintro ⟨all, same, small⟩
        exact absurd ⟨all c List.mem_cons_self, by omega⟩ good

theorem parseSome {bound n : Nat} {text : List Char} :
    parse bound text = some n ↔ unsigned text ≠ [] ∧ (∀ c ∈ unsigned text, c.isDigit = true) ∧
      Nat.ofDigitChars 10 (unsigned text) 0 = n ∧ n < bound := by
  unfold parse
  by_cases empty : unsigned text = []
  · rw [if_pos empty]
    exact ⟨nofun, fun h => absurd empty h.1⟩
  · rw [if_neg empty, foldSome empty]
    exact ⟨fun h => ⟨empty, h⟩, fun h => h.2⟩

theorem printDigits {n : Nat} {c : Char} (mem : c ∈ print n) : c.isDigit = true :=
  Nat.isDigit_of_mem_toDigits (by decide) (by decide) mem

theorem printNonempty (n : Nat) : print n ≠ [] := Nat.toDigits_ne_nil

theorem printPlus (n : Nat) : (print n).head? ≠ some '+' := by
  intro plus
  have digit := printDigits (List.mem_of_head? plus)
  cases digit

theorem printUnsigned (n : Nat) : unsigned (print n) = print n := by
  unfold unsigned
  exact if_neg (printPlus n)

theorem printLeading {n : Nat} (positive : 0 < n) : (print n).head? ≠ some '0' := by
  unfold print
  induction n using Nat.strongRecOn with
  | ind n ih =>
    rcases Nat.lt_or_ge n 10 with low | high
    · rw [Nat.toDigits_of_lt_base low]
      interval_cases n <;> decide
    · rw [Nat.toDigits_of_base_le (by decide) high, List.head?_append_of_ne_nil _ Nat.toDigits_ne_nil]
      exact ih (n / 10) (by omega) (by omega)

theorem parsePrint {bound n : Nat} (small : n < bound) : parse bound (print n) = some n := by
  rw [parseSome, printUnsigned]
  exact ⟨printNonempty n, fun _ mem => printDigits mem, Nat.ofDigitChars_ten_toDigits, small⟩

theorem printInjective {n k : Nat} (same : print n = print k) : n = k := by
  have values : Nat.ofDigitChars 10 (print n) 0 = Nat.ofDigitChars 10 (print k) 0 := by rw [same]
  rwa [print, print, Nat.ofDigitChars_ten_toDigits, Nat.ofDigitChars_ten_toDigits] at values

theorem digitBack {c : Char} (digit : c.isDigit = true) : Nat.toDigits 10 (c.toNat - '0'.toNat) = [c] := by
  have range : 48 ≤ c.toNat ∧ c.toNat ≤ 57 := by
    simp only [Char.isDigit, Bool.and_eq_true, decide_eq_true_eq] at digit
    exact digit
  have char : c = Char.ofNat c.toNat := (Char.ofNat_toNat c).symm
  obtain ⟨value, same⟩ : ∃ value, c.toNat = 48 + value := ⟨c.toNat - 48, by omega⟩
  have low : value < 10 := by omega
  rw [char, same]
  interval_cases value <;> rfl

/- Digits that do not begin with a zero are what their value is printed as. -/
theorem printValue {digits : List Char} (nonempty : digits ≠ []) (all : ∀ c ∈ digits, c.isDigit = true)
    (leading : digits.head? ≠ some '0') : print (Nat.ofDigitChars 10 digits 0) = digits := by
  induction digits using List.reverseRecOn with
  | nil => exact absurd rfl nonempty
  | append_singleton front last ih =>
    have digit := all last (by simp)
    have value : last.toNat - '0'.toNat < 10 := by
      simp only [Char.isDigit, Bool.and_eq_true, decide_eq_true_eq] at digit
      have : last.toNat ≤ 57 := digit.2
      show last.toNat - 48 < 10
      omega
    rw [Nat.ofDigitChars_append, Nat.ofDigitChars_cons, Nat.ofDigitChars_nil]
    by_cases alone : front = []
    · subst alone
      rw [Nat.ofDigitChars_nil, Nat.mul_zero, Nat.zero_add]
      exact digitBack digit
    · have before := ih alone (fun c mem => all c (List.mem_append_left _ mem))
        (by rwa [List.head?_append_of_ne_nil _ alone] at leading)
      have positive : 0 < Nat.ofDigitChars 10 front 0 := by
        apply Nat.pos_of_ne_zero
        intro zero
        rw [zero] at before
        apply leading
        rw [← before]
        rfl
      rw [print, ← Nat.toDigits_append_toDigits (by decide) positive value, digitBack digit]
      exact congrArg (· ++ [last]) before

/- What a parsed text is, but for a plus and zeros in front, is what its value is printed as. -/
theorem parseCanonical {bound n : Nat} {text : List Char} (parsed : parse bound text = some n)
    (plus : text.head? ≠ some '+') (zero : text.head? ≠ some '0') : text = print n := by
  obtain ⟨nonempty, digits, rfl, _⟩ := parseSome.mp parsed
  have whole : unsigned text = text := if_neg plus
  rw [whole] at nonempty digits ⊢
  exact (printValue nonempty digits zero).symm

/- The characters a parsed text can have. -/
theorem parseChars {bound n : Nat} {text : List Char} (parsed : parse bound text = some n) {c : Char} (mem : c ∈ text) :
    c = '+' ∨ c.isDigit = true := by
  obtain ⟨_, digits, _⟩ := parseSome.mp parsed
  unfold unsigned at digits
  by_cases plus : text.head? = some '+'
  · rw [if_pos plus] at digits
    obtain ⟨rest, rfl⟩ := List.head?_eq_some_iff.mp plus
    rcases List.mem_cons.mp mem with rfl | later
    · exact .inl rfl
    · exact .inr (digits c later)
  · rw [if_neg plus] at digits
    exact .inr (digits c mem)

end Xchannel.Decimal
