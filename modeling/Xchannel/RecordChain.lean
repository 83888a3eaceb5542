import Xchannel.Storage

/-! The records of one segment as a chain of slots: each committed record leads to the slot after
its padded length, until an uncommitted slot or a `Roll`. -/
namespace Xchannel.RecordChain
open ByteMemory Format Storage

def align8 (x : Nat) : Nat := (x + 7) / 8 * 8

theorem alignUpEq {x : Nat} (h : x + 7 < 2 ^ 64) : alignUp x = align8 x := by
  show (x + 7) % 2 ^ 64 / 8 * 8 = (x + 7) / 8 * 8
  rw [Nat.mod_eq_of_lt h]

theorem align8Le (x : Nat) : x ≤ align8 x := by unfold align8; omega
theorem align8Dvd (x : Nat) : 8 ∣ align8 x := ⟨(x + 7) / 8, Nat.mul_comm _ _⟩
theorem align8Lt (x : Nat) : align8 x < x + 8 := by unfold align8; omega
theorem align8Mono {x y : Nat} (h : x ≤ y) : align8 x ≤ align8 y := by unfold align8; omega

theorem align8LeOf {x y : Nat} (h : x ≤ y) (aligned : 8 ∣ y) : align8 x ≤ y := by
  unfold align8
  omega

theorem align8Of {x : Nat} (h : 8 ∣ x) : align8 x = x := by unfold align8; omega

theorem align8Add {x y : Nat} (h : 8 ∣ x) : align8 (x + y) = x + align8 y := by
  unfold align8
  omega

/- A slot as a region and an offset in it. -/
theorem slotSplit (R p : Nat) : p / R * R + p % R = p := by
  rw [Nat.mul_comm]
  exact Nat.div_add_mod p R

theorem sameRegion {R p x : Nat} (h : p % R + x < R) : (p + x) / R = p / R ∧ (p + x) % R = p % R + x := by
  have low : x < R := by omega
  have inside : p % R + x % R < R := by rwa [Nat.mod_eq_of_lt low]
  refine ⟨?_, ?_⟩
  · rw [Nat.add_div_eq_of_add_mod_lt inside, Nat.div_eq_of_lt low, Nat.add_zero]
  · rw [Nat.add_mod_of_add_mod_lt inside, Nat.mod_eq_of_lt low]

def lengthAt (m : Mem) (p : Nat) : Nat := readLE m (p + 4) 4
def nextSlot (m : Mem) (p : Nat) : Nat := align8 (p + 16 + lengthAt m p)

theorem lengthLt (m : Mem) (p : Nat) : lengthAt m p < 2 ^ 32 := readLELt m (p + 4) 4

theorem readLength (m : Mem) (p : Nat) : (MessageHeader.read m p).length.toNat = lengthAt m p := by
  have bound := lengthLt m p
  simp only [MessageHeader.read, lengthAt, UInt32.toNat_ofNat'] at bound ⊢
  exact Nat.mod_eq_of_lt bound

theorem lengthCongr {m m' : Mem} {p : Nat} (same : ∀ a, p ≤ a → a < p + 16 → m' a = m a) :
    lengthAt m' p = lengthAt m p := readLECongr fun a lo hi => same a (by omega) (by omega)

theorem readCongr {m m' : Mem} {p : Nat} (same : ∀ a, p ≤ a → a < p + 16 → m' a = m a) :
    MessageHeader.read m' p = MessageHeader.read m p := by
  have field (off width : Nat) (hi : off + width ≤ 16) : readLE m' (p + off) width = readLE m (p + off) width :=
    readLECongr fun a l h => same a (by omega) (by omega)
  unfold MessageHeader.read
  rw [same p (by omega) (by omega), same (p + 1) (by omega) (by omega), field 2 2 (by omega), field 4 4 (by omega),
    field 8 8 (by omega)]

/-- Where the record of each kind leaves the chain: a User record leaves room for another slot in its
region, a Skip ends its region, and the only Channel record is the first. -/
def Placed (R : Nat) (m : Mem) (p : Nat) : HeaderType → Prop
  | .channel => p = 0
  | .user => nextSlot m p / R = p / R
  | .skip => nextSlot m p = (p / R + 1) * R
  | .roll => False

/-- A committed record other than a `Roll`, inside its region. -/
structure RecordAt (R : Nat) (m : Mem) (p : Nat) (t : HeaderType) : Prop where
  committed : m p = 1
  kind : m (p + 1) = t.raw
  placed : Placed R m p t
  fits : p % R + 16 + lengthAt m p ≤ R

theorem RecordAt.notRoll {R : Nat} {m : Mem} {p : Nat} {t : HeaderType} (here : RecordAt R m p t) : t ≠ .roll := by
  rintro rfl
  exact here.placed

abbrev Slots := List (Nat × HeaderType)

inductive Chain (R : Nat) (m : Mem) : Nat → Slots → Nat → Prop where
  | done (p : Nat) : Chain R m p [] p
  | step {p t rest q} (here : RecordAt R m p t) (tail : Chain R m (nextSlot m p) rest q) :
      Chain R m p ((p, t) :: rest) q

def users (slots : Slots) : Nat := (slots.filter fun x => x.2 = .user).length

theorem usersCons (slots : Slots) (p : Nat) (t : HeaderType) :
    users ((p, t) :: slots) = (if t = .user then 1 else 0) + users slots := by
  unfold users
  rw [List.filter_cons]
  by_cases h : t = .user
  · simp [h, Nat.add_comm]
  · simp [h]

theorem usersSnoc (slots : Slots) (p : Nat) (t : HeaderType) :
    users (slots ++ [(p, t)]) = users slots + if t = .user then 1 else 0 := by
  unfold users
  rw [List.filter_append, List.length_append]
  by_cases h : t = .user <;> simp [h]

variable {R : Nat} {m m' : Mem} {p q : Nat} {slots : Slots}

theorem nextSlotCongr (same : ∀ a, p ≤ a → a < p + 16 → m' a = m a) : nextSlot m' p = nextSlot m p := by
  unfold nextSlot
  rw [lengthCongr same]

theorem RecordAt.congr {t : HeaderType} (here : RecordAt R m p t)
    (same : ∀ a, p ≤ a → a < p + 16 → m' a = m a) : RecordAt R m' p t where
  committed := by rw [same p (by omega) (by omega)]; exact here.committed
  kind := by rw [same (p + 1) (by omega) (by omega)]; exact here.kind
  placed := by
    have placed := here.placed
    unfold Placed at placed ⊢
    rwa [nextSlotCongr same]
  fits := by rw [lengthCongr same]; exact here.fits

theorem nextSlotGt (m : Mem) (p : Nat) : p + 16 + lengthAt m p ≤ nextSlot m p := align8Le _

theorem Chain.congr (h : Chain R m p slots q)
    (same : ∀ x ∈ slots, ∀ a, x.1 ≤ a → a < x.1 + 16 → m' a = m a) : Chain R m' p slots q := by
  induction h with
  | done p => exact .done p
  | @step p t rest q here tail ih =>
    have head := same (p, t) List.mem_cons_self
    refine .step (here.congr head) ?_
    rw [nextSlotCongr head]
    exact ih fun x hx => same x (List.mem_cons_of_mem _ hx)

theorem Chain.nilEq (h : Chain R m p [] q) : p = q := by
  cases h
  rfl

theorem Chain.le (h : Chain R m p slots q) : p ≤ q := by
  induction h with
  | done p => exact Nat.le_refl p
  | @step p t rest q here tail ih =>
    have := nextSlotGt m p
    omega

/- A chain leads forward, so one that returns is empty. -/
theorem Chain.closed (h : Chain R m p slots p) : slots = [] := by
  cases h with
  | done => rfl
  | step here tail =>
    have beyond := nextSlotGt m p
    have := tail.le
    omega

theorem RecordAt.sameKind {t k : HeaderType} (here : RecordAt R m p t) (other : RecordAt R m p k) : t = k := by
  have := here.kind.symm.trans other.kind
  cases t <;> cases k <;> first | rfl | exact absurd this (by decide)

/- A committed record before the end of a chain is the next one of it. -/
theorem Chain.ahead {k : HeaderType} (h : Chain R m p slots q) (stops : ∀ t, ¬ RecordAt R m q t)
    (here : RecordAt R m p k) : ∃ rest, slots = (p, k) :: rest ∧ Chain R m (nextSlot m p) rest q := by
  cases h with
  | done => exact absurd here (stops k)
  | @step _ t rest _ first tail =>
    cases first.sameKind here
    exact ⟨rest, rfl, tail⟩

/- Every record of the chain ends before the chain does. -/
theorem Chain.within (h : Chain R m p slots q) {x : Nat × HeaderType} (hx : x ∈ slots) :
    p ≤ x.1 ∧ nextSlot m x.1 ≤ q := by
  induction h with
  | done p => simp at hx
  | @step p t rest q here tail ih =>
    rcases List.mem_cons.mp hx with rfl | hx
    · exact ⟨Nat.le_refl _, tail.le⟩
    · have := ih hx
      have := nextSlotGt m p
      omega

theorem Chain.record (h : Chain R m p slots q) {x : Nat × HeaderType} (hx : x ∈ slots) :
    RecordAt R m x.1 x.2 := by
  induction h with
  | done p => simp at hx
  | step here tail ih =>
    rcases List.mem_cons.mp hx with rfl | hx
    · exact here
    · exact ih hx

theorem Chain.snoc {t : HeaderType} (h : Chain R m p slots q) (last : RecordAt R m q t) :
    Chain R m p (slots ++ [(q, t)]) (nextSlot m q) := by
  induction h with
  | done p => exact .step last (.done _)
  | step here tail ih => exact .step here (ih last)

theorem Chain.append {r : Nat} {more : Slots} (h : Chain R m p slots q) (rest : Chain R m q more r) :
    Chain R m p (slots ++ more) r := by
  induction h with
  | done p => exact rest
  | step here tail ih => exact .step here (ih rest)

theorem Chain.split {first : Slots} {x : Nat × HeaderType} {rest : Slots}
    (h : Chain R m p (first ++ x :: rest) q) :
    Chain R m p first x.1 ∧ RecordAt R m x.1 x.2 ∧ Chain R m (nextSlot m x.1) rest q := by
  induction first generalizing p with
  | nil =>
    cases h with
    | step here tail => exact ⟨.done _, here, tail⟩
  | cons y first ih =>
    cases h with
    | step here tail =>
      obtain ⟨before, at_, after⟩ := ih tail
      exact ⟨.step here before, at_, after⟩

theorem Chain.aligned (h : Chain R m p slots q) (start : 8 ∣ p) :
    8 ∣ q ∧ ∀ x ∈ slots, 8 ∣ x.1 := by
  induction h with
  | done p => exact ⟨start, by simp⟩
  | @step p t rest q here tail ih =>
    obtain ⟨last, all⟩ := ih (align8Dvd _)
    refine ⟨last, ?_⟩
    intro x hx
    rcases List.mem_cons.mp hx with rfl | hx
    · exact start
    · exact all x hx

theorem Chain.usersLe (h : Chain R m p slots q) : p + users slots ≤ q := by
  induction h with
  | done p => simp [users]
  | @step p t rest q here tail ih =>
    have next := nextSlotGt m p
    rw [usersCons]
    split <;> omega

theorem Chain.slotsLe (h : Chain R m p slots q) : p + slots.length ≤ q := by
  induction h with
  | done p => simp
  | @step p t rest q here tail ih =>
    have := nextSlotGt m p
    simp only [List.length_cons]
    omega

/- A record does not reach past its region. -/
theorem RecordAt.nextLe {t : HeaderType} (here : RecordAt R m p t) (aligned : 8 ∣ R) :
    nextSlot m p ≤ (p / R + 1) * R := by
  apply align8LeOf
  · have split := slotSplit R p
    have expand : (p / R + 1) * R = p / R * R + R := by ring
    have fits := here.fits
    omega
  · exact Dvd.dvd.mul_left aligned _

/- Every region the chain enters, it enters at its start. -/
theorem Chain.fromRegion (h : Chain R m p slots q) (aligned : 8 ∣ R) {k : Nat} (lo : p ≤ k * R) (hi : k * R ≤ q) :
    ∃ before after, slots = before ++ after ∧ Chain R m p before (k * R) ∧ Chain R m (k * R) after q := by
  induction h with
  | done p =>
    have : p = k * R := by omega
    exact ⟨[], [], rfl, this ▸ .done _, this ▸ .done _⟩
  | @step p t rest q here tail ih =>
    by_cases same : p = k * R
    · exact ⟨[], (p, t) :: rest, rfl, same ▸ .done _, same ▸ .step here tail⟩
    · have region : p / R < k := by
        rcases Nat.eq_zero_or_pos R with zero | positive
        · subst zero
          omega
        · rw [Nat.div_lt_iff_lt_mul positive]
          omega
      have low : nextSlot m p ≤ k * R :=
        Nat.le_trans (here.nextLe aligned) (Nat.mul_le_mul_right R region)
      obtain ⟨before, after, split, first, last⟩ := ih low hi
      exact ⟨(p, t) :: before, after, by rw [split]; rfl, .step here first, last⟩
/- A chain that cannot be continued is the longest one from its start. -/
theorem Chain.unique {slots' : Slots} {q' : Nat} (h : Chain R m p slots q) (h' : Chain R m p slots' q')
    (stop : ∀ t, ¬ RecordAt R m q t) (stop' : ∀ t, ¬ RecordAt R m q' t) : slots = slots' ∧ q = q' := by
  induction h generalizing slots' with
  | done p =>
    cases h' with
    | done => exact ⟨rfl, rfl⟩
    | step here _ => exact absurd here (stop _)
  | @step p t rest q here tail ih =>
    cases h' with
    | done => exact absurd here (stop' _)
    | @step _ t' rest' _ here' tail' =>
      obtain ⟨same, last⟩ := ih tail' stop
      have raw : t.raw = t'.raw := here.kind.symm.trans here'.kind
      have kinds : t = t' := by cases t <;> cases t' <;> first | rfl | exact absurd raw (by decide)
      exact ⟨by rw [same, kinds], last⟩

end Xchannel.RecordChain
