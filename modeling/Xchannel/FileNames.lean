import Xchannel.Decimal
import Xchannel.Format

/-! The names of a channel's files in its directory: how they are printed, and how the scan and the sweep
recognise them. A directory holds files only, so no path in it `is_dir`. -/
namespace Xchannel.FileNames
open ByteMemory Format Decimal

/-- A file name: UTF-8 text, or bytes that `to_str` turns away. -/
inductive Name where
  | text (chars : List Char) | raw (bytes : List UInt8)
  deriving DecidableEq, Repr

def Name.toStr : Name → Option (List Char)
  | .text chars => some chars
  | .raw _ => none

abbrev partialSuffix : List Char := "partial".toList

def makeChannelFilePath (base : List Char) (sequence : Nat) : List Char :=
  if sequence = 0 then base else base ++ '.' :: print sequence

def hexDigits (b : UInt8) : List Char := [Nat.digitChar (b.toNat / 16), Nat.digitChar (b.toNat % 16)]

/- The debug form of an instance ID: its 16 bytes in lower-case hexadecimal. -/
def instanceText (attempt : InstanceId) : List Char := (toLE 16 attempt.toNat).flatMap hexDigits

def makeAttemptPath (base : List Char) (sequence : Nat) (attempt : InstanceId) : List Char :=
  makeChannelFilePath base sequence ++ '.' :: (instanceText attempt ++ '.' :: partialSuffix)

def parseU64 (text : List Char) : Option Nat := parse usize text

/- What `find_all_sequences` makes of one entry. -/
def sequenceOf (base : List Char) (name : Name) : Option Nat := do
  let fileName ← name.toStr
  if fileName = base then some 0
  else (fileName.dropPrefix? (base ++ ['.'])).bind parseU64

def findAllSequences (base : List Char) (names : List Name) : List Nat :=
  (names.filterMap (sequenceOf base)).mergeSort fun a b => decide (a ≤ b)

def splitOnce (c : Char) (text : List Char) : Option (List Char × List Char) :=
  if c ∈ text then some (text.takeWhile (· ≠ c), (text.dropWhile (· ≠ c)).tail) else none

def isAsciiHexdigit (c : Char) : Bool :=
  c.isDigit || ('a' ≤ c && c ≤ 'f') || ('A' ≤ c && c ≤ 'F')

def isPartialSegmentName (name baseName : List Char) : Bool :=
  if name = baseName ++ '.' :: partialSuffix then true
  else match (name.dropPrefix? (baseName ++ ['.'])).bind (·.dropSuffix? ('.' :: partialSuffix)) with
    | none => false
    | some middle =>
      let isSequence (s : List Char) := (parseU64 s).isSome
      -- 32 bytes, each a hexadecimal digit and so a character of its own
      let isInstance (s : List Char) := s.length = 32 ∧ s.all isAsciiHexdigit
      match splitOnce '.' middle with
      | none => isSequence middle ∨ isInstance middle
      | some (sequence, inst) => isSequence sequence ∧ isInstance inst

section Recognised

theorem dropPrefixSome {text front rest : List Char} : text.dropPrefix? front = some rest ↔ text = front ++ rest := by
  rw [List.dropPrefix?_eq_some_iff]
  constructor
  · rintro ⟨front', rfl, same⟩
    rw [eq_of_beq same]
  · rintro rfl
    exact ⟨front, rfl, beq_self_eq_true front⟩

theorem dropSuffixSome {text front rest : List Char} : text.dropSuffix? rest = some front ↔ text = front ++ rest := by
  rw [List.dropSuffix?_eq_some_iff]
  constructor
  · rintro ⟨rest', rfl, same⟩
    rw [eq_of_beq same]
  · rintro rfl
    exact ⟨rest, rfl, beq_self_eq_true rest⟩

theorem sequenceOfText {base chars : List Char} {s : Nat} :
    sequenceOf base (.text chars) = some s ↔
      chars = base ∧ s = 0 ∨ ∃ t, chars = base ++ '.' :: t ∧ parseU64 t = some s := by
  show (if chars = base then some 0 else (chars.dropPrefix? (base ++ ['.'])).bind parseU64) = some s ↔ _
  by_cases own : chars = base
  · rw [if_pos own]
    constructor
    · intro same
      exact .inl ⟨own, (Option.some.inj same).symm⟩
    · rintro (⟨_, rfl⟩ | ⟨t, longer, _⟩)
      · rfl
      · exact absurd (own.symm.trans longer) (by simp)
  · rw [if_neg own, Option.bind_eq_some_iff]
    constructor
    · rintro ⟨t, dropped, parsed⟩
      refine .inr ⟨t, ?_, parsed⟩
      rw [dropPrefixSome.mp dropped, List.append_assoc]
      rfl
    · rintro (⟨same, _⟩ | ⟨t, same, parsed⟩)
      · exact absurd same own
      · refine ⟨t, dropPrefixSome.mpr ?_, parsed⟩
        rw [same, List.append_assoc]
        rfl

theorem sequenceOfRaw {base : List Char} (bytes : List UInt8) : sequenceOf base (.raw bytes) = none := rfl

theorem sequenceLow {base : List Char} {name : Name} {s : Nat} (listed : sequenceOf base name = some s) : s < usize := by
  cases name with
  | raw bytes => cases listed
  | text chars =>
    rcases sequenceOfText.mp listed with ⟨_, rfl⟩ | ⟨t, _, parsed⟩
    · decide
    · exact (parseSome.mp parsed).2.2.2

/- What is printed is recognised. -/
theorem ownSequence {base : List Char} {s : Nat} (low : s < usize) :
    sequenceOf base (.text (makeChannelFilePath base s)) = some s := by
  rw [sequenceOfText]
  unfold makeChannelFilePath
  by_cases first : s = 0
  · rw [if_pos first]
    exact .inl ⟨rfl, first⟩
  · rw [if_neg first]
    exact .inr ⟨print s, rfl, parsePrint low⟩

/- A text of digits, and perhaps a plus, is not followed by the suffix of private names. -/
theorem suffixUnparsed (t : List Char) : parseU64 (t ++ '.' :: partialSuffix) = none := by
  cases parsed : parseU64 (t ++ '.' :: partialSuffix) with
  | none => rfl
  | some n =>
    have dot := parseChars parsed (c := '.') (by simp)
    exact absurd dot (by decide)

theorem attemptUnlisted (base : List Char) (s : Nat) (attempt : InstanceId) :
    sequenceOf base (.text (makeAttemptPath base s attempt)) = none := by
  cases listed : sequenceOf base (.text (makeAttemptPath base s attempt)) with
  | none => rfl
  | some n =>
    obtain ⟨tail, longer⟩ : ∃ tail, makeAttemptPath base s attempt = base ++ '.' :: (tail ++ '.' :: partialSuffix) := by
      unfold makeAttemptPath makeChannelFilePath
      by_cases first : s = 0
      · rw [if_pos first]
        exact ⟨instanceText attempt, rfl⟩
      · rw [if_neg first]
        exact ⟨print s ++ '.' :: instanceText attempt, by simp⟩
    rcases sequenceOfText.mp listed with ⟨same, _⟩ | ⟨t, same, parsed⟩
    · rw [longer] at same
      exact absurd same (by simp)
    · rw [longer] at same
      have tails := List.cons.inj (List.append_cancel_left same)
      rw [← tails.2, suffixUnparsed] at parsed
      cases parsed

end Recognised

section Partial

theorem hexDigit {n : Nat} (low : n < 16) : isAsciiHexdigit (Nat.digitChar n) = true := by
  interval_cases n <;> decide

theorem instanceHex (attempt : InstanceId) : (instanceText attempt).all isAsciiHexdigit = true := by
  rw [List.all_eq_true]
  intro c mem
  obtain ⟨b, _, inside⟩ := List.mem_flatMap.mp mem
  rcases List.mem_cons.mp inside with rfl | inside
  · exact hexDigit (by have := b.toNat_lt; omega)
  · obtain rfl := List.mem_singleton.mp inside
    exact hexDigit (Nat.mod_lt _ (by decide))

theorem instanceLength (attempt : InstanceId) : (instanceText attempt).length = 32 := by
  simp [instanceText, hexDigits, List.length_flatMap]

theorem splitNone {text : List Char} (clear : '.' ∉ text) : splitOnce '.' text = none := if_neg clear

theorem splitSome {front rest : List Char} (clear : '.' ∉ front) :
    splitOnce '.' (front ++ '.' :: rest) = some (front, rest) := by
  have other : ∀ c ∈ front, decide (c ≠ '.') = true := by
    intro c mem
    rw [decide_eq_true_eq]
    rintro rfl
    exact clear mem
  unfold splitOnce
  rw [if_pos (by simp), List.takeWhile_append_of_pos other, List.dropWhile_append_of_pos other,
    List.takeWhile_cons_of_neg (by simp), List.dropWhile_cons_of_neg (by simp), List.append_nil]
  rfl

theorem instanceDotless (attempt : InstanceId) : '.' ∉ instanceText attempt := by
  intro mem
  have hex := List.all_eq_true.mp (instanceHex attempt) '.' mem
  exact absurd hex (by decide)

theorem printDotless (n : Nat) : '.' ∉ print n := by
  intro mem
  exact absurd (printDigits mem) (by decide)

/- What stands between the base and the suffix of a private name. -/
def Middle (middle : List Char) : Prop :=
  match splitOnce '.' middle with
  | none => (parseU64 middle).isSome ∨ middle.length = 32 ∧ middle.all isAsciiHexdigit
  | some (sequence, inst) => (parseU64 sequence).isSome ∧ inst.length = 32 ∧ inst.all isAsciiHexdigit

theorem partialText {name base : List Char} :
    isPartialSegmentName name base = true ↔ name = base ++ '.' :: partialSuffix ∨
      ∃ middle, name = base ++ '.' :: (middle ++ '.' :: partialSuffix) ∧ Middle middle := by
  unfold isPartialSegmentName
  by_cases old : name = base ++ '.' :: partialSuffix
  · rw [if_pos old]
    exact ⟨fun _ => .inl old, fun _ => rfl⟩
  · rw [if_neg old]
    have found (middle : List Char) :
        (name.dropPrefix? (base ++ ['.'])).bind (·.dropSuffix? ('.' :: partialSuffix)) = some middle ↔
          name = base ++ '.' :: (middle ++ '.' :: partialSuffix) := by
      rw [Option.bind_eq_some_iff]
      constructor
      · rintro ⟨rest, front, back⟩
        rw [dropPrefixSome.mp front, dropSuffixSome.mp back, List.append_assoc]
        rfl
      · intro same
        refine ⟨middle ++ '.' :: partialSuffix, dropPrefixSome.mpr ?_, dropSuffixSome.mpr rfl⟩
        rw [same, List.append_assoc]
        rfl
    cases dropped : (name.dropPrefix? (base ++ ['.'])).bind (·.dropSuffix? ('.' :: partialSuffix)) with
    | none =>
      constructor
      · intro yes
        cases yes
      · rintro (same | ⟨middle, same, _⟩)
        · exact absurd same old
        · rw [(found middle).mpr same] at dropped
          cases dropped
    | some middle =>
      have named := (found middle).mp dropped
      have judged : (match splitOnce '.' middle with
          | none => decide ((parseU64 middle).isSome ∨ middle.length = 32 ∧ middle.all isAsciiHexdigit)
          | some (sequence, inst) => decide ((parseU64 sequence).isSome ∧ inst.length = 32 ∧ inst.all isAsciiHexdigit)) =
            true ↔ Middle middle := by
        unfold Middle
        cases splitOnce '.' middle <;> simp
      refine Iff.trans ?_ (judged.trans ?_)
      · simp
      · constructor
        · intro good
          exact .inr ⟨middle, named, good⟩
        · rintro (same | ⟨middle', same, good⟩)
          · exact absurd same old
          · obtain rfl := Option.some.inj (dropped.symm.trans ((found middle').mpr same))
            exact good

theorem attemptMiddle (s : Nat) (attempt : InstanceId) (low : s < usize) :
    Middle (print s ++ '.' :: instanceText attempt) := by
  unfold Middle
  rw [splitSome (printDotless s)]
  refine ⟨?_, instanceLength attempt, instanceHex attempt⟩
  rw [parseU64, parsePrint low]
  rfl

theorem attemptPartial (base : List Char) {s : Nat} (attempt : InstanceId) (low : s < usize) :
    isPartialSegmentName (makeAttemptPath base s attempt) base = true := by
  rw [partialText]
  refine .inr ?_
  unfold makeAttemptPath makeChannelFilePath
  by_cases first : s = 0
  · rw [if_pos first]
    refine ⟨instanceText attempt, rfl, ?_⟩
    unfold Middle
    rw [splitNone (instanceDotless attempt)]
    exact .inr ⟨instanceLength attempt, instanceHex attempt⟩
  · rw [if_neg first]
    exact ⟨print s ++ '.' :: instanceText attempt, by simp, attemptMiddle s attempt low⟩

theorem finalNotPartial (base : List Char) (s : Nat) :
    isPartialSegmentName (makeChannelFilePath base s) base = false := by
  rw [Bool.eq_false_iff, Ne, partialText]
  unfold makeChannelFilePath
  by_cases first : s = 0
  · rw [if_pos first]
    rintro (same | ⟨middle, same, _⟩)
    all_goals exact absurd same (by simp)
  · rw [if_neg first]
    rintro (same | ⟨middle, same, _⟩)
    · have digits := (List.cons.inj (List.append_cancel_left same)).2
      have letter : 'p' ∈ print s := by
        rw [digits]
        decide
      exact absurd (printDigits letter) (by decide)
    · have digits := (List.cons.inj (List.append_cancel_left same)).2
      have dot : '.' ∈ print s := by
        rw [digits]
        simp
      exact printDotless s dot

end Partial

section Scans

variable {base : List Char} {names : List Name}

theorem listedMem {s : Nat} : s ∈ findAllSequences base names ↔ ∃ name ∈ names, sequenceOf base name = some s := by
  rw [findAllSequences, List.mem_mergeSort, List.mem_filterMap]

theorem listedAscending : (findAllSequences base names).Pairwise (· ≤ ·) := by
  have sorted : (findAllSequences base names).Pairwise fun a b => decide (a ≤ b) :=
    List.pairwise_mergeSort (by simp; omega) (by simp; omega) (names.filterMap (sequenceOf base))
  exact sorted.imp fun le => of_decide_eq_true le

theorem listedNodup : (findAllSequences base names).Nodup ↔ (names.filterMap (sequenceOf base)).Nodup :=
  (List.mergeSort_perm _ _).nodup_iff

/- No two entries stand for one sequence. -/
theorem listedOnce (distinct : names.Nodup) : (findAllSequences base names).Nodup ↔
    ∀ name ∈ names, ∀ name' ∈ names, ∀ s, sequenceOf base name = some s → sequenceOf base name' = some s → name = name' := by
  rw [listedNodup, List.Nodup, List.pairwise_filterMap]
  constructor
  · intro once name mem name' mem' s listed listed'
    have symmetric : Std.Symm fun name name' => ∀ s, sequenceOf base name = some s →
        ∀ s', sequenceOf base name' = some s' → s ≠ s' :=
      ⟨fun _ _ apart s listed s' listed' => (apart s' listed' s listed).symm⟩
    by_contra other
    exact once.forall mem mem' other s listed s listed' rfl
  · intro once
    refine distinct.imp_of_mem ?_
    rintro name name' mem mem' other s listed s' listed' rfl
    exact other (once name mem name' mem' s listed listed')

/- An entry that the scan takes for a file of a sequence has its name, if no plus or zero stands in front. -/
theorem plainName {name : Name} {s : Nat} (listed : sequenceOf base name = some s)
    (plain : ∀ t, name = .text (base ++ '.' :: t) → (parseU64 t).isSome → t.head? ≠ some '+' ∧ t.head? ≠ some '0') :
    name = .text (makeChannelFilePath base s) := by
  cases name with
  | raw bytes => cases listed
  | text chars =>
    unfold makeChannelFilePath
    rcases sequenceOfText.mp listed with ⟨rfl, rfl⟩ | ⟨t, rfl, parsed⟩
    · rfl
    · obtain ⟨plus, zero⟩ := plain t rfl (by rw [parsed]; rfl)
      obtain rfl := parseCanonical parsed plus zero
      rw [if_neg]
      rintro rfl
      exact zero rfl

theorem ownTail {t : List Char} {s : Nat} (own : makeChannelFilePath base s = base ++ '.' :: t) :
    t.head? ≠ some '+' ∧ t.head? ≠ some '0' := by
  unfold makeChannelFilePath at own
  by_cases first : s = 0
  · rw [if_pos first] at own
    exact absurd own (by simp)
  · rw [if_neg first] at own
    rw [← (List.cons.inj (List.append_cancel_left own)).2]
    exact ⟨printPlus s, printLeading (Nat.pos_of_ne_zero first)⟩

/-- For every base name and every directory. -/
theorem scanExactly (base : List Char) (names : List Name) (distinct : names.Nodup) :
    ((findAllSequences base names).Pairwise (· < ·) ∧
      (∀ s, s ∈ findAllSequences base names ↔ s < usize ∧ Name.text (makeChannelFilePath base s) ∈ names) ∧
      (∀ s attempt, s < usize → sequenceOf base (.text (makeAttemptPath base s attempt)) = none) ∧
      (∀ s attempt, s < usize → isPartialSegmentName (makeAttemptPath base s attempt) base = true) ∧
      (∀ s, s < usize → isPartialSegmentName (makeChannelFilePath base s) base = false)) ↔
    ∀ t, Name.text (base ++ '.' :: t) ∈ names → (parseU64 t).isSome → t.head? ≠ some '+' ∧ t.head? ≠ some '0' := by
  constructor
  · rintro ⟨ascending, scanned, _⟩ t mem parsed
    obtain ⟨s, parsed⟩ := Option.isSome_iff_exists.mp parsed
    have listed : sequenceOf base (.text (base ++ '.' :: t)) = some s := sequenceOfText.mpr (.inr ⟨t, rfl, parsed⟩)
    obtain ⟨low, own⟩ := (scanned s).mp (listedMem.mpr ⟨_, mem, listed⟩)
    have same := (listedOnce distinct).mp (ascending.imp Nat.ne_of_lt) _ own _ mem s (ownSequence low) listed
    exact ownTail (Name.text.inj same)
  · intro plain
    have named {name : Name} (mem : name ∈ names) {s : Nat} (listed : sequenceOf base name = some s) :
        name = .text (makeChannelFilePath base s) :=
      plainName listed (by rintro t rfl parsed; exact plain t mem parsed)
    have once : (findAllSequences base names).Nodup := by
      rw [listedOnce distinct]
      intro name mem name' mem' s listed listed'
      rw [named mem listed, named mem' listed']
    refine ⟨?_, ?_, fun s attempt _ => attemptUnlisted base s attempt, fun s attempt low => attemptPartial base attempt low,
      fun s _ => finalNotPartial base s⟩
    · exact (listedAscending.and once).imp fun both => Nat.lt_of_le_of_ne both.1 both.2
    · intro s
      rw [listedMem]
      constructor
      · rintro ⟨name, mem, listed⟩
        exact ⟨sequenceLow listed, named mem listed ▸ mem⟩
      · rintro ⟨low, mem⟩
        exact ⟨_, mem, ownSequence low⟩

/- A file numbered from one with a leading zero is listed, and is not the file of any sequence. -/
theorem strayListed :
    ¬ ∀ s, s ∈ findAllSequences "log".toList [.text "log.01".toList] ↔
      s < usize ∧ Name.text (makeChannelFilePath "log".toList s) ∈ [Name.text "log.01".toList] := by
  intro exactly
  have one := (exactly 1).mp (listedMem.mpr ⟨.text "log.01".toList, by decide, by decide⟩)
  exact absurd one.2 (by decide)

theorem scanExactlySmall :
    (findAllSequences "log".toList [.text "log.12".toList, .text "log".toList, .raw [255]]).Pairwise (· < ·) := by
  refine ((scanExactly _ _ (by decide)).mpr ?_).1
  intro t mem _
  have tail : "log".toList ++ '.' :: t = "log.12".toList ∨ "log".toList ++ '.' :: t = "log".toList := by
    simpa using mem
  rcases tail with same | same
  · change "log.".toList ++ t = "log.".toList ++ ['1', '2'] at same
    obtain rfl := List.append_cancel_left same
    decide
  · exact absurd same (by simp)

end Scans
end Xchannel.FileNames
