import Xchannel.FileNames
import Xchannel.Storage

/-! A directory by its names, any files among them, and the loop that looks for the newest published
segment of one base name in it. -/
namespace Xchannel.Directories
open ByteMemory Format Storage Decimal FileNames

/-- `names` is the listing: every entry with the inode it leads to. -/
structure Directory where
  files : Nat → File
  fresh : Nat
  names : List (Name × Nat)
  distinct : (names.map Prod.fst).Nodup

namespace Directory

def listing (dir : Directory) : List Name := dir.names.map Prod.fst
def lookup (dir : Directory) (name : Name) : Option Nat := (dir.names.find? fun e => e.1 = name).map Prod.snd

def retain (dir : Directory) (keep : Name → Bool) : Directory :=
  { dir with
    names := dir.names.filter fun e => keep e.1
    distinct := dir.distinct.sublist (List.filter_sublist.map _) }

def unlink (dir : Directory) (name : Name) : Directory := dir.retain (· ≠ name)

end Directory

def findLatestSequence (base : List Char) (dir : Directory) : Nat := (findAllSequences base dir.listing).getLast?.getD 0

/- The checks of a newest segment, once it is long enough for its headers. -/
def tailPublished (m : Mem) (seq : Nat) : Except IoError Bool := do
  validateChannelHeader m (regionSizeField m) seq
  let _ ← validateV4Prefix m
  isPublished m

/-- How a round of the loop ends: with what is returned, or with the directory of the next round. -/
inductive Round where
  | done (result : Except IoError Nat) | again (dir : Directory)

/- One round of `discard_unpublished_tail`. -/
def discardRound (base : List Char) (dir : Directory) : Round :=
  let seq := findLatestSequence base dir
  if seq = 0 then .done (.ok 0)
  else match dir.lookup (.text (makeChannelFilePath base seq)) with
    | none => .again dir
    | some ino =>
      if (dir.files ino).len < firstRecord then .done (.ok seq)
      else match tailPublished (dir.files ino).data seq with
        | .error e => .done (.error e)
        | .ok true => .done (.ok seq)
        | .ok false => .again (dir.unlink (.text (makeChannelFilePath base seq)))

/-- The directories in which the rounds of the loop begin. -/
inductive Reaches (base : List Char) : Directory → Directory → Prop where
  | first (dir : Directory) : Reaches base dir dir
  | next {dir next last : Directory} (round : discardRound base dir = .again next) (rest : Reaches base next last) :
      Reaches base dir last

/-- The loop returns. -/
def Ends (base : List Char) (dir : Directory) : Prop :=
  ∃ last result, Reaches base dir last ∧ discardRound base last = .done result

/-- The loop does not remove the file at `seq`: it is short, refused or published. -/
def Stays (dir : Directory) (base : List Char) (seq : Nat) : Prop :=
  ∃ ino, dir.lookup (.text (makeChannelFilePath base seq)) = some ino ∧
    ((dir.files ino).len < firstRecord ∨ tailPublished (dir.files ino).data seq ≠ .ok false)

/-- A name that the scan takes for `seq`, with a plus or a zero in front of its number. -/
def Stray (dir : Directory) (base : List Char) (seq : Nat) : Prop :=
  ∃ t, Name.text (base ++ '.' :: t) ∈ dir.listing ∧ parseU64 t = some seq ∧ (t.head? = some '+' ∨ t.head? = some '0')

section Listings

variable {base : List Char} {dir : Directory} {name : Name}

theorem lookupListed {ino : Nat} (found : dir.lookup name = some ino) : name ∈ dir.listing := by
  obtain ⟨e, entry, _⟩ := Option.map_eq_some_iff.mp found
  have named := List.find?_some entry
  rw [decide_eq_true_eq] at named
  exact List.mem_map.mpr ⟨e, List.mem_of_find?_eq_some entry, named⟩

theorem listedLookup (mem : name ∈ dir.listing) : ∃ ino, dir.lookup name = some ino := by
  obtain ⟨e, mem, named⟩ := List.mem_map.mp mem
  have found : (dir.names.find? fun e => e.1 = name).isSome := by
    rw [List.find?_isSome]
    exact ⟨e, mem, by simpa using named⟩
  obtain ⟨first, found⟩ := Option.isSome_iff_exists.mp found
  exact ⟨first.2, by rw [Directory.lookup, found]; rfl⟩

theorem retainListing (keep : Name → Bool) : (dir.retain keep).listing = dir.listing.filter keep := by
  show (dir.names.filter fun e => keep e.1).map Prod.fst = (dir.names.map Prod.fst).filter keep
  rw [List.filter_map]
  rfl

theorem retainLookup {keep : Name → Bool} (kept : keep name = true) : (dir.retain keep).lookup name = dir.lookup name := by
  show ((dir.names.filter fun e => keep e.1).find? fun e => e.1 = name).map Prod.snd = _
  rw [List.find?_filter, Directory.lookup]
  congr 2
  funext e
  by_cases same : e.1 = name
  · simp [same, kept]
  · simp [same]

theorem latestListed (positive : findLatestSequence base dir ≠ 0) :
    ∃ name ∈ dir.listing, sequenceOf base name = some (findLatestSequence base dir) := by
  rw [← listedMem]
  unfold findLatestSequence at positive ⊢
  cases last : (findAllSequences base dir.listing).getLast? with
  | none =>
    rw [last] at positive
    exact absurd rfl positive
  | some s => exact List.mem_of_getLast? last

theorem latestNewest {s : Nat} (mem : name ∈ dir.listing) (listed : sequenceOf base name = some s) :
    s ≤ findLatestSequence base dir := by
  have mem := listedMem.mpr ⟨name, mem, listed⟩
  have sorted : (findAllSequences base dir.listing).Pairwise (· ≤ ·) := listedAscending
  unfold findLatestSequence
  cases last : (findAllSequences base dir.listing).getLast? with
  | none =>
    rw [List.getLast?_eq_none_iff.mp last] at mem
    cases mem
  | some newest =>
    obtain ⟨front, split⟩ := List.getLast?_eq_some_iff.mp last
    rw [split, List.pairwise_append] at sorted
    rw [split] at mem
    rcases List.mem_append.mp mem with before | same
    · exact sorted.2.2 s before newest List.mem_cons_self
    · rw [List.mem_singleton.mp same]
      rfl

end Listings

section Rounds

variable {base : List Char} {dir next : Directory}

/- A round that goes on found no file under the newest sequence's own name, or removed it. -/
theorem roundCases (round : discardRound base dir = .again next) :
    findLatestSequence base dir ≠ 0 ∧
      (dir.lookup (.text (makeChannelFilePath base (findLatestSequence base dir))) = none ∧ next = dir ∨
        Name.text (makeChannelFilePath base (findLatestSequence base dir)) ∈ dir.listing ∧
          ¬ Stays dir base (findLatestSequence base dir) ∧
          next = dir.unlink (.text (makeChannelFilePath base (findLatestSequence base dir)))) := by
  unfold discardRound at round
  by_cases first : findLatestSequence base dir = 0
  · rw [if_pos first] at round
    cases round
  · rw [if_neg first] at round
    refine ⟨first, ?_⟩
    cases found : dir.lookup (.text (makeChannelFilePath base (findLatestSequence base dir))) with
    | none =>
      rw [found] at round
      exact .inl ⟨rfl, (Round.again.inj round).symm⟩
    | some ino =>
      rw [found] at round
      by_cases short : (dir.files ino).len < firstRecord
      · simp only [if_pos short] at round
        cases round
      · simp only [if_neg short] at round
        cases checked : tailPublished (dir.files ino).data (findLatestSequence base dir) with
        | error e =>
          rw [checked] at round
          cases round
        | ok published =>
          rw [checked] at round
          cases published with
          | true => cases round
          | false =>
            refine .inr ⟨lookupListed found, ?_, (Round.again.inj round).symm⟩
            rintro ⟨ino', found', stays⟩
            obtain rfl := Option.some.inj (found.symm.trans found')
            rcases stays with low | other
            · exact short low
            · exact other checked

/- Only a newest segment that stays ends the loop, past the initial file. -/
theorem leavesGoes (positive : findLatestSequence base dir ≠ 0) (leaves : ¬ Stays dir base (findLatestSequence base dir)) :
    ∃ next, discardRound base dir = .again next := by
  unfold discardRound
  rw [if_neg positive]
  cases found : dir.lookup (.text (makeChannelFilePath base (findLatestSequence base dir))) with
  | none => exact ⟨dir, rfl⟩
  | some ino =>
    have long : ¬ (dir.files ino).len < firstRecord := fun short => leaves ⟨ino, found, .inl short⟩
    have checked : tailPublished (dir.files ino).data (findLatestSequence base dir) = .ok false := by
      by_contra other
      exact leaves ⟨ino, found, .inr other⟩
    simp only [if_neg long, checked]
    exact ⟨_, rfl⟩

/-- Every stray number has a segment that stays at it or past it. -/
def Covered (base : List Char) (dir : Directory) : Prop :=
  ∀ seq, 0 < seq → Stray dir base seq → ∃ newer, seq ≤ newer ∧ newer < usize ∧ Stays dir base newer

theorem strayUnlink {seq s : Nat} (stray : Stray (dir.unlink (.text (makeChannelFilePath base s))) base seq) :
    Stray dir base seq := by
  obtain ⟨t, mem, parsed, front⟩ := stray
  refine ⟨t, ?_, parsed, front⟩
  rw [Directory.unlink, retainListing] at mem
  exact (List.mem_filter.mp mem).1

theorem strayKept {seq s : Nat} (stray : Stray dir base seq) :
    Stray (dir.unlink (.text (makeChannelFilePath base s))) base seq := by
  obtain ⟨t, mem, parsed, front⟩ := stray
  refine ⟨t, ?_, parsed, front⟩
  rw [Directory.unlink, retainListing, List.mem_filter, decide_eq_true_eq]
  refine ⟨mem, fun own => ?_⟩
  have plain := ownTail (Name.text.inj own).symm
  rcases front with plus | zero
  · exact plain.1 plus
  · exact plain.2 zero

theorem ownInjective {s s' : Nat} (low : s < usize) (low' : s' < usize)
    (same : makeChannelFilePath base s = makeChannelFilePath base s') : s = s' := by
  have one : sequenceOf base (.text (makeChannelFilePath base s)) = some s := ownSequence low
  rw [same, ownSequence low'] at one
  exact (Option.some.inj one).symm

/- A round keeps what it does not remove. -/
theorem staysUnlink {seq s : Nat} (other : makeChannelFilePath base s ≠ makeChannelFilePath base seq) :
    Stays (dir.unlink (.text (makeChannelFilePath base s))) base seq ↔ Stays dir base seq := by
  have same : (dir.unlink (.text (makeChannelFilePath base s))).lookup (.text (makeChannelFilePath base seq)) =
      dir.lookup (.text (makeChannelFilePath base seq)) := by
    refine retainLookup ?_
    rw [decide_eq_true_eq]
    exact fun own => other (Name.text.inj own).symm
  unfold Stays
  rw [same]
  rfl

theorem latestLow (positive : findLatestSequence base dir ≠ 0) : findLatestSequence base dir < usize := by
  obtain ⟨_, _, listed⟩ := latestListed positive
  exact sequenceLow listed

theorem roundRemoves (covered : Covered base dir) (round : discardRound base dir = .again next) :
    Name.text (makeChannelFilePath base (findLatestSequence base dir)) ∈ dir.listing ∧
      next = dir.unlink (.text (makeChannelFilePath base (findLatestSequence base dir))) ∧ Covered base next := by
  obtain ⟨newest, ⟨absent, _⟩ | ⟨present, leaves, rfl⟩⟩ := roundCases round
  · obtain ⟨name, mem, listed⟩ := latestListed newest
    have stray : Stray dir base (findLatestSequence base dir) := by
      by_contra plain
      have own := plainName listed (by
        rintro t rfl parsed
        obtain ⟨s, parsed⟩ := Option.isSome_iff_exists.mp parsed
        have same : sequenceOf base (.text (base ++ '.' :: t)) = some s := sequenceOfText.mpr (.inr ⟨t, rfl, parsed⟩)
        rw [listed] at same
        obtain rfl := Option.some.inj same
        exact ⟨fun plus => plain ⟨t, mem, parsed, .inl plus⟩, fun zero => plain ⟨t, mem, parsed, .inr zero⟩⟩)
      obtain ⟨ino, found⟩ := listedLookup mem
      rw [own, absent] at found
      cases found
    obtain ⟨newer, le, low, ino, found, _⟩ := covered _ (Nat.pos_of_ne_zero newest) stray
    have upper := latestNewest (lookupListed found) (ownSequence low)
    obtain rfl := Nat.le_antisymm le upper
    rw [absent] at found
    cases found
  · refine ⟨present, rfl, fun seq positive stray => ?_⟩
    obtain ⟨newer, le, low, stays⟩ := covered seq positive (strayUnlink stray)
    refine ⟨newer, le, low, (staysUnlink fun same => leaves ?_).mpr stays⟩
    rw [ownInjective (latestLow newest) low same]
    exact stays

/- Without one, a round leads to another. -/
theorem strayGoes {seq : Nat} (positive : 0 < seq) (stray : Stray dir base seq)
    (none : ∀ newer, seq ≤ newer → newer < usize → ¬ Stays dir base newer) :
    ∃ next, discardRound base dir = .again next ∧ Stray next base seq ∧
      ∀ newer, seq ≤ newer → newer < usize → ¬ Stays next base newer := by
  have newest : seq ≤ findLatestSequence base dir := by
    obtain ⟨t, mem, parsed, _⟩ := stray
    exact latestNewest mem (sequenceOfText.mpr (.inr ⟨t, rfl, parsed⟩))
  have beyond : findLatestSequence base dir ≠ 0 := by omega
  obtain ⟨next, round⟩ := leavesGoes beyond (none _ newest (latestLow beyond))
  refine ⟨next, round, ?_⟩
  obtain ⟨_, ⟨_, rfl⟩ | ⟨_, _, rfl⟩⟩ := roundCases round
  · exact ⟨stray, none⟩
  · refine ⟨strayKept stray, fun newer le low => ?_⟩
    rintro ⟨ino, found, stays⟩
    have other : makeChannelFilePath base (findLatestSequence base dir) ≠ makeChannelFilePath base newer := by
      intro same
      have mem := lookupListed found
      rw [Directory.unlink, retainListing, List.mem_filter, decide_eq_true_eq] at mem
      exact mem.2 (by rw [same])
    exact none newer le low ((staysUnlink other).mp ⟨ino, found, stays⟩)

theorem strayForever {seq : Nat} (positive : 0 < seq) {last : Directory} (reaches : Reaches base dir last)
    (stray : Stray dir base seq) (none : ∀ newer, seq ≤ newer → newer < usize → ¬ Stays dir base newer) :
    ∃ next, discardRound base last = .again next := by
  induction reaches with
  | first dir =>
    obtain ⟨next, round, _⟩ := strayGoes positive stray none
    exact ⟨next, round⟩
  | next round _ ih =>
    obtain ⟨next, round', stray, none⟩ := strayGoes positive stray none
    obtain rfl := Round.again.inj (round.symm.trans round')
    exact ih stray none

theorem reachesCovered {last : Directory} (reaches : Reaches base dir last) (covered : Covered base dir) : Covered base last := by
  induction reaches with
  | first => exact covered
  | next round _ ih => exact ih (roundRemoves covered round).2.2

/- The removed names measure the rounds. -/
theorem coveredEnds (n : Nat) (dir : Directory) (size : dir.listing.length = n) (covered : Covered base dir) : Ends base dir := by
  induction n using Nat.strongRecOn generalizing dir with
  | ind n ih =>
    cases round : discardRound base dir with
    | done result => exact ⟨dir, result, .first dir, round⟩
    | again next =>
      obtain ⟨present, rfl, covered⟩ := roundRemoves covered round
      have fewer : (dir.unlink (.text (makeChannelFilePath base (findLatestSequence base dir)))).listing.length < n := by
        rw [Directory.unlink, retainListing, ← size]
        exact List.length_filter_lt_length_iff_exists.mpr ⟨_, present, by simp⟩
      obtain ⟨last, result, reaches, ended⟩ := ih _ fewer _ rfl covered
      exact ⟨last, result, .next round reaches, ended⟩

end Rounds

/-- For every base name and every directory. -/
theorem discardEndsExactly (base : List Char) (dir : Directory) :
    (Ends base dir ∧ ∀ later next, Reaches base dir later → discardRound base later = .again next →
      (∀ name ∈ next.listing, name ∈ later.listing) ∧
        ∃ name ∈ later.listing, (sequenceOf base name).isSome ∧ name ∉ next.listing) ↔
    ∀ seq, 0 < seq → Stray dir base seq → ∃ newer, seq ≤ newer ∧ newer < usize ∧ Stays dir base newer := by
  constructor
  · rintro ⟨⟨last, result, reaches, ended⟩, _⟩ seq positive stray
    by_contra uncovered
    obtain ⟨next, round⟩ := strayForever positive reaches stray fun newer le low stays =>
      uncovered ⟨newer, le, low, stays⟩
    rw [ended] at round
    cases round
  · intro covered
    refine ⟨coveredEnds _ dir rfl covered, fun later next reaches round => ?_⟩
    obtain ⟨newest, _⟩ := roundCases round
    obtain ⟨present, rfl, _⟩ := roundRemoves (reachesCovered reaches covered) round
    rw [Directory.unlink, retainListing]
    refine ⟨fun name mem => (List.mem_filter.mp mem).1, _, present, ?_, ?_⟩
    · rw [ownSequence (latestLow newest)]
      rfl
    · rw [List.mem_filter]
      rintro ⟨_, kept⟩
      simp at kept

/-- A directory whose only entry is numbered seven, with a zero in front. -/
def strayDirectory : Directory := ⟨fun _ => ⟨0, fun _ => 0⟩, 1, [(.text "log.07".toList, 0)], by decide⟩

/- The loop never returns on it. -/
theorem strayEndless : ¬ Ends "log".toList strayDirectory := by
  rintro ⟨last, result, reaches, ended⟩
  have stray : Stray strayDirectory "log".toList 7 := ⟨['0', '7'], by decide, by decide, .inr (by decide)⟩
  obtain ⟨next, round⟩ := strayForever (by decide) reaches stray (by
    rintro newer _ low ⟨ino, found, _⟩
    have mem := lookupListed found
    exact (@ownTail "log".toList ['0', '7'] newer (Name.text.inj (List.mem_singleton.mp mem))).2 rfl)
  rw [ended] at round
  cases round

end Xchannel.Directories
