import Xchannel.Directories
import Xchannel.Footprints
import Xchannel.ReaderCalls

/-! Channels side by side in one directory: a channel's programs run on the view of the directory that its
names give, and what they do to that view they do to the directory. -/
namespace Xchannel.Neighbours
open ByteMemory Format Storage CrashProgram FileNames Directories WriterCalls WriterOpen Sessions Footprints Observation ReaderOpen ReaderCalls ChannelLog

/-- The names that the scan, the sweep or the clean-up of `base` take for its own. -/
def recognised (base : List Char) (name : Name) : Bool :=
  (sequenceOf base name).isSome ||
    match name.toStr with
    | none => false
    | some chars => isPartialSegmentName chars base

def finalName (base : List Char) (sequence : Nat) : Name := .text (makeChannelFilePath base sequence)
def attemptName (base : List Char) (sequence : Nat) (fileInstance : InstanceId) : Name :=
  .text (makeAttemptPath base sequence fileInstance)

/-- The names that a channel gives its files. -/
def Made (base : List Char) (name : Name) : Prop :=
  (∃ s, s < usize ∧ name = finalName base s) ∨ ∃ s i, s < usize ∧ name = attemptName base s i

/- One directory operation of a channel on the directory it shares. -/
def enter (dir : Directory) (name : Name) (ino : Nat) : Directory :=
  if present : name ∈ dir.listing then dir
  else { dir with
    names := dir.names ++ [(name, ino)]
    distinct := by
      rw [List.map_append, List.nodup_append]
      refine ⟨dir.distinct, by simp, ?_⟩
      rintro a mem b last rfl
      rw [List.map_singleton, List.mem_singleton] at last
      exact present (by rwa [last] at mem) }

def setFile (dir : Directory) (ino : Nat) (f : File) : Directory :=
  { dir with files := fun i => if i = ino then f else dir.files i }

/- The next inode, with an empty file. -/
def allocate (dir : Directory) : Directory := { setFile dir dir.fresh ⟨0, fun _ => 0⟩ with fresh := dir.fresh + 1 }

def applyOp (base : List Char) (dir : Directory) : Op → Directory
  | .store ino off bytes => setFile dir ino { dir.files ino with data := write (dir.files ino).data off bytes }
  | .commit ino off => setFile dir ino { dir.files ino with data := write (dir.files ino).data off [1] }
  | .publish ino => setFile dir ino { dir.files ino with data := write (dir.files ino).data 192 [1] }
  | .setLen ino len =>
      setFile dir ino ⟨len, fun a => if a < len ∧ a < (dir.files ino).len then (dir.files ino).data a else 0⟩
  | .create sequence fileInstance => enter (allocate dir) (attemptName base sequence fileInstance) dir.fresh
  | .install sequence fileInstance =>
      match dir.lookup (attemptName base sequence fileInstance) with
      | none => dir
      | some ino =>
        enter ((dir.unlink (attemptName base sequence fileInstance)).unlink (finalName base sequence)) (finalName base sequence) ino
  | .unlink sequence => dir.unlink (finalName base sequence)
  | .unlinkAttempt sequence fileInstance => dir.unlink (attemptName base sequence fileInstance)

section Lookups
variable {dir : Directory} {name other : Name} {ino : Nat}

theorem unlinkSame : (dir.unlink name).lookup name = none := by
  cases found : (dir.unlink name).lookup name with
  | none => rfl
  | some i =>
    have mem := lookupListed found
    rw [Directory.unlink, retainListing, List.mem_filter, decide_eq_true_eq] at mem
    exact absurd rfl mem.2

theorem unlinkOther (differ : name ≠ other) : (dir.unlink other).lookup name = dir.lookup name :=
  retainLookup (by rwa [decide_eq_true_eq])

theorem unlinkLookup : (dir.unlink other).lookup name = if name = other then none else dir.lookup name := by
  split
  next same => rw [same, unlinkSame]
  next differ => exact unlinkOther differ

theorem absentLookup : name ∉ dir.listing ↔ dir.lookup name = none := by
  constructor
  · intro absent
    cases found : dir.lookup name with
    | none => rfl
    | some i => exact absurd (lookupListed found) absent
  · intro none mem
    obtain ⟨i, found⟩ := listedLookup mem
    rw [none] at found
    cases found

theorem entryLookup {e : Name × Nat} (mem : e ∈ dir.names) : dir.lookup e.1 = some e.2 := by
  have held : (dir.names.find? fun e' => e'.1 = e.1).isSome := by
    rw [List.find?_isSome]
    exact ⟨e, mem, by simp⟩
  obtain ⟨first, found⟩ := Option.isSome_iff_exists.mp held
  have named := List.find?_some found
  rw [decide_eq_true_eq] at named
  have same : first = e := List.inj_on_of_nodup_map dir.distinct (List.mem_of_find?_eq_some found) mem named
  rw [Directory.lookup, found, same]
  rfl

theorem lookupEntry (found : dir.lookup name = some ino) : (name, ino) ∈ dir.names := by
  obtain ⟨e, entry, same⟩ := Option.map_eq_some_iff.mp found
  have named := List.find?_some entry
  rw [decide_eq_true_eq] at named
  rw [← named, ← same]
  exact List.mem_of_find?_eq_some entry

theorem enterLookup (absent : dir.lookup other = none) :
    (enter dir other ino).lookup name = if name = other then some ino else dir.lookup name := by
  unfold enter
  rw [dif_neg (absentLookup.mpr absent)]
  show ((dir.names ++ [(other, ino)]).find? fun e => e.1 = name).map Prod.snd = _
  rw [List.find?_append]
  by_cases same : name = other
  · rw [if_pos same, same]
    have none : dir.names.find? (fun e => e.1 = other) = none := Option.map_eq_none_iff.mp absent
    simp [none]
  · rw [if_neg same, List.find?_singleton, if_neg (by simpa using Ne.symm same), Option.or_none]
    rfl

end Lookups

section Names
variable {base : List Char} {s s' : Nat} {i i' : InstanceId}

theorem digitInjective : ∀ m < 16, ∀ n < 16, Nat.digitChar m = Nat.digitChar n → m = n := by decide

theorem hexInjective {xs ys : List UInt8} (same : xs.flatMap hexDigits = ys.flatMap hexDigits) : xs = ys := by
  induction xs generalizing ys with
  | nil =>
    cases ys with
    | nil => rfl
    | cons y ys => simp [hexDigits] at same
  | cons x xs ih =>
    cases ys with
    | nil => simp [hexDigits] at same
    | cons y ys =>
      simp only [List.flatMap_cons, hexDigits, List.cons_append, List.nil_append, List.cons.injEq] at same
      obtain ⟨high, low, rest⟩ := same
      have high := digitInjective _ (by have := x.toNat_lt; omega) _ (by have := y.toNat_lt; omega) high
      have low := digitInjective _ (Nat.mod_lt _ (by decide)) _ (Nat.mod_lt _ (by decide)) low
      have whole : x = y := UInt8.toNat_inj.mp (by omega)
      rw [whole, ih rest]

theorem instanceInjective (same : instanceText i = instanceText i') : i = i' := by
  have bytes := congrArg ofLE (hexInjective same)
  rw [ofLEToLE, ofLEToLE, Nat.mod_eq_of_lt (by have := i.isLt; omega), Nat.mod_eq_of_lt (by have := i'.isLt; omega)] at bytes
  exact BitVec.eq_of_toNat_eq bytes

theorem finalInjective (low : s < usize) (low' : s' < usize) (same : finalName base s = finalName base s') : s = s' :=
  ownInjective low low' (Name.text.inj same)

/- The instance and the suffix have one length, so they come off the end. -/
theorem attemptInjective (low : s < usize) (low' : s' < usize) (same : attemptName base s i = attemptName base s' i') :
    s = s' ∧ i = i' := by
  obtain ⟨front, tail⟩ := List.append_inj' (Name.text.inj same) (by simp [instanceLength])
  have text := (List.append_inj' (List.cons.inj tail).2 rfl).1
  exact ⟨ownInjective low low' front, instanceInjective text⟩

theorem finalAttempt (low : s < usize) : finalName base s ≠ attemptName base s' i := by
  intro same
  have listed : sequenceOf base (finalName base s) = some s := ownSequence low
  rw [same, attemptName, attemptUnlisted] at listed
  cases listed

theorem finalRecognised (low : s < usize) : recognised base (finalName base s) = true := by
  unfold recognised finalName
  rw [ownSequence low]
  rfl

theorem attemptRecognised (low : s < usize) : recognised base (attemptName base s i) = true := by
  unfold recognised attemptName
  rw [Bool.or_eq_true]
  exact .inr (attemptPartial base i low)

theorem madeRecognised {name : Name} (made : Made base name) : recognised base name = true := by
  rcases made with ⟨s, low, rfl⟩ | ⟨s, i, low, rfl⟩
  · exact finalRecognised low
  · exact attemptRecognised low

end Names

/-- `d` is what the names of `base` show of the directory; `own` are the files they lead to, or will. -/
structure Views (own : Nat → Prop) (base : List Char) (dir : Directory) (d : Disk) : Prop where
  owned : Owned own d
  files : ∀ i, own i → d.files i = dir.files i
  fresh : d.fresh = dir.fresh
  segment : ∀ s, s < usize → d.segments s = dir.lookup (finalName base s)
  listed : ∀ s i, d.segments s = some i → s < d.bound
  attempt : ∀ s i, s < usize → (d.findAttempt s i).map Attempt.ino = dir.lookup (attemptName base s i)
  tidy : ∀ name ∈ dir.listing, recognised base name = true → Made base name

section Steps
variable {own : Nat → Prop} {base : List Char} {dir : Directory} {d : Disk}

theorem findAppend (d : Disk) (x : Attempt) (s : Nat) (i : InstanceId) :
    ({ d with attempts := d.attempts ++ [x] } : Disk).findAttempt s i =
      (d.findAttempt s i).or (if x.sequence = s ∧ x.fileInstance = i then some x else none) := by
  show (d.attempts ++ [x]).find? _ = _
  rw [List.find?_append, List.find?_singleton]
  simp only [decide_eq_true_eq]
  rfl

theorem findDropped (d : Disk) (s s' : Nat) (i i' : InstanceId) :
    ({ d with attempts := d.dropAttempt s' i' } : Disk).findAttempt s i =
      if s = s' ∧ i = i' then none else d.findAttempt s i := by
  show (d.attempts.filter _).find? _ = _
  rw [List.find?_filter]
  by_cases same : s = s' ∧ i = i'
  · rw [if_pos same, List.find?_eq_none]
    intro a _
    rw [same.1, same.2]
    by_cases this : a.sequence = s' ∧ a.fileInstance = i' <;> simp [this]
  · rw [if_neg same]
    unfold Disk.findAttempt
    congr 1
    funext a
    by_cases this : a.sequence = s ∧ a.fileInstance = i
    · have other : ¬ (a.sequence = s' ∧ a.fileInstance = i') := by
        rw [this.1, this.2]
        exact same
      simp [this, same]
    · simp [this]

/- A change of one of the files. -/
theorem viewsFile (views : Views own base dir d) {ino : Nat} (mine : own ino) (change : File → File) :
    Views own base (setFile dir ino (change (dir.files ino))) (d.setFile ino (change (d.files ino))) := by
  refine ⟨⟨views.owned.segment, views.owned.attempt, views.owned.fresh⟩, ?_, views.fresh, views.segment, views.listed,
    views.attempt, views.tidy⟩
  intro i own
  show (if i = ino then change (d.files ino) else d.files i) = if i = ino then change (dir.files ino) else dir.files i
  rw [views.files i own, views.files ino mine]

theorem tidyUnlink (tidy : ∀ name ∈ dir.listing, recognised base name = true → Made base name) (other : Name) :
    ∀ name ∈ (dir.unlink other).listing, recognised base name = true → Made base name := by
  intro name mem
  rw [Directory.unlink, retainListing, List.mem_filter] at mem
  exact tidy name mem.1

theorem enterListing {name other : Name} {ino : Nat} (mem : name ∈ (enter dir other ino).listing) :
    name ∈ dir.listing ∨ name = other := by
  unfold enter at mem
  split at mem
  · exact .inl mem
  · rw [Directory.listing, List.map_append, List.mem_append] at mem
    exact mem.imp_right fun last => List.mem_singleton.mp last

theorem tidyEnter {other : Name} {ino : Nat} (tidy : ∀ name ∈ dir.listing, recognised base name = true → Made base name)
    (made : Made base other) : ∀ name ∈ (enter dir other ino).listing, recognised base name = true → Made base name := by
  intro name mem known
  rcases enterListing mem with before | rfl
  · exact tidy name before known
  · exact made

theorem enterFiles (other : Name) (ino : Nat) : (enter dir other ino).files = dir.files ∧ (enter dir other ino).fresh = dir.fresh := by
  unfold enter
  split
  · exact ⟨rfl, rfl⟩
  · exact ⟨rfl, rfl⟩

/- The step lemma: an operation on the view is the operation on the directory. -/
theorem viewsApply (views : Views own base dir d) {o : Op} (touches : Touches own d o) :
    Views own base (applyOp base dir o) (d.apply o) := by
  have owned := ownedApply d o views.owned touches
  cases o with
  | store ino off bytes => exact viewsFile views touches fun f => { f with data := write f.data off bytes }
  | commit ino off => exact viewsFile views touches fun f => { f with data := write f.data off [1] }
  | publish ino =>
    have stored := viewsFile views touches fun f => { f with data := write f.data 192 [1] }
    exact ⟨owned, stored.files, stored.fresh, stored.segment, stored.listed, stored.attempt, stored.tidy⟩
  | setLen ino len =>
    exact viewsFile views touches fun f => ⟨len, fun a => if a < len ∧ a < f.len then f.data a else 0⟩
  | create sequence fileInstance =>
    obtain ⟨low, free⟩ := touches
    have absent : (allocate dir).lookup (attemptName base sequence fileInstance) = none := by
      show dir.lookup _ = none
      rw [← views.attempt sequence fileInstance low, free]
      rfl
    have shown (name : Name) := @enterLookup _ name _ dir.fresh absent
    obtain ⟨files, fresh⟩ := @enterFiles (allocate dir) (attemptName base sequence fileInstance) dir.fresh
    refine ⟨owned, ?_, ?_, ?_, views.listed, ?_, tidyEnter views.tidy (.inr ⟨_, _, low, rfl⟩)⟩
    · intro i mine
      show (if i = d.fresh then _ else d.files i) = (enter (allocate dir) _ dir.fresh).files i
      rw [files, views.fresh]
      show _ = if i = dir.fresh then _ else dir.files i
      rw [views.files i mine]
    · show d.fresh + 1 = (enter (allocate dir) _ dir.fresh).fresh
      rw [fresh, views.fresh]
      rfl
    · intro s low'
      show _ = (enter (allocate dir) _ dir.fresh).lookup (finalName base s)
      rw [shown, if_neg (finalAttempt low')]
      exact views.segment s low'
    · intro s i low'
      show Option.map _ (({ d with attempts := d.attempts ++ [_] } : Disk).findAttempt s i) =
        (enter (allocate dir) _ dir.fresh).lookup (attemptName base s i)
      rw [findAppend, shown]
      by_cases same : sequence = s ∧ fileInstance = i
      · obtain ⟨rfl, rfl⟩ := same
        rw [free, if_pos rfl, if_pos ⟨rfl, rfl⟩]
        show some d.fresh = some dir.fresh
        rw [views.fresh]
      · rw [if_neg same, Option.or_none, if_neg]
        · exact views.attempt s i low'
        · intro named
          obtain ⟨rfl, rfl⟩ := attemptInjective low' low named
          exact same ⟨rfl, rfl⟩
  | install sequence fileInstance =>
    have found := views.attempt sequence fileInstance touches
    cases held : d.findAttempt sequence fileInstance with
    | none =>
      rw [held] at found
      have same : d.apply (.install sequence fileInstance) = d := by
        simp only [Disk.apply, held]
      have same' : applyOp base dir (.install sequence fileInstance) = dir := by
        simp only [applyOp, ← found, Option.map_none]
      rw [same, same']
      exact views
    | some a =>
      rw [held] at found
      have moved : d.apply (.install sequence fileInstance) =
          { d with
            segments := fun s => if s = sequence then some a.ino else d.segments s
            bound := max d.bound (sequence + 1)
            attempts := d.dropAttempt sequence fileInstance } := by
        simp only [Disk.apply, held]
      have moved' : applyOp base dir (.install sequence fileInstance) =
          enter ((dir.unlink (attemptName base sequence fileInstance)).unlink (finalName base sequence))
            (finalName base sequence) a.ino := by
        simp only [applyOp, ← found, Option.map_some]
      rw [moved] at owned ⊢
      rw [moved']
      obtain ⟨files, fresh⟩ := @enterFiles ((dir.unlink (attemptName base sequence fileInstance)).unlink (finalName base sequence))
        (finalName base sequence) a.ino
      refine ⟨owned, ?_, fresh ▸ views.fresh, ?_, ?_, ?_, ?_⟩
      · intro i mine
        rw [files]
        exact views.files i mine
      · intro s low
        rw [enterLookup unlinkSame, unlinkLookup, unlinkLookup, if_neg (finalAttempt low)]
        dsimp only
        by_cases same : s = sequence
        · rw [if_pos same, if_pos (by rw [same])]
        · have other : finalName base s ≠ finalName base sequence := fun named => same (finalInjective low touches named)
          rw [if_neg same, if_neg other, if_neg other]
          exact views.segment s low
      · intro s i named
        dsimp only at named ⊢
        split at named
        next same => omega
        next => exact lt_of_lt_of_le (views.listed s i named) (Nat.le_max_left _ _)
      · intro s i low
        have apart : attemptName base s i ≠ finalName base sequence := (finalAttempt touches).symm
        rw [enterLookup unlinkSame, unlinkLookup, unlinkLookup, if_neg apart, if_neg apart]
        show Option.map _ (({ d with attempts := d.dropAttempt sequence fileInstance } : Disk).findAttempt s i) = _
        rw [findDropped]
        by_cases same : s = sequence ∧ i = fileInstance
        · rw [if_pos same, same.1, same.2, if_pos rfl]
          rfl
        · rw [if_neg same, if_neg]
          · exact views.attempt s i low
          · exact fun named => same (attemptInjective low touches named)
      · exact tidyEnter (tidyUnlink (tidyUnlink views.tidy _) _) (.inl ⟨_, touches, rfl⟩)
  | unlink sequence =>
    refine ⟨owned, views.files, views.fresh, ?_, ?_, ?_, tidyUnlink views.tidy _⟩
    · intro s low
      show (if s = sequence then none else d.segments s) = (dir.unlink (finalName base sequence)).lookup (finalName base s)
      rw [unlinkLookup, views.segment s low]
      by_cases same : s = sequence
      · rw [if_pos same, if_pos (by rw [same])]
      · rw [if_neg same, if_neg fun named => same (finalInjective low touches named)]
    · intro s i named
      change (if s = sequence then none else d.segments s) = some i at named
      split at named
      · cases named
      · exact views.listed s i named
    · intro s i low
      show _ = (dir.unlink (finalName base sequence)).lookup (attemptName base s i)
      rw [unlinkOther (finalAttempt touches).symm]
      exact views.attempt s i low
  | unlinkAttempt sequence fileInstance =>
    refine ⟨owned, views.files, views.fresh, ?_, views.listed, ?_, tidyUnlink views.tidy _⟩
    · intro s low
      show _ = (dir.unlink (attemptName base sequence fileInstance)).lookup (finalName base s)
      rw [unlinkOther (finalAttempt low)]
      exact views.segment s low
    · intro s i low
      show Option.map _ (({ d with attempts := d.dropAttempt sequence fileInstance } : Disk).findAttempt s i) =
        (dir.unlink (attemptName base sequence fileInstance)).lookup (attemptName base s i)
      rw [findDropped, unlinkLookup]
      by_cases same : s = sequence ∧ i = fileInstance
      · rw [if_pos same, same.1, same.2, if_pos rfl]
        rfl
      · rw [if_neg same, if_neg fun named => same (attemptInjective low touches named)]
        exact views.attempt s i low

theorem viewsRun (views : Views own base dir d) {ops : List Op} (touches : Guar Disk.apply (Touches own) d ops) :
    Views own base (run (applyOp base) dir ops) (run Disk.apply d ops) := by
  induction ops generalizing dir d with
  | nil => exact views
  | cons o ops ih => exact ih (viewsApply views touches.1) touches.2

/- The scan of the directory and the scan of the view. -/
theorem viewsScan (views : Views own base dir d) : d.findAllSequences = findAllSequences base dir.listing := by
  have named {name : Name} {s : Nat} (mem : name ∈ dir.listing) (listed : sequenceOf base name = some s) :
      name = finalName base s := by
    have known : recognised base name = true := by
      unfold recognised
      rw [listed]
      rfl
    rcases views.tidy name mem known with ⟨s', low, rfl⟩ | ⟨s', i, low, rfl⟩
    · rw [finalName, ownSequence low] at listed
      rw [Option.some.inj listed]
    · rw [attemptName, attemptUnlisted] at listed
      cases listed
  have once : (findAllSequences base dir.listing).Nodup := by
    refine (listedOnce (show dir.listing.Nodup from dir.distinct)).mpr fun name mem name' mem' s listed listed' => ?_
    rw [named mem listed, named mem' listed']
  have strict : (findAllSequences base dir.listing).Pairwise (· < ·) :=
    (listedAscending.and once).imp fun both => Nat.lt_of_le_of_ne both.1 both.2
  have ascending : d.findAllSequences.Pairwise (· < ·) := List.pairwise_lt_range.sublist List.filter_sublist
  refine ascending.eq_of_mem_iff strict fun s => ?_
  rw [Disk.findAllSequences, List.mem_filter, List.mem_range, listedMem]
  constructor
  · rintro ⟨_, present⟩
    obtain ⟨i, found⟩ := Option.isSome_iff_exists.mp present
    have low := (views.owned.segment s i found).1
    rw [views.segment s low] at found
    exact ⟨_, lookupListed found, ownSequence low⟩
  · rintro ⟨name, mem, listed⟩
    have low := sequenceLow listed
    rw [named mem listed] at mem
    obtain ⟨i, found⟩ := listedLookup mem
    rw [← views.segment s low] at found
    exact ⟨views.listed s i found, by rw [found]; rfl⟩

/- The names that the sweep removes and those of the view's attempts. -/
theorem viewsSwept (views : Views own base dir d) (name : List Char) :
    (.text name ∈ dir.listing ∧ isPartialSegmentName name base = true) ↔
      ∃ a ∈ d.attempts, Name.text name = attemptName base a.sequence a.fileInstance := by
  constructor
  · rintro ⟨mem, swept⟩
    have known : recognised base (.text name) = true := Bool.or_eq_true_iff.mpr (.inr swept)
    rcases views.tidy _ mem known with ⟨s, low, same⟩ | ⟨s, i, low, same⟩
    · rw [Name.text.inj same, finalNotPartial] at swept
      cases swept
    · obtain ⟨ino, found⟩ := listedLookup mem
      rw [same, ← views.attempt s i low] at found
      obtain ⟨a, held, _⟩ := Option.map_eq_some_iff.mp found
      unfold Disk.findAttempt at held
      have pair := List.find?_some held
      rw [decide_eq_true_eq] at pair
      exact ⟨a, List.mem_of_find?_eq_some held, by rw [same, pair.1, pair.2]⟩
  · rintro ⟨a, mem, same⟩
    have low := (views.owned.attempt a mem).1
    have held : (d.findAttempt a.sequence a.fileInstance).isSome := by
      rw [Disk.findAttempt, List.find?_isSome]
      exact ⟨a, mem, by simp⟩
    obtain ⟨a', held⟩ := Option.isSome_iff_exists.mp held
    have found := views.attempt a.sequence a.fileInstance low
    rw [held] at found
    rw [same]
    refine ⟨lookupListed found.symm, ?_⟩
    rw [Name.text.inj same]
    exact attemptPartial base _ low

end Steps

/-- The names of `base` lead to it, or it is yet to be made. -/
def Reached (base : List Char) (dir : Directory) (ino : Nat) : Prop :=
  dir.fresh ≤ ino ∨ ∃ name, recognised base name = true ∧ dir.lookup name = some ino

open Classical in
noncomputable def attemptOf (base : List Char) (e : Name × Nat) : Option Attempt :=
  if made : ∃ a : Attempt, a.sequence < usize ∧ e.1 = attemptName base a.sequence a.fileInstance ∧ a.ino = e.2 then
    some made.choose
  else none

open Classical in
/-- What a channel sees of the directory: nothing of the files its names do not lead to. -/
noncomputable def viewOf (base : List Char) (dir : Directory) : Disk where
  files := fun i => if Reached base dir i then dir.files i else ⟨0, fun _ => 0⟩
  fresh := dir.fresh
  segments := fun s => if s < usize then dir.lookup (finalName base s) else none
  bound := usize
  attempts := dir.names.filterMap (attemptOf base)
  history := []

section Viewing
variable {base : List Char} {dir : Directory}

theorem attemptOfSome {e : Name × Nat} {a : Attempt} :
    attemptOf base e = some a ↔ a.sequence < usize ∧ e.1 = attemptName base a.sequence a.fileInstance ∧ a.ino = e.2 := by
  unfold attemptOf
  split
  next made =>
    obtain ⟨low, named, ino⟩ := made.choose_spec
    constructor
    · intro same
      rw [← Option.some.inj same]
      exact ⟨low, named, ino⟩
    · rintro ⟨low', named', ino'⟩
      obtain ⟨same, same'⟩ := attemptInjective low low' (named.symm.trans named')
      generalize made.choose = x at same same' ino
      obtain ⟨s, i, n⟩ := x
      obtain ⟨s', i', n'⟩ := a
      dsimp only at same same' ino ino'
      rw [same, same', ino, ino']
  next none =>
    constructor
    · intro same
      cases same
    · exact fun made => absurd ⟨a, made⟩ none

/-- The directory has the names of `base` it makes, no file under two names, and no file not yet made. -/
structure Proper (base : List Char) (dir : Directory) : Prop where
  tidy : ∀ name ∈ dir.listing, recognised base name = true → Made base name
  single : (dir.names.map Prod.snd).Nodup
  used : ∀ e ∈ dir.names, e.2 < dir.fresh

theorem viewOfViews (tidy : ∀ name ∈ dir.listing, recognised base name = true → Made base name) :
    Views (Reached base dir) base dir (viewOf base dir) := by
  refine ⟨⟨?_, ?_, fun i le => .inl le⟩, fun i mine => if_pos mine, rfl, fun s low => if_pos low, ?_, ?_, tidy⟩
  · intro s i named
    change (if s < usize then dir.lookup (finalName base s) else none) = some i at named
    split at named
    next low => exact ⟨low, .inr ⟨_, finalRecognised low, named⟩⟩
    next => cases named
  · intro a mem
    obtain ⟨e, listed, made⟩ := List.mem_filterMap.mp mem
    obtain ⟨low, named, ino⟩ := attemptOfSome.mp made
    refine ⟨low, .inr ⟨e.1, named ▸ attemptRecognised low, ?_⟩⟩
    rw [ino]
    exact entryLookup listed
  · intro s i named
    change (if s < usize then dir.lookup (finalName base s) else none) = some i at named
    split at named
    next low => exact low
    next => cases named
  · intro s i low
    show (List.find? _ (dir.names.filterMap (attemptOf base))).map Attempt.ino = _
    rw [List.find?_filterMap, Directory.lookup]
    have same : (fun e => (attemptOf base e).any fun a => decide (a.sequence = s ∧ a.fileInstance = i)) =
        fun e : Name × Nat => decide (e.1 = attemptName base s i) := by
      funext e
      rw [Bool.eq_iff_iff, Option.any_eq_true, decide_eq_true_eq]
      constructor
      · rintro ⟨a, made, pair⟩
        rw [decide_eq_true_eq] at pair
        rw [(attemptOfSome.mp made).2.1, pair.1, pair.2]
      · intro named
        exact ⟨⟨s, i, e.2⟩, attemptOfSome.mpr ⟨low, named, rfl⟩, by simp⟩
    rw [same]
    cases found : dir.names.find? fun e => decide (e.1 = attemptName base s i) with
    | none => rfl
    | some e =>
      have named := List.find?_some found
      rw [decide_eq_true_eq] at named
      have made : attemptOf base e = some ⟨s, i, e.2⟩ := attemptOfSome.mpr ⟨low, named, rfl⟩
      rw [Option.bind_some, made]
      rfl

end Viewing

/- What each call of a session returns, with what the user holds after it. -/
def answers (env : Env) : List Call → User (List (Except IoError Unit × Session))
  | [] => return []
  | c :: calls => do
    let result ← Act.attempt (perform env c)
    let s ← Act.self
    let rest ← answers env calls
    return (result, s) :: rest

abbrev SessionAnswer := Except IoError (List (Except IoError Unit × Session))
abbrev ReadingAnswer := Except IoError (List (Except IoError Reply) × List Record)

/-- What a user does with a channel, by what it returns. A session and a clean-up may be killed. -/
inductive Operation : Type → Type where
  | session (life : Life) : Operation SessionAnswer
  | reading (spins : Nat) (mode : ReaderMode) (expected : Option Nat) (fuel : Nat) (calls : List ReadCall) : Operation ReadingAnswer
  | headRecordIndex : Operation (Except IoError Nat)
  | tailRecordIndex (gen : Nat) : Operation (Except IoError Nat)
  | cleanupChannelFiles (kill : Nat) : Operation Unit

def sessionAnswer (env : Env) (cfg : Config) (calls : List Call) (d : Disk) : SessionAnswer :=
  match (build env cfg : Io Unit Writer) () d with
  | (_, .error e, _) => .error e
  | (ops, .ok w, _) => (answers env calls).result (.start w) (run Disk.apply d ops)

/- The replies of a reader, and the records it delivered. -/
def readingAnswer (env : Env) (spins : Nat) (mode : ReaderMode) (expected : Option Nat) (fuel : Nat) (calls : List ReadCall)
    (d : Disk) : ReadingAnswer :=
  match (openWith env spins mode expected : Static Disk Unit IoError Reader) d () with
  | (.error e, _) => .error e
  | (.ok r, _) =>
    match (converse env fuel calls : Static Disk Reader IoError _) d r with
    | (.error e, _) => .error e
    | (.ok replies, _) => .ok (replies, (deliveredBy replies).map (·.record r.regionSize d))

/- The base file first, then every entry that is the channel's. -/
def cleanupNames (base : List Char) (dir : Directory) : List Name :=
  .text base :: dir.listing.filter (recognised base)

def cleanupChannelFiles (base : List Char) (kill : Nat) (dir : Directory) : Directory :=
  ((cleanupNames base dir).take kill).foldl Directory.unlink dir

noncomputable def operate (env : Env) (base : List Char) (dir : Directory) {α : Type} : Operation α → α × Directory
  | .session life =>
      let d := viewOf base dir
      (sessionAnswer env life.config life.calls d, run (applyOp base) dir (life.ops env d))
  | .reading spins mode expected fuel calls => (readingAnswer env spins mode expected fuel calls (viewOf base dir), dir)
  | .headRecordIndex => (((headRecordIndex env : Static Disk Unit IoError Nat) (viewOf base dir) ()).1, dir)
  | .tailRecordIndex gen => (((tailRecordIndex env gen : Static Disk Unit IoError Nat) (viewOf base dir) ()).1, dir)
  | .cleanupChannelFiles kill => ((), cleanupChannelFiles base kill dir)

/-- The two directories have the same files under the names of `base`. -/
structure Twin (own : Nat → Prop) (base : List Char) (dir dir' : Directory) : Prop where
  fresh : dir'.fresh = dir.fresh
  names : (dir'.names.filter fun e => recognised base e.1) = dir.names.filter fun e => recognised base e.1
  files : ∀ i, own i → dir'.files i = dir.files i

/-- Between the two, only names of `base` and files of `own` have changed. -/
structure Spares (own : Nat → Prop) (base : List Char) (dir dir' : Directory) : Prop where
  names : ∀ name, recognised base name = false → dir'.lookup name = dir.lookup name
  files : ∀ i, ¬ own i → dir'.files i = dir.files i

section Twins
variable {own : Nat → Prop} {base : List Char} {dir dir' : Directory} {d : Disk} {name : Name}

theorem filteredLookup (known : recognised base name = true) :
    dir.lookup name = ((dir.names.filter fun e => recognised base e.1).find? fun e => e.1 = name).map Prod.snd := by
  rw [List.find?_filter, Directory.lookup]
  congr 2
  funext e
  by_cases same : e.1 = name
  · simp [same, known]
  · simp [same]

theorem Twin.lookup (twin : Twin own base dir dir') (known : recognised base name = true) : dir'.lookup name = dir.lookup name := by
  rw [filteredLookup known, filteredLookup known, twin.names]

theorem unlinkFilter (name : Name) : ((dir.unlink name).names.filter fun e => recognised base e.1) =
    (dir.names.filter fun e => recognised base e.1).filter fun e => decide (e.1 ≠ name) := by
  show ((dir.names.filter fun e => decide (e.1 ≠ name)).filter _) = _
  rw [List.filter_filter, List.filter_filter]
  congr 1
  funext e
  exact Bool.and_comm _ _

theorem Twin.unlink (twin : Twin own base dir dir') (name : Name) : Twin own base (dir.unlink name) (dir'.unlink name) := by
  refine ⟨twin.fresh, ?_, twin.files⟩
  rw [unlinkFilter, unlinkFilter, twin.names]

theorem Twin.enter (twin : Twin own base dir dir') (known : recognised base name = true) (ino : Nat) :
    Twin own base (enter dir name ino) (enter dir' name ino) := by
  have same : name ∈ dir'.listing ↔ name ∈ dir.listing := by
    rw [← not_iff_not, absentLookup, absentLookup, twin.lookup known]
  refine ⟨?_, ?_, ?_⟩
  · rw [(enterFiles name ino).2, (enterFiles name ino).2, twin.fresh]
  · unfold Neighbours.enter
    by_cases present : name ∈ dir.listing
    · rw [dif_pos present, dif_pos (same.mpr present)]
      exact twin.names
    · rw [dif_neg present, dif_neg fun there => present (same.mp there)]
      show List.filter _ (dir'.names ++ _) = List.filter _ (dir.names ++ _)
      rw [List.filter_append, List.filter_append, twin.names]
  · intro i mine
    rw [(enterFiles name ino).1, (enterFiles name ino).1, twin.files i mine]

theorem Twin.setFile (twin : Twin own base dir dir') {ino : Nat} (mine : own ino) (change : File → File) :
    Twin own base (setFile dir ino (change (dir.files ino))) (setFile dir' ino (change (dir'.files ino))) := by
  refine ⟨twin.fresh, twin.names, fun i own => ?_⟩
  show (if i = ino then change (dir'.files ino) else dir'.files i) = if i = ino then change (dir.files ino) else dir.files i
  rw [twin.files i own, twin.files ino mine]

theorem twinApply (twin : Twin own base dir dir') {o : Op} (touches : Touches own d o) :
    Twin own base (applyOp base dir o) (applyOp base dir' o) := by
  cases o with
  | store ino off bytes => exact twin.setFile touches fun f => { f with data := write f.data off bytes }
  | commit ino off => exact twin.setFile touches fun f => { f with data := write f.data off [1] }
  | publish ino => exact twin.setFile touches fun f => { f with data := write f.data 192 [1] }
  | setLen ino len => exact twin.setFile touches fun f => ⟨len, fun a => if a < len ∧ a < f.len then f.data a else 0⟩
  | create sequence fileInstance =>
    have grown : Twin own base (allocate dir) (allocate dir') := by
      refine ⟨?_, twin.names, fun i mine => ?_⟩
      · show dir'.fresh + 1 = dir.fresh + 1
        rw [twin.fresh]
      · show (if i = dir'.fresh then _ else dir'.files i) = if i = dir.fresh then _ else dir.files i
        rw [twin.fresh, twin.files i mine]
    have entered := grown.enter (@attemptRecognised base _ fileInstance touches.1) dir.fresh
    rw [applyOp, applyOp, twin.fresh]
    exact entered
  | install sequence fileInstance =>
    have same := twin.lookup (@attemptRecognised base _ fileInstance touches)
    cases found : dir.lookup (attemptName base sequence fileInstance) with
    | none =>
      rw [found] at same
      simp only [applyOp, found, same]
      exact twin
    | some ino =>
      rw [found] at same
      simp only [applyOp, found, same]
      exact ((twin.unlink _).unlink _).enter (finalRecognised touches) ino
  | unlink sequence => exact twin.unlink _
  | unlinkAttempt sequence fileInstance => exact twin.unlink _

theorem twinRun (twin : Twin own base dir dir') {ops : List Op} (touches : Guar Disk.apply (Touches own) d ops) :
    Twin own base (run (applyOp base) dir ops) (run (applyOp base) dir' ops) := by
  induction ops generalizing dir dir' d with
  | nil => exact twin
  | cons o ops ih => exact ih (twinApply twin touches.1) touches.2

theorem Twin.reached (twin : Twin own base dir dir') (i : Nat) : Reached base dir' i ↔ Reached base dir i := by
  unfold Reached
  rw [twin.fresh]
  refine or_congr_right (exists_congr fun name => and_congr_right fun known => ?_)
  rw [twin.lookup known]

/- Only what the names of `base` lead to is seen. -/
open Classical in
theorem twinView (twin : Twin (Reached base dir) base dir dir') : viewOf base dir' = viewOf base dir := by
  have files : (viewOf base dir').files = (viewOf base dir).files := by
    funext i
    show (if Reached base dir' i then dir'.files i else _) = if Reached base dir i then dir.files i else _
    by_cases mine : Reached base dir i
    · rw [if_pos mine, if_pos ((twin.reached i).mpr mine), twin.files i mine]
    · rw [if_neg mine, if_neg fun there => mine ((twin.reached i).mp there)]
  have segments : (viewOf base dir').segments = (viewOf base dir).segments := by
    funext s
    show (if s < usize then dir'.lookup _ else none) = if s < usize then dir.lookup _ else none
    by_cases low : s < usize
    · rw [if_pos low, if_pos low, twin.lookup (finalRecognised low)]
    · rw [if_neg low, if_neg low]
  have known : attemptOf base = fun e => if recognised base e.1 = true then attemptOf base e else none := by
    funext e
    split
    next => rfl
    next other =>
      cases made : attemptOf base e with
      | none => rfl
      | some a =>
        obtain ⟨low, named, _⟩ := attemptOfSome.mp made
        exact absurd (named ▸ attemptRecognised low) other
  have attempts : (viewOf base dir').attempts = (viewOf base dir).attempts := by
    show dir'.names.filterMap (attemptOf base) = dir.names.filterMap (attemptOf base)
    rw [known, ← List.filterMap_filter, ← List.filterMap_filter, twin.names]
  show Disk.mk _ _ _ _ _ _ = Disk.mk _ _ _ _ _ _
  rw [Disk.mk.injEq]
  exact ⟨files, twin.fresh, segments, rfl, attempts, rfl⟩

theorem Spares.trans {dir'' : Directory} (first : Spares own base dir dir') (rest : Spares own base dir' dir'') :
    Spares own base dir dir'' :=
  ⟨fun name other => (rest.names name other).trans (first.names name other),
    fun i other => (rest.files i other).trans (first.files i other)⟩

theorem sparesRefl : Spares own base dir dir := ⟨fun _ _ => rfl, fun _ _ => rfl⟩

theorem sparesUnlink (known : recognised base name = true) : Spares own base dir (dir.unlink name) := by
  refine ⟨fun other unknown => unlinkOther ?_, fun _ _ => rfl⟩
  rintro rfl
  rw [known] at unknown
  cases unknown

theorem sparesEnter (known : recognised base name = true) (absent : dir.lookup name = none) (ino : Nat) :
    Spares own base dir (enter dir name ino) := by
  refine ⟨fun other unknown => ?_, fun i _ => by rw [(enterFiles name ino).1]⟩
  rw [enterLookup absent, if_neg]
  rintro rfl
  rw [known] at unknown
  cases unknown

theorem sparesFile {ino : Nat} (mine : own ino) (f : File) : Spares own base dir (setFile dir ino f) := by
  refine ⟨fun _ _ => rfl, fun i other => if_neg ?_⟩
  rintro rfl
  exact other mine

theorem sparesApply (views : Views own base dir d) {o : Op} (touches : Touches own d o) :
    Spares own base dir (applyOp base dir o) := by
  cases o with
  | store ino off bytes => exact sparesFile touches _
  | commit ino off => exact sparesFile touches _
  | publish ino => exact sparesFile touches _
  | setLen ino len => exact sparesFile touches _
  | create sequence fileInstance =>
    have mine : own dir.fresh := views.fresh ▸ views.owned.fresh d.fresh (Nat.le_refl _)
    have grown : Spares own base dir (allocate dir) := ⟨fun _ _ => rfl, (@sparesFile own base dir _ mine _).files⟩
    refine grown.trans (sparesEnter (attemptRecognised touches.1) ?_ _)
    show dir.lookup _ = none
    rw [← views.attempt sequence fileInstance touches.1, touches.2]
    rfl
  | install sequence fileInstance =>
    cases found : dir.lookup (attemptName base sequence fileInstance) with
    | none =>
      simp only [applyOp, found]
      exact sparesRefl
    | some ino =>
      simp only [applyOp, found]
      have freed : Spares own base dir ((dir.unlink (attemptName base sequence fileInstance)).unlink (finalName base sequence)) :=
        (sparesUnlink (attemptRecognised touches)).trans (sparesUnlink (finalRecognised touches))
      exact freed.trans (sparesEnter (finalRecognised touches) unlinkSame ino)
  | unlink sequence => exact sparesUnlink (finalRecognised touches)
  | unlinkAttempt sequence fileInstance => exact sparesUnlink (attemptRecognised touches)

theorem sparesRun (views : Views own base dir d) {ops : List Op} (touches : Guar Disk.apply (Touches own) d ops) :
    Spares own base dir (run (applyOp base) dir ops) := by
  induction ops generalizing dir d with
  | nil => exact sparesRefl
  | cons o ops ih => exact (sparesApply views touches.1).trans (ih (viewsApply views touches.1) touches.2)

theorem baseRecognised (base : List Char) : recognised base (.text base) = true :=
  @finalRecognised base 0 (by decide)

theorem cleanupKnown {kill : Nat} : ∀ name ∈ (cleanupNames base dir).take kill, recognised base name = true := by
  intro name mem
  rcases List.mem_cons.mp (List.mem_of_mem_take mem) with rfl | listed
  · exact baseRecognised base
  · exact (List.mem_filter.mp listed).2

theorem Twin.cleanup (twin : Twin own base dir dir') (kill : Nat) :
    Twin own base (cleanupChannelFiles base kill dir) (cleanupChannelFiles base kill dir') := by
  have same : cleanupNames base dir' = cleanupNames base dir := by
    unfold cleanupNames Directory.listing
    rw [List.filter_map, List.filter_map]
    exact congrArg (fun l => _ :: l.map Prod.fst) twin.names
  unfold cleanupChannelFiles
  rw [same]
  clear same
  generalize (cleanupNames base dir).take kill = names
  induction names generalizing dir dir' with
  | nil => exact twin
  | cons name names ih => exact ih (twin.unlink name)

theorem sparesCleanup (kill : Nat) : Spares own base dir (cleanupChannelFiles base kill dir) := by
  have known := @cleanupKnown base dir kill
  unfold cleanupChannelFiles
  generalize (cleanupNames base dir).take kill = names at known
  induction names generalizing dir with
  | nil => exact sparesRefl
  | cons name names ih =>
    exact (sparesUnlink (known name List.mem_cons_self)).trans (ih fun other mem => known other (List.mem_cons_of_mem _ mem))

end Twins

/-- No present file of `b` has a name that `a` takes for its own. -/
def Apart (a b : List Char) (dir : Directory) : Prop := ∀ name ∈ dir.listing, Made b name → recognised a name = false

/-- The second directory is the first without the files of `b`. -/
structure Without (b : List Char) (dir dir' : Directory) : Prop where
  fresh : dir'.fresh = dir.fresh
  names : ∃ keep : Name → Bool, (∀ name, keep name = true ↔ ¬ Made b name) ∧ dir'.names = dir.names.filter fun e => keep e.1
  files : ∀ i, (∀ name, Made b name → dir.lookup name ≠ some i) → dir'.files i = dir.files i

section Neighbouring
variable {a b : List Char} {dir dir' : Directory} {env : Env}

theorem apartReached (proper : Proper a dir) (apart : Apart a b dir) {name : Name} {ino : Nat} (made : Made b name)
    (found : dir.lookup name = some ino) : ¬ Reached a dir ino := by
  have entry := lookupEntry found
  rintro (new | ⟨mine, known, same⟩)
  · exact absurd (proper.used _ entry) (Nat.not_lt.mpr new)
  · have one := List.inj_on_of_nodup_map proper.single entry (lookupEntry same) rfl
    obtain rfl : name = mine := congrArg Prod.fst one
    rw [apart name (lookupListed found) made] at known
    cases known

theorem withoutTwin (proper : Proper a dir) (apart : Apart a b dir) (without : Without b dir dir') :
    Twin (Reached a dir) a dir dir' := by
  refine ⟨without.fresh, ?_, fun i mine => without.files i fun name made found => apartReached proper apart made found mine⟩
  obtain ⟨keep, others, names⟩ := without.names
  rw [names, List.filter_filter]
  refine List.filter_congr fun e mem => ?_
  cases known : recognised a e.1 with
  | false => rfl
  | true =>
    rw [Bool.true_and, others]
    intro made
    rw [apart e.1 (List.mem_map_of_mem mem) made] at known
    cases known

theorem operateTwin (proper : Proper a dir) (twin : Twin (Reached a dir) a dir dir') {α : Type} (operation : Operation α) :
    (operate env a dir operation).1 = (operate env a dir' operation).1 ∧
      Twin (Reached a dir) a (operate env a dir operation).2 (operate env a dir' operation).2 := by
  have same := twinView twin
  cases operation with
  | session life =>
    unfold operate
    rw [same]
    exact ⟨rfl, twinRun twin (lifeFoots life (viewOfViews proper.tidy).owned)⟩
  | reading spins mode expected fuel calls =>
    unfold operate
    rw [same]
    exact ⟨rfl, twin⟩
  | headRecordIndex =>
    unfold operate
    rw [same]
    exact ⟨rfl, twin⟩
  | tailRecordIndex gen =>
    unfold operate
    rw [same]
    exact ⟨rfl, twin⟩
  | cleanupChannelFiles kill => exact ⟨rfl, twin.cleanup kill⟩

theorem operateSpares (proper : Proper a dir) {α : Type} (operation : Operation α) :
    Spares (Reached a dir) a dir (operate env a dir operation).2 := by
  cases operation with
  | session life =>
    have views := viewOfViews proper.tidy
    exact sparesRun views (lifeFoots life views.owned)
  | cleanupChannelFiles kill => exact sparesCleanup kill
  | reading | headRecordIndex | tailRecordIndex => exact sparesRefl

end Neighbouring

/-- For every two base names, every directory and every operation. -/
theorem channelsApart (a b : List Char) (env : Env) (dir dir' : Directory) {α : Type} (operation : Operation α)
    (proper : Proper a dir) (apart : Apart a b dir) (without : Without b dir dir') :
    (operate env a dir operation).1 = (operate env a dir' operation).1 ∧
      Twin (Reached a dir) a (operate env a dir operation).2 (operate env a dir' operation).2 ∧
      ∀ name ino, Made b name → dir.lookup name = some ino →
        (operate env a dir operation).2.lookup name = some ino ∧ (operate env a dir operation).2.files ino = dir.files ino := by
  obtain ⟨same, twin⟩ := @operateTwin a dir dir' env proper (withoutTwin proper apart without) α operation
  refine ⟨same, twin, fun name ino made found => ?_⟩
  have spares := @operateSpares a dir env proper α operation
  rw [spares.names name (apart name (lookupListed found) made), spares.files ino (apartReached proper apart made found)]
  exact ⟨found, rfl⟩

open Classical in
theorem without (b : List Char) (dir : Directory) : Without b dir (dir.retain fun name => decide ¬ Made b name) :=
  ⟨rfl, ⟨_, fun _ => decide_eq_true_iff, rfl⟩, fun _ _ => rfl⟩

/-- Two channels, one named like a rolled file of the other. -/
def sharedDirectory : Directory :=
  ⟨(after smallEnv smallLives).files, 2, [(.text "log".toList, 0), (.text "log.5".toList, 1)], by decide⟩

/- Cleaning up `log` deletes the base file of `log.5`. -/
theorem baseOverlap : ¬ ∀ (a b : List Char) (env : Env) (dir dir' : Directory) (operation : Operation Unit),
    a ≠ b → '/' ∉ a → '/' ∉ b → (∀ name ∈ dir.listing, Made a name ∨ Made b name) → (dir.names.map Prod.snd).Nodup →
      (∀ e ∈ dir.names, e.2 < dir.fresh) → Without b dir dir' →
      ∀ name ino, Made b name → dir.lookup name = some ino → (operate env a dir operation).2.lookup name = some ino := by
  intro every
  have made : ∀ name ∈ sharedDirectory.listing, Made "log".toList name ∨ Made "log.5".toList name := by
    intro name mem
    rcases List.mem_cons.mp mem with rfl | last
    · exact .inl (.inl ⟨0, by decide, rfl⟩)
    · rw [List.mem_singleton.mp last]
      exact .inr (.inl ⟨0, by decide, rfl⟩)
  have kept := every "log".toList "log.5".toList smallEnv sharedDirectory _ (.cleanupChannelFiles 9) (by decide) (by decide) (by decide)
    made (by decide) (by decide) (without _ _) (.text "log.5".toList) 1 (.inl ⟨0, by decide, rfl⟩) (by decide)
  have gone : (cleanupChannelFiles "log".toList 9 sharedDirectory).lookup (.text "log.5".toList) = none := by decide +kernel
  change (cleanupChannelFiles "log".toList 9 sharedDirectory).lookup _ = _ at kept
  rw [gone] at kept
  cases kept

/-- Two channels, and an attempt that the second left. -/
def neighbours : Directory :=
  ⟨(after smallEnv smallLives).files, 4,
    [(finalName "log".toList 0, 0), (finalName "log".toList 1, 1), (finalName "web".toList 0, 2), (attemptName "web".toList 1 7, 3)],
    by decide +kernel⟩

theorem neighboursListed {P : Name → Prop} (zero : P (finalName "log".toList 0)) (one : P (finalName "log".toList 1))
    (web : P (finalName "web".toList 0)) (attempt : P (attemptName "web".toList 1 7)) : ∀ name ∈ neighbours.listing, P name := by
  intro name mem
  simp only [neighbours, Directory.listing, List.map_cons, List.map_nil, List.mem_cons, List.not_mem_nil, or_false] at mem
  obtain rfl | rfl | rfl | rfl := mem
  · exact zero
  · exact one
  · exact web
  · exact attempt

theorem neighboursProper : Proper "log".toList neighbours := by
  refine ⟨neighboursListed ?_ ?_ ?_ ?_, by decide, by decide⟩
  · exact fun _ => .inl ⟨0, by decide, rfl⟩
  · exact fun _ => .inl ⟨1, by decide, rfl⟩
  · exact fun known => absurd known (by decide +kernel)
  · exact fun known => absurd known (by decide +kernel)

theorem neighboursApart : Apart "log".toList "web".toList neighbours := by
  refine neighboursListed ?_ ?_ ?_ ?_
  · exact fun made => absurd (madeRecognised made) (by decide +kernel)
  · exact fun made => absurd (madeRecognised made) (by decide +kernel)
  · exact fun _ => by decide +kernel
  · exact fun _ => by decide +kernel

def rollingLife : Life := ⟨smallConfig, smallFormed, [.rollFile], 500⟩

theorem channelsApartSmall : (operate smallEnv "log".toList neighbours (.session rollingLife)).2.lookup
    (attemptName "web".toList 1 7) = some 3 :=
  ((channelsApart _ _ smallEnv neighbours _ (.session rollingLife) neighboursProper neighboursApart (without _ _)).2.2 _ 3
    (.inr ⟨1, 7, by decide, rfl⟩) (by decide +kernel)).1

/-- At every point of a session, the directory shows to the scans and to the sweep what the channel's own disk does,
and its files have the bytes the channel's disk gives them. -/
theorem sessionSeen (env : Env) (base : List Char) (dir : Directory) (life : Life) (n : Nat)
    (tidy : ∀ name ∈ dir.listing, recognised base name = true → Made base name) :
    let ops := (life.ops env (viewOf base dir)).take n
    let d := run Disk.apply (viewOf base dir) ops
    let now := run (applyOp base) dir ops
    d.findAllSequences = findAllSequences base now.listing ∧
      (∀ s, s < usize → d.segments s = now.lookup (finalName base s)) ∧
      (∀ name, (.text name ∈ now.listing ∧ isPartialSegmentName name base = true) ↔
        ∃ a ∈ d.attempts, Name.text name = attemptName base a.sequence a.fileInstance) ∧
      ∀ name ino, recognised base name = true → now.lookup name = some ino → d.files ino = now.files ino := by
  have start := viewOfViews tidy
  have views := viewsRun start (guarTake n (@lifeFoots _ env life _ start.owned))
  refine ⟨viewsScan views, views.segment, viewsSwept views, fun name ino known found => views.files ino ?_⟩
  rcases views.tidy name (lookupListed found) known with ⟨s, low, rfl⟩ | ⟨s, i, low, rfl⟩
  · rw [← views.segment s low] at found
    exact (views.owned.segment s ino found).2
  · rw [← views.attempt s i low] at found
    obtain ⟨a, held, rfl⟩ := Option.map_eq_some_iff.mp found
    exact (views.owned.attempt a (List.mem_of_find?_eq_some held)).2

theorem sessionSeenSmall : (run Disk.apply (viewOf "log".toList neighbours)
    ((rollingLife.ops smallEnv (viewOf "log".toList neighbours)).take 3)).findAllSequences =
      findAllSequences "log".toList (run (applyOp "log".toList) neighbours
        ((rollingLife.ops smallEnv (viewOf "log".toList neighbours)).take 3)).listing :=
  (sessionSeen smallEnv "log".toList neighbours rollingLife 3 neighboursProper.tidy).1

end Xchannel.Neighbours
