import Xchannel.OpenSpecs
import Xchannel.SessionSpecs

/-! All ways of reading a channel that stands still deliver the same records, and a reader whose system
calls are refused loses none of them. -/
namespace Xchannel.ReadAgreement
open ByteMemory Format Storage RecordChain SegmentInvariant ChannelInvariant ChannelLog Observation SegmentWalk
  WalkSpecs WriterSpecs RecoverySpecs BuildSpecs ReaderOpen ReaderCalls ReadPath ReadSpecs BatchSpecs ReadLaws OpenSpecs
  Sessions SessionSpecs

variable {env : Env} {R s p : Nat} {d : Disk} {segs : List Seg} {r r' : Reader} {g g' : Seg}
  {faults : Nat → Option IoError} {n fuel position : Nat} {marks left : List Mark} {stop : Stop}

section Agreement

/- A program on a channel that stands still, with no call refused. -/
def still {α : Type} (x : Trial Disk Reader IoError α) (d : Disk) (r : Reader) : Except IoError α × Reader :=
  ((x d (fun _ => none) r 0).1, (x d (fun _ => none) r 0).2.1)

def shown (R : Nat) (d : Disk) : Except IoError (Option MessageRef) → Except IoError (Option Record) :=
  Except.map (Option.map (MessageRef.record R d))

/- What the next read shows of the records ahead. -/
def expected : List Record → Option IoError → Except IoError (Option Record)
  | x :: _, _ => .ok (some x)
  | [], none => .ok none
  | [], some e => .error e

theorem stilled {α : Type} {x : Trial Disk Reader IoError α} {Q : Except IoError α → Reader → Nat → Prop}
    (spec : Trial.Spec d (fun _ => none) r 0 x Q) : ∃ n', Q (still x d r).1 (still x d r).2 n' := ⟨_, spec.2⟩

theorem noRefusal {n n' : Nat} {e : IoError} : ¬ Trial.Refused (fun _ => none) n n' e := by
  rintro ⟨_, _, _, bad⟩
  cases bad

theorem tryReadStill (view : View env R d segs) (ahead : Ahead env R d segs r marks stop) (enough : marks.length < fuel) :
    shown R d (still (tryRead env fuel) d r).1 = expected (itemRecords d (itemsOf marks)) stop.refusal := by
  obtain ⟨n', post⟩ := stilled (tryReadSpec view ahead enough)
  generalize still (tryRead env fuel) d r = out at post ⊢
  obtain ⟨res, r'⟩ := out
  match res, post with
  | .ok none, ⟨empty, stopped, _⟩ =>
    rw [empty, stopped]
    rfl
  | .ok (some msg), ⟨left, delivered⟩ =>
    obtain ⟨done, rfl, same⟩ := delivered.split
    rw [itemsAppend, itemRecordsAppend, ← same]
    rfl
  | .error e, ⟨left, delivered, why⟩ =>
    rcases why with refused | ⟨rfl, stopped⟩
    · exact (noRefusal refused).elim
    · rw [delivered.kept, stopped]
      rfl

/- A reader at a User record, and one at the end of what is ahead. -/
theorem placeUser {i p q : Nat} {rest : List Mark} (path : Path env R d segs s q (.user i p :: rest) stop) :
    ∃ g, segs[s]? = some g ∧ g.ino = i ∧ q = p := by
  generalize same : Mark.user i p :: rest = marks at path
  cases path with
  | caughtUp found free => cases same
  | @record _ _ g k marks _ found here tail =>
    cases k with
    | user =>
      injection same with first _
      injection first with ino slot
      exact ⟨g, found, ino.symm, slot.symm⟩
    | _ => cases same
  | roll found next flag named tail => cases same
  | refused found next flag refuses => cases same

theorem placeEnd {q : Nat} (path : Path env R d segs s q [] stop) : s = stop.segment := by
  cases path with
  | caughtUp found free => rfl
  | refused found next flag refuses => rfl

/-- Two readers with the same records ahead: they are at the same place once both have passed the
service records before the next one. -/
structure Agree (env : Env) (R fuel : Nat) (d : Disk) (r₁ r₂ : Reader) : Prop where
  position : r₁.position = r₂.position
  next : shown R d (still (tryRead env fuel) d r₁).1 = shown R d (still (tryRead env fuel) d r₂).1
  poll : (still (pollForUserMessage env fuel) d r₁).1 = (still (pollForUserMessage env fuel) d r₂).1
  sequence : (still (pollForUserMessage env fuel) d r₁).2.fileSequence =
    (still (pollForUserMessage env fuel) d r₂).2.fileSequence
  base : (still (pollForUserMessage env fuel) d r₁).2.baseRecordIndex =
    (still (pollForUserMessage env fuel) d r₂).2.baseRecordIndex

/- Where a poll leaves the reader, and what it returns. -/
theorem pollStill (view : View env R d segs) (ahead : Ahead env R d segs r marks stop) (enough : marks.length < fuel) :
    ∃ left, Delivered env R d segs marks stop r.position [] (still (pollForUserMessage env fuel) d r).2 left ∧
      (((still (pollForUserMessage env fuel) d r).1 = .ok true ∧ ∃ i p rest, left = .user i p :: rest) ∨
        (left = [] ∧ (still (pollForUserMessage env fuel) d r).1 = stop.refusal.elim (.ok false) .error)) := by
  obtain ⟨n', left, delivered, post⟩ := stilled (pollSpec view ahead enough)
  generalize still (pollForUserMessage env fuel) d r = out at delivered post ⊢
  obtain ⟨res, r'⟩ := out
  refine ⟨left, delivered, ?_⟩
  match res, post with
  | .ok true, found => exact .inl ⟨rfl, found⟩
  | .ok false, ⟨empty, stopped⟩ => exact .inr ⟨empty, by rw [stopped]; rfl⟩
  | .error e, why =>
    rcases why with refused | ⟨empty, stopped⟩
    · exact (noRefusal refused).elim
    · exact .inr ⟨empty, by rw [stopped]; rfl⟩

theorem agreeOf (view : View env R d segs) {r₁ r₂ : Reader} {marks₁ marks₂ : List Mark}
    (ahead₁ : Ahead env R d segs r₁ marks₁ stop) (ahead₂ : Ahead env R d segs r₂ marks₂ stop)
    (same : itemsOf marks₁ = itemsOf marks₂) (position : r₁.position = r₂.position) (enough₁ : marks₁.length < fuel)
    (enough₂ : marks₂.length < fuel) : Agree env R fuel d r₁ r₂ := by
  obtain ⟨names, inv⟩ := view.stored
  obtain ⟨left₁, delivered₁, poll₁⟩ := pollStill view ahead₁ enough₁
  obtain ⟨left₂, delivered₂, poll₂⟩ := pollStill view ahead₂ enough₂
  have left : itemsOf left₁ = itemsOf left₂ := by rw [← delivered₁.kept, same, delivered₂.kept]
  obtain ⟨s₁, g₁, p₁, standing₁, path₁⟩ := delivered₁.ahead
  obtain ⟨s₂, g₂, p₂, standing₂, path₂⟩ := delivered₂.ahead
  have there : (still (pollForUserMessage env fuel) d r₁).1 = (still (pollForUserMessage env fuel) d r₂).1 ∧ s₁ = s₂ := by
    rcases poll₁ with ⟨ok₁, i₁, q₁, rest₁, rfl⟩ | ⟨rfl, none₁⟩ <;>
      rcases poll₂ with ⟨ok₂, i₂, q₂, rest₂, rfl⟩ | ⟨rfl, none₂⟩
    · obtain ⟨h₁, found₁, ino₁, _⟩ := placeUser path₁
      obtain ⟨h₂, found₂, ino₂, _⟩ := placeUser path₂
      injection left with first _
      injection first with files _
      exact ⟨ok₁.trans ok₂.symm, inv.sameIno found₁ found₂ (by rw [ino₁, ino₂, files])⟩
    · cases left
    · cases left
    · exact ⟨none₁.trans none₂.symm, (placeEnd path₁).trans (placeEnd path₂).symm⟩
  obtain ⟨poll, rfl⟩ := there
  obtain rfl : g₁ = g₂ := Option.some.inj (standing₁.found.symm.trans standing₂.found)
  exact
    { position := position
      next := by rw [tryReadStill view ahead₁ enough₁, tryReadStill view ahead₂ enough₂, same]
      poll := poll
      sequence := by rw [standing₁.sequence, standing₂.sequence]
      base := by rw [standing₁.base, standing₂.base] }

/- A batch that would cross more regions and files than it can number. -/
def Overlong (env : Env) (R : Nat) (d : Disk) (segs : List Seg) (r : Reader) (maxBatch : Option UInt16) : Prop :=
  ∃ marks stop, Ahead env R d segs r marks stop ∧ 65535 < crossings (batchMax r.batchLimit maxBatch) marks

/- A `Roll` that cannot be followed is reported by every call that comes to it. -/
theorem refusalReported (view : View env R d segs) (ahead : Ahead env R d segs r marks stop) (enough : marks.length < fuel)
    {e : IoError} {r' : Reader} (refused : still (tryRead env fuel) d r = (.error e, r')) (c : ReadCall)
    (looks : c.looks r) (few : ∀ maxBatch, c = .tryReadBatch maxBatch → ¬ Overlong env R d segs r maxBatch) :
    failureOf (still (ask env fuel c) d r).1 = some e := by
  have known := tryReadStill view ahead enough
  rw [refused] at known
  have ended : itemsOf marks = [] ∧ stop.refusal = some e := by
    generalize files : itemsOf marks = items at known
    cases items with
    | cons x rest => cases known
    | nil =>
      cases why : stop.refusal with
      | none =>
        rw [why] at known
        cases known
      | some e' =>
        rw [why] at known
        cases known
        exact ⟨rfl, rfl⟩
  obtain ⟨n', left, answered⟩ := stilled (askSpec view ahead enough c)
  have missing : foundBy (still (ask env fuel c) d r).1 = false := by
    cases found : foundBy (still (ask env fuel c) d r).1 with
    | false => rfl
    | true => exact absurd ended.1 (answered.found found)
  cases failure : failureOf (still (ask env fuel c) d r).1 with
  | none =>
    have stopped := (answered.nothing failure missing looks).2
    rw [ended.2] at stopped
    cases stopped
  | some e' =>
    rcases answered.failed e' failure with refused | ⟨_, stopped⟩ | ⟨_, maxBatch, batch, many⟩
    · exact (noRefusal refused).elim
    · rw [← stopped, ended.2]
    · exact (few maxBatch batch ⟨marks, stop, ahead, many⟩).elim

theorem unfoundDelivers {res : Except IoError Reply} (missing : foundBy res = false) : deliveredOf res = [] := by
  match res, missing with
  | .error _, _ => rfl
  | .ok (.message none), _ => rfl
  | .ok (.appended msgs _), missing =>
    show msgs = []
    simpa [foundBy, Reply.found] using missing
  | .ok (.batch none), _ => rfl
  | .ok (.peeked _), _ => rfl
  | .ok (.polled _), _ => rfl

/- Every call finds a record exactly if a single read would. -/
theorem foundTogether (view : View env R d segs) (ahead : Ahead env R d segs r marks stop) (enough : marks.length < fuel)
    (c : ReadCall) (looks : c.looks r)
    (few : ∀ maxBatch, c = .tryReadBatch maxBatch → ¬ Overlong env R d segs r maxBatch) :
    foundBy (still (ask env fuel c) d r).1 = true ↔ itemsOf marks ≠ [] := by
  obtain ⟨n', left, answered⟩ := stilled (askSpec view ahead enough c)
  refine ⟨answered.found, fun some => ?_⟩
  by_contra missing
  have missing : foundBy (still (ask env fuel c) d r).1 = false := by simpa using missing
  have delivered := answered.delivered
  rw [unfoundDelivers missing] at delivered
  cases failure : failureOf (still (ask env fuel c) d r).1 with
  | none => exact some (answered.nothing failure missing looks).1
  | some e =>
    rcases answered.failed e failure with refused | ⟨empty, _⟩ | ⟨_, maxBatch, batch, many⟩
    · exact noRefusal refused
    · exact some (delivered.kept.trans empty)
    · exact few maxBatch batch ⟨marks, stop, ahead, many⟩

theorem tryReadFinds (view : View env R d segs) (ahead : Ahead env R d segs r marks stop) (enough : marks.length < fuel) :
    (∃ msg r', still (tryRead env fuel) d r = (.ok (some msg), r')) ↔ itemsOf marks ≠ [] := by
  have known := tryReadStill view ahead enough
  generalize still (tryRead env fuel) d r = out at known ⊢
  obtain ⟨res, r'⟩ := out
  constructor
  · rintro ⟨msg, _, same⟩ empty
    cases same
    rw [empty] at known
    cases why : stop.refusal with
    | none =>
      rw [why] at known
      cases known
    | some e =>
      rw [why] at known
      cases known
  · intro some
    obtain ⟨x, rest, files⟩ := List.exists_cons_of_ne_nil some
    rw [files] at known
    match res, known with
    | .ok (.some msg), _ => exact ⟨msg, r', rfl⟩

/- As many single reads as there are records to deliver. -/
theorem plainReads (view : View env R d segs) (ahead : Ahead env R d segs r marks stop) (enough : marks.length < fuel)
    {count : Nat} (there : count ≤ (itemsOf marks).length) :
    ∃ plain r₁ left, still (readOwnedLoop env fuel count []) d r = (.ok (plain, .ok ()), r₁) ∧ plain.length = count ∧
      Delivered env R d segs marks stop r.position plain r₁ left := by
  obtain ⟨n', more, result, left, same, delivered, why⟩ :=
    stilled (readOwnedSpec view ahead enough [] count)
  generalize still (readOwnedLoop env fuel count []) d r = out at same delivered ⊢
  obtain ⟨res, r'⟩ := out
  dsimp only at same
  subst same
  have total : left = [] → more.length = (itemsOf marks).length := by
    rintro rfl
    have fewer := delivered.fewer
    have rest : (itemsOf marks).drop more.length = [] := delivered.rest.symm
    have := List.drop_eq_nil_iff.mp rest
    omega
  cases result with
  | ok _ =>
    refine ⟨more, r', left, rfl, ?_, delivered⟩
    obtain ⟨fewer, all | ⟨empty, _⟩⟩ := why
    · exact all
    · have := total empty
      omega
  | error e =>
    obtain ⟨fewer, refused | ⟨empty, _⟩⟩ := why
    · exact (noRefusal refused).elim
    · have := total empty
      omega

/-- All read paths agree: the calls deliver, in any order, what single reads deliver, and leave the
reader where single reads do. -/
theorem readPathsAgree (view : View env R d segs) (standing : Standing R d segs r s g p) (calls : List ReadCall) :
    ∃ enough, ∀ fuel, enough ≤ fuel → ∃ replies r' plain r₁,
      still (converse env fuel calls) d r = (.ok replies, r') ∧
      still (readOwnedLoop env fuel (deliveredBy replies).length []) d r = (.ok (plain, .ok ()), r₁) ∧
      (deliveredBy replies).map (MessageRef.record R d) = plain.map (MessageRef.record R d) ∧
      (∃ s g p, Standing R d segs r' s g p) ∧
      r'.position = (r.position + (deliveredBy replies).length) % usize ∧ Agree env R fuel d r' r₁ ∧
      (∀ r₂, still (pollForUserMessage env fuel) d r' = (.ok true, r₂) →
        ∃ msg r₃, still (tryRead env fuel) d r₂ = (.ok (some msg), r₃)) ∧
      ∀ c : ReadCall, c.looks r' → (∀ maxBatch, c = .tryReadBatch maxBatch → ¬ Overlong env R d segs r' maxBatch) →
        (foundBy (still (ask env fuel c) d r').1 = true ↔ ∃ msg r₂, still (tryRead env fuel) d r' = (.ok (some msg), r₂)) ∧
        ∀ e r₂, still (tryRead env fuel) d r' = (.error e, r₂) → failureOf (still (ask env fuel c) d r').1 = some e := by
  obtain ⟨names, inv⟩ := view.stored
  obtain ⟨_, after, _, _, back, _⟩ := standing.place
  obtain ⟨ends, stop, last⟩ := pathEnd view standing.found
  have path := pathSlots standing.found back last
  have ahead : Ahead env R d segs r _ stop := ⟨s, g, p, standing, path⟩
  generalize slotMarks g.ino after ++ ends = marks at ahead
  refine ⟨marks.length + 1, fun fuel enough => ?_⟩
  obtain ⟨n', replies, left, run, delivered, _⟩ := stilled (converseSpec view ahead enough calls)
  have shorter := delivered.shorter
  obtain ⟨plain, r₁, left₁, plainRun, count, plainly⟩ := plainReads view ahead enough delivered.fewer
  have shorter₁ := plainly.shorter
  have same : (deliveredBy replies).map (MessageRef.record R d) = plain.map (MessageRef.record R d) := by
    rw [delivered.first, plainly.first, count]
  have left : itemsOf left = itemsOf left₁ := by rw [delivered.rest, plainly.rest, count]
  refine ⟨replies, _, plain, r₁, Prod.ext run rfl, plainRun, same, ?_, delivered.counted, ?_, ?_, ?_⟩
  · obtain ⟨s', g', p', standing', _⟩ := delivered.ahead
    exact ⟨s', g', p', standing'⟩
  · refine agreeOf view delivered.ahead plainly.ahead left ?_ (by omega) (by omega)
    rw [delivered.counted, plainly.counted, count]
  · intro r₂ ready
    obtain ⟨left₂, delivered₂, poll⟩ := pollStill view delivered.ahead (show _ < fuel by omega)
    have shorter₂ := delivered₂.shorter
    rw [ready] at delivered₂ poll
    rw [tryReadFinds view delivered₂.ahead (by omega)]
    rcases poll with ⟨_, i, p, rest, rfl⟩ | ⟨_, bad⟩
    · exact List.cons_ne_nil _ _
    · cases why : stop.refusal <;> rw [why] at bad <;> cases bad
  · intro c looks few
    refine ⟨?_, fun e r₂ refused => refusalReported view delivered.ahead (by omega) refused c looks few⟩
    rw [foundTogether view delivered.ahead (by omega) c looks few, tryReadFinds view delivered.ahead (by omega)]

/- The small history carries three records over two files, and a late joiner stands before them. -/
theorem smallStands : ∃ R segs g, View smallEnv R (after smallEnv smallLives) segs ∧ Named (after smallEnv smallLives) segs ∧
    segs[0]? = some g ∧ opened smallEnv 0 .lateJoin (after smallEnv smallLives) = .ok (openedAt R 0 g 0 g.base) ∧
    Standing R (after smallEnv smallLives) segs (openedAt R 0 g 0 g.base) 0 g 0 := by
  have ok : ∀ l ∈ smallLives, LifeOk (·.keep = none) l := by
    intro l mem
    simp only [smallLives, List.mem_cons, List.not_mem_nil, or_false] at mem
    rcases mem with rfl | rfl
    · exact ⟨rfl, by decide⟩
    · exact ⟨rfl, by decide⟩
  obtain ⟨segs, sound, named, _⟩ := reachedNamed smallEnv ok
  have some : segs ≠ [] := by
    rintro rfl
    obtain ⟨_, _, inv⟩ := sound
    have history : (after smallEnv smallLives).history = [] := inv.history
    exact absurd history (by decide +kernel)
  obtain ⟨g, rest, rfl⟩ := List.exists_cons_of_ne_nil some
  obtain ⟨R, view, open₀, standing⟩ := lateJoinStands sound named (g := g) rfl 0
  exact ⟨R, g :: rest, g, view, named, rfl, open₀, standing⟩

theorem readPathsAgreeSmall : ∃ r, opened smallEnv 0 .lateJoin (after smallEnv smallLives) = .ok r ∧
    ∃ enough, ∀ fuel, enough ≤ fuel → ∃ replies r',
      still (converse smallEnv fuel [.peekHeader, .tryReadBatch (some 2), .pollForUserMessage, .tryRead])
        (after smallEnv smallLives) r = (.ok replies, r') ∧
      r'.position = (r.position + (deliveredBy replies).length) % usize := by
  obtain ⟨R, segs, g, view, _, _, open₀, standing⟩ := smallStands
  obtain ⟨enough, agree⟩ := readPathsAgree view standing [.peekHeader, .tryReadBatch (some 2), .pollForUserMessage, .tryRead]
  refine ⟨_, open₀, enough, fun fuel more => ?_⟩
  obtain ⟨replies, r', _, _, run, _, _, _, position, _⟩ := agree fuel more
  exact ⟨replies, r', run, position⟩

end Agreement

section Failures

/- The last region mapped is the one of the cursor. -/
def CurrentMap (r : Reader) : Prop :=
  r.maps.getLast? = some ⟨r.fileSequence, r.readPosition / r.regionSize, r.ino⟩

theorem Ahead.current (ahead : Ahead env R d segs r marks stop) : CurrentMap r := by
  obtain ⟨s, g, p, standing, _⟩ := ahead
  unfold CurrentMap
  rw [standing.sequence, standing.slot, standing.region, standing.ino]
  exact standing.map

/- A program on a channel that stands still, from the `n`-th system call on. -/
def tried {α : Type} (x : Trial Disk Reader IoError α) (d : Disk) (faults : Nat → Option IoError) (r : Reader) (n : Nat) :
    Except IoError α × Reader × Nat := x d faults r n

theorem triedSpec {α : Type} {x : Trial Disk Reader IoError α} {f : Nat → Option IoError}
    {Q : Except IoError α → Reader → Nat → Prop} (spec : Trial.Spec d f r n x Q) :
    ∃ res r' n', tried x d f r n = (res, r', n') ∧ Q res r' n' := ⟨_, _, _, rfl, spec.2⟩

/- Single reads after the last refusal deliver everything that is left. -/
theorem drained (view : View env R d segs) (ahead : Ahead env R d segs r marks stop) (enough : marks.length < fuel)
    (whole : stop.refusal = none) (quiet : ∀ k, n ≤ k → faults k = none) {max : Nat} (most : (itemsOf marks).length < max) :
    ∃ more r' n', tried (readOwnedLoop env fuel max []) d faults r n = (.ok (more, .ok ()), r', n') ∧
      more.map (MessageRef.record R d) = itemRecords d (itemsOf marks) := by
  obtain ⟨_, r', n', run, more, result, left, rfl, delivered, why⟩ :=
    triedSpec (f := faults) (n := n) (readOwnedSpec view ahead enough [] max)
  have fewer := delivered.fewer
  have all : left = [] → more.map (MessageRef.record R d) = itemRecords d (itemsOf marks) := by
    rintro rfl
    obtain ⟨done, rfl, same⟩ := delivered.split
    rw [same, List.append_nil]
  cases result with
  | ok _ =>
    obtain ⟨_, full | ⟨empty, _⟩⟩ := why
    · omega
    · exact ⟨more, r', n', run, all empty⟩
  | error e =>
    obtain ⟨_, ⟨k, later, _, refused⟩ | ⟨_, stopped⟩⟩ := why
    · rw [quiet k later] at refused
      cases refused
    · rw [whole] at stopped
      cases stopped

/-- A reader survives refused calls: no error loses its place, what it has delivered is always the
next part of the channel's log, and once the calls succeed it delivers the rest. -/
theorem readerSurvives {g₀ : Seg} (view : View env R d segs) (whole : Whole d segs) (first : segs[0]? = some g₀)
    (standing : Standing R d segs r s g p) (calls : List ReadCall) :
    ∃ enough, ∀ fuel, enough ≤ fuel → ∀ faults, ∃ replies r' n' passed rest,
      tried (converse env fuel calls) d faults r 0 = (.ok replies, r', n') ∧
      (∀ reply ∈ replies, ∀ e, failureOf reply = some e → (∃ k, faults k = some e) ∨ e = tooMany) ∧
      r.position = (g₀.base + passed.length) % usize ∧
      records d segs = passed ++ (deliveredBy replies).map (MessageRef.record R d) ++ rest ∧
      r'.position = (r.position + (deliveredBy replies).length) % usize ∧ CurrentMap r' ∧
      (∀ c e r₂ n₂, tried (ask env fuel c) d faults r' n' = (.error e, r₂, n₂) → r₂.position = r'.position ∧ CurrentMap r₂ ∧
        shown R d (still (tryRead env fuel) d r₂).1 = shown R d (still (tryRead env fuel) d r').1) ∧
      ((∀ k, n' ≤ k → faults k = none) → ∀ max, rest.length < max → ∃ more r₂ n₂,
        tried (readOwnedLoop env fuel max []) d faults r' n' = (.ok (more, .ok ()), r₂, n₂) ∧
        more.map (MessageRef.record R d) = rest) := by
  obtain ⟨names, inv⟩ := view.stored
  obtain ⟨before, after, slots, _, back, index⟩ := standing.place
  obtain ⟨ends, stop, last⟩ := pathEnd view standing.found
  have path := pathSlots standing.found back last
  obtain ⟨unread, followed⟩ := pathRecords view whole path standing.found back
  have ahead : Ahead env R d segs r _ stop := ⟨s, g, p, standing, path⟩
  generalize slotMarks g.ino after ++ ends = marks at ahead unread
  refine ⟨marks.length + 1, fun fuel enough faults => ?_⟩
  obtain ⟨_, r', n', run, replies, left, rfl, delivered, excused⟩ :=
    triedSpec (f := faults) (n := 0) (converseSpec view ahead enough calls)
  have shorter := delivered.shorter
  have rest : (deliveredBy replies).map (MessageRef.record R d) ++ itemRecords d (itemsOf left) =
      itemRecords d (itemsOf marks) := by
    obtain ⟨done, rfl, same⟩ := delivered.split
    rw [same, itemsAppend, itemRecordsAppend]
  refine ⟨replies, r', n', records d (segs.take s) ++ slotRecords (d.data g.ino) before, itemRecords d (itemsOf left), run,
    ?_, ?_, ?_, delivered.counted, Ahead.current delivered.ahead, ?_, ?_⟩
  · intro reply mem e failure
    rcases excused reply mem e failure with given | stopped | many
    · exact .inl given
    · rw [followed] at stopped
      cases stopped
    · exact .inr many
  · rw [index, baseCounts inv first standing.found, List.length_append, slotRecordsLength, Nat.add_assoc]
  · rw [List.append_assoc, rest, unread, recordsSplit standing.found, slots]
    simp [slotRecords]
  · intro c e r₂ n₂ error
    obtain ⟨_, _, _, run₂, left₂, answered⟩ :=
      triedSpec (f := faults) (n := n') (askSpec view delivered.ahead (show _ < fuel by omega) c)
    cases run₂.symm.trans error
    have kept : Delivered env R d segs left stop r'.position [] r₂ left₂ := answered.delivered
    have shorter₂ := kept.shorter
    refine ⟨?_, Ahead.current kept.ahead, ?_⟩
    · rw [kept.counted, List.length_nil, Nat.add_zero, Ahead.small delivered.ahead]
    · rw [tryReadStill view kept.ahead (by omega), tryReadStill view delivered.ahead (by omega), kept.kept]
  · intro quiet max most
    refine drained view delivered.ahead (by omega) followed quiet ?_
    rwa [itemRecords, List.length_map] at most

/- The first two system calls are refused. -/
theorem readerSurvivesSmall : ∃ r, opened smallEnv 0 .lateJoin (after smallEnv smallLives) = .ok r ∧
    ∃ enough, ∀ fuel, enough ≤ fuel → ∃ replies r' n',
      tried (converse smallEnv fuel [.tryRead, .tryReadBatch none, .tryRead]) (after smallEnv smallLives)
        (fun k => if k < 2 then some (errOther "mmap failed") else none) r 0 = (.ok replies, r', n') ∧
      r'.position = (r.position + (deliveredBy replies).length) % usize ∧ CurrentMap r' := by
  obtain ⟨R, segs, g, view, named, first, open₀, standing⟩ := smallStands
  obtain ⟨enough, survives⟩ := readerSurvives view (namedWhole named) first standing
    [.tryRead, .tryReadBatch none, .tryRead]
  refine ⟨_, open₀, enough, fun fuel more => ?_⟩
  obtain ⟨replies, r', n', _, _, run, _, _, _, position, current, _⟩ := survives fuel more
    (fun k => if k < 2 then some (errOther "mmap failed") else none)
  exact ⟨replies, r', n', run, position, current⟩

end Failures
end Xchannel.ReadAgreement
