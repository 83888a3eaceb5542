import Xchannel.ReadAgreement
import Xchannel.Labels

/-! From the writer's calls to the reader's: what a session commits, after any number of sessions
before it were killed, is what a late joiner delivers. -/
namespace Xchannel.Delivery
open ByteMemory Format Storage RecordChain SegmentInvariant ChannelInvariant ChannelSteps ChannelLog CrashProgram
  Observation WriterCalls WriterOpen WriterSpecs CallSpecs BuildSpecs Sessions SessionSpecs StepLaws Labels ReaderOpen
  ReaderCalls ReadPath ReadSpecs ReadLaws OpenSpecs ReadAgreement

section Reading
variable {env : Env} {R n fuel : Nat} {d : Disk} {segs : List Seg} {r : Reader} {g : Seg} {marks : List Mark} {stop : Stop}

theorem readAllSpec (view : View env R d segs) (ahead : Ahead env R d segs r marks stop) (enough : marks.length < fuel)
    (followed : stop.refusal = none) {calls : Nat} (more : (itemsOf marks).length < calls) :
    Trial.Spec d (fun _ => none) r n (readAll env fuel calls) fun res r' _ =>
      ∃ msgs, res = .ok msgs ∧ Delivered env R d segs marks stop r.position msgs r' [] := by
  induction calls generalizing r marks n with
  | zero => omega
  | succ calls ih =>
    unfold readAll
    refine Trial.specSeq (tryReadSpec view ahead enough) ?_ ?_
    · rintro msg r1 n1 _ post
      cases msg with
      | none =>
        obtain ⟨_, _, delivered⟩ := post
        exact Trial.specRet ⟨[], rfl, delivered⟩
      | some msg =>
        obtain ⟨left, delivered⟩ := post
        have shorter := delivered.shorter
        have fewer := delivered.fewer
        have rest := congrArg List.length delivered.rest
        rw [List.length_drop] at rest
        rw [List.length_singleton] at fewer rest
        refine Trial.specSeq (ih delivered.ahead (by omega) (by omega)) ?_ ?_
        · rintro msgs r2 n2 _ ⟨_, same, rest⟩
          cases same
          exact Trial.specRet ⟨msg :: msgs, rfl, delivered.trans rest⟩
        · rintro e r2 n2 _ ⟨_, bad, _⟩
          cases bad
    · rintro e r1 n1 _ ⟨left, _, refused | ⟨_, stopped⟩⟩
      · exact (noRefusal refused).elim
      · rw [followed] at stopped
        cases stopped

/-- A late joiner that calls `try_read` until it returns `None` delivers `log`, and then stands at
`position`. -/
def Delivers (env : Env) (d : Disk) (log : List Record) (position : Nat) : Prop :=
  ∃ r, opened env 0 .lateJoin d = .ok r ∧ ∃ enough, ∀ fuel, enough ≤ fuel → ∀ calls, log.length < calls →
    ∃ msgs r', still (readAll env fuel calls) d r = (.ok msgs, r') ∧
      msgs.map (MessageRef.record r.regionSize d) = log ∧ r'.position = position

theorem lateJoinDelivers (sound : Sound env d segs) (named : Named d segs) (first : segs[0]? = some g) :
    Delivers env d (records d segs) ((g.base + (records d segs).length) % usize) := by
  obtain ⟨R, view, open₀, standing⟩ := lateJoinStands sound named first 0
  obtain ⟨ends, stop, last⟩ := pathEnd view first
  obtain ⟨_, inv⟩ := view.stored
  have chain : Chain R (d.data g.ino) 0 g.slots g.fin := (inv.each 0 g first).1.chain
  have path := pathSlots first chain last
  obtain ⟨whole, followed⟩ := pathRecords view (namedWhole named) path first chain
  have ahead : Ahead env R d segs _ _ stop := ⟨0, g, 0, standing, path⟩
  generalize slotMarks g.ino g.slots ++ ends = marks at ahead whole
  have all : itemRecords d (itemsOf marks) = records d segs := by
    rw [whole, recordsSplit first]
    rfl
  have count : (itemsOf marks).length = (records d segs).length := by rw [← all, itemRecords, List.length_map]
  refine ⟨_, open₀, marks.length + 1, fun fuel enough calls more => ?_⟩
  obtain ⟨_, msgs, run, delivered⟩ := stilled
    (readAllSpec view ahead enough followed (show _ < calls by omega))
  obtain ⟨done, split, same⟩ := delivered.split
  rw [List.append_nil] at split
  subst split
  have total : msgs.length = (records d segs).length := by
    rw [← all, ← same, List.length_map]
  refine ⟨msgs, _, Prod.ext run rfl, same.trans all, ?_⟩
  rw [delivered.counted, total]
  rfl

end Reading

section Finishing
variable {env : Env} {cfg : Config} {calls : List Call} {d : Disk} {segs : List Seg}

/- The writer `build` returns and the channel it leaves. -/
def start (env : Env) (cfg : Config) (d : Disk) : Except IoError (Writer × Disk) :=
  ((build env cfg : Io Unit Writer).result () d).map fun w => (w, (build env cfg : Io Unit Writer).disk () d)

/- A session run to the end of its calls. -/
def finish (env : Env) (cfg : Config) (calls : List Call) (d : Disk) : Except IoError (Session × Disk) :=
  (start env cfg d).map fun (w, d) => ((serve env calls).volatile (.start w) d, (serve env calls).disk (.start w) d)

/-- What `build` leaves of a channel that nothing prunes. -/
structure Started (env : Env) (cfg : Config) (d : Disk) (segs : List Seg) (w : Writer) (d' : Disk) (segs' : List Seg) (s : Nat)
    (g : Seg) : Prop where
  ready : Ready env cfg w d' segs' s g
  idle : w.pendingMsgSize = none
  log : records d' segs' = records d segs
  named : Named d' segs'
  fresh : segs = [] → d.segments 0 = none → s = 0 ∧ g.base = cfg.baseRecordIndex.toNat

theorem startSpec (admitted : Admitted env cfg) (unpruned : cfg.keepFiles = none) (inv : Inv cfg.regionSize d segs)
    (named : Named d segs) : ∃ w d' segs' s g, start env cfg d = .ok (w, d') ∧ Started env cfg d segs w d' segs' s g := by
  obtain ⟨quiet, _, w, segs', s, g, result, ready, idle, fresh⟩ := buildOk (τ := Unit) (t := ()) admitted inv
  have legal := unprunedLegal unpruned admitted.regions (quietLawful quiet)
  refine ⟨w, _, segs', s, g, ?_, ready, idle, quietRecords admitted.geometry inv quiet ready.inv, ?_, fresh⟩
  · unfold start
    rw [result]
    rfl
  · exact runNamed ⟨_, admitted.regions, inv⟩ named legal ⟨_, admitted.regions, ready.inv⟩

/-- What a session leaves, from the channel its writer was built on. -/
structure Finished (env : Env) (cfg : Config) (d : Disk) (segs : List Seg) (x : Session) (d' : Disk) (segs' : List Seg) :
    Prop where
  serving : ∃ s g, Serving env cfg x d' segs' s g
  log : records d' segs' = records d segs ++ x.accepted
  named : Named d' segs'
  grown : Grows segs segs'

theorem finishSpec {w : Writer} {d₀ : Disk} {segs₀ : List Seg} {s : Nat} {g : Seg} (unpruned : cfg.keepFiles = none)
    (run : start env cfg d₀ = .ok (w, d)) (started : Started env cfg d₀ segs₀ w d segs s g) (ok : ∀ c ∈ calls, CallOk cfg c) :
    ∃ x d' segs', finish env cfg calls d₀ = .ok (x, d') ∧ Finished env cfg d segs x d' segs' := by
  have admitted := started.ready.admitted
  have serving : Serving env cfg (.start w) d segs s g := .idle started.ready rfl started.idle
  obtain ⟨lawful, _, segs', s', g', serving', log⟩ := serveSpec serving ok (List.append_nil _).symm
  have legal := unprunedLegal unpruned admitted.regions lawful
  have sound : Sound env d segs := ⟨_, admitted.regions, serving.inv⟩
  refine ⟨_, _, segs', ?_, ⟨s', g', serving'⟩, log, ?_, ?_⟩
  · unfold finish
    rw [run]
    rfl
  · exact runNamed sound started.named legal ⟨_, admitted.regions, serving'.inv⟩
  · exact runGrows sound legal ⟨_, admitted.regions, serving'.inv⟩

/- The next index of the writer counts every record of the channel. -/
theorem nextIndex {x : Session} {s : Nat} {g g₀ : Seg} (serving : Serving env cfg x d segs s g) (first : segs[0]? = some g₀) :
    nextRecordIndex x.writer d = (g₀.base + (records d segs).length) % usize := by
  have count : messageCount (d.data g.ino) = users g.slots := serving.settled.count
  have base : baseRecordIndex (d.data g.ino) = g.base := serving.ok.base
  have before := baseCounts serving.inv first serving.found
  have split := recordsSplit (d := d) serving.found
  have none : segs.drop (s + 1) = [] := List.drop_eq_nil_of_le (by have := serving.top; omega)
  have total : (records d segs).length = (records d (segs.take s)).length + users g.slots := by
    rw [split, none, List.length_append, List.length_append, slotRecordsLength]
    rfl
  unfold nextRecordIndex
  rw [serving.ino, base, count, total, before, Nat.add_assoc]

theorem Finished.delivers {x : Session} {d' : Disk} {segs' : List Seg} {g₀ : Seg}
    (finished : Finished env cfg d segs x d' segs') (first : segs'[0]? = some g₀) :
    Delivers env d' (records d segs ++ x.accepted) ((g₀.base + (records d segs ++ x.accepted).length) % usize) ∧
    nextRecordIndex x.writer d' = (g₀.base + (records d segs ++ x.accepted).length) % usize := by
  obtain ⟨s, g, serving⟩ := finished.serving
  rw [← finished.log]
  exact ⟨lateJoinDelivers ⟨_, serving.admitted.regions, serving.inv⟩ finished.named first, nextIndex serving first⟩

/-- End to end: what the commits of a session returned `Ok` for is what a late joiner delivers. -/
theorem endToEnd (env : Env) (cfg : Config) (admitted : Admitted env cfg) (unpruned : cfg.keepFiles = none)
    (calls : List Call) (sizes : ∀ n, .reserve n ∈ calls → n.toNat < 2 ^ 63) :
    ∃ x d, finish env cfg calls Disk.empty = .ok (x, d) ∧
      (cfg.baseRecordIndex.toNat + x.accepted.length < usize →
        Delivers env d x.accepted (cfg.baseRecordIndex.toNat + x.accepted.length) ∧
        nextRecordIndex x.writer d = cfg.baseRecordIndex.toNat + x.accepted.length) := by
  have ok : ∀ c ∈ calls, CallOk cfg c := by
    intro c mem
    cases c with
    | reserve n =>
      have := sizes n mem
      exact .inl (by omega)
    | _ => trivial
  obtain ⟨w, d₁, segs₁, s, g, built, started⟩ := startSpec admitted unpruned (emptyInv _) (fun s g found => by simp at found)
  obtain ⟨x, d, segs, run, finished⟩ := finishSpec unpruned built started ok
  refine ⟨x, d, run, fun small => ?_⟩
  obtain ⟨rfl, base⟩ := started.fresh rfl rfl
  obtain ⟨g₀, first, kept⟩ := finished.grown 0 g started.ready.found
  have result := finished.delivers first
  have none : records d₁ segs₁ = [] := started.log
  rwa [none, List.nil_append, kept.base, base, Nat.mod_eq_of_lt small] at result

theorem smallAdmitted : Admitted smallEnv smallConfig where
  geometry := ⟨by decide, by decide, ⟨512, rfl⟩⟩
  paged := rfl
  rolls := .inl rfl
  allocated := ⟨4096, rfl⟩
  named := rfl
  kept := nofun

/- A record, an abandoned reservation, a short commit, a refused one, a roll and an empty record. -/
def smallCalls : List Call :=
  [.reserve 5, .fill 0 [1, 2, 3, 4, 5], .commit 7 5 9, .reserve 9, .reserve 4, .fill 1 [6], .commit 8 2 0, .commit 8 2 0,
    .rollFile, .reserve 0, .commit 1 0 3]

def smallLog : List Record := [⟨7, 9, [1, 2, 3, 4, 5]⟩, ⟨8, 0, [0, 6]⟩, ⟨1, 3, []⟩]

theorem endToEndSmall : ∃ x d, finish smallEnv smallConfig smallCalls Disk.empty = .ok (x, d) ∧
    x.accepted = smallLog ∧ Delivers smallEnv d smallLog 3 ∧ nextRecordIndex x.writer d = 3 := by
  obtain ⟨x, d, run, delivers⟩ := endToEnd smallEnv smallConfig smallAdmitted rfl smallCalls (by
    intro n mem
    simp only [smallCalls, List.mem_cons, Call.reserve.injEq, reduceCtorEq, List.not_mem_nil, or_false, false_or] at mem
    rcases mem with rfl | rfl | rfl | rfl <;> decide)
  have accepted : (finish smallEnv smallConfig smallCalls Disk.empty).toOption.map (·.1.accepted) = some smallLog := by
    decide +kernel
  rw [run] at accepted
  have accepted : x.accepted = smallLog := Option.some.inj accepted
  rw [accepted] at delivers
  exact ⟨x, d, run, accepted, delivers (by decide)⟩

end Finishing
section Recovery
variable {env : Env} {cfg : Config} {R R' : Nat} {lives : List Life} {d : Disk} {segs : List Seg}

theorem regionStable (R : Nat) : Stable fun m => regionSizeField m = R := by
  intro m m' same region
  rw [← region]
  exact readLECongr fun a lo hi => same a (.inl ⟨by omega, by omega⟩)

/- A channel all of whose files carry one region size is one of that region size. -/
theorem regionInv (inv : Inv R' d segs) (stamped : Stamped (fun m => regionSizeField m = R) d segs) : Inv R d segs := by
  by_cases same : R' = R
  · subst same
    exact inv
  · have empty : segs = [] := by
      cases segs with
      | nil => rfl
      | cons g rest =>
        have region := regionField (inv.each 0 g rfl).1
        exact absurd (region.symm.trans (stamped.published g List.mem_cons_self)) same
    subst empty
    have free (s i : Nat) : d.segments s ≠ some i := by
      intro named
      obtain ⟨_, _, ⟨g, found, _⟩ | ⟨rfl, _, _, _, blank, _⟩⟩ := inv.names s i named
      · simp at found
      · have region : regionSizeField (d.data i) = R' := (validateOk.mp blank.header.header).2.2.2.2.1
        exact same (region.symm.trans (stamped.spare i named))
    exact
      { history := inv.history
        distinct := inv.distinct
        old := inv.old
        names := fun s i named => absurd named (free s i)
        newest := fun s g found => by simp at found
        attempts := inv.attempts
        apart := inv.apart
        each := fun s g found => by simp at found
        gone := fun s g found => by simp at found }

/-- The sessions of a channel without retention that share one region size, and whose sizes make
nothing wrap. -/
structure Alike (cfg : Config) (lives : List Life) : Prop where
  sizes : SizesOk lives
  shared : ∀ l ∈ lives, l.config.regionSize = cfg.regionSize ∧ l.config.keepFiles = none

theorem alikeReached (env : Env) (alike : Alike cfg lives) (small : cfg.regionSize < 2 ^ 32) :
    ∃ segs, Inv cfg.regionSize (after env lives) segs ∧ Named (after env lives) segs ∧
      records (after env lives) segs = committedLog Disk.empty (timeline env Disk.empty lives) := by
  have ok : ∀ l ∈ lives, LifeOk (fun policy => policy.keep = none ∧ policy.region = cfg.regionSize) l := by
    intro l mem
    obtain ⟨region, unpruned⟩ := alike.shared l mem
    exact ⟨⟨unpruned, region⟩, alike.sizes l mem⟩
  have legal := timelineLegal env ok emptySound
  obtain ⟨segs, sound, named, log⟩ := reachedNamed env fun l mem => ⟨(ok l mem).kept.1, alike.sizes l mem⟩
  refine ⟨segs, ?_, named, log⟩
  have stamped : Stamped (fun m => regionSizeField m = cfg.regionSize) (after env lives) segs :=
    runStamped (regionStable _) (fun policy used m labelled => by
      rw [labelled.1, used.2, Nat.mod_eq_of_lt small]) emptySound
      ⟨fun g mem => by simp at mem, fun i named => by simp [Disk.empty] at named⟩ legal sound
  obtain ⟨_, _, inv⟩ := sound
  exact regionInv inv stamped

/- The first segment of a channel with a writer. -/
theorem firstOf {w : Writer} {s : Nat} {g : Seg} (ready : Ready env cfg w d segs s g) : ∃ g₀, segs[0]? = some g₀ := by
  have := ready.top
  exact ⟨segs[0], List.getElem?_eq_getElem (by omega)⟩

/-- After any number of killed sessions the next one opens, with every record whose committed byte was
stored and no other, and what it commits comes right after them. -/
theorem crashRecovery (env : Env) (cfg : Config) (lives : List Life) (calls : List Call) (alike : Alike cfg lives)
    (admitted : Admitted env cfg) (unpruned : cfg.keepFiles = none) (ok : ∀ c ∈ calls, CallOk cfg c) :
    ∃ log, log = committedLog Disk.empty (timeline env Disk.empty lives) ∧
    ∃ w d i, start env cfg (after env lives) = .ok (w, d) ∧ d.segments 0 = some i ∧
      (∃ slots, Visits (d.data w.ino) 0 slots w.nextHdrPos ∧ Stops (d.data w.ino) w.nextHdrPos ∧
        messageCount (d.data w.ino) = committedUsers (d.data w.ino) slots) ∧
      (baseRecordIndex (d.data i) + log.length < usize →
        Delivers env d log (baseRecordIndex (d.data i) + log.length) ∧
        nextRecordIndex w d = baseRecordIndex (d.data i) + log.length) ∧
      ∃ x d', finish env cfg calls (after env lives) = .ok (x, d') ∧
        (baseRecordIndex (d.data i) + (log ++ x.accepted).length < usize →
          Delivers env d' (log ++ x.accepted) (baseRecordIndex (d.data i) + (log ++ x.accepted).length) ∧
          nextRecordIndex x.writer d' = baseRecordIndex (d.data i) + (log ++ x.accepted).length) := by
  obtain ⟨segs, inv, named, log⟩ := alikeReached env alike admitted.geometry.small
  obtain ⟨w, d, segs₁, s, g, built, started⟩ := startSpec admitted unpruned inv named
  obtain ⟨x, d', segs', run, finished⟩ := finishSpec unpruned built started ok
  have ready := started.ready
  obtain ⟨g₀, first⟩ := firstOf ready
  have base : baseRecordIndex (d.data g₀.ino) = g₀.base := (ready.inv.each 0 g₀ first).1.base
  have counted : messageCount (d.data g.ino) = users g.slots := ready.settled.count
  refine ⟨_, rfl, w, d, g₀.ino, built, started.named 0 g₀ first, ⟨g.slots.map Prod.fst, ?_, ?_, ?_⟩, ?_, x, d', run, ?_⟩
  · rw [ready.ino, ready.slot]
    exact Chain.visits ready.ok.chain
  · rw [ready.ino, ready.slot]
    exact .inl ready.settled.free
  · have chain : Chain cfg.regionSize (d.data g.ino) 0 g.slots g.fin := ready.ok.chain
    rw [ready.ino, counted, Chain.committedUsers chain]
  · rw [base, ← log, ← started.log]
    intro small
    have delivers := lateJoinDelivers ⟨_, admitted.regions, ready.inv⟩ started.named first
    have next := nextIndex (x := .start w) (.idle ready rfl started.idle) first
    rw [Nat.mod_eq_of_lt small] at delivers next
    exact ⟨delivers, next⟩
  · rw [base, ← log, ← started.log]
    intro small
    obtain ⟨g₁, first', kept⟩ := finished.grown 0 g₀ first
    have result := finished.delivers first'
    rwa [kept.base, Nat.mod_eq_of_lt small] at result

/- A session killed right after the store of a committed byte, and one killed inside its recovery. -/
def killedLives : List Life :=
  [⟨smallConfig, smallFormed, [.reserve 5, .fill 0 [1, 2, 3, 4, 5], .commit 7 5 9, .reserve 3, .commit 8 2 0], 53⟩,
    ⟨smallConfig, smallFormed, [.rollFile], 1⟩]

theorem crashRecoverySmall : ∃ w d x d', start smallEnv smallConfig (after smallEnv killedLives) = .ok (w, d) ∧
    finish smallEnv smallConfig [.reserve 0, .commit 1 0 3] (after smallEnv killedLives) = .ok (x, d') ∧
    ∃ log, log = [⟨7, 9, [1, 2, 3, 4, 5]⟩] ∧ ∃ base, (base + log.length < usize → Delivers smallEnv d log (base + log.length)) ∧
      (base + (log ++ x.accepted).length < usize →
        Delivers smallEnv d' (log ++ x.accepted) (base + (log ++ x.accepted).length)) := by
  have alike : Alike smallConfig killedLives := ⟨by decide, by decide⟩
  obtain ⟨log, same, w, d, i, built, _, _, before, x, d', run, after⟩ := crashRecovery smallEnv smallConfig killedLives
    [.reserve 0, .commit 1 0 3] alike smallAdmitted rfl (by decide)
  refine ⟨w, d, x, d', built, run, log, ?_, _, fun small => (before small).1, fun small => (after small).1⟩
  rw [same]
  decide +kernel

/- The header that the wrapped reservation lays over the Channel record, and no session can open the
channel again. -/
theorem wrappedUnrecovered : ∃ e, start smallEnv smallConfig (after smallEnv (wrappedLives 3872 [])) = .error e := by
  have failed : (start smallEnv smallConfig (after smallEnv (wrappedLives 3872 []))).toOption.map Prod.fst = none := by
    decide +kernel
  generalize start smallEnv smallConfig (after smallEnv (wrappedLives 3872 [])) = result at failed
  cases result with
  | ok _ => cases failed
  | error e => exact ⟨e, rfl⟩

end Recovery
end Xchannel.Delivery
