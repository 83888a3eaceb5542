import Xchannel.StepLaws

/-! The loop of `try_reserve` and its sums: it ends within three turns from every state of a writer,
and a size for which nothing wraps leaves room for the record and for a `Roll` after it. -/
namespace Xchannel.Reservations
open ByteMemory Format Storage RecordChain SegmentInvariant CrashProgram WriterCalls WriterOpen StoreRuns WriterSpecs
  CallSpecs BuildSpecs Sessions SessionSpecs StepLaws

section Turns
variable {τ : Type} {env : Env}

end Turns

/-- What a round of the loop in `try_reserve` does instead of reserving. -/
inductive Turn where
  | file | region
  deriving DecidableEq, Repr

/- One turn, and what the loop does after it unless it fails. -/
def turnThen (t : Turn) (x : Self Unit) (next : Writer → Disk → List Turn × Except IoError (Writer × Disk)) (w : Writer)
    (d : Disk) : List Turn × Except IoError (Writer × Disk) :=
  match x.result w d with
  | .error e => ([t], .error e)
  | .ok _ =>
    let rest := next (x.volatile w d) (x.disk w d)
    (t :: rest.1, rest.2)

/-- The rounds of the loop: the turns it takes, and the error of the last one or where it reserves. -/
def rounds (env : Env) (neededTotal : Nat) : Nat → Writer → Disk → List Turn × Except IoError (Writer × Disk)
  | 0, _, _ => ([], .error (.panicked "try_reserve does not end"))
  | fuel+1, w, d =>
    if 0 < w.config.fileRollSize.toNat ∧ w.config.fileRollSize.toNat < w.nextHdrPos + neededTotal then
      turnThen .file (rollFile env) (rounds env neededTotal fuel) w d
    else if w.config.regionSize < w.nextHdrPos % w.config.regionSize + neededTotal then
      turnThen .region (rollOverRegion env) (rounds env neededTotal fuel) w d
    else
      ([], .ok (w, d))

section Rounds
variable {env : Env} {w : Writer} {d : Disk} {n needed k files regions : Nat}

/-- From here `k` rounds are enough, with at most so many rolls of either kind. -/
def Ends (env : Env) (needed k files regions : Nat) (w : Writer) (d : Disk) : Prop :=
  ∃ out, (∀ more, rounds env needed (more + k) w d = out) ∧ out.1.count .file ≤ files ∧ out.1.count .region ≤ regions

theorem Ends.widen (h : Ends env needed k files regions w d) {k' files' regions' : Nat} (lo : k ≤ k') (lf : files ≤ files')
    (lr : regions ≤ regions') : Ends env needed k' files' regions' w d := by
  obtain ⟨out, same, few, fewer⟩ := h
  refine ⟨out, fun more => ?_, by omega, by omega⟩
  rw [← same (more + (k' - k))]
  congr 1
  omega

/- The slice handed out where the loop reserves. -/
def granted (n : Nat) (x : Writer × Disk) : Buffer :=
  ⟨x.1.ino, x.1.currentRegionIndex * x.1.config.regionSize + (x.1.nextHdrPos % x.1.config.regionSize + headerSlot), n⟩

end Rounds

section Pending

/-- A session of `cfg` on the disk as it is found, between two of its calls. -/
def working (env : Env) (cfg : Config) (calls : List Call) (d : Disk) : Option (Session × Disk) :=
  match (build env cfg : Io Unit Writer) () d with
  | (_, .error _, _) => none
  | (ops, .ok w, _) =>
    some ((serve env calls).volatile (.start w) (run Disk.apply d ops), (serve env calls).disk (.start w) (run Disk.apply d ops))

/-- What a reservation grants: room for the record and for a `Roll` after it, in sums that do not
wrap. A commit stays inside it, and a refused reservation leaves no more than was granted before. -/
structure Granted (env : Env) (w : Writer) (d : Disk) : Prop where
  room : ∀ n, w.pendingMsgSize = some n →
    w.nextHdrPos % w.config.regionSize + align8 (16 + n) + 56 ≤ w.config.regionSize
  commits : ∀ msgType length userMetaU64, (commit msgType length userMetaU64).result w d = .ok () →
    let m := ((commit msgType length userMetaU64).disk w d).data w.ino
    RecordAt w.config.regionSize m w.nextHdrPos .user ∧
    nextSlot m w.nextHdrPos % w.config.regionSize + 56 ≤ w.config.regionSize
  refuses : ∀ msgSize, SizeOk w.config msgSize → ∀ e, (tryReserve env msgSize).result w d = .error e →
    ∀ n, ((tryReserve env msgSize).volatile w d).pendingMsgSize = some n → w.pendingMsgSize = some n

theorem Ready.granted {env : Env} {cfg : Config} {w : Writer} {d : Disk} {segs : List Seg} {s : Nat} {g : Seg}
    (ready : Ready env cfg w d segs s g) : Granted env w d where
  room := by
    intro n some
    rw [ready.config, ready.slot]
    exact (ready.pending n some).1
  commits := by
    intro msgType length userMetaU64 ok
    have committed : Spec (ChannelLog.Lawful cfg.regionSize cfg.policy) w d (commit msgType length userMetaU64) _ := commitSpec ready
    obtain ⟨_, segs', g', ready', _, post⟩ := committed
    rw [ok] at post
    obtain ⟨_, appended, _⟩ := post
    rw [ready.config, ready.slot, ready.ino, ← appended.ino]
    generalize (commit msgType length userMetaU64).disk w d = d' at ready'
    have chain := ready'.ok.chain
    rw [appended.slots] at chain
    obtain ⟨_, here, tail⟩ := chain.split
    dsimp only
    rw [show nextSlot (d'.data g'.ino) g.fin = g'.fin from tail.nilEq]
    exact ⟨here, ready'.ok.room⟩
  refuses := by
    intro msgSize sizeOk e failed n some
    rw [ready.config] at sizeOk
    obtain ⟨_, post⟩ := tryReserveSpec ready sizeOk
    rw [failed] at post
    rcases post with ⟨segs', s', g', ready', idle⟩ | ⟨_, same, _⟩
    · exact absurd (idle.symm.trans some) (by simp)
    · rwa [same] at some

/- In every state a session reaches, on a channel left by any sessions before it. -/
theorem reservationsFit (env : Env) (lives : List Life) (cfg : Config) (formed : Formed cfg) (calls : List Call)
    (sizes : SizesOk lives) (plain : ∀ c ∈ calls, CallOk cfg c) (x : Session) (d : Disk)
    (at_x : working env cfg calls (after env lives) = some (x, d)) : Granted env x.writer d := by
  obtain ⟨segs, sound, _⟩ := reached env sizes.lives
  have built : Spec (Calm env fun _ => True) () (after env lives) (build env cfg) _ := buildSpec formed trivial sound
  obtain ⟨_, _, opened⟩ := built
  unfold working at at_x
  simp only [Act.result, Act.disk, Act.ops] at opened
  generalize (build env cfg : Io Unit Writer) () (after env lives) = out at opened at_x
  obtain ⟨ops, r, _⟩ := out
  rcases opened with ⟨w, segs1, s, g, result, ready, idle⟩ | ⟨⟨e, result⟩, _⟩
  · have : r = .ok w := result
    subst this
    have serving : Serving env cfg (.start w) (run Disk.apply (after env lives) ops) segs1 s g := .idle ready rfl idle
    obtain ⟨_, _, segs2, s2, g2, serving2, _⟩ := serveSpec serving plain
      (List.append_nil (ChannelLog.records (run Disk.apply (after env lives) ops) segs1)).symm
    cases Option.some.inj at_x
    exact Ready.granted serving2.toReady
  · have : r = .error e := result
    subst this
    cases at_x

theorem reservationsFitSmall : ∃ x d,
    working smallEnv smallConfig [.reserve 100, .commit 1 60 0, .reserve 50] (after smallEnv smallLives) = some (x, d) ∧
    Granted smallEnv x.writer d := by
  have built : (working smallEnv smallConfig [.reserve 100, .commit 1 60 0, .reserve 50]
      (after smallEnv smallLives)).isSome = true := by decide +kernel
  obtain ⟨⟨x, d⟩, at_x⟩ := Option.isSome_iff_exists.mp built
  exact ⟨x, d, at_x, reservationsFit smallEnv smallLives smallConfig smallFormed _ (by decide) (by decide) x d at_x⟩

/- A size for which the sums wrap to those of an empty record fails, but stays pending. -/
theorem wrappedReservation : ∃ x d,
    working smallEnv smallConfig [.reserve 18446744073709551600] Disk.empty = some (x, d) ∧ ¬ Granted smallEnv x.writer d := by
  have left : (working smallEnv smallConfig [.reserve 18446744073709551600] Disk.empty).map
      (fun x => (x.1.writer.pendingMsgSize, x.1.writer.config.regionSize)) = some (some 18446744073709551600, 4096) := by
    decide +kernel
  obtain ⟨⟨x, d⟩, at_x, same⟩ := Option.map_eq_some_iff.mp left
  refine ⟨x, d, at_x, fun law => ?_⟩
  have pending : x.writer.pendingMsgSize = some 18446744073709551600 := congrArg Prod.fst same
  have size : x.writer.config.regionSize = 4096 := congrArg Prod.snd same
  have room := law.room _ pending
  rw [size] at room
  have := align8Le (16 + 18446744073709551600)
  omega

end Pending
end Xchannel.Reservations
