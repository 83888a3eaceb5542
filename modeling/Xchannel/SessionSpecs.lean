import Xchannel.Sessions
import Xchannel.CallSpecs
import Xchannel.BuildSpecs

/-! What holds along every history of sessions: each operation is a legal step of the channel, and
the log is exactly what was committed. -/
namespace Xchannel.SessionSpecs
open ByteMemory Format Storage RecordChain SegmentInvariant ChannelInvariant ChannelSteps ChannelLog
  CrashProgram WriterCalls WriterOpen StoreRuns WriterSpecs RollSpecs CallSpecs BuildSpecs Sessions

/-- A session between two calls: its writer is ready, and the bytes it reserved hold what the user
put there. -/
structure Serving (env : Env) (cfg : Config) (x : Session) (d : Disk) (segs : List Seg) (s : Nat) (g : Seg) : Prop
    extends Ready env cfg x.writer d segs s g where
  borrowed : ∀ b, x.buffer = some b → x.writer.pendingMsgSize = some b.len ∧ b.ino = g.ino ∧ b.off = g.fin + 16
  contents : ∀ n, x.writer.pendingMsgSize = some n → x.contents = slice (d.data g.ino) (g.fin + 16) n

/-- The sizes asked for do not make the sums of `try_reserve` wrap. -/
def CallOk (cfg : Config) : Call → Prop
  | .reserve msgSize => SizeOk cfg msgSize
  | _ => True

instance (cfg : Config) (c : Call) : Decidable (CallOk cfg c) := by unfold CallOk; split <;> infer_instance

section Perform
variable {env : Env} {cfg : Config} {x : Session} {d : Disk} {segs : List Seg} {s : Nat} {g : Seg}

/- What one call leaves: a session between two calls, with the log grown by what it committed. -/
def Served (env : Env) (cfg : Config) (before : List Record) (x' : Session) (d' : Disk) : Prop :=
  ∃ segs' s' g', Serving env cfg x' d' segs' s' g' ∧ records d' segs' = before ++ x'.accepted

/- A call of the writer leaves the rest of the session alone. -/
theorem specOnWriter {α : Type} {G : Disk → Op → Prop} {y : Self α} {P : Except IoError α → Writer → Disk → Prop}
    (h : Spec G x.writer d y P) : Spec G x d (onWriter y) fun r x' d' =>
      P r x'.writer d' ∧ x'.buffer = x.buffer ∧ x'.contents = x.contents ∧ x'.accepted = x.accepted :=
  specZoom (υ := Writer) ⟨h.1, h.2, rfl, rfl, rfl⟩

/- A session without a reservation. -/
theorem Serving.idle (ready : Ready env cfg x.writer d segs s g) (free : x.buffer = none)
    (none : x.writer.pendingMsgSize = none) : Serving env cfg x d segs s g :=
  { toReady := ready
    borrowed := fun b some => absurd (free.symm.trans some) (by simp)
    contents := fun n some => absurd (none.symm.trans some) (by simp) }

theorem patchSlice {m : Mem} {off n start : Nat} {bytes : List UInt8} (fits : start + bytes.length ≤ n) :
    patch (slice m off n) start bytes = slice (write m (off + start) bytes) off n := by
  obtain ⟨rest, rfl⟩ := Nat.exists_eq_add_of_le fits
  have drop : (slice m off (start + bytes.length + rest)).drop (start + bytes.length) =
      slice m (off + (start + bytes.length)) rest := by
    rw [sliceAppend]
    exact List.drop_left' (sliceLength _ _ _)
  rw [patch, takeSlice _ _ _ _ (by omega), drop, sliceAppend, sliceAppend, sliceWriteOther (.inl (Nat.le_refl _)),
    sliceWriteSame, sliceWriteOther (.inr (by omega))]

theorem fillSpec (serving : Serving env cfg x d segs s g) {start : Nat} {bytes : List UInt8} {before : List Record}
    (log : records d segs = before ++ x.accepted) :
    Spec (Lawful cfg.regionSize cfg.policy) x d (perform env (.fill start bytes))
      fun _ x' d' => Served env cfg before x' d' := by
  unfold perform
  apply specSelf
  cases borrowed : x.buffer with
  | none => exact specRet ⟨segs, s, g, serving, log⟩
  | some b =>
    obtain ⟨pending, ino, off⟩ := serving.borrowed b borrowed
    have align := align8Le (16 + b.len)
    apply specRefuse
    · exact fun _ => ⟨segs, s, g, serving, log⟩
    intro fits
    rw [ino, off]
    obtain ⟨quiet, opened⟩ := serving.toOpen.scratch (π := cfg.policy) (g.fin + 16 + start)
      bytes (.inl (by omega))
    have guar : Guar Disk.apply (Quiet cfg.regionSize cfg.policy) d [.store g.ino (g.fin + 16 + start) bytes] :=
      ⟨quiet, trivial⟩
    have kept := quietRecords serving.admitted.geometry serving.inv guar opened.inv
    refine specEmitTo (v := d.apply (.store g.ino (g.fin + 16 + start) bytes)) ⟨quiet.1, trivial⟩ rfl ?_
    have filled : Serving env cfg ⟨x.writer, some b, patch x.contents start bytes, x.accepted⟩
        (d.apply (.store g.ino (g.fin + 16 + start) bytes)) segs s g :=
      { toOpen := opened
        config := serving.config
        admitted := serving.admitted
        sequence := serving.sequence
        fileInstance := serving.fileInstance
        ino := serving.ino
        fileLen := serving.fileLen.trans (storeLen _ _ _ _).symm
        region := serving.region
        slot := serving.slot
        pending := fun n some => by
          cases Option.some.inj (pending.symm.trans some)
          obtain ⟨room, signed, allowed⟩ := serving.pending _ some
          refine ⟨room, ?_, allowed⟩
          rw [← signed, storeData]
          exact readCongr fun a lo hi => writeOutside (by omega)
        borrowed := fun b' same => serving.borrowed b' (borrowed.trans same)
        contents := fun n some => by
          cases Option.some.inj (pending.symm.trans some)
          rw [serving.contents _ some, patchSlice (by omega), storeData] }
    exact ⟨trivial, segs, s, g, filled, kept.trans log⟩

theorem reserveSpec (serving : Serving env cfg x d segs s g) {msgSize : UInt64} (sizeOk : SizeOk cfg msgSize)
    {before : List Record} (log : records d segs = before ++ x.accepted) :
    Spec (Lawful cfg.regionSize cfg.policy) x d (perform env (.reserve msgSize))
      fun _ x' d' => Served env cfg before x' d' := by
  unfold perform
  refine specSkip (u := { x with buffer := none }) rfl ?_
  obtain ⟨quiet, post⟩ := tryReserveSpec serving.toReady sizeOk
  have kept {segs' : List Seg} (inv' : Inv cfg.regionSize (Act.disk (tryReserve env msgSize) x.writer d) segs') :
      records (Act.disk (tryReserve env msgSize) x.writer d) segs' = before ++ x.accepted :=
    (quietRecords serving.admitted.geometry serving.inv quiet inv').trans log
  refine specSeq (specOnWriter (x := { x with buffer := none }) (P := fun r w' d' =>
    (Reserved env cfg msgSize.toNat r w' d' ∨ ((∃ e, r = .error e) ∧ w' = x.writer ∧ d' = d)) ∧
    ∀ segs', Inv cfg.regionSize d' segs' → records d' segs' = before ++ x.accepted)
    ⟨quietLawful quiet, post, fun _ => kept⟩) ?_ ?_
  · rintro b x1 d1 ⟨⟨⟨segs1, s1, g1, ready1, pending1, rfl⟩ | ⟨⟨e, bad⟩, _⟩, log1⟩, _, _, accepted⟩
    · refine specLook (specSelf ⟨trivial, segs1, s1, g1, ?_, ?_⟩)
      · refine { toReady := ready1, borrowed := fun b some => ?_, contents := fun n some => ?_ }
        · cases Option.some.inj some
          exact ⟨pending1, rfl, rfl⟩
        · cases Option.some.inj (pending1.symm.trans some)
          rfl
      · exact (log1 segs1 ready1.inv).trans (congrArg (before ++ ·) accepted.symm)
    · cases bad
  · rintro e x1 d1 ⟨⟨⟨segs1, s1, g1, ready1, idle1⟩ | ⟨_, writer, rfl⟩, log1⟩, free, contents, accepted⟩
    · exact ⟨segs1, s1, g1, .idle ready1 free idle1, by rw [log1 segs1 ready1.inv, accepted]⟩
    · -- refused before anything changed, so an earlier reservation is still there
      refine ⟨segs, s, g, ?_, by rw [log, accepted]⟩
      refine { toReady := ?_, borrowed := fun b some => ?_, contents := fun n some => ?_ }
      · rw [writer]
        exact serving.toReady
      · exact absurd (free.symm.trans some) (by simp)
      · rw [writer] at some
        rw [contents]
        exact serving.contents n some

theorem commitCallSpec (serving : Serving env cfg x d segs s g) {msgType : UInt16} {length : UInt32}
    {userMetaU64 : UInt64} {before : List Record} (log : records d segs = before ++ x.accepted) :
    Spec (Lawful cfg.regionSize cfg.policy) x d (perform env (.commit msgType length userMetaU64))
      fun _ x' d' => Served env cfg before x' d' := by
  unfold perform
  refine specSkip (u := { x with buffer := none }) rfl ?_
  refine specSeq (specOnWriter (x := { x with buffer := none }) (commitSpec serving.toReady)) ?_ ?_
  · rintro _ x1 d1 ⟨⟨segs1, g1, ready1, idle1, ⟨n, pending, enough⟩, _, grown⟩, free, contents, accepted⟩
    refine specSelf ⟨trivial, segs1, s, g1, .idle ready1 free idle1, ?_⟩
    show records d1 segs1 = before ++ (x1.accepted ++ [⟨msgType, userMetaU64, x1.contents.take length.toNat⟩])
    rw [grown, log, contents, accepted, serving.contents n pending, takeSlice _ _ _ _ enough, List.append_assoc]
  · rintro e x1 d1 ⟨⟨segs1, g1, ready1, idle1, rfl⟩, free, contents, accepted⟩
    cases segsUnique serving.inv ready1.inv
    exact ⟨segs, s, g1, .idle ready1 free idle1, by rw [log, accepted]⟩

theorem rollCallSpec (serving : Serving env cfg x d segs s g) {before : List Record}
    (log : records d segs = before ++ x.accepted) :
    Spec (Lawful cfg.regionSize cfg.policy) x d (perform env .rollFile)
      fun _ x' d' => Served env cfg before x' d' := by
  unfold perform
  refine specSkip (u := { x with buffer := none }) rfl ?_
  obtain ⟨quiet, segs1, s1, g1, ready1, idle1, _⟩ := rollFileSpec serving.toReady
  have kept := (quietRecords serving.admitted.geometry serving.inv quiet ready1.inv).trans log
  apply specMono (specOnWriter (x := { x with buffer := none }) (P := fun _ w' d' => ∃ segs1 s1 g1,
    Ready env cfg w' d' segs1 s1 g1 ∧ w'.pendingMsgSize = none ∧ records d' segs1 = before ++ x.accepted)
    ⟨quietLawful quiet, segs1, s1, g1, ready1, idle1, kept⟩)
  rintro r x1 d1 ⟨⟨segs1, s1, g1, ready1, idle1, log1⟩, free, contents, accepted⟩
  exact ⟨segs1, s1, g1, .idle ready1 free idle1, by rw [log1, accepted]⟩

theorem performSpec (serving : Serving env cfg x d segs s g) {c : Call} (ok : CallOk cfg c) {before : List Record}
    (log : records d segs = before ++ x.accepted) :
    Spec (Lawful cfg.regionSize cfg.policy) x d (perform env c) fun _ x' d' => Served env cfg before x' d' := by
  cases c with
  | reserve msgSize => exact reserveSpec serving ok log
  | fill start bytes => exact fillSpec serving log
  | commit msgType length userMetaU64 => exact commitCallSpec serving log
  | rollFile => exact rollCallSpec serving log

theorem serveSpec (serving : Serving env cfg x d segs s g) {calls : List Call} (ok : ∀ c ∈ calls, CallOk cfg c)
    {before : List Record} (log : records d segs = before ++ x.accepted) :
    Spec (Lawful cfg.regionSize cfg.policy) x d (serve env calls) fun r x' d' =>
      r = .ok () ∧ Served env cfg before x' d' := by
  induction calls generalizing x d segs s g with
  | nil => exact specRet ⟨rfl, segs, s, g, serving, log⟩
  | cons c calls ih =>
    unfold serve
    apply specAttempt
    apply specMono (performSpec serving (ok c List.mem_cons_self) log)
    rintro r x1 d1 ⟨segs1, s1, g1, serving1, log1⟩
    exact ih serving1 (fun c mem => ok c (List.mem_cons_of_mem _ mem)) log1

end Perform

section Timelines
variable {env : Env} {cfg : Config} {uses : Policy → Prop} {d : Disk} {segs : List Seg}

theorem emptySound : Sound env Disk.empty [] := ⟨env.page, pageRegions env, emptyInv _⟩

/- A session that is not killed: what it commits is what its commits returned `Ok` for. -/
theorem sessionSpec (formed : Formed cfg) (kept : uses cfg.policy) (sound : Sound env d segs) {calls : List Call}
    (ok : ∀ c ∈ calls, CallOk cfg c) : Guar Disk.apply (Legal env uses) d (sessionOps env cfg calls d) := by
  obtain ⟨calm, _, opened⟩ := buildSpec (τ := Unit) (t := ()) formed kept sound
  unfold sessionOps
  simp only [Act.ops, Act.result, Act.disk] at calm opened
  generalize (build env cfg : Io Unit Writer) () d = out at calm opened
  obtain ⟨ops, r, _⟩ := out
  have legal := guarMono (fun _ _ h => h.1) calm
  rcases opened with ⟨w, segs1, s, g, result, ready, idle⟩ | ⟨⟨e, result⟩, _⟩
  · have : r = .ok w := result
    subst this
    have serving : Serving env cfg (.start w) (run Disk.apply d ops) segs1 s g := .idle ready rfl idle
    exact guarAppend.mpr ⟨legal, legalOf kept ready.admitted.regions
      (serveSpec serving ok (List.append_nil (records (run Disk.apply d ops) segs1)).symm).1⟩
  · have : r = .error e := result
    subst this
    exact legal

/-- The sessions use the given retention settings, and their sizes make nothing wrap. -/
structure LifeOk (uses : Policy → Prop) (l : Life) : Prop where
  kept : uses l.config.policy
  calls : ∀ c ∈ l.calls, CallOk l.config c

theorem timelineLegal (env : Env) {lives : List Life} (ok : ∀ l ∈ lives, LifeOk uses l) (sound : Sound env d segs) :
    Guar Disk.apply (Legal env uses) d (timeline env d lives) := by
  induction lives generalizing d segs with
  | nil => trivial
  | cons l lives ih =>
    have here := ok l List.mem_cons_self
    have first : Guar Disk.apply (Legal env uses) d (l.ops env d) :=
      guarTake _ (sessionSpec l.formed here.kept sound here.calls)
    obtain ⟨segs1, sound1, _⟩ := runSound sound first
    exact guarAppend.mpr ⟨first, ih (fun l mem => ok l (List.mem_cons_of_mem _ mem)) sound1⟩

/- Every state a history of sessions reaches is a channel as it should be, and its log is what was
committed. -/
theorem reached (env : Env) {lives : List Life} (ok : ∀ l ∈ lives, LifeOk uses l) :
    ∃ segs, Sound env (after env lives) segs ∧
      records (after env lives) segs = committedLog Disk.empty (timeline env Disk.empty lives) := by
  obtain ⟨segs, sound, grown⟩ := runSound emptySound (timelineLegal env ok emptySound)
  exact ⟨segs, sound, grown⟩

/- Without retention every segment stays under its name. -/
theorem reachedNamed (env : Env) {lives : List Life} (ok : ∀ l ∈ lives, LifeOk (·.keep = none) l) :
    ∃ segs, Sound env (after env lives) segs ∧ Named (after env lives) segs ∧
      records (after env lives) segs = committedLog Disk.empty (timeline env Disk.empty lives) := by
  have legal := timelineLegal env ok emptySound
  obtain ⟨segs, sound, grown⟩ := runSound emptySound legal
  exact ⟨segs, sound, runNamed emptySound (fun s g found => by simp at found) legal sound, grown⟩

end Timelines
end Xchannel.SessionSpecs
