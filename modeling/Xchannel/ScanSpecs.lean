import Xchannel.ChainScan

/-! The single scan over any bytes: where it stops, and with what. -/
namespace Xchannel.ScanSpecs
open ByteMemory Format Storage ChannelLog RecordChain Observation SegmentWalk WriterSpecs ReaderOpen ReaderCalls ReadPath
  ReadSpecs BatchSpecs PartialRun ChainScan

/-- A path over no User record. -/
structure Quiet (env : Env) (R gen : Nat) (d : Disk) (pl : Place) (hops : List Hop) (mid : Place) : Prop where
  run : Run (hop env R gen d) pl hops mid
  none : usersOf hops = []

/-- The error a scan meets at a place. A batch checks the room for a header itself. -/
def Thwarts (env : Env) (R gen : Nat) (d : Disk) (checked : Bool) (pl : Place) (e : IoError) : Prop :=
  match onward env R gen d pl with
  | .hole => if checked then Plain e else e = faulted
  | .unmapped => e = faulted
  | .damaged => Plain e
  | .barred e' => e = e' ∧ Plain e
  | _ => False

section Edges
variable {env : Env} {R gen s i p len : Nat} {d : Disk} {r : Reader} {inst : InstanceId} {faults : Nat → Option IoError}
  {n : Nat}

theorem edgeBytes (d : Disk) (faults : Nat → Option IoError) (n : Nat) (region : r.regionSize = R) {t : Nat} (map : r.maps.getLast? = some ⟨t, p / R, i⟩)
    (fits : p % R + (16 + len) ≤ R) :
    (rollEdge (r.maps.length - 1) (p % R) len : Trial Disk Reader IoError RollEdge) d faults r n =
      (RollEdge.decode (slice (d.data i) (p + headerSlot) len), r, n) := by
  obtain rfl := region
  unfold rollEdge
  rw [Trial.selfRun, lastMap map]
  dsimp only
  rw [Trial.refuseRun _ _ _ _ (by show ¬ (r.regionSize < p % r.regionSize + 16 + len); omega), Trial.lookRun, slotSplit]
  cases RollEdge.decode (slice (d.data i) (p + headerSlot) len) <;> rfl

/- A decoded `Roll` leads where the bytes say, unless a call was refused. -/
theorem successorSame (edge : RollEdge) :
    Trial.Spec d faults r n (openSuccessor env R gen i s inst edge) fun res r' n' => r' = r ∧
      (res = ((openSuccessor env R gen i s inst edge : Static Disk Reader IoError Successor) d noReader).1 ∨
        ∃ e, res = .error e ∧ Trial.Refused faults n n' e) := by
  refine Trial.specMono (successorAgrees R gen i s inst edge d faults r n) ?_
  rintro res r' n' _ ⟨rfl, _, same | refused⟩
  · exact ⟨rfl, .inl (same.trans ((successorBlind R gen i s inst edge d noReader).2.1 r'))⟩
  · exact ⟨rfl, .inr refused⟩

/- An error of a first part that makes no call. -/
theorem specStop {α β : Type} {x : Trial Disk Reader IoError α} {f : α → Trial Disk Reader IoError β} {e : IoError}
    {Q : Except IoError β → Reader → Nat → Prop} (run : x d faults r n = (.error e, r, n)) (post : Q (.error e) r n) :
    Trial.Spec d faults r n (x >>= f) Q := by
  refine Trial.specSeq (P := fun res r' n' => res = .error e ∧ r' = r ∧ n' = n) ⟨?_, ?_⟩ ?_ ?_
  · rw [run]
  · rw [run]
    exact ⟨rfl, rfl, rfl⟩
  · rintro _ _ _ _ ⟨bad, _⟩
    cases bad
  · rintro _ _ _ _ ⟨same, rfl, rfl⟩
    cases same
    exact post

theorem leadSpec (region : r.regionSize = R) {t : Nat} (map : r.maps.getLast? = some ⟨t, p / R, i⟩)
    (fits : p % R + (16 + len) ≤ R) :
    Trial.Spec d faults r n (do openSuccessor env R gen i s inst (← rollEdge (r.maps.length - 1) (p % R) len))
      fun res r' n' => r' = r ∧ (res = follow env R gen d ⟨s, i, inst, p⟩ len ∨
        ∃ e, res = .error e ∧ Trial.Refused faults n n' e) := by
  have edge := edgeBytes d faults n region map fits
  unfold follow
  dsimp only
  generalize RollEdge.decode (slice (d.data i) (p + headerSlot) len) = decoded at edge
  cases decoded with
  | error e => exact specStop edge ⟨rfl, .inl rfl⟩
  | ok edge' => exact Trial.specRun edge (successorSame edge')

end Edges

section Scans
variable {env : Env} {R gen : Nat} {d : Disk} {r : Reader} {faults : Nat → Option IoError} {n fuel : Nat} {pl : Place}

theorem nextFileSpec (docked : Docked R gen r) (edge : RollEdge) :
    Trial.Spec d faults r n (openNextFile env edge) fun res r' n' =>
      (∃ found, ((openSuccessor env R gen r.ino r.fileSequence r.fileInstance edge :
          Static Disk Reader IoError Successor) d noReader).1 = .ok found ∧ res = .ok () ∧ Docked R gen r' ∧
        place r' = ⟨found.sequence, found.ino, found.fileInstance, 0⟩) ∨
      ∃ e, res = .error e ∧ r' = r ∧ (Trial.Refused faults n n' e ∨
        ((openSuccessor env R gen r.ino r.fileSequence r.fileInstance edge :
          Static Disk Reader IoError Successor) d noReader).1 = .error e) := by
  obtain rfl := docked.region
  obtain rfl := docked.generation
  have header := docked.header
  unfold openNextFile
  apply Trial.specSelf
  rw [header]
  refine Trial.specSeq (successorSame edge) ?_ ?_
  · rintro found r1 n1 _ ⟨rfl, same | ⟨e, bad, _⟩⟩
    · refine ⟨Nat.le_refl _, .inl ⟨found, same.symm, rfl, ⟨rfl, rfl, rfl, ?_⟩, rfl⟩⟩
      show _ = some (⟨found.sequence, 0 / r1.regionSize, found.ino⟩ : MappedRegion)
      rw [Nat.zero_div]
      rfl
    · cases bad
  · rintro e r1 n1 _ ⟨rfl, same | ⟨e', error, refused⟩⟩
    · exact .inr ⟨e, rfl, rfl, .inr same.symm⟩
    · cases error
      exact .inr ⟨_, rfl, rfl, .inl refused⟩

/- The round of a scan at a committed `Roll`. -/
theorem rollRaw (docked : Docked R gen r) {len : Nat} {β : Type} {rest : Trial Disk Reader IoError β}
    {Q : Except IoError β → Reader → Nat → Prop} (fits : r.readPosition % R + (16 + len) ≤ R)
    (moved : ∀ found r' n', n ≤ n' → follow env R gen d (place r) len = .ok found → Docked R gen r' →
      place r' = ⟨found.sequence, found.ino, found.fileInstance, 0⟩ → Trial.Spec d faults r' n' rest Q)
    (failed : ∀ e n', (Trial.Refused faults n n' e ∨ follow env R gen d (place r) len = .error e) → Q (.error e) r n') :
    Trial.Spec d faults r n (rollEdge (r.maps.length - 1) (r.readPosition % r.regionSize) len >>= fun edge =>
      openNextFile env edge >>= fun _ => rest) Q := by
  have edge := edgeBytes d faults n docked.region docked.map fits
  rw [docked.region]
  unfold follow place at moved failed
  dsimp only at moved failed
  generalize RollEdge.decode (slice (d.data r.ino) (r.readPosition + headerSlot) len) = decoded at edge moved failed
  cases decoded with
  | error e => exact specStop edge (failed e n (.inr rfl))
  | ok edge' =>
    refine Trial.specRun edge (Trial.specSeq (nextFileSpec docked edge') ?_ ?_)
    · rintro _ r1 n1 later (⟨found, leads, _, there, same⟩ | ⟨e, bad, _⟩)
      · exact moved found r1 n1 later leads there same
      · cases bad
    · rintro e r1 n1 _ (⟨_, _, bad, _⟩ | ⟨e', error, rfl, why⟩)
      · cases bad
      · cases error
        exact failed _ n1 why

/-- How a scan for the next User record ends: at an open slot, at a record, which is consumed or not, or
in an error that leaves it where it is. -/
def Halted (env : Env) (R gen : Nat) (d : Disk) (faults : Nat → Option IoError) (consume : Bool) (pl : Place)
    (fuel n : Nat) : Except IoError (Option FoundRecord) → Reader → Nat → Prop
  | .ok none, r, _ => Docked R gen r ∧ ∃ hops, Quiet env R gen d pl hops (place r) ∧ onward env R gen d (place r) = .free
  | .ok (some found), r, _ => Docked R gen r ∧ ∃ hops mid next, Quiet env R gen d pl hops mid ∧
      onward env R gen d mid = .user next ∧ FoundAt R d r mid.ino mid.pos found ∧
      place r = if consume then next else mid
  | .error e, r, n' => Docked R gen r ∧ ∃ hops, Quiet env R gen d pl hops (place r) ∧
      (Trial.Refused faults n n' e ∨ (e = endless ∧ fuel ≤ hops.length) ∨ Thwarts env R gen d false (place r) e)

theorem Quiet.cons {h : Hop} {next mid : Place} {hops : List Hop} (quiet : Quiet env R gen d next hops mid)
    (step : hop env R gen d pl = some (h, next)) (none : h.item? = .none) : Quiet env R gen d pl (h :: hops) mid :=
  ⟨.next step quiet.run, by rw [usersOf, List.filterMap_cons_none none]; exact quiet.none⟩

theorem Halted.cons {consume : Bool} {n₁ n₂ : Nat} {h : Hop} {next : Place}
    {res : Except IoError (Option FoundRecord)} (halted : Halted env R gen d faults consume next fuel n₁ res r n₂)
    (later : n ≤ n₁) (step : hop env R gen d pl = some (h, next)) (none : h.item? = .none) :
    Halted env R gen d faults consume pl (fuel + 1) n res r n₂ := by
  match res, halted with
  | .ok .none, ⟨docked, hops, quiet, free⟩ => exact ⟨docked, _, quiet.cons step none, free⟩
  | .ok (some found), ⟨docked, hops, mid, next, quiet, rest⟩ => exact ⟨docked, _, mid, next, quiet.cons step none, rest⟩
  | .error e, ⟨docked, hops, quiet, why⟩ =>
    refine ⟨docked, _, quiet.cons step none, ?_⟩
    rcases why with refused | ⟨same, short⟩ | thwarts
    · exact .inl (refused.widen later (Nat.le_refl _))
    · exact .inr (.inl ⟨same, by rw [List.length_cons]; omega⟩)
    · exact .inr (.inr thwarts)

theorem quietHere (pl : Place) : Quiet env R gen d pl [] pl := ⟨.here pl, rfl⟩

/- Each round takes one step of the path, whatever the bytes. -/
theorem scanRaw (regions : Regions env R) (sized : Sized d) (docked : Docked R gen r) {consume : Bool} :
    Trial.Spec d faults r n (scanLoop env consume fuel)
      (Halted env R gen d faults consume (place r) fuel n) := by
  induction fuel generalizing r n with
  | zero => exact Trial.specFail ⟨docked, [], quietHere _, .inr (.inl ⟨rfl, Nat.le_refl _⟩)⟩
  | succ fuel ih =>
    have view := sees env R gen d (place r)
    have region := docked.region
    have map : r.maps.getLast? = some ⟨(place r).sequence, (place r).pos / R, (place r).ino⟩ := docked.map
    have stuck (e : IoError) {n' : Nat} (thwarts : Thwarts env R gen d false (place r) e) :
        Halted env R gen d faults consume (place r) (fuel + 1) n (.error e) r n' :=
      ⟨docked, [], quietHere _, .inr (.inr thwarts)⟩
    unfold scanLoop
    apply Trial.specSelf
    generalize way : onward env R gen d (place r) = way' at view
    unfold Thwarts at stuck
    rw [way] at stuck
    have off : r.readPosition % r.regionSize = (place r).pos % R := by rw [region]; rfl
    rw [off]
    cases view with
    | hole crosses =>
      have unmapped : ¬ headerMapped env R d ⟨0, (place r).pos / R, (place r).ino⟩ ((place r).pos % R) := by
        unfold headerMapped
        simp only [Bool.decide_and, Bool.and_eq_true, decide_eq_true_eq]
        exact fun mapped => absurd mapped.1 (Nat.not_le.mpr crosses)
      exact specStop (sightFaults region map unmapped) (stuck _ rfl)
    | unmapped room off => exact specStop (sightFaults region map off) (stuck _ rfl)
    | unreadable room mapped header =>
      exact specStop ((sightRun region map mapped).trans (by rw [header])) (stuck _ (sightPlain header))
    | @crossing hdr room mapped header committed crosses =>
      refine Trial.specRun ((sightRun region map mapped).trans (by rw [header])) ?_
      rw [if_neg (not_not.mpr committed), refuseIf, if_pos (by rw [region]; omega)]
      exact Trial.specFail (stuck _ trivial)
    | free room mapped header uncommitted =>
      refine Trial.specRun ((sightRun region map mapped).trans (by rw [header])) ?_
      rw [if_pos uncommitted]
      exact Trial.specRet ⟨docked, [], quietHere _, way⟩
    | @record hdr _ readable leads =>
      have spans := readable.spans regions sized
      have fits := readable.fits
      obtain ⟨length, total, messageType, userMeta⟩ := sightFields readable.header readable.committed
      refine Trial.specRun ((sightRun region map readable.mapped).trans (by rw [readable.header])) ?_
      rw [if_neg (not_not.mpr readable.committed)]
      refine Trial.specRefuse (by rw [region]; omega) ?_
      cases leads with
      | user kind =>
        rw [kind]
        dsimp only
        have found (r' : Reader) (more : List MappedRegion) (maps : r'.maps = r.maps ++ more) :
            FoundAt R d r' r.ino r.readPosition
              ⟨⟨r.maps.length - 1, (place r).pos % R, hdr.payloadLen⟩, hdr.messageType, hdr.userMetaU64⟩ := by
          refine ⟨⟨r.fileSequence, ?_⟩, rfl, length, messageType, userMeta⟩
          have last := lastMap docked.map
          rw [maps, List.getElem?_append_left (List.getElem?_eq_some_iff.mp last).1]
          exact last
        cases consume with
        | false =>
          rw [if_neg (by decide)]
          exact Trial.specRet ⟨docked, [], place r, _, quietHere _, way, found r [] (List.append_nil _).symm, rfl⟩
        | true =>
          rw [if_pos rfl]
          refine Trial.specSeq (docked.take regions spans) ?_ ?_
          · rintro _ r1 n1 _ (⟨_, there, same, more, maps⟩ | ⟨e, bad, _⟩)
            · exact Trial.specRet ⟨there, [], place r, _, quietHere _, way, found r1 more maps, same⟩
            · cases bad
          · rintro e r1 n1 _ (⟨bad, _⟩ | ⟨e', error, rfl, refused⟩)
            · cases bad
            · cases error
              exact ⟨docked, [], quietHere _, .inl refused⟩
      | service kind =>
        have step := hopService way
        have rest : Trial.Spec d faults r n (passService env (alignUp (r.readPosition + hdr.totalLen)) >>= fun _ =>
            scanLoop env consume fuel) (Halted env R gen d faults consume (place r) (fuel + 1) n) := by
          refine Trial.specSeq (docked.pass regions spans) ?_ ?_
          · rintro _ r1 n1 later (⟨_, there, same⟩ | ⟨e, bad, _⟩)
            · refine Trial.specMono (ih there) fun _ _ _ _ post => ?_
              rw [same] at post
              exact post.cons later step rfl
            · cases bad
          · rintro e r1 n1 _ (⟨bad, _⟩ | ⟨e', error, rfl, refused⟩)
            · cases bad
            · cases error
              exact ⟨docked, [], quietHere _, .inl refused⟩
        rcases kind with kind | kind
        · rw [kind]
          exact rest
        · rw [kind]
          exact rest
      | roll kind leads =>
        have step := hopRoll way
        rw [kind, ← off]
        refine rollRaw docked (by rw [length, ← total]; exact fits) ?_ ?_
        · intro found r1 n1 later leads' there same
          cases leads.symm.trans leads'
          refine Trial.specMono (ih there) fun _ _ _ _ post => ?_
          rw [same] at post
          exact post.cons later step rfl
        · rintro e n1 (refused | leads')
          · exact ⟨docked, [], quietHere _, .inl refused⟩
          · cases leads.symm.trans leads'
      | barred kind leads =>
        rw [kind, ← off]
        refine rollRaw docked (by rw [length, ← total]; exact fits) ?_ ?_
        · intro found r1 n1 later leads' there same
          cases leads.symm.trans leads'
        · rintro e' n1 (refused | leads')
          · exact ⟨docked, [], quietHere _, .inl refused⟩
          · cases leads.symm.trans leads'
            exact stuck _ ⟨rfl, followPlain leads⟩

end Scans
end Xchannel.ScanSpecs
