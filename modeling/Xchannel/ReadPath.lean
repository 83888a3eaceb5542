import Xchannel.ReaderCalls
import Xchannel.BuildSpecs

/-! What lies ahead of a reader's cursor in a channel that stands still: the records it will deliver,
across regions and files, and where they end. -/
namespace Xchannel.ReadPath
open ByteMemory Format Storage RecordChain SegmentInvariant ChannelInvariant ChannelLog Observation SegmentWalk
  WalkSpecs WriterSpecs RecoverySpecs BuildSpecs ReaderOpen ReaderCalls

section Agreement
variable {τ : Type} {env : Env}

theorem createAgrees (base R : Nat) :
    Agrees (createReadOnly env base R : Trial Disk τ IoError Unit) (createReadOnly env base R) :=
  agreesBind (agreesLift _) fun _ => agreesSyscall

theorem presentAgrees (s : Nat) :
    Agrees (openSegmentIfPresent s : Trial Disk τ IoError (Option Nat)) (openSegmentIfPresent s) :=
  agreesBind agreesSyscall fun _ => agreesLook _

theorem lookLiftAgrees {α : Type} (f : Disk → Except IoError α) :
    Agrees (do lift (← Observe.look f) : Trial Disk τ IoError α) (do lift (← Observe.look f)) :=
  agreesBind (agreesLook _) fun _ => agreesLift _

theorem identityAgrees (i R s : Nat) :
    Agrees (validatedIdentity i R s : Trial Disk τ IoError Identity) (validatedIdentity i R s) :=
  agreesBind (agreesLook _) fun _ => agreesBind (agreesLift _) fun _ => lookLiftAgrees _

theorem successorAgrees (R gen header s : Nat) (inst : InstanceId) (edge : RollEdge) :
    Agrees (openSuccessor env R gen header s inst edge : Trial Disk Reader IoError Successor)
      (openSuccessor env R gen header s inst edge) := by
  unfold openSuccessor
  refine agreesBind (agreesLook _) fun _ => agreesBind (agreesLook _) fun _ => agreesBind (agreesRefuse _ _) fun _ =>
    agreesBind (presentAgrees _) fun found => ?_
  cases found with
  | none => exact agreesFail _
  | some i =>
    refine agreesBind (createAgrees _ _) fun _ => agreesBind (agreesLook _) fun _ => agreesBind (agreesLift _) fun _ =>
      agreesBind (agreesRefuse _ _) fun _ => agreesBind (identityAgrees _ _ _) fun _ =>
      agreesBind (agreesRefuse _ _) fun _ => agreesBind (agreesLook _) fun _ => agreesBind (agreesLift _) fun _ =>
      agreesBind (agreesRefuse _ _) fun _ => agreesBind (agreesLook _) fun _ => agreesBind (agreesRefuse _ _) fun _ =>
      agreesBind (agreesLook _) fun _ => agreesBind (agreesRefuse _ _) fun _ => agreesBind (createAgrees _ _) fun _ =>
      agreesPure _

end Agreement

section Successors
variable {env : Env} {R s : Nat} {d : Disk} {segs : List Seg} {g g' : Seg} {t : Reader}

/- What `open_successor` returns at the `Roll` of segment `s`. -/
def following (env : Env) (R : Nat) (d : Disk) (s : Nat) (g g' : Seg) (t : Reader) : Except IoError Successor × Reader :=
  (openSuccessor env R g.gen g.ino s g.ident.fileInstance ⟨s + 1, g'.ident.fileInstance, g'.base⟩ :
    Static Disk Reader IoError Successor) d t

theorem presentRun {τ α : Type} {f : Option Nat → Static Disk τ IoError α} {u : τ} (s : Nat) :
    (openSegmentIfPresent s >>= f) d u = f (d.segments s) d u := rfl

theorem identityRun {τ α : Type} {f : Identity → Static Disk τ IoError α} {u : τ} {i : Nat}
    (ok : SegOk R s (d.files i) g) : (validatedIdentity i R s >>= f) d u = f g.ident d u := by
  obtain ⟨header, _, prefixed, _⟩ := headerChecks ok
  have run : (validatedIdentity i R s : Static Disk τ IoError Identity) d u = (.ok g.ident, u) := by
    unfold validatedIdentity
    rw [Static.lookRun, header, Static.liftOk, Static.lookRun, prefixed, Static.liftRun]
  exact Static.bindOk _ _ run

theorem channelKind {i : Nat} (ok : SegOk R s (d.files i) g) :
    (MessageHeader.read (d.data i) 0).parsedHeaderType = .ok .channel := kindOk ok.header.kind

theorem pagePositive (env : Env) : 0 < env.page := by
  have := (pageRegions env).large
  omega

/- A page is mapped whatever the file. -/
theorem pageRun {τ α : Type} {f : Unit → Static Disk τ IoError α} {u : τ} :
    (createReadOnly env 0 env.page >>= f) d u = f () d u :=
  createIdle (Nat.mod_self _) (pagePositive env) (Nat.zero_mod _) f

theorem followingOk {names : Nat → Option Nat} (regions : Regions env R) (inv : Inv R { d with segments := names } segs)
    (found : segs[s]? = some g) (next : segs[s + 1]? = some g') (named : d.segments (s + 1) = some g'.ino) :
    following env R d s g g' t = (.ok ⟨s + 1, g'.ident.fileInstance, g'.ino, g'.base⟩, t) := by
  have large := regions.large
  have link := inv.link found next
  have ok := (inv.each s g found).1
  have ok' : SegOk R (s + 1) (d.files g'.ino) g' := (inv.each (s + 1) g' next).1
  obtain ⟨sequence, small, nonzero⟩ := linkSmall inv next
  obtain ⟨_, _, _, published⟩ := headerChecks ok'
  have base : baseRecordIndex (d.data g.ino) = g.base := ok.base
  have base' : baseRecordIndex (d.data g'.ino) = g'.base := ok'.base
  have gen' : generation (d.data g'.ino) = g.gen := by
    rw [← link.gen]
    exact ok'.gen
  have count : messageCount (d.data g.ino) = users g.slots := link.count
  have sum : g'.base = g.base + users g.slots := link.base
  have names := rollNames inv found next
  unfold following openSuccessor
  rw [Static.lookRun, Static.lookRun, base, count, Static.refuseRun _ _ (fun bad => bad ⟨sequence, rfl⟩), presentRun,
    named]
  dsimp only
  rw [createIdle regions.paged (by omega) (Nat.zero_mod _), Static.lookRun, channelKind ok', Static.liftOk,
    Static.refuseRun _ _ (fun bad => bad rfl), identityRun ok', Static.refuseRun _ _ (fun bad => bad names),
    Static.lookRun, published, Static.liftOk, Static.refuseRun _ _ (fun bad => bad rfl), Static.lookRun, base',
    Static.refuseRun _ _ (by show ¬ (2 ^ 64 ≤ _ ∨ _ ∨ _ ≠ g'.base); omega), Static.lookRun, gen',
    Static.refuseRun _ _ (fun bad => bad rfl), pageRun]
  rfl

/- Without a file under its name the successor is missing. -/
theorem followingMissing {names : Nat → Option Nat} (inv : Inv R { d with segments := names } segs)
    (next : segs[s + 1]? = some g') (gone : d.segments (s + 1) = none) :
    following env R d s g g' t = (.error (.text .notFound "No such file or directory"), t) := by
  obtain ⟨sequence, _, _⟩ := linkSmall inv next
  unfold following openSuccessor
  rw [Static.lookRun, Static.lookRun, Static.refuseRun _ _ (fun bad => bad ⟨sequence, rfl⟩), presentRun, gone]
  rfl

end Successors

/-- Where the records ahead of a cursor end: at the open slot of a segment, or at a `Roll` of it that
cannot be followed. -/
structure Stop where
  segment : Nat
  refusal : Option IoError
  deriving DecidableEq, Repr

/-- A channel that stands still, as its readers see it: any of its names may be missing, or lead to
a file that is refused. -/
structure View (env : Env) (R : Nat) (d : Disk) (segs : List Seg) : Prop where
  regions : Regions env R
  stored : ∃ names, Inv R { d with segments := names } segs
  rolls : ∀ s g g', segs[s]? = some g → segs[s + 1]? = some g' →
    d.segments (s + 1) = some g'.ino ∨ ∃ e, ∀ t, following env R d s g g' t = (.error e, t)

/-- What a reader steps over: a User record by its file and slot, the end of a region or of a file, or
the Channel record. -/
inductive Mark where
  | user (ino slot : Nat)
  | boundary
  | channel
  deriving DecidableEq, Repr

def markOf (i p : Nat) : HeaderType → Mark
  | .user => .user i p
  | .channel => .channel
  | _ => .boundary

def Mark.item? : Mark → Option (Nat × Nat)
  | .user i p => some (i, p)
  | _ => none

def itemsOf (marks : List Mark) : List (Nat × Nat) := marks.filterMap Mark.item?

def itemRecords (d : Disk) (items : List (Nat × Nat)) : List Record := items.map fun x => recordAt (d.data x.1) x.2

/-- What lies ahead of slot `p` of segment `s`, in order, and where it ends. -/
inductive Path (env : Env) (R : Nat) (d : Disk) (segs : List Seg) : Nat → Nat → List Mark → Stop → Prop where
  | caughtUp {s : Nat} {g : Seg} (found : segs[s]? = some g) (free : d.data g.ino g.fin = 0) :
      Path env R d segs s g.fin [] ⟨s, none⟩
  | record {s p : Nat} {g : Seg} {k : HeaderType} {marks : List Mark} {stop : Stop} (found : segs[s]? = some g)
      (here : RecordAt R (d.data g.ino) p k) (tail : Path env R d segs s (nextSlot (d.data g.ino) p) marks stop) :
      Path env R d segs s p (markOf g.ino p k :: marks) stop
  | roll {s : Nat} {g g' : Seg} {marks : List Mark} {stop : Stop} (found : segs[s]? = some g)
      (next : segs[s + 1]? = some g') (flag : d.data g.ino g.fin = 1) (named : d.segments (s + 1) = some g'.ino)
      (tail : Path env R d segs (s + 1) 0 marks stop) : Path env R d segs s g.fin (.boundary :: marks) stop
  | refused {s : Nat} {g g' : Seg} {e : IoError} (found : segs[s]? = some g) (next : segs[s + 1]? = some g')
      (flag : d.data g.ino g.fin = 1) (refuses : ∀ t, following env R d s g g' t = (.error e, t)) :
      Path env R d segs s g.fin [] ⟨s, some e⟩

section Paths
variable {env : Env} {R s : Nat} {d : Disk} {segs : List Seg} {g : Seg}

theorem itemsCons (mark : Mark) (marks : List Mark) : itemsOf (mark :: marks) = mark.item?.toList ++ itemsOf marks := by
  cases mark <;> rfl

theorem itemsAppend (a b : List Mark) : itemsOf (a ++ b) = itemsOf a ++ itemsOf b := List.filterMap_append

theorem itemRecordsAppend (a b : List (Nat × Nat)) : itemRecords d (a ++ b) = itemRecords d a ++ itemRecords d b :=
  List.map_append

def slotMarks (i : Nat) (slots : Slots) : List Mark := slots.map fun x => markOf i x.1 x.2

theorem slotMarksRecords (i : Nat) (slots : Slots) :
    itemRecords d (itemsOf (slotMarks i slots)) = slotRecords (d.data i) slots := by
  induction slots with
  | nil => rfl
  | cons x slots ih =>
    obtain ⟨p, k⟩ := x
    have rest : slotMarks i ((p, k) :: slots) = markOf i p k :: slotMarks i slots := rfl
    rw [rest, itemsCons, itemRecordsAppend, ih]
    cases k <;> rfl

/- The slots of one segment, then whatever comes after its end. -/
theorem pathSlots {p q : Nat} {slots : Slots} {marks : List Mark} {stop : Stop} (found : segs[s]? = some g)
    (chain : Chain R (d.data g.ino) p slots q) (rest : Path env R d segs s q marks stop) :
    Path env R d segs s p (slotMarks g.ino slots ++ marks) stop := by
  induction chain with
  | done p => exact rest
  | step here tail ih => exact .record found here (ih rest)

/- Every end of a segment leads somewhere. -/
theorem pathEnd (view : View env R d segs) (found : segs[s]? = some g) :
    ∃ marks stop, Path env R d segs s g.fin marks stop := by
  obtain ⟨names, inv⟩ := view.stored
  obtain ⟨left, last⟩ : ∃ left, s + left + 1 = segs.length := ⟨segs.length - s - 1, by have := lengthOf found; omega⟩
  induction left generalizing s g with
  | zero =>
    have tail := inv.tail found (by omega)
    exact ⟨[], ⟨s, none⟩, .caughtUp found tail.free⟩
  | succ left ih =>
    obtain ⟨g', next⟩ : ∃ g', segs[s + 1]? = some g' := ⟨segs[s + 1], List.getElem?_eq_getElem (by omega)⟩
    have link := inv.link found next
    by_cases flag : d.data g.ino g.fin = 1
    · rcases view.rolls s g g' found next with named | ⟨e, refuses⟩
      · obtain ⟨marks, stop, rest⟩ := ih next (by omega)
        exact ⟨_, stop, .roll found next flag named (pathSlots next (inv.each _ _ next).1.chain rest)⟩
      · exact ⟨[], ⟨s, some e⟩, .refused found next flag refuses⟩
    · have free : d.data g.ino g.fin = 0 := by
        rcases link.position with ⟨one, _⟩ | ⟨one | zero, _⟩
        · exact absurd one flag
        · exact absurd one flag
        · exact zero
      exact ⟨[], ⟨s, none⟩, .caughtUp found free⟩

end Paths

/-- A reader stands at slot `p` of segment `s`: the records before it are behind it and counted in its
position, and its last region is the one of the slot. -/
structure Standing (R : Nat) (d : Disk) (segs : List Seg) (r : Reader) (s : Nat) (g : Seg) (p : Nat) : Prop where
  found : segs[s]? = some g
  sequence : r.fileSequence = s
  ino : r.ino = g.ino
  header : r.header = g.ino
  fileInstance : r.fileInstance = g.ident.fileInstance
  region : r.regionSize = R
  gen : r.generation = g.gen
  base : r.baseRecordIndex = g.base
  slot : r.readPosition = p
  map : r.maps.getLast? = some ⟨s, p / R, g.ino⟩
  place : ∃ before after, g.slots = before ++ after ∧ Chain R (d.data g.ino) 0 before p ∧
    Chain R (d.data g.ino) p after g.fin ∧ r.position = (g.base + users before) % usize

/-- Every `Roll` leads to the file it names. -/
def Whole (d : Disk) (segs : List Seg) : Prop := ∀ s g, segs[s + 1]? = some g → d.segments (s + 1) = some g.ino

section Records
variable {env : Env} {R s p : Nat} {d : Disk} {segs : List Seg} {g g' g₀ : Seg} {r : Reader} {marks : List Mark}
  {stop : Stop} {after : Slots}

theorem recordsSplit (found : segs[s]? = some g) :
    records d segs = records d (segs.take s) ++ slotRecords (d.data g.ino) g.slots ++ records d (segs.drop (s + 1)) := by
  obtain ⟨low, same⟩ := List.getElem?_eq_some_iff.mp found
  have split : segs = segs.take s ++ g :: segs.drop (s + 1) := by
    rw [← same, List.getElem_cons_drop, List.take_append_drop]
  conv_lhs => rw [split]
  simp [records]

/- A segment that nothing was committed to carries no record. -/
theorem blankRecords {f : File} (ok : SegOk R s f g) (start : g.fin = 208) : slotRecords f.data g.slots = [] := by
  obtain ⟨rest, slots, tail⟩ := ok.afterChannel
  rw [start] at tail
  rw [slots, tail.closed]
  rfl

/- What lies ahead is the rest of the segment and the segments after it. -/
theorem pathRecords (view : View env R d segs) (whole : Whole d segs) (path : Path env R d segs s p marks stop)
    (found : segs[s]? = some g) (chain : Chain R (d.data g.ino) p after g.fin) :
    itemRecords d (itemsOf marks) = slotRecords (d.data g.ino) after ++ records d (segs.drop (s + 1)) ∧
      stop.refusal = none := by
  obtain ⟨names, inv⟩ := view.stored
  induction path generalizing g after with
  | @caughtUp s h found' free =>
    obtain rfl : g = h := Option.some.inj (found.symm.trans found')
    rw [chain.closed]
    refine ⟨?_, rfl⟩
    show [] = [] ++ records d (segs.drop (s + 1))
    cases next : segs[s + 1]? with
    | none => rw [List.drop_eq_nil_of_le (List.getElem?_eq_none_iff.mp next)]; rfl
    | some g' =>
      have ends := (inv.each s g found).2
      rw [Ends, next] at ends
      rcases ends.2 with one | ⟨top, empty⟩
      · exact absurd (one.symm.trans free) (by decide)
      · obtain ⟨low, same⟩ := List.getElem?_eq_some_iff.mp next
        have last : segs.drop (s + 1) = [g'] := by
          rw [← List.getElem_cons_drop low, same, List.drop_eq_nil_of_le (List.getElem?_eq_none_iff.mp top)]
        have blank := blankRecords (inv.each (s + 1) g' next).1 empty
        rw [last]
        show [] = slotRecords (d.data g'.ino) g'.slots ++ []
        exact (congrArg (· ++ []) blank).symm
  | @record s p h k marks stop found' here tail ih =>
    obtain rfl : g = h := Option.some.inj (found.symm.trans found')
    obtain ⟨rest, rfl, later⟩ := chain.ahead (endsStop (inv.each s g found).2) here
    obtain ⟨ahead, whole⟩ := ih found later
    refine ⟨?_, whole⟩
    rw [itemsCons, itemRecordsAppend, ahead, ← List.append_assoc]
    congr 1
    cases k <;> rfl
  | @roll s h g' marks stop found' next flag named tail ih =>
    obtain rfl : g = h := Option.some.inj (found.symm.trans found')
    obtain ⟨ahead, whole⟩ := ih next (inv.each (s + 1) g' next).1.chain
    refine ⟨?_, whole⟩
    obtain ⟨low, same⟩ := List.getElem?_eq_some_iff.mp next
    rw [chain.closed, ← List.getElem_cons_drop low, same]
    exact ahead
  | @refused s h g' e found' next flag refuses =>
    have run := followingOk (t := ⟨0, 0, 0, 0, 0, 0, 0, none, [], [], [], 0, 0, false, none⟩) view.regions inv found' next
      (whole s g' next)
    rw [refuses] at run
    cases run

/- The base of a segment counts the records before it. -/
theorem baseCounts {names : Nat → Option Nat} (inv : Inv R { d with segments := names } segs) (first : segs[0]? = some g₀)
    (found : segs[s]? = some g) : g.base = g₀.base + (records d (segs.take s)).length := by
  induction s generalizing g with
  | zero =>
    obtain rfl : g = g₀ := Option.some.inj (found.symm.trans first)
    rfl
  | succ s ih =>
    have low : s < segs.length := Nat.lt_of_succ_lt (lengthOf found)
    obtain ⟨h, before⟩ : ∃ h, segs[s]? = some h := ⟨segs[s], List.getElem?_eq_getElem low⟩
    have link := inv.link before found
    have take : segs.take (s + 1) = segs.take s ++ [h] := by rw [List.take_add_one, before]; rfl
    have count : (slotRecords (d.data h.ino) h.slots).length = users h.slots := slotRecordsLength _ _
    rw [link.base, ih before, take]
    simp only [records, List.flatMap_append, List.length_append, List.flatMap_cons, List.flatMap_nil, List.append_nil,
      count]
    omega

end Records
end Xchannel.ReadPath
