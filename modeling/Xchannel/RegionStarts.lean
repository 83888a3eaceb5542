import Xchannel.StrandedRolls
import Xchannel.StepLaws

/-! Walks that start at a region: the rest of the walk from the start of the segment, over any bytes, and in
every state of a writer far enough back to come to the `Roll`. -/
namespace Xchannel.RegionStarts
open ByteMemory Format Storage CrashProgram Observation SegmentWalk RecordChain SegmentInvariant ChannelInvariant
  PartialRun ChannelLog WalkSpecs BuildSpecs WriterCalls WriterOpen Sessions SessionSpecs StepLaws StrandedRolls

/- The walk shows a record to its visitor: one that stops there ends it there. -/
def Visits (env : Env) (d : Disk) (ino R start pos : Nat) (k : HeaderType) (users : Nat) : Prop :=
  ((walkSegmentFrom env ino R start fun p t n => p = pos ∧ t = k ∧ n = users : Static Disk Unit IoError WalkEnd) d ()).1 =
    .ok ⟨pos, users, .visitor⟩

def plus (n : Nat) (w : WalkEnd) : WalkEnd := { w with users := w.users + n }

section Shifts
variable {env : Env} {R len ino : Nat} {d : Disk} {τ : Type} {t : τ} {stop stop' : Nat → HeaderType → Nat → Bool} {n : Nat}

/- From one slot on, two walks do the same, whatever they counted before and have mapped. -/
theorem walkPlus (paged : R % env.page = 0) (positive : 0 < R) (aligned : 8 ∣ R) (bound : len ≤ maxFileLen)
    {fuel fuel' pos : Nat} (enough : len ≤ pos + fuel) (enough' : len ≤ pos + fuel') (mapped mapped' : Option Nat)
    (users : Nat) (same : ∀ p k m, pos ≤ p → stop p k (m + n) = stop' p k m) :
    ((walkLoop env ino R len stop (fuel + 1) mapped pos (users + n) : Static Disk τ IoError WalkEnd) d t).1 =
      ((walkLoop env ino R len stop' (fuel' + 1) mapped' pos users : Static Disk τ IoError WalkEnd) d t).1.map (plus n) := by
  induction fuel generalizing fuel' pos users mapped mapped' with
  | zero =>
    have split := slotSplit R pos
    have expand : (pos / R + 1) * R = pos / R * R + R := by ring
    have low := Nat.mod_lt pos positive
    unfold walkLoop divisor
    rw [Static.refuseRun _ _ (by omega), Static.refuseRun _ _ (by omega)]
    rw [if_pos (by omega), if_pos (by omega)]
    rfl
  | succ fuel ih =>
    unfold walkLoop divisor
    rw [Static.refuseRun _ _ (by omega), Static.refuseRun _ _ (by omega)]
    dsimp only
    by_cases short : len < (pos / R + 1) * R
    · rw [if_pos short, if_pos short]
      rfl
    rw [if_neg short, if_neg short, mapIdle paged positive, mapIdle paged positive]
    by_cases hole : R - pos % R < headerSlot
    · simp only [refuseIf, if_pos hole]
      rfl
    rw [Static.refuseRun _ _ hole, Static.refuseRun _ _ hole, Static.lookRun, Static.lookRun]
    cases flag : (MessageHeader.read (d.data ino) pos).isCommitted with
    | error e => rfl
    | ok committed =>
    rw [Static.liftOk, Static.liftOk]
    by_cases free : ¬ committed = true
    · rw [if_pos free, if_pos free]
      rfl
    rw [if_neg free, if_neg free, Static.lookRun, Static.lookRun]
    cases kind : (MessageHeader.read (d.data ino) pos).parsedHeaderType with
    | error e => rfl
    | ok k =>
    rw [Static.liftOk, Static.liftOk, same pos k users (Nat.le_refl pos)]
    by_cases visitor : stop' pos k users = true
    · rw [if_pos visitor, if_pos visitor]
      rfl
    rw [if_neg visitor, if_neg visitor]
    by_cases roll : k = .roll
    · rw [if_pos roll, if_pos roll]
      by_cases bad : (MessageHeader.read (d.data ino) pos).length.toNat ≠ rollPayload ∨ R < pos % R + rollTotal
      · simp only [refuseIf, if_pos bad]
        rfl
      · rw [Static.refuseRun _ _ bad, Static.refuseRun _ _ bad]
        rfl
    rw [if_neg roll, if_neg roll]
    by_cases crosses : R - pos % R < headerSlot + (MessageHeader.read (d.data ino) pos).length.toNat
    · simp only [refuseIf, if_pos crosses]
      rfl
    rw [Static.refuseRun _ _ crosses, Static.refuseRun _ _ crosses]
    have stepped : stride R len (d.data ino) pos =
        some (k, alignUp (pos + (headerSlot + (MessageHeader.read (d.data ino) pos).length.toNat))) := by
      rw [strideStepped]
      obtain rfl : committed = true := not_not.mp free
      rw [readLength] at crosses ⊢
      have crosses : ¬ _ < 16 + _ := crosses
      have hole : ¬ _ < 16 := hole
      exact ⟨by omega, flag, kind, roll, by omega, rfl⟩
    obtain ⟨further, _⟩ := (strideStepped.mp stepped).forward aligned bound
    have split := slotSplit R pos
    have expand : (pos / R + 1) * R = pos / R * R + R := by ring
    obtain ⟨fuel', rfl⟩ : ∃ more, fuel' = more + 1 := ⟨fuel' - 1, by have := Nat.mod_lt pos positive; omega⟩
    have counted : (if k = .user then users + n + 1 else users + n) = (if k = .user then users + 1 else users) + n := by
      split <;> omega
    rw [counted]
    exact ih (by omega) (by omega) _ _ _ fun p k m le => same p k m (by omega)

/- A visitor that lets the records before a slot pass sees the walk come to it. -/
theorem walkTo (paged : R % env.page = 0) (positive : 0 < R) (aligned : 8 ∣ R) (bound : len ≤ maxFileLen) {pos q : Nat}
    {hops : List HeaderType} (run : Run (stride R len (d.data ino)) pos hops q)
    (go : ∀ p k m, p < q → stop p k m = false) (fuel : Nat) (mapped : Option Nat) (users : Nat) :
    ∃ mapped', (walkLoop env ino R len stop (fuel + hops.length) mapped pos users : Static Disk τ IoError WalkEnd) d t =
      (walkLoop env ino R len stop fuel mapped' q (users + hops.count .user) : Static Disk τ IoError WalkEnd) d t := by
  induction run generalizing mapped users with
  | here s => exact ⟨mapped, rfl⟩
  | @next s a s' labels q first rest ih =>
    obtain ⟨inside, committed, kind, notRoll, fits, next⟩ := strideStepped.mp first
    have forward := ((strideStepped.mp first).forward aligned bound).1
    have beyond := pathForward aligned bound rest
    obtain ⟨mapped', walked⟩ := ih go (some (s / R)) (if a = .user then users + 1 else users)
    have counted : users + (a :: labels).count .user = (if a = .user then users + 1 else users) + labels.count .user := by
      rw [List.count_cons]
      by_cases user : a = .user
      · subst user
        simp
        omega
      · simp [user]
    refine ⟨mapped', ?_⟩
    rw [List.length_cons, ← Nat.add_assoc, walkLoop]
    unfold divisor
    rw [Static.refuseRun _ _ (by omega), if_neg (by omega), mapIdle paged positive]
    dsimp only
    rw [Static.refuseRun _ _ (by show ¬ (_ < 16); omega), Static.lookRun, committed, Static.liftOk, if_neg (by simp),
      Static.lookRun, kind, Static.liftOk, go s a users (by omega), if_neg (by simp), if_neg notRoll, readLength,
      Static.refuseRun _ _ (by show ¬ (_ < 16 + _); omega), ← next, walked, counted]

/- The two walks, from a slot the first one comes to. -/
theorem walkFrom (paged : R % env.page = 0) (positive : 0 < R) (aligned : 8 ∣ R) (bound : d.len ino ≤ maxFileLen)
    {q : Nat} {hops : List HeaderType} (run : Run (stride R (d.len ino) (d.data ino)) 0 hops q) (below : q ≤ d.len ino)
    (go : ∀ p k m, p < q → stop p k m = false) (same : ∀ p k m, q ≤ p → stop p k (m + hops.count .user) = stop' p k m) :
    ((walkSegmentFrom env ino R 0 stop : Static Disk τ IoError WalkEnd) d t).1 =
      ((walkSegmentFrom env ino R q stop' : Static Disk τ IoError WalkEnd) d t).1.map (plus (hops.count .user)) := by
  have few := pathForward aligned bound run
  obtain ⟨fuel, total⟩ : ∃ fuel, d.len ino + 1 = fuel + 1 + hops.length := ⟨d.len ino - hops.length, by omega⟩
  obtain ⟨mapped, walked⟩ := walkTo (τ := τ) (t := t) paged positive aligned bound run go (fuel + 1) none 0
  unfold walkSegmentFrom
  rw [Static.lookRun, Static.lookRun, total, walked, ← total]
  exact walkPlus paged positive aligned bound (by omega) (by omega) _ _ 0 same

end Shifts

section Regions
variable {env : Env} {R k ino : Nat} {d : Disk}

theorem pathThrough {len pos q : Nat} {m : Mem} {hops : List HeaderType} (aligned : 8 ∣ R) (bound : len ≤ maxFileLen)
    (lo : pos ≤ k * R) (hi : k * R ≤ q) (run : Run (stride R len m) pos hops q) :
    ∃ before, Run (stride R len m) pos before (k * R) := by
  induction run with
  | here s =>
    obtain rfl : s = k * R := Nat.le_antisymm lo hi
    exact ⟨[], .here _⟩
  | @next s a s' labels q first rest ih =>
    obtain ⟨_, low, _⟩ := (strideStepped.mp first).forward aligned bound
    by_cases same : s = k * R
    · rw [← same]
      exact ⟨[], .here _⟩
    have region : s / R < k := by
      rcases Nat.eq_zero_or_pos R with rfl | positive
      · omega
      · rw [Nat.div_lt_iff_lt_mul positive]
        omega
    obtain ⟨before, run⟩ := ih (Nat.le_trans low (Nat.mul_le_mul_right R region)) hi
    exact ⟨a :: before, .next first run⟩

theorem pathInside {len q : Nat} {m : Mem} {hops : List HeaderType} (aligned : 8 ∣ R) (bound : len ≤ maxFileLen)
    (run : Run (stride R len m) 0 hops q) : q ≤ len := by
  refine run.keeps (I := (· ≤ len)) (fun s a s' _ first => ?_) (Nat.zero_le len)
  have stepped := strideStepped.mp first
  exact Nat.le_trans (stepped.forward aligned bound).2.1 stepped.inside

/- A walk shows nothing before it starts. -/
theorem visitsAhead (paged : R % env.page = 0) (positive : 0 < R) (aligned : 8 ∣ R) (bound : d.len ino ≤ maxFileLen)
    {start pos users : Nat} {t : HeaderType} (visits : Visits env d ino R start pos t users) : start ≤ pos := by
  by_contra before
  have never := @walkPlus env R (d.len ino) ino d Unit () (fun p k m => decide (p = pos ∧ k = t ∧ m = users)) (fun _ _ _ => false) 0
    paged positive aligned bound (d.len ino) (d.len ino) start (by omega) (by omega) none none 0 (by
      intro p k m le
      rw [decide_eq_false_iff_not]
      omega)
  unfold Visits walkSegmentFrom at visits
  rw [Static.lookRun, ← Nat.zero_add 0, never] at visits
  cases walked : ((walkLoop env ino R (d.len ino) (fun _ _ _ => false) (d.len ino + 1) none start 0 :
      Static Disk Unit IoError WalkEnd) d ()).1 with
  | error e =>
    rw [walked] at visits
    cases visits
  | ok w =>
    have whole := (walkCameTo paged positive walked).2.whole
    rw [walked] at visits
    have stop : w.stop = .visitor := congrArg WalkEnd.stop (Except.ok.inj visits)
    exact whole stop

/-- A walk from region `k` is the rest of the walk from the start, which counts the User records before it too. -/
structure Agrees (env : Env) (R : Nat) (d : Disk) (ino k : Nat) (before : List HeaderType) : Prop where
  comes : Run (stride R (d.len ino) (d.data ino)) 0 before (k * R)
  ends : walkOn env d ino R 0 = (walkOn env d ino R (k * R)).map (plus (before.count .user))
  shows : ∀ pos t n, (k * R ≤ pos ∧ Visits env d ino R 0 pos t n) ↔
    ∃ rest, n = rest + before.count .user ∧ Visits env d ino R (k * R) pos t rest

/- For every content of the file and every region its records enter. -/
theorem startsAgree (regions : Regions env R) (bound : d.len ino ≤ maxFileLen) {hops : List HeaderType} {pos : Nat}
    (run : Run (stride R (d.len ino) (d.data ino)) 0 hops pos) : ∃ before, Agrees env R d ino (pos / R) before := by
  have positive : 0 < R := by have := regions.large; omega
  obtain ⟨before, comes⟩ := pathThrough (k := pos / R) regions.aligned bound (Nat.zero_le _) (Nat.div_mul_le_self pos R) run
  have below := pathInside regions.aligned bound comes
  refine ⟨before, comes, ?_, fun p t n => ⟨?_, ?_⟩⟩
  · exact walkFrom regions.paged positive regions.aligned bound comes below (fun _ _ _ _ => rfl) fun _ _ _ _ => rfl
  · rintro ⟨ahead, visits⟩
    have whole := @walkFrom env R ino d Unit () (fun p' t' n' => decide (p' = p ∧ t' = t ∧ n' = n))
      (fun p' t' m => decide (p' = p ∧ t' = t ∧ m + before.count .user = n)) regions.paged positive regions.aligned bound
      _ _ comes below (by
        intro p' t' n' less
        rw [decide_eq_false_iff_not]
        omega) fun _ _ _ _ => rfl
    unfold Visits at visits
    rw [visits] at whole
    cases rest : ((walkSegmentFrom env ino R (pos / R * R) (fun p' t' m => decide (p' = p ∧ t' = t ∧ m + before.count .user = n)) :
        Static Disk Unit IoError WalkEnd) d ()).1 with
    | error e =>
      rw [rest] at whole
      cases whole
    | ok w =>
      rw [rest] at whole
      obtain ⟨q, users, stop⟩ := w
      cases whole
      refine ⟨users, rfl, ?_⟩
      simp only [Nat.add_right_cancel_iff] at rest
      exact rest
  · rintro ⟨rest, rfl, visits⟩
    have ahead := visitsAhead regions.paged positive regions.aligned bound visits
    refine ⟨ahead, ?_⟩
    unfold Visits at visits ⊢
    rw [@walkFrom env R ino d Unit () (fun p' t' n' => decide (p' = p ∧ t' = t ∧ n' = rest + before.count .user))
      (fun p' t' m => decide (p' = p ∧ t' = t ∧ m = rest)) regions.paged positive regions.aligned bound _ _ comes below (by
        intro p' t' n' less
        rw [decide_eq_false_iff_not]
        omega) (by simp), visits]
    rfl

end Regions

section Rolls
variable {env : Env} {R s : Nat} {d : Disk} {segs : List Seg} {g : Seg}

/- Where the records of a segment end, and how a walk says so. -/
theorem walkToEnd (regions : Regions env R) (inv : Inv R d segs) (found : segs[s]? = some g) {p : Nat} (below : p ≤ g.fin) :
    ∃ n, walkOn env d g.ino R (p - p % R) = .ok ⟨g.fin, n, if d.data g.ino g.fin = 1 then .roll else .uncommitted⟩ := by
  cases next : segs[s + 1]? with
  | some g' => exact walkToRoll regions.paged inv found next regions.toGeometry below
  | none =>
    obtain ⟨ok, ends⟩ := inv.each s g found
    rw [Ends, next] at ends
    have free := ends.free
    have room := ok.room
    obtain ⟨slots, chain⟩ := chainFrom ok regions.toGeometry below
    have large := regions.large
    refine ⟨users slots, ?_⟩
    rw [if_neg (by rw [free]; decide)]
    exact walkOnOpen regions.paged chain (by omega) free (by omega) ok.inside ok.bound

/- The position never leads past the slot the records end at. -/
theorem hintBelow (inv : Inv R d segs) (found : segs[s]? = some g) : writePosition (d.data g.ino) - 72 ≤ g.fin := by
  cases next : segs[s + 1]? with
  | some g' =>
    rcases (inv.link found next).position with ⟨_, wp⟩ | ⟨_, wp⟩ <;> omega
  | none =>
    obtain ⟨ok, ends⟩ := inv.each s g found
    rw [Ends, next] at ends
    rcases ends with settled | lagging
    · have := settled.wp
      omega
    · obtain ⟨before, p, t, slots, _, wp, _⟩ := lagging.behind
      have := (ok.chain.within (x := (p, t)) (by rw [slots]; simp)).2
      have := nextSlotGt (d.data g.ino) p
      have : nextSlot (d.data g.ino) (p, t).1 ≤ g.fin := by assumption
      dsimp only at this
      omega

/-- `commit_stranded_roll`'s walk comes to the `Roll` of a segment, as the walk from its start does, and its
position is one of those the call finishes or leaves. -/
structure ReachesRoll (env : Env) (d : Disk) (ino slot : Nat) (stop : WalkStop) : Prop where
  fromStart : ∃ n, walkOn env d ino (regionSizeField (d.data ino)) 0 = .ok ⟨slot, n, stop⟩
  fromHint : ∃ n, walkOn env d ino (regionSizeField (d.data ino)) (hint (regionSizeField (d.data ino)) (d.data ino)) =
    .ok ⟨slot, n, stop⟩
  roll : (MessageHeader.read (d.data ino) slot).parsedHeaderType = .ok .roll

/-- In every file, published or private, the walks agree. In a published one, a `Roll` its records lead to, staged or
committed, is reached; one with a successor has a `Roll`, in one of the three shapes. -/
structure StartsLaw (env : Env) (d : Disk) : Prop where
  published : ∀ ino ∈ d.history, Regions env (regionSizeField (d.data ino)) ∧ d.len ino ≤ maxFileLen
  agree : ∀ ino R, Regions env R → d.len ino ≤ maxFileLen → ∀ hops pos,
    Run (stride R (d.len ino) (d.data ino)) 0 hops pos → ∃ before, Agrees env R d ino (pos / R) before
  staged : ∀ ino ∈ d.history, ∀ hops slot,
    Run (stride (regionSizeField (d.data ino)) (d.len ino) (d.data ino)) 0 hops slot →
      (MessageHeader.read (d.data ino) slot).parsedHeaderType = .ok .roll → ∃ stop, ReachesRoll env d ino slot stop
  rolled : ∀ s ino, d.history[s]? = some ino → s + 1 < d.history.length → ∃ slot stop,
    ReachesRoll env d ino slot stop ∧ strandedShape (writePosition (d.data ino)) ⟨slot, 0, stop⟩ ≠ none

theorem publishedFacts (regions : Regions env R) (inv : Inv R d segs) (found : segs[s]? = some g) :
    regionSizeField (d.data g.ino) = R ∧ ∃ stop,
      stop = (if d.data g.ino g.fin = 1 then .roll else .uncommitted) ∧
      (∃ n, walkOn env d g.ino R 0 = .ok ⟨g.fin, n, stop⟩) ∧
      ∃ n, walkOn env d g.ino R (hint R (d.data g.ino)) = .ok ⟨g.fin, n, stop⟩ := by
  have ok := (inv.each s g found).1
  obtain ⟨n, start⟩ := walkToEnd regions inv found (Nat.zero_le g.fin)
  rw [Nat.zero_sub] at start
  exact ⟨(validateOk.mp ok.header.header).2.2.2.2.1, _, rfl, ⟨n, start⟩, walkToEnd regions inv found (hintBelow inv found)⟩

theorem rollSlot (regions : Regions env R) (inv : Inv R d segs) (found : segs[s]? = some g) {hops : List HeaderType}
    {slot : Nat} (run : Run (stride R (d.len g.ino) (d.data g.ino)) 0 hops slot)
    (kind : (MessageHeader.read (d.data g.ino) slot).parsedHeaderType = .ok .roll) : slot = g.fin := by
  obtain ⟨_, stop, _, ⟨n, start⟩, _⟩ := publishedFacts regions inv found
  obtain ⟨⟨hops', came⟩, rests⟩ := walkOnCameTo regions.paged (by have := regions.large; omega) start
  have still : stride R (d.len g.ino) (d.data g.ino) slot = none := by
    cases step : stride R (d.len g.ino) (d.data g.ino) slot with
    | none => rfl
    | some hop =>
      obtain ⟨k, next⟩ := hop
      have stepped := strideStepped.mp step
      cases kind.symm.trans stepped.kind
      exact absurd rfl stepped.notRoll
  rcases run.compare came with ⟨_, _, rest⟩ | ⟨_, _, rest⟩
  · exact (rest.stuck still).2.symm
  · exact (rest.stuck rests.stuck).2

theorem publishedMem (inv : Inv R d segs) {ino : Nat} (mem : ino ∈ d.history) : ∃ (s : Nat) (g : Seg), segs[s]? = some g ∧ g.ino = ino := by
  rw [inv.history] at mem
  obtain ⟨g, mem, same⟩ := List.mem_map.mp mem
  obtain ⟨s, found⟩ := List.getElem?_of_mem mem
  exact ⟨s, g, found, same⟩

theorem startsLaw (regions : Regions env R) (inv : Inv R d segs) : StartsLaw env d := by
  constructor
  · intro ino mem
    obtain ⟨s, g, found, rfl⟩ := publishedMem inv mem
    obtain ⟨rfl, _⟩ := publishedFacts regions inv found
    exact ⟨regions, (inv.each s g found).1.bound⟩
  · intro ino R regions bound hops pos run
    exact startsAgree regions bound run
  · intro ino mem hops slot run kind
    obtain ⟨s, g, found, rfl⟩ := publishedMem inv mem
    obtain ⟨rfl, stop, _, start, back⟩ := publishedFacts regions inv found
    obtain rfl := rollSlot regions inv found run kind
    exact ⟨stop, start, back, kind⟩
  · intro s ino published newer
    rw [inv.history, List.getElem?_map] at published
    obtain ⟨g, found, rfl⟩ := Option.map_eq_some_iff.mp published
    rw [inv.history, List.length_map] at newer
    have next := List.getElem?_eq_getElem newer
    have link := inv.link found next
    obtain ⟨rfl, stop, shape, start, back⟩ := publishedFacts regions inv found
    refine ⟨g.fin, stop, ⟨start, back, kindOk link.kind⟩, ?_⟩
    rw [shape]
    rcases link.position with ⟨one, wp⟩ | ⟨flag, wp⟩
    · rw [if_pos one, strandedShape, if_pos ⟨rfl, wp⟩]
      simp
    · rw [strandedShape, if_neg (by rintro ⟨_, far⟩; have : _ = _ + 16 + 56 := far; dsimp only at this; omega)]
      by_cases one : d.data g.ino g.fin = 1
      · rw [if_pos one, if_pos ⟨rfl, wp⟩]
        simp
      · rw [if_neg one, if_neg (by simp), if_pos ⟨rfl, wp⟩]
        simp

/- In every state between two operations of every history of sessions. -/
theorem walksStartAnywhere (env : Env) (lives : List Life) (sizes : SizesOk lives) : StartsLaw env (after env lives) := by
  obtain ⟨segs, ⟨R, regions, inv⟩, _⟩ := reached env sizes.lives
  exact startsLaw regions inv

theorem walksStartAnywhereSmall : StartsLaw smallEnv (after smallEnv strandedLives) :=
  walksStartAnywhere smallEnv strandedLives (by decide)

/- A record that crosses its region: the position of the roll behind it leads past the end of the file, and a walk
from there finds nothing. -/
theorem rollUnreached : (after smallEnv (wrappedLives 4096 [.rollFile])).history = [0, 1] ∧
    ¬ StartsLaw smallEnv (after smallEnv (wrappedLives 4096 [.rollFile])) := by
  have history : (after smallEnv (wrappedLives 4096 [.rollFile])).history = [0, 1] := by decide +kernel
  have walked : walkOn smallEnv (after smallEnv (wrappedLives 4096 [.rollFile])) 0 4096
      (hint 4096 ((after smallEnv (wrappedLives 4096 [.rollFile])).data 0)) = .ok ⟨4096, 0, .endOfFile⟩ := by decide +kernel
  have position : writePosition ((after smallEnv (wrappedLives 4096 [.rollFile])).data 0) = 4392 := by decide +kernel
  have region : regionSizeField ((after smallEnv (wrappedLives 4096 [.rollFile])).data 0) = 4096 := by decide +kernel
  refine ⟨history, fun law => ?_⟩
  obtain ⟨slot, stop, reaches, shape⟩ := law.rolled 0 0 (by rw [history]; rfl) (by rw [history]; decide)
  obtain ⟨n, back⟩ := reaches.fromHint
  rw [region, walked] at back
  cases back
  rw [position] at shape
  exact shape rfl

end Rolls
end Xchannel.RegionStarts
