import Xchannel.ChannelInvariant

/-! What one operation of a writer or of its recovery may do to a channel, as a relation on the
disk and its published segments, and that every such step keeps the channel's invariant. -/
namespace Xchannel.ChannelSteps
open ByteMemory Format Storage RecordChain SegmentInvariant ChannelInvariant

/-- Every `Roll` before the newest segment is committed. -/
def Joined (d : Disk) (segs : List Seg) : Prop :=
  ∀ s g, segs[s]? = some g → s + 2 = segs.length → d.data g.ino g.fin = 1

def push (g : Seg) (t : HeaderType) (next : Nat) : Seg :=
  { g with slots := g.slots ++ [(g.fin, t)], fin := next }

/-- The `Roll` that would lead from `g` into a file, laid out whole but uncommitted. -/
structure Staged (s : Nat) (m : Mem) (g : Seg) (next : InstanceId) (base : Nat) : Prop where
  kind : m (g.fin + 1) = HeaderType.roll.raw
  length : lengthAt m g.fin = 40
  body : slice m (g.fin + 16) 40 = (RollEdge.mk (s + 1) next base).encode
  base : base = g.base + users g.slots

/-- What a session brings to the channel: its retention, and the fields it stamps on the files it
creates, the bound of its records at full width. -/
structure Policy where
  keep : Option Nat
  region : Nat
  mtu : Nat
  name : List UInt8
  deriving DecidableEq, Repr

/- The stamp of a policy; the fields on disk are narrower than the settings. -/
def Labelled (π : Policy) (m : Mem) : Prop :=
  regionSizeField m = π.region % 2 ^ 32 ∧ mtuField m = π.mtu % 2 ^ 32 ∧ channelName m = π.name

/-- What one operation of a writer or of its recovery may do to a channel. -/
inductive Step (R : Nat) (π : Policy) (d : Disk) (segs : List Seg) : Op → List Seg → Prop where
  | scratch {s : Nat} {g : Seg} {off : Nat} {bytes : List UInt8} (found : segs[s]? = some g) (top : s + 1 = segs.length)
      (settled : Settled (d.data g.ino) g) (above : g.fin ≤ off)
      (free : write (d.data g.ino) off bytes g.fin = 0) :
      Step R π d segs (.store g.ino off bytes) segs
  | record {s : Nat} {g : Seg} {t : HeaderType} (found : segs[s]? = some g) (top : s + 1 = segs.length)
      (settled : Settled (d.data g.ino) g) (kind : d.data g.ino (g.fin + 1) = t.raw)
      (data : t = .user ∨ t = .skip) (placed : Placed R (d.data g.ino) g.fin t)
      (fits : g.fin % R + 16 + lengthAt (d.data g.ino) g.fin ≤ R)
      (room : nextSlot (d.data g.ino) g.fin % R + 56 ≤ R)
      (inside : (nextSlot (d.data g.ino) g.fin / R + 1) * R ≤ d.len g.ino)
      (signed : MessageHeader.read (d.data g.ino) (nextSlot (d.data g.ino) g.fin) = .preinstall)
      (joined : Joined d segs)
      (bounded : t = .user → π.mtu = 0 ∨ lengthAt (d.data g.ino) g.fin ≤ π.mtu) :
      Step R π d segs (.commit g.ino g.fin)
        (segs.set s (push g t (nextSlot (d.data g.ino) g.fin)))
  | count {s : Nat} {g : Seg} (found : segs[s]? = some g) (top : s + 1 = segs.length) :
      Step R π d segs (.store g.ino 24 (toLE 8 (users g.slots))) segs
  | position {s : Nat} {g : Seg} (found : segs[s]? = some g) (top : s + 1 = segs.length)
      (counted : messageCount (d.data g.ino) = users g.slots) :
      Step R π d segs (.store g.ino 16 (toLE 8 (g.fin + 16))) segs
  | wakeFlags {s : Nat} {g : Seg} {b : UInt8} (found : segs[s]? = some g) :
      Step R π d segs (.store g.ino 113 [b]) segs
  | wakeWord {s : Nat} {g : Seg} {n : Nat} (found : segs[s]? = some g) :
      Step R π d segs (.store g.ino 116 (toLE 4 n)) segs
  | stamp {i b : Nat} (named : d.segments segs.length = some i) :
      Step R π d segs (.store i 32 (toLE 8 b)) segs
  | spareFlags {i : Nat} {b : UInt8} (named : d.segments segs.length = some i) :
      Step R π d segs (.store i 113 [b]) segs
  | spareLen {i n : Nat} (named : d.segments segs.length = some i) (longer : d.len i ≤ n) (bound : n ≤ 2 ^ 63 - 1) :
      Step R π d segs (.setLen i n) segs
  | publish {i : Nat} {ident : Identity} {gen : Nat} (named : d.segments segs.length = some i)
      (blank : Blank R segs.length (d.files i) ident gen) (parented : Parented segs ident gen)
      (rolled : ∀ s g, segs[s]? = some g → s + 1 = segs.length → Settled (d.data g.ino) g ∧
        Staged s (d.data g.ino) g ident.fileInstance (baseRecordIndex (d.data i)))
      (joined : Joined d segs) :
      Step R π d segs (.publish i) (segs ++ [Blank.seg i ident (baseRecordIndex (d.data i)) gen])
  | commitRoll {s : Nat} {g g' : Seg} (found : segs[s]? = some g) (next : segs[s + 1]? = some g') :
      Step R π d segs (.commit g.ino g.fin) segs
  | terminal {s : Nat} {g g' : Seg} (found : segs[s]? = some g) (next : segs[s + 1]? = some g')
      (rolled : d.data g.ino g.fin = 1) :
      Step R π d segs (.store g.ino 16 (toLE 8 (g.fin + 72))) segs
  | grow {s n : Nat} {g : Seg} (found : segs[s]? = some g) (longer : d.len g.ino ≤ n) (bound : n ≤ 2 ^ 63 - 1) :
      Step R π d segs (.setLen g.ino n) segs
  | create {sequence : Nat} {fileInstance : InstanceId} :
      Step R π d segs (.create sequence fileInstance) segs
  | attemptStore {a : Attempt} {off : Nat} {bytes : List UInt8} (mem : a ∈ d.attempts) :
      Step R π d segs (.store a.ino off bytes) segs
  | attemptLen {a : Attempt} {n : Nat} (mem : a ∈ d.attempts) : Step R π d segs (.setLen a.ino n) segs
  | install {fileInstance : InstanceId} {a : Attempt} (attempt : d.findAttempt segs.length fileInstance = some a)
      (free : d.segments segs.length = none) (spare : Spare R segs (d.files a.ino))
      (labelled : Labelled π (d.data a.ino)) :
      Step R π d segs (.install segs.length fileInstance) segs
  | discard : Step R π d segs (.unlink segs.length) segs
  | prune {s n : Nat} (kept : π.keep = some n) (least : 1 ≤ n) (behind : s + n + 1 = segs.length)
      (joined : Joined d segs) :
      Step R π d segs (.unlink s) segs
  | sweep {sequence : Nat} {fileInstance : InstanceId} :
      Step R π d segs (.unlinkAttempt sequence fileInstance) segs

section Fields
variable (m : Mem) (n : Nat)

theorem positionWrite (small : n < 2 ^ 64) : writePosition (write m 16 (toLE 8 n)) = n := by
  rw [writePosition, readLEWriteSame]
  exact Nat.mod_eq_of_lt small

theorem countWrite (small : n < 2 ^ 64) : messageCount (write m 24 (toLE 8 n)) = n := by
  rw [messageCount, readLEWriteSame]
  exact Nat.mod_eq_of_lt small

theorem countPositionWrite : messageCount (write m 16 (toLE 8 n)) = messageCount m :=
  readLEWriteOther (by simp)

theorem positionCountWrite : writePosition (write m 24 (toLE 8 n)) = writePosition m :=
  readLEWriteOther (by simp)

end Fields

section Preservation
variable {R s : Nat} {π : Policy} {d : Disk} {segs : List Seg} {g g' : Seg} {op : Op}

theorem frameWrite {fin off : Nat} {m : Mem} {bytes : List UInt8}
    (only : ∀ a, off ≤ a → a < off + bytes.length → fin ≤ a ∨ Adjusted a) :
    Frame fin m (write m off bytes) := by
  intro a below fixed
  apply writeOutside
  by_contra inside
  rcases only a (by omega) (by omega) with h | h
  · omega
  · exact fixed h

/- A store that leaves the records and the constant header alone. -/
theorem storeKeeps (inv : Inv R d segs) (found : segs[s]? = some g) {off : Nat} {bytes : List UInt8}
    (only : ∀ a, off ≤ a → a < off + bytes.length → g.fin ≤ a ∨ Adjusted a)
    (ends : Ends segs s (write (d.data g.ino) off bytes) g)
    (stays : s + 2 = segs.length → d.data g.ino g.fin = 1 → write (d.data g.ino) off bytes g.fin = 1) :
    Inv R (d.apply (.store g.ino off bytes)) segs := by
  have ok := (inv.each s g found).1
  exact inv.touch found (ok.frame (frameWrite only) (Nat.le_refl _) ok.bound) ends stays

theorem endsTop {m : Mem} (top : s + 1 = segs.length) (tail : Tail m g) : Ends segs s m g := by
  rwa [Ends, noNext top]

theorem scratchKeeps (inv : Inv R d segs) (found : segs[s]? = some g) (top : s + 1 = segs.length)
    (settled : Settled (d.data g.ino) g) {off : Nat} {bytes : List UInt8} (above : g.fin ≤ off)
    (free : write (d.data g.ino) off bytes g.fin = 0) : Inv R (d.apply (.store g.ino off bytes)) segs := by
  have ge := (inv.each s g found).1.finGe
  have low (a : Nat) (h : a < 32) : write (d.data g.ino) off bytes a = d.data g.ino a :=
    writeOutside (.inl (by omega))
  refine storeKeeps inv found (fun a lo _ => .inl (by omega)) (endsTop top (.inl ⟨free, ?_, ?_⟩))
    (by omega)
  · rw [← settled.count]
    exact readLECongr fun a _ hi => low a (by omega)
  · rw [← settled.wp]
    exact readLECongr fun a _ hi => low a (by omega)

theorem countKeeps (inv : Inv R d segs) (found : segs[s]? = some g) (top : s + 1 = segs.length) :
    Inv R (d.apply (.store g.ino 24 (toLE 8 (users g.slots)))) segs := by
  have ok := (inv.each s g found).1
  have ge := ok.finGe
  have counted := countWrite (d.data g.ino) (users g.slots) (by have := ok.usersLt; omega)
  have wp := positionCountWrite (d.data g.ino) (users g.slots)
  have high (a : Nat) (h : 208 ≤ a) :
      write (d.data g.ino) 24 (toLE 8 (users g.slots)) a = d.data g.ino a :=
    writeOutside (.inr (by simp; omega))
  apply storeKeeps inv found
  · intro a lo hi
    rw [toLELength] at hi
    exact .inr (.inl ⟨by omega, by omega⟩)
  · apply endsTop top
    rcases inv.tail found top with settled | ⟨signed, before, p, t, slots, later, position, _⟩
    · exact .inl ⟨by rw [high _ ge]; exact settled.free, counted, by rw [wp]; exact settled.wp⟩
    · refine .inr ⟨?_, before, p, t, slots, later, by rw [wp]; exact position, .inl counted⟩
      rw [readCongr fun a lo _ => high a (by omega)]
      exact signed
  · omega

theorem positionKeeps (inv : Inv R d segs) (found : segs[s]? = some g) (top : s + 1 = segs.length)
    (counted : messageCount (d.data g.ino) = users g.slots) :
    Inv R (d.apply (.store g.ino 16 (toLE 8 (g.fin + 16)))) segs := by
  have ok := (inv.each s g found).1
  have ge := ok.finGe
  have small : g.fin + 16 < 2 ^ 64 := by
    have := ok.finLt
    have := ok.bound
    omega
  apply storeKeeps inv found
  · intro a lo hi
    rw [toLELength] at hi
    exact .inr (.inl ⟨by omega, by omega⟩)
  · refine endsTop top (.inl ⟨?_, ?_, positionWrite _ _ small⟩)
    · rw [writeOutside (.inr (by simp; omega))]
      exact (inv.tail found top).free
    · rw [countPositionWrite]
      exact counted
  · omega

/- A store to the wake fields is seen by nothing else. -/
theorem wakeKeeps (inv : Inv R d segs) (found : segs[s]? = some g) {off : Nat} {bytes : List UInt8}
    (wake : (off = 113 ∧ bytes.length = 1) ∨ (off = 116 ∧ bytes.length = 4)) :
    Inv R (d.apply (.store g.ino off bytes)) segs := by
  have ge := (inv.each s g found).1.finGe
  apply storeKeeps inv found
  · intro a lo hi
    refine .inr ?_
    unfold Adjusted
    omega
  · refine (inv.each s g found).2.congr fun a h => writeOutside ?_
    unfold Last at h
    omega
  · intro _ rolled
    rw [writeOutside (by omega)]
    exact rolled

theorem commitRollKeeps (inv : Inv R d segs) (found : segs[s]? = some g) (next : segs[s + 1]? = some g') :
    Inv R (d.apply (.commit g.ino g.fin)) segs := by
  have ge := (inv.each s g found).1.finGe
  have link := inv.link found next
  have other (a : Nat) (h : a ≠ g.fin) : write (d.data g.ino) g.fin [1] a = d.data g.ino a :=
    writeOutside (by simp; omega)
  have flag : write (d.data g.ino) g.fin [1] g.fin = 1 := writeInside (i := 0) rfl
  refine storeKeeps inv found (fun a lo _ => .inl lo) ?_ fun _ _ => flag
  rw [Ends, next]
  refine ⟨⟨?_, ?_, ?_, ?_, link.base, link.parent, link.gen, ?_⟩, .inl flag⟩
  · rw [other _ (by omega)]
    exact link.kind
  · rw [← link.length]
    exact readLECongr fun a lo hi => other a (by omega)
  · rw [← link.body]
    exact sliceCongr fun a lo hi => other a (by omega)
  · rw [← link.count]
    exact readLECongr fun a lo hi => other a (by omega)
  · have wp : writePosition (write (d.data g.ino) g.fin [1]) = writePosition (d.data g.ino) :=
      readLECongr fun a lo hi => other a (by omega)
    rw [wp, flag]
    rcases link.position with ⟨_, far⟩ | ⟨_, near⟩
    · exact .inl ⟨rfl, far⟩
    · exact .inr ⟨.inl rfl, near⟩

theorem terminalKeeps (inv : Inv R d segs) (found : segs[s]? = some g) (next : segs[s + 1]? = some g')
    (rolled : d.data g.ino g.fin = 1) : Inv R (d.apply (.store g.ino 16 (toLE 8 (g.fin + 72)))) segs := by
  have ok := (inv.each s g found).1
  have ge := ok.finGe
  have link := inv.link found next
  have small : g.fin + 72 < 2 ^ 64 := by
    have := ok.finLt
    have := ok.bound
    omega
  have high (a : Nat) (h : 24 ≤ a) : write (d.data g.ino) 16 (toLE 8 (g.fin + 72)) a = d.data g.ino a :=
    writeOutside (.inr (by simpa using h))
  apply storeKeeps inv found
  · intro a lo hi
    rw [toLELength] at hi
    exact .inr (.inl ⟨by omega, by omega⟩)
  · rw [Ends, next]
    have flag : write (d.data g.ino) 16 (toLE 8 (g.fin + 72)) g.fin = 1 := by rw [high _ (by omega), rolled]
    refine ⟨⟨?_, ?_, ?_, ?_, link.base, link.parent, link.gen, .inl ⟨flag, positionWrite _ _ small⟩⟩,
      .inl flag⟩
    · rw [high _ (by omega)]
      exact link.kind
    · rw [← link.length]
      exact readLECongr fun a lo hi => high a (by omega)
    · rw [← link.body]
      exact sliceCongr fun a lo hi => high a (by omega)
    · rw [countPositionWrite]
      exact link.count
  · intro _ _
    rw [high _ (by omega), rolled]

theorem growKeeps (inv : Inv R d segs) (found : segs[s]? = some g) {n : Nat} (longer : d.len g.ino ≤ n)
    (bound : n ≤ 2 ^ 63 - 1) : Inv R (d.apply (.setLen g.ino n)) segs := by
  have ok := (inv.each s g found).1
  have lt := ok.finLt
  have ge := ok.finGe
  have same (a : Nat) (h : a < d.len g.ino) :
      (if a < n ∧ a < d.len g.ino then d.data g.ino a else 0) = d.data g.ino a :=
    if_pos ⟨by omega, h⟩
  have lenEq : d.len g.ino = (d.files g.ino).len := rfl
  refine inv.touch found (ok.frame (fun a below _ => same a (by omega)) longer bound) ?_
    fun _ rolled => (same _ (by omega)).trans rolled
  refine (inv.each s g found).2.congr fun a h => same a ?_
  unfold Last at h
  omega

/- The newest segment becomes longer by one record; the names and the other files stay. -/
theorem replaceTop (inv : Inv R d segs) (found : segs[s]? = some g) (top : s + 1 = segs.length)
    {f : File} (ino : g'.ino = g.ino) (ident : g'.ident = g.ident) (base : g'.base = g.base)
    (gen : g'.gen = g.gen) (ok : SegOk R s f g') (tail : Tail f.data g') (joined : Joined d segs) :
    Inv R (d.setFile g.ino f) (segs.set s g') := by
  have inos : (segs.set s g').map Seg.ino = segs.map Seg.ino := by
    apply List.ext_getElem?
    intro k
    simp only [List.getElem?_map, List.getElem?_set]
    by_cases same : s = k
    · subst same
      rw [if_pos rfl, if_pos (lengthOf found), found, Option.map_some, Option.map_some, ino]
    · simp [same]
  have length : (segs.set s g').length = segs.length := List.length_set
  have self : (segs.set s g')[s]? = some g' := by simp [lengthOf found]
  have other {k : Nat} (ne : s ≠ k) : (segs.set s g')[k]? = segs[k]? := by simp [ne]
  have parented {i : Identity} {n : Nat} (h : Parented segs i n) : Parented (segs.set s g') i n := by
    refine ⟨fun empty => ?_, fun k h' at_k last => ?_⟩
    · rw [empty] at self
      simp at self
    · have same : k = s := by omega
      subst same
      cases Option.some.inj (self.symm.trans at_k)
      rw [ident, gen]
      exact h.next k g found top
  refine ⟨?_, ?_, ?_, ?_, ?_, ?_, inv.apart, ?_, ?_⟩
  · rw [inos]; exact inv.history
  · rw [inos]; exact inv.distinct
  · intro h mem
    have : h.ino ∈ segs.map Seg.ino := inos ▸ List.mem_map_of_mem mem
    obtain ⟨h0, mem0, same⟩ := List.mem_map.mp this
    rw [← same]
    exact inv.old h0 mem0
  · intro k i named
    obtain ⟨low, old, ⟨h, at_k, same⟩ | ⟨last, apart, i', n, blank, parent⟩⟩ := inv.names k i named
    · refine ⟨low, old, .inl ?_⟩
      by_cases here : s = k
      · subst here
        cases Option.some.inj (found.symm.trans at_k)
        exact ⟨g', self, by rw [ino, same]⟩
      · exact ⟨h, by rw [other here, at_k], same⟩
    · have ne : i ≠ g.ino := fun e => apart (e ▸ inoMem found)
      refine ⟨low, old, .inr ⟨by omega, by rwa [inos], i', n, ?_, parented parent⟩⟩
      rw [setFileOther f ne, length]
      exact blank
  · intro k h at_k last
    have same : k = s := by omega
    subst same
    cases Option.some.inj (self.symm.trans at_k)
    rw [ino]
    exact inv.newest k g found top
  · intro a mem
    rw [inos]
    exact inv.attempts a mem
  · intro k h at_k
    by_cases here : s = k
    · subst here
      cases Option.some.inj (self.symm.trans at_k)
      rw [ino, setFileSame, setFileData]
      exact ⟨ok, endsTop (by omega) tail⟩
    · rw [other here] at at_k
      have ne := inv.otherIno found at_k here
      rw [setFileOther f ne, setFileDataOther f ne]
      obtain ⟨ok', ends⟩ := inv.each k h at_k
      refine ⟨ok', ?_⟩
      unfold Ends at ends ⊢
      have below : k < s := by
        have := lengthOf at_k
        omega
      by_cases prev : s = k + 1
      · subst prev
        rw [found] at ends
        rw [self]
        have link := ends.1
        exact ⟨⟨link.kind, link.length, by rw [ident, base]; exact link.body, link.count,
          by rw [base]; exact link.base, by rw [ident]; exact link.parent, by rw [gen]; exact link.gen,
          link.position⟩, .inl (joined k h at_k (by omega))⟩
      · rw [other prev]
        by_cases prev2 : s = k + 2
        · subst prev2
          cases next : segs[k + 1]? with
          | none => rwa [next] at ends
          | some h' =>
            rw [next] at ends
            refine ⟨ends.1, ends.2.imp_right ?_⟩
            rintro ⟨none, _⟩
            rw [found] at none
            contradiction
        · rw [other prev2]
          exact ends
  · intro k h at_k last none
    have ne : s ≠ k := by omega
    rw [other ne] at at_k
    rw [setFileDataOther f (inv.otherIno found at_k ne)]
    exact inv.gone k h at_k (by omega) none

theorem recordKeeps (inv : Inv R d segs) {t : HeaderType} (found : segs[s]? = some g)
    (top : s + 1 = segs.length) (settled : Settled (d.data g.ino) g)
    (kind : d.data g.ino (g.fin + 1) = t.raw) (data : t = .user ∨ t = .skip)
    (placed : Placed R (d.data g.ino) g.fin t)
    (fits : g.fin % R + 16 + lengthAt (d.data g.ino) g.fin ≤ R)
    (room : nextSlot (d.data g.ino) g.fin % R + 56 ≤ R)
    (inside : (nextSlot (d.data g.ino) g.fin / R + 1) * R ≤ d.len g.ino)
    (signed : MessageHeader.read (d.data g.ino) (nextSlot (d.data g.ino) g.fin) = .preinstall)
    (joined : Joined d segs) : Inv R (d.apply (.commit g.ino g.fin))
      (segs.set s (push g t (nextSlot (d.data g.ino) g.fin))) := by
  have ok := (inv.each s g found).1
  have ge := ok.finGe
  have other (a : Nat) (h : a ≠ g.fin) : write (d.data g.ino) g.fin [1] a = d.data g.ino a :=
    writeOutside (by simp; omega)
  have flag : write (d.data g.ino) g.fin [1] g.fin = 1 := writeInside (i := 0) rfl
  have length : lengthAt (write (d.data g.ino) g.fin [1]) g.fin = lengthAt (d.data g.ino) g.fin :=
    readLECongr fun a lo hi => other a (by omega)
  have next : nextSlot (write (d.data g.ino) g.fin [1]) g.fin = nextSlot (d.data g.ino) g.fin := by
    rw [nextSlot, length, nextSlot]
  have beyond := nextSlotGt (d.data g.ino) g.fin
  have kept := SegOk.frame (h := { d.files g.ino with data := write (d.data g.ino) g.fin [1] }) ok
    (fun a below _ => other a (by omega)) (Nat.le_refl _) ok.bound
  have here : RecordAt R (write (d.data g.ino) g.fin [1]) g.fin t :=
    ⟨flag, by rw [other _ (by omega), kind], by unfold Placed at placed ⊢; rwa [next], by rw [length]; exact fits⟩
  have chain := kept.chain.snoc here
  rw [next] at chain
  obtain ⟨rest, slots⟩ := ok.start
  have count' : messageCount (write (d.data g.ino) g.fin [1]) = users g.slots := by
    rw [← settled.count]
    exact readLECongr fun a lo hi => other a (by omega)
  refine replaceTop inv found top rfl rfl rfl rfl ?_ (.inr ⟨?_, g.slots, g.fin, t, rfl, ?_, ?_, ?_⟩) joined
  · exact ⟨kept.header, kept.published, kept.base, kept.gen, ⟨rest ++ [(g.fin, t)], by simp [push, slots]⟩,
      chain, room, inside, ok.bound⟩
  · show MessageHeader.read (write (d.data g.ino) g.fin [1]) (nextSlot (d.data g.ino) g.fin) = _
    rw [readCongr fun a lo hi => other a (by omega)]
    exact signed
  · simp [slots]
  · rw [← settled.wp]
    exact readLECongr fun a lo hi => other a (by omega)
  · show _ ∨ _ ∧ messageCount (write (d.data g.ino) g.fin [1]) + 1 = users (g.slots ++ [(g.fin, t)])
    rw [usersSnoc]
    rcases data with rfl | rfl
    · exact .inr ⟨rfl, by rw [count']; rfl⟩
    · refine .inl ?_
      show messageCount (write (d.data g.ino) g.fin [1]) = users (g.slots ++ [(g.fin, .skip)])
      rw [usersSnoc, count']
      rfl

theorem spareApart (inv : Inv R d segs) {i : Nat} (named : d.segments segs.length = some i) :
    i < d.fresh ∧ i ∉ segs.map Seg.ino ∧ Spare R segs (d.files i) := by
  obtain ⟨_, old, ⟨g, found, _⟩ | ⟨_, apart, spare⟩⟩ := inv.names _ _ named
  · exact absurd (lengthOf found) (by omega)
  · exact ⟨old, apart, spare⟩

/- Stamping the base or the wake flags, or growing it, leaves a prepared file what it is. -/
theorem blankCongr {f f' : File} {ident : Identity} {gen : Nat} (blank : Blank R s f ident gen)
    (same : ∀ a, a < 224 → (a < 32 ∨ (40 ≤ a ∧ a < 113) ∨ 114 ≤ a) → f'.data a = f.data a)
    (longer : f.len ≤ f'.len) (bound : f'.len ≤ 2 ^ 63 - 1) : Blank R s f' ident gen where
  header := blank.header.congr fun a h => by
    unfold Constant at h
    exact same a (by omega) (by omega)
  unpublished := (same 192 (by omega) (by omega)).trans blank.unpublished
  gen := by rw [← blank.gen]; exact readLECongr fun a lo hi => same a (by omega) (by omega)
  count := by rw [← blank.count]; exact readLECongr fun a lo hi => same a (by omega) (by omega)
  wp := by rw [← blank.wp]; exact readLECongr fun a lo hi => same a (by omega) (by omega)
  signed := by rw [← blank.signed]; exact readCongr fun a lo hi => same a (by omega) (by omega)
  inside := Nat.le_trans blank.inside longer
  bound := bound

theorem spareStoreKeeps (inv : Inv R d segs) {i off : Nat} {bytes : List UInt8}
    (named : d.segments segs.length = some i)
    (only : (off = 32 ∧ bytes.length = 8) ∨ (off = 113 ∧ bytes.length = 1)) :
    Inv R (d.apply (.store i off bytes)) segs := by
  obtain ⟨_, apart, ident, gen, blank, parented⟩ := spareApart inv named
  refine inv.touchOther apart fun _ _ => ⟨ident, gen, ?_, parented⟩
  exact blankCongr blank (fun a _ h => writeOutside (by omega)) (Nat.le_refl _) blank.bound

theorem spareLenKeeps (inv : Inv R d segs) (geometry : Geometry R) {i n : Nat} (named : d.segments segs.length = some i)
    (longer : d.len i ≤ n) (bound : n ≤ 2 ^ 63 - 1) : Inv R (d.apply (.setLen i n)) segs := by
  obtain ⟨_, apart, ident, gen, blank, parented⟩ := spareApart inv named
  have large := geometry.large
  have inside : R ≤ d.len i := blank.inside
  refine inv.touchOther apart fun _ _ => ⟨ident, gen, ?_, parented⟩
  exact blankCongr blank (fun a low _ => if_pos ⟨by omega, by omega⟩) longer bound

/- Publication turns a prepared file into a segment with no record but its own. -/
theorem blankPublished (geometry : Geometry R) {f : File} {ident : Identity} {gen : Nat}
    (blank : Blank R s f ident gen) (i : Nat) :
    SegOk R s { f with data := write f.data 192 [1] } (Blank.seg i ident (baseRecordIndex f.data) gen) ∧
    Settled (write f.data 192 [1]) (Blank.seg i ident (baseRecordIndex f.data) gen) := by
  have large := geometry.large
  have other (a : Nat) (h : a ≠ 192) : write f.data 192 [1] a = f.data a :=
    writeOutside (by simp; omega)
  have header : HeaderOk R s ident (write f.data 192 [1]) :=
    blank.header.congr fun a h => other a (by unfold Constant at h; omega)
  have first : RecordAt R (write f.data 192 [1]) 0 .channel :=
    ⟨header.committed, header.kind, rfl, by rw [header.length, Nat.zero_mod]; omega⟩
  have next : nextSlot (write f.data 192 [1]) 0 = 208 := by
    unfold nextSlot
    rw [header.length]
    rfl
  have small : 208 < R := by omega
  refine ⟨?_, ?_, ?_, ?_⟩
  · exact
      { header := header
        published := (writeInside (i := 0) rfl : write f.data 192 [1] (192 + 0) = 1)
        base := readLECongr fun a lo hi => other a (by omega)
        gen := by
          rw [Blank.seg, ← blank.gen]
          exact readLECongr fun a lo hi => other a (by omega)
        start := ⟨[], rfl⟩
        chain := .step first (by rw [next]; exact .done 208)
        room := by
          show 208 % R + 56 ≤ R
          rw [Nat.mod_eq_of_lt small]
          omega
        inside := by
          show (208 / R + 1) * R ≤ f.len
          rw [Nat.div_eq_of_lt small]
          have := blank.inside
          omega
        bound := blank.bound }
  · exact (other 208 (by omega)).trans (preinstallFree blank.signed)
  · show messageCount (write f.data 192 [1]) = 0
    rw [← blank.count]
    exact readLECongr fun a lo hi => other a (by omega)
  · show writePosition (write f.data 192 [1]) = 224
    rw [← blank.wp]
    exact readLECongr fun a lo hi => other a (by omega)

theorem publishKeeps (geometry : Geometry R) (inv : Inv R d segs) {i : Nat} {ident : Identity} {gen : Nat}
    (named : d.segments segs.length = some i) (blank : Blank R segs.length (d.files i) ident gen)
    (parented : Parented segs ident gen)
    (rolled : ∀ s g, segs[s]? = some g → s + 1 = segs.length → Settled (d.data g.ino) g ∧
      Staged s (d.data g.ino) g ident.fileInstance (baseRecordIndex (d.data i)))
    (joined : Joined d segs) : Inv R (d.apply (.publish i))
      (segs ++ [Blank.seg i ident (baseRecordIndex (d.data i)) gen]) := by
  obtain ⟨old, apart, _⟩ := spareApart inv named
  obtain ⟨ok, settled⟩ := blankPublished geometry blank i
  have kept {k : Nat} {g : Seg} (found : segs[k]? = some g) {h : Seg} : (segs ++ [h])[k]? = some g := by
    rw [List.getElem?_append_left (lengthOf found)]
    exact found
  have cases {k : Nat} {g h : Seg} (found : (segs ++ [h])[k]? = some g) :
      segs[k]? = some g ∨ (k = segs.length ∧ g = h) := by
    by_cases low : k < segs.length
    · rw [List.getElem?_append_left low] at found
      exact .inl found
    · rw [List.getElem?_append_right (by omega)] at found
      have zero : k - segs.length = 0 := by
        by_contra ne
        rw [List.getElem?_eq_none (by simp; omega)] at found
        contradiction
      rw [zero] at found
      exact .inr ⟨by omega, by simpa using found.symm⟩
  refine ⟨?_, ?_, ?_, ?_, ?_, ?_, inv.apart, ?_, ?_⟩
  · show d.history ++ [i] = _
    rw [inv.history, List.map_append]
    rfl
  · rw [List.map_append]
    exact List.nodup_append.mpr ⟨inv.distinct, by simp, by
      intro a mem b last same
      have : b = i := by simpa [Blank.seg] using last
      exact apart (this ▸ same ▸ mem)⟩
  · intro g mem
    rcases List.mem_append.mp mem with mem | last
    · exact inv.old g mem
    · rw [List.mem_singleton.mp last]
      exact old
  · intro k j at_k
    obtain ⟨low, fresh, ⟨g, found, same⟩ | ⟨top, _, _⟩⟩ := inv.names k j at_k
    · exact ⟨low, fresh, .inl ⟨g, kept found, same⟩⟩
    · subst top
      cases Option.some.inj (named.symm.trans at_k)
      exact ⟨low, fresh, .inl ⟨Blank.seg i ident (baseRecordIndex (d.data i)) gen, by simp, rfl⟩⟩
  · intro k g found top
    have : k = segs.length := by
      rw [List.length_append] at top
      simpa using top
    subst this
    rcases cases found with early | ⟨_, rfl⟩
    · exact absurd (lengthOf early) (by omega)
    · exact named
  · intro a mem
    obtain ⟨fresh, out, unnamed⟩ := inv.attempts a mem
    refine ⟨fresh, ?_, unnamed⟩
    rw [List.map_append, List.mem_append]
    rintro (mem' | last)
    · exact out mem'
    · have : a.ino = i := by simpa [Blank.seg] using last
      exact unnamed segs.length (this ▸ named)
  · intro k g found
    rcases cases found with early | ⟨rfl, rfl⟩
    · have ne : g.ino ≠ i := fun e => apart (e ▸ inoMem early)
      have files : (d.apply (.publish i)).files g.ino = d.files g.ino := setFileOther _ ne
      have data : (d.apply (.publish i)).data g.ino = d.data g.ino := setFileDataOther _ ne
      rw [files, data]
      obtain ⟨ok', ends⟩ := inv.each k g early
      refine ⟨ok', ?_⟩
      have low := lengthOf early
      unfold Ends at ends ⊢
      by_cases last : k + 1 = segs.length
      · obtain ⟨settled, staged⟩ := rolled k g early last
        obtain ⟨parent, number, gens⟩ := parented.next k g early last
        rw [List.getElem?_append_right (by omega), last, Nat.sub_self, List.getElem?_cons_zero]
        refine ⟨⟨staged.kind, staged.length, staged.body, settled.count, staged.base, ⟨parent, number⟩, gens,
          .inr ⟨.inr settled.free, settled.wp⟩⟩, .inr ⟨List.getElem?_eq_none (by simp; omega), rfl⟩⟩
      · rw [List.getElem?_append_left (by omega)]
        cases next : segs[k + 1]? with
        | none =>
          rw [List.getElem?_eq_none_iff] at next
          omega
        | some h =>
          rw [next] at ends
          refine ⟨ends.1, .inl ?_⟩
          rcases ends.2 with flag | ⟨none, _⟩
          · exact flag
          · rw [List.getElem?_eq_none_iff] at none
            exact joined k g early (by omega)
    · have files : (d.apply (.publish i)).files i =
          { d.files i with data := write (d.data i) 192 [1] } := setFileSame _ _
      have data : (d.apply (.publish i)).data i = write (d.data i) 192 [1] := setFileData _ _
      show SegOk R _ ((d.apply (.publish i)).files i) _ ∧ Ends _ _ ((d.apply (.publish i)).data i) _
      rw [files, data]
      exact ⟨ok, endsTop (by simp) (.inl settled)⟩
  · intro k g found last none
    have top : k + 1 = segs.length := by
      rw [List.length_append] at last
      simpa using last
    rcases cases found with early | ⟨rfl, _⟩
    · have : d.segments k = .none := none
      rw [inv.newest k g early top] at this
      contradiction
    · omega

theorem createKeeps (inv : Inv R d segs) (sequence : Nat) (fileInstance : InstanceId) :
    Inv R (d.apply (.create sequence fileInstance)) segs := by
  have unnamed (s : Nat) : d.segments s ≠ some d.fresh := fun named => by
    have := (inv.names s _ named).2.1
    omega
  have unused : d.fresh ∉ segs.map Seg.ino := fun mem => by
    obtain ⟨g, mem, same⟩ := List.mem_map.mp mem
    have := inv.old g mem
    omega
  have base := inv.touchOther (f := ⟨0, fun _ => 0⟩) unused fun s named => absurd named (unnamed s)
  refine ⟨base.history, base.distinct, fun g mem => Nat.lt_succ_of_lt (base.old g mem), ?_, base.newest, ?_, ?_,
    base.each, base.gone⟩
  · intro s i named
    obtain ⟨low, old, rest⟩ := base.names s i named
    exact ⟨low, Nat.lt_succ_of_lt old, rest⟩
  · intro a mem
    rcases List.mem_append.mp mem with mem | new
    · obtain ⟨fresh, out⟩ := inv.attempts a mem
      exact ⟨Nat.lt_succ_of_lt fresh, out⟩
    · rw [List.mem_singleton.mp new]
      exact ⟨Nat.lt_succ_self _, unused, unnamed⟩
  · show ((d.attempts ++ [_]).map Attempt.ino).Nodup
    rw [List.map_append]
    exact List.nodup_append.mpr ⟨inv.apart, by simp, by
      intro a mem b last same
      obtain ⟨x, memX, rfl⟩ := List.mem_map.mp mem
      have : b = d.fresh := by simpa using last
      have := (inv.attempts x memX).1
      omega⟩

theorem attemptKeeps (inv : Inv R d segs) {a : Attempt} (mem : a ∈ d.attempts) (f : File) :
    Inv R (d.setFile a.ino f) segs :=
  inv.touchOther (inv.attempts a mem).2.1 fun s named => absurd named ((inv.attempts a mem).2.2 s)

theorem sweepKeeps (inv : Inv R d segs) (sequence : Nat) (fileInstance : InstanceId) :
    Inv R (d.apply (.unlinkAttempt sequence fileInstance)) segs :=
  { inv with
    attempts := fun a mem => inv.attempts a (List.mem_filter.mp mem).1
    apart := inv.apart.sublist (List.filter_sublist.map _) }

theorem installKeeps (inv : Inv R d segs) {fileInstance : InstanceId} {a : Attempt}
    (attempt : d.findAttempt segs.length fileInstance = some a) (spare : Spare R segs (d.files a.ino)) :
    Inv R (d.apply (.install segs.length fileInstance)) segs := by
  have mem : a ∈ d.attempts := List.mem_of_find?_eq_some attempt
  have hit := List.find?_some attempt
  obtain ⟨fresh, out, unnamed⟩ := inv.attempts a mem
  have rest (b : Attempt) (h : b ∈ d.dropAttempt segs.length fileInstance) : b ∈ d.attempts ∧ b.ino ≠ a.ino := by
    obtain ⟨memB, miss⟩ := List.mem_filter.mp h
    refine ⟨memB, fun same => ?_⟩
    have : b = a := List.inj_on_of_nodup_map inv.apart memB mem same
    subst this
    simp only [decide_not, Bool.not_eq_true', decide_eq_false_iff_not, decide_eq_true_eq] at miss hit
    exact miss hit
  simp only [Disk.apply, attempt]
  refine ⟨inv.history, inv.distinct, inv.old, ?_, ?_, ?_, ?_, inv.each, ?_⟩
  · intro s i named
    simp only at named
    by_cases here : s = segs.length
    · rw [if_pos here] at named
      cases named
      have low : s < max d.bound (segs.length + 1) := by omega
      exact ⟨low, fresh, .inr ⟨here, out, spare⟩⟩
    · rw [if_neg here] at named
      obtain ⟨low, old, known⟩ := inv.names s i named
      have low : s < max d.bound (segs.length + 1) := by omega
      exact ⟨low, old, known⟩
  · intro s g found top
    simp only
    rw [if_neg (by omega)]
    exact inv.newest s g found top
  · intro b memB
    obtain ⟨memB, ne⟩ := rest b memB
    obtain ⟨freshB, outB, unnamedB⟩ := inv.attempts b memB
    refine ⟨freshB, outB, fun s => ?_⟩
    simp only
    split
    · exact fun e => ne (Option.some.inj e).symm
    · exact unnamedB s
  · exact inv.apart.sublist (List.filter_sublist.map _)
  · intro s g found last none
    simp only at none
    rw [if_neg (by omega)] at none
    exact inv.gone s g found last none

/- Any name but that of the newest segment may go, once the `Roll` into that one is committed. -/
theorem unlinkKeeps (inv : Inv R d segs) {s : Nat} (kept : s + 1 ≠ segs.length)
    (joined : s = segs.length ∨ Joined d segs) : Inv R (d.apply (.unlink s)) segs :=
  { inv with
    names := by
      intro k i named
      simp only [Disk.apply] at named
      split at named
      · contradiction
      · exact inv.names k i named
    newest := by
      intro k g found top
      simp only [Disk.apply]
      rw [if_neg (by omega)]
      exact inv.newest k g found top
    attempts := by
      intro a mem
      obtain ⟨fresh, out, unnamed⟩ := inv.attempts a mem
      refine ⟨fresh, out, fun k => ?_⟩
      simp only [Disk.apply]
      split
      · simp
      · exact unnamed k
    gone := by
      intro k g found last none
      rcases joined with top | joined
      · simp only [Disk.apply] at none
        rw [if_neg (by omega)] at none
        exact inv.gone k g found last none
      · exact joined k g found last }

/- One step of a writer keeps the invariant of the channel. -/
theorem stepKeeps (geometry : Geometry R) {segs' : List Seg} (inv : Inv R d segs)
    (step : Step R π d segs op segs') : Inv R (d.apply op) segs' := by
  cases step with
  | scratch found top settled above free => exact scratchKeeps inv found top settled above free
  | record found top settled kind data placed fits room inside signed joined =>
    exact recordKeeps inv found top settled kind data placed fits room inside signed joined
  | count found top => exact countKeeps inv found top
  | position found top counted => exact positionKeeps inv found top counted
  | wakeFlags found => exact wakeKeeps inv found (.inl ⟨rfl, rfl⟩)
  | wakeWord found => exact wakeKeeps inv found (.inr ⟨rfl, toLELength _ _⟩)
  | stamp named => exact spareStoreKeeps inv named (.inl ⟨rfl, toLELength _ _⟩)
  | spareFlags named => exact spareStoreKeeps inv named (.inr ⟨rfl, rfl⟩)
  | spareLen named longer bound => exact spareLenKeeps inv geometry named longer bound
  | publish named blank parented rolled joined => exact publishKeeps geometry inv named blank parented rolled joined
  | commitRoll found next => exact commitRollKeeps inv found next
  | terminal found next rolled => exact terminalKeeps inv found next rolled
  | grow found longer bound => exact growKeeps inv found longer bound
  | create => exact createKeeps inv _ _
  | attemptStore mem => exact attemptKeeps inv mem _
  | attemptLen mem => exact attemptKeeps inv mem _
  | install attempt _ spare => exact installKeeps inv attempt spare
  | discard => exact unlinkKeeps inv (by omega) (.inl rfl)
  | prune kept least behind joined => exact unlinkKeeps inv (by omega) (.inr joined)
  | sweep => exact sweepKeeps inv _ _

end Preservation
end Xchannel.ChannelSteps
