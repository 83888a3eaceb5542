import Xchannel.SegmentInvariant

/-! The invariant of a whole channel: the published segments in order, what their files and their
names look like, and that everything else on the disk is a private file or one prepared successor. -/
namespace Xchannel.ChannelInvariant
open ByteMemory Format Storage RecordChain SegmentInvariant

/- How segment `s` ends: open if it is the newest, else with a `Roll` into the next one. Only the
last `Roll` may be uncommitted, and then its successor is still empty. -/
def Ends (segs : List Seg) (s : Nat) (m : Mem) (g : Seg) : Prop :=
  match segs[s + 1]? with
  | none => Tail m g
  | some g' => Link s m g g' ∧ (m g.fin = 1 ∨ (segs[s + 2]? = none ∧ g'.fin = 208))

structure Parented (segs : List Seg) (ident : Identity) (gen : Nat) : Prop where
  first : segs = [] → ident = Identity.initial ident.fileInstance
  next : ∀ s g, segs[s]? = some g → s + 1 = segs.length →
    ident.predecessor = g.ident.fileInstance ∧ ident.predecessorSequence = s ∧ gen = g.gen

/-- A prepared successor of the newest segment. -/
def Spare (R : Nat) (segs : List Seg) (f : File) : Prop :=
  ∃ ident gen, Blank R segs.length f ident gen ∧ Parented segs ident gen

structure Inv (R : Nat) (d : Disk) (segs : List Seg) : Prop where
  history : d.history = segs.map Seg.ino
  distinct : (segs.map Seg.ino).Nodup
  old : ∀ g ∈ segs, g.ino < d.fresh
  names : ∀ s i, d.segments s = some i → s < d.bound ∧ i < d.fresh ∧
    ((∃ g, segs[s]? = some g ∧ g.ino = i) ∨
      (s = segs.length ∧ i ∉ segs.map Seg.ino ∧ Spare R segs (d.files i)))
  newest : ∀ s g, segs[s]? = some g → s + 1 = segs.length → d.segments s = some g.ino
  attempts : ∀ a ∈ d.attempts, a.ino < d.fresh ∧ a.ino ∉ segs.map Seg.ino ∧
    ∀ s, d.segments s ≠ some a.ino
  apart : (d.attempts.map Attempt.ino).Nodup
  each : ∀ s g, segs[s]? = some g → SegOk R s (d.files g.ino) g ∧ Ends segs s (d.data g.ino) g
  gone : ∀ s g, segs[s]? = some g → s + 2 = segs.length → d.segments s = none → d.data g.ino g.fin = 1

theorem emptyInv (R : Nat) : Inv R Disk.empty [] where
  history := rfl
  distinct := by simp
  old := by simp
  names := by simp [Disk.empty]
  newest := by simp
  attempts := by simp [Disk.empty]
  apart := by simp [Disk.empty]
  each := by simp
  gone := by simp

section Lookups
variable {R s t : Nat} {d : Disk} {segs : List Seg} {g h : Seg}

@[simp] theorem setFileSame (i : Nat) (f : File) : (d.setFile i f).files i = f := by simp [Disk.setFile]

theorem setFileOther {i j : Nat} (f : File) (ne : j ≠ i) : (d.setFile i f).files j = d.files j := by
  simp [Disk.setFile, ne]

@[simp] theorem setFileData (i : Nat) (f : File) : (d.setFile i f).data i = f.data := by
  simp [Disk.data]

theorem setFileDataOther {i j : Nat} (f : File) (ne : j ≠ i) : (d.setFile i f).data j = d.data j := by
  simp [Disk.data, setFileOther f ne]

@[simp] theorem setFileLen (i : Nat) (f : File) : (d.setFile i f).len i = f.len := by simp [Disk.len]

@[simp] theorem storeData (i off : Nat) (bytes : List UInt8) :
    (d.apply (.store i off bytes)).data i = write (d.data i) off bytes := setFileData _ _

theorem storeDataOther {i j : Nat} (off : Nat) (bytes : List UInt8) (ne : j ≠ i) :
    (d.apply (.store i off bytes)).data j = d.data j := setFileDataOther _ ne

@[simp] theorem commitData (i off : Nat) : (d.apply (.commit i off)).data i = write (d.data i) off [1] :=
  setFileData _ _

theorem commitDataOther {i j : Nat} (off : Nat) (ne : j ≠ i) :
    (d.apply (.commit i off)).data j = d.data j := setFileDataOther _ ne

@[simp] theorem storeLen (i off j : Nat) (bytes : List UInt8) :
    (d.apply (.store i off bytes)).len j = d.len j := by
  by_cases same : j = i
  · subst same
    exact setFileLen _ _
  · simp [Disk.apply, Disk.len, setFileOther _ same]

@[simp] theorem commitLen (i off j : Nat) : (d.apply (.commit i off)).len j = d.len j :=
  storeLen i off j [1]

theorem inoMem (found : segs[s]? = some g) : g.ino ∈ segs.map Seg.ino :=
  List.mem_map_of_mem (List.mem_of_getElem? found)

theorem Inv.sameIno (inv : Inv R d segs) (found : segs[s]? = some g) (other : segs[t]? = some h)
    (same : g.ino = h.ino) : s = t := by
  have at_s : (segs.map Seg.ino)[s]? = some g.ino := by simp [found]
  have at_t : (segs.map Seg.ino)[t]? = some g.ino := by simp [other, same]
  have bound : s < (segs.map Seg.ino).length := (List.getElem?_eq_some_iff.mp at_s).1
  exact (List.getElem?_inj bound inv.distinct).mp (at_s.trans at_t.symm)

theorem Inv.otherIno (inv : Inv R d segs) (found : segs[s]? = some g) (other : segs[t]? = some h)
    (ne : s ≠ t) : h.ino ≠ g.ino := fun same => ne (inv.sameIno found other same.symm)

theorem lengthOf (found : segs[s]? = some g) : s < segs.length := (List.getElem?_eq_some_iff.mp found).1

theorem noNext (top : s + 1 = segs.length) : segs[s + 1]? = none := List.getElem?_eq_none (by omega)

theorem Inv.tail (inv : Inv R d segs) (found : segs[s]? = some g) (top : s + 1 = segs.length) :
    Tail (d.data g.ino) g := by
  have ends := (inv.each s g found).2
  rwa [Ends, noNext top] at ends

theorem Inv.link (inv : Inv R d segs) (found : segs[s]? = some g) (next : segs[s + 1]? = some h) :
    Link s (d.data g.ino) g h := by
  have ends := (inv.each s g found).2
  rw [Ends, next] at ends
  exact ends.1

end Lookups

section Touch
variable {R s : Nat} {d : Disk} {segs : List Seg} {g : Seg}

/- Only the file of segment `s` changes, and it still is that segment. -/
theorem Inv.touch (inv : Inv R d segs) (found : segs[s]? = some g) {f : File} (ok : SegOk R s f g)
    (ends : Ends segs s f.data g) (stays : s + 2 = segs.length → d.data g.ino g.fin = 1 → f.data g.fin = 1) :
    Inv R (d.setFile g.ino f) segs where
  history := inv.history
  distinct := inv.distinct
  old := inv.old
  names := by
    intro s' i named
    obtain ⟨low, old, known | ⟨top, apart, spare⟩⟩ := inv.names s' i named
    · exact ⟨low, old, .inl known⟩
    · have ne : i ≠ g.ino := fun e => apart (e ▸ inoMem found)
      exact ⟨low, old, .inr ⟨top, apart, by rwa [setFileOther f ne]⟩⟩
  newest := inv.newest
  attempts := inv.attempts
  apart := inv.apart
  each := by
    intro s' g' found'
    by_cases same : s = s'
    · subst same
      cases Option.some.inj (found.symm.trans found')
      rw [setFileSame, setFileData]
      exact ⟨ok, ends⟩
    · have ne := inv.otherIno found found' same
      rw [setFileOther f ne, setFileDataOther f ne]
      exact inv.each s' g' found'
  gone := by
    intro s' g' found' last none
    have rolled := inv.gone s' g' found' last none
    by_cases same : s = s'
    · subst same
      cases Option.some.inj (found.symm.trans found')
      rw [setFileData]
      exact stays last rolled
    · rw [setFileDataOther f (inv.otherIno found found' same)]
      exact rolled

/- Only a file changes that no segment is in. -/
theorem Inv.touchOther (inv : Inv R d segs) {i : Nat} {f : File} (apart : i ∉ segs.map Seg.ino)
    (spare : ∀ s, d.segments s = some i → Spare R segs f) : Inv R (d.setFile i f) segs where
  history := inv.history
  distinct := inv.distinct
  old := inv.old
  names := by
    intro s j named
    obtain ⟨low, old, known | ⟨top, apart', spare'⟩⟩ := inv.names s j named
    · exact ⟨low, old, .inl known⟩
    · refine ⟨low, old, .inr ⟨top, apart', ?_⟩⟩
      by_cases same : j = i
      · subst same
        rw [setFileSame]
        exact spare s named
      · rwa [setFileOther f same]
  newest := inv.newest
  attempts := inv.attempts
  apart := inv.apart
  each := by
    intro s g found
    have ne : g.ino ≠ i := fun e => apart (e ▸ inoMem found)
    rw [setFileOther f ne, setFileDataOther f ne]
    exact inv.each s g found
  gone := by
    intro s g found last none
    have ne : g.ino ≠ i := fun e => apart (e ▸ inoMem found)
    rw [setFileDataOther f ne]
    exact inv.gone s g found last none

theorem Ends.congr {m m' : Mem} (ends : Ends segs s m g) (same : ∀ a, Last g.fin a → m' a = m a) :
    Ends segs s m' g := by
  unfold Ends at ends ⊢
  cases next : segs[s + 1]? with
  | none =>
    rw [next] at ends
    exact ends.congr same
  | some g' =>
    rw [next] at ends
    refine ⟨ends.1.congr same, ?_⟩
    rw [same _ (.inr ⟨Nat.le_refl _, by omega⟩)]
    exact ends.2

end Touch

end Xchannel.ChannelInvariant
