import Xchannel.RecordChain

/-! What holds of the bytes of one segment: its constant header, the record chain it carries, the
open end of the newest segment and the `Roll` at the end of every other one. -/
namespace Xchannel.SegmentInvariant
open ByteMemory Format Storage RecordChain

/-- The bytes of the Channel record that change after publication: `write_position`,
`message_count`, `wake_flags` and `wake_word`. -/
def Adjusted (a : Nat) : Prop := (16 ≤ a ∧ a < 32) ∨ a = 113 ∨ (116 ≤ a ∧ a < 120)

instance (a : Nat) : Decidable (Adjusted a) := by unfold Adjusted; infer_instance

/-- A published segment as the channel sees it: its file, identity, first index and generation,
the slots of its committed records and the slot they end at. -/
structure Seg where
  ino : Nat
  ident : Identity
  base : Nat
  gen : Nat
  slots : Slots
  fin : Nat
  deriving DecidableEq

structure Geometry (R : Nat) : Prop where
  large : 264 ≤ R
  small : R < 2 ^ 32
  aligned : 8 ∣ R

structure HeaderOk (R s : Nat) (ident : Identity) (m : Mem) : Prop where
  committed : m 0 = 1
  kind : m 1 = HeaderType.channel.raw
  header : validateChannelHeader m R s = .ok ()
  ident : validateV4Prefix m = .ok ident

/- The bytes a segment's header check reads. -/
def Constant (a : Nat) : Prop := a < 16 ∨ (40 ≤ a ∧ a < 65) ∨ (144 ≤ a ∧ a < 192) ∨ (193 ≤ a ∧ a < 208)

section Congruence
variable {R s : Nat} {ident : Identity} {m m' : Mem}

theorem validateCongr (same : ∀ a, Constant a → m' a = m a) :
    validateChannelHeader m' R s = validateChannelHeader m R s := by
  have field (off width : Nat) (lo : 40 ≤ off) (hi : off + width ≤ 65) :
      readLE m' off width = readLE m off width :=
    readLECongr fun a l h => same a (.inr (.inl ⟨by omega, by omega⟩))
  have byte (off : Nat) (lo : 40 ≤ off) (hi : off < 65) : m' off = m off :=
    same off (.inr (.inl ⟨lo, hi⟩))
  unfold validateChannelHeader formatVersion endianness systemHeaderSize userHeaderSize userHeaderKind
    regionSizeField channelSequence
  rw [field 40 8 (by omega) (by omega), field 48 4 (by omega) (by omega),
    field 56 2 (by omega) (by omega), field 60 4 (by omega) (by omega),
    byte 58 (by omega) (by omega), byte 59 (by omega) (by omega),
    byte 64 (by omega) (by omega)]

theorem prefixCongr (same : ∀ a, Constant a → m' a = m a) : validateV4Prefix m' = validateV4Prefix m := by
  have low : readLE m' 4 4 = readLE m 4 4 := readLECongr fun a l h => same a (.inl (by omega))
  have field (off width : Nat) (lo : 144 ≤ off) (hi : off + width ≤ 192) :
      readLE m' off width = readLE m off width :=
    readLECongr fun a l h => same a (.inr (.inr (.inl ⟨by omega, by omega⟩)))
  have last (off width : Nat) (lo : 193 ≤ off) (hi : off + width ≤ 208) :
      readLE m' off width = readLE m off width :=
    readLECongr fun a l h => same a (.inr (.inr (.inr ⟨by omega, by omega⟩)))
  unfold validateV4Prefix extIdentity
  rw [low, field 144 16 (by omega) (by omega),
    field 160 16 (by omega) (by omega), field 176 8 (by omega) (by omega),
    field 184 8 (by omega) (by omega), last 193 3 (by omega) (by omega),
    last 196 4 (by omega) (by omega), last 200 8 (by omega) (by omega)]

theorem HeaderOk.congr (h : HeaderOk R s ident m) (same : ∀ a, Constant a → m' a = m a) :
    HeaderOk R s ident m' where
  committed := by rw [same 0 (.inl (by omega))]; exact h.committed
  kind := by rw [same 1 (.inl (by omega))]; exact h.kind
  header := by rw [validateCongr same]; exact h.header
  ident := by rw [prefixCongr same]; exact h.ident

theorem HeaderOk.length (h : HeaderOk R s ident m) : lengthAt m 0 = 192 := (prefixOk.mp h.ident).1

theorem HeaderOk.sequence (h : HeaderOk R s ident m) : channelSequence m = s :=
  (validateOk.mp h.header).2.2.2.2.2

end Congruence

/- What a change keeps of a segment whose records end at `fin`. -/
def Frame (fin : Nat) (m m' : Mem) : Prop := ∀ a, a < fin → ¬ Adjusted a → m' a = m a

structure SegOk (R s : Nat) (f : File) (g : Seg) : Prop where
  header : HeaderOk R s g.ident f.data
  published : f.data 192 = 1
  base : baseRecordIndex f.data = g.base
  gen : generation f.data = g.gen
  start : ∃ rest, g.slots = (0, .channel) :: rest
  chain : Chain R f.data 0 g.slots g.fin
  room : g.fin % R + 56 ≤ R
  inside : (g.fin / R + 1) * R ≤ f.len
  bound : f.len ≤ 2 ^ 63 - 1

namespace SegOk
variable {R s : Nat} {f f' : File} {g : Seg}

theorem afterChannel (ok : SegOk R s f g) :
    ∃ rest, g.slots = (0, .channel) :: rest ∧ Chain R f.data 208 rest g.fin := by
  obtain ⟨rest, slots⟩ := ok.start
  have chain := ok.chain
  rw [slots] at chain
  cases chain with
  | step here tail =>
    have next : nextSlot f.data 0 = 208 := by
      unfold nextSlot
      rw [ok.header.length]
      rfl
    rw [next] at tail
    exact ⟨rest, slots, tail⟩

theorem finGe (ok : SegOk R s f g) : 208 ≤ g.fin := by
  obtain ⟨rest, _, tail⟩ := ok.afterChannel
  exact tail.le

theorem slotCases (ok : SegOk R s f g) {x : Nat × HeaderType} (hx : x ∈ g.slots) :
    x = (0, .channel) ∨ 208 ≤ x.1 := by
  obtain ⟨rest, slots, tail⟩ := ok.afterChannel
  rw [slots] at hx
  rcases List.mem_cons.mp hx with first | later
  · exact .inl first
  · exact .inr (tail.within later).1

theorem slotEnd (ok : SegOk R s f g) {x : Nat × HeaderType} (hx : x ∈ g.slots) :
    x.1 + 16 + lengthAt f.data x.1 ≤ g.fin :=
  Nat.le_trans (nextSlotGt _ _) (ok.chain.within hx).2

theorem aligned (ok : SegOk R s f g) : 8 ∣ g.fin := (ok.chain.aligned (Nat.dvd_zero 8)).1

theorem finLt (ok : SegOk R s f g) : g.fin + 56 ≤ f.len := by
  have room := ok.room
  have inside := ok.inside
  have split := Nat.div_add_mod g.fin R
  have expand : (g.fin / R + 1) * R = R * (g.fin / R) + R := by ring
  omega

/- The header bytes of a record are none of the adjusted ones. -/
theorem slotBytes (ok : SegOk R s f g) {x : Nat × HeaderType} (hx : x ∈ g.slots) {a : Nat}
    (lo : x.1 ≤ a) (hi : a < x.1 + 16) : a < g.fin ∧ ¬ Adjusted a := by
  have last := ok.slotEnd hx
  refine ⟨by omega, ?_⟩
  unfold Adjusted
  rcases ok.slotCases hx with rfl | later
  · have : a < 0 + 16 := hi
    omega
  · omega

theorem constantBytes (ok : SegOk R s f g) {a : Nat} (h : a < 208) (fixed : ¬ Adjusted a) :
    a < g.fin ∧ ¬ Adjusted a := ⟨by have := ok.finGe; omega, fixed⟩

theorem frame {h : File} (ok : SegOk R s f g) (same : Frame g.fin f.data h.data) (longer : f.len ≤ h.len)
    (bound : h.len ≤ 2 ^ 63 - 1) : SegOk R s h g := by
  have keep {a : Nat} (low : a < 208) (fixed : ¬ Adjusted a) : h.data a = f.data a :=
    same a (ok.constantBytes low fixed).1 fixed
  exact
    { header := ok.header.congr fun a h => by
        unfold Constant at h
        exact keep (by omega) (by unfold Adjusted; omega)
      published := by rw [keep (by omega) (by decide)]; exact ok.published
      base := by
        rw [← ok.base]
        exact readLECongr fun a lo hi => keep (by omega) (by unfold Adjusted; omega)
      gen := by
        rw [← ok.gen]
        exact readLECongr fun a lo hi => keep (by omega) (by unfold Adjusted; omega)
      start := ok.start
      chain := ok.chain.congr fun x hx a lo hi =>
        same a (ok.slotBytes hx lo hi).1 (ok.slotBytes hx lo hi).2
      room := ok.room
      inside := Nat.le_trans ok.inside longer
      bound := bound }

end SegOk

theorem SegOk.usersLt {R s : Nat} {f : File} {g : Seg} (ok : SegOk R s f g) : users g.slots < 2 ^ 63 := by
  have count := ok.chain.usersLe
  have last := ok.finLt
  have bound := ok.bound
  omega

/-- The newest segment with no store of its last commit outstanding. -/
structure Settled (m : Mem) (g : Seg) : Prop where
  free : m g.fin = 0
  count : messageCount m = users g.slots
  wp : writePosition m = g.fin + 16

/-- The newest segment between a commit and the store of its position: the slot after the record
carries the pre-installed header, and a User record may not be counted yet. -/
structure Lagging (m : Mem) (g : Seg) : Prop where
  signed : MessageHeader.read m g.fin = .preinstall
  behind : ∃ before p t, g.slots = before ++ [(p, t)] ∧ before ≠ [] ∧ writePosition m = p + 16 ∧
    (messageCount m = users g.slots ∨ (t = .user ∧ messageCount m + 1 = users g.slots))

def Tail (m : Mem) (g : Seg) : Prop := Settled m g ∨ Lagging m g

/-- The `Roll` at the end of a segment, committed or still only staged, and the successor it names. -/
structure Link (s : Nat) (m : Mem) (g g' : Seg) : Prop where
  kind : m (g.fin + 1) = HeaderType.roll.raw
  length : lengthAt m g.fin = 40
  body : slice m (g.fin + 16) 40 = (RollEdge.mk (s + 1) g'.ident.fileInstance g'.base).encode
  count : messageCount m = users g.slots
  base : g'.base = g.base + users g.slots
  parent : g'.ident.predecessor = g.ident.fileInstance ∧ g'.ident.predecessorSequence = s
  gen : g'.gen = g.gen
  position : (m g.fin = 1 ∧ writePosition m = g.fin + 72) ∨
    ((m g.fin = 1 ∨ m g.fin = 0) ∧ writePosition m = g.fin + 16)

theorem preinstallFree {m : Mem} {p : Nat} (h : MessageHeader.read m p = .preinstall) : m p = 0 :=
  congrArg MessageHeader.committed h

theorem Tail.free {m : Mem} {g : Seg} (tail : Tail m g) : m g.fin = 0 := by
  rcases tail with settled | lagging
  · exact settled.free
  · exact preinstallFree lagging.signed

/- A prepared file: a whole header and one pre-installed slot, not yet published. -/
structure Blank (R s : Nat) (f : File) (ident : Identity) (gen : Nat) : Prop where
  header : HeaderOk R s ident f.data
  unpublished : f.data 192 = 0
  gen : generation f.data = gen
  count : messageCount f.data = 0
  wp : writePosition f.data = 224
  signed : MessageHeader.read f.data 208 = .preinstall
  inside : R ≤ f.len
  bound : f.len ≤ 2 ^ 63 - 1

def Blank.seg (ino : Nat) (ident : Identity) (base gen : Nat) : Seg :=
  ⟨ino, ident, base, gen, [(0, .channel)], 208⟩

section Stores
variable {R s : Nat} {f : File} {g g' : Seg} {m m' : Mem}

/- The bytes the end of a segment depends on: the two advisory words and the last slot. -/
def Last (fin a : Nat) : Prop := (16 ≤ a ∧ a < 32) ∨ (fin ≤ a ∧ a < fin + 56)

theorem Settled.congr (h : Settled m g) (same : ∀ a, Last g.fin a → m' a = m a) :
    Settled m' g where
  free := by rw [same _ (.inr ⟨by omega, by omega⟩)]; exact h.free
  count := by
    rw [← h.count]
    exact readLECongr fun a lo hi => same a (.inl ⟨by omega, by omega⟩)
  wp := by
    rw [← h.wp]
    exact readLECongr fun a lo hi => same a (.inl ⟨by omega, by omega⟩)

theorem Lagging.congr (h : Lagging m g) (same : ∀ a, Last g.fin a → m' a = m a) : Lagging m' g := by
  obtain ⟨signed, before, p, t, slots, later, wp, count⟩ := h
  have count' : messageCount m' = messageCount m :=
    readLECongr fun a lo hi => same a (.inl ⟨by omega, by omega⟩)
  have wp' : writePosition m' = writePosition m :=
    readLECongr fun a lo hi => same a (.inl ⟨by omega, by omega⟩)
  refine ⟨?_, before, p, t, slots, later, by rw [wp', wp], by rw [count']; exact count⟩
  rw [readCongr fun a lo hi => same a (.inr ⟨by omega, by omega⟩)]
  exact signed

theorem Tail.congr (h : Tail m g) (same : ∀ a, Last g.fin a → m' a = m a) : Tail m' g := by
  rcases h with settled | lagging
  · exact .inl (settled.congr same)
  · exact .inr (lagging.congr same)

theorem Link.congr (h : Link s m g g') (same : ∀ a, Last g.fin a → m' a = m a) :
    Link s m' g g' where
  kind := by rw [same _ (.inr ⟨by omega, by omega⟩)]; exact h.kind
  length := by
    rw [← h.length]
    exact readLECongr fun a lo hi => same a (.inr ⟨by omega, by omega⟩)
  body := by
    rw [← h.body]
    exact sliceCongr fun a lo hi => same a (.inr ⟨by omega, by omega⟩)
  count := by
    rw [← h.count]
    exact readLECongr fun a lo hi => same a (.inl ⟨by omega, by omega⟩)
  base := h.base
  parent := h.parent
  gen := h.gen
  position := by
    have wp' : writePosition m' = writePosition m :=
      readLECongr fun a lo hi => same a (.inl ⟨by omega, by omega⟩)
    rw [same _ (.inr ⟨by omega, by omega⟩), wp']
    exact h.position

end Stores
end Xchannel.SegmentInvariant
