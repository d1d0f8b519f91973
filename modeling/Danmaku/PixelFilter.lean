import Danmaku.Constants

/-!
The write path of the render DMA: the mSGDMA's byte-enabled words through `pixel_filter.v`.

* `AvalonWrite`: one 64-bit word on the bus, `pixelFilter` the combinational filter, which
  clears the byte enable of every lane that carries the transparent code in its low five
  bits.
* `Descriptor` and `transfer`: the words of one descriptor (the master is configured for
  unaligned accesses, so the first and the last word are enabled in part), filtered and
  written one after the other.
* `transfer_apply`: byte for byte, a transfer copies what is not transparent and leaves
  everything else.
-/

namespace Danmaku

/-- The low five bits that the filter compares. -/
def isTransparent (b : Byte) : Bool := b.extractLsb' 0 5 == 0xd#5

/-- One word of a write on the Avalon bus. -/
structure AvalonWrite where
  address : ℕ
  byteenable : Fin 8 → Bool
  writedata : BitVec 64

/-- Byte lane `i` of a word. -/
def lane (w : BitVec 64) (i : Fin 8) : Byte := w.extractLsb' (8 * i) 8

/-- The word with the given byte lanes. -/
def packLanes (f : Fin 8 → Byte) : BitVec 64 :=
  f 7 ++ f 6 ++ f 5 ++ f 4 ++ f 3 ++ f 2 ++ f 1 ++ f 0

/-- `pixel_filter`: `mask[i] = avm_s0_writedata[(i+1)*8-4:i*8] != 5'hd`. -/
def pixelFilter (s : AvalonWrite) : AvalonWrite :=
  { s with byteenable := fun i => s.byteenable i && s.writedata.extractLsb' (8 * i) 5 != 0xd#5 }

/-- The memory after a write of the enabled lanes. -/
def AvalonWrite.apply (s : AvalonWrite) (mem : ℕ → Byte) : ℕ → Byte := fun a =>
  if a / 8 = s.address ∧ s.byteenable ⟨a % 8, Nat.mod_lt a (by decide)⟩ = true then
    lane s.writedata ⟨a % 8, Nat.mod_lt a (by decide)⟩
  else mem a

@[simp] lemma lane_packLanes (f : Fin 8 → Byte) (i : Fin 8) : lane (packLanes f) i = f i := by
  apply BitVec.eq_of_getLsbD_eq
  intro j hj
  fin_cases i <;>
    simp (disch := omega) only [lane, packLanes, BitVec.getLsbD_extractLsb',
      BitVec.getLsbD_append, hj, decide_true, Bool.true_and, if_pos, if_neg] <;>
    exact congrArg _ (by omega)

/-- The five bits that the filter reads are those of the byte lane. -/
lemma pixelFilter_byteenable (s : AvalonWrite) (i : Fin 8) :
    (pixelFilter s).byteenable i
      = (s.byteenable i && !isTransparent (lane s.writedata i)) := by
  have h : s.writedata.extractLsb' (8 * i) 5 = (lane s.writedata i).extractLsb' 0 5 := by
    ext j hj
    simp only [lane, BitVec.getElem_extractLsb', BitVec.getLsbD_extractLsb']
    simp [show j < 8 by omega]
  simp only [pixelFilter, isTransparent, h, bne]

/-! ### Descriptors -/

/-- A descriptor of the render DMA: read address, write address, length. -/
structure Descriptor where
  src : ℕ
  dst : ℕ
  length : ℕ
  deriving DecidableEq, Repr

/-- Word `q` of the write side of a descriptor. -/
def Descriptor.word (d : Descriptor) (source : ℕ → Byte) (q : ℕ) : AvalonWrite where
  address := q
  byteenable i := decide (d.dst ≤ 8 * q + i ∧ 8 * q + i < d.dst + d.length)
  writedata := packLanes fun i => source (d.src + (8 * q + i - d.dst))

/-- The word addresses that a descriptor writes. -/
def Descriptor.words (d : Descriptor) : List ℕ :=
  List.range' (d.dst / 8) ((d.dst + d.length + 7) / 8 - d.dst / 8)

/-- The destination memory after the transfer of one descriptor. -/
def transfer (source : ℕ → Byte) (d : Descriptor) (mem : ℕ → Byte) : ℕ → Byte :=
  d.words.foldl (fun mem q => (pixelFilter (d.word source q)).apply mem) mem

/-- Byte `a` of the destination is one that the descriptor addresses and the filter lets
through. -/
def Descriptor.Writes (d : Descriptor) (source : ℕ → Byte) (a : ℕ) : Prop :=
  d.dst ≤ a ∧ a < d.dst + d.length ∧ isTransparent (source (d.src + (a - d.dst))) = false

instance (d : Descriptor) (source : ℕ → Byte) (a : ℕ) : Decidable (d.Writes source a) :=
  inferInstanceAs (Decidable (_ ∧ _))

/-- What one filtered word does to byte `a`. -/
lemma word_apply (d : Descriptor) (source mem : ℕ → Byte) (q a : ℕ) :
    (pixelFilter (d.word source q)).apply mem a
      = if a / 8 = q ∧ d.Writes source a then source (d.src + (a - d.dst)) else mem a := by
  have hdata : lane (d.word source q).writedata ⟨a % 8, Nat.mod_lt a (by decide)⟩
      = source (d.src + (8 * q + a % 8 - d.dst)) := by
    simp only [Descriptor.word, lane_packLanes]
  by_cases hq : a / 8 = q
  · have ha : 8 * q + a % 8 = a := by omega
    simp only [AvalonWrite.apply, pixelFilter_byteenable, hdata, ha]
    simp only [pixelFilter, Descriptor.word, ha, hq, true_and, Descriptor.Writes, lane_packLanes,
      Bool.and_eq_true, decide_eq_true_eq, Bool.not_eq_true', and_assoc]
  · have haddr : (pixelFilter (d.word source q)).address = q := rfl
    rw [AvalonWrite.apply, if_neg (by rw [haddr]; tauto), if_neg (by tauto)]

/-- **A transfer copies what is not transparent**: byte `a` of the destination is the source
byte if the descriptor addresses it and the filter lets it through, and is left alone
otherwise. -/
theorem transfer_apply (source : ℕ → Byte) (d : Descriptor) (mem : ℕ → Byte) (a : ℕ) :
    transfer source d mem a
      = if d.Writes source a then source (d.src + (a - d.dst)) else mem a := by
  have key : ∀ (qs : List ℕ) (m : ℕ → Byte),
      qs.foldl (fun mem q => (pixelFilter (d.word source q)).apply mem) m a
        = if a / 8 ∈ qs ∧ d.Writes source a then source (d.src + (a - d.dst)) else m a := by
    intro qs
    induction qs with
    | nil => intro m; simp
    | cons q qs ih =>
        intro m
        rw [List.foldl_cons, ih, word_apply]
        by_cases hw : d.Writes source a
        · by_cases hq : a / 8 = q <;> by_cases hqs : a / 8 ∈ qs <;> simp [hw, hq, hqs]
        · simp [hw]
  rw [transfer, key]
  congr 1
  refine propext ⟨fun h => h.2, fun h => ⟨?_, h⟩⟩
  obtain ⟨h1, h2, -⟩ := h
  rw [Descriptor.words, List.mem_range'_1]
  omega

/-- A transfer depends on the source only where its descriptor reads. -/
lemma transfer_congr {source source' : ℕ → Byte} {d : Descriptor}
    (h : ∀ k < d.length, source (d.src + k) = source' (d.src + k)) (mem : ℕ → Byte) :
    transfer source d mem = transfer source' d mem := by
  funext a
  rw [transfer_apply, transfer_apply]
  by_cases ha : d.dst ≤ a ∧ a < d.dst + d.length
  · have hk := h (a - d.dst) (by omega)
    have hw : d.Writes source a ↔ d.Writes source' a := by simp only [Descriptor.Writes, hk]
    rw [if_congr hw hk rfl]
  · rw [if_neg (fun hw => ha ⟨hw.1, hw.2.1⟩), if_neg (fun hw => ha ⟨hw.1, hw.2.1⟩)]

end Danmaku
