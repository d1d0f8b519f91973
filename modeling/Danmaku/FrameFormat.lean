import Danmaku.Compose
import Danmaku.LayerMaps

/-!
The frame format that the overlay hardware reads, as a property of a frame buffer.

* `LaidOut`: the pixels of each row are free of marker codes, and each row ends in its two
  markers.
* `Screen.FitsBuffer`: the frame, and the layer rows that may reach below it, stay in a buffer.
* `FrameDescriptor`: the descriptors of a session: a clear, or a row of a layer.
* `FrameDescriptor.laidOut`: **they keep the format** of every buffer, and
  `laidOut_clearScreen`: a clear establishes it.
-/

namespace Danmaku

/-- The overlay hardware compares the low four bits with the marker codes. -/
def isMarker (b : Byte) : Bool := b.extractLsb' 0 4 == 0xe#4 || b.extractLsb' 0 4 == 0xf#4

/-- The frame buffer at `dst` holds a frame of the size `scr`: within the first `img_size` bytes
each row's pixels carry no marker code and are followed by two `PXL_HSYNC`, by two `PXL_VSYNC`
after the last row. -/
def LaidOut (scr : Screen) (mem : ℕ → Byte) (dst : ℕ) : Prop :=
  ∀ k < scr.imgSize.toNat,
    if k % scr.stride < scr.width then isMarker (mem (dst + k)) = false
    else mem (dst + k) = if k < scr.stride * scr.height - 2 then pxlHsync else pxlVsync

/-- A frame fits a buffer, and so do the rows of the layers, which reach below the frame where the
screen is low and wide. -/
def Screen.FitsBuffer (s : Screen) : Prop :=
  s.stride * s.height ≤ frameBufferSize ∧ slidingLayerRows * s.edge * s.stride ≤ frameBufferSize + 2

instance (s : Screen) : Decidable s.FitsBuffer := inferInstanceAs (Decidable (_ ∧ _))

/-- The descriptors of a session: a `ClearScreen`, or a row of a layer over a buffer. -/
inductive FrameDescriptor (scr : Screen) (blank : ℕ) : Descriptor → Prop
  | clear (i : ℕ) : FrameDescriptor scr blank (clearScreen scr blank (i * frameBufferSize))
  | row {i row c : ℕ} {d : Descriptor} (hrow : row < slidingLayerRows * scr.edge)
      (hdst : d.dst = i * frameBufferSize + (row * scr.stride + c))
      (hcol : c + d.length ≤ scr.width) (hsrc : d.src + d.length ≤ layerMap 30) :
      FrameDescriptor scr blank d

variable {scr : Screen} {area mem : ℕ → Byte} {blank dst idx : ℕ} {d : Descriptor}

lemma Screen.FitsBuffer.edge_le (h : scr.FitsBuffer) : scr.edge ≤ 148 :=
  edge_le_of_rows h.2

lemma Screen.FitsBuffer.edge_le_held (h : scr.FitsBuffer) : scr.edge ≤ 227 :=
  h.edge_le.trans (by decide)

/-! ### The bytes -/

lemma MapByte.not_marker {b : Byte} (h : MapByte b) : isMarker b = false := by
  rcases h with h | rfl
  · revert b
    decide
  · decide

/-- A blank frame is laid out. -/
lemma blankByte_laidOut (k : ℕ) :
    if k % scr.stride < scr.width then isMarker (scr.blankByte k) = false
    else scr.blankByte k = if k < scr.stride * scr.height - 2 then pxlHsync else pxlVsync := by
  rw [Screen.blankByte]
  split
  · decide
  · rfl

/-- After a `ClearScreen` its buffer is laid out. -/
lemma laidOut_clearScreen (hblank : ∀ k < scr.imgSize.toNat, area (blank + k) = scr.blankByte k) :
    LaidOut scr (transfer area (clearScreen scr blank dst) mem) dst := by
  intro k hk
  have hbyte : transfer area (clearScreen scr blank dst) mem (dst + k) = scr.blankByte k := by
    have hvis := visible_blankByte scr k
    rw [transfer_apply, if_pos]
    · simp only [clearScreen, Nat.add_sub_cancel_left]
      exact hblank k hk
    · refine ⟨Nat.le_add_right _ _, by simp only [clearScreen]; omega, ?_⟩
      simp only [clearScreen, Nat.add_sub_cancel_left, hblank k hk]
      by_contra ht
      rw [visible, if_pos (by simpa using ht)] at hvis
      exact absurd hvis (by simp)
  rw [hbyte]
  exact blankByte_laidOut k

/-! ### The descriptors of a session -/

/-- A row descriptor of a layer. -/
lemma frameDescriptor_of_isRow {map y srcX xfrom xto i : ℕ} (hedge : scr.edge ≤ 148)
    (hmap : map + mapBytes ≤ layerMap 30) (hy : y < slidingLayerRows) (hle : xfrom ≤ xto)
    (hto : xto < scr.width) (hsrc : srcX + (xto - xfrom + 1) ≤ maxWidth)
    (hd : IsRow scr (idx * frameBufferSize) map (scr.edge * y) srcX xfrom xto i d) :
    FrameDescriptor scr blank d := by
  obtain ⟨hi, hs, hdst, hlen⟩ := hd
  refine .row (scr.layer_row_lt hy hi) hdst (by omega) ?_
  rw [hs, hlen]
  simp only [cell, maxWidth, mapBytes_eq] at *
  omega

/-- The draw loops hand out row descriptors only. -/
lemma frameDescriptor_of_mem_drawLayers {rd : Renderer} (hedge : scr.edge ≤ 148)
    (hok : rd.LayersOk (layerMap 30)) (hd : d ∈ drawLayers scr (idx * frameBufferSize) rd) :
    FrameDescriptor scr blank d := by
  simp only [drawLayers, List.mem_append, List.mem_flatMap] at hd
  rcases hd with ⟨p, -, hd⟩ | ⟨i, -, hd⟩
  · obtain ⟨srcX, xfrom, xto, i, hle, hto, hspan, hi⟩ := mem_slidingWritePixels hd
    obtain ⟨hmap, -, hwidth⟩ := hok.sliding p.1 p.2
    exact frameDescriptor_of_isRow hedge hmap (Fin.isLt _) hle hto
      (Int.ofNat_le.mp (hspan.trans hwidth)) hi
  · obtain ⟨srcX, xfrom, xto, j, hle, hto, hspan, hj⟩ := mem_staticWritePixels hd
    obtain ⟨hmap, -, hlen⟩ := hok.static i
    exact frameDescriptor_of_isRow hedge hmap (Fin.isLt _) hle hto
      (Int.ofNat_le.mp (hspan.trans hlen)) hj

/-- **The transfers of a session keep every buffer laid out.** -/
theorem FrameDescriptor.laidOut (hfit : scr.FitsBuffer)
    (hblank : ∀ k < scr.imgSize.toNat, area (blank + k) = scr.blankByte k)
    (hmaps : ∀ a < layerMap 30, MapByte (area a)) (hd : FrameDescriptor scr blank d)
    (h : LaidOut scr mem (idx * frameBufferSize)) :
    LaidOut scr (transfer area d mem) (idx * frameBufferSize) := by
  intro k hk
  obtain ⟨hsize, hrows⟩ := hfit
  have hkept := h k hk
  rw [transfer_apply]
  by_cases hw : d.Writes area (idx * frameBufferSize + k)
  · rw [if_pos hw]
    obtain ⟨hlow, hhigh, -⟩ := hw
    rw [Screen.imgSize_toNat] at hk
    cases hd with
    | clear i =>
        simp only [clearScreen, Screen.imgSize_toNat] at hlow hhigh ⊢
        obtain rfl : i = idx := by
          rw [frameBufferSize_eq] at *
          omega
        rw [Nat.add_sub_cancel_left, hblank k (by rwa [Screen.imgSize_toNat])]
        exact blankByte_laidOut k
    | @row i row c d hrow hdst hcol hsrc =>
        have hbelow : row * scr.stride + scr.stride ≤ slidingLayerRows * scr.edge * scr.stride := by
          rw [← Nat.succ_mul]
          exact Nat.mul_le_mul_right _ hrow
        have hstride : scr.stride = scr.width + 2 := rfl
        obtain rfl : i = idx := by
          rw [frameBufferSize_eq] at *
          omega
        obtain ⟨j, hj⟩ : ∃ j, k = row * scr.stride + (c + j) :=
          ⟨k - (row * scr.stride + c), by omega⟩
        rw [hj, scr.mul_stride_add_mod row (show c + j < scr.stride by omega), if_pos (by omega)]
        exact (hmaps _ (by omega)).not_marker
  · rw [if_neg hw]
    exact hkept

end Danmaku
