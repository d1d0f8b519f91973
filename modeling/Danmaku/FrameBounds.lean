import Danmaku.RenderOnce

/-!
Where the DMAs of a frame write.

* `FrameWritesInBounds`: every byte that `ClearScreen` and the draw functions address lies in
  the target's own frame buffer, on a row of the screen and, on the source side, on a row of
  the layer map, and the frame length passes the assertions of `FrameBufferTxmit`.
* `Screen.Fits`: the frame fits a buffer and the five rows of layers fit the screen.
* `BlankScreenFits`: the blank screen is allocated and lies in the DMA area.
* `frameWritesInBounds_iff`: the frames stay in bounds exactly for the sizes that fit, or whose
  blank screen does not. `SubMain` tests neither part of `Fits`.
-/

namespace Danmaku

open DmaEngine

namespace Screen

/-- The frame fits a frame buffer, and the rows of the layers fit the screen. -/
def Fits (s : Screen) : Prop :=
  s.stride * s.height ≤ frameBufferSize ∧ slidingLayerRows * s.edge ≤ s.height

instance (s : Screen) : Decidable s.Fits := inferInstanceAs (Decidable (_ ∧ _))

variable {s : Screen}

/-- Where the rows of the layers fit a buffer, a character cell has fewer rows than a layer map. -/
lemma edge_le_of_rows (h : slidingLayerRows * s.edge * s.stride ≤ frameBufferSize + 2) :
    s.edge ≤ 148 := by
  by_contra hlarge
  have hw : 2982 ≤ s.stride := by
    simp only [edge, stride] at *
    omega
  have hmul := Nat.mul_le_mul (show 5 * 149 ≤ 5 * s.edge by omega) hw
  rw [frameBufferSize_eq] at h
  simp only [slidingLayerRows] at h
  omega

lemma Fits.edge_le (h : s.Fits) : s.edge ≤ 148 := by
  obtain ⟨hsize, hrows⟩ := h
  refine edge_le_of_rows ?_
  calc slidingLayerRows * s.edge * s.stride ≤ s.height * s.stride := Nat.mul_le_mul_right _ hrows
    _ = s.stride * s.height := Nat.mul_comm _ _
    _ ≤ frameBufferSize + 2 := hsize.trans (Nat.le_add_right _ 2)

/-- No text is too long for its map. -/
lemma Fits.edge_le_held (h : s.Fits) : s.edge ≤ 227 := h.edge_le.trans (by decide)

end Screen

/-- The bytes of a layer's row descriptor, byte by byte: the destination lies in buffer `idx`
(which starts at `dst`) and on a row of the screen, the source on a row of the map. -/
structure RowInBounds (scr : Screen) (idx dst map : ℕ) (d : Descriptor) : Prop where
  buffer : ∀ k < d.length,
    idx * frameBufferSize ≤ d.dst + k ∧ d.dst + k < (idx + 1) * frameBufferSize
  row : ∀ k < d.length, (d.dst + k - dst) / scr.stride < scr.height
  mapRow : ∀ k < d.length, (d.src + k - map) / (maxWidth * 2) < maxHeight

/-- `InitBlankScreen` gets its buffer, and fills it inside the DMA area. Otherwise the program ends
before the first frame: the allocator exits, or, where its 32-bit sum wrapped around, the loops of
`InitBlankScreen` leave the mapping. -/
def BlankScreenFits (ctx : DriverCtx) (scr : Screen) : Prop :=
  ∃ blank ctx', allocRenderBuf ctx scr.imgSize = some (blank, ctx')
    ∧ blank + scr.imgSize.toNat ≤ ctx'.szDynArea.toNat

/-- Every DMA of a frame stays in the bounds of its buffer, of the screen and of the maps, and
the frame can be transmitted; a condition on the sizes for which the program gets to a frame. -/
def FrameWritesInBounds (ctx : DriverCtx) (scr : Screen) : Prop :=
  ∀ blank ctx', allocRenderBuf ctx scr.imgSize = some (blank, ctx') →
    blank + scr.imgSize.toNat ≤ ctx'.szDynArea.toNat →
    ∀ idx dst : ℕ, getFrameBuffer idx = some dst →
      (∀ k < (clearScreen scr blank dst).length,
        idx * frameBufferSize ≤ (clearScreen scr blank dst).dst + k
          ∧ (clearScreen scr blank dst).dst + k < (idx + 1) * frameBufferSize)
      ∧ (∀ s : SlidingLayer, 0 ≤ s.width → s.width ≤ maxWidth →
          ∀ d ∈ slidingWritePixels scr dst s, RowInBounds scr idx dst s.map d)
      ∧ (∀ s : StaticLayer, 0 ≤ s.validLen → s.validLen ≤ maxWidth →
          ∀ d ∈ staticWritePixels scr dst s, RowInBounds scr idx dst s.map d)
      ∧ ∀ dma, frameBufferTxmit dma idx scr.imgSize ≠ .error .txmitLength
          ∧ frameBufferTxmit dma idx scr.imgSize ≠ .error .txmitAlign

lemma getFrameBuffer_eq_some {idx dst : ℕ} (h : getFrameBuffer idx = some dst) :
    idx < numFrameBuffer ∧ dst = idx * frameBufferSize := by
  rw [getFrameBuffer] at h
  split_ifs at h with hidx
  · exact ⟨by omega, (Option.some.inj h).symm⟩

/-- The length passes the alignment assertion for every accepted size. -/
lemma imgSize_and_seven (scr : Screen) : scr.imgSize &&& 7#32 = 0#32 := by
  have h := scr.stride_mul_height_mod
  rw [← scr.imgSize_toNat] at h
  apply BitVec.eq_of_toNat_eq
  rw [BitVec.toNat_and]
  simpa using (Nat.and_two_pow_sub_one_eq_mod scr.imgSize.toNat 3).trans h

/-- The rows of a layer that is drawn in a span of the screen, out of a span of its map. -/
lemma rowInBounds_of_isRow {scr : Screen} {idx dst map y srcX xfrom xto i : ℕ} {d : Descriptor}
    (hfit : scr.Fits) (hdst : dst = idx * frameBufferSize) (hy : y < slidingLayerRows)
    (hle : xfrom ≤ xto) (hto : xto < scr.width) (hsrc : srcX + (xto - xfrom + 1) ≤ maxWidth)
    (hd : IsRow scr dst map (scr.edge * y) srcX xfrom xto i d) :
    RowInBounds scr idx dst map d := by
  obtain ⟨hi, hs, hd, hl⟩ := hd
  have hedge := hfit.edge_le
  have hstride : scr.stride = scr.width + 2 := rfl
  have hrow : scr.edge * y + i + 1 ≤ scr.height := (scr.layer_row_lt hy hi).trans_le hfit.2
  have hend : (scr.edge * y + i) * scr.stride + scr.stride ≤ scr.stride * scr.height := by
    calc (scr.edge * y + i) * scr.stride + scr.stride
        = (scr.edge * y + i + 1) * scr.stride := (Nat.succ_mul _ _).symm
      _ ≤ scr.height * scr.stride := Nat.mul_le_mul_right _ hrow
      _ = scr.stride * scr.height := Nat.mul_comm _ _
  have hbuf := hfit.1
  refine ⟨?_, ?_, ?_⟩
  · intro k hk
    rw [Nat.succ_mul]
    omega
  · intro k hk
    rw [hd, show dst + ((scr.edge * y + i) * scr.stride + xfrom) + k - dst
        = xfrom + k + (scr.edge * y + i) * scr.stride from by omega,
      Nat.add_mul_div_right _ _ (by omega), Nat.div_eq_of_lt (by omega)]
    omega
  · intro k hk
    have hcol : srcX + k < maxWidth * 2 := by
      simp only [maxWidth] at *
      omega
    rw [hs, cell, show map + (i * (maxWidth * 2) + srcX) + k - map
        = srcX + k + i * (maxWidth * 2) from by omega,
      Nat.add_mul_div_right _ _ (by decide), Nat.div_eq_of_lt hcol]
    simp only [maxHeight]
    omega

lemma slidingWritePixels_rowInBounds {scr : Screen} {idx dst : ℕ} {s : SlidingLayer}
    {d : Descriptor} (hfit : scr.Fits) (hdst : dst = idx * frameBufferSize)
    (hw : s.width ≤ maxWidth) (hd : d ∈ slidingWritePixels scr dst s) :
    RowInBounds scr idx dst s.map d := by
  obtain ⟨srcX, xfrom, xto, i, hle, hto, hspan, hi⟩ := mem_slidingWritePixels hd
  exact rowInBounds_of_isRow hfit hdst s.y.isLt hle hto (Int.ofNat_le.mp (hspan.trans hw)) hi

lemma staticWritePixels_rowInBounds {scr : Screen} {idx dst : ℕ} {s : StaticLayer}
    {d : Descriptor} (hfit : scr.Fits) (hdst : dst = idx * frameBufferSize)
    (hw : s.validLen ≤ maxWidth) (hd : d ∈ staticWritePixels scr dst s) :
    RowInBounds scr idx dst s.map d := by
  obtain ⟨srcX, xfrom, xto, i, hle, hto, hspan, hi⟩ := mem_staticWritePixels hd
  exact rowInBounds_of_isRow hfit hdst s.y.isLt hle hto (Int.ofNat_le.mp (hspan.trans hw)) hi

/-- A sliding layer in the last row of layers, one pixel wide at the left border. -/
def lastRowLayer : SlidingLayer := ⟨0, ⟨4, by decide⟩, 1, 1, true, 0⟩

/-- Its last map row goes to screen row `5 * edge - 1`. -/
lemma lastRowLayer_mem (scr : Screen) (dst : ℕ) :
    ∃ d ∈ slidingWritePixels scr dst lastRowLayer,
      0 < d.length ∧ d.dst = dst + (5 * scr.edge - 1) * scr.stride := by
  have hw := scr.le_width
  have hpos := scr.edge_pos
  have hne : slidingWritePixels scr dst lastRowLayer ≠ [] :=
    slidingWritePixels_ne_nil_iff.mpr
      ⟨rfl, by simp only [lastRowLayer]; omega, by decide, by decide⟩
  obtain ⟨-, srcX, xfrom, xto, hle, -, hxfrom, -, -, heq⟩ := slidingWritePixels_eq hne
  obtain rfl : xfrom = 0 := by simpa [lastRowLayer] using hxfrom
  refine ⟨⟨0 + cell (scr.edge - 1) srcX,
    dst + ((scr.edge * 4 + (scr.edge - 1)) * scr.stride + 0), xto - 0 + 1⟩, ?_, Nat.succ_pos _, ?_⟩
  · rw [heq, mem_rowDescriptors hle]
    exact ⟨scr.edge - 1, ⟨by omega, rfl, rfl, rfl⟩⟩
  · rw [Nat.add_zero, show scr.edge * 4 + (scr.edge - 1) = 5 * scr.edge - 1 from by omega]

/-- **Where the frame fits**: all DMAs of all frames stay in bounds exactly for the sizes that
fit, or whose blank screen ends the program. -/
theorem frameWritesInBounds_iff (ctx : DriverCtx) (scr : Screen) :
    FrameWritesInBounds ctx scr ↔ ¬ BlankScreenFits ctx scr ∨ scr.Fits := by
  constructor
  · intro h
    by_cases hblank : BlankScreenFits ctx scr
    · obtain ⟨blank, ctx', halloc, hroom⟩ := hblank
      obtain ⟨-, hsliding, -, htxmit⟩ := h blank ctx' halloc hroom 0 0 (by decide)
      refine Or.inr ⟨?_, ?_⟩
      · by_contra hlarge
        refine (htxmit Engine.empty).1 ?_
        rw [← scr.imgSize_toNat] at hlarge
        rw [frameBufferTxmit, if_neg (by simp [numFrameBuffer]), if_pos hlarge]
      · obtain ⟨d, hd, hlen, hdst⟩ := lastRowLayer_mem scr 0
        have hrow := (hsliding lastRowLayer (by decide) (by decide) d hd).row 0 hlen
        have hstride : 0 < scr.stride := Nat.succ_pos _
        rw [hdst, Nat.zero_add, Nat.add_zero, Nat.sub_zero, Nat.mul_div_cancel _ hstride] at hrow
        simp only [slidingLayerRows]
        omega
    · exact Or.inl hblank
  · intro h blank ctx' halloc hroom idx dst hidx
    obtain ⟨hlt, hdst⟩ := getFrameBuffer_eq_some hidx
    have hfit : scr.Fits := h.resolve_left (not_not.mpr ⟨blank, ctx', halloc, hroom⟩)
    have hsize : scr.imgSize.toNat ≤ frameBufferSize := scr.imgSize_toNat ▸ hfit.1
    refine ⟨?_, fun s _ hw d hd => slidingWritePixels_rowInBounds hfit hdst hw hd,
      fun s _ hw d hd => staticWritePixels_rowInBounds hfit hdst hw hd, ?_⟩
    · intro k hk
      simp only [clearScreen] at hk ⊢
      rw [Nat.succ_mul]
      omega
    · intro dma
      have hin : ¬¬((idx : ℤ) ≥ 0 ∧ (idx : ℤ) < numFrameBuffer) := by omega
      rw [frameBufferTxmit, if_neg hin, if_neg (not_not.mpr hsize),
        if_neg (not_not.mpr (imgSize_and_seven scr))]
      split_ifs <;> simp

/-- A size so large that the sum of the allocator wraps around: no frame is ever rendered. -/
example : ¬ BlankScreenFits ⟨dynAreaSize, BitVec.ofNat 32 (layerMap 30)⟩
    ⟨65532, 65532, by decide, by decide, by decide, by decide, by decide, by decide⟩ := by
  rintro ⟨blank, ctx', halloc, hroom⟩
  obtain ⟨rfl, rfl⟩ := Prod.mk.inj (Option.some.inj halloc)
  exact absurd hroom (by decide)

/-- A size that `SubMain` accepts and no buffer holds: 2560 by 1440. -/
def qhd : Screen :=
  ⟨2560, 1440, by decide, by decide, by decide, by decide, by decide, by decide⟩

/-- For 2560 by 1440 the blank screen is allocated, and the frames leave their buffers. -/
theorem not_frameWritesInBounds_qhd :
    ¬ FrameWritesInBounds ⟨dynAreaSize, BitVec.ofNat 32 (layerMap 30)⟩ qhd := by
  intro h
  have hclear := (h (layerMap 30) _ rfl (by decide) 0 0 (by decide)).1 frameBufferSize (by decide)
  exact absurd hclear.2 (by decide)

end Danmaku
