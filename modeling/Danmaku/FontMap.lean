import Danmaku.Text
import Danmaku.Lib.Loop

/-!
Drawing a text into a layer map (`danmaku.c`: `FillBlank`, `WriteFontMap`).

The rows of a map lie behind one another, `2 * MAX_WIDTH` bytes each, so a pass over more
columns than that runs on into the next row; `cell` is the flat index. The bitmap that Pango
renders and the draw of `rand` are inputs.

* `writeFontMap`: the three passes of `WriteFontMap` over the map and `map1`.
* `writeFontMap_area_of_outside`: the passes leave alone everything but the cells they
  range over; `cell_lt` bounds those by the map for the texts and characters that fit.
* `writeFontMap_overrun_iff`: for which texts the first pass leaves `map1`.
* `writeFontMap_mapByte`: what they write are colours and `PXL_BLANK`.
* `writeFontMap_apply`: **what they leave in a cell of the text**.
-/

namespace Danmaku

open CountedLoop

/-- The bitmap that the second `view->render` call of `WriteFontMap` fills. -/
structure Bitmap where
  width : ℕ
  height : ℕ
  buffer : ℕ → Byte

/-- The row length of the surface, `(width + 3) & ~3`. -/
def Bitmap.pitch (b : Bitmap) : ℕ := (b.width + 3) / 4 * 4

/-- The memory that `WriteFontMap` draws in: the DMA area with the layer maps, and the scratch map
`map1`, which has the size of a layer map. Behind its end the source has no behaviour: `overrun`
says that a pass has written there. -/
structure Canvas where
  area : ℕ → Byte
  map1 : ℕ → Byte
  overrun : Bool

/-- The flat index of `map[i][j]`. -/
def cell (i j : ℕ) : ℕ := i * (maxWidth * 2) + j

/-- `map1[i][j] = v`, at the flat index `k`. -/
def Canvas.setMap1 (k : ℕ) (v : Byte) (c : Canvas) : Canvas :=
  { c with map1 := store c.map1 k v, overrun := c.overrun || decide (mapBytes ≤ k) }

/-- `FillBlank(map, head, len)` for the map at `map`. -/
def fillBlank (map head len : ℕ) (area : ℕ → Byte) : ℕ → Byte :=
  forUpTo maxHeight (fun i =>
    forUpTo len fun j area => store area (map + cell i (head + j)) pxlBlank) area

/-- The first pass of `WriteFontMap`: blank `edge * len` columns of both maps. -/
def clearPass (edge map len : ℕ) : Canvas → Canvas :=
  forUpTo edge fun i => forUpTo (edge * len) fun j c =>
    Canvas.setMap1 (cell i j) pxlBlank { c with area := store c.area (map + cell i j) pxlBlank }

/-- The second pass: the glyphs, black where the inverted grey value is below 128. -/
def glyphPass (edge outWidth : ℕ) (color : Byte) (b : Bitmap) : Canvas → Canvas :=
  forUpTo edge fun i => forUpTo outWidth fun j c =>
    let v := if i ≥ b.height ∨ (b.buffer (i * b.pitch + j)).toNat ≥ 128 then pxlBlank else color
    c.setMap1 (cell i j) v

/-- The third pass at one pixel: the glyph, or the outline next to it. -/
def outlinePixel (edge map len : ℕ) (color reverse : Byte) (i j : ℕ) (c : Canvas) : Canvas :=
  if c.map1 (cell i j) = color then
    { c with area := store c.area (map + cell i j) (c.map1 (cell i j)) }
  else if (i + 1 < edge ∧ c.map1 (cell (i + 1) j) = color)
      ∨ (j + 1 < len * edge ∧ c.map1 (cell i (j + 1)) = color)
      ∨ (i - 1 > 0 ∧ c.map1 (cell (i - 1) j) = color)
      ∨ (j - 1 > 0 ∧ c.map1 (cell i (j - 1)) = color) then
    { c with area := store c.area (map + cell i j) reverse }
  else c

/-- The third pass. -/
def outlinePass (edge map len outWidth : ℕ) (color reverse : Byte) : Canvas → Canvas :=
  forUpTo edge fun i => forUpTo outWidth fun j => outlinePixel edge map len color reverse i j

/-- `WriteFontMap(map, text, len, &out_width)`: the memory after the three passes, and
`out_width`. -/
def writeFontMap (edge map len rand : ℕ) (b : Bitmap) (c : Canvas) : Canvas × ℕ :=
  let color : Byte := BitVec.ofNat 8 (rand % 8)
  let reverse : Byte := color ^^^ 7#8
  let outWidth := min b.width maxWidth
  (outlinePass edge map len outWidth color reverse
    (glyphPass edge outWidth color b (clearPass edge map len c)), outWidth)

/-! ### What the passes leave alone -/

section Frame

variable {edge map len outWidth a : ℕ} {color reverse : Byte} {b : Bitmap} {c : Canvas}

lemma fillBlank_area {head : ℕ} {area : ℕ → Byte}
    (h : ∀ i < maxHeight, ∀ j < len, a ≠ map + cell i (head + j)) :
    fillBlank map head len area a = area a :=
  forUpTo_keep_grid (fun m : ℕ → Byte => m a = area a) rfl fun i hi j hj _ hm =>
    (store_of_ne _ _ (h i hi j hj)).trans hm

lemma clearPass_area (h : ∀ i < edge, ∀ j < edge * len, a ≠ map + cell i j) :
    (clearPass edge map len c).area a = c.area a :=
  forUpTo_keep_grid (fun t : Canvas => t.area a = c.area a) rfl fun i hi j hj _ ht =>
    (store_of_ne _ _ (h i hi j hj)).trans ht

lemma glyphPass_area : (glyphPass edge outWidth color b c).area = c.area :=
  forUpTo_keep_grid (fun t : Canvas => t.area = c.area) rfl fun _ _ _ _ _ ht => ht

lemma outlinePixel_area {i j : ℕ} (h : a ≠ map + cell i j) :
    (outlinePixel edge map len color reverse i j c).area a = c.area a := by
  rw [outlinePixel]
  split_ifs
  · exact store_of_ne _ _ h
  · exact store_of_ne _ _ h
  · rfl

lemma outlinePass_area (h : ∀ i < edge, ∀ j < outWidth, a ≠ map + cell i j) :
    (outlinePass edge map len outWidth color reverse c).area a = c.area a :=
  forUpTo_keep_grid (fun t : Canvas => t.area a = c.area a) rfl fun i hi j hj _ ht =>
    (outlinePixel_area (h i hi j hj)).trans ht

/-- `WriteFontMap` leaves alone every address of the DMA area outside the cells its passes
range over. -/
lemma writeFontMap_area_of_outside {rand : ℕ}
    (h : ∀ i < edge, ∀ j, j < edge * len ∨ j < maxWidth → a ≠ map + cell i j) :
    (writeFontMap edge map len rand b c).1.area a = c.area a := by
  simp only [writeFontMap]
  rw [outlinePass_area fun i hi j hj => h i hi j (Or.inr (lt_of_lt_of_le hj (min_le_right _ _))),
    glyphPass_area, clearPass_area fun i hi j hj => h i hi j (Or.inl hj)]

lemma writeFontMap_outWidth_le {rand : ℕ} :
    (writeFontMap edge map len rand b c).2 ≤ maxWidth := min_le_right _ _

/-- The cells that the passes range over lie in the layer's own map for every character
size up to 227 and every text that fits its buffer. -/
lemma cell_lt {i j : ℕ} (hedge : edge ≤ 227) (hi : i < edge) (hlen : len < maxTextLen)
    (hj : j < edge * len ∨ j < maxWidth) : cell i j < mapBytes := by
  have h1 : edge * len ≤ 227 * 511 :=
    Nat.mul_le_mul hedge (by simp only [maxTextLen] at hlen; omega)
  simp only [cell, mapBytes_eq, maxWidth] at *
  omega

end Frame

/-! ### The end of the scratch map -/

/-- The columns that the first pass blanks for `len` code points end inside `map1` in the last row
of a character cell. -/
def ScratchHolds (edge len : ℕ) : Prop :=
  (edge - 1) * (maxWidth * 2) + edge * len ≤ mapBytes

instance (edge len : ℕ) : Decidable (ScratchHolds edge len) := Nat.decLe _ _

section Scratch

variable {edge map len outWidth rand : ℕ} {color reverse v : Byte} {b : Bitmap} {c : Canvas}

/-- A write inside `map1`. -/
lemma Canvas.setMap1_overrun {k : ℕ} (hk : k < mapBytes) : (c.setMap1 k v).overrun = c.overrun := by
  simp [setMap1, Nat.not_le.mpr hk]

/-- Up to this size no text that fits its buffer is too long. -/
lemma scratchHolds_of_edge_le (hedge : edge ≤ 227) (hlen : len < maxTextLen) :
    ScratchHolds edge len := by
  have hcols : edge * len ≤ 227 * 511 :=
    Nat.mul_le_mul hedge (by simp only [maxTextLen] at hlen; omega)
  simp only [ScratchHolds, mapBytes_eq, maxWidth]
  omega

/-- The first pass stays inside `map1` where its last row does. -/
lemma clearPass_overrun (hedge : edge ≤ maxHeight) :
    (clearPass edge map len c).overrun = false ↔ c.overrun = false ∧ ScratchHolds edge len := by
  constructor
  · intro h
    refine ⟨?_, ?_⟩
    · by_contra hc
      refine Bool.eq_false_iff.mp h (forUpTo_keep_grid (fun t : Canvas => t.overrun = true)
        (by simpa using hc) fun i _ j _ t ht => ?_)
      simp [Canvas.setMap1, ht]
    · by_contra hlarge
      simp only [ScratchHolds, mapBytes_eq, maxWidth, maxHeight] at hlarge hedge
      have hpos : 0 < edge := Nat.pos_of_ne_zero fun hzero => by simp [hzero] at hlarge
      -- the last cell of the last row
      have hlast : mapBytes ≤ cell (edge - 1) (edge * len - 1) := by
        simp only [cell, mapBytes_eq, maxWidth]
        omega
      refine Bool.eq_false_iff.mp h (forUpTo_reach (Q := fun t : Canvas => t.overrun = true)
        (show edge - 1 < edge by omega) (fun t => forUpTo_reach
          (Q := fun t : Canvas => t.overrun = true) (show edge * len - 1 < edge * len by omega)
          (fun t => ?_) fun j _ t ht => ?_) fun i _ t ht =>
            forUpTo_keep (fun t : Canvas => t.overrun = true) ht fun j _ t ht => ?_)
      · simp [Canvas.setMap1, hlast]
      · simp [Canvas.setMap1, ht]
      · simp [Canvas.setMap1, ht]
  · rintro ⟨hc, hfits⟩
    refine forUpTo_keep_grid (fun t : Canvas => t.overrun = false) hc fun i hi j hj t ht => ?_
    refine (Canvas.setMap1_overrun ?_).trans ht
    simp only [ScratchHolds, cell, mapBytes_eq, maxWidth] at *
    omega

/-- The glyphs lie inside `map1`. -/
lemma glyphPass_overrun (hedge : edge ≤ maxHeight) (hwidth : outWidth ≤ maxWidth) :
    (glyphPass edge outWidth color b c).overrun = c.overrun := by
  refine forUpTo_keep_grid (fun t : Canvas => t.overrun = c.overrun) rfl fun i hi j hj t ht =>
    (Canvas.setMap1_overrun ?_).trans ht
  simp only [cell, mapBytes_eq, maxWidth, maxHeight] at *
  omega

lemma outlinePass_overrun :
    (outlinePass edge map len outWidth color reverse c).overrun = c.overrun := by
  refine forUpTo_keep_grid (fun t : Canvas => t.overrun = c.overrun) rfl fun i _ j _ t ht => ?_
  rw [outlinePixel]
  split_ifs <;> exact ht

/-- **For which texts `WriteFontMap` stays inside `map1`.** -/
theorem writeFontMap_overrun_iff (hedge : edge ≤ maxHeight) :
    (writeFontMap edge map len rand b c).1.overrun = false
      ↔ c.overrun = false ∧ ScratchHolds edge len := by
  simp only [writeFontMap]
  rw [outlinePass_overrun, glyphPass_overrun hedge (min_le_right _ _), clearPass_overrun hedge]

end Scratch

/-! ### What the passes write -/

/-- A byte of a layer map: one of the colours 0 to 7, or `PXL_BLANK`. -/
def MapByte (b : Byte) : Prop := b.toNat < 8 ∨ b = pxlBlank

section Colours

variable {edge map len outWidth a k : ℕ} {color reverse v : Byte} {b : Bitmap} {c : Canvas}
  {m : ℕ → Byte}

lemma MapByte.store (h : MapByte (m a)) (hv : MapByte v) : MapByte (store m k v a) := by
  by_cases ha : a = k
  · rw [ha, store_same]
    exact hv
  · rw [store_of_ne _ _ ha]
    exact h

lemma MapByte.fillBlank {head : ℕ} (h : MapByte (m a)) : MapByte (fillBlank map head len m a) :=
  forUpTo_keep_grid (fun m : ℕ → Byte => MapByte (m a)) h fun _ _ _ _ _ hm => hm.store (Or.inr rfl)

lemma clearPass_mapByte (h : MapByte (c.area a)) : MapByte ((clearPass edge map len c).area a) :=
  forUpTo_keep_grid (fun t : Canvas => MapByte (t.area a)) h fun _ _ _ _ _ ht =>
    ht.store (Or.inr rfl)

lemma outlinePixel_mapByte {i j : ℕ} (hcolor : MapByte color) (hreverse : MapByte reverse)
    (h : MapByte (c.area a)) :
    MapByte ((outlinePixel edge map len color reverse i j c).area a) := by
  rw [outlinePixel]
  split_ifs with hglyph
  · exact h.store (by rw [hglyph]; exact hcolor)
  · exact h.store hreverse
  · exact h

lemma outlinePass_mapByte (hcolor : MapByte color) (hreverse : MapByte reverse)
    (h : MapByte (c.area a)) :
    MapByte ((outlinePass edge map len outWidth color reverse c).area a) :=
  forUpTo_keep_grid (fun t : Canvas => MapByte (t.area a)) h fun _ _ _ _ _ ht =>
    outlinePixel_mapByte hcolor hreverse ht

/-- The colour that a text is drawn in, and that of its outline. -/
lemma color_lt (rand : ℕ) : (BitVec.ofNat 8 (rand % 8) : Byte).toNat < 8
    ∧ ((BitVec.ofNat 8 (rand % 8) : Byte) ^^^ 7#8).toNat < 8 := by
  have hlt : rand % 8 < 8 := Nat.mod_lt _ (by decide)
  have hcolor : (BitVec.ofNat 8 (rand % 8)).toNat = rand % 8 := by
    rw [BitVec.toNat_ofNat]
    omega
  refine ⟨by rwa [hcolor], ?_⟩
  rw [BitVec.toNat_xor, hcolor]
  exact Nat.xor_lt_two_pow (n := 3) hlt (by decide)

lemma ne_pxlBlank (hv : v.toNat < 8) : v ≠ pxlBlank := by
  rintro rfl
  exact absurd hv (by decide)

lemma mapByte_color (rand : ℕ) :
    MapByte (BitVec.ofNat 8 (rand % 8)) ∧ MapByte (BitVec.ofNat 8 (rand % 8) ^^^ 7#8) :=
  ⟨Or.inl (color_lt rand).1, Or.inl (color_lt rand).2⟩

/-- `WriteFontMap` writes colours and `PXL_BLANK` only. -/
lemma writeFontMap_mapByte {rand : ℕ} (h : MapByte (c.area a)) :
    MapByte ((writeFontMap edge map len rand b c).1.area a) := by
  obtain ⟨hcolor, hreverse⟩ := mapByte_color rand
  refine outlinePass_mapByte hcolor hreverse ?_
  rw [glyphPass_area]
  exact clearPass_mapByte h

end Colours

/-! ### The cells of a text -/

/-- The bitmap has a glyph pixel at row `i` and column `j`. -/
def Bitmap.Glyph (b : Bitmap) (i j : ℕ) : Prop :=
  i < b.height ∧ (b.buffer (i * b.pitch + j)).toNat < 128

/-- A cell right of the columns that the first pass blanks is drawn by the third pass: a glyph
pixel, or one with a glyph pixel below, above or left of it. -/
def Bitmap.Inked (b : Bitmap) (edge i j : ℕ) : Prop :=
  b.Glyph i j ∨ (i + 1 < edge ∧ b.Glyph (i + 1) j) ∨ (i - 1 > 0 ∧ b.Glyph (i - 1) j)
    ∨ (j - 1 > 0 ∧ b.Glyph i (j - 1))

/-- The neighbours at which the third pass finds a glyph pixel: one in the first row or column does
not count where it is above or left of the cell, nor one right of the blanked columns. -/
def Bitmap.Outline (b : Bitmap) (edge len i j : ℕ) : Prop :=
  (i + 1 < edge ∧ b.Glyph (i + 1) j)
    ∨ (j + 1 < len * edge ∧ j + 1 < min b.width maxWidth ∧ b.Glyph i (j + 1))
    ∨ (i - 1 > 0 ∧ b.Glyph (i - 1) j) ∨ (j - 1 > 0 ∧ b.Glyph i (j - 1))

instance (b : Bitmap) (i j : ℕ) : Decidable (b.Glyph i j) := inferInstanceAs (Decidable (_ ∧ _))

instance (b : Bitmap) (edge len i j : ℕ) : Decidable (b.Outline edge len i j) :=
  inferInstanceAs (Decidable (_ ∨ _))

/-- Right of the blanked columns the test of the right neighbour is cut off. -/
lemma inked_iff {b : Bitmap} {edge len i j : ℕ} (hlen : edge * len ≤ j) :
    b.Inked edge i j ↔ b.Glyph i j ∨ b.Outline edge len i j := by
  have hcut : ¬ j + 1 < len * edge := by
    rw [Nat.mul_comm]
    omega
  rw [Bitmap.Inked, Bitmap.Outline]
  simp only [hcut, false_and, false_or]

section Cells

variable {edge map len rand outWidth i j : ℕ} {color reverse : Byte} {b : Bitmap} {c : Canvas}

/-- The columns of a text, and the one right of it, lie in a row of the map. -/
lemma succ_col_lt (hwidth : outWidth ≤ maxWidth) (hj : j < outWidth) : j + 1 < maxWidth * 2 := by
  simp only [maxWidth] at *
  omega

lemma col_lt (hwidth : outWidth ≤ maxWidth) (hj : j < outWidth) : j < maxWidth * 2 :=
  Nat.lt_of_succ_lt (succ_col_lt hwidth hj)

lemma cell_inj {i' j' : ℕ} (hj : j < maxWidth * 2) (hj' : j' < maxWidth * 2)
    (h : cell i j = cell i' j') : i = i' ∧ j = j' := by
  simp only [cell, maxWidth] at *
  omega

/-- The cells that a layer shows lie in its map. -/
lemma cell_lt_mapBytes (hedge : edge ≤ maxHeight) (hi : i < edge) (hj : j < maxWidth) :
    cell i j < mapBytes := by
  simp only [cell, mapBytes_eq, maxHeight, maxWidth] at *
  omega

/-- The first pass blanks the columns that it ranges over, in both maps. -/
lemma clearPass_blank (hi : i < edge) (hj : j < edge * len) :
    (clearPass edge map len c).area (map + cell i j) = pxlBlank
      ∧ (clearPass edge map len c).map1 (cell i j) = pxlBlank := by
  have hkeep : ∀ (m : ℕ → Byte) (a k : ℕ), m a = pxlBlank → store m k pxlBlank a = pxlBlank := by
    intro m a k hm
    by_cases ha : a = k
    · rw [ha, store_same]
    · rw [store_of_ne _ _ ha, hm]
  let Q : Canvas → Prop := fun t =>
    t.area (map + cell i j) = pxlBlank ∧ t.map1 (cell i j) = pxlBlank
  refine forUpTo_reach (Q := Q) hi (fun t => forUpTo_reach (Q := Q) hj (fun t => ?_) ?_) ?_
  · exact ⟨store_same _ _ _, store_same _ _ _⟩
  · exact fun _ _ _ ht => ⟨hkeep _ _ _ ht.1, hkeep _ _ _ ht.2⟩
  · exact fun _ _ _ ht => forUpTo_keep Q ht fun _ _ _ hu => ⟨hkeep _ _ _ hu.1, hkeep _ _ _ hu.2⟩

/-- A cell of the text after the first pass. -/
lemma clearPass_cell (map len : ℕ) (c : Canvas) (hi : i < edge) (hj : j < maxWidth * 2) :
    (clearPass edge map len c).area (map + cell i j)
      = if j < edge * len then pxlBlank else c.area (map + cell i j) := by
  split_ifs with hlen
  · exact (clearPass_blank hi hlen).1
  · refine clearPass_area fun i' _ j' hj' heq => ?_
    obtain ⟨-, rfl⟩ := cell_inj hj ((hj'.trans_le (Nat.not_lt.mp hlen)).trans hj)
      (Nat.add_left_cancel heq)
    exact hlen hj'

/-- The second pass: `map1` holds the colour at the glyph pixels and `PXL_BLANK` elsewhere. -/
lemma glyphPass_cell (hwidth : outWidth ≤ maxWidth) (hcolor : color ≠ pxlBlank) (hi : i < edge)
    (hj : j < outWidth) :
    (glyphPass edge outWidth color b c).map1 (cell i j) = color ↔ b.Glyph i j := by
  have hvalue : (glyphPass edge outWidth color b c).map1 (cell i j)
      = if i ≥ b.height ∨ (b.buffer (i * b.pitch + j)).toNat ≥ 128 then pxlBlank else color := by
    refine forUpTo_grid (I := fun _ => True) (g := fun c : Canvas => c.map1 (cell i j)) hi hj
      trivial (fun _ _ _ _ _ _ => trivial) (fun t _ _ => store_same _ _ _) ?_
    intro i' _ j' hj' hne t _
    refine store_of_ne _ _ fun heq => ?_
    obtain ⟨rfl, rfl⟩ := cell_inj (col_lt hwidth hj) (col_lt hwidth hj') heq
    exact hne.elim (fun h => h rfl) fun h => h rfl
  rw [hvalue, Bitmap.Glyph]
  split_ifs with h
  · exact ⟨fun heq => absurd heq.symm hcolor, fun hg => by omega⟩
  · exact ⟨fun _ => by omega, fun _ => rfl⟩

/-- The second pass leaves alone the columns right of the text. -/
lemma glyphPass_map1_of_le (hwidth : outWidth ≤ maxWidth) (hj : outWidth ≤ j)
    (hj' : j < maxWidth * 2) :
    (glyphPass edge outWidth color b c).map1 (cell i j) = c.map1 (cell i j) := by
  refine forUpTo_keep_grid (fun t : Canvas => t.map1 (cell i j) = c.map1 (cell i j)) rfl
    fun i' _ k hk t ht => (store_of_ne _ _ fun heq => ?_).trans ht
  obtain ⟨-, rfl⟩ := cell_inj hj' (col_lt hwidth hk) heq
  omega

/-- The neighbours at which the third pass finds the colour. Right of the text it looks at columns
that the first pass has blanked. -/
lemma outline_iff_map1 (map len : ℕ) (c : Canvas) (hcolor : color ≠ pxlBlank) (hi : i < edge)
    (hj : j < min b.width maxWidth) :
    let drawn := glyphPass edge (min b.width maxWidth) color b (clearPass edge map len c)
    ((i + 1 < edge ∧ drawn.map1 (cell (i + 1) j) = color)
      ∨ (j + 1 < len * edge ∧ drawn.map1 (cell i (j + 1)) = color)
      ∨ (i - 1 > 0 ∧ drawn.map1 (cell (i - 1) j) = color)
      ∨ (j - 1 > 0 ∧ drawn.map1 (cell i (j - 1)) = color)) ↔ b.Outline edge len i j := by
  intro drawn
  have hwidth : min b.width maxWidth ≤ maxWidth := min_le_right _ _
  have hglyph : ∀ i' j', i' < edge → j' < min b.width maxWidth →
      (drawn.map1 (cell i' j') = color ↔ b.Glyph i' j') :=
    fun i' j' hi' hj' => glyphPass_cell hwidth hcolor hi' hj'
  have hright : (j + 1 < len * edge ∧ drawn.map1 (cell i (j + 1)) = color)
      ↔ (j + 1 < len * edge ∧ j + 1 < min b.width maxWidth ∧ b.Glyph i (j + 1)) := by
    refine and_congr_right fun hlen => ?_
    by_cases hin : j + 1 < min b.width maxWidth
    · rw [hglyph i (j + 1) hi hin]
      exact (and_iff_right hin).symm
    · have hblank : drawn.map1 (cell i (j + 1)) = pxlBlank := by
        rw [glyphPass_map1_of_le hwidth (Nat.not_lt.mp hin) (succ_col_lt hwidth hj)]
        exact (clearPass_blank hi (by rwa [Nat.mul_comm])).2
      rw [hblank]
      exact iff_of_false hcolor.symm fun h => hin h.1
  rw [hright, hglyph (i - 1) j (by omega) hj, hglyph i (j - 1) hi (by omega),
    and_congr_right fun h => hglyph (i + 1) j h hj, Bitmap.Outline]

lemma outlinePixel_map1 {i j : ℕ} :
    (outlinePixel edge map len color reverse i j c).map1 = c.map1 := by
  rw [outlinePixel]
  split_ifs <;> rfl

/-- The third pass does at each cell what it does at that pixel. -/
lemma outlinePass_cell (hwidth : outWidth ≤ maxWidth) (hi : i < edge) (hj : j < outWidth) :
    (outlinePass edge map len outWidth color reverse c).area (map + cell i j)
      = (outlinePixel edge map len color reverse i j c).area (map + cell i j) := by
  refine forUpTo_grid (I := fun t : Canvas => t.map1 = c.map1)
    (g := fun c : Canvas => c.area (map + cell i j)) hi hj rfl
    (fun _ _ _ _ t ht => outlinePixel_map1.trans ht) ?_ ?_
  · intro t ht hget
    simp only [outlinePixel, ht]
    split_ifs
    · exact (store_same _ _ _).trans (store_same _ _ _).symm
    · exact (store_same _ _ _).trans (store_same _ _ _).symm
    · exact hget
  · intro i' _ j' hj' hne t _
    refine outlinePixel_area fun heq => ?_
    obtain ⟨rfl, rfl⟩ :=
      cell_inj (col_lt hwidth hj) (col_lt hwidth hj') (Nat.add_left_cancel heq)
    exact hne.elim (fun h => h rfl) fun h => h rfl

/-- **What `WriteFontMap` leaves in a cell of the text**: the colour at the glyph pixels, its
complement next to them, and elsewhere `PXL_BLANK` in the columns that were blanked first and the
old content right of these. -/
theorem writeFontMap_apply (hi : i < edge) (hj : j < min b.width maxWidth) :
    (writeFontMap edge map len rand b c).1.area (map + cell i j)
      = if b.Glyph i j then BitVec.ofNat 8 (rand % 8)
        else if b.Outline edge len i j then BitVec.ofNat 8 (rand % 8) ^^^ 7#8
        else if j < edge * len then pxlBlank else c.area (map + cell i j) := by
  have hne : BitVec.ofNat 8 (rand % 8) ≠ pxlBlank := ne_pxlBlank (color_lt rand).1
  have hwidth : min b.width maxWidth ≤ maxWidth := min_le_right _ _
  have hat := glyphPass_cell (b := b) (c := clearPass edge map len c) hwidth hne hi hj
  have hnear := outline_iff_map1 map len c hne hi hj
  have hbelow := clearPass_cell map len c hi (col_lt hwidth hj)
  simp only [writeFontMap]
  rw [outlinePass_cell hwidth hi hj, outlinePixel]
  simp only [hat, hnear]
  split_ifs with hglyph hout hlen
  · exact (store_same _ _ _).trans (hat.mpr hglyph)
  · exact store_same _ _ _
  · rw [glyphPass_area, hbelow, if_pos hlen]
  · rw [glyphPass_area, hbelow, if_neg hlen]

/-- In the columns that `WriteFontMap` blanks first, it leaves colours and `PXL_BLANK`. -/
lemma writeFontMap_cell (hi : i < edge) (hj : j < edge * len) :
    MapByte ((writeFontMap edge map len rand b c).1.area (map + cell i j)) := by
  obtain ⟨hcolor, hreverse⟩ := mapByte_color rand
  refine outlinePass_mapByte hcolor hreverse ?_
  rw [glyphPass_area]
  exact Or.inr (clearPass_blank hi hj).1

/-- **The cells right of the blanked columns**: what `WriteFontMap` does not draw there keeps its
old content. -/
theorem writeFontMap_cell_iff (hi : i < edge) (hlen : edge * len ≤ j)
    (hj : j < min b.width maxWidth) :
    MapByte ((writeFontMap edge map len rand b c).1.area (map + cell i j))
      ↔ MapByte (c.area (map + cell i j)) ∨ b.Inked edge i j := by
  obtain ⟨hcolor, hreverse⟩ := mapByte_color rand
  rw [writeFontMap_apply hi hj, inked_iff hlen, if_neg (Nat.not_lt.mpr hlen)]
  split_ifs with hat hout
  · exact iff_of_true hcolor (Or.inr (Or.inl hat))
  · exact iff_of_true hreverse (Or.inr (Or.inr hout))
  · exact ⟨Or.inl, fun h => h.resolve_right fun h => h.elim hat hout⟩

end Cells

end Danmaku
