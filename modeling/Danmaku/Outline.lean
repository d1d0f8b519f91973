import Danmaku.FontMap

/-!
The picture of a text: its glyphs with an outline of the complementary colour, on blank ground.

`WriteFontMap` looks for glyph pixels above and left of a pixel with `i - 1 > 0` and `j - 1 > 0`,
and so never sees those in the first row and the first column. And it blanks `edge * len` columns of
the map, but draws `out_width` of them.

* `Outlined`: the outline is drawn on all four sides; `outlined_iff`: **exactly the bitmaps whose
  first row and column need no test of their own**.
* `ShowsNoRemains`: the picture does not depend on what the maps held before;
  `showsNoRemains_iff`: **exactly when the text is drawn on all that is not blanked**, and the
  blanking ends inside `map1`.
-/

namespace Danmaku

open CountedLoop

variable {edge map len rand i j : ℕ} {b : Bitmap} {c : Canvas} {t : Text}

/-! ### The outline -/

/-- One of the four neighbours inside the text is a glyph pixel. -/
def Bitmap.NextToGlyph (b : Bitmap) (edge outWidth i j : ℕ) : Prop :=
  (i + 1 < edge ∧ b.Glyph (i + 1) j) ∨ (j + 1 < outWidth ∧ b.Glyph i (j + 1))
    ∨ (0 < i ∧ b.Glyph (i - 1) j) ∨ (0 < j ∧ b.Glyph i (j - 1))

instance (b : Bitmap) (edge outWidth i j : ℕ) : Decidable (b.NextToGlyph edge outWidth i j) :=
  inferInstanceAs (Decidable (_ ∨ _))

/-- The picture of a text with an outline on all four sides. -/
def outlinedByte (edge rand : ℕ) (b : Bitmap) (i j : ℕ) : Byte :=
  let color : Byte := BitVec.ofNat 8 (rand % 8)
  if b.Glyph i j then color
  else if b.NextToGlyph edge (min b.width maxWidth) i j then color ^^^ 7#8
  else pxlBlank

/-- `WriteFontMap` leaves this picture in the map. -/
def Outlined (edge map len rand : ℕ) (b : Bitmap) (c : Canvas) : Prop :=
  ∀ i < edge, ∀ j < (writeFontMap edge map len rand b c).2,
    (writeFontMap edge map len rand b c).1.area (map + cell i j) = outlinedByte edge rand b i j

/-- The same without the neighbours above in the first row and left in the first column. -/
def Bitmap.NextToInner (b : Bitmap) (edge outWidth i j : ℕ) : Prop :=
  (i + 1 < edge ∧ b.Glyph (i + 1) j) ∨ (j + 1 < outWidth ∧ b.Glyph i (j + 1))
    ∨ (1 < i ∧ b.Glyph (i - 1) j) ∨ (1 < j ∧ b.Glyph i (j - 1))

instance (b : Bitmap) (edge outWidth i j : ℕ) : Decidable (b.NextToInner edge outWidth i j) :=
  inferInstanceAs (Decidable (_ ∨ _))

/-- The pixel below a glyph pixel of the first row, and the one right of a glyph pixel of the first
column, belongs to a glyph too, or has another neighbour that makes it a pixel of the outline. -/
def Bitmap.BordersCovered (b : Bitmap) (edge outWidth : ℕ) : Prop :=
  (∀ j < outWidth, 1 < edge → b.Glyph 0 j → b.Glyph 1 j ∨ b.NextToInner edge outWidth 1 j)
    ∧ ∀ i < edge, 1 < outWidth → b.Glyph i 0 → b.Glyph i 1 ∨ b.NextToInner edge outWidth i 1

instance (b : Bitmap) (edge outWidth : ℕ) : Decidable (b.BordersCovered edge outWidth) :=
  inferInstanceAs (Decidable (_ ∧ _))

lemma nextToGlyph_of_inner {outWidth : ℕ} (h : b.NextToInner edge outWidth i j) :
    b.NextToGlyph edge outWidth i j :=
  Or.imp_right (Or.imp_right (Or.imp (And.imp_left Nat.zero_lt_of_lt)
    (And.imp_left Nat.zero_lt_of_lt))) h

/-- Where the blanked columns hold the text, only the first row and column are not tested. -/
lemma outline_iff (hlen : min b.width maxWidth ≤ edge * len) :
    b.Outline edge len i j ↔ b.NextToInner edge (min b.width maxWidth) i j := by
  have hright : (j + 1 < len * edge ∧ j + 1 < min b.width maxWidth ∧ b.Glyph i (j + 1))
      ↔ (j + 1 < min b.width maxWidth ∧ b.Glyph i (j + 1)) := by
    rw [Nat.mul_comm] at hlen
    exact and_iff_right_of_imp fun h => h.1.trans_le hlen
  have hi : i - 1 > 0 ↔ 1 < i := by omega
  have hj : j - 1 > 0 ↔ 1 < j := by omega
  rw [Bitmap.Outline, hright, hi, hj, Bitmap.NextToInner]

/-- The bitmaps for which the tests of the third pass find every glyph pixel. -/
lemma bordersCovered_iff {outWidth : ℕ} :
    b.BordersCovered edge outWidth ↔ ∀ i < edge, ∀ j < outWidth, ¬ b.Glyph i j →
      b.NextToGlyph edge outWidth i j → b.NextToInner edge outWidth i j := by
  constructor
  · rintro ⟨hrow, hcol⟩ i hi j hj hoff (hdown | hright | ⟨h0, hup⟩ | ⟨h0, hleft⟩)
    · exact Or.inl hdown
    · exact Or.inr (Or.inl hright)
    · rcases Nat.lt_or_eq_of_le (Nat.succ_le_of_lt h0) with h1 | rfl
      · exact Or.inr (Or.inr (Or.inl ⟨h1, hup⟩))
      · exact (hrow j hj hi hup).resolve_left hoff
    · rcases Nat.lt_or_eq_of_le (Nat.succ_le_of_lt h0) with h1 | rfl
      · exact Or.inr (Or.inr (Or.inr ⟨h1, hleft⟩))
      · exact (hcol i hi hj hleft).resolve_left hoff
  · intro h
    refine ⟨fun j hj hedge hglyph => or_iff_not_imp_left.mpr fun hoff => ?_,
      fun i hi hwidth hglyph => or_iff_not_imp_left.mpr fun hoff => ?_⟩
    · exact h 1 hedge j hj hoff (Or.inr (Or.inr (Or.inl ⟨Nat.one_pos, hglyph⟩)))
    · exact h i hi 1 hwidth hoff (Or.inr (Or.inr (Or.inr ⟨Nat.one_pos, hglyph⟩)))

/-- **When the outline is complete**: where the blanked columns hold the text, `WriteFontMap` draws
it on all four sides exactly for the bitmaps whose borders are covered. -/
theorem outlined_iff (hlen : min b.width maxWidth ≤ edge * len) :
    Outlined edge map len rand b c ↔ b.BordersCovered edge (min b.width maxWidth) := by
  have hne : BitVec.ofNat 8 (rand % 8) ^^^ 7#8 ≠ pxlBlank := ne_pxlBlank (color_lt rand).2
  rw [bordersCovered_iff]
  refine forall₂_congr fun i hi => forall₂_congr fun j hj => ?_
  rw [writeFontMap_apply hi hj, if_pos (hj.trans_le hlen), outlinedByte]
  simp only [outline_iff hlen]
  by_cases hat : b.Glyph i j
  · rw [if_pos hat, if_pos hat]
    exact iff_of_true rfl fun hoff => absurd hat hoff
  · rw [if_neg hat, if_neg hat]
    split_ifs with hinner hnext hnext
    · exact iff_of_true rfl fun _ _ => hinner
    · exact absurd (nextToGlyph_of_inner hinner) hnext
    · exact iff_of_false hne.symm fun h => hinner (h hat hnext)
    · exact iff_of_true rfl fun _ h => absurd h hnext

/-- A bitmap of five by five that is black in one pixel. -/
def dot (row col : ℕ) : Bitmap := ⟨5, 5, fun k => if k = row * 8 + col then 0#8 else 255#8⟩

/-- A bitmap of five by five with a stroke of three pixels down from the first row. -/
def stroke : Bitmap := ⟨5, 5, fun k => if k % 8 = 2 ∧ k / 8 < 3 then 0#8 else 255#8⟩

/-- The glyph pixel in the first row is covered by the one below it: the outline is complete. -/
theorem outlined_iff_stroke :
    stroke.Glyph 0 2 ∧ stroke.BordersCovered 5 (min stroke.width maxWidth)
      ∧ Outlined 5 0 1 3 stroke ⟨fun _ => 0#8, fun _ => 0#8, false⟩ := by
  have hcovered : stroke.BordersCovered 5 (min stroke.width maxWidth) := by decide
  exact ⟨by decide, hcovered, (outlined_iff (by decide)).mpr hcovered⟩

/-- **An outline with a side missing**: below a dot in the first row the pixel stays blank. -/
theorem not_outlined_topRow :
    min (dot 0 2).width maxWidth ≤ 5 * 1 ∧ 5 * 1 ≤ maxWidth * 2
      ∧ ¬ Outlined 5 0 1 3 (dot 0 2) ⟨fun _ => 0#8, fun _ => 0#8, false⟩ := by
  refine ⟨by decide, by decide, fun h => ?_⟩
  have hbyte := h 1 (by decide) 2 (by decide)
  rw [writeFontMap_apply (by decide) (by decide)] at hbyte
  exact absurd hbyte (by decide)

/-! ### Remains of an earlier text -/

/-- Two states of the memory, with nothing written behind `map1`, that differ in the layer's map and
in `map1` only. -/
structure Canvas.SameOutside (map : ℕ) (c c' : Canvas) : Prop where
  area : ∀ a, a < map ∨ map + mapBytes ≤ a → c.area a = c'.area a
  map1 : ∀ a, mapBytes ≤ a → c.map1 a = c'.map1 a
  fits : c.overrun = false
  fits' : c'.overrun = false

/-- One byte in the map may make the difference. -/
lemma Canvas.sameOutside_store (c : Canvas) (hc : c.overrun = false) (v : Byte) {a : ℕ}
    (ha : map ≤ a) (ha' : a < map + mapBytes) :
    c.SameOutside map { c with area := store c.area a v } := by
  refine ⟨fun k hk => (store_of_ne _ _ ?_).symm, fun _ _ => rfl, hc, hc⟩
  omega

/-- The picture of a text does not depend on what its map and `map1` held before, and drawing it
writes nothing behind `map1`, where the executions have no meaning. -/
def ShowsNoRemains (edge map rand : ℕ) (t : Text) (b : Bitmap) : Prop :=
  ∀ c c' : Canvas, c.SameOutside map c' →
    let drawn := writeFontMap edge map t.strlenUtf8 rand b c
    let drawn' := writeFontMap edge map t.strlenUtf8 rand b c'
    drawn.1.overrun = false ∧ drawn'.1.overrun = false ∧ drawn.2 = drawn'.2
      ∧ ∀ i < edge, ∀ j < drawn.2, drawn.1.area (map + cell i j) = drawn'.1.area (map + cell i j)

/-- **When nothing remains of an earlier text**: exactly when the columns that are blanked end
inside `map1`, and every cell right of them, and left of the end of the text, is drawn. -/
theorem showsNoRemains_iff (hedge : edge ≤ maxHeight) :
    ShowsNoRemains edge map rand t b
      ↔ ScratchHolds edge t.strlenUtf8
        ∧ ∀ i < edge, ∀ j, edge * t.strlenUtf8 ≤ j → j < min b.width maxWidth →
          b.Inked edge i j := by
  constructor
  · intro h
    let c : Canvas := ⟨fun _ => 0#8, fun _ => 0#8, false⟩
    refine ⟨?_, fun i hi j hlen hj => ?_⟩
    · have hdrawn := (h c c ⟨fun _ _ => rfl, fun _ _ => rfl, rfl, rfl⟩).1
      exact ((writeFontMap_overrun_iff hedge).mp hdrawn).2
    have hcell := cell_lt_mapBytes hedge hi (hj.trans_le (min_le_right _ _))
    have hsame := c.sameOutside_store rfl 1#8
      (Nat.le_add_right map (cell i j)) (Nat.add_lt_add_left hcell map)
    have hbyte := (h _ _ hsame).2.2.2 i hi j hj
    rw [writeFontMap_apply hi hj, writeFontMap_apply hi hj, if_neg (Nat.not_lt.mpr hlen),
      if_neg (Nat.not_lt.mpr hlen)] at hbyte
    rw [inked_iff hlen]
    by_contra hink
    rw [not_or] at hink
    rw [if_neg hink.1, if_neg hink.2, if_neg hink.1, if_neg hink.2] at hbyte
    have hbit : (0#8 : Byte) = 1#8 := hbyte.trans (store_same _ _ _)
    exact absurd hbit (by decide)
  · rintro ⟨hfits, h⟩ c c' hsame
    refine ⟨(writeFontMap_overrun_iff hedge).mpr ⟨hsame.fits, hfits⟩,
      (writeFontMap_overrun_iff hedge).mpr ⟨hsame.fits', hfits⟩, rfl, fun i hi j hj => ?_⟩
    rw [writeFontMap_apply hi hj, writeFontMap_apply hi hj]
    by_cases hlen : j < edge * t.strlenUtf8
    · rw [if_pos hlen, if_pos hlen]
    · rcases (inked_iff (Nat.not_lt.mp hlen)).mp (h i hi j (Nat.not_lt.mp hlen) hj) with hat | hout
      · rw [if_pos hat, if_pos hat]
      · rw [if_pos hout, if_pos hout]

/-- A text of one byte in a white bitmap of ten pixels. -/
theorem showsNoRemains_iff_narrow : ShowsNoRemains 10 0 3 ⟨[0x61#8], by decide, by decide⟩
    ⟨10, 1, fun _ => 255#8⟩ :=
  (showsNoRemains_iff (by decide)).mpr ⟨by decide, fun _ _ j hlen hj =>
    absurd (lt_of_le_of_lt hlen hj) (by decide)⟩

/-- **Remains of an earlier text**: rendered twice as wide as the columns that are blanked for it,
the same text shows the last five columns of what was in the map before. -/
theorem not_showsNoRemains_wide : ¬ ShowsNoRemains 5 0 3 ⟨[0x61#8], by decide, by decide⟩
    ⟨10, 1, fun _ => 255#8⟩ := by
  intro h
  have hcell : cell 0 7 < 0 + mapBytes := by decide
  have hsame := Canvas.sameOutside_store ⟨fun _ => 0#8, fun _ => 0#8, false⟩ rfl 1#8
    (Nat.zero_le _) hcell
  have hbyte := (h _ _ hsame).2.2.2 0 (by decide) 7 (show 7 < min 10 maxWidth by decide)
  rw [writeFontMap_apply (by decide) (by decide), writeFontMap_apply (by decide) (by decide)]
    at hbyte
  exact absurd hbyte (by decide)

end Danmaku
