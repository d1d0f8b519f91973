import Danmaku.FontMap
import Danmaku.PixelFilter
import Danmaku.Screen

/-!
The sliding and static layers of `danmaku.c`.

* `SlidingLayer`, `StaticLayer`: the two records, with `map` the offset of the layer's map
  in the DMA area (the same behind the user and the physical address of the area).
* `slidingNextCycle`, `slidingSetDanmu`, `staticNextCycle`, `forceStaticSetDanmu`,
  `staticSetDanmu`: their steps. `none` is a failed assertion.
* `slidingWritePixels`, `staticWritePixels`, `clearScreen`: the descriptors that the draw
  functions hand to the render DMA, in order, for a buffer at `dst`.
* `slidingWritePixels_eq`, `staticWritePixels_eq`: the clipping, and `mem_slidingWritePixels`,
  `mem_staticWritePixels`: what a single descriptor looks like.
-/

namespace Danmaku

/-- `sliding_layer_t`; `y` is the row that `InitSliding` assigns. -/
structure SlidingLayer where
  x : ℤ
  y : Fin slidingLayerRows
  width : ℤ
  ppc : ℤ
  enable : Bool
  map : ℕ

/-- `static_layer_t`; `y` is the row that `InitStatic` assigns. -/
structure StaticLayer where
  enable : Bool
  counter : ℤ
  validLen : ℤ
  y : Fin numStaticLayer
  map : ℕ

/-- `SlidingNextCycle`. -/
def slidingNextCycle (s : SlidingLayer) : SlidingLayer :=
  if !s.enable then s
  else
    let x := s.x - s.ppc
    if x < -s.width then { s with x := x, enable := false } else { s with x := x }

/-- `SlidingSetDanmu`, which asserts that the layer is free. -/
def slidingSetDanmu (scr : Screen) (s : SlidingLayer) (len rand : ℕ) (b : Bitmap) (c : Canvas) :
    Option (SlidingLayer × Canvas) :=
  if s.enable then none
  else
    let drawn := writeFontMap scr.edge s.map len rand b c
    let width : ℤ := drawn.2
    some ({ s with width := width, enable := true, x := scr.width,
                   ppc := 1 + (width + scr.width) / cyclePerDanmu }, drawn.1)

/-- `ForceStaticSetDanmu`. -/
def forceStaticSetDanmu (scr : Screen) (s : StaticLayer) (len rand : ℕ) (b : Bitmap)
    (c : Canvas) : StaticLayer × Canvas :=
  let drawn := writeFontMap scr.edge s.map len rand b c
  ({ s with validLen := drawn.2, enable := true, counter := 0 }, drawn.1)

/-- `StaticSetDanmu`; `none` is the answer `false`. -/
def staticSetDanmu (scr : Screen) (s : StaticLayer) (len rand : ℕ) (b : Bitmap) (c : Canvas) :
    Option (StaticLayer × Canvas) :=
  if s.enable then none else some (forceStaticSetDanmu scr s len rand b c)

/-- `StaticNextCycle`. -/
def staticNextCycle (s : StaticLayer) : StaticLayer :=
  if s.enable then
    let counter := s.counter + 1
    if counter ≥ duration then { s with counter := counter, enable := false }
    else { s with counter := counter }
  else s

/-! ### The descriptors of the draw functions -/

/-- The row loop of the two draw functions: `edge` rows from screen row `row` on, columns
`xfrom` to `xto`, out of the map from column `srcX` on. -/
def rowDescriptors (scr : Screen) (dst map row srcX xfrom xto : ℕ) : List Descriptor :=
  (List.range scr.edge).map fun i =>
    let lineBase := row * (scr.width + 2) + i * (scr.width + 2)
    let addrXfrom := lineBase + xfrom
    let addrXto := lineBase + xto
    { src := map + cell i srcX, dst := dst + addrXfrom, length := addrXto - addrXfrom + 1 }

/-- `SlidingWritePixels`. -/
def slidingWritePixels (scr : Screen) (dst : ℕ) (s : SlidingLayer) : List Descriptor :=
  if !s.enable then []
  else
    let y := scr.edge * s.y
    let xfrom := s.x
    let xto := s.x + s.width - 1
    if xfrom ≥ scr.width ∨ xto < 0 ∨ xto < xfrom then []
    else
      let srcX := if xfrom < 0 then -xfrom else 0
      let xfrom := if xfrom < 0 then 0 else xfrom
      let xto := if xto ≥ scr.width then (scr.width : ℤ) - 1 else xto
      rowDescriptors scr dst s.map y srcX.toNat xfrom.toNat xto.toNat

/-- The left end of a static text: centred, or the left border for one that fills the
screen. -/
def staticXfrom (scr : Screen) (s : StaticLayer) : ℤ :=
  if scr.width > s.validLen then ((scr.width : ℤ) - s.validLen) / 2 else 0

/-- `StaticWritePixels`. -/
def staticWritePixels (scr : Screen) (dst : ℕ) (s : StaticLayer) : List Descriptor :=
  if !s.enable then []
  else
    let y := scr.edge * s.y
    let xfrom := staticXfrom scr s
    let xto := xfrom + s.validLen - 1
    if xfrom ≥ scr.width ∨ xto < 0 ∨ xto < xfrom then []
    else
      let xfrom := if xfrom < 0 then 0 else xfrom
      let xto := if xto ≥ scr.width then (scr.width : ℤ) - 1 else xto
      rowDescriptors scr dst s.map y 0 xfrom.toNat xto.toNat

/-- `ClearScreen`: the whole of `blank_screen` in one descriptor. -/
def clearScreen (scr : Screen) (blankScreen dst : ℕ) : Descriptor :=
  { src := blankScreen, dst := dst, length := scr.imgSize.toNat }

/-- The layers cover the first `SLIDING_LAYER_ROWS * edge` rows of the screen. -/
lemma Screen.layer_row_lt (scr : Screen) {y i : ℕ} (hy : y < slidingLayerRows) (hi : i < scr.edge) :
    scr.edge * y + i < slidingLayerRows * scr.edge := by
  calc scr.edge * y + i < scr.edge * y + scr.edge := Nat.add_lt_add_left hi _
    _ = scr.edge * (y + 1) := (Nat.mul_succ _ _).symm
    _ ≤ scr.edge * slidingLayerRows := Nat.mul_le_mul_left _ hy
    _ = slidingLayerRows * scr.edge := Nat.mul_comm _ _

/-- A row descriptor of a layer drawn over rows `row ..` of the buffer at `dst`: row `i` of
the map from column `srcX` on, to columns `xfrom` to `xto` of the screen. -/
structure IsRow (scr : Screen) (dst map row srcX xfrom xto i : ℕ) (d : Descriptor) : Prop where
  lt_edge : i < scr.edge
  src_eq : d.src = map + cell i srcX
  dst_eq : d.dst = dst + ((row + i) * scr.stride + xfrom)
  length_eq : d.length = xto - xfrom + 1

lemma mem_rowDescriptors {scr : Screen} {dst map row srcX xfrom xto : ℕ} {d : Descriptor}
    (hle : xfrom ≤ xto) :
    d ∈ rowDescriptors scr dst map row srcX xfrom xto
      ↔ ∃ i, IsRow scr dst map row srcX xfrom xto i d := by
  simp only [rowDescriptors, List.mem_map, List.mem_range]
  refine exists_congr fun i => ⟨?_, ?_⟩
  · rintro ⟨hi, rfl⟩
    refine ⟨hi, rfl, ?_, ?_⟩
    · simp only [Screen.stride]
      ring
    · simp only
      omega
  · rintro ⟨hi, hs, hd, hl⟩
    refine ⟨hi, ?_⟩
    obtain ⟨src, dst', len⟩ := d
    simp only [Descriptor.mk.injEq] at *
    refine ⟨hs.symm, ?_, ?_⟩
    · rw [hd, Screen.stride]
      ring
    · omega

lemma rowDescriptors_ne_nil (scr : Screen) (dst map row srcX xfrom xto : ℕ) :
    rowDescriptors scr dst map row srcX xfrom xto ≠ [] := by
  have h := scr.edge_pos
  rw [rowDescriptors, Ne, List.map_eq_nil_iff, List.range_eq_nil]
  omega

/-- Which sliding layers are drawn. -/
lemma slidingWritePixels_ne_nil_iff {scr : Screen} {dst : ℕ} {s : SlidingLayer} :
    slidingWritePixels scr dst s ≠ [] ↔
      s.enable = true ∧ s.x < scr.width ∧ 0 ≤ s.x + s.width - 1 ∧ 1 ≤ s.width := by
  rw [slidingWritePixels]
  by_cases he : s.enable = true
  · simp only [he, Bool.not_true, Bool.false_eq_true, if_false, true_and]
    split
    · simp only [ne_eq, not_true_eq_false, false_iff]
      omega
    · simp only [ne_eq, rowDescriptors_ne_nil, not_false_eq_true, true_iff]
      omega
  · simp [he]

/-- Which static layers are drawn. -/
lemma staticWritePixels_ne_nil_iff {scr : Screen} {dst : ℕ} {s : StaticLayer} :
    staticWritePixels scr dst s ≠ [] ↔ s.enable = true ∧ 1 ≤ s.validLen := by
  have hx : 0 ≤ staticXfrom scr s ∧ (1 ≤ s.validLen → staticXfrom scr s < scr.width) := by
    have hw := scr.le_width
    rw [staticXfrom]
    split <;> omega
  rw [staticWritePixels]
  by_cases he : s.enable = true
  · simp only [he, Bool.not_true, Bool.false_eq_true, if_false, true_and]
    split
    · simp only [ne_eq, not_true_eq_false, false_iff]
      omega
    · simp only [ne_eq, rowDescriptors_ne_nil, not_false_eq_true, true_iff]
      omega
  · simp [he]

/-- The clipped span of a sliding layer: what `SlidingWritePixels` draws of it. -/
lemma slidingWritePixels_eq {scr : Screen} {dst : ℕ} {s : SlidingLayer}
    (hne : slidingWritePixels scr dst s ≠ []) :
    s.enable = true ∧ ∃ srcX xfrom xto : ℕ, xfrom ≤ xto ∧ xto < scr.width
      ∧ (xfrom : ℤ) = max s.x 0 ∧ (srcX : ℤ) = max (-s.x) 0
      ∧ (xto : ℤ) = min (s.x + s.width - 1) (scr.width - 1)
      ∧ slidingWritePixels scr dst s
        = rowDescriptors scr dst s.map (scr.edge * s.y) srcX xfrom xto := by
  have hw := scr.le_width
  rw [slidingWritePixels] at hne ⊢
  by_cases he : s.enable = true
  · simp only [he, Bool.not_true, Bool.false_eq_true, if_false] at hne ⊢
    split at hne
    · exact absurd rfl hne
    · rename_i hvis
      rw [if_neg hvis]
      refine ⟨trivial, _, _, _, ?_, ?_, ?_, ?_, ?_, rfl⟩ <;> split_ifs <;> omega
  · simp [he] at hne

/-- The clipped span of a static layer. -/
lemma staticWritePixels_eq {scr : Screen} {dst : ℕ} {s : StaticLayer}
    (hne : staticWritePixels scr dst s ≠ []) :
    s.enable = true ∧ ∃ xfrom xto : ℕ, xfrom ≤ xto ∧ xto < scr.width
      ∧ (xfrom : ℤ) = staticXfrom scr s
      ∧ (xto : ℤ) = min (staticXfrom scr s + s.validLen - 1) (scr.width - 1)
      ∧ staticWritePixels scr dst s
        = rowDescriptors scr dst s.map (scr.edge * s.y) 0 xfrom xto := by
  have hw := scr.le_width
  have hx : 0 ≤ staticXfrom scr s := by
    rw [staticXfrom]
    split <;> omega
  rw [staticWritePixels] at hne ⊢
  by_cases he : s.enable = true
  · simp only [he, Bool.not_true, Bool.false_eq_true, if_false] at hne ⊢
    split at hne
    · exact absurd rfl hne
    · rename_i hvis
      rw [if_neg hvis]
      refine ⟨trivial, _, _, ?_, ?_, ?_, ?_, rfl⟩ <;> split_ifs <;> omega
  · simp [he] at hne

/-- The descriptors of a sliding layer are rows of a span of the screen, out of a span of the map
that is no wider than the layer. -/
lemma mem_slidingWritePixels {scr : Screen} {dst : ℕ} {s : SlidingLayer} {d : Descriptor}
    (hd : d ∈ slidingWritePixels scr dst s) :
    ∃ srcX xfrom xto i : ℕ, xfrom ≤ xto ∧ xto < scr.width
      ∧ ((srcX + (xto - xfrom + 1) : ℕ) : ℤ) ≤ s.width
      ∧ IsRow scr dst s.map (scr.edge * s.y) srcX xfrom xto i d := by
  obtain ⟨-, srcX, xfrom, xto, hle, hto, hxfrom, hsrcX, hxto, heq⟩ :=
    slidingWritePixels_eq (List.ne_nil_of_mem hd)
  rw [heq, mem_rowDescriptors hle] at hd
  obtain ⟨i, hi⟩ := hd
  exact ⟨srcX, xfrom, xto, i, hle, hto, by omega, hi⟩

/-- The same for a static layer. -/
lemma mem_staticWritePixels {scr : Screen} {dst : ℕ} {s : StaticLayer} {d : Descriptor}
    (hd : d ∈ staticWritePixels scr dst s) :
    ∃ srcX xfrom xto i : ℕ, xfrom ≤ xto ∧ xto < scr.width
      ∧ ((srcX + (xto - xfrom + 1) : ℕ) : ℤ) ≤ s.validLen
      ∧ IsRow scr dst s.map (scr.edge * s.y) srcX xfrom xto i d := by
  obtain ⟨-, xfrom, xto, hle, hto, hxfrom, hxto, heq⟩ :=
    staticWritePixels_eq (List.ne_nil_of_mem hd)
  rw [heq, mem_rowDescriptors hle] at hd
  obtain ⟨i, hi⟩ := hd
  exact ⟨0, xfrom, xto, i, hle, hto, by omega, hi⟩

end Danmaku
