import Danmaku.FrameBounds
import Danmaku.Lib.Painter

/-!
The frame that the descriptors of one `RenderOnce` compose.

* `runDescriptors`: the descriptors executed in order; each is a layer over the memory
  (`descriptorLayer`), so the painter's rule applies.
* `slidingShows`, `staticShows`: what a layer is meant to show at row `r`, column `c`.
* `topmost_slidingWritePixels`, `topmost_staticWritePixels`: the row descriptors of a layer
  together show exactly that.
* `composed`: the frame as it is meant to look; `runDescriptors_frame`: clearing and drawing
  composes it, in a buffer with any previous content.
-/

namespace Danmaku

open CountedLoop Painter

/-- The descriptors executed one after the other, out of the DMA area `area`. -/
def runDescriptors (area : ℕ → Byte) (ds : List Descriptor) (mem : ℕ → Byte) : ℕ → Byte :=
  ds.foldl (fun mem d => transfer area d mem) mem

@[simp] lemma runDescriptors_nil (area mem : ℕ → Byte) : runDescriptors area [] mem = mem := rfl

lemma runDescriptors_cons (area : ℕ → Byte) (d : Descriptor) (ds : List Descriptor)
    (mem : ℕ → Byte) :
    runDescriptors area (d :: ds) mem = runDescriptors area ds (transfer area d mem) := rfl

lemma runDescriptors_append (area : ℕ → Byte) (ds ds' : List Descriptor) (mem : ℕ → Byte) :
    runDescriptors area (ds ++ ds') mem
      = runDescriptors area ds' (runDescriptors area ds mem) := List.foldl_append

/-- What the pixel filter lets through of a byte. -/
def visible (b : Byte) : Option Byte := if isTransparent b then none else some b

/-- A descriptor as a layer over the destination memory. -/
def descriptorLayer (area : ℕ → Byte) (d : Descriptor) (a : ℕ) : Option Byte :=
  if d.dst ≤ a ∧ a < d.dst + d.length then visible (area (d.src + (a - d.dst))) else none

lemma transfer_eq_paint (area : ℕ → Byte) (d : Descriptor) (mem : ℕ → Byte) :
    transfer area d mem = fun a => (descriptorLayer area d a).getD (mem a) := by
  funext a
  rw [transfer_apply, descriptorLayer, visible]
  by_cases hin : d.dst ≤ a ∧ a < d.dst + d.length
  · by_cases ht : isTransparent (area (d.src + (a - d.dst))) = true
    · rw [if_neg (fun h : d.Writes area a => by rw [h.2.2] at ht; exact absurd ht (by simp)),
        if_pos hin, if_pos ht]
      rfl
    · rw [if_pos ⟨hin.1, hin.2, by simpa using ht⟩, if_pos hin, if_neg ht]
      rfl
  · rw [if_neg (fun h : d.Writes area a => hin ⟨h.1, h.2.1⟩), if_neg hin]
    rfl

/-- Executing descriptors is painting. -/
lemma runDescriptors_eq_paint (area : ℕ → Byte) (ds : List Descriptor) (mem : ℕ → Byte) :
    runDescriptors area ds mem = paint (ds.map (descriptorLayer area)) mem := by
  rw [runDescriptors, paint, List.foldl_map]
  congr 1
  funext m d
  exact transfer_eq_paint area d m

/-! ### What a layer shows -/

/-- What a layer over the rows from `row` on, with its first column at `x` and `width` columns
wide, shows at row `r`, column `c` of the screen. -/
def spanShows (scr : Screen) (area : ℕ → Byte) (map row : ℕ) (x width : ℤ) (r c : ℕ) :
    Option Byte :=
  if row ≤ r ∧ r < row + scr.edge ∧ x ≤ c ∧ (c : ℤ) < x + width then
    visible (area (map + cell (r - row) (c - x).toNat))
  else none

/-- What a sliding layer shows: its map, from column `x` of the screen on. -/
def slidingShows (scr : Screen) (area : ℕ → Byte) (s : SlidingLayer) (r c : ℕ) : Option Byte :=
  if s.enable then spanShows scr area s.map (scr.edge * s.y) s.x s.width r c else none

/-- What a static layer shows: its map, in the middle of the screen. -/
def staticShows (scr : Screen) (area : ℕ → Byte) (s : StaticLayer) (r c : ℕ) : Option Byte :=
  if s.enable then spanShows scr area s.map (scr.edge * s.y) (staticXfrom scr s) s.validLen r c
  else none

/-- The layers of a frame in drawing order. -/
def frameLayers (scr : Screen) (area : ℕ → Byte) (r : Renderer) : List (ℕ × ℕ → Option Byte) :=
  (slots.map fun p q => slidingShows scr area (r.slidingLayers p.1 p.2) q.1 q.2)
    ++ (List.finRange numStaticLayer).map fun i q => staticShows scr area (r.staticLayers i) q.1 q.2

/-- **The painter's rule** for a frame: byte `k` is, in a pixel column, the byte of the last
layer that shows there, else the clear code; the marker columns are those of a blank frame. -/
def composed (scr : Screen) (area : ℕ → Byte) (r : Renderer) (k : ℕ) : Byte :=
  if k % scr.stride < scr.width then
    (topmost (frameLayers scr area r) (k / scr.stride, k % scr.stride)).getD Screen.clearCode
  else scr.blankByte k

lemma composed_pixel (scr : Screen) (area : ℕ → Byte) (rd : Renderer) (r : ℕ) {c : ℕ}
    (hc : c < scr.width) : composed scr area rd (r * scr.stride + c)
      = (topmost (frameLayers scr area rd) (r, c)).getD Screen.clearCode := by
  have hcs : c < scr.stride := by simp only [Screen.stride]; omega
  have hdiv : (r * scr.stride + c) / scr.stride = r := by
    rw [Nat.add_comm, Nat.add_mul_div_right _ _ (show 0 < scr.stride from Nat.succ_pos _),
      Nat.div_eq_of_lt hcs, Nat.zero_add]
  rw [composed, hdiv, scr.mul_stride_add_mod r hcs, if_pos hc]

/-- A row descriptor shows, in its own row, its span of the map. -/
lemma descriptorLayer_row {scr : Screen} {area : ℕ → Byte}
    {dst map row srcX xfrom xto i r c : ℕ} {d : Descriptor} (hle : xfrom ≤ xto)
    (hto : xto < scr.width) (hc : c < scr.stride)
    (hd : IsRow scr dst map row srcX xfrom xto i d) :
    descriptorLayer area d (dst + (r * scr.stride + c))
      = if r = row + i ∧ xfrom ≤ c ∧ c ≤ xto then visible (area (map + cell i (srcX + (c - xfrom))))
        else none := by
  obtain ⟨-, hs, hd, hl⟩ := hd
  have hstride : scr.stride = scr.width + 2 := rfl
  rw [descriptorLayer, hs, hd, hl]
  rcases lt_trichotomy r (row + i) with hr | rfl | hr
  · have hbelow : r * scr.stride + scr.stride ≤ (row + i) * scr.stride := by
      rw [← Nat.succ_mul]
      exact Nat.mul_le_mul_right _ hr
    rw [if_neg (by omega), if_neg (by omega)]
  · refine if_congr (by omega) ?_ rfl
    rw [show dst + ((row + i) * scr.stride + c) - (dst + ((row + i) * scr.stride + xfrom))
      = c - xfrom from by omega]
    simp only [cell, Nat.add_assoc]
  · have habove : (row + i) * scr.stride + scr.stride ≤ r * scr.stride := by
      rw [← Nat.succ_mul]
      exact Nat.mul_le_mul_right _ hr
    rw [if_neg (by omega), if_neg (by omega)]

/-- The rows of a layer together show its span. -/
lemma topmost_rowDescriptors {scr : Screen} (area : ℕ → Byte)
    {dst map row srcX xfrom xto c : ℕ} {x width : ℤ} (r : ℕ) (hle : xfrom ≤ xto)
    (hto : xto < scr.width) (hc : c < scr.stride)
    (hspan : ∀ c : ℕ, c < scr.stride →
      (xfrom ≤ c ∧ c ≤ xto ↔ c < scr.width ∧ x ≤ c ∧ (c : ℤ) < x + width))
    (hsrc : (srcX : ℤ) = xfrom - x) :
    topmost ((rowDescriptors scr dst map row srcX xfrom xto).map (descriptorLayer area))
        (dst + (r * scr.stride + c))
      = if c < scr.width then spanShows scr area map row x width r c else none := by
  set row' : ℕ → Descriptor := fun i =>
    let lineBase := row * (scr.width + 2) + i * (scr.width + 2)
    { src := map + cell i srcX, dst := dst + (lineBase + xfrom),
      length := lineBase + xto - (lineBase + xfrom) + 1 } with hrow'
  have hrows : rowDescriptors scr dst map row srcX xfrom xto = (List.range scr.edge).map row' := rfl
  have hshow : ∀ i < scr.edge, descriptorLayer area (row' i) (dst + (r * scr.stride + c))
      = if r = row + i ∧ xfrom ≤ c ∧ c ≤ xto then visible (area (map + cell i (srcX + (c - xfrom))))
        else none := by
    intro i hi
    refine descriptorLayer_row hle hto hc ⟨hi, rfl, ?_, ?_⟩
    · rw [hrow']
      simp only [Screen.stride]
      ring
    · rw [hrow']
      simp only
      omega
  rw [hrows, List.map_map, topmost_range_of_unique (j := r - row) (fun i hi hne => ?_)]
  · by_cases hin : row ≤ r ∧ r < row + scr.edge
    · rw [spanShows]
      have hj : r - row < scr.edge := by omega
      rw [if_pos hj, Function.comp_apply, hshow _ hj]
      by_cases hcol : xfrom ≤ c ∧ c ≤ xto
      · obtain ⟨hcw, hx1, hx2⟩ := (hspan c hc).mp hcol
        rw [if_pos ⟨by omega, hcol⟩, if_pos hcw, if_pos ⟨hin.1, hin.2, hx1, hx2⟩,
          show ((c : ℤ) - x).toNat = srcX + (c - xfrom) from by omega]
      · rw [if_neg (fun h => hcol h.2)]
        by_cases hcw : c < scr.width
        · rw [if_pos hcw, if_neg (fun h => hcol ((hspan c hc).mpr ⟨hcw, h.2.2.1, h.2.2.2⟩))]
        · rw [if_neg hcw]
    · have hnone : spanShows scr area map row x width r c = none :=
        if_neg fun h => hin ⟨h.1, h.2.1⟩
      rw [hnone, ite_self]
      by_cases hj : r - row < scr.edge
      · rw [if_pos hj, Function.comp_apply, hshow _ hj, if_neg (by omega)]
      · rw [if_neg hj]
  · rw [Function.comp_apply, hshow i hi, if_neg (by omega)]

/-- The descriptors of a sliding layer show the layer. -/
lemma topmost_slidingWritePixels (scr : Screen) (area : ℕ → Byte) (dst : ℕ) (s : SlidingLayer)
    (r : ℕ) {c : ℕ} (hc : c < scr.stride) :
    topmost ((slidingWritePixels scr dst s).map (descriptorLayer area)) (dst + (r * scr.stride + c))
      = if c < scr.width then slidingShows scr area s r c else none := by
  by_cases hdrawn : slidingWritePixels scr dst s = []
  · rw [hdrawn, List.map_nil, topmost_nil]
    have hnot := fun h => slidingWritePixels_ne_nil_iff.mpr h hdrawn
    split
    · rw [slidingShows]
      split
      · refine (if_neg fun h => hnot ⟨‹_›, ?_⟩).symm
        omega
      · rfl
    · rfl
  · obtain ⟨he, srcX, xfrom, xto, hle, hto, hxfrom, hsrcX, hxto, heq⟩ :=
      slidingWritePixels_eq hdrawn
    rw [heq, slidingShows, if_pos he]
    exact topmost_rowDescriptors area r hle hto hc (fun c _ => by omega) (by omega)

/-- The descriptors of a static layer show the layer. -/
lemma topmost_staticWritePixels (scr : Screen) (area : ℕ → Byte) (dst : ℕ) (s : StaticLayer)
    (r : ℕ) {c : ℕ} (hc : c < scr.stride) :
    topmost ((staticWritePixels scr dst s).map (descriptorLayer area)) (dst + (r * scr.stride + c))
      = if c < scr.width then staticShows scr area s r c else none := by
  by_cases hdrawn : staticWritePixels scr dst s = []
  · rw [hdrawn, List.map_nil, topmost_nil]
    have hnot := fun h => staticWritePixels_ne_nil_iff.mpr h hdrawn
    split
    · rw [staticShows]
      split
      · refine (if_neg fun h => hnot ⟨‹_›, ?_⟩).symm
        omega
      · rfl
    · rfl
  · obtain ⟨he, xfrom, xto, hle, hto, hxfrom, hxto, heq⟩ := staticWritePixels_eq hdrawn
    rw [heq, staticShows, if_pos he]
    exact topmost_rowDescriptors area r hle hto hc (fun c _ => by omega) (by omega)

/-- All the descriptors of the draw loops show the layers of the frame. -/
lemma topmost_drawLayers (scr : Screen) (area : ℕ → Byte) (dst : ℕ) (rd : Renderer) (r : ℕ)
    {c : ℕ} (hc : c < scr.stride) :
    topmost ((drawLayers scr dst rd).map (descriptorLayer area)) (dst + (r * scr.stride + c))
      = if c < scr.width then topmost (frameLayers scr area rd) (r, c) else none := by
  rw [drawLayers, List.map_append, List.map_flatMap, List.map_flatMap, topmost_append,
    topmost_flatMap, topmost_flatMap]
  by_cases hcw : c < scr.width
  · rw [if_pos hcw, frameLayers, topmost_append]
    congr 1
    · refine topmost_congr ?_
      simp only [List.map_map]
      refine List.map_congr_left ?_
      intro i _
      simp only [Function.comp_apply, topmost_staticWritePixels scr area dst _ r hc, if_pos hcw]
    · refine topmost_congr ?_
      simp only [List.map_map]
      refine List.map_congr_left ?_
      intro p _
      simp only [Function.comp_apply, topmost_slidingWritePixels scr area dst _ r hc, if_pos hcw]
  · rw [if_neg hcw, topmost_eq_none, topmost_eq_none]
    · rfl
    · simp only [List.mem_map]
      rintro l ⟨p, -, rfl⟩
      rw [topmost_slidingWritePixels scr area dst _ r hc, if_neg hcw]
    · simp only [List.mem_map]
      rintro l ⟨p, -, rfl⟩
      rw [topmost_staticWritePixels scr area dst _ r hc, if_neg hcw]

/-! ### The whole frame -/

/-- No byte of a blank frame is the transparent code. -/
lemma visible_blankByte (scr : Screen) (k : ℕ) :
    visible (scr.blankByte k) = some (scr.blankByte k) := by
  rw [Screen.blankByte]
  split_ifs <;> decide

/-- The draw loops address nothing in front of the buffer. -/
lemma le_dst_of_mem_drawLayers {scr : Screen} {dst : ℕ} {rd : Renderer} {d : Descriptor}
    (hd : d ∈ drawLayers scr dst rd) : dst ≤ d.dst := by
  simp only [drawLayers, List.mem_append, List.mem_flatMap] at hd
  rcases hd with ⟨p, -, hd⟩ | ⟨i, -, hd⟩
  · obtain ⟨srcX, xfrom, xto, i, -, -, -, hi⟩ := mem_slidingWritePixels hd
    exact hi.dst_eq ▸ Nat.le_add_right _ _
  · obtain ⟨srcX, xfrom, xto, i, -, -, -, hi⟩ := mem_staticWritePixels hd
    exact hi.dst_eq ▸ Nat.le_add_right _ _

/-- No layer shows anything below the screen. -/
lemma frameLayers_below {scr : Screen} (hfit : scr.Fits) (area : ℕ → Byte) (rd : Renderer)
    {r : ℕ} (c : ℕ) (hr : scr.height ≤ r) : topmost (frameLayers scr area rd) (r, c) = none := by
  have hspan : ∀ (map y : ℕ) (x width : ℤ), y < slidingLayerRows →
      spanShows scr area map (scr.edge * y) x width r c = none := by
    intro map y x width hy
    refine if_neg ?_
    rintro ⟨hlow, hhigh, -⟩
    have hrow := scr.layer_row_lt hy (show r - scr.edge * y < scr.edge by omega)
    have hfits := hfit.2
    omega
  refine topmost_eq_none ?_
  intro l hl
  simp only [frameLayers, List.mem_append, List.mem_map] at hl
  rcases hl with ⟨p, -, rfl⟩ | ⟨i, -, rfl⟩
  · simp only [slidingShows]
    split
    · exact hspan _ _ _ _ (rd.slidingLayers p.1 p.2).y.isLt
    · rfl
  · simp only [staticShows]
    split
    · exact hspan _ _ _ _ (rd.staticLayers i).y.isLt
    · rfl

/-- The draw loops leave alone what lies outside the frame. -/
lemma topmost_drawLayers_outside {scr : Screen} (hfit : scr.Fits) {dst a : ℕ} (rd : Renderer)
    (area : ℕ → Byte) (ha : a < dst ∨ dst + scr.stride * scr.height ≤ a) :
    topmost ((drawLayers scr dst rd).map (descriptorLayer area)) a = none := by
  rcases ha with ha | ha
  · refine topmost_eq_none ?_
    intro l hl
    obtain ⟨d, hd, rfl⟩ := List.mem_map.mp hl
    have := le_dst_of_mem_drawLayers hd
    exact if_neg (by omega)
  · obtain ⟨k, rfl⟩ := Nat.exists_eq_add_of_le (show dst ≤ a by omega)
    have hstride : 0 < scr.stride := Nat.succ_pos _
    have hr : scr.height ≤ k / scr.stride := by
      rw [Nat.le_div_iff_mul_le hstride, Nat.mul_comm]
      omega
    rw [← Nat.div_add_mod' k scr.stride,
      topmost_drawLayers scr area dst rd _ (Nat.mod_lt k hstride),
      frameLayers_below hfit area rd _ hr, ite_self]

/-- **Clearing and drawing compose the frame**, whatever the buffer at `dst` held before. -/
theorem runDescriptors_frame {scr : Screen} (hfit : scr.Fits) {area : ℕ → Byte} {blank : ℕ}
    (hblank : ∀ k < scr.imgSize.toNat, area (blank + k) = scr.blankByte k) (dst : ℕ)
    (rd : Renderer) (mem : ℕ → Byte) :
    Filled dst (composed scr area rd) mem scr.imgSize.toNat
      (runDescriptors area (clearScreen scr blank dst :: drawLayers scr dst rd) mem) := by
  intro a
  rw [runDescriptors_cons, runDescriptors_eq_paint, paint_apply, transfer_eq_paint]
  have hstride : 0 < scr.stride := Nat.succ_pos _
  have hclear : ∀ a, descriptorLayer area (clearScreen scr blank dst) a
      = if dst ≤ a ∧ a < dst + scr.imgSize.toNat then some (scr.blankByte (a - dst)) else none := by
    intro a
    show (if dst ≤ a ∧ a < dst + scr.imgSize.toNat then visible (area (blank + (a - dst)))
      else none) = _
    by_cases hin : dst ≤ a ∧ a < dst + scr.imgSize.toNat
    · rw [if_pos hin, if_pos hin, hblank _ (by omega), visible_blankByte]
    · rw [if_neg hin, if_neg hin]
  simp only [hclear]
  by_cases hin : dst ≤ a ∧ a < dst + scr.imgSize.toNat
  · obtain ⟨k, rfl⟩ := Nat.exists_eq_add_of_le hin.1
    rw [if_pos hin, if_pos hin, Option.getD_some, Nat.add_sub_cancel_left,
      ← Nat.div_add_mod' k scr.stride, topmost_drawLayers scr area dst rd _ (Nat.mod_lt k hstride),
      Nat.div_add_mod', composed]
    by_cases hc : k % scr.stride < scr.width
    · rw [if_pos hc, if_pos hc, Screen.blankByte, if_pos hc]
    · rw [if_neg hc, if_neg hc]
      rfl
  · rw [if_neg hin, if_neg hin,
      topmost_drawLayers_outside hfit rd area (by rw [scr.imgSize_toNat] at hin; omega)]
    rfl

end Danmaku
