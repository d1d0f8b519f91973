import Danmaku.Insertion
import Danmaku.MapAccess

/-!
Which bytes the enabled layers show.

`InitStatic` blanks its map, `InitSliding` does not. `WriteFontMap` blanks `edge * len` columns and
draws the pixels of the text and their outline in `out_width` columns, so that a wider text shows
what the memory held before; and a larger `edge` of the next session shows rows that no text was
drawn in.

* `Renderer.Clean`: every cell that an enabled layer shows is a colour or `PXL_BLANK`, and no pass
  has left `map1`.
* `InkCovers`: a frame's text is drawn wherever the map was not clean before; `TextsHeld`: its texts
  are not too long for `map1`; `clean_renderFrame`, `not_clean_renderFrame`: the exact condition for
  a frame.
* `Sys.Covered`, `layersClean_iff_covered`: **the exact condition for a run** over any number of
  sessions, and what the layers then transfer.
-/

namespace Danmaku

open DmaEngine Transition CountedLoop

/-- Every cell that an enabled layer shows holds a colour or `PXL_BLANK`, and no pass of
`WriteFontMap` has written behind `map1`. -/
structure Renderer.Clean (edge : ℕ) (r : Renderer) : Prop where
  sliding : ∀ i j, (r.slidingLayers i j).enable = true → ∀ row < edge, ∀ col : ℕ,
    (col : ℤ) < (r.slidingLayers i j).width →
      MapByte (r.canvas.area ((r.slidingLayers i j).map + cell row col))
  static : ∀ k, (r.staticLayers k).enable = true → ∀ row < edge, ∀ col : ℕ,
    (col : ℤ) < (r.staticLayers k).validLen →
      MapByte (r.canvas.area ((r.staticLayers k).map + cell row col))
  scratch : r.canvas.overrun = false

/-- The maps are where `main` has put them, and those of the static layers are clean. -/
structure Renderer.MapsPlaced (r : Renderer) : Prop where
  sliding : ∀ i j, (r.slidingLayers i j).map = layerMap (slidingLayerCols * i + j)
  static : ∀ k, (r.staticLayers k).map = layerMap (slidingLayerRows * slidingLayerCols + k)
  blank : ∀ k, ∀ a < mapBytes, MapByte (r.canvas.area ((r.staticLayers k).map + a))

/-- Where the text of the frame's insertion is wider than the columns that `WriteFontMap` blanks,
each cell of its layer was clean before, or is drawn. -/
def InkCovers (scr : Screen) (inp : FrameInput) (r : Renderer) : Prop :=
  ∀ t p, insertion scr inp r = some (t, p) → ∀ row < scr.edge, ∀ col,
    scr.edge * t.strlenUtf8 ≤ col → col < outWidth inp t →
      MapByte (r.canvas.area ((r.slidingLayers p.1 p.2).map + cell row col))
        ∨ (inp.bitmap t).Inked scr.edge row col

/-- The texts that the frame draws are not too long for `map1`. -/
structure TextsHeld (scr : Screen) (inp : FrameInput) (r : Renderer) : Prop where
  sliding : ∀ t p, insertion scr inp r = some (t, p) → ScratchHolds scr.edge t.strlenUtf8
  static : ∀ t, staticText inp r = some t → ScratchHolds scr.edge t.strlenUtf8

/-- The rows that a larger character size would show of the enabled sliding layers are clean. -/
def ExposesClean (edge : ℕ) (scr : Screen) (r : Renderer) : Prop :=
  ∀ i j, (r.slidingLayers i j).enable = true → ∀ row, edge ≤ row → row < scr.edge → ∀ col : ℕ,
    (col : ℤ) < (r.slidingLayers i j).width →
      MapByte (r.canvas.area ((r.slidingLayers i j).map + cell row col))

variable {scr : Screen} {inp : FrameInput} {r r' : Renderer} {calls : List Call} {edge : ℕ}

/-! ### The maps -/

/-- A row descriptor reads a row of the layer's map. -/
lemma IsRow.src_add {dst map row srcX xfrom xto i : ℕ} {d : Descriptor}
    (hd : IsRow scr dst map row srcX xfrom xto i d) (k : ℕ) :
    d.src + k = map + cell i (srcX + k) := by
  rw [hd.src_eq, cell, cell, Nat.add_assoc, Nat.add_assoc]

/-- `FillBlank` over a whole map. -/
lemma fillBlank_mapByte {map a : ℕ} {area : ℕ → Byte} (ha : a < mapBytes) :
    MapByte (fillBlank map 0 (maxWidth * 2) area (map + a)) := by
  have hrow : a / (maxWidth * 2) < maxHeight := by
    simp only [mapBytes_eq, maxWidth, maxHeight] at *
    omega
  have hcell : cell (a / (maxWidth * 2)) (0 + a % (maxWidth * 2)) = a := by
    rw [cell, Nat.zero_add]
    exact Nat.div_add_mod' _ _
  refine forUpTo_reach (Q := fun m : ℕ → Byte => MapByte (m (map + a))) hrow (fun m => ?_) ?_
  · refine forUpTo_reach (Q := fun m : ℕ → Byte => MapByte (m (map + a)))
      (Nat.mod_lt a (by decide)) (fun m => ?_) fun _ _ _ hm => hm.store (Or.inr rfl)
    rw [hcell, store_same]
    exact Or.inr rfl
  · exact fun _ _ _ hm => forUpTo_keep (fun m : ℕ → Byte => MapByte (m (map + a))) hm
      fun _ _ _ hm => hm.store (Or.inr rfl)

/-- `main` puts the maps in place and blanks the static ones. -/
lemma mapsPlaced_initRenderer (area : ℕ → Byte) : (initRenderer area).MapsPlaced := by
  refine ⟨fun _ _ => rfl, fun _ => rfl, ?_⟩
  intro k a ha
  refine forUpTo_reach
    (Q := fun m : ℕ → Byte => MapByte (m (layerMap (slidingLayerRows * slidingLayerCols + k) + a)))
    k.isLt (fun m => fillBlank_mapByte ha) ?_
  exact fun _ _ _ hm => hm.fillBlank

lemma Renderer.MapsPlaced.setArea (h : r.MapsPlaced) {area : ℕ → Byte}
    (harea : ∀ a, MapByte (r.canvas.area a) → a < layerMap 30 → MapByte (area a)) :
    { r with canvas := { r.canvas with area := area } }.MapsPlaced := by
  refine ⟨h.sliding, h.static, fun k a ha => harea _ (h.blank k a ha) ?_⟩
  have hk := k.isLt
  simp only [h.static, layerMap, mapBytes_eq, slidingLayerRows, slidingLayerCols, numStaticLayer]
    at *
  omega

/-! ### A frame -/

/-- A frame keeps the maps in place. -/
lemma Renderer.MapsPlaced.frame (h : r.MapsPlaced) (hr : renderFrame scr inp r = some (r', calls)) :
    r'.MapsPlaced := by
  obtain ⟨c, hsliding, hstatic, -⟩ := renderFrame_insertion hr
  have hkeeps : Renderer.Keeps 0 scr r r' := Renderer.keeps_renderFrame hr
  refine ⟨?_, fun k => (hstatic k).trans (h.static k), ?_⟩
  · intro i j
    rw [← h.sliding i j]
    rcases hsliding with ⟨-, -, -, hs⟩ | ⟨t, p, -, -, -, hs⟩ <;> simp [hs]
  · intro k a ha
    rw [hstatic k]
    exact hkeeps.mapByte _ (h.blank k a ha)

/-- A frame stays inside `map1` exactly when its texts are not too long. -/
lemma renderFrame_overrun_iff (hedge : scr.edge ≤ maxHeight)
    (hr : renderFrame scr inp r = some (r', calls)) :
    r'.canvas.overrun = false ↔ r.canvas.overrun = false ∧ TextsHeld scr inp r := by
  obtain ⟨c, hsliding, -, hcanvas⟩ := renderFrame_insertion hr
  have hfirst : c.overrun = false ↔ r.canvas.overrun = false
      ∧ ∀ t p, insertion scr inp r = some (t, p) → ScratchHolds scr.edge t.strlenUtf8 := by
    rcases hsliding with ⟨hnone, -, rfl, -⟩ | ⟨t, p, hsome, -, rfl, -⟩
    · simp [hnone]
    · rw [writeFontMap_overrun_iff hedge, hsome]
      simp
  have hsecond : r'.canvas.overrun = false ↔ c.overrun = false
      ∧ ∀ t, staticText inp r = some t → ScratchHolds scr.edge t.strlenUtf8 := by
    rcases hcanvas with ⟨hnone, hc⟩ | ⟨t, k, hsome, hc⟩
    · simp [hnone, hc]
    · rw [hc, writeFontMap_overrun_iff hedge, hsome]
      simp
  rw [hsecond, hfirst, and_assoc]
  exact and_congr_right fun _ => ⟨fun h => ⟨h.1, h.2⟩, fun h => ⟨h.sliding, h.static⟩⟩

/-- **A frame keeps the layers clean** when its text is drawn wherever the map was not clean, and
its texts are not too long. -/
theorem clean_renderFrame (hedge : scr.edge ≤ maxHeight) (hplaced : r.MapsPlaced)
    (hok : r.LayersOk (layerMap 30)) (hclean : r.Clean scr.edge) (hcovers : InkCovers scr inp r)
    (hheld : TextsHeld scr inp r) (hr : renderFrame scr inp r = some (r', calls)) :
    r'.Clean scr.edge := by
  have hkeeps : Renderer.Keeps (layerMap 30) scr r r' := Renderer.keeps_renderFrame hr
  obtain ⟨c, hsliding, hstatic, hcanvas⟩ := renderFrame_insertion hr
  have hlast : ∀ a, MapByte (c.area a) → MapByte (r'.canvas.area a) := by
    intro a ha
    rcases hcanvas with ⟨-, hc⟩ | ⟨t, k, -, hc⟩ <;> rw [hc]
    · exact ha
    · exact writeFontMap_mapByte ha
  refine ⟨?_, ?_, (renderFrame_overrun_iff hedge hr).mpr ⟨hclean.scratch, hheld⟩⟩
  · intro i j henable row hrow col hcol
    rcases hsliding with ⟨-, -, hc, hs⟩ | ⟨t, p, hins, -, hc, hs⟩
    · simp only [hs, slidingNextCycle_width, slidingNextCycle_map] at henable hcol ⊢
      refine hlast _ ?_
      rw [hc]
      exact hclean.sliding i j (enable_of_slidingNextCycle henable) row hrow col hcol
    · simp only [hs, slidingNextCycle_width, slidingNextCycle_map, insertAt_map] at henable hcol ⊢
      refine hlast _ ?_
      rw [hc]
      by_cases hp : (i, j) = p
      · subst hp
        rw [insertAt_same] at hcol
        have hcol : col < outWidth inp t := Int.ofNat_lt.mp hcol
        by_cases hlen : col < scr.edge * t.strlenUtf8
        · exact writeFontMap_cell hrow hlen
        · exact (writeFontMap_cell_iff hrow (by omega) hcol).mpr
            (hcovers t _ hins row hrow col (by omega) hcol)
      · rw [insertAt_of_ne hp] at henable hcol
        exact writeFontMap_mapByte
          (hclean.sliding i j (enable_of_slidingNextCycle henable) row hrow col hcol)
  · intro k _ row hrow col hcol
    have hcol' : col < maxWidth :=
      Int.ofNat_lt.mp (hcol.trans_le ((hkeeps.layers hok).static k).validLen_le)
    rw [hstatic k]
    exact hkeeps.mapByte _ (hplaced.blank k _ (cell_lt_mapBytes hedge hrow hcol'))

/-- A frame whose text leaves a cell undrawn that was not clean shows it. -/
theorem not_clean_renderFrame (hedge : scr.edge ≤ maxHeight) (hplaced : r.MapsPlaced)
    (hbad : ¬ InkCovers scr inp r) (hr : renderFrame scr inp r = some (r', calls)) :
    ¬ r'.Clean scr.edge := by
  simp only [InkCovers, not_forall, not_or] at hbad
  obtain ⟨t, p, hins, row, hrow, col, hlen, hcol, hold, hink⟩ := hbad
  obtain ⟨c, hsliding, -, hcanvas⟩ := renderFrame_insertion hr
  rcases hsliding with ⟨hnone, -, -, -⟩ | ⟨t', p', hins', -, hc, hs⟩
  · exact absurd (hins.symm.trans hnone) (by simp)
  obtain ⟨rfl, rfl⟩ : t = t' ∧ p = p' := by simpa using hins.symm.trans hins'
  intro hclean
  have hshown := hclean.sliding p.1 p.2
  simp only [hs, slidingNextCycle_width, slidingNextCycle_map, insertAt_same, insertedLayer_width,
    insertedLayer_map] at hshown
  specialize hshown (insertedLayer_next_enable scr _ _) row hrow col (Int.ofNat_lt.mpr hcol)
  have hdrawn : ¬ MapByte (c.area ((r.slidingLayers p.1 p.2).map + cell row col)) := by
    rw [hc, writeFontMap_cell_iff hrow hlen hcol]
    exact not_or.mpr ⟨hold, hink⟩
  rcases hcanvas with ⟨-, hlast⟩ | ⟨t', k, -, hlast⟩ <;> rw [hlast] at hshown
  · exact hdrawn hshown
  · -- the static maps lie behind the sliding ones
    rw [writeFontMap_area_of_outside] at hshown
    · exact hdrawn hshown
    · intro i _ j _ heq
      have hcell := cell_lt_mapBytes hedge hrow (hcol.trans_le (min_le_right _ _))
      have h1 := p.1.isLt
      have h2 := p.2.isLt
      simp only [hplaced.sliding, hplaced.static, layerMap, mapBytes_eq, slidingLayerRows,
        slidingLayerCols] at heq h1 h2 hcell
      omega

/-! ### The system -/

namespace Sys

variable {s t : Sys} {a : Action} {as : List Action} {pc : MainPc}

/-- Every cell that an enabled layer shows holds a colour or `PXL_BLANK`, and no pass has left
`map1`. -/
def LayersClean (s : Sys) : Prop := s.renderer.Clean s.screen.edge

/-- The character cells of every accepted size have at most `MAX_HEIGHT` rows. -/
def EdgesFit (s : Sys) (_ : Action) : Prop :=
  s.mainPc = .subMain → ∀ scr, Screen.ofFrameSize? s.resolution = some scr → scr.edge ≤ maxHeight

/-- `SubMain` begins a session of size `scr`: the size is accepted and its blank screen fits. -/
def BeginsSession (s : Sys) (scr : Screen) : Prop :=
  s.mainPc = .subMain ∧ Screen.ofFrameSize? s.resolution = some scr
    ∧ ∃ blank driver, allocRenderBuf s.driver scr.imgSize = some (blank, driver)
      ∧ blank + scr.imgSize.toNat ≤ driver.szDynArea.toNat

/-- The texts that `RenderOnce` draws are not too long for `map1`. -/
def HoldsTexts (s : Sys) (a : Action) : Prop :=
  ∀ inp, a = .main inp → (∃ idx, s.mainPc = .feed idx) → TextsHeld s.screen inp s.renderer

/-- The condition: a new session shows no rows of the enabled sliding layers that are not clean, a
frame draws its text wherever the map is not clean, and its texts are not too long for `map1`. -/
structure Covered (s : Sys) (a : Action) : Prop where
  exposed : (∃ inp, a = .main inp) → ∀ scr, s.BeginsSession scr →
    ExposesClean s.screen.edge scr s.renderer
  drawn : ∀ inp, a = .main inp → (∃ idx, s.mainPc = .feed idx) → InkCovers s.screen inp s.renderer
  held : s.HoldsTexts a

/-- The invariant: the maps in place and in front, clean where they are shown, and clean where an
outstanding descriptor or one still to be submitted reads a map. -/
structure CleanOk (s : Sys) : Prop where
  area : s.AreaOk
  placed : s.renderer.MapsPlaced
  edge : s.screen.edge ≤ maxHeight
  clean : s.LayersClean
  reads : ∀ d ∈ s.renderDma.outstanding ++ s.toDraw, d.src < layerMap 30 → ∀ k < d.length,
    d.src + k < layerMap 30 ∧ MapByte (s.area (d.src + k))

/-- The rows that the draw functions read of a clean layer. -/
lemma reads_of_mem_drawLayers {dst : ℕ} {d : Descriptor} (hedge : scr.edge ≤ maxHeight)
    (hok : r.LayersOk (layerMap 30)) (hclean : r.Clean scr.edge) (hd : d ∈ drawLayers scr dst r)
    {k : ℕ} (hk : k < d.length) :
    d.src + k < layerMap 30 ∧ MapByte (r.canvas.area (d.src + k)) := by
  simp only [drawLayers, List.mem_append, List.mem_flatMap] at hd
  rcases hd with ⟨p, -, hd⟩ | ⟨i, -, hd⟩
  · obtain ⟨srcX, xfrom, xto, i, hle, -, hspan, hi⟩ := mem_slidingWritePixels hd
    have henable := (slidingWritePixels_ne_nil_iff.mp (List.ne_nil_of_mem hd)).1
    obtain ⟨hmap, -, hwidth⟩ := hok.sliding p.1 p.2
    have hcol : ((srcX + k : ℕ) : ℤ) < (r.slidingLayers p.1 p.2).width := by
      rw [hi.length_eq] at hk
      omega
    have hcell := cell_lt_mapBytes hedge hi.lt_edge (Int.ofNat_lt.mp (hcol.trans_le hwidth))
    rw [hi.src_add]
    exact ⟨by omega, hclean.sliding p.1 p.2 henable i hi.lt_edge _ hcol⟩
  · obtain ⟨srcX, xfrom, xto, j, hle, -, hspan, hj⟩ := mem_staticWritePixels hd
    have henable := (staticWritePixels_ne_nil_iff.mp (List.ne_nil_of_mem hd)).1
    obtain ⟨hmap, -, hlen⟩ := hok.static i
    have hcol : ((srcX + k : ℕ) : ℤ) < (r.staticLayers i).validLen := by
      rw [hj.length_eq] at hk
      omega
    have hcell := cell_lt_mapBytes hedge hj.lt_edge (Int.ofNat_lt.mp (hcol.trans_le hlen))
    rw [hj.src_add]
    exact ⟨by omega, hclean.static i henable j hj.lt_edge _ hcol⟩

/-- Steps that leave the layers, the maps and the size alone, and add nothing to be transferred. -/
lemma CleanOk.congr (h : s.CleanOk) (harea : t.AreaOk) (hr : t.renderer = s.renderer)
    (hscr : t.screen = s.screen)
    (hreads : ∀ d ∈ t.renderDma.outstanding ++ t.toDraw,
      d ∈ s.renderDma.outstanding ++ s.toDraw) : t.CleanOk := by
  refine ⟨harea, hr ▸ h.placed, hscr ▸ h.edge, ?_, fun d hd => ?_⟩
  · rw [LayersClean, hr, hscr]
    exact h.clean
  · rw [Sys.area, hr]
    exact h.reads d (hreads d hd)

/-- A submission: a `ClearScreen` reads behind the maps, a row was to be submitted. -/
lemma CleanOk.submit (h : s.CleanOk) {d : Descriptor} (hsub : Submission s d pc)
    (harea : { s with renderDma := s.renderDma.submit d, mainPc := pc }.AreaOk) :
    { s with renderDma := s.renderDma.submit d, mainPc := pc }.CleanOk := by
  refine ⟨harea, h.placed, h.edge, h.clean, ?_⟩
  intro d' hd' hsrc
  simp only [Engine.outstanding_submit, List.append_assoc, List.singleton_append, List.mem_append,
    List.mem_cons] at hd'
  cases hsub with
  | clearing hpc | clear hpc =>
      have hblank := h.area.blank (by simp only [InSubMain, hpc])
      rcases hd' with hd' | rfl | hd'
      · exact h.reads d' (List.mem_append_left _ hd') hsrc
      · exact absurd hsrc (Nat.not_lt.mpr hblank)
      · exact absurd hd' List.not_mem_nil
  | draw hpc =>
      refine h.reads d' ?_ hsrc
      simp only [toDraw, hpc, List.mem_append, List.mem_cons]
      exact hd'

/-- A session begins: `InitBlankScreen` writes behind the maps, and the rows that the layers show
from now on are clean. -/
lemma CleanOk.subMain (h : s.CleanOk) (hpc : s.mainPc = .subMain) (hfit : s.EdgesFit (.main inp))
    (hcov : s.Covered (.main inp)) (harea : (Danmaku.subMain s).AreaOk) :
    (Danmaku.subMain s).CleanOk := by
  rcases subMain_cases s with he | he | ⟨scr, blank, driver, hscr, halloc, hroom, he⟩ <;>
    rw [he] at harea ⊢
  · exact h.congr harea rfl rfl fun d hd => List.mem_append_left _ (by simpa [toDraw] using hd)
  · exact h.congr harea rfl rfl fun d hd => List.mem_append_left _ (by simpa [toDraw] using hd)
  · have hold : ∀ a < layerMap 30, scr.initBlankScreen blank s.area a = s.area a := fun a ha =>
      (scr.initBlankScreen_filled blank s.area).apply_of_outside
        (Or.inl (ha.trans_le (harea.blank trivial)))
    have hexposed := hcov.exposed ⟨inp, rfl⟩ scr ⟨hpc, hscr, blank, driver, halloc, hroom⟩
    have hedge := hfit hpc scr hscr
    refine ⟨harea, h.placed.setArea fun a ha hlt => (hold a hlt).symm ▸ ha, hedge,
      ⟨?_, ?_, h.clean.scratch⟩, ?_⟩
    · intro i j henable row hrow col hcol
      obtain ⟨hmap, -, hwidth⟩ := h.area.layers.sliding i j
      have hcell := cell_lt_mapBytes hedge hrow (Int.ofNat_lt.mp (hcol.trans_le hwidth))
      simp only
      rw [hold _ (by omega)]
      by_cases hnew : row < s.screen.edge
      · exact h.clean.sliding i j henable row hnew col hcol
      · exact hexposed i j henable row (Nat.le_of_not_lt hnew) hrow col hcol
    · intro k _ row hrow col hcol
      obtain ⟨hmap, -, hlen⟩ := h.area.layers.static k
      have hcell := cell_lt_mapBytes hedge hrow (Int.ofNat_lt.mp (hcol.trans_le hlen))
      simp only
      rw [hold _ (by omega)]
      exact h.placed.blank k _ hcell
    · intro d hd hsrc k hk
      have hd : d ∈ s.renderDma.outstanding := by simpa [toDraw] using hd
      obtain ⟨hlt, hbyte⟩ := h.reads d (List.mem_append_left _ hd) hsrc k hk
      refine ⟨hlt, ?_⟩
      show MapByte (scr.initBlankScreen blank s.area (d.src + k))
      rw [hold _ hlt]
      exact hbyte

lemma CleanOk.main (h : s.CleanOk) (hfit : s.EdgesFit (.main inp)) (hcov : s.Covered (.main inp))
    (hmove : MainMove inp s t) : t.CleanOk := by
  have harea := h.area.main hmove
  cases hmove with
  | jump hj =>
      exact h.congr harea rfl rfl fun d hd => (List.mem_append.mp hd).elim (List.mem_append_left _)
        fun hd => List.mem_append_right _ (toDraw_of_jump hj hd)
  | subMain hpc => exact h.subMain hpc hfit hcov harea
  | submit hsub => exact h.submit hsub harea
  | @feed idx r calls hpc hr =>
      have hcovers := hcov.drawn inp rfl ⟨idx, hpc⟩
      have hkeeps : Renderer.Keeps (layerMap 30) s.screen s.renderer r :=
        Renderer.keeps_renderFrame hr
      have hclean : r.Clean s.screen.edge :=
        clean_renderFrame h.edge h.placed h.area.layers h.clean hcovers
          (hcov.held inp rfl ⟨idx, hpc⟩) hr
      refine ⟨harea, h.placed.frame hr, h.edge, hclean, ?_⟩
      intro d hd hsrc k hk
      rcases List.mem_append.mp hd with hd | hd
      · obtain ⟨hlt, hbyte⟩ := h.reads d (List.mem_append_left _ hd) hsrc k hk
        exact ⟨hlt, hkeeps.mapByte _ hbyte⟩
      · exact reads_of_mem_drawLayers h.edge harea.layers hclean hd hk
  | wait hpc => exact h
  | fault | commitFault => exact h.congr harea rfl rfl fun _ hd => hd
  | _ hpc =>
      exact h.congr harea rfl rfl fun d hd => List.mem_append_left _ (by simpa [toDraw] using hd)

/-- A step that meets the condition keeps the layers clean. -/
lemma CleanOk.step (h : s.CleanOk) (hfit : s.EdgesFit a) (hcov : s.Covered a) (hs : Step s a t) :
    t.CleanOk := by
  have harea := h.area.step hs
  cases sysMove_of_step hs with
  | main hmove => exact h.main hfit hcov hmove
  | renderDequeue he =>
      exact h.congr harea rfl rfl fun d hd => by
        rwa [← Engine.dequeue?_outstanding he]
  | renderFinish he =>
      refine h.congr harea rfl rfl fun d hd => ?_
      rw [Engine.finish?_outstanding he, List.cons_append]
      exact List.mem_cons_of_mem _ hd
  | _ => exact h.congr harea rfl rfl fun _ hd => hd

/-- The layers after `RenderOnce` has put in its texts are those of the frame. -/
lemma clean_of_feed {inp : FrameInput} {idx : ℕ} {r : Renderer} {calls : List Call}
    (hclean : t.LayersClean) (hpc : s.mainPc = .feed idx)
    (hr : renderFrame s.screen inp s.renderer = some (r, calls)) (hs : Step s (.main inp) t) :
    r.Clean s.screen.edge := by
  have ht := (mainStep_of_step hs).2
  simp only [mainStep, hpc, hr] at ht
  obtain rfl := Option.some.inj ht
  exact hclean

/-- A step that breaks the condition shows a cell that is not clean. -/
lemma CleanOk.not_clean (h : s.CleanOk) (hfit : s.EdgesFit a) (hbad : ¬ s.Covered a)
    (hs : Step s a t) : ¬ t.LayersClean := by
  intro hclean
  refine hbad ⟨?_, ?_, ?_⟩
  · rintro ⟨inp, rfl⟩ scr ⟨hpc, hscr, blank, driver, halloc, hroom⟩ i j henable row _ hrow col hcol
    obtain ⟨hmap, -, hwidth⟩ := h.area.layers.sliding i j
    have hcell := cell_lt_mapBytes (hfit hpc scr hscr) hrow
      (Int.ofNat_lt.mp (hcol.trans_le hwidth))
    have hblank := h.area.allocated
    rw [← (allocRenderBuf_toNat halloc hroom).1] at hblank
    have ht := (mainStep_of_step hs).2
    rw [mainStep, hpc] at ht
    obtain rfl := Option.some.inj ht
    rw [Danmaku.subMain, hscr] at hclean
    simp only [halloc, if_neg (Nat.not_lt.mpr hroom)] at hclean
    have hshown := hclean.sliding i j henable row hrow col hcol
    simp only at hshown
    rwa [(scr.initBlankScreen_filled blank _).apply_of_outside (Or.inl (by omega))] at hshown
  · rintro inp rfl ⟨idx, hpc⟩
    by_contra hink
    obtain ⟨t', p, hins⟩ : ∃ t p, insertion s.screen inp s.renderer = some (t, p) := by
      simp only [InkCovers, not_forall] at hink
      obtain ⟨t, p, hins, -⟩ := hink
      exact ⟨t, p, hins⟩
    obtain ⟨r, calls, hr⟩ := renderFrame_of_insertion hins
    exact not_clean_renderFrame h.edge h.placed hink hr (clean_of_feed hclean hpc hr hs)
  · rintro inp rfl ⟨idx, hpc⟩
    have hrendered : ∀ r calls, renderFrame s.screen inp s.renderer = some (r, calls) →
        TextsHeld s.screen inp s.renderer := fun r calls hr =>
      ((renderFrame_overrun_iff h.edge hr).mp (clean_of_feed hclean hpc hr hs).scratch).2
    refine ⟨fun t p hins => ?_, fun t htext => ?_⟩
    · obtain ⟨r, calls, hr⟩ := renderFrame_of_insertion hins
      exact (hrendered r calls hr).sliding t p hins
    · obtain ⟨r, calls, hr⟩ := renderFrame_of_staticText s.screen htext
      exact (hrendered r calls hr).static t htext

lemma cleanOk_start (resolution : BitVec 32) (area fb : ℕ → Byte) :
    (start resolution area fb).CleanOk := by
  refine ⟨areaOk_start resolution area fb, mapsPlaced_initRenderer area,
    (by decide : Screen.fullHd.edge ≤ maxHeight), ⟨?_, ?_, rfl⟩, ?_⟩
  · exact fun i j henable => absurd henable (by simp [start, initRenderer])
  · exact fun k henable => absurd henable (by simp [start, initRenderer])
  · exact fun d hd => absurd hd (by simp [start, toDraw])

/-- **When the layers show no control codes**: over any number of sessions and any initial content
of the DMA area, the runs in which every cell that an enabled layer shows is a colour or `PXL_BLANK`
throughout, and no pass leaves `map1`, are exactly those in which each text is drawn, and each row
newly shown, where the map is clean, and no text is too long; and in these no transfer out of a
layer map carries a marker code. -/
theorem layersClean_iff_covered (resolution : BitVec 32) (area fb : ℕ → Byte) (as : List Action)
    (s : Sys) :
    (Run (fun s a t => Guard Step EdgesFit s a t ∧ t.LayersClean) (start resolution area fb) as s
      ↔ Run (Guard (Guard Step EdgesFit) Covered) (start resolution area fb) as s)
    ∧ (Run (Guard (Guard Step EdgesFit) Covered) (start resolution area fb) as s →
      ∀ d ∈ s.renderDma.outstanding, d.src < layerMap 30 → ∀ k < d.length,
        isMarker (s.area (d.src + k)) = false) := by
  have hkeep : ∀ t a u, CleanOk t → t.Covered a → Guard Step EdgesFit t a u → u.CleanOk :=
    fun t a u hI hcov hs => hI.step hs.2 hcov hs.1
  refine ⟨Run.keeps_iff_guard (I := CleanOk) (cleanOk_start resolution area fb) hkeep
    (fun _ h => h.clean) fun t a u hI hbad hs => hI.not_clean hs.2 hbad hs.1, ?_⟩
  intro hrun d hd hsrc k hk
  have hinv : s.CleanOk := hrun.invariant (cleanOk_start resolution area fb)
    fun t a u hI hs => hkeep t a u hI hs.2 hs.1
  exact (hinv.reads d (List.mem_append_left _ hd) hsrc k hk).2.not_marker

/-! ### Clean maps -/

/-- Where all maps are clean, a step whose texts are not too long meets the condition. -/
lemma covered_of_mapByte (h : s.CleanOk) (hmaps : ∀ a < layerMap 30, MapByte (s.area a))
    (hfit : s.EdgesFit a) (hheld : s.HoldsTexts a) : s.Covered a := by
  refine ⟨?_, ?_, hheld⟩
  · rintro - scr ⟨hpc, hscr, -⟩ i j - row - hrow col hcol
    obtain ⟨hmap, -, hwidth⟩ := h.area.layers.sliding i j
    have hcell := cell_lt_mapBytes (hfit hpc scr hscr) hrow
      (Int.ofNat_lt.mp (hcol.trans_le hwidth))
    exact hmaps _ (by omega)
  · rintro inp - - t p - row hrow col - hcol
    have hmap := (h.area.layers.sliding p.1 p.2).map_le
    have hcell := cell_lt_mapBytes h.edge hrow (hcol.trans_le (min_le_right _ _))
    exact Or.inl (hmaps _ (by omega))

/-- Only `RenderOnce` writes to the maps. -/
lemma area_of_step (h : s.AreaOk) (hfeed : ∀ idx, s.mainPc ≠ .feed idx) (hs : Step s a t) {x : ℕ}
    (hx : x < layerMap 30) : t.area x = s.area x := by
  have harea := h.step hs
  cases sysMove_of_step hs with
  | main hmove =>
      cases hmove with
      | subMain hpc =>
          rcases subMain_cases s with he | he | ⟨scr, blank, driver, -, -, -, he⟩ <;>
            rw [he] at harea ⊢
          · rfl
          · rfl
          · exact (scr.initBlankScreen_filled blank s.area).apply_of_outside
              (Or.inl (hx.trans_le (harea.blank trivial)))
      | feed hpc hr => exact absurd hpc (hfeed _)
      | _ => rfl
  | _ => rfl

/-- No step spoils a clean map. -/
lemma mapByte_of_step (h : s.AreaOk) (hs : Step s a t) {x : ℕ} (hx : x < layerMap 30)
    (hbyte : MapByte (s.area x)) : MapByte (t.area x) := by
  by_cases hfeed : ∀ idx, s.mainPc ≠ .feed idx
  · rw [area_of_step h hfeed hs hx]
    exact hbyte
  · simp only [not_forall, not_not] at hfeed
    obtain ⟨idx, hpc⟩ := hfeed
    cases sysMove_of_step hs with
    | main hmove =>
        cases hmove with
        | feed _ hr =>
            have hkeeps : Renderer.Keeps 0 s.screen s.renderer _ := Renderer.keeps_renderFrame hr
            exact hkeeps.mapByte x hbyte
        | subMain hpc' => exact absurd (hpc.symm.trans hpc') (by simp)
        | _ => exact hbyte
    | _ => exact hbyte

/-- **Over clean maps only the lengths of the texts remain of the condition**: had `InitSliding`
blanked its map as `InitStatic` does, no layer would ever show a control code. -/
theorem covered_of_cleanMaps {resolution : BitVec 32} {area fb : ℕ → Byte}
    (hmaps : ∀ a < layerMap 30, MapByte (area a))
    (hrun : Run (Guard (Guard Step EdgesFit) HoldsTexts) (start resolution area fb) as s) :
    Run (Guard (Guard Step EdgesFit) Covered) (start resolution area fb) as s := by
  have hcov : ∀ t a u, (t.CleanOk ∧ ∀ a < layerMap 30, MapByte (t.area a)) →
      Guard (Guard Step EdgesFit) HoldsTexts t a u → t.Covered a := fun t a u hI hs =>
    covered_of_mapByte hI.1 hI.2 hs.1.2 hs.2
  refine (hrun.guard_of_invariant
    (I := fun s => s.CleanOk ∧ ∀ a < layerMap 30, MapByte (s.area a))
    ⟨cleanOk_start resolution area fb, fun a ha => initRenderer_mapByte (hmaps a ha)⟩ hcov
    fun t a u hI hs => ?_).mono fun _ _ _ hs => ⟨hs.1.1, hs.2⟩
  exact ⟨hI.1.step hs.1.2 (hcov t a u hI hs) hs.1.1,
    fun a ha => mapByte_of_step hI.1.area hs.1.1 ha (hI.2 a ha)⟩

/-- The test of `EdgesFit`. -/
def edgesFit (s : Sys) : Bool :=
  match s.mainPc with
  | .subMain => (Screen.ofFrameSize? s.resolution).all fun scr => decide (scr.edge ≤ maxHeight)
  | _ => true

lemma edgesFit_of_test (h : s.edgesFit = true) : s.EdgesFit a := by
  intro hpc scr hscr
  simpa only [edgesFit, hpc, hscr, Option.all_some, decide_eq_true_eq] using h

/-- The test that the character cells fit and no text is too long for those of now. -/
def textsFit (s : Sys) : Bool := s.edgesFit && decide (s.screen.edge ≤ 227)

lemma holdsTexts_of_edge_le (h : s.screen.edge ≤ 227) : s.HoldsTexts a := fun _ _ _ =>
  ⟨fun t _ _ => scratchHolds_of_edge_le h t.strlenUtf8_lt,
    fun t _ => scratchHolds_of_edge_le h t.strlenUtf8_lt⟩

lemma textsFit_spec (h : s.textsFit = true) : s.EdgesFit a ∧ s.HoldsTexts a := by
  rw [textsFit, Bool.and_eq_true, decide_eq_true_eq] at h
  exact ⟨edgesFit_of_test h.1, holdsTexts_of_edge_le h.2⟩

/-- A frame that reads the line `0a`; its text is rendered ten pixels wide, all of them white. -/
def wideFrame : FrameInput :=
  { quietFrame with
    line := some ⟨[0x30#8, 0x61#8, 0x0a#8], by decide⟩
    bitmap := fun _ => ⟨10, 1, fun _ => 255#8⟩ }

/-- A session of 100 by 100 whose first frame inserts the text and submits a row of its layer. -/
theorem layersClean_iff_covered_wide :
    ∃ s as, Run (Guard (Guard Step EdgesFit) Covered)
        (start (sizeRegister 100 100) (fun _ => 0#8) fun _ => 0#8) as s
      ∧ ∃ d ∈ s.renderDma.outstanding, d.src < layerMap 30 ∧ 0 < d.length
        ∧ ∀ k < d.length, isMarker (s.area (d.src + k)) = false := by
  have hexec : ((exec textsFit (start (sizeRegister 100 100) (fun _ => 0#8) fun _ => 0#8)
      (mainSteps 23 ++ [.main wideFrame] ++ mainSteps 2)).map fun s =>
        s.renderDma.outstanding.drop 1) = some [⟨0, 99, 1⟩] := by decide +kernel
  obtain ⟨s, hs, hout⟩ := Option.map_eq_some_iff.mp hexec
  have hrun := covered_of_cleanMaps (fun a _ => Or.inl (by decide))
    ((run_of_exec (fun _ _ => textsFit_spec) hs).mono fun _ _ _ h => ⟨⟨h.1, h.2.1⟩, h.2.2⟩)
  have hd : (⟨0, 99, 1⟩ : Descriptor) ∈ s.renderDma.outstanding :=
    List.mem_of_mem_drop (hout ▸ List.mem_singleton_self _)
  exact ⟨s, _, hrun, _, hd, by decide, by decide,
    (layersClean_iff_covered _ _ _ _ s).2 hrun _ hd (by decide)⟩

/-- The test that the character cells fit and no layer is enabled, before `RenderOnce`. -/
def noLayers (s : Sys) : Bool :=
  s.edgesFit && !(s.mainPc matches .feed _) && slots.all fun p =>
    !(s.renderer.slidingLayers p.1 p.2).enable

lemma covered_of_noLayers (h : s.noLayers = true) :
    s.EdgesFit a ∧ s.Covered a ∧ ∀ idx, s.mainPc ≠ .feed idx := by
  simp only [noLayers, Bool.and_eq_true] at h
  obtain ⟨⟨hfit, hfeed⟩, hall⟩ := h
  have hfeed : ∀ idx, s.mainPc ≠ .feed idx := fun idx hpc => by simp [hpc] at hfeed
  refine ⟨edgesFit_of_test hfit, ⟨?_, fun _ _ ⟨idx, hpc⟩ => absurd hpc (hfeed idx),
    fun _ _ ⟨idx, hpc⟩ => absurd hpc (hfeed idx)⟩, hfeed⟩
  intro _ scr _ i j henable
  have hfree := List.all_eq_true.mp hall (i, j) (by simp [slots])
  simp [henable] at hfree

/-- `main` writes to the static maps only. -/
lemma area_start (resolution : BitVec 32) (area fb : ℕ → Byte) {a : ℕ}
    (ha : a < layerMap (slidingLayerRows * slidingLayerCols)) :
    (start resolution area fb).area a = area a := by
  refine forUpTo_keep (fun m : ℕ → Byte => m a = area a) rfl fun k _ m hm =>
    (fillBlank_area fun i _ j _ => ?_).trans hm
  simp only [layerMap, mapBytes_eq] at ha ⊢
  omega

/-- **A layer shows a control code**: the memory held VSYNC codes when the program started, and the
first text is wider than the columns that are blanked for it. -/
theorem not_layersClean_wide :
    ∃ s, Run (Guard Step EdgesFit) (start (sizeRegister 100 100) (fun _ => pxlVsync) fun _ => 0#8)
        (mainSteps 23 ++ [.main wideFrame]) s ∧ ¬ s.LayersClean := by
  have hexec : ((exec noLayers (start (sizeRegister 100 100) (fun _ => pxlVsync) fun _ => 0#8)
      (mainSteps 23)).map fun s => (s.mainPc matches .feed 0, s.pipe.fault.isNone,
        (insertion s.screen wideFrame s.renderer).any fun q =>
          q.1.strlenUtf8 == 1 && (s.renderer.slidingLayers q.2.1 q.2.2).map == 0,
        s.screen.edge)) = some (true, true, true, 5) := by
    decide +kernel
  obtain ⟨s, hs, hobs⟩ := Option.map_eq_some_iff.mp hexec
  simp only [Prod.mk.injEq, Option.any_eq_true, Bool.and_eq_true, beq_iff_eq] at hobs
  obtain ⟨hpc, hfault, ⟨⟨text, p⟩, hins, hlen, hmap⟩, hedge⟩ := hobs
  have hpc : s.mainPc = .feed 0 := by
    split at hpc
    · assumption
    · exact absurd hpc (by simp)
  have hrun : Run (Guard Step fun s a => s.EdgesFit a ∧ s.Covered a
        ∧ ∀ idx, s.mainPc ≠ .feed idx)
      (start (sizeRegister 100 100) (fun _ => pxlVsync) fun _ => 0#8) (mainSteps 23) s :=
    run_of_exec (fun _ _ => covered_of_noLayers) hs
  obtain ⟨hinv, hbyte⟩ : s.CleanOk ∧ s.area (cell 0 5) = pxlVsync :=
    hrun.invariant (I := fun s => s.CleanOk ∧ s.area (cell 0 5) = pxlVsync)
      ⟨cleanOk_start _ _ _, area_start _ _ _ (by decide)⟩ fun t a u hI hs =>
        ⟨hI.1.step hs.2.1 hs.2.2.1 hs.1,
          (area_of_step hI.1.area hs.2.2.2 hs.1 (by decide)).trans hI.2⟩
  -- columns 5 to 9 of the text are neither blanked nor drawn
  have hbad : ¬ s.Covered (.main wideFrame) := by
    intro hcov
    have hcovers := hcov.drawn wideFrame rfl ⟨0, hpc⟩ text p hins 0 (by omega) 5
      (by rw [hedge, hlen])
      (show 5 < min 10 maxWidth by decide)
    rw [hmap, Nat.zero_add, show s.renderer.canvas.area = s.area from rfl, hbyte] at hcovers
    rcases hcovers with hclean | hink
    · rcases hclean with hcolor | hblank
      · exact absurd hcolor (by decide)
      · exact absurd hblank (by decide)
    · simp [Bitmap.Inked, Bitmap.Glyph, wideFrame] at hink
  obtain ⟨r, calls, hr⟩ := renderFrame_of_insertion hins
  have hstep : Step s (.main wideFrame) { s with
      renderer := r, mainPc := .drawRunning 0 (drawLayers s.screen (buffer 0) r) } := by
    simp [Step, Danmaku.step, mainStep, hpc, hr, Option.isNone_iff_eq_none.mp hfault]
  have hfit : s.EdgesFit (.main wideFrame) := fun h => absurd (hpc.symm.trans h) (by simp)
  exact ⟨_, .snoc (hrun.mono fun _ _ _ h => ⟨h.1, h.2.1⟩) ⟨hstep, hfit⟩,
    hinv.not_clean hfit hbad hstep⟩

end Sys

end Danmaku
