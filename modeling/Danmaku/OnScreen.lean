import Danmaku.Film
import Danmaku.HostPixels

/-!
What the viewer sees.

The overlay hardware mixes the bytes that the overlay DMA hands it with the video. Here the bytes
are composed pictures, one after the other.

* `frameStream`: the pictures as a stream of bytes; `wellFormed_frameStream`: **it is in the format
  that the hardware reads**, if the layer maps are clean.
* `onScreen`: the picture over the video: the colour of the topmost layer, one column to the right
  of where it was drawn, and the video where no layer shows.
* `parked_frames`: a reader that is parked once stays in step with the video.
* `pixelOut_eq_onScreen`: **from the third video frame on the viewer sees one picture after the
  other over the video**.
-/

namespace Danmaku

open MarkedStream DanmakuOverlay Painter

/-- The layers of a renderer show colours only: their maps lie in the area of the layer maps, and
this holds colours and blanks. -/
structure Renderer.Inked (r : Renderer) : Prop where
  layers : r.LayersOk (layerMap 30)
  mapByte : ∀ a < layerMap 30, MapByte (r.canvas.area a)

/-- The pictures of the layers `rs`, byte after byte. -/
def frameStream (scr : Screen) (rs : ℕ → Renderer) (m : ℕ) : Byte :=
  let n := scr.stride * scr.height
  composed scr (rs (m / n)).canvas.area (rs (m / n)) (m % n)

/-- The colour of a byte of a layer map on the screen. -/
def colour (b : Byte) : BitVec 24 :=
  let bit (i : ℕ) : Byte := if b.getLsbD i then 0xff#8 else 0x00#8
  bit 0 ++ bit 1 ++ bit 2

/-- The pixel at row `r`, column `x` of the screen: the colour of the topmost layer at the column
before, else the video. -/
def onScreen (scr : Screen) (rd : Renderer) (video : BitVec 24) (r : ℕ) : ℕ → BitVec 24
  | 0 => video
  | c + 1 => (topmost (frameLayers scr rd.canvas.area rd) (r, c)).elim video colour

lemma onScreen_succ (scr : Screen) (rd : Renderer) (video : BitVec 24) (r c : ℕ) :
    onScreen scr rd video r (c + 1)
      = (topmost (frameLayers scr rd.canvas.area rd) (r, c)).elim video colour := rfl

variable {scr : Screen} {rd : Renderer} {rs : ℕ → Renderer} {b : Byte} {q : ℕ × ℕ} {m r c : ℕ}

/-! ### The stream -/

lemma eq_of_visible (h : visible (rd.canvas.area m) = some b) : rd.canvas.area m = b
    ∧ isTransparent b = false := by
  rw [visible] at h
  split at h
  · exact absurd h (by simp)
  · rename_i hopaque
    obtain rfl := Option.some.inj h
    exact ⟨rfl, by simpa using hopaque⟩

/-- A byte of a clean map that shows is a colour. -/
lemma Renderer.Inked.colour_of_span (h : rd.Inked) (hedge : scr.edge ≤ 148) {map row : ℕ}
    {x width : ℤ} (hmap : map + mapBytes ≤ layerMap 30) (hwidth : width ≤ maxWidth)
    (hb : spanShows scr rd.canvas.area map row x width r c = some b) : b.toNat < 8 := by
  rw [spanShows] at hb
  split at hb
  · obtain ⟨hlow, hhigh, hx, hx'⟩ := ‹_ ∧ _›
    obtain ⟨harea, hopaque⟩ := eq_of_visible hb
    have hcell : cell (r - row) (c - x).toNat < mapBytes := by
      simp only [cell, maxWidth, mapBytes_eq] at *
      omega
    rcases harea ▸ h.mapByte _ (show map + cell (r - row) (c - x).toNat < layerMap 30 by omega)
      with hcolour | rfl
    · exact hcolour
    · exact absurd hopaque (by decide)
  · exact absurd hb (by simp)

/-- What is seen of the layers is a colour. -/
lemma Renderer.Inked.colour_of_topmost (h : rd.Inked) (hedge : scr.edge ≤ 148)
    (hb : topmost (frameLayers scr rd.canvas.area rd) q = some b) : b.toNat < 8 := by
  obtain ⟨l, hl, hlb⟩ := exists_of_topmost hb
  simp only [frameLayers, List.mem_append, List.mem_map] at hl
  rcases hl with ⟨p, -, rfl⟩ | ⟨i, -, rfl⟩
  · simp only [slidingShows] at hlb
    split at hlb
    · exact h.colour_of_span hedge (h.layers.sliding p.1 p.2).map_le
        (h.layers.sliding p.1 p.2).width_le hlb
    · exact absurd hlb (by simp)
  · simp only [staticShows] at hlb
    split at hlb
    · exact h.colour_of_span hedge (h.layers.static i).map_le (h.layers.static i).validLen_le hlb
    · exact absurd hlb (by simp)

/-- A byte of the stream lies in a row of a picture. -/
lemma frameStream_apply (k : ℕ) (hr : r < scr.height) (hc : c < scr.stride) :
    frameStream scr rs (scr.height * k * scr.stride + (r * scr.stride + c))
      = composed scr (rs k).canvas.area (rs k) (r * scr.stride + c) := by
  have hlt : r * scr.stride + c < scr.stride * scr.height := by
    have hrow := Nat.mul_le_mul_left scr.stride hr
    rw [Nat.mul_succ, Nat.mul_comm] at hrow
    omega
  have hpos : scr.height * k * scr.stride + (r * scr.stride + c)
      = scr.stride * scr.height * k + (r * scr.stride + c) := by ring
  rw [hpos, frameStream, Nat.mul_add_div (by omega), Nat.mul_add_mod, Nat.div_eq_of_lt hlt,
    Nat.mod_eq_of_lt hlt, Nat.add_zero]

/-- The markers of a picture. -/
lemma blankByte_marker (hr : r < scr.height) (hc : scr.width ≤ c) (hc' : c < scr.stride) :
    scr.blankByte (r * scr.stride + c) = if r + 1 = scr.height then pxlVsync else pxlHsync := by
  rw [Screen.blankByte, scr.mul_stride_add_mod r hc', if_neg (by omega)]
  have hstride : scr.stride = scr.width + 2 := rfl
  by_cases hlast : r + 1 = scr.height
  · have hend : scr.stride * scr.height = r * scr.stride + scr.stride := by
      rw [← hlast]
      ring
    rw [if_pos hlast, if_neg (by omega)]
  · have hend : (r + 2) * scr.stride ≤ scr.height * scr.stride :=
      Nat.mul_le_mul_right _ (by omega)
    rw [Nat.add_mul, Nat.mul_comm scr.height] at hend
    rw [if_neg hlast, if_pos (by omega)]

/-- **The pictures are in the format that the hardware reads.** -/
theorem wellFormed_frameStream (hedge : scr.edge ≤ 148) (hrs : ∀ k, (rs k).Inked) :
    WellFormed scr.width scr.height (frameStream scr rs) := by
  intro m
  have hh : 0 < scr.height := by
    have := scr.le_height
    omega
  have hs : 0 < scr.stride := Nat.succ_pos _
  -- byte `m` is byte `c` of row `r` of picture `k`
  obtain ⟨k, r, c, hr, hc, rfl⟩ : ∃ k r c, r < scr.height ∧ c < scr.stride
      ∧ m = scr.height * k * scr.stride + (r * scr.stride + c) := by
    refine ⟨m / scr.stride / scr.height, m / scr.stride % scr.height, m % scr.stride,
      Nat.mod_lt _ hh, Nat.mod_lt _ hs, ?_⟩
    calc m = m / scr.stride * scr.stride + m % scr.stride := (Nat.div_add_mod' m _).symm
      _ = (scr.height * (m / scr.stride / scr.height) + m / scr.stride % scr.height) * scr.stride
            + m % scr.stride := by rw [Nat.div_add_mod]
      _ = _ := by ring
  have hmod : (scr.height * k * scr.stride + (r * scr.stride + c)) % scr.stride = c := by
    rw [← Nat.add_assoc, ← Nat.add_mul, scr.mul_stride_add_mod _ hc]
  have hdiv : (scr.height * k * scr.stride + (r * scr.stride + c)) / scr.stride
      = scr.height * k + r := by
    rw [← Nat.add_assoc, ← Nat.add_mul, Nat.add_comm, Nat.add_mul_div_right _ _ hs,
      Nat.div_eq_of_lt hc, Nat.zero_add]
  rw [show scr.width + 2 = scr.stride from rfl, hmod, hdiv, frameStream_apply k hr hc]
  by_cases hcol : c < scr.width
  · rw [if_pos hcol, composed_pixel scr _ _ r hcol]
    cases htop : topmost (frameLayers scr (rs k).canvas.area (rs k)) (r, c) with
    | none => decide
    | some b => exact MapByte.not_marker (Or.inl ((hrs k).colour_of_topmost hedge htop))
  · rw [if_neg hcol, composed, scr.mul_stride_add_mod r hc, if_neg hcol,
      blankByte_marker hr (by omega) hc]
    refine if_congr ?_ rfl rfl
    rw [Nat.add_assoc, Nat.dvd_add_right (Nat.dvd_mul_right scr.height k)]
    constructor
    · intro hlast
      rw [hlast]
    · intro hdvd
      have := Nat.le_of_dvd (Nat.succ_pos r) hdvd
      omega

/-! ### The mixer -/

/-- A colour covers the video. -/
lemma colorMapper_colour (b : Byte) (h : b.toNat < 8) :
    (colorMapper (b.extractLsb' 0 4)).getLsbD 7 = true
      ∧ syncWaitH (colorMapper (b.extractLsb' 0 4)) = false
      ∧ syncWaitV (colorMapper (b.extractLsb' 0 4)) = false
      ∧ (colorMapper (b.extractLsb' 0 4)).extractLsb' 8 24 = colour b := by
  revert b
  decide

/-- Three bytes of a pixel put together again. -/
lemma pixel_split (p : BitVec 24) :
    p.extractLsb' 16 8 ++ p.extractLsb' 8 8 ++ p.extractLsb' 0 8 = p := by
  rw [BitVec.extractLsb'_append_extractLsb'_eq_extractLsb' (show 16 = 8 + 8 from rfl),
    BitVec.extractLsb'_append_extractLsb'_eq_extractLsb' (show 8 = 0 + 8 from rfl)]
  exact BitVec.extractLsb'_eq_self

variable {s : DanmakuOverlay} {inp : OverlayIn}

/-- The video passes where the FIFO data is a marker. -/
lemma pixelOut_of_marker (hdebug : inp.noDebug = true) (h : kindOf s.pixelSink ≠ .data) :
    s.pixelOut inp = s.pixelOrig := by
  have hwait : (syncWaitH s.pixelSink || syncWaitV s.pixelSink) = true := by
    rw [kindOf] at h
    cases hH : syncWaitH s.pixelSink <;> cases hV : syncWaitV s.pixelSink <;> simp_all
  simp only [pixelOut, hwait, hdebug, Bool.not_true, Bool.and_false, Bool.true_or, Bool.or_true,
    if_true, Bool.false_eq_true, if_false]
  exact pixel_split _

/-- The video passes where the FIFO data is the clear code. -/
lemma pixelOut_of_clear (hdebug : inp.noDebug = true)
    (h : s.pixelSink = colorMapper (Screen.clearCode.extractLsb' 0 4)) :
    s.pixelOut inp = s.pixelOrig := by
  have hclear : colorMapper (Screen.clearCode.extractLsb' 0 4) = 0#32 := by decide
  have hwait : (syncWaitH 0#32 || syncWaitV 0#32) = false := by decide
  simp only [pixelOut, h, hclear, hwait, hdebug, Bool.not_true, Bool.and_false]
  rw [if_pos (by simp)]
  exact pixel_split _

/-- A colour is shown. -/
lemma pixelOut_of_colour (hon : inp.overlayEn = true) (hb : b.toNat < 8)
    (h : s.pixelSink = colorMapper (b.extractLsb' 0 4)) : s.pixelOut inp = colour b := by
  obtain ⟨h7, hH, hV, hcolour⟩ := colorMapper_colour b hb
  simp only [pixelOut, h, h7, hH, hV, hon]
  exact hcolour

/-! ### The screen -/

section Video

variable {w h k n : ℕ} {row : ℕ → ℕ} {hLevel vLevel : Bool} {ins : ℕ → OverlayIn}
  {stream : ℕ → Byte} {s₀ : DanmakuOverlay}

/-- A reader that is parked when a video frame begins keeps step with the video: in each later
frame it reads the next frame of the stream. -/
lemma parked_frames (hw : 3 ≤ w) (hh : 1 ≤ h) (hs : WellFormed w h stream)
    (hv : VideoTiming w h row hLevel vLevel ins) (hempty : ∀ t, (ins t).fifoRdEmpty = false)
    (hset : Settled stream ins hLevel vLevel s₀)
    (hp : Parked w h (run stream ins s₀ (row ((n + 1) * h))).reader (h * k)) (i : ℕ) :
    Parked w h (run stream ins s₀ (row ((n + i + 1) * h))).reader (h * (k + i)) := by
  induction i with
  | zero => exact hp
  | succ i ih =>
      have hX : (run stream ins s₀ (row ((n + i + 1) * h))).counter.nowX = 0#16 := by
        obtain ⟨j, hj⟩ : ∃ j, (n + i + 1) * h = j + 1 :=
          ⟨(n + i + 1) * h - 1, by rw [Nat.succ_mul]; omega⟩
        rw [hj]
        exact hv.nowX_start hset j
      have hnext := (parked_rows hw hs hv hempty hset hX (hv.nowPxl_start (by omega) hh _) ih
        le_rfl).1
      rw [show (n + (i + 1) + 1) * h = (n + i + 1) * h + h by ring,
        show h * (k + (i + 1)) = h * (k + i) + h by ring]
      exact hnext

/-- In its second frame the overlay finds the end of a frame of the stream. -/
lemma exists_parked (hw : 100 ≤ w) (hh : 1 ≤ h) (hsize : w * h ≤ 2 ^ 32 + 1)
    (hs : WellFormed w h stream) (hv : VideoTiming w h row hLevel vLevel ins)
    (hempty : ∀ t, (ins t).fifoRdEmpty = false) (hset : Settled stream ins hLevel vLevel s₀) :
    ∃ k, Parked w h (run stream ins s₀ (row ((1 + 1) * h))).reader (h * k) := by
  have hX : ∀ j, 1 ≤ j → (run stream ins s₀ (row j)).counter.nowX = 0#16 := by
    intro j hj
    obtain ⟨j, rfl⟩ : ∃ j', j = j' + 1 := ⟨j - 1, by omega⟩
    exact hv.nowX_start hset j
  have hPxl : (run stream ins s₀ (row (1 * h))).counter.nowPxl = 0#32 :=
    hv.nowPxl_start (by omega) hh 0
  have hwindow : ∀ c, c = 1 ∨ c = 2 →
      (run stream ins s₀ (row (1 * h) + c)).frameWindow (ins (row (1 * h) + c)).de = true := by
    intro c hc
    have hopen := hv.frameWindow_row (r := 0) (c := c) hset hPxl hh (by omega)
    rw [Nat.add_zero] at hopen
    rw [hopen, Nat.zero_mul, Nat.zero_add, decide_eq_true_iff, Nat.mod_eq_of_lt (by omega)]
    omega
  obtain ⟨q, ⟨k, rfl⟩, hpark⟩ := capture (R := row) (1 * h) (reader_follows hs hempty s₀)
    (by omega) hh (fun j _ _ => hv.hblank j)
    (fun j hj _ => (hv.rowWindow_row hset (hX j (by omega)) (by omega)).2)
    ⟨hwindow 1 (Or.inl rfl), hwindow 2 (Or.inr rfl)⟩
    (fun t h1 h2 => frameWindow_closed (by omega) hsize hv hset hPxl h1 (by rwa [Nat.succ_mul]))
  rw [← Nat.succ_mul] at hpark
  exact ⟨k, hpark⟩

/-- **The viewer sees one picture after the other over the video.** The size fits, the layer maps
are clean, the video is steady and its sync polarity settled from the first clock on, the overlay is
enabled, the debugging colours are off, and the FIFO is never empty; the other registers may hold
anything. Then from the third video frame on each one shows the next picture: the colour of the
topmost layer one column to the right of where it was drawn, and the video where no layer shows and
in column 0. -/
theorem pixelOut_eq_onScreen (hfit : scr.Fits) (hrs : ∀ k, (rs k).Inked)
    (hv : SteadyVideo scr.width scr.height row hLevel vLevel ins)
    (hempty : ∀ t, (ins t).fifoRdEmpty = false)
    (hon : ∀ t, (ins t).overlayEn = true ∧ (ins t).noDebug = true)
    (hset : Settled (frameStream scr rs) ins hLevel vLevel s₀) :
    ∃ k, ∀ i, ∀ r < scr.height, ∀ x < scr.width,
      let t := row ((i + 2) * scr.height + r) + x
      (run (frameStream scr rs) ins s₀ (t + 2)).syncO = ((ins t).vsync, (ins t).hsync, (ins t).de)
        ∧ (run (frameStream scr rs) ins s₀ (t + 2)).pixelOut (ins (t + 2))
          = onScreen scr (rs (k + i)) (ins t).pixel r x := by
  have hw := scr.le_width
  have hh := scr.le_height
  have hsize : scr.width * scr.height ≤ 2 ^ 32 + 1 := by
    have hbuf := hfit.1
    have hle : scr.width * scr.height ≤ scr.stride * scr.height :=
      Nat.mul_le_mul_right _ (Nat.le_add_right _ 2)
    rw [frameBufferSize_eq] at hbuf
    omega
  have hs := wellFormed_frameStream hfit.edge_le hrs
  obtain ⟨k, hpark⟩ := exists_parked hw (by omega) hsize hs hv.timing hempty hset
  refine ⟨k, fun i r hr x hx => ⟨rfl, ?_⟩⟩
  have hp := parked_frames (by omega) (by omega) hs hv.timing hempty hset hpark i
  obtain ⟨hmarker, hshows⟩ := hostPixels_shifted hw (by omega) hs hv.timing hempty hset hp hr
  rw [show 1 + i + 1 = i + 2 by omega] at hmarker hshows
  obtain ⟨hen, hdebug⟩ := hon (row ((i + 2) * scr.height + r) + x + 2)
  cases x with
  | zero => exact pixelOut_of_marker hdebug hmarker
  | succ c =>
      obtain ⟨-, hsink⟩ := hshows c (by omega)
      rw [show scr.width + 2 = scr.stride from rfl,
        frameStream_apply (k + i) hr (by simp only [Screen.stride]; omega),
        composed_pixel scr _ _ r (by omega)] at hsink
      rw [onScreen_succ]
      cases htop : topmost (frameLayers scr (rs (k + i)).canvas.area (rs (k + i))) (r, c) with
      | none =>
          rw [htop] at hsink
          exact pixelOut_of_clear hdebug hsink
      | some b =>
          rw [htop] at hsink
          exact pixelOut_of_colour hen ((hrs (k + i)).colour_of_topmost hfit.edge_le htop) hsink

end Video

/-- Layers ten pixels wide at the left border, in the colour 3. -/
def leftLayers : Renderer :=
  { initRenderer fun _ => 3#8 with
    slidingLayers := fun i j => ⟨0, i, 10, 1, true, layerMap (slidingLayerCols * i + j)⟩
    canvas := ⟨fun _ => 3#8, fun _ => 0#8, false⟩ }

/-- They show colours. -/
lemma leftLayers_inked : leftLayers.Inked := by
  have hok := layersOk_initRenderer fun _ => 3#8
  refine ⟨⟨fun i j => ?_, hok.static⟩,
    fun _ _ => Or.inl (show (3#8).toNat < 8 by decide)⟩
  exact ⟨(hok.sliding i j).map_le, Int.natCast_nonneg 10, show (10 : ℤ) ≤ maxWidth by decide⟩

/-- The same layers in each frame, over a plain video of 100 by 100: row 7 shows them in columns 1
to 10. -/
theorem pixelOut_eq_onScreen_left :
    (∀ video, onScreen Sys.smallScreen leftLayers video 7 10 = 0xffff00#24
      ∧ onScreen Sys.smallScreen leftLayers video 7 11 = video)
    ∧ ∀ i, ∀ r < Sys.smallScreen.height, ∀ x < Sys.smallScreen.width,
      let t := plainRow 100 100 ((i + 2) * Sys.smallScreen.height + r) + x
      let s := run (frameStream Sys.smallScreen fun _ => leftLayers) (plainVideo 100 100)
        (cleared 0 0#32) (t + 2)
      s.syncO = ((plainVideo 100 100 t).vsync, (plainVideo 100 100 t).hsync,
          (plainVideo 100 100 t).de)
        ∧ s.pixelOut (plainVideo 100 100 (t + 2))
          = onScreen Sys.smallScreen leftLayers (plainVideo 100 100 t).pixel r x := by
  refine ⟨fun video => ⟨?_, ?_⟩, ?_⟩
  · have htop : topmost (frameLayers Sys.smallScreen leftLayers.canvas.area leftLayers) (7, 9)
        = some 3#8 := by decide +kernel
    rw [show 10 = 9 + 1 from rfl, onScreen_succ, htop, Option.elim_some]
    decide
  · have htop : topmost (frameLayers Sys.smallScreen leftLayers.canvas.area leftLayers) (7, 10)
        = none := by decide +kernel
    rw [show 11 = 10 + 1 from rfl, onScreen_succ, htop, Option.elim_none]
  · have hv : SteadyVideo Sys.smallScreen.width Sys.smallScreen.height (plainRow 100 100) false
        false (plainVideo 100 100) := steadyVideo_plain 100 (by decide)
    obtain ⟨-, h⟩ := pixelOut_eq_onScreen (by decide)
      (fun _ => leftLayers_inked) hv (fun _ => rfl) (fun _ => ⟨rfl, rfl⟩)
      (settled_cleared 100 _ 0 0#32)
    exact h

end Danmaku
