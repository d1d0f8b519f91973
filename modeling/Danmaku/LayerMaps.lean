import Danmaku.Insertion

/-!
Where the layer maps lie and what a frame does to them.

* `Renderer.LayersOk bound`: every layer map ends below `bound`, and no layer is wider than
  `MAX_WIDTH`.
* `Renderer.Keeps`, `keeps_renderFrame`: **what a frame does to the maps**: it keeps them in
  place, writes nothing from `bound` on, in particular not into `blank_screen`, and draws no
  marker codes.
-/

namespace Danmaku

open CountedLoop

/-- A sliding layer whose map ends below `bound` and whose text fits its map. -/
structure SlidingLayer.Ok (bound : ℕ) (s : SlidingLayer) : Prop where
  map_le : s.map + mapBytes ≤ bound
  width_nonneg : 0 ≤ s.width
  width_le : s.width ≤ maxWidth

/-- The same for a static layer. -/
structure StaticLayer.Ok (bound : ℕ) (s : StaticLayer) : Prop where
  map_le : s.map + mapBytes ≤ bound
  validLen_nonneg : 0 ≤ s.validLen
  validLen_le : s.validLen ≤ maxWidth

/-- The layer maps end below `bound`, and no layer is wider than `MAX_WIDTH`. -/
structure Renderer.LayersOk (bound : ℕ) (r : Renderer) : Prop where
  sliding : ∀ i j, (r.slidingLayers i j).Ok bound
  static : ∀ i, (r.staticLayers i).Ok bound

variable {scr : Screen} {inp : FrameInput} {r r' : Renderer} {calls : List Call} {bound a : ℕ}

lemma SlidingLayer.Ok.next {s : SlidingLayer} (h : s.Ok bound) : (slidingNextCycle s).Ok bound := by
  rw [slidingNextCycle]
  split
  · exact h
  · simp only
    split <;> exact ⟨h.map_le, h.width_nonneg, h.width_le⟩

lemma StaticLayer.Ok.next {s : StaticLayer} (h : s.Ok bound) : (staticNextCycle s).Ok bound := by
  rw [staticNextCycle]
  split
  · simp only
    split <;> exact ⟨h.map_le, h.validLen_nonneg, h.validLen_le⟩
  · exact h

/-- Drawing a text writes into the layer's own map. -/
lemma writeFontMap_area_of_le {map len rand : ℕ} {b : Bitmap} {c : Canvas} (hedge : scr.edge ≤ 227)
    (hlen : len < maxTextLen) (hmap : map + mapBytes ≤ a) :
    (writeFontMap scr.edge map len rand b c).1.area a = c.area a :=
  writeFontMap_area_of_outside fun i hi j hj => by
    have := cell_lt hedge hi hlen hj
    omega

lemma SlidingLayer.Ok.insertedLayer {s : SlidingLayer} {w : ℕ} (h : s.Ok bound)
    (hw : w ≤ maxWidth) : (insertedLayer scr w s).Ok bound :=
  ⟨h.map_le, Int.natCast_nonneg w, Int.ofNat_le.mpr hw⟩

lemma StaticLayer.Ok.set {s : StaticLayer} {len rand : ℕ} {b : Bitmap} {c : Canvas}
    (h : s.Ok bound) : (forceStaticSetDanmu scr s len rand b c).1.Ok bound
      ∧ (scr.edge ≤ 227 → len < maxTextLen → ∀ a, bound ≤ a →
        (forceStaticSetDanmu scr s len rand b c).2.area a = c.area a) := by
  refine ⟨⟨h.map_le, Int.natCast_nonneg _, ?_⟩, ?_⟩
  · exact Int.ofNat_le.mpr writeFontMap_outWidth_le
  · intro hedge hlen a ha
    exact writeFontMap_area_of_le hedge hlen (h.map_le.trans ha)

namespace Renderer

/-- Writing to the DMA area leaves the layers as they are. -/
lemma LayersOk.setArea (h : r.LayersOk bound) (area : ℕ → Byte) :
    { r with canvas := { r.canvas with area := area } }.LayersOk bound :=
  ⟨h.sliding, h.static⟩

/-- The layers and the DMA area before and after a phase of a frame: the layers stay in their maps,
the memory from `bound` on stays as it is, and the maps are drawn in colours and `PXL_BLANK`. -/
structure Keeps (bound : ℕ) (scr : Screen) (r r' : Renderer) : Prop where
  layers : r.LayersOk bound → r'.LayersOk bound
  area : r.LayersOk bound → scr.edge ≤ 227 → ∀ a, bound ≤ a → r'.canvas.area a = r.canvas.area a
  mapByte : ∀ a, MapByte (r.canvas.area a) → MapByte (r'.canvas.area a)

lemma Keeps.trans {r'' : Renderer} (h : Keeps bound scr r r') (h' : Keeps bound scr r' r'') :
    Keeps bound scr r r'' :=
  ⟨fun hok => h'.layers (h.layers hok),
    fun hok hedge a ha => (h'.area (h.layers hok) hedge a ha).trans (h.area hok hedge a ha),
    fun a ha => h'.mapByte a (h.mapByte a ha)⟩

lemma keeps_of_eq (hs : r'.slidingLayers = r.slidingLayers) (ht : r'.staticLayers = r.staticLayers)
    (hc : r'.canvas = r.canvas) : Keeps bound scr r r' :=
  ⟨fun hok => ⟨by rw [hs]; exact hok.sliding, by rw [ht]; exact hok.static⟩,
    fun _ _ a _ => by rw [hc], fun a ha => by rw [hc]; exact ha⟩

lemma keeps_readLine (h : readLine inp r = some (r', calls)) : Keeps bound scr r r' := by
  obtain ⟨hs, ht, hc, -⟩ := readLine_layers h
  exact keeps_of_eq hs ht hc

lemma keeps_feedSliding (h : feedSliding scr inp r = some (r', calls)) : Keeps bound scr r r' := by
  rcases feedSliding_cases h with ⟨-, rfl, -⟩ | ⟨t, p, -, -, hs, ht, hc, -⟩
  · exact keeps_of_eq rfl rfl rfl
  · refine ⟨fun hok => ⟨fun i j => ?_, by rw [ht]; exact hok.static⟩, ?_, ?_⟩
    · rw [hs]
      exact forall_insertAt ((hok.sliding p.1 p.2).insertedLayer (min_le_right _ _)) hok.sliding i j
    · intro hok hedge a ha
      rw [hc]
      exact writeFontMap_area_of_le hedge t.strlenUtf8_lt ((hok.sliding p.1 p.2).map_le.trans ha)
    · intro a ha
      rw [hc]
      exact writeFontMap_mapByte ha

lemma keeps_insertStatic {t : Text} : Keeps bound scr r (insertStatic scr inp t r) := by
  simp only [insertStatic]
  refine ⟨fun hok => ⟨hok.sliding, ?_⟩, ?_,
    fun a ha => writeFontMap_mapByte ha⟩
  · intro i
    simp only [Function.update_apply]
    split
    · exact (hok.static _).set.1
    · exact hok.static i
  · intro hok hedge a ha
    exact (hok.static _).set.2 hedge t.strlenUtf8_lt a ha

lemma keeps_feedStatic : Keeps bound scr r (feedStatic scr inp r).1 := by
  rw [feedStatic]
  split
  · exact keeps_of_eq rfl rfl rfl
  · exact Keeps.trans keeps_insertStatic (keeps_of_eq rfl rfl rfl)

lemma keeps_nextCycle : Keeps bound scr r (nextCycle r) :=
  ⟨fun hok => ⟨fun i j => (hok.sliding i j).next, fun i => (hok.static i).next⟩,
    fun _ _ _ _ => rfl, fun _ ha => ha⟩

/-- **A frame keeps the layers in their maps**, the memory behind the maps as it is, and the maps
free of marker codes. -/
theorem keeps_renderFrame (h : renderFrame scr inp r = some (r', calls)) :
    Keeps bound scr r r' := by
  obtain ⟨r₁, read, r₂, slid, h₁, h₂, rfl, -⟩ := renderFrame_eq_some_iff.mp h
  exact (((keeps_readLine h₁).trans (keeps_feedSliding h₂)).trans keeps_feedStatic).trans
    keeps_nextCycle

end Renderer

/-- The initialisation spoils no clean byte. -/
lemma initRenderer_mapByte {area : ℕ → Byte} (h : MapByte (area a)) :
    MapByte ((initRenderer area).canvas.area a) :=
  forUpTo_keep (fun m : ℕ → Byte => MapByte (m a)) h fun _ _ _ hm => hm.fillBlank

/-- The layers that `main` sets up are in their maps. -/
lemma layersOk_initRenderer (area : ℕ → Byte) : (initRenderer area).LayersOk (layerMap 30) := by
  refine ⟨fun i j => ⟨?_, le_rfl, by simp [initRenderer]⟩,
    fun i => ⟨?_, le_rfl, by simp [initRenderer]⟩⟩
  · have hi := i.isLt
    have hj := j.isLt
    simp only [initRenderer, layerMap, mapBytes_eq, slidingLayerRows, slidingLayerCols] at *
    omega
  · have hi := i.isLt
    simp only [initRenderer, layerMap, mapBytes_eq, slidingLayerRows, slidingLayerCols,
      numStaticLayer] at *
    omega

end Danmaku
