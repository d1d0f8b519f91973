import Danmaku.SlidingProgress
import Danmaku.SlidingCycle
import Danmaku.CleanMaps
import Danmaku.Delivery

/-!
The life of a comment, from the sliding queue until it has left the screen.

* `Renderer.Placed`: the layer maps are where `main` has put them.
* `frame_of_enable`: a frame moves an enabled layer on and leaves its map alone, whatever else it
  inserts and draws; `frames_of_enable`: so do the frames until the layer is free.
* `nth_inserted`: the waiting texts are inserted in turn, each one in time.
* `sliding_text_lives`: **every waiting comment is shown in time, and as it was drawn until it has
  left the screen**.
-/

namespace Danmaku

/-- The layer maps are where `main` has put them. -/
structure Renderer.Placed (r : Renderer) : Prop where
  sliding : ∀ i j, (r.slidingLayers i j).map = layerMap (slidingLayerCols * i + j)
  static : ∀ k, (r.staticLayers k).map = layerMap (slidingLayerRows * slidingLayerCols + k)

variable {scr : Screen} {inp : FrameInput} {r r₁ r' : Renderer} {calls calls₁ : List Call}
  {t : Text} {n : ℕ} {p : Fin slidingLayerRows × Fin slidingLayerCols}
  {frames rest : List (Screen × FrameInput)}

/-! ### Runs -/

/-- A run in two parts. -/
lemma renderFrames_append :
    renderFrames (frames ++ rest) r = some (r', calls) ↔ ∃ r₁ calls₁ calls₂,
      renderFrames frames r = some (r₁, calls₁) ∧ renderFrames rest r₁ = some (r', calls₂)
        ∧ calls = calls₁ ++ calls₂ := by
  induction frames generalizing r r' calls with
  | nil => simp [renderFrames]
  | cons f frames ih =>
      obtain ⟨scr, inp⟩ := f
      simp only [List.cons_append, renderFrames, Option.bind_eq_bind, Option.bind_eq_some_iff,
        Option.pure_def, Option.some.injEq, Prod.mk.injEq, Prod.exists, ih]
      constructor
      · rintro ⟨r₀, c₀, h₀, r₂, c₂, ⟨r₁, c₁, c₃, h₁, h₂, rfl⟩, rfl, rfl⟩
        exact ⟨r₁, c₀ ++ c₁, c₃, ⟨r₀, c₀, h₀, r₁, c₁, h₁, rfl, rfl⟩, h₂, by simp⟩
      · rintro ⟨r₁, c₁, c₃, ⟨r₀, c₀, h₀, r₂, c₂, h₁, rfl, rfl⟩, h₂, rfl⟩
        exact ⟨r₀, c₀, h₀, r', c₂ ++ c₃, ⟨r₂, c₂, c₃, h₁, h₂, rfl⟩, rfl, by simp⟩

/-! ### The maps -/

lemma Renderer.Placed.frame (h : r.Placed) (hr : renderFrame scr inp r = some (r', calls)) :
    r'.Placed := by
  obtain ⟨c, hsliding, hstatic, -⟩ := renderFrame_insertion hr
  refine ⟨fun i j => ?_, fun k => (hstatic k).trans (h.static k)⟩
  rw [← h.sliding i j]
  rcases hsliding with ⟨-, -, -, hs⟩ | ⟨t, p, -, -, -, hs⟩ <;> simp [hs]

lemma Renderer.Reachable.placed (h : r.Reachable) : r.Placed := by
  induction h with
  | start area => exact ⟨fun _ _ => rfl, fun _ => rfl⟩
  | frame h hr ih => exact ih.frame hr
  | session h area ih => exact ⟨ih.sliding, ih.static⟩

/-- Drawing into one layer map leaves the others alone. -/
lemma writeFontMap_area_of_ne {edge k k' a len rand : ℕ} {b : Bitmap} {c : Canvas}
    (hedge : edge ≤ 227) (hlen : len < maxTextLen) (hk : k ≠ k') (ha : a < mapBytes) :
    (writeFontMap edge (layerMap k) len rand b c).1.area (layerMap k' + a)
      = c.area (layerMap k' + a) := by
  refine writeFontMap_area_of_outside fun i hi j hj heq => ?_
  have hcell := cell_lt hedge hi hlen hj
  simp only [layerMap, mapBytes_eq] at heq hcell ha
  omega

/-- Drawing a static text leaves the maps of the sliding layers alone. -/
lemma Renderer.Placed.static_area (h : r.Placed) {k : Fin numStaticLayer} {len rand a : ℕ}
    {b : Bitmap} {c : Canvas} (ha : a < mapBytes) :
    (writeFontMap scr.edge (r.staticLayers k).map len rand b c).1.area
        ((r.slidingLayers p.1 p.2).map + a)
      = c.area ((r.slidingLayers p.1 p.2).map + a) := by
  refine writeFontMap_area_of_outside fun i _ j _ heq => ?_
  have h1 := p.1.isLt
  have h2 := p.2.isLt
  simp only [h.sliding, h.static, layerMap, mapBytes_eq, slidingLayerRows, slidingLayerCols]
    at heq h1 h2 ha
  omega

/-- The places of two layers are those of two maps. -/
lemma layer_ne {q : Fin slidingLayerRows × Fin slidingLayerCols} (h : q ≠ p) :
    slidingLayerCols * (q.1 : ℕ) + q.2 ≠ slidingLayerCols * (p.1 : ℕ) + p.2 := by
  intro heq
  have h1 := q.2.isLt
  have h2 := p.2.isLt
  simp only [slidingLayerCols] at heq h1 h2
  refine h (Prod.ext (Fin.ext ?_) (Fin.ext ?_)) <;> omega

/-- **A frame moves an enabled layer on and leaves its map alone**, whatever it inserts
elsewhere. -/
lemma frame_of_enable (hplaced : r.Placed) (hedge : scr.edge ≤ 227)
    (hr : renderFrame scr inp r = some (r', calls))
    (he : (r.slidingLayers p.1 p.2).enable = true) :
    r'.slidingLayers p.1 p.2 = slidingNextCycle (r.slidingLayers p.1 p.2)
      ∧ ∀ a < mapBytes, r'.canvas.area ((r.slidingLayers p.1 p.2).map + a)
        = r.canvas.area ((r.slidingLayers p.1 p.2).map + a) := by
  obtain ⟨c, hsliding, -, hcanvas⟩ := renderFrame_insertion hr
  have hlast : ∀ a < mapBytes, r'.canvas.area ((r.slidingLayers p.1 p.2).map + a)
      = c.area ((r.slidingLayers p.1 p.2).map + a) := by
    intro a ha
    rcases hcanvas with ⟨-, hc⟩ | ⟨t, k, -, hc⟩ <;> rw [hc]
    exact hplaced.static_area ha
  rcases hsliding with ⟨-, -, rfl, hs⟩ | ⟨t, q, hins, -, rfl, hs⟩
  · exact ⟨by rw [hs], hlast⟩
  · -- the inserted layer was free
    have hq : q ≠ p := by
      rintro rfl
      rw [(insertion_spec hins).1] at he
      exact absurd he (by simp)
    refine ⟨by simp only [hs, insertAt_of_ne (Ne.symm hq)], fun a ha => (hlast a ha).trans ?_⟩
    rw [hplaced.sliding p.1, hplaced.sliding q.1]
    exact writeFontMap_area_of_ne hedge t.strlenUtf8_lt (layer_ne hq) ha

/-- The frames until a layer is free move it on and leave its map alone. -/
lemma frames_of_enable (hplaced : r.Placed) (hedge : ∀ f ∈ frames, f.1.edge ≤ 227)
    (hr : renderFrames frames r = some (r', calls))
    (he : ∀ k < frames.length, (slidingNextCycle^[k] (r.slidingLayers p.1 p.2)).enable = true) :
    r'.slidingLayers p.1 p.2 = slidingNextCycle^[frames.length] (r.slidingLayers p.1 p.2)
      ∧ ∀ a < mapBytes, r'.canvas.area ((r.slidingLayers p.1 p.2).map + a)
        = r.canvas.area ((r.slidingLayers p.1 p.2).map + a) := by
  induction frames generalizing r calls with
  | nil =>
      obtain ⟨rfl, -⟩ := Prod.mk.inj (Option.some.inj hr)
      exact ⟨rfl, fun _ _ => rfl⟩
  | cons f frames ih =>
      obtain ⟨⟨r₁, c₁⟩, h₁, hr⟩ := Option.bind_eq_some_iff.mp hr
      obtain ⟨⟨r₂, c₂⟩, h₂, hr⟩ := Option.bind_eq_some_iff.mp hr
      obtain ⟨rfl, -⟩ := Prod.mk.inj (Option.some.inj hr)
      rw [List.forall_mem_cons] at hedge
      obtain ⟨hs, harea⟩ := frame_of_enable hplaced hedge.1 h₁ (he 0 (Nat.succ_pos _))
      have hlater := ih (hplaced.frame h₁) hedge.2 h₂ fun k hk => by
        rw [hs, ← Function.iterate_succ_apply]
        exact he (k + 1) (Nat.succ_lt_succ hk)
      rw [hs, slidingNextCycle_map, ← Function.iterate_succ_apply] at hlater
      exact ⟨hlater.1, fun a ha => (hlater.2 a ha).trans (harea a ha)⟩

/-! ### The queue -/

/-- The frame that hands a text on inserts it. -/
lemma insertion_of_handed (hr : renderFrame scr inp r = some (r', calls))
    (h : handed .slidingQueen calls = [t]) : ∃ p, insertion scr inp r = some (t, p) := by
  obtain ⟨c, ⟨-, hnone, -, -⟩ | ⟨t', p, hins, hcalls, -, -⟩, -⟩ := renderFrame_insertion hr
  · rw [hnone] at h
    exact absurd h (by simp)
  · obtain rfl := List.singleton_inj.mp (hcalls.symm.trans h)
    exact ⟨p, hins⟩

/-- The text at the head of the queue is inserted within `CYCLE_PER_DANMU` frames. -/
lemma head_turn (hr : r.Reachable) (ht : r.slidingQueen.fetch = some t)
    (hlen : cyclePerDanmu ≤ frames.length) (hroom : RoomThroughout frames r) :
    ∃ before scr inp after r₁ calls₁ r₂ calls₂,
      frames = before ++ (scr, inp) :: after ∧ before.length < cyclePerDanmu
      ∧ renderFrames before r = some (r₁, calls₁) ∧ handed .slidingQueen calls₁ = []
      ∧ renderFrame scr inp r₁ = some (r₂, calls₂) ∧ handed .slidingQueen calls₂ = [t]
      ∧ t :: r₂.slidingQueen.pending = r₁.slidingQueen.pending ++ arrivals .slidingQueen inp := by
  obtain ⟨first, later, rfl, hfirst⟩ : ∃ first later, frames = first ++ later
      ∧ first.length = cyclePerDanmu :=
    ⟨_, _, (List.take_append_drop cyclePerDanmu frames).symm, List.length_take_of_le hlen⟩
  obtain ⟨hv, hl⟩ := hr.allLeaveIn
  obtain ⟨before, scr, inp, after, r₁, calls₁, r₂, calls₂, p, rfl, h₁, hnone, h₂, hhead, hpop, -⟩ :=
    headInserted_of_allLeaveIn hv hl ht (by rw [hfirst]; decide) hroom.of_append
  rw [List.length_append, List.length_cons] at hfirst
  exact ⟨before, scr, inp, after ++ later, r₁, calls₁, r₂, calls₂, by simp, by omega, h₁, hnone, h₂,
    hhead, hpop⟩

/-- Frames that hand nothing on leave the waiting texts in front. -/
lemma pending_of_renderFrames (hv : r.Valid) (hroom : RoomThroughout frames r)
    (hr : renderFrames frames r = some (r', calls)) :
    handed .slidingQueen calls ++ r'.slidingQueen.pending
      = r.slidingQueen.pending ++ frames.flatMap fun f => arrivals .slidingQueen f.2 := by
  obtain ⟨r₁, calls₁, h₁, -, hacc⟩ := renderFrames_pending hv hroom
  obtain ⟨rfl, rfl⟩ := Prod.mk.inj (Option.some.inj (hr.symm.trans h₁))
  exact hacc .slidingQueen

/-- **The waiting texts are inserted in turn**, each one in time. -/
lemma nth_inserted (hr : r.Reachable) (ht : r.slidingQueen.pending[n]? = some t)
    (hlen : (n + 1) * cyclePerDanmu ≤ frames.length) (hroom : RoomThroughout frames r) :
    ∃ before scr inp after r₁ calls₁ r₂ calls₂,
      frames = before ++ (scr, inp) :: after ∧ before.length < (n + 1) * cyclePerDanmu
      ∧ renderFrames before r = some (r₁, calls₁)
      ∧ handed .slidingQueen calls₁ = r.slidingQueen.pending.take n
      ∧ renderFrame scr inp r₁ = some (r₂, calls₂) ∧ handed .slidingQueen calls₂ = [t] := by
  have hv := hr.allLeaveIn.1
  have hfirst : cyclePerDanmu ≤ frames.length := by
    rw [Nat.succ_mul] at hlen
    exact (Nat.le_add_left _ _).trans hlen
  induction n generalizing r frames with
  | zero =>
      have hfetch : r.slidingQueen.fetch = some t := by
        rw [Queen.fetch_eq (q := r.slidingQueen) (hv .slidingQueen), List.head?_eq_getElem?]
        exact ht
      obtain ⟨before, scr, inp, after, r₁, calls₁, r₂, calls₂, hframes, hbefore, h₁, hnone, h₂,
        hhead, -⟩ := head_turn hr hfetch hfirst hroom
      exact ⟨before, scr, inp, after, r₁, calls₁, r₂, calls₂, hframes, by omega, h₁, hnone, h₂,
        hhead⟩
  | succ n ih =>
      obtain ⟨t₀, ts, hpending⟩ : ∃ t₀ ts, r.slidingQueen.pending = t₀ :: ts := by
        cases hp : r.slidingQueen.pending with
        | nil => simp [hp] at ht
        | cons t₀ ts => exact ⟨t₀, ts, rfl⟩
      have hfetch : r.slidingQueen.fetch = some t₀ := by
        rw [Queen.fetch_eq (q := r.slidingQueen) (hv .slidingQueen), hpending]
        rfl
      rw [hpending, List.getElem?_cons_succ] at ht
      obtain ⟨before, scr, inp, after, r₁, calls₁, r₂, calls₂, rfl, hbefore, h₁, hnone, h₂, hhead,
        hpop⟩ := head_turn hr hfetch hfirst hroom
      have hr₁ := hr.frames h₁
      have hr₂ := hr₁.frame h₂
      -- behind the head the others wait as before
      obtain ⟨more, hmore⟩ : ∃ more, r₂.slidingQueen.pending = ts ++ more := by
        have hwait := pending_of_renderFrames hv hroom.of_append h₁
        rw [hnone, List.nil_append, hpending] at hwait
        rw [hwait, List.cons_append, List.cons_append, List.append_assoc] at hpop
        exact ⟨_, List.tail_eq_of_cons_eq hpop⟩
      have hn : n < ts.length := (List.getElem?_eq_some_iff.mp ht).1
      have ht₂ : r₂.slidingQueen.pending[n]? = some t := by
        rw [hmore, List.getElem?_append_left hn]
        exact ht
      have hroom₁ := hroom.drop h₁
      rw [List.length_append, List.length_cons] at hlen
      obtain ⟨before', scr', inp', after', r₃, calls₃, r₄, calls₄, rfl, hbefore', h₃, hcalls₃, h₄,
        hcalls₄⟩ := ih hr₂ ht₂ (by rw [Nat.succ_mul] at hlen; omega) (hroom₁.2 r₂ calls₂ h₂)
          hr₂.allLeaveIn.1 (by rw [Nat.succ_mul, Nat.succ_mul] at hlen; omega)
      refine ⟨before ++ (scr, inp) :: before', scr', inp', after', r₃, calls₁ ++ (calls₂ ++ calls₃),
        r₄, calls₄, by simp, ?_, ?_, ?_, h₄, hcalls₄⟩
      · rw [List.length_append, List.length_cons, Nat.succ_mul]
        omega
      · exact renderFrames_append.mpr ⟨r₁, calls₁, calls₂ ++ calls₃, h₁, by
          simp [renderFrames, h₂, h₃], rfl⟩
      · rw [handed_append, handed_append, hnone, hhead, hcalls₃, hpending, hmore,
          List.take_append_of_le_length hn.le]
        rfl

/-! ### The way across the screen -/

/-- A comment `w` pixels wide in layer `p`, `k` cycles after it was drawn: it has moved by its speed
and its map is as it was drawn, or it has left. -/
structure Crossing (scr : Screen) (w : ℕ) (drawn : ℕ → Byte)
    (p : Fin slidingLayerRows × Fin slidingLayerCols) (k : ℕ) (r : Renderer) : Prop where
  enable : (r.slidingLayers p.1 p.2).enable = decide (k < lastCycle (scr.width + w))
  x : k < lastCycle (scr.width + w) →
    (r.slidingLayers p.1 p.2).x = scr.width - k * commentSpeed (scr.width + w)
  width : (r.slidingLayers p.1 p.2).width = w
  map : ∀ a < mapBytes, r.canvas.area ((r.slidingLayers p.1 p.2).map + a)
    = drawn ((r.slidingLayers p.1 p.2).map + a)

/-- A layer with its text after `k` cycles. -/
lemma insertedLayer_iterate (scr : Screen) (w : ℕ) (s : SlidingLayer) (k : ℕ) :
    let s' := slidingNextCycle^[k] (insertedLayer scr w s)
    (s'.enable = true ↔ k < lastCycle (scr.width + w))
      ∧ (k < lastCycle (scr.width + w) → s'.x = scr.width - k * commentSpeed (scr.width + w)) := by
  have hspeed : (insertedLayer scr w s).ppc = commentSpeed (scr.width + w) := by
    rw [commentSpeed, Nat.add_comm scr.width]
    push_cast
    rfl
  have hpos : 0 < commentSpeed (scr.width + w) := Nat.add_pos_left Nat.one_pos _
  have hx : -(insertedLayer scr w s).width ≤ (insertedLayer scr w s).x := by
    simp only [insertedLayer]
    omega
  obtain ⟨henable, hlayer⟩ := SlidingLayer.iterate_cycle (s := insertedLayer scr w s) rfl
    (by rw [hspeed]; exact Int.natCast_pos.mpr hpos) hx k
  have hiff : (slidingNextCycle^[k] (insertedLayer scr w s)).enable = true
      ↔ k < lastCycle (scr.width + w) := by
    rw [henable, hspeed, lastCycle, Nat.lt_succ_iff, Nat.le_div_iff_mul_le hpos]
    simp only [insertedLayer]
    norm_cast
  refine ⟨hiff, fun hk => ?_⟩
  rw [hlayer (hiff.mpr hk), hspeed]
  rfl

/-- Cycles change neither the width nor the map of a layer. -/
lemma iterate_width_map (s : SlidingLayer) (k : ℕ) :
    (slidingNextCycle^[k] s).width = s.width ∧ (slidingNextCycle^[k] s).map = s.map := by
  induction k with
  | zero => exact ⟨rfl, rfl⟩
  | succ k ih =>
      rw [Function.iterate_succ_apply', slidingNextCycle_width, slidingNextCycle_map]
      exact ih

/-- From its insertion on a comment crosses the screen, whatever the other frames bring. -/
lemma crossing_of_insertion {r₂ r₃ : Renderer} (hplaced : r.Placed)
    (hins : insertion scr inp r = some (t, p)) (h₂ : renderFrame scr inp r = some (r₂, calls))
    (hedges : ∀ f ∈ frames, f.1.edge ≤ 227) (h₃ : renderFrames frames r₂ = some (r₃, calls₁))
    (hlen : frames.length < lastCycle (scr.width + outWidth inp t)) :
    Crossing scr (outWidth inp t) (writeFontMap scr.edge (r.slidingLayers p.1 p.2).map t.strlenUtf8
      inp.slidingRand (inp.bitmap t) r.canvas).1.area p (frames.length + 1) r₃ := by
  obtain ⟨c, ⟨hnone, -⟩ | ⟨t', p', hins', -, hc, hs⟩, -, hcanvas⟩ := renderFrame_insertion h₂
  · exact absurd (hins.symm.trans hnone) (by simp)
  obtain ⟨rfl, rfl⟩ : t = t' ∧ p = p' := by simpa using hins.symm.trans hins'
  have hlayer : r₂.slidingLayers p.1 p.2
      = slidingNextCycle (insertedLayer scr (outWidth inp t) (r.slidingLayers p.1 p.2)) := by
    simp only [hs, insertAt_same]
  have hway := insertedLayer_iterate scr (outWidth inp t) (r.slidingLayers p.1 p.2)
  -- it is enabled until the last of these frames
  obtain ⟨hafter, harea⟩ := frames_of_enable (p := p) (hplaced.frame h₂) hedges h₃ fun k hk => by
    rw [hlayer, ← Function.iterate_succ_apply]
    exact (hway (k + 1)).1.mpr (by omega)
  rw [hlayer, ← Function.iterate_succ_apply] at hafter
  obtain ⟨hwidth, hmap⟩ := iterate_width_map
    (insertedLayer scr (outWidth inp t) (r.slidingLayers p.1 p.2)) (frames.length + 1)
  obtain ⟨henable, hx⟩ := hway (frames.length + 1)
  refine ⟨?_, ?_, ?_, fun a ha => ?_⟩
  · rw [hafter]
    exact Bool.eq_iff_iff.mpr (henable.trans decide_eq_true_iff.symm)
  · rw [hafter]
    exact hx
  · rw [hafter]
    exact hwidth
  · rw [hlayer, slidingNextCycle_map, insertedLayer_map] at harea
    rw [hafter, hmap, insertedLayer_map, harea a ha]
    rcases hcanvas with ⟨-, hc'⟩ | ⟨u, k, -, hc'⟩ <;> rw [hc', hc]
    exact hplaced.static_area ha

/-- **Every waiting comment is shown in time, and as it was drawn until it has left**: from every
reachable state, in every run of frames in which no push meets a full queue and no character size,
however it changes between them, exceeds 227, the text at place `n` of the sliding queue is inserted
in turn within `n + 1` times `CYCLE_PER_DANMU` frames; from then on no other text takes its layer or
touches its map until it has crossed the screen. -/
theorem sliding_text_lives (hr : r.Reachable) (ht : r.slidingQueen.pending[n]? = some t)
    (hlen : (n + 1) * cyclePerDanmu ≤ frames.length) (hroom : RoomThroughout frames r)
    (hedges : ∀ f ∈ frames, f.1.edge ≤ 227) :
    ∃ before scr inp after r₁ calls₁ r₂ calls₂ p,
      frames = before ++ (scr, inp) :: after ∧ before.length < (n + 1) * cyclePerDanmu
      ∧ renderFrames before r = some (r₁, calls₁)
      ∧ handed .slidingQueen calls₁ = r.slidingQueen.pending.take n
      ∧ renderFrame scr inp r₁ = some (r₂, calls₂) ∧ handed .slidingQueen calls₂ = [t]
      ∧ (r₁.slidingLayers p.1 p.2).enable = false
      ∧ ∀ later rest, after = later ++ rest →
        later.length < lastCycle (scr.width + outWidth inp t) →
        ∃ r₃ calls₃, renderFrames later r₂ = some (r₃, calls₃)
          ∧ Crossing scr (outWidth inp t) (writeFontMap scr.edge (r₁.slidingLayers p.1 p.2).map
            t.strlenUtf8 inp.slidingRand (inp.bitmap t) r₁.canvas).1.area p (later.length + 1)
            r₃ := by
  obtain ⟨before, scr, inp, after, r₁, calls₁, r₂, calls₂, rfl, hbefore, h₁, hturn, h₂, hhead⟩ :=
    nth_inserted hr ht hlen hroom
  obtain ⟨p, hins⟩ := insertion_of_handed h₂ hhead
  have hr₁ := hr.frames h₁
  refine ⟨before, scr, inp, after, r₁, calls₁, r₂, calls₂, p, rfl, hbefore, h₁, hturn, h₂, hhead,
    (insertion_spec hins).1, ?_⟩
  rintro later rest rfl hlater
  have hroom₂ := (hroom.drop h₁).2 r₂ calls₂ h₂
  obtain ⟨r₃, calls₃, h₃, -⟩ := renderFrames_pending (hr₁.frame h₂).allLeaveIn.1 hroom₂.of_append
  simp only [List.mem_append, List.mem_cons] at hedges
  refine ⟨r₃, calls₃, h₃, crossing_of_insertion hr₁.placed hins h₂ (fun f hf => ?_) h₃ hlater⟩
  exact hedges f (Or.inr (Or.inr (Or.inl hf)))

/-- Seven texts in seven frames fill the five rows, so that two wait. -/
theorem sliding_text_lives_seventh : ∃ r : Renderer, r.Reachable
    ∧ r.slidingQueen.pending.map Text.bytes = [[0x66#8], [0x67#8]]
    ∧ ∃ t, t.bytes = [0x67#8]
      ∧ ∃ before scr inp after r₁ calls₁ r₂ calls₂ p,
        List.replicate (2 * cyclePerDanmu) (Sys.smallScreen, Sys.quietFrame)
          = before ++ (scr, inp) :: after ∧ before.length < 2 * cyclePerDanmu
        ∧ renderFrames before r = some (r₁, calls₁)
        ∧ handed .slidingQueen calls₁ = r.slidingQueen.pending.take 1
        ∧ renderFrame scr inp r₁ = some (r₂, calls₂) ∧ handed .slidingQueen calls₂ = [t]
        ∧ (r₁.slidingLayers p.1 p.2).enable = false
        ∧ ∀ later rest, after = later ++ rest →
          later.length < lastCycle (scr.width + outWidth inp t) →
          ∃ r₃ calls₃, renderFrames later r₂ = some (r₃, calls₃)
            ∧ Crossing scr (outWidth inp t) (writeFontMap scr.edge (r₁.slidingLayers p.1 p.2).map
              t.strlenUtf8 inp.slidingRand (inp.bitmap t) r₁.canvas).1.area p
                (later.length + 1) r₃ := by
  have hrun : ((renderFrames (([0x61#8, 0x62#8, 0x63#8, 0x64#8, 0x65#8, 0x66#8, 0x67#8] :
      List Byte).map fun b => (Sys.smallScreen, commentFrame b 10)) (initRenderer fun _ => 0#8)).map
        fun p => p.1.slidingQueen.pending.map Text.bytes) = some [[0x66#8], [0x67#8]] := by
    decide +kernel
  obtain ⟨⟨r, calls⟩, hr, hpending⟩ := Option.map_eq_some_iff.mp hrun
  have hsecond : (r.slidingQueen.pending[1]?).map Text.bytes = some [0x67#8] := by
    rw [← List.getElem?_map, hpending]
    rfl
  obtain ⟨t, ht, hbytes⟩ := Option.map_eq_some_iff.mp hsecond
  have hreach := (Renderer.Reachable.start fun _ => 0#8).frames hr
  refine ⟨r, hreach, hpending, t, hbytes, sliding_text_lives hreach ht ?_
    (roomThroughout_quiet _ _ hreach.allLeaveIn.1) ?_⟩
  · rw [List.length_replicate]
  · intro f hf
    rw [List.eq_of_mem_replicate hf]
    decide

end Danmaku
