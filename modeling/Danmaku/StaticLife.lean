import Danmaku.SlidingLife
import Danmaku.Lib.Slots

/-!
The life of a static text.

`InsertStatic` always finds a layer: a free one, or a random one, whose text it then cuts short.

* `staticInsertion`: the text and the layer, computed as `RenderOnce` does;
  `renderFrame_staticInsertion`: what a frame does to the static layers and their maps.
* `Renderer.ages`, `ages_step`: the layers **are slots that are taken for `DURATION` cycles**.
* `staticTurns`: which layers the frames of a run take, if any.
* `static_text_kept`: **no text is cut short** if any `DURATION` frames hand on five at most, the
  number of the layers.
-/

namespace Danmaku

open Transition

/-- `c` in `InsertStatic`. -/
def randomLayer (inp : FrameInput) : Fin numStaticLayer :=
  Fin.ofNat 5 inp.layerRand

/-- The layer that `InsertStatic` takes. -/
def chosenLayer (inp : FrameInput) (r : Renderer) : Fin numStaticLayer :=
  ((List.finRange numStaticLayer).find? fun i => !(r.staticLayers i).enable).getD (randomLayer inp)

/-- The text that a frame takes from the static queue, and the layer that it goes to. -/
def staticInsertion (inp : FrameInput) (r : Renderer) : Option (Text × Fin numStaticLayer) := do
  let (r, _) ← readLine inp r
  let tmp ← r.staticQueen.fetch
  return (tmp, chosenLayer inp r)

/-- The layer after `ForceStaticSetDanmu` with a text that is rendered `w` pixels wide. -/
def setStatic (w : ℕ) (s : StaticLayer) : StaticLayer :=
  { s with validLen := w, enable := true, counter := 0 }

variable {scr : Screen} {inp : FrameInput} {r r₁ r' : Renderer} {calls calls₁ : List Call}
  {t : Text} {i : Fin numStaticLayer} {frames rest : List (Screen × FrameInput)}

/-! ### A frame -/

/-- It is free, or none is. -/
lemma chosenLayer_spec (inp : FrameInput) (r : Renderer) :
    (r.staticLayers (chosenLayer inp r)).enable = false
      ∨ ∀ k, (r.staticLayers k).enable = true := by
  rw [chosenLayer]
  cases hfree : (List.finRange numStaticLayer).find? fun i => !(r.staticLayers i).enable with
  | none =>
      refine Or.inr fun k => ?_
      simpa using List.find?_eq_none.mp hfree k (List.mem_finRange k)
  | some k => exact Or.inl (by simpa using List.find?_some hfree)

/-- `InsertStatic` sets the layer and draws into its map. -/
lemma insertStatic_spec (scr : Screen) (inp : FrameInput) (t : Text) (r : Renderer) :
    let i := chosenLayer inp r
    (insertStatic scr inp t r).staticLayers
        = Function.update r.staticLayers i (setStatic (outWidth inp t) (r.staticLayers i))
      ∧ (insertStatic scr inp t r).canvas = (writeFontMap scr.edge (r.staticLayers i).map
          t.strlenUtf8 inp.staticRand (inp.bitmap t) r.canvas).1 :=
  ⟨rfl, rfl⟩

/-- The place of a static map is not that of a sliding one. -/
lemma Renderer.Placed.sliding_area (h : r.Placed) (hedge : scr.edge ≤ 227)
    {p : Fin slidingLayerRows × Fin slidingLayerCols} {len rand a : ℕ} {b : Bitmap} {c : Canvas}
    (hlen : len < maxTextLen) (ha : a < mapBytes) :
    (writeFontMap scr.edge (r.slidingLayers p.1 p.2).map len rand b c).1.area
        ((r.staticLayers i).map + a)
      = c.area ((r.staticLayers i).map + a) := by
  rw [h.sliding, h.static]
  refine writeFontMap_area_of_ne hedge hlen ?_ ha
  have h1 := p.1.isLt
  have h2 := p.2.isLt
  simp only [slidingLayerRows, slidingLayerCols] at h1 h2 ⊢
  omega

/-- What a frame does to static layer `i` that takes no text. -/
structure Untouched (scr : Screen) (i : Fin numStaticLayer) (r r' : Renderer) : Prop where
  layer : r'.staticLayers i = staticNextCycle (r.staticLayers i)
  map : r.Placed → scr.edge ≤ 227 → ∀ a < mapBytes,
    r'.canvas.area ((r.staticLayers i).map + a) = r.canvas.area ((r.staticLayers i).map + a)

/-- **What a frame does to the static layers**: it takes the layer of the insertion, if there is
one, a taken one only if all are taken, and the others are a cycle older, with their maps as they
were. -/
lemma renderFrame_staticInsertion (h : renderFrame scr inp r = some (r', calls)) :
    (staticInsertion inp r = none ∧ handed .staticQueen calls = [] ∧ ∀ k, Untouched scr k r r')
      ∨ ∃ t i c, staticInsertion inp r = some (t, i) ∧ handed .staticQueen calls = [t]
        ∧ ((r.staticLayers i).enable = false ∨ ∀ k, (r.staticLayers k).enable = true)
        ∧ r'.staticLayers i = staticNextCycle (setStatic (outWidth inp t) (r.staticLayers i))
        ∧ r'.canvas = (writeFontMap scr.edge (r.staticLayers i).map t.strlenUtf8 inp.staticRand
            (inp.bitmap t) c).1
        ∧ ∀ k ≠ i, Untouched scr k r r' := by
  obtain ⟨r₁, read, r₂, slid, h₁, h₂, rfl, rfl⟩ := renderFrame_eq_some_iff.mp h
  obtain ⟨hs₁, ht₁, hc₁, hread⟩ := readLine_layers h₁
  obtain ⟨ht₂, hq₂, hslid⟩ := feedSliding_static h₂
  have harea : r.Placed → scr.edge ≤ 227 → ∀ k, ∀ a < mapBytes,
      r₂.canvas.area ((r.staticLayers k).map + a) = r.canvas.area ((r.staticLayers k).map + a) := by
    intro hplaced hedge k a ha
    rcases feedSliding_cases h₂ with ⟨-, rfl, -⟩ | ⟨t, p, -, -, -, -, hc₂, -⟩
    · rw [hc₁]
    · rw [hc₂, hs₁, hc₁]
      exact hplaced.sliding_area hedge t.strlenUtf8_lt ha
  have hstatic : r₂.staticLayers = r.staticLayers := ht₂.trans ht₁
  have hchosen : chosenLayer inp r₁ = chosenLayer inp r₂ := by rw [chosenLayer, chosenLayer, ht₂]
  have hins : staticInsertion inp r
      = r₂.staticQueen.fetch.map fun t => (t, chosenLayer inp r₂) := by
    simp only [staticInsertion, h₁, hq₂, hchosen, Option.bind_eq_bind, Option.bind_some,
      Option.pure_def]
    cases r₁.staticQueen.fetch <;> rfl
  rw [handed_append, handed_append, hread, hslid, List.nil_append, List.nil_append, hins]
  cases hfetch : r₂.staticQueen.fetch with
  | none =>
      have hfeed : feedStatic scr inp r₂ = (r₂, []) := by simp [feedStatic, hfetch]
      rw [hfeed]
      refine Or.inl ⟨rfl, rfl, fun k => ⟨?_, fun hplaced hedge a ha => harea hplaced hedge k a ha⟩⟩
      simp only [nextCycle, hstatic]
  | some tmp =>
      have hfeed : feedStatic scr inp r₂ = ({ insertStatic scr inp tmp r₂ with
            staticQueen := (insertStatic scr inp tmp r₂).staticQueen.pop },
          [.forceStaticSetDanmu tmp]) := by simp [feedStatic, hfetch]
      obtain ⟨hlayers, hcanvas⟩ := insertStatic_spec scr inp tmp r₂
      have hchoice := chosenLayer_spec inp r₂
      rw [hfeed]
      simp only [hstatic] at hlayers hcanvas hchoice
      refine Or.inr ⟨tmp, chosenLayer inp r₂, r₂.canvas, rfl, rfl, hchoice, ?_, hcanvas, ?_⟩
      · simp only [nextCycle, hlayers, Function.update_self]
      · intro k hk
        refine ⟨by simp only [nextCycle, hlayers, Function.update_of_ne hk], ?_⟩
        intro hplaced hedge a ha
        have hne : slidingLayerRows * slidingLayerCols + (chosenLayer inp r₂ : ℕ)
            ≠ slidingLayerRows * slidingLayerCols + (k : ℕ) := fun heq => hk (Fin.ext (by omega))
        have hother : (writeFontMap scr.edge (layerMap _) tmp.strlenUtf8 inp.staticRand
            (inp.bitmap tmp) r₂.canvas).1.area (layerMap _ + a) = r₂.canvas.area (layerMap _ + a) :=
          writeFontMap_area_of_ne hedge tmp.strlenUtf8_lt hne ha
        rw [← hplaced.static, ← hplaced.static, harea hplaced hedge k a ha] at hother
        simp only [nextCycle, hcanvas]
        exact hother

/-- Every frame hands on the oldest static text, if one waits or arrives. -/
lemma handed_static (hv : r.Valid) (h : renderFrame scr inp r = some (r', calls)) :
    handed .staticQueen calls = (r.staticQueen.pending ++ arrivals .staticQueen inp).take 1 := by
  have hacc := (renderFrame_spec hv h).2 .staticQueen
  have hcount := renderFrame_static_count hv h
  have hlen := congrArg List.length hacc
  simp only [Renderer.queue, List.length_append, Queen.pending_length] at hacc hlen hcount
  rcases renderFrame_staticInsertion h with ⟨-, hnone, -⟩ | ⟨t, i, c, -, hone, -⟩
  · rw [hnone] at hlen ⊢
    rw [← hacc, hnone, List.nil_append, List.eq_nil_of_length_eq_zero
      (l := r'.staticQueen.pending) (by rw [Queen.pending_length]; simp at hlen; omega)]
    rfl
  · rw [← hacc, hone]
    rfl

/-! ### Slots -/

/-- The cycles that a static layer has had, if it is enabled. -/
def StaticLayer.age (s : StaticLayer) : Option ℕ :=
  if s.enable then some s.counter.toNat else none

/-- The static layers as slots. -/
def Renderer.ages (r : Renderer) : Slots (Fin numStaticLayer) := fun i => (r.staticLayers i).age

/-- No counter is negative. -/
def Renderer.Counted (r : Renderer) : Prop := ∀ i, 0 ≤ (r.staticLayers i).counter

lemma StaticLayer.age_eq_none_iff {s : StaticLayer} : s.age = none ↔ s.enable = false := by
  rw [age]
  cases s.enable <;> simp

lemma staticNextCycle_counter {s : StaticLayer} (h : 0 ≤ s.counter) :
    0 ≤ (staticNextCycle s).counter := by
  rw [staticNextCycle]
  split
  · simp only
    split <;> simp only <;> omega
  · exact h

/-- A cycle makes a layer a cycle older, or frees it. -/
lemma StaticLayer.age_next {s : StaticLayer} (h : 0 ≤ s.counter) :
    (staticNextCycle s).age
      = s.age.bind fun a => if a + 1 < duration then some (a + 1) else none := by
  rw [staticNextCycle]
  cases he : s.enable with
  | false => simp [age, he]
  | true =>
      simp only [if_true, age, he, Option.bind_some]
      have hsucc : (s.counter + 1).toNat = s.counter.toNat + 1 := by omega
      by_cases hlast : s.counter + 1 ≥ duration
      · have hold : ¬ s.counter.toNat + 1 < duration := by omega
        rw [if_pos hlast, if_neg hold]
        rfl
      · have hyoung : s.counter.toNat + 1 < duration := by omega
        rw [if_neg hlast, if_pos hyoung, if_pos rfl, hsucc]

lemma Renderer.Counted.frame (hc : r.Counted) (h : renderFrame scr inp r = some (r', calls)) :
    r'.Counted := by
  intro k
  rcases renderFrame_staticInsertion h with ⟨-, -, hrest⟩ | ⟨t, i, c, -, -, -, hi, -, hrest⟩
  · rw [(hrest k).layer]
    exact staticNextCycle_counter (hc k)
  · by_cases hk : k = i
    · rw [hk, hi]
      exact staticNextCycle_counter le_rfl
    · rw [(hrest k hk).layer]
      exact staticNextCycle_counter (hc k)

/-- **The static layers are slots that are taken for `DURATION` cycles.** -/
lemma ages_step (hc : r.Counted) (h : renderFrame scr inp r = some (r', calls)) :
    Slots.Step duration r.ages ((staticInsertion inp r).map Prod.snd) r'.ages := by
  rcases renderFrame_staticInsertion h
    with ⟨hnone, -, hrest⟩ | ⟨t, i, c, hsome, -, hfree, hi, -, hrest⟩
  · rw [hnone]
    funext k
    exact (congrArg StaticLayer.age (hrest k).layer).trans (StaticLayer.age_next (hc k))
  · rw [hsome]
    refine ⟨?_, funext fun k => ?_⟩
    · refine hfree.imp StaticLayer.age_eq_none_iff.mpr fun hall k hk => ?_
      have hoff := StaticLayer.age_eq_none_iff.mp hk
      rw [hall k] at hoff
      exact absurd hoff (by simp)
    · by_cases hk : k = i
      · subst hk
        have hnew :=
          StaticLayer.age_next (s := setStatic (outWidth inp t) (r.staticLayers k)) le_rfl
        rw [Slots.tick, Slots.put_same]
        exact (congrArg StaticLayer.age hi).trans hnew
      · rw [Slots.tick, Slots.put_of_ne hk]
        exact (congrArg StaticLayer.age (hrest k hk).layer).trans (StaticLayer.age_next (hc k))

/-! ### Runs -/

/-- The static layer that each frame takes, if any. -/
def staticTurns : List (Screen × FrameInput) → Renderer → List (Option (Fin numStaticLayer))
  | [], _ => []
  | (scr, inp) :: frames, r =>
      (staticInsertion inp r).map Prod.snd
        :: (renderFrame scr inp r).elim [] fun p => staticTurns frames p.1

lemma staticTurns_append (hr : renderFrames frames r = some (r₁, calls)) :
    staticTurns (frames ++ rest) r = staticTurns frames r ++ staticTurns rest r₁ := by
  induction frames generalizing r calls with
  | nil =>
      obtain ⟨rfl, -⟩ := Prod.mk.inj (Option.some.inj hr)
      rfl
  | cons f frames ih =>
      obtain ⟨⟨r₀, c₀⟩, h₀, hr⟩ := Option.bind_eq_some_iff.mp hr
      obtain ⟨⟨r₂, c₂⟩, h₂, hr⟩ := Option.bind_eq_some_iff.mp hr
      obtain ⟨rfl, -⟩ := Prod.mk.inj (Option.some.inj hr)
      simp only [List.cons_append, staticTurns, h₀, Option.elim_some, ih h₂]

/-- The turns of a run are the steps of the slots. -/
lemma run_ages (hc : r.Counted) (hr : renderFrames frames r = some (r', calls)) :
    Run (Slots.Step duration) r.ages (staticTurns frames r) r'.ages
      ∧ (staticTurns frames r).length = frames.length ∧ r'.Counted := by
  induction frames generalizing r calls with
  | nil =>
      obtain ⟨rfl, -⟩ := Prod.mk.inj (Option.some.inj hr)
      exact ⟨.nil, rfl, hc⟩
  | cons f frames ih =>
      obtain ⟨⟨r₁, c₁⟩, h₁, hr⟩ := Option.bind_eq_some_iff.mp hr
      obtain ⟨⟨r₂, c₂⟩, h₂, hr⟩ := Option.bind_eq_some_iff.mp hr
      obtain ⟨rfl, -⟩ := Prod.mk.inj (Option.some.inj hr)
      obtain ⟨hrun, hlen, hc'⟩ := ih (hc.frame h₁) h₂
      simp only [staticTurns, h₁, Option.elim_some, List.length_cons]
      exact ⟨.cons (ages_step hc h₁) hrun, congrArg (· + 1) hlen, hc'⟩

/-- The frames that do not take a static layer leave its text alone. -/
lemma frames_untouched (hplaced : r.Placed) (hedges : ∀ f ∈ frames, f.1.edge ≤ 227)
    (hr : renderFrames frames r = some (r', calls)) (hkept : some i ∉ staticTurns frames r) :
    r'.staticLayers i = staticNextCycle^[frames.length] (r.staticLayers i)
      ∧ ∀ a < mapBytes, r'.canvas.area ((r.staticLayers i).map + a)
        = r.canvas.area ((r.staticLayers i).map + a) := by
  induction frames generalizing r calls with
  | nil =>
      obtain ⟨rfl, -⟩ := Prod.mk.inj (Option.some.inj hr)
      exact ⟨rfl, fun _ _ => rfl⟩
  | cons f frames ih =>
      obtain ⟨⟨r₁, c₁⟩, h₁, hr⟩ := Option.bind_eq_some_iff.mp hr
      obtain ⟨⟨r₂, c₂⟩, h₂, hr⟩ := Option.bind_eq_some_iff.mp hr
      obtain ⟨rfl, -⟩ := Prod.mk.inj (Option.some.inj hr)
      rw [List.forall_mem_cons] at hedges
      simp only [staticTurns, h₁, Option.elim_some, List.mem_cons, not_or] at hkept
      have hfirst : Untouched f.1 i r r₁ := by
        rcases renderFrame_staticInsertion h₁
          with ⟨-, -, hrest⟩ | ⟨t, k, c, hsome, -, -, -, -, hrest⟩
        · exact hrest i
        · refine hrest i fun hik => hkept.1 ?_
          rw [hsome, hik]
          rfl
      obtain ⟨hlayer, harea⟩ := ih (hplaced.frame h₁) hedges.2 h₂ hkept.2
      have hsame : (r₁.staticLayers i).map = (r.staticLayers i).map := by
        rw [hfirst.layer, staticNextCycle_map]
      rw [hfirst.layer, ← Function.iterate_succ_apply] at hlayer
      rw [hsame] at harea
      exact ⟨hlayer, fun a ha => (harea a ha).trans (hfirst.map hplaced hedges.1 a ha)⟩

/-- A static text `w` pixels wide in layer `i`, `k` cycles after it was drawn: it is shown until
`DURATION`, with its map as it was drawn. -/
structure Staying (w : ℕ) (drawn : ℕ → Byte) (i : Fin numStaticLayer) (k : ℕ) (r : Renderer) :
    Prop where
  enable : (r.staticLayers i).enable = decide (k < duration)
  validLen : (r.staticLayers i).validLen = w
  map : ∀ a < mapBytes, r.canvas.area ((r.staticLayers i).map + a)
    = drawn ((r.staticLayers i).map + a)

/-- A layer with its text after `k` cycles. -/
lemma setStatic_iterate (w : ℕ) (s : StaticLayer) {k : ℕ} (hk : k ≤ duration) :
    staticNextCycle^[k] (setStatic w s)
      = { s with validLen := w, enable := decide (k < duration), counter := k } := by
  induction k with
  | zero => rfl
  | succ k ih =>
      have hyoung : k < duration := hk
      rw [Function.iterate_succ_apply', ih hyoung.le, staticNextCycle]
      simp only [decide_eq_true hyoung, if_true]
      by_cases hlast : k + 1 < duration
      · rw [if_neg (by omega), decide_eq_true hlast]
        rfl
      · rw [if_pos (by omega), decide_eq_false hlast]
        rfl

/-- **No static text is cut short** while any `DURATION` frames hand on at most five. In every run
from the start in which no push meets a full queue, each frame hands on the oldest static text that
waits or arrives. If the character sizes are at most 227 and any `DURATION` frames hand on five
static texts at most, each goes to a layer that is free, and stays in it, as it was drawn, for
`DURATION` cycles. -/
theorem static_text_kept {area : ℕ → Byte} {before after : List (Screen × FrameInput)}
    (hframes : frames = before ++ (scr, inp) :: after)
    (hroom : RoomThroughout frames (initRenderer area)) :
    ∃ r₁ calls₁ r₂ calls₂, renderFrames before (initRenderer area) = some (r₁, calls₁)
      ∧ renderFrame scr inp r₁ = some (r₂, calls₂)
      ∧ handed .staticQueen calls₂
        = (r₁.staticQueen.pending ++ arrivals .staticQueen inp).take 1
      ∧ ((∀ f ∈ frames, f.1.edge ≤ 227) →
        Slots.Rate duration (staticTurns frames (initRenderer area)) →
        ∀ t ∈ handed .staticQueen calls₂, ∃ i c, (r₁.staticLayers i).enable = false
          ∧ r₂.canvas = (writeFontMap scr.edge (r₁.staticLayers i).map t.strlenUtf8 inp.staticRand
            (inp.bitmap t) c).1
          ∧ ∀ later rest, after = later ++ rest → later.length < duration →
            ∃ r₃ calls₃, renderFrames later r₂ = some (r₃, calls₃)
              ∧ Staying (outWidth inp t) r₂.canvas.area i (later.length + 1) r₃) := by
  subst hframes
  obtain ⟨r₁, calls₁, h₁, hv₁, -⟩ := renderFrames_pending (valid_initRenderer area) hroom.of_append
  have hroom₁ := hroom.drop h₁
  obtain ⟨⟨r₂, calls₂⟩, h₂⟩ := Option.isSome_iff_exists.mp
    ((renderFrame_isSome_iff scr hv₁).mpr hroom₁.1)
  have hr₁ := (Renderer.Reachable.start area).frames h₁
  have hstart : (initRenderer area).Counted := fun _ => le_rfl
  obtain ⟨hrun₁, -, hc₁⟩ := run_ages hstart h₁
  refine ⟨r₁, calls₁, r₂, calls₂, h₁, h₂, handed_static hv₁ h₂, fun hedges hrate t ht => ?_⟩
  obtain ⟨-, hnone, -⟩ | ⟨t', i, c, hins, hone, -, hi, hcanvas, -⟩ := renderFrame_staticInsertion h₂
  · rw [hnone] at ht
    exact absurd ht List.not_mem_nil
  obtain rfl : t = t' := by simpa [hone] using ht
  have hstep := ages_step hc₁ h₂
  rw [hins] at hstep
  have hturns : ∀ later rest, after = later ++ rest →
      ∀ r₃ calls₃, renderFrames later r₂ = some (r₃, calls₃) →
      Slots.Rate duration (staticTurns before (initRenderer area) ++ some i :: staticTurns later r₂)
      := by
    rintro later rest rfl r₃ calls₃ h₃
    rw [staticTurns_append h₁] at hrate
    simp only [staticTurns, h₂, hins, Option.elim_some, Option.map_some, staticTurns_append h₃,
      ← List.cons_append] at hrate
    rw [← List.append_assoc] at hrate
    exact hrate.of_append
  refine ⟨i, c, ?_, hcanvas, ?_⟩
  · have hfree := Slots.free_of_rate (by decide) (hturns [] after rfl r₂ [] rfl) hrun₁ hstep
    exact StaticLayer.age_eq_none_iff.mp hfree
  · rintro later rest rfl hlen
    obtain ⟨r₃, calls₃, h₃, -⟩ := renderFrames_pending (hr₁.frame h₂).allLeaveIn.1
      (hroom₁.2 r₂ calls₂ h₂).of_append
    obtain ⟨hrun₃, hlength, -⟩ := run_ages (hc₁.frame h₂) h₃
    obtain ⟨hkept, -⟩ := Slots.kept_of_rate (by decide) (hturns later rest rfl r₃ calls₃ h₃) hrun₁
      hstep hrun₃ (by rw [hlength]; exact hlen)
    simp only [List.mem_append, List.mem_cons] at hedges
    obtain ⟨hlayer, harea⟩ := frames_untouched (hr₁.frame h₂).placed
      (fun f hf => hedges f (Or.inr (Or.inr (Or.inl hf)))) h₃ hkept
    rw [hi, ← Function.iterate_succ_apply, setStatic_iterate _ _ (by omega)] at hlayer
    rw [hi, staticNextCycle_map] at harea
    refine ⟨r₃, calls₃, h₃, ?_, ?_, fun a ha => ?_⟩
    · rw [hlayer]
    · rw [hlayer]
    · rw [hlayer]
      exact harea a ha

/-- Five texts in five frames: the first one stays. -/
theorem static_text_kept_five :
    (arrivals .staticQueen staticLineFrame).length = 1
    ∧ ∃ r₁ calls₁ r₂ calls₂, renderFrames [] (initRenderer fun _ => 0#8) = some (r₁, calls₁)
      ∧ renderFrame .fullHd staticLineFrame r₁ = some (r₂, calls₂)
      ∧ handed .staticQueen calls₂
        = (r₁.staticQueen.pending ++ arrivals .staticQueen staticLineFrame).take 1
      ∧ ∀ t ∈ handed .staticQueen calls₂, ∃ i c, (r₁.staticLayers i).enable = false
        ∧ r₂.canvas = (writeFontMap Screen.fullHd.edge (r₁.staticLayers i).map t.strlenUtf8
          staticLineFrame.staticRand (staticLineFrame.bitmap t) c).1
        ∧ ∀ later rest, List.replicate 4 (Screen.fullHd, staticLineFrame) = later ++ rest →
          later.length < duration →
          ∃ r₃ calls₃, renderFrames later r₂ = some (r₃, calls₃)
            ∧ Staying (outWidth staticLineFrame t) r₂.canvas.area i (later.length + 1) r₃ := by
  have hroom : RoomThroughout (List.replicate 5 (Screen.fullHd, staticLineFrame))
      (initRenderer fun _ => 0#8) :=
    roomThroughout_of_le (valid_initRenderer _) fun dest => by cases dest <;> decide
  obtain ⟨r, calls, hr, -⟩ := renderFrames_pending (valid_initRenderer fun _ => 0#8) hroom
  have hlength := (run_ages (fun _ => le_rfl) hr).2.1
  have hframes : List.replicate 5 (Screen.fullHd, staticLineFrame)
      = [] ++ (Screen.fullHd, staticLineFrame)
        :: List.replicate 4 (Screen.fullHd, staticLineFrame) := rfl
  obtain ⟨r₁, calls₁, r₂, calls₂, h₁, h₂, hhanded, hkept⟩ := static_text_kept hframes hroom
  refine ⟨by decide, r₁, calls₁, r₂, calls₂, h₁, h₂, hhanded,
    hkept (fun f hf => ?_) fun window hwindow _ => ?_⟩
  · rw [List.eq_of_mem_replicate hf]
    decide
  · calc window.countP Option.isSome ≤ window.length := List.countP_le_length
      _ ≤ (staticTurns _ _).length := hwindow.length_le
      _ = 5 := hlength
      _ ≤ Fintype.card (Fin numStaticLayer) := (Fintype.card_fin _).ge

end Danmaku
