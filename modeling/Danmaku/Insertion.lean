import Danmaku.Frames

/-!
Which text a frame puts into a sliding layer, and what the frame does to the layers and the maps.

* `insertion`: the text and the layer, computed as `RenderOnce` does; `staticText`: the static text
  of the frame.
* `insertedLayer`: the layer after `SlidingSetDanmu`.
* `renderFrame_insertion`: **what a frame does to the layers and the maps**.
-/

namespace Danmaku

/-- The text that a frame takes from the sliding queue and the layer that it goes to, if there are
both: what `Fetch` finds after the reading, and the layer that `InsertSliding` takes. -/
def insertion (scr : Screen) (inp : FrameInput) (r : Renderer) :
    Option (Text × Fin slidingLayerRows × Fin slidingLayerCols) := do
  let (r, _) ← readLine inp r
  let tmp ← r.slidingQueen.fetch
  let p ← freeSlot scr r
  return (tmp, p)

/-- The text that a frame takes from the static queue, if there is one. -/
def staticText (inp : FrameInput) (r : Renderer) : Option Text := do
  let (r, _) ← readLine inp r
  r.staticQueen.fetch

/-- The layer after `SlidingSetDanmu` with a text that is rendered `outWidth` pixels wide. -/
def insertedLayer (scr : Screen) (outWidth : ℕ) (s : SlidingLayer) : SlidingLayer :=
  { s with width := outWidth, enable := true, x := scr.width,
           ppc := 1 + ((outWidth : ℤ) + scr.width) / cyclePerDanmu }

/-- The sliding layers with `p` set to a text `outWidth` pixels wide. -/
def insertAt (scr : Screen) (outWidth : ℕ) (p : Fin slidingLayerRows × Fin slidingLayerCols)
    (layers : Fin slidingLayerRows → Fin slidingLayerCols → SlidingLayer) :
    Fin slidingLayerRows → Fin slidingLayerCols → SlidingLayer :=
  Function.update layers p.1
    (Function.update (layers p.1) p.2 (insertedLayer scr outWidth (layers p.1 p.2)))

/-- `out_width` for a text: the width of the bitmap, cut at `MAX_WIDTH`. -/
def outWidth (inp : FrameInput) (t : Text) : ℕ := min (inp.bitmap t).width maxWidth

section Frame

variable {scr : Screen} {inp : FrameInput} {r r' : Renderer} {calls : List Call} {t : Text} {w : ℕ}
  {p : Fin slidingLayerRows × Fin slidingLayerCols}
  {layers : Fin slidingLayerRows → Fin slidingLayerCols → SlidingLayer}

@[simp] lemma insertedLayer_map (s : SlidingLayer) : (insertedLayer scr w s).map = s.map := rfl

@[simp] lemma insertedLayer_width (s : SlidingLayer) : (insertedLayer scr w s).width = w := rfl

@[simp] lemma insertAt_same :
    insertAt scr w p layers p.1 p.2 = insertedLayer scr w (layers p.1 p.2) := by
  simp [insertAt]

lemma insertAt_of_ne {i : Fin slidingLayerRows} {j : Fin slidingLayerCols} (h : (i, j) ≠ p) :
    insertAt scr w p layers i j = layers i j := by
  by_cases hi : i = p.1
  · subst hi
    have hj : j ≠ p.2 := fun hj => h (Prod.ext rfl hj)
    simp only [insertAt, Function.update_self, Function.update_of_ne hj]
  · simp only [insertAt, Function.update_of_ne hi]

/-- What holds of the new layer and of the old ones holds of all. -/
lemma forall_insertAt {Q : SlidingLayer → Prop} (hnew : Q (insertedLayer scr w (layers p.1 p.2)))
    (hold : ∀ i j, Q (layers i j)) (i : Fin slidingLayerRows) (j : Fin slidingLayerCols) :
    Q (insertAt scr w p layers i j) := by
  by_cases h : (i, j) = p
  · subst h
    rw [insertAt_same]
    exact hnew
  · rw [insertAt_of_ne h]
    exact hold i j

@[simp] lemma insertAt_map (i : Fin slidingLayerRows) (j : Fin slidingLayerCols) :
    (insertAt scr w p layers i j).map = (layers i j).map := by
  by_cases h : (i, j) = p
  · subst h
    rw [insertAt_same, insertedLayer_map]
  · rw [insertAt_of_ne h]

@[simp] lemma slidingNextCycle_map (s : SlidingLayer) : (slidingNextCycle s).map = s.map := by
  rw [slidingNextCycle]
  split
  · rfl
  · simp only
    split <;> rfl

@[simp] lemma slidingNextCycle_width (s : SlidingLayer) :
    (slidingNextCycle s).width = s.width := by
  rw [slidingNextCycle]
  split
  · rfl
  · simp only
    split <;> rfl

/-- A layer that is enabled after a cycle has moved by its speed and is still on the screen. -/
lemma slidingNextCycle_of_enable {s : SlidingLayer} (h : (slidingNextCycle s).enable = true) :
    s.enable = true ∧ -s.width ≤ s.x - s.ppc
      ∧ slidingNextCycle s = { s with x := s.x - s.ppc } := by
  rw [slidingNextCycle] at h ⊢
  cases he : s.enable with
  | false => simp [he] at h
  | true =>
      simp only [he, Bool.not_true, Bool.false_eq_true, if_false] at h ⊢
      split_ifs at h ⊢ with hx
      exact ⟨trivial, not_lt.mp hx, rfl⟩

lemma enable_of_slidingNextCycle {s : SlidingLayer} (h : (slidingNextCycle s).enable = true) :
    s.enable = true := (slidingNextCycle_of_enable h).1

/-- A text is on the screen after its first cycle. -/
lemma insertedLayer_next_enable (scr : Screen) (w : ℕ) (s : SlidingLayer) :
    (slidingNextCycle (insertedLayer scr w s)).enable = true := by
  have hw := scr.le_width
  have hx : ¬ (scr.width : ℤ) - (1 + ((w : ℤ) + scr.width) / 384) < -(w : ℤ) := by omega
  simp [slidingNextCycle, insertedLayer, cyclePerDanmu, hx]

@[simp] lemma staticNextCycle_map (s : StaticLayer) : (staticNextCycle s).map = s.map := by
  rw [staticNextCycle]
  split
  · simp only
    split <;> rfl
  · rfl

/-- Reading leaves the layers and the maps alone, and hands nothing on. -/
lemma readLine_layers (h : readLine inp r = some (r', calls)) :
    r'.slidingLayers = r.slidingLayers ∧ r'.staticLayers = r.staticLayers ∧ r'.canvas = r.canvas
      ∧ ∀ dest, handed dest calls = [] := by
  obtain ⟨calls', hcalls, he⟩ := readLine_eq inp r
  rw [he] at h
  obtain ⟨sq, -, h⟩ := Option.bind_eq_some_iff.mp h
  obtain ⟨tq, -, h⟩ := Option.map_eq_some_iff.mp h
  obtain ⟨rfl, rfl⟩ := Prod.mk.inj h
  exact ⟨rfl, rfl, rfl, hcalls⟩

/-- The sliding queue's turn: no text or no layer, or the text goes to the layer. -/
lemma feedSliding_cases (h : feedSliding scr inp r = some (r', calls)) :
    (r.slidingQueen.fetch = none ∨ freeSlot scr r = none) ∧ r' = r
        ∧ handed .slidingQueen calls = []
    ∨ ∃ t p, r.slidingQueen.fetch = some t ∧ freeSlot scr r = some p
        ∧ r'.slidingLayers = insertAt scr (outWidth inp t) p r.slidingLayers
        ∧ r'.staticLayers = r.staticLayers
        ∧ r'.canvas = (writeFontMap scr.edge (r.slidingLayers p.1 p.2).map t.strlenUtf8
            inp.slidingRand (inp.bitmap t) r.canvas).1
        ∧ handed .slidingQueen calls = [t] := by
  rw [feedSliding] at h
  split at h
  · rename_i hfetch
    obtain ⟨rfl, rfl⟩ := Prod.mk.inj (Option.some.inj h)
    exact Or.inl ⟨Or.inl hfetch, rfl, rfl⟩
  · rename_i t hfetch
    rw [insertSliding] at h
    split at h
    · rename_i hfree
      obtain ⟨rfl, rfl⟩ := Prod.mk.inj (Option.some.inj h)
      exact Or.inl ⟨Or.inr hfree, rfl, rfl⟩
    · rename_i i j hfree
      have he : (r.slidingLayers i j).enable = false := freeSlot_enable hfree
      simp only [slidingSetDanmu, he, Bool.false_eq_true, if_false, Option.bind_eq_bind,
        Option.bind_some, Option.pure_def, if_true] at h
      obtain ⟨rfl, rfl⟩ := Prod.mk.inj (Option.some.inj h)
      exact Or.inr ⟨t, (i, j), hfetch, hfree, rfl, rfl, rfl, rfl⟩

/-- The sliding queue's turn leaves the static layers alone. -/
lemma feedSliding_static (h : feedSliding scr inp r = some (r', calls)) :
    r'.staticLayers = r.staticLayers ∧ r'.staticQueen = r.staticQueen
      ∧ handed .staticQueen calls = [] := by
  rw [feedSliding] at h
  split at h
  · obtain ⟨rfl, rfl⟩ := Prod.mk.inj (Option.some.inj h)
    exact ⟨rfl, rfl, rfl⟩
  · rename_i tmp _
    obtain ⟨⟨r₁, inserted⟩, hins, h⟩ := Option.bind_eq_some_iff.mp h
    have hsame : r₁.staticLayers = r.staticLayers ∧ r₁.staticQueen = r.staticQueen := by
      rw [insertSliding] at hins
      split at hins
      · obtain ⟨rfl, -⟩ := Prod.mk.inj (Option.some.inj hins)
        exact ⟨rfl, rfl⟩
      · obtain ⟨drawn, -, hins⟩ := Option.bind_eq_some_iff.mp hins
        obtain ⟨rfl, -⟩ := Prod.mk.inj (Option.some.inj hins)
        exact ⟨rfl, rfl⟩
    cases inserted with
    | true =>
        obtain ⟨rfl, rfl⟩ := Prod.mk.inj (Option.some.inj h)
        exact ⟨hsame.1, hsame.2, rfl⟩
    | false =>
        obtain ⟨rfl, rfl⟩ := Prod.mk.inj (Option.some.inj h)
        exact ⟨hsame.1, hsame.2, rfl⟩

/-- The static queue's turn leaves the sliding layers alone, and draws into a static map at most. -/
lemma feedStatic_cases (scr : Screen) (inp : FrameInput) (r : Renderer) :
    (feedStatic scr inp r).1.slidingLayers = r.slidingLayers
    ∧ handed .slidingQueen (feedStatic scr inp r).2 = []
    ∧ (∀ k, ((feedStatic scr inp r).1.staticLayers k).map = (r.staticLayers k).map)
    ∧ (r.staticQueen.fetch = none ∧ (feedStatic scr inp r).1.canvas = r.canvas
      ∨ ∃ t k, r.staticQueen.fetch = some t ∧ (feedStatic scr inp r).1.canvas
          = (writeFontMap scr.edge (r.staticLayers k).map t.strlenUtf8 inp.staticRand
              (inp.bitmap t) r.canvas).1) := by
  rw [feedStatic]
  split
  · rename_i hfetch
    exact ⟨rfl, rfl, fun _ => rfl, Or.inl ⟨hfetch, rfl⟩⟩
  · rename_i tmp hfetch
    refine ⟨rfl, rfl, fun k => ?_, Or.inr ⟨tmp, _, hfetch, rfl⟩⟩
    simp only [insertStatic, Function.update_apply]
    split_ifs with hk
    · rw [hk, forceStaticSetDanmu]
    · rfl

/-- **What a frame does to the layers**: it sets the layer of the insertion, if there is one, draws
its text and at most one static text, and applies a cycle to all layers; `c` are the maps between
the two drawings. -/
theorem renderFrame_insertion (h : renderFrame scr inp r = some (r', calls)) :
    ∃ c : Canvas,
      (insertion scr inp r = none ∧ handed .slidingQueen calls = [] ∧ c = r.canvas
          ∧ r'.slidingLayers = (fun i j => slidingNextCycle (r.slidingLayers i j))
        ∨ ∃ t p, insertion scr inp r = some (t, p) ∧ handed .slidingQueen calls = [t]
          ∧ c = (writeFontMap scr.edge (r.slidingLayers p.1 p.2).map t.strlenUtf8
              inp.slidingRand (inp.bitmap t) r.canvas).1
          ∧ r'.slidingLayers = fun i j =>
              slidingNextCycle (insertAt scr (outWidth inp t) p r.slidingLayers i j))
      ∧ (∀ k, (r'.staticLayers k).map = (r.staticLayers k).map)
      ∧ (staticText inp r = none ∧ r'.canvas = c
        ∨ ∃ t k, staticText inp r = some t ∧ r'.canvas
          = (writeFontMap scr.edge (r.staticLayers k).map t.strlenUtf8 inp.staticRand
              (inp.bitmap t) c).1) := by
  obtain ⟨r₁, read, r₂, slid, h₁, h₂, rfl, rfl⟩ := renderFrame_eq_some_iff.mp h
  obtain ⟨hs₁, ht₁, hc₁, hread⟩ := readLine_layers h₁
  obtain ⟨hs₃, hplaced, hmap₃, hc₃⟩ := feedStatic_cases scr inp r₂
  have hins : insertion scr inp r = r₁.slidingQueen.fetch.bind fun t =>
      (freeSlot scr r₁).map fun p => (t, p) := by
    simp only [insertion, h₁, Option.bind_eq_bind, Option.bind_some, Option.pure_def]
    cases r₁.slidingQueen.fetch <;> cases freeSlot scr r₁ <;> rfl
  have hnext : (nextCycle (feedStatic scr inp r₂).1).slidingLayers
      = fun i j => slidingNextCycle (r₂.slidingLayers i j) := by
    rw [← hs₃]
    rfl
  have hcalls : handed .slidingQueen (read ++ slid ++ (feedStatic scr inp r₂).2)
      = handed .slidingQueen slid := by
    rw [handed_append, handed_append, hread, hplaced, List.nil_append, List.append_nil]
  obtain ⟨ht₂, hq₂, -⟩ := feedSliding_static h₂
  have htext : staticText inp r = r₂.staticQueen.fetch := by
    simp only [staticText, h₁, hq₂, Option.bind_eq_bind, Option.bind_some]
  rw [ht₂.trans ht₁] at hmap₃ hc₃
  rw [← htext] at hc₃
  refine ⟨r₂.canvas, ?_, ?_, hc₃⟩
  · rcases feedSliding_cases h₂ with ⟨hnone, rfl, hslid⟩ | ⟨t, p, ht, hp, hs₂, -, hc₂, hslid⟩
    · refine Or.inl ⟨?_, hcalls.trans hslid, hc₁, hnext.trans (by rw [hs₁])⟩
      rw [hins]
      rcases hnone with hnone | hnone <;> simp [hnone]
    · refine Or.inr ⟨t, p, ?_, hcalls.trans hslid, ?_, hnext.trans (by rw [hs₂, hs₁])⟩
      · rw [hins, ht, hp]
        rfl
      · rw [hc₂, hc₁, hs₁]
  · intro k
    exact (staticNextCycle_map _).trans (hmap₃ k)

/-- What a cycle brings about in every layer, and in a new one, holds after a frame. -/
lemma forall_slidingLayers {Q : SlidingLayer → Prop}
    (h : renderFrame scr inp r = some (r', calls))
    (hnew : ∀ t s, Q (slidingNextCycle (insertedLayer scr (outWidth inp t) s)))
    (hold : ∀ i j, Q (slidingNextCycle (r.slidingLayers i j))) (i : Fin slidingLayerRows)
    (j : Fin slidingLayerCols) : Q (r'.slidingLayers i j) := by
  obtain ⟨c, ⟨-, -, -, hs⟩ | ⟨t, p, -, -, -, hs⟩, -⟩ := renderFrame_insertion h
  · rw [hs]
    exact hold i j
  · rw [hs]
    exact forall_insertAt (Q := fun s => Q (slidingNextCycle s)) (hnew t _) hold i j

/-- The layer of an insertion is free, and the other texts of its row have entered the screen
completely. -/
lemma insertion_spec (h : insertion scr inp r = some (t, p)) :
    (r.slidingLayers p.1 p.2).enable = false
      ∧ ∀ k ≠ p.2, (r.slidingLayers p.1 k).enable = true →
        (r.slidingLayers p.1 k).x + (r.slidingLayers p.1 k).width ≤ scr.width := by
  obtain ⟨⟨r₁, read⟩, h₁, h⟩ := Option.bind_eq_some_iff.mp h
  obtain ⟨tmp, -, h⟩ := Option.bind_eq_some_iff.mp h
  obtain ⟨q, hfree, hpair⟩ := Option.bind_eq_some_iff.mp h
  obtain ⟨-, rfl⟩ := Prod.mk.inj (Option.some.inj hpair)
  have hs : r₁.slidingLayers = r.slidingLayers := (readLine_layers h₁).1
  rw [← hs]
  refine ⟨freeSlot_enable hfree, fun k hk he => ?_⟩
  have hconflict := List.find?_some hfree
  simp only [Bool.and_eq_true, Bool.not_eq_true', conflict, List.any_eq_false, List.mem_finRange,
    true_implies, decide_eq_true_eq] at hconflict
  by_contra hx
  exact hconflict.2 k ⟨⟨Ne.symm hk, he⟩, not_le.mp hx⟩

/-- A frame that reads its line without a write outside a queue is rendered. -/
lemma renderFrame_of_readLine (scr : Screen) (h : readLine inp r = some (r', calls)) :
    ∃ r₂ all, renderFrame scr inp r = some (r₂, all) := by
  cases hfetch : r'.slidingQueen.fetch with
  | none => simp [renderFrame, h, feedSliding, hfetch]
  | some tmp =>
      obtain ⟨r₂, inserted, hins, -⟩ := insertSliding_spec scr inp tmp r'
      cases inserted <;> simp [renderFrame, h, feedSliding, hfetch, hins]

/-- So is a frame that inserts a text. -/
lemma renderFrame_of_insertion (h : insertion scr inp r = some (t, p)) :
    ∃ r' calls, renderFrame scr inp r = some (r', calls) := by
  obtain ⟨_, h₁, -⟩ := Option.bind_eq_some_iff.mp h
  exact renderFrame_of_readLine scr h₁

lemma renderFrame_of_staticText (scr : Screen) (h : staticText inp r = some t) :
    ∃ r' calls, renderFrame scr inp r = some (r', calls) := by
  obtain ⟨_, h₁, -⟩ := Option.bind_eq_some_iff.mp h
  exact renderFrame_of_readLine scr h₁

end Frame

end Danmaku
