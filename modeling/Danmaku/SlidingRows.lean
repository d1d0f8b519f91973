import Mathlib
import Danmaku.SlidingCycle
import Danmaku.SlidingProgress

/-!
The comments of one row.

`InsertSliding` looks at the right edge of the screen only, when a comment enters. But a wider
comment is faster, and can catch up with the one in front before that one has left.

* `Renderer.RowsDisjoint`: the comments of a row show no common column; `RowsStayDisjoint`: nor
  will those on the screen now.
* `KeepsDistance`: the condition on a frame; `apart_iterate_iff`: what it says about two comments.
* `rowsDisjoint_iff`: **the rows stay disjoint exactly when every insertion keeps the distance**.
-/

namespace Danmaku

open Transition

/-- Two layers, if both are enabled, cover no common column. -/
def SlidingLayer.Apart (a b : SlidingLayer) : Prop :=
  a.enable = true → b.enable = true →
    Disjoint (Set.Ico a.x (a.x + a.width)) (Set.Ico b.x (b.x + b.width))

/-- Two enabled layers of one row cover no common column. -/
def Renderer.RowsDisjoint (r : Renderer) : Prop :=
  ∀ i j k, j ≠ k → (r.slidingLayers i j).Apart (r.slidingLayers i k)

/-- The layers that are enabled now cover no common column, now and while they move on. -/
def Renderer.RowsStayDisjoint (r : Renderer) : Prop := ∀ n, (nextCycle^[n] r).RowsDisjoint

/-- A call of `RenderOnce` in which every text is rendered at least one pixel wide. -/
def FrameStep (scr : Screen) (r : Renderer) (inp : FrameInput) (r' : Renderer) : Prop :=
  (∀ t, 1 ≤ outWidth inp t) ∧ ∃ calls, renderFrame scr inp r = some (r', calls)

/-- The text that the frame inserts does not gain more on another one of its row than the gap
between the two, in the cycles that both are enabled. -/
def KeepsDistance (scr : Screen) (r : Renderer) (inp : FrameInput) : Prop :=
  ∀ t p, insertion scr inp r = some (t, p) → ∀ k ≠ p.2,
    let a := r.slidingLayers p.1 k
    let b := insertedLayer scr (outWidth inp t) (r.slidingLayers p.1 p.2)
    a.enable = true →
      (b.ppc - a.ppc) * min ((a.x + a.width) / a.ppc) ((b.x + b.width) / b.ppc)
        ≤ b.x - (a.x + a.width)

instance (scr : Screen) (r : Renderer) (inp : FrameInput) : Decidable (KeepsDistance scr r inp) :=
  decidable_of_iff
    (∀ q ∈ insertion scr inp r, ∀ k ≠ q.2.2,
      let a := r.slidingLayers q.2.1 k
      let b := insertedLayer scr (outWidth inp q.1) (r.slidingLayers q.2.1 q.2.2)
      a.enable = true →
        (b.ppc - a.ppc) * min ((a.x + a.width) / a.ppc) ((b.x + b.width) / b.ppc)
          ≤ b.x - (a.x + a.width))
    ⟨fun h t p => h (t, p), fun h q => h q.1 q.2⟩

/-! ### Layers that move on -/

/-- An enabled layer has the speed of its width, and is on the screen. -/
def SlidingLayer.Moving (scr : Screen) (s : SlidingLayer) : Prop :=
  s.enable = true → 1 ≤ s.width ∧ s.ppc = 1 + (s.width + scr.width) / cyclePerDanmu
    ∧ -s.width ≤ s.x

namespace SlidingLayer

variable {scr : Screen} {s a b : SlidingLayer} {n : ℕ}

lemma Apart.symm (h : a.Apart b) : b.Apart a := fun hb ha => (h ha hb).symm

/-- The intervals of two layers that are not empty. -/
lemma apart_iff (ha : a.enable = true) (hb : b.enable = true) (hwa : 1 ≤ a.width)
    (hwb : 1 ≤ b.width) : a.Apart b ↔ a.x + a.width ≤ b.x ∨ b.x + b.width ≤ a.x := by
  simp only [Apart, ha, hb, true_implies, Set.Ico_disjoint_Ico]
  omega

namespace Moving

lemma ppc_pos (h : s.Moving scr) (he : s.enable = true) : 0 < s.ppc := by
  obtain ⟨hw, hppc, -⟩ := h he
  rw [hppc, cyclePerDanmu]
  omega

lemma next (h : s.Moving scr) : (slidingNextCycle s).Moving scr := by
  intro he
  obtain ⟨he₀, hx, heq⟩ := slidingNextCycle_of_enable he
  obtain ⟨hw, hppc, -⟩ := h he₀
  rw [heq]
  exact ⟨hw, hppc, hx⟩

lemma insertedLayer {w : ℕ} (hw : 1 ≤ w) : (insertedLayer scr w s).Moving scr := by
  intro _
  refine ⟨Int.ofNat_le.mpr hw, rfl, ?_⟩
  simp only [Danmaku.insertedLayer]
  omega

/-- A layer after `n` cycles: it is enabled as long as its right end is on the screen. -/
lemma iterate (h : s.Moving scr) (he : s.enable = true) (n : ℕ) :
    ((slidingNextCycle^[n] s).enable = true ↔ n * s.ppc ≤ s.x + s.width)
      ∧ ((slidingNextCycle^[n] s).enable = true →
        slidingNextCycle^[n] s = { s with x := s.x - n * s.ppc }) :=
  s.iterate_cycle he (h.ppc_pos he) (h he).2.2 n

end Moving

/-- A layer that is enabled after some cycles is enabled now. -/
lemma enable_of_iterate (h : (slidingNextCycle^[n] s).enable = true) : s.enable = true := by
  induction n generalizing s with
  | zero => exact h
  | succ n ih => exact enable_of_slidingNextCycle (ih h)

/-- The cycles that two layers are both enabled. -/
lemma both_enabled_iff (ha : a.Moving scr) (hb : b.Moving scr) (hae : a.enable = true)
    (hbe : b.enable = true) (n : ℕ) :
    (n : ℤ) ≤ min ((a.x + a.width) / a.ppc) ((b.x + b.width) / b.ppc) ↔
      (slidingNextCycle^[n] a).enable = true ∧ (slidingNextCycle^[n] b).enable = true := by
  rw [(ha.iterate hae n).1, (hb.iterate hbe n).1, le_min_iff,
    Int.le_ediv_iff_mul_le (ha.ppc_pos hae), Int.le_ediv_iff_mul_le (hb.ppc_pos hbe)]

/-- Two layers after `n` cycles. -/
lemma apart_at_iff (ha : a.Moving scr) (hb : b.Moving scr) (hae : a.enable = true)
    (hbe : b.enable = true)
    (hn : (n : ℤ) ≤ min ((a.x + a.width) / a.ppc) ((b.x + b.width) / b.ppc)) :
    (slidingNextCycle^[n] a).Apart (slidingNextCycle^[n] b) ↔
      a.x - n * a.ppc + a.width ≤ b.x - n * b.ppc
        ∨ b.x - n * b.ppc + b.width ≤ a.x - n * a.ppc := by
  obtain ⟨hna, hnb⟩ := (both_enabled_iff ha hb hae hbe n).mp hn
  rw [(ha.iterate hae n).2 hna, (hb.iterate hbe n).2 hnb]
  exact apart_iff hae hbe (ha hae).1 (hb hbe).1

/-- A layer behind another one never passes it: a cycle is too short. -/
lemma behind_of_apart (ha : a.Moving scr) (hb : b.Moving scr) (hae : a.enable = true)
    (hbe : b.enable = true) (hgap : a.x + a.width ≤ b.x)
    (h : ∀ n, (slidingNextCycle^[n] a).Apart (slidingNextCycle^[n] b))
    (hn : (n : ℤ) ≤ min ((a.x + a.width) / a.ppc) ((b.x + b.width) / b.ppc)) :
    a.x - n * a.ppc + a.width ≤ b.x - n * b.ppc := by
  induction n with
  | zero => simpa using hgap
  | succ n ih =>
      have hprev := ih (by push_cast at hn; omega)
      rcases (apart_at_iff ha hb hae hbe hn).mp (h (n + 1)) with hfront | hpassed
      · exact hfront
      · obtain ⟨hwa, hppca, -⟩ := ha hae
        obtain ⟨hwb, hppcb, -⟩ := hb hbe
        have hshort : b.ppc - a.ppc < a.width + b.width := by
          rw [hppca, hppcb, cyclePerDanmu]
          omega
        push_cast at hpassed
        rw [add_mul, add_mul, one_mul, one_mul] at hpassed
        omega

/-- **When a layer stays behind another one**: `b` begins behind `a`, and gains on it in the cycles
that both are enabled no more than the gap. -/
lemma apart_iterate_iff (ha : a.Moving scr) (hb : b.Moving scr) (hae : a.enable = true)
    (hbe : b.enable = true) (hgap : a.x + a.width ≤ b.x) :
    (∀ n, (slidingNextCycle^[n] a).Apart (slidingNextCycle^[n] b)) ↔
      (b.ppc - a.ppc) * min ((a.x + a.width) / a.ppc) ((b.x + b.width) / b.ppc)
        ≤ b.x - (a.x + a.width) := by
  set last := min ((a.x + a.width) / a.ppc) ((b.x + b.width) / b.ppc) with hlast
  have hmul : ∀ n : ℤ, n * (b.ppc - a.ppc) = n * b.ppc - n * a.ppc := fun n => mul_sub n _ _
  constructor
  · intro h
    have hlast0 : 0 ≤ last := by
      obtain ⟨hwa, -, hxa⟩ := ha hae
      obtain ⟨hwb, -, hxb⟩ := hb hbe
      rw [hlast, le_min_iff]
      exact ⟨Int.ediv_nonneg (by omega) (ha.ppc_pos hae).le,
        Int.ediv_nonneg (by omega) (hb.ppc_pos hbe).le⟩
    obtain ⟨n, hn⟩ := Int.eq_ofNat_of_zero_le hlast0
    have hfront := behind_of_apart ha hb hae hbe hgap h hn.ge
    have := hmul n
    rw [mul_comm, hn]
    omega
  · intro h n hna hnb
    have hn : (n : ℤ) ≤ last := (both_enabled_iff ha hb hae hbe n).mpr ⟨hna, hnb⟩
    refine ((apart_at_iff ha hb hae hbe hn).mpr (Or.inl ?_)) hna hnb
    have hgain : (n : ℤ) * (b.ppc - a.ppc) ≤ b.x - (a.x + a.width) := by
      rcases le_total (b.ppc - a.ppc) 0 with hslow | hfast
      · calc (n : ℤ) * (b.ppc - a.ppc)
          _ ≤ 0 := mul_nonpos_of_nonneg_of_nonpos (Int.natCast_nonneg n) hslow
          _ ≤ b.x - (a.x + a.width) := by omega
      · calc (n : ℤ) * (b.ppc - a.ppc)
          _ ≤ last * (b.ppc - a.ppc) := mul_le_mul_of_nonneg_right hn hfast
          _ = (b.ppc - a.ppc) * last := mul_comm _ _
          _ ≤ b.x - (a.x + a.width) := h
    rw [hmul] at hgain
    omega

end SlidingLayer

/-! ### A frame -/

section Frame

variable {scr : Screen} {inp : FrameInput} {r r' : Renderer}

/-- The layers that move on are those of the renderer, each on its own. -/
lemma slidingLayers_iterate (r : Renderer) (n : ℕ) (i : Fin slidingLayerRows)
    (j : Fin slidingLayerCols) :
    (nextCycle^[n] r).slidingLayers i j = slidingNextCycle^[n] (r.slidingLayers i j) := by
  induction n generalizing r with
  | zero => rfl
  | succ n ih => exact ih (nextCycle r)

/-- The layers before the cycle of a frame. -/
lemma FrameStep.layers (h : FrameStep scr r inp r') :
    (insertion scr inp r = none
        ∧ ∀ i j, r'.slidingLayers i j = slidingNextCycle (r.slidingLayers i j))
      ∨ ∃ t p, insertion scr inp r = some (t, p)
        ∧ r'.slidingLayers p.1 p.2 = slidingNextCycle (insertedLayer scr (outWidth inp t)
          (r.slidingLayers p.1 p.2))
        ∧ ∀ i j, (i, j) ≠ p → r'.slidingLayers i j = slidingNextCycle (r.slidingLayers i j) := by
  obtain ⟨-, calls, hr⟩ := h
  obtain ⟨c, ⟨hnone, -, -, hs⟩ | ⟨t, p, hsome, -, -, hs⟩, -⟩ := renderFrame_insertion hr
  · exact Or.inl ⟨hnone, fun i j => by rw [hs]⟩
  · refine Or.inr ⟨t, p, hsome, ?_, fun i j hij => ?_⟩
    · simp only [hs, insertAt_same]
    · simp only [hs, insertAt_of_ne hij]

/-- A layer that is enabled is not the one of an insertion: a frame is a cycle for it. -/
lemma FrameStep.of_enable (h : FrameStep scr r inp r') {i : Fin slidingLayerRows}
    {j : Fin slidingLayerCols} (he : (r.slidingLayers i j).enable = true) :
    r'.slidingLayers i j = slidingNextCycle (r.slidingLayers i j) := by
  rcases h.layers with ⟨-, hs⟩ | ⟨t, p, hins, -, hs⟩
  · exact hs i j
  · refine hs i j fun hp => ?_
    subst hp
    rw [(insertion_spec hins).1] at he
    exact absurd he (by simp)

/-- All layers have the speed of their width. -/
def Renderer.Moving (scr : Screen) (r : Renderer) : Prop :=
  ∀ i j, (r.slidingLayers i j).Moving scr

lemma Renderer.Moving.frame (hm : r.Moving scr) (h : FrameStep scr r inp r') : r'.Moving scr := by
  obtain ⟨hw, calls, hr⟩ := h
  refine forall_slidingLayers hr (fun t s => ?_) fun i j => ?_
  · exact (SlidingLayer.Moving.insertedLayer (hw t)).next
  · exact (hm i j).next

/-- What an insertion adds to the rows: the new text and each one of its row, from the cycle of the
frame on. -/
lemma apart_inserted_iff (hm : r.Moving scr) (hw : ∀ t, 1 ≤ outWidth inp t) {t : Text}
    {p : Fin slidingLayerRows × Fin slidingLayerCols} (hins : insertion scr inp r = some (t, p))
    {k : Fin slidingLayerCols} (hk : k ≠ p.2) (he : (r.slidingLayers p.1 k).enable = true) :
    let a := r.slidingLayers p.1 k
    let b := insertedLayer scr (outWidth inp t) (r.slidingLayers p.1 p.2)
    (∀ n, (slidingNextCycle^[n] (slidingNextCycle a)).Apart
        (slidingNextCycle^[n] (slidingNextCycle b)))
      ↔ (b.ppc - a.ppc) * min ((a.x + a.width) / a.ppc) ((b.x + b.width) / b.ppc)
        ≤ b.x - (a.x + a.width) := by
  intro a b
  have hgap : a.x + a.width ≤ b.x := (insertion_spec hins).2 k hk he
  have hb : b.Moving scr := SlidingLayer.Moving.insertedLayer (hw t)
  rw [← SlidingLayer.apart_iterate_iff (hm p.1 k) hb he rfl hgap]
  constructor
  · intro h n
    cases n with
    | zero => exact (SlidingLayer.apart_iff he rfl (hm p.1 k he).1 (hb rfl).1).mpr (Or.inl hgap)
    | succ n => exact h n
  · exact fun h n => h (n + 1)

/-- A frame that keeps the distance keeps the rows disjoint for good. -/
lemma Renderer.RowsStayDisjoint.frame (hd : r.RowsStayDisjoint) (hm : r.Moving scr)
    (hkeeps : KeepsDistance scr r inp) (h : FrameStep scr r inp r') : r'.RowsStayDisjoint := by
  have hold : ∀ n i j k, j ≠ k →
      (slidingNextCycle^[n] (slidingNextCycle (r.slidingLayers i j))).Apart
        (slidingNextCycle^[n] (slidingNextCycle (r.slidingLayers i k))) := by
    intro n i j k hjk
    have := hd (n + 1) i j k hjk
    rwa [slidingLayers_iterate, slidingLayers_iterate] at this
  intro n i j k hjk
  rw [slidingLayers_iterate, slidingLayers_iterate]
  rcases h.layers with ⟨-, hs⟩ | ⟨t, p, hins, hp, hs⟩
  · rw [hs, hs]
    exact hold n i j k hjk
  · -- the new text and one of its row
    have hnew : ∀ k ≠ p.2, (slidingNextCycle^[n] (slidingNextCycle (r.slidingLayers p.1 k))).Apart
        (slidingNextCycle^[n] (r'.slidingLayers p.1 p.2)) := by
      intro k hk he
      have henable := enable_of_slidingNextCycle (SlidingLayer.enable_of_iterate he)
      rw [hp]
      exact (apart_inserted_iff hm h.1 hins hk henable).mpr (hkeeps t p hins k hk henable) n he
    by_cases hj : (i, j) = p
    · subst hj
      rw [hs i k fun hk => hjk (congrArg Prod.snd hk).symm]
      exact (hnew k hjk.symm).symm
    · by_cases hk : (i, k) = p
      · subst hk
        rw [hs i j hj]
        exact hnew j hjk
      · rw [hs i j hj, hs i k hk]
        exact hold n i j k hjk

/-- A frame that does not keep the distance leads to an overlap. -/
lemma not_rowsStayDisjoint_frame (hm : r.Moving scr) (hbad : ¬ KeepsDistance scr r inp)
    (h : FrameStep scr r inp r') : ¬ r'.RowsStayDisjoint := by
  intro hd
  refine hbad fun t p hins k hk he => (apart_inserted_iff hm h.1 hins hk he).mp fun n => ?_
  have hpair := hd n p.1 k p.2 hk
  rw [slidingLayers_iterate, slidingLayers_iterate] at hpair
  rcases h.layers with ⟨hnone, -⟩ | ⟨t', p', hins', hp, hs⟩
  · rw [hins] at hnone
    exact absurd hnone (by simp)
  · obtain ⟨rfl, rfl⟩ := Prod.mk.inj (Option.some.inj (hins.symm.trans hins'))
    rwa [hp, hs p.1 k fun hkp => hk (congrArg Prod.snd hkp)] at hpair

/-- The rows stay disjoint from a frame on, if they do so after it: the layers of this frame move
on there. -/
lemma rowsStayDisjoint_of_frame (hd : r.RowsDisjoint) (h : FrameStep scr r inp r')
    (hd' : r'.RowsStayDisjoint) : r.RowsStayDisjoint := by
  intro n i j k hjk
  cases n with
  | zero => exact hd i j k hjk
  | succ n =>
      rw [slidingLayers_iterate, slidingLayers_iterate]
      intro hej hek
      have hpair := hd' n i j k hjk
      rw [slidingLayers_iterate, slidingLayers_iterate] at hpair
      rw [h.of_enable (SlidingLayer.enable_of_iterate hej),
        h.of_enable (SlidingLayer.enable_of_iterate hek)] at hpair
      exact hpair hej hek

end Frame

/-! ### Runs -/

/-- The layers that are enabled after some cycles are so after as many frames, whatever these
insert; so an overlap that `RowsStayDisjoint` excludes is one that the run comes to. -/
lemma not_rowsDisjoint_of_run {scr : Screen} {r r' : Renderer} {inps : List FrameInput}
    (h : Run (FrameStep scr) r inps r') (hbad : ¬ (nextCycle^[inps.length] r).RowsDisjoint) :
    ¬ r'.RowsDisjoint := by
  have hsame : ∀ i j, (slidingNextCycle^[inps.length] (r.slidingLayers i j)).enable = true →
      r'.slidingLayers i j = slidingNextCycle^[inps.length] (r.slidingLayers i j) := by
    intro i j
    clear hbad
    induction h with
    | nil => exact fun _ => rfl
    | snoc _ hs ih =>
        rw [List.length_append, List.length_singleton, Function.iterate_succ_apply']
        intro he
        have ht := ih (enable_of_slidingNextCycle he)
        rw [← ht] at he ⊢
        exact hs.of_enable (enable_of_slidingNextCycle he)
  refine fun hd => hbad fun i j k hjk => ?_
  rw [slidingLayers_iterate, slidingLayers_iterate]
  intro hej hek
  have hpair := hd i j k hjk
  rw [hsame i j hej, hsame i k hek] at hpair
  exact hpair hej hek

/-- **The rows stay disjoint exactly when every insertion keeps the distance**: in a run of frames
of one screen size, from a renderer without enabled layers, every state has disjoint rows, and the
last one keeps them while its comments move on. -/
theorem rowsDisjoint_iff {scr : Screen} {r r' : Renderer} {inps : List FrameInput}
    (h0 : ∀ i j, (r.slidingLayers i j).enable = false) :
    Run (fun t inp u => FrameStep scr t inp u ∧ u.RowsDisjoint) r inps r' ∧ r'.RowsStayDisjoint
      ↔ Run (Guard (FrameStep scr) (KeepsDistance scr)) r inps r' := by
  have hm : r.Moving scr := fun i j he => absurd he (by simp [h0 i j])
  have hd : r.RowsStayDisjoint := by
    intro n i j k _ he
    rw [slidingLayers_iterate] at he
    exact absurd (SlidingLayer.enable_of_iterate he) (by simp [h0 i j])
  refine Iff.trans ?_ (Run.keeps_iff_guard (P := Renderer.RowsStayDisjoint)
    (I := fun r => r.Moving scr ∧ r.RowsStayDisjoint) ⟨hm, hd⟩
    (fun t a u ht hkeeps hs => ⟨ht.1.frame hs, ht.2.frame ht.1 hkeeps hs⟩) (fun t ht => ht.2)
    (fun t a u ht hbad hs => not_rowsStayDisjoint_frame ht.1 hbad hs))
  constructor
  · intro ⟨hrun, hlast⟩
    induction hrun with
    | nil => exact .nil
    | @snoc as a t u hrun hs ih =>
        have ht : t.RowsDisjoint := hrun.invariant (hd 0) fun _ _ _ _ hs => hs.2
        exact .snoc (ih (rowsStayDisjoint_of_frame ht hs.1 hlast)) ⟨hs.1, hlast⟩
  · intro hrun
    refine ⟨hrun.mono fun t a u hs => ⟨hs.1, hs.2 0⟩, ?_⟩
    cases hrun with
    | nil => exact hd
    | snoc _ hs => exact hs.2

/-- The frames of the inputs in order, from layers that pass the test `ok` with their input. -/
def execFrames (ok : Renderer → FrameInput → Bool) (scr : Screen) (r : Renderer)
    (inps : List FrameInput) : Option Renderer :=
  inps.foldlM (fun r inp => if ok r inp then (renderFrame scr inp r).map Prod.fst else none) r

lemma run_of_execFrames {scr : Screen} {r r' : Renderer} {inps : List FrameInput}
    {G : Renderer → FrameInput → Prop} {ok : Renderer → FrameInput → Bool}
    (hok : ∀ r inp, ok r inp = true → G r inp) (hw : ∀ inp ∈ inps, ∀ t, 1 ≤ outWidth inp t)
    (h : execFrames ok scr r inps = some r') : Run (Guard (FrameStep scr) G) r inps r' := by
  refine Run.of_foldlM (fun inp hinp r r' hr => ?_) h
  split at hr
  · obtain ⟨p, hp, rfl⟩ := Option.map_eq_some_iff.mp hr
    exact ⟨⟨hw inp hinp, p.2, hp⟩, hok r inp ‹_›⟩
  · exact absurd hr (by simp)

/-- Two comments with a quiet frame between them. -/
def commentPair (w : ℕ) : List FrameInput :=
  [commentFrame 0x61#8 10, Sys.quietFrame, commentFrame 0x62#8 w]

lemma outWidth_commentPair {w : ℕ} (hw : 1 ≤ w) :
    ∀ inp ∈ commentPair w, ∀ t, 1 ≤ outWidth inp t := by
  simp only [commentPair, List.forall_mem_cons, List.not_mem_nil, false_implies, implies_true,
    and_true]
  exact ⟨fun _ => le_min (show 1 ≤ 10 by decide) (by decide), fun _ => le_min le_rfl (by decide),
    fun _ => le_min hw (by decide)⟩

/-- Two comments of ten pixels in one row, which the second one enters when the first one has moved
on by 18 pixels. -/
theorem rowsDisjoint_iff_oneRow : ∃ r' : Renderer,
    (r'.slidingLayers ⟨0, by decide⟩ ⟨0, by decide⟩).enable = true
      ∧ (r'.slidingLayers ⟨0, by decide⟩ ⟨1, by decide⟩).enable = true
      ∧ Run (Guard (FrameStep Screen.fullHd) (KeepsDistance Screen.fullHd))
        (initRenderer fun _ => 0#8) (commentPair 10) r'
      ∧ Run (fun t inp u => FrameStep Screen.fullHd t inp u ∧ u.RowsDisjoint)
        (initRenderer fun _ => 0#8) (commentPair 10) r'
      ∧ r'.RowsStayDisjoint := by
  have hexec : ((execFrames (fun r inp => decide (KeepsDistance Screen.fullHd r inp)) Screen.fullHd
      (initRenderer fun _ => 0#8) (commentPair 10)).map fun r =>
        ((r.slidingLayers ⟨0, by decide⟩ ⟨0, by decide⟩).enable,
          (r.slidingLayers ⟨0, by decide⟩ ⟨1, by decide⟩).enable)) = some (true, true) := by
    decide +kernel
  obtain ⟨r', hr, hobs⟩ := Option.map_eq_some_iff.mp hexec
  obtain ⟨h₀, h₁⟩ := Prod.mk.inj hobs
  have hrun := run_of_execFrames (fun _ _ h => of_decide_eq_true h)
    (outWidth_commentPair (by decide)) hr
  exact ⟨r', h₀, h₁, hrun, (rowsDisjoint_iff fun _ _ => rfl).mpr hrun⟩

/-- A comment of 2000 pixels catches up with one of ten in its first cycle. -/
theorem not_rowsDisjoint_catchUp : ∃ r' : Renderer,
    (∀ i j, ((initRenderer fun _ => 0#8).slidingLayers i j).enable = false)
      ∧ Run (FrameStep Screen.fullHd) (initRenderer fun _ => 0#8)
        [commentFrame 0x61#8 10, Sys.quietFrame, commentFrame 0x62#8 2000] r'
      ∧ ¬ r'.RowsDisjoint := by
  have hexec : ((execFrames (fun _ _ => true) Screen.fullHd (initRenderer fun _ => 0#8)
      (commentPair 2000)).map fun r =>
        let a := r.slidingLayers ⟨0, by decide⟩ ⟨0, by decide⟩
        let b := r.slidingLayers ⟨0, by decide⟩ ⟨1, by decide⟩
        (a.enable, a.x, a.width, b.enable, b.x, b.width))
      = some (true, 1902, 10, true, 1909, 2000) := by
    decide +kernel
  obtain ⟨r', hr, hobs⟩ := Option.map_eq_some_iff.mp hexec
  simp only [Prod.mk.injEq] at hobs
  obtain ⟨hae, hax, haw, hbe, hbx, hbw⟩ := hobs
  have hrun := run_of_execFrames (G := fun _ _ => True) (fun _ _ _ => trivial)
    (outWidth_commentPair (by decide)) hr
  refine ⟨r', fun _ _ => rfl, hrun.of_guard, fun hd => ?_⟩
  have hpair := hd ⟨0, by decide⟩ ⟨0, by decide⟩ ⟨1, by decide⟩ (by decide) hae hbe
  rw [hax, haw, hbx, hbw, Set.Ico_disjoint_Ico] at hpair
  exact absurd hpair (by decide)

end Danmaku
