import Danmaku.Insertion

/-!
The way of one comment across the screen.

`SlidingSetDanmu` chooses the speed so that the comment is gone after `CYCLE_PER_DANMU` cycles at
most, and no faster than needed for that.

* `SlidingLayer.iterate_cycle`: a layer after any number of cycles.
* `lastCycle`: the cycle in which a comment leaves; `lastCycle_le`, `lt_lastCycle`: its bounds.
* `comment_crosses`: **every comment crosses the screen in that time**.
-/

namespace Danmaku

namespace SlidingLayer

variable {s : SlidingLayer}

/-- A layer after `n` cycles: it is enabled as long as its right end is on the screen. -/
lemma iterate_cycle (he : s.enable = true) (hppc : 0 < s.ppc) (hx : -s.width ≤ s.x) (n : ℕ) :
    ((slidingNextCycle^[n] s).enable = true ↔ n * s.ppc ≤ s.x + s.width)
      ∧ ((slidingNextCycle^[n] s).enable = true →
        slidingNextCycle^[n] s = { s with x := s.x - n * s.ppc }) := by
  induction n with
  | zero =>
      rw [Nat.cast_zero, zero_mul, sub_zero]
      exact ⟨⟨fun _ => by omega, fun _ => he⟩, fun _ => rfl⟩
  | succ n ih =>
      rw [Function.iterate_succ_apply']
      push_cast
      rw [add_mul, one_mul]
      by_cases hn : (slidingNextCycle^[n] s).enable = true
      · rw [ih.2 hn, slidingNextCycle]
        simp only [he, Bool.not_true, Bool.false_eq_true, if_false]
        split_ifs with hout
        · simp only [false_iff, false_implies, and_true]
          omega
        · simp only [true_iff, true_implies]
          refine ⟨by omega, ?_⟩
          rw [sub_sub]
      · have hlate := ih.1.not.mp hn
        have hoff : ¬ (slidingNextCycle (slidingNextCycle^[n] s)).enable = true :=
          fun h => hn (enable_of_slidingNextCycle h)
        refine ⟨⟨fun h => absurd h hoff, fun h => ?_⟩, fun h => absurd h hoff⟩
        omega

/-- The cycle that takes a layer off the screen still moves it. -/
lemma cycle_of_leaving (he : s.enable = true) (hout : s.x - s.ppc < -s.width) :
    slidingNextCycle s = { s with x := s.x - s.ppc, enable := false } := by
  rw [slidingNextCycle]
  simp only [he, Bool.not_true, Bool.false_eq_true, if_false, if_pos hout]

lemma cycle_of_disabled (h : s.enable = false) : slidingNextCycle s = s := by
  rw [slidingNextCycle, h]
  rfl

end SlidingLayer

/-- The speed of a comment that has `d` pixels to go, from its left end at the right border of the
screen until its right end has left. -/
def commentSpeed (d : ℕ) : ℕ := 1 + d / cyclePerDanmu

/-- The cycle in which it leaves. -/
def lastCycle (d : ℕ) : ℕ := d / commentSpeed d + 1

/-- It has left after `CYCLE_PER_DANMU` cycles. -/
lemma lastCycle_le (d : ℕ) : lastCycle d ≤ cyclePerDanmu := by
  have hspeed : 0 < commentSpeed d := Nat.add_pos_left Nat.one_pos _
  have hlt : d < cyclePerDanmu * commentSpeed d := by
    simp only [commentSpeed, cyclePerDanmu]
    omega
  exact Nat.succ_le_of_lt ((Nat.div_lt_iff_lt_mul hspeed).mpr hlt)

/-- It is not faster than a pixel a cycle, or it takes half of them. -/
lemma lt_lastCycle (d : ℕ) : min d 192 < lastCycle d := by
  have hspeed : 0 < commentSpeed d := Nat.add_pos_left Nat.one_pos _
  refine Nat.lt_succ_of_le ((Nat.le_div_iff_mul_le hspeed).mpr ?_)
  rcases Nat.lt_or_ge d cyclePerDanmu with hslow | hfast
  · calc min d 192 * commentSpeed d = min d 192 := by
          rw [commentSpeed, Nat.div_eq_of_lt hslow, Nat.mul_one]
      _ ≤ d := Nat.min_le_left _ _
  · have hle : 192 * (1 + d / cyclePerDanmu) ≤ d := by
      simp only [cyclePerDanmu] at *
      omega
    calc min d 192 * commentSpeed d ≤ 192 * commentSpeed d :=
          Nat.mul_le_mul_right _ (Nat.min_le_right _ _)
      _ ≤ d := hle

section Comment

variable {scr : Screen} {s s' : SlidingLayer} {len rand : ℕ} {b : Bitmap} {c c' : Canvas}

/-- The layer that `SlidingSetDanmu` sets. -/
lemma slidingSetDanmu_spec (h : slidingSetDanmu scr s len rand b c = some (s', c')) :
    s'.enable = true ∧ s'.x = scr.width ∧ s'.width = (min b.width maxWidth : ℕ)
      ∧ s'.ppc = commentSpeed (scr.width + min b.width maxWidth) ∧ 0 < s'.ppc := by
  rw [slidingSetDanmu] at h
  split at h
  · exact absurd h (by simp)
  · obtain ⟨rfl, -⟩ := Prod.mk.inj (Option.some.inj h)
    have hspeed : 1 + (((min b.width maxWidth : ℕ) : ℤ) + scr.width) / cyclePerDanmu
        = commentSpeed (scr.width + min b.width maxWidth) := by
      rw [commentSpeed, Nat.add_comm scr.width]
      push_cast
      rfl
    refine ⟨rfl, rfl, rfl, hspeed, ?_⟩
    exact (Int.natCast_pos.mpr (Nat.add_pos_left Nat.one_pos _)).trans_eq hspeed.symm

/-- The cycles after which it is enabled. -/
lemma comment_enable_iff (h : slidingSetDanmu scr s len rand b c = some (s', c')) (k : ℕ) :
    (slidingNextCycle^[k] s').enable = true
      ↔ k < lastCycle (scr.width + min b.width maxWidth) := by
  obtain ⟨he, hx, hw, hp, hpos⟩ := slidingSetDanmu_spec h
  have hspeed : 0 < commentSpeed (scr.width + min b.width maxWidth) :=
    Nat.add_pos_left Nat.one_pos _
  rw [(s'.iterate_cycle he hpos (by omega) k).1, hx, hw, hp, lastCycle, Nat.lt_succ_iff,
    Nat.le_div_iff_mul_le hspeed]
  norm_cast

/-- **Every comment crosses the screen in bounded time**: for every screen and every width, the
layer that `SlidingSetDanmu` sets moves on by its speed, is disabled in cycle `lastCycle` and not
before, with its right end off the screen, and stays as it is. -/
theorem comment_crosses (h : slidingSetDanmu scr s len rand b c = some (s', c')) :
    let d := scr.width + min b.width maxWidth
    let n := d / commentSpeed d + 1
    s'.width = (min b.width maxWidth : ℕ) ∧ s'.ppc = commentSpeed d
      ∧ min d 192 < n ∧ n ≤ cyclePerDanmu
      ∧ (∀ k < n, (slidingNextCycle^[k] s').enable = true
        ∧ (slidingNextCycle^[k] s').x = scr.width - k * s'.ppc)
      ∧ (slidingNextCycle^[n] s').enable = false
      ∧ (slidingNextCycle^[n] s').x + (slidingNextCycle^[n] s').width < 0
      ∧ ∀ k, n ≤ k → slidingNextCycle^[k] s' = slidingNextCycle^[n] s' := by
  intro d n
  obtain ⟨he, hx, hw, hp, hspeed⟩ := slidingSetDanmu_spec h
  have hon : ∀ k, (slidingNextCycle^[k] s').enable = true ↔ k < n := comment_enable_iff h
  have hcycle := fun k => s'.iterate_cycle he hspeed (by omega) k
  have hoff : (slidingNextCycle^[n] s').enable = false :=
    Bool.eq_false_iff.mpr fun hn => lt_irrefl n ((hon n).mp hn)
  refine ⟨hw, hp, lt_lastCycle d, lastCycle_le d, fun k hk => ?_, hoff, ?_, fun k hk => ?_⟩
  · have henable := (hon k).mpr hk
    refine ⟨henable, ?_⟩
    rw [(hcycle k).2 henable, hx]
  · -- the last cycle starts from a layer that is still enabled
    have hlast := (hon (d / commentSpeed d)).mpr (Nat.lt_succ_self _)
    have hgone : s'.x + s'.width < n * s'.ppc := not_le.mp ((hcycle n).1.not.mp (by simp [hoff]))
    have hstep : (n : ℤ) * s'.ppc = (d / commentSpeed d : ℕ) * s'.ppc + s'.ppc := by
      rw [show n = d / commentSpeed d + 1 from rfl]
      push_cast
      ring
    have hleave := SlidingLayer.cycle_of_leaving (s := slidingNextCycle^[d / commentSpeed d] s')
      hlast (by rw [(hcycle _).2 hlast]; simp only; omega)
    rw [Function.iterate_succ_apply', hleave, (hcycle _).2 hlast]
    simp only
    omega
  · obtain ⟨m, rfl⟩ := Nat.exists_eq_add_of_le hk
    rw [Nat.add_comm, Function.iterate_add_apply]
    exact Function.iterate_fixed (SlidingLayer.cycle_of_disabled hoff) m

end Comment

/-- A comment of 2000 pixels on a screen of 1920: it moves 11 pixels a cycle and leaves in cycle
357. -/
theorem comment_crosses_wide : ∃ s' c',
    slidingSetDanmu .fullHd ⟨0, ⟨0, by decide⟩, 0, 0, false, 0⟩ 1 3 ⟨2000, 1, fun _ => 0#8⟩
      ⟨fun _ => 0#8, fun _ => 0#8, false⟩ = some (s', c')
    ∧ s'.ppc = 11 ∧ (slidingNextCycle^[356] s').enable = true
    ∧ (slidingNextCycle^[357] s').enable = false := by
  have hset : slidingSetDanmu .fullHd ⟨0, ⟨0, by decide⟩, 0, 0, false, 0⟩ 1 3
      ⟨2000, 1, fun _ => 0#8⟩ ⟨fun _ => 0#8, fun _ => 0#8, false⟩ = some _ := rfl
  obtain ⟨-, hp, -, -, hon, hoff, -, -⟩ := comment_crosses hset
  exact ⟨_, _, hset, hp, (hon 356 (by decide)).1, hoff⟩

end Danmaku
