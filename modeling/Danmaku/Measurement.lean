import Danmaku.Screen
import Danmaku.SyncPolarity

/-!
The size that `pxlCounter` measures.

The corrector settles within two frame periods. The next vsync pulse finds cleared counters or
clears them; the one after it latches the counts of a whole frame, and so does every later one.

* `VideoMode`: a steady video input; `counter`: the registers behind it.
* `settled`: the corrector passes the video on after two frames; `cleared_at_pulse`.
* `count_frame`: the counters from one pulse to the next; `latch`, `keep`: what they leave.
* `measures`: **the measured size is that of the video from the fourth frame on**.
-/

namespace Danmaku

open Period

/-- A steady video input: lines of `line` clocks, frames of `lines` lines; the first `w` clocks of
the first `h` lines are active. Each sync signal has one pulse a period, shorter than the rest, and
two clocks lie between the active video and its edges. -/
structure VideoMode where
  w : ℕ
  h : ℕ
  line : ℕ
  lines : ℕ
  hStart : ℕ
  hPulse : ℕ
  vStart : ℕ
  vPulse : ℕ
  /-- the level at which `hsync` rests -/
  hLevel : Bool
  vLevel : Bool
  one_le_w : 1 ≤ w
  one_le_h : 1 ≤ h
  w_lt : w < 2 ^ 16
  h_lt : h < 2 ^ 16
  h_le_lines : h ≤ lines
  one_le_hPulse : 1 ≤ hPulse
  one_le_vPulse : 1 ≤ vPulse
  le_hStart : w + 2 ≤ hStart
  hEnd_le : hStart + hPulse + 2 ≤ line
  le_vStart : (h - 1) * line + w + 2 ≤ vStart
  vEnd_le : vStart + vPulse + 2 ≤ lines * line
  hPulse_lt : 2 * hPulse < line
  vPulse_lt : 2 * vPulse < lines * line
  hRest_lt : line - hPulse < 2 ^ 25
  vRest_lt : lines * line - vPulse < 2 ^ 25

namespace VideoMode

variable (m : VideoMode)

/-- The clocks of a frame. -/
def frame : ℕ := m.lines * m.line

/-- The signals at clock `u` of the mode, which begins with the first active pixel of a frame. -/
def de (u : ℕ) : Bool := decide (u % m.frame / m.line < m.h ∧ u % m.frame % m.line < m.w)

def hsync (u : ℕ) : Bool := pulse m.line m.hStart m.hPulse m.hLevel u

def vsync (u : ℕ) : Bool := pulse m.frame m.vStart m.vPulse m.vLevel u

/-- `vsync` rests. -/
def rest (u : ℕ) : Bool := m.vLevel == m.vsync u

/-- The registers of `pxlCounter` after `t` clocks of the video, whose clock `phase` is the first
one, with `scdt` high. -/
def counter (phase : ℕ) (s₀ : PxlCounter) : ℕ → PxlCounter
  | 0 => s₀
  | t + 1 => (counter phase s₀ t).clock true (m.vsync (t + phase)) (m.hsync (t + phase))
      (m.de (t + phase))

/-! ### The video -/

lemma line_pos : 0 < m.line := by
  have := m.hPulse_lt
  omega

lemma frame_pos : 0 < m.frame := by
  have := m.vPulse_lt
  rw [frame]
  omega

lemma line_le_frame : m.line ≤ m.frame :=
  Nat.le_mul_of_pos_left _ (m.one_le_h.trans m.h_le_lines)

variable {m} {u z : ℕ}

lemma mod_line (u : ℕ) : u % m.frame % m.line = u % m.line :=
  Nat.mod_mod_of_dvd u (Nat.dvd_mul_left _ _)

/-- Behind the last active pixel of a frame the rest of it is blank. -/
lemma de_of_bottom (hu : (m.h - 1) * m.line + m.w ≤ u % m.frame) : m.de u = false := by
  rw [de, decide_eq_false_iff_not]
  rintro ⟨hr, hc⟩
  have hdiv := Nat.div_add_mod (u % m.frame) m.line
  have hrow : m.line * (u % m.frame / m.line) ≤ m.line * (m.h - 1) :=
    Nat.mul_le_mul_left _ (by omega)
  rw [Nat.mul_comm m.line (m.h - 1)] at hrow
  omega

/-- The sync signals rest while the video is active. -/
lemma rest_of_de (h : m.de u = true) :
    m.hsync u = m.hLevel ∧ m.rest u = true ∧ u % m.frame < m.vStart := by
  have hv : u % m.frame < m.vStart := by
    by_contra hle
    have := m.le_vStart
    rw [de_of_bottom (by omega)] at h
    exact absurd h (by simp)
  rw [de, decide_eq_true_eq, mod_line] at h
  have hh := m.le_hStart
  refine ⟨pulse_of_rest (Or.inl (by omega)), ?_, hv⟩
  rw [rest, vsync, pulse_of_rest (Or.inl hv), BEq.rfl]

/-- An active pixel begins its row, or comes behind one of the same row. -/
lemma de_succ (h : m.de (u + 1) = true) :
    ((u + 1) % m.line = 0 ∧ m.de u = false)
      ∨ (m.de u = true ∧ (u + 1) % m.line = u % m.line + 1) := by
  have hend := m.vEnd_le
  have hstart := m.le_vStart
  have hw := m.le_hStart
  have hline := m.hEnd_le
  rcases succ_mod_cases m.frame_pos u with ⟨-, hu, -⟩ | ⟨hlast, hu, -⟩
  · rw [de, decide_eq_true_eq, hu] at h
    rcases succ_mod_cases m.line_pos (u % m.frame) with ⟨-, hc, hr⟩ | ⟨hc, hc0, -⟩
    · rw [hr, hc] at h
      refine Or.inr ⟨decide_eq_true ⟨h.1, by omega⟩, ?_⟩
      rw [← mod_line, hu, hc, mod_line]
    · refine Or.inl ⟨by rw [← mod_line, hu, hc0], decide_eq_false ?_⟩
      omega
  · refine Or.inl ⟨by rw [← mod_line, hu, Nat.zero_mod], de_of_bottom ?_⟩
    rw [frame] at hlast ⊢
    omega

/-- The last pixel of a row is in column `w - 1`. -/
lemma row_end_iff : (m.de u = true ∧ m.de (u + 1) = false)
    ↔ u % m.frame / m.line < m.h ∧ u % m.frame % m.line + 1 = m.w := by
  have hend := m.vEnd_le
  have hstart := m.le_vStart
  have hw := m.le_hStart
  have hline := m.hEnd_le
  have hw1 := m.one_le_w
  rcases succ_mod_cases m.frame_pos u with ⟨-, hu, -⟩ | ⟨hlast, hu, -⟩
  · simp only [de, hu, decide_eq_true_eq, decide_eq_false_iff_not]
    rcases succ_mod_cases m.line_pos (u % m.frame) with ⟨-, hc, hr⟩ | ⟨hc, hc0, -⟩
    · rw [hr, hc]
      omega
    · omega
  · have hoff : m.de u = false := de_of_bottom (by rw [frame] at hlast ⊢; omega)
    have hnot : ¬ (u % m.frame / m.line < m.h ∧ u % m.frame % m.line < m.w) := by
      simpa [de] using hoff
    rw [hoff]
    simp only [Bool.false_eq_true, false_and, false_iff]
    omega

/-- The active pixels of a frame. -/
lemma count_de (n : ℕ) : Nat.count (fun k => m.de (n + k) = true) m.frame = m.w * m.h := by
  have hperiod : ∀ u, m.de (u + m.frame) = true ↔ m.de u = true := fun u => by
    rw [de, de, Nat.add_mod_right]
  refine (count_shift (p := fun u => m.de u = true) hperiod n).trans ?_
  have hgrid := count_grid (h := m.h) m.line_pos (fun c => c < m.w) m.lines
  have hcols : Nat.count (fun c => c < m.w) m.line = m.w := by
    have hle : m.w ≤ m.line := by
      have := m.le_hStart
      have := m.hEnd_le
      omega
    rw [← Nat.add_sub_cancel' hle, Nat.count_add, Nat.count_iff_forall.mpr fun k hk => hk,
      Nat.count_iff_forall_not.mpr fun k hk => by omega, Nat.add_zero]
  rw [hcols, Nat.min_eq_right m.h_le_lines, Nat.mul_comm m.h m.w] at hgrid
  rw [← hgrid]
  refine count_congr fun k hk => ?_
  rw [de, Nat.mod_eq_of_lt hk, decide_eq_true_eq]

/-- The ends of the rows of a frame. -/
lemma count_row_end (n : ℕ) :
    Nat.count (fun k => m.de (n + k) = true ∧ m.de (n + k + 1) = false) m.frame = m.h := by
  have hperiod : ∀ u, (m.de (u + m.frame) = true ∧ m.de (u + m.frame + 1) = false)
      ↔ (m.de u = true ∧ m.de (u + 1) = false) := fun u => by
    rw [row_end_iff, row_end_iff, Nat.add_mod_right]
  refine (count_shift (p := fun u => m.de u = true ∧ m.de (u + 1) = false) hperiod n).trans ?_
  have hgrid := count_grid (h := m.h) m.line_pos (fun c => c + 1 = m.w) m.lines
  have hcols : Nat.count (fun c => c + 1 = m.w) m.line = 1 := by
    have hle : m.w ≤ m.line := by
      have := m.le_hStart
      have := m.hEnd_le
      omega
    have hw := m.one_le_w
    rw [show m.line = m.w - 1 + 1 + (m.line - m.w) by omega, Nat.count_add, Nat.count_succ,
      Nat.count_iff_forall_not.mpr fun k hk => by omega, if_pos (by omega),
      Nat.count_iff_forall_not.mpr fun k hk => by omega]
  rw [hcols, Nat.min_eq_right m.h_le_lines, Nat.mul_one] at hgrid
  rw [← hgrid]
  refine count_congr fun k hk => ?_
  rw [row_end_iff, Nat.mod_eq_of_lt hk]

/-! ### Around a vsync pulse -/

/-- The clocks from the start of a pulse on: the pulse, and what keeps away from it. -/
lemma rest_of_pulse (hu : u % m.frame = m.vStart) (hz : z < m.frame) :
    m.rest (u + z) = decide (m.vPulse ≤ z) := by
  have hend := m.vEnd_le
  rw [← frame] at hend
  have hplace := add_mod_eq (P := m.frame) u hz.le m.frame_pos
  rw [hu] at hplace
  rw [rest, vsync]
  by_cases hp : m.vPulse ≤ z
  · rw [pulse_of_rest (by split at hplace <;> omega), BEq.rfl, decide_eq_true hp]
  · rw [if_pos (by omega)] at hplace
    rw [pulse_of_pulse (by omega) (by omega), decide_eq_false hp]
    cases m.vLevel <;> rfl

lemma de_of_pulse (hu : u % m.frame = m.vStart) (hz : z ≤ m.vPulse + 1) :
    m.de (u + z) = false := by
  have hend := m.vEnd_le
  have hstart := m.le_vStart
  rw [← frame] at hend
  have hplace := add_mod_eq (P := m.frame) u (a := z) (by omega) m.frame_pos
  rw [hu, if_pos (by omega)] at hplace
  exact de_of_bottom (by omega)

/-- The first clock of a pulse. -/
lemma at_pulse (hu : u % m.frame = m.vStart) : m.de u = false ∧ m.rest u = false := by
  have hpulse := m.one_le_vPulse
  exact ⟨de_of_pulse (z := 0) hu (Nat.zero_le _),
    (rest_of_pulse (z := 0) hu m.frame_pos).trans (decide_eq_false (by omega))⟩

/-- The two clocks in front of a pulse. -/
lemma before_pulse (hu : (u + z) % m.frame = m.vStart) (hz : 1 ≤ z) (hz' : z ≤ 2) :
    m.de u = false ∧ m.rest u = true := by
  have hend := m.vEnd_le
  have hstart := m.le_vStart
  rw [← frame] at hend
  have hlt := Nat.mod_lt u m.frame_pos
  have hplace := add_mod_eq (P := m.frame) u (a := z) (by omega) m.frame_pos
  rw [hu] at hplace
  have hat : u % m.frame = m.vStart - z := by
    split at hplace <;> omega
  exact ⟨de_of_bottom (by omega), by rw [rest, vsync, pulse_of_rest (Or.inl (by omega)), BEq.rfl]⟩

/-! ### The counters -/

section Counter

variable {phase : ℕ} {s₀ : PxlCounter} {p t : ℕ}

/-- **The corrector passes the video on after two frames.** -/
lemma settled (phase : ℕ) (s₀ : PxlCounter) (ht : 2 * m.frame + 1 ≤ t) :
    (m.counter phase s₀ t).vsync (m.vsync (t + phase)) = m.rest (t + phase)
      ∧ (m.counter phase s₀ t).de (m.vsync (t + phase)) (m.hsync (t + phase)) (m.de (t + phase))
        = m.de (t + phase) := by
  have hline := m.line_le_frame
  have hhEnd := m.hEnd_le
  have hvEnd := m.vEnd_le
  have hh : (m.counter phase s₀ t).hdect.normalSync = m.hLevel :=
    SyncPolDecter.normalSync_of_pulse (σ := fun t => (m.counter phase s₀ t).hdect) (fun _ => rfl)
      m.one_le_hPulse (by omega) m.hPulse_lt m.hRest_lt (by omega)
  have hv : (m.counter phase s₀ t).vdect.normalSync = m.vLevel :=
    SyncPolDecter.normalSync_of_pulse (σ := fun t => (m.counter phase s₀ t).vdect) (fun _ => rfl)
      m.one_le_vPulse (by rw [frame]; omega) m.vPulse_lt m.vRest_lt (by omega)
  have hrest : (m.counter phase s₀ t).vsync (m.vsync (t + phase)) = m.rest (t + phase) := by
    rw [PxlCounter.vsync, hv, rest]
  refine ⟨hrest, ?_⟩
  rw [PxlCounter.de, PxlCounter.hsync, hh, hrest]
  cases hde : m.de (t + phase) with
  | false => rfl
  | true =>
      obtain ⟨hhs, hvs, -⟩ := rest_of_de hde
      rw [hhs, hvs, BEq.rfl]
      rfl

/-- A clock behind a pulse of the settled corrector. -/
lemma counter_behind (hp : 2 * m.frame ≤ p) (z : ℕ) :
    m.counter phase s₀ (p + 1 + (z + 1))
      = (m.counter phase s₀ (p + 1 + z)).corrected (m.rest (p + phase + z + 1))
        (m.de (p + phase + z + 1)) (m.vsync (p + phase + z + 1)) (m.hsync (p + phase + z + 1)) := by
  obtain ⟨ha, hb⟩ := settled (m := m) phase s₀ (t := p + 1 + z) (by omega)
  have hu : p + 1 + z + phase = p + phase + z + 1 := by omega
  rw [hu] at ha hb
  show (m.counter phase s₀ (p + 1 + z)).clock true (m.vsync (p + 1 + z + phase))
    (m.hsync (p + 1 + z + phase)) (m.de (p + 1 + z + phase)) = _
  rw [hu]
  exact PxlCounter.clock_eq ha hb

/-- Whatever the corrector takes the polarity for, a pulse finds the counters cleared or clears
them: its answer is the same for the pulse and for the clock in front of it. -/
lemma cleared_at_pulse (s₀ : PxlCounter) (hp : (p + phase) % m.frame = m.vStart) (hp2 : 2 ≤ p) :
    (m.counter phase s₀ (p + 1)).nowY = 0#16 ∧ (m.counter phase s₀ (p + 1)).nowPxl = 0#32 := by
  obtain ⟨q, rfl⟩ : ∃ q, p = q + 2 := ⟨p - 2, by omega⟩
  obtain ⟨hde0, hrest0⟩ := before_pulse (m := m) (u := q + phase) (z := 2)
    (by rw [← hp]; congr 1; omega) (by omega) le_rfl
  obtain ⟨hde1, hrest1⟩ := before_pulse (m := m) (u := q + 1 + phase) (z := 1)
    (by rw [← hp]; congr 1; omega) le_rfl (by omega)
  obtain ⟨hde2, hrest2⟩ := at_pulse hp
  simp only [rest, beq_iff_eq, beq_eq_false_iff_ne] at hrest0 hrest1 hrest2
  -- the answer of the detector is the same at the two clocks
  have hsame : (m.counter phase s₀ (q + 2)).vdect.normalSync
      = (m.counter phase s₀ (q + 1)).vdect.normalSync := by
    refine SyncPolDecter.clock_normalSync_of_level ?_
    exact SyncPolDecter.clock_syncD1.trans (hrest0.symm.trans hrest1)
  have hlast : (m.counter phase s₀ (q + 2)).lastDe = false := PxlCounter.de_of_blank hde1
  have hlast' : (m.counter phase s₀ (q + 1)).lastDe = false := PxlCounter.de_of_blank hde0
  have hoff : (m.counter phase s₀ (q + 2)).de (m.vsync (q + 2 + phase)) (m.hsync (q + 2 + phase))
      (m.de (q + 2 + phase)) = false := PxlCounter.de_of_blank hde2
  have hnext : m.counter phase s₀ (q + 2 + 1) = _ := PxlCounter.clock_eq rfl hoff
  rw [hnext, PxlCounter.corrected]
  simp only [hlast, Bool.false_eq_true, if_false, Bool.not_false, if_true]
  by_cases hn : (m.counter phase s₀ (q + 1)).vdect.normalSync = m.vLevel
  · -- the pulse is seen
    have hlow : (m.counter phase s₀ (q + 2)).vsync (m.vsync (q + 2 + phase)) = false := by
      rw [PxlCounter.vsync, hsame, hn]
      exact beq_eq_false_iff_ne.mpr hrest2
    simp [hlow]
  · -- the rest in front of it is taken for a pulse
    have hlow : (m.counter phase s₀ (q + 1)).vsync (m.vsync (q + 1 + phase)) = false := by
      rw [PxlCounter.vsync, ← hrest1]
      exact beq_eq_false_iff_ne.mpr hn
    have hoff' : (m.counter phase s₀ (q + 1)).de (m.vsync (q + 1 + phase))
        (m.hsync (q + 1 + phase)) (m.de (q + 1 + phase)) = false := PxlCounter.de_of_blank hde1
    have hprev : m.counter phase s₀ (q + 2) = _ := PxlCounter.clock_eq hlow hoff'
    rw [hprev]
    simp [PxlCounter.corrected, hlast']

/-- `nowX` shows the column, and `lastDe` the activity of the clock before. -/
lemma nowX_behind (s₀ : PxlCounter) (hp : (p + phase) % m.frame = m.vStart)
    (hp2 : 2 * m.frame ≤ p) (z : ℕ) :
    (m.counter phase s₀ (p + 1 + z)).lastDe = m.de (p + phase + z)
      ∧ (m.counter phase s₀ (p + 1 + z)).nowX
        = BitVec.ofNat 16 (if m.de (p + phase + z) then (p + phase + z) % m.line + 1 else 0) := by
  induction z with
  | zero =>
      have hde : m.de (p + phase) = false := (at_pulse hp).1
      have hb : (m.counter phase s₀ p).de (m.vsync (p + phase)) (m.hsync (p + phase))
          (m.de (p + phase)) = false := PxlCounter.de_of_blank hde
      simp only [Nat.add_zero, hde]
      exact ⟨hb, PxlCounter.clock_nowX_of_blank hb⟩
  | succ z ih =>
      obtain ⟨hlast, hX⟩ := ih
      rw [counter_behind hp2, PxlCounter.corrected, ← Nat.add_assoc (p + phase) z 1]
      refine ⟨rfl, ?_⟩
      cases hde : m.de (p + phase + z + 1) with
      | false => simp
      | true =>
          simp only [if_true]
          rw [hX, ← BitVec.ofNat_add]
          rcases de_succ hde with ⟨hcol, hprev⟩ | ⟨hprev, hcol⟩
          · rw [hprev, hcol]
            rfl
          · rw [hprev, if_pos rfl, hcol]

/-- **The counters from one pulse to the next**: the active pixels and the ends of the rows since
the pulse began. -/
lemma count_frame (hp : (p + phase) % m.frame = m.vStart) (hp2 : 2 * m.frame ≤ p)
    (hY : (m.counter phase s₀ (p + 1)).nowY = 0#16)
    (hPxl : (m.counter phase s₀ (p + 1)).nowPxl = 0#32) (hz : z < m.frame) :
    let s := m.counter phase s₀ (p + 1 + z)
    let rows := Nat.count
      (fun k => m.de (p + phase + k) = true ∧ m.de (p + phase + k + 1) = false) z
    s.nowPxl = BitVec.ofNat 32 (Nat.count (fun k => m.de (p + phase + k) = true) (z + 1))
      ∧ s.nowY = BitVec.ofNat 16 rows ∧ (0 < rows → s.screenX = BitVec.ofNat 16 m.w) := by
  induction z with
  | zero =>
      have hde : m.de (p + phase) = false := (at_pulse hp).1
      simp [hY, hPxl, hde, Nat.count_succ]
  | succ z ih =>
      obtain ⟨hPxl, hY, hX⟩ := ih (by omega)
      obtain ⟨hlast, hnowX⟩ := nowX_behind s₀ hp hp2 z
      have hrest : m.rest (p + phase + z + 1) = decide (m.vPulse ≤ z + 1) :=
        rest_of_pulse (z := z + 1) hp hz
      rw [counter_behind hp2, PxlCounter.corrected, Nat.count_succ _ (z + 1), Nat.count_succ _ z,
        ← Nat.add_assoc (p + phase) z 1]
      cases hde : m.de (p + phase + z + 1) with
      | true =>
          -- another active pixel
          simpa [hPxl, hY, BitVec.ofNat_add] using hX
      | false =>
          cases hprev : m.de (p + phase + z) with
          | true =>
              -- the end of a row
              have hfar : m.vPulse ≤ z + 1 := by
                by_contra hnear
                rw [de_of_pulse hp (by omega)] at hprev
                exact absurd hprev (by simp)
              have hcol : (p + phase + z) % m.line + 1 = m.w := by
                rw [← mod_line]
                exact (row_end_iff.mp ⟨hprev, hde⟩).2
              simp [hlast, hprev, hrest, hfar, hPxl, hY, hnowX, hcol, BitVec.ofNat_add]
          | false =>
              simp only [hlast, hprev, hrest, Bool.not_false, Bool.and_false, Bool.false_eq_true,
                if_false, if_true, false_and, Nat.add_zero]
              by_cases hfar : m.vPulse ≤ z + 1
              · simpa [hfar] using ⟨hPxl, hY, hX⟩
              · -- the pulse keeps cleared what has counted nothing yet
                have hnone : ∀ k < z + 1, ¬ m.de (p + phase + k) = true := by
                  intro k hk
                  rw [de_of_pulse hp (by omega)]
                  simp
                rw [Nat.count_iff_forall_not.mpr hnone,
                  Nat.count_iff_forall_not.mpr fun k hk h => hnone k (by omega) h.1]
                simp [hfar]

/-- The registers at the end of the first clock of a pulse, with the size of the video measured. -/
structure Latched (m : VideoMode) (s : PxlCounter) : Prop where
  nowY : s.nowY = 0#16
  nowPxl : s.nowPxl = 0#32
  lastVsync : s.lastVsync = false
  screenX : s.screenX = BitVec.ofNat 16 m.w
  screenY : s.screenY = BitVec.ofNat 16 m.h
  screenPxl : s.screenPxl = BitVec.ofNat 32 (m.w * m.h)

/-- **A pulse latches the counts of the frame before it**, which began with cleared counters. -/
lemma latch (hp : (p + phase) % m.frame = m.vStart) (hp2 : 2 * m.frame ≤ p)
    (hY : (m.counter phase s₀ (p + 1)).nowY = 0#16)
    (hPxl : (m.counter phase s₀ (p + 1)).nowPxl = 0#32) :
    m.Latched (m.counter phase s₀ (p + m.frame + 1)) := by
  obtain ⟨z, hz⟩ : ∃ z, m.frame = z + 2 := ⟨m.frame - 2, by
    have := m.vPulse_lt
    have := m.one_le_vPulse
    rw [frame]
    omega⟩
  obtain ⟨hcount, hrows, hX⟩ := count_frame hp hp2 hY hPxl (z := z + 1) (by omega)
  obtain ⟨hlast, -⟩ := nowX_behind s₀ hp hp2 (z + 1)
  have hnext : (p + phase + (z + 1) + 1) % m.frame = m.vStart := by
    rw [show p + phase + (z + 1) + 1 = p + phase + m.frame by omega, Nat.add_mod_right, hp]
  obtain ⟨hde, hrest⟩ := at_pulse hnext
  obtain ⟨hprev, hvsync⟩ := before_pulse (z := 1) hnext le_rfl (by omega)
  have hlastV : (m.counter phase s₀ (p + 1 + (z + 1))).lastVsync = true := by
    rw [counter_behind hp2, PxlCounter.corrected]
    exact hvsync
  have hpxl := count_de (m := m) (p + phase)
  have hend := count_row_end (m := m) (p + phase)
  rw [hz] at hpxl
  rw [hz, Nat.count_succ, if_neg (by simp [hprev]), Nat.add_zero] at hend
  rw [hpxl] at hcount
  rw [hend] at hrows hX
  rw [show p + m.frame + 1 = p + 1 + (z + 1 + 1) by omega, counter_behind hp2,
    PxlCounter.corrected]
  simp only [hde, hrest, hlast, hprev, hlastV, hcount, hrows, hX m.one_le_h]
  exact ⟨rfl, rfl, rfl, rfl, rfl, rfl⟩

/-- The measured size stays until the next pulse, which latches the same. -/
lemma Latched.keep (h : m.Latched (m.counter phase s₀ (p + 1)))
    (hp : (p + phase) % m.frame = m.vStart) (hp2 : 2 * m.frame ≤ p) (hz : z < m.frame) :
    let s := m.counter phase s₀ (p + 1 + z)
    s.screenX = BitVec.ofNat 16 m.w ∧ s.screenY = BitVec.ofNat 16 m.h
      ∧ s.screenPxl = BitVec.ofNat 32 (m.w * m.h) ∧ s.lastVsync = m.rest (p + phase + z) := by
  induction z with
  | zero =>
      refine ⟨h.screenX, h.screenY, h.screenPxl, h.lastVsync.trans ?_⟩
      rw [Nat.add_zero, (at_pulse hp).2]
  | succ z ih =>
      obtain ⟨hX, hY, hPxl, hlastV⟩ := ih (by omega)
      obtain ⟨hlast, hnowX⟩ := nowX_behind s₀ hp hp2 z
      have hrest : m.rest (p + phase + z + 1) = decide (m.vPulse ≤ z + 1) :=
        rest_of_pulse (z := z + 1) hp hz
      have hrest' : m.rest (p + phase + z) = decide (m.vPulse ≤ z) := rest_of_pulse hp (by omega)
      -- no pulse begins before the frame is over
      have hedge : (!m.rest (p + phase + z + 1) && m.rest (p + phase + z)) = false := by
        rw [hrest, hrest']
        by_cases hz' : m.vPulse ≤ z
        · simp [show m.vPulse ≤ z + 1 by omega]
        · simp [hz']
      rw [counter_behind hp2, PxlCounter.corrected]
      refine ⟨?_, ?_, ?_, rfl⟩
      · simp only [hlast, hX, hnowX]
        split
        · rename_i hend
          simp only [Bool.and_eq_true, Bool.not_eq_true'] at hend
          rw [if_pos hend.2, ← mod_line, (row_end_iff.mp ⟨hend.2, hend.1⟩).2]
        · rfl
      · simp only [hlastV, hY, Bool.and_assoc, hedge, Bool.and_false, Bool.false_eq_true, if_false]
      · simp only [hlastV, hPxl, Bool.and_assoc, hedge, Bool.and_false, Bool.false_eq_true,
          if_false]

/-- **The measured size is that of the video**, for every mode and phase, from every state of the
registers: at all clocks from the end of the fourth frame on. -/
theorem measures (m : VideoMode) (phase : ℕ) (s₀ : PxlCounter) {t : ℕ} (ht : 4 * m.frame ≤ t) :
    (m.counter phase s₀ t).screenX.toNat = m.w ∧ (m.counter phase s₀ t).screenY.toNat = m.h
      ∧ (m.counter phase s₀ t).screenPxl.toNat = m.w * m.h % 2 ^ 32 := by
  have hF := m.frame_pos
  have hstart : m.vStart < m.frame := by
    have := m.vEnd_le
    rw [frame]
    omega
  -- the first pulse of the third frame
  obtain ⟨x, hx1, hx2, hx⟩ := exists_place hF (2 * m.frame + phase) m.vStart hstart
  obtain ⟨p, rfl⟩ : ∃ p, x = p + phase := ⟨x - phase, by omega⟩
  have hpulse : ∀ n, (p + n * m.frame + phase) % m.frame = m.vStart := by
    intro n
    rw [show p + n * m.frame + phase = p + phase + n * m.frame by omega,
      Nat.add_mul_mod_self_right, hx]
  have hlatched : ∀ n, m.Latched (m.counter phase s₀ (p + (n + 1) * m.frame + 1)) := by
    intro n
    induction n with
    | zero =>
        obtain ⟨hY, hPxl⟩ := cleared_at_pulse s₀ hx (by omega)
        rw [Nat.zero_add, Nat.one_mul]
        exact latch hx (by omega) hY hPxl
    | succ n ih =>
        have hnext := latch (hpulse (n + 1)) (by omega) ih.nowY ih.nowPxl
        rwa [Nat.add_assoc p, ← Nat.succ_mul] at hnext
  obtain ⟨d, rfl⟩ : ∃ d, t = p + m.frame + 1 + d := ⟨t - (p + m.frame + 1), by omega⟩
  have hplace : p + m.frame + 1 + d = p + (d / m.frame + 1) * m.frame + 1 + d % m.frame := by
    have hdiv := Nat.div_add_mod' d m.frame
    rw [Nat.succ_mul]
    omega
  obtain ⟨hX, hY, hPxl, -⟩ :=
    (hlatched (d / m.frame)).keep (hpulse (d / m.frame + 1)) (by omega) (Nat.mod_lt d hF)
  rw [hplace, hX, hY, hPxl, BitVec.toNat_ofNat, BitVec.toNat_ofNat, BitVec.toNat_ofNat,
    Nat.mod_eq_of_lt m.w_lt, Nat.mod_eq_of_lt m.h_lt]
  exact ⟨rfl, rfl, rfl⟩

end Counter

/-- The mode of a display of 1920 by 1080, its sync signals resting at the low level. -/
def fullHd : VideoMode where
  w := 1920
  h := 1080
  line := 2200
  lines := 1125
  hStart := 2008
  hPulse := 44
  vStart := 1084 * 2200
  vPulse := 5 * 2200
  hLevel := false
  vLevel := false
  one_le_w := by decide
  one_le_h := by decide
  w_lt := Screen.fullHd.width_lt
  h_lt := Screen.fullHd.height_lt
  h_le_lines := by decide
  one_le_hPulse := by decide
  one_le_vPulse := by decide
  le_hStart := by decide
  hEnd_le := by decide
  le_vStart := by decide
  vEnd_le := by decide
  hPulse_lt := by decide
  vPulse_lt := by decide
  hRest_lt := by decide
  vRest_lt := by decide

/-- Four frames of this mode, from registers of any content. -/
theorem measures_fullHd :
    let s₀ : PxlCounter := ⟨7#16, 9#16, 3#32, 640#16, 480#16, 5#32, true, true,
      ⟨11#25, 300#25, true, true⟩, ⟨0#25, 5#25, true, true⟩⟩
    (fullHd.counter 5 s₀ 9900000).screenX.toNat = 1920
      ∧ (fullHd.counter 5 s₀ 9900000).screenY.toNat = 1080
      ∧ (fullHd.counter 5 s₀ 9900000).screenPxl.toNat = 1920 * 1080 % 2 ^ 32 :=
  measures fullHd 5 _ (show 4 * (1125 * 2200) ≤ 9900000 by decide)

end VideoMode

end Danmaku
