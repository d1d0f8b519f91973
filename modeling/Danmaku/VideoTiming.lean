import Danmaku.DanmakuOverlay

/-!
A steady video input and what the overlay's counters show of it.

The active rows of the video are numbered through, `h` of them a frame; `row j` is the clock at
which row `j` begins. Before `row 0` the input is arbitrary.

* `VideoTiming`: the assumptions on the video, with `SteadyVideo` those on a video whose vertical
  blanking has the length of a line; `Settled`: the corrector knows its sync polarity.
* `nowX_row`, `nowPxl_row`: **the counters show the position in the row and in the frame**.
* `rowWindow_row`, `frameWindow_row`, `windows_closed`: when the windows open.
-/

namespace Danmaku

/-- A video with a steady active area of `w` by `h`, whose sync signals rest at the given levels:
horizontal blanking of at least 8 clocks, vertical blanking of at least one line, and in every
vertical blanking, and only there, a vsync pulse. -/
structure SteadyVideo (w h : ℕ) (row : ℕ → ℕ) (hLevel vLevel : Bool) (inp : ℕ → OverlayIn) :
    Prop where
  scdt : ∀ t, (inp t).scdt = true
  hblank : ∀ j, row j + w + 8 ≤ row (j + 1)
  vblank : ∀ n, row (n * h + (h - 1)) + 2 * (w + 8) ≤ row ((n + 1) * h)
  de : ∀ t, row 0 ≤ t → ((inp t).de = true ↔ ∃ j, row j ≤ t ∧ t < row j + w)
  active : ∀ t, row 0 ≤ t → (inp t).de = true → (inp t).hsync = hLevel ∧ (inp t).vsync = vLevel
  pulse : ∀ n, ∃ t, row (n * h + (h - 1)) + w ≤ t ∧ t < row ((n + 1) * h)
    ∧ (inp t).vsync ≠ vLevel
  vsync : ∀ t, row 0 ≤ t → (inp t).vsync ≠ vLevel →
    ∃ n, row (n * h + (h - 1)) + w ≤ t ∧ t < row ((n + 1) * h)

/-- The same with vertical blanking of any length. -/
structure VideoTiming (w h : ℕ) (row : ℕ → ℕ) (hLevel vLevel : Bool) (inp : ℕ → OverlayIn) :
    Prop where
  scdt : ∀ t, (inp t).scdt = true
  hblank : ∀ j, row j + w + 8 ≤ row (j + 1)
  de : ∀ t, row 0 ≤ t → ((inp t).de = true ↔ ∃ j, row j ≤ t ∧ t < row j + w)
  active : ∀ t, row 0 ≤ t → (inp t).de = true → (inp t).hsync = hLevel ∧ (inp t).vsync = vLevel
  pulse : ∀ n, ∃ t, row (n * h + (h - 1)) + w ≤ t ∧ t < row ((n + 1) * h)
    ∧ (inp t).vsync ≠ vLevel
  vsync : ∀ t, row 0 ≤ t → (inp t).vsync ≠ vLevel →
    ∃ n, row (n * h + (h - 1)) + w ≤ t ∧ t < row ((n + 1) * h)

lemma SteadyVideo.timing {w h : ℕ} {row : ℕ → ℕ} {hLevel vLevel : Bool} {inp : ℕ → OverlayIn}
    (hv : SteadyVideo w h row hLevel vLevel inp) : VideoTiming w h row hLevel vLevel inp :=
  ⟨hv.scdt, hv.hblank, hv.de, hv.active, hv.pulse, hv.vsync⟩

/-- The sync polarity is settled: the detectors show the resting levels. -/
def Settled (stream : ℕ → Byte) (inp : ℕ → OverlayIn) (hLevel vLevel : Bool)
    (s₀ : DanmakuOverlay) : Prop :=
  ∀ t, (DanmakuOverlay.run stream inp s₀ t).counter.hdect.normalSync = hLevel
    ∧ (DanmakuOverlay.run stream inp s₀ t).counter.vdect.normalSync = vLevel

namespace VideoTiming

variable {w h : ℕ} {row : ℕ → ℕ} {hLevel vLevel : Bool} {inp : ℕ → OverlayIn} {i j n r c t : ℕ}

section Rows

variable (hv : VideoTiming w h row hLevel vLevel inp)
include hv

lemma row_le (hij : i ≤ j) : row i ≤ row j := by
  induction j, hij using Nat.le_induction with
  | base => exact le_rfl
  | succ j _ ih =>
      have hstep := hv.hblank j
      omega

lemma row_add_le (hij : i < j) : row i + w + 8 ≤ row j :=
  (hv.hblank i).trans (hv.row_le hij)

/-- The order of two rows from a clock behind the one and in front of the other. -/
lemma lt_of_row_lt (h1 : row i ≤ t) (h2 : t < row j) : i < j := by
  by_contra hle
  have hrow := hv.row_le (Nat.le_of_not_lt hle)
  omega

lemma de_of_row (h1 : row j ≤ t) (h2 : t < row j + w) : (inp t).de = true :=
  (hv.de t ((hv.row_le (Nat.zero_le j)).trans h1)).mpr ⟨j, h1, h2⟩

lemma not_de_of_blank (h1 : row j + w ≤ t) (h2 : t < row (j + 1)) : (inp t).de = false := by
  rw [← Bool.not_eq_true, hv.de t ((hv.row_le (Nat.zero_le j)).trans (by omega))]
  rintro ⟨i, hi1, hi2⟩
  have hij := hv.lt_of_row_lt hi1 h2
  rcases Nat.lt_or_eq_of_le (Nat.le_of_lt_succ hij) with hlt | rfl
  · have := hv.row_add_le hlt
    omega
  · omega

/-- Between two rows of one frame vsync rests. -/
lemma vsync_of_hblank (hh : 1 ≤ h) (hr : r + 1 < h) (h1 : row (n * h + r) + w ≤ t)
    (h2 : t < row (n * h + r + 1)) : (inp t).vsync = vLevel := by
  by_contra hne
  obtain ⟨m, hm1, hm2⟩ :=
    hv.vsync t ((hv.row_le (Nat.zero_le (n * h + r))).trans (by omega)) hne
  have hlow := hv.lt_of_row_lt (i := m * h + (h - 1)) (by omega) h2
  have hhigh := hv.lt_of_row_lt (i := n * h + r) (by omega) hm2
  have hmn : (m + 1) * h = n * h + (r + 1) := by
    rw [Nat.succ_mul] at *
    omega
  have hmod := congrArg (· % h) hmn
  simp only [Nat.mul_mod_left, Nat.mul_add_mod_self_right, Nat.mod_eq_of_lt hr] at hmod
  omega

end Rows

/-! ### The counters -/

section Counters

open DanmakuOverlay

variable {stream : ℕ → Byte} {s₀ : DanmakuOverlay}
  (hv : VideoTiming w h row hLevel vLevel inp) (hset : Settled stream inp hLevel vLevel s₀)
include hv hset

/-- The corrector passes `de` on. -/
lemma counter_de (ht : row 0 ≤ t) :
    (run stream inp s₀ t).counter.de (inp t).vsync (inp t).hsync (inp t).de = (inp t).de := by
  cases hde : (inp t).de with
  | false => rfl
  | true =>
      obtain ⟨hh, hvs⟩ := hv.active t ht hde
      simp only [PxlCounter.de, PxlCounter.hsync, PxlCounter.vsync, (hset t).1, (hset t).2, hh, hvs,
        BEq.rfl, Bool.and_self]

omit hset in
lemma counter_succ (t : ℕ) : (run stream inp s₀ (t + 1)).counter
    = (run stream inp s₀ t).counter.clock true (inp t).vsync (inp t).hsync (inp t).de := by
  rw [← hv.scdt t]
  rfl

lemma counter_de_row (hc : c < w) :
    (run stream inp s₀ (row j + c)).counter.de (inp (row j + c)).vsync (inp (row j + c)).hsync
      (inp (row j + c)).de = true := by
  have ht : row 0 ≤ row j + c := (hv.row_le (Nat.zero_le j)).trans (by omega)
  rw [hv.counter_de hset ht]
  exact hv.de_of_row (j := j) (by omega) (by omega)

lemma counter_de_blank (h1 : row j + w ≤ t) (h2 : t < row (j + 1)) :
    (run stream inp s₀ t).counter.de (inp t).vsync (inp t).hsync (inp t).de = false := by
  have ht : row 0 ≤ t := (hv.row_le (Nat.zero_le j)).trans (by omega)
  rw [hv.counter_de hset ht]
  exact hv.not_de_of_blank h1 h2

lemma nowX_of_blank (h1 : row j + w ≤ t) (h2 : t < row (j + 1)) :
    (run stream inp s₀ (t + 1)).counter.nowX = 0#16 := by
  rw [hv.counter_succ, PxlCounter.clock_nowX_of_blank (hv.counter_de_blank hset h1 h2)]

/-- At the start of a row `nowX` is zero. -/
lemma nowX_start (j : ℕ) : (run stream inp s₀ (row (j + 1))).counter.nowX = 0#16 := by
  have hgap := hv.hblank j
  obtain ⟨t, ht⟩ : ∃ t, row (j + 1) = t + 1 := ⟨row (j + 1) - 1, by omega⟩
  rw [ht]
  exact hv.nowX_of_blank hset (j := j) (by omega) (by omega)

/-- **`nowX` shows the position in the row.** -/
lemma nowX_row (h0 : (run stream inp s₀ (row j)).counter.nowX = 0#16) (hc : c ≤ w) :
    (run stream inp s₀ (row j + c)).counter.nowX = BitVec.ofNat 16 c := by
  induction c with
  | zero => exact h0
  | succ c ih =>
      rw [← Nat.add_assoc, hv.counter_succ,
        PxlCounter.clock_nowX_of_de (hv.counter_de_row hset (by omega)), ih (by omega),
        ← BitVec.ofNat_add]

omit hset in
/-- Whatever the corrector takes the polarity for, it shows a pulse at the end of a frame: its
answer changes at a rising edge only, and the vertical blanking begins and ends at rest. -/
lemma exists_vsync_low (stream : ℕ → Byte) (s₀ : DanmakuOverlay) (hw : 2 ≤ w) (n : ℕ) :
    ∃ u, row (n * h + (h - 1)) + w ≤ u + 1 ∧ u < row ((n + 1) * h)
      ∧ (run stream inp s₀ u).counter.vsync (inp u).vsync = false := by
  by_contra hnone
  obtain ⟨t, ht1, ht2, hpulse⟩ := hv.pulse n
  obtain ⟨e, he⟩ : ∃ e, row (n * h + (h - 1)) + w = e + 2 :=
    ⟨row (n * h + (h - 1)) + w - 2, by omega⟩
  have hlow : row 0 ≤ row (n * h + (h - 1)) := hv.row_le (Nat.zero_le _)
  have hrest : ∀ u, e ≤ u → u < e + 2 → (inp u).vsync = vLevel := fun u h1 h2 =>
    (hv.active u (by omega) (hv.de_of_row (j := n * h + (h - 1)) (by omega) (by omega))).2
  have heq : ∀ u, e + 1 ≤ u → u < row ((n + 1) * h) →
      (run stream inp s₀ u).counter.vdect.normalSync = (inp u).vsync := by
    intro u h1 h2
    by_contra hne
    exact hnone ⟨u, by omega, h2, by simpa [PxlCounter.vsync] using hne⟩
  have hstay : ∀ u, e + 1 ≤ u → u < row ((n + 1) * h) →
      (inp u).vsync = vLevel ∧ (run stream inp s₀ u).counter.vdect.syncD1 = vLevel := by
    intro u hu
    induction u, hu using Nat.le_induction with
    | base =>
        intro _
        refine ⟨hrest _ (by omega) (by omega), ?_⟩
        rw [hv.counter_succ]
        exact SyncPolDecter.clock_syncD1.trans (hrest e le_rfl (by omega))
    | succ u hu ih =>
        intro hlt
        obtain ⟨hv₀, hd⟩ := ih (by omega)
        have hnext := heq (u + 1) (by omega) hlt
        rw [hv.counter_succ] at hnext ⊢
        refine ⟨?_, SyncPolDecter.clock_syncD1.trans hv₀⟩
        rw [← hnext]
        exact (SyncPolDecter.clock_normalSync_of_level (hd.trans hv₀.symm)).trans
          ((heq u hu (by omega)).trans hv₀)
  exact hpulse (hstay t (by omega) ht2).1

omit hset in
/-- The vsync pulse resets `nowPxl`, which is still zero at the start of the frame. -/
lemma nowPxl_start (hw : 2 ≤ w) (hh : 1 ≤ h) (n : ℕ) :
    (run stream inp s₀ (row ((n + 1) * h))).counter.nowPxl = 0#32 := by
  have hlast : n * h + (h - 1) + 1 = (n + 1) * h := by
    rw [Nat.succ_mul]
    omega
  obtain ⟨t, ht1, ht2, hpulse⟩ := hv.exists_vsync_low stream s₀ hw n
  have hzero : (run stream inp s₀ (t + 1)).counter.nowPxl = 0#32 := by
    rw [hv.counter_succ, PxlCounter.clock_nowPxl_of_vsync _ hpulse]
    simp only [PxlCounter.de, hpulse, Bool.and_false]
  have hstay : ∀ u, t + 1 ≤ u → u ≤ row ((n + 1) * h) →
      (run stream inp s₀ u).counter.nowPxl = 0#32 := by
    intro u hu
    induction u, hu using Nat.le_induction with
    | base => exact fun _ => hzero
    | succ u hu ih =>
        intro hle
        have hb : (run stream inp s₀ u).counter.de (inp u).vsync (inp u).hsync (inp u).de
            = false := by
          rw [PxlCounter.de, hv.not_de_of_blank (j := n * h + (h - 1)) (by omega)
            (by rw [hlast]; omega), Bool.false_and, Bool.false_and]
        rw [hv.counter_succ]
        cases hvs : (run stream inp s₀ u).counter.vsync (inp u).vsync with
        | false => exact PxlCounter.clock_nowPxl_of_vsync hb hvs
        | true =>
            rw [PxlCounter.clock_nowPxl_of_blank hb hvs]
            exact ih (by omega)
  exact hstay _ (by omega) le_rfl

/-- In the active part of a row `nowPxl` counts on. -/
lemma nowPxl_active {p : ℕ}
    (h0 : (run stream inp s₀ (row j)).counter.nowPxl = BitVec.ofNat 32 p) (hc : c ≤ w) :
    (run stream inp s₀ (row j + c)).counter.nowPxl = BitVec.ofNat 32 (p + c) := by
  induction c with
  | zero => exact h0
  | succ c ih =>
      rw [← Nat.add_assoc, hv.counter_succ,
        PxlCounter.clock_nowPxl_of_de (hv.counter_de_row hset (by omega)), ih (by omega),
        ← BitVec.ofNat_add, ← Nat.add_assoc]

/-- **`nowPxl` shows the position in the frame.** -/
lemma nowPxl_row (h0 : (run stream inp s₀ (row (n * h))).counter.nowPxl = 0#32) (hr : r < h)
    (hc : c ≤ w) :
    (run stream inp s₀ (row (n * h + r) + c)).counter.nowPxl = BitVec.ofNat 32 (r * w + c) := by
  refine hv.nowPxl_active hset ?_ hc
  induction r with
  | zero =>
      rw [Nat.zero_mul]
      exact h0
  | succ r ih =>
      have hgap := hv.hblank (n * h + r)
      have hend := hv.nowPxl_active hset (ih (by omega)) le_rfl
      have hstay : ∀ u, row (n * h + r) + w ≤ u → u ≤ row (n * h + r + 1) →
          (run stream inp s₀ u).counter.nowPxl = BitVec.ofNat 32 (r * w + w) := by
        intro u hu
        induction u, hu using Nat.le_induction with
        | base => exact fun _ => hend
        | succ u hu ih' =>
            intro hle
            have hrest : (run stream inp s₀ u).counter.vsync (inp u).vsync = true := by
              rw [PxlCounter.vsync, (hset u).2,
                hv.vsync_of_hblank (n := n) (by omega) hr hu (by omega), BEq.rfl]
            rw [hv.counter_succ, PxlCounter.clock_nowPxl_of_blank
              (hv.counter_de_blank hset hu (by omega)) hrest, ih' (by omega)]
      rw [Nat.succ_mul]
      exact hstay (row (n * h + r + 1)) (by omega) le_rfl

/-! ### The windows -/

omit hset in
/-- Outside the active area both windows are closed. -/
lemma windows_closed (h1 : row j + w ≤ t) (h2 : t < row (j + 1)) :
    (run stream inp s₀ t).rowWindow (inp t).de = false
      ∧ (run stream inp s₀ t).frameWindow (inp t).de = false := by
  rw [rowWindow, frameWindow, hv.not_de_of_blank h1 h2]
  exact ⟨rfl, rfl⟩

/-- The row window at the start of a row. -/
lemma rowWindow_row (h0 : (run stream inp s₀ (row j)).counter.nowX = 0#16) (hw : 3 ≤ w) :
    (run stream inp s₀ (row j)).rowWindow (inp (row j)).de = false
      ∧ (run stream inp s₀ (row j + 1)).rowWindow (inp (row j + 1)).de = true
      ∧ (run stream inp s₀ (row j + 2)).rowWindow (inp (row j + 2)).de = true := by
  refine ⟨?_, ?_, ?_⟩
  · rw [rowWindow, h0]
    exact Bool.and_false _
  · rw [rowWindow, hv.nowX_row hset h0 (by omega), hv.de_of_row (j := j) (by omega) (by omega)]
    rfl
  · rw [rowWindow, hv.nowX_row hset h0 (by omega), hv.de_of_row (j := j) (by omega) (by omega)]
    rfl

/-- The frame window in the active area: open at pixels 1 and 2, as far as 32 bits show. -/
lemma frameWindow_row (h0 : (run stream inp s₀ (row (n * h))).counter.nowPxl = 0#32) (hr : r < h)
    (hc : c < w) :
    (run stream inp s₀ (row (n * h + r) + c)).frameWindow (inp (row (n * h + r) + c)).de
      = decide ((r * w + c) % 2 ^ 32 = 2 ∨ (r * w + c) % 2 ^ 32 = 1) := by
  rw [frameWindow, hv.nowPxl_row hset h0 hr hc.le,
    hv.de_of_row (j := n * h + r) (by omega) (by omega), Bool.true_and, Bool.eq_iff_iff]
  simp only [Bool.or_eq_true, beq_iff_eq, decide_eq_true_eq, ← BitVec.toNat_inj,
    BitVec.toNat_ofNat, Nat.reducePow, Nat.reduceMod]

end Counters

end VideoTiming

end Danmaku
