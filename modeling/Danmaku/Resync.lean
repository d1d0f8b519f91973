import Danmaku.VideoTiming

/-!
The overlay hardware resynchronises by itself.

* `Resynchronises`: from the third video frame on the overlay shows one stream frame per video
  frame, pixel for pixel, a fixed number of clocks after the output stage.
* `read_row`: one row, with the windows that its markers need open.
* `overlay_resynchronises`: **the latency is one clock**, for every frame in which the 32-bit
  `nowPxl` does not show its first pixels twice.
* `plainVideo`, `not_resynchronises_tall`: in a taller frame the second window lets the overlay
  lock one row too high.
-/

namespace Danmaku

open MarkedStream DanmakuOverlay

/-- The FIFO data is byte `m` of the stream, the one read last. -/
def DanmakuOverlay.Shows (stream : ℕ → Byte) (s : DanmakuOverlay) (m : ℕ) : Prop :=
  s.rd = m + 1 ∧ s.pixelSink = colorMapper ((stream m).extractLsb' 0 4)

/-- From the third video frame on, pixel `(r, c)` of one stream frame per video frame is shown `d`
clocks after pixel `(r, c)` of the video has reached the output stage. -/
def Resynchronises (w h : ℕ) (row : ℕ → ℕ) (stream : ℕ → Byte) (inp : ℕ → OverlayIn)
    (s₀ : DanmakuOverlay) (d : ℕ) : Prop :=
  ∃ k, ∀ i, ∀ r < h, ∀ c < w,
    (run stream inp s₀ (row ((i + 2) * h + r) + c + 2)).pixelOrig
        = (inp (row ((i + 2) * h + r) + c)).pixel
      ∧ (run stream inp s₀ (row ((i + 2) * h + r) + c + 2 + d)).Shows stream
          (((k + i) * h + r) * (w + 2) + c)

variable {w h : ℕ} {row : ℕ → ℕ} {hLevel vLevel : Bool} {inp : ℕ → OverlayIn}
  {stream : ℕ → Byte} {s₀ : DanmakuOverlay} {i n r t m : ℕ}

/-- A byte that is asked for is shown at the next clock. -/
lemma shows_of_req (hempty : ∀ t, (inp t).fifoRdEmpty = false)
    (hreq : (run stream inp s₀ t).fifoRdreq = true) (hrd : (run stream inp s₀ t).rd = m) :
    (run stream inp s₀ (t + 1)).Shows stream m := by
  simp only [Shows, run, clock, hreq, hempty t, hrd, Bool.not_false, Bool.and_self, if_true,
    and_self]

/-- One video row: a reader parked in front of row `i` of the stream reads this row, if the frame
window opens where row `i` begins a frame. -/
lemma read_row (hw : 3 ≤ w) (hs : WellFormed w h stream)
    (hv : VideoTiming w h row hLevel vLevel inp) (hempty : ∀ t, (inp t).fifoRdEmpty = false)
    (hset : Settled stream inp hLevel vLevel s₀) (hr : r < h)
    (hX : (run stream inp s₀ (row (n * h + r))).counter.nowX = 0#16)
    (hPxl : (run stream inp s₀ (row (n * h))).counter.nowPxl = 0#32)
    (hopen : h ∣ i → r * w % 2 ^ 32 = 0)
    (hp : Parked w h (run stream inp s₀ (row (n * h + r))).reader i) :
    (∀ c < w, (run stream inp s₀ (row (n * h + r) + 2 + c)).fifoRdreq = true
        ∧ (run stream inp s₀ (row (n * h + r) + 2 + c)).rd = i * (w + 2) + c)
      ∧ Parked w h (run stream inp s₀ (row (n * h + r + 1))).reader (i + 1) := by
  have hgap := hv.hblank (n * h + r)
  obtain ⟨hrow0, hrow1, hrow2⟩ := hv.rowWindow_row hset hX hw
  have hframe : ∀ c < 3, h ∣ i → (run stream inp s₀ (row (n * h + r) + c)).frameWindow
      (inp (row (n * h + r) + c)).de = decide (c = 2 ∨ c = 1) := by
    intro c hc hi
    rw [hv.frameWindow_row hset hPxl hr (by omega), Nat.add_mod, hopen hi, Nat.zero_add,
      Nat.mod_mod, Nat.mod_eq_of_lt (show c < 2 ^ 32 by omega)]
  have hwindow : ∀ c < 3, allows
      ((run stream inp s₀ (row (n * h + r) + c)).rowWindow (inp (row (n * h + r) + c)).de)
      ((run stream inp s₀ (row (n * h + r) + c)).frameWindow (inp (row (n * h + r) + c)).de)
      (boundary h i) = decide (c = 2 ∨ c = 1) := by
    intro c hc
    rw [boundary]
    split
    · exact hframe c hc ‹_›
    · rcases (show c = 0 ∨ c = 1 ∨ c = 2 by omega) with rfl | rfl | rfl
      · exact hrow0
      · exact hrow1
      · exact hrow2
  refine (reader_follows hs hempty s₀).row hp (hwindow 0 (by omega)) (hwindow 1 (by omega))
    (hwindow 2 (by omega)) (by omega) ?_
  intro u hu hu'
  have hclosed : (run stream inp s₀ u).rowWindow (inp u).de = false
      ∧ (run stream inp s₀ u).frameWindow (inp u).de = false :=
    hv.windows_closed (j := n * h + r) (by omega) hu'
  obtain ⟨hH, hV⟩ := hclosed
  rw [boundary]
  split
  · exact hV
  · exact hH

/-- Behind its first pixels a frame keeps the frame window closed. -/
lemma frameWindow_closed (hw : 3 ≤ w) (hsize : w * h ≤ 2 ^ 32 + 1)
    (hv : VideoTiming w h row hLevel vLevel inp) (hset : Settled stream inp hLevel vLevel s₀)
    (hPxl : (run stream inp s₀ (row (n * h))).counter.nowPxl = 0#32)
    (h1 : row (n * h) + 3 ≤ t) (h2 : t < row ((n + 1) * h)) :
    (run stream inp s₀ t).frameWindow (inp t).de = false := by
  cases hde : (inp t).de with
  | false => rfl
  | true =>
      obtain ⟨j, hj1, hj2⟩ := (hv.de t ((hv.row_le (Nat.zero_le (n * h))).trans (by omega))).mp hde
      have hlow : n * h < j + 1 := hv.lt_of_row_lt (show row (n * h) ≤ t by omega)
        (hj2.trans_le (by have := hv.hblank j; omega))
      have hhigh : j < (n + 1) * h := hv.lt_of_row_lt hj1 h2
      obtain ⟨r, rfl⟩ : ∃ r, j = n * h + r := ⟨j - n * h, by omega⟩
      obtain ⟨c, rfl⟩ : ∃ c, t = row (n * h + r) + c := ⟨t - row (n * h + r), by omega⟩
      have hr : r < h := by
        rw [Nat.succ_mul] at hhigh
        omega
      have hrw : r * w + w ≤ w * h := by
        rw [Nat.mul_comm w, ← Nat.succ_mul]
        exact Nat.mul_le_mul_right w hr
      have hpos : 3 ≤ r * w + c := by
        cases r with
        | zero =>
            have hc : row (n * h) + 3 ≤ row (n * h) + c := h1
            omega
        | succ r =>
            rw [Nat.succ_mul]
            omega
      rw [← hde, hv.frameWindow_row hset hPxl hr (by omega), decide_eq_false_iff_not]
      omega

/-- **The overlay resynchronises, and its latency is one clock.** -/
theorem overlay_resynchronises (hw : 100 ≤ w) (hh : 1 ≤ h) (hsize : w * h ≤ 2 ^ 32 + 1)
    (hs : WellFormed w h stream) (hv : SteadyVideo w h row hLevel vLevel inp)
    (hempty : ∀ t, (inp t).fifoRdEmpty = false) (hset : Settled stream inp hLevel vLevel s₀) :
    Resynchronises w h row stream inp s₀ 1 := by
  replace hv := hv.timing
  have hX : ∀ j, 1 ≤ j → (run stream inp s₀ (row j)).counter.nowX = 0#16 := by
    intro j hj
    obtain ⟨j, rfl⟩ : ∃ j', j = j' + 1 := ⟨j - 1, by omega⟩
    exact hv.nowX_start hset j
  have hPxl : ∀ n, 1 ≤ n → (run stream inp s₀ (row (n * h))).counter.nowPxl = 0#32 := by
    intro n hn
    obtain ⟨n, rfl⟩ : ∃ n', n = n' + 1 := ⟨n - 1, by omega⟩
    exact hv.nowPxl_start (by omega) hh n
  -- the second frame: the reader finds the end of a stream frame
  have hone : (run stream inp s₀ (row (1 * h))).counter.nowPxl = 0#32 := hPxl 1 le_rfl
  obtain ⟨q, ⟨k, rfl⟩, hpark⟩ := capture (R := row) (1 * h) (reader_follows hs hempty s₀)
    (by omega) hh (fun j _ _ => hv.hblank j)
    (fun j hj _ => (hv.rowWindow_row hset (hX j (by omega)) (by omega)).2)
    ⟨(hv.frameWindow_row (r := 0) (c := 1) hset hone hh (by omega)).trans (by simp),
      (hv.frameWindow_row (r := 0) (c := 2) hset hone hh (by omega)).trans (by simp)⟩
    (fun t h1 h2 => frameWindow_closed (by omega) hsize hv hset hone h1 (by rwa [Nat.succ_mul]))
  -- from the third frame on the rows of the stream and of the video keep step
  have hstep : ∀ m, Parked w h (run stream inp s₀ (row (2 * h + m))).reader (h * k + m) →
      (∀ c < w, (run stream inp s₀ (row (2 * h + m) + 2 + c)).fifoRdreq = true
        ∧ (run stream inp s₀ (row (2 * h + m) + 2 + c)).rd = (h * k + m) * (w + 2) + c)
      ∧ Parked w h (run stream inp s₀ (row (2 * h + m + 1))).reader (h * k + m + 1) := by
    intro m hp
    have hm : 2 * h + m = (m / h + 2) * h + m % h := by
      have hdiv := Nat.div_add_mod' m h
      rw [Nat.add_mul]
      omega
    rw [hm] at hp ⊢
    refine read_row (by omega) hs hv hempty hset (Nat.mod_lt _ hh) (hX _ (by rw [← hm]; omega))
      (hPxl _ (Nat.succ_pos _)) ?_ hp
    intro hdvd
    have hmod : m % h = 0 :=
      Nat.mod_eq_zero_of_dvd ((Nat.dvd_add_right (Nat.dvd_mul_right h k)).mp hdvd)
    rw [hmod, Nat.zero_mul, Nat.zero_mod]
  have hparked : ∀ m, Parked w h (run stream inp s₀ (row (2 * h + m))).reader (h * k + m) := by
    intro m
    induction m with
    | zero =>
        rw [Nat.two_mul]
        rw [Nat.one_mul] at hpark
        exact hpark
    | succ m ih => exact (hstep m ih).2
  refine ⟨k, fun i r hr c hc => ⟨rfl, ?_⟩⟩
  obtain ⟨hreq, hrd⟩ := (hstep (i * h + r) (hparked _)).1 c hc
  rw [show (i + 2) * h + r = 2 * h + (i * h + r) by ring, Nat.add_right_comm _ c 2]
  refine shows_of_req hempty hreq ?_
  rw [hrd, show h * k + (i * h + r) = (k + i) * h + r by ring]

/-! ### A plain video -/

/-- A video of `w` by `h` with the shortest blanking, its vsync pulse one clock long. -/
def plainVideo (w h t : ℕ) : OverlayIn where
  scdt := true
  vsync := decide (t / (w + 8) % (h + 1) = h ∧ t % (w + 8) = 0)
  hsync := false
  de := decide (t / (w + 8) % (h + 1) < h ∧ t % (w + 8) < w)
  pixelR := 0#8
  pixelG := 0#8
  pixelB := 0#8
  fifoRdEmpty := false
  noDebug := true
  overlayEn := true

/-- The start of its rows: a frame of `h` rows takes `h + 1` lines. -/
def plainRow (w h j : ℕ) : ℕ := (w + 8) * (j + j / h)

/-- Blank frames. -/
def plainStream (w h m : ℕ) : Byte :=
  if m % (w + 2) < w then pxlBlank else if h ∣ m / (w + 2) + 1 then pxlVsync else pxlHsync

lemma wellFormed_plainStream (w h : ℕ) : WellFormed w h (plainStream w h) := by
  intro m
  rw [plainStream]
  split
  · decide
  · rfl

lemma plainRow_eq (w : ℕ) {h : ℕ} (n : ℕ) {r : ℕ} (hr : r < h) :
    plainRow w h (n * h + r) = (w + 8) * (n * (h + 1) + r) := by
  rw [plainRow, Nat.add_comm (n * h), Nat.add_mul_div_right _ _ (by omega), Nat.div_eq_of_lt hr]
  ring

/-- A clock within a line of the video belongs to that line. -/
lemma line_eq {w a t : ℕ} (h1 : (w + 8) * a ≤ t) (h2 : t < (w + 8) * a + (w + 8)) :
    t / (w + 8) = a ∧ t % (w + 8) = t - (w + 8) * a := by
  obtain ⟨x, rfl⟩ := Nat.exists_eq_add_of_le h1
  rw [Nat.mul_add_div (by omega), Nat.mul_add_mod, Nat.div_eq_of_lt (by omega),
    Nat.mod_eq_of_lt (by omega), Nat.add_zero, Nat.add_sub_cancel_left]
  exact ⟨rfl, rfl⟩

lemma steadyVideo_plain (w : ℕ) {h : ℕ} (hh : 1 ≤ h) :
    SteadyVideo w h (plainRow w h) false false (plainVideo w h) := by
  have hlast : ∀ n, plainRow w h (n * h + (h - 1)) + (w + 8) = (w + 8) * (n * (h + 1) + h) := by
    intro n
    rw [plainRow_eq w n (by omega), ← Nat.mul_succ]
    congr 1
    omega
  have hnext : ∀ n, plainRow w h ((n + 1) * h) = (w + 8) * (n * (h + 1) + h) + (w + 8) := by
    intro n
    rw [← Nat.add_zero ((n + 1) * h), plainRow_eq w (n + 1) (by omega)]
    ring
  have hmod : ∀ n r, r ≤ h → (n * (h + 1) + r) % (h + 1) = r := by
    intro n r hr
    rw [Nat.add_comm, Nat.add_mul_mod_self_right, Nat.mod_eq_of_lt (by omega)]
  have hline : ∀ t, (w + 8) * (t / (w + 8)) + t % (w + 8) = t := fun t => Nat.div_add_mod t (w + 8)
  refine ⟨fun _ => rfl, ?_, ?_, fun t _ => ⟨?_, ?_⟩,
    fun t _ hde => ⟨rfl, ?_⟩, ?_, ?_⟩
  · intro j
    have hdiv : j / h ≤ (j + 1) / h := Nat.div_le_div_right (Nat.le_succ j)
    calc plainRow w h j + w + 8 = (w + 8) * (j + j / h + 1) := by rw [plainRow]; ring
      _ ≤ (w + 8) * (j + 1 + (j + 1) / h) := Nat.mul_le_mul_left _ (by omega)
  · intro n
    rw [hnext, ← hlast]
    omega
  · intro hde
    simp only [plainVideo, decide_eq_true_eq] at hde
    obtain ⟨hl, hx⟩ := hde
    refine ⟨t / (w + 8) / (h + 1) * h + t / (w + 8) % (h + 1), ?_⟩
    rw [plainRow_eq w _ hl, Nat.div_add_mod']
    have ht := hline t
    omega
  · rintro ⟨j, hj1, hj2⟩
    have hr := Nat.mod_lt j (show 0 < h by omega)
    rw [← Nat.div_add_mod' j h, plainRow_eq w _ hr] at hj1 hj2
    obtain ⟨hl, hx⟩ := line_eq hj1 (by omega)
    simp only [plainVideo, hl, hx, hmod _ _ hr.le, decide_eq_true_eq]
    omega
  · simp only [plainVideo, decide_eq_true_eq] at hde
    simp only [plainVideo, decide_eq_false_iff_not]
    omega
  · intro n
    refine ⟨(w + 8) * (n * (h + 1) + h), by rw [← hlast]; omega, by rw [hnext]; omega, ?_⟩
    simp only [plainVideo, Nat.mul_div_cancel_left _ (show 0 < w + 8 by omega), hmod n h le_rfl,
      Nat.mul_mod_right, and_self, decide_true, ne_eq, Bool.true_eq_false, not_false_eq_true]
  · intro t _ hvs
    simp only [plainVideo, ne_eq, decide_eq_false_iff_not, not_not] at hvs
    obtain ⟨hl, hx⟩ := hvs
    refine ⟨t / (w + 8) / (h + 1), ?_⟩
    have hdiv := Nat.div_add_mod' (t / (w + 8)) (h + 1)
    have ht := hline t
    rw [hl] at hdiv
    rw [hx, ← hdiv] at ht
    have h1 := hlast (t / (w + 8) / (h + 1))
    have h2 := hnext (t / (w + 8) / (h + 1))
    omega

/-- The registers with their counters cleared. -/
def cleared (rd : ℕ) (pixelSink : BitVec 32) : DanmakuOverlay where
  rd := rd
  pixelSink := pixelSink
  fifoRdreq := false
  counter := ⟨0, 0, 0, 0, 0, 0, false, false, ⟨0, 0, false, false⟩, ⟨0, 0, false, false⟩⟩
  pixelOrigT := 0
  pixelOrig := 0
  syncT := (false, false, false)
  syncO := (false, false, false)

/-- A detector that sees only pulses of one clock stays at the low level. -/
lemma normalSync_of_pulses {f : ℕ → Bool} (hf : ∀ t, f t = true → f (t + 1) = false)
    {σ : ℕ → SyncPolDecter} (h0 : σ 0 = ⟨0, 0, false, false⟩)
    (hσ : ∀ t, σ (t + 1) = (σ t).clock (f t)) (t : ℕ) : (σ t).normalSync = false := by
  have hinv : (σ t).normalSync = false ∧ (σ t).highCount = 0#25
      ∧ ((σ t).syncD1 = true → f t = false) := by
    induction t with
    | zero => simp [h0]
    | succ t ih =>
        obtain ⟨hn, hc, hd⟩ := ih
        rw [hσ]
        cases hft : f t with
        | false =>
            cases hs : (σ t).syncD1 <;> simp [SyncPolDecter.clock, hs, hn, hc]
        | true =>
            have hs : (σ t).syncD1 = false := by
              rw [← Bool.not_eq_true]
              exact fun h' => by simp [hd h'] at hft
            simp [SyncPolDecter.clock, hs, hc, hf t hft]
  exact hinv.1

lemma settled_cleared (w : ℕ) {h : ℕ} (stream : ℕ → Byte) (rd : ℕ) (pixelSink : BitVec 32) :
    Settled stream (plainVideo w h) false false (cleared rd pixelSink) := fun t =>
  ⟨normalSync_of_pulses (f := fun _ => false) (fun _ _ => rfl)
      (σ := fun t => (run stream (plainVideo w h) (cleared rd pixelSink) t).counter.hdect) rfl
      (fun t => rfl) t,
    normalSync_of_pulses (f := fun t => (plainVideo w h t).vsync) (fun t ht => by
      simp only [plainVideo, decide_eq_true_eq, decide_eq_false_iff_not] at ht ⊢
      have hone : (t + 1) % (w + 8) = 1 := by
        rw [Nat.add_mod, ht.2, Nat.zero_add, Nat.mod_mod, Nat.mod_eq_of_lt (by omega)]
      omega)
      (σ := fun t => (run stream (plainVideo w h) (cleared rd pixelSink) t).counter.vdect) rfl
      (fun t => rfl) t⟩

/-- A plain video of 100 by 2, from cleared registers. -/
theorem overlay_resynchronises_plain : Resynchronises 100 2 (plainRow 100 2) (plainStream 100 2)
    (plainVideo 100 2) (cleared 0 0#32) 1 :=
  overlay_resynchronises (by decide) (by decide) (by decide) (wellFormed_plainStream 100 2)
    (steadyVideo_plain 100 (by decide)) (fun _ => rfl) (settled_cleared 100 _ 0 0#32)

/-! ### A frame of more than `2 ^ 32` pixels -/

/-- The overlay of a 128 by `2 ^ 25 + 1` video, parked at its start in front of the second row of
a stream frame. -/
def tallRun : ℕ → DanmakuOverlay :=
  run (plainStream 128 33554433) (plainVideo 128 33554433) (cleared 130 1#32)

/-- Every video row shows the stream row behind its own: the frame window opens a second time at
the start of the last row. -/
lemma tallRun_row (j : ℕ)
    (hp : Parked 128 33554433 (tallRun (plainRow 128 33554433 j)).reader (j + 1)) :
    (∀ c < 128, (tallRun (plainRow 128 33554433 j + 2 + c)).fifoRdreq = true
        ∧ (tallRun (plainRow 128 33554433 j + 2 + c)).rd = (j + 1) * 130 + c)
      ∧ Parked 128 33554433 (tallRun (plainRow 128 33554433 (j + 1))).reader (j + 2) := by
  have hv := (steadyVideo_plain 128 (h := 33554433) (by omega)).timing
  have hset := settled_cleared 128 (h := 33554433) (plainStream 128 33554433) 130 1#32
  have hX : ∀ j, (tallRun (plainRow 128 33554433 j)).counter.nowX = 0#16 := by
    intro j
    cases j with
    | zero => rfl
    | succ j => exact hv.nowX_start hset j
  have hPxl : ∀ n, (tallRun (plainRow 128 33554433 (n * 33554433))).counter.nowPxl = 0#32 := by
    intro n
    cases n with
    | zero => rfl
    | succ n => exact hv.nowPxl_start (by omega) (by omega) n
  have hj := Nat.div_add_mod' j 33554433
  have hr := Nat.mod_lt j (show 0 < 33554433 by omega)
  rw [← hj] at hp ⊢
  exact read_row (by omega) (wellFormed_plainStream 128 33554433) hv (fun _ => rfl) hset hr (hX _)
    (hPxl _) (fun hdvd => by omega) hp

lemma tallRun_parked (j : ℕ) :
    Parked 128 33554433 (tallRun (plainRow 128 33554433 j)).reader (j + 1) := by
  induction j with
  | zero => exact ⟨rfl, by decide, rfl⟩
  | succ j ih => exact (tallRun_row j ih).2

lemma tallRun_rd_mono {t u : ℕ} (h : t ≤ u) : (tallRun t).rd ≤ (tallRun u).rd :=
  (reader_follows (wellFormed_plainStream 128 33554433) (fun _ => rfl) (cleared 130 1#32)).rd_mono h

/-- The first byte of stream row `j + 1` is shown at one clock only. -/
lemma eq_of_tallRun_rd {j t : ℕ} (h : (tallRun t).rd = (j + 1) * 130 + 1) :
    t = plainRow 128 33554433 j + 3 := by
  have hrow := (tallRun_row j (tallRun_parked j)).1
  have h0 := (hrow 0 (by omega)).2
  have h2 := (hrow 2 (by omega)).2
  rcases lt_trichotomy t (plainRow 128 33554433 j + 3) with hlt | heq | hgt
  · have hmono := tallRun_rd_mono (show t ≤ plainRow 128 33554433 j + 2 + 0 by omega)
    omega
  · exact heq
  · have hmono := tallRun_rd_mono (show plainRow 128 33554433 j + 2 + 2 ≤ t by omega)
    omega

/-- **A frame of more than `2 ^ 32` pixels need not resynchronise**: for no latency does the
overlay of a 128 by `2 ^ 25 + 1` video show the pixels in place from every starting state. -/
theorem not_resynchronises_tall :
    ∃ row stream inp, WellFormed 128 33554433 stream
      ∧ SteadyVideo 128 33554433 row false false inp ∧ (∀ t, (inp t).fifoRdEmpty = false)
      ∧ ∀ d, ∃ s₀, Settled stream inp false false s₀
        ∧ ¬ Resynchronises 128 33554433 row stream inp s₀ d := by
  refine ⟨plainRow 128 33554433, plainStream 128 33554433, plainVideo 128 33554433,
    wellFormed_plainStream _ _, steadyVideo_plain _ (by omega), fun _ => rfl, fun d =>
    ⟨cleared 130 1#32, settled_cleared 128 _ 130 1#32, ?_⟩⟩
  rintro ⟨k, hk⟩
  have h0 : (tallRun (plainRow 128 33554433 (2 * 33554433 + 0) + 0 + 2 + d)).rd
      = ((k + 0) * 33554433 + 0) * (128 + 2) + 0 + 1 := (hk 0 0 (by omega) 0 (by omega)).2.1
  have h1 : (tallRun (plainRow 128 33554433 (2 * 33554433 + 1) + 0 + 2 + d)).rd
      = ((k + 0) * 33554433 + 1) * (128 + 2) + 0 + 1 := (hk 0 1 (by omega) 0 (by omega)).2.1
  cases k with
  | zero =>
      -- the read pointer starts behind the first stream row
      have hmono : 130 ≤ (tallRun (plainRow 128 33554433 (2 * 33554433 + 0) + 0 + 2 + d)).rd :=
        tallRun_rd_mono (Nat.zero_le _)
      omega
  | succ k =>
      -- the two rows are shown a line and its vertical blanking apart, those of the video a line
      have ht0 := eq_of_tallRun_rd (j := k * 33554433 + 33554432) (h0.trans (by ring))
      have ht1 := eq_of_tallRun_rd (j := (k + 1) * 33554433 + 0) (h1.trans (by ring))
      rw [plainRow_eq 128 _ (by omega), plainRow_eq 128 _ (by omega)] at ht0 ht1
      omega

end Danmaku
