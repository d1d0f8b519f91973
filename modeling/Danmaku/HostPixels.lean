import Danmaku.Resync

/-!
Where the host's pixels land on the screen.

A reader that waits on the second marker of a frame asks for the first pixel of the row when the
counters show column 1, so that it holds the pixel three clocks after column 0 has come in. The
video leaves the overlay after two clocks.

* `HostPixelsInPlace`: every host pixel is shown on its own position.
* `hostPixels_shifted`: **every host pixel is shown one column too far right**, and the last one of
  a row behind its end.
* `not_hostPixelsInPlace`: no frame has its host pixels in place.
-/

namespace Danmaku

open MarkedStream DanmakuOverlay

/-- In the video frame `n` and the host frame `k`: when the overlay puts out pixel `(r, c)` of the
video, two clocks after it has come in, the overlay word is the colour of byte `r * (w + 2) + c` of
the host frame. -/
def HostPixelsInPlace (w h : ℕ) (row : ℕ → ℕ) (stream : ℕ → Byte) (inp : ℕ → OverlayIn)
    (s₀ : DanmakuOverlay) (n k : ℕ) : Prop :=
  ∀ r < h, ∀ c < w,
    let s := run stream inp s₀ (row (n * h + r) + c + 2)
    s.syncO.2.2 = true →
      s.pixelSink = colorMapper ((stream (h * k * (w + 2) + (r * (w + 2) + c))).extractLsb' 0 4)

variable {w h : ℕ} {row : ℕ → ℕ} {hLevel vLevel : Bool} {inp : ℕ → OverlayIn}
  {stream : ℕ → Byte} {s₀ : DanmakuOverlay} {k n r t : ℕ}

/-- The video leaves the overlay two clocks after it has come in. -/
lemma output_delay (stream : ℕ → Byte) (inp : ℕ → OverlayIn) (s₀ : DanmakuOverlay) (t : ℕ) :
    (run stream inp s₀ (t + 2)).pixelOrig = (inp t).pixel
      ∧ (run stream inp s₀ (t + 2)).syncO = ((inp t).vsync, (inp t).hsync, (inp t).de) :=
  ⟨rfl, rfl⟩

/-- The frame window is closed at the first pixel of a frame. -/
lemma frameWindow_start (h0 : (run stream inp s₀ t).counter.nowPxl = 0#32) (de : Bool) :
    (run stream inp s₀ t).frameWindow de = false := by
  rw [frameWindow, h0]
  exact Bool.and_false _

/-- **The overlay still holds the marker when it puts out the first pixel of a frame**, whatever
the corrector takes the polarity for. -/
lemma marker_at_first_pixel (hw : 2 ≤ w) (hh : 1 ≤ h) (hs : WellFormed w h stream)
    (hv : VideoTiming w h row hLevel vLevel inp) (hempty : ∀ t, (inp t).fifoRdEmpty = false)
    (hp : Parked w h (run stream inp s₀ (row ((n + 1) * h))).reader (h * k)) :
    kindOf (run stream inp s₀ (row ((n + 1) * h) + 2)).pixelSink = .frame := by
  have hframe : boundary h (h * k) = .frame := if_pos (Nat.dvd_mul_right h k)
  rw [← hframe]
  refine (reader_follows hs hempty s₀).held_start hp ?_
  rw [hframe]
  exact frameWindow_start (hv.nowPxl_start hw hh n) _

/-- Of the rows of a frame only the first one begins it. -/
lemma eq_zero_of_frame_start (hr : r < h) (hdvd : h ∣ h * k + r) : r = 0 :=
  Nat.eq_zero_of_dvd_of_lt ((Nat.dvd_add_right (Nat.dvd_mul_right h k)).mp hdvd) hr

/-- A reader that is parked in front of a host frame when a video frame begins reads this frame row
by row. -/
lemma parked_rows (hw : 3 ≤ w) (hs : WellFormed w h stream)
    (hv : VideoTiming w h row hLevel vLevel inp) (hempty : ∀ t, (inp t).fifoRdEmpty = false)
    (hset : Settled stream inp hLevel vLevel s₀)
    (hX : (run stream inp s₀ (row (n * h))).counter.nowX = 0#16)
    (hPxl : (run stream inp s₀ (row (n * h))).counter.nowPxl = 0#32)
    (hp : Parked w h (run stream inp s₀ (row (n * h))).reader (h * k)) (hr : r ≤ h) :
    Parked w h (run stream inp s₀ (row (n * h + r))).reader (h * k + r)
      ∧ (run stream inp s₀ (row (n * h + r))).counter.nowX = 0#16 := by
  induction r with
  | zero => exact ⟨hp, hX⟩
  | succ r ih =>
      obtain ⟨hpark, hzero⟩ := ih (by omega)
      refine ⟨(read_row hw hs hv hempty hset hr hzero hPxl ?_ hpark).2, hv.nowX_start hset _⟩
      intro hdvd
      rw [eq_zero_of_frame_start hr hdvd, Nat.zero_mul, Nat.zero_mod]

/-- **Every host pixel is shown one column too far right**: column 0 of a row meets the marker, and
the last pixel of the row the blanking behind it. -/
theorem hostPixels_shifted (hw : 100 ≤ w) (hh : 1 ≤ h) (hs : WellFormed w h stream)
    (hv : VideoTiming w h row hLevel vLevel inp) (hempty : ∀ t, (inp t).fifoRdEmpty = false)
    (hset : Settled stream inp hLevel vLevel s₀)
    (hp : Parked w h (run stream inp s₀ (row ((n + 1) * h))).reader (h * k)) (hr : r < h) :
    kindOf (run stream inp s₀ (row ((n + 1) * h + r) + 2)).pixelSink ≠ .data
      ∧ ∀ c < w, (run stream inp s₀ (row ((n + 1) * h + r) + (c + 1) + 2)).Shows stream
          (h * k * (w + 2) + (r * (w + 2) + c)) := by
  have hPxl : (run stream inp s₀ (row ((n + 1) * h))).counter.nowPxl = 0#32 :=
    hv.nowPxl_start (by omega) hh n
  have hX : (run stream inp s₀ (row ((n + 1) * h))).counter.nowX = 0#16 := by
    obtain ⟨j, hj⟩ : ∃ j, (n + 1) * h = j + 1 := ⟨(n + 1) * h - 1, by
      rw [Nat.succ_mul]
      omega⟩
    rw [hj]
    exact hv.nowX_start hset j
  obtain ⟨hpark, hzero⟩ := parked_rows (by omega) hs hv hempty hset hX hPxl hp hr.le
  have hdvd : h ∣ h * k + r → r * w % 2 ^ 32 = 0 := by
    intro hdvd
    rw [eq_zero_of_frame_start hr hdvd, Nat.zero_mul, Nat.zero_mod]
  refine ⟨?_, fun c hc => ?_⟩
  · have hclosed : allows
        ((run stream inp s₀ (row ((n + 1) * h + r))).rowWindow (inp (row ((n + 1) * h + r))).de)
        ((run stream inp s₀ (row ((n + 1) * h + r))).frameWindow (inp (row ((n + 1) * h + r))).de)
        (boundary h (h * k + r)) = false := by
      rw [boundary]
      split
      · obtain rfl := eq_zero_of_frame_start hr ‹_›
        exact frameWindow_start hPxl _
      · exact (hv.rowWindow_row hset hzero (by omega)).1
    have hheld := (reader_follows hs hempty s₀).held_start hpark hclosed
    show (run stream inp s₀ (row ((n + 1) * h + r) + 2)).reader.held ≠ .data
    rw [hheld, boundary]
    split <;> simp
  · obtain ⟨hreq, hrd⟩ := (read_row (by omega) hs hv hempty hset hr hzero hPxl hdvd hpark).1 c hc
    rw [show row ((n + 1) * h + r) + (c + 1) + 2 = row ((n + 1) * h + r) + 2 + c + 1 by omega]
    refine shows_of_req hempty hreq ?_
    rw [hrd]
    ring

/-- **No frame has its host pixels in place**: for every size, well-formed stream and video timing,
from every state of the registers. -/
theorem not_hostPixelsInPlace (hw : 100 ≤ w) (hh : 1 ≤ h) (hs : WellFormed w h stream)
    (hv : VideoTiming w h row hLevel vLevel inp) (hempty : ∀ t, (inp t).fifoRdEmpty = false)
    (hp : Parked w h (run stream inp s₀ (row ((n + 1) * h))).reader (h * k)) :
    ¬ HostPixelsInPlace w h row stream inp s₀ (n + 1) k := by
  intro hplace
  have hactive : (inp (row ((n + 1) * h + 0) + 0)).de = true := hv.de_of_row le_rfl (by omega)
  have hsink := hplace 0 hh 0 (by omega) (by rw [(output_delay stream inp s₀ _).2]; exact hactive)
  have hmarker := marker_at_first_pixel (by omega) hh hs hv hempty hp
  have hbyte := hs.kindOf (h * k * (w + 2) + (0 * (w + 2) + 0))
  rw [Nat.zero_mul, Nat.zero_add, Nat.add_zero, kindAt_first (by omega)] at hbyte
  simp only [Nat.zero_mul, Nat.add_zero] at hsink
  rw [hsink, hbyte] at hmarker
  exact absurd hmarker (by simp)

/-- The overlay of a plain video of 100 by 2 is parked when the second video frame begins. -/
lemma parked_plain : Parked 100 2 (run (plainStream 100 2) (plainVideo 100 2) (cleared 0 2#32)
    (plainRow 100 2 ((0 + 1) * 2))).reader (2 * 1) :=
  (parked_rows (n := 0) (k := 0) (r := 2) (by omega) (wellFormed_plainStream 100 2)
    (steadyVideo_plain 100 (by decide)).timing (fun _ => rfl) (settled_cleared 100 _ 0 2#32) rfl rfl
    ⟨rfl, by decide, rfl⟩ le_rfl).1

/-- The second frame of a plain video. -/
theorem not_hostPixelsInPlace_plain :
    ¬ HostPixelsInPlace 100 2 (plainRow 100 2) (plainStream 100 2) (plainVideo 100 2)
      (cleared 0 2#32) (0 + 1) 1 :=
  not_hostPixelsInPlace (by decide) (by decide) (wellFormed_plainStream 100 2)
    (steadyVideo_plain 100 (by decide)).timing (fun _ => rfl) parked_plain

/-- There the overlay word of the first pixel is the marker, and not the blank that the host put
into byte 0. -/
theorem not_hostPixelsInPlace_firstPixel :
    WellFormed 100 2 (plainStream 100 2)
      ∧ VideoTiming 100 2 (plainRow 100 2) false false (plainVideo 100 2)
      ∧ (∀ t, (plainVideo 100 2 t).fifoRdEmpty = false ∧ (plainVideo 100 2 t).overlayEn = true)
      ∧ Parked 100 2 (run (plainStream 100 2) (plainVideo 100 2) (cleared 0 2#32)
          (plainRow 100 2 ((0 + 1) * 2))).reader (2 * 1)
      ∧ ¬ HostPixelsInPlace 100 2 (plainRow 100 2) (plainStream 100 2) (plainVideo 100 2)
          (cleared 0 2#32) (0 + 1) 1 := by
  refine ⟨wellFormed_plainStream 100 2, (steadyVideo_plain 100 (by decide)).timing,
    fun _ => ⟨rfl, rfl⟩, parked_plain, fun h => ?_⟩
  have hsink := h 0 (by decide) 0 (by decide) rfl
  have hmarker := marker_at_first_pixel (n := 0) (by omega) (by decide)
    (wellFormed_plainStream 100 2) (steadyVideo_plain 100 (by decide)).timing (fun _ => rfl)
    parked_plain
  rw [show plainRow 100 2 ((0 + 1) * 2) + 2 = plainRow 100 2 ((0 + 1) * 2 + 0) + 0 + 2 from rfl,
    hsink] at hmarker
  exact absurd hmarker (by decide)

end Danmaku
