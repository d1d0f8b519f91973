import Danmaku.FrameFormat
import Danmaku.PxlCounter
import Danmaku.Lib.MarkedStream

/-!
`danmaku_overlay` fed by `pixel_data_adapter` (`danmaku_overlay.v`, `pixel_data_adapter.v`), out of
reset, one clock of `odck` at a time.

The FIFO is a stream of bytes and the number of bytes read from it. It shows its next byte ahead;
what it shows while it is empty is not specified, and stands for nothing here.

* `DanmakuOverlay.clock`: the registers after a rising edge; `run`: all clocks.
* `pixelOut`: the overlaid pixel.
* `WellFormed`: a stream of frames in the format of `LaidOut`.
* `reader`, `reader_follows`: the overlay **reads its FIFO as a reader of marked rows**.
-/

namespace Danmaku

open MarkedStream

/-- The inputs of `danmaku_overlay` at a rising edge. -/
structure OverlayIn where
  scdt : Bool
  vsync : Bool
  hsync : Bool
  de : Bool
  pixelR : Byte
  pixelG : Byte
  pixelB : Byte
  fifoRdEmpty : Bool
  noDebug : Bool
  overlayEn : Bool
  deriving DecidableEq, Repr

/-- `{pixel_r_in, pixel_g_in, pixel_b_in}`. -/
def OverlayIn.pixel (inp : OverlayIn) : BitVec 24 := inp.pixelR ++ inp.pixelG ++ inp.pixelB

/-- `color_mapper`. -/
def colorMapper (short : BitVec 4) : BitVec 32 :=
  let bit (i : ℕ) : Byte := if short.getLsbD i then 0xff#8 else 0x00#8
  if short.getLsbD 3 = false then bit 0 ++ bit 1 ++ bit 2 ++ 0xff#8
  else if short = 0xf#4 then 2#32
  else if short = 0xe#4 then 1#32
  else 0#32

/-- `syncWaitH`: the FIFO data is the marker of a row. -/
def syncWaitH (fifoData : BitVec 32) : Bool := fifoData.extractLsb' 0 2 == 1#2

/-- `syncWaitV`: the FIFO data is the marker of a frame. -/
def syncWaitV (fifoData : BitVec 32) : Bool := fifoData.extractLsb' 0 2 == 2#2

/-- The registers of `danmaku_overlay` and `pixel_data_adapter`, and the bytes read so far. -/
structure DanmakuOverlay where
  rd : ℕ
  /-- `pixel_sink`, which is `fifoData_in` -/
  pixelSink : BitVec 32
  fifoRdreq : Bool
  counter : PxlCounter
  /-- `{pixel_r_orig_t, pixel_g_orig_t, pixel_b_orig_t}` and the output stage behind it -/
  pixelOrigT : BitVec 24
  pixelOrig : BitVec 24
  /-- `{vsync_t, hsync_t, de_t}` and `{vsync_o, hsync_o, de_o}` -/
  syncT : Bool × Bool × Bool
  syncO : Bool × Bool × Bool

namespace DanmakuOverlay

/-- `de_in && (nowX == 2 || nowX == 1)`. -/
def rowWindow (s : DanmakuOverlay) (de : Bool) : Bool :=
  de && (s.counter.nowX == 2#16 || s.counter.nowX == 1#16)

/-- `de_in && (nowPxl == 2 || nowPxl == 1)`. -/
def frameWindow (s : DanmakuOverlay) (de : Bool) : Bool :=
  de && (s.counter.nowPxl == 2#32 || s.counter.nowPxl == 1#32)

/-- One clock, with the bytes of `stream` behind the FIFO. -/
def clock (stream : ℕ → Byte) (inp : OverlayIn) (s : DanmakuOverlay) : DanmakuOverlay where
  rd := if s.fifoRdreq && !inp.fifoRdEmpty then s.rd + 1 else s.rd
  pixelSink := if s.fifoRdreq then colorMapper ((stream s.rd).extractLsb' 0 4) else s.pixelSink
  fifoRdreq :=
    (!syncWaitH s.pixelSink || s.rowWindow inp.de)
      && (!syncWaitV s.pixelSink || s.frameWindow inp.de)
  counter := s.counter.clock inp.scdt inp.vsync inp.hsync inp.de
  pixelOrigT := inp.pixel
  pixelOrig := s.pixelOrigT
  syncT := (inp.vsync, inp.hsync, inp.de)
  syncO := s.syncT

/-- `{pixel_r_o, pixel_g_o, pixel_b_o}`: the colour of the FIFO data, or the original pixel, with
the debugging colours unless these are off. -/
def pixelOut (s : DanmakuOverlay) (inp : OverlayIn) : BitVec 24 :=
  let syncWait := syncWaitH s.pixelSink || syncWaitV s.pixelSink
  if s.pixelSink.getLsbD 7 = false || syncWait || !inp.overlayEn then
    let r := s.pixelOrig.extractLsb' 16 8
    let g := s.pixelOrig.extractLsb' 8 8
    let b := s.pixelOrig.extractLsb' 0 8
    (if inp.fifoRdEmpty && !inp.noDebug then ~~~r else r) ++ g
      ++ (if syncWait && !inp.noDebug then ~~~b else b)
  else s.pixelSink.extractLsb' 8 24

/-- The state after `t` clocks. -/
def run (stream : ℕ → Byte) (inp : ℕ → OverlayIn) (s₀ : DanmakuOverlay) : ℕ → DanmakuOverlay
  | 0 => s₀
  | t + 1 => (run stream inp s₀ t).clock stream (inp t)

end DanmakuOverlay

/-- An endless stream of `w` by `h` frames: rows of `w` bytes without a marker code, each followed
by two `PXL_HSYNC`, or by two `PXL_VSYNC` after the last row of a frame. -/
def WellFormed (w h : ℕ) (stream : ℕ → Byte) : Prop :=
  ∀ m, if m % (w + 2) < w then isMarker (stream m) = false
    else stream m = if h ∣ m / (w + 2) + 1 then pxlVsync else pxlHsync

/-- The kind of the FIFO data. -/
def kindOf (fifoData : BitVec 32) : Kind :=
  if syncWaitH fifoData then .row else if syncWaitV fifoData then .frame else .data

/-- A colour or a blank is no marker to the hardware. -/
lemma kindOf_colorMapper (b : Byte) (h : isMarker b = false) :
    kindOf (colorMapper (b.extractLsb' 0 4)) = .data := by
  revert b
  decide

lemma WellFormed.kindOf {w h : ℕ} {stream : ℕ → Byte} (hs : WellFormed w h stream) (m : ℕ) :
    kindOf (colorMapper ((stream m).extractLsb' 0 4)) = kindAt w h m := by
  have hm := hs m
  rw [kindAt]
  split at hm
  · rw [if_pos ‹_›]
    exact kindOf_colorMapper _ hm
  · rw [if_neg ‹_›, hm, boundary]
    split <;> decide

namespace DanmakuOverlay

/-- What the overlay is as a reader of its FIFO. -/
def reader (s : DanmakuOverlay) : Reader := ⟨s.rd, kindOf s.pixelSink, s.fifoRdreq⟩

lemma fifoRdreq_clock (stream : ℕ → Byte) (inp : OverlayIn) (s : DanmakuOverlay) :
    (s.clock stream inp).fifoRdreq
      = allows (s.rowWindow inp.de) (s.frameWindow inp.de) (kindOf s.pixelSink) := by
  rw [kindOf]
  simp only [clock]
  cases hH : syncWaitH s.pixelSink with
  | true =>
      have hV : syncWaitV s.pixelSink = false := by
        simp only [syncWaitH, syncWaitV, beq_iff_eq, beq_eq_false_iff_ne] at *
        rw [hH]
        decide
      simp [hV, allows]
  | false => cases hV : syncWaitV s.pixelSink <;> simp [allows]

lemma reader_clock {w h : ℕ} {stream : ℕ → Byte} {inp : OverlayIn} (hs : WellFormed w h stream)
    (hempty : inp.fifoRdEmpty = false) (s : DanmakuOverlay) :
    (s.clock stream inp).reader
      = s.reader.next w h (s.rowWindow inp.de) (s.frameWindow inp.de) := by
  rw [reader, fifoRdreq_clock, Reader.next]
  simp only [reader, clock, hempty, Bool.not_false, Bool.and_true, apply_ite kindOf, hs.kindOf]
  rfl

/-- **The overlay reads its FIFO as a reader of marked rows.** -/
theorem reader_follows {w h : ℕ} {stream : ℕ → Byte} {inp : ℕ → OverlayIn}
    (hs : WellFormed w h stream) (hempty : ∀ t, (inp t).fifoRdEmpty = false) (s₀ : DanmakuOverlay) :
    Follows w h (fun t => (run stream inp s₀ t).rowWindow (inp t).de)
      (fun t => (run stream inp s₀ t).frameWindow (inp t).de)
      fun t => (run stream inp s₀ t).reader :=
  fun t => reader_clock hs (hempty t) (run stream inp s₀ t)

end DanmakuOverlay

end Danmaku
