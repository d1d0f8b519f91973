import Mathlib.Tactic

/-!
`constants.h`: the sizes, special colours and parameters of the host program, and the byte
type of its pixels and texts.
-/

namespace Danmaku

/-- `uint8_t`, and `inp_char_t` on the target, where plain `char` is unsigned. -/
abbrev Byte := BitVec 8

/-- `MAX_WIDTH`: the longest text a layer shows, in pixels. -/
def maxWidth : ℕ := 2000

/-- `MAX_HEIGHT`: the rows of a layer map. -/
def maxHeight : ℕ := 256

/-- `MAX_TEXT_LEN`: the size of a text buffer, the terminating NUL included. -/
def maxTextLen : ℕ := 512

/-- `SLIDING_LAYER_ROWS`. -/
def slidingLayerRows : ℕ := 5

/-- `SLIDING_LAYER_COLS`. -/
def slidingLayerCols : ℕ := 5

/-- `NUM_STATIC_LAYER`. -/
def numStaticLayer : ℕ := 5

/-- `MAX_SCREEN_HEIGHT`. -/
def maxScreenHeight : ℕ := 1100

/-- `PXL_HSYNC`: the marker code at the end of a row. -/
def pxlHsync : Byte := 0xe#8

/-- `PXL_VSYNC`: the marker code at the end of a frame. -/
def pxlVsync : Byte := 0xf#8

/-- `PXL_BLANK`: the transparent code. -/
def pxlBlank : Byte := 0xd#8

/-- `CYCLE_PER_DANMU`. -/
def cyclePerDanmu : ℕ := 384

/-- `DURATION`: how many cycles a static layer stays. -/
def duration : ℕ := 300

/-- `MAX_IMG_SIZE`, `(((MAX_WIDTH + 2) * MAX_SCREEN_HEIGHT) + 3) & ~3`. -/
def maxImgSize : ℕ := ((maxWidth + 2) * maxScreenHeight + 3) / 4 * 4

/-- `FRAME_BUFFER_SIZE`. -/
def frameBufferSize : ℕ := maxImgSize

/-- `NUM_FRAME_BUFFER`. -/
def numFrameBuffer : ℕ := 7

lemma frameBufferSize_eq : frameBufferSize = 2202200 := rfl

/-- The bytes of one layer map, `MAX_HEIGHT * (MAX_WIDTH * 2)`. -/
def mapBytes : ℕ := maxHeight * (maxWidth * 2)

lemma mapBytes_eq : mapBytes = 1024000 := rfl

end Danmaku
