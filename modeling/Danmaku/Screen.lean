import Danmaku.Constants
import Danmaku.Lib.Loop

/-!
The frame geometry of a session (`danmaku.c`: `SubMain`, `InitBlankScreen`).

* `Screen`: a size that `SubMain` accepts; `Screen.ofFrameSize?` is its acceptance test on
  the register that `DanmakuHW_GetFrameSize` reads.
* `edge`, `imgSize`: the character size and the frame length, the latter in the 32-bit
  arithmetic of the code; `imgSize_toNat`: read as the unsigned length of a transfer it is
  the exact product for every accepted size.
* `initBlankScreen`: the loops of `InitBlankScreen`, and `initBlankScreen_filled`, the
  frame format they leave behind (`blankByte`).
* `blankScreen_format`: **the frame format of a session**.
-/

namespace Danmaku

open CountedLoop

/-- A screen size that passes the test in `SubMain`: two 16-bit fields, each at least 100
and a multiple of 4. -/
structure Screen where
  width : ℕ
  height : ℕ
  width_lt : width < 2 ^ 16
  height_lt : height < 2 ^ 16
  le_width : 100 ≤ width
  le_height : 100 ≤ height
  width_mod : width % 4 = 0
  height_mod : height % 4 = 0
  deriving DecidableEq, Repr

/-- `DanmakuHW_GetFrameSize`: height in the low, width in the high half of the register. -/
def getFrameSize (resolution : BitVec 32) : ℕ × ℕ :=
  ((resolution &&& 0xffff#32).toNat, ((resolution >>> 16) &&& 0xffff#32).toNat)

lemma getFrameSize_lt (resolution : BitVec 32) :
    (getFrameSize resolution).1 < 2 ^ 16 ∧ (getFrameSize resolution).2 < 2 ^ 16 := by
  have h : ∀ x : BitVec 32, (x &&& 0xffff#32).toNat < 2 ^ 16 := by
    intro x
    rw [BitVec.toNat_and]
    exact Nat.and_lt_two_pow _ (by decide)
  exact ⟨h _, h _⟩

namespace Screen

/-- The acceptance test of `SubMain` on the size register. -/
def ofFrameSize? (resolution : BitVec 32) : Option Screen :=
  let height := (getFrameSize resolution).1
  let width := (getFrameSize resolution).2
  if h : width < 100 ∨ height < 100 ∨ width % 4 ≠ 0 ∨ height % 4 ≠ 0 then none
  else some ⟨width, height, (getFrameSize_lt resolution).2, (getFrameSize_lt resolution).1,
    by omega, by omega, by omega, by omega⟩

/-- The 1080p mode of the display whose EDID the program loads. -/
def fullHd : Screen :=
  ⟨1920, 1080, by decide, by decide, by decide, by decide, by decide, by decide⟩

variable (s : Screen)

/-- `edge`: the pixels of one character cell. -/
def edge : ℕ := s.width / 20

/-- The bytes of one row with its two markers. -/
def stride : ℕ := s.width + 2

/-- `img_size = (((screen_width + 2) * screen_height) + 3) & (~3)`, in `int` arithmetic. -/
def imgSize : BitVec 32 :=
  ((BitVec.ofNat 32 s.width + 2#32) * BitVec.ofNat 32 s.height + 3#32) &&& ~~~3#32

lemma edge_pos : 0 < s.edge := by
  have h := s.le_width
  simp only [edge]
  omega

lemma mask_three_toNat (x : BitVec 32) : (x &&& ~~~3#32).toNat = x.toNat / 4 * 4 := by
  have h : x &&& ~~~3#32 = (x >>> 2) <<< 2 := by
    ext i hi
    simp only [BitVec.getElem_and, BitVec.getElem_not, BitVec.getElem_shiftLeft]
    interval_cases i <;> simp [BitVec.getLsbD_eq_getElem]
  rw [h, BitVec.toNat_shiftLeft, BitVec.toNat_ushiftRight, Nat.shiftLeft_eq,
    Nat.shiftRight_eq_div_pow]
  have hx := x.isLt
  omega

/-- The product of an accepted size fits in 32 bits. -/
lemma stride_mul_height_lt : s.stride * s.height + 3 < 2 ^ 32 := by
  have hw : s.stride ≤ 65534 := by
    have h1 := s.width_lt
    have h2 := s.width_mod
    simp only [stride]
    omega
  have hh : s.height ≤ 65532 := by
    have h1 := s.height_lt
    have h2 := s.height_mod
    omega
  have := Nat.mul_le_mul hw hh
  omega

/-- The frame length is a multiple of 8, as `DanmakuHW_FrameBufferTxmit` asserts. -/
lemma stride_mul_height_mod : s.stride * s.height % 8 = 0 := by
  obtain ⟨a, ha⟩ : ∃ a, s.stride = 2 * a := ⟨s.width / 2 + 1, by
    have := s.width_mod
    simp only [stride]
    omega⟩
  obtain ⟨b, hb⟩ : ∃ b, s.height = 4 * b := ⟨s.height / 4, by
    have := s.height_mod
    omega⟩
  rw [ha, hb, show 2 * a * (4 * b) = 8 * (a * b) from by ring]
  omega

/-- Read as an unsigned 32-bit length, `img_size` is the exact product. -/
theorem imgSize_toNat : s.imgSize.toNat = s.stride * s.height := by
  have h1 := s.stride_mul_height_lt
  have h2 := s.stride_mul_height_mod
  have hw := s.width_lt
  have hh := s.height_lt
  have hs : (BitVec.ofNat 32 s.width + 2#32).toNat = s.stride := by
    simp only [BitVec.toNat_add, BitVec.toNat_ofNat, stride]
    omega
  rw [imgSize, mask_three_toNat, BitVec.toNat_add, BitVec.toNat_mul, hs, BitVec.toNat_ofNat,
    Nat.mod_eq_of_lt (show s.height < 2 ^ 32 by omega), BitVec.toNat_ofNat,
    Nat.mod_eq_of_lt (show s.stride * s.height < 2 ^ 32 by omega)]
  omega

/-! ### The blank frame -/

/-- `0x10 | PXL_BLANK`: blank to the hardware's four-bit codes, yet not the five-bit code
that the pixel filter drops. -/
def clearCode : Byte := 0x10#8 ||| pxlBlank

/-- The body of the row loop of `InitBlankScreen`; the state is `offset` and the memory. -/
def initBlankRow (base i : ℕ) (p : ℕ × (ℕ → Byte)) : ℕ × (ℕ → Byte) :=
  let q := forUpTo s.width (fun _ => emit base clearCode) p
  if i < s.height - 1 then emit base pxlHsync (emit base pxlHsync q) else q

/-- `InitBlankScreen`, for the buffer at `base` of the memory `m`. -/
def initBlankScreen (base : ℕ) (m : ℕ → Byte) : ℕ → Byte :=
  let p := forUpTo s.height (s.initBlankRow base) (0, m)
  -- fill blank until reach img_size
  let p := forUpTo (s.imgSize.toNat - p.1) (fun _ => emit base clearCode) p
  -- fill last two with VSYNC
  store (store p.2 (base + (s.imgSize.toNat - 1)) pxlVsync)
    (base + (s.imgSize.toNat - 2)) pxlVsync

/-- The byte at index `k` of a blank frame: the clear code in the first `width` columns of
a row, then two markers, `PXL_VSYNC` at the end of the frame and `PXL_HSYNC` before. -/
def blankByte (k : ℕ) : Byte :=
  if k % s.stride < s.width then clearCode
  else if k < s.stride * s.height - 2 then pxlHsync else pxlVsync

/-- What the row loop leaves: every row ends in two `PXL_HSYNC`. -/
def rowByte (k : ℕ) : Byte := if k % s.stride < s.width then clearCode else pxlHsync

lemma mul_stride_add_mod (i : ℕ) {c : ℕ} (hc : c < s.stride) :
    (i * s.stride + c) % s.stride = c := by
  rw [Nat.add_comm, Nat.add_mul_mod_self_right, Nat.mod_eq_of_lt hc]

lemma rowByte_pixel (i : ℕ) {c : ℕ} (hc : c < s.width) :
    s.rowByte (i * s.stride + c) = clearCode := by
  rw [rowByte, s.mul_stride_add_mod i (by simp only [stride]; omega), if_pos hc]

lemma rowByte_marker (i : ℕ) {c : ℕ} (hc : s.width ≤ c) (hc' : c < s.stride) :
    s.rowByte (i * s.stride + c) = pxlHsync := by
  rw [rowByte, s.mul_stride_add_mod i hc', if_neg (by omega)]

/-- The offset after `i` passes of the row loop: the last row has no markers yet. -/
def rowEnd (i : ℕ) : ℕ := if i < s.height then i * s.stride else s.height * s.stride - 2

/-- One pass of the row loop. -/
lemma initBlankRow_filled {base i : ℕ} {m₀ : ℕ → Byte} {p : ℕ × (ℕ → Byte)}
    (hi : i < s.height) (hp : p.1 = s.rowEnd i) (hf : Filled base s.rowByte m₀ p.1 p.2) :
    (s.initBlankRow base i p).1 = s.rowEnd (i + 1)
      ∧ Filled base s.rowByte m₀ (s.initBlankRow base i p).1 (s.initBlankRow base i p).2 := by
  rw [rowEnd, if_pos hi] at hp
  obtain ⟨hq1, hq2⟩ := hf.forUpTo_emit s.width fun k hk => by
    rw [hp]
    exact s.rowByte_pixel i hk
  have hstride : s.stride = s.width + 2 := rfl
  set q := forUpTo s.width (fun _ => emit base clearCode) p with hq
  by_cases hlast : i < s.height - 1
  · have hr : s.initBlankRow base i p = emit base pxlHsync (emit base pxlHsync q) :=
      if_pos hlast
    have h1 : s.rowByte (p.1 + s.width) = pxlHsync := by
      rw [hp]
      exact s.rowByte_marker i le_rfl (by omega)
    have h2 : s.rowByte (p.1 + s.width + 1) = pxlHsync := by
      rw [hp, Nat.add_assoc]
      exact s.rowByte_marker i (by omega) (by omega)
    have hfill := (hq2.store h1).store h2
    have hend : s.rowEnd (i + 1) = p.1 + s.width + 1 + 1 := by
      rw [rowEnd, if_pos (by omega), hp, hstride]
      ring
    rw [hr, hend]
    simp only [emit]
    rw [show q.1 = p.1 + s.width from hq1]
    exact ⟨rfl, hfill⟩
  · have hr : s.initBlankRow base i p = q := if_neg hlast
    have hend : s.rowEnd (i + 1) = p.1 + s.width := by
      rw [rowEnd, if_neg (by omega), hp, show s.height = i + 1 from by omega, hstride]
      rw [Nat.add_mul, Nat.one_mul]
      omega
    rw [hr, hend, show q.1 = p.1 + s.width from hq1]
    exact ⟨rfl, hq2⟩

lemma stride_mul_height_ge : 200 ≤ s.stride * s.height := by
  have h1 := s.le_width
  have h2 : 2 * 100 ≤ s.stride * s.height := Nat.mul_le_mul (by simp only [stride]; omega)
    s.le_height
  omega

/-- The last two bytes of a frame are the markers of its last row. -/
lemma last_row_mod {j : ℕ} (hj : j < 2) :
    (s.stride * s.height - 2 + j) % s.stride = s.width + j := by
  obtain ⟨n, hn⟩ : ∃ n, s.height = n + 1 := ⟨s.height - 1, by have := s.le_height; omega⟩
  have hlast : s.stride * s.height - 2 + j = n * s.stride + (s.width + j) := by
    rw [hn, Nat.mul_succ, Nat.mul_comm s.stride n]
    simp only [stride]
    omega
  rw [hlast, s.mul_stride_add_mod n (by simp only [stride]; omega)]

/-- **The blank frame is the hardware's frame format**: `InitBlankScreen` writes exactly the
first `img_size` bytes, row by row, with the markers in place. -/
theorem initBlankScreen_filled (base : ℕ) (m : ℕ → Byte) :
    Filled base s.blankByte m s.imgSize.toNat (s.initBlankScreen base m) := by
  have hge := s.stride_mul_height_ge
  have hstride : s.stride = s.width + 2 := rfl
  set rows := forUpTo s.height (s.initBlankRow base) (0, m) with hrows
  have hrow : rows.1 = s.rowEnd s.height ∧ Filled base s.rowByte m rows.1 rows.2 :=
    forUpTo_induct
      (fun i (p : ℕ × (ℕ → Byte)) => p.1 = s.rowEnd i ∧ Filled base s.rowByte m p.1 p.2)
      ⟨by rw [rowEnd, if_pos (by have := s.le_height; omega), Nat.zero_mul],
        filled_zero base s.rowByte m⟩
      fun i hi p hp => s.initBlankRow_filled hi hp.1 hp.2
  have hend : rows.1 = s.stride * s.height - 2 := by
    rw [hrow.1, rowEnd, if_neg (by omega), Nat.mul_comm]
  have himg : s.imgSize.toNat = rows.1 + 2 := by rw [imgSize_toNat]; omega
  -- the two bytes that the fill loop adds are the ones `PXL_VSYNC` replaces
  set padded : ℕ → Byte := fun k => if k < rows.1 then s.rowByte k else clearCode with hpadded
  have hpad : Filled base padded m rows.1 rows.2 :=
    hrow.2.congr fun k hk => by rw [hpadded]; simp only [if_pos hk]
  obtain ⟨-, hfill⟩ := hpad.forUpTo_emit (v := clearCode) 2 fun k hk => by
    rw [hpadded]
    simp only [if_neg (show ¬ rows.1 + k < rows.1 by omega)]
  have hlast := (hfill.overwrite (k := rows.1 + 1) (by omega) pxlVsync).overwrite
    (k := rows.1) (by omega) pxlVsync
  have hrun : s.initBlankScreen base m
      = store (store (forUpTo 2 (fun _ => emit base clearCode) rows).2
          (base + (rows.1 + 1)) pxlVsync) (base + rows.1) pxlVsync := by
    rw [initBlankScreen, ← hrows]
    simp only [himg, Nat.add_sub_cancel_left, show rows.1 + 2 - 1 = rows.1 + 1 from rfl,
      Nat.add_sub_cancel]
  rw [hrun, himg]
  refine hlast.congr ?_
  intro k hk
  by_cases hk0 : k = rows.1
  · subst hk0
    have hmod : rows.1 % s.stride = s.width := by
      rw [hend]
      exact s.last_row_mod (j := 0) (by omega)
    rw [store_same, blankByte, if_neg (by omega), if_neg (by omega)]
  · rw [store_of_ne _ _ hk0]
    by_cases hk1 : k = rows.1 + 1
    · subst hk1
      have hmod : (rows.1 + 1) % s.stride = s.width + 1 := by
        rw [hend]
        exact s.last_row_mod (by omega)
      rw [store_same, blankByte, if_neg (by omega), if_neg (by omega)]
    · rw [store_of_ne _ _ hk1, hpadded]
      simp only [if_pos (show k < rows.1 by omega)]
      rw [rowByte, blankByte, if_pos (show k < s.stride * s.height - 2 by omega)]

/-- **The frame format of a session**: for every accepted size whose frame length fits an `int`,
`img_size` is the exact length and a multiple of 8, and `InitBlankScreen` writes the bytes of the
frame, whatever the memory held, and no other. -/
theorem blankScreen_format (hint : (s.width + 2) * s.height < 2 ^ 31) (base : ℕ) (m : ℕ → Byte) :
    s.imgSize.toInt = (s.width + 2) * s.height ∧ s.imgSize.toInt % 8 = 0
      ∧ (∀ k < s.imgSize.toNat, s.initBlankScreen base m (base + k)
        = if k % (s.width + 2) < s.width then 0x1d#8
          else if k < s.imgSize.toNat - 2 then pxlHsync else pxlVsync)
      ∧ (∀ k, s.imgSize.toNat - 2 ≤ k → k < s.imgSize.toNat → s.width ≤ k % (s.width + 2))
      ∧ ∀ a, a < base ∨ base + s.imgSize.toNat ≤ a → s.initBlankScreen base m a = m a := by
  have hlen : s.imgSize.toNat = s.stride * s.height := s.imgSize_toNat
  have hmul := s.stride_mul_height_mod
  have hsigned : s.imgSize.toInt = (s.stride * s.height : ℕ) := by
    rw [BitVec.toInt_eq_toNat_of_lt (by rw [hlen, stride]; omega), hlen]
  have hfilled := s.initBlankScreen_filled base m
  refine ⟨?_, by omega, fun k hk => ?_, fun k hlow hk => ?_, fun a ha => ?_⟩
  · rw [hsigned, stride]
    push_cast
    rfl
  · rw [hfilled.apply_add hk, blankByte, hlen]
    rfl
  · have hge := s.stride_mul_height_ge
    obtain ⟨j, rfl⟩ := Nat.exists_eq_add_of_le hlow
    have hj : j < 2 := by omega
    have hmod := s.last_row_mod hj
    rw [hlen, ← stride, hmod]
    omega
  · exact hfilled.apply_of_outside ha

/-- A frame of 1920 by 1080 over a memory full of `PXL_VSYNC` codes. -/
theorem blankScreen_format_fullHd :
    (1920 + 2) * 1080 < 2 ^ 31 ∧ fullHd.imgSize.toInt = (1920 + 2) * 1080
      ∧ fullHd.initBlankScreen 64 (fun _ => pxlVsync) (64 + 1919) = 0x1d#8
      ∧ fullHd.initBlankScreen 64 (fun _ => pxlVsync) (64 + 1920) = pxlHsync := by
  obtain ⟨hlen, -, hbyte, -, -⟩ :=
    blankScreen_format fullHd (by decide) 64 fun _ => pxlVsync
  exact ⟨by decide, hlen, hbyte 1919 (by decide), hbyte 1920 (by decide)⟩

end Screen

end Danmaku
