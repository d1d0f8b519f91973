import Danmaku.Lib.Period
import Danmaku.Lib.Stall

/-!
The test pattern generator (`test_img_feeder.v`, with the picture of `simple.v`).

It writes one word a clock into its FIFO, but at the clocks when the FIFO is full, at which its
counters stand still.

* `Simple`, `SyncCounters`, `TestImgFeeder`: the registers; `TestImgFeeder.words`: what is written.
* `patternFrame`: the markers of a frame of 600 rows, each of two marker words and 799 others.
* `next_iterate`: the counters after any number of words.
* `markers_follow_frame`: **back-pressure neither drops, repeats nor moves a marker**.
-/

namespace Danmaku

open Period

/-! ### The registers -/

/-- The registers of `simple`. -/
structure Simple where
  counter : BitVec 33
  pauseReg : BitVec 2

namespace Simple

/-- A clock of `simple`, with `rst` low active. -/
def clock (rst pause : Bool) (s : Simple) : Simple :=
  if !rst then ⟨0#33, 0#2⟩
  else
    { counter := s.counter + (s.pauseReg.extractLsb' 1 1).setWidth 33
      pauseReg := s.pauseReg.extractLsb' 0 1 ++ BitVec.ofBool pause }

/-- `{pixel_r_out, pixel_g_out, pixel_b_out, realAlpha}` at a place of the picture. -/
def pixel (s : Simple) (hcnt vcnt : BitVec 12) : BitVec 32 :=
  let picNum := s.counter.extractLsb' 27 2
  let drawn : Bool :=
    if picNum = 0#2 then hcnt == 400#12 || vcnt == 300#12
    else if picNum = 1#2 then hcnt == 799#12 || vcnt == 599#12
    else if picNum = 2#2 then
      decide (hcnt < 600#12) && decide (200#12 < hcnt) && decide (vcnt < 450#12)
        && decide (150#12 < vcnt)
    else hcnt.getLsbD 4 == vcnt.getLsbD 4
  if drawn then 0x000000ff#32 else 0x00000000#32

end Simple

/-- The registers of `test_img_feeder`. -/
structure SyncCounters where
  hcnt : BitVec 12
  vcnt : BitVec 12
  stopped : BitVec 2

namespace SyncCounters

/-- A clock at which a word is written. -/
def next (s : SyncCounters) : SyncCounters :=
  if s.hcnt ≠ 0#12 ∨ s.stopped = 1#2 then
    if s.hcnt = 799#12 then
      { hcnt := 0#12, vcnt := if s.vcnt = 599#12 then 0#12 else s.vcnt + 1#12, stopped := 0#2 }
    else { s with hcnt := s.hcnt + 1#12, stopped := 0#2 }
  else { s with stopped := s.stopped + 1#2 }

/-- A clock, with `rst` low active. -/
def clock (rst wrfull : Bool) (s : SyncCounters) : SyncCounters :=
  if !rst then ⟨0#12, 0#12, 0#2⟩ else if !wrfull then s.next else s

/-- The marker bits of a word: `sync_pixel_v` before `sync_pixel_h`. -/
def marker (s : SyncCounters) : BitVec 2 :=
  if s.hcnt = 0#12 ∧ s.vcnt = 0#12 then 2#2 else if s.hcnt = 0#12 then 1#2 else 0#2

end SyncCounters

/-- `test_img_feeder` with its instance of `simple`. -/
structure TestImgFeeder where
  counters : SyncCounters
  img1 : Simple

namespace TestImgFeeder

def clock (rst wrfull pause : Bool) (s : TestImgFeeder) : TestImgFeeder :=
  ⟨s.counters.clock rst wrfull, s.img1.clock rst pause⟩

/-- The word at the data input of the FIFO. -/
def data (s : TestImgFeeder) : BitVec 32 :=
  (s.img1.pixel s.counters.hcnt s.counters.vcnt).extractLsb' 2 30 ++ s.counters.marker

/-- The registers `t` clocks after a reset. -/
def run (wrfull pause : ℕ → Bool) (s : TestImgFeeder) : ℕ → TestImgFeeder
  | 0 => s.clock false (wrfull 0) (pause 0)
  | t + 1 => (run wrfull pause s t).clock true (wrfull t) (pause t)

/-- The words written into the FIFO in the first `t` clocks after a reset, as `wrreq` is the
complement of `wrfull`. -/
def words (wrfull pause : ℕ → Bool) (s : TestImgFeeder) (t : ℕ) : List (BitVec 32) :=
  ((List.range t).filter fun u => !wrfull u).map fun u => (run wrfull pause s u).data

end TestImgFeeder

/-! ### The frame -/

/-- The markers of one row. -/
def patternRow (row : ℕ) : List (BitVec 2) :=
  List.replicate 2 (if row = 0 then 2#2 else 1#2) ++ List.replicate 799 0#2

/-- The markers of one frame. -/
def patternFrame : List (BitVec 2) := (List.range 600).flatMap patternRow

lemma patternRow_length (row : ℕ) : (patternRow row).length = 801 := by
  rw [patternRow, List.length_append, List.length_replicate, List.length_replicate]

lemma patternFrame_length : patternFrame.length = 600 * 801 := by
  rw [patternFrame, List.length_flatMap, List.map_congr_left fun i _ => patternRow_length i,
    List.map_const', List.sum_replicate, List.length_range, smul_eq_mul]

/-- A word of a row. -/
lemma patternRow_getElem? (row : ℕ) {col : ℕ} (hcol : col < 801) :
    (patternRow row)[col]? = some (if 2 ≤ col then 0#2 else if row = 0 then 2#2 else 1#2) := by
  rw [patternRow]
  by_cases hdata : 2 ≤ col
  · rw [if_pos hdata, List.getElem?_append_right (by simpa), List.getElem?_replicate,
      if_pos (by simp; omega)]
  · rw [if_neg hdata, List.getElem?_append_left (by simp; omega), List.getElem?_replicate,
      if_pos (by omega)]

/-- A word of the endless repetition of the frame. -/
lemma patternFrame_getElem? (k : ℕ) : patternFrame[k % patternFrame.length]?
    = some (if 2 ≤ k % 801 then 0#2 else if k / 801 % 600 = 0 then 2#2 else 1#2) := by
  have hlt : k % (600 * 801) < 600 * 801 := Nat.mod_lt _ (by decide)
  rw [patternFrame_length, patternFrame, getElem?_raster (fun i _ => patternRow_length i) hlt,
    Nat.mod_mul_left_div_self, Nat.mod_mul_left_mod,
    patternRow_getElem? _ (Nat.mod_lt _ (by decide))]

namespace SyncCounters

/-- The counters at word `col` of row `row`. -/
def place (row col : ℕ) : SyncCounters :=
  ⟨BitVec.ofNat 12 (col - 1), BitVec.ofNat 12 row, if col = 1 then 1#2 else 0#2⟩

section Place

variable {row col : ℕ}

lemma ofNat_eq_iff {n m : ℕ} (hn : n < 2 ^ 12) (hm : m < 2 ^ 12) :
    BitVec.ofNat 12 n = BitVec.ofNat 12 m ↔ n = m := by
  rw [← BitVec.toNat_inj, BitVec.toNat_ofNat, BitVec.toNat_ofNat, Nat.mod_eq_of_lt hn,
    Nat.mod_eq_of_lt hm]

/-- The markers of a place. -/
lemma marker_place (hrow : row < 600) (hcol : col < 801) :
    (place row col).marker = if 2 ≤ col then 0#2 else if row = 0 then 2#2 else 1#2 := by
  have hh : BitVec.ofNat 12 (col - 1) = 0#12 ↔ col - 1 = 0 := ofNat_eq_iff (by omega) (by omega)
  have hv : BitVec.ofNat 12 row = 0#12 ↔ row = 0 := ofNat_eq_iff (by omega) (by omega)
  simp only [marker, place, hh, hv]
  split_ifs <;> first | rfl | omega

/-- The next word of the row. -/
lemma next_place (hcol : col + 1 < 801) : (place row col).next = place row (col + 1) := by
  have hh : BitVec.ofNat 12 (col - 1) = 0#12 ↔ col - 1 = 0 := ofNat_eq_iff (by omega) (by omega)
  have hlast : ¬ BitVec.ofNat 12 (col - 1) = 799#12 :=
    (ofNat_eq_iff (by omega) (by omega)).not.mpr (by omega)
  rw [next]
  simp only [place, ne_eq, hh, hlast, if_false]
  rcases Nat.eq_zero_or_pos col with rfl | hpos
  · -- the first marker of the row is written a second time
    rfl
  · have hmoves : ¬ col - 1 = 0 ∨ (if col = 1 then 1#2 else 0#2) = 1#2 := by
      by_cases h1 : col = 1
      · exact Or.inr (if_pos h1)
      · exact Or.inl (by omega)
    rw [if_pos hmoves, if_neg (show ¬ col + 1 = 1 by omega), ← BitVec.ofNat_add,
      Nat.sub_add_cancel hpos, Nat.add_sub_cancel]

/-- The first word of the next row. -/
lemma next_place_end (hrow : row < 600) :
    (place row 800).next = place (if row + 1 < 600 then row + 1 else 0) 0 := by
  have hv : BitVec.ofNat 12 row = 599#12 ↔ row = 599 := ofNat_eq_iff (by omega) (by omega)
  have hmoves : (place row 800).hcnt ≠ 0#12 ∨ (place row 800).stopped = 1#2 :=
    Or.inl (show BitVec.ofNat 12 799 ≠ 0#12 by decide)
  rw [next, if_pos hmoves, if_pos (show (place row 800).hcnt = 799#12 from rfl)]
  simp only [place, hv]
  by_cases hlast : row = 599
  · rw [if_pos hlast, if_neg (by omega)]
    rfl
  · rw [if_neg hlast, if_pos (by omega), BitVec.ofNat_add]
    rfl

end Place

/-- **The counters after `k` words.** -/
lemma next_iterate (k : ℕ) :
    next^[k] ⟨0#12, 0#12, 0#2⟩ = place (k / 801 % 600) (k % 801) := by
  induction k with
  | zero => rfl
  | succ k ih =>
      rw [Function.iterate_succ_apply', ih]
      rcases succ_mod_cases (show 0 < 801 by decide) k with ⟨hcol, hmod, hdiv⟩ | ⟨hcol, hmod, hdiv⟩
      · rw [next_place hcol, hmod, hdiv]
      · rw [hmod, hdiv, show k % 801 = 800 by omega,
          next_place_end (Nat.mod_lt _ (by decide))]
        rcases succ_mod_cases (show 0 < 600 by decide) (k / 801) with
          ⟨hrow, hmod', -⟩ | ⟨hrow, hmod', -⟩
        · rw [if_pos hrow, hmod']
        · rw [if_neg (by omega), hmod']

/-- The marker of the next word is that of the frame. -/
lemma marker_next_iterate (k : ℕ) :
    some (next^[k] ⟨0#12, 0#12, 0#2⟩).marker = patternFrame[k % patternFrame.length]? := by
  rw [next_iterate, marker_place (Nat.mod_lt _ (by decide)) (Nat.mod_lt _ (by decide)),
    patternFrame_getElem?]

end SyncCounters

namespace TestImgFeeder

variable {wrfull pause : ℕ → Bool} {s : TestImgFeeder} {t : ℕ}

/-- The counters are a machine that a full FIFO stalls. -/
lemma counters_run (t : ℕ) : (run wrfull pause s t).counters
    = Stall.run SyncCounters.next wrfull ⟨0#12, 0#12, 0#2⟩ t := by
  induction t with
  | zero => rfl
  | succ t ih =>
      rw [run, clock, Stall.run, ← ih, SyncCounters.clock]
      cases wrfull t <;> rfl

/-- The low bits of a word are its marker. -/
lemma data_marker (s : TestImgFeeder) : s.data.extractLsb' 0 2 = s.counters.marker := by
  rw [data]
  exact BitVec.extractLsb'_append_eq_right

/-- **The test pattern does not depend on the back-pressure**: for every sequence of `wrfull` after
a reset, whatever the registers held before and whenever the picture is paused, the markers of the
words written follow the endless repetition of one frame, one word for each clock at which the FIFO
is not full. -/
theorem markers_follow_frame (wrfull pause : ℕ → Bool) (s : TestImgFeeder) (t : ℕ) :
    (words wrfull pause s t).map (fun word => some (word.extractLsb' 0 2))
      = (List.range (Nat.count (fun u => wrfull u = false) t)).map fun k =>
        patternFrame[k % patternFrame.length]? := by
  have hwords : (words wrfull pause s t).map (fun word => some (word.extractLsb' 0 2))
      = ((Stall.moves wrfull t).map (Stall.run SyncCounters.next wrfull ⟨0#12, 0#12, 0#2⟩)).map
        fun c => some c.marker := by
    rw [words, ← Stall.moves, List.map_map, List.map_map]
    refine List.map_congr_left fun u _ => ?_
    simp only [Function.comp_apply, data_marker, counters_run]
  calc (words wrfull pause s t).map (fun word => some (word.extractLsb' 0 2))
      = ((List.range (Nat.count (fun u => wrfull u = false) t)).map fun k =>
          SyncCounters.next^[k] ⟨0#12, 0#12, 0#2⟩).map fun c => some c.marker := by
        rw [hwords, Stall.map_run_moves, Stall.length_moves]
    _ = (List.range (Nat.count (fun u => wrfull u = false) t)).map fun k =>
          patternFrame[k % patternFrame.length]? := by
        rw [List.map_map]
        exact List.map_congr_left fun k _ => SyncCounters.marker_next_iterate k

end TestImgFeeder

end Danmaku
