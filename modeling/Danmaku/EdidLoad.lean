import Mathlib.Data.List.GetD
import Danmaku.Constants
import Danmaku.Lib.Loop

/-!
The EDID loader (`edid_load.c`): it copies a file into the mapping of a device.

The answers of `read` are an input. `off_t`, `long` and `size_t` have 32 bits on the target; a
signed sum that overflows and an access outside `buf` or the mapping are undefined.

* `ReadResult`: what a call of `read` answers; `ReadResult.size`: the `size_t` it is stored in.
* `mapLength?`, `copyPass`, `edidLoad`: the length of the mapping, one pass of the copy loop, and
  the program after any number of passes.
* `LoadsWhatItRead`: it ends, with the bytes that it read in the mapping; `loadsWhatItRead_iff`:
  **exactly when no read that it makes fails or delivers bytes past the mapping**.
-/

namespace Danmaku

open CountedLoop

/-- What `read(file, buf, sizeof(buf))` answers: at most 128 bytes, none at the end of the file,
or -1. -/
inductive ReadResult
  | bytes (bs : List Byte) (h : bs.length ≤ 128)
  | error

namespace ReadResult

/-- The bytes delivered. -/
def delivered : ReadResult → List Byte
  | bytes bs _ => bs
  | error => []

/-- `size_t s = read(..)`. -/
def size : ReadResult → BitVec 32
  | bytes bs _ => BitVec.ofNat 32 bs.length
  | error => -1#32

end ReadResult

/-- `(status.st_size+pa_sz-1)/pa_sz*pa_sz`; `none` if the sum overflows. -/
def mapLength? (paSz stSize : ℕ) : Option ℕ :=
  if stSize + paSz < 2 ^ 31 then some ((stSize + paSz - 1) / paSz * paSz) else none

/-- `memcpy((char*)ptr+i, buf, s)`, for a mapping of `size` bytes; `none` if it leaves `buf` or the
mapping. -/
def memcpy? (size i : ℕ) (buf : List Byte) (s : BitVec 32) (dev : ℕ → Byte) : Option (ℕ → Byte) :=
  if s.toNat ≤ 128 ∧ i + s.toNat ≤ size then
    some (forUpTo s.toNat (fun k dev => store dev (i + k) (buf.getD k 0#8)) dev)
  else none

/-- Where the program is: in the copy loop at offset `i`, behind it, or in undefined behaviour. -/
inductive Loader
  | copying (i : ℕ) (dev : ℕ → Byte)
  | closing (dev : ℕ → Byte)
  | undefined

/-- A pass of the copy loop in which `read` answers `r`. The comparison `s <= 0` is unsigned. -/
def copyPass (stSize size : ℕ) (r : ReadResult) : Loader → Loader
  | .copying i dev =>
      if i < stSize then
        if r.size ≤ 0#32 then .closing dev
        else
          match memcpy? size i r.delivered r.size dev with
          | some dev => .copying (i + r.size.toNat) dev
          | none => .undefined
      else .closing dev
  | l => l

/-- The copy loop after `n` passes, with the answers `reads` and the device memory `dev`. -/
def copyLoop (stSize size : ℕ) (reads : ℕ → ReadResult) (dev : ℕ → Byte) : ℕ → Loader
  | 0 => .copying 0 dev
  | n + 1 => copyPass stSize size (reads n) (copyLoop stSize size reads dev n)

/-- The program after `n` passes, if `mmap` succeeds. -/
def edidLoad (paSz stSize : ℕ) (reads : ℕ → ReadResult) (dev : ℕ → Byte) (n : ℕ) : Loader :=
  match mapLength? paSz stSize with
  | some size => copyLoop stSize size reads dev n
  | none => .undefined

/-! ### What it should do -/

/-- The bytes that the first `k` reads deliver. -/
def deliveredBefore (reads : ℕ → ReadResult) (k : ℕ) : List Byte :=
  (List.range k).flatMap fun m => (reads m).delivered

/-- The file offset of read `k`. -/
def fileOffset (reads : ℕ → ReadResult) (k : ℕ) : ℕ := (deliveredBefore reads k).length

/-- The reads before number `k` deliver bytes and do not reach the end of the file; there the file
ends, or read `k` delivers nothing, as it does at the end of the file or when it fails. -/
structure EndsAt (stSize : ℕ) (reads : ℕ → ReadResult) (k : ℕ) : Prop where
  goes_on : ∀ m < k, fileOffset reads m < stSize ∧ (reads m).delivered ≠ []
  ends : stSize ≤ fileOffset reads k ∨ (reads k).delivered = []

/-- The loop ends there, with exactly the bytes delivered in the device memory, each at its file
offset. -/
def LoadsWhatItRead (paSz stSize : ℕ) (reads : ℕ → ReadResult) (dev : ℕ → Byte) : Prop :=
  ∃ n k dev', EndsAt stSize reads k ∧ edidLoad paSz stSize reads dev n = .closing dev'
    ∧ Filled 0 (fun a => (deliveredBefore reads k).getD a 0#8) dev (fileOffset reads k) dev'

/-- The program makes read `k`. -/
def Made (stSize : ℕ) (reads : ℕ → ReadResult) (k : ℕ) : Prop :=
  fileOffset reads k < stSize ∧ ∀ m < k, (reads m).delivered ≠ []

/-- The length of the mapping does not overflow, and the reads that are made neither fail nor
deliver bytes past the mapping. -/
def ReadsFit (paSz stSize : ℕ) (reads : ℕ → ReadResult) : Prop :=
  stSize + paSz < 2 ^ 31 ∧ ∀ k, Made stSize reads k →
    reads k ≠ .error ∧ fileOffset reads (k + 1) ≤ (stSize + paSz - 1) / paSz * paSz

section Reads

variable {paSz stSize size i k n : ℕ} {r : ReadResult} {reads : ℕ → ReadResult}
  {dev dev₀ : ℕ → Byte} {f : ℕ → Byte}

lemma ReadResult.size_toNat (h : r ≠ .error) : r.size.toNat = r.delivered.length := by
  cases r with
  | bytes bs hbs =>
      simp only [size, delivered, BitVec.toNat_ofNat]
      omega
  | error => exact absurd rfl h

lemma ReadResult.ne_error (h : r.delivered ≠ []) : r ≠ .error := by
  rintro rfl
  exact h rfl

lemma ReadResult.length_le (r : ReadResult) : r.delivered.length ≤ 128 := by
  cases r with
  | bytes bs hbs => exact hbs
  | error => exact Nat.zero_le _

lemma deliveredBefore_succ (reads : ℕ → ReadResult) (k : ℕ) :
    deliveredBefore reads (k + 1) = deliveredBefore reads k ++ (reads k).delivered := by
  rw [deliveredBefore, List.range_succ, List.flatMap_append, List.flatMap_singleton]
  rfl

lemma fileOffset_succ (reads : ℕ → ReadResult) (k : ℕ) :
    fileOffset reads (k + 1) = fileOffset reads k + (reads k).delivered.length := by
  rw [fileOffset, deliveredBefore_succ, List.length_append]
  rfl

lemma fileOffset_mono {m : ℕ} (h : m ≤ k) : fileOffset reads m ≤ fileOffset reads k := by
  induction k, h using Nat.le_induction with
  | base => exact le_rfl
  | succ k _ ih =>
      rw [fileOffset_succ]
      omega

/-! ### The loop -/

/-- A `memcpy` inside the mapping. -/
lemma memcpy?_filled {buf : List Byte} {s : BitVec 32} (hs : s.toNat ≤ 128)
    (hroom : i + s.toNat ≤ size) (hfilled : Filled 0 f dev₀ i dev)
    (hf : ∀ k < s.toNat, f (i + k) = buf.getD k 0#8) :
    ∃ dev', memcpy? size i buf s dev = some dev' ∧ Filled 0 f dev₀ (i + s.toNat) dev' := by
  refine ⟨_, if_pos ⟨hs, hroom⟩, ?_⟩
  refine forUpTo_induct (fun k dev => Filled 0 f dev₀ (i + k) dev) hfilled fun k hk m hm => ?_
  have hstore := hm.store (hf k hk)
  rwa [Nat.zero_add] at hstore

/-- A pass that copies what `read` delivers. -/
lemma copyPass_copies (hi : i < stSize) (hr : r.delivered ≠ [])
    (hroom : i + r.delivered.length ≤ size) (hfilled : Filled 0 f dev₀ i dev)
    (hf : ∀ k < r.delivered.length, f (i + k) = r.delivered.getD k 0#8) :
    ∃ dev', copyPass stSize size r (.copying i dev) = .copying (i + r.delivered.length) dev'
      ∧ Filled 0 f dev₀ (i + r.delivered.length) dev' := by
  have hsize := r.size_toNat (r.ne_error hr)
  have hpos := List.length_pos_iff.mpr hr
  have hlen := r.length_le
  rw [← hsize] at hroom hf ⊢
  obtain ⟨dev', hcopy, hfilled'⟩ := memcpy?_filled (by omega) hroom hfilled hf
  have hnot : ¬ r.size ≤ 0#32 := by
    rw [BitVec.le_def, BitVec.toNat_ofNat]
    omega
  exact ⟨dev', by simp only [copyPass, if_pos hi, if_neg hnot, hcopy], hfilled'⟩

/-- **The loop goes on** as long as the reads deliver bytes that fit, and what they have delivered
is in the device memory. -/
lemma copyLoop_copying (dev : ℕ → Byte)
    (h : ∀ m < k, fileOffset reads m < stSize ∧ (reads m).delivered ≠ []
      ∧ fileOffset reads (m + 1) ≤ size) :
    ∃ dev', copyLoop stSize size reads dev k = .copying (fileOffset reads k) dev'
      ∧ Filled 0 (fun a => (deliveredBefore reads k).getD a 0#8) dev (fileOffset reads k) dev' := by
  induction k with
  | zero => exact ⟨dev, rfl, filled_zero _ _ _⟩
  | succ k ih =>
      obtain ⟨dev', hloop, hfilled⟩ := ih fun m hm => h m (Nat.lt_succ_of_lt hm)
      obtain ⟨hi, hr, hroom⟩ := h k (Nat.lt_succ_self k)
      -- the bytes copied so far are the front of those delivered
      have hfront : Filled 0 (fun a => (deliveredBefore reads (k + 1)).getD a 0#8) dev
          (fileOffset reads k) dev' := by
        refine hfilled.congr fun a ha => ?_
        simp only [deliveredBefore_succ]
        exact (List.getD_append _ _ _ _ ha).symm
      have hnext : ∀ j < (reads k).delivered.length,
          (deliveredBefore reads (k + 1)).getD (fileOffset reads k + j) 0#8
            = (reads k).delivered.getD j 0#8 := by
        intro j _
        rw [deliveredBefore_succ, fileOffset, List.getD_append_right _ _ _ _ (Nat.le_add_right _ j),
          Nat.add_sub_cancel_left]
      rw [fileOffset_succ] at hroom ⊢
      rw [copyLoop, hloop]
      exact copyPass_copies hi hr hroom hfront hnext

/-- A pass in which `read` fails, or delivers bytes past the mapping, is undefined. -/
lemma copyPass_undefined (hi : i < stSize)
    (hbad : r = .error ∨ (r.delivered ≠ [] ∧ size < i + r.delivered.length)) :
    copyPass stSize size r (.copying i dev) = .undefined := by
  have hcopy : memcpy? size i r.delivered r.size dev = none := by
    refine if_neg fun hin => ?_
    rcases hbad with rfl | ⟨hr, hpast⟩
    · exact absurd hin.1 (by decide)
    · rw [r.size_toNat (r.ne_error hr)] at hin
      omega
  have hnot : ¬ r.size ≤ 0#32 := by
    rcases hbad with rfl | ⟨hr, -⟩
    · decide
    · have hpos := List.length_pos_iff.mpr hr
      rw [BitVec.le_def, BitVec.toNat_ofNat, r.size_toNat (r.ne_error hr)]
      omega
  simp only [copyPass, if_pos hi, if_neg hnot, hcopy]

lemma copyLoop_undefined (h : copyLoop stSize size reads dev k = .undefined) (hk : k ≤ n) :
    copyLoop stSize size reads dev n = .undefined := by
  induction n, hk using Nat.le_induction with
  | base => exact h
  | succ n _ ih =>
      rw [copyLoop, ih]
      rfl

/-- A read that is made has been preceded by reads that are made. -/
lemma Made.before {m : ℕ} (h : Made stSize reads k) (hm : m ≤ k) : Made stSize reads m :=
  ⟨lt_of_le_of_lt (fileOffset_mono hm) h.1, fun j hj => h.2 j (lt_of_lt_of_le hj hm)⟩

/-- The loop ends with some read. -/
lemma exists_endsAt (stSize : ℕ) (reads : ℕ → ReadResult) : ∃ k, EndsAt stSize reads k := by
  have hex : ∃ k, stSize ≤ fileOffset reads k ∨ (reads k).delivered = [] := by
    by_contra hnone
    simp only [not_exists, not_or, not_le] at hnone
    have hgrow : ∀ k, k ≤ fileOffset reads k := by
      intro k
      induction k with
      | zero => exact Nat.zero_le _
      | succ k ih =>
          have hpos := List.length_pos_iff.mpr (hnone k).2
          rw [fileOffset_succ]
          omega
    exact absurd (hnone stSize).1 (Nat.not_lt.mpr (hgrow stSize))
  refine ⟨Nat.find hex, fun m hm => ?_, Nat.find_spec hex⟩
  have hbefore := Nat.find_min hex hm
  rwa [not_or, not_le] at hbefore

/-- Read `k` is made, and those before it deliver bytes that fit. -/
lemma Made.goes_on (h : Made stSize reads k) (hgood : ∀ m < k, fileOffset reads (m + 1) ≤ size) :
    ∀ m < k, fileOffset reads m < stSize ∧ (reads m).delivered ≠ []
      ∧ fileOffset reads (m + 1) ≤ size := fun m hm =>
  ⟨(h.before hm.le).1, h.2 m hm, hgood m hm⟩

/-- The first bad read is undefined. -/
lemma copyLoop_bad (hmade : Made stSize reads k)
    (hgood : ∀ m < k, fileOffset reads (m + 1) ≤ size)
    (hbad : ¬ (reads k ≠ .error ∧ fileOffset reads (k + 1) ≤ size)) :
    copyLoop stSize size reads dev (k + 1) = .undefined := by
  obtain ⟨devk, hloop, -⟩ := copyLoop_copying dev (hmade.goes_on hgood)
  rw [copyLoop, hloop]
  refine copyPass_undefined hmade.1 (or_iff_not_imp_left.mpr fun hne => ?_)
  have hpast : size < fileOffset reads (k + 1) := not_le.mp fun hle => hbad ⟨hne, hle⟩
  -- the bytes delivered before have been copied
  have hroom : fileOffset reads k ≤ size := by
    cases k with
    | zero => exact Nat.zero_le _
    | succ k => exact hgood k (Nat.lt_succ_self k)
  rw [← fileOffset_succ]
  refine ⟨fun hnil => ?_, hpast⟩
  rw [fileOffset_succ, hnil, List.length_nil] at hpast
  omega

/-- A loop that has ended has made no bad read. -/
lemma fits_of_closing {dev' : ℕ → Byte} (h : copyLoop stSize size reads dev n = .closing dev') :
    ∀ k, Made stSize reads k → reads k ≠ .error ∧ fileOffset reads (k + 1) ≤ size := by
  intro k
  induction k using Nat.strong_induction_on with
  | _ k ih =>
      intro hmade
      have hgood : ∀ m < k, fileOffset reads (m + 1) ≤ size := fun m hm =>
        (ih m hm (hmade.before hm.le)).2
      by_contra hbad
      have hpass : copyLoop stSize size reads dev (k + 1) = .undefined :=
        copyLoop_bad hmade hgood hbad
      -- it goes on up to read `k`, and is undefined from there on
      rcases Nat.lt_or_ge k n with hlt | hge
      · rw [copyLoop_undefined hpass hlt] at h
        exact absurd h (by simp)
      · obtain ⟨devn, hcopying, -⟩ := copyLoop_copying (k := n) dev fun m hm =>
          hmade.goes_on hgood m (hm.trans_le hge)
        rw [hcopying] at h
        exact absurd h (by simp)

/-- **When the loader copies what it has read**: the program ends with exactly the bytes that its
reads delivered in the device memory, and without leaving the mapping, exactly when the length of
the mapping does not overflow and no read that it makes fails or delivers bytes past the
mapping. -/
theorem loadsWhatItRead_iff (paSz stSize : ℕ) (reads : ℕ → ReadResult) (dev : ℕ → Byte) :
    LoadsWhatItRead paSz stSize reads dev ↔ ReadsFit paSz stSize reads := by
  constructor
  · rintro ⟨n, k, dev', -, hend, -⟩
    rw [edidLoad, mapLength?] at hend
    by_cases hsum : stSize + paSz < 2 ^ 31
    · rw [if_pos hsum] at hend
      exact ⟨hsum, fits_of_closing hend⟩
    · rw [if_neg hsum] at hend
      exact absurd hend (by simp)
  · rintro ⟨hsum, hfit⟩
    obtain ⟨k, hk⟩ := exists_endsAt stSize reads
    have hmade : ∀ m < k, Made stSize reads m := fun m hm =>
      ⟨(hk.goes_on m hm).1, fun j hj => (hk.goes_on j (hj.trans hm)).2⟩
    obtain ⟨dev', hloop, hfilled⟩ := copyLoop_copying dev fun m hm =>
      ⟨(hk.goes_on m hm).1, (hk.goes_on m hm).2, (hfit m (hmade m hm)).2⟩
    refine ⟨k + 1, k, dev', hk, ?_, hfilled⟩
    rw [edidLoad, mapLength?, if_pos hsum]
    simp only
    rw [copyLoop, hloop, copyPass]
    by_cases hi : fileOffset reads k < stSize
    · have hnil := hk.ends.resolve_left (Nat.not_le.mpr hi)
      have hne := (hfit k ⟨hi, fun m hm => (hk.goes_on m hm).2⟩).1
      have hzero : (reads k).size ≤ 0#32 := by
        rw [BitVec.le_def, (reads k).size_toNat hne, hnil]
        exact le_rfl
      rw [if_pos hi, if_pos hzero]
    · rw [if_neg hi]

end Reads

/-- **A read that fails**: its result -1 is taken for a length of 4294967295 bytes. -/
theorem not_loadsWhatItRead_error :
    ¬ LoadsWhatItRead 4096 128 (fun _ => .error) fun _ => 0#8 := by
  rintro ⟨n, k, dev', -, hend, -⟩
  exact absurd rfl (fits_of_closing hend 0 ⟨show 0 < 128 by decide, by simp⟩).1

end Danmaku
