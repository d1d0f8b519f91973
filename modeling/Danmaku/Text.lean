import Mathlib.Data.List.TakeWhile
import Danmaku.Constants

/-!
C strings of the host program.

* `Text`: a string that fits a `MAX_TEXT_LEN` buffer, without the terminating NUL. It
  carries its bound, so no copy below can overrun a buffer.
* `Chunk`: what one `fgets(input_buf, MAX_TEXT_LEN, ..)` leaves, and `Chunk.cstr`, the C
  string in the buffer afterwards (a chunk may contain NUL bytes, the string stops there).
* `strlenUtf8`: `strlen_utf8_c`, the number of code points.
-/

namespace Danmaku

/-- A NUL-terminated string in a buffer of `MAX_TEXT_LEN` bytes. -/
structure Text where
  bytes : List Byte
  noNul : ∀ b ∈ bytes, b ≠ 0#8
  length_lt : bytes.length < maxTextLen
  deriving DecidableEq, Repr

namespace Text

@[ext] lemma ext {s t : Text} (h : s.bytes = t.bytes) : s = t := by
  cases s
  cases t
  simpa using h

/-- The zero-initialised buffer. -/
def empty : Text := ⟨[], by simp, by decide⟩

instance : Inhabited Text := ⟨empty⟩

/-- The string from the second byte on, `input_buf + 1`. -/
def tail (t : Text) : Text :=
  ⟨t.bytes.tail, fun b hb => t.noNul b (List.mem_of_mem_tail hb), by
    have h := t.length_lt
    rw [List.length_tail]
    omega⟩

/-- The string from the first byte above `' '` on (the `while(*p!='\0' && *p<=' ')` loop). -/
def skipBlanks (t : Text) : Text :=
  ⟨t.bytes.dropWhile (fun b => decide (b.toNat ≤ 32)),
    fun b hb => t.noNul b ((List.dropWhile_sublist _).subset hb),
    lt_of_le_of_lt (List.dropWhile_sublist _).length_le t.length_lt⟩

/-- `if(l > 1 && ret[l-1] < ' ') ret[l-1]='\0'`: drop one trailing control character. -/
def chomp (t : Text) : Text :=
  if 1 < t.bytes.length ∧ (t.bytes.getLast?.getD 0#8).toNat < 32 then
    ⟨t.bytes.dropLast, fun b hb => t.noNul b (List.mem_of_mem_dropLast hb), by
      have h := t.length_lt
      rw [List.length_dropLast]
      omega⟩
  else t

lemma chomp_bytes (t : Text) :
    t.chomp.bytes = if 1 < t.bytes.length ∧ (t.bytes.getLast?.getD 0#8).toNat < 32 then
      t.bytes.dropLast else t.bytes := by
  rw [chomp]
  split <;> rfl

/-- `strlen_utf8_c`: bytes that do not continue a UTF-8 sequence. -/
def strlenUtf8 (t : Text) : ℕ := (t.bytes.filter fun b => b &&& 0xc0#8 ≠ 0x80#8).length

lemma strlenUtf8_lt (t : Text) : t.strlenUtf8 < maxTextLen :=
  lt_of_le_of_lt (List.length_filter_le _ _) t.length_lt

end Text

/-- The bytes that one `fgets` call stores, before the terminating NUL. -/
structure Chunk where
  bytes : List Byte
  length_lt : bytes.length < maxTextLen
  deriving DecidableEq, Repr

namespace Chunk

/-- The C string in `input_buf` after `fgets`. -/
def cstr (c : Chunk) : Text :=
  ⟨c.bytes.takeWhile (· ≠ 0#8), fun b hb => by simpa using List.mem_takeWhile_imp hb,
    lt_of_le_of_lt (List.takeWhile_sublist _).length_le c.length_lt⟩

end Chunk

end Danmaku
