import Danmaku.Frames
import Danmaku.Lib.Lines

/-!
The pipe between `fetcher.coffee` and `RenderOnce`.

A JSON string is a list of UTF-16 code units; `process.stdout.write` encodes it in UTF-8, a
surrogate without its partner as U+FFFD. One frame reads one `fgets` chunk of the pipe.

* `getOne`, `fetch`: what the fetcher writes for a sequence of responses.
* `pushes`: the `Push` calls that reading the pipe to its end causes.
* `pushes_fetch_iff`: the round trip succeeds exactly when every text fits one chunk and holds
  no byte that the reader takes for an end.
-/

namespace Danmaku

open BoundedLines

/-! ### The writer -/

/-- A high surrogate. -/
def isHighSurrogate (u : BitVec 16) : Bool := u &&& 0xfc00#16 == 0xd800#16

/-- A low surrogate. -/
def isLowSurrogate (u : BitVec 16) : Bool := u &&& 0xfc00#16 == 0xdc00#16

/-- A byte of a UTF-8 sequence that continues it. -/
def continuation (code : ℕ) : Byte := BitVec.ofNat 8 (0x80 + code % 64)

/-- The UTF-8 sequence of one code unit; a surrogate on its own is replaced by U+FFFD. -/
def encodeUnit (u : BitVec 16) : List Byte :=
  let code := if isHighSurrogate u || isLowSurrogate u then 0xfffd else u.toNat
  if code < 0x80 then [BitVec.ofNat 8 code]
  else if code < 0x800 then [BitVec.ofNat 8 (0xc0 + code / 64), continuation code]
  else [BitVec.ofNat 8 (0xe0 + code / 4096), continuation (code / 64), continuation code]

/-- The UTF-8 sequence of a surrogate pair. -/
def encodePair (hi lo : BitVec 16) : List Byte :=
  let code := 0x10000 + hi.toNat % 1024 * 1024 + lo.toNat % 1024
  [BitVec.ofNat 8 (0xf0 + code / 262144), continuation (code / 4096),
    continuation (code / 64), continuation code]

/-- UTF-8 encoding of a string of UTF-16 code units. -/
def encodeUtf8 : List (BitVec 16) → List Byte
  | [] => []
  | [u] => encodeUnit u
  | u :: v :: us =>
      if isHighSurrogate u && isLowSurrogate v then encodePair u v ++ encodeUtf8 us
      else encodeUnit u ++ encodeUtf8 (v :: us)

/-- One element of a response body. -/
structure Message where
  id : ℕ
  s : Bool
  m : List (BitVec 16)
  deriving DecidableEq, Repr

namespace Message

/-- The text of the message, as bytes. -/
def text (msg : Message) : List Byte := encodeUtf8 msg.m

/-- `msg = if m.s then 1 else 0`, as its digit. -/
def flag (msg : Message) : Byte := if msg.s then 0x31#8 else 0x30#8

/-- The queue that the message is meant for. -/
def dest (msg : Message) : Dest := if msg.s then .staticQueen else .slidingQueen

/-- What `process.stdout.write(msg)` writes. -/
def line (msg : Message) : List Byte := msg.flag :: msg.text ++ [0x0a#8]

end Message

/-- The loop of `getOne` over a response: `nowId` and the bytes written. -/
def getOne (nowId : ℕ) (body : List Message) : ℕ × List Byte :=
  body.foldl (fun p m => (if m.id + 1 > p.1 then m.id + 1 else p.1, p.2 ++ m.line)) (nowId, [])

/-- The requests one after the other; a request that failed (`none`) writes nothing. -/
def fetch : ℕ → List (Option (List Message)) → List Byte
  | _, [] => []
  | nowId, none :: responses => fetch nowId responses
  | nowId, some body :: responses =>
      (getOne nowId body).2 ++ fetch (getOne nowId body).1 responses

/-- The messages of the responses, in order. -/
def messages (responses : List (Option (List Message))) : List Message :=
  responses.flatMap fun r => r.getD []

/-- The grouping into responses and the ids leave no trace in the stream. -/
lemma fetch_eq (nowId : ℕ) (responses : List (Option (List Message))) :
    fetch nowId responses = (messages responses).flatMap Message.line := by
  have hbody : ∀ (body : List Message) (p : ℕ × List Byte),
      (body.foldl (fun p m => (if m.id + 1 > p.1 then m.id + 1 else p.1, p.2 ++ m.line)) p).2
        = p.2 ++ body.flatMap Message.line := by
    intro body
    induction body with
    | nil => intro p; simp
    | cons m body ih =>
        intro p
        rw [List.foldl_cons, ih, List.flatMap_cons, List.append_assoc]
  induction responses generalizing nowId with
  | nil => rfl
  | cons r responses ih =>
      cases r with
      | none => exact ih nowId
      | some body =>
          rw [fetch, ih, getOne, hbody]
          simp [messages]

/-! ### The reader -/

/-- What `fgets(input_buf, MAX_TEXT_LEN, stdin)` reads fits `input_buf`. -/
lemma length_lt_of_mem_lines {stream l : List Byte}
    (hl : l ∈ lines 0x0a#8 (maxTextLen - 2) stream) : l.length < maxTextLen := by
  have h := length_le_of_mem_lines hl
  simp only [maxTextLen] at *
  omega

/-- The chunks that `fgets(input_buf, MAX_TEXT_LEN, stdin)` reads from a stream, frame by
frame. -/
def readChunks (stream : List Byte) : List Chunk :=
  (lines 0x0a#8 (maxTextLen - 2) stream).attach.map fun l => ⟨l.1, length_lt_of_mem_lines l.2⟩

/-- The `Push` of a chunk, with the bytes of its text. -/
def pushOf (l : List Byte) : Option (Dest × List Byte) :=
  if h : l.length < maxTextLen then (dispatch ⟨l, h⟩).map fun p => (p.1, p.2.bytes) else none

/-- The `Push` calls that the stream causes, in order. -/
def pushes (stream : List Byte) : List (Dest × List Byte) :=
  (readChunks stream).filterMap fun c => (dispatch c).map fun p => (p.1, p.2.bytes)

lemma pushes_eq (stream : List Byte) :
    pushes stream = (lines 0x0a#8 (maxTextLen - 2) stream).filterMap pushOf := by
  rw [pushes, readChunks, List.filterMap_map]
  conv_rhs => rw [← List.attach_map_subtype_val (lines 0x0a#8 (maxTextLen - 2) stream)]
  rw [List.filterMap_map]
  refine List.filterMap_congr ?_
  intro l _
  simp only [Function.comp_apply, pushOf]
  rw [dif_pos (length_lt_of_mem_lines l.2)]

lemma pushes_cons (b : Byte) (s : List Byte) :
    pushes (b :: s) = (pushOf (takeLine 0x0a#8 (maxTextLen - 1) (b :: s)).1).toList
      ++ pushes (takeLine 0x0a#8 (maxTextLen - 1) (b :: s)).2 := by
  rw [pushes_eq, pushes_eq, lines_cons, List.filterMap_cons]
  show _ = (pushOf (takeLine 0x0a#8 (maxTextLen - 2 + 1) (b :: s)).1).toList ++ _
  cases pushOf (takeLine 0x0a#8 (maxTextLen - 2 + 1) (b :: s)).1 <;> rfl

/-- The text that the reader makes of the bytes behind the flag of a chunk: it stops at a
NUL and drops one control character at its end. -/
def textOf (v : List Byte) : List Byte :=
  let u := v.takeWhile (· ≠ 0#8)
  if u ≠ [] ∧ (u.getLast?.getD 0#8).toNat < 32 then u.dropLast else u

/-- A chunk that begins with a flag is one `Push` onto the flag's queue. -/
lemma pushOf_flag (msg : Message) {v : List Byte} (hv : v.length + 1 < maxTextLen) :
    pushOf (msg.flag :: v) = some (msg.dest, textOf v) := by
  have hflag : msg.flag ≠ 0#8 := by
    rw [Message.flag]
    split <;> decide
  set u := v.takeWhile (· ≠ 0#8) with hu
  have hcstr : (Chunk.cstr ⟨msg.flag :: v, hv⟩).bytes = msg.flag :: u := by
    simp [Chunk.cstr, hflag, hu]
  have hchomp : (Chunk.cstr ⟨msg.flag :: v, hv⟩).chomp.bytes = msg.flag :: textOf v := by
    rw [Text.chomp_bytes, hcstr, textOf, ← hu]
    cases hu' : u with
    | nil => simp
    | cons a l =>
        have hlen : 1 < (msg.flag :: a :: l).length := by
          simp only [List.length_cons]
          omega
        simp only [List.getLast?_cons_cons, ne_eq, reduceCtorEq, not_false_eq_true, true_and, hlen]
        split <;> rfl
  have hd : dispatch ⟨msg.flag :: v, hv⟩
      = some (msg.dest, (Chunk.cstr ⟨msg.flag :: v, hv⟩).chomp.tail) := by
    simp only [dispatch, hchomp, List.head?_cons, Option.some.injEq]
    cases hs : msg.s <;> simp [Message.flag, Message.dest, hs]
  rw [pushOf, dif_pos (show (msg.flag :: v).length < maxTextLen from hv), hd, Option.map_some]
  simp only [Text.tail, hchomp, List.tail_cons]

/-! ### When a text arrives unchanged -/

/-- A text that one chunk carries unchanged: no NUL, no newline, and room for it in the
buffer; when the newline itself does not fit any more, the last byte must not look like a
line end. -/
def Fits (t : List Byte) : Prop :=
  0#8 ∉ t ∧ 0x0a#8 ∉ t ∧
    (t.length + 3 ≤ maxTextLen
      ∨ t.length + 2 = maxTextLen ∧ 32 ≤ (t.getLast?.getD 0#8).toNat)

instance (t : List Byte) : Decidable (Fits t) := inferInstanceAs (Decidable (_ ∧ _))

lemma takeWhile_ne_zero {v : List Byte} (h : 0#8 ∉ v) : v.takeWhile (· ≠ 0#8) = v :=
  List.takeWhile_eq_self_iff.mpr fun b hb => by
    simp only [ne_eq, decide_not, Bool.not_eq_true', decide_eq_false_iff_not]
    exact fun hb0 => h (hb0 ▸ hb)

lemma textOf_length_le (v : List Byte) : (textOf v).length ≤ (v.takeWhile (· ≠ 0#8)).length := by
  rw [textOf]
  split
  · rw [List.length_dropLast]
    omega
  · exact le_rfl

lemma takeWhile_length_le (v : List Byte) : (v.takeWhile (· ≠ 0#8)).length ≤ v.length :=
  (List.takeWhile_sublist _).length_le

/-- A NUL cuts the text. -/
lemma takeWhile_length_lt {v : List Byte} (h : 0#8 ∈ v) :
    (v.takeWhile (· ≠ 0#8)).length < v.length := by
  refine lt_of_le_of_ne (takeWhile_length_le v) ?_
  intro heq
  have hself := (List.takeWhile_sublist fun b : Byte => decide (b ≠ 0#8)).eq_of_length heq
  have := List.takeWhile_eq_self_iff.mp hself _ h
  simp at this

/-- A control character at the end is lost, if a NUL has not cut the text before. -/
lemma textOf_length_lt_of_last {v : List Byte} (hne : v ≠ [])
    (hlast : (v.getLast?.getD 0#8).toNat < 32) : (textOf v).length < v.length := by
  by_cases h0 : 0#8 ∈ v
  · exact lt_of_le_of_lt (textOf_length_le v) (takeWhile_length_lt h0)
  · have hself := takeWhile_ne_zero h0
    have hpos := List.length_pos_of_ne_nil hne
    rw [textOf, hself, if_pos ⟨hne, hlast⟩, List.length_dropLast]
    omega

/-- What the first chunk of a message holds behind the flag. -/
lemma takeLine_message (msg : Message) (s : List Byte) :
    takeLine 0x0a#8 (maxTextLen - 1) (msg.line ++ s)
      = (msg.flag :: (takeLine 0x0a#8 (maxTextLen - 2) (msg.text ++ 0x0a#8 :: s)).1,
          (takeLine 0x0a#8 (maxTextLen - 2) (msg.text ++ 0x0a#8 :: s)).2) := by
  have hflag : msg.flag ≠ 0x0a#8 := by
    rw [Message.flag]
    split <;> decide
  have hline : msg.line ++ s = msg.flag :: (msg.text ++ 0x0a#8 :: s) := by
    simp [Message.line]
  rw [hline, show maxTextLen - 1 = maxTextLen - 2 + 1 from rfl, takeLine, if_neg hflag]

/-- The `Push` calls of a message and what follows it. -/
lemma pushes_message (msg : Message) (s : List Byte) :
    pushes (msg.line ++ s)
      = (msg.dest, textOf (takeLine 0x0a#8 (maxTextLen - 2) (msg.text ++ 0x0a#8 :: s)).1)
        :: pushes (takeLine 0x0a#8 (maxTextLen - 2) (msg.text ++ 0x0a#8 :: s)).2 := by
  have hlen := takeLine_length_le 0x0a#8 (maxTextLen - 2) (msg.text ++ 0x0a#8 :: s)
  have hcons : msg.line ++ s = msg.flag :: (msg.text ++ [0x0a#8] ++ s) := rfl
  rw [hcons, pushes_cons, ← hcons, takeLine_message, pushOf_flag]
  · rfl
  · simp only [maxTextLen] at *
    omega

/-- A newline on its own is of no known type. -/
lemma pushes_newline (s : List Byte) : pushes (0x0a#8 :: s) = pushes s := by
  have hline : takeLine 0x0a#8 (maxTextLen - 1) (0x0a#8 :: s) = ([0x0a#8], s) :=
    takeLine_line (t := []) (by simp) (by decide)
  have hnone : pushOf [0x0a#8] = none := by decide
  rw [pushes_cons, hline, hnone]
  rfl

/-- **A text that fits arrives**, and nothing of its line is left over. -/
lemma pushes_of_fits {msg : Message} (h : Fits msg.text) (s : List Byte) :
    pushes (msg.line ++ s) = (msg.dest, msg.text) :: pushes s := by
  obtain ⟨h0, hnl, hlen⟩ := h
  rw [pushes_message]
  rcases hlen with hlen | ⟨hlen, hlast⟩
  · rw [takeLine_line hnl (by omega)]
    have hself : (msg.text ++ [0x0a#8]).takeWhile (· ≠ 0#8) = msg.text ++ [0x0a#8] :=
      takeWhile_ne_zero (by simp [h0])
    have htext : textOf (msg.text ++ [0x0a#8]) = msg.text := by
      rw [textOf, hself, if_pos ⟨by simp, by simp⟩, List.dropLast_concat]
    rw [htext]
  · have hfull : (msg.text).take (maxTextLen - 2) = msg.text := List.take_of_length_le (by omega)
    rw [takeLine_long (by rwa [hfull]) (by omega), hfull, List.drop_of_length_le (by omega)]
    have htext : textOf msg.text = msg.text := by
      rw [textOf, takeWhile_ne_zero h0, if_neg (by rintro ⟨-, h⟩; omega)]
    rw [htext, List.nil_append, pushes_newline]

/-- **A text that does not fit arrives shortened.** -/
lemma textOf_length_lt {t : List Byte} (h : ¬ Fits t) (s : List Byte) :
    (textOf (takeLine 0x0a#8 (maxTextLen - 2) (t ++ 0x0a#8 :: s)).1).length < t.length := by
  have hle : ∀ v, (textOf v).length ≤ v.length := fun v =>
    (textOf_length_le v).trans (takeWhile_length_le v)
  have hmax : maxTextLen = 512 := rfl
  by_cases hnl : 0x0a#8 ∈ t
  · obtain ⟨a, b, rfl, ha⟩ := List.eq_append_cons_of_mem hnl
    rw [List.append_assoc, List.cons_append]
    by_cases hlen : a.length < maxTextLen - 2
    · rw [takeLine_line ha hlen]
      have hlt := textOf_length_lt_of_last (v := a ++ [0x0a#8]) (by simp) (by simp)
      show (textOf (a ++ [0x0a#8])).length < _
      simp only [List.length_append, List.length_cons, List.length_nil] at hlt ⊢
      omega
    · rw [takeLine_long (fun hm => ha (List.mem_of_mem_take hm)) (by omega)]
      have hlt := hle (a.take (maxTextLen - 2))
      show (textOf (a.take (maxTextLen - 2))).length < _
      rw [List.length_take] at hlt
      simp only [List.length_append, List.length_cons]
      omega
  · by_cases hlen : t.length + 3 ≤ maxTextLen
    · have h0 : 0#8 ∈ t := by
        by_contra h0
        exact h ⟨h0, hnl, Or.inl hlen⟩
      have hcut : (t ++ [0x0a#8]).takeWhile (· ≠ 0#8) = t.takeWhile (· ≠ 0#8) := by
        rw [List.takeWhile_append, if_neg (takeWhile_length_lt h0).ne]
      rw [takeLine_line hnl (by omega)]
      refine lt_of_le_of_lt (textOf_length_le _) ?_
      rw [hcut]
      exact takeWhile_length_lt h0
    · have hlong : maxTextLen - 2 ≤ t.length := by omega
      rw [takeLine_long (fun hm => hnl (List.mem_of_mem_take hm)) hlong]
      show (textOf (t.take (maxTextLen - 2))).length < _
      by_cases heq : t.length = maxTextLen - 2
      · rw [← heq, List.take_length]
        by_cases h0 : 0#8 ∈ t
        · exact lt_of_le_of_lt (textOf_length_le t) (takeWhile_length_lt h0)
        · have hlast : ¬ 32 ≤ (t.getLast?.getD 0#8).toNat := fun hlast =>
            h ⟨h0, hnl, Or.inr ⟨by omega, hlast⟩⟩
          refine textOf_length_lt_of_last ?_ (by omega)
          intro ht
          rw [ht] at heq
          exact absurd heq (by decide)
      · have hlt := hle (t.take (maxTextLen - 2))
        rw [List.length_take] at hlt
        omega

/-- The messages one after the other arrive unchanged exactly when all of them fit. -/
lemma pushes_flatMap_iff (msgs : List Message) :
    pushes (msgs.flatMap Message.line) = msgs.map (fun m => (m.dest, m.text))
      ↔ ∀ m ∈ msgs, Fits m.text := by
  induction msgs with
  | nil => simp [pushes_eq]
  | cons m msgs ih =>
      rw [List.flatMap_cons, List.map_cons, List.forall_mem_cons, ← ih]
      by_cases hm : Fits m.text
      · rw [pushes_of_fits hm, List.cons.injEq]
        exact ⟨fun h => ⟨hm, h.2⟩, fun h => ⟨rfl, h.2⟩⟩
      · refine ⟨?_, fun h => absurd h.1 hm⟩
        intro h
        rw [pushes_message, List.cons.injEq, Prod.mk.injEq] at h
        have hlt := textOf_length_lt hm (msgs.flatMap Message.line)
        rw [h.1.2] at hlt
        exact absurd hlt (lt_irrefl _)

/-- **The round trip through the pipe**: each message causes exactly one `Push`, in order,
onto its own queue and with its own text, exactly when every text fits. -/
theorem pushes_fetch_iff (nowId : ℕ) (responses : List (Option (List Message))) :
    pushes (fetch nowId responses) = (messages responses).map (fun m => (m.dest, m.text))
      ↔ ∀ m ∈ messages responses, Fits m.text := by
  rw [fetch_eq, pushes_flatMap_iff]

/-- One message with a newline in its text is two messages to the reader: the second half
takes its first digit for a flag. -/
theorem pushes_fetch_newline :
    ¬ pushes (fetch 0 [some [⟨0, true, [0x68#16, 0x0a#16, 0x30#16, 0x78#16]⟩]])
      = (messages [some [⟨0, true, [0x68#16, 0x0a#16, 0x30#16, 0x78#16]⟩]]).map
          (fun m => (m.dest, m.text)) := by
  decide

end Danmaku
