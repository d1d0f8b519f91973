import Danmaku.DanmakuOverlay
import Danmaku.Lib.Fifo
import Danmaku.Lib.Transition
import Danmaku.Resync

/-!
`pixel_data_adapter` (`pixel_data_adapter.v`) between the clock of the overlay DMA and the clock of
the video.

`adapter_fifo` (`adapter_fifo.v`) only sets the parameters of the vendor's `dcfifo_mixed_widths`,
which is not in the repository. It stands here for any FIFO that behaves as the vendor documents it.

* `DcfifoMixedWidths`, `Documented`: the FIFO, and what is documented of it: 64 bits in and 8 out,
  show-ahead mode, overflow and underflow checking. Its flags may lag behind.
* `PixelDataAdapter.clock`: a rising edge of one of the two clocks.
* `bytesOf_revOrder`: the swap lets the symbol in the high bits leave first.
* `conserves_symbols`: **the symbols of the words taken leave in order**.
* `adapter_refines`: **the overlay behind the adapter is the overlay behind a stream** of the
  symbols sent, from any state and for as long as it does not ask an empty FIFO.
-/

namespace Danmaku

open Transition Fifo

/-- `rev_order`. -/
def revOrder (dataSrc : BitVec 64) : BitVec 64 :=
  dataSrc.extractLsb' 0 8 ++ dataSrc.extractLsb' 8 8 ++ dataSrc.extractLsb' 16 8
    ++ dataSrc.extractLsb' 24 8 ++ dataSrc.extractLsb' 32 8 ++ dataSrc.extractLsb' 40 8
    ++ dataSrc.extractLsb' 48 8 ++ dataSrc.extractLsb' 56 8

/-- The bytes of a word, the least significant one first. -/
def bytesOf (word : BitVec 64) : List Byte := (List.range 8).map fun i => word.extractLsb' (8 * i) 8

/-- The symbols of a beat of the stream, the one in the high bits first. -/
def symbols (dataSrc : BitVec 64) : List Byte :=
  (List.range 8).map fun i => dataSrc.extractLsb' (56 - 8 * i) 8

lemma bytesOf_append (a b c d e f g h : Byte) :
    bytesOf (a ++ b ++ c ++ d ++ e ++ f ++ g ++ h) = [h, g, f, e, d, c, b, a] := by
  have hrange : List.range 8 = [0, 1, 2, 3, 4, 5, 6, 7] := rfl
  simp (disch := decide) only [bytesOf, hrange, List.map_cons, List.map_nil,
    BitVec.extractLsb'_append_eq_of_add_le, BitVec.extractLsb'_append_eq_of_le]
  simp

/-- The swap turns the symbols round. -/
lemma bytesOf_revOrder (dataSrc : BitVec 64) : bytesOf (revOrder dataSrc) = symbols dataSrc := by
  rw [revOrder, bytesOf_append]
  rfl

/-! ### The FIFO -/

/-- The `dcfifo_mixed_widths` in `adapter_fifo`: its two clocks, its outputs, and the bytes in it,
the oldest first. -/
structure DcfifoMixedWidths where
  State : Type
  wrclk : Bool → BitVec 64 → State → State
  rdclk : Bool → State → State
  wrfull : State → Bool
  rdempty : State → Bool
  q : State → Byte
  contents : State → List Byte

/-- What the vendor documents of it. What it shows while `rdempty` is set is left open, and so is
when the flags fall. -/
structure DcfifoMixedWidths.Documented (F : DcfifoMixedWidths) : Prop where
  /-- a word is taken unless `wrfull` is set; its least significant byte is in front -/
  contents_wrclk : ∀ wrreq data s, F.contents (F.wrclk wrreq data s)
    = F.contents s ++ if wrreq && !F.wrfull s then bytesOf data else []
  /-- a byte is taken out unless `rdempty` is set -/
  contents_rdclk : ∀ rdreq s, F.contents (F.rdclk rdreq s)
    = if rdreq && !F.rdempty s then (F.contents s).tail else F.contents s
  /-- the oldest byte is shown ahead -/
  q_eq : ∀ s, F.rdempty s = false → (F.contents s).head? = some (F.q s)

/-! ### The adapter -/

/-- The FIFO and the registers behind it. -/
structure PixelDataAdapter (F : DcfifoMixedWidths) where
  fifo : F.State
  overlay : DanmakuOverlay

/-- A rising edge of `clk_src` or of `clk_sink`, with the inputs there. -/
inductive AdapterIn
  | src (dataSrc : BitVec 64) (validSrc : Bool)
  | sink (inp : OverlayIn)

/-- What has passed: the symbols of the beats that were valid and ready, the bytes that the overlay
has read, its inputs, and whether it has asked an empty FIFO. -/
structure AdapterLog where
  sent : List Byte
  read : List Byte
  ins : List OverlayIn
  underrun : Bool

namespace PixelDataAdapter

variable {F : DcfifoMixedWidths}

/-- `ready_src`. -/
def readySrc (a : PixelDataAdapter F) : Bool := !F.wrfull a.fifo

/-- The inputs of the overlay, whose `fifoRdEmpty` is `empty_sink`. -/
def seen (a : PixelDataAdapter F) (inp : OverlayIn) : OverlayIn :=
  { inp with fifoRdEmpty := F.rdempty a.fifo }

/-- The state after a rising edge. -/
def clock (a : PixelDataAdapter F) : AdapterIn → PixelDataAdapter F
  | .src dataSrc validSrc => { a with fifo := F.wrclk validSrc (revOrder dataSrc) a.fifo }
  | .sink inp =>
      { fifo := F.rdclk a.overlay.fifoRdreq a.fifo
        overlay := a.overlay.clock (fun _ => F.q a.fifo) (a.seen inp) }

/-- The symbols that the source hands over: a beat is taken when it is valid and ready. -/
def sends (a : PixelDataAdapter F) : AdapterIn → List Byte
  | .src dataSrc validSrc => if validSrc && a.readySrc then symbols dataSrc else []
  | .sink _ => []

/-- The byte that the overlay reads, if any. -/
def reads (a : PixelDataAdapter F) : AdapterIn → List Byte
  | .src _ _ => []
  | .sink _ => if a.overlay.fifoRdreq && !F.rdempty a.fifo then [F.q a.fifo] else []

/-- The overlay asks an empty FIFO. -/
def underrun (a : PixelDataAdapter F) : AdapterIn → Bool
  | .src _ _ => false
  | .sink _ => a.overlay.fifoRdreq && F.rdempty a.fifo

/-- What an edge adds to the log. -/
def log (a : PixelDataAdapter F) (e : AdapterIn) (y : AdapterLog) : AdapterLog where
  sent := y.sent ++ a.sends e
  read := y.read ++ a.reads e
  ins := match e with
    | .src _ _ => y.ins
    | .sink inp => y.ins ++ [a.seen inp]
  underrun := y.underrun || a.underrun e

/-- A rising edge. -/
def Step (a : PixelDataAdapter F) (e : AdapterIn) (b : PixelDataAdapter F) : Prop := b = a.clock e

variable {a b a₀ : PixelDataAdapter F} {e : AdapterIn} {inp : OverlayIn} {y : AdapterLog}
  {as : List AdapterIn} {stream : ℕ → Byte} {ins : ℕ → OverlayIn}

/-- A byte that is shown is the oldest one. -/
lemma cons_q_tail (hF : F.Documented) (hempty : F.rdempty a.fifo = false) :
    F.q a.fifo :: (F.contents a.fifo).tail = F.contents a.fifo :=
  List.cons_head?_tail (hF.q_eq a.fifo hempty)

/-- **The symbols of the words leave in order.** -/
theorem conserves_symbols (hF : F.Documented) :
    Conserves (Step (F := F)) (fun a => F.contents a.fifo) sends reads := by
  rintro a e _ rfl
  cases e with
  | src dataSrc validSrc =>
      simp only [sends, reads, clock, hF.contents_wrclk, bytesOf_revOrder, List.nil_append]
      rfl
  | sink inp =>
      simp only [sends, reads, clock, List.append_nil, hF.contents_rdclk]
      split
      · rename_i hread
        rw [Bool.and_eq_true, Bool.not_eq_true'] at hread
        exact (cons_q_tail hF hread.2).symm
      · rfl

/-- The overlay counts the bytes that it reads. -/
lemma rd_clock (a : PixelDataAdapter F) (e : AdapterIn) :
    (a.clock e).overlay.rd = a.overlay.rd + (a.reads e).length := by
  cases e with
  | src dataSrc validSrc => rfl
  | sink inp =>
      show (if (a.overlay.fifoRdreq && !F.rdempty a.fifo) = true then a.overlay.rd + 1
          else a.overlay.rd) = a.overlay.rd + (if (a.overlay.fifoRdreq && !F.rdempty a.fifo) = true
            then [F.q a.fifo] else []).length
      by_cases hread : (a.overlay.fifoRdreq && !F.rdempty a.fifo) = true
      · rw [if_pos hread, if_pos hread]
        rfl
      · rw [if_neg hread, if_neg hread]
        rfl

/-- The overlay sees of a stream only the byte that it asks for. -/
lemma overlay_clock_congr {s : DanmakuOverlay} {byte : Byte}
    (h : s.fifoRdreq = true → stream s.rd = byte) :
    s.clock (fun _ => byte) inp = s.clock stream inp := by
  cases hreq : s.fifoRdreq with
  | false => simp [DanmakuOverlay.clock, hreq]
  | true => simp [DanmakuOverlay.clock, hreq, h hreq]

/-- The stream goes on where the FIFO stood, with the symbols sent. -/
def Extends (stream : ℕ → Byte) (a₀ : PixelDataAdapter F) (sent : List Byte) : Prop :=
  ∀ i byte, (F.contents a₀.fifo ++ sent)[i]? = some byte → stream (a₀.overlay.rd + i) = byte

/-- The clocks of the overlay have the inputs of the list. -/
def Listed (ins : ℕ → OverlayIn) (seen : List OverlayIn) : Prop :=
  ∀ t inp, seen[t]? = some inp → ins t = inp

lemma Extends.of_append {sent more : List Byte} (h : Extends stream a₀ (sent ++ more)) :
    Extends stream a₀ sent := by
  intro i byte hi
  refine h i byte ?_
  rw [← List.append_assoc, List.getElem?_append_left (List.getElem?_eq_some_iff.mp hi).1]
  exact hi

lemma Listed.of_append {seen more : List OverlayIn} (h : Listed ins (seen ++ more)) :
    Listed ins seen := by
  intro t inp ht
  refine h t inp ?_
  rw [List.getElem?_append_left (List.getElem?_eq_some_iff.mp ht).1]
  exact ht

/-- The invariant of the refinement. -/
structure Refines (a₀ a : PixelDataAdapter F) (y : AdapterLog) : Prop where
  bytes : F.contents a₀.fifo ++ y.sent = y.read ++ F.contents a.fifo
  rd : a.overlay.rd = a₀.overlay.rd + y.read.length
  overlay : y.underrun = false → ∀ stream ins, Extends stream a₀ y.sent → Listed ins y.ins →
    a.overlay = DanmakuOverlay.run stream ins a₀.overlay y.ins.length

/-- An edge keeps the refinement. -/
lemma Refines.step (hF : F.Documented) (h : Refines a₀ a y) (hs : Step a e b) :
    Refines a₀ b (a.log e y) := by
  have hs' := hs
  obtain rfl := hs'
  refine ⟨(conserves_symbols hF).record h.bytes hs, ?_, ?_⟩
  · simp only [rd_clock, h.rd, log, List.length_append, Nat.add_assoc]
  intro hnone stream ins hext hins
  obtain ⟨hfed, hnow⟩ := Bool.or_eq_false_iff.mp hnone
  cases e with
  | src dataSrc validSrc => exact h.overlay hfed stream ins hext.of_append hins
  | sink inp =>
      have hrun := h.overlay hfed stream ins hext.of_append hins.of_append
      have hinp : ins y.ins.length = a.seen inp := hins _ _ List.getElem?_concat_length
      -- the byte that is shown is the next one of the stream
      have hbyte : a.overlay.fifoRdreq = true → stream a.overlay.rd = F.q a.fifo := by
        intro hreq
        rw [h.rd]
        refine hext _ _ ?_
        have hfull : F.rdempty a.fifo = false := by simpa [underrun, hreq] using hnow
        simp only [log, sends, List.append_nil]
        rw [h.bytes, ← cons_q_tail hF hfull]
        simp
      simp only [log, clock, List.length_append, List.length_cons, List.length_nil,
        DanmakuOverlay.run, hinp, ← hrun]
      exact overlay_clock_congr hbyte

/-- **The overlay behind the adapter is the overlay behind a stream**: over every FIFO that behaves
as documented, from any state, whatever the order of the two clocks, the beats that are offered and
the lag of the flags, the bytes read and those in the FIFO are the symbols sent, in order; and while
the FIFO is not asked when it is empty, the overlay does what it does over any stream that begins
with these bytes. -/
theorem adapter_refines (hF : F.Documented)
    (hrun : Run (Recorded Step log) (a₀, ⟨[], [], [], false⟩) as (a, y)) :
    F.contents a₀.fifo ++ y.sent = y.read ++ F.contents a.fifo
      ∧ (y.underrun = false → ∀ stream ins, Extends stream a₀ y.sent → Listed ins y.ins →
        a.overlay = DanmakuOverlay.run stream ins a₀.overlay y.ins.length) := by
  have hinv : Refines a₀ a y := by
    refine hrun.invariant (I := fun p => Refines a₀ p.1 p.2)
      ⟨List.append_nil _, rfl, fun _ _ _ _ _ => rfl⟩ ?_
    rintro ⟨a, y⟩ e ⟨b, z⟩ h ⟨hs, rfl⟩
    exact h.step hF hs
  exact ⟨hinv.bytes, hinv.overlay⟩

/-! ### A FIFO to try it on -/

/-- The bytes in a FIFO, how many of them the read side knows of, and how many it is going to learn
of in its next three clocks, in which the write pointer is synchronised. -/
structure SyncedBytes where
  bytes : List Byte
  shown : ℕ
  next : ℕ
  second : ℕ
  third : ℕ
  length_eq : bytes.length = shown + next + second + third

namespace SyncedBytes

/-- There is no room for a word. -/
def wrfull (s : SyncedBytes) : Bool := decide (8 * 2048 < s.bytes.length + 8)

/-- The read side knows of no byte. -/
def rdempty (s : SyncedBytes) : Bool := s.shown == 0

lemma length_bytesOf (word : BitVec 64) : (bytesOf word).length = 8 := rfl

/-- A clock of the write side. -/
def wrclk (wrreq : Bool) (data : BitVec 64) (s : SyncedBytes) : SyncedBytes :=
  if wrreq && !s.wrfull then
    { s with
      bytes := s.bytes ++ bytesOf data
      third := s.third + 8
      length_eq := by rw [List.length_append, s.length_eq, length_bytesOf, Nat.add_assoc] }
  else s

lemma bytes_wrclk (wrreq : Bool) (data : BitVec 64) (s : SyncedBytes) : (s.wrclk wrreq data).bytes
    = s.bytes ++ if wrreq && !s.wrfull then bytesOf data else [] := by
  rw [wrclk]
  split
  · rfl
  · exact (List.append_nil _).symm

/-- How many bytes a clock of the read side takes out. -/
def taken (rdreq : Bool) (s : SyncedBytes) : ℕ := if rdreq && !s.rdempty then 1 else 0

lemma taken_le (rdreq : Bool) (s : SyncedBytes) : s.taken rdreq ≤ s.shown := by
  rw [taken, rdempty]
  split
  · rename_i h
    simp only [Bool.and_eq_true, Bool.not_eq_true', beq_eq_false_iff_ne] at h
    exact Nat.pos_of_ne_zero h.2
  · exact Nat.zero_le _

/-- A clock of the read side. -/
def rdclk (rdreq : Bool) (s : SyncedBytes) : SyncedBytes where
  bytes := s.bytes.drop (s.taken rdreq)
  shown := s.shown - s.taken rdreq + s.next
  next := s.second
  second := s.third
  third := 0
  length_eq := by
    have hlen := s.length_eq
    have htaken := s.taken_le rdreq
    rw [List.length_drop]
    omega

lemma bytes_rdclk (rdreq : Bool) (s : SyncedBytes) : (s.rdclk rdreq).bytes
    = if rdreq && !s.rdempty then s.bytes.tail else s.bytes := by
  show s.bytes.drop (s.taken rdreq) = _
  rw [taken]
  split
  · exact List.drop_one
  · rfl

lemma head?_bytes {s : SyncedBytes} (h : s.rdempty = false) :
    s.bytes.head? = some (s.bytes.headD 0) := by
  have hlen := s.length_eq
  rw [rdempty, beq_eq_false_iff_ne] at h
  cases hbytes : s.bytes with
  | nil =>
      rw [hbytes, List.length_nil] at hlen
      omega
  | cons b bs => rfl

end SyncedBytes

/-- The FIFO with 2048 words and three synchronising stages. -/
def syncedFifo : DcfifoMixedWidths where
  State := SyncedBytes
  wrclk := SyncedBytes.wrclk
  rdclk := SyncedBytes.rdclk
  wrfull := SyncedBytes.wrfull
  rdempty := SyncedBytes.rdempty
  q s := s.bytes.headD 0
  contents := SyncedBytes.bytes

lemma documented_syncedFifo : syncedFifo.Documented where
  contents_wrclk := SyncedBytes.bytes_wrclk
  contents_rdclk := SyncedBytes.bytes_rdclk
  q_eq _ := SyncedBytes.head?_bytes

/-- A word of blanks that the read side knows of, in front of an overlay out of reset. -/
def blankWord : PixelDataAdapter syncedFifo where
  fifo := ⟨List.replicate 8 pxlBlank, 8, 0, 0, 0, rfl⟩
  overlay := cleared 0 0#32

/-- A beat goes in; behind the blanks its symbols come out, the one in the high bits first. -/
theorem adapter_refines_twoSymbols :
    ∃ a y as, Run (Recorded Step log) (blankWord, ⟨[], [], [], false⟩) as (a, y)
      ∧ y.read = List.replicate 8 pxlBlank ++ [0x11#8, 0x22#8] ∧ y.underrun = false
      ∧ syncedFifo.contents blankWord.fifo ++ y.sent = y.read ++ syncedFifo.contents a.fifo
      ∧ ∀ stream ins, Extends stream blankWord y.sent → Listed ins y.ins →
        a.overlay = DanmakuOverlay.run stream ins blankWord.overlay y.ins.length := by
  have hsteps : ∀ (es : List AdapterIn) (p : PixelDataAdapter syncedFifo × AdapterLog),
      Run (Recorded Step log) p es (es.foldl (fun p e => (p.1.clock e, p.1.log e p.2)) p) := by
    intro es
    induction es with
    | nil => exact fun p => .nil
    | cons e es ih =>
        exact fun p => .cons (t := (p.1.clock e, p.1.log e p.2)) ⟨rfl, rfl⟩ (ih _)
  have hrun := hsteps (.src 0x1122334455667788#64 true
    :: (List.range 11).map fun t => .sink (plainVideo 40 20 t)) (blankWord, ⟨[], [], [], false⟩)
  obtain ⟨hbytes, hoverlay⟩ := adapter_refines documented_syncedFifo hrun
  exact ⟨_, _, _, hrun, by decide +kernel, by decide +kernel, hbytes,
    hoverlay (by decide +kernel)⟩

end PixelDataAdapter

end Danmaku
