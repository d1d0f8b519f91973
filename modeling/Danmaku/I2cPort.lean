import Danmaku.SerialInterface

/-!
The I2C slave from edge to edge.

Between two edges of `scl` the state machine comes to rest, so what the bus sees of it is given by
what a falling edge, a rising edge and a change of `sda` make of a slave at rest.

* `EdidCore.step`: one clock of the state machine and of the two registers between it and the
  memory.
* `I2cPort.fall`, `I2cPort.rise`: what an edge comes to.
* `EdidCore.fall_rests`, `EdidCore.rise_rests`: **the machine is at rest eight clocks after an
  edge**, and drives `sda` with nothing else meanwhile.
-/

namespace Danmaku

/-- The part of the slave behind its filters: the state machine, the detector of START and STOP,
and the address and output registers of the memory. -/
structure EdidCore where
  serial : SerialInterface
  det : StartStopDet
  addressReg : BitVec 8
  q : BitVec 8
  deriving DecidableEq, Repr

/-- The slave at rest. -/
structure I2cPort where
  serial : SerialInterface
  det : StartStopDet
  deriving DecidableEq, Repr

namespace EdidCore

/-- One clock without a reset and without a START or STOP. -/
def step (mem : BitVec 8 → BitVec 8) (scl sda : Bool) (c : EdidCore) : EdidCore where
  serial := c.serial.next c.q scl sda c.det
  det := if c.serial.clearStartStopDet then .null else c.det
  addressReg := c.serial.regAddr
  q := mem c.addressReg

/-- A port with the memory's registers caught up with it. -/
def rest (mem : BitVec 8 → BitVec 8) (p : I2cPort) : EdidCore where
  serial := p.serial
  det := p.det
  addressReg := p.serial.regAddr
  q := mem p.serial.regAddr

end EdidCore

namespace I2cPort

open SerialInterface

/-- What a falling edge of `scl` makes of a slave at rest. -/
def fall (mem : BitVec 8 → BitVec 8) (p : I2cPort) : I2cPort :=
  let s := p.serial
  match s.currState with
  | .readRdLoop =>
      { p with
        serial :=
          { s with
            currState := .readWtHi
            sdaOut := s.txData.getLsbD 7
            txData := s.txData.shiftConcat false } }
  | .readWtLo => { p with serial := { s with currState := .readWtAck, sdaOut := true } }
  | .writeWtLo =>
      if p.det = .stop ∨ s.streamSt = .idle ∧ p.det = .null then
        { serial :=
            { firstBit p.det s with
              currState := .writeWtHi
              streamSt := .idle
              rxData := 0 }
          det := .null }
      else { p with serial := { firstBit p.det s with currState := .writeStLoop } }
  | .writeLoopWtLo =>
      if s.bitCnt = 7 then
        { serial :=
            { byteEnd p.det s with
              currState := .writeWtHi2
              regAddr :=
                if (byteEnd p.det s).writeEn then (byteEnd p.det s).regAddr + 1
                else (byteEnd p.det s).regAddr
              writeEn := false }
          det := .null }
      else { p with serial := { s with currState := .writeStLoop, bitCnt := s.bitCnt + 1 } }
  | .writeWtLo2 =>
      if s.streamSt = .read then
        { p with
          serial :=
            { s with
              currState := .readWtHi
              sdaOut := (mem s.regAddr).getLsbD 7
              txData := (mem s.regAddr).shiftConcat false
              regAddr := s.regAddr + 1
              bitCnt := 1 } }
      else { p with serial := { s with currState := .writeWtHi, sdaOut := true, rxData := 0 } }
  | _ => p

/-- What a rising edge of `scl` makes of a slave at rest while `sda` has the level `b`. -/
def rise (mem : BitVec 8 → BitVec 8) (b : Bool) (p : I2cPort) : I2cPort :=
  let s := p.serial
  match s.currState with
  | .readWtHi =>
      if s.bitCnt = 0 then { p with serial := { s with currState := .readWtLo } }
      else { p with serial := { s with currState := .readRdLoop, bitCnt := s.bitCnt + 1 } }
  | .readWtAck =>
      if b = false ∧ s.streamSt = .read then
        { p with
          serial :=
            { s with
              currState := .readRdLoop
              txData := mem s.regAddr
              regAddr := s.regAddr + 1
              bitCnt := 1 } }
      else
        { p with
          serial :=
            { s with
              currState := .writeWtLo
              streamSt := if b then .idle else s.streamSt
              rxData := (0 : BitVec 8).shiftConcat b
              bitCnt := 0 } }
  | .writeWtHi =>
      { p with
        serial :=
          { s with currState := .writeWtLo, rxData := s.rxData.shiftConcat b, bitCnt := 0 } }
  | .writeStLoop =>
      { p with
        serial := { s with currState := .writeLoopWtLo, rxData := s.rxData.shiftConcat b } }
  | .writeWtHi2 => { p with serial := { s with currState := .writeWtLo2 } }
  | _ => p

/-- At rest while `scl` is high. -/
structure High (p : I2cPort) : Prop where
  state : p.serial.currState = .readRdLoop ∨ p.serial.currState = .readWtLo
    ∨ p.serial.currState = .writeWtLo ∨ p.serial.currState = .writeLoopWtLo
    ∨ p.serial.currState = .writeWtLo2
  clear : p.serial.clearStartStopDet = false
  writeEn : p.serial.writeEn = false

/-- At rest while `scl` is low. -/
structure Low (p : I2cPort) : Prop where
  state : p.serial.currState = .readWtHi ∨ p.serial.currState = .readWtAck
    ∨ p.serial.currState = .writeWtHi ∨ p.serial.currState = .writeStLoop
    ∨ p.serial.currState = .writeWtHi2
  clear : p.serial.clearStartStopDet = false
  writeEn : p.serial.writeEn = false

variable {mem : BitVec 8 → BitVec 8} {p : I2cPort} {b : Bool}

/-- A rising edge does not touch the wire. -/
lemma rise_sdaOut : (p.rise mem b).serial.sdaOut = p.serial.sdaOut := by
  obtain ⟨⟨st, stream, tx, rx, out, en, data, cnt, clr, reg⟩, det⟩ := p
  cases st
  case readWtHi | readWtAck =>
    simp only [I2cPort.rise]
    split <;> rfl
  all_goals rfl

lemma High.fall (h : p.High) : (p.fall mem).Low := by
  obtain ⟨s, det⟩ := p
  obtain ⟨hst, hclr, hen⟩ := h
  simp only at hst hclr hen
  rcases hst with hst | hst | hst | hst | hst
  · constructor <;> simp [I2cPort.fall, hst, hclr, hen]
  · constructor <;> simp [I2cPort.fall, hst, hclr, hen]
  · unfold I2cPort.fall
    simp only [hst]
    split
    · exact ⟨by simp, by simp [firstBit_clearStartStopDet, hclr],
        by cases det <;> simp [firstBit, hen]⟩
    · exact ⟨by simp, by simp [firstBit_clearStartStopDet, hclr],
        by cases det <;> simp [firstBit, hen]⟩
  · unfold I2cPort.fall
    simp only [hst]
    split
    · exact ⟨by simp, by simp [byteEnd_clearStartStopDet, hclr], rfl⟩
    · exact ⟨by simp, hclr, hen⟩
  · unfold I2cPort.fall
    simp only [hst]
    split
    · exact ⟨by simp, hclr, hen⟩
    · exact ⟨by simp, hclr, hen⟩

lemma Low.rise (h : p.Low) : (p.rise mem b).High := by
  obtain ⟨s, det⟩ := p
  obtain ⟨hst, hclr, hen⟩ := h
  simp only at hst hclr hen
  unfold I2cPort.rise
  rcases hst with hst | hst | hst | hst | hst <;> simp only [hst]
  · split <;> exact ⟨by simp, hclr, hen⟩
  · split <;> exact ⟨by simp, hclr, hen⟩
  all_goals exact ⟨by simp, hclr, hen⟩

end I2cPort

namespace EdidCore

open SerialInterface

variable {mem : BitVec 8 → BitVec 8} {p : I2cPort} {b : Bool}

/-- A slave at rest under a high `scl` stays at rest, whatever `sda` does. -/
lemma step_high (h : p.High) : step mem true b (rest mem p) = rest mem p := by
  obtain ⟨⟨st, stream, tx, rx, out, en, data, cnt, clr, reg⟩, det⟩ := p
  obtain ⟨hst, hclr, -⟩ := h
  rcases hst with hst | hst | hst | hst | hst <;> simp only at hst hclr <;> subst hst hclr <;>
    simp [step, rest, SerialInterface.next]

lemma step_low (h : p.Low) : step mem false b (rest mem p) = rest mem p := by
  obtain ⟨⟨st, stream, tx, rx, out, en, data, cnt, clr, reg⟩, det⟩ := p
  obtain ⟨hst, hclr, -⟩ := h
  rcases hst with hst | hst | hst | hst | hst <;> simp only at hst hclr <;> subst hst hclr <;>
    simp [step, rest, SerialInterface.next]

section Edge

variable {scl : Bool} {bs : ℕ → Bool} {c : ℕ → EdidCore} {n k j : ℕ}

/-- Once at rest the machine stays there. -/
lemma eq_of_fixed (hc : ∀ k < n, c (k + 1) = step mem scl (bs k) (c k)) {r : EdidCore}
    (hr : ∀ b, step mem scl b r = r) (hj : c j = r) (hjk : j ≤ k) (hkn : k ≤ n) : c k = r := by
  induction k, hjk using Nat.le_induction with
  | base => exact hj
  | succ k hjk ih => rw [hc k (by omega), ih (by omega), hr]

/-- The end of a byte takes three clocks and two more for the memory. -/
lemma fall_byteEnd (hc : ∀ k < n, c (k + 1) = step mem false (bs k) (c k)) (hn : 5 ≤ n)
    (h : p.High) (hst : p.serial.currState = .writeLoopWtLo) (hcnt : p.serial.bitCnt = 7)
    (h0 : c 0 = rest mem p) : c 5 = rest mem (p.fall mem) := by
  obtain ⟨s, det⟩ := p
  have hclr := h.clear
  simp only at hst hcnt hclr
  set r := byteEnd det s with hr
  have hrclr : r.clearStartStopDet = false := (byteEnd_clearStartStopDet det s).trans hclr
  set a := if r.writeEn then r.regAddr + 1 else r.regAddr with ha
  have h1 : c 1 = ⟨{ s with currState := .writeChkLoopFin }, det, s.regAddr, mem s.regAddr⟩ := by
    rw [hc 0 (by omega), h0]
    simp [step, rest, SerialInterface.next, hst, hclr]
  have h2 : c 2 = ⟨{ r with currState := .writeClrWr }, det, s.regAddr, mem s.regAddr⟩ := by
    rw [hc 1 (by omega), h1]
    simp only [step]
    rw [next_byteEnd hcnt]
    simp [hclr, hr]
  have h3 : c 3 = ⟨{ r with
      regAddr := a, writeEn := false, clearStartStopDet := true, currState := .writeWtHi2 }, det,
      r.regAddr, mem s.regAddr⟩ := by
    rw [hc 2 (by omega), h2]
    simp [step, SerialInterface.next, hrclr, ha]
  have h4 : c 4 = ⟨{ r with
      regAddr := a, writeEn := false, clearStartStopDet := false, currState := .writeWtHi2 }, .null,
      a, mem r.regAddr⟩ := by
    rw [hc 3 (by omega), h3]
    simp [step, SerialInterface.next]
  rw [hc 4 (by omega), h4]
  simp [step, rest, SerialInterface.next, I2cPort.fall, hst, hcnt, ← hr, ha, hrclr]

/-- A byte of another stream, or a STOP, is given up. -/
lemma fall_idle (hc : ∀ k < n, c (k + 1) = step mem false (bs k) (c k)) (hn : 3 ≤ n)
    (h : p.High) (hst : p.serial.currState = .writeWtLo)
    (hidle : p.det = .stop ∨ p.serial.streamSt = .idle ∧ p.det = .null)
    (h0 : c 0 = rest mem p) : c 3 = rest mem (p.fall mem) := by
  obtain ⟨s, det⟩ := p
  have hclr := h.clear
  simp only at hst hidle hclr
  set r := firstBit det s with hr
  have hrclr : r.clearStartStopDet = false := (firstBit_clearStartStopDet det s).trans hclr
  have hreg : r.regAddr = s.regAddr := firstBit_regAddr det s
  have h1 : c 1 = ⟨{ r with
      currState := .writeClrStStop, streamSt := .idle, clearStartStopDet := true }, det,
      s.regAddr, mem s.regAddr⟩ := by
    rw [hc 0 (by omega), h0]
    simp [step, rest, SerialInterface.next, hst, hclr, hidle, hr]
  have h2 : c 2 = ⟨{ r with
      currState := .chkRdWr, streamSt := .idle, clearStartStopDet := false }, .null,
      s.regAddr, mem s.regAddr⟩ := by
    rw [hc 1 (by omega), h1]
    simp [step, SerialInterface.next, hreg]
  rw [hc 2 (by omega), h2]
  simp [step, rest, SerialInterface.next, I2cPort.fall, hst, hidle, ← hr, hrclr, hreg]

/-- A byte is fetched from the memory for a read. -/
lemma fall_fetch (hc : ∀ k < n, c (k + 1) = step mem false (bs k) (c k)) (hn : 4 ≤ n)
    (h : p.High) (hst : p.serial.currState = .writeWtLo2) (hread : p.serial.streamSt = .read)
    (h0 : c 0 = rest mem p) : c 4 = rest mem (p.fall mem) := by
  obtain ⟨s, det⟩ := p
  have hclr := h.clear
  simp only at hst hread hclr
  have h1 : c 1 = ⟨{ s with currState := .chkRdWr, sdaOut := true }, det, s.regAddr,
      mem s.regAddr⟩ := by
    rw [hc 0 (by omega), h0]
    simp [step, rest, SerialInterface.next, hst, hclr]
  have h2 : c 2 = ⟨{ s with
      currState := .readRdLoop, sdaOut := true, txData := mem s.regAddr, regAddr := s.regAddr + 1,
      bitCnt := 1 }, det, s.regAddr, mem s.regAddr⟩ := by
    rw [hc 1 (by omega), h1]
    simp [step, SerialInterface.next, hread, hclr]
  have h3 : c 3 = ⟨{ s with
      currState := .readWtHi, sdaOut := (mem s.regAddr).getLsbD 7,
      txData := (mem s.regAddr).shiftConcat false, regAddr := s.regAddr + 1, bitCnt := 1 }, det,
      s.regAddr + 1, mem s.regAddr⟩ := by
    rw [hc 2 (by omega), h2]
    simp [step, SerialInterface.next, hclr]
  rw [hc 3 (by omega), h3]
  simp [step, rest, SerialInterface.next, I2cPort.fall, hst, hread, hclr]

/-- The other falling edges take at most two clocks. -/
lemma fall_plain (hc : ∀ k < n, c (k + 1) = step mem false (bs k) (c k)) (hn : 2 ≤ n)
    (h : p.High)
    (hbyte : p.serial.currState = .writeLoopWtLo → p.serial.bitCnt ≠ 7)
    (hidle : p.serial.currState = .writeWtLo →
      ¬(p.det = .stop ∨ p.serial.streamSt = .idle ∧ p.det = .null))
    (hread : p.serial.currState = .writeWtLo2 → p.serial.streamSt ≠ .read)
    (h0 : c 0 = rest mem p) : c 2 = rest mem (p.fall mem) := by
  obtain ⟨s, det⟩ := p
  have hclr := h.clear
  rw [hc 1 (by omega), hc 0 (by omega), h0]
  simp only at hbyte hidle hread hclr
  rcases h.state with hst | hst | hst | hst | hst <;> simp only at hst
  · simp [step, rest, SerialInterface.next, I2cPort.fall, hst, hclr]
  · simp [step, rest, SerialInterface.next, I2cPort.fall, hst, hclr]
  · have hidle' := hidle hst
    simp [step, rest, SerialInterface.next, I2cPort.fall, hst, hclr, hidle',
      firstBit_clearStartStopDet, firstBit_regAddr]
  · have hcnt : ¬s.bitCnt = 7#3 := hbyte hst
    simp [step, rest, SerialInterface.next, I2cPort.fall, hst, hclr, hcnt]
  · simp [step, rest, SerialInterface.next, I2cPort.fall, hst, hclr, hread hst]

/-- **A falling edge** leads from rest to rest. -/
lemma fall_rests (hc : ∀ k < n, c (k + 1) = step mem false (bs k) (c k)) (hn : 5 ≤ n)
    (h : p.High) (h0 : c 0 = rest mem p) : c 5 = rest mem (p.fall mem) := by
  have hfix : ∀ b, step mem false b (rest mem (p.fall mem)) = rest mem (p.fall mem) :=
    fun b => step_low h.fall
  by_cases hbyte : p.serial.currState = .writeLoopWtLo ∧ p.serial.bitCnt = 7
  · exact fall_byteEnd hc hn h hbyte.1 hbyte.2 h0
  by_cases hidle : p.serial.currState = .writeWtLo
      ∧ (p.det = .stop ∨ p.serial.streamSt = .idle ∧ p.det = .null)
  · exact eq_of_fixed hc hfix (fall_idle hc (by omega) h hidle.1 hidle.2 h0) (by omega) hn
  by_cases hread : p.serial.currState = .writeWtLo2 ∧ p.serial.streamSt = .read
  · exact eq_of_fixed hc hfix (fall_fetch hc (by omega) h hread.1 hread.2 h0) (by omega) hn
  · refine eq_of_fixed hc hfix (fall_plain hc (by omega) h ?_ ?_ ?_ h0) (by omega) hn
    · exact fun hst hcnt => hbyte ⟨hst, hcnt⟩
    · exact fun hst hd => hidle ⟨hst, hd⟩
    · exact fun hst hs => hread ⟨hst, hs⟩

/-- The end of a byte that was read. -/
lemma rise_ack (hc : ∀ k < n, c (k + 1) = step mem true b (c k)) (hn : 4 ≤ n)
    (h : p.Low) (hst : p.serial.currState = .readWtAck) (h0 : c 0 = rest mem p) :
    c 4 = rest mem (p.rise mem b) := by
  obtain ⟨s, det⟩ := p
  have hclr := h.clear
  simp only at hst hclr
  have h1 : c 1 = ⟨{ s with
      currState := .chkRdWr, streamSt := if b then .idle else s.streamSt }, det, s.regAddr,
      mem s.regAddr⟩ := by
    rw [hc 0 (by omega), h0]
    simp [step, rest, SerialInterface.next, hst, hclr]
  by_cases hread : b = false ∧ s.streamSt = .read
  · have h2 : c 2 = ⟨{ s with
        currState := .readRdLoop, txData := mem s.regAddr, regAddr := s.regAddr + 1,
        bitCnt := 1 }, det, s.regAddr, mem s.regAddr⟩ := by
      rw [hc 1 (by omega), h1]
      simp [step, SerialInterface.next, hread, hclr]
    rw [hc 3 (by omega), hc 2 (by omega), h2]
    simp [step, rest, SerialInterface.next, I2cPort.rise, hst, hread, hclr]
  · have hnot : (if b then StreamSt.idle else s.streamSt) ≠ .read := by
      cases b <;> simp_all
    have h2 : c 2 = ⟨{ s with
        currState := .writeWtHi, streamSt := if b then .idle else s.streamSt, rxData := 0 }, det,
        s.regAddr, mem s.regAddr⟩ := by
      rw [hc 1 (by omega), h1]
      simp [step, SerialInterface.next, hnot, hclr]
    rw [hc 3 (by omega), hc 2 (by omega), h2]
    simp [step, rest, SerialInterface.next, I2cPort.rise, hst, hread, hclr]

/-- **A rising edge** leads from rest to rest. -/
lemma rise_rests (hc : ∀ k < n, c (k + 1) = step mem true b (c k)) (hn : 4 ≤ n)
    (h : p.Low) (h0 : c 0 = rest mem p) : c 4 = rest mem (p.rise mem b) := by
  by_cases hack : p.serial.currState = .readWtAck
  · exact rise_ack hc hn h hack h0
  have h2 : c 2 = rest mem (p.rise mem b) := by
    obtain ⟨s, det⟩ := p
    have hclr := h.clear
    rw [hc 1 (by omega), hc 0 (by omega), h0]
    simp only at hclr hack
    rcases h.state with hst | hst | hst | hst | hst <;> simp only at hst
    · by_cases hcnt : s.bitCnt = 0#3
      all_goals simp [step, rest, SerialInterface.next, I2cPort.rise, hst, hclr, hcnt]
    · exact absurd hst hack
    all_goals simp [step, rest, SerialInterface.next, I2cPort.rise, hst, hclr]
  rw [hc 3 (by omega), hc 2 (by omega), h2, step_high h.rise, step_high h.rise]

end Edge
end EdidCore

end Danmaku
