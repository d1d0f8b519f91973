import Mathlib.Tactic

/-!
`serialInterface`: the state machine of the I2C slave that serves the EDID memory.

It takes bytes in and gives bytes out one bit for each pulse of the delayed `scl`, and works
through its transient states in the clocks right after an edge.

* `SerialInterface.next`, `clock`: the combinational part and the registers.
* `SerialInterface.Sound`: what the registers that a state does not use hold, in every run
  (`Sound.clock`).
-/

namespace Danmaku

/-- `startStopDetState`. -/
inductive StartStopDet
  | null
  | start
  | stop
  deriving DecidableEq, Repr

/-- `streamSt`. -/
inductive StreamSt
  | idle
  | read
  | writeAddr
  | writeData
  deriving DecidableEq, Repr

/-- `CurrState_SISt`. -/
inductive SISt
  | start
  | chkRdWr
  | readRdLoop
  | readWtHi
  | readChkLoopFin
  | readWtLo
  | readWtAck
  | writeWtLo
  | writeWtHi
  | writeChkLoopFin
  | writeLoopWtLo
  | writeStLoop
  | writeWtLo2
  | writeWtHi2
  | writeClrWr
  | writeClrStStop
  deriving DecidableEq, Repr

/-- `I2C_ADDRESS`. -/
def i2cAddress : BitVec 7 := 0x50

/-- The registers of `serialInterface`. -/
structure SerialInterface where
  currState : SISt
  streamSt : StreamSt
  txData : BitVec 8
  rxData : BitVec 8
  sdaOut : Bool
  writeEn : Bool
  dataOut : BitVec 8
  bitCnt : BitVec 3
  clearStartStopDet : Bool
  regAddr : BitVec 8
  deriving DecidableEq, Repr

namespace SerialInterface

/-- The `case (startStopDetState)` that both branches of `WRITE_WT_LO` begin with. -/
def firstBit (det : StartStopDet) (s : SerialInterface) : SerialInterface :=
  match det with
  | .null => { s with bitCnt := s.bitCnt + 1 }
  | .start => { s with streamSt := .idle, rxData := 0 }
  | .stop => s

/-- The end of a byte in `WRITE_CHK_LOOP_FIN`: what becomes of it, and whether it is
acknowledged. -/
def byteEnd (det : StartStopDet) (s : SerialInterface) : SerialInterface :=
  match s.streamSt with
  | .idle =>
      if s.rxData.extractLsb' 1 7 = i2cAddress ∧ det = .start then
        { s with
          sdaOut := false
          streamSt := if s.rxData.getLsbD 0 then .read else .writeAddr }
      else { s with sdaOut := true }
  | .writeAddr => { s with sdaOut := false, streamSt := .writeData, regAddr := s.rxData }
  | .writeData => { s with sdaOut := false, dataOut := s.rxData, writeEn := true }
  | .read => { s with sdaOut := false }

/-- The next values of the registers outside a reset. -/
def next (dataIn : BitVec 8) (scl sdaIn : Bool) (det : StartStopDet) (s : SerialInterface) :
    SerialInterface :=
  match s.currState with
  | .start =>
      { s with
        streamSt := .idle
        txData := 0
        rxData := 0
        sdaOut := true
        writeEn := false
        dataOut := 0
        bitCnt := 0
        clearStartStopDet := false
        currState := .chkRdWr }
  | .chkRdWr =>
      if s.streamSt = .read then
        { s with
          currState := .readRdLoop
          txData := dataIn
          regAddr := s.regAddr + 1
          bitCnt := 1 }
      else { s with currState := .writeWtHi, rxData := 0 }
  | .readRdLoop =>
      if scl = false then
        { s with
          currState := .readWtHi
          sdaOut := s.txData.getLsbD 7
          txData := s.txData.shiftConcat false }
      else s
  | .readWtHi => if scl = true then { s with currState := .readChkLoopFin } else s
  | .readChkLoopFin =>
      if s.bitCnt = 0 then { s with currState := .readWtLo }
      else { s with currState := .readRdLoop, bitCnt := s.bitCnt + 1 }
  | .readWtLo => if scl = false then { s with currState := .readWtAck, sdaOut := true } else s
  | .readWtAck =>
      if scl = true then
        { s with currState := .chkRdWr, streamSt := if sdaIn then .idle else s.streamSt }
      else s
  | .writeWtLo =>
      if scl = false ∧ (det = .stop ∨ s.streamSt = .idle ∧ det = .null) then
        { firstBit det s with
          currState := .writeClrStStop
          streamSt := .idle
          clearStartStopDet := true }
      else if scl = false then { firstBit det s with currState := .writeStLoop }
      else s
  | .writeWtHi =>
      if scl = true then
        { s with currState := .writeWtLo, rxData := s.rxData.shiftConcat sdaIn, bitCnt := 0 }
      else s
  | .writeChkLoopFin =>
      if s.bitCnt = 7 then { byteEnd det s with currState := .writeClrWr }
      else { s with currState := .writeStLoop, bitCnt := s.bitCnt + 1 }
  | .writeLoopWtLo => if scl = false then { s with currState := .writeChkLoopFin } else s
  | .writeStLoop =>
      if scl = true then
        { s with currState := .writeLoopWtLo, rxData := s.rxData.shiftConcat sdaIn }
      else s
  | .writeWtLo2 => if scl = false then { s with currState := .chkRdWr, sdaOut := true } else s
  | .writeWtHi2 =>
      if scl = true then { s with currState := .writeWtLo2, clearStartStopDet := false }
      else { s with clearStartStopDet := false }
  | .writeClrWr =>
      { s with
        regAddr := if s.writeEn then s.regAddr + 1 else s.regAddr
        writeEn := false
        clearStartStopDet := true
        currState := .writeWtHi2 }
  | .writeClrStStop => { s with clearStartStopDet := false, currState := .chkRdWr }

/-- The registers after `rst`; `regAddr` keeps its value. -/
def reset (s : SerialInterface) : SerialInterface :=
  { s with
    currState := .start
    sdaOut := true
    writeEn := false
    dataOut := 0
    clearStartStopDet := false
    streamSt := .idle
    txData := 0
    rxData := 0
    bitCnt := 0 }

/-- One clock. -/
def clock (rst : Bool) (dataIn : BitVec 8) (scl sdaIn : Bool) (det : StartStopDet)
    (s : SerialInterface) : SerialInterface :=
  if rst then s.reset else s.next dataIn scl sdaIn det

/-- The end of a byte does not look at the state. -/
lemma byteEnd_currState (det : StartStopDet) (s : SerialInterface) (st : SISt) :
    byteEnd det { s with currState := st } = { byteEnd det s with currState := st } := by
  cases hstream : s.streamSt <;> simp only [byteEnd, hstream]
  split <;> rfl

lemma byteEnd_clearStartStopDet (det : StartStopDet) (s : SerialInterface) :
    (byteEnd det s).clearStartStopDet = s.clearStartStopDet := by
  cases hstream : s.streamSt <;> simp only [byteEnd, hstream]
  split <;> rfl

lemma firstBit_clearStartStopDet (det : StartStopDet) (s : SerialInterface) :
    (firstBit det s).clearStartStopDet = s.clearStartStopDet := by
  cases det <;> rfl

lemma firstBit_regAddr (det : StartStopDet) (s : SerialInterface) :
    (firstBit det s).regAddr = s.regAddr := by
  cases det <;> rfl

lemma next_byteEnd {s : SerialInterface} (hcnt : s.bitCnt = 7) (d : BitVec 8) (scl sda : Bool)
    (det : StartStopDet) :
    next d scl sda det { s with currState := .writeChkLoopFin }
      = { byteEnd det s with currState := .writeClrWr } := by
  simp only [SerialInterface.next, hcnt, if_true]
  rw [← hcnt, byteEnd_currState]

/-! ### What holds in every run -/

/-- The states in which the slave may pull `sda` down. -/
def driving : SISt → Bool
  | .readRdLoop | .readWtHi | .readChkLoopFin | .readWtLo => true
  | .writeClrWr | .writeWtHi2 | .writeWtLo2 => true
  | _ => false

/-- The states that take a byte in, bit by bit. -/
def taking : SISt → Bool
  | .writeWtHi | .writeWtLo | .writeStLoop | .writeLoopWtLo | .writeChkLoopFin => true
  | .writeClrStStop => true
  | _ => false

/-- Registers as every run leaves them. -/
structure Sound (s : SerialInterface) : Prop where
  clear : s.clearStartStopDet = true → s.currState = .writeWtHi2 ∨ s.currState = .writeClrStStop
  writeEn : s.writeEn = true → s.currState = .writeClrWr
  sdaOut : s.sdaOut = false → driving s.currState = true
  streamSt : s.streamSt = .read → taking s.currState = false

lemma Sound.reset (s : SerialInterface) : s.reset.Sound where
  clear := by simp [SerialInterface.reset]
  writeEn := by simp [SerialInterface.reset]
  sdaOut := by simp [SerialInterface.reset]
  streamSt := by simp [SerialInterface.reset]

variable {s : SerialInterface} {d : BitVec 8} {scl sda : Bool} {det : StartStopDet}

lemma Sound.next (h : s.Sound) : (s.next d scl sda det).Sound := by
  obtain ⟨st, stream, tx, rx, out, en, data, cnt, clr, reg⟩ := s
  obtain ⟨hclear, hwrite, hout, hstream⟩ := h
  cases st
  case start => constructor <;> simp [SerialInterface.next]
  case writeWtLo =>
      cases scl <;> cases det <;> constructor <;>
        simp_all [SerialInterface.next, firstBit, driving, taking] <;>
        split <;> simp_all
  case writeChkLoopFin =>
      by_cases hcnt : cnt = 7
      · cases stream
        case idle =>
          by_cases haddr : rx.extractLsb' 1 7 = i2cAddress ∧ det = .start
          all_goals
            constructor <;> simp_all [SerialInterface.next, byteEnd, driving, taking]
          split <;> simp
        all_goals
          constructor <;> simp_all [SerialInterface.next, byteEnd, driving, taking]
      · constructor <;> simp_all [SerialInterface.next, driving, taking]
  all_goals
    cases scl <;> constructor <;> simp_all [SerialInterface.next, driving, taking] <;>
      (try split) <;> simp_all

/-- With `scl` high only the two states that begin and end a byte could change `sdaOut`, and no
other state leads to them. -/
lemma next_high (hst : s.currState ≠ .start ∧ s.currState ≠ .writeChkLoopFin) :
    (s.next d true sda det).sdaOut = s.sdaOut
      ∧ (s.next d true sda det).currState ≠ .start
      ∧ (s.next d true sda det).currState ≠ .writeChkLoopFin := by
  obtain ⟨st, stream, tx, rx, out, en, data, cnt, clr, reg⟩ := s
  cases st
  case chkRdWr => cases stream <;> simp [SerialInterface.next]
  case readChkLoopFin => by_cases hcnt : cnt = 0#3 <;> simp [SerialInterface.next, hcnt]
  all_goals simp_all [SerialInterface.next]

end SerialInterface

end Danmaku
