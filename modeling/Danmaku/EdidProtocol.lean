import Danmaku.I2cWaves
import Danmaku.Lib.WireMemory

/-!
The I2C slave of the EDID memory is a memory on a two-wire bus.

* `eventWaves`: how a master puts an event on the bus.
* `Represents`: the state of the slave in front of an event; `Represents.event`: **every event that
  is allowed shows what the memory shows, and leaves the slave in front of the next one**.
-/

namespace Danmaku

open WireMemory

/-- The waves of an event. -/
def eventWaves : Event → List I2cWave
  | .start => [.level false]
  | .restart => [.bit true, .level false]
  | .stop => [.bit false, .level true]
  | .slot byte ack => (bits byte).map .bit ++ [.bit ack]

namespace I2cState

variable {mem : BitVec 8 → BitVec 8} {x : I2cState}

/-- The state after some waves. -/
def after (mem : BitVec 8 → BitVec 8) (x : I2cState) (ws : List I2cWave) : I2cState :=
  ws.foldl (wave mem) x

/-- The levels of the wire, wave by wave. -/
def views (mem : BitVec 8 → BitVec 8) (x : I2cState) : List I2cWave → List Bool
  | [] => []
  | w :: ws => (x.wave mem w).sda :: views mem (x.wave mem w) ws

@[simp] lemma after_nil : x.after mem [] = x := rfl

@[simp] lemma after_cons (w : I2cWave) (ws : List I2cWave) :
    x.after mem (w :: ws) = (x.wave mem w).after mem ws := rfl

lemma after_append (ws ws' : List I2cWave) :
    x.after mem (ws ++ ws') = (x.after mem ws).after mem ws' :=
  List.foldl_append

lemma views_append (ws ws' : List I2cWave) :
    x.views mem (ws ++ ws') = x.views mem ws ++ (x.after mem ws).views mem ws' := by
  induction ws generalizing x with
  | nil => rfl
  | cons w ws ih => rw [List.cons_append, views, ih, views, List.cons_append, after_cons]

lemma views_length (ws : List I2cWave) : (x.views mem ws).length = ws.length := by
  induction ws generalizing x with
  | nil => rfl
  | cons w ws ih => rw [views, List.length_cons, ih, List.length_cons]

lemma getElem?_views (ws : List I2cWave) {i : ℕ} (hi : i < ws.length) :
    (x.views mem ws)[i]? = some (x.after mem (ws.take (i + 1))).sda := by
  induction ws generalizing x i with
  | nil => exact absurd hi (Nat.not_lt_zero i)
  | cons w ws ih =>
      cases i with
      | zero => rfl
      | succ i => exact ih (Nat.lt_of_succ_lt_succ hi)

end I2cState

/-! ### A slave in front of an event -/

/-- In front of an event the slave is in one of these states. -/
def Represents (mem : BitVec 8 → BitVec 8) (x : I2cState) (s : State) : Prop :=
  x.port.High ∧
    match s.mode with
    | .free => x.sda = true ∧ x.port.serial.sdaOut = true ∧ x.port.serial.regAddr = s.ptr
    | .called =>
        x.port.serial.currState = .writeWtLo ∧ x.port.serial.streamSt = .idle
          ∧ x.port.serial.sdaOut = true ∧ x.port.serial.bitCnt = 0 ∧ x.port.det = .start
          ∧ x.port.serial.regAddr = s.ptr
    | .aloof =>
        (x.port.serial.currState = .writeWtLo ∨ x.port.serial.currState = .writeWtLo2)
          ∧ x.port.serial.streamSt = .idle ∧ x.port.serial.sdaOut = true ∧ x.port.det = .null
          ∧ x.port.serial.regAddr = s.ptr
    | .pointer =>
        x.port.serial.currState = .writeWtLo2 ∧ x.port.serial.streamSt = .writeAddr
          ∧ x.port.det = .null ∧ x.port.serial.regAddr = s.ptr
    | .data =>
        x.port.serial.currState = .writeWtLo2 ∧ x.port.serial.streamSt = .writeData
          ∧ x.port.det = .null ∧ x.port.serial.regAddr = s.ptr
    | .send =>
        x.port.serial.streamSt = .read ∧ x.port.det = .null
          ∧ (x.port.serial.currState = .writeWtLo2 ∧ x.port.serial.regAddr = s.ptr
            ∨ x.port.serial.currState = .readRdLoop ∧ x.port.serial.txData = mem s.ptr
              ∧ x.port.serial.bitCnt = 1 ∧ x.port.serial.regAddr = s.ptr + 1)

section Marks

variable {mem : BitVec 8 → BitVec 8} {x : I2cState} {ptr : BitVec 8}

/-- A slave that waits for the first bit of a byte, or takes one, leaves the wire to the master. -/
structure Released (p : I2cPort) (ptr : BitVec 8) : Prop where
  state : p.serial.currState = .writeWtHi ∨ p.serial.currState = .writeStLoop
  sdaOut : p.serial.sdaOut = true
  regAddr : p.serial.regAddr = ptr

/-- Unless it sends, the slave releases the wire when `scl` falls. -/
lemma Represents.released {s : State} (h : Represents mem x s) (hmode : s.mode ≠ .free)
    (hsend : s.mode ≠ .send) : Released (x.port.fall mem) s.ptr := by
  obtain ⟨⟨p, det⟩, b⟩ := x
  obtain ⟨mode, ptr⟩ := s
  obtain ⟨-, h⟩ := h
  cases mode
  case free => exact absurd rfl hmode
  case send => exact absurd rfl hsend
  case called =>
    obtain ⟨hst, hstream, hout, hcnt, hdet, hreg⟩ := h
    simp only at hst hstream hout hcnt hdet hreg
    subst hdet
    constructor <;> simp [I2cPort.fall, hst, hstream, SerialInterface.firstBit, hout, hreg]
  case aloof =>
    obtain ⟨hst | hst, hstream, hout, hdet, hreg⟩ := h
    all_goals
      simp only at hst hstream hout hdet hreg
      subst hdet
      constructor <;> simp [I2cPort.fall, hst, hstream, SerialInterface.firstBit, hout, hreg]
  case pointer | data =>
    obtain ⟨hst, hstream, hdet, hreg⟩ := h
    simp only at hst hstream hdet hreg
    constructor <;> simp [I2cPort.fall, hst, hstream, hreg]

variable (mem) in
/-- The rising edge changes neither the wire nor the pointer. -/
lemma Released.rise {p : I2cPort} (h : Released p ptr) (b : Bool) :
    (p.rise mem b).serial.sdaOut = true ∧ (p.rise mem b).serial.regAddr = ptr := by
  obtain ⟨hst | hst, hout, hreg⟩ := h <;> simp [I2cPort.rise, hst, hout, hreg]

/-- Behind a START the slave listens for an address. -/
lemma represents_started (p : I2cPort) (hreg : p.serial.regAddr = ptr) :
    Represents mem ⟨p.started, false⟩ ⟨.called, ptr⟩ :=
  ⟨I2cPort.High.started p, rfl, rfl, rfl, rfl, rfl, hreg⟩

lemma Represents.start {s : State} (h : Represents mem x s) (hfree : s.mode = .free) :
    Represents mem (x.after mem (eventWaves .start)) ⟨.called, s.ptr⟩
      ∧ x.views mem (eventWaves .start) = [false] := by
  obtain ⟨mode, ptr⟩ := s
  subst hfree
  obtain ⟨-, hsda, -, hreg⟩ := h
  have hwave : x.wave mem (.level false) = ⟨x.port.started, false⟩ := by
    simp [I2cState.wave, I2cPort.change, hsda]
  simp only [eventWaves, I2cState.after_cons, I2cState.after_nil, I2cState.views, hwave]
  exact ⟨represents_started _ hreg, trivial⟩

lemma Represents.restart {s : State} (h : Represents mem x s) (hmode : s.mode ≠ .free)
    (hsend : s.mode ≠ .send) :
    Represents mem (x.after mem (eventWaves .restart)) ⟨.called, s.ptr⟩
      ∧ x.views mem (eventWaves .restart) = [true, false] := by
  have hrel := h.released hmode hsend
  obtain ⟨hout, hreg⟩ := hrel.rise mem true
  have hbit : x.wave mem (.bit true) = ⟨(x.port.fall mem).rise mem true, true⟩ := by
    simp [I2cState.wave, hrel.sdaOut]
  have hwave : (⟨(x.port.fall mem).rise mem true, true⟩ : I2cState).wave mem (.level false)
      = ⟨((x.port.fall mem).rise mem true).started, false⟩ := by
    simp [I2cState.wave, I2cPort.change]
  simp only [eventWaves, I2cState.after_cons, I2cState.after_nil, I2cState.views, hbit, hwave]
  exact ⟨represents_started _ hreg, trivial⟩

lemma Represents.stop {s : State} (h : Represents mem x s) (hmode : s.mode ≠ .free)
    (hsend : s.mode ≠ .send) :
    Represents mem (x.after mem (eventWaves .stop)) ⟨.free, s.ptr⟩
      ∧ x.views mem (eventWaves .stop) = [false, true] := by
  have hrel := h.released hmode hsend
  obtain ⟨hout, hreg⟩ := hrel.rise mem false
  have hhigh : ((x.port.fall mem).rise mem false).High := h.1.fall.rise
  have hbit : x.wave mem (.bit false) = ⟨(x.port.fall mem).rise mem false, false⟩ := by
    simp [I2cState.wave]
  have hwave : (⟨(x.port.fall mem).rise mem false, false⟩ : I2cState).wave mem (.level true)
      = ⟨{ (x.port.fall mem).rise mem false with det := .stop }, true⟩ := by
    simp [I2cState.wave, I2cPort.change, hout]
  simp only [eventWaves, I2cState.after_cons, I2cState.after_nil, I2cState.views, hbit, hwave]
  exact ⟨⟨⟨hhigh.state, hhigh.clear, hhigh.writeEn⟩, rfl, hout, hreg⟩, trivial⟩

end Marks

/-! ### Bytes that the slave takes -/

section Take

variable {mem : BitVec 8 → BitVec 8} {x : I2cState} {stream : StreamSt} {det : StartStopDet}
  {ptr rx : BitVec 8} {c : BitVec 3}

/-- In the middle of a byte: `c + 1` of its bits are in `rxData`. -/
structure Gathers (stream : StreamSt) (det : StartStopDet) (ptr rx : BitVec 8) (c : BitVec 3)
    (p : I2cPort) : Prop where
  high : p.High
  state : p.serial.currState = .writeLoopWtLo
  streamSt : p.serial.streamSt = stream
  det : p.det = det
  sdaOut : p.serial.sdaOut = true
  regAddr : p.serial.regAddr = ptr
  rxData : p.serial.rxData = rx
  bitCnt : p.serial.bitCnt = c

variable (mem) in
/-- A bit in the middle of a byte. -/
lemma Gathers.bit (h : Gathers stream det ptr rx c x.port) (hc : c ≠ 7) (m : Bool) :
    Gathers stream det ptr (rx.shiftConcat m) (c + 1) (x.wave mem (.bit m)).port
      ∧ (x.wave mem (.bit m)).sda = m := by
  obtain ⟨⟨p, d⟩, b⟩ := x
  obtain ⟨hhigh, hst, rfl, rfl, hout, rfl, rfl, rfl⟩ := h
  simp only at hst hout hc
  have hc' : ¬p.bitCnt = 7#3 := hc
  refine ⟨⟨hhigh.fall.rise, ?_, ?_, ?_, ?_, ?_, ?_, ?_⟩, ?_⟩ <;>
    simp [I2cState.wave, I2cPort.fall, I2cPort.rise, hst, hc', hout]

variable (mem) in
/-- Some bits in the middle of a byte. -/
lemma Gathers.bits (ms : List Bool) (h : Gathers stream det ptr rx c x.port)
    (hc : c.toNat + ms.length ≤ 7) :
    Gathers stream det ptr (ms.foldl BitVec.shiftConcat rx) (c + BitVec.ofNat 3 ms.length)
        (x.after mem (ms.map .bit)).port
      ∧ x.views mem (ms.map .bit) = ms := by
  induction ms generalizing x rx c with
  | nil => exact ⟨by simpa using h, rfl⟩
  | cons m ms ih =>
      rw [List.length_cons] at hc
      have hne : c ≠ 7 := by
        rintro rfl
        simp at hc
      have hsucc : (c + 1).toNat = c.toNat + 1 := by
        rw [BitVec.toNat_add, show (1 : BitVec 3).toNat = 1 from rfl, Nat.mod_eq_of_lt (by omega)]
      obtain ⟨hbit, hview⟩ := h.bit mem hne m
      obtain ⟨hbits, hviews⟩ := ih hbit (by omega)
      refine ⟨?_, ?_⟩
      · rw [List.map_cons, I2cState.after_cons, List.foldl_cons, List.length_cons,
          show c + BitVec.ofNat 3 (ms.length + 1) = c + 1 + BitVec.ofNat 3 ms.length by
            rw [BitVec.add_assoc, Nat.add_comm, BitVec.ofNat_add]; rfl]
        exact hbits
      · rw [List.map_cons, I2cState.views, hview, hviews]

/-- Eight bits shifted in are the byte. -/
lemma foldl_shiftConcat (rx byte : BitVec 8) : (bits byte).foldl BitVec.shiftConcat rx = byte := by
  refine BitVec.eq_of_getLsbD_eq fun i hi => ?_
  simp only [bits, List.foldl_cons, List.foldl_nil, BitVec.getLsbD_shiftConcat]
  interval_cases i <;> simp

/-- The first bit behind a START. -/
lemma Represents.called_bit (h : Represents mem x ⟨.called, ptr⟩) (m : Bool) :
    Gathers .idle .start ptr ((0 : BitVec 8).shiftConcat m) 0 (x.wave mem (.bit m)).port
      ∧ (x.wave mem (.bit m)).sda = m := by
  obtain ⟨⟨p, d⟩, b⟩ := x
  obtain ⟨hhigh, hst, hstream, hout, hcnt, hdet, hreg⟩ := h
  simp only at hst hstream hout hcnt hdet hreg
  subst hdet
  refine ⟨⟨hhigh.fall.rise, ?_, ?_, ?_, ?_, ?_, ?_, ?_⟩, ?_⟩ <;>
    simp [I2cState.wave, I2cPort.fall, I2cPort.rise, SerialInterface.firstBit, hst, hstream, hout,
      hcnt, hreg]

variable (mem) in
/-- The first two bits of a byte behind an acknowledgement. -/
lemma next_bits (hhigh : x.port.High) (hst : x.port.serial.currState = .writeWtLo2)
    (hstream : x.port.serial.streamSt = stream) (htake : stream = .writeAddr ∨ stream = .writeData)
    (hdet : x.port.det = .null) (hreg : x.port.serial.regAddr = ptr) (m m' : Bool) :
    Gathers stream .null ptr (((0 : BitVec 8).shiftConcat m).shiftConcat m') 1
        (x.after mem [.bit m, .bit m']).port
      ∧ x.views mem [.bit m, .bit m'] = [m, m'] := by
  have hhigh' : (x.after mem [.bit m, .bit m']).port.High :=
    I2cState.high_wave mem (I2cState.high_wave mem hhigh (.bit m)) (.bit m')
  obtain ⟨⟨p, d⟩, b⟩ := x
  simp only at hst hstream hdet hreg
  subst hdet hstream hreg
  have hnot : p.streamSt ≠ .read ∧ p.streamSt ≠ .idle := by
    rcases htake with h | h <;> simp [h]
  refine ⟨⟨hhigh', ?_, ?_, ?_, ?_, ?_, ?_, ?_⟩, ?_⟩ <;>
    simp [I2cState.views, I2cState.wave, I2cPort.fall, I2cPort.rise, SerialInterface.firstBit, hst,
      hnot]

variable (mem) in
/-- The end of an address. -/
lemma Gathers.ack_called (h : Gathers .idle .start ptr rx 7 x.port) (m : Bool) :
    Represents mem (x.wave mem (.bit m)) (step i2cAddress ⟨.called, ptr⟩ (.slot rx m))
      ∧ (x.wave mem (.bit m)).sda = (m && !addressed i2cAddress rx) := by
  have hhigh' := I2cState.high_wave mem h.high (.bit m)
  obtain ⟨⟨p, d⟩, b⟩ := x
  obtain ⟨hhigh, hst, hstream, rfl, hout, rfl, rfl, hcnt⟩ := h
  have hen := hhigh.writeEn
  simp only at hst hstream hout hcnt hen
  by_cases haddr : addressed i2cAddress p.rxData
  · have haddr' : p.rxData.extractLsb' 1 7 = i2cAddress := by simpa [addressed] using haddr
    cases hdir : p.rxData[0]
    all_goals
      refine ⟨⟨hhigh', ?_⟩, ?_⟩
      all_goals
        simp [step, I2cState.wave, I2cPort.fall, I2cPort.rise, SerialInterface.byteEnd, hst, hcnt,
          hstream, haddr, haddr', hen, hdir]
  · have haddr' : ¬p.rxData.extractLsb' 1 7 = i2cAddress := by simpa [addressed] using haddr
    refine ⟨⟨hhigh', ?_⟩, ?_⟩
    all_goals
      simp [step, I2cState.wave, I2cPort.fall, I2cPort.rise, SerialInterface.byteEnd, hst, hcnt,
        hstream, haddr, haddr', hen]

variable (mem) in
/-- The end of a pointer. -/
lemma Gathers.ack_pointer (h : Gathers .writeAddr .null ptr rx 7 x.port) (m : Bool) :
    Represents mem (x.wave mem (.bit m)) ⟨.data, rx⟩ ∧ (x.wave mem (.bit m)).sda = false := by
  have hhigh' := I2cState.high_wave mem h.high (.bit m)
  obtain ⟨⟨p, d⟩, b⟩ := x
  obtain ⟨hhigh, hst, hstream, rfl, hout, rfl, rfl, hcnt⟩ := h
  have hen := hhigh.writeEn
  simp only at hst hstream hout hcnt hen
  refine ⟨⟨hhigh', ?_⟩, ?_⟩
  all_goals
    simp [I2cState.wave, I2cPort.fall, I2cPort.rise, SerialInterface.byteEnd, hst, hcnt, hstream,
      hen]

variable (mem) in
/-- The end of a byte of data, which the memory does not take: only the pointer moves. -/
lemma Gathers.ack_data (h : Gathers .writeData .null ptr rx 7 x.port) (m : Bool) :
    Represents mem (x.wave mem (.bit m)) ⟨.data, ptr + 1⟩
      ∧ (x.wave mem (.bit m)).sda = false := by
  have hhigh' := I2cState.high_wave mem h.high (.bit m)
  obtain ⟨⟨p, d⟩, b⟩ := x
  obtain ⟨hhigh, hst, hstream, rfl, hout, rfl, rfl, hcnt⟩ := h
  simp only at hst hstream hout hcnt
  refine ⟨⟨hhigh', ?_⟩, ?_⟩
  all_goals
    simp [I2cState.wave, I2cPort.fall, I2cPort.rise, SerialInterface.byteEnd, hst, hcnt, hstream]

/-- An address goes over the bus. -/
lemma Represents.slot_called (h : Represents mem x ⟨.called, ptr⟩) (byte : BitVec 8) (m : Bool) :
    Represents mem (x.after mem (eventWaves (.slot byte m)))
        (step i2cAddress ⟨.called, ptr⟩ (.slot byte m))
      ∧ x.views mem (eventWaves (.slot byte m))
          = bits byte ++ [m && !addressed i2cAddress byte] := by
  obtain ⟨m₀, ms, hbits, hlen⟩ : ∃ m₀ ms, bits byte = m₀ :: ms ∧ ms.length = 7 := ⟨_, _, rfl, rfl⟩
  obtain ⟨hfirst, hsda⟩ := h.called_bit m₀
  obtain ⟨hrest, hviews⟩ := hfirst.bits mem ms (by simp [hlen])
  have hbyte : ms.foldl BitVec.shiftConcat ((0 : BitVec 8).shiftConcat m₀) = byte := by
    rw [← List.foldl_cons, ← hbits, foldl_shiftConcat]
  rw [hbyte, hlen] at hrest
  obtain ⟨hend, hack⟩ := Gathers.ack_called mem hrest m
  rw [eventWaves, hbits, List.map_cons, List.cons_append, I2cState.after_cons,
    I2cState.after_append, I2cState.views, I2cState.views_append, hviews, hsda]
  exact ⟨hend, by rw [I2cState.views, hack]; rfl⟩

variable (mem) in
/-- A byte behind an acknowledgement goes over the bus. -/
lemma slot_next (hhigh : x.port.High) (hst : x.port.serial.currState = .writeWtLo2)
    (hstream : x.port.serial.streamSt = stream) (htake : stream = .writeAddr ∨ stream = .writeData)
    (hdet : x.port.det = .null) (hreg : x.port.serial.regAddr = ptr) (byte : BitVec 8) :
    Gathers stream .null ptr byte 7 (x.after mem ((bits byte).map .bit)).port
      ∧ x.views mem ((bits byte).map .bit) = bits byte := by
  obtain ⟨m₀, m₁, ms, hbits, hlen⟩ : ∃ m₀ m₁ ms, bits byte = m₀ :: m₁ :: ms ∧ ms.length = 6 :=
    ⟨_, _, _, rfl, rfl⟩
  obtain ⟨hfirst, hsda⟩ := next_bits mem hhigh hst hstream htake hdet hreg m₀ m₁
  obtain ⟨hrest, hviews⟩ := hfirst.bits mem ms (by simp [hlen])
  have hbyte : ms.foldl BitVec.shiftConcat (((0 : BitVec 8).shiftConcat m₀).shiftConcat m₁)
      = byte := by
    rw [← List.foldl_cons, ← List.foldl_cons, ← hbits, foldl_shiftConcat]
  rw [hbyte, hlen] at hrest
  have hsplit : (m₀ :: m₁ :: ms).map I2cWave.bit = [.bit m₀, .bit m₁] ++ ms.map .bit := rfl
  rw [hbits, hsplit, I2cState.after_append, I2cState.views_append, hviews, hsda]
  exact ⟨hrest, rfl⟩

lemma Represents.slot_pointer (h : Represents mem x ⟨.pointer, ptr⟩) (byte : BitVec 8) (m : Bool) :
    Represents mem (x.after mem (eventWaves (.slot byte m))) ⟨.data, byte⟩
      ∧ x.views mem (eventWaves (.slot byte m)) = bits byte ++ [false] := by
  obtain ⟨hhigh, hst, hstream, hdet, hreg⟩ := h
  obtain ⟨hbyte, hviews⟩ := slot_next mem hhigh hst hstream (Or.inl rfl) hdet hreg byte
  obtain ⟨hend, hack⟩ := hbyte.ack_pointer mem m
  rw [eventWaves, I2cState.after_append, I2cState.views_append, hviews, I2cState.views, hack]
  exact ⟨hend, rfl⟩

lemma Represents.slot_data (h : Represents mem x ⟨.data, ptr⟩) (byte : BitVec 8) (m : Bool) :
    Represents mem (x.after mem (eventWaves (.slot byte m))) ⟨.data, ptr + 1⟩
      ∧ x.views mem (eventWaves (.slot byte m)) = bits byte ++ [false] := by
  obtain ⟨hhigh, hst, hstream, hdet, hreg⟩ := h
  obtain ⟨hbyte, hviews⟩ := slot_next mem hhigh hst hstream (Or.inr rfl) hdet hreg byte
  obtain ⟨hend, hack⟩ := hbyte.ack_data mem m
  rw [eventWaves, I2cState.after_append, I2cState.views_append, hviews, I2cState.views, hack]
  exact ⟨hend, rfl⟩

end Take

/-! ### Bytes for others, and bytes that the slave sends -/

section Send

variable {mem : BitVec 8 → BitVec 8} {x : I2cState} {ptr t : BitVec 8} {c : BitVec 3}

/-- A slave that is not addressed lets every bit pass. -/
lemma Represents.aloof_bit (h : Represents mem x ⟨.aloof, ptr⟩) (m : Bool) :
    Represents mem (x.wave mem (.bit m)) ⟨.aloof, ptr⟩ ∧ (x.wave mem (.bit m)).sda = m := by
  have hhigh' := I2cState.high_wave mem h.1 (.bit m)
  obtain ⟨⟨p, d⟩, b⟩ := x
  obtain ⟨-, hst | hst, hstream, hout, hdet, hreg⟩ := h
  all_goals
    simp only at hst hstream hout hdet hreg
    subst hdet
    refine ⟨⟨hhigh', ?_⟩, ?_⟩
    all_goals
      simp [I2cState.wave, I2cPort.fall, I2cPort.rise, SerialInterface.firstBit, hst, hstream,
        hout, hreg]

lemma Represents.aloof_bits (h : Represents mem x ⟨.aloof, ptr⟩) (ms : List Bool) :
    Represents mem (x.after mem (ms.map .bit)) ⟨.aloof, ptr⟩
      ∧ x.views mem (ms.map .bit) = ms := by
  induction ms generalizing x with
  | nil => exact ⟨h, rfl⟩
  | cons m ms ih =>
      obtain ⟨hbit, hsda⟩ := h.aloof_bit m
      obtain ⟨hbits, hviews⟩ := ih hbit
      refine ⟨hbits, ?_⟩
      rw [List.map_cons, I2cState.views, hsda, hviews]

/-- In the middle of a byte that is sent: `t` is what is left of it, and `c` counts its bits. -/
structure Sends (ptr t : BitVec 8) (c : BitVec 3) (p : I2cPort) : Prop where
  high : p.High
  state : p.serial.currState = .readRdLoop
  streamSt : p.serial.streamSt = .read
  det : p.det = .null
  regAddr : p.serial.regAddr = ptr
  txData : p.serial.txData = t
  bitCnt : p.serial.bitCnt = c

/-- What the wire shows of bits that are sent while the master makes it `ms`. -/
def shown (t : BitVec 8) : List Bool → List Bool
  | [] => []
  | m :: ms => (m && t.getLsbD 7) :: shown (t.shiftConcat false) ms

lemma shown_append (t : BitVec 8) (ms ms' : List Bool) :
    shown t (ms ++ ms')
      = shown t ms ++ shown (ms.foldl (fun t _ => t.shiftConcat false) t) ms' := by
  induction ms generalizing t with
  | nil => rfl
  | cons m ms ih => rw [List.cons_append, shown, ih, shown, List.cons_append, List.foldl_cons]

lemma shown_bits (v byte : BitVec 8) : shown v (bits byte) = bits (byte &&& v) := by
  simp [shown, bits]

variable (mem) in
/-- A bit that is not the last one. -/
lemma Sends.bit (h : Sends ptr t c x.port) (hc : c ≠ 0) (m : Bool) :
    Sends ptr (t.shiftConcat false) (c + 1) (x.wave mem (.bit m)).port
      ∧ (x.wave mem (.bit m)).sda = (m && t.getLsbD 7) := by
  obtain ⟨⟨p, d⟩, b⟩ := x
  obtain ⟨hhigh, hst, hstream, rfl, rfl, rfl, rfl⟩ := h
  simp only at hst hstream hc
  have hc' : ¬p.bitCnt = 0#3 := hc
  refine ⟨⟨hhigh.fall.rise, ?_, ?_, ?_, ?_, ?_, ?_⟩, ?_⟩ <;>
    simp [I2cState.wave, I2cPort.fall, I2cPort.rise, hst, hstream, hc']

variable (mem) in
/-- All the bits but the last. -/
lemma Sends.bits (ms : List Bool) (h : Sends ptr t c x.port) (hpos : c ≠ 0)
    (hc : c.toNat + ms.length ≤ 8) :
    Sends ptr (ms.foldl (fun t _ => t.shiftConcat false) t) (c + BitVec.ofNat 3 ms.length)
        (x.after mem (ms.map .bit)).port
      ∧ x.views mem (ms.map .bit) = shown t ms := by
  induction ms generalizing x t c with
  | nil => exact ⟨by simpa using h, rfl⟩
  | cons m ms ih =>
      rw [List.length_cons] at hc
      obtain ⟨hbit, hview⟩ := h.bit mem hpos m
      have hnext : Sends ptr (ms.foldl (fun t _ => t.shiftConcat false) (t.shiftConcat false))
            (c + 1 + BitVec.ofNat 3 ms.length)
            ((x.wave mem (.bit m)).after mem (ms.map .bit)).port
          ∧ (x.wave mem (.bit m)).views mem (ms.map .bit) = shown (t.shiftConcat false) ms := by
        cases ms with
        | nil => exact ⟨by simpa using hbit, rfl⟩
        | cons m' ms =>
            rw [List.length_cons] at hc
            have hsucc : (c + 1).toNat = c.toNat + 1 := by
              rw [BitVec.toNat_add, show (1 : BitVec 3).toNat = 1 from rfl,
                Nat.mod_eq_of_lt (by omega)]
            refine ih hbit (fun hzero => ?_) (by rw [hsucc, List.length_cons]; omega)
            rw [hzero] at hsucc
            simp at hsucc
      refine ⟨?_, ?_⟩
      · rw [List.map_cons, I2cState.after_cons, List.foldl_cons, List.length_cons,
          show c + BitVec.ofNat 3 (ms.length + 1) = c + 1 + BitVec.ofNat 3 ms.length by
            rw [BitVec.add_assoc, Nat.add_comm, BitVec.ofNat_add]; rfl]
        exact hnext.1
      · rw [List.map_cons, I2cState.views, hview, hnext.2, shown]

/-- The first bit of a byte that is sent. -/
lemma Represents.send_bit (h : Represents mem x ⟨.send, ptr⟩) (m : Bool) :
    Sends (ptr + 1) ((mem ptr).shiftConcat false) 2 (x.wave mem (.bit m)).port
      ∧ (x.wave mem (.bit m)).sda = (m && (mem ptr).getLsbD 7) := by
  have hhigh' := I2cState.high_wave mem h.1 (.bit m)
  obtain ⟨⟨p, d⟩, b⟩ := x
  obtain ⟨-, hstream, hdet, ⟨hst, hreg⟩ | ⟨hst, htx, hcnt, hreg⟩⟩ := h
  · simp only at hst hstream hdet hreg
    subst hdet hreg
    refine ⟨⟨hhigh', ?_, ?_, ?_, ?_, ?_, ?_⟩, ?_⟩ <;>
      simp [I2cState.wave, I2cPort.fall, I2cPort.rise, hst, hstream]
  · simp only at hst hstream hdet htx hcnt hreg
    subst hdet
    refine ⟨⟨hhigh', ?_, ?_, ?_, ?_, ?_, ?_⟩, ?_⟩ <;>
      simp [I2cState.wave, I2cPort.fall, I2cPort.rise, hst, hstream, htx, hcnt, hreg]

variable (mem) in
/-- The last bit of a byte that is sent, and the master's acknowledgement. -/
lemma Sends.ack (h : Sends (ptr + 1) t 0 x.port) (m m' : Bool) :
    Represents mem (x.after mem [.bit m, .bit m']) ⟨if m' then .aloof else .send, ptr + 1⟩
      ∧ x.views mem [.bit m, .bit m'] = [m && t.getLsbD 7, m'] := by
  have hhigh' : (x.after mem [.bit m, .bit m']).port.High :=
    I2cState.high_wave mem (I2cState.high_wave mem h.high (.bit m)) (.bit m')
  obtain ⟨⟨p, d⟩, b⟩ := x
  obtain ⟨hhigh, hst, hstream, rfl, hreg, rfl, hcnt⟩ := h
  simp only at hst hstream hreg hcnt
  cases m'
  all_goals
    refine ⟨⟨hhigh', ?_⟩, ?_⟩
    all_goals
      simp [I2cState.views, I2cState.wave, I2cPort.fall, I2cPort.rise, hst, hstream, hreg, hcnt]

lemma Represents.slot_send (h : Represents mem x ⟨.send, ptr⟩) (byte : BitVec 8) (m : Bool) :
    Represents mem (x.after mem (eventWaves (.slot byte m)))
        ⟨if m then .aloof else .send, ptr + 1⟩
      ∧ x.views mem (eventWaves (.slot byte m)) = bits (byte &&& mem ptr) ++ [m] := by
  obtain ⟨m₀, ms, m₇, hbits, hlen⟩ :
      ∃ m₀ ms m₇, bits byte = m₀ :: (ms ++ [m₇]) ∧ ms.length = 6 :=
    ⟨_, [_, _, _, _, _, _], _, rfl, rfl⟩
  obtain ⟨hfirst, hsda⟩ := h.send_bit m₀
  obtain ⟨hrest, hviews⟩ := hfirst.bits mem ms (by decide) (by simp [hlen])
  rw [hlen] at hrest
  obtain ⟨hend, hack⟩ := hrest.ack mem m₇ m
  have hwaves : eventWaves (.slot byte m)
      = [.bit m₀] ++ (ms.map .bit ++ [.bit m₇, .bit m]) := by
    rw [eventWaves, hbits]
    simp
  have hshown := shown_bits (mem ptr) byte
  rw [hbits, shown, shown_append] at hshown
  rw [hwaves, I2cState.after_append, I2cState.after_append, I2cState.views_append,
    I2cState.views_append]
  refine ⟨hend, ?_⟩
  have hafter : x.after mem [.bit m₀] = x.wave mem (.bit m₀) := rfl
  have hview : x.views mem [.bit m₀] = [(x.wave mem (.bit m₀)).sda] := rfl
  rw [hafter, hview, hsda, hviews, hack, ← hshown]
  simp [shown]

/-- **Every event that is allowed** shows what the memory shows and leads in front of the next. -/
theorem Represents.event {s : State} (h : Represents mem x s) {ev : Event}
    (hev : s.mode.Allowed ev) :
    Represents mem (x.after mem (eventWaves ev)) (step i2cAddress s ev)
      ∧ x.views mem (eventWaves ev) = seen i2cAddress mem s ev := by
  obtain ⟨mode, ptr⟩ := s
  cases ev with
  | start => exact h.start hev
  | restart => exact h.restart hev.1 hev.2
  | stop => exact h.stop hev.1 hev.2
  | slot byte m =>
      cases mode with
      | free => exact absurd rfl hev
      | called => exact h.slot_called byte m
      | aloof =>
          obtain ⟨hbits, hviews⟩ := h.aloof_bits (bits byte ++ [m])
          rw [List.map_append] at hbits hviews
          exact ⟨hbits, hviews⟩
      | pointer => exact h.slot_pointer byte m
      | data => exact h.slot_data byte m
      | send => exact h.slot_send byte m

/-- **A run of events.** -/
theorem Represents.events {s : State} (evs : List Event) (h : Represents mem x s)
    (hevs : AllAllowed i2cAddress s evs) :
    Represents mem (x.after mem (evs.flatMap eventWaves)) (run i2cAddress s evs)
      ∧ x.views mem (evs.flatMap eventWaves) = seenAll i2cAddress mem s evs := by
  induction evs generalizing x s with
  | nil => exact ⟨h, rfl⟩
  | cons ev evs ih =>
      obtain ⟨hnext, hseen⟩ := h.event hevs.1
      obtain ⟨hrest, hseenAll⟩ := ih hnext hevs.2
      rw [List.flatMap_cons, I2cState.after_append, I2cState.views_append, hseen, hseenAll]
      exact ⟨hrest, rfl⟩

end Send

end Danmaku
