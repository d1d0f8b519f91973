import Danmaku.EdidProtocol

/-!
What a host sees of the EDID memory on the bus.

* `EdidRuns.FreeAt`: the slave has caught up with a free bus.
* `settled_of_idle`: **whatever the bus has seen before, the slave comes to rest in 50 clocks under
  high lines**; `exists_offWire`: **nine pulses get it off the wire**.
* `Settled.sdaLine_of_waves`: what the wire shows, clock by clock.
-/

namespace Danmaku

open WireMemory

namespace SerialInterface

variable {s : SerialInterface} {d : BitVec 8} {sda : Bool} {det : StartStopDet}

/-- How many clocks a state needs to come to rest under a high `scl`. -/
def restsIn : SISt → ℕ
  | .start | .readWtAck | .writeChkLoopFin | .writeClrStStop => 3
  | .chkRdWr | .readWtHi | .writeClrWr => 2
  | .readChkLoopFin | .writeWtHi | .writeStLoop | .writeWtHi2 => 1
  | _ => 0

lemma restsIn_next : restsIn (s.next d true sda det).currState ≤ restsIn s.currState - 1 := by
  obtain ⟨st, stream, tx, rx, out, en, data, cnt, clr, reg⟩ := s
  cases st
  case chkRdWr => cases stream <;> simp [SerialInterface.next, restsIn]
  case readChkLoopFin => by_cases hcnt : cnt = 0#3 <;> simp [SerialInterface.next, restsIn, hcnt]
  case writeChkLoopFin => by_cases hcnt : cnt = 7#3 <;> simp [SerialInterface.next, restsIn, hcnt]
  all_goals simp [SerialInterface.next, restsIn]

/-- No clock under a high `scl` ends a byte, and only a reset starts the machine again. -/
lemma next_inner : (s.next d true sda det).currState ≠ .start
    ∧ (s.next d true sda det).currState ≠ .writeChkLoopFin := by
  obtain ⟨st, stream, tx, rx, out, en, data, cnt, clr, reg⟩ := s
  cases st
  case chkRdWr => cases stream <;> simp [SerialInterface.next]
  case readChkLoopFin => by_cases hcnt : cnt = 0#3 <;> simp [SerialInterface.next, hcnt]
  case writeChkLoopFin => by_cases hcnt : cnt = 7#3 <;> simp [SerialInterface.next, hcnt]
  all_goals simp [SerialInterface.next]

/-- Under a high `scl` a released wire stays released. -/
lemma sdaOut_clock {rst : Bool} (hst : s.currState ≠ .writeChkLoopFin) (hout : s.sdaOut = true) :
    (s.clock rst d true sda det).sdaOut = true := by
  cases rst
  · by_cases hstart : s.currState = .start
    · simp [clock, SerialInterface.next, hstart]
    · exact (next_high ⟨hstart, hst⟩).1.trans hout
  · rfl

/-- At rest under a high `scl`. -/
lemma next_rest (hrest : restsIn s.currState = 0) : s.next d true sda det = s := by
  obtain ⟨st, stream, tx, rx, out, en, data, cnt, clr, reg⟩ := s
  cases st <;> simp_all [restsIn, SerialInterface.next]

lemma cases_of_restsIn {st : SISt} (hrest : restsIn st = 0) :
    st = .readRdLoop ∨ st = .readWtLo ∨ st = .writeWtLo ∨ st = .writeLoopWtLo
      ∨ st = .writeWtLo2 := by
  cases st <;> simp_all [restsIn]

end SerialInterface

namespace EdidRuns

variable {mem : BitVec 8 → BitVec 8} {pins : ℕ → EdidPins} {σ : ℕ → AvalonSlaveEdid}

/-- Nobody else touches the bus. -/
def Idle (pins : ℕ → EdidPins) (a b : ℕ) : Prop :=
  ∀ u, a ≤ u → u < b → (pins u).scl = true ∧ (pins u).sda = true

section Idle

variable {a b u : ℕ}

lemma serial_next (h : EdidRuns mem pins σ) (u : ℕ) :
    (σ (u + 1)).i2c.serial = (σ u).i2c.serial.clock (σ u).i2c.startEdgeDet (σ u).edid.q
      ((σ u).i2c.sclDelayed.getLsbD (sclDelLen - 1)) (σ u).i2c.sdaDeb
      (σ u).i2c.startStopDetState :=
  congrArg EdidCore.serial (h.core_clock u)

lemma Idle.sclDeb (h : EdidRuns mem pins σ) (hidle : Idle pins a b) (hab : a + 9 ≤ b)
    (hu : a + 11 ≤ u) (hub : u < b + 11) : (σ u).i2c.sclDeb = true :=
  h.sclDeb_eq (fun v hv hvb => (hidle v hv hvb).1) hab hu hub

lemma Idle.sclDelayed (h : EdidRuns mem pins σ) (hidle : Idle pins a b) (hab : a + 9 ≤ b)
    (hu : a + 21 ≤ u) (hub : u < b + 21) :
    (σ u).i2c.sclDelayed.getLsbD (sclDelLen - 1) = true := by
  have hpast := h.sclDelayed_eq (u - 10)
  rw [show u - 10 + 10 = u by omega] at hpast
  exact hpast.trans (hidle.sclDeb h hab (by omega) (by omega))

lemma Idle.state (h : EdidRuns mem pins σ) (hidle : Idle pins a b) (hab : a + 9 ≤ b)
    (hu : a + 22 ≤ u) (hub : u ≤ b + 21) : (σ u).i2c.serial.currState ≠ .writeChkLoopFin := by
  obtain ⟨v, rfl⟩ : ∃ v, u = v + 1 := ⟨u - 1, by omega⟩
  rw [h.serial_next, hidle.sclDelayed h hab (by omega) (by omega), SerialInterface.clock]
  split
  · simp [SerialInterface.reset]
  · exact SerialInterface.next_inner.2

/-- The slave can only release the wire. -/
lemma Idle.sdaOut_mono (h : EdidRuns mem pins σ) (hidle : Idle pins a b) (hab : a + 9 ≤ b)
    (hu : a + 22 ≤ u) {v : ℕ} (huv : u ≤ v) (hvb : v ≤ b + 21)
    (hout : (σ u).i2c.serial.sdaOut = true) : (σ v).i2c.serial.sdaOut = true := by
  induction v, huv using Nat.le_induction with
  | base => exact hout
  | succ v huv ih =>
      rw [h.serial_next, hidle.sclDelayed h hab (by omega) (by omega)]
      exact SerialInterface.sdaOut_clock (hidle.state h hab (by omega) (by omega)) (ih (by omega))

lemma Idle.sdaLine_eq (hidle : Idle pins a b) (hu : a ≤ u) (hub : u < b) :
    sdaLine pins σ u = (σ u).i2c.serial.sdaOut := by
  rw [sdaLine, I2cSlave.sda, (hidle u hu hub).2, Bool.true_and]

/-- So the filtered `sda` does not fall. -/
lemma Idle.sdaDeb_mono (h : EdidRuns mem pins σ) (hidle : Idle pins a b) (hab : a + 9 ≤ b)
    (hu : a + 33 ≤ u) (hub : u < b + 2) (hdeb : (σ u).i2c.sdaDeb = true) :
    (σ (u + 1)).i2c.sdaDeb = true := by
  by_contra hfall
  rw [Bool.not_eq_true] at hfall
  have hall : ∀ i < 9, sdaLine pins σ (u - 10 + i) = false := by
    intro i hi
    by_contra hline
    have hheld := h.debounces_sda.hold (u - 10) true ⟨i, hi, by simpa using hline⟩
    rw [show u - 10 + 9 + 2 = u + 1 by omega] at hheld
    rw [hheld hdeb] at hfall
    exact absurd hfall (by simp)
  have hfirst : sdaLine pins σ (u - 11) = false := by
    by_contra hline
    rw [Bool.not_eq_false, hidle.sdaLine_eq (by omega) (by omega)] at hline
    have hnext := hall 0 (by omega)
    rw [hidle.sdaLine_eq (by omega) (by omega), hidle.sdaOut_mono h hab (u := u - 11) (by omega)
      (by omega) (by omega) hline] at hnext
    exact absurd hnext (by simp)
  have hold := h.debounces_sda.follow (u - 11) false fun i hi => by
    rcases i with - | i
    · exact hfirst
    · rw [show u - 11 + (i + 1) = u - 10 + i by omega]
      exact hall i (by omega)
  rw [show u - 11 + 9 + 2 = u by omega, hdeb] at hold
  exact absurd hold (by simp)

/-- No START shows any more. -/
lemma Idle.edge (h : EdidRuns mem pins σ) (hidle : Idle pins a b) (hab : a + 9 ≤ b)
    (hu : a + 38 ≤ u) (hub : u ≤ b + 6) : (σ u).i2c.startEdgeDet = false := by
  obtain ⟨v, rfl⟩ : ∃ v, u = v + 4 + 1 := ⟨u - 5, by omega⟩
  rw [h.startEdgeDet_next, h.sdaFalls_eq]
  cases hdeb : (σ v).i2c.sdaDeb
  · simp
  · rw [hidle.sdaDeb_mono h hab (by omega) (by omega) hdeb]
    simp

/-- A clock without START under a high `scl`. -/
lemma Idle.serial_next (h : EdidRuns mem pins σ) (hidle : Idle pins a b) (hab : a + 9 ≤ b)
    (hu : a + 21 ≤ u) (hub : u < b + 21) (hedge : (σ u).i2c.startEdgeDet = false) :
    (σ (u + 1)).i2c.serial = (σ u).i2c.serial.next (σ u).edid.q true (σ u).i2c.sdaDeb
      (σ u).i2c.startStopDetState := by
  rw [h.serial_next, hidle.sclDelayed h hab hu hub, hedge]
  rfl

section Rest

variable {c : ℕ}

/-- Without START the wire is not touched any more. -/
lemma Idle.sdaOut_eq (h : EdidRuns mem pins σ) (hidle : Idle pins a b) (hab : a + 9 ≤ b)
    (hc : c ≤ b + 21) (hedge : ∀ u, a + 38 ≤ u → u < c → (σ u).i2c.startEdgeDet = false)
    (hu : a + 39 ≤ u) (huc : u ≤ c) :
    (σ u).i2c.serial.sdaOut = (σ (a + 39)).i2c.serial.sdaOut := by
  have hstate : ∀ v, a + 39 ≤ v → v ≤ c → (σ v).i2c.serial.currState ≠ .start
      ∧ (σ v).i2c.serial.currState ≠ .writeChkLoopFin := by
    intro v hv hvc
    obtain ⟨w, rfl⟩ : ∃ w, v = w + 1 := ⟨v - 1, by omega⟩
    rw [hidle.serial_next h hab (by omega) (by omega) (hedge w (by omega) (by omega))]
    exact SerialInterface.next_inner
  induction u, hu using Nat.le_induction with
  | base => rfl
  | succ u hu ih =>
      rw [hidle.serial_next h hab (by omega) (by omega) (hedge u (by omega) (by omega))]
      exact (SerialInterface.next_high (hstate u hu (by omega))).1.trans (ih (by omega))

/-- Without START the state machine comes to rest. -/
lemma Idle.serial_eq (h : EdidRuns mem pins σ) (hidle : Idle pins a b) (hab : a + 9 ≤ b)
    (hc : c ≤ b + 21) (hedge : ∀ u, a + 38 ≤ u → u < c → (σ u).i2c.startEdgeDet = false)
    (hu : a + 41 ≤ u) (huc : u ≤ c) : (σ u).i2c.serial = (σ (a + 41)).i2c.serial
      ∧ SerialInterface.restsIn (σ u).i2c.serial.currState = 0 := by
  have hsteps : ∀ k ≤ 3,
      SerialInterface.restsIn (σ (a + 38 + k)).i2c.serial.currState ≤ 3 - k := by
    intro k hk
    induction k with
    | zero => cases (σ (a + 38 + 0)).i2c.serial.currState <;> simp [SerialInterface.restsIn]
    | succ k ih =>
        have hnext := hidle.serial_next h hab (u := a + 38 + k) (by omega) (by omega)
          (hedge _ (by omega) (by omega))
        have hle : SerialInterface.restsIn (σ (a + 38 + k + 1)).i2c.serial.currState
            ≤ SerialInterface.restsIn (σ (a + 38 + k)).i2c.serial.currState - 1 := by
          rw [hnext]
          exact SerialInterface.restsIn_next
        have hk := ih (by omega)
        rw [show a + 38 + (k + 1) = a + 38 + k + 1 by omega]
        omega
  induction u, hu using Nat.le_induction with
  | base => exact ⟨rfl, Nat.le_zero.mp (hsteps 3 le_rfl)⟩
  | succ u hu ih =>
      obtain ⟨hsame, hrest⟩ := ih (by omega)
      have hnext := hidle.serial_next h hab (u := u) (by omega) (by omega)
        (hedge u (by omega) (by omega))
      rw [SerialInterface.next_rest hrest] at hnext
      rw [hnext]
      exact ⟨hsame, hrest⟩

end Rest

/-- The filtered `sda` under high lines shows what the slave makes of the wire. -/
lemma Idle.sdaDeb (h : EdidRuns mem pins σ) (hidle : Idle pins a b) (hab : a + 50 ≤ b)
    (hu : a + 50 ≤ u) (hub : u < b + 11) :
    (σ u).i2c.sdaDeb = (σ (a + 39)).i2c.serial.sdaOut := by
  refine h.sdaDeb_eq (a := a + 39) (b := b) (fun v hv hvb => ?_) (by omega) (by omega) hub
  rw [hidle.sdaLine_eq (by omega) hvb]
  exact hidle.sdaOut_eq h (by omega) (c := b) (by omega)
    (fun u hu hub => hidle.edge h (by omega) hu (by omega)) hv (by omega)

/-- **Under high lines the slave comes to rest**, whatever it was in the middle of. -/
theorem settled_of_idle (h : EdidRuns mem pins σ) (hidle : Idle pins a b) (hab : a + 50 ≤ b) :
    ∃ x, Settled mem pins σ b x ∧ x.sda = x.port.serial.sdaOut
      ∧ x.port.serial.regAddr = (σ b).i2c.serial.regAddr := by
  have hedge : ∀ u, a + 38 ≤ u → u ≤ b + 11 → (σ u).i2c.startEdgeDet = false := by
    intro u hu hub
    by_cases hnear : u ≤ b + 6
    · exact hidle.edge h (by omega) hu hnear
    · obtain ⟨v, rfl⟩ : ∃ v, u = v + 1 := ⟨u - 1, by omega⟩
      rw [h.startEdgeDet_next, (h.still (u := v) (by omega)
        ((hidle.sdaDeb h hab (by omega) (by omega)).trans
          (hidle.sdaDeb h hab (u := v - 4) (by omega) (by omega)).symm)).1, Bool.and_false]
  have hserial := fun {u} hu huc => hidle.serial_eq h (by omega) (c := b + 11) (by omega)
    (fun u hu huc => hedge u hu (by omega)) (u := u) hu huc
  have hout := fun {u} hu huc => hidle.sdaOut_eq h (by omega) (c := b + 11) (by omega)
    (fun u hu huc => hedge u hu (by omega)) (u := u) hu huc
  have hsame : ∀ u, a + 41 ≤ u → u ≤ b + 11 → (σ u).i2c.serial = (σ (b + 11)).i2c.serial :=
    fun u hu hub => (hserial hu hub).1.trans (hserial (u := b + 11) (by omega) le_rfl).1.symm
  have hrest := (hserial (u := b + 11) (by omega) le_rfl).2
  have hsound := h.sound_serial (b + 11)
  have haddr : ∀ u, a + 41 ≤ u → u ≤ b + 10 →
      (σ (u + 1)).edid.addressReg = (σ (b + 11)).i2c.serial.regAddr := by
    intro u hu hub
    rw [← hsame u hu (by omega)]
    exact congrArg EdidCore.addressReg (h.core_clock u)
  refine ⟨⟨⟨(σ (b + 11)).i2c.serial, (σ (b + 11)).i2c.startStopDetState⟩,
    (σ (b + 11)).i2c.serial.sdaOut⟩, ⟨⟨?_, ?_, ?_⟩, id, ?_, hedge _ (by omega) le_rfl, ?_, ?_, ?_⟩,
    rfl, ?_⟩
  · exact SerialInterface.cases_of_restsIn hrest
  · exact Bool.eq_false_of_not_eq_true fun hclr => by
      rcases hsound.clear hclr with hst | hst <;> simp [hst, SerialInterface.restsIn] at hrest
  · exact Bool.eq_false_of_not_eq_true fun hen => by
      have hst := hsound.writeEn hen
      simp [hst, SerialInterface.restsIn] at hrest
  · have hq : (σ (b + 10 + 1)).edid.q = mem (σ (b + 9 + 1)).edid.addressReg :=
      congrArg EdidCore.q (h.core_clock (b + 10))
    rw [haddr (b + 9) (by omega) (by omega)] at hq
    have haddr' := haddr (b + 10) (by omega) le_rfl
    simp only [AvalonSlaveEdid.core, EdidCore.rest, EdidCore.mk.injEq, true_and]
    exact ⟨haddr', hq⟩
  · exact fun u hu hub => hidle.sclDeb h (by omega) (by omega) hub
  · intro u hu hub
    rw [hidle.sdaDeb h hab (by omega) hub]
    exact (hout (u := b + 11) (by omega) le_rfl).symm
  · intro u hu hub
    rw [hsame u (by omega) hub]
  · rw [hsame b (by omega) (by omega)]

end Idle

end EdidRuns

/-! ### Off the wire -/

section Pulses

variable {mem : BitVec 8 → BitVec 8} {x : I2cState}

/-- The wire is high and the slave leaves it alone. -/
structure I2cState.OffWire (x : I2cState) : Prop where
  high : x.port.High
  sda : x.sda = true
  sdaOut : x.port.serial.sdaOut = true

/-- Pulses that a master makes without touching `sda`. -/
def pulses (k : ℕ) : List I2cWave := List.replicate k (.bit true)

/-- A slave that lets go when `scl` falls is off the wire behind the pulse. -/
lemma offWire_pulse (hhigh : x.port.High) (hout : (x.port.fall mem).serial.sdaOut = true) :
    (x.wave mem (.bit true)).OffWire := by
  refine ⟨I2cState.high_wave mem hhigh _, by simp [I2cState.wave, hout], ?_⟩
  simpa [I2cState.wave, hout] using I2cPort.rise_sdaOut.trans hout

variable (mem) in
/-- In the middle of a byte that is sent, `n + 1` bits from its end. -/
lemma offWire_of_sending (n : ℕ) (hn : n ≤ 7) (hhigh : x.port.High)
    (hst : x.port.serial.currState = .readRdLoop)
    (hcnt : x.port.serial.bitCnt = BitVec.ofNat 3 (8 - n)) :
    ∃ k ≤ n + 2, (x.after mem (pulses k)).OffWire := by
  have hhigh' := I2cState.high_wave mem hhigh (.bit true)
  induction n generalizing x with
  | zero =>
      refine ⟨2, le_rfl, ?_⟩
      refine offWire_pulse (x := x.wave mem (.bit true)) hhigh' ?_
      obtain ⟨⟨p, d⟩, b⟩ := x
      simp only at hst hcnt
      simp [I2cState.wave, I2cPort.fall, I2cPort.rise, hst, hcnt]
  | succ n ih =>
      have hn6 : n ≤ 6 := by omega
      rw [show 8 - (n + 1) = 7 - n by omega] at hcnt
      have hne : ¬BitVec.ofNat 3 (7 - n) = 0#3 := by
        interval_cases n <;> decide
      have hsucc : BitVec.ofNat 3 (7 - n) + 1#3 = BitVec.ofNat 3 (8 - n) := by
        interval_cases n <;> decide
      have hnext : (x.wave mem (.bit true)).port.serial.currState = .readRdLoop
          ∧ (x.wave mem (.bit true)).port.serial.bitCnt = BitVec.ofNat 3 (8 - n) := by
        obtain ⟨⟨p, d⟩, b⟩ := x
        simp only at hst hcnt
        rw [← hsucc]
        simp [I2cState.wave, I2cPort.fall, I2cPort.rise, hst, hcnt, hne]
      obtain ⟨k, hk, hoff⟩ := ih (by omega) hhigh' hnext.1 hnext.2
        (I2cState.high_wave mem hhigh' _)
      exact ⟨k + 1, by omega, hoff⟩

variable (mem) in
/-- **Nine pulses get the slave off the wire**, wherever it was. -/
lemma exists_offWire (hhigh : x.port.High) (hsound : x.port.serial.Sound)
    (hsda : x.sda = x.port.serial.sdaOut) : ∃ k ≤ 9, (x.after mem (pulses k)).OffWire := by
  cases hout : x.port.serial.sdaOut
  · have hdriving := hsound.sdaOut hout
    rcases hhigh.state with hst | hst | hst | hst | hst
    · -- in the middle of a byte
      obtain ⟨n, hn, hcnt⟩ : ∃ n ≤ 7, x.port.serial.bitCnt = BitVec.ofNat 3 (8 - n) := by
        generalize x.port.serial.bitCnt = c
        revert c
        decide
      obtain ⟨k, hk, hoff⟩ := offWire_of_sending mem n hn hhigh hst hcnt
      exact ⟨k, by omega, hoff⟩
    · exact ⟨1, by omega, offWire_pulse hhigh (by simp [I2cPort.fall, hst])⟩
    · rw [hst] at hdriving
      exact absurd hdriving (by simp [SerialInterface.driving])
    · rw [hst] at hdriving
      exact absurd hdriving (by simp [SerialInterface.driving])
    · -- in an acknowledgement, with a byte to come or not
      by_cases hread : x.port.serial.streamSt = .read
      · have hnext : (x.wave mem (.bit true)).port.serial.currState = .readRdLoop
            ∧ (x.wave mem (.bit true)).port.serial.bitCnt = BitVec.ofNat 3 (8 - 6) := by
          simp [I2cState.wave, I2cPort.fall, I2cPort.rise, hst, hread]
        obtain ⟨k, hk, hoff⟩ := offWire_of_sending mem 6 (by omega)
          (I2cState.high_wave mem hhigh (.bit true)) hnext.1 hnext.2
        exact ⟨k + 1, by omega, hoff⟩
      · exact ⟨1, by omega, offWire_pulse hhigh (by simp [I2cPort.fall, hst, hread])⟩
  · exact ⟨0, by omega, hhigh, hsda.trans hout, hout⟩

lemma I2cState.OffWire.represents (h : x.OffWire) :
    Represents mem x ⟨.free, x.port.serial.regAddr⟩ :=
  ⟨h.high, h.sda, h.sdaOut, rfl⟩

end Pulses

namespace EdidRuns

variable {mem : BitVec 8 → BitVec 8} {pins : ℕ → EdidPins} {σ : ℕ → AvalonSlaveEdid}

/-- At the clock `e` the slave has caught up with a free bus, and its pointer is `ptr`. -/
def FreeAt (mem : BitVec 8 → BitVec 8) (pins : ℕ → EdidPins) (σ : ℕ → AvalonSlaveEdid) (e : ℕ)
    (ptr : BitVec 8) : Prop :=
  ∃ x, Settled mem pins σ e x ∧ Represents mem x ⟨.free, ptr⟩

/-- **The bus is free** after 50 clocks under high lines, unless the slave pulls `sda` down. -/
lemma freeAt_of_idle (h : EdidRuns mem pins σ) {a b : ℕ} (hidle : Idle pins a b)
    (hab : a + 50 ≤ b) (hwire : sdaLine pins σ (b - 1) = true) :
    FreeAt mem pins σ b (σ b).i2c.serial.regAddr := by
  obtain ⟨x, hx, hsda, hreg⟩ := h.settled_of_idle hidle hab
  have hbefore : (σ (b - 1)).i2c.serial.sdaOut = true := by
    rw [← hidle.sdaLine_eq (u := b - 1) (by omega) (by omega)]
    exact hwire
  have hout : x.port.serial.sdaOut = true := by
    rw [← hx.out b le_rfl (by omega)]
    exact hidle.sdaOut_mono h (by omega) (u := b - 1) (by omega) (by omega) (by omega) hbefore
  rw [← hreg]
  exact ⟨x, hx, hx.high, hsda.trans hout, hout, rfl⟩

/-- The wire over some waves. -/
lemma Settled.sdaLine_of_waves (h : EdidRuns mem pins σ) {e : ℕ → ℕ} {x : I2cState}
    {ws : List I2cWave} (hx : Settled mem pins σ (e 0) x) (hws : Plays pins e ws) {i : ℕ} {v : Bool}
    (hv : (x.views mem ws)[i]? = some v) {u : ℕ} (hu : e i ≤ u) (hue : u < e (i + 1))
    (hscl : (pins u).scl = true) : sdaLine pins σ u = v := by
  have hi : i < ws.length := by
    have hlen : (x.views mem ws).length = ws.length := I2cState.views_length ws
    rw [← hlen]
    exact (List.getElem?_eq_some_iff.mp hv).1
  have hget : ws[i]? = some ws[i] := List.getElem?_eq_getElem hi
  have hwave := ((hx.waves h hws hi.le).wave h (hws i _ hget)).2 u hu hue hscl
  rw [I2cState.getElem?_views ws hi, I2cState.after, List.take_add_one, hget, Option.toList_some,
    List.foldl_append] at hv
  exact hwave.trans (Option.some.inj hv)

end EdidRuns

end Danmaku
