import Danmaku.I2cPort
import Danmaku.Lib.Debounce

/-!
`avalon_slave_edid`: the EDID memory behind its I2C slave, clock by clock.

* `I2cSlave.clock`: the registers of `i2cSlave`.
* `EdidMem.Clocked`: what the vendor documents of the memory block inside `edid_mem`; the block
  itself is not in the repository. `AvalonSlaveEdid.Clocked`: a clock of the whole, over such a
  block.
* `EdidRuns`: a run out of reset in which the memory is not written.
* `EdidRuns.sclDeb`, `sdaDeb`: what the filters make of the two lines; `EdidRuns.core_next`: a clock
  without START or STOP is one of `EdidCore`.
-/

namespace Danmaku

open Debounce

/-- `CLK_FREQ`, in MHz. -/
abbrev clkFreq : ℕ := 50

abbrev debI2cLen : ℕ := 10 * clkFreq / 48

abbrev sclDelLen : ℕ := 10 * clkFreq / 48

abbrev sdaDelLen : ℕ := 4 * clkFreq / 48

/-- The registers of `i2cSlave`, with its `u_serialInterface`. -/
structure I2cSlave where
  rstPipe : BitVec 2
  sdaPipe : BitVec debI2cLen
  sdaDeb : Bool
  sclPipe : BitVec debI2cLen
  sclDeb : Bool
  sclDelayed : BitVec sclDelLen
  sdaDelayed : BitVec sdaDelLen
  startStopDetState : StartStopDet
  startEdgeDet : Bool
  serial : SerialInterface

namespace I2cSlave

/-- The debounced level: all but the youngest of the samples have to agree. -/
def debounced (pipe : BitVec debI2cLen) (deb : Bool) : Bool :=
  if pipe.extractLsb' 1 (debI2cLen - 1) = BitVec.allOnes (debI2cLen - 1) then true
  else if pipe.extractLsb' 1 (debI2cLen - 1) = 0 then false
  else deb

def rstSyncToClk (s : I2cSlave) : Bool := s.rstPipe.getLsbD 1

/-- `sda` falls behind the delay. -/
def sdaFalls (s : I2cSlave) : Bool :=
  !s.sdaDelayed.getLsbD (sdaDelLen - 2) && s.sdaDelayed.getLsbD (sdaDelLen - 1)

/-- `sda` rises behind the delay. -/
def sdaRises (s : I2cSlave) : Bool :=
  s.sdaDelayed.getLsbD (sdaDelLen - 2) && !s.sdaDelayed.getLsbD (sdaDelLen - 1)

/-- The level of the `sda` wire, which everybody on the bus can only pull down: `bus` is what the
others make of it. -/
def sda (bus : Bool) (s : I2cSlave) : Bool := bus && s.serial.sdaOut

/-- One clock. -/
def clock (rst scl bus : Bool) (dataFromRegIF : BitVec 8) (s : I2cSlave) : I2cSlave where
  rstPipe := if rst then 3 else s.rstPipe.shiftConcat false
  sdaPipe := if s.rstSyncToClk then BitVec.allOnes _ else s.sdaPipe.shiftConcat (s.sda bus)
  sdaDeb := if s.rstSyncToClk then true else debounced s.sdaPipe s.sdaDeb
  sclPipe := if s.rstSyncToClk then BitVec.allOnes _ else s.sclPipe.shiftConcat scl
  sclDeb := if s.rstSyncToClk then true else debounced s.sclPipe s.sclDeb
  sclDelayed := if s.rstSyncToClk then BitVec.allOnes _ else s.sclDelayed.shiftConcat s.sclDeb
  sdaDelayed := if s.rstSyncToClk then BitVec.allOnes _ else s.sdaDelayed.shiftConcat s.sdaDeb
  startStopDetState :=
    if s.rstSyncToClk then .null
    else if s.serial.clearStartStopDet then .null
    else if s.sclDeb && s.sdaRises then .stop
    else if s.sclDeb && s.sdaFalls then .start
    else s.startStopDetState
  startEdgeDet := !s.rstSyncToClk && s.sclDeb && s.sdaFalls
  serial :=
    s.serial.clock (s.rstSyncToClk || s.startEdgeDet) dataFromRegIF
      (s.sclDelayed.getLsbD (sclDelLen - 1)) s.sdaDeb s.startStopDetState

end I2cSlave

/-- What can be told from outside of the memory block in `edid_mem`, an `altsyncram`: its cells, the
read address that it has taken, and its output. -/
structure EdidMem where
  mem : BitVec 8 → BitVec 8
  addressReg : BitVec 8
  q : BitVec 8

/-- A clock of an `altsyncram` with one write port and one read port, whose read address and output
are registered. What it shows of a cell that is being written is left open. -/
structure EdidMem.Clocked (wren : Bool) (wraddress data rdaddress : BitVec 8) (s t : EdidMem) :
    Prop where
  write : t.mem = if wren then Function.update s.mem wraddress data else s.mem
  address : t.addressReg = rdaddress
  read : (wren = true → wraddress ≠ s.addressReg) → t.q = s.mem s.addressReg

/-- What `avalon_slave_edid` gets in a clock: `sda` is what the others on the bus make of the
wire. -/
structure EdidPins where
  reset : Bool
  scl : Bool
  sda : Bool
  slaveWrite : Bool
  slaveAddress : BitVec 8
  slaveWritedata : BitVec 8

/-- The registers of `avalon_slave_edid`. -/
structure AvalonSlaveEdid where
  edid : EdidMem
  i2c : I2cSlave

namespace AvalonSlaveEdid

/-- One clock. -/
structure Clocked (p : EdidPins) (s t : AvalonSlaveEdid) : Prop where
  edid : s.edid.Clocked p.slaveWrite p.slaveAddress p.slaveWritedata s.i2c.serial.regAddr t.edid
  i2c : t.i2c = s.i2c.clock p.reset p.scl p.sda s.edid.q

/-- The part behind the filters. -/
def core (s : AvalonSlaveEdid) : EdidCore where
  serial := s.i2c.serial
  det := s.i2c.startStopDetState
  addressReg := s.edid.addressReg
  q := s.edid.q

end AvalonSlaveEdid

/-- A run out of reset, from registers as a run leaves them, in which the memory is not written; the
memory block may be any that behaves as documented. -/
structure EdidRuns (mem : BitVec 8 → BitVec 8) (pins : ℕ → EdidPins) (σ : ℕ → AvalonSlaveEdid) :
    Prop where
  clock : ∀ t, (σ t).Clocked (pins t) (σ (t + 1))
  reset : ∀ t, (pins t).reset = false
  slaveWrite : ∀ t, (pins t).slaveWrite = false
  rstPipe : (σ 0).i2c.rstPipe = 0
  sound : (σ 0).i2c.serial.Sound
  mem : (σ 0).edid.mem = mem

namespace EdidRuns

variable {mem : BitVec 8 → BitVec 8} {pins : ℕ → EdidPins} {σ : ℕ → AvalonSlaveEdid}

/-- The level of the `sda` wire. -/
def sdaLine (pins : ℕ → EdidPins) (σ : ℕ → AvalonSlaveEdid) (t : ℕ) : Bool :=
  (σ t).i2c.sda (pins t).sda

lemma i2c_clock (h : EdidRuns mem pins σ) (t : ℕ) : (σ (t + 1)).i2c
    = (σ t).i2c.clock (pins t).reset (pins t).scl (pins t).sda (σ t).edid.q := (h.clock t).i2c

lemma rstPipe_eq (h : EdidRuns mem pins σ) (t : ℕ) : (σ t).i2c.rstPipe = 0 := by
  induction t with
  | zero => exact h.rstPipe
  | succ t ih =>
      have hnext : (σ (t + 1)).i2c.rstPipe = (σ t).i2c.rstPipe.shiftConcat false := by
        rw [h.i2c_clock]
        simp [I2cSlave.clock, h.reset]
      rw [hnext, ih]
      rfl

lemma rstSyncToClk_eq (h : EdidRuns mem pins σ) (t : ℕ) :
    (σ t).i2c.rstSyncToClk = false := by
  rw [I2cSlave.rstSyncToClk, h.rstPipe_eq]
  rfl

lemma mem_eq (h : EdidRuns mem pins σ) (t : ℕ) : (σ t).edid.mem = mem := by
  induction t with
  | zero => exact h.mem
  | succ t ih =>
      rw [← ih, (h.clock t).edid.write, h.slaveWrite]
      rfl

lemma sound_serial (h : EdidRuns mem pins σ) (t : ℕ) : (σ t).i2c.serial.Sound := by
  induction t with
  | zero => exact h.sound
  | succ t ih =>
      rw [h.i2c_clock]
      simp only [I2cSlave.clock, SerialInterface.clock]
      split
      · exact SerialInterface.Sound.reset _
      · exact ih.next

/-! ### The filters -/

lemma shifts_sclPipe (h : EdidRuns mem pins σ) :
    Shifts (fun t => (pins t).scl) fun t => (σ t).i2c.sclPipe := fun t => by
  simp [h.i2c_clock, I2cSlave.clock, h.rstSyncToClk_eq]

lemma shifts_sdaPipe (h : EdidRuns mem pins σ) :
    Shifts (sdaLine pins σ) fun t => (σ t).i2c.sdaPipe := fun t => by
  simp [h.i2c_clock, I2cSlave.clock, h.rstSyncToClk_eq, sdaLine]

lemma shifts_sclDelayed (h : EdidRuns mem pins σ) :
    Shifts (fun t => (σ t).i2c.sclDeb) fun t => (σ t).i2c.sclDelayed := fun t => by
  simp [h.i2c_clock, I2cSlave.clock, h.rstSyncToClk_eq]

lemma shifts_sdaDelayed (h : EdidRuns mem pins σ) :
    Shifts (fun t => (σ t).i2c.sdaDeb) fun t => (σ t).i2c.sdaDelayed := fun t => by
  simp [h.i2c_clock, I2cSlave.clock, h.rstSyncToClk_eq]

/-- `debounced` behind a shift register looks at nine samples, the youngest two clocks old. -/
lemma debounces_of_shifts {line : ℕ → Bool} {pipe : ℕ → BitVec debI2cLen} {deb : ℕ → Bool}
    (hpipe : Shifts line pipe) (hdeb : ∀ t, deb (t + 1) = I2cSlave.debounced (pipe t) (deb t)) :
    Debounces 9 2 line deb := by
  have hbit : ∀ t, ∀ i < 9, ((pipe (t + 10)).extractLsb' 1 9).getLsbD i = line (t + (8 - i)) := by
    intro t i hi
    rw [BitVec.getLsbD_extractLsb', decide_eq_true hi, Bool.true_and]
    have hpast := hpipe.getLsbD (i := 1 + i) (show 1 + i < 10 by omega) (t + (8 - i))
    rwa [show t + (8 - i) + (1 + i) + 1 = t + 10 by omega] at hpast
  have hones : ∀ t, (pipe (t + 10)).extractLsb' 1 9 = BitVec.allOnes 9
      ↔ ∀ i < 9, line (t + i) = true := by
    intro t
    constructor
    · intro heq i hi
      have hi' := hbit t (8 - i) (by omega)
      rw [heq, show t + (8 - (8 - i)) = t + i by omega] at hi'
      rw [← hi', BitVec.getLsbD_allOnes]
      exact decide_eq_true (by omega)
    · intro hline
      refine BitVec.eq_of_getLsbD_eq fun i hi => ?_
      rw [hbit t i hi, hline _ (by omega), BitVec.getLsbD_allOnes, decide_eq_true hi]
  have hzeros : ∀ t, (pipe (t + 10)).extractLsb' 1 9 = 0 ↔ ∀ i < 9, line (t + i) = false := by
    intro t
    constructor
    · intro heq i hi
      have hi' := hbit t (8 - i) (by omega)
      rw [heq, show t + (8 - (8 - i)) = t + i by omega] at hi'
      simpa using hi'.symm
    · intro hline
      refine BitVec.eq_of_getLsbD_eq fun i hi => ?_
      rw [hbit t i hi, hline _ (by omega)]
      simp
  have hnext : ∀ t, deb (t + 9 + 2) = if ∀ i < 9, line (t + i) = true then true
      else if ∀ i < 9, line (t + i) = false then false else deb (t + 9 + 2 - 1) := by
    intro t
    rw [show t + 9 + 2 = t + 10 + 1 by omega, hdeb]
    change (if (pipe (t + 10)).extractLsb' 1 9 = BitVec.allOnes 9 then true
      else if (pipe (t + 10)).extractLsb' 1 9 = 0 then false else deb (t + 10)) = _
    simp only [hones, hzeros]
    rfl
  constructor
  · intro t v hv
    rw [hnext]
    cases v
    · have hne : ¬ ∀ i < 9, line (t + i) = true := fun hall =>
        Bool.false_ne_true ((hv 0 (by decide)).symm.trans (hall 0 (by decide)))
      rw [if_neg hne, if_pos hv]
    · rw [if_pos hv]
  · rintro t v ⟨i, hi, hv⟩ hprev
    rw [hnext, hprev]
    cases v
    · rw [if_neg fun hall => Bool.false_ne_true (hv.symm.trans (hall i hi)), ite_self]
    · rw [if_neg (c := ∀ i < 9, line (t + i) = false) fun hall =>
        Bool.false_ne_true ((hall i hi).symm.trans hv), ite_self]

lemma debounces_scl (h : EdidRuns mem pins σ) :
    Debounces 9 2 (fun t => (pins t).scl) fun t => (σ t).i2c.sclDeb :=
  debounces_of_shifts h.shifts_sclPipe fun t => by
    simp [h.i2c_clock, I2cSlave.clock, h.rstSyncToClk_eq]

lemma debounces_sda (h : EdidRuns mem pins σ) :
    Debounces 9 2 (sdaLine pins σ) fun t => (σ t).i2c.sdaDeb :=
  debounces_of_shifts h.shifts_sdaPipe fun t => by
    simp [h.i2c_clock, I2cSlave.clock, h.rstSyncToClk_eq]

/-- The delayed `scl` is ten clocks old. -/
lemma sclDelayed_eq (h : EdidRuns mem pins σ) (t : ℕ) :
    (σ (t + 10)).i2c.sclDelayed.getLsbD (sclDelLen - 1) = (σ t).i2c.sclDeb :=
  h.shifts_sclDelayed.getLsbD (i := 9) (by decide) t

lemma sdaFalls_eq (h : EdidRuns mem pins σ) (t : ℕ) :
    (σ (t + 4)).i2c.sdaFalls = (!(σ (t + 1)).i2c.sdaDeb && (σ t).i2c.sdaDeb) := by
  rw [I2cSlave.sdaFalls]
  congr 1
  · rw [← h.shifts_sdaDelayed.getLsbD (i := 2) (by decide) (t + 1)]
    rfl
  · rw [← h.shifts_sdaDelayed.getLsbD (i := 3) (by decide) t]
    rfl

lemma sdaRises_eq (h : EdidRuns mem pins σ) (t : ℕ) :
    (σ (t + 4)).i2c.sdaRises = ((σ (t + 1)).i2c.sdaDeb && !(σ t).i2c.sdaDeb) := by
  rw [I2cSlave.sdaRises]
  congr 1
  · rw [← h.shifts_sdaDelayed.getLsbD (i := 2) (by decide) (t + 1)]
    rfl
  · rw [← h.shifts_sdaDelayed.getLsbD (i := 3) (by decide) t]
    rfl

/-- A level of `scl` that lasts nine clocks shows behind the filter. -/
lemma sclDeb_eq (h : EdidRuns mem pins σ) {a b t : ℕ} {v : Bool}
    (hline : ∀ u, a ≤ u → u < b → (pins u).scl = v) (hab : a + 9 ≤ b) (hat : a + 11 ≤ t)
    (htb : t < b + 11) : (σ t).i2c.sclDeb = v :=
  h.debounces_scl.steady (by decide) hline hab hat htb

lemma sdaDeb_eq (h : EdidRuns mem pins σ) {a b t : ℕ} {v : Bool}
    (hline : ∀ u, a ≤ u → u < b → sdaLine pins σ u = v) (hab : a + 9 ≤ b) (hat : a + 11 ≤ t)
    (htb : t < b + 11) : (σ t).i2c.sdaDeb = v :=
  h.debounces_sda.steady (by decide) hline hab hat htb

/-! ### Clocks -/

lemma startEdgeDet_next (h : EdidRuns mem pins σ) (t : ℕ) :
    (σ (t + 1)).i2c.startEdgeDet = ((σ t).i2c.sclDeb && (σ t).i2c.sdaFalls) := by
  simp [h.i2c_clock, I2cSlave.clock, h.rstSyncToClk_eq]

/-- A clock of the part behind the filters. -/
lemma core_clock (h : EdidRuns mem pins σ) (t : ℕ) :
    (σ (t + 1)).core =
      { serial :=
          (σ t).i2c.serial.clock (σ t).i2c.startEdgeDet (σ t).edid.q
            ((σ t).i2c.sclDelayed.getLsbD (sclDelLen - 1)) (σ t).i2c.sdaDeb
            (σ t).i2c.startStopDetState
        det :=
          if (σ t).i2c.serial.clearStartStopDet then .null
          else if (σ t).i2c.sclDeb && (σ t).i2c.sdaRises then .stop
          else if (σ t).i2c.sclDeb && (σ t).i2c.sdaFalls then .start
          else (σ t).i2c.startStopDetState
        addressReg := (σ t).i2c.serial.regAddr
        q := mem (σ t).edid.addressReg } := by
  have hread : (σ (t + 1)).edid.q = mem (σ t).edid.addressReg := by
    rw [(h.clock t).edid.read fun hw => absurd hw (by simp [h.slaveWrite]), h.mem_eq]
  simp [AvalonSlaveEdid.core, h.i2c_clock, I2cSlave.clock, h.rstSyncToClk_eq, hread,
    (h.clock t).edid.address]

/-- A clock without a reset of the state machine and without START or STOP. -/
lemma core_next (h : EdidRuns mem pins σ) {t : ℕ} (hedge : (σ t).i2c.startEdgeDet = false)
    (hdet : (σ t).i2c.sclDeb = true → (σ t).i2c.sdaFalls = false ∧ (σ t).i2c.sdaRises = false) :
    (σ (t + 1)).core
        = (σ t).core.step mem ((σ t).i2c.sclDelayed.getLsbD (sclDelLen - 1)) (σ t).i2c.sdaDeb
      ∧ (σ (t + 1)).i2c.startEdgeDet = false := by
  rw [h.core_clock, h.startEdgeDet_next]
  cases hscl : (σ t).i2c.sclDeb
  · refine ⟨?_, Bool.false_and _⟩
    simp only [Bool.false_and, Bool.false_eq_true, if_false, hedge]
    rfl
  · obtain ⟨hfalls, hrises⟩ := hdet hscl
    rw [hfalls, hrises]
    refine ⟨?_, rfl⟩
    simp only [Bool.and_false, Bool.false_eq_true, if_false, hedge]
    rfl

end EdidRuns

end Danmaku
