import Danmaku.EdidHost

/-!
When the I2C slave leaves the bus alone.

* `Ignores`: the slave waits for a START; `sdaOut_of_otherAddress`: **behind the address of another
  device it does not touch the wire before the next START**, whatever the lines do.
* `Settled.spikes`: **spikes of less than nine clocks on either line go unnoticed.**
-/

namespace Danmaku

open WireMemory

namespace SerialInterface

/-- The states of a slave that is not addressed. -/
def ignoring : SISt → Bool
  | .chkRdWr | .writeWtHi | .writeWtLo | .writeStLoop | .writeLoopWtLo | .writeChkLoopFin => true
  | .writeClrWr | .writeWtHi2 | .writeWtLo2 | .writeClrStStop => true
  | _ => false

/-- The slave waits for a START, and the one before it does not count any more: it is cleared, or
about to be. -/
structure Ignores (det : StartStopDet) (s : SerialInterface) : Prop where
  state : ignoring s.currState = true
  streamSt : s.streamSt = .idle
  sdaOut : s.sdaOut = true
  writeEn : s.writeEn = false
  det : det = .start →
    s.currState = .writeClrWr ∨ s.currState = .writeWtHi2 ∧ s.clearStartStopDet = true

variable {s : SerialInterface} {d : BitVec 8} {scl sda : Bool} {det : StartStopDet}

/-- It goes on waiting, whatever the lines do. -/
lemma Ignores.next (h : s.Ignores det) :
    (s.next d scl sda det).Ignores (if s.clearStartStopDet then .null else det)
      ∧ (s.next d scl sda det).regAddr = s.regAddr := by
  obtain ⟨st, stream, tx, rx, out, en, data, cnt, clr, reg⟩ := s
  obtain ⟨hst, hstream, hout, hen, hdet⟩ := h
  simp only at hstream hout hen
  subst hstream hout hen
  cases st
  case writeChkLoopFin =>
    have hne : det ≠ .start := fun h => by simpa using hdet h
    by_cases hcnt : cnt = 7#3
    all_goals
      refine ⟨⟨?_, ?_, ?_, ?_, fun h => ?_⟩, ?_⟩ <;> cases clr <;>
        simp_all [SerialInterface.next, byteEnd, ignoring]
  case writeWtLo =>
    have hne : det ≠ .start := fun h => by simpa using hdet h
    cases scl
    all_goals
      refine ⟨⟨?_, ?_, ?_, ?_, fun h => ?_⟩, ?_⟩ <;> cases clr <;> cases det <;>
        simp_all [SerialInterface.next, firstBit, ignoring]
  all_goals
    refine ⟨⟨?_, ?_, ?_, ?_, fun h => ?_⟩, ?_⟩ <;> cases clr <;> cases scl <;>
      simp_all [SerialInterface.next, ignoring]

/-- The end of the address of another device. -/
lemma ignores_byteEnd (hsound : s.Sound) (hst : s.currState = .writeChkLoopFin)
    (hcnt : s.bitCnt = 7) (hstream : s.streamSt = .idle)
    (haddr : ¬(addressed i2cAddress s.rxData ∧ det = .start)) :
    (s.next d scl sda det).Ignores (if s.clearStartStopDet then .null else det)
      ∧ (s.next d scl sda det).regAddr = s.regAddr := by
  obtain ⟨st, stream, tx, rx, out, en, data, cnt, clr, reg⟩ := s
  simp only at hst hcnt hstream haddr
  subst hst hcnt hstream
  obtain rfl : en = false := Bool.eq_false_of_not_eq_true fun hen => by
    simpa using hsound.writeEn hen
  have haddr' : ¬(rx.extractLsb' 1 7 = i2cAddress ∧ det = .start) := by
    simpa [addressed] using haddr
  refine ⟨⟨?_, ?_, ?_, ?_, fun _ => ?_⟩, ?_⟩ <;>
    simp [SerialInterface.next, byteEnd, haddr', ignoring]

end SerialInterface

namespace EdidRuns

variable {mem : BitVec 8 → BitVec 8} {pins : ℕ → EdidPins} {σ : ℕ → AvalonSlaveEdid}

/-- A clock without START. -/
lemma ignores_next (h : EdidRuns mem pins σ) {t : ℕ}
    (hnext : ∀ d scl sda, ((σ t).i2c.serial.next d scl sda (σ t).i2c.startStopDetState).Ignores
        (if (σ t).i2c.serial.clearStartStopDet then .null else (σ t).i2c.startStopDetState)
      ∧ ((σ t).i2c.serial.next d scl sda (σ t).i2c.startStopDetState).regAddr
          = (σ t).i2c.serial.regAddr)
    (hedge : (σ t).i2c.startEdgeDet = false) (hedge' : (σ (t + 1)).i2c.startEdgeDet = false) :
    (σ (t + 1)).i2c.serial.Ignores (σ (t + 1)).i2c.startStopDetState
      ∧ (σ (t + 1)).i2c.serial.regAddr = (σ t).i2c.serial.regAddr := by
  have hserial : (σ (t + 1)).i2c.serial = _ := congrArg EdidCore.serial (h.core_clock t)
  have hdet : (σ (t + 1)).i2c.startStopDetState = _ := congrArg EdidCore.det (h.core_clock t)
  rw [h.startEdgeDet_next] at hedge'
  rw [hserial, hdet, hedge, hedge']
  obtain ⟨hign, hreg⟩ := hnext (σ t).edid.q ((σ t).i2c.sclDelayed.getLsbD (sclDelLen - 1))
    (σ t).i2c.sdaDeb
  refine ⟨?_, hreg⟩
  cases hclr : (σ t).i2c.serial.clearStartStopDet
  · rw [hclr] at hign
    cases hstop : (σ t).i2c.sclDeb && (σ t).i2c.sdaRises
    · exact hign
    · -- a STOP only replaces what the detector shows
      exact ⟨hign.state, hign.streamSt, hign.sdaOut, hign.writeEn, fun h => by simp at h⟩
  · rw [hclr] at hign
    exact hign

/-- **Behind the address of another device** the slave leaves the wire and its pointer alone up to
the next START, whatever the lines do and however long it takes. -/
theorem sdaOut_of_otherAddress (h : EdidRuns mem pins σ) {t₀ t : ℕ}
    (hst : (σ t₀).i2c.serial.currState = .writeChkLoopFin)
    (hcnt : (σ t₀).i2c.serial.bitCnt = 7) (hstream : (σ t₀).i2c.serial.streamSt = .idle)
    (haddr : ¬(addressed i2cAddress (σ t₀).i2c.serial.rxData
      ∧ (σ t₀).i2c.startStopDetState = .start))
    (hedge : ∀ u, t₀ ≤ u → u ≤ t → (σ u).i2c.startEdgeDet = false) (ht : t₀ < t) :
    sdaLine pins σ t = (pins t).sda
      ∧ (σ t).i2c.serial.regAddr = (σ t₀).i2c.serial.regAddr := by
  have hign : (σ t).i2c.serial.Ignores (σ t).i2c.startStopDetState
      ∧ (σ t).i2c.serial.regAddr = (σ t₀).i2c.serial.regAddr := by
    induction t, ht using Nat.le_induction with
    | base =>
        exact h.ignores_next (fun _ _ _ => SerialInterface.ignores_byteEnd (h.sound_serial t₀) hst
          hcnt hstream haddr) (hedge t₀ le_rfl (Nat.le_succ _)) (hedge _ (Nat.le_succ _) le_rfl)
    | succ t ht ih =>
        obtain ⟨hign, hreg⟩ := ih fun u hu hut => hedge u hu (by omega)
        have hnext := h.ignores_next (fun _ _ _ => hign.next) (hedge t (by omega) (by omega))
          (hedge _ (by omega) le_rfl)
        exact ⟨hnext.1, hnext.2.trans hreg⟩
  refine ⟨?_, hign.2⟩
  rw [sdaLine, I2cSlave.sda, hign.1.sdaOut, Bool.and_true]

/-- A slave at the end of the address of another device. -/
def calledElsewhere : AvalonSlaveEdid where
  edid := ⟨fun a => a + 7, 0, 0⟩
  i2c := ⟨0, BitVec.allOnes _, true, 0, false, 0, BitVec.allOnes _,
    .start, false, ⟨.writeChkLoopFin, .idle, 0, 0xA4, true, false, 0, 7, false, 12⟩⟩

/-- The other device acknowledges and is sent a bit, in which the slave reads the line low and
high. -/
theorem sdaOut_of_otherAddress_acknowledged :
    let pins := masterPins [.bit false, .bit true]
    (pins 40).sda = false ∧ (pins 40).scl = true ∧ (pins 70).scl = false ∧ (pins 100).sda = true
      ∧ ∀ t, 0 < t → t < 128 → sdaLine pins (calledElsewhere.run pins) t = (pins t).sda
        ∧ (calledElsewhere.run pins t).i2c.serial.regAddr = 12 := by
  intro pins
  have hruns : EdidRuns calledElsewhere.edid.mem pins (calledElsewhere.run pins) :=
    edidRuns_master rfl (by constructor <;> simp [calledElsewhere]) _
  have hst : (calledElsewhere.run pins 0).i2c.serial.currState = .writeChkLoopFin := rfl
  have hedge : ∀ u < 128, (calledElsewhere.run pins u).i2c.startEdgeDet = false := by
    decide +kernel
  refine ⟨by decide, by decide, by decide, by decide, fun t ht hlast => ?_⟩
  exact hruns.sdaOut_of_otherAddress hst rfl rfl
    (by simp [AvalonSlaveEdid.run, calledElsewhere, addressed, i2cAddress])
    (fun u _ hu => hedge u (by omega)) ht

/-- The slave stays where it is while any nine samples in a row contain the level that each line
has. -/
lemma Settled.spikes (h : EdidRuns mem pins σ) {e b : ℕ} {x : I2cState}
    (hx : Settled mem pins σ e x) (heb : e ≤ b)
    (hscl : ∀ t, e ≤ t → t < b → ∃ i < 9, (pins (t + i)).scl = true)
    (hsda : ∀ t, e ≤ t → t < b → ∃ i < 9, sdaLine pins σ (t + i) = x.sda) :
    Settled mem pins σ b x := by
  have hsclDeb : ∀ u, e ≤ u → u < b + 11 → (σ u).i2c.sclDeb = true := by
    intro u hu hub
    by_cases hnew : u < e + 11
    · exact hx.scl u hu hnew
    · have hheld := h.debounces_scl.held (a := e) (b := b) (t := u - 10) (by decide)
        (hx.scl (e + 10) (by omega) (by omega)) hscl (by omega) (by omega)
      rwa [show u - 10 + 9 + 2 - 1 = u by omega] at hheld
  have hsdaDeb : ∀ u, e ≤ u → u < b + 11 → (σ u).i2c.sdaDeb = x.sda := by
    intro u hu hub
    by_cases hnew : u < e + 11
    · exact hx.sda u hu hnew
    · have hheld := h.debounces_sda.held (a := e) (b := b) (t := u - 10) (by decide)
        (hx.sda (e + 10) (by omega) (by omega)) hsda (by omega) (by omega)
      rwa [show u - 10 + 9 + 2 - 1 = u by omega] at hheld
  have hcore : ∀ u, e + 11 ≤ u → u ≤ b + 11 →
      (σ u).core = EdidCore.rest mem x.port ∧ (σ u).i2c.startEdgeDet = false := by
    intro u hu
    induction u, hu using Nat.le_induction with
    | base => exact fun _ => ⟨hx.core, hx.edge⟩
    | succ u hu ih =>
        intro hub
        obtain ⟨hcore, hedge⟩ := ih (by omega)
        have hdel := h.sclDelayed_eq (u - 10)
        rw [show u - 10 + 10 = u by omega, hsclDeb (u - 10) (by omega) (by omega)] at hdel
        obtain ⟨hnext, hedge'⟩ := h.core_next hedge fun _ => h.still (by omega)
          ((hsdaDeb (u - 3) (by omega) (by omega)).trans
            (hsdaDeb (u - 4) (by omega) (by omega)).symm)
        exact ⟨by rw [hnext, hcore, hdel, EdidCore.step_high hx.high], hedge'⟩
  refine ⟨hx.high, hx.pulled, (hcore _ (by omega) le_rfl).1, (hcore _ (by omega) le_rfl).2,
    fun u hu hub => hsclDeb u (by omega) hub, fun u hu hub => hsdaDeb u (by omega) hub,
    fun u hu hub => ?_⟩
  by_cases hnew : u ≤ e + 11
  · exact hx.out u (by omega) hnew
  · exact congrArg (fun c => c.serial.sdaOut) (hcore u (by omega) hub).1

/-- **Spikes** of fewer than nine clocks on either line of a free bus go unnoticed. -/
theorem freeAt_of_spikes (h : EdidRuns mem pins σ) {e b : ℕ} {ptr : BitVec 8}
    (hfree : FreeAt mem pins σ e ptr) (heb : e ≤ b)
    (hscl : ∀ t, e ≤ t → t < b → ∃ i < 9, (pins (t + i)).scl = true)
    (hsda : ∀ t, e ≤ t → t < b → ∃ i < 9, (pins (t + i)).sda = true) :
    FreeAt mem pins σ b ptr := by
  induction b, heb using Nat.le_induction with
  | base => exact hfree
  | succ b heb ih =>
      obtain ⟨x, hx, hrep⟩ := ih (fun t ht htb => hscl t ht (by omega)) fun t ht htb =>
        hsda t ht (by omega)
      have hhigh : x.sda = true := hrep.2.1
      have hout : x.port.serial.sdaOut = true := hrep.2.2.1
      refine ⟨x, hx.spikes h (Nat.le_succ b) (fun t ht htb => hscl t (by omega) htb) ?_, hrep⟩
      intro t ht htb
      obtain ⟨i, hi, hpin⟩ := hsda t (by omega) htb
      refine ⟨i, hi, ?_⟩
      -- the slave itself leaves the wire alone for as long as it is settled
      rw [sdaLine, I2cSlave.sda, hpin, hx.out (t + i) (by omega) (by omega), hout, hhigh]
      rfl

/-- Behind a reset every ninth clock is a spike on both lines. -/
def spikyPins (t : ℕ) : EdidPins :=
  if t = 0 then { idlePins with reset := true }
  else if 64 ≤ t ∧ t % 9 = 0 then { idlePins with scl := false, sda := false }
  else idlePins

lemma spikyPins_of {t : ℕ} (ht : t < 64 ∨ t % 9 ≠ 0) :
    (spikyPins t).scl = true ∧ (spikyPins t).sda = true := by
  unfold spikyPins
  split
  · exact ⟨rfl, rfl⟩
  · rw [if_neg (by omega)]
    exact ⟨rfl, rfl⟩

lemma powersUp_spiky : EdidPowersUp spikyPins (blankSlave.run spikyPins) where
  clock := clocked_run _ _
  reset := rfl
  running t ht := by
    unfold spikyPins
    rw [if_neg (by omega)]
    split <;> rfl

/-- A hundred clocks with a spike in every nine. -/
theorem freeAt_of_spikes_hundred :
    FreeAt (blankSlave.run spikyPins 3).edid.mem (fun t => spikyPins (3 + t))
      (fun t => blankSlave.run spikyPins (3 + t)) 161
      (blankSlave.run spikyPins 64).i2c.serial.regAddr := by
  have hruns := powersUp_spiky.edidRuns (T := 3) le_rfl fun t _ => by
    unfold spikyPins
    split
    · rfl
    · split <;> rfl
  have hwire : sdaLine spikyPins (blankSlave.run spikyPins) 63 = true := by
    rw [sdaLine, I2cSlave.sda, (spikyPins_of (Or.inl (by omega))).2,
      powersUp_spiky.released (b := 64) (fun t _ ht => spikyPins_of (Or.inl ht)) (by omega)
        (by omega)]
    rfl
  have hfree := hruns.freeAt_of_idle (a := 0) (b := 61)
    (fun t _ ht => spikyPins_of (Or.inl (by omega))) (by omega) hwire
  have hnear : ∀ t, ∃ i < 9, (spikyPins (3 + (t + i))).scl = true
      ∧ (spikyPins (3 + (t + i))).sda = true := by
    intro t
    by_cases hspike : (3 + t) % 9 = 0
    · exact ⟨1, by omega, spikyPins_of (Or.inr (by omega))⟩
    · exact ⟨0, by omega, spikyPins_of (Or.inr hspike)⟩
  refine hruns.freeAt_of_spikes hfree (by omega) (fun t _ _ => ?_) fun t _ _ => ?_
  · obtain ⟨i, hi, hscl, -⟩ := hnear t
    exact ⟨i, hi, hscl⟩
  · obtain ⟨i, hi, -, hsda⟩ := hnear t
    exact ⟨i, hi, hsda⟩

end EdidRuns

end Danmaku
