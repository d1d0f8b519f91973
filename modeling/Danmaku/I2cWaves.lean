import Danmaku.I2cSlave

/-!
The I2C slave on the bus: what a master sees of it, pulse by pulse.

A master clocks bits with pulses of `scl` and marks their ends with changes of `sda` under a high
`scl`. The times asked of it are those of the bus's fast mode at 50 MHz or less: `scl` low for 32
clocks, high for 18, `sda` in place 5 clocks before `scl` rises, and free while `scl` is low.

* `I2cWave`, `I2cWave.Over`: a bit or a change of level, and how it goes over the pins.
* `I2cState.wave`: what it makes of the slave.
* `Settled`: the run has caught up with the bus; `Settled.wave`: **each wave leaves the slave as
  the abstract state says, and all the time that `scl` is high the wire has the level it says**.
-/

namespace Danmaku

/-- What the master does next: a pulse of `scl` with the level `m` on `sda`, or a time under a
high `scl` with that level. -/
inductive I2cWave
  | bit (m : Bool)
  | level (m : Bool)
  deriving DecidableEq, Repr

/-- The wave goes over the pins from the clock `e` to the clock `e'`. -/
def I2cWave.Over (pins : ℕ → EdidPins) (e e' : ℕ) : I2cWave → Prop
  | .bit m =>
      ∃ r, e + 32 ≤ r ∧ r + 18 ≤ e'
        ∧ (∀ u, e ≤ u → u < r → (pins u).scl = false)
        ∧ (∀ u, r ≤ u → u < e' → (pins u).scl = true)
        ∧ ∀ u, r ≤ u + 5 → u < e' → (pins u).sda = m
  | .level m =>
      e + 21 ≤ e'
        ∧ (∀ u, e ≤ u → u < e' → (pins u).scl = true)
        ∧ ∀ u, e ≤ u → u < e' → (pins u).sda = m

namespace I2cPort

/-- Behind a START: the slave waits for the address of a device. -/
def started (p : I2cPort) : I2cPort where
  serial := { p.serial.reset with currState := .writeWtLo }
  det := .start

/-- What a change of `sda` from `b` to `b'` under a high `scl` makes of a slave at rest. -/
def change (b b' : Bool) (p : I2cPort) : I2cPort :=
  if b && !b' then p.started
  else if !b && b' then { p with det := .stop }
  else p

lemma change_same (b : Bool) (p : I2cPort) : p.change b b = p := by
  cases b <;> rfl

lemma High.started (p : I2cPort) : p.started.High :=
  ⟨Or.inr (Or.inr (Or.inl rfl)), rfl, rfl⟩

end I2cPort

/-- A slave at rest under a high `scl`, and the level of the `sda` wire. -/
structure I2cState where
  port : I2cPort
  sda : Bool
  deriving DecidableEq, Repr

/-- What a wave makes of the slave and of the wire. -/
def I2cState.wave (mem : BitVec 8 → BitVec 8) (x : I2cState) : I2cWave → I2cState
  | .bit m =>
      let p := x.port.fall mem
      let b := m && p.serial.sdaOut
      ⟨p.rise mem b, b⟩
  | .level m =>
      let b := m && x.port.serial.sdaOut
      ⟨x.port.change x.sda b, b⟩

/-- A slave at rest is at rest behind every wave. -/
lemma I2cState.high_wave (mem : BitVec 8 → BitVec 8) {x : I2cState} (h : x.port.High)
    (w : I2cWave) : (x.wave mem w).port.High := by
  cases w with
  | bit m => exact h.fall.rise
  | level m =>
      simp only [I2cState.wave, I2cPort.change]
      split
      · exact I2cPort.High.started _
      · split
        · exact ⟨h.state, h.clear, h.writeEn⟩
        · exact h

namespace EdidRuns

variable {mem : BitVec 8 → BitVec 8} {pins : ℕ → EdidPins} {σ : ℕ → AvalonSlaveEdid}

/-- The run has caught up with a bus on which `scl` was high up to the clock `e`. The filters show
it 11 clocks later. -/
structure Settled (mem : BitVec 8 → BitVec 8) (pins : ℕ → EdidPins) (σ : ℕ → AvalonSlaveEdid)
    (e : ℕ) (x : I2cState) : Prop where
  high : x.port.High
  pulled : x.port.serial.sdaOut = false → x.sda = false
  core : (σ (e + 11)).core = EdidCore.rest mem x.port
  edge : (σ (e + 11)).i2c.startEdgeDet = false
  scl : ∀ u, e ≤ u → u < e + 11 → (σ u).i2c.sclDeb = true
  sda : ∀ u, e ≤ u → u < e + 11 → (σ u).i2c.sdaDeb = x.sda
  out : ∀ u, e ≤ u → u ≤ e + 11 → (σ u).i2c.serial.sdaOut = x.port.serial.sdaOut

/-- No START or STOP shows while the filtered `sda` keeps its level. -/
lemma still (h : EdidRuns mem pins σ) {u : ℕ} (hu : 4 ≤ u)
    (hdeb : (σ (u - 3)).i2c.sdaDeb = (σ (u - 4)).i2c.sdaDeb) :
    (σ u).i2c.sdaFalls = false ∧ (σ u).i2c.sdaRises = false := by
  obtain ⟨t, rfl⟩ : ∃ t, u = t + 4 := ⟨u - 4, by omega⟩
  rw [show t + 4 - 3 = t + 1 by omega, Nat.add_sub_cancel] at hdeb
  rw [h.sdaFalls_eq, h.sdaRises_eq, hdeb]
  cases (σ t).i2c.sdaDeb <;> simp

/-! ### A pulse -/

section Pulse

variable {e r e' : ℕ} {m : Bool} {x : I2cState}

/-- The falling edge takes its time through the filter and the delay. -/
lemma Settled.before_fall (h : EdidRuns mem pins σ) (hx : Settled mem pins σ e x)
    (hr : e + 32 ≤ r) (hlow : ∀ u, e ≤ u → u < r → (pins u).scl = false) {u : ℕ}
    (hu : e + 11 ≤ u) (hue : u ≤ e + 21) :
    (σ u).core = EdidCore.rest mem x.port ∧ (σ u).i2c.startEdgeDet = false := by
  induction u, hu using Nat.le_induction with
  | base => exact ⟨hx.core, hx.edge⟩
  | succ u hu ih =>
      obtain ⟨hcore, hedge⟩ := ih (by omega)
      have hdeb : (σ u).i2c.sclDeb = false := h.sclDeb_eq hlow (by omega) hu (by omega)
      have hscl : (σ u).i2c.sclDelayed.getLsbD (sclDelLen - 1) = true := by
        have hpast := h.sclDelayed_eq (u - 10)
        rw [show u - 10 + 10 = u by omega] at hpast
        rw [hpast, hx.scl _ (by omega) (by omega)]
      obtain ⟨hnext, hedge'⟩ := h.core_next hedge (by simp [hdeb])
      refine ⟨?_, hedge'⟩
      rw [hnext, hcore, hscl, EdidCore.step_high hx.high]

/-- Behind the falling edge the slave is at rest again well before `scl` rises. -/
lemma Settled.after_fall (h : EdidRuns mem pins σ) (hx : Settled mem pins σ e x)
    (hr : e + 32 ≤ r) (hlow : ∀ u, e ≤ u → u < r → (pins u).scl = false) {u : ℕ}
    (hu : e + 26 ≤ u) (hur : u ≤ r + 11) :
    (σ u).core = EdidCore.rest mem (x.port.fall mem) ∧ (σ u).i2c.startEdgeDet = false := by
  have hedges : ∀ k ≤ r - e - 10, (σ (e + 21 + k)).i2c.startEdgeDet = false := by
    intro k hk
    induction k with
    | zero => exact (hx.before_fall h hr hlow (by omega) le_rfl).2
    | succ k ih =>
        have hdeb : (σ (e + 21 + k)).i2c.sclDeb = false :=
          h.sclDeb_eq hlow (by omega) (by omega) (by omega)
        exact (h.core_next (ih (by omega)) (by simp [hdeb])).2
  have hc : ∀ k < r - e - 10, (σ (e + 21 + (k + 1))).core
      = (σ (e + 21 + k)).core.step mem false (σ (e + 21 + k)).i2c.sdaDeb := by
    intro k hk
    have hdeb : (σ (e + 21 + k)).i2c.sclDeb = false :=
      h.sclDeb_eq hlow (by omega) (by omega) (by omega)
    have hscl : (σ (e + 21 + k)).i2c.sclDelayed.getLsbD (sclDelLen - 1) = false := by
      rw [show e + 21 + k = e + 11 + k + 10 by omega, h.sclDelayed_eq]
      exact h.sclDeb_eq hlow (by omega) (by omega) (by omega)
    rw [← hscl]
    exact (h.core_next (hedges k (by omega)) (by simp [hdeb])).1
  obtain ⟨k, rfl⟩ : ∃ k, u = e + 21 + k := ⟨u - (e + 21), by omega⟩
  refine ⟨?_, hedges k (by omega)⟩
  exact EdidCore.eq_of_fixed (c := fun k => (σ (e + 21 + k)).core) hc
    (fun b => EdidCore.step_low hx.high.fall)
    (EdidCore.fall_rests (c := fun k => (σ (e + 21 + k)).core) hc (by omega) hx.high
      (hx.before_fall h hr hlow (by omega) le_rfl).1) (by omega) (by omega)

/-- What is known of the slave between the two edges and the end of the pulse. -/
structure Held (mem : BitVec 8 → BitVec 8) (σ : ℕ → AvalonSlaveEdid) (e r : ℕ) (q : I2cPort)
    (u : ℕ) : Prop where
  edge : (σ u).i2c.startEdgeDet = false
  out : ∀ v, e + 26 ≤ v → v ≤ u → (σ v).i2c.serial.sdaOut = q.serial.sdaOut
  core : u ≤ r + 21 → (σ u).core = EdidCore.rest mem q
  state : (σ u).i2c.serial.currState ≠ .start ∧ (σ u).i2c.serial.currState ≠ .writeChkLoopFin

/-- As long as the slave holds its level, the filter shows the level of the wire. -/
lemma Held.sdaDeb_eq (h : EdidRuns mem pins σ) {q : I2cPort} {u : ℕ} (hu : Held mem σ e r q u)
    (hr : e + 32 ≤ r) (he : r + 18 ≤ e')
    (hsda : ∀ u, r ≤ u + 5 → u < e' → (pins u).sda = m) (hru : r + 11 ≤ u) {t : ℕ}
    (ht : r + 6 ≤ t) (htu : t ≤ u) (hte : t < e' + 11) :
    (σ t).i2c.sdaDeb = (m && q.serial.sdaOut) := by
  have hline : ∀ v, r - 5 ≤ v → v < min (u + 1) e' →
      sdaLine pins σ v = (m && q.serial.sdaOut) := by
    intro v hv hvu
    rw [sdaLine, I2cSlave.sda, hsda v (by omega) (by omega), hu.out v (by omega) (by omega)]
  exact h.sdaDeb_eq hline (by omega) (by omega) (by omega)

/-- Nothing the slave does behind the rising edge touches the wire. -/
lemma Settled.held (h : EdidRuns mem pins σ) (hx : Settled mem pins σ e x) (hr : e + 32 ≤ r)
    (he : r + 18 ≤ e') (hlow : ∀ u, e ≤ u → u < r → (pins u).scl = false)
    (hhigh : ∀ u, r ≤ u → u < e' → (pins u).scl = true)
    (hsda : ∀ u, r ≤ u + 5 → u < e' → (pins u).sda = m) {u : ℕ} (hu : r + 11 ≤ u)
    (hue : u ≤ e' + 11) : Held mem σ e r (x.port.fall mem) u := by
  have hlowState : ∀ v, (σ v).core = EdidCore.rest mem (x.port.fall mem) →
      (σ v).i2c.serial.currState ≠ .start ∧ (σ v).i2c.serial.currState ≠ .writeChkLoopFin := by
    intro v hv
    have hserial : (σ v).i2c.serial = (x.port.fall mem).serial := congrArg EdidCore.serial hv
    rw [hserial]
    rcases hx.high.fall.state with hst | hst | hst | hst | hst <;> rw [hst] <;> simp
  induction u, hu using Nat.le_induction with
  | base =>
      obtain ⟨hcore, hedge⟩ := hx.after_fall h hr hlow (by omega) le_rfl
      refine ⟨hedge, fun v hv hvr => ?_, fun _ => hcore, hlowState _ hcore⟩
      exact congrArg (fun c => c.serial.sdaOut) (hx.after_fall h hr hlow hv hvr).1
  | succ u hu ih =>
      have hheld := ih (by omega)
      have hdeb : (σ (u - 3)).i2c.sdaDeb = (σ (u - 4)).i2c.sdaDeb := by
        rw [hheld.sdaDeb_eq h hr he hsda hu (t := u - 3) (by omega) (by omega) (by omega),
          hheld.sdaDeb_eq h hr he hsda hu (t := u - 4) (by omega) (by omega) (by omega)]
      obtain ⟨hnext, hedge⟩ := h.core_next hheld.edge fun _ => h.still (by omega) hdeb
      have hpast : (σ u).i2c.sclDelayed.getLsbD (sclDelLen - 1) = (σ (u - 10)).i2c.sclDeb := by
        have hpast := h.sclDelayed_eq (u - 10)
        rwa [show u - 10 + 10 = u by omega] at hpast
      have hout : ∀ v, e + 26 ≤ v → v ≤ u + 1 →
          (σ (u + 1)).i2c.serial.sdaOut = (x.port.fall mem).serial.sdaOut →
          (σ v).i2c.serial.sdaOut = (x.port.fall mem).serial.sdaOut := by
        intro v hv hvu hlast
        rcases Nat.lt_or_eq_of_le hvu with hlt | rfl
        · exact hheld.out v hv (by omega)
        · exact hlast
      by_cases hur : u < r + 21
      · -- the rising edge is still on its way
        have hscl : (σ (u - 10)).i2c.sclDeb = false :=
          h.sclDeb_eq hlow (by omega) (by omega) (by omega)
        have hcore : (σ (u + 1)).core = EdidCore.rest mem (x.port.fall mem) := by
          rw [hnext, hpast, hscl, hheld.core (by omega), EdidCore.step_low hx.high.fall]
        refine ⟨hedge, fun v hv hvu => hout v hv hvu ?_, fun _ => hcore, hlowState _ hcore⟩
        exact congrArg (fun c => c.serial.sdaOut) hcore
      · have hscl : (σ (u - 10)).i2c.sclDeb = true :=
          h.sclDeb_eq hhigh (by omega) (by omega) (by omega)
        rw [hpast, hscl] at hnext
        have hserial : (σ (u + 1)).i2c.serial = _ := congrArg EdidCore.serial hnext
        refine ⟨hedge, fun v hv hvu => hout v hv hvu ?_, fun hle => absurd hle (by omega), ?_⟩
        · rw [hserial]
          exact (SerialInterface.next_high hheld.state).1.trans (hheld.out u (by omega) le_rfl)
        · rw [hserial]
          exact (SerialInterface.next_high hheld.state).2

/-- **A pulse of `scl`.** -/
lemma Settled.pulse (h : EdidRuns mem pins σ) (hx : Settled mem pins σ e x) (hr : e + 32 ≤ r)
    (he : r + 18 ≤ e') (hlow : ∀ u, e ≤ u → u < r → (pins u).scl = false)
    (hhigh : ∀ u, r ≤ u → u < e' → (pins u).scl = true)
    (hsda : ∀ u, r ≤ u + 5 → u < e' → (pins u).sda = m) :
    Settled mem pins σ e' (x.wave mem (.bit m))
      ∧ ∀ u, r ≤ u → u < e' → sdaLine pins σ u = (x.wave mem (.bit m)).sda := by
  set q := x.port.fall mem with hq
  set b := m && q.serial.sdaOut with hb
  have hheld := fun {u} hu hue => hx.held h hr he hlow hhigh hsda (u := u) hu hue
  have hend := hheld (u := e' + 11) (by omega) le_rfl
  have hdeb : ∀ t, r + 6 ≤ t → t < e' + 11 → (σ t).i2c.sdaDeb = b := fun t ht hte =>
    hend.sdaDeb_eq h hr he hsda (by omega) ht (by omega) hte
  have hscl : ∀ t, r + 11 ≤ t → t < e' + 11 → (σ t).i2c.sclDeb = true := fun t ht hte =>
    h.sclDeb_eq hhigh (by omega) ht hte
  have hc : ∀ k < e' - r - 10, (σ (r + 21 + (k + 1))).core
      = (σ (r + 21 + k)).core.step mem true b := by
    intro k hk
    have hpast : (σ (r + 21 + k)).i2c.sclDelayed.getLsbD (sclDelLen - 1) = true := by
      rw [show r + 21 + k = r + 11 + k + 10 by omega, h.sclDelayed_eq]
      exact hscl _ (by omega) (by omega)
    have hnext := (h.core_next (hheld (u := r + 21 + k) (by omega) (by omega)).edge
      fun _ => h.still (by omega) ((hdeb _ (by omega) (by omega)).trans
        (hdeb _ (by omega) (by omega)).symm)).1
    rwa [hpast, hdeb _ (by omega) (by omega)] at hnext
  have hlast : (σ (r + 21 + (e' - r - 10))).core = EdidCore.rest mem (q.rise mem b) :=
    EdidCore.eq_of_fixed (c := fun k => (σ (r + 21 + k)).core) hc
      (fun b' => EdidCore.step_high hx.high.fall.rise)
      (EdidCore.rise_rests (c := fun k => (σ (r + 21 + k)).core) hc (by omega) hx.high.fall
        ((hheld (u := r + 21) (by omega) (by omega)).core le_rfl)) (by omega) le_rfl
  rw [show r + 21 + (e' - r - 10) = e' + 11 by omega] at hlast
  have hsame : (q.rise mem b).serial.sdaOut = q.serial.sdaOut := I2cPort.rise_sdaOut
  refine ⟨⟨hx.high.fall.rise, fun hlow' => ?_, hlast, hend.edge, fun u hu hue => ?_,
    fun u hu hue => ?_, fun u hu hue => ?_⟩, fun u hu hue => ?_⟩
  · have hq' : q.serial.sdaOut = false := hsame.symm.trans hlow'
    simp [I2cState.wave, ← hq, hq']
  · exact hscl u (by omega) hue
  · exact hdeb u (by omega) hue
  · exact (hend.out u (by omega) hue).trans hsame.symm
  · rw [sdaLine, I2cSlave.sda, hsda u (by omega) hue, hend.out u (by omega) (by omega)]
    rfl

end Pulse

/-! ### A change of level -/

section Level

variable {e e' : ℕ} {m : Bool} {x : I2cState}

/-- Under a high `scl` the delayed `scl` is high too. -/
lemma Settled.scl_high (h : EdidRuns mem pins σ) (hx : Settled mem pins σ e x) (he : e + 10 ≤ e')
    (hhigh : ∀ u, e ≤ u → u < e' → (pins u).scl = true) {u : ℕ} (hu : e + 11 ≤ u)
    (hue : u < e' + 11) : (σ u).i2c.sclDeb = true
      ∧ (σ u).i2c.sclDelayed.getLsbD (sclDelLen - 1) = true := by
  have hdeb : ∀ t, e ≤ t → t < e' + 11 → (σ t).i2c.sclDeb = true := by
    intro t ht hte
    by_cases hnew : t < e + 11
    · exact hx.scl t ht hnew
    · exact h.sclDeb_eq hhigh (by omega) (by omega) hte
  have hpast := h.sclDelayed_eq (u - 10)
  rw [show u - 10 + 10 = u by omega] at hpast
  exact ⟨hdeb u (by omega) hue, hpast.trans (hdeb _ (by omega) (by omega))⟩

/-- While the filtered `sda` keeps its level the slave rests. -/
lemma Settled.rests (h : EdidRuns mem pins σ) (hx : Settled mem pins σ e x) (he : e + 10 ≤ e')
    (hhigh : ∀ u, e ≤ u → u < e' → (pins u).scl = true) {a b : ℕ} {p : I2cPort} (hp : p.High)
    (ha : e + 11 ≤ a) (hb : b ≤ e' + 11) (hcore : (σ a).core = EdidCore.rest mem p)
    (hedge : (σ a).i2c.startEdgeDet = false)
    (hsame : ∀ t, a ≤ t → t < b → (σ (t - 3)).i2c.sdaDeb = (σ (t - 4)).i2c.sdaDeb) {u : ℕ}
    (hau : a ≤ u) (hub : u ≤ b) :
    (σ u).core = EdidCore.rest mem p ∧ (σ u).i2c.startEdgeDet = false := by
  induction u, hau using Nat.le_induction with
  | base => exact ⟨hcore, hedge⟩
  | succ u hau ih =>
      obtain ⟨hcore', hedge'⟩ := ih (by omega)
      obtain ⟨hnext, hnextEdge⟩ := h.core_next hedge' fun _ =>
        h.still (by omega) (hsame u hau (by omega))
      refine ⟨?_, hnextEdge⟩
      rw [hnext, hcore', (hx.scl_high h he hhigh (by omega) (by omega)).2,
        EdidCore.step_high hp]

/-- `sda` keeps its level. -/
lemma Settled.idle (h : EdidRuns mem pins σ) (hx : Settled mem pins σ e x) (he : e + 10 ≤ e')
    (hhigh : ∀ u, e ≤ u → u < e' → (pins u).scl = true)
    (hsda : ∀ u, e ≤ u → u < e' → (pins u).sda = m)
    (hb : (m && x.port.serial.sdaOut) = x.sda) :
    Settled mem pins σ e' x ∧ ∀ u, e ≤ u → u < e' → sdaLine pins σ u = x.sda := by
  have hdeb : ∀ u, e + 11 ≤ u → u ≤ e' + 11 →
      (∀ v, e ≤ v → v ≤ u → (σ v).i2c.serial.sdaOut = x.port.serial.sdaOut) →
      ∀ t, e ≤ t → t ≤ u → t < e' + 11 → (σ t).i2c.sdaDeb = x.sda := by
    intro u hu hue hout t ht htu hte
    by_cases hnew : t < e + 11
    · exact hx.sda t ht hnew
    · refine h.sdaDeb_eq (a := e) (b := min (u + 1) e') (fun v hv hvu => ?_) (by omega) (by omega)
        (by omega)
      rw [sdaLine, I2cSlave.sda, hsda v hv (by omega), hout v hv (by omega), hb]
  have hrest : ∀ u, e + 11 ≤ u → u ≤ e' + 11 →
      ((σ u).core = EdidCore.rest mem x.port ∧ (σ u).i2c.startEdgeDet = false)
        ∧ ∀ v, e ≤ v → v ≤ u → (σ v).i2c.serial.sdaOut = x.port.serial.sdaOut := by
    intro u hu
    induction u, hu using Nat.le_induction with
    | base => exact fun _ => ⟨⟨hx.core, hx.edge⟩, hx.out⟩
    | succ u hu ih =>
        intro hue
        obtain ⟨⟨hcore, hedge⟩, hout⟩ := ih (by omega)
        have hnext := hx.rests h he hhigh hx.high hu hue hcore hedge (fun t ht htu =>
          (hdeb u hu (by omega) hout (t - 3) (by omega) (by omega) (by omega)).trans
            (hdeb u hu (by omega) hout (t - 4) (by omega) (by omega) (by omega)).symm)
          (Nat.le_succ u) le_rfl
        refine ⟨hnext, fun v hv hvu => ?_⟩
        rcases Nat.lt_or_eq_of_le hvu with hlt | rfl
        · exact hout v hv (by omega)
        · exact congrArg (fun c => c.serial.sdaOut) hnext.1
  obtain ⟨⟨hcore, hedge⟩, hout⟩ := hrest (e' + 11) (by omega) le_rfl
  refine ⟨⟨hx.high, hx.pulled, hcore, hedge, fun u hu hue => ?_, fun u hu hue => ?_,
    fun u hu hue => hout u (by omega) hue⟩, fun u hu hue => ?_⟩
  · by_cases hnew : u < e + 11
    · exact hx.scl u (by omega) hnew
    · exact (hx.scl_high h he hhigh (by omega) hue).1
  · exact hdeb (e' + 11) (by omega) le_rfl hout u (by omega) (by omega) hue
  · rw [sdaLine, I2cSlave.sda, hsda u hu hue, hout u hu (by omega), hb]

/-- What the filtered `sda` shows around a change. -/
lemma Settled.sdaDeb_change (h : EdidRuns mem pins σ) (hx : Settled mem pins σ e x)
    (hsda : ∀ u, e ≤ u → u < e + 11 → (pins u).sda = m) {t : ℕ} (ht : e + 11 ≤ t)
    (hte : t < e + 22) : (σ t).i2c.sdaDeb = (m && x.port.serial.sdaOut) := by
  refine h.sdaDeb_eq (a := e) (b := e + 11) (fun v hv hve => ?_) (by omega) ht (by omega)
  rw [sdaLine, I2cSlave.sda, hsda v hv hve, hx.out v hv (by omega)]

/-- A change of `sda` shows three clocks behind the filter. -/
lemma Settled.before_change (h : EdidRuns mem pins σ) (hx : Settled mem pins σ e x)
    (hhigh : ∀ u, e ≤ u → u < e + 11 → (pins u).scl = true) :
    (σ (e + 14)).core = EdidCore.rest mem x.port ∧ (σ (e + 14)).i2c.startEdgeDet = false :=
  hx.rests h (Nat.le_succ _) hhigh hx.high (a := e + 11) (b := e + 14) le_rfl (by omega) hx.core
    hx.edge
    (fun t ht hte => (hx.sda (t - 3) (by omega) (by omega)).trans
      (hx.sda (t - 4) (by omega) (by omega)).symm) (by omega) le_rfl

/-- The clock at which a change of `sda` shows. -/
lemma Settled.change_clock (h : EdidRuns mem pins σ) (hx : Settled mem pins σ e x)
    (hhigh : ∀ u, e ≤ u → u < e + 11 → (pins u).scl = true)
    (hsda : ∀ u, e ≤ u → u < e + 11 → (pins u).sda = m)
    (hb : (m && x.port.serial.sdaOut) = !x.sda) :
    (σ (e + 15)).core
        = EdidCore.rest mem { x.port with det := if x.sda then .start else .stop }
      ∧ (σ (e + 15)).i2c.startEdgeDet = x.sda := by
  obtain ⟨hcore, hedge⟩ := hx.before_change h hhigh
  obtain ⟨hscl, hdel⟩ := hx.scl_high h (Nat.le_succ _) hhigh (u := e + 14) (by omega) (by omega)
  have hnew := hx.sdaDeb_change h hsda (t := e + 11) (by omega) (by omega)
  have hold := hx.sda (e + 10) (by omega) (by omega)
  have hfalls : (σ (e + 14)).i2c.sdaFalls = x.sda := by
    rw [show e + 14 = e + 10 + 4 by omega, h.sdaFalls_eq, hold, show e + 10 + 1 = e + 11 by omega,
      hnew, hb]
    simp
  have hrises : (σ (e + 14)).i2c.sdaRises = !x.sda := by
    rw [show e + 14 = e + 10 + 4 by omega, h.sdaRises_eq, hold, show e + 10 + 1 = e + 11 by omega,
      hnew, hb]
    simp
  have hserial : (σ (e + 14)).i2c.serial = x.port.serial := congrArg EdidCore.serial hcore
  have haddr : (σ (e + 14)).edid.addressReg = x.port.serial.regAddr :=
    congrArg EdidCore.addressReg hcore
  have hfixed : EdidCore.step mem true (σ (e + 14)).i2c.sdaDeb (EdidCore.rest mem x.port)
      = EdidCore.rest mem x.port := EdidCore.step_high hx.high
  have hnext := congrArg EdidCore.serial hfixed
  rw [← hcore] at hnext
  constructor
  · rw [show e + 15 = e + 14 + 1 by omega, h.core_clock, hedge, hdel, hscl, hfalls, hrises, haddr]
    rw [show (σ (e + 14)).i2c.serial.clearStartStopDet = false by rw [hserial]; exact hx.high.clear]
    have hclock : (σ (e + 14)).i2c.serial.clock false (σ (e + 14)).edid.q true
        (σ (e + 14)).i2c.sdaDeb (σ (e + 14)).i2c.startStopDetState = x.port.serial :=
      hnext.trans hserial
    rw [hclock, hserial]
    cases x.sda <;> rfl
  · rw [show e + 15 = e + 14 + 1 by omega, h.startEdgeDet_next, hscl, hfalls, Bool.true_and]

/-- `sda` rises under a high `scl`. -/
lemma Settled.stop (h : EdidRuns mem pins σ) (hx : Settled mem pins σ e x)
    (hhigh : ∀ u, e ≤ u → u < e + 11 → (pins u).scl = true)
    (hsda : ∀ u, e ≤ u → u < e + 11 → (pins u).sda = true) (hold : x.sda = false)
    (hout : x.port.serial.sdaOut = true) :
    Settled mem pins σ (e + 11) ⟨{ x.port with det := .stop }, true⟩ := by
  set p : I2cPort := { x.port with det := .stop } with hp
  have hphigh : p.High := ⟨hx.high.state, hx.high.clear, hx.high.writeEn⟩
  have hdeb : ∀ t, e + 11 ≤ t → t < e + 22 → (σ t).i2c.sdaDeb = true := fun t ht hte => by
    rw [hx.sdaDeb_change h hsda ht hte, hout, Bool.true_and]
  obtain ⟨hcore, hedge⟩ := hx.change_clock h hhigh hsda (by rw [hout, hold]; rfl)
  rw [hold] at hcore hedge
  have hafter := fun {u} hau hub => hx.rests h (Nat.le_succ _) hhigh hphigh (a := e + 15)
    (b := e + 22) (by omega) (by omega) hcore hedge (fun t ht hte =>
      (hdeb (t - 3) (by omega) (by omega)).trans (hdeb (t - 4) (by omega) (by omega)).symm)
    (u := u) hau hub
  obtain ⟨hlast, hlastEdge⟩ := hafter (u := e + 22) (by omega) le_rfl
  refine ⟨hphigh, fun hlow => absurd (hlow.symm.trans hout) (by simp), hlast, hlastEdge,
    fun u hu hue => (hx.scl_high h (Nat.le_succ _) hhigh hu hue).1, hdeb, fun u hu hue => ?_⟩
  by_cases hnew : u < e + 15
  · have hbefore := hx.rests h (Nat.le_succ _) hhigh hx.high (a := e + 11) (b := e + 14) le_rfl
      (by omega) hx.core hx.edge (fun t ht hte => (hx.sda (t - 3) (by omega) (by omega)).trans
        (hx.sda (t - 4) (by omega) (by omega)).symm) hu (by omega)
    exact congrArg (fun c => c.serial.sdaOut) hbefore.1
  · exact congrArg (fun c => c.serial.sdaOut) (hafter (u := u) (by omega) hue).1

/-- `sda` falls under a high `scl`: the state machine starts again. -/
lemma Settled.start (h : EdidRuns mem pins σ) (hx : Settled mem pins σ e x)
    (hhigh : ∀ u, e ≤ u → u < e + 11 → (pins u).scl = true)
    (hsda : ∀ u, e ≤ u → u < e + 11 → (pins u).sda = false) (hold : x.sda = true) :
    Settled mem pins σ (e + 11) ⟨x.port.started, false⟩ := by
  have hout : x.port.serial.sdaOut = true := by
    by_contra hlow
    have hsda' := hx.pulled (by simpa using hlow)
    simp [hold] at hsda'
  have hdeb : ∀ t, e + 11 ≤ t → t < e + 22 → (σ t).i2c.sdaDeb = false := fun t ht hte => by
    rw [hx.sdaDeb_change h hsda ht hte, Bool.false_and]
  have hstill : ∀ t, e + 15 ≤ t → t < e + 22 →
      (σ t).i2c.sdaFalls = false ∧ (σ t).i2c.sdaRises = false := fun t ht hte =>
    h.still (by omega) ((hdeb (t - 3) (by omega) (by omega)).trans
      (hdeb (t - 4) (by omega) (by omega)).symm)
  have hscl := fun {u} hu hue => hx.scl_high h (Nat.le_succ _) hhigh (u := u) hu hue
  obtain ⟨h15, hedge15⟩ := hx.change_clock h hhigh hsda (by rw [hold]; rfl)
  rw [hold] at h15 hedge15
  -- one clock of reset, three through the first states
  have h16 : (σ (e + 16)).core = EdidCore.rest mem ⟨x.port.serial.reset, .start⟩ := by
    have hserial : (σ (e + 15)).i2c.serial = x.port.serial := congrArg EdidCore.serial h15
    have hdet : (σ (e + 15)).i2c.startStopDetState = .start := congrArg EdidCore.det h15
    have haddr : (σ (e + 15)).edid.addressReg = x.port.serial.regAddr :=
      congrArg EdidCore.addressReg h15
    obtain ⟨hfalls, hrises⟩ := hstill (e + 15) le_rfl (by omega)
    rw [h.core_clock (e + 15), hedge15, hserial, hdet, haddr, hfalls, hrises, hx.high.clear]
    simp [SerialInterface.clock, EdidCore.rest, SerialInterface.reset]
  have hedge : ∀ t, e + 16 ≤ t → t ≤ e + 22 → (σ t).i2c.startEdgeDet = false := by
    intro t ht hte
    obtain ⟨u, rfl⟩ : ∃ u, t = u + 1 := ⟨t - 1, by omega⟩
    rw [h.startEdgeDet_next, (hstill u (by omega) (by omega)).1, Bool.and_false]
  have hnext : ∀ t, e + 16 ≤ t → t < e + 22 →
      (σ (t + 1)).core = (σ t).core.step mem true false := by
    intro t ht hte
    have hnext := (h.core_next (hedge t ht (by omega)) fun _ => hstill t (by omega) hte).1
    rwa [(hscl (by omega) (by omega)).2, hdeb t (by omega) hte] at hnext
  have h19 : (σ (e + 19)).core = EdidCore.rest mem x.port.started := by
    rw [hnext (e + 18) (by omega) (by omega), hnext (e + 17) (by omega) (by omega),
      hnext (e + 16) (by omega) (by omega), h16]
    simp [EdidCore.step, EdidCore.rest, SerialInterface.next, SerialInterface.reset,
      I2cPort.started]
    decide
  have hafter := fun {u} hau hub => hx.rests h (Nat.le_succ _) hhigh (I2cPort.High.started x.port)
    (a := e + 19) (b := e + 22) (by omega) (by omega) h19 (hedge _ (by omega) (by omega))
    (fun t ht hte => (hdeb (t - 3) (by omega) (by omega)).trans
      (hdeb (t - 4) (by omega) (by omega)).symm) (u := u) hau hub
  obtain ⟨hlast, hlastEdge⟩ := hafter (u := e + 22) (by omega) le_rfl
  refine ⟨I2cPort.High.started _, fun _ => rfl, hlast, hlastEdge,
    fun u hu hue => (hscl hu hue).1, hdeb, fun u hu hue => ?_⟩
  change (σ u).core.serial.sdaOut = true
  have hcases : u ≤ e + 14 ∨ u = e + 15 ∨ u = e + 16 ∨ u = e + 17 ∨ u = e + 18 ∨ e + 19 ≤ u := by
    omega
  rcases hcases with hle | rfl | rfl | rfl | rfl | hle
  · have hbefore := hx.rests h (Nat.le_succ _) hhigh hx.high (a := e + 11) (b := e + 14) le_rfl
      (by omega) hx.core hx.edge (fun t ht hte => (hx.sda (t - 3) (by omega) (by omega)).trans
        (hx.sda (t - 4) (by omega) (by omega)).symm) hu hle
    rw [hbefore.1]
    exact hout
  · rw [h15]
    exact hout
  · rw [h16]
    rfl
  · rw [hnext (e + 16) (by omega) (by omega), h16]
    rfl
  · rw [hnext (e + 17) (by omega) (by omega), hnext (e + 16) (by omega) (by omega), h16]
    rfl
  · rw [(hafter hle hue).1]
    rfl

/-- **A change of level, or none, under a high `scl`.** -/
lemma Settled.level (h : EdidRuns mem pins σ) (hx : Settled mem pins σ e x) (he : e + 21 ≤ e')
    (hhigh : ∀ u, e ≤ u → u < e' → (pins u).scl = true)
    (hsda : ∀ u, e ≤ u → u < e' → (pins u).sda = m) :
    Settled mem pins σ e' (x.wave mem (.level m))
      ∧ ∀ u, e ≤ u → u < e' → sdaLine pins σ u = (x.wave mem (.level m)).sda := by
  have hhigh' : ∀ u, e ≤ u → u < e + 11 → (pins u).scl = true := fun u hu hue =>
    hhigh u hu (by omega)
  have hsda' : ∀ u, e ≤ u → u < e + 11 → (pins u).sda = m := fun u hu hue => hsda u hu (by omega)
  have hsplit : ∀ y : I2cState, Settled mem pins σ (e + 11) y →
      (m && y.port.serial.sdaOut) = y.sda →
      (∀ u, e ≤ u → u < e + 11 → sdaLine pins σ u = y.sda) →
      Settled mem pins σ e' y ∧ ∀ u, e ≤ u → u < e' → sdaLine pins σ u = y.sda := by
    intro y hy hb hline
    obtain ⟨hend, hline'⟩ := hy.idle h (by omega) (fun u hu hue => hhigh u (by omega) hue)
      (fun u hu hue => hsda u (by omega) hue) hb
    refine ⟨hend, fun u hu hue => ?_⟩
    by_cases hnew : u < e + 11
    · exact hline u hu hnew
    · exact hline' u (by omega) hue
  have hline : ∀ u, e ≤ u → u < e + 11 → sdaLine pins σ u = (m && x.port.serial.sdaOut) := by
    intro u hu hue
    rw [sdaLine, I2cSlave.sda, hsda' u hu hue, hx.out u hu (by omega)]
  by_cases hb : (m && x.port.serial.sdaOut) = x.sda
  · have hwave : x.wave mem (.level m) = x := by
      simp only [I2cState.wave, hb, I2cPort.change_same]
    rw [hwave]
    exact hx.idle h (by omega) hhigh hsda hb
  · cases hold : x.sda
    · -- a STOP
      rw [hold, Bool.not_eq_false, Bool.and_eq_true] at hb
      obtain ⟨rfl, hout⟩ := hb
      have hwave : x.wave mem (.level true) = ⟨{ x.port with det := .stop }, true⟩ := by
        simp [I2cState.wave, I2cPort.change, hold, hout]
      rw [hwave]
      exact hsplit _ (hx.stop h hhigh' hsda' hold hout) (by simp [hout])
        fun u hu hue => by rw [hline u hu hue, hout]; rfl
    · -- a START
      have hout : x.port.serial.sdaOut = true := by
        by_contra hlow
        have hsda := hx.pulled (by simpa using hlow)
        simp [hold] at hsda
      rw [hold, hout, Bool.and_true, Bool.not_eq_true] at hb
      subst hb
      have hwave : x.wave mem (.level false) = ⟨x.port.started, false⟩ := by
        simp [I2cState.wave, I2cPort.change, hold]
      rw [hwave]
      exact hsplit _ (hx.start h hhigh' hsda' hold) rfl
        fun u hu hue => by rw [hline u hu hue]; rfl

end Level

/-- **A wave over the pins** leaves the slave as the state says, and as long as `scl` is high the
wire has the level that the state says. -/
theorem Settled.wave (h : EdidRuns mem pins σ) {e e' : ℕ} {x : I2cState} {w : I2cWave}
    (hx : Settled mem pins σ e x) (hw : w.Over pins e e') :
    Settled mem pins σ e' (x.wave mem w)
      ∧ ∀ u, e ≤ u → u < e' → (pins u).scl = true → sdaLine pins σ u = (x.wave mem w).sda := by
  cases w with
  | bit m =>
      obtain ⟨r, hr, he, hlow, hhigh, hsda⟩ := hw
      obtain ⟨hend, hline⟩ := hx.pulse h hr he hlow hhigh hsda
      refine ⟨hend, fun u hu hue hscl => hline u ?_ hue⟩
      by_contra hur
      rw [hlow u hu (by omega)] at hscl
      exact Bool.false_ne_true hscl
  | level m =>
      obtain ⟨he, hhigh, hsda⟩ := hw
      obtain ⟨hend, hline⟩ := hx.level h he hhigh hsda
      exact ⟨hend, fun u hu hue _ => hline u hu hue⟩

/-! ### A run of waves -/

/-- The waves go over the pins one after another, the `i`-th from `e i` to `e (i + 1)`. -/
def Plays (pins : ℕ → EdidPins) (e : ℕ → ℕ) (ws : List I2cWave) : Prop :=
  ∀ (i : ℕ) (w : I2cWave), ws[i]? = some w → w.Over pins (e i) (e (i + 1))

/-- **A run of waves.** -/
theorem Settled.waves (h : EdidRuns mem pins σ) {e : ℕ → ℕ} {x : I2cState} {ws : List I2cWave}
    (hx : Settled mem pins σ (e 0) x) (hws : Plays pins e ws) {i : ℕ} (hi : i ≤ ws.length) :
    Settled mem pins σ (e i) ((ws.take i).foldl (I2cState.wave mem) x) := by
  induction i with
  | zero => exact hx
  | succ i ih =>
      have hget : ws[i]? = some ws[i] := List.getElem?_eq_getElem hi
      rw [List.take_add_one, hget, Option.toList_some, List.foldl_append]
      exact ((ih (by omega)).wave h (hws i _ hget)).1

end EdidRuns

end Danmaku
