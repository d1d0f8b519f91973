import Danmaku.Lib.Period
import Danmaku.PxlCounter

/-!
`syncPolDecter` finds the polarity of a steady sync signal.

From one rising edge to the next it measures both phases, each one clock short, as the first clock
of a phase resets its counter. What it held when it started is gone with the first rising edge.

* `InPeriod`: what the detector holds at a place of the period.
* `normalSync_of_pulse`: **two periods on it shows the resting level**, and for good.
-/

namespace Danmaku

open Period

namespace SyncPolDecter

/-- The detector behind the clock at place `i` of a period of which the first `len` clocks are
high. -/
structure InPeriod (len i : ℕ) (s : SyncPolDecter) : Prop where
  syncD1 : s.syncD1 = decide (i < len)
  highCount : s.highCount = BitVec.ofNat 25 (min i (len - 1))
  lowCount : len ≤ i → s.lowCount = BitVec.ofNat 25 (i - len)

section Period

variable {len i P φ t : ℕ} {s : SyncPolDecter}

/-- A rising edge begins a period. -/
lemma inPeriod_rise (hlen : 1 ≤ len) (h : s.syncD1 = false) : InPeriod len 0 (s.clock true) := by
  refine ⟨?_, ?_, fun h0 => absurd h0 (by omega)⟩
  · rw [clock_syncD1, decide_eq_true (show 0 < len by omega)]
  · simp [clock, h]

/-- A clock inside a period. -/
lemma InPeriod.next (h : InPeriod len i s) :
    InPeriod len (i + 1) (s.clock (decide (i + 1 < len)))
      ∧ (s.clock (decide (i + 1 < len))).normalSync = s.normalSync := by
  obtain ⟨hd, hhigh, hlow⟩ := h
  by_cases hi : i + 1 < len
  · have hd' : s.syncD1 = true := by rw [hd, decide_eq_true (by omega)]
    rw [decide_eq_true hi]
    refine ⟨⟨?_, ?_, fun h0 => absurd h0 (by omega)⟩, clock_normalSync_of_level hd'⟩
    · rw [clock_syncD1, decide_eq_true hi]
    · have hhigh' : (s.clock true).highCount = s.highCount + 1#25 := by simp [clock, hd']
      rw [hhigh', hhigh, Nat.min_eq_left (by omega), Nat.min_eq_left (by omega), BitVec.ofNat_add]
  · rw [decide_eq_false hi]
    refine ⟨⟨?_, ?_, fun hi' => ?_⟩, ?_⟩
    · rw [clock_syncD1, decide_eq_false hi]
    · have hhigh' : (s.clock false).highCount = s.highCount := by
        cases hs : s.syncD1 <;> simp [clock, hs]
      rw [hhigh', hhigh]
      congr 1
      omega
    · -- the first low clock clears the counter
      rcases Nat.eq_or_lt_of_le hi' with heq | hlt
      · have hd' : s.syncD1 = true := by rw [hd, decide_eq_true (by omega)]
        simp [clock, hd', heq]
      · have hd' : s.syncD1 = false := by rw [hd, decide_eq_false (by omega)]
        have hlow' : (s.clock false).lowCount = s.lowCount + 1#25 := by simp [clock, hd']
        rw [hlow', hlow (by omega), ← BitVec.ofNat_add]
        congr 1
        omega
    · cases hs : s.syncD1 <;> simp [clock, hs]

/-- The rising edge at the end of a period compares its phases. -/
lemma InPeriod.rise (h : InPeriod len i s) (hlen : 1 ≤ len) (hi : len ≤ i) (hhigh : len < 2 ^ 25)
    (hlow : i < len + 2 ^ 25) : (s.clock true).normalSync = decide (i + 1 - len < len) := by
  have hd : s.syncD1 = false := by rw [h.syncD1, decide_eq_false (by omega)]
  have hclock : (s.clock true).normalSync = decide (s.lowCount < s.highCount) := by
    simp [clock, hd]
  rw [hclock, decide_eq_decide, h.highCount, h.lowCount hi, BitVec.lt_def, BitVec.toNat_ofNat,
    BitVec.toNat_ofNat, Nat.mod_eq_of_lt (by omega), Nat.mod_eq_of_lt (by omega)]
  omega

/-- From a rising edge on the detector follows the periods, and from the second one it shows how
the phases compare. -/
lemma inPeriod_of_edge {f : ℕ → Bool} {σ : ℕ → SyncPolDecter}
    (hσ : ∀ k, σ (k + 1) = (σ k).clock (f k)) (hf : ∀ k, f k = decide (k % P < len))
    (hd : (σ 0).syncD1 = false) (hlen : 1 ≤ len) (hP : len < P) (hhigh : len < 2 ^ 25)
    (hlow : P - len < 2 ^ 25) (k : ℕ) :
    InPeriod len (k % P) (σ (k + 1))
      ∧ (P ≤ k → (σ (k + 1)).normalSync = decide (P - len < len)) := by
  induction k with
  | zero =>
      refine ⟨?_, fun h => absurd h (by omega)⟩
      rw [hσ, hf, Nat.zero_mod, decide_eq_true (show 0 < len by omega)]
      exact inPeriod_rise hlen hd
  | succ k ih =>
      obtain ⟨hin, hnormal⟩ := ih
      rw [hσ, hf]
      rcases succ_mod_cases (show 0 < P by omega) k with ⟨-, hk, -⟩ | ⟨hlast, hk, -⟩
      · rw [hk]
        refine ⟨hin.next.1, fun hle => hin.next.2.trans (hnormal ?_)⟩
        -- the period that begins at `P` has been measured
        rcases Nat.lt_or_eq_of_le hle with hlt | heq
        · omega
        · rw [← heq, Nat.mod_self] at hk
          omega
      · rw [hk, decide_eq_true (show 0 < len by omega)]
        have hlow' : (σ (k + 1)).syncD1 = false := by
          rw [hin.syncD1, decide_eq_false (by omega)]
        refine ⟨inPeriod_rise hlen hlow', fun _ => ?_⟩
        rw [hin.rise hlen (by omega) hhigh (by omega), hlast]

/-- The detector of a signal that is high for the first `len` clocks of its period. -/
lemma normalSync_of_high {f : ℕ → Bool} {σ : ℕ → SyncPolDecter}
    (hσ : ∀ t, σ (t + 1) = (σ t).clock (f t)) (hf : ∀ t, f t = decide ((t + φ) % P < len))
    (hlen : 1 ≤ len) (hP : len < P) (hhigh : len < 2 ^ 25) (hlow : P - len < 2 ^ 25)
    (ht : 2 * P + 1 ≤ t) : (σ t).normalSync = decide (P - len < len) := by
  have hpos : 0 < P := by omega
  -- the first rising edge that the detector has seen both sides of
  obtain ⟨x, hx1, hx2, hx⟩ := exists_place hpos (φ + 1) 0 hpos
  obtain ⟨e, rfl⟩ : ∃ e, x = e + 1 + φ := ⟨x - φ - 1, by omega⟩
  have hbefore : (e + φ) % P + 1 = P := by
    rcases succ_mod_cases hpos (e + φ) with ⟨-, h, -⟩ | ⟨h, -, -⟩
    · rw [show e + φ + 1 = e + 1 + φ by omega, hx] at h
      omega
    · exact h
  have hd : (σ (e + 1)).syncD1 = false := by
    rw [hσ, clock_syncD1, hf, decide_eq_false (by omega)]
  have hfe : ∀ k, f (e + 1 + k) = decide (k % P < len) := by
    intro k
    rw [hf, show e + 1 + k + φ = e + 1 + φ + k by omega, Nat.add_mod, hx, Nat.zero_add,
      Nat.mod_mod]
  obtain ⟨k, rfl⟩ : ∃ k, t = e + 1 + (k + 1) := ⟨t - e - 2, by omega⟩
  have hall := inPeriod_of_edge (σ := fun k => σ (e + 1 + k)) (fun k => hσ (e + 1 + k)) hfe hd
    hlen hP hhigh hlow k
  exact hall.2 (by omega)

/-- **The detector finds the resting level** of a signal with one pulse a period that is shorter
than the rest, two periods on from any state. -/
theorem normalSync_of_pulse {start : ℕ} {level : Bool} {σ : ℕ → SyncPolDecter}
    (hσ : ∀ t, σ (t + 1) = (σ t).clock (pulse P start len level (t + φ))) (hlen : 1 ≤ len)
    (hend : start + len ≤ P) (hshort : 2 * len < P) (hlong : P - len < 2 ^ 25)
    (ht : 2 * P + 1 ≤ t) : (σ t).normalSync = level := by
  have hf : ∀ t, pulse P start len level (t + φ) = _ := fun t =>
    pulse_eq_high (by omega) hend (t + φ)
  cases level with
  | false =>
      have hrest := normalSync_of_high (φ := φ + (P - start)) hσ (fun t => by
        rw [hf, if_neg (by simp), Nat.add_assoc]) hlen (by omega) (by omega) hlong ht
      rw [hrest, decide_eq_false (by omega)]
  | true =>
      have hrest : (σ t).normalSync = decide (P - (P - len) < P - len) :=
        normalSync_of_high (φ := φ + (P - (start + len))) hσ (fun t => by
          rw [hf, if_pos rfl, Nat.add_assoc]) (by omega) (by omega) hlong (by omega) ht
      rw [hrest, decide_eq_true (by omega)]

end Period

end SyncPolDecter

end Danmaku
