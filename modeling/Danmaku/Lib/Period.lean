import Mathlib.Tactic
import Mathlib.Data.Nat.Count

/-!
Signals that repeat, one clock at a time.

* `pulse`: a signal that leaves its resting level for one pulse a period; `pulse_eq_high`: it is
  high for a part of the period, from its rising edge on.
* `count_shift`: what a period contains does not depend on where it begins.
* `count_grid`: what a raster of lines contains; `getElem?_raster`: one entry of it.
-/

namespace Period

/-! ### One clock on -/

/-- A clock on is the next one of the period, or the first of the next period. -/
lemma succ_mod_cases {P : ℕ} (hP : 0 < P) (u : ℕ) :
    (u % P + 1 < P ∧ (u + 1) % P = u % P + 1 ∧ (u + 1) / P = u / P)
      ∨ (u % P + 1 = P ∧ (u + 1) % P = 0 ∧ (u + 1) / P = u / P + 1) := by
  have hdiv := Nat.div_add_mod u P
  have hlt := Nat.mod_lt u hP
  rcases Nat.lt_or_eq_of_le (Nat.succ_le_of_lt hlt) with h | h
  · have hu : u + 1 = P * (u / P) + (u % P + 1) := by omega
    refine Or.inl ⟨h, ?_, ?_⟩
    · rw [hu, Nat.mul_add_mod, Nat.mod_eq_of_lt h]
    · rw [hu, Nat.mul_add_div hP, Nat.div_eq_of_lt h, Nat.add_zero]
  · have hu : u + 1 = P * (u / P + 1) := by
      rw [Nat.mul_succ]
      omega
    refine Or.inr ⟨h, ?_, ?_⟩
    · rw [hu, Nat.mul_mod_right]
    · rw [hu, Nat.mul_div_cancel_left _ hP]

/-- Every place of the period comes up among `P` clocks. -/
lemma exists_place {P : ℕ} (hP : 0 < P) (lo i : ℕ) (hi : i < P) :
    ∃ t, lo ≤ t ∧ t < lo + P ∧ t % P = i := by
  have hlt := Nat.mod_lt lo hP
  have hdiv := Nat.div_add_mod lo P
  by_cases h : lo % P ≤ i
  · exact ⟨lo + (i - lo % P), by omega, by omega, by
      rw [show lo + (i - lo % P) = P * (lo / P) + i by omega, Nat.mul_add_mod, Nat.mod_eq_of_lt hi]⟩
  · exact ⟨lo + (i + P - lo % P), by omega, by omega, by
      rw [show lo + (i + P - lo % P) = P * (lo / P) + (i + P) by omega, Nat.mul_add_mod,
        Nat.add_mod_right, Nat.mod_eq_of_lt hi]⟩

/-- The place in the period `a` clocks on. -/
lemma add_mod_eq {P a : ℕ} (u : ℕ) (ha : a ≤ P) (hP : 0 < P) :
    (u + a) % P = if u % P + a < P then u % P + a else u % P + a - P := by
  have hdiv := Nat.div_add_mod u P
  have hlt := Nat.mod_lt u hP
  split
  · rw [show u + a = P * (u / P) + (u % P + a) by omega, Nat.mul_add_mod, Nat.mod_eq_of_lt ‹_›]
  · rw [show u + a = P * (u / P) + (u % P + a - P + P) by omega, Nat.mul_add_mod,
      Nat.add_mod_right, Nat.mod_eq_of_lt (by omega)]

/-! ### Pulses -/

/-- A signal of period `P` that rests at `level`, but for a pulse of `len` clocks at `start`. -/
def pulse (P start len : ℕ) (level : Bool) (u : ℕ) : Bool :=
  if start ≤ u % P ∧ u % P < start + len then !level else level

section Pulse

variable {P start len : ℕ} {level : Bool} {u : ℕ}

lemma pulse_of_rest (h : u % P < start ∨ start + len ≤ u % P) : pulse P start len level u = level :=
  if_neg (by omega)

lemma pulse_of_pulse (h : start ≤ u % P) (h' : u % P < start + len) :
    pulse P start len level u = !level := if_pos ⟨h, h'⟩

/-- **A pulse signal is high for a part of its period**: for the pulse, or for the rest. -/
lemma pulse_eq_high (hP : 0 < P) (hend : start + len ≤ P) (u : ℕ) :
    pulse P start len level u
      = if level then decide ((u + (P - (start + len))) % P < P - len)
        else decide ((u + (P - start)) % P < len) := by
  have hlt := Nat.mod_lt u hP
  rw [add_mod_eq u (Nat.sub_le P _) hP, add_mod_eq u (Nat.sub_le P _) hP, pulse]
  cases level
  · simp only [Bool.not_false, Bool.false_eq_true, if_false]
    split_ifs <;> simp <;> omega
  · simp only [Bool.not_true, if_true]
    split_ifs <;> simp <;> omega

end Pulse

/-! ### Counting -/

/-- What a period contains does not depend on where it begins. -/
lemma count_shift {P : ℕ} {p : ℕ → Prop} [DecidablePred p] (hp : ∀ u, p (u + P) ↔ p u) (n : ℕ) :
    Nat.count (fun k => p (n + k)) P = Nat.count p P := by
  have hshift : Nat.count (fun k => p (P + k)) n = Nat.count p n := by
    congr 1
    funext k
    rw [Nat.add_comm]
    exact propext (hp k)
  have h1 := Nat.count_add p n P
  have h2 := Nat.count_add p P n
  rw [hshift, Nat.add_comm P n] at h2
  omega

lemma count_congr {p q : ℕ → Prop} [DecidablePred p] [DecidablePred q] {n : ℕ}
    (h : ∀ k < n, (p k ↔ q k)) : Nat.count p n = Nat.count q n :=
  le_antisymm (Nat.count_mono_left fun k hk => (h k hk).mp)
    (Nat.count_mono_left fun k hk => (h k hk).mpr)

/-- **What a raster contains**: of `lines` lines of `line` clocks the first `h` have the same
clocks marked. -/
lemma count_grid {line h : ℕ} (hline : 0 < line) (q : ℕ → Prop) [DecidablePred q] (lines : ℕ) :
    Nat.count (fun u => u / line < h ∧ q (u % line)) (lines * line)
      = min lines h * Nat.count q line := by
  induction lines with
  | zero => simp
  | succ n ih =>
      have hplace : ∀ k < line, (n * line + k) / line = n ∧ (n * line + k) % line = k := by
        intro k hk
        rw [Nat.mul_comm, Nat.mul_add_div hline, Nat.mul_add_mod, Nat.div_eq_of_lt hk,
          Nat.mod_eq_of_lt hk]
        exact ⟨rfl, rfl⟩
      have hrow : Nat.count (fun k => (n * line + k) / line < h ∧ q ((n * line + k) % line)) line
          = if n < h then Nat.count q line else 0 := by
        split
        · refine count_congr fun k hk => ?_
          rw [(hplace k hk).1, (hplace k hk).2]
          exact and_iff_right ‹_›
        · rw [Nat.count_iff_forall_not]
          intro k hk hmem
          rw [(hplace k hk).1] at hmem
          exact absurd hmem.1 ‹_›
      rw [Nat.succ_mul, Nat.count_add, ih, hrow]
      split
      · rw [Nat.min_eq_left (by omega), Nat.min_eq_left (by omega), Nat.succ_mul]
      · rw [Nat.min_eq_right (by omega), Nat.min_eq_right (by omega), Nat.add_zero]

/-- A raster as a list, its rows behind one another. -/
lemma getElem?_raster {α : Type*} {row : ℕ → List α} {line lines p : ℕ}
    (hrow : ∀ i < lines, (row i).length = line) (hp : p < lines * line) :
    ((List.range lines).flatMap row)[p]? = (row (p / line))[p % line]? := by
  have hline : 0 < line := Nat.pos_of_mul_pos_left (Nat.zero_lt_of_lt hp)
  have hlen : ∀ n ≤ lines, ((List.range n).flatMap row).length = n * line := by
    intro n hn
    rw [List.length_flatMap, List.map_congr_left fun i hi =>
      hrow i ((List.mem_range.mp hi).trans_le hn), List.map_const', List.sum_replicate,
      List.length_range, smul_eq_mul]
  induction lines with
  | zero => exact absurd hp (by simp)
  | succ n ih =>
      have hn := hlen n (Nat.le_succ n)
      rw [List.range_succ, List.flatMap_append, List.flatMap_singleton]
      rcases Nat.lt_or_ge p (n * line) with hlt | hge
      · rw [List.getElem?_append_left (by rwa [hn])]
        exact ih (fun i hi => hrow i (Nat.lt_succ_of_lt hi)) hlt fun m hm =>
          hlen m (hm.trans (Nat.le_succ n))
      · obtain ⟨c, rfl⟩ := Nat.exists_eq_add_of_le hge
        have hc : c < line := by
          rw [Nat.succ_mul] at hp
          omega
        rw [List.getElem?_append_right (by omega), hn, Nat.add_sub_cancel_left,
          Nat.mul_comm n line, Nat.mul_add_div hline, Nat.mul_add_mod, Nat.div_eq_of_lt hc,
          Nat.mod_eq_of_lt hc, Nat.add_zero]

end Period
