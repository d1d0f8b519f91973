import Mathlib.Tactic

/-!
Lines seen through shift registers: delays, and filters that need some samples in a row.

* `Shifts`: a shift register fed with a line; `Shifts.getLsbD`: what stands in it.
* `Debounces`: a bit that follows a line once `w` samples in a row agree, and holds otherwise.
* `Debounces.steady`: **a level that lasts `w` samples is shown for as long as it lasts**, whatever
  comes after it; `Debounces.held`: **disturbances of fewer than `w` samples are not seen**.
-/

namespace Debounce

/-! ### Shift registers -/

/-- The bits of `reg` are the last samples of the line, the youngest in bit 0. -/
def Shifts {n : ℕ} (line : ℕ → Bool) (reg : ℕ → BitVec n) : Prop :=
  ∀ t, reg (t + 1) = (reg t).shiftConcat (line t)

lemma Shifts.getLsbD {n : ℕ} {line : ℕ → Bool} {reg : ℕ → BitVec n} (h : Shifts line reg) {i : ℕ}
    (hi : i < n) (t : ℕ) : (reg (t + i + 1)).getLsbD i = line t := by
  induction i with
  | zero => rw [Nat.add_zero, h t, BitVec.getLsbD_shiftConcat, if_pos rfl, decide_eq_true hi]; simp
  | succ i ih =>
      rw [h, BitVec.getLsbD_shiftConcat, if_neg (Nat.succ_ne_zero i), decide_eq_true hi,
        Bool.true_and, Nat.add_sub_cancel]
      exact ih (by omega)

/-! ### Filters -/

/-- `deb` takes a level when the `w` samples that end `lag` clocks before it all have that level,
and keeps what it showed otherwise. -/
structure Debounces (w lag : ℕ) (line deb : ℕ → Bool) : Prop where
  follow : ∀ t v, (∀ i < w, line (t + i) = v) → deb (t + w + lag) = v
  hold : ∀ t v, (∃ i < w, line (t + i) = v) → deb (t + w + lag - 1) = v → deb (t + w + lag) = v

namespace Debounces

variable {w lag : ℕ} {line deb : ℕ → Bool} {a b t : ℕ} {v : Bool}

/-- **Short disturbances are not seen**: a shown level stays while every `w` samples in a row
contain it. -/
theorem held (h : Debounces w lag line deb) (hw : 0 < w) (ha : deb (a + w + lag - 1) = v)
    (hline : ∀ t, a ≤ t → t < b → ∃ i < w, line (t + i) = v) (hat : a ≤ t) (htb : t ≤ b) :
    deb (t + w + lag - 1) = v := by
  induction t, hat using Nat.le_induction with
  | base => exact ha
  | succ t hat ih =>
      have hnext := h.hold t v (hline t hat (by omega)) (ih (by omega))
      rwa [show t + 1 + w + lag - 1 = t + w + lag by omega]

/-- **A level that lasts is shown**, `w + lag` clocks later and for as long as it lasts. -/
theorem steady (h : Debounces w lag line deb) (hw : 0 < w)
    (hline : ∀ u, a ≤ u → u < b → line u = v) (hab : a + w ≤ b) (hat : a + w + lag ≤ t)
    (htb : t < b + w + lag) : deb t = v := by
  have hfirst : deb (a + 1 + w + lag - 1) = v := by
    rw [show a + 1 + w + lag - 1 = a + w + lag by omega]
    exact h.follow a v fun i hi => hline _ (by omega) (by omega)
  have hheld := h.held (t := t + 1 - w - lag) (b := b) hw hfirst
    (fun u hu hub => ⟨0, hw, hline _ (by omega) (by omega)⟩) (by omega) (by omega)
  rwa [show t + 1 - w - lag + w + lag - 1 = t by omega] at hheld

end Debounces

end Debounce
