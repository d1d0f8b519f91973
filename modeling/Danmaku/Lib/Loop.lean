import Mathlib.Tactic

/-!
Counted loops over a state, and arrays written by them.

* `forUpTo n body s`: the loop `for (i = 0; i < n; i++) s = body i s`, with the loop
  invariant rule `forUpTo_induct`.
* `store m a v`: one array write, with the two read lemmas.
* `emit base v` and `Filled`: a buffer written front to back behind a running offset, and
  what has been written so far.
-/

namespace CountedLoop

variable {σ : Type*}

/-- `for (i = 0; i < n; i++) s = body i s`. -/
def forUpTo : ℕ → (ℕ → σ → σ) → σ → σ
  | 0, _, s => s
  | n + 1, body, s => body n (forUpTo n body s)

@[simp] lemma forUpTo_zero (body : ℕ → σ → σ) (s : σ) : forUpTo 0 body s = s := rfl

lemma forUpTo_succ (n : ℕ) (body : ℕ → σ → σ) (s : σ) :
    forUpTo (n + 1) body s = body n (forUpTo n body s) := rfl

/-- **The loop rule**: an invariant of the loop index and the state that the body carries
from `i` to `i + 1` holds at the loop's exit. -/
lemma forUpTo_induct {n : ℕ} {body : ℕ → σ → σ} {s : σ} (P : ℕ → σ → Prop) (h0 : P 0 s)
    (hstep : ∀ i < n, ∀ t, P i t → P (i + 1) (body i t)) : P n (forUpTo n body s) := by
  induction n with
  | zero => exact h0
  | succ n ih =>
      rw [forUpTo_succ]
      exact hstep n (Nat.lt_succ_self n) _ (ih fun i hi => hstep i (Nat.lt_succ_of_lt hi))

/-- What every pass keeps holds at the loop's exit. -/
lemma forUpTo_keep {n : ℕ} {body : ℕ → σ → σ} {s : σ} (Q : σ → Prop) (hs : Q s)
    (hkeep : ∀ i < n, ∀ t, Q t → Q (body i t)) : Q (forUpTo n body s) :=
  forUpTo_induct (fun _ => Q) hs hkeep

/-- The same for two nested loops. -/
lemma forUpTo_keep_grid {m n : ℕ} {body : ℕ → ℕ → σ → σ} {s : σ} (Q : σ → Prop) (hs : Q s)
    (hkeep : ∀ i < m, ∀ j < n, ∀ t, Q t → Q (body i j t)) :
    Q (forUpTo m (fun i => forUpTo n (body i)) s) :=
  forUpTo_keep Q hs fun i hi _ ht => forUpTo_keep Q ht (hkeep i hi)

/-- What one pass establishes and every pass keeps holds at the loop's exit. -/
lemma forUpTo_reach {n k : ℕ} {body : ℕ → σ → σ} {s : σ} {Q : σ → Prop} (hk : k < n)
    (hat : ∀ t, Q (body k t)) (hkeep : ∀ i < n, ∀ t, Q t → Q (body i t)) :
    Q (forUpTo n body s) := by
  refine forUpTo_induct (fun i t => k < i → Q t) (fun h => absurd h (Nat.not_lt_zero k)) ?_ hk
  intro i hi t ht hki
  rcases Nat.lt_succ_iff_lt_or_eq.mp hki with hlt | rfl
  · exact hkeep i hi t (ht hlt)
  · exact hat t

/-- **The value at one place**: only pass `k` changes what `g` reads, and all passes keep `I`. -/
lemma forUpTo_single {γ : Type*} {n k : ℕ} {body : ℕ → σ → σ} {s : σ} {g : σ → γ} {v : γ}
    {I : σ → Prop} (hk : k < n) (hI : I s) (hkeep : ∀ i < n, ∀ t, I t → I (body i t))
    (hat : ∀ t, I t → g t = g s → g (body k t) = v)
    (hother : ∀ i < n, i ≠ k → ∀ t, I t → g (body i t) = g t) :
    g (forUpTo n body s) = v := by
  have hloop : I (forUpTo n body s) ∧ g (forUpTo n body s) = if k < n then v else g s := by
    refine forUpTo_induct (fun i t => I t ∧ g t = if k < i then v else g s) ⟨hI, by simp⟩ ?_
    rintro i hi t ⟨ht, hget⟩
    refine ⟨hkeep i hi t ht, ?_⟩
    by_cases hik : i = k
    · subst hik
      rw [if_pos (Nat.lt_succ_self i), hat t ht (by simpa using hget)]
    · rw [hother i hi hik t ht, hget]
      exact if_congr (by omega) rfl rfl
  exact hloop.2.trans (if_pos hk)

/-- The same for two nested loops. -/
lemma forUpTo_grid {γ : Type*} {m n r c : ℕ} {body : ℕ → ℕ → σ → σ} {s : σ} {g : σ → γ} {v : γ}
    {I : σ → Prop} (hr : r < m) (hc : c < n) (hI : I s)
    (hkeep : ∀ i < m, ∀ j < n, ∀ t, I t → I (body i j t))
    (hat : ∀ t, I t → g t = g s → g (body r c t) = v)
    (hother : ∀ i < m, ∀ j < n, (i ≠ r ∨ j ≠ c) → ∀ t, I t → g (body i j t) = g t) :
    g (forUpTo m (fun i => forUpTo n (body i)) s) = v := by
  refine forUpTo_single (I := I) hr hI ?_ ?_ ?_
  · exact fun i hi t ht => forUpTo_keep I ht (hkeep i hi)
  · intro t ht hget
    exact forUpTo_single (I := I) hc ht (hkeep r hr) (fun u hu hgu => hat u hu (hgu.trans hget))
      fun j hj hne => hother r hr j hj (Or.inr hne)
  · intro i hi hne t ht
    exact (forUpTo_keep (fun u => I u ∧ g u = g t) ⟨ht, rfl⟩ fun j hj u hu =>
      ⟨hkeep i hi j hj u hu.1, (hother i hi j hj (Or.inl hne) u hu.1).trans hu.2⟩).2

/-! ### Arrays -/

variable {ι β : Type*} [DecidableEq ι]

/-- The array `m` after the write `m[a] = v`. -/
def store (m : ι → β) (a : ι) (v : β) : ι → β := fun x => if x = a then v else m x

@[simp] lemma store_same (m : ι → β) (a : ι) (v : β) : store m a v a = v := if_pos rfl

lemma store_of_ne (m : ι → β) {a x : ι} (v : β) (h : x ≠ a) : store m a v x = m x := if_neg h

/-! ### Buffers written front to back -/

section Emit

variable {base o : ℕ} {f : ℕ → β} {m₀ m : ℕ → β} {v : β}

/-- `buf[offset++] = v`, for the buffer at `base`. -/
def emit (base : ℕ) (v : β) (p : ℕ × (ℕ → β)) : ℕ × (ℕ → β) :=
  (p.1 + 1, store p.2 (base + p.1) v)

/-- The array `m` is `m₀` with the first `o` cells from `base` on replaced by `f`. -/
def Filled (base : ℕ) (f : ℕ → β) (m₀ : ℕ → β) (o : ℕ) (m : ℕ → β) : Prop :=
  ∀ a, m a = if base ≤ a ∧ a < base + o then f (a - base) else m₀ a

lemma filled_zero (base : ℕ) (f : ℕ → β) (m : ℕ → β) : Filled base f m 0 m := by
  intro a
  rw [if_neg (by omega)]

lemma Filled.apply_add (h : Filled base f m₀ o m) {k : ℕ} (hk : k < o) : m (base + k) = f k := by
  rw [h, if_pos (by omega), Nat.add_sub_cancel_left]

lemma Filled.apply_of_outside (h : Filled base f m₀ o m) {a : ℕ}
    (ha : a < base ∨ base + o ≤ a) : m a = m₀ a := by
  rw [h, if_neg (by omega)]

lemma Filled.congr {g : ℕ → β} (h : Filled base f m₀ o m) (hfg : ∀ k < o, f k = g k) :
    Filled base g m₀ o m := by
  intro a
  rw [h a]
  by_cases hin : base ≤ a ∧ a < base + o
  · rw [if_pos hin, if_pos hin, hfg _ (by omega)]
  · rw [if_neg hin, if_neg hin]

/-- One more cell written at the running offset. -/
lemma Filled.store (h : Filled base f m₀ o m) (hv : f o = v) :
    Filled base f m₀ (o + 1) (store m (base + o) v) := by
  intro a
  by_cases ha : a = base + o
  · subst ha
    rw [store_same, if_pos (by omega), Nat.add_sub_cancel_left, hv]
  · rw [store_of_ne _ _ ha, h a]
    by_cases hin : base ≤ a ∧ a < base + o
    · rw [if_pos hin, if_pos (by omega)]
    · rw [if_neg hin, if_neg (by omega)]

/-- A loop that emits `v` in every pass fills `n` more cells. -/
lemma Filled.forUpTo_emit {p : ℕ × (ℕ → β)} (n : ℕ) (h : Filled base f m₀ p.1 p.2)
    (hv : ∀ k < n, f (p.1 + k) = v) :
    (forUpTo n (fun _ => emit base v) p).1 = p.1 + n
      ∧ Filled base f m₀ (p.1 + n) (forUpTo n (fun _ => emit base v) p).2 := by
  refine forUpTo_induct (fun i (q : ℕ × (ℕ → β)) => q.1 = p.1 + i ∧ Filled base f m₀ (p.1 + i) q.2)
    ⟨rfl, h⟩ ?_
  intro i hi q hq
  obtain ⟨hq1, hq2⟩ := hq
  refine ⟨by simp only [emit]; omega, ?_⟩
  simp only [emit, hq1]
  exact hq2.store (hv i hi)

/-- Overwriting a cell already written changes what the buffer is filled with. -/
lemma Filled.overwrite (h : Filled base f m₀ o m) {k : ℕ} (hk : k < o) (v : β) :
    Filled base (CountedLoop.store f k v) m₀ o (CountedLoop.store m (base + k) v) := by
  intro a
  by_cases ha : a = base + k
  · subst ha
    rw [store_same, if_pos (by omega), Nat.add_sub_cancel_left, store_same]
  · rw [store_of_ne _ _ ha, h a]
    by_cases hin : base ≤ a ∧ a < base + o
    · rw [if_pos hin, if_pos hin, store_of_ne _ _ (by omega)]
    · rw [if_neg hin, if_neg hin]

end Emit

end CountedLoop
