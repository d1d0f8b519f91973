import Danmaku.Lib.Loop

/-!
A window of an array read as a list: the storage view of a queue that pushes at one end of
the window and pops at the other.

* `window m lo n`: the `n` cells of `m` from `lo` on, in order.
* `window_cons`, `window_snoc`: the two ends; `window_store`: writes outside the window.
* `shiftDown` and `window_shiftDown`: the loop that copies the window in place to the front
  of the array, cell by cell upwards. It keeps the contents because the cell it reads lies
  at or above the cell it writes.
-/

namespace CountedLoop

variable {α : Type*}

/-- The `n` cells of `m` from `lo` on. -/
def window (m : ℤ → α) (lo : ℤ) (n : ℕ) : List α := (List.range n).map fun i : ℕ => m (lo + i)

@[simp] lemma window_zero (m : ℤ → α) (lo : ℤ) : window m lo 0 = [] := rfl

@[simp] lemma window_length (m : ℤ → α) (lo : ℤ) (n : ℕ) : (window m lo n).length = n := by
  simp [window]

lemma window_cons (m : ℤ → α) (lo : ℤ) (n : ℕ) :
    window m lo (n + 1) = m lo :: window m (lo + 1) n := by
  rw [window, List.range_succ_eq_map, List.map_cons, List.map_map]
  congr 1
  · simp
  · refine List.map_congr_left ?_
    intro i _
    simp only [Function.comp_apply, Nat.cast_succ]
    congr 1
    ring

lemma window_snoc (m : ℤ → α) (lo : ℤ) (n : ℕ) :
    window m lo (n + 1) = window m lo n ++ [m (lo + n)] := by
  rw [window, List.range_succ, List.map_append]
  rfl

/-- Two arrays that agree on the window have the same contents. -/
lemma window_congr {m m' : ℤ → α} {lo lo' : ℤ} {n : ℕ}
    (h : ∀ i < n, m (lo + i) = m' (lo' + i)) : window m lo n = window m' lo' n :=
  List.map_congr_left fun i hi => h i (List.mem_range.mp hi)

/-- A write outside the window leaves its contents. -/
lemma window_store {m : ℤ → α} {lo a : ℤ} {n : ℕ} (v : α) (h : a < lo ∨ lo + n ≤ a) :
    window (store m a v) lo n = window m lo n :=
  window_congr fun i hi => store_of_ne _ _ (by omega)

/-- `for (i = 0; i < n; i++) m[i] = m[lo + i]`. -/
def shiftDown (lo : ℤ) (n : ℕ) (m : ℤ → α) : ℤ → α :=
  forUpTo n (fun i m => store m i (m (lo + i))) m

/-- After `i` passes the first `i` cells hold the front of the window, and every cell from
`i` on is still the original one. -/
lemma shiftDown_apply {lo : ℤ} (hlo : 0 ≤ lo) (n : ℕ) (m : ℤ → α) :
    (∀ k : ℕ, k < n → shiftDown lo n m k = m (lo + k))
      ∧ ∀ a : ℤ, n ≤ a → shiftDown lo n m a = m a := by
  refine forUpTo_induct (fun (i : ℕ) (m' : ℤ → α) =>
    (∀ k : ℕ, k < i → m' k = m (lo + k)) ∧ ∀ a : ℤ, i ≤ a → m' a = m a)
    ⟨fun k hk => absurd hk (Nat.not_lt_zero k), fun a _ => rfl⟩ ?_
  intro i hi m' hm
  obtain ⟨hdone, hrest⟩ := hm
  refine ⟨?_, ?_⟩
  · intro k hk
    by_cases hki : k = i
    · subst hki
      rw [store_same]
      exact hrest _ (by omega)
    · rw [store_of_ne _ _ (by omega)]
      exact hdone k (by omega)
  · intro a ha
    rw [store_of_ne _ _ (by omega)]
    exact hrest a (by omega)

/-- **In-place compaction** keeps the contents of the window and their order. -/
lemma window_shiftDown {lo : ℤ} (hlo : 0 ≤ lo) (n : ℕ) (m : ℤ → α) :
    window (shiftDown lo n m) 0 n = window m lo n :=
  window_congr fun i hi => by
    rw [Int.zero_add]
    exact (shiftDown_apply hlo n m).1 i hi

end CountedLoop
