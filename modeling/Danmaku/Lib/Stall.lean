import Mathlib.Tactic
import Mathlib.Data.Nat.Count

/-!
Machines that stand still at the clocks at which they are stalled.

* `run`: the states of such a machine; `moves`: the clocks at which it moves.
* `map_run_moves`: **the states in which it moves are those of the machine that is never stalled**,
  in order, none dropped and none repeated, for every sequence of stalls.
-/

namespace Stall

variable {σ : Type*}

/-- The state at clock `t` of a machine that stands still while it is stalled. -/
def run (next : σ → σ) (stall : ℕ → Bool) (s : σ) : ℕ → σ
  | 0 => s
  | t + 1 => if stall t then run next stall s t else next (run next stall s t)

/-- The clocks before `t` at which it moves. -/
def moves (stall : ℕ → Bool) (t : ℕ) : List ℕ := (List.range t).filter fun u => !stall u

lemma moves_succ (stall : ℕ → Bool) (t : ℕ) :
    moves stall (t + 1) = if stall t then moves stall t else moves stall t ++ [t] := by
  rw [moves, List.range_succ, List.filter_append]
  cases h : stall t <;> simp [moves, h]

lemma length_moves (stall : ℕ → Bool) (t : ℕ) :
    (moves stall t).length = Nat.count (fun u => stall u = false) t := by
  induction t with
  | zero => rfl
  | succ t ih =>
      rw [moves_succ, Nat.count_succ, ← ih]
      cases stall t <;> simp

/-- The state depends on the number of moves only. -/
lemma run_eq (next : σ → σ) (stall : ℕ → Bool) (s : σ) (t : ℕ) :
    run next stall s t = next^[(moves stall t).length] s := by
  induction t with
  | zero => rfl
  | succ t ih =>
      rw [run, moves_succ]
      split
      · exact ih
      · rw [ih, List.length_append, List.length_singleton, Function.iterate_succ_apply']

/-- **No stall drops, repeats or changes a move.** -/
theorem map_run_moves (next : σ → σ) (stall : ℕ → Bool) (s : σ) (t : ℕ) :
    (moves stall t).map (run next stall s)
      = (List.range (moves stall t).length).map fun k => next^[k] s := by
  induction t with
  | zero => rfl
  | succ t ih =>
      rw [moves_succ]
      split
      · exact ih
      · rw [List.map_append, ih, List.length_append, List.length_singleton, List.range_succ,
          List.map_append, List.map_singleton, List.map_singleton, run_eq]

end Stall
