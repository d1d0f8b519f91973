import Danmaku.Text
import Danmaku.Lib.Window

/-!
The message queues of `danmaku.c` (`queen_t`, `InitQueen`, `Fetch`, `Pop`, `ClearQueen`,
`Push`).

* `Queen`, with the integer indices of the source over an array of slots. `push` answers
  `none` when its `strcpy` would write past the last slot.
* `Queen.pending`: the strings waiting in the queue, oldest first.
* `Queen.Valid`: `0 ≤ head ≤ tail ≤ QUEEN_SIZE`, and for each operation what it does to the
  indices and to `pending`; `push_isSome_iff` says when a push stays in the array.
-/

namespace Danmaku

open CountedLoop

/-- `QUEEN_SIZE`. -/
def queenSize : ℕ := 4096

/-- `queen_t`. -/
structure Queen where
  str : ℤ → Text
  head : ℤ
  tail : ℤ

namespace Queen

/-- `InitQueen`, which leaves the slots alone. -/
def initQueen (q : Queen) : Queen := { q with head := 0, tail := 0 }

/-- `Fetch`: a copy of the oldest string. -/
def fetch (q : Queen) : Option Text := if q.tail = q.head then none else some (q.str q.head)

/-- `Pop`. -/
def pop (q : Queen) : Queen := if q.tail - q.head > 0 then { q with head := q.head + 1 } else q

/-- `ClearQueen`: the pending strings move to the front of the array. -/
def clearQueen (q : Queen) : Queen :=
  let len := q.tail - q.head
  { str := shiftDown q.head len.toNat q.str, head := 0, tail := len }

/-- The slot that `Push` writes, after its compaction. -/
def pushSlot (q : Queen) : ℤ := if q.tail ≥ queenSize then q.clearQueen.tail else q.tail

/-- `Push`; `none` if the slot it writes is not below `QUEEN_SIZE`. -/
def push (q : Queen) (src : Text) : Option Queen :=
  let q := if q.tail ≥ queenSize then q.clearQueen else q
  if q.tail < queenSize then some { q with str := store q.str q.tail src, tail := q.tail + 1 }
  else none

/-- `0 ≤ head ≤ tail ≤ QUEEN_SIZE`. -/
structure Valid (q : Queen) : Prop where
  head_nonneg : 0 ≤ q.head
  head_le : q.head ≤ q.tail
  tail_le : q.tail ≤ queenSize

/-- How many strings are waiting. -/
def count (q : Queen) : ℕ := (q.tail - q.head).toNat

/-- The strings waiting in the queue, oldest first. -/
def pending (q : Queen) : List Text := window q.str q.head q.count

@[simp] lemma pending_length (q : Queen) : q.pending.length = q.count := window_length _ _ _

variable {q q' : Queen} {t : Text}

lemma valid_initQueen (q : Queen) : q.initQueen.Valid :=
  ⟨le_rfl, le_rfl, by simp [initQueen]⟩

@[simp] lemma pending_initQueen (q : Queen) : q.initQueen.pending = [] := rfl

@[simp] lemma count_initQueen (q : Queen) : q.initQueen.count = 0 := rfl

/-! ### `Fetch` and `Pop` -/

lemma pending_eq_cons (h : q.head < q.tail) :
    q.pending = q.str q.head :: window q.str (q.head + 1) (q.count - 1) := by
  have hc : q.count = (q.count - 1) + 1 := by simp only [count]; omega
  rw [pending, hc, window_cons, Nat.add_sub_cancel]

/-- `Fetch` reads the oldest pending string. -/
lemma fetch_eq (hq : q.Valid) : q.fetch = q.pending.head? := by
  have h := hq.head_le
  rw [fetch]
  split
  · rename_i he
    rw [pending, show q.count = 0 by simp only [count]; omega]
    rfl
  · rw [pending_eq_cons (by omega)]
    rfl

lemma valid_pop (hq : q.Valid) : q.pop.Valid := by
  obtain ⟨h1, h2, h3⟩ := hq
  rw [pop]
  split
  · exact ⟨by simp only; omega, by simp only; omega, h3⟩
  · exact ⟨h1, h2, h3⟩

/-- `Pop` removes the oldest pending string. -/
lemma pending_pop (q : Queen) : q.pop.pending = q.pending.tail := by
  rw [pop]
  split
  · rename_i h
    rw [pending_eq_cons (show q.head < q.tail by omega), List.tail_cons, pending]
    congr 1
    simp only [count]
    omega
  · rename_i h
    have hc : q.count = 0 := by simp only [count]; omega
    rw [pending, hc]
    rfl

lemma count_pop (q : Queen) : q.pop.count = q.count - 1 := by
  rw [← pending_length, pending_pop, List.length_tail, pending_length]

/-! ### `ClearQueen` and `Push` -/

lemma valid_clearQueen (hq : q.Valid) : q.clearQueen.Valid := by
  obtain ⟨h1, h2, h3⟩ := hq
  refine ⟨?_, ?_, ?_⟩ <;> simp only [clearQueen] <;> omega

@[simp] lemma count_clearQueen (q : Queen) : q.clearQueen.count = q.count := by
  simp only [count, clearQueen]
  omega

/-- `ClearQueen` changes no pending string nor their order. -/
lemma pending_clearQueen (hq : q.Valid) : q.clearQueen.pending = q.pending := by
  rw [pending, count_clearQueen]
  exact window_shiftDown hq.head_nonneg _ _

/-- A push stays inside the array exactly when fewer than `QUEEN_SIZE` strings wait. -/
lemma push_isSome_iff (hq : q.Valid) (t : Text) :
    (q.push t).isSome ↔ q.count < queenSize := by
  obtain ⟨h1, h2, h3⟩ := hq
  simp only [push, count]
  by_cases hfull : q.tail ≥ queenSize
  · rw [if_pos hfull]
    by_cases hlt : q.clearQueen.tail < queenSize
    · rw [if_pos hlt]
      simp only [clearQueen] at hlt
      simp only [Option.isSome_some, true_iff]
      omega
    · rw [if_neg hlt]
      simp only [clearQueen] at hlt
      simp only [Option.isSome_none, Bool.false_eq_true, false_iff]
      omega
  · rw [if_neg hfull, if_pos (by omega)]
    simp only [Option.isSome_some, true_iff]
    omega

lemma push_isSome_iff_pushSlot (q : Queen) (t : Text) :
    (q.push t).isSome ↔ q.pushSlot < queenSize := by
  simp only [push, pushSlot]
  split <;> split <;> simp_all

/-- What a push that stays in the array does. -/
lemma push_spec (hq : q.Valid) (h : q.push t = some q') :
    q'.Valid ∧ q'.pending = q.pending ++ [t] := by
  -- the queue after the compaction test is valid and holds the same strings
  set r := if q.tail ≥ queenSize then q.clearQueen else q with hr
  have hrv : r.Valid := by
    rw [hr]
    split
    · exact valid_clearQueen hq
    · exact hq
  have hrp : r.pending = q.pending := by
    rw [hr]
    split
    · exact pending_clearQueen hq
    · rfl
  obtain ⟨h1, h2, h3⟩ := hrv
  simp only [push, ← hr] at h
  split at h
  · rename_i hlt
    obtain rfl := Option.some.inj h
    refine ⟨⟨h1, by simp only; omega, by simp only; omega⟩, ?_⟩
    rw [← hrp, pending, pending,
      show (count { r with str := store r.str r.tail t, tail := r.tail + 1 }) = r.count + 1 by
        simp only [count]; omega,
      window_snoc, window_store _ (Or.inr (by simp only [count]; omega))]
    congr 2
    rw [show r.head + r.count = r.tail by simp only [count]; omega]
    exact store_same _ _ _
  · exact absurd h (by simp)

lemma count_push (hq : q.Valid) (h : q.push t = some q') : q'.count = q.count + 1 := by
  rw [← pending_length, (push_spec hq h).2, List.length_append, pending_length]
  rfl

end Queen

end Danmaku
