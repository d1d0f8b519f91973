import Mathlib.Tactic

/-!
Reading a stream line by line into a bounded buffer.

* `takeLine d n s`: the front of the stream up to and including the first `d`, but at most
  `n` symbols, and what is left (`fgets` with a buffer of `n + 1` bytes).
* `takeLine_line`, `takeLine_long`: a line that fits is read whole; of a longer one the first
  `n` symbols are read and the rest stays.
* `lines d n s`: all the pieces that reading to the end of the stream yields, with the
  unfolding `lines_cons`.
-/

namespace BoundedLines

variable {α : Type*} [DecidableEq α]

/-- One read: at most `n` symbols, up to the first `d` and with it. -/
def takeLine (d : α) : ℕ → List α → List α × List α
  | 0, s => ([], s)
  | _ + 1, [] => ([], [])
  | n + 1, b :: s => if b = d then ([b], s) else (b :: (takeLine d n s).1, (takeLine d n s).2)

variable {d : α} {n : ℕ} {s t : List α}

lemma takeLine_length_le (d : α) (n : ℕ) (s : List α) : (takeLine d n s).1.length ≤ n := by
  induction n generalizing s with
  | zero => exact le_rfl
  | succ n ih =>
      cases s with
      | nil => exact Nat.zero_le _
      | cons b s =>
          rw [takeLine]
          split
          · exact Nat.succ_le_succ (Nat.zero_le n)
          · exact Nat.succ_le_succ (ih s)

/-- Reading neither loses nor adds a symbol. -/
lemma takeLine_append (d : α) (n : ℕ) (s : List α) :
    (takeLine d n s).1 ++ (takeLine d n s).2 = s := by
  induction n generalizing s with
  | zero => rfl
  | succ n ih =>
      cases s with
      | nil => rfl
      | cons b s =>
          rw [takeLine]
          split
          · rfl
          · rw [List.cons_append, ih]

/-- A line that fits is read whole. -/
lemma takeLine_line (ht : d ∉ t) (hn : t.length < n) :
    takeLine d n (t ++ d :: s) = (t ++ [d], s) := by
  induction t generalizing n with
  | nil =>
      obtain ⟨n, rfl⟩ : ∃ k, n = k + 1 := ⟨n - 1, by simp only [List.length_nil] at hn; omega⟩
      simp [takeLine]
  | cons b t ih =>
      obtain ⟨n, rfl⟩ : ∃ k, n = k + 1 := ⟨n - 1, by simp only [List.length_cons] at hn; omega⟩
      have hb : b ≠ d := fun h => ht (h ▸ List.mem_cons_self)
      rw [List.cons_append, takeLine, if_neg hb,
        ih (fun h => ht (List.mem_cons_of_mem _ h)) (by simpa using hn)]
      rfl

/-- Of a line that does not fit the first `n` symbols are read. -/
lemma takeLine_long (ht : d ∉ t.take n) (hn : n ≤ t.length) :
    takeLine d n (t ++ s) = (t.take n, t.drop n ++ s) := by
  induction n generalizing t with
  | zero => rfl
  | succ n ih =>
      cases t with
      | nil => simp at hn
      | cons b t =>
          rw [List.take_succ_cons, List.mem_cons, not_or] at ht
          rw [List.cons_append, takeLine, if_neg (fun h => ht.1 h.symm),
            ih ht.2 (by simpa using hn)]
          rfl

/-- At most `fuel` reads of a stream, until it is used up. -/
def linesFuel (d : α) (n : ℕ) : ℕ → List α → List (List α)
  | 0, _ => []
  | _ + 1, [] => []
  | fuel + 1, b :: s =>
      (takeLine d n (b :: s)).1 :: linesFuel d n fuel (takeLine d n (b :: s)).2

/-- The pieces of the stream that reads to its end yield, for a buffer of `n + 1` symbols. -/
def lines (d : α) (n : ℕ) (s : List α) : List (List α) := linesFuel d (n + 1) s.length s

/-- A read of a nonempty stream makes progress. -/
lemma takeLine_rest_length (d : α) (n : ℕ) (b : α) (s : List α) :
    (takeLine d (n + 1) (b :: s)).2.length ≤ s.length := by
  have h := congrArg List.length (takeLine_append d (n + 1) (b :: s))
  have hpos : 0 < (takeLine d (n + 1) (b :: s)).1.length := by
    rw [takeLine]
    split <;> simp
  rw [List.length_append, List.length_cons] at h
  omega

/-- Every amount of fuel from the length of the stream on gives the same pieces. -/
lemma linesFuel_eq_of_le (d : α) (n : ℕ) {s : List α} {fuel : ℕ} (fuel' : ℕ)
    (h : s.length ≤ fuel) (h' : s.length ≤ fuel') :
    linesFuel d (n + 1) fuel s = linesFuel d (n + 1) fuel' s := by
  induction fuel generalizing fuel' s with
  | zero =>
      obtain rfl := List.length_eq_zero_iff.mp (Nat.le_zero.mp h)
      cases fuel' <;> rfl
  | succ fuel ih =>
      cases s with
      | nil => cases fuel' <;> rfl
      | cons b s =>
          obtain ⟨fuel', rfl⟩ : ∃ k, fuel' = k + 1 :=
            ⟨fuel' - 1, by simp only [List.length_cons] at h'; omega⟩
          have hrest := takeLine_rest_length d n b s
          rw [List.length_cons] at h h'
          rw [linesFuel, linesFuel, ih fuel' (by omega) (by omega)]

@[simp] lemma lines_nil (d : α) (n : ℕ) : lines d n [] = [] := rfl

/-- The pieces of a nonempty stream: one read, and the pieces of what it leaves. -/
lemma lines_cons (d : α) (n : ℕ) (b : α) (s : List α) :
    lines d n (b :: s) = (takeLine d (n + 1) (b :: s)).1
      :: lines d n (takeLine d (n + 1) (b :: s)).2 := by
  have h := linesFuel_eq_of_le d n _ (takeLine_rest_length d n b s) le_rfl
  rw [lines, List.length_cons, linesFuel, h, lines]

lemma length_le_of_mem_lines {l : List α} (hl : l ∈ lines d n s) : l.length ≤ n + 1 := by
  have key : ∀ fuel (s : List α), l ∈ linesFuel d (n + 1) fuel s → l.length ≤ n + 1 := by
    intro fuel
    induction fuel with
    | zero => intro s h; simp [linesFuel] at h
    | succ fuel ih =>
        intro s h
        cases s with
        | nil => simp [linesFuel] at h
        | cons b s =>
            rw [linesFuel, List.mem_cons] at h
            rcases h with rfl | h
            · exact takeLine_length_le _ _ _
            · exact ih _ h
  exact key _ _ hl

end BoundedLines
