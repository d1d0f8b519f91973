import Mathlib.Tactic

/-!
The painter's rule: layers laid over a base one after the other, each of them transparent in
places.

A layer over locations `ι` with values in `β` is a function `ι → Option β`, `none` where it is
transparent.

* `paint`: the layers laid over a base in order; `topmost`: the value of the last layer that
  shows at a location.
* `paint_apply`: **the painter's rule**, what is seen is `topmost` over the base.
* `topmost_append`, `topmost_flatMap`: groups of layers may be read as one layer.
* `topmost_range_of_unique`: layers of which at most one shows at the location.
-/

namespace Painter

variable {ι κ β : Type*}

/-- The layers laid over `base`, the head of the list first. -/
def paint (layers : List (ι → Option β)) (base : ι → β) : ι → β :=
  layers.foldl (fun m l x => (l x).getD (m x)) base

/-- The value of the last layer that shows at `x`. -/
def topmost (layers : List (ι → Option β)) (x : ι) : Option β :=
  (layers.filterMap fun l => l x).getLast?

@[simp] lemma topmost_nil (x : ι) : topmost ([] : List (ι → Option β)) x = none := rfl

/-- The later group of layers hides the earlier one. -/
lemma topmost_append (ls ls' : List (ι → Option β)) (x : ι) :
    topmost (ls ++ ls') x = (topmost ls' x).or (topmost ls x) := by
  rw [topmost, List.filterMap_append, List.getLast?_append]
  rfl

@[simp] lemma topmost_singleton (l : ι → Option β) (x : ι) : topmost [l] x = l x := by
  cases h : l x <;> simp [topmost, h]

/-- **The painter's rule**: what is seen at a location is the value of the last layer that
shows there, and the base where no layer does. -/
theorem paint_apply (layers : List (ι → Option β)) (base : ι → β) (x : ι) :
    paint layers base x = (topmost layers x).getD (base x) := by
  induction layers using List.reverseRecOn with
  | nil => rfl
  | append_singleton ls l ih =>
      rw [topmost_append, topmost_singleton]
      calc paint (ls ++ [l]) base x = (l x).getD (paint ls base x) := by
            rw [paint, List.foldl_append]
            rfl
        _ = ((l x).or (topmost ls x)).getD (base x) := by
            rw [ih]
            cases l x <;> rfl

/-- Where no layer shows the base is seen. -/
lemma topmost_eq_none {ls : List (ι → Option β)} {x : ι} (h : ∀ l ∈ ls, l x = none) :
    topmost ls x = none := by
  rw [topmost, List.filterMap_eq_nil_iff.mpr h]
  rfl

/-- What is seen is shown by one of the layers. -/
lemma exists_of_topmost {ls : List (ι → Option β)} {x : ι} {v : β} (h : topmost ls x = some v) :
    ∃ l ∈ ls, l x = some v :=
  List.mem_filterMap.mp (List.mem_of_getLast? h)

/-- A group of layers may be read as one layer. -/
lemma topmost_flatMap {α : Type*} (as : List α) (f : α → List (ι → Option β)) (x : ι) :
    topmost (as.flatMap f) x = topmost (as.map fun a => topmost (f a)) x := by
  induction as using List.reverseRecOn with
  | nil => rfl
  | append_singleton as a ih =>
      rw [List.flatMap_append, List.map_append, topmost_append, topmost_append, ih]
      simp

/-- What is seen of the layers does not depend on where the location lives. -/
lemma topmost_congr {ls : List (ι → Option β)} {ls' : List (κ → Option β)} {x : ι} {y : κ}
    (h : (ls.map fun l => l x) = ls'.map fun l => l y) : topmost ls x = topmost ls' y := by
  have hx : ls.filterMap (fun l => l x) = (ls.map fun l => l x).filterMap id := by
    rw [List.filterMap_map]
    rfl
  have hy : ls'.filterMap (fun l => l y) = (ls'.map fun l => l y).filterMap id := by
    rw [List.filterMap_map]
    rfl
  rw [topmost, topmost, hx, hy, h]

/-- Of `n` layers at most the one numbered `j` shows at the location. -/
lemma topmost_range_of_unique {n j : ℕ} {f : ℕ → ι → Option β} {x : ι}
    (h : ∀ i < n, i ≠ j → f i x = none) :
    topmost ((List.range n).map f) x = if j < n then f j x else none := by
  induction n with
  | zero => rfl
  | succ n ih =>
      rw [List.range_succ, List.map_append, topmost_append, List.map_singleton, topmost_singleton,
        ih fun i hi => h i (Nat.lt_succ_of_lt hi)]
      by_cases hn : n = j
      · subst hn
        rw [if_neg (lt_irrefl n), if_pos (Nat.lt_succ_self n)]
        cases f n x <;> rfl
      · rw [h n (Nat.lt_succ_self n) hn, Option.none_or]
        by_cases hj : j < n
        · rw [if_pos hj, if_pos (Nat.lt_succ_of_lt hj)]
        · rw [if_neg hj, if_neg (by omega)]

end Painter
