import Mathlib.Tactic

/-!
A bump allocator: requests are served one behind another from an area of a fixed size, until one
does not fit.

* `alloc size used lengths`: the regions, as offset and length, that the requests get when `used`
  bytes are taken.
* `alloc_inside`, `alloc_pairwise`, `used_add_sum_le`: the regions lie in the free part of the area,
  one behind the other, and together are no larger than it.
* `alloc_length_iff`: when every request is served.
-/

namespace BumpAllocator

/-- The regions handed out for `lengths`; the first request that does not fit ends it. -/
def alloc (size used : ℕ) : List ℕ → List (ℕ × ℕ)
  | [] => []
  | n :: ns => if used + n ≤ size then (used, n) :: alloc size (used + n) ns else []

variable {size used : ℕ} {ns : List ℕ}

lemma alloc_inside : ∀ r ∈ alloc size used ns, used ≤ r.1 ∧ r.1 + r.2 ≤ size := by
  induction ns generalizing used with
  | nil => simp [alloc]
  | cons n ns ih =>
      intro r hr
      rw [alloc] at hr
      split at hr
      · rcases List.mem_cons.mp hr with rfl | hr
        · exact ⟨le_rfl, ‹_›⟩
        · obtain ⟨hlow, hhigh⟩ := ih r hr
          exact ⟨by omega, hhigh⟩
      · exact absurd hr List.not_mem_nil

/-- Each region lies behind all earlier ones. -/
lemma alloc_pairwise : (alloc size used ns).Pairwise fun a b => a.1 + a.2 ≤ b.1 := by
  induction ns generalizing used with
  | nil => exact List.Pairwise.nil
  | cons n ns ih =>
      rw [alloc]
      split
      · exact List.Pairwise.cons (fun r hr => (alloc_inside r hr).1) ih
      · exact List.Pairwise.nil

lemma used_add_sum_le (h : used ≤ size) :
    used + ((alloc size used ns).map Prod.snd).sum ≤ size := by
  induction ns generalizing used with
  | nil => simpa [alloc] using h
  | cons n ns ih =>
      rw [alloc]
      split
      · have hrest : used + n + ((alloc size (used + n) ns).map Prod.snd).sum ≤ size := ih ‹_›
        simp only [List.map_cons, List.sum_cons]
        omega
      · simpa using h

/-- Every request is served exactly when all of them together fit. -/
lemma alloc_length_iff (h : used ≤ size) :
    (alloc size used ns).length = ns.length ↔ used + ns.sum ≤ size := by
  induction ns generalizing used with
  | nil => simpa [alloc] using h
  | cons n ns ih =>
      rw [alloc]
      split
      · rw [List.length_cons, List.length_cons, Nat.add_right_cancel_iff, ih ‹_›, List.sum_cons,
          Nat.add_assoc]
      · simp only [List.length_nil, List.length_cons, List.sum_cons]
        omega

end BumpAllocator
