import Danmaku.Constants

/-!
`ring.c`: the ring of frame buffers between the render thread and the overlay thread.

A ring value carries the bounds of its two pointers. Each function below is the body of
one critical section; `-1` is the answer "none", and `none` a failed assertion.

* `getFilledBuffer_eq`, `getEmptyBuffer_eq`: when the answers are buffer indices.
* `releaseBuffer_isSome`, `commitBuffer_isSome`: when the assertions hold.
* `releaseBuffer_spec`, `commitBuffer_spec`: the pointers and the occupancy after each operation.
* `Committed`: the buffers in the filled part of the ring.
-/

namespace Danmaku

/-- The two pointers of `ring.c`. -/
structure Ring where
  rdptr : ℕ
  wrptr : ℕ
  rdptr_lt : rdptr < numFrameBuffer
  wrptr_lt : wrptr < numFrameBuffer
  deriving DecidableEq, Repr

namespace Ring

lemma next_lt (p : ℕ) : (p + 1) % numFrameBuffer < numFrameBuffer :=
  Nat.mod_lt _ (by decide)

/-- `RingSize`. -/
def ringSize (r : Ring) : ℕ := (r.wrptr + numFrameBuffer - r.rdptr) % numFrameBuffer

/-- `GetFilledBuffer`. -/
def getFilledBuffer (r : Ring) : ℤ := if r.wrptr = r.rdptr then -1 else r.rdptr

/-- `GetEmptyBuffer`. -/
def getEmptyBuffer (r : Ring) : ℤ :=
  if (r.wrptr + 1) % numFrameBuffer = r.rdptr then -1 else r.wrptr

/-- `ReleaseBuffer`, which asserts that the ring is not empty. -/
def releaseBuffer (r : Ring) : Option Ring :=
  if r.rdptr ≠ r.wrptr then
    some { r with rdptr := (r.rdptr + 1) % numFrameBuffer, rdptr_lt := next_lt _ }
  else none

/-- `CommitBuffer`, which asserts that the ring is not full. -/
def commitBuffer (r : Ring) : Option Ring :=
  if (r.wrptr + 1) % numFrameBuffer ≠ r.rdptr then
    some { r with wrptr := (r.wrptr + 1) % numFrameBuffer, wrptr_lt := next_lt _ }
  else none

/-- The static pointers at program start. -/
def initial : Ring := ⟨0, 0, by decide, by decide⟩

/-- Buffer `b` lies in the filled part of the ring, at most `ringSize` places from `rdptr`. -/
def Committed (r : Ring) (b : ℕ) : Prop :=
  b < numFrameBuffer ∧ (b + numFrameBuffer - r.rdptr) % numFrameBuffer < r.ringSize

instance (r : Ring) (b : ℕ) : Decidable (r.Committed b) :=
  inferInstanceAs (Decidable (_ ∧ _))

variable {r r' : Ring}

lemma ringSize_lt (r : Ring) : r.ringSize < numFrameBuffer := Nat.mod_lt _ (by decide)

/-- The write pointer is `ringSize` places behind the read pointer. -/
lemma wrptr_eq (r : Ring) : r.wrptr = (r.rdptr + r.ringSize) % numFrameBuffer := by
  have h1 := r.rdptr_lt
  have h2 := r.wrptr_lt
  simp only [ringSize, numFrameBuffer] at *
  omega

lemma ringSize_eq_zero_iff : r.ringSize = 0 ↔ r.wrptr = r.rdptr := by
  have h1 := r.rdptr_lt
  have h2 := r.wrptr_lt
  simp only [ringSize, numFrameBuffer] at *
  omega

lemma ringSize_eq_six_iff : r.ringSize = 6 ↔ (r.wrptr + 1) % numFrameBuffer = r.rdptr := by
  have h1 := r.rdptr_lt
  have h2 := r.wrptr_lt
  simp only [ringSize, numFrameBuffer] at *
  omega

lemma getFilledBuffer_eq (r : Ring) :
    r.getFilledBuffer = if r.ringSize = 0 then -1 else (r.rdptr : ℤ) := by
  simp only [getFilledBuffer, ringSize_eq_zero_iff]

lemma getEmptyBuffer_eq (r : Ring) :
    r.getEmptyBuffer = if r.ringSize = 6 then -1 else (r.wrptr : ℤ) := by
  simp only [getEmptyBuffer, ringSize_eq_six_iff]

lemma releaseBuffer_isSome : r.releaseBuffer.isSome ↔ r.ringSize ≠ 0 := by
  have h : r.ringSize ≠ 0 ↔ r.rdptr ≠ r.wrptr := by
    rw [ne_eq, ringSize_eq_zero_iff, eq_comm]
  rw [h, releaseBuffer]
  split <;> simp_all

lemma commitBuffer_isSome : r.commitBuffer.isSome ↔ r.ringSize ≠ 6 := by
  have h : r.ringSize ≠ 6 ↔ (r.wrptr + 1) % numFrameBuffer ≠ r.rdptr := by
    rw [ne_eq, ringSize_eq_six_iff]
  rw [h, commitBuffer]
  split <;> simp_all

/-- A release out of a filled ring fails no assertion. -/
lemma releaseBuffer_ne_none (h : r.ringSize ≠ 0) : r.releaseBuffer ≠ none :=
  Option.isSome_iff_ne_none.mp (releaseBuffer_isSome.mpr h)

/-- A commit into a ring with room fails no assertion. -/
lemma commitBuffer_ne_none (h : r.ringSize ≠ 6) : r.commitBuffer ≠ none :=
  Option.isSome_iff_ne_none.mp (commitBuffer_isSome.mpr h)

/-- What a release does, assertion included. -/
lemma releaseBuffer_spec (h : r.releaseBuffer = some r') :
    r.ringSize ≠ 0 ∧ r'.rdptr = (r.rdptr + 1) % numFrameBuffer ∧ r'.wrptr = r.wrptr
      ∧ r'.ringSize + 1 = r.ringSize := by
  have hne := releaseBuffer_isSome.mp (Option.isSome_of_eq_some h)
  rw [releaseBuffer] at h
  split at h
  · obtain rfl := Option.some.inj h
    refine ⟨hne, rfl, rfl, ?_⟩
    have h1 := r.rdptr_lt
    have h2 := r.wrptr_lt
    simp only [ringSize, numFrameBuffer] at *
    omega
  · exact absurd h (by simp)

/-- What a commit does, assertion included. -/
lemma commitBuffer_spec (h : r.commitBuffer = some r') :
    r.ringSize ≠ 6 ∧ r'.wrptr = (r.wrptr + 1) % numFrameBuffer ∧ r'.rdptr = r.rdptr
      ∧ r'.ringSize = r.ringSize + 1 := by
  have hne := commitBuffer_isSome.mp (Option.isSome_of_eq_some h)
  rw [commitBuffer] at h
  split at h
  · obtain rfl := Option.some.inj h
    refine ⟨hne, rfl, rfl, ?_⟩
    have h1 := r.rdptr_lt
    have h2 := r.wrptr_lt
    simp only [ringSize, numFrameBuffer] at *
    omega
  · exact absurd h (by simp)

/-- In a filled ring the two pointers differ. -/
lemma wrptr_ne_rdptr (h : 1 ≤ r.ringSize) : r.wrptr ≠ r.rdptr := by
  intro he
  rw [ringSize_eq_zero_iff.mpr he] at h
  omega

lemma committed_rdptr (h : 1 ≤ r.ringSize) : r.Committed r.rdptr := by
  have h1 := r.rdptr_lt
  simp only [Committed, numFrameBuffer] at *
  omega

/-- A release takes a buffer out of the ring. -/
lemma committed_of_releaseBuffer {b : ℕ} (h : r.releaseBuffer = some r') (hb : r'.Committed b) :
    r.Committed b := by
  obtain ⟨hne, hrd, hwr, hsize⟩ := releaseBuffer_spec h
  have h1 := r.rdptr_lt
  have h2 := r.ringSize_lt
  simp only [Committed, hrd, numFrameBuffer] at *
  omega

/-- A commit puts the buffer at the write pointer into the ring. -/
lemma committed_of_commitBuffer {b : ℕ} (h : r.commitBuffer = some r') (hb : r'.Committed b) :
    r.Committed b ∨ b = r.wrptr := by
  obtain ⟨hne, hwr, hrd, hsize⟩ := commitBuffer_spec h
  have hw := r.wrptr_eq
  have h1 := r.rdptr_lt
  have h2 := r.ringSize_lt
  simp only [Committed, hrd, numFrameBuffer] at *
  omega

/-- The buffer released last. -/
def lastReleased (r : Ring) : ℕ := (r.rdptr + 6) % numFrameBuffer

/-- In a ring with two empty buffers the one released last is not the next to be filled. -/
lemma wrptr_ne_lastReleased (h : r.ringSize ≤ 5) : r.wrptr ≠ r.lastReleased := by
  have h1 := r.rdptr_lt
  have h2 := r.wrptr_lt
  simp only [ringSize, lastReleased, numFrameBuffer] at *
  omega

end Ring

end Danmaku
