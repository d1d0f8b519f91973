import Mathlib.Tactic

/-!
A DMA engine behind a descriptor FIFO: descriptors are submitted by software, popped in
order, and processed one at a time.

* `Engine`: the descriptor FIFO and the descriptor being processed.
* `submit`, refused when the FIFO holds `depth` descriptors; `dequeue?` and `finish?`, the
  two steps of the engine.
* `pending` and `idle`, the status bits; `outstanding`, the descriptors not finished, the
  one in progress first, and how each operation changes it.
* `work`: how many steps the engine has left.
-/

namespace DmaEngine

/-- The state of an engine whose descriptors have type `δ`. -/
structure Engine (δ : Type*) where
  fifo : List δ
  active : Option δ
  deriving DecidableEq, Repr

namespace Engine

variable {δ : Type*} {e e' : Engine δ} {d x : δ} {depth : ℕ}

/-- Nothing queued, nothing in progress. -/
def empty : Engine δ := ⟨[], none⟩

/-- The "descriptor buffer full" status. -/
def full (depth : ℕ) (e : Engine δ) : Bool := decide (depth ≤ e.fifo.length)

/-- A descriptor is waiting in the FIFO. -/
def pending (e : Engine δ) : Bool := !e.fifo.isEmpty

/-- Not busy and no descriptor waiting. -/
def idle (e : Engine δ) : Bool := e.fifo.isEmpty && e.active.isNone

/-- The descriptors not finished, in processing order. -/
def outstanding (e : Engine δ) : List δ := e.active.toList ++ e.fifo

/-- A descriptor written to the descriptor port. -/
def submit (e : Engine δ) (d : δ) : Engine δ := { e with fifo := e.fifo ++ [d] }

/-- The engine takes the next descriptor, if it is not processing one. -/
def dequeue? (e : Engine δ) : Option (Engine δ) :=
  match e.active, e.fifo with
  | none, d :: rest => some ⟨rest, some d⟩
  | _, _ => none

/-- The engine finishes the descriptor in progress, and says which one. -/
def finish? (e : Engine δ) : Option (δ × Engine δ) :=
  match e.active with
  | some d => some (d, { e with active := none })
  | none => none

@[simp] lemma outstanding_empty : (empty : Engine δ).outstanding = [] := rfl

@[simp] lemma outstanding_submit : (e.submit d).outstanding = e.outstanding ++ [d] := by
  simp [submit, outstanding]

@[simp] lemma fifo_submit : (e.submit d).fifo = e.fifo ++ [d] := rfl

@[simp] lemma active_submit : (e.submit d).active = e.active := rfl

lemma pending_eq_false_iff : e.pending = false ↔ e.fifo = [] := by
  simp [pending]

lemma idle_iff : e.idle = true ↔ e.outstanding = [] := by
  cases h : e.active <;> simp [idle, outstanding, h]

lemma dequeue?_spec (h : e.dequeue? = some e') :
    e.active = none ∧ ∃ d, e'.active = some d ∧ e.fifo = d :: e'.fifo := by
  unfold dequeue? at h
  split at h
  · rename_i d rest ha hf
    obtain rfl := Option.some.inj h
    exact ⟨ha, d, rfl, hf⟩
  · exact absurd h (by simp)

lemma dequeue?_outstanding (h : e.dequeue? = some e') : e'.outstanding = e.outstanding := by
  obtain ⟨ha, d, ha', hf⟩ := dequeue?_spec h
  simp [outstanding, ha, ha', hf]

lemma finish?_spec (h : e.finish? = some (d, e')) :
    e.active = some d ∧ e'.active = none ∧ e'.fifo = e.fifo := by
  unfold finish? at h
  split at h
  · rename_i x ha
    simp only [Option.some.injEq, Prod.mk.injEq] at h
    obtain ⟨rfl, rfl⟩ := h
    exact ⟨ha, rfl, rfl⟩
  · exact absurd h (by simp)

/-- The finished descriptor is the oldest one outstanding. -/
lemma finish?_outstanding (h : e.finish? = some (d, e')) :
    e.outstanding = d :: e'.outstanding := by
  obtain ⟨ha, ha', hf⟩ := finish?_spec h
  simp [outstanding, ha, ha', hf]

/-! ### The work left -/

/-- The steps that the engine has to make until nothing is outstanding. -/
def work (e : Engine δ) : ℕ := 2 * e.fifo.length + e.active.toList.length

@[simp] lemma work_submit : (e.submit d).work = e.work + 2 := by
  simp only [work, fifo_submit, active_submit, List.length_append, List.length_singleton]
  omega

lemma work_dequeue (h : e.dequeue? = some e') : e'.work + 1 = e.work := by
  obtain ⟨ha, d, ha', hf⟩ := dequeue?_spec h
  simp only [work, ha, ha', hf, Option.toList_some, Option.toList_none, List.length_cons,
    List.length_nil]
  omega

lemma work_finish (h : e.finish? = some (d, e')) : e'.work + 1 = e.work := by
  obtain ⟨ha, ha', hf⟩ := finish?_spec h
  simp [work, ha, ha', hf]

lemma work_eq_zero_iff : e.work = 0 ↔ e.outstanding = [] := by
  cases ha : e.active <;> simp [work, outstanding, ha]

/-- An engine with a descriptor outstanding can make a step. -/
lemma moves_of_outstanding (h : e.outstanding ≠ []) :
    (∃ e', e.dequeue? = some e') ∨ ∃ d e', e.finish? = some (d, e') := by
  obtain ⟨fifo, active⟩ := e
  cases active with
  | some d => exact Or.inr ⟨d, _, rfl⟩
  | none =>
      cases fifo with
      | nil => exact absurd rfl h
      | cons d rest => exact Or.inl ⟨_, rfl⟩

end Engine

end DmaEngine
