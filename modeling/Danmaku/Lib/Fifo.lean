import Mathlib.Tactic

/-!
First-in first-out queues, and what it means to implement one.

* `Op`, `step`, `run`: the operations, and what they do to the list of waiting entries.
* `Implementation`: a queue over some storage, whose operations may fail and which says what places
  of the storage they touch.
* `Refines`: each operation that finds room keeps an invariant, stays inside the storage and does to
  the contents what the list does. `Refines.run_spec`: **so does every run**.
* `Conserves`: a machine hands on the oldest entries that it holds, and keeps what it takes behind
  the others; `Conserves.record`: **nothing is lost, doubled or overtaken**, carried over a step.
-/

namespace Fifo

variable {α σ ι : Type*}

/-- The operations of a queue. `compact` may rearrange its storage. -/
inductive Op (α : Type*)
  | push (x : α)
  | fetch
  | pop
  | compact

/-- What an operation does to the waiting entries, oldest first, and what it answers. -/
def step : Op α → List α → List α × Option α
  | .push x, xs => (xs ++ [x], none)
  | .fetch, xs => (xs, xs.head?)
  | .pop, xs => (xs.tail, none)
  | .compact, xs => (xs, none)

/-- The entries after a sequence of operations, and the answers. -/
def run : List (Op α) → List α → List α × List (Option α)
  | [], xs => (xs, [])
  | op :: ops, xs => ((run ops (step op xs).1).1, (step op xs).2 :: (run ops (step op xs).1).2)

/-- The operation finds room in a queue of capacity `cap`. -/
def Op.Fits (cap : ℕ) (xs : List α) : Op α → Prop
  | .push _ => xs.length < cap
  | _ => True

/-- All operations find room. -/
def HasRoom (cap : ℕ) : List (Op α) → List α → Prop
  | [], _ => True
  | op :: ops, xs => op.Fits cap xs ∧ HasRoom cap ops (step op xs).1

lemma HasRoom.of_prefix {cap : ℕ} {pre ops : List (Op α)} {xs : List α} (h : HasRoom cap ops xs)
    (hpre : pre <+: ops) : HasRoom cap pre xs := by
  induction pre generalizing ops xs with
  | nil => trivial
  | cons op pre ih =>
      obtain ⟨post, rfl⟩ := hpre
      exact ⟨h.1, ih h.2 (List.prefix_append _ _)⟩

/-- A queue over the states `σ`: what an operation makes of a state, if it does not fail, with its
answer; and the places that it touches. -/
structure Implementation (σ ι α : Type*) where
  step : Op α → σ → Option (σ × Option α)
  touched : Op α → σ → List ι

namespace Implementation

variable (M : Implementation σ ι α)

/-- The state after a sequence of operations, the answers, and all places touched. -/
def run : List (Op α) → σ → Option (σ × List (Option α) × List ι)
  | [], s => some (s, [], [])
  | op :: ops, s => (M.step op s).bind fun p => (run ops p.1).map fun q =>
      (q.1, p.2 :: q.2.1, M.touched op s ++ q.2.2)

/-- The queue implements the list of its contents, for as long as there is room. -/
structure Refines (cap : ℕ) (Inv : σ → Prop) (InBounds : ι → Prop) (contents : σ → List α) :
    Prop where
  touched_inBounds : ∀ op s, Inv s → op.Fits cap (contents s) →
    ∀ i ∈ M.touched op s, InBounds i
  step_eq : ∀ op s, Inv s → op.Fits cap (contents s) → ∃ s' answer,
    M.step op s = some (s', answer) ∧ Inv s' ∧ (contents s', answer) = Fifo.step op (contents s)

variable {M} {cap : ℕ} {Inv : σ → Prop} {InBounds : ι → Prop} {contents : σ → List α}

/-- **Every run that finds room** ends with the contents and the answers of the list, keeps the
invariant and stays inside the storage. -/
theorem Refines.run_spec (h : M.Refines cap Inv InBounds contents) {ops : List (Op α)} {s : σ}
    (hs : Inv s) (hroom : HasRoom cap ops (contents s)) :
    ∃ t answers touched, M.run ops s = some (t, answers, touched) ∧ Inv t
      ∧ (contents t, answers) = Fifo.run ops (contents s) ∧ ∀ i ∈ touched, InBounds i := by
  induction ops generalizing s with
  | nil => exact ⟨s, [], [], rfl, hs, rfl, fun i hi => absurd hi (by simp)⟩
  | cons op ops ih =>
      obtain ⟨s', answer, hstep, hs', heq⟩ := h.step_eq op s hs hroom.1
      have hcontents : contents s' = (Fifo.step op (contents s)).1 := congrArg Prod.fst heq
      obtain ⟨t, answers, touched, hrun, ht, hlist, hin⟩ := ih hs' (hcontents ▸ hroom.2)
      refine ⟨t, answer :: answers, M.touched op s ++ touched, ?_, ht, ?_, ?_⟩
      · simp [run, hstep, hrun]
      · rw [hcontents] at hlist
        rw [Fifo.run, ← hlist, ← heq]
      · intro i hi
        rcases List.mem_append.mp hi with hi | hi
        · exact h.touched_inBounds op s hs hroom.1 i hi
        · exact hin i hi

end Implementation

/-! ### Machines that hand on what they take -/

/-- What `holds` shows before a step and what the step takes is what it gives and what `holds`
shows afterwards. -/
def Conserves {β : Type*} (R : σ → β → σ → Prop) (holds : σ → List α)
    (takes gives : σ → β → List α) : Prop :=
  ∀ ⦃s a t⦄, R s a t → holds s ++ takes s a = gives s a ++ holds t

/-- The entries taken and given before a step, and those after it. -/
lemma Conserves.record {β : Type*} {R : σ → β → σ → Prop} {holds : σ → List α}
    {takes gives : σ → β → List α} (h : Conserves R holds takes gives) {s₀ s t : σ} {a : β}
    {taken given : List α} (hold : holds s₀ ++ taken = given ++ holds s) (hs : R s a t) :
    holds s₀ ++ (taken ++ takes s a) = given ++ gives s a ++ holds t := by
  rw [← List.append_assoc, hold, List.append_assoc, h hs, List.append_assoc]

end Fifo
