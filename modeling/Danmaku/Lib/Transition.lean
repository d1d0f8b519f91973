import Mathlib.Tactic

/-!
Labelled transition relations and their finite runs.

* `Run R s as t`: the actions `as`, taken in order by `R`, lead from `s` to `t`.
* `Run.invariant`: a property that holds initially and that every step keeps holds at the
  end of every run; `Run.invariant_of_reach` lets the step lemma use that the state is
  reached. `Run.of_foldlM`: runs that a step function computes.
* `Guard R G`: the steps of `R` that meet the condition `G`; a run of `Guard R G` is a run
  of `R` whose steps all meet `G`.
* `Run.keeps_iff_guard`: when `G` is the exact condition for a run to keep a property.
* `Recorded R upd`: the relation `R` with a history that `upd` extends at every step. The
  history never blocks a run (`Run.recorded`).
-/

namespace Transition

variable {σ α η : Type*}

/-- The actions `as`, taken in order, lead from the first state to the last. -/
inductive Run (R : σ → α → σ → Prop) (s : σ) : List α → σ → Prop
  | nil : Run R s [] s
  | snoc {as : List α} {a : α} {t u : σ} :
      Run R s as t → R t a u → Run R s (as ++ [a]) u

namespace Run

variable {R R' : σ → α → σ → Prop} {s t u : σ} {as bs : List α} {a : α}

lemma single (h : R s a t) : Run R s [a] t := .snoc .nil h

lemma append (h₁ : Run R s as t) (h₂ : Run R t bs u) : Run R s (as ++ bs) u := by
  induction h₂ with
  | nil => simpa using h₁
  | snoc _ hstep ih =>
      rw [← List.append_assoc]
      exact .snoc ih hstep

lemma cons (h : R s a t) (h₂ : Run R t as u) : Run R s (a :: as) u :=
  (single h).append h₂

/-- A run of a relation is a run of every weaker one. -/
lemma mono (hle : ∀ s a t, R s a t → R' s a t) (h : Run R s as t) : Run R' s as t := by
  induction h with
  | nil => exact .nil
  | snoc _ hstep ih => exact .snoc ih (hle _ _ _ hstep)

/-- **The invariant rule**, where the step lemma may use that its state is reached. -/
lemma invariant_of_reach {I : σ → Prop} (h0 : I s)
    (hstep : ∀ as t a u, Run R s as t → I t → R t a u → I u) (h : Run R s as t) : I t := by
  induction h with
  | nil => exact h0
  | snoc hrun hs ih => exact hstep _ _ _ _ hrun ih hs

/-- **The invariant rule**: what holds initially and is kept by every step holds at the end
of every run. -/
lemma invariant {I : σ → Prop} (h0 : I s) (hstep : ∀ t a u, I t → R t a u → I u)
    (h : Run R s as t) : I t :=
  h.invariant_of_reach h0 fun _ t a u _ hI hs => hstep t a u hI hs

/-- A run computed action by action. -/
lemma of_foldlM {f : σ → α → Option σ} (hf : ∀ a ∈ as, ∀ s t, f s a = some t → R s a t)
    (h : as.foldlM f s = some t) : Run R s as t := by
  induction as generalizing s with
  | nil =>
      obtain rfl := Option.some.inj h
      exact .nil
  | cons a as ih =>
      rw [List.forall_mem_cons] at hf
      obtain ⟨u, hu, hrest⟩ := Option.bind_eq_some_iff.mp h
      exact cons (hf.1 s u hu) (ih hf.2 hrest)

end Run

/-- The steps of `R` that meet the condition `G`. -/
def Guard (R : σ → α → σ → Prop) (G : σ → α → Prop) (s : σ) (a : α) (t : σ) : Prop :=
  R s a t ∧ G s a

/-- A run whose actions all meet a condition. -/
lemma Run.guard_of_forall_mem {R : σ → α → σ → Prop} {G : α → Prop} {s t : σ} {as : List α}
    (h : Run R s as t) (hG : ∀ a ∈ as, G a) : Run (Guard R fun _ a => G a) s as t := by
  induction h with
  | nil => exact .nil
  | snoc _ hs ih =>
      simp only [List.mem_append, List.mem_singleton] at hG
      exact .snoc (ih fun a ha => hG a (Or.inl ha)) ⟨hs, hG _ (Or.inr rfl)⟩

/-- A run along which an invariant gives the condition. -/
lemma Run.guard_of_invariant {R : σ → α → σ → Prop} {G : σ → α → Prop} {I : σ → Prop} {s t : σ}
    {as : List α} (h0 : I s) (hguard : ∀ t a u, I t → R t a u → G t a)
    (hstep : ∀ t a u, I t → R t a u → I u) (h : Run R s as t) : Run (Guard R G) s as t := by
  induction h with
  | nil => exact .nil
  | @snoc as a t u hrun hs ih => exact .snoc ih ⟨hs, hguard t a u (hrun.invariant h0 hstep) hs⟩

lemma Run.of_guard {R : σ → α → σ → Prop} {G : σ → α → Prop} {s t : σ} {as : List α}
    (h : Run (Guard R G) s as t) : Run R s as t :=
  h.mono fun _ _ _ hs => hs.1

/-- **The exact condition for a run to keep a property**: the guarded steps keep an invariant that
gives the property, and a step outside the guard breaks it at once. -/
lemma Run.keeps_iff_guard {R : σ → α → σ → Prop} {G : σ → α → Prop} {P I : σ → Prop} {s t : σ}
    {as : List α} (h0 : I s) (hkeep : ∀ t a u, I t → G t a → R t a u → I u)
    (hgood : ∀ t, I t → P t) (hbad : ∀ t a u, I t → ¬ G t a → R t a u → ¬ P u) :
    Run (fun t a u => R t a u ∧ P u) s as t ↔ Run (Guard R G) s as t := by
  have hinv : ∀ {as t}, Run (Guard R G) s as t → I t := fun h =>
    h.invariant h0 fun t a u hI hs => hkeep t a u hI hs.2 hs.1
  constructor
  · intro h
    induction h with
    | nil => exact .nil
    | @snoc as a t u _ hs ih =>
        refine .snoc ih ⟨hs.1, ?_⟩
        by_contra hG
        exact hbad t a u (hinv ih) hG hs.1 hs.2
  · intro h
    induction h with
    | nil => exact .nil
    | @snoc as a t u hrun hs ih =>
        exact .snoc ih ⟨hs.1, hgood u (hkeep t a u (hinv hrun) hs.2 hs.1)⟩

/-- The relation `R` with a history beside the state, which `upd` extends at every step. -/
def Recorded (R : σ → α → σ → Prop) (upd : σ → α → η → η) (p : σ × η) (a : α)
    (q : σ × η) : Prop :=
  R p.1 a q.1 ∧ q.2 = upd p.1 a p.2

/-- Recording a history blocks no run. -/
lemma Run.recorded {R : σ → α → σ → Prop} (upd : σ → α → η → η) {s t : σ} {as : List α}
    (h : Run R s as t) (x : η) : ∃ y, Run (Recorded R upd) (s, x) as (t, y) := by
  induction h with
  | nil => exact ⟨x, .nil⟩
  | snoc _ hs ih =>
      obtain ⟨y, hy⟩ := ih
      exact ⟨_, .snoc hy ⟨hs, rfl⟩⟩

end Transition
