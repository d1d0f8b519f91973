import Danmaku.Lib.Transition

/-!
Infinite runs of a labelled transition relation, and what must happen in the just ones.

* `Execution R σ act`: the states and the actions of an infinite run.
* `Just`: a party that can move at every state from some point on moves.
* `exists_of_rank`: the rank rule. In each state some party is *helpful*: its moves lower
  a rank, the moves of the others do not raise it and leave the same party helpful.
* `schedule`: the run in which the parties take turns; `just_schedule`: it is just.
-/

namespace Transition

variable {S A P : Type*}

/-- The states and the actions of an infinite run. -/
def Execution (R : S → A → S → Prop) (σ : ℕ → S) (act : ℕ → A) : Prop :=
  ∀ n, R (σ n) (act n) (σ (n + 1))

/-- The party can move. -/
def Enabled (R : S → A → S → Prop) (party : A → P) (p : P) (s : S) : Prop :=
  ∃ a t, party a = p ∧ R s a t

/-- A party that can move from some point on moves. -/
def Just (R : S → A → S → Prop) (party : A → P) (σ : ℕ → S) (act : ℕ → A) (p : P) : Prop :=
  ∀ n, (∀ m, n ≤ m → Enabled R party p (σ m)) → ∃ m, n ≤ m ∧ party (act m) = p

namespace Execution

variable {R : S → A → S → Prop} {party : A → P} {σ : ℕ → S} {act : ℕ → A}

/-- What holds initially and is kept by every step holds throughout. -/
lemma invariant (h : Execution R σ act) {I : S → Prop} (h0 : I (σ 0))
    (hstep : ∀ s a t, I s → R s a t → I t) (n : ℕ) : I (σ n) := by
  induction n with
  | zero => exact h0
  | succ n ih => exact hstep _ _ _ ih (h n)

end Execution

section Rank

variable {R : S → A → S → Prop} {party : A → P} {σ : ℕ → S} {act : ℕ → A}

/-- **The rank rule.** Under the condition `C` a just party is helpful, and either the goal comes
or the condition goes on: with a lower rank, or with the same rank and the same helpful party,
which has not moved. -/
theorem exists_of_rank {W : Type*} {r : W → W → Prop} (hwf : WellFounded r) (C : ℕ → Prop)
    {Q : ℕ → Prop} (rank : ℕ → W) (helper : ℕ → P)
    (hjust : ∀ n, C n → Just R party σ act (helper n))
    (henabled : ∀ n, C n → Enabled R party (helper n) (σ n))
    (hstep : ∀ n, C n → (∃ m, n ≤ m ∧ Q m) ∨ C (n + 1) ∧ (r (rank (n + 1)) (rank n)
      ∨ rank (n + 1) = rank n ∧ helper (n + 1) = helper n ∧ party (act n) ≠ helper n))
    {n : ℕ} (hn : C n) : ∃ m, n ≤ m ∧ Q m := by
  induction hw : rank n using hwf.induction generalizing n with
  | _ w ih =>
    subst hw
    by_contra hno
    -- without a lower rank everything stays as it is
    have hlow : ∀ m, n ≤ m → C m → ¬ r (rank m) (rank n) := fun m hm hC hr =>
      hno ((ih _ hr hC rfl).imp fun k hk => ⟨hm.trans hk.1, hk.2⟩)
    have hsame : ∀ m, n ≤ m → C m ∧ rank m = rank n ∧ helper m = helper n := by
      intro m hm
      induction m, hm using Nat.le_induction with
      | base => exact ⟨hn, rfl, rfl⟩
      | succ m hm ihm =>
          obtain ⟨hC, hrank, hhelper⟩ := ihm
          rcases hstep m hC with ⟨k, hk, hQ⟩ | ⟨hC', hr | ⟨hrank', hhelper', -⟩⟩
          · exact absurd ⟨k, hm.trans hk, hQ⟩ hno
          · exact absurd (hrank ▸ hr) (hlow _ (by omega) hC')
          · exact ⟨hC', hrank'.trans hrank, hhelper'.trans hhelper⟩
    obtain ⟨m, hm, hmoves⟩ := hjust n hn n fun m hm => by
      obtain ⟨hC, -, hhelper⟩ := hsame m hm
      exact hhelper ▸ henabled m hC
    obtain ⟨hC, hrank, hhelper⟩ := hsame m hm
    rcases hstep m hC with ⟨k, hk, hQ⟩ | ⟨hC', hr | ⟨-, -, hne⟩⟩
    · exact hno ⟨k, hm.trans hk, hQ⟩
    · exact hlow _ (by omega) hC' (hrank ▸ hr)
    · exact hne (hmoves.trans hhelper.symm)

end Rank

/-! ### Taking turns -/

section Schedule

variable (step : S → A → Option S) (wish : ℕ → S → A) (rest : S → A)

/-- The action at a turn: the one wished for, or none to speak of. -/
def scheduled (n : ℕ) (s : S) : A :=
  if (step s (wish n s)).isSome then wish n s else rest s

/-- The states of the run. -/
def schedule (s : S) : ℕ → S
  | 0 => s
  | n + 1 => (step (schedule s n) (scheduled step wish rest n (schedule s n))).getD (schedule s n)

variable {step wish rest} {party : A → P} {s : S} {p : P}

lemma execution_schedule (hrest : ∀ s, (step s (rest s)).isSome) :
    Execution (fun s a t => step s a = some t) (schedule step wish rest s)
      (fun n => scheduled step wish rest n (schedule step wish rest s n)) := by
  intro n
  have hsome : (step (schedule step wish rest s n)
      (scheduled step wish rest n (schedule step wish rest s n))).isSome := by
    rw [scheduled]
    split
    · assumption
    · exact hrest _
  obtain ⟨t, ht⟩ := Option.isSome_iff_exists.mp hsome
  rw [schedule, ht, Option.getD_some]

/-- A party that gets a turn again and again, and can move in it whenever it can move at all. -/
lemma just_schedule (hturn : ∀ n, ∃ m, n ≤ m ∧ ∀ s,
      Enabled (fun s a t => step s a = some t) party p s →
        (step s (wish m s)).isSome ∧ party (wish m s) = p) :
    Just (fun s a t => step s a = some t) party (schedule step wish rest s)
      (fun n => scheduled step wish rest n (schedule step wish rest s n)) p := by
  intro n henabled
  obtain ⟨m, hm, hmoves⟩ := hturn n
  obtain ⟨hsome, hparty⟩ := hmoves _ (henabled m hm)
  refine ⟨m, hm, ?_⟩
  simpa only [scheduled, hsome, if_true] using hparty

end Schedule

end Transition
