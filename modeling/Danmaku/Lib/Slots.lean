import Danmaku.Lib.Transition

/-!
Slots that are taken for a fixed time.

* `Slots`: each slot is free, or was taken so many steps ago; `Step d`: a step takes at most one
  slot, a free one unless all are taken, and frees those taken `d` steps ago.
* `age_spec`: the age of a slot says when it was taken.
* `card_le_countP`: slots that are all taken were taken in different steps.
* `free_of_rate`: **no slot is taken twice** if in any `d` steps at most as many slots are taken as
  there are; `kept_of_rate`: so each one is kept for its time.
-/

/-- The age of each slot that is taken. -/
def Slots (ι : Type*) : Type _ := ι → Option ℕ

namespace Slots

open Transition

variable {ι : Type*} [DecidableEq ι] {d : ℕ} {s t u : Slots ι} {i j : ι} {a : ℕ}
  {as bs : List (Option ι)}

/-- A step later a slot is a step older, or free. -/
def tick (d : ℕ) (s : Slots ι) : Slots ι :=
  fun i => (s i).bind fun a => if a + 1 < d then some (a + 1) else none

/-- A slot is taken. -/
def put (s : Slots ι) (i : ι) : Slots ι := Function.update s i (some 0)

/-- A step that takes a slot or none: a taken one only if all are taken. -/
def Step (d : ℕ) (s : Slots ι) : Option ι → Slots ι → Prop
  | none, t => t = tick d s
  | some i, t => (s i = none ∨ ∀ j, s j ≠ none) ∧ t = tick d (put s i)

omit [DecidableEq ι] in
lemma tick_eq_some_iff {b : ℕ} : tick d s i = some b ↔ ∃ a, s i = some a ∧ b = a + 1 ∧ b < d := by
  simp only [tick, Option.bind_eq_some_iff]
  constructor
  · rintro ⟨a, ha, hb⟩
    split at hb
    · obtain rfl := Option.some.inj hb
      exact ⟨a, ha, rfl, ‹_›⟩
    · exact absurd hb (by simp)
  · rintro ⟨a, ha, rfl, hlt⟩
    exact ⟨a, ha, if_pos hlt⟩

lemma put_same : put s i i = some 0 := Function.update_self ..

lemma put_of_ne (h : j ≠ i) : put s i j = s j := Function.update_of_ne h ..

/-- **The age of a slot says when it was taken.** -/
lemma age_spec (hrun : Run (Step d) (fun _ : ι => none) as s) (hs : s i = some a) :
    0 < a ∧ a < d ∧ as.reverse[a - 1]? = some (some i) := by
  induction hrun generalizing i a with
  | nil => exact absurd hs (by simp)
  | @snoc as b t u hrun hstep ih =>
      have hnext : ∀ {v : Slots ι}, u = tick d v → (v i = some 0 → b = some i) →
          (∀ c, 0 < c → v i = some c → t i = some c) →
          0 < a ∧ a < d ∧ (as ++ [b]).reverse[a - 1]? = some (some i) := by
        rintro v rfl hnew hold
        obtain ⟨c, hc, rfl, hlt⟩ := tick_eq_some_iff.mp hs
        refine ⟨Nat.succ_pos c, hlt, ?_⟩
        rw [List.reverse_append, List.reverse_singleton, Nat.add_sub_cancel]
        cases c with
        | zero => exact congrArg some (hnew hc)
        | succ c => exact (ih (hold _ (Nat.succ_pos c) hc)).2.2
      cases b with
      | none =>
          refine hnext hstep (fun h0 => ?_) fun c _ hc => hc
          exact absurd (ih h0).1 (lt_irrefl 0)
      | some k =>
          refine hnext hstep.2 (fun h0 => ?_) fun c hpos hc => ?_
          · by_cases hk : i = k
            · rw [hk]
            · rw [put_of_ne hk] at h0
              exact absurd (ih h0).1 (lt_irrefl 0)
          · by_cases hk : i = k
            · rw [hk, put_same] at hc
              exact absurd (Option.some.inj hc) hpos.ne
            · rwa [put_of_ne hk] at hc

/-- Different places of a list that meet a condition. -/
lemma card_le_countP {α : Type*} {p : α → Bool} {l : List α} {places : Finset ℕ}
    (h : ∀ k ∈ places, ∃ x, l[k]? = some x ∧ p x = true) : places.card ≤ l.countP p := by
  induction l generalizing places with
  | nil =>
      have hnone : places = ∅ := by
        refine Finset.eq_empty_of_forall_notMem fun k hk => ?_
        obtain ⟨x, hx, -⟩ := h k hk
        exact absurd hx (by simp)
      simp [hnone]
  | cons x l ih =>
      -- the place 0 and the others, moved down
      have hothers : ((places.erase 0).image (· - 1)).card ≤ l.countP p := by
        refine ih fun k hk => ?_
        obtain ⟨m, hm, rfl⟩ := Finset.mem_image.mp hk
        obtain ⟨hm0, hm⟩ := Finset.mem_erase.mp hm
        obtain ⟨n, rfl⟩ := Nat.exists_eq_succ_of_ne_zero hm0
        exact h (n + 1) hm
      rw [Finset.card_image_of_injOn] at hothers
      · rw [List.countP_cons]
        by_cases h0 : 0 ∈ places
        · obtain ⟨y, hy, hpy⟩ := h 0 h0
          obtain rfl := Option.some.inj hy
          rw [if_pos hpy, ← Finset.card_erase_add_one h0]
          omega
        · rw [Finset.erase_eq_of_notMem h0] at hothers
          omega
      · intro m hm n hn hmn
        have hm0 := (Finset.mem_erase.mp hm).1
        have hn0 := (Finset.mem_erase.mp hn).1
        simp only at hmn
        omega

variable [Fintype ι]

/-- Slots that are all taken were taken in different ones of the last steps. -/
lemma card_le_of_full (hrun : Run (Step d) (fun _ : ι => none) as s) (hfull : ∀ i, s i ≠ none) :
    Fintype.card ι ≤ (as.reverse.take (d - 1)).countP Option.isSome := by
  choose age hage using fun i => Option.ne_none_iff_exists'.mp (hfull i)
  have hspec := fun i => age_spec hrun (hage i)
  have hinj : Function.Injective fun i => age i - 1 := by
    intro i j hij
    simp only at hij
    have hi := (hspec i).2.2
    rw [hij, (hspec j).2.2] at hi
    exact (Option.some.inj (Option.some.inj hi)).symm
  calc Fintype.card ι = (Finset.univ.image fun i => age i - 1).card :=
        (Finset.card_image_of_injective _ hinj).symm
    _ ≤ (as.reverse.take (d - 1)).countP Option.isSome := by
        refine card_le_countP fun k hk => ?_
        obtain ⟨i, -, rfl⟩ := Finset.mem_image.mp hk
        obtain ⟨hpos, hlt, htaken⟩ := hspec i
        refine ⟨some i, ?_, rfl⟩
        rw [List.getElem?_take_of_lt (by omega)]
        exact htaken

/-- At most as many slots are taken in any `d` steps as there are. -/
def Rate (d : ℕ) (as : List (Option ι)) : Prop :=
  ∀ window, window <:+: as → window.length ≤ d → window.countP Option.isSome ≤ Fintype.card ι

omit [DecidableEq ι] in
lemma Rate.of_append (h : Rate d (as ++ bs)) : Rate d as :=
  fun window hw => h window (hw.trans ⟨[], bs, rfl⟩)

/-- **No slot is taken twice**: a step finds a free one. -/
lemma free_of_rate (hd : 0 < d) (hrate : Rate d (as ++ [some i]))
    (hrun : Run (Step d) (fun _ : ι => none) as s) (hstep : Step d s (some i) t) : s i = none := by
  rcases hstep.1 with hfree | hfull
  · exact hfree
  · have hcard := card_le_of_full hrun hfull
    -- the last steps with this one
    have hwindow := hrate ((as.reverse.take (d - 1)).reverse ++ [some i]) (by
        refine ⟨as.take (as.length - (d - 1)), [], ?_⟩
        rw [List.reverse_take, List.reverse_reverse, List.length_reverse, List.append_nil,
          ← List.append_assoc, List.take_append_drop]) (by
        rw [List.length_append, List.length_reverse, List.length_take]
        simp only [List.length_cons, List.length_nil]
        omega)
    rw [List.countP_append, List.countP_reverse] at hwindow
    simp only [List.countP_cons, List.countP_nil, Option.isSome_some, if_true] at hwindow
    omega

/-- **Each slot is kept for its time**: no other step takes it before. -/
theorem kept_of_rate (hd : 0 < d) (hrate : Rate d (as ++ some i :: bs))
    (hrun : Run (Step d) (fun _ : ι => none) as s) (hstep : Step d s (some i) t)
    (hlater : Run (Step d) t bs u) (hlen : bs.length < d) :
    some i ∉ bs ∧ u i = if bs.length + 1 < d then some (bs.length + 1) else none := by
  induction hlater with
  | nil =>
      obtain ⟨-, rfl⟩ := hstep
      simp [tick, put_same]
  | @snoc bs b u v hbefore hlast ih =>
      rw [List.length_append, List.length_singleton] at hlen ⊢
      rw [← List.cons_append, ← List.append_assoc] at hrate
      obtain ⟨hkept, hu⟩ := ih hrate.of_append (by omega)
      rw [if_pos (by omega)] at hu
      have hreach : Run (Step d) (fun _ => none) (as ++ some i :: bs) u := by
        simpa using (hrun.snoc hstep).append hbefore
      have hb : b ≠ some i := by
        rintro rfl
        have hfree := free_of_rate hd hrate hreach hlast
        rw [hu] at hfree
        exact absurd hfree (by simp)
      refine ⟨by simp [hkept, Ne.symm hb], ?_⟩
      cases b with
      | none =>
          obtain rfl : v = tick d u := hlast
          simp [tick, hu]
      | some j =>
          obtain ⟨-, rfl⟩ := hlast
          have hj : i ≠ j := fun hij => hb (congrArg some hij.symm)
          simp [tick, put_of_ne hj, hu]

end Slots
