import Mathlib.Tactic

/-!
A reader behind a registered request, following an endless stream of marked rows.

The stream consists of rows of `w` data items and two equal markers each; the markers of every
`h`-th row are those of a frame. The reader asks for the next item unless it holds a marker, and
for the one behind a marker while a window for that kind of marker is open.

* `Reader.next`: one clock of the reader; `Parked`: it waits behind both markers of a row.
* `Follows.flow`, `Follows.row`: **one row** of a parked reader, and `Follows.hold`: between rows.
* `Coherent`: what the reader knows of the stream once it has read twice; `Gated`: it does not
  pass the end of the frame.
* `Gated.passes`: from any place the reader reaches the end of a row; `Gated.advances`: a video
  row takes it over one more row.
* `capture`: **the reader finds the frame**: after one pass over the windows of a frame it is
  parked at the end of a frame of the stream, wherever it began.
-/

namespace MarkedStream

/-- The kinds of items. -/
inductive Kind
  | data
  | row
  | frame
  deriving DecidableEq, Repr

/-- The markers in front of row `i`. -/
def boundary (h i : ℕ) : Kind := if h ∣ i then .frame else .row

/-- The kind of item `m` of the stream. -/
def kindAt (w h m : ℕ) : Kind :=
  if m % (w + 2) < w then .data else boundary h (m / (w + 2) + 1)

/-- Whether the reader may go on, under the windows. -/
def allows (openRow openFrame : Bool) : Kind → Bool
  | .data => true
  | .row => openRow
  | .frame => openFrame

/-- The state of the reader: how many items it has read, the kind of the item it holds, and its
registered request. -/
structure Reader where
  rd : ℕ
  held : Kind
  req : Bool

/-- One clock. -/
def Reader.next (w h : ℕ) (openRow openFrame : Bool) (s : Reader) : Reader where
  rd := if s.req then s.rd + 1 else s.rd
  held := if s.req then kindAt w h s.rd else s.held
  req := allows openRow openFrame s.held

/-- The reader waits behind both markers in front of row `i`. -/
structure Parked (w h : ℕ) (s : Reader) (i : ℕ) : Prop where
  rd : s.rd = i * (w + 2)
  held : s.held = boundary h i
  req : s.req = false

/-! ### The items of the stream -/

section Items

variable {w h i c : ℕ}

lemma kindAt_data (hc : c < w) : kindAt w h (i * (w + 2) + c) = .data := by
  rw [kindAt, Nat.add_comm, Nat.add_mul_mod_self_right, Nat.mod_eq_of_lt (by omega), if_pos hc]

lemma kindAt_first (hw : 1 ≤ w) : kindAt w h (i * (w + 2)) = .data :=
  kindAt_data (c := 0) hw

lemma kindAt_marker (hc : w ≤ c) (hc' : c < w + 2) :
    kindAt w h (i * (w + 2) + c) = boundary h (i + 1) := by
  rw [kindAt, Nat.add_comm, Nat.add_mul_mod_self_right, Nat.mod_eq_of_lt hc',
    if_neg (by omega), Nat.add_mul_div_right _ _ (by omega), Nat.div_eq_of_lt hc', Nat.zero_add]

end Items

/-! ### One row -/

section Runs

variable {w h : ℕ} {H V : ℕ → Bool} {ρ : ℕ → Reader} {i j n t T u : ℕ}

/-- A run of the reader under the windows `H` and `V`. -/
def Follows (w h : ℕ) (H V : ℕ → Bool) (ρ : ℕ → Reader) : Prop :=
  ∀ t, ρ (t + 1) = (ρ t).next w h (H t) (V t)

namespace Follows

variable (hρ : Follows w h H V ρ)
include hρ

lemma rd_of_req (h : (ρ t).req = true) : (ρ (t + 1)).rd = (ρ t).rd + 1 := by
  rw [hρ t]
  exact if_pos h

lemma rd_of_not_req (h : (ρ t).req = false) : (ρ (t + 1)).rd = (ρ t).rd := by
  rw [hρ t]
  exact if_neg (by simp [h])

lemma held_of_req (h' : (ρ t).req = true) : (ρ (t + 1)).held = kindAt w h (ρ t).rd := by
  rw [hρ t]
  exact if_pos h'

lemma held_of_not_req (h : (ρ t).req = false) : (ρ (t + 1)).held = (ρ t).held := by
  rw [hρ t]
  exact if_neg (by simp [h])

lemma req_succ (t : ℕ) : (ρ (t + 1)).req = allows (H t) (V t) (ρ t).held := by
  rw [hρ t]
  rfl

lemma rd_le_succ (t : ℕ) : (ρ t).rd ≤ (ρ (t + 1)).rd := by
  cases h : (ρ t).req with
  | true => exact (hρ.rd_of_req h).symm ▸ Nat.le_succ _
  | false => exact (hρ.rd_of_not_req h).ge

lemma rd_mono (h : t ≤ u) : (ρ t).rd ≤ (ρ u).rd := by
  induction u, h using Nat.le_induction with
  | base => exact le_rfl
  | succ u _ ih => exact ih.trans (hρ.rd_le_succ u)

/-- A parked reader waits while the window is closed. -/
lemma hold (hp : Parked w h (ρ T) i) (hle : T ≤ t)
    (hclosed : ∀ u, T ≤ u → u < t → allows (H u) (V u) (boundary h i) = false) :
    Parked w h (ρ t) i := by
  induction t, hle using Nat.le_induction with
  | base => exact hp
  | succ t hle ih =>
      obtain ⟨hrd, hheld, hreq⟩ := ih fun u h1 h2 => hclosed u h1 (by omega)
      refine ⟨?_, ?_, ?_⟩
      · rw [hρ.rd_of_not_req hreq, hrd]
      · rw [hρ.held_of_not_req hreq, hheld]
      · rw [hρ.req_succ, hheld]
        exact hclosed t hle (by omega)

/-- An open window lets a parked reader ask for the first item of the row. -/
lemma start (hp : Parked w h (ρ T) i) (h0 : allows (H T) (V T) (boundary h i) = false)
    (h1 : allows (H (T + 1)) (V (T + 1)) (boundary h i) = true) :
    (ρ (T + 2)).req = true ∧ (ρ (T + 2)).rd = i * (w + 2) := by
  obtain ⟨hrd, hheld, hreq⟩ := hρ.hold hp (Nat.le_succ T) fun u hu hu' => by
    obtain rfl : u = T := by omega
    exact h0
  exact ⟨by rw [hρ.req_succ, hheld, h1], by rw [hρ.rd_of_not_req hreq, hrd]⟩

/-- A reader that is parked before the window opens holds the marker for two more clocks. -/
lemma held_start (hp : Parked w h (ρ T) i) (h0 : allows (H T) (V T) (boundary h i) = false) :
    (ρ (T + 2)).held = boundary h i := by
  obtain ⟨-, hheld, hreq⟩ := hρ.hold hp (Nat.le_succ T) fun u hu hu' => by
    obtain rfl : u = T := by omega
    exact h0
  rw [hρ.held_of_not_req hreq, hheld]

/-- A window of two clocks lets a parked reader read on: item `c` of the row is held three clocks
and `c` after the clock before the window, up to the first marker. -/
lemma flow (hp : Parked w h (ρ T) i) (h0 : allows (H T) (V T) (boundary h i) = false)
    (h1 : allows (H (T + 1)) (V (T + 1)) (boundary h i) = true)
    (h2 : allows (H (T + 2)) (V (T + 2)) (boundary h i) = true) {c : ℕ} (hc : c ≤ w) :
    (ρ (T + 3 + c)).rd = i * (w + 2) + c + 1
      ∧ (ρ (T + 3 + c)).held = kindAt w h (i * (w + 2) + c) ∧ (ρ (T + 3 + c)).req = true := by
  obtain ⟨hreq2, hrd2⟩ := hρ.start hp h0 h1
  have hheld2 := hρ.held_start hp h0
  induction c with
  | zero =>
      refine ⟨?_, ?_, ?_⟩
      · rw [Nat.add_zero, hρ.rd_of_req hreq2, hrd2]
      · rw [Nat.add_zero, hρ.held_of_req hreq2, hrd2]
        rfl
      · rw [Nat.add_zero, hρ.req_succ, hheld2, h2]
  | succ c ih =>
      obtain ⟨hrd, hheld, hreq⟩ := ih (by omega)
      refine ⟨?_, ?_, ?_⟩
      · rw [← Nat.add_assoc, hρ.rd_of_req hreq, hrd, Nat.add_assoc (i * (w + 2))]
      · rw [← Nat.add_assoc, hρ.held_of_req hreq, hrd, Nat.add_assoc (i * (w + 2))]
      · rw [← Nat.add_assoc, hρ.req_succ, hheld, kindAt_data (by omega)]
        rfl

/-- **One row of a parked reader**: it asks for the items of the row one a clock, and is parked in
front of the next one. -/
lemma row (hp : Parked w h (ρ T) i) (h0 : allows (H T) (V T) (boundary h i) = false)
    (h1 : allows (H (T + 1)) (V (T + 1)) (boundary h i) = true)
    (h2 : allows (H (T + 2)) (V (T + 2)) (boundary h i) = true)
    (hT : T + w + 4 ≤ t)
    (hclosed : ∀ u, T + 3 + w ≤ u → u < t → allows (H u) (V u) (boundary h (i + 1)) = false) :
    (∀ c < w, (ρ (T + 2 + c)).req = true ∧ (ρ (T + 2 + c)).rd = i * (w + 2) + c)
      ∧ Parked w h (ρ t) (i + 1) := by
  refine ⟨?_, ?_⟩
  · intro c hc
    cases c with
    | zero => exact hρ.start hp h0 h1
    | succ c =>
        obtain ⟨hrd, -, hreq⟩ := hρ.flow hp h0 h1 h2 (c := c) (by omega)
        rw [show T + 2 + (c + 1) = T + 3 + c by omega]
        exact ⟨hreq, hrd⟩
  obtain ⟨hrd, hheld, hreq⟩ := hρ.flow hp h0 h1 h2 le_rfl
  refine hρ.hold (T := T + 3 + w + 1) ⟨?_, ?_, ?_⟩ (by omega) fun u hu hu' =>
    hclosed u (by omega) hu'
  · rw [hρ.rd_of_req hreq, hrd, Nat.succ_mul]
    omega
  · rw [hρ.held_of_req hreq, hrd, Nat.add_assoc, kindAt_marker (by omega) (by omega)]
  · rw [hρ.req_succ, hheld, kindAt_marker le_rfl (by omega)]
    exact hclosed _ le_rfl (by omega)

end Follows

/-! ### Finding the frame -/

/-- What the reader knows of the stream: it holds the item read last, and unless that is the
first item of a row or the second marker behind one, it asks for the next. -/
structure Coherent (w h : ℕ) (s : Reader) : Prop where
  pos : 1 ≤ s.rd
  held : ∀ m, s.rd = m + 1 → s.held = kindAt w h m
  req : ∀ i c, s.rd = i * (w + 2) + c + 1 → 1 ≤ c → c ≤ w → s.req = true

/-- The reader has not passed the end of the frame in front of row `q`. -/
structure Gated (w h q : ℕ) (s : Reader) : Prop where
  coherent : Coherent w h s
  rd_le : s.rd ≤ q * (w + 2)
  req : s.rd = q * (w + 2) → s.req = false

variable {q : ℕ}

/-- The last item in front of row `q` is its second marker. -/
lemma exists_last_marker (hq : 1 ≤ q) :
    ∃ m, q * (w + 2) = m + 2 ∧ kindAt w h m = boundary h q ∧ kindAt w h (m + 1) = boundary h q := by
  obtain ⟨q', rfl⟩ : ∃ q', q = q' + 1 := ⟨q - 1, by omega⟩
  refine ⟨q' * (w + 2) + w, by rw [Nat.succ_mul]; omega, kindAt_marker le_rfl (by omega), ?_⟩
  rw [Nat.add_assoc]
  exact kindAt_marker (by omega) (by omega)

/-- Two items read in a row make the reader coherent, and do not let it pass the end of a frame
whose window is closed by then. -/
lemma gated_of_two_reads (hρ : Follows w h H V ρ) (h0 : (ρ T).req = true)
    (h1 : (ρ (T + 1)).req = true) (hV : V (T + 1) = false) (hq : h ∣ q)
    (hle : (ρ T).rd + 2 ≤ q * (w + 2)) : Gated w h q (ρ (T + 2)) := by
  have hrd1 : (ρ (T + 1)).rd = (ρ T).rd + 1 := hρ.rd_of_req h0
  have hrd2 : (ρ (T + 2)).rd = (ρ T).rd + 2 := by rw [hρ.rd_of_req h1, hrd1]
  have hheld1 : (ρ (T + 1)).held = kindAt w h (ρ T).rd := hρ.held_of_req h0
  have hheld2 : (ρ (T + 2)).held = kindAt w h ((ρ T).rd + 1) := by
    rw [hρ.held_of_req h1, hrd1]
  have hreq2 : (ρ (T + 2)).req = allows (H (T + 1)) (V (T + 1)) (kindAt w h (ρ T).rd) := by
    rw [hρ.req_succ, hheld1]
  refine ⟨⟨by omega, ?_, ?_⟩, by omega, ?_⟩
  · intro m hm
    rw [hheld2, show (ρ T).rd + 1 = m by omega]
  · intro i c hrd hlow hhigh
    obtain ⟨c, rfl⟩ : ∃ c', c = c' + 1 := ⟨c - 1, by omega⟩
    rw [hreq2, show (ρ T).rd = i * (w + 2) + c by omega, kindAt_data (by omega)]
    rfl
  · intro hend
    have hpos : 1 ≤ q := Nat.pos_of_ne_zero fun h0 => by
      rw [h0, Nat.zero_mul] at hle
      omega
    obtain ⟨m, hm, hkind, -⟩ := exists_last_marker (w := w) (h := h) hpos
    rw [hreq2, show (ρ T).rd = m by omega, hkind, boundary, if_pos hq]
    exact hV

namespace Gated

/-- A gated reader stays gated while the window of the frames is closed. -/
lemma next (hρ : Follows w h H V ρ) (hq : h ∣ q) (hV : V t = false) (hg : Gated w h q (ρ t)) :
    Gated w h q (ρ (t + 1)) := by
  obtain ⟨⟨hpos, hheld, hreq⟩, hle, hend⟩ := hg
  have hq1 : 1 ≤ q := Nat.pos_of_ne_zero fun h0 => by
    rw [h0, Nat.zero_mul] at hle
    omega
  obtain ⟨m, hm, hkind, hkind'⟩ := exists_last_marker (w := w) (h := h) hq1
  have hframe : boundary h q = .frame := if_pos hq
  have hreq' := hρ.req_succ t
  cases hr : (ρ t).req with
  | false =>
      have hrd := hρ.rd_of_not_req hr
      have hheld' := hρ.held_of_not_req hr
      refine ⟨⟨by omega, ?_, ?_⟩, by omega, ?_⟩
      · intro m hm
        rw [hheld', hheld m (by omega)]
      · intro i c hc hlow hhigh
        rw [hreq i c (by omega) hlow hhigh] at hr
        exact absurd hr (by simp)
      · intro he
        rw [hreq', hheld (m + 1) (by omega), hkind', hframe]
        exact hV
  | true =>
      have hrd := hρ.rd_of_req hr
      have hheld' := hρ.held_of_req hr
      have hne : (ρ t).rd ≠ q * (w + 2) := by
        intro he
        rw [hend he] at hr
        exact absurd hr (by simp)
      refine ⟨⟨by omega, ?_, ?_⟩, by omega, ?_⟩
      · intro m hm
        rw [hheld', show (ρ t).rd = m by omega]
      · intro i c hc hlow hhigh
        obtain ⟨c, rfl⟩ : ∃ c', c = c' + 1 := ⟨c - 1, by omega⟩
        rw [hreq', hheld (i * (w + 2) + c) (by omega), kindAt_data (by omega)]
        rfl
      · intro he
        rw [hreq', hheld m (by omega), hkind, hframe]
        exact hV

lemma run (hρ : Follows w h H V ρ) (hq : h ∣ q) (hg : Gated w h q (ρ T)) (hle : T ≤ t)
    (hV : ∀ u, T ≤ u → u < t → V u = false) : Gated w h q (ρ t) := by
  induction t, hle using Nat.le_induction with
  | base => exact hg
  | succ t hle ih => exact (ih fun u h1 h2 => hV u h1 (by omega)).next hρ hq (hV t hle (by omega))

/-- Inside a row the reader needs at most one clock more than the rest of the row has items, and
passes its markers. -/
lemma passes (hρ : Follows w h H V ρ) (hw : 1 ≤ w) (hq : h ∣ q) (hg : Gated w h q (ρ T))
    (hV : ∀ u, T ≤ u → u < T + (w + 2) → V u = false) (hi : i * (w + 2) + 1 ≤ (ρ T).rd) :
    (i + 1) * (w + 2) ≤ (ρ (T + (w + 2))).rd := by
  have key : ∀ k ≤ w + 1, i * (w + 2) + 1 + k ≤ (ρ (T + 1 + k)).rd := by
    intro k hk
    induction k with
    | zero => exact hi.trans (hρ.rd_le_succ T)
    | succ k ih =>
        have hk' := ih (by omega)
        have hmono := hρ.rd_le_succ (T + 1 + k)
        rw [← Nat.add_assoc (T + 1)]
        rcases Nat.eq_or_lt_of_le hk' with heq | hlt
        · have hreq : (ρ (T + 1 + k)).req = true := by
            cases k with
            | zero =>
                -- a first item has been held for a clock by now
                have hstay : (ρ T).rd = i * (w + 2) + 1 := by
                  have hle : (ρ T).rd ≤ (ρ (T + 1 + 0)).rd := hρ.rd_le_succ T
                  omega
                have hnext := hρ.req_succ T
                rw [hg.coherent.held _ hstay, kindAt_first hw] at hnext
                exact hnext
            | succ k =>
                have hg' := hg.run hρ hq (t := T + 1 + (k + 1)) (by omega)
                  fun u h1 h2 => hV u h1 (by omega)
                exact hg'.coherent.req i (k + 1) (by omega) (by omega) (by omega)
          rw [hρ.rd_of_req hreq]
          omega
        · omega
  have hend := key (w + 1) le_rfl
  rw [show T + 1 + (w + 1) = T + (w + 2) by omega] at hend
  rw [Nat.succ_mul]
  omega

/-- A video row whose row window opens takes the reader over one more row of the stream. -/
lemma advances (hρ : Follows w h H V ρ) (hw : 1 ≤ w) (hq : h ∣ q) (hg : Gated w h q (ρ T))
    (hi : 1 ≤ i) (hne : ¬ h ∣ i) (hH : H (T + 2) = true)
    (hV : ∀ u, T ≤ u → u < T + 4 + (w + 2) → V u = false) (hle : i * (w + 2) ≤ (ρ T).rd) :
    (i + 1) * (w + 2) ≤ (ρ (T + 4 + (w + 2))).rd := by
  have hlater : ∀ t, T ≤ t → t ≤ T + 4 → Gated w h q (ρ t) := by
    intro t h1 h2
    exact hg.run hρ hq h1 fun u h3 h4 => hV u h3 (by omega)
  have hstart : i * (w + 2) + 1 ≤ (ρ (T + 4)).rd := by
    have hstay : (ρ T).rd ≤ (ρ (T + 2)).rd := hρ.rd_mono (by omega)
    rcases Nat.eq_or_lt_of_le (hle.trans hstay) with heq | hlt
    · -- behind the markers of a row, which the row window lets pass
      obtain ⟨m, hm, -, hkind⟩ := exists_last_marker (w := w) (h := h) hi
      have hreq : (ρ (T + 3)).req = true := by
        rw [hρ.req_succ, (hlater (T + 2) (by omega) (by omega)).coherent.held (m + 1) (by omega),
          hkind, boundary, if_neg hne]
        exact hH
      calc i * (w + 2) + 1 ≤ (ρ (T + 3)).rd + 1 :=
            Nat.succ_le_succ (heq.le.trans (hρ.rd_le_succ (T + 2)))
        _ = (ρ (T + 4)).rd := (hρ.rd_of_req hreq).symm
    · exact hlt.trans_le (hρ.rd_mono (by omega))
  exact (hlater (T + 4) (by omega) le_rfl).passes hρ hw hq
    (fun u h1 h2 => hV u (by omega) h2) hstart

end Gated

/-- The first frame boundary behind row `i`. -/
lemma exists_next_frame (hh : 1 ≤ h) (i : ℕ) :
    ∃ q, i < q ∧ q ≤ i + h ∧ h ∣ q ∧ ∀ k, i < k → k < q → ¬ h ∣ k := by
  have hdiv := Nat.div_add_mod i h
  have hlt := Nat.mod_lt i (show 0 < h by omega)
  refine ⟨h * (i / h + 1), by rw [Nat.mul_succ]; omega, by rw [Nat.mul_succ]; omega,
    Nat.dvd_mul_right _ _, ?_⟩
  rintro k hik hkq ⟨m, rfl⟩
  have hm : m < i / h + 1 := Nat.lt_of_mul_lt_mul_left hkq
  have hle : h * m ≤ h * (i / h) := Nat.mul_le_mul_left h (by omega)
  omega

/-- **The reader finds the frame.** The rows of the video begin at `R`, one frame of them at row
`j₀`; the row windows open behind the start of each row, the frame window behind that of the first
one, and the frame window only there. Wherever the reader was, at the end it is parked at the end
of a frame of the stream. -/
theorem capture {R : ℕ → ℕ} (j₀ : ℕ) (hρ : Follows w h H V ρ) (hw : 1 ≤ w) (hh : 1 ≤ h)
    (hgap : ∀ j, j₀ ≤ j → j < j₀ + h → R j + w + 8 ≤ R (j + 1))
    (hrow : ∀ j, j₀ ≤ j → j < j₀ + h → H (R j + 1) = true ∧ H (R j + 2) = true)
    (hframe : V (R j₀ + 1) = true ∧ V (R j₀ + 2) = true)
    (hclosed : ∀ t, R j₀ + 3 ≤ t → t < R (j₀ + h) → V t = false) :
    ∃ q, h ∣ q ∧ Parked w h (ρ (R (j₀ + h))) q := by
  have hR : ∀ k ≤ h, ∀ l ≤ k, R (j₀ + l) ≤ R (j₀ + k) := by
    intro k hk l hl
    induction k, hl using Nat.le_induction with
    | base => exact le_rfl
    | succ k hl ih =>
        have hstep := hgap (j₀ + k) (by omega) (by omega)
        have hprev := ih (by omega)
        rw [← Nat.add_assoc]
        omega
  have hall : ∀ k : Kind, allows true true k = true := by
    intro k
    cases k <;> rfl
  obtain ⟨hH1, hH2⟩ := hrow j₀ le_rfl (by omega)
  have hreq2 : (ρ (R j₀ + 2)).req = true := by rw [hρ.req_succ, hH1, hframe.1, hall]
  have hreq3 : (ρ (R j₀ + 2 + 1)).req = true := by rw [hρ.req_succ, hH2, hframe.2, hall]
  have hfirst := hgap j₀ le_rfl (by omega)
  have hlast := hR h le_rfl 1 hh
  -- `i` is the row of the item held after the window, `q` the end of its frame
  set p := (ρ (R j₀ + 2)).rd with hp
  obtain ⟨i, hi, hi'⟩ : ∃ i, i * (w + 2) ≤ p + 1 ∧ p + 1 < (i + 1) * (w + 2) := by
    have hdiv := Nat.div_add_mod (p + 1) (w + 2)
    have hlt := Nat.mod_lt (p + 1) (show 0 < w + 2 by omega)
    rw [Nat.mul_comm] at hdiv
    exact ⟨(p + 1) / (w + 2), by omega, by rw [Nat.succ_mul]; omega⟩
  obtain ⟨q, hiq, hqi, hq, hmin⟩ := exists_next_frame hh i
  have hqle : (i + 1) * (w + 2) ≤ q * (w + 2) := Nat.mul_le_mul_right _ hiq
  have hg : Gated w h q (ρ (R j₀ + 4)) :=
    gated_of_two_reads hρ hreq2 hreq3 (hclosed _ le_rfl (by omega)) hq (by omega)
  have hgt : ∀ t, R j₀ + 4 ≤ t → t ≤ R (j₀ + h) → Gated w h q (ρ t) := fun t h1 h2 =>
    hg.run hρ hq h1 fun u h3 h4 => hclosed u (by omega) (by omega)
  have hprogress : ∀ k, 1 ≤ k → k ≤ h → i + k ≤ q →
      (i + k) * (w + 2) ≤ (ρ (R (j₀ + k))).rd := by
    intro k hk
    induction k, hk using Nat.le_induction with
    | base =>
        intro _ _
        have hrd : (ρ (R j₀ + 4)).rd = p + 2 := by
          rw [show R j₀ + 4 = R j₀ + 2 + 1 + 1 from rfl, hρ.rd_of_req hreq3, hρ.rd_of_req hreq2]
        have hpass := hg.passes hρ hw hq (fun u h1 h2 => hclosed u (by omega) (by omega))
          (i := i) (by omega)
        exact hpass.trans (hρ.rd_mono (by omega))
    | succ k hk ih =>
        intro hkh hkq
        have hprev := ih (by omega) (by omega)
        have hbefore := hR k (by omega) 1 hk
        have hafter := hR h le_rfl (k + 1) hkh
        have hnext := hgap (j₀ + k) (by omega) (by omega)
        rw [← Nat.add_assoc] at hafter
        have hpass := (hgt (R (j₀ + k)) (by omega) (by omega)).advances hρ hw hq (by omega)
          (hmin _ (by omega) (by omega)) (hrow (j₀ + k) (by omega) (by omega)).2
          (fun u h1 h2 => hclosed u (by omega) (by omega)) hprev
        calc (i + k + 1) * (w + 2) ≤ (ρ (R (j₀ + k) + 4 + (w + 2))).rd := hpass
          _ ≤ (ρ (R (j₀ + k + 1))).rd := hρ.rd_mono (by omega)
  obtain ⟨k, rfl⟩ : ∃ k, q = i + k := ⟨q - i, by omega⟩
  have hend : (i + k) * (w + 2) ≤ (ρ (R (j₀ + h))).rd := by
    calc (i + k) * (w + 2) ≤ (ρ (R (j₀ + k))).rd := hprogress k (by omega) (by omega) le_rfl
      _ ≤ (ρ (R (j₀ + h))).rd := hρ.rd_mono (hR h le_rfl k (by omega))
  have hfinal := hgt (R (j₀ + h)) (by omega) le_rfl
  have heq := Nat.le_antisymm hfinal.rd_le hend
  obtain ⟨m, hm, -, hkind⟩ := exists_last_marker (w := w) (h := h) (show 1 ≤ i + k by omega)
  exact ⟨i + k, hq, heq, (hfinal.coherent.held (m + 1) (by omega)).trans hkind, hfinal.req heq⟩

end Runs

end MarkedStream
