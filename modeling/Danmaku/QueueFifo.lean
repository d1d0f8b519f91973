import Danmaku.Queen
import Danmaku.Lib.Fifo

/-!
The array queue implements a first-in first-out list.

* `Queen.step`, `Queen.touched`: the operations of `queen_t`, and the slots of `str` that they read
  or write; `str_of_not_touched`: all others keep their strings.
* `Queen.refines`: each operation that finds room does to the pending strings what it does to a
  list, also the compaction, which copies them over one another in place.
* `queen_refines_fifo`: **so does every sequence of operations**, from `InitQueen` on.
-/

namespace Danmaku

open CountedLoop Fifo

namespace Queen

/-- The operations of the queue; `ClearQueen` is the compaction. -/
def step : Op Text → Queen → Option (Queen × Option Text)
  | .push t, q => (q.push t).map fun q => (q, none)
  | .fetch, q => some (q, q.fetch)
  | .pop, q => some (q.pop, none)
  | .compact, q => some (q.clearQueen, none)

/-- The slots that `ClearQueen` copies from and to. -/
def clearSlots (q : Queen) : List ℤ :=
  (List.range (q.tail - q.head).toNat).flatMap fun i : ℕ => [q.head + i, (i : ℤ)]

/-- The slots that an operation reads or writes. -/
def touched : Op Text → Queen → List ℤ
  | .push _, q => (if q.tail ≥ queenSize then q.clearSlots else []) ++ [q.pushSlot]
  | .fetch, q => if q.tail = q.head then [] else [q.head]
  | .pop, _ => []
  | .compact, q => q.clearSlots

/-- The queue as an implementation of a list. -/
def implementation : Implementation Queen ℤ Text := ⟨step, touched⟩

variable {q : Queen}

lemma clearQueen_str {i : ℤ} (hi : i ∉ q.clearSlots) : q.clearQueen.str i = q.str i := by
  refine forUpTo_keep (fun m : ℤ → Text => m i = q.str i) rfl fun k hk m hm =>
    (store_of_ne _ _ ?_).trans hm
  rintro rfl
  exact hi (List.mem_flatMap.mpr ⟨k, List.mem_range.mpr hk, by simp⟩)

/-- What an operation does not touch keeps its string. -/
lemma str_of_not_touched {op : Op Text} {q' : Queen} {answer : Option Text}
    (h : step op q = some (q', answer)) {i : ℤ} (hi : i ∉ q.touched op) : q'.str i = q.str i := by
  cases op with
  | push t =>
      obtain ⟨r, hpush, heq⟩ := Option.map_eq_some_iff.mp h
      obtain ⟨rfl, -⟩ := Prod.mk.inj heq
      rw [touched, List.mem_append, List.mem_singleton, not_or] at hi
      obtain ⟨hclear, hslot⟩ := hi
      simp only [push, pushSlot] at hpush hslot
      split_ifs at hpush hslot hclear with hfull hroom hroom <;> obtain rfl := Option.some.inj hpush
      · exact (store_of_ne _ _ hslot).trans (clearQueen_str hclear)
      · exact store_of_ne _ _ hslot
  | fetch =>
      obtain ⟨rfl, -⟩ := Prod.mk.inj (Option.some.inj h)
      rfl
  | pop =>
      obtain ⟨rfl, -⟩ := Prod.mk.inj (Option.some.inj h)
      rw [pop]
      split <;> rfl
  | compact =>
      obtain ⟨rfl, -⟩ := Prod.mk.inj (Option.some.inj h)
      exact clearQueen_str hi

/-- `ClearQueen` stays in the array. -/
lemma clearSlots_lt (hq : q.Valid) : ∀ i ∈ q.clearSlots, 0 ≤ i ∧ i < queenSize := by
  obtain ⟨h1, h2, h3⟩ := hq
  intro i hi
  obtain ⟨k, hk, hmem⟩ := List.mem_flatMap.mp hi
  rw [List.mem_range] at hk
  rcases List.mem_pair.mp hmem with rfl | rfl <;> omega

/-- A push that finds room in the list finds a slot in the array. -/
lemma push_isSome_of_fits (hq : q.Valid) {t : Text}
    (hroom : (Op.push t).Fits queenSize q.pending) : (q.push t).isSome := by
  refine (push_isSome_iff hq t).mpr ?_
  rw [← pending_length]
  exact hroom

/-- Every operation that finds room stays in the array. -/
lemma touched_lt (hq : q.Valid) {op : Op Text} (hroom : op.Fits queenSize q.pending) :
    ∀ i ∈ q.touched op, 0 ≤ i ∧ i < queenSize := by
  have hslots := clearSlots_lt hq
  obtain ⟨h1, h2, h3⟩ := hq
  intro i hi
  cases op with
  | push t =>
      have hpush : (q.push t).isSome := push_isSome_of_fits ⟨h1, h2, h3⟩ hroom
      rcases List.mem_append.mp hi with hi | hi
      · split at hi
        · exact hslots i hi
        · exact absurd hi (by simp)
      · obtain rfl := List.mem_singleton.mp hi
        refine ⟨?_, (push_isSome_iff_pushSlot q t).mp hpush⟩
        rw [pushSlot]
        split
        · simp only [clearQueen]
          omega
        · omega
  | fetch =>
      simp only [touched] at hi
      split at hi
      · exact absurd hi (by simp)
      · obtain rfl := List.mem_singleton.mp hi
        omega
  | pop => exact absurd hi (by simp [touched])
  | compact => exact hslots i hi

/-- **One operation**: the queue does what the list of its pending strings does. -/
theorem refines : implementation.Refines queenSize Valid (fun i => 0 ≤ i ∧ i < queenSize)
    pending where
  touched_inBounds _ _ hq hroom := touched_lt hq hroom
  step_eq op q hq hroom := by
    cases op with
    | push t =>
        obtain ⟨q', hpush⟩ := Option.isSome_iff_exists.mp (push_isSome_of_fits hq hroom)
        obtain ⟨hq', hpending⟩ := push_spec hq hpush
        exact ⟨q', none, by simp [implementation, step, hpush], hq', by rw [hpending, Fifo.step]⟩
    | fetch => exact ⟨q, q.fetch, rfl, hq, by rw [fetch_eq hq, Fifo.step]⟩
    | pop => exact ⟨q.pop, none, rfl, valid_pop hq, by rw [pending_pop, Fifo.step]⟩
    | compact =>
        exact ⟨q.clearQueen, none, rfl, valid_clearQueen hq, by
          rw [pending_clearQueen hq, Fifo.step]⟩

end Queen

/-- **The array queue is a first-in first-out list**: in every sequence of operations from
`InitQueen` in which each push finds fewer than `QUEEN_SIZE` strings, after any number of them
`0 ≤ head ≤ tail ≤ QUEEN_SIZE`, the strings pending and those fetched are the list's, and no slot
outside the array has been touched. -/
theorem queen_refines_fifo (q : Queen) {ops : List (Op Text)} (hroom : HasRoom queenSize ops []) :
    ∀ pre, pre <+: ops → ∃ q' answers slots,
      Queen.implementation.run pre q.initQueen = some (q', answers, slots)
        ∧ q'.Valid ∧ (q'.pending, answers) = Fifo.run pre []
        ∧ ∀ slot ∈ slots, 0 ≤ slot ∧ slot < queenSize :=
  fun _ hpre => Queen.refines.run_spec q.valid_initQueen (hroom.of_prefix hpre)

/-- The string of one letter. -/
def letter (b : Byte) (hb : b ≠ 0#8) : Text :=
  ⟨[b], by simpa using hb, show 1 < maxTextLen by decide⟩

/-- Three strings; one is removed, and the other two are moved to the front of the array before the
next one is pushed behind them. -/
def compactedOps : List (Op Text) :=
  [.push (letter 0x61#8 (by decide)), .push (letter 0x62#8 (by decide)),
    .push (letter 0x63#8 (by decide)), .fetch, .pop, .compact, .fetch,
    .push (letter 0x64#8 (by decide)), .pop]

/-- The strings come out in their order, and two are left. -/
theorem queen_refines_fifo_compacted : ∃ q' slots,
    Queen.implementation.run compactedOps (Queen.initQueen ⟨fun _ => .empty, 9, 7⟩)
      = some (q', [none, none, none, some (letter 0x61#8 (by decide)), none, none,
          some (letter 0x62#8 (by decide)), none, none], slots)
    ∧ q'.pending = [letter 0x63#8 (by decide), letter 0x64#8 (by decide)]
    ∧ q'.Valid ∧ ∀ slot ∈ slots, 0 ≤ slot ∧ slot < queenSize := by
  have hroom : HasRoom queenSize compactedOps [] :=
    ⟨show 0 < queenSize by decide, show 1 < queenSize by decide, show 2 < queenSize by decide,
      trivial, trivial, trivial, trivial, show 2 < queenSize by decide, trivial, trivial⟩
  obtain ⟨q', answers, slots, hrun, hvalid, heq, hslots⟩ :=
    queen_refines_fifo ⟨fun _ => .empty, 9, 7⟩ hroom _ (List.prefix_refl _)
  obtain ⟨hpending, rfl⟩ := Prod.mk.inj heq
  exact ⟨q', slots, hrun, hpending, hvalid, hslots⟩

end Danmaku
