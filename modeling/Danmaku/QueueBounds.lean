import Danmaku.Frames

/-!
Whether the message queues can overflow.

`Push` compacts the array when `tail` has reached its end, but does not ask whether that made
room. A run stays inside the arrays exactly as long as no frame pushes more texts than there
is room for (`safeRun_iff_roomThroughout`), and the button alone can outrun the one text that
leaves the static queue in a frame (`not_safeRun_button`).
-/

namespace Danmaku

/-- In the run both queues satisfy `0 ≤ head ≤ tail ≤ QUEEN_SIZE` before and after every
frame, and every frame writes inside the arrays. -/
def SafeRun : List (Screen × FrameInput) → Renderer → Prop
  | [], r => r.Valid
  | (scr, inp) :: frames, r => r.Valid ∧
      ∃ r' calls, renderFrame scr inp r = some (r', calls) ∧ SafeRun frames r'

/-- From valid queues, safety of a run is room in all its frames. -/
lemma safeRun_iff_of_valid {frames : List (Screen × FrameInput)} {r : Renderer}
    (hr : r.Valid) : SafeRun frames r ↔ RoomThroughout frames r := by
  induction frames generalizing r with
  | nil => exact ⟨fun _ => trivial, fun _ => hr⟩
  | cons f frames ih =>
      obtain ⟨scr, inp⟩ := f
      constructor
      · rintro ⟨-, r', calls, h, hrest⟩
        refine ⟨(renderFrame_isSome_iff scr hr).mp (Option.isSome_of_eq_some h), ?_⟩
        intro r'' calls'' h''
        obtain ⟨rfl, rfl⟩ := Prod.mk.inj (Option.some.inj (h.symm.trans h''))
        exact (ih (renderFrame_spec hr h).1).mp hrest
      · rintro ⟨hroom, hrest⟩
        obtain ⟨⟨r', calls⟩, h⟩ :=
          Option.isSome_iff_exists.mp ((renderFrame_isSome_iff scr hr).mpr hroom)
        exact ⟨hr, r', calls, h, (ih (renderFrame_spec hr h).1).mpr (hrest r' calls h)⟩

/-- **When the queues stay inside their arrays**: exactly in the runs in which each frame
finds room for all the texts that it pushes. -/
theorem safeRun_iff_roomThroughout (area : ℕ → Byte) (frames : List (Screen × FrameInput)) :
    SafeRun frames (initRenderer area) ↔ RoomThroughout frames (initRenderer area) :=
  safeRun_iff_of_valid (valid_initRenderer area)

/-! ### The button outruns the static queue -/

/-- A frame in which the button was clicked and each command prints two long lines. -/
def buttonFrame : FrameInput where
  line := none
  click := true
  out _ := some (List.replicate 2 ⟨List.replicate 24 0x69#8, by decide⟩)
  bitmap _ := ⟨1, 1, fun _ => 0#8⟩
  slidingRand := 0
  staticRand := 0
  layerRand := 0

lemma buttonFrame_arrivals : (arrivals .staticQueen buttonFrame).length = 6 := by decide

/-- Six texts enter in every such frame and one leaves. -/
lemma button_run_le {n : ℕ} {scr : Screen} {r : Renderer}
    (h : SafeRun (List.replicate (n + 1) (scr, buttonFrame)) r) :
    r.staticQueen.count + 5 * n + 6 ≤ queenSize := by
  induction n generalizing r with
  | zero =>
      obtain ⟨hr, r', calls, hf, -⟩ := h
      have hroom := (renderFrame_isSome_iff scr hr).mp (Option.isSome_of_eq_some hf) .staticQueen
      rw [buttonFrame_arrivals] at hroom
      exact hroom
  | succ n ih =>
      obtain ⟨hr, r', calls, hf, hrest⟩ := h
      have hcount := renderFrame_static_count hr hf
      rw [buttonFrame_arrivals] at hcount
      have := ih hrest
      omega

/-- After 819 such frames 4095 texts wait, and the next six do not fit. -/
theorem not_safeRun_button :
    ¬ SafeRun (List.replicate 820 (Screen.fullHd, buttonFrame)) (initRenderer fun _ => 0#8) :=
  fun h => by
    have := button_run_le h
    simp only [queenSize] at this
    omega

end Danmaku
