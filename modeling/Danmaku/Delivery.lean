import Danmaku.Frames

/-!
What becomes of a text inside the renderer.

`renderFrames_pending` is the bookkeeping over a whole run: in both queues, what was handed to
a layer followed by what still waits is what waited at the start followed by what was pushed.
From the start of the program on nothing waited, so at every point of a run the texts handed
to the layers, followed by the waiting ones, are the arrivals.

* `lineTexts`, `buttonLines`: the texts of what a frame reads, said of the bytes alone;
  `arrivals_bytes`: `RenderOnce` pushes these.
* `texts_accounted_for`: **no text is lost, duplicated or reordered**.
-/

namespace Danmaku

/-- The bookkeeping of one frame carried over a run, from any valid queues. -/
lemma renderFrames_pending {frames : List (Screen × FrameInput)} {r : Renderer}
    (hr : r.Valid) (hroom : RoomThroughout frames r) :
    ∃ r' calls, renderFrames frames r = some (r', calls) ∧ r'.Valid ∧
      ∀ dest, handed dest calls ++ (r'.queue dest).pending
        = (r.queue dest).pending ++ frames.flatMap fun f => arrivals dest f.2 := by
  induction frames generalizing r with
  | nil => exact ⟨r, [], rfl, hr, fun dest => (List.append_nil _).symm⟩
  | cons f frames ih =>
      obtain ⟨scr, inp⟩ := f
      obtain ⟨⟨r₁, calls⟩, h₁⟩ :=
        Option.isSome_iff_exists.mp ((renderFrame_isSome_iff scr hr).mpr hroom.1)
      obtain ⟨hv₁, hp₁⟩ := renderFrame_spec hr h₁
      obtain ⟨r', calls', h₂, hv₂, hp₂⟩ := ih hv₁ (hroom.2 r₁ calls h₁)
      refine ⟨r', calls ++ calls', by simp [renderFrames, h₁, h₂], hv₂, ?_⟩
      intro dest
      rw [handed_append, List.append_assoc, List.flatMap_cons]
      calc handed dest calls ++ (handed dest calls' ++ (r'.queue dest).pending)
          = handed dest calls ++ ((r₁.queue dest).pending
              ++ frames.flatMap fun f => arrivals dest f.2) := by rw [hp₂ dest]
        _ = ((r.queue dest).pending ++ arrivals dest inp)
              ++ frames.flatMap fun f => arrivals dest f.2 := by
            rw [← List.append_assoc, hp₁ dest]
        _ = (r.queue dest).pending
              ++ (arrivals dest inp ++ frames.flatMap fun f => arrivals dest f.2) :=
            List.append_assoc _ _ _

/-! ### The texts of the input -/

/-- The first byte of the lines that are meant for a queue. -/
def typeByte : Dest → Byte
  | .slidingQueen => 0x30#8
  | .staticQueen => 0x31#8

/-- A string without its end, a control character as the last byte. -/
def withoutEnd (s : List Byte) : List Byte :=
  match s.getLast? with
  | some b => if b.toNat < 32 then s.dropLast else s
  | none => s

/-- The text of a line for the queue `dest`: what follows the type byte, up to a NUL and without the
line end. A line of another type has none. -/
def lineTexts (dest : Dest) : List Byte → List (List Byte)
  | [] => []
  | b :: rest => if b = typeByte dest then [withoutEnd (rest.takeWhile (· ≠ 0#8))] else []

/-- A line of a command's output without the blanks in front. -/
def stripped (c : Chunk) : List Byte := (c.bytes.takeWhile (· ≠ 0#8)).dropWhile (·.toNat ≤ 32)

/-- The texts of a button click: of each command the first two lines, as far as they are longer than
eight bytes. -/
def buttonLines (inp : FrameInput) : List (List Byte) :=
  if inp.click then (List.ofFn inp.out).flatMap fun out =>
    (((out.getD []).take 2).map stripped).takeWhile fun p => 8 < p.length
  else []

/-- The texts for the queue `dest` in what a frame reads. -/
def inputTexts (dest : Dest) (inp : FrameInput) : List (List Byte) :=
  match inp.line, dest with
  | some c, _ => lineTexts dest c.bytes
  | none, .slidingQueen => []
  | none, .staticQueen => buttonLines inp

/-- The string in the buffer, behind its type byte, after the line end was removed. -/
lemma chomp_cons {t : Text} {b : Byte} {s : List Byte} (h : t.bytes = b :: s) :
    t.chomp.bytes = b :: withoutEnd s := by
  rw [Text.chomp_bytes, h, withoutEnd]
  cases s with
  | nil => rfl
  | cons b' s =>
      have hlast : (b :: b' :: s).getLast? = (b' :: s).getLast? := List.getLast?_cons_cons
      rw [hlast, List.getLast?_eq_some_getLast (List.cons_ne_nil b' s)]
      simp only [List.length_cons, Option.getD_some]
      split_ifs with h₁ h₂ h₂
      · exact List.dropLast_cons_of_ne_nil (List.cons_ne_nil b' s)
      · exact absurd h₁.2 h₂
      · exact absurd ⟨by omega, h₂⟩ h₁
      · rfl

/-- `RenderOnce` pushes the text of its line. -/
lemma dispatch_texts (dest : Dest) (c : Chunk) :
    ((dispatch c).toList.filterMap fun p => if p.1 = dest then some p.2 else none).map Text.bytes
      = lineTexts dest c.bytes := by
  cases hc : c.bytes with
  | nil =>
      have hbytes : c.cstr.bytes = [] := by simp [Chunk.cstr, hc]
      have hnone : dispatch c = none := by simp [dispatch, Text.chomp_bytes, hbytes]
      simp [hnone, lineTexts]
  | cons b rest =>
      by_cases hb : b = 0#8
      · have hbytes : c.cstr.bytes = [] := by simp [Chunk.cstr, hc, hb]
        have hnone : dispatch c = none := by simp [dispatch, Text.chomp_bytes, hbytes]
        have htype : b ≠ typeByte dest := by
          rw [hb]
          cases dest <;> decide
        simp [hnone, lineTexts, htype]
      · have hbytes : c.cstr.bytes = b :: rest.takeWhile (· ≠ 0#8) := by
          simp [Chunk.cstr, hc, hb]
        have hchomp := chomp_cons hbytes
        have htail : c.cstr.chomp.tail.bytes = withoutEnd (rest.takeWhile (· ≠ 0#8)) := by
          show c.cstr.chomp.bytes.tail = _
          rw [hchomp, List.tail_cons]
        simp only [dispatch, hchomp, List.head?_cons, Option.some.injEq, lineTexts]
        cases dest <;> simp only [typeByte] <;> split_ifs <;> simp_all

/-- `BtnEventHandle` pushes the first lines of a command, up to a short one. -/
lemma commandTexts_bytes (n : ℕ) (cs : List Chunk) :
    (commandTexts n cs).map Text.bytes
      = ((cs.take n).map stripped).takeWhile fun p => 8 < p.length := by
  induction n generalizing cs with
  | zero => rfl
  | succ n ih =>
      cases cs with
      | nil => rfl
      | cons c cs =>
          have hbytes : c.cstr.skipBlanks.bytes = stripped c := rfl
          simp only [commandTexts, hbytes, gt_iff_lt, List.take_succ_cons, List.map_cons,
            List.takeWhile_cons, decide_eq_true_eq]
          split_ifs
          · rw [List.map_cons, ih, hbytes]
          · rfl

/-- **A frame pushes the texts that it reads.** -/
lemma arrivals_bytes (dest : Dest) (inp : FrameInput) :
    (arrivals dest inp).map Text.bytes = inputTexts dest inp := by
  cases hline : inp.line with
  | some c =>
      simp only [arrivals, inputTexts, hline]
      exact dispatch_texts dest c
  | none =>
      cases dest with
      | slidingQueen => simp [arrivals, inputTexts, hline]
      | staticQueen =>
          simp only [arrivals, inputTexts, hline, buttonTexts, buttonLines]
          split_ifs
          · simp only [List.map_flatMap, commandTexts_bytes]
          · rfl

/-- A line of another type has no text. -/
lemma inputTexts_of_otherType {inp : FrameInput} {c : Chunk} (hline : inp.line = some c)
    (htype : ∀ dest, c.bytes.head? ≠ some (typeByte dest)) (dest : Dest) :
    inputTexts dest inp = [] := by
  have h := htype dest
  simp only [inputTexts, hline]
  cases hc : c.bytes with
  | nil => rfl
  | cons b rest =>
      rw [hc, List.head?_cons, ne_eq, Option.some.injEq] at h
      rw [lineTexts, if_neg h]

/-! ### The bookkeeping -/

/-- **No text is lost, duplicated or reordered**: after every frame of a run without a push on
a full queue, the texts handed to `SlidingSetDanmu` and those waiting in `sliding_queen` are
the texts of the `0` lines read so far, and the texts handed to `ForceStaticSetDanmu` and those
waiting in `static_queen` are the texts of the `1` lines and the button lines, in order. A frame
that reads a line of another type changes neither sequence. -/
theorem texts_accounted_for (area : ℕ → Byte) (frames : List (Screen × FrameInput))
    (hroom : RoomThroughout frames (initRenderer area)) :
    (∀ done rest, frames = done ++ rest →
      ∃ r calls, renderFrames done (initRenderer area) = some (r, calls) ∧
        ∀ dest, (handed dest calls ++ (r.queue dest).pending).map Text.bytes
          = done.flatMap fun f => inputTexts dest f.2)
    ∧ ∀ done scr inp rest, frames = done ++ (scr, inp) :: rest →
      ∀ c, inp.line = some c → (∀ dest, c.bytes.head? ≠ some (typeByte dest)) →
      ∃ r calls r' calls', renderFrames done (initRenderer area) = some (r, calls)
        ∧ renderFrame scr inp r = some (r', calls')
        ∧ ∀ dest, handed dest calls' ++ (r'.queue dest).pending = (r.queue dest).pending := by
  refine ⟨?_, ?_⟩
  · intro done rest hsplit
    rw [hsplit] at hroom
    obtain ⟨r, calls, hrun, -, hacc⟩ :=
      renderFrames_pending (valid_initRenderer area) hroom.of_append
    refine ⟨r, calls, hrun, fun dest => ?_⟩
    rw [hacc dest, pending_initRenderer, List.nil_append, List.map_flatMap]
    simp only [arrivals_bytes]
  · intro done scr inp rest hsplit c hline htype
    rw [hsplit] at hroom
    obtain ⟨r, calls, hrun, hv, -⟩ :=
      renderFrames_pending (valid_initRenderer area) hroom.of_append
    obtain ⟨⟨r', calls'⟩, hframe⟩ := Option.isSome_iff_exists.mp
      ((renderFrame_isSome_iff scr hv).mpr (hroom.drop hrun).1)
    refine ⟨r, calls, r', calls', hrun, hframe, fun dest => ?_⟩
    have hnone : arrivals dest inp = [] :=
      List.map_eq_nil_iff.mp ((arrivals_bytes dest inp).trans
        (inputTexts_of_otherType hline htype dest))
    rw [(renderFrame_spec hv hframe).2 dest, hnone, List.append_nil]

/-- A frame that reads the line `1hi`. -/
def staticLineFrame : FrameInput where
  line := some ⟨[0x31#8, 0x68#8, 0x69#8, 0x0a#8], by decide⟩
  click := false
  out _ := none
  bitmap _ := ⟨1, 1, fun _ => 0#8⟩
  slidingRand := 0
  staticRand := 0
  layerRand := 0

/-- A frame that reads the line `c`. -/
def lineFrame (c : Chunk) : FrameInput :=
  { staticLineFrame with line := some c, bitmap := fun _ => ⟨100, 1, fun _ => 0#8⟩ }

/-- Six sliding texts, a line of an unknown type and a static text with a TAB in front of its line
end, and a click of the button. -/
def mixedFrames : List (Screen × FrameInput) :=
  ([⟨[0x30#8, 0x68#8, 0x0a#8], by decide⟩, ⟨[0x30#8, 0x62#8, 0x0a#8], by decide⟩,
    ⟨[0x7a#8, 0x63#8, 0x0a#8], by decide⟩, ⟨[0x30#8, 0x64#8], by decide⟩,
    ⟨[0x31#8, 0x65#8, 0x09#8, 0x0a#8], by decide⟩, ⟨[0x30#8, 0x0a#8], by decide⟩,
    ⟨[0x30#8, 0x66#8, 0x0a#8], by decide⟩, ⟨[0x30#8, 0x67#8, 0x0a#8], by decide⟩] :
      List Chunk).map (fun c => (.fullHd, lineFrame c))
  ++ [(.fullHd, { staticLineFrame with
    line := none
    click := true
    out := fun i => if (i : ℕ) = 0 then
      some (List.replicate 3 ⟨0x20#8 :: List.replicate 9 0x69#8, by decide⟩) else none })]

/-- The last sliding text finds no row, and the second one of the button waits for its frame. -/
theorem texts_accounted_for_mixed :
    ∃ r calls, renderFrames mixedFrames (initRenderer fun _ => 0#8) = some (r, calls)
      ∧ (handed .slidingQueen calls).map Text.bytes = [[0x68#8], [0x62#8], [0x64#8], [], [0x66#8]]
      ∧ r.slidingQueen.pending.map Text.bytes = [[0x67#8]]
      ∧ (handed .staticQueen calls).map Text.bytes
        = [[0x65#8, 0x09#8], List.replicate 9 0x69#8]
      ∧ r.staticQueen.pending.map Text.bytes = [List.replicate 9 0x69#8]
      ∧ ∀ dest, (handed dest calls ++ (r.queue dest).pending).map Text.bytes
        = mixedFrames.flatMap fun f => inputTexts dest f.2 := by
  have hroom : RoomThroughout mixedFrames (initRenderer fun _ => 0#8) :=
    roomThroughout_of_le (valid_initRenderer _) fun dest => by cases dest <;> decide
  obtain ⟨r, calls, hrun, hacc⟩ := (texts_accounted_for _ mixedFrames hroom).1 mixedFrames []
    (List.append_nil _).symm
  have hobs : (renderFrames mixedFrames (initRenderer fun _ => 0#8)).map (fun p =>
      ((handed .slidingQueen p.2).map Text.bytes, p.1.slidingQueen.pending.map Text.bytes,
        (handed .staticQueen p.2).map Text.bytes, p.1.staticQueen.pending.map Text.bytes))
      = some ([[0x68#8], [0x62#8], [0x64#8], [], [0x66#8]], [[0x67#8]],
        [[0x65#8, 0x09#8], List.replicate 9 0x69#8], [List.replicate 9 0x69#8]) := by
    decide +kernel
  rw [hrun, Option.map_some, Option.some.injEq] at hobs
  simp only [Prod.mk.injEq] at hobs
  exact ⟨r, calls, hrun, hobs.1, hobs.2.1, hobs.2.2.1, hobs.2.2.2, hacc⟩

end Danmaku
