import Danmaku.Insertion
import Danmaku.Moves

/-!
The sliding queue moves on: a text that waits at its head is in a layer after `CYCLE_PER_DANMU`
frames at most.

* `Renderer.Reachable`: the states of the renderer between two frames, over any sessions;
  `Sys.reachable_renderer`: those that the running program has.
* `SlidingLayer.LeavesIn`: a layer is free again after so many cycles; `Renderer.AllLeaveIn`, and
  what a frame does to it.
* `head_inserted`: **the head of the queue is inserted and popped in time**.
-/

namespace Danmaku

open Transition

/-- The states of the renderer between two calls of `RenderOnce`: at the start, after a frame of
any accepted size, and after a session has begun, which writes into the DMA area. -/
inductive Renderer.Reachable : Renderer → Prop
  | start (area : ℕ → Byte) : Reachable (initRenderer area)
  | frame {scr : Screen} {inp : FrameInput} {r r' : Renderer} {calls : List Call}
      (h : Reachable r) (hr : renderFrame scr inp r = some (r', calls)) : Reachable r'
  | session {r : Renderer} (h : Reachable r) (area : ℕ → Byte) :
      Reachable { r with canvas := { r.canvas with area := area } }

/-- The renderer of the running program is in such a state. -/
lemma Sys.reachable_renderer {resolution : BitVec 32} {area fb : ℕ → Byte} {as : List Action}
    {s : Sys} (h : Run Sys.Step (Sys.start resolution area fb) as s) : s.renderer.Reachable := by
  refine h.invariant (I := fun s : Sys => s.renderer.Reachable) (.start area) ?_
  intro s a t hs hstep
  cases sysMove_of_step hstep with
  | main hmove =>
      cases hmove with
      | subMain hpc =>
          rcases subMain_cases s with he | he | ⟨scr, blank, driver, -, -, -, he⟩
          · rwa [he]
          · rwa [he]
          · rw [he]
            exact hs.session _
      | feed hpc hr => exact hs.frame hr
      | _ => exact hs
  | _ => exact hs

/-! ### Layers that leave the screen -/

/-- An enabled layer is on the screen, and leaves it within `n` cycles. -/
def SlidingLayer.LeavesIn (n : ℕ) (s : SlidingLayer) : Prop :=
  s.enable = true → 0 ≤ s.ppc ∧ -s.width ≤ s.x ∧ s.x + s.width < n * s.ppc

/-- All sliding layers are free again after `n` cycles without an insertion. -/
def Renderer.AllLeaveIn (n : ℕ) (r : Renderer) : Prop :=
  ∀ i j, (r.slidingLayers i j).LeavesIn n

namespace SlidingLayer.LeavesIn

variable {s : SlidingLayer} {m n : ℕ}

lemma mono (h : s.LeavesIn m) (hmn : m ≤ n) : s.LeavesIn n := by
  intro he
  obtain ⟨hppc, hx, hlt⟩ := h he
  have hmul : (m : ℤ) * s.ppc ≤ n * s.ppc :=
    mul_le_mul_of_nonneg_right (Int.ofNat_le.mpr hmn) hppc
  exact ⟨hppc, hx, hlt.trans_le hmul⟩

/-- A cycle is one of the cycles that the layer has left. -/
lemma next (h : s.LeavesIn (n + 1)) : (slidingNextCycle s).LeavesIn n := by
  intro he
  obtain ⟨he₀, hx, heq⟩ := slidingNextCycle_of_enable he
  obtain ⟨hppc, -, hlt⟩ := h he₀
  push_cast at hlt
  rw [add_mul, one_mul] at hlt
  rw [heq]
  refine ⟨hppc, hx, ?_⟩
  show s.x - s.ppc + s.width < n * s.ppc
  omega

lemma enable_eq_false (h : s.LeavesIn 0) : s.enable = false := by
  by_contra he
  obtain ⟨-, hx, hlt⟩ := h (by simpa using he)
  simp only [Nat.cast_zero, zero_mul] at hlt
  omega

end SlidingLayer.LeavesIn

/-- The speed that `SlidingSetDanmu` sets takes a text off the screen in `CYCLE_PER_DANMU`
cycles, the one of its own frame among them. -/
lemma leavesIn_insertedLayer (scr : Screen) (w : ℕ) (s : SlidingLayer) :
    (insertedLayer scr w s).LeavesIn cyclePerDanmu := by
  intro _
  simp only [insertedLayer, cyclePerDanmu]
  omega

section Frame

variable {scr : Screen} {inp : FrameInput} {r r' : Renderer} {calls : List Call} {t : Text} {n : ℕ}

/-- A frame that inserts nothing is a cycle for all layers. -/
lemma Renderer.AllLeaveIn.frame (h : r.AllLeaveIn (n + 1)) (hins : insertion scr inp r = none)
    (hr : renderFrame scr inp r = some (r', calls)) : r'.AllLeaveIn n := by
  obtain ⟨c, ⟨-, -, -, hs⟩ | ⟨t, p, hsome, -⟩, -⟩ := renderFrame_insertion hr
  · intro i j
    rw [hs]
    exact (h i j).next
  · rw [hins] at hsome
    exact absurd hsome (by simp)

/-- Between two frames every layer has used one of its cycles. -/
lemma Renderer.AllLeaveIn.step (h : r.AllLeaveIn (cyclePerDanmu - 1))
    (hr : renderFrame scr inp r = some (r', calls)) : r'.AllLeaveIn (cyclePerDanmu - 1) := by
  have hmore : r.AllLeaveIn cyclePerDanmu := fun i j => (h i j).mono (Nat.sub_le _ _)
  refine forall_slidingLayers hr (fun t s => ?_) fun i j => ?_
  · exact SlidingLayer.LeavesIn.next (leavesIn_insertedLayer scr _ s)
  · exact SlidingLayer.LeavesIn.next (hmore i j)

/-- What holds between two frames. -/
lemma Renderer.Reachable.allLeaveIn (h : r.Reachable) :
    r.Valid ∧ r.AllLeaveIn (cyclePerDanmu - 1) := by
  induction h with
  | start area => exact ⟨valid_initRenderer area, fun i j he => absurd he (by simp [initRenderer])⟩
  | frame h hr ih => exact ⟨(renderFrame_spec ih.1 hr).1, ih.2.step hr⟩
  | session h area ih =>
      refine ⟨fun dest => ?_, ih.2⟩
      have hq := ih.1 dest
      cases dest <;> exact hq

/-- With all layers free `InsertSliding` finds one. -/
lemma freeSlot_of_allLeaveIn (scr : Screen) (h : r.AllLeaveIn 0) : (freeSlot scr r).isSome := by
  rw [freeSlot, List.find?_isSome]
  refine ⟨(⟨0, by decide⟩, ⟨0, by decide⟩), by decide, ?_⟩
  simp [conflict, fun i j => (h i j).enable_eq_false]

/-- Reading leaves the head of the sliding queue in its place. -/
lemma fetch_readLine {r₁ : Renderer} (hv : r.Valid) (hq : r.slidingQueen.fetch = some t)
    (h : readLine inp r = some (r₁, calls)) : r₁.slidingQueen.fetch = some t := by
  obtain ⟨hv₁, hp⟩ := readLine_spec hv h
  have hhead := (Queen.fetch_eq (hv .slidingQueen)).symm.trans hq
  refine (Queen.fetch_eq (hv₁ .slidingQueen)).trans ?_
  rw [(hp .slidingQueen).1, List.head?_append, hhead]
  rfl

/-- With all layers free the waiting text is inserted. -/
lemma insertion_of_allLeaveIn (scr : Screen) {r₁ : Renderer} (hv : r.Valid) (h : r.AllLeaveIn 0)
    (hq : r.slidingQueen.fetch = some t) (hread : readLine inp r = some (r₁, calls)) :
    (insertion scr inp r).isSome := by
  have hs : r₁.slidingLayers = r.slidingLayers := (readLine_layers hread).1
  obtain ⟨p, hp⟩ := Option.isSome_iff_exists.mp (freeSlot_of_allLeaveIn scr (r := r₁) (by
    intro i j
    rw [hs]
    exact h i j))
  simp [insertion, hread, fetch_readLine hv hq hread, hp]

/-- The text that a frame inserts is the one at the head of the queue. -/
lemma eq_of_insertion {t' : Text} {p : Fin slidingLayerRows × Fin slidingLayerCols} (hv : r.Valid)
    (hq : r.slidingQueen.fetch = some t) (h : insertion scr inp r = some (t', p)) : t' = t := by
  obtain ⟨⟨r₁, read⟩, hread, h⟩ := Option.bind_eq_some_iff.mp h
  obtain ⟨tmp, hfetch, h⟩ := Option.bind_eq_some_iff.mp h
  obtain ⟨q, -, hpair⟩ := Option.bind_eq_some_iff.mp h
  obtain ⟨rfl, -⟩ := Prod.mk.inj (Option.some.inj hpair)
  exact Option.some.inj (hfetch.symm.trans (fetch_readLine hv hq hread))

/-- A frame that inserts nothing leaves the head of the queue in its place. -/
lemma fetch_renderFrame (hv : r.Valid) (hq : r.slidingQueen.fetch = some t)
    (hnone : handed .slidingQueen calls = []) (hr : renderFrame scr inp r = some (r', calls)) :
    r'.slidingQueen.fetch = some t := by
  obtain ⟨hv', hp⟩ := renderFrame_spec hv hr
  have hpending := hp .slidingQueen
  rw [hnone, List.nil_append] at hpending
  have hhead := (Queen.fetch_eq (hv .slidingQueen)).symm.trans hq
  refine (Queen.fetch_eq (hv' .slidingQueen)).trans ?_
  rw [hpending, List.head?_append, hhead]
  rfl

end Frame

/-- A frame of the run `frames` from `r` puts the text `t` at the head of the sliding queue into a
layer and pops it, and no text leaves the queue before. -/
def HeadInserted (t : Text) (frames : List (Screen × FrameInput)) (r : Renderer) : Prop :=
  ∃ before scr inp after r₁ calls₁ r₂ calls₂, ∃ p : Fin slidingLayerRows × Fin slidingLayerCols,
    frames = before ++ (scr, inp) :: after
    ∧ renderFrames before r = some (r₁, calls₁) ∧ handed .slidingQueen calls₁ = []
    ∧ renderFrame scr inp r₁ = some (r₂, calls₂) ∧ handed .slidingQueen calls₂ = [t]
    ∧ t :: r₂.slidingQueen.pending = r₁.slidingQueen.pending ++ arrivals .slidingQueen inp
    ∧ r₂.slidingLayers p.1 p.2
      = slidingNextCycle (insertedLayer scr (outWidth inp t) (r₁.slidingLayers p.1 p.2))

/-- A frame that inserts nothing comes before the others. -/
lemma HeadInserted.cons {t : Text} {frames : List (Screen × FrameInput)} {r r' : Renderer}
    {scr : Screen} {inp : FrameInput} {calls : List Call} (h : HeadInserted t frames r')
    (hr : renderFrame scr inp r = some (r', calls)) (hnone : handed .slidingQueen calls = []) :
    HeadInserted t ((scr, inp) :: frames) r := by
  obtain ⟨before, scr', inp', after, r₁, calls₁, r₂, calls₂, p, rfl, hbefore, hcalls₁, hrest⟩ := h
  refine ⟨(scr, inp) :: before, scr', inp', after, r₁, calls ++ calls₁, r₂, calls₂, p, rfl, ?_, ?_,
    hrest⟩
  · simp [renderFrames, hr, hbefore]
  · rw [handed_append, hnone, hcalls₁, List.nil_append]

/-- With all layers free after `n` cycles, the head is inserted within `n + 1` frames. -/
lemma headInserted_of_allLeaveIn {t : Text} {n : ℕ} {frames : List (Screen × FrameInput)}
    {r : Renderer} (hv : r.Valid) (hl : r.AllLeaveIn n) (hq : r.slidingQueen.fetch = some t)
    (hlen : n < frames.length) (hroom : RoomThroughout frames r) : HeadInserted t frames r := by
  induction frames generalizing n r with
  | nil => exact absurd hlen (by simp)
  | cons f frames ih =>
      obtain ⟨scr, inp⟩ := f
      obtain ⟨⟨r', calls⟩, hr⟩ := Option.isSome_iff_exists.mp
        ((renderFrame_isSome_iff scr hv).mpr hroom.1)
      obtain ⟨hv', hp⟩ := renderFrame_spec hv hr
      obtain ⟨c, ⟨hnone, hcalls, -, -⟩ | ⟨t', p, hsome, hcalls, -, hs⟩, -⟩ :=
        renderFrame_insertion hr
      · cases n with
        | zero =>
            obtain ⟨⟨r₁, read⟩, hread⟩ := Option.isSome_iff_exists.mp
              ((readLine_isSome_iff hv).mpr hroom.1)
            have hins := insertion_of_allLeaveIn scr hv hl hq hread
            rw [hnone] at hins
            exact absurd hins (by simp)
        | succ n =>
            have hrest := ih hv' (hl.frame hnone hr) (fetch_renderFrame hv hq hcalls hr)
              (Nat.lt_of_succ_lt_succ hlen) (hroom.2 r' calls hr)
            exact hrest.cons hr hcalls
      · obtain rfl := eq_of_insertion hv hq hsome
        have hpop := hp .slidingQueen
        rw [hcalls] at hpop
        refine ⟨[], scr, inp, frames, r, [], r', calls, p, rfl, rfl, rfl, hr, hcalls, hpop, ?_⟩
        simp only [hs, insertAt_same]

/-- **The sliding queue cannot starve**: from every reachable state, with texts and screen sizes of
any kind, the text at the head of the queue is in a layer after `CYCLE_PER_DANMU` frames. -/
theorem head_inserted {t : Text} {frames : List (Screen × FrameInput)} {r : Renderer}
    (hr : r.Reachable) (hq : r.slidingQueen.fetch = some t) (hlen : frames.length = cyclePerDanmu)
    (hroom : RoomThroughout frames r) : HeadInserted t frames r := by
  obtain ⟨hv, hl⟩ := hr.allLeaveIn
  exact headInserted_of_allLeaveIn hv hl hq (by rw [hlen]; decide) hroom

/-- A frame that reads a sliding text of one byte, which is rendered `w` pixels wide. -/
def commentFrame (b : Byte) (w : ℕ) : FrameInput :=
  { Sys.quietFrame with
    line := some ⟨[0x30#8, b, 0x0a#8], by simp [maxTextLen]⟩
    bitmap := fun _ => ⟨w, 1, fun _ => 255#8⟩ }

/-- A frame that reads nothing has room. -/
lemma roomThroughout_quiet (scr : Screen) (n : ℕ) {r : Renderer} (hv : r.Valid) :
    RoomThroughout (List.replicate n (scr, Sys.quietFrame)) r := by
  refine roomThroughout_of_le hv fun dest => ?_
  have hnone : (List.replicate n (scr, Sys.quietFrame)).flatMap (fun f => arrivals dest f.2) = [] :=
    List.flatMap_eq_nil_iff.mpr fun f hf => by
      rw [List.eq_of_mem_replicate hf]
      cases dest <;> rfl
  have htail := (hv dest).tail_le
  have hhead := (hv dest).head_nonneg
  rw [hnone, List.length_nil, Queen.count]
  omega

lemma Renderer.Reachable.frames {frames : List (Screen × FrameInput)} {r r' : Renderer}
    {calls : List Call} (h : r.Reachable) (hr : renderFrames frames r = some (r', calls)) :
    r'.Reachable := by
  induction frames generalizing r calls with
  | nil =>
      obtain ⟨rfl, -⟩ := Prod.mk.inj (Option.some.inj hr)
      exact h
  | cons f frames ih =>
      obtain ⟨⟨r₁, calls₁⟩, h₁, hr⟩ := Option.bind_eq_some_iff.mp hr
      obtain ⟨⟨r₂, calls₂⟩, h₂, hr⟩ := Option.bind_eq_some_iff.mp hr
      obtain ⟨rfl, -⟩ := Prod.mk.inj (Option.some.inj hr)
      exact ih (h.frame h₁) h₂

/-- Six texts in six frames fill the five rows, so that the last one waits. -/
theorem head_inserted_sixth : ∃ r : Renderer, r.Reachable
    ∧ r.slidingQueen.fetch.map Text.bytes = some [0x66#8]
    ∧ ∃ t, t.bytes = [0x66#8]
      ∧ HeadInserted t (List.replicate cyclePerDanmu (Sys.smallScreen, Sys.quietFrame)) r := by
  have hrun : ((renderFrames (([0x61#8, 0x62#8, 0x63#8, 0x64#8, 0x65#8, 0x66#8] : List Byte).map
      fun b => (Sys.smallScreen, commentFrame b 10)) (initRenderer fun _ => 0#8)).map fun p =>
        p.1.slidingQueen.fetch.map Text.bytes) = some (some [0x66#8]) := by decide +kernel
  obtain ⟨⟨r, calls⟩, hr, hfetch⟩ := Option.map_eq_some_iff.mp hrun
  obtain ⟨t, ht, hbytes⟩ := Option.map_eq_some_iff.mp hfetch
  have hreach := (Renderer.Reachable.start fun _ => 0#8).frames hr
  exact ⟨r, hreach, hfetch, t, hbytes, head_inserted hreach ht (List.length_replicate ..)
    (roomThroughout_quiet _ _ hreach.allLeaveIn.1)⟩

end Danmaku
