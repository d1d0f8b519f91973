import Danmaku.Layout

/-!
What the render DMA is doing when the program writes.

`RenderOnce` draws texts into the layer maps between its `ClearScreen` and its layer writers, and
hands the frame on after a wait for the render DMA. The wait is left early when `render_running`
drops, which only SIGINT does inside a frame.

* `Sys.AreaOk`: the invariant of the DMA area: the layer maps in front, the blank screens behind.
* `Sys.DmaOk`: the invariant of the render DMA, by the place of the main thread.
* `maps_not_read_while_drawn`: **a layer map is never redrawn while it is read, and a buffer never
  committed while it is written**, over any number of sessions.
-/

namespace Danmaku

open DmaEngine Transition

/-- The bytes that a descriptor reads lie outside the map at `map`. -/
def Descriptor.ReadsOutside (d : Descriptor) (map : ℕ) : Prop :=
  d.src + d.length ≤ map ∨ map + mapBytes ≤ d.src

/-- The bytes that a descriptor writes lie outside the frame buffer `idx`. -/
def Descriptor.WritesOutside (d : Descriptor) (idx : ℕ) : Prop :=
  d.dst + d.length ≤ Sys.buffer idx ∨ Sys.buffer idx + frameBufferSize ≤ d.dst

namespace Sys

/-- The layer maps lie in front of the blank screens. -/
structure AreaOk (s : Sys) : Prop where
  layers : s.renderer.LayersOk (layerMap 30)
  allocated : layerMap 30 ≤ s.driver.szAllocated.toNat
  blank : s.InSubMain → layerMap 30 ≤ s.blankScreen

/-- `RenderOnce` is being executed. -/
def InFrame (s : Sys) : Prop :=
  match s.mainPc with
  | .clearRunning _ | .clearSubmit _ | .feed _ | .drawRunning _ _ | .drawSubmit _ _ _
  | .drainRunning _ | .drainTest _ => True
  | _ => False

/-- What is outstanding in the render DMA. -/
def OutstandingOk (s : Sys) : Prop :=
  match s.mainPc with
  | .clearing _ | .clearingSubmit _ | .waitIdle => True
  | .feed idx => ∀ d ∈ s.renderDma.outstanding, d = s.clearFrame idx
  | .drawRunning _ _ | .drawSubmit _ _ _ | .drainRunning _ | .drainTest _ => True
  | _ => s.renderDma.outstanding = []

/-- The invariant of the render DMA while no SIGINT arrives: inside a frame `render_running` stays
up, so that the wait at its end is not left early. -/
structure DmaOk (s : Sys) : Prop where
  running : s.InFrame → s.pipe.renderRunning = true
  outstanding : s.OutstandingOk

variable {s t : Sys} {a : Action} {as : List Action} {inp : FrameInput} {pc : MainPc}

/-! ### The DMA area -/

lemma AreaOk.main (h : s.AreaOk) (hmove : MainMove inp s t) : t.AreaOk := by
  obtain ⟨hlayers, halloc, hblank⟩ := h
  cases hmove with
  | jump hj =>
      refine ⟨hlayers, halloc, ?_⟩
      intro hin
      refine hblank ?_
      cases hj <;> simp_all [InSubMain]
  | subMain hpc =>
      rcases subMain_cases s with he | he | ⟨scr, blank, driver, -, hnew, hroom, he⟩ <;> rw [he]
      · exact ⟨hlayers, halloc, False.elim⟩
      · exact ⟨hlayers, halloc, False.elim⟩
      · obtain ⟨rfl, -, hnew⟩ := allocRenderBuf_toNat hnew hroom
        refine ⟨hlayers.setArea _, ?_, fun _ => halloc⟩
        simp only [hnew]
        exact halloc.trans (Nat.le_add_right _ _)
  | submit hsub =>
      refine ⟨hlayers, halloc, fun _ => hblank ?_⟩
      cases hsub <;> simp_all [InSubMain]
  | feed hpc hr =>
      have hkeeps : Renderer.Keeps (layerMap 30) s.screen s.renderer _ :=
        Renderer.keeps_renderFrame hr
      exact ⟨hkeeps.layers hlayers, halloc, fun _ => hblank (by simp only [InSubMain, hpc])⟩
  | wait hpc => exact ⟨hlayers, halloc, hblank⟩
  | _ hpc => exact ⟨hlayers, halloc, fun _ => hblank (by simp_all [InSubMain])⟩

/-- Every step keeps the layer maps in front of the blank screens. -/
lemma AreaOk.step (h : s.AreaOk) (hs : Step s a t) : t.AreaOk := by
  cases sysMove_of_step hs with
  | main hmove => exact h.main hmove
  | _ => exact ⟨h.layers, h.allocated, h.blank⟩

lemma areaOk_start (resolution : BitVec 32) (area fb : ℕ → Byte) :
    (start resolution area fb).AreaOk :=
  ⟨layersOk_initRenderer area, by simp only [start]; decide, False.elim⟩

/-! ### The render DMA -/

/-- A jump of the main thread: it enters a frame with the flag up, and it leaves a frame, or goes on
from the wait before the first one, when the DMA is idle. -/
lemma DmaOk.jump (h : s.DmaOk) (hj : Jump s pc) : { s with mainPc := pc }.DmaOk := by
  obtain ⟨hrunning, hout⟩ := h
  refine ⟨?_, ?_⟩
  · intro hin
    cases hj with
    | frame _ hrun => exact hrun
    | clearFrame hpc | clearFrameSkipped hpc | clearFrameFull hpc | drawn hpc | draw hpc
    | drawSkipped hpc | drawFull hpc | drain hpc | draining hpc =>
        exact hrunning (by simp only [InFrame, hpc])
    | _ => exact hin.elim
  · cases hj with
    | idle _ hidle | drained _ hidle => exact hidle
    | clearFrameSkipped hpc =>
        simp only [OutstandingOk, hpc] at hout
        intro d hd
        rw [show s.renderDma.outstanding = [] from hout] at hd
        exact absurd hd List.not_mem_nil
    | drainSkipped hpc hdown =>
        have hup := hrunning (by simp only [InFrame, hpc])
        exact absurd (hup.symm.trans hdown) (by simp)
    | clearSkipped | clearTry | clearFull | cleared | busy | drawn | draw | drawSkipped | drawFull
    | drain | draining => trivial
    | _ hpc =>
        simp only [OutstandingOk, hpc] at hout
        exact hout

/-- A submission: the frame's clear before the texts are drawn, the layers behind it. -/
lemma DmaOk.submit (h : s.DmaOk) {d : Descriptor} (hsub : Submission s d pc) :
    { s with renderDma := s.renderDma.submit d, mainPc := pc }.DmaOk := by
  obtain ⟨hrunning, hout⟩ := h
  cases hsub with
  | clearing hpc => exact ⟨False.elim, trivial⟩
  | clear hpc =>
      refine ⟨fun _ => hrunning (by simp only [InFrame, hpc]), ?_⟩
      simp only [OutstandingOk, hpc] at hout
      intro d hd
      simp only [Engine.outstanding_submit, hout, List.nil_append, List.mem_singleton] at hd
      exact hd
  | draw hpc => exact ⟨fun _ => hrunning (by simp only [InFrame, hpc]), trivial⟩

lemma DmaOk.main (h : s.DmaOk) (hmove : MainMove inp s t) : t.DmaOk := by
  have hout := h.outstanding
  cases hmove with
  | jump hj => exact h.jump hj
  | submit hsub => exact h.submit hsub
  | subMain hpc =>
      simp only [OutstandingOk, hpc] at hout
      rcases subMain_cases s with he | he | ⟨scr, blank, driver, -, -, -, he⟩ <;> rw [he] <;>
      exact ⟨False.elim, hout⟩
  | install hpc => exact ⟨False.elim, trivial⟩
  | feed hpc hr =>
      exact ⟨fun _ => h.running (by simp only [InFrame, hpc]), trivial⟩
  | commitFault | fault | wait => exact ⟨h.running, h.outstanding⟩
  | create hpc | setRunning hpc | commit hpc | stop hpc | finish hpc | join hpc =>
      simp only [OutstandingOk, hpc] at hout
      exact ⟨False.elim, hout⟩

/-- The render DMA only does what is outstanding. -/
lemma OutstandingOk.device (h : s.OutstandingOk) {e : Engine Descriptor} {mem : ℕ → Byte}
    (hout : ∀ d ∈ e.outstanding, d ∈ s.renderDma.outstanding) :
    { s with renderDma := e, fb := mem }.OutstandingOk := by
  have hnil : s.renderDma.outstanding = [] → e.outstanding = [] := by
    intro hidle
    rw [hidle] at hout
    exact List.eq_nil_iff_forall_not_mem.mpr fun d hd => List.not_mem_nil (hout d hd)
  cases hpc : s.mainPc with
  | clearing | clearingSubmit | waitIdle | drawRunning | drawSubmit | drainRunning | drainTest =>
      simp only [OutstandingOk]
  | feed idx =>
      simp only [OutstandingOk, hpc] at h ⊢
      exact fun d hd => h d (hout d hd)
  | _ =>
      simp only [OutstandingOk, hpc] at h ⊢
      exact hnil h

/-- Every step but the arrival of SIGINT keeps the invariant of the render DMA. -/
lemma DmaOk.step (h : s.DmaOk) (hsig : a ≠ .sigint) (hs : Step s a t) : t.DmaOk := by
  cases sysMove_of_step hs with
  | main hmove => exact h.main hmove
  | overlay hp =>
      have hrun := (Handoff.overlayMove_ring (overlayMove_of_step hp)).1
      exact ⟨fun hin => hrun.trans (h.running hin), h.outstanding⟩
  | renderDequeue he =>
      exact ⟨h.running, h.outstanding.device fun d hd => Engine.dequeue?_outstanding he ▸ hd⟩
  | renderFinish he =>
      refine ⟨h.running, h.outstanding.device ?_⟩
      intro d hd
      rw [Engine.finish?_outstanding he]
      exact List.mem_cons_of_mem _ hd
  | sigint => exact absurd rfl hsig
  | _ => exact ⟨h.running, h.outstanding⟩

/-! ### Whole runs -/

/-- **A layer map is never redrawn while it is read**: in every run without SIGINT, over any number
of sessions and with the render DMA taking its steps at any time, no descriptor queued or in
progress reads from a layer map when the texts of a frame are drawn, and none writes to the
committed buffer when `CommitBuffer` is called. -/
theorem maps_not_read_while_drawn {resolution : BitVec 32} {area fb : ℕ → Byte}
    (hrun : Run (Guard Step fun _ a => a ≠ .sigint) (start resolution area fb) as s) :
    (∀ idx, s.mainPc = .feed idx → ∀ d ∈ s.renderDma.outstanding,
      (∀ i j, d.ReadsOutside (s.renderer.slidingLayers i j).map)
        ∧ ∀ i, d.ReadsOutside (s.renderer.staticLayers i).map)
    ∧ ∀ idx, s.mainPc = .commit idx → ∀ d ∈ s.renderDma.outstanding,
        d.WritesOutside s.pipe.ring.wrptr := by
  obtain ⟨harea, hdma⟩ : s.AreaOk ∧ s.DmaOk :=
    hrun.invariant (I := fun s => s.AreaOk ∧ s.DmaOk)
      ⟨areaOk_start resolution area fb, False.elim, rfl⟩
      fun _ _ _ hI hs => ⟨hI.1.step hs.1, hI.2.step hs.2 hs.1⟩
  have hout := hdma.outstanding
  refine ⟨?_, ?_⟩
  · intro idx hpc d hd
    simp only [OutstandingOk, hpc] at hout
    have hsrc : layerMap 30 ≤ d.src := by
      rw [hout d hd]
      exact harea.blank (by simp only [InSubMain, hpc])
    exact ⟨fun i j => Or.inr ((harea.layers.sliding i j).map_le.trans hsrc),
      fun i => Or.inr ((harea.layers.static i).map_le.trans hsrc)⟩
  · intro idx hpc d hd
    simp only [OutstandingOk, hpc] at hout
    rw [hout] at hd
    exact absurd hd List.not_mem_nil

/-- The first frame of a session: its clear is outstanding when the texts are drawn. -/
theorem maps_not_read_while_drawn_firstFrame :
    ∃ s as, Run (Guard Step fun _ a => a ≠ .sigint)
        (start (sizeRegister 100 100) (fun _ => 0#8) fun _ => 0#8) as s
      ∧ s.mainPc = .feed 0 ∧ s.renderDma.outstanding.length = 1
      ∧ ∀ d ∈ s.renderDma.outstanding, ∀ i j,
        d.ReadsOutside (s.renderer.slidingLayers i j).map := by
  have hexec : ((exec (fun _ => true) (start (sizeRegister 100 100) (fun _ => 0#8) fun _ => 0#8)
      (mainSteps 23)).map fun s => (s.mainPc matches .feed 0, s.renderDma.outstanding.length))
        = some (true, 1) := by decide +kernel
  obtain ⟨s, hs, hobs⟩ := Option.map_eq_some_iff.mp hexec
  obtain ⟨hpc, hlength⟩ := Prod.mk.inj hobs
  have hrun := (run_of_steps hs).guard_of_forall_mem (G := (· ≠ .sigint)) (by simp [mainSteps])
  have hpc : s.mainPc = .feed 0 := by
    split at hpc
    · assumption
    · exact absurd hpc (by simp)
  exact ⟨s, _, hrun, hpc, hlength,
    fun d hd => ((maps_not_read_while_drawn hrun).1 0 hpc d hd).1⟩

end Sys

end Danmaku
