import Danmaku.FrameFormat
import Danmaku.Rendering

/-!
In which layout the frames are shown.

The ring keeps its frames from one session to the next. `Render` means to clear every buffer
before it sets `render_running`, but `ClearScreen` submits nothing while the flag is down.

* `Sys.MapsOk`: the invariant of the DMA area: clean layer maps, and behind them a blank frame of
  the session's size.
* `Sys.BuffersOk`: the invariant of the frame buffers: what the render DMA is still to do keeps
  every buffer laid out, and so are the committed frames and the one to be submitted.
* `frames_laidOut`: **frames are shown in the layout of their session** in every run in which the
  frames that a session finds in the ring are in its layout.
-/

namespace Danmaku

open DmaEngine Transition CountedLoop

namespace Sys

/-- `SubMain` has set up the screen of a session. -/
def InSubMain (s : Sys) : Prop :=
  match s.mainPc with
  | .loop | .subMain | .exited => False
  | _ => True

/-- `Render` has set `render_running`, and the overlay thread is not joined. -/
def InRender (s : Sys) : Prop :=
  match s.mainPc with
  | .loop | .subMain | .create | .install | .clearing _ | .clearingSubmit _ | .waitIdle
  | .setRunning | .exited => False
  | _ => True

/-- The row descriptors that `RenderOnce` has still to submit. -/
def toDraw (s : Sys) : List Descriptor :=
  match s.mainPc with
  | .drawRunning _ rest => rest
  | .drawSubmit _ d rest => d :: rest
  | _ => []

/-- Buffer `idx` is laid out, or the render DMA has its clear to do. -/
def Cleared (s : Sys) (idx : ℕ) : Prop :=
  LaidOut s.screen s.fb (buffer idx) ∨ s.clearFrame idx ∈ s.renderDma.outstanding

/-- What the render thread knows of the buffer it fills. -/
def FillingOk (s : Sys) : Prop :=
  match s.mainPc with
  | .feed i | .drawRunning i _ | .drawSubmit i _ _ | .drainRunning i | .drainTest i => s.Cleared i
  | .commit i => LaidOut s.screen s.fb (buffer i)
  | _ => True

/-- The invariant of the DMA area. -/
structure MapsOk (s : Sys) : Prop where
  mapByte : ∀ a < layerMap 30, MapByte (s.area a)
  layers : s.renderer.LayersOk (layerMap 30)
  dynArea : s.driver.szDynArea = dynAreaSize
  allocated : layerMap 30 ≤ s.driver.szAllocated.toNat
    ∧ s.driver.szAllocated.toNat ≤ dynAreaSize.toNat
  session : s.InSubMain → s.screen.FitsBuffer ∧ layerMap 30 ≤ s.blankScreen ∧ s.BlankReady

/-- The invariant of the frame buffers. -/
structure BuffersOk (s : Sys) : Prop where
  idle : s.mainPc = .setRunning → s.renderDma.outstanding = []
  descriptors : s.InRender → ∀ d ∈ s.renderDma.outstanding ++ s.toDraw,
    FrameDescriptor s.screen s.blankScreen d
  committed : s.pipe.renderRunning = true →
    ∀ b, s.pipe.ring.Committed b → LaidOut s.screen s.fb (buffer b)
  filling : s.pipe.renderRunning = true → s.FillingOk
  shown : s.pipe.overlayPc = .txmit → LaidOut s.screen s.fb (buffer s.pipe.ring.rdptr)

/-- Every size that `SubMain` accepts fits a buffer. -/
def SizesFit (s : Sys) (_ : Action) : Prop :=
  s.mainPc = .subMain → ∀ scr, Screen.ofFrameSize? s.resolution = some scr → scr.FitsBuffer

/-- Whenever `Render` sets `render_running`, the frames that earlier sessions left in the ring are
laid out for the new session. -/
def FramesCurrent (s : Sys) (_ : Action) : Prop :=
  s.mainPc = .setRunning → ∀ b, s.pipe.ring.Committed b → LaidOut s.screen s.fb (buffer b)

variable {s t : Sys} {a : Action} {as : List Action} {inp : FrameInput} {pc : MainPc}

/-! ### The DMA area -/

/-- Steps that leave the DMA area and the screen alone. -/
lemma MapsOk.congr (h : s.MapsOk) (hr : t.renderer = s.renderer) (hd : t.driver = s.driver)
    (hscr : t.screen = s.screen) (hb : t.blankScreen = s.blankScreen)
    (hin : t.InSubMain → s.InSubMain) : t.MapsOk := by
  refine ⟨?_, ?_, ?_, ?_, ?_⟩
  · simp only [area, hr]
    exact h.mapByte
  · rw [hr]
    exact h.layers
  · rw [hd]
    exact h.dynArea
  · rw [hd]
    exact h.allocated
  · intro ht
    simp only [BlankReady, area, hr, hscr, hb]
    exact h.session (hin ht)

/-- The allocator hands out memory behind the layer maps. -/
lemma MapsOk.alloc (h : s.MapsOk) {scr : Screen} {blank : ℕ} {driver : DriverCtx}
    (halloc : allocRenderBuf s.driver scr.imgSize = some (blank, driver))
    (hroom : blank + scr.imgSize.toNat ≤ driver.szDynArea.toNat) :
    layerMap 30 ≤ blank ∧ driver.szDynArea = dynAreaSize
      ∧ layerMap 30 ≤ driver.szAllocated.toNat ∧ driver.szAllocated.toNat ≤ dynAreaSize.toNat := by
  obtain ⟨rfl, hdyn, hnew⟩ := allocRenderBuf_toNat halloc hroom
  have hlow := h.allocated.1
  rw [hdyn, h.dynArea] at hroom
  exact ⟨hlow, hdyn.trans h.dynArea, by omega, by omega⟩

/-- The moves of the main thread keep the invariant of the DMA area. -/
lemma MapsOk.main (h : s.MapsOk) (hfit : s.SizesFit (.main inp))
    (hmove : MainMove inp s t) : t.MapsOk := by
  cases hmove with
  | jump hj =>
      refine h.congr rfl rfl rfl rfl ?_
      intro ht
      cases hj <;> simp_all [InSubMain]
  | subMain hpc =>
      rcases subMain_cases s with he | he | ⟨scr, blank, driver, hscr, halloc, hroom, he⟩
      · rw [he]
        exact h.congr rfl rfl rfl rfl False.elim
      · rw [he]
        exact h.congr rfl rfl rfl rfl False.elim
      · rw [he]
        have hfit := hfit hpc scr hscr
        obtain ⟨hblank, hdyn, halloc⟩ := h.alloc halloc hroom
        have hfilled := scr.initBlankScreen_filled blank s.area
        refine ⟨?_, h.layers.setArea _, hdyn, halloc,
          fun _ => ⟨hfit, hblank, fun k hk => hfilled.apply_add hk⟩⟩
        intro a ha
        have hout := hfilled.apply_of_outside (a := a) (Or.inl (by omega))
        show MapByte (scr.initBlankScreen blank s.area a)
        rw [hout]
        exact h.mapByte a ha
  | feed hpc hr =>
      have hkeeps : Renderer.Keeps (layerMap 30) s.screen s.renderer _ :=
        Renderer.keeps_renderFrame hr
      obtain ⟨hfit, hblank, hready⟩ := h.session (by simp only [InSubMain, hpc])
      refine ⟨fun a ha => hkeeps.mapByte a (h.mapByte a ha), hkeeps.layers h.layers, h.dynArea,
        h.allocated, fun _ => ⟨hfit, hblank, ?_⟩⟩
      intro k hk
      calc _ = s.area (s.blankScreen + k) :=
            hkeeps.area h.layers hfit.edge_le_held _ (hblank.trans (Nat.le_add_right _ k))
        _ = s.screen.blankByte k := hready k hk
  | submit hsub =>
      refine h.congr rfl rfl rfl rfl ?_
      intro _
      cases hsub <;> simp_all [InSubMain]
  | wait hpc => exact h
  | _ hpc => exact h.congr rfl rfl rfl rfl fun _ => by simp_all [InSubMain]

/-- Every step keeps the invariant of the DMA area. -/
lemma MapsOk.step (h : s.MapsOk) (hfit : s.SizesFit a) (hs : Step s a t) : t.MapsOk := by
  cases sysMove_of_step hs with
  | main hmove => exact h.main hfit hmove
  | _ => exact h.congr rfl rfl rfl rfl fun hin => hin

/-! ### The frame buffers -/

lemma inSubMain_of_inRender (h : s.InRender) : s.InSubMain := by
  cases hpc : s.mainPc <;> simp_all [InRender, InSubMain]

/-- The flag is up only in `Render`. -/
lemma inRender_of_running (hb : s.handoff.Basic) (hrun : s.pipe.renderRunning = true) :
    s.InRender := by
  have hph := hb.phase
  cases hpc : s.mainPc <;> simp_all [InRender, Handoff.PhaseOk, handoff, phase]

/-- The overlay thread submits only in `Render`. -/
lemma inRender_of_txmit (hb : s.handoff.Basic) (htx : s.pipe.overlayPc = .txmit) : s.InRender := by
  have hph := hb.phase
  cases hpc : s.mainPc <;>
    simp_all [InRender, Handoff.PhaseOk, handoff, phase, OverlayPc.Waiting]

/-- Steps that change only what the threads share. -/
lemma BuffersOk.pipe (h : s.BuffersOk) {p : Pipe}
    (hrun : p.renderRunning = true → s.pipe.renderRunning = true)
    (hring : ∀ b, p.ring.Committed b → s.pipe.ring.Committed b)
    (hshown : p.overlayPc = .txmit → LaidOut s.screen s.fb (buffer p.ring.rdptr)) :
    { s with pipe := p }.BuffersOk :=
  ⟨h.idle, h.descriptors, fun hr b hb => h.committed (hrun hr) b (hring b hb),
    fun hr => h.filling (hrun hr), hshown⟩

/-- The overlay thread submits a committed frame. -/
lemma BuffersOk.overlay (h : s.BuffersOk) (hb : s.handoff.Basic) {imgSize : BitVec 32} {p : Pipe}
    (hmove : OverlayMove imgSize s.pipe p) : { s with pipe := p }.BuffersOk := by
  have hrun := (Handoff.overlayMove_ring hmove).1
  refine h.pipe (fun hr => hrun.symm.trans hr) ?_ ?_
  · cases hmove with
    | release hpc hring => exact fun b hb => Ring.committed_of_releaseBuffer hring hb
    | _ => exact fun b hb => hb
  · cases hmove with
    | enter hpc hrunning =>
        have hold := hb.overlay
        simp only [handoff, Pipe.OverlayOk, hpc] at hold
        exact fun _ => h.committed hrunning _ (Ring.committed_rdptr (hold hrunning).2)
    | txmitFault hpc htx => exact fun _ => h.shown hpc
    | _ hpc => intro htx; simp_all

/-- A transfer of the render DMA keeps every buffer laid out. -/
lemma BuffersOk.transfer (h : s.BuffersOk) (hm : s.MapsOk) (hin : s.InRender) {d : Descriptor}
    (hd : d ∈ s.renderDma.outstanding) {b : ℕ} (hlaid : LaidOut s.screen s.fb (buffer b)) :
    LaidOut s.screen (Danmaku.transfer s.area d s.fb) (buffer b) := by
  obtain ⟨hfit, -, hblank⟩ := hm.session (inSubMain_of_inRender hin)
  exact (h.descriptors hin d (List.mem_append_left _ hd)).laidOut hfit hblank hm.mapByte hlaid

/-- What the render thread knows, after a step of the render DMA. -/
lemma FillingOk.device (h : s.FillingOk) (hpc : t.mainPc = s.mainPc)
    (hcleared : ∀ i, s.Cleared i → t.Cleared i)
    (hlaid : ∀ i, LaidOut s.screen s.fb (buffer i) → LaidOut t.screen t.fb (buffer i)) :
    t.FillingOk := by
  unfold FillingOk at h ⊢
  rw [hpc]
  split at h <;> first | exact hcleared _ h | exact hlaid _ h | trivial

/-- The render DMA takes a descriptor. -/
lemma BuffersOk.dequeue (h : s.BuffersOk) {e : Engine Descriptor}
    (he : s.renderDma.dequeue? = some e) : { s with renderDma := e }.BuffersOk := by
  have hout := Engine.dequeue?_outstanding he
  refine ⟨fun hpc => hout.trans (h.idle hpc), fun hin d hd => h.descriptors hin d ?_, h.committed,
    fun hrun => (h.filling hrun).device rfl ?_ fun i hl => hl, h.shown⟩
  · rw [← hout]
    exact hd
  · intro i hc
    simp only [Cleared, clearFrame, hout] at hc ⊢
    exact hc

/-- The render DMA finishes a descriptor. -/
lemma BuffersOk.finish (h : s.BuffersOk) (hm : s.MapsOk) (hb : s.handoff.Basic) {d : Descriptor}
    {e : Engine Descriptor} (he : s.renderDma.finish? = some (d, e)) :
    { s with renderDma := e, fb := Danmaku.transfer s.area d s.fb }.BuffersOk := by
  have hout := Engine.finish?_outstanding he
  have hd : d ∈ s.renderDma.outstanding := by
    rw [hout]
    exact List.mem_cons_self
  refine ⟨?_, fun hin d' hd' => h.descriptors hin d' ?_, ?_,
    ?_, fun htx => h.transfer hm (inRender_of_txmit hb htx) hd (h.shown htx)⟩
  · intro hpc
    have hidle := h.idle hpc
    rw [hidle] at hd
    exact absurd hd List.not_mem_nil
  · rw [hout, List.cons_append]
    exact List.mem_cons_of_mem _ hd'
  · intro hrun b hring
    exact h.transfer hm (inRender_of_running hb hrun) hd (h.committed hrun b hring)
  · intro hrun
    have hin := inRender_of_running hb hrun
    refine (h.filling hrun).device rfl ?_ fun i => h.transfer hm hin hd
    intro i hc
    rcases hc with hlaid | hclear
    · exact Or.inl (h.transfer hm hin hd hlaid)
    · rw [hout, List.mem_cons] at hclear
      rcases hclear with rfl | hclear
      · exact Or.inl (laidOut_clearScreen (hm.session (inSubMain_of_inRender hin)).2.2)
      · exact Or.inr hclear

/-- A control move adds nothing to what is to be drawn. -/
lemma toDraw_of_jump (hj : Jump s pc) {d : Descriptor} (hd : d ∈ { s with mainPc := pc }.toDraw) :
    d ∈ s.toDraw := by
  cases hj with
  | draw hpc | drawFull hpc =>
      simp only [toDraw, hpc]
      exact hd
  | drawSkipped hpc =>
      simp only [toDraw, hpc]
      exact List.mem_cons_of_mem _ hd
  | _ => exact absurd hd List.not_mem_nil

/-- The control moves of the main thread. -/
lemma BuffersOk.jump (h : s.BuffersOk) (hj : Jump s pc) :
    { s with mainPc := pc }.BuffersOk := by
  refine ⟨?_, fun hin d hd => h.descriptors ?_ d ?_, h.committed, ?_,
    h.shown⟩
  · intro hpc
    cases hj with
    | idle _ hidle => exact hidle
    | _ => exact absurd hpc (by simp)
  · cases hj <;> simp_all [InRender]
  · exact (List.mem_append.mp hd).elim (List.mem_append_left _)
      fun hd => List.mem_append_right _ (toDraw_of_jump hj hd)
  · intro hrun
    have hfilling := h.filling hrun
    cases hj with
    | clearFrameSkipped _ hrun' | drawSkipped _ hrun' | drainSkipped _ hrun' =>
        exact absurd (hrun.symm.trans hrun') (by simp)
    | drawn hpc | draw hpc | drawFull hpc | drain hpc | draining hpc =>
        simp only [FillingOk, hpc] at hfilling
        exact hfilling
    | drained hpc hidle =>
        simp only [FillingOk, hpc, Cleared, hidle, List.not_mem_nil, or_false] at hfilling
        exact hfilling
    | _ => trivial

/-- A submission moves a descriptor to the render DMA. -/
lemma BuffersOk.submit (h : s.BuffersOk) {d : Descriptor} (hsub : Submission s d pc) :
    { s with renderDma := s.renderDma.submit d, mainPc := pc }.BuffersOk := by
  refine ⟨?_, ?_, h.committed, ?_, h.shown⟩
  · intro hpc
    cases hsub <;> exact absurd hpc (by simp)
  · intro hin d' hd'
    simp only [Engine.outstanding_submit, List.append_assoc, List.singleton_append,
      List.mem_append, List.mem_cons] at hd'
    cases hsub with
    | clearing hpc => exact hin.elim
    | clear hpc =>
        have hin' : s.InRender := by simp only [InRender, hpc]
        rcases hd' with hd' | rfl | hd'
        · exact h.descriptors hin' d' (List.mem_append_left _ hd')
        · exact .clear _
        · exact absurd hd' List.not_mem_nil
    | draw hpc =>
        refine h.descriptors (by simp only [InRender, hpc]) d' ?_
        simp only [toDraw, hpc, List.mem_append, List.mem_cons]
        exact hd'
  · intro hrun
    have hfilling := h.filling hrun
    cases hsub with
    | clearing hpc => trivial
    | clear hpc =>
        refine Or.inr ?_
        rw [Engine.outstanding_submit]
        exact List.mem_append_right _ (List.mem_singleton_self _)
    | draw hpc =>
        simp only [FillingOk, hpc] at hfilling
        refine hfilling.imp_right ?_
        intro hclear
        rw [Engine.outstanding_submit]
        exact List.mem_append_left _ hclear

/-- A commit puts the filled buffer into the ring. -/
lemma BuffersOk.commit (h : s.BuffersOk) (hb : s.handoff.Basic) {i : ℕ} {ring : Ring}
    (hpc : s.mainPc = .commit i) (hring : s.pipe.ring.commitBuffer = some ring) :
    { s with pipe := { s.pipe with ring := ring }, mainPc := .resolution }.BuffersOk := by
  have hwr : i = s.pipe.ring.wrptr := by
    have hph := hb.phase
    simp only [Handoff.PhaseOk, handoff, phase, hpc] at hph
    exact hph.1
  refine ⟨fun hpc => absurd hpc (by simp), ?_, ?_,
    fun _ => trivial, ?_⟩
  · intro _ d hd
    refine h.descriptors (by simp only [InRender, hpc]) d ?_
    simp only [toDraw, hpc]
    exact hd
  · intro hrun b hcommitted
    rcases Ring.committed_of_commitBuffer hring hcommitted with hold | rfl
    · exact h.committed hrun b hold
    · have hfilling := h.filling hrun
      simp only [FillingOk, hpc] at hfilling
      rw [← hwr]
      exact hfilling
  · intro htx
    have hrd := (Ring.commitBuffer_spec hring).2.2.1
    simp only [hrd]
    exact h.shown htx

/-- The moves of the main thread keep the invariant of the frame buffers. -/
lemma BuffersOk.main (h : s.BuffersOk) (hm : s.MapsOk) (hb : s.handoff.Basic)
    (hcur : s.FramesCurrent (.main inp)) (hmove : MainMove inp s t) : t.BuffersOk := by
  have hph := hb.phase
  cases hmove with
  | jump hj => exact h.jump hj
  | submit hsub => exact h.submit hsub
  | commit hpc hring => exact h.commit hb hpc hring
  | subMain hpc =>
      simp only [Handoff.PhaseOk, handoff, phase, hpc] at hph
      obtain ⟨habsent, hrun⟩ := hph
      rcases subMain_cases s with he | he | ⟨scr, blank, driver, -, -, -, he⟩ <;> rw [he] <;>
      exact ⟨fun hpc => absurd hpc (by simp), False.elim, fun hr => absurd (hr.symm.trans hrun)
        (by simp), fun _ => trivial, fun htx => absurd (htx.symm.trans habsent) (by simp)⟩
  | create hpc =>
      exact ⟨fun hpc => absurd hpc (by simp), False.elim, h.committed, fun _ => trivial,
        fun htx => absurd htx (by simp)⟩
  | install hpc =>
      exact ⟨fun hpc => absurd hpc (by simp), False.elim, h.committed, fun _ => trivial, h.shown⟩
  | setRunning hpc =>
      simp only [Handoff.PhaseOk, handoff, phase, hpc, OverlayPc.Waiting] at hph
      refine ⟨fun hpc => absurd hpc (by simp), ?_,
        fun _ => hcur hpc, fun _ => trivial, ?_⟩
      · intro _ d hd
        rw [toDraw, List.append_nil, h.idle hpc] at hd
        exact absurd hd List.not_mem_nil
      · intro htx
        simp_all
  | feed hpc hr =>
      have hin : s.InRender := by simp only [InRender, hpc]
      have hkeeps : Renderer.Keeps (layerMap 30) s.screen s.renderer _ :=
        Renderer.keeps_renderFrame hr
      refine ⟨fun hpc => absurd hpc (by simp), ?_, h.committed, ?_,
        h.shown⟩
      · intro _ d hd
        rcases List.mem_append.mp hd with hd | hd
        · exact h.descriptors hin d (List.mem_append_left _ hd)
        · exact frameDescriptor_of_mem_drawLayers
            (hm.session (inSubMain_of_inRender hin)).1.edge_le (hkeeps.layers hm.layers) hd
      · intro hrun
        have hfilling := h.filling hrun
        simp only [FillingOk, hpc] at hfilling
        exact hfilling
  | commitFault hpc hring => exact h.pipe id (fun _ => id) h.shown
  | fault hpc hf => exact h.pipe id (fun _ => id) h.shown
  | stop hpc | finish hpc =>
      refine ⟨fun hpc => absurd hpc (by simp), ?_, fun hr => absurd hr (by simp),
        fun hr => absurd hr (by simp), h.shown⟩
      intro _ d hd
      exact h.descriptors (by simp only [InRender, hpc]) d (by simpa only [toDraw, hpc] using hd)
  | join hpc hdone =>
      exact ⟨fun hpc => absurd hpc (by simp), False.elim, h.committed, fun _ => trivial,
        fun htx => absurd htx (by simp)⟩
  | wait hpc => exact h

/-- Every step keeps the invariant of the frame buffers. -/
lemma BuffersOk.step (h : s.BuffersOk) (hm : s.MapsOk) (hb : s.handoff.Basic)
    (hcur : s.FramesCurrent a) (hs : Step s a t) : t.BuffersOk := by
  cases sysMove_of_step hs with
  | main hmove => exact h.main hm hb hcur hmove
  | overlay hp => exact h.overlay hb (overlayMove_of_step hp)
  | overlayDequeue he | overlayFinish he => exact h.pipe id (fun _ => id) h.shown
  | renderDequeue he => exact h.dequeue he
  | renderFinish he => exact h.finish hm hb he
  | sigint =>
      exact ⟨h.idle, h.descriptors, fun hr => absurd hr (by simp), fun hr => absurd hr (by simp),
        h.shown⟩
  | video | sigintReturn => exact ⟨h.idle, h.descriptors, h.committed, h.filling, h.shown⟩

/-! ### Whole runs -/

lemma mapsOk_start (resolution : BitVec 32) {area : ℕ → Byte} (fb : ℕ → Byte)
    (hmaps : ∀ a < layerMap 30, MapByte (area a)) : (start resolution area fb).MapsOk := by
  have hsize : layerMap 30 ≤ (BitVec.ofNat 32 (layerMap 30)).toNat
      ∧ (BitVec.ofNat 32 (layerMap 30)).toNat ≤ dynAreaSize.toNat := by decide
  exact ⟨fun a ha => initRenderer_mapByte (hmaps a ha), layersOk_initRenderer area, rfl, hsize,
    False.elim⟩

lemma buffersOk_start (resolution : BitVec 32) (area fb : ℕ → Byte) :
    (start resolution area fb).BuffersOk :=
  ⟨fun hpc => absurd hpc (by simp [start]), False.elim, fun hrun => absurd hrun (by simp [start]),
    fun hrun => absurd hrun (by simp [start]), fun htx => absurd htx (by simp [start])⟩

/-- The invariants of the two areas at the end of a run. -/
lemma layoutOk_of_run {resolution : BitVec 32} {area fb : ℕ → Byte}
    (hmaps : ∀ a < layerMap 30, MapByte (area a))
    (hrun : Run (Guard Step fun s a => s.SizesFit a ∧ s.FramesCurrent a)
      (start resolution area fb) as s) : s.handoff.Basic ∧ s.MapsOk ∧ s.BuffersOk :=
  hrun.invariant (I := fun s => s.handoff.Basic ∧ s.MapsOk ∧ s.BuffersOk)
    ⟨basic_start resolution area fb, mapsOk_start resolution fb hmaps,
      buffersOk_start resolution area fb⟩
    fun _ _ _ ⟨hb, hm, hbuf⟩ ⟨hs, hfit, hcur⟩ =>
      ⟨hb.step (step_handoff hs), hm.step hfit hs, hbuf.step hm hb hcur hs⟩

/-- **Frames are shown in the layout of their session**: with clean layer maps, in every run in
which each accepted size fits a buffer and each session finds only frames of its own size in the
ring when it sets `render_running`, every buffer that the overlay thread submits is laid out for
the session's size. -/
theorem frames_laidOut {resolution : BitVec 32} {area fb : ℕ → Byte}
    (hmaps : ∀ a < layerMap 30, MapByte (area a))
    (hrun : Run (Guard Step fun s a => s.SizesFit a ∧ s.FramesCurrent a)
      (start resolution area fb) as s)
    (hpc : s.pipe.overlayPc = .txmit) :
    ∃ idx : ℕ, s.pipe.idx = idx ∧ LaidOut s.screen s.fb (buffer idx) := by
  obtain ⟨hb, -, hbuf⟩ := layoutOk_of_run hmaps hrun
  have hold := hb.overlay
  simp only [handoff, Pipe.OverlayOk, hpc] at hold
  exact ⟨s.pipe.ring.rdptr, hold.1, hbuf.shown hpc⟩

/-- The test of `SizesFit`. -/
def sizesFit (s : Sys) : Bool :=
  match s.mainPc with
  | .subMain => (Screen.ofFrameSize? s.resolution).all fun scr => decide scr.FitsBuffer
  | _ => true

lemma sizesFit_of_test (h : s.sizesFit = true) : s.SizesFit a := by
  intro hpc scr hscr
  simp only [sizesFit, hpc, hscr, Option.all_some, decide_eq_true_eq] at h
  exact h

/-- A step while the render DMA does nothing leaves the frame buffers alone. -/
lemma fb_of_step (hidle : s.renderDma.active = none) (hs : Step s a t) : t.fb = s.fb := by
  cases sysMove_of_step hs with
  | main hmove =>
      cases hmove with
      | subMain => exact subMain_fb s
      | _ => rfl
  | renderFinish he => exact absurd he (by simp [Engine.finish?, hidle])
  | _ => rfl

/-- A session finds the ring empty, or does not set `render_running` yet. -/
def ringFresh (s : Sys) : Bool :=
  s.sizesFit && (!(s.mainPc matches .setRunning) || s.pipe.ring.ringSize == 0)

lemma framesCurrent_of_ringFresh (h : s.ringFresh = true) : s.SizesFit a ∧ s.FramesCurrent a := by
  rw [ringFresh, Bool.and_eq_true] at h
  refine ⟨sizesFit_of_test h.1, ?_⟩
  intro hpc b hb
  have hempty : s.pipe.ring.ringSize = 0 := by simpa [hpc] using h.2
  have hsize := hb.2
  omega

/-- A session of 100 by 100 commits a frame, which nobody takes out of the ring. -/
def firstSession : List Action := mainSteps 14 ++ [.overlay] ++ quietFrameSteps

/-- The session ends, as the video input has changed to 104 by 100, and the next one begins, when it
has changed back. -/
def sessionChange : List Action :=
  [.video (sizeRegister 104 100)] ++ mainSteps 4 ++ List.replicate 2 .overlay
    ++ [.video (sizeRegister 100 100)] ++ mainSteps 14

/-- The second session submits the frame that the first one has left in the ring. -/
theorem frames_laidOut_secondSession :
    ∃ s as, Run (Guard Step fun s a => s.SizesFit a ∧ s.FramesCurrent a)
        (start (sizeRegister 100 100) (fun _ => 0#8) fun _ => 0#8)
        (firstSession ++ sessionChange ++ as) s
      ∧ s.pipe.overlayPc = .txmit ∧ s.pipe.idx = (0 : ℕ)
      ∧ ∃ idx : ℕ, s.pipe.idx = idx ∧ LaidOut s.screen s.fb (buffer idx) := by
  have hexec : ((exec ringFresh (start (sizeRegister 100 100) (fun _ => 0#8) fun _ => 0#8)
      firstSession).bind fun s₁ =>
      (exec (fun s => s.ringFresh && s.renderDma.active.isNone) s₁ sessionChange).bind fun s₂ =>
      (step s₂ (.main quietFrame)).bind fun s₃ =>
      (exec ringFresh s₃ (List.replicate 4 .overlay)).map fun s₄ =>
        (s₁.pipe.renderRunning, decide (s₂.screen = s₁.screen),
          decide (s₂.pipe.ring = s₁.pipe.ring), s₂.sizesFit, s₄.pipe.overlayPc, s₄.pipe.idx))
        = some (true, true, true, true, .txmit, 0) := by decide +kernel
  obtain ⟨s₁, h₁, hexec⟩ := Option.bind_eq_some_iff.mp hexec
  obtain ⟨s₂, h₂, hexec⟩ := Option.bind_eq_some_iff.mp hexec
  obtain ⟨s₃, h₃, hexec⟩ := Option.bind_eq_some_iff.mp hexec
  obtain ⟨s₄, h₄, hobs⟩ := Option.map_eq_some_iff.mp hexec
  simp only [Prod.mk.injEq, decide_eq_true_eq] at hobs
  obtain ⟨hrunning, hscreen, hring, hfit, hpc, hidx⟩ := hobs
  have hzero : ∀ a < layerMap 30, MapByte 0#8 := fun _ _ => Or.inl (by decide)
  have hfresh : ∀ (s : Sys) (a : Action), s.ringFresh = true → s.SizesFit a ∧ s.FramesCurrent a :=
    fun _ _ => framesCurrent_of_ringFresh
  have hrun₁ := run_of_exec hfresh h₁
  -- the frame of the first session is still there, and has the size of the second one
  have hrun₂ := run_of_exec
    (G := fun s a => (s.SizesFit a ∧ s.FramesCurrent a) ∧ s.renderDma.active = none)
    (fun s a h => by
      rw [Bool.and_eq_true, Option.isNone_iff_eq_none] at h
      exact ⟨hfresh s a h.1, h.2⟩) h₂
  have hfb : s₂.fb = s₁.fb := hrun₂.invariant (I := fun s => s.fb = s₁.fb) rfl
    fun _ _ _ hfb ⟨hs, hidle⟩ => (fb_of_step hidle.2 hs).trans hfb
  have hcur : s₂.FramesCurrent (.main quietFrame) := by
    intro _ b hb
    rw [hscreen, hfb]
    exact (layoutOk_of_run hzero hrun₁).2.2.committed hrunning b (hring ▸ hb)
  have hrun := ((hrun₁.append (hrun₂.mono fun _ _ _ h => ⟨h.1, h.2.1⟩)).append
    (.single ⟨h₃, sizesFit_of_test hfit, hcur⟩)).append
    (run_of_exec hfresh h₄)
  rw [List.append_assoc] at hrun
  exact ⟨s₄, _, hrun, hpc, hidx, frames_laidOut hzero hrun hpc⟩

/-! ### A left-over frame -/

/-- A session of 100 by 100 commits a frame, the video input changes to 104 by 100, and the next
session submits the frame that it finds in the ring. -/
def leftoverRun : List Action :=
  firstSession ++ [.video (sizeRegister 104 100)] ++ mainSteps 4 ++ List.replicate 2 .overlay
    ++ mainSteps 15 ++ List.replicate 4 .overlay

/-- **A frame is shown in the wrong layout**: its first row ends where the session's first row has
its pixel 100. -/
theorem not_frames_laidOut_leftover :
    ∃ s, Run (Guard Step SizesFit) (start (sizeRegister 100 100) (fun _ => 0#8) fun _ => 0#8)
        leftoverRun s
      ∧ s.pipe.overlayPc = .txmit ∧ s.pipe.idx = (0 : ℕ) ∧ ¬ LaidOut s.screen s.fb (buffer 0) := by
  have hexec : ((exec sizesFit (start (sizeRegister 100 100) (fun _ => 0#8) fun _ => 0#8)
      leftoverRun).map fun s =>
        (s.pipe.overlayPc, s.pipe.idx, s.screen.width, s.fb (buffer 0 + 100)))
        = some (.txmit, 0, 104, pxlHsync) := by decide +kernel
  obtain ⟨s, hs, hobs⟩ := Option.map_eq_some_iff.mp hexec
  simp only [Prod.mk.injEq] at hobs
  obtain ⟨hpc, hidx, hwidth, hbyte⟩ := hobs
  refine ⟨s, run_of_exec (fun _ _ => sizesFit_of_test) hs, hpc, hidx, ?_⟩
  intro hlaid
  have hsize := s.screen.stride_mul_height_ge
  have hpixel := hlaid 100 (by rw [Screen.imgSize_toNat]; omega)
  rw [if_pos (by simp only [Screen.stride, hwidth]; decide), hbyte] at hpixel
  exact absurd hpixel (by decide)

end Sys

end Danmaku
