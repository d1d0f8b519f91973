import Danmaku.FrameOrder
import Danmaku.Layout

/-!
What the overlay DMA hands to the display in a session.

* `readOut`: the bytes that a descriptor of the overlay DMA reads; `picture`: the bytes of a frame
  as the painter's rule composes them.
* `Film`: what an observer of a session writes down: the frames as they are committed, and the
  frames as the overlay DMA has read them.
* `RenderOk`: the invariant of the render thread: it writes to the buffer that it fills and to no
  other one, and what it fills is a picture.
* `FilmOk`: the invariant of the film: what was sent, with what is outstanding, is what was
  submitted.
* `film_in_order`: **the display gets the composed pictures in order**, each one whole.
-/

namespace Danmaku

open DmaEngine Transition CountedLoop Painter

/-- The bytes that the overlay DMA reads for a descriptor. -/
def readOut (fb : ℕ → Byte) (d : OverlayDescriptor) : List Byte :=
  (List.range d.length).map fun k => fb (Sys.buffer d.buf + k)

/-- The bytes of the frame with the layers of a renderer. -/
def picture (scr : Screen) (r : Renderer) : List Byte :=
  (List.range scr.imgSize.toNat).map (composed scr r.canvas.area r)

/-- What an observer of a session writes down. -/
structure Film where
  /-- the numbers of the frames -/
  history : History
  /-- the frames: those in the ring at the start of the session, then each one as it is
  committed -/
  frames : List (List Byte)
  /-- what the overlay DMA has read for the descriptors it has finished -/
  sent : List (List Byte)

/-- The frame with a number. -/
def Film.frame (y : Film) (n : Option ℕ) : Option (List Byte) := n.bind fun n => y.frames[n]?

/-- A frame of the film keeps its number when another one is appended. -/
lemma Film.frame_append {y : Film} {h : History} {n : Option ℕ} {x : List Byte}
    (hx : y.frame n = some x) (f : List Byte) :
    { y with history := h, frames := y.frames ++ [f] }.frame n = some x := by
  cases n with
  | none => exact hx
  | some n =>
      obtain ⟨hlt, -⟩ := List.getElem?_eq_some_iff.mp hx
      exact (List.getElem?_append_left hlt).trans hx

/-- All that a descriptor writes lies in buffer `idx`. -/
def Descriptor.InBuffer (idx : ℕ) (d : Descriptor) : Prop :=
  ∀ k < d.length, Sys.buffer idx ≤ d.dst + k ∧ d.dst + k < Sys.buffer (idx + 1)

/-- A transfer into one buffer leaves alone what is read from another one. -/
lemma readOut_transfer {idx : ℕ} {area mem : ℕ → Byte} {d : Descriptor} {o : OverlayDescriptor}
    (hd : d.InBuffer idx) (hne : o.buf ≠ idx) (hlen : o.length ≤ frameBufferSize) :
    readOut (transfer area d mem) o = readOut mem o := by
  refine List.map_congr_left ?_
  intro k hk
  rw [List.mem_range] at hk
  rw [transfer_apply, if_neg]
  rintro ⟨hlow, hhigh, -⟩
  have hin := hd (Sys.buffer o.buf + k - d.dst) (by omega)
  rw [Nat.add_sub_cancel' hlow] at hin
  simp only [Sys.buffer, frameBufferSize_eq] at *
  omega

namespace Sys

/-- The descriptor of a frame of the session in buffer `b`. -/
def frameIn (s : Sys) (b : ℕ) : OverlayDescriptor := ⟨b, s.screen.imgSize.toNat⟩

/-- The film at the start of a session. -/
def filmStart (s : Sys) : Film where
  history := History.start s.pipe.ring
  frames := (List.range s.pipe.ring.ringSize).map fun k =>
    readOut s.fb (s.frameIn ((s.pipe.ring.rdptr + k) % numFrameBuffer))
  sent := []

/-- What a step adds to the film: `CommitBuffer` a frame, and the end of a descriptor what the
overlay DMA has read. -/
def film (s : Sys) (a : Action) (y : Film) : Film where
  history := s.record a y.history
  frames :=
    match s.label a with
    | .commit => y.frames ++ [readOut s.fb (s.frameIn s.pipe.ring.wrptr)]
    | _ => y.frames
  sent :=
    match a with
    | .overlayFinish => y.sent ++ s.pipe.overlayDma.active.toList.map (readOut s.fb)
    | _ => y.sent

/-- A session begins: the render DMA is idle, as `Render` has waited for, the frames fit their
buffers, and the layers and `blank_screen` are set up. -/
structure SessionReady (s : Sys) : Prop extends SessionStart s where
  renderDma : s.renderDma.outstanding = []
  fits : s.screen.Fits
  layers : s.renderer.LayersOk s.blankScreen
  blank : s.BlankReady

/-- The invariant of the render thread; `r₀` are the layers of the frame committed last. -/
structure RenderOk (scr : Screen) (r₀ : Renderer) (s : Sys) : Prop where
  screen : s.screen = scr
  layers : s.renderer.LayersOk s.blankScreen
  blank : s.BlankReady
  between : s.filling = none → s.renderer = r₀
  frame : ∀ idx, s.filling = some idx → ∃ fb, Composes scr idx r₀ fb s
  drained : ∀ idx, s.mainPc = .commit idx → s.renderDma.outstanding = []
  writes : ∀ d ∈ s.renderDma.outstanding ++ s.toDraw,
    ∃ idx, s.filling = some idx ∧ d.InBuffer idx

variable {scr : Screen} {r₀ : Renderer} {s t : Sys} {a : Action} {idx : ℕ} {inp : FrameInput}
  {pc : MainPc}

/-! ### The render thread -/

/-- A control move stays in its frame or outside of one, or begins one. -/
lemma filling_jump (hj : Jump s pc) : { s with mainPc := pc }.filling = s.filling
    ∨ ∃ i, s.mainPc = .emptyBreak i ∧ pc = .clearRunning i.toNat := by
  cases hj with
  | frame hpc hrun => exact Or.inr ⟨_, hpc, rfl⟩
  | _ hpc => exact Or.inl (by simp only [filling, hpc])

/-- Outside a frame the render DMA is idle. -/
lemma RenderOk.idle (h : RenderOk scr r₀ s) (hf : s.filling = none) :
    s.renderDma.outstanding = [] := by
  refine List.eq_nil_iff_forall_not_mem.mpr ?_
  intro d hd
  obtain ⟨i, hi, -⟩ := h.writes d (List.mem_append_left _ hd)
  exact absurd (hf.symm.trans hi) (by simp)

/-- The control moves. -/
lemma RenderOk.jump (h : RenderOk scr r₀ s) (hrun : s.pipe.renderRunning = true)
    (hj : Jump s pc) : RenderOk scr r₀ { s with mainPc := pc } := by
  rcases filling_jump hj with hf | ⟨i, hpc, rfl⟩
  · refine ⟨h.screen, h.layers, h.blank, fun hn => h.between (hf ▸ hn), ?_, ?_, ?_⟩
    · intro idx hidx
      obtain ⟨fb, hc⟩ := h.frame idx (hf ▸ hidx)
      exact ⟨fb, hc.jump hrun hj⟩
    · intro idx hidx
      cases hj with
      | drained _ hidle => exact hidle
      | drainSkipped _ hrun' => exact absurd (hrun.symm.trans hrun') (by simp)
      | _ => exact absurd hidx (by simp)
    · intro d hd
      rw [hf]
      refine h.writes d ?_
      rcases List.mem_append.mp hd with hd | hd
      · exact List.mem_append_left _ hd
      · exact List.mem_append_right _ (toDraw_of_jump hj hd)
  · have hnone : s.filling = none := by simp only [filling, hpc]
    have hidle := h.idle hnone
    refine ⟨h.screen, h.layers, h.blank, fun hn => absurd hn (by simp [filling]), ?_,
      fun idx hidx => absurd hidx (by simp), ?_⟩
    · intro idx hidx
      obtain rfl : i.toNat = idx := Option.some.inj hidx
      have hbegin : FrameBegins { s with mainPc := .clearRunning i.toNat } i.toNat :=
        ⟨rfl, hidle, h.layers, h.blank⟩
      have hc := hbegin.composes
      rw [← h.screen, ← h.between hnone]
      exact ⟨_, hc⟩
    · intro d hd
      simp only [toDraw, List.append_nil, hidle] at hd
      exact absurd hd List.not_mem_nil

/-- The descriptors of a frame stay in its buffer. -/
lemma inBuffer_of_mem_drawLayers {rd : Renderer} {d : Descriptor} {bound : ℕ} (hfit : scr.Fits)
    (hok : rd.LayersOk bound) (hd : d ∈ drawLayers scr (buffer idx) rd) : d.InBuffer idx := by
  simp only [drawLayers, List.mem_append, List.mem_flatMap] at hd
  rcases hd with ⟨p, -, hd⟩ | ⟨i, -, hd⟩
  · exact (slidingWritePixels_rowInBounds hfit rfl (hok.sliding p.1 p.2).width_le hd).buffer
  · exact (staticWritePixels_rowInBounds hfit rfl (hok.static i).validLen_le hd).buffer

lemma inBuffer_clearScreen (hfit : scr.Fits) (blank : ℕ) :
    (clearScreen scr blank (buffer idx)).InBuffer idx := by
  intro k hk
  have hsize := hfit.1
  simp only [clearScreen, Screen.imgSize_toNat, buffer] at *
  rw [Nat.succ_mul]
  omega

/-- The submissions of a frame. -/
lemma RenderOk.submit (h : RenderOk scr r₀ s) (hb : s.handoff.Basic) (hfit : scr.Fits)
    (hrun : s.pipe.renderRunning = true) {d : Descriptor} (hsub : Submission s d pc) :
    RenderOk scr r₀ { s with renderDma := s.renderDma.submit d, mainPc := pc } := by
  have hfilling : { s with renderDma := s.renderDma.submit d, mainPc := pc }.filling
      = s.filling := by
    cases hsub <;> simp_all [filling]
  refine ⟨h.screen, h.layers, h.blank, fun hn => h.between (hfilling ▸ hn), ?_, ?_, ?_⟩
  · intro idx hidx
    obtain ⟨fb, hc⟩ := h.frame idx (hfilling ▸ hidx)
    exact ⟨fb, hc.submit hsub⟩
  · intro idx hidx
    cases hsub <;> exact absurd hidx (by simp)
  · intro d' hd'
    rw [hfilling]
    simp only [Engine.outstanding_submit, List.append_assoc, List.singleton_append,
      List.mem_append, List.mem_cons] at hd'
    cases hsub with
    | clearing hpc =>
        have hph := hb.phase
        simp only [Handoff.PhaseOk, handoff, phase, hpc] at hph
        exact absurd (hrun.symm.trans hph.2) (by simp)
    | clear hpc =>
        rcases hd' with hd' | rfl | hd'
        · exact h.writes d' (List.mem_append_left _ hd')
        · refine ⟨_, by simp only [filling, hpc], inBuffer_clearScreen ?_ _⟩
          rw [h.screen]
          exact hfit
        · exact absurd hd' List.not_mem_nil
    | draw hpc =>
        refine h.writes d' ?_
        simp only [toDraw, hpc, List.mem_append, List.mem_cons]
        exact hd'

/-- Reading and inserting. -/
lemma RenderOk.feed (h : RenderOk scr r₀ s) (hfit : scr.Fits) {i : ℕ} {r : Renderer}
    {calls : List Call} (hpc : s.mainPc = .feed i)
    (hr : renderFrame s.screen inp s.renderer = some (r, calls)) :
    RenderOk scr r₀ { s with
      renderer := r, mainPc := .drawRunning i (drawLayers s.screen (buffer i) r) } := by
  obtain ⟨fb, hc⟩ := h.frame i (by simp only [filling, hpc])
  have hc' := hc.feed hfit hpc hr
  refine ⟨hc'.screen, hc'.layers, hc'.blank, fun hn => absurd hn (by simp [filling]), ?_,
    fun idx hidx => absurd hidx (by simp), ?_⟩
  · intro idx hidx
    obtain rfl : i = idx := Option.some.inj hidx
    exact ⟨fb, hc'⟩
  · intro d hd
    rcases List.mem_append.mp hd with hd | hd
    · obtain ⟨idx, hidx, hin⟩ := h.writes d (List.mem_append_left _ hd)
      simp only [filling, hpc] at hidx
      exact ⟨idx, hidx, hin⟩
    · have hd' : d ∈ drawLayers scr (buffer i) r := by
        rw [← h.screen]
        exact hd
      exact ⟨i, rfl, inBuffer_of_mem_drawLayers hfit hc'.layers hd'⟩

/-- The render DMA goes on. -/
lemma RenderOk.device {e : Engine Descriptor} {mem : ℕ → Byte} (h : RenderOk scr r₀ s)
    (hbusy : s.renderDma.outstanding ≠ [])
    (hdrained : { s with renderDma := e, fb := mem }.drained = s.drained)
    (hout : ∀ d ∈ e.outstanding, d ∈ s.renderDma.outstanding) :
    RenderOk scr r₀ { s with renderDma := e, fb := mem } := by
  have hcommit : ∀ i, s.mainPc ≠ .commit i := fun i hpc => hbusy (h.drained i hpc)
  refine ⟨h.screen, h.layers, h.blank, h.between, ?_, fun i hpc => absurd hpc (hcommit i), ?_⟩
  · intro idx hidx
    obtain ⟨fb, hc⟩ := h.frame idx hidx
    exact ⟨fb, hc.device hcommit hdrained hout fun hidle => absurd hidle hbusy⟩
  · intro d hd
    refine h.writes d ?_
    rcases List.mem_append.mp hd with hd | hd
    · exact List.mem_append_left _ (hout d hd)
    · exact List.mem_append_right _ hd

/-- The moves of the main thread, a commit apart. -/
lemma RenderOk.main (h : RenderOk scr r₀ s) (hb : s.handoff.Basic) (hfit : scr.Fits)
    (hrun : s.pipe.renderRunning = true) (hcommit : ∀ i, s.mainPc ≠ .commit i)
    (hmove : MainMove inp s t) : RenderOk scr r₀ t := by
  have hph := hb.phase
  cases hmove with
  | jump hj => exact h.jump hrun hj
  | submit hsub => exact h.submit hb hfit hrun hsub
  | feed hpc hr => exact h.feed hfit hpc hr
  | fault hpc hf => exact ⟨h.screen, h.layers, h.blank, h.between, fun idx hidx =>
      (h.frame idx hidx).imp fun _ hc => ⟨hc.screen, hc.layers, hc.blank, hc.place, hc.fed⟩,
      h.drained, h.writes⟩
  | commit hpc | commitFault hpc => exact absurd hpc (hcommit _)
  | stop hpc | finish hpc =>
      have hnone : s.filling = none := by simp only [filling, hpc]
      refine ⟨h.screen, h.layers, h.blank, fun _ => h.between hnone, fun idx hidx =>
        absurd hidx (by simp [filling]), fun idx hidx => absurd hidx (by simp), ?_⟩
      intro d hd
      simp only [toDraw, List.append_nil, h.idle hnone] at hd
      exact absurd hd List.not_mem_nil
  | subMain hpc | create hpc | install hpc | setRunning hpc | join hpc =>
      simp only [Handoff.PhaseOk, handoff, phase, hpc] at hph
      simp_all
  | wait hpc => exact h

/-- **The render thread keeps to its buffer**, in every step but `CommitBuffer`. -/
lemma RenderOk.step (h : RenderOk scr r₀ s) (hb : s.handoff.Basic) (hfit : scr.Fits)
    (hrun : s.Running a) (hlabel : s.label a ≠ .commit) (hs : Step s a t) : RenderOk scr r₀ t := by
  cases sysMove_of_step hs with
  | main hmove =>
      refine h.main hb hfit hrun ?_ hmove
      intro i hpc
      exact hlabel (by simp only [label, hpc])
  | renderDequeue he =>
      have hout := Engine.dequeue?_outstanding he
      refine h.device ?_ (drained_dequeue he) fun d hd => hout ▸ hd
      obtain ⟨-, d, -, hfifo⟩ := Engine.dequeue?_spec he
      rw [Engine.outstanding, hfifo]
      simp
  | renderFinish he =>
      have hout := Engine.finish?_outstanding he
      refine h.device (by simp [hout]) (drained_finish he) ?_
      intro d hd
      rw [hout]
      exact List.mem_cons_of_mem _ hd
  | _ => exact ⟨h.screen, h.layers, h.blank, h.between, fun idx hidx =>
      (h.frame idx hidx).imp fun _ hc => ⟨hc.screen, hc.layers, hc.blank, hc.place, hc.fed⟩,
      h.drained, h.writes⟩

/-- What is about to be committed is a picture, of the layers after one more frame. -/
lemma RenderOk.committed (h : RenderOk scr r₀ s) (hfit : scr.Fits)
    (hpc : s.mainPc = .commit idx) :
    readOut s.fb (s.frameIn idx) = picture scr s.renderer
      ∧ ∃ inp calls, renderFrame scr inp r₀ = some (s.renderer, calls) := by
  obtain ⟨fb, hscr, -, hblank, hplace, hfed⟩ := h.frame idx (by simp only [filling, hpc])
  simp only [FramePlace, hpc, true_and] at hplace
  simp only [FrameFed, hpc, hscr] at hfed
  refine ⟨?_, hfed⟩
  have hfilled : Filled (buffer idx) (composed scr s.area s.renderer) fb scr.imgSize.toNat
      s.fb := by
    rw [hplace, frameOver, ← runDescriptors_cons, clearFrame, hscr]
    refine runDescriptors_frame hfit ?_ _ _ _
    intro k hk
    rw [← hscr] at hk ⊢
    exact hblank k hk
  rw [readOut, picture, frameIn, hscr]
  refine List.map_congr_left ?_
  intro k hk
  exact hfilled.apply_add (List.mem_range.mp hk)

/-- Behind a commit the next frame begins with the layers of this one. -/
lemma RenderOk.commit (h : RenderOk scr r₀ s) (hpc : s.mainPc = .commit idx) {p : Pipe} :
    RenderOk scr s.renderer { s with pipe := p, mainPc := .resolution } := by
  refine ⟨h.screen, h.layers, h.blank, fun _ => rfl, fun i hi => absurd hi (by simp [filling]),
    fun i hi => absurd hi (by simp), ?_⟩
  intro d hd
  simp only [toDraw, List.append_nil, h.drained idx hpc] at hd
  exact absurd hd List.not_mem_nil

/-! ### The film -/

/-- The invariant of the film: the frames in the ring are the last ones of the film, and what was
sent, with what is outstanding, is what was submitted. -/
structure FilmOk (s : Sys) (y : Film) : Prop where
  numbered : Handoff.Numbered s.pipe y.history
  length : y.frames.length = y.history.next
  ring : ∀ k < s.pipe.ring.ringSize, y.frame (some (Handoff.oldest s.pipe.ring y.history + k))
    = some (readOut s.fb (s.frameIn ((s.pipe.ring.rdptr + k) % numFrameBuffer)))
  lengths : ∀ d ∈ s.pipe.overlayDma.outstanding, d.length ≤ frameBufferSize
  sent : y.sent.map some ++ s.pipe.overlayDma.outstanding.map (fun d => some (readOut s.fb d))
    = y.history.submitted.map y.frame

variable {y : Film}

/-- Steps that leave the ring, the overlay DMA and the frames alone. -/
lemma FilmOk.congr (h : FilmOk s y) (hn : Handoff.Numbered t.pipe y.history)
    (hring : t.pipe.ring = s.pipe.ring) (hdma : t.pipe.overlayDma = s.pipe.overlayDma)
    (hfb : t.fb = s.fb) (hscr : t.screen = s.screen) : FilmOk t y := by
  refine ⟨hn, h.length, ?_, ?_, ?_⟩
  · simp only [hring, hfb, frameIn, hscr]
    exact h.ring
  · rw [hdma]
    exact h.lengths
  · rw [hdma, hfb]
    exact h.sent

/-- What the overlay thread submits is the oldest frame. -/
lemma FilmOk.submit (h : FilmOk s y) (hfit : s.screen.Fits) {d : OverlayDescriptor}
    (hone : 1 ≤ s.pipe.ring.ringSize) (hd : d = s.frameIn s.pipe.ring.rdptr) {p : Pipe}
    {y' : History} (hring : p.ring = s.pipe.ring)
    (hdma : p.overlayDma = s.pipe.overlayDma.submit d)
    (hy : y' = { y.history with
      submitted := y.history.submitted ++ [y.history.frameOf s.pipe.ring.rdptr] })
    (hn : Handoff.Numbered p y') : FilmOk { s with pipe := p } { y with history := y' } := by
  subst hy hd
  refine ⟨hn, h.length, ?_, ?_, ?_⟩
  · simp only [hring]
    exact h.ring
  · simp only [hdma, Engine.outstanding_submit, List.mem_append, List.mem_singleton]
    rintro d (hd | rfl)
    · exact h.lengths d hd
    · rw [frameIn, Screen.imgSize_toNat]
      exact hfit.1
  · have hoff := h.ring 0 (by omega)
    rw [Nat.add_zero, Nat.add_zero, Nat.mod_eq_of_lt s.pipe.ring.rdptr_lt] at hoff
    rw [hdma, Engine.outstanding_submit, List.map_append, ← List.append_assoc, h.sent,
      List.map_append, List.map_singleton, List.map_singleton,
      Handoff.frameOf_rdptr h.numbered.frames hone]
    exact congrArg (y.history.submitted.map y.frame ++ [·]) hoff.symm

/-- The steps of the overlay thread. -/
lemma FilmOk.overlay (h : FilmOk s y) (hb : s.handoff.Basic) (hfit : s.screen.Fits) {p : Pipe}
    (hmove : OverlayMove s.screen.imgSize s.pipe p) :
    FilmOk { s with pipe := p }
      { y with history := History.recordOverlay s.pipe s.screen.imgSize y.history } := by
  have hov := hb.overlay
  have hn := h.numbered.overlay hov hmove
  simp only [handoff] at hov
  cases hmove with
  | @submit dma ok hpc htx =>
      simp only [Pipe.OverlayOk, hpc] at hov
      obtain ⟨hidx, hone⟩ := hov
      obtain ⟨-, -, -, ⟨rfl, rfl⟩ | ⟨rfl, rfl, -⟩⟩ := frameBufferTxmit_ok htx
      · refine h.submit hfit hone ?_ rfl rfl ?_ hn
        · rw [hidx]
          rfl
        · simp only [History.recordOverlay, hpc, htx]
          rw [hidx, Int.toNat_natCast]
      · simp only [History.recordOverlay, hpc, htx] at hn ⊢
        exact ⟨hn, h.length, h.ring, h.lengths, h.sent⟩
  | @release ring hpc hring =>
      have hold := Handoff.oldest_release h.numbered hring
      obtain ⟨-, hrd, -, hsize⟩ := Ring.releaseBuffer_spec hring
      simp only [History.recordOverlay, hpc] at hn ⊢
      refine ⟨hn, h.length, ?_, h.lengths, h.sent⟩
      intro k hk
      have hframe := h.ring (k + 1) (by simp only at hk; omega)
      simp only [hrd, Nat.mod_add_mod] at hk ⊢
      rw [show s.pipe.ring.rdptr + 1 + k = s.pipe.ring.rdptr + (k + 1) by omega]
      refine Eq.trans ?_ hframe
      show y.frame (some (Handoff.oldest ring y.history + k)) = _
      rw [hold, Nat.add_assoc, Nat.add_comm 1 k]
  | txmitFault hpc htx =>
      simp only [History.recordOverlay, hpc, htx] at hn ⊢
      exact ⟨hn, h.length, h.ring, h.lengths, h.sent⟩
  | _ hpc =>
      simp only [History.recordOverlay, hpc] at hn ⊢
      exact ⟨hn, h.length, h.ring, h.lengths, h.sent⟩

/-- The overlay DMA has read a frame. -/
lemma FilmOk.finish (h : FilmOk s y) {d : OverlayDescriptor} {e : Engine OverlayDescriptor}
    (he : s.pipe.overlayDma.finish? = some (d, e))
    (hn : Handoff.Numbered { s.pipe with overlayDma := e } y.history) :
    FilmOk { s with pipe := { s.pipe with overlayDma := e } }
      { y with sent := y.sent ++ s.pipe.overlayDma.active.toList.map (readOut s.fb) } := by
  have hout := Engine.finish?_outstanding he
  obtain ⟨hactive, -, -⟩ := Engine.finish?_spec he
  refine ⟨hn, h.length, h.ring, fun d' hd' => h.lengths d' ?_, ?_⟩
  · rw [hout]
    exact List.mem_cons_of_mem _ hd'
  · have hsent := h.sent
    rw [hout, List.map_cons] at hsent
    rw [hactive, Option.toList_some, List.map_singleton, List.map_append, List.append_assoc]
    exact hsent

/-- A transfer of the render DMA writes to no buffer of the ring or of the overlay DMA. -/
lemma FilmOk.transfer (h : FilmOk s y) (hi : s.RingInv) (hfit : s.screen.Fits) {d : Descriptor}
    {e : Engine Descriptor} {idx : ℕ} (hidx : s.filling = some idx) (hd : d.InBuffer idx) :
    FilmOk { s with renderDma := e, fb := Danmaku.transfer s.area d s.fb } y := by
  have hphase := filling_phase hidx
  have hph := hi.basic.phase
  simp only [Handoff.PhaseOk, handoff, hphase] at hph
  obtain ⟨rfl, hsize⟩ := hph
  refine ⟨h.numbered, h.length, ?_, h.lengths, ?_⟩
  · intro k hk
    rw [h.ring k hk, readOut_transfer hd]
    · rfl
    · have hwr := s.pipe.ring.wrptr_eq
      have hlt := s.pipe.ring.rdptr_lt
      have hsize7 := s.pipe.ring.ringSize_lt
      simp only [frameIn, numFrameBuffer] at *
      omega
    · rw [frameIn, Screen.imgSize_toNat]
      exact hfit.1
  · rw [← h.sent]
    congr 1
    refine List.map_congr_left fun o ho => ?_
    rw [readOut_transfer hd ?_ (h.lengths o ho)]
    exact Handoff.filling_not_outstanding hi.basic hi.dma hphase o ho

/-- A commit appends a frame to the film. -/
lemma FilmOk.commit (h : FilmOk s y) {ring : Ring} (hring : s.pipe.ring.commitBuffer = some ring)
    (hn : Handoff.Numbered { s.pipe with ring := ring }
      (History.record s.handoff .commit y.history)) :
    FilmOk { s with pipe := { s.pipe with ring := ring }, mainPc := .resolution }
      { y with
        history := History.record s.handoff .commit y.history
        frames := y.frames ++ [readOut s.fb (s.frameIn s.pipe.ring.wrptr)] } := by
  obtain ⟨hne6, -, hrd, hsize⟩ := Ring.commitBuffer_spec hring
  have hle := h.numbered.size_le
  have hold : Handoff.oldest ring (History.record s.handoff .commit y.history)
      = Handoff.oldest s.pipe.ring y.history := by
    simp only [Handoff.oldest, History.record]
    omega
  refine ⟨hn, ?_, ?_, h.lengths, ?_⟩
  · rw [List.length_append, h.length]
    rfl
  · intro k hk
    simp only at hk
    simp only [hold, hrd]
    by_cases hlast : k = s.pipe.ring.ringSize
    · subst hlast
      have hnext : Handoff.oldest s.pipe.ring y.history + s.pipe.ring.ringSize
          = y.frames.length := by
        rw [h.length, Handoff.oldest]
        omega
      rw [hnext, ← Ring.wrptr_eq]
      exact List.getElem?_concat_length
    · exact Film.frame_append (h.ring k (by omega)) _
  · refine h.sent.trans (List.map_congr_left fun n hn => ?_)
    obtain ⟨x, hx⟩ : ∃ x, y.frame n = some x := by
      have hmem : y.frame n ∈ y.history.submitted.map y.frame := List.mem_map_of_mem hn
      rw [← h.sent, List.mem_append, List.mem_map, List.mem_map] at hmem
      rcases hmem with ⟨x, -, hx⟩ | ⟨d, -, hd⟩
      · exact ⟨x, hx.symm⟩
      · exact ⟨_, hd.symm⟩
    rw [hx, Film.frame_append hx]

/-- The main thread changes the ring by its commits only. -/
lemma pipe_of_mainMove (hcommit : ∀ i, s.mainPc ≠ .commit i) (hmove : MainMove inp s t) :
    t.pipe.ring = s.pipe.ring ∧ t.pipe.overlayDma = s.pipe.overlayDma ∧ t.fb = s.fb := by
  cases hmove with
  | subMain hpc =>
      rcases subMain_cases s with he | he | ⟨scr, blank, driver, -, -, -, he⟩ <;> rw [he] <;>
        exact ⟨rfl, rfl, rfl⟩
  | commit hpc => exact absurd hpc (hcommit _)
  | _ => exact ⟨rfl, rfl, rfl⟩

/-- A `CommitBuffer` of the protocol does not fail. -/
lemma committed_of_step {i : ℕ} (hb : s.handoff.Basic) (hpc : s.mainPc = .commit i)
    (hs : Step s (.main inp) t) : ∃ ring, s.pipe.ring.commitBuffer = some ring
      ∧ t = { s with pipe := { s.pipe with ring := ring }, mainPc := .resolution } := by
  have hph := hb.phase
  simp only [Handoff.PhaseOk, handoff, phase, hpc] at hph
  obtain ⟨ring, hring⟩ := Option.ne_none_iff_exists'.mp
    (Ring.commitBuffer_ne_none (r := s.pipe.ring) (by omega))
  have ht := (mainStep_of_step hs).2
  simp only [mainStep, hpc, hring, Option.some.injEq] at ht
  exact ⟨ring, hring, ht.symm⟩

/-- **The film is right** in every step of a session in which `render_running` is set. -/
theorem FilmOk.step (h : FilmOk s y) (hi : s.RingInv) (hr : RenderOk scr r₀ s) (hfit : scr.Fits)
    (hrun : s.Running a) (hs : Step s a t) : FilmOk t (s.film a y) := by
  have hin : s.phase ≠ .off := by
    intro hoff
    have hph := hi.basic.phase
    simp only [Handoff.PhaseOk, handoff, hoff] at hph
    exact absurd (hph.2.symm.trans hrun) (by simp)
  have hn : Handoff.Numbered t.pipe (s.record a y.history) :=
    h.numbered.step hi.basic hin (step_handoff hs)
  have hfits : s.screen.Fits := by
    rw [hr.screen]
    exact hfit
  cases sysMove_of_step hs with
  | main hmove =>
      by_cases hcommit : ∃ i, s.mainPc = .commit i
      · obtain ⟨i, hpc⟩ := hcommit
        have hlabel : ∀ inp, s.label (.main inp) = .commit := fun _ => by simp only [label, hpc]
        obtain ⟨ring, hring, rfl⟩ := committed_of_step hi.basic hpc hs
        simp only [film, record, hlabel] at hn ⊢
        exact h.commit hring hn
      · have hcommit : ∀ i, s.mainPc ≠ .commit i := fun i hpc => hcommit ⟨i, hpc⟩
        obtain ⟨hring, hdma, hfb⟩ := pipe_of_mainMove hcommit hmove
        have hscr : t.screen = s.screen :=
          (hr.main hi.basic hfit hrun hcommit hmove).screen.trans hr.screen.symm
        simp only [film, record, label_main hcommit] at hn ⊢
        exact h.congr hn hring hdma hfb hscr
  | overlay hp => exact h.overlay hi.basic hfits (overlayMove_of_step hp)
  | overlayDequeue he =>
      have hout := Engine.dequeue?_outstanding he
      refine ⟨hn, h.length, h.ring, ?_, ?_⟩
      · rw [hout]
        exact h.lengths
      · rw [hout]
        exact h.sent
  | overlayFinish he => exact h.finish he hn
  | renderDequeue he => exact h.congr hn rfl rfl rfl rfl
  | @renderFinish d e he =>
      have hmem : d ∈ s.renderDma.outstanding ++ s.toDraw := by
        rw [Engine.finish?_outstanding he]
        exact List.mem_cons_self
      obtain ⟨idx, hidx, hd⟩ := hr.writes d hmem
      exact h.transfer hi hfits hidx hd
  | video | sigint | sigintReturn => exact h.congr hn rfl rfl rfl rfl

/-! ### Whole sessions -/

lemma SessionReady.renderOk (h : s.SessionReady) : RenderOk s.screen s.renderer s := by
  have hpc := h.mainPc
  have hnone : s.filling = none := by simp only [filling, hpc]
  refine ⟨rfl, h.layers, h.blank, fun _ => rfl, fun idx hidx => absurd (hnone.symm.trans hidx)
    (by simp), fun idx hidx => absurd (hpc.symm.trans hidx) (by simp), ?_⟩
  intro d hd
  simp only [toDraw, hpc, List.append_nil, h.renderDma] at hd
  exact absurd hd List.not_mem_nil

lemma SessionReady.filmOk (h : s.SessionReady) : FilmOk s s.filmStart := by
  refine ⟨h.numbered, ?_, ?_, ?_, ?_⟩
  · rw [filmStart, List.length_map, List.length_range]
    rfl
  · intro k hk
    have hold : Handoff.oldest s.pipe.ring s.filmStart.history = 0 := Nat.sub_self _
    rw [hold, Nat.zero_add, Film.frame, Option.bind_some, filmStart, List.getElem?_map,
      List.getElem?_range hk]
    rfl
  · simp [h.overlayDma]
  · rw [h.overlayDma]
    rfl

/-- The layers of the next frame: reading, inserting and one cycle. -/
def Rendered (scr : Screen) (r r' : Renderer) : Prop :=
  ∃ inp calls, renderFrame scr inp r = some (r', calls)

/-- The invariant of a session: `rs` are the layers of the frames committed in it. -/
structure SessionOk (s₀ s : Sys) (y : Film) (rs : List Renderer) : Prop where
  ringInv : s.RingInv
  filmOk : FilmOk s y
  renderOk : RenderOk s₀.screen (rs.getLastD s₀.renderer) s
  chain : (s₀.renderer :: rs).IsChain (Rendered s₀.screen)
  frames : y.frames = s₀.filmStart.frames ++ rs.map (picture s₀.screen)

/-- Every step of a session keeps its invariant. -/
lemma SessionOk.step {rs : List Renderer} (h : SessionOk s₀ s y rs) (hfit : s₀.screen.Fits)
    (hrun : s.Running a) (hs : Step s a t) : ∃ rs, SessionOk s₀ t (s.film a y) rs := by
  have hring := h.ringInv.step (releasesTaken_of_running hrun) hs
  have hfilm := h.filmOk.step h.ringInv h.renderOk hfit hrun hs
  by_cases hlabel : s.label a = .commit
  · obtain ⟨inp, idx, rfl, hpc⟩ : ∃ inp idx, a = .main inp ∧ s.mainPc = .commit idx := by
      cases a with
      | main inp => cases hpc : s.mainPc <;> simp_all [label]
      | _ => exact absurd hlabel (by simp [label])
    obtain ⟨hpicture, hrendered⟩ := h.renderOk.committed hfit hpc
    have hidx : idx = s.pipe.ring.wrptr := by
      have hph := h.ringInv.basic.phase
      simp only [Handoff.PhaseOk, handoff, phase, hpc] at hph
      exact hph.1
    have hframes : (s.film (.main inp) y).frames
        = y.frames ++ [picture s₀.screen s.renderer] := by
      simp only [film, hlabel, ← hidx, hpicture]
    refine ⟨rs ++ [s.renderer], hring, hfilm, ?_, ?_, ?_⟩
    · rw [List.getLastD_concat]
      obtain ⟨ring, -, rfl⟩ := committed_of_step h.ringInv.basic hpc hs
      exact h.renderOk.commit hpc
    · rw [← List.cons_append, List.isChain_append]
      refine ⟨h.chain, List.isChain_singleton _, ?_⟩
      intro r hr r' hr'
      obtain rfl : s.renderer = r' := by simpa using hr'
      obtain rfl : rs.getLastD s₀.renderer = r := by
        simpa [List.getLast?_cons, List.getLastD_eq_getLast?] using hr
      exact hrendered
    · rw [hframes, h.frames, List.map_append, List.append_assoc, List.map_singleton]
  · refine ⟨rs, hring, hfilm, h.renderOk.step h.ringInv.basic hfit hrun hlabel hs, h.chain, ?_⟩
    rw [← h.frames]
    simp only [film]

/-- **The display gets the composed pictures in order, each one whole**: in a session of a size
whose frames fit their buffers, begun with both DMAs idle and the layer maps in front of a ready
blank screen, in which `render_running` stays set, under every interleaving, the frames that
`CommitBuffer` puts into the ring are the pictures of the layers, one frame of `RenderOnce` after
the other; and what the overlay DMA reads are these frames, beginning with the oldest one in the
ring, each followed by itself or by the next one. What is outstanding could be read at any
moment. -/
theorem film_in_order {as : List Action} (hready : s₀.SessionReady)
    (hrun : Run (Recorded (Guard Step Running) film) (s₀, s₀.filmStart) as (s, y)) :
    ∃ (rs : List Renderer) (ns : List ℕ),
      (s₀.renderer :: rs).IsChain (Rendered s₀.screen)
      ∧ y.frames = s₀.filmStart.frames ++ rs.map (picture s₀.screen)
      ∧ InOrder ns
      ∧ (y.sent ++ s.pipe.overlayDma.outstanding.map (readOut s.fb)).map some
        = ns.map (y.frames[·]?) := by
  obtain ⟨rs, h⟩ : ∃ rs, SessionOk s₀ s y rs := by
    have hstart : SessionOk s₀ s₀ s₀.filmStart [] :=
      ⟨hready.ringInv, hready.filmOk, hready.renderOk, List.isChain_singleton _,
        (List.append_nil _).symm⟩
    refine hrun.invariant (I := fun p => ∃ rs, SessionOk s₀ p.1 p.2 rs) ⟨[], hstart⟩ ?_
    rintro ⟨s, y⟩ a ⟨t, z⟩ ⟨rs, h⟩ ⟨⟨hs, hrun⟩, rfl⟩
    exact h.step hready.fits hrun hs
  obtain ⟨ns, hns, ho, -⟩ := h.filmOk.numbered.submitted
  have hsent := h.filmOk.sent
  rw [hns, List.map_map] at hsent
  refine ⟨rs, ns, h.chain, h.frames, ho, ?_⟩
  rw [List.map_append, List.map_map]
  exact hsent

/-- The oldest frame of the ring is sent. -/
theorem film_in_order_wrapped :
    ∃ s y as, Run (Recorded (Guard Step Running) film) (wrappedSession, wrappedSession.filmStart) as
        (s, y)
      ∧ y.sent ≠ [] ∧ ∃ (rs : List Renderer) (ns : List ℕ),
        (wrappedSession.renderer :: rs).IsChain (Rendered wrappedSession.screen)
        ∧ y.frames = wrappedSession.filmStart.frames ++ rs.map (picture wrappedSession.screen)
        ∧ InOrder ns
        ∧ (y.sent ++ s.pipe.overlayDma.outstanding.map (readOut s.fb)).map some
          = ns.map (y.frames[·]?) := by
  have hready : wrappedSession.SessionReady :=
    ⟨sessionStart_wrappedSession, rfl, by decide, (layersOk_initRenderer fun _ => 0#8).setArea _,
      fun _ hk => (smallScreen.initBlankScreen_filled (layerMap 30) _).apply_add hk⟩
  have hexec : ((exec (fun s => s.pipe.renderRunning) wrappedSession
      (List.replicate 5 .overlay ++ [.overlayDequeue])).map
        fun s => (s.pipe.overlayDma.active, s.pipe.renderRunning))
        = some (some ⟨5, 10200⟩, true) := by
    decide +kernel
  obtain ⟨s, hs, hobs⟩ := Option.map_eq_some_iff.mp hexec
  obtain ⟨hactive, hrunning⟩ := Prod.mk.inj hobs
  have hrun : Run (Guard Step Running) wrappedSession _ s := run_of_exec (fun _ _ h => h) hs
  obtain ⟨y, hrec⟩ := hrun.recorded film wrappedSession.filmStart
  have hfinish : Step s .overlayFinish { s with
      pipe := { s.pipe with overlayDma := { s.pipe.overlayDma with active := none } } } := by
    simp only [Step, Danmaku.step, Engine.finish?, hactive, Option.map_some]
  have hrec' := Run.snoc hrec (show Recorded (Guard Step Running) film (s, y) .overlayFinish
    (_, s.film .overlayFinish y) from ⟨⟨hfinish, hrunning⟩, rfl⟩)
  exact ⟨_, _, _, hrec', by simp [film, hactive], film_in_order hready hrec'⟩

end Sys

end Danmaku
