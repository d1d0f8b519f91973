import Danmaku.Moves

/-!
No frame buffer is filled while the overlay DMA may still read it.

* `Sys.filling`: the buffer that the render thread is filling.
* `SessionStart`: the render thread has just set `render_running`, over any ring.
* `Sys.RingInv`: the two invariants of the protocol together; `ringInv_of_run`: in every run
  that releases only what the DMA has taken they hold throughout.
* `filling_not_read`: **frame buffers are never torn** while `render_running` stays set.
-/

namespace Danmaku

open DmaEngine Transition

namespace Sys

/-- The buffer that the render thread is filling, from the `ClearScreen` of `RenderOnce` to
`CommitBuffer`. -/
def filling (s : Sys) : Option ℕ :=
  match s.mainPc with
  | .clearRunning idx | .clearSubmit idx | .feed idx | .drawRunning idx _ | .drawSubmit idx _ _
  | .drainRunning idx | .drainTest idx | .commit idx => some idx
  | _ => none

/-- `render_running` has just been set. The ring may be in any state, and no descriptor of the
overlay DMA is outstanding. -/
structure SessionStart (s : Sys) : Prop where
  mainPc : s.mainPc = .loopTest
  renderRunning : s.pipe.renderRunning = true
  overlayPc : s.pipe.overlayPc = .waitStart ∨ s.pipe.overlayPc = .checkSigint
  overlayDma : s.pipe.overlayDma.outstanding = []
  fault : s.pipe.fault = none

/-- `render_running` is set. -/
def Running (s : Sys) (_ : Action) : Prop := s.pipe.renderRunning = true

/-- The overlay thread does not pass its `RingSize() > 2` test while a descriptor is waiting, if
it has left its poll loop because `render_running` was cleared. -/
def ReleasesTaken (s : Sys) (a : Action) : Prop := s.handoff.Taken (s.label a)

/-- The invariants of the protocol. -/
structure RingInv (s : Sys) : Prop where
  basic : s.handoff.Basic
  dma : Handoff.DmaOk s.pipe

variable {s s₀ t : Sys} {a : Action} {as : List Action}

lemma filling_phase {idx : ℕ} (h : s.filling = some idx) : s.phase = .filling idx := by
  cases hpc : s.mainPc <;> simp_all [filling, phase]

/-- While `render_running` is set nobody leaves a poll loop on it. -/
lemma releasesTaken_of_running (h : s.Running a) : s.ReleasesTaken a := fun _ _ _ hrun _ =>
  absurd (hrun.symm.trans h) (by simp)

lemma RingInv.step (hi : s.RingInv) (hguard : s.ReleasesTaken a) (h : Step s a t) : t.RingInv :=
  ⟨hi.basic.step (step_handoff h), hi.dma.step hi.basic hguard (step_handoff h)⟩

/-- The invariants hold throughout a run that releases only what the DMA has taken. -/
lemma ringInv_of_run (h₀ : s₀.RingInv) (hrun : Run (Guard Step ReleasesTaken) s₀ as s) :
    s.RingInv :=
  hrun.invariant h₀ fun _ _ _ hi hstep => hi.step hstep.2 hstep.1

/-- An idle overlay DMA names no buffer. -/
lemma dmaOk_of_idle {p : Pipe} (hdma : p.overlayDma.outstanding = [])
    (hwait : p.overlayPc.Waiting ∨ p.overlayPc = .absent) : Handoff.DmaOk p := by
  simp only [Engine.outstanding, List.append_eq_nil_iff, Option.toList_eq_nil_iff] at hdma
  obtain ⟨hactive, hfifo⟩ := hdma
  refine ⟨by simp [hfifo], by simp [hfifo], by simp [hactive], ?_⟩
  rcases hwait with (hpc | hpc | hpc) | hpc <;> simp only [Handoff.PollOk, hpc]

lemma SessionStart.ringInv (h : s.SessionStart) : s.RingInv := by
  have hwait : s.pipe.overlayPc.Waiting := h.overlayPc.elim Or.inl fun hpc => Or.inr (Or.inl hpc)
  refine ⟨⟨?_, Handoff.overlayOk_of_waiting hwait, ?_⟩, dmaOk_of_idle h.overlayDma (Or.inl hwait)⟩
  · simp only [Handoff.PhaseOk, handoff, phase, h.mainPc]
  · simp [handoff, Pipe.RingFault, h.fault]

lemma ringInv_start (resolution : BitVec 32) (area fb : ℕ → Byte) :
    (start resolution area fb).RingInv :=
  ⟨basic_start resolution area fb, dmaOk_of_idle rfl (Or.inr rfl)⟩

/-- **Frame buffers are never torn**: in a session in which `render_running` stays set, started
over any ring with no descriptor outstanding, under every interleaving, the buffer being filled
is neither being read by the overlay DMA nor waiting in its FIFO, and no assertion of
`ReleaseBuffer`, `CommitBuffer` or on the index of `FrameBufferTxmit` fails. -/
theorem filling_not_read (hstart : s₀.SessionStart) (hrun : Run (Guard Step Running) s₀ as s) :
    (∀ idx, s.filling = some idx →
      (∀ d, s.pipe.overlayDma.active = some d → d.buf ≠ idx)
        ∧ ∀ d ∈ s.pipe.overlayDma.fifo, d.buf ≠ idx)
    ∧ s.pipe.fault ≠ some .releaseBuffer ∧ s.pipe.fault ≠ some .commitBuffer
    ∧ s.pipe.fault ≠ some .txmitIndex := by
  have hinv : s.RingInv := ringInv_of_run hstart.ringInv
    (hrun.mono fun _ _ _ h => ⟨h.1, releasesTaken_of_running h.2⟩)
  refine ⟨?_, fun h => hinv.basic.fault (Or.inl h),
    fun h => hinv.basic.fault (Or.inr (Or.inl h)), fun h => hinv.basic.fault (Or.inr (Or.inr h))⟩
  intro idx hidx
  have hout := Handoff.filling_not_outstanding hinv.basic hinv.dma (filling_phase hidx)
  simp only [Engine.outstanding, List.mem_append, Option.mem_toList] at hout
  exact ⟨fun d hd => hout d (Or.inl hd), fun d hd => hout d (Or.inr hd)⟩

lemma sessionStart_wrappedSession : wrappedSession.SessionStart :=
  ⟨rfl, rfl, Or.inl rfl, rfl, rfl⟩

/-- The overlay DMA reads buffer 5 while the render thread fills buffer 1. -/
theorem filling_not_read_wrapped :
    ∃ s as, Run (Guard Step Running) wrappedSession as s
      ∧ s.pipe.overlayDma.active = some ⟨5, 10200⟩ ∧ s.filling = some 1
      ∧ s.pipe.fault ≠ some .commitBuffer
      ∧ ∀ d, s.pipe.overlayDma.active = some d → d.buf ≠ 1 := by
  have hexec : ((exec (fun s => s.pipe.renderRunning) wrappedSession
      (List.replicate 5 .overlay ++ [.overlayDequeue] ++ mainSteps 8)).map
        fun s => (s.pipe.overlayDma.active, s.filling)) = some (some ⟨5, 10200⟩, some 1) := by
    decide +kernel
  obtain ⟨s, hs, hobs⟩ := Option.map_eq_some_iff.mp hexec
  obtain ⟨hactive, hfilling⟩ := Prod.mk.inj hobs
  have hrun : Run (Guard Step Running) wrappedSession _ s := run_of_exec (fun _ _ h => h) hs
  obtain ⟨hread, -, hcommit, -⟩ := filling_not_read sessionStart_wrappedSession hrun
  exact ⟨s, _, hrun, hactive, hfilling, hcommit, (hread 1 hfilling).1⟩

end Sys

end Danmaku
