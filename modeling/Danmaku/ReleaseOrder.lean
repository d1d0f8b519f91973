import Danmaku.Tearing

/-!
When a buffer may be handed back before the overlay DMA has taken it.

`Thread4Overlay` leaves its poll loop when the FIFO is empty or when `render_running` was
cleared, and goes on to the same `RingSize() > 2` test in both cases. The sibling loops of
`Render` test `render_running` again and break.

* `Sys.SafeRelease`: no descriptor of the buffer about to be released is waiting, and none of
  the buffer being filled.
* `safeRelease_iff_releasesTaken`: over any number of sessions, the runs that are safe
  throughout are those in which the overlay thread never passes the size test with a waiting
  descriptor after `render_running` was cleared.
* `not_safeRelease_stalled`: a run that is not safe.
-/

namespace Danmaku

open DmaEngine Transition

namespace Sys

/-- When the overlay thread executes `ReleaseBuffer`, no descriptor of the released buffer is
waiting; and no descriptor of a buffer being filled is waiting. -/
def SafeRelease (s : Sys) : Prop :=
  (s.pipe.overlayPc = .release → ∀ d ∈ s.pipe.overlayDma.fifo, d.buf ≠ s.pipe.ring.rdptr)
    ∧ ∀ idx, s.filling = some idx → ∀ d ∈ s.pipe.overlayDma.fifo, d.buf ≠ idx

variable {s s₀ t : Sys} {a : Action} {as : List Action}

lemma RingInv.safeRelease (hi : s.RingInv) : s.SafeRelease := by
  refine ⟨?_, ?_⟩
  · intro hpc d hd
    have hpoll := hi.dma.poll
    simp only [Handoff.PollOk, hpc] at hpoll
    rw [hpoll.1] at hd
    exact absurd hd (by simp)
  · intro idx hidx d hd
    refine Handoff.filling_not_outstanding hi.basic hi.dma (filling_phase hidx) d ?_
    simp only [handoff, Engine.outstanding, List.mem_append]
    exact Or.inr hd

/-- A step that breaks the condition leads straight to an unsafe release. -/
lemma not_safeRelease_of_step (hi : s.RingInv) (h : Step s a t) (hbad : ¬ s.ReleasesTaken a) :
    ¬ t.SafeRelease := by
  simp only [ReleasesTaken, Handoff.Taken, not_forall] at hbad
  obtain ⟨imgSize, hl, hpc, hrun, hsize, hfifo⟩ := hbad
  cases sysMove_of_step h with
  | overlay hp =>
      simp only [handoff] at hpc hsize hfifo
      simp only [overlayStep, hpc, if_pos hsize] at hp
      obtain rfl := Option.some.inj hp
      obtain ⟨d, hd⟩ := List.exists_mem_of_ne_nil _ hfifo
      exact fun hsafe => hsafe.1 rfl d hd (hi.dma.fifo d hd)
  | main hmove =>
      simp only [label] at hl
      split at hl <;> exact absurd hl (by simp)
  | _ => exact absurd hl (by simp [label])

/-- **When buffers are handed back in time**: the runs from the start of the program all of whose
states are safe are exactly the runs in which the overlay thread, having left its poll loop
because `render_running` was cleared, passes the `RingSize() > 2` test only with an empty
descriptor FIFO. -/
theorem safeRelease_iff_releasesTaken (resolution : BitVec 32) (area fb : ℕ → Byte)
    (as : List Action) (s : Sys) :
    Run (fun s a t => Step s a t ∧ t.SafeRelease) (start resolution area fb) as s
      ↔ Run (Guard Step ReleasesTaken) (start resolution area fb) as s :=
  Run.keeps_iff_guard (ringInv_start resolution area fb)
    (fun _ _ _ hi hguard h => hi.step hguard h) (fun _ hi => hi.safeRelease)
    fun _ _ _ hi hbad h => not_safeRelease_of_step hi h hbad

/-! ### A run that is not safe -/

/-- The overlay DMA stalls, three frames are committed, the video input changes its size. -/
def stalledRun : List Action :=
  mainSteps 14 ++ quietFrameSteps ++ mainSteps 1 ++ List.replicate 5 .overlay
    ++ quietFrameSteps ++ mainSteps 1 ++ quietFrameSteps ++ [.video (sizeRegister 104 100)]
    ++ mainSteps 2 ++ List.replicate 2 .overlay

/-- **A buffer is handed back while its descriptor is waiting**: the overlay thread reaches
`ReleaseBuffer` for buffer 0, which the stalled DMA has not taken. -/
theorem not_safeRelease_stalled :
    ∃ s, Run Step (start (sizeRegister 100 100) (fun _ => 0#8) fun _ => 0#8) stalledRun s
      ∧ ¬ s.SafeRelease := by
  have hexec : ((exec (fun _ => true) (start (sizeRegister 100 100) (fun _ => 0#8) fun _ => 0#8)
      stalledRun).map fun s => (s.pipe.overlayPc, s.pipe.ring.rdptr, s.pipe.overlayDma.fifo))
        = some (.release, 0, [⟨0, 10200⟩]) := by decide +kernel
  obtain ⟨s, hs, hobs⟩ := Option.map_eq_some_iff.mp hexec
  simp only [Prod.mk.injEq] at hobs
  obtain ⟨hpc, hrd, hfifo⟩ := hobs
  refine ⟨s, run_of_steps hs, ?_⟩
  intro hsafe
  refine hsafe.1 hpc ⟨0, 10200⟩ ?_ hrd.symm
  rw [hfifo]
  exact List.mem_singleton_self _

end Sys

end Danmaku
