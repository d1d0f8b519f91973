import Danmaku.Overlay

/-!
The protocol by which the render thread hands frame buffers to the overlay thread: an abstract
model that keeps of the render thread only its accesses to the ring and the flag.

* `RenderPhase`: where the render thread stands in the protocol; `Handoff.Step`: the steps of
  the render thread in these terms, of the overlay thread, of the overlay DMA and of the signal
  handler, in any order.
* `Handoff.Basic`: what holds in every run: the phase's knowledge of the ring, the overlay
  thread's knowledge of it, and no failed assertion (`Basic.step`).
* `Handoff.DmaOk`: the descriptors of the overlay DMA name the oldest committed frame or the
  one released last. It needs that the overlay thread releases only what the DMA has taken
  (`Handoff.Taken`), and is kept by every step that meets this condition (`DmaOk.step`).
* `Handoff.filling_not_outstanding`: then no descriptor names the buffer being filled.
-/

namespace Danmaku

open DmaEngine

/-- The render thread's place in the protocol. -/
inductive RenderPhase
  /-- outside a session, no overlay thread exists -/
  | off
  /-- the overlay thread exists, `render_running` is not yet set -/
  | starting
  /-- in the loop of `Render`, without a buffer -/
  | idle
  /-- `RingSize() >= NUM_FRAME_BUFFER-1` has failed -/
  | tested
  /-- `GetEmptyBuffer` has answered this index, and `CommitBuffer` is still to come -/
  | filling (idx : ℕ)
  /-- `Render` has ended, the overlay thread is to be joined -/
  | stopped
  deriving DecidableEq, Repr

/-- The abstract state. -/
structure Handoff where
  pipe : Pipe
  phase : RenderPhase

/-- What an observer sees of a step: a step of the overlay thread with the `img_size` of its
session, a `CommitBuffer`, or something else. -/
inductive HandoffLabel
  | overlay (imgSize : BitVec 32)
  | commit
  | other
  deriving DecidableEq

/-- Before the first test of `render_running` that succeeds, or after the last. -/
def OverlayPc.Waiting (pc : OverlayPc) : Prop :=
  pc = .waitStart ∨ pc = .checkSigint ∨ pc = .done

namespace Handoff

/-- The steps of the protocol. -/
inductive Step : Handoff → HandoffLabel → Handoff → Prop
  | overlay {h : Handoff} {p : Pipe} {imgSize : BitVec 32}
      (hstep : overlayStep imgSize h.pipe = some p) :
      Step h (.overlay imgSize) { h with pipe := p }
  | dequeue {h : Handoff} {e : Engine OverlayDescriptor}
      (he : h.pipe.overlayDma.dequeue? = some e) :
      Step h .other { h with pipe := { h.pipe with overlayDma := e } }
  | finish {h : Handoff} {d : OverlayDescriptor} {e : Engine OverlayDescriptor}
      (he : h.pipe.overlayDma.finish? = some (d, e)) :
      Step h .other { h with pipe := { h.pipe with overlayDma := e } }
  | stutter {h : Handoff} : Step h .other h
  | spawn {h : Handoff} (hphase : h.phase = .off) :
      Step h .other ⟨{ h.pipe with overlayPc := .waitStart }, .starting⟩
  | raise {h : Handoff} (hphase : h.phase = .starting) :
      Step h .other ⟨{ h.pipe with renderRunning := true }, .idle⟩
  | test {h : Handoff} (hphase : h.phase = .idle)
      (hsize : h.pipe.ring.ringSize < numFrameBuffer - 1) :
      Step h .other { h with phase := .tested }
  | acquire {h : Handoff} (hphase : h.phase = .tested)
      (hidx : h.pipe.ring.getEmptyBuffer ≠ -1) :
      Step h .other { h with phase := .filling h.pipe.ring.getEmptyBuffer.toNat }
  | commit {h : Handoff} {idx : ℕ} {ring : Ring} (hphase : h.phase = .filling idx)
      (hring : h.pipe.ring.commitBuffer = some ring) :
      Step h .commit ⟨{ h.pipe with ring := ring }, .idle⟩
  | commitFault {h : Handoff} {idx : ℕ} (hphase : h.phase = .filling idx)
      (hring : h.pipe.ring.commitBuffer = none) :
      Step h .commit { h with pipe := { h.pipe with fault := some .commitBuffer } }
  | fault {h : Handoff} {f : Fault} (hf : f = .getFrameBuffer ∨ f = .queueOverrun) :
      Step h .other { h with pipe := { h.pipe with fault := some f } }
  | lower {h : Handoff} {phase : RenderPhase}
      (hphase : phase = h.phase ∨ phase = .idle ∧ (h.phase = .tested ∨ ∃ i, h.phase = .filling i)) :
      Step h .other ⟨{ h.pipe with renderRunning := false }, phase⟩
  | sigint {h : Handoff} : Step h .other { h with pipe := { h.pipe with sigint := true } }
  | stop {h : Handoff} (hphase : h.phase = .idle) :
      Step h .other ⟨{ h.pipe with renderRunning := false }, .stopped⟩
  | join {h : Handoff} (hphase : h.phase = .stopped) (hpc : h.pipe.overlayPc = .done) :
      Step h .other ⟨{ h.pipe with overlayPc := .absent }, .off⟩

/-! ### What holds in every run -/

/-- What the render thread knows in each phase. -/
def PhaseOk (h : Handoff) : Prop :=
  match h.phase with
  | .off => h.pipe.overlayPc = .absent ∧ h.pipe.renderRunning = false
  | .starting => h.pipe.overlayPc.Waiting ∧ h.pipe.renderRunning = false
  | .idle => True
  | .tested => h.pipe.ring.ringSize ≤ 5
  | .filling i => i = h.pipe.ring.wrptr ∧ h.pipe.ring.ringSize ≤ 5
  | .stopped => h.pipe.renderRunning = false

/-- The part of the invariant that no condition is needed for. -/
structure Basic (h : Handoff) : Prop where
  phase : h.PhaseOk
  overlay : h.pipe.OverlayOk
  fault : ¬ h.pipe.RingFault

variable {h h' : Handoff} {l : HandoffLabel} {imgSize : BitVec 32} {p q : Pipe}

/-- The overlay thread moves only the read pointer of the ring. -/
lemma overlayMove_ring (hmove : OverlayMove imgSize p q) :
    q.renderRunning = p.renderRunning ∧ q.ring.wrptr = p.ring.wrptr
      ∧ q.ring.ringSize ≤ p.ring.ringSize := by
  cases hmove with
  | release hpc hring =>
      obtain ⟨-, -, hwr, hsize⟩ := Ring.releaseBuffer_spec hring
      exact ⟨rfl, hwr, by simp only; omega⟩
  | _ => exact ⟨rfl, rfl, le_rfl⟩

/-- A waiting overlay thread that does not see `render_running` goes on waiting. -/
lemma waiting_of_move (hw : p.overlayPc.Waiting) (hrun : p.renderRunning = false)
    (hmove : OverlayMove imgSize p q) : q.overlayPc.Waiting := by
  cases hmove with
  | started hpc hrun' => exact absurd (hrun'.symm.trans hrun) (by simp)
  | asleep hpc hrun' => exact Or.inr (Or.inl rfl)
  | quit hpc => exact Or.inr (Or.inr rfl)
  | retry hpc => exact Or.inl rfl
  | _ hpc => simp_all [OverlayPc.Waiting]

lemma PhaseOk.overlay (hph : h.PhaseOk) (hmove : OverlayMove imgSize h.pipe p) :
    PhaseOk { h with pipe := p } := by
  obtain ⟨hrun, hwr, hsize⟩ := overlayMove_ring hmove
  unfold PhaseOk at hph ⊢
  cases hphase : h.phase with
  | off =>
      simp only [hphase] at hph ⊢
      cases hmove <;> simp_all
  | starting =>
      simp only [hphase] at hph ⊢
      exact ⟨waiting_of_move hph.1 hph.2 hmove, hrun.trans hph.2⟩
  | idle => trivial
  | tested =>
      simp only [hphase] at hph ⊢
      omega
  | filling i =>
      simp only [hphase] at hph ⊢
      exact ⟨hph.1.trans hwr.symm, by omega⟩
  | stopped =>
      simp only [hphase] at hph ⊢
      exact hrun.trans hph

/-- A ring in which the oldest frame stays and none leaves keeps what the overlay thread
knows. -/
lemma overlayOk_commit {ring : Ring} (hov : p.OverlayOk) (hring : p.ring.commitBuffer = some ring) :
    Pipe.OverlayOk { p with ring := ring } := by
  obtain ⟨-, -, hrd, hsize⟩ := Ring.commitBuffer_spec hring
  have hold : p.AtOldest → Pipe.AtOldest { p with ring := ring } := fun ⟨hidx, hs⟩ =>
    ⟨by simp only [hrd]; exact hidx, by simp only; omega⟩
  cases hpc : p.overlayPc <;> simp only [Pipe.OverlayOk, hpc] at hov ⊢
  case loopTest => exact fun hrun => hold (hov hrun)
  case txmit => exact hold hov
  case pollRunning => exact hold hov
  case pollPending => exact hold hov
  case sizeTest => exact hold hov
  case release => omega
  case refetch => omega

/-- Lowering the flag only weakens what the overlay thread has to know. -/
lemma overlayOk_lower (hov : p.OverlayOk) : Pipe.OverlayOk { p with renderRunning := false } := by
  cases hpc : p.overlayPc <;> simp only [Pipe.OverlayOk, hpc] at hov ⊢
  case loopTest => exact fun hrun => absurd hrun (by simp)
  all_goals exact hov

/-- A waiting overlay thread knows nothing yet. -/
lemma overlayOk_of_waiting (hw : p.overlayPc.Waiting) : p.OverlayOk := by
  rcases hw with hpc | hpc | hpc <;> simp only [Pipe.OverlayOk, hpc]

/-- **The phases, the knowledge of the two threads and the assertions** are kept by every
step. -/
theorem Basic.step (hb : h.Basic) (hstep : Step h l h') : h'.Basic := by
  obtain ⟨hph, hov, hfault⟩ := hb
  cases hstep with
  | overlay hstep =>
      have hmove := overlayMove_of_step hstep
      obtain ⟨hov', hfault'⟩ := hov.overlay hfault hmove
      exact ⟨hph.overlay hmove, hov', hfault'⟩
  | dequeue he => exact ⟨hph, hov, hfault⟩
  | finish he => exact ⟨hph, hov, hfault⟩
  | stutter => exact ⟨hph, hov, hfault⟩
  | spawn hphase =>
      simp only [PhaseOk, hphase] at hph
      exact ⟨⟨Or.inl rfl, hph.2⟩, trivial, hfault⟩
  | raise hphase =>
      simp only [PhaseOk, hphase] at hph
      exact ⟨trivial, overlayOk_of_waiting hph.1, hfault⟩
  | test hphase hsize =>
      exact ⟨by simp only [PhaseOk, numFrameBuffer] at *; omega, hov, hfault⟩
  | acquire hphase hidx =>
      simp only [PhaseOk, hphase] at hph
      have hempty : h.pipe.ring.getEmptyBuffer = h.pipe.ring.wrptr := by
        rw [Ring.getEmptyBuffer_eq, if_neg (by omega)]
      exact ⟨⟨by simp only [hempty, Int.toNat_natCast], hph⟩, hov, hfault⟩
  | commit hphase hring => exact ⟨trivial, overlayOk_commit hov hring, hfault⟩
  | commitFault hphase hring =>
      simp only [PhaseOk, hphase] at hph
      exact absurd hring (Ring.commitBuffer_ne_none (by omega))
  | fault hf =>
      refine ⟨hph, hov, ?_⟩
      rcases hf with rfl | rfl <;> simp [Pipe.RingFault]
  | lower hphase =>
      refine ⟨?_, overlayOk_lower hov, hfault⟩
      rcases hphase with rfl | ⟨rfl, -⟩
      · unfold PhaseOk at hph ⊢
        cases hphase : h.phase <;> simp_all
      · trivial
  | sigint => exact ⟨hph, hov, hfault⟩
  | stop hphase => exact ⟨rfl, overlayOk_lower hov, hfault⟩
  | join hphase hpc =>
      simp only [PhaseOk, hphase] at hph
      exact ⟨⟨rfl, hph⟩, trivial, hfault⟩

/-! ### The descriptors of the overlay DMA -/

/-- The overlay thread, having left its poll loop because `render_running` was cleared, does
not go on to `ReleaseBuffer` while a descriptor is waiting. -/
def Taken (h : Handoff) (l : HandoffLabel) : Prop :=
  ∀ imgSize, l = .overlay imgSize → h.pipe.overlayPc = .sizeTest →
    h.pipe.renderRunning = false → 2 < h.pipe.ring.ringSize → h.pipe.overlayDma.fifo = []

/-- What the overlay thread knows of the DMA: while it polls, the last descriptor it submitted is
that of the oldest frame, so an empty FIFO means that the DMA has taken this one. -/
def PollOk (p : Pipe) : Prop :=
  match p.overlayPc with
  | .pollRunning | .pollPending =>
      p.overlayDma.fifo = [] → ∀ d, p.overlayDma.active = some d → d.buf = p.ring.rdptr
  | .sizeTest =>
      (p.overlayDma.fifo = [] → ∀ d, p.overlayDma.active = some d → d.buf = p.ring.rdptr)
        ∧ (p.renderRunning = true → p.overlayDma.fifo = [])
  | .release =>
      p.overlayDma.fifo = [] ∧ ∀ d, p.overlayDma.active = some d → d.buf = p.ring.rdptr
  | _ => True

/-- Which buffers the descriptors of the overlay DMA name. -/
structure DmaOk (p : Pipe) : Prop where
  fifo : ∀ d ∈ p.overlayDma.fifo, d.buf = p.ring.rdptr
  filled : p.overlayDma.fifo ≠ [] → 1 ≤ p.ring.ringSize
  active : ∀ d, p.overlayDma.active = some d →
    d.buf = p.ring.rdptr ∧ 1 ≤ p.ring.ringSize ∨ d.buf = p.ring.lastReleased
  poll : PollOk p

/-- The steps of the overlay thread. -/
lemma DmaOk.overlay (hd : DmaOk p) (hov : p.OverlayOk)
    (hguard : p.overlayPc = .sizeTest → p.renderRunning = false → 2 < p.ring.ringSize →
      p.overlayDma.fifo = [])
    (hmove : OverlayMove imgSize p q) : DmaOk q := by
  obtain ⟨hfifo, hfilled, hactive, hpoll⟩ := hd
  cases hmove with
  | @submit dma ok hpc htx =>
      simp only [Pipe.OverlayOk, hpc] at hov
      obtain ⟨hidx, hsize⟩ := hov
      obtain ⟨-, -, -, ⟨-, rfl⟩ | ⟨-, rfl, hfull⟩⟩ := frameBufferTxmit_ok htx
      · refine ⟨?_, fun _ => hsize, hactive, ?_⟩
        · intro d hd
          simp only [Engine.fifo_submit, List.mem_append, List.mem_singleton] at hd
          rcases hd with hd | rfl
          · exact hfifo d hd
          · simp only [hidx, Int.toNat_natCast]
        · intro hempty
          exact absurd hempty (by simp)
      · refine ⟨hfifo, hfilled, hactive, ?_⟩
        intro hempty
        simp only at hempty
        rw [hempty] at hfull
        exact absurd hfull (by decide)
  | poll hpc hrun | pending hpc hpend =>
      simp only [PollOk, hpc] at hpoll
      exact ⟨hfifo, hfilled, hactive, hpoll⟩
  | pollStopped hpc hrun =>
      simp only [PollOk, hpc] at hpoll
      exact ⟨hfifo, hfilled, hactive, hpoll, fun hrun' => absurd (hrun'.symm.trans hrun) (by simp)⟩
  | taken hpc hpend =>
      simp only [PollOk, hpc] at hpoll
      exact ⟨hfifo, hfilled, hactive, hpoll, fun _ => hpend⟩
  | large hpc hsize =>
      simp only [PollOk, hpc] at hpoll
      have hempty : p.overlayDma.fifo = [] := by
        cases hrun : p.renderRunning with
        | true => exact hpoll.2 hrun
        | false => exact hguard hpc hrun hsize
      exact ⟨hfifo, hfilled, hactive, hempty, hpoll.1 hempty⟩
  | release hpc hring =>
      simp only [PollOk, hpc] at hpoll
      obtain ⟨-, hrd, -, -⟩ := Ring.releaseBuffer_spec hring
      have hlast : ∀ ring : Ring, ring.rdptr = (p.ring.rdptr + 1) % numFrameBuffer →
          ring.lastReleased = p.ring.rdptr := by
        intro ring hrd
        have := p.ring.rdptr_lt
        simp only [Ring.lastReleased, hrd, numFrameBuffer] at *
        omega
      refine ⟨?_, fun hne => absurd hpoll.1 hne, fun d hd => Or.inr ?_, trivial⟩
      · intro d hd
        rw [show p.overlayDma.fifo = [] from hpoll.1] at hd
        exact absurd hd (by simp)
      · exact (hpoll.2 d hd).trans (hlast _ hrd).symm
  | releaseFault hpc hring | txmitFault hpc htx =>
      exact ⟨hfifo, hfilled, hactive, hpoll⟩
  | _ => exact ⟨hfifo, hfilled, hactive, trivial⟩

/-- The DMA takes a descriptor. -/
lemma DmaOk.dequeue {e : Engine OverlayDescriptor} (hd : DmaOk p)
    (he : p.overlayDma.dequeue? = some e) : DmaOk { p with overlayDma := e } := by
  obtain ⟨hfifo, hfilled, hactive, hpoll⟩ := hd
  obtain ⟨hnone, d, hd, hcons⟩ := Engine.dequeue?_spec he
  have hbuf : d.buf = p.ring.rdptr := hfifo d (by rw [hcons]; exact List.mem_cons_self)
  have hsize : 1 ≤ p.ring.ringSize := hfilled (by rw [hcons]; simp)
  have htaken : ∀ x, e.active = some x → x.buf = p.ring.rdptr := by
    intro x hx
    obtain rfl := Option.some.inj (hd.symm.trans hx)
    exact hbuf
  refine ⟨fun x hx => hfifo x (by rw [hcons]; exact List.mem_cons_of_mem _ hx), fun _ => hsize,
    fun x hx => Or.inl ⟨htaken x hx, hsize⟩, ?_⟩
  cases hpc : p.overlayPc <;> simp only [PollOk, hpc] at hpoll ⊢
  case pollRunning => exact fun _ => htaken
  case pollPending => exact fun _ => htaken
  case sizeTest =>
    refine ⟨fun _ => htaken, ?_⟩
    intro hrun
    rw [hpoll.2 hrun] at hcons
    exact absurd hcons (by simp)
  case release =>
    rw [hpoll.1] at hcons
    exact absurd hcons (by simp)

/-- The DMA finishes a descriptor. -/
lemma DmaOk.finish {d : OverlayDescriptor} {e : Engine OverlayDescriptor} (hd : DmaOk p)
    (he : p.overlayDma.finish? = some (d, e)) : DmaOk { p with overlayDma := e } := by
  obtain ⟨hfifo, hfilled, hactive, hpoll⟩ := hd
  obtain ⟨-, hnone, hsame⟩ := Engine.finish?_spec he
  have hno : ∀ x, e.active ≠ some x := fun x => by simp [hnone]
  refine ⟨by simpa only [hsame] using hfifo, by simpa only [hsame] using hfilled,
    fun x hx => absurd hx (hno x), ?_⟩
  cases hpc : p.overlayPc <;> simp only [PollOk, hpc, hsame] at hpoll ⊢
  case pollRunning => exact fun _ x hx => absurd hx (hno x)
  case pollPending => exact fun _ x hx => absurd hx (hno x)
  case sizeTest => exact ⟨fun _ x hx => absurd hx (hno x), hpoll.2⟩
  case release => exact ⟨hpoll.1, fun x hx => absurd hx (hno x)⟩

/-- A commit leaves the descriptors' buffers where they were. -/
lemma DmaOk.commit {ring : Ring} (hd : DmaOk p) (hring : p.ring.commitBuffer = some ring) :
    DmaOk { p with ring := ring } := by
  obtain ⟨hfifo, hfilled, hactive, hpoll⟩ := hd
  obtain ⟨-, -, hrd, hsize⟩ := Ring.commitBuffer_spec hring
  have hlast : ring.lastReleased = p.ring.lastReleased := by simp only [Ring.lastReleased, hrd]
  refine ⟨by simpa only [hrd] using hfifo, fun hne => by simp only; omega, ?_, ?_⟩
  · intro d hd
    simp only [hrd, hlast]
    rcases hactive d hd with ⟨hbuf, -⟩ | hbuf
    · exact Or.inl ⟨hbuf, by omega⟩
    · exact Or.inr hbuf
  · cases hpc : p.overlayPc <;> simp only [PollOk, hpc, hrd] at hpoll ⊢ <;> exact hpoll

/-- **The descriptors stay with the buffers they name**, as long as the overlay thread releases
only what the DMA has taken. -/
theorem DmaOk.step (hb : h.Basic) (hd : DmaOk h.pipe) (hguard : h.Taken l) (hstep : Step h l h') :
    DmaOk h'.pipe := by
  cases hstep with
  | overlay hstep =>
      exact hd.overlay hb.overlay (hguard _ rfl) (overlayMove_of_step hstep)
  | dequeue he => exact hd.dequeue he
  | finish he => exact hd.finish he
  | commit hphase hring => exact hd.commit hring
  | lower hphase | stop hphase =>
      refine ⟨hd.fifo, hd.filled, hd.active, ?_⟩
      have hpoll := hd.poll
      cases hpc : h.pipe.overlayPc <;> simp only [PollOk, hpc] at hpoll ⊢
      case sizeTest => exact ⟨hpoll.1, fun hrun => absurd hrun (by simp)⟩
      all_goals exact hpoll
  | raise hphase =>
      have hph := hb.phase
      simp only [PhaseOk, hphase] at hph
      refine ⟨hd.fifo, hd.filled, hd.active, ?_⟩
      rcases hph.1 with hpc | hpc | hpc <;> simp only [PollOk, hpc]
  | spawn hphase => exact ⟨hd.fifo, hd.filled, hd.active, trivial⟩
  | join hphase hpc => exact ⟨hd.fifo, hd.filled, hd.active, trivial⟩
  | _ => exact ⟨hd.fifo, hd.filled, hd.active, hd.poll⟩

/-- **The buffer being filled is nowhere in the overlay DMA.** -/
theorem filling_not_outstanding (hb : h.Basic) (hd : DmaOk h.pipe) {i : ℕ}
    (hphase : h.phase = .filling i) :
    ∀ d ∈ h.pipe.overlayDma.outstanding, d.buf ≠ i := by
  have hph := hb.phase
  simp only [PhaseOk, hphase] at hph
  obtain ⟨rfl, hsize⟩ := hph
  intro d hdm
  rw [Engine.outstanding, List.mem_append, Option.mem_toList] at hdm
  rcases hdm with hact | hfifo
  · rcases hd.active d hact with ⟨hbuf, hone⟩ | hbuf
    · rw [hbuf]
      exact (Ring.wrptr_ne_rdptr hone).symm
    · rw [hbuf]
      exact (Ring.wrptr_ne_lastReleased hsize).symm
  · rw [hd.fifo d hfifo]
    exact (Ring.wrptr_ne_rdptr (hd.filled (List.ne_nil_of_mem hfifo))).symm

end Handoff

end Danmaku
