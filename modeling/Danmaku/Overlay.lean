import Danmaku.Driver
import Danmaku.Ring

/-!
`Thread4Overlay` and what it shares with the render thread: the ring, the two flags and the
overlay DMA.

* `Pipe`: the shared state and the state of the overlay thread.
* `overlayStep`: the thread, one access to shared state at a time. A test of
  `render_running`, a ring function, a register access are one step each, so every
  interleaving with the other parties is a sequence of steps.
* `AtOldest`: `idx` names the oldest committed frame.
-/

namespace Danmaku

open DmaEngine

/-- The next step of the overlay thread. -/
inductive OverlayPc
  | absent
  | waitStart
  | checkSigint
  | firstRunning
  | firstFilled
  | loopTest
  | txmit
  | pollRunning
  | pollPending
  | sizeTest
  | release
  | refetch
  | done
  deriving DecidableEq, Repr

/-- The state that the two threads and the overlay DMA share. -/
structure Pipe where
  ring : Ring
  renderRunning : Bool
  sigint : Bool
  overlayPc : OverlayPc
  /-- `idx` of `Thread4Overlay` -/
  idx : ℤ
  overlayDma : Engine OverlayDescriptor
  fault : Option Fault

/-- One step of `Thread4Overlay`. -/
def overlayStep (imgSize : BitVec 32) (p : Pipe) : Option Pipe :=
  match p.overlayPc with
  | .absent => none
  -- while(!render_running){ if(sigint) return 0; pthread_yield(); }
  | .waitStart =>
      some { p with overlayPc := if p.renderRunning then .firstRunning else .checkSigint }
  | .checkSigint => some { p with overlayPc := if p.sigint then .done else .waitStart }
  -- while(render_running && (idx = GetFilledBuffer()) == -1) pthread_yield();
  | .firstRunning =>
      some { p with overlayPc := if p.renderRunning then .firstFilled else .loopTest }
  | .firstFilled =>
      some { p with
        idx := p.ring.getFilledBuffer
        overlayPc := if p.ring.getFilledBuffer = -1 then .firstRunning else .loopTest }
  -- for(;render_running;){ DanmakuHW_FrameBufferTxmit(hDriver, idx, img_size);
  | .loopTest => some { p with overlayPc := if p.renderRunning then .txmit else .done }
  | .txmit =>
      match frameBufferTxmit p.overlayDma p.idx imgSize with
      | .ok (dma, _) => some { p with overlayDma := dma, overlayPc := .pollRunning }
      | .error f => some { p with fault := some f }
  -- while(render_running && DanmakuHW_PendingTxmit(hDriver)) pthread_yield();
  | .pollRunning =>
      some { p with overlayPc := if p.renderRunning then .pollPending else .sizeTest }
  | .pollPending =>
      some { p with overlayPc := if pendingTxmit p.overlayDma then .pollRunning else .sizeTest }
  -- if(RingSize() > 2){ ReleaseBuffer(); idx = GetFilledBuffer(); } }
  | .sizeTest =>
      some { p with overlayPc := if p.ring.ringSize > 2 then .release else .loopTest }
  | .release =>
      match p.ring.releaseBuffer with
      | some ring => some { p with ring := ring, overlayPc := .refetch }
      | none => some { p with fault := some .releaseBuffer }
  | .refetch => some { p with idx := p.ring.getFilledBuffer, overlayPc := .loopTest }
  | .done => none

/-- What a step of the overlay thread can do, one constructor for each outcome of each access. -/
inductive OverlayMove (imgSize : BitVec 32) (p : Pipe) : Pipe → Prop
  | started (hpc : p.overlayPc = .waitStart) (hrun : p.renderRunning = true) :
      OverlayMove imgSize p { p with overlayPc := .firstRunning }
  | asleep (hpc : p.overlayPc = .waitStart) (hrun : p.renderRunning = false) :
      OverlayMove imgSize p { p with overlayPc := .checkSigint }
  | quit (hpc : p.overlayPc = .checkSigint) (hsig : p.sigint = true) :
      OverlayMove imgSize p { p with overlayPc := .done }
  | retry (hpc : p.overlayPc = .checkSigint) (hsig : p.sigint = false) :
      OverlayMove imgSize p { p with overlayPc := .waitStart }
  | first (hpc : p.overlayPc = .firstRunning) (hrun : p.renderRunning = true) :
      OverlayMove imgSize p { p with overlayPc := .firstFilled }
  | firstStopped (hpc : p.overlayPc = .firstRunning) (hrun : p.renderRunning = false) :
      OverlayMove imgSize p { p with overlayPc := .loopTest }
  | found (hpc : p.overlayPc = .firstFilled) (hidx : p.ring.getFilledBuffer ≠ -1) :
      OverlayMove imgSize p { p with idx := p.ring.getFilledBuffer, overlayPc := .loopTest }
  | notFound (hpc : p.overlayPc = .firstFilled) (hidx : p.ring.getFilledBuffer = -1) :
      OverlayMove imgSize p { p with idx := p.ring.getFilledBuffer, overlayPc := .firstRunning }
  | enter (hpc : p.overlayPc = .loopTest) (hrun : p.renderRunning = true) :
      OverlayMove imgSize p { p with overlayPc := .txmit }
  | leave (hpc : p.overlayPc = .loopTest) (hrun : p.renderRunning = false) :
      OverlayMove imgSize p { p with overlayPc := .done }
  | submit {dma : Engine OverlayDescriptor} {ok : Bool} (hpc : p.overlayPc = .txmit)
      (htx : frameBufferTxmit p.overlayDma p.idx imgSize = .ok (dma, ok)) :
      OverlayMove imgSize p { p with overlayDma := dma, overlayPc := .pollRunning }
  | txmitFault {f : Fault} (hpc : p.overlayPc = .txmit)
      (htx : frameBufferTxmit p.overlayDma p.idx imgSize = .error f) :
      OverlayMove imgSize p { p with fault := some f }
  | poll (hpc : p.overlayPc = .pollRunning) (hrun : p.renderRunning = true) :
      OverlayMove imgSize p { p with overlayPc := .pollPending }
  | pollStopped (hpc : p.overlayPc = .pollRunning) (hrun : p.renderRunning = false) :
      OverlayMove imgSize p { p with overlayPc := .sizeTest }
  | pending (hpc : p.overlayPc = .pollPending) (hpend : p.overlayDma.fifo ≠ []) :
      OverlayMove imgSize p { p with overlayPc := .pollRunning }
  | taken (hpc : p.overlayPc = .pollPending) (hpend : p.overlayDma.fifo = []) :
      OverlayMove imgSize p { p with overlayPc := .sizeTest }
  | large (hpc : p.overlayPc = .sizeTest) (hsize : 2 < p.ring.ringSize) :
      OverlayMove imgSize p { p with overlayPc := .release }
  | small (hpc : p.overlayPc = .sizeTest) (hsize : p.ring.ringSize ≤ 2) :
      OverlayMove imgSize p { p with overlayPc := .loopTest }
  | release {ring : Ring} (hpc : p.overlayPc = .release)
      (hring : p.ring.releaseBuffer = some ring) :
      OverlayMove imgSize p { p with ring := ring, overlayPc := .refetch }
  | releaseFault (hpc : p.overlayPc = .release) (hring : p.ring.releaseBuffer = none) :
      OverlayMove imgSize p { p with fault := some .releaseBuffer }
  | refetch (hpc : p.overlayPc = .refetch) :
      OverlayMove imgSize p { p with idx := p.ring.getFilledBuffer, overlayPc := .loopTest }

/-- A move that depends on `render_running`. -/
lemma overlayMove_flag {imgSize : BitVec 32} {p : Pipe} {pc pc' : OverlayPc}
    (h : p.renderRunning = true → OverlayMove imgSize p { p with overlayPc := pc })
    (h' : p.renderRunning = false → OverlayMove imgSize p { p with overlayPc := pc' }) :
    OverlayMove imgSize p { p with overlayPc := if p.renderRunning then pc else pc' } := by
  by_cases hrun : p.renderRunning = true
  · rw [if_pos hrun]
    exact h hrun
  · rw [if_neg hrun]
    exact h' (Bool.not_eq_true _ ▸ hrun)

/-- **The inversion of `overlayStep`.** -/
lemma overlayMove_of_step {imgSize : BitVec 32} {p q : Pipe} (h : overlayStep imgSize p = some q) :
    OverlayMove imgSize p q := by
  cases hpc : p.overlayPc <;> simp only [overlayStep, hpc, reduceCtorEq] at h
  case waitStart =>
    obtain rfl := Option.some.inj h
    exact overlayMove_flag (.started hpc) (.asleep hpc)
  case checkSigint =>
    obtain rfl := Option.some.inj h
    split
    · exact .quit hpc ‹_›
    · rename_i hsig
      exact .retry hpc (by simpa using hsig)
  case firstRunning =>
    obtain rfl := Option.some.inj h
    exact overlayMove_flag (.first hpc) (.firstStopped hpc)
  case firstFilled =>
    by_cases hidx : p.ring.getFilledBuffer = -1
    · rw [if_pos hidx] at h
      obtain rfl := Option.some.inj h
      exact .notFound hpc hidx
    · rw [if_neg hidx] at h
      obtain rfl := Option.some.inj h
      exact .found hpc hidx
  case loopTest =>
    obtain rfl := Option.some.inj h
    exact overlayMove_flag (.enter hpc) (.leave hpc)
  case txmit =>
    split at h
    · rename_i htx
      obtain rfl := Option.some.inj h
      exact .submit hpc htx
    · rename_i htx
      obtain rfl := Option.some.inj h
      have hmove : OverlayMove imgSize p _ := .txmitFault hpc htx
      rwa [hpc] at hmove
  case pollRunning =>
    obtain rfl := Option.some.inj h
    exact overlayMove_flag (.poll hpc) (.pollStopped hpc)
  case pollPending =>
    by_cases hpend : p.overlayDma.fifo = []
    · have hp : pendingTxmit p.overlayDma = false := Engine.pending_eq_false_iff.mpr hpend
      rw [hp] at h
      obtain rfl := Option.some.inj h
      exact .taken hpc hpend
    · have hp : pendingTxmit p.overlayDma = true := by
        rw [← Bool.not_eq_false]
        exact fun hf => hpend (Engine.pending_eq_false_iff.mp hf)
      rw [hp] at h
      obtain rfl := Option.some.inj h
      exact .pending hpc hpend
  case sizeTest =>
    by_cases hsize : p.ring.ringSize > 2
    · rw [if_pos hsize] at h
      obtain rfl := Option.some.inj h
      exact .large hpc hsize
    · rw [if_neg hsize] at h
      obtain rfl := Option.some.inj h
      exact .small hpc (by omega)
  case release =>
    split at h
    · rename_i hring
      obtain rfl := Option.some.inj h
      exact .release hpc hring
    · rename_i hring
      obtain rfl := Option.some.inj h
      have hmove : OverlayMove imgSize p _ := .releaseFault hpc hring
      rwa [hpc] at hmove
  case refetch =>
    obtain rfl := Option.some.inj h
    exact .refetch hpc

namespace Pipe

/-- `idx` is the oldest committed frame. -/
def AtOldest (p : Pipe) : Prop := p.idx = p.ring.rdptr ∧ 1 ≤ p.ring.ringSize

/-- What the overlay thread knows of the ring at each of its steps. -/
def OverlayOk (p : Pipe) : Prop :=
  match p.overlayPc with
  | .loopTest => p.renderRunning = true → p.AtOldest
  | .txmit | .pollRunning | .pollPending | .sizeTest => p.AtOldest
  | .release => 3 ≤ p.ring.ringSize
  | .refetch => 2 ≤ p.ring.ringSize
  | _ => True

/-- A fault that the ring protocol must exclude. -/
def RingFault (p : Pipe) : Prop :=
  p.fault = some .releaseBuffer ∨ p.fault = some .commitBuffer ∨ p.fault = some .txmitIndex

variable {p q : Pipe} {imgSize : BitVec 32}

/-- A filled ring answers its oldest buffer. -/
lemma getFilledBuffer_atOldest (h : 1 ≤ p.ring.ringSize) :
    p.ring.getFilledBuffer = p.ring.rdptr := by
  rw [Ring.getFilledBuffer_eq, if_neg (by omega)]

lemma one_le_ringSize_of_filled (h : p.ring.getFilledBuffer ≠ -1) : 1 ≤ p.ring.ringSize := by
  by_contra hsize
  exact h (by rw [Ring.getFilledBuffer_eq, if_pos (by omega)])

/-- The thread keeps what it knows of the ring, and fails neither `ReleaseBuffer` nor the index
assertion of `FrameBufferTxmit`. -/
lemma OverlayOk.overlay (h : p.OverlayOk) (hf : ¬ p.RingFault) (hmove : OverlayMove imgSize p q) :
    q.OverlayOk ∧ ¬ q.RingFault := by
  cases hmove with
  | found hpc hidx =>
      have hsize := one_le_ringSize_of_filled hidx
      exact ⟨fun _ => ⟨getFilledBuffer_atOldest hsize, hsize⟩, hf⟩
  | enter hpc hrun =>
      simp only [OverlayOk, hpc] at h
      exact ⟨h hrun, hf⟩
  | firstStopped hpc hrun =>
      exact ⟨fun hrun' => absurd (hrun'.symm.trans hrun) (by simp), hf⟩
  | submit hpc htx =>
      simp only [OverlayOk, hpc] at h
      exact ⟨h, hf⟩
  | txmitFault hpc htx =>
      simp only [OverlayOk, hpc] at h
      refine ⟨by simp only [OverlayOk, hpc]; exact h, ?_⟩
      intro hf'
      have hlt := p.ring.rdptr_lt
      obtain ⟨hidx, -⟩ := h
      rcases frameBufferTxmit_error htx with ⟨-, hlow | hhigh⟩ | rfl | rfl
      · omega
      · omega
      · simp [RingFault] at hf'
      · simp [RingFault] at hf'
  | poll hpc hrun | pollStopped hpc hrun | pending hpc hpend | taken hpc hpend =>
      simp only [OverlayOk, hpc] at h
      exact ⟨h, hf⟩
  | large hpc hsize => exact ⟨hsize, hf⟩
  | small hpc hsize =>
      simp only [OverlayOk, hpc] at h
      exact ⟨fun _ => h, hf⟩
  | release hpc hring =>
      simp only [OverlayOk, hpc] at h
      have := (Ring.releaseBuffer_spec hring).2.2.2
      exact ⟨by simp only [OverlayOk]; omega, hf⟩
  | releaseFault hpc hring =>
      simp only [OverlayOk, hpc] at h
      exact absurd hring (Ring.releaseBuffer_ne_none (by omega))
  | refetch hpc =>
      simp only [OverlayOk, hpc] at h
      have hsize : 1 ≤ p.ring.ringSize := by omega
      exact ⟨fun _ => ⟨getFilledBuffer_atOldest hsize, hsize⟩, hf⟩
  | _ => exact ⟨trivial, hf⟩

end Pipe

end Danmaku
