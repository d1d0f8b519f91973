import Mathlib.Data.Prod.Lex
import Danmaku.Fairness

/-!
Frames keep flowing while a session goes on.

* `Pipe.releaseRank`: what is left until the overlay thread releases a frame, with the party whose
  turn it is; `releaseRank_step`: every step of the system lowers it or leaves it alone.
* `Sys.frameRank`, `frameRank_step`: the same until the main thread commits one. Where the ring is
  full the main thread waits for the overlay thread, where a DMA is busy for the DMA.
* `FairRun.frames_keep_flowing`: **frames are committed and released again and again**, as long as
  `render_running` stays up, no assertion fails and no push overruns a queue.
-/

namespace Danmaku

open DmaEngine Transition

/-! ### Up to the next release -/

namespace Pipe

/-- What is left until the overlay thread calls `ReleaseBuffer`, with enough frames in the ring. -/
def releaseRank (p : Pipe) : ℕ :=
  match p.overlayPc with
  | .release | .absent | .done => 0
  | .sizeTest => 1
  | .pollPending => if p.overlayDma.fifo = [] then 2 else p.overlayDma.work + 4
  | .pollRunning => if p.overlayDma.fifo = [] then 3 else p.overlayDma.work + 4
  | .txmit => p.overlayDma.work + 7
  | .loopTest => p.overlayDma.work + 8
  | .refetch | .firstFilled => p.overlayDma.work + 9
  | .firstRunning => p.overlayDma.work + 10
  | .waitStart => p.overlayDma.work + 11
  | .checkSigint => p.overlayDma.work + 12

/-- Whose turn it is: `PendingTxmit` waits for the overlay DMA. -/
def releaseHelper (p : Pipe) : Party :=
  match p.overlayPc with
  | .pollRunning | .pollPending => if p.overlayDma.fifo = [] then .overlay else .overlayDma
  | _ => .overlay

variable {p q : Pipe} {imgSize : BitVec 32}

lemma releaseHelper_eq (p : Pipe) : p.releaseHelper = .overlay ∨ p.releaseHelper = .overlayDma := by
  unfold releaseHelper
  split
  · split <;> simp
  · split <;> simp
  · exact Or.inl rfl

/-- The overlay thread gets on, unless it waits for its DMA. -/
lemma releaseRank_overlay (hmove : OverlayMove imgSize p q) (hrun : p.renderRunning = true)
    (hsig : p.sigint = false) (hsize : 3 ≤ p.ring.ringSize) (hfault : q.fault = none) :
    p.overlayPc = .release ∨ q.ring = p.ring ∧ (q.releaseRank < p.releaseRank
      ∨ q.releaseRank = p.releaseRank ∧ q.releaseHelper = p.releaseHelper
        ∧ p.releaseHelper = .overlayDma) := by
  cases hmove with
  | submit hpc htx =>
      refine Or.inr ⟨rfl, Or.inl ?_⟩
      obtain ⟨-, -, -, ⟨-, rfl⟩ | ⟨-, rfl, -⟩⟩ := frameBufferTxmit_ok htx
      · simp [releaseRank, hpc]
      · simp only [releaseRank, hpc]
        split <;> omega
  | release hpc | releaseFault hpc => exact Or.inl hpc
  | notFound hpc hidx =>
      rw [getFilledBuffer_atOldest (by omega)] at hidx
      omega
  | poll hpc | pending hpc =>
      refine Or.inr ⟨rfl, ?_⟩
      by_cases hfifo : p.overlayDma.fifo = [] <;> simp_all [releaseRank, releaseHelper]
  | small hpc hsmall => omega
  | txmitFault hpc htx => simp at hfault
  | asleep hpc hrun' | firstStopped hpc hrun' | leave hpc hrun' | pollStopped hpc hrun' =>
      exact absurd (hrun.symm.trans hrun') (by simp)
  | quit hpc hsig' => exact absurd (hsig.symm.trans hsig') (by simp)
  | taken hpc hfifo => exact Or.inr ⟨rfl, Or.inl (by simp [releaseRank, hpc, hfifo])⟩
  | _ hpc => exact Or.inr ⟨rfl, Or.inl (by simp [releaseRank, hpc])⟩

/-- The overlay DMA gets on. -/
lemma releaseRank_dma {e : Engine OverlayDescriptor} (hwork : e.work + 1 = p.overlayDma.work)
    (hfifo : p.overlayDma.fifo = [] → e.fifo = []) :
    { p with overlayDma := e }.releaseRank < p.releaseRank
      ∨ { p with overlayDma := e }.releaseRank = p.releaseRank
        ∧ { p with overlayDma := e }.releaseHelper = p.releaseHelper
        ∧ p.releaseHelper = .overlay := by
  cases hpc : p.overlayPc
  case pollPending | pollRunning =>
    by_cases hempty : p.overlayDma.fifo = []
    · simp [releaseRank, releaseHelper, hpc, hempty, hfifo hempty]
    · simp only [releaseRank, hpc, hempty, if_false]
      split <;> omega
  all_goals simp [releaseRank, releaseHelper, hpc]
  all_goals omega

end Pipe

namespace Sys

/-- A session goes on. -/
structure Streaming (s : Sys) : Prop where
  running : s.pipe.renderRunning = true
  fault : s.pipe.fault = none
  uninterrupted : ¬ s.Interrupted

variable {s t : Sys} {a : Action} {inp : FrameInput}

lemma Streaming.sigint (h : s.Streaming) : s.pipe.sigint = false :=
  Bool.eq_false_of_not_eq_true fun hsig => h.uninterrupted (Or.inr hsig)

/-- The main thread is in the loop of `Render`. -/
lemma Streaming.phase_ne (h : s.Streaming) (hb : s.handoff.Basic) :
    s.phase ≠ .off ∧ s.phase ≠ .starting ∧ s.phase ≠ .stopped := by
  have hph := hb.phase
  have hrun := h.running
  refine ⟨fun hphase => ?_, fun hphase => ?_, fun hphase => ?_⟩ <;>
    simp_all [Handoff.PhaseOk, handoff]

/-- The overlay thread is there. -/
lemma Streaming.overlay_ne (h : s.Streaming) (hb : s.handoff.Basic) (ha : s.handoff.Alive) :
    s.pipe.overlayPc ≠ .absent ∧ s.pipe.overlayPc ≠ .done := by
  refine ⟨ha.spawned (h.phase_ne hb).1, fun hdone => ?_⟩
  rcases ha.done hdone with hsig | ⟨hrun, -⟩
  · exact h.uninterrupted (Or.inr hsig)
  · exact absurd (h.running.symm.trans hrun) (by simp)

/-- The main thread changes the ring only by `CommitBuffer`. -/
lemma ring_of_main (hmove : MainMove inp s t) :
    t.pipe.ring = s.pipe.ring
      ∨ (∃ idx, s.mainPc = .commit idx) ∧ t.pipe.ring.ringSize = s.pipe.ring.ringSize + 1 := by
  cases hmove with
  | @commit idx ring hpc hring =>
      exact Or.inr ⟨⟨idx, hpc⟩, (Ring.commitBuffer_spec hring).2.2.2⟩
  | subMain hpc => exact Or.inl (by rw [subMain_pipe])
  | _ => exact Or.inl rfl

/-- **Every step of the system brings the next release closer or leaves it where it is**, and then
it is not that of the party whose turn it is. -/
lemma releaseRank_step (hb : s.handoff.Basic) (h : s.Streaming) (h' : t.Streaming)
    (hs : Step s a t) (hsize : 3 ≤ s.pipe.ring.ringSize) :
    a = .overlay ∧ s.pipe.overlayPc = .release
      ∨ s.pipe.ring.ringSize ≤ t.pipe.ring.ringSize
        ∧ (t.pipe.releaseRank < s.pipe.releaseRank
          ∨ t.pipe.releaseRank = s.pipe.releaseRank
            ∧ t.pipe.releaseHelper = s.pipe.releaseHelper
            ∧ a.party ≠ s.pipe.releaseHelper) := by
  have hkeep : ∀ {p : Party}, p ≠ .overlay → p ≠ .overlayDma → p ≠ s.pipe.releaseHelper := by
    intro p hp hp'
    rcases s.pipe.releaseHelper_eq with heq | heq <;> rwa [heq]
  cases sysMove_of_step hs with
  | @main inp _ hmove =>
      obtain ⟨hoff, -, hstopped⟩ := h.phase_ne hb
      obtain ⟨hpc, hdma⟩ := overlay_of_main hoff hstopped hmove
      refine Or.inr ⟨?_, Or.inr ⟨?_, ?_, hkeep (by simp [Action.party]) (by simp [Action.party])⟩⟩
      · rcases ring_of_main hmove with hring | ⟨-, hmore⟩
        · rw [hring]
        · omega
      · simp only [Pipe.releaseRank, hpc, hdma]
      · simp only [Pipe.releaseHelper, hpc, hdma]
  | overlay hp =>
      rcases Pipe.releaseRank_overlay (overlayMove_of_step hp) h.running h.sigint hsize h'.fault
        with hpc | ⟨hring, hless | ⟨hrank, hhelper, hdma⟩⟩
      · exact Or.inl ⟨rfl, hpc⟩
      · exact Or.inr ⟨by simp only [hring, le_refl], Or.inl hless⟩
      · exact Or.inr ⟨by simp only [hring, le_refl], Or.inr ⟨hrank, hhelper, by
          simp [hdma, Action.party]⟩⟩
  | overlayDequeue he =>
      have hfifo := (Engine.dequeue?_spec he).2
      rcases Pipe.releaseRank_dma (Engine.work_dequeue he) (fun hempty => by simp [hempty] at hfifo)
        with hless | ⟨hrank, hhelper, hoverlay⟩
      · exact Or.inr ⟨le_rfl, Or.inl hless⟩
      · exact Or.inr ⟨le_rfl, Or.inr ⟨hrank, hhelper, by simp [hoverlay, Action.party]⟩⟩
  | overlayFinish he =>
      rcases Pipe.releaseRank_dma (Engine.work_finish he)
          (fun hempty => (Engine.finish?_spec he).2.2.trans hempty)
        with hless | ⟨hrank, hhelper, hoverlay⟩
      · exact Or.inr ⟨le_rfl, Or.inl hless⟩
      · exact Or.inr ⟨le_rfl, Or.inr ⟨hrank, hhelper, by simp [hoverlay, Action.party]⟩⟩
  | sigint => exact absurd h'.running (by simp)
  | _ =>
      exact Or.inr ⟨le_rfl, Or.inr ⟨rfl, rfl, hkeep (by simp [Action.party])
        (by simp [Action.party])⟩⟩

/-! ### Up to the next commit -/

/-- What is left until the main thread calls `CommitBuffer`: where it stands, and what it has to do
or to wait for there. -/
def frameRank (s : Sys) : ℕ ×ₗ ℕ :=
  toLex <| match s.mainPc with
    | .drainTest _ => (1, if renderDMAIdle s.renderDma then 0 else s.renderDma.work + 1)
    | .drainRunning _ => (1, s.renderDma.work + 1)
    | .drawRunning _ rest => (2, s.renderDma.work + 5 * rest.length)
    | .drawSubmit _ _ rest =>
        (2, s.renderDma.work + 5 * rest.length
          + if s.renderDma.full renderDepth then 5 else 4)
    | .feed _ => (3, 0)
    | .clearRunning _ => (4, s.renderDma.work + 1)
    | .clearSubmit _ =>
        (4, s.renderDma.work + if s.renderDma.full renderDepth then 1 else 0)
    | .emptyBreak _ => (5, 0)
    | .emptyTest => (6, 0)
    | .emptyRunning => (7, 0)
    | .ringBreak => (8, 0)
    | .ringTest => if s.pipe.ring.ringSize < 6 then (9, 0) else (11, s.pipe.releaseRank)
    | .ringRunning => if s.pipe.ring.ringSize < 6 then (10, 0) else (11, s.pipe.releaseRank)
    | .loopTest => (12, 0)
    | .resolution => (13, 0)
    | _ => (0, 0)

/-- Whose turn it is. -/
def frameHelper (s : Sys) : Party :=
  match s.mainPc with
  | .drainTest _ | .drainRunning _ =>
      if renderDMAIdle s.renderDma then .main else .renderDma
  | .drawRunning _ (_ :: _) | .drawSubmit _ _ _ | .clearRunning _ | .clearSubmit _ =>
      if s.renderDma.full renderDepth then .renderDma else .main
  | .ringTest | .ringRunning => if s.pipe.ring.ringSize < 6 then .main else s.pipe.releaseHelper
  | _ => .main

/-- The main thread gets on, unless it waits. -/
lemma frameRank_main (hb : s.handoff.Basic) (h : s.Streaming) (h' : t.Streaming)
    (hs : mainStep inp s = some t) :
    (∃ idx, s.mainPc = .commit idx) ∨ t.frameRank < s.frameRank
      ∨ t.frameRank = s.frameRank ∧ t.frameHelper = s.frameHelper ∧ s.frameHelper ≠ .main := by
  have hphase := h.phase_ne hb
  have hrun := h.running
  cases hpc : s.mainPc <;> simp only [mainStep, hpc, hrun, if_true] at hs
  case commit idx => exact Or.inl ⟨idx, rfl⟩
  case loop | subMain | create | install | clearing | clearingSubmit | waitIdle | setRunning | join
      | exited => simp [phase, hpc] at hphase
  case stop | finish =>
    obtain rfl := Option.some.inj hs
    exact absurd h'.running (by simp)
  case loopTest =>
    obtain rfl := Option.some.inj hs
    refine Or.inr (Or.inl ?_)
    by_cases hroom : s.pipe.ring.ringSize < 6 <;>
      simp [frameRank, hpc, hroom, Prod.Lex.toLex_lt_toLex]
  case ringRunning =>
    obtain rfl := Option.some.inj hs
    right
    by_cases hroom : s.pipe.ring.ringSize < 6
    · simp [frameRank, hpc, hroom, Prod.Lex.toLex_lt_toLex]
    · rcases s.pipe.releaseHelper_eq with heq | heq <;>
        simp [frameRank, frameHelper, hpc, hroom, heq]
  case ringTest =>
    right
    by_cases hroom : s.pipe.ring.ringSize < 6
    · rw [if_neg (by simp only [numFrameBuffer]; omega)] at hs
      obtain rfl := Option.some.inj hs
      simp [frameRank, hpc, hroom, Prod.Lex.toLex_lt_toLex]
    · rw [if_pos (by simp only [numFrameBuffer]; omega)] at hs
      obtain rfl := Option.some.inj hs
      rcases s.pipe.releaseHelper_eq with heq | heq <;>
        simp [frameRank, frameHelper, hpc, hroom, heq]
  case ringBreak | emptyRunning =>
    obtain rfl := Option.some.inj hs
    exact Or.inr (Or.inl (by simp [frameRank, hpc, Prod.Lex.toLex_lt_toLex]))
  case emptyTest =>
    have hempty : s.pipe.ring.getEmptyBuffer ≠ -1 := by
      have hph := hb.phase
      simp only [Handoff.PhaseOk, handoff, phase, hpc, hrun, if_true] at hph
      rw [Ring.getEmptyBuffer_eq, if_neg (by omega)]
      omega
    rw [if_neg hempty] at hs
    obtain rfl := Option.some.inj hs
    exact Or.inr (Or.inl (by simp [frameRank, hpc, Prod.Lex.toLex_lt_toLex]))
  case emptyBreak idx =>
    split at hs
    · obtain rfl := Option.some.inj hs
      exact Or.inr (Or.inl (by simp [frameRank, hpc, Prod.Lex.toLex_lt_toLex]))
    · obtain rfl := Option.some.inj hs
      exact absurd h'.fault (by simp)
  case feed idx =>
    split at hs
    · obtain rfl := Option.some.inj hs
      exact absurd h'.fault (by simp)
    · obtain rfl := Option.some.inj hs
      exact Or.inr (Or.inl (by simp [frameRank, hpc, Prod.Lex.toLex_lt_toLex]))
  case resolution =>
    obtain rfl := Option.some.inj hs
    refine Or.inr (Or.inl ?_)
    split <;> simp_all [frameRank, Prod.Lex.toLex_lt_toLex]
  case clearRunning idx =>
    obtain rfl := Option.some.inj hs
    right
    cases hfull : s.renderDma.full renderDepth <;>
      simp_all [frameRank, frameHelper, Prod.Lex.toLex_lt_toLex]
  case clearSubmit idx =>
    right
    cases hfull : s.renderDma.full renderDepth <;>
      simp only [renderStartDMA, hfull, if_true, Bool.false_eq_true, if_false] at hs <;>
      obtain rfl := Option.some.inj hs <;>
      simp [frameRank, frameHelper, hpc, hfull, Prod.Lex.toLex_lt_toLex]
  case drawRunning idx rest =>
    right
    cases rest with
    | nil =>
        obtain rfl := Option.some.inj hs
        exact Or.inl (by simp [frameRank, hpc, Prod.Lex.toLex_lt_toLex])
    | cons d rest =>
        obtain rfl := Option.some.inj hs
        cases hfull : s.renderDma.full renderDepth <;>
          simp [frameRank, frameHelper, hpc, hfull, Prod.Lex.toLex_lt_toLex] <;> omega
  case drawSubmit idx d rest =>
    right
    cases hfull : s.renderDma.full renderDepth <;>
      simp only [renderStartDMA, hfull, if_true, Bool.false_eq_true, if_false] at hs <;>
      obtain rfl := Option.some.inj hs <;>
      simp [frameRank, frameHelper, hpc, hfull, Prod.Lex.toLex_lt_toLex] <;> omega
  case drainRunning idx =>
    obtain rfl := Option.some.inj hs
    right
    cases hidle : renderDMAIdle s.renderDma <;>
      simp_all [frameRank, frameHelper, Prod.Lex.toLex_lt_toLex]
  case drainTest idx =>
    obtain rfl := Option.some.inj hs
    right
    cases hidle : renderDMAIdle s.renderDma <;>
      simp_all [frameRank, frameHelper, Prod.Lex.toLex_lt_toLex]

/-- The render DMA gets on. -/
lemma frameRank_renderDma {e : Engine Descriptor} {fb : ℕ → Byte}
    (hwork : e.work + 1 = s.renderDma.work) (hfull : e.fifo.length ≤ s.renderDma.fifo.length) :
    { s with renderDma := e, fb := fb }.frameRank < s.frameRank
      ∨ { s with renderDma := e, fb := fb }.frameRank = s.frameRank
        ∧ { s with renderDma := e, fb := fb }.frameHelper = s.frameHelper
        ∧ s.frameHelper ≠ .renderDma := by
  have hbusy : renderDMAIdle s.renderDma = false :=
    Bool.eq_false_of_not_eq_true fun hidle => by
      have hzero := Engine.work_eq_zero_iff.mpr (Engine.idle_iff.mp hidle)
      omega
  cases hpc : s.mainPc
  case drainTest idx =>
    left
    cases hidle : renderDMAIdle e
    · simp [frameRank, hpc, hbusy, hidle, Prod.Lex.toLex_lt_toLex]
      omega
    · simp [frameRank, hpc, hbusy, hidle, Prod.Lex.toLex_lt_toLex]
  case drawSubmit | clearSubmit =>
    left
    simp only [frameRank, hpc, Prod.Lex.toLex_lt_toLex, Engine.full, decide_eq_true_eq]
    right
    refine ⟨trivial, ?_⟩
    split <;> split <;> omega
  case drainRunning | drawRunning | clearRunning =>
    left
    simp [frameRank, hpc, Prod.Lex.toLex_lt_toLex]
    omega
  case ringTest | ringRunning =>
    right
    rcases s.pipe.releaseHelper_eq with heq | heq
    all_goals
      simp only [frameRank, frameHelper, hpc, heq, true_and]
      split <;> simp
  all_goals exact Or.inr (by simp [frameRank, frameHelper, hpc])

/-- The overlay thread and its DMA get on. -/
lemma frameRank_pipe {p : Pipe} {q : Party} (hsize : p.ring.ringSize ≤ s.pipe.ring.ringSize)
    (hq : q = .overlay ∨ q = .overlayDma)
    (hrelease : 3 ≤ s.pipe.ring.ringSize → p.ring.ringSize < 6 ∨ p.releaseRank < s.pipe.releaseRank
      ∨ p.releaseRank = s.pipe.releaseRank ∧ p.releaseHelper = s.pipe.releaseHelper
        ∧ q ≠ s.pipe.releaseHelper) :
    { s with pipe := p }.frameRank < s.frameRank
      ∨ { s with pipe := p }.frameRank = s.frameRank
        ∧ { s with pipe := p }.frameHelper = s.frameHelper ∧ q ≠ s.frameHelper := by
  have hne : q ≠ .main ∧ q ≠ .renderDma := by
    rcases hq with rfl | rfl <;> simp
  cases hpc : s.mainPc
  case ringTest | ringRunning =>
    by_cases hroom : s.pipe.ring.ringSize < 6
    · right
      simp [frameRank, frameHelper, hpc, hroom, hsize.trans_lt hroom, hne]
    · by_cases hroom' : p.ring.ringSize < 6
      · left
        simp [frameRank, hpc, hroom, hroom', Prod.Lex.toLex_lt_toLex]
      · have hrank := (hrelease (by omega)).resolve_left hroom'
        simpa [frameRank, frameHelper, hpc, hroom, hroom', Prod.Lex.toLex_lt_toLex] using hrank
  case drainTest | drainRunning =>
    right
    cases hidle : renderDMAIdle s.renderDma <;> simp [frameRank, frameHelper, hpc, hidle, hne]
  case drawSubmit | clearRunning | clearSubmit =>
    right
    cases hfull : s.renderDma.full renderDepth <;> simp [frameRank, frameHelper, hpc, hfull, hne]
  case drawRunning idx rest =>
    right
    cases rest <;> cases hfull : s.renderDma.full renderDepth <;>
      simp [frameRank, frameHelper, hpc, hfull, hne]
  all_goals exact Or.inr (by simp [frameRank, frameHelper, hpc, hne])

/-- A step changes the ring by `CommitBuffer` or `ReleaseBuffer` or not at all. -/
lemma ring_of_step (hs : Step s a t) :
    t.pipe.ring = s.pipe.ring ∨ s.pipe.ring.commitBuffer = some t.pipe.ring
      ∨ s.pipe.ring.releaseBuffer = some t.pipe.ring := by
  cases sysMove_of_step hs with
  | main hmove =>
      cases hmove with
      | commit _ hring => exact Or.inr (Or.inl hring)
      | subMain => exact Or.inl (by rw [subMain_pipe])
      | _ => exact Or.inl rfl
  | overlay hp =>
      cases overlayMove_of_step hp with
      | release _ hring => exact Or.inr (Or.inr hring)
      | _ => exact Or.inl rfl
  | _ => exact Or.inl rfl

/-- The step that commits a frame. -/
lemma commit_of_step (hs : Step s a t) (ha : a.party = .main) (hpc : ∃ idx, s.mainPc = .commit idx)
    (hfault : t.pipe.fault = none) : s.pipe.ring.commitBuffer = some t.pipe.ring := by
  obtain ⟨idx, hpc⟩ := hpc
  cases sysMove_of_step hs with
  | main hmove =>
      cases hmove with
      | commit _ hring => exact hring
      | commitFault => simp at hfault
      | jump hj => cases hj <;> simp_all
      | submit hsub => cases hsub <;> simp_all
      | _ => simp_all
  | _ => simp [Action.party] at ha

/-- The step that releases one. -/
lemma release_of_step (hs : Step s .overlay t) (hpc : s.pipe.overlayPc = .release)
    (hfault : t.pipe.fault = none) : s.pipe.ring.releaseBuffer = some t.pipe.ring := by
  cases sysMove_of_step hs with
  | overlay hp =>
      cases overlayMove_of_step hp with
      | release _ hring => exact hring
      | releaseFault => simp at hfault
      | _ => simp_all

/-- The parties that neither thread waits for leave everything where it is. -/
lemma frameHelper_ne (s : Sys) : s.frameHelper ≠ .handler ∧ s.frameHelper ≠ .world := by
  unfold frameHelper
  split <;> (try split) <;> (try simp)
  all_goals rcases s.pipe.releaseHelper_eq with heq | heq <;> simp [heq]

/-- **Every step of the system brings the next commit closer or leaves it where it is**, and then
it is not that of the party whose turn it is. -/
lemma frameRank_step (hb : s.handoff.Basic) (h : s.Streaming) (h' : t.Streaming)
    (hs : Step s a t) :
    a.party = .main ∧ (∃ idx, s.mainPc = .commit idx) ∨ t.frameRank < s.frameRank
      ∨ t.frameRank = s.frameRank ∧ t.frameHelper = s.frameHelper ∧ a.party ≠ s.frameHelper := by
  have hrelease : 3 ≤ s.pipe.ring.ringSize → t.pipe.ring.ringSize < 6
      ∨ t.pipe.releaseRank < s.pipe.releaseRank
      ∨ t.pipe.releaseRank = s.pipe.releaseRank ∧ t.pipe.releaseHelper = s.pipe.releaseHelper
        ∧ a.party ≠ s.pipe.releaseHelper := by
    intro hsize
    rcases releaseRank_step hb h h' hs hsize with ⟨rfl, hpc⟩ | ⟨-, hrank⟩
    · have hless := (Ring.releaseBuffer_spec (release_of_step hs hpc h'.fault)).2.2.2
      have hlt := s.pipe.ring.ringSize_lt
      exact Or.inl (by simp only [numFrameBuffer] at hlt; omega)
    · exact Or.inr hrank
  cases sysMove_of_step hs with
  | main hmove =>
      rw [Step, Danmaku.step, if_pos h.fault] at hs
      rcases frameRank_main hb h h' hs with hpc | hrank
      · exact Or.inl ⟨rfl, hpc⟩
      · exact Or.inr (hrank.imp_right fun hsame => ⟨hsame.1, hsame.2.1, hsame.2.2.symm⟩)
  | overlay hp =>
      exact Or.inr (frameRank_pipe (Handoff.overlayMove_ring (overlayMove_of_step hp)).2.2
        (Or.inl rfl) hrelease)
  | overlayDequeue he | overlayFinish he =>
      exact Or.inr (frameRank_pipe le_rfl (Or.inr rfl) hrelease)
  | renderDequeue he =>
      obtain ⟨-, d, -, hfifo⟩ := Engine.dequeue?_spec he
      refine Or.inr ((frameRank_renderDma (Engine.work_dequeue he) ?_).imp_right fun hsame =>
        ⟨hsame.1, hsame.2.1, hsame.2.2.symm⟩)
      simp [hfifo]
  | renderFinish he =>
      refine Or.inr ((frameRank_renderDma (Engine.work_finish he) ?_).imp_right fun hsame =>
        ⟨hsame.1, hsame.2.1, hsame.2.2.symm⟩)
      exact (congrArg List.length (Engine.finish?_spec he).2.2).le
  | video => exact Or.inr (Or.inr ⟨rfl, rfl, s.frameHelper_ne.2.symm⟩)
  | sigint => exact absurd h'.running (by simp)
  | sigintReturn => exact absurd (Or.inr rfl) h'.uninterrupted

lemma enabled_releaseHelper (hb : s.handoff.Basic) (ha : s.handoff.Alive) (h : s.Streaming) :
    Enabled Step Action.party s.pipe.releaseHelper s := by
  obtain ⟨habsent, hdone⟩ := h.overlay_ne hb ha
  have hoverlay := enabled_overlay h.fault habsent hdone
  have hdma : s.pipe.overlayDma.fifo ≠ [] → Enabled Step Action.party .overlayDma s :=
    fun hfifo => enabled_overlayDma (by simp [Engine.outstanding, hfifo])
  unfold Pipe.releaseHelper
  split
  · split
    · exact hoverlay
    · exact hdma ‹_›
  · split
    · exact hoverlay
    · exact hdma ‹_›
  · exact hoverlay

/-- The party whose turn it is can move. -/
lemma enabled_frameHelper (hb : s.handoff.Basic) (ha : s.handoff.Alive) (h : s.Streaming) :
    Enabled Step Action.party s.frameHelper s := by
  have hmain : Enabled Step Action.party .main s :=
    enabled_main h.fault fun hpc => (h.phase_ne hb).1 (by simp [phase, hpc])
  have hfull : s.renderDma.full renderDepth = true → Enabled Step Action.party .renderDma s := by
    intro hfull
    refine enabled_renderDma fun hnone => ?_
    rw [Engine.outstanding, List.append_eq_nil_iff] at hnone
    simp [Engine.full, hnone.2, renderDepth] at hfull
  have hbusy : renderDMAIdle s.renderDma ≠ true → Enabled Step Action.party .renderDma s :=
    fun hbusy => enabled_renderDma fun hnone => hbusy (Engine.idle_iff.mpr hnone)
  unfold frameHelper
  split <;> (try split)
  all_goals first
    | exact hmain
    | exact hfull ‹_›
    | exact hbusy ‹_›
    | exact enabled_releaseHelper hb ha h

end Sys

namespace FairRun

variable {σ : ℕ → Sys} {act : ℕ → Action} {n : ℕ}

/-- A frame is committed. -/
lemma commits (h : FairRun σ act) (hn : (σ n).Streaming) :
    ∃ m, n ≤ m ∧ ((σ m).pipe.ring.commitBuffer = some (σ (m + 1)).pipe.ring
      ∨ ¬ (σ (m + 1)).Streaming) := by
  refine h.exists_of_rank (fun n => (σ n).Streaming) (fun n => (σ n).frameRank)
    (fun n => (σ n).frameHelper) (fun n _ => (σ n).frameHelper_ne.2)
    (fun n hn => Sys.enabled_frameHelper (h.protocol n).1 (h.protocol n).2 hn) ?_ hn
  intro n hn
  by_cases hnext : (σ (n + 1)).Streaming
  · rcases Sys.frameRank_step (h.protocol n).1 hn hnext (h.step n) with ⟨hmain, hpc⟩ | hrank
    · exact Or.inl ⟨n, le_rfl, Or.inl (Sys.commit_of_step (h.step n) hmain hpc hnext.fault)⟩
    · exact Or.inr ⟨hnext, hrank⟩
  · exact Or.inl ⟨n, le_rfl, Or.inr hnext⟩

/-- With three frames in the ring one is released. -/
lemma releases_of_filled (h : FairRun σ act) (hn : (σ n).Streaming)
    (hsize : 3 ≤ (σ n).pipe.ring.ringSize) :
    ∃ m, n ≤ m ∧ ((σ m).pipe.ring.releaseBuffer = some (σ (m + 1)).pipe.ring
      ∨ ¬ (σ (m + 1)).Streaming) := by
  refine h.exists_of_rank (fun n => (σ n).Streaming ∧ 3 ≤ (σ n).pipe.ring.ringSize)
    (fun n => (σ n).pipe.releaseRank) (fun n => (σ n).pipe.releaseHelper) ?_
    (fun n hn => Sys.enabled_releaseHelper (h.protocol n).1 (h.protocol n).2 hn.1) ?_ ⟨hn, hsize⟩
  · intro n _
    rcases (σ n).pipe.releaseHelper_eq with heq | heq <;> simp [heq]
  · rintro n ⟨hn, hsize⟩
    by_cases hnext : (σ (n + 1)).Streaming
    · rcases Sys.releaseRank_step (h.protocol n).1 hn hnext (h.step n) hsize
        with ⟨hact, hpc⟩ | ⟨hmore, hrank⟩
      · have hs := h.step n
        rw [hact] at hs
        exact Or.inl ⟨n, le_rfl, Or.inl (Sys.release_of_step hs hpc hnext.fault)⟩
      · exact Or.inr ⟨⟨hnext, hsize.trans hmore⟩, hrank⟩
    · exact Or.inl ⟨n, le_rfl, Or.inr hnext⟩

/-- **Frames keep flowing**: from any point of a session on, a frame is committed and a frame is
released later on, unless the session is told to stop, SIGINT arrives, an assertion fails or a push
overruns a queue. -/
theorem frames_keep_flowing (h : FairRun σ act) (hn : (σ n).Streaming) :
    (∃ m, n ≤ m ∧ ((σ m).pipe.ring.commitBuffer = some (σ (m + 1)).pipe.ring
        ∨ ¬ (σ (m + 1)).Streaming))
      ∧ ∃ m, n ≤ m ∧ ((σ m).pipe.ring.releaseBuffer = some (σ (m + 1)).pipe.ring
        ∨ ¬ (σ (m + 1)).Streaming) := by
  refine ⟨h.commits hn, ?_⟩
  by_contra hno
  -- the session goes on and nothing is released, so the commits fill the ring
  have hnext : ∀ m, n ≤ m → (σ m).pipe.ring.releaseBuffer ≠ some (σ (m + 1)).pipe.ring
      ∧ (σ (m + 1)).Streaming := fun m hm =>
    ⟨fun hrelease => hno ⟨m, hm, Or.inl hrelease⟩,
      not_not.mp fun hend => hno ⟨m, hm, Or.inr hend⟩⟩
  have hgoes : ∀ m, n ≤ m → (σ m).Streaming := by
    intro m hm
    induction m, hm using Nat.le_induction with
    | base => exact hn
    | succ m hm _ => exact (hnext m hm).2
  have hgrows : ∀ m, n ≤ m → (σ m).pipe.ring.ringSize ≤ (σ (m + 1)).pipe.ring.ringSize := by
    intro m hm
    rcases Sys.ring_of_step (h.step m) with hring | hcommit | hrelease
    · rw [hring]
    · have hmore := (Ring.commitBuffer_spec hcommit).2.2.2
      omega
    · exact absurd hrelease (hnext m hm).1
  have hmono : ∀ m k, n ≤ m → m ≤ k → (σ m).pipe.ring.ringSize ≤ (σ k).pipe.ring.ringSize := by
    intro m k hm hk
    induction k, hk using Nat.le_induction with
    | base => exact le_rfl
    | succ k hk ih => exact ih.trans (hgrows k (hm.trans hk))
  have hfills : ∀ k, ∃ m, n ≤ m ∧ k ≤ (σ m).pipe.ring.ringSize := by
    intro k
    induction k with
    | zero => exact ⟨n, le_rfl, Nat.zero_le _⟩
    | succ k ih =>
        obtain ⟨m, hm, hk⟩ := ih
        obtain ⟨j, hj, hcommit | hend⟩ := h.commits (hgoes m hm)
        · have hmore := (Ring.commitBuffer_spec hcommit).2.2.2
          have hle := hmono m j hm hj
          exact ⟨j + 1, by omega, by omega⟩
        · exact absurd (hnext j (hm.trans hj)).2 hend
  obtain ⟨m, hm, hsize⟩ := hfills 3
  obtain ⟨j, hj, hrelease⟩ := h.releases_of_filled (hgoes m hm) hsize
  exact hno ⟨j, hm.trans hj, hrelease⟩

/-- A session that has just begun. -/
theorem frames_keep_flowing_begun :
    ∃ s : Sys, s.Streaming ∧ s.pipe.ring.ringSize = 0
      ∧ (∃ m, (s.inTurns m).pipe.ring.commitBuffer = some (s.inTurns (m + 1)).pipe.ring
        ∨ ¬ (s.inTurns (m + 1)).Streaming)
      ∧ ∃ m, (s.inTurns m).pipe.ring.releaseBuffer = some (s.inTurns (m + 1)).pipe.ring
        ∨ ¬ (s.inTurns (m + 1)).Streaming := by
  have hexec : ((Sys.exec (fun _ => true)
      (Sys.start (Sys.sizeRegister 100 100) (fun _ => 0#8) fun _ => 0#8)
      (Sys.mainSteps 14)).map fun s =>
        (s.pipe.renderRunning, s.pipe.fault, s.handler, s.pipe.sigint, s.pipe.ring.ringSize))
      = some (true, none, false, false, 0) := by decide +kernel
  obtain ⟨s, hs, hobs⟩ := Option.map_eq_some_iff.mp hexec
  simp only [Prod.mk.injEq] at hobs
  obtain ⟨hrun, hfault, hhandler, hsig, hsize⟩ := hobs
  have hstreaming : s.Streaming := ⟨hrun, hfault, by simp [Sys.Interrupted, hhandler, hsig]⟩
  have hfair := Sys.fairRun_inTurns (Sys.run_of_steps hs)
  obtain ⟨⟨m, -, hm⟩, k, -, hk⟩ := hfair.frames_keep_flowing (n := 0) hstreaming
  exact ⟨s, hstreaming, hsize, ⟨m, hm⟩, k, hk⟩

end FairRun

end Danmaku
