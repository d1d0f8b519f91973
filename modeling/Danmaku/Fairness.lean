import Danmaku.Ending
import Danmaku.Lib.Justice

/-!
Runs of the program in which every thread and every device gets on.

* `Party`: who makes a step; `FairRun`: an infinite run from the start of the program in which the
  threads, the DMAs and the signal handler are scheduled again and again. Nothing is assumed of the
  video input and of SIGINT.
* `Handoff.Alive`: while `render_running` is up without SIGINT, the overlay thread is there.
* `Sys.enabled_main` and its siblings: who can move when.
-/

namespace Danmaku

open DmaEngine Transition

/-- Who makes a step. -/
inductive Party
  | main
  | overlay
  | overlayDma
  | renderDma
  | handler
  /-- the video input, and whoever sends SIGINT -/
  | world
  deriving DecidableEq, Repr

def Action.party : Action → Party
  | .main _ => .main
  | .overlay => .overlay
  | .overlayDequeue | .overlayFinish => .overlayDma
  | .renderDequeue | .renderFinish => .renderDma
  | .sigintReturn => .handler
  | .video _ | .sigint => .world

/-! ### The overlay thread is there -/

namespace Handoff

/-- The overlay thread exists from its creation to its `pthread_join`, and it ends only behind
SIGINT or a `render_running` that is cleared. -/
structure Alive (h : Handoff) : Prop where
  spawned : h.phase ≠ .off → h.pipe.overlayPc ≠ .absent
  done : h.pipe.overlayPc = .done →
    h.pipe.sigint = true ∨ h.pipe.renderRunning = false ∧ h.phase ≠ .starting

variable {h h' : Handoff} {l : HandoffLabel}

lemma Alive.overlay {imgSize : BitVec 32} {p : Pipe} (hb : h.Basic) (ha : h.Alive)
    (hmove : OverlayMove imgSize h.pipe p) : Alive { h with pipe := p } := by
  obtain ⟨hspawned, hdone⟩ := ha
  cases hmove with
  | quit hpc hsig => exact ⟨fun _ => by simp, fun _ => Or.inl hsig⟩
  | leave hpc hrun =>
      refine ⟨fun _ => by simp, fun _ => Or.inr ⟨hrun, fun hphase => ?_⟩⟩
      have hph := hb.phase
      simp only [PhaseOk, show h.phase = .starting from hphase] at hph
      simp [OverlayPc.Waiting, hpc] at hph
  | txmitFault hpc htx => exact ⟨hspawned, hdone⟩
  | releaseFault hpc hring => exact ⟨hspawned, hdone⟩
  | _ => exact ⟨fun _ => by simp, fun hd => by simp at hd⟩

lemma Alive.step (hb : h.Basic) (ha : h.Alive) (hstep : Step h l h') : h'.Alive := by
  obtain ⟨hspawned, hdone⟩ := ha
  cases hstep with
  | overlay hstep => exact Alive.overlay hb ⟨hspawned, hdone⟩ (overlayMove_of_step hstep)
  | spawn hphase => exact ⟨fun _ => by simp, fun hd => by simp at hd⟩
  | raise hphase =>
      refine ⟨fun _ => hspawned (by simp [hphase]), fun hd => Or.inl ?_⟩
      exact (hdone hd).resolve_right fun hno => hno.2 hphase
  | test hphase | acquire hphase | commit hphase =>
      refine ⟨fun _ => hspawned (by simp [hphase]), fun hd => (hdone hd).imp_right fun hrun => ?_⟩
      exact ⟨hrun.1, by simp⟩
  | lower hphase =>
      refine ⟨fun _ => hspawned ?_, fun hd => (hdone hd).imp_right fun hrun => ⟨rfl, ?_⟩⟩
      · rcases hphase with rfl | ⟨rfl, hphase | ⟨i, hphase⟩⟩
        · assumption
        · simp [hphase]
        · simp [hphase]
      · rcases hphase with rfl | ⟨rfl, -⟩
        · exact hrun.2
        · simp
  | stop hphase =>
      exact ⟨fun _ => hspawned (by simp [hphase]), fun hd => Or.inr ⟨rfl, by simp⟩⟩
  | sigint => exact ⟨hspawned, fun hd => Or.inl rfl⟩
  | join hphase hpc => exact ⟨fun hoff => absurd rfl hoff, fun hd => by simp at hd⟩
  | _ => exact ⟨hspawned, hdone⟩

end Handoff

/-! ### Who can move -/

namespace Sys

variable {s t : Sys} {a : Action} {inp : FrameInput}

/-- Only the overlay thread itself moves it while a session is going on. -/
lemma overlay_of_main (hpc : s.phase ≠ .off) (hphase : s.phase ≠ .stopped)
    (hmove : MainMove inp s t) :
    t.pipe.overlayPc = s.pipe.overlayPc ∧ t.pipe.overlayDma = s.pipe.overlayDma := by
  cases hmove with
  | subMain hpc' => simp [phase, hpc'] at hpc
  | create hpc' => simp [phase, hpc'] at hpc
  | join hpc' => simp [phase, hpc'] at hphase
  | _ => exact ⟨rfl, rfl⟩

lemma mainStep_isSome (inp : FrameInput) (hpc : s.mainPc ≠ .exited) : (mainStep inp s).isSome := by
  unfold mainStep
  split <;> (try split) <;> (try split) <;> simp_all

lemma enabled_main (hfault : s.pipe.fault = none) (hpc : s.mainPc ≠ .exited) :
    Enabled Step Action.party .main s := by
  obtain ⟨t, ht⟩ := Option.isSome_iff_exists.mp (mainStep_isSome quietFrame hpc)
  exact ⟨.main quietFrame, t, rfl, by rw [Step, step, if_pos hfault, ht]⟩

lemma overlayStep_isSome (imgSize : BitVec 32) {p : Pipe} (habsent : p.overlayPc ≠ .absent)
    (hdone : p.overlayPc ≠ .done) : (overlayStep imgSize p).isSome := by
  unfold overlayStep
  split <;> (try split) <;> simp_all

lemma enabled_overlay (hfault : s.pipe.fault = none) (habsent : s.pipe.overlayPc ≠ .absent)
    (hdone : s.pipe.overlayPc ≠ .done) : Enabled Step Action.party .overlay s := by
  obtain ⟨p, hp⟩ := Option.isSome_iff_exists.mp
    (overlayStep_isSome s.screen.imgSize habsent hdone)
  exact ⟨.overlay, _, rfl, by rw [Step, step, if_pos hfault, hp, Option.map_some]⟩

lemma enabled_overlayDma (h : s.pipe.overlayDma.outstanding ≠ []) :
    Enabled Step Action.party .overlayDma s := by
  rcases Engine.moves_of_outstanding h with ⟨e, he⟩ | ⟨d, e, he⟩
  · exact ⟨.overlayDequeue, _, rfl, by rw [Step, step, he, Option.map_some]⟩
  · exact ⟨.overlayFinish, _, rfl, by rw [Step, step, he, Option.map_some]⟩

lemma enabled_renderDma (h : s.renderDma.outstanding ≠ []) :
    Enabled Step Action.party .renderDma s := by
  rcases Engine.moves_of_outstanding h with ⟨e, he⟩ | ⟨d, e, he⟩
  · exact ⟨.renderDequeue, _, rfl, by rw [Step, step, he, Option.map_some]⟩
  · exact ⟨.renderFinish, _, rfl, by rw [Step, step, he, Option.map_some]⟩

end Sys

/-- An infinite run, from a state that the program can reach, in which every thread and every device
gets on. -/
structure FairRun (σ : ℕ → Sys) (act : ℕ → Action) : Prop where
  reached : ∃ resolution area fb as, Run Sys.Step (Sys.start resolution area fb) as (σ 0)
  step : Execution Sys.Step σ act
  just : ∀ p, p ≠ .world → Just Sys.Step Action.party σ act p

namespace FairRun

variable {σ : ℕ → Sys} {act : ℕ → Action}

lemma protocol (h : FairRun σ act) (n : ℕ) : (σ n).handoff.Basic ∧ (σ n).handoff.Alive := by
  have hstep : ∀ s a t, s.handoff.Basic ∧ s.handoff.Alive → Sys.Step s a t →
      t.handoff.Basic ∧ t.handoff.Alive := fun s a t hI hs =>
    ⟨hI.1.step (Sys.step_handoff hs), hI.2.step hI.1 (Sys.step_handoff hs)⟩
  refine h.step.invariant (I := fun s => s.handoff.Basic ∧ s.handoff.Alive) ?_ hstep n
  obtain ⟨resolution, area, fb, as, hrun⟩ := h.reached
  refine hrun.invariant (I := fun s => s.handoff.Basic ∧ s.handoff.Alive) ?_ hstep
  exact ⟨Sys.basic_start resolution area fb, fun hoff => absurd rfl hoff, fun hd => by
    simp [Sys.handoff, Sys.start] at hd⟩

/-- The rank rule, for threads and devices that help. -/
lemma exists_of_rank (h : FairRun σ act) {W : Type*} [Preorder W] [WellFoundedLT W] (C : ℕ → Prop)
    {Q : ℕ → Prop} (rank : ℕ → W) (helper : ℕ → Party) (hworld : ∀ n, C n → helper n ≠ .world)
    (henabled : ∀ n, C n → Enabled Sys.Step Action.party (helper n) (σ n))
    (hstep : ∀ n, C n → (∃ m, n ≤ m ∧ Q m) ∨ C (n + 1) ∧ (rank (n + 1) < rank n
      ∨ rank (n + 1) = rank n ∧ helper (n + 1) = helper n ∧ (act n).party ≠ helper n))
    {n : ℕ} (hn : C n) : ∃ m, n ≤ m ∧ Q m :=
  Transition.exists_of_rank wellFounded_lt C rank helper (fun n hC => h.just _ (hworld n hC))
    henabled hstep hn

end FairRun

/-! ### Taking turns -/

/-- Whose turn comes when. -/
def Party.slot : Party → ℕ
  | .main => 0
  | .overlay => 1
  | .overlayDma => 2
  | .renderDma => 3
  | .handler | .world => 4

namespace Sys

/-- What is done in a turn, where it can be done. -/
def turn (n : ℕ) (s : Sys) : Action :=
  match n % 5 with
  | 0 => .main quietFrame
  | 1 => .overlay
  | 2 => if s.pipe.overlayDma.active.isSome then .overlayFinish else .overlayDequeue
  | 3 => if s.renderDma.active.isSome then .renderFinish else .renderDequeue
  | _ => .sigintReturn

/-- The threads and the devices take turns, and the video input stays as it is. -/
def inTurns (s : Sys) : ℕ → Sys := schedule Danmaku.step turn (fun s => .video s.resolution) s

def turnTaken (s : Sys) (n : ℕ) : Action :=
  scheduled Danmaku.step turn (fun s => .video s.resolution) n (inTurns s n)

/-- An action other than the main thread's that can be taken is what its party's turn is for. -/
lemma turn_of_step {n : ℕ} {s t : Sys} {a : Action} (hworld : a.party ≠ .world)
    (hmain : a.party ≠ .main) (hn : n % 5 = a.party.slot) (hs : Step s a t) : turn n s = a := by
  cases a with
  | overlay => simp [turn, show n % 5 = 1 from hn]
  | overlayDequeue =>
      obtain ⟨e, he, -⟩ := Option.map_eq_some_iff.mp hs
      simp [turn, show n % 5 = 2 from hn, (Engine.dequeue?_spec he).1]
  | overlayFinish =>
      obtain ⟨⟨d, e⟩, he, -⟩ := Option.map_eq_some_iff.mp hs
      simp [turn, show n % 5 = 2 from hn, (Engine.finish?_spec he).1]
  | renderDequeue =>
      obtain ⟨e, he, -⟩ := Option.map_eq_some_iff.mp hs
      simp [turn, show n % 5 = 3 from hn, (Engine.dequeue?_spec he).1]
  | renderFinish =>
      obtain ⟨⟨d, e⟩, he, -⟩ := Option.map_eq_some_iff.mp hs
      simp [turn, show n % 5 = 3 from hn, (Engine.finish?_spec he).1]
  | sigintReturn => simp [turn, show n % 5 = 4 from hn]
  | main inp => exact absurd rfl hmain
  | video | sigint => exact absurd rfl hworld

/-- The party whose turn it is moves if it can. -/
lemma turn_of_enabled {n : ℕ} {s : Sys} {p : Party} (hp : p ≠ .world) (hn : n % 5 = p.slot)
    (h : Enabled Step Action.party p s) :
    (Danmaku.step s (turn n s)).isSome ∧ (turn n s).party = p := by
  obtain ⟨a, t, rfl, hs⟩ := h
  by_cases hmain : a.party = .main
  · rw [hmain] at hn
    have hturn : turn n s = .main quietFrame := by simp [turn, show n % 5 = 0 from hn]
    rw [hturn]
    refine ⟨?_, hmain.symm⟩
    cases sysMove_of_step hs with
    | main hmove =>
        obtain ⟨hfault, hstep⟩ := mainStep_of_step hs
        have hpc : s.mainPc ≠ .exited := fun hpc => by simp [mainStep, hpc] at hstep
        obtain ⟨u, hu⟩ := Option.isSome_iff_exists.mp (mainStep_isSome quietFrame hpc)
        simp [Danmaku.step, hfault, hu]
    | _ => simp [Action.party] at hmain
  · rw [turn_of_step hp hmain hn hs]
    exact ⟨Option.isSome_iff_exists.mpr ⟨t, hs⟩, rfl⟩

/-- **Taking turns is fair.** -/
lemma fairRun_inTurns {resolution : BitVec 32} {area fb : ℕ → Byte} {as : List Action} {s : Sys}
    (h : Run Step (start resolution area fb) as s) : FairRun s.inTurns s.turnTaken where
  reached := ⟨resolution, area, fb, as, h⟩
  step := execution_schedule fun _ => rfl
  just p hp := by
    have hslot : p.slot < 5 := by cases p <;> simp [Party.slot]
    refine just_schedule fun n => ⟨5 * n + p.slot, by omega, fun s hs => ?_⟩
    exact turn_of_enabled hp (by omega) hs

end Sys

end Danmaku
