import Danmaku.Moves

/-!
How a session and the program come to an end.

`intHandler` clears `render_running` and sets `sigint`; `Render` sets `render_running` without
looking at `sigint`. The overlay thread waits for `render_running` by its level, which the same
session may raise and lower before the thread runs.

* `Sys.StaysStopped`: once the handler has run `render_running` is down and no frame begins;
  `staysStopped_iff_raisesUninterrupted`: over any number of sessions, the runs in which this holds
  throughout; `raisesUninterrupted_of_arrivesAside`: where `main` may be when SIGINT arrives.
* `Sys.Stranded`: `Render` has returned and the overlay thread still waits for its start;
  `not_stranded_of_stopsSeen`: when this cannot happen, `stranded_forever`: only SIGINT ends it.
* `not_staysStopped_startup`, `stranded_quick`: runs in which they go wrong.
-/

namespace Danmaku

open DmaEngine Transition

namespace Sys

variable {s t : Sys} {a : Action} {as : List Action} {inp : FrameInput}

/-! ### After SIGINT -/

/-- `intHandler` has run, or is between its two assignments. -/
def Interrupted (s : Sys) : Prop := s.handler = true ∨ s.pipe.sigint = true

/-- The step from `s` to `t` begins a frame. -/
def BeginsFrame (s t : Sys) : Prop :=
  (∃ idx, s.mainPc = .emptyBreak idx) ∧ ∃ idx, t.mainPc = .clearRunning idx

/-- If the handler has run, `render_running` is down, and no step begins a frame. -/
def StaysStopped (s : Sys) : Prop :=
  s.Interrupted → s.pipe.renderRunning = false ∧ ∀ a t, Step s a t → ¬ BeginsFrame s t

/-- `Render` sets `render_running` only when no handler has run. -/
def RaisesUninterrupted (s : Sys) (a : Action) : Prop :=
  s.mainPc = .setRunning → (∃ inp, a = .main inp) → ¬ s.Interrupted

/-- A frame begins only with the flag up. -/
lemma renderRunning_of_beginsFrame (h : Step s a t) (hb : BeginsFrame s t) :
    s.pipe.renderRunning = true := by
  obtain ⟨⟨idx, hpc⟩, idx', hpc'⟩ := hb
  cases sysMove_of_step h with
  | main hmove =>
      cases hmove with
      | jump hj => cases hj <;> simp_all
      | submit hsub => cases hsub <;> simp_all
      | _ => simp_all
  | _ => simp_all

lemma staysStopped_of_flag (h : s.Interrupted → s.pipe.renderRunning = false) :
    s.StaysStopped := by
  intro hint
  refine ⟨h hint, ?_⟩
  intro a t hs hb
  exact absurd ((renderRunning_of_beginsFrame hs hb).symm.trans (h hint)) (by simp)

/-- Only `Render` raises the flag. -/
lemma renderRunning_of_step (h : Step s a t) (hrun : t.pipe.renderRunning = true) :
    s.pipe.renderRunning = true ∨ s.mainPc = .setRunning ∧ ∃ inp, a = .main inp := by
  cases sysMove_of_step h with
  | @main inp t hmove =>
      cases hmove with
      | setRunning hpc => exact Or.inr ⟨hpc, inp, rfl⟩
      | subMain hpc =>
          rw [subMain_pipe] at hrun
          exact Or.inl hrun
      | stop hpc | finish hpc => exact absurd hrun (by simp)
      | _ => exact Or.inl hrun
  | overlay hp =>
      exact Or.inl ((Handoff.overlayMove_ring (overlayMove_of_step hp)).1.symm.trans hrun)
  | sigint => exact absurd hrun (by simp)
  | _ => exact Or.inl hrun

/-- The handler's first assignment lowers the flag, its second one is behind it. -/
lemma interrupted_of_step (h : Step s a t) (hint : t.Interrupted) :
    s.Interrupted ∨ a = .sigint ∧ t.pipe.renderRunning = false := by
  cases sysMove_of_step h with
  | @main inp t hmove =>
      cases hmove with
      | subMain hpc =>
          rw [Interrupted, subMain_pipe, subMain_handler] at hint
          exact Or.inl hint
      | _ => exact Or.inl hint
  | overlay hp =>
      refine Or.inl (hint.imp_right ?_)
      intro hsig
      cases overlayMove_of_step hp <;> exact hsig
  | sigint => exact Or.inr ⟨rfl, rfl⟩
  | sigintReturn hhandler => exact Or.inl (Or.inl hhandler)
  | _ => exact Or.inl hint

/-- **When a shutdown request is kept**: the runs from the start of the program in which, once the
handler has run, `render_running` is down and no frame begins are exactly the runs in which
`Render` sets `render_running` only when no handler has run. -/
theorem staysStopped_iff_raisesUninterrupted (resolution : BitVec 32) (area fb : ℕ → Byte)
    (as : List Action) (s : Sys) :
    Run (fun s a t => Step s a t ∧ t.StaysStopped) (start resolution area fb) as s
      ↔ Run (Guard Step RaisesUninterrupted) (start resolution area fb) as s := by
  refine Run.keeps_iff_guard (I := fun s => s.Interrupted → s.pipe.renderRunning = false)
    (fun _ => rfl) ?_ (fun _ => staysStopped_of_flag) ?_
  · intro t a u hI hguard hs hint
    rcases interrupted_of_step hs hint with hint | ⟨-, hdown⟩
    · by_contra hup
      rcases renderRunning_of_step hs (by simpa using hup) with hrun | ⟨hpc, ha⟩
      · exact absurd (hrun.symm.trans (hI hint)) (by simp)
      · exact hguard hpc ha hint
    · exact hdown
  · intro t a u _ hbad hs hstop
    simp only [RaisesUninterrupted, not_forall, not_not] at hbad
    obtain ⟨hpc, ⟨inp, rfl⟩, hint⟩ := hbad
    have ht := (mainStep_of_step hs).2
    rw [mainStep, hpc] at ht
    obtain rfl := Option.some.inj ht
    exact absurd (hstop hint).1 (by simp)

/-- `main` has begun a session, and `Render` has not set `render_running` yet. -/
def SettingUp (s : Sys) : Prop :=
  match s.mainPc with
  | .subMain | .create | .install | .clearing _ | .clearingSubmit _ | .waitIdle | .setRunning =>
      True
  | _ => False

/-- A session is set up only when `main` finds `sigint` clear. -/
lemma settingUp_of_step (h : Step s a t) (ht : t.SettingUp) :
    s.SettingUp ∨ s.mainPc = .loop ∧ (∃ inp, a = .main inp) ∧ s.pipe.sigint = false := by
  cases sysMove_of_step h with
  | @main inp t hmove =>
      cases hmove with
      | jump hj =>
          cases hj with
          | enter hpc hsig => exact Or.inr ⟨hpc, ⟨inp, rfl⟩, hsig⟩
          | clearSkipped hpc | clearTry hpc | clearFull hpc | cleared hpc | idle hpc | busy hpc =>
              exact Or.inl (by simp only [SettingUp, hpc])
          | _ => exact absurd ht (by simp [SettingUp])
      | submit hsub =>
          cases hsub with
          | clearing hpc => exact Or.inl (by simp only [SettingUp, hpc])
          | _ => exact absurd ht (by simp [SettingUp])
      | subMain hpc | create hpc | install hpc => exact Or.inl (by simp only [SettingUp, hpc])
      | commitFault | fault | wait => exact Or.inl ht
      | _ => exact absurd ht (by simp [SettingUp])
  | _ => exact Or.inl ht

/-- SIGINT arrives before `main` begins a session or after `Render` has set `render_running`, and
the handler is not between its two assignments when `main` tests `sigint`. -/
def ArrivesAside (s : Sys) (a : Action) : Prop :=
  (a = .sigint → ¬ s.SettingUp) ∧ (s.mainPc = .loop → (∃ inp, a = .main inp) → s.handler = false)

/-- **Where the main thread is when a request is kept**: if SIGINT never arrives while a session is
set up, `Render` sets `render_running` only when no handler has run. -/
theorem raisesUninterrupted_of_arrivesAside {resolution : BitVec 32} {area fb : ℕ → Byte}
    (hrun : Run (Guard Step ArrivesAside) (start resolution area fb) as s) :
    Run (Guard Step RaisesUninterrupted) (start resolution area fb) as s := by
  refine (hrun.guard_of_invariant (I := fun s => s.Interrupted → ¬ s.SettingUp)
    (G := RaisesUninterrupted) (fun h => by simp [Interrupted, start] at h) ?_ ?_).mono
    fun _ _ _ h => ⟨h.1.1, h.2⟩
  · intro t a u hI _ hpc _ hint
    exact hI hint (by simp only [SettingUp, hpc])
  · rintro t a u hI ⟨hs, hguard⟩ hint hset
    rcases settingUp_of_step hs hset with hbefore | ⟨hpc, hmain, hsig⟩
    · exact (interrupted_of_step hs hint).elim (fun h => hI h hbefore) fun h => hguard.1 h.1 hbefore
    · have hhandler := hguard.2 hpc hmain
      obtain ⟨inp, rfl⟩ := hmain
      rcases interrupted_of_step hs hint with h | ⟨h, -⟩
      · simp [Interrupted, hhandler, hsig] at h
      · exact absurd h (by simp)

/-- SIGINT arrives right after the handler was installed. -/
def startupRun : List Action :=
  mainSteps 4 ++ [.sigint, .sigintReturn] ++ mainSteps 17

/-- **A shutdown request is undone**: the handler has run, `render_running` is set again and a frame
has begun. -/
theorem not_staysStopped_startup :
    ∃ s, Run Step (start (sizeRegister 100 100) (fun _ => 0#8) fun _ => 0#8) startupRun s
      ∧ s.pipe.sigint = true ∧ s.handler = false ∧ s.mainPc = .clearRunning 0
      ∧ ¬ s.StaysStopped := by
  have hexec : ((exec (fun _ => true) (start (sizeRegister 100 100) (fun _ => 0#8) fun _ => 0#8)
      startupRun).map fun s => (s.pipe.sigint, s.handler, s.pipe.renderRunning,
        s.mainPc matches .clearRunning 0)) = some (true, false, true, true) := by decide +kernel
  obtain ⟨s, hs, hobs⟩ := Option.map_eq_some_iff.mp hexec
  simp only [Prod.mk.injEq] at hobs
  obtain ⟨hsig, hhandler, hrun, hpc⟩ := hobs
  refine ⟨s, run_of_steps hs, hsig, hhandler, ?_,
    fun hstop => absurd (hrun.symm.trans (hstop (Or.inr hsig)).1) (by simp)⟩
  split at hpc
  · assumption
  · exact absurd hpc (by simp)

/-! ### After `Render` -/

/-- The overlay thread is in its loop that waits for `render_running`. -/
def Starting (s : Sys) : Prop := s.pipe.overlayPc = .waitStart ∨ s.pipe.overlayPc = .checkSigint

/-- `Render` has returned, no SIGINT has arrived, and the overlay thread of the session still waits
for `render_running`. -/
def Stranded (s : Sys) : Prop := s.mainPc = .join ∧ ¬ s.Interrupted ∧ s.Starting

/-- When `Render` clears `render_running` because the resolution has changed, the overlay thread
has seen it set, or SIGINT has arrived. -/
def StopsSeen (s : Sys) (a : Action) : Prop :=
  s.mainPc = .stop → (∃ inp, a = .main inp) → s.Interrupted ∨ ¬ s.Starting

/-- `Render` has not set `render_running` yet. -/
def BeforeRaise (s : Sys) : Prop :=
  match s.mainPc with
  | .install | .clearing _ | .clearingSubmit _ | .waitIdle | .setRunning => True
  | _ => False

/-- While the overlay thread waits for its start, SIGINT has arrived, the flag is up, or it is
still to be raised; and where `Render` ends the flag is down. -/
structure StartOk (s : Sys) : Prop where
  starting : s.Starting → s.Interrupted ∨ s.pipe.renderRunning = true ∨ s.BeforeRaise
  finish : s.mainPc = .finish → s.pipe.renderRunning = false

/-- The overlay thread does not go back to its start. -/
lemma starting_of_move {imgSize : BitVec 32} {p : Pipe} (hmove : OverlayMove imgSize s.pipe p)
    (h : { s with pipe := p }.Starting) : s.Starting := by
  cases hmove with
  | asleep hpc hrun => exact Or.inl hpc
  | retry hpc => exact Or.inr hpc
  | txmitFault hpc htx => exact h
  | releaseFault hpc hring => exact h
  | _ => simp [Starting] at h

lemma StartOk.main (h : s.StartOk) (hguard : s.StopsSeen (.main inp)) (hmove : MainMove inp s t) :
    t.StartOk := by
  obtain ⟨hstart, hfinish⟩ := h
  cases hmove with
  | jump hj =>
      refine ⟨?_, ?_⟩
      · intro hs
        rcases hstart hs with hint | hrun | hbefore
        · exact Or.inl hint
        · exact Or.inr (Or.inl hrun)
        · refine Or.inr (Or.inr ?_)
          cases hj <;> simp_all [BeforeRaise]
      · intro hpc
        cases hj <;> simp_all
  | subMain hpc =>
      refine ⟨?_, ?_⟩
      · intro hs
        have hs' : s.Starting := by simpa [Starting] using hs
        rcases hstart hs' with hint | hrun | hbefore
        · exact Or.inl (by simpa [Interrupted] using hint)
        · exact Or.inr (Or.inl (by simpa using hrun))
        · simp [BeforeRaise, hpc] at hbefore
      · intro hf
        rcases subMain_cases s with he | he | ⟨scr, blank, driver, -, -, -, he⟩ <;>
          simp [he] at hf
  | create hpc => exact ⟨fun _ => Or.inr (Or.inr trivial), fun hf => absurd hf (by simp)⟩
  | install hpc => exact ⟨fun _ => Or.inr (Or.inr trivial), fun hf => absurd hf (by simp)⟩
  | setRunning hpc => exact ⟨fun _ => Or.inr (Or.inl rfl), fun hf => absurd hf (by simp)⟩
  | submit hsub =>
      refine ⟨?_, ?_⟩
      · intro hs
        refine (hstart hs).imp_right (Or.imp_right ?_)
        intro hbefore
        cases hsub <;> simp_all [BeforeRaise]
      · intro hpc
        cases hsub <;> simp_all
  | stop hpc =>
      refine ⟨fun hs => Or.inl ?_, fun hf => absurd hf (by simp)⟩
      exact (hguard hpc ⟨inp, rfl⟩).resolve_right fun hns => hns hs
  | finish hpc =>
      refine ⟨fun hs => ?_, fun hf => absurd hf (by simp)⟩
      rcases hstart hs with hint | hrun | hbefore
      · exact Or.inl hint
      · exact absurd (hrun.symm.trans (hfinish hpc)) (by simp)
      · simp [BeforeRaise, hpc] at hbefore
  | join hpc hdone => exact ⟨fun hs => by simp [Starting] at hs, fun hf => absurd hf (by simp)⟩
  | wait hpc => exact ⟨hstart, hfinish⟩
  | feed hpc | commit hpc =>
      refine ⟨fun hs => (hstart hs).imp_right (Or.imp_right ?_), fun hf => absurd hf (by simp)⟩
      intro hbefore
      simp [BeforeRaise, hpc] at hbefore
  | commitFault hpc hring => exact ⟨hstart, hfinish⟩
  | fault hpc hf => exact ⟨hstart, hfinish⟩

lemma StartOk.step (h : s.StartOk) (hguard : s.StopsSeen a) (hs : Step s a t) : t.StartOk := by
  obtain ⟨hstart, hfinish⟩ := h
  cases sysMove_of_step hs with
  | main hmove => exact StartOk.main ⟨hstart, hfinish⟩ hguard hmove
  | @overlay p hp =>
      have hmove := overlayMove_of_step hp
      have hrun := (Handoff.overlayMove_ring hmove).1
      refine ⟨fun ht => ?_, fun hf => hrun.trans (hfinish hf)⟩
      rcases hstart (starting_of_move hmove ht) with hint | hup | hbefore
      · refine Or.inl (hint.imp_right ?_)
        intro hsig
        cases hmove <;> exact hsig
      · exact Or.inr (Or.inl (hrun.trans hup))
      · exact Or.inr (Or.inr hbefore)
  | sigint => exact ⟨fun _ => Or.inl (Or.inl rfl), fun _ => rfl⟩
  | sigintReturn => exact ⟨fun _ => Or.inl (Or.inr rfl), hfinish⟩
  | _ => exact ⟨hstart, hfinish⟩

/-- **When the overlay thread is not stranded**: in every run from the start of the program in
which it has seen `render_running`, or SIGINT has arrived, whenever `Render` clears the flag for a
new resolution. A step that breaks the condition strands it two steps of the main thread later. -/
theorem not_stranded_of_stopsSeen (resolution : BitVec 32) (area fb : ℕ → Byte) :
    (∀ as s, Run (Guard Step StopsSeen) (start resolution area fb) as s → ¬ s.Stranded)
    ∧ ∀ s a t, Step s a t → ¬ s.StopsSeen a → ∃ u, Run Step t (mainSteps 2) u ∧ u.Stranded := by
  refine ⟨?_, ?_⟩
  · rintro as s hrun ⟨hpc, hint, hs⟩
    have hok : s.handoff.Basic ∧ s.StartOk := hrun.invariant
      (I := fun s => s.handoff.Basic ∧ s.StartOk)
      ⟨basic_start resolution area fb, fun h => by simp [Starting, start] at h,
        fun h => absurd h (by simp [start])⟩
      fun _ _ _ hI hstep => ⟨hI.1.step (step_handoff hstep.1), hI.2.step hstep.2 hstep.1⟩
    have hdown : s.pipe.renderRunning = false := by
      have hph := hok.1.phase
      simpa only [Handoff.PhaseOk, handoff, phase, hpc] using hph
    rcases hok.2.starting hs with hint' | hup | hbefore
    · exact hint hint'
    · exact absurd (hup.symm.trans hdown) (by simp)
    · simp [BeforeRaise, hpc] at hbefore
  · intro s a t hs hbad
    simp only [StopsSeen, not_forall, not_or, not_not] at hbad
    obtain ⟨hpc, ⟨inp, rfl⟩, hint, hstarting⟩ := hbad
    obtain ⟨hfault, ht⟩ := mainStep_of_step hs
    rw [mainStep, hpc] at ht
    obtain rfl := Option.some.inj ht
    set t : Sys :=
      { s with pipe := { s.pipe with renderRunning := false }, mainPc := .loopTest }
    have hleave : Step t (.main quietFrame) { t with mainPc := .finish } := by
      simp [Step, step, mainStep, t, hfault]
    have hfinish : Step { t with mainPc := .finish } (.main quietFrame)
        { t with mainPc := .join } := by
      simp [Step, step, mainStep, t, hfault]
    exact ⟨_, .cons hleave (.single hfinish), rfl, hint, hstarting⟩

/-- The test of `StopsSeen`. -/
def stopsSeen (s : Sys) : Bool :=
  !(s.mainPc matches .stop) || !(s.pipe.overlayPc == .waitStart || s.pipe.overlayPc == .checkSigint)

lemma stopsSeen_of_test (h : s.stopsSeen = true) : s.StopsSeen a := by
  intro hpc _
  refine Or.inr ?_
  simp only [stopsSeen, hpc, Bool.not_true, Bool.false_or, Bool.not_eq_true', Bool.or_eq_false_iff,
    beq_eq_false_iff_ne] at h
  exact fun hs => hs.elim h.1 h.2

/-- The overlay thread has seen the flag before the resolution changes; had it not moved, the step
that clears the flag would strand it. -/
theorem not_stranded_of_stopsSeen_started :
    (∃ as s, Run (Guard Step StopsSeen)
        (start (sizeRegister 100 100) (fun _ => 0#8) fun _ => 0#8) as s
      ∧ s.mainPc = .join ∧ ¬ s.Stranded)
    ∧ ∃ s t u, Step s (.main quietFrame) t ∧ Run Step t (mainSteps 2) u ∧ u.Stranded := by
  have hexec : ((exec stopsSeen (start (sizeRegister 100 100) (fun _ => 0#8) fun _ => 0#8)
      (mainSteps 14 ++ [.overlay] ++ quietFrameSteps ++ [.video (sizeRegister 104 100)]
        ++ mainSteps 4)).map fun s => s.mainPc matches .join) = some true := by decide +kernel
  obtain ⟨s, hs, hpc⟩ := Option.map_eq_some_iff.mp hexec
  have hrun := run_of_exec (G := StopsSeen) (fun _ _ => stopsSeen_of_test) hs
  refine ⟨⟨_, s, hrun, ?_, (not_stranded_of_stopsSeen _ _ _).1 _ s hrun⟩, ?_⟩
  · split at hpc
    · assumption
    · exact absurd hpc (by simp)
  · set s₀ : Sys :=
      { wrappedSession with mainPc := .stop } with hs₀
    have hstep : Step s₀ (.main quietFrame)
        { s₀ with pipe := { s₀.pipe with renderRunning := false }, mainPc := .loopTest } := rfl
    obtain ⟨u, hu, hstranded⟩ := (not_stranded_of_stopsSeen 0#32 (fun _ => 0#8) fun _ => 0#8).2
      s₀ _ _ hstep fun hseen => (hseen rfl ⟨_, rfl⟩).elim (fun h => h.elim (by decide) (by decide))
        fun h => h (Or.inl rfl)
    exact ⟨s₀, _, u, hstep, hu, hstranded⟩

/-- Only SIGINT ends it: no other step of any party leads out of a stranded state. -/
theorem stranded_forever (hs : s.Stranded) (hdown : s.pipe.renderRunning = false)
    (hrun : Run (Guard Step fun _ a => a ≠ .sigint) s as t) :
    t.Stranded ∧ t.pipe.renderRunning = false := by
  refine hrun.invariant (I := fun s => s.Stranded ∧ s.pipe.renderRunning = false) ⟨hs, hdown⟩ ?_
  rintro s a t ⟨⟨hpc, hint, hstarting⟩, hdown⟩ ⟨hstep, hne⟩
  cases sysMove_of_step hstep with
  | main hmove =>
      cases hmove with
      | wait => exact ⟨⟨hpc, hint, hstarting⟩, hdown⟩
      | join _ hdone => simp_all [Starting]
      | jump hj => cases hj <;> simp_all
      | submit hsub => cases hsub <;> simp_all
      | fault => exact ⟨⟨hpc, hint, hstarting⟩, hdown⟩
      | _ => simp_all
  | overlay hp =>
      have hmove := overlayMove_of_step hp
      have hdown' := (Handoff.overlayMove_ring hmove).1.trans hdown
      cases hmove with
      | asleep _ _ => exact ⟨⟨hpc, hint, Or.inr rfl⟩, hdown'⟩
      | retry _ => exact ⟨⟨hpc, hint, Or.inl rfl⟩, hdown'⟩
      | quit _ hsig => exact absurd (Or.inr hsig) hint
      | _ => simp_all [Starting]
  | sigint => exact absurd rfl hne
  | sigintReturn hhandler => exact absurd (Or.inl hhandler) hint
  | _ => exact ⟨⟨hpc, hint, hstarting⟩, hdown⟩

/-- One frame is rendered, the resolution changes, and the overlay thread has not run yet. -/
def quickRun : List Action :=
  mainSteps 14 ++ quietFrameSteps ++ [.video (sizeRegister 104 100)] ++ mainSteps 4

/-- **The overlay thread is stranded.** -/
theorem stranded_quick :
    ∃ s, Run Step (start (sizeRegister 100 100) (fun _ => 0#8) fun _ => 0#8) quickRun s
      ∧ s.Stranded := by
  have hexec : ((exec (fun _ => true) (start (sizeRegister 100 100) (fun _ => 0#8) fun _ => 0#8)
      quickRun).map fun s => (s.mainPc matches .join, s.handler, s.pipe.sigint, s.pipe.overlayPc))
        = some (true, false, false, .waitStart) := by decide +kernel
  obtain ⟨s, hs, hobs⟩ := Option.map_eq_some_iff.mp hexec
  simp only [Prod.mk.injEq] at hobs
  obtain ⟨hpc, hhandler, hsig, hwait⟩ := hobs
  refine ⟨s, run_of_steps hs, ?_, by simp [Interrupted, hhandler, hsig], Or.inl hwait⟩
  split at hpc
  · assumption
  · exact absurd hpc (by simp)

end Sys

end Danmaku
