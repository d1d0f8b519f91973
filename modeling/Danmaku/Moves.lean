import Danmaku.Threads

/-!
What the steps of the main thread can do, and the protocol that they follow.

* `Jump`: the control moves, which change nothing but the place in the program; `MainMove`: all
  moves, with what they find and what they change; `mainMove_of_step`: the inversion of
  `mainStep`.
* `SysMove`, `sysMove_of_step`: the same for the steps of all the parties.
* `Sys.phase`, `Sys.handoff`: the protocol state, and `step_handoff`: **every step of the system
  is a step of the protocol**.
-/

namespace Danmaku

open DmaEngine Transition

/-- The moves of the main thread that change nothing but `mainPc`. -/
inductive Jump (s : Sys) : MainPc → Prop
  | quit (hpc : s.mainPc = .loop) : Jump s .exited
  | enter (hpc : s.mainPc = .loop) (hsig : s.pipe.sigint = false) : Jump s .subMain
  | clearSkipped {i : ℕ} (hpc : s.mainPc = .clearing i) (hrun : s.pipe.renderRunning = false) :
      Jump s (.clearing (i + 1))
  | clearTry {i : ℕ} (hpc : s.mainPc = .clearing i) (hrun : s.pipe.renderRunning = true) :
      Jump s (.clearingSubmit i)
  | clearFull {i : ℕ} (hpc : s.mainPc = .clearingSubmit i) : Jump s (.clearing i)
  | cleared {i : ℕ} (hpc : s.mainPc = .clearing i) : Jump s .waitIdle
  | idle (hpc : s.mainPc = .waitIdle) (hidle : s.renderDma.outstanding = []) : Jump s .setRunning
  | busy (hpc : s.mainPc = .waitIdle) : Jump s .waitIdle
  | enterLoop (hpc : s.mainPc = .loopTest) (hrun : s.pipe.renderRunning = true) :
      Jump s .ringRunning
  | leaveLoop (hpc : s.mainPc = .loopTest) (hrun : s.pipe.renderRunning = false) : Jump s .finish
  | ringTry (hpc : s.mainPc = .ringRunning) (hrun : s.pipe.renderRunning = true) :
      Jump s .ringTest
  | ringStopped (hpc : s.mainPc = .ringRunning) (hrun : s.pipe.renderRunning = false) :
      Jump s .ringBreak
  | ringFull (hpc : s.mainPc = .ringTest) : Jump s .ringRunning
  | ringRoom (hpc : s.mainPc = .ringTest) (hsize : s.pipe.ring.ringSize < numFrameBuffer - 1) :
      Jump s .ringBreak
  | ringGo (hpc : s.mainPc = .ringBreak) (hrun : s.pipe.renderRunning = true) :
      Jump s .emptyRunning
  | ringEnd (hpc : s.mainPc = .ringBreak) (hrun : s.pipe.renderRunning = false) : Jump s .finish
  | emptyTry (hpc : s.mainPc = .emptyRunning) (hrun : s.pipe.renderRunning = true) :
      Jump s .emptyTest
  | emptyStopped (hpc : s.mainPc = .emptyRunning) (hrun : s.pipe.renderRunning = false) :
      Jump s (.emptyBreak (-1))
  | emptyNone (hpc : s.mainPc = .emptyTest) : Jump s .emptyRunning
  | emptySome (hpc : s.mainPc = .emptyTest) (hidx : s.pipe.ring.getEmptyBuffer ≠ -1) :
      Jump s (.emptyBreak s.pipe.ring.getEmptyBuffer)
  | frame {idx : ℤ} (hpc : s.mainPc = .emptyBreak idx) (hrun : s.pipe.renderRunning = true) :
      Jump s (.clearRunning idx.toNat)
  | frameEnd {idx : ℤ} (hpc : s.mainPc = .emptyBreak idx) (hrun : s.pipe.renderRunning = false) :
      Jump s .finish
  | clearFrame {idx : ℕ} (hpc : s.mainPc = .clearRunning idx) (hrun : s.pipe.renderRunning = true) :
      Jump s (.clearSubmit idx)
  | clearFrameSkipped {idx : ℕ} (hpc : s.mainPc = .clearRunning idx)
      (hrun : s.pipe.renderRunning = false) : Jump s (.feed idx)
  | clearFrameFull {idx : ℕ} (hpc : s.mainPc = .clearSubmit idx) : Jump s (.clearRunning idx)
  | drawn {idx : ℕ} (hpc : s.mainPc = .drawRunning idx []) : Jump s (.drainRunning idx)
  | draw {idx : ℕ} {d : Descriptor} {rest : List Descriptor}
      (hpc : s.mainPc = .drawRunning idx (d :: rest)) (hrun : s.pipe.renderRunning = true) :
      Jump s (.drawSubmit idx d rest)
  | drawSkipped {idx : ℕ} {d : Descriptor} {rest : List Descriptor}
      (hpc : s.mainPc = .drawRunning idx (d :: rest)) (hrun : s.pipe.renderRunning = false) :
      Jump s (.drawRunning idx rest)
  | drawFull {idx : ℕ} {d : Descriptor} {rest : List Descriptor}
      (hpc : s.mainPc = .drawSubmit idx d rest) : Jump s (.drawRunning idx (d :: rest))
  | drain {idx : ℕ} (hpc : s.mainPc = .drainRunning idx) (hrun : s.pipe.renderRunning = true) :
      Jump s (.drainTest idx)
  | drainSkipped {idx : ℕ} (hpc : s.mainPc = .drainRunning idx)
      (hrun : s.pipe.renderRunning = false) : Jump s (.commit idx)
  | drained {idx : ℕ} (hpc : s.mainPc = .drainTest idx) (hidle : s.renderDma.outstanding = []) :
      Jump s (.commit idx)
  | draining {idx : ℕ} (hpc : s.mainPc = .drainTest idx) : Jump s (.drainRunning idx)
  | changed (hpc : s.mainPc = .resolution) : Jump s .stop
  | unchanged (hpc : s.mainPc = .resolution) : Jump s .loopTest

/-- The submissions to the render DMA, with the descriptor and the place afterwards. -/
inductive Submission (s : Sys) : Descriptor → MainPc → Prop
  | clearing {i : ℕ} (hpc : s.mainPc = .clearingSubmit i) :
      Submission s (clearScreen s.screen s.blankScreen (Sys.buffer i)) (.clearing (i + 1))
  | clear {idx : ℕ} (hpc : s.mainPc = .clearSubmit idx) :
      Submission s (clearScreen s.screen s.blankScreen (Sys.buffer idx)) (.feed idx)
  | draw {idx : ℕ} {d : Descriptor} {rest : List Descriptor}
      (hpc : s.mainPc = .drawSubmit idx d rest) : Submission s d (.drawRunning idx rest)

/-- The moves of the main thread. -/
inductive MainMove (inp : FrameInput) (s : Sys) : Sys → Prop
  | jump {pc : MainPc} (hjump : Jump s pc) : MainMove inp s { s with mainPc := pc }
  | subMain (hpc : s.mainPc = .subMain) : MainMove inp s (subMain s)
  | create (hpc : s.mainPc = .create) :
      MainMove inp s { s with pipe := { s.pipe with overlayPc := .waitStart }, mainPc := .install }
  | install (hpc : s.mainPc = .install) :
      MainMove inp s { s with installed := true, mainPc := .clearing 0 }
  | submit {d : Descriptor} {pc : MainPc} (hsub : Submission s d pc) :
      MainMove inp s { s with renderDma := s.renderDma.submit d, mainPc := pc }
  | setRunning (hpc : s.mainPc = .setRunning) :
      MainMove inp s { s with pipe := { s.pipe with renderRunning := true }, mainPc := .loopTest }
  | feed {idx : ℕ} {r : Renderer} {calls : List Call} (hpc : s.mainPc = .feed idx)
      (hr : renderFrame s.screen inp s.renderer = some (r, calls)) :
      MainMove inp s { s with
        renderer := r, mainPc := .drawRunning idx (drawLayers s.screen (Sys.buffer idx) r) }
  | commit {idx : ℕ} {ring : Ring} (hpc : s.mainPc = .commit idx)
      (hring : s.pipe.ring.commitBuffer = some ring) :
      MainMove inp s { s with pipe := { s.pipe with ring := ring }, mainPc := .resolution }
  | commitFault {idx : ℕ} (hpc : s.mainPc = .commit idx)
      (hring : s.pipe.ring.commitBuffer = none) :
      MainMove inp s { s with pipe := { s.pipe with fault := some .commitBuffer } }
  | fault {f : Fault} (hpc : ∀ idx, s.mainPc ≠ .commit idx)
      (hf : f = .getFrameBuffer ∨ f = .queueOverrun) :
      MainMove inp s { s with pipe := { s.pipe with fault := some f } }
  | stop (hpc : s.mainPc = .stop) :
      MainMove inp s { s with pipe := { s.pipe with renderRunning := false }, mainPc := .loopTest }
  | finish (hpc : s.mainPc = .finish) :
      MainMove inp s { s with pipe := { s.pipe with renderRunning := false }, mainPc := .join }
  | join (hpc : s.mainPc = .join) (hdone : s.pipe.overlayPc = .done) :
      MainMove inp s { s with pipe := { s.pipe with overlayPc := .absent }, mainPc := .loop }
  | wait (hpc : s.mainPc = .join) : MainMove inp s s

variable {inp : FrameInput} {s t : Sys}

lemma renderStartDMA_eq_some {dma dma' : Engine Descriptor} {d : Descriptor}
    (h : renderStartDMA dma d = some dma') : dma' = dma.submit d := by
  rw [renderStartDMA] at h
  split at h
  · exact absurd h (by simp)
  · exact (Option.some.inj h).symm

/-- What `SubMain` does: it goes back to its loop, it ends the program, or a session begins, with
its blank screen inside the DMA area. -/
lemma subMain_cases (s : Sys) :
    subMain s = { s with mainPc := .loop } ∨ subMain s = { s with mainPc := .exited }
    ∨ ∃ scr blank driver, Screen.ofFrameSize? s.resolution = some scr
      ∧ allocRenderBuf s.driver scr.imgSize = some (blank, driver)
      ∧ blank + scr.imgSize.toNat ≤ driver.szDynArea.toNat
      ∧ subMain s = { s with
          screen := scr
          blankScreen := blank
          driver := driver
          renderer := { s.renderer with
            canvas := { s.renderer.canvas with area := scr.initBlankScreen blank s.area } }
          mainPc := .create } := by
  rw [subMain]
  split
  · exact Or.inl rfl
  · split
    · exact Or.inr (Or.inl rfl)
    · rename_i scr hscr _ blank driver halloc
      split
      · exact Or.inr (Or.inl rfl)
      · rename_i hroom
        exact Or.inr (Or.inr ⟨scr, blank, driver, hscr, halloc, Nat.le_of_not_gt hroom, rfl⟩)

@[simp] lemma subMain_pipe (s : Sys) : (subMain s).pipe = s.pipe := by
  rcases subMain_cases s with he | he | ⟨scr, blank, driver, -, -, -, he⟩ <;> rw [he]

@[simp] lemma subMain_fb (s : Sys) : (subMain s).fb = s.fb := by
  rcases subMain_cases s with he | he | ⟨scr, blank, driver, -, -, -, he⟩ <;> rw [he]

@[simp] lemma subMain_handler (s : Sys) : (subMain s).handler = s.handler := by
  rcases subMain_cases s with he | he | ⟨scr, blank, driver, -, -, -, he⟩ <;> rw [he]

@[simp] lemma subMain_renderDma (s : Sys) : (subMain s).renderDma = s.renderDma := by
  rcases subMain_cases s with he | he | ⟨scr, blank, driver, -, -, -, he⟩ <;> rw [he]

/-- A jump that depends on `render_running`. -/
lemma jump_flag {pc pc' : MainPc} (h : s.pipe.renderRunning = true → Jump s pc)
    (h' : s.pipe.renderRunning = false → Jump s pc') :
    MainMove inp s { s with mainPc := if s.pipe.renderRunning then pc else pc' } := by
  cases hrun : s.pipe.renderRunning with
  | true => exact .jump (h hrun)
  | false => exact .jump (h' hrun)

/-- The status of the render DMA decides a jump. -/
lemma jump_idle {pc pc' : MainPc} (h : s.renderDma.outstanding = [] → Jump s pc) (h' : Jump s pc') :
    MainMove inp s { s with mainPc := if renderDMAIdle s.renderDma then pc else pc' } := by
  cases hidle : renderDMAIdle s.renderDma with
  | true => exact .jump (h (Engine.idle_iff.mp hidle))
  | false => exact .jump h'

/-- **The inversion of `mainStep`.** -/
lemma mainMove_of_step (h : mainStep inp s = some t) : MainMove inp s t := by
  unfold mainStep at h
  split at h
  case h_1 hpc =>
    obtain rfl := Option.some.inj h
    split
    · exact .jump (.quit hpc)
    · exact .jump (.enter hpc (eq_false_of_ne_true ‹_›))
  case h_2 hpc =>
    obtain rfl := Option.some.inj h
    exact .subMain hpc
  case h_3 hpc =>
    obtain rfl := Option.some.inj h
    exact .create hpc
  case h_4 hpc =>
    obtain rfl := Option.some.inj h
    exact .install hpc
  case h_5 i hpc =>
    split at h <;> obtain rfl := Option.some.inj h
    · exact jump_flag (.clearTry hpc) (.clearSkipped hpc)
    · exact .jump (.cleared hpc)
  case h_6 i hpc =>
    split at h <;> obtain rfl := Option.some.inj h
    · exact .jump (.clearFull hpc)
    · rename_i hdma
      rw [renderStartDMA_eq_some hdma]
      exact .submit (.clearing hpc)
  case h_7 hpc =>
    obtain rfl := Option.some.inj h
    exact jump_idle (.idle hpc) (.busy hpc)
  case h_8 hpc =>
    obtain rfl := Option.some.inj h
    exact .setRunning hpc
  case h_9 hpc =>
    obtain rfl := Option.some.inj h
    exact jump_flag (.enterLoop hpc) (.leaveLoop hpc)
  case h_10 hpc =>
    obtain rfl := Option.some.inj h
    exact jump_flag (.ringTry hpc) (.ringStopped hpc)
  case h_11 hpc =>
    obtain rfl := Option.some.inj h
    split
    · exact .jump (.ringFull hpc)
    · exact .jump (.ringRoom hpc (by omega))
  case h_12 hpc =>
    obtain rfl := Option.some.inj h
    exact jump_flag (.ringGo hpc) (.ringEnd hpc)
  case h_13 hpc =>
    obtain rfl := Option.some.inj h
    exact jump_flag (.emptyTry hpc) (.emptyStopped hpc)
  case h_14 hpc =>
    obtain rfl := Option.some.inj h
    split
    · exact .jump (.emptyNone hpc)
    · exact .jump (.emptySome hpc ‹_›)
  case h_15 idx hpc =>
    split at h
    · rename_i hrun
      split at h <;> obtain rfl := Option.some.inj h
      · exact .jump (.frame hpc hrun)
      · exact .fault (by simp [hpc]) (Or.inl rfl)
    · rename_i hrun
      obtain rfl := Option.some.inj h
      exact .jump (.frameEnd hpc (by simpa using hrun))
  case h_16 idx hpc =>
    obtain rfl := Option.some.inj h
    exact jump_flag (.clearFrame hpc) (.clearFrameSkipped hpc)
  case h_17 idx hpc =>
    split at h <;> obtain rfl := Option.some.inj h
    · exact .jump (.clearFrameFull hpc)
    · rename_i hdma
      rw [renderStartDMA_eq_some hdma]
      exact .submit (.clear hpc)
  case h_18 idx hpc =>
    split at h <;> obtain rfl := Option.some.inj h
    · exact .fault (by simp [hpc]) (Or.inr rfl)
    · rename_i hr
      exact .feed hpc hr
  case h_19 idx hpc =>
    obtain rfl := Option.some.inj h
    exact .jump (.drawn hpc)
  case h_20 idx d rest hpc =>
    obtain rfl := Option.some.inj h
    exact jump_flag (.draw hpc) (.drawSkipped hpc)
  case h_21 idx d rest hpc =>
    split at h <;> obtain rfl := Option.some.inj h
    · exact .jump (.drawFull hpc)
    · rename_i hdma
      rw [renderStartDMA_eq_some hdma]
      exact .submit (.draw hpc)
  case h_22 idx hpc =>
    obtain rfl := Option.some.inj h
    exact jump_flag (.drain hpc) (.drainSkipped hpc)
  case h_23 idx hpc =>
    obtain rfl := Option.some.inj h
    exact jump_idle (.drained hpc) (.draining hpc)
  case h_24 idx hpc =>
    split at h <;> obtain rfl := Option.some.inj h
    · rename_i hring
      exact .commit hpc hring
    · rename_i hring
      exact .commitFault hpc hring
  case h_25 hpc =>
    obtain rfl := Option.some.inj h
    split
    · exact .jump (.changed hpc)
    · exact .jump (.unchanged hpc)
  case h_26 hpc =>
    obtain rfl := Option.some.inj h
    exact .stop hpc
  case h_27 hpc =>
    obtain rfl := Option.some.inj h
    exact .finish hpc
  case h_28 hpc =>
    split at h <;> obtain rfl := Option.some.inj h
    · exact .join hpc ‹_›
    · exact .wait hpc
  case h_29 hpc => exact absurd h (by simp)

/-- The moves of the system, one constructor for each action. -/
inductive SysMove (s : Sys) : Action → Sys → Prop
  | main {inp : FrameInput} {t : Sys} (hmove : MainMove inp s t) : SysMove s (.main inp) t
  | overlay {p : Pipe} (hp : overlayStep s.screen.imgSize s.pipe = some p) :
      SysMove s .overlay { s with pipe := p }
  | overlayDequeue {e : Engine OverlayDescriptor} (he : s.pipe.overlayDma.dequeue? = some e) :
      SysMove s .overlayDequeue { s with pipe := { s.pipe with overlayDma := e } }
  | overlayFinish {d : OverlayDescriptor} {e : Engine OverlayDescriptor}
      (he : s.pipe.overlayDma.finish? = some (d, e)) :
      SysMove s .overlayFinish { s with pipe := { s.pipe with overlayDma := e } }
  | renderDequeue {e : Engine Descriptor} (he : s.renderDma.dequeue? = some e) :
      SysMove s .renderDequeue { s with renderDma := e }
  | renderFinish {d : Descriptor} {e : Engine Descriptor}
      (he : s.renderDma.finish? = some (d, e)) :
      SysMove s .renderFinish { s with renderDma := e, fb := transfer s.area d s.fb }
  | video {resolution : BitVec 32} :
      SysMove s (.video resolution) { s with resolution := resolution }
  | sigint :
      SysMove s .sigint
        { s with pipe := { s.pipe with renderRunning := false }, handler := true }
  | sigintReturn (hhandler : s.handler = true) :
      SysMove s .sigintReturn { s with pipe := { s.pipe with sigint := true }, handler := false }

/-- **The inversion of `step`.** -/
lemma sysMove_of_step {a : Action} (h : Sys.Step s a t) : SysMove s a t := by
  rw [Sys.Step] at h
  cases a with
  | main inp => exact .main (mainMove_of_step (Sys.mainStep_of_step h).2)
  | overlay =>
      rw [step] at h
      split at h
      · obtain ⟨p, hp, rfl⟩ := Option.map_eq_some_iff.mp h
        exact .overlay hp
      · exact absurd h (by simp)
  | overlayDequeue =>
      obtain ⟨e, he, rfl⟩ := Option.map_eq_some_iff.mp h
      exact .overlayDequeue he
  | overlayFinish =>
      obtain ⟨⟨d, e⟩, he, rfl⟩ := Option.map_eq_some_iff.mp h
      exact .overlayFinish he
  | renderDequeue =>
      obtain ⟨e, he, rfl⟩ := Option.map_eq_some_iff.mp h
      exact .renderDequeue he
  | renderFinish =>
      obtain ⟨⟨d, e⟩, he, rfl⟩ := Option.map_eq_some_iff.mp h
      exact .renderFinish he
  | video resolution =>
      obtain rfl := Option.some.inj h
      exact .video
  | sigint =>
      rw [step] at h
      split at h
      · obtain rfl := Option.some.inj h
        exact .sigint
      · exact absurd h (by simp)
  | sigintReturn =>
      rw [step] at h
      split at h
      · obtain rfl := Option.some.inj h
        exact .sigintReturn ‹_›
      · exact absurd h (by simp)

/-! ### The protocol -/

namespace Sys

/-- The place of the main thread in the protocol. A test of the ring counts only while
`render_running` is set: the loops around it are left without it as well. -/
def phase (s : Sys) : RenderPhase :=
  match s.mainPc with
  | .loop | .subMain | .create | .exited => .off
  | .install | .clearing _ | .clearingSubmit _ | .waitIdle | .setRunning => .starting
  | .loopTest | .ringRunning | .ringTest | .resolution | .stop | .finish => .idle
  | .ringBreak | .emptyRunning | .emptyTest => if s.pipe.renderRunning then .tested else .idle
  | .emptyBreak idx => if s.pipe.renderRunning then .filling idx.toNat else .idle
  | .clearRunning idx | .clearSubmit idx | .feed idx | .drawRunning idx _ | .drawSubmit idx _ _
  | .drainRunning idx | .drainTest idx | .commit idx => .filling idx
  | .join => .stopped

/-- The protocol state. -/
def handoff (s : Sys) : Handoff := ⟨s.pipe, s.phase⟩

/-- What the protocol sees of a step. -/
def label (s : Sys) : Action → HandoffLabel
  | .overlay => .overlay s.screen.imgSize
  | .main _ => match s.mainPc with
    | .commit _ => .commit
    | _ => .other
  | _ => .other

variable {pc : MainPc} {a : Action}

lemma label_main (hpc : ∀ idx, s.mainPc ≠ .commit idx) : s.label (.main inp) = .other := by
  cases h : s.mainPc <;> simp_all [label]

lemma stutter_of_phase (hpipe : t.pipe = s.pipe) (hphase : t.phase = s.phase) :
    Handoff.Step s.handoff .other t.handoff := by
  have heq : t.handoff = s.handoff := by simp only [handoff, hpipe, hphase]
  rw [heq]
  exact .stutter

/-- The control moves of the main thread are steps of the protocol. -/
lemma jump_handoff (inp : FrameInput) (hj : Jump s pc) :
    s.label (.main inp) = .other
      ∧ Handoff.Step s.handoff .other { s with mainPc := pc }.handoff := by
  refine ⟨label_main ?_, ?_⟩
  · intro idx
    cases hj <;> simp_all
  · cases hj with
    | ringRoom hpc hsize =>
        cases hrun : s.pipe.renderRunning with
        | true =>
            have h' : { s with mainPc := .ringBreak }.handoff
                = { s.handoff with phase := .tested } := by
              simp [handoff, phase, hrun]
            rw [h']
            exact .test (by simp [handoff, phase, hpc]) hsize
        | false => exact stutter_of_phase rfl (by simp [phase, hpc, hrun])
    | emptySome hpc hidx =>
        cases hrun : s.pipe.renderRunning with
        | true =>
            have h' : { s with mainPc := .emptyBreak s.pipe.ring.getEmptyBuffer }.handoff
                = { s.handoff with phase := .filling s.pipe.ring.getEmptyBuffer.toNat } := by
              simp [handoff, phase, hrun]
            rw [h']
            exact .acquire (by simp [handoff, phase, hpc, hrun]) hidx
        | false => exact stutter_of_phase rfl (by simp [phase, hpc, hrun])
    | emptyNone hpc => exact stutter_of_phase rfl (by simp [phase, hpc])
    | _ => exact stutter_of_phase rfl (by simp_all [phase])

/-- The moves of the main thread are steps of the protocol. -/
lemma mainMove_handoff (h : MainMove inp s t) :
    Handoff.Step s.handoff (s.label (.main inp)) t.handoff := by
  cases h with
  | jump hj =>
      obtain ⟨hl, hstep⟩ := jump_handoff inp hj
      rw [hl]
      exact hstep
  | subMain hpc =>
      rw [label_main (by simp [hpc])]
      rcases subMain_cases s with he | he | ⟨scr, blank, driver, -, -, -, he⟩ <;> rw [he] <;>
      exact stutter_of_phase rfl (by simp [phase, hpc])
  | create hpc =>
      rw [label_main (by simp [hpc])]
      exact .spawn (by simp [handoff, phase, hpc])
  | install hpc =>
      rw [label_main (by simp [hpc])]
      exact stutter_of_phase rfl (by simp [phase, hpc])
  | submit hsub =>
      rw [label_main (by cases hsub <;> simp_all)]
      exact stutter_of_phase rfl (by cases hsub <;> simp_all [phase])
  | setRunning hpc =>
      rw [label_main (by simp [hpc])]
      exact .raise (by simp [handoff, phase, hpc])
  | feed hpc hr =>
      rw [label_main (by simp [hpc])]
      exact stutter_of_phase rfl (by simp [phase, hpc])
  | @commit idx ring hpc hring =>
      have hphase : s.handoff.phase = .filling idx := by simp [handoff, phase, hpc]
      rw [show s.label (.main inp) = .commit by simp [label, hpc]]
      exact .commit hphase hring
  | @commitFault idx hpc hring =>
      have hphase : s.handoff.phase = .filling idx := by simp [handoff, phase, hpc]
      rw [show s.label (.main inp) = .commit by simp [label, hpc]]
      have h' : { s with pipe := { s.pipe with fault := some .commitBuffer } }.handoff
          = { s.handoff with pipe := { s.handoff.pipe with fault := some .commitBuffer } } := by
        simp [handoff, phase, hpc]
      rw [h']
      exact .commitFault hphase hring
  | @fault f hpc hf =>
      rw [label_main hpc]
      have h' : { s with pipe := { s.pipe with fault := some f } }.handoff
          = { s.handoff with pipe := { s.handoff.pipe with fault := some f } } := rfl
      rw [h']
      exact .fault hf
  | stop hpc =>
      rw [label_main (by simp [hpc])]
      exact .lower (Or.inl (by simp [handoff, phase, hpc]))
  | finish hpc =>
      rw [label_main (by simp [hpc])]
      exact .stop (by simp [handoff, phase, hpc])
  | join hpc hdone =>
      rw [label_main (by simp [hpc])]
      exact .join (by simp [handoff, phase, hpc]) hdone
  | wait hpc =>
      rw [label_main (by simp [hpc])]
      exact .stutter

/-- Clearing the flag takes the render thread back from a test of the ring that counts only
under the flag. -/
lemma phase_lower (s : Sys) (handler : Bool) :
    let t := { s with pipe := { s.pipe with renderRunning := false }, handler := handler }
    t.phase = s.phase ∨ t.phase = .idle ∧ (s.phase = .tested ∨ ∃ i, s.phase = .filling i) := by
  cases hpc : s.mainPc <;> cases hrun : s.pipe.renderRunning <;> simp [phase, hpc, hrun]

/-- **Every step of the system is a step of the protocol.** -/
theorem step_handoff (h : Step s a t) : Handoff.Step s.handoff (s.label a) t.handoff := by
  cases sysMove_of_step h with
  | main hmove => exact mainMove_handoff hmove
  | @overlay p hp =>
      have hphase : { s with pipe := p }.phase = s.phase := by
        have hrun := (Handoff.overlayMove_ring (overlayMove_of_step hp)).1
        simp only [phase, hrun]
      have h' : { s with pipe := p }.handoff = { s.handoff with pipe := p } := by
        simp only [handoff, hphase]
      rw [h']
      exact .overlay hp
  | overlayDequeue he => exact .dequeue he
  | overlayFinish he => exact .finish he
  | renderDequeue he => exact .stutter
  | renderFinish he => exact .stutter
  | video => exact .stutter
  | sigint => exact .lower (phase_lower s true)
  | sigintReturn => exact .sigint

/-- The protocol's invariant holds in every run from the start of the program. -/
lemma basic_start (resolution : BitVec 32) (area fb : ℕ → Byte) :
    (start resolution area fb).handoff.Basic :=
  ⟨⟨rfl, rfl⟩, trivial, by simp [handoff, start, Pipe.RingFault]⟩

end Sys

end Danmaku
