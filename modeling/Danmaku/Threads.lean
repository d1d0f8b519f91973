import Danmaku.Frames
import Danmaku.Handoff
import Danmaku.Lib.Transition

/-!
The running program: `main` with `SubMain` and `Render`, `Thread4Overlay`, the two DMAs, the
video input and the SIGINT handler.

* `Sys`: the whole state; the frame buffers and the DMA area are byte arrays, addresses are
  offsets into them.
* `mainStep`: the main thread, one access to shared state at a time. `RenderOnce` between
  `ClearScreen` and the drawing touches no state that another thread reads and is one step.
* `Action`, `step`: the steps of all the parties; `Sys.Step` as a relation. A failed assertion
  stops the threads.
* `Sys.exec`: runs computed step by step.
-/

namespace Danmaku

open DmaEngine Transition

/-- The next step of the main thread. -/
inductive MainPc
  /-- `while (!sigint)` of `main` -/
  | loop
  /-- `SubMain` up to the creation of the overlay thread -/
  | subMain
  | create
  | install
  /-- the loop over the frame buffers at the start of `Render` -/
  | clearing (i : ℕ)
  | clearingSubmit (i : ℕ)
  | waitIdle
  | setRunning
  /-- the loop of `Render` -/
  | loopTest
  | ringRunning
  | ringTest
  | ringBreak
  | emptyRunning
  | emptyTest
  | emptyBreak (idx : ℤ)
  /-- `RenderOnce` for buffer `idx` -/
  | clearRunning (idx : ℕ)
  | clearSubmit (idx : ℕ)
  | feed (idx : ℕ)
  | drawRunning (idx : ℕ) (rest : List Descriptor)
  | drawSubmit (idx : ℕ) (d : Descriptor) (rest : List Descriptor)
  /-- waiting for the render DMA, then `CommitBuffer` -/
  | drainRunning (idx : ℕ)
  | drainTest (idx : ℕ)
  | commit (idx : ℕ)
  | resolution
  | stop
  | finish
  | join
  | exited

/-- The state of the program, its devices and its memory. -/
structure Sys where
  pipe : Pipe
  mainPc : MainPc
  /-- `screen_width`, `screen_height`, and with them `edge` and `img_size` -/
  screen : Screen
  /-- `blank_screen` -/
  blankScreen : ℕ
  driver : DriverCtx
  /-- the size register that `DanmakuHW_GetFrameSize` reads -/
  resolution : BitVec 32
  renderer : Renderer
  renderDma : Engine Descriptor
  /-- the frame buffer area -/
  fb : ℕ → Byte
  /-- `intHandler` is installed -/
  installed : Bool
  /-- `intHandler` is between its two assignments -/
  handler : Bool

namespace Sys

/-- The DMA area. -/
def area (s : Sys) : ℕ → Byte := s.renderer.canvas.area

/-- The address of frame buffer `idx`. -/
def buffer (idx : ℕ) : ℕ := idx * frameBufferSize

end Sys

/-- `ResolutionChanged`. -/
def resolutionChanged (s : Sys) : Bool :=
  getFrameSize s.resolution != (s.screen.height, s.screen.width)

/-- `SubMain` up to the creation of the overlay thread: the acceptance test, `img_size`, `edge`
and `InitBlankScreen`. The answer of the allocator may be `exit(1)`; and where its sum wrapped
around, the loops of `InitBlankScreen` run out of the mapping of the DMA area, which ends the
program too. -/
def subMain (s : Sys) : Sys :=
  match Screen.ofFrameSize? s.resolution with
  | none => { s with mainPc := .loop }
  | some scr =>
      match allocRenderBuf s.driver scr.imgSize with
      | none => { s with mainPc := .exited }
      | some (blank, driver) =>
          if blank + scr.imgSize.toNat > driver.szDynArea.toNat then { s with mainPc := .exited }
          else
            { s with
              screen := scr
              blankScreen := blank
              driver := driver
              renderer := { s.renderer with
                canvas := { s.renderer.canvas with
                  area := scr.initBlankScreen blank s.renderer.canvas.area } }
              mainPc := .create }

/-- One step of the main thread; `inp` is what a frame reads from outside. -/
def mainStep (inp : FrameInput) (s : Sys) : Option Sys :=
  match s.mainPc with
  | .loop => some { s with mainPc := if s.pipe.sigint then .exited else .subMain }
  | .subMain => some (subMain s)
  | .create =>
      some { s with pipe := { s.pipe with overlayPc := .waitStart }, mainPc := .install }
  | .install => some { s with installed := true, mainPc := .clearing 0 }
  -- for(i..) ClearScreen(..GetFrameBuffer(hDriver, i)); while(!DanmakuHW_RenderDMAIdle(hDriver));
  | .clearing i =>
      if i < numFrameBuffer then
        some { s with
          mainPc := if s.pipe.renderRunning then .clearingSubmit i else .clearing (i + 1) }
      else some { s with mainPc := .waitIdle }
  | .clearingSubmit i =>
      match renderStartDMA s.renderDma (clearScreen s.screen s.blankScreen (Sys.buffer i)) with
      | none => some { s with mainPc := .clearing i }
      | some dma => some { s with renderDma := dma, mainPc := .clearing (i + 1) }
  | .waitIdle =>
      some { s with mainPc := if renderDMAIdle s.renderDma then .setRunning else .waitIdle }
  | .setRunning =>
      some { s with pipe := { s.pipe with renderRunning := true }, mainPc := .loopTest }
  -- while (render_running) {
  | .loopTest => some { s with mainPc := if s.pipe.renderRunning then .ringRunning else .finish }
  -- while(render_running && RingSize() >= NUM_FRAME_BUFFER-1) pthread_yield();
  | .ringRunning =>
      some { s with mainPc := if s.pipe.renderRunning then .ringTest else .ringBreak }
  | .ringTest =>
      some { s with
        mainPc := if s.pipe.ring.ringSize ≥ numFrameBuffer - 1 then .ringRunning else .ringBreak }
  | .ringBreak =>
      some { s with mainPc := if s.pipe.renderRunning then .emptyRunning else .finish }
  -- while(render_running && (idx = GetEmptyBuffer()) == -1) pthread_yield();
  | .emptyRunning =>
      -- left without a call, `idx` is indeterminate; the flag stays down, so it is never read
      some { s with mainPc := if s.pipe.renderRunning then .emptyTest else .emptyBreak (-1) }
  | .emptyTest =>
      some { s with
        mainPc := if s.pipe.ring.getEmptyBuffer = -1 then .emptyRunning
          else .emptyBreak s.pipe.ring.getEmptyBuffer }
  | .emptyBreak idx =>
      if s.pipe.renderRunning then
        match getFrameBuffer idx with
        | some _ => some { s with mainPc := .clearRunning idx.toNat }
        | none => some { s with pipe := { s.pipe with fault := some .getFrameBuffer } }
      else some { s with mainPc := .finish }
  -- RenderOnce: ClearScreen
  | .clearRunning idx =>
      some { s with mainPc := if s.pipe.renderRunning then .clearSubmit idx else .feed idx }
  | .clearSubmit idx =>
      match renderStartDMA s.renderDma (clearScreen s.screen s.blankScreen (Sys.buffer idx)) with
      | none => some { s with mainPc := .clearRunning idx }
      | some dma => some { s with renderDma := dma, mainPc := .feed idx }
  | .feed idx =>
      match renderFrame s.screen inp s.renderer with
      | none => some { s with pipe := { s.pipe with fault := some .queueOverrun } }
      | some (r, _) =>
          some { s with
            renderer := r, mainPc := .drawRunning idx (drawLayers s.screen (Sys.buffer idx) r) }
  -- while(render_running && DanmakuHW_RenderStartDMA(..)<0) pthread_yield();
  | .drawRunning idx [] => some { s with mainPc := .drainRunning idx }
  | .drawRunning idx (d :: rest) =>
      some { s with
        mainPc := if s.pipe.renderRunning then .drawSubmit idx d rest else .drawRunning idx rest }
  | .drawSubmit idx d rest =>
      match renderStartDMA s.renderDma d with
      | none => some { s with mainPc := .drawRunning idx (d :: rest) }
      | some dma => some { s with renderDma := dma, mainPc := .drawRunning idx rest }
  -- while(render_running && !DanmakuHW_RenderDMAIdle(hDriver)) pthread_yield();
  | .drainRunning idx =>
      some { s with mainPc := if s.pipe.renderRunning then .drainTest idx else .commit idx }
  | .drainTest idx =>
      some { s with
        mainPc := if renderDMAIdle s.renderDma then .commit idx else .drainRunning idx }
  | .commit _ =>
      match s.pipe.ring.commitBuffer with
      | some ring => some { s with pipe := { s.pipe with ring := ring }, mainPc := .resolution }
      | none => some { s with pipe := { s.pipe with fault := some .commitBuffer } }
  | .resolution => some { s with mainPc := if resolutionChanged s then .stop else .loopTest }
  | .stop => some { s with pipe := { s.pipe with renderRunning := false }, mainPc := .loopTest }
  | .finish => some { s with pipe := { s.pipe with renderRunning := false }, mainPc := .join }
  -- pthread_join(overlay_thread, NULL);
  | .join =>
      if s.pipe.overlayPc = .done then
        some { s with pipe := { s.pipe with overlayPc := .absent }, mainPc := .loop }
      else some s
  | .exited => none

/-- The steps of the system. -/
inductive Action
  | main (inp : FrameInput)
  | overlay
  | overlayDequeue
  | overlayFinish
  | renderDequeue
  | renderFinish
  /-- the video input changes its size -/
  | video (resolution : BitVec 32)
  /-- the first assignment of `intHandler` -/
  | sigint
  /-- the second one -/
  | sigintReturn

/-- One step of the system. -/
def step (s : Sys) : Action → Option Sys
  | .main inp => if s.pipe.fault = none then mainStep inp s else none
  | .overlay =>
      if s.pipe.fault = none then
        (overlayStep s.screen.imgSize s.pipe).map fun p => { s with pipe := p }
      else none
  | .overlayDequeue =>
      s.pipe.overlayDma.dequeue?.map fun e => { s with pipe := { s.pipe with overlayDma := e } }
  | .overlayFinish =>
      s.pipe.overlayDma.finish?.map fun p => { s with pipe := { s.pipe with overlayDma := p.2 } }
  | .renderDequeue => s.renderDma.dequeue?.map fun e => { s with renderDma := e }
  | .renderFinish =>
      s.renderDma.finish?.map fun p => { s with renderDma := p.2, fb := transfer s.area p.1 s.fb }
  | .video resolution => some { s with resolution := resolution }
  | .sigint =>
      if s.installed ∧ ¬ s.handler then
        some { s with pipe := { s.pipe with renderRunning := false }, handler := true }
      else none
  | .sigintReturn =>
      if s.handler then
        some { s with pipe := { s.pipe with sigint := true }, handler := false }
      else none

namespace Sys

/-- The steps of the system as a relation. -/
def Step (s : Sys) (a : Action) (t : Sys) : Prop := step s a = some t

/-- The main thread goes on while no assertion has failed. -/
lemma mainStep_of_step {s t : Sys} {inp : FrameInput} (h : Step s (.main inp) t) :
    s.pipe.fault = none ∧ mainStep inp s = some t := by
  rw [Step, Danmaku.step] at h
  split at h
  · exact ⟨‹_›, h⟩
  · exact absurd h (by simp)

/-- The program when `main` reaches its loop, the layer maps allocated and the frame buffers
with any content. -/
def start (resolution : BitVec 32) (area fb : ℕ → Byte) : Sys where
  pipe := ⟨Ring.initial, false, false, .absent, -1, Engine.empty, none⟩
  mainPc := .loop
  -- the globals are zero until `SubMain` sets them, and nothing reads them before
  screen := Screen.fullHd
  blankScreen := 0
  driver := ⟨dynAreaSize, BitVec.ofNat 32 (layerMap 30)⟩
  resolution := resolution
  renderer := initRenderer area
  renderDma := Engine.empty
  fb := fb
  installed := false
  handler := false

/-! ### Runs computed step by step -/

/-- The actions taken in order, from states that pass the test `ok`. -/
def exec (ok : Sys → Bool) (s : Sys) (as : List Action) : Option Sys :=
  as.foldlM (fun s a => if ok s then Danmaku.step s a else none) s

lemma run_of_exec {G : Sys → Action → Prop} {ok : Sys → Bool} {s t : Sys} {as : List Action}
    (hok : ∀ s a, ok s = true → G s a) (h : exec ok s as = some t) : Run (Guard Step G) s as t := by
  refine Run.of_foldlM (fun a _ s t ht => ?_) h
  split at ht
  · exact ⟨ht, hok s a ‹_›⟩
  · exact absurd ht (by simp)

/-- Without a test it is a run of all steps. -/
lemma run_of_steps {s t : Sys} {as : List Action} (h : exec (fun _ => true) s as = some t) :
    Run Step s as t :=
  (run_of_exec (G := fun _ _ => True) (fun _ _ _ => trivial) h).of_guard

/-- A frame that reads nothing. -/
def quietFrame : FrameInput where
  line := none
  click := false
  out _ := none
  bitmap _ := ⟨1, 1, fun _ => 0#8⟩
  slidingRand := 0
  staticRand := 0
  layerRand := 0

/-- `n` steps of the main thread. -/
def mainSteps (n : ℕ) : List Action := List.replicate n (.main quietFrame)

/-- A frame without layers, from the loop test to the `CommitBuffer`. -/
def quietFrameSteps : List Action :=
  mainSteps 9 ++ [.renderDequeue, .renderFinish] ++ mainSteps 5

/-- The size register for a screen of `width` by `height`. -/
def sizeRegister (width height : ℕ) : BitVec 32 := BitVec.ofNat 32 (width * 65536 + height)

/-- The smallest accepted size. -/
def smallScreen : Screen :=
  ⟨100, 100, by decide, by decide, by decide, by decide, by decide, by decide⟩

/-- A session over a ring with three frames in it, the oldest one in buffer 5. -/
def wrappedSession : Sys :=
  let s := start (sizeRegister 100 100) (fun _ => 0#8) fun _ => 0#8
  { s with
    pipe := ⟨⟨5, 1, by decide, by decide⟩, true, false, .waitStart, -1, Engine.empty, none⟩
    mainPc := .loopTest
    screen := smallScreen
    blankScreen := layerMap 30
    renderer := { s.renderer with
      canvas := { s.renderer.canvas with
        area := smallScreen.initBlankScreen (layerMap 30) s.area } } }

end Sys

end Danmaku
