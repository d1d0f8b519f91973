import Danmaku.Compose
import Danmaku.LayerMaps
import Danmaku.Moves

/-!
The frame that one `RenderOnce` leaves in its buffer, under every interleaving.

* `Sys.drained`: the frame buffers once the render DMA has processed what it holds. The DMA
  cannot change it (`drained_dequeue`, `drained_finish`), a submission runs one more descriptor
  on it (`drained_submit`).
* `Sys.FrameBegins`: the start of a `RenderOnce`, over any buffer content and any layers.
* `Composes`: the invariant of the frame: what is drained, with what is still to be submitted,
  is the composed frame.
* `renderOnce_composes`: **the painter's rule** for the drained buffer.
-/

namespace Danmaku

open DmaEngine Transition CountedLoop Painter

/-- Descriptors depend on the DMA area only where they read. -/
lemma runDescriptors_congr {area area' : ℕ → Byte} {ds : List Descriptor}
    (h : ∀ d ∈ ds, ∀ k < d.length, area (d.src + k) = area' (d.src + k)) (mem : ℕ → Byte) :
    runDescriptors area ds mem = runDescriptors area' ds mem := by
  induction ds generalizing mem with
  | nil => simp only [runDescriptors_nil]
  | cons d ds ih =>
      rw [runDescriptors_cons, runDescriptors_cons, transfer_congr (h d List.mem_cons_self)]
      exact ih (fun d hd => h d (List.mem_cons_of_mem _ hd)) _

namespace Sys

/-- The frame buffers once the render DMA has processed all that it holds. -/
def drained (s : Sys) : ℕ → Byte := runDescriptors s.area s.renderDma.outstanding s.fb

/-- `blank_screen` holds a blank frame of the session's size. -/
def BlankReady (s : Sys) : Prop :=
  ∀ k < s.screen.imgSize.toNat, s.area (s.blankScreen + k) = s.screen.blankByte k

/-- The descriptor of `ClearScreen` for buffer `idx`. -/
def clearFrame (s : Sys) (idx : ℕ) : Descriptor := clearScreen s.screen s.blankScreen (buffer idx)

/-- The buffers after clearing buffer `idx` of `fb` and drawing the layers. -/
def frameOver (s : Sys) (idx : ℕ) (fb : ℕ → Byte) : ℕ → Byte :=
  runDescriptors s.area (drawLayers s.screen (buffer idx) s.renderer)
    (transfer s.area (s.clearFrame idx) fb)

/-- `RenderOnce` for buffer `idx` is called: the render DMA is idle, the layer maps lie in front
of `blank_screen`, and `blank_screen` is ready. -/
structure FrameBegins (s : Sys) (idx : ℕ) : Prop where
  mainPc : s.mainPc = .clearRunning idx
  renderDma : s.renderDma.outstanding = []
  layers : s.renderer.LayersOk s.blankScreen
  blank : s.BlankReady

/-- `render_running` is set and `RenderOnce` with the wait for the DMA has not ended. -/
def Composing (s : Sys) (_ : Action) : Prop :=
  s.pipe.renderRunning = true ∧ ∀ idx, s.mainPc ≠ .commit idx

variable {s t : Sys} {a : Action} {as : List Action} {idx : ℕ} {fb : ℕ → Byte} {r₀ : Renderer}

/-! ### The render DMA -/

lemma drained_dequeue {e : Engine Descriptor} (he : s.renderDma.dequeue? = some e) :
    { s with renderDma := e }.drained = s.drained := by
  simp only [drained, area, Engine.dequeue?_outstanding he]

lemma drained_finish {d : Descriptor} {e : Engine Descriptor}
    (he : s.renderDma.finish? = some (d, e)) :
    { s with renderDma := e, fb := transfer s.area d s.fb }.drained = s.drained := by
  simp only [drained, area, Engine.finish?_outstanding he, runDescriptors_cons]

lemma drained_submit (s : Sys) (d : Descriptor) (pc : MainPc) :
    { s with renderDma := s.renderDma.submit d, mainPc := pc }.drained
      = transfer s.area d s.drained := by
  simp only [drained, area, Engine.outstanding_submit, runDescriptors_append, runDescriptors_cons,
    runDescriptors_nil]

lemma drained_of_idle (h : s.renderDma.outstanding = []) : s.drained = s.fb := by
  rw [drained, h, runDescriptors_nil]

/-! ### The invariant of a frame -/

/-- How far the frame for buffer `idx` is, begun with the layers `r₀` over the buffers `fb`. -/
def FramePlace (idx : ℕ) (r₀ : Renderer) (fb : ℕ → Byte) (s : Sys) : Prop :=
  match s.mainPc with
  | .clearRunning i | .clearSubmit i =>
      i = idx ∧ s.renderDma.outstanding = [] ∧ s.fb = fb ∧ s.renderer = r₀
  | .feed i =>
      i = idx ∧ (∀ d ∈ s.renderDma.outstanding, d = s.clearFrame idx)
        ∧ s.drained = transfer s.area (s.clearFrame idx) fb ∧ s.renderer = r₀
  | .drawRunning i rest => i = idx ∧ runDescriptors s.area rest s.drained = s.frameOver idx fb
  | .drawSubmit i d rest =>
      i = idx ∧ runDescriptors s.area (d :: rest) s.drained = s.frameOver idx fb
  | .drainRunning i | .drainTest i => i = idx ∧ s.drained = s.frameOver idx fb
  | .commit i => i = idx ∧ s.fb = s.frameOver idx fb
  | _ => False

/-- The layers that `RenderOnce` draws are those that its reading and inserting left. -/
def FrameFed (r₀ : Renderer) (s : Sys) : Prop :=
  match s.mainPc with
  | .clearRunning _ | .clearSubmit _ | .feed _ => True
  | _ => ∃ inp calls, renderFrame s.screen inp r₀ = some (s.renderer, calls)

/-- The invariant of the frame. -/
structure Composes (scr : Screen) (idx : ℕ) (r₀ : Renderer) (fb : ℕ → Byte) (s : Sys) : Prop where
  screen : s.screen = scr
  layers : s.renderer.LayersOk s.blankScreen
  blank : s.BlankReady
  place : FramePlace idx r₀ fb s
  fed : FrameFed r₀ s

lemma FrameBegins.composes (h : s.FrameBegins idx) :
    Composes s.screen idx s.renderer s.fb s :=
  ⟨rfl, h.layers, h.blank, by simp only [FramePlace, h.mainPc, h.renderDma, and_self],
    by simp only [FrameFed, h.mainPc]⟩

variable {scr : Screen} {pc : MainPc} {inp : FrameInput}

/-- The control moves of `RenderOnce`, with the flag up. -/
lemma Composes.jump (hc : Composes scr idx r₀ fb s) (hrun : s.pipe.renderRunning = true)
    (hj : Jump s pc) : Composes scr idx r₀ fb { s with mainPc := pc } := by
  obtain ⟨hscr, hlayers, hblank, hplace, hfed⟩ := hc
  refine ⟨hscr, hlayers, hblank, ?_, ?_⟩
  · cases hj with
    | clearFrameSkipped hpc hrun' | drawSkipped hpc hrun' | drainSkipped hpc hrun' =>
        exact absurd (hrun.symm.trans hrun') (by simp)
    | clearFrame hpc | clearFrameFull hpc | draw hpc | drawFull hpc | drain hpc | draining hpc =>
        simp only [FramePlace, hpc] at hplace
        exact hplace
    | drawn hpc =>
        simp only [FramePlace, hpc, runDescriptors_nil] at hplace
        exact hplace
    | drained hpc hidle =>
        simp only [FramePlace, hpc] at hplace
        rw [drained_of_idle hidle] at hplace
        exact hplace
    | _ hpc => simp only [FramePlace, hpc] at hplace
  · cases hj with
    | clearFrameSkipped hpc hrun' | drawSkipped hpc hrun' | drainSkipped hpc hrun' =>
        exact absurd (hrun.symm.trans hrun') (by simp)
    | clearFrame hpc | clearFrameFull hpc => trivial
    | drawn hpc | draw hpc | drawFull hpc | drain hpc | draining hpc | drained hpc =>
        simp only [FrameFed, hpc] at hfed
        exact hfed
    | _ hpc => simp only [FramePlace, hpc] at hplace

/-- A submission: the descriptor moves from what is to be submitted to what is outstanding. -/
lemma Composes.submit {d : Descriptor} (hc : Composes scr idx r₀ fb s)
    (hsub : Submission s d pc) :
    Composes scr idx r₀ fb { s with renderDma := s.renderDma.submit d, mainPc := pc } := by
  obtain ⟨hscr, hlayers, hblank, hplace, hfed⟩ := hc
  refine ⟨hscr, hlayers, hblank, ?_, ?_⟩
  · cases hsub with
    | clearing hpc => simp only [FramePlace, hpc] at hplace
    | clear hpc =>
        simp only [FramePlace, hpc] at hplace
        obtain ⟨rfl, hidle, rfl, hr⟩ := hplace
        refine ⟨rfl, ?_, ?_, hr⟩
        · intro d hd
          simp only [Engine.outstanding_submit, hidle, List.nil_append, List.mem_singleton] at hd
          exact hd
        · rw [drained_submit, drained_of_idle hidle]
          rfl
    | draw hpc =>
        simp only [FramePlace, hpc] at hplace
        refine ⟨hplace.1, ?_⟩
        rw [drained_submit]
        exact hplace.2
  · cases hsub with
    | clearing hpc => simp only [FramePlace, hpc] at hplace
    | clear hpc => trivial
    | draw hpc =>
        simp only [FrameFed, hpc] at hfed
        exact hfed

/-- Reading and inserting: the maps change, but not what the clear that may still be outstanding
reads. -/
lemma Composes.feed {i : ℕ} {r : Renderer} {calls : List Call} (hfit : scr.Fits)
    (hc : Composes scr idx r₀ fb s) (hpc : s.mainPc = .feed i)
    (hr : renderFrame s.screen inp s.renderer = some (r, calls)) :
    Composes scr idx r₀ fb { s with
      renderer := r, mainPc := .drawRunning i (drawLayers s.screen (buffer i) r) } := by
  obtain ⟨rfl, hlayers, hblank, hplace, -⟩ := hc
  simp only [FramePlace, hpc] at hplace
  obtain ⟨rfl, hclear, hdrained, rfl⟩ := hplace
  have hkeeps : Renderer.Keeps s.blankScreen s.screen s.renderer r := Renderer.keeps_renderFrame hr
  have hkeep : ∀ k, r.canvas.area (s.blankScreen + k) = s.area (s.blankScreen + k) := fun k =>
    hkeeps.area hlayers hfit.edge_le_held _ (Nat.le_add_right _ k)
  refine ⟨rfl, hkeeps.layers hlayers, fun k hk => (hkeep k).trans (hblank k hk), ⟨rfl, ?_⟩,
    inp, calls, hr⟩
  have hout : runDescriptors r.canvas.area s.renderDma.outstanding s.fb
      = transfer r.canvas.area (s.clearFrame i) fb := by
    calc runDescriptors r.canvas.area s.renderDma.outstanding s.fb
        = runDescriptors s.area s.renderDma.outstanding s.fb :=
          runDescriptors_congr (fun d hd k _ => by rw [hclear d hd]; exact hkeep k) s.fb
      _ = transfer s.area (s.clearFrame i) fb := hdrained
      _ = transfer r.canvas.area (s.clearFrame i) fb :=
          (transfer_congr (fun k _ => hkeep k) fb).symm
  exact congrArg (runDescriptors r.canvas.area (drawLayers s.screen (buffer i) r)) hout

/-- The render DMA goes on. -/
lemma Composes.device {e : Engine Descriptor} {mem : ℕ → Byte} (hc : Composes scr idx r₀ fb s)
    (hcommit : ∀ i, s.mainPc ≠ .commit i)
    (hdrained : { s with renderDma := e, fb := mem }.drained = s.drained)
    (hout : ∀ d ∈ e.outstanding, d ∈ s.renderDma.outstanding)
    (hmem : s.renderDma.outstanding = [] → mem = s.fb) :
    Composes scr idx r₀ fb { s with renderDma := e, fb := mem } := by
  refine ⟨hc.screen, hc.layers, hc.blank, ?_, hc.fed⟩
  have hplace := hc.place
  cases hpc : s.mainPc with
  | clearRunning i | clearSubmit i =>
      simp only [FramePlace, hpc] at hplace ⊢
      obtain ⟨rfl, hidle, rfl, hr⟩ := hplace
      refine ⟨rfl, List.eq_nil_iff_forall_not_mem.mpr ?_, hmem hidle, hr⟩
      intro d hd
      have hd := hout d hd
      rw [hidle] at hd
      exact absurd hd List.not_mem_nil
  | feed i =>
      simp only [FramePlace, hpc] at hplace ⊢
      obtain ⟨rfl, hclear, hplace, hr⟩ := hplace
      exact ⟨rfl, fun d hd => hclear d (hout d hd), hdrained.trans hplace, hr⟩
  | drawRunning i rest =>
      simp only [FramePlace, hpc] at hplace ⊢
      exact ⟨hplace.1, (congrArg (runDescriptors s.area rest) hdrained).trans hplace.2⟩
  | drawSubmit i d rest =>
      simp only [FramePlace, hpc] at hplace ⊢
      exact ⟨hplace.1, (congrArg (runDescriptors s.area (d :: rest)) hdrained).trans hplace.2⟩
  | drainRunning i | drainTest i =>
      simp only [FramePlace, hpc] at hplace ⊢
      exact ⟨hplace.1, hdrained.trans hplace.2⟩
  | commit i => exact absurd hpc (hcommit i)
  | _ => simp only [FramePlace, hpc] at hplace

/-- The moves of the main thread in a frame. -/
lemma Composes.main (hfit : scr.Fits) (hc : Composes scr idx r₀ fb s)
    (hrun : s.pipe.renderRunning = true) (hcommit : ∀ i, s.mainPc ≠ .commit i)
    (h : MainMove inp s t) : Composes scr idx r₀ fb t := by
  have hplace := hc.place
  cases h with
  | jump hj => exact hc.jump hrun hj
  | submit hsub => exact hc.submit hsub
  | feed hpc hr => exact hc.feed hfit hpc hr
  | fault hpc hf => exact ⟨hc.screen, hc.layers, hc.blank, hc.place, hc.fed⟩
  | commit hpc | commitFault hpc => exact absurd hpc (hcommit _)
  | subMain hpc | create hpc | install hpc | setRunning hpc | stop hpc | finish hpc | join hpc
  | wait hpc => simp only [FramePlace, hpc] at hplace

/-- Every step of the system keeps the invariant of the frame. -/
lemma Composes.step (hfit : scr.Fits) (hc : Composes scr idx r₀ fb s) (hcomp : s.Composing a)
    (h : Step s a t) : Composes scr idx r₀ fb t := by
  obtain ⟨hrun, hcommit⟩ := hcomp
  cases sysMove_of_step h with
  | main hmove => exact hc.main hfit hrun hcommit hmove
  | renderDequeue he =>
      exact hc.device hcommit (drained_dequeue he)
        (fun d hd => Engine.dequeue?_outstanding he ▸ hd) fun _ => rfl
  | renderFinish he =>
      have hout := Engine.finish?_outstanding he
      refine hc.device hcommit (drained_finish he) ?_ ?_
      · intro d hd
        rw [hout]
        exact List.mem_cons_of_mem _ hd
      · intro hidle
        rw [hidle] at hout
        exact absurd hout (by simp)
  | _ => exact ⟨hc.screen, hc.layers, hc.blank, hc.place, hc.fed⟩

/-- **`RenderOnce` composes the frame by the painter's rule.** Over any content of the buffers and
any layers, under every interleaving with `render_running` set throughout, once the render DMA is
idle buffer `idx` holds: in a pixel column the byte of the last layer that shows there, else the
clear code; elsewhere the bytes of `blank_screen`; and no other byte has changed. The layers are
those that reading and inserting left. -/
theorem renderOnce_composes {s₀ : Sys} (hfit : s₀.screen.Fits) (hbegin : s₀.FrameBegins idx)
    (hrun : Run (Guard Step Composing) s₀ as s) {i : ℕ} (hpc : s.mainPc = .commit i) :
    i = idx
    ∧ (∀ r < s₀.screen.height, ∀ c < s₀.screen.width,
        s.fb (buffer idx + (r * (s₀.screen.width + 2) + c))
          = (topmost (frameLayers s₀.screen s.area s.renderer) (r, c)).getD Screen.clearCode)
    ∧ (∀ k < s₀.screen.imgSize.toNat, s₀.screen.width ≤ k % (s₀.screen.width + 2) →
        s.fb (buffer idx + k) = s.area (s.blankScreen + k))
    ∧ (∀ a, a < buffer idx ∨ buffer idx + s₀.screen.imgSize.toNat ≤ a → s.fb a = s₀.fb a)
    ∧ ∃ inp calls, renderFrame s₀.screen inp s₀.renderer = some (s.renderer, calls) := by
  obtain ⟨hscr, -, hblank, hplace, hfed⟩ : Composes s₀.screen idx s₀.renderer s₀.fb s :=
    hrun.invariant hbegin.composes fun _ _ _ hc hstep => hc.step hfit hstep.2 hstep.1
  simp only [FramePlace, hpc] at hplace
  simp only [FrameFed, hpc, hscr] at hfed
  obtain ⟨rfl, hfb⟩ := hplace
  have hfilled : Filled (buffer i) (composed s₀.screen s.area s.renderer) s₀.fb
      s₀.screen.imgSize.toNat s.fb := by
    rw [hfb, frameOver, ← runDescriptors_cons, clearFrame, hscr]
    refine runDescriptors_frame hfit ?_ _ _ _
    intro k hk
    rw [← hscr] at hk ⊢
    exact hblank k hk
  refine ⟨rfl, ?_, ?_, ?_, hfed⟩
  · intro r hr c hc
    have hk : r * s₀.screen.stride + c < s₀.screen.imgSize.toNat := by
      have hrow := Nat.mul_le_mul_left s₀.screen.stride hr
      rw [Nat.mul_succ, Nat.mul_comm] at hrow
      rw [Screen.imgSize_toNat]
      simp only [Screen.stride] at *
      omega
    rw [← composed_pixel s₀.screen s.area s.renderer r hc, ← hfilled.apply_add hk, Screen.stride]
  · intro k hk hcol
    rw [hfilled.apply_add hk, composed, if_neg (by simp only [Screen.stride]; omega), ← hscr]
    rw [← hscr] at hk
    exact (hblank k hk).symm
  · intro a ha
    exact hfilled.apply_of_outside ha

/-- The buffer that is about to be committed. -/
def commitIdx? (s : Sys) : Option ℕ :=
  match s.mainPc with
  | .commit idx => some idx
  | _ => none

lemma commitIdx?_eq_some_iff : s.commitIdx? = some idx ↔ s.mainPc = .commit idx := by
  rw [commitIdx?]
  cases s.mainPc <;> simp

/-- Colour 3 in the sliding maps; in the static ones colour 5 in the even columns and `PXL_BLANK` in
the odd ones; behind the maps a blank frame. -/
def stripedArea (a : ℕ) : Byte :=
  if layerMap 30 ≤ a then smallScreen.blankByte (a - layerMap 30)
  else if layerMap (slidingLayerRows * slidingLayerCols) ≤ a then
    if a % 2 = 0 then 5#8 else pxlBlank
  else 3#8

/-- The frame for buffer 1 begins with a sliding layer that the left border of the screen clips, and
a static one above it. -/
def stripedSession : Sys :=
  let r := initRenderer fun _ => 0#8
  { wrappedSession with
    mainPc := .clearRunning 1
    renderer := { r with
      slidingLayers := fun i j => if (i : ℕ) = 0 ∧ (j : ℕ) = 0 then
        { r.slidingLayers i j with x := -2, width := 20, ppc := 1, enable := true }
        else r.slidingLayers i j
      staticLayers := fun i => if (i : ℕ) = 0 then
        { r.staticLayers i with validLen := 90, enable := true } else r.staticLayers i
      canvas := ⟨stripedArea, fun _ => 0#8, false⟩ } }

lemma frameBegins_striped : stripedSession.FrameBegins 1 := by
  have hok := layersOk_initRenderer fun _ => 0#8
  refine ⟨rfl, rfl, ⟨fun i j => ?_, fun i => ?_⟩, fun k _ => ?_⟩
  · simp only [stripedSession]
    split_ifs
    · exact ⟨(hok.sliding i j).map_le, show (0 : ℤ) ≤ 20 by decide,
        show (20 : ℤ) ≤ maxWidth by decide⟩
    · exact hok.sliding i j
  · simp only [stripedSession]
    split_ifs
    · exact ⟨(hok.static i).map_le, show (0 : ℤ) ≤ 90 by decide,
        show (90 : ℤ) ≤ maxWidth by decide⟩
    · exact hok.static i
  · show stripedArea (layerMap 30 + k) = _
    rw [stripedArea, if_pos (Nat.le_add_right _ k), Nat.add_sub_cancel_left]
    rfl

/-- The columns of the first row show the clipped layer, the static one above it, the clipped one
through a transparent byte, the clear code, and the static layer alone. -/
theorem renderOnce_composes_striped :
    ∃ s as, Run (Guard Step Composing) stripedSession as s ∧ s.mainPc = .commit 1
      ∧ (∀ r < 100, ∀ c < 100, s.fb (buffer 1 + (r * 102 + c))
          = (topmost (frameLayers smallScreen s.area s.renderer) (r, c)).getD Screen.clearCode)
      ∧ s.fb (buffer 1 + 0) = 3#8 ∧ s.fb (buffer 1 + 5) = 5#8 ∧ s.fb (buffer 1 + 6) = 3#8
      ∧ s.fb (buffer 1 + 30) = Screen.clearCode ∧ s.fb (buffer 1 + 31) = 5#8 := by
  have hexec : ((exec (fun s => s.pipe.renderRunning && s.commitIdx?.isNone) stripedSession
      (mainSteps 3 ++ [.renderDequeue, .renderFinish]
        ++ (List.replicate 10 (mainSteps 2 ++ [.renderDequeue, .renderFinish])).flatten
        ++ mainSteps 3)).map fun s => (s.commitIdx?, [0, 5, 6, 30, 31].map fun c =>
          topmost (frameLayers smallScreen s.area s.renderer) (0, c)))
      = some (some 1, [some 3#8, some 5#8, some 3#8, none, some 5#8]) := by
    decide +kernel
  obtain ⟨s, hs, hobs⟩ := Option.map_eq_some_iff.mp hexec
  simp only [List.map_cons, List.map_nil, Prod.mk.injEq, List.cons.injEq, and_true] at hobs
  obtain ⟨hcommit, h0, h5, h6, h30, h31⟩ := hobs
  have hpc : s.mainPc = .commit 1 := commitIdx?_eq_some_iff.mp hcommit
  have hrun : Run (Guard Step Composing) stripedSession _ s := run_of_exec (fun s _ h => by
    rw [Bool.and_eq_true] at h
    exact ⟨h.1, fun i hi => by simp [commitIdx?_eq_some_iff.mpr hi] at h⟩) hs
  have hpixel : ∀ r < 100, ∀ c < 100, s.fb (buffer 1 + (r * 102 + c))
      = (topmost (frameLayers smallScreen s.area s.renderer) (r, c)).getD Screen.clearCode :=
    (renderOnce_composes (by decide) frameBegins_striped hrun hpc).2.1
  have hfirst : ∀ c < 100, s.fb (buffer 1 + c)
      = (topmost (frameLayers smallScreen s.area s.renderer) (0, c)).getD Screen.clearCode := by
    intro c hc
    rw [← hpixel 0 (by decide) c hc, Nat.zero_mul, Nat.zero_add]
  refine ⟨s, _, hrun, hpc, hpixel, ?_⟩
  simp only [hfirst, Nat.reduceLT, h0, h5, h6, h30, h31, Option.getD_some, Option.getD_none,
    and_self]

end Sys

end Danmaku
