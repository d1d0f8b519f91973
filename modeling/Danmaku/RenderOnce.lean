import Danmaku.Driver
import Danmaku.Layers
import Danmaku.Queen

/-!
`RenderOnce` of `danmaku.c` and the functions it calls: reading a line or the button's
command outputs, inserting waiting texts into the layers, and drawing.

What comes from outside (`FrameInput`) is a parameter of a frame: the line that `fgets`
finds, the button flag, the outputs of the three commands, the bitmaps that Pango renders
and the draws of `rand`. The functions also record the calls that the texts go through
(`Call`).

* `dispatch`: which queue a chunk read from the standard input is pushed to, and as what.
* `readLine`, `btnEventHandle`, `insertSliding`, `insertStatic`, `nextCycle`: the phases of
  a frame; `renderFrame`: all of them. `none` is a write outside a queue.
* `drawLayers`: the descriptors of the frame, in drawing order.
-/

namespace Danmaku

/-- The state that `RenderOnce` keeps from frame to frame. -/
structure Renderer where
  slidingLayers : Fin slidingLayerRows → Fin slidingLayerCols → SlidingLayer
  staticLayers : Fin numStaticLayer → StaticLayer
  slidingQueen : Queen
  staticQueen : Queen
  canvas : Canvas

/-- What one frame receives from outside. -/
structure FrameInput where
  /-- the bytes that `fgets` reads from the standard input, if there are any -/
  line : Option Chunk
  /-- the value of `button_ip_click` when it is tested -/
  click : Bool
  /-- the chunks that `fgets` reads from each command, if `popen` succeeds -/
  out : Fin 3 → Option (List Chunk)
  /-- the bitmap that Pango renders for a text -/
  bitmap : Text → Bitmap
  /-- the draws of `rand`: two colours and the layer that is overwritten -/
  slidingRand : ℕ
  staticRand : ℕ
  layerRand : ℕ

/-- The two queues. -/
inductive Dest
  | slidingQueen
  | staticQueen
  deriving DecidableEq, Repr

/-- The calls that a text goes through. -/
inductive Call
  | push (dest : Dest) (text : Text)
  | slidingSetDanmu (text : Text)
  | forceStaticSetDanmu (text : Text)
  deriving DecidableEq, Repr

/-! ### Setup -/

/-- The layer maps are the first allocations of `main`, 25 for the sliding layers, row by
row, and 5 for the static ones. -/
def layerMap (k : ℕ) : ℕ := k * mapBytes

/-- `udmabuf1=67108864`, as `start_udmabuf` loads the module. -/
def dynAreaSize : BitVec 32 := 67108864#32

/-- The offsets of the layer maps are those that the allocator hands out. -/
lemma allocRenderBuf_layerMap {k : ℕ} (hk : k < 30) :
    allocRenderBuf ⟨dynAreaSize, BitVec.ofNat 32 (layerMap k)⟩ (BitVec.ofNat 32 mapBytes)
      = some (layerMap k, ⟨dynAreaSize, BitVec.ofNat 32 (layerMap (k + 1))⟩) := by
  interval_cases k <;> rfl

/-- The renderer after the initialisation in `main`: `InitQueen`, `InitSliding` and
`InitStatic`, over the zeroed static data. -/
def initRenderer (area : ℕ → Byte) : Renderer where
  slidingLayers i j := ⟨0, i, 0, 0, false, layerMap (slidingLayerCols * i + j)⟩
  staticLayers i := ⟨false, 0, 0, i, layerMap (slidingLayerRows * slidingLayerCols + i)⟩
  slidingQueen := Queen.initQueen ⟨fun _ => Text.empty, 0, 0⟩
  staticQueen := Queen.initQueen ⟨fun _ => Text.empty, 0, 0⟩
  canvas :=
    { area := CountedLoop.forUpTo numStaticLayer (fun i =>
        fillBlank (layerMap (slidingLayerRows * slidingLayerCols + i)) 0 (maxWidth * 2)) area,
      map1 := fun _ => 0#8
      overrun := false }

/-! ### Reading -/

/-- The `switch` on the first byte of the line, after its line end was removed: the queue
and the text of the `Push`, or nothing for an unknown type. -/
def dispatch (c : Chunk) : Option (Dest × Text) :=
  let inputBuf := c.cstr.chomp
  if inputBuf.bytes.head? = some 0x30#8 then some (.slidingQueen, inputBuf.tail)
  else if inputBuf.bytes.head? = some 0x31#8 then some (.staticQueen, inputBuf.tail)
  else none

/-- The line loop of `BtnEventHandle` over one command, with `n` of the `line_limit` lines
left. -/
def readCommand : ℕ → List Chunk → Queen → Option (Queen × List Call)
  | 0, _, q => some (q, [])
  | _ + 1, [], q => some (q, [])
  | n + 1, c :: cs, q =>
      let p := c.cstr.skipBlanks
      if p.bytes.length > 8 then do
        let q ← q.push p
        let (q, calls) ← readCommand n cs q
        return (q, .push .staticQueen p :: calls)
      else some (q, [])

/-- `BtnEventHandle` over the commands. -/
def readCommands : List (Option (List Chunk)) → Queen → Option (Queen × List Call)
  | [], q => some (q, [])
  | none :: outs, q => readCommands outs q
  | some cs :: outs, q => do
      let (q, calls) ← readCommand 2 cs q
      let (q, calls') ← readCommands outs q
      return (q, calls ++ calls')

/-- `BtnEventHandle`. -/
def btnEventHandle (inp : FrameInput) (q : Queen) : Option (Queen × List Call) :=
  if inp.click then readCommands (List.ofFn inp.out) q else some (q, [])

/-- The `fgets` part of `RenderOnce`. -/
def readLine (inp : FrameInput) (r : Renderer) : Option (Renderer × List Call) :=
  match inp.line with
  | none => do
      let (q, calls) ← btnEventHandle inp r.staticQueen
      return ({ r with staticQueen := q }, calls)
  | some c =>
      match dispatch c with
      | some (.slidingQueen, t) => do
          let q ← r.slidingQueen.push t
          return ({ r with slidingQueen := q }, [.push .slidingQueen t])
      | some (.staticQueen, t) => do
          let q ← r.staticQueen.push t
          return ({ r with staticQueen := q }, [.push .staticQueen t])
      | none => some (r, [])

/-! ### Inserting -/

/-- The indices of the sliding layers, in loop order. -/
def slots : List (Fin slidingLayerRows × Fin slidingLayerCols) :=
  (List.finRange slidingLayerRows).flatMap fun i =>
    (List.finRange slidingLayerCols).map fun j => (i, j)

/-- Some other layer of the row has not entered the screen completely. -/
def conflict (scr : Screen) (row : Fin slidingLayerCols → SlidingLayer)
    (j : Fin slidingLayerCols) : Bool :=
  (List.finRange slidingLayerCols).any fun k =>
    decide (j ≠ k) && (row k).enable && decide ((row k).x + (row k).width > scr.width)

/-- The layer that `InsertSliding` takes: the first free one in a row without conflict. -/
def freeSlot (scr : Screen) (r : Renderer) :
    Option (Fin slidingLayerRows × Fin slidingLayerCols) :=
  slots.find? fun p =>
    !(r.slidingLayers p.1 p.2).enable && !conflict scr (r.slidingLayers p.1) p.2

/-- `InsertSliding`, with its answer; `none` is the assertion of `SlidingSetDanmu`. -/
def insertSliding (scr : Screen) (inp : FrameInput) (t : Text) (r : Renderer) :
    Option (Renderer × Bool) :=
  match freeSlot scr r with
  | none => some (r, false)
  | some (i, j) => do
      let (s, canvas) ← slidingSetDanmu scr (r.slidingLayers i j) t.strlenUtf8 inp.slidingRand
        (inp.bitmap t) r.canvas
      let row := Function.update (r.slidingLayers i) j s
      return ({ r with slidingLayers := Function.update r.slidingLayers i row,
                       canvas := canvas }, true)

/-- `InsertStatic`: the first free layer, or a random one. -/
def insertStatic (scr : Screen) (inp : FrameInput) (t : Text) (r : Renderer) : Renderer :=
  let free := (List.finRange numStaticLayer).find? fun i => !(r.staticLayers i).enable
  let i := free.getD ⟨inp.layerRand % numStaticLayer, Nat.mod_lt _ (by decide)⟩
  let drawn := forceStaticSetDanmu scr (r.staticLayers i) t.strlenUtf8 inp.staticRand
    (inp.bitmap t) r.canvas
  { r with staticLayers := Function.update r.staticLayers i drawn.1, canvas := drawn.2 }

/-- `if (Fetch(&sliding_queen, tmp) && InsertSliding(tmp)) Pop(&sliding_queen)`. -/
def feedSliding (scr : Screen) (inp : FrameInput) (r : Renderer) :
    Option (Renderer × List Call) :=
  match r.slidingQueen.fetch with
  | none => some (r, [])
  | some tmp => do
      let (r, inserted) ← insertSliding scr inp tmp r
      if inserted then
        return ({ r with slidingQueen := r.slidingQueen.pop }, [.slidingSetDanmu tmp])
      else return (r, [])

/-- `if (Fetch(&static_queen, tmp) && InsertStatic(tmp)) Pop(&static_queen)`. -/
def feedStatic (scr : Screen) (inp : FrameInput) (r : Renderer) : Renderer × List Call :=
  match r.staticQueen.fetch with
  | none => (r, [])
  | some tmp =>
      let r := insertStatic scr inp tmp r
      ({ r with staticQueen := r.staticQueen.pop }, [.forceStaticSetDanmu tmp])

/-- The two loops that apply a cycle. -/
def nextCycle (r : Renderer) : Renderer :=
  { r with slidingLayers := fun i j => slidingNextCycle (r.slidingLayers i j),
           staticLayers := fun i => staticNextCycle (r.staticLayers i) }

/-- `RenderOnce` between its `ClearScreen` and its drawing. -/
def renderFrame (scr : Screen) (inp : FrameInput) (r : Renderer) :
    Option (Renderer × List Call) := do
  let (r, read) ← readLine inp r
  let (r, slid) ← feedSliding scr inp r
  let (r, placed) := feedStatic scr inp r
  return (nextCycle r, read ++ slid ++ placed)

/-! ### Drawing -/

/-- The descriptors of the draw loops, in loop order: the sliding layers, then the static
ones. -/
def drawLayers (scr : Screen) (dst : ℕ) (r : Renderer) : List Descriptor :=
  slots.flatMap (fun p => slidingWritePixels scr dst (r.slidingLayers p.1 p.2))
    ++ (List.finRange numStaticLayer).flatMap fun i => staticWritePixels scr dst (r.staticLayers i)

end Danmaku
