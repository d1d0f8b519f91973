import Danmaku.Constants
import Danmaku.PixelFilter
import Danmaku.Lib.DmaEngine

/-!
The driver functions of `danmaku_driver.c` that the host program calls while it runs.

Addresses are offsets: into the frame buffer area (`udmabuf0`) for `getFrameBuffer`, into
the DMA area (`udmabuf1`) for `allocRenderBuf`. A register access is an access to the model
of the device behind it.

* `allocRenderBuf`: the bump allocator of the DMA area, in `size_t` arithmetic; its
  `exit(1)` is `none`.
* `frameBufferTxmit`, `pendingTxmit`: the overlay DMA. `FrameBufferTxmit` checks its
  arguments by three assertions and refuses a descriptor when the FIFO is full.
* `renderStartDMA`, `renderDMAIdle`: the render DMA.
-/

namespace Danmaku

open DmaEngine

/-- What ends a run of the program: a failed assertion of `ring.c` or `danmaku_driver.c`, or a
write outside a queue. -/
inductive Fault
  | releaseBuffer
  | commitBuffer
  | getFrameBuffer
  | txmitIndex
  | txmitLength
  | txmitAlign
  | queueOverrun
  deriving DecidableEq, Repr

/-- `driver_ctx`, as far as the allocator uses it. -/
structure DriverCtx where
  szDynArea : BitVec 32
  szAllocated : BitVec 32
  deriving DecidableEq, Repr

/-- `DanmakuHW_AllocRenderBuf`: the offset of the new buffer and the context afterwards. -/
def allocRenderBuf (ctx : DriverCtx) (length : BitVec 32) : Option (ℕ × DriverCtx) :=
  if ctx.szAllocated + length > ctx.szDynArea then none
  else some (ctx.szAllocated.toNat, { ctx with szAllocated := ctx.szAllocated + length })

/-- Where the sum of the allocator does not wrap, the new buffer lies behind the old ones. -/
lemma allocRenderBuf_toNat {ctx ctx' : DriverCtx} {length : BitVec 32} {off : ℕ}
    (h : allocRenderBuf ctx length = some (off, ctx'))
    (hroom : off + length.toNat ≤ ctx'.szDynArea.toNat) :
    off = ctx.szAllocated.toNat ∧ ctx'.szDynArea = ctx.szDynArea
      ∧ ctx'.szAllocated.toNat = ctx.szAllocated.toNat + length.toNat := by
  rw [allocRenderBuf] at h
  split at h
  · exact absurd h (by simp)
  · obtain ⟨rfl, rfl⟩ := Prod.mk.inj (Option.some.inj h)
    refine ⟨rfl, rfl, ?_⟩
    have hlt := ctx.szDynArea.isLt
    simp only at hroom
    rw [BitVec.toNat_add]
    exact Nat.mod_eq_of_lt (by omega)

/-- `DanmakuHW_GetFrameBuffer`; `none` if the index assertion fails. -/
def getFrameBuffer (bufIndex : ℤ) : Option ℕ :=
  if bufIndex ≥ 0 ∧ bufIndex < numFrameBuffer then some (bufIndex.toNat * frameBufferSize)
  else none

/-! ### The overlay DMA -/

/-- A descriptor of the overlay DMA: the buffer it reads and how many bytes. -/
structure OverlayDescriptor where
  buf : ℕ
  length : ℕ
  deriving DecidableEq, Repr

/-- The descriptor FIFO depth of the overlay DMA. -/
def overlayDepth : ℕ := 8

/-- `DanmakuHW_FrameBufferTxmit`: the DMA afterwards and whether the descriptor was taken. -/
def frameBufferTxmit (dma : Engine OverlayDescriptor) (bufIndex : ℤ) (length : BitVec 32) :
    Except Fault (Engine OverlayDescriptor × Bool) :=
  if ¬(bufIndex ≥ 0 ∧ bufIndex < numFrameBuffer) then .error .txmitIndex
  else if ¬(length.toNat ≤ frameBufferSize) then .error .txmitLength
  else if ¬(length &&& 7#32 = 0#32) then .error .txmitAlign
  else if dma.full overlayDepth then .ok (dma, false)
  else .ok (dma.submit ⟨bufIndex.toNat, length.toNat⟩, true)

/-- `DanmakuHW_PendingTxmit`. -/
def pendingTxmit (dma : Engine OverlayDescriptor) : Bool := dma.pending

/-- What `FrameBufferTxmit` does when its assertions hold. -/
lemma frameBufferTxmit_ok {dma dma' : Engine OverlayDescriptor} {idx : ℤ} {length : BitVec 32}
    {ok : Bool} (h : frameBufferTxmit dma idx length = .ok (dma', ok)) :
    0 ≤ idx ∧ idx < numFrameBuffer ∧ length.toNat ≤ frameBufferSize
      ∧ (ok = true ∧ dma' = dma.submit ⟨idx.toNat, length.toNat⟩
        ∨ ok = false ∧ dma' = dma ∧ overlayDepth ≤ dma.fifo.length) := by
  simp only [frameBufferTxmit] at h
  split_ifs at h with hidx hlen halign hfull
  · obtain ⟨rfl, rfl⟩ := Prod.mk.inj (Except.ok.inj h)
    refine ⟨hidx.1, hidx.2, hlen, Or.inr ⟨rfl, rfl, ?_⟩⟩
    simpa [Engine.full] using hfull
  · obtain ⟨rfl, rfl⟩ := Prod.mk.inj (Except.ok.inj h)
    exact ⟨hidx.1, hidx.2, hlen, Or.inl ⟨rfl, rfl⟩⟩

/-- Which of its assertions a call fails. The first one fails for an index out of range. -/
lemma frameBufferTxmit_error {dma : Engine OverlayDescriptor} {idx : ℤ} {length : BitVec 32}
    {f : Fault} (h : frameBufferTxmit dma idx length = .error f) :
    f = .txmitIndex ∧ (idx < 0 ∨ numFrameBuffer ≤ idx) ∨ f = .txmitLength ∨ f = .txmitAlign := by
  simp only [frameBufferTxmit] at h
  split_ifs at h with hidx hlen halign
  · exact Or.inr (Or.inr (Except.error.inj h).symm)
  · exact Or.inr (Or.inl (Except.error.inj h).symm)
  · exact Or.inl ⟨(Except.error.inj h).symm, by omega⟩

/-! ### The render DMA -/

/-- The descriptor FIFO depth of the render DMA. -/
def renderDepth : ℕ := 1024

/-- `DanmakuHW_RenderStartDMA`; `none` is the answer `-1`, the descriptor FIFO is full. -/
def renderStartDMA (dma : Engine Descriptor) (d : Descriptor) : Option (Engine Descriptor) :=
  if dma.full renderDepth then none else some (dma.submit d)

/-- `DanmakuHW_RenderDMAIdle`. -/
def renderDMAIdle (dma : Engine Descriptor) : Bool := dma.idle

end Danmaku
