import Danmaku.Lib.Bump
import Danmaku.MapAccess

/-!
The memory of the DMA area: `DanmakuHW_Open` and `DanmakuHW_AllocRenderBuf` of
`danmaku_driver.c`, with all fields of `driver_ctx`.

* `danmakuHWOpen`: the context of a successful call, over the block that `malloc` returns. It sets
  every field but `sz_allocated`.
* `DriverBlock.allocRenderBufs`: the buffers that a sequence of requests gets until the program
  exits; `map_allocRenderBuf`: on the two sizes it is `allocRenderBuf`.
* `NeverWraps`: the sums of the requests, computed exactly, never come out as small numbers in 32
  bits. Then the buffers are those of a bump allocator (`allocRenderBufs_eq`), and
  `allocationsOk_iff`: **this is exactly when the allocations are sound**.
* `requests_served_iff`: **how many sessions the DMA area lasts for**, and `Sys.subMain_exits_iff`:
  the session of a running program that ends it.
-/

namespace Danmaku

open Transition BumpAllocator

/-- `QSYS_SYSTEMID`. -/
def qsysSystemId : BitVec 32 := 0xacd51302#32

/-- `driver_ctx`, in the 32-bit types of the target. -/
structure DriverBlock where
  fdDevmem : BitVec 32
  fdUdmabuf0 : BitVec 32
  fdUdmabuf1 : BitVec 32
  szUdmabuf0 : BitVec 32
  uaddrPerphBase : BitVec 32
  uaddrFb : BitVec 32
  paddrFb : BitVec 32
  szDynArea : BitVec 32
  uaddrDynArea : BitVec 32
  paddrDynArea : BitVec 32
  szAllocated : BitVec 32
  deriving DecidableEq, Repr

/-- What `DanmakuHW_Open` receives from outside: the numbers in the files that it opens, the block
that `malloc` returns with whatever it held before, the descriptors and the mappings. -/
structure OpenEnv where
  sysid : Option (BitVec 32)
  udmabuf0Size : Option (BitVec 32)
  udmabuf0Phys : Option (BitVec 32)
  udmabuf1Size : Option (BitVec 32)
  udmabuf1Phys : Option (BitVec 32)
  malloc : Option DriverBlock
  devmem : BitVec 32
  udmabuf0 : BitVec 32
  udmabuf1 : BitVec 32
  mmapPerph : BitVec 32
  mmapFb : BitVec 32
  mmapDynArea : BitVec 32

/-- `DanmakuHW_Open`; `none` is the answer `NULL`. -/
def danmakuHWOpen (env : OpenEnv) : Option DriverBlock := do
  let tmp ← env.sysid
  if tmp ≠ qsysSystemId then none else
  let udmabuf0Size ← env.udmabuf0Size
  let udmabuf0Phys ← env.udmabuf0Phys
  let udmabuf1Size ← env.udmabuf1Size
  let udmabuf1Phys ← env.udmabuf1Phys
  let ctx ← env.malloc
  let ctx := { ctx with
    paddrFb := udmabuf0Phys, szUdmabuf0 := udmabuf0Size
    paddrDynArea := udmabuf1Phys, szDynArea := udmabuf1Size }
  if frameBufferSize * numFrameBuffer > ctx.szUdmabuf0.toNat then none else
  let ctx := { ctx with fdDevmem := env.devmem }
  if ctx.fdDevmem = 0#32 then none else
  let ctx := { ctx with fdUdmabuf0 := env.udmabuf0 }
  if ctx.fdUdmabuf0 = 0#32 then none else
  let ctx := { ctx with fdUdmabuf1 := env.udmabuf1 }
  if ctx.fdUdmabuf1 = 0#32 then none else
  let ctx := { ctx with uaddrPerphBase := env.mmapPerph }
  if ctx.uaddrPerphBase = -1#32 then none else
  let ctx := { ctx with uaddrFb := env.mmapFb }
  if ctx.uaddrFb = -1#32 then none else
  let ctx := { ctx with uaddrDynArea := env.mmapDynArea }
  if ctx.uaddrDynArea = -1#32 then none else
  return ctx

/-- A buffer that a call returns: the user and the physical address, and the length that was
requested. -/
structure RenderBuf where
  uaddr : BitVec 32
  paddr : BitVec 32
  length : BitVec 32
  deriving DecidableEq, Repr

namespace DriverBlock

variable {ctx ctx' : DriverBlock} {length : BitVec 32} {lengths : List (BitVec 32)} {b : RenderBuf}

/-- `DanmakuHW_AllocRenderBuf`: the buffer and the context afterwards; `none` is `exit(1)`. -/
def allocRenderBuf (ctx : DriverBlock) (length : BitVec 32) : Option (RenderBuf × DriverBlock) :=
  if ctx.szAllocated + length > ctx.szDynArea then none
  else some (⟨ctx.uaddrDynArea + ctx.szAllocated, ctx.paddrDynArea + ctx.szAllocated, length⟩,
    { ctx with szAllocated := ctx.szAllocated + length })

/-- The two sizes. -/
def sizes (ctx : DriverBlock) : DriverCtx := ⟨ctx.szDynArea, ctx.szAllocated⟩

/-- The buffers that a sequence of calls returns, until one of them ends the program. -/
def allocRenderBufs (ctx : DriverBlock) : List (BitVec 32) → List RenderBuf
  | [] => []
  | length :: lengths =>
      match ctx.allocRenderBuf length with
      | none => []
      | some (b, ctx) => b :: ctx.allocRenderBufs lengths

/-- Where a buffer begins in the DMA area. -/
def offset (ctx : DriverBlock) (b : RenderBuf) : ℕ := (b.uaddr - ctx.uaddrDynArea).toNat

/-- The allocations are sound: every buffer that is returned lies inside the DMA area, at the same
offset for the program and for the devices, no two of them share a byte, and together they are no
larger than the area. -/
structure AllocationsOk (ctx : DriverBlock) (lengths : List (BitVec 32)) : Prop where
  inside : ∀ b ∈ ctx.allocRenderBufs lengths,
    ctx.offset b + b.length.toNat ≤ ctx.szDynArea.toNat
  same : ∀ b ∈ ctx.allocRenderBufs lengths,
    b.paddr - ctx.paddrDynArea = b.uaddr - ctx.uaddrDynArea
  disjoint : (ctx.allocRenderBufs lengths).Pairwise fun a b =>
    ctx.offset a + a.length.toNat ≤ ctx.offset b ∨ ctx.offset b + b.length.toNat ≤ ctx.offset a
  fits : ((ctx.allocRenderBufs lengths).map fun b => b.length.toNat).sum ≤ ctx.szDynArea.toNat

end DriverBlock

/-- The exact sums of the requests, as far as they fit the area and for the first one that does not,
never lie where their 32-bit remainder fits it. -/
def NeverWraps (size : ℕ) : ℕ → List (BitVec 32) → Prop
  | _, [] => True
  | used, length :: lengths =>
      ¬ (2 ^ 32 ≤ used + length.toNat ∧ used + length.toNat ≤ 2 ^ 32 + size)
        ∧ (used + length.toNat ≤ size → NeverWraps size (used + length.toNat) lengths)

namespace DriverBlock

variable {ctx ctx' : DriverBlock} {length : BitVec 32} {lengths : List (BitVec 32)} {b : RenderBuf}

lemma addr_sub_base (base off : BitVec 32) : base + off - base = off := by
  rw [BitVec.add_comm, BitVec.add_sub_cancel]

/-- On the two sizes it is the allocator of the running program. -/
lemma map_allocRenderBuf (ctx : DriverBlock) (length : BitVec 32) :
    (ctx.allocRenderBuf length).map (fun p => (ctx.offset p.1, p.2.sizes))
      = Danmaku.allocRenderBuf ctx.sizes length := by
  by_cases hroom : ctx.szAllocated + length > ctx.szDynArea
  · rw [allocRenderBuf, if_pos hroom, Danmaku.allocRenderBuf]
    exact (if_pos hroom).symm
  · rw [allocRenderBuf, if_neg hroom, Danmaku.allocRenderBuf, Option.map_some, offset,
      addr_sub_base]
    exact (if_neg hroom).symm

/-- A call that returns. -/
lemma allocRenderBuf_eq_some (h : ctx.allocRenderBuf length = some (b, ctx')) :
    (ctx.szAllocated.toNat + length.toNat) % 2 ^ 32 ≤ ctx.szDynArea.toNat
      ∧ b = ⟨ctx.uaddrDynArea + ctx.szAllocated, ctx.paddrDynArea + ctx.szAllocated, length⟩
      ∧ ctx' = { ctx with szAllocated := ctx.szAllocated + length } := by
  rw [allocRenderBuf] at h
  split at h
  · exact absurd h (by simp)
  · rename_i hroom
    obtain ⟨rfl, rfl⟩ := Prod.mk.inj (Option.some.inj h)
    refine ⟨?_, rfl, rfl⟩
    rw [← BitVec.toNat_add]
    exact Nat.le_of_not_lt hroom

/-- A call that ends the program. -/
lemma allocRenderBuf_eq_none (h : ctx.allocRenderBuf length = none) :
    ctx.szDynArea.toNat < (ctx.szAllocated.toNat + length.toNat) % 2 ^ 32 := by
  rw [allocRenderBuf] at h
  split at h
  · rename_i hroom
    rw [← BitVec.toNat_add]
    exact hroom
  · exact absurd h (by simp)

/-- The user and the physical address of a buffer have the same offset, and it is `sz_allocated`. -/
lemma offset_of_alloc (h : ctx.allocRenderBuf length = some (b, ctx')) :
    ctx.offset b = ctx.szAllocated.toNat
      ∧ b.paddr - ctx.paddrDynArea = b.uaddr - ctx.uaddrDynArea := by
  obtain ⟨-, rfl, -⟩ := allocRenderBuf_eq_some h
  simp only [offset, addr_sub_base, and_self]

lemma same_offsets (lengths : List (BitVec 32)) :
    ∀ b ∈ ctx.allocRenderBufs lengths, b.paddr - ctx.paddrDynArea = b.uaddr - ctx.uaddrDynArea := by
  induction lengths generalizing ctx with
  | nil => simp [allocRenderBufs]
  | cons length lengths ih =>
      intro b hb
      rw [allocRenderBufs] at hb
      split at hb
      · exact absurd hb List.not_mem_nil
      · rename_i b' ctx' halloc
        rcases List.mem_cons.mp hb with rfl | hb
        · exact (offset_of_alloc halloc).2
        · obtain ⟨-, -, rfl⟩ := allocRenderBuf_eq_some halloc
          have hsame := ih b hb
          exact hsame

/-- **Without a wrap-around the code is a bump allocator.** -/
theorem allocRenderBufs_eq (h : NeverWraps ctx.szDynArea.toNat ctx.szAllocated.toNat lengths) :
    (ctx.allocRenderBufs lengths).map (fun b => (ctx.offset b, b.length.toNat))
      = alloc ctx.szDynArea.toNat ctx.szAllocated.toNat (lengths.map BitVec.toNat) := by
  induction lengths generalizing ctx with
  | nil => rfl
  | cons length lengths ih =>
      obtain ⟨hwrap, hrest⟩ := h
      have hsize := ctx.szDynArea.isLt
      have hused := ctx.szAllocated.isLt
      have hlength := length.isLt
      rw [allocRenderBufs, List.map_cons, alloc]
      split
      · rename_i halloc
        have hroom := allocRenderBuf_eq_none halloc
        rw [if_neg (by omega)]
        rfl
      · rename_i b ctx' halloc
        obtain ⟨hroom, hb, rfl⟩ := allocRenderBuf_eq_some halloc
        have hfits : ctx.szAllocated.toNat + length.toNat ≤ ctx.szDynArea.toNat := by omega
        have hsum : (ctx.szAllocated + length).toNat = ctx.szAllocated.toNat + length.toNat := by
          rw [BitVec.toNat_add]
          omega
        have hnext := hrest hfits
        rw [← hsum] at hnext
        rw [if_pos hfits, List.map_cons, (offset_of_alloc halloc).1, hb, ← hsum]
        have hmap := @ih { ctx with szAllocated := ctx.szAllocated + length } hnext
        exact congrArg _ hmap

/-- With one, a buffer is returned that does not lie in the area. -/
lemma exists_outside (h : ¬ NeverWraps ctx.szDynArea.toNat ctx.szAllocated.toNat lengths) :
    ∃ b ∈ ctx.allocRenderBufs lengths, ctx.szDynArea.toNat < ctx.offset b + b.length.toNat := by
  induction lengths generalizing ctx with
  | nil => exact absurd trivial h
  | cons length lengths ih =>
      have hsize := ctx.szDynArea.isLt
      have hused := ctx.szAllocated.isLt
      have hlength := length.isLt
      rw [allocRenderBufs]
      split
      · rename_i halloc
        have hroom := allocRenderBuf_eq_none halloc
        exact absurd ⟨by omega, fun hfits => absurd hroom (by omega)⟩ h
      · rename_i b ctx' halloc
        have hoffset := (offset_of_alloc halloc).1
        obtain ⟨hroom, hb, rfl⟩ := allocRenderBuf_eq_some halloc
        by_cases hfits : ctx.szAllocated.toNat + length.toNat ≤ ctx.szDynArea.toNat
        · have hsum : (ctx.szAllocated + length).toNat
              = ctx.szAllocated.toNat + length.toNat := by
            rw [BitVec.toNat_add]
            omega
          have hrest : ¬ NeverWraps ctx.szDynArea.toNat (ctx.szAllocated + length).toNat
              lengths := by
            rw [hsum]
            exact fun hrest => h ⟨by omega, fun _ => hrest⟩
          obtain ⟨b', hb', hout⟩ :=
            @ih { ctx with szAllocated := ctx.szAllocated + length } hrest
          exact ⟨b', List.mem_cons_of_mem _ hb', hout⟩
        · refine ⟨b, List.mem_cons_self, ?_⟩
          rw [hoffset, hb]
          exact Nat.lt_of_not_le hfits

/-- **When the allocations are sound.** -/
theorem allocationsOk_iff (ctx : DriverBlock) (lengths : List (BitVec 32)) :
    ctx.AllocationsOk lengths
      ↔ NeverWraps ctx.szDynArea.toNat ctx.szAllocated.toNat lengths := by
  constructor
  · intro hok
    by_contra hwrap
    obtain ⟨b, hb, hout⟩ := exists_outside hwrap
    exact absurd (hok.inside b hb) (Nat.not_le.mpr hout)
  · intro hwrap
    have heq := allocRenderBufs_eq hwrap
    have hmem : ∀ b ∈ ctx.allocRenderBufs lengths, (ctx.offset b, b.length.toNat)
        ∈ alloc ctx.szDynArea.toNat ctx.szAllocated.toNat (lengths.map BitVec.toNat) := by
      intro b hb
      rw [← heq]
      exact List.mem_map_of_mem hb
    refine ⟨fun b hb => (alloc_inside _ (hmem b hb)).2, same_offsets lengths, ?_, ?_⟩
    · have hpair : ((ctx.allocRenderBufs lengths).map
          fun b => (ctx.offset b, b.length.toNat)).Pairwise fun a b => a.1 + a.2 ≤ b.1 := by
        rw [heq]
        exact alloc_pairwise
      exact (List.pairwise_map.mp hpair).imp Or.inl
    · have hsum : ((ctx.allocRenderBufs lengths).map fun b => b.length.toNat)
          = (alloc ctx.szDynArea.toNat ctx.szAllocated.toNat
            (lengths.map BitVec.toNat)).map Prod.snd := by
        rw [← heq, List.map_map]
        rfl
      rw [hsum]
      by_cases hused : ctx.szAllocated.toNat ≤ ctx.szDynArea.toNat
      · exact (Nat.le_add_left _ _).trans (used_add_sum_le hused)
      · -- nothing is returned where `sz_allocated` is beyond the area at the start
        cases lengths with
        | nil => exact Nat.zero_le _
        | cons length lengths =>
            rw [List.map_cons, alloc, if_neg (by omega)]
            exact Nat.zero_le _

end DriverBlock

/-! ### After `DanmakuHW_Open` -/

/-- The size of the area comes from its file, `sz_allocated` from the block. -/
lemma danmakuHWOpen_eq_some {env : OpenEnv} {ctx : DriverBlock}
    (h : danmakuHWOpen env = some ctx) :
    ∃ block size, env.malloc = some block ∧ env.udmabuf1Size = some size
      ∧ ctx.szDynArea = size ∧ ctx.szAllocated = block.szAllocated := by
  simp only [danmakuHWOpen, Option.bind_eq_bind, Option.bind_eq_some_iff,
    Option.ite_none_left_eq_some, Option.pure_def, Option.some.injEq] at h
  obtain ⟨-, -, -, -, -, -, -, size, hsize, -, -, block, hblock, -, -, -, -, -, -, -, rfl⟩ := h
  exact ⟨block, size, hblock, hsize, rfl, rfl⟩

/-- **When the allocations after a successful `DanmakuHW_Open` are sound**: exactly when the sums of
the lengths, from what the block of `malloc` held in place of `sz_allocated`, do not wrap around
into the area. -/
theorem allocationsOk_of_open_iff {env : OpenEnv} {ctx : DriverBlock}
    (hopen : danmakuHWOpen env = some ctx) :
    ∃ block size, env.malloc = some block ∧ env.udmabuf1Size = some size
      ∧ ∀ lengths, ctx.AllocationsOk lengths
        ↔ NeverWraps size.toNat block.szAllocated.toNat lengths := by
  obtain ⟨block, size, hblock, hsize, hdyn, halloc⟩ := danmakuHWOpen_eq_some hopen
  refine ⟨block, size, hblock, hsize, fun lengths => ?_⟩
  rw [DriverBlock.allocationsOk_iff, hdyn, halloc]

/-- The driver opened over a block with `szAllocated` in its last field and zeros elsewhere. -/
def sampleEnv (szAllocated : BitVec 32) : OpenEnv where
  sysid := some qsysSystemId
  udmabuf0Size := some 16777216#32
  udmabuf0Phys := some 0x30000000#32
  udmabuf1Size := some dynAreaSize
  udmabuf1Phys := some 0x31000000#32
  malloc := some ⟨0#32, 0#32, 0#32, 0#32, 0#32, 0#32, 0#32, 0#32, 0#32, 0#32, szAllocated⟩
  devmem := 3#32
  udmabuf0 := 4#32
  udmabuf1 := 5#32
  mmapPerph := 0x70000000#32
  mmapFb := 0x71000000#32
  mmapDynArea := 0x72000000#32

/-- A block of zeros and the first two layer maps. -/
theorem allocationsOk_of_open_iff_zeros :
    ∃ ctx, danmakuHWOpen (sampleEnv 0#32) = some ctx
      ∧ ctx.AllocationsOk [BitVec.ofNat 32 mapBytes, BitVec.ofNat 32 mapBytes] := by
  obtain ⟨ctx, hopen⟩ : ∃ ctx, danmakuHWOpen (sampleEnv 0#32) = some ctx := ⟨_, rfl⟩
  obtain ⟨block, size, hblock, hsize, hiff⟩ := allocationsOk_of_open_iff hopen
  obtain rfl := Option.some.inj hblock
  obtain rfl := Option.some.inj hsize
  refine ⟨ctx, hopen, (hiff _).mpr ?_⟩
  simp only [NeverWraps]
  decide

/-- **An allocation outside the area**: the block held a large number. -/
theorem not_allocationsOk_garbage :
    ∃ ctx, danmakuHWOpen (sampleEnv 0xfffff000#32) = some ctx
      ∧ ¬ ctx.AllocationsOk [BitVec.ofNat 32 mapBytes] := by
  refine ⟨_, rfl, fun hok => ?_⟩
  exact absurd (hok.inside _ List.mem_cons_self) (by decide)

/-! ### The requests of the program -/

/-- The lengths that the program requests: a map for each layer in `main`, then a blank screen in
each session. -/
def requests (screens : List Screen) : List (BitVec 32) :=
  List.replicate (slidingLayerRows * slidingLayerCols + numStaticLayer) (BitVec.ofNat 32 mapBytes)
    ++ screens.map Screen.imgSize

/-- The bytes that the sessions request. -/
def blankBytes (screens : List Screen) : ℕ :=
  (screens.map fun scr => (scr.width + 2) * scr.height).sum

lemma blankBytes_concat (screens : List Screen) (scr : Screen) :
    blankBytes (screens ++ [scr]) = blankBytes screens + scr.imgSize.toNat := by
  simp [blankBytes, scr.imgSize_toNat, Screen.stride]

/-- Requests that are small against `2 ^ 32` do not wrap around. -/
lemma neverWraps_of_lt {size used : ℕ} {lengths : List (BitVec 32)} (hused : used ≤ size)
    (h : ∀ length ∈ lengths, size + length.toNat < 2 ^ 32) : NeverWraps size used lengths := by
  induction lengths generalizing used with
  | nil => trivial
  | cons length lengths ih =>
      have hlength := h length List.mem_cons_self
      exact ⟨by omega, fun hfits => ih hfits fun l hl => h l (List.mem_cons_of_mem _ hl)⟩

lemma sum_requests (screens : List Screen) :
    ((requests screens).map BitVec.toNat).sum = layerMap 30 + blankBytes screens := by
  have hmaps : ((List.replicate (slidingLayerRows * slidingLayerCols + numStaticLayer)
      (BitVec.ofNat 32 mapBytes)).map BitVec.toNat).sum = layerMap 30 := by decide
  rw [requests, List.map_append, List.sum_append, hmaps, List.map_map, blankBytes]
  congr 2
  exact List.map_congr_left fun scr _ => scr.imgSize_toNat

/-- **How long the DMA area lasts**: for sessions whose frames fit a buffer, every request is served
exactly when their blank screens together take at most 36388864 bytes. No session gives back its
own. -/
theorem requests_served_iff {ctx : DriverBlock} (hsize : ctx.szDynArea = dynAreaSize)
    (hzero : ctx.szAllocated = 0#32) {screens : List Screen}
    (hfit : ∀ scr ∈ screens, scr.imgSize.toNat ≤ frameBufferSize) :
    (ctx.allocRenderBufs (requests screens)).length = (requests screens).length
      ↔ blankBytes screens ≤ 36388864 := by
  have hlengths : ∀ length ∈ requests screens, 67108864 + length.toNat < 2 ^ 32 := by
    intro length hlength
    rcases List.mem_append.mp hlength with hmap | hblank
    · rw [List.eq_of_mem_replicate hmap]
      decide
    · obtain ⟨scr, hscr, rfl⟩ := List.mem_map.mp hblank
      have hle := hfit scr hscr
      rw [frameBufferSize_eq] at hle
      omega
  have hwrap : NeverWraps ctx.szDynArea.toNat ctx.szAllocated.toNat (requests screens) := by
    rw [hsize, hzero]
    exact neverWraps_of_lt (Nat.zero_le _) hlengths
  have hserved := congrArg List.length (DriverBlock.allocRenderBufs_eq hwrap)
  rw [List.length_map, hsize, hzero, show (0#32).toNat = 0 from rfl] at hserved
  rw [hserved, ← List.length_map BitVec.toNat, alloc_length_iff (Nat.zero_le _), sum_requests]
  simp only [dynAreaSize, layerMap, mapBytes_eq, BitVec.toNat_ofNat]
  omega

/-- Three sessions at 1080p. -/
theorem requests_served_iff_fullHd :
    ∃ ctx, danmakuHWOpen (sampleEnv 0#32) = some ctx
      ∧ (ctx.allocRenderBufs (requests (List.replicate 3 Screen.fullHd))).length = 33 :=
  ⟨_, rfl, (requests_served_iff rfl rfl (by decide)).mpr (by decide)⟩

/-- **The area is used up**: the eighteenth session at 1080p ends the program. -/
theorem not_requests_served_fullHd :
    ∃ ctx, danmakuHWOpen (sampleEnv 0#32) = some ctx
      ∧ ctx.szDynArea = dynAreaSize ∧ ctx.szAllocated = 0#32
      ∧ (∀ scr ∈ List.replicate 18 Screen.fullHd, scr.imgSize.toNat ≤ frameBufferSize)
      ∧ (ctx.allocRenderBufs (requests (List.replicate 18 Screen.fullHd))).length = 47 := by
  refine ⟨_, rfl, rfl, rfl, by decide, ?_⟩
  decide +kernel

/-! ### The running program -/

namespace Sys

variable {s t : Sys} {a : Action} {as : List Action}

/-- The frames of every accepted size fit a buffer. -/
def FramesFit (s : Sys) (_ : Action) : Prop :=
  s.mainPc = .subMain → ∀ scr, Screen.ofFrameSize? s.resolution = some scr →
    scr.imgSize.toNat ≤ frameBufferSize

/-- The history of the sizes that `SubMain` has accepted. -/
def recordScreen (s : Sys) (a : Action) (screens : List Screen) : List Screen :=
  match s.mainPc, a, Screen.ofFrameSize? s.resolution with
  | .subMain, .main _, some scr => screens ++ [scr]
  | _, _, _ => screens

/-- What the sessions so far have taken of the DMA area, until the program ends. -/
structure TakenOk (s : Sys) (screens : List Screen) : Prop where
  dynArea : s.driver.szDynArea = dynAreaSize
  taken : s.mainPc = .exited
    ∨ s.driver.szAllocated.toNat = layerMap 30 + blankBytes screens
      ∧ blankBytes screens ≤ 36388864

lemma recordScreen_main {inp : FrameInput} {scr : Screen} (hpc : s.mainPc = .subMain)
    (hscr : Screen.ofFrameSize? s.resolution = some scr) (screens : List Screen) :
    recordScreen s (.main inp) screens = screens ++ [scr] := by
  simp [recordScreen, hpc, hscr]

lemma recordScreen_of_ne (h : s.mainPc ≠ .subMain ∨ ∀ inp, a ≠ .main inp)
    (screens : List Screen) : recordScreen s a screens = screens := by
  unfold recordScreen
  split <;> simp_all

/-- A session's request is served while all of them together fit. -/
lemma allocRenderBuf_blankBytes {scr : Screen} {screens : List Screen}
    (hsize : s.driver.szDynArea = dynAreaSize)
    (htaken : s.driver.szAllocated.toNat = layerMap 30 + blankBytes screens)
    (hle : blankBytes screens ≤ 36388864) (hfit : scr.imgSize.toNat ≤ frameBufferSize) :
    allocRenderBuf s.driver scr.imgSize = none ↔ 36388864 < blankBytes (screens ++ [scr]) := by
  have hmaps : layerMap 30 = 30720000 := rfl
  have hdyn : dynAreaSize.toNat = 67108864 := rfl
  rw [frameBufferSize_eq] at hfit
  rw [allocRenderBuf, hsize, blankBytes_concat]
  split
  · rename_i hroom
    rw [gt_iff_lt, BitVec.lt_def, BitVec.toNat_add, htaken] at hroom
    exact iff_of_true rfl (by omega)
  · rename_i hroom
    rw [gt_iff_lt, BitVec.lt_def, BitVec.toNat_add, htaken] at hroom
    exact iff_of_false (by simp) (by omega)

/-- `SubMain` takes a blank screen of the new size, or ends the program. -/
lemma TakenOk.subMain {screens : List Screen} {inp : FrameInput} (h : s.TakenOk screens)
    (hpc : s.mainPc = .subMain) (hfit : s.FramesFit (.main inp)) :
    (Danmaku.subMain s).TakenOk (recordScreen s (.main inp) screens) := by
  obtain ⟨hsize, hexit | ⟨htaken, hle⟩⟩ := h
  · exact absurd (hpc.symm.trans hexit) (by simp)
  rcases subMain_cases s with he | he | ⟨scr, blank, driver, hscr, halloc, hroom, he⟩ <;> rw [he]
  · have hnone : Screen.ofFrameSize? s.resolution = none := by
      by_contra hsome
      obtain ⟨scr, hscr⟩ := Option.ne_none_iff_exists'.mp hsome
      have hpc' := congrArg Sys.mainPc he
      simp only [Danmaku.subMain, hscr] at hpc'
      split at hpc'
      · exact absurd hpc' (by simp)
      · split at hpc' <;> exact absurd hpc' (by simp)
    have hrecord : recordScreen s (.main inp) screens = screens := by
      simp [recordScreen, hnone]
    rw [hrecord]
    exact ⟨hsize, Or.inr ⟨htaken, hle⟩⟩
  · exact ⟨hsize, Or.inl rfl⟩
  · rw [recordScreen_main hpc hscr]
    have hserved := allocRenderBuf_blankBytes hsize htaken hle (hfit hpc scr hscr)
    obtain ⟨-, hdyn, hnew⟩ := allocRenderBuf_toNat halloc hroom
    refine ⟨hdyn.trans hsize, Or.inr ⟨?_, ?_⟩⟩
    · simp only [hnew, blankBytes_concat, htaken, Nat.add_assoc]
    · exact Nat.le_of_not_lt fun hlt => absurd (halloc.symm.trans (hserved.mpr hlt)) (by simp)

/-- Every other step leaves the allocator alone. -/
lemma TakenOk.other {screens : List Screen} (h : s.TakenOk screens)
    (ha : s.mainPc ≠ .subMain ∨ ∀ inp, a ≠ .main inp) (hs : Step s a t) : t.TakenOk screens := by
  cases sysMove_of_step hs with
  | @main inp t hmove =>
      have hpc : s.mainPc ≠ .subMain := ha.resolve_right fun hne => hne inp rfl
      cases hmove with
      | subMain hpc' => exact absurd hpc' hpc
      | jump hj => exact ⟨h.dynArea, h.taken.imp_left fun hexit => by cases hj <;> simp_all⟩
      | submit hsub =>
          exact ⟨h.dynArea, h.taken.imp_left fun hexit => by cases hsub <;> simp_all⟩
      | fault | commitFault | wait => exact ⟨h.dynArea, h.taken⟩
      | _ => exact ⟨h.dynArea, h.taken.imp_left fun hexit => by simp_all⟩
  | _ => exact ⟨h.dynArea, h.taken⟩

lemma TakenOk.step {screens : List Screen} (h : s.TakenOk screens) (hfit : s.FramesFit a)
    (hs : Step s a t) : t.TakenOk (recordScreen s a screens) := by
  by_cases hsub : s.mainPc = .subMain ∧ ∃ inp, a = .main inp
  · obtain ⟨hpc, inp, rfl⟩ := hsub
    have ht := (mainStep_of_step hs).2
    rw [mainStep, hpc] at ht
    exact Option.some.inj ht ▸ h.subMain hpc hfit
  · have ha : s.mainPc ≠ .subMain ∨ ∀ inp, a ≠ .main inp := by
      simpa only [not_and_or, not_exists] using hsub
    rw [recordScreen_of_ne ha]
    exact h.other ha hs

/-- **When a session ends the program**: in every run whose frames fit a buffer, `SubMain` exits in
`DanmakuHW_AllocRenderBuf` exactly when the blank screens of all sessions so far and its own take
more than 36388864 bytes. -/
theorem subMain_exits_iff {resolution : BitVec 32} {area fb : ℕ → Byte} {screens : List Screen}
    {scr : Screen}
    (hrun : Run (Recorded (Guard Step FramesFit) recordScreen) (start resolution area fb, []) as
      (s, screens))
    (hpc : s.mainPc = .subMain) (hscr : Screen.ofFrameSize? s.resolution = some scr)
    (hfit : scr.imgSize.toNat ≤ frameBufferSize) :
    (Danmaku.subMain s).mainPc = .exited ↔ 36388864 < blankBytes (screens ++ [scr]) := by
  have hinv : s.TakenOk screens := by
    have hstart : (start resolution area fb).TakenOk [] :=
      ⟨rfl, Or.inr ⟨(by decide : (BitVec.ofNat 32 (layerMap 30)).toNat = layerMap 30 + 0),
        Nat.zero_le _⟩⟩
    refine hrun.invariant (I := fun p => p.1.TakenOk p.2) hstart ?_
    rintro p a q hI ⟨⟨hs, hguard⟩, hrec⟩
    rw [hrec]
    exact hI.step hguard hs
  obtain ⟨htaken, hle⟩ :=
    hinv.taken.resolve_left fun hexit => absurd (hpc.symm.trans hexit) (by simp)
  have hserved := allocRenderBuf_blankBytes hinv.dynArea htaken hle hfit
  rw [← hserved]
  cases halloc : allocRenderBuf s.driver scr.imgSize with
  | none => simp [Danmaku.subMain, hscr, halloc]
  | some p =>
      obtain ⟨blank, driver⟩ := p
      have hle' : blankBytes (screens ++ [scr]) ≤ 36388864 :=
        Nat.le_of_not_lt fun hlt => absurd (halloc.symm.trans (hserved.mpr hlt)) (by simp)
      have hroom : ¬ blank + scr.imgSize.toNat > driver.szDynArea.toNat := by
        rw [allocRenderBuf] at halloc
        split at halloc
        · exact absurd halloc (by simp)
        · obtain ⟨rfl, rfl⟩ := Prod.mk.inj (Option.some.inj halloc)
          have hdyn : dynAreaSize.toNat = 67108864 := rfl
          have hmaps : layerMap 30 = 30720000 := rfl
          rw [blankBytes_concat] at hle'
          simp only [hinv.dynArea, htaken]
          omega
      simp [Danmaku.subMain, hscr, halloc, hroom]

end Sys

end Danmaku
