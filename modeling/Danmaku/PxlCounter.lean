import Mathlib.Tactic

/-!
`pxlCounter` with its `syncCorrector` (`pxlCount.v`, `syncCorrector.v`), out of reset: the registers
after a rising edge of `odck`. `ovf`, which nothing but the reset assigns, is left out.

* `SyncPolDecter.clock`: the polarity of one sync signal, from the lengths of its two phases.
* `PxlCounter.clock`: the position counters.
* `clock_nowX_of_de` and the lemmas after it: what one clock does to `nowX` and `nowPxl`.
-/

namespace Danmaku

/-- The registers of `syncPolDecter`. -/
structure SyncPolDecter where
  lowCount : BitVec 25
  highCount : BitVec 25
  syncD1 : Bool
  normalSync : Bool
  deriving DecidableEq, Repr

/-- One clock of `syncPolDecter`. -/
def SyncPolDecter.clock (sync : Bool) (s : SyncPolDecter) : SyncPolDecter :=
  if sync then
    if !s.syncD1 then
      { normalSync := decide (s.highCount > s.lowCount), lowCount := 0#25, highCount := 0#25,
        syncD1 := sync }
    else { s with highCount := s.highCount + 1#25, syncD1 := sync }
  else if s.syncD1 then { s with lowCount := 0#25, syncD1 := sync }
  else { s with lowCount := s.lowCount + 1#25, syncD1 := sync }

namespace SyncPolDecter

variable {sync : Bool} {s : SyncPolDecter}

@[simp] lemma clock_syncD1 : (s.clock sync).syncD1 = sync := by
  cases sync with
  | true => cases h : s.syncD1 <;> simp [clock, h]
  | false => cases h : s.syncD1 <;> simp [clock, h]

/-- Only a rising edge changes the answer. -/
lemma clock_normalSync_of_level (h : s.syncD1 = sync) :
    (s.clock sync).normalSync = s.normalSync := by
  cases sync <;> simp [clock, h]

end SyncPolDecter

/-- The registers of `pxlCounter` and of the two detectors of its corrector. -/
structure PxlCounter where
  nowX : BitVec 16
  nowY : BitVec 16
  nowPxl : BitVec 32
  screenX : BitVec 16
  screenY : BitVec 16
  screenPxl : BitVec 32
  lastDe : Bool
  lastVsync : Bool
  hdect : SyncPolDecter
  vdect : SyncPolDecter
  deriving DecidableEq, Repr

namespace PxlCounter

/-- `hsync_o` of the corrector. -/
def hsync (s : PxlCounter) (hsyncIn : Bool) : Bool := s.hdect.normalSync == hsyncIn

/-- `vsync_o` of the corrector. -/
def vsync (s : PxlCounter) (vsyncIn : Bool) : Bool := s.vdect.normalSync == vsyncIn

/-- `de_o` of the corrector. -/
def de (s : PxlCounter) (vsyncIn hsyncIn deIn : Bool) : Bool :=
  deIn && s.hsync hsyncIn && s.vsync vsyncIn

/-- One clock of `pxlCounter`. -/
def clock (scdt vsyncIn hsyncIn deIn : Bool) (s : PxlCounter) : PxlCounter :=
  let vsync := s.vsync vsyncIn
  let de := s.de vsyncIn hsyncIn deIn
  let hdect := s.hdect.clock hsyncIn
  let vdect := s.vdect.clock vsyncIn
  if !scdt then
    { nowX := 0#16, nowY := 0#16, nowPxl := 0#32, screenX := 0#16, screenY := 0#16,
      screenPxl := 0#32, lastDe := false, lastVsync := s.lastVsync, hdect := hdect, vdect := vdect }
  else
    { lastVsync := vsync
      lastDe := de
      -- for X counting
      nowX := if de then s.nowX + 1#16 else 0#16
      screenX := if !de && s.lastDe then s.nowX else s.screenX
      -- for Y counting
      nowY :=
        if !de then if s.lastDe then s.nowY + 1#16 else if !vsync then 0#16 else s.nowY else s.nowY
      screenY := if !de && !s.lastDe && !vsync && s.lastVsync then s.nowY else s.screenY
      -- for Pxl counting
      nowPxl := if de then s.nowPxl + 1#32 else if !vsync then 0#32 else s.nowPxl
      screenPxl := if !de && !vsync && s.lastVsync then s.nowPxl else s.screenPxl
      hdect := hdect
      vdect := vdect }

variable {s : PxlCounter} {v hs d : Bool}

lemma de_of_blank (h : d = false) : s.de v hs d = false := by
  rw [h]
  rfl

/-- The registers after a clock at which the corrected signals are `a` and `b`. -/
def corrected (a b v hs : Bool) (s : PxlCounter) : PxlCounter where
  lastVsync := a
  lastDe := b
  nowX := if b then s.nowX + 1#16 else 0#16
  screenX := if !b && s.lastDe then s.nowX else s.screenX
  nowY := if !b then if s.lastDe then s.nowY + 1#16 else if !a then 0#16 else s.nowY else s.nowY
  screenY := if !b && !s.lastDe && !a && s.lastVsync then s.nowY else s.screenY
  nowPxl := if b then s.nowPxl + 1#32 else if !a then 0#32 else s.nowPxl
  screenPxl := if !b && !a && s.lastVsync then s.nowPxl else s.screenPxl
  hdect := s.hdect.clock hs
  vdect := s.vdect.clock v

lemma clock_eq {a b : Bool} (ha : s.vsync v = a) (hb : s.de v hs d = b) :
    s.clock true v hs d = s.corrected a b v hs := by
  subst ha hb
  rfl

lemma clock_nowX_of_de (h : s.de v hs d = true) :
    (s.clock true v hs d).nowX = s.nowX + 1#16 := by
  simp [clock, h]

lemma clock_nowX_of_blank (h : s.de v hs d = false) : (s.clock true v hs d).nowX = 0#16 := by
  simp [clock, h]

lemma clock_nowPxl_of_de (h : s.de v hs d = true) :
    (s.clock true v hs d).nowPxl = s.nowPxl + 1#32 := by
  simp [clock, h]

lemma clock_nowPxl_of_vsync (h : s.de v hs d = false) (hv : s.vsync v = false) :
    (s.clock true v hs d).nowPxl = 0#32 := by
  simp [clock, h, hv]

lemma clock_nowPxl_of_blank (h : s.de v hs d = false) (hv : s.vsync v = true) :
    (s.clock true v hs d).nowPxl = s.nowPxl := by
  simp [clock, h, hv]

end PxlCounter

end Danmaku
