import Danmaku.Tearing

/-!
Which frames the overlay thread submits.

Committed frames are numbered in ring order, the oldest one at the start of the session first.

* `History`: which frame each buffer holds, the numbers of the submitted frames so far and how
  many submissions were rejected; `History.record` extends it at every step of the protocol.
* `Numbered`: the invariant: the ring holds the frames in order, and the last submitted frame is
  the oldest one in the ring or the one released just before it.
* `frames_submitted_in_order`: **frames are shown in order with none skipped**.
-/

namespace Danmaku

open DmaEngine Transition CountedLoop

/-- What an observer of a session writes down. -/
structure History where
  /-- the number of the frame that a buffer holds, between its commit and its release -/
  frameOf : ℕ → Option ℕ
  /-- the number of the next committed frame -/
  next : ℕ
  /-- what the submitted buffers held -/
  submitted : List (Option ℕ)
  /-- the submissions that found the descriptor FIFO full -/
  rejected : ℕ

namespace History

/-- At the start of a session the frames in the ring are numbered from the oldest one on. -/
def start (r : Ring) : History where
  frameOf b :=
    if b < numFrameBuffer ∧ (b + numFrameBuffer - r.rdptr) % numFrameBuffer < r.ringSize then
      some ((b + numFrameBuffer - r.rdptr) % numFrameBuffer)
    else none
  next := r.ringSize
  submitted := []
  rejected := 0

/-- What a step of the overlay thread adds: `FrameBufferTxmit` submits the frame in buffer `idx`
or is rejected, `ReleaseBuffer` takes the oldest frame out of the ring. -/
def recordOverlay (p : Pipe) (imgSize : BitVec 32) (y : History) : History :=
  match p.overlayPc with
  | .txmit =>
      match frameBufferTxmit p.overlayDma p.idx imgSize with
      | .ok (_, true) => { y with submitted := y.submitted ++ [y.frameOf p.idx.toNat] }
      | .ok (_, false) => { y with rejected := y.rejected + 1 }
      | .error _ => y
  | .release => { y with frameOf := store y.frameOf p.ring.rdptr none }
  | _ => y

/-- What a step of the protocol adds: `CommitBuffer` puts the next frame into the ring. -/
def record (h : Handoff) (l : HandoffLabel) (y : History) : History :=
  match l with
  | .overlay imgSize => recordOverlay h.pipe imgSize y
  | .commit =>
      { y with frameOf := store y.frameOf h.pipe.ring.wrptr (some y.next), next := y.next + 1 }
  | .other => y

end History

/-- The numbers of the submitted frames begin with the oldest one, and each is the one before or
the one following it. -/
def InOrder (ns : List ℕ) : Prop := ns.head?.getD 0 = 0 ∧ ns.IsChain fun m n => n = m ∨ n = m + 1

/-- One more submission, of the frame submitted last or the next one. -/
lemma InOrder.append {ns : List ℕ} {n : ℕ} (ho : InOrder ns)
    (hlast : ns.getLast?.elim (n = 0) fun m => n = m ∨ n = m + 1) : InOrder (ns ++ [n]) := by
  obtain ⟨hhead, hchain⟩ := ho
  refine ⟨?_, List.isChain_append.mpr ⟨hchain, List.isChain_singleton n, ?_⟩⟩
  · cases ns with
    | nil => exact hlast
    | cons m ns => exact hhead
  · intro m hm x hx
    obtain rfl : n = x := by simpa using hx
    rw [Option.mem_def] at hm
    rw [hm] at hlast
    exact hlast

namespace Handoff

/-- The oldest frame in the ring. -/
def oldest (r : Ring) (y : History) : ℕ := y.next - r.ringSize

/-- What has been submitted, at each place of the overlay thread: nothing, or last the oldest
frame; or, where the thread has released a frame since, the one before it. -/
def SubmittedOk (p : Pipe) (y : History) (ns : List ℕ) : Prop :=
  match p.overlayPc with
  | .waitStart | .checkSigint | .firstRunning | .firstFilled =>
      ns = [] ∧ oldest p.ring y = 0 ∧ p.overlayDma.fifo = []
  | .loopTest =>
      p.renderRunning = true → (ns.getLast?.elim (oldest p.ring y = 0) fun n =>
        oldest p.ring y = n ∨ oldest p.ring y = n + 1) ∧ p.overlayDma.fifo = []
  | .txmit =>
      (ns.getLast?.elim (oldest p.ring y = 0) fun n =>
          oldest p.ring y = n ∨ oldest p.ring y = n + 1)
        ∧ p.overlayDma.fifo = []
  | .pollRunning | .pollPending => ns.getLast? = some (oldest p.ring y)
  | .sizeTest | .release =>
      ns.getLast? = some (oldest p.ring y) ∧ (p.renderRunning = true → p.overlayDma.fifo = [])
  | .refetch =>
      (∃ n, ns.getLast? = some n ∧ oldest p.ring y = n + 1)
        ∧ (p.renderRunning = true → p.overlayDma.fifo = [])
  | .absent | .done => True

/-- The invariant of a session with its history. -/
structure Numbered (p : Pipe) (y : History) : Prop where
  size_le : p.ring.ringSize ≤ y.next
  frames : ∀ k < p.ring.ringSize,
    y.frameOf ((p.ring.rdptr + k) % numFrameBuffer) = some (oldest p.ring y + k)
  rejected : y.rejected = 0
  submitted : ∃ ns, y.submitted = ns.map some ∧ InOrder ns ∧ SubmittedOk p y ns

variable {h h' : Handoff} {l : HandoffLabel} {p q : Pipe} {y : History} {imgSize : BitVec 32}

/-- The oldest buffer holds the oldest frame. -/
lemma frameOf_rdptr (hframes : ∀ k < p.ring.ringSize,
      y.frameOf ((p.ring.rdptr + k) % numFrameBuffer) = some (oldest p.ring y + k))
    (hsize : 1 ≤ p.ring.ringSize) : y.frameOf p.ring.rdptr = some (oldest p.ring y) := by
  have hframe := hframes 0 (by omega)
  rwa [Nat.add_zero, Nat.mod_eq_of_lt p.ring.rdptr_lt] at hframe

/-- A release makes the next frame the oldest one. -/
lemma oldest_release {ring : Ring} (hn : Numbered p y) (hring : p.ring.releaseBuffer = some ring) :
    oldest ring y = oldest p.ring y + 1 := by
  obtain ⟨-, -, -, hsize⟩ := Ring.releaseBuffer_spec hring
  have hle := hn.size_le
  simp only [oldest]
  omega

/-- A release leaves the frames behind the oldest one in their buffers. -/
lemma frameOf_release {ring : Ring} {k : ℕ} (hn : Numbered p y)
    (hring : p.ring.releaseBuffer = some ring) (hk : k < ring.ringSize) :
    store y.frameOf p.ring.rdptr none ((ring.rdptr + k) % numFrameBuffer)
      = some (oldest ring y + k) := by
  obtain ⟨-, hrd, -, hsize⟩ := Ring.releaseBuffer_spec hring
  have hsize7 := p.ring.ringSize_lt
  have hlt := p.ring.rdptr_lt
  have hbuf : (ring.rdptr + k) % numFrameBuffer = (p.ring.rdptr + (k + 1)) % numFrameBuffer := by
    rw [hrd, Nat.mod_add_mod, Nat.add_right_comm, Nat.add_assoc]
  have hne : (p.ring.rdptr + (k + 1)) % numFrameBuffer ≠ p.ring.rdptr := by
    simp only [numFrameBuffer] at *
    omega
  rw [hbuf, store_of_ne _ _ hne, hn.frames (k + 1) (by omega), oldest_release hn hring,
    Nat.add_assoc, Nat.add_comm 1 k]

/-- The steps of the overlay thread. -/
lemma Numbered.overlay (hn : Numbered p y) (hov : p.OverlayOk) (hmove : OverlayMove imgSize p q) :
    Numbered q (History.recordOverlay p imgSize y) := by
  have hn' := hn
  obtain ⟨hsize, hframes, hrej, ns, hns, ho, hsub⟩ := hn'
  cases hmove with
  | started hpc hrun | asleep hpc hrun | retry hpc | first hpc hrun | notFound hpc hidx
  | poll hpc hrun | pending hpc hpend | large hpc hlarge =>
      simp only [SubmittedOk, hpc] at hsub
      simp only [History.recordOverlay, hpc]
      exact ⟨hsize, hframes, hrej, ns, hns, ho, hsub⟩
  | quit hpc | leave hpc hrun =>
      simp only [History.recordOverlay, hpc]
      exact ⟨hsize, hframes, hrej, ns, hns, ho, trivial⟩
  | firstStopped hpc hrun =>
      simp only [History.recordOverlay, hpc]
      refine ⟨hsize, hframes, hrej, ns, hns, ho, ?_⟩
      intro hrun'
      exact absurd (hrun'.symm.trans hrun) (by simp)
  | found hpc hidx =>
      simp only [SubmittedOk, hpc] at hsub
      simp only [History.recordOverlay, hpc]
      obtain ⟨rfl, hold, hfifo⟩ := hsub
      exact ⟨hsize, hframes, hrej, [], hns, ho, fun _ => ⟨hold, hfifo⟩⟩
  | enter hpc hrun =>
      simp only [SubmittedOk, hpc] at hsub
      simp only [History.recordOverlay, hpc]
      exact ⟨hsize, hframes, hrej, ns, hns, ho, hsub hrun⟩
  | @submit dma ok hpc htx =>
      simp only [SubmittedOk, hpc] at hsub
      simp only [Pipe.OverlayOk, hpc] at hov
      obtain ⟨hlast, hfifo⟩ := hsub
      obtain ⟨hidx, hone⟩ := hov
      -- the FIFO is empty, so the submission is not rejected
      obtain ⟨-, -, -, ⟨rfl, rfl⟩ | ⟨-, -, hfull⟩⟩ := frameBufferTxmit_ok htx
      · have hframe : y.frameOf p.idx.toNat = some (oldest p.ring y) := by
          rw [hidx, Int.toNat_natCast]
          exact frameOf_rdptr hframes hone
        simp only [History.recordOverlay, hpc, htx, hframe]
        exact ⟨hsize, hframes, hrej, ns ++ [oldest p.ring y], by simp [hns], ho.append hlast,
          List.getLast?_concat⟩
      · rw [hfifo] at hfull
        exact absurd hfull (by decide)
  | txmitFault hpc htx =>
      simp only [SubmittedOk, hpc] at hsub
      simp only [History.recordOverlay, hpc, htx]
      exact ⟨hsize, hframes, hrej, ns, hns, ho, hsub⟩
  | pollStopped hpc hrun =>
      simp only [SubmittedOk, hpc] at hsub
      simp only [History.recordOverlay, hpc]
      refine ⟨hsize, hframes, hrej, ns, hns, ho, hsub, ?_⟩
      intro hrun'
      exact absurd (hrun'.symm.trans hrun) (by simp)
  | taken hpc hpend =>
      simp only [SubmittedOk, hpc] at hsub
      simp only [History.recordOverlay, hpc]
      exact ⟨hsize, hframes, hrej, ns, hns, ho, hsub, fun _ => hpend⟩
  | small hpc hsmall =>
      simp only [SubmittedOk, hpc] at hsub
      simp only [History.recordOverlay, hpc]
      obtain ⟨hlast, hfifo⟩ := hsub
      refine ⟨hsize, hframes, hrej, ns, hns, ho, fun hrun => ⟨?_, hfifo hrun⟩⟩
      rw [hlast]
      exact Or.inl rfl
  | @release ring hpc hring =>
      simp only [SubmittedOk, hpc] at hsub
      simp only [Pipe.OverlayOk, hpc] at hov
      obtain ⟨-, -, -, hsize'⟩ := Ring.releaseBuffer_spec hring
      obtain ⟨hlast, hfifo⟩ := hsub
      have hold := oldest_release hn hring
      simp only [History.recordOverlay, hpc]
      exact ⟨by simp only; omega, fun k hk => frameOf_release hn hring hk, hrej, ns, hns, ho,
        ⟨_, hlast, hold⟩, hfifo⟩
  | releaseFault hpc hring =>
      simp only [Pipe.OverlayOk, hpc] at hov
      exact absurd hring (Ring.releaseBuffer_ne_none (by omega))
  | refetch hpc =>
      simp only [SubmittedOk, hpc] at hsub
      simp only [History.recordOverlay, hpc]
      obtain ⟨⟨n, hlast, hold⟩, hfifo⟩ := hsub
      refine ⟨hsize, hframes, hrej, ns, hns, ho, fun hrun => ⟨?_, hfifo hrun⟩⟩
      rw [hlast]
      exact Or.inr hold

/-- A change of the FIFO that cannot fill it keeps what was submitted. -/
lemma SubmittedOk.fifo {e : Engine OverlayDescriptor} {ns : List ℕ} (hs : SubmittedOk p y ns)
    (he : p.overlayDma.fifo = [] → e.fifo = []) :
    SubmittedOk { p with overlayDma := e } y ns := by
  cases hpc : p.overlayPc <;> simp only [SubmittedOk, hpc] at hs ⊢
  case waitStart => exact ⟨hs.1, hs.2.1, he hs.2.2⟩
  case checkSigint => exact ⟨hs.1, hs.2.1, he hs.2.2⟩
  case firstRunning => exact ⟨hs.1, hs.2.1, he hs.2.2⟩
  case firstFilled => exact ⟨hs.1, hs.2.1, he hs.2.2⟩
  case loopTest => exact fun hrun => ⟨(hs hrun).1, he (hs hrun).2⟩
  case txmit => exact ⟨hs.1, he hs.2⟩
  case pollRunning => exact hs
  case pollPending => exact hs
  case sizeTest => exact ⟨hs.1, fun hrun => he (hs.2 hrun)⟩
  case release => exact ⟨hs.1, fun hrun => he (hs.2 hrun)⟩
  case refetch => exact ⟨hs.1, fun hrun => he (hs.2 hrun)⟩

/-- Lowering the flag keeps what was submitted. -/
lemma SubmittedOk.lower {ns : List ℕ} (hs : SubmittedOk p y ns) :
    SubmittedOk { p with renderRunning := false } y ns := by
  cases hpc : p.overlayPc <;> simp only [SubmittedOk, hpc] at hs ⊢
  case loopTest => exact fun hrun => absurd hrun (by simp)
  case sizeTest => exact ⟨hs.1, fun hrun => absurd hrun (by simp)⟩
  case release => exact ⟨hs.1, fun hrun => absurd hrun (by simp)⟩
  case refetch => exact ⟨hs.1, fun hrun => absurd hrun (by simp)⟩
  all_goals exact hs

/-- A commit numbers one more frame and leaves the oldest one. -/
lemma Numbered.commit {ring : Ring} (hn : Numbered p y)
    (hring : p.ring.commitBuffer = some ring) :
    Numbered { p with ring := ring }
      { y with frameOf := store y.frameOf p.ring.wrptr (some y.next), next := y.next + 1 } := by
  obtain ⟨hsize, hframes, hrej, ns, hns, ho, hsub⟩ := hn
  obtain ⟨hne6, -, hrd, hsize'⟩ := Ring.commitBuffer_spec hring
  have hold : oldest ring
      { y with frameOf := store y.frameOf p.ring.wrptr (some y.next), next := y.next + 1 }
        = oldest p.ring y := by
    simp only [oldest]
    omega
  refine ⟨by simp only; omega, ?_, hrej, ns, hns, ho, ?_⟩
  · intro k hk
    rw [hold]
    simp only [hrd]
    simp only at hk
    by_cases hlast : k = p.ring.ringSize
    · subst hlast
      rw [← Ring.wrptr_eq, store_same]
      congr 1
      simp only [oldest]
      omega
    · have hlt := p.ring.rdptr_lt
      have hwr := p.ring.wrptr_eq
      have hsize7 := p.ring.ringSize_lt
      have hne : (p.ring.rdptr + k) % numFrameBuffer ≠ p.ring.wrptr := by
        simp only [numFrameBuffer] at *
        omega
      rw [store_of_ne _ _ hne, hframes k (by omega)]
  · cases hpc : p.overlayPc <;> simp only [SubmittedOk, hpc, hold] at hsub ⊢ <;> exact hsub

/-- **The frames in the ring stay numbered in order**, in every step of a session. -/
theorem Numbered.step (hb : h.Basic) (hn : Numbered h.pipe y) (hin : h.phase ≠ .off)
    (hstep : Step h l h') : Numbered h'.pipe (History.record h l y) := by
  have hn' := hn
  obtain ⟨hsize, hframes, hrej, ns, hns, ho, hsub⟩ := hn'
  cases hstep with
  | overlay hstep => exact hn.overlay hb.overlay (overlayMove_of_step hstep)
  | dequeue he =>
      obtain ⟨-, d, -, hcons⟩ := Engine.dequeue?_spec he
      exact ⟨hsize, hframes, hrej, ns, hns, ho, hsub.fifo fun hempty => by simp [hempty] at hcons⟩
  | finish he =>
      obtain ⟨-, -, hsame⟩ := Engine.finish?_spec he
      exact ⟨hsize, hframes, hrej, ns, hns, ho, hsub.fifo fun hempty => hsame.trans hempty⟩
  | stutter => exact hn
  | spawn hphase => exact absurd hphase hin
  | raise hphase =>
      have hph := hb.phase
      simp only [PhaseOk, hphase] at hph
      refine ⟨hsize, hframes, hrej, ns, hns, ho, ?_⟩
      rcases hph.1 with hpc | hpc | hpc <;> simp only [SubmittedOk, hpc] at hsub ⊢ <;> exact hsub
  | commit hphase hring => exact hn.commit hring
  | commitFault hphase hring =>
      have hph := hb.phase
      simp only [PhaseOk, hphase] at hph
      exact absurd hring (Ring.commitBuffer_ne_none (by omega))
  | lower hphase => exact ⟨hsize, hframes, hrej, ns, hns, ho, hsub.lower⟩
  | stop hphase => exact ⟨hsize, hframes, hrej, ns, hns, ho, hsub.lower⟩
  | join hphase hpc => exact ⟨hsize, hframes, hrej, ns, hns, ho, trivial⟩
  | _ => exact ⟨hsize, hframes, hrej, ns, hns, ho, hsub⟩

end Handoff

namespace Sys

/-- The step belongs to a session: an overlay thread exists. -/
def InSession (s : Sys) (_ : Action) : Prop := s.phase ≠ .off

/-- What a step adds to the history of a session. -/
def record (s : Sys) (a : Action) (y : History) : History :=
  History.record s.handoff (s.label a) y

variable {s s₀ : Sys} {as : List Action} {y : History}

/-- At the start of a session the frames in the ring are numbered in order. -/
lemma SessionStart.numbered (h : s.SessionStart) :
    Handoff.Numbered s.pipe (History.start s.pipe.ring) := by
  have hdma := h.overlayDma
  simp only [Engine.outstanding, List.append_eq_nil_iff] at hdma
  have hold : Handoff.oldest s.pipe.ring (History.start s.pipe.ring) = 0 := Nat.sub_self _
  refine ⟨le_rfl, ?_, rfl, [], rfl, ⟨rfl, List.isChain_nil⟩, ?_⟩
  · intro k hk
    have hlt := s.pipe.ring.rdptr_lt
    have hsize := s.pipe.ring.ringSize_lt
    have hk' : ((s.pipe.ring.rdptr + k) % numFrameBuffer + numFrameBuffer - s.pipe.ring.rdptr)
        % numFrameBuffer = k := by
      simp only [numFrameBuffer] at *
      omega
    rw [hold, Nat.zero_add]
    simp only [History.start]
    rw [hk', if_pos ⟨Nat.mod_lt _ (by decide), hk⟩]
  · rcases h.overlayPc with hpc | hpc <;> simp only [Handoff.SubmittedOk, hpc] <;>
      exact ⟨trivial, hold, hdma.2⟩

/-- **Committed frames are shown in order with none skipped**: in a session started with no
descriptor outstanding, under every interleaving, the submitted frames begin with the oldest
one, each later submission is of the same frame or of the one committed after it, every
submission is of a committed frame, and none is rejected. -/
theorem frames_submitted_in_order (hstart : s₀.SessionStart)
    (hrun : Run (Recorded (Guard Step InSession) record)
      (s₀, History.start s₀.pipe.ring) as (s, y)) :
    (∃ ns : List ℕ, y.submitted = ns.map some ∧ InOrder ns) ∧ y.rejected = 0 := by
  have hinv : s.handoff.Basic ∧ Handoff.Numbered s.pipe y := by
    refine hrun.invariant (I := fun p => p.1.handoff.Basic ∧ Handoff.Numbered p.1.pipe p.2)
      ⟨hstart.ringInv.basic, hstart.numbered⟩ fun p a q hi hstep => ?_
    obtain ⟨⟨hs, hin⟩, hrec⟩ := hstep
    rw [hrec]
    exact ⟨hi.1.step (step_handoff hs), hi.2.step hi.1 hin (step_handoff hs)⟩
  obtain ⟨-, -, -, hrej, ns, hns, ho, -⟩ := hinv
  exact ⟨⟨ns, hns, ho⟩, hrej⟩

/-- The oldest frame is submitted and released, and the next one submitted. -/
theorem frames_submitted_in_order_wrapped :
    ∃ s y as, Run (Recorded (Guard Step InSession) record)
        (wrappedSession, History.start wrappedSession.pipe.ring) as (s, y)
      ∧ s.pipe.overlayDma.fifo = [⟨6, 10200⟩]
      ∧ (∃ ns : List ℕ, y.submitted = ns.map some ∧ InOrder ns) ∧ y.rejected = 0 := by
  have hexec : ((exec (fun s => decide (s.phase ≠ .off)) wrappedSession
      (List.replicate 5 .overlay ++ [.overlayDequeue] ++ List.replicate 7 .overlay)).map
        fun s => s.pipe.overlayDma.fifo) = some [⟨6, 10200⟩] := by
    decide +kernel
  obtain ⟨s, hs, hfifo⟩ := Option.map_eq_some_iff.mp hexec
  have hrun : Run (Guard Step InSession) wrappedSession _ s :=
    run_of_exec (fun _ _ h => by simpa [InSession] using h) hs
  obtain ⟨y, hrec⟩ := hrun.recorded record (History.start wrappedSession.pipe.ring)
  obtain ⟨hns, hrej⟩ := frames_submitted_in_order sessionStart_wrappedSession hrec
  exact ⟨s, y, _, hrec, hfifo, hns, hrej⟩

end Sys

end Danmaku
