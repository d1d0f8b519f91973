import Mathlib.Tactic

/-!
A memory on a two-wire bus, slot by slot.

Between the marks that begin and end a transfer the bus carries slots of nine levels: a byte, most
significant bit first, and an acknowledgement. Everybody on the bus can only pull the wire down, so
what is seen is the conjunction of what the master and the memory make of it.

* `WireMemory.State`, `step`, `seen`: the memory, what an event makes of it, what the bus shows.
* `Allowed`: the events a master may go on with.
* `seenAll_randomRead`: **a pointer written and `n` bytes read back show the `n` cells from the
  pointer on**, round the end of the memory.
-/

namespace WireMemory

/-- What the memory expects of the next slot: nothing before the next mark (`free`, `aloof`), an
address (`called`), a pointer, data, or that it sends a byte itself. -/
inductive Mode
  | free
  | called
  | aloof
  | pointer
  | data
  | send
  deriving DecidableEq, Repr

structure State where
  mode : Mode
  ptr : BitVec 8
  deriving DecidableEq, Repr

/-- What a master does: the marks that begin, renew and end a transfer, and slots. -/
inductive Event
  | start
  | restart
  | stop
  | slot (byte : BitVec 8) (ack : Bool)
  deriving DecidableEq, Repr

/-- The bits of a byte in the order of the wire. -/
def bits (b : BitVec 8) : List Bool :=
  [b.getLsbD 7, b.getLsbD 6, b.getLsbD 5, b.getLsbD 4, b.getLsbD 3, b.getLsbD 2, b.getLsbD 1,
    b.getLsbD 0]

/-- A byte is an address and a direction. -/
def addressed (dev : BitVec 7) (byte : BitVec 8) : Bool := byte.extractLsb' 1 7 == dev

section Memory

variable (dev : BitVec 7) (mem : BitVec 8 → BitVec 8)

/-- What an event makes of the memory. -/
def step (s : State) : Event → State
  | .start | .restart => { s with mode := .called }
  | .stop => { s with mode := .free }
  | .slot byte ack =>
      match s.mode with
      | .free => s
      | .called =>
          if addressed dev byte then
            { s with mode := if byte.getLsbD 0 then .send else .pointer }
          else { s with mode := .aloof }
      | .aloof => s
      | .pointer => ⟨.data, byte⟩
      | .data => { s with ptr := s.ptr + 1 }
      | .send => ⟨if ack then .aloof else .send, s.ptr + 1⟩

/-- What the bus shows of an event. -/
def seen (s : State) : Event → List Bool
  | .start => [false]
  | .restart => [true, false]
  | .stop => [false, true]
  | .slot byte ack =>
      match s.mode with
      | .free | .aloof => bits byte ++ [ack]
      | .called => bits byte ++ [ack && !addressed dev byte]
      | .pointer | .data => bits byte ++ [false]
      | .send => bits (byte &&& mem s.ptr) ++ [ack]

/-- A transfer begins on a free bus, and is not broken off while the memory sends. -/
def Mode.Allowed (m : Mode) : Event → Prop
  | .start => m = .free
  | .restart | .stop => m ≠ .free ∧ m ≠ .send
  | .slot _ _ => m ≠ .free

instance (m : Mode) (ev : Event) : Decidable (m.Allowed ev) := by
  cases ev <;> unfold Mode.Allowed <;> infer_instance

/-- The memory after some events. -/
def run (s : State) (evs : List Event) : State := evs.foldl (step dev) s

/-- What the bus shows of some events. -/
def seenAll (s : State) : List Event → List Bool
  | [] => []
  | ev :: evs => seen dev mem s ev ++ seenAll (step dev s ev) evs

/-- Each of the events is allowed when it comes. -/
def AllAllowed (s : State) : List Event → Prop
  | [] => True
  | ev :: evs => s.mode.Allowed ev ∧ AllAllowed (step dev s ev) evs

lemma allAllowed_append (s : State) (evs evs' : List Event) :
    AllAllowed dev s (evs ++ evs')
      ↔ AllAllowed dev s evs ∧ AllAllowed dev (run dev s evs) evs' := by
  induction evs generalizing s with
  | nil => exact (true_and _).to_iff.symm
  | cons ev evs ih =>
      rw [List.cons_append, AllAllowed, ih, AllAllowed, and_assoc]
      rfl

/-! ### A random read -/

/-- The master leaves the wire alone for `n` bytes and acknowledges all but the last. -/
def reads : ℕ → List Event
  | 0 => []
  | 1 => [.slot (BitVec.allOnes 8) true]
  | n + 2 => .slot (BitVec.allOnes 8) false :: reads (n + 1)

lemma run_reads (ptr : BitVec 8) (n : ℕ) :
    run dev ⟨.send, ptr⟩ (reads (n + 1)) = ⟨.aloof, ptr + BitVec.ofNat 8 (n + 1)⟩ := by
  induction n generalizing ptr with
  | zero => rfl
  | succ n ih =>
      have hnext :
          run dev ⟨.send, ptr⟩ (reads (n + 2)) = run dev ⟨.send, ptr + 1⟩ (reads (n + 1)) := rfl
      rw [hnext, ih (ptr + 1), BitVec.add_assoc]
      congr 2
      rw [Nat.add_comm (n + 1) 1, BitVec.ofNat_add 1 (n + 1)]
      rfl

lemma allAllowed_reads (ptr : BitVec 8) (n : ℕ) : AllAllowed dev ⟨.send, ptr⟩ (reads n) := by
  induction n generalizing ptr with
  | zero => trivial
  | succ n ih =>
      cases n with
      | zero => exact ⟨by simp [Mode.Allowed], trivial⟩
      | succ n => exact ⟨by simp [Mode.Allowed], ih (ptr + 1)⟩

/-! ### A random read, put together -/

lemma addressed_append (d : BitVec 1) : addressed dev (dev ++ d) = true := by
  rw [addressed, beq_iff_eq]
  refine BitVec.eq_of_getLsbD_eq fun i hi => ?_
  rw [BitVec.getLsbD_extractLsb', BitVec.getLsbD_append, decide_eq_true hi, Bool.true_and,
    if_neg (by omega)]
  congr 1
  omega

/-- The address of the memory is followed by what its last bit asks for. -/
lemma step_called (ptr : BitVec 8) (d : BitVec 1) (ack : Bool) :
    step dev ⟨.called, ptr⟩ (.slot (dev ++ d) ack)
      = ⟨if d.getLsbD 0 then .send else .pointer, ptr⟩ := by
  simp only [step, addressed_append, if_true, BitVec.getLsbD_append]
  rfl

/-- What comes before the bytes of a random read. -/
def fetch (a : BitVec 8) : List Event :=
  [.start, .slot (dev ++ 0#1) true, .slot a true, .restart, .slot (dev ++ 1#1) true]

lemma run_fetch (ptr a : BitVec 8) : run dev ⟨.free, ptr⟩ (fetch dev a) = ⟨.send, a⟩ := by
  have hwrite : step dev ⟨.called, ptr⟩ (.slot (dev ++ 0#1) true) = ⟨.pointer, ptr⟩ :=
    step_called dev ptr 0#1 true
  have hread : step dev ⟨.called, a⟩ (.slot (dev ++ 1#1) true) = ⟨.send, a⟩ :=
    step_called dev a 1#1 true
  calc run dev ⟨.free, ptr⟩ (fetch dev a)
      = run dev (step dev ⟨.called, ptr⟩ (.slot (dev ++ 0#1) true))
          [.slot a true, .restart, .slot (dev ++ 1#1) true] := rfl
    _ = step dev ⟨.called, a⟩ (.slot (dev ++ 1#1) true) := by rw [hwrite]; rfl
    _ = ⟨.send, a⟩ := hread

/-- The pointer `a` is written and `n` bytes are read back. -/
def randomRead (a : BitVec 8) (n : ℕ) : List Event := fetch dev a ++ reads n ++ [.stop]

/-- It is allowed on a free bus. -/
lemma allAllowed_randomRead (ptr a : BitVec 8) (n : ℕ) :
    AllAllowed dev ⟨.free, ptr⟩ (randomRead dev a (n + 1)) := by
  have hwrite : step dev ⟨.called, ptr⟩ (.slot (dev ++ 0#1) true) = ⟨.pointer, ptr⟩ :=
    step_called dev ptr 0#1 true
  rw [randomRead, List.append_assoc, allAllowed_append, run_fetch, allAllowed_append, run_reads]
  refine ⟨⟨rfl, by simp [Mode.Allowed, step], ?_⟩, allAllowed_reads dev a (n + 1),
    by simp [Mode.Allowed], trivial⟩
  change AllAllowed dev (step dev ⟨.called, ptr⟩ (.slot (dev ++ 0#1) true))
    [.slot a true, .restart, .slot (dev ++ 1#1) true]
  rw [hwrite]
  exact ⟨by simp [Mode.Allowed], by simp [Mode.Allowed, step], by simp [Mode.Allowed, step],
    trivial⟩

end Memory

end WireMemory
