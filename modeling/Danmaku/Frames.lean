import Danmaku.RenderOnce

/-!
What one call of `RenderOnce` does to the two message queues.

* `arrivals`: the texts that a frame pushes onto each queue, as a function of what it reads.
* `readLine_isSome_iff`: the pushes of a frame stay in the arrays exactly when there is room
  for all of them; `renderFrame_isSome_iff`: nothing else can go wrong in a frame.
* `renderFrame_spec`: the queues stay valid, and each queue's texts are accounted for, those
  handed to a layer in front and those pushed behind.
-/

namespace Danmaku

/-! ### What a frame pushes -/

/-- The texts that the line loop of `BtnEventHandle` finds in a command's output. -/
def commandTexts : ℕ → List Chunk → List Text
  | 0, _ => []
  | _ + 1, [] => []
  | n + 1, c :: cs =>
      let p := c.cstr.skipBlanks
      if p.bytes.length > 8 then p :: commandTexts n cs else []

/-- The texts of a button click. -/
def buttonTexts (inp : FrameInput) : List Text :=
  if inp.click then (List.ofFn inp.out).flatMap fun out => commandTexts 2 (out.getD []) else []

/-- The texts that a frame pushes onto the queue `dest`: that of its line, if the line is of
this type, and those of the button when there is no line. -/
def arrivals (dest : Dest) (inp : FrameInput) : List Text :=
  match inp.line, dest with
  | some c, _ => (dispatch c).toList.filterMap fun p => if p.1 = dest then some p.2 else none
  | none, .slidingQueen => []
  | none, .staticQueen => buttonTexts inp

/-- The queue that `dest` names. -/
def Renderer.queue (r : Renderer) : Dest → Queen
  | .slidingQueen => r.slidingQueen
  | .staticQueen => r.staticQueen

/-- The texts that a list of calls hands to the layers behind `dest`, in order. -/
def handed (dest : Dest) (calls : List Call) : List Text :=
  calls.filterMap fun c =>
    match c, dest with
    | .slidingSetDanmu t, .slidingQueen => some t
    | .forceStaticSetDanmu t, .staticQueen => some t
    | _, _ => none

@[simp] lemma handed_nil (dest : Dest) : handed dest [] = [] := rfl

@[simp] lemma handed_append (dest : Dest) (cs ds : List Call) :
    handed dest (cs ++ ds) = handed dest cs ++ handed dest ds := List.filterMap_append

/-- A push hands nothing to a layer. -/
lemma handed_map_push (dest d : Dest) (ts : List Text) :
    handed dest (ts.map (Call.push d)) = [] := by
  simp [handed, List.filterMap_map]

/-! ### Several pushes in a row -/

/-- The texts `ts` pushed in order. -/
def Queen.pushAll (q : Queen) (ts : List Text) : Option Queen := ts.foldlM Queen.push q

namespace Queen

variable {q q' : Queen} {ts us : List Text}

@[simp] lemma pushAll_nil (q : Queen) : q.pushAll [] = some q := rfl

lemma pushAll_cons (q : Queen) (t : Text) (ts : List Text) :
    q.pushAll (t :: ts) = (q.push t).bind fun q => q.pushAll ts := rfl

lemma pushAll_append (q : Queen) (ts us : List Text) :
    q.pushAll (ts ++ us) = (q.pushAll ts).bind fun q => q.pushAll us := by
  simp only [pushAll, List.foldlM_append]
  rfl

lemma pushAll_spec (hq : q.Valid) (h : q.pushAll ts = some q') :
    q'.Valid ∧ q'.pending = q.pending ++ ts := by
  induction ts generalizing q with
  | nil =>
      obtain rfl := Option.some.inj h
      exact ⟨hq, (List.append_nil _).symm⟩
  | cons t ts ih =>
      rw [pushAll_cons] at h
      obtain ⟨q₁, h₁, h₂⟩ := Option.bind_eq_some_iff.mp h
      obtain ⟨hv, hp⟩ := push_spec hq h₁
      obtain ⟨hv', hp'⟩ := ih hv h₂
      exact ⟨hv', by rw [hp', hp, List.append_assoc]; rfl⟩

/-- Pushes stay in the array exactly when there is room for all of them. -/
lemma pushAll_isSome_iff (hq : q.Valid) (ts : List Text) :
    (q.pushAll ts).isSome ↔ q.count + ts.length ≤ queenSize := by
  induction ts generalizing q with
  | nil =>
      have h := hq.tail_le
      have h' := hq.head_nonneg
      simp only [pushAll_nil, Option.isSome_some, List.length_nil, count, true_iff]
      omega
  | cons t ts ih =>
      rw [pushAll_cons, List.length_cons]
      cases hp : q.push t with
      | none =>
          have hfull := (push_isSome_iff hq t).not.mp (by rw [hp]; simp)
          simp only [Option.bind_none, Option.isSome_none, Bool.false_eq_true, false_iff]
          omega
      | some q₁ =>
          rw [Option.bind_some, ih (push_spec hq hp).1, count_push hq hp]
          omega

end Queen

/-! ### Reading -/

/-- The queue after the texts `ts` were pushed, with the calls. -/
def pushed (q : Queen) (ts : List Text) : Option (Queen × List Call) :=
  (q.pushAll ts).map fun q => (q, ts.map (Call.push .staticQueen))

lemma readCommand_eq (n : ℕ) (cs : List Chunk) (q : Queen) :
    readCommand n cs q = pushed q (commandTexts n cs) := by
  induction n generalizing cs q with
  | zero => rfl
  | succ n ih =>
      cases cs with
      | nil => rfl
      | cons c cs =>
          simp only [readCommand, commandTexts]
          split
          · rw [pushed, Queen.pushAll_cons]
            cases q.push c.cstr.skipBlanks with
            | none => rfl
            | some q₁ =>
                simp only [Option.bind_eq_bind, Option.bind_some, ih, pushed]
                cases q₁.pushAll (commandTexts n cs) <;> rfl
          · rfl

lemma readCommands_eq (outs : List (Option (List Chunk))) (q : Queen) :
    readCommands outs q = pushed q (outs.flatMap fun out => commandTexts 2 (out.getD [])) := by
  induction outs generalizing q with
  | nil => rfl
  | cons out outs ih =>
      cases out with
      | none => exact ih q
      | some cs =>
          simp only [readCommands, readCommand_eq, List.flatMap_cons, Option.getD_some, pushed,
            Queen.pushAll_append]
          cases q.pushAll (commandTexts 2 cs) with
          | none => rfl
          | some q₁ =>
              simp only [Option.bind_eq_bind, Option.bind_some, Option.map_some, ih, pushed]
              cases q₁.pushAll (outs.flatMap fun out => commandTexts 2 (out.getD [])) with
              | none => rfl
              | some q₂ =>
                  simp only [Option.map_some, Option.bind_some, List.map_append]
                  rfl

lemma btnEventHandle_eq (inp : FrameInput) (q : Queen) :
    btnEventHandle inp q = pushed q (buttonTexts inp) := by
  rw [btnEventHandle, buttonTexts]
  split
  · exact readCommands_eq _ q
  · rfl

namespace Renderer

/-- Both queues are valid. -/
def Valid (r : Renderer) : Prop := ∀ dest, (r.queue dest).Valid

/-- Both queues have room for what the frame pushes. -/
def HasRoom (r : Renderer) (inp : FrameInput) : Prop :=
  ∀ dest, (r.queue dest).count + (arrivals dest inp).length ≤ queenSize

end Renderer

section Frame

variable {scr : Screen} {inp : FrameInput} {r r' : Renderer} {calls : List Call}

/-- Reading a line pushes the arrivals of the two queues and does nothing else. -/
lemma readLine_eq (inp : FrameInput) (r : Renderer) :
    ∃ calls, (∀ dest, handed dest calls = []) ∧
      readLine inp r = (r.slidingQueen.pushAll (arrivals .slidingQueen inp)).bind fun sq =>
        (r.staticQueen.pushAll (arrivals .staticQueen inp)).map fun tq =>
          ({ r with slidingQueen := sq, staticQueen := tq }, calls) := by
  cases hline : inp.line with
  | none =>
      refine ⟨(buttonTexts inp).map (Call.push .staticQueen),
        fun dest => handed_map_push dest _ _, ?_⟩
      simp only [readLine, hline, btnEventHandle_eq, pushed, arrivals, Queen.pushAll_nil,
        Option.bind_some]
      cases r.staticQueen.pushAll (buttonTexts inp) <;> rfl
  | some c =>
      cases hd : dispatch c with
      | none =>
          refine ⟨[], fun _ => rfl, ?_⟩
          simp [readLine, hline, hd, arrivals]
      | some p =>
          obtain ⟨dest, t⟩ := p
          refine ⟨[.push dest t], fun d => handed_map_push d dest [t], ?_⟩
          cases dest with
          | slidingQueen =>
              simp only [readLine, hline, hd, arrivals]
              cases h : r.slidingQueen.push t <;> simp [Queen.pushAll_cons, h]
          | staticQueen =>
              simp only [readLine, hline, hd, arrivals]
              cases h : r.staticQueen.push t <;> simp [Queen.pushAll_cons, h]

/-- The pushes of a frame stay in the arrays exactly when there is room for them. -/
lemma readLine_isSome_iff (hr : r.Valid) : (readLine inp r).isSome ↔ r.HasRoom inp := by
  obtain ⟨calls, -, h⟩ := readLine_eq inp r
  have hs := Queen.pushAll_isSome_iff (hr .slidingQueen) (arrivals .slidingQueen inp)
  have ht := Queen.pushAll_isSome_iff (hr .staticQueen) (arrivals .staticQueen inp)
  have hroom : r.HasRoom inp ↔ _ ∧ _ :=
    ⟨fun h => ⟨h .slidingQueen, h .staticQueen⟩, fun h dest => by
    cases dest
    · exact h.1
    · exact h.2⟩
  rw [h, hroom, ← hs, ← ht]
  simp only [Renderer.queue]
  cases r.slidingQueen.pushAll (arrivals .slidingQueen inp) <;>
    cases r.staticQueen.pushAll (arrivals .staticQueen inp) <;> simp

/-- What reading a line does to the queues. -/
lemma readLine_spec (hr : r.Valid) (h : readLine inp r = some (r', calls)) :
    r'.Valid ∧ ∀ dest, (r'.queue dest).pending = (r.queue dest).pending ++ arrivals dest inp
      ∧ handed dest calls = [] := by
  obtain ⟨calls', hcalls, he⟩ := readLine_eq inp r
  rw [he] at h
  obtain ⟨sq, hsq, h⟩ := Option.bind_eq_some_iff.mp h
  obtain ⟨tq, htq, h⟩ := Option.map_eq_some_iff.mp h
  obtain ⟨rfl, rfl⟩ := Prod.mk.inj h
  have hs := Queen.pushAll_spec (hr .slidingQueen) hsq
  have ht := Queen.pushAll_spec (hr .staticQueen) htq
  refine ⟨?_, fun dest => ⟨?_, hcalls dest⟩⟩
  · intro dest
    cases dest
    · exact hs.1
    · exact ht.1
  · cases dest
    · exact hs.2
    · exact ht.2

/-! ### Inserting -/

/-- The layer that `InsertSliding` finds is free. -/
lemma freeSlot_enable {p : Fin slidingLayerRows × Fin slidingLayerCols}
    (h : freeSlot scr r = some p) : (r.slidingLayers p.1 p.2).enable = false := by
  have := List.find?_some h
  simp only [Bool.and_eq_true, Bool.not_eq_true'] at this
  exact this.1

/-- The assertion of `SlidingSetDanmu` holds, and inserting leaves the queues alone. -/
lemma insertSliding_spec (scr : Screen) (inp : FrameInput) (t : Text) (r : Renderer) :
    ∃ r' inserted, insertSliding scr inp t r = some (r', inserted)
      ∧ ∀ dest, r'.queue dest = r.queue dest := by
  rw [insertSliding]
  split
  · exact ⟨r, false, rfl, fun _ => rfl⟩
  · rename_i i j hfree
    have he := freeSlot_enable hfree
    simp only at he
    simp only [slidingSetDanmu, he, Bool.false_eq_true, if_false, Option.bind_eq_bind,
      Option.bind_some, Option.pure_def]
    exact ⟨_, _, rfl, fun dest => by cases dest <;> rfl⟩

/-- `InsertStatic` as its loop over `StaticSetDanmu`: the first layer that answers true is set, and
a random one is overwritten if none does. -/
lemma insertStatic_eq (scr : Screen) (inp : FrameInput) (t : Text) (r : Renderer) :
    insertStatic scr inp t r =
      let set i := staticSetDanmu scr (r.staticLayers i) t.strlenUtf8 inp.staticRand (inp.bitmap t)
        r.canvas
      let c : Fin numStaticLayer := ⟨inp.layerRand % numStaticLayer, Nat.mod_lt _ (by decide)⟩
      let (i, drawn) := ((List.finRange numStaticLayer).findSome? fun i =>
        (set i).map fun drawn => (i, drawn)).getD
          (c, forceStaticSetDanmu scr (r.staticLayers c) t.strlenUtf8 inp.staticRand (inp.bitmap t)
            r.canvas)
      { r with staticLayers := Function.update r.staticLayers i drawn.1, canvas := drawn.2 } := by
  have hloop : ∀ l : List (Fin numStaticLayer),
      (l.findSome? fun i => (staticSetDanmu scr (r.staticLayers i) t.strlenUtf8 inp.staticRand
        (inp.bitmap t) r.canvas).map fun drawn => (i, drawn))
      = (l.find? fun i => !(r.staticLayers i).enable).map fun i => (i, forceStaticSetDanmu scr
          (r.staticLayers i) t.strlenUtf8 inp.staticRand (inp.bitmap t) r.canvas) := by
    intro l
    induction l with
    | nil => rfl
    | cons i l ih =>
        rw [List.findSome?_cons, List.find?_cons, staticSetDanmu]
        cases (r.staticLayers i).enable with
        | true => exact ih
        | false => rfl
  simp only [hloop, insertStatic]
  cases (List.finRange numStaticLayer).find? fun i => !(r.staticLayers i).enable <;> rfl

lemma insertStatic_queue (dest : Dest) (t : Text) :
    (insertStatic scr inp t r).queue dest = r.queue dest := by
  cases dest <;> rfl

/-- A queue from which the oldest text was fetched and popped. -/
lemma pending_of_fetch {q : Queen} {t : Text} (hq : q.Valid) (h : q.fetch = some t) :
    t :: q.pop.pending = q.pending := by
  rw [Queen.fetch_eq hq] at h
  rw [Queen.pending_pop]
  cases hp : q.pending with
  | nil => simp [hp] at h
  | cons a l =>
      rw [hp] at h
      rw [← Option.some.inj h]
      rfl

/-- The sliding queue's turn: what it hands to a layer it no longer holds. -/
lemma feedSliding_spec (scr : Screen) (inp : FrameInput) (hr : r.Valid) :
    ∃ r' calls, feedSliding scr inp r = some (r', calls) ∧ r'.Valid
      ∧ ∀ dest, handed dest calls ++ (r'.queue dest).pending = (r.queue dest).pending := by
  cases hf : r.slidingQueen.fetch with
  | none => exact ⟨r, [], by simp [feedSliding, hf], hr, fun _ => rfl⟩
  | some tmp =>
      obtain ⟨r₁, inserted, hi, hqueue⟩ := insertSliding_spec scr inp tmp r
      have hq : r₁.slidingQueen = r.slidingQueen := hqueue .slidingQueen
      cases inserted with
      | false =>
          refine ⟨r₁, [], by simp [feedSliding, hf, hi], ?_, ?_⟩
          · intro dest
            rw [hqueue dest]
            exact hr dest
          · intro dest
            rw [hqueue dest]
            rfl
      | true =>
          refine ⟨{ r₁ with slidingQueen := r₁.slidingQueen.pop }, [.slidingSetDanmu tmp],
            by simp [feedSliding, hf, hi], fun dest => ?_, fun dest => ?_⟩
          · cases dest with
            | slidingQueen =>
                show (r₁.slidingQueen.pop).Valid
                rw [hq]
                exact Queen.valid_pop (hr .slidingQueen)
            | staticQueen =>
                show (r₁.queue .staticQueen).Valid
                rw [hqueue]
                exact hr .staticQueen
          · cases dest with
            | slidingQueen =>
                show tmp :: r₁.slidingQueen.pop.pending = _
                rw [hq]
                exact pending_of_fetch (hr .slidingQueen) hf
            | staticQueen =>
                show (r₁.queue .staticQueen).pending = _
                rw [hqueue]

/-- The static queue's turn. It always finds a layer, so its oldest text leaves. -/
lemma feedStatic_spec (scr : Screen) (inp : FrameInput) (hr : r.Valid) :
    (feedStatic scr inp r).1.Valid
      ∧ (∀ dest, handed dest (feedStatic scr inp r).2
          ++ ((feedStatic scr inp r).1.queue dest).pending
        = (r.queue dest).pending)
      ∧ (feedStatic scr inp r).1.staticQueen = r.staticQueen.pop := by
  cases hf : r.staticQueen.fetch with
  | none =>
      have hrun : feedStatic scr inp r = (r, []) := by simp [feedStatic, hf]
      rw [hrun]
      refine ⟨hr, fun _ => rfl, ?_⟩
      have hpop : ¬ r.staticQueen.tail - r.staticQueen.head > 0 := by
        rw [Queen.fetch] at hf
        split at hf
        · omega
        · exact absurd hf (by simp)
      rw [Queen.pop, if_neg hpop]
  | some tmp =>
      have hrun : feedStatic scr inp r
          = ({ insertStatic scr inp tmp r with
                staticQueen := (insertStatic scr inp tmp r).staticQueen.pop },
              [.forceStaticSetDanmu tmp]) := by simp [feedStatic, hf]
      have hq : (insertStatic scr inp tmp r).staticQueen = r.staticQueen :=
        insertStatic_queue .staticQueen tmp
      rw [hrun]
      refine ⟨?_, ?_, congrArg Queen.pop hq⟩
      · intro dest
        cases dest with
        | slidingQueen => exact hr .slidingQueen
        | staticQueen =>
            show (insertStatic scr inp tmp r).staticQueen.pop.Valid
            rw [hq]
            exact Queen.valid_pop (hr .staticQueen)
      · intro dest
        cases dest with
        | slidingQueen => rfl
        | staticQueen =>
            show tmp :: (insertStatic scr inp tmp r).staticQueen.pop.pending = _
            rw [hq]
            exact pending_of_fetch (hr .staticQueen) hf

/-! ### A frame -/

/-- The phases of a frame that is rendered without a write outside a queue. -/
lemma renderFrame_eq_some_iff :
    renderFrame scr inp r = some (r', calls) ↔ ∃ r₁ read r₂ slid,
      readLine inp r = some (r₁, read) ∧ feedSliding scr inp r₁ = some (r₂, slid)
        ∧ r' = nextCycle (feedStatic scr inp r₂).1
        ∧ calls = read ++ slid ++ (feedStatic scr inp r₂).2 := by
  simp only [renderFrame, Option.bind_eq_bind, Option.bind_eq_some_iff, Option.pure_def,
    Option.some.injEq, Prod.mk.injEq, Prod.exists]
  constructor
  · rintro ⟨r₁, read, h₁, r₂, slid, h₂, hr', hcalls⟩
    exact ⟨r₁, read, r₂, slid, h₁, h₂, hr'.symm, hcalls.symm⟩
  · rintro ⟨r₁, read, r₂, slid, h₁, h₂, hr', hcalls⟩
    exact ⟨r₁, read, h₁, r₂, slid, h₂, hr'.symm, hcalls.symm⟩

/-- A frame is rendered without a write outside a queue exactly when there is room for what
it pushes. -/
lemma renderFrame_isSome_iff (scr : Screen) (hr : r.Valid) :
    (renderFrame scr inp r).isSome ↔ r.HasRoom inp := by
  rw [← readLine_isSome_iff hr]
  cases hread : readLine inp r with
  | none => simp [renderFrame, hread]
  | some p =>
      obtain ⟨r₁, read⟩ := p
      obtain ⟨r₂, slid, h₂, -⟩ := feedSliding_spec scr inp (readLine_spec hr hread).1
      simp [renderFrame, hread, h₂]

/-- **What a frame does to the queues**: both stay valid, and in each the texts handed to a
layer, followed by those still waiting, are those that waited before, followed by the
arrivals. -/
theorem renderFrame_spec (hr : r.Valid) (h : renderFrame scr inp r = some (r', calls)) :
    r'.Valid ∧ ∀ dest, handed dest calls ++ (r'.queue dest).pending
      = (r.queue dest).pending ++ arrivals dest inp := by
  obtain ⟨r₁, read, r₂, slid, h₁, h₂, rfl, rfl⟩ := renderFrame_eq_some_iff.mp h
  obtain ⟨hv₁, hp₁⟩ := readLine_spec hr h₁
  obtain ⟨r₂', slid', h₂', hv₂, hp₂⟩ := feedSliding_spec scr inp hv₁
  obtain ⟨rfl, rfl⟩ := Prod.mk.inj (Option.some.inj (h₂.symm.trans h₂'))
  obtain ⟨hv₃, hp₃, -⟩ := feedStatic_spec scr inp hv₂
  have hqueue : ∀ q : Renderer, ∀ dest, (nextCycle q).queue dest = q.queue dest := by
    intro q dest
    cases dest <;> rfl
  refine ⟨?_, ?_⟩
  · intro dest
    rw [hqueue]
    exact hv₃ dest
  · intro dest
    rw [hqueue, handed_append, handed_append, (hp₁ dest).2, List.nil_append, List.append_assoc]
    calc handed dest slid ++ (handed dest (feedStatic scr inp r₂).2
          ++ ((feedStatic scr inp r₂).1.queue dest).pending)
        = handed dest slid ++ (r₂.queue dest).pending := by rw [hp₃ dest]
      _ = (r₁.queue dest).pending := hp₂ dest
      _ = (r.queue dest).pending ++ arrivals dest inp := (hp₁ dest).1

/-- In every frame the static queue gives up one text, if it has any. -/
lemma renderFrame_static_count (hr : r.Valid) (h : renderFrame scr inp r = some (r', calls)) :
    r'.staticQueen.count = r.staticQueen.count + (arrivals .staticQueen inp).length - 1 := by
  obtain ⟨r₁, read, r₂, slid, h₁, h₂, rfl, -⟩ := renderFrame_eq_some_iff.mp h
  obtain ⟨hv₁, hp₁⟩ := readLine_spec hr h₁
  obtain ⟨r₂', slid', h₂', hv₂, hp₂⟩ := feedSliding_spec scr inp hv₁
  obtain ⟨rfl, rfl⟩ := Prod.mk.inj (Option.some.inj (h₂.symm.trans h₂'))
  have h₃ : (nextCycle (feedStatic scr inp r₂).1).staticQueen = r₂.staticQueen.pop :=
    (feedStatic_spec scr inp hv₂).2.2
  have hslid : handed .staticQueen slid = [] := by
    rw [feedSliding] at h₂
    split at h₂
    · obtain ⟨-, rfl⟩ := Prod.mk.inj (Option.some.inj h₂)
      rfl
    · obtain ⟨⟨r₃, inserted⟩, -, h₂⟩ := Option.bind_eq_some_iff.mp h₂
      cases inserted <;> obtain ⟨-, rfl⟩ := Prod.mk.inj (Option.some.inj h₂) <;> rfl
  have hlen := congrArg List.length ((hp₂ .staticQueen).trans (hp₁ .staticQueen).1)
  rw [hslid, List.nil_append, List.length_append, Queen.pending_length,
    Queen.pending_length] at hlen
  rw [h₃, Queen.count_pop]
  simp only [Renderer.queue] at hlen
  rw [hlen]

end Frame

/-! ### Runs -/

/-- A run of `RenderOnce` calls, each with the size of its session; `none` if one of them
writes outside a queue. -/
def renderFrames : List (Screen × FrameInput) → Renderer → Option (Renderer × List Call)
  | [], r => some (r, [])
  | (scr, inp) :: frames, r => do
      let (r, calls) ← renderFrame scr inp r
      let (r, calls') ← renderFrames frames r
      return (r, calls ++ calls')

/-- Whenever a frame of the run begins, both queues have room for what it pushes. -/
def RoomThroughout : List (Screen × FrameInput) → Renderer → Prop
  | [], _ => True
  | (scr, inp) :: frames, r => r.HasRoom inp ∧
      ∀ r' calls, renderFrame scr inp r = some (r', calls) → RoomThroughout frames r'

lemma valid_initRenderer (area : ℕ → Byte) : (initRenderer area).Valid := by
  intro dest
  cases dest <;> exact Queen.valid_initQueen _

lemma pending_initRenderer (area : ℕ → Byte) (dest : Dest) :
    ((initRenderer area).queue dest).pending = [] := by
  cases dest <;> rfl

/-- The start of a run that has room throughout has room throughout. -/
lemma RoomThroughout.of_append {frames rest : List (Screen × FrameInput)} {r : Renderer}
    (h : RoomThroughout (frames ++ rest) r) : RoomThroughout frames r := by
  induction frames generalizing r with
  | nil => trivial
  | cons f frames ih => exact ⟨h.1, fun r' calls h' => ih (h.2 r' calls h')⟩

/-- The room of a run is there in its second part. -/
lemma RoomThroughout.drop {frames rest : List (Screen × FrameInput)} {r r₁ : Renderer}
    {calls : List Call} (h : RoomThroughout (frames ++ rest) r)
    (hr : renderFrames frames r = some (r₁, calls)) : RoomThroughout rest r₁ := by
  induction frames generalizing r calls with
  | nil =>
      obtain ⟨rfl, -⟩ := Prod.mk.inj (Option.some.inj hr)
      exact h
  | cons f frames ih =>
      obtain ⟨⟨r₀, c₀⟩, h₀, hr⟩ := Option.bind_eq_some_iff.mp hr
      obtain ⟨⟨r₂, c₂⟩, h₂, hr⟩ := Option.bind_eq_some_iff.mp hr
      obtain ⟨rfl, -⟩ := Prod.mk.inj (Option.some.inj hr)
      exact ih (h.2 r₀ c₀ h₀) h₂

/-- Texts that all fit into the queues together leave room throughout. -/
lemma roomThroughout_of_le {frames : List (Screen × FrameInput)} {r : Renderer} (hv : r.Valid)
    (h : ∀ dest, (r.queue dest).count + (frames.flatMap fun f => arrivals dest f.2).length
      ≤ queenSize) : RoomThroughout frames r := by
  induction frames generalizing r with
  | nil => trivial
  | cons f frames ih =>
      simp only [List.flatMap_cons, List.length_append, ← Nat.add_assoc] at h
      refine ⟨fun dest => (Nat.le_add_right _ _).trans (h dest), fun r' calls hr => ?_⟩
      obtain ⟨hv', hacc⟩ := renderFrame_spec hv hr
      refine ih hv' fun dest => le_trans (Nat.add_le_add_right ?_ _) (h dest)
      -- what is handed to a layer no longer counts
      have hlen := congrArg List.length (hacc dest)
      simp only [List.length_append, Queen.pending_length] at hlen
      omega

end Danmaku
