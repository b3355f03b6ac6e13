import Mathlib
import Nondet.Proofs.Native.Prelude
import Nondet.Proofs.Session.Dialogue

/-!
# Rollback

What is undone when a choice leaves an alternative.  When an alternative has no more outcomes, the
choice goes on in the context that its snapshot makes (`Stream.gives_choice`).  The snapshot
remembers the frames that could be reached from the stack and from the global frame when the choice
was begun; their tables are what they were, and every other table keeps all that was done to it
meanwhile (`choice_rolls_back`).

So an alternative is undone as far as the frames can be reached, and that is not all of it: a
function that was called for, and is waiting for the arguments in which the choice stands, is held
by a stream and by no frame.  If its frame is not reached otherwise, it keeps what it was told
(`later_alternative_sees_earlier`).
-/

namespace Nondet

/-- The regime under which frames are never referred to before they exist. -/
def Regime.inRange : Regime where
  node _ := True
  frame n i := i < n
  first := 0
  literal _ _ := trivial
  returned _ _ := trivial
  frame_mono hle hi := Nat.lt_of_lt_of_le hi hle
  frame_new n _ := Nat.lt_succ_self n
  frame_old := FrameId.lt_of_lt_succ

theorem Regime.inRange_reads : Regime.inRange.Reads := fun _ _ _ _ _ _ _ => trivial

theorem Context.Fits.inRange {c : Context} (h : c.Fits .inRange) : c.frames.InRange :=
  fun _ _ he => h.frames.edge (Frames.lt_next he.choose_spec.1) he

/-- What a choice gives when it goes on in the context `c`: what the next alternative gives, or that
there are no more outcomes after the last one. -/
def Snapshot.GoesOn (snapshot : Snapshot) (c : Context) (r : Reply Stream Outcome) :
    List Node → Prop
  | []         => r = .finished c
  | n :: later => (Stream.choice snapshot (evaluate n) later).Gives c r

/-- An alternative that has no more outcomes hands over to the next one, in the context that the
snapshot makes. -/
theorem Stream.gives_choice {snapshot : Snapshot} {current : Stream} {later : List Node}
    {c c₁ : Context} (h : current.Gives c (.finished c₁)) {r : Reply Stream Outcome} :
    (Stream.choice snapshot current later).Gives c r ↔
      snapshot.GoesOn (c₁.restore snapshot) r later := by
  rw [Stream.gives_iff]
  constructor
  · rintro ⟨r', hr', hl⟩
    obtain rfl := hr'.unique h
    cases later with
    | nil => exact hl
    | cons n later => exact Move.leads_asked.mp hl
  · intro hr
    refine ⟨_, h, ?_⟩
    cases later with
    | nil => exact hr
    | cons n later => exact Move.leads_asked.mpr hr

/-- A frame that a snapshot remembers has its table back, and every other frame keeps the table
that it has. -/
theorem Context.restored_table_iff {c₀ c : Context} (h₀ : c₀.Fits .inRange)
    (hs : c₀.snapshot.Fits .inRange c.frames.next) (i : FrameId) :
    (c.restore c₀.snapshot).frames.bindings i = c₀.frames.bindings i ↔
      c₀.Reaches i ∨ c.frames.bindings i = c₀.frames.bindings i := by
  classical
  rw [Context.bindings_restore h₀.inRange]
  by_cases hi : c₀.Reaches i
  · have remembered : (i, c₀.frames.bindings i) ∈ c₀.snapshot.bindings :=
      List.mem_map.mpr ⟨i, (Frames.mem_reachable h₀.inRange).mpr hi, rfl⟩
    have hlt : i < c.frames.next := hs.frames _ remembered
    simp [hi, hlt]
  · simp [hi]

namespace Dialogue

/-- Whatever is asked during a request is asked with frames in range. -/
theorem Fits.allows {d : Dialogue} (h : d.Fits .inRange) {q : Query} (hq : d.Asks q) :
    Regime.inRange.contract.Allows q := by
  obtain ⟨run, hrun, hw⟩ := hq
  have fits : run.Fits .inRange d.context.frames.next := by
    cases h.solutions with
    | nothing hs _ =>
        rw [hs] at hrun
        cases hrun
    | script hs _ _ =>
        rw [hs] at hrun
        cases hrun
        exact fun _ _ => trivial
    | rest hs _ hf =>
        rw [hs] at hrun
        cases hrun
        exact hf
  exact Regime.inRange.kept.within hw ⟨h.context, fits⟩

theorem Fits.asks {d : Dialogue} (h : d.Fits .inRange) {s : Stream} {c : Context}
    (hq : d.Asks (.stream s c)) : c.Fits .inRange ∧ s.Fits .inRange c.frames.next := h.allows hq

end Dialogue

/-- **What is undone when a choice leaves an alternative.**  Let a choice be begun in the context
`c₀`, in some run of some session, and let its current alternative, asked in `c` then or later, have
no more outcomes and leave the context `c₁`.  Then the choice goes on, with the next alternative or
with what comes after the last, in the context that the snapshot makes of `c₁`; and in it a frame
has the table that it had in `c₀` exactly if it could be reached in `c₀`, or has that table in `c₁`
anyway. -/
theorem choice_rolls_back (options : SessionOptions) (host : Host) (hh : host.Fits .inRange)
    {d₀ d : Dialogue} (h₀ : Dialogue.Leads .inRange (.start options host) d₀)
    (h : Dialogue.Leads .inRange d₀ d) {alternatives later : List Node} {c₀ c c₁ : Context}
    (begun : d₀.Asks (.stream (.amb alternatives) c₀)) {current : Stream}
    (asked : d.Asks (.stream (.choice c₀.snapshot current later) c))
    (left : current.Gives c (.finished c₁)) :
    (∀ r, (Stream.choice c₀.snapshot current later).Gives c r ↔
        c₀.snapshot.GoesOn (c₁.restore c₀.snapshot) r later) ∧
      ∀ i, (c₁.restore c₀.snapshot).frames.bindings i = c₀.frames.bindings i ↔
        c₀.Reaches i ∨ c₁.frames.bindings i = c₀.frames.bindings i := by
  -- In a session no frame is referred to before it exists, so the search for a snapshot is complete.
  have start : (Dialogue.start options host).Fits .inRange := Dialogue.fits_start options hh
  have fits₀ := start.leads Regime.inRange_reads h₀
  have fits := fits₀.leads Regime.inRange_reads h
  -- The choice was begun in one request and may be asked in a later one.
  obtain ⟨hc₀, -⟩ := fits₀.asks begun
  obtain ⟨hc, hs, hcurrent, -⟩ := fits.asks asked
  obtain ⟨-, hle, -⟩ := Regime.inRange.kept.gives ⟨hc, hcurrent⟩ left
  exact ⟨fun r => Stream.gives_choice left, Context.restored_table_iff hc₀ (hs.mono hle)⟩

/-! ### Two runs -/

section Requests

variable {σ α : Type} {fuel : Nat}

/-- What a move asks, one after the other, as far as the fuel goes. -/
def Move.requests (fuel : Nat) : Move σ α → List Query
  | .answer _          => []
  | .stream s c next   =>
    .stream s c :: match s.ask fuel c with
      | some r => (next r).requests fuel
      | none   => []
  | .odometer o c next =>
    .odometer o c :: match o.ask fuel c with
      | some r => (next r).requests fuel
      | none   => []

theorem Move.asks_of_mem_requests {q : Query} : ∀ {m : Move σ α}, q ∈ m.requests fuel → m.Asks q
  | .answer _, h => by cases h
  | .stream s c next, h => by
      rw [requests] at h
      rcases List.mem_cons.mp h with rfl | h
      · exact .stream
      split at h
      next hr => exact .afterStream ⟨fuel, hr⟩ (asks_of_mem_requests h)
      next => cases h
  | .odometer o c next, h => by
      rw [requests] at h
      rcases List.mem_cons.mp h with rfl | h
      · exact .odometer
      split at h
      next hr => exact .afterOdometer ⟨fuel, hr⟩ (asks_of_mem_requests h)
      next => cases h

/-- What a request asks itself. -/
def Query.requests (fuel : Nat) : Query → List Query
  | .stream s c   => (s.move c).requests fuel
  | .odometer o c => (o.move c).requests fuel

/-- What is asked on the way, the request itself included, so many requests deep. -/
def Query.onTheWay (fuel : Nat) : Nat → Query → List Query
  | 0,         q => [q]
  | depth + 1, q => q :: (q.requests fuel).flatMap (onTheWay fuel depth)

theorem Query.within_of_onTheWay : ∀ {depth : Nat} {q q' : Query},
    q' ∈ q.onTheWay fuel depth → q.Within q'
  | 0, _, _, h => List.mem_singleton.mp h ▸ .refl
  | _ + 1, q, _, h => by
      rcases List.mem_cons.mp h with rfl | h
      · exact .refl
      obtain ⟨q₁, h₁, h⟩ := List.mem_flatMap.mp h
      have asks : q.Asks q₁ := by
        cases q with
        | stream s c => exact Move.asks_of_mem_requests h₁
        | odometer o c => exact Move.asks_of_mem_requests h₁
      exact .head asks (within_of_onTheWay h)

end Requests

/-- A choice that begins with an alternative, or one that has begun. -/
def Query.isChoice : Query → Bool
  | .stream (.amb (_ :: _)) _ | .stream (.choice _ _ _) _ => true
  | _ => false

/-- A script that calls a function for a choice.  The frame of the function is held by the call that
waits for its argument, and by no frame. -/
def Node.callsForChoice : Node → Bool
  | .program _ [.variableDeclaration _ .let "x" (.literal _ .null), .expressionStatement _ (.call _
      (.call _ (.arrowFunction _ none ["y"] .expression (.arrowFunction _ none ["z"] .expression
        (.assignment _ "y" (.identifier _ "z")))) [.literal _ .null])
      [.call _ (.identifier _ "amb")
        [.assignment _ "x" (.literal _ (.bool true)), .literal _ .null]])] => true
  | _ => false

/-- The first request for such a script begins the choice, and the second one leaves the first
alternative of it: what that one told `x` is undone, and what the function was told for it is not. -/
theorem Node.answers_callsForChoice {program : Node} (h : program.callsForChoice = true) :
    let start : Context := (Session.start ⟨.standard, false⟩ Prelude.host).context
    ∃ (first second : Node) (answer : Answer) (run current : Stream) (c' c₀ c c₁ : Context),
      (Solutions.of program).next 60 start = some (answer, ⟨some run⟩, c') ∧
      ((Query.stream (evaluate program) start).onTheWay 60 20).find? Query.isChoice =
        some (.stream (.amb [first, second]) c₀) ∧
      ((Query.stream run c').onTheWay 60 20).find? Query.isChoice =
        some (.stream (.choice c₀.snapshot current [second]) c) ∧
      current.ask 10 c = some (.finished c₁) ∧ c₀.stack = [1, 0] ∧
      [c₀, c₁, c₁.restore c₀.snapshot].map (·.frames.binding? 1 "x") =
        [Value.null, .bool true, .null].map (fun v => some (.assigned v true)) ∧
      [c₀, c₁, c₁.restore c₀.snapshot].map (·.frames.binding? 2 "y") =
        [Value.null, .bool true, .bool true].map (fun v => some (.assigned v true)) := by
  unfold callsForChoice at h
  split at h
  next =>
    refine ⟨?first, ?second, ?answer, ?run, ?current, ?c', ?c₀, ?c, ?c₁, ?answered, ?begun, ?asked,
      ?left, ?stack, ?x, ?y⟩
    case answered | begun | asked | left =>
      cbv
      rfl
    case stack | x | y => cbv
  next => cases h

/-- The rule for a choice whose first alternative assigns to a name of the script and has the function
assign to its own, and which is asked again by a later request. -/
theorem choice_rolls_back_assignments :
    Prelude.host.Fits .inRange ∧
      ∃ (d₀ d : Dialogue) (first second : Node) (current : Stream) (c₀ c c₁ : Context),
        Dialogue.Leads .inRange (.start ⟨.standard, false⟩ Prelude.host) d₀ ∧
        Dialogue.Leads .inRange d₀ d ∧ d₀.Asks (.stream (.amb [first, second]) c₀) ∧
        d.Asks (.stream (.choice c₀.snapshot current [second]) c) ∧
        current.Gives c (.finished c₁) ∧
        (∀ i, (c₁.restore c₀.snapshot).frames.bindings i = c₀.frames.bindings i ↔
          c₀.Reaches i ∨ c₁.frames.bindings i = c₀.frames.bindings i) ∧
        c₀.Reaches 1 ∧ c₁.frames.bindings 1 ≠ c₀.frames.bindings 1 ∧
        ¬ c₀.Reaches 2 ∧ c₁.frames.bindings 2 ≠ c₀.frames.bindings 2 := by
  have hh : Prelude.host.Fits .inRange := Host.fits_of_asClosure? fun _ _ _ => Prelude.asClosure?_call
  have read : (Grammar.parse
      "let x = null; (y => z => y = z)(null)(amb(x = true, null));").toOption.any
      Node.callsForChoice = true := by decide +kernel
  obtain ⟨program, hp, read⟩ := Trial.exists_of_any read
  obtain ⟨first, second, answer, run, current, c', c₀, c, c₁, answered, begun, asked, left, stack, x,
    y⟩ := program.answers_callsForChoice read
  let d₀ : Dialogue :=
    { Dialogue.start ⟨.standard, false⟩ Prelude.host with solutions := .of program, begun := false }
  let d : Dialogue := d₀.answered answer ⟨some run⟩ c'
  have h₀ : Dialogue.Leads .inRange (.start ⟨.standard, false⟩ Prelude.host) d₀ :=
    .single (.run (Session.run_of_parse hp))
  have h : Dialogue.Leads .inRange d₀ d := .single (.ask answered)
  have begun : d₀.Asks (.stream (.amb [first, second]) c₀) :=
    ⟨_, rfl, Query.within_of_onTheWay (List.mem_of_find?_eq_some begun)⟩
  have asked : d.Asks (.stream (.choice c₀.snapshot current [second]) c) :=
    ⟨_, rfl, Query.within_of_onTheWay (List.mem_of_find?_eq_some asked)⟩
  have left : current.Gives c (.finished c₁) := ⟨10, left⟩
  have rule := (choice_rolls_back ⟨.standard, false⟩ Prelude.host hh h₀ h begun asked left).2
  -- Frames with the same table bind every name alike.
  have differ {c c' : Context} {i : FrameId} {name : String}
      (h : c.frames.binding? i name ≠ c'.frames.binding? i name) :
      c.frames.bindings i ≠ c'.frames.bindings i := fun same =>
    h (congrArg (Bindings.get? · name) same)
  simp only [List.map_cons, List.cons.injEq] at x y
  have told₁ : c₁.frames.bindings 1 ≠ c₀.frames.bindings 1 :=
    differ (by rw [x.1, x.2.1]; exact nofun)
  have told₂ : c₁.frames.bindings 2 ≠ c₀.frames.bindings 2 :=
    differ (by rw [y.1, y.2.1]; exact nofun)
  have kept₂ : (c₁.restore c₀.snapshot).frames.bindings 2 ≠ c₀.frames.bindings 2 :=
    differ (by rw [y.1, y.2.2.1]; exact nofun)
  have reached : c₀.Reaches 1 := ⟨1, by rw [stack]; simp, .refl⟩
  exact ⟨hh, d₀, d, first, second, current, c₀, c, c₁, h₀, h, begun, asked, left, rule, reached, told₁,
    fun h => kept₂ ((rule 2).mpr (.inl h)), told₂⟩

/-- A function that waits for its argument is reached by no frame, and so the second alternative
finds what the first one told it. -/
theorem later_alternative_sees_earlier :
    ∃ s', (Session.start ⟨.standard, true⟩ Prelude.host).take 200 2
      "let make = () => \x7b let seen = false;
         return x => \x7b let before = seen; seen = true; return before; \x7d; \x7d;
       make()(amb('a', 'b'));" = some (.ok [.bool false, .bool true], s') := by
  have run : (Trial.bools? ((Session.start ⟨.standard, true⟩ Prelude.host).take 200 2
      "let make = () => \x7b let seen = false;
         return x => \x7b let before = seen; seen = true; return before; \x7d; \x7d;
       make()(amb('a', 'b'));")).any (·.1 == [false, true]) = true := by decide +kernel
  obtain ⟨⟨bs, s'⟩, h, hbs⟩ := (Option.any_eq_true _ _).mp run
  obtain rfl : bs = [false, true] := eq_of_beq hbs
  have given := Trial.of_bools? h
  exact ⟨s', given⟩

end Nondet
