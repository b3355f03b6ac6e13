import Mathlib.Data.List.Forall2
import Nondet.Proofs.Pull.Tracked

/-!
# Pull — Ends

Nothing is asked again after its last word.  Pulling with the ends kept says what pulling says, and
as long as there is another outcome nothing is spent in what is left (`pull_tracked`): each stream
has its own way to this, by not being there any more, by handing the end on, or by going on without
the stream that ended.  What did say its last is found spent in its place (`pull_again`).  Both
together, over any number of requests, are `streams_end_once`.
-/

namespace Nondet.Tracked

variable {σ τ α β : Type}

/-! ### Nothing is spent in what goes on -/

/-- What comes of a request with the ends kept is what comes of it without: the same is said, the
same context is left, and as long as there is more to come, nothing is spent in what is left. -/
inductive Step.Tracks (tracked : τ → σ) : Step σ α → Nondet.Step τ α → Prop
  | yield (item : α) (rest : τ) (c : Context) :
      Tracks tracked (.said (.yield item) (tracked rest) c) (.yield item rest c)
  | finished (left : σ) (c : Context) : Tracks tracked (.said .finished left c) (.finished c)
  | failed (failure : Failure) (left : σ) (c : Context) :
      Tracks tracked (.said (.failed failure) left c) (.failed failure c)
  | starved : Tracks tracked .starved .starved

/-- What comes of a request to a stream is tracked. -/
abbrev Step.TracksStream (step : Step Stream Outcome)
    (plain : Nondet.Step Nondet.Stream Outcome) : Prop :=
  step.Tracks Nondet.Stream.tracked plain

/-- What comes of a request to an odometer is tracked. -/
abbrev Step.TracksOdometer (step : Step Odometer (List Value))
    (plain : Nondet.Step Nondet.Odometer (List Value)) : Prop :=
  step.Tracks Nondet.Odometer.tracked plain

theorem Step.Tracks.ne_repeated {tracked : τ → σ} {step : Step σ α} {plain : Nondet.Step τ α}
    (h : step.Tracks tracked plain) : step ≠ .repeated := by
  cases h <;> simp

theorem Step.Tracks.rest?_eq {tracked : τ → σ} {step : Step σ α} {plain : Nondet.Step τ α}
    (h : step.Tracks tracked plain) : step.rest? = plain.rest?.map tracked := by
  cases h <;> rfl

/-- What comes of the requests of a tree is tracked, with so much fuel. -/
structure PullsTracked (fuel : Nat) : Prop where
  stream (s : Nondet.Stream) (c : Context) :
    (s.tracked.pull fuel c).TracksStream (s.pull fuel c)
  odometer (o : Nondet.Odometer) (c : Context) :
    (o.tracked.pull fuel c).TracksOdometer (o.pull fuel c)

/-- One layer of a stream. -/
theorem PullsTracked.stream_succ {fuel : Nat} (ih : PullsTracked fuel) (s : Nondet.Stream)
    (c : Context) : (s.tracked.pull (fuel + 1) c).TracksStream (s.pull (fuel + 1) c) := by
  cases s with
  | empty => exact .finished _ _
  | once outcome => exact .yield outcome Nondet.Stream.empty c
  | deferred what =>
      simp only [Nondet.Stream.tracked, Stream.pull, Nondet.Stream.pull]
      rcases what.run.on c with ⟨failure | outcome, c⟩
      · exact .failed _ _ _
      · exact .yield outcome Nondet.Stream.empty c
  | node n => exact ih.stream (.nested n.span (.build n)) c
  | nested span inner =>
      simp only [Nondet.Stream.tracked, Stream.pull, Nondet.Stream.pull]
      rcases (Action.enterNested span).on c with ⟨failure | _, c⟩ <;> dsimp only
      · exact .failed _ _ _
      · refine Step.Tracks.casesOn (ih.stream inner c) ?_ ?_ ?_ ?_
        · exact fun outcome inner _ => .yield outcome (Nondet.Stream.nested span inner) _
        -- With the stream inside, this one says its last too.
        all_goals intros; constructor
  | map inner f =>
      simp only [Nondet.Stream.tracked, Stream.pull, Nondet.Stream.pull]
      refine Step.Tracks.casesOn (ih.stream inner c) ?_ ?_ ?_ ?_
      · intro outcome inner c
        simp only [Step.andThen]
        rcases (f.run outcome).on c with ⟨failure | outcome, c⟩
        · exact .failed _ _ _
        · exact .yield outcome (Nondet.Stream.map inner f) c
      all_goals intros; constructor
  | flatMap outer next =>
      simp only [Nondet.Stream.tracked, Stream.pull, Nondet.Stream.pull]
      refine Step.Tracks.casesOn (ih.stream outer c) ?_ ?_ ?_ ?_
      · intro outcome outer c
        simp only [Step.andThen]
        rcases (next.run outcome).on c with ⟨failure | inner, c⟩
        · exact .failed _ _ _
        · exact ih.stream (.append inner (.flatMap outer next)) c
      all_goals intros; constructor
  | append first second =>
      simp only [Nondet.Stream.tracked, Stream.pull, Nondet.Stream.pull]
      refine Step.Tracks.casesOn (ih.stream first c) ?_ ?_ ?_ ?_
      · exact fun outcome first c => .yield outcome (Nondet.Stream.append first second) c
      -- The first stream has ended, and is not there any more.
      · exact fun _ c => ih.stream second c
      all_goals intros; constructor
  | calls span callee arguments =>
      simp only [Nondet.Stream.tracked, Stream.pull, Nondet.Stream.pull]
      refine Step.Tracks.casesOn (ih.odometer arguments c) ?_ ?_ ?_ ?_
      · exact fun values arguments c =>
          ih.stream (.append (apply callee values span none) (.calls span callee arguments)) c
      all_goals intros; constructor
  | amb alternatives =>
      rcases alternatives with _ | ⟨n, later⟩
      · exact .finished _ _
      · exact ih.stream (.choice c.snapshot (evaluate n) later) c
  | choice snapshot current later =>
      simp only [Nondet.Stream.tracked, Stream.pull, Nondet.Stream.pull]
      refine Step.Tracks.casesOn (ih.stream current c) ?_ ?_ ?_ ?_
      · exact fun outcome current c =>
          .yield outcome (Nondet.Stream.choice snapshot current later) c
      -- The alternative that has ended makes room for the next one.
      · intro _ c
        rcases later with _ | ⟨n, later⟩
        · exact .finished _ _
        · exact ih.stream (.choice snapshot (evaluate n) later) _
      all_goals intros; constructor
  | block statements =>
      exact ih.stream (.framed c.frames.next (.body statements))
        (c.addFrame (.child "block" c.current))
  | program statements => exact ih.stream (.body statements) c.enterProgram
  | body statements =>
      simp only [Nondet.Stream.tracked, Stream.pull, Nondet.Stream.pull]
      rcases (Action.hoist statements).on c with ⟨failure | _, c⟩
      · exact .failed _ _ _
      · exact ih.stream (.ofStatements statements) c
  | sequence begun =>
      rcases begun with _ | ⟨current, later, earlier⟩
      · exact .finished _ _
      simp only [Nondet.Stream.tracked, Nondet.OpenStatements.tracked, Stream.pull,
        Nondet.Stream.pull]
      refine Step.Tracks.casesOn (ih.stream current c) ?_ ?_ ?_ ?_
      · intro outcome current c
        rcases outcome with v | v | _
        · rcases later with _ | ⟨n, later⟩
          · exact .yield (Outcome.value v) (Nondet.Stream.sequence (.push current [] earlier)) c
          · exact ih.stream
              (.sequence (.push (evaluate n) later (.push current (n :: later) earlier))) c
        · exact .yield (Outcome.returned v) (Nondet.Stream.sequence (.push current later earlier)) c
        · rcases later with _ | ⟨n, later⟩
          · exact .yield Outcome.cut Nondet.Stream.empty c
          · exact ih.stream (.sequence (.push (evaluate n) later .none)) c
      -- The statement that has ended is begun anew when the one before has another outcome.
      · exact fun _ c => ih.stream (.sequence earlier) c
      all_goals intros; constructor
  | framed frame inner =>
      simp only [Nondet.Stream.tracked, Stream.pull, Nondet.Stream.pull]
      refine Step.Tracks.casesOn (ih.stream inner (c.push frame)) ?_ ?_ ?_ ?_
      · exact fun outcome inner _ => .yield outcome (Nondet.Stream.framed frame inner) _
      all_goals intros; constructor
  | call span closure arguments this =>
      simp only [Nondet.Stream.tracked, Stream.pull, Nondet.Stream.pull]
      rcases (Action.enterCall span closure arguments this).on c with ⟨failure | frame, c⟩
      · exact .failed _ _ _
      · exact ih.stream (.activation frame (.body closure.function.statements)) c
  | activation frame inner =>
      simp only [Nondet.Stream.tracked, Stream.pull, Nondet.Stream.pull]
      refine Step.Tracks.casesOn (ih.stream inner (c.push frame)) ?_ ?_ ?_ ?_
      · exact fun outcome inner _ => .yield outcome.ofBody (Nondet.Stream.activation frame inner) _
      all_goals intros; constructor

/-- One layer of an odometer. -/
theorem PullsTracked.odometer_succ {fuel : Nat} (ih : PullsTracked fuel) (o : Nondet.Odometer)
    (c : Context) : (o.tracked.pull (fuel + 1) c).TracksOdometer (o.pull (fuel + 1) c) := by
  rcases o with (_ | ⟨n, later⟩) | ⟨_ | ⟨current, span, later, earlier⟩, values⟩
  · exact .yield [] (Nondet.Odometer.turning .none []) c
  · exact ih.odometer (.turning (.push (evaluate n) n.span later .none) []) c
  · exact .finished _ _
  simp only [Nondet.Odometer.tracked, Nondet.OpenArguments.tracked, Odometer.pull,
    Nondet.Odometer.pull]
  refine Step.Tracks.casesOn (ih.stream current c) ?_ ?_ ?_ ?_
  · intro outcome current c
    simp only [Step.andThen]
    rcases (Action.operand span "call argument" outcome).on c with ⟨failure | v, c⟩
    · exact .failed _ _ _
    · rcases later with _ | ⟨n, next⟩
      · exact .yield (v :: values).reverse
          (Nondet.Odometer.turning (.push current span [] earlier) values) c
      · exact ih.odometer (.turning (.push (evaluate n) n.span next
          (.push current span (n :: next) earlier)) (v :: values)) c
  · exact fun _ c => ih.odometer (.turning earlier values.tail) c
  all_goals intros; constructor

/-- **Pulling with the ends kept is pulling.**  Where nothing is spent, nothing that is spent is
asked, and nothing is spent in what is left as long as there is more to come. -/
theorem pull_tracked : ∀ fuel, PullsTracked fuel
  | 0        => ⟨fun _ _ => .starved, fun _ _ => .starved⟩
  | fuel + 1 => ⟨(pull_tracked fuel).stream_succ, (pull_tracked fuel).odometer_succ⟩

/-! ### The last word is remembered -/

/-- What was asked is spent, if it has said its last. -/
def Step.Marks (spent : σ → σ) : Step σ α → Prop
  | .said what left _     => what.IsLast → ∃ was, left = spent was
  | .repeated | .starved => True

theorem Stream.tells_marks (what : Said Outcome) (left : Stream) (c : Context) :
    (Stream.tells what left c).Marks Stream.spent := by
  cases what with
  | yield outcome  => exact False.elim
  | finished       => exact fun _ => ⟨left, rfl⟩
  | failed failure => exact fun _ => ⟨left, rfl⟩

theorem Odometer.tells_marks (what : Said (List Value)) (left : Odometer) (c : Context) :
    (Odometer.tells what left c).Marks Odometer.spent := by
  cases what with
  | yield values   => exact False.elim
  | finished       => exact fun _ => ⟨left, rfl⟩
  | failed failure => exact fun _ => ⟨left, rfl⟩

theorem Step.andThen_marks {spent : τ → τ} (step : Step σ α)
    {next : Said α → σ → Context → Step τ β} (h : ∀ what left c, (next what left c).Marks spent) :
    (step.andThen next).Marks spent := by
  cases step with
  | said what left c => exact h what left c
  | repeated => trivial
  | starved => trivial

/-- What was asked is spent after its last word, with so much fuel. -/
structure PullsMark (fuel : Nat) : Prop where
  stream (s : Stream) (c : Context) : (s.pull fuel c).Marks .spent
  odometer (o : Odometer) (c : Context) : (o.pull fuel c).Marks .spent

theorem PullsMark.stream_succ {fuel : Nat} (ih : PullsMark fuel) (s : Stream) (c : Context) :
    (s.pull (fuel + 1) c).Marks .spent := by
  cases s with
  | spent was => trivial
  | empty => exact Stream.tells_marks ..
  | once outcome => exact Stream.tells_marks ..
  | deferred what =>
      simp only [Stream.pull]
      rcases what.run.on c with ⟨failure | outcome, c⟩ <;> exact Stream.tells_marks ..
  | node n => exact ih.stream _ _
  | nested span inner =>
      simp only [Stream.pull]
      rcases (Action.enterNested span).on c with ⟨failure | _, c⟩
      · exact Stream.tells_marks ..
      · exact Step.andThen_marks _ fun _ _ _ => Stream.tells_marks ..
  | map inner f =>
      refine Step.andThen_marks _ fun what inner c => ?_
      rcases what with outcome | _ | failure <;> dsimp only
      · rcases (f.run outcome).on c with ⟨failure | outcome, c⟩ <;> exact Stream.tells_marks ..
      all_goals exact Stream.tells_marks ..
  | flatMap outer next =>
      refine Step.andThen_marks _ fun what outer c => ?_
      rcases what with outcome | _ | failure <;> dsimp only
      · rcases (next.run outcome).on c with ⟨failure | inner, c⟩
        · exact Stream.tells_marks ..
        · exact ih.stream _ _
      all_goals exact Stream.tells_marks ..
  | append first second =>
      refine Step.andThen_marks _ fun what first c => ?_
      rcases what with outcome | _ | failure
      · exact Stream.tells_marks ..
      · exact ih.stream _ _
      · exact Stream.tells_marks ..
  | calls span callee arguments =>
      refine Step.andThen_marks _ fun what arguments c => ?_
      rcases what with values | _ | failure
      · exact ih.stream _ _
      all_goals exact Stream.tells_marks ..
  | amb alternatives =>
      rcases alternatives with _ | ⟨n, later⟩
      · exact Stream.tells_marks ..
      · exact ih.stream _ _
  | choice snapshot current later =>
      refine Step.andThen_marks _ fun what current c => ?_
      rcases what with outcome | _ | failure
      · exact Stream.tells_marks ..
      · rcases later with _ | ⟨n, later⟩
        · exact Stream.tells_marks ..
        · exact ih.stream _ _
      · exact Stream.tells_marks ..
  | block statements => exact ih.stream _ _
  | program statements => exact ih.stream _ _
  | body statements =>
      simp only [Stream.pull]
      rcases (Action.hoist statements).on c with ⟨failure | _, c⟩
      · exact Stream.tells_marks ..
      · exact ih.stream _ _
  | sequence begun =>
      rcases begun with _ | ⟨current, later, earlier⟩
      · exact Stream.tells_marks ..
      refine Step.andThen_marks _ fun what current c => ?_
      rcases what with (v | v | _) | _ | failure
      · rcases later with _ | ⟨n, later⟩
        · exact Stream.tells_marks ..
        · exact ih.stream _ _
      · exact Stream.tells_marks ..
      · rcases later with _ | ⟨n, later⟩
        · exact Stream.tells_marks ..
        · exact ih.stream _ _
      · exact ih.stream _ _
      · exact Stream.tells_marks ..
  | framed frame inner =>
      refine Step.andThen_marks _ fun what inner c => ?_
      rcases what with outcome | _ | failure <;> exact Stream.tells_marks ..
  | call span closure arguments this =>
      simp only [Stream.pull]
      rcases (Action.enterCall span closure arguments this).on c with ⟨failure | frame, c⟩
      · exact Stream.tells_marks ..
      · exact ih.stream _ _
  | activation frame inner =>
      refine Step.andThen_marks _ fun what inner c => ?_
      rcases what with outcome | _ | failure <;> exact Stream.tells_marks ..

theorem PullsMark.odometer_succ {fuel : Nat} (ih : PullsMark fuel) (o : Odometer) (c : Context) :
    (o.pull (fuel + 1) c).Marks .spent := by
  rcases o with was | (_ | ⟨n, later⟩) | ⟨_ | ⟨current, span, later, earlier⟩, values⟩
  · trivial
  · exact Odometer.tells_marks ..
  · exact ih.odometer _ _
  · exact Odometer.tells_marks ..
  refine Step.andThen_marks _ fun what current c => ?_
  rcases what with outcome | _ | failure <;> dsimp only
  · rcases (Action.operand span "call argument" outcome).on c with ⟨failure | v, c⟩
    · exact Odometer.tells_marks ..
    · rcases later with _ | ⟨n, next⟩
      · exact Odometer.tells_marks ..
      · exact ih.odometer _ _
  · exact ih.odometer _ _
  · exact Odometer.tells_marks ..

theorem pull_marks : ∀ fuel, PullsMark fuel
  | 0        => ⟨fun _ _ => trivial, fun _ _ => trivial⟩
  | fuel + 1 => ⟨(pull_marks fuel).stream_succ, (pull_marks fuel).odometer_succ⟩

/-- **Whatever said its last is found out.**  Wherever a stream or an odometer stands, asking it
once more after its last word is answered `repeated`. -/
theorem pull_again {fuel : Nat} {c : Context} :
    (∀ (s : Stream) what left c', s.pull fuel c = .said what left c' → what.IsLast →
      ∀ fuel c, left.pull (fuel + 1) c = .repeated) ∧
    ∀ (o : Odometer) what left c', o.pull fuel c = .said what left c' → what.IsLast →
      ∀ fuel c, left.pull (fuel + 1) c = .repeated := by
  constructor
  · intro s what left c' h hl fuel' c''
    have hm := (pull_marks fuel).stream s c
    rw [h] at hm
    obtain ⟨was, rfl⟩ := hm hl
    rfl
  · intro o what left c' h hl fuel' c''
    have hm := (pull_marks fuel).odometer o c
    rw [h] at hm
    obtain ⟨was, rfl⟩ := hm hl
    rfl

/-- Nor can a stream hide that it went on to what was spent. -/
example (c : Context) : (Stream.append (.spent .empty) .empty).pull 2 c = .repeated := rfl

/-! ### Every driver -/

theorem drive_tracked (requests : List Request) : ∀ s : Nondet.Stream,
    List.Forall₂ Step.TracksStream (s.tracked.drive requests) (s.drive requests) := by
  induction requests with
  | nil => exact fun _ => .nil
  | cons r later ih =>
      intro s
      have h := (pull_tracked r.fuel).stream s r.context
      simp only [Stream.drive, Nondet.Stream.drive, h.rest?_eq]
      refine .cons h ?_
      cases (s.pull r.fuel r.context).rest? with
      | none => exact .nil
      | some rest => exact ih rest

/-- **A stream is not asked again after its last word.**  Take any stream, such as `evaluate n` for
a node `n`, and ask it for one outcome after the other, each time in whatever context, but no more
after it has ended or failed.  Then no stream and no odometer at any place below it is asked after
it has ended or failed, whether the requests are answered or run out of fuel; what keeps the ends
says what the stream itself says, and it would have told. -/
theorem streams_end_once (s : Nondet.Stream) (requests : List Request) :
    (∀ step ∈ s.tracked.drive requests, step ≠ .repeated) ∧
      List.Forall₂ Step.TracksStream (s.tracked.drive requests) (s.drive requests) ∧
      (∀ (t : Stream) fuel c what left c', t.pull fuel c = .said what left c' → what.IsLast →
        ∀ fuel c, left.pull (fuel + 1) c = .repeated) ∧
      ∀ (o : Odometer) fuel c what left c', o.pull fuel c = .said what left c' → what.IsLast →
        ∀ fuel c, left.pull (fuel + 1) c = .repeated := by
  have h := drive_tracked requests s
  have hn := (List.forall₂_and_left ..).mp (h.imp fun _ _ ht => ⟨ht.ne_repeated, ht⟩)
  exact ⟨hn.1, h, fun t fuel c => pull_again.1 t, fun o fuel c => pull_again.2 o⟩

end Nondet.Tracked
