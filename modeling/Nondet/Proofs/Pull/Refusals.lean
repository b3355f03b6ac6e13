import Nondet.Proofs.Context.Action
import Nondet.Proofs.Pull.Contract

/-!
# Pull — Refusals

Where a failure comes from.  Only a few streams come to fail by themselves (`Stream.Refuses`): a node
that is one too many, a computation, statements that cannot be hoisted, a call that cannot be
entered.  All others hand on what they are answered.  So whatever fails has asked something on its
way that refuses (`Query.refused`).
-/

namespace Nondet

open Nondet.Action

variable {failure : Failure} {c c' : Context} {fuel : Nat} {σ α : Type}

/-- The stream itself fails, and nothing that it asks. -/
inductive Stream.Refuses (failure : Failure) : Stream → Context → Prop
  | nested {span inner c c'} (h : (enterNested span).on c = (.error failure, c')) :
      Refuses failure (.nested span inner) c
  | deferred {what c c'} (h : what.run.on c = (.error failure, c')) :
      Refuses failure (.deferred what) c
  | map {inner f c outcome rest c₁ c'} (hr : inner.Gives c (.yield outcome rest c₁))
      (h : (f.run outcome).on c₁ = (.error failure, c')) : Refuses failure (.map inner f) c
  | flatMap {outer next c outcome rest c₁ c'} (hr : outer.Gives c (.yield outcome rest c₁))
      (h : (next.run outcome).on c₁ = (.error failure, c')) : Refuses failure (.flatMap outer next) c
  | body {ss c c'} (h : (hoist ss).on c = (.error failure, c')) : Refuses failure (.body ss) c
  | call {span closure arguments this c c'}
      (h : (enterCall span closure arguments this).on c = (.error failure, c')) :
      Refuses failure (.call span closure arguments this) c

/-- An odometer itself fails at an argument that has no value. -/
inductive Odometer.Refuses (failure : Failure) : Odometer → Context → Prop
  | turning {current span later earlier values c outcome rest c₁ c'}
      (hr : current.Gives c (.yield outcome rest c₁))
      (h : (operand span "call argument" outcome).on c₁ = (.error failure, c')) :
      Refuses failure (.turning (.push current span later earlier) values) c

namespace Query

/-- What is asked itself fails, and nothing that it asks. -/
def Refuses (failure : Failure) : Query → Prop
  | .stream s c   => s.Refuses failure c
  | .odometer o c => o.Refuses failure c

/-- So much fuel leads to the failure. -/
def FailsIn (fuel : Nat) (failure : Failure) : Query → Prop
  | .stream s c   => ∃ c', s.ask fuel c = some (.failed failure c')
  | .odometer o c => ∃ c', o.ask fuel c = some (.failed failure c')

end Query

/-! ### One move -/

/-- So much fuel leads from the move to the failure. -/
def Move.FailsIn (fuel : Nat) (failure : Failure) (m : Move σ α) : Prop :=
  ∃ c', m.run (Stream.ask fuel) (Odometer.ask fuel) = some (.failed failure c')

/-- Something that the move asks leads to the failure. -/
def Move.AsksFailing (fuel : Nat) (failure : Failure) (m : Move σ α) : Prop :=
  ∃ q, m.Asks q ∧ q.FailsIn fuel failure

section

variable {s : Stream} {o : Odometer} {next : Reply Stream Outcome → Move σ α}
  {onward : Reply Odometer (List Value) → Move σ α}

namespace Move.AsksFailing

theorem first (h : s.ask fuel c = some (.failed failure c')) :
    (Move.stream s c next).AsksFailing fuel failure := ⟨_, .stream, c', h⟩

theorem firstOdometer (h : o.ask fuel c = some (.failed failure c')) :
    (Move.odometer o c onward).AsksFailing fuel failure := ⟨_, .odometer, c', h⟩

theorem after {r : Reply Stream Outcome} (hr : s.ask fuel c = some r)
    (h : (next r).AsksFailing fuel failure) : (Move.stream s c next).AsksFailing fuel failure :=
  have ⟨q, hq, hf⟩ := h
  ⟨q, .afterStream ⟨fuel, hr⟩ hq, hf⟩

theorem afterOdometer {r : Reply Odometer (List Value)} (hr : o.ask fuel c = some r)
    (h : (onward r).AsksFailing fuel failure) : (Move.odometer o c onward).AsksFailing fuel failure :=
  have ⟨q, hq, hf⟩ := h
  ⟨q, .afterOdometer ⟨fuel, hr⟩ hq, hf⟩

end Move.AsksFailing

namespace Move.FailsIn

/-- A move that hands failures on asks something that fails, or the failure comes after another
reply. -/
theorem replied (h : (Move.stream s c next).FailsIn fuel failure)
    (pass : ∀ f c₁, ∃ c₂, next (.failed f c₁) = .answer (.failed f c₂)) :
    (Move.stream s c next).AsksFailing fuel failure ∨
      (∃ outcome rest c₁, s.ask fuel c = some (.yield outcome rest c₁) ∧
        (next (.yield outcome rest c₁)).FailsIn fuel failure) ∨
      ∃ c₁, s.ask fuel c = some (.finished c₁) ∧ (next (.finished c₁)).FailsIn fuel failure := by
  obtain ⟨c', h⟩ := h
  obtain ⟨r, hr, h⟩ := Option.bind_eq_some_iff.mp h
  cases r with
  | yield outcome rest c₁ => exact .inr (.inl ⟨outcome, rest, c₁, hr, c', h⟩)
  | finished c₁ => exact .inr (.inr ⟨c₁, hr, c', h⟩)
  | failed f c₁ =>
      obtain ⟨c₂, e⟩ := pass f c₁
      rw [e] at h
      cases h
      exact .inl (.first hr)

/-- What is asked for its answer fails. -/
theorem asked (h : (Move.stream s c .answer).FailsIn fuel failure) :
    (Move.stream s c .answer).AsksFailing fuel failure := by
  obtain h | ⟨_, _, _, -, _, h⟩ | ⟨_, -, _, h⟩ := h.replied fun f c₁ => ⟨c₁, rfl⟩
  · exact h
  · cases h
  · cases h

theorem odometer_asked (h : (Move.odometer o c .answer).FailsIn fuel failure) :
    (Move.odometer o c .answer).AsksFailing fuel failure := by
  obtain ⟨c', h⟩ := h
  obtain ⟨r, hr, h⟩ := Option.bind_eq_some_iff.mp h
  cases h
  exact .firstOdometer hr

end Move.FailsIn

end

namespace Stream

variable {inner : Stream}

theorem asks_of_nested {span : Span} (h : ((Stream.nested span inner).move c).FailsIn fuel failure) :
    (Stream.nested span inner).Refuses failure c ∨
      ((Stream.nested span inner).move c).AsksFailing fuel failure := by
  simp only [move] at h ⊢
  rcases hx : (enterNested span).on c with ⟨f | _, c₁⟩ <;> simp only [hx] at h ⊢
  · obtain ⟨c', h⟩ := h
    cases h
    exact .inl (.nested hx)
  · obtain h | ⟨_, _, _, -, _, h⟩ | ⟨_, -, _, h⟩ := h.replied fun f c₁ => ⟨c₁.leaveNested, rfl⟩
    · exact .inr h
    · cases h
    · cases h

theorem asks_of_map {f : Transform} (h : ((Stream.map inner f).move c).FailsIn fuel failure) :
    (Stream.map inner f).Refuses failure c ∨
      ((Stream.map inner f).move c).AsksFailing fuel failure := by
  obtain h | ⟨outcome, rest, c₁, hr, c', h⟩ | ⟨_, -, _, h⟩ := h.replied fun f c₁ => ⟨c₁, rfl⟩
  · exact .inr h
  · rcases hx : (f.run outcome).on c₁ with ⟨f | x, c₂⟩ <;> simp only [Move.run, hx] at h <;> cases h
    exact .inl (.map ⟨fuel, hr⟩ hx)
  · cases h

theorem asks_of_flatMap {next : Continuation}
    (h : ((Stream.flatMap inner next).move c).FailsIn fuel failure) :
    (Stream.flatMap inner next).Refuses failure c ∨
      ((Stream.flatMap inner next).move c).AsksFailing fuel failure := by
  obtain h | ⟨outcome, rest, c₁, hr, h⟩ | ⟨_, -, _, h⟩ := h.replied fun f c₁ => ⟨c₁, rfl⟩
  · exact .inr h
  · obtain ⟨f, e⟩ | ⟨chosen, e, -⟩ := next.on_run_cases outcome c₁ <;> simp only [e] at h
    · obtain ⟨c', h⟩ := h
      cases h
      exact .inl (.flatMap ⟨fuel, hr⟩ e)
    · refine .inr (.after hr ?_)
      simp only [e]
      exact h.asked
  · cases h

theorem asks_of_choice {snapshot : Snapshot} {later : List Node}
    (h : ((Stream.choice snapshot inner later).move c).FailsIn fuel failure) :
    ((Stream.choice snapshot inner later).move c).AsksFailing fuel failure := by
  obtain h | ⟨_, _, _, -, _, h⟩ | ⟨c₁, hr, h⟩ := h.replied fun f c₁ => ⟨c₁, rfl⟩
  · exact h
  · cases h
  · cases later with
    | nil =>
        obtain ⟨_, h⟩ := h
        cases h
    | cons n later => exact .after hr h.asked

theorem asks_of_sequence {later : List Node} {earlier : OpenStatements}
    (h : ((Stream.sequence (.push inner later earlier)).move c).FailsIn fuel failure) :
    ((Stream.sequence (.push inner later earlier)).move c).AsksFailing fuel failure := by
  obtain h | ⟨outcome, rest, c₁, hr, h⟩ | ⟨c₁, hr, h⟩ := h.replied fun f c₁ => ⟨c₁, rfl⟩
  · exact h
  · cases outcome with
    | returned v =>
        obtain ⟨_, h⟩ := h
        cases h
    | value v | cut =>
        cases later with
        | nil =>
            obtain ⟨_, h⟩ := h
            cases h
        | cons n later => exact .after hr (Move.FailsIn.asked h)
  · exact .after hr h.asked

theorem asks_of_calls {span : Span} {callee : Value} {arguments : Odometer}
    (h : ((Stream.calls span callee arguments).move c).FailsIn fuel failure) :
    ((Stream.calls span callee arguments).move c).AsksFailing fuel failure := by
  obtain ⟨c', h⟩ := h
  obtain ⟨r, hr, h⟩ := Option.bind_eq_some_iff.mp h
  cases r with
  | yield values rest c₁ => exact .afterOdometer hr (Move.FailsIn.asked ⟨c', h⟩)
  | finished c₁ => cases h
  | failed f c₁ =>
      cases h
      exact .firstOdometer hr

/-- A stream that fails refuses, or it asks something that fails. -/
theorem refuses_or_asks {s : Stream} (h : (s.move c).FailsIn fuel failure) :
    s.Refuses failure c ∨ (s.move c).AsksFailing fuel failure := by
  cases s with
  | empty | once _ =>
      obtain ⟨_, h⟩ := h
      cases h
  | deferred what =>
      obtain ⟨c', h⟩ := h
      rcases hx : what.run.on c with ⟨f | outcome, c₁⟩ <;> simp only [move, Move.run, hx] at h <;> cases h
      exact .inl (.deferred hx)
  | node _ | block _ | program _ => exact .inr h.asked
  | nested span inner => exact asks_of_nested h
  | map inner f => exact asks_of_map h
  | flatMap outer next => exact asks_of_flatMap h
  | append first second =>
      obtain h | ⟨_, _, _, -, _, h⟩ | ⟨c₁, hr, h⟩ := h.replied fun f c₁ => ⟨c₁, rfl⟩
      · exact .inr h
      · cases h
      · exact .inr (.after hr h.asked)
  | calls span callee arguments => exact .inr (asks_of_calls h)
  | amb alternatives =>
      cases alternatives with
      | nil =>
          obtain ⟨_, h⟩ := h
          cases h
      | cons n later => exact .inr h.asked
  | choice snapshot current later => exact .inr (asks_of_choice h)
  | body ss =>
      simp only [move] at h ⊢
      rcases hx : (hoist ss).on c with ⟨f | _, c₁⟩ <;> simp only [hx] at h ⊢
      · obtain ⟨c', h⟩ := h
        cases h
        exact .inl (.body hx)
      · exact .inr h.asked
  | sequence begun =>
      cases begun with
      | none =>
          obtain ⟨_, h⟩ := h
          cases h
      | push current later earlier => exact .inr (asks_of_sequence h)
  | framed frame inner | activation frame inner =>
      obtain h | ⟨_, _, _, -, _, h⟩ | ⟨_, -, _, h⟩ := h.replied fun f c₁ => ⟨c₁, rfl⟩
      · exact .inr h
      · cases h
      · cases h
  | call span closure arguments this =>
      simp only [move] at h ⊢
      rcases hx : (enterCall span closure arguments this).on c with ⟨f | frame, c₁⟩ <;>
        simp only [hx] at h ⊢
      · obtain ⟨c', h⟩ := h
        cases h
        exact .inl (.call hx)
      · exact .inr h.asked

end Stream

/-- An odometer that fails refuses, or it asks something that fails. -/
theorem Odometer.refuses_or_asks {o : Odometer} (h : (o.move c).FailsIn fuel failure) :
    o.Refuses failure c ∨ (o.move c).AsksFailing fuel failure := by
  rcases o with (_ | ⟨n, later⟩) | ⟨_ | ⟨current, span, later, earlier⟩, values⟩
  · obtain ⟨_, h⟩ := h
    cases h
  · exact .inr h.odometer_asked
  · obtain ⟨_, h⟩ := h
    cases h
  · obtain h | ⟨outcome, rest, c₁, hr, h⟩ | ⟨c₁, hr, h⟩ := h.replied fun f c₁ => ⟨c₁, rfl⟩
    · exact .inr h
    · obtain ⟨f, e⟩ | e := on_operand_cases span "call argument" outcome c₁ <;> simp only [e] at h
      · obtain ⟨c', h⟩ := h
        cases h
        exact .inl (.turning ⟨fuel, hr⟩ e)
      · cases later with
        | nil =>
            obtain ⟨_, h⟩ := h
            cases h
        | cons n later =>
            refine .inr (.after hr ?_)
            simp only [e]
            exact h.odometer_asked
    · exact .inr (.after hr h.odometer_asked)

/-! ### On the way -/

/-- What fails has asked something that refuses, or it refuses itself. -/
theorem Query.refused : ∀ {n : Nat} {q : Query}, q.FailsIn n failure →
    ∃ q', q.Within q' ∧ q'.Refuses failure
  | 0, .stream _ _, h | 0, .odometer _ _, h => by
      obtain ⟨c', h⟩ := h
      simp at h
  | n + 1, .stream s c, h => by
      obtain ⟨c', h⟩ := h
      rw [Stream.ask_succ] at h
      rcases Stream.refuses_or_asks ⟨c', h⟩ with h | ⟨q, hasks, hq⟩
      · exact ⟨_, .refl, h⟩
      · obtain ⟨q', hw, hq'⟩ := refused hq
        exact ⟨q', .head hasks hw, hq'⟩
  | n + 1, .odometer o c, h => by
      obtain ⟨c', h⟩ := h
      rw [Odometer.ask_succ] at h
      rcases Odometer.refuses_or_asks ⟨c', h⟩ with h | ⟨q, hasks, hq⟩
      · exact ⟨_, .refl, h⟩
      · obtain ⟨q', hw, hq'⟩ := refused hq
        exact ⟨q', .head hasks hw, hq'⟩

/-- **Every failure was raised somewhere on the way.** -/
theorem Stream.Gives.refused {s : Stream} (h : s.Gives c (.failed failure c')) :
    ∃ q, (Query.stream s c).Within q ∧ q.Refuses failure := by
  obtain ⟨fuel, h⟩ := h
  exact Query.refused (n := fuel) ⟨c', h⟩

end Nondet
