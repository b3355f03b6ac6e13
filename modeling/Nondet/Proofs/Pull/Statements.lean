import Nondet.Proofs.Pull.Course
import Nondet.Proofs.Pull.Program

/-!
# Pull — Statements

Statements in order, and the cut.  What a list of statements gives is defined by one recursion
(`Statements.Go`): the statements behind a statement are done once for each of its outcomes, a
`return` leaves them out, and a cut lets them finish and stops the list.  A sequence goes through the
same outcomes in the same contexts (`Stream.go_of_courseIn`, `Stream.course_of_go`).  Its rounds
(`OpenStatements.Turn`) say which statement is asked next; a cut leaves none open up to the one that
gave it.
-/

namespace Nondet

variable {c c' : Context} {later : List Node}

/-! ### The definition -/

/-- The same stop behind a cut: when what is behind it is through, the cut stops the rest. -/
def Stop.cutOff : Stop → Stop
  | .through c => .cut c
  | stop       => stop

theorem Stop.cutOff_ne (stop : Stop) (m : Context) : stop.cutOff ≠ .through m := by
  cases stop <;> exact nofun

theorem Stop.closes_cutOff {stop : Stop} {close : Close} :
    stop.cutOff.Closes close ↔ stop.Closes close := by
  cases stop <;> rfl

/-- What an outcome of a statement stands for, when `rest` is done behind it. -/
def Statements.Then (rest : Outcome → Context → List (Given Outcome) → Stop → Prop) (outcome : Outcome)
    (c : Context) (items : List (Given Outcome)) (stop : Stop) : Prop :=
  match outcome with
  | .returned v => Emits (.returned v) c items stop
  | .value v    => rest (.value v) c items stop
  | .cut        => ∃ behind, rest .cut c items behind ∧ stop = behind.cutOff

/-- These statements, behind one that gave `outcome`: that is the outcome of no statements at all. -/
def Statements.Go : List Node → Outcome → Context → List (Given Outcome) → Stop → Prop
  | [], outcome => Emits outcome
  | n :: later, _ => Each (Then fun outcome => Go later outcome) (evaluate n)

namespace Stream

open Statements

theorem gives_sequence_none {r : Reply Stream Outcome} :
    (Stream.sequence .none).Gives c r ↔ r = .finished c :=
  gives_iff

theorem gives_empty {r : Reply Stream Outcome} : Stream.empty.Gives c r ↔ r = .finished c :=
  gives_iff

/-- Where a sequence is at one of its statements, it goes on as that statement and those behind it are
defined to, and then with the statement before it, unless a cut has stopped them all. -/
theorem go_of_courseIn : ∀ {fuel : Nat} {s : Stream} {later : List Node} {earlier : OpenStatements}
    {c : Context} {items : List (Given Outcome)} {close : Close},
    CourseIn Stream.ask fuel (.sequence (.push s later earlier)) c items close →
      ∃ own others stop, items = own ++ others ∧ Each (Then (Go later)) s c own stop ∧
        stop.Leads (fun c others close =>
          ∃ less < fuel, CourseIn Stream.ask less (.sequence earlier) c others close) others close := by
  intro fuel
  induction fuel using Nat.strongRecOn with | ind fuel ih
  intro s later earlier c items close h
  rcases h.first Stream.ask_zero with ⟨rfl, rfl⟩ | ⟨k, others, r, hfuel, hr, goes⟩
  · exact ⟨[], [], .left, rfl, .left, rfl, rfl⟩
  rw [ask_succ] at hr
  obtain ⟨reply, hreply, hr⟩ := Option.bind_eq_some_iff.mp hr
  have gives : s.Gives c reply := ⟨k, hreply⟩
  -- The outcome itself, and then the same statement again.
  have again {outcome : Outcome} {rest : Stream} {c₁ : Context}
      (gives : s.Gives c (.yield outcome rest c₁))
      (goes : (Reply.yield outcome (.sequence (.push rest later earlier)) c₁).Goes Stream.ask others
        items close)
      (hb : ∀ c₂, Then (Go later) outcome c₁ [⟨outcome, c₁, c₂⟩] (.through c₂)) :
      ∃ own others stop, items = own ++ others ∧ Each (Then (Go later)) s c own stop ∧
        stop.Leads (fun c others close =>
          ∃ less < fuel, CourseIn Stream.ask less (.sequence earlier) c others close)
          others close := by
    obtain ⟨c₂, items', rfl, t⟩ := goes
    obtain ⟨own, others, stop, rfl, each, leads⟩ := ih others (by omega) t
    refine ⟨_, others, stop, rfl, .next gives (hb c₂) each, leads.imp ?_⟩
    rintro m ⟨less, hless, t⟩
    exact ⟨less, by omega, t⟩
  cases reply with
  | failed failure c₁ =>
      cases hr
      obtain ⟨rfl, rfl⟩ := goes
      exact ⟨[], [], .failed failure c₁, rfl, .failed gives, rfl, rfl⟩
  | finished m =>
      obtain ⟨_, hr', e⟩ := Option.bind_eq_some_iff.mp hr
      cases e
      exact ⟨[], items, .through m, rfl, .finished gives, k + others, hfuel, goes.courseIn hr'⟩
  | yield outcome rest c₁ =>
      cases outcome with
      | returned v =>
          cases hr
          exact again gives goes .once
      | value v =>
          cases later with
          | nil =>
              cases hr
              exact again gives goes .once
          | cons n next =>
              obtain ⟨_, hr', e⟩ := Option.bind_eq_some_iff.mp hr
              cases e
              obtain ⟨own, others, stop, rfl, each, leads⟩ := ih _ hfuel (goes.courseIn hr')
              cases stop with
              | through m =>
                  obtain ⟨less, hless, t⟩ := leads
                  obtain ⟨own', others, stop, rfl, each', leads⟩ := ih less (by omega) t
                  refine ⟨own ++ own', others, stop, (List.append_assoc ..).symm,
                    .next gives each each', leads.imp ?_⟩
                  rintro m ⟨less', hless', t⟩
                  exact ⟨less', by omega, t⟩
              | cut _ | failed _ _ | left =>
                  exact ⟨own, others, _, rfl, .stop gives each nofun, leads⟩
      | cut =>
          cases later with
          | nil =>
              cases hr
              obtain ⟨c₂, items', rfl, t⟩ := goes
              obtain ⟨rfl, closes⟩ := t.course.of_finished fun _ => gives_empty.mp
              exact ⟨_, [], .cut c₂, rfl, .stop gives ⟨_, .once c₂, rfl⟩ nofun, rfl, closes⟩
          | cons n next =>
              obtain ⟨_, hr', e⟩ := Option.bind_eq_some_iff.mp hr
              cases e
              obtain ⟨own, others, stop, rfl, each, leads⟩ := ih _ hfuel (goes.courseIn hr')
              have ended :=
                (leads.imp fun _ ⟨_, _, t⟩ => t.course.of_finished fun _ => gives_sequence_none.mp).closes
              obtain ⟨rfl, closes⟩ := ended
              exact ⟨own, [], stop.cutOff, rfl, .stop gives ⟨stop, each, rfl⟩ stop.cutOff_ne,
                (Stop.closes_cutOff.mpr closes).stopped stop.cutOff_ne⟩

/-- What a statement and those behind it are defined to give is a course of the sequence that is at
that statement, with whatever follows when the statement before it goes on. -/
theorem course_of_go {s : Stream} {earlier : OpenStatements} {c : Context}
    {own others : List (Given Outcome)} {stop : Stop} {close : Close} :
    ∀ {later : List Node}, Each (Then (Go later)) s c own stop →
      stop.Leads (Stream.Course (.sequence earlier)) others close →
        Stream.Course (.sequence (.push s later earlier)) c (own ++ others) close
  | later, h, leads => by
      induction h with
      | left =>
          obtain ⟨rfl, rfl⟩ := leads
          exact .left
      | finished h =>
          exact .of_gives (fun r hr => gives_iff.mpr ⟨_, h, Move.leads_asked.mpr hr⟩) leads
      | failed h =>
          obtain ⟨rfl, rfl⟩ := leads
          exact .failed (gives_iff.mpr ⟨_, h, rfl⟩)
      | @next s rest c c₁ c₂ outcome own items stop h hb t ih =>
          have t := ih leads
          rw [List.append_assoc]
          cases outcome with
          | returned v =>
              cases hb with
              | once => exact .yield (gives_iff.mpr ⟨_, h, rfl⟩) t
          | value v =>
              cases later with
              | nil =>
                  cases hb with
                  | once => exact .yield (gives_iff.mpr ⟨_, h, rfl⟩) t
              | cons n next =>
                  have inside : Stream.Course (.sequence (.push (evaluate n) next
                      (.push rest (n :: next) earlier))) c₁ _ close :=
                    course_of_go hb t
                  exact .of_gives (fun r hr => gives_iff.mpr ⟨_, h, Move.leads_asked.mpr hr⟩) inside
          | cut =>
              obtain ⟨behind, -, e⟩ := hb
              exact absurd e.symm (behind.cutOff_ne _)
      | @stop s rest c c₁ outcome own stop h hb hs =>
          cases outcome with
          | returned v =>
              cases hb with
              | left =>
                  obtain ⟨rfl, rfl⟩ := leads
                  exact .left
              | once => exact absurd rfl (hs _)
          | value v =>
              cases later with
              | nil =>
                  cases hb with
                  | left =>
                      obtain ⟨rfl, rfl⟩ := leads
                      exact .left
                  | once => exact absurd rfl (hs _)
              | cons n next =>
                  have inside : Stream.Course (.sequence (.push (evaluate n) next
                      (.push rest (n :: next) earlier))) c₁ _ close :=
                    course_of_go hb (leads.stopped hs)
                  exact .of_gives (fun r hr => gives_iff.mpr ⟨_, h, Move.leads_asked.mpr hr⟩) inside
          | cut =>
              obtain ⟨behind, hb, rfl⟩ := hb
              obtain ⟨rfl, closes⟩ := leads.ended hs
              rw [Stop.closes_cutOff] at closes
              cases later with
              | nil =>
                  cases hb with
                  | left =>
                      cases closes
                      exact .left
                  | once c₂ =>
                      exact .yield (gives_iff.mpr ⟨_, h, rfl⟩)
                        (closes.leads fun _ => gives_empty.mpr rfl)
              | cons n next =>
                  have inside : Stream.Course (.sequence (.push (evaluate n) next .none)) c₁ _ close :=
                    course_of_go hb (closes.leads fun _ => gives_sequence_none.mpr rfl)
                  exact .of_gives (fun r hr => gives_iff.mpr ⟨_, h, Move.leads_asked.mpr hr⟩) inside

/-- The courses of some statements are what they are defined to give. -/
theorem course_iff_go {ss : List Node} {items : List (Given Outcome)} {close : Close} :
    (Stream.ofStatements ss).Course c items close ↔
      ∃ stop, Go ss (.value .undefined) c items stop ∧ stop.Closes close := by
  cases ss with
  | nil => exact Emits.course_iff (fun _ => gives_iff) fun _ _ => gives_empty
  | cons n later =>
      constructor
      · intro h
        obtain ⟨fuel, h⟩ := h.exists_fuel
        obtain ⟨own, others, stop, rfl, go, leads⟩ := go_of_courseIn h
        have closes :=
          (leads.imp fun _ ⟨_, _, t⟩ => t.course.of_finished fun _ => gives_sequence_none.mp).closes
        rw [closes.1, List.append_nil]
        exact ⟨stop, go, closes.2⟩
      · rintro ⟨stop, go, closes⟩
        have t : Stream.Course (.sequence (.push (evaluate n) later .none)) c _ close :=
          course_of_go go (closes.leads fun _ => gives_sequence_none.mpr rfl)
        rw [List.append_nil] at t
        exact t

end Stream

/-! ### Turns -/

namespace OpenStatements

/-- From one turn of a sequence to the next: it goes on with a statement, or it has given an outcome and
is asked again, in whatever context. -/
inductive Turn : OpenStatements × Context → OpenStatements × Context → Prop
  | onward {o c o' c'} (h : ((Stream.sequence o).move c).Comes (.stream (.sequence o') c' .answer)) :
      Turn (o, c) (o', c')
  | resumed {o c outcome o' c'}
      (h : ((Stream.sequence o).move c).Comes (.answer (.yield outcome (.sequence o') c')))
      (c'' : Context) : Turn (o, c) (o', c'')

/-- The turns that come after a turn. -/
def Turns : OpenStatements × Context → OpenStatements × Context → Prop := Relation.ReflTransGen Turn

/-- Only statements from this index on are open, each with the statements behind it. -/
def From (ss : List Node) (index : Nat) : OpenStatements → Prop
  | .none                  => True
  | .push s later earlier =>
    (∃ i n, index ≤ i ∧ ss[i]? = some n ∧ later = ss.drop (i + 1) ∧ (evaluate n).Remains s) ∧
      earlier.From ss index

/-- All of `below` is open, and one statement behind it may be. -/
def On (below o : OpenStatements) : Prop :=
  o = below ∨ ∃ s later, o = .push s later below

variable {s : Stream} {earlier : OpenStatements}

/-- What one turn does.  A statement without more outcomes leaves those before it; one that gave an
outcome stays open under the first of those behind it, unless the outcome is a cut, which leaves only
that one open. -/
theorem Turn.cases_push {p : OpenStatements × Context} (h : Turn (.push s later earlier, c) p) :
    (∃ c₁, s.Gives c (.finished c₁) ∧ p = (earlier, c₁)) ∨
      (∃ outcome rest c₁, s.Gives c (.yield outcome rest c₁) ∧ outcome ≠ .cut ∧
        (p.1 = .push rest later earlier ∨ p.1 = .begin later (.push rest later earlier))) ∨
      ∃ rest c₁, s.Gives c (.yield .cut rest c₁) ∧ later ≠ [] ∧ p = (.begin later .none, c₁) := by
  cases h with
  | @onward _ _ o' c' h =>
      generalize hm : Move.stream (.sequence o') c' .answer = m at h
      cases h with
      | here =>
          -- The statement is asked first, and its reply is not the answer yet.
          have e := congrFun (Move.stream.inj hm).2.2 (.finished c)
          cases e
      | @replied _ _ _ r gives =>
          rcases r with ⟨outcome, rest, c₁⟩ | c₁ | ⟨failure, c₁⟩
          · rcases outcome with v | v | _ <;> rcases later with _ | ⟨n, next⟩ <;> cases hm
            · exact .inr (.inl ⟨_, rest, _, gives, nofun, .inr rfl⟩)
            · exact .inr (.inr ⟨rest, _, gives, nofun, rfl⟩)
          · cases hm
            exact .inl ⟨_, gives, rfl⟩
          · cases hm
  | @resumed _ _ outcome o' c' h c'' =>
      generalize hm : (Move.answer (.yield outcome (.sequence o') c') : Move Stream Outcome) = m at h
      cases h with
      | here => cases hm
      | @replied _ _ _ r gives =>
          rcases r with ⟨outcome, rest, c₁⟩ | c₁ | ⟨failure, c₁⟩
          · rcases outcome with v | v | _ <;> rcases later with _ | ⟨n, next⟩ <;> cases hm <;>
              exact .inr (.inl ⟨_, rest, _, gives, nofun, .inl rfl⟩)
          · cases hm
          · cases hm

/-- Without open statements there is no turn. -/
theorem Turn.not_none {p : OpenStatements × Context} : ¬ Turn (.none, c) p := by
  intro h
  cases h with
  | onward h => cases h
  | resumed h => cases h

/-- The first of the statements behind some index. -/
theorem From.begin {ss : List Node} {index i : Nat} (hi : index ≤ i) (h : earlier.From ss index) :
    (OpenStatements.begin (ss.drop i) earlier).From ss index := by
  cases hd : ss.drop i with
  | nil => exact h
  | cons n next =>
      have hn : ss[i]? = some n := by
        rw [← Nat.add_zero i, ← List.getElem?_drop, hd]
        rfl
      have hl : next = ss.drop (i + 1) := by
        rw [← List.tail_drop, hd]
        rfl
      exact ⟨⟨i, n, hi, hn, hl, .refl⟩, h⟩

/-- A sequence never goes back behind an index that it has passed. -/
theorem From.turn {ss : List Node} {index : Nat} {p q : OpenStatements × Context}
    (h : p.1.From ss index) (ht : Turn p q) : q.1.From ss index := by
  obtain ⟨_ | ⟨s, later, earlier⟩, c⟩ := p
  · exact absurd ht Turn.not_none
  obtain ⟨⟨i, n, hi, hn, rfl, hr⟩, he⟩ := h
  rcases ht.cases_push with ⟨c₁, -, rfl⟩ | ⟨outcome, rest, c₁, gives, -, e⟩ | ⟨rest, c₁, -, -, rfl⟩
  · exact he
  · have below : (push rest (ss.drop (i + 1)) earlier).From ss index :=
      ⟨⟨i, n, hi, hn, rfl, hr.next gives⟩, he⟩
    rcases e with e | e <;> rw [e]
    · exact below
    · exact below.begin (Nat.le_succ_of_le hi)
  · exact From.begin (Nat.le_succ_of_le hi) trivial

theorem From.turns {ss : List Node} {index : Nat} {p q : OpenStatements × Context}
    (h : p.1.From ss index) (ht : Turns p q) : q.1.From ss index := by
  induction ht with
  | refl => exact h
  | tail _ ht ih => exact ih.turn ht

/-- A cut leaves nothing open up to the statement that gave it. -/
theorem From.cut {ss : List Node} {i : Nat} {s rest : Stream} {c₁ : Context}
    {p : OpenStatements × Context} (gives : s.Gives c (.yield .cut rest c₁))
    (ht : Relation.TransGen Turn (.push s (ss.drop (i + 1)) earlier, c) p) :
    p.1.From ss (i + 1) := by
  obtain ⟨q, first, others⟩ := Relation.TransGen.head'_iff.mp ht
  have hq : q.1.From ss (i + 1) := by
    rcases first.cases_push with ⟨_, gives', -⟩ | ⟨_, _, _, gives', hc, -⟩ | ⟨_, _, -, -, rfl⟩
    · cases gives.unique gives'
    · cases gives.unique gives'
      exact absurd rfl hc
    · exact From.begin (Nat.le_refl _) trivial
  exact hq.turns others

/-- What gave an outcome stays open, and everything before it, unless the outcome is a cut. -/
theorem turn_on_iff {outcome : Outcome} {rest : Stream} {c₁ : Context}
    (gives : s.Gives c (.yield outcome rest c₁)) :
    (∃ p, Turn (.push s later earlier, c) p ∧ (push rest later earlier).On p.1) ↔
      outcome ≠ .cut := by
  constructor
  · rintro ⟨p, ht, on⟩ rfl
    rcases ht.cases_push with ⟨_, gives', -⟩ | ⟨_, _, _, gives', hc, -⟩ | ⟨_, _, -, hl, rfl⟩
    · cases gives.unique gives'
    · cases gives.unique gives'
      exact hc rfl
    · obtain ⟨n, next, rfl⟩ := List.exists_cons_of_ne_nil hl
      rcases on with e | ⟨_, _, e⟩
      · exact List.cons_ne_self n next (push.inj e).2.1.symm
      · cases e
  · intro hc
    cases outcome with
    | returned v =>
        have answer : ((Stream.sequence (push s later earlier)).move c).Comes
            (.answer (.yield (.returned v) (.sequence (push rest later earlier)) c₁)) :=
          .replied gives
        exact ⟨_, .resumed answer c₁, .inl rfl⟩
    | value v =>
        cases later with
        | nil =>
            have answer : ((Stream.sequence (push s [] earlier)).move c).Comes
                (.answer (.yield (.value v) (.sequence (push rest [] earlier)) c₁)) :=
              .replied gives
            exact ⟨_, .resumed answer c₁, .inl rfl⟩
        | cons n next => exact ⟨_, .onward (.replied gives), .inr ⟨_, _, rfl⟩⟩
    | cut => exact absurd rfl hc

/-- After a cut a sequence goes the course of the statements behind it. -/
theorem course_after_cut {rest : Stream} {c₁ : Context} {items : List (Given Outcome)} {close : Close}
    (gives : s.Gives c (.yield .cut rest c₁)) (hl : later ≠ []) :
    (Stream.sequence (.push s later earlier)).Course c items close ↔
      (Stream.ofStatements later).Course c₁ items close := by
  obtain ⟨n, next, rfl⟩ := List.exists_cons_of_ne_nil hl
  have same (r : Reply Stream Outcome) : (Stream.sequence (.push s (n :: next) earlier)).Gives c r ↔
      (Stream.ofStatements (n :: next)).Gives c₁ r := by
    rw [Stream.gives_iff]
    constructor
    · rintro ⟨r', gives', leads⟩
      cases gives.unique gives'
      exact Move.leads_asked.mp leads
    · intro h
      exact ⟨_, gives, Move.leads_asked.mpr h⟩
  exact ⟨fun h => h.of_gives fun r => (same r).mp, fun h => h.of_gives fun r => (same r).mpr⟩

/-- A block passes the outcomes of its statements on as they are. -/
theorem gives_block (h : c.nesting < c.limits.maxNesting) {frame : FrameId} {inner rest : Stream}
    {outcome : Outcome} {c₁ : Context} (span : Span)
    (gives : inner.Gives (c.enterNested.push frame) (.yield outcome rest c₁)) :
    (Stream.nested span (.framed frame inner)).Gives c
      (.yield outcome (.nested span (.framed frame rest)) c₁.pop.leaveNested) := by
  have framed : (Stream.framed frame inner).Gives c.enterNested
      (.yield outcome (.framed frame rest) c₁.pop) :=
    Stream.gives_iff.mpr ⟨_, gives, rfl⟩
  exact (Stream.gives_nested h).mpr ⟨_, framed, rfl⟩

end OpenStatements

/-! ### The sequence and its definition -/

/-- **Statements in order do what they are defined to do, and a cut prunes what it should.**  Asked
again and again, in whatever contexts its consumer leaves between the requests, a list of statements
gives what its definition says, with the same contexts before and behind each outcome, and it ends as
the definition does.

Whenever a statement of the list is asked it is what is left of the statement at some index, with the
statements behind it still to come.  After an outcome that is no cut it stays open, and so do those
before it.  After a cut no statement up to that index is ever asked again, and the list goes the course
of the statements behind it, all of their outcomes included.

A list in a block stops the list around it exactly when the outcome that it passes up is a cut: after
any other, what is left of the block is still open. -/
theorem statements_follow_definition (ss : List Node) (c : Context) :
    (∀ items close, (Stream.ofStatements ss).Course c items close ↔
      ∃ stop, Statements.Go ss (.value .undefined) c items stop ∧ stop.Closes close) ∧
    (∀ s later earlier c₀,
      OpenStatements.Turns (.begin ss .none, c) (.push s later earlier, c₀) → ∃ i n,
        ss[i]? = some n ∧ later = ss.drop (i + 1) ∧ (evaluate n).Remains s ∧
        ∀ outcome rest c₁, s.Gives c₀ (.yield outcome rest c₁) →
          ((∃ p, OpenStatements.Turn (.push s later earlier, c₀) p ∧
            (OpenStatements.push rest later earlier).On p.1) ↔ outcome ≠ .cut) ∧
          (outcome = .cut →
            (∀ p, Relation.TransGen OpenStatements.Turn (.push s later earlier, c₀) p →
              p.1.From ss (i + 1)) ∧
            (later ≠ [] → ∀ items close,
              (Stream.sequence (.push s later earlier)).Course c₀ items close ↔
                (Stream.ofStatements later).Course c₁ items close))) ∧
    ∀ span frame inner later earlier c₀ outcome rest c₁, c₀.nesting < c₀.limits.maxNesting →
      (Stream.sequence inner).Gives (c₀.enterNested.push frame) (.yield outcome rest c₁) →
        ((∃ p, OpenStatements.Turn
            (.push (.nested span (.framed frame (.sequence inner))) later earlier, c₀) p ∧
          (OpenStatements.push (.nested span (.framed frame rest)) later earlier).On p.1) ↔
            outcome ≠ .cut) := by
  refine ⟨fun items close => Stream.course_iff_go, fun s later earlier c₀ h => ?_, ?_⟩
  · have start : (OpenStatements.begin ss .none).From ss 0 :=
      OpenStatements.From.begin (i := 0) (Nat.le_refl 0) trivial
    obtain ⟨⟨i, n, -, hn, rfl, hr⟩, -⟩ := start.turns h
    refine ⟨i, n, hn, rfl, hr, fun outcome rest c₁ gives => ⟨OpenStatements.turn_on_iff gives, ?_⟩⟩
    rintro rfl
    exact ⟨fun p hp => .cut gives hp, fun hl items close => OpenStatements.course_after_cut gives hl⟩
  · intro span frame inner later earlier c₀ outcome rest c₁ hn gives
    exact OpenStatements.turn_on_iff (OpenStatements.gives_block hn span gives)

end Nondet
