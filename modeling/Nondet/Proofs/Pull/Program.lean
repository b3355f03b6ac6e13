import Nondet.Proofs.Pull.Contract

/-!
# Pull — Program

The first request for a script.  A script is one node, its statements the body of a frame of its
own; while the nesting allows it, asking the script is asking that body in the frame
(`Stream.gives_program`), and all that is asked on the way is asked by the body
(`Query.within_program`).
-/

namespace Nondet

variable {c : Context} {r : Reply Stream Outcome} {q : Query}

/-- A node that was begun gives what is given inside. -/
theorem Stream.gives_nested (h : c.nesting < c.limits.maxNesting) {span : Span} {inner : Stream} :
    (Stream.nested span inner).Gives c r ↔
      ∃ r', inner.Gives c.enterNested r' ∧ r = r'.leaving span := by
  rw [Stream.gives_iff, Stream.move_nested h]
  rfl

/-- A move that asks one stream for its answer leads to what the stream gives. -/
theorem Move.leads_asked {s : Stream} : (Move.stream s c .answer).Leads r ↔ s.Gives c r := by
  simp [Move.Leads]

/-- The same for a move that asks one odometer. -/
theorem Move.leads_odometer_asked {o : Odometer} {r : Reply Odometer (List Value)} :
    (Move.odometer o c .answer).Leads r ↔ o.Gives c r := by
  simp [Move.Leads]

theorem Stream.gives_node {n : Node} :
    (evaluate n).Gives c r ↔ (Stream.nested n.span (.build n)).Gives c r := by
  rw [Stream.gives_iff, ← Move.leads_asked]
  rfl

/-- **Asking a script is asking its statements in its frame.** -/
theorem Stream.gives_program (h : c.nesting < c.limits.maxNesting) {span : Span} {ss : List Node} :
    (evaluate (.program span ss)).Gives c r ↔
      ∃ r', (Stream.body ss).Gives c.enterNested.enterProgram r' ∧ r = r'.leaving span := by
  rw [gives_node, gives_nested h]
  simp only [Stream.build, Stream.gives_iff (s := .program ss), Stream.move, Move.leads_asked,
    Node.span]

/-! ### On the way -/

/-- What is asked on the way is the request itself or is asked by something that it asks. -/
theorem Query.within_cases {q q' : Query} (h : q.Within q') :
    q' = q ∨ ∃ q₁, q.Asks q₁ ∧ q₁.Within q' := by
  rcases Relation.ReflTransGen.cases_head h with rfl | ⟨q₁, ha, hw⟩
  · exact .inl rfl
  · exact .inr ⟨q₁, ha, hw⟩

/-- What a stream asks first. -/
theorem Query.asks_of_move {s s' : Stream} {c c' : Context}
    {next : Reply Stream Outcome → Move Stream Outcome} (h : s.move c = .stream s' c' next) :
    (Query.stream s c).Asks (.stream s' c') := by
  rw [Query.Asks, h]
  exact .stream

/-- A move that asks one stream, and answers whatever the reply, asks nothing else. -/
theorem Move.asks_once {s : Stream} {f : Reply Stream Outcome → Reply Stream Outcome}
    (h : (Move.stream s c fun r => .answer (f r)).Asks q) : q = .stream s c := by
  cases h with
  | stream => rfl
  | afterStream _ t => cases t

/-- **What a script asks on the way, its statements ask.** -/
theorem Query.within_program (h : c.nesting < c.limits.maxNesting) {span : Span} {ss : List Node}
    (hw : (Query.stream (evaluate (.program span ss)) c).Within q) :
    q = .stream (evaluate (.program span ss)) c ∨
      q = .stream (.nested span (.program ss)) c ∨
      q = .stream (.program ss) c.enterNested ∨
      (Query.stream (.body ss) c.enterNested.enterProgram).Within q := by
  rcases within_cases hw with rfl | ⟨q₁, ha, hw⟩
  · exact .inl rfl
  obtain rfl := Move.asks_once (f := id) ha
  rcases within_cases hw with rfl | ⟨q₂, ha, hw⟩
  · exact .inr (.inl rfl)
  have ha : ((Stream.nested span (.program ss)).move c).Asks q₂ := ha
  rw [Stream.move_nested h] at ha
  obtain rfl := Move.asks_once ha
  rcases within_cases hw with rfl | ⟨q₃, ha, hw⟩
  · exact .inr (.inr (.inl rfl))
  obtain rfl := Move.asks_once (f := id) ha
  exact .inr (.inr (.inr hw))

end Nondet
