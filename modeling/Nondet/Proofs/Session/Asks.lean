import Nondet.Proofs.Session.Discipline

/-!
# Session — Asks

Where a request goes first.  The outermost things that are asked belong to the script's own node;
all else is asked inside that node (`Dialogue.Disciplined.asks_cases`), in a context that the
discipline knows.  In a session in which no node may be evaluated at all, nothing is asked inside
(`Dialogue.Idle`): every script fails at its own node, and no script ever gets a frame.
-/

namespace Nondet

open Nondet.Action

variable {R : Regime} {l : Limits} {d d' : Dialogue} {q : Query}

/-! ### Looking for a request -/

/-- The first request that a move makes with what is looked for inside it. -/
def Move.find? {σ α : Type} (search : Query → Option Query) (fuel : Nat) : Move σ α → Option Query
  | .answer _          => none
  | .stream s c next   =>
    match search (.stream s c) with
    | some q => some q
    | none   => (s.ask fuel c).bind fun r => (next r).find? search fuel
  | .odometer o c next =>
    match search (.odometer o c) with
    | some q => some q
    | none   => (o.ask fuel c).bind fun r => (next r).find? search fuel

/-- What is looked for is the request itself, or something that it makes. -/
def Query.findWith? (wanted : Query → Bool) (search : Query → Option Query) (fuel : Nat) :
    Query → Option Query
  | .stream s c   =>
    if wanted (.stream s c) then some (.stream s c) else (s.move c).find? search fuel
  | .odometer o c =>
    if wanted (.odometer o c) then some (.odometer o c) else (o.move c).find? search fuel

/-- The first of all that is asked on the way that is as wanted. -/
def Query.find? (wanted : Query → Bool) : Nat → Query → Option Query
  | 0        => fun _ => none
  | fuel + 1 => findWith? wanted (find? wanted fuel) fuel

theorem Move.asks_of_find? {σ α : Type} {search : Query → Option Query} {fuel : Nat} :
    ∀ {m : Move σ α}, m.find? search fuel = some q → ∃ q', m.Asks q' ∧ search q' = some q
  | .answer _, h => nomatch h
  | .stream s c next, h => by
      rw [find?] at h
      split at h
      next q' hq =>
        cases h
        exact ⟨_, .stream, hq⟩
      next =>
        obtain ⟨r, hr, h⟩ := Option.bind_eq_some_iff.mp h
        obtain ⟨q', ha, hq⟩ := asks_of_find? h
        exact ⟨q', .afterStream ⟨fuel, hr⟩ ha, hq⟩
  | .odometer o c next, h => by
      rw [find?] at h
      split at h
      next q' hq =>
        cases h
        exact ⟨_, .odometer, hq⟩
      next =>
        obtain ⟨r, hr, h⟩ := Option.bind_eq_some_iff.mp h
        obtain ⟨q', ha, hq⟩ := asks_of_find? h
        exact ⟨q', .afterOdometer ⟨fuel, hr⟩ ha, hq⟩

theorem Query.within_of_find? {wanted : Query → Bool} : ∀ {fuel : Nat} {q q' : Query},
    q.find? wanted fuel = some q' → q.Within q'
  | 0, _, _, h => nomatch h
  | fuel + 1, .stream s c, q', h | fuel + 1, .odometer s c, q', h => by
      rw [find?, findWith?] at h
      split at h
      · exact Option.some.inj h ▸ .refl
      · obtain ⟨q₁, ha, h⟩ := Move.asks_of_find? h
        exact .head ha (within_of_find? h)

/-- Whether all requests that a move makes pass a check; no, if the fuel does not suffice to
tell. -/
def Move.all {σ α : Type} (check : Query → Bool) (fuel : Nat) : Move σ α → Bool
  | .answer _          => true
  | .stream s c next   =>
    check (.stream s c) && (s.ask fuel c).any fun r => (next r).all check fuel
  | .odometer o c next =>
    check (.odometer o c) && (o.ask fuel c).any fun r => (next r).all check fuel

/-- Whether the request is as wanted, and what it asks passes the check. -/
def Query.allWith (wanted check : Query → Bool) (fuel : Nat) : Query → Bool
  | .stream s c   => wanted (.stream s c) && (s.move c).all check fuel
  | .odometer o c => wanted (.odometer o c) && (o.move c).all check fuel

/-- Whether all that is asked on the way is as wanted. -/
def Query.all (wanted : Query → Bool) : Nat → Query → Bool
  | 0        => fun _ => false
  | fuel + 1 => allWith wanted (all wanted fuel) fuel

theorem Move.all_asks {σ α : Type} {check : Query → Bool} {fuel : Nat} {m : Move σ α}
    (h : m.all check fuel = true) (hq : m.Asks q) : check q = true := by
  induction hq with
  | stream | odometer => exact (Bool.and_eq_true_iff.mp h).1
  | afterStream hr _ ih | afterOdometer hr _ ih =>
      obtain ⟨r, hr', h⟩ := (Option.any_eq_true _ _).mp (Bool.and_eq_true_iff.mp h).2
      obtain rfl := hr.unique ⟨fuel, hr'⟩
      exact ih h

theorem Query.all_within {wanted : Query → Bool} {q' : Query} (hw : q.Within q') :
    ∀ {fuel : Nat}, q.all wanted fuel = true → wanted q' = true := by
  induction hw using Relation.ReflTransGen.head_induction_on with
  | refl =>
      rintro (_ | fuel) h
      · cases h
      · cases q' <;> exact (Bool.and_eq_true_iff.mp h).1
  | @head q q₁ hasks _ ih =>
      rintro (_ | fuel) h
      · cases h
      · cases q <;> exact ih (Move.all_asks (Bool.and_eq_true_iff.mp h).2 hasks)

/-- The stream that is asked, with the context. -/
def Query.stream? : Query → Option (Stream × Context)
  | .stream s c   => some (s, c)
  | .odometer _ _ => none

theorem Query.eq_of_stream? {s : Stream} {c : Context} (h : q.stream? = some (s, c)) :
    q = .stream s c := by
  cases q with
  | stream s' c' =>
      cases h
      rfl
  | odometer o c' => cases h

/-- The call that is asked, with the context. -/
def Query.call? : Query → Option (Span × Closure × List Value × Option Value × Context)
  | .stream (.call span closure arguments this) c => some (span, closure, arguments, this, c)
  | _                                             => none

theorem Query.eq_of_call? {span : Span} {closure : Closure} {arguments : List Value}
    {this : Option Value} {c : Context} (h : q.call? = some (span, closure, arguments, this, c)) :
    q = .stream (.call span closure arguments this) c := by
  unfold call? at h
  split at h
  · cases h
    rfl
  · cases h

namespace Dialogue

/-- The first thing as wanted that the next request asks. -/
def find? (d : Dialogue) (fuel : Nat) (wanted : Query → Bool) : Option Query :=
  d.solutions.stream.bind fun run => (Query.stream run d.context).find? wanted fuel

theorem asks_of_find? {fuel : Nat} {wanted : Query → Bool} (h : d.find? fuel wanted = some q) :
    d.Asks q := by
  obtain ⟨run, hrun, h⟩ := Option.bind_eq_some_iff.mp h
  exact ⟨run, hrun, Query.within_of_find? h⟩

/-! ### The script's node -/

/-- The outermost things that a request asks: the node of the script, begun or not, and the script
inside it. -/
inductive Outermost (d : Dialogue) : Query → Prop
  | node (n : Node) : Outermost d (.stream (evaluate n) d.context)
  | nested (span : Span) (inner : Stream) : Outermost d (.stream (.nested span inner) d.context)
  | program (ss : List Node) : Outermost d (.stream (.program ss) d.context.enterNested)

/-- **What a request asks belongs to the script's node or is asked inside it.** -/
theorem Disciplined.asks_cases (hl : 1 ≤ l.maxNesting) (hf : d.Fits R) (h : d.Disciplined l)
    (hq : d.Asks q) :
    d.Outermost q ∨ ∃ span s c, d.Inside span s c ∧
      (R.contract.and (discipline l)).stream s c ∧ (Query.stream s c).Within q := by
  obtain ⟨run, hrun, hw⟩ := hq
  rcases h.running hrun with ⟨span, ss, hsol, hb, rfl⟩ | ⟨span, inner, hsol, hb, rfl, -⟩
  · have inside := Inside.script hsol hb
    rcases Query.within_program (h.below hl) hw with rfl | rfl | rfl | hw
    · exact .inl (.node _)
    · exact .inl (.nested _ _)
    · exact .inl (.program _)
    · exact .inr ⟨span, _, _, inside, (h.inside hl hf inside).2, hw⟩
  · have inside := Inside.rest hsol hb
    rcases Query.within_cases hw with rfl | ⟨q₁, hasks, hw⟩
    · exact .inl (.nested _ _)
    · have hasks : ((Stream.nested span inner).move d.context).Asks q₁ := hasks
      rw [Stream.move_nested (h.below hl)] at hasks
      obtain rfl := Move.asks_once hasks
      exact .inr ⟨span, _, _, inside, (h.inside hl hf inside).2, hw⟩

/-! ### Sessions in which no node may be evaluated -/

/-- No node may be evaluated, and no script has a frame. -/
structure Idle (d : Dialogue) : Prop where
  limit : d.context.limits.maxNesting = 0
  stack : d.context.stack = [d.context.global]
  outer : d.context.outer = 1
  solutions : d.solutions = ⟨none⟩ ∨ ∃ span ss, d.solutions = .of (.program span ss)

theorem idle_start (options : SessionOptions) (host : Host) (h : options.limits.maxNesting = 0) :
    (start options host).Idle := by
  have alike : (Context.empty options.limits host).Alike (start options host).context :=
    Session.start_alike options host
  exact ⟨alike.limits ▸ h, alike.stack.trans (congrArg ([·]) alike.global.symm), alike.outer,
    .inl rfl⟩

variable (h : d.Idle)

include h

theorem Idle.move_nested (span : Span) (inner : Stream) :
    (Stream.nested span inner).move d.context =
      .answer (.failed (.exceeded .nesting (d.context.nesting + 1) 0 span)
        (d.context.raised (.exceeded .nesting (d.context.nesting + 1) 0 span))) := by
  rw [Stream.move_nested_full (h.limit ▸ Nat.zero_le d.context.nesting), h.limit]
  rfl

/-- Nothing is asked inside the script's node. -/
theorem Idle.asks (hq : d.Asks q) : d.Outermost q := by
  obtain ⟨run, hrun, hw⟩ := hq
  rcases h.solutions with hsol | ⟨span, ss, hsol⟩
  · rw [hsol] at hrun
    cases hrun
  obtain rfl : run = evaluate (.program span ss) := by
    rw [hsol] at hrun
    exact (Option.some.inj hrun).symm
  rcases Query.within_cases hw with rfl | ⟨q₁, hasks, hw⟩
  · exact .node _
  obtain rfl := Move.asks_once (f := id) hasks
  rcases Query.within_cases hw with rfl | ⟨q₂, hasks, -⟩
  · exact .nested _ _
  · have hasks : ((Stream.nested span (.program ss)).move d.context).Asks q₂ := hasks
    rw [h.move_nested] at hasks
    cases hasks

/-- A request finds nothing left, or it fails at the script's node. -/
theorem Idle.next {fuel : Nat} {answer : Answer} {rest : Solutions} {c : Context}
    (hn : d.solutions.next fuel d.context = some (answer, rest, c)) :
    rest = ⟨none⟩ ∧ ((answer = .none ∧ c = d.context) ∨
      ∃ span, answer = .failure (.exceeded .nesting (d.context.nesting + 1) 0 span) ∧
        c = d.context.raised (.exceeded .nesting (d.context.nesting + 1) 0 span)) := by
  rcases h.solutions with hsol | ⟨span, ss, hsol⟩
  · rw [hsol] at hn
    cases Solutions.next_none hn
    exact ⟨rfl, .inl ⟨rfl, rfl⟩⟩
  · rw [hsol] at hn
    obtain ⟨r, hr, e⟩ := Solutions.next_eq_some hn
    have hr := Stream.gives_iff.mp (Stream.gives_node.mp hr)
    rw [Stream.build, h.move_nested, Move.Leads] at hr
    subst hr
    cases e
    exact ⟨rfl, .inr ⟨_, rfl, rfl⟩⟩

theorem Idle.raised (failure : Failure) :
    (d.context.raised failure).stack = [d.context.global] := by
  simp [Context.raised, Context.truncate, h.stack, h.outer]

theorem Idle.step (hs : Step R d d') : d'.Idle := by
  cases hs with
  | define name hv => exact ⟨h.limit, h.stack, h.outer, h.solutions⟩
  | run hr =>
      obtain ⟨program, hp, rfl⟩ := Session.run_eq_ok hr
      obtain ⟨span, ss, rfl, -⟩ := Grammar.parse_program hp
      exact ⟨h.limit, h.stack, h.outer, .inr ⟨span, ss, rfl⟩⟩
  | ask hn =>
      obtain ⟨rfl, ⟨rfl, rfl⟩ | ⟨span, rfl, rfl⟩⟩ := h.next hn
      · exact ⟨h.limit, h.stack, h.outer, .inl rfl⟩
      · exact ⟨h.limit, h.raised _, h.outer, .inl rfl⟩

theorem Idle.leads (hs : Leads R d d') : d'.Idle := by
  induction hs with
  | refl => exact h
  | tail _ hs ih => exact ih.step hs

end Dialogue

end Nondet
