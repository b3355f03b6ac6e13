import Mathlib.Data.List.Forall2
import Nondet.Proofs.Pull.Signals

/-!
# Pull — Exhausts

Statements one after the other.  A run of a stream is all its requests, until it has no more outcomes;
what happens to the context between two requests is up to the consumer.  A list of statements that
lack `cut` forgets nothing that was begun: in a run of it the first statement comes to its end, and
between any two requests to that statement the later statements come to theirs
(`Stream.exhausts_of_runs`).
-/

namespace Nondet

/-- An outcome in a run: the context after it was given, and the one of the next request. -/
structure Hop where
  outcome : Outcome
  after : Context
  next : Context

/-- Asked again and again, the stream gives these outcomes, and then it has no more. -/
def Stream.Runs (s : Stream) (c : Context) : List Hop → Context → Prop
  | [], c'          => s.Gives c (.finished c')
  | hop :: hops, c' =>
    ∃ rest : Stream, s.Gives c (.yield hop.outcome rest hop.after) ∧ rest.Runs hop.next hops c'

/-- Every alternative is asked for.  The stream runs to its end, and each time that it gives a value
the statements `later` run to their end before it is asked again; a value on its way out of a function
passes them by. -/
def Stream.Exhausts : List Node → Stream → Context → List Hop → Context → Prop
  | [], s, c, hops, c'         => s.Runs c hops c'
  | n :: later, s, c, hops, c' => ∃ own pieces, s.Runs c own c' ∧ hops = pieces.flatten ∧
    List.Forall₂ (fun hop piece => match hop.outcome with
      | .value _          => Exhausts later (evaluate n) hop.after piece hop.next
      | .returned _ | .cut => piece = [hop]) own pieces

/-! ### Runs with fuel -/

/-- The run takes no more than so much fuel in all. -/
def Stream.RunsIn : List Hop → Nat → Stream → Context → Context → Prop
  | [], fuel, s, c, c'          => s.ask fuel c = some (.finished c')
  | hop :: hops, fuel, s, c, c' => ∃ first others rest, first + others = fuel ∧
    s.ask first c = some (.yield hop.outcome rest hop.after) ∧ RunsIn hops others rest hop.next c'

namespace Stream

variable {s s' rest : Stream} {c c' c₁ : Context} {hops : List Hop} {hop : Hop} {fuel : Nat}
  {later : List Node} {earlier : OpenStatements}

theorem Runs.exists_fuel : ∀ {hops : List Hop} {s : Stream} {c : Context},
    s.Runs c hops c' → ∃ fuel, RunsIn hops fuel s c c'
  | [], _, _, h => h
  | _ :: _, _, _, ⟨rest, ⟨first, h⟩, t⟩ =>
    have ⟨others, t⟩ := t.exists_fuel
    ⟨first + others, first, others, rest, rfl, h, t⟩

/-- The first request of a run: its reply is no failure, whatever gives the same reply with less fuel
has the same run with less fuel, and what follows on an outcome takes less fuel too. -/
theorem RunsIn.first (h : RunsIn hops fuel s c c') : ∃ k r, s.ask (k + 1) c = some r ∧
    (∀ s' c₁, s'.ask k c₁ = some r → ∃ less < fuel, RunsIn hops less s' c₁ c') ∧
    (∀ failure c₁, r ≠ .failed failure c₁) ∧
    ∀ outcome rest c₁, r = .yield outcome rest c₁ → ∃ c₂ hops' less, less < fuel ∧
      hops = ⟨outcome, c₁, c₂⟩ :: hops' ∧ RunsIn hops' less rest c₂ c' := by
  -- A request takes fuel.
  have positive {fuel : Nat} {r : Reply Stream Outcome} (h : s.ask fuel c = some r) :
      ∃ k, fuel = k + 1 :=
    Nat.exists_eq_succ_of_ne_zero fun e => by simp [e] at h
  cases hops with
  | nil =>
      obtain ⟨k, rfl⟩ := positive h
      exact ⟨k, _, h, fun s' c₁ h' => ⟨k, Nat.lt_succ_self k, h'⟩, nofun, nofun⟩
  | cons hop hops =>
      obtain ⟨_, others, rest, rfl, h, t⟩ := h
      obtain ⟨k, rfl⟩ := positive h
      refine ⟨k, _, h, fun s' c₁ h' => ⟨k + others, by omega, k, others, rest, rfl, h', t⟩, nofun, ?_⟩
      rintro outcome rest c₁ ⟨⟩
      exact ⟨hop.next, hops, others, by omega, rfl, t⟩

/-! ### Statements that lack `cut` -/

/-- One more outcome of the first statement, which passes the later ones by. -/
theorem Exhausts.pass (h : s.Gives c (.yield hop.outcome rest hop.after))
    (hv : later = [] ∨ ∀ v, hop.outcome ≠ .value v) (t : Exhausts later rest hop.next hops c') :
    Exhausts later s c (hop :: hops) c' := by
  cases later with
  | nil => exact ⟨rest, h, t⟩
  | cons n later =>
      obtain ⟨own, pieces, hown, rfl, hp⟩ := t
      refine ⟨hop :: own, [hop] :: pieces, ⟨rest, h, hown⟩, rfl, .cons ?_ hp⟩
      cases ho : hop.outcome with
      | value v => exact absurd ho (hv.resolve_left (List.cons_ne_nil n later) v)
      | returned v | cut => rfl

/-- One more value of the first statement, with a run of the later ones. -/
theorem Exhausts.value {n : Node} {v : Value} {piece : List Hop} {c₂ : Context}
    (h : s.Gives c (.yield (.value v) rest c₁)) (hp : Exhausts later (evaluate n) c₁ piece c₂)
    (t : Exhausts (n :: later) rest c₂ hops c') : Exhausts (n :: later) s c (piece ++ hops) c' := by
  obtain ⟨own, pieces, hown, rfl, hps⟩ := t
  exact ⟨⟨.value v, c₁, c₂⟩ :: own, piece :: pieces, ⟨rest, h, hown⟩, rfl, .cons hp hps⟩

theorem Exhausts.nil (h : s.Gives c (.finished c')) : Exhausts later s c [] c' := by
  cases later with
  | nil => exact h
  | cons n later => exact ⟨[], [], h, rfl, .nil⟩

/-- A run of a statement with those that follow it and those that were begun before it: they are
exhausted, and then those before it go on.  The induction is on the fuel, since a statement after
which nothing comes of the later ones takes a request, but gives no outcome. -/
theorem RunsIn.exhausts : ∀ {fuel : Nat} {hops : List Hop} {s : Stream} {later : List Node}
    {earlier : OpenStatements} {c c' : Context}, s.Lacks .cut → (∀ n ∈ later, n.Lacks .cut) →
    RunsIn hops fuel (.sequence (.push s later earlier)) c c' →
    ∃ own others m less, less < fuel ∧ hops = own ++ others ∧ Exhausts later s c own m ∧
      RunsIn others less (.sequence earlier) m c' := by
  intro fuel
  induction fuel using Nat.strongRecOn with | ind fuel ih
  intro hops s later earlier c c' hs hl h
  obtain ⟨k, r, hr, again, nofailure, follows⟩ := h.first
  rw [ask_succ] at hr
  obtain ⟨reply, hreply, hr⟩ := Option.bind_eq_some_iff.mp hr
  have gives : s.Gives c reply := ⟨k, hreply⟩
  have lacking := hs.gives gives
  -- What is left of the statement, and of those before it, after it was passed.
  have pass {outcome : Outcome} {rest : Stream} {c₁ : Context}
      (e : reply = .yield outcome rest c₁) (hv : later = [] ∨ ∀ v, outcome ≠ .value v)
      (answer : r = .yield outcome (.sequence (.push rest later earlier)) c₁) :
      ∃ own others m less, less < fuel ∧ hops = own ++ others ∧ Exhausts later s c own m ∧
        RunsIn others less (.sequence earlier) m c' := by
    subst e
    obtain ⟨c₂, hops', less, hless, rfl, t⟩ := follows _ _ _ answer
    obtain ⟨own, others, m, less', hless', rfl, hown, hothers⟩ := ih less hless lacking.2 hl t
    exact ⟨⟨outcome, c₁, c₂⟩ :: own, others, m, less', Nat.lt_trans hless' hless, rfl, .pass gives hv hown,
      hothers⟩
  cases reply with
  | failed failure c₁ => exact absurd (Option.some.inj hr).symm (nofailure failure c₁)
  | finished m =>
      obtain ⟨r', hr', e⟩ := Option.bind_eq_some_iff.mp hr
      cases e
      obtain ⟨less, hless, t⟩ := again _ _ hr'
      exact ⟨[], hops, m, less, hless, rfl, .nil gives, t⟩
  | yield outcome rest c₁ =>
      cases outcome with
      | cut => exact absurd rfl lacking.1
      | returned v => exact pass rfl (.inr nofun) (Option.some.inj hr).symm
      | value v =>
          cases later with
          | nil => exact pass rfl (.inl rfl) (Option.some.inj hr).symm
          | cons n later =>
              obtain ⟨r', hr', e⟩ := Option.bind_eq_some_iff.mp hr
              cases e
              obtain ⟨less, hless, t⟩ := again _ _ hr'
              rw [List.forall_mem_cons] at hl
              -- First the later statements come to their end, then the statement goes on.
              obtain ⟨piece, others, m, less₁, hless₁, rfl, hpiece, t⟩ :=
                ih less hless (s := evaluate n) hl.1 hl.2 t
              obtain ⟨own, others, m', less₂, hless₂, rfl, hown, t⟩ :=
                ih less₁ (Nat.lt_trans hless₁ hless) lacking.2 (List.forall_mem_cons.mpr hl) t
              exact ⟨piece ++ own, others, m', less₂, Nat.lt_trans hless₂ (Nat.lt_trans hless₁ hless),
                (List.append_assoc ..).symm, .value gives hpiece hown, t⟩

/-- **Statements that lack `cut` come to an end only when they are exhausted.** -/
theorem exhausts_of_runs {n : Node} (h : ∀ m ∈ n :: later, m.Lacks .cut)
    (hr : (ofStatements (n :: later)).Runs c hops c') : Exhausts later (evaluate n) c hops c' := by
  rw [List.forall_mem_cons] at h
  obtain ⟨fuel, hr⟩ := hr.exists_fuel
  obtain ⟨own, others, m, less, -, rfl, hown, t⟩ := RunsIn.exhausts (s := evaluate n) h.1 h.2 hr
  -- Nothing was begun before.
  obtain ⟨k, r, hr, -, -, follows⟩ := t.first
  rw [ask_succ] at hr
  cases Option.some.inj hr
  cases others with
  | nil =>
      have t : (Stream.sequence .none).ask less m = some (.finished c') := t
      obtain rfl : m = c' := by
        have e : (Reply.finished m : Reply Stream Outcome) = .finished c' :=
          Gives.unique (s := .sequence .none) ⟨k + 1, by rw [ask_succ]; rfl⟩ ⟨less, t⟩
        exact Reply.finished.inj e
      rw [List.append_nil]
      exact hown
  | cons hop hops =>
      obtain ⟨first, _, rest, -, t, -⟩ := t
      have e := Gives.unique (s := .sequence .none) ⟨k + 1, by rw [ask_succ]; rfl⟩ ⟨first, t⟩
      cases e

end Stream

/-! ### Runs that are made -/

/-- The outcomes of a stream that is asked again where each reply leaves off, if they are no more than
so many and the fuel suffices for each. -/
def Stream.run? (fuel : Nat) : Nat → Stream → Context → Option (List Hop × Context)
  | 0, _, _        => none
  | count + 1, s, c =>
    match s.ask fuel c with
    | some (.finished c')          => some ([], c')
    | some (.yield outcome rest c') =>
      (run? fuel count rest c').map fun (hops, last) => (⟨outcome, c', c'⟩ :: hops, last)
    | _                            => none

theorem Stream.runs_of_run? {fuel : Nat} : ∀ {count : Nat} {s : Stream} {c c' : Context}
    {hops : List Hop}, s.run? fuel count c = some (hops, c') → s.Runs c hops c'
  | 0, _, _, _, _, h => nomatch h
  | count + 1, s, c, c', hops, h => by
      rw [run?] at h
      split at h
      next c₁ hr =>
        cases h
        exact ⟨fuel, hr⟩
      next outcome rest c₁ hr =>
        obtain ⟨⟨hops', last⟩, ht, e⟩ := Option.map_eq_some_iff.mp h
        cases e
        exact ⟨rest, ⟨fuel, hr⟩, runs_of_run? ht⟩
      next => cases h

end Nondet
