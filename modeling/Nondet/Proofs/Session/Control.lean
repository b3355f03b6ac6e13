import Nondet.Proofs.Pull.Confined
import Nondet.Proofs.Pull.Exhausts
import Nondet.Proofs.Session.Asks

/-!
# Session — Control

How far `return` and `cut` reach.  Expressions lack return statements, so all operands in a script do,
and a session in which the host keeps to that works with nothing that returns
(`Dialogue.Works.awaits`).  With what is known of calls and of statements that lack `cut`, control is
confined (`control_is_confined`).
-/

namespace Nondet

/-! ### Scripts -/

/-- What is evaluated where an expression is, is an expression. -/
theorem Grammar.Written.inPlace {n m : Node} (h : Written .expression n) (hm : m ∈ n.inPlace) :
    Written .expression m := by
  cases h with
  | literal | identifier | arrowExpression | arrowBlock => cases hm
  | call hc ha =>
      rcases List.mem_cons.mp hm with rfl | hm
      · exact hc
      · exact ha m hm
  | unary h | assignment _ h =>
      obtain rfl := List.mem_singleton.mp hm
      exact h
  | binary hl hr | logical hl hr =>
      simp only [Node.inPlace, Node.function?, Node.children, List.mem_cons, List.not_mem_nil,
        or_false] at hm
      rcases hm with rfl | rfl
      · exact hl
      · exact hr
  | conditional ht hc ha =>
      simp only [Node.inPlace, Node.function?, Node.children, List.mem_cons, List.not_mem_nil,
        or_false] at hm
      rcases hm with rfl | rfl | rfl
      · exact ht
      · exact hc
      · exact ha

/-- Expressions lack return statements. -/
theorem Grammar.Written.lacks_returned {n : Node} (h : Written .expression n) : n.Lacks .returned := by
  have sends {m : Node} (hm : Written .expression m) : m.sends .returned = false := by
    cases hm <;> rfl
  refine fun m hm => sends ?_
  induction hm with
  | refl => exact h
  | tail _ hm ih => exact ih.inPlace hm

/-- Operands are expressions. -/
theorem Grammar.Written.operands {what : Nested} {n e : Node} (h : Written what n)
    (he : e ∈ n.operands) : Written .expression e := by
  cases h with
  | call hc ha =>
      rcases List.mem_cons.mp he with rfl | he
      · exact hc
      · exact ha e he
  | unary h | assignment _ h | variableDeclaration _ h | conditional h | ifStatement h =>
      obtain rfl := List.mem_singleton.mp he
      exact h
  | binary hl hr | logical hl hr =>
      simp only [Node.operands, List.mem_cons, List.not_mem_nil, or_false] at he
      rcases he with rfl | rfl
      · exact hl
      · exact hr
  | returnStatement ha => exact ha e (Option.mem_toList.mp he)
  | _ => cases he

/-- The operands in a script lack return statements. -/
theorem Grammar.operands_lack_returned {source : String} {program n e : Node}
    (h : parse source = .ok program) (hn : program.Part n) (he : e ∈ n.operands) :
    e.Lacks .returned := by
  obtain ⟨span, ss, rfl, hss⟩ := parse_written h
  rcases Relation.ReflTransGen.cases_head hn with rfl | ⟨m, hm, hn⟩
  · cases he
  · obtain ⟨what, hw⟩ := (hss m hm).part hn
    exact (hw.operands he).lacks_returned

/-- Scripts keep to the regime. -/
theorem Regime.confined_reads : Regime.confined.Reads := fun _ _ hp _ hm _ hn _ _ he =>
  Grammar.operands_lack_returned hp (.head hm hn) he

/-! ### Sessions -/

/-- The stream is asked for an operand, a callee, a test, an argument, or what a name is given. -/
inductive Query.Awaits : Query → Stream → Context → Prop
  | operand {inner f c} (h : ∀ span, f ≠ .return span) : Awaits (.stream (.map inner f) c) inner c
  | first {outer next c} : Awaits (.stream (.flatMap outer next) c) outer c
  | argument {current span later earlier values c} :
      Awaits (.odometer (.turning (.push current span later earlier) values) c) current c

/-- What is awaited in confined code lacks return statements. -/
theorem Query.Awaits.lacks {q : Query} {s : Stream} {c : Context} (h : q.Awaits s c)
    (hq : confined.Allows q) : s.Lacks .returned := by
  cases h with
  | @operand _ f _ hf =>
      refine (show (Stream.map s f).Confined from hq).1 ?_
      cases f with
      | «return» span => exact absurd rfl (hf span)
      | _ => trivial
  | @first _ next _ => exact (show (Stream.flatMap s next).Confined from hq).1
  | @argument _ span later earlier values _ =>
      exact (show (OpenArguments.push s span later earlier).Confined from hq).1

namespace Dialogue

variable {d d' : Dialogue} {q : Query}

/-- The session keeps to the regime, and what is left of its script is confined. -/
structure Works (d : Dialogue) : Prop where
  fits : d.Fits .confined
  rest : d.Left (fun _ => True) Stream.Confined

/-- The script that is left may be asked. -/
theorem Works.allows (h : d.Works) {s : Stream} (hs : d.solutions = ⟨some s⟩) :
    (confinedRequests.and confined).stream s d.context := by
  refine ⟨⟨⟨h.fits.context, ?_⟩, trivial⟩, ?_⟩
  · cases h.fits.solutions with
    | nothing hn _ => cases hs.symm.trans hn
    | @script span ss hn _ hss =>
        cases hs.symm.trans hn
        exact Node.every_iff.mpr ⟨fun _ => nofun, hss⟩
    | rest hn _ hr =>
        cases hs.symm.trans hn
        exact hr
  · cases h.rest with
    | nothing hn _ => cases hs.symm.trans hn
    | script hn _ _ =>
        cases hs.symm.trans hn
        trivial
    | rest hn _ hr =>
        cases hs.symm.trans hn
        exact hr

theorem Works.step (h : d.Works) (hs : Step .confined d d') : d'.Works := by
  refine ⟨h.fits.step Regime.confined_reads hs, ?_⟩
  cases hs with
  | define name hv =>
      cases h.rest with
      | nothing hn hb => exact .nothing hn hb
      | script hn hb _ => exact .script hn hb trivial
      | rest hn hb hr => exact .rest hn hb hr
  | run hr =>
      obtain ⟨program, hp, rfl⟩ := Session.run_eq_ok hr
      obtain ⟨span, ss, rfl, -⟩ := Grammar.parse_program hp
      exact .script rfl rfl trivial
  | @ask fuel answer rest c hn =>
      rcases hsol : d.solutions with ⟨_ | s⟩
      · rw [hsol] at hn
        cases Solutions.next_none hn
        exact .nothing rfl rfl
      · rw [hsol] at hn
        obtain ⟨r, hr, e⟩ := Solutions.next_eq_some hn
        rw [answered_eq_replied e]
        have kept := confined_kept.gives (h.allows hsol) hr
        exact left_replied fun outcome s' c' e => by
          subst e
          exact kept.2

theorem Works.leads (h : d.Works) (hs : Leads .confined d d') : d'.Works := by
  induction hs with
  | refl => exact h
  | tail _ hs ih => exact ih.step hs

theorem works_start (options : SessionOptions) {host : Host} (h : host.Fits .confined) :
    (start options host).Works := ⟨fits_start options h, .nothing rfl rfl⟩

/-- What is awaited in a session lacks return statements. -/
theorem Works.awaits (h : d.Works) (hq : d.Asks q) {s : Stream} {c : Context} (ha : q.Awaits s c) :
    s.Lacks .returned := by
  obtain ⟨run, hrun, hw⟩ := hq
  have hsol : d.solutions = ⟨some run⟩ := by
    rw [← hrun]
  have allowed := confined_kept.within hw (h.allows hsol)
  refine ha.lacks ?_
  cases q <;> exact allowed.2

end Dialogue

/-- **Control is confined.**  Whatever contexts a consumer makes of those that it is given:

* a call gives values only, whatever the function that is called does;
* no operand in a script gives a value on its way out of a function, and in a session whose host
  keeps to that none ever arrives where an operand is awaited;
* a node without `cut` outside the functions in it does not give the marker;
* statements of that kind do not give it either, and they come to an end only when all alternatives
  of each were asked for. -/
theorem control_is_confined (options : SessionOptions) (host : Host) (hh : host.Fits .confined) :
    (∀ callee arguments span this outcome,
        (apply callee arguments span this).Yields outcome → ∃ v, outcome = .value v) ∧
      (∀ source program, Grammar.parse source = .ok program → ∀ n, program.Part n →
        ∀ e ∈ n.operands, ∀ v, ¬ (evaluate e).Yields (.returned v)) ∧
      (∀ d, Dialogue.Leads .confined (.start options host) d → ∀ q, d.Asks q →
        ∀ s c, q.Awaits s c → ∀ v, ¬ s.Yields (.returned v)) ∧
      (∀ n : Node, n.Lacks .cut → ¬ (evaluate n).Yields .cut) ∧
      ∀ n later, (∀ m ∈ n :: later, m.Lacks .cut) →
        ¬ (Stream.ofStatements (n :: later)).Yields .cut ∧
          ∀ c hops c', (Stream.ofStatements (n :: later)).Runs c hops c' →
            (evaluate n).Exhausts later c hops c' := by
  refine ⟨fun callee arguments span this outcome h => ?_, fun source program hp n hn e he v h => ?_,
    fun d hd q hq s c ha v h => ?_, fun n hn h => ?_, fun n later hl => ⟨fun h => ?_, fun c hops c' => ?_⟩⟩
  · exact Outcome.exists_value fun k => (Stream.lacks_apply callee arguments span this).yields h
  · have lacks : (evaluate e).Lacks .returned := Grammar.operands_lack_returned hp hn he
    exact lacks.yields h rfl
  · have works := (Dialogue.works_start options hh).leads hd
    exact (works.awaits hq ha).yields h rfl
  · have lacks : (evaluate n).Lacks .cut := hn
    exact lacks.yields h rfl
  · exact (Stream.lacks_ofStatements hl).yields h rfl
  · exact Stream.exhausts_of_runs hl

/-- What is awaited by a request. -/
def Query.awaited? : Query → Option (Stream × Context)
  | .stream (.map _ (.return _)) _                        => none
  | .stream (.map inner _) c                              => some (inner, c)
  | .stream (.flatMap outer _) c                          => some (outer, c)
  | .odometer (.turning (.push current _ _ _) _) c        => some (current, c)
  | _                                                     => none

theorem Query.awaits_of_awaited? {q : Query} {s : Stream} {c : Context}
    (h : q.awaited? = some (s, c)) : q.Awaits s c := by
  unfold awaited? at h
  split at h
  · cases h
  · next hf =>
    cases h
    exact .operand hf
  · cases h
    exact .first
  · cases h
    exact .argument
  · cases h

/-- Whether the reply is a value. -/
def Reply.isValue {σ : Type} : Reply σ Outcome → Bool
  | .yield (.value _) _ _ => true
  | _                     => false

theorem Stream.yields_of_isValue {s : Stream} {c : Context} {fuel : Nat}
    (h : (s.ask fuel c).any Reply.isValue = true) : ∃ v, s.Yields (.value v) := by
  obtain ⟨r, hr, hv⟩ := (Option.any_eq_true _ _).mp h
  unfold Reply.isValue at hv
  split at hv
  next v rest c' => exact ⟨v, .next ⟨fuel, hr⟩⟩
  next => cases hv

/-- Two statements that lack `cut`, although the function that the first one declares commits to the
first of two choices and returns it: the second one calls it for each of two arguments. -/
theorem control_is_confined_first :
    Prelude.host.Fits .confined ∧
      (∃ callee arguments span this v, (apply callee arguments span this).Yields (.value v)) ∧
      ∃ source program, Grammar.parse source = .ok program ∧
        (∃ n, program.Part n ∧ ∃ e ∈ n.operands, (∃ v, (evaluate e).Yields (.value v)) ∧
          ∀ v, ¬ (evaluate e).Yields (.returned v)) ∧
        (∃ d, Dialogue.Leads .confined (.start ⟨.standard, true⟩ Prelude.host) d ∧ ∃ q, d.Asks q ∧
          ∃ s c, q.Awaits s c ∧ (∃ v, s.Yields (.value v)) ∧ ∀ v, ¬ s.Yields (.returned v)) ∧
        ∃ n later, program.statements = n :: later ∧ (∀ m ∈ n :: later, m.Lacks .cut) ∧
          ¬ (evaluate n).Yields .cut ∧ ∃ c hops c', hops.length = 2 ∧
            (Stream.ofStatements (n :: later)).Runs c hops c' ∧
            (evaluate n).Exhausts later c hops c' := by
  have hh : Prelude.host.Fits .confined :=
    Host.fits_of_asClosure? fun _ _ _ => Prelude.asClosure?_call
  let d₀ : Dialogue := .start ⟨.standard, true⟩ Prelude.host
  let source := "function f(a) \x7b let v = amb(a, null); cut; return v; \x7d f(amb(true, false));"
  -- The choice that is an argument, and the statements, run where their names are declared.
  have parsed : (Grammar.parse source).toOption.any (fun program =>
      (program.children.any fun n => n.children.any fun m => m.operands.any fun e =>
          ((evaluate e).ask 40 d₀.context).any Reply.isValue) &&
        (!program.statements.isEmpty && program.statements.all (Node.lacksDown .cut 10)) &&
        ((Stream.ofStatements program.statements).run? 40 3
          ((Action.hoist program.statements).on d₀.context).2).any (·.1.length == 2)) = true := by
    decide +kernel
  -- Something that is awaited, and a call.
  let awaited (q : Query) : Bool := q.awaited?.any fun p => (p.1.ask 40 p.2).any Reply.isValue
  let called (q : Query) : Bool := q.call?.any fun p =>
    ((Stream.call p.1 p.2.1 p.2.2.1 p.2.2.2.1).ask 40 p.2.2.2.2).any Reply.isValue
  have played : (d₀.run? source).any (fun d =>
      (d.find? 40 awaited).any awaited && (d.find? 40 called).any called) = true := by decide +kernel
  obtain ⟨calls, operands, awaits, marker, statements⟩ :=
    control_is_confined ⟨.standard, true⟩ Prelude.host hh
  obtain ⟨d, hrun, played⟩ := (Option.any_eq_true _ _).mp played
  obtain ⟨hawaited, hcalled⟩ := Bool.and_eq_true_iff.mp played
  have leads : Dialogue.Leads .confined d₀ d := .single (Dialogue.step_of_run? hrun)
  refine ⟨hh, ?_, source, ?_⟩
  · obtain ⟨q, -, hq⟩ := (Option.any_eq_true _ _).mp hcalled
    obtain ⟨⟨span, closure, arguments, this, c⟩, -, hv⟩ := (Option.any_eq_true _ _).mp hq
    obtain ⟨v, hv⟩ := Stream.yields_of_isValue hv
    exact ⟨.closure closure, arguments, span, this, v, hv⟩
  obtain ⟨program, hp, parsed⟩ := Trial.exists_of_any parsed
  obtain ⟨parsed, hruns⟩ := Bool.and_eq_true_iff.mp parsed
  obtain ⟨hargument, hstatements⟩ := Bool.and_eq_true_iff.mp parsed
  obtain ⟨hsome, hlacks⟩ := Bool.and_eq_true_iff.mp hstatements
  refine ⟨program, hp, ?_, ⟨d, leads, ?_⟩, ?_⟩
  · obtain ⟨statement, child, hargument⟩ := List.any_eq_true.mp hargument
    obtain ⟨n, child', hargument⟩ := List.any_eq_true.mp hargument
    obtain ⟨e, operand, he⟩ := List.any_eq_true.mp hargument
    have part : program.Part n := .tail (.single child) child'
    exact ⟨n, part, e, operand, Stream.yields_of_isValue he, operands _ _ hp n part e operand⟩
  · obtain ⟨q, hfind, hq⟩ := (Option.any_eq_true _ _).mp hawaited
    obtain ⟨⟨s, c⟩, hs, hv⟩ := (Option.any_eq_true _ _).mp hq
    have asked := Dialogue.asks_of_find? hfind
    have await := Query.awaits_of_awaited? hs
    exact ⟨q, asked, s, c, await, Stream.yields_of_isValue hv, awaits d leads q asked s c await⟩
  · have lacks : ∀ m ∈ program.statements, m.Lacks .cut := fun m hm =>
      Node.lacks_of_lacksDown (List.all_eq_true.mp hlacks m hm)
    obtain ⟨⟨hops, c'⟩, hrun, hlength⟩ := (Option.any_eq_true _ _).mp hruns
    have runs := Stream.runs_of_run? hrun
    obtain ⟨n, later, hss⟩ := List.exists_cons_of_ne_nil
      (show program.statements ≠ [] by simpa using hsome)
    rw [hss] at lacks runs
    exact ⟨n, later, hss, lacks, marker n (lacks n List.mem_cons_self), _, hops, c',
      eq_of_beq hlength, runs, (statements n later lacks).2 _ hops c' runs⟩

end Nondet
