import Nondet.Session
import Nondet.Proofs.Direct.Performs
import Nondet.Proofs.Grammar.Quoted

/-!
# Session — Stringify

Running the text of a string.  The prelude gives a string its text in quotes, which with a semicolon
behind it is a script of one literal; such a script has one solution, the literal
(`Stream.Performs.script`).  It is the string itself unless a character of it is written by its number.
-/

namespace Nondet

open Nondet.Action

variable {l : Limits} {k : Nat} {c c' : Context} {v : Value}

namespace Stream.Performs

/-- What performs a value has this one solution. -/
theorem ends {n : Node} {outcome : Outcome} (hc' : c'.At l k)
    (h : (evaluate n).Performs l k c (.ok outcome, c')) :
    (Solutions.of n).Ends c [outcome.toValue] .none c' := by
  obtain ⟨rest, gives, spent⟩ := h.gives_ok
  obtain ⟨_, first⟩ := Solutions.next_of_gives gives
  obtain ⟨_, last⟩ := Solutions.next_of_gives (spent c' hc')
  exact .more first (.stop last nofun)

/-- A statement that declares nothing, by itself in a frame. -/
theorem statement {n : Node} (hd : n.declaredName? = none)
    (h : (evaluate n).Performs l k c (.ok (.value v), c')) :
    (Stream.body [n]).Performs l k c (.ok (.value v), c') := by
  have hoisted : (hoist [n]).on c = (.ok (), c) := by
    simp only [hoist, hd]
    rfl
  obtain ⟨rest, gives, spent⟩ := h.gives_ok
  have begun : (Stream.ofStatements [n]).Performs l k c (.ok (.value v), c') :=
    .afterStream gives (.yields (spent.sequence .noStatements []))
  rw [Stream.Performs, Stream.move, hoisted]
  exact begun.asked

/-- A script of one statement that declares nothing. -/
theorem script {n : Node} (span : Span) (hc : c.At l k) (hk : k < l.maxNesting)
    (hd : n.declaredName? = none)
    (h : (evaluate n).Performs l (k + 1) c.enterNested.enterProgram (.ok (.value v), c')) :
    (evaluate (.program span [n])).Performs l k c (.ok (.value v), c'.leaveNested) :=
  Stream.Performs.node (a := fun _ => (.ok (.value v), c')) hc hk (h.statement hd).asked

/-- A literal as a statement. -/
theorem literalStatement (span inner : Span) (value : Literal) (hc : c.At l k)
    (hk : k < l.maxNesting) :
    (evaluate (.expressionStatement span (.literal inner value))).Performs l k c
      (.ok (.value value.value), c) :=
  Stream.Performs.node (a := pure (.value value.value)) hc hk (.once _)

end Stream.Performs

/-- A script of one literal, up to spans. -/
theorem Node.script_of_spanless {program : Node} {value : Literal}
    (h : program.spanless = .program .zero [.expressionStatement .zero (.literal .zero value)]) :
    ∃ outer span inner, program = .program outer [.expressionStatement span (.literal inner value)] := by
  cases program with
  | program outer statements =>
      rw [spanless_program] at h
      obtain ⟨statement, rfl, like⟩ := List.map_eq_singleton_iff.mp (Node.program.inj h).2
      cases statement with
      | expressionStatement span expression =>
          cases expression with
          | literal inner value' =>
              cases like
              exact ⟨outer, span, inner, rfl⟩
          | _ => cases like
      | _ => cases like
  | _ => cases h

/-- **The text of a string, run as a script.**  The native gives the string in quotes; with a
semicolon behind it that is a script, and the script has one solution.  The solution is the string
just when no character of the string is written by its number.  That holds for every class of
characters that are written so, and the prelude has one such native. -/
theorem stringify_reads_back (session : Session) (s : String)
    (room : session.context.nesting + 2 ≤ session.context.limits.maxNesting) :
    Prelude.host.call "stringify" [.string s] =
        Prelude.stringifyWith Text.isHidden [.string s] ∧
    ∀ hidden : Char → Bool, ∃ text program c',
      Prelude.stringifyWith hidden [.string s] = .ok (.string text) ∧
      Grammar.parse (text ++ ";") = .ok program ∧
      (Solutions.of program).Ends session.context [.string (Text.readBack hidden s)] .none c' ∧
      (∃ enough, ∀ fuel ≥ enough, session.all fuel (text ++ ";") =
        some (.ok [.string (Text.readBack hidden s)], ⟨c'⟩)) ∧
      (Text.readBack hidden s = s ↔ ∀ x ∈ s.toList, Text.isNumbered hidden x = false) := by
  refine ⟨rfl, fun hidden => ?_⟩
  obtain ⟨program, parsed, like⟩ := Grammar.parse_quoteWith hidden s
  obtain ⟨outer, span, inner, rfl⟩ := Node.script_of_spanless like
  have level : session.context.At session.context.limits session.context.nesting := ⟨rfl, rfl⟩
  have entered : session.context.enterNested.enterProgram.At session.context.limits
      (session.context.nesting + 1) := ⟨rfl, rfl⟩
  have value := Stream.Performs.literalStatement span inner (.string (Text.readBack hidden s))
    entered room
  have script := Stream.Performs.script outer level (Nat.lt_of_succ_lt room) rfl value
  have ends := script.ends ⟨rfl, rfl⟩
  exact ⟨Text.quoteWith hidden s, _, _, rfl, parsed, ends,
    session.all_of_ends (Session.run_of_parse parsed) ends, Text.readBack_eq_iff⟩

/-- An accent is written by its number, and comes back as the letters of the number. -/
theorem stringify_reads_back_accent :
    let session := Session.start ⟨.standard, true⟩ Prelude.host
    Text.readBack Text.isHidden "e\u0301" = "eu\x7b301\x7d" ∧
    Text.readBack Text.isHidden "e\u0301" ≠ "e\u0301" ∧
    ∃ text program c', Prelude.host.call "stringify" [.string "e\u0301"] = .ok (.string text) ∧
      Grammar.parse (text ++ ";") = .ok program ∧
      (Solutions.of program).Ends session.context [.string "eu\x7b301\x7d"] .none c' ∧
      ∃ enough, ∀ fuel ≥ enough, session.all fuel (text ++ ";") =
        some (.ok [.string "eu\x7b301\x7d"], ⟨c'⟩) := by
  intro session
  have read : Text.readBack Text.isHidden "e\u0301" = "eu\x7b301\x7d" := by decide +kernel
  obtain ⟨native, every⟩ := stringify_reads_back session "e\u0301" (by decide)
  obtain ⟨text, program, c', told, parsed, ends, all, same⟩ := every Text.isHidden
  rw [read] at ends all
  exact ⟨read, by rw [read]; decide, text, program, c', native.trans told, parsed, ends, all⟩

end Nondet
