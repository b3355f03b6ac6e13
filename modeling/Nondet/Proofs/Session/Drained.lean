import Nondet.Proofs.Pull.Rewinds
import Nondet.Proofs.Session.Asks
import Nondet.Proofs.Session.Names

/-!
# Session — Drained

What the next script can read of a script that has given all its solutions.  To find that there are
no more, the choices that are still open are left, and each goes back to its snapshot.  The one that
was made first is left last; so a name that the script declares keeps a value exactly if it had one
when that choice was made, or if no choice is open (`names_after_enumeration`).  A name that depends
on a choice is declared after it, and nothing is left of its value (`drained_script_hides_name`).
-/

namespace Nondet

open Nondet.Action

variable {l : Limits} {L : Ledger} {c c' : Context} {i : FrameId} {p : Prop} {name : String}

/-! ### Snapshots -/

/-- In the table of the frame that the snapshot remembers, the name has a value. -/
def Snapshot.Remembers (i : FrameId) (name : String) (snapshot : Snapshot) : Prop :=
  ∃ bs, (i, bs) ∈ snapshot.bindings ∧ bs.Holds name

/-- A snapshot of a context remembers what its frames held. -/
theorem Snapshot.remembers_iff {c₀ : Context} (hr : c₀.frames.InRange) (hi : i ∈ c₀.stack) :
    c₀.snapshot.Remembers i name ↔ (c₀.frames.bindings i).Holds name := by
  have found : i ∈ c₀.frames.reachable (c₀.global :: c₀.stack) :=
    (Frames.mem_reachable hr).mpr ⟨i, List.mem_cons_of_mem _ hi, .refl⟩
  constructor
  · rintro ⟨bs, hbs, h⟩
    obtain ⟨j, -, e⟩ := List.mem_map.mp hbs
    cases e
    exact h
  · exact fun h => ⟨_, List.mem_map.mpr ⟨i, found, rfl⟩, h⟩

/-- Going back to it brings back what it remembers. -/
theorem Snapshot.Of.restore {snapshot : Snapshot} (h : snapshot.Of i) (hi : i < c.frames.next) :
    ((c.restore snapshot).frames.bindings i).Holds name ↔ snapshot.Remembers i name := by
  obtain ⟨c₀, rfl, hr, hs⟩ := h
  rw [remembers_iff hr hs, Context.bindings_restore hr,
    if_pos ⟨⟨i, List.mem_cons_of_mem _ hs, .refl⟩, hi⟩]

/-- The record of one value. -/
def Ledger.one (i : FrameId) (name : String) : Ledger :=
  ⟨fun _ => False, fun j other => j = i ∧ other = name⟩

/-- A snapshot that remembers the value may go on the record. -/
theorem Snapshot.Settled.one {snapshot : Snapshot} {fs : Frames} (h : snapshot.Settled .blank fs)
    (of : snapshot.Of i) (hm : snapshot.Remembers i name) :
    snapshot.Settled (.one i name) fs := by
  obtain ⟨c₀, rfl, hr, hs⟩ := of
  rw [remembers_iff hr hs] at hm
  refine fun q hq => ⟨(h q hq).1, (h q hq).2.1, ?_⟩
  obtain ⟨j, -, rfl⟩ := List.mem_map.mp hq
  rintro other ⟨rfl, rfl⟩
  exact hm

section Choices

variable {fs : Frames}

mutual

/-- What all open choices go back to may go on the record. -/
theorem Stream.Settled.of_choices : ∀ {s : Stream}, s.Settled .blank fs →
    (∀ snapshot ∈ s.choices, snapshot.Settled .blank fs → snapshot.Settled L fs) → s.Settled L fs
  | .empty, _, _ | .once _, _, _ | .deferred _, _, _ | .node _, _, _ | .amb _, _, _
  | .block _, _, _ | .program _, _, _ | .call _ _ _ _, _, _ => trivial
  | .nested _ inner, h, hc => Stream.Settled.of_choices (s := inner) h hc
  | .map inner _, h, hc => Stream.Settled.of_choices (s := inner) h hc
  | .flatMap outer _, h, hc => Stream.Settled.of_choices (s := outer) h hc
  | .append _ _, h, hc => ⟨h.1.of_choices (List.forall_mem_append.mp hc).2,
      h.2.of_choices (List.forall_mem_append.mp hc).1⟩
  | .calls _ _ arguments, h, hc => Odometer.Settled.of_choices (o := arguments) h hc
  | .choice _ _ _, h, hc => ⟨(List.forall_mem_cons.mp hc).1 h.1,
      h.2.of_choices (List.forall_mem_cons.mp hc).2⟩
  | .sequence begun, h, hc => OpenStatements.Settled.of_choices begun h hc
  | .framed _ inner, h, hc => Stream.Settled.of_choices (s := inner) h hc
  | .activation _ inner, h, hc => Stream.Settled.of_choices (s := inner) h hc

theorem Odometer.Settled.of_choices : ∀ {o : Odometer}, o.Settled .blank fs →
    (∀ snapshot ∈ o.choices, snapshot.Settled .blank fs → snapshot.Settled L fs) → o.Settled L fs
  | .start _, _, _ => trivial
  | .turning begun _, h, hc => OpenArguments.Settled.of_choices begun h hc

theorem OpenArguments.Settled.of_choices : ∀ begun : OpenArguments, begun.Settled .blank fs →
    (∀ snapshot ∈ begun.choices, snapshot.Settled .blank fs → snapshot.Settled L fs) →
      begun.Settled L fs
  | .none, _, _ => trivial
  | .push _ _ _ begun, h, hc => ⟨h.1.of_choices (List.forall_mem_append.mp hc).2,
      OpenArguments.Settled.of_choices begun h.2 (List.forall_mem_append.mp hc).1⟩

theorem OpenStatements.Settled.of_choices : ∀ begun : OpenStatements, begun.Settled .blank fs →
    (∀ snapshot ∈ begun.choices, snapshot.Settled .blank fs → snapshot.Settled L fs) →
      begun.Settled L fs
  | .none, _, _ => trivial
  | .push _ _ begun, h, hc => ⟨h.1.of_choices (List.forall_mem_append.mp hc).2,
      OpenStatements.Settled.of_choices begun h.2 (List.forall_mem_append.mp hc).1⟩

end

end Choices

/-! ### Names of the last script -/

/-- The next script can read a name of the innermost frame exactly if it has a value there. -/
theorem Context.readable_iff_holds (hc : c.Fits .ordinary) (hlevel : c.Level)
    (hs : (c.frames.binding? c.current name).isSome) :
    c.Readable name ↔ (c.frames.bindings c.current).Holds name := by
  obtain ⟨b, hb⟩ := Option.isSome_iff_exists.mp hs
  have rule {ss : List Node} {c' : Context} (hn : name ∉ Node.declared ss)
      (hh : (hoist ss).on c.enterProgram = (.ok ⟨⟩, c')) :
      (∃ v, c'.frames.lookup c'.current name = .ok v) ↔
        (c.frames.bindings c.current).Holds name := by
    obtain ⟨outside, same, layered, longer⟩ :=
      Context.lookup_outside (L := .blank) hc hlevel hn hh
    obtain ⟨f, hf⟩ := Option.isSome_iff_exists.mp (Frames.get?_isSome.mpr hc.current)
    obtain ⟨bs, hf'⟩ := longer.tables hf
    have hb' : (c.frames.bindings c.current).get? name = some b := hb
    rw [outside, Frames.lookup_of_binding? hf' (same.trans hb), Bindings.Holds, hb']
    cases b <;> simp [Binding.read]
  have none : name ∉ Node.declared [] := by simp [Node.declared]
  exact ⟨fun h => (rule none rfl).mp (h [] _ none rfl), fun h ss c' hn hh => (rule hn hh).mpr h⟩

namespace Dialogue

/-- The frame is the script's own, all that is left of the script gave solutions, and the frame was
on the stack when its choices were made. -/
structure Rewinds (i : FrameId) (d : Dialogue) : Prop where
  fresh : d.begun = false → d.context.frames.next = i
  rest : ∀ s, d.begun = true → d.solutions = ⟨some s⟩ →
    d.context.stack.head? = some i ∧ s.Drawn False ∧ ∀ snapshot ∈ s.choices, snapshot.Of i

variable {d d' : Dialogue}

theorem Rewinds.asked (h : d.Rewinds i) (hd : d.Disciplined l) {span : Span} {s : Stream}
    (hin : d.Inside span s c) : (rewinds p i).stream s c ∧ c.stack.head? = some i := by
  cases hin with
  | script _ hb =>
      have hlevel : d.context.enterNested.Level := hd.level
      have stack : d.context.enterNested.enterProgram.stack = i :: d.context.stack :=
        h.fresh hb ▸ hlevel.enterProgram_stack
      refine ⟨⟨?_, trivial, List.forall_mem_nil _⟩, ?_⟩ <;> rw [stack]
      · exact List.mem_cons_self
      · rfl
  | rest hs hb =>
      obtain ⟨hi, drawn, of⟩ := h.rest (.nested span s) hb hs
      exact ⟨⟨List.mem_of_head? hi, Stream.Drawn.weaken (s := s) drawn, of⟩, hi⟩

theorem Rewinds.ask (hl : 1 ≤ l.maxNesting) (hf : d.Fits .ordinary) (hd : d.Disciplined l)
    (h : d.Rewinds i) {fuel : Nat} {answer : Answer} {rest : Solutions}
    (hn : d.solutions.next fuel d.context = some (answer, rest, c)) :
    (d.answered answer rest c).Rewinds i := by
  rcases hd.asks hl hf hn with ⟨-, -, e⟩ | ⟨span, s, c₀, r, hin, asked, ha, hr, e⟩
  · rw [e]
    exact h
  · obtain ⟨inside, head⟩ := h.asked (p := False) hd hin
    obtain ⟨⟨⟨-, disciplined⟩, -⟩, past⟩ :=
      (rewinds_kept l False i).gives ⟨⟨ha, False.elim⟩, inside⟩ hr
    rw [answered_eq_replied e]
    refine ⟨fun hb => Bool.noConfusion (show true = false from hb), fun s' _ hs => ?_⟩
    cases r with
    | yield outcome inner c' =>
        cases hs
        have stack : c'.stack = c₀.stack := disciplined.1.stack
        exact ⟨(congrArg List.head? stack).trans head, past.1, past.2.1⟩
    | finished c' => cases hs
    | failed failure c' => cases hs

theorem Rewinds.pulls (hl : 1 ≤ l.maxNesting) {answers : List Answer} (hp : d.Pulls answers d')
    (hf : d.Fits .ordinary) (hd : d.Disciplined l) (h : d.Rewinds i) : d'.Rewinds i := by
  induction hp with
  | nil d => exact h
  | cons first _ ih =>
      have step := Step.ask (R := .ordinary) first
      exact ih (hf.step Regime.ScriptFree.reads step) (hd.step hl hf step) (h.ask hl hf hd first)

theorem rest_of_value {solutions rest : Solutions} {fuel : Nat} {v : Value}
    (h : solutions.next fuel c = some (.value v, rest, c')) : ∃ s, rest = ⟨some s⟩ := by
  obtain ⟨_ | s⟩ := solutions
  · cases Solutions.next_none h
  · obtain ⟨r, -, e⟩ := Solutions.next_eq_some h
    cases r <;> cases e
    exact ⟨_, rfl⟩

/-- A script that has just given a solution is not at its end. -/
theorem Pulls.rest {found : List Value} (hv : found ≠ []) (h : d.Pulls (found.map .value) d') :
    d'.begun = true ∧ ∃ s, d'.solutions = ⟨some s⟩ := by
  induction found generalizing d with
  | nil => exact absurd rfl hv
  | cons v found ih =>
      cases h with
      | @cons _ _ _ _ rest c _ first later =>
          cases found with
          | cons w found => exact ih (List.cons_ne_nil w found) later
          | nil =>
              cases later
              exact ⟨rfl, rest_of_value first⟩

/-- The last request for solutions: what is inside the script's node has come to its end. -/
theorem Disciplined.ends (hl : 1 ≤ l.maxNesting) (hf : d.Fits .ordinary) (hd : d.Disciplined l)
    {s : Stream} (hs : d.solutions = ⟨some s⟩) (hb : d.begun = true) {fuel : Nat} {rest : Solutions}
    (hn : d.solutions.next fuel d.context = some (.none, rest, c)) :
    ∃ span inner c', s = .nested span inner ∧
      (Regime.ordinary.contract.and (discipline l)).stream inner d.context.enterNested ∧
      inner.Gives d.context.enterNested (.finished c') ∧ c = c'.leaveNested ∧
      c.stack = d.context.stack := by
  rcases hd.asks hl hf hn with ⟨hnone, -⟩ | ⟨span, inner, c₀, r, hin, asked, ha, hr, e⟩
  · cases hs.symm.trans hnone
  cases hin with
  | script _ hb' => cases hb.symm.trans hb'
  | rest hs' _ =>
      cases hs.symm.trans hs'
      have stack := ((discipline_kept l).gives ha hr).2.stack asked.level
      cases r with
      | finished c' =>
          cases e
          exact ⟨span, inner, c', rfl, ha, hr, rfl, stack⟩
      | yield outcome rest c' => cases e
      | failed failure c' => cases e

/-- Without a `cut` the last request goes back to where the first open choice was made. -/
theorem Rewinds.ends (hl : 1 ≤ l.maxNesting) (hf : d.Fits .ordinary) (hd : d.Disciplined l)
    (h : d.Rewinds i) {s : Stream} (hs : d.solutions = ⟨some s⟩) (hb : d.begun = true)
    (hi : i < c.frames.next) (held : (d.context.frames.bindings i).Holds name) {fuel : Nat}
    {rest : Solutions} (hn : d.solutions.next fuel d.context = some (.none, rest, c))
    (uncut : (Query.stream s d.context).Uncut) :
    (c.frames.bindings i).Holds name ↔
      ∀ snapshot ∈ s.choices.head?, snapshot.Remembers i name := by
  obtain ⟨span, inner, c', rfl, ha, hr, rfl, -⟩ := hd.ends hl hf hs hb hn
  obtain ⟨inside, -⟩ := h.asked (p := True) hd (.rest hs hb)
  have below := Query.asks_of_move (Stream.move_nested (hd.below hl) span inner)
  have uncut' : (Query.stream inner d.context.enterNested).Uncut :=
    fun s c hw => uncut s c (.head below hw)
  have past := ((rewinds_kept l True i).gives ⟨⟨ha, fun _ => uncut'⟩, inside⟩ hr).2
  obtain ⟨-, drawn, of⟩ := h.rest _ hb hs
  obtain ⟨back, stay⟩ := past trivial
  change (c'.frames.bindings i).Holds name ↔ ∀ snapshot ∈ inner.choices.head?, _
  cases hc : inner.choices.head? with
  | none =>
      rw [stay drawn hc]
      exact ⟨fun _ => nofun, fun _ => held⟩
  | some snapshot =>
      obtain ⟨c₁, e⟩ := back snapshot hc
      have hi : i < c₁.frames.next := by
        rw [← Context.Fits.restore_next c₁ snapshot, ← e]
        exact hi
      have of := of snapshot (List.mem_of_head? hc)
      rw [e, of.restore hi]
      simp

/-- A value that is there when every open choice is made is there in the end. -/
theorem Ordinary.ends (hl : 1 ≤ l.maxNesting) (h : d.Ordinary l) (hw : d.Rewinds i) {s : Stream}
    (hs : d.solutions = ⟨some s⟩) (hb : d.begun = true)
    (held : (d.context.frames.bindings i).Holds name)
    (all : ∀ snapshot ∈ s.choices, snapshot.Remembers i name) (step : Step .ordinary d d') :
    (d'.context.frames.bindings i).Holds name := by
  obtain ⟨-, -, of⟩ := hw.rest s hb hs
  have settled : s.Settled (.one i name) d.context.frames :=
    (h.tabled.rest s hb hs).of_choices fun snapshot hc settled =>
      settled.one (of snapshot hc) (all snapshot hc)
  have tabled : d.Tabled (.one i name) := by
    refine ⟨fun j other => ?_, h.tabled.root, fun s' _ hs' => ?_⟩
    · rintro ⟨rfl, rfl⟩
      exact held
    · cases hs.symm.trans hs'
      exact settled
  exact (tabled.step hl h.fits h.disciplined step).1.held i name ⟨rfl, rfl⟩

/-- The frame that a script gets lies in another, and goes on to do so. -/
theorem Ordinary.frame (hl : 1 ≤ l.maxNesting) (h : d.Ordinary l) (hb : d.begun = false)
    {answer : Answer} {answers : List Answer} (hp : d.Pulls (answer :: answers) d') :
    Ledger.blank.Fixed d'.context.frames d.context.frames.next := by
  cases hp with
  | @cons _ _ _ _ _ c _ first later =>
  have made : Ledger.blank.Fixed c.frames d.context.frames.next := by
    cases h.fits.solutions with
    | nothing _ hb' => cases hb.symm.trans hb'
    | rest _ hb' _ => cases hb.symm.trans hb'
    | script hs _ _ =>
        obtain ⟨-, ⟨f, hf', hp⟩, -⟩ :=
          h.tabled.begun hl h.fits h.disciplined (fun _ => id) hs hb first
        exact ⟨id, f, _, hf', hp⟩
  exact ((h.step hl (.ask first)).1.leads hl later.leads).2.fixed made

/-- When a script comes to its end, a later one can read a name of the script's frame exactly if the
frame holds a value for it. -/
theorem Ordinary.readable_iff (hl : 1 ≤ l.maxNesting) (h : d.Ordinary l) (hw : d.Rewinds i)
    (fixed : Ledger.blank.Fixed d.context.frames i)
    (held : (d.context.frames.bindings i).Holds name)
    {s : Stream} (hs : d.solutions = ⟨some s⟩) (hb : d.begun = true) {fuel : Nat} {rest : Solutions}
    (hn : d.solutions.next fuel d.context = some (.none, rest, c)) :
    c.Readable name ↔ (c.frames.bindings i).Holds name := by
  obtain ⟨later, longer⟩ := h.step hl (.ask hn)
  -- The last request leaves the frame where it is, with the names that it has.
  have current : c.current = i := by
    obtain ⟨outer, e⟩ := List.head?_eq_some_iff.mp (hw.rest s hb hs).1
    obtain ⟨-, -, -, -, -, -, -, stack⟩ := h.disciplined.ends hl h.fits hs hb hn
    rw [Context.current, stack, e]
    rfl
  have bound : (c.frames.binding? c.current name).isSome := by
    obtain ⟨v, m, hv⟩ := held
    rw [current]
    exact (longer.names fixed name).trans (congrArg Option.isSome hv)
  rw [← current]
  exact Context.readable_iff_holds later.fits.context later.disciplined.level bound

end Dialogue

/-- **What the next script can read of a script that has given all its solutions.**  Let a script
give solutions, one or more, and let the next request find no more.  Take a name to which the
script's own frame held a value at the last solution.  At the end a script that does not declare the
name can read it exactly if the frame still holds a value.  That is so if all choices that were open
at the last solution had been made when the name had a value already; and as long as no `cut` is
given on the last request it depends on the one of them that had been made first, and is so if there
is none. -/
theorem names_after_enumeration (options : SessionOptions) (host : Host) (hh : host.Fits .ordinary)
    {d₀ d d' : Dialogue} (h₀ : Dialogue.Leads .ordinary (.start options host) d₀)
    (fresh : d₀.begun = false) {found : List Value} (some : found ≠ [])
    (values : d₀.Pulls (found.map .value) d) (ended : d.Pulls [.none] d')
    (held : (d.context.frames.bindings d₀.context.frames.next).Holds name) :
    (d'.context.Readable name ↔
        (d'.context.frames.bindings d₀.context.frames.next).Holds name) ∧
      ∃ s, d.solutions = ⟨.some s⟩ ∧
        ((∀ snapshot ∈ s.choices, snapshot.Remembers d₀.context.frames.next name) →
          d'.context.Readable name) ∧
        ((Query.stream s d.context).Uncut → (d'.context.Readable name ↔
          ∀ snapshot ∈ s.choices.head?, snapshot.Remembers d₀.context.frames.next name)) := by
  obtain ⟨begun, s, hs⟩ := values.rest some
  obtain ⟨v, found, rfl⟩ := List.exists_cons_of_ne_nil some
  cases ended with
  | @cons _ _ _ _ rest c _ last done =>
  cases done
  by_cases hl : 1 ≤ options.limits.maxNesting
  · have ordinary₀ := ((Dialogue.ordinary_start options hh).leads hl h₀).1
    have ordinary := (ordinary₀.leads hl values.leads).1
    -- The frame of the script was made on the first request.
    have frame : d₀.Rewinds d₀.context.frames.next :=
      ⟨fun _ => rfl, fun s hb => nomatch fresh.symm.trans hb⟩
    have rewinds := frame.pulls hl values ordinary₀.fits ordinary₀.disciplined
    have fixed := ordinary₀.frame hl fresh values
    have step := Dialogue.Step.ask (R := .ordinary) last
    have there : d₀.context.frames.next < c.frames.next := by
      obtain ⟨-, f, -, hf, -⟩ := (ordinary.step hl step).2.fixed fixed
      exact Frames.lt_next hf
    have rule := ordinary.readable_iff hl rewinds fixed held hs begun last
    refine ⟨rule, s, hs, fun all => rule.mpr ?_, fun uncut => rule.trans ?_⟩
    · exact ordinary.ends hl rewinds hs begun held all step
    · exact rewinds.ends hl ordinary.fits ordinary.disciplined hs begun there held last uncut
  · -- Without any nesting no script gives a solution.
    have idle := (Dialogue.idle_start options host (by omega)).leads h₀
    cases values with
    | cons first _ =>
    obtain ⟨-, ⟨e, -⟩ | ⟨span, e, -⟩⟩ := idle.next first <;> cases e

/-! ### Two runs -/

namespace Dialogue

variable {d d' : Dialogue} {fuel : Nat}

/-- Asks for so many solutions, and gets them. -/
def solve? (d : Dialogue) (fuel : Nat) : Nat → Option (List Value × Dialogue)
  | 0         => some ([], d)
  | count + 1 =>
    (d.solutions.next fuel d.context).bind fun (answer, rest, c) =>
      answer.value?.bind fun v =>
        ((d.answered answer rest c).solve? fuel count).map fun (found, d) => (v :: found, d)

/-- Asks for a solution, and there is none. -/
def finish? (d : Dialogue) (fuel : Nat) : Option Dialogue :=
  (d.solutions.next fuel d.context).bind fun (answer, rest, c) =>
    if answer.value?.isNone && answer.failure?.isNone then some (d.answered answer rest c) else none

theorem pulls_of_solve? : ∀ {count : Nat} {d : Dialogue} {found : List Value},
    d.solve? fuel count = some (found, d') → d.Pulls (found.map .value) d'
  | 0, _, _, h => by
      cases h
      exact .nil _
  | count + 1, d, found, h => by
      obtain ⟨⟨answer, rest, c⟩, hn, h⟩ := Option.bind_eq_some_iff.mp h
      obtain ⟨v, hv, h⟩ := Option.bind_eq_some_iff.mp h
      obtain ⟨⟨found, d'⟩, ht, h⟩ := Option.map_eq_some_iff.mp h
      cases h
      cases answer <;> cases hv
      exact .cons hn (pulls_of_solve? ht)

theorem pulls_of_finish? (h : d.finish? fuel = some d') : d.Pulls [.none] d' := by
  obtain ⟨⟨answer, rest, c⟩, hn, h⟩ := Option.bind_eq_some_iff.mp h
  cases answer <;> cases h
  exact .cons hn (.nil _)

end Dialogue

/-- What is declared before the choices can be read when all solutions were given. -/
theorem names_after_enumeration_before :
    Prelude.host.Fits .ordinary ∧ ∃ (d₀ : Dialogue) (found : List Value) (d d' : Dialogue),
      Dialogue.Leads .ordinary (.start ⟨.standard, true⟩ Prelude.host) d₀ ∧ d₀.begun = false ∧
        found.length = 2 ∧ d₀.Pulls (found.map .value) d ∧ d.Pulls [.none] d' ∧
          d'.context.Readable "x" := by
  have hh : Prelude.host.Fits .ordinary :=
    Host.fits_of_asClosure? fun _ _ _ => Prelude.asClosure?_call
  have played : ((Dialogue.start ⟨.standard, true⟩ Prelude.host).run?
      "const x = true; amb(x, false);").any (fun d₀ => (d₀.solve? 30 2).any fun p =>
        p.1.length == 2 &&
          (p.2.context.frames.binding? d₀.context.frames.next "x").any (!·.isMutable) &&
          (p.2.finish? 30).any fun d' =>
            (d'.context.frames.binding? d₀.context.frames.next "x").any (!·.isMutable)) = true := by
    decide +kernel
  -- What is not mutable has a value.
  have holds {c : Context} {i : FrameId} (h : (c.frames.binding? i "x").any (!·.isMutable) = true) :
      (c.frames.bindings i).Holds "x" := by
    obtain ⟨b, hb, constant⟩ := (Option.any_eq_true _ _).mp h
    cases b with
    | unassigned => cases constant
    | assigned v m => exact ⟨v, m, hb⟩
  obtain ⟨d₀, hd₀, played⟩ := (Option.any_eq_true _ _).mp played
  obtain ⟨⟨found, d⟩, hd, played⟩ := (Option.any_eq_true _ _).mp played
  obtain ⟨played, finished⟩ := Bool.and_eq_true_iff.mp played
  obtain ⟨two, before⟩ := Bool.and_eq_true_iff.mp played
  obtain ⟨d', hd', after⟩ := (Option.any_eq_true _ _).mp finished
  have h₀ : Dialogue.Leads .ordinary (.start ⟨.standard, true⟩ Prelude.host) d₀ :=
    .single (Dialogue.step_of_run? hd₀)
  have fresh := (Dialogue.solutions_of_run? hd₀).1
  have values := Dialogue.pulls_of_solve? hd
  have ended := Dialogue.pulls_of_finish? hd'
  have two : found.length = 2 := eq_of_beq two
  have some : found ≠ [] := List.ne_nil_of_length_eq_add_one two
  exact ⟨hh, d₀, found, d, d', h₀, fresh, two, values, ended,
    (names_after_enumeration ⟨.standard, true⟩ Prelude.host hh h₀ fresh some values ended
      (holds before)).1.mpr (holds after)⟩

/-- What is declared by a choice has no value when all solutions were given, and later scripts
cannot read it. -/
theorem drained_script_hides_name :
    ∃ s₁ s₂, (Session.start ⟨.standard, true⟩ Prelude.host).take 40 40
          "let x = amb(true, false); x;" = some (.ok [.bool true, .bool false], s₁) ∧
      s₁.take 40 1 "x;" =
        some (.error (.ofFailure (.mistake (.unassigned "x") ⟨0, 1⟩) "x;"), s₂) := by
  have run : (Trial.bools? ((Session.start ⟨.standard, true⟩ Prelude.host).take 40 40
      "let x = amb(true, false); x;")).any (fun p => p.1 == [true, false] &&
        (Trial.error? (p.2.take 40 1 "x;")).any
          (·.1 == .ofFailure (.mistake (.unassigned "x") ⟨0, 1⟩) "x;")) = true := by decide +kernel
  obtain ⟨⟨bs, s₁⟩, h₁, run⟩ := (Option.any_eq_true _ _).mp run
  obtain ⟨hbs, run⟩ := Bool.and_eq_true_iff.mp run
  obtain ⟨⟨e, s₂⟩, h₂, he⟩ := (Option.any_eq_true _ _).mp run
  obtain rfl : bs = [true, false] := eq_of_beq hbs
  obtain rfl := eq_of_beq he
  have drained := Trial.of_bools? h₁
  exact ⟨s₁, s₂, drained, Trial.of_error? h₂⟩

end Nondet
