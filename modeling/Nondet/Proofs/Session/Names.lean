import Nondet.Proofs.Pull.Names
import Nondet.Proofs.Session.Discipline

/-!
# Session — Names

What a script leaves of the names that were declared before it.
-/

namespace Nondet

open Nondet.Action

variable {l : Limits} {L : Ledger} {c c' : Context}

/-- A script is evaluated in a new frame. -/
theorem Context.current_enterProgram (c : Context) : c.enterProgram.current = c.frames.next := rfl

/-- A disciplined request leaves the global frame the same. -/
theorem Context.Disciplined.global {σ α : Type} {placed : Place → σ → Prop} {r : Reply σ α}
    (h : c.Disciplined placed r) : r.context.global = c.global := by
  cases r with
  | yield _ _ _ => exact h.1.global
  | finished _ => exact Context.Alike.global h
  | failed failure _ => exact Context.Alike.global (c := c.raised failure) h

theorem Context.Disciplined.host {σ α : Type} {placed : Place → σ → Prop} {r : Reply σ α}
    (h : c.Disciplined placed r) : r.context.host = c.host := by
  cases r with
  | yield _ _ _ => exact h.1.host
  | finished _ => exact Context.Alike.host h
  | failed failure _ => exact Context.Alike.host (c := c.raised failure) h

/-- With nothing above the outer frames, a disciplined request leaves the stack the same. -/
theorem Context.Disciplined.stack {σ α : Type} {placed : Place → σ → Prop} {r : Reply σ α}
    (h : c.Disciplined placed r) (hc : c.Level) : r.context.stack = c.stack := by
  cases r with
  | yield _ _ _ => exact h.1.stack
  | finished _ => exact Context.Alike.stack h
  | failed failure _ =>
      have cut : c.truncate.stack = c.stack := congrArg Context.stack hc.truncate
      exact (Context.Alike.stack (c := c.raised failure) h).trans cut

namespace Dialogue

/-- The tables that a session has between two requests. -/
structure Tabled (L : Ledger) (d : Dialogue) : Prop where
  held : d.context.frames.Holds L
  /-- The global frame lies in no other. -/
  root : ∀ f, d.context.frames.get? d.context.global = some f → f.parent = none
  rest : ∀ s, d.begun = true → d.solutions = ⟨some s⟩ → s.Settled L d.context.frames

variable {d d' : Dialogue}

theorem context_replied (d : Dialogue) (r : Reply Stream Outcome) :
    (d.replied r).context = r.context := by
  cases r <;> rfl

/-- A dialogue after a reply that extended the frames. -/
theorem Tabled.replied (h : d.Tabled L) (hf : d.Fits .ordinary) {r : Reply Stream Outcome}
    (hg : r.context.global = d.context.global)
    (hr : d.context.frames.Leaves L (fun fs s => s.Settled L fs) r) (span : Span) :
    (d.replied (r.leaving span)).Tabled L ∧
      d.context.frames.Extends L (d.replied (r.leaving span)).context.frames := by
  obtain ⟨he, hy⟩ := hr
  have hcontext : (d.replied (r.leaving span)).context = r.context.leaveNested :=
    (context_replied d _).trans (Reply.context_leaving span r)
  rw [hcontext]
  refine ⟨⟨hcontext ▸ he.held h.held, fun f hf' => ?_, fun s _ hs => ?_⟩, he⟩
  · rw [hcontext] at hf'
    have hf' : r.context.frames.get? r.context.global = some f := hf'
    rw [hg] at hf'
    -- The global frame was there before.
    obtain ⟨f₀, hf₀⟩ := Option.isSome_iff_exists.mp (Frames.get?_isSome.mpr hf.context.global)
    obtain ⟨bs, hf₁⟩ := he.tables hf₀
    rw [hf₁] at hf'
    cases hf'
    exact h.root f₀ hf₀
  · cases r with
    | yield outcome rest c =>
        cases hs
        exact hy outcome rest c rfl
    | finished c => cases hs
    | failed failure c => cases hs

/-- Defining a constant adds to the global frame, and changes no other. -/
theorem Tabled.define (h : d.Tabled L) (name : String) (v : Value) :
    d.context.frames.Extends L (d.context.defineGlobal name v).frames :=
  .assigned (fun ⟨_, f, _, hf, hp⟩ => nomatch (h.root f hf).symm.trans hp) v false

/-- What is asked inside the script's node finds tables in order. -/
theorem Tabled.asked (h : d.Tabled L) (hd : d.Disciplined l) {span : Span} {s : Stream}
    (hin : d.Inside span s c) : (tables L).stream s c := by
  cases hin with
  | script =>
      have hlevel : d.context.enterNested.Level := hd.level
      have hframes := hlevel.enterProgram_frames
      exact ⟨hframes ▸ (Frames.Extends.push L d.context.frames _).held h.held, .inr rfl⟩
  | rest hs hb => exact ⟨h.held, .inl (h.rest (.nested span s) hb hs)⟩

theorem Tabled.step (hl : 1 ≤ l.maxNesting) (hf : d.Fits .ordinary) (hd : d.Disciplined l)
    (h : d.Tabled L) (hs : Step .ordinary d d') :
    d'.Tabled L ∧ d.context.frames.Extends L d'.context.frames := by
  cases hs with
  | @define name v hv =>
      have he := h.define name v
      refine ⟨⟨he.held h.held, fun f hf' => ?_, fun s hb hs => (h.rest s hb hs).mono he⟩, he⟩
      obtain ⟨f₀, hf₀⟩ := Option.isSome_iff_exists.mp (Frames.get?_isSome.mpr hf.context.global)
      obtain ⟨bs, hf₁⟩ := he.tables hf₀
      cases hf₁.symm.trans hf'
      exact h.root f₀ hf₀
  | run hr => exact ⟨⟨h.held, h.root, fun s hb => nomatch hb⟩, .refl L _⟩
  | ask hn =>
      rcases hd.asks hl hf hn with ⟨-, -, e⟩ | ⟨span, s, c, r, hin, -, ha, hr, e⟩
      · rw [e]
        exact ⟨h, .refl L _⟩
      · rw [answered_eq_replied e]
        obtain ⟨⟨-, hd'⟩, he, hy⟩ := (requests_kept l L).gives ⟨ha, h.asked hd hin⟩ hr
        cases hin with
        | @script ss hsol hb =>
            -- The script's frame is new, so what is hoisted in it is no concern of the others.
            have hopen : (Stream.body ss).opening? d.context.enterNested.enterProgram =
                some d.context.frames.next := rfl
            rw [hopen] at he
            exact h.replied hf hd'.global ⟨Frames.Extends.of_push he, hy⟩ span
        | rest hsol hb =>
            have hs : s.Settled L d.context.frames := h.rest (.nested span s) hb hsol
            rw [hs.opening?] at he
            exact h.replied hf hd'.global ⟨he, hy⟩ span

theorem Tabled.leads (hl : 1 ≤ l.maxNesting) (hf : d.Fits .ordinary) (hd : d.Disciplined l)
    (h : d.Tabled L) (hs : Leads .ordinary d d') :
    d'.Tabled L ∧ d.context.frames.Extends L d'.context.frames := by
  induction hs with
  | refl => exact ⟨h, .refl L _⟩
  | tail hs hlast ih =>
      obtain ⟨h', he⟩ := ih
      have step := h'.step hl (hf.leads Regime.ScriptFree.reads hs) (hd.leads hl hf hs) hlast
      exact ⟨step.1, he.trans step.2⟩

theorem tabled_start (options : SessionOptions) (host : Host) :
    (start options host).Tabled .blank := by
  have root : ∀ f, (Session.start options host).context.frames.get?
      (Session.start options host).context.global = some f → f.parent = none := by
    refine Session.start_induction
      (P := fun c => ∀ f, c.frames.get? c.global = some f → f.parent = none) options host
      (fun f hf => ?_) fun c name hc f hf => ?_
    · cases hf
      rfl
    · have hf : (c.frames.set c.global name (.assigned (.native name) false)).get? c.global =
          some f := hf
      rw [Frames.get?_set, if_pos rfl] at hf
      obtain ⟨f₀, hf₀, rfl⟩ := Option.map_eq_some_iff.mp hf
      exact hc f₀ hf₀
  exact ⟨fun _ _ h => absurd h id, root, fun _ _ hs => nomatch hs⟩

/-- What holds of every session with an ordinary host that is under the limits `l`. -/
structure Ordinary (l : Limits) (d : Dialogue) : Prop where
  fits : d.Fits .ordinary
  disciplined : d.Disciplined l
  tabled : d.Tabled .blank

theorem ordinary_start (options : SessionOptions) {host : Host} (hh : host.Fits .ordinary) :
    (start options host).Ordinary options.limits :=
  ⟨fits_start options hh, disciplined_start options host, tabled_start options host⟩

theorem Ordinary.step (hl : 1 ≤ l.maxNesting) (h : d.Ordinary l) (hs : Step .ordinary d d') :
    d'.Ordinary l ∧ d.context.frames.Extends .blank d'.context.frames :=
  have ⟨tabled, longer⟩ := h.tabled.step hl h.fits h.disciplined hs
  ⟨⟨h.fits.step Regime.ScriptFree.reads hs, h.disciplined.step hl h.fits hs, tabled⟩, longer⟩

theorem Ordinary.leads (hl : 1 ≤ l.maxNesting) (h : d.Ordinary l) (hs : Leads .ordinary d d') :
    d'.Ordinary l ∧ d.context.frames.Extends .blank d'.context.frames :=
  have ⟨tabled, longer⟩ := h.tabled.leads hl h.fits h.disciplined hs
  ⟨⟨h.fits.leads Regime.ScriptFree.reads hs, h.disciplined.leads hl h.fits hs, tabled⟩, longer⟩

/-- What is asked inside the script's node may be asked. -/
theorem Ordinary.asked (hl : 1 ≤ l.maxNesting) (h : d.Ordinary l) {span : Span} {s : Stream}
    (hin : d.Inside span s c) : (requests l .blank).stream s c :=
  ⟨(h.disciplined.inside hl h.fits hin).2, h.tabled.asked h.disciplined hin⟩

/-! ### The stack -/

/-- A request leaves the stack as it was, but for the frame of a script that it begins. -/
theorem Disciplined.stack_step (hl : 1 ≤ l.maxNesting) (hf : d.Fits .ordinary)
    (h : d.Disciplined l) (hs : Step .ordinary d d') :
    ∃ new, d'.context.stack = new ++ d.context.stack := by
  cases hs with
  | define name hv => exact ⟨[], rfl⟩
  | run hr => exact ⟨[], rfl⟩
  | ask hn =>
      rcases h.asks hl hf hn with ⟨-, -, e⟩ | ⟨span, s, c, r, hin, asked, ha, hr, e⟩
      · rw [e]
        exact ⟨[], rfl⟩
      · have same := ((discipline_kept l).gives ha hr).2.stack asked.level
        rw [answered_eq_replied e, context_replied, Reply.context_leaving]
        cases hin with
        | script => exact ⟨[d.context.frames.next], same.trans (Context.Level.enterProgram_stack
            (c := d.context.enterNested) h.level)⟩
        | rest => exact ⟨[], same⟩

theorem Disciplined.stack_leads (hl : 1 ≤ l.maxNesting) (hf : d.Fits .ordinary)
    (h : d.Disciplined l) (hs : Leads .ordinary d d') :
    ∃ new, d'.context.stack = new ++ d.context.stack := by
  induction hs with
  | refl => exact ⟨[], rfl⟩
  | tail hs hlast ih =>
      obtain ⟨new, e⟩ := ih
      obtain ⟨new', e'⟩ := (h.leads hl hf hs).stack_step hl (hf.leads Regime.ScriptFree.reads hs) hlast
      exact ⟨new' ++ new, by rw [e', e, List.append_assoc]⟩

end Dialogue

/-! ### Names that were declared before -/

/-- The next script that does not declare the name can read it when its statements begin. -/
def Context.Readable (c : Context) (name : String) : Prop := ∀ ss c', name ∉ Node.declared ss →
  (hoist ss).on c.enterProgram = (.ok ⟨⟩, c') → ∃ v, c'.frames.lookup c'.current name = .ok v

/-- In a frame around which a name can be read, it can be read unless the frame has it without a
value. -/
theorem Frames.Layered.lookup_ok_iff {fs : Frames} (h : fs.Layered) {i p : FrameId} {f : Frame}
    (hf : fs.get? i = some f) (hp : f.parent = some p) {name : String}
    (hv : ∃ v, fs.lookup p name = .ok v) :
    (∃ v, fs.lookup i name = .ok v) ↔ fs.binding? i name ≠ some .unassigned := by
  cases hb : fs.binding? i name with
  | none => simpa [h.lookup_eq hf hb, hp] using hv
  | some b => cases b <;> simp [lookup_of_binding? hf hb, Binding.read]

section Readable

variable (hc : c.Fits .ordinary) (hlevel : c.Level) {name : String}

include hc hlevel

/-- A script that has hoisted its own names looks for another name where the frame is that it lies
in, and it finds that frame as it was. -/
theorem Context.lookup_outside {ss : List Node} (hn : name ∉ Node.declared ss)
    (h : (hoist ss).on c.enterProgram = (.ok ⟨⟩, c')) :
    c'.frames.lookup c'.current name = c'.frames.lookup c.current name ∧
      c'.frames.binding? c.current name = c.frames.binding? c.current name ∧
      c'.frames.Layered ∧ c.frames.Extends L c'.frames := by
  let i := c.frames.next
  have hframes := hlevel.enterProgram_frames
  have hcurrent : c.enterProgram.current = i := c.current_enterProgram
  have hlt : c.current < i := hc.current
  have hnew : i < c.enterProgram.frames.next := by
    rw [hframes, Frames.next_push]
    exact Nat.lt_succ_self i
  have alike := Action.Steady.hoist ss c.enterProgram
  have layered := (Action.Keeps.hoist ss hc.enterProgram).1.layered
  have longer := extends_hoist (L := L.loosen i) ss c.enterProgram (.inr hcurrent)
  have names := (names_hoist ss c.enterProgram (hcurrent ▸ hnew) name).1
  have others := bindings_hoist ss c.enterProgram (hcurrent ▸ Nat.ne_of_lt hlt)
  rw [h] at alike layered longer names others
  rw [hcurrent, hframes] at names
  rw [hframes] at longer others
  rw [Context.Alike.current alike, hcurrent]
  -- The script's own frame is new and does not have the name.
  obtain ⟨bs, hown⟩ := longer.tables (by rw [Frames.get?_push, if_pos rfl])
  have absent : c'.frames.binding? i name = none := by
    rw [← Option.not_isSome_iff_eq_none]
    intro hs
    rcases names hs with hs | hs
    · rw [Frames.binding?, Frames.bindings_push, if_pos rfl] at hs
      cases hs
    · exact hn hs
  refine ⟨layered.lookup_eq hown absent, ?_, layered, longer.of_push⟩
  rw [Frames.binding?, others, Frames.bindings_push, if_neg (Nat.ne_of_lt hlt), Frames.binding?]

variable {f : Frame} {p : FrameId} (hf : c.frames.get? c.current = some f) (hp : f.parent = some p)
  (hv : ∀ fs, c.frames.Extends L fs → fs.Layered → ∃ v, fs.lookup p name = .ok v)

include hf hp hv

/-- A script that has hoisted its own names reads another name through the frame that it lies in. -/
theorem Context.lookup_hoisted {ss : List Node} (hn : name ∉ Node.declared ss)
    (h : (hoist ss).on c.enterProgram = (.ok ⟨⟩, c')) :
    (∃ v, c'.frames.lookup c'.current name = .ok v) ↔
      c.frames.binding? c.current name ≠ some .unassigned := by
  obtain ⟨outside, same, layered, longer⟩ := Context.lookup_outside (L := L) hc hlevel hn h
  obtain ⟨bs, hf'⟩ := longer.tables hf
  rw [outside, ← same]
  exact layered.lookup_ok_iff hf' hp (hv _ longer layered)

/-- When a script begins, the frame that it lies in keeps its names and their values. -/
theorem Context.readable_iff :
    c.Readable name ↔ c.frames.binding? c.current name ≠ some .unassigned := by
  have rule {ss : List Node} {c' : Context} (hn : name ∉ Node.declared ss)
      (hh : (hoist ss).on c.enterProgram = (.ok ⟨⟩, c')) :=
    Context.lookup_hoisted hc hlevel hf hp hv hn hh
  -- A script without statements can read the name only if the frame lets it.
  have none : name ∉ Node.declared [] := by simp [Node.declared]
  exact ⟨fun h => (rule none rfl).mp (h [] _ none rfl), fun h ss c' hn hh => (rule hn hh).mpr h⟩

end Readable

/-- Statements that are run in a frame give it no names but those that they declare. -/
theorem Stream.names_of_body {ss : List Node} {r : Reply Stream Outcome}
    (ha : (requests l L).stream (.body ss) c)
    (hi : L.Fixed c.frames c.current) (hr : (Stream.body ss).Gives c r) {name : String}
    (hn : (r.context.frames.binding? c.current name).isSome) :
    (c.frames.binding? c.current name).isSome ∨ name ∈ Node.declared ss := by
  have meets := (requests_kept l L).stream _ _ ha
  have names := (names_hoist ss c ha.1.1.1.current name).1
  have alike := Action.Steady.hoist ss c
  have longer := extends_hoist (L := L.loosen c.current) ss c (.inr rfl)
  rw [Stream.gives_iff] at hr
  simp only [Stream.move] at meets hr
  rcases hx : (hoist ss).on c with ⟨failure | _, c'⟩ <;> rw [hx] at names alike longer <;>
    simp only [hx] at meets hr
  · obtain rfl : r = .failed failure c' := hr
    exact names hn
  · -- After hoisting the frame has all its names.
    obtain ⟨-, he, -⟩ := (requests_kept l L).gives meets.1 (Move.leads_asked.mp hr)
    have settled : (Stream.ofStatements ss).Settled L c'.frames := (Stream.made_ofStatements ss).settled
    rw [settled.opening?] at he
    obtain ⟨hl, f, p, hf, hp⟩ := hi
    obtain ⟨bs, hf'⟩ := longer.tables hf
    rw [Frames.binding?, he.names ⟨hl, _, p, hf', hp⟩ name] at hn
    exact names hn

namespace Dialogue

variable {d d' : Dialogue}

/-- After the first request for a script, its frame lies on the stack and in the frame that was
innermost before, and has no names but those that the script declares. -/
theorem Tabled.begun (hl : 1 ≤ l.maxNesting) (hf : d.Fits .ordinary) (hd : d.Disciplined l)
    (h : d.Tabled L) (hL : ∀ i, ¬ L.loose i) {span : Span} {ss : List Node}
    (hs : d.solutions = .of (.program span ss)) (hb : d.begun = false) {fuel : Nat} {answer : Answer}
    {rest : Solutions} {c : Context} (hn : d.solutions.next fuel d.context = some (answer, rest, c)) :
    c.stack = d.context.frames.next :: d.context.stack ∧
      (∃ f, c.frames.get? d.context.frames.next = some f ∧ f.parent = some d.context.current) ∧
      ∀ name, (c.frames.binding? d.context.frames.next name).isSome → name ∈ Node.declared ss := by
  rcases hd.asks hl hf hn with ⟨hnone, -⟩ | ⟨span', s, c₀, r, hin, asked, ha, hr, e⟩
  · rw [hs] at hnone
    cases hnone
  obtain rfl : c = r.context.leaveNested := by
    have hc : (d.answered answer rest c).context = _ := congrArg context (answered_eq_replied e)
    rw [context_replied, Reply.context_leaving] at hc
    exact hc
  cases hin with
  | rest _ hb' =>
      rw [hb] at hb'
      cases hb'
  | script hs' _ =>
      rw [hs] at hs'
      cases hs'
      -- The frame of the script is the one that was added last, and nothing is in it.
      let i := d.context.frames.next
      let frame : Frame := .child "program" d.context.current
      have hlevel : d.context.enterNested.Level := hd.level
      have hframes : d.context.enterNested.enterProgram.frames = d.context.frames.push frame :=
        hlevel.enterProgram_frames
      have hi : (d.context.frames.push frame).get? i = some frame := by
        rw [Frames.get?_push, if_pos rfl]
      have ha' := And.intro ha (h.asked hd (.script hs hb))
      obtain ⟨⟨-, hd'⟩, he, -⟩ := (requests_kept l L).gives ha' hr
      refine ⟨(hd'.stack asked.level).trans hlevel.enterProgram_stack, ?_, fun name hn => ?_⟩
      · rw [hframes] at he
        obtain ⟨bs, hi'⟩ := he.tables hi
        exact ⟨_, hi', rfl⟩
      · have fixed : L.Fixed d.context.enterNested.enterProgram.frames i :=
          ⟨hL i, frame, _, hframes ▸ hi, rfl⟩
        refine (Stream.names_of_body ha' fixed hr hn).resolve_left ?_
        rw [hframes, Context.current_enterProgram, Frames.binding?, Frames.bindings_push,
          if_pos (show d.context.enterNested.frames.next = d.context.frames.next from rfl)]
        exact Bool.false_ne_true

end Dialogue

/-- **What a script leaves of the names that were declared before it.**  Let a name be readable in a
session when a script is asked for the first time, and take any later moment before another script
is begun: the script may have given solutions, ended or failed, wherever it was.  Then a script that
comes next and does not declare the name can read it exactly if the first script's own frame does not
hold the name without a value.  So nothing is lost that the script does not declare itself.  A text
that cannot be read as a script leaves the session as it was.

The script's own frame is the current one at that moment: it was put on the stack when the script was
begun and counted among the outer frames, every request ends with the stack cut down to those, and no
other script has put a frame on it since. -/
theorem names_after_script (options : SessionOptions) (host : Host)
    (hl : 1 ≤ options.limits.maxNesting) (hh : host.Fits .ordinary) {d₀ d : Dialogue}
    (h₀ : Dialogue.Leads .ordinary (.start options host) d₀) {span : Span} {ss : List Node}
    (run : d₀.solutions = .of (.program span ss)) (fresh : d₀.begun = false) {fuel : Nat}
    {answer : Answer} {rest : Solutions} {c : Context}
    (first : d₀.solutions.next fuel d₀.context = some (answer, rest, c))
    (later : Dialogue.Leads .ordinary (d₀.answered answer rest c) d)
    (only : d.started = d₀.started + 1) {name : String} {v : Value}
    (known : d₀.context.frames.lookup d₀.context.current name = .ok v) :
    (d.context.Readable name ↔
        d.context.frames.binding? d.context.current name ≠ some .unassigned) ∧
      (name ∉ Node.declared ss → d.context.Readable name) ∧
      ∀ source e, Session.run source = .error e → ∀ fuel count,
        d₀.session.take fuel count source = some (.error e, d₀.session) := by
  have reads : Regime.ordinary.Reads := Regime.ScriptFree.reads
  have start : (Dialogue.start options host).Fits .ordinary := Dialogue.fits_start options hh
  have fits₀ := start.leads reads h₀
  have disc₀ := (Dialogue.disciplined_start options host).leads hl start h₀
  have root := ((Dialogue.tabled_start options host).leads hl start
    (Dialogue.disciplined_start options host) h₀).1.root
  -- All values that names have before the script are put on record.
  let L : Ledger := ⟨fun _ => False, fun i name => (d₀.context.frames.bindings i).Holds name⟩
  have loose (i : FrameId) : ¬ L.loose i := id
  have held : d₀.context.frames.Holds L := fun _ _ h => h
  have tabled₀ : d₀.Tabled L := ⟨held, root, fun s hb => nomatch fresh.symm.trans hb⟩
  obtain ⟨hstack, ⟨f, hf, hp⟩, hnames⟩ := tabled₀.begun hl fits₀ disc₀ loose run fresh first
  have step : Dialogue.Step .ordinary d₀ (d₀.answered answer rest c) := .ask first
  obtain ⟨tabled₁, longer₁⟩ := tabled₀.step hl fits₀ disc₀ step
  have fits₁ := fits₀.step reads step
  have disc₁ := disc₀.step hl fits₀ step
  obtain ⟨-, longer⟩ := tabled₁.leads hl fits₁ disc₁ later
  have fits := fits₁.leads reads later
  have disc := disc₁.leads hl fits₁ later
  -- Since no other script was begun, the script's frame is still the innermost one.
  have current : d.context.current = d₀.context.frames.next := by
    obtain ⟨new, e⟩ := disc₁.stack_leads hl fits₁ later
    have depth := congrArg List.length e
    rw [List.length_append, ← Context.depth, ← Context.depth, disc.level, disc₁.level, disc.outer,
      disc₁.outer, only, Dialogue.answered, fresh] at depth
    obtain rfl : new = [] := List.eq_nil_of_length_eq_zero (by simpa using depth)
    rw [Context.current, e]
    exact congrArg (·.headD d.context.global) hstack
  obtain ⟨bs, hf'⟩ := longer.tables hf
  rw [← current] at hf'
  have rule : d.context.Readable name ↔
      d.context.frames.binding? d.context.current name ≠ some .unassigned := by
    refine Context.readable_iff (L := L) fits.context disc.level hf' hp ?_
    intro fs he layered
    have all := (longer₁.trans longer).trans he
    exact all.lookup fits₀.context.layered layered loose (all.held held) _ known
  refine ⟨rule, fun hn => rule.mpr fun hb => hn (hnames name ?_), fun source e hr fuel count => ?_⟩
  · refine (longer.names ⟨loose _, f, _, hf, hp⟩ name).symm.trans ?_
    rw [← current]
    exact Option.isSome_iff_exists.mpr ⟨_, hb⟩
  · unfold Session.take
    rw [hr]

/-- What a failed script leaves of a name that it does not declare. -/
theorem names_after_script_undeclared :
    1 ≤ Limits.standard.maxNesting ∧ Prelude.host.Fits .ordinary ∧
      ∃ d, Dialogue.Leads .ordinary (.start ⟨.standard, true⟩ Prelude.host) d ∧
        d.failures.length = 1 ∧ d.context.Readable "x" := by
  have hl : 1 ≤ Limits.standard.maxNesting := by decide
  have hh : Prelude.host.Fits .ordinary :=
    Host.fits_of_asClosure? fun _ _ _ => Prelude.asClosure?_call
  have undeclared : (Grammar.parse "let y = nope;").toOption.any
      (fun program => !(Node.declared program.statements).contains "x") = true := by decide +kernel
  have played : ((Dialogue.start ⟨.standard, true⟩ Prelude.host).play? "let x = true;" 20).any
      (fun d => (d.run? "let y = nope;").any fun d₀ =>
        (d₀.context.frames.lookup d₀.context.current "x").toOption.any (fun _ => true) &&
          (d₀.ask? 20).any fun d => d.failures.length == 1 && d.started == d₀.started + 1) = true := by
    decide +kernel
  obtain ⟨d₁, hd₁, played⟩ := (Option.any_eq_true _ _).mp played
  obtain ⟨d₀, hd₀, played⟩ := (Option.any_eq_true _ _).mp played
  obtain ⟨known, asked⟩ := Bool.and_eq_true_iff.mp played
  obtain ⟨v, hv, -⟩ := Trial.exists_of_any known
  obtain ⟨d, hd, counts⟩ := (Option.any_eq_true _ _).mp asked
  obtain ⟨failed, only⟩ := Bool.and_eq_true_iff.mp counts
  obtain ⟨span, ss, hp, run, fresh⟩ := Dialogue.script_of_run? hd₀
  have h₀ : Dialogue.Leads .ordinary (.start ⟨.standard, true⟩ Prelude.host) d₀ :=
    (Dialogue.leads_of_play? hd₁).tail (Dialogue.step_of_run? hd₀)
  obtain ⟨⟨answer, rest, c⟩, first, rfl⟩ := Option.map_eq_some_iff.mp hd
  have rule := names_after_script ⟨.standard, true⟩ Prelude.host hl hh h₀ run fresh first .refl
    (eq_of_beq only) hv
  have hn : "x" ∉ Node.declared ss := by
    rw [hp] at undeclared
    simpa [Except.toOption, Node.statements] using undeclared
  exact ⟨hl, hh, _, h₀.tail (.ask first), eq_of_beq failed, rule.2.1 hn⟩

/-- A script that declares the name again and fails before it gives it a value hides it from all
later scripts. -/
theorem failed_script_hides_name :
    ∃ s₁ s₂ s₃ e, (Session.start ⟨.standard, true⟩ Prelude.host).take 40 1 "let x = true;" =
        some (.ok [.bool true], s₁) ∧
      s₁.take 40 1 "let x = nope;" = some (.error e, s₂) ∧
      s₂.take 40 1 "x;" =
        some (.error (.ofFailure (.mistake (.unassigned "x") ⟨0, 1⟩) "x;"), s₃) := by
  have run : (Trial.bools? ((Session.start ⟨.standard, true⟩ Prelude.host).take 40 1
      "let x = true;")).any (fun p => p.1 == [true] &&
        (Trial.error? (p.2.take 40 1 "let x = nope;")).any fun q =>
          (Trial.error? (q.2.take 40 1 "x;")).any
            (·.1 == .ofFailure (.mistake (.unassigned "x") ⟨0, 1⟩) "x;")) = true := by decide +kernel
  obtain ⟨⟨bs, s₁⟩, h₁, run⟩ := (Option.any_eq_true _ _).mp run
  obtain ⟨hbs, run⟩ := Bool.and_eq_true_iff.mp run
  obtain ⟨⟨e, s₂⟩, h₂, run⟩ := (Option.any_eq_true _ _).mp run
  obtain ⟨⟨e', s₃⟩, h₃, he⟩ := (Option.any_eq_true _ _).mp run
  obtain rfl : bs = [true] := eq_of_beq hbs
  obtain rfl := eq_of_beq he
  have declared := Trial.of_bools? h₁
  exact ⟨s₁, s₂, s₃, e, declared, Trial.of_error? h₂, Trial.of_error? h₃⟩

end Nondet
