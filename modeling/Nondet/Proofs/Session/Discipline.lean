import Nondet.Proofs.Native.Prelude
import Nondet.Proofs.Pull.Place
import Nondet.Proofs.Session.Dialogue

/-!
# Session — Discipline

What a session looks like between two requests, whatever it was asked: no node is being evaluated,
the stack holds the outer frames and nothing else, one for each script that was begun and the global
one, and the failures on record are those that were answered (`session_discipline`).  During a
request the same discipline holds of every node: it leaves the stack and the nesting as it found
them, and a failure cuts the stack down to the outer frames.

A script inside a function would leave its frame on the stack wherever the function is called.  None
is read from a source, but a host can build one, so what hosts define is assumed to be free of them
(`Regime.scriptFree`); `scripts_in_functions` shows that this is needed.
-/

namespace Nondet

variable {R : Regime} {l : Limits} {c c' : Context}

/-! ### Requests -/

/-- Whether asking the stream begins a script. -/
def Stream.isScript : Stream → Bool
  | .node n               => n.isProgram
  | .nested _ inner       => inner.isScript
  | .program _            => true
  | _                     => false

/-- The stack on which a stream runs: a script adds its own frame. -/
def Stream.stackIn (s : Stream) (c : Context) : List FrameId :=
  if s.isScript then c.frames.next :: c.stack else c.stack

/-- How many frames of it a failure leaves. -/
def Stream.outerIn (s : Stream) (c : Context) : Nat := if s.isScript then c.outer + 1 else c.outer

/-- The stack that is left: the whole of it, or the outer frames after a failure. -/
def Stream.stackLeft (s : Stream) (c : Context) : Reply Stream Outcome → List FrameId
  | .yield _ _ _ | .finished _ => s.stackIn c
  | .failed _ _                => (s.stackIn c).drop ((s.stackIn c).length - s.outerIn c)

/-- A request leaves the nesting as it was, and its stack or the outer frames of it. -/
structure Stream.Balanced (s : Stream) (c : Context) (r : Reply Stream Outcome) : Prop where
  nesting : r.context.nesting = c.nesting
  outer : r.context.outer = s.outerIn c
  stack : r.context.stack = s.stackLeft c r

/-- What is placed inside a script begins none. -/
theorem Stream.isScript_of_placed [R.ScriptFree] {p : Place} {n : Nat} :
    ∀ {s : Stream}, s.Fits R n → s.Placed p → s.isScript = false
  | .node n, hf, _ => (Regime.ScriptFree.node_iff n).mp hf.self
  | .nested _ inner, hf, hp => isScript_of_placed (s := inner) hf hp
  | .program _, _, hp => absurd hp id
  | .empty, _, _ | .once _, _, _ | .deferred _, _, _ | .map _ _, _, _ | .flatMap _ _, _, _
  | .append _ _, _, _ | .calls _ _ _, _, _ | .amb _, _, _ | .choice _ _ _, _, _ | .block _, _, _
  | .body _, _, _ | .sequence _, _, _ | .framed _ _, _, _ | .call _ _ _ _, _, _
  | .activation _ _, _, _ => rfl

namespace Stream.Balanced

variable {s : Stream} {r : Reply Stream Outcome}

/-- A disciplined request that begins no script is balanced. -/
theorem of_disciplined (hs : s.isScript = false) (h : c.Disciplined Stream.Placed r) :
    s.Balanced c r := by
  have hstack : s.stackIn c = c.stack := by simp [stackIn, hs]
  have houter : s.outerIn c = c.outer := by simp [outerIn, hs]
  cases r with
  | yield outcome s' c' =>
      exact ⟨h.1.nesting, h.1.outer.trans houter.symm, h.1.stack.trans hstack.symm⟩
  | finished c' => exact ⟨h.nesting, h.outer.trans houter.symm, h.stack.trans hstack.symm⟩
  | failed failure c' =>
      refine ⟨h.nesting, h.outer.trans houter.symm, ?_⟩
      rw [stackLeft, hstack, houter]
      exact h.stack

/-- A node that was begun is balanced when what is inside is. -/
theorem leaving (h : s.Balanced c.enterNested r) (span : Span) :
    (Stream.nested span s).Balanced c (r.leaving span) := by
  have hn := h.nesting
  refine ⟨?_, ?_, ?_⟩
  · rw [Reply.context_leaving, Context.leaveNested]
    simp only [hn]
    rfl
  · rw [Reply.context_leaving]
    exact h.outer
  · rw [Reply.context_leaving]
    cases r <;> exact h.stack

end Stream.Balanced

/-! ### Scripts -/

/-- A context between two requests: the stack holds the outer frames and nothing else. -/
def Context.Level (c : Context) : Prop := c.depth = c.outer

namespace Context.Level

theorem truncate (h : c.Level) : c.truncate = c := by
  have e : c.stack.length - c.outer = 0 := by
    rw [← h, Context.depth, Nat.sub_self]
  rw [Context.truncate, e, List.drop_zero]

theorem alike (h : c.Level) (ha : c.Alike c') : c'.Level := by
  rw [Level, ha.depth, ha.outer]
  exact h

theorem enterProgram_stack (h : c.Level) : c.enterProgram.stack = c.frames.next :: c.stack := by
  rw [Context.enterProgram]
  rw [h.truncate]
  rfl

theorem enterProgram_frames (h : c.Level) :
    c.enterProgram.frames = c.frames.push (.child "program" c.current) := by
  rw [Context.enterProgram]
  rw [h.truncate]
  rfl

theorem enterProgram_outer (h : c.Level) : c.enterProgram.outer = c.outer + 1 := by
  rw [Context.enterProgram]
  rw [h.truncate, ← h]
  rfl

theorem enterProgram (h : c.Level) : c.enterProgram.Level := by
  rw [Level, Context.depth, h.enterProgram_stack, h.enterProgram_outer, ← h]
  rfl

end Context.Level

/-- A script is balanced when its statements are disciplined in its frame. -/
theorem Stream.Balanced.script (h : c.Level) {ss : List Node} {r : Reply Stream Outcome}
    (hr : c.enterProgram.Disciplined Stream.Placed r) : (Stream.program ss).Balanced c r := by
  have hstack : (Stream.program ss).stackIn c = c.enterProgram.stack := h.enterProgram_stack.symm
  have houter : (Stream.program ss).outerIn c = c.enterProgram.outer := h.enterProgram_outer.symm
  have hb := Stream.Balanced.of_disciplined (s := .body ss) rfl hr
  refine ⟨hb.nesting, hb.outer.trans houter.symm, ?_⟩
  rw [hb.stack]
  cases r <;> simp only [stackLeft, hstack, houter] <;> rfl

/-! ### Dialogues -/

/-- Scripts hold no scripts. -/
theorem Regime.ScriptFree.reads [R.ScriptFree] : R.Reads := by
  intro source n h
  obtain ⟨span, ss, rfl, hss⟩ := Grammar.parse_program h
  exact fun m hm k hk => (node_iff k).mpr (hss m hm k hk)

theorem Regime.scriptFree_reads : Regime.scriptFree.Reads := ScriptFree.reads

namespace Dialogue

/-- What a session looks like between two requests under the limits `l`. -/
structure Disciplined (l : Limits) (d : Dialogue) : Prop where
  nesting : d.context.nesting = 0
  level : d.context.Level
  outer : d.context.outer = 1 + d.started
  failures : d.context.failures = d.failures
  limits : d.context.limits = l
  solutions : d.Left (fun _ => True) fun s =>
    ∃ span inner, s = .nested span inner ∧ inner.Placed d.context.place

/-- A request inside one node, in a context that counts the script that is being asked. -/
structure Asked (l : Limits) (d : Dialogue) (c : Context) : Prop where
  nesting : c.nesting = 1
  level : c.Level
  outer : c.outer = 1 + if d.begun then d.started else d.started + 1
  failures : c.failures = d.failures
  limits : c.limits = l

variable {d d' : Dialogue}

/-- A disciplined reply inside the script's node leaves a disciplined dialogue. -/
theorem Asked.replied (h : Asked l d c) {r : Reply Stream Outcome}
    (hr : c.Disciplined Stream.Placed r) (span : Span) :
    (d.replied (r.leaving span)).Disciplined l := by
  have hn (c' : Context) (e : c'.nesting = c.nesting) : c'.leaveNested.nesting = 0 := by
    simp only [Context.leaveNested, e, h.nesting, Nat.sub_self]
  cases r with
  | yield outcome s c' =>
      obtain ⟨ha, hs⟩ := hr
      -- Leaving the script's node changes no place, so the rest is where it was.
      have hplace : c'.leaveNested.place = c.place := ha.place
      have hlevel : c'.Level := h.level.alike ha
      refine ⟨hn c' ha.nesting, hlevel, ha.outer.trans h.outer, ?_, ha.limits.trans h.limits,
        .rest rfl rfl ⟨span, s, rfl, hplace ▸ hs⟩⟩
      exact (ha.failures.trans h.failures).trans (List.append_nil _).symm
  | finished c' =>
      have ha : c.Alike c' := hr
      have hlevel : c'.Level := h.level.alike ha
      refine ⟨hn c' ha.nesting, hlevel, ha.outer.trans h.outer, ?_, ha.limits.trans h.limits,
        .nothing rfl rfl⟩
      exact (ha.failures.trans h.failures).trans (List.append_nil _).symm
  | failed failure c' =>
      -- There is nothing above the outer frames that the failure could cut off.
      have ha : (c.raised failure).Alike c' := hr
      have hcut : (c.raised failure).Level := by
        change c.truncate.Level
        rw [h.level.truncate]
        exact h.level
      have hlevel : c'.Level := hcut.alike ha
      refine ⟨hn c' ha.nesting, hlevel, ha.outer.trans h.outer, ?_, ha.limits.trans h.limits,
        .nothing rfl rfl⟩
      exact ha.failures.trans (congrArg (· ++ [failure]) h.failures)

/-- The statements of a script are asked in its frame. -/
theorem Disciplined.asked_script (h : d.Disciplined l) (hb : d.begun = false) :
    Asked l d d.context.enterNested.enterProgram := by
  have hlevel : d.context.enterNested.Level := h.level
  refine ⟨?_, hlevel.enterProgram, ?_, h.failures, h.limits⟩
  · exact congrArg (· + 1) h.nesting
  · rw [hlevel.enterProgram_outer, hb]
    exact congrArg (· + 1) h.outer

/-- What is left of a script is asked where it was left. -/
theorem Disciplined.asked_rest (h : d.Disciplined l) (hb : d.begun = true) :
    Asked l d d.context.enterNested := by
  refine ⟨congrArg (· + 1) h.nesting, h.level, ?_, h.failures, h.limits⟩
  rw [hb]
  exact h.outer

/-- What is left of a script that was begun is inside the script's node. -/
theorem Disciplined.rest (h : d.Disciplined l) {s : Stream} (hs : d.solutions = ⟨some s⟩)
    (hb : d.begun = true) :
    ∃ span inner, s = .nested span inner ∧ inner.Placed d.context.place := h.solutions.of_rest hs hb

/-- What a request asks is a script that was not begun, or what is left inside the node of one. -/
theorem Disciplined.running (h : d.Disciplined l) {run : Stream}
    (hrun : d.solutions.stream = some run) :
    (∃ span ss, d.solutions = .of (.program span ss) ∧ d.begun = false ∧
      run = evaluate (.program span ss)) ∨
    ∃ span inner, d.solutions = ⟨some (.nested span inner)⟩ ∧ d.begun = true ∧
      run = .nested span inner ∧ inner.Placed d.context.place := by
  have hsol : d.solutions = ⟨some run⟩ := by rw [← hrun]
  cases h.solutions with
  | nothing hnone _ => cases hsol.symm.trans hnone
  | script hscript hb _ =>
      cases hsol.symm.trans hscript
      exact .inl ⟨_, _, hscript, hb, rfl⟩
  | rest hrest hb hs =>
      cases hsol.symm.trans hrest
      obtain ⟨span, inner, rfl, placed⟩ := hs
      exact .inr ⟨span, inner, hsol, hb, rfl, placed⟩

/-- Between two requests any stream may be asked. -/
theorem Disciplined.ready (h : d.Disciplined l) : d.context.Ready l :=
  ⟨Nat.le_of_eq h.level.symm, h.nesting ▸ Nat.zero_le _, h.limits⟩

/-- The script's node may be entered. -/
theorem Disciplined.below (h : d.Disciplined l) (hl : 1 ≤ l.maxNesting) :
    d.context.nesting < d.context.limits.maxNesting := by
  rw [h.nesting, h.limits]
  exact hl

theorem Asked.ready (h : Asked l d c) (hl : 1 ≤ l.maxNesting) : c.Ready l :=
  ⟨Nat.le_of_eq h.level.symm, h.nesting ▸ hl, h.limits⟩

/-- A request that the discipline allows is disciplined, and so are all that it makes. -/
theorem allowed {s : Stream} (hc : c.Fits R)
    (hs : s.Fits R c.frames.next) (hp : s.Placed c.place) (hr : c.Ready l) :
    (R.contract.and (discipline l)).stream s c :=
  ⟨⟨hc, hs⟩, hp, hr⟩

/-- What a request asks inside the script's node: the statements of the script in its new frame, or
what is left of the script. -/
inductive Inside (d : Dialogue) : Span → Stream → Context → Prop
  | script {span ss} (h : d.solutions = .of (.program span ss)) (hb : d.begun = false) :
      Inside d span (.body ss) d.context.enterNested.enterProgram
  | rest {span inner} (h : d.solutions = ⟨some (.nested span inner)⟩) (hb : d.begun = true) :
      Inside d span inner d.context.enterNested

/-- The discipline allows to ask what is asked inside the script's node. -/
theorem Disciplined.inside (hl : 1 ≤ l.maxNesting) (hf : d.Fits R) (h : d.Disciplined l)
    {span : Span} {s : Stream} (hin : d.Inside span s c) :
    Asked l d c ∧ (R.contract.and (discipline l)).stream s c := by
  cases hin with
  | script hsol hb =>
      -- The first request enters the script.
      have asked := h.asked_script hb
      exact ⟨asked, allowed (Context.Fits.enterProgram hf.context.deeper)
        (hf.solutions.of_script hsol hb) trivial (asked.ready hl)⟩
  | rest hsol hb =>
      -- A later one goes on inside the script's node.
      obtain ⟨_, _, e, placed⟩ := h.rest hsol hb
      cases e
      have fits : (Stream.nested span s).Fits R d.context.frames.next :=
        hf.solutions.of_rest hsol hb
      have asked := h.asked_rest hb
      exact ⟨asked, allowed (s := s) hf.context.deeper fits placed (asked.ready hl)⟩

/-- A request finds nothing left, or its answer is a reply of what is asked inside the script's
node, and the discipline allows to ask that. -/
theorem Disciplined.asks (hl : 1 ≤ l.maxNesting) (hf : d.Fits R) (h : d.Disciplined l) {fuel : Nat}
    {answer : Answer} {rest : Solutions} {c' : Context}
    (hn : d.solutions.next fuel d.context = some (answer, rest, c')) :
    (d.solutions = ⟨none⟩ ∧ (answer, rest, c') = (.none, ⟨none⟩, d.context) ∧
        d.answered answer rest c' = d) ∨
      ∃ span s c r, d.Inside span s c ∧ Asked l d c ∧
        (R.contract.and (discipline l)).stream s c ∧ s.Gives c r ∧
        (answer, rest, c') = Solutions.answer (r.leaving span) := by
  have below := h.below hl
  cases hf.solutions with
  | nothing hsol hb =>
      rw [hsol] at hn
      cases Solutions.next_none hn
      obtain ⟨⟨_⟩, _, _, _, _⟩ := d
      obtain rfl := hsol
      obtain rfl := hb
      exact .inl ⟨rfl, rfl, by simp [answered, Answer.failure?, context]⟩
  | @script span ss hsol hb _ =>
      rw [hsol] at hn
      obtain ⟨r, hr, e⟩ := Solutions.next_eq_some hn
      obtain ⟨r', hr', rfl⟩ := (Stream.gives_program below).mp hr
      have inside := Inside.script hsol hb
      obtain ⟨asked, ha⟩ := h.inside hl hf inside
      exact .inr ⟨span, _, _, r', inside, asked, ha, hr', e⟩
  | rest hsol hb _ =>
      obtain ⟨span, inner, rfl, -⟩ := h.rest hsol hb
      have hn' := hn
      rw [hsol] at hn'
      obtain ⟨r, hr, e⟩ := Solutions.next_eq_some hn'
      obtain ⟨r', hr', rfl⟩ := (Stream.gives_nested below).mp hr
      have inside := Inside.rest hsol hb
      obtain ⟨asked, ha⟩ := h.inside hl hf inside
      exact .inr ⟨span, _, _, r', inside, asked, ha, hr', e⟩

theorem Disciplined.step [R.ScriptFree] (hl : 1 ≤ l.maxNesting) (hf : d.Fits R) (h : d.Disciplined l)
    (hs : Step R d d') : d'.Disciplined l := by
  cases hs with
  | define name hv =>
      refine ⟨h.nesting, h.level, h.outer, h.failures, h.limits, ?_⟩
      cases h.solutions with
      | nothing h hb => exact .nothing h hb
      | script h hb hss => exact .script h hb hss
      | rest h hb hs => exact .rest h hb hs
  | run hr =>
      obtain ⟨program, hp, rfl⟩ := Session.run_eq_ok hr
      obtain ⟨span, ss, rfl, -⟩ := Grammar.parse_program hp
      exact ⟨h.nesting, h.level, h.outer, h.failures, h.limits, .script rfl rfl trivial⟩
  | ask hn =>
      rcases h.asks hl hf hn with ⟨-, -, e⟩ | ⟨span, s, c, r, -, asked, ha, hr, e⟩
      · rw [e]
        exact h
      · rw [answered_eq_replied e]
        exact asked.replied ((discipline_kept l).gives ha hr).2 span

theorem Disciplined.leads [R.ScriptFree] (hl : 1 ≤ l.maxNesting) (hf : d.Fits R) (h : d.Disciplined l)
    (hs : Leads R d d') : d'.Disciplined l := by
  induction hs with
  | refl => exact h
  | tail hs hlast ih => exact ih.step hl (hf.leads Regime.ScriptFree.reads hs) hlast

theorem disciplined_start (options : SessionOptions) (host : Host) :
    (start options host).Disciplined options.limits := by
  have hstart : (Context.empty options.limits host).Alike (start options host).context :=
    Session.start_alike options host
  have hlevel : (Context.empty options.limits host).Level := rfl
  exact ⟨hstart.nesting, hlevel.alike hstart, hstart.outer, hstart.failures, hstart.limits,
    .nothing rfl rfl⟩

/-- What the discipline says of everything that is asked on the way. -/
theorem balanced_of_allowed [R.ScriptFree] {s : Stream}
    (h : (R.contract.and (discipline l)).Allows (.stream s c)) :
    c.nesting ≤ l.maxNesting ∧ ∀ r, s.Gives c r → s.Balanced c r := by
  obtain ⟨⟨-, hs⟩, hp, hr⟩ := id h
  exact ⟨hr.nesting, fun r hg => .of_disciplined (Stream.isScript_of_placed hs hp)
    ((discipline_kept l).gives h hg).2⟩

/-- Whatever is asked during a request is balanced, the script's own node included. -/
theorem Disciplined.within [R.ScriptFree] (hl : 1 ≤ l.maxNesting) (hf : d.Fits R) (h : d.Disciplined l)
    {run s : Stream} (hrun : d.solutions.stream = some run)
    (hw : (Query.stream run d.context).Within (.stream s c)) :
    c.nesting ≤ l.maxNesting ∧ ∀ r, s.Gives c r → s.Balanced c r := by
  have below := h.below hl
  rcases h.running hrun with ⟨span, ss, hsol, hb, rfl⟩ | ⟨span, inner, hsol, hb, rfl, hp⟩
  · obtain ⟨-, ha⟩ := h.inside hl hf (.script hsol hb)
    -- The node and the script inside it add a frame, so the discipline does not speak of them.
    have inner : ∀ r, (Stream.program ss).Gives d.context.enterNested r →
        (Stream.program ss).Balanced d.context.enterNested r := by
      intro r hr
      rw [Stream.gives_iff] at hr
      exact .script (c := d.context.enterNested) h.level
        ((discipline_kept l).gives ha (Move.leads_asked.mp hr)).2
    have outer : ∀ r, (Stream.nested span (.program ss)).Gives d.context r →
        (Stream.nested span (.program ss)).Balanced d.context r := by
      intro r hr
      obtain ⟨r', hr', rfl⟩ := (Stream.gives_nested below).mp hr
      exact (inner r' hr').leaving span
    rcases Query.within_program below hw with e | e | e | hw
    · cases e
      refine ⟨h.ready.nesting, fun r hr => ?_⟩
      obtain ⟨hn, ho, hs⟩ := outer r (Stream.gives_node.mp hr)
      exact ⟨hn, ho, hs.trans (by cases r <;> rfl)⟩
    · cases e
      exact ⟨h.ready.nesting, outer⟩
    · cases e
      exact ⟨Nat.le_trans (Nat.le_of_eq (congrArg (· + 1) h.nesting)) hl, inner⟩
    · exact balanced_of_allowed ((discipline_kept l).within hw ha)
  · have fits : (Stream.nested span inner).Fits R d.context.frames.next :=
      hf.solutions.of_rest hsol hb
    have ha := allowed (s := .nested span inner) hf.context fits hp h.ready
    exact balanced_of_allowed ((discipline_kept l).within hw ha)

end Dialogue

/-- **The discipline of requests over whole sessions.**  Whatever a host does with a session, after
every request, and at any other time between two requests, no node is being evaluated, the stack
holds the outer frames and nothing else, there is one of them for each script that was begun and one
for all, and the failures on record are those that were answered.  Within a request every stream
leaves the nesting as it was, and its stack, or after a failure the outer frames of it; the nesting
never exceeds its limit. -/
theorem session_discipline (options : SessionOptions) (host : Host)
    (hl : 1 ≤ options.limits.maxNesting) (hh : host.Fits .scriptFree) {d : Dialogue}
    (hd : Dialogue.Leads .scriptFree (.start options host) d) :
    d.context.nesting = 0 ∧ d.context.depth = d.context.outer ∧ d.context.outer = 1 + d.started ∧
      d.context.failures = d.failures ∧
      ∀ run s c, d.solutions.stream = some run →
        (Query.stream run d.context).Within (.stream s c) →
          c.nesting ≤ options.limits.maxNesting ∧ ∀ r, s.Gives c r → s.Balanced c r := by
  have hstart : (Dialogue.start options host).Fits .scriptFree := Dialogue.fits_start options hh
  have hf := hstart.leads Regime.scriptFree_reads hd
  have h := (Dialogue.disciplined_start options host).leads hl hstart hd
  exact ⟨h.nesting, h.level, h.outer, h.failures, fun run s c hrun hw => h.within hl hf hrun hw⟩

/-- The discipline of a session whose only script fails at once. -/
theorem session_discipline_failed_script :
    1 ≤ Limits.standard.maxNesting ∧ Prelude.host.Fits .scriptFree ∧
      ∃ d, Dialogue.Leads .scriptFree (.start ⟨.standard, true⟩ Prelude.host) d ∧
        d.failures.length = 1 ∧ d.context.failures = d.failures ∧ d.context.depth = 2 := by
  have hl : 1 ≤ Limits.standard.maxNesting := by decide
  have hh : Prelude.host.Fits .scriptFree :=
    Host.fits_of_asClosure? fun _ _ _ => Prelude.asClosure?_call
  have played : ((Dialogue.start ⟨.standard, true⟩ Prelude.host).play? "x;" 20).any
      (fun d => d.started == 1 && d.failures.length == 1) = true := by decide +kernel
  obtain ⟨d, hd, hp⟩ := (Option.any_eq_true _ _).mp played
  obtain ⟨hs, hf⟩ := Bool.and_eq_true_iff.mp hp
  have leads := Dialogue.leads_of_play? (R := .scriptFree) hd
  obtain ⟨-, hdepth, houter, hfailures, -⟩ :=
    session_discipline ⟨.standard, true⟩ Prelude.host hl hh leads
  exact ⟨hl, hh, d, leads, eq_of_beq hf, hfailures, by rw [hdepth, houter, eq_of_beq hs]⟩

/-- A function that a host builds around a script leaves the script's frame behind when it is
called: the stack grows by a frame that belongs to no script that was begun. -/
theorem scripts_in_functions :
    ¬ ∀ d, Dialogue.Leads .any (.start ⟨.standard, false⟩ Prelude.host) d →
        d.context.depth = d.context.outer ∧ d.context.outer = 1 + d.started := by
  intro h
  -- A function that a host builds may have a script for its body; none that is read has.
  let f : Value := .aroundScript
  let d₀ : Dialogue := .start ⟨.standard, false⟩ Prelude.host
  let d₁ : Dialogue := { d₀ with session := d₀.session.define "f" f }
  have hf : f.Fits .any d₀.context.frames.next := ⟨fun _ _ => trivial, trivial⟩
  have defined : Dialogue.Step .any d₀ d₁ := .define "f" hf
  have played : (d₁.play? "f();" 30).any
      (fun d => d.started == 1 && d.context.outer == 3) = true := by decide +kernel
  obtain ⟨d, hd, hp⟩ := (Option.any_eq_true _ _).mp played
  obtain ⟨hs, ho⟩ := Bool.and_eq_true_iff.mp hp
  obtain ⟨-, houter⟩ := h d (.head defined (Dialogue.leads_of_play? hd))
  rw [eq_of_beq ho, eq_of_beq hs] at houter
  cases houter

end Nondet
