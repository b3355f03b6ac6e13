import Nondet.Proofs.Pull.Ground
import Nondet.Proofs.Rollback
import Nondet.Proofs.Session.Asks
import Nondet.Proofs.Session.Names

/-!
# Session — Closed

A closed script does not depend on the session.  A script that names nothing outside itself may be
run in a session with no natives and nothing declared, with more room than it needs: there it is
alone.  Whatever session it is run in, what is left of it there echoes what is left of it alone,
request by request (`Dialogue.Echoes.next`), until the session runs into a limit; so the answers of
the session are those of the script alone, with frames and closures renamed
(`Dialogue.Echoes.pulls`).  Two sessions are compared by way of the script alone, and then nothing
is to be seen of either (`closed_script_independent`).

The script alone is never the session that anybody runs: its limits are larger than those of both
sessions, so that limits are met in the sessions only.
-/

namespace Nondet

variable {G : Ground} {l : Limits} {c : Context} {fuel : Nat}

/-! ### The ground of a session -/

/-- What a session has when a script begins. -/
def Context.ground (c : Context) : Ground := ⟨c.frames, c.truncate.stack, c.global⟩

/-- In a session where no frame is referred to before it exists, scripts have sound ground. -/
theorem Context.Fits.sound (h : c.Fits .inRange) : c.ground.Sound :=
  ⟨h.frames.layered fun _ _ => Iff.rfl, h.inRange, h.truncate.stack, h.global⟩

/-- The context of a script alone, when its statements are asked, and that of the session. -/
theorem Context.echoes_enterProgram (hd : c.limits.maxDepth < l.maxDepth)
    (hn : c.limits.maxNesting ≤ l.maxNesting) (host : Host) :
    (Context.empty l host).enterNested.enterProgram.Echoes c.ground c.enterNested.enterProgram := by
  have base : (Context.empty l host).frames.Echoes c.ground c.frames := by
    refine ⟨fun _ _ => rfl, fun i => ?_, rfl, rfl, rfl⟩
    have outside : ¬ c.frames.next + i < c.frames.next := Nat.not_lt_of_le (Nat.le_add_right _ _)
    exact Option.not_isSome_iff_eq_none.mp (mt Frames.get?_isSome.mp outside)
  refine ⟨base.push (.child "program" 0), ⟨[1], nofun, fun i hi => ?_, rfl, rfl⟩, rfl, rfl,
    Nat.succ_le_succ (Nat.zero_le _), hd, hn⟩
  cases List.mem_singleton.mp hi
  exact Nat.one_ne_zero

/-- Alone, the statements of a closed script are closed in the frame of the script. -/
theorem Context.closed_enterProgram {span : Span} {ss : List Node}
    (h : (Node.program span ss).closed) (host : Host) :
    let k := (Context.empty l host).enterNested.enterProgram
    k.frames.Closed ∧ (Stream.body ss).Closed k.frames k.current := by
  have nothing : (Context.empty l host).frames.Closed :=
    Frames.All.push (fun _ _ hf => by simp [Frames.empty, Frames.get?] at hf) fun v hv => by
      simp [Frame.root, Frame.values] at hv
  exact ⟨Action.closed_push nothing fun v hv => by simp at hv,
    ⟨.child "program" 0, 0, rfl, rfl⟩, [], List.forall_mem_nil _, Node.closedIn_program.mp h⟩

/-! ### Requests in time -/

/-- A request that asks one thing, and is no assignment, is timely when that is. -/
theorem Query.timely_of_move {s s' : Stream} {c c' : Context}
    {f : Reply Stream Outcome → Reply Stream Outcome}
    (h : s.move c = .stream s' c' fun r => .answer (f r)) (hs : ¬ (Query.stream s c).Premature) :
    (Query.stream s c).Timely ↔ (Query.stream s' c').Timely := by
  rw [Query.timely_iff]
  refine ⟨fun hq => hq.2 _ (Query.asks_of_move h), fun hq => ⟨hs, fun q hasks => ?_⟩⟩
  have hasks : (s.move c).Asks q := hasks
  rw [h] at hasks
  exact Move.asks_once hasks ▸ hq

theorem Query.timely_nested (h : c.nesting < c.limits.maxNesting) {span : Span} {s : Stream} :
    (Query.stream (.nested span s) c).Timely ↔ (Query.stream s c.enterNested).Timely :=
  Query.timely_of_move (Stream.move_nested h span s) nofun

theorem Query.timely_program (h : c.nesting < c.limits.maxNesting) {span : Span} {ss : List Node} :
    (Query.stream (evaluate (.program span ss)) c).Timely ↔
      (Query.stream (.body ss) c.enterNested.enterProgram).Timely := by
  rw [Query.timely_of_move (s := evaluate (.program span ss)) (f := id) rfl nofun]
  exact (Query.timely_nested h).trans (Query.timely_of_move (f := id) rfl nofun)

/-- Entering a node beyond the limit is a failure. -/
theorem Stream.Gives.exceeded (h : ¬ c.nesting < c.limits.maxNesting) {span : Span} {s : Stream}
    {r : Reply Stream Outcome} (hr : (Stream.nested span s).Gives c r) : r.Exceeded := by
  rw [Stream.gives_iff] at hr
  rw [Stream.move_nested_full (Nat.le_of_not_lt h)] at hr
  obtain rfl := hr
  trivial

/-- The answer of the session that stands for an answer of the script alone. -/
def Answer.rename (G : Ground) : Answer → Answer
  | .value v => .value (v.rename G)
  | answer   => answer

theorem Reply.exceeded_leaving (span : Span) (r : Reply Stream Outcome) :
    (r.leaving span).Exceeded ↔ r.Exceeded := by
  cases r <;> rfl

/-- The answer is that a limit was reached. -/
def Answer.Exceeded (answer : Answer) : Prop := ∃ f, answer = .failure f ∧ f.Exceeded

/-- The answer to a request that ran into a limit. -/
theorem Answer.exceeded_of_reply {r : Reply Stream Outcome} {answer : Answer} {rest : Solutions}
    {c' : Context} (e : (answer, rest, c') = Solutions.answer r) (h : r.Exceeded) :
    answer.Exceeded := by
  cases r with
  | failed failure c =>
      cases e
      exact ⟨failure, rfl, h⟩
  | yield _ _ _ => cases h
  | finished _ => cases h

namespace Dialogue

/-- The next request executes no assignment before the nearest declaration of its target. -/
def Timely (d : Dialogue) : Prop := ∀ q, d.Asks q → ¬ q.Premature

/-- The same for so many requests. -/
def TimelyFor (d : Dialogue) (n : Nat) : Prop :=
  ∀ answers d', d.Pulls answers d' → answers.length < n → d'.Timely

/-! ### A script alone -/

variable {b d : Dialogue}

/-- A session with nothing in it. -/
theorem ordinary_alone (l : Limits) : (start ⟨l, false⟩ fun _ => none).Ordinary l :=
  ordinary_start ⟨l, false⟩ (Host.fits_of_asClosure? fun _ _ _ h => nomatch h)

/-- What is left of the script in the session, `d`, is what is left of it alone, `b`. -/
inductive Echoes (G : Ground) (b d : Dialogue) : Prop
  | nothing (hb : b.solutions = ⟨none⟩) (hd : d.solutions = ⟨none⟩)
  | script {span ss} (hb : b.solutions = .of (.program span ss)) (hbegun : b.begun = false)
      (hd : d.solutions = .of (.program span ss))
      (hc : b.context.enterNested.enterProgram.Echoes G d.context.enterNested.enterProgram)
      (hv : b.context.enterNested.enterProgram.frames.Closed)
      (hs : (Stream.body ss).Closed b.context.enterNested.enterProgram.frames
        b.context.enterNested.enterProgram.current)
  | rest {span s t} (hb : b.solutions = ⟨some (.nested span s)⟩) (hbegun : b.begun = true)
      (hd : d.solutions = ⟨some (.nested span t)⟩) (h : s.Echoes G t)
      (hc : b.context.Echoes G d.context) (hv : b.context.frames.Closed)
      (hs : s.Closed b.context.frames b.context.current)

/-- What replies inside the script's node lead to. -/
theorem echoes_replied {s : Stream} {k : Context} {r r' : Reply Stream Outcome}
    (hreply : (inClosed l).streamReply s k r) (h : r.StreamEchoes G r') (span : Span) :
    (b.replied (r.leaving span)).Echoes G (d.replied (r'.leaving span)) ∧
      (Solutions.answer (r'.leaving span)).1 =
        (Solutions.answer (r.leaving span)).1.rename G := by
  obtain ⟨⟨⟨-, hd⟩, -⟩, hk⟩ := hreply
  cases h with
  | @yield outcome _ _ _ _ _ ha hs hc =>
      subst ha
      refine ⟨.rest rfl rfl rfl hs hc.leaveNested hk.2.1 (hd.1.current ▸ hk.2.2.2), ?_⟩
      cases outcome <;> rfl
  | finished hc => exact ⟨.nothing rfl rfl, rfl⟩
  | failed => exact ⟨.nothing rfl rfl, rfl⟩

theorem timely_iff {s : Stream} (h : d.solutions = ⟨some s⟩) :
    d.Timely ↔ (Query.stream s d.context).Timely := by
  constructor
  · exact fun hd q hw => hd q ⟨s, by rw [h], hw⟩
  · rintro hs q ⟨run, e, hw⟩
    rw [h] at e
    cases e
    exact hs q hw

/-- The request for a solution is timely alone, and its answer in the session is the one alone. -/
def Follows (G : Ground) (b d : Dialogue) (answer : Answer) (rest : Solutions) (c : Context) :
    Prop :=
  b.Timely ∧ ∃ fuel answer' rest' k, b.solutions.next fuel b.context = some (answer', rest', k) ∧
    answer = answer'.rename G ∧ (b.answered answer' rest' k).Echoes G (d.answered answer rest c)

section Next

variable (hG : G.Sound) (hl : 1 ≤ l.maxNesting) (hA : b.Ordinary l) {answer : Answer}
  {rest : Solutions} {c' : Context} (hq : b.Timely ∨ d.Timely)
  (hn : d.solutions.next fuel d.context = some (answer, rest, c'))

include hG hl hA hq hn

/-- A request that asks something inside the script's node. -/
theorem follows_inside {span : Span} {s t S T : Stream} {k c : Context}
    (hin : b.Inside span s k) (h : s.Echoes G t) (hc : k.Echoes G c) (hv : k.frames.Closed)
    (hs : s.Closed k.frames k.current) (hS : b.solutions = ⟨some S⟩) (hT : d.solutions = ⟨some T⟩)
    (givesS : ∀ r, s.Gives k r → S.Gives b.context (r.leaving span))
    (givesT : ∀ r, T.Gives d.context r → ∃ r', t.Gives c r' ∧ r = r'.leaving span)
    (timelyS : (Query.stream S b.context).Timely ↔ (Query.stream s k).Timely)
    (timelyT : (Query.stream T d.context).Timely ↔ (Query.stream t c).Timely) :
    answer.Exceeded ∨ Follows G b d answer rest c' := by
  have hb : (inClosed l).stream s k := ⟨hA.asked hl hin, hv, hs⟩
  rw [timely_iff hS, timely_iff hT, timelyS, timelyT] at hq
  rw [hT] at hn
  obtain ⟨r₁, hr₁, e⟩ := Solutions.next_eq_some hn
  obtain ⟨r', hr', rfl⟩ := givesT r₁ hr₁
  rcases h.gives hG hb hc hq hr' with exceeded | ⟨timely, r, hr, he⟩
  · exact .inl (Answer.exceeded_of_reply e ((Reply.exceeded_leaving span r').mpr exceeded))
  · obtain ⟨echoes, same⟩ := echoes_replied (b := b) (d := d) ((closing_kept l).gives hb hr) he span
    obtain ⟨fuel', hnext⟩ := Solutions.next_of_gives (givesS r hr)
    refine .inr ⟨(timely_iff hS).mpr (timelyS.mpr timely), fuel', _, _, _, hS ▸ hnext, ?_, ?_⟩
    · exact (congrArg Prod.fst e).trans same
    · rw [answered_eq_replied e]
      exact echoes

/-- **The next answer of a closed script is the one that it gives alone,** unless it is that a limit
was reached. -/
theorem Echoes.next (h : b.Echoes G d) : answer.Exceeded ∨ Follows G b d answer rest c' := by
  have below := hA.disciplined.below hl
  cases h with
  | nothing hb hd =>
      rw [hd] at hn
      cases Solutions.next_none hn
      refine .inr ⟨fun q ⟨run, e, _⟩ => ?_, 0, .none, ⟨none⟩, b.context, by rw [hb]; rfl, rfl,
        .nothing rfl rfl⟩
      rw [hb] at e
      cases e
  | @script span ss hb hbegun hd hc hv hs =>
      by_cases hbelow : d.context.nesting < d.context.limits.maxNesting
      · exact follows_inside hG hl hA hq hn (.script hb hbegun) (.body ss) hc hv hs hb hd
          (fun r hr => (Stream.gives_program below).mpr ⟨r, hr, rfl⟩)
          (fun r hr => (Stream.gives_program hbelow).mp hr) (Query.timely_program below)
          (Query.timely_program hbelow)
      · rw [hd] at hn
        obtain ⟨r, hr, e⟩ := Solutions.next_eq_some hn
        exact .inl (Answer.exceeded_of_reply e
          (Stream.Gives.exceeded hbelow (Stream.gives_node.mp hr)))
  | @rest span s t hb hbegun hd h hc hv hs =>
      by_cases hbelow : d.context.nesting < d.context.limits.maxNesting
      · exact follows_inside hG hl hA hq hn (.rest hb hbegun) h hc.enterNested hv hs hb hd
          (fun r hr => (Stream.gives_nested below).mpr ⟨r, hr, rfl⟩)
          (fun r hr => (Stream.gives_nested hbelow).mp hr) (Query.timely_nested below)
          (Query.timely_nested hbelow)
      · rw [hd] at hn
        obtain ⟨r, hr, e⟩ := Solutions.next_eq_some hn
        exact .inl (Answer.exceeded_of_reply e (Stream.Gives.exceeded hbelow hr))

end Next

/-! ### Many requests -/

/-- There is an answer to each of any number of requests. -/
theorem exists_pulls : ∀ (n : Nat) (d : Dialogue),
    ∃ answers d', d.Pulls answers d' ∧ answers.length = n
  | 0, d     => ⟨[], d, .nil d, rfl⟩
  | n + 1, d => by
      have answered : ∃ fuel x, d.solutions.next fuel d.context = some x := by
        obtain ⟨⟨_⟩, ⟨_ | s⟩, _, _, _⟩ := d
        · exact ⟨0, _, rfl⟩
        · obtain ⟨r, hr⟩ := s.gives _
          obtain ⟨fuel, h⟩ := Solutions.next_of_gives hr
          exact ⟨fuel, _, h⟩
      obtain ⟨fuel, ⟨answer, rest, c⟩, h⟩ := answered
      obtain ⟨answers, d', hp, hn⟩ := exists_pulls n (d.answered answer rest c)
      exact ⟨answer :: answers, d', .cons h hp, congrArg (· + 1) hn⟩

/-- Whatever the fuel, a request has one answer. -/
theorem next_unique {s : Solutions} {c : Context} {fuel' : Nat} {x y : Answer × Solutions × Context}
    (h : s.next fuel c = some x) (h' : s.next fuel' c = some y) : x = y := by
  have e := Solutions.next_mono (Nat.le_max_left fuel fuel') h
  rw [Solutions.next_mono (Nat.le_max_right fuel fuel') h'] at e
  exact (Option.some.inj e).symm

/-- So many requests have the same answers each time. -/
theorem Pulls.unique {answers : List Answer} {d' : Dialogue} (h : d.Pulls answers d') :
    ∀ {answers' d''}, d.Pulls answers' d'' → answers'.length = answers.length →
      answers' = answers := by
  induction h with
  | nil d => exact fun _ hn => List.length_eq_zero_iff.mp hn
  | cons first _ ih =>
      intro answers' d'' h' hn
      cases h' with
      | nil _ => cases hn
      | cons first' later' =>
          cases next_unique first first'
          exact congrArg _ (ih later' (Nat.succ.inj hn))

theorem TimelyFor.next {n : Nat} (h : d.TimelyFor (n + 1)) {answer : Answer} {rest : Solutions}
    {c : Context} (hn : d.solutions.next fuel d.context = some (answer, rest, c)) :
    d.Timely ∧ (d.answered answer rest c).TimelyFor n :=
  ⟨h [] d (.nil d) (Nat.succ_pos n), fun answers d' hp hlt =>
    h (answer :: answers) d' (.cons hn hp) (Nat.succ_lt_succ hlt)⟩

/-- **The answers of a closed script are those that it gives alone,** as long as no limit is reached
and no assignment is executed before the nearest declaration of its target. -/
theorem Echoes.pulls (hG : G.Sound) (hl : 1 ≤ l.maxNesting) {answers : List Answer} {d' : Dialogue}
    (hp : d.Pulls answers d') : ∀ {b : Dialogue}, b.Echoes G d → b.Ordinary l →
      b.TimelyFor answers.length ∨ d.TimelyFor answers.length →
      (∀ answer ∈ answers, ¬ answer.Exceeded) → b.TimelyFor answers.length ∧
        ∃ answers' b', b.Pulls answers' b' ∧ answers = answers'.map (Answer.rename G) := by
  induction hp with
  | nil d =>
      exact fun _ _ _ _ => ⟨fun _ _ _ hlt => absurd hlt (Nat.not_lt_zero _), [], _, .nil _, rfl⟩
  | @cons d d' fuel answer rest c answers first later ih =>
      intro b h hA hq hlimits
      rw [List.forall_mem_cons] at hlimits
      have now := hq.imp (· [] b (.nil b) (Nat.succ_pos _)) (· [] d (.nil d) (Nat.succ_pos _))
      rcases h.next hG hl hA now first with e | ⟨timely, fuel', answer', rest', k, hn, rfl, he⟩
      · exact absurd e hlimits.1
      obtain ⟨timely', answers', b', hp', rfl⟩ := ih he (hA.step hl (.ask hn)).1
        (hq.imp (fun h => (h.next hn).2) fun h => (h.next first).2) hlimits.2
      refine ⟨?_, answer' :: answers', b', .cons hn hp', rfl⟩
      rintro answers'' b'' (_ | ⟨hn', later'⟩) hlt
      · exact timely
      · cases next_unique hn hn'
        exact timely' _ _ later' (Nat.lt_of_succ_lt_succ hlt)

/-- The dialogue when a script was run that was read as this program. -/
def running (d : Dialogue) (program : Node) : Dialogue :=
  { d with solutions := .of program, begun := false }

end Dialogue

/-! ### Any two sessions -/

/-- The ground of a new session is sound, whatever its host does. -/
theorem Context.sound_start (options : SessionOptions) (host : Host) :
    (Dialogue.start options host).context.ground.Sound := by
  have silent : Host.Fits .inRange fun _ => none := Host.fits_of_asClosure? fun _ _ _ h => nomatch h
  -- What natives do is of no account for what there is.
  let without (c : Context) : Context := { c with host := fun _ => none }
  have fits : (without (Session.start options host).context).Fits .inRange :=
    Session.start_induction (P := fun c => (without c).Fits .inRange) options host
      (Context.fits_empty options.limits silent) fun _ name h => h.defineGlobal name trivial
  exact fits.sound

/-- The ground of a session is sound, wherever it has led. -/
theorem Context.sound_leads {options : SessionOptions} {host : Host} (hh : host.Fits .inRange)
    {d : Dialogue} (h : Dialogue.Leads .inRange (.start options host) d) : d.context.ground.Sound :=
  ((Dialogue.fits_start options hh).leads Regime.inRange_reads h).context.sound

/-- The answer as far as it can be seen: a function is its text, wherever it was made. -/
def Answer.bare : Answer → Answer
  | .value v => .value v.bare
  | answer   => answer

theorem Answer.bare_rename (answer : Answer) : (answer.rename G).bare = answer.bare := by
  cases answer with
  | value v => exact congrArg Answer.value v.bare_rename
  | failure _ => rfl
  | none => rfl

theorem Answer.failure?_bare (answer : Answer) : answer.bare.failure? = answer.failure? := by
  cases answer <;> rfl

namespace Dialogue

/-- A closed script that is run in a session, and the same script run alone. -/
theorem echoes_running {d : Dialogue} {span : Span} {ss : List Node}
    (h : (Node.program span ss).closed) (hd : d.context.limits.maxDepth < l.maxDepth)
    (hn : d.context.limits.maxNesting ≤ l.maxNesting) :
    ((start ⟨l, false⟩ fun _ => none).running (.program span ss)).Echoes d.context.ground
      (d.running (.program span ss)) :=
  have closed := Context.closed_enterProgram h fun _ => none
  .script rfl rfl rfl (Context.echoes_enterProgram hd hn _) closed.1 closed.2

/-- A script that could be read was run. -/
theorem step_running {R : Regime} {d : Dialogue} {source : String} {program : Node}
    (h : Grammar.parse source = .ok program) : Step R d (d.running program) :=
  .run (Session.run_of_parse h)

/-- Two sessions that a closed script is run in give the same answers, as far as they can be
seen. -/
theorem running_agree {d e : Dialogue} (hd : d.context.ground.Sound) (he : e.context.ground.Sound)
    {source : String} {program : Node} (hp : Grammar.parse source = .ok program)
    (closed : program.closed) {answers answers' : List Answer} {d' e' : Dialogue}
    (pulls : (d.running program).Pulls answers d') (pulls' : (e.running program).Pulls answers' e')
    (same : answers'.length = answers.length)
    (limits : ∀ answer ∈ answers ++ answers', ¬ answer.Exceeded)
    (timely : (d.running program).TimelyFor answers.length ∨
      (e.running program).TimelyFor answers.length) :
    answers.map Answer.bare = answers'.map Answer.bare := by
  obtain ⟨span, ss, rfl, -⟩ := Grammar.parse_program hp
  rw [List.forall_mem_append] at limits
  -- Alone, the script gets more room than it has in either session.
  let l : Limits := ⟨d.context.limits.maxDepth + e.context.limits.maxDepth + 1,
    d.context.limits.maxNesting + e.context.limits.maxNesting + 1⟩
  have hl : 1 ≤ l.maxNesting := Nat.succ_le_succ (Nat.zero_le _)
  let b := (start ⟨l, false⟩ fun _ => none).running (.program span ss)
  have alone : b.Ordinary l := ((ordinary_alone l).step hl (step_running hp)).1
  have first : b.Echoes d.context.ground (d.running (.program span ss)) :=
    echoes_running closed (by simp only [l]; omega) (by simp only [l]; omega)
  have second : b.Echoes e.context.ground (e.running (.program span ss)) :=
    echoes_running closed (by simp only [l]; omega) (by simp only [l]; omega)
  have intime : b.TimelyFor answers.length := by
    rcases timely with h | h
    · exact (first.pulls hd hl pulls alone (.inr h) limits.1).1
    · exact same ▸ (second.pulls he hl pulls' alone (.inr (same ▸ h)) limits.2).1
  obtain ⟨-, own, b', pulled, rfl⟩ := first.pulls hd hl pulls alone (.inl intime) limits.1
  obtain ⟨-, own', b'', pulled', rfl⟩ :=
    second.pulls he hl pulls' alone (.inl (same ▸ intime)) limits.2
  obtain rfl := pulled.unique pulled' (by simpa using same)
  simp only [List.map_map, Function.comp_def, Answer.bare_rename]

end Dialogue

/-- **A closed script does not depend on the session.**  Let a script that names nothing outside
itself be read, and run in a session of any past as well as in a new one.  All that is said of the
past is that no frame is referred to before it exists, and it has not been unless the host does so
(`Context.sound_leads`).  However many solutions are asked for, both sessions give as many answers;
and unless one of them is that a limit was reached, or an assignment is executed before the nearest
declaration of its target (in one of the runs: then it is in both), the answers are the same: values
as far as they can be seen, and failures in every detail. -/
theorem closed_script_independent {d : Dialogue} (hd : d.context.ground.Sound)
    (options : SessionOptions) (host : Host) {source : String} {program : Node}
    (hp : Grammar.parse source = .ok program) (closed : program.closed) (n : Nat) :
    ∃ answers d' answers' e', (d.running program).Pulls answers d' ∧ answers.length = n ∧
      ((Dialogue.start options host).running program).Pulls answers' e' ∧ answers'.length = n ∧
        ((∀ answer ∈ answers ++ answers', ¬ answer.Exceeded) →
          (d.running program).TimelyFor n ∨
            ((Dialogue.start options host).running program).TimelyFor n →
              answers.map Answer.bare = answers'.map Answer.bare) := by
  obtain ⟨answers, d', pulls, rfl⟩ := Dialogue.exists_pulls n (d.running program)
  obtain ⟨answers', e', pulls', same⟩ := Dialogue.exists_pulls answers.length
    ((Dialogue.start options host).running program)
  exact ⟨answers, d', answers', e', pulls, rfl, pulls', same, fun limits timely =>
    Dialogue.running_agree hd (Context.sound_start options host) hp closed pulls pulls' same limits
      timely⟩

/-! ### Two runs -/

/-- Whether the request is seen to execute no assignment before the nearest declaration of its
target. -/
def Query.punctual (fuel : Nat) : Query → Bool
  | .stream (.map inner (.assign _ name)) c =>
    (inner.ask fuel c).any fun
      | .yield .cut _ _ => true
      | .yield _ _ c'   =>
        match c'.frames.lookup c'.current name with
        | .error .unassigned => false
        | _                  => true
      | _               => true
  | _ => true

theorem Query.not_premature {fuel : Nat} {q : Query} (h : q.punctual fuel = true) :
    ¬ q.Premature := by
  rintro ⟨hg, executed, unassigned⟩
  obtain ⟨r, hr, h⟩ := (Option.any_eq_true _ _).mp h
  obtain rfl := hg.unique ⟨fuel, hr⟩
  split at h
  next e =>
    cases e
    exact executed rfl
  next e =>
    cases e
    rw [unassigned] at h
    cases h
  next e => exact e _ _ _ rfl

namespace Dialogue

/-- Whether the next request is seen to be timely. -/
def punctual (d : Dialogue) (fuel : Nat) : Bool :=
  d.solutions.stream.all fun s => (Query.stream s d.context).all (Query.punctual fuel) fuel

/-- Whether so many requests are seen to be. -/
def punctualFor (d : Dialogue) (fuel : Nat) : Nat → Bool
  | 0     => true
  | n + 1 =>
    d.punctual fuel && (d.solutions.next fuel d.context).any fun (answer, rest, c) =>
      (d.answered answer rest c).punctualFor fuel n

theorem timely_of_punctual {d : Dialogue} (h : d.punctual fuel = true) : d.Timely := by
  rintro q ⟨s, hs, hw⟩
  exact Query.not_premature (Query.all_within hw ((Option.all_eq_true _ _).mp h s hs))

theorem timelyFor_of_punctualFor : ∀ {n : Nat} {d : Dialogue},
    d.punctualFor fuel n = true → d.TimelyFor n
  | 0, _, _ => fun _ _ _ hlt => absurd hlt (Nat.not_lt_zero _)
  | n + 1, d, h => by
      obtain ⟨now, later⟩ := Bool.and_eq_true_iff.mp h
      obtain ⟨⟨answer, rest, c⟩, hn, later⟩ := (Option.any_eq_true _ _).mp later
      rintro answers d' (_ | ⟨hn', hp⟩) hlt
      · exact timely_of_punctual now
      · cases next_unique hn hn'
        exact timelyFor_of_punctualFor later _ _ hp (Nat.lt_of_succ_lt_succ hlt)

end Dialogue

instance : DecidablePred Failure.Exceeded
  | .exceeded _ _ _ _ => .isTrue trivial
  | .mistake _ _      => .isFalse id

instance : DecidablePred Answer.Exceeded
  | .failure f       => decidable_of_iff f.Exceeded ⟨fun h => ⟨f, rfl, h⟩, fun ⟨_, e, h⟩ => by
      cases e
      exact h⟩
  | .value _ | .none => .isFalse fun ⟨_, e, _⟩ => nomatch e

/-- A script with a variable of its own, which it chooses values for, gives the same answers in a
session that has such a variable already. -/
theorem closed_script_independent_reassigned :
    ∃ (d : Dialogue) (program : Node) (answers answers' : List Answer) (d' e' : Dialogue),
      Dialogue.Leads .inRange (.start ⟨.standard, true⟩ Prelude.host) d ∧ d.context.ground.Sound ∧
        Grammar.parse "let x = true; x = amb(x, false); x;" = .ok program ∧ program.closed ∧
          (d.running program).Pulls answers d' ∧ answers.length = 3 ∧
            ((Dialogue.start ⟨.standard, false⟩ Prelude.host).running program).Pulls answers' e' ∧
              answers.map Answer.bare = answers'.map Answer.bare := by
  have hh : Prelude.host.Fits .inRange :=
    Host.fits_of_asClosure? fun _ _ _ => Prelude.asClosure?_call
  have played : ((Dialogue.start ⟨.standard, true⟩ Prelude.host).play? "let x = amb(null);" 30).any
      (fun d => (Grammar.parse "let x = true; x = amb(x, false); x;").toOption.any fun program =>
        let e := (Dialogue.start ⟨.standard, false⟩ Prelude.host).running program
        program.closed && e.punctualFor 40 3 &&
          ((d.running program).pull? 40 3).any fun p => (e.pull? 40 3).any fun q =>
            p.1.length == 3 && q.1.length == 3 &&
              decide (∀ answer ∈ p.1 ++ q.1, ¬ answer.Exceeded)) = true := by decide +kernel
  obtain ⟨d, hd, played⟩ := (Option.any_eq_true _ _).mp played
  obtain ⟨program, hp, played⟩ := Trial.exists_of_any played
  obtain ⟨played, pulled⟩ := Bool.and_eq_true_iff.mp played
  obtain ⟨closed, timely⟩ := Bool.and_eq_true_iff.mp played
  obtain ⟨⟨answers, d'⟩, hpull, pulled⟩ := (Option.any_eq_true _ _).mp pulled
  obtain ⟨⟨answers', e'⟩, hpull', pulled⟩ := (Option.any_eq_true _ _).mp pulled
  obtain ⟨counted, limits⟩ := Bool.and_eq_true_iff.mp pulled
  obtain ⟨three, three'⟩ := Bool.and_eq_true_iff.mp counted
  have leads := Dialogue.leads_of_play? (R := .inRange) hd
  have sound := Context.sound_leads hh leads
  have pulls := Dialogue.pulls_of_pull? hpull
  have pulls' := Dialogue.pulls_of_pull? hpull'
  obtain ⟨own, d₁, own', e₁, hown, hn, hown', hn', agree⟩ :=
    closed_script_independent sound ⟨.standard, false⟩ Prelude.host hp closed 3
  obtain rfl := pulls.unique hown (hn.trans (eq_of_beq three).symm)
  obtain rfl := pulls'.unique hown' (hn'.trans (eq_of_beq three').symm)
  exact ⟨d, program, own, own', d', e', leads, sound, hp, closed, pulls, hn, pulls',
    agree (of_decide_eq_true limits) (.inr (Dialogue.timelyFor_of_punctualFor timely))⟩

/-- The name that makes a call a choice is a name like any other where it is read: what a script
reads by it depends on the session. -/
theorem choice_name_depends_on_session :
    ¬ ∀ (d : Dialogue) (source : String) (program : Node) (answers answers' : List Answer)
        (d' e' : Dialogue), Dialogue.Leads .inRange (.start ⟨.standard, true⟩ Prelude.host) d →
        Grammar.parse source = .ok program → program.closedIn [ambName, cutName] →
        (d.running program).Pulls answers d' →
        ((Dialogue.start ⟨.standard, true⟩ Prelude.host).running program).Pulls answers' e' →
        answers'.length = answers.length → (∀ answer ∈ answers ++ answers', ¬ answer.Exceeded) →
        (d.running program).TimelyFor answers.length →
          answers.map Answer.bare = answers'.map Answer.bare := by
  intro h
  have played : ((Dialogue.start ⟨.standard, true⟩ Prelude.host).play? "let amb = true;" 30).any
      (fun d => (Grammar.parse "amb;").toOption.any fun program =>
        let e := (Dialogue.start ⟨.standard, true⟩ Prelude.host).running program
        program.closedIn [ambName, cutName] && (d.running program).punctualFor 40 1 &&
          ((d.running program).pull? 40 1).any fun p => (e.pull? 40 1).any fun q =>
            p.1.length == 1 && q.1.length == 1 &&
              decide (∀ answer ∈ p.1 ++ q.1, ¬ answer.Exceeded) &&
                p.1.all (·.failure?.isNone) && q.1.all (·.failure?.isSome)) = true := by
    decide +kernel
  obtain ⟨d, hd, played⟩ := (Option.any_eq_true _ _).mp played
  obtain ⟨program, hp, played⟩ := Trial.exists_of_any played
  obtain ⟨played, pulled⟩ := Bool.and_eq_true_iff.mp played
  obtain ⟨closed, timely⟩ := Bool.and_eq_true_iff.mp played
  obtain ⟨⟨answers, d'⟩, hpull, pulled⟩ := (Option.any_eq_true _ _).mp pulled
  obtain ⟨⟨answers', e'⟩, hpull', pulled⟩ := (Option.any_eq_true _ _).mp pulled
  obtain ⟨pulled, failed⟩ := Bool.and_eq_true_iff.mp pulled
  obtain ⟨pulled, solved⟩ := Bool.and_eq_true_iff.mp pulled
  obtain ⟨counted, limits⟩ := Bool.and_eq_true_iff.mp pulled
  obtain ⟨one, one'⟩ := Bool.and_eq_true_iff.mp counted
  have same := h d "amb;" program answers answers' d' e' (Dialogue.leads_of_play? hd) hp closed
    (Dialogue.pulls_of_pull? hpull) (Dialogue.pulls_of_pull? hpull')
    ((eq_of_beq one').trans (eq_of_beq one).symm) (of_decide_eq_true limits)
    (eq_of_beq one ▸ Dialogue.timelyFor_of_punctualFor timely)
  obtain ⟨answer, rfl⟩ := List.length_eq_one_iff.mp (eq_of_beq one)
  obtain ⟨answer', rfl⟩ := List.length_eq_one_iff.mp (eq_of_beq one')
  have agree : answer.failure? = answer'.failure? := by
    rw [← Answer.failure?_bare answer, (List.cons.inj same).1, Answer.failure?_bare]
  simp only [List.all_cons, List.all_nil, Bool.and_true] at solved failed
  rw [← agree, ← Option.not_isNone, solved] at failed
  cases failed

end Nondet
