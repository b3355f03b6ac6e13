import Nondet.Proofs.Pull.Redeclarations
import Nondet.Proofs.Session.Asks
import Nondet.Proofs.Session.Names

/-!
# Session — Declarations

Declarations that are run over and over.  A statement is run once for each outcome of the statements
before it, and its declaration completed once for each outcome of its initializer, all in one frame.
Yet the name never has a value when its declaration is completed, as long as declarations stand in
lists of statements: going back to a choice takes the value away again
(`declarations_find_names_waiting`).

A function that a host builds around a script is different (`declaration_in_lost_frame`): a call of
it leaves the script's frame on the stack, and a declaration that is completed after the call looks
for its name in the wrong frame.
-/

namespace Nondet

open Nondet.Action

variable {l : Limits} {c : Context} {host : Host}

/-- The innermost frame is on the stack, if there is any. -/
theorem Context.current_mem_stack {n : Nat} (h : c.depth = 1 + n) : c.current ∈ c.stack := by
  rw [depth] at h
  rw [current]
  cases hstack : c.stack with
  | nil =>
      rw [hstack, List.length_nil] at h
      omega
  | cons i is => exact List.mem_cons_self

/-- A moment at which no name waits. -/
def Moment.still (fresh : Option Frames) : Moment where
  fresh := fresh
  pending _ _ := False

namespace Dialogue

variable {d d' : Dialogue}

/-- One thing that is done with a session in which all code keeps declarations to lists of statements:
the scripts that are run, and the functions that the host brings in. -/
inductive OrderlyStep : Dialogue → Dialogue → Prop
  | define {d : Dialogue} (name : String) {value : Value}
      (hv : value.Fits .ordinary d.context.frames.next) (ho : value.Orderly) :
      OrderlyStep d { d with session := d.session.define name value }
  | run {d : Dialogue} {source : String} {r : Session.Run} (hr : Session.run source = .ok r)
      (listed : ∀ program, Grammar.parse source = .ok program → program.Listed) :
      OrderlyStep d { d with solutions := r.solutions, begun := false }
  | ask {d : Dialogue} {fuel : Nat} {answer : Answer} {rest : Solutions} {c : Context}
      (hn : d.solutions.next fuel d.context = some (answer, rest, c)) :
      OrderlyStep d (d.answered answer rest c)

/-- Whatever such a session may come to. -/
def OrderlyLeads : Dialogue → Dialogue → Prop := Relation.ReflTransGen OrderlyStep

theorem OrderlyStep.step (h : OrderlyStep d d') : Step .ordinary d d' := by
  cases h with
  | define name hv ho => exact .define name hv
  | run hr listed => exact .run hr
  | ask hn => exact .ask hn

theorem orderlyLeads_of_play? {source : String} {fuel : Nat} (h : d.play? source fuel = some d')
    (listed : ∀ program, Grammar.parse source = .ok program → program.Listed) : OrderlyLeads d d' := by
  obtain ⟨d₁, hrun, hask⟩ := Option.bind_eq_some_iff.mp h
  obtain ⟨r, hr, rfl⟩ := run?_eq_some hrun
  obtain ⟨⟨answer, rest, c⟩, hn, rfl⟩ := Option.map_eq_some_iff.mp hask
  exact .head (.run hr listed) (.single (.ask hn))

theorem OrderlyLeads.leads (h : OrderlyLeads d d') : Leads .ordinary d d' :=
  Relation.ReflTransGen.lift id (fun _ _ => OrderlyStep.step) _ _ h

/-- Between two requests all code is orderly, and what is left of the last script waits for no names
but its own. -/
structure Guarded (host : Host) (l : Limits) (d : Dialogue) : Prop where
  fits : d.Fits .ordinary
  disciplined : d.Disciplined l
  orderly : d.context.Orderly
  host : d.context.host = host
  left : d.Left (fun ss => ∀ n ∈ ss, n.Orderly)
    fun st => st.Orderly ∧ st.Guards (.still none) d.context.current

/-- What is asked inside the script's node is orderly and guards a moment at which no name waits. -/
theorem Guarded.asked (h : d.Guarded host l) {span : Span} {st : Stream} (hin : d.Inside span st c) :
    (c.Orderly ∧ st.Orderly) ∧
      ∃ fresh, c.Expects host (.still fresh) ∧ st.Guards (.still fresh) c.current := by
  have entered : d.context.enterNested.Orderly := ⟨h.orderly.values, h.orderly.host⟩
  cases hin with
  | @script ss hsol hb =>
      have orderly := h.left.of_script hsol hb
      -- The frame of the script is new and empty.
      have level : d.context.enterNested.Level := h.disciplined.level
      have hframes := level.enterProgram_frames
      have hcurrent := Context.current_enterProgram d.context.enterNested
      have inside : d.context.enterNested.enterProgram.current ∈
          d.context.enterNested.enterProgram.stack := by
        rw [hcurrent, level.enterProgram_stack]
        exact List.mem_cons_self
      refine ⟨⟨entered.enterProgram, orderly⟩, some d.context.enterNested.enterProgram.frames,
        ⟨h.host, inside, fun _ _ => False.elim, ?_⟩,
        ⟨_, rfl, .child "program" d.context.enterNested.current, ?_, .inl rfl⟩, fun _ => id⟩
      · rintro fs ⟨⟩
        exact ⟨rfl, fun _ _ => False.elim⟩
      · rw [hcurrent, hframes, Frames.get?_push, if_pos rfl]
  | rest hsol hb =>
      have inside : d.context.enterNested.current ∈ d.context.enterNested.stack :=
        Context.current_mem_stack (h.disciplined.level.trans h.disciplined.outer)
      obtain ⟨ho, hst⟩ := h.left.of_rest hsol hb
      exact ⟨⟨entered, ho⟩, none, ⟨h.host, inside, fun _ _ => False.elim, nofun⟩, hst⟩

theorem Guarded.step (hl : 1 ≤ l.maxNesting) (h : d.Guarded host l) (hs : OrderlyStep d d') :
    d'.Guarded host l := by
  have fits := h.fits.step Regime.ScriptFree.reads hs.step
  have disciplined := h.disciplined.step hl h.fits hs.step
  cases hs with
  | define name hv ho =>
      refine ⟨fits, disciplined, ⟨?_, h.orderly.host⟩, h.host, ?_⟩
      · exact h.orderly.values.set fun v m e => by cases e; exact ho
      · cases h.left with
        | nothing hsol hb => exact .nothing hsol hb
        | script hsol hb hss => exact .script hsol hb hss
        | rest hsol hb hs => exact .rest hsol hb hs
  | run hr listed =>
      obtain ⟨program, hp, rfl⟩ := Session.run_eq_ok hr
      obtain ⟨span, ss, rfl, -⟩ := Grammar.parse_program hp
      exact ⟨fits, disciplined, h.orderly, h.host, .script rfl rfl ((listed _ hp).orderly hp)⟩
  | ask hn =>
      rcases h.disciplined.asks hl h.fits hn with ⟨-, -, e⟩ | ⟨span, st, c₀, r, hin, -, ha, hr, e⟩
      · rw [e]
        exact h
      · obtain ⟨⟨hc, ho⟩, fresh, he, hst⟩ := h.asked hin
        obtain ⟨⟨⟨-, hd⟩, orderly⟩, awaits⟩ :=
          (declaring_kept l host).gives ⟨⟨ha, hc, ho⟩, _, he, hst⟩ hr
        have hhost : r.context.host = host := hd.host.trans he.host
        rw [answered_eq_replied e] at fits disciplined ⊢
        cases r with
        | yield outcome st' c' =>
            obtain ⟨hc', -, ho'⟩ := orderly
            refine ⟨fits, disciplined, hc'.leaveNested, hhost, .rest rfl rfl ⟨ho', ?_⟩⟩
            -- The script's node leaves the frame as it is.
            have rest := (awaits _ ⟨he, hst⟩).2
            exact (hd.1.current ▸ rest : st'.Guards (.still none) c'.current)
        | finished c' | failed failure c' =>
            have left := Context.Orderly.leaveNested orderly
            exact ⟨fits, disciplined, left, hhost, .nothing rfl rfl⟩

theorem guarded_start (options : SessionOptions) (hf : host.Fits .ordinary) (ho : host.Orderly) :
    (start options host).Guarded host options.limits := by
  have alike := Session.start_alike options host
  have values := (Session.start_values options host).imp Value.orderly_of_asClosure?
  have orderly : (start options host).context.host.Orderly := alike.host.symm ▸ ho
  exact ⟨fits_start options hf, disciplined_start options host, ⟨values, orderly⟩, alike.host,
    .nothing rfl rfl⟩

theorem Guarded.leads (hl : 1 ≤ l.maxNesting) (h : d.Guarded host l) (hs : OrderlyLeads d d') :
    d'.Guarded host l := by
  induction hs with
  | refl => exact h
  | tail _ hs ih => exact ih.step hl hs

/-- Whatever is asked during a request belongs to the script's node, or no name that waits gets a
value on the way to it. -/
theorem asked_declaring (options : SessionOptions) (hf : host.Fits .ordinary) (ho : host.Orderly)
    (hd : OrderlyLeads (start options host) d) {q : Query} (hq : d.Asks q) :
    d.Outermost q ∨ ((orderlyRequests options.limits).and (declaring host)).Allows q := by
  rcases Nat.eq_zero_or_pos options.limits.maxNesting with hl | hl
  · exact .inl (((idle_start options host hl).leads hd.leads).asks hq)
  · have h := (guarded_start options hf ho).leads hl hd
    rcases h.disciplined.asks_cases hl h.fits hq with outer | ⟨span, st, c, hin, ha, hw⟩
    · exact .inl outer
    · obtain ⟨orderly, fresh, expects, guards⟩ := h.asked hin
      exact .inr ((declaring_kept _ host).within hw ⟨⟨ha, orderly⟩, _, expects, guards⟩)

/-- The script's node itself complains of no redeclaration. -/
theorem Outermost.not_redeclares {q : Query} (h : d.Outermost q) {failure : Failure} :
    ¬ q.Redeclares failure := by
  intro hr
  cases h <;> cases hr with
  | completion h => cases h

end Dialogue

/-- **Backtracking never declares a name again.**  Let a host do whatever it likes with a session, and
let all scripts that it runs, and all functions that it brings in itself, keep declarations to lists
of statements; and let there be no script in such a function.  However many choices there are, a
declaration that is completed finds its name in the innermost frame and without a value, and so it
succeeds.  A complaint that a name has already been declared comes from hoisting: of statements that
declare the name twice, or of those of a function that has it as a parameter.  Else a native
complains in the name of the evaluation. -/
theorem declarations_find_names_waiting (options : SessionOptions) (host : Host)
    (hf : host.Fits .ordinary) (ho : host.Orderly) {d : Dialogue}
    (hd : Dialogue.OrderlyLeads (.start options host) d) {st : Stream} {c : Context}
    (asked : d.Asks (.stream st c)) :
    (∀ name c', st.Completes c name c' →
        c'.frames.binding? c'.current name = some .unassigned ∧
          ∀ value constant span, ((define name value constant span).on c').1 = .ok ⟨⟩) ∧
      ∀ name isMutable span c', st.Gives c (.failed (.mistake (.redeclared name isMutable) span) c') →
        (∃ ss c₁, (Query.stream st c).Within (.stream (.body ss) c₁) ∧
            ((hoist ss).on c₁).1 = .error (.mistake (.redeclared name isMutable) span) ∧
            c₁.Clashes ss name) ∨
          ∃ own native arguments c₁ e,
            (Query.stream st c).Within (.stream (.deferred (.native own native arguments)) c₁) ∧
              host.call native arguments = .error e ∧ ¬ e.Own := by
  refine ⟨fun name c' h => ?_, fun name isMutable span c' h => ?_⟩
  · rcases Dialogue.asked_declaring options hf ho hd asked with outer | allowed
    · cases outer <;> cases h
    · have waits := Declaring.completes allowed h
      exact ⟨waits, fun value constant span => (defines_iff name value constant span c').mpr waits⟩
  · obtain ⟨q, hw, refuses⟩ := h.refused
    have redeclares := refuses.redeclares rfl
    have hq : d.Asks q := asked.imp fun _ h => ⟨h.1, h.2.trans hw⟩
    rcases Dialogue.asked_declaring options hf ho hd hq with outer | allowed
    · exact absurd redeclares outer.not_redeclares
    cases redeclares with
    | completion h hb => exact absurd (Declaring.completes allowed h) hb
    | hoist h =>
        obtain ⟨_, _, _, ⟨⟩, clashes⟩ := Declaring.clashes allowed h
        exact .inl ⟨_, _, hw, congrArg Prod.fst h, clashes⟩
    | native h hown =>
        obtain ⟨-, m, expects, -⟩ := allowed
        exact .inr ⟨_, _, _, _, _, hw, expects.host ▸ h, hown⟩

/-- The declaration that is completed by what is asked, if the fuel suffices for its initializer, with
the context in which it is. -/
def Query.completion? (fuel : Nat) : Query → Option (String × Context)
  | .stream (.map inner (.define _ _ name)) c =>
    match inner.ask fuel c with
    | some (.yield _ _ c') => some (name, c')
    | _                    => none
  | .stream (.deferred (.defineFunction _ function)) c => some (function.name.getD "", c)
  | _ => none

theorem Query.completes_of_completion? {fuel : Nat} {q : Query} {name : String}
    (h : q.completion? fuel = some (name, c)) :
    ∃ st c₀, q = .stream st c₀ ∧ st.Completes c₀ name c := by
  unfold completion? at h
  split at h
  next inner span keyword own c₀ =>
    split at h
    next outcome rest c' hr =>
      cases h
      exact ⟨_, c₀, rfl, .initializer ⟨fuel, hr⟩⟩
    next => cases h
  next span function c₀ =>
    cases h
    exact ⟨_, _, rfl, .function⟩
  next => cases h

/-- A declaration is completed a second time, for the second of two alternatives. -/
theorem declarations_find_names_waiting_again :
    Prelude.host.Fits .ordinary ∧ Prelude.host.Orderly ∧ ∃ d st c c',
      Dialogue.OrderlyLeads (.start ⟨.standard, true⟩ Prelude.host) d ∧
        d.begun = true ∧ d.Asks (.stream st c) ∧ st.Completes c "x" c' ∧
          c'.frames.binding? c'.current "x" = some .unassigned := by
  have hh := Prelude.handsOn
  let d₀ : Dialogue := .start ⟨.standard, true⟩ Prelude.host
  let source := "let a = amb(true, false); let x = a;"
  have parsed : (Grammar.parse source).toOption.any (·.everyDown Node.lists 10) = true := by
    decide +kernel
  have played : (d₀.play? source 40).any (fun d =>
      d.begun && (d.find? 40 fun q => (q.completion? 40).any (·.1 == "x")).any fun q =>
        (q.completion? 40).any (·.1 == "x")) = true := by decide +kernel
  obtain ⟨d, hplay, played⟩ := (Option.any_eq_true _ _).mp played
  obtain ⟨begun, played⟩ := Bool.and_eq_true_iff.mp played
  obtain ⟨q, hfind, played⟩ := (Option.any_eq_true _ _).mp played
  obtain ⟨⟨name, c'⟩, hq, hname⟩ := (Option.any_eq_true _ _).mp played
  obtain rfl : name = "x" := eq_of_beq hname
  obtain ⟨st, c, rfl, completes⟩ := Query.completes_of_completion? hq
  have listed : ∀ program, Grammar.parse source = .ok program → program.Listed := by
    intro program hp
    rw [hp] at parsed
    exact .of_everyDown parsed
  have leads : Dialogue.OrderlyLeads d₀ d := Dialogue.orderlyLeads_of_play? hplay listed
  have asked := Dialogue.asks_of_find? hfind
  have rule := declarations_find_names_waiting ⟨.standard, true⟩ Prelude.host hh.fits hh.orderly leads asked
  exact ⟨hh.fits, hh.orderly, d, st, c, c', leads, begun, asked, completes, (rule.1 "x" c' completes).1⟩

/-- A function that a host builds around a script leaves the script's frame on the stack.  The
declaration that calls it looks for its name in that frame, and fails. -/
theorem declaration_in_lost_frame :
    ∃ d program st c c', Dialogue.Leads .any (.start ⟨.standard, true⟩ Prelude.host) d ∧
      d.solutions = .of program ∧ program.Listed ∧ d.Asks (.stream st c) ∧ st.Completes c "x" c' ∧
      c'.frames.binding? c'.current "x" = none ∧ ∃ fuel span rest c'',
        d.solutions.next fuel d.context =
          some (.failure (.mistake (.redeclared "x" true) span), rest, c'') := by
  let f : Value := .aroundScript
  let d₀ : Dialogue := .start ⟨.standard, true⟩ Prelude.host
  let d₁ : Dialogue := { d₀ with session := d₀.session.define "f" f }
  have defined : Dialogue.Step .any d₀ d₁ := .define "f" ⟨fun _ _ => trivial, trivial⟩
  let wanted (q : Query) : Bool := (q.completion? 40).any fun p =>
    p.1 == "x" && (p.2.frames.binding? p.2.current "x").isNone
  have parsed : (Grammar.parse "\x7b let x = f(); x; \x7d").toOption.any
      (·.everyDown Node.lists 10) = true := by decide +kernel
  have played : (d₁.run? "\x7b let x = f(); x; \x7d").any (fun d =>
      ((d.solutions.next 40 d.context).any fun p =>
        p.1.failure?.any fun f => f == .mistake (.redeclared "x" true) f.span) &&
      (d.find? 40 wanted).any wanted) = true := by decide +kernel
  obtain ⟨d, hd, played⟩ := (Option.any_eq_true _ _).mp played
  obtain ⟨hfails, hq⟩ := Bool.and_eq_true_iff.mp played
  obtain ⟨q, hfind, hq⟩ := (Option.any_eq_true _ _).mp hq
  obtain ⟨⟨name, c'⟩, hq, played⟩ := (Option.any_eq_true _ _).mp hq
  obtain ⟨hname, absent⟩ := Bool.and_eq_true_iff.mp played
  obtain rfl : name = "x" := eq_of_beq hname
  obtain ⟨st, c, rfl, completes⟩ := Query.completes_of_completion? hq
  obtain ⟨span, ss, hp, hsol, -⟩ := Dialogue.script_of_run? hd
  rw [hp] at parsed
  obtain ⟨⟨answer, rest, c''⟩, hn, hfails⟩ := (Option.any_eq_true _ _).mp hfails
  obtain ⟨f, hf, same⟩ := (Option.any_eq_true _ _).mp hfails
  obtain rfl := Answer.eq_of_failure? hf
  rw [eq_of_beq same] at hn
  exact ⟨d, .program span ss, st, c, c', .tail (.single defined) (Dialogue.step_of_run? hd), hsol,
    .of_everyDown parsed, Dialogue.asks_of_find? hfind, completes,
    Option.isNone_iff_eq_none.mp absent, 40, f.span, rest, c'', hn⟩

end Nondet
