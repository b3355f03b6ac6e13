import Nondet.Proofs.Pull.Scopes
import Nondet.Proofs.Session.Names

/-!
# Session — Scopes

Static scoping.  A `History` is a session with the scripts that were begun in it, each with the
number of its frame.  Between two requests all values in it are scoped, and what is left of a script
is asked at its place (`History.Scoped`); so whatever is asked during a request is asked at a place
of some script, in frames that stand for the scopes around it (`static_scoping`).

Nothing else can be said of closures that a host builds, since their functions stand in no script.
So hosts hand on what they were given, as natives and as the ones who define constants.
-/

namespace Nondet

variable {l : Limits} {c : Context}

/-- A session with its past: the scripts that were begun, each with the number of its frame, and the
values that were answered. -/
structure History where
  dialogue : Dialogue
  begun : List (FrameId × List Node)
  answered : List Value

namespace History

/-- A session with which nothing was done yet. -/
def start (options : SessionOptions) (host : Host) : History := ⟨.start options host, [], []⟩

/-- The script that the next request begins, with the number that its frame will have. -/
def beginning (h : History) : List (FrameId × List Node) :=
  match h.dialogue.begun, h.dialogue.solutions.stream with
  | false, some (.node (.program _ ss)) => [(h.dialogue.context.frames.next, ss)]
  | _, _                                => []

/-- The script was begun in the frame, or it is about to be. -/
def Began (h : History) (i : FrameId) (script : List Node) : Prop :=
  (i, script) ∈ h.begun ++ h.beginning

/-- One thing that is done with a session by a host that has no closures of its own: what it defines
are values that were answered, or no closures. -/
inductive Step : History → History → Prop
  | define {h : History} (name : String) {v : Value} (hv : v.asClosure? = none ∨ v ∈ h.answered) :
      Step h { h with
        dialogue := { h.dialogue with session := h.dialogue.session.define name v } }
  | run {h : History} {source : String} {r : Session.Run} (hr : Session.run source = .ok r) :
      Step h { h with dialogue := { h.dialogue with solutions := r.solutions, begun := false } }
  | ask {h : History} {fuel : Nat} {answer : Answer} {rest : Solutions} {c : Context}
      (hn : h.dialogue.solutions.next fuel h.dialogue.context = some (answer, rest, c)) :
      Step h ⟨h.dialogue.answered answer rest c, h.begun ++ h.beginning,
        h.answered ++ answer.value?.toList⟩

/-- Whatever a session may come to. -/
def Leads : History → History → Prop := Relation.ReflTransGen Step

/-- Between two requests under the limits `l` all values are scoped, and what is left of a script
is asked at its place. -/
structure Scoped (l : Limits) (h : History) : Prop where
  fits : h.dialogue.Fits .ordinary
  disciplined : h.dialogue.Disciplined l
  tabled : h.dialogue.Tabled .blank
  host : h.dialogue.context.host.HandsOn
  values : h.dialogue.context.frames.All
    (Value.Scoped (fun i ss => (i, ss) ∈ h.begun) h.dialogue.context.frames)
  answered : ∀ v ∈ h.answered, v.Fits .ordinary h.dialogue.context.frames.next ∧
    v.Scoped (fun i ss => (i, ss) ∈ h.begun) h.dialogue.context.frames
  rest : ∀ st, h.dialogue.begun = true → h.dialogue.solutions = ⟨some st⟩ →
    ∃ s, h.dialogue.context.frames.Stands (fun i ss => (i, ss) ∈ h.begun) h.dialogue.context.current s ∧
      st.Scoped (fun i ss => (i, ss) ∈ h.begun) h.dialogue.context.frames s

variable {h h' : History}

/-- What was begun counts as begun. -/
theorem began_of_mem (i : FrameId) (ss : List Node) (hm : (i, ss) ∈ h.begun) : h.Began i ss :=
  List.mem_append_left _ hm

theorem began_of_script {span : Span} {ss : List Node}
    (hs : h.dialogue.solutions = .of (.program span ss)) (hb : h.dialogue.begun = false) :
    h.Began h.dialogue.context.frames.next ss := by
  refine List.mem_append_right _ ?_
  rw [beginning, hb, hs]
  exact List.mem_singleton_self _

/-- What is asked inside the script's node is asked at some place. -/
theorem Scoped.asked (hc : h.Scoped l) {span : Span} {st : Stream}
    (hin : h.dialogue.Inside span st c) : ∃ s, st.AskedAt h.Began s c := by
  have values := hc.values.imp fun v hv => hv.mono began_of_mem (.refl _ _)
  cases hin with
  | @script ss hs hb =>
      -- The frame of the script is new and empty.
      have hframes : h.dialogue.context.enterNested.enterProgram.frames = _ :=
        Context.Level.enterProgram_frames (c := h.dialogue.context.enterNested) hc.disciplined.level
      have opens : h.dialogue.context.frames.Opens h.Began
          (.child "program" h.dialogue.context.enterNested.current) ss (.top ss) :=
        .script (began_of_script hs hb) rfl fun name => by simp [Frame.child]
      refine ⟨.top ss, .inr (.body ⟨⟨_, hframes, opens⟩, ?_, hc.host, fun _ => .statement⟩
        (Context.current_enterProgram _))⟩
      rw [hframes]
      exact values.push fun v hv => by simp at hv
  | rest hs hb =>
      obtain ⟨s, stands, hst⟩ := hc.rest _ hb hs
      exact ⟨s, .inl ⟨⟨values, stands.mono began_of_mem (.refl _ _), hc.host⟩,
        Stream.Scoped.mono began_of_mem (.refl _ _) hst⟩⟩

/-- What the discipline allows inside the script's node keeps to its place. -/
theorem Scoped.allowed (hc : h.Scoped l) {span : Span} {st : Stream}
    (hin : h.dialogue.Inside span st c)
    (ha : (Regime.ordinary.contract.and (discipline l)).stream st c) :
    (scopedRequests h.Began l).stream st c :=
  ⟨⟨ha, hc.tabled.asked hc.disciplined hin⟩, hc.asked hin⟩

/-- What a host does with its session in this way is what a host may do under the ordinary regime. -/
theorem Scoped.dialogue (hc : h.Scoped l) (hs : Step h h') :
    Dialogue.Step .ordinary h.dialogue h'.dialogue := by
  cases hs with
  | define name hv =>
      rcases hv with hv | hv
      · exact .define name (Value.fits_of_asClosure? hv)
      · exact .define name (hc.answered _ hv).1
  | run hr => exact .run hr
  | ask hn => exact .ask hn

/-- What was scoped before a step is scoped after it. -/
theorem Scoped.step (hl : 1 ≤ l.maxNesting) (hc : h.Scoped l) (hs : Step h h') : h'.Scoped l := by
  have hd := hc.dialogue hs
  obtain ⟨tabled, longer⟩ := hc.tabled.step hl hc.fits hc.disciplined hd
  have fits := hc.fits.step Regime.ScriptFree.reads hd
  have disciplined := hc.disciplined.step hl hc.fits hd
  cases hs with
  | @define name v hv =>
      have same : ∀ i ss, (i, ss) ∈ h.begun → (i, ss) ∈ h.begun := fun _ _ hm => hm
      have hv : v.Scoped (fun i ss => (i, ss) ∈ h.begun) h.dialogue.context.frames :=
        hv.elim Value.scoped_of_asClosure? fun hv => (hc.answered v hv).2
      refine ⟨fits, disciplined, tabled, hc.host, ?_, fun w hw => ?_, fun st hb hst => ?_⟩
      · exact (hc.values.set fun w m e => by cases e; exact hv).imp fun w hw => hw.mono same longer
      · exact ⟨(hc.answered w hw).1.mono longer.next, (hc.answered w hw).2.mono same longer⟩
      · obtain ⟨s, stands, hst⟩ := hc.rest st hb hst
        exact ⟨s, stands.mono same longer, Stream.Scoped.mono same longer hst⟩
  | run hr =>
      exact ⟨fits, disciplined, tabled, hc.host, hc.values, hc.answered, fun _ hb => nomatch hb⟩
  | @ask fuel answer rest c hn =>
      rcases hc.disciplined.asks hl hc.fits hn with
        ⟨-, e, -⟩ | ⟨span, st, c₀, r, hin, asked, ha, hr, e⟩
      · cases e
        refine ⟨fits, disciplined, tabled, hc.host, ?_, fun v hv => ?_, fun st hb hst => nomatch hst⟩
        · exact hc.values.imp fun v hv => hv.mono began_of_mem longer
        · obtain ⟨hf, hv⟩ := hc.answered v (by simpa [Answer.value?] using hv)
          exact ⟨hf, hv.mono began_of_mem longer⟩
      · obtain ⟨s, hs⟩ := hc.asked hin
        obtain ⟨⟨⟨⟨-, -, hfit⟩, hd'⟩, -⟩, passes⟩ := (scoping_kept l h.Began).gives
          (hc.allowed hin ha) hr
        obtain ⟨values, hy⟩ := passes s hs
        have host : r.context.host.HandsOn := by
          rw [hd'.host]
          cases hin <;> exact hc.host
        have before : ∀ v ∈ h.answered, v.Fits .ordinary (h.dialogue.answered answer rest c).context.frames.next ∧
            v.Scoped h.Began (h.dialogue.answered answer rest c).context.frames := fun v hv =>
          ⟨(hc.answered v hv).1.mono longer.next, (hc.answered v hv).2.mono began_of_mem longer⟩
        cases r with
        | yield outcome st' c' =>
            cases e
            obtain ⟨stands, ho, hst⟩ := hy _ _ _ rfl
            refine ⟨fits, disciplined, tabled, host, values, fun v hv => ?_, fun st _ e => ?_⟩
            · rcases List.mem_append.mp hv with hv | hv
              · exact before v hv
              · obtain rfl : v = outcome.toValue := List.mem_singleton.mp hv
                exact ⟨(hfit _ _ _ rfl).1, ho⟩
            · cases e
              exact ⟨s, hd'.1.current ▸ stands, hst⟩
        | finished c' =>
            cases e
            exact ⟨fits, disciplined, tabled, host, values,
              fun v hv => before v (by simpa [Answer.value?] using hv), fun _ _ e => nomatch e⟩
        | failed failure c' =>
            cases e
            exact ⟨fits, disciplined, tabled, host, values,
              fun v hv => before v (by simpa [Answer.value?] using hv), fun _ _ e => nomatch e⟩

theorem scoped_start (options : SessionOptions) {host : Host} (hh : host.HandsOn) :
    (start options host).Scoped options.limits := by
  have values := Session.start_values options host
  exact ⟨Dialogue.fits_start options hh.fits, Dialogue.disciplined_start options host,
    Dialogue.tabled_start options host, (Session.start_alike options host).host ▸ hh,
    values.imp fun v => Value.scoped_of_asClosure?, nofun, fun _ _ hs => nomatch hs⟩

theorem Scoped.leads (hl : 1 ≤ l.maxNesting) (hc : h.Scoped l) (hs : Leads h h') : h'.Scoped l := by
  induction hs with
  | refl => exact hc
  | tail _ hlast ih => exact ih.step hl hlast

/-- Whatever is asked inside a script during a request is asked at some place. -/
theorem Scoped.asks (hl : 1 ≤ l.maxNesting) (hc : h.Scoped l) {st : Stream}
    (hq : h.dialogue.Asks (.stream st c)) (hst : st.isScript = false) :
    ((requests l .blank).and (scoping h.Began)).stream st c := by
  obtain ⟨run, hrun, hw⟩ := hq
  have allows {st₀ : Stream} {c₀ : Context} (hw : (Query.stream st₀ c₀).Within (.stream st c))
      (ha : ((requests l .blank).and (scoping h.Began)).stream st₀ c₀) :
      ((requests l .blank).and (scoping h.Began)).Allows (.stream st c) :=
    (scoping_kept l h.Began).within hw ha
  rcases hc.disciplined.running hrun with ⟨span, ss, hsol, hb, rfl⟩ | ⟨span, inner, hsol, hb, rfl, hp⟩
  · have hin := Dialogue.Inside.script hsol hb
    obtain ⟨-, ha⟩ := hc.disciplined.inside hl hc.fits hin
    rcases Query.within_program (hc.disciplined.below hl) hw with e | e | e | hw
    · cases e
      cases hst
    · cases e
      cases hst
    · cases e
      cases hst
    · exact allows hw (hc.allowed hin ha)
  · have fits : (Stream.nested span inner).Fits .ordinary h.dialogue.context.frames.next :=
      hc.fits.solutions.of_rest hsol hb
    have ha := Dialogue.allowed (s := .nested span inner) hc.fits.context fits hp hc.disciplined.ready
    obtain ⟨s, stands, hst⟩ := hc.rest _ hb hsol
    have values := hc.values.imp fun v hv => hv.mono began_of_mem (.refl _ _)
    have asked : (Stream.nested span inner).AskedAt h.Began s h.dialogue.context :=
      .inl ⟨⟨values, stands.mono began_of_mem (.refl _ _), hc.host⟩,
        Stream.Scoped.mono began_of_mem (.refl _ _) hst⟩
    exact allows hw ⟨⟨ha, hc.tabled.held, .inl (hc.tabled.rest _ hb hsol)⟩, s, asked⟩

end History

/-! ### Reading a name -/

/-- The reply to a request for the value of a name. -/
def Reply.Reads (span : Span) (name : String) (result : Except BindFailure Value) :
    Reply Stream Outcome → Prop
  | .yield outcome _ _ => ∃ v, outcome = .value v ∧ result = .ok v
  | .finished _        => False
  | .failed failure _  => ∃ e, result = .error e ∧ failure = .mistake (.ofBind e name) span

/-- A name is looked up from the innermost frame, unless it is the one that stands for no value. -/
theorem Stream.reads_identifier (h : c.nesting < c.limits.maxNesting) {span : Span} {name : String}
    (hn : name ≠ cutName) {r : Reply Stream Outcome}
    (hr : (evaluate (.identifier span name)).Gives c r) :
    r.Reads span name (c.frames.lookup c.current name) := by
  have built : build (.identifier span name) = .deferred (.lookup span name) := if_neg hn
  obtain ⟨r', hr', rfl⟩ := (gives_nested h).mp (gives_node.mp hr)
  rw [built, gives_iff] at hr'
  have hr' : r' = .ofResult .empty ((Deferred.lookup span name).run.on c.enterNested) := hr'
  rw [Deferred.run, Action.on_bind, Action.on_lookup] at hr'
  have same : c.enterNested.frames.lookup c.enterNested.current name =
      c.frames.lookup c.current name := rfl
  rw [same] at hr'
  cases hv : c.frames.lookup c.current name <;> rw [hv] at hr' <;> subst hr' <;>
    exact ⟨_, rfl, rfl⟩

/-- **Static scoping.**  Whatever a host without closures of its own does with a session, take any
stream that is asked during a request, save those whose frame is still to be filled by hoisting.
The nodes in it stand at a place of some script, and walking outwards from the innermost frame one
meets a frame for each scope around the place, with just the names that the scope declares, the last
one being the frame in which that script was begun.  So a name is looked up in the frame of the
nearest scope that declares it, whether or not it has a value there, and only a name that none of
them declares is looked up further out; reading a name gives what is looked up. -/
theorem static_scoping (options : SessionOptions) (host : Host)
    (hl : 1 ≤ options.limits.maxNesting) (hh : host.HandsOn) {h : History}
    (hs : History.Leads (.start options host) h) {st : Stream} {c : Context}
    (asked : h.dialogue.Asks (.stream st c)) (inside : st.isScript = false)
    (hoisted : st.opening? c = none) :
    ∃ s, st.Scoped h.Began c.frames s ∧ c.frames.Stands h.Began c.current s ∧
      (∀ name k, s.declaring? name = some k →
        ∃ i b, (c.frames.chain c.current)[k]? = some i ∧ c.frames.binding? i name = some b ∧
          c.frames.lookup c.current name = b.read) ∧
      (∀ name, s.declaring? name = none → c.frames.lookup c.current name =
        c.frames.lookupIn name ((c.frames.chain c.current).drop s.scopes.length)) ∧
      ∀ span name r, st = evaluate (.identifier span name) → name ≠ cutName →
        c.nesting < c.limits.maxNesting → st.Gives c r →
          r.Reads span name (c.frames.lookup c.current name) := by
  have hc := (History.scoped_start options hh).leads hl hs
  obtain ⟨⟨⟨⟨fits, -⟩, -⟩, -⟩, s, placed⟩ := hc.asks hl asked inside
  obtain ⟨⟨-, stands, -⟩, hst⟩ : c.Scoped h.Began s ∧ st.Scoped h.Began c.frames s := by
    rcases placed with placed | begins
    · exact placed
    · cases begins <;> cases hoisted
  refine ⟨s, hst, stands, fun name k => stands.lookup_nearest fits.layered,
    fun name => stands.lookup_outer fits.layered, ?_⟩
  rintro span name r rfl hn below hr
  exact Stream.reads_identifier below hn hr

/-- The first thing that is asked, so many times over. -/
def Query.first? : Nat → Query → Option Query
  | 0, q                 => some q
  | n + 1, .stream s c   =>
    match s.move c with
    | .stream s c _ => first? n (.stream s c)
    | _             => none
  | _ + 1, .odometer _ _ => none

theorem Query.within_of_first? : ∀ {n : Nat} {q q' : Query}, q.first? n = some q' → q.Within q'
  | 0, _, _, h => Option.some.inj h ▸ .refl
  | n + 1, .stream s c, q', h => by
      rw [first?] at h
      split at h
      next hm => exact .head (asks_of_move hm) (within_of_first? h)
      next => cases h
  | _ + 1, .odometer _ _, _, h => by cases h

/-- The name that is evaluated, with the context. -/
def Query.name? : Query → Option (Span × String × Context)
  | .stream (.node (.identifier span name)) c => some (span, name, c)
  | _                                         => none

theorem Query.eq_of_name? {q : Query} {span : Span} {name : String}
    (h : q.name? = some (span, name, c)) : q = .stream (evaluate (.identifier span name)) c := by
  unfold name? at h
  split at h
  · cases h
    rfl
  · cases h

/-- Whether the name is declared around the frame and has no value there. -/
def Frames.awaitsValue (fs : Frames) (i : FrameId) (name : String) : Bool :=
  match fs.lookup i name with
  | .error .unassigned => true
  | _                  => false

theorem Frames.lookup_of_awaitsValue {fs : Frames} {i : FrameId} {name : String}
    (h : fs.awaitsValue i name = true) : fs.lookup i name = .error .unassigned := by
  unfold awaitsValue at h
  split at h
  · assumption
  · cases h

/-- A name that a block declares later on is read inside it, while an outer one has a value. -/
theorem static_scoping_shadowed :
    1 ≤ Limits.standard.maxNesting ∧ Prelude.host.HandsOn ∧ ∃ h span c,
      History.Leads (.start ⟨.standard, true⟩ Prelude.host) h ∧
      h.dialogue.context.frames.lookup h.dialogue.context.current "x" = .ok (.bool true) ∧
      h.dialogue.Asks (.stream (evaluate (.identifier span "x")) c) ∧
      (∃ s, c.frames.Stands h.Began c.current s) ∧
      ∀ r, (evaluate (.identifier span "x")).Gives c r → r.Reads span "x" (.error .unassigned) := by
  have hl : 1 ≤ Limits.standard.maxNesting := by decide
  have hh : Prelude.host.HandsOn := fun name arguments closure hv => by
    cases (Prelude.asClosure?_call hv : (Value.closure closure).asClosure? = none)
  let h₀ : History := .start ⟨.standard, true⟩ Prelude.host
  let h₁ : History := { h₀ with
    dialogue := { h₀.dialogue with session := h₀.dialogue.session.define "x" (.bool true) } }
  have played : (Session.run "\x7b !x; let x = null; \x7d").toOption.any (fun r =>
      (r.solutions.stream.bind fun run => (Query.stream run h₁.dialogue.context).first? 14).any fun q =>
        q.name?.any fun p =>
          p.2.1 == "x" && decide (p.2.2.nesting < p.2.2.limits.maxNesting) &&
            p.2.2.frames.awaitsValue p.2.2.current "x") = true := by decide +kernel
  obtain ⟨r, hr, played⟩ := Trial.exists_of_any played
  obtain ⟨q, hq, played⟩ := (Option.any_eq_true _ _).mp played
  obtain ⟨run, hrun, hq⟩ := Option.bind_eq_some_iff.mp hq
  obtain ⟨⟨span, name, c⟩, hn, played⟩ := (Option.any_eq_true _ _).mp played
  obtain rfl := Query.eq_of_name? hn
  obtain ⟨named, unassigned⟩ := Bool.and_eq_true_iff.mp played
  obtain ⟨hname, below⟩ := Bool.and_eq_true_iff.mp named
  obtain rfl : name = "x" := eq_of_beq hname
  let h : History := { h₁ with
    dialogue := { h₁.dialogue with solutions := r.solutions, begun := false } }
  have leads : History.Leads h₀ h :=
    .tail (.single (.define "x" (.inl rfl))) (.run hr)
  have asked : h.dialogue.Asks (.stream (evaluate (.identifier span "x")) c) :=
    ⟨run, hrun, Query.within_of_first? hq⟩
  obtain ⟨s, -, stands, -, -, reads⟩ :=
    static_scoping ⟨.standard, true⟩ Prelude.host hl hh leads asked rfl rfl
  refine ⟨hl, hh, h, span, c, leads, by rfl, asked, ⟨s, stands⟩, fun r hr => ?_⟩
  exact Frames.lookup_of_awaitsValue unassigned ▸
    reads span "x" r rfl (by decide) (of_decide_eq_true below) hr

end Nondet
