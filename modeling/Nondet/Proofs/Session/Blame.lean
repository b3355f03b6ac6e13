import Nondet.Proofs.Grammar.Spans
import Nondet.Proofs.Pull.Blame
import Nondet.Proofs.Session.Asks
import Nondet.Proofs.Session.Transcript

/-!
# Session — Blame

Where errors point.  An error is reported with the text that was run.  A text that cannot be read is
blamed at a place in it, and so is a mistake in the script itself.  But a function may come from an
earlier text of the session, and a mistake in its body is blamed on a node there
(`errors_point_to_texts`): the span then belongs to a text that the error does not have
(`errors_point_elsewhere`).
-/

namespace Nondet

variable {l : Limits} {c : Context}

/-! ### Places in texts -/

/-- The span is that of a node in the last of the texts, or of one in a function of any of them. -/
def Located (sources : List String) (span : Span) : Prop :=
  ∃ source ∈ sources, ∃ program n : Node, Grammar.parse source = .ok program ∧ program.Part n ∧
    n.span = span ∧
    (sources.head? = some source ∨ ∃ g : Node, program.Part g ∧ g.function?.isSome ∧ g.Part n)

namespace Located

variable {source : String} {sources : List String} {program : Node}

/-- All nodes of the last script are located. -/
theorem of_last (h : Grammar.parse source = .ok program) :
    program.Spanned (Located (source :: sources)) :=
  fun n hn => ⟨source, List.mem_cons_self, program, n, h, hn, rfl, .inl rfl⟩

/-- All nodes of functions are located. -/
theorem of_function (hs : source ∈ sources) (h : Grammar.parse source = .ok program) {g : Node}
    (hg : program.Part g) {f : Function} (hf : g.function? = some f) :
    g.Spanned (Located sources) :=
  fun n hn => ⟨source, hs, program, n, h, hg.trans hn, rfl,
    .inr ⟨g, hg, Option.isSome_iff_exists.mpr ⟨f, hf⟩, hn⟩⟩

end Located

namespace Transcript

variable {t t' : Transcript}

/-! ### What is left of a script -/

/-- Between two requests what is left of the last script blames only nodes in it or in functions. -/
structure Blamed (t : Transcript) : Prop where
  sourced : t.Sourced
  rest : ∀ st, t.dialogue.begun = true → t.dialogue.solutions = ⟨some st⟩ →
    st.Blames (Located t.sources)
  host : t.dialogue.context.host.Quiet

/-- Functions in scripts are located. -/
theorem Blamed.covers (h : t.Blamed) : CoversFunctions t.history.Began (Located t.sources) := by
  intro i script hb g ⟨k, hk, hg⟩ f hf
  obtain ⟨source, hs, span, hp⟩ := h.sourced.began hb
  exact Located.of_function hs hp (.head hk hg) hf

/-- What is asked inside the script's node blames only what is located. -/
theorem Blamed.asked (h : t.Blamed) {span : Span} {st : Stream}
    (hin : t.dialogue.Inside span st c) : c.host.Quiet ∧ st.Blames (Located t.sources) := by
  cases hin with
  | @script ss hs hb =>
      obtain ⟨source, earlier, e, hp⟩ := h.sourced.script span ss hb hs
      refine ⟨h.host, fun m hm => ?_⟩
      rw [e]
      exact (Located.of_last hp).child hm
  | rest hs hb => exact ⟨h.host, h.rest (.nested span st) hb hs⟩

/-- What the answer to a request is blamed on, and what comes after it. -/
structure Answered (t : Transcript) (answer : Answer) (rest : Solutions) (c : Context) : Prop where
  failure : ∀ f, answer = .failure f → f.Blames (Located t.sources)
  rest : ∀ st, rest = ⟨some st⟩ → st.Blames (Located t.sources)
  host : c.host = t.dialogue.context.host

theorem Blamed.asks (hl : 1 ≤ l.maxNesting) (hc : t.history.Scoped l) (h : t.Blamed) {fuel : Nat}
    {answer : Answer} {rest : Solutions}
    (hn : t.dialogue.solutions.next fuel t.dialogue.context = some (answer, rest, c)) :
    t.Answered answer rest c := by
  rcases hc.disciplined.asks hl hc.fits hn with ⟨-, e, -⟩ | ⟨span, st, c₀, r, hin, -, ha, hr, e⟩
  · cases e
    exact ⟨nofun, nofun, rfl⟩
  · obtain ⟨⟨⟨⟨-, hd⟩, -⟩, -⟩, hblames⟩ := (blaming_kept l h.covers).gives
      ⟨hc.allowed hin ha, h.asked hin⟩ hr
    have host : r.context.host = t.dialogue.context.host := by
      rw [hd.host]
      cases hin <;> rfl
    cases r with
    | yield outcome st' c' =>
        cases e
        exact ⟨nofun, fun st hst => by cases hst; exact hblames, host⟩
    | finished c' =>
        cases e
        exact ⟨nofun, nofun, host⟩
    | failed failure c' =>
        cases e
        exact ⟨fun f hf => by cases hf; exact hblames, nofun, host⟩

theorem Blamed.step (hl : 1 ≤ l.maxNesting) (hc : t.history.Scoped l) (h : t.Blamed)
    (hs : Step t t') : t'.Blamed := by
  have sourced := h.sourced.step hs
  cases hs with
  | define name hv => exact ⟨sourced, h.rest, h.host⟩
  | run hr => exact ⟨sourced, (fun _ hb => nomatch hb), h.host⟩
  | ask hn =>
      have asked := h.asks hl hc hn
      exact ⟨sourced, fun st _ hs => asked.rest st hs, asked.host ▸ h.host⟩

theorem Blamed.leads (hl : 1 ≤ l.maxNesting) (hc : t.history.Scoped l) (h : t.Blamed)
    (hs : Leads t t') : t'.Blamed := by
  induction hs with
  | refl => exact h
  | tail hs hlast ih => exact ih.step hl (hc.leads hl (Leads.history hs)) hlast

theorem blamed_start (options : SessionOptions) {host : Host} (hq : host.Quiet) :
    (start options host).Blamed :=
  ⟨sourced_start options host, nofun, (Session.start_alike options host).host ▸ hq⟩

/-- **Failures are blamed on nodes of the last text, or on nodes of functions in any text.** -/
theorem blames (options : SessionOptions) {host : Host} (hh : host.HandsOn) (hq : host.Quiet)
    (ht : Leads (start options host) t) {fuel : Nat} {failure : Failure} {rest : Solutions}
    (hn : t.dialogue.solutions.next fuel t.dialogue.context = some (.failure failure, rest, c)) :
    failure.Blames (Located t.sources) := by
  rcases Nat.eq_zero_or_pos options.limits.maxNesting with hl | hl
  · -- Only the limit itself is reported, and nothing is blamed.
    have idle := (Dialogue.idle_start options host hl).leads ht.dialogue
    obtain ⟨-, ⟨e, -⟩ | ⟨span, e, -⟩⟩ := idle.next hn <;> cases e
    trivial
  · have started := History.scoped_start options hh
    have blamed := (blamed_start options hq).leads hl started ht
    exact (blamed.asks hl (started.leads hl ht.history) hn).failure failure rfl

/-- So are those that come up when several solutions are asked for. -/
theorem blames_take (options : SessionOptions) {host : Host} (hh : host.HandsOn) (hq : host.Quiet)
    {fuel : Nat} {failure : Failure} : ∀ {count : Nat} {taken : List Value} {t : Transcript},
      Leads (start options host) t →
      t.dialogue.solutions.take fuel taken count t.dialogue.context = some (.error failure, c) →
      failure.Blames (Located t.sources)
  | 0, _, _, _, h => nomatch h
  | count + 1, taken, t, ht, h => by
      rw [Solutions.take] at h
      split at h
      · cases h
      · cases h
      next hn =>
        cases h
        exact blames options hh hq ht hn
      next v rest c' hn => exact blames_take options hh hq (t := t.answered _ rest c') (ht.tail (.ask hn)) h

end Transcript

/-! ### Errors -/

/-- The error is reported with the text.  If it has a place, that is one in this text, or in a
function of an earlier one; a mistake's place is that of a node there. -/
def Error.PointsInto (source : String) (earlier : List String) : Error → Prop
  | .parse d text   =>
    text = source ∧ d.span.start ≤ d.span.stop ∧ d.span.stop ≤ source.utf8ByteSize
  | .runtime d text =>
    text = source ∧ ∃ origin ∈ source :: earlier,
      d.span.start ≤ d.span.stop ∧ d.span.stop ≤ origin.utf8ByteSize ∧
      ∃ program n : Node, Grammar.parse origin = .ok program ∧ program.Part n ∧ n.span = d.span ∧
        (origin = source ∨ ∃ g : Node, program.Part g ∧ g.function?.isSome ∧ g.Part n)
  | .exceeded _     => True

namespace Error

variable {source : String} {earlier : List String}

theorem pointsInto_of_failure {failure : Failure} (h : failure.Blames (Located (source :: earlier))) :
    (ofFailure failure source).PointsInto source earlier := by
  cases failure with
  | mistake mistake span =>
      obtain ⟨origin, hmem, program, n, hp, hn, rfl, hwhere⟩ := h
      obtain ⟨-, hle, hstop⟩ := (Grammar.parse_within hp n hn).bounds
      refine ⟨rfl, origin, hmem, hle, hstop, program, n, hp, hn, rfl, ?_⟩
      exact hwhere.imp_left fun hlast => (Option.some.inj hlast).symm
  | exceeded _ _ _ _ => trivial

/-- A text that cannot be read is blamed at a place in it. -/
theorem pointsInto_of_run {e : Error} (h : Session.run source = .error e) :
    e.PointsInto source earlier := by
  unfold Session.run at h
  split at h
  · cases h
  next failure hf =>
    cases h
    obtain ⟨offset, expected, rfl, hoffset⟩ := Grammar.parse_error_within hf
    exact ⟨rfl, Nat.le_refl _, hoffset⟩

end Error

/-- **Errors point into the text that they are reported with, or into functions of earlier ones.**
Whatever a host without closures and failures of the evaluation's own does with a session, an error
has the text that was just run.  If that text cannot be read, the place is in it.  If a mistake is
made while it runs, the place is that of a node in this text or in a function that an earlier text
of the session declares.  It makes no difference how solutions are asked for. -/
theorem errors_point_to_texts (options : SessionOptions) (host : Host) (hh : host.HandsOn)
    (hq : host.Quiet) {t : Transcript} (ht : Transcript.Leads (.start options host) t) :
    (∀ source e, Session.run source = .error e → e.PointsInto source t.sources) ∧
    (∀ source earlier, t.sources = source :: earlier → ∀ fuel e run s,
      Session.Run.next fuel ⟨t.dialogue.solutions, source⟩ t.dialogue.session =
        some (.error e, run, s) → e.PointsInto source earlier) ∧
    ∀ source fuel e s,
      (∃ count, t.dialogue.session.take fuel count source = some (.error e, s)) ∨
        t.dialogue.session.all fuel source = some (.error e, s) ∨
        t.dialogue.session.first fuel source = some (.error e, s) →
      e.PointsInto source t.sources := by
  have taken : ∀ source fuel e s count,
      t.dialogue.session.take fuel count source = some (.error e, s) →
        e.PointsInto source t.sources := by
    intro source fuel e s count h
    unfold Session.take at h
    split at h
    next hr =>
      cases h
      exact Error.pointsInto_of_run hr
    next r hr =>
      obtain ⟨⟨result, c⟩, htake, h⟩ := Option.map_eq_some_iff.mp h
      cases result with
      | ok values => cases h
      | error failure =>
          cases h
          exact Error.pointsInto_of_failure (Transcript.blames_take options hh hq
            (t := t.ran source r) (ht.tail (.run hr)) htake)
  refine ⟨fun source e => Error.pointsInto_of_run, fun source earlier hs fuel e run s h => ?_, ?_⟩
  · obtain ⟨⟨answer, rest, c⟩, hn, h⟩ := Option.map_eq_some_iff.mp h
    cases answer with
    | failure failure =>
        cases h
        exact Error.pointsInto_of_failure (hs ▸ Transcript.blames options hh hq ht hn)
    | value v => cases h
    | none => cases h
  · rintro source fuel e s (⟨count, h⟩ | h | h)
    · exact taken source fuel e s count h
    · exact taken source fuel e s fuel h
    · obtain ⟨⟨result, s'⟩, htake, h⟩ := Option.map_eq_some_iff.mp h
      cases result with
      | ok values => cases h
      | error e' =>
          cases h
          exact taken source fuel _ _ 1 htake

/-- The mistake that a request for a solution ends with, the text that it is said to be in, and what is
left. -/
def Session.Run.mistaken? (fuel : Nat) (r : Session.Run) (s : Session) :
    Option (Diagnostic × String × Session.Run × Session) :=
  (r.next fuel s).bind fun p =>
    match p.1 with
    | .error (.runtime d text) => some (d, text, p.2)
    | _                        => none

theorem Session.Run.next_of_mistaken? {fuel : Nat} {r r' : Session.Run} {s s' : Session}
    {d : Diagnostic} {text : String} (h : r.mistaken? fuel s = some (d, text, r', s')) :
    r.next fuel s = some (.error (.runtime d text), r', s') := by
  obtain ⟨⟨result, r₁, s₁⟩, hn, h⟩ := Option.bind_eq_some_iff.mp h
  simp only at h
  split at h
  · cases h
    exact hn
  · cases h

/-- A function of an earlier text reads a name that is not declared: the place is in the earlier
text, and it lies behind the end of the text that the error has. -/
theorem errors_point_elsewhere :
    Prelude.host.HandsOn ∧ Prelude.host.Quiet ∧ ∃ t fuel d run s,
      Transcript.Leads (.start ⟨.standard, true⟩ Prelude.host) t ∧
      Session.Run.next fuel ⟨t.dialogue.solutions, "f();"⟩ t.dialogue.session =
        some (.error (.runtime d "f();"), run, s) ∧
      "f();".utf8ByteSize < d.span.start ∧
      (Error.runtime d "f();").PointsInto "f();" ["function f() \x7b return nope; \x7d"] := by
  have hh := Prelude.handsOn
  have hq : Prelude.host.Quiet := fun _ _ _ => Prelude.own_call
  have played : ((Transcript.start ⟨.standard, true⟩ Prelude.host).play?
      "function f() \x7b return nope; \x7d" 20).any (fun t => (t.run? "f();").any fun t =>
        (Session.Run.mistaken? 30 ⟨t.dialogue.solutions, "f();"⟩ t.dialogue.session).any fun p =>
          p.2.1 == "f();" && decide ("f();".utf8ByteSize < p.1.span.start)) = true := by
    decide +kernel
  obtain ⟨t₁, hplay, played⟩ := (Option.any_eq_true _ _).mp played
  obtain ⟨t, hrun, played⟩ := (Option.any_eq_true _ _).mp played
  obtain ⟨leads, hs₁⟩ := Transcript.leads_of_play? hplay
  obtain ⟨step, hs⟩ := Transcript.step_of_run? hrun
  rw [hs₁] at hs
  obtain ⟨⟨d, text, run, s⟩, hnext, played⟩ := (Option.any_eq_true _ _).mp played
  obtain ⟨htext, hspan⟩ := Bool.and_eq_true_iff.mp played
  obtain rfl : text = "f();" := eq_of_beq htext
  have hnext := Session.Run.next_of_mistaken? hnext
  have points := (errors_point_to_texts ⟨.standard, true⟩ Prelude.host hh hq
    (leads.tail step)).2.1 _ _ hs _ _ _ _ hnext
  exact ⟨hh, hq, t, 30, d, run, s, leads.tail step, hnext, of_decide_eq_true hspan, points⟩

end Nondet
