import Nondet.Proofs.Session.Scopes

/-!
# Session — Transcript

A session with its past and with the texts of the scripts that were run in it.  All scripts that are
evaluated come from these texts (`Transcript.Sourced`), as long as the host has no closures of its
own.
-/

namespace Nondet

variable {c : Context}

/-- A session with its past and the texts of the scripts that were run, the last one first. -/
structure Transcript where
  history : History
  sources : List String

namespace Transcript

/-- A session with which nothing was done yet. -/
def start (options : SessionOptions) (host : Host) : Transcript := ⟨.start options host, []⟩

/-- The session, with what is left of the script that was run last. -/
def dialogue (t : Transcript) : Dialogue := t.history.dialogue

/-- The script that was just read is run next. -/
def ran (t : Transcript) (source : String) (r : Session.Run) : Transcript where
  history := { t.history with
    dialogue := { t.history.dialogue with solutions := r.solutions, begun := false } }
  sources := source :: t.sources

/-- What a request for a solution leads to. -/
def answered (t : Transcript) (answer : Answer) (rest : Solutions) (c : Context) : Transcript where
  history := ⟨t.dialogue.answered answer rest c, t.history.begun ++ t.history.beginning,
    t.history.answered ++ answer.value?.toList⟩
  sources := t.sources

/-- One thing that is done with a session by a host that has no closures of its own. -/
inductive Step : Transcript → Transcript → Prop
  | define {t : Transcript} (name : String) {v : Value}
      (hv : v.asClosure? = none ∨ v ∈ t.history.answered) :
      Step t { t with history := { t.history with
        dialogue := { t.history.dialogue with
          session := t.history.dialogue.session.define name v } } }
  | run {t : Transcript} {source : String} {r : Session.Run} (hr : Session.run source = .ok r) :
      Step t (t.ran source r)
  | ask {t : Transcript} {fuel : Nat} {answer : Answer} {rest : Solutions} {c : Context}
      (hn : t.dialogue.solutions.next fuel t.dialogue.context = some (answer, rest, c)) :
      Step t (t.answered answer rest c)

/-- Whatever a session may come to. -/
def Leads : Transcript → Transcript → Prop := Relation.ReflTransGen Step

variable {t t' : Transcript}

theorem Step.history (h : Step t t') : History.Step t.history t'.history := by
  cases h with
  | define name hv => exact .define name hv
  | run hr => exact .run hr
  | ask hn => exact .ask hn

theorem Leads.history (h : Leads t t') : History.Leads t.history t'.history :=
  Relation.ReflTransGen.lift Transcript.history (fun _ _ => Step.history) _ _ h

/-- What is done with a session is what may be done with any. -/
theorem Leads.dialogue (h : Leads t t') : Dialogue.Leads .any t.dialogue t'.dialogue := by
  refine Relation.ReflTransGen.lift Transcript.dialogue (fun t t' hs => ?_) _ _ h
  cases hs with
  | @define name v hv =>
      have fits : v.Fits .any t.dialogue.context.frames.next := by
        cases v with
        | closure _ => exact ⟨fun _ _ => trivial, trivial⟩
        | _ => trivial
      exact .define name fits
  | run hr => exact .run hr
  | ask hn => exact .ask hn

/-! ### Scripts and their texts -/

/-- Every script in the session is that of a text, and what was run last is the last text. -/
structure Sourced (t : Transcript) : Prop where
  begun : ∀ i ss, (i, ss) ∈ t.history.begun →
    ∃ source ∈ t.sources, ∃ span, Grammar.parse source = .ok (.program span ss)
  script : ∀ span ss, t.dialogue.begun = false → t.dialogue.solutions = .of (.program span ss) →
    ∃ source earlier, t.sources = source :: earlier ∧
      Grammar.parse source = .ok (.program span ss)

/-- A script that the next request begins is that of a text, too. -/
theorem Sourced.began (h : t.Sourced) {i : FrameId} {ss : List Node} (hb : t.history.Began i ss) :
    ∃ source ∈ t.sources, ∃ span, Grammar.parse source = .ok (.program span ss) := by
  rcases List.mem_append.mp hb with hb | hb
  · exact h.begun i ss hb
  · rw [History.beginning] at hb
    split at hb
    next span ss' hbegun hs =>
      cases List.mem_singleton.mp hb
      have hs : t.dialogue.solutions = .of (.program span ss) := congrArg Solutions.mk hs
      obtain ⟨source, earlier, e, hp⟩ := h.script span ss hbegun hs
      exact ⟨source, e ▸ List.mem_cons_self, span, hp⟩
    next => cases hb

theorem Sourced.step (h : t.Sourced) (hs : Step t t') : t'.Sourced := by
  cases hs with
  | define name hv => exact ⟨h.begun, h.script⟩
  | @run source r hr =>
      obtain ⟨program, hp, rfl⟩ := Session.run_eq_ok hr
      refine ⟨fun i ss hm => ?_, fun span ss _ hs => ?_⟩
      · obtain ⟨earlier, hmem, span, hparse⟩ := h.begun i ss hm
        exact ⟨earlier, List.mem_cons_of_mem _ hmem, span, hparse⟩
      · cases hs
        exact ⟨source, t.sources, rfl, hp⟩
  | ask hn => exact ⟨fun i ss hm => h.began hm, fun _ _ hb => nomatch hb⟩

theorem Sourced.leads (h : t.Sourced) (hs : Leads t t') : t'.Sourced := by
  induction hs with
  | refl => exact h
  | tail _ hlast ih => exact ih.step hlast

theorem sourced_start (options : SessionOptions) (host : Host) : (start options host).Sourced :=
  ⟨(fun _ _ hm => nomatch hm), nofun⟩

/-! ### Transcripts that are played out -/

/-- Runs a script, if it can be read. -/
def run? (t : Transcript) (source : String) : Option Transcript :=
  match Session.run source with
  | .ok r    => some (t.ran source r)
  | .error _ => none

/-- Runs a script and asks for a solution of it, if the fuel suffices. -/
def play? (t : Transcript) (source : String) (fuel : Nat) : Option Transcript :=
  (t.run? source).bind fun t =>
    (t.dialogue.solutions.next fuel t.dialogue.context).map fun (answer, rest, c) =>
      t.answered answer rest c

theorem step_of_run? {source : String} (h : t.run? source = some t') :
    Step t t' ∧ t'.sources = source :: t.sources := by
  unfold run? at h
  split at h
  next r hr =>
    cases h
    exact ⟨.run hr, rfl⟩
  next => cases h

theorem leads_of_play? {source : String} {fuel : Nat} (h : t.play? source fuel = some t') :
    Leads t t' ∧ t'.sources = source :: t.sources := by
  obtain ⟨t₁, hrun, h⟩ := Option.bind_eq_some_iff.mp h
  obtain ⟨⟨answer, rest, c⟩, hn, rfl⟩ := Option.map_eq_some_iff.mp h
  obtain ⟨hstep, hs⟩ := step_of_run? hrun
  exact ⟨.head hstep (.single (.ask hn)), hs⟩

end Transcript

end Nondet
