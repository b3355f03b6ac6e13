import Nondet.Session
import Nondet.Proofs.Context.Values
import Nondet.Proofs.Grammar.Written
import Nondet.Proofs.Pull.Fits
import Nondet.Proofs.Pull.Program
import Nondet.Proofs.Termination

/-!
# Session — Dialogue

What a host does with one session: it defines constants, it runs scripts, and it asks for solutions
of the script that it ran last, as many as it likes.  A `Dialogue` is where that has led; it counts
the scripts that were begun and keeps the failures that were answered, which the session itself does
not.  Invariants of sessions are invariants of `Dialogue.Step`; the first is that what a regime
allows is all that a dialogue ever gets into its hands (`Dialogue.Fits.leads`).
-/

namespace Nondet

/-- A session, with what is left of the script that was run last. -/
structure Dialogue where
  session : Session
  solutions : Solutions
  /-- Whether that script was asked for a solution. -/
  begun : Bool
  /-- How many scripts were asked for a solution. -/
  started : Nat
  /-- The failures that were answered, the oldest first. -/
  failures : List Failure

namespace Dialogue

/-- A session with which nothing was done yet. -/
def start (options : SessionOptions) (host : Host) : Dialogue where
  session := .start options host
  solutions := ⟨none⟩
  begun := true
  started := 0
  failures := []

/-- The context that the session is in. -/
def context (d : Dialogue) : Context := d.session.context

end Dialogue

/-- The value in an answer. -/
def Answer.value? : Answer → Option Value
  | .value v            => some v
  | .failure _ | .none  => Option.none

/-- The failure in an answer. -/
def Answer.failure? : Answer → Option Failure
  | .failure f      => some f
  | .value _ | none => Option.none

theorem Answer.eq_of_value? {answer : Answer} {v : Value} (h : answer.value? = some v) :
    answer = .value v := by
  cases answer with
  | value v' =>
      cases h
      rfl
  | failure f => cases h
  | none => cases h

theorem Answer.eq_of_failure? {answer : Answer} {f : Failure} (h : answer.failure? = some f) :
    answer = .failure f := by
  cases answer with
  | failure f' =>
      cases h
      rfl
  | value v => cases h
  | none => cases h

/-- A function around an empty script.  No text is read as one: it is the value of a tree that a host
has put together itself. -/
def Value.aroundScript : Value :=
  .closure ⟨0, ⟨some "f", [], .block, .program .zero [], .zero⟩, 0⟩

example (host : Host) : ∃ rest c,
    (Solutions.of (.arrowFunction .zero (some "f") [] .block (.program .zero []))).next 3
      (Session.start ⟨.standard, false⟩ host).context = some (.value .aroundScript, rest, c) :=
  ⟨_, _, rfl⟩

namespace Dialogue

/-- What a request for a solution leads to. -/
def answered (d : Dialogue) (answer : Answer) (rest : Solutions) (c : Context) : Dialogue where
  session := ⟨c⟩
  solutions := rest
  begun := true
  started := if d.begun then d.started else d.started + 1
  failures := d.failures ++ answer.failure?.toList

/-- One thing that is done with a session: a constant is defined, a script is run, or a solution is
asked for.  Constants are such as the regime allows. -/
inductive Step (R : Regime) : Dialogue → Dialogue → Prop
  | define {d} (name : String) {value : Value} (h : value.Fits R d.context.frames.next) :
      Step R d { d with session := d.session.define name value }
  | run {d} {source : String} {r : Session.Run} (h : Session.run source = .ok r) :
      Step R d { d with solutions := r.solutions, begun := false }
  | ask {d} {fuel : Nat} {answer : Answer} {rest : Solutions} {c : Context}
      (h : d.solutions.next fuel d.context = some (answer, rest, c)) :
      Step R d (d.answered answer rest c)

/-- Whatever a dialogue may come to. -/
def Leads (R : Regime) : Dialogue → Dialogue → Prop := Relation.ReflTransGen (Step R)

/-- Solutions are asked for, as many as there are answers, and nothing else is done. -/
inductive Pulls : Dialogue → List Answer → Dialogue → Prop
  | nil (d : Dialogue) : Pulls d [] d
  | cons {d d' fuel answer rest c answers}
      (first : d.solutions.next fuel d.context = some (answer, rest, c))
      (later : Pulls (d.answered answer rest c) answers d') : Pulls d (answer :: answers) d'

/-- During the next request the query is made. -/
def Asks (d : Dialogue) (q : Query) : Prop :=
  ∃ run, d.solutions.stream = some run ∧ (Query.stream run d.context).Within q

theorem Pulls.leads {R : Regime} {d d' : Dialogue} {answers : List Answer}
    (h : d.Pulls answers d') : Leads R d d' := by
  induction h with
  | nil d => exact .refl
  | cons first _ ih => exact .head (.ask first) ih

/-! ### Dialogues that are played out -/

/-- Runs a script, if it can be read. -/
def run? (d : Dialogue) (source : String) : Option Dialogue :=
  match Session.run source with
  | .ok r    => some { d with solutions := r.solutions, begun := false }
  | .error _ => none

/-- Asks for a solution, if the fuel suffices. -/
def ask? (d : Dialogue) (fuel : Nat) : Option Dialogue :=
  (d.solutions.next fuel d.context).map fun (answer, rest, c) => d.answered answer rest c

/-- Asks for so many solutions. -/
def pull? (d : Dialogue) (fuel : Nat) : Nat → Option (List Answer × Dialogue)
  | 0         => some ([], d)
  | count + 1 =>
    (d.solutions.next fuel d.context).bind fun (answer, rest, c) =>
      ((d.answered answer rest c).pull? fuel count).map fun (answers, d) => (answer :: answers, d)

/-- Runs a script and asks for a solution of it. -/
def play? (d : Dialogue) (source : String) (fuel : Nat) : Option Dialogue :=
  (d.run? source).bind (·.ask? fuel)

theorem run?_eq_some {d d' : Dialogue} {source : String} (h : d.run? source = some d') :
    ∃ r, Session.run source = .ok r ∧ d' = { d with solutions := r.solutions, begun := false } := by
  unfold run? at h
  split at h
  next r hr =>
    cases h
    exact ⟨r, hr, rfl⟩
  next => cases h

theorem step_of_run? {R : Regime} {d d' : Dialogue} {source : String}
    (h : d.run? source = some d') : Step R d d' := by
  obtain ⟨r, hr, rfl⟩ := run?_eq_some h
  exact .run hr

/-- A script that was run is the script that was read, and not begun. -/
theorem script_of_run? {d d' : Dialogue} {source : String} (h : d.run? source = some d') :
    ∃ span ss, Grammar.parse source = .ok (.program span ss) ∧
      d'.solutions = .of (.program span ss) ∧ d'.begun = false := by
  obtain ⟨r, hr, rfl⟩ := run?_eq_some h
  obtain ⟨program, hp, rfl⟩ := Session.run_eq_ok hr
  obtain ⟨span, ss, rfl, -⟩ := Grammar.parse_program hp
  exact ⟨span, ss, hp, rfl, rfl⟩

theorem solutions_of_run? {d d' : Dialogue} {source : String} (h : d.run? source = some d') :
    d'.begun = false ∧ ∃ span ss, d'.solutions = .of (.program span ss) :=
  have ⟨span, ss, _, hs, hb⟩ := script_of_run? h
  ⟨hb, span, ss, hs⟩

theorem step_of_ask? {R : Regime} {d d' : Dialogue} {fuel : Nat} (h : d.ask? fuel = some d') :
    Step R d d' := by
  obtain ⟨⟨answer, rest, c⟩, hn, rfl⟩ := Option.map_eq_some_iff.mp h
  exact .ask hn

theorem pulls_of_pull? {fuel : Nat} : ∀ {count : Nat} {d d' : Dialogue} {answers : List Answer},
    d.pull? fuel count = some (answers, d') → d.Pulls answers d'
  | 0, _, _, _, h => by
      cases h
      exact .nil _
  | count + 1, d, d', answers, h => by
      obtain ⟨⟨answer, rest, c⟩, hn, h⟩ := Option.bind_eq_some_iff.mp h
      obtain ⟨⟨answers, d'⟩, ht, h⟩ := Option.map_eq_some_iff.mp h
      cases h
      exact .cons hn (pulls_of_pull? ht)

theorem leads_of_play? {R : Regime} {d d' : Dialogue} {source : String} {fuel : Nat}
    (h : d.play? source fuel = some d') : Leads R d d' := by
  obtain ⟨d₁, hrun, hask⟩ := Option.bind_eq_some_iff.mp h
  exact .head (step_of_run? hrun) (.single (step_of_ask? hask))

end Dialogue

/-! ### Runs that are tried -/

namespace Trial

variable {ε α σ : Type}

/-- What succeeds with something that passes a test. -/
theorem exists_of_any {x : Except ε α} {test : α → Bool} (h : x.toOption.any test = true) :
    ∃ a, x = .ok a ∧ test a = true := by
  cases x with
  | error e => cases h
  | ok a => exact ⟨a, rfl, h⟩

/-- The error that a run ends with, and what it leaves. -/
def error? (run : Option (Except ε α × σ)) : Option (ε × σ) :=
  run.bind fun p =>
    match p.1 with
    | .error e => some (e, p.2)
    | .ok _    => none

theorem of_error? {run : Option (Except ε α × σ)} {e : ε} {left : σ}
    (h : error? run = some (e, left)) : run = some (.error e, left) := by
  obtain ⟨⟨result, left'⟩, rfl, h⟩ := Option.bind_eq_some_iff.mp h
  cases result with
  | error e' =>
      cases h
      rfl
  | ok a => cases h

/-- The truth values that a run gives, and what it leaves. -/
def bools? (run : Option (Except ε (List Value) × σ)) : Option (List Bool × σ) :=
  run.bind fun p =>
    match p.1 with
    | .ok vs   => (vs.mapM Value.asBool?).map (·, p.2)
    | .error _ => none

theorem eq_of_asBool? {v : Value} {b : Bool} (h : v.asBool? = some b) : v = .bool b := by
  cases v with
  | bool b' =>
      cases h
      rfl
  | _ => cases h

theorem eq_map_of_asBool? {vs : List Value} : ∀ {bs : List Bool},
    vs.mapM Value.asBool? = some bs → vs = bs.map .bool := by
  induction vs with
  | nil =>
      intro bs h
      cases h
      rfl
  | cons v vs ih =>
      intro bs h
      rw [List.mapM_cons] at h
      obtain ⟨b, hb, h⟩ := Option.bind_eq_some_iff.mp h
      obtain ⟨bs, hbs, h⟩ := Option.bind_eq_some_iff.mp h
      cases h
      rw [List.map_cons, ← ih hbs, eq_of_asBool? hb]

theorem of_bools? {run : Option (Except ε (List Value) × σ)} {bs : List Bool} {left : σ}
    (h : bools? run = some (bs, left)) : run = some (.ok (bs.map .bool), left) := by
  obtain ⟨⟨result, left'⟩, rfl, h⟩ := Option.bind_eq_some_iff.mp h
  cases result with
  | error e => cases h
  | ok vs =>
      obtain ⟨bs', hbs, e⟩ := Option.map_eq_some_iff.mp h
      cases e
      rw [eq_map_of_asBool? hbs]

end Trial

/-- The regime allows the statements of all scripts. -/
def Regime.Reads (R : Regime) : Prop :=
  ∀ source n, Grammar.parse source = .ok n → ∀ m ∈ n.children, m.Every R.node

/-- What holds of an empty context, and goes on to hold when natives are bound, holds of a new
session. -/
theorem Session.start_induction {P : Context → Prop} (options : SessionOptions) (host : Host)
    (empty : P (.empty options.limits host))
    (define : ∀ c name, P c → P (c.defineGlobal name (.native name))) :
    P (Session.start options host).context := by
  rw [Session.start]
  split
  · exact List.foldlRecOn (motive := P) Prelude.natives _ empty fun c h p _ => define c p.1 h
  · exact empty

/-- What a host binds at the start is all that tells a new session from an empty context. -/
theorem Session.start_alike (options : SessionOptions) (host : Host) :
    (Context.empty options.limits host).Alike (Session.start options host).context :=
  start_induction options host (.refl _) fun c _ h => h.trans (.frames c _)

/-- There are no closures in a new session. -/
theorem Session.start_values (options : SessionOptions) (host : Host) :
    (Session.start options host).context.frames.All (·.asClosure? = none) := by
  refine start_induction (P := fun c => c.frames.All (·.asClosure? = none)) options host ?_
    fun c _ hc => hc.set fun v m e => by cases e; rfl
  have empty : Frames.empty.All (·.asClosure? = none) := fun _ _ hf => nomatch hf
  exact empty.push fun v hv => by simp [Frame.root, Frame.values] at hv

/-! ### Requests for solutions -/

/-- A request for a solution is a request to the stream. -/
theorem Solutions.next_eq_some {s : Stream} {fuel : Nat} {c : Context}
    {x : Answer × Solutions × Context} (h : Solutions.next fuel ⟨some s⟩ c = some x) :
    ∃ r, s.Gives c r ∧ x = Solutions.answer r := by
  rw [Solutions.next_some] at h
  obtain ⟨r, hr, e⟩ := Option.map_eq_some_iff.mp h
  exact ⟨r, ⟨fuel, hr⟩, e.symm⟩

/-- A request when nothing is left. -/
theorem Solutions.next_none {fuel : Nat} {c : Context} {x : Answer × Solutions × Context}
    (h : Solutions.next fuel ⟨none⟩ c = some x) : x = (.none, ⟨none⟩, c) :=
  (Option.some.inj h).symm

namespace Dialogue

/-- What is left of the script that was run last: nothing, the script that was not begun, or a
stream that it has come to. -/
inductive Left (fresh : List Node → Prop) (rest : Stream → Prop) (d : Dialogue) : Prop
  | nothing (h : d.solutions = ⟨none⟩) (hb : d.begun = true)
  | script {span ss} (h : d.solutions = .of (.program span ss)) (hb : d.begun = false)
      (hss : fresh ss)
  | rest {s} (h : d.solutions = ⟨some s⟩) (hb : d.begun = true) (hs : rest s)

section

variable {fresh : List Node → Prop} {rest : Stream → Prop} {d : Dialogue}

theorem Left.of_script (h : d.Left fresh rest) {span : Span} {ss : List Node}
    (hs : d.solutions = .of (.program span ss)) (hb : d.begun = false) : fresh ss := by
  cases h with
  | nothing h _ => cases hs.symm.trans h
  | script h _ hss =>
      cases hs.symm.trans h
      exact hss
  | rest _ hb' _ => cases hb.symm.trans hb'

theorem Left.of_rest (h : d.Left fresh rest) {s : Stream} (hs : d.solutions = ⟨some s⟩)
    (hb : d.begun = true) : rest s := by
  cases h with
  | nothing h _ => cases hs.symm.trans h
  | script _ hb' _ => cases hb.symm.trans hb'
  | rest h _ hr =>
      cases hs.symm.trans h
      exact hr

end

/-- A dialogue after a reply. -/
def replied (d : Dialogue) (r : Reply Stream Outcome) : Dialogue :=
  d.answered (Solutions.answer r).1 (Solutions.answer r).2.1 (Solutions.answer r).2.2

theorem answered_eq_replied {d : Dialogue} {r : Reply Stream Outcome} {answer : Answer}
    {rest : Solutions} {c : Context} (h : (answer, rest, c) = Solutions.answer r) :
    d.answered answer rest c = d.replied r := by
  rw [replied]
  rw [← h]

/-- What a reply leaves. -/
theorem left_replied {fresh : List Node → Prop} {rest : Stream → Prop} {d : Dialogue}
    {r : Reply Stream Outcome} (h : ∀ outcome s c, r = .yield outcome s c → rest s) :
    (d.replied r).Left fresh rest := by
  cases r with
  | yield outcome s c => exact .rest rfl rfl (h outcome s c rfl)
  | finished c => exact .nothing rfl rfl
  | failed failure c => exact .nothing rfl rfl

/-- What can be said of a dialogue under a regime. -/
structure Fits (R : Regime) (d : Dialogue) : Prop where
  context : d.context.Fits R
  solutions : d.Left (fun ss => ∀ m ∈ ss, m.Every R.node) fun s => s.Fits R d.context.frames.next

variable {R : Regime} {d d' : Dialogue}

/-- A reply that keeps to the regime leaves a dialogue that fits. -/
theorem fits_replied {n : Nat} {r : Reply Stream Outcome}
    (h : R.Leaves (fun n s => s.Fits R n) (fun n o => o.Fits R n) n r) : (d.replied r).Fits R := by
  obtain ⟨hc, -, hy⟩ := h
  refine ⟨?_, left_replied fun outcome s c e => ?_⟩
  · cases r <;> exact hc
  · subst e
    exact (hy _ _ _ rfl).2

theorem Fits.step (hR : R.Reads) (h : d.Fits R) (hs : Step R d d') : d'.Fits R := by
  obtain ⟨hc, hl⟩ := h
  cases hs with
  | @define name value hv =>
      have hn : (d.session.define name value).context.frames.next = d.context.frames.next :=
        Frames.next_set _ _
      -- A constant changes a table and no number of frames.
      refine ⟨hc.defineGlobal name hv, ?_⟩
      cases hl with
      | nothing h hb => exact .nothing h hb
      | script h hb hss => exact .script h hb hss
      | rest h hb hs => exact .rest h hb (hn.symm ▸ hs)
  | run hr =>
      obtain ⟨program, hp, rfl⟩ := Session.run_eq_ok hr
      obtain ⟨span, ss, rfl, -⟩ := Grammar.parse_program hp
      exact ⟨hc, .script rfl rfl fun m hm => hR _ _ hp m hm⟩
  | @ask fuel answer rest c hn =>
      cases hl with
      | nothing h hb =>
          rw [h] at hn
          cases Solutions.next_none hn
          exact ⟨hc, .nothing rfl rfl⟩
      | @script span ss h hb hss =>
          rw [h] at hn
          obtain ⟨r, hr, e⟩ := Solutions.next_eq_some hn
          -- The first request is asked of the node, and the node asks its unfolding.
          have inside : (Stream.nested span (.program ss)).Fits R d.context.frames.next := hss
          rw [answered_eq_replied e]
          exact fits_replied (R.kept.gives ⟨hc, inside⟩ (Stream.gives_node.mp hr))
      | rest h hb hs =>
          rw [h] at hn
          obtain ⟨r, hr, e⟩ := Solutions.next_eq_some hn
          rw [answered_eq_replied e]
          exact fits_replied (R.kept.gives ⟨hc, hs⟩ hr)

/-- **A dialogue keeps to its regime.** -/
theorem Fits.leads (hR : R.Reads) (h : d.Fits R) (hl : Leads R d d') : d'.Fits R := by
  induction hl with
  | refl => exact h
  | tail _ hs ih => exact ih.step hR hs

theorem fits_start (options : SessionOptions) {host : Host} (h : host.Fits R)
    (h₀ : R.first = 0 := by rfl) : (start options host).Fits R := by
  have started : (Session.start options host).context.Fits R :=
    Session.start_induction options host (Context.fits_empty _ h h₀)
      fun _ name hc => hc.defineGlobal name trivial
  exact ⟨started, .nothing rfl rfl⟩

end Dialogue

end Nondet
