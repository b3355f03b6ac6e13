import Nondet.Proofs.Pull.Refers
import Nondet.Proofs.Session.Asks
import Nondet.Proofs.Session.Transcript
import Nondet.Proofs.Tree.Completion

/-!
# Session — Completion

Completion and evaluation.  A name is resolved while a script runs (`Dialogue.Resolves`); what is
resolved is a name that a node of some script has, in frames that stand for the scopes around that
node (`History.resolves_name_of_node`).  So whatever a frame of that script has is declared by a
scope around the node, and is offered where the node begins (`completion_offers_resolved`).

A host can break this with a function whose body is a script: that leaves frames behind on the
stack, in which the script that called the function goes on (`completion_misses_frame_left_behind`).
-/

namespace Nondet

variable {l : Limits} {c : Context} {fs : Frames} {i : FrameId} {span : Span} {name : String}

/-- Of the frames around one that stands for scopes, those that are not older than the frame of the
script have names that a scope around the place declares. -/
theorem Frames.Stands.own {began : FrameId → List Node → Prop} {s : Site} (hl : fs.Layered)
    (h : fs.Stands began i s) : ∃ j, began j s.script ∧ j ∈ fs.chain i ∧
      ∀ k ∈ fs.chain i, j ≤ k → ∃ names ∈ s.scopes, (fs.bindings k).Binds names := by
  induction h with
  | @script i f script hb hf hp hn =>
      refine ⟨i, hb, hl.chain_eq hf ▸ List.mem_cons_self, fun k hk hle => ?_⟩
      obtain ⟨p, hp⟩ := Option.isSome_iff_exists.mp hp
      rw [hl.chain_eq hf, hp] at hk
      rcases List.mem_cons.mp hk with rfl | hk
      · rw [Frames.bindings_of_get? hf]
        exact ⟨_, List.mem_singleton_self _, hn⟩
      · -- The frames around the script's own are older.
        have older := hl.chain_le p hk
        exact absurd (hl i f p hf hp) (Nat.not_lt_of_le (Nat.le_trans hle older))
  | @inside i f p s names hf hp hn _ ih =>
      obtain ⟨j, hb, hj, hown⟩ := ih
      have e : fs.chain i = i :: fs.chain p := by rw [hl.chain_eq hf, hp]; rfl
      refine ⟨j, hb, e ▸ List.mem_cons_of_mem _ hj, fun k hk hle => ?_⟩
      rw [e] at hk
      rcases List.mem_cons.mp hk with rfl | hk
      · rw [Frames.bindings_of_get? hf]
        exact ⟨_, List.mem_cons_self, hn⟩
      · obtain ⟨names', hmem, hbinds⟩ := hown k hk hle
        exact ⟨names', List.mem_cons_of_mem _ hmem, hbinds⟩

/-! ### What is resolved -/

/-- The node stands for the name, or assigns to it. -/
inductive Node.Mentions : Node → Span → String → Prop
  | identifier (span : Span) (name : String) : Mentions (.identifier span name) span name
  | assignment (span : Span) (name : String) (value : Node) :
      Mentions (.assignment span name value) span name

namespace Node.Mentions

variable {n : Node}

theorem span_eq (h : n.Mentions span name) : n.span = span := by
  cases h <;> rfl

/-- A node with a name is not made up. -/
theorem written (h : n.Mentions span name) {script : List Node} (hn : n.MadeFrom script) :
    n.In script := by
  cases hn with
  | part hn => exact hn
  | constant hn | returned hn => cases h

end Node.Mentions

/-- During the next request the name is resolved, for a node with the span, from a frame outwards:
its value is looked up, or it is assigned an outcome of what is assigned. -/
inductive Dialogue.Resolves (d : Dialogue) (span : Span) (name : String) : Frames → FrameId → Prop
  | lookup {c : Context} (h : d.Asks (.stream (.deferred (.lookup span name)) c)) :
      Resolves d span name c.frames c.current
  | assign {c c' : Context} {inner rest : Stream} {outcome : Outcome}
      (h : d.Asks (.stream (.map inner (.assign span name)) c))
      (hr : inner.Gives c (.yield outcome rest c')) : Resolves d span name c'.frames c'.current

namespace History

variable {h h' : History}

/-- Between two requests, what is left of the script refers to names of nodes only. -/
def Refers (h : History) : Prop :=
  ∀ st, h.dialogue.begun = true → h.dialogue.solutions = ⟨some st⟩ →
    st.Refers (fun i ss => (i, ss) ∈ h.begun) h.dialogue.context.frames h.dialogue.context.current

/-- So does what is asked inside the script's node. -/
theorem Refers.asked (hr : h.Refers) {st : Stream} (hin : h.dialogue.Inside span st c) :
    st.Refers h.Began c.frames c.current := by
  cases hin with
  | script _ _ => trivial
  | rest hs hb => exact Stream.Refers.mono began_of_mem (.refl _ _) (hr (.nested span st) hb hs)

theorem Refers.step (hl : 1 ≤ l.maxNesting) (hc : h.Scoped l) (hr : h.Refers) (hs : Step h h') :
    h'.Refers := by
  obtain ⟨-, longer⟩ := hc.tabled.step hl hc.fits hc.disciplined (hc.dialogue hs)
  cases hs with
  | define name hv => exact fun st hb hst => (hr st hb hst).mono (fun _ _ hm => hm) longer
  | run hr => exact fun st hb => nomatch hb
  | ask hn =>
      intro st _ hst
      rcases hc.disciplined.asks hl hc.fits hn with ⟨-, e, -⟩ | ⟨span, st₀, c₀, r, hin, -, ha, hg, e⟩
      · cases e
        cases hst
      · obtain ⟨⟨⟨⟨-, hd⟩, -⟩, -⟩, hrest⟩ := (referring_kept l h.Began).gives
          ⟨hc.allowed hin ha, hr.asked hin⟩ hg
        cases r with
        | yield outcome st' c' =>
            cases e
            cases hst
            exact hd.1.current ▸ hrest
        | finished c' =>
            cases e
            cases hst
        | failed failure c' =>
            cases e
            cases hst

theorem Refers.leads (hl : 1 ≤ l.maxNesting) (hc : h.Scoped l) (hr : h.Refers) (hs : Leads h h') :
    h'.Refers := by
  induction hs with
  | refl => exact hr
  | tail hs hlast ih => exact ih.step hl (hc.leads hl hs) hlast

/-- What the contract of names says of whatever is asked inside the script's node. -/
theorem Refers.within (hl : 1 ≤ l.maxNesting) (hc : h.Scoped l) (hr : h.Refers) {q : Query}
    (hq : h.dialogue.Asks q) (ho : ¬ h.dialogue.Outermost q) :
    ((scopedRequests h.Began l).and (referring h.Began)).Allows q := by
  rcases hc.disciplined.asks_cases hl hc.fits hq with ho' | ⟨span, st, c, hin, ha, hw⟩
  · exact absurd ho' ho
  · exact (referring_kept l h.Began).within hw ⟨hc.allowed hin ha, hr.asked hin⟩

/-- **A name that is resolved is that of a node**, and the frames in which it is resolved stand for
the scopes around the node. -/
theorem resolves_name_of_node (hl : 1 ≤ l.maxNesting) (hc : h.Scoped l) (hr : h.Refers)
    (hq : h.dialogue.Resolves span name fs i) :
    fs.Layered ∧ ∃ (n : Node) (s : Site), n.Mentions span name ∧ n.LiesAt s ∧ fs.Stands h.Began i s := by
  cases hq with
  | lookup hq =>
      obtain ⟨⟨⟨⟨⟨fits, -⟩, -⟩, -⟩, -⟩, s, stands, hn⟩ := hr.within hl hc hq nofun
      exact ⟨fits.layered, _, s, .identifier span name, hn, stands⟩
  | @assign c c' inner rest outcome hq hg =>
      have allowed := hr.within hl hc hq nofun
      have asks : Query.Asks (.stream (.map inner (.assign span name)) c) (.stream inner c) :=
        Move.Asks.stream
      obtain ⟨⟨-, s₀, ⟨hscoped, hinner⟩ | begins⟩, hrefers, value, hbears⟩ := id allowed
      · have asked := (referring_kept l h.Began).within (.single asks) allowed
        obtain ⟨⟨⟨⟨⟨fits, -⟩, hd⟩, he, -⟩, -⟩, -⟩ := (referring_kept l h.Began).gives asked hg
        rw [hinner.1.opening?] at he
        obtain ⟨s, stands, hn⟩ := hbears.mono Scoping.same he
        exact ⟨fits.layered, _, s, .assignment span name value, hn, hd.1.current ▸ stands⟩
      · cases begins

end History

/-- **Completion offers every name that evaluation resolves.**  Whatever a host without closures of
its own does with a session, let a name be resolved in it.  Then a node of some script that was run
has this name; the frames in which the name is resolved stand for the scopes around the node, the
frame in which the script was begun is among them, and a name that this frame has, or any that was
created later, is among the names declared around the beginning of the node. -/
theorem completion_offers_resolved (options : SessionOptions) {host : Host} (hh : host.HandsOn)
    {t : Transcript} (ht : Transcript.Leads (.start options host) t)
    (hq : t.dialogue.Resolves span name fs i) :
    ∃ (n : Node) (s : Site) (whole : Span) (j : FrameId), ∃ source ∈ t.sources, n.Mentions span name ∧ n.LiesAt s ∧
      fs.Stands t.history.Began i s ∧ Grammar.parse source = .ok (.program whole s.script) ∧
      t.history.Began j s.script ∧ j ∈ fs.chain i ∧
      ∀ k ∈ fs.chain i, j ≤ k → (fs.binding? k name).isSome →
        name ∈ declarationsAt (.program whole s.script) span.start := by
  rcases Nat.eq_zero_or_pos options.limits.maxNesting with hl | hl
  · -- No node may be evaluated, so nothing is resolved.
    have idle := (Dialogue.idle_start options host hl).leads ht.dialogue
    cases hq with
    | lookup hq => cases idle.asks hq
    | assign hq _ => cases idle.asks hq
  · have started := History.scoped_start options hh
    have placed := started.leads hl ht.history
    have refers : t.history.Refers :=
      History.Refers.leads hl started (fun _ _ hs => nomatch hs) ht.history
    obtain ⟨layered, n, s, hname, hn, stands⟩ := History.resolves_name_of_node hl placed refers hq
    obtain ⟨j, hb, hj, own⟩ := stands.own layered
    obtain ⟨source, hs, whole, hp⟩ :=
      ((Transcript.sourced_start options host).leads ht).began hb
    refine ⟨n, s, whole, j, source, hs, hname, hn, stands, hp, hb, hj, fun k hk hle hbound => ?_⟩
    obtain ⟨names, hmem, hbinds⟩ := own k hk hle
    obtain ⟨k, hk, part⟩ := hname.written hn.madeFrom
    have bounds := (Grammar.parse_within hp n (.head hk part)).bounds
    have around : n.span.contains span.start :=
      Span.contains_iff.mpr (hname.span_eq ▸ ⟨Nat.le_refl _, bounds.2.1⟩)
    exact hn.declarations hp around names hmem name ((hbinds name).mp hbound)

/-! ### Two runs -/

/-- The span and the context of a request that looks the name up. -/
def Query.lookup? (name : String) : Query → Option (Span × Context)
  | .stream (.deferred (.lookup span other)) c => if other = name then some (span, c) else none
  | _                                          => none

theorem Query.eq_of_lookup? {q : Query} (h : q.lookup? name = some (span, c)) :
    q = .stream (.deferred (.lookup span name)) c := by
  unfold lookup? at h
  split at h
  · split at h
    next e =>
      cases h
      rw [e]
    next => cases h
  · cases h

/-- The first request on the way that looks the name up. -/
def Dialogue.lookup? (d : Dialogue) (fuel : Nat) (name : String) : Option (Span × Context) :=
  (d.find? fuel fun q => (q.lookup? name).isSome).bind (·.lookup? name)

theorem Dialogue.resolves_of_lookup? {d : Dialogue} {fuel : Nat}
    (h : d.lookup? fuel name = some (span, c)) : d.Resolves span name c.frames c.current := by
  obtain ⟨q, hq, h⟩ := Option.bind_eq_some_iff.mp h
  rw [Query.eq_of_lookup? h] at hq
  exact .lookup (asks_of_find? hq)

/-- A parameter is looked up in the body of its function, and offered there. -/
theorem completion_offers_parameter :
    Prelude.host.HandsOn ∧ ∃ t fs i span,
      Transcript.Leads (.start ⟨.standard, true⟩ Prelude.host) t ∧
      t.dialogue.Resolves span "x" fs i ∧
      ∃ (s : Site) (whole : Span), ∃ source ∈ t.sources,
        Grammar.parse source = .ok (.program whole s.script) ∧
        "x" ∈ declarationsAt (.program whole s.script) span.start := by
  have played : ((Transcript.start ⟨.standard, true⟩ Prelude.host).run?
      "function f(x) \x7b return x; \x7d f(true);").any (fun t =>
        (t.dialogue.lookup? 40 "x").any fun p =>
          (p.2.frames.binding? p.2.current "x").isSome &&
            decide (p.2.current ∈ p.2.frames.chain p.2.current) &&
            (p.2.frames.chain p.2.current).all (· ≤ p.2.current)) = true := by decide +kernel
  obtain ⟨t, ht, played⟩ := (Option.any_eq_true _ _).mp played
  obtain ⟨⟨span, c⟩, hc, played⟩ := (Option.any_eq_true _ _).mp played
  obtain ⟨played, older⟩ := Bool.and_eq_true_iff.mp played
  obtain ⟨bound, own⟩ := Bool.and_eq_true_iff.mp played
  have leads := Relation.ReflTransGen.single (Transcript.step_of_run? ht).1
  have resolves := Dialogue.resolves_of_lookup? hc
  obtain ⟨n, s, whole, j, source, hs, -, -, -, hp, -, hj, offers⟩ :=
    completion_offers_resolved ⟨.standard, true⟩ Prelude.handsOn leads resolves
  have hle : j ≤ c.current := of_decide_eq_true (List.all_eq_true.mp older j hj)
  exact ⟨Prelude.handsOn, t, c.frames, c.current, span, leads, resolves, s, whole, source, hs, hp,
    offers c.current (of_decide_eq_true own) hle bound⟩

/-- The node is the name, written at the span. -/
def Node.isIdentifier (span : Span) (name : String) : Node → Bool
  | .identifier span' name' => span' == span && name' == name
  | _                       => false

theorem Node.mentions_of_isIdentifier {n : Node} (h : n.isIdentifier span name = true) :
    n.Mentions span name := by
  unfold isIdentifier at h
  split at h
  · obtain ⟨e, e'⟩ := Bool.and_eq_true_iff.mp h
    rw [eq_of_beq e, eq_of_beq e']
    exact .identifier span name
  · cases h

/-- The script that is run next, if no request was made of it yet. -/
def Solutions.script? : Solutions → Option Node
  | ⟨some (.node program)⟩ => some program
  | _                      => none

/-- Where a host builds a function around a script, calling it leaves a frame of the caller on the
stack, and the rest of the script finds names in it that are not offered there. -/
theorem completion_misses_frame_left_behind :
    ¬ ∀ (d : Dialogue) (source : String) (whole : Span) (ss : List Node) (n : Node) (span : Span)
        (name : String) (fs : Frames) (i k : FrameId),
        Dialogue.Leads .any (.start ⟨.standard, false⟩ Prelude.host) d →
        Grammar.parse source = .ok (.program whole ss) → d.solutions = .of (.program whole ss) →
        d.begun = false → n.In ss → n.Mentions span name → d.Resolves span name fs i →
        k ∈ fs.chain i → d.context.frames.next ≤ k → (fs.binding? k name).isSome →
          name ∈ declarationsAt (.program whole ss) span.start := by
  intro h
  let f : Value := .aroundScript
  let d₁ : Dialogue := .start ⟨.standard, false⟩ Prelude.host
  let d₂ : Dialogue := { d₁ with session := d₁.session.define "f" f }
  have hf : f.Fits .any d₁.context.frames.next := ⟨fun _ _ => trivial, trivial⟩
  have defined : Dialogue.Step .any d₁ d₂ := .define "f" hf
  have played : (d₂.run? "function g(y) \x7b f(); \x7d f(); g(true); g(false); y;").any (fun d =>
      (d.lookup? 60 "y").any fun p => d.solutions.script?.any fun program =>
        program.children.any (fun statement => statement.children.any (·.isIdentifier p.1 "y")) &&
          !(declarationsAt program p.1.start).contains "y" &&
          (p.2.frames.chain p.2.current).any fun k =>
            decide (d.context.frames.next ≤ k) && (p.2.frames.binding? k "y").isSome) = true := by
    decide +kernel
  obtain ⟨d, hd, played⟩ := (Option.any_eq_true _ _).mp played
  obtain ⟨⟨span, c⟩, hc, played⟩ := (Option.any_eq_true _ _).mp played
  obtain ⟨whole, ss, hp, hs, hb⟩ := Dialogue.script_of_run? hd
  obtain ⟨program, hprogram, played⟩ := (Option.any_eq_true _ _).mp played
  rw [hs] at hprogram
  cases hprogram
  obtain ⟨played, found⟩ := Bool.and_eq_true_iff.mp played
  obtain ⟨written, missed⟩ := Bool.and_eq_true_iff.mp played
  obtain ⟨statement, hstatement, written⟩ := List.any_eq_true.mp written
  obtain ⟨n, hn, written⟩ := List.any_eq_true.mp written
  obtain ⟨k, hk, found⟩ := List.any_eq_true.mp found
  obtain ⟨new, bound⟩ := Bool.and_eq_true_iff.mp found
  refine absurd ?_ (show "y" ∉ declarationsAt (.program whole ss) span.start by simpa using missed)
  exact h d _ whole ss n span "y" c.frames c.current k
    (.head defined (.single (Dialogue.step_of_run? hd))) hp hs hb
    ⟨statement, hstatement, .single hn⟩ (Node.mentions_of_isIdentifier written)
    (Dialogue.resolves_of_lookup? hc) hk (of_decide_eq_true new) bound

end Nondet
