import Nondet.Proofs.Context.Scopes
import Nondet.Proofs.Pull.Names

/-!
# Pull — Scopes

Requests keep to the places of the nodes in them.  A stream is scoped at a place when the nodes in it
stand there, or, behind a frame that the stream goes back to, at a place for which that frame stands
(`Stream.Scoped`).  Such a stream is asked where the innermost frame stands for its place, or it is
about to hoist statements in a frame that was just added (`Stream.Begins`); either way what it
leaves is scoped at the same place, however much was evaluated and undone meanwhile
(`scoping_kept`).

A frame gets all its names at once, before any statement in it runs, and from then on has no others.
So the only moment at which a frame does not stand for its scope is before it is hoisted in, and
nobody else refers to the frame by then.
-/

namespace Nondet

open Nondet.Action

variable {began began' : FrameId → List Node → Prop} {fs fs' : Frames} {s : Site} {c c' : Context}
  {α β σ : Type} {P : Value → Prop}

/-! ### Streams -/

section

variable (began : FrameId → List Node → Prop) (fs : Frames)

def Outcome.Scoped (o : Outcome) : Prop := o.toValue.Scoped began fs

def Deferred.Scoped (s : Site) : Deferred → Prop
  | .lookup _ _                => True
  | .defineFunction _ function => function.LiesAt s
  | .closure function          => function.LiesAt s
  | .native _ _ arguments      => ∀ a ∈ arguments, a.Scoped began fs
  | .notFunction _ _           => True

def Transform.Scoped : Transform → Prop
  | .binary _ _ left => left.Scoped began fs
  | _                => True

/-- What is evaluated next stands at the place. -/
def Continuation.LiesAt (s : Site) : Continuation → Prop
  | .rightOperand _ _ right             => right.LiesAt s
  | .branch _ _ consequent alternate    => consequent.LiesAt s ∧ ∀ m ∈ alternate, m.LiesAt s
  | .arguments _ nodes                  => ∀ m ∈ nodes, m.LiesAt s

/-- The values in the tables that a snapshot remembers are scoped. -/
def Snapshot.Scoped (snapshot : Snapshot) : Prop :=
  ∀ p ∈ snapshot.bindings, ∀ name v m, (name, .assigned v m) ∈ p.2 → v.Scoped began fs

mutual

/-- The nodes in the stream stand at the place, or at the place of the frame that is around them in
the stream.  Statements that are not begun have no frame yet that stands for their scope. -/
def Stream.Scoped : Stream → Site → Prop
  | .empty, _                        => True
  | .once outcome, _                 => outcome.Scoped began fs
  | .deferred what, s                => what.Scoped began fs s
  | .node n, s                       => n.LiesAt s
  | .nested _ inner, s               => inner.Scoped s
  | .map inner f, s                  => inner.Scoped s ∧ f.Scoped began fs
  | .flatMap outer next, s           => outer.Scoped s ∧ next.LiesAt s
  | .append first second, s          => first.Scoped s ∧ second.Scoped s
  | .calls _ callee arguments, s     => callee.Scoped began fs ∧ arguments.Scoped s
  | .amb alternatives, s             => ∀ m ∈ alternatives, m.LiesAt s
  | .choice snapshot current later, s =>
    snapshot.Scoped began fs ∧ current.Scoped s ∧ ∀ m ∈ later, m.LiesAt s
  | .block statements, s             => ∀ m ∈ statements, m.LiesAt (s.inside (Node.declared statements))
  | .program _, _                    => False
  | .body _, _                       => False
  | .sequence begun, s               => begun.Scoped s
  | .framed frame inner, _           => ∃ s, fs.Stands began frame s ∧ inner.Scoped s
  | .call _ closure arguments this, _ =>
    closure.Scoped began fs ∧ (∀ a ∈ arguments, a.Scoped began fs) ∧ ∀ v ∈ this, v.Scoped began fs
  | .activation frame inner, _       => ∃ s, fs.Stands began frame s ∧ inner.Scoped s

def Odometer.Scoped : Odometer → Site → Prop
  | .start arguments, s      => ∀ m ∈ arguments, m.LiesAt s
  | .turning begun values, s => begun.Scoped s ∧ ∀ v ∈ values, v.Scoped began fs

def OpenArguments.Scoped : OpenArguments → Site → Prop
  | .none, _                        => True
  | .push stream _ later earlier, s => stream.Scoped s ∧ (∀ m ∈ later, m.LiesAt s) ∧ earlier.Scoped s

def OpenStatements.Scoped : OpenStatements → Site → Prop
  | .none, _                      => True
  | .push stream later earlier, s => stream.Scoped s ∧ (∀ m ∈ later, m.LiesAt s) ∧ earlier.Scoped s

end

end

section Growing

variable (hb : ∀ i script, began i script → began' i script) (he : fs.Extends .blank fs')

include hb he

theorem Deferred.Scoped.mono {what : Deferred} (h : what.Scoped began fs s) :
    what.Scoped began' fs' s := by
  cases what with
  | native _ _ _ => exact fun a ha => (h a ha).mono hb he
  | _ => exact h

theorem Transform.Scoped.mono {f : Transform} (h : f.Scoped began fs) : f.Scoped began' fs' := by
  cases f with
  | binary _ _ left => exact Value.Scoped.mono hb he h
  | _ => exact h

theorem Snapshot.Scoped.mono {snapshot : Snapshot} (h : snapshot.Scoped began fs) :
    snapshot.Scoped began' fs' := fun p hp name v m hv => (h p hp name v m hv).mono hb he

end Growing

mutual

theorem Stream.Scoped.mono (hb : ∀ i script, began i script → began' i script)
    (he : fs.Extends .blank fs') :
    ∀ {st : Stream} {s : Site}, st.Scoped began fs s → st.Scoped began' fs' s
  | .empty, _, _ => trivial
  | .once _, _, h => Value.Scoped.mono hb he h
  | .deferred _, _, h => Deferred.Scoped.mono hb he h
  | .node _, _, h => h
  | .nested _ inner, s, h => (Stream.Scoped.mono hb he : inner.Scoped began fs s → _) h
  | .map _ _, _, h => ⟨h.1.mono hb he, h.2.mono hb he⟩
  | .flatMap _ _, _, h => ⟨h.1.mono hb he, h.2⟩
  | .append _ _, _, h => ⟨h.1.mono hb he, h.2.mono hb he⟩
  | .calls _ _ _, _, h => ⟨h.1.mono hb he, h.2.mono hb he⟩
  | .amb _, _, h => h
  | .choice _ _ _, _, h => ⟨h.1.mono hb he, h.2.1.mono hb he, h.2.2⟩
  | .block _, _, h => h
  | .sequence begun, s, h =>
    (OpenStatements.Scoped.mono hb he : begun.Scoped began fs s → begun.Scoped began' fs' s) h
  | .framed _ _, _, ⟨s, hs, hi⟩ => ⟨s, hs.mono hb he, hi.mono hb he⟩
  | .call _ _ _ _, _, h =>
    ⟨Value.Scoped.mono (v := .closure _) hb he h.1, fun a ha => (h.2.1 a ha).mono hb he,
      fun v hv => (h.2.2 v hv).mono hb he⟩
  | .activation _ _, _, ⟨s, hs, hi⟩ => ⟨s, hs.mono hb he, hi.mono hb he⟩

theorem Odometer.Scoped.mono (hb : ∀ i script, began i script → began' i script)
    (he : fs.Extends .blank fs') :
    ∀ {o : Odometer} {s : Site}, o.Scoped began fs s → o.Scoped began' fs' s
  | .start _, _, h => h
  | .turning _ _, _, h => ⟨h.1.mono hb he, fun v hv => (h.2 v hv).mono hb he⟩

theorem OpenArguments.Scoped.mono (hb : ∀ i script, began i script → began' i script)
    (he : fs.Extends .blank fs') :
    ∀ {begun : OpenArguments} {s : Site}, begun.Scoped began fs s → begun.Scoped began' fs' s
  | .none, _, _ => trivial
  | .push _ _ _ _, _, h => ⟨h.1.mono hb he, h.2.1, h.2.2.mono hb he⟩

theorem OpenStatements.Scoped.mono (hb : ∀ i script, began i script → began' i script)
    (he : fs.Extends .blank fs') :
    ∀ {begun : OpenStatements} {s : Site}, begun.Scoped began fs s → begun.Scoped began' fs' s
  | .none, _, _ => trivial
  | .push _ _ _, _, h => ⟨h.1.mono hb he, h.2.1, h.2.2.mono hb he⟩

end

/-! ### The first unfolding -/

/-- A node unfolds into nodes that stand where it stands. -/
theorem Stream.scoped_build : ∀ {n : Node}, n.ScriptFree → n.LiesAt s →
    (Stream.build n).Scoped began fs s
  | .literal _ value, _, _ => by cases value <;> trivial
  | .identifier span name, _, _ => by
      rw [Stream.build]
      split <;> trivial
  | .call span callee arguments, _, h => by
      rw [Stream.build]
      have ha : ∀ a ∈ arguments, a.LiesAt s := fun a ha => h.part rfl (List.mem_cons_of_mem _ ha)
      split
      · exact ha
      · exact ⟨h.part rfl List.mem_cons_self, ha⟩
  | .unary _ _ _, _, h => ⟨h.part rfl List.mem_cons_self, trivial⟩
  | .binary _ _ _ _, _, h =>
    ⟨h.part rfl (by simp [Node.children]), h.part rfl (by simp [Node.children])⟩
  | .logical span .and _ _, _, h =>
    ⟨h.part rfl (by simp [Node.children]), h.part rfl (by simp [Node.children]),
      fun _ hm => by cases hm; exact h.constant false⟩
  | .logical span .or _ _, _, h =>
    ⟨h.part rfl (by simp [Node.children]), h.constant true,
      fun _ hm => by cases hm; exact h.part rfl (by simp [Node.children])⟩
  | .conditional _ _ _ _, _, h =>
    ⟨h.part rfl (by simp [Node.children]), h.part rfl (by simp [Node.children]),
      fun _ hm => by cases hm; exact h.part rfl (by simp [Node.children])⟩
  | .variableDeclaration _ _ _ _, _, h => ⟨h.part rfl List.mem_cons_self, trivial⟩
  | .assignment _ _ _, _, h => ⟨h.part rfl List.mem_cons_self, trivial⟩
  | .functionDeclaration _ _ _ _ _, _, h => ⟨_, h, rfl⟩
  | .arrowFunction _ _ _ _ _, _, h => ⟨_, h, rfl⟩
  | .ifStatement _ _ _ _, _, h =>
    ⟨h.part rfl (by simp [Node.children]), h.part rfl (by simp [Node.children]),
      fun _ hm => by cases hm; exact h.part rfl (by simp [Node.children])⟩
  | .returnStatement _ none, _, _ => trivial
  | .returnStatement _ (some _), _, h => ⟨h.part rfl (by simp [Node.children]), trivial⟩
  | .block _ _, _, h => fun _ hm => h.block hm
  | .expressionStatement _ expression, hn, h =>
    Stream.scoped_build (n := expression) (hn.child List.mem_cons_self)
      (h.part rfl (by simp [Node.children]))
  | .program _ _, hn, _ => nomatch hn.self

theorem Stream.scoped_ofStatements : ∀ {ss : List Node}, (∀ m ∈ ss, m.LiesAt s) →
    (Stream.ofStatements ss).Scoped began fs s
  | [], _ => trivial
  | _ :: _, h => ⟨h _ List.mem_cons_self, fun m hm => h m (List.mem_cons_of_mem _ hm), trivial⟩

theorem scoped_apply {callee : Value} (hc : callee.Scoped began fs) {arguments : List Value}
    (ha : ∀ a ∈ arguments, a.Scoped began fs) (span : Span) :
    (apply callee arguments span none).Scoped began fs s := by
  cases callee with
  | closure closure => exact ⟨hc, ha, nofun⟩
  | native name => exact ha
  | _ => trivial

theorem Continuation.Next.scoped {next : Continuation} {v : Value} {st : Stream}
    (h : next.Next v st) (hn : next.LiesAt s) (hv : v.Scoped began fs) : st.Scoped began fs s := by
  cases h with
  | right span op n => exact ⟨hn, hv⟩
  | consequent span test n alternate => exact hn.1
  | alternate span test consequent n => exact hn.2 n rfl
  | neither span test consequent => trivial
  | calls span nodes => exact ⟨hv, hn⟩

theorem Stream.Scoped.opening? : ∀ {st : Stream}, st.Scoped began fs s → st.opening? c = none := by
  intro st h
  unfold Stream.opening?
  split
  · exact absurd h id
  · exact absurd h.choose_spec.2 id
  · exact absurd h.choose_spec.2 id
  · rfl

/-! ### Actions -/

theorem Deferred.Scoped.makes {what : Deferred} (h : what.Scoped began c.frames s)
    (hs : c.frames.Stands began c.current s) (hh : c.host.HandsOn) :
    what.Makes (Value.Scoped began c.frames) c := by
  cases what with
  | defineFunction span function | closure function => exact fun _ => ⟨s, h, hs⟩
  | native span name arguments => exact hh.gives (fun _ => Value.scoped_of_asClosure?) h
  | _ => trivial

/-! ### The contract -/

section

variable (began : FrameId → List Node → Prop)

/-- The innermost frame stands for the innermost scope around the place, and all values in frames
are scoped. -/
structure Context.Scoped (s : Site) (c : Context) : Prop where
  values : c.frames.All (Value.Scoped began c.frames)
  stands : c.frames.Stands began c.current s
  host : c.host.HandsOn

/-- A frame that is going to stand for the scope of some statements, once these are hoisted. -/
inductive Frames.Opens (fs : Frames) (frame : Frame) (ss : List Node) : Site → Prop
  | script (hb : began fs.next ss) (hp : frame.parent.isSome) (hn : frame.bindings.Binds []) :
      Opens fs frame ss (.top ss)
  | inside {p s names} (hp : frame.parent = some p) (h : fs.Stands began p s)
      (hn : frame.bindings.Binds names) : Opens fs frame ss (s.inside (names ++ Node.declared ss))

/-- A context in which a frame was just added to `fs` for statements that stand at the place. -/
structure Context.Opened (fs : Frames) (ss : List Node) (s : Site) (c : Context) : Prop where
  frame : ∃ frame, c.frames = fs.push frame ∧ fs.Opens began frame ss s
  values : c.frames.All (Value.Scoped began fs)
  host : c.host.HandsOn
  statements : ∀ m ∈ ss, m.LiesAt s

/-- The stream is going to hoist statements in a frame that was just added. -/
inductive Stream.Begins (s : Site) : Stream → Context → Prop
  | body {fs ss c} (h : c.Opened began fs ss s) (hc : c.current = fs.next) : Begins s (.body ss) c
  | framed {fs ss s' c} (h : c.Opened began fs ss s') (hs : fs.Stands began c.current s) :
      Begins s (.framed fs.next (.body ss)) c
  | activation {fs ss s' c} (h : c.Opened began fs ss s') (hs : fs.Stands began c.current s) :
      Begins s (.activation fs.next (.body ss)) c

/-- The stream is asked at the place. -/
def Stream.AskedAt (s : Site) (st : Stream) (c : Context) : Prop :=
  (c.Scoped began s ∧ st.Scoped began c.frames s) ∨ st.Begins began s c

/-- What holds afterwards of a request that was made at the place and in the frame `i`. -/
def Site.Passes (s : Site) (i : FrameId) (rest : Frames → σ → Prop) (item : Frames → α → Prop)
    (r : Reply σ α) : Prop :=
  r.context.frames.All (Value.Scoped began r.context.frames) ∧
    ∀ a st c, r = .yield a st c →
      c.frames.Stands began i s ∧ item c.frames a ∧ rest c.frames st

/-- Requests keep to the places of the nodes in them. -/
def scoping : Contract where
  stream st c := ∃ s, st.AskedAt began s c
  streamReply st c r := ∀ s, st.AskedAt began s c →
    s.Passes began c.current (fun fs st => st.Scoped began fs s) (Outcome.Scoped began) r
  odometer o c := ∃ s, c.Scoped began s ∧ o.Scoped began c.frames s
  odometerReply o c r := ∀ s, c.Scoped began s ∧ o.Scoped began c.frames s →
    s.Passes began c.current (fun fs o => o.Scoped began fs s)
      (fun fs values => ∀ v ∈ values, v.Scoped began fs) r

end

/-- The same scripts were begun. -/
theorem Scoping.same : ∀ i script, began i script → began i script := fun _ _ h => h

open Scoping

namespace Context.Scoped

/-- What is done in the frames leaves the place. -/
theorem after (h : c.Scoped began s) (ha : c.Alike c') (he : c.frames.Extends .blank c'.frames)
    (hv : c'.frames.All (Value.Scoped began c'.frames)) : c'.Scoped began s :=
  ⟨hv, ha.current ▸ h.stands.mono same he, ha.host ▸ h.host⟩

end Context.Scoped

/-- The frame stands for the scope of the statements when it has the names that they declare, too. -/
theorem Frames.Opens.stands {frame : Frame} {ss : List Node} (h : fs.Opens began frame ss s)
    (he : fs.Extends .blank fs') {bs : Bindings}
    (hf : fs'.get? fs.next = some { frame with bindings := bs })
    (hn : ∀ name, (bs.get? name).isSome ↔
      (frame.bindings.get? name).isSome ∨ name ∈ Node.declared ss) :
    fs'.Stands began fs.next s := by
  cases h with
  | script hb hp hnames =>
      refine .script hb hf hp fun name => ?_
      rw [hn, hnames name, List.mem_nil_iff, false_or]
  | inside hp h hnames =>
      refine .inside hf hp (fun name => ?_) (h.mono same he)
      rw [hn, hnames name, List.mem_append]

namespace Scoping

variable {l : Limits} {i : FrameId} {rest : Frames → σ → Prop} {item : Frames → α → Prop}

theorem finished (hv : c.frames.All (Value.Scoped began c.frames)) :
    s.Passes began i rest item (.finished c) := ⟨hv, nofun⟩

theorem failed (hv : c.frames.All (Value.Scoped began c.frames)) (failure : Failure) :
    s.Passes began i rest item (.failed failure c) := ⟨hv, nofun⟩

theorem yields (hc : c.Scoped began s) (hi : c.current = i) {a : α} (ha : item c.frames a) {t : σ}
    (ht : rest c.frames t) : s.Passes began i rest item (.yield a t c) :=
  ⟨hc.values, fun _ _ _ h => by cases h; exact ⟨hi ▸ hc.stands, ha, ht⟩⟩

/-- The reply of an action whose result is passed on. -/
theorem ofResult {a : Action α} {Q : α → Prop} (hc : c.Scoped began s) (hi : c.current = i)
    (ha : a.Hands (Value.Scoped began c.frames) Q c) (he : a.Extends .blank) (hs : a.Steady)
    (hitem : ∀ {fs'}, c.frames.Extends .blank fs' → ∀ x, Q x → item fs' x) {st : σ}
    (hst : ∀ {fs'}, c.frames.Extends .blank fs' → rest fs' st) :
    s.Passes began i rest item (.ofResult st (a.on c)) := by
  have values := ha.1.imp fun v hv => hv.mono same (he c)
  have longer := he c
  have alike := hs c
  have result := ha.2
  rcases hr : a.on c with ⟨failure | x, c'⟩ <;> rw [hr] at values longer alike result
  · exact failed values failure
  · exact yields (hc.after alike longer values) ((Context.Alike.current alike).trans hi)
      (hitem longer x (result x rfl)) (hst longer)

/-- What follows on the reply of a stream in which statements are not hoisted first. -/
theorem inside {st : Stream} {next : Reply Stream Outcome → Move σ α} {Q : Reply σ α → Prop}
    (hc : c.Scoped began s) (hs : st.Scoped began c.frames s)
    (h : ∀ r, c.Disciplined Stream.Placed r → c.frames.Extends .blank r.context.frames →
      s.Passes began c.current (fun fs st => st.Scoped began fs s) (Outcome.Scoped began) r →
        (next r).MeetsOver (requests l .blank) (scoping began) Q) :
    (Move.stream st c next).MeetsOver (requests l .blank) (scoping began) Q := by
  refine ⟨⟨s, .inl ⟨hc, hs⟩⟩, fun r hb hk => h r hb.1.2 ?_ (hk s (.inl ⟨hc, hs⟩))⟩
  obtain ⟨-, he, -⟩ := hb
  rw [hs.opening?] at he
  exact he

/-- A stream that is asked for its answer. -/
theorem asked {t : Stream} (hc : c.Scoped began s) (hi : c.current = i)
    (ht : t.Scoped began c.frames s) :
    (Move.stream t c .answer).MeetsOver (requests l .blank) (scoping began)
      (s.Passes began i (fun fs st => st.Scoped began fs s) (Outcome.Scoped began)) :=
  inside hc ht fun _ _ _ h => hi ▸ h

/-- An odometer that is asked for its answer. -/
theorem odometer_asked {o : Odometer} (hc : c.Scoped began s) (hi : c.current = i)
    (ho : o.Scoped began c.frames s) :
    (Move.odometer o c .answer).MeetsOver (requests l .blank) (scoping began)
      (s.Passes began i (fun fs o => o.Scoped began fs s)
        (fun fs values => ∀ v ∈ values, v.Scoped began fs)) :=
  ⟨⟨s, hc, ho⟩, fun _ _ hk => hi ▸ hk s ⟨hc, ho⟩⟩

/-! ### One move of each stream -/

/-- The moves of the stream in the context keep to the place. -/
def Stays (began : FrameId → List Node → Prop) (l : Limits) (s : Site) (st : Stream) (c : Context) :
    Prop :=
  (st.move c).MeetsOver (requests l .blank) (scoping began)
    (s.Passes began c.current (fun fs st => st.Scoped began fs s) (Outcome.Scoped began))

/-- The moves of the odometer in the context keep to the place. -/
def OdometerStays (began : FrameId → List Node → Prop) (l : Limits) (s : Site) (o : Odometer)
    (c : Context) : Prop :=
  (o.move c).MeetsOver (requests l .blank) (scoping began)
    (s.Passes began c.current (fun fs o => o.Scoped began fs s)
      (fun fs values => ∀ v ∈ values, v.Scoped began fs))

theorem nested (hc : c.Scoped began s) {inner : Stream} (hs : inner.Scoped began c.frames s)
    (span : Span) : Stays began l s (.nested span inner) c := by
  obtain ⟨-, h⟩ | ⟨-, h⟩ := Stream.move_nested_cases span inner c <;> rw [Stays, h]
  · exact failed (c := c.raised _) hc.values _
  · have deeper : c.enterNested.Scoped began s := ⟨hc.values, hc.stands, hc.host⟩
    refine inside deeper hs fun r _ _ h => ?_
    obtain ⟨hv, hy⟩ := h
    cases r with
    | yield outcome inner' c' =>
        exact ⟨hv, fun _ _ _ h => by cases h; exact hy outcome inner' c' rfl⟩
    | finished c' => exact finished (c := c'.leaveNested) hv
    | failed failure c' => exact failed (c := c'.leaveNested) hv failure

theorem map (hc : c.Scoped began s) {inner : Stream} (hs : inner.Scoped began c.frames s)
    {f : Transform} (hf : f.Scoped began c.frames) : Stays began l s (.map inner f) c := by
  refine inside hc hs fun r hd he ⟨hv, hy⟩ => ?_
  cases r with
  | yield outcome inner' c' =>
      obtain ⟨-, ho, hst⟩ := hy _ _ _ rfl
      have hc' := hc.after hd.1 he hv
      have hf' : f.Scoped began c'.frames := hf.mono same he
      exact ofResult hc' hd.1.current (.transform hv (fun _ => Value.scoped_of_isFunction) f ho) (.transform f outcome)
        (.transform f outcome) (fun he' x hx => Value.Scoped.mono same he' hx)
        fun he' => ⟨hst.mono same he', hf'.mono same he'⟩
  | finished c' => exact finished hv
  | failed failure c' => exact failed hv failure

theorem flatMap (hc : c.Scoped began s) {outer : Stream} (hs : outer.Scoped began c.frames s)
    {next : Continuation} (hn : next.LiesAt s) : Stays began l s (.flatMap outer next) c := by
  refine inside hc hs fun r hd he ⟨hv, hy⟩ => ?_
  cases r with
  | yield outcome outer' c' =>
      obtain ⟨-, ho, hst⟩ := hy _ _ _ rfl
      obtain ⟨failure, e⟩ | ⟨inner, e, hi⟩ := next.on_run_cases outcome c' <;> simp only [e]
      · exact failed (c := c'.raised failure) hv failure
      · exact asked (hc.after hd.1 he hv) hd.1.current ⟨hi.scoped hn ho, hst, hn⟩
  | finished c' => exact finished hv
  | failed failure c' => exact failed hv failure

theorem append (hc : c.Scoped began s) {first second : Stream} (hs : first.Scoped began c.frames s)
    (hs' : second.Scoped began c.frames s) : Stays began l s (.append first second) c := by
  refine inside hc hs fun r hd he ⟨hv, hy⟩ => ?_
  cases r with
  | yield outcome first' c' =>
      obtain ⟨-, ho, hst⟩ := hy _ _ _ rfl
      exact yields (hc.after hd.1 he hv) hd.1.current ho ⟨hst, hs'.mono same he⟩
  | finished c' =>
      exact asked (hc.after hd he hv) (Context.Alike.current hd) (hs'.mono same he)
  | failed failure c' => exact failed hv failure

theorem calls (hc : c.Scoped began s) {callee : Value} (hv : callee.Scoped began c.frames)
    {arguments : Odometer} (ho : arguments.Scoped began c.frames s) (span : Span) :
    Stays began l s (.calls span callee arguments) c := by
  refine ⟨⟨s, hc, ho⟩, fun r hb hk => ?_⟩
  obtain ⟨⟨-, hd⟩, he, -⟩ := hb
  obtain ⟨hv', hy⟩ := hk s ⟨hc, ho⟩
  cases r with
  | yield values arguments' c' =>
      obtain ⟨-, hvs, hst⟩ := hy _ _ _ rfl
      have hcallee := hv.mono same he
      exact asked (hc.after hd.1 he hv') hd.1.current
        ⟨scoped_apply hcallee hvs span, hcallee, hst⟩
  | finished c' => exact finished hv'
  | failed failure c' => exact failed hv' failure

theorem amb (hc : c.Scoped began s) : ∀ {alternatives : List Node},
    (∀ m ∈ alternatives, m.LiesAt s) → Stays began l s (.amb alternatives) c
  | [], _ => ⟨hc.values, nofun⟩
  | _ :: _, h => by
      refine asked hc rfl ⟨fun p hp name v m hv => ?_, h _ List.mem_cons_self,
        fun m hm => h m (List.mem_cons_of_mem _ hm)⟩
      obtain ⟨i, -, rfl⟩ := List.mem_map.mp hp
      exact hc.values.bindings hv

theorem choice (hc : c.Scoped began s) {snapshot : Snapshot}
    (hp : snapshot.place = c.place) (hset : snapshot.Settled .blank c.frames)
    (hsn : snapshot.Scoped began c.frames) {current : Stream}
    (hs : current.Scoped began c.frames s) {later : List Node} (hl : ∀ m ∈ later, m.LiesAt s) :
    Stays began l s (.choice snapshot current later) c := by
  refine inside hc hs fun r hd he ⟨hv, hy⟩ => ?_
  cases r with
  | yield outcome current' c' =>
      obtain ⟨-, ho, hst⟩ := hy _ _ _ rfl
      exact yields (hc.after hd.1 he hv) hd.1.current ho ⟨hsn.mono same he, hst, hl⟩
  | finished c' =>
      have back := Context.Alike.restore hd hp
      have longer : c'.frames.Extends .blank (c'.restore snapshot).frames :=
        .restore (hset.mono he)
      have values := (hv.restore (hsn.mono same he)).imp fun v hv => hv.mono same longer
      have hc' := hc.after back (he.trans longer) values
      cases later with
      | nil => exact finished values
      | cons n later =>
          exact asked hc' back.current ⟨hsn.mono same (he.trans longer), hl n List.mem_cons_self,
            fun m hm => hl m (List.mem_cons_of_mem _ hm)⟩
  | failed failure c' => exact failed hv failure

theorem sequence (hc : c.Scoped began s) : ∀ {begun : OpenStatements}, begun.Scoped began c.frames s →
    Stays began l s (.sequence begun) c
  | .none, _ => ⟨hc.values, nofun⟩
  | .push current later earlier, ⟨hs, hl, hb⟩ => by
      refine inside hc hs fun r hd he ⟨hv, hy⟩ => ?_
      cases r with
      | yield outcome current' c' =>
          obtain ⟨-, ho, hst⟩ := hy _ _ _ rfl
          have hc' := hc.after hd.1 he hv
          have rest : (OpenStatements.push current' later earlier).Scoped began c'.frames s :=
            ⟨hst, hl, hb.mono same he⟩
          cases outcome with
          | returned v =>
              exact yields (t := Stream.sequence (.push current' later earlier)) hc' hd.1.current ho
                rest
          | value v =>
              cases later with
              | nil =>
                  exact yields (t := Stream.sequence (.push current' [] earlier)) hc' hd.1.current ho
                    rest
              | cons n later =>
                  exact asked hc' hd.1.current ⟨hl n List.mem_cons_self,
                    fun m hm => hl m (List.mem_cons_of_mem _ hm), rest⟩
          | cut =>
              cases later with
              | nil => exact yields (t := Stream.empty) hc' hd.1.current ho trivial
              | cons n later =>
                  exact asked hc' hd.1.current ⟨hl n List.mem_cons_self,
                    fun m hm => hl m (List.mem_cons_of_mem _ hm), trivial⟩
      | finished c' =>
          exact asked (t := .sequence earlier) (hc.after hd he hv) (Context.Alike.current hd)
            (hb.mono same he)
      | failed failure c' => exact failed hv failure

/-- Once they are hoisted, statements are in the frame that stands for their scope. -/
theorem body {ss : List Node} (h : c.Opened began fs ss s) (hcur : c.current = fs.next) :
    Stays began l s (.body ss) c := by
  obtain ⟨⟨frame, hframes, hopens⟩, hv, hh, hss⟩ := h
  have hlt : c.current < c.frames.next := by
    rw [hcur, hframes, Frames.next_push]
    exact Nat.lt_succ_self _
  have step := extends_hoist (L := Ledger.blank.loosen fs.next) ss c (.inr hcur)
  have values := (Action.Hands.hoist ss hv).1
  have alike := Action.Steady.hoist ss c
  have names := names_hoist ss c hlt
  rw [Stays]
  simp only [Stream.move]
  rcases hx : (hoist ss).on c with ⟨failure | _, c'⟩ <;> rw [hx] at step values alike names <;>
    rw [hframes] at step <;> have longer := step.of_push <;>
    have values := values.imp fun v hv => hv.mono same longer
  · exact failed values failure
  · have alike : c.Alike c' := alike
    obtain ⟨bs, hf⟩ := step.tables (show (fs.push frame).get? fs.next = some frame by
      rw [Frames.get?_push, if_pos rfl])
    have stands : c'.frames.Stands began fs.next s := by
      refine hopens.stands longer hf fun name => ?_
      have before : c.frames.binding? c.current name = frame.bindings.get? name := by
        rw [Frames.binding?, hcur, hframes, Frames.bindings_push, if_pos rfl]
      have now : c'.frames.binding? c.current name = bs.get? name := by
        rw [Frames.binding?, hcur, Frames.bindings_of_get? hf]
      rw [← before, ← now]
      exact ⟨(names name).1, (names name).2 rfl⟩
    have hc' : c'.Scoped began s := ⟨values, by rw [alike.current, hcur]; exact stands, alike.host ▸ hh⟩
    exact asked hc' alike.current (Stream.scoped_ofStatements hss)

/-- What runs in a frame of its own leaves the place outside. -/
theorem inFrame (W : Stream → Stream) {f : Outcome → Outcome} {frame : FrameId} {s' : Site}
    (hf : ∀ {fs : Frames} {o}, o.Scoped began fs → (f o).Scoped began fs)
    (hW : ∀ {fs : Frames} {st : Stream}, fs.Stands began frame s' → st.Scoped began fs s' →
      (W st).Scoped began fs s) (hs : fs.Stands began i s) : ∀ {r : Reply Stream Outcome},
    fs.Extends .blank r.context.frames →
      s'.Passes began frame (fun fs st => st.Scoped began fs s') (Outcome.Scoped began) r →
        Move.MeetsOver (requests l .blank) (scoping began)
          (s.Passes began i (fun fs st => st.Scoped began fs s) (Outcome.Scoped began))
          (match r with
            | .yield outcome inner c => .answer (.yield (f outcome) (W inner) c.pop)
            | .finished c            => .answer (.finished c.pop)
            | .failed failure c      => .answer (.failed failure c) : Move Stream Outcome)
  | .yield outcome inner' c', he, ⟨hv, hy⟩ => by
      obtain ⟨stands, ho, hst⟩ := hy _ _ _ rfl
      exact ⟨hv, fun _ _ _ h => by cases h; exact ⟨hs.mono same he, hf ho, hW stands hst⟩⟩
  | .finished c', _, ⟨hv, _⟩ => finished (c := c'.pop) hv
  | .failed failure c', _, ⟨hv, _⟩ => failed hv failure

/-- Of the outcomes of its body a call keeps the returned values. -/
theorem scoped_ofBody {outcome : Outcome} (h : outcome.Scoped began fs) :
    outcome.ofBody.Scoped began fs := by
  cases outcome with
  | returned v => exact h
  | value _ | cut => trivial

/-- What is asked in a frame that stands for scopes is asked at its place. -/
theorem push (hc : c.Scoped began s) {frame : FrameId} {s' : Site}
    (hf : c.frames.Stands began frame s') : (c.push frame).Scoped began s' := ⟨hc.values, hf, hc.host⟩

theorem framed (hc : c.Scoped began s) {frame : FrameId} {s' : Site}
    (hf : c.frames.Stands began frame s') {inner : Stream} (hs : inner.Scoped began c.frames s') :
    Stays began l s (.framed frame inner) c :=
  inside (push hc hf) hs fun _ _ he hp =>
    inFrame (.framed frame) (f := id) id (fun hst hi => ⟨s', hst, hi⟩) hc.stands he hp

theorem activation (hc : c.Scoped began s) {frame : FrameId} {s' : Site}
    (hf : c.frames.Stands began frame s') {inner : Stream} (hs : inner.Scoped began c.frames s') :
    Stays began l s (.activation frame inner) c :=
  inside (push hc hf) hs fun _ _ he hp =>
    inFrame (.activation frame) scoped_ofBody (fun hst hi => ⟨s', hst, hi⟩) hc.stands he hp

/-- A stream that is going to hoist statements in a new frame runs them there. -/
theorem begins {st : Stream} (h : st.Begins began s c) : Stays began l s st c := by
  -- The frame is new, so what becomes of it is no concern of the frames before.
  have opened {fs : Frames} {ss : List Node} {s' : Site} (h : c.Opened began fs ss s') :
      (Stream.body ss).AskedAt began s' (c.push fs.next) := .inr (.body ⟨h.1, h.2, h.3, h.4⟩ rfl)
  have before {fs : Frames} {ss : List Node} {s' : Site} {r : Reply Stream Outcome}
      (h : c.Opened began fs ss s')
      (hb : (requests l .blank).streamReply (.body ss) (c.push fs.next) r) :
      fs.Extends .blank r.context.frames := by
    obtain ⟨⟨frame, hframes, -⟩, -⟩ := h
    have he : c.frames.Extends (Ledger.blank.loosen fs.next) r.context.frames := hb.2.1
    rw [hframes] at he
    exact he.of_push
  cases h with
  | body h hcur => exact body h hcur
  | @framed fs ss s' c h hs =>
      exact ⟨⟨s', opened h⟩, fun r hb hk => inFrame (.framed fs.next) (f := id) id
        (fun hst hi => ⟨s', hst, hi⟩) hs (before h hb) (hk s' (opened h))⟩
  | @activation fs ss s' c h hs =>
      exact ⟨⟨s', opened h⟩, fun r hb hk => inFrame (.activation fs.next) scoped_ofBody
        (fun hst hi => ⟨s', hst, hi⟩) hs (before h hb) (hk s' (opened h))⟩

/-- A stream that is asked in a new frame for its answer. -/
theorem asked_begins {st : Stream} (h : st.Begins began s c) (hi : c.current = i) :
    (Move.stream st c .answer).MeetsOver (requests l .blank) (scoping began)
      (s.Passes began i (fun fs st => st.Scoped began fs s) (Outcome.Scoped began)) :=
  ⟨⟨s, .inr h⟩, fun _ _ hk => hi ▸ hk s (.inr h)⟩

theorem block (hc : c.Scoped began s) {ss : List Node}
    (hs : ∀ m ∈ ss, m.LiesAt (s.inside (Node.declared ss))) : Stays began l s (.block ss) c := by
  have unbound : (Frame.child "block" c.current).bindings.Binds [] := fun _ => by simp [Frame.child]
  have opened : (c.addFrame (.child "block" c.current)).Opened began c.frames ss
      (s.inside (Node.declared ss)) := by
    refine ⟨⟨_, rfl, .inside rfl hc.stands unbound⟩,
      hc.values.push fun v hv => ?_, hc.host, hs⟩
    simp at hv
  exact asked_begins (.framed opened hc.stands) rfl

theorem call (hc : c.Scoped began s) (span : Span) {closure : Closure}
    (hcl : closure.Scoped began c.frames) {arguments : List Value}
    (ha : ∀ a ∈ arguments, a.Scoped began c.frames) {this : Option Value}
    (ht : ∀ v ∈ this, v.Scoped began c.frames) :
    Stays began l s (.call span closure arguments this) c := by
  have values : (c.frames.push (.activation closure arguments span this)).All
      (Value.Scoped began c.frames) := hc.values.push fun v hv => by
    rcases Frame.mem_values_activation hv with hv | hv
    · exact ha v hv
    · exact ht v hv
  obtain ⟨-, h⟩ | ⟨-, -, h⟩ | ⟨arity, -, h⟩ :=
    Stream.move_call_cases span this closure arguments c <;> rw [Stays, h]
  · exact failed (c := c.raised _) hc.values _
  · exact failed (c := Context.raised _ _)
      (values.imp fun v hv => hv.mono same (.push .blank c.frames _)) _
  -- The closure's frame stands for the scopes around the function, and the new one lies in it.
  · obtain ⟨s', hfun, hstands⟩ := hcl
    have opened : (c.addFrame (.activation closure arguments span this)).Opened began c.frames
        closure.function.statements (s'.inside closure.function.names) :=
      ⟨⟨_, rfl, .inside rfl hstands (Bindings.binds_ofArguments arity)⟩, values, hc.host,
        hfun.statements⟩
    exact asked_begins (.activation opened hc.stands) rfl

theorem turning (hc : c.Scoped began s) {values : List Value}
    (hvs : ∀ v ∈ values, v.Scoped began c.frames) : ∀ {begun : OpenArguments},
      begun.Scoped began c.frames s → OdometerStays began l s (.turning begun values) c
  | .none, _ => ⟨hc.values, nofun⟩
  | .push current span later earlier, ⟨hs, hl, hb⟩ => by
      refine inside hc hs fun r hd he ⟨hv, hy⟩ => ?_
      cases r with
      | yield outcome current' c' =>
          obtain ⟨-, ho, hst⟩ := hy _ _ _ rfl
          have hc' := hc.after hd.1 he hv
          obtain ⟨failure, e⟩ | e := on_operand_cases span "call argument" outcome c' <;>
            simp only [e]
          · exact failed (c := c'.raised failure) hv failure
          · have opened : (OpenArguments.push current' span later earlier).Scoped began c'.frames s :=
              ⟨hst, hl, hb.mono same he⟩
            have old : ∀ w ∈ values, w.Scoped began c'.frames := fun w hw => (hvs w hw).mono same he
            have more : ∀ w ∈ outcome.toValue :: values, w.Scoped began c'.frames :=
              List.forall_mem_cons.mpr ⟨ho, old⟩
            cases later with
            | nil =>
                exact yields (t := Odometer.turning (.push current' span [] earlier) values) hc'
                  hd.1.current (fun w hw => more w (List.mem_reverse.mp hw)) ⟨opened, old⟩
            | cons n later =>
                exact odometer_asked hc' hd.1.current ⟨⟨hl n List.mem_cons_self,
                  fun m hm => hl m (List.mem_cons_of_mem _ hm), opened⟩, more⟩
      | finished c' =>
          exact odometer_asked (o := .turning earlier _) (hc.after hd he hv) (Context.Alike.current hd)
            ⟨hb.mono same he, fun w hw => (hvs w (List.mem_of_mem_tail hw)).mono same he⟩
      | failed failure c' => exact failed hv failure

theorem start (hc : c.Scoped began s) : ∀ {arguments : List Node},
    (∀ m ∈ arguments, m.LiesAt s) → OdometerStays began l s (.start arguments) c
  | [], _ => ⟨hc.values, fun _ _ _ h => by cases h; exact ⟨hc.stands, nofun, trivial, nofun⟩⟩
  | _ :: _, h => odometer_asked hc rfl ⟨⟨h _ List.mem_cons_self,
      fun m hm => h m (List.mem_cons_of_mem _ hm), trivial⟩, nofun⟩

end Scoping

/-- What is known of requests that keep to their places. -/
abbrev scopedRequests (began : FrameId → List Node → Prop) (l : Limits) : Contract :=
  (requests l .blank).and (scoping began)

/-- **Requests keep to the places of the nodes in them.** -/
theorem scoping_kept (l : Limits) (began : FrameId → List Node → Prop) :
    ((requests l .blank).and (scoping began)).Kept := by
  refine (requests_kept l .blank).and (fun st c hb hk => ?_) fun o c _ hk => ?_
  · refine Move.MeetsOver.forall hk fun s hs => ?_
    obtain ⟨⟨⟨-, fits⟩, placed, -⟩, -, settled⟩ := hb
    rcases hs with ⟨hc, hs⟩ | hs
    · cases st with
      | empty => exact Scoping.finished hc.values
      | once outcome => exact Scoping.yields hc rfl hs trivial
      | deferred what =>
          have makes := hs.makes hc.stands hc.host
          exact Scoping.ofResult hc rfl
            (.deferred hc.values (fun _ => Value.scoped_of_isFunction) makes) (.deferred what)
            (.deferred what) (fun he x hx => Value.Scoped.mono same he hx) fun _ => trivial
      | node n =>
          exact Scoping.asked hc rfl (Stream.scoped_build (Regime.ScriptFree.every fits) hs)
      | nested span inner => exact Scoping.nested hc (show inner.Scoped began c.frames s from hs) span
      | map inner f => exact Scoping.map hc hs.1 hs.2
      | flatMap outer next => exact Scoping.flatMap hc hs.1 hs.2
      | append first second => exact Scoping.append hc hs.1 hs.2
      | calls span callee arguments => exact Scoping.calls hc hs.1 hs.2 span
      | amb alternatives => exact Scoping.amb hc hs
      | choice snapshot current later =>
          have settled := settled.resolve_right nofun
          exact Scoping.choice hc placed.1 settled.1 hs.1 hs.2.1 hs.2.2
      | block statements => exact Scoping.block hc hs
      | program statements => exact absurd hs id
      | body statements => exact absurd hs id
      | sequence begun => exact Scoping.sequence hc hs
      | framed frame inner =>
          obtain ⟨s', hf, hi⟩ := hs
          exact Scoping.framed hc hf hi
      | call span closure arguments this => exact Scoping.call hc span hs.1 hs.2.1 hs.2.2
      | activation frame inner =>
          obtain ⟨s', hf, hi⟩ := hs
          exact Scoping.activation hc hf hi
    · exact Scoping.begins hs
  · refine Move.MeetsOver.forall hk fun s ⟨hc, ho⟩ => ?_
    cases o with
    | start arguments => exact Scoping.start hc ho
    | turning begun values => exact Scoping.turning hc ho.2 ho.1

end Nondet
