import Nondet.Proofs.Context.Pending
import Nondet.Proofs.Pull.Orderly
import Nondet.Proofs.Pull.Place

/-!
# Pull — Declarations

Why the name of a declaration has no value when the declaration is completed, however often its
statement is run again.  A statement is run again only after a statement before it has given another
outcome, and whatever was asked before gives another outcome only by going back to one of its
choices.  The choice was met while the name waited, in a frame on the stack; so its snapshot brings
the name back to where it waits.

A `Moment` is what a request finds: the frames, if it is made for the first time, and the names that
wait then.  A stream guards the moment (`Stream.Guards`) if it completes no declaration of these
names, brings them back wherever it goes back to a choice, and can only give another outcome that way
unless it is asked for the first time.
-/

namespace Nondet

open Nondet.Action

variable {l : Limits} {c c' : Context} {i : FrameId} {host : Host} {α σ : Type}

/-! ### Moments -/

/-- What a request finds. -/
structure Moment where
  /-- The frames, for what is asked for the first time. -/
  fresh : Option Frames
  /-- The names that wait. -/
  pending : Pending

namespace Moment

/-- Any later moment, for what was asked already. -/
def later (m : Moment) : Moment := { m with fresh := none }

/-- A moment at which something is asked for the first time. -/
def now (m : Moment) (fs : Frames) : Moment := { m with fresh := some fs }

/-- More names of one frame wait. -/
def add (m : Moment) (i : FrameId) (names : List String) : Moment :=
  { m with pending := m.pending.add i names }

/-- The names of the frame are not among those that wait, and for the first time they have no values
either. -/
def Frees (m : Moment) (i : FrameId) (names : List String) : Prop :=
  ∀ name ∈ names, ¬ m.pending i name ∧ ∀ fs ∈ m.fresh, fs.binding? i name = some .unassigned

variable {m : Moment} {names : List String}

theorem Frees.later (h : m.Frees i names) : m.later.Frees i names :=
  fun name hn => ⟨(h name hn).1, nofun⟩

theorem frees_nil : m.Frees i [] := nofun

end Moment

/-- A frame that has no names but the parameters of the function whose statements these are. -/
def Frame.OpensFor (frame : Frame) (ss : List Node) : Prop :=
  frame.bindings = [] ∨ ∃ closure arguments span this,
    arguments.length = closure.params.length ∧
      frame = .activation closure arguments span this ∧ ss = closure.function.statements

/-! ### Streams that guard a moment -/

mutual

/-- In the frame `i` the stream leaves the names of the moment without values, or brings them back
there. -/
def Stream.Guards : Stream → Moment → FrameId → Prop
  | .empty, _, _ | .program _, _, _ => True
  | .once _, m, _ | .call _ _ _ _, m, _ | .amb _, m, _ | .block _, m, _ => m.fresh.isSome
  | .deferred what, m, i => m.fresh.isSome ∧ m.Frees i what.names
  | .node n, m, i => m.fresh.isSome ∧ m.Frees i n.declaredName?.toList
  | .nested _ inner, m, i => inner.Guards m i
  | .map inner f, m, i => inner.Guards (m.add i f.names) i ∧ m.Frees i f.names
  | .flatMap outer _, m, i => outer.Guards m i
  -- The second stream is not asked before the first has finished.
  | .append first second, m, i => first.Guards m i ∧ second.Guards m.later i
  | .calls _ _ arguments, m, i => arguments.Guards m i
  | .choice snapshot current _, m, i => snapshot.Recalls m.pending ∧ current.Guards m i
  | .body statements, m, i =>
    (∃ fs ∈ m.fresh, ∃ frame, fs.get? i = some frame ∧ frame.OpensFor statements) ∧
      ∀ name, ¬ m.pending i name
  | .sequence begun, m, i => begun.Guards m i
  | .framed frame inner, m, _ => inner.Guards m frame
  | .activation frame inner, m, _ => inner.Guards m frame

def Odometer.Guards : Odometer → Moment → FrameId → Prop
  | .start _, m, _ => m.fresh.isSome
  | .turning begun _, m, i => begun.Guards m i

/-- Only the last stream may be asked for the first time. -/
def OpenArguments.Guards : OpenArguments → Moment → FrameId → Prop
  | .none, _, _ => True
  | .push stream _ _ earlier, m, i => stream.Guards m i ∧ earlier.Guards m.later i

/-- What the statements to come declare waits, too. -/
def OpenStatements.Guards : OpenStatements → Moment → FrameId → Prop
  | .none, _, _ => True
  | .push stream later earlier, m, i =>
    stream.Guards (m.add i (Node.declared later)) i ∧ m.Frees i (Node.declared later) ∧
      (Node.declared later).Nodup ∧ earlier.Guards m.later i

end

section Beginning

variable {m : Moment} (hm : m.fresh.isSome)

include hm

theorem Node.Plain.guards {n : Node} (h : n.Plain) : (evaluate n).Guards m i :=
  ⟨hm, by rw [h.declaredName?]; exact Moment.frees_nil⟩

theorem Continuation.Next.guards {next : Continuation} {v : Value} {st : Stream}
    (h : next.Next v st) (hn : next.Plain) : st.Guards m i := by
  cases h with
  | right span op n => exact ⟨Node.Plain.guards (m := m.add i []) hm hn, Moment.frees_nil⟩
  | consequent span test n alternate => exact hn.1.guards hm
  | alternate span test consequent n => exact (hn.2 n rfl).guards hm
  | neither _ _ _ | calls _ _ => exact hm

theorem guards_apply (callee : Value) (arguments : List Value) (span : Span) (this : Option Value) :
    (apply callee arguments span this).Guards m i := by
  cases callee with
  | closure _ => exact hm
  | _ => exact ⟨hm, Moment.frees_nil⟩

/-- What an operator is applied to. -/
theorem guards_map {n : Node} (h : n.Plain) {f : Transform} (hf : f.names = []) :
    (Stream.map (evaluate n) f).Guards m i := by
  have frees : m.Frees i f.names := hf ▸ Moment.frees_nil
  exact ⟨h.guards (m := m.add i f.names) hm, frees⟩

/-- An orderly node that declares nothing but names without values unfolds into a stream that guards
the moment. -/
theorem Stream.guards_build : ∀ {n : Node}, n.Orderly → m.Frees i n.declaredName?.toList →
    (Stream.build n).Guards m i
  | .literal _ _, _, _ => hm
  | .identifier _ _, _, _ => by
      rw [Stream.build]
      split
      · exact hm
      · exact ⟨hm, Moment.frees_nil⟩
  | .call _ _ _, h, _ => by
      rw [Stream.build]
      split
      · exact hm
      · exact (h.plain rfl List.mem_cons_self).guards hm
  | .unary _ _ _, h, _ => guards_map hm (h.plain rfl List.mem_cons_self) rfl
  | .binary _ _ _ _, h, _ | .logical _ .and _ _, h, _ | .logical _ .or _ _, h, _
  | .conditional _ _ _ _, h, _ | .ifStatement _ _ _ _, h, _ =>
    (h.plain rfl List.mem_cons_self).guards hm
  | .variableDeclaration _ _ name init, h, hf => by
      have init : init.Plain := h.plain rfl List.mem_cons_self
      exact ⟨init.guards (m := m.add i [name]) hm, hf⟩
  | .assignment _ _ _, h, _ => guards_map hm (h.plain rfl List.mem_cons_self) rfl
  | .functionDeclaration _ name _ _ _, h, hf => by
      -- A declaration without a name would complete that of the empty name.
      obtain ⟨name, rfl⟩ := Option.isSome_iff_exists.mp (h.name rfl)
      exact ⟨hm, hf⟩
  | .arrowFunction _ _ _ _ _, _, _ => ⟨hm, Moment.frees_nil⟩
  | .returnStatement _ none, _, _ => hm
  | .returnStatement _ (some _), h, _ => guards_map hm (h.plain rfl List.mem_cons_self) rfl
  | .block _ _, _, _ => hm
  | .expressionStatement _ expression, h, _ => by
      have inside : expression.Plain := h.plain rfl List.mem_cons_self
      exact Stream.guards_build (n := expression) inside.orderly
        (by rw [inside.declaredName?]; exact Moment.frees_nil)
  | .program _ _, _, _ => trivial

/-- The first of some statements is begun while all that they declare waits. -/
theorem OpenStatements.guards_begin {n : Node} {ns : List Node}
    (hd : (Node.declared (n :: ns)).Nodup) (hf : m.Frees i (Node.declared (n :: ns)))
    {b : OpenStatements} (he : b.Guards m.later i) :
    (OpenStatements.begin (n :: ns) b).Guards m i := by
  have own : Node.declared (n :: ns) = n.declaredName?.toList ++ Node.declared ns := by
    cases hn : n.declaredName? with
    | none => exact Node.declared_cons_of_none hn ns
    | some name => exact Node.declared_cons_of_some hn ns
  rw [own] at hd hf
  obtain ⟨-, hd, disjoint⟩ := List.nodup_append.mp hd
  refine ⟨⟨hm, fun name hn => ?_⟩, fun name hn => hf name (List.mem_append_right _ hn), hd, he⟩
  obtain ⟨free, waits⟩ := hf name (List.mem_append_left _ hn)
  refine ⟨?_, waits⟩
  rintro (hp | ⟨-, hp⟩)
  · exact free hp
  · exact disjoint name hn name hp rfl

theorem Stream.guards_ofStatements : ∀ {ss : List Node}, (Node.declared ss).Nodup →
    m.Frees i (Node.declared ss) → (Stream.ofStatements ss).Guards m i
  | [], _, _ => hm
  | _ :: _, hd, hf => OpenStatements.guards_begin (b := .none) hm hd hf trivial

end Beginning

/-! ### The contract -/

/-- The context of the host is as the moment says, and what waits waits in frames on the stack. -/
structure Context.Expects (host : Host) (m : Moment) (c : Context) : Prop where
  host : c.host = host
  inside : c.current ∈ c.stack
  stack : ∀ i name, m.pending i name → i ∈ c.stack
  fresh : ∀ fs ∈ m.fresh, fs = c.frames ∧ fs.Awaits m.pending

namespace Context.Expects

variable {m : Moment}

/-- What is asked for the first time finds the names without values. -/
theorem awaits (h : c.Expects host m) (hm : m.fresh.isSome) : c.frames.Awaits m.pending := by
  obtain ⟨fs, hfs⟩ := Option.isSome_iff_exists.mp hm
  obtain ⟨rfl, waits⟩ := h.fresh fs hfs
  exact waits

theorem add (h : c.Expects host m) {names : List String} (hf : m.Frees c.current names) :
    c.Expects host (m.add c.current names) := by
  refine ⟨h.host, h.inside, ?_, fun fs hfs => ?_⟩
  · rintro i name (hp | ⟨rfl, -⟩)
    · exact h.stack i name hp
    · exact h.inside
  · obtain ⟨e, waits⟩ := h.fresh fs hfs
    exact ⟨e, waits.add fun name hn => (hf name hn).2 fs hfs⟩

theorem later (h : c.Expects host m) (ha : c.Alike c') : c'.Expects host m.later :=
  ⟨ha.host.trans h.host, by rw [ha.current, ha.stack]; exact h.inside,
    fun i name hp => ha.stack ▸ h.stack i name hp, nofun⟩

theorem now (h : c.Expects host m) (ha : c.Alike c') (hw : c'.frames.Awaits m.pending) :
    c'.Expects host (m.now c'.frames) :=
  have ⟨host, inside, stack, _⟩ := h.later ha
  ⟨host, inside, stack, fun fs hfs => by cases hfs; exact ⟨rfl, hw⟩⟩

theorem push (h : c.Expects host m) (frame : FrameId) : (c.push frame).Expects host m :=
  ⟨h.host, List.mem_cons_self, fun i name hp => List.mem_cons_of_mem _ (h.stack i name hp), h.fresh⟩

end Context.Expects

/-- An outcome leaves the names without values. -/
def Reply.Awaits (P : Pending) (rest : σ → Prop) : Reply σ α → Prop
  | .yield _ s c => c.frames.Awaits P ∧ rest s
  | .finished _ | .failed _ _ => True

/-- What is known of requests for orderly streams. -/
abbrev orderlyRequests (l : Limits) : Contract :=
  (Regime.ordinary.contract.and (discipline l)).and orderly

/-- Requests leave the names that wait without values. -/
def declaring (host : Host) : Contract where
  stream st c := ∃ m, c.Expects host m ∧ st.Guards m c.current
  streamReply st c r := ∀ m, c.Expects host m ∧ st.Guards m c.current →
    r.Awaits m.pending fun st => Stream.Guards st m.later c.current
  odometer o c := ∃ m, c.Expects host m ∧ o.Guards m c.current
  odometerReply o c r := ∀ m, c.Expects host m ∧ o.Guards m c.current →
    r.Awaits m.pending fun o => Odometer.Guards o m.later c.current

namespace Declaring

variable {m : Moment}

/-- What follows on the reply of a stream. -/
theorem inside {st : Stream} {next : Reply Stream Outcome → Move σ α} {R : Reply σ α → Prop}
    (he : c.Expects host m) (hs : st.Guards m c.current)
    (h : ∀ r, c.Disciplined Stream.Placed r → r.context.Fits .ordinary →
      r.Awaits m.pending (fun st => Stream.Guards st m.later c.current) →
        (next r).MeetsOver (orderlyRequests l) (declaring host) R) :
    (Move.stream st c next).MeetsOver (orderlyRequests l) (declaring host) R :=
  ⟨⟨m, he, hs⟩, fun r hb hk => h r hb.1.2 hb.1.1.1 (hk m ⟨he, hs⟩)⟩

/-- A stream that is asked for its answer. -/
theorem asked (m : Moment) {s : Stream} (he : c.Expects host m) (hi : c.current = i)
    (hs : s.Guards m i) : (Move.stream s c .answer).MeetsOver (orderlyRequests l) (declaring host)
      (Reply.Awaits m.pending fun st => Stream.Guards st m.later i) := by
  subst hi
  exact inside he hs fun r _ _ hr => hr

/-- An odometer that is asked for its answer. -/
theorem odometer_asked (m : Moment) {o : Odometer} (he : c.Expects host m) (hi : c.current = i)
    (ho : o.Guards m i) : (Move.odometer o c .answer).MeetsOver (orderlyRequests l) (declaring host)
      (Reply.Awaits m.pending fun o => Odometer.Guards o m.later i) := by
  subst hi
  exact ⟨⟨m, he, ho⟩, fun r _ hk => hk m ⟨he, ho⟩⟩

/-! ### One move of each stream -/

/-- The moves of the stream in the context leave the names without values. -/
def Stays (l : Limits) (host : Host) (m : Moment) (st : Stream) (c : Context) : Prop :=
  (st.move c).MeetsOver (orderlyRequests l) (declaring host)
    (Reply.Awaits m.pending fun st => Stream.Guards st m.later c.current)

/-- The moves of the odometer in the context leave the names without values. -/
def OdometerStays (l : Limits) (host : Host) (m : Moment) (o : Odometer) (c : Context) : Prop :=
  (o.move c).MeetsOver (orderlyRequests l) (declaring host)
    (Reply.Awaits m.pending fun o => Odometer.Guards o m.later c.current)

variable (he : c.Expects host m)

include he

theorem nested {inner : Stream} (hs : inner.Guards m c.current) (span : Span) :
    Stays l host m (.nested span inner) c := by
  obtain ⟨-, h⟩ | ⟨-, h⟩ := Stream.move_nested_cases span inner c <;> rw [Stays, h]
  · trivial
  · have deeper : c.enterNested.Expects host m := ⟨he.host, he.inside, he.stack, he.fresh⟩
    refine inside deeper hs fun r _ _ hr => ?_
    cases r <;> exact hr

theorem deferred {what : Deferred} (hm : m.fresh.isSome) (hf : m.Frees c.current what.names) :
    Stays l host m (.deferred what) c := by
  rw [Stays, Stream.move]
  rcases hx : what.run.on c with ⟨failure | outcome, c'⟩
  · trivial
  · have spares := Action.Spares.deferred (P := m.pending) what fun name hn => (hf name hn).1
    exact ⟨(spares c _ c' rfl (he.awaits hm) hx).2, trivial⟩

theorem map {inner : Stream} {f : Transform} (hs : inner.Guards (m.add c.current f.names) c.current)
    (hf : m.Frees c.current f.names) : Stays l host m (.map inner f) c := by
  refine inside (he.add hf) hs fun r hd _ hr => ?_
  cases r with
  | yield outcome inner' c' =>
      obtain ⟨waits, rest⟩ := hr
      rcases hx : (f.run outcome).on c' with ⟨failure | x, c''⟩ <;> simp only [hx]
      · trivial
      · have spares := Action.Spares.transform (P := m.pending) f (fun name hn => (hf name hn).1) outcome
        have before : c'.frames.Awaits m.pending := fun i name hp => waits i name (.inl hp)
        exact ⟨(spares c' x c'' hd.1.current before hx).2, rest, hf.later⟩
  | finished c' => trivial
  | failed failure c' => trivial

theorem flatMap {outer : Stream} (hs : outer.Guards m c.current) {next : Continuation}
    (hn : next.Plain) : Stays l host m (.flatMap outer next) c := by
  refine inside he hs fun r hd _ hr => ?_
  cases r with
  | yield outcome outer' c' =>
      obtain ⟨waits, rest⟩ := hr
      obtain ⟨failure, e⟩ | ⟨inner, e, hi⟩ := next.on_run_cases outcome c' <;> simp only [e]
      · trivial
      · exact asked (m.now _) (he.now hd.1 waits) hd.1.current ⟨hi.guards rfl hn, rest⟩
  | finished c' => trivial
  | failed failure c' => trivial

theorem append {first second : Stream} (hs : first.Guards m c.current)
    (hs' : second.Guards m.later c.current) : Stays l host m (.append first second) c := by
  refine inside he hs fun r hd _ hr => ?_
  cases r with
  | yield outcome first' c' => exact ⟨hr.1, hr.2, hs'⟩
  | finished c' => exact asked m.later (he.later hd) (Context.Alike.current hd) hs'
  | failed failure c' => trivial

theorem calls {arguments : Odometer} (ho : arguments.Guards m c.current) (span : Span)
    (callee : Value) : Stays l host m (.calls span callee arguments) c := by
  refine ⟨⟨m, he, ho⟩, fun r hb hk => ?_⟩
  have hd : c.Disciplined Odometer.Placed r := hb.1.2
  have hr := hk m ⟨he, ho⟩
  cases r with
  | yield values arguments' c' =>
      exact asked (m.now _) (he.now hd.1 hr.1) hd.1.current
        ⟨guards_apply (m := m.now c'.frames) rfl callee values span none, hr.2⟩
  | finished c' => trivial
  | failed failure c' => trivial

theorem amb (hm : m.fresh.isSome) : ∀ {alternatives : List Node}, (∀ n ∈ alternatives, n.Plain) →
    Stays l host m (.amb alternatives) c
  | [], _ => trivial
  | n :: _, h => asked m he rfl ⟨Context.recalls_snapshot (he.awaits hm) he.stack,
      (h n List.mem_cons_self).guards hm⟩

theorem choice {snapshot : Snapshot} (hp : snapshot.place = c.place) (hr : snapshot.Recalls m.pending)
    {current : Stream} (hs : current.Guards m c.current) {later : List Node}
    (hl : ∀ n ∈ later, n.Plain) : Stays l host m (.choice snapshot current later) c := by
  refine inside he hs fun r hd hf hk => ?_
  cases r with
  | yield outcome current' c' => exact ⟨hk.1, hr, hk.2⟩
  | finished c' =>
      have back : c.Alike (c'.restore snapshot) := .restore hd hp
      have waits : (c'.restore snapshot).frames.Awaits m.pending := hr.awaits fun i name hpending =>
        hf.stack i (Context.Alike.stack hd ▸ he.stack i name hpending)
      cases later with
      | nil => trivial
      | cons n later =>
          exact asked (m.now _) (he.now back waits) back.current
            ⟨hr, (hl n List.mem_cons_self).guards rfl⟩
  | failed failure c' => trivial

/-- Statements are run in a frame that was just added. -/
theorem opened (hc : c.Fits .ordinary) (hm : m.fresh.isSome) {f : Frame} {ss : List Node}
    (hf : f.OpensFor ss) {W : Stream}
    (hW : (Stream.body ss).Guards (m.now (c.frames.push f)) c.frames.next →
      W.Guards (m.now (c.frames.push f)) c.current) :
    (Move.stream W (c.addFrame f) .answer).MeetsOver (orderlyRequests l) (declaring host)
      (Reply.Awaits m.pending fun st => Stream.Guards st m.later c.current) := by
  have expects : (c.addFrame f).Expects host (m.now (c.frames.push f)) :=
    he.now (.frames c _) ((he.awaits hm).push f)
  refine asked (m.now _) expects rfl (hW ⟨⟨_, rfl, f, ?_, hf⟩, fun name hp => ?_⟩)
  · rw [Frames.get?_push, if_pos rfl]
  · exact Nat.lt_irrefl _ (hc.stack _ (he.stack _ name hp))

theorem block (hc : c.Fits .ordinary) (hm : m.fresh.isSome) (ss : List Node) :
    Stays l host m (.block ss) c :=
  opened he hc hm (f := .child "block" c.current) (.inl rfl) id

theorem call (hc : c.Fits .ordinary) (hm : m.fresh.isSome) (span : Span) (closure : Closure)
    (arguments : List Value) (this : Option Value) :
    Stays l host m (.call span closure arguments this) c := by
  obtain ⟨-, h⟩ | ⟨-, -, h⟩ | ⟨arity, -, h⟩ :=
    Stream.move_call_cases span this closure arguments c <;> rw [Stays, h]
  · trivial
  · trivial
  · exact opened he hc hm (.inr ⟨closure, arguments, span, this, arity, rfl, rfl⟩) id

theorem body (hc : c.Fits .ordinary) {ss : List Node} (hm : m.fresh.isSome)
    (hp : ∀ name, ¬ m.pending c.current name) : Stays l host m (.body ss) c := by
  have step := Action.Steady.hoist ss c
  rw [Stays]
  simp only [Stream.move]
  rcases hx : (hoist ss).on c with ⟨failure | _, c'⟩ <;> rw [hx] at step
  · trivial
  · obtain ⟨hcur, hnodup, -, waits⟩ := on_hoist_ok (hc.stack _ he.inside) hx
    have waits := waits m.pending (he.awaits hm)
    refine asked (m.now _) (he.now step fun i name hpending => waits i name (.inl hpending)) hcur
      (Stream.guards_ofStatements rfl hnodup fun name hn => ⟨hp name, fun fs hfs => ?_⟩)
    cases hfs
    exact waits _ name (.inr ⟨rfl, hn⟩)

theorem sequence : ∀ {begun : OpenStatements}, begun.Guards m c.current →
    Stays l host m (.sequence begun) c
  | .none, _ => trivial
  | .push current later earlier, ⟨hs, hf, hnodup, hb⟩ => by
      refine inside (he.add hf) hs fun r hd _ hr => ?_
      cases r with
      | yield outcome current' c' =>
          obtain ⟨waits, hs'⟩ := hr
          have before : c'.frames.Awaits m.pending := fun i name hp => waits i name (.inl hp)
          have rest : (OpenStatements.push current' later earlier).Guards m.later c.current :=
            ⟨hs', hf.later, hnodup, hb⟩
          have frees : (m.now c'.frames).Frees c.current (Node.declared later) := fun name hn =>
            ⟨(hf name hn).1, fun fs hfs => by cases hfs; exact waits _ name (.inr ⟨rfl, hn⟩)⟩
          cases outcome with
          | returned v => exact ⟨before, rest⟩
          | value v =>
              cases later with
              | nil => exact ⟨before, rest⟩
              | cons n later =>
                  exact asked (m.now _) (he.now hd.1 before) hd.1.current
                    (OpenStatements.guards_begin rfl hnodup frees rest)
          | cut =>
              cases later with
              | nil => exact ⟨before, trivial⟩
              | cons n later =>
                  exact asked (m.now _) (he.now hd.1 before) hd.1.current
                    (OpenStatements.guards_begin (b := .none) rfl hnodup frees trivial)
      | finished c' =>
          exact asked m.later (s := .sequence earlier) (he.later hd) (Context.Alike.current hd) hb
      | failed failure c' => trivial

theorem framed {frame : FrameId} {inner : Stream} (hs : inner.Guards m frame) :
    Stays l host m (.framed frame inner) c := by
  refine inside (he.push frame) hs fun r _ _ hr => ?_
  cases r <;> exact hr

theorem activation {frame : FrameId} {inner : Stream} (hs : inner.Guards m frame) :
    Stays l host m (.activation frame inner) c := by
  refine inside (he.push frame) hs fun r _ _ hr => ?_
  cases r <;> exact hr

theorem turning (values : List Value) : ∀ {begun : OpenArguments}, begun.Orderly →
    begun.Guards m c.current → OdometerStays l host m (.turning begun values) c
  | .none, _, _ => trivial
  | .push current span later earlier, ⟨_, hl, _⟩, ⟨hs, hb⟩ => by
      refine inside he hs fun r hd _ hr => ?_
      cases r with
      | yield outcome current' c' =>
          obtain ⟨waits, hs'⟩ := hr
          obtain ⟨failure, e⟩ | e := on_operand_cases span "call argument" outcome c' <;>
            simp only [e]
          · trivial
          · have opened : (OpenArguments.push current' span later earlier).Guards m.later c.current :=
              ⟨hs', hb⟩
            cases later with
            | nil => exact ⟨waits, opened⟩
            | cons n later =>
                exact odometer_asked (m.now _) (he.now hd.1 waits) hd.1.current
                  ⟨(hl n List.mem_cons_self).guards rfl, opened⟩
      | finished c' =>
          exact odometer_asked m.later (o := .turning earlier _) (he.later hd) (Context.Alike.current hd) hb
      | failed failure c' => trivial

theorem start (hm : m.fresh.isSome) : ∀ {arguments : List Node}, (∀ n ∈ arguments, n.Plain) →
    OdometerStays l host m (.start arguments) c
  | [], _ => ⟨he.awaits hm, trivial⟩
  | n :: _, h => odometer_asked m he rfl ⟨(h n List.mem_cons_self).guards hm, trivial⟩

end Declaring

theorem orderlyRequests_kept (l : Limits) : (orderlyRequests l).Kept :=
  (discipline_kept l).and (fun st c _ hk => (orderly_kept.stream st c hk).over)
    fun o c _ hk => (orderly_kept.odometer o c hk).over

/-- **What waits goes on to wait**, in code that keeps declarations to lists. -/
theorem declaring_kept (l : Limits) (host : Host) : ((orderlyRequests l).and (declaring host)).Kept := by
  refine (orderlyRequests_kept l).and (fun st c hb hk => ?_) fun o c hb hk => ?_
  · refine Move.MeetsOver.forall hk fun m ⟨he, hs⟩ => ?_
    obtain ⟨⟨⟨hc, -⟩, placed, -⟩, -, ho⟩ := hb
    cases st with
    | empty => trivial
    | once outcome => exact ⟨he.awaits hs, trivial⟩
    | deferred what => exact Declaring.deferred he hs.1 hs.2
    | node n => exact Declaring.asked m (s := .nested _ _) he rfl (Stream.guards_build hs.1 ho hs.2)
    | nested span inner => exact Declaring.nested he (show inner.Guards m c.current from hs) span
    | map inner f => exact Declaring.map he hs.1 hs.2
    | flatMap outer next => exact Declaring.flatMap he (show outer.Guards m c.current from hs) ho.2
    | append first second => exact Declaring.append he hs.1 hs.2
    | calls span callee arguments => exact Declaring.calls he hs span callee
    | amb alternatives => exact Declaring.amb he hs ho
    | choice snapshot current later => exact Declaring.choice he placed.1 hs.1 hs.2 ho.2.2
    | block statements => exact Declaring.block he hc hs statements
    | program statements => exact absurd placed id
    | body statements =>
        obtain ⟨⟨fs, hfs, -⟩, hp⟩ := hs
        exact Declaring.body he hc (Option.isSome_iff_exists.mpr ⟨fs, hfs⟩) hp
    | sequence begun => exact Declaring.sequence he hs
    | framed frame inner => exact Declaring.framed he hs
    | call span closure arguments this => exact Declaring.call he hc hs span closure arguments this
    | activation frame inner => exact Declaring.activation he hs
  · refine Move.MeetsOver.forall hk fun m ⟨he, ho⟩ => ?_
    obtain ⟨-, -, orderly⟩ := hb
    cases o with
    | start arguments => exact Declaring.start he ho orderly
    | turning begun values => exact Declaring.turning he values orderly.1 ho

end Nondet
