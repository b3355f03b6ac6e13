import Nondet.Tree.Scope
import Nondet.Proofs.Frame.Names
import Nondet.Proofs.Pull.Place

/-!
# Pull — Names

What a request makes of the names in frames.  Statements are hoisted when they are begun: the
innermost frame gets the names that they declare, and it is the newest frame then.  Otherwise a
request extends the frames and no more (`tables_kept`), provided that what its choices go back to has
the names that the frames have (`Stream.Settled`).
-/

namespace Nondet

open Nondet.Action

variable {L : Ledger} {c c' : Context} {α β σ : Type}

/-- In a session every frame was created after the one around it. -/
theorem Context.Fits.layered (h : c.Fits .ordinary) : c.frames.Layered :=
  h.frames.layered fun _ _ => Iff.rfl

/-! ### Actions -/

/-- Whatever the action does, the frames only extend. -/
def Action.Extends (L : Ledger) (a : Action α) : Prop :=
  ∀ c : Context, c.frames.Extends L (a.on c).2.frames

namespace Action.Extends

theorem pure (a : α) : Extends L (pure a : Action α) := fun c => .refl L c.frames

theorem raise (failure : Failure) : Extends L (raise failure : Action α) :=
  fun c => .refl L c.frames

theorem bind {a : Action α} {f : α → Action β} (ha : Extends L a) (hf : ∀ x, Extends L (f x)) :
    Extends L (a >>= f) := fun c => by
  have h := ha c
  rw [on_bind]
  rcases hr : a.on c with ⟨failure | x, c'⟩ <;> rw [hr] at h
  · exact h
  · exact h.trans (hf x c')

theorem define (name : String) (value : Value) (constant : Bool) (span : Span) :
    Extends L (define name value constant span) := fun c => by
  rw [on_define, on_change]
  split
  next ch h => exact .definition h
  next => exact .refl L c.frames

theorem assign (name : String) (value : Value) (span : Span) : Extends L (assign name value span) :=
  fun c => by
    rw [on_assign, on_change]
    split
    next ch h => exact .assignment h
    next => exact .refl L c.frames

theorem lookup (name : String) (span : Span) : Extends L (lookup name span) := fun c => by
  rw [on_lookup]
  split <;> exact .refl L c.frames

theorem makeClosure (function : Function) : Extends L (makeClosure function) :=
  fun c => .makeClosure L c.frames function c.current

theorem callNative (span : Span) (name : String) (arguments : List Value) :
    Extends L (callNative span name arguments) := fun c => by
  rw [on_callNative]
  rcases c.host.call name arguments with (_ | _ | _ | _) | _ <;> exact .refl L c.frames

theorem computes : Computes fun {_} a => Extends L a :=
  ⟨⟨pure, raise, bind⟩, lookup, assign, makeClosure, callNative⟩

theorem deferred (what : Deferred) : Extends L what.run :=
  computes.deferred what fun name _ => define name

theorem transform (f : Transform) (outcome : Outcome) : Extends L (f.run outcome) :=
  computes.transform f (fun name _ => define name) outcome

end Action.Extends

/-! ### Hoisting -/

/-- What declaring a name does. -/
theorem Action.on_declare_cases (name : String) (span : Span) (c : Context) :
    (∃ c', (declare name span).on c = (.ok ⟨⟩, c') ∧ c'.current = c.current ∧
        c.frames.binding? c.current name = none ∧
        c'.frames = c.frames.set c.current name .unassigned) ∨
      ∃ b failure, c.frames.binding? c.current name = some b ∧
        failure = .mistake (.redeclared name b.isMutable) span ∧
        (declare name span).on c = (.error failure, c.raised failure) := by
  rw [on_declare, on_change, Frames.declaration]
  cases hb : c.frames.binding? c.current name with
  | none => exact .inl ⟨_, rfl, rfl, rfl, rfl⟩
  | some b => exact .inr ⟨b, _, rfl, rfl, rfl⟩

theorem Node.declared_cons_of_none {n : Node} (h : n.declaredName? = none) (ns : List Node) :
    declared (n :: ns) = declared ns := by simp [declared, h]

theorem Node.declared_cons_of_some {n : Node} {name : String} (h : n.declaredName? = some name)
    (ns : List Node) : declared (n :: ns) = name :: declared ns := by simp [declared, h]

/-- The names of a frame after a name was bound in it. -/
theorem Frames.isSome_binding?_set {fs : Frames} {i : FrameId} (hi : i < fs.next) (name : String)
    (binding : Binding) (other : String) :
    ((fs.set i name binding).binding? i other).isSome ↔
      other = name ∨ (fs.binding? i other).isSome := by
  rw [Frames.binding?, set_eq_setBindings, bindings_setBindings, if_pos ⟨rfl, hi⟩,
    Bindings.get?_set]
  by_cases e : other = name <;> simp [e, Frames.binding?]

/-- Hoisting gives names to the innermost frame, which must be loose. -/
theorem Action.extends_hoist : ∀ (ns : List Node) (c : Context), L.loose c.current →
    c.frames.Extends L ((hoist ns).on c).2.frames
  | [], c, _ => .refl L c.frames
  | n :: ns, c, hl => by
      rw [on_hoist_cons]
      cases n.declaredName? with
      | none => exact extends_hoist ns c hl
      | some name =>
          simp only [on_bind]
          rcases on_declare_cases name n.span c with ⟨c', e, hcur, hb, hf⟩ | ⟨-, failure, -, -, e⟩ <;> rw [e]
          · have first : c.frames.Extends L c'.frames := hf ▸ .declared hb hl
            exact first.trans (extends_hoist ns c' (hcur ▸ hl))
          · exact .refl L c.frames

/-- Hoisting gives the innermost frame no names but those that are declared, and all of these unless
it fails. -/
theorem Action.names_hoist : ∀ (ns : List Node) (c : Context), c.current < c.frames.next →
    ∀ name,
      ((((hoist ns).on c).2.frames.binding? c.current name).isSome →
        (c.frames.binding? c.current name).isSome ∨ name ∈ Node.declared ns) ∧
      (((hoist ns).on c).1 = .ok ⟨⟩ →
        (c.frames.binding? c.current name).isSome ∨ name ∈ Node.declared ns →
          (((hoist ns).on c).2.frames.binding? c.current name).isSome)
  | [], c, _, name => by simp [on_hoist_nil, Node.declared]
  | n :: ns, c, hc, name => by
      rw [on_hoist_cons]
      cases hn : n.declaredName? with
      | none =>
          rw [Node.declared_cons_of_none hn]
          exact names_hoist ns c hc name
      | some own =>
          simp only [on_bind, Node.declared_cons_of_some hn, List.mem_cons]
          rcases on_declare_cases own n.span c with ⟨c', e, hcur, -, hf⟩ | ⟨-, failure, -, -, e⟩ <;> rw [e]
          · have hc' : c'.current < c'.frames.next := by
              rw [hcur, hf, Frames.next_set]
              exact hc
            have later := names_hoist ns c' hc' name
            rw [hcur, hf, Frames.isSome_binding?_set hc] at later
            exact ⟨fun h => by have := later.1 h; tauto, fun h h' => later.2 h (by tauto)⟩
          · exact ⟨.inl, fun h => nomatch h⟩

/-- Hoisting changes the innermost frame only. -/
theorem Action.bindings_hoist {i : FrameId} : ∀ (ns : List Node) (c : Context), i ≠ c.current →
    ((hoist ns).on c).2.frames.bindings i = c.frames.bindings i
  | [], _, _ => rfl
  | n :: ns, c, hi => by
      rw [on_hoist_cons]
      cases n.declaredName? with
      | none => exact bindings_hoist ns c hi
      | some name =>
          simp only [on_bind]
          rcases on_declare_cases name n.span c with ⟨c', e, hcur, -, hf⟩ | ⟨-, failure, -, -, e⟩ <;> rw [e]
          · refine (bindings_hoist ns c' (hcur ▸ hi)).trans ?_
            rw [hf, Frames.set_eq_setBindings, Frames.bindings_setBindings]
            exact if_neg fun h => hi h.1.symm
          · rfl

/-! ### Streams -/

section

variable (L : Ledger) (fs : Frames)

mutual

/-- What the choices of the stream go back to is settled.  Statements that are not begun are not
settled: they are going to be hoisted. -/
def Stream.Settled : Stream → Prop
  | .empty | .once _ | .deferred _ | .node _ | .amb _ | .block _ | .program _ | .call _ _ _ _ => True
  | .body _                     => False
  | .nested _ inner             => inner.Settled
  | .map inner _                => inner.Settled
  | .flatMap outer _            => outer.Settled
  | .append first second        => first.Settled ∧ second.Settled
  | .calls _ _ arguments        => arguments.Settled
  | .choice snapshot current _  => snapshot.Settled L fs ∧ current.Settled
  | .sequence begun             => begun.Settled
  | .framed _ inner             => inner.Settled
  | .activation _ inner         => inner.Settled

def Odometer.Settled : Odometer → Prop
  | .start _         => True
  | .turning begun _ => begun.Settled

def OpenArguments.Settled : OpenArguments → Prop
  | .none                    => True
  | .push stream _ _ earlier => stream.Settled ∧ earlier.Settled

def OpenStatements.Settled : OpenStatements → Prop
  | .none                  => True
  | .push stream _ earlier => stream.Settled ∧ earlier.Settled

end

end

section Growing

variable {fs fs' : Frames}

mutual

theorem Stream.Settled.mono (he : fs.Extends L fs') :
    ∀ {s : Stream}, s.Settled L fs → s.Settled L fs'
  | .empty, _ | .once _, _ | .deferred _, _ | .node _, _ | .amb _, _ | .block _, _ | .program _, _
  | .call _ _ _ _, _ => trivial
  | .nested _ inner, h => Stream.Settled.mono he (s := inner) h
  | .map inner _, h => Stream.Settled.mono he (s := inner) h
  | .flatMap outer _, h => Stream.Settled.mono he (s := outer) h
  | .append _ _, h => ⟨h.1.mono he, h.2.mono he⟩
  | .calls _ _ arguments, h =>
    (Odometer.Settled.mono he : arguments.Settled L fs → arguments.Settled L fs') h
  | .choice _ _ _, h => ⟨h.1.mono he, h.2.mono he⟩
  | .sequence begun, h =>
    (OpenStatements.Settled.mono he : begun.Settled L fs → begun.Settled L fs') h
  | .framed _ inner, h => Stream.Settled.mono he (s := inner) h
  | .activation _ inner, h => Stream.Settled.mono he (s := inner) h

theorem Odometer.Settled.mono (he : fs.Extends L fs') :
    ∀ {o : Odometer}, o.Settled L fs → o.Settled L fs'
  | .start _, _ => trivial
  | .turning begun _, h =>
    (OpenArguments.Settled.mono he : begun.Settled L fs → begun.Settled L fs') h

theorem OpenArguments.Settled.mono (he : fs.Extends L fs') :
    ∀ {begun : OpenArguments}, begun.Settled L fs → begun.Settled L fs'
  | .none, _ => trivial
  | .push _ _ _ _, h => ⟨h.1.mono he, h.2.mono he⟩

theorem OpenStatements.Settled.mono (he : fs.Extends L fs') :
    ∀ {begun : OpenStatements}, begun.Settled L fs → begun.Settled L fs'
  | .none, _ => trivial
  | .push _ _ _, h => ⟨h.1.mono he, h.2.mono he⟩

end

end Growing

/-- What was just made has no choices. -/
theorem Stream.Made.settled {fs : Frames} {s : Stream} (h : s.Made True) : s.Settled L fs := by
  cases h <;> trivial

/-! ### The contract -/

/-- The frame in which statements are going to be hoisted, if that is what the stream does first. -/
def Stream.opening? : Stream → Context → Option FrameId
  | .body _, c                                         => some c.current
  | .framed frame (.body _), _ | .activation frame (.body _), _ => some frame
  | _, _                                               => none

theorem Stream.Settled.opening? {fs : Frames} : ∀ {s : Stream}, s.Settled L fs →
    s.opening? c = none := by
  intro s h
  unfold Stream.opening?
  split
  · exact absurd h id
  · exact absurd h id
  · exact absurd h id
  · rfl

/-- The record while statements may be hoisted in a frame. -/
def Ledger.during (L : Ledger) : Option FrameId → Ledger
  | none   => L
  | some i => L.loosen i

/-- The frames are extended, and the rest is settled. -/
def Frames.Leaves (L : Ledger) (settled : Frames → σ → Prop) (fs : Frames) (r : Reply σ α) : Prop :=
  fs.Extends L r.context.frames ∧ ∀ a s c, r = .yield a s c → settled c.frames s

/-- A request extends the frames, and only the frame that it opens may get names. -/
def tables (L : Ledger) : Contract where
  stream s c := c.frames.Holds L ∧ (s.Settled L c.frames ∨ (s.opening? c).isSome)
  streamReply s c r := c.frames.Leaves (L.during (s.opening? c)) (fun fs s => s.Settled L fs) r
  odometer o c := c.frames.Holds L ∧ o.Settled L c.frames
  odometerReply _ c r := c.frames.Leaves L (fun fs o => o.Settled L fs) r

namespace Tables

variable {settled : Frames → σ → Prop} {fs : Frames}

theorem finished (he : fs.Extends L c.frames) :
    fs.Leaves L settled (.finished c : Reply σ α) := ⟨he, fun _ _ _ h => nomatch h⟩

theorem failed (he : fs.Extends L c.frames) (failure : Failure) :
    fs.Leaves L settled (.failed failure c : Reply σ α) := ⟨he, fun _ _ _ h => nomatch h⟩

theorem yields (he : fs.Extends L c.frames) (a : α) {s : σ} (hs : settled c.frames s) :
    fs.Leaves L settled (.yield a s c) := ⟨he, fun _ _ _ h => by cases h; exact hs⟩

/-- The reply of an action. -/
theorem ofResult {a : Action α} (ha : a.Extends L) (he : fs.Extends L c.frames) {s : σ}
    (hs : ∀ {fs'}, c.frames.Extends L fs' → settled fs' s) :
    fs.Leaves L settled (.ofResult s (a.on c)) := by
  have h := ha c
  rcases hr : a.on c with ⟨failure | x, c'⟩ <;> rw [hr] at h
  · exact failed (he.trans h) failure
  · exact yields (he.trans h) x (hs h)

/-- A stream that is asked for its answer. -/
theorem asked {s : Stream} (hh : fs.Holds L) (he : fs.Extends L c.frames)
    (hs : s.Settled L c.frames) :
    (Move.stream s c .answer).Meets (tables L) (fs.Leaves L fun fs s => s.Settled L fs) := by
  refine ⟨⟨he.held hh, .inl hs⟩, fun r ⟨he', hs'⟩ => ⟨he.trans ?_, hs'⟩⟩
  rw [hs.opening?] at he'
  exact he'

/-- An odometer that is asked for its answer. -/
theorem odometer_asked {o : Odometer} (hh : fs.Holds L) (he : fs.Extends L c.frames)
    (ho : o.Settled L c.frames) :
    (Move.odometer o c .answer).Meets (tables L) (fs.Leaves L fun fs o => o.Settled L fs) :=
  ⟨⟨he.held hh, ho⟩, fun _ ⟨he', hs'⟩ => ⟨he.trans he', hs'⟩⟩

/-- What follows on the reply of a stream that is not going to hoist. -/
theorem inside {s : Stream} {next : Reply Stream Outcome → Move σ α} {Q : Reply σ α → Prop}
    (hh : c.frames.Holds L) (hs : s.Settled L c.frames)
    (h : ∀ r, c.frames.Leaves L (fun fs s => s.Settled L fs) r → (next r).Meets (tables L) Q) :
    (Move.stream s c next).Meets (tables L) Q := by
  refine ⟨⟨hh, .inl hs⟩, fun r hr => h r ?_⟩
  have hr : c.frames.Leaves (L.during (s.opening? c)) (fun fs s => s.Settled L fs) r := hr
  rw [hs.opening?] at hr
  exact hr

/-! ### One move of each stream -/

/-- The moves of the stream in the context extend the frames. -/
def Stays (L : Ledger) (s : Stream) (c : Context) : Prop :=
  (s.move c).Meets (tables L) (c.frames.Leaves L fun fs s => s.Settled L fs)

/-- The moves of the odometer in the context extend the frames. -/
def OdometerStays (L : Ledger) (o : Odometer) (c : Context) : Prop :=
  (o.move c).Meets (tables L) (c.frames.Leaves L fun fs o => o.Settled L fs)

theorem nested (hh : c.frames.Holds L) {inner : Stream} (hs : inner.Settled L c.frames)
    (span : Span) : Stays L (.nested span inner) c := by
  obtain ⟨-, h⟩ | ⟨-, h⟩ := Stream.move_nested_cases span inner c <;> rw [Stays, h]
  · exact failed (c := c.raised _) (.refl L c.frames) _
  · refine inside (c := c.enterNested) hh hs fun r h => ?_
    obtain ⟨he, hy⟩ := h
    cases r with
    | yield outcome inner' c' =>
        have rest : inner'.Settled L c'.frames := hy _ _ _ rfl
        exact yields (c := c'.leaveNested) (s := Stream.nested span inner') he outcome rest
    | finished c' => exact finished (c := c'.leaveNested) he
    | failed failure c' => exact failed (c := c'.leaveNested) he failure

theorem map (hh : c.frames.Holds L) {inner : Stream} (hs : inner.Settled L c.frames)
    (f : Transform) : Stays L (.map inner f) c := by
  refine inside hh hs fun r ⟨he, hy⟩ => ?_
  cases r with
  | yield outcome inner' c' =>
      have rest : inner'.Settled L c'.frames := hy _ _ _ rfl
      exact ofResult (.transform f outcome) he fun he' => rest.mono he'
  | finished c' => exact finished he
  | failed failure c' => exact failed he failure

theorem flatMap (hh : c.frames.Holds L) {outer : Stream} (hs : outer.Settled L c.frames)
    (next : Continuation) : Stays L (.flatMap outer next) c := by
  refine inside hh hs fun r ⟨he, hy⟩ => ?_
  cases r with
  | yield outcome outer' c' =>
      have rest : outer'.Settled L c'.frames := hy _ _ _ rfl
      obtain ⟨failure, e⟩ | ⟨inner, e, hi⟩ := next.on_run_cases outcome c' <;> simp only [e]
      · exact failed (c := c'.raised failure) he failure
      · exact asked hh he ⟨hi.made.settled, rest⟩
  | finished c' => exact finished he
  | failed failure c' => exact failed he failure

theorem append (hh : c.frames.Holds L) {first second : Stream} (hs : first.Settled L c.frames)
    (hs' : second.Settled L c.frames) : Stays L (.append first second) c := by
  refine inside hh hs fun r ⟨he, hy⟩ => ?_
  cases r with
  | yield outcome first' c' =>
      have rest : first'.Settled L c'.frames := hy _ _ _ rfl
      exact yields he outcome ⟨rest, hs'.mono he⟩
  | finished c' => exact asked hh he (hs'.mono he)
  | failed failure c' => exact failed he failure

theorem calls (hh : c.frames.Holds L) {arguments : Odometer} (ho : arguments.Settled L c.frames)
    (span : Span) (callee : Value) : Stays L (.calls span callee arguments) c := by
  refine ⟨⟨hh, ho⟩, fun r ⟨he, hy⟩ => ?_⟩
  cases r with
  | yield values arguments' c' =>
      exact asked hh he ⟨(made_apply callee values span none).settled, hy _ _ _ rfl⟩
  | finished c' => exact finished he
  | failed failure c' => exact failed he failure

theorem amb (hh : c.frames.Holds L) (hr : ∀ i, c.Reaches i → i < c.frames.next) :
    ∀ alternatives : List Node, Stays L (.amb alternatives) c
  | []     => finished (.refl L c.frames)
  | _ :: _ => asked hh (.refl L c.frames) ⟨Context.settled_snapshot hh hr, trivial⟩

theorem choice (hh : c.frames.Holds L) {snapshot : Snapshot} (hsn : snapshot.Settled L c.frames)
    {current : Stream} (hs : current.Settled L c.frames) (later : List Node) :
    Stays L (.choice snapshot current later) c := by
  refine inside hh hs fun r ⟨he, hy⟩ => ?_
  cases r with
  | yield outcome current' c' =>
      have rest : current'.Settled L c'.frames := hy _ _ _ rfl
      exact yields he outcome ⟨hsn.mono he, rest⟩
  | finished c' =>
      have back := he.trans (.restore (hsn.mono he))
      cases later with
      | nil => exact finished back
      | cons n later => exact asked hh back ⟨hsn.mono back, trivial⟩
  | failed failure c' => exact failed he failure

theorem sequence (hh : c.frames.Holds L) : ∀ {begun : OpenStatements}, begun.Settled L c.frames →
    Stays L (.sequence begun) c
  | .none, _ => finished (.refl L c.frames)
  | .push current later earlier, ⟨hs, hb⟩ => by
      refine inside hh hs fun r ⟨he, hy⟩ => ?_
      cases r with
      | yield outcome current' c' =>
          have rest : (OpenStatements.push current' later earlier).Settled L c'.frames :=
            ⟨hy _ _ _ rfl, hb.mono he⟩
          cases outcome with
          | returned v => exact yields (s := Stream.sequence (.push current' later earlier)) he _ rest
          | value v =>
              cases later with
              | nil => exact yields (s := Stream.sequence (.push current' [] earlier)) he _ rest
              | cons n later => exact asked hh he ⟨trivial, rest⟩
          | cut =>
              cases later with
              | nil => exact yields he _ trivial
              | cons n later => exact asked hh he ⟨trivial, trivial⟩
      | finished c' => exact asked (s := .sequence earlier) hh he (hb.mono he)
      | failed failure c' => exact failed he failure

/-- What runs in a frame extends the frames as it would elsewhere. -/
theorem inFrame (W : Stream → Stream) (hW : ∀ {fs : Frames} {s}, s.Settled L fs → (W s).Settled L fs)
    {f : Outcome → Outcome} {frame : FrameId} {L' : Ledger} : ∀ {r : Reply Stream Outcome},
      (c.push frame).frames.Leaves L' (fun fs s => s.Settled L fs) r →
        Move.Meets (tables L) (c.frames.Leaves L' fun fs s => s.Settled L fs)
          (match r with
            | .yield outcome inner c => .answer (.yield (f outcome) (W inner) c.pop)
            | .finished c            => .answer (.finished c.pop)
            | .failed failure c      => .answer (.failed failure c) : Move Stream Outcome)
  | .yield outcome inner' c', ⟨he, hy⟩ => by
      have rest : inner'.Settled L c'.frames := hy _ _ _ rfl
      exact yields (c := c'.pop) he _ (hW rest)
  | .finished c', ⟨he, _⟩ => finished (c := c'.pop) he
  | .failed failure c', ⟨he, _⟩ => failed he failure

/-- Statements are hoisted in the innermost frame. -/
theorem body (hh : c.frames.Holds L) (ss : List Node) :
    ((Stream.body ss).move c).Meets (tables L)
      (c.frames.Leaves (L.loosen c.current) fun fs s => s.Settled L fs) := by
  have step := extends_hoist (L := L.loosen c.current) ss c (.inr rfl)
  simp only [Stream.move]
  rcases hx : (hoist ss).on c with ⟨failure | _, c'⟩ <;> rw [hx] at step
  · exact failed step failure
  · have hh' : c'.frames.Holds L := step.held hh
    have later := asked hh' (.refl L c'.frames) (Stream.made_ofStatements ss).settled
    exact later.imp fun r h => ⟨step.trans (h.1.loosen c.current), h.2⟩

theorem framed (hh : c.frames.Holds L) {frame : FrameId} {inner : Stream}
    (hs : inner.Settled L c.frames) : Stays L (.framed frame inner) c :=
  inside (c := c.push frame) hh hs fun _ hr => inFrame (.framed frame) id (f := id) hr

theorem activation (hh : c.frames.Holds L) {frame : FrameId} {inner : Stream}
    (hs : inner.Settled L c.frames) : Stays L (.activation frame inner) c :=
  inside (c := c.push frame) hh hs fun _ hr => inFrame (.activation frame) id hr

theorem block (hh : c.frames.Holds L) (ss : List Node) : Stays L (.block ss) c := by
  have new := Frames.Extends.push L c.frames (.child "block" c.current)
  exact ⟨⟨new.held hh, .inr rfl⟩, fun r ⟨he, hy⟩ => ⟨he.of_push, hy⟩⟩

theorem program (hh : c.frames.Holds L) (ss : List Node) : Stays L (.program ss) c := by
  have new := Frames.Extends.push L c.frames (.child "program" c.truncate.current)
  exact ⟨⟨new.held hh, .inr rfl⟩, fun r ⟨he, hy⟩ => ⟨he.of_push, hy⟩⟩

theorem call (hh : c.frames.Holds L) (span : Span) (closure : Closure) (arguments : List Value)
    (this : Option Value) : Stays L (.call span closure arguments this) c := by
  have new := Frames.Extends.push L c.frames (.activation closure arguments span this)
  obtain ⟨-, h⟩ | ⟨-, -, h⟩ | ⟨-, -, h⟩ :=
    Stream.move_call_cases span this closure arguments c <;> rw [Stays, h]
  · exact failed (c := c.raised _) (.refl L c.frames) _
  -- The frame of the refused call is there, though it is on no stack.
  · exact failed (c := Context.raised _ _) new _
  · exact ⟨⟨new.held hh, .inr rfl⟩, fun r h => ⟨h.1.of_push, h.2⟩⟩

theorem turning (hh : c.frames.Holds L) {begun : OpenArguments} (hb : begun.Settled L c.frames)
    (values : List Value) : OdometerStays L (.turning begun values) c := by
  cases begun with
  | none => exact finished (.refl L c.frames)
  | push current span later earlier =>
      obtain ⟨hs, hb⟩ := hb
      refine inside hh hs fun r ⟨he, hy⟩ => ?_
      cases r with
      | yield outcome current' c' =>
          have rest : current'.Settled L c'.frames := hy _ _ _ rfl
          obtain ⟨failure, e⟩ | e := Action.on_operand_cases span "call argument" outcome c' <;>
            simp only [e]
          · exact failed (c := c'.raised failure) he failure
          · have opened : (OpenArguments.push current' span later earlier).Settled L c'.frames :=
              ⟨rest, hb.mono he⟩
            cases later with
            | nil =>
                exact yields (s := Odometer.turning (.push current' span [] earlier) values) he _ opened
            | cons n later => exact odometer_asked hh he ⟨trivial, opened⟩
      | finished c' => exact odometer_asked (o := .turning earlier _) hh he (hb.mono he)
      | failed failure c' => exact failed he failure

theorem start (hh : c.frames.Holds L) : ∀ arguments : List Node,
    OdometerStays L (.start arguments) c
  | []     => yields (.refl L c.frames) _ trivial
  | _ :: _ => odometer_asked hh (.refl L c.frames) ⟨trivial, trivial⟩

end Tables

/-- A stream that is going to hoist in a frame of its own runs its statements there. -/
theorem Tables.opening {s : Stream} (hh : c.frames.Holds L) (h : (s.opening? c).isSome) :
    (s.move c).Meets (tables L) ((tables L).streamReply s c) := by
  unfold Stream.opening? at h
  split at h
  next ss => exact Tables.body hh ss
  next frame ss => exact ⟨⟨hh, .inr rfl⟩, fun _ hr => Tables.inFrame (.framed frame) id (f := id) hr⟩
  next frame ss => exact ⟨⟨hh, .inr rfl⟩, fun _ hr => Tables.inFrame (.activation frame) id hr⟩
  next => cases h

/-- **Requests extend the frames**, as long as no frame is referred to before it exists. -/
theorem tables_kept {B : Contract} (hB : B.Kept)
    (hr : ∀ s c, B.stream s c → ∀ i, c.Reaches i → i < c.frames.next) (L : Ledger) :
    (B.and (tables L)).Kept := by
  refine hB.and (fun s c hb ⟨hh, hs⟩ => Move.Meets.over ?_) fun o c _ ⟨hh, ho⟩ => Move.Meets.over ?_
  · rcases hs with hs | hs
    · -- A stream that is settled opens no frame.
      have plain : (tables L).streamReply s c = c.frames.Leaves L fun fs s => s.Settled L fs := by
        rw [tables]
        simp only [hs.opening?]
        rfl
      rw [plain]
      cases s with
      | empty => exact Tables.finished (.refl L c.frames)
      | once outcome => exact Tables.yields (.refl L c.frames) _ trivial
      | deferred what => exact Tables.ofResult (.deferred what) (.refl L c.frames) fun _ => trivial
      | node n => exact Tables.asked hh (.refl L c.frames) (Stream.made_build (.inl trivial)).settled
      | nested span inner => exact Tables.nested hh (show inner.Settled L c.frames from hs) span
      | map inner f => exact Tables.map hh (show inner.Settled L c.frames from hs) f
      | flatMap outer next => exact Tables.flatMap hh (show outer.Settled L c.frames from hs) next
      | append first second => exact Tables.append hh hs.1 hs.2
      | calls span callee arguments => exact Tables.calls hh hs span callee
      | amb alternatives => exact Tables.amb hh (hr _ c hb) alternatives
      | choice snapshot current later => exact Tables.choice hh hs.1 hs.2 later
      | block statements => exact Tables.block hh statements
      | program statements => exact Tables.program hh statements
      | body statements => exact absurd hs id
      | sequence begun => exact Tables.sequence hh hs
      | framed frame inner => exact Tables.framed hh hs
      | call span closure arguments this => exact Tables.call hh span closure arguments this
      | activation frame inner => exact Tables.activation hh hs
    · exact Tables.opening hh hs
  · cases o with
    | start arguments => exact Tables.start hh arguments
    | turning begun values => exact Tables.turning hh ho values

/-- What holds of requests inside a script, in a session where no frame is referred to before it
exists. -/
def requests (l : Limits) (L : Ledger) : Contract :=
  (Regime.ordinary.contract.and (discipline l)).and (tables L)

theorem requests_kept (l : Limits) (L : Ledger) : (requests l L).Kept :=
  tables_kept (discipline_kept l) (fun _ _ h _ hi => h.1.1.reaches hi) L

end Nondet
