import Nondet.Proofs.Context.Values
import Nondet.Proofs.Frame.Covers
import Nondet.Proofs.Pull.Names
import Nondet.Proofs.Tree.Closed

/-!
# Pull — Closed

Closed code leads to closed code.  A node is closed at a frame when the names that it uses, and does
not declare, are those of the frame and of frames around it (`Node.ClosedAt`); a stream is closed at
a frame when all code in it is closed at the frame that it is going to run in, and no native is at
hand (`Stream.Closed`).  Asked in such a frame a stream leaves such a stream, and the frames have
lost no names (`closing_kept`).  So whatever names are resolved on the way, frames of the script
have them.
-/

namespace Nondet

open Nondet.Action

variable {fs fs' : Frames} {c c' : Context} {α σ : Type} {l : Limits} {i : FrameId}

/-! ### What is closed -/

section

variable (fs : Frames)

/-- The names that the node uses, and does not declare, can be found from the frame. -/
def Node.ClosedAt (i : FrameId) (n : Node) : Prop := ∃ names, fs.Covers i names ∧ n.closedIn names

/-- The same for statements that are going to be hoisted in the frame. -/
def Node.HoistedClosedAt (i : FrameId) (ss : List Node) : Prop :=
  ∃ names, fs.Covers i names ∧ ∀ m ∈ ss, m.closedIn (Node.declared ss ++ names)

def Function.ClosedAt (i : FrameId) (f : Function) : Prop :=
  ∃ names, fs.Covers i names ∧ f.closedIn names

/-- Functions are closed where they were made, and none is native. -/
def Value.Closed : Value → Prop
  | .closure c => c.function.ClosedAt fs c.frame
  | .native _  => False
  | _          => True

/-- All values in the frames are closed. -/
def Frames.Closed : Prop := fs.All (Value.Closed fs)

def Outcome.Closed (o : Outcome) : Prop := o.toValue.Closed fs

def Deferred.Closed (i : FrameId) : Deferred → Prop
  | .lookup _ name           => fs.Has name i
  | .defineFunction _ function | .closure function => function.ClosedAt fs i
  | .native _ _ _            => False
  | .notFunction _ _         => True

def Transform.Closed (i : FrameId) : Transform → Prop
  | .binary _ _ left => left.Closed fs
  | .assign _ name   => fs.Has name i
  | _                => True

/-- What is evaluated next is closed. -/
def Continuation.Closed (i : FrameId) : Continuation → Prop
  | .rightOperand _ _ right          => right.ClosedAt fs i
  | .branch _ _ consequent alternate => consequent.ClosedAt fs i ∧ ∀ m ∈ alternate, m.ClosedAt fs i
  | .arguments _ nodes               => ∀ m ∈ nodes, m.ClosedAt fs i

/-- The values in the tables that a snapshot remembers are closed. -/
def Snapshot.Closed (snapshot : Snapshot) : Prop :=
  ∀ p ∈ snapshot.bindings, ∀ name v m, (name, .assigned v m) ∈ p.2 → v.Closed fs

mutual

/-- All code in the stream is closed at the frame, or at the frame in the stream that it is going to
run in. -/
def Stream.Closed : Stream → FrameId → Prop
  | .empty, _                         => True
  | .once outcome, _                  => outcome.Closed fs
  | .deferred what, i                 => what.Closed fs i
  | .node n, i                        => n.ClosedAt fs i
  | .nested _ inner, i                => inner.Closed i
  | .map inner f, i                   => inner.Closed i ∧ f.Closed fs i
  | .flatMap outer next, i            => outer.Closed i ∧ next.Closed fs i
  | .append first second, i           => first.Closed i ∧ second.Closed i
  | .calls _ callee arguments, i      => callee.Closed fs ∧ arguments.Closed i
  | .amb alternatives, i              => ∀ m ∈ alternatives, m.ClosedAt fs i
  | .choice snapshot current later, i =>
    snapshot.Closed fs ∧ current.Closed i ∧ ∀ m ∈ later, m.ClosedAt fs i
  | .block ss, i                      => Node.HoistedClosedAt fs i ss
  | .body ss, i                       => fs.Inner i ∧ Node.HoistedClosedAt fs i ss
  | .program _, _                     => False
  | .sequence begun, i                => begun.Closed i
  | .framed frame inner, _            => inner.Closed frame
  | .call _ closure arguments this, _ =>
    Value.Closed fs (.closure closure) ∧ (∀ a ∈ arguments, a.Closed fs) ∧ ∀ v ∈ this, v.Closed fs
  | .activation frame inner, _        => inner.Closed frame

def Odometer.Closed : Odometer → FrameId → Prop
  | .start arguments, i      => ∀ m ∈ arguments, m.ClosedAt fs i
  | .turning begun values, i => begun.Closed i ∧ ∀ v ∈ values, v.Closed fs

def OpenArguments.Closed : OpenArguments → FrameId → Prop
  | .none, _                        => True
  | .push stream _ later earlier, i =>
    stream.Closed i ∧ (∀ m ∈ later, m.ClosedAt fs i) ∧ earlier.Closed i

def OpenStatements.Closed : OpenStatements → FrameId → Prop
  | .none, _                      => True
  | .push stream later earlier, i =>
    stream.Closed i ∧ (∀ m ∈ later, m.ClosedAt fs i) ∧ earlier.Closed i

end

end

/-- What is no function is closed. -/
theorem Value.closed_of_isFunction (v : Value) (h : v.isFunction = false) : v.Closed fs := by
  cases v with
  | closure _ | native _ => cases h
  | _ => trivial

section Growing

variable (hr : fs.Retains fs')

include hr

theorem Node.ClosedAt.mono {n : Node} (h : n.ClosedAt fs i) : n.ClosedAt fs' i :=
  have ⟨names, hc, hn⟩ := h
  ⟨names, hc.mono hr, hn⟩

theorem Node.HoistedClosedAt.mono {ss : List Node} (h : HoistedClosedAt fs i ss) :
    HoistedClosedAt fs' i ss :=
  have ⟨names, hc, hn⟩ := h
  ⟨names, hc.mono hr, hn⟩

theorem Function.ClosedAt.mono {f : Function} (h : f.ClosedAt fs i) : f.ClosedAt fs' i :=
  have ⟨names, hc, hf⟩ := h
  ⟨names, hc.mono hr, hf⟩

theorem Value.Closed.mono {v : Value} (h : v.Closed fs) : v.Closed fs' := by
  cases v with
  | closure c => exact Function.ClosedAt.mono hr h
  | native _ => exact h
  | _ => trivial

theorem Deferred.Closed.mono {what : Deferred} (h : what.Closed fs i) : what.Closed fs' i := by
  cases what with
  | lookup _ _ => exact Frames.Has.mono h hr
  | defineFunction _ _ | closure _ => exact Function.ClosedAt.mono hr h
  | native _ _ _ => exact h
  | notFunction _ _ => trivial

theorem Transform.Closed.mono {f : Transform} (h : f.Closed fs i) : f.Closed fs' i := by
  cases f with
  | binary _ _ left => exact Value.Closed.mono hr h
  | assign _ _ => exact Frames.Has.mono h hr
  | _ => trivial

theorem Continuation.Closed.mono {next : Continuation} (h : next.Closed fs i) :
    next.Closed fs' i := by
  cases next with
  | rightOperand _ _ _ => exact Node.ClosedAt.mono hr h
  | branch _ _ _ _ => exact ⟨h.1.mono hr, fun m hm => (h.2 m hm).mono hr⟩
  | arguments _ _ => exact fun m hm => (h m hm).mono hr

theorem Snapshot.Closed.mono {snapshot : Snapshot} (h : snapshot.Closed fs) :
    snapshot.Closed fs' := fun p hp name v m hv => (h p hp name v m hv).mono hr

end Growing

mutual

theorem Stream.Closed.mono (hr : fs.Retains fs') :
    ∀ {st : Stream} {i : FrameId}, st.Closed fs i → st.Closed fs' i
  | .empty, _, _ => trivial
  | .once _, _, h => Value.Closed.mono hr h
  | .deferred _, _, h => Deferred.Closed.mono hr h
  | .node _, _, h => Node.ClosedAt.mono hr h
  | .nested _ inner, i, h => (Stream.Closed.mono hr : inner.Closed fs i → _) h
  | .map _ _, _, h => ⟨h.1.mono hr, h.2.mono hr⟩
  | .flatMap _ _, _, h => ⟨h.1.mono hr, h.2.mono hr⟩
  | .append _ _, _, h => ⟨h.1.mono hr, h.2.mono hr⟩
  | .calls _ _ _, _, h => ⟨h.1.mono hr, h.2.mono hr⟩
  | .amb _, _, h => fun m hm => (h m hm).mono hr
  | .choice _ _ _, _, h => ⟨h.1.mono hr, h.2.1.mono hr, fun m hm => (h.2.2 m hm).mono hr⟩
  | .block _, _, h => Node.HoistedClosedAt.mono hr h
  | .body _, _, h => ⟨h.1.mono hr, h.2.mono hr⟩
  | .sequence begun, i, h => (OpenStatements.Closed.mono hr : begun.Closed fs i → _) h
  | .framed frame inner, _, h => (Stream.Closed.mono hr : inner.Closed fs frame → _) h
  | .call _ _ _ _, _, h =>
    ⟨h.1.mono hr, fun a ha => (h.2.1 a ha).mono hr, fun v hv => (h.2.2 v hv).mono hr⟩
  | .activation frame inner, _, h => (Stream.Closed.mono hr : inner.Closed fs frame → _) h

theorem Odometer.Closed.mono (hr : fs.Retains fs') :
    ∀ {o : Odometer} {i : FrameId}, o.Closed fs i → o.Closed fs' i
  | .start _, _, h => fun m hm => (h m hm).mono hr
  | .turning _ _, _, h => ⟨h.1.mono hr, fun v hv => (h.2 v hv).mono hr⟩

theorem OpenArguments.Closed.mono (hr : fs.Retains fs') :
    ∀ {begun : OpenArguments} {i : FrameId}, begun.Closed fs i → begun.Closed fs' i
  | .none, _, _ => trivial
  | .push _ _ _ _, _, h => ⟨h.1.mono hr, fun m hm => (h.2.1 m hm).mono hr, h.2.2.mono hr⟩

theorem OpenStatements.Closed.mono (hr : fs.Retains fs') :
    ∀ {begun : OpenStatements} {i : FrameId}, begun.Closed fs i → begun.Closed fs' i
  | .none, _, _ => trivial
  | .push _ _ _, _, h => ⟨h.1.mono hr, fun m hm => (h.2.1 m hm).mono hr, h.2.2.mono hr⟩

end

/-! ### The first unfolding -/

/-- A closed node that is no script unfolds into a closed stream. -/
theorem Stream.closed_build {names : List String} (hc : fs.Covers i names) : ∀ {n : Node},
    n.ScriptFree → n.closedIn names → (Stream.build n).Closed fs i
  | .literal _ value, _, _ => by cases value <;> trivial
  | .identifier _ name, _, h => by
      simp only [Node.closedIn, Bool.or_eq_true, List.contains_iff_mem] at h
      rw [Stream.build]
      split
      · trivial
      next hne => exact hc name (h.resolve_left fun e => hne (eq_of_beq e))
  | .call _ callee arguments, _, h => by
      simp only [Node.closedIn, Bool.and_eq_true, Bool.or_eq_true] at h
      have ha : ∀ m ∈ arguments, m.ClosedAt fs i :=
        fun m hm => ⟨names, hc, (Node.closedInEach_iff arguments).mp h.2 m hm⟩
      rw [Stream.build]
      split
      · exact ha
      next hamb => exact ⟨⟨names, hc, h.1.resolve_left hamb⟩, ha⟩
  | .unary _ _ _, _, h | .variableDeclaration _ _ _ _, _, h => ⟨⟨names, hc, h⟩, trivial⟩
  | .binary _ _ _ _, _, h => by
      simp only [Node.closedIn, Bool.and_eq_true] at h
      exact ⟨⟨names, hc, h.1⟩, ⟨names, hc, h.2⟩⟩
  | .logical span .and _ _, _, h => by
      simp only [Node.closedIn, Bool.and_eq_true] at h
      exact ⟨⟨names, hc, h.1⟩, ⟨names, hc, h.2⟩, fun _ hm => by cases hm; exact ⟨names, hc, rfl⟩⟩
  | .logical span .or _ _, _, h => by
      simp only [Node.closedIn, Bool.and_eq_true] at h
      exact ⟨⟨names, hc, h.1⟩, ⟨names, hc, rfl⟩, fun _ hm => by cases hm; exact ⟨names, hc, h.2⟩⟩
  | .conditional _ _ _ _, _, h => by
      simp only [Node.closedIn, Bool.and_eq_true] at h
      exact ⟨⟨names, hc, h.1.1⟩, ⟨names, hc, h.1.2⟩,
        fun _ hm => by cases hm; exact ⟨names, hc, h.2⟩⟩
  | .assignment _ name _, _, h => by
      simp only [Node.closedIn, Bool.and_eq_true, List.contains_iff_mem] at h
      exact ⟨⟨names, hc, h.2⟩, hc name h.1⟩
  | .functionDeclaration _ _ _ _ _, _, h | .arrowFunction _ _ _ _ _, _, h => ⟨names, hc, h⟩
  | .ifStatement _ _ _ _, _, h => by
      simp only [Node.closedIn, Bool.and_eq_true] at h
      exact ⟨⟨names, hc, h.1.1⟩, ⟨names, hc, h.1.2⟩,
        fun _ hm => by cases hm; exact ⟨names, hc, h.2⟩⟩
  | .returnStatement _ none, _, _ => trivial
  | .returnStatement _ (some _), _, h => ⟨⟨names, hc, h⟩, trivial⟩
  | .block _ _, _, h => ⟨names, hc, Node.closedIn_block.mp h⟩
  | .expressionStatement _ expression, hn, h =>
    Stream.closed_build hc (n := expression) (hn.child List.mem_cons_self) h
  | .program _ _, hn, _ => nomatch hn.self

theorem Stream.closed_ofStatements : ∀ {ss : List Node}, (∀ m ∈ ss, m.ClosedAt fs i) →
    (Stream.ofStatements ss).Closed fs i
  | [], _ => trivial
  | _ :: _, h => ⟨h _ List.mem_cons_self, fun m hm => h m (List.mem_cons_of_mem _ hm), trivial⟩

theorem closed_apply {callee : Value} (hc : callee.Closed fs) {arguments : List Value}
    (ha : ∀ a ∈ arguments, a.Closed fs) (span : Span) :
    (apply callee arguments span none).Closed fs i := by
  cases callee with
  | closure closure => exact ⟨hc, ha, nofun⟩
  | native name => exact hc
  | _ => trivial

theorem Continuation.Next.closed {next : Continuation} {v : Value} {st : Stream}
    (h : next.Next v st) (hn : next.Closed fs i) (hv : v.Closed fs) : st.Closed fs i := by
  cases h with
  | right span op n => exact ⟨hn, hv⟩
  | consequent span test n alternate => exact hn.1
  | alternate span test consequent n => exact hn.2 n rfl
  | neither span test consequent => trivial
  | calls span nodes => exact ⟨hv, hn⟩

/-! ### The contract -/

/-- The frames lost no names, all values in them are closed, and so are what came of the request and
what is left of it. -/
def Context.Closes (c : Context) (rest : Frames → FrameId → σ → Prop) (item : Frames → α → Prop) :
    Reply σ α → Prop
  | .yield a st c' =>
    c.frames.Retains c'.frames ∧ c'.frames.Closed ∧ item c'.frames a ∧ rest c'.frames c.current st
  | .finished c'   => c.frames.Retains c'.frames ∧ c'.frames.Closed
  | .failed _ _    => True

abbrev Context.StreamCloses (c : Context) : Reply Stream Outcome → Prop :=
  c.Closes (fun fs i st => st.Closed fs i) fun fs o => o.Closed fs

abbrev Context.OdometerCloses (c : Context) : Reply Odometer (List Value) → Prop :=
  c.Closes (fun fs i o => o.Closed fs i) fun fs values => ∀ v ∈ values, v.Closed fs

/-- What is asked in closed frames is closed at the innermost of them. -/
def closing : Contract where
  stream st c := c.frames.Closed ∧ st.Closed c.frames c.current
  streamReply _ c r := c.StreamCloses r
  odometer o c := c.frames.Closed ∧ o.Closed c.frames c.current
  odometerReply _ c r := c.OdometerCloses r

/-- What is true of a request in a later context is true of one in this context. -/
theorem Context.Closes.of {rest : Frames → FrameId → σ → Prop} {item : Frames → α → Prop}
    {r : Reply σ α} (h : c'.Closes rest item r) (hr : c.frames.Retains c'.frames)
    (hi : c'.current = c.current) : c.Closes rest item r := by
  cases r with
  | yield a st c'' => exact ⟨hr.trans h.1, h.2.1, h.2.2.1, hi ▸ h.2.2.2⟩
  | finished c'' => exact ⟨hr.trans h.1, h.2⟩
  | failed failure c'' => trivial

namespace Action

/-- Closed frames stay closed when more of them come to be. -/
theorem closed_push (hv : fs.Closed) {frame : Frame} (hf : ∀ v ∈ frame.values, v.Closed fs) :
    (fs.push frame).Closed :=
  (Frames.All.push hv hf).imp fun _ hv => hv.mono (Frames.Retains.push fs frame)

/-- The reply of an action that hands on closed values. -/
theorem Hands.closes_ofResult {a : Action α} {Q : α → Prop} {rest : Frames → FrameId → σ → Prop}
    {item : Frames → α → Prop} (ha : a.Hands (Value.Closed c.frames) Q c) (he : a.Extends .blank)
    (hitem : ∀ {fs'}, c.frames.Retains fs' → ∀ x, Q x → item fs' x) {st : σ}
    (hst : ∀ {fs'}, c.frames.Retains fs' → rest fs' c.current st) :
    c.Closes rest item (.ofResult st (a.on c)) := by
  have retains := Frames.Retains.of_extends (he c)
  obtain ⟨values, result⟩ := ha
  rcases hr : a.on c with ⟨failure | x, c'⟩ <;> rw [hr] at retains values result
  · trivial
  · exact ⟨retains, values.imp fun v hv => hv.mono retains, hitem retains x (result x rfl),
      hst retains⟩

/-- Statements that were hoisted are closed at the frame that has the names which they declare. -/
theorem closes_hoist {ss : List Node} (hv : c.frames.Closed) (hi : c.frames.Inner c.current)
    (hss : Node.HoistedClosedAt c.frames c.current ss) (hx : (hoist ss).on c = (.ok ⟨⟩, c')) :
    c'.current = c.current ∧ c.frames.Retains c'.frames ∧ c'.frames.Closed ∧
      ∀ m ∈ ss, m.ClosedAt c'.frames c.current := by
  have values := (Hands.hoist ss hv).1
  have alike := Steady.hoist ss c
  have longer := extends_hoist (L := Ledger.blank.loosen c.current) ss c (.inr rfl)
  obtain ⟨f, p, hf, hpar⟩ := hi
  have names := names_hoist ss c (Frames.lt_next hf)
  have others := fun i (hi : i ≠ c.current) => bindings_hoist ss c hi
  rw [hx] at values alike longer names others
  have retains : c.frames.Retains c'.frames := by
    intro i f p hf hp
    obtain ⟨bs, hf'⟩ := longer.tables hf
    refine ⟨bs, hf', fun name hb => ?_⟩
    by_cases e : i = c.current
    · subst e
      have now := (names name).2 rfl
        (.inl (by rw [Frames.binding?, Frames.bindings_of_get? hf]; exact hb))
      rwa [Frames.binding?, Frames.bindings_of_get? hf'] at now
    · have same := others i e
      rw [Frames.bindings_of_get? hf, Frames.bindings_of_get? hf'] at same
      exact (show bs = f.bindings from same) ▸ hb
  obtain ⟨known, hc, hss⟩ := hss
  obtain ⟨bs, hf', -⟩ := retains hf hpar
  refine ⟨Context.Alike.current alike, retains, values.imp fun v hv => hv.mono retains,
    fun m hm => ⟨_, fun name hn => ?_, hss m hm⟩⟩
  rcases List.mem_append.mp hn with hn | hn
  · have now := (names name).2 rfl (.inr hn)
    rw [Frames.binding?, Frames.bindings_of_get? hf'] at now
    exact .here hf' hpar now
  · exact (hc name hn).mono retains

end Action

namespace Closing

/-- A stream that is asked for its answer. -/
theorem asked {t : Stream} (hr : c.frames.Retains c'.frames) (hi : c'.current = c.current)
    (hv : c'.frames.Closed) (ht : t.Closed c'.frames c.current) :
    (Move.stream t c' .answer).MeetsOver (requests l .blank) closing c.StreamCloses :=
  ⟨⟨hv, hi ▸ ht⟩, fun r _ h => (show c'.StreamCloses r from h).of hr hi⟩

/-- An odometer that is asked for its answer. -/
theorem odometer_asked {o : Odometer} (hr : c.frames.Retains c'.frames)
    (hi : c'.current = c.current) (hv : c'.frames.Closed) (ho : o.Closed c'.frames c.current) :
    (Move.odometer o c' .answer).MeetsOver (requests l .blank) closing c.OdometerCloses :=
  ⟨⟨hv, hi ▸ ho⟩, fun r _ h => (show c'.OdometerCloses r from h).of hr hi⟩

/-- What follows on the reply of a stream: the innermost frame is the same, unless it failed. -/
theorem inside {st : Stream} {next : Reply Stream Outcome → Move σ α} {Q : Reply σ α → Prop}
    (hv : c.frames.Closed) (hs : st.Closed c.frames c.current)
    (h : ∀ r, c.Disciplined Stream.Placed r → c.StreamCloses r →
      (next r).MeetsOver (requests l .blank) closing Q) :
    (Move.stream st c next).MeetsOver (requests l .blank) closing Q :=
  ⟨⟨hv, hs⟩, fun r hb hk => h r hb.1.2 hk⟩

/-! ### One move of each stream -/

/-- The moves of the stream in the context lead to closed code. -/
def Stays (l : Limits) (st : Stream) (c : Context) : Prop :=
  (st.move c).MeetsOver (requests l .blank) closing c.StreamCloses

/-- The moves of the odometer in the context do so. -/
def OdometerStays (l : Limits) (o : Odometer) (c : Context) : Prop :=
  (o.move c).MeetsOver (requests l .blank) closing c.OdometerCloses

/-- What runs in a frame of its own is closed at that frame. -/
theorem inFrame {W : Stream → Stream} {frame : FrameId} {f : Outcome → Outcome}
    (hf : ∀ {fs : Frames} {o}, o.Closed fs → (f o).Closed fs)
    (hW : ∀ {fs : Frames} {st : Stream}, st.Closed fs frame → (W st).Closed fs c.current) :
    ∀ {r : Reply Stream Outcome},
      (c.push frame).StreamCloses r → Move.MeetsOver (requests l .blank) closing c.StreamCloses
        (match r with
          | .yield outcome inner c => .answer (.yield (f outcome) (W inner) c.pop)
          | .finished c            => .answer (.finished c.pop)
          | .failed failure c      => .answer (.failed failure c) : Move Stream Outcome)
  | .yield _ _ _, hk => ⟨hk.1, hk.2.1, hf hk.2.2.1, hW hk.2.2.2⟩
  | .finished _, hk => hk
  | .failed _ _, _ => trivial

variable (hv : c.frames.Closed)

include hv

theorem nested {inner : Stream} (hs : inner.Closed c.frames c.current) (span : Span) :
    Stays l (.nested span inner) c := by
  obtain ⟨-, h⟩ | ⟨-, h⟩ := Stream.move_nested_cases span inner c <;> rw [Stays, h]
  · trivial
  · refine inside (c := c.enterNested) hv hs fun r _ hk => ?_
    cases r with
    | yield outcome inner' c' | finished c' => exact hk
    | failed failure c' => trivial

theorem map {inner : Stream} (hs : inner.Closed c.frames c.current) {f : Transform}
    (hf : f.Closed c.frames c.current) : Stays l (.map inner f) c := by
  refine inside hv hs fun r hd hk => ?_
  cases r with
  | yield outcome inner' c' =>
      obtain ⟨retains, closed, ho, hs'⟩ := hk
      have hs' : inner'.Closed c'.frames c'.current := hd.1.current ▸ hs'
      have hf' : f.Closed c'.frames c'.current := hd.1.current ▸ hf.mono retains
      have reply : c'.StreamCloses (.ofResult (.map inner' f) ((f.run outcome).on c')) :=
        (Hands.transform closed Value.closed_of_isFunction f ho).closes_ofResult
          (.transform f outcome) (fun hr x hx => Value.Closed.mono hr hx)
          fun hr => ⟨hs'.mono hr, hf'.mono hr⟩
      exact reply.of retains hd.1.current
  | finished c' => exact hk
  | failed failure c' => trivial

theorem flatMap {outer : Stream} (hs : outer.Closed c.frames c.current) {next : Continuation}
    (hn : next.Closed c.frames c.current) : Stays l (.flatMap outer next) c := by
  refine inside hv hs fun r hd hk => ?_
  cases r with
  | yield outcome outer' c' =>
      obtain ⟨retains, closed, ho, hs'⟩ := hk
      have hn' := hn.mono retains
      obtain ⟨failure, e⟩ | ⟨inner, e, hi⟩ := next.on_run_cases outcome c' <;> simp only [e]
      · trivial
      · exact asked retains hd.1.current closed ⟨hi.closed hn' ho, hs', hn'⟩
  | finished c' => exact hk
  | failed failure c' => trivial

theorem append {first second : Stream} (hs : first.Closed c.frames c.current)
    (hs' : second.Closed c.frames c.current) : Stays l (.append first second) c := by
  refine inside hv hs fun r hd hk => ?_
  cases r with
  | yield outcome first' c' => exact ⟨hk.1, hk.2.1, hk.2.2.1, hk.2.2.2, hs'.mono hk.1⟩
  | finished c' => exact asked hk.1 (Context.Alike.current hd) hk.2 (hs'.mono hk.1)
  | failed failure c' => trivial

theorem calls {arguments : Odometer} (ho : arguments.Closed c.frames c.current) (span : Span)
    {callee : Value} (hc : callee.Closed c.frames) : Stays l (.calls span callee arguments) c := by
  refine ⟨⟨hv, ho⟩, fun r hb hk => ?_⟩
  have hd : c.Disciplined Odometer.Placed r := hb.1.2
  cases r with
  | yield values arguments' c' =>
      obtain ⟨retains, closed, hvs, ho'⟩ := hk
      exact asked retains hd.1.current closed
        ⟨closed_apply (hc.mono retains) hvs span, hc.mono retains, ho'⟩
  | finished c' => exact hk
  | failed failure c' => trivial

theorem amb : ∀ {alternatives : List Node}, (∀ m ∈ alternatives, m.ClosedAt c.frames c.current) →
    Stays l (.amb alternatives) c
  | [], _ => ⟨.refl c.frames, hv⟩
  | _ :: _, h => by
      refine asked (.refl c.frames) rfl hv ⟨fun p hp name v m hm => ?_, h _ List.mem_cons_self,
        fun m hm => h m (List.mem_cons_of_mem _ hm)⟩
      obtain ⟨i, -, rfl⟩ := List.mem_map.mp hp
      exact Frames.All.bindings hv hm

/-- A choice goes back to tables with the same names. -/
theorem choice {snapshot : Snapshot} (hp : snapshot.place = c.place)
    (hset : snapshot.Settled .blank c.frames) (hsn : snapshot.Closed c.frames) {current : Stream}
    (hset' : current.Settled .blank c.frames) (hs : current.Closed c.frames c.current)
    {later : List Node} (hl : ∀ m ∈ later, m.ClosedAt c.frames c.current) :
    Stays l (.choice snapshot current later) c := by
  refine ⟨⟨hv, hs⟩, fun r hb hk => ?_⟩
  obtain ⟨⟨-, hd⟩, he, -⟩ := hb
  rw [hset'.opening?] at he
  cases r with
  | yield outcome current' c' =>
      obtain ⟨retains, closed, ho, hs'⟩ := hk
      exact ⟨retains, closed, ho, hsn.mono retains, hs', fun m hm => (hl m hm).mono retains⟩
  | finished c' =>
      have he : c.frames.Extends .blank c'.frames := he
      have back : c.Alike (c'.restore snapshot) := Context.Alike.restore hd hp
      have retains := Frames.Retains.of_extends (.restore (hset.mono he))
      have closed : (c'.restore snapshot).frames.Closed :=
        (Frames.All.restore hk.2 (hsn.mono hk.1)).imp fun v hv => hv.mono retains
      have retains := hk.1.trans retains
      cases later with
      | nil => exact ⟨retains, closed⟩
      | cons n later =>
          exact asked retains back.current closed ⟨hsn.mono retains,
            (hl n List.mem_cons_self).mono retains,
            fun m hm => (hl m (List.mem_cons_of_mem _ hm)).mono retains⟩
  | failed failure c' => trivial

theorem body {ss : List Node} (hi : c.frames.Inner c.current)
    (hs : Node.HoistedClosedAt c.frames c.current ss) : Stays l (.body ss) c := by
  rw [Stays]
  simp only [Stream.move]
  rcases hx : (hoist ss).on c with ⟨failure | _, c'⟩
  · trivial
  · obtain ⟨hcur, retains, closed, hss⟩ := closes_hoist hv hi hs hx
    exact asked retains hcur closed (Stream.closed_ofStatements hss)

theorem sequence : ∀ {begun : OpenStatements}, begun.Closed c.frames c.current →
    Stays l (.sequence begun) c
  | .none, _ => ⟨.refl c.frames, hv⟩
  | .push current later earlier, ⟨hs, hl, hb⟩ => by
      refine inside hv hs fun r hd hk => ?_
      cases r with
      | yield outcome current' c' =>
          obtain ⟨retains, closed, ho, hs'⟩ := hk
          have next {n later'} (e : later = n :: later') : n.ClosedAt c'.frames c.current ∧
              ∀ m ∈ later', m.ClosedAt c'.frames c.current := by
            subst e
            rw [List.forall_mem_cons] at hl
            exact ⟨hl.1.mono retains, fun m hm => (hl.2 m hm).mono retains⟩
          have rest : (OpenStatements.push current' later earlier).Closed c'.frames c.current :=
            ⟨hs', fun m hm => (hl m hm).mono retains, hb.mono retains⟩
          cases outcome with
          | returned v => exact ⟨retains, closed, ho, rest⟩
          | value v =>
              cases later with
              | nil => exact ⟨retains, closed, ho, rest⟩
              | cons n later =>
                  exact asked retains hd.1.current closed ⟨(next rfl).1, (next rfl).2, rest⟩
          | cut =>
              cases later with
              | nil => exact ⟨retains, closed, ho, trivial⟩
              | cons n later =>
                  exact asked retains hd.1.current closed ⟨(next rfl).1, (next rfl).2, trivial⟩
      | finished c' =>
          exact asked (t := .sequence earlier) hk.1 (Context.Alike.current hd) hk.2 (hb.mono hk.1)
      | failed failure c' => trivial

theorem framed {frame : FrameId} {inner : Stream} (hs : inner.Closed c.frames frame) :
    Stays l (.framed frame inner) c :=
  ⟨⟨hv, hs⟩, fun _ _ hk => inFrame (W := .framed frame) (f := id) (fun h => h) (fun h => h) hk⟩

theorem activation {frame : FrameId} {inner : Stream} (hs : inner.Closed c.frames frame) :
    Stays l (.activation frame inner) c := by
  refine ⟨⟨hv, hs⟩, fun _ _ hk => inFrame (W := .activation frame) (fun {_ o} h => ?_)
    (fun h => h) hk⟩
  -- Of the outcomes of its body a call keeps the returned values.
  cases o with
  | returned v => exact h
  | value _ | cut => trivial

theorem block {ss : List Node} (hs : Node.HoistedClosedAt c.frames c.current ss) :
    Stays l (.block ss) c := by
  obtain ⟨names, hc, hss⟩ := hs
  have retains := Frames.Retains.push c.frames (.child "block" c.current)
  have new : (c.frames.push (.child "block" c.current)).get? c.frames.next =
      some (.child "block" c.current) := by rw [Frames.get?_push, if_pos rfl]
  exact asked retains rfl (closed_push hv fun v hv => by simp at hv)
    ⟨⟨_, _, new, rfl⟩, names, fun name hn => .around new rfl ((hc name hn).mono retains), hss⟩

theorem call (span : Span) {closure : Closure} (hcl : Value.Closed c.frames (.closure closure))
    {arguments : List Value} (ha : ∀ a ∈ arguments, a.Closed c.frames) {this : Option Value}
    (ht : ∀ v ∈ this, v.Closed c.frames) : Stays l (.call span closure arguments this) c := by
  obtain ⟨-, h⟩ | ⟨-, -, h⟩ | ⟨arity, -, h⟩ :=
    Stream.move_call_cases span this closure arguments c <;> rw [Stays, h]
  · trivial
  · trivial
  · obtain ⟨names, hc, hf⟩ := hcl
    let frame := Frame.activation closure arguments span this
    have retains := Frames.Retains.push c.frames frame
    have new : (c.frames.push frame).get? c.frames.next = some frame := by
      rw [Frames.get?_push, if_pos rfl]
    -- The parameters are in the frame of the call, and all else is around the function.
    have covers : (c.frames.push frame).Covers c.frames.next (closure.params ++ names) :=
      (hc.mono retains).inside new rfl fun name hn =>
        (Bindings.binds_ofArguments arity name).mpr hn
    refine asked retains rfl (closed_push hv fun v hv => ?_)
      ⟨⟨_, _, new, rfl⟩, _, covers, Function.closedIn_statements hf⟩
    exact (Frame.mem_values_activation hv).elim (ha v) (ht v)

theorem turning {values : List Value} (hvs : ∀ v ∈ values, v.Closed c.frames) :
    ∀ {begun : OpenArguments}, begun.Closed c.frames c.current →
      OdometerStays l (.turning begun values) c
  | .none, _ => ⟨.refl c.frames, hv⟩
  | .push current span later earlier, ⟨hs, hl, hb⟩ => by
      refine inside hv hs fun r hd hk => ?_
      cases r with
      | yield outcome current' c' =>
          obtain ⟨retains, closed, ho, hs'⟩ := hk
          obtain ⟨failure, e⟩ | e := on_operand_cases span "call argument" outcome c' <;>
            simp only [e]
          · trivial
          · have opened : (OpenArguments.push current' span later earlier).Closed c'.frames
                c.current :=
              ⟨hs', fun m hm => (hl m hm).mono retains, hb.mono retains⟩
            have old : ∀ w ∈ values, w.Closed c'.frames := fun w hw => (hvs w hw).mono retains
            have more : ∀ w ∈ outcome.toValue :: values, w.Closed c'.frames :=
              List.forall_mem_cons.mpr ⟨ho, old⟩
            cases later with
            | nil =>
                exact ⟨retains, closed, fun w hw => more w (List.mem_reverse.mp hw), opened, old⟩
            | cons n later =>
                rw [List.forall_mem_cons] at hl
                exact odometer_asked retains hd.1.current closed
                  ⟨⟨hl.1.mono retains, fun m hm => (hl.2 m hm).mono retains, opened⟩, more⟩
      | finished c' =>
          exact odometer_asked (o := .turning earlier _) hk.1 (Context.Alike.current hd) hk.2
            ⟨hb.mono hk.1, fun w hw => (hvs w (List.mem_of_mem_tail hw)).mono hk.1⟩
      | failed failure c' => trivial

theorem start : ∀ {arguments : List Node}, (∀ m ∈ arguments, m.ClosedAt c.frames c.current) →
    OdometerStays l (.start arguments) c
  | [], _ => ⟨.refl c.frames, hv, nofun, trivial, nofun⟩
  | _ :: _, h => odometer_asked (.refl c.frames) rfl hv ⟨⟨h _ List.mem_cons_self,
      fun m hm => h m (List.mem_cons_of_mem _ hm), trivial⟩, nofun⟩

end Closing

/-- **Closed code leads to closed code.** -/
theorem closing_kept (l : Limits) : ((requests l .blank).and closing).Kept := by
  refine (requests_kept l .blank).and (fun st c hb ⟨hv, hs⟩ => ?_) fun o c _ ⟨hv, ho⟩ => ?_
  · obtain ⟨⟨⟨-, fits⟩, placed, -⟩, -, settled⟩ := hb
    cases st with
    | empty => exact ⟨.refl c.frames, hv⟩
    | once outcome => exact ⟨.refl c.frames, hv, hs, trivial⟩
    | deferred what =>
        have makes : what.Makes (Value.Closed c.frames) c := by
          cases what with
          | defineFunction _ _ | closure _ => exact fun _ => hs
          | native _ _ _ => exact absurd hs id
          | _ => trivial
        have reply : c.StreamCloses (.ofResult .empty (what.run.on c)) :=
          (Hands.deferred hv Value.closed_of_isFunction makes).closes_ofResult (.deferred what)
            (fun hr x hx => Value.Closed.mono hr hx) fun _ => trivial
        exact reply
    | node n =>
        obtain ⟨names, hc, hn⟩ := hs
        exact Closing.asked (.refl c.frames) rfl hv
          (Stream.closed_build hc (Regime.ScriptFree.every fits) hn)
    | nested span inner =>
        exact Closing.nested hv (show inner.Closed c.frames c.current from hs) span
    | map inner f => exact Closing.map hv hs.1 hs.2
    | flatMap outer next => exact Closing.flatMap hv hs.1 hs.2
    | append first second => exact Closing.append hv hs.1 hs.2
    | calls span callee arguments => exact Closing.calls hv hs.2 span hs.1
    | amb alternatives => exact Closing.amb hv hs
    | choice snapshot current later =>
        have settled := settled.resolve_right nofun
        exact Closing.choice hv placed.1 settled.1 hs.1 settled.2 hs.2.1 hs.2.2
    | block statements => exact Closing.block hv hs
    | program statements => exact absurd hs id
    | body statements => exact Closing.body hv hs.1 hs.2
    | sequence begun => exact Closing.sequence hv hs
    | framed frame inner => exact Closing.framed hv hs
    | call span closure arguments this => exact Closing.call hv span hs.1 hs.2.1 hs.2.2
    | activation frame inner => exact Closing.activation hv hs
  · cases o with
    | start arguments => exact Closing.start hv ho
    | turning begun values => exact Closing.turning hv ho.2 ho.1

end Nondet
