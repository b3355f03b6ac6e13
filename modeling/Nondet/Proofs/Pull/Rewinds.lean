import Nondet.Proofs.Pull.Place

/-!
# Pull — Rewinds

What is left when nothing more is found.  A stream that has given outcomes gives more only through
the choices that are open in it (`Stream.choices`), and each of them goes back to its snapshot when
it has no alternatives left.  The choice that was made first is the last to be left, so unless a
`cut` drops it, a stream that has come to its end leaves the frames as that choice found them; a
stream without open choices leaves them as they are (`rewinds_kept`).
-/

namespace Nondet

open Nondet.Action

variable {α β σ : Type} {c c' : Context} {R : Regime} {l : Limits} {i : FrameId} {p : Prop}

/-! ### Open choices -/

mutual

/-- What the choices that are open go back to, the one that was made first in front. -/
def Stream.choices : Stream → List Snapshot
  | .empty | .once _ | .deferred _ | .node _ | .amb _ | .block _ | .program _ | .body _
  | .call _ _ _ _               => []
  | .nested _ inner             => inner.choices
  | .map inner _                => inner.choices
  | .flatMap outer _            => outer.choices
  | .append first second        => second.choices ++ first.choices
  | .calls _ _ arguments        => arguments.choices
  | .choice snapshot current _  => snapshot :: current.choices
  | .sequence begun             => begun.choices
  | .framed _ inner             => inner.choices
  | .activation _ inner         => inner.choices

def Odometer.choices : Odometer → List Snapshot
  | .start _         => []
  | .turning begun _ => begun.choices

def OpenArguments.choices : OpenArguments → List Snapshot
  | .none                    => []
  | .push stream _ _ earlier => earlier.choices ++ stream.choices

def OpenStatements.choices : OpenStatements → List Snapshot
  | .none                  => []
  | .push stream _ earlier => earlier.choices ++ stream.choices

end

mutual

/-- Everything in the stream has given an outcome, but for what is asked first if that may be
new. -/
def Stream.Drawn (new : Prop) : Stream → Prop
  | .empty                      => True
  | .once _ | .deferred _ | .node _ | .amb _ | .block _ | .program _ | .body _
  | .call _ _ _ _               => new
  | .nested _ inner             => inner.Drawn new
  | .map inner _                => inner.Drawn new
  | .flatMap outer _            => outer.Drawn new
  | .append first second        => first.Drawn new ∧ second.Drawn False
  | .calls _ _ arguments        => arguments.Drawn new
  | .choice _ current _         => current.Drawn new
  | .sequence begun             => begun.Drawn new
  | .framed _ inner             => inner.Drawn new
  | .activation _ inner         => inner.Drawn new

def Odometer.Drawn (new : Prop) : Odometer → Prop
  | .start _         => new
  | .turning begun _ => begun.Drawn new

def OpenArguments.Drawn (new : Prop) : OpenArguments → Prop
  | .none                    => True
  | .push stream _ _ earlier => stream.Drawn new ∧ earlier.Drawn False

def OpenStatements.Drawn (new : Prop) : OpenStatements → Prop
  | .none                  => True
  | .push stream _ earlier => stream.Drawn new ∧ earlier.Drawn False

end

section Weaken

variable {new : Prop}

mutual

/-- What was asked before may be asked first. -/
theorem Stream.Drawn.weaken : ∀ {s : Stream}, s.Drawn False → s.Drawn new
  | .empty, _ => trivial
  | .once _, h | .deferred _, h | .node _, h | .amb _, h | .block _, h | .program _, h | .body _, h
  | .call _ _ _ _, h => absurd h id
  | .nested _ inner, h => Stream.Drawn.weaken (s := inner) h
  | .map inner _, h => Stream.Drawn.weaken (s := inner) h
  | .flatMap outer _, h => Stream.Drawn.weaken (s := outer) h
  | .append _ _, h => ⟨h.1.weaken, h.2⟩
  | .calls _ _ arguments, h =>
    (Odometer.Drawn.weaken : arguments.Drawn False → arguments.Drawn new) h
  | .choice _ current _, h => Stream.Drawn.weaken (s := current) h
  | .sequence begun, h => (OpenStatements.Drawn.weaken : begun.Drawn False → begun.Drawn new) h
  | .framed _ inner, h => Stream.Drawn.weaken (s := inner) h
  | .activation _ inner, h => Stream.Drawn.weaken (s := inner) h

theorem Odometer.Drawn.weaken : ∀ {o : Odometer}, o.Drawn False → o.Drawn new
  | .start _, h => absurd h id
  | .turning begun _, h => (OpenArguments.Drawn.weaken : begun.Drawn False → begun.Drawn new) h

theorem OpenArguments.Drawn.weaken : ∀ {begun : OpenArguments}, begun.Drawn False → begun.Drawn new
  | .none, _ => trivial
  | .push _ _ _ _, h => ⟨h.1.weaken, h.2⟩

theorem OpenStatements.Drawn.weaken : ∀ {begun : OpenStatements},
    begun.Drawn False → begun.Drawn new
  | .none, _ => trivial
  | .push _ _ _, h => ⟨h.1.weaken, h.2⟩

end

end Weaken

/-- A stream that is new: nothing in it was asked, and no choice is open in it. -/
structure Stream.New (s : Stream) : Prop where
  drawn : s.Drawn True
  choices : s.choices = []

theorem Stream.Made.new {s : Stream} (h : s.Made True) : s.New := by
  cases h <;> exact ⟨by trivial, rfl⟩

/-! ### Requests without a `cut` -/

/-- Nothing that is asked on the way gives a `cut`. -/
def Query.Uncut (q : Query) : Prop :=
  ∀ s c, q.Within (.stream s c) → ∀ s' c', ¬ s.Gives c (.yield .cut s' c')

/-- What is asked on the way is asked for what it gives; if `p` holds, that is no `cut`. -/
def uncut (p : Prop) : Contract where
  stream s c := p → (Query.stream s c).Uncut
  streamReply s c r := s.Gives c r ∧ (p → ∀ rest c', r ≠ .yield .cut rest c')
  odometer o c := p → (Query.odometer o c).Uncut
  odometerReply o c r := o.Gives c r

theorem Move.meets_uncut : ∀ m : Move σ α, (∀ q, m.Asks q → p → q.Uncut) →
    m.Meets (uncut p) m.Leads
  | .answer _, _ => rfl
  | .stream _ _ next, h => ⟨h _ .stream, fun r hr => Meets.imp (fun _ hl => ⟨r, hr.1, hl⟩)
      (meets_uncut (next r) fun q hq => h q (.afterStream hr.1 hq))⟩
  | .odometer _ _ next, h => ⟨h _ .odometer, fun r hr => Meets.imp (fun _ hl => ⟨r, hr, hl⟩)
      (meets_uncut (next r) fun q hq => h q (.afterOdometer hr hq))⟩

theorem uncut_kept (p : Prop) : (uncut p).Kept := by
  refine ⟨fun s c h => ?_, fun o c h => ?_⟩
  · refine (Move.meets_uncut _ fun q hq hp s' c' hw => h hp s' c' (.head hq hw)).imp fun r hl => ?_
    have gives := Stream.gives_iff.mpr hl
    exact ⟨gives, fun hp s' c' e => h hp s c .refl s' c' (e ▸ gives)⟩
  · exact (Move.meets_uncut _ fun q hq hp s' c' hw => h hp s' c' (.head hq hw)).imp
      fun r hl => Odometer.gives_iff.mpr hl

/-! ### The contract -/

/-- The snapshot was made when the frame was on the stack, so it remembers its table. -/
def Snapshot.Of (i : FrameId) (snapshot : Snapshot) : Prop :=
  ∃ c₀ : Context, snapshot = c₀.snapshot ∧ c₀.frames.InRange ∧ i ∈ c₀.stack

/-- Where a request starts: the choice to which it goes back in the end, whether all of it was asked
before, and the frames. -/
structure Past where
  first : Option Snapshot
  drawn : Prop
  frames : Frames

def Stream.past (s : Stream) (c : Context) : Past := ⟨s.choices.head?, s.Drawn False, c.frames⟩

def Odometer.past (o : Odometer) (c : Context) : Past := ⟨o.choices.head?, o.Drawn False, c.frames⟩

/-- What a reply makes of the past: it ends where the first choice began, or where the request did
if there is nothing to be chosen. -/
def Past.Leads (p : Prop) (i : FrameId) (drawn : σ → Prop) (choices : σ → List Snapshot)
    (past : Past) : Reply σ α → Prop
  | .yield _ s _ => drawn s ∧ (∀ snapshot ∈ choices s, snapshot.Of i) ∧
      (p → (∀ snapshot ∈ past.first, (choices s).head? = some snapshot) ∧
        (past.drawn → past.first ≠ none))
  | .finished c => p → (∀ snapshot ∈ past.first, ∃ c₁ : Context,
        c.frames = (c₁.restore snapshot).frames) ∧
      (past.drawn → past.first = none → c.frames = past.frames)
  | .failed _ _ => True

abbrev Past.Streams (p : Prop) (i : FrameId) (past : Past) : Reply Stream Outcome → Prop :=
  past.Leads p i (Stream.Drawn False) Stream.choices

abbrev Past.Odometers (p : Prop) (i : FrameId) (past : Past) :
    Reply Odometer (List Value) → Prop :=
  past.Leads p i (Odometer.Drawn False) Odometer.choices

/-- Requests while the frame is on the stack. -/
def rewinds (p : Prop) (i : FrameId) : Contract where
  stream s c := i ∈ c.stack ∧ s.Drawn True ∧ ∀ snapshot ∈ s.choices, snapshot.Of i
  streamReply s c r := (s.past c).Streams p i r
  odometer o c := i ∈ c.stack ∧ o.Drawn True ∧ ∀ snapshot ∈ o.choices, snapshot.Of i
  odometerReply o c r := (o.past c).Odometers p i r

namespace Past

variable {past past' : Past} {drawn : σ → Prop} {choices : σ → List Snapshot}

/-- What leads on from a later past leads on from an earlier one, when the first choice is still
the same and there was something to be chosen. -/
theorem Leads.earlier {r : Reply σ α} (h : past'.Leads p i drawn choices r)
    (hp : p → (∀ snapshot ∈ past.first, past'.first = some snapshot) ∧
      (past.drawn → past.first ≠ none)) : past.Leads p i drawn choices r := by
  cases r with
  | yield _ _ _ =>
      exact ⟨h.1, h.2.1, fun hold => ⟨fun snapshot hs =>
        (h.2.2 hold).1 snapshot ((hp hold).1 snapshot hs), (hp hold).2⟩⟩
  | finished _ =>
      refine fun hold => ⟨fun snapshot hs => (h hold).1 snapshot ((hp hold).1 snapshot hs), ?_⟩
      exact fun hdrawn hnone => absurd hnone ((hp hold).2 hdrawn)
  | failed _ _ => trivial

/-- Where nothing was chosen and something is new, nothing is said but of what is left. -/
theorem Leads.new {r : Reply σ α} (h : past'.Leads p i drawn choices r) (fs : Frames) :
    Leads p i drawn choices ⟨none, False, fs⟩ r :=
  h.earlier fun _ => ⟨nofun, False.elim⟩

variable {first first' second : List Snapshot} {old old' : Prop} {fs : Frames}

/-- Choices of earlier statements stand in front of those that go on. -/
theorem beside (h : (∀ snapshot ∈ first.head?, first'.head? = some snapshot) ∧
      (old → first.head? ≠ none)) :
    (∀ snapshot ∈ (second ++ first).head?, (second ++ first').head? = some snapshot) ∧
      (old ∧ old' → (second ++ first).head? ≠ none) := by
  cases second with
  | nil => exact ⟨h.1, fun ho => h.2 ho.1⟩
  | cons snapshot _ => exact ⟨fun _ hs => hs, nofun⟩

/-- When what was asked last has come to its end, the rest is asked, and all of it was asked
before. -/
theorem Leads.behind {r : Reply σ α}
    (h₁ : p → (∀ snapshot ∈ first.head?, ∃ c₁ : Context,
        c'.frames = (c₁.restore snapshot).frames) ∧ (old → first.head? = none → c'.frames = fs))
    (h₂ : Leads p i drawn choices ⟨second.head?, old', c'.frames⟩ r) (hold : old') :
    Leads p i drawn choices ⟨(second ++ first).head?, old ∧ old', fs⟩ r := by
  cases second with
  | cons snapshot _ => exact h₂.earlier fun _ => ⟨fun _ hs => hs, nofun⟩
  | nil =>
      cases r with
      | yield _ _ _ => exact ⟨h₂.1, h₂.2.1, fun hp => absurd rfl ((h₂.2.2 hp).2 hold)⟩
      | finished c =>
          intro hp
          -- Nothing was to be chosen any more, so the frames are those that were left.
          have same : c.frames = c'.frames := (h₂ hp).2 hold rfl
          obtain ⟨back, stay⟩ := h₁ hp
          exact ⟨fun snapshot hs => (back snapshot hs).imp fun _ e => same.trans e,
            fun ho hn => same.trans (stay ho.1 hn)⟩
      | failed _ _ => trivial

end Past

/-! ### One move of each stream -/

namespace Rewinds

/-- What a request inside a script relies on beside what it goes back to. -/
abbrev base (l : Limits) (p : Prop) : Contract :=
  (Regime.ordinary.contract.and (discipline l)).and (uncut p)

variable {past : Past} {s : Stream} {o : Odometer}

/-- A stream that is asked for its answer. -/
theorem asked (hi : i ∈ c.stack) (hs : s.Drawn True) (hc : ∀ snapshot ∈ s.choices, snapshot.Of i)
    (hp : p → (∀ snapshot ∈ past.first, s.choices.head? = some snapshot) ∧
      (past.drawn → past.first ≠ none)) :
    (Move.stream s c .answer).MeetsOver (base l p) (rewinds p i) (past.Streams p i) :=
  ⟨⟨hi, hs, hc⟩, fun _ _ hr => Past.Leads.earlier hr hp⟩

/-- An odometer that is asked for its answer. -/
theorem odometer_asked (hi : i ∈ c.stack) (ho : o.Drawn True)
    (hc : ∀ snapshot ∈ o.choices, snapshot.Of i)
    (hp : p → (∀ snapshot ∈ past.first, o.choices.head? = some snapshot) ∧
      (past.drawn → past.first ≠ none)) :
    (Move.odometer o c .answer).MeetsOver (base l p) (rewinds p i) (past.Odometers p i) :=
  ⟨⟨hi, ho, hc⟩, fun _ _ hr => Past.Leads.earlier hr hp⟩

/-- Something new is asked for its answer. -/
theorem begins (hi : i ∈ c.stack) (hs : s.New) (fs : Frames) :
    (Move.stream s c .answer).MeetsOver (base l p) (rewinds p i)
      (Past.Streams p i ⟨none, False, fs⟩) :=
  asked hi hs.drawn (by simp [hs.choices]) fun _ => ⟨nofun, False.elim⟩

/-- The moves of the stream in the context lead where they should. -/
def Stays (l : Limits) (p : Prop) (i : FrameId) (s : Stream) (c : Context) : Prop :=
  (s.move c).MeetsOver (base l p) (rewinds p i) ((s.past c).Streams p i)

/-- The moves of the odometer in the context lead where they should. -/
def OdometerStays (l : Limits) (p : Prop) (i : FrameId) (o : Odometer) (c : Context) : Prop :=
  (o.move c).MeetsOver (base l p) (rewinds p i) ((o.past c).Odometers p i)

theorem once (outcome : Outcome) : Stays l p i (.once outcome) c :=
  ⟨trivial, nofun, fun _ => ⟨nofun, False.elim⟩⟩

theorem deferred (what : Deferred) : Stays l p i (.deferred what) c := by
  rw [Stays, Stream.move]
  rcases what.run.on c with ⟨failure | outcome, c'⟩
  · trivial
  · exact ⟨trivial, List.forall_mem_nil _, fun _ => ⟨fun _ e => (by cases e), False.elim⟩⟩

section

variable (hi : i ∈ c.stack)

include hi

theorem nested (inner : Stream) (hs : inner.Drawn True)
    (hc : ∀ snapshot ∈ inner.choices, snapshot.Of i) (span : Span) :
    Stays l p i (.nested span inner) c := by
  obtain ⟨-, h⟩ | ⟨-, h⟩ := Stream.move_nested_cases span inner c <;> rw [Stays, h]
  · trivial
  · refine ⟨⟨hi, hs, hc⟩, fun r _ hr => ?_⟩
    cases r with
    | yield outcome inner' c' => exact hr
    | finished c' => exact hr
    | failed failure c' => trivial

theorem map (inner : Stream) (hs : inner.Drawn True)
    (hc : ∀ snapshot ∈ inner.choices, snapshot.Of i) (f : Transform) :
    Stays l p i (.map inner f) c := by
  refine ⟨⟨hi, hs, hc⟩, fun r _ hr => ?_⟩
  cases r with
  | yield outcome inner' c' =>
      rcases hx : (f.run outcome).on c' with ⟨failure | outcome', c''⟩ <;> simp only [hx]
      · trivial
      · exact hr
  | finished c' => exact hr
  | failed failure c' => trivial

theorem flatMap (outer : Stream) (hs : outer.Drawn True)
    (hc : ∀ snapshot ∈ outer.choices, snapshot.Of i) (next : Continuation) :
    Stays l p i (.flatMap outer next) c := by
  refine ⟨⟨hi, hs, hc⟩, fun r hb hr => ?_⟩
  obtain ⟨⟨-, hd⟩, -⟩ := hb
  cases r with
  | yield outcome outer' c' =>
      obtain ⟨hs', hc', hp⟩ := hr
      obtain ⟨failure, e⟩ | ⟨inner, e, hi'⟩ := next.on_run_cases outcome c' <;> simp only [e]
      · trivial
      · -- What is new is asked first, and it has no choices yet.
        obtain ⟨new, none⟩ := hi'.made.new
        have choices : (Stream.append inner (.flatMap outer' next)).choices = outer'.choices := by
          simp [Stream.choices, none]
        exact asked (hd.1.stack ▸ hi) ⟨new, hs'⟩ (choices ▸ hc') (choices ▸ hp)
  | finished c' => exact hr
  | failed failure c' => trivial

theorem append {first second : Stream} (hs : first.Drawn True) (hs' : second.Drawn False)
    (hc : ∀ snapshot ∈ second.choices ++ first.choices, snapshot.Of i) :
    Stays l p i (.append first second) c := by
  rw [List.forall_mem_append] at hc
  refine ⟨⟨hi, hs, hc.2⟩, fun r hb hr => ?_⟩
  obtain ⟨⟨-, hd⟩, -⟩ := hb
  cases r with
  | yield outcome first' c' =>
      obtain ⟨hf, hc', hp⟩ := hr
      exact ⟨⟨hf, hs'⟩, List.forall_mem_append.mpr ⟨hc.1, hc'⟩, fun h => Past.beside (hp h)⟩
  | finished c' =>
      have alike : c.Alike c' := hd
      exact ⟨⟨alike.stack ▸ hi, hs'.weaken, hc.1⟩, fun r' _ hr' => Past.Leads.behind hr hr' hs'⟩
  | failed failure c' => trivial

theorem calls {arguments : Odometer} (ho : arguments.Drawn True)
    (hc : ∀ snapshot ∈ arguments.choices, snapshot.Of i) (span : Span) (callee : Value) :
    Stays l p i (.calls span callee arguments) c := by
  refine ⟨⟨hi, ho, hc⟩, fun r hb hr => ?_⟩
  obtain ⟨⟨-, hd⟩, -⟩ := hb
  cases r with
  | yield values arguments' c' =>
      obtain ⟨hs', hc', hp⟩ := hr
      obtain ⟨new, none⟩ := (made_apply callee values span none).new
      have choices : (Stream.append (apply callee values span .none)
          (.calls span callee arguments')).choices = arguments'.choices := by
        simp [Stream.choices, none]
      refine asked ?_ ⟨new, hs'⟩ (choices ▸ hc') (choices ▸ hp)
      rw [hd.1.stack]
      exact hi
  | finished c' => exact hr
  | failed failure c' => trivial

theorem amb (hr : c.frames.InRange) : ∀ alternatives : List Node, Stays l p i (.amb alternatives) c
  | []     => fun _ => ⟨nofun, False.elim⟩
  | n :: _ => by
      have of : c.snapshot.Of i := ⟨c, rfl, hr, hi⟩
      exact asked hi (show (evaluate n).Drawn True from trivial)
        (List.forall_mem_singleton.mpr of) fun _ => ⟨nofun, False.elim⟩

theorem choice {snapshot : Snapshot} (hp : snapshot.place = c.place) (current : Stream)
    (hs : current.Drawn True) (hc : ∀ s ∈ snapshot :: current.choices, s.Of i) (later : List Node) :
    Stays l p i (.choice snapshot current later) c := by
  obtain ⟨of, hc⟩ := List.forall_mem_cons.mp hc
  refine ⟨⟨hi, hs, hc⟩, fun r hb hr => ?_⟩
  obtain ⟨⟨-, hd⟩, -⟩ := hb
  cases r with
  | yield outcome current' c' =>
      exact ⟨hr.1, List.forall_mem_cons.mpr ⟨of, hr.2.1⟩, fun _ => ⟨fun _ hs => hs, nofun⟩⟩
  | finished c' =>
      have back : c.Alike (c'.restore snapshot) := Context.Alike.restore hd hp
      cases later with
      | nil => exact fun _ => ⟨fun s e => ⟨c', by cases e; rfl⟩, nofun⟩
      | cons n later =>
          exact asked (back.stack ▸ hi) (show (evaluate n).Drawn True from trivial)
            (List.forall_mem_singleton.mpr of) fun _ => ⟨fun _ hs => hs, nofun⟩
  | failed failure c' => trivial

theorem body (ss : List Node) : Stays l p i (.body ss) c := by
  have alike := Action.Steady.hoist ss c
  rw [Stays]
  simp only [Stream.move]
  rcases hx : (hoist ss).on c with ⟨failure | _, c'⟩ <;> rw [hx] at alike
  · trivial
  · exact begins (alike.stack ▸ hi) (Stream.made_ofStatements ss).new _

theorem sequence : ∀ {begun : OpenStatements}, begun.Drawn True →
    (∀ snapshot ∈ begun.choices, snapshot.Of i) → Stays l p i (.sequence begun) c
  | .none, _, _ => fun _ => ⟨fun _ e => (by cases e), fun _ _ => rfl⟩
  | .push current later earlier, hs, hc => by
      obtain ⟨hs, he⟩ := hs
      obtain ⟨hce, hcc⟩ := List.forall_mem_append.mp hc
      refine ⟨⟨hi, hs, hcc⟩, fun r hb hr => ?_⟩
      obtain ⟨⟨-, hd⟩, -, uncut⟩ := hb
      cases r with
      | yield outcome current' c' =>
          obtain ⟨hs', hc', hp⟩ := hr
          have stack : i ∈ c'.stack := hd.1.stack ▸ hi
          have open' := List.forall_mem_append.mpr ⟨hce, hc'⟩
          cases outcome with
          | returned v => exact ⟨⟨hs', he⟩, open', fun h => Past.beside (hp h)⟩
          | value v =>
              cases later with
              | nil => exact ⟨⟨hs', he⟩, open', fun h => Past.beside (hp h)⟩
              | cons n later =>
                  have choices : (Stream.sequence (.begin (n :: later)
                      (.push current' (n :: later) earlier))).choices =
                        earlier.choices ++ current'.choices := by
                    simp [Stream.choices, OpenStatements.begin, OpenStatements.choices, evaluate]
                  exact asked stack ⟨trivial, hs', he⟩ (choices ▸ open')
                    fun h => choices ▸ Past.beside (hp h)
          | cut =>
              cases later with
              | nil => exact ⟨trivial, List.forall_mem_nil _, fun h => absurd rfl (uncut h _ _)⟩
              | cons n later =>
                  exact asked stack (show (evaluate n).Drawn True ∧ True from ⟨trivial, trivial⟩)
                    (List.forall_mem_nil _) fun h => absurd rfl (uncut h _ _)
      | finished c' =>
          have alike : c.Alike c' := hd
          exact ⟨⟨alike.stack ▸ hi, he.weaken, hce⟩, fun r' _ hr' => Past.Leads.behind hr hr' he⟩
      | failed failure c' => trivial

theorem framed (frame : FrameId) {inner : Stream} (hs : inner.Drawn True)
    (hc : ∀ snapshot ∈ inner.choices, snapshot.Of i) : Stays l p i (.framed frame inner) c := by
  refine ⟨⟨List.mem_cons_of_mem _ hi, hs, hc⟩, fun r _ hr => ?_⟩
  cases r with
  | yield outcome inner' c' => exact hr
  | finished c' => exact hr
  | failed failure c' => trivial

theorem activation (frame : FrameId) {inner : Stream} (hs : inner.Drawn True)
    (hc : ∀ snapshot ∈ inner.choices, snapshot.Of i) :
    Stays l p i (.activation frame inner) c := by
  refine ⟨⟨List.mem_cons_of_mem _ hi, hs, hc⟩, fun r _ hr => ?_⟩
  cases r with
  | yield outcome inner' c' => exact hr
  | finished c' => exact hr
  | failed failure c' => trivial

theorem call (span : Span) (closure : Closure) (arguments : List Value) (this : Option Value) :
    Stays l p i (.call span closure arguments this) c := by
  obtain ⟨-, h⟩ | ⟨-, -, h⟩ | ⟨-, -, h⟩ :=
    Stream.move_call_cases span this closure arguments c <;> rw [Stays, h]
  · trivial
  · trivial
  · exact begins (c := c.addFrame _)
      (s := .activation c.frames.next (.body closure.function.statements)) hi ⟨trivial, rfl⟩ _

theorem turning {begun : OpenArguments} (hs : begun.Drawn True)
    (hc : ∀ snapshot ∈ begun.choices, snapshot.Of i) (values : List Value) :
    OdometerStays l p i (.turning begun values) c := by
  cases begun with
  | none => exact fun _ => ⟨nofun, fun _ _ => rfl⟩
  | push current span later earlier =>
      obtain ⟨hs, he⟩ := hs
      obtain ⟨hce, hcc⟩ := List.forall_mem_append.mp hc
      refine ⟨⟨hi, hs, hcc⟩, fun r hb hr => ?_⟩
      obtain ⟨⟨-, hd⟩, -⟩ := hb
      cases r with
      | yield outcome current' c' =>
          obtain ⟨hs', hc', hp⟩ := hr
          have open' := List.forall_mem_append.mpr ⟨hce, hc'⟩
          obtain ⟨failure, e⟩ | e := Action.on_operand_cases span "call argument" outcome c' <;>
            simp only [e]
          · trivial
          · cases later with
            | nil => exact ⟨⟨hs', he⟩, open', fun h => Past.beside (hp h)⟩
            | cons n later =>
                have choices : (Odometer.turning (.push (evaluate n) n.span later
                    (.push current' span (n :: later) earlier)) (outcome.toValue :: values)).choices =
                      earlier.choices ++ current'.choices := by
                  simp [Odometer.choices, OpenArguments.choices, Stream.choices, evaluate]
                exact odometer_asked (hd.1.stack ▸ hi) ⟨trivial, hs', he⟩ (choices ▸ open')
                  fun h => choices ▸ Past.beside (hp h)
      | finished c' =>
          have alike : c.Alike c' := hd
          exact ⟨⟨alike.stack ▸ hi, he.weaken, hce⟩, fun r' _ hr' => Past.Leads.behind hr hr' he⟩
      | failed failure c' => trivial

theorem start : ∀ arguments : List Node, OdometerStays l p i (.start arguments) c
  | []     => ⟨trivial, nofun, fun _ => ⟨nofun, False.elim⟩⟩
  | _ :: _ => odometer_asked hi ⟨trivial, trivial⟩ (List.forall_mem_nil _)
      fun _ => ⟨nofun, False.elim⟩

end

end Rewinds

/-- **Requests lead back to where the first choice that is open was begun.** -/
theorem rewinds_kept (l : Limits) (p : Prop) (i : FrameId) :
    ((Rewinds.base l p).and (rewinds p i)).Kept := by
  have base := (discipline_kept (R := .ordinary) l).both (uncut_kept p)
  refine base.and (fun s c hb hk => ?_) fun o c _ hk => ?_
  · obtain ⟨hi, hs, hc⟩ := hk
    obtain ⟨⟨⟨fits, -⟩, placed, -⟩, -⟩ := hb
    cases s with
    | empty => exact fun _ => ⟨nofun, fun _ _ => rfl⟩
    | once outcome => exact Rewinds.once outcome
    | deferred what => exact Rewinds.deferred what
    | node n =>
        obtain ⟨new, none⟩ := (Stream.made_build (n := n) (.inl trivial)).new
        exact Rewinds.begins (s := .nested n.span (.build n)) hi ⟨new, none⟩ _
    | nested span inner => exact Rewinds.nested hi inner hs hc span
    | map inner f => exact Rewinds.map hi inner hs hc f
    | flatMap outer next => exact Rewinds.flatMap hi outer hs hc next
    | append first second => exact Rewinds.append hi hs.1 hs.2 hc
    | calls span callee arguments => exact Rewinds.calls hi hs hc span callee
    | amb alternatives => exact Rewinds.amb hi fits.range alternatives
    | choice snapshot current later => exact Rewinds.choice hi placed.1 current hs hc later
    | block statements =>
        exact Rewinds.begins (c := c.addFrame _) (s := .framed c.frames.next (.body statements)) hi
          ⟨trivial, rfl⟩ _
    | program statements => exact absurd placed id
    | body statements => exact Rewinds.body hi statements
    | sequence begun => exact Rewinds.sequence hi hs hc
    | framed frame inner => exact Rewinds.framed hi frame hs hc
    | call span closure arguments this => exact Rewinds.call hi span closure arguments this
    | activation frame inner => exact Rewinds.activation hi frame hs hc
  · obtain ⟨hi, ho, hc⟩ := hk
    cases o with
    | start arguments => exact Rewinds.start hi arguments
    | turning begun values => exact Rewinds.turning hi ho hc values

end Nondet
