import Nondet.Proofs.Pull.Names
import Nondet.Proofs.Pull.Program

/-!
# Pull — Growth

What is asked on the way finds the frames extended.  A reply says so of the frames that it leaves
(`requests_kept`); the same holds of every request that is made before the reply, if there ever is
one (`Query.extends_of_within`).
-/

namespace Nondet

open Nondet.Action

variable {σ α : Type} {l : Limits} {L : Ledger} {c c' : Context} {fs fs' fs'' : Frames}

/-- The names of a frame that was there before are no concern of a frame that is opened later. -/
theorem Frames.Extends.trans_during (h : fs.Extends L fs') {opening : Option FrameId}
    (h' : fs'.Extends (L.during opening) fs'') (new : ∀ i, opening = some i → fs.next ≤ i) :
    fs.Extends L fs'' := by
  cases opening with
  | none => exact h.trans h'
  | some i =>
      refine ⟨Nat.le_trans h.next h'.next, ?_, ?_, fun hh => h'.held (h.held hh)⟩
      · intro j f hf
        obtain ⟨bs, hf⟩ := h.tables hf
        obtain ⟨bs', hf⟩ := h'.tables hf
        exact ⟨bs', hf⟩
      · intro j hj
        obtain ⟨loose, f, p, hf, hp⟩ := h.fixed hj
        have older : j < fs.next := by
          obtain ⟨-, f₀, -, hf₀, -⟩ := hj
          exact Frames.lt_next hf₀
        have other : j ≠ i := Nat.ne_of_lt (Nat.lt_of_lt_of_le older (new i rfl))
        exact (h.names hj).trans (h'.names ⟨fun hl => hl.elim loose other, f, p, hf, hp⟩)

namespace Query

/-- The frames that a request finds. -/
def frames : Query → Frames
  | .stream _ c | .odometer _ c => c.frames

/-- The frame in which the request is going to hoist first. -/
def opening? : Query → Option FrameId
  | .stream s c   => s.opening? c
  | .odometer _ _ => none

/-- What a request finds of the frames `fs`, of which it opens none. -/
def Follows (L : Ledger) (fs : Frames) (q : Query) : Prop :=
  fs.Extends L q.frames ∧ ∀ i, q.opening? = some i → fs.next ≤ i

end Query

/-- What a move asks first, or what it asks after a reply to that. -/
theorem Move.Asks.first {s : Stream} {next : Reply Stream Outcome → Move σ α} {q : Query}
    (h : (Move.stream s c next).Asks q) :
    q = .stream s c ∨ ∃ r, s.Gives c r ∧ (next r).Asks q := by
  cases h with
  | stream => exact .inl rfl
  | afterStream h t => exact .inr ⟨_, h, t⟩

theorem Move.Asks.firstOdometer {o : Odometer} {next : Reply Odometer (List Value) → Move σ α} {q : Query}
    (h : (Move.odometer o c next).Asks q) :
    q = .odometer o c ∨ ∃ r, o.Gives c r ∧ (next r).Asks q := by
  cases h with
  | odometer => exact .inl rfl
  | afterOdometer h t => exact .inr ⟨_, h, t⟩

namespace Query

variable {q q' : Query}

/-- Something settled is asked, of which the frames are extended. -/
theorem Follows.settled {s : Stream} (he : fs.Extends L c.frames) (hs : s.Settled L c.frames) :
    (Query.stream s c).Follows L fs :=
  ⟨he, fun _ h => nomatch hs.opening?.symm.trans h⟩

/-- Something that is no frame to be filled is asked. -/
theorem Follows.stream {s : Stream} (he : fs.Extends L c.frames) (hs : s.opening? c = none) :
    (Query.stream s c).Follows L fs :=
  ⟨he, fun _ h => nomatch hs.symm.trans h⟩

theorem Follows.odometer {o : Odometer} (he : fs.Extends L c.frames) :
    (Query.odometer o c).Follows L fs :=
  ⟨he, nofun⟩

/-- What follows something that follows the frames. -/
theorem Follows.after (h : q.Follows L c.frames) (he : fs.Extends L c.frames) : q.Follows L fs :=
  ⟨he.trans h.1, fun i hi => Nat.le_trans he.next (h.2 i hi)⟩

/-- A stream that is asked for its answer. -/
theorem Follows.asked {s : Stream} (h : (Move.stream s c .answer : Move Stream Outcome).Asks q)
    (hs : (Query.stream s c).Follows L fs) : q.Follows L fs := by
  obtain rfl := Move.asks_once (f := id) h
  exact hs

end Query

open Query

namespace Stream

variable {s : Stream} {q : Query}

/-! ### One move of each stream -/

/-- What is asked first hoists in a frame that is new. -/
theorem follows_new {frame : Frame} (hf : c'.frames = c.frames.push frame)
    (ho : s.opening? c' = some c.frames.next)
    (h : (Move.stream s c' .answer : Move Stream Outcome).Asks q) : q.Follows L c.frames := by
  refine .asked h ⟨?_, fun i hi => ?_⟩
  · rw [Query.frames, hf]
    exact .push L c.frames frame
  · cases ho.symm.trans hi
    exact Nat.le_refl _

theorem follows_nested {inner : Stream} (hs : inner.Settled L c.frames) (span : Span)
    (h : ((Stream.nested span inner).move c).Asks q) : q.Follows L c.frames := by
  obtain ⟨-, e⟩ | ⟨-, e⟩ := move_nested_cases span inner c <;> rw [e] at h
  · cases h
  · rcases h.first with rfl | ⟨r, -, h⟩
    · exact .settled (c := c.enterNested) (.refl L c.frames) hs
    · cases r <;> cases h

section

variable {inner : Stream} (asked : (requests l L).stream inner c) (hs : inner.Settled L c.frames)

include asked hs

/-- What something settled replies extends the frames and leaves something settled. -/
theorem Settled.leaves {r : Reply Stream Outcome} (hr : inner.Gives c r) :
    c.frames.Leaves L (fun fs s => s.Settled L fs) r := by
  have kept := ((requests_kept l L).gives asked hr).2
  rw [tables] at kept
  simp only [hs.opening?] at kept
  exact kept

theorem follows_flatMap {next : Continuation} (h : ((Stream.flatMap inner next).move c).Asks q) :
    q.Follows L c.frames := by
  rcases h.first with rfl | ⟨r, hr, h⟩
  · exact .settled (.refl L c.frames) hs
  · have he := (hs.leaves asked hr).1
    cases r with
    | yield outcome inner' c' =>
        obtain ⟨failure, e⟩ | ⟨chosen, e, -⟩ := next.on_run_cases outcome c' <;> simp only [e] at h
        · cases h
        · exact .asked h (.stream he rfl)
    | finished c' | failed failure c' => cases h

theorem follows_append {second : Stream} (hs' : second.Settled L c.frames)
    (h : ((Stream.append inner second).move c).Asks q) : q.Follows L c.frames := by
  rcases h.first with rfl | ⟨r, hr, h⟩
  · exact .settled (.refl L c.frames) hs
  · have he := (hs.leaves asked hr).1
    cases r with
    | finished c' => exact .asked h (.settled he (hs'.mono he))
    | yield _ _ _ | failed _ _ => cases h

theorem follows_choice {snapshot : Snapshot} (hsn : snapshot.Settled L c.frames) {later : List Node}
    (h : ((Stream.choice snapshot inner later).move c).Asks q) : q.Follows L c.frames := by
  rcases h.first with rfl | ⟨r, hr, h⟩
  · exact .settled (.refl L c.frames) hs
  · have he := (hs.leaves asked hr).1
    cases r with
    | finished c' =>
        cases later with
        | nil => cases h
        | cons n later => exact .asked h (.stream (he.trans (.restore (hsn.mono he))) rfl)
    | yield _ _ _ | failed _ _ => cases h

theorem follows_sequence {later : List Node} {earlier : OpenStatements}
    (h : ((Stream.sequence (.push inner later earlier)).move c).Asks q) : q.Follows L c.frames := by
  rcases h.first with rfl | ⟨r, hr, h⟩
  · exact .settled (.refl L c.frames) hs
  · have he := (hs.leaves asked hr).1
    cases r with
    | yield outcome inner' c' =>
        cases later with
        | nil => cases outcome <;> cases h
        | cons n next =>
            cases outcome with
            | returned v => cases h
            | value v | cut => exact .asked h (.stream he rfl)
    | finished c' => exact .asked h (.stream he rfl)
    | failed failure c' => cases h

end

theorem follows_calls {arguments : Odometer} (asked : (requests l L).odometer arguments c)
    {span : Span} {callee : Value} (h : ((Stream.calls span callee arguments).move c).Asks q) :
    q.Follows L c.frames := by
  rcases h.firstOdometer with rfl | ⟨r, hr, h⟩
  · exact .odometer (.refl L c.frames)
  · have he := ((requests_kept l L).odometer_gives asked hr).2.1
    cases r with
    | yield values arguments' c' => exact .asked h (.stream he rfl)
    | finished c' | failed failure c' => cases h

/-- What a stream asks, when it opens no frame first. -/
theorem follows_of_asks (ha : (requests l L).stream s c) (hs : s.Settled L c.frames)
    (h : (s.move c).Asks q) : q.Follows L c.frames := by
  have meets := (requests_kept l L).stream s c ha
  have same := Frames.Extends.refl L c.frames
  cases s with
  | empty | once _ | deferred _ => cases h
  | node n => exact .asked h (.stream same rfl)
  | nested span inner => exact follows_nested (show inner.Settled L c.frames from hs) span h
  | map inner f =>
      rcases h.first with rfl | ⟨r, hr, h⟩
      · exact .settled same (show inner.Settled L c.frames from hs)
      · cases r <;> cases h
  | flatMap outer next => exact follows_flatMap meets.1 hs h
  | append first second => exact follows_append meets.1 hs.1 hs.2 h
  | calls span callee arguments => exact follows_calls meets.1 h
  | amb alternatives =>
      cases alternatives with
      | nil => cases h
      | cons n later => exact .asked h (.stream same rfl)
  | choice snapshot current later => exact follows_choice meets.1 hs.2 hs.1 h
  | block ss => exact follows_new rfl rfl h
  | program ss => exact follows_new rfl rfl h
  | body ss => exact absurd hs id
  | sequence begun =>
      cases begun with
      | none => cases h
      | push current later earlier => exact follows_sequence meets.1 hs.1 h
  | framed frame inner | activation frame inner =>
      rcases h.first with rfl | ⟨r, -, h⟩
      · exact .settled (c := c.push frame) same (show inner.Settled L c.frames from hs)
      · cases r <;> cases h
  | call span closure arguments this =>
      obtain ⟨-, e⟩ | ⟨-, -, e⟩ | ⟨-, -, e⟩ :=
        move_call_cases span this closure arguments c <;> rw [e] at h
      · cases h
      · cases h
      · exact follows_new rfl rfl h

/-- What a stream asks that fills a frame first. -/
theorem follows_of_opening (ho : (s.opening? c).isSome) (he : fs.Extends L c.frames)
    (new : ∀ i, s.opening? c = some i → fs.next ≤ i) (h : (s.move c).Asks q) : q.Follows L fs := by
  unfold Stream.opening? at ho new
  split at ho
  next ss =>
      have step : c.frames.Extends (L.during (some c.current)) ((hoist ss).on c).2.frames :=
        extends_hoist ss c (.inr rfl)
      simp only [move] at h
      rcases hx : (hoist ss).on c with ⟨failure | _, c'⟩ <;> rw [hx] at step <;>
        simp only [hx] at h
      · cases h
      · exact .asked h (.settled (he.trans_during step new)
          (Stream.made_ofStatements ss).settled)
  next frame ss =>
      rcases h.first with rfl | ⟨r, -, h⟩
      · exact ⟨he, new⟩
      · cases r <;> cases h
  next frame ss =>
      rcases h.first with rfl | ⟨r, -, h⟩
      · exact ⟨he, new⟩
      · cases r <;> cases h
  next => cases ho

end Stream

/-- What an odometer asks. -/
theorem Odometer.follows_of_asks {o : Odometer} {q : Query} (ha : (requests l L).odometer o c)
    (h : (o.move c).Asks q) : q.Follows L c.frames := by
  have meets := (requests_kept l L).odometer o c ha
  have same := Frames.Extends.refl L c.frames
  have ho := ha.2.2
  rcases o with (_ | ⟨n, later⟩) | ⟨_ | ⟨current, span, later, earlier⟩, values⟩
  · cases h
  · rcases h.firstOdometer with rfl | ⟨r, -, h⟩
    · exact .odometer same
    · cases h
  · cases h
  · rcases h.first with rfl | ⟨r, hr, h⟩
    · exact .settled same ho.1
    · have he := (ho.1.leaves meets.1 hr).1
      cases r with
      | yield outcome current' c' =>
          obtain ⟨failure, e⟩ | e := Action.on_operand_cases span "call argument" outcome c' <;>
            simp only [e] at h
          · cases h
          · cases later with
            | nil => cases h
            | cons n next =>
                rcases h.firstOdometer with rfl | ⟨r, -, h⟩
                · exact .odometer he
                · cases h
      | finished c' =>
          rcases h.firstOdometer with rfl | ⟨r, -, h⟩
          · exact .odometer he
          · cases h
      | failed failure c' => cases h

namespace Query

variable {q q₀ : Query}

/-- What follows the frames asks what follows them. -/
theorem Follows.asks {q' : Query} (ha : (requests l L).Allows q) (hq : q.Follows L fs)
    (h : q.Asks q') : q'.Follows L fs := by
  cases q with
  | stream s c =>
      rcases ha.2.2 with hs | ho
      · exact (Stream.follows_of_asks ha hs h).after hq.1
      · exact Stream.follows_of_opening ho hq.1 hq.2 h
  | odometer o c => exact (Odometer.follows_of_asks ha h).after hq.1

/-- **Whatever is asked on the way finds the frames extended.** -/
theorem extends_of_within (ha : (requests l L).Allows q₀) (ho : q₀.opening? = none)
    (h : q₀.Within q) : q₀.frames.Extends L q.frames := by
  suffices hf : q.Follows L q₀.frames from hf.1
  induction h with
  | refl => exact ⟨.refl L _, fun _ hi => nomatch ho.symm.trans hi⟩
  | tail hw hasks ih => exact .asks ((requests_kept l L).within hw ha) ih hasks

end Query

end Nondet
