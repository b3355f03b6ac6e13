import Nondet.Proofs.Pull.Names

/-!
# Pull — Custody

What a script makes of the tables of frames that were there before it.  It runs in frames of its
own: declarations are made and completed in the innermost frame, and none of the older frames is
ever innermost again.  So an older table changes in two ways only, by an assignment to a variable,
and by a choice that goes back to a table that the frame had before.  A `Custody` is any property of
older tables that such assignments keep; whatever a script is asked, it respects it
(`respect_kept`).
-/

namespace Nondet

open Nondet.Action

variable {α β σ : Type} {c c' : Context} {R : Regime} {l : Limits}

/-- A property of the tables of all frames that were created before a first one, which assigning to
variables keeps. -/
structure Custody where
  /-- The first of the frames that are not in custody. -/
  first : FrameId
  table : FrameId → Bindings → Prop
  assigned : ∀ {i : FrameId} {bs : Bindings} {name : String} {v : Value} (w : Value), table i bs →
    bs.get? name = some (.assigned v true) → table i (bs.set name (.assigned w true))

variable {K : Custody}

/-! ### Frames -/

/-- The older tables are as the custody has them. -/
structure Frames.Respects (K : Custody) (fs : Frames) : Prop where
  next : K.first ≤ fs.next
  tables : ∀ i < K.first, K.table i (fs.bindings i)

/-- So are the tables that a snapshot remembers. -/
def Snapshot.Respects (K : Custody) (s : Snapshot) : Prop :=
  ∀ p ∈ s.bindings, p.1 < K.first → K.table p.1 p.2

namespace Frames.Respects

variable {fs : Frames}

theorem push (h : fs.Respects K) (frame : Frame) : (fs.push frame).Respects K := by
  refine ⟨by rw [next_push]; exact Nat.le_succ_of_le h.next, fun i hi => ?_⟩
  rw [bindings_push, if_neg (Nat.ne_of_lt (Nat.lt_of_lt_of_le hi h.next))]
  exact h.tables i hi

theorem setBindings (h : fs.Respects K) {i : FrameId} {bs : Bindings}
    (hb : i < K.first → K.table i bs) : (fs.setBindings i bs).Respects K := by
  refine ⟨by rw [next_setBindings]; exact h.next, fun j hj => ?_⟩
  rw [bindings_setBindings]
  split
  next e => exact e.1 ▸ hb (e.1 ▸ hj)
  next => exact h.tables j hj

/-- A frame that is not in custody may be bound anything. -/
theorem set (h : fs.Respects K) {i : FrameId} (hi : K.first ≤ i) (name : String)
    (binding : Binding) : (fs.set i name binding).Respects K := by
  rw [set_eq_setBindings]
  exact h.setBindings fun hlt => absurd hi (Nat.not_le_of_lt hlt)

theorem makeClosure (h : fs.Respects K) (function : Function) (i : FrameId) :
    (fs.makeClosure function i).2.Respects K := ⟨h.next, h.tables⟩

/-- An assignment overwrites the value of a variable, in whichever frame. -/
theorem assignment (h : fs.Respects K) {i : FrameId} {name : String} {value : Value}
    {change : Change} (hc : fs.assignment i name value = .ok change) :
    (fs.apply change).Respects K := by
  obtain ⟨j, -, ⟨w, hb⟩, rfl⟩ := Frames.assignment_eq_ok hc
  rw [Frames.apply, set_eq_setBindings]
  exact h.setBindings fun hj => K.assigned value (h.tables j hj) hb

end Frames.Respects

/-- A snapshot of a context remembers the tables that the context has. -/
theorem Context.respects_snapshot (h : c.frames.Respects K) : c.snapshot.Respects K := by
  intro p hp hlt
  obtain ⟨i, -, rfl⟩ := List.mem_map.mp hp
  exact h.tables i hlt

theorem Context.respects_restore (h : c.frames.Respects K) {s : Snapshot} (hs : s.Respects K) :
    (c.restore s).frames.Respects K :=
  List.foldlRecOn (motive := fun fs : Frames => fs.Respects K) s.bindings _ h
    fun _ hfs p hp => hfs.setBindings (hs p hp)

/-! ### Actions -/

/-- The innermost frame is not in custody, and what is in custody is respected. -/
structure Context.Respects (K : Custody) (c : Context) : Prop where
  current : K.first ≤ c.current
  frames : c.frames.Respects K

/-- Done in a frame that is not in custody, the action respects what is. -/
def Action.Respects (K : Custody) (a : Action α) : Prop :=
  ∀ c : Context, c.Respects K → (a.on c).2.frames.Respects K

/-- What is like a context that respects the custody has the same innermost frame. -/
theorem Context.Respects.alike (h : c.Respects K) (ha : c.Alike c') (hf : c'.frames.Respects K) :
    c'.Respects K := ⟨ha.current ▸ h.current, hf⟩

namespace Action.Respects

theorem pure (a : α) : Respects K (pure a : Action α) := fun _ h => h.frames

theorem raise (failure : Failure) : Respects K (raise failure : Action α) := fun _ h => h.frames

theorem bind {a : Action α} {f : α → Action β} (ha : Respects K a) (hs : Steady a)
    (hf : ∀ x, Respects K (f x)) : Respects K (a >>= f) := fun c hc => by
  have h := ha c hc
  have alike := hs c
  rw [on_bind]
  rcases hr : a.on c with ⟨failure | x, c'⟩ <;> rw [hr] at h alike
  · exact h
  · exact hf x c' (hc.alike alike h)

theorem change (hc : c.frames.Respects K) (name : String) (span : Span)
    {result : Except BindFailure Frames.Change}
    (h : ∀ ch, result = .ok ch → (c.frames.apply ch).Respects K) :
    ((change name span result).on c).2.frames.Respects K := by
  rw [on_change]
  cases result with
  | ok ch => exact h ch rfl
  | error failure => exact hc

theorem declare (name : String) (span : Span) : Respects K (declare name span) := fun c hc =>
  change hc.frames name span fun ch h => by
    obtain ⟨-, rfl⟩ := Frames.declaration_eq_ok h
    exact hc.frames.set hc.current name _

theorem define (name : String) (value : Value) (constant : Bool) (span : Span) :
    Respects K (define name value constant span) := fun c hc =>
  change hc.frames name span fun ch h => by
    obtain ⟨-, rfl⟩ := Frames.definition_eq_ok h
    exact hc.frames.set hc.current name _

theorem assign (name : String) (value : Value) (span : Span) :
    Respects K (assign name value span) := fun _ hc =>
  change hc.frames name span fun _ h => hc.frames.assignment h

theorem lookup (name : String) (span : Span) : Respects K (lookup name span) := fun c hc => by
  rw [on_lookup]
  split <;> exact hc.frames

theorem makeClosure (function : Function) : Respects K (makeClosure function) :=
  fun c hc => hc.frames.makeClosure function c.current

theorem callNative (span : Span) (name : String) (arguments : List Value) :
    Respects K (callNative span name arguments) := fun c hc => by
  rw [on_callNative]
  rcases c.host.call name arguments with (_ | _ | _ | _) | _ <;> exact hc.frames

theorem computes : Computes fun {_} a => Steady a ∧ Respects K a where
  pure a := ⟨.pure a, pure a⟩
  raise failure := ⟨.raise failure, raise failure⟩
  bind ha hf := ⟨ha.1.bind fun x => (hf x).1, bind ha.2 ha.1 fun x => (hf x).2⟩
  lookup name span := ⟨.lookup name span, lookup name span⟩
  assign name value span := ⟨.assign name value span, assign name value span⟩
  makeClosure function := ⟨.makeClosure function, makeClosure function⟩
  callNative span name arguments := ⟨.callNative span name arguments, callNative span name arguments⟩

theorem hoist (ns : List Node) : Respects K (hoist ns) :=
  (computes.hoist (fun name span => ⟨.declare name span, declare name span⟩) ns).2

theorem deferred (what : Deferred) : Respects K what.run :=
  (computes.deferred what fun name _ v constant span =>
    ⟨.define name v constant span, define name v constant span⟩).2

theorem transform (f : Transform) (outcome : Outcome) : Respects K (f.run outcome) :=
  (computes.transform f (fun name _ v constant span =>
    ⟨.define name v constant span, define name v constant span⟩) outcome).2

end Action.Respects

/-! ### Streams -/

section

variable (K : Custody)

mutual

/-- The stream runs in no frame that is in custody, and goes back to no other tables of such
frames. -/
def Stream.Respects : Stream → Prop
  | .empty | .once _ | .deferred _ | .node _ | .amb _ | .block _ | .program _ | .body _
  | .call _ _ _ _               => True
  | .nested _ inner             => inner.Respects
  | .map inner _                => inner.Respects
  | .flatMap outer _            => outer.Respects
  | .append first second        => first.Respects ∧ second.Respects
  | .calls _ _ arguments        => arguments.Respects
  | .choice snapshot current _  => snapshot.Respects K ∧ current.Respects
  | .sequence begun             => begun.Respects
  | .framed frame inner         => K.first ≤ frame ∧ inner.Respects
  | .activation frame inner     => K.first ≤ frame ∧ inner.Respects

def Odometer.Respects : Odometer → Prop
  | .start _         => True
  | .turning begun _ => begun.Respects

def OpenArguments.Respects : OpenArguments → Prop
  | .none                    => True
  | .push stream _ _ earlier => stream.Respects ∧ earlier.Respects

def OpenStatements.Respects : OpenStatements → Prop
  | .none                  => True
  | .push stream _ earlier => stream.Respects ∧ earlier.Respects

end

end

/-- What was just made runs in no frame. -/
theorem Stream.Made.respects {s : Stream} (h : s.Made True) : s.Respects K := by
  cases h <;> trivial

/-! ### The contract -/

/-- The older tables are respected, and by what is left. -/
def Custody.Leaves (K : Custody) (respects : σ → Prop) (r : Reply σ α) : Prop :=
  r.context.frames.Respects K ∧ ∀ a s c, r = .yield a s c → respects s

/-- Requests in frames that are not in custody. -/
def respect (K : Custody) : Contract where
  stream s c := c.Respects K ∧ s.Respects K
  streamReply _ _ r := K.Leaves (Stream.Respects K) r
  odometer o c := c.Respects K ∧ o.Respects K
  odometerReply _ _ r := K.Leaves (Odometer.Respects K) r

namespace Custody

variable {rest : σ → Prop}

theorem finished (h : c.frames.Respects K) : K.Leaves rest (.finished c : Reply σ α) := ⟨h, nofun⟩

theorem failed (h : c.frames.Respects K) (failure : Failure) :
    K.Leaves rest (.failed failure c : Reply σ α) := ⟨h, nofun⟩

theorem yields (h : c.frames.Respects K) (a : α) {s : σ} (hs : rest s) :
    K.Leaves rest (.yield a s c) := ⟨h, fun _ _ _ e => by cases e; exact hs⟩

theorem ofResult {a : Action α} (ha : a.Respects K) (hc : c.Respects K) {s : σ} (hs : rest s) :
    K.Leaves rest (.ofResult s (a.on c)) := by
  have h := ha c hc
  rcases hr : a.on c with ⟨failure | x, c'⟩ <;> rw [hr] at h
  · exact failed h failure
  · exact yields h x hs

/-- What a request inside a script relies on beside the custody. -/
abbrev base (R : Regime) (l : Limits) : Contract := R.contract.and (discipline l)

/-- A stream that is asked for its answer. -/
theorem asked {s : Stream} (hc : c.Respects K) (hs : s.Respects K) :
    (Move.stream s c .answer).MeetsOver (base R l) (respect K) (K.Leaves (Stream.Respects K)) :=
  ⟨⟨hc, hs⟩, fun _ _ h => h⟩

/-- An odometer that is asked for its answer. -/
theorem odometer_asked {o : Odometer} (hc : c.Respects K) (ho : o.Respects K) :
    (Move.odometer o c .answer).MeetsOver (base R l) (respect K) (K.Leaves (Odometer.Respects K)) :=
  ⟨⟨hc, ho⟩, fun _ _ h => h⟩

/-! ### One move of each stream -/

/-- The moves of the stream in the context respect the custody. -/
def Stays (K : Custody) (R : Regime) (l : Limits) (s : Stream) (c : Context) : Prop :=
  (s.move c).MeetsOver (base R l) (respect K) (K.Leaves (Stream.Respects K))

/-- The moves of the odometer in the context respect the custody. -/
def OdometerStays (K : Custody) (R : Regime) (l : Limits) (o : Odometer) (c : Context) : Prop :=
  (o.move c).MeetsOver (base R l) (respect K) (K.Leaves (Odometer.Respects K))

theorem nested (hc : c.Respects K) {inner : Stream} (hs : inner.Respects K) (span : Span) :
    Stays K R l (.nested span inner) c := by
  obtain ⟨-, h⟩ | ⟨-, h⟩ := Stream.move_nested_cases span inner c <;> rw [Stays, h]
  · exact failed (c := c.raised _) hc.frames _
  · have deeper : c.enterNested.Respects K := ⟨hc.current, hc.frames⟩
    refine ⟨⟨deeper, hs⟩, fun r _ h => ?_⟩
    obtain ⟨hf, hy⟩ := h
    cases r with
    | yield outcome inner' c' =>
        exact yields (c := c'.leaveNested) (s := Stream.nested span inner') hf _
          (show inner'.Respects K from hy _ _ _ rfl)
    | finished c' => exact finished (c := c'.leaveNested) hf
    | failed failure c' => exact failed (c := c'.leaveNested) hf failure

theorem map (hc : c.Respects K) {inner : Stream} (hs : inner.Respects K) (f : Transform) :
    Stays K R l (.map inner f) c := by
  refine ⟨⟨hc, hs⟩, fun r ⟨_, hd⟩ ⟨hf, hy⟩ => ?_⟩
  cases r with
  | yield outcome inner' c' =>
      exact ofResult (.transform f outcome) (hc.alike hd.1 hf)
        (s := Stream.map inner' f) (show inner'.Respects K from hy _ _ _ rfl)
  | finished c' => exact finished hf
  | failed failure c' => exact failed hf failure

theorem flatMap (hc : c.Respects K) {outer : Stream} (hs : outer.Respects K)
    (next : Continuation) : Stays K R l (.flatMap outer next) c := by
  refine ⟨⟨hc, hs⟩, fun r ⟨_, hd⟩ ⟨hf, hy⟩ => ?_⟩
  cases r with
  | yield outcome outer' c' =>
      obtain ⟨failure, e⟩ | ⟨inner, e, hi⟩ := next.on_run_cases outcome c' <;> simp only [e]
      · exact failed (c := c'.raised failure) hf failure
      · exact asked (hc.alike hd.1 hf) ⟨hi.made.respects, show outer'.Respects K from hy _ _ _ rfl⟩
  | finished c' => exact finished hf
  | failed failure c' => exact failed hf failure

theorem append (hc : c.Respects K) {first second : Stream} (hs : first.Respects K)
    (hs' : second.Respects K) : Stays K R l (.append first second) c := by
  refine ⟨⟨hc, hs⟩, fun r ⟨_, hd⟩ ⟨hf, hy⟩ => ?_⟩
  cases r with
  | yield outcome first' c' => exact yields hf _ ⟨hy _ _ _ rfl, hs'⟩
  | finished c' => exact asked (hc.alike hd hf) hs'
  | failed failure c' => exact failed hf failure

theorem calls (hc : c.Respects K) {arguments : Odometer} (ho : arguments.Respects K) (span : Span)
    (callee : Value) : Stays K R l (.calls span callee arguments) c := by
  refine ⟨⟨hc, ho⟩, fun r ⟨_, hd⟩ ⟨hf, hy⟩ => ?_⟩
  cases r with
  | yield values arguments' c' =>
      exact asked (hc.alike hd.1 hf) ⟨(made_apply callee values span none).respects, hy _ _ _ rfl⟩
  | finished c' => exact finished hf
  | failed failure c' => exact failed hf failure

theorem amb (hc : c.Respects K) : ∀ alternatives : List Node, Stays K R l (.amb alternatives) c
  | []     => finished hc.frames
  | _ :: _ => asked hc ⟨Context.respects_snapshot hc.frames, trivial⟩

theorem choice (hc : c.Respects K) {snapshot : Snapshot} (hp : snapshot.place = c.place)
    (hsn : snapshot.Respects K) {current : Stream} (hs : current.Respects K) (later : List Node) :
    Stays K R l (.choice snapshot current later) c := by
  refine ⟨⟨hc, hs⟩, fun r ⟨_, hd⟩ ⟨hf, hy⟩ => ?_⟩
  cases r with
  | yield outcome current' c' => exact yields hf _ ⟨hsn, hy _ _ _ rfl⟩
  | finished c' =>
      have back : c.Alike (c'.restore snapshot) := Context.Alike.restore hd hp
      have hf' := Context.respects_restore hf hsn
      cases later with
      | nil => exact finished hf'
      | cons n later => exact asked (hc.alike back hf') ⟨hsn, trivial⟩
  | failed failure c' => exact failed hf failure

theorem body (hc : c.Respects K) (ss : List Node) : Stays K R l (.body ss) c := by
  have step := Action.Respects.hoist ss c hc
  have alike := Action.Steady.hoist ss c
  rw [Stays]
  simp only [Stream.move]
  rcases hx : (hoist ss).on c with ⟨failure | _, c'⟩ <;> rw [hx] at step alike
  · exact failed step failure
  · exact asked (hc.alike alike step) (Stream.made_ofStatements ss).respects

theorem sequence (hc : c.Respects K) : ∀ {begun : OpenStatements}, begun.Respects K →
    Stays K R l (.sequence begun) c
  | .none, _ => finished hc.frames
  | .push current later earlier, ⟨hs, hb⟩ => by
      refine ⟨⟨hc, hs⟩, fun r ⟨_, hd⟩ ⟨hf, hy⟩ => ?_⟩
      cases r with
      | yield outcome current' c' =>
          have hc' := hc.alike hd.1 hf
          have rest : (OpenStatements.push current' later earlier).Respects K := ⟨hy _ _ _ rfl, hb⟩
          cases outcome with
          | returned v => exact yields (s := Stream.sequence (.push current' later earlier)) hf _ rest
          | value v =>
              cases later with
              | nil => exact yields (s := Stream.sequence (.push current' [] earlier)) hf _ rest
              | cons n later => exact asked hc' ⟨trivial, rest⟩
          | cut =>
              cases later with
              | nil => exact yields hf _ trivial
              | cons n later => exact asked hc' ⟨trivial, trivial⟩
      | finished c' => exact asked (s := .sequence earlier) (hc.alike hd hf) hb
      | failed failure c' => exact failed hf failure

/-- What runs in a frame of its own respects the custody in it. -/
theorem inFrame (W : Stream → Stream) (hW : ∀ {s : Stream}, s.Respects K → (W s).Respects K)
    {f : Outcome → Outcome} : ∀ {r : Reply Stream Outcome}, K.Leaves (Stream.Respects K) r →
      Move.MeetsOver (base R l) (respect K) (K.Leaves (Stream.Respects K))
        (match r with
          | .yield outcome inner c => .answer (.yield (f outcome) (W inner) c.pop)
          | .finished c            => .answer (.finished c.pop)
          | .failed failure c      => .answer (.failed failure c) : Move Stream Outcome)
  | .yield _ _ c', ⟨hf, hy⟩ => yields (c := c'.pop) hf _ (hW (hy _ _ _ rfl))
  | .finished c', ⟨hf, _⟩ => finished (c := c'.pop) hf
  | .failed failure _, ⟨hf, _⟩ => failed hf failure

theorem framed (hc : c.Respects K) {frame : FrameId} (hi : K.first ≤ frame) {inner : Stream}
    (hs : inner.Respects K) : Stays K R l (.framed frame inner) c :=
  ⟨⟨⟨hi, hc.frames⟩, hs⟩, fun _ _ h => inFrame (.framed frame) (fun hs => ⟨hi, hs⟩) (f := id) h⟩

theorem activation (hc : c.Respects K) {frame : FrameId} (hi : K.first ≤ frame) {inner : Stream}
    (hs : inner.Respects K) : Stays K R l (.activation frame inner) c :=
  ⟨⟨⟨hi, hc.frames⟩, hs⟩, fun _ _ h => inFrame (.activation frame) (fun hs => ⟨hi, hs⟩) h⟩

theorem block (hc : c.Respects K) (ss : List Node) : Stays K R l (.block ss) c :=
  asked ⟨hc.current, hc.frames.push _⟩ ⟨hc.frames.next, trivial⟩

theorem call (hc : c.Respects K) (span : Span) (closure : Closure) (arguments : List Value)
    (this : Option Value) : Stays K R l (.call span closure arguments this) c := by
  have new := hc.frames.push (.activation closure arguments span this)
  obtain ⟨-, h⟩ | ⟨-, -, h⟩ | ⟨-, -, h⟩ :=
    Stream.move_call_cases span this closure arguments c <;> rw [Stays, h]
  · exact failed (c := c.raised _) hc.frames _
  · exact failed (c := Context.raised _ _) new _
  · exact asked ⟨hc.current, new⟩ ⟨hc.frames.next, trivial⟩

theorem turning (hc : c.Respects K) {begun : OpenArguments} (hb : begun.Respects K)
    (values : List Value) : OdometerStays K R l (.turning begun values) c := by
  cases begun with
  | none => exact finished hc.frames
  | push current span later earlier =>
      obtain ⟨hs, hb⟩ := hb
      refine ⟨⟨hc, hs⟩, fun r ⟨_, hd⟩ ⟨hf, hy⟩ => ?_⟩
      cases r with
      | yield outcome current' c' =>
          obtain ⟨failure, e⟩ | e := Action.on_operand_cases span "call argument" outcome c' <;>
            simp only [e]
          · exact failed (c := c'.raised failure) hf failure
          · have opened : (OpenArguments.push current' span later earlier).Respects K :=
              ⟨hy _ _ _ rfl, hb⟩
            cases later with
            | nil => exact yields (s := Odometer.turning (.push current' span [] earlier) values) hf _ opened
            | cons n later => exact odometer_asked (hc.alike hd.1 hf) ⟨trivial, opened⟩
      | finished c' => exact odometer_asked (o := .turning earlier _) (hc.alike hd hf) hb
      | failed failure c' => exact failed hf failure

theorem start (hc : c.Respects K) : ∀ arguments : List Node, OdometerStays K R l (.start arguments) c
  | []     => yields hc.frames _ trivial
  | _ :: _ => odometer_asked hc ⟨trivial, trivial⟩

end Custody

/-- **Requests inside a script respect what is in custody.** -/
theorem respect_kept [R.ScriptFree] (l : Limits) (K : Custody) :
    ((R.contract.and (discipline l)).and (respect K)).Kept := by
  refine (discipline_kept l).and (fun s c hb ⟨hc, hs⟩ => ?_) fun o c _ ⟨hc, ho⟩ => ?_
  · obtain ⟨-, placed, -⟩ := hb
    cases s with
    | empty => exact Custody.finished hc.frames
    | once outcome => exact Custody.yields hc.frames _ trivial
    | deferred what => exact Custody.ofResult (.deferred what) hc trivial
    | node n => exact Custody.asked hc (Stream.made_build (.inl trivial)).respects
    | nested span inner => exact Custody.nested hc (show inner.Respects K from hs) span
    | map inner f => exact Custody.map hc (show inner.Respects K from hs) f
    | flatMap outer next => exact Custody.flatMap hc (show outer.Respects K from hs) next
    | append first second => exact Custody.append hc hs.1 hs.2
    | calls span callee arguments => exact Custody.calls hc hs span callee
    | amb alternatives => exact Custody.amb hc alternatives
    | choice snapshot current later => exact Custody.choice hc placed.1 hs.1 hs.2 later
    | block statements => exact Custody.block hc statements
    | program statements => exact absurd placed id
    | body statements => exact Custody.body hc statements
    | sequence begun => exact Custody.sequence hc hs
    | framed frame inner => exact Custody.framed hc hs.1 hs.2
    | call span closure arguments this => exact Custody.call hc span closure arguments this
    | activation frame inner => exact Custody.activation hc hs.1 hs.2
  · cases o with
    | start arguments => exact Custody.start hc arguments
    | turning begun values => exact Custody.turning hc ho values

end Nondet
