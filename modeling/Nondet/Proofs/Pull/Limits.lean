import Nondet.Proofs.Context.Level
import Nondet.Proofs.Pull.Program

/-!
# Pull — Limits

What the limits of a context have a say in.  Two places read them, entering a node and entering a
call, and there they say only whether a failure is raised.  The number of nodes that are being
evaluated is read only to be compared with its limit.  So a request under smaller limits, or inside
more nodes, goes the way of the same request under larger ones, or inside fewer, reply by reply,
until it runs into a limit (`ask_eased`).  The relation that is carried along is `Move.Follows`: two
moves ask the same things and answer alike, or the first has run into a limit.
-/

namespace Nondet

variable {σ α β : Type}

/-- Limits allow no more than other limits when neither of them is greater. -/
instance : LE Limits := ⟨fun l l' => l.maxDepth ≤ l'.maxDepth ∧ l.maxNesting ≤ l'.maxNesting⟩

/-- The context with other limits. -/
def Context.under (c : Context) (l : Limits) : Context := { c with limits := l }

/-- The context with other limits, inside `d` nodes fewer. -/
def Context.eased (c : Context) (l : Limits) (d : Nat) : Context :=
  { c with limits := l, nesting := c.nesting - d }

/-- The reply with its context changed. -/
def Reply.mapContext (f : Context → Context) : Reply σ α → Reply σ α
  | .yield item rest c => .yield item rest (f c)
  | .finished c        => .finished (f c)
  | .failed failure c  => .failed failure (f c)

/-- The reply with other limits in its context. -/
def Reply.under (r : Reply σ α) (l : Limits) : Reply σ α := r.mapContext (·.under l)

/-- The reply with other limits in its context, inside `d` nodes fewer. -/
def Reply.eased (r : Reply σ α) (l : Limits) (d : Nat) : Reply σ α := r.mapContext (·.eased l d)

/-- The failure is that a limit was reached. -/
def Failure.Exceeded : Failure → Prop
  | .exceeded _ _ _ _ => True
  | .mistake _ _      => False

/-- The request ran into a limit. -/
def Reply.Exceeded : Reply σ α → Prop
  | .failed failure _           => failure.Exceeded
  | .yield _ _ _ | .finished _  => False

namespace Query

/-- The request is for a node or a call that a limit does not admit. -/
def barred : Query → Bool
  | .stream (.nested _ _) c                 => c.limits.maxNesting ≤ c.nesting
  | .stream (.call _ closure arguments _) c =>
    arguments.length = closure.params.length ∧ c.limits.maxDepth < c.depth + 1
  | _                                       => false

/-- A limit is reached on the way. -/
def Exceeds (q : Query) : Prop := ∃ q', q.Within q' ∧ q'.barred

variable {q q' : Query}

theorem barred_nested {c : Context} (h : ¬ c.nesting < c.limits.maxNesting) (span : Span)
    (inner : Stream) : (Query.stream (.nested span inner) c).barred :=
  decide_eq_true (Nat.le_of_not_lt h)

theorem Exceeds.barred (h : q.barred) : q.Exceeds := ⟨q, .refl, h⟩

theorem Exceeds.head (ha : q.Asks q') (h : q'.Exceeds) : q.Exceeds :=
  have ⟨q₁, hw, hr⟩ := h
  ⟨q₁, .head ha hw, hr⟩

theorem Exceeds.nested {c : Context} {inner : Stream} (h : (stream inner c.enterNested).Exceeds)
    (room : c.nesting < c.limits.maxNesting) (span : Span) :
    (stream (.nested span inner) c).Exceeds :=
  .head (asks_of_move (Stream.move_nested room span inner)) h

end Query

/-- The reply to a request under the limits `k` inside `n` nodes, and what is replied to the same
request under the limits `l` inside `d` nodes fewer: the same, unless a limit was reached in the
first. -/
def Reply.Agrees (k l : Limits) (d n : Nat) (reached : Prop) (r : Reply σ α)
    (other : Option (Reply σ α)) : Prop :=
  r.context.At k n ∧ (r.Exceeded ∧ reached ∨ other = some (r.eased l d))

theorem Reply.Agrees.imp {k l : Limits} {d n : Nat} {reached reached' : Prop} {r : Reply σ α}
    {other : Option (Reply σ α)} (h : r.Agrees k l d n reached other)
    (imp : reached → reached') : r.Agrees k l d n reached' other :=
  ⟨h.1, h.2.imp_left fun e => ⟨e.1, imp e.2⟩⟩

/-! ### Actions -/

namespace Action

/-- An action that reads neither the limits nor the number of nodes. -/
def Blind (a : Action α) : Prop :=
  ∀ c l d, a.on (c.eased l d) = ((a.on c).1, (a.on c).2.eased l d)

namespace Blind

theorem pure (a : α) : Blind (pure a : Action α) := fun _ _ _ => rfl

theorem raise (failure : Failure) : Blind (raise failure : Action α) := fun _ _ _ => rfl

theorem bind {a : Action α} {f : α → Action β} (ha : Blind a) (hf : ∀ x, Blind (f x)) :
    Blind (a >>= f) := by
  intro c l d
  rw [on_bind, on_bind, ha]
  rcases a.on c with ⟨failure | x, c'⟩
  · rfl
  · exact hf x c' l d

theorem change (name : String) (span : Span) (result : Except BindFailure Frames.Change) :
    Blind (change name span result) := by
  cases result with
  | ok ch => exact fun _ _ _ => rfl
  | error failure => exact raise _

theorem declare (name : String) (span : Span) : Blind (declare name span) :=
  fun c l d => change name span (c.frames.declaration c.current name) c l d

theorem define (name : String) (value : Value) (constant : Bool) (span : Span) :
    Blind (define name value constant span) :=
  fun c l d => change name span (c.frames.definition c.current name value constant) c l d

theorem assign (name : String) (value : Value) (span : Span) : Blind (assign name value span) :=
  fun c l d => change name span (c.frames.assignment c.current name value) c l d

theorem lookup (name : String) (span : Span) : Blind (lookup name span) := by
  intro c l d
  rw [on_lookup, on_lookup]
  have same : (c.eased l d).frames.lookup (c.eased l d).current name =
      c.frames.lookup c.current name := rfl
  rw [same]
  cases c.frames.lookup c.current name <;> rfl

theorem makeClosure (function : Function) : Blind (makeClosure function) := fun _ _ _ => rfl

theorem callNative (span : Span) (name : String) (arguments : List Value) :
    Blind (callNative span name arguments) := by
  intro c l d
  rw [on_callNative, on_callNative]
  have same : (c.eased l d).host.call name arguments = c.host.call name arguments := rfl
  rw [same]
  rcases c.host.call name arguments with (_ | _ | _ | _) | _ <;> rfl

theorem computes : Computes @Blind :=
  ⟨⟨pure, raise, bind⟩, lookup, assign, makeClosure, callNative⟩

theorem operand (span : Span) (operation : String) (outcome : Outcome) :
    Blind (operand span operation outcome) := computes.operand span operation outcome

theorem hoist (ns : List Node) : Blind (hoist ns) := computes.hoist declare ns

theorem continuation (next : Continuation) (outcome : Outcome) : Blind (next.run outcome) :=
  computes.continuation next outcome

theorem deferred (what : Deferred) : Blind what.run :=
  computes.deferred what fun name _ => define name

theorem transform (f : Transform) (outcome : Outcome) : Blind (f.run outcome) :=
  computes.transform f (fun name _ => define name) outcome

end Blind

end Action

/-! ### Moves that go the same way -/

/-- Under the limits `l` and inside `d` nodes fewer, the second move goes the way of the first under
the limits `k` and inside `n` nodes, unless the first is that of a request that was barred. -/
inductive Move.Follows (k l : Limits) (d n : Nat) (barred : Prop) : Move σ α → Move σ α → Prop
  | answer {r} (h : r.context.At k n) : Follows k l d n barred (.answer r) (.answer (r.eased l d))
  | exceeded {failure c m} (hr : barred) (h : failure.Exceeded) (hc : c.At k n) :
      Follows k l d n barred (.answer (.failed failure c)) m
  | stream {s c next next' m} (hd : d ≤ m) (hc : c.At k m)
      (h : ∀ r, r.context.At k m → Follows k l d n barred (next r) (next' (r.eased l d)))
      (pass : ∀ failure c', c'.At k m →
        ∃ c'', c''.At k n ∧ next (.failed failure c') = .answer (.failed failure c'')) :
      Follows k l d n barred (.stream s c next) (.stream s (c.eased l d) next')
  | odometer {o c next next' m} (hd : d ≤ m) (hc : c.At k m)
      (h : ∀ r, r.context.At k m → Follows k l d n barred (next r) (next' (r.eased l d)))
      (pass : ∀ failure c', c'.At k m →
        ∃ c'', c''.At k n ∧ next (.failed failure c') = .answer (.failed failure c'')) :
      Follows k l d n barred (.odometer o c next) (.odometer o (c.eased l d) next')

namespace Move.Follows

variable {k l : Limits} {d n : Nat} {c c' : Context} {barred : Prop}

/-- What is asked for its answer. -/
theorem asked {s : Stream} (hd : d ≤ n) (hc : c.At k n) :
    Follows k l d n barred (.stream s c .answer) (.stream s (c.eased l d) .answer) :=
  .stream hd hc (fun _ => .answer) fun _ _ h => ⟨_, h, rfl⟩

theorem odometer_asked {o : Odometer} (hd : d ≤ n) (hc : c.At k n) :
    Follows k l d n barred (.odometer o c .answer) (.odometer o (c.eased l d) .answer) :=
  .odometer hd hc (fun _ => .answer) fun _ _ h => ⟨_, h, rfl⟩

/-- The reply of an action that reads neither the limits nor the number of nodes. -/
theorem ofResult {a : Action α} (hb : a.Blind) (hs : a.Steady) (hc : c.At k n) (rest : σ) :
    Follows k l d n barred (.answer (.ofResult rest (a.on c)))
      (.answer (.ofResult rest (a.on (c.eased l d)))) := by
  have level := hc.leaves (hs c)
  rw [hb c l d]
  rcases hr : a.on c with ⟨failure | x, c'⟩ <;> rw [hr] at level <;> exact .answer level

section Run

variable {fuel : Nat}

/-- A limit that was reached on the way is passed on as the answer; any other reply on the way is
the same in both. -/
theorem agrees_bind {τ : Type} {m : Nat} {reached reached' : Prop} {r₁ : Reply τ β}
    {other : Option (Reply τ β)} (h : r₁.Agrees k l d m reached other)
    (next : Reply τ β → Option (Reply σ α)) {next' : Reply τ β → Option (Reply σ α)}
    {r : Reply σ α}
    (pass : ∀ failure c', c'.At k m →
      ∃ c'', c''.At k n ∧ next (.failed failure c') = some (.failed failure c''))
    (first : reached → reached') (same : r.Agrees k l d n reached' (next' (r₁.eased l d)))
    (hr : next r₁ = some r) : r.Agrees k l d n reached' (other.bind next') := by
  obtain ⟨level, ⟨e, limit⟩ | rfl⟩ := h
  · cases r₁ with
    | failed failure c' =>
        obtain ⟨c'', hc'', e'⟩ := pass failure c' level
        rw [e'] at hr
        cases hr
        exact ⟨hc'', .inl ⟨e, first limit⟩⟩
    | yield _ _ _ => cases e
    | finished _ => cases e
  · exact same

/-- Moves that go the same way come to the same reply, if all that they ask does. -/
theorem run
    (hs : ∀ m (s : Stream) c r, d ≤ m → c.At k m → s.ask fuel c = some r →
      r.Agrees k l d m (Query.stream s c).Exceeds (s.ask fuel (c.eased l d)))
    (ho : ∀ m (o : Odometer) c r, d ≤ m → c.At k m → o.ask fuel c = some r →
      r.Agrees k l d m (Query.odometer o c).Exceeds (o.ask fuel (c.eased l d)))
    {m m' : Move σ α} (h : Follows k l d n barred m m') {r : Reply σ α}
    (hr : m.run (Stream.ask fuel) (Odometer.ask fuel) = some r) :
    r.Agrees k l d n (barred ∨ ∃ q, m.Asks q ∧ q.Exceeds)
      (m'.run (Stream.ask fuel) (Odometer.ask fuel)) := by
  induction h with
  | answer h =>
      cases hr
      exact ⟨h, .inr rfl⟩
  | exceeded limit e hc =>
      cases hr
      exact ⟨hc, .inl ⟨e, .inl limit⟩⟩
  | @stream s c next _ _ hd hc _ pass ih =>
      obtain ⟨r₁, h₁, h₂⟩ := Option.bind_eq_some_iff.mp hr
      have first := hs _ s c r₁ hd hc h₁
      refine agrees_bind first (fun r => (next r).run _ _) (fun failure c' hc' => ?_)
        (fun limit => .inr ⟨_, .stream, limit⟩) ((ih r₁ first.1 h₂).imp ?_) h₂
      · obtain ⟨c'', hc'', e⟩ := pass failure c' hc'
        exact ⟨c'', hc'', by rw [e]; rfl⟩
      · exact Or.imp_right fun ⟨q, hq, limit⟩ => ⟨q, .afterStream ⟨fuel, h₁⟩ hq, limit⟩
  | @odometer o c next _ _ hd hc _ pass ih =>
      obtain ⟨r₁, h₁, h₂⟩ := Option.bind_eq_some_iff.mp hr
      have first := ho _ o c r₁ hd hc h₁
      refine agrees_bind first (fun r => (next r).run _ _) (fun failure c' hc' => ?_)
        (fun limit => .inr ⟨_, .odometer, limit⟩) ((ih r₁ first.1 h₂).imp ?_) h₂
      · obtain ⟨c'', hc'', e⟩ := pass failure c' hc'
        exact ⟨c'', hc'', by rw [e]; rfl⟩
      · exact Or.imp_right fun ⟨q, hq, limit⟩ => ⟨q, .afterOdometer ⟨fuel, h₁⟩ hq, limit⟩

end Run

/-! ### One move of each stream -/

theorem nested (h : k ≤ l) (hd : d ≤ n) (hc : c.At k n) (span : Span) (inner : Stream) :
    Follows k l d n ((Query.stream (.nested span inner) c).barred)
      ((Stream.nested span inner).move c) ((Stream.nested span inner).move (c.eased l d)) := by
  obtain ⟨full, e⟩ | ⟨below, e⟩ := Stream.move_nested_cases span inner c <;> rw [e]
  · exact .exceeded (decide_eq_true full) trivial (hc.raised _)
  · have below' : (c.eased l d).nesting < (c.eased l d).limits.maxNesting :=
      Nat.lt_of_le_of_lt (Nat.sub_le _ _) (Nat.lt_of_lt_of_le below (hc.1 ▸ h.2))
    -- One node deeper is one node deeper on both sides.
    have deeper : (c.eased l d).enterNested = c.enterNested.eased l d := by
      simp only [Context.enterNested, Context.eased, Nat.sub_add_comm (hc.2 ▸ hd)]
    have leave (r : Reply Stream Outcome) : (r.eased l d).leaving span = (r.leaving span).eased l d := by
      cases r <;> simp only [Reply.leaving, Reply.eased, Reply.mapContext, Context.leaveNested,
        Context.eased, Nat.sub_right_comm]
    rw [Stream.move_nested below', deeper]
    refine .stream (Nat.le_succ_of_le hd) hc.deeper (fun r hr => ?_)
      fun failure c' hc' => ⟨c'.leaveNested, hc'.leaveNested, rfl⟩
    rw [leave]
    exact .answer (r.context_leaving span ▸ Context.At.leaveNested hr)

theorem call (h : k ≤ l) (hd : d ≤ n) (hc : c.At k n) (span : Span) (closure : Closure)
    (arguments : List Value) (this : Option Value) :
    Follows k l d n ((Query.stream (.call span closure arguments this) c).barred)
      ((Stream.call span closure arguments this).move c)
      ((Stream.call span closure arguments this).move (c.eased l d)) := by
  obtain ⟨arity, e⟩ | ⟨arity, full, e⟩ | ⟨arity, below, e⟩ :=
    Stream.move_call_cases span this closure arguments c <;> rw [e]
  · rw [Stream.move_call_mismatch span this arity]
    exact .answer (hc.raised _)
  · exact .exceeded (decide_eq_true ⟨arity, Nat.lt_succ_of_le full⟩) trivial
      (((hc.addFrame _).push _).raised _)
  · have below' : (c.eased l d).depth < (c.eased l d).limits.maxDepth :=
      Nat.lt_of_lt_of_le below (hc.1 ▸ h.1)
    rw [Stream.move_call span this arity below']
    exact asked (c := c.addFrame (.activation closure arguments span this)) hd (hc.addFrame _)

section

variable (hd : d ≤ n) (hc : c.At k n)

include hd hc

/-- A stream whose failures are handed on as they are. -/
theorem inside {s : Stream} {next next' : Reply Stream Outcome → Move σ α}
    (h : ∀ r, r.context.At k n → Follows k l d n barred (next r) (next' (r.eased l d)))
    (pass : ∀ failure c', next (.failed failure c') = .answer (.failed failure c')) :
    Follows k l d n barred (.stream s c next) (.stream s (c.eased l d) next') :=
  .stream hd hc h fun failure c' hc' => ⟨c', hc', pass failure c'⟩

theorem flatMap (outer : Stream) (next : Continuation) :
    Follows k l d n barred ((Stream.flatMap outer next).move c)
      ((Stream.flatMap outer next).move (c.eased l d)) := by
  refine inside hd hc (fun r hr => ?_) fun _ _ => rfl
  cases r with
  | yield outcome outer' c' =>
      simp only [Reply.eased, Reply.mapContext, Action.Blind.continuation next outcome c' l d]
      obtain ⟨failure, e⟩ | ⟨inner, e, -⟩ := next.on_run_cases outcome c' <;> simp only [e]
      · exact .answer (r := .failed failure (c'.raised failure)) (Context.At.raised hr failure)
      · exact asked hd hr
  | finished c' | failed failure c' => exact .answer hr

theorem choice (snapshot : Snapshot) (current : Stream) (later : List Node) :
    Follows k l d n barred ((Stream.choice snapshot current later).move c)
      ((Stream.choice snapshot current later).move (c.eased l d)) := by
  refine inside hd hc (fun r hr => ?_) fun _ _ => rfl
  cases r with
  | finished c' =>
      have back := Context.At.restore hr snapshot
      cases later with
      | nil => exact .answer (r := .finished (c'.restore snapshot)) back
      | cons n later => exact asked (c := c'.restore snapshot) hd back
  | yield outcome current' c' | failed failure c' => exact .answer hr

theorem body (statements : List Node) :
    Follows k l d n barred ((Stream.body statements).move c)
      ((Stream.body statements).move (c.eased l d)) := by
  have level := hc.leaves (Action.Steady.hoist statements c)
  simp only [Stream.move, Action.Blind.hoist statements c l d]
  rcases hx : (Action.hoist statements).on c with ⟨failure | _, c'⟩ <;> rw [hx] at level
  · exact .answer level
  · exact asked hd level

theorem sequence (begun : OpenStatements) :
    Follows k l d n barred ((Stream.sequence begun).move c)
      ((Stream.sequence begun).move (c.eased l d)) := by
  cases begun with
  | none => exact .answer hc
  | push current later earlier =>
      refine inside hd hc (fun r hr => ?_) fun _ _ => rfl
      cases r with
      | yield outcome current' c' =>
          cases outcome with
          | returned v => exact .answer hr
          | value v | cut =>
              cases later with
              | nil => exact .answer hr
              | cons n later => exact asked hd hr
      | finished c' => exact asked hd hr
      | failed failure c' => exact .answer hr

/-- What runs in a frame of its own. -/
theorem inFrame {W : Stream → Stream} {f : Outcome → Outcome} (frame : FrameId) (inner : Stream) :
    let next : Reply Stream Outcome → Move Stream Outcome
      | .yield outcome inner c => .answer (.yield (f outcome) (W inner) c.pop)
      | .finished c            => .answer (.finished c.pop)
      | .failed failure c      => .answer (.failed failure c)
    Follows k l d n barred (.stream inner (c.push frame) next)
      (.stream inner ((c.eased l d).push frame) next) := by
  refine inside (c := c.push frame) hd (hc.push frame) (fun r hr => ?_) fun _ _ => rfl
  cases r with
  | yield outcome inner' c' =>
      exact .answer (r := .yield (f outcome) (W inner') c'.pop) (Context.At.pop hr)
  | finished c' => exact .answer (r := .finished c'.pop) (Context.At.pop hr)
  | failed failure c' => exact .answer hr

end

/-- **A move goes the same way under larger limits and inside fewer nodes.** -/
theorem stream_move (h : k ≤ l) (hd : d ≤ n) (s : Stream) {c : Context} (hc : c.At k n) :
    Follows k l d n (Query.stream s c).barred (s.move c) (s.move (c.eased l d)) := by
  cases s with
  | empty | once _ => exact .answer hc
  | deferred what => exact ofResult (.deferred what) (.deferred what) hc _
  | node n => exact asked hd hc
  | nested span inner => exact nested h hd hc span inner
  | map inner f =>
      refine inside hd hc (fun r hr => ?_) fun _ _ => rfl
      cases r with
      | yield outcome inner' c' => exact ofResult (.transform f outcome) (.transform f outcome) hr _
      | finished c' | failed failure c' => exact .answer hr
  | flatMap outer next => exact flatMap hd hc outer next
  | append first second =>
      refine inside hd hc (fun r hr => ?_) fun _ _ => rfl
      cases r with
      | finished c' => exact asked hd hr
      | yield outcome first' c' | failed failure c' => exact .answer hr
  | calls span callee arguments =>
      refine .odometer hd hc (fun r hr => ?_) fun _ c' hc' => ⟨c', hc', rfl⟩
      cases r with
      | yield values arguments' c' => exact asked hd hr
      | finished c' | failed failure c' => exact .answer hr
  | amb alternatives =>
      cases alternatives with
      | nil => exact .answer hc
      | cons n later => exact asked hd hc
  | choice snapshot current later => exact choice hd hc snapshot current later
  | block statements => exact asked (c := c.addFrame (.child "block" c.current)) hd (hc.addFrame _)
  | program statements => exact asked (c := c.enterProgram) hd hc.enterProgram
  | body statements => exact body hd hc statements
  | sequence begun => exact sequence hd hc begun
  | framed frame inner => exact inFrame hd hc frame inner
  | call span closure arguments this => exact call h hd hc span closure arguments this
  | activation frame inner => exact inFrame hd hc frame inner

theorem odometer_move (hd : d ≤ n) (o : Odometer) {c : Context} (hc : c.At k n) :
    Follows k l d n False (o.move c) (o.move (c.eased l d)) := by
  rcases o with (_ | ⟨n, later⟩) | ⟨_ | ⟨current, span, later, earlier⟩, values⟩
  · exact .answer hc
  · exact odometer_asked hd hc
  · exact .answer hc
  · refine .stream hd hc (fun r hr => ?_) fun _ c' hc' => ⟨c', hc', rfl⟩
    cases r with
    | yield outcome current' c' =>
        simp only [Reply.eased, Reply.mapContext,
          Action.Blind.operand span "call argument" outcome c' l d]
        obtain ⟨failure, e⟩ | e := Action.on_operand_cases span "call argument" outcome c' <;>
          simp only [e]
        · exact .answer (r := .failed failure (c'.raised failure)) (Context.At.raised hr failure)
        · cases later with
          | nil => exact .answer hr
          | cons n next => exact odometer_asked hd hr
    | finished c' => exact odometer_asked hd hr
    | failed failure c' => exact .answer hr

end Move.Follows

variable {k l : Limits} {d n : Nat} {fuel : Nat}

/-- With any fuel, a request under larger limits and inside fewer nodes gets the same reply, unless
the request ran into a limit. -/
theorem ask_eased (h : k ≤ l) : ∀ fuel,
    (∀ n (s : Stream) c r, d ≤ n → c.At k n → s.ask fuel c = some r →
      r.Agrees k l d n (Query.stream s c).Exceeds (s.ask fuel (c.eased l d))) ∧
    ∀ n (o : Odometer) c r, d ≤ n → c.At k n → o.ask fuel c = some r →
      r.Agrees k l d n (Query.odometer o c).Exceeds (o.ask fuel (c.eased l d))
  | 0 => by simp
  | fuel + 1 => by
      obtain ⟨hs, ho⟩ := ask_eased h fuel
      refine ⟨fun n s c r hd hc hr => ?_, fun n o c r hd hc hr => ?_⟩
      · rw [Stream.ask_succ] at hr ⊢
        refine ((Move.Follows.stream_move h hd s hc).run hs ho hr).imp ?_
        rintro (limit | ⟨q, hq, limit⟩)
        · exact .barred limit
        · exact .head hq limit
      · rw [Odometer.ask_succ] at hr ⊢
        refine ((Move.Follows.odometer_move hd o hc).run hs ho hr).imp ?_
        rintro (limit | ⟨q, hq, limit⟩)
        · exact absurd limit id
        · exact .head hq limit

/-- A request under larger limits gets the same reply, unless it ran into a limit. -/
theorem Stream.ask_under (h : k ≤ l) {s : Stream} {c : Context} {r : Reply Stream Outcome}
    (hc : c.limits = k) (hr : s.ask fuel c = some r) :
    r.context.limits = k ∧ (r.Exceeded ∨ s.ask fuel (c.under l) = some (r.under l)) :=
  have ⟨level, agree⟩ := (ask_eased h fuel).1 c.nesting s c r (Nat.zero_le _) ⟨hc, rfl⟩ hr
  ⟨level.limits, agree.imp_left And.left⟩

/-- **A request inside one node fewer gets the same reply**, unless it ran into a limit. -/
theorem Stream.Gives.shallower {s : Stream} {c : Context} {r : Reply Stream Outcome}
    (h : s.Gives c.enterNested r) :
    r.context.At c.limits (c.nesting + 1) ∧
      ((Query.stream s c.enterNested).Exceeds ∨ s.Gives c (r.mapContext Context.leaveNested)) := by
  obtain ⟨fuel, hr⟩ := h
  have same : c.limits ≤ c.limits := ⟨Nat.le_refl _, Nat.le_refl _⟩
  obtain ⟨level, agree⟩ := (ask_eased (d := 1) same fuel).1 (c.nesting + 1) s c.enterNested r
    (Nat.succ_le_succ (Nat.zero_le _)) ⟨rfl, rfl⟩ hr
  refine ⟨level, agree.imp And.right fun same => ⟨fuel, same.trans (congrArg some ?_)⟩⟩
  cases r <;> simp only [Reply.eased, Reply.mapContext, Context.eased, Context.leaveNested] <;>
    rw [← level.limits] <;> rfl

end Nondet
