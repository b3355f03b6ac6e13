import Nondet.Proofs.Frame.Store
import Nondet.Proofs.Pull.Contract
import Nondet.Proofs.Pull.Rewinds

/-!
# Pull — Upkeep

What holds of a context at every moment.  `Context.Alters` is all that is ever done to a context,
one thing at a time, apart from going back to a snapshot: the stack, the counts and the failures
move, a frame inside another is added, a closure gets its number, and a name that is no constant is
bound.  An `Upkeep` is a property of contexts that none of this breaks, with a property of snapshots
that lets one go back without breaking it either.  Such a property is kept by whatever is asked
(`Upkeep.kept`): it is enough that the choices which are open have snapshots of that kind.
-/

namespace Nondet

open Nondet.Action

variable {α β σ : Type} {c c' : Context}

/-! ### What is done to a context -/

/-- The change binds a name that is no constant in its frame. -/
def Frames.Allows (fs : Frames) (change : Frames.Change) : Prop :=
  ∀ v, fs.binding? change.frame change.name ≠ some (.assigned v false)

namespace Frames

variable {fs : Frames} {i : FrameId} {name : String} {value : Value} {change : Change}

theorem allows_declaration (h : fs.declaration i name = .ok change) : fs.Allows change := by
  obtain ⟨hb, rfl⟩ := declaration_eq_ok h
  intro v hv
  cases hb.symm.trans hv

theorem allows_definition {constant : Bool}
    (h : fs.definition i name value constant = .ok change) : fs.Allows change := by
  obtain ⟨hb, rfl⟩ := definition_eq_ok h
  intro v hv
  cases hb.symm.trans hv

theorem allows_assignment (h : fs.assignment i name value = .ok change) : fs.Allows change := by
  obtain ⟨j, -, ⟨w, hb⟩, rfl⟩ := assignment_eq_ok h
  intro v hv
  cases hb.symm.trans hv

end Frames

/-- One thing that is done to a context, other than going back. -/
inductive Context.Alters (c : Context) : Context → Prop
  /-- Nothing but the stack and the counts, and failures are added. -/
  | around {c' : Context} (frames : c'.frames = c.frames) (global : c'.global = c.global)
      (failures : c.failures <+: c'.failures) : c.Alters c'
  /-- A frame is added inside another. -/
  | frame {frame : Frame} {parent : FrameId} (h : frame.parent = some parent) :
      c.Alters (c.addFrame frame)
  | closure (function : Function) (frame : FrameId) :
      c.Alters { c with frames := (c.frames.makeClosure function frame).2 }
  | change {change : Frames.Change} (h : c.frames.Allows change) :
      c.Alters { c with frames := c.frames.apply change }

/-- Some such things, one after the other. -/
def Context.Reworks : Context → Context → Prop := Relation.ReflTransGen Context.Alters

namespace Context.Reworks

theorem around (frames : c'.frames = c.frames) (global : c'.global = c.global)
    (failures : c'.failures = c.failures) : c.Reworks c' :=
  .single (.around frames global (failures ▸ List.prefix_refl _))

theorem raised (c : Context) (failure : Failure) : c.Reworks (c.raised failure) :=
  .single (.around rfl rfl (List.prefix_append _ _))

theorem addFrame (c : Context) {frame : Frame} {parent : FrameId} (h : frame.parent = some parent) :
    c.Reworks (c.addFrame frame) := .single (.frame h)

theorem enterProgram (c : Context) : c.Reworks c.enterProgram := by
  have cut : c.Reworks c.truncate := around rfl rfl rfl
  have added : c.truncate.Reworks (c.truncate.addFrame (.child "program" c.truncate.current)) :=
    addFrame c.truncate rfl
  exact (cut.trans added).trans (around rfl rfl rfl)

end Context.Reworks

/-! ### Actions -/

/-- Whatever the action does to a context. -/
def Action.Reworks (a : Action α) : Prop := ∀ c : Context, c.Reworks (a.on c).2

namespace Action.Reworks

theorem pure (a : α) : Reworks (pure a : Action α) := fun _ => .refl

theorem raise (failure : Failure) : Reworks (raise failure : Action α) := fun c => .raised c failure

theorem bind {a : Action α} {f : α → Action β} (ha : Reworks a) (hf : ∀ x, Reworks (f x)) :
    Reworks (a >>= f) := fun c => by
  have first := ha c
  rw [on_bind]
  rcases hr : a.on c with ⟨failure | x, c'⟩ <;> rw [hr] at first
  · exact first
  · exact first.trans (hf x c')

theorem change (name : String) (span : Span) {c : Context}
    {result : Except BindFailure Frames.Change} (h : ∀ ch, result = .ok ch → c.frames.Allows ch) :
    c.Reworks ((change name span result).on c).2 := by
  rw [on_change]
  cases result with
  | ok ch => exact .single (.change (h ch rfl))
  | error failure => exact .raised c _

theorem declare (name : String) (span : Span) : Reworks (declare name span) := fun _ =>
  change name span fun _ => Frames.allows_declaration

theorem define (name : String) (value : Value) (constant : Bool) (span : Span) :
    Reworks (define name value constant span) := fun _ =>
  change name span fun _ => Frames.allows_definition

theorem assign (name : String) (value : Value) (span : Span) : Reworks (assign name value span) :=
  fun _ => change name span fun _ => Frames.allows_assignment

theorem lookup (name : String) (span : Span) : Reworks (lookup name span) := fun c => by
  rw [on_lookup]
  split
  · exact .refl
  · exact .raised c _

theorem makeClosure (function : Function) : Reworks (makeClosure function) := fun c =>
  .single (.closure function c.current)

theorem callNative (span : Span) (name : String) (arguments : List Value) :
    Reworks (callNative span name arguments) := fun c => by
  rw [on_callNative]
  rcases c.host.call name arguments with (_ | _ | _ | _) | v
  case ok => exact .refl
  all_goals exact .raised c _

theorem enterNested (span : Span) : Reworks (enterNested span) := fun c => by
  rw [on_enterNested]
  split
  · exact .raised c _
  · exact .around rfl rfl rfl

theorem enterCall (span : Span) (closure : Closure) (arguments : List Value) (this : Option Value) :
    Reworks (enterCall span closure arguments this) := fun c => by
  have added : c.Reworks (c.addFrame (.activation closure arguments span this)) := .addFrame c rfl
  -- A call that is too deep fails with its frame on the stack.
  have pushed :
      c.Reworks ((c.addFrame (.activation closure arguments span this)).push c.frames.next) :=
    added.trans (Context.Reworks.around rfl rfl rfl)
  rw [on_enterCall]
  split
  · exact .raised c _
  · simp only
    split
    · exact pushed.trans (Context.Reworks.raised _ _)
    · exact added

theorem computes : Computes @Reworks :=
  ⟨⟨pure, raise, bind⟩, lookup, assign, makeClosure, callNative⟩

theorem hoist (ns : List Node) : Reworks (hoist ns) := computes.hoist declare ns

theorem deferred (what : Deferred) : Reworks what.run :=
  computes.deferred what fun name _ => define name

theorem transform (f : Transform) (outcome : Outcome) : Reworks (f.run outcome) :=
  computes.transform f (fun name _ => define name) outcome

end Action.Reworks

/-! ### Upkeep -/

/-- A property of contexts that is kept while something is evaluated, and of the snapshots that one
may go back to. -/
structure Upkeep where
  context : Context → Prop
  snapshot : Snapshot → Prop
  altered : ∀ {c c'}, context c → c.Alters c' → context c'
  taken : ∀ {c}, context c → snapshot c.snapshot
  restored : ∀ {c s}, context c → snapshot s → context (c.restore s)

namespace Upkeep

variable (K : Upkeep)

/-- The choices that are open go back to such snapshots. -/
def Open (snapshots : List Snapshot) : Prop := ∀ s ∈ snapshots, K.snapshot s

/-- The context after the request is such a context, and the choices that are left open go back to
such snapshots. -/
def Upholds (choices : σ → List Snapshot) : Reply σ α → Prop
  | .yield _ s c              => K.context c ∧ K.Open (choices s)
  | .finished c | .failed _ c => K.context c

/-- Requests in such contexts, of streams with such choices open. -/
def contract : Contract where
  stream s c := K.context c ∧ K.Open s.choices
  streamReply _ _ r := K.Upholds Stream.choices r
  odometer o c := K.context c ∧ K.Open o.choices
  odometerReply _ _ r := K.Upholds Odometer.choices r

/-- The moves of the stream in the context keep the contract. -/
def Stays (s : Stream) (c : Context) : Prop :=
  (s.move c).Meets K.contract (K.Upholds Stream.choices)

/-- The moves of the odometer in the context keep the contract. -/
def OdometerStays (o : Odometer) (c : Context) : Prop :=
  (o.move c).Meets K.contract (K.Upholds Odometer.choices)

variable {K}

theorem open_append {first second : List Snapshot} :
    K.Open (first ++ second) ↔ K.Open first ∧ K.Open second := List.forall_mem_append

theorem open_new {s : Stream} (h : s.New) : K.Open s.choices := by
  rw [h.choices]
  exact List.forall_mem_nil _

/-- Whatever is done without going back. -/
theorem reworked (h : K.context c) (hr : c.Reworks c') : K.context c' := by
  induction hr with
  | refl => exact h
  | tail _ last ih => exact K.altered ih last

/-- A stream that is asked for its answer. -/
theorem asked {s : Stream} (h : K.context c) (hs : K.Open s.choices) :
    (Move.stream s c .answer).Meets K.contract (K.Upholds Stream.choices) :=
  ⟨⟨h, hs⟩, fun _ hr => hr⟩

/-- An odometer that is asked for its answer. -/
theorem odometer_asked {o : Odometer} (h : K.context c) (ho : K.Open o.choices) :
    (Move.odometer o c .answer).Meets K.contract (K.Upholds Odometer.choices) :=
  ⟨⟨h, ho⟩, fun _ hr => hr⟩

/-- The reply of an action. -/
theorem ofResult (choices : σ → List Snapshot) {a : Action α} (ha : a.Reworks) {s : σ}
    (h : K.context c) (hs : K.Open (choices s)) : K.Upholds choices (.ofResult s (a.on c)) := by
  have left := reworked h (ha c)
  rcases hr : a.on c with ⟨failure | x, c'⟩ <;> rw [hr] at left
  · exact left
  · exact ⟨left, hs⟩

/-! ### One move of each stream -/

variable (h : K.context c)

include h

theorem nested (span : Span) {inner : Stream} (hs : K.Open inner.choices) :
    K.Stays (.nested span inner) c := by
  have entered := reworked h (Action.Reworks.enterNested span c)
  rw [Stays]
  simp only [Stream.move]
  rcases hx : (enterNested span).on c with ⟨failure | _, c'⟩ <;> rw [hx] at entered
  · exact entered
  · refine ⟨⟨entered, hs⟩, fun r hr => ?_⟩
    cases r with
    | yield outcome inner' c' => exact ⟨reworked hr.1 (.around rfl rfl rfl), hr.2⟩
    | finished c' => exact reworked (c := c') hr (.around rfl rfl rfl)
    | failed failure c' => exact reworked (c := c') hr (.around rfl rfl rfl)

theorem map (f : Transform) {inner : Stream} (hs : K.Open inner.choices) :
    K.Stays (.map inner f) c := by
  refine ⟨⟨h, hs⟩, fun r hr => ?_⟩
  cases r with
  | yield outcome inner' c' => exact ofResult Stream.choices (.transform f outcome) hr.1 hr.2
  | finished c' => exact hr
  | failed failure c' => exact hr

theorem flatMap (next : Continuation) {outer : Stream} (hs : K.Open outer.choices) :
    K.Stays (.flatMap outer next) c := by
  refine ⟨⟨h, hs⟩, fun r hr => ?_⟩
  cases r with
  | yield outcome outer' c' =>
      obtain ⟨failure, e⟩ | ⟨inner, e, hi⟩ := next.on_run_cases outcome c' <;> simp only [e]
      · exact reworked hr.1 (.raised c' failure)
      · exact asked hr.1 (open_append.mpr ⟨hr.2, open_new hi.made.new⟩)
  | finished c' => exact hr
  | failed failure c' => exact hr

theorem append {first second : Stream} (hs : K.Open second.choices) (hs' : K.Open first.choices) :
    K.Stays (.append first second) c := by
  refine ⟨⟨h, hs'⟩, fun r hr => ?_⟩
  cases r with
  | yield outcome first' c' => exact ⟨hr.1, open_append.mpr ⟨hs, hr.2⟩⟩
  | finished c' => exact asked hr hs
  | failed failure c' => exact hr

theorem calls (span : Span) (callee : Value) {arguments : Odometer}
    (ho : K.Open arguments.choices) : K.Stays (.calls span callee arguments) c := by
  refine ⟨⟨h, ho⟩, fun r hr => ?_⟩
  cases r with
  | yield values arguments' c' =>
      exact asked hr.1 (open_append.mpr ⟨hr.2, open_new ((made_apply callee values span none).new)⟩)
  | finished c' => exact hr
  | failed failure c' => exact hr

theorem amb : ∀ alternatives : List Node, K.Stays (.amb alternatives) c
  | []     => h
  | _ :: _ => asked h (List.forall_mem_singleton.mpr (K.taken h))

theorem choice {snapshot : Snapshot} {current : Stream} (hs : K.Open (snapshot :: current.choices))
    (later : List Node) : K.Stays (.choice snapshot current later) c := by
  obtain ⟨remembered, hs⟩ := List.forall_mem_cons.mp hs
  refine ⟨⟨h, hs⟩, fun r hr => ?_⟩
  cases r with
  | yield outcome current' c' => exact ⟨hr.1, List.forall_mem_cons.mpr ⟨remembered, hr.2⟩⟩
  | finished c' =>
      have back : K.context (c'.restore snapshot) := K.restored hr remembered
      cases later with
      | nil => exact back
      | cons n later => exact asked back (List.forall_mem_singleton.mpr remembered)
  | failed failure c' => exact hr

theorem body (ss : List Node) : K.Stays (.body ss) c := by
  have left := reworked h (Action.Reworks.hoist ss c)
  rw [Stays]
  simp only [Stream.move]
  rcases hx : (hoist ss).on c with ⟨failure | _, c'⟩ <;> rw [hx] at left
  · exact left
  · exact asked left (open_new (Stream.made_ofStatements ss).new)

theorem sequence : ∀ {begun : OpenStatements}, K.Open begun.choices → K.Stays (.sequence begun) c
  | .none, _ => h
  | .push current later earlier, hs => by
      obtain ⟨he, hs⟩ := open_append.mp hs
      refine ⟨⟨h, hs⟩, fun r hr => ?_⟩
      cases r with
      | yield outcome current' c' =>
          have left : K.Open (earlier.choices ++ current'.choices) := open_append.mpr ⟨he, hr.2⟩
          cases outcome with
          | returned v => exact ⟨hr.1, left⟩
          | value v =>
              cases later with
              | nil => exact ⟨hr.1, left⟩
              | cons n later => exact asked hr.1 (open_append.mpr ⟨left, List.forall_mem_nil _⟩)
          | cut =>
              cases later with
              | nil => exact ⟨hr.1, List.forall_mem_nil _⟩
              | cons n later => exact asked hr.1 (List.forall_mem_nil _)
      | finished c' => exact asked hr he
      | failed failure c' => exact hr

theorem framed (frame : FrameId) {inner : Stream} (hs : K.Open inner.choices) :
    K.Stays (.framed frame inner) c := by
  refine ⟨⟨reworked h (.around rfl rfl rfl), hs⟩, fun r hr => ?_⟩
  cases r with
  | yield outcome inner' c' => exact ⟨reworked hr.1 (.around rfl rfl rfl), hr.2⟩
  | finished c' => exact reworked (c := c') hr (.around rfl rfl rfl)
  | failed failure c' => exact hr

theorem activation (frame : FrameId) {inner : Stream} (hs : K.Open inner.choices) :
    K.Stays (.activation frame inner) c := by
  refine ⟨⟨reworked h (.around rfl rfl rfl), hs⟩, fun r hr => ?_⟩
  cases r with
  | yield outcome inner' c' => exact ⟨reworked hr.1 (.around rfl rfl rfl), hr.2⟩
  | finished c' => exact reworked (c := c') hr (.around rfl rfl rfl)
  | failed failure c' => exact hr

theorem call (span : Span) (closure : Closure) (arguments : List Value) (this : Option Value) :
    K.Stays (.call span closure arguments this) c := by
  have left := reworked h (Action.Reworks.enterCall span closure arguments this c)
  rw [Stays]
  simp only [Stream.move]
  rcases hx : (enterCall span closure arguments this).on c with ⟨failure | frame, c'⟩ <;>
    rw [hx] at left
  · exact left
  · exact asked left (List.forall_mem_nil _)

theorem start : ∀ arguments : List Node, K.OdometerStays (.start arguments) c
  | []     => ⟨h, List.forall_mem_nil _⟩
  | _ :: _ => odometer_asked h (List.forall_mem_nil _)

theorem turning {begun : OpenArguments} (hs : K.Open begun.choices) (values : List Value) :
    K.OdometerStays (.turning begun values) c := by
  cases begun with
  | none => exact h
  | push current span later earlier =>
      obtain ⟨he, hs⟩ := open_append.mp hs
      refine ⟨⟨h, hs⟩, fun r hr => ?_⟩
      cases r with
      | yield outcome current' c' =>
          have open' : K.Open (earlier.choices ++ current'.choices) := open_append.mpr ⟨he, hr.2⟩
          obtain ⟨failure, e⟩ | e := on_operand_cases span "call argument" outcome c' <;>
            simp only [e]
          · exact reworked hr.1 (.raised c' failure)
          · cases later with
            | nil => exact ⟨hr.1, open'⟩
            | cons n later =>
                exact odometer_asked hr.1 (open_append.mpr ⟨open', List.forall_mem_nil _⟩)
      | finished c' => exact odometer_asked hr he
      | failed failure c' => exact hr

omit h

/-- **Every request keeps what is kept up.** -/
theorem kept (K : Upkeep) : K.contract.Kept := by
  refine ⟨fun s c hk => ?_, fun o c hk => ?_⟩
  · obtain ⟨h, hs⟩ := hk
    cases s with
    | empty => exact h
    | once outcome => exact ⟨h, List.forall_mem_nil _⟩
    | deferred what => exact ofResult Stream.choices (.deferred what) h (List.forall_mem_nil _)
    | node n =>
        have new : K.Open (Stream.build n).choices := open_new (Stream.made_build (.inl trivial)).new
        exact asked h new
    | nested span inner => exact nested h span hs
    | map inner f => exact map h f hs
    | flatMap outer next => exact flatMap h next hs
    | append first second =>
        obtain ⟨hs, hs'⟩ := open_append.mp hs
        exact append h hs hs'
    | calls span callee arguments => exact calls h span callee hs
    | amb alternatives => exact amb h alternatives
    | choice snapshot current later => exact choice h hs later
    | block statements => exact asked (reworked h (.addFrame c rfl)) (List.forall_mem_nil _)
    | program statements => exact asked (reworked h (.enterProgram c)) (List.forall_mem_nil _)
    | body statements => exact body h statements
    | sequence begun => exact sequence h hs
    | framed frame inner => exact framed h frame hs
    | call span closure arguments this => exact call h span closure arguments this
    | activation frame inner => exact activation h frame hs
  · obtain ⟨h, ho⟩ := hk
    cases o with
    | start arguments => exact start h arguments
    | turning begun values => exact turning h ho values

end Upkeep

end Nondet
