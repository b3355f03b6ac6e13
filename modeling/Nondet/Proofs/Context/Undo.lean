import Nondet.Proofs.Search.Evolves

/-!
# Context — Undo

A snapshot undoes whatever was done since it was taken, as far as it can be reached.  What can be
done is an `Operation`.  Each of them adds frames, closures and failures, or changes a table or the
stack, and leaves everything else of the frames that existed (`Operation.since`); so does a sequence
of them.  The snapshot has the tables of exactly the frames that are held (`Context.Holds`), so these
frames are what they were, and whatever is read from them is read again (`Frames.Agree.answers`).
-/

namespace Nondet

/-! ### What is held -/

/-- A frame leads to the frame around it and to the frames of the closures that it keeps. -/
inductive Frame.Leads (f : Frame) : FrameId → Prop where
  | parent {p : FrameId} (h : f.parent = some p) : f.Leads p
  | bound {name : String} {closure : Closure} {m : Bool}
      (h : (name, .assigned (.closure closure) m) ∈ f.bindings) : f.Leads closure.frame
  | this {closure : Closure} (h : f.this = some (.closure closure)) : f.Leads closure.frame
  | argument {call : CallRecord} {closure : Closure} (h : f.call = some call)
      (ha : .closure closure ∈ call.arguments) : f.Leads closure.frame

theorem Frame.leads_iff {f : Frame} {j : FrameId} : f.Leads j ↔ j ∈ f.neighbours := by
  rw [mem_neighbours]
  constructor
  · rintro (h | h | h | ⟨h, ha⟩)
    · exact .inl h
    · exact .inr ⟨_, mem_values.mpr (.inl ⟨_, _, h⟩), rfl⟩
    · exact .inr ⟨_, mem_values.mpr (.inr (.inl h)), rfl⟩
    · exact .inr ⟨_, mem_values.mpr (.inr (.inr ⟨_, h, ha⟩)), rfl⟩
  · rintro (h | ⟨closure, hv, rfl⟩)
    · exact .parent h
    · rcases mem_values.mp hv with ⟨_, _, h⟩ | h | ⟨_, h, ha⟩
      · exact .bound h
      · exact .this h
      · exact .argument h ha

/-- A frame is held when it is global or on the stack, or when a frame that is held leads to it. -/
inductive Context.Holds (c : Context) : FrameId → Prop where
  | global : c.Holds c.global
  | stack {i : FrameId} (h : i ∈ c.stack) : c.Holds i
  | step {i j : FrameId} {f : Frame} (h : c.Holds i) (hf : c.frames.get? i = some f)
      (hj : f.Leads j) : c.Holds j

theorem Context.holds_iff {c : Context} {i : FrameId} : c.Holds i ↔ c.Reaches i := by
  constructor
  · intro h
    induction h with
    | global => exact ⟨_, List.mem_cons_self, .refl⟩
    | stack h => exact ⟨_, List.mem_cons_of_mem _ h, .refl⟩
    | step _ hf hj ih =>
        obtain ⟨root, hroot, path⟩ := ih
        exact ⟨root, hroot, path.tail ⟨_, hf, Frame.leads_iff.mp hj⟩⟩
  · rintro ⟨root, hroot, path⟩
    induction path with
    | refl =>
        rcases List.mem_cons.mp hroot with rfl | hroot
        · exact .global
        · exact .stack hroot
    | tail _ he ih =>
        obtain ⟨f, hf, hj⟩ := he
        exact .step ih hf (Frame.leads_iff.mpr hj)

/-- Every frame that is referred to exists. -/
structure Context.Whole (c : Context) : Prop where
  frames : ∀ i f, c.frames.get? i = some f → ∀ j, f.Leads j → j < c.frames.next
  stack : ∀ i ∈ c.stack, i < c.frames.next
  global : c.global < c.frames.next

namespace Context.Whole

variable {c : Context}

/-- It is enough to look at each frame once. -/
theorem of_all (frames : ∀ f ∈ c.frames.all, ∀ j ∈ f.neighbours, j < c.frames.next)
    (stack : ∀ i ∈ c.stack, i < c.frames.next) (global : c.global < c.frames.next) : c.Whole :=
  ⟨fun _ f hf j hj => frames f (Array.mem_of_getElem? hf) j (Frame.leads_iff.mp hj), stack, global⟩

theorem inRange (h : c.Whole) : c.frames.InRange := fun i j ⟨f, hf, hj⟩ =>
  h.frames i f hf j (Frame.leads_iff.mpr hj)

theorem lt_next (h : c.Whole) {i : FrameId} (hi : c.Holds i) : i < c.frames.next := by
  induction hi with
  | global => exact h.global
  | stack hs => exact h.stack _ hs
  | step _ hf hj => exact h.frames _ _ hf _ hj

end Context.Whole

/-! ### Reading along closures -/

namespace Frames

/-- What names stand for: the first as seen from the frame, and each other as seen from the closure
that the one before it stands for. -/
def answers (fs : Frames) : FrameId → List String → List (Except BindFailure Value)
  | _, []            => []
  | i, name :: names =>
    fs.lookup i name ::
      match fs.lookup i name with
      | .ok (.closure closure) => fs.answers closure.frame names
      | _                      => []

/-- Two stores have the same frames in `P`, and these lead to no others. -/
structure Agree (P : FrameId → Prop) (fs fs' : Frames) : Prop where
  same : ∀ i, P i → fs'.get? i = fs.get? i
  closed : ∀ i f, P i → fs.get? i = some f → ∀ j, f.Leads j → P j

namespace Agree

variable {P : FrameId → Prop} {fs fs' : Frames} {i : FrameId}

theorem chainFrom (h : Agree P fs fs') (fuel : Nat) (hi : P i) :
    fs'.chainFrom fuel i = fs.chainFrom fuel i ∧ ∀ j ∈ fs.chainFrom fuel i, P j := by
  induction fuel generalizing i with
  | zero => exact ⟨rfl, List.forall_mem_nil _⟩
  | succ fuel ih =>
      rw [Frames.chainFrom, Frames.chainFrom, h.same i hi]
      cases hf : fs.get? i with
      | none => exact ⟨rfl, List.forall_mem_nil _⟩
      | some f =>
          simp only [List.cons.injEq, true_and, List.forall_mem_cons]
          cases hp : f.parent with
          | none => exact ⟨rfl, hi, List.forall_mem_nil _⟩
          | some p =>
              obtain ⟨e, hP⟩ := ih (h.closed i f hi hf p (.parent hp))
              exact ⟨e, hi, hP⟩

theorem bindings (h : Agree P fs fs') (hi : P i) : fs'.bindings i = fs.bindings i := by
  rw [Frames.bindings, h.same i hi, Frames.bindings]

/-- A name is found where it was, and a closure that it stands for is one of a frame in `P`. -/
theorem lookup (h : Agree P fs fs') (hi : P i) (name : String) :
    fs'.lookup i name = fs.lookup i name ∧
      ∀ closure, fs.lookup i name = .ok (.closure closure) → P closure.frame := by
  obtain ⟨e, hP⟩ := h.chainFrom (i + 1) hi
  rw [Frames.lookup, Frames.lookup, chain, chain, e]
  generalize fs.chainFrom (i + 1) i = is at hP
  induction is with
  | nil => exact ⟨rfl, fun _ hc => by cases hc⟩
  | cons j is ih =>
      rw [List.forall_mem_cons] at hP
      simp only [lookupIn, binding?, h.bindings hP.1]
      cases hb : (fs.bindings j).get? name with
      | none => exact ih hP.2
      | some b =>
          cases b with
          | unassigned => exact ⟨rfl, fun _ hc => by cases hc⟩
          | assigned v m =>
              refine ⟨rfl, fun closure hc => ?_⟩
              cases hc
              have kept := Bindings.mem_of_get? hb
              cases hf : fs.get? j with
              | none => simp [Frames.bindings, hf] at kept
              | some f => exact h.closed j f hP.1 hf _ (.bound (bindings_of_get? hf ▸ kept))

/-- Whatever is read is the same. -/
theorem answers (h : Agree P fs fs') (hi : P i) (names : List String) :
    fs'.answers i names = fs.answers i names := by
  induction names generalizing i with
  | nil => rfl
  | cons name names ih =>
      obtain ⟨e, hP⟩ := h.lookup hi name
      rw [Frames.answers, Frames.answers, e]
      split
      next closure hc => rw [ih (hP closure hc)]
      next => rfl

end Agree

end Frames

/-! ### What is done after a snapshot -/

/-- One thing that can be done to a context without putting anything back. -/
inductive Context.Operation where
  | push (frame : FrameId)
  | pop
  | truncate
  | addFrame (frame : Frame)
  | enterProgram
  | enterNested (span : Span)
  | leaveNested
  | makeClosure (function : Function)
  | hoist (statements : List Node)
  | declare (name : String) (span : Span)
  | define (name : String) (value : Value) (constant : Bool) (span : Span)
  | assign (name : String) (value : Value) (span : Span)
  | lookup (name : String) (span : Span)
  | defineGlobal (name : String) (value : Value)
  | raise (failure : Failure)

namespace Context

namespace Operation

/-- The context afterwards, whether or not the operation failed. -/
def on : Operation → Context → Context
  | push frame, c                     => c.push frame
  | pop, c                            => c.pop
  | truncate, c                       => c.truncate
  | addFrame frame, c                 => c.addFrame frame
  | enterProgram, c                   => c.enterProgram
  | enterNested span, c               => ((Action.enterNested span).on c).2
  | leaveNested, c                    => c.leaveNested
  | makeClosure function, c           => ((Action.makeClosure function).on c).2
  | hoist statements, c               => ((Action.hoist statements).on c).2
  | declare name span, c              => ((Action.declare name span).on c).2
  | define name value constant span, c => ((Action.define name value constant span).on c).2
  | assign name value span, c         => ((Action.assign name value span).on c).2
  | lookup name span, c               => ((Action.lookup name span).on c).2
  | defineGlobal name value, c        => c.defineGlobal name value
  | raise failure, c                  => ((Action.raise failure : Action Unit).on c).2

/-- One operation after the other. -/
def all (operations : List Operation) (c : Context) : Context :=
  operations.foldl (fun c operation => operation.on c) c

end Operation

/-- What becomes of a context while nothing is put back: frames, closures and failures are added to
those that there are, and frames keep everything but their tables. -/
structure Since (c₀ c : Context) : Prop where
  frames : c₀.frames.Evolves [] 0 c.frames
  failures : c₀.failures <+: c.failures

namespace Since

variable {c c₁ c₂ : Context}

/-- Frames and failures stay as they are. -/
theorem of_eq (hf : c₁.frames = c.frames) (he : c₁.failures = c.failures) : Since c c₁ :=
  ⟨hf ▸ .refl _ _ _, he ▸ List.prefix_refl _⟩

theorem trans (h : Since c c₁) (h' : Since c₁ c₂) : Since c c₂ :=
  ⟨h.frames.trans h'.frames, h.failures.trans h'.failures⟩

theorem raised (c : Context) (failure : Failure) : Since c (c.raised failure) :=
  ⟨.refl _ _ _, List.prefix_append _ _⟩

theorem addFrame (c : Context) (frame : Frame) : Since c (c.addFrame frame) :=
  ⟨.push frame (Nat.zero_le _), List.prefix_refl _⟩

theorem apply (c : Context) (change : Frames.Change) :
    Since c { c with frames := c.frames.apply change } :=
  have only : c.frames.Evolves [change.frame] 0 (c.frames.apply change) :=
    .apply change List.mem_cons_self
  ⟨only.mono (Nat.le_refl 0) fun _ hi => absurd hi (Nat.not_lt_zero _), List.prefix_refl _⟩

/-- A change that is refused is a failure. -/
theorem change (c : Context) (name : String) (span : Span)
    (result : Except BindFailure Frames.Change) :
    Since c ((Action.change name span result).on c).2 := by
  cases result with
  | ok change => exact apply c change
  | error failure => exact raised c _

theorem hoist : ∀ (ns : List Node) (c : Context), Since c ((Action.hoist ns).on c).2
  | [], _ => of_eq rfl rfl
  | n :: ns, c => by
      rw [Action.on_hoist_cons]
      cases n.declaredName? with
      | none => exact hoist ns c
      | some name =>
          have first := change c name n.span (c.frames.declaration c.current name)
          rw [← Action.on_declare] at first
          show Since c ((Action.declare name n.span >>= fun _ => Action.hoist ns).on c).2
          rw [Action.on_bind]
          rcases hr : (Action.declare name n.span).on c with ⟨_ | _, c'⟩ <;> rw [hr] at first
          · exact first
          · exact first.trans (hoist ns c')

end Since

/-- What one operation leaves. -/
theorem Operation.since (operation : Operation) (c : Context) : Since c (operation.on c) := by
  cases operation with
  | push | pop | truncate | leaveNested => exact .of_eq rfl rfl
  | addFrame frame => exact .addFrame c frame
  | enterProgram =>
      have added := Since.addFrame c (.child "program" c.truncate.current)
      exact ⟨added.frames, added.failures⟩
  | enterNested span =>
      rw [on, Action.on_enterNested]
      split
      · exact .raised c _
      · exact .of_eq rfl rfl
  | makeClosure function => exact ⟨.makeClosure function c.current, List.prefix_refl _⟩
  | hoist statements => exact .hoist statements c
  | declare name span => exact .change c name span _
  | define name value constant span => exact .change c name span _
  | assign name value span => exact .change c name span _
  | lookup name span =>
      rw [on, Action.on_lookup]
      split
      · exact .of_eq rfl rfl
      · exact .raised c _
  | defineGlobal name value => exact .apply c ⟨c.global, name, .assigned value false⟩
  | raise failure => exact .raised c failure

/-- What a sequence of operations leaves. -/
theorem Operation.since_all (operations : List Operation) (c : Context) :
    Since c (all operations c) := by
  induction operations generalizing c with
  | nil => exact .of_eq rfl rfl
  | cons operation operations ih => exact (operation.since c).trans (ih (operation.on c))

/-! ### Undoing -/

variable {c c₀ : Context} {i : FrameId}

/-- The frames that were held when the snapshot was taken are what they were. -/
theorem get?_restore_of_holds (h₀ : c₀.Whole) (h : c₀.frames.Remain c.frames)
    (hi : c₀.Holds i) : (c.restore c₀.snapshot).frames.get? i = c₀.frames.get? i := by
  obtain ⟨f, hf⟩ := Option.isSome_iff_exists.mp (Frames.get?_isSome.mpr (h₀.lt_next hi))
  obtain ⟨bs, hc⟩ := h hf
  have back : (c.restore c₀.snapshot).frames.bindings i = f.bindings := by
    rw [bindings_restore h₀.inRange, if_pos ⟨holds_iff.mp hi, Frames.lt_next hc⟩,
      Frames.bindings_of_get? hf]
  rw [(Frames.Retabled.restore c c₀.snapshot).get? i, hc, back, hf]
  rfl

/-- The frames that were held are what they were, and they lead to no others. -/
theorem agree_restore (h₀ : c₀.Whole) (h : c₀.frames.Remain c.frames) :
    Frames.Agree c₀.Holds c₀.frames (c.restore c₀.snapshot).frames :=
  ⟨fun _ hi => get?_restore_of_holds h₀ h hi, fun _ _ hi hf _ hj => hi.step hf hj⟩

/-- What a snapshot remembers of the frames: those that are held, in order, with their tables. -/
theorem snapshot_bindings (h : c.Whole) :
    (c.snapshot.bindings.map Prod.fst).Pairwise (· < ·) ∧
      ∀ i bs, (i, bs) ∈ c.snapshot.bindings ↔ c.Holds i ∧ bs = c.frames.bindings i := by
  have frames : c.snapshot.bindings.map Prod.fst = c.frames.reachable (c.global :: c.stack) := by
    rw [snapshot, List.map_map]
    exact List.map_id _
  refine ⟨frames ▸ Frames.sorted_reachable, fun i bs => ?_⟩
  rw [snapshot, List.mem_map, holds_iff, Context.Reaches, ← Frames.mem_reachable h.inRange]
  constructor
  · rintro ⟨j, hj, e⟩
    cases e
    exact ⟨hj, rfl⟩
  · rintro ⟨hi, rfl⟩
    exact ⟨i, hi, rfl⟩

end Context

/-- **A snapshot undoes whatever was done since.**  Let a snapshot be taken of a context in which
every frame that is referred to exists, and let any operations follow.  When the snapshot is put
back, the stack, the count of outer frames and the failures are what they were; so is every frame
that was held, with its table, and so is whatever is read from such a frame and from the closures
that are read there.  The search for these frames ends, however they refer to each other, and the
snapshot has each of them once and no others. -/
theorem restore_undoes {c₀ : Context} (h₀ : c₀.Whole) (operations : List Context.Operation) :
    let back := (Context.Operation.all operations c₀).restore c₀.snapshot
    let roots := c₀.global :: c₀.stack
    (back.stack = c₀.stack ∧ back.outer = c₀.outer ∧ back.failures = c₀.failures) ∧
      (∀ i, c₀.Holds i → back.frames.get? i = c₀.frames.get? i) ∧
      (∀ i names, c₀.Holds i → back.frames.answers i names = c₀.frames.answers i names) ∧
      (∃ n r, n ≤ c₀.frames.next + roots.length ∧
        Reach.Rounds c₀.frames n (Reach.none.addAll roots) r ∧ r.waiting = [] ∧
        c₀.snapshot.bindings.map Prod.fst = r.found.toList) ∧
      (c₀.snapshot.bindings.map Prod.fst).Nodup ∧
      ∀ i bs, (i, bs) ∈ c₀.snapshot.bindings ↔ c₀.Holds i ∧ bs = c₀.frames.bindings i := by
  intro back roots
  have since := Context.Operation.since_all operations c₀
  have agree := Context.agree_restore h₀ since.frames.remain
  have failures : back.failures = c₀.failures := (List.prefix_iff_eq_take.mp since.failures).symm
  obtain ⟨sorted, remembered⟩ := Context.snapshot_bindings h₀
  refine ⟨⟨rfl, rfl, failures⟩, agree.same, fun i names hi => agree.answers hi names, ?_,
    sorted.imp Nat.ne_of_lt, remembered⟩
  obtain ⟨n, r, hn, rounds, -, done, e⟩ := Frames.reachable_ends h₀.inRange roots
  refine ⟨n, r, hn, rounds, done, ?_⟩
  rw [← e, Context.snapshot, List.map_map]
  exact List.map_id _

/-- The rule for a closure that keeps itself: it is reached through the global frame alone, and the
operations overwrite every way to it. -/
theorem restore_undoes_cycle :
    let span : Span := ⟨0, 0⟩
    let closure : Closure := ⟨0, ⟨none, [], .block, .block span [], span⟩, 1⟩
    let outer : Frame :=
      { Frame.root "global" with bindings := [("f", .assigned (.closure closure) true)] }
    let inner : Frame :=
      { Frame.child "block" 0 with
        bindings := [("self", .assigned (.closure closure) true), ("x", .assigned .null true)] }
    let c₀ : Context := { Context.empty .standard fun _ => none with frames := ⟨#[outer, inner], 1⟩ }
    let operations : List Context.Operation :=
      [.push 1, .assign "self" .null span, .declare "y" span, .defineGlobal "f" .null,
        .lookup "missing" span]
    let c := Context.Operation.all operations c₀
    c₀.Whole ∧ c₀.Holds 1 ∧ c.failures.length = 1 ∧
      (c.frames.answers 0 ["f", "self", "self", "x"]).length = 1 ∧
      (c.restore c₀.snapshot).failures = [] ∧
      (c.restore c₀.snapshot).frames.answers 0 ["f", "self", "self", "x"] =
        [.ok (.closure closure), .ok (.closure closure), .ok (.closure closure), .ok .null] := by
  intro span closure outer inner c₀ operations c
  have whole : c₀.Whole := by
    refine .of_all (fun f hf => ?_) (by decide) (by decide)
    rcases List.mem_cons.mp (Array.mem_def.mp hf) with rfl | hf
    · decide
    · obtain rfl := List.mem_singleton.mp hf
      decide
  have named : ("f", .assigned (.closure closure) true) ∈ outer.bindings := List.mem_cons_self
  have bound : outer.Leads 1 := .bound named
  have held : c₀.Holds 1 := .step .global rfl bound
  obtain ⟨⟨-, -, failures⟩, -, answers, -⟩ := restore_undoes whole operations
  have lost : (c.frames.answers 0 ["f", "self", "self", "x"]).length = 1 := by
    decide +kernel
  have was : c₀.frames.answers 0 ["f", "self", "self", "x"] =
      [.ok (.closure closure), .ok (.closure closure), .ok (.closure closure), .ok .null] := by rfl
  have failed : c.failures.length = 1 := by decide +kernel
  exact ⟨whole, held, failed, lost, failures, (answers 0 _ .global).trans was⟩

end Nondet
