import Nondet.Proofs.Context.Action
import Nondet.Proofs.Frame.Ground

/-!
# Context — Ground

Two contexts side by side: that of a script alone, `k`, and that of the session that the script runs
in, `c`.  They echo each other (`k.Echoes G c`) when the frames of the session are those of the
ground with the script's own, renamed, on top of them, the script's own frames lie on the stack
above what lay there before, and the session is nearer to its limits.  An action on both comes to
the same failure, or to results that correspond in contexts that echo each other (`Action.Echoes`),
as long as the script has the names that the action resolves.

A snapshot of the session remembers frames of the ground too, with the tables that they still have,
and of the script's own frames those that the snapshot of the script alone remembers
(`Context.Echoes.snapshot`).  For of the frames of the ground none leads to one of the script's own.
-/

namespace Nondet

variable {G : Ground} {k k' c c' : Context} {i : FrameId}

/-- The stack of the script alone, and that of the session. -/
def Ground.Stacks (G : Ground) (ks cs : List FrameId) : Prop :=
  ∃ own, own ≠ [] ∧ (∀ i ∈ own, i ≠ 0) ∧ ks = own ++ [0] ∧ cs = own.map G.frame ++ G.stack

/-- The tables that a snapshot of the session remembers are those of the ground, and those that the
snapshot of the script alone remembers, renamed. -/
structure Snapshot.Echoes (G : Ground) (s t : Snapshot) : Prop where
  stack : G.Stacks s.stack t.stack
  bindings : ∃ (is js : List FrameId) (old new : FrameId → Bindings),
    s.bindings = is.map (fun i => (i, old i)) ∧ t.bindings = js.map (fun i => (i, new i)) ∧
      old 0 = [] ∧ (∀ j < G.frames.next, new j = G.frames.bindings j) ∧
      ∀ i ≠ 0, (G.frame i ∈ js ↔ i ∈ is) ∧ new (G.frame i) = (old i).rename G

/-- The context `c` of the session is the context `k` of the script alone, on top of the ground. -/
structure Context.Echoes (G : Ground) (k c : Context) : Prop where
  frames : k.frames.Echoes G c.frames
  stack : G.Stacks k.stack c.stack
  bottom : k.global = 0
  global : c.global = G.global
  nesting : k.nesting ≤ c.nesting
  maxDepth : c.limits.maxDepth < k.limits.maxDepth
  maxNesting : c.limits.maxNesting ≤ k.limits.maxNesting

/-- Tables are put back that correspond to each other. -/
theorem Frames.Echoes.putBack {ks fs : Frames} (h : ks.Echoes G fs) {is js : List FrameId}
    {old new : FrameId → Bindings} (hroot : old 0 = [])
    (hground : ∀ j < G.frames.next, new j = G.frames.bindings j)
    (hown : ∀ i ≠ 0, (G.frame i ∈ js ↔ i ∈ is) ∧ new (G.frame i) = (old i).rename G) :
    Frames.Echoes G ((is.map fun i => (i, old i)).foldl (fun fs p => fs.setBindings p.1 p.2) ks)
      ((js.map fun i => (i, new i)).foldl (fun fs p => fs.setBindings p.1 p.2) fs) := by
  have counts (table : FrameId → Bindings) (is : List FrameId) (fs : Frames) :
      let fs' := (is.map fun i => (i, table i)).foldl (fun fs p => fs.setBindings p.1 p.2) fs
      fs'.next = fs.next ∧ fs'.closures = fs.closures := by
    refine List.foldlRecOn (motive := fun fs' : Frames =>
      fs'.next = fs.next ∧ fs'.closures = fs.closures) _ _ ⟨rfl, rfl⟩ fun fs' h _ _ => ?_
    exact ⟨(Frames.next_setBindings _).trans h.1, h.2⟩
  refine ⟨fun j hj => ?_, fun i => ?_, ?_, ?_, ?_⟩
  · -- The tables of the ground are what they were all the time.
    rw [Context.get?_foldl, h.old j hj]
    cases hf : G.frames.get? j with
    | none => rfl
    | some f =>
        rw [hground j hj, Frames.bindings_of_get? hf, Option.map_some]
        split <;> rfl
  · obtain ⟨hmem, htable⟩ := hown (i + 1) (Nat.succ_ne_zero i)
    have hmem : G.frames.next + i ∈ js ↔ i + 1 ∈ is := hmem
    have htable : new (G.frames.next + i) = (old (i + 1)).rename G := htable
    rw [Context.get?_foldl, Context.get?_foldl, h.own]
    cases ks.get? (i + 1) with
    | none => rfl
    | some f =>
        simp only [Option.map_some, htable, hmem, Frame.rename]
        split <;> rfl
  · rw [Context.get?_foldl, h.root, hroot, Option.map_some]
    split <;> rfl
  · rw [(counts new js fs).1, (counts old is ks).1, h.next]
  · rw [(counts new js fs).2, (counts old is ks).2, h.closures]

namespace Context.Echoes

variable (h : k.Echoes G c)

include h

/-- The innermost frame is one of the script's own. -/
theorem current_ne : k.current ≠ 0 := by
  obtain ⟨own, hne, hown, hk, -⟩ := h.stack
  obtain ⟨i, own, rfl⟩ := List.exists_cons_of_ne_nil hne
  rw [current, hk]
  exact hown i List.mem_cons_self

theorem current : c.current = G.frame k.current := by
  obtain ⟨own, hne, -, hk, hc⟩ := h.stack
  obtain ⟨i, own, rfl⟩ := List.exists_cons_of_ne_nil hne
  rw [Context.current, Context.current, hk, hc]
  rfl

theorem depth : k.depth ≤ c.depth + 1 := by
  obtain ⟨own, -, -, hk, hc⟩ := h.stack
  rw [Context.depth, Context.depth, hk, hc, List.length_append, List.length_append, List.length_map]
  exact Nat.add_le_add_right (Nat.le_add_right _ _) 1

/-- Of a name that the script has, the nearest declaration was executed in both or in neither. -/
theorem unassigned_iff (hG : G.Sound) (hl : k.frames.Layered) {name : String}
    (hn : k.frames.Has name k.current) :
    c.frames.lookup c.current name = .error .unassigned ↔
      k.frames.lookup k.current name = .error .unassigned := by
  rw [h.current, h.frames.lookup hG hl hn]
  cases k.frames.lookup k.current name with
  | ok v => exact ⟨nofun, nofun⟩
  | error failure => exact ⟨fun e => by cases e; rfl, fun e => by cases e; rfl⟩

/-! ### What is done with a context -/

theorem withFrames {ks fs : Frames} (hf : ks.Echoes G fs) :
    Context.Echoes G { k with frames := ks } { c with frames := fs } :=
  ⟨hf, h.stack, h.bottom, h.global, h.nesting, h.maxDepth, h.maxNesting⟩

/-- A new frame, which lies where that of the script alone lies. -/
theorem addFrame (f : Frame) : (k.addFrame f).Echoes G (c.addFrame (f.rename G)) :=
  h.withFrames (h.frames.push f)

theorem push (hi : i ≠ 0) : (k.push i).Echoes G (c.push (G.frame i)) := by
  obtain ⟨own, -, hown, hk, hc⟩ := h.stack
  refine ⟨h.frames, ⟨i :: own, nofun, List.forall_mem_cons.mpr ⟨hi, hown⟩, ?_, ?_⟩, h.bottom,
    h.global, h.nesting, h.maxDepth, h.maxNesting⟩
  · exact congrArg (i :: ·) hk
  · exact congrArg (G.frame i :: ·) hc

/-- A frame that was pushed is taken off again. -/
theorem pop (h' : k'.Echoes G c') (hs : k'.stack = i :: k.stack) : k'.pop.Echoes G c'.pop := by
  obtain ⟨own, hne, -, hk, -⟩ := h.stack
  obtain ⟨own', -, hown, hk', hc'⟩ := h'.stack
  rw [hs, hk, ← List.cons_append] at hk'
  obtain rfl := List.append_cancel_right hk'
  refine ⟨h'.frames, ⟨own, hne, fun j hj => hown j (List.mem_cons_of_mem _ hj), ?_, ?_⟩, h'.bottom,
    h'.global, h'.nesting, h'.maxDepth, h'.maxNesting⟩
  · exact (congrArg List.tail hs).trans hk
  · exact congrArg List.tail hc'

theorem enterNested :
    Context.Echoes G { k with nesting := k.nesting + 1 } { c with nesting := c.nesting + 1 } :=
  ⟨h.frames, h.stack, h.bottom, h.global, Nat.succ_le_succ h.nesting, h.maxDepth, h.maxNesting⟩

theorem leaveNested : k.leaveNested.Echoes G c.leaveNested :=
  ⟨h.frames, h.stack, h.bottom, h.global, Nat.sub_le_sub_right h.nesting 1, h.maxDepth,
    h.maxNesting⟩

/-- Both contexts go back to where their snapshots were taken. -/
theorem restore {s t : Snapshot} (hs : s.Echoes G t) : (k.restore s).Echoes G (c.restore t) := by
  obtain ⟨is, js, old, new, hk, hc, hroot, hground, hown⟩ := hs.bindings
  have frames := h.frames.putBack hroot hground hown
  rw [← hk, ← hc] at frames
  exact ⟨frames, hs.stack, h.bottom, h.global, h.nesting, h.maxDepth, h.maxNesting⟩

/-! ### Taking snapshots -/

/-- What the session reaches and did not have before is what the script alone reaches. -/
theorem own_of_reaches (hG : G.Sound) {j : FrameId} (hr : c.Reaches j) (hle : G.frames.next ≤ j) :
    ∃ p ≠ 0, j = G.frame p ∧ k.Reaches p := by
  obtain ⟨own, -, -, hk, hc⟩ := h.stack
  obtain ⟨root, hroot, path⟩ := hr
  -- Once on a frame of its own, a path stays on such frames.
  induction path with
  | refl =>
      rw [hc, h.global, List.mem_cons, List.mem_append, List.mem_map] at hroot
      have outer (hm : root ∈ G.global :: G.stack) : False :=
        Nat.not_lt_of_le hle (hG.root hm)
      rcases hroot with rfl | ⟨p, hp, rfl⟩ | hroot
      · exact (outer List.mem_cons_self).elim
      · refine ⟨p, fun e => ?_, rfl, p, ?_, .refl⟩
        · subst e
          exact outer G.around_mem
        · rw [hk]
          exact List.mem_cons_of_mem _ (List.mem_append_left _ hp)
      · exact (outer (List.mem_cons_of_mem _ hroot)).elim
  | @tail j j' _ he ih =>
      by_cases hlt : j < G.frames.next
      · exact absurd (h.frames.edge_old hG hlt he) (Nat.not_lt_of_le hle)
      obtain ⟨p, hp, rfl, root, hroot, path⟩ := ih (Nat.le_of_not_lt hlt)
      obtain ⟨p', rfl, he'⟩ := h.frames.of_edge hp he
      refine ⟨p', fun e => ?_, rfl, root, hroot, path.tail he'⟩
      subst e
      exact absurd hG.around (Nat.not_lt_of_le hle)

/-- What the script alone reaches the session reaches; where the one comes to its global frame, the
other comes to the ground. -/
theorem reaches_frame (hr : k.Reaches i) : c.Reaches (G.frame i) := by
  obtain ⟨own, -, -, hk, hc⟩ := h.stack
  obtain ⟨root, hroot, path⟩ := hr
  refine ⟨G.frame root, ?_, path.lift G.frame fun _ _ => h.frames.edge⟩
  rw [hk, h.bottom, List.mem_cons, List.mem_append, List.mem_singleton] at hroot
  rw [hc, h.global]
  have bottom : G.frame 0 ∈ G.global :: (own.map G.frame ++ G.stack) := by
    refine (List.mem_cons.mp G.around_mem).elim (fun e => ?_) fun hm => ?_
    · exact e ▸ List.mem_cons_self
    · exact List.mem_cons_of_mem _ (List.mem_append_right _ hm)
  rcases hroot with rfl | hroot | rfl
  · exact bottom
  · exact List.mem_cons_of_mem _ (List.mem_append_left _ (List.mem_map_of_mem hroot))
  · exact bottom

/-- In the session the frames of the script's own are reached that the script alone reaches. -/
theorem reaches_iff (hG : G.Sound) (hi : i ≠ 0) : c.Reaches (G.frame i) ↔ k.Reaches i := by
  refine ⟨fun hr => ?_, h.reaches_frame⟩
  obtain ⟨p, -, e, hp⟩ := h.own_of_reaches hG hr (Ground.next_le_frame hi)
  exact (Ground.frame_inj hG).mp e ▸ hp

/-- **The snapshots of both contexts correspond to each other.** -/
theorem snapshot (hG : G.Sound) (hr : k.frames.InRange) : k.snapshot.Echoes G c.snapshot := by
  refine ⟨h.stack, _, _, k.frames.bindings, c.frames.bindings, rfl, rfl, ?_, fun j hj => ?_,
    fun i hi => ⟨?_, h.frames.bindings hi⟩⟩
  · rw [Frames.bindings_of_get? h.frames.root]
    rfl
  · rw [Frames.bindings, h.frames.old j hj, Frames.bindings]
  · rw [Frames.mem_reachable (h.frames.inRange hG hr), Frames.mem_reachable hr]
    exact h.reaches_iff hG hi

end Context.Echoes

/-! ### Actions -/

/-- The outcome of the session that stands for an outcome of the script alone. -/
def Outcome.rename (G : Ground) : Outcome → Outcome
  | .value v    => .value (v.rename G)
  | .returned v => .returned (v.rename G)
  | .cut        => .cut

theorem Outcome.rename_eq_cut {o : Outcome} : o.rename G = .cut ↔ o = .cut := by
  cases o <;> simp [rename]

variable {α β σ τ : Type}

/-- What comes of an action alone, and what comes of one in the session. -/
inductive Action.Echoes (G : Ground) (R : α → β → Prop) :
    Except Failure α × Context → Except Failure β × Context → Prop
  | ok {a b k c} (h : R a b) (hc : k.Echoes G c) : Echoes G R (.ok a, k) (.ok b, c)
  | error {failure k c} : Echoes G R (.error failure, k) (.error failure, c)

namespace Action.Echoes

variable {R : α → β → Prop} {S : σ → τ → Prop}

theorem bind {a : Action α} {b : Action β} {f : α → Action σ} {g : β → Action τ}
    (h : Echoes G R (a.on k) (b.on c))
    (hf : ∀ x y k' c', a.on k = (.ok x, k') → b.on c = (.ok y, c') → R x y → k'.Echoes G c' →
      Echoes G S ((f x).on k') ((g y).on c')) :
    Echoes G S ((a >>= f).on k) ((b >>= g).on c) := by
  rw [on_bind, on_bind]
  rcases ha : a.on k with ⟨_ | x, k'⟩ <;> rcases hb : b.on c with ⟨_ | y, c'⟩ <;> rw [ha, hb] at h
  · cases h
    exact .error
  · cases h
  · cases h
  · cases h with
    | ok hr hc => exact hf x y k' c' ha hb hr hc

variable (h : k.Echoes G c)

include h

theorem operand (span : Span) (operation : String) (outcome : Outcome) :
    Echoes G (fun v w => w = v.rename G) ((operand span operation outcome).on k)
      ((operand span operation (outcome.rename G)).on c) := by
  cases outcome with
  | value v => exact .ok rfl h
  | returned v => exact .ok rfl h
  | cut => exact .error

theorem check (span : Span) (result : Except Mistake α) :
    Echoes G Eq ((check span result).on k) ((check span result).on c) := by
  cases result with
  | ok a => exact .ok rfl h
  | error mistake => exact .error

/-- A change to frames of the script's own. -/
theorem change (hG : G.Sound) (name : String) (span : Span)
    {ks cs : Except BindFailure Frames.Change}
    (hr : cs = ks.map (Frames.Change.rename G) ∧ ∀ change, ks = .ok change → change.frame ≠ 0) :
    Echoes G Eq ((change name span ks).on k) ((change name span cs).on c) := by
  obtain ⟨rfl, hown⟩ := hr
  cases ks with
  | ok change => exact .ok rfl (h.withFrames (h.frames.apply hG (hown change rfl)))
  | error failure => exact .error

theorem declare (hG : G.Sound) (name : String) (span : Span) :
    Echoes G Eq ((declare name span).on k) ((declare name span).on c) :=
  change h hG name span (h.current ▸ h.frames.declaration h.current_ne name)

theorem define (hG : G.Sound) (name : String) (v : Value) (constant : Bool) (span : Span) :
    Echoes G Eq ((define name v constant span).on k)
      ((define name (v.rename G) constant span).on c) :=
  change h hG name span (h.current ▸ h.frames.definition h.current_ne name v constant)

theorem makeClosure (function : Function) :
    Echoes G (fun a b => b = a.rename G) ((makeClosure function).on k)
      ((makeClosure function).on c) := by
  obtain ⟨same, frames⟩ := h.frames.makeClosure function k.current
  rw [on_makeClosure, on_makeClosure, h.current]
  exact .ok same (h.withFrames frames)

/-- A name that the script has is looked up alike. -/
theorem lookup (hG : G.Sound) (hl : k.frames.Layered) {name : String}
    (hn : k.frames.Has name k.current) (span : Span) :
    Echoes G (fun v w => w = v.rename G) ((lookup name span).on k) ((lookup name span).on c) := by
  rw [on_lookup, on_lookup, h.current, h.frames.lookup hG hl hn]
  cases k.frames.lookup k.current name with
  | ok v => exact .ok rfl h
  | error failure => exact .error

/-- A name that the script has is assigned alike, unless its nearest declaration was not
executed. -/
theorem assign (hG : G.Sound) (hl : k.frames.Layered) {name : String}
    (hn : k.frames.Has name k.current)
    (hu : k.frames.lookup k.current name ≠ .error .unassigned) (v : Value) (span : Span) :
    Echoes G Eq ((assign name v span).on k) ((assign name (v.rename G) span).on c) :=
  change h hG name span (h.current ▸ h.frames.assignment hG hl hn hu v)

omit h in
theorem hoist (hG : G.Sound) : ∀ (ns : List Node) {k c : Context}, k.Echoes G c →
    Echoes G Eq ((hoist ns).on k) ((hoist ns).on c)
  | [], _, _, h => .ok rfl h
  | n :: ns, k, c, h => by
      rw [on_hoist_cons, on_hoist_cons]
      cases n.declaredName? with
      | none => exact hoist hG ns h
      | some name => exact bind (declare h hG name n.span) fun _ _ _ _ _ _ _ h' => hoist hG ns h'

end Action.Echoes

end Nondet
