import Nondet.Proofs.Frame.Covers
import Nondet.Proofs.Native.Prelude
import Nondet.Proofs.Operation

/-!
# Frame — Ground

A script that runs in a session, and the same script alone.  A `Ground` is what the session had when
the script began.  Alone the script has the frames `1`, `2`, … and lies in the global frame `0`,
which holds nothing; in the session it has the frames that follow those of the ground, and lies in
the frame that was innermost.  `v.rename G` is the value of the session that stands for the value
`v` of the script alone: frames and closures have other numbers, and all else is the same.

`ks.Echoes G fs` says that the frames `fs` of the session are those of the ground, untouched, and
then those of the script alone, renamed.  Names that the script has itself are looked up and
assigned alike (`Frames.Echoes.lookup`, `Frames.Echoes.assignment`).  A name that it has not would
be looked for in the frames of the session.
-/

namespace Nondet

/-- What a session had when a script began: its frames, the stack, and the global frame. -/
structure Ground where
  frames : Frames
  stack : List FrameId
  global : FrameId

namespace Ground

/-- The frame that the script lies in. -/
def around (G : Ground) : FrameId := G.stack.headD G.global

/-- The frame of the session that stands for a frame of the script alone. -/
def frame (G : Ground) : FrameId → FrameId
  | 0     => G.around
  | i + 1 => G.frames.next + i

/-- The number of the closure that stands for one of the script alone. -/
def closure (G : Ground) (id : Nat) : Nat := G.frames.closures + id

/-- In the ground no frame leads to one that is not there, and none lies in a later one. -/
structure Sound (G : Ground) : Prop where
  layered : G.frames.Layered
  inRange : G.frames.InRange
  stack : ∀ i ∈ G.stack, i < G.frames.next
  global : G.global < G.frames.next

theorem around_mem (G : Ground) : G.around ∈ G.global :: G.stack := by
  rw [around]
  cases G.stack with
  | nil => exact List.mem_cons_self
  | cons i is => exact List.mem_cons_of_mem _ List.mem_cons_self

theorem Sound.root {G : Ground} (h : G.Sound) {i : FrameId} (hi : i ∈ G.global :: G.stack) :
    i < G.frames.next := by
  rcases List.mem_cons.mp hi with rfl | hi
  · exact h.global
  · exact h.stack i hi

theorem Sound.around {G : Ground} (h : G.Sound) : G.around < G.frames.next := h.root G.around_mem

variable {G : Ground} {i j : FrameId}

theorem closure_inj {a b : Nat} : G.closure a = G.closure b ↔ a = b := Nat.add_left_cancel_iff

/-- The script's own frames come after those of the ground. -/
theorem next_le_frame (hi : i ≠ 0) : G.frames.next ≤ G.frame i := by
  cases i with
  | zero => exact absurd rfl hi
  | succ i => exact Nat.le_add_right _ _

/-- The order of the frames is kept. -/
theorem frame_lt (h : G.Sound) (hij : i < j) : G.frame i < G.frame j := by
  cases i with
  | zero => exact Nat.lt_of_lt_of_le h.around (next_le_frame (Nat.ne_of_gt hij))
  | succ i =>
      cases j with
      | zero => exact absurd hij (Nat.not_lt_zero _)
      | succ j => exact Nat.add_lt_add_left (Nat.lt_of_succ_lt_succ hij) _

/-- A frame that is not of the ground stands for one of the script's own. -/
theorem exists_frame (h : G.frames.next ≤ i) : ∃ j ≠ 0, i = G.frame j := by
  obtain ⟨j, rfl⟩ := Nat.exists_eq_add_of_le h
  exact ⟨j + 1, Nat.succ_ne_zero j, rfl⟩

/-- Different frames stand for different frames. -/
theorem frame_inj (h : G.Sound) : G.frame i = G.frame j ↔ i = j := by
  refine ⟨fun e => ?_, congrArg G.frame⟩
  rcases Nat.lt_trichotomy i j with hij | hij | hij
  · exact absurd e (Nat.ne_of_lt (frame_lt h hij))
  · exact hij
  · exact absurd e (Nat.ne_of_gt (frame_lt h hij))

end Ground

variable (G : Ground)

/-! ### Renaming -/

def Closure.rename (c : Closure) : Closure :=
  { c with id := G.closure c.id, frame := G.frame c.frame }

/-- The value of the session that stands for a value of the script alone. -/
def Value.rename : Value → Value
  | .closure c => .closure (c.rename G)
  | v          => v

def Binding.rename : Binding → Binding
  | .unassigned   => .unassigned
  | .assigned v m => .assigned (v.rename G) m

def Bindings.rename (bs : Bindings) : Bindings := bs.map fun p => (p.1, p.2.rename G)

/-- The frame lies in the renamed frame and holds renamed values. -/
def Frame.rename (f : Frame) : Frame where
  name := f.name
  bindings := f.bindings.rename G
  parent := f.parent.map G.frame
  this := f.this.map (Value.rename G)
  call := f.call.map fun c => { c with arguments := c.arguments.map (Value.rename G) }

def Frames.Change.rename (change : Frames.Change) : Frames.Change :=
  ⟨G.frame change.frame, change.name, change.binding.rename G⟩

variable {G}

namespace Value

variable {v w : Value}

theorem rename_of_isFunction (h : v.isFunction = false) : v.rename G = v := by
  cases v with
  | closure _ | native _ => cases h
  | _ => rfl

/-- Nobody sees which closure a value is and where it was made. -/
@[simp] theorem bare_rename (v : Value) : (v.rename G).bare = v.bare := by
  cases v <;> rfl

@[simp] theorem text_rename (v : Value) : (v.rename G).text = v.text := by
  rw [← text_bare, bare_rename, text_bare]

theorem equal_rename (v w : Value) : (v.rename G).equal (w.rename G) = v.equal w := by
  cases v <;> cases w <;> first | rfl | skip
  simp only [rename, equal, Closure.rename, Bool.beq_eq_decide_eq, Ground.closure_inj]

end Value

theorem UnaryOp.apply_rename (op : UnaryOp) (v : Value) : op.apply (v.rename G) = op.apply v := by
  cases v <;> cases op <;> rfl

theorem BinaryOp.apply_rename (op : BinaryOp) (v w : Value) :
    op.apply (v.rename G) (w.rename G) = op.apply v w := by
  have complaint : op.complaint? (v.rename G) (w.rename G) = op.complaint? v w := by
    rw [← complaint?_bare, Value.bare_rename, Value.bare_rename, complaint?_bare]
  have same := Value.equal_rename (G := G) v w
  have compute : op.compute (v.rename G) (w.rename G) = op.compute v w := by
    cases op with
    | strictEq => exact congrArg Value.bool same
    | strictNe => exact congrArg (fun b => Value.bool !b) same
    | _ => cases v <;> cases w <;> rfl
  rw [apply, complaint, compute, apply]

theorem Test.decide_rename (test : Test) (v : Value) :
    test.decide (v.rename G) = test.decide v := by
  cases v <;> rfl

namespace Bindings

theorem rename_cons (name : String) (b : Binding) (bs : Bindings) :
    rename G ((name, b) :: bs) = (name, b.rename G) :: rename G bs := rfl

theorem get?_rename (bs : Bindings) (name : String) :
    (bs.rename G).get? name = (bs.get? name).map (Binding.rename G) := by
  induction bs with
  | nil => rfl
  | cons p bs ih =>
      obtain ⟨n, b⟩ := p
      rw [rename_cons, get?_cons, get?_cons, ih]
      split <;> rfl

theorem set_rename (name : String) (b : Binding) (bs : Bindings) :
    rename G (bs.set name b) = (bs.rename G).set name (b.rename G) := by
  induction bs with
  | nil => rfl
  | cons p bs ih =>
      obtain ⟨n, b'⟩ := p
      rw [rename_cons, set, set]
      split
      · rfl
      · rw [← ih]
        rfl

theorem ofArguments_rename (params : List String) (arguments : List Value) :
    rename G (ofArguments params arguments) =
      ofArguments params (arguments.map (Value.rename G)) := by
  have bound : ∀ (ps : List (String × Value)) (bs : Bindings),
      rename G (ps.foldl (fun bs p => set p.1 (.assigned p.2 true) bs) bs) =
        (ps.map fun p => (p.1, p.2.rename G)).foldl (fun bs p => set p.1 (.assigned p.2 true) bs)
          (bs.rename G) := by
    intro ps
    induction ps with
    | nil => exact fun _ => rfl
    | cons p ps ih => exact fun bs => by rw [List.foldl_cons, ih, set_rename]; rfl
  rw [ofArguments, bound, ofArguments, List.zip_map_right]
  rfl

end Bindings

namespace Frame

theorem rename_activation (closure : Closure) (arguments : List Value) (span : Span)
    (this : Option Value) : (activation closure arguments span this).rename G =
      activation (closure.rename G) (arguments.map (Value.rename G)) span
        (this.map (Value.rename G)) := by
  simp only [rename, activation, Bindings.ofArguments_rename]
  rfl

theorem values_rename (f : Frame) : (f.rename G).values = f.values.map (Value.rename G) := by
  have this : (f.rename G).this.toList = f.this.toList.map (Value.rename G) := by
    rw [rename]
    cases f.this <;> rfl
  have call : ((f.rename G).call.map CallRecord.arguments).getD [] =
      ((f.call.map CallRecord.arguments).getD []).map (Value.rename G) := by
    rw [rename]
    cases f.call <;> rfl
  rw [values, this, call, values, List.map_append, List.map_append]
  refine congrArg (· ++ _ ++ _) ?_
  have bindings : (f.rename G).bindings = f.bindings.rename G := rfl
  rw [bindings, Bindings.rename, List.filterMap_map, List.map_filterMap]
  refine congrArg (List.filterMap · f.bindings) (funext fun p => ?_)
  obtain ⟨n, _ | ⟨v, m⟩⟩ := p <;> rfl

/-- The renamed frame leads where the frame leads, renamed. -/
theorem neighbours_rename (f : Frame) : (f.rename G).neighbours = f.neighbours.map G.frame := by
  have frames : ∀ vs : List Value,
      ((vs.map (Value.rename G)).filterMap fun v => v.asClosure?.map Closure.frame) =
        (vs.filterMap fun v => v.asClosure?.map Closure.frame).map G.frame := by
    intro vs
    rw [List.filterMap_map, List.map_filterMap]
    refine congrArg (List.filterMap · vs) (funext fun v => ?_)
    cases v <;> rfl
  rw [neighbours, neighbours, values_rename, frames, List.map_append]
  congr 1
  rw [rename]
  cases f.parent <;> rfl

end Frame

/-! ### The frames of the session -/

/-- The frames `fs` of the session are those of the ground, and then those of the script alone. -/
structure Frames.Echoes (G : Ground) (ks fs : Frames) : Prop where
  old : ∀ i < G.frames.next, fs.get? i = G.frames.get? i
  own : ∀ i, fs.get? (G.frames.next + i) = (ks.get? (i + 1)).map (Frame.rename G)
  root : ks.get? 0 = some (.root "global")
  next : fs.next = G.frame ks.next
  closures : fs.closures = G.closure ks.closures

namespace Frames.Echoes

variable {ks fs : Frames} {i : FrameId} {name : String}

theorem next_pos (h : ks.Echoes G fs) : 0 < ks.next := Frames.lt_next h.root

/-- The next frame of the session will stand for the next one of the script alone. -/
theorem frame_next (h : ks.Echoes G fs) : G.frame ks.next + 1 = G.frame (ks.next + 1) := by
  obtain ⟨n, hn⟩ := Nat.exists_eq_succ_of_ne_zero (Nat.ne_of_gt h.next_pos)
  rw [hn]
  rfl

theorem get? (h : ks.Echoes G fs) (hi : i ≠ 0) :
    fs.get? (G.frame i) = (ks.get? i).map (Frame.rename G) := by
  cases i with
  | zero => exact absurd rfl hi
  | succ i => exact h.own i

theorem get?_of_some (h : ks.Echoes G fs) (hi : i ≠ 0) {f : Frame} (hf : ks.get? i = some f) :
    fs.get? (G.frame i) = some (f.rename G) := by
  rw [h.get? hi, hf, Option.map_some]

/-- A frame that lies in another is not the global one. -/
theorem ne_zero_of_parent (h : ks.Echoes G fs) {f : Frame} {p : FrameId} (hf : ks.get? i = some f)
    (hp : f.parent = some p) : i ≠ 0 := by
  rintro rfl
  cases h.root.symm.trans hf
  cases hp

theorem bindings (h : ks.Echoes G fs) (hi : i ≠ 0) :
    fs.bindings (G.frame i) = (ks.bindings i).rename G := by
  rw [Frames.bindings, h.get? hi, Frames.bindings]
  cases ks.get? i <;> rfl

theorem binding? (h : ks.Echoes G fs) (hi : i ≠ 0) (name : String) :
    fs.binding? (G.frame i) name = (ks.binding? i name).map (Binding.rename G) := by
  rw [Frames.binding?, h.bindings hi, Bindings.get?_rename, Frames.binding?]

/-! #### What is done with the frames -/

/-- A new frame that lies where the frame of the script alone lies. -/
theorem push (h : ks.Echoes G fs) (f : Frame) : (ks.push f).Echoes G (fs.push (f.rename G)) := by
  refine ⟨fun i hi => ?_, fun i => ?_, Frames.get?_push_of_some h.root f, ?_, h.closures⟩
  · have hne : i ≠ fs.next := by
      rw [h.next]
      exact Nat.ne_of_lt (Nat.lt_of_lt_of_le hi (Ground.next_le_frame (Nat.ne_of_gt h.next_pos)))
    rw [Frames.get?_push, if_neg hne, h.old i hi]
  · obtain ⟨n, hn⟩ := Nat.exists_eq_succ_of_ne_zero (Nat.ne_of_gt h.next_pos)
    have hnext : fs.next = G.frames.next + n := h.next.trans (congrArg G.frame hn)
    rw [Frames.get?_push, Frames.get?_push, hnext, hn, h.own]
    by_cases e : i = n
    · rw [if_pos (congrArg (G.frames.next + ·) e), if_pos (congrArg Nat.succ e)]
      rfl
    · rw [if_neg fun e' => e (Nat.add_left_cancel e'), if_neg fun e' => e (Nat.succ.inj e')]
  · rw [Frames.next_push, Frames.next_push, h.next, h.frame_next]

/-- A name that is bound in a frame of the script's own. -/
theorem set (hG : G.Sound) (h : ks.Echoes G fs) (hi : i ≠ 0) (name : String) (b : Binding) :
    (ks.set i name b).Echoes G (fs.set (G.frame i) name (b.rename G)) := by
  refine ⟨fun j hj => ?_, fun j => ?_, ?_, ?_, h.closures⟩
  · rw [Frames.get?_set, if_neg, h.old j hj]
    exact fun e => absurd (e ▸ hj) (Nat.not_lt_of_le (Ground.next_le_frame hi))
  · have same : G.frame i = G.frames.next + j ↔ i = j + 1 :=
      Ground.frame_inj (j := j + 1) hG
    rw [Frames.get?_set, Frames.get?_set, h.own]
    by_cases e : i = j + 1
    · rw [if_pos (same.mpr e), if_pos e]
      cases ks.get? (j + 1) with
      | none => rfl
      | some f =>
          simp only [Option.map_some, Frame.rename, Bindings.set_rename]
    · rw [if_neg fun e' => e (same.mp e'), if_neg e]
  · rw [Frames.get?_set, if_neg hi, h.root]
  · rw [Frames.next_set, Frames.next_set, h.next]

/-- A change in a frame of the script's own. -/
theorem apply (hG : G.Sound) (h : ks.Echoes G fs) {change : Frames.Change} (hc : change.frame ≠ 0) :
    (ks.apply change).Echoes G (fs.apply (change.rename G)) := h.set hG hc _ _

theorem makeClosure (h : ks.Echoes G fs) (function : Function) (i : FrameId) :
    (fs.makeClosure function (G.frame i)).1 = (ks.makeClosure function i).1.rename G ∧
      (ks.makeClosure function i).2.Echoes G (fs.makeClosure function (G.frame i)).2 :=
  ⟨congrArg (fun id => (⟨id, function, G.frame i⟩ : Closure)) h.closures,
    h.old, h.own, h.root, h.next, congrArg (· + 1) h.closures⟩

/-! #### Names -/

/-- A change, or the reason why it is refused, in the session. -/
theorem declaration (h : ks.Echoes G fs) (hi : i ≠ 0) (name : String) :
    fs.declaration (G.frame i) name = (ks.declaration i name).map (Frames.Change.rename G) ∧
      ∀ change, ks.declaration i name = .ok change → change.frame ≠ 0 := by
  rw [Frames.declaration, Frames.declaration, h.binding? hi]
  rcases ks.binding? i name with _ | _ | ⟨v, m⟩
  · exact ⟨rfl, fun _ e => by cases e; exact hi⟩
  · exact ⟨rfl, fun _ e => by cases e⟩
  · exact ⟨rfl, fun _ e => by cases e⟩

theorem definition (h : ks.Echoes G fs) (hi : i ≠ 0) (name : String) (v : Value) (constant : Bool) :
    fs.definition (G.frame i) name (v.rename G) constant =
        (ks.definition i name v constant).map (Frames.Change.rename G) ∧
      ∀ change, ks.definition i name v constant = .ok change → change.frame ≠ 0 := by
  rw [Frames.definition, Frames.definition, h.binding? hi]
  rcases ks.binding? i name with _ | _ | ⟨v, m⟩
  · exact ⟨rfl, fun _ e => by cases e⟩
  · exact ⟨rfl, fun _ e => by cases e; exact hi⟩
  · exact ⟨rfl, fun _ e => by cases e⟩

/-- Every frame of the session was created after the one around it. -/
theorem layered (hG : G.Sound) (h : ks.Echoes G fs) (hl : ks.Layered) : fs.Layered := by
  intro i f p hf hp
  by_cases hi : i < G.frames.next
  · exact hG.layered i f p ((h.old i hi).symm.trans hf) hp
  obtain ⟨i, hne, rfl⟩ := Ground.exists_frame (Nat.le_of_not_lt hi)
  rw [h.get? hne] at hf
  obtain ⟨f, hf', rfl⟩ := Option.map_eq_some_iff.mp hf
  obtain ⟨p, hp', rfl⟩ := Option.map_eq_some_iff.mp hp
  exact Ground.frame_lt hG (hl i f p hf' hp')

/-- **A name that the script has is looked up in the session as by the script alone.** -/
theorem lookup (hG : G.Sound) (h : ks.Echoes G fs) (hl : ks.Layered) (hn : ks.Has name i) :
    fs.lookup (G.frame i) name = (ks.lookup i name).map (Value.rename G) := by
  have layered := h.layered hG hl
  -- A frame that has the name is as far as one has to look, in the session too.
  have found {i : FrameId} {f : Frame} (hi : i ≠ 0) (hf : ks.get? i = some f) {b : Binding}
      (hb : ks.binding? i name = some b) :
      fs.lookup (G.frame i) name = (ks.lookup i name).map (Value.rename G) := by
    have hb' : fs.binding? (G.frame i) name = some (b.rename G) := by
      rw [h.binding? hi, hb, Option.map_some]
    rw [Frames.lookup_of_binding? hf hb, Frames.lookup_of_binding? (h.get?_of_some hi hf) hb']
    cases b <;> rfl
  induction hn with
  | here hf hp hb =>
      obtain ⟨b, hb⟩ := Option.isSome_iff_exists.mp hb
      rw [← Frames.bindings_of_get? hf] at hb
      exact found (h.ne_zero_of_parent hf hp) hf hb
  | @around i f p hf hp _ ih =>
      have hi := h.ne_zero_of_parent hf hp
      cases hb : ks.binding? i name with
      | some b => exact found hi hf hb
      | none =>
          have hf' := h.get?_of_some hi hf
          have hb' : fs.binding? (G.frame i) name = none := by
            rw [h.binding? hi, hb, Option.map_none]
          have hp' : (f.rename G).parent = some (G.frame p) := congrArg (Option.map G.frame) hp
          rw [hl.lookup_eq hf hb, layered.lookup_eq hf' hb', hp, hp', Option.map_some,
            Option.map_some, Option.getD_some, Option.getD_some, ih]

/-- A name that the script has is assigned in the session as by the script alone, unless its nearest
declaration was not executed; then the assignment would go on beyond the script. -/
theorem assignment (hG : G.Sound) (h : ks.Echoes G fs) (hl : ks.Layered) (hn : ks.Has name i)
    (hu : ks.lookup i name ≠ .error .unassigned) (v : Value) :
    fs.assignment (G.frame i) name (v.rename G) =
        (ks.assignment i name v).map (Frames.Change.rename G) ∧
      ∀ change, ks.assignment i name v = .ok change → change.frame ≠ 0 := by
  have layered := h.layered hG hl
  -- A frame where the name has a value is as far as one has to look.
  have found {i : FrameId} {f : Frame} (hi : i ≠ 0) (hf : ks.get? i = some f) {b : Binding}
      (hb : ks.binding? i name = some b) (hu : ks.lookup i name ≠ .error .unassigned) :
      fs.assignment (G.frame i) name (v.rename G) =
          (ks.assignment i name v).map (Frames.Change.rename G) ∧
        ∀ change, ks.assignment i name v = .ok change → change.frame ≠ 0 := by
    rw [Frames.assignment, Frames.assignment, layered.chain_eq (h.get?_of_some hi hf),
      hl.chain_eq hf, Frames.assignmentIn, Frames.assignmentIn, h.binding? hi, hb]
    rw [Frames.lookup_of_binding? hf hb] at hu
    rcases b with _ | ⟨w, _ | _⟩
    · exact absurd rfl hu
    · exact ⟨rfl, fun _ e => by cases e⟩
    · exact ⟨rfl, fun _ e => by cases e; exact hi⟩
  induction hn with
  | here hf hp hb =>
      obtain ⟨b, hb⟩ := Option.isSome_iff_exists.mp hb
      rw [← Frames.bindings_of_get? hf] at hb
      exact found (h.ne_zero_of_parent hf hp) hf hb hu
  | @around i f p hf hp _ ih =>
      have hi := h.ne_zero_of_parent hf hp
      cases hb : ks.binding? i name with
      | some b => exact found hi hf hb hu
      | none =>
          have hp' : (f.rename G).parent = some (G.frame p) := congrArg (Option.map G.frame) hp
          rw [hl.lookup_eq hf hb, hp] at hu
          have outer := ih hu
          rw [Frames.assignment, Frames.assignment, layered.chain_eq (h.get?_of_some hi hf),
            hl.chain_eq hf, Frames.assignmentIn, Frames.assignmentIn, h.binding? hi, hb, hp, hp']
          exact outer

/-! #### Edges -/

/-- Where a frame leads, the frame that stands for it leads, too. -/
theorem edge (h : ks.Echoes G fs) {i j : FrameId} (he : ks.Edge i j) :
    fs.Edge (G.frame i) (G.frame j) := by
  obtain ⟨f, hf, hj⟩ := he
  have hi : i ≠ 0 := by
    rintro rfl
    cases h.root.symm.trans hf
    simp [Frame.neighbours, Frame.values, Frame.root] at hj
  exact ⟨_, h.get?_of_some hi hf, Frame.neighbours_rename f ▸ List.mem_map_of_mem hj⟩

/-- A frame of the script's own leads nowhere else. -/
theorem of_edge (h : ks.Echoes G fs) {i j : FrameId} (hi : i ≠ 0) (he : fs.Edge (G.frame i) j) :
    ∃ p, j = G.frame p ∧ ks.Edge i p := by
  obtain ⟨f, hf, hj⟩ := he
  rw [h.get? hi] at hf
  obtain ⟨f, hf', rfl⟩ := Option.map_eq_some_iff.mp hf
  rw [Frame.neighbours_rename] at hj
  obtain ⟨p, hp, rfl⟩ := List.mem_map.mp hj
  exact ⟨p, rfl, f, hf', hp⟩

/-- A frame of the ground leads to frames of the ground. -/
theorem edge_old (hG : G.Sound) (h : ks.Echoes G fs) {i j : FrameId} (hi : i < G.frames.next)
    (he : fs.Edge i j) : j < G.frames.next := by
  obtain ⟨f, hf, hj⟩ := he
  exact hG.inRange i j ⟨f, (h.old i hi).symm.trans hf, hj⟩

theorem inRange (hG : G.Sound) (h : ks.Echoes G fs) (hr : ks.InRange) : fs.InRange := by
  intro i j he
  rw [h.next]
  by_cases hi : i < G.frames.next
  · exact Nat.lt_of_lt_of_le (h.edge_old hG hi he) (Ground.next_le_frame (Nat.ne_of_gt h.next_pos))
  obtain ⟨i, hne, rfl⟩ := Ground.exists_frame (Nat.le_of_not_lt hi)
  obtain ⟨p, rfl, he'⟩ := h.of_edge hne he
  exact Ground.frame_lt hG (hr i p he')

end Frames.Echoes

end Nondet
