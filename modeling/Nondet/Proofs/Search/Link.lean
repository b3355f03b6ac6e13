import Mathlib.Data.List.Forall2
import Nondet.Proofs.Frame.Store
import Nondet.Proofs.Grammar.Written
import Nondet.Proofs.Native.Prelude
import Nondet.Proofs.Operation
import Nondet.Proofs.Search

/-!
# Search — Link

The store of a search and the frames of a context hold the same under other numbers: a context keeps
the frames of alternatives that were given up, a search starts over from its store.  A `Link` says
which frame stands for which and which closure for which.  It holds of a store and a context's
frames (`Link.Holds`) when linked frames have the same names bound to linked values and lie in
linked frames, and when it takes no two numbers for one.  Only the second makes closures equal in
the store when they are in the context.

Operations on linked frames have linked results and are refused for the same reason.  A link only
grows, and what it relates stays related.
-/

namespace Nondet

/-- Whether the node assigns to a name. -/
def Node.isAssignment : Node → Bool
  | .assignment _ _ _ => true
  | _                 => false

/-- No assignment and no script. -/
def Node.Settled (n : Node) : Prop := n.isAssignment = false ∧ n.isProgram = false

/-- Which frames and which closures of a context stand for those of a store. -/
structure Link where
  frame : FrameId → FrameId → Prop
  closure : Nat → Nat → Prop

/-- Whatever the first links, the second links. -/
instance : LE Link where
  le ρ ρ' := (∀ i j, ρ.frame i j → ρ'.frame i j) ∧ ∀ i j, ρ.closure i j → ρ'.closure i j

namespace Link

variable {ρ ρ₁ ρ₂ : Link}

theorem le_refl (ρ : Link) : ρ ≤ ρ := ⟨fun _ _ h => h, fun _ _ h => h⟩

theorem le_trans (h : ρ ≤ ρ₁) (h' : ρ₁ ≤ ρ₂) : ρ ≤ ρ₂ :=
  ⟨fun i j hi => h'.1 i j (h.1 i j hi), fun i j hi => h'.2 i j (h.2 i j hi)⟩

/-- One more frame is linked. -/
def withFrame (ρ : Link) (i j : FrameId) : Link :=
  { ρ with frame := fun i' j' => ρ.frame i' j' ∨ (i' = i ∧ j' = j) }

/-- One more closure is linked. -/
def withClosure (ρ : Link) (i j : Nat) : Link :=
  { ρ with closure := fun i' j' => ρ.closure i' j' ∨ (i' = i ∧ j' = j) }

theorem le_withFrame (ρ : Link) (i j : FrameId) : ρ ≤ ρ.withFrame i j :=
  ⟨fun _ _ h => .inl h, fun _ _ h => h⟩

theorem le_withClosure (ρ : Link) (i j : Nat) : ρ ≤ ρ.withClosure i j :=
  ⟨fun _ _ h => h, fun _ _ h => .inl h⟩

end Link

/-! ### Linked values -/

section

variable (ρ : Link)

/-- Closures of one function that are linked and were made in linked frames. -/
structure Closure.Linked (c d : Closure) : Prop where
  function : d.function = c.function
  settled : c.function.Every Node.Settled
  id : ρ.closure c.id d.id
  frame : ρ.frame c.frame d.frame

inductive Value.Linked : Value → Value → Prop
  | plain {v} (h : v.asClosure? = none) : Value.Linked v v
  | closure {c d} (h : c.Linked ρ d) : Value.Linked (.closure c) (.closure d)

inductive Outcome.Linked : Outcome → Outcome → Prop
  | value {v w} (h : v.Linked ρ w) : Outcome.Linked (.value v) (.value w)
  | returned {v w} (h : v.Linked ρ w) : Outcome.Linked (.returned v) (.returned w)
  | cut : Outcome.Linked .cut .cut

inductive Binding.Linked : Binding → Binding → Prop
  | unassigned : Binding.Linked .unassigned .unassigned
  | assigned {v w} (m : Bool) (h : v.Linked ρ w) : Binding.Linked (.assigned v m) (.assigned w m)

/-- The same names in the same order. -/
def Bindings.Linked : Bindings → Bindings → Prop :=
  List.Forall₂ fun p q => p.1 = q.1 ∧ p.2.Linked ρ q.2

/-- Frames under the numbers `i` and `j` that hold linked values and lie in older linked frames. -/
structure Frame.Linked (i j : FrameId) (f g : Frame) : Prop where
  bindings : f.bindings.Linked ρ g.bindings
  parent : Option.Rel (fun p q => ρ.frame p q ∧ p < i ∧ q < j) f.parent g.parent

/-- The store and the frames hold the same, as far as they are linked. -/
structure Link.Holds (store frames : Frames) : Prop where
  frame : ∀ {i j}, ρ.frame i j →
    ∃ f g, store.get? i = some f ∧ frames.get? j = some g ∧ f.Linked ρ i j g
  frame_iff : ∀ {i j i' j'}, ρ.frame i j → ρ.frame i' j' → (i = i' ↔ j = j')
  closure : ∀ {i j}, ρ.closure i j → i < store.closures ∧ j < frames.closures
  closure_iff : ∀ {i j i' j'}, ρ.closure i j → ρ.closure i' j' → (i = i' ↔ j = j')

end

variable {ρ ρ' : Link}

theorem Closure.Linked.mono (hle : ρ ≤ ρ') {c d : Closure} (h : c.Linked ρ d) : c.Linked ρ' d :=
  ⟨h.function, h.settled, hle.2 _ _ h.id, hle.1 _ _ h.frame⟩

theorem Value.Linked.mono (hle : ρ ≤ ρ') {v w : Value} (h : v.Linked ρ w) : v.Linked ρ' w := by
  cases h with
  | plain h => exact .plain h
  | closure h => exact .closure (h.mono hle)

theorem Binding.Linked.mono (hle : ρ ≤ ρ') {b b' : Binding} (h : b.Linked ρ b') :
    b.Linked ρ' b' := by
  cases h with
  | unassigned => exact .unassigned
  | assigned m h => exact .assigned m (h.mono hle)

theorem Bindings.Linked.mono (hle : ρ ≤ ρ') {bs bs' : Bindings} (h : bs.Linked ρ bs') :
    bs.Linked ρ' bs' :=
  List.Forall₂.imp (fun _ _ h => ⟨h.1, h.2.mono hle⟩) h

theorem Frame.Linked.mono (hle : ρ ≤ ρ') {i j : FrameId} {f g : Frame} (h : f.Linked ρ i j g) :
    f.Linked ρ' i j g := by
  have parents : ∀ {p q : Option FrameId}, Option.Rel (fun p q => ρ.frame p q ∧ p < i ∧ q < j) p q →
      Option.Rel (fun p q => ρ'.frame p q ∧ p < i ∧ q < j) p q
    | _, _, .some h => .some ⟨hle.1 _ _ h.1, h.2⟩
    | _, _, .none   => .none
  exact ⟨h.bindings.mono hle, parents h.parent⟩

/-! ### What linked values show -/

namespace Value.Linked

variable {v w v' w' : Value}

/-- Linked values show the same. -/
theorem bare (h : v.Linked ρ w) : v.bare = w.bare := by
  cases h with
  | plain _ => rfl
  | closure h => simp [Value.bare, h.function]

theorem undefined : Value.Linked ρ .undefined .undefined := .plain rfl

/-- Closures are equal when those that stand for them are. -/
theorem equal {store frames : Frames} (hH : ρ.Holds store frames) (h : v.Linked ρ w)
    (h' : v'.Linked ρ w') : v.equal v' = w.equal w' := by
  cases h with
  | plain hv =>
      cases h' with
      | plain _ => rfl
      | closure _ => cases v <;> first | rfl | cases hv
  | closure hc =>
      cases h' with
      | plain hv => cases v' <;> first | rfl | cases hv
      | closure hd =>
          -- Equality asks for the number of a closure and for nothing else.
          have same := hH.closure_iff hc.id hd.id
          simp only [Value.equal, Bool.beq_eq_decide_eq, same]

/-- A branch decides on linked values alike. -/
theorem decide (h : v.Linked ρ w) (test : Test) : test.decide v = test.decide w := by
  cases h with
  | plain _ => rfl
  | closure _ => rfl

theorem unary (h : v.Linked ρ w) (op : UnaryOp) : op.apply v = op.apply w := by
  cases h with
  | plain _ => rfl
  | closure _ => cases op <;> rfl

/-- Operators complain about linked operands alike. -/
theorem complaint (h : v.Linked ρ w) (h' : v'.Linked ρ w') (op : BinaryOp) :
    op.complaint? v v' = op.complaint? w w' := by
  rw [← op.complaint?_bare v v', h.bare, h'.bare, op.complaint?_bare]

/-- Operators other than equality give nothing for a closure, and equality is kept. -/
theorem compute {store frames : Frames} (hH : ρ.Holds store frames) (h : v.Linked ρ w)
    (h' : v'.Linked ρ w') (op : BinaryOp) : op.compute v v' = op.compute w w' := by
  have same : v.equal v' = w.equal w' := equal hH h h'
  cases op with
  | strictEq => exact congrArg Value.bool same
  | strictNe => exact congrArg (fun b => Value.bool !b) same
  | _ =>
      cases h with
      | plain _ =>
          cases h' with
          | plain _ => rfl
          | closure _ => cases v <;> rfl
      | closure _ => rfl

theorem binary {store frames : Frames} (hH : ρ.Holds store frames) (h : v.Linked ρ w)
    (h' : v'.Linked ρ w') (op : BinaryOp) : op.apply v v' = op.apply w w' := by
  simp only [BinaryOp.apply]
  rw [complaint h h', compute hH h h']

end Value.Linked

/-! ### Linked tables -/

namespace Bindings.Linked

variable {bs bs' : Bindings}

theorem get? (h : bs.Linked ρ bs') (name : String) :
    Option.Rel (Binding.Linked ρ) (bs.get? name) (bs'.get? name) := by
  induction h with
  | nil => exact .none
  | @cons p q bs bs' hp _ ih =>
      obtain ⟨n, b⟩ := p
      obtain ⟨m, b'⟩ := q
      obtain ⟨rfl, hb⟩ := hp
      rw [Bindings.get?_cons, Bindings.get?_cons]
      by_cases hn : name = n
      · rw [if_pos hn, if_pos hn]
        exact .some hb
      · rw [if_neg hn, if_neg hn]
        exact ih

theorem set (h : bs.Linked ρ bs') (name : String) {b b' : Binding} (hb : b.Linked ρ b') :
    (Bindings.set name b bs).Linked ρ (Bindings.set name b' bs') := by
  induction h with
  | nil => exact .cons ⟨rfl, hb⟩ .nil
  | @cons p q bs bs' hp hbs ih =>
      obtain ⟨n, a⟩ := p
      obtain ⟨m, a'⟩ := q
      obtain ⟨rfl, ha⟩ := hp
      simp only [Bindings.set]
      by_cases hn : n = name
      · rw [if_pos hn, if_pos hn]
        exact .cons ⟨rfl, hb⟩ hbs
      · rw [if_neg hn, if_neg hn]
        exact .cons ⟨rfl, ha⟩ ih

theorem ofArguments (params : List String) {vs ws : List Value}
    (h : List.Forall₂ (Value.Linked ρ) vs ws) :
    (Bindings.ofArguments params vs).Linked ρ (Bindings.ofArguments params ws) := by
  suffices hs : ∀ (params : List String) (vs ws : List Value),
      List.Forall₂ (Value.Linked ρ) vs ws → ∀ bs bs' : Bindings, bs.Linked ρ bs' →
        ((params.zip vs).foldl (fun bs p => Bindings.set p.1 (.assigned p.2 true) bs) bs).Linked ρ
          ((params.zip ws).foldl (fun bs p => Bindings.set p.1 (.assigned p.2 true) bs) bs') from
    hs params vs ws h [] [] .nil
  intro params
  induction params with
  | nil => exact fun _ _ _ _ _ hb => hb
  | cons param params ih =>
      intro vs ws h bs bs' hb
      cases h with
      | nil => exact hb
      | cons hv h => exact ih _ _ h _ _ (hb.set param (.assigned true hv))

end Bindings.Linked

/-! ### Linked frames -/

/-- Both succeed with linked results, or both are refused for the same reason. -/
inductive Except.Linked {ε α β : Type} (rel : α → β → Prop) : Except ε α → Except ε β → Prop
  | ok {a b} (h : rel a b) : Except.Linked rel (.ok a) (.ok b)
  | error (e : ε) : Except.Linked rel (.error e) (.error e)

namespace Link.Holds

variable {store frames : Frames} {i j : FrameId}

theorem binding? (h : ρ.Holds store frames) (hi : ρ.frame i j) (name : String) :
    Option.Rel (Binding.Linked ρ) (store.binding? i name) (frames.binding? j name) := by
  obtain ⟨f, g, hf, hg, hl⟩ := h.frame hi
  rw [Frames.binding?, Frames.binding?, Frames.bindings_of_get? hf, Frames.bindings_of_get? hg]
  exact hl.bindings.get? name

/-- The frames around linked frames are linked.  Each lies in older ones, so the fuel suffices. -/
theorem chainFrom (h : ρ.Holds store frames) : ∀ {n m : Nat} {i j : FrameId}, ρ.frame i j → i < n →
    j < m → List.Forall₂ ρ.frame (store.chainFrom n i) (frames.chainFrom m j)
  | n + 1, m + 1, i, j, hi, hn, hm => by
      obtain ⟨f, g, hf, hg, hl⟩ := h.frame hi
      simp only [Frames.chainFrom, hf, hg]
      refine .cons hi ?_
      have parents := hl.parent
      generalize f.parent = p at parents ⊢
      generalize g.parent = q at parents ⊢
      cases parents with
      | none => exact .nil
      | some related =>
          obtain ⟨hp, hpi, hqj⟩ := related
          exact h.chainFrom hp (Nat.lt_of_lt_of_le hpi (Nat.le_of_lt_succ hn))
            (Nat.lt_of_lt_of_le hqj (Nat.le_of_lt_succ hm))

theorem chain (h : ρ.Holds store frames) (hi : ρ.frame i j) :
    List.Forall₂ ρ.frame (store.chain i) (frames.chain j) :=
  h.chainFrom hi (Nat.lt_succ_self i) (Nat.lt_succ_self j)

theorem lookup (h : ρ.Holds store frames) (hi : ρ.frame i j) (name : String) :
    Except.Linked (Value.Linked ρ) (store.lookup i name) (frames.lookup j name) := by
  simp only [Frames.lookup]
  have hc := h.chain hi
  generalize store.chain i = is, frames.chain j = js at hc
  induction hc with
  | nil => exact .error _
  | @cons i j is js hi _ ih =>
      have hb := h.binding? hi name
      simp only [Frames.lookupIn]
      generalize store.binding? i name = b, frames.binding? j name = b' at hb
      cases hb with
      | none => exact ih
      | some hb =>
          cases hb with
          | unassigned => exact .error _
          | assigned m hv => exact .ok hv

/-- A name bound to linked values in linked frames.  No other frame is linked to either. -/
theorem set (h : ρ.Holds store frames) (hi : ρ.frame i j) (name : String) {b b' : Binding}
    (hb : b.Linked ρ b') : ρ.Holds (store.set i name b) (frames.set j name b') := by
  refine ⟨fun {i' j'} hi' => ?_, h.frame_iff, h.closure, h.closure_iff⟩
  obtain ⟨f, g, hf, hg, hl⟩ := h.frame hi'
  rw [Frames.get?_set, Frames.get?_set, hf, hg]
  -- The frame that changes is linked to one frame only, so the others stay as they are together.
  have same := h.frame_iff hi hi'
  by_cases e : i = i'
  · rw [if_pos e, if_pos (same.mp e)]
    exact ⟨_, _, rfl, rfl, hl.bindings.set name hb, hl.parent⟩
  · rw [if_neg e, if_neg fun e' => e (same.mpr e')]
    exact ⟨f, g, rfl, rfl, hl⟩

theorem declare (h : ρ.Holds store frames) (hi : ρ.frame i j) (name : String) :
    Except.Linked ρ.Holds (store.declare i name) ((frames.declaration j name).map frames.apply) := by
  have hb := h.binding? hi name
  simp only [Frames.declare, Frames.declaration]
  generalize store.binding? i name = b, frames.binding? j name = b' at hb
  cases hb with
  | none => exact .ok (h.set hi name .unassigned)
  | some hb => cases hb <;> exact .error _

theorem define (h : ρ.Holds store frames) (hi : ρ.frame i j) (name : String) {v w : Value}
    (hv : v.Linked ρ w) (constant : Bool) :
    Except.Linked ρ.Holds (store.define i name v constant)
      ((frames.definition j name w constant).map frames.apply) := by
  have hb := h.binding? hi name
  simp only [Frames.define, Frames.definition]
  generalize store.binding? i name = b, frames.binding? j name = b' at hb
  cases hb with
  | none => exact .error _
  | some hb =>
      cases hb with
      | unassigned => exact .ok (h.set hi name (.assigned _ hv))
      | assigned m _ => exact .error _

/-- New frames that hold linked values are linked. -/
theorem push (h : ρ.Holds store frames) {f g : Frame} (hb : f.bindings.Linked ρ g.bindings)
    (hp : Option.Rel ρ.frame f.parent g.parent) :
    (ρ.withFrame store.next frames.next).Holds (store.push f) (frames.push g) := by
  have old {i j : FrameId} (hi : ρ.frame i j) : i < store.next ∧ j < frames.next := by
    obtain ⟨f, g, hf, hg, -⟩ := h.frame hi
    exact ⟨Frames.lt_next hf, Frames.lt_next hg⟩
  have hle := ρ.le_withFrame store.next frames.next
  have new : f.Linked (ρ.withFrame store.next frames.next) store.next frames.next g := by
    have parents : ∀ {p q : Option FrameId}, Option.Rel ρ.frame p q →
        Option.Rel (fun p q => (ρ.withFrame store.next frames.next).frame p q ∧
          p < store.next ∧ q < frames.next) p q
      | _, _, .some h => .some ⟨.inl h, old h⟩
      | _, _, .none   => .none
    exact ⟨hb.mono hle, parents hp⟩
  refine ⟨fun {i j} hi => ?_, fun {i j i' j'} hi hi' => ?_, h.closure, h.closure_iff⟩
  · rcases hi with hi | ⟨rfl, rfl⟩
    · obtain ⟨f', g', hf, hg, hl⟩ := h.frame hi
      exact ⟨f', g', Frames.get?_push_of_some hf f, Frames.get?_push_of_some hg g, hl.mono hle⟩
    · exact ⟨f, g, by rw [Frames.get?_push, if_pos rfl], by rw [Frames.get?_push, if_pos rfl], new⟩
  -- New numbers are different from all that were linked before.
  · rcases hi with hi | ⟨rfl, rfl⟩ <;> rcases hi' with hi' | ⟨rfl, rfl⟩
    · exact h.frame_iff hi hi'
    · exact iff_of_false (Nat.ne_of_lt (old hi).1) (Nat.ne_of_lt (old hi).2)
    · exact iff_of_false (Nat.ne_of_gt (old hi').1) (Nat.ne_of_gt (old hi').2)
    · exact ⟨fun _ => rfl, fun _ => rfl⟩

/-- The next closures are linked. -/
theorem makeClosure (h : ρ.Holds store frames) (function : Function) (e e' : FrameId) :
    (ρ.withClosure store.closures frames.closures).Holds (store.makeClosure function e).2
      (frames.makeClosure function e').2 := by
  have hle := ρ.le_withClosure store.closures frames.closures
  refine ⟨fun {i j} hi => ?_, h.frame_iff, fun {i j} hi => ?_, fun {i j i' j'} hi hi' => ?_⟩
  · obtain ⟨f, g, hf, hg, hl⟩ := h.frame hi
    exact ⟨f, g, hf, hg, hl.mono hle⟩
  · show i < store.closures + 1 ∧ j < frames.closures + 1
    rcases hi with hi | ⟨rfl, rfl⟩
    · exact ⟨Nat.lt_succ_of_lt (h.closure hi).1, Nat.lt_succ_of_lt (h.closure hi).2⟩
    · exact ⟨Nat.lt_succ_self _, Nat.lt_succ_self _⟩
  · rcases hi with hi | ⟨rfl, rfl⟩ <;> rcases hi' with hi' | ⟨rfl, rfl⟩
    · exact h.closure_iff hi hi'
    · exact iff_of_false (Nat.ne_of_lt (h.closure hi).1) (Nat.ne_of_lt (h.closure hi).2)
    · exact iff_of_false (Nat.ne_of_gt (h.closure hi').1) (Nat.ne_of_gt (h.closure hi').2)
    · exact ⟨fun _ => rfl, fun _ => rfl⟩

end Link.Holds

end Nondet
