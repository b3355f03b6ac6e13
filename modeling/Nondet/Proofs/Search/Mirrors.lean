import Nondet.Proofs.Context.Action
import Nondet.Proofs.Search.Evolves

/-!
# Search — Mirrors

A single action in a context, and the same step of a search in its store: they have linked results
or fail with the same failure (`Action.Mirrors`).  The action changes the innermost frame and
nothing else; the search changes the frame that is linked to it.  One rule for each action, and one
for actions that follow each other.
-/

namespace Nondet

variable {α β γ δ : Type}

/-! ### What passes -/

/-- From `c` to `c'` frames only evolved, those of the stack of `k` and those from `b` on, and `c'`
is like `k` but for its frames. -/
structure Context.Passes (k : Context) (b : Nat) (c c' : Context) : Prop where
  alike : k.Alike c'
  evolves : Frames.Evolves k.stack b c.frames c'.frames

namespace Context.Passes

variable {k c c₁ c₂ : Context} {b b' : Nat}

theorem refl (b : Nat) (h : k.Alike c) : k.Passes b c c := ⟨h, .refl _ _ _⟩

theorem trans (h : k.Passes b c c₁) (h' : k.Passes b c₁ c₂) : k.Passes b c c₂ :=
  ⟨h'.alike, h.evolves.trans h'.evolves⟩

theorem below (h : k.Passes b c c₁) (hb : b' ≤ b) : k.Passes b' c c₁ :=
  ⟨h.alike, h.evolves.below hb⟩

theorem next (h : k.Passes b c c₁) : c.frames.next ≤ c₁.frames.next := h.evolves.next

/-- What passed since a moment, and then since a later one. -/
theorem since (h : k.Passes c.frames.next c c₁) (h' : k.Passes c₁.frames.next c₁ c₂) :
    k.Passes c.frames.next c c₂ := h.trans (h'.below h.next)

end Context.Passes

/-! ### Mirrored actions -/

/-- The result of an action in the context `c`, and what the search finds in its place. -/
inductive Mirrored (rel : Link → α → β → Prop) (k : Context) (ρ : Link) (c : Context) :
    Found α → Except Failure β × Context → Prop
  | ok {a store b c' ρ'} (hp : k.Passes c.frames.next c c') (hρ : ρ ≤ ρ')
      (hH : ρ'.Holds store c'.frames) (h : rel ρ' a b) :
      Mirrored rel k ρ c (.one a store) (.ok b, c')
  | error {f c'} : Mirrored rel k ρ c (.stop (.failed f)) (.error f, c')

/-- The action does in the context what the search does. -/
def Action.Mirrors (rel : Link → α → β → Prop) (k : Context) (ρ : Link) (c : Context)
    (action : Action β) (F : Found α) : Prop := Mirrored rel k ρ c F (action.on c)

/-- The same value, whatever the link. -/
def Link.Same (_ : Link) (a b : α) : Prop := a = b

namespace Action.Mirrors

variable {rel : Link → α → β → Prop} {rel' : Link → γ → δ → Prop} {k c : Context} {ρ : Link}
variable {store : Frames}

theorem pure (h : k.Alike c) (hH : ρ.Holds store c.frames) {a : α} {b : β} (hab : rel ρ a b) :
    Mirrors rel k ρ c (pure b : Action β) (.one a store) :=
  .ok (.refl _ h) ρ.le_refl hH hab

theorem raise (failure : Failure) :
    Mirrors rel k ρ c (raise failure : Action β) (.stop (.failed failure)) := .error

theorem bind {a : Action β} {F : Found α} {f : β → Action δ} {g : α → Search γ}
    (h : Mirrors rel k ρ c a F)
    (hf : ∀ x y store c' ρ', ρ ≤ ρ' → k.Passes c.frames.next c c' → ρ'.Holds store c'.frames →
      rel ρ' x y → Mirrors rel' k ρ' c' (f y) (g x store)) :
    Mirrors rel' k ρ c (a >>= f) (F.bind g) := by
  rw [Mirrors] at h ⊢
  rw [on_bind]
  generalize a.on c = result at h ⊢
  cases h with
  | error => exact .error
  | @ok x store y c' ρ' hp hρ hH hxy =>
      rw [Found.one_bind]
      show Mirrored rel' k ρ c (g x store) ((f y).on c')
      have h := hf x y store c' ρ' hρ hp hH hxy
      rw [Mirrors] at h
      generalize (f y).on c' = result, g x store = G at h ⊢
      cases h with
      | error => exact .error
      | ok hp' hρ' hH' hxy' => exact .ok (hp.since hp') (Link.le_trans hρ hρ') hH' hxy'

theorem check (h : k.Alike c) (hH : ρ.Holds store c.frames) (span : Span) {x : Except Mistake α}
    {rel : Link → α → α → Prop} (hx : ∀ a, x = .ok a → rel ρ a a) :
    Mirrors rel k ρ c (check span x) (Search.check span x store) := by
  cases x with
  | ok a => exact pure h hH (hx a rfl)
  | error mistake => exact raise _

theorem operand (h : k.Alike c) (hH : ρ.Holds store c.frames) (span : Span) (operation : String)
    {o p : Outcome} (ho : o.Linked ρ p) :
    Mirrors Value.Linked k ρ c (operand span operation p)
      (Search.operand span operation o store) := by
  cases ho with
  | value hv => exact pure h hH hv
  | returned hv => exact pure h hH hv
  | cut => exact raise _

theorem lookup (h : k.Alike c) (hH : ρ.Holds store c.frames) {e : FrameId}
    (he : ρ.frame e k.current) (name : String) (span : Span) :
    Mirrors Value.Linked k ρ c (lookup name span) (Search.lookup name span e store) := by
  rw [Mirrors]
  rw [on_lookup, h.current]
  have hl := hH.lookup he name
  rw [Search.lookup]
  generalize store.lookup e name = x, c.frames.lookup k.current name = y at hl
  cases hl with
  | ok hv => exact pure h hH hv
  | error _ => exact .error

/-- A change of the innermost frame. -/
theorem change (h : k.Alike c) (hs : k.current ∈ k.stack) (name : String) (span : Span)
    {f : Frames → Except BindFailure Frames} {result : Except BindFailure Frames.Change}
    (hframe : ∀ ch, result = .ok ch → ch.frame = k.current)
    (hf : Except.Linked ρ.Holds (f store) (result.map c.frames.apply)) :
    Mirrors Link.Same k ρ c (change name span result) (Search.change name span f store) := by
  rw [Mirrors, Search.change]
  rw [on_change]
  cases result with
  | error failure =>
      generalize f store = x at hf
      cases hf
      exact .error
  | ok ch =>
      generalize f store = x at hf
      cases hf with
      | ok hH =>
          -- Only the innermost frame changes, and it is on the stack.
          have there : ch.frame ∈ k.stack := hframe ch rfl ▸ hs
          exact .ok ⟨h.trans (.frames c _), .apply ch there⟩ ρ.le_refl hH rfl

theorem declare (h : k.Alike c) (hs : k.current ∈ k.stack) (hH : ρ.Holds store c.frames)
    {e : FrameId} (he : ρ.frame e k.current) (name : String) (span : Span) :
    Mirrors Link.Same k ρ c (declare name span)
      (Search.change name span (fun store => store.declare e name) store) := by
  rw [Mirrors]
  rw [on_declare, h.current]
  refine change h hs name span (fun ch hch => ?_) (hH.declare he name)
  obtain ⟨-, rfl⟩ := Frames.declaration_eq_ok hch
  rfl

theorem define (h : k.Alike c) (hs : k.current ∈ k.stack) (hH : ρ.Holds store c.frames)
    {e : FrameId} (he : ρ.frame e k.current) (name : String) {v w : Value} (hv : v.Linked ρ w)
    (constant : Bool) (span : Span) :
    Mirrors Link.Same k ρ c (define name w constant span)
      (Search.define name v constant span e store) := by
  rw [Mirrors, Search.define]
  rw [on_define, h.current]
  refine change h hs name span (fun ch hch => ?_) (hH.define he name hv constant)
  obtain ⟨-, rfl⟩ := Frames.definition_eq_ok hch
  rfl

theorem hoist (hs : k.current ∈ k.stack) {e : FrameId} :
    ∀ (ns : List Node) {c : Context} {ρ : Link} {store : Frames}, k.Alike c →
      ρ.Holds store c.frames → ρ.frame e k.current →
        Mirrors Link.Same k ρ c (hoist ns) (Search.hoist e ns store)
  | [], _, _, _, h, hH, _ => pure h hH rfl
  | n :: ns, c, ρ, store, h, hH, he => by
      rw [Mirrors]
      rw [on_hoist_cons]
      cases hn : n.declaredName? with
      | none =>
          have skip : Search.hoist e (n :: ns) store = Search.hoist e ns store := by
            simp only [Search.hoist, hn]
          rw [skip]
          exact hoist hs ns h hH he
      | some name =>
          have step : Search.hoist e (n :: ns) store =
              (Search.change name n.span (fun store => store.declare e name) store).bind
                fun _ => Search.hoist e ns := by
            simp only [Search.hoist, hn]
            rfl
          rw [step]
          exact bind (declare h hs hH he name n.span) fun _ _ _ _ _ hρ hp hH' _ =>
            hoist hs ns hp.alike hH' (hρ.1 _ _ he)

theorem makeClosure (h : k.Alike c) (hH : ρ.Holds store c.frames) {e : FrameId}
    (he : ρ.frame e k.current) {function : Function} (hf : function.Every Node.Settled) :
    Mirrors Closure.Linked k ρ c (makeClosure function) (Search.makeClosure function e store) := by
  have hle := ρ.le_withClosure store.closures c.frames.closures
  have hH' := hH.makeClosure function e c.current
  have hp : k.Passes c.frames.next c
      { c with frames := (c.frames.makeClosure function c.current).2 } :=
    ⟨h.trans (.frames c _), .makeClosure function c.current⟩
  exact .ok hp hle hH' ⟨rfl, hf, .inr ⟨rfl, rfl⟩, h.current ▸ he⟩

/-- Natives of the prelude do not tell linked values apart. -/
theorem callNative (h : k.Alike c) (hhost : k.host = Prelude.host) (hH : ρ.Holds store c.frames)
    (span : Span) (name : String) {vs ws : List Value} (hv : List.Forall₂ (Value.Linked ρ) vs ws) :
    Mirrors Value.Linked k ρ c (callNative span name ws)
      (Search.native Prelude.host span name vs store) := by
  -- A native of the prelude looks at what its arguments show.
  have same : vs.map Value.bare = ws.map Value.bare := by
    induction hv with
    | nil => rfl
    | cons hx _ ih => rw [List.map_cons, List.map_cons, hx.bare, ih]
  rw [Mirrors, Search.native]
  rw [on_callNative, h.host, hhost, ← Prelude.call_bare name vs, same, Prelude.call_bare]
  cases hr : Prelude.host.call name ws with
  | ok v => exact pure h hH (.plain (Prelude.asClosure?_call hr))
  | error failure => cases failure <;> exact .error

end Action.Mirrors

end Nondet
