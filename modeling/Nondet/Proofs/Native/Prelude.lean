import Nondet.Native.Prelude
import Nondet.Proofs.Context.Fits

/-!
# Native — Prelude laws

The natives of the prelude give plain values: none of them gives a closure, whatever its arguments
are (`Prelude.asClosure?_call`), and none fails in the name of the evaluation (`Prelude.own_call`).
Nor do they see more of a closure than its function: their results are the same for values that show
the same (`Prelude.call_bare`).
-/

namespace Nondet

/-- Whatever the native gives is no closure. -/
def Native.Plain (native : Native) : Prop :=
  ∀ arguments v, native arguments = .ok v → v.asClosure? = none

namespace Prelude

theorem plain_unary {name : String} {f : Value → Except NativeFailure Value}
    (h : ∀ v w, f v = .ok w → w.asClosure? = none) : Native.Plain (unary name f) := by
  intro arguments v hv
  simp only [unary] at hv
  split at hv
  · exact h _ v hv
  · cases hv

theorem plain_test (name : String) (p : Value → Bool) : Native.Plain (test name p) := by
  refine plain_unary fun v w h => ?_
  cases h
  rfl

theorem plain_arithmetic (name : String) (f : Float → Float) :
    Native.Plain (arithmetic name f) := by
  refine plain_unary fun v w h => ?_
  cases hn : number name v <;> rw [hn] at h <;> cases h
  rfl

theorem plain_combine (name : String) (f : Float → Float → Float) :
    Native.Plain (combine name f) := by
  intro arguments v hv
  cases arguments with
  | nil => cases hv
  | cons first others =>
      cases hn : number name first with
      | error _ =>
          simp only [combine, hn] at hv
          cases hv
      | ok x =>
          simp only [combine, hn] at hv
          have folded : (others.foldlM (fun x w => (number name w).map (f x)) x >>= fun y =>
              pure (.number y)) = Except.ok v := hv
          cases hf : others.foldlM (fun x w => (number name w).map (f x)) x with
          | error _ =>
              rw [hf] at folded
              cases folded
          | ok y =>
              rw [hf] at folded
              cases folded
              rfl

theorem plain_natives : ∀ p ∈ natives, Native.Plain p.2 := by
  have hdisplay : Native.Plain display := by
    rintro _ _ ⟨⟩
    rfl
  have hstringify : Native.Plain stringify := plain_unary fun _ _ h => by cases h; rfl
  have herror : Native.Plain error := fun _ _ h => nomatch h
  simp only [natives, List.forall_mem_cons, List.not_mem_nil, false_implies, implies_true, and_true]
  exact ⟨hdisplay, hstringify, plain_test _ _, plain_test _ _, plain_test _ _, plain_test _ _,
    plain_test _ _, herror, plain_arithmetic _ _, plain_arithmetic _ _, plain_arithmetic _ _,
    plain_combine _ _, plain_combine _ _⟩

/-- What is found in a table is in the table. -/
theorem mem_of_lookup {name : String} {native : Native} :
    ∀ {table : List (String × Native)}, table.lookup name = some native →
      ∃ p ∈ table, p.2 = native
  | [], h => nomatch h
  | (n, native') :: table, h => by
      rw [List.lookup_cons] at h
      split at h
      · cases h
        exact ⟨_, List.mem_cons_self, rfl⟩
      · obtain ⟨p, hp, e⟩ := mem_of_lookup h
        exact ⟨p, List.mem_cons_of_mem _ hp, e⟩

/-- **No native of the prelude gives a closure.** -/
theorem asClosure?_call {name : String} {arguments : List Value} {v : Value}
    (h : host.call name arguments = .ok v) : v.asClosure? = none := by
  rw [Host.call] at h
  split at h
  next native hn =>
    obtain ⟨p, hp, rfl⟩ := mem_of_lookup hn
    exact plain_natives p hp arguments v h
  next => cases h

theorem handsOn : host.HandsOn := fun _ _ closure hv =>
  nomatch (asClosure?_call hv : (Value.closure closure).asClosure? = none)

end Prelude

/-! ### Failing -/

/-- The failure is the native's own, and none that the evaluation itself would raise. -/
def NativeFailure.Own : NativeFailure → Prop
  | .refused _ | .foreign _   => True
  | .mistake _ _ | .failure _ => False

/-- However the native fails, the failure is its own. -/
def Native.Quiet (native : Native) : Prop := ∀ arguments e, native arguments = .error e → e.Own

namespace Prelude

theorem quiet_unary {name : String} {f : Value → Except NativeFailure Value}
    (h : ∀ v e, f v = .error e → e.Own) : Native.Quiet (unary name f) := by
  intro arguments e he
  simp only [unary] at he
  split at he
  · exact h _ e he
  · cases he
    trivial

theorem quiet_test (name : String) (p : Value → Bool) : Native.Quiet (test name p) :=
  quiet_unary fun _ _ h => nomatch h

theorem own_number {name : String} {v : Value} {e : NativeFailure} (h : number name v = .error e) :
    e.Own := by
  cases v with
  | number x => cases h
  | _ =>
      cases h
      trivial

theorem own_map {α β : Type} {f : α → β} {x : Except NativeFailure α} {e : NativeFailure}
    (hx : ∀ e, x = .error e → e.Own) (h : x.map f = .error e) : e.Own := by
  cases x with
  | ok a => cases h
  | error e' =>
      cases h
      exact hx e rfl

theorem own_foldlM {α β : Type} {f : β → α → Except NativeFailure β}
    (hf : ∀ b a e, f b a = .error e → e.Own) {e : NativeFailure} :
    ∀ {as : List α} {b : β}, as.foldlM f b = .error e → e.Own
  | [], _, h => nomatch h
  | a :: as, b, h => by
      cases hb : f b a with
      | error e' =>
          have : (a :: as).foldlM f b = .error e' := by rw [List.foldlM_cons, hb]; rfl
          cases this.symm.trans h
          exact hf b a e hb
      | ok b' =>
          have : (a :: as).foldlM f b = as.foldlM f b' := by rw [List.foldlM_cons, hb]; rfl
          exact own_foldlM hf (this.symm.trans h)

theorem quiet_arithmetic (name : String) (f : Float → Float) : Native.Quiet (arithmetic name f) :=
  quiet_unary fun _ _ h => own_map (fun _ => own_number) h

theorem quiet_combine (name : String) (f : Float → Float → Float) :
    Native.Quiet (combine name f) := by
  intro arguments e h
  cases arguments with
  | nil =>
      cases h
      trivial
  | cons first others =>
      cases hn : number name first with
      | error e' =>
          simp only [combine, hn] at h
          cases h
          exact own_number hn
      | ok x =>
          simp only [combine, hn] at h
          -- What is left is the fold, whose result is only wrapped.
          have folded : (others.foldlM (fun x w => (number name w).map (f x)) x).map Value.number =
              .error e := h
          exact own_map (fun _ => own_foldlM fun _ _ _ => own_map fun _ => own_number) folded

theorem quiet_natives : ∀ p ∈ natives, Native.Quiet p.2 := by
  have hdisplay : Native.Quiet display := fun _ _ h => nomatch h
  have hstringify : Native.Quiet stringify := quiet_unary fun _ _ h => nomatch h
  have herror : Native.Quiet error := fun _ _ h => by cases h; trivial
  simp only [natives, List.forall_mem_cons, List.not_mem_nil, false_implies, implies_true, and_true]
  exact ⟨hdisplay, hstringify, quiet_test _ _, quiet_test _ _, quiet_test _ _, quiet_test _ _,
    quiet_test _ _, herror, quiet_arithmetic _ _, quiet_arithmetic _ _, quiet_arithmetic _ _,
    quiet_combine _ _, quiet_combine _ _⟩

/-- **Whatever fails in the prelude fails in its own name**, a native that is not there as well. -/
theorem own_call {name : String} {arguments : List Value} {e : NativeFailure}
    (h : host.call name arguments = .error e) : e.Own := by
  rw [Host.call] at h
  split at h
  next native hn =>
    obtain ⟨p, hp, rfl⟩ := mem_of_lookup hn
    exact quiet_natives p hp arguments e h
  next =>
    cases h
    trivial

end Prelude

/-! ### What is shown of a value -/

/-- A value without what nobody sees of it: which closure it is, and the frame it was made in. -/
def Value.bare : Value → Value
  | .closure c => .closure ⟨0, c.function, 0⟩
  | v          => v

namespace Value

theorem textWith_bare (hidden : Char → Bool) (v : Value) :
    v.bare.textWith hidden = v.textWith hidden := by
  cases v <;> rfl

@[simp] theorem text_bare (v : Value) : v.bare.text = v.text := v.textWith_bare Text.isHidden

@[simp] theorem plainText_bare (v : Value) : v.bare.plainText = v.plainText := by
  cases v <;> rfl

end Value

/-- A complaint about operands names types, which are shown. -/
theorem BinaryOp.complaint?_bare (op : BinaryOp) (left right : Value) :
    op.complaint? left.bare right.bare = op.complaint? left right := by
  simp only [complaint?]
  cases op.demand <;> cases left <;> cases right <;> rfl

/-- The native does not tell values apart that show the same. -/
def Native.Blind (native : Native) : Prop := ∀ vs, native (vs.map Value.bare) = native vs

namespace Prelude

theorem number_bare (name : String) (v : Value) : number name v.bare = number name v := by
  cases v <;> rfl

theorem blind_unary {name : String} {f : Value → Except NativeFailure Value}
    (h : ∀ v, f v.bare = f v) : Native.Blind (unary name f)
  | []          => rfl
  | [v]         => h v
  | _ :: _ :: _ => by simp [unary]

theorem blind_test {name : String} {p : Value → Bool} (h : ∀ v, p v.bare = p v) :
    Native.Blind (test name p) :=
  blind_unary fun v => by rw [h]

theorem blind_arithmetic (name : String) (f : Float → Float) :
    Native.Blind (arithmetic name f) :=
  blind_unary fun v => by rw [number_bare]

theorem blind_combine (name : String) (f : Float → Float → Float) :
    Native.Blind (combine name f)
  | []      => rfl
  | v :: vs => by simp only [combine, List.map_cons, number_bare, List.foldlM_map]

theorem blind_natives : ∀ p ∈ natives, Native.Blind p.2 := by
  have hdisplay : Native.Blind display := fun vs => by
    simp [display, Function.comp_def]
  have herror : Native.Blind error := fun vs => by
    cases vs <;> simp [error]
  have hstringify : Native.Blind stringify := blind_unary fun v => by rw [Value.textWith_bare]
  simp only [natives, List.forall_mem_cons, List.not_mem_nil, false_implies, implies_true, and_true]
  refine ⟨hdisplay, hstringify, blind_test ?_, blind_test ?_, blind_test ?_, blind_test ?_,
    blind_test ?_, herror, blind_arithmetic _ _, blind_arithmetic _ _, blind_arithmetic _ _,
    blind_combine _ _, blind_combine _ _⟩
  all_goals
    intro v
    cases v <;> rfl

/-- **No native of the prelude tells values apart that show the same.** -/
theorem call_bare (name : String) (vs : List Value) :
    host.call name (vs.map Value.bare) = host.call name vs := by
  simp only [Host.call]
  split
  next native hn =>
    obtain ⟨p, hp, rfl⟩ := mem_of_lookup hn
    exact blind_natives p hp vs
  next => rfl

end Prelude

end Nondet
