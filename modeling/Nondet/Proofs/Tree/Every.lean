import Mathlib.Logic.Relation
import Nondet.Tree.Node

/-!
# Tree — Every

What holds of a node and of all nodes in it.  `n.Every p` is how an assumption on scripts is stated,
that they hold no node of some kind; it passes to every part (`Node.Every.child`), and it is shown
of a node from its children (`Node.every_iff`).
-/

namespace Nondet

variable {p q : Node → Prop}

namespace Node

theorem sizeOf_lt_of_child {n m : Node} (h : m ∈ n.children) : sizeOf m < sizeOf n := by
  cases n with
  | call _ callee arguments =>
      rcases List.mem_cons.mp h with rfl | h
      · simp +arith
      · have := List.sizeOf_lt_of_mem h
        simp only [Node.call.sizeOf_spec]
        omega
  | block _ statements | program _ statements =>
      have : sizeOf m < sizeOf statements := List.sizeOf_lt_of_mem h
      simp +arith
      omega
  | ifStatement _ _ _ alternate | returnStatement _ alternate =>
      cases alternate <;>
        simp only [children, Option.toList_none, Option.toList_some, List.mem_cons, List.not_mem_nil,
          or_false] at h
      all_goals
        rcases h with rfl | rfl | rfl
        all_goals simp +arith
  | literal | identifier => cases h
  | _ =>
      simp only [children, List.mem_cons, List.not_mem_nil, or_false] at h
      rcases h with rfl | rfl | rfl
      all_goals simp +arith

/-- What holds of a node when it holds of its children holds of every node. -/
theorem of_children {P : Node → Prop} (h : ∀ n, (∀ m ∈ n.children, P m) → P n) (n : Node) : P n :=
  h n fun m hm =>
    have := sizeOf_lt_of_child hm
    of_children h m
termination_by n

/-- The node itself, a child of it, a child of a child and so on. -/
def Part : Node → Node → Prop := Relation.ReflTransGen fun n m => m ∈ n.children

/-- The node and all its parts satisfy `p`. -/
def Every (p : Node → Prop) (n : Node) : Prop := ∀ m, n.Part m → p m

namespace Every

theorem self {n : Node} (h : n.Every p) : p n := h n .refl

theorem child {n m : Node} (h : n.Every p) (hm : m ∈ n.children) : m.Every p :=
  fun m' hp => h m' (.head hm hp)

end Every

theorem every_iff {n : Node} : n.Every p ↔ p n ∧ ∀ m ∈ n.children, m.Every p := by
  refine ⟨fun h => ⟨h.self, fun m hm => h.child hm⟩, fun ⟨hs, hc⟩ m hm => ?_⟩
  rcases Relation.ReflTransGen.cases_head hm with rfl | ⟨m', hm', hp⟩
  · exact hs
  · exact hc m' hm' m hp

/-- Checks `p` of the node and of its parts down to some depth. -/
def everyDown (p : Node → Bool) : Nat → Node → Bool
  | 0, _         => false
  | depth + 1, n => p n && n.children.all (everyDown p depth)

/-- A check that succeeds has come to all parts. -/
theorem every_of_everyDown {p : Node → Bool} : ∀ {depth : Nat} {n : Node},
    n.everyDown p depth → n.Every fun m => p m
  | depth + 1, n, h => by
      obtain ⟨hn, hc⟩ := Bool.and_eq_true_iff.mp h
      exact every_iff.mpr ⟨hn, fun m hm => every_of_everyDown (List.all_eq_true.mp hc m hm)⟩

end Node

/-- The body of a function satisfies `p` in every part. -/
def Function.Every (p : Node → Prop) (f : Function) : Prop := f.body.Every p

/-- What a call of a function runs satisfies `p` in every part, if the block that stands for an
expression body does. -/
theorem Function.Every.statements {f : Function} (h : f.Every p)
    (hr : ∀ span n, p (.returnStatement span (some n))) : ∀ n ∈ f.statements, n.Every p := by
  intro n hn
  rw [Function.statements, Function.block] at hn
  cases hf : f.form with
  | block =>
      simp only [hf] at hn
      cases hb : f.body with
      | block span ss =>
          simp only [hb] at hn
          exact (hb ▸ h : (Node.block span ss).Every p).child hn
      | _ =>
          simp only [hb, List.mem_singleton] at hn
          exact hn ▸ hb ▸ h
  | expression =>
      simp only [hf, List.mem_singleton] at hn
      refine hn ▸ Node.every_iff.mpr ⟨hr _ _, fun m hm => ?_⟩
      simp only [Node.children, Option.toList_some, List.mem_singleton] at hm
      exact hm ▸ h

/-! ### Scripts in scripts -/

/-- Whether the node is a whole script. -/
def Node.isProgram : Node → Bool
  | .program _ _ => true
  | _            => false

/-- No part of the node is a whole script. -/
def Node.ScriptFree : Node → Prop := Node.Every (·.isProgram = false)

end Nondet
