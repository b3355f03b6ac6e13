import Nondet.Proofs.Tree.Site

/-!
# Tree — Origin

What the nodes that stand at places of a script were made from.  All of them are parts of the script
but for the two kinds that are made up, and these have the span of a part; so a function that stands
at a place of a script is written in it (`Function.LiesAt.written`).
-/

namespace Nondet

variable {P : Span → Prop}

/-- The spans of the node and of all nodes in it satisfy `P`. -/
def Node.Spanned (P : Span → Prop) : Node → Prop := Node.Every (P ·.span)

/-- The node is a part of the script. -/
def Node.In (script : List Node) (n : Node) : Prop := ∃ k ∈ script, k.Part n

theorem Node.In.child {script : List Node} {n m : Node} (h : n.In script) (hm : m ∈ n.children) :
    m.In script :=
  have ⟨k, hk, hp⟩ := h
  ⟨k, hk, hp.tail hm⟩

/-- The node is a part of the script, or it is made up from one. -/
inductive Node.MadeFrom (script : List Node) : Node → Prop
  | part {n : Node} (h : n.In script) : MadeFrom script n
  | constant {n : Node} {b : Bool} (h : n.In script) : MadeFrom script (.literal n.span (.bool b))
  | returned {n : Node} (h : n.In script) : MadeFrom script (.returnStatement n.span (some n))

/-- What is below a node that is made from the script is a part of it. -/
theorem Node.MadeFrom.child {script : List Node} {n m : Node} (h : n.MadeFrom script)
    (hm : m ∈ n.children) : m.In script := by
  cases h with
  | part h => exact h.child hm
  | constant h => cases hm
  | returned h =>
      obtain rfl := List.mem_singleton.mp hm
      exact h

/-- A node that opens a scope is not made up. -/
theorem Node.MadeFrom.of_opensScope {script : List Node} {n : Node} (h : n.MadeFrom script)
    (hn : n.opensScope) : n.In script := by
  cases h with
  | part h => exact h
  | constant h => cases hn
  | returned h => cases hn

theorem Node.opensScope_of_function? {n : Node} {f : Function} (h : n.function? = some f) :
    n.opensScope ∧ f.body ∈ n.children := by
  cases n with
  | functionDeclaration _ _ _ _ _ | arrowFunction _ _ _ _ _ =>
      cases h
      exact ⟨rfl, List.mem_singleton_self _⟩
  | _ => cases h

/-- What a call of a function runs is its body, below its body, or made up from it. -/
theorem Function.mem_statements {f : Function} {m : Node} (h : m ∈ f.statements) :
    m = f.body ∨ m ∈ f.body.children ∨ m = .returnStatement f.body.span (some f.body) := by
  rw [Function.statements, Function.block] at h
  cases hf : f.form with
  | block =>
      simp only [hf] at h
      split at h
      next span ss e =>
        rw [e]
        exact .inr (.inl h)
      next => exact .inl (List.mem_singleton.mp h)
  | expression =>
      simp only [hf] at h
      exact .inr (.inr (List.mem_singleton.mp h))

/-- **Whatever stands at a place of a script is made from the script.** -/
theorem Node.LiesAt.madeFrom {n : Node} {s : Site} (h : n.LiesAt s) : n.MadeFrom s.script := by
  induction h with
  | statement h => exact .part ⟨_, h, .refl⟩
  | part _ _ hm ih => exact .part (ih.child hm)
  | block _ hm ih => exact .part (ih.child hm)
  | body _ hf hm ih =>
      obtain ⟨hopen, hbody⟩ := opensScope_of_function? hf
      have body := (ih.of_opensScope hopen).child hbody
      rcases Function.mem_statements hm with rfl | hm | rfl
      · exact .part body
      · exact .part (body.child hm)
      · exact .returned body
  | constant h b ih =>
      cases ih with
      | part ih => exact .constant ih

/-- A function that stands at a place of a script is written in the script. -/
theorem Function.LiesAt.written {f : Function} {s : Site} (h : f.LiesAt s) :
    ∃ g : Node, g.In s.script ∧ g.function? = some f := by
  obtain ⟨g, hg, hf⟩ := h
  exact ⟨g, hg.madeFrom.of_opensScope (Node.opensScope_of_function? hf).1, hf⟩

/-- What a call runs has spans of the function's own nodes. -/
theorem Node.Spanned.statements {g : Node} {f : Function} (h : g.Spanned P)
    (hf : g.function? = some f) : ∀ m ∈ f.statements, m.Spanned P := by
  intro m hm
  have body : f.body.Spanned P := Node.Every.child h (opensScope_of_function? hf).2
  rcases Function.mem_statements hm with rfl | hm | rfl
  · exact body
  · exact Node.Every.child body hm
  · exact Node.every_iff.mpr ⟨body.self, List.forall_mem_singleton.mpr body⟩

end Nondet
