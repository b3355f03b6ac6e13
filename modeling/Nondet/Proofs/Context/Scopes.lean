import Nondet.Proofs.Context.Values
import Nondet.Proofs.Frame.Scopes
import Nondet.Proofs.Tree.Origin

/-!
# Context — Scopes

Values in a session of scripts.  A closure is scoped when its function was written at a place for
which the closure's frame stands.
-/

namespace Nondet

variable {began began' : FrameId → List Node → Prop} {fs fs' : Frames}

section

variable (began : FrameId → List Node → Prop) (fs : Frames)

/-- The function was written at a place, and the closure's frame stands for it. -/
def Closure.Scoped (closure : Closure) : Prop :=
  ∃ s, closure.function.LiesAt s ∧ fs.Stands began closure.frame s

def Value.Scoped : Value → Prop
  | .closure c => c.Scoped began fs
  | _          => True

end

theorem Value.Scoped.mono (hb : ∀ i script, began i script → began' i script)
    (he : fs.Extends .blank fs') {v : Value} (h : v.Scoped began fs) : v.Scoped began' fs' := by
  cases v with
  | closure closure =>
      obtain ⟨s, hf, hs⟩ := h
      exact ⟨s, hf, hs.mono hb he⟩
  | _ => trivial

/-- The function of a scoped closure is written in a script that was begun. -/
theorem Closure.Scoped.written {closure : Closure} (h : closure.Scoped began fs) :
    ∃ i script, began i script ∧ ∃ g : Node, g.In script ∧ g.function? = some closure.function := by
  obtain ⟨s, hf, hs⟩ := h
  obtain ⟨i, hi⟩ := hs.begun
  exact ⟨i, s.script, hi, hf.written⟩

/-- What is no closure is scoped. -/
theorem Value.scoped_of_asClosure? {v : Value} (h : v.asClosure? = none) : v.Scoped began fs := by
  cases v with
  | closure c => cases h
  | _ => trivial

theorem Value.scoped_of_isFunction {v : Value} (h : v.isFunction = false) : v.Scoped began fs :=
  scoped_of_asClosure? (asClosure?_of_isFunction h)

end Nondet
