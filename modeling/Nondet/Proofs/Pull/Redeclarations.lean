import Nondet.Proofs.Context.Failing
import Nondet.Proofs.Frame.Scopes
import Nondet.Proofs.Native.Prelude
import Nondet.Proofs.Pull.Declarations
import Nondet.Proofs.Pull.Refusals

/-!
# Pull — Redeclarations

What complains that a name has already been declared.  Three things do (`Query.Redeclares`): a
declaration that is completed while its name does not wait for a value, statements that are hoisted
into a frame in which one of their names is there already, and a native that raises mistakes in the
name of the evaluation.

In code that keeps declarations to lists of statements the first of them does not happen
(`Declaring.completes`), and what is there when statements are hoisted was declared by them or is a
parameter (`Declaring.clashes`).
-/

namespace Nondet

open Nondet.Action

variable {l : Limits} {c c' : Context} {failure : Failure} {host : Host}

/-! ### Completing declarations -/

/-- A declaration is completed just when its name waits. -/
theorem Action.defines_iff (name : String) (value : Value) (constant : Bool) (span : Span)
    (c : Context) : ((define name value constant span).on c).1 = .ok ⟨⟩ ↔
      c.frames.binding? c.current name = some .unassigned := by
  rw [on_define, on_change, Frames.definition]
  rcases c.frames.binding? c.current name with _ | _ | _ <;> simp

/-- The stream completes the declaration of the name, in the context `c'`. -/
inductive Stream.Completes : Stream → Context → String → Context → Prop
  | initializer {inner : Stream} {span : Span} {keyword : DeclarationKeyword} {name : String}
      {outcome : Outcome} {rest : Stream} {c c' : Context} (h : inner.Gives c (.yield outcome rest c')) :
      Completes (.map inner (.define span keyword name)) c name c'
  | function {span : Span} {function : Function} {c : Context} :
      Completes (.deferred (.defineFunction span function)) c (function.name.getD "") c

/-- What is asked complains of a redeclaration itself. -/
inductive Query.Redeclares (failure : Failure) : Query → Prop
  | completion {st : Stream} {name : String} {c c' : Context} (h : st.Completes c name c')
      (hb : c'.frames.binding? c'.current name ≠ some .unassigned) : Redeclares failure (.stream st c)
  | hoist {ss : List Node} {c c' : Context} (h : (hoist ss).on c = (.error failure, c')) :
      Redeclares failure (.stream (.body ss) c)
  | native {span : Span} {name : String} {arguments : List Value} {c : Context} {e : NativeFailure}
      (h : c.host.call name arguments = .error e) (he : ¬ e.Own) :
      Redeclares failure (.stream (.deferred (.native span name arguments)) c)

/-- A declaration whose completion fails did not wait. -/
theorem Action.binding?_of_define_error {name : String} {value : Value} {constant : Bool} {span : Span}
    (h : (define name value constant span).on c = (.error failure, c')) :
    c.frames.binding? c.current name ≠ some .unassigned := by
  intro hb
  have completed := (defines_iff name value constant span c).mpr hb
  rw [h] at completed
  cases completed

/-- A native that makes its call a redeclaration does so in the name of the evaluation. -/
theorem Action.not_own_of_callNative {span : Span} {name : String} {arguments : List Value}
    (h : (callNative span name arguments).on c = (.error failure, c'))
    (hf : failure.isRedeclaration) : ∃ e, c.host.call name arguments = .error e ∧ ¬ e.Own := by
  rw [on_callNative] at h
  rcases hr : c.host.call name arguments with (_ | _ | _ | _) | _ <;> rw [hr] at h <;> cases h
  · cases hf
  · cases hf
  · exact ⟨_, rfl, id⟩
  · exact ⟨_, rfl, id⟩

/-- The failure is no complaint of a redeclaration. -/
def Failure.Other (failure : Failure) : Prop := ¬ failure.isRedeclaration

namespace Query

theorem redeclares_map {inner rest : Stream} {f : Transform} {outcome : Outcome} {c₁ : Context}
    (hr : inner.Gives c (.yield outcome rest c₁)) (h : (f.run outcome).on c₁ = (.error failure, c'))
    (hf : failure.isRedeclaration) : (Query.stream (.map inner f) c).Redeclares failure := by
  cases f with
  | define span keyword name =>
      rcases on_bind_eq_error h with h | ⟨v, c₂, hv, h⟩
      · exact absurd hf (Fails.operand (Q := Failure.Other) (fun _ => id) _ outcome _ _ _ h)
      · obtain ⟨rfl, -⟩ := on_operand_eq_ok hv
        rcases on_bind_eq_error h with h | ⟨_, _, _, h⟩
        · exact .completion (.initializer hr) (binding?_of_define_error h)
        · cases h
  | _ => exact absurd hf (Fails.transform (Q := Failure.Other) (fun _ hm => hm rfl) outcome _ _ _ h)

theorem redeclares_deferred {what : Deferred} (h : what.run.on c = (.error failure, c'))
    (hf : failure.isRedeclaration) : (Query.stream (.deferred what) c).Redeclares failure := by
  cases what with
  | lookup span name =>
      rcases on_bind_eq_error h with h | ⟨v, c₁, -, h⟩
      · exact absurd hf (Fails.lookup (Q := Failure.Other) (fun _ => id) name _ _ _ h)
      · cases h
  | defineFunction span function =>
      rcases on_bind_eq_error h with h | ⟨closure, c₁, hc, h⟩
      · cases h
      · -- Making the closure changes no name.
        cases hc
        rcases on_bind_eq_error h with h | ⟨_, _, _, h⟩
        · have free := binding?_of_define_error h
          exact .completion .function free
        · cases h
  | closure function => cases h
  | native span name arguments =>
      rcases on_bind_eq_error h with h | ⟨v, c₁, -, h⟩
      · obtain ⟨e, he, hown⟩ := not_own_of_callNative h hf
        exact .native he hown
      · cases h
  | notFunction span callee =>
      cases h
      cases hf

/-- **What complains of a redeclaration** completes a declaration, hoists, or calls a native. -/
theorem Refuses.redeclares {q : Query} (h : q.Refuses failure) (hf : failure.isRedeclaration) :
    q.Redeclares failure := by
  cases q with
  | stream s c =>
      cases h with
      | nested h =>
          rw [on_enterNested] at h
          split at h <;> cases h
          cases hf
      | deferred h => exact redeclares_deferred h hf
      | map hr h => exact redeclares_map hr h hf
      | flatMap hr h => exact absurd hf (Fails.continuation (Q := Failure.Other) (fun _ => id) _ _ _ _ h)
      | body h => exact .hoist h
      | call h =>
          rw [on_enterCall] at h
          split at h
          · cases h
            cases hf
          · split at h <;> cases h
            cases hf
  | odometer o c =>
      cases h with
      | turning hr h => exact absurd hf (Fails.operand (Q := Failure.Other) (fun _ => id) _ _ _ _ _ h)

end Query

/-! ### Under the contract -/

/-- Hoisting the statements finds the name there: they declare it twice, or they are those of a
function that has it as a parameter. -/
structure Context.Clashes (c : Context) (ss : List Node) (name : String) : Prop where
  declared : name ∈ Node.declared ss
  there : 1 < (Node.declared ss).count name ∨ ∃ closure arguments span this,
    c.frames.get? c.current = some (.activation closure arguments span this) ∧
      ss = closure.function.statements ∧ name ∈ closure.params

/-- Only parameters are in a frame when statements open it. -/
theorem Frame.OpensFor.params {frame : Frame} {ss : List Node} (h : frame.OpensFor ss) {name : String}
    (hn : (frame.bindings.get? name).isSome) : ∃ closure arguments span this,
      frame = .activation closure arguments span this ∧ ss = closure.function.statements ∧
        name ∈ closure.params := by
  rcases h with h | ⟨closure, arguments, span, this, harity, rfl, hss⟩
  · rw [h] at hn
    cases hn
  · exact ⟨closure, arguments, span, this, rfl, hss, (Bindings.binds_ofArguments harity name).mp hn⟩

namespace Declaring

/-- **A declaration that is completed finds its name waiting.** -/
theorem completes {st : Stream} (ha : ((orderlyRequests l).and (declaring host)).stream st c)
    {name : String}
    (h : st.Completes c name c') : c'.frames.binding? c'.current name = some .unassigned := by
  obtain ⟨m, he, hs⟩ := ha.2
  cases h with
  | @initializer inner span keyword name outcome rest c c' hr =>
      -- While the initializer runs, the name waits.
      have asked := ((declaring_kept l host).stream _ _ ha).1
      obtain ⟨⟨⟨-, hd⟩, -⟩, awaits⟩ := (declaring_kept l host).gives asked hr
      obtain ⟨waits, -⟩ := awaits (m.add c.current [name]) ⟨he.add hs.2, hs.1⟩
      rw [hd.1.current]
      exact waits _ _ (.inr ⟨rfl, List.mem_singleton_self _⟩)
  | function =>
      obtain ⟨fs, hfs⟩ := Option.isSome_iff_exists.mp hs.1
      obtain ⟨rfl, -⟩ := he.fresh fs hfs
      exact (hs.2 _ (List.mem_singleton_self _)).2 _ hfs

/-- **Hoisting fails only at a clash of names.** -/
theorem clashes {ss : List Node} (ha : ((orderlyRequests l).and (declaring host)).stream (.body ss) c)
    (h : (hoist ss).on c = (.error failure, c')) :
    ∃ name isMutable span, failure = .mistake (.redeclared name isMutable) span ∧
      c.Clashes ss name := by
  obtain ⟨⟨⟨⟨hc, -⟩, -⟩, -⟩, m, he, ⟨fs, hfs, frame, hframe, opens⟩, -⟩ := ha
  obtain ⟨rfl, -⟩ := he.fresh fs hfs
  obtain ⟨name, isMutable, span, rfl, hn, there⟩ := on_hoist_error (hc.stack _ he.inside) h
  refine ⟨name, isMutable, span, rfl, hn, ?_⟩
  rcases there with there | there
  · rw [Frames.binding?, Frames.bindings_of_get? hframe] at there
    obtain ⟨closure, arguments, span, this, rfl, hss, hp⟩ := opens.params there
    exact .inr ⟨closure, arguments, span, this, hframe, hss, hp⟩
  · exact .inl there

end Declaring

end Nondet
