import Mathlib.Data.List.Sort
import Nondet.Proofs.Context.Undo

/-!
# Context — Again

A snapshot that is taken again.  Where a snapshot was put back, the frames that are held are those
that it remembers, with the tables that it has for them; so a snapshot that is taken there is the
same (`Context.snapshot_restore`), as long as there are as many failures to go back to.  Putting it
back once more changes nothing (`Context.restore_restore`).
-/

namespace Nondet

/-- Frames are the same when each of them is. -/
theorem Frames.ext_get? {fs fs' : Frames} (closures : fs.closures = fs'.closures)
    (get? : ∀ i, fs.get? i = fs'.get? i) : fs = fs' := by
  obtain ⟨all, closures⟩ := fs
  obtain ⟨all', closures'⟩ := fs'
  obtain rfl : all = all' := Array.ext_getElem? get?
  exact congrArg (Frames.mk all) ‹_›

namespace Context

variable {c c₀ : Context} {i : FrameId}

/-- What becomes of a context: its frames keep everything but their tables, the global frame stays,
and there are no fewer failures. -/
structure Persists (c₀ c : Context) : Prop where
  frames : c₀.frames.Remain c.frames
  global : c.global = c₀.global
  failures : c₀.failures.length ≤ c.failures.length

theorem Persists.refl (c : Context) : c.Persists c := ⟨.refl _, rfl, Nat.le_refl _⟩

/-! ### Putting back -/

theorem get?_restore :
    (c.restore c₀.snapshot).frames.get? i = (c.frames.get? i).map fun f =>
      { f with bindings := if i ∈ c₀.frames.reachable (c₀.global :: c₀.stack)
        then c₀.frames.bindings i else f.bindings } :=
  get?_foldl c₀.frames.bindings (c₀.frames.reachable (c₀.global :: c₀.stack)) c.frames

/-- Nothing changes when everything is as the snapshot remembers it. -/
theorem restore_eq_self {s : Snapshot} (frames : (c.restore s).frames = c.frames)
    (stack : s.stack = c.stack) (failures : c.failures.take s.failures = c.failures)
    (outer : s.outer = c.outer) : c.restore s = c := by
  have parts : c.restore s = { c with
      frames := (c.restore s).frames, stack := s.stack, failures := c.failures.take s.failures,
      outer := s.outer } := rfl
  rw [parts, frames, stack, failures, outer]

/-- A snapshot that is put back where it was taken changes nothing. -/
theorem restore_snapshot (c : Context) : c.restore c.snapshot = c := by
  refine restore_eq_self ?_ rfl List.take_length rfl
  refine Frames.ext_get? (Frames.Retabled.restore c _).closures fun i => ?_
  rw [get?_restore]
  cases hf : c.frames.get? i with
  | none => rfl
  | some f => simp [Frames.bindings_of_get? hf]

/-- A snapshot that is put back twice in a row is put back. -/
theorem restore_restore (c c₀ : Context) :
    (c.restore c₀.snapshot).restore c₀.snapshot = c.restore c₀.snapshot := by
  refine restore_eq_self ?_ rfl ?_ rfl
  · refine Frames.ext_get? (Frames.Retabled.restore _ _).closures fun i => ?_
    rw [get?_restore, get?_restore, Option.map_map]
    congr 1
    funext f
    by_cases hi : i ∈ c₀.frames.reachable (c₀.global :: c₀.stack) <;> simp [hi]
  · simp [restore, List.take_take]

/-! ### Taking a snapshot again -/

variable (h₀ : c₀.Whole) (h : c₀.Persists c)

include h₀ h

/-- What is held where a snapshot was put back was held where it was taken. -/
theorem holds_restore : (c.restore c₀.snapshot).Holds i ↔ c₀.Holds i := by
  have agree := agree_restore h₀ h.frames
  constructor
  · intro hi
    induction hi with
    | global => exact h.global ▸ .global
    | stack hs => exact .stack hs
    | step _ hf hj ih => exact ih.step (agree.same _ ih ▸ hf) hj
  · intro hi
    induction hi with
    | global => exact h.global ▸ .global
    | stack hs => exact .stack hs
    | step hi hf hj ih => exact ih.step ((agree.same _ hi).trans hf) hj

/-- **Where a snapshot was put back, the snapshot that is taken is the same.** -/
theorem snapshot_restore (hw : (c.restore c₀.snapshot).Whole) :
    (c.restore c₀.snapshot).snapshot = c₀.snapshot := by
  have agree := agree_restore h₀ h.frames
  -- Both searches give what is held, in order.
  have reachable : (c.restore c₀.snapshot).frames.reachable
      ((c.restore c₀.snapshot).global :: (c.restore c₀.snapshot).stack) =
        c₀.frames.reachable (c₀.global :: c₀.stack) := by
    refine Frames.sorted_reachable.eq_of_mem_iff Frames.sorted_reachable fun i => ?_
    rw [Frames.mem_reachable hw.inRange, Frames.mem_reachable h₀.inRange]
    exact holds_iff.symm.trans ((holds_restore h₀ h).trans holds_iff)
  have bindings : (c.restore c₀.snapshot).snapshot.bindings = c₀.snapshot.bindings := by
    rw [snapshot, reachable]
    refine List.map_congr_left fun i hi => ?_
    rw [agree.bindings (holds_iff.mpr ((Frames.mem_reachable h₀.inRange).mp hi))]
  have failures : (c.restore c₀.snapshot).failures.length = c₀.failures.length := by
    rw [restore, List.length_take]
    exact Nat.min_eq_left h.failures
  rw [snapshot] at bindings ⊢
  simp only at bindings
  rw [bindings, failures]
  rfl

end Context

end Nondet
