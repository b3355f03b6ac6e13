import Nondet.Proofs.Context.Again
import Nondet.Proofs.Frame.Names
import Nondet.Proofs.Pull.Upkeep

/-!
# Pull — Persists

What no request takes away.  Frames are only added, and they keep everything but their tables; and
failures are only taken back by a choice, which goes back to as many as there were when it was
begun.  So if there were no fewer than some number when the open choices were begun, there are no
fewer at any time (`persisting_kept`).
-/

namespace Nondet

variable {α σ : Type} {c₀ c c' : Context}

/-! ### What is done to a context -/

namespace Context.Persists

theorem deeper (h : c₀.Persists c) : c₀.Persists { c with nesting := c.nesting + 1 } :=
  ⟨h.1, h.2, h.3⟩

theorem addFrame (h : c₀.Persists c) (frame : Frame) : c₀.Persists (c.addFrame frame) :=
  ⟨h.frames.trans fun _ _ hf => ⟨_, Frames.get?_push_of_some hf frame⟩, h.2, h.3⟩

theorem apply (h : c₀.Persists c) (change : Frames.Change) :
    c₀.Persists { c with frames := c.frames.apply change } := by
  refine ⟨h.frames.trans ?_, h.2, h.3⟩
  rw [Frames.apply, Frames.set_eq_setBindings]
  exact (Frames.Retabled.setBindings _ _).remain

theorem restore (h : c₀.Persists c) {s : Snapshot} (hs : c₀.failures.length ≤ s.failures) :
    c₀.Persists (c.restore s) := by
  refine ⟨h.frames.trans (Frames.Retabled.restore c s).remain, h.global, ?_⟩
  rw [Context.restore, List.length_take]
  exact Nat.le_min.mpr ⟨hs, h.failures⟩

end Context.Persists

/-- What there was goes on to be there, and one goes back to no fewer failures. -/
def Context.persistence (c₀ : Context) : Upkeep where
  context := c₀.Persists
  snapshot s := c₀.failures.length ≤ s.failures
  altered {c c'} h ha := by
    cases ha with
    | around frames global failures =>
        exact ⟨frames ▸ h.1, global.trans h.2, Nat.le_trans h.3 failures.length_le⟩
    | frame hp => exact h.addFrame _
    | closure function frame => exact ⟨h.1, h.2, h.3⟩
    | change ha => exact h.apply _
  taken h := h.failures
  restored h hs := h.restore hs

/-! ### The contract -/

/-- The snapshots remember no fewer failures than there are. -/
def Context.Floors (c₀ : Context) (snapshots : List Snapshot) : Prop :=
  ∀ snapshot ∈ snapshots, c₀.failures.length ≤ snapshot.failures

/-- What there was is there after the request, and the choices that are left go back to it. -/
def Reply.Persists (c₀ : Context) (choices : σ → List Snapshot) : Reply σ α → Prop
  | .yield _ s c                => c₀.Persists c ∧ c₀.Floors (choices s)
  | .finished c | .failed _ c   => c₀.Persists c

/-- Requests of what was begun when there was all that there is in the context. -/
def persisting (c₀ : Context) : Contract where
  stream s c := c₀.Persists c ∧ c₀.Floors s.choices
  streamReply _ _ r := r.Persists c₀ Stream.choices
  odometer o c := c₀.Persists c ∧ c₀.Floors o.choices
  odometerReply _ _ r := r.Persists c₀ Odometer.choices

/-- **No request takes away what there was.** -/
theorem persisting_kept (c₀ : Context) : (persisting c₀).Kept := c₀.persistence.kept

end Nondet
