import Nondet.Proofs.Frame.Names
import Nondet.Proofs.Pull.Upkeep

/-!
# Pull — Anchor

The frame that all others lie in.  Frames are only ever added inside others, so the one frame that
lies in none goes on to be the only one.  Its table changes with the tables of the others, by
binding names that are no constants and by going back to a snapshot; what an `Anchor` says of the
table is said in such a way that neither can break it.  For one, the constants that it has stay what
they are (`Anchor.constants`).
-/

namespace Nondet

variable {c c' : Context}

/-- A frame that lies in none, and a property of its table that no change to a name breaks, unless
the name is a constant. -/
structure Anchor where
  root : FrameId
  table : Bindings → Prop
  set : ∀ {bs : Bindings} {name : String} (b : Binding), table bs →
    (∀ v, bs.get? name ≠ some (.assigned v false)) → table (bs.set name b)

/-- The names are bound to constants, of which something is given. -/
def Bindings.Provides (names : List String) (given : String → Value → Prop) (bs : Bindings) :
    Prop :=
  ∀ name ∈ names, ∃ v, given name v ∧ bs.get? name = some (.assigned v false)

/-- A frame with such constants. -/
def Anchor.constants (root : FrameId) (names : List String) (given : String → Value → Prop) :
    Anchor where
  root
  table := Bindings.Provides names given
  set {bs name} b h hb := fun other hother => by
    obtain ⟨v, hv, e⟩ := h other hother
    refine ⟨v, hv, ?_⟩
    rw [Bindings.get?_set, if_neg, e]
    -- The name that is bound is none of the constants.
    rintro rfl
    exact hb v e

variable {A : Anchor}

/-! ### Frames -/

/-- The anchor is the one frame that lies in none. -/
structure Frames.Anchored (A : Anchor) (fs : Frames) : Prop where
  root : ∃ f, fs.get? A.root = some f ∧ f.parent = none
  only : ∀ i f, fs.get? i = some f → f.parent = none → i = A.root
  table : A.table (fs.bindings A.root)

namespace Frames.Anchored

variable {fs : Frames}

theorem lt_next (h : fs.Anchored A) : A.root < fs.next :=
  have ⟨_, hf, _⟩ := h.root
  Frames.lt_next hf

theorem push (h : fs.Anchored A) {frame : Frame} {parent : FrameId}
    (hp : frame.parent = some parent) : (fs.push frame).Anchored A := by
  obtain ⟨f, hf, hroot⟩ := h.root
  refine ⟨⟨f, Frames.get?_push_of_some hf frame, hroot⟩, fun i f' hi hnone => ?_, ?_⟩
  · rw [Frames.get?_push] at hi
    split at hi
    · cases hi
      cases hp.symm.trans hnone
    · exact h.only i f' hi hnone
  · rw [Frames.bindings_push, if_neg (Nat.ne_of_lt h.lt_next)]
    exact h.table

/-- Another table leaves every frame where it lies. -/
theorem setBindings (h : fs.Anchored A) {i : FrameId} {bs : Bindings}
    (hb : i = A.root → A.table bs) : (fs.setBindings i bs).Anchored A := by
  obtain ⟨f, hf, hroot⟩ := h.root
  refine ⟨?_, fun j f' hj hnone => ?_, ?_⟩
  · rw [Frames.get?_setBindings, hf]
    split
    · exact ⟨_, rfl, hroot⟩
    · exact ⟨_, rfl, hroot⟩
  · rw [Frames.get?_setBindings] at hj
    split at hj
    · obtain ⟨f₀, hf₀, rfl⟩ := Option.map_eq_some_iff.mp hj
      exact h.only j f₀ hf₀ hnone
    · exact h.only j f' hj hnone
  · rw [Frames.bindings_setBindings]
    split
    next e => exact hb e.1
    next => exact h.table

theorem set (h : fs.Anchored A) {i : FrameId} {name : String} {b : Binding}
    (hb : i = A.root → A.table ((fs.bindings A.root).set name b)) :
    (fs.set i name b).Anchored A := by
  rw [Frames.set_eq_setBindings]
  exact h.setBindings fun e => e ▸ hb e

theorem apply (h : fs.Anchored A) {change : Frames.Change} (ha : fs.Allows change) :
    (fs.apply change).Anchored A :=
  h.set fun e => A.set _ h.table (e ▸ ha)

end Frames.Anchored

/-! ### Contexts -/

/-- The global frame is the anchor, and the tables that snapshots have for it are such tables. -/
def Anchor.upkeep (A : Anchor) : Upkeep where
  context c := c.global = A.root ∧ c.frames.Anchored A
  snapshot s := ∀ p ∈ s.bindings, p.1 = A.root → A.table p.2
  altered {c c'} h ha := by
    obtain ⟨hg, h⟩ := h
    cases ha with
    | around frames global failures => exact ⟨global.trans hg, frames ▸ h⟩
    | frame hp => exact ⟨hg, h.push hp⟩
    | closure function frame => exact ⟨hg, h.root, h.only, h.table⟩
    | change ha => exact ⟨hg, h.apply ha⟩
  taken h p hp e := by
    obtain ⟨i, -, rfl⟩ := List.mem_map.mp hp
    obtain rfl : i = A.root := e
    exact h.2.table
  restored {c s} h hs := by
    refine ⟨h.1, ?_⟩
    exact List.foldlRecOn (motive := fun fs : Frames => fs.Anchored A) s.bindings _ h.2
      fun fs hfs p hp => hfs.setBindings (hs p hp)

/-- No frame is taken away. -/
def Upkeep.grown (n : Nat) : Upkeep where
  context c := n ≤ c.frames.next
  snapshot _ := True
  altered {c c'} h ha := by
    cases ha with
    | around frames global failures => exact frames ▸ h
    | frame hp =>
        rw [Context.addFrame, Frames.next_push]
        exact Nat.le_succ_of_le h
    | closure function frame => exact h
    | change ha =>
        rw [Frames.next_apply]
        exact h
  taken _ := trivial
  restored {c s} h _ := by
    rw [Context.Fits.restore_next]
    exact h

end Nondet
