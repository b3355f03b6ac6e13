import Mathlib.Data.Finset.Card
import Mathlib.Data.Finset.Range
import Mathlib.Logic.Relation
import Std.Data.TreeSet.Lemmas
import Nondet.Context.Snapshot
import Nondet.Proofs.Frame.Store

/-!
# Context — Snapshot laws

A snapshot remembers the tables of the frames that can be reached, all of them and no others
(`Frames.mem_reachable`), and putting it back makes these tables what they were and leaves every
other table alone (`Context.bindings_restore`).

The frames are searched with a list of waiting ones.  Each frame enters the list once, when it is
found, so what is unfound and what waits shrink together by one in every round; that is the fuel.
With so many rounds the search comes to its end (`Frames.reachable_ends`), however the frames refer
to each other.
-/

namespace Nondet

/-! ### Reachable frames -/

namespace Frames

variable (fs : Frames)

/-- The second frame is around the first or around a closure that the first holds. -/
def Edge (i j : FrameId) : Prop := ∃ f, fs.get? i = some f ∧ j ∈ f.neighbours

/-- The frame can be reached from one of the roots. -/
def Reaches (roots : List FrameId) (i : FrameId) : Prop :=
  ∃ r ∈ roots, Relation.ReflTransGen fs.Edge r i

/-- Frames lead to frames only. -/
def InRange : Prop := ∀ i j, fs.Edge i j → j < fs.next

end Frames

namespace Reach

variable {r : Reach} {i j : FrameId} {is : List FrameId}

theorem mem_add : j ∈ (r.add i).found ↔ j = i ∨ j ∈ r.found := by
  rw [add]
  split
  next h =>
    constructor
    · exact .inr
    · rintro (rfl | hj)
      · exact h
      · exact hj
  next h =>
    rw [Std.TreeSet.mem_insert, Std.LawfulEqCmp.compare_eq_iff_eq]
    exact or_congr eq_comm Iff.rfl

theorem mem_addAll : j ∈ (r.addAll is).found ↔ j ∈ is ∨ j ∈ r.found := by
  induction is generalizing r with
  | nil => simp [addAll]
  | cons i is ih =>
      have step : r.addAll (i :: is) = (r.add i).addAll is := rfl
      rw [step, ih, mem_add, List.mem_cons]
      tauto

/-- What waited waits, and so does what was found anew. -/
theorem waiting_addAll :
    (∀ j ∈ r.waiting, j ∈ (r.addAll is).waiting) ∧
      ∀ j ∈ (r.addAll is).found, j ∈ r.found ∨ j ∈ (r.addAll is).waiting := by
  induction is generalizing r with
  | nil => exact ⟨fun _ h => h, fun _ h => .inl h⟩
  | cons i is ih =>
      have step : r.addAll (i :: is) = (r.add i).addAll is := rfl
      rw [step]
      obtain ⟨hw, hf⟩ := ih (r := r.add i)
      by_cases hi : i ∈ r.found
      · have same : r.add i = r := by rw [add, if_pos hi]
        rw [same] at hw hf ⊢
        exact ⟨hw, hf⟩
      · have grown : (r.add i).waiting = i :: r.waiting := by rw [add, if_neg hi]
        rw [grown] at hw
        refine ⟨fun j hj => hw j (List.mem_cons_of_mem _ hj), fun j hj => ?_⟩
        rcases hf j hj with hj | hj
        · rcases mem_add.mp hj with rfl | hj
          · exact .inr (hw j List.mem_cons_self)
          · exact .inl hj
        · exact .inr hj

/-- Nothing else waits. -/
theorem of_waiting_addAll (hj : j ∈ (r.addAll is).waiting) : j ∈ is ∨ j ∈ r.waiting := by
  induction is generalizing r with
  | nil => exact .inr hj
  | cons i is ih =>
      rcases ih (r := r.add i) hj with hj | hj
      · exact .inl (List.mem_cons_of_mem _ hj)
      · by_cases hi : i ∈ r.found
        · rw [add, if_pos hi] at hj
          exact .inr hj
        · rw [add, if_neg hi] at hj
          rcases List.mem_cons.mp hj with rfl | hj
          · exact .inl List.mem_cons_self
          · exact .inr hj

/-! ### The search -/

/-- How many frames of `U` are unfound, and how many wait. -/
def pending (U : Finset FrameId) (r : Reach) : Nat :=
  (U.filter (· ∉ r.found)).card + r.waiting.length

theorem pending_add {U : Finset FrameId} (hi : i ∈ U) : (r.add i).pending U = r.pending U := by
  by_cases hf : i ∈ r.found
  · rw [add, if_pos hf]
  · have unfound : U.filter (· ∉ (r.add i).found) = (U.filter (· ∉ r.found)).erase i := by
      ext j
      simp only [Finset.mem_filter, Finset.mem_erase, mem_add, not_or]
      tauto
    have mem : i ∈ U.filter (· ∉ r.found) := Finset.mem_filter.mpr ⟨hi, hf⟩
    have waits : (r.add i).waiting.length = r.waiting.length + 1 := by
      rw [add, if_neg hf, List.length_cons]
    have some_left := Finset.card_pos.mpr ⟨i, mem⟩
    rw [pending, unfound, Finset.card_erase_of_mem mem, waits, pending]
    omega

theorem pending_addAll {U : Finset FrameId} (his : ∀ i ∈ is, i ∈ U) :
    (r.addAll is).pending U = r.pending U := by
  induction is generalizing r with
  | nil => rfl
  | cons i is ih =>
      rw [List.forall_mem_cons] at his
      have step : r.addAll (i :: is) = (r.add i).addAll is := rfl
      rw [step, ih his.2, pending_add his.1]

/-- A search under way: what is found can be reached, and the neighbours of what does not wait any
more are found. -/
structure Searching (fs : Frames) (roots : List FrameId) (r : Reach) : Prop where
  sound : ∀ i ∈ r.found, fs.Reaches roots i
  closed : ∀ i ∈ r.found, i ∈ r.waiting ∨ ∀ j, fs.Edge i j → j ∈ r.found
  roots : ∀ i ∈ roots, i ∈ r.found
  waiting : ∀ i ∈ r.waiting, i ∈ r.found

variable {fs : Frames} {roots : List FrameId}

/-- The neighbours of a frame, none if there is no such frame. -/
theorem mem_neighbours :
    j ∈ ((fs.get? i).map Frame.neighbours).getD [] ↔ fs.Edge i j := by
  cases hf : fs.get? i <;> simp [Frames.Edge, hf]

/-- A round of the search. -/
theorem Searching.visit {found : Std.TreeSet FrameId} {waiting : List FrameId}
    (h : Searching fs roots ⟨found, i :: waiting⟩) :
    Searching fs roots (addAll ⟨found, waiting⟩ (((fs.get? i).map Frame.neighbours).getD [])) := by
  have hi : i ∈ found := h.waiting i List.mem_cons_self
  obtain ⟨hw, hf⟩ :=
    @waiting_addAll ⟨found, waiting⟩ (((fs.get? i).map Frame.neighbours).getD [])
  refine ⟨fun j hj => ?_, fun j hj => ?_, fun j hj => mem_addAll.mpr (.inr (h.roots j hj)), ?_⟩
  -- What is found anew is a neighbour of a frame that can be reached.
  · rcases mem_addAll.mp hj with hj | hj
    · obtain ⟨root, hroot, path⟩ := h.sound i hi
      exact ⟨root, hroot, path.tail (mem_neighbours.mp hj)⟩
    · exact h.sound j hj
  · rcases hf j hj with hj | hj
    · rcases h.closed j hj with hj | hj
      · rcases List.mem_cons.mp hj with rfl | hj
        · exact .inr fun k hk => mem_addAll.mpr (.inl (mem_neighbours.mpr hk))
        · exact .inl (hw j hj)
      · exact .inr fun k hk => mem_addAll.mpr (.inr (hj k hk))
    · exact .inl hj
  · intro j hj
    rcases of_waiting_addAll hj with hj | hj
    · exact mem_addAll.mpr (.inl hj)
    · exact mem_addAll.mpr (.inr (h.waiting j (List.mem_cons_of_mem _ hj)))

/-- Wherever the fuel ends the search, what it found can be reached. -/
theorem Searching.reaches : ∀ {fuel : Nat} {r : Reach}, Searching fs roots r →
    ∀ i ∈ Reach.run fs fuel r, fs.Reaches roots i
  | 0, _, h, i, hi => h.sound i (Std.TreeSet.mem_toList.mp hi)
  | _ + 1, ⟨_, []⟩, h, i, hi => h.sound i (Std.TreeSet.mem_toList.mp hi)
  | fuel + 1, ⟨_, _ :: _⟩, h, i, hi =>
    Searching.reaches h.visit i (show i ∈ Reach.run fs fuel _ from hi)

/-- Wherever the fuel ends the search, the roots are among what it found. -/
theorem Searching.mem_run : ∀ {fuel : Nat} {r : Reach}, Searching fs roots r →
    ∀ i ∈ roots, i ∈ Reach.run fs fuel r
  | 0, _, h, i, hi => Std.TreeSet.mem_toList.mpr (h.roots i hi)
  | _ + 1, ⟨_, []⟩, h, i, hi => Std.TreeSet.mem_toList.mpr (h.roots i hi)
  | fuel + 1, ⟨_, _ :: _⟩, h, i, hi =>
    show i ∈ Reach.run fs fuel _ from Searching.mem_run h.visit i hi

/-- Rounds of the search: each visits the frame that waits first. -/
inductive Rounds (fs : Frames) : Nat → Reach → Reach → Prop where
  | none (r : Reach) : Rounds fs 0 r r
  | visit {n : Nat} {found : Std.TreeSet FrameId} {i : FrameId} {waiting : List FrameId} {r : Reach}
      (later : Rounds fs n
        (addAll ⟨found, waiting⟩ (((fs.get? i).map Frame.neighbours).getD [])) r) :
      Rounds fs (n + 1) ⟨found, i :: waiting⟩ r

/-- With fuel for all that is unfound or waits, the search comes to its end. -/
theorem Searching.run {U : Finset FrameId} (hU : ∀ i j, fs.Edge i j → j ∈ U) :
    ∀ {fuel : Nat} {r : Reach}, Searching fs roots r → r.pending U ≤ fuel →
      ∃ n r', n ≤ fuel ∧ Rounds fs n r r' ∧ Searching fs roots r' ∧ r'.waiting = [] ∧
        Reach.run fs fuel r = r'.found.toList
  | 0, r, h, hp => by
      have none : r.waiting = [] := List.length_eq_zero_iff.mp (by rw [pending] at hp; omega)
      exact ⟨0, r, Nat.le_refl _, .none r, h, none, rfl⟩
  | fuel + 1, ⟨found, []⟩, h, _ => ⟨0, _, Nat.zero_le _, .none _, h, rfl, rfl⟩
  | fuel + 1, ⟨found, i :: waiting⟩, h, hp => by
      -- The frame that is visited leaves the list; its neighbours only change places.
      have round : (addAll ⟨found, waiting⟩ (((fs.get? i).map Frame.neighbours).getD [])).pending U ≤
          fuel := by
        rw [pending_addAll fun j hj => hU i j (mem_neighbours.mp hj)]
        simp only [pending, List.length_cons] at hp ⊢
        omega
      obtain ⟨n, r', hn, rounds, hr', hw, e⟩ := Searching.run hU h.visit round
      exact ⟨n + 1, r', Nat.succ_le_succ hn, .visit rounds, hr', hw, e⟩

/-- At the beginning the roots are found, and they wait. -/
theorem searching_start : Searching fs roots (Reach.none.addAll roots) := by
  have found {j : FrameId} : j ∈ (Reach.none.addAll roots).found ↔ j ∈ roots := by
    rw [mem_addAll]
    simp [Reach.none]
  refine ⟨fun j hj => ⟨j, found.mp hj, .refl⟩, fun j hj => .inl ?_, fun j hj => found.mpr hj,
    fun j hj => ?_⟩
  · rcases waiting_addAll.2 j hj with hj | hj
    · simp [Reach.none] at hj
    · exact hj
  · rcases of_waiting_addAll hj with hj | hj
    · exact found.mpr hj
    · simp [Reach.none] at hj

end Reach

namespace Frames

variable {fs : Frames} {roots : List FrameId} {i : FrameId}

theorem reaches_of_mem_reachable (h : i ∈ fs.reachable roots) : fs.Reaches roots i :=
  Reach.searching_start.reaches i h

theorem mem_reachable_of_root (h : i ∈ roots) : i ∈ fs.reachable roots :=
  Reach.searching_start.mem_run i h

/-- The search ends: when there have been as many rounds as there are frames and roots, no frame
waits any more. -/
theorem reachable_ends (hr : fs.InRange) (roots : List FrameId) :
    ∃ n r, n ≤ fs.next + roots.length ∧ Reach.Rounds fs n (Reach.none.addAll roots) r ∧
      Reach.Searching fs roots r ∧ r.waiting = [] ∧ fs.reachable roots = r.found.toList := by
  let U : Finset FrameId := Finset.range fs.next ∪ roots.toFinset
  let start := Reach.none.addAll roots
  have enough : start.pending U ≤ fs.next + roots.length := by
    rw [Reach.pending_addAll fun j hj => Finset.mem_union_right _ (List.mem_toFinset.mpr hj)]
    have all := Finset.card_filter_le U (· ∉ Reach.none.found)
    have union := Finset.card_union_le (Finset.range fs.next) roots.toFinset
    have few := List.toFinset_card_le roots
    rw [Finset.card_range] at union
    simp only [Reach.pending, Reach.none, List.length_nil] at all union ⊢
    exact Nat.le_trans all (Nat.le_trans union (Nat.add_le_add_left few _))
  have stays : ∀ i j, fs.Edge i j → j ∈ U := fun i j he =>
    Finset.mem_union_left _ (Finset.mem_range.mpr (hr i j he))
  exact Reach.searching_start.run stays enough

/-- **The search finds the frames that can be reached and no others.** -/
theorem mem_reachable (hr : fs.InRange) : i ∈ fs.reachable roots ↔ fs.Reaches roots i := by
  obtain ⟨-, r, -, -, hs, hw, e⟩ := reachable_ends hr roots
  rw [e, Std.TreeSet.mem_toList]
  -- A path cannot leave what was found, since nothing waits any more.
  refine ⟨hs.sound i, ?_⟩
  rintro ⟨root, hroot, path⟩
  induction path with
  | refl => exact hs.roots root hroot
  | tail _ he ih =>
      rcases hs.closed _ ih with hj | hj
      · rw [hw] at hj
        cases hj
      · exact hj _ he

/-- What the search gives is in order, and so each frame is given once. -/
theorem sorted_reachable : (fs.reachable roots).Pairwise (· < ·) := by
  suffices run : ∀ (fuel : Nat) (r : Reach), (Reach.run fs fuel r).Pairwise (· < ·) from run _ _
  have sorted (found : Std.TreeSet FrameId) : found.toList.Pairwise (· < ·) :=
    found.ordered_toList.imp Nat.compare_eq_lt.mp
  intro fuel
  induction fuel with
  | zero => exact fun r => sorted r.found
  | succ fuel ih =>
      rintro ⟨found, _ | ⟨i, waiting⟩⟩
      · exact sorted found
      · exact ih _

end Frames

/-! ### Going back -/

namespace Context

variable {c c₀ : Context} {i : FrameId}

/-- The frame can be reached from the stack or from the global frame. -/
def Reaches (c : Context) (i : FrameId) : Prop := c.frames.Reaches (c.global :: c.stack) i

/-- Tables that are put back one after the other, each where it came from. -/
theorem get?_foldl (old : FrameId → Bindings) (is : List FrameId) (fs : Frames) :
    ((is.map fun i => (i, old i)).foldl (fun fs p => fs.setBindings p.1 p.2) fs).get? i =
      (fs.get? i).map fun f => { f with bindings := if i ∈ is then old i else f.bindings } := by
  induction is generalizing fs with
  | nil => simp
  | cons j is ih =>
      rw [List.map_cons, List.foldl_cons, ih, Frames.get?_setBindings]
      by_cases hj : j = i
      · subst hj
        simp [Function.comp_def]
      · have hj' : ¬ i = j := fun e => hj e.symm
        simp [hj, hj']

theorem bindings_foldl (old : FrameId → Bindings) (is : List FrameId) (fs : Frames) :
    ((is.map fun i => (i, old i)).foldl (fun fs p => fs.setBindings p.1 p.2) fs).bindings i =
      if i ∈ is ∧ i < fs.next then old i else fs.bindings i := by
  have there : (fs.get? i).isSome ↔ i < fs.next := Frames.get?_isSome
  rw [Frames.bindings, get?_foldl, Frames.bindings]
  cases hf : fs.get? i with
  | none => simp [← there, hf]
  | some f => by_cases hi : i ∈ is <;> simp [← there, hf, hi]

open Classical in
/-- **A snapshot puts back the tables of the frames that could be reached, and no others.** -/
theorem bindings_restore (hr : c₀.frames.InRange) :
    (c.restore c₀.snapshot).frames.bindings i =
      if c₀.Reaches i ∧ i < c.frames.next then c₀.frames.bindings i else c.frames.bindings i := by
  have h := bindings_foldl (i := i) c₀.frames.bindings
    (c₀.frames.reachable (c₀.global :: c₀.stack)) c.frames
  simp only [Frames.mem_reachable hr] at h
  exact h

end Context

end Nondet
