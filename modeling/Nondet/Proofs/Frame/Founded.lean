import Nondet.Proofs.Frame.Lifecycle

/-!
# Frame — Founded

The way from a frame to the root of the tree.  Where every frame was created after the one that it
lies in, and one frame alone lies in none, going from a frame to the one around it, and on, comes to
that frame after finitely many steps (`Layered.founded`).  The chain of a frame is the whole of that
way, however much fuel there is, and so what is declared, defined, assigned and looked up at the
frame is decided on it.  A name that the root has is found there, unless a nearer frame has it
(`Founded.lookup`).
-/

namespace Nondet.Frames

variable {fs : Frames} {root i : FrameId} {nearer : List FrameId} {f : Frame}

/-- From the frame `i` one comes outwards through the frames `nearer` to the root, around which
there is nothing. -/
structure Founded (fs : Frames) (root i : FrameId) (nearer : List FrameId) : Prop where
  outward : fs.Outward i nearer root
  ends : ∃ f, fs.get? root = some f ∧ f.parent = none
  /-- Each of the frames was created before the one that lies in it. -/
  older : (nearer ++ [root]).Pairwise (· > ·)
  /-- Following the frames outwards ends with the root, as long as the fuel lasts. -/
  ended : ∀ fuel, nearer.length < fuel → fs.chainFrom fuel i = nearer ++ [root]
  /-- The fuel of a chain lasts. -/
  chain : fs.chain i = nearer ++ [root]
  /-- What is done with names at the frame does what it is for. -/
  answers : ∀ op : Operation, op.frame = i → op.Effect fs (op.perform fs).1 (op.perform fs).2

/-- A frame that lies in none is the whole way. -/
theorem Layered.founded_root (h : fs.Layered) (hf : fs.get? i = some f) (hp : f.parent = none) :
    fs.Founded i i [] where
  outward := .here
  ends := ⟨f, hf, hp⟩
  older := List.pairwise_singleton ..
  ended fuel hfuel := by
    obtain ⟨fuel, rfl⟩ := Nat.exists_eq_add_one_of_ne_zero (Nat.ne_of_gt hfuel)
    rw [chainFrom, hf]
    simp only [hp, List.nil_append]
  chain := by rw [h.chain_eq hf, hp, Option.map_none, Option.getD_none, List.nil_append]
  answers op e := Operation.effect h (e ▸ lt_next hf)

/-- The way from a frame goes through the one that it lies in. -/
theorem Founded.out {p : FrameId} (hp : fs.Founded root p nearer) (h : fs.Layered)
    (hf : fs.get? i = some f) (around : f.parent = some p) : fs.Founded root i (i :: nearer) where
  outward := .out hf around hp.outward
  ends := hp.ends
  older := by
    refine List.pairwise_cons.mpr ⟨fun j hj => ?_, hp.older⟩
    have below : j ≤ p := h.chain_le p (hp.chain ▸ hj)
    exact Nat.lt_of_le_of_lt below (h i f p hf around)
  ended fuel hfuel := by
    obtain ⟨fuel, rfl⟩ := Nat.exists_eq_add_one_of_ne_zero (Nat.ne_of_gt (Nat.zero_lt_of_lt hfuel))
    rw [chainFrom, hf]
    simp only [around, hp.ended fuel (Nat.lt_of_succ_lt_succ hfuel), List.cons_append]
  chain := by
    rw [h.chain_eq hf, around, Option.map_some, Option.getD_some, hp.chain, List.cons_append]
  answers op e := Operation.effect h (e ▸ lt_next hf)

/-- **Every frame is founded**, where frames lie in older ones and only the root lies in none. -/
theorem Layered.founded (h : fs.Layered)
    (only : ∀ i f, fs.get? i = some f → f.parent = none → i = root) :
    ∀ i < fs.next, ∃ nearer, fs.Founded root i nearer := by
  intro i
  induction i using Nat.strong_induction_on with
  | _ i ih =>
      intro hi
      obtain ⟨f, hf⟩ := Option.isSome_iff_exists.mp (get?_isSome.mpr hi)
      cases hp : f.parent with
      | none =>
          obtain rfl := only i f hf hp
          exact ⟨[], h.founded_root hf hp⟩
      | some p =>
          have hlt := h i f p hf hp
          obtain ⟨nearer, founded⟩ := ih p hlt (Nat.lt_trans hlt hi)
          exact ⟨i :: nearer, founded.out h hf hp⟩

/-- A name of the root is found there, unless it is shadowed. -/
theorem Founded.lookup (h : fs.Founded root i nearer) {name : String} {b : Binding}
    (hb : fs.binding? root name = some b) (free : ∀ j ∈ nearer, fs.binding? j name = none) :
    fs.lookup i name = b.read := by
  rw [Frames.lookup, h.chain, lookupIn_append free, lookupIn_of_binding? hb]

end Nondet.Frames
