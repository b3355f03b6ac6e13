import Nondet.Proofs.Context.Fits
import Nondet.Proofs.Search.Link

/-!
# Search — Evolves

What may become of the frames while nobody assigns.  Frames and closures are only added, a frame
keeps everything but its table, and of the frames below a number only those on the stack change
theirs (`Frames.Evolves`).  So a choice, whose snapshot remembers at least the stack, puts back
every frame that existed when it was begun (`Frames.Evolves.restored`), and what a link says of a
store holds again.
-/

namespace Nondet

namespace Frames

/-- Of the frames below the number `b` only those in `S` change, and they change their tables. -/
structure Evolves (S : List FrameId) (b : Nat) (fs fs' : Frames) : Prop where
  next : fs.next ≤ fs'.next
  closures : fs.closures ≤ fs'.closures
  tables : ∀ {i f}, fs.get? i = some f → ∃ bs, fs'.get? i = some { f with bindings := bs }
  kept : ∀ {i}, i < b → i ∉ S → fs'.get? i = fs.get? i

namespace Evolves

variable {S S' : List FrameId} {b b' : Nat} {fs fs₁ fs₂ : Frames}

theorem refl (S : List FrameId) (b : Nat) (fs : Frames) : Evolves S b fs fs :=
  ⟨Nat.le_refl _, Nat.le_refl _, fun h => ⟨_, h⟩, fun _ _ => rfl⟩

theorem trans (h : Evolves S b fs fs₁) (h' : Evolves S b fs₁ fs₂) : Evolves S b fs fs₂ := by
  refine ⟨Nat.le_trans h.next h'.next, Nat.le_trans h.closures h'.closures, fun hf => ?_,
    fun hi hS => (h'.kept hi hS).trans (h.kept hi hS)⟩
  obtain ⟨bs, hf⟩ := h.tables hf
  obtain ⟨bs', hf⟩ := h'.tables hf
  exact ⟨bs', hf⟩

/-- Less is said of fewer frames, and when more of them may change. -/
theorem mono (h : Evolves S b fs fs₁) (hb : b' ≤ b) (hS : ∀ i < b', i ∈ S → i ∈ S') :
    Evolves S' b' fs fs₁ :=
  ⟨h.next, h.closures, h.tables,
    fun {i} hi hi' => h.kept (Nat.lt_of_lt_of_le hi hb) fun hm => hi' (hS i hi hm)⟩

theorem below (h : Evolves S b fs fs₁) (hb : b' ≤ b) : Evolves S b' fs fs₁ :=
  h.mono hb fun _ _ h => h

theorem push (frame : Frame) (hb : b ≤ fs.next) : Evolves S b fs (fs.push frame) := by
  refine ⟨by rw [next_push]; exact Nat.le_succ _, Nat.le_refl _,
    fun hf => ⟨_, get?_push_of_some hf frame⟩, fun hi _ => ?_⟩
  rw [get?_push, if_neg (Nat.ne_of_lt (Nat.lt_of_lt_of_le hi hb))]

theorem apply (change : Change) (h : change.frame ∈ S) : Evolves S b fs (fs.apply change) := by
  refine ⟨Nat.le_of_eq (next_apply change).symm, Nat.le_refl _, fun {i f} hf => ?_, fun {i} _ hi => ?_⟩
  · rw [Frames.apply, get?_set, hf]
    by_cases e : change.frame = i
    · exact ⟨_, if_pos e⟩
    · exact ⟨f.bindings, if_neg e⟩
  · rw [Frames.apply, get?_set, if_neg]
    rintro rfl
    exact hi h

theorem makeClosure (function : Function) (e : FrameId) :
    Evolves S b fs (fs.makeClosure function e).2 :=
  ⟨Nat.le_refl _, Nat.le_succ _, fun hf => ⟨_, hf⟩, fun _ _ => rfl⟩

end Evolves

/-- The same frames with other tables. -/
structure Retabled (fs fs' : Frames) : Prop where
  next : fs'.next = fs.next
  closures : fs'.closures = fs.closures
  get? : ∀ i, fs'.get? i = (fs.get? i).map fun f => { f with bindings := fs'.bindings i }

namespace Retabled

variable {fs fs₁ fs₂ : Frames}

theorem refl (fs : Frames) : Retabled fs fs := by
  refine ⟨rfl, rfl, fun i => ?_⟩
  cases hf : fs.get? i with
  | none => rfl
  | some f => rw [bindings_of_get? hf, Option.map_some]

theorem trans (h : Retabled fs fs₁) (h' : Retabled fs₁ fs₂) : Retabled fs fs₂ := by
  refine ⟨h'.next.trans h.next, h'.closures.trans h.closures, fun i => ?_⟩
  rw [h'.get?, h.get?, Option.map_map]
  rfl

theorem setBindings (i : FrameId) (bs : Bindings) : Retabled fs (fs.setBindings i bs) := by
  refine ⟨next_setBindings bs, rfl, fun j => ?_⟩
  cases hf : fs.get? j with
  | none => rw [get?_setBindings, hf]; simp
  | some f =>
      rw [get?_setBindings, bindings_setBindings, hf, bindings_of_get? hf]
      by_cases e : i = j
      · rw [if_pos e, if_pos ⟨e, lt_next hf⟩]
      · rw [if_neg e, if_neg fun h => e h.1, Option.map_some]

/-- Whatever a snapshot puts back is tables. -/
theorem restore (c : Context) (s : Snapshot) : Retabled c.frames (c.restore s).frames :=
  List.foldlRecOn (motive := Retabled c.frames) s.bindings _ (refl _)
    fun _ h p _ => h.trans (setBindings p.1 p.2)

end Retabled

/-- Frames are only added, and a frame keeps everything but its table. -/
def Remain (fs fs' : Frames) : Prop :=
  ∀ ⦃i f⦄, fs.get? i = some f → ∃ bs, fs'.get? i = some { f with bindings := bs }

namespace Remain

variable {fs fs₁ fs₂ : Frames}

theorem refl (fs : Frames) : Remain fs fs := fun _ _ hf => ⟨_, hf⟩

theorem trans (h : Remain fs fs₁) (h' : Remain fs₁ fs₂) : Remain fs fs₂ := fun _ _ hf => by
  obtain ⟨bs, hf⟩ := h hf
  obtain ⟨bs', hf⟩ := h' hf
  exact ⟨bs', hf⟩

theorem next_le (h : Remain fs fs₁) : fs.next ≤ fs₁.next := by
  by_contra hlt
  obtain ⟨f, hf⟩ := Option.isSome_iff_exists.mp (get?_isSome.mpr (Nat.lt_of_not_le hlt))
  obtain ⟨bs, hf⟩ := h hf
  exact Nat.lt_irrefl _ (lt_next hf)

end Remain

theorem Evolves.remain {S : List FrameId} {b : Nat} {fs fs' : Frames} (h : Evolves S b fs fs') :
    Remain fs fs' := fun _ _ hf => h.tables hf

theorem Retabled.remain {fs fs' : Frames} (h : Retabled fs fs') : Remain fs fs' := fun i _ hf =>
  ⟨fs'.bindings i, by rw [h.get?, hf, Option.map_some]⟩

/-- **A choice puts back every frame that existed when it was begun**, as far as frames only evolved
since. -/
theorem Evolves.restored {c₀ c : Context}
    (h : Evolves c₀.stack c₀.frames.next c₀.frames c.frames) :
    Evolves [] c₀.frames.next c₀.frames (c.restore c₀.snapshot).frames := by
  have back := Retabled.restore c c₀.snapshot
  have kept : ∀ {i f}, c₀.frames.get? i = some f →
      (c.restore c₀.snapshot).frames.get? i = some f := by
    intro i f hf
    obtain ⟨bs, hc⟩ := h.tables hf
    have same : (c.restore c₀.snapshot).frames.bindings i = f.bindings := by
      have tables := Context.bindings_foldl (i := i) c₀.frames.bindings
        (c₀.frames.reachable (c₀.global :: c₀.stack)) c.frames
      refine Eq.trans tables ?_
      by_cases hi : i ∈ c₀.frames.reachable (c₀.global :: c₀.stack)
      · rw [if_pos ⟨hi, lt_next hc⟩, bindings_of_get? hf]
      · -- What was not remembered was not on the stack, so it did not change.
        rw [if_neg fun h => hi h.1]
        have off : i ∉ c₀.stack := fun hs => hi (mem_reachable_of_root (List.mem_cons_of_mem _ hs))
        rw [bindings_of_get? (h.kept (lt_next hf) off ▸ hf)]
    rw [back.get?, hc, same]
    rfl
  -- Frames and closures that were made since stay.
  refine ⟨back.next ▸ h.next, back.closures ▸ h.closures, fun hf => ⟨_, kept hf⟩, fun hi _ => ?_⟩
  obtain ⟨f, hf⟩ := Option.isSome_iff_exists.mp (get?_isSome.mpr hi)
  rw [kept hf, hf]

/-- Putting back is a change of tables like any other: frames that were not on the stack are as
they were. -/
theorem Evolves.restore {c₀ c : Context}
    (h : Evolves c₀.stack c₀.frames.next c₀.frames c.frames) :
    Evolves c₀.stack c₀.frames.next c.frames (c.restore c₀.snapshot).frames := by
  have back := Retabled.restore c c₀.snapshot
  refine ⟨Nat.le_of_eq back.next.symm, Nat.le_of_eq back.closures.symm, fun hf => back.remain hf,
    fun hi hS => ?_⟩
  rw [h.restored.kept hi (List.not_mem_nil), h.kept hi hS]

end Frames

/-- What a link says holds as long as no frame changes that existed. -/
theorem Link.Holds.evolves {ρ : Link} {store fs fs' : Frames} (h : ρ.Holds store fs)
    (he : fs.Evolves [] fs.next fs') : ρ.Holds store fs' := by
  refine ⟨fun {i j} hi => ?_, h.frame_iff, fun {i j} hi => ?_, h.closure_iff⟩
  · obtain ⟨f, g, hf, hg, hl⟩ := h.frame hi
    exact ⟨f, g, hf, (he.kept (Frames.lt_next hg) List.not_mem_nil).trans hg, hl⟩
  · have old := h.closure hi
    exact ⟨old.1, Nat.lt_of_lt_of_le old.2 he.closures⟩

end Nondet
