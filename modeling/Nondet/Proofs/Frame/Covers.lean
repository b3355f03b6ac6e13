import Nondet.Proofs.Frame.Scopes

/-!
# Frame — Covers

The names that can be looked up from a frame without coming to a frame that lies in none.  `fs.Has
name i` says that the frame `i` or one around it has the name, and lies in another frame; in a
session with one script, whose global frame holds nothing, these are the names of the script.  A
frame that keeps its names and what is around it goes on to have them (`Frames.Has.mono`).
-/

namespace Nondet

namespace Frames

/-- A frame that lies in another has the name, and it is the frame `i` or around it. -/
inductive Has (fs : Frames) (name : String) : FrameId → Prop
  | here {i f p} (hf : fs.get? i = some f) (hp : f.parent = some p)
      (hb : (f.bindings.get? name).isSome) : Has fs name i
  | around {i f p} (hf : fs.get? i = some f) (hp : f.parent = some p) (h : Has fs name p) :
      Has fs name i

/-- The frame and those around it have all the names. -/
def Covers (fs : Frames) (i : FrameId) (names : List String) : Prop := ∀ name ∈ names, fs.Has name i

/-- The frame lies in another. -/
def Inner (fs : Frames) (i : FrameId) : Prop := ∃ f p, fs.get? i = some f ∧ f.parent = some p

/-- A frame that lies in another keeps everything but its table, and loses no names there. -/
def Retains (fs fs' : Frames) : Prop := ∀ ⦃i f p⦄, fs.get? i = some f → f.parent = some p →
  ∃ bs, fs'.get? i = some { f with bindings := bs } ∧
    ∀ name, (f.bindings.get? name).isSome → (bs.get? name).isSome

variable {fs fs₁ fs₂ : Frames} {i : FrameId} {name : String} {names : List String}

namespace Retains

theorem refl (fs : Frames) : fs.Retains fs := fun _ _ _ hf _ => ⟨_, hf, fun _ h => h⟩

theorem trans (h : fs.Retains fs₁) (h' : fs₁.Retains fs₂) : fs.Retains fs₂ := fun _ _ _ hf hp => by
  obtain ⟨bs, hf₁, hn⟩ := h hf hp
  obtain ⟨bs', hf₂, hn'⟩ := h' hf₁ hp
  exact ⟨bs', hf₂, fun name hb => hn' name (hn name hb)⟩

/-- What any part of an evaluation makes of frames retains their names. -/
theorem of_extends (h : fs.Extends .blank fs₁) : fs.Retains fs₁ := fun _ _ _ hf hp => by
  obtain ⟨bs, hf₁⟩ := h.tables hf
  have same := h.names ⟨id, _, _, hf, hp⟩
  rw [bindings_of_get? hf, bindings_of_get? hf₁] at same
  exact ⟨bs, hf₁, fun name hb => by rw [same name, hb]⟩

theorem push (fs : Frames) (frame : Frame) : fs.Retains (fs.push frame) :=
  of_extends (.push .blank fs frame)

end Retains

theorem Has.mono (h : fs.Has name i) (hr : fs.Retains fs₁) : fs₁.Has name i := by
  induction h with
  | here hf hp hb =>
      obtain ⟨bs, hf₁, hn⟩ := hr hf hp
      exact .here hf₁ hp (hn name hb)
  | around hf hp _ ih =>
      obtain ⟨bs, hf₁, -⟩ := hr hf hp
      exact .around hf₁ hp ih

theorem Inner.mono (h : fs.Inner i) (hr : fs.Retains fs₁) : fs₁.Inner i :=
  have ⟨_, p, hf, hp⟩ := h
  have ⟨_, hf₁, _⟩ := hr hf hp
  ⟨_, p, hf₁, hp⟩

theorem Covers.mono (h : fs.Covers i names) (hr : fs.Retains fs₁) : fs₁.Covers i names :=
  fun name hn => (h name hn).mono hr

/-- A frame that has some names covers them, and what the frame around it covers. -/
theorem Covers.inside {f : Frame} {p : FrameId} {own : List String} (h : fs.Covers p names)
    (hf : fs.get? i = some f) (hp : f.parent = some p)
    (hn : ∀ name ∈ own, (f.bindings.get? name).isSome) : fs.Covers i (own ++ names) :=
  fun name hmem => (List.mem_append.mp hmem).elim (fun ho => .here hf hp (hn name ho))
    fun hm => .around hf hp (h name hm)

end Frames

end Nondet
