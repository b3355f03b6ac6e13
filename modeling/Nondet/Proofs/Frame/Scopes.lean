import Nondet.Proofs.Frame.Names
import Nondet.Proofs.Tree.Site

/-!
# Frame — Scopes

How frames stand for scopes.  `fs.Stands began i s`: walking outwards from the frame `i` one meets a
frame for each scope around the place `s`, in the same order, with just the names that the scope
declares, and the last of them is the frame that was made when the script of `s` was begun.  Frames
that stand for scopes go on to do so (`Frames.Stands.mono`).  A name is then looked up in the frame
of the nearest scope that declares it, whether it has a value there or not
(`Frames.Stands.lookup_nearest`), and outside the script if no scope does.
-/

namespace Nondet

/-- The table has these names and no others. -/
def Bindings.Binds (bs : Bindings) (names : List String) : Prop :=
  ∀ name, (bs.get? name).isSome ↔ name ∈ names

theorem Bindings.Binds.sameNames {bs bs' : Bindings} {names : List String} (h : bs.Binds names)
    (hs : bs.SameNames bs') : bs'.Binds names := fun name => by rw [hs name, h name]

/-- Parameters that all have an argument are bound, and nothing else. -/
theorem Bindings.binds_ofArguments {params : List String} {arguments : List Value}
    (h : arguments.length = params.length) : (ofArguments params arguments).Binds params := by
  have names : ∀ (ps : List (String × Value)) (bs : Bindings) (name : String),
      (get? (ps.foldl (fun bs p => set p.1 (.assigned p.2 true) bs) bs) name).isSome ↔
        (bs.get? name).isSome ∨ name ∈ ps.map Prod.fst := by
    intro ps
    induction ps with
    | nil => simp
    | cons p ps ih =>
        intro bs name
        rw [List.foldl_cons, ih, get?_set, List.map_cons, List.mem_cons]
        by_cases e : name = p.1 <;> simp [e]
  intro name
  rw [ofArguments, names, List.map_fst_zip (Nat.le_of_eq h.symm)]
  simp

/-- The frame `i` stands for the innermost scope around `s`, and the frames around it for the other
scopes; `began i script` says that the script was begun in the frame `i`. -/
inductive Frames.Stands (began : FrameId → List Node → Prop) (fs : Frames) : FrameId → Site → Prop
  | script {i f script} (hb : began i script) (hf : fs.get? i = some f) (hp : f.parent.isSome)
      (hn : f.bindings.Binds (Node.declared script)) : Stands began fs i (.top script)
  | inside {i f p s names} (hf : fs.get? i = some f) (hp : f.parent = some p)
      (hn : f.bindings.Binds names) (h : Stands began fs p s) : Stands began fs i (s.inside names)

namespace Frames.Stands

variable {began began' : FrameId → List Node → Prop} {fs fs' : Frames} {i : FrameId} {s : Site}

/-- Frames that stand for scopes go on to do so. -/
theorem mono (hb : ∀ i script, began i script → began' i script) (he : fs.Extends .blank fs')
    (h : fs.Stands began i s) : fs'.Stands began' i s := by
  induction h with
  | @script i f script hbegan hf hp hn =>
      obtain ⟨p, hp'⟩ := Option.isSome_iff_exists.mp hp
      obtain ⟨bs, hf'⟩ := he.tables hf
      have same := he.names ⟨id, f, p, hf, hp'⟩
      rw [Frames.bindings_of_get? hf, Frames.bindings_of_get? hf'] at same
      exact .script (hb _ _ hbegan) hf' hp (hn.sameNames same)
  | @inside i f p s names hf hp hn _ ih =>
      obtain ⟨bs, hf'⟩ := he.tables hf
      have same := he.names ⟨id, f, p, hf, hp⟩
      rw [Frames.bindings_of_get? hf, Frames.bindings_of_get? hf'] at same
      exact .inside hf' hp (hn.sameNames same) ih

/-- A frame stands for scopes of a script that was begun. -/
theorem begun (h : fs.Stands began i s) : ∃ j, began j s.script := by
  induction h with
  | script hb _ _ _ => exact ⟨_, hb⟩
  | inside _ _ _ _ ih => exact ih

/-- **The frames around a frame correspond to the scopes, one to one and in order.** -/
theorem chain (hl : fs.Layered) (h : fs.Stands began i s) : ∃ own outer,
    fs.chain i = own ++ outer ∧ List.Forall₂ (fun i names => (fs.bindings i).Binds names) own s.scopes := by
  induction h with
  | @script i f script _ hf hp hn =>
      refine ⟨[i], _, hl.chain_eq hf, .cons ?_ .nil⟩
      rw [Frames.bindings_of_get? hf]
      exact hn
  | @inside i f p s names hf hp hn _ ih =>
      obtain ⟨own, outer, e, hall⟩ := ih
      refine ⟨i :: own, outer, ?_, .cons ?_ hall⟩
      · rw [hl.chain_eq hf, hp, Option.map_some, Option.getD_some, e, List.cons_append]
      · rw [Frames.bindings_of_get? hf]
        exact hn

/-- Of some frames that correspond to scopes, the first whose scope declares the name has it. -/
theorem lookupIn_nearest {name : String} {outer : List FrameId} : ∀ {own : List FrameId}
    {scopes : List (List String)},
    List.Forall₂ (fun i names => (fs.bindings i).Binds names) own scopes → ∀ {k : Nat},
      scopes.findIdx? (name ∈ ·) = some k → ∃ i b, (own ++ outer)[k]? = some i ∧
        fs.binding? i name = some b ∧ fs.lookupIn name (own ++ outer) = b.read
  | _, _, .nil, _, hk => nomatch hk
  | i :: own, first :: scopes, .cons hi hall, k, hk => by
      rw [List.findIdx?_cons] at hk
      by_cases hn : name ∈ first
      · obtain rfl : 0 = k := by simpa [hn] using hk
        obtain ⟨b, hb⟩ := Option.isSome_iff_exists.mp ((hi name).mpr hn)
        exact ⟨i, b, rfl, hb, lookupIn_of_binding? hb⟩
      · rw [if_neg (by simpa using hn)] at hk
        obtain ⟨k', hk', rfl⟩ := Option.map_eq_some_iff.mp hk
        -- The first scope does not declare the name, so its frame does not have it.
        have hb : fs.binding? i name = none := by
          rw [← Option.not_isSome_iff_eq_none]
          exact fun h => hn ((hi name).mp h)
        obtain ⟨j, b, hj, hjb, hv⟩ := lookupIn_nearest hall hk'
        exact ⟨j, b, hj, hjb, (lookupIn_of_none hb).trans hv⟩

/-- Frames whose scopes do not declare the name are all passed over. -/
theorem lookupIn_outer {name : String} {outer : List FrameId} : ∀ {own : List FrameId}
    {scopes : List (List String)},
    List.Forall₂ (fun i names => (fs.bindings i).Binds names) own scopes →
    (∀ names ∈ scopes, name ∉ names) → fs.lookupIn name (own ++ outer) = fs.lookupIn name outer
  | _, _, .nil, _ => rfl
  | i :: own, first :: scopes, .cons hi hall, hn => by
      rw [List.forall_mem_cons] at hn
      have hb : fs.binding? i name = none := by
        rw [← Option.not_isSome_iff_eq_none]
        exact fun h => hn.1 ((hi name).mp h)
      exact (lookupIn_of_none hb).trans (lookupIn_outer hall hn.2)

/-- **A name is looked up in the frame of the nearest scope that declares it.** -/
theorem lookup_nearest (hl : fs.Layered) (h : fs.Stands began i s) {name : String} {k : Nat}
    (hk : s.declaring? name = some k) : ∃ j b, (fs.chain i)[k]? = some j ∧
      fs.binding? j name = some b ∧ fs.lookup i name = b.read := by
  obtain ⟨own, outer, e, hall⟩ := h.chain hl
  rw [Frames.lookup, e]
  exact lookupIn_nearest hall hk

/-- A name that no scope declares is looked up outside the script. -/
theorem lookup_outer (hl : fs.Layered) (h : fs.Stands began i s) {name : String}
    (hk : s.declaring? name = none) :
    fs.lookup i name = fs.lookupIn name ((fs.chain i).drop s.scopes.length) := by
  obtain ⟨own, outer, e, hall⟩ := h.chain hl
  rw [Frames.lookup, e, ← hall.length_eq, List.drop_left]
  exact lookupIn_outer hall (by simpa [Site.declaring?] using hk)

end Frames.Stands

end Nondet
