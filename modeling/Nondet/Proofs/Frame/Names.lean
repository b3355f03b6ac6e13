import Nondet.Proofs.Context.Fits

/-!
# Frame — Names

What becomes of the names in the tables of frames.  A frame gets the names of its scope when it is
created and when its statements are hoisted, and no others later: definitions and assignments bind
names that are there, and a choice goes back to a table with the same names.  Only a frame with
nothing around it, where the host defines its constants, gets more of them.  A `Ledger` is the point
of view: it says which other frame may get names all the same, and which names are known to have a
value.  `fs.Extends L fs'` is what any part of an evaluation makes of the frames.
-/

namespace Nondet

/-- The value of a name that stands for this. -/
def Binding.read : Binding → Except BindFailure Value
  | .assigned v _ => .ok v
  | .unassigned   => .error .unassigned

namespace Bindings

/-- The name has a value. -/
def Holds (bs : Bindings) (name : String) : Prop := ∃ v m, bs.get? name = some (.assigned v m)

/-- The same names are there, with a value or without. -/
def SameNames (bs bs' : Bindings) : Prop := ∀ name, (bs'.get? name).isSome = (bs.get? name).isSome

theorem SameNames.refl (bs : Bindings) : bs.SameNames bs := fun _ => rfl

theorem SameNames.trans {bs bs₁ bs₂ : Bindings} (h : bs.SameNames bs₁) (h' : bs₁.SameNames bs₂) :
    bs.SameNames bs₂ := fun name => (h' name).trans (h name)

theorem SameNames.symm {bs bs' : Bindings} (h : bs.SameNames bs') : bs'.SameNames bs :=
  fun name => (h name).symm

/-- Binding a name that is there changes no names. -/
theorem sameNames_set {bs : Bindings} {name : String} (h : (bs.get? name).isSome)
    (binding : Binding) : bs.SameNames (bs.set name binding) := fun other => by
  rw [get?_set]
  split
  next e => rw [e, h, Option.isSome_some]
  next => rfl

/-- A name that gets a value takes it from no other. -/
theorem Holds.set {bs : Bindings} {name other : String} (h : bs.Holds other) (v : Value) (m : Bool) :
    Holds (bs.set name (.assigned v m)) other := by
  rw [Holds, get?_set]
  split
  · exact ⟨v, m, rfl⟩
  · exact h

end Bindings

/-- What is on record about the tables of frames. -/
structure Ledger where
  /-- The frames that may get names. -/
  loose : FrameId → Prop
  /-- The names that have a value, and go on to have one. -/
  held : FrameId → String → Prop

namespace Ledger

/-- A record on which there is nothing. -/
def blank : Ledger := ⟨fun _ => False, fun _ _ => False⟩

/-- The same record, but that one more frame may get names. -/
def loosen (L : Ledger) (i : FrameId) : Ledger := { L with loose := fun j => L.loose j ∨ j = i }

/-- The frame gets no names any more: it lies in another, and it is not loose. -/
def Fixed (L : Ledger) (fs : Frames) (i : FrameId) : Prop :=
  ¬ L.loose i ∧ ∃ f p, fs.get? i = some f ∧ f.parent = some p

end Ledger

namespace Frames

variable {L : Ledger} {fs fs₁ fs₂ : Frames} {i : FrameId}

/-- The names that have a value according to the record have one. -/
def Holds (L : Ledger) (fs : Frames) : Prop := ∀ i name, L.held i name → (fs.bindings i).Holds name

/-- Frames are only added, and a frame keeps everything but its table.  Its names stay the same if
it is fixed, and what is on record to have a value keeps one. -/
structure Extends (L : Ledger) (fs fs' : Frames) : Prop where
  next : fs.next ≤ fs'.next
  tables : ∀ {i f}, fs.get? i = some f → ∃ bs, fs'.get? i = some { f with bindings := bs }
  names : ∀ {i}, L.Fixed fs i → (fs.bindings i).SameNames (fs'.bindings i)
  held : fs.Holds L → fs'.Holds L

/-- Binding a name replaces the table of the frame. -/
theorem set_eq_setBindings (fs : Frames) (i : FrameId) (name : String) (binding : Binding) :
    fs.set i name binding = fs.setBindings i ((fs.bindings i).set name binding) := by
  refine congrArg (fun all => (⟨all, fs.closures⟩ : Frames)) (Array.ext_getElem? fun j => ?_)
  rw [Array.getElem?_modify, Array.getElem?_modify]
  split
  next e =>
    subst e
    cases hf : fs.all[i]? with
    | none => rfl
    | some f => simp [bindings, get?, hf]
  next => rfl

namespace Extends

theorem refl (L : Ledger) (fs : Frames) : Extends L fs fs :=
  ⟨Nat.le_refl _, fun hf => ⟨_, hf⟩, fun _ => .refl _, id⟩

theorem fixed (h : Extends L fs fs₁) (hi : L.Fixed fs i) : L.Fixed fs₁ i := by
  obtain ⟨hl, f, p, hf, hp⟩ := hi
  obtain ⟨bs, hf⟩ := h.tables hf
  exact ⟨hl, _, p, hf, hp⟩

/-- A frame that was there before was fixed before. -/
theorem fixed_of_lt (h : Extends L fs fs₁) (hi : L.Fixed fs₁ i) (hlt : i < fs.next) :
    L.Fixed fs i := by
  obtain ⟨hl, f, p, hf, hp⟩ := hi
  obtain ⟨f₀, hf₀⟩ := Option.isSome_iff_exists.mp (get?_isSome.mpr hlt)
  obtain ⟨bs, hf'⟩ := h.tables hf₀
  rw [hf] at hf'
  cases hf'
  exact ⟨hl, f₀, p, hf₀, hp⟩

theorem trans (h : Extends L fs fs₁) (h' : Extends L fs₁ fs₂) : Extends L fs fs₂ := by
  refine ⟨Nat.le_trans h.next h'.next, fun hf => ?_,
    fun hi => (h.names hi).trans (h'.names (h.fixed hi)), h'.held ∘ h.held⟩
  obtain ⟨bs, hf⟩ := h.tables hf
  obtain ⟨bs', hf⟩ := h'.tables hf
  exact ⟨bs', hf⟩

/-- Less is said when more frames are loose. -/
theorem loosen (h : Extends L fs fs₁) (i : FrameId) : Extends (L.loosen i) fs fs₁ :=
  ⟨h.next, h.tables, fun hi => h.names ⟨fun hl => hi.1 (.inl hl), hi.2⟩, h.held⟩

theorem push (L : Ledger) (fs : Frames) (frame : Frame) : Extends L fs (fs.push frame) := by
  have old {i} (hi : i < fs.next) : (fs.push frame).bindings i = fs.bindings i := by
    rw [bindings_push, if_neg (Nat.ne_of_lt hi)]
  refine ⟨by rw [next_push]; exact Nat.le_succ _, fun hf => ⟨_, get?_push_of_some hf frame⟩,
    fun ⟨_, _, _, hf, _⟩ => by rw [old (lt_next hf)]; exact .refl _, fun hh i name hn => ?_⟩
  -- A frame that is not there has no names with values.
  obtain ⟨v, m, hv⟩ := hh i name hn
  have hi : i < fs.next := by
    by_contra hi
    have none : fs.get? i = none := by simpa [← get?_isSome] using hi
    simp [bindings, none] at hv
  rw [old hi]
  exact ⟨v, m, hv⟩

/-- What becomes of a frame after its creation is no concern of the frames before. -/
theorem of_push {frame : Frame} (h : Extends (L.loosen fs.next) (fs.push frame) fs₁) :
    Extends L fs fs₁ := by
  have hp := push L fs frame
  refine ⟨Nat.le_trans hp.next h.next, fun hf => ?_, fun hi => ?_, h.held ∘ hp.held⟩
  · obtain ⟨bs, hf⟩ := hp.tables hf
    obtain ⟨bs', hf⟩ := h.tables hf
    exact ⟨bs', hf⟩
  · obtain ⟨hl, f, p, hf, hpar⟩ := hi
    have hne := Nat.ne_of_lt (lt_next hf)
    refine (hp.names ⟨hl, f, p, hf, hpar⟩).trans (h.names ⟨?_, f, p, get?_push_of_some hf _, hpar⟩)
    exact fun h => h.elim hl hne

/-- A table is replaced by one with the same names, unless the frame is not fixed. -/
theorem setBindings {bs : Bindings} (hn : L.Fixed fs i → (fs.bindings i).SameNames bs)
    (hh : fs.Holds L → ∀ name, L.held i name → bs.Holds name) :
    Extends L fs (fs.setBindings i bs) := by
  refine ⟨Nat.le_of_eq (next_setBindings _).symm, fun {j f} hf => ?_, fun {j} hj => ?_,
    fun hold j name hheld => ?_⟩
  · rw [get?_setBindings, hf]
    by_cases e : i = j
    · exact ⟨bs, if_pos e⟩
    · exact ⟨f.bindings, if_neg e⟩
  · rw [bindings_setBindings]
    split
    next e =>
      obtain ⟨rfl, -⟩ := e
      exact hn hj
    next => exact .refl _
  · rw [bindings_setBindings]
    split
    next e =>
      obtain ⟨rfl, -⟩ := e
      exact hh hold name hheld
    next => exact hold j name hheld

/-- Giving a value to a name that is there, or to any in a frame that is not fixed. -/
theorem assigned {name : String} (h : L.Fixed fs i → (fs.binding? i name).isSome) (v : Value)
    (m : Bool) : Extends L fs (fs.set i name (.assigned v m)) := by
  rw [set_eq_setBindings]
  exact setBindings (fun hi => Bindings.sameNames_set (h hi) _)
    fun hold other hheld => (hold i other hheld).set v m

/-- Declaring a new name in a loose frame. -/
theorem declared {name : String} (h : fs.binding? i name = none) (hl : L.loose i) :
    Extends L fs (fs.set i name .unassigned) := by
  rw [set_eq_setBindings]
  refine setBindings (fun hi => absurd hl hi.1) fun hold other hheld => ?_
  obtain ⟨v, m, hv⟩ := hold i other hheld
  refine ⟨v, m, ?_⟩
  rw [Bindings.get?_set, if_neg, hv]
  -- The name that is declared was not there, so it had no value.
  rintro rfl
  rw [Frames.binding?, hv] at h
  cases h

theorem makeClosure (L : Ledger) (fs : Frames) (function : Function) (frame : FrameId) :
    Extends L fs (fs.makeClosure function frame).2 :=
  ⟨Nat.le_refl _, fun hf => ⟨_, hf⟩, fun _ => .refl _, id⟩

/-- A change that a definition comes to. -/
theorem definition {name : String} {value : Value} {constant : Bool} {change : Change}
    (h : fs.definition i name value constant = .ok change) : Extends L fs (fs.apply change) := by
  obtain ⟨hb, rfl⟩ := definition_eq_ok h
  exact assigned (fun _ => by rw [hb]; rfl) _ _

/-- A change that an assignment comes to. -/
theorem assignment {name : String} {value : Value} {change : Change}
    (h : fs.assignment i name value = .ok change) : Extends L fs (fs.apply change) := by
  obtain ⟨j, -, ⟨w, hb⟩, rfl⟩ := assignment_eq_ok h
  exact assigned (fun _ => by rw [hb]; rfl) _ _

end Extends

end Frames

/-! ### Snapshots -/

/-- The tables that a snapshot remembers have the names that the frames have, if these are fixed,
and values for all that is on record to have one. -/
def Snapshot.Settled (L : Ledger) (fs : Frames) (s : Snapshot) : Prop :=
  ∀ p ∈ s.bindings, p.1 < fs.next ∧ (L.Fixed fs p.1 → (fs.bindings p.1).SameNames p.2) ∧
    ∀ name, L.held p.1 name → p.2.Holds name

theorem Snapshot.Settled.mono {L : Ledger} {fs fs' : Frames} {s : Snapshot} (h : s.Settled L fs)
    (he : fs.Extends L fs') : s.Settled L fs' := fun p hp => by
  obtain ⟨hlt, hn, hh⟩ := h p hp
  refine ⟨Nat.lt_of_lt_of_le hlt he.next, fun hi => ?_, hh⟩
  have hi := he.fixed_of_lt hi hlt
  exact (he.names hi).symm.trans (hn hi)

/-- A snapshot of a context, as long as no frame is referred to before it exists. -/
theorem Context.settled_snapshot {L : Ledger} {c : Context} (h : c.frames.Holds L)
    (hr : ∀ i, c.Reaches i → i < c.frames.next) : c.snapshot.Settled L c.frames := by
  intro p hp
  obtain ⟨i, hi, rfl⟩ := List.mem_map.mp hp
  exact ⟨hr i (Frames.reaches_of_mem_reachable hi), fun _ => .refl _, fun name => h i name⟩

/-- Going back changes no names. -/
theorem Frames.Extends.restore {L : Ledger} {c : Context} {s : Snapshot}
    (h : s.Settled L c.frames) : c.frames.Extends L (c.restore s).frames := by
  suffices hs : ∀ (ps : List (FrameId × Bindings)) (fs : Frames), c.frames.Extends L fs →
      (∀ p ∈ ps, p ∈ s.bindings) →
        c.frames.Extends L (ps.foldl (fun fs p => fs.setBindings p.1 p.2) fs) from
    hs s.bindings c.frames (.refl _ _) fun _ hp => hp
  intro ps
  induction ps with
  | nil => exact fun fs he _ => he
  | cons p ps ih =>
      intro fs he hps
      rw [List.forall_mem_cons] at hps
      obtain ⟨-, hn, hh⟩ := h.mono he p hps.1
      exact ih _ (he.trans (.setBindings hn fun _ name => hh name)) hps.2

/-! ### The frames around a frame -/

namespace Frames

variable {L : Ledger} {fs fs' : Frames} {i p : FrameId} {f : Frame}

/-- Every frame was created after the one around it. -/
def Layered (fs : Frames) : Prop := ∀ i f p, fs.get? i = some f → f.parent = some p → p < i

/-- A regime that allows the frames that exist, and no others, keeps frames in older ones. -/
theorem Fits.layered {R : Regime} (hR : ∀ n i, R.frame n i ↔ i < n) (h : fs.Fits R) :
    fs.Layered := fun i f p hf hp =>
  (hR i p).mp ((h.get i f hf ((hR _ i).mpr (lt_next hf))).parent p hp)

/-- More fuel than the number of the frame is enough for all frames around it. -/
theorem Layered.chainFrom_eq (h : fs.Layered) : ∀ (i : FrameId) {fuel : Nat}, i < fuel →
    fs.chainFrom fuel i = fs.chain i := by
  intro i
  induction i using Nat.strong_induction_on with
  | _ i ih =>
      intro fuel hlt
      obtain ⟨fuel, rfl⟩ := Nat.exists_eq_add_one_of_ne_zero (Nat.ne_of_gt (Nat.zero_lt_of_lt hlt))
      rw [chain, chainFrom, chainFrom]
      cases hf : fs.get? i with
      | none => rfl
      | some f =>
          cases hp : f.parent with
          | none => simp only [hp]
          | some p =>
              have hpi := h i f p hf hp
              simp only [hp, ih p hpi (Nat.lt_of_lt_of_le hpi (Nat.le_of_lt_succ hlt)), ih p hpi hpi]

/-- A frame, and the frames around the one that it lies in. -/
theorem Layered.chain_eq (h : fs.Layered) (hf : fs.get? i = some f) :
    fs.chain i = i :: (f.parent.map fs.chain).getD [] := by
  rw [chain, chainFrom, hf]
  cases hp : f.parent with
  | none => simp only [hp, Option.map_none, Option.getD_none]
  | some p =>
      simp only [hp, Option.map_some, Option.getD_some, h.chainFrom_eq p (h i f p hf hp)]

/-- The first frame of a chain is the one that it starts from, and the others, if there are any, are
those around the frame in which that one lies. -/
theorem Layered.chain_eq_cons (h : fs.Layered) {k : FrameId} {outer : List FrameId}
    (hc : fs.chain i = k :: outer) : k = i ∧
      (outer = [] ∨ ∃ f p, fs.get? i = some f ∧ f.parent = some p ∧ fs.chain p = outer) := by
  cases hf : fs.get? i with
  | none =>
      rw [chain, chainFrom, hf] at hc
      cases hc
  | some f =>
      rw [h.chain_eq hf] at hc
      obtain ⟨rfl, around⟩ := List.cons.inj hc
      cases hp : f.parent with
      | none => exact ⟨rfl, .inl (by rw [← around, hp]; rfl)⟩
      | some p => exact ⟨rfl, .inr ⟨f, p, rfl, hp, by rw [← around, hp]; rfl⟩⟩

/-- The frames around a frame are older. -/
theorem Layered.chain_le (h : fs.Layered) : ∀ (i : FrameId) {j : FrameId}, j ∈ fs.chain i → j ≤ i := by
  intro i
  induction i using Nat.strong_induction_on with
  | _ i ih =>
      intro j hj
      cases hf : fs.get? i with
      | none =>
          rw [chain, chainFrom, hf] at hj
          cases hj
      | some f =>
          rw [h.chain_eq hf] at hj
          rcases List.mem_cons.mp hj with rfl | hj
          · exact Nat.le_refl _
          · cases hp : f.parent with
            | none =>
                rw [hp] at hj
                cases hj
            | some p =>
                rw [hp] at hj
                have hlt := h i f p hf hp
                exact Nat.le_trans (ih p hlt hj) (Nat.le_of_lt hlt)

/-- A frame that has the name is as far as one has to look. -/
theorem lookupIn_of_binding? {is : List FrameId} {name : String} {b : Binding}
    (hb : fs.binding? i name = some b) : fs.lookupIn name (i :: is) = b.read := by
  rw [lookupIn, hb]
  cases b <;> rfl

/-- A frame that does not have the name is passed over. -/
theorem lookupIn_of_none {is : List FrameId} {name : String} (hb : fs.binding? i name = none) :
    fs.lookupIn name (i :: is) = fs.lookupIn name is := by
  rw [lookupIn, hb]

/-- Frames without the name are all passed over. -/
theorem lookupIn_append {name : String} {outer : List FrameId} : ∀ {own : List FrameId},
    (∀ i ∈ own, fs.binding? i name = none) → fs.lookupIn name (own ++ outer) = fs.lookupIn name outer
  | [], _ => rfl
  | i :: own, h => by
      rw [List.forall_mem_cons] at h
      exact (lookupIn_of_none h.1).trans (lookupIn_append h.2)

/-- A name is read in a frame that has it. -/
theorem lookup_of_binding? (hf : fs.get? i = some f) {name : String} {b : Binding}
    (hb : fs.binding? i name = some b) : fs.lookup i name = b.read := by
  rw [lookup, chain, chainFrom, hf]
  exact lookupIn_of_binding? hb

/-- A name that the frame does not have is looked up in the frame around it. -/
theorem Layered.lookup_eq (h : fs.Layered) (hf : fs.get? i = some f) {name : String}
    (hb : fs.binding? i name = none) :
    fs.lookup i name = (f.parent.map (fs.lookup · name)).getD (.error .undefined) := by
  rw [lookup, h.chain_eq hf, lookupIn_of_none hb]
  cases f.parent <;> rfl

/-- A name that can be read can be read later, if its value is on record. -/
theorem Extends.lookup (he : Extends L fs fs') (h : fs.Layered) (h' : fs'.Layered)
    (hl : ∀ i, ¬ L.loose i) (hh : ∀ i name, (fs.bindings i).Holds name → (fs'.bindings i).Holds name)
    {name : String} : ∀ (i : FrameId) {v : Value}, fs.lookup i name = .ok v →
      ∃ w, fs'.lookup i name = .ok w := by
  intro i
  induction i using Nat.strong_induction_on with
  | _ i ih =>
      intro v hv
      cases hf : fs.get? i with
      | none =>
          rw [Frames.lookup, chain, chainFrom, hf] at hv
          cases hv
      | some f =>
          obtain ⟨bs, hf'⟩ := he.tables hf
          cases hb : fs.binding? i name with
          | some b =>
              rw [lookup_of_binding? hf hb] at hv
              cases b with
              | unassigned => cases hv
              | assigned w m =>
                  obtain ⟨w', m', hw⟩ := hh i name ⟨w, m, hb⟩
                  exact ⟨w', lookup_of_binding? hf' hw⟩
          | none =>
              rw [h.lookup_eq hf hb] at hv
              cases hp : f.parent with
              | none =>
                  rw [hp] at hv
                  cases hv
              | some p =>
                  rw [hp] at hv
                  -- The name is not in the frame, and will not be.
                  have same := he.names ⟨hl i, f, p, hf, hp⟩ name
                  have hb' : fs'.binding? i name = none := by
                    rw [binding?] at hb ⊢
                    rw [hb] at same
                    exact Option.isSome_eq_false_iff.mp same |> Option.isNone_iff_eq_none.mp
                  rw [h'.lookup_eq hf' hb', show _ = some p from hp]
                  exact ih p (h i f p hf hp) hv

end Frames

end Nondet
