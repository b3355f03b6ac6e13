import Nondet.Proofs.Pull.Move

/-!
# Pull — Gives

What a stream replies, whatever the fuel.  `s.Gives c r` says that some amount of fuel leads from
the stream `s` in the context `c` to the reply `r`; more fuel leads to the same reply, so there is
at most one (`Stream.Gives.unique`).  A stream gives what its move leads to (`Stream.gives_iff`).
-/

namespace Nondet

variable {σ α : Type}

/-! ### Fuel -/

/-- A move that has its replies keeps its own when more is replied. -/
theorem Move.run_mono {askStream askStream' : Stream → Context → Option (Reply Stream Outcome)}
    {askOdometer askOdometer' : Odometer → Context → Option (Reply Odometer (List Value))}
    (hs : ∀ s c r, askStream s c = some r → askStream' s c = some r)
    (ho : ∀ o c r, askOdometer o c = some r → askOdometer' o c = some r) {r : Reply σ α} :
    ∀ m : Move σ α, m.run askStream askOdometer = some r → m.run askStream' askOdometer' = some r
  | .answer _, h => h
  | .stream s c next, h => by
      obtain ⟨r₁, h₁, h₂⟩ := Option.bind_eq_some_iff.mp h
      exact Option.bind_eq_some_iff.mpr ⟨r₁, hs s c r₁ h₁, run_mono hs ho (next r₁) h₂⟩
  | .odometer o c next, h => by
      obtain ⟨r₁, h₁, h₂⟩ := Option.bind_eq_some_iff.mp h
      exact Option.bind_eq_some_iff.mpr ⟨r₁, ho o c r₁ h₁, run_mono hs ho (next r₁) h₂⟩

/-- One more unit of fuel changes no reply. -/
theorem ask_mono_succ : ∀ fuel,
    (∀ (s : Stream) c r, s.ask fuel c = some r → s.ask (fuel + 1) c = some r) ∧
      ∀ (o : Odometer) c r, o.ask fuel c = some r → o.ask (fuel + 1) c = some r
  | 0 => by simp
  | fuel + 1 => by
      obtain ⟨hs, ho⟩ := ask_mono_succ fuel
      refine ⟨fun s c r h => ?_, fun o c r h => ?_⟩
      · rw [Stream.ask_succ] at h ⊢
        exact Move.run_mono hs ho _ h
      · rw [Odometer.ask_succ] at h ⊢
        exact Move.run_mono hs ho _ h

/-- More fuel changes no reply of a stream. -/
theorem Stream.ask_mono {s : Stream} {c : Context} {r : Reply Stream Outcome} {fuel fuel' : Nat}
    (hle : fuel ≤ fuel') (h : s.ask fuel c = some r) : s.ask fuel' c = some r := by
  induction hle with
  | refl => exact h
  | step _ ih => exact (ask_mono_succ _).1 s c r ih

/-- More fuel changes no reply of an odometer. -/
theorem Odometer.ask_mono {o : Odometer} {c : Context} {r : Reply Odometer (List Value)}
    {fuel fuel' : Nat} (hle : fuel ≤ fuel') (h : o.ask fuel c = some r) :
    o.ask fuel' c = some r := by
  induction hle with
  | refl => exact h
  | step _ ih => exact (ask_mono_succ _).2 o c r ih

/-! ### Replies -/

/-- Asked in a context, a stream gives a reply. -/
def Stream.Gives (s : Stream) (c : Context) (r : Reply Stream Outcome) : Prop :=
  ∃ fuel, s.ask fuel c = some r

/-- Asked in a context, an odometer gives a reply. -/
def Odometer.Gives (o : Odometer) (c : Context) (r : Reply Odometer (List Value)) : Prop :=
  ∃ fuel, o.ask fuel c = some r

theorem Stream.Gives.unique {s : Stream} {c : Context} {r r' : Reply Stream Outcome}
    (h : s.Gives c r) (h' : s.Gives c r') : r = r' := by
  obtain ⟨fuel, h⟩ := h
  obtain ⟨fuel', h'⟩ := h'
  have e := Stream.ask_mono (Nat.le_max_left fuel fuel') h
  rw [Stream.ask_mono (Nat.le_max_right fuel fuel') h'] at e
  exact (Option.some.inj e).symm

theorem Odometer.Gives.unique {o : Odometer} {c : Context} {r r' : Reply Odometer (List Value)}
    (h : o.Gives c r) (h' : o.Gives c r') : r = r' := by
  obtain ⟨fuel, h⟩ := h
  obtain ⟨fuel', h'⟩ := h'
  have e := Odometer.ask_mono (Nat.le_max_left fuel fuel') h
  rw [Odometer.ask_mono (Nat.le_max_right fuel fuel') h'] at e
  exact (Option.some.inj e).symm

/-- The replies that a move leads to. -/
def Move.Leads : Move σ α → Reply σ α → Prop
  | .answer reply, r      => r = reply
  | .stream s c next, r   => ∃ r', s.Gives c r' ∧ (next r').Leads r
  | .odometer o c next, r => ∃ r', o.Gives c r' ∧ (next r').Leads r

/-- A move leads to a reply when some amount of fuel suffices for all that it asks. -/
theorem Move.leads_iff {r : Reply σ α} :
    ∀ m : Move σ α, m.Leads r ↔ ∃ fuel, m.run (Stream.ask fuel) (Odometer.ask fuel) = some r
  | .answer reply => by simp [Leads, run, eq_comm]
  | .stream s c next => by
      simp only [Leads, run, Option.bind_eq_some_iff]
      constructor
      · rintro ⟨r', ⟨fuel, h⟩, hl⟩
        obtain ⟨fuel', h'⟩ := (leads_iff (next r')).mp hl
        exact ⟨max fuel fuel', r', Stream.ask_mono (Nat.le_max_left ..) h,
          run_mono (fun _ _ _ => Stream.ask_mono (Nat.le_max_right ..))
            (fun _ _ _ => Odometer.ask_mono (Nat.le_max_right ..)) _ h'⟩
      · rintro ⟨fuel, r', h, h'⟩
        exact ⟨r', ⟨fuel, h⟩, (leads_iff (next r')).mpr ⟨fuel, h'⟩⟩
  | .odometer o c next => by
      simp only [Leads, run, Option.bind_eq_some_iff]
      constructor
      · rintro ⟨r', ⟨fuel, h⟩, hl⟩
        obtain ⟨fuel', h'⟩ := (leads_iff (next r')).mp hl
        exact ⟨max fuel fuel', r', Odometer.ask_mono (Nat.le_max_left ..) h,
          run_mono (fun _ _ _ => Stream.ask_mono (Nat.le_max_right ..))
            (fun _ _ _ => Odometer.ask_mono (Nat.le_max_right ..)) _ h'⟩
      · rintro ⟨fuel, r', h, h'⟩
        exact ⟨r', ⟨fuel, h⟩, (leads_iff (next r')).mpr ⟨fuel, h'⟩⟩

/-- Fuel is needed to make a move at all. -/
theorem exists_succ_iff {p : Nat → Prop} (h₀ : ¬ p 0) : (∃ n, p n) ↔ ∃ n, p (n + 1) := by
  constructor
  · rintro ⟨_ | n, h⟩
    · exact absurd h h₀
    · exact ⟨n, h⟩
  · rintro ⟨n, h⟩
    exact ⟨n + 1, h⟩

/-- **A stream gives what its move leads to.** -/
theorem Stream.gives_iff {s : Stream} {c : Context} {r : Reply Stream Outcome} :
    s.Gives c r ↔ (s.move c).Leads r := by
  rw [Move.leads_iff, Stream.Gives, exists_succ_iff (by simp)]
  simp only [Stream.ask_succ]

/-- An odometer gives what its move leads to. -/
theorem Odometer.gives_iff {o : Odometer} {c : Context} {r : Reply Odometer (List Value)} :
    o.Gives c r ↔ (o.move c).Leads r := by
  rw [Move.leads_iff, Odometer.Gives, exists_succ_iff (by simp)]
  simp only [Odometer.ask_succ]

end Nondet
