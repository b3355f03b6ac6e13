import Nondet.Proofs.Context.Failing
import Nondet.Proofs.Pull.Names

/-!
# Context — Pending

Names that wait for their values.  A `Pending` is a set of names, each in a frame; the frames await
it while all of these names are declared and none has a value (`Frames.Awaits`).  Actions leave it so
unless they complete the declaration of one of the names (`Action.Spares`), and a snapshot that was
taken meanwhile brings it back (`Snapshot.Recalls`).  Hoisting makes all names wait that statements
declare, or it fails because a name is there already (`Action.on_hoist_ok`, `Action.on_hoist_error`).
-/

namespace Nondet

open Nondet.Action

/-- Names that are going to be given values, each in its frame. -/
abbrev Pending := FrameId → String → Prop

/-- More names of one frame. -/
def Pending.add (P : Pending) (i : FrameId) (names : List String) : Pending :=
  fun j name => P j name ∨ (j = i ∧ name ∈ names)

/-- The names are declared and have no values. -/
def Frames.Awaits (fs : Frames) (P : Pending) : Prop :=
  ∀ i name, P i name → fs.binding? i name = some .unassigned

variable {fs : Frames} {P : Pending} {i j : FrameId} {name : String} {c c' : Context} {α β : Type}

namespace Frames

theorem binding?_set (binding : Binding) (other : String) :
    (fs.set i name binding).binding? j other =
      if i = j ∧ j < fs.next ∧ other = name then some binding else fs.binding? j other := by
  rw [binding?, set_eq_setBindings, bindings_setBindings]
  by_cases h : i = j ∧ j < fs.next
  · obtain ⟨rfl, hlt⟩ := h
    rw [if_pos ⟨rfl, hlt⟩, Bindings.get?_set]
    by_cases e : other = name <;> simp [e, hlt, binding?]
  · rw [if_neg h, if_neg fun h' => h ⟨h'.1, h'.2.1⟩, binding?]

namespace Awaits

theorem add (h : fs.Awaits P) {names : List String}
    (hn : ∀ name ∈ names, fs.binding? i name = some .unassigned) : fs.Awaits (P.add i names) := by
  rintro j name (hp | ⟨rfl, hm⟩)
  · exact h j name hp
  · exact hn name hm

/-- Giving a value to another name. -/
theorem set (h : fs.Awaits P) (hn : ¬ P i name) (binding : Binding) :
    (fs.set i name binding).Awaits P := by
  intro j other hp
  rw [binding?_set, if_neg]
  · exact h j other hp
  · rintro ⟨rfl, -, rfl⟩
    exact hn hp

theorem push (h : fs.Awaits P) (frame : Frame) : (fs.push frame).Awaits P := by
  intro j other hp
  have waits := h j other hp
  have old : j < fs.next := by
    by_contra hj
    have none : fs.get? j = none := by
      rw [← Option.not_isSome_iff_eq_none, get?_isSome]
      exact hj
    rw [binding?, bindings, none] at waits
    cases waits
  rw [binding?, bindings_push, if_neg (Nat.ne_of_lt old)]
  exact waits

/-- Declaring a name. -/
theorem declaration (h : fs.Awaits P) (hb : fs.binding? i name = none) :
    (fs.set i name .unassigned).Awaits P :=
  h.set (fun hp => by rw [h i name hp] at hb; cases hb) _

/-- An assignment goes to a name that has a value already. -/
theorem assignment {value : Value} {change : Change} (h : fs.Awaits P)
    (ha : fs.assignment i name value = .ok change) : (fs.apply change).Awaits P := by
  obtain ⟨k, -, ⟨w, hb⟩, rfl⟩ := assignment_eq_ok ha
  exact h.set (fun hp => by rw [h k name hp] at hb; cases hb) _

end Awaits

end Frames

/-! ### Snapshots -/

/-- Going back to the snapshot takes the values of the names away. -/
def Snapshot.Recalls (s : Snapshot) (P : Pending) : Prop :=
  ∀ i name, P i name → ∀ c : Context, i < c.frames.next →
    (c.restore s).frames.binding? i name = some .unassigned

theorem Snapshot.Recalls.awaits {s : Snapshot} (h : s.Recalls P)
    (hi : ∀ i name, P i name → i < c.frames.next) : (c.restore s).frames.Awaits P :=
  fun i name hp => h i name hp c (hi i name hp)

/-- A snapshot remembers what the frames on the stack await. -/
theorem Context.recalls_snapshot (h : c.frames.Awaits P) (hs : ∀ i name, P i name → i ∈ c.stack) :
    c.snapshot.Recalls P := by
  intro i name hp c' hlt
  have found : i ∈ c.frames.reachable (c.global :: c.stack) :=
    Frames.mem_reachable_of_root (List.mem_cons_of_mem c.global (hs i name hp))
  have table := Context.bindings_foldl c.frames.bindings
    (c.frames.reachable (c.global :: c.stack)) c'.frames (i := i)
  rw [if_pos ⟨found, hlt⟩] at table
  exact (congrArg (Bindings.get? · name) table).trans (h i name hp)

/-! ### Actions -/

/-- A result of the action in the frame `i` leaves the names without values. -/
def Action.Spares (i : FrameId) (P : Pending) (a : Action α) : Prop :=
  ∀ c x c', c.current = i → c.frames.Awaits P → a.on c = (.ok x, c') →
    c'.current = i ∧ c'.frames.Awaits P

namespace Action.Spares

theorem pure (a : α) : Spares i P (pure a : Action α) := by
  rintro c x c' hc h ⟨⟩
  exact ⟨hc, h⟩

theorem raise (failure : Failure) : Spares i P (raise failure : Action α) := nofun

theorem bind {a : Action α} {f : α → Action β} (ha : Spares i P a) (hf : ∀ x, Spares i P (f x)) :
    Spares i P (a >>= f) := by
  intro c x c' hc h e
  rw [on_bind] at e
  rcases hr : a.on c with ⟨failure | y, c₁⟩ <;> rw [hr] at e
  · cases e
  · obtain ⟨hc₁, h₁⟩ := ha c y c₁ hc h hr
    exact hf y c₁ x c' hc₁ h₁ e

theorem lookup (name : String) (span : Span) : Spares i P (lookup name span) := by
  intro c x c' hc h e
  rw [on_lookup] at e
  split at e <;> cases e
  exact ⟨hc, h⟩

theorem define (hn : ¬ P i name) (value : Value) (constant : Bool) (span : Span) :
    Spares i P (define name value constant span) := by
  rintro c x c' rfl h e
  rw [on_define, on_change] at e
  split at e
  next ch hd =>
    cases e
    obtain ⟨-, rfl⟩ := Frames.definition_eq_ok hd
    exact ⟨rfl, h.set hn _⟩
  next => cases e

theorem assign (name : String) (value : Value) (span : Span) :
    Spares i P (assign name value span) := by
  intro c x c' hc h e
  rw [on_assign, on_change] at e
  split at e
  next ch ha =>
    cases e
    exact ⟨hc, h.assignment ha⟩
  next => cases e

theorem makeClosure (function : Function) : Spares i P (makeClosure function) := by
  rintro c x c' hc h ⟨⟩
  exact ⟨hc, h⟩

theorem callNative (span : Span) (name : String) (arguments : List Value) :
    Spares i P (callNative span name arguments) := by
  intro c x c' hc h e
  rw [on_callNative] at e
  rcases hr : c.host.call name arguments with (_ | _ | _ | _) | v <;> rw [hr] at e <;> cases e
  exact ⟨hc, h⟩

theorem computes : Computes fun {_} a => Spares i P a :=
  ⟨⟨pure, raise, bind⟩, lookup, assign, makeClosure, callNative⟩

theorem deferred (what : Deferred) (hn : ∀ name ∈ what.names, ¬ P i name) : Spares i P what.run :=
  computes.deferred what fun name hname => define (hn name hname)

theorem transform (f : Transform) (hn : ∀ name ∈ f.names, ¬ P i name) (outcome : Outcome) :
    Spares i P (f.run outcome) :=
  computes.transform f (fun name hname => define (hn name hname)) outcome

end Action.Spares

/-! ### Hoisting -/

/-- Statements that could be hoisted declare each name once and none that was there; now the frame
awaits them, as well as what was awaited before. -/
theorem Action.on_hoist_ok : ∀ {ns : List Node} {c c' : Context}, c.current < c.frames.next →
    (hoist ns).on c = (.ok ⟨⟩, c') →
      c'.current = c.current ∧ (Node.declared ns).Nodup ∧
      (∀ name ∈ Node.declared ns, c.frames.binding? c.current name = none) ∧
      ∀ P, c.frames.Awaits P → c'.frames.Awaits (P.add c.current (Node.declared ns))
  | [], c, _, _, rfl => ⟨rfl, .nil, nofun, fun P h => h.add nofun⟩
  | n :: ns, c, c', hc, e => by
      rw [on_hoist_cons] at e
      cases hn : n.declaredName? with
      | none =>
          rw [hn] at e
          rw [Node.declared_cons_of_none hn]
          exact on_hoist_ok hc e
      | some own =>
          rw [hn] at e
          simp only [on_bind] at e
          rcases on_declare_cases own n.span c with ⟨c₁, hd, hcur, hb, hf⟩ | ⟨_, _, _, _, hd⟩ <;>
            rw [hd] at e
          · have hc₁ : c₁.current < c₁.frames.next := by
              rw [hcur, hf, Frames.next_set]
              exact hc
            have waits : c₁.frames.binding? c.current own = some .unassigned := by
              rw [hf, Frames.binding?_set, if_pos ⟨rfl, hc, rfl⟩]
            obtain ⟨hcur', hnodup, habsent, hkeeps⟩ := on_hoist_ok hc₁ e
            rw [hcur] at hcur' habsent hkeeps
            -- The name itself is there when the others are hoisted.
            have new : own ∉ Node.declared ns := fun hm => by
              rw [habsent own hm] at waits
              cases waits
            rw [Node.declared_cons_of_some hn]
            refine ⟨hcur', List.nodup_cons.mpr ⟨new, hnodup⟩,
              List.forall_mem_cons.mpr ⟨hb, fun name hm => ?_⟩, fun P h => ?_⟩
            · have absent := habsent name hm
              rw [hf, Frames.binding?_set, if_neg] at absent
              · exact absent
              · rintro ⟨-, -, rfl⟩
                exact new hm
            · have first : c₁.frames.Awaits (P.add c.current [own]) :=
                (hf ▸ h.declaration hb : c₁.frames.Awaits P).add (List.forall_mem_singleton.mpr waits)
              have later := hkeeps _ first
              rintro j name (hp | ⟨rfl, hm⟩)
              · exact later j name (.inl (.inl hp))
              · rcases List.mem_cons.mp hm with rfl | hm
                · exact later _ name (.inl (.inr ⟨rfl, List.mem_singleton_self _⟩))
                · exact later _ name (.inr ⟨rfl, hm⟩)
          · cases e

/-- Hoisting only fails at a name that is declared twice or was there already. -/
theorem Action.on_hoist_error : ∀ {ns : List Node} {c c' : Context} {failure : Failure},
    c.current < c.frames.next → (hoist ns).on c = (.error failure, c') →
      ∃ name isMutable span, failure = .mistake (.redeclared name isMutable) span ∧
        name ∈ Node.declared ns ∧
        ((c.frames.binding? c.current name).isSome ∨ 1 < (Node.declared ns).count name)
  | n :: ns, c, c', failure, hc, e => by
      rw [on_hoist_cons] at e
      cases hn : n.declaredName? with
      | none =>
          rw [hn] at e
          rw [Node.declared_cons_of_none hn]
          exact on_hoist_error hc e
      | some own =>
          rw [hn] at e
          simp only [on_bind] at e
          rw [Node.declared_cons_of_some hn]
          rcases on_declare_cases own n.span c with ⟨c₁, hd, hcur, -, hf⟩ | ⟨b, _, hb, rfl, hd⟩ <;>
            rw [hd] at e
          · have hc₁ : c₁.current < c₁.frames.next := by
              rw [hcur, hf, Frames.next_set]
              exact hc
            obtain ⟨name, m, span, rfl, hm, hthere⟩ := on_hoist_error hc₁ e
            rw [hcur, hf, Frames.isSome_binding?_set hc] at hthere
            refine ⟨name, m, span, rfl, List.mem_cons_of_mem _ hm, ?_⟩
            rcases hthere with (rfl | h) | h
            · -- The name was declared just before.
              rw [List.count_cons_self]
              exact .inr (Nat.succ_lt_succ (List.count_pos_iff.mpr hm))
            · exact .inl h
            · exact .inr (Nat.lt_of_lt_of_le h (List.count_le_count_cons ..))
          · cases e
            exact ⟨own, _, _, rfl, List.mem_cons_self, .inl (hb ▸ rfl)⟩

end Nondet
