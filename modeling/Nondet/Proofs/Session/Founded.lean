import Nondet.Proofs.Flatten
import Nondet.Proofs.Frame.Founded
import Nondet.Proofs.Pull.Anchor
import Nondet.Proofs.Pull.Keeps
import Nondet.Proofs.Session.Custody

/-!
# Session — Founded

The frames around a frame, in a session.  At every moment, between requests and while one is under
way, there are frames in hand: the global one, those on the stack, those that the streams keep which
wait for an answer, with their snapshots, and whatever these lead to.  From each of them one comes
outwards, through ever older frames, to the global frame, where the natives of the prelude are
constants (`frame_chains_founded`).

Two things are kept for this.  No frame is referred to before it exists, so that each lies in an
older one; and the global frame is the only one that lies in none (`Anchor`).
-/

namespace Nondet

variable {R : Regime} {K K' : Upkeep} {d d' : Dialogue} {c : Context} {q q' : Query}

/-! ### Upkeep in sessions -/

theorem Upkeep.context_of_allows (h : K.contract.Allows q) : K.context q.context := by
  cases q with
  | stream s c => exact h.1
  | odometer o c => exact h.1

theorem Upkeep.Upholds.context {σ α : Type} {choices : σ → List Snapshot} {r : Reply σ α}
    (h : K.Upholds choices r) : K.context r.context := by
  cases r with
  | yield a s c => exact h.1
  | finished c => exact h
  | failed failure c => exact h

/-- While a request is under way no frame goes away. -/
theorem Query.next_le_of_within (h : q.Within q') :
    q.context.frames.next ≤ q'.context.frames.next := by
  have here : (Upkeep.grown q.context.frames.next).contract.Allows q := by
    cases q with
    | stream s c => exact ⟨Nat.le_refl _, fun _ _ => trivial⟩
    | odometer o c => exact ⟨Nat.le_refl _, fun _ _ => trivial⟩
  exact Upkeep.context_of_allows ((Upkeep.grown _).kept.within h here)

namespace Dialogue

/-- What is kept up holds in the session, and what is left of its script can be asked. -/
structure Upholds (K : Upkeep) (d : Dialogue) : Prop where
  context : K.context d.context
  choices : ∀ s, d.solutions.stream = some s → K.Open s.choices

namespace Upholds

theorem imp (h : d.Upholds K) (hc : ∀ c, K.context c → K'.context c)
    (hs : ∀ s, K.snapshot s → K'.snapshot s) : d.Upholds K' :=
  ⟨hc _ h.context, fun s hsome snapshot hm => hs _ (h.choices s hsome snapshot hm)⟩

/-- Whatever is asked on the way is allowed. -/
theorem allows (h : d.Upholds K) (hq : d.Asks q) : K.contract.Allows q := by
  obtain ⟨run, hrun, hw⟩ := hq
  exact K.kept.within hw ⟨h.context, h.choices run hrun⟩

theorem define (h : d.Upholds K) {name : String} {value : Value}
    (hd : K.context (d.context.defineGlobal name value)) :
    Upholds K { d with session := d.session.define name value } := ⟨hd, h.choices⟩

/-- In a script that was not begun there are no choices. -/
theorem run (h : d.Upholds K) {source : String} {r : Session.Run}
    (hr : Session.run source = .ok r) :
    Upholds K { d with solutions := r.solutions, begun := false } := by
  obtain ⟨program, -, rfl⟩ := Session.run_eq_ok hr
  refine ⟨h.context, fun s hs => ?_⟩
  cases hs
  exact List.forall_mem_nil _

theorem ask (h : d.Upholds K) {fuel : Nat} {answer : Answer} {rest : Solutions}
    (hn : d.solutions.next fuel d.context = some (answer, rest, c)) :
    (d.answered answer rest c).Upholds K := by
  cases hs : d.solutions with
  | mk stream =>
    rw [hs] at hn
    cases stream with
    | none =>
        cases Solutions.next_none hn
        exact ⟨h.context, fun s hsome => nomatch hsome⟩
    | some s =>
        obtain ⟨r, hr, e⟩ := Solutions.next_eq_some hn
        have left := K.kept.gives ⟨h.context, h.choices s (by rw [hs])⟩ hr
        cases r with
        | yield outcome rest' c' =>
            cases e
            refine ⟨left.1, fun s' hs' => ?_⟩
            cases hs'
            exact left.2
        | finished c' =>
            cases e
            exact ⟨left, fun s' hs' => nomatch hs'⟩
        | failed failure c' =>
            cases e
            exact ⟨left, fun s' hs' => nomatch hs'⟩

end Upholds

/-! ### Constants of the global frame -/

/-- What a name of the prelude may stand for: the native of that name, or a constant that the host
has defined under the name meanwhile. -/
def Given (R : Regime) (d₀ d : Dialogue) (name : String) (v : Value) : Prop :=
  v = .native name ∨ ∃ d₁, Leads R d₀ d₁ ∧ Leads R { d₁ with session := d₁.session.define name v } d

theorem Given.step {d₀ : Dialogue} {name : String} {v : Value} (h : Given R d₀ d name v)
    (hs : Step R d d') : Given R d₀ d' name v :=
  h.imp_right fun ⟨d₁, before, after⟩ => ⟨d₁, before, after.tail hs⟩

end Dialogue

/-- The names that a session binds at its start. -/
def SessionOptions.names (options : SessionOptions) : List String :=
  if options.prelude then Prelude.natives.map Prod.fst else []

/-- The natives are bound one after the other, each to its own name. -/
theorem Context.binding?_natives {name : String} : ∀ (ps : List (String × Native)) (c : Context),
    c.global < c.frames.next →
    (name ∈ ps.map Prod.fst ∨
      c.frames.binding? c.global name = some (.assigned (.native name) false)) →
    let c' := ps.foldl (fun c p => c.defineGlobal p.1 (.native p.1)) c
    c'.frames.binding? c'.global name = some (.assigned (.native name) false)
  | [], _, _, h => h.resolve_left List.not_mem_nil
  | p :: ps, c, hlt, h => by
      refine binding?_natives ps (c.defineGlobal p.1 (.native p.1)) ?_ ?_
      · exact Nat.lt_of_lt_of_eq hlt (Frames.next_set _ _).symm
      rw [List.map_cons, List.mem_cons, or_assoc] at h
      let bound : Frames.Change := ⟨c.global, p.1, .assigned (.native p.1) false⟩
      have rebound : c.frames.Rebinds c.global p.1 bound.binding (c.frames.apply bound) :=
        Frames.rebinds_apply hlt
      by_cases e : name = p.1
      · subst e
        exact .inr ((rebound c.global p.1).trans (if_pos ⟨rfl, rfl⟩))
      · refine (h.resolve_left e).imp_right fun hb => ?_
        exact ((rebound c.global name).trans (if_neg fun both => e both.2)).trans hb

namespace Dialogue

/-- The global frame of a session, with what the names of the prelude stand for. -/
def anchor (R : Regime) (options : SessionOptions) (host : Host) (d : Dialogue) : Anchor :=
  .constants (Session.start options host).context.global options.names
    (Given R (.start options host) d)

/-- The global frame is the first one, and the only one so far. -/
theorem anchored_start (options : SessionOptions) (host : Host) :
    (start options host).Upholds (anchor R options host (start options host)).upkeep := by
  have first : (Session.start options host).context.global = 0 :=
    Session.start_induction (P := fun c => c.global = 0) options host rfl fun _ _ h => h
  have alone : ∀ i f, (Session.start options host).context.frames.get? i = some f →
      i = 0 ∧ f.parent = none := by
    refine Session.start_induction (P := fun c => ∀ i f, c.frames.get? i = some f →
      i = 0 ∧ f.parent = none) options host (fun i f hf => ?_) fun c name hc i f hf => ?_
    · change (Frames.empty.push (.root "global")).get? i = some f at hf
      rw [Frames.get?_push] at hf
      split at hf
      next e =>
        cases hf
        exact ⟨e, rfl⟩
      next => simp [Frames.empty, Frames.get?] at hf
    · change (c.frames.set c.global name (.assigned (.native name) false)).get? i = some f at hf
      rw [Frames.get?_set] at hf
      split at hf
      · obtain ⟨f₀, hf₀, rfl⟩ := Option.map_eq_some_iff.mp hf
        exact hc i f₀ hf₀
      · exact hc i f hf
  have there := grounded_start options host _ List.mem_cons_self
  refine ⟨⟨rfl, ?_, fun i f hf _ => (alone i f hf).1.trans first.symm, ?_⟩, fun s hs => by cases hs⟩
  · obtain ⟨f, hf⟩ := Option.isSome_iff_exists.mp (Frames.get?_isSome.mpr there)
    exact ⟨f, hf, (alone _ f hf).2⟩
  · intro name hname
    refine ⟨.native name, .inl rfl, ?_⟩
    change name ∈ options.names at hname
    change (Session.start options host).context.frames.binding?
      (Session.start options host).context.global name = _
    rw [SessionOptions.names] at hname
    rw [Session.start]
    split at hname
    next bound =>
      rw [if_pos bound]
      exact Context.binding?_natives _ (.empty options.limits host) (Nat.zero_lt_one) (.inl hname)
    next => cases hname

theorem Given.of_define {d₀ : Dialogue} (h : Leads R d₀ d) (name : String) (v : Value) :
    Given R d₀ { d with session := d.session.define name v } name v :=
  .inr ⟨d, h, .refl⟩

theorem anchored_leads (options : SessionOptions) (host : Host)
    (h : Leads R (start options host) d) : d.Upholds (anchor R options host d).upkeep := by
  induction h with
  | refl => exact anchored_start options host
  | @tail d d' hl hs ih =>
      -- What was given goes on to be given.
      have more : ∀ bs, (anchor R options host d).table bs → (anchor R options host d').table bs :=
        fun bs hbs name hname =>
          have ⟨v, hv, e⟩ := hbs name hname
          ⟨v, hv.step hs, e⟩
      have ih : d.Upholds (anchor R options host d').upkeep :=
        ih.imp (fun c hc => ⟨hc.1, hc.2.root, hc.2.only, more _ hc.2.table⟩)
          fun s hsnap p hp e => more _ (hsnap p hp e)
      cases hs with
      | @define name v hv =>
          refine ih.define ⟨ih.context.1, ih.context.2.set fun _ other hother => ?_⟩
          rw [Bindings.get?_set]
          split
          next e =>
            cases e
            exact ⟨v, .of_define hl name v, rfl⟩
          next => exact ih.context.2.table other hother
      | run hr => exact ih.run hr
      | ask hn => exact ih.ask hn

/-! ### Moments -/

/-- The frames that what is left of the script refers to. -/
def keeps (d : Dialogue) : List FrameId := (d.solutions.stream.map Stream.keeps).getD []

/-- A moment that the session passes through: the context, and the frames that streams refer to. -/
inductive Passes (d : Dialogue) : Context → List FrameId → Prop
  /-- Nothing is under way. -/
  | between : d.Passes d.context d.keeps
  /-- A request is made on the way to the answer of another, which waits for it. -/
  | asked {q q' : Query} (h : d.Asks q) (hw : q.Within q') : d.Passes q'.context q.keeps
  /-- A stream has replied to a request. -/
  | replied {s : Stream} {c : Context} {r : Reply Stream Outcome} (h : d.Asks (.stream s c))
      (hr : s.Gives c r) : d.Passes r.context (r.keeps Outcome.keeps Stream.keeps)
  /-- An odometer has replied to a request. -/
  | answered {o : Odometer} {c : Context} {r : Reply Odometer (List Value)}
      (h : d.Asks (.odometer o c)) (hr : o.Gives c r) :
      d.Passes r.context (r.keeps Values.keeps Odometer.keeps)

/-- What is kept up holds at every moment. -/
theorem Upholds.passes (h : d.Upholds K) {kept : List FrameId} (hp : d.Passes c kept) :
    K.context c := by
  cases hp with
  | between => exact h.context
  | asked hq hw => exact Upkeep.context_of_allows (K.kept.within hw (h.allows hq))
  | replied hq hr => exact (K.kept.gives (h.allows hq) hr).context
  | answered hq hr => exact (K.kept.odometer_gives (h.allows hq) hr).context

/-- At every moment the streams refer to frames that are there. -/
theorem Fits.passes (h : d.Fits .inRange) {kept : List FrameId} (hp : d.Passes c kept) :
    c.Fits .inRange ∧ ∀ i ∈ kept, i < c.frames.next := by
  cases hp with
  | between =>
      refine ⟨h.context, ?_⟩
      rw [keeps]
      cases hs : d.solutions.stream with
      | none => exact List.forall_mem_nil _
      | some s => exact (Regime.keeps_of_allows (h.allows ⟨s, hs, .refl⟩)).2
  | asked hq hw =>
      obtain ⟨-, hkeeps⟩ := Regime.keeps_of_allows (h.allows hq)
      obtain ⟨hc, -⟩ := Regime.keeps_of_allows (Regime.inRange.kept.within hw (h.allows hq))
      exact ⟨hc, fun i hi => Nat.lt_of_lt_of_le (hkeeps i hi) (Query.next_le_of_within hw)⟩
  | replied hq hr =>
      have left := Regime.inRange.kept.gives (h.allows hq) hr
      exact ⟨left.1, left.keeps (fun _ _ ho => Value.Fits.keeps ho) fun _ _ hs => hs.keeps⟩
  | answered hq hr =>
      have left := Regime.inRange.kept.odometer_gives (h.allows hq) hr
      exact ⟨left.1, left.keeps (fun _ _ hv => Values.Fits.keeps hv) fun _ _ ho => ho.keeps⟩

end Dialogue

/-- A frame is in hand when it is global, on the stack or kept, or when a frame in hand leads to
it. -/
inductive Context.InHand (c : Context) (kept : List FrameId) : FrameId → Prop
  | global : c.InHand kept c.global
  | stack {i : FrameId} (h : i ∈ c.stack) : c.InHand kept i
  | kept {i : FrameId} (h : i ∈ kept) : c.InHand kept i
  | step {i j : FrameId} {f : Frame} (h : c.InHand kept i) (hf : c.frames.get? i = some f)
      (hj : f.Leads j) : c.InHand kept j

theorem Context.Whole.lt_next_of_inHand (h : c.Whole) {kept : List FrameId}
    (hk : ∀ i ∈ kept, i < c.frames.next) {i : FrameId} (hi : c.InHand kept i) :
    i < c.frames.next := by
  induction hi with
  | global => exact h.global
  | stack hs => exact h.stack _ hs
  | kept hm => exact hk _ hm
  | step _ hf hj => exact h.frames _ _ hf _ hj

/-- **From every frame in hand one comes outwards to the global frame.**  At every moment of every
run of a session the global frame is the one that the session began with, and every frame in hand
exists; and from every frame that exists one comes, through finitely many frames, each older than
the last, to the global frame, around which there is none.  What is done with names at the frame
ends there at the latest.  A name of the prelude that none of the nearer frames has is found in the
global frame, and stands for its native, or for what the host has defined it as.  Of the host it is
asked that its natives and its constants refer to no frame that does not exist. -/
theorem frame_chains_founded (options : SessionOptions) {host : Host} (hh : host.Fits .inRange)
    {d : Dialogue} (hd : Dialogue.Leads .inRange (.start options host) d) {c : Context}
    {kept : List FrameId} (hp : d.Passes c kept) :
    c.global = (Session.start options host).context.global ∧
      (∀ i, c.InHand kept i → i < c.frames.next) ∧
        ∀ i < c.frames.next, ∃ nearer, c.frames.Founded c.global i nearer ∧
          ∀ name ∈ options.names, ∃ v, Dialogue.Given .inRange (.start options host) d name v ∧
            c.frames.binding? c.global name = some (.assigned v false) ∧
              ((∀ j ∈ nearer, c.frames.binding? j name = none) →
                c.frames.lookup i name = .ok v) := by
  have fits := (Dialogue.fits_start options hh).leads Regime.inRange_reads hd
  obtain ⟨hc, exist⟩ := fits.passes hp
  obtain ⟨anchored, alone⟩ := (Dialogue.anchored_leads options host hd).passes hp
  refine ⟨anchored, fun i hi => hc.whole.lt_next_of_inHand exist hi, fun i hi => ?_⟩
  -- Frames lie in older ones, and the global frame alone lies in none.
  have layered : c.frames.Layered := hc.frames.layered fun _ _ => Iff.rfl
  obtain ⟨nearer, founded⟩ := layered.founded alone.only i hi
  rw [anchored]
  refine ⟨nearer, founded, fun name hname => ?_⟩
  obtain ⟨v, given, bound⟩ := alone.table name hname
  exact ⟨v, given, bound, fun free => founded.lookup bound free⟩

/-- A block that has left the stack and waits to be asked again has its frame still, and in it finds
a native that no frame shadows. -/
theorem frame_chains_founded_waiting :
    Prelude.host.Fits .inRange ∧ ∃ d : Dialogue,
      Dialogue.Leads .inRange (.start ⟨.standard, true⟩ Prelude.host) d ∧
        d.Passes d.context d.keeps ∧ 2 ∉ d.context.stack ∧ d.context.InHand d.keeps 2 ∧
          2 < d.context.frames.next ∧
            d.context.frames.Founded d.context.global 2 [2, 1] ∧
              ∃ v, Dialogue.Given .inRange (.start ⟨.standard, true⟩ Prelude.host) d "display" v ∧
                d.context.frames.lookup 2 "display" = .ok v := by
  have hh : Prelude.host.Fits .inRange :=
    Host.fits_of_asClosure? fun _ _ _ => Prelude.asClosure?_call
  have played : ((Dialogue.start ⟨.standard, true⟩ Prelude.host).play?
      "\x7b amb(display, error); \x7d" 40).any (fun d =>
        decide (2 ∉ d.context.stack) && decide (2 ∈ d.keeps) &&
          decide (d.context.frames.chain 2 = [2, 1] ++ [0]) &&
            [2, 1].all fun j => (d.context.frames.binding? j "display").isNone) = true := by
    decide +kernel
  obtain ⟨d, hd, played⟩ := (Option.any_eq_true _ _).mp played
  obtain ⟨played, free⟩ := Bool.and_eq_true_iff.mp played
  obtain ⟨played, chain⟩ := Bool.and_eq_true_iff.mp played
  obtain ⟨left, waits⟩ := Bool.and_eq_true_iff.mp played
  have leads := Dialogue.leads_of_play? (R := .inRange) hd
  have inHand : d.context.InHand d.keeps 2 := .kept (of_decide_eq_true waits)
  obtain ⟨-, exist, frames⟩ := frame_chains_founded ⟨.standard, true⟩ hh leads .between
  obtain ⟨nearer, founded, natives⟩ := frames 2 (exist 2 inHand)
  obtain ⟨rfl, -⟩ := List.append_inj' (founded.chain.symm.trans (of_decide_eq_true chain)) rfl
  obtain ⟨v, given, -, found⟩ := natives "display" (by decide)
  have alone := found fun j hj => Option.isNone_iff_eq_none.mp (List.all_eq_true.mp free j hj)
  exact ⟨hh, d, leads, .between, of_decide_eq_true left, inHand, exist 2 inHand, founded, v, given,
    alone⟩

end Nondet
