import Nondet.Proofs.Pull.Custody
import Nondet.Proofs.Session.Asks
import Nondet.Proofs.Session.Names

/-!
# Session — Custody

What a script makes of the frames that were there before it: those of earlier scripts, the global
frame, and all others that closures may still refer to.  However often it is asked and whatever it
answers, their tables keep the names that they have, names without a value go on without one, and
constants keep their values (`earlier_frames_kept`).  The values of variables may change, and
nothing else does.

The script's own frame must be in place while it runs.  A script inside a function would put another
one there that outlives its call, and statements that were begun in one frame would go on in
another; `scripts_assign_earlier_frames` shows what that leads to.
-/

namespace Nondet

variable {R : Regime} {l : Limits} {K : Custody} {c c' : Context}

/-! ### Tables -/

/-- What may become of a binding to which values are only assigned. -/
inductive Binding.Keeps : Binding → Binding → Prop
  | unassigned : Keeps .unassigned .unassigned
  | constant (v : Value) : Keeps (.assigned v false) (.assigned v false)
  | reassigned (v w : Value) : Keeps (.assigned v true) (.assigned w true)

/-- The same names, with bindings that keep what they are. -/
def Bindings.Keeps (bs bs' : Bindings) : Prop :=
  ∀ name, Option.Rel Binding.Keeps (bs.get? name) (bs'.get? name)

theorem Binding.Keeps.refl : ∀ b : Binding, b.Keeps b
  | .unassigned       => .unassigned
  | .assigned v false => .constant v
  | .assigned v true  => .reassigned v v

theorem Bindings.Keeps.refl (bs : Bindings) : bs.Keeps bs := fun name => by
  cases bs.get? name with
  | none => exact .none
  | some b => exact .some (.refl b)

/-- What is mutable stays mutable, and what is constant stays constant. -/
theorem Binding.Keeps.isMutable {b b' : Binding} (h : b.Keeps b') : b'.isMutable = b.isMutable := by
  cases h <;> rfl

/-- Whatever a variable was when the record began, it was a variable. -/
theorem Bindings.Keeps.assigned {bs bs' : Bindings} (h : bs.Keeps bs') {name : String} {v : Value}
    (hv : bs'.get? name = some (.assigned v true)) (w : Value) :
    bs.Keeps (bs'.set name (.assigned w true)) := fun other => by
  rw [Bindings.get?_set]
  split
  next e =>
    have hk := h other
    rw [e, hv] at hk
    rw [e]
    generalize bs.get? name = b at hk ⊢
    cases hk with
    | some hk =>
        cases hk
        exact .some (.reassigned _ w)
  next => exact h other

/-- The tables that frames have, in the custody of what comes later. -/
def Frames.custody (fs : Frames) : Custody where
  first := fs.next
  table i bs := (fs.bindings i).Keeps bs
  assigned w h hv := h.assigned hv w

theorem Frames.respects_custody (fs : Frames) : fs.Respects fs.custody :=
  ⟨Nat.le_refl _, fun i _ => .refl (fs.bindings i)⟩

/-! ### Dialogues -/

namespace Dialogue

/-- Older tables are respected, and what is left of the script runs in its own frame. -/
structure Respects (K : Custody) (d : Dialogue) : Prop where
  frames : d.context.frames.Respects K
  rest : ∀ s, d.begun = true → d.solutions = ⟨some s⟩ →
    K.first ≤ d.context.current ∧ s.Respects K

variable {d d' : Dialogue}

/-- What is asked inside the script's node is asked in a frame that is not in custody. -/
theorem Respects.asked (h : d.Respects K) (hd : d.Disciplined l) {span : Span} {s : Stream}
    (hin : d.Inside span s c) : (respect K).stream s c := by
  cases hin with
  | script =>
      have hlevel : d.context.enterNested.Level := hd.level
      exact ⟨⟨h.frames.next, hlevel.enterProgram_frames ▸ h.frames.push _⟩, trivial⟩
  | rest hs hb =>
      obtain ⟨hcurrent, hrest⟩ := h.rest (.nested span s) hb hs
      exact ⟨⟨hcurrent, h.frames⟩, hrest⟩

theorem Respects.ask [R.ScriptFree] (hl : 1 ≤ l.maxNesting) (hf : d.Fits R)
    (hd : d.Disciplined l) (h : d.Respects K) {fuel : Nat} {answer : Answer} {rest : Solutions}
    (hn : d.solutions.next fuel d.context = some (answer, rest, c)) :
    (d.answered answer rest c).Respects K := by
  rcases hd.asks hl hf hn with ⟨-, -, e⟩ | ⟨span, s, c₀, r, hin, -, ha, hr, e⟩
  · rw [e]
    exact h
  · have inside := h.asked hd hin
    obtain ⟨⟨-, disciplined⟩, hframes, hrest⟩ := (respect_kept l K).gives ⟨ha, inside⟩ hr
    rw [answered_eq_replied e]
    cases r with
    | yield outcome inner c' =>
        refine ⟨hframes, fun s _ hs => ?_⟩
        cases hs
        -- A solution leaves the script in the frame that it was asked in.
        have current : c'.current = c₀.current := disciplined.1.current
        exact ⟨current ▸ inside.1.current, hrest outcome inner c' rfl⟩
    | finished c' => exact ⟨hframes, fun s _ hs => nomatch hs⟩
    | failed failure c' => exact ⟨hframes, fun s _ hs => nomatch hs⟩

theorem Respects.pulls [R.ScriptFree] (hl : 1 ≤ l.maxNesting) {answers : List Answer}
    (hp : d.Pulls answers d') (hf : d.Fits R) (hd : d.Disciplined l) (h : d.Respects K) :
    d'.Respects K := by
  induction hp with
  | nil d => exact h
  | cons first _ ih =>
      have step := Step.ask (R := R) first
      exact ih (hf.step Regime.ScriptFree.reads step) (hd.step hl hf step) (h.ask hl hf hd first)

/-- The global frame and those on the stack are there. -/
def Grounded (d : Dialogue) : Prop :=
  ∀ i ∈ d.context.global :: d.context.stack, i < d.context.frames.next

theorem grounded_start (options : SessionOptions) (host : Host) :
    (start options host).Grounded := by
  refine Session.start_induction (P := fun c => ∀ i ∈ c.global :: c.stack, i < c.frames.next)
    options host (by decide : ∀ i ∈ [0, 0], i < 1) fun c name hc => ?_
  change ∀ i ∈ c.global :: c.stack, i < (c.frames.set c.global name _).next
  rw [Frames.next_set]
  exact hc

theorem Grounded.define (h : d.Grounded) (name : String) (value : Value) :
    Grounded { d with session := d.session.define name value } := by
  change ∀ i ∈ d.context.global :: d.context.stack, i < (d.context.frames.set _ name _).next
  rw [Frames.next_set]
  exact h

theorem Grounded.step [R.ScriptFree] (hl : 1 ≤ l.maxNesting) (hf : d.Fits R)
    (hd : d.Disciplined l) (h : d.Grounded) (hs : Step R d d') : d'.Grounded := by
  cases hs with
  | define name hv => exact h.define name _
  | run hr => exact h
  | ask hn =>
      rcases hd.asks hl hf hn with ⟨-, -, e⟩ | ⟨span, s, c, r, hin, asked, ha, hr, e⟩
      · rw [e]
        exact h
      · obtain ⟨⟨-, hle, -⟩, disciplined⟩ := (discipline_kept l).gives ha hr
        rw [answered_eq_replied e, Grounded, context_replied, Reply.context_leaving]
        change ∀ i ∈ r.context.global :: r.context.stack, i < r.context.frames.next
        rw [disciplined.global, disciplined.stack asked.level]
        intro i hi
        refine Nat.lt_of_lt_of_le ?_ hle
        cases hin with
        | rest => exact h i hi
        | script =>
            -- The script's frame is the one that was added last.
            have hlevel : d.context.enterNested.Level := hd.level
            rw [hlevel.enterProgram_frames, Frames.next_push]
            rw [hlevel.enterProgram_stack] at hi
            rcases List.mem_cons.mp hi with rfl | hi
            · exact Nat.lt_succ_of_lt (h _ List.mem_cons_self)
            · rcases List.mem_cons.mp hi with rfl | hi
              · exact Nat.lt_succ_self _
              · exact Nat.lt_succ_of_lt (h i (List.mem_cons_of_mem _ hi))

theorem Grounded.leads [R.ScriptFree] (hl : 1 ≤ l.maxNesting) (hf : d.Fits R)
    (hd : d.Disciplined l) (h : d.Grounded) (hs : Leads R d d') : d'.Grounded := by
  induction hs with
  | refl => exact h
  | tail hs hlast ih =>
      exact ih.step hl (hf.leads Regime.ScriptFree.reads hs) (hd.leads hl hf hs) hlast

theorem Idle.grounded_leads (hi : d.Idle) (h : d.Grounded) (hs : Leads R d d') : d'.Grounded := by
  induction hs with
  | refl => exact h
  | tail hs hlast ih =>
      have idle := hi.leads hs
      cases hlast with
      | define name hv => exact ih.define name _
      | run hr => exact ih
      | ask hn =>
          obtain ⟨-, ⟨-, rfl⟩ | ⟨span, -, rfl⟩⟩ := idle.next hn
          · exact ih
          -- A failure leaves of the stack what was there before.
          · exact fun i hi => ih i (idle.stack ▸ idle.raised _ ▸ hi)

/-- Where no node may be evaluated, no frame changes. -/
theorem Idle.frames_pulls {answers : List Answer} (hp : d.Pulls answers d') (h : d.Idle) :
    d'.context.frames = d.context.frames := by
  induction hp with
  | nil d => rfl
  | cons first _ ih =>
      refine (ih (h.step (R := .any) (.ask first))).trans ?_
      obtain ⟨-, ⟨-, e⟩ | ⟨span, -, e⟩⟩ := h.next first <;> rw [e] <;> rfl

end Dialogue

/-- **What a script makes of the frames that were there before it.**  Let a script be run in any
session, and be asked any number of times, whatever it answers.  In the global frame, in the frames
of all earlier scripts and in every other frame that was there, the bound names are then the same as
before the first request, names without a value have none, constants have the values that they had,
and variables are variables. -/
theorem earlier_frames_kept (options : SessionOptions) (host : Host) (hh : host.Fits .scriptFree)
    {d₀ d : Dialogue} (h₀ : Dialogue.Leads .scriptFree (.start options host) d₀)
    (fresh : d₀.begun = false) {answers : List Answer} (pulled : d₀.Pulls answers d) :
    (∀ i ∈ d₀.context.global :: d₀.context.stack, i < d₀.context.frames.next) ∧
      ∀ i < d₀.context.frames.next,
        (d₀.context.frames.bindings i).Keeps (d.context.frames.bindings i) := by
  by_cases hl : 1 ≤ options.limits.maxNesting
  · have start : (Dialogue.start options host).Fits .scriptFree := Dialogue.fits_start options hh
    have orderly := Dialogue.disciplined_start options host
    have grounded := (Dialogue.grounded_start options host).leads hl start orderly h₀
    have before : d₀.Respects d₀.context.frames.custody :=
      ⟨d₀.context.frames.respects_custody, fun s hb => nomatch fresh.symm.trans hb⟩
    have after := before.pulls hl pulled (start.leads Regime.scriptFree_reads h₀)
      (orderly.leads hl start h₀)
    exact ⟨grounded, after.frames.tables⟩
  · -- Without any nesting no script gets as far as its statements.
    have limit : options.limits.maxNesting = 0 := by omega
    have idle := (Dialogue.idle_start options host limit).leads h₀
    refine ⟨?_, fun i _ => ?_⟩
    · exact (Dialogue.idle_start options host limit).grounded_leads
        (Dialogue.grounded_start options host) h₀
    · rw [idle.frames_pulls pulled]
      exact .refl _

/-- A variable of an earlier script is assigned, and its frame is kept. -/
theorem earlier_frames_kept_assigned :
    Prelude.host.Fits .scriptFree ∧
      ∃ d₀ answers d, Dialogue.Leads .scriptFree (.start ⟨.standard, true⟩ Prelude.host) d₀ ∧
        d₀.begun = false ∧ d₀.Pulls answers d ∧ answers.length = 2 ∧
          (d₀.context.frames.binding? 1 "x").isSome ∧
          (d₀.context.frames.bindings 1).Keeps (d.context.frames.bindings 1) := by
  have hh : Prelude.host.Fits .scriptFree :=
    Host.fits_of_asClosure? fun _ _ _ => Prelude.asClosure?_call
  have played : ((Dialogue.start ⟨.standard, true⟩ Prelude.host).play? "let x = true;" 20).any
      (fun d => (d.run? "x = false;").any fun d₀ => (d₀.pull? 20 2).any fun p =>
        p.1.length == 2 && decide (1 < d₀.context.frames.next) &&
          (d₀.context.frames.binding? 1 "x").isSome) = true := by decide +kernel
  obtain ⟨d₁, hd₁, played⟩ := (Option.any_eq_true _ _).mp played
  obtain ⟨d₀, hd₀, played⟩ := (Option.any_eq_true _ _).mp played
  obtain ⟨⟨answers, d⟩, hd, played⟩ := (Option.any_eq_true _ _).mp played
  obtain ⟨played, bound⟩ := Bool.and_eq_true_iff.mp played
  obtain ⟨twice, hlt⟩ := Bool.and_eq_true_iff.mp played
  have h₀ : Dialogue.Leads .scriptFree (.start ⟨.standard, true⟩ Prelude.host) d₀ :=
    (Dialogue.leads_of_play? hd₁).tail (Dialogue.step_of_run? hd₀)
  have fresh := (Dialogue.solutions_of_run? hd₀).1
  have pulled := Dialogue.pulls_of_pull? hd
  exact ⟨hh, d₀, answers, d, h₀, fresh, pulled, eq_of_beq twice, bound,
    (earlier_frames_kept ⟨.standard, true⟩ Prelude.host hh h₀ fresh pulled).2 1
      (of_decide_eq_true hlt)⟩

/-- Where a host builds a function around a script, calling it in a block moves the rest of the
caller into the frame of an earlier script, and a constant that had no value there gets one. -/
theorem scripts_assign_earlier_frames :
    ¬ ∀ d₀ answers d, Dialogue.Leads .any (.start ⟨.standard, false⟩ Prelude.host) d₀ →
        d₀.begun = false → d₀.Pulls answers d → ∀ i < d₀.context.frames.next,
          (d₀.context.frames.bindings i).Keeps (d.context.frames.bindings i) := by
  intro h
  let f : Value := .aroundScript
  let d₁ : Dialogue := .start ⟨.standard, false⟩ Prelude.host
  let d₂ : Dialogue := { d₁ with session := d₁.session.define "f" f }
  have hf : f.Fits .any d₁.context.frames.next := ⟨fun _ _ => trivial, trivial⟩
  have defined : Dialogue.Step .any d₁ d₂ := .define "f" hf
  -- A name without a value counts as mutable, and a constant does not.
  have played : (d₂.play? "function get() { return z; } const z = nope;" 30).any
      (fun d₃ => (d₃.run? "{ f(); } const z = true;").any fun d₀ => (d₀.pull? 40 1).any fun p =>
        decide (1 < d₀.context.frames.next) &&
          (d₀.context.frames.binding? 1 "z").any (·.isMutable) &&
          (p.2.context.frames.binding? 1 "z").any (!·.isMutable)) = true := by decide +kernel
  obtain ⟨d₃, hd₃, played⟩ := (Option.any_eq_true _ _).mp played
  obtain ⟨d₀, hd₀, played⟩ := (Option.any_eq_true _ _).mp played
  obtain ⟨⟨answers, d⟩, hd, played⟩ := (Option.any_eq_true _ _).mp played
  obtain ⟨played, after⟩ := Bool.and_eq_true_iff.mp played
  obtain ⟨hlt, before⟩ := Bool.and_eq_true_iff.mp played
  obtain ⟨b, hb, mutable⟩ := (Option.any_eq_true _ _).mp before
  obtain ⟨b', hb', constant⟩ := (Option.any_eq_true _ _).mp after
  have h₀ : Dialogue.Leads .any d₁ d₀ :=
    (Relation.ReflTransGen.head defined (Dialogue.leads_of_play? hd₃)).tail
      (Dialogue.step_of_run? hd₀)
  have kept := h d₀ answers d h₀ (Dialogue.solutions_of_run? hd₀).1 (Dialogue.pulls_of_pull? hd) 1
    (of_decide_eq_true hlt) "z"
  have hb : (d₀.context.frames.bindings 1).get? "z" = some b := hb
  have hb' : (d.context.frames.bindings 1).get? "z" = some b' := hb'
  rw [hb, hb'] at kept
  cases kept with
  | some kept => simp [kept.isMutable, mutable] at constant

end Nondet
