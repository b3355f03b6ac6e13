import Nondet.Proofs.Pull.Depth
import Nondet.Proofs.Session.Asks
import Nondet.Proofs.Session.Names

/-!
# Session — Depth

How many frames may be on the stack.  The limit is on calls: one that is asked with that many frames
on the stack fails, and any other is entered, so no call's frame ever lies above the limit
(`calls_below_limit`).  Blocks and scripts put their frames on the stack whatever the limit says
(`blocks_above_limit`).
-/

namespace Nondet

open Nondet.Action

variable {l : Limits} {c : Context} {m : Nat}

namespace Dialogue

/-- Between two requests only frames of scripts are on the stack, and no call in what is left lies
above the limit. -/
structure Capped (m : Nat) (d : Dialogue) : Prop where
  stack : ∀ i ∈ d.context.stack, d.context.frames.IsScope i
  rest : ∀ s, d.begun = true → d.solutions = ⟨some s⟩ → s.Capped d.context.frames m d.context.depth

variable {d d' : Dialogue}

theorem capped_start (options : SessionOptions) (host : Host) : (start options host).Capped m := by
  have scopes : ∀ i ∈ (start options host).context.stack,
      (start options host).context.frames.IsScope i := by
    refine Session.start_induction (P := fun c => ∀ i ∈ c.stack, c.frames.IsScope i) options host
      (fun i hi => ?_) fun c name hc i hi => ?_
    · obtain rfl : i = 0 := List.mem_singleton.mp hi
      exact ⟨_, rfl, rfl⟩
    · exact c.frames.keepsScopes_set _ _ _ i (hc i hi)
  exact ⟨scopes, fun _ _ hs => nomatch hs⟩

/-- What is asked inside the script's node is asked with frames of scripts on the stack. -/
theorem Capped.asked (h : d.Capped m) (hd : d.Disciplined l) {span : Span} {s : Stream}
    (hin : d.Inside span s c) :
    (∀ i ∈ c.stack, c.frames.IsScope i) ∧ s.Capped c.frames m c.depth := by
  cases hin with
  | script =>
      have hlevel : d.context.enterNested.Level := hd.level
      refine ⟨fun i hi => ?_, trivial⟩
      rw [hlevel.enterProgram_stack] at hi
      rw [hlevel.enterProgram_frames]
      rcases List.mem_cons.mp hi with rfl | hi
      · exact ⟨_, by rw [Frames.get?_push, if_pos rfl], rfl⟩
      · exact (Frames.Extends.push .blank _ _).keepsScopes i (h.stack i hi)
  | rest hs hb => exact ⟨h.stack, h.rest (.nested span s) hb hs⟩

theorem Capped.step (hl : 1 ≤ l.maxNesting) (hf : d.Fits .ordinary) (hd : d.Disciplined l)
    (ht : d.Tabled .blank) (h : d.Capped l.maxDepth) (hs : Step .ordinary d d') :
    d'.Capped l.maxDepth := by
  have longer := (ht.step hl hf hd hs).2.keepsScopes
  cases hs with
  | define name hv =>
      exact ⟨fun i hi => longer i (h.stack i hi), fun s hb hs => (h.rest s hb hs).mono longer⟩
  | run hr => exact ⟨h.stack, fun s hb => nomatch hb⟩
  | ask hn =>
      rcases hd.asks hl hf hn with ⟨-, -, e⟩ | ⟨span, s, c, r, hin, asked, ha, hr, e⟩
      · rw [e]
        exact h
      · obtain ⟨scopes, hs⟩ := h.asked hd hin
        obtain ⟨⟨⟨-, hd'⟩, he, -⟩, hy⟩ := (heights_kept l).gives
          ⟨⟨ha, ht.asked hd hin⟩, .of_scopes scopes, hs⟩ hr
        have same : r.context.leaveNested.stack = c.stack := hd'.stack asked.level
        rw [answered_eq_replied e]
        have hcontext := (context_replied d (r.leaving span)).trans (Reply.context_leaving span r)
        refine ⟨?_, fun s' _ hs' => ?_⟩
        · rw [hcontext, same]
          exact fun i hi => he.keepsScopes i (scopes i hi)
        · rw [hcontext, Context.depth, same]
          cases r with
          | yield outcome rest c' =>
              cases hs'
              exact hy outcome rest c' rfl
          | finished c' => cases hs'
          | failed failure c' => cases hs'

theorem Capped.leads (hl : 1 ≤ l.maxNesting) (hf : d.Fits .ordinary) (hd : d.Disciplined l)
    (ht : d.Tabled .blank) (h : d.Capped l.maxDepth) (hs : Leads .ordinary d d') :
    d'.Capped l.maxDepth := by
  induction hs with
  | refl => exact h
  | tail hs hlast ih =>
      exact ih.step hl (hf.leads Regime.ScriptFree.reads hs) (hd.leads hl hf hs)
        (ht.leads hl hf hd hs).1 hlast

/-- A session that idles keeps its only frame. -/
theorem Capped.idle {R : Regime} (h : d.Capped m) (hi : d.Idle) (hs : Leads R d d') :
    d'.Capped m := by
  induction hs with
  | refl => exact h
  | @tail d₁ _ hs hlast ih =>
      have idle := hi.leads hs
      cases hlast with
      | @define name v hv =>
          have longer := d₁.context.frames.keepsScopes_set d₁.context.global name (.assigned v false)
          exact ⟨fun i hi => longer i (ih.stack i hi), fun s hb hs => (ih.rest s hb hs).mono longer⟩
      | run hr => exact ⟨ih.stack, fun s hb => nomatch hb⟩
      | ask hn =>
          obtain ⟨rfl, ⟨rfl, rfl⟩ | ⟨span, rfl, rfl⟩⟩ := idle.next hn
          · exact ⟨ih.stack, fun s _ hs => nomatch hs⟩
          · exact ⟨fun i hi => ih.stack i (List.mem_of_mem_drop hi), fun s _ hs => nomatch hs⟩

/-- The script's node is asked with frames of scripts on the stack. -/
theorem Capped.outermost (h : d.Capped m) {s : Stream} (hq : d.Outermost (.stream s c)) :
    c.frames.Capped m c.stack := by
  cases hq <;> exact .of_scopes h.stack

end Dialogue

/-- The stream is a call with the right number of arguments, and its frame is the given one. -/
def Stream.IsCall (s : Stream) (span : Span) (closure : Closure) (frame : Frame) : Prop :=
  ∃ arguments this, s = .call span closure arguments this ∧
    arguments.length = closure.params.length ∧ frame = .activation closure arguments span this

variable {s : Stream} {span : Span} {closure : Closure} {frame : Frame}

/-- A call on a stack that is full fails, and says how many frames there would be. -/
theorem Stream.IsCall.gives_full (h : s.IsCall span closure frame)
    (hfull : c.limits.maxDepth ≤ c.depth) {r : Reply Stream Outcome} :
    s.Gives c r ↔ r = .failed (.exceeded .stack (c.depth + 1) c.limits.maxDepth span)
      (((c.addFrame frame).push c.frames.next).raised
        (.exceeded .stack (c.depth + 1) c.limits.maxDepth span)) := by
  obtain ⟨arguments, this, rfl, harity, rfl⟩ := h
  rw [Stream.gives_iff]
  rw [Stream.move_call_full span this harity hfull]
  rfl

/-- Any other call runs its body in its frame. -/
theorem Stream.IsCall.gives_body (h : s.IsCall span closure frame)
    (hlt : c.depth < c.limits.maxDepth) {r : Reply Stream Outcome} :
    s.Gives c r ↔ (Stream.activation c.frames.next (.body closure.function.statements)).Gives
      (c.addFrame frame) r := by
  obtain ⟨arguments, this, rfl, harity, rfl⟩ := h
  rw [Stream.gives_iff]
  rw [Stream.move_call span this harity hlt, Move.leads_asked]

/-- **No call lies above the limit.**  Whatever a host does with a session, at any moment of any
request the frames on the stack that lie above the limit are those of blocks and scripts.  A call that
is asked when so many frames as the limit says are on the stack fails, and tells the depth that it
would have had; any other call is entered. -/
theorem calls_below_limit (options : SessionOptions) (host : Host) (hh : host.Fits .ordinary)
    {d : Dialogue} (hd : Dialogue.Leads .ordinary (.start options host) d) {s : Stream} {c : Context}
    (asked : d.Asks (.stream s c)) :
    c.frames.Capped options.limits.maxDepth c.stack ∧
      ∀ span closure frame, s.IsCall span closure frame →
        (options.limits.maxDepth ≤ c.depth → ∃ c', ∀ r, s.Gives c r ↔
          r = .failed (.exceeded .stack (c.depth + 1) options.limits.maxDepth span) c') ∧
        (c.depth < options.limits.maxDepth → ∀ r, s.Gives c r ↔
          (Stream.activation c.frames.next (.body closure.function.statements)).Gives
            (c.addFrame frame) r) := by
  have start : (Dialogue.start options host).Fits .ordinary := Dialogue.fits_start options hh
  have capped : (Dialogue.start options host).Capped options.limits.maxDepth :=
    Dialogue.capped_start options host
  -- The script's own node is no call.
  have outermost {P : Prop} (h : d.Outermost (.stream s c)) {span : Span} {closure : Closure}
      {frame : Frame} (hcall : s.IsCall span closure frame) : P := by
    obtain ⟨arguments, this, rfl, -⟩ := hcall
    cases h
  rcases Nat.eq_zero_or_pos options.limits.maxNesting with hl | hl
  · have idle := Dialogue.idle_start options host hl
    have hq := (idle.leads hd).asks asked
    exact ⟨(capped.idle idle hd).outermost hq, fun span closure frame hcall => outermost hq hcall⟩
  · have disc := Dialogue.disciplined_start options host
    have tabled := Dialogue.tabled_start options host
    have hf := start.leads Regime.ScriptFree.reads hd
    have hdisc := disc.leads hl start hd
    have hcapped := capped.leads hl start disc tabled hd
    rcases hdisc.asks_cases hl hf asked with hq | ⟨span, s₀, c₀, hin, ha, hw⟩
    · exact ⟨hcapped.outermost hq, fun span closure frame hcall => outermost hq hcall⟩
    · obtain ⟨scopes, hs⟩ := hcapped.asked hdisc hin
      have htab := (tabled.leads hl start disc hd).1.asked hdisc hin
      obtain ⟨⟨⟨-, -, ready⟩, -⟩, hc, -⟩ :=
        (heights_kept _).within hw ⟨⟨ha, htab⟩, .of_scopes scopes, hs⟩
      refine ⟨hc, fun span closure frame hcall => ?_⟩
      rw [← ready.limits]
      exact ⟨fun hfull => ⟨_, fun r => hcall.gives_full hfull⟩, fun hlt r => hcall.gives_body hlt⟩

/-- A function that is called in a script, when the script's frame and the global one are as many as
may be. -/
theorem calls_below_limit_full :
    Prelude.host.Fits .ordinary ∧ ∃ d s c,
      Dialogue.Leads .ordinary (.start ⟨⟨2, 20000⟩, true⟩ Prelude.host) d ∧
      d.Asks (.stream s c) ∧ ∃ span, ∀ r, s.Gives c r →
        ∃ c', r = .failed (.exceeded .stack 3 2 span) c' := by
  have hh : Prelude.host.Fits .ordinary :=
    Host.fits_of_asClosure? fun _ _ _ => Prelude.asClosure?_call
  let full (q : Query) : Bool := q.call?.any fun (_, closure, arguments, _, c) =>
    arguments.length == closure.params.length && c.depth == 2
  have played : ((Dialogue.start ⟨⟨2, 20000⟩, true⟩ Prelude.host).run? "(x => x)(true);").any
      (fun d => (d.find? 20 full).any full) = true := by decide +kernel
  obtain ⟨d, hrun, played⟩ := (Option.any_eq_true _ _).mp played
  obtain ⟨q, hq, played⟩ := (Option.any_eq_true _ _).mp played
  have leads : Dialogue.Leads .ordinary (.start ⟨⟨2, 20000⟩, true⟩ Prelude.host) d :=
    .single (Dialogue.step_of_run? hrun)
  have asked := Dialogue.asks_of_find? hq
  obtain ⟨⟨span, closure, arguments, this, c⟩, hcall, played⟩ := (Option.any_eq_true _ _).mp played
  obtain ⟨harity, hdepth⟩ := Bool.and_eq_true_iff.mp played
  obtain rfl := Query.eq_of_call? hcall
  have rule := calls_below_limit ⟨⟨2, 20000⟩, true⟩ Prelude.host hh leads asked
  obtain ⟨c', hgives⟩ := (rule.2 span closure _ ⟨arguments, this, rfl, eq_of_beq harity, rfl⟩).1
    (Nat.le_of_eq (eq_of_beq hdepth).symm)
  refine ⟨hh, d, _, c, leads, asked, span, fun r hr => ⟨c', ?_⟩⟩
  rw [(hgives r).mp hr, eq_of_beq hdepth]

/-- A block puts its frame on a stack that is full, and gives its value. -/
theorem blocks_above_limit :
    ∃ d s c, Dialogue.Leads .ordinary (.start ⟨⟨2, 20000⟩, true⟩ Prelude.host) d ∧
      d.Asks (.stream s c) ∧ c.depth = 3 ∧
      ∃ fuel rest c', d.solutions.next fuel d.context = some (.value (.bool true), rest, c') := by
  let deep (q : Query) : Bool := q.stream?.any (·.2.depth == 3)
  have played : ((Dialogue.start ⟨⟨2, 20000⟩, true⟩ Prelude.host).run? "\x7b true; \x7d").any
      (fun d => (d.find? 20 deep).any deep && (d.solutions.next 20 d.context).any fun p =>
        p.1.value?.any (·.asBool? == some true)) = true := by decide +kernel
  obtain ⟨d, hrun, played⟩ := (Option.any_eq_true _ _).mp played
  obtain ⟨asked, given⟩ := Bool.and_eq_true_iff.mp played
  obtain ⟨q, hq, asked⟩ := (Option.any_eq_true _ _).mp asked
  obtain ⟨⟨s, c⟩, hs, hdepth⟩ := (Option.any_eq_true _ _).mp asked
  obtain rfl := Query.eq_of_stream? hs
  obtain ⟨⟨answer, rest, c'⟩, hnext, given⟩ := (Option.any_eq_true _ _).mp given
  obtain ⟨v, hv, given⟩ := (Option.any_eq_true _ _).mp given
  obtain rfl := Answer.eq_of_value? hv
  obtain rfl := Trial.eq_of_asBool? (eq_of_beq given)
  exact ⟨d, s, c, .single (Dialogue.step_of_run? hrun), Dialogue.asks_of_find? hq,
    eq_of_beq hdepth, 20, rest, c', hnext⟩

end Nondet
