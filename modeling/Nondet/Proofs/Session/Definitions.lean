import Nondet.Proofs.Pull.Growth
import Nondet.Proofs.Session.Custody
import Nondet.Proofs.Session.Scopes
import Nondet.Proofs.Session.Stack

/-!
# Session — Definitions

What a script reads of a constant that the host has defined.  The constant is in the global frame,
and stays there as it is until the host defines the name again (`Dialogue.Since.asked`); but between
that frame and the script's lie the frames of all scripts before it, and a name that one of them has
is read there (`definitions_reach_scripts`).
-/

namespace Nondet

open Nondet.Action

variable {R : Regime} {l : Limits} {c : Context} {fs : Frames} {name : String} {v : Value}

/-! ### Looking outwards -/

namespace Frames

/-- Of some frames, of which the last one has the name, the first that has it counts. -/
theorem lookupIn_concat {k : FrameId} {b : Binding} (hk : fs.binding? k name = some b) :
    ∀ is : List FrameId, fs.lookupIn name (is ++ [k]) =
      ((is.findSome? (fs.binding? · name)).getD b).read
  | [] => lookupIn_of_binding? hk
  | i :: is => by
      rw [List.cons_append, List.findSome?_cons]
      cases hb : fs.binding? i name with
      | none => exact (lookupIn_of_none hb).trans (lookupIn_concat hk is)
      | some b' => exact lookupIn_of_binding? hb

/-- The frames around a frame that lies around another. -/
theorem Layered.chain_suffix (h : fs.Layered) : ∀ {inner outer : List FrameId} {i j : FrameId},
    fs.chain i = inner ++ j :: outer → fs.chain j = j :: outer
  | [], outer, i, j, hc => by
      obtain ⟨rfl, -⟩ := h.chain_eq_cons hc
      exact hc
  | k :: inner, outer, i, j, hc => by
      obtain ⟨-, none | ⟨f, p, -, -, around⟩⟩ := h.chain_eq_cons hc
      · simp at none
      · exact h.chain_suffix around

end Frames

/-- A name is looked up from the innermost frame. -/
theorem Stream.reads_lookup {place : Span} {r : Reply Stream Outcome}
    (h : (Stream.deferred (.lookup place name)).Gives c r) :
    r.Reads place name (c.frames.lookup c.current name) := by
  rw [gives_iff] at h
  have h : r = .ofResult .empty ((Deferred.lookup place name).run.on c) := h
  rw [Deferred.run, Action.on_bind, Action.on_lookup] at h
  cases hv : c.frames.lookup c.current name <;> rw [hv] at h <;> subst h <;> exact ⟨_, rfl, rfl⟩

/-- A value is read exactly if it is what was looked up. -/
theorem Reply.Reads.yields_iff {place : Span} {result : Except BindFailure Value}
    {r : Reply Stream Outcome} (h : r.Reads place name result) :
    (∃ rest c, r = .yield (.value v) rest c) ↔ result = .ok v := by
  cases r with
  | yield outcome rest c =>
      obtain ⟨w, rfl, rfl⟩ := h
      constructor
      · rintro ⟨rest', c', e⟩
        cases e
        rfl
      · rintro e
        cases e
        exact ⟨rest, c, rfl⟩
  | finished c => exact h.elim
  | failed failure c =>
      obtain ⟨e, rfl, -⟩ := h
      exact ⟨(fun ⟨_, _, e⟩ => nomatch e), nofun⟩

/-! ### Constants -/

/-- Of the frames that are there, one has the name with a value that may not change. -/
def Custody.constant (first frame : FrameId) (name : String) (v : Value) : Custody where
  first := first
  table i bs := i = frame → bs.get? name = some (.assigned v false)
  assigned := by
    intro i bs other w w' h hv e
    rw [Bindings.get?_set]
    split
    next same =>
      rw [← same, h e] at hv
      cases hv
    next => exact h e

/-- A constant that is defined in a frame. -/
theorem Frames.respects_constant {g : FrameId} (hg : g < fs.next) (name : String) (v : Value) :
    (fs.set g name (.assigned v false)).Respects (.constant fs.next g name v) := by
  refine ⟨by rw [next_set]; exact Nat.le_refl _, fun i _ e => ?_⟩
  subst e
  rw [set_eq_setBindings, bindings_setBindings, if_pos ⟨rfl, hg⟩, Bindings.get?_set, if_pos rfl]

/-- Defining another name leaves a constant as it is. -/
theorem Frames.Respects.set_other {first g k : FrameId} {other : String}
    (h : fs.Respects (.constant first g name v)) (hne : other ≠ name) (b : Binding) :
    (fs.set k other b).Respects (.constant first g name v) := by
  rw [set_eq_setBindings]
  refine h.setBindings fun hk e => ?_
  rw [Bindings.get?_set, if_neg hne.symm]
  exact h.tables k hk e

namespace Dialogue

variable {d₀ d₁ d d' : Dialogue}

/-- What a session comes to after the host has bound a name, as long as it does not bind it again.
Binding a name takes the session, so what was left of the script before is not asked any more; the
flag says whether another was run since. -/
inductive Since (R : Regime) (name : String) (v : Value) (d₀ : Dialogue) : Bool → Dialogue → Prop
  | define (hv : v.Fits R d₀.context.frames.next) :
      Since R name v d₀ false { d₀ with session := d₀.session.define name v }
  | other {ran : Bool} {d : Dialogue} (h : Since R name v d₀ ran d) {other : String} {w : Value} (hne : other ≠ name)
      (hw : w.Fits R d.context.frames.next) :
      Since R name v d₀ ran { d with session := d.session.define other w }
  | run {ran : Bool} {d : Dialogue} (h : Since R name v d₀ ran d) {source : String} {r : Session.Run}
      (hr : Session.run source = .ok r) :
      Since R name v d₀ true { d with solutions := r.solutions, begun := false }
  | ask {d : Dialogue} (h : Since R name v d₀ true d) {fuel : Nat} {answer : Answer} {rest : Solutions}
      {c : Context} (hn : d.solutions.next fuel d.context = some (answer, rest, c)) :
      Since R name v d₀ true (d.answered answer rest c)

theorem Since.leads {ran : Bool} (h : d₀.Since R name v ran d) : Leads R d₀ d := by
  induction h with
  | define hv => exact .single (.define name hv)
  | other _ _ hw ih => exact ih.tail (.define _ hw)
  | run _ hr ih => exact ih.tail (.run hr)
  | ask _ hn ih => exact ih.tail (.ask hn)

theorem Since.pulls {answers : List Answer} (h : d₀.Since R name v true d)
    (hp : d.Pulls answers d') : d₀.Since R name v true d' := by
  induction hp with
  | nil d => exact h
  | cons first _ ih => exact ih (h.ask first)

/-- A script that was begun stays so while solutions are asked for. -/
theorem Pulls.begun {answers : List Answer} (h : d.Pulls answers d') (hd : d.begun = true) :
    d'.begun = true := by
  induction h with
  | nil d => exact hd
  | cons _ _ ih => exact ih rfl

/-- The constant is as it was defined, and no choice goes back behind its definition. -/
theorem Since.respects (hl : 1 ≤ l.maxNesting) (hf : d₀.Fits .ordinary)
    (hd : d₀.Disciplined l) {ran : Bool} (h : d₀.Since .ordinary name v ran d) :
    d.context.frames.Respects (.constant d₀.context.frames.next d₀.context.global name v) ∧
      (ran = true → d.Respects (.constant d₀.context.frames.next d₀.context.global name v)) := by
  induction h with
  | define hv => exact ⟨Frames.respects_constant hf.context.global name v, nofun⟩
  | @other _ d h other w hne hw ih =>
      obtain ⟨frames, rest⟩ := ih
      have frames' : (d.context.frames.set d.context.global other (.assigned w false)).Respects
          (.constant d₀.context.frames.next d₀.context.global name v) :=
        frames.set_other hne _
      exact ⟨frames', fun hran => ⟨frames', fun s hb hs => (rest hran).rest s hb hs⟩⟩
  | run h hr ih => exact ⟨ih.1, fun _ => ⟨ih.1, fun _ hb => nomatch hb⟩⟩
  | ask h hn ih =>
      have leads := h.leads
      have respects := (ih.2 rfl).ask hl (hf.leads Regime.ScriptFree.reads leads)
        (hd.leads hl hf leads) hn
      exact ⟨respects.frames, fun _ => respects⟩

/-! ### The frame of a script -/

/-- What is computed while a script runs is asked inside the script's node. -/
theorem Ordinary.asks_inside (hl : 1 ≤ l.maxNesting) (h : d.Ordinary l) {what : Deferred}
    (hq : d.Asks (.stream (.deferred what) c)) :
    ∃ span s c₀, d.Inside span s c₀ ∧ (Query.stream s c₀).Within (.stream (.deferred what) c) := by
  rcases h.disciplined.asks_cases hl h.fits hq with outermost | ⟨span, s, c₀, hin, -, hw⟩
  · cases outermost
  · exact ⟨span, s, c₀, hin, hw⟩

/-- The frame of a script lies in those of the scripts before it, and does not have the name. -/
structure Lies (d₁ : Dialogue) (name : String) (fs : Frames) : Prop where
  longer : d₁.context.frames.Extends .blank fs
  layered : fs.Layered
  chain : fs.chain d₁.context.frames.next = d₁.context.frames.next :: d₁.context.stack
  fixed : Ledger.blank.Fixed fs d₁.context.frames.next
  absent : fs.binding? d₁.context.frames.next name = none

theorem Lies.mono {fs fs' : Frames} (h : d₁.Lies name fs) (he : fs.Extends .blank fs')
    (layered : fs'.Layered) : d₁.Lies name fs' := by
  have hlt : d₁.context.frames.next < fs.next := by
    obtain ⟨-, f, -, hf, -⟩ := h.fixed
    exact Frames.lt_next hf
  refine ⟨h.longer.trans he, layered, (he.chain h.layered layered hlt).trans h.chain,
    he.fixed h.fixed, ?_⟩
  have same := he.names h.fixed name
  have absent : (fs.bindings d₁.context.frames.next).get? name = none := h.absent
  rw [absent] at same
  exact Option.isNone_iff_eq_none.mp (Option.isSome_eq_false_iff.mp same)

/-- When the statements of a script are asked for the first time, its frame lies so. -/
theorem Ordinary.lies_hoisted (h : d₁.Ordinary l)
    (hc : d₁.context.frames.chain d₁.context.current = d₁.context.stack) {ss : List Node}
    (hn : name ∉ Node.declared ss) {c' : Context}
    (hh : (hoist ss).on d₁.context.enterNested.enterProgram = (.ok ⟨⟩, c')) :
    d₁.Lies name c'.frames := by
  have fits : d₁.context.enterNested.Fits .ordinary := h.fits.context.deeper
  have level : d₁.context.enterNested.Level := h.disciplined.level
  have hframes : d₁.context.enterNested.enterProgram.frames =
      d₁.context.frames.push (.child "program" d₁.context.current) := level.enterProgram_frames
  let i := d₁.context.frames.next
  obtain ⟨-, -, layered', longer⟩ := Context.lookup_outside (L := .blank) fits level hn hh
  have hoisted := extends_hoist (L := Ledger.blank.loosen i) ss
    d₁.context.enterNested.enterProgram (.inr rfl)
  have hnew : i < d₁.context.enterNested.enterProgram.frames.next := by
    rw [hframes, Frames.next_push]
    exact Nat.lt_succ_self i
  have names := (names_hoist ss d₁.context.enterNested.enterProgram hnew name).1
  rw [hh] at hoisted names
  obtain ⟨bs, hf⟩ := hoisted.tables (i := i) (by rw [hframes, Frames.get?_push, if_pos rfl])
  refine ⟨longer, layered', ?_, ⟨id, _, d₁.context.current, hf, rfl⟩, ?_⟩
  · have around : c'.frames.chain i = i :: c'.frames.chain d₁.context.current :=
      layered'.chain_eq hf
    have current := h.fits.context.current
    exact around.trans (congrArg _ ((longer.chain h.fits.context.layered layered' current).trans hc))
  · rw [← Option.not_isSome_iff_eq_none]
    intro hsome
    rcases names hsome with hsome | hmem
    · have current : d₁.context.enterNested.enterProgram.current = i := rfl
      rw [hframes, current, Frames.binding?, Frames.bindings_push, if_pos rfl] at hsome
      cases hsome
    · exact hn hmem

section

variable {span : Span} {ss : List Node} (hl : 1 ≤ l.maxNesting) (h : d₁.Ordinary l)
  (hc : d₁.context.frames.chain d₁.context.current = d₁.context.stack)
  (hs : d₁.solutions = .of (.program span ss)) (hb : d₁.begun = false)
  (hn : name ∉ Node.declared ss)

include hl h hc hs hb hn

/-- Once a script was asked, its frame lies so. -/
theorem Ordinary.lies {answers : List Answer} (hp : d₁.Pulls answers d) (hd : d.begun = true) :
    d₁.Lies name d.context.frames := by
  cases hp with
  | nil => cases hb.symm.trans hd
  | @cons _ _ fuel answer rest c answers first later =>
      obtain ⟨h', longer⟩ := h.step hl (.ask first)
      obtain ⟨-, ⟨f, hf, hp⟩, names⟩ :=
        h.tabled.begun hl h.fits h.disciplined (fun _ => id) hs hb first
      have layered := h.fits.context.layered
      have layered' := h'.fits.context.layered
      obtain ⟨h'', longer'⟩ := h'.leads hl later.leads
      suffices lies : d₁.Lies name (d₁.answered answer rest c).context.frames from
        lies.mono longer' h''.fits.context.layered
      refine ⟨longer, layered', ?_, ⟨id, f, _, hf, hp⟩, ?_⟩
      · have around : (d₁.answered answer rest c).context.frames.chain d₁.context.frames.next = _ :=
          layered'.chain_eq hf
        rw [around, hp]
        exact congrArg _ ((longer.chain layered layered' h.fits.context.current).trans hc)
      · rw [← Option.not_isSome_iff_eq_none]
        exact fun hsome => hn (names name hsome)

/-- Whatever is computed while the script runs, the script's frame lies so. -/
theorem Ordinary.lies_asked {answers : List Answer} (hp : d₁.Pulls answers d) {what : Deferred}
    (hq : d.Asks (.stream (.deferred what) c)) : d₁.Lies name c.frames := by
  have h' := (h.leads hl hp.leads).1
  obtain ⟨span', s, c₀, hin, hw⟩ := h'.asks_inside hl hq
  have ha : (requests l .blank).Allows (.stream s c₀) := h'.asked hl hin
  -- Frames that are found inside the script's node extend those in which its statements are.
  have extended {q₀ : Query} (ha : (requests l .blank).Allows q₀) (ho : q₀.opening? = none)
      (hq₀ : q₀.Within (.stream (.deferred what) c)) (lies : d₁.Lies name q₀.frames) :
      d₁.Lies name c.frames := by
    have fits : c.Fits .ordinary := ((requests_kept l .blank).within hq₀ ha).1.1.1
    exact lies.mono (Query.extends_of_within ha ho hq₀) fits.layered
  cases hin with
  | @script ss' hs' hb' =>
      cases hp with
      | cons _ later =>
          cases (later.begun rfl).symm.trans hb'
      | nil =>
          cases hs.symm.trans hs'
          rcases Query.within_cases hw with e | ⟨q₁, hasks, hw⟩
          · cases e
          · have allowed := (requests_kept l .blank).within (.single hasks) ha
            have hasks : ((Stream.body ss).move d₁.context.enterNested.enterProgram).Asks q₁ := hasks
            simp only [Stream.move] at hasks
            rcases hx : (hoist ss).on d₁.context.enterNested.enterProgram with ⟨failure | _, c'⟩ <;>
              simp only [hx] at hasks
            · cases hasks
            · obtain rfl := Move.asks_once (f := id) hasks
              have settled : (Stream.ofStatements ss).Settled .blank c'.frames :=
                (Stream.made_ofStatements ss).settled
              exact extended allowed settled.opening? hw (h.lies_hoisted hc hn hx)
  | rest hs' hb' =>
      have settled := h'.tabled.rest _ hb' hs'
      have settled : s.Settled .blank d.context.frames := settled
      exact extended ha settled.opening? hw (h.lies hl hc hs hb hn hp hb')

end

/-- Whatever is computed while a script runs that was run since, the constant is as it was
defined. -/
theorem Since.asked (hl : 1 ≤ l.maxNesting) (h₀ : d₀.Ordinary l)
    (h : d₀.Since .ordinary name v true d) {what : Deferred}
    (hq : d.Asks (.stream (.deferred what) c)) :
    c.frames.binding? d₀.context.global name = some (.assigned v false) := by
  have h' := (h₀.leads hl h.leads).1
  have respects := (h.respects hl h₀.fits h₀.disciplined).2 rfl
  obtain ⟨span, s, c₀, hin, hw⟩ := h'.asks_inside hl hq
  have ha := (h'.disciplined.inside hl h'.fits hin).2
  have allowed := (respect_kept l _).within hw ⟨ha, respects.asked h'.disciplined hin⟩
  exact allowed.2.1.frames.tables _ h₀.fits.context.global rfl

end Dialogue

/-- A script that is run keeps what is known of the definition. -/
theorem Dialogue.Since.of_run? {d₀ d d' : Dialogue} {ran : Bool} {source : String}
    (h : d₀.Since R name v ran d) (hr : d.run? source = some d') : d₀.Since R name v true d' := by
  obtain ⟨r, run, rfl⟩ := Dialogue.run?_eq_some hr
  exact h.run run

/-- The name that a request reads, with its place and the context. -/
def Query.reading? : Query → Option (Span × String × Context)
  | .stream (.deferred (.lookup place name)) c => some (place, name, c)
  | _                                          => none

theorem Query.eq_of_reading? {q : Query} {place : Span} (h : q.reading? = some (place, name, c)) :
    q = .stream (.deferred (.lookup place name)) c := by
  unfold reading? at h
  split at h
  · cases h
    rfl
  · cases h

/-- **What a script reads of a constant that the host has defined.**  Let the host bind a name in any
session, and let a script that does not declare it be run later, before the host binds the name again.
Wherever the script reads the name, in its own frame or in frames inside it that do not have the name,
it reads exactly that value, unless the frame of a script before it has the name: then the last such
frame counts, whatever that script came to.  Frames of scripts have no names but those that the script
declares, so after scripts that do not declare the name it is the value that was defined. -/
theorem definitions_reach_scripts (options : SessionOptions) (host : Host) (hh : host.Fits .ordinary)
    {d₀ d₁ d : Dialogue} (h₀ : Dialogue.Leads .ordinary (.start options host) d₀) {name : String}
    {v : Value} (h₁ : d₀.Since .ordinary name v true d₁) {span : Span} {ss : List Node}
    (run : d₁.solutions = .of (.program span ss)) (fresh : d₁.begun = false)
    (undeclared : name ∉ Node.declared ss) {answers : List Answer} (pulled : d₁.Pulls answers d)
    {place : Span} {c : Context} {r : Reply Stream Outcome}
    (asked : d.Asks (.stream (.deferred (.lookup place name)) c))
    (read : (Stream.deferred (.lookup place name)).Gives c r)
    {inner outer : List FrameId}
    (around : c.frames.chain c.current = inner ++ d₁.context.frames.next :: outer)
    (inside : ∀ i ∈ inner, c.frames.binding? i name = none) :
    ((∃ rest c', r = .yield (.value v) rest c') ↔
      ∀ b, d₁.context.scripts.findSome? (c.frames.binding? · name) = some b → b.read = .ok v) ∧
    ∀ i ∈ d₁.context.scripts, (c.frames.binding? i name).isSome →
      ∃ earlier, (Dialogue.start options host).MadeFor d₁ i earlier ∧
        name ∈ Node.declared earlier := by
  by_cases hl : 1 ≤ options.limits.maxNesting
  · have start := Dialogue.ordinary_start options hh
    have ordinary₀ := (start.leads hl h₀).1
    have leads₁ := h₀.trans h₁.leads
    have ordinary₁ := (start.leads hl leads₁).1
    have stacked := Dialogue.Stacked.leads hl start (Dialogue.stacked_start options hh _) leads₁
    have lies := ordinary₁.lies_asked hl stacked.chain run fresh undeclared pulled asked
    have constant := (h₁.pulls pulled).asked hl ordinary₀ asked
    have global : d₁.context.global = d₀.context.global := ordinary₀.global_leads hl h₁.leads
    -- What the frames inside the script's do not have is looked up in those of the scripts before.
    have looked : c.frames.lookup c.current name =
        ((d₁.context.scripts.findSome? (c.frames.binding? · name)).getD (.assigned v false)).read := by
      have hchain := lies.layered.chain_suffix around
      rw [lies.chain] at hchain
      obtain ⟨-, rfl⟩ := List.cons.inj hchain
      rw [Frames.lookup, around, Frames.lookupIn_append inside, Frames.lookupIn_of_none lies.absent,
        stacked.global, Frames.lookupIn_concat (global ▸ constant)]
    refine ⟨?_, fun i hi hsome => ?_⟩
    · rw [(Stream.reads_lookup read).yields_iff, looked]
      cases d₁.context.scripts.findSome? (c.frames.binding? · name) with
      | none => exact ⟨fun _ _ e => (by cases e), fun _ => rfl⟩
      | some b => exact ⟨fun hb _ e => Option.some.inj e ▸ hb, fun hb => hb b rfl⟩
    · obtain ⟨earlier, made, names⟩ := stacked.scripts i hi
      have fixed := ordinary₁.fits.context.layered.fixed_of_mem
        (stacked.chain.trans stacked.global) i hi
      exact ⟨earlier, made, names name ((lies.longer.names fixed name).symm.trans hsome)⟩
  · -- Without any nesting no name is read.
    have limit : options.limits.maxNesting = 0 := Nat.eq_zero_of_not_pos hl
    have idle := (((Dialogue.idle_start options host limit).leads h₀).leads h₁.leads).leads
      (pulled.leads (R := .ordinary))
    cases idle.asks asked

/-- A constant is read in a block of a script, after a script that failed at another name. -/
theorem definitions_reach_scripts_block :
    Prelude.host.Fits .ordinary ∧ ∃ d₀ d₁ place c r rest c',
      Dialogue.Leads .ordinary (.start ⟨.standard, true⟩ Prelude.host) d₀ ∧
        d₀.failures.length = 1 ∧ d₀.Since .ordinary "x" (.bool true) true d₁ ∧
        d₁.Asks (.stream (.deferred (.lookup place "x")) c) ∧
        (Stream.deferred (.lookup place "x")).Gives c r ∧ r = .yield (.value (.bool true)) rest c' := by
  have hh : Prelude.host.Fits .ordinary :=
    Host.fits_of_asClosure? fun _ _ _ => Prelude.asClosure?_call
  let d₀ : Dialogue := .start ⟨.standard, true⟩ Prelude.host
  let defined (d : Dialogue) : Dialogue := { d with session := d.session.define "x" (.bool true) }
  let reading (q : Query) : Bool := q.reading?.any (·.2.1 == "x")
  have parsed : (Grammar.parse "\x7b x; \x7d").toOption.any
      (fun program => !(Node.declared program.statements).contains "x") = true := by decide +kernel
  have played : (d₀.play? "let y = nope;" 20).any (fun d => d.failures.length == 1 &&
      ((defined d).run? "\x7b x; \x7d").any fun d₁ => (d₁.find? 20 reading).any fun q =>
        q.reading?.any fun p => p.2.1 == "x" &&
          (p.2.2.frames.chain p.2.2.current).tail.head? == some d₁.context.frames.next &&
          ((p.2.2.frames.chain p.2.2.current).take 1).all (p.2.2.frames.binding? · "x" |>.isNone) &&
          (d₁.context.scripts.findSome? (p.2.2.frames.binding? · "x")).isNone) = true := by
    decide +kernel
  obtain ⟨d, hd, played⟩ := (Option.any_eq_true _ _).mp played
  obtain ⟨failed, played⟩ := Bool.and_eq_true_iff.mp played
  obtain ⟨d₁, hrun, played⟩ := (Option.any_eq_true _ _).mp played
  obtain ⟨q, hfind, played⟩ := (Option.any_eq_true _ _).mp played
  obtain ⟨⟨place, name, c⟩, hq, played⟩ := (Option.any_eq_true _ _).mp played
  simp only [Bool.and_eq_true_iff] at played
  obtain ⟨⟨⟨hname, own⟩, inside⟩, unshadowed⟩ := played
  obtain rfl : name = "x" := eq_of_beq hname
  obtain rfl := Query.eq_of_reading? hq
  have asked := Dialogue.asks_of_find? hfind
  have leads : Dialogue.Leads .ordinary d₀ d := Dialogue.leads_of_play? hd
  have since : d.Since .ordinary "x" (.bool true) true d₁ :=
    Dialogue.Since.of_run? (.define (show Value.Fits .ordinary _ (.bool true) from trivial)) hrun
  obtain ⟨span, ss, hp, solutions, fresh⟩ := Dialogue.script_of_run? hrun
  have undeclared : "x" ∉ Node.declared ss := by
    rw [hp] at parsed
    simpa [Except.toOption, Node.statements] using parsed
  have read : (Stream.deferred (.lookup place "x")).Gives c
      (.ofResult .empty ((Deferred.lookup place "x").run.on c)) := Stream.gives_iff.mpr rfl
  obtain ⟨outer, around⟩ := List.head?_eq_some_iff.mp (eq_of_beq own)
  have chain : c.frames.chain c.current =
      (c.frames.chain c.current).take 1 ++ d₁.context.frames.next :: outer := by
    rw [← around, ← List.drop_one, List.take_append_drop]
  have reads := definitions_reach_scripts ⟨.standard, true⟩ Prelude.host hh leads since solutions
    fresh undeclared (.nil _) asked read chain
    fun i hi => Option.isNone_iff_eq_none.mp (List.all_eq_true.mp inside i hi)
  obtain ⟨rest, c', e⟩ := reads.1.mpr fun b hb => by
    rw [Option.isNone_iff_eq_none.mp unshadowed] at hb
    cases hb
  exact ⟨hh, d, d₁, place, c, _, rest, c', leads, eq_of_beq failed, since, asked, read, e⟩

/-- A constant that is defined after a script has declared the name and failed is not read. -/
theorem failed_script_hides_definition :
    ∃ s₁ s₂ e, (Session.start ⟨.standard, true⟩ Prelude.host).take 40 1 "let x = nope;" =
        some (.error e, s₁) ∧
      (s₁.define "x" (.bool true)).take 40 1 "x;" =
        some (.error (.ofFailure (.mistake (.unassigned "x") ⟨0, 1⟩) "x;"), s₂) := by
  have run : (Trial.error? ((Session.start ⟨.standard, true⟩ Prelude.host).take 40 1
      "let x = nope;")).any (fun p =>
        (Trial.error? ((p.2.define "x" (.bool true)).take 40 1 "x;")).any
          (·.1 == .ofFailure (.mistake (.unassigned "x") ⟨0, 1⟩) "x;")) = true := by decide +kernel
  obtain ⟨⟨e, s₁⟩, h₁, run⟩ := (Option.any_eq_true _ _).mp run
  obtain ⟨⟨e', s₂⟩, h₂, run⟩ := (Option.any_eq_true _ _).mp run
  obtain rfl := eq_of_beq run
  exact ⟨s₁, s₂, e, Trial.of_error? h₁, Trial.of_error? h₂⟩

end Nondet
