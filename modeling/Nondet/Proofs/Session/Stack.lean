import Nondet.Proofs.Session.Names

/-!
# Session — Stack

The frames that a session has on its stack between two requests.  They are those of the scripts that
were begun, each lying in the one before it, and the outermost of them in the global frame; and a
script's frame has no names but those that the script declares (`Dialogue.Stacked`).  So what a
script does not declare it looks up in the frames of the scripts before it, the last one first.
-/

namespace Nondet

variable {l : Limits} {L : Ledger} {fs fs' : Frames}

/-- The frames around a frame stay the same. -/
theorem Frames.Extends.chain (he : fs.Extends L fs') (h : fs.Layered) (h' : fs'.Layered) :
    ∀ {i : FrameId}, i < fs.next → fs'.chain i = fs.chain i := by
  intro i
  induction i using Nat.strong_induction_on with
  | _ i ih =>
      intro hi
      obtain ⟨f, hf⟩ := Option.isSome_iff_exists.mp (Frames.get?_isSome.mpr hi)
      obtain ⟨bs, hf'⟩ := he.tables hf
      rw [h.chain_eq hf, h'.chain_eq hf']
      cases hp : f.parent with
      | none => rfl
      | some p =>
          have hlt := h i f p hf hp
          simp only [Option.map_some, ih p hlt (Nat.lt_trans hlt hi)]

/-- A frame that is not the outermost of those around a frame lies in another. -/
theorem Frames.Layered.fixed_of_mem (h : fs.Layered) : ∀ {own : List FrameId} {i k : FrameId},
    fs.chain i = own ++ [k] → ∀ j ∈ own, Ledger.blank.Fixed fs j
  | [], _, _, _, _, hj => nomatch hj
  | j :: own, i, k, hc, j', hj => by
      obtain ⟨rfl, none | ⟨f, p, hf, hp, around⟩⟩ := h.chain_eq_cons hc
      · simp at none
      · rcases List.mem_cons.mp hj with rfl | hj
        · exact ⟨id, f, p, hf, hp⟩
        · exact h.fixed_of_mem around j' hj

/-- The frames of the scripts that were begun, the last one first: what is on the stack between two
requests, but for the global frame. -/
def Context.scripts (c : Context) : List FrameId := c.stack.dropLast

namespace Dialogue

variable {d₀ d d' : Dialogue}

/-- On the way from one dialogue to another, the frame was made for the script. -/
def MadeFor (d₀ d : Dialogue) (i : FrameId) (ss : List Node) : Prop :=
  ∃ d' span, Leads .ordinary d₀ d' ∧ Leads .ordinary d' d ∧ d'.begun = false ∧
    d'.solutions = .of (.program span ss) ∧ d'.context.frames.next = i

/-- The frames that a session has on its stack between two requests. -/
structure Stacked (d₀ d : Dialogue) : Prop where
  global : d.context.stack = d.context.scripts ++ [d.context.global]
  chain : d.context.frames.chain d.context.current = d.context.stack
  scripts : ∀ i ∈ d.context.scripts, ∃ ss, d₀.MadeFor d i ss ∧
    ∀ name, (d.context.frames.binding? i name).isSome → name ∈ Node.declared ss

theorem MadeFor.step {i : FrameId} {ss : List Node} (h : d₀.MadeFor d i ss)
    (hs : Step .ordinary d d') : d₀.MadeFor d' i ss := by
  obtain ⟨d₁, span, before, later, made⟩ := h
  exact ⟨d₁, span, before, later.tail hs, made⟩

/-- What a request for a solution does with the stack: it puts the frame of a script that it begins on
it, or leaves it as it was. -/
theorem Ordinary.stack_asked (hl : 1 ≤ l.maxNesting) (h : d.Ordinary l) {fuel : Nat} {answer : Answer}
    {rest : Solutions} {c : Context} (hn : d.solutions.next fuel d.context = some (answer, rest, c)) :
    c.global = d.context.global ∧ (c.stack = d.context.stack ∨
      ∃ span ss, d.begun = false ∧ d.solutions = .of (.program span ss) ∧
        c.stack = d.context.frames.next :: d.context.stack) := by
  rcases h.disciplined.asks hl h.fits hn with ⟨-, e, -⟩ | ⟨span, s, c₀, r, hin, asked, ha, hr, e⟩
  · cases e
    exact ⟨rfl, .inl rfl⟩
  · obtain ⟨-, hd⟩ := (discipline_kept l).gives ha hr
    obtain rfl : c = r.context.leaveNested := by
      have hc : (d.answered answer rest c).context = _ := congrArg context (answered_eq_replied e)
      rw [context_replied, Reply.context_leaving] at hc
      exact hc
    have stack : r.context.leaveNested.stack = c₀.stack := hd.stack asked.level
    have global : r.context.leaveNested.global = c₀.global := hd.global
    cases hin with
    | script hs hb =>
        have level : d.context.enterNested.Level := h.disciplined.level
        exact ⟨global, .inr ⟨span, _, hb, hs, stack.trans level.enterProgram_stack⟩⟩
    | rest hs hb => exact ⟨global, .inl stack⟩

/-- The global frame stays the same. -/
theorem Ordinary.global_leads (hl : 1 ≤ l.maxNesting) (h : d.Ordinary l)
    (hs : Leads .ordinary d d') : d'.context.global = d.context.global := by
  induction hs with
  | refl => rfl
  | tail hs hlast ih =>
      refine Eq.trans ?_ ih
      cases hlast with
      | define name hv => rfl
      | run hr => rfl
      | ask hn => exact ((h.leads hl hs).1.stack_asked hl hn).1

theorem Stacked.step (hl : 1 ≤ l.maxNesting) (h : d.Ordinary l) (h₀ : Leads .ordinary d₀ d)
    (hd : d₀.Stacked d) (hs : Step .ordinary d d') : d₀.Stacked d' := by
  obtain ⟨h', longer⟩ := h.step hl hs
  have layered := h.fits.context.layered
  have layered' := h'.fits.context.layered
  -- The frames that are there keep their names, and lie where they lay.
  have chain : d'.context.frames.chain d.context.current = d.context.stack :=
    (longer.chain layered layered' h.fits.context.current).trans hd.chain
  have scripts : ∀ i ∈ d.context.scripts, ∃ ss, d₀.MadeFor d' i ss ∧
      ∀ name, (d'.context.frames.binding? i name).isSome → name ∈ Node.declared ss := by
    intro i hi
    obtain ⟨ss, made, names⟩ := hd.scripts i hi
    have fixed := layered.fixed_of_mem (hd.chain.trans hd.global) i hi
    exact ⟨ss, made.step hs, fun name hn => names name ((longer.names fixed name).symm.trans hn)⟩
  -- Nothing else is to be shown where the stack is the same.
  have same (hstack : d'.context.stack = d.context.stack)
      (hglobal : d'.context.global = d.context.global) : d₀.Stacked d' := by
    have current : d'.context.current = d.context.current := by
      rw [Context.current, Context.current, hstack, hglobal]
    refine ⟨?_, ?_, ?_⟩
    · rw [Context.scripts, hstack, hglobal]
      exact hd.global
    · rw [current, hstack]
      exact chain
    · rw [Context.scripts, hstack]
      exact scripts
  have hs' := hs
  cases hs with
  | define name hv => exact same rfl rfl
  | run hr => exact same rfl rfl
  | @ask fuel answer rest c hn =>
      rcases h.stack_asked hl hn with ⟨hglobal, hstack | ⟨span, ss, hb, hsol, -⟩⟩
      · exact same hstack hglobal
      · obtain ⟨hstack, ⟨f, hf, hp⟩, names⟩ :=
          h.tabled.begun hl h.fits h.disciplined (fun _ => id) hsol hb hn
        have hscripts : c.scripts = d.context.frames.next :: d.context.scripts := by
          rw [Context.scripts, hstack, hd.global, ← List.cons_append, List.dropLast_concat]
        have current : c.current = d.context.frames.next := by
          rw [Context.current, hstack]
          rfl
        refine ⟨?_, ?_, ?_⟩
        · change c.stack = c.scripts ++ [c.global]
          rw [hscripts, hstack, hglobal, List.cons_append, ← hd.global]
        · change c.frames.chain c.current = c.stack
          have around : c.frames.chain d.context.frames.next = _ := layered'.chain_eq hf
          rw [current, around, hp, hstack]
          exact congrArg _ chain
        · change ∀ i ∈ c.scripts, _
          rw [hscripts, List.forall_mem_cons]
          exact ⟨⟨ss, ⟨d, span, h₀, .single hs', hb, hsol, rfl⟩, names⟩, scripts⟩

theorem stacked_start (options : SessionOptions) {host : Host} (hh : host.Fits .ordinary)
    (d₀ : Dialogue) : d₀.Stacked (start options host) := by
  have ordinary := ordinary_start options hh
  have alike : (Context.empty options.limits host).Alike (start options host).context :=
    Session.start_alike options host
  have hstack : (start options host).context.stack = [(start options host).context.global] :=
    alike.stack.trans (congrArg ([·]) alike.global.symm)
  have current : (start options host).context.current = (start options host).context.global := by
    rw [Context.current, hstack]
    rfl
  have none : (start options host).context.scripts = [] := by
    rw [Context.scripts, hstack]
    rfl
  refine ⟨by rw [none, hstack]; rfl, ?_, by rw [none]; exact List.forall_mem_nil _⟩
  obtain ⟨f, hf⟩ := Option.isSome_iff_exists.mp
    (Frames.get?_isSome.mpr ordinary.fits.context.global)
  rw [current, hstack, ordinary.fits.context.layered.chain_eq hf, ordinary.tabled.root f hf]
  rfl

/-- **The frames on the stack of a session are those of its scripts.** -/
theorem Stacked.leads (hl : 1 ≤ l.maxNesting) (h : d₀.Ordinary l) (hd : d₀.Stacked d₀)
    (hs : Leads .ordinary d₀ d) : d₀.Stacked d := by
  induction hs with
  | refl => exact hd
  | tail hs hlast ih => exact ih.step hl (h.leads hl hs).1 hs hlast

end Dialogue

end Nondet
