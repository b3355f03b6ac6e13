import Nondet.Proofs.Search.Simulation
import Nondet.Proofs.Session.Discipline

/-!
# Search — Script

Pulling the solutions of a script is searching it (`solutions_are_found`).  In a new session, for
every script that assigns to nothing, the values that are pulled one after the other are the items
that the search finds, as far as values can be shown, and the last answer is the end that the search
comes to; unless a limit is reached, which the search knows nothing of.
-/

namespace Nondet

/-! ### A new session -/

/-- The global frame is all there is, and no closure is bound in it. -/
def Context.Fresh (c : Context) : Prop :=
  ∃ f, c.frames.get? 0 = some f ∧ f.parent = none ∧
    ∀ ρ, f.bindings.Linked ρ f.bindings

theorem Context.fresh_empty (limits : Limits) (host : Host) : (Context.empty limits host).Fresh :=
  ⟨.root "global", rfl, rfl, fun _ => .nil⟩

theorem Context.Fresh.defineGlobal {c : Context} (h : c.Fresh) (hg : c.global = 0) (name : String)
    {v : Value} (hv : v.asClosure? = none) : (c.defineGlobal name v).Fresh := by
  obtain ⟨f, hf, hp, hb⟩ := h
  refine ⟨{ f with bindings := f.bindings.set name (.assigned v false) }, ?_, hp, fun ρ => ?_⟩
  · show (c.frames.set c.global name (.assigned v false)).get? 0 = _
    rw [Frames.get?_set, hg, if_pos rfl, hf]
    rfl
  · exact (hb ρ).set name (.assigned false (.plain hv))

theorem Session.fresh_start (options : SessionOptions) (host : Host) :
    (Session.start options host).context.Fresh := by
  have started : (Session.start options host).context.Fresh ∧
      (Session.start options host).context.global = 0 :=
    Session.start_induction options host (P := fun c => c.Fresh ∧ c.global = 0)
      ⟨Context.fresh_empty _ _, rfl⟩ fun _ name ⟨hc, hg⟩ => ⟨hc.defineGlobal hg name rfl, hg⟩
  exact started.1

/-- The global frame stands for itself, and nothing else for anything. -/
def Link.start : Link := ⟨fun i j => i = 0 ∧ j = 0, fun _ _ => False⟩

theorem Link.start_holds {c : Context} (h : c.Fresh) : Link.start.Holds c.frames c.frames := by
  obtain ⟨f, hf, hp, hb⟩ := h
  refine ⟨?_, ?_, fun h => h.elim, fun h => h.elim⟩
  · rintro _ _ ⟨rfl, rfl⟩
    exact ⟨f, f, hf, hf, hb _, hp ▸ .none⟩
  · rintro _ _ _ _ ⟨rfl, rfl⟩ ⟨rfl, rfl⟩
    exact Iff.rfl

/-! ### Scripts -/

variable {k c c' : Context} {b d : Nat} {ρ : Link} {F : Found Outcome}

/-- A script runs in a new frame inside the global one, and leaves it there. -/
theorem Answers.program (hl : c.Level) (hhost : c.host = Prelude.host)
    (hd : c.limits.maxDepth ≤ d) {e : FrameId} {store : Frames} (hH : ρ.Holds store c.frames)
    (he : ρ.frame e c.current) {ss : List Node} (hss : ∀ n ∈ ss, n.Every Node.Settled) (span : Span) :
    Stream.Answers c.enterNested.enterProgram.leaveNested c.frames.next ρ
      ((Node.program span ss).search Prelude.host (callWithin Prelude.host d) e store)
      (evaluate (.program span ss)) c := by
  have unfolded : (Node.program span ss).search Prelude.host (callWithin Prelude.host d) e store =
      searchBody Prelude.host (callWithin Prelude.host d) ss store.next
        (store.push (.child "program" e)) := Found.one_bind _ _ _
  have hl' : c.enterNested.Level := hl
  have stack := hl'.enterProgram_stack
  have frames := hl'.enterProgram_frames
  generalize hk : c.enterNested.enterProgram = k at stack frames ⊢
  have current : k.current = c.frames.next := by
    rw [Context.current, stack]
    rfl
  have stage : k.Stage d := by
    refine ⟨?_, hk ▸ hhost, ?_⟩
    · rw [current, stack]
      exact List.mem_cons_self
    · exact Nat.le_trans (hk ▸ hd) (Nat.le_add_left _ _)
  -- The script's frame is new on both sides.
  have holds := hH.push (f := .child "program" e) (g := .child "program" c.current) .nil (.some he)
  have newer : c.frames.next ≤ k.frames.next := by
    rw [frames, Frames.next_push]
    exact Nat.le_succ _
  have inner : Stream.Answers k k.frames.next (ρ.withFrame store.next c.frames.next)
      (searchBody Prelude.host (callWithin Prelude.host d) ss store.next
        (store.push (.child "program" e))) (.body ss) k :=
    .body stage.current (.refl k) (frames ▸ holds) (Or.inr ⟨rfl, current⟩)
      fun n hn => Node.follows (callWithin_follows d) (hss n hn) stage
  have begun : Stream.Answers k c.frames.next ρ _ (.program ss) c.enterNested := fun r hr =>
    ((inner.mono newer (ρ.le_withFrame _ _)) r
      (hk ▸ Move.leads_asked.mp (Stream.gives_iff.mp hr))).after
        (frames ▸ Frames.Evolves.push _ (Nat.le_refl _))
  have outside : k.leaveNested.enterNested = k := by
    subst hk
    rfl
  rw [unfolded]
  exact fun r hr => Answers.nested (outside.symm ▸ begun) r (Stream.gives_node.mp hr)

/-! ### Solutions -/

/-- The last answer as the end of a search. -/
def Answer.ending (a : Answer) : Ending := (a.failure?.map Ending.failed).getD .complete

theorem Outcome.Linked.bare {o p : Outcome} (h : o.Linked ρ p) : o.toValue.bare = p.toValue.bare := by
  cases h with
  | value hv => exact hv.bare
  | returned hv => exact hv.bare
  | cut => rfl

/-- What a stream answers is what is pulled from it. -/
theorem Solutions.Ends.found {s : Stream} {vs : List Value} {a : Answer}
    (he : Solutions.Ends ⟨some s⟩ c vs a c') (h : Stream.Answers k b ρ F s c)
    (ha : ∀ f, a = .failure f → f.isExceeded = false) :
    F.items.map (·.toValue.bare) = vs.map Value.bare ∧ F.ending = a.ending := by
  generalize hs : (⟨some s⟩ : Solutions) = solutions at he
  induction he generalizing F s with
  | stop hn last =>
      subst hs
      obtain ⟨r, hr, e⟩ := Solutions.next_eq_some hn
      have h := h r hr
      cases h with
      -- No limit is reached, so the last answer is none of these.
      | exceeded h =>
          cases e
          exact absurd h (by simp [ha _ rfl])
      | complete hp =>
          cases e
          exact ⟨rfl, rfl⟩
      | failed =>
          cases e
          exact ⟨rfl, rfl⟩
      | found _ _ _ _ _ =>
          cases e
          exact absurd rfl (last _)
  | more hn _ ih =>
      subst hs
      obtain ⟨r, hr, e⟩ := Solutions.next_eq_some hn
      have h := h r hr
      cases h with
      | found hp _ _ hitem hrest =>
          cases e
          obtain ⟨items, ending⟩ := ih (hrest _ (.refl _ hp.alike)) ha rfl
          exact ⟨congrArg₂ List.cons hitem.bare items, ending⟩
      | _ => cases e

/-- **Pulling the solutions of a script is searching it.**  There is an end to them, and unless a
limit is reached, the values are those that the search finds, in its order, and so is the end. -/
theorem solutions_are_found (options : SessionOptions) {source : String} {program : Node}
    (hp : Grammar.parse source = .ok program) (ha : program.Every (·.isAssignment = false))
    {depth : Nat} (hd : options.limits.maxDepth ≤ depth) :
    (∃ vs a c', (Solutions.of program).Ends (Session.start options Prelude.host).context vs a c') ∧
      ∀ vs a c', (Solutions.of program).Ends (Session.start options Prelude.host).context vs a c' →
        (∀ f, a = .failure f → f.isExceeded = false) →
          (Session.search options Prelude.host depth program).items.map (·.toValue.bare) =
              vs.map Value.bare ∧
            (Session.search options Prelude.host depth program).ending = a.ending := by
  refine ⟨(enumeration_terminates program _).2, fun vs a c' he hl => ?_⟩
  obtain ⟨span, ss, rfl, hss⟩ := Grammar.parse_program hp
  have alike := Session.start_alike options Prelude.host
  have level : (Session.start options Prelude.host).context.Level :=
    Context.Level.alike (c := .empty options.limits Prelude.host) rfl alike
  have limits : (Session.start options Prelude.host).context.limits = options.limits := alike.limits
  have settled : ∀ n ∈ ss, n.Every Node.Settled := fun n hn m hm =>
    ⟨ha.child hn m hm, hss n hn m hm⟩
  have answers := Answers.program level alike.host (limits ▸ hd)
    (Link.start_holds (Session.fresh_start options Prelude.host))
    (⟨alike.global, alike.current⟩ : Link.start.frame _ _) settled span
  exact he.found answers hl

/-- A choice that is searched and pulled: two values, and the limits are not reached. -/
theorem solutions_are_found_choice :
    ∃ program, Grammar.parse "amb(true, false);" = .ok program ∧
      program.Every (·.isAssignment = false) ∧ Limits.standard.maxDepth ≤ 500 ∧
        (∃ c', (Solutions.of program).Ends
          (Session.start ⟨.standard, true⟩ Prelude.host).context [.bool true, .bool false] .none c') ∧
        (Session.search ⟨.standard, true⟩ Prelude.host 500 program).items.map (·.toValue.bare) =
          [.bool true, .bool false] ∧
        (Session.search ⟨.standard, true⟩ Prelude.host 500 program).ending = .complete := by
  let c := (Session.start ⟨.standard, true⟩ Prelude.host).context
  have read : (Grammar.parse "amb(true, false);").toOption.any (fun program =>
      program.everyDown (!·.isAssignment) 10 &&
        (Trial.bools? ((Solutions.of program).take 200 [] 3 c)).any (·.1 == [true, false])) =
      true := by decide +kernel
  obtain ⟨program, hp, read⟩ := Trial.exists_of_any read
  obtain ⟨free, pulled⟩ := Bool.and_eq_true_iff.mp read
  have ha : program.Every (·.isAssignment = false) := fun m hm =>
    by simpa using Node.every_of_everyDown free m hm
  obtain ⟨⟨bs, c'⟩, ht, hbs⟩ := (Option.any_eq_true _ _).mp pulled
  obtain rfl : bs = [true, false] := eq_of_beq hbs
  obtain ⟨us, e, he⟩ := Solutions.Ends.of_take (Trial.of_bools? ht) (by decide)
  obtain rfl : [.bool true, .bool false] = us := e
  have hd : Limits.standard.maxDepth ≤ 500 := by decide
  have found := (solutions_are_found ⟨.standard, true⟩ hp ha hd).2 _ _ _ he (fun _ h => by cases h)
  exact ⟨program, hp, ha, hd, ⟨c', he⟩, found⟩

end Nondet
