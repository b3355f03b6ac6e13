import Nondet.Proofs.Pull.Course
import Nondet.Proofs.Pull.Limits
import Nondet.Proofs.Pull.Persists
import Nondet.Proofs.Rollback
import Nondet.Proofs.Session.Asks

/-!
# Flatten

A choice in a choice is a choice.  Asked in the same contexts, `amb(xs, amb(ys), zs)` and
`amb(xs, ys, zs)` give the same, request after request (`amb_flattens`).  While an alternative of
`xs` is open both are at the same place.  When the inner choice is begun, the outer one has put its
snapshot back, so the snapshot that the inner one takes is the same; while an alternative of `ys` is
open, the nested form asks it inside one node more (`Flattens`).  When there are no more of them the
snapshot is put back twice instead of once, which makes no difference.

The snapshots are the same only if there are as many failures to go back to.  A consumer who takes
back failures that were there when the choice was begun can tell the two forms apart
(`amb_does_not_flatten`).
-/

namespace Nondet

variable {c c₀ : Context} {r : Reply Stream Outcome} {s₀ : Snapshot}

/-- A choice is the call of a name. -/
def Node.amb (span name : Span) (alternatives : List Node) : Node :=
  .call span (.identifier name ambName) alternatives

theorem Context.Fits.whole (h : c.Fits .inRange) : c.Whole :=
  ⟨fun _ f hf _ hj => h.frames.edge (Frames.lt_next hf) ⟨f, hf, Frame.leads_iff.mp hj⟩, h.stack,
    h.global⟩

/-! ### What a choice gives -/

/-- What a choice gives when its alternative has replied. -/
def Snapshot.After (s₀ : Snapshot) (later : List Node) :
    Reply Stream Outcome → Reply Stream Outcome → Prop
  | .yield outcome current c, r => r = .yield outcome (.choice s₀ current later) c
  | .finished c, r              => s₀.GoesOn (c.restore s₀) r later
  | .failed failure c, r        => r = .failed failure c

theorem Stream.gives_choice_iff {current : Stream} {later : List Node} :
    (Stream.choice s₀ current later).Gives c r ↔
      ∃ r₁, current.Gives c r₁ ∧ s₀.After later r₁ r := by
  rw [Stream.gives_iff]
  refine exists_congr fun r₁ => and_congr_right fun h => ?_
  cases r₁ with
  | yield outcome current c' => rfl
  | finished c' =>
      cases later with
      | nil => rfl
      | cons n later => exact Move.leads_asked
  | failed failure c' => rfl

/-- A choice that is begun goes back to where it is. -/
theorem Stream.gives_amb {alternatives : List Node} :
    (Stream.amb alternatives).Gives c r ↔ c.snapshot.GoesOn c r alternatives := by
  rw [Stream.gives_iff]
  cases alternatives with
  | nil => rfl
  | cons n later => exact Move.leads_asked

/-- The next alternative is asked when there is nothing more of the one before. -/
theorem Query.asks_choice {current : Stream} {n : Node} {later : List Node} {c' : Context}
    (h : current.Gives c (.finished c')) :
    (Query.stream (.choice s₀ current (n :: later)) c).Asks
      (.stream (.choice s₀ (evaluate n) later) (c'.restore s₀)) :=
  .afterStream h .stream

/-! ### Replies that match -/

/-- The replies are the same but for what is left, which is related. -/
inductive Reply.Matches {σ τ α : Type} (R : σ → τ → Prop) : Reply σ α → Reply τ α → Prop
  | yield {item s s' c} (h : R s s') : Matches R (.yield item s c) (.yield item s' c)
  | finished (c : Context) : Matches R (.finished c) (.finished c)
  | failed (failure : Failure) (c : Context) : Matches R (.failed failure c) (.failed failure c)

theorem Reply.Matches.refl {R : Stream → Stream → Prop} (h : ∀ s, R s s) : r.Matches R r := by
  cases r with
  | yield _ s _ => exact .yield (h s)
  | finished c => exact .finished c
  | failed failure c => exact .failed failure c

theorem Reply.Matches.close? {σ τ α : Type} {R : σ → τ → Prop} {r : Reply σ α} {r' : Reply τ α}
    (h : r.Matches R r') : r.close? = r'.close? := by
  cases h <;> rfl

/-- Asked in the same context, the streams give replies that match, unless the first request runs
into a limit. -/
def Stream.Follows (R : Stream → Stream → Prop) (c : Context) (s s' : Stream) : Prop :=
  ∀ r, s.Gives c r → (Query.stream s c).Exceeds ∨ ∃ r', s'.Gives c r' ∧ r.Matches R r'

/-! ### One request, inside the outer node -/

/-- What is left of the two forms, inside the outer node: an alternative before the inner choice is
open, or one of the inner choice, or nothing is left of the inner choice. -/
inductive Flattens (s₀ : Snapshot) (t u : Span) (ys zs : List Node) : Stream → Stream → Prop
  | before (current : Stream) (later : List Node) :
      Flattens s₀ t u ys zs (.choice s₀ current (later ++ .amb t u ys :: zs))
        (.choice s₀ current (later ++ (ys ++ zs)))
  | inside (current : Stream) (later : List Node) :
      Flattens s₀ t u ys zs (.choice s₀ (.nested t (.choice s₀ current later)) zs)
        (.choice s₀ current (later ++ zs))
  | same (s : Stream) : Flattens s₀ t u ys zs s s

namespace Flattens

variable {t u : Span} {xs ys zs : List Node}

/-- While an alternative of the inner choice is open, it is asked inside one node more. -/
theorem gives_inner (later : List Node) {c : Context} {current : Stream}
    {r₁ r : Reply Stream Outcome} (room : c.nesting < c.limits.maxNesting)
    (inner : (Stream.choice c₀.snapshot current later).Gives c.enterNested r₁)
    (outer : c₀.snapshot.After zs (r₁.leaving t) r) :
    (Query.stream (.choice c₀.snapshot current later) c.enterNested).Exceeds ∨
      ∃ r', (Stream.choice c₀.snapshot current (later ++ zs)).Gives c r' ∧
        r.Matches (Flattens c₀.snapshot t u ys zs) r' := by
  obtain ⟨r₂, h₂, inner⟩ := Stream.gives_choice_iff.mp inner
  obtain ⟨level, limit | flat⟩ := h₂.shallower
  · exact .inl (limit.head (Query.asks_of_move rfl))
  cases r₂ with
  | yield outcome current' c' =>
      obtain rfl : r₁ = _ := inner
      obtain rfl : r = _ := outer
      exact .inr ⟨_, Stream.gives_choice_iff.mpr ⟨_, flat, rfl⟩, .yield (.inside current' later)⟩
  | failed failure c' =>
      obtain rfl : r₁ = _ := inner
      obtain rfl : r = _ := outer
      exact .inr ⟨_, Stream.gives_choice_iff.mpr ⟨_, flat, rfl⟩, .failed failure _⟩
  | finished c' =>
      have level : c'.At c.limits (c.nesting + 1) := level
      -- Where the inner choice goes back to is where the outer one would go back to.
      let back := c'.leaveNested.restore c₀.snapshot
      have deeper : c'.restore c₀.snapshot = back.enterNested := by
        have one : c'.nesting - 1 + 1 = c'.nesting := by rw [level.nesting]; rfl
        simp only [back, Context.restore, Context.leaveNested, Context.enterNested, one]
      cases later with
      | nil =>
          obtain rfl : r₁ = .finished (c'.restore c₀.snapshot) := inner
          have twice : (c'.restore c₀.snapshot).leaveNested.restore c₀.snapshot = back :=
            Context.restore_restore c'.leaveNested c₀
          have outer : c₀.snapshot.GoesOn back r zs := by
            rw [← twice]
            exact outer
          exact .inr ⟨r, Stream.gives_choice_iff.mpr ⟨_, flat, outer⟩, .refl .same⟩
      | cons n later =>
          have inner : (Stream.choice c₀.snapshot (evaluate n) later).Gives back.enterNested r₁ :=
            deeper ▸ inner
          have room : back.nesting < back.limits.maxNesting := by
            change c'.nesting - 1 < c'.limits.maxNesting
            rw [level.nesting, level.limits]
            exact room
          obtain limit | ⟨r', h', matched⟩ := gives_inner later room inner outer
          · exact .inl (.head (Query.asks_choice h₂) (deeper ▸ limit))
          · exact .inr ⟨r', Stream.gives_choice_iff.mpr ⟨_, flat, h'⟩, matched⟩

/-- While an alternative of the inner choice is open. -/
theorem gives_inside (current : Stream) (later : List Node) :
    Stream.Follows (Flattens c₀.snapshot t u ys zs) c
      (.choice c₀.snapshot (.nested t (.choice c₀.snapshot current later)) zs)
      (.choice c₀.snapshot current (later ++ zs)) := by
  intro r hr
  obtain ⟨r₁, h₁, outer⟩ := Stream.gives_choice_iff.mp hr
  by_cases room : c.nesting < c.limits.maxNesting
  · obtain ⟨r₂, h₂, rfl⟩ := (Stream.gives_nested room).mp h₁
    refine (gives_inner later room h₂ outer).imp_left fun limit => ?_
    exact .head (Query.asks_of_move rfl) (limit.nested room t)
  · exact .inl (.head (Query.asks_of_move rfl) (.barred (Query.barred_nested room ..)))

/-- Where the inner choice is begun.  The snapshot that it takes is the one of the outer choice. -/
theorem gives_begin (back : c.snapshot = c₀.snapshot)
    (hr : (Stream.choice c₀.snapshot (evaluate (.amb t u ys)) zs).Gives c r) :
    (Query.stream (.choice c₀.snapshot (evaluate (.amb t u ys)) zs) c).Exceeds ∨
      ∃ r', c₀.snapshot.GoesOn c r' (ys ++ zs) ∧
        r.Matches (Flattens c₀.snapshot t u ys zs) r' := by
  obtain ⟨r₁, h₁, outer⟩ := Stream.gives_choice_iff.mp hr
  have h₁ : (Stream.nested t (.amb ys)).Gives c r₁ := Stream.gives_node.mp h₁
  -- The choice asks the node, and that asks its unfolding.
  have node (limit : (Query.stream (.nested t (.amb ys)) c).Exceeds) :
      (Query.stream (.choice c₀.snapshot (evaluate (.amb t u ys)) zs) c).Exceeds :=
    .head (Query.asks_of_move rfl) (.head (Query.asks_of_move rfl) limit)
  by_cases room : c.nesting < c.limits.maxNesting
  · obtain ⟨r₂, h₂, rfl⟩ := (Stream.gives_nested room).mp h₁
    have h₂ : c₀.snapshot.GoesOn c.enterNested r₂ ys := back ▸ Stream.gives_amb.mp h₂
    cases ys with
    | nil =>
        obtain rfl : r₂ = .finished c.enterNested := h₂
        have stays : c.restore c₀.snapshot = c := back ▸ Context.restore_snapshot c
        have outer : c₀.snapshot.GoesOn (c.restore c₀.snapshot) r zs := outer
        exact .inr ⟨r, stays ▸ outer, .refl .same⟩
    | cons n later =>
        refine (gives_inner later room h₂ outer).imp_left fun limit => node ?_
        have begun : (Query.stream (.choice c.snapshot (evaluate n) later) c.enterNested).Exceeds :=
          back ▸ limit
        exact Query.Exceeds.nested (.head (Query.asks_of_move rfl) begun) room t
  · exact .inl (node (.barred (Query.barred_nested room ..)))

/-- What a request of a choice relies on: all that is referred to exists, and all that there was in
the context `c₀` is there. -/
abbrev lasting (c₀ : Context) : Contract := Regime.inRange.contract.and (persisting c₀)

theorem lasting_kept (c₀ : Context) : (lasting c₀).Kept :=
  Regime.inRange.kept.both (persisting_kept c₀)

/-- Where an alternative has left the choice, the snapshot is the one of the choice, and the next
alternative can be asked. -/
theorem restored (h₀ : c₀.Fits .inRange) (hf : c.Fits .inRange) (hp : c₀.Persists c) (n : Node) :
    (c.restore c₀.snapshot).snapshot = c₀.snapshot ∧
      (lasting c₀).stream (evaluate n) (c.restore c₀.snapshot) := by
  have fits : (c.restore c₀.snapshot).Fits .inRange :=
    hf.restore (h₀.snapshot.mono hp.frames.next_le)
  have persists : c₀.Persists (c.restore c₀.snapshot) := hp.restore (Nat.le_refl _)
  exact ⟨Context.snapshot_restore h₀.whole hp fits.whole, ⟨fits, fun _ _ => trivial⟩, persists,
    List.forall_mem_nil _⟩

/-- While an alternative in front of the inner choice is open. -/
theorem gives_before (h₀ : c₀.Fits .inRange) (later : List Node) {c : Context} {current : Stream}
    (hk : (lasting c₀).stream current c) :
    Stream.Follows (Flattens c₀.snapshot t u ys zs) c
      (.choice c₀.snapshot current (later ++ .amb t u ys :: zs))
      (.choice c₀.snapshot current (later ++ (ys ++ zs))) := by
  intro r hr
  obtain ⟨r₁, h₁, after⟩ := Stream.gives_choice_iff.mp hr
  cases r₁ with
  | yield outcome current' c' =>
      obtain rfl : r = _ := after
      exact .inr ⟨_, Stream.gives_choice_iff.mpr ⟨_, h₁, rfl⟩, .yield (.before current' later)⟩
  | failed failure c' =>
      obtain rfl : r = _ := after
      exact .inr ⟨_, Stream.gives_choice_iff.mpr ⟨_, h₁, rfl⟩, .failed failure c'⟩
  | finished c' =>
      obtain ⟨⟨fits, -, -⟩, persists⟩ := (lasting_kept c₀).gives hk h₁
      have next := restored h₀ fits persists
      cases later with
      | nil =>
          obtain limit | ⟨r', h', matched⟩ := gives_begin (next (.amb t u ys)).1 after
          · exact .inl (.head (Query.asks_choice h₁) limit)
          · exact .inr ⟨r', Stream.gives_choice_iff.mpr ⟨_, h₁, h'⟩, matched⟩
      | cons n later =>
          obtain limit | ⟨r', h', matched⟩ := gives_before h₀ later (next n).2 r after
          · exact .inl (.head (Query.asks_choice h₁) limit)
          · exact .inr ⟨r', Stream.gives_choice_iff.mpr ⟨_, h₁, h'⟩, matched⟩

/-- A request that is not the first. -/
theorem gives (h₀ : c₀.Fits .inRange) {inner inner' : Stream}
    (h : Flattens c₀.snapshot t u ys zs inner inner') (hk : (lasting c₀).stream inner c) :
    Stream.Follows (Flattens c₀.snapshot t u ys zs) c inner inner' := by
  cases h with
  | before current later =>
      obtain ⟨⟨fits, -, hcurrent, -⟩, persists, floors⟩ := hk
      exact gives_before h₀ later ⟨⟨fits, hcurrent⟩, persists, (List.forall_mem_cons.mp floors).2⟩
  | inside current later => exact gives_inside current later
  | same s => exact fun r hr => .inr ⟨r, hr, .refl .same⟩

/-- The first request. -/
theorem gives_first (h₀ : c₀.Fits .inRange) :
    Stream.Follows (Flattens c₀.snapshot t u ys zs) c₀.enterNested (.amb (xs ++ .amb t u ys :: zs))
      (.amb (xs ++ (ys ++ zs))) := by
  intro r hr
  simp only [Stream.gives_amb] at hr ⊢
  cases xs with
  | nil =>
      exact (gives_begin (c := c₀.enterNested) rfl hr).imp_left (.head (Query.asks_of_move rfl))
  | cons n later =>
      have hk : (lasting c₀).stream (evaluate n) c₀.enterNested :=
        ⟨⟨h₀.deeper, fun _ _ => trivial⟩, (Context.Persists.refl c₀).deeper, List.forall_mem_nil _⟩
      exact (gives_before h₀ later hk r hr).imp_left (.head (Query.asks_of_move rfl))

end Flattens

/-! ### Request after request -/

/-- What a consumer may make of a context between two requests.  Nothing else can be done to frames
than to add some and to change tables, and nothing is referred to that does not exist; so all that
is asked of the consumer is to leave at least `n` failures. -/
structure Context.Tended (n : Nat) (c c' : Context) : Prop where
  frames : c.frames.Remain c'.frames
  global : c'.global = c.global
  fits : c'.Fits .inRange
  failures : n ≤ c'.failures.length

/-- What is left of the two forms, to be asked in the context: both are to be asked for the first
time, or the outer node was entered in both. -/
inductive Flattened (c₀ : Context) (s s' i i' t u : Span) (xs ys zs : List Node) :
    Context → Stream → Stream → Prop
  | new : Flattened c₀ s s' i i' t u xs ys zs c₀ (evaluate (.amb s i (xs ++ .amb t u ys :: zs)))
      (evaluate (.amb s' i' (xs ++ (ys ++ zs))))
  | begun {c : Context} {inner inner' : Stream} (hk : (Flattens.lasting c₀).stream inner c)
      (h : Flattens c₀.snapshot t u ys zs inner inner') :
      Flattened c₀ s s' i i' t u xs ys zs c (.nested s inner) (.nested s' inner')

namespace Flattened

variable {s s' i i' t u : Span} {xs ys zs : List Node}

/-- A request of the outer node, of which the rest can be asked when the consumer is done. -/
theorem nested (s' : Span) {inner inner' : Stream}
    (hk : (Flattens.lasting c₀).stream inner c.enterNested)
    (h : Stream.Follows (Flattens c₀.snapshot t u ys zs) c.enterNested inner inner')
    (hr : (Stream.nested s inner).Gives c r) :
    (Query.stream (.nested s inner) c).Exceeds ∨
      ∃ r', (Stream.nested s' inner').Gives c r' ∧ r.Matches (fun rest rest' => ∀ next,
        r.context.Tended c₀.failures.length next →
          Flattened c₀ s s' i i' t u xs ys zs next rest rest') r' := by
  by_cases room : c.nesting < c.limits.maxNesting
  · obtain ⟨r₁, h₁, rfl⟩ := (Stream.gives_nested room).mp hr
    obtain limit | ⟨r₁', h₁', matched⟩ := h r₁ h₁
    · exact .inl (limit.nested room s)
    refine .inr ⟨_, (Stream.gives_nested room).mpr ⟨_, h₁', rfl⟩, ?_⟩
    have left := (Flattens.lasting_kept c₀).gives hk h₁
    cases matched with
    | @yield outcome rest rest' c' h =>
        obtain ⟨⟨-, -, hrest⟩, persists, floors⟩ := left
        have fits := (hrest _ _ _ rfl).2
        refine .yield fun next tended =>
          .begun ⟨⟨tended.fits, fits.mono tended.frames.next_le⟩, ?_, floors⟩ h
        exact ⟨persists.frames.trans tended.frames, tended.global.trans persists.global,
          tended.failures⟩
    | finished c' => exact .finished _
    | failed failure c' => exact .failed failure _
  · exact .inl (.barred (Query.barred_nested room ..))

/-- **One request of both forms.** -/
theorem gives (h₀ : c₀.Fits .inRange) {st st' : Stream}
    (h : Flattened c₀ s s' i i' t u xs ys zs c st st') (hr : st.Gives c r) :
    (Query.stream st c).Exceeds ∨ ∃ r', st'.Gives c r' ∧ r.Matches (fun rest rest' => ∀ next,
      r.context.Tended c₀.failures.length next →
        Flattened c₀ s s' i i' t u xs ys zs next rest rest') r' := by
  cases h with
  | new =>
      have hk : (Flattens.lasting c).stream (.amb (xs ++ .amb t u ys :: zs)) c.enterNested :=
        ⟨⟨h₀.deeper, fun _ _ _ _ => trivial⟩, (Context.Persists.refl c).deeper,
          List.forall_mem_nil _⟩
      obtain limit | ⟨r', h', matched⟩ :=
        nested s' hk (Flattens.gives_first h₀) (Stream.gives_node.mp hr)
      · exact .inl (.head (Query.asks_of_move rfl) limit)
      · exact .inr ⟨r', Stream.gives_node.mpr h', matched⟩
  | begun hk h =>
      obtain ⟨⟨fits, hinner⟩, persists, floors⟩ := hk
      have hk : (Flattens.lasting c₀).stream _ c.enterNested :=
        ⟨⟨fits.deeper, hinner⟩, persists.deeper, floors⟩
      exact nested s' hk (h.gives h₀ hk) hr

end Flattened

/-- Streams whose replies match, unless a limit is reached, go the same courses. -/
theorem Stream.course_iff {R : Context → Stream → Stream → Prop} {P : Context → Context → Prop}
    (step : ∀ {c s s' r}, R c s s' → s.Gives c r → (Query.stream s c).Exceeds ∨
      ∃ r', s'.Gives c r' ∧ r.Matches (fun t t' => ∀ next, P r.context next → R next t t') r')
    {items : List (Given Outcome)} {close : Close} {s s' : Stream} (h : R c s s')
    (consumer : ∀ g ∈ items, P g.after g.next)
    (limits : ∀ q, s.Requests c items q → ¬ q.Exceeds) :
    s.Course c items close ↔ s'.Course c items close := by
  induction items generalizing s s' c with
  | nil =>
      obtain ⟨r, hr⟩ := s.gives c
      obtain ⟨r', hr', matched⟩ := (step h hr).resolve_left (limits _ .first)
      rw [course_nil hr, course_nil hr', matched.close?]
  | cons g items ih =>
      obtain ⟨r, hr⟩ := s.gives c
      obtain ⟨r', hr', matched⟩ := (step h hr).resolve_left (limits _ .first)
      rw [List.forall_mem_cons] at consumer
      rw [course_cons hr, course_cons hr']
      cases matched with
      | finished _ | failed _ _ =>
          constructor
          · rintro ⟨_, e, -⟩
            cases e
          · rintro ⟨_, e, -⟩
            cases e
      | @yield outcome rest rest' c' hR =>
          -- What is said of the other requests is said of those that follow on the first.
          have later (e : g.item = outcome) (e' : g.after = c') :
              rest.Course g.next items close ↔ rest'.Course g.next items close := by
            subst e e'
            exact ih (hR g.next consumer.1) consumer.2 fun q hq => limits q (.later hr hq)
          constructor
          · rintro ⟨_, e, t⟩
            cases e
            exact ⟨_, rfl, (later rfl rfl).mp t⟩
          · rintro ⟨_, e, t⟩
            cases e
            exact ⟨_, rfl, (later rfl rfl).mpr t⟩

/-! ### Choices of literals -/

/-- No limit is reached by requests of which all that is asked on the way is admitted. -/
theorem Query.not_exceeds (fuel : Nat) {qs : List Query}
    (h : qs.all (fun q => q.all (fun q => !q.barred) fuel) = true) : ∀ q ∈ qs, ¬ q.Exceeds := by
  rintro q hq ⟨q', hw, barred⟩
  have admitted := Query.all_within hw (List.all_eq_true.mp h q hq)
  rw [barred] at admitted
  cases admitted

section Literals

variable {s₁ : Snapshot} {span : Span} {later : List Node} {l : Literal}

/-- What is left of a choice after one of its literals. -/
def Stream.atLiteral (span : Span) (s₀ : Snapshot) (later : List Node) : Stream :=
  .choice s₀ (.nested span .empty) later

/-- What is left of a choice in a choice after one of the inner literals. -/
def Stream.atInner (span : Span) (s₀ s₁ : Snapshot) (later : List Node) : Stream :=
  .nested span (.choice s₀ (.nested span (.atLiteral span s₁ later)) [])

theorem Stream.gives_literal (room : c.nesting < c.limits.maxNesting) :
    (evaluate (.literal span l)).Gives c (.yield (.value l.value) (.nested span .empty) c) :=
  gives_node.mpr ((gives_nested room).mpr
    ⟨.yield (.value l.value) .empty c.enterNested, gives_iff.mpr rfl, rfl⟩)

theorem Stream.gives_spent (room : c.nesting < c.limits.maxNesting) :
    (Stream.nested span .empty).Gives c (.finished c) :=
  (gives_nested room).mpr ⟨.finished c.enterNested, gives_iff.mpr rfl, rfl⟩

/-- A choice is begun with a literal. -/
theorem Stream.gives_amb_literal (room : c.nesting + 1 < c.limits.maxNesting) :
    (evaluate (.amb span span (.literal span l :: later))).Gives c
      (.yield (.value l.value) (.nested span (.atLiteral span c.snapshot later)) c) := by
  refine gives_node.mpr ((gives_nested (Nat.lt_of_succ_lt room)).mpr
    ⟨.yield (.value l.value) (.atLiteral span c.snapshot later) c.enterNested, ?_, rfl⟩)
  exact gives_amb.mpr (gives_choice_iff.mpr ⟨_, gives_literal (c := c.enterNested) room, rfl⟩)

/-- A choice goes on with a literal. -/
theorem Stream.gives_next_literal (room : c.nesting + 1 < c.limits.maxNesting) :
    (Stream.nested span (.atLiteral span s₀ (.literal span l :: later))).Gives c
      (.yield (.value l.value) (.nested span (.atLiteral span s₀ later)) (c.restore s₀)) := by
  refine (gives_nested (Nat.lt_of_succ_lt room)).mpr
    ⟨.yield (.value l.value) (.atLiteral span s₀ later) (c.restore s₀).enterNested, ?_, rfl⟩
  refine gives_choice_iff.mpr ⟨_, gives_spent (c := c.enterNested) room, ?_⟩
  exact gives_choice_iff.mpr ⟨_, gives_literal (c := (c.restore s₀).enterNested) room, rfl⟩

/-- A choice goes on with a choice that is begun with a literal. -/
theorem Stream.gives_next_amb (room : c.nesting + 2 < c.limits.maxNesting) :
    (Stream.nested span (.atLiteral span s₀ [.amb span span (.literal span l :: later)])).Gives c
      (.yield (.value l.value) (.atInner span s₀ (c.restore s₀).snapshot later)
        (c.restore s₀)) := by
  refine (gives_nested (Nat.lt_of_succ_lt (Nat.lt_of_succ_lt room))).mpr
    ⟨.yield (.value l.value)
      (.choice s₀ (.nested span (.atLiteral span (c.restore s₀).snapshot later)) [])
      (c.restore s₀).enterNested, ?_, rfl⟩
  refine gives_choice_iff.mpr ⟨_, gives_spent (c := c.enterNested) (Nat.lt_of_succ_lt room), ?_⟩
  exact gives_choice_iff.mpr ⟨_, gives_amb_literal (c := (c.restore s₀).enterNested) room, rfl⟩

/-- A choice in a choice goes on with a literal. -/
theorem Stream.gives_inner_literal (room : c.nesting + 2 < c.limits.maxNesting) :
    (Stream.atInner span s₀ s₁ (.literal span l :: later)).Gives c
      (.yield (.value l.value) (.atInner span s₀ s₁ later) (c.restore s₁)) := by
  refine (gives_nested (Nat.lt_of_succ_lt (Nat.lt_of_succ_lt room))).mpr
    ⟨.yield (.value l.value) (.choice s₀ (.nested span (.atLiteral span s₁ later)) [])
      (c.restore s₁).enterNested, ?_, rfl⟩
  exact gives_choice_iff.mpr ⟨_, gives_next_literal (c := c.enterNested) room, rfl⟩

/-- A choice in a choice comes to its end, and both go back. -/
theorem Stream.gives_inner_nil (room : c.nesting + 2 < c.limits.maxNesting) :
    (Stream.atInner span s₀ s₁ []).Gives c (.finished ((c.restore s₁).restore s₀)) := by
  refine (gives_nested (Nat.lt_of_succ_lt (Nat.lt_of_succ_lt room))).mpr
    ⟨.finished ((c.restore s₁).restore s₀).enterNested, ?_, rfl⟩
  refine gives_choice_iff.mpr ⟨.finished (c.restore s₁).enterNested, ?_, rfl⟩
  refine (gives_nested (c := c.enterNested) (Nat.lt_of_succ_lt room)).mpr
    ⟨.finished (c.restore s₁).enterNested.enterNested, ?_, rfl⟩
  exact gives_choice_iff.mpr ⟨_, gives_spent (c := c.enterNested.enterNested) room, rfl⟩

/-- The course of a choice of three literals, two of them in a choice, and its requests. -/
theorem Stream.course_literals (span : Span) (l l₁ l₂ : Literal) (c n₁ n₂ n₃ : Context)
    (close : Close) (room : c.nesting + 1 < c.limits.maxNesting)
    (room₁ : n₁.nesting + 2 < n₁.limits.maxNesting)
    (room₂ : n₂.nesting + 2 < n₂.limits.maxNesting) :
    let inner : Node := .amb span span [.literal span l₁, .literal span l₂]
    let nested : Node := .amb span span [.literal span l, inner]
    let c₁ := n₁.restore c.snapshot
    let c₂ := n₂.restore c₁.snapshot
    let items : List (Given Outcome) :=
      [⟨.value l.value, c, n₁⟩, ⟨.value l₁.value, c₁, n₂⟩, ⟨.value l₂.value, c₂, n₃⟩]
    ((Stream.atInner span c.snapshot c₁.snapshot []).Course n₃ [] close →
      (evaluate nested).Course c items close) ∧
      ∀ q, (evaluate nested).Requests c items q →
        q ∈ [.stream (evaluate nested) c,
          .stream (.nested span (.atLiteral span c.snapshot [inner])) n₁,
          .stream (.atInner span c.snapshot c₁.snapshot [.literal span l₂]) n₂,
          .stream (.atInner span c.snapshot c₁.snapshot []) n₃] := by
  intro inner nested c₁ c₂ items
  have given : (evaluate nested).Gives c
      (.yield (.value l.value) (.nested span (.atLiteral span c.snapshot [inner])) c) :=
    gives_amb_literal room
  have given₁ : (Stream.nested span (.atLiteral span c.snapshot [inner])).Gives n₁
      (.yield (.value l₁.value) (.atInner span c.snapshot c₁.snapshot [.literal span l₂]) c₁) :=
    gives_next_amb room₁
  have given₂ : (Stream.atInner span c.snapshot c₁.snapshot [.literal span l₂]).Gives n₂
      (.yield (.value l₂.value) (.atInner span c.snapshot c₁.snapshot []) c₂) :=
    gives_inner_literal room₂
  refine ⟨fun last => .yield given (.yield given₁ (.yield given₂ last)), fun q hq => ?_⟩
  rw [requests_cons given, requests_cons given₁, requests_cons given₂, requests_nil] at hq
  simpa using hq

end Literals

/-! ### The two forms -/

/-- **A choice in a choice is a choice.**  Let `amb(xs, amb(ys), zs)` and `amb(xs, ys, zs)` be asked
in a context in which all that is referred to exists, and let a consumer do the same things between
the requests of the one and of the other: whatever keeps the frames that there are, but for their
tables, and does not leave fewer failures than there were at first.  If the requests of the first
form reach no limit, both go the same course: they give the same outcomes in the same contexts, and
they come to the same end, or to the same failure, in the same context. -/
theorem amb_flattens {c : Context} (hc : c.Fits .inRange) (s s' i i' t u : Span)
    (xs ys zs : List Node) {items : List (Given Outcome)}
    (consumer : ∀ g ∈ items, g.after.Tended c.failures.length g.next)
    (limits : ∀ q, (evaluate (.amb s i (xs ++ .amb t u ys :: zs))).Requests c items q → ¬ q.Exceeds)
    (close : Close) :
    (evaluate (.amb s i (xs ++ .amb t u ys :: zs))).Course c items close ↔
      (evaluate (.amb s' i' (xs ++ (ys ++ zs)))).Course c items close :=
  Stream.course_iff (P := Context.Tended c.failures.length) (Flattened.gives hc) .new consumer limits

/-- The rule for a consumer that fails to find a name, and then defines it. -/
theorem amb_flattens_beside_failure :
    let span : Span := ⟨0, 0⟩
    let yes : Node := .literal span (.bool true)
    let no : Node := .literal span (.bool false)
    let nested : Node := .amb span span [yes, .amb span span [yes, no]]
    let flat : Node := .amb span span [yes, yes, no]
    let failure : Failure := .mistake (.undefined "x") span
    let c : Context := .empty .standard fun _ => none
    let c₁ : Context := (c.raised failure).restore c.snapshot
    let c₂ : Context := (c₁.defineGlobal "x" .null).restore c₁.snapshot
    let items : List (Given Outcome) :=
      [⟨.value (.bool true), c, c.raised failure⟩,
        ⟨.value (.bool true), c₁, c₁.defineGlobal "x" .null⟩, ⟨.value (.bool false), c₂, c₂⟩]
    let close : Close := .finished ((c₂.restore c₁.snapshot).restore c.snapshot)
    c.Fits .inRange ∧
      (∀ g ∈ items, g.after.Tended c.failures.length g.next) ∧
      (∀ q, (evaluate nested).Requests c items q → ¬ q.Exceeds) ∧
      (evaluate nested).Course c items close ∧ (evaluate flat).Course c items close := by
  intro span yes no nested flat failure c c₁ c₂ items close
  have host : Host.Fits .inRange fun _ => none := Host.fits_of_asClosure? fun _ _ _ h => by cases h
  have fits : c.Fits .inRange := Context.fits_empty .standard host
  have raised : (c.raised failure).Fits .inRange := fits.raised failure
  have fits₁ : c₁.Fits .inRange := raised.restore fits.snapshot
  have defined : (c₁.defineGlobal "x" .null).Fits .inRange := fits₁.defineGlobal "x" trivial
  have remain : c₁.frames.Remain (c₁.defineGlobal "x" .null).frames :=
    (Context.Operation.since (.defineGlobal "x" .null) c₁).frames.remain
  have fits₂ : c₂.Fits .inRange := defined.restore (fits₁.snapshot.mono remain.next_le)
  have consumer : ∀ g ∈ items, g.after.Tended c.failures.length g.next := by
    simp only [items, List.forall_mem_cons]
    exact ⟨⟨.refl _, rfl, raised, Nat.zero_le _⟩, ⟨remain, rfl, defined, Nat.zero_le _⟩,
      ⟨.refl _, rfl, fits₂, Nat.zero_le _⟩, List.forall_mem_nil _⟩
  obtain ⟨course, requests⟩ := Stream.course_literals span (.bool true) (.bool true) (.bool false)
    c (c.raised failure) (c₁.defineGlobal "x" .null) c₂ close (by decide) (by decide) (by decide)
  have limits : ∀ q, (evaluate nested).Requests c items q → ¬ q.Exceeds := fun q hq =>
    Query.not_exceeds 20 (by decide +kernel) q (requests q hq)
  have course := course (.finished (Stream.gives_inner_nil (by decide)))
  have same :=
    amb_flattens fits span span span span span span [yes] [yes, no] [] consumer limits close
  exact ⟨fits, consumer, limits, course, same.mp course⟩

/-- A consumer that takes back a failure from before the choice.  It was recorded when the choice was
begun, but not when the inner choice was; so of the two forms only the nested one goes back to no
failures at all. -/
theorem amb_does_not_flatten :
    let span : Span := ⟨0, 0⟩
    let yes : Node := .literal span (.bool true)
    let no : Node := .literal span (.bool false)
    let nested : Node := .amb span span [yes, .amb span span [yes, no]]
    let flat : Node := .amb span span [yes, yes, no]
    let failure : Failure := .mistake (.undefined "x") span
    let c₀ : Context := .empty .standard fun _ => none
    let c : Context := c₀.raised failure
    -- The consumer goes back to `c₀` first, and then it fails to find a name.
    let n₁ : Context := c.restore c₀.snapshot
    let c₁ : Context := n₁.restore c.snapshot
    let c₂ : Context := (c₁.raised failure).restore c₁.snapshot
    let items : List (Given Outcome) :=
      [⟨.value (.bool true), c, n₁⟩, ⟨.value (.bool true), c₁, c₁.raised failure⟩,
        ⟨.value (.bool false), c₂, c₂⟩]
    c.Fits .inRange ∧
      (∀ g ∈ items, g.after.Tended 0 g.next) ∧
      (∀ q, (evaluate nested).Requests c items q → ¬ q.Exceeds) ∧
      (evaluate nested).Course c items .left ∧ ¬ (evaluate flat).Course c items .left := by
  intro span yes no nested flat failure c₀ c n₁ c₁ c₂ items
  have host : Host.Fits .inRange fun _ => none := Host.fits_of_asClosure? fun _ _ _ h => by cases h
  have fits₀ : c₀.Fits .inRange := Context.fits_empty .standard host
  have fits : c.Fits .inRange := fits₀.raised failure
  have back : n₁.Fits .inRange := fits.restore fits₀.snapshot
  have remain : c.frames.Remain n₁.frames := (Frames.Retabled.restore c c₀.snapshot).remain
  have fits₁ : c₁.Fits .inRange := back.restore (fits.snapshot.mono remain.next_le)
  have fits₂ : c₂.Fits .inRange := (fits₁.raised failure).restore fits₁.snapshot
  have consumer : ∀ g ∈ items, g.after.Tended 0 g.next := by
    simp only [items, List.forall_mem_cons]
    exact ⟨⟨remain, rfl, back, Nat.zero_le _⟩, ⟨.refl _, rfl, fits₁.raised failure, Nat.zero_le _⟩,
      ⟨.refl _, rfl, fits₂, Nat.zero_le _⟩, List.forall_mem_nil _⟩
  obtain ⟨course, requests⟩ := Stream.course_literals span (.bool true) (.bool true) (.bool false)
    c n₁ (c₁.raised failure) c₂ .left (by decide) (by decide) (by decide)
  have limits : ∀ q, (evaluate nested).Requests c items q → ¬ q.Exceeds := fun q hq =>
    Query.not_exceeds 20 (by decide +kernel) q (requests q hq)
  refine ⟨fits, consumer, limits, course .left, fun t => ?_⟩
  -- The flat form goes back to the failure that there was when it was begun.
  have given : (evaluate flat).Gives c (.yield (.value (.bool true))
      (.nested span (.atLiteral span c.snapshot [yes, no])) c) :=
    Stream.gives_amb_literal (by decide)
  have given₁ : (Stream.nested span (.atLiteral span c.snapshot [yes, no])).Gives n₁
      (.yield (.value (.bool true)) (.nested span (.atLiteral span c.snapshot [no])) c₁) :=
    Stream.gives_next_literal (by decide)
  have given₂ : (Stream.nested span (.atLiteral span c.snapshot [no])).Gives (c₁.raised failure)
      (.yield (.value (.bool false)) (.nested span (.atLiteral span c.snapshot []))
        ((c₁.raised failure).restore c.snapshot)) :=
    Stream.gives_next_literal (by decide)
  obtain ⟨_, e, t⟩ := (Stream.course_cons given).mp t
  cases e
  obtain ⟨_, e, t⟩ := (Stream.course_cons given₁).mp t
  cases e
  obtain ⟨_, e, -⟩ := (Stream.course_cons given₂).mp t
  have same : (c₁.raised failure).restore c.snapshot = c₂ := by injection e
  have failures : [failure] = [] := congrArg Context.failures same
  cases failures

end Nondet
