import Nondet.Proofs.Direct.Performs
import Nondet.Proofs.Native.Prelude
import Nondet.Proofs.Session.Dialogue

/-!
# Direct — Agreement

A script without choices does what the ordinary interpreter does (`choiceless_script_runs_once`).
Streams and interpreter are compared node by node: if they agree on the nodes one level deeper, they
agree on what is done inside a node (`Direct.Agrees.step`), and the interpreter's room is exactly the
number of levels that are left (`Direct.agrees_run`).  They agree on everything, failures and limits
included, and on the whole context afterwards.

That no choice is ever met is an invariant of the frames that can be reached: closures made by
earlier scripts may hold choices as long as nothing leads to them.
-/

namespace Nondet

open Nondet.Action

variable {l : Limits} {k : Nat} {R : Regime} {c : Context}

/-! ### Nodes without choice -/

/-- The node is not a choice. -/
def Node.NoChoice : Node → Prop
  | .call _ callee _ => callee.isAmb = false
  | _                => True

/-- The regime under which nothing is a choice.  The frames that may be referred to are some that
were there at first and all later ones. -/
def Regime.choiceless (known : FrameId → Prop) (first : Nat) : Regime where
  node := Node.NoChoice
  frame _ i := known i ∨ first ≤ i
  first := first
  literal _ _ := trivial
  returned _ _ := trivial
  frame_mono _ h := h
  frame_new _ h := .inr h
  frame_old h _ := h

/-- Nothing that the context can reach is a choice: there are frames among which the stack, the
frames around them and the frames of all closures that they hold are, and none of these closures, nor
any that a native gives for such values, has a choice in its body. -/
def Context.Choiceless (c : Context) : Prop := ∃ known first, c.Fits (.choiceless known first)

/-- With a host that only hands closures on, it is the closures in the frames that can be reached
which count. -/
theorem Context.choiceless_iff (hh : c.host.HandsOn) :
    c.Choiceless ↔ ∀ i f closure, c.Reaches i → c.frames.get? i = some f →
      .closure closure ∈ f.values → closure.function.Every Node.NoChoice := by
  constructor
  · rintro ⟨known, first, h⟩ i f closure hi hf hv
    exact ((h.frames.get i f hf (h.reaches hi)).values _ hv).1
  · intro h
    have reached : ∀ i ∈ c.global :: c.stack, c.Reaches i := fun i hi => ⟨i, hi, .refl⟩
    refine ⟨c.Reaches, c.frames.next, ⟨Nat.le_refl _, fun i f hf hi => ?_⟩,
      fun i hi => .inl (reached i (List.mem_cons_of_mem _ hi)),
      .inl (reached _ List.mem_cons_self), hh.fits⟩
    · have hi : c.Reaches i := hi.resolve_right (Nat.not_le_of_lt (Frames.lt_next hf))
      have next : ∀ j ∈ f.neighbours, c.Reaches j := fun j hj =>
        hi.imp fun _ ⟨hr, path⟩ => ⟨hr, path.tail ⟨f, hf, hj⟩⟩
      refine ⟨fun v hv => ?_, fun p hp => .inl (next p (Frame.mem_neighbours.mpr (.inl hp)))⟩
      cases v with
      | closure closure =>
          have hframe := next _ (Frame.mem_neighbours.mpr (.inr ⟨closure, hv, rfl⟩))
          exact ⟨h i f closure hi hf hv, .inl hframe⟩
      | _ => trivial

/-! ### Nodes in nodes -/

/-- The interpreter does with nodes what the streams of the nodes do. -/
def Direct.Agrees (R : Regime) (l : Limits) (k : Nat) (run : Node → Action Outcome) : Prop :=
  ∀ n c, c.Keeps R l k → n.Every R.node → (evaluate n).Performs l k c ((run n).on c)

namespace Direct.Agrees

variable {run : Node → Action Outcome}

/-- Statements after some that are spent. -/
theorem sequence (h : Agrees R l k run) : ∀ (n : Node) (ns : List Node) {c : Context},
    c.Keeps R l k → (∀ m ∈ n :: ns, m.Every R.node) → ∀ {earlier : OpenStatements},
      (Stream.sequence earlier).Spent l k →
        (Stream.sequence (.push (evaluate n) ns earlier)).Performs l k c
          ((statements run (n :: ns)).on c)
  | n, [], c, hc, hn, earlier, he => by
      have hp := h n c hc (hn n List.mem_cons_self)
      rw [statements]
      rcases hr : (run n).on c with ⟨failure | outcome, c'⟩ <;> rw [hr] at hp
      · exact .afterStream hp.gives_error (.fails failure)
      · obtain ⟨rest, hg, hs⟩ := hp.gives_ok
        refine .afterStream hg ?_
        cases outcome with
        | value v => exact .yields (hs.sequence he _)
        | returned v => exact .yields (hs.sequence he _)
        | cut => exact .yields .empty
  | n, n' :: ns, c, hc, hn, earlier, he => by
      have hp := h n c hc (hn n List.mem_cons_self)
      rw [statements, on_bind]
      · rcases hr : (run n).on c with ⟨failure | outcome, c'⟩ <;> rw [hr] at hp
        · exact .afterStream hp.gives_error (.fails failure)
        · obtain ⟨rest, hg, hs⟩ := hp.gives_ok
          have hc' := (hc.afterStream (s := evaluate n) (hn n List.mem_cons_self) hg).1
          have hn' : ∀ m ∈ n' :: ns, m.Every R.node := fun m hm => hn m (List.mem_cons_of_mem _ hm)
          refine .afterStream hg ?_
          cases outcome with
          | value v => exact (sequence h n' ns hc' hn' (hs.sequence he _)).asked
          | returned v => exact .yields (hs.sequence he _)
          -- A cut forgets the statements before it, of which none had an outcome left.
          | cut => exact (sequence h n' ns hc' hn' .noStatements).asked
      · exact fun e => nomatch e

theorem body (h : Agrees R l k run) {ns : List Node} (hc : c.Keeps R l k)
    (hn : ∀ m ∈ ns, m.Every R.node) :
    (Stream.body ns).Performs l k c ((Direct.body run ns).on c) := by
  have hf := (Keeps.hoist ns hc.fits).1
  have hl := hc.level.leaves (Steady.hoist ns c)
  rw [Direct.body, on_bind, Stream.Performs, Stream.move]
  rcases hr : (hoist ns).on c with ⟨failure | _, c'⟩ <;> rw [hr] at hf hl
  · exact .fails failure
  · refine Stream.Performs.asked ?_
    cases ns with
    | nil => exact .once _
    | cons n ns => exact h.sequence n ns ⟨hl, hf⟩ hn .noStatements

/-- The values of arguments, after the values of those before. -/
theorem arguments_after (values : List Value) (n : Node) (ns : List Node) :
    (do return values.reverse ++ (← arguments run (n :: ns)) : Action (List Value)) =
      (do
        let v ← operand n.span "call argument" (← run n)
        return (v :: values).reverse ++ (← arguments run ns)) := by
  simp [arguments]

/-- Arguments after some that are spent. -/
theorem turning (h : Agrees R l k run) : ∀ (n : Node) (ns : List Node) {c : Context},
    c.Keeps R l k → (∀ m ∈ n :: ns, m.Every R.node) → ∀ {earlier : OpenArguments},
      (∀ values, (Odometer.turning earlier values).Spent l k) → ∀ values,
        (Odometer.turning (.push (evaluate n) n.span ns earlier) values).Performs l k c
          ((do return values.reverse ++ (← arguments run (n :: ns))).on c)
  | n, ns, c, hc, hn, earlier, he, values => by
      have hp := h n c hc (hn n List.mem_cons_self)
      rw [arguments_after, on_bind]
      rcases hr : (run n).on c with ⟨failure | outcome, c'⟩ <;> rw [hr] at hp
      · exact .afterStream hp.gives_error (.fails failure)
      obtain ⟨rest, hg, hs⟩ := hp.gives_ok
      have hc' := (hc.afterStream (s := evaluate n) (hn n List.mem_cons_self) hg).1
      refine .afterStream hg ?_
      dsimp only
      rw [on_bind]
      rcases hv : (operand n.span "call argument" outcome).on c' with ⟨failure | v, c''⟩
      · exact .fails failure
      obtain ⟨rfl, rfl⟩ := on_operand_eq_ok hv
      have hspent := fun values => Odometer.Spent.turning hs he n.span ns values
      cases ns with
      | nil =>
          simp only [arguments, pure_bind, List.append_nil]
          exact .yields (hspent values)
      | cons n' ns =>
          have hn' : ∀ m ∈ n' :: ns, m.Every R.node := fun m hm => hn m (List.mem_cons_of_mem _ hm)
          exact (turning h n' ns hc' hn' hspent (_ :: values)).asked

/-- The arguments of a call, none of which was begun. -/
theorem start (h : Agrees R l k run) {ns : List Node} (hc : c.Keeps R l k)
    (hn : ∀ m ∈ ns, m.Every R.node) :
    (Odometer.start ns).Performs l k c ((arguments run ns).on c) := by
  cases ns with
  | nil => exact .yields (.noArguments _)
  | cons n ns =>
      have hp := h.turning n ns hc hn (fun values => .noArguments values) []
      simp only [List.reverse_nil, List.nil_append, bind_pure] at hp
      exact hp.asked

/-- Calling a value. -/
theorem apply (h : Agrees R l k run) (hc : c.Keeps R l k) (span : Span) {values : List Value}
    (hv : Values.Fits R c.frames.next values) {callee : Value} (hf : callee.Fits R c.frames.next) :
    (Nondet.apply callee values span none).Performs l k c ((call run span values callee).on c) := by
  cases callee with
  | closure closure =>
      have nobody : ∀ v ∈ (none : Option Value), v.Fits R c.frames.next := nofun
      have hk := Keeps.enterCall hc.fits span hf hv nobody
      have hl := hc.level.enterCall span closure values none
      rw [call, on_bind, Nondet.apply, Stream.Performs, Stream.move]
      rcases hr : (enterCall span closure values none).on c with ⟨failure | frame, c'⟩ <;>
        rw [Action.Keeps, hr] at hk
      · exact .fails failure
      · rw [hr] at hl
        have hc' : c'.Keeps R l k := ⟨hl, hk.1⟩
        have entered := hc'.push (hk.2.2 frame rfl)
        exact (Stream.Performs.activation
          (h.body entered (hf.1.statements R.returned))).asked
  | native name => exact .deferred (.native span name values)
  | _ => exact .deferred (.notFunction span _)

/-- A call of each list of arguments, of which there is one. -/
theorem calls (h : Agrees R l k run) {ns : List Node} (hc : c.Keeps R l k)
    (hn : ∀ m ∈ ns, m.Every R.node) (span : Span) {callee : Value}
    (hf : callee.Fits R c.frames.next) :
    (Stream.calls span callee (.start ns)).Performs l k c
      ((do call run span (← arguments run ns) callee).on c) := by
  have hp := h.start hc hn
  rw [on_bind]
  rcases hr : (arguments run ns).on c with ⟨failure | values, c'⟩ <;> rw [hr] at hp
  · exact .afterOdometer hp.gives_error (.fails failure)
  · obtain ⟨rest, hg, hs⟩ := hp.gives_ok
    obtain ⟨hc', hle, hv⟩ := hc.afterOdometer (o := .start ns) hn hg
    have hcalls := Stream.Spent.calls hs span callee
    exact .afterOdometer hg ((h.apply hc' span hv (hf.mono hle)).append hcalls).asked

/-- A test, and what is done when it is passed and when it is not. -/
theorem branch (h : Agrees R l k run) (hc : c.Keeps R l k) (span : Span) (t : Test)
    {condition consequent : Node} {alternate : Option Node} (hn : condition.Every R.node)
    {f : Bool → Action Outcome}
    (ht : k < l.maxNesting → ∀ {c' : Context}, c'.Keeps R l k →
      (evaluate consequent).Performs l k c' ((f true).on c'))
    (hf : k < l.maxNesting → ∀ {c' : Context}, c'.Keeps R l k →
      Stream.Performs l k ((alternate.map evaluate).getD (.once (.value .undefined))) c'
        ((f false).on c')) :
    (Stream.branch span t condition consequent alternate).Performs l k c
      ((test run span t condition >>= f).on c) := by
  simp only [test, bind_assoc]
  refine .flatMap (h condition c hc hn) fun outcome rest c' hg => ?_
  have hc' := (hc.afterStream (s := evaluate condition) hn hg).1
  have hk := hc.level.lt_of_gives_yield hg
  refine .bind fun v c'' hv => .bind fun taken c₃ hd => ?_
  obtain ⟨rfl, rfl⟩ := on_operand_eq_ok hv
  obtain ⟨rfl, -⟩ := on_check_eq_ok hd
  cases taken with
  | true => exact .pure (ht hk hc')
  | false => exact .pure (hf hk hc')

/-- **One more node.** -/
theorem step (h : Agrees R l k run) (hR : ∀ n, R.node n → n.NoChoice) :
    ∀ (n : Node) {c : Context}, c.Keeps R l k → n.Every R.node →
      (Stream.build n).Performs l k c ((Direct.step run n).on c)
  | .literal _ value, c, hc, hn => .once _
  | .identifier span name, c, hc, hn => by
      rw [Stream.build, Direct.step]
      split
      · exact .once _
      · exact .deferred (.lookup span name)
  | .call span callee nodes, c, hc, hn => by
      have hcallee : callee.Every R.node := hn.child List.mem_cons_self
      have hnodes : ∀ m ∈ nodes, m.Every R.node := fun m hm => hn.child (List.mem_cons_of_mem _ hm)
      have hchoice : callee.isAmb = false := hR _ hn.self
      rw [Stream.build, if_neg (by simp [hchoice])]
      refine .flatMap (h callee c hc hcallee) fun outcome rest c' hg => ?_
      obtain ⟨hc', -, ho⟩ := hc.afterStream (s := evaluate callee) hcallee hg
      refine .bind fun v c'' hv => .pure ?_
      obtain ⟨rfl, rfl⟩ := on_operand_eq_ok hv
      exact h.calls hc' hnodes span ho
  | .unary span op argument, c, hc, hn =>
      .map (h argument c hc (hn.child List.mem_cons_self)) (.unary span op)
  | .binary span op left right, c, hc, hn => by
      have hleft : left.Every R.node := hn.child (by simp [Node.children])
      refine .flatMap (h left c hc hleft) fun outcome rest c' hg => ?_
      have hc' := (hc.afterStream (s := evaluate left) hleft hg).1
      refine .bind fun v c'' hv => .pure ?_
      obtain ⟨rfl, rfl⟩ := on_operand_eq_ok hv
      exact .map (h right c' hc' (hn.child (by simp [Node.children]))) (.binary span op _)
  | .logical span .and left right, c, hc, hn =>
      h.branch hc span _ (hn.child (by simp [Node.children]))
        (fun _ _ hc' => h right _ hc' (hn.child (by simp [Node.children])))
        (fun hk _ hc' => .literal hc'.level hk span (.bool false))
  | .logical span .or left right, c, hc, hn =>
      h.branch hc span _ (hn.child (by simp [Node.children]))
        (fun hk _ hc' => .literal hc'.level hk span (.bool true))
        (fun _ _ hc' => h right _ hc' (hn.child (by simp [Node.children])))
  | .conditional span condition consequent alternate, c, hc, hn =>
      h.branch hc span _ (hn.child (by simp [Node.children]))
        (fun _ _ hc' => h consequent _ hc' (hn.child (by simp [Node.children])))
        (fun _ _ hc' => h alternate _ hc' (hn.child (by simp [Node.children])))
  | .variableDeclaration span keyword name init, c, hc, hn =>
      .map (h init c hc (hn.child List.mem_cons_self)) (.define span keyword name)
  | .assignment span name value, c, hc, hn =>
      .map (h value c hc (hn.child List.mem_cons_self)) (.assign span name)
  | .functionDeclaration span name params form body, c, hc, hn =>
      .deferred (.defineFunction span ⟨name, params, form, body, span⟩)
  | .arrowFunction span name params form body, c, hc, hn =>
      .deferred (.closure ⟨name, params, form, body, span⟩)
  | .ifStatement span condition consequent none, c, hc, hn =>
      h.branch hc span _ (hn.child (by simp [Node.children]))
        (fun _ _ hc' => h consequent _ hc' (hn.child (by simp [Node.children])))
        (fun _ _ _ => .once _)
  | .ifStatement span condition consequent (some alternate), c, hc, hn =>
      h.branch hc span _ (hn.child (by simp [Node.children]))
        (fun _ _ hc' => h consequent _ hc' (hn.child (by simp [Node.children])))
        (fun _ _ hc' => h alternate _ hc' (hn.child (by simp [Node.children])))
  | .returnStatement _ none, c, hc, hn => .once _
  | .returnStatement span (some argument), c, hc, hn =>
      .map (h argument c hc (hn.child (by simp [Node.children]))) (.return span)
  | .block _ ns, c, hc, hn => by
      have added : (c.addFrame (.child "block" c.current)).Keeps R l k :=
        ⟨hc.level.addFrame _, hc.fits.addFrame (Frame.fits_child "block" hc.fits.current)⟩
      have entered : R.frame (c.addFrame (.child "block" c.current)).frames.next c.frames.next := by
        simpa [Context.addFrame] using R.frame_new c.frames.next hc.fits.frames.first
      exact (Stream.Performs.framed (h.body (added.push entered) fun m hm => hn.child hm)).asked
  | .expressionStatement _ expression, c, hc, hn =>
      h.step hR expression hc (hn.child (by simp [Node.children]))
  | .program _ ns, c, hc, hn => by
      have entered : c.enterProgram.Keeps R l k := ⟨hc.level.enterProgram, hc.fits.enterProgram⟩
      exact (h.body entered fun m hm => hn.child hm).asked

end Direct.Agrees

/-- **The interpreter does with every node what the stream of the node does.** -/
theorem Direct.agrees_run (hR : ∀ n, R.node n → n.NoChoice) :
    ∀ {room k : Nat}, room = l.maxNesting - k → Agrees R l k (Direct.run room)
  | 0, k, hk, n, c, hc, _ => by
      have full : c.limits.maxNesting ≤ c.nesting := by
        rw [hc.level.limits, hc.level.nesting]
        omega
      -- The limit is what the interpreter finds when it has no room.
      refine Stream.Performs.asked (s := .nested n.span (.build n)) ?_
      rw [Stream.Performs, Stream.move_nested_full full]
      exact .fails _
  | room + 1, k, hk, n, c, hc, hn => by
      have inside : Agrees R l (k + 1) (Direct.run room) := agrees_run hR (by omega)
      exact .node hc.level (by omega) (inside.step hR n ⟨hc.level.deeper, hc.fits.deeper⟩ hn)

/-! ### Scripts -/

/-- **A script without choices runs as in an ordinary interpreter.**  Let neither the script nor
anything that the session can reach be a choice.  Then the first request gives what the direct style
gives, with the same context: the same frames with the same tables in them, and the same failures.
If that is an outcome, the next request finds the end and changes nothing whatever; if it is a
failure, there is no more.  So with fuel enough, all that the session answers to the script is this
one value or this failure. -/
theorem choiceless_script_runs_once (s : Session) {source : String} {program : Node}
    (hp : Grammar.parse source = .ok program) (hn : program.Every Node.NoChoice)
    (hc : s.context.Choiceless) :
    ∃ result c', (Direct.run (s.context.limits.maxNesting - s.context.nesting) program).on s.context =
        (result, c') ∧
      (match result with
        | .ok outcome    => ∃ rest, (evaluate program).Gives s.context (.yield outcome rest c') ∧
            rest.Gives c' (.finished c')
        | .error failure => (evaluate program).Gives s.context (.failed failure c')) ∧
      ∃ enough, ∀ fuel ≥ enough, s.all fuel source =
        some ((result.map fun outcome => [outcome.toValue]).mapError (Error.ofFailure · source),
          ⟨c'⟩) := by
  obtain ⟨known, first, hc⟩ := hc
  have agrees := Direct.agrees_run (R := .choiceless known first) (l := s.context.limits)
    (k := s.context.nesting) (fun _ h => h) rfl
  have keeps : s.context.Keeps (.choiceless known first) s.context.limits s.context.nesting :=
    ⟨⟨rfl, rfl⟩, hc⟩
  have performs := agrees program s.context keeps hn
  rcases hr : (Direct.run (s.context.limits.maxNesting - s.context.nesting) program).on s.context
    with ⟨failure | outcome, c'⟩ <;> rw [hr] at performs
  · have gives := performs.gives_error
    obtain ⟨fuel, hf⟩ := Solutions.next_of_gives gives
    exact ⟨_, c', rfl, gives, s.all_of_ends (Session.run_of_parse hp) (.stop hf nofun)⟩
  · obtain ⟨rest, gives, spent⟩ := performs.gives_ok
    have level := (keeps.afterStream (s := evaluate program) hn gives).1.level
    have ends := spent c' level
    obtain ⟨fuel, hf⟩ := Solutions.next_of_gives gives
    obtain ⟨fuel', hf'⟩ := Solutions.next_of_gives ends
    exact ⟨_, c', rfl, ⟨rest, gives, ends⟩,
      s.all_of_ends (Session.run_of_parse hp) (.more hf (.stop hf' nofun))⟩

/-- A new session can reach no choice, if the natives of its host cannot. -/
theorem Session.choiceless_start (options : SessionOptions) {host : Host}
    (h : host.Fits (.choiceless (fun _ => True) 0)) : (start options host).context.Choiceless :=
  ⟨_, _, start_induction options host (Context.fits_empty _ h)
    fun _ name hc => hc.defineGlobal name trivial⟩

/-- Whether the node is a choice. -/
def Node.isChoice : Node → Bool
  | .call _ callee _ => callee.isAmb
  | _                => false

theorem Node.noChoice_of_isChoice {n : Node} (h : n.isChoice = false) : n.NoChoice := by
  cases n with
  | call => exact h
  | _ => trivial

/-- Whether the outcome is true. -/
def Outcome.isTrue : Outcome → Bool
  | .value (.bool b) => b
  | _                => false

theorem Outcome.eq_of_isTrue {o : Outcome} (h : o.isTrue = true) : o = .value (.bool true) := by
  unfold isTrue at h
  split at h
  · rw [h]
  · cases h

/-- The rule for a script that calls a closure which assigns to its parameter. -/
theorem choiceless_script_runs_once_assignment :
    ∃ (s : Session) (source : String) (program : Node),
      Grammar.parse source = .ok program ∧ program.Every Node.NoChoice ∧ s.context.Choiceless ∧
      ∃ c', (∃ rest, (evaluate program).Gives s.context (.yield (.value (.bool true)) rest c') ∧
          rest.Gives c' (.finished c')) ∧
        ∃ enough, ∀ fuel ≥ enough, s.all fuel source = some (.ok [.bool true], ⟨c'⟩) := by
  let s : Session := .start ⟨.standard, true⟩ Prelude.host
  let source := "let f = x => x = true; f(false);"
  have read : (Grammar.parse source).toOption.any (fun program =>
      program.everyDown (!·.isChoice) 10 &&
        ((Direct.run 20000 program).on s.context).1.toOption.any Outcome.isTrue) = true := by
    decide +kernel
  obtain ⟨program, hp, read⟩ := Trial.exists_of_any read
  obtain ⟨choiceless, told⟩ := Bool.and_eq_true_iff.mp read
  have hn : program.Every Node.NoChoice := fun m hm =>
    Node.noChoice_of_isChoice (by simpa using Node.every_of_everyDown choiceless m hm)
  have hc : s.context.Choiceless :=
    Session.choiceless_start _ (Host.fits_of_asClosure? fun _ _ _ => Prelude.asClosure?_call)
  obtain ⟨result, c', hr, gives, all⟩ := choiceless_script_runs_once s hp hn hc
  obtain rfl : result = .ok (.value (.bool true)) := by
    obtain ⟨outcome, ho, told⟩ := Trial.exists_of_any told
    rw [← Outcome.eq_of_isTrue told, ← ho]
    exact (congrArg Prod.fst hr).symm
  exact ⟨s, source, program, hp, hn, hc, c', gives, all⟩

end Nondet
