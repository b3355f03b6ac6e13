import Nondet.Proofs.Search.Lists
import Nondet.Proofs.Tree.Every

/-!
# Search — Simulation

Every node replies what is found of it (`Node.follows`): by induction on the node, each kind of node
by the rule for the stream that it unfolds into.  Functions are called to a depth; as long as the
limit on the stack is not reached, the depth that the search goes into is not reached either
(`callWithin_follows`).
-/

namespace Nondet

variable {k c c₀ : Context} {b d : Nat} {ρ : Link} {call : Search.Call} {e : FrameId}
variable {store : Frames}

/-! ### Streams of single steps -/

namespace Answers

/-- An outcome that is computed when it is wanted. -/
theorem deferred {what : Deferred} {F : Found Outcome}
    (h : what.run.Mirrors Outcome.Linked k ρ c F) :
    Stream.Answers k c.frames.next ρ F (.deferred what) c := by
  intro r hr
  rw [Stream.gives_iff] at hr
  have h : Mirrored Outcome.Linked k ρ c F (what.run.on c) := h
  simp only [Stream.move] at hr
  generalize what.run.on c = result at h hr
  cases h with
  | error =>
      obtain rfl : r = _ := hr
      exact .failed
  | ok hp hρ hH ho =>
      obtain rfl : r = _ := hr
      exact single hp hρ hH ho

/-- For each outcome of a stream a continuation starts another one. -/
theorem flatMap {next : Continuation} {g : Outcome → Search Outcome} (hb : b ≤ c.frames.next)
    (hg : ∀ {ρ' o p store c'}, ρ ≤ ρ' → k.Alike c' → ρ'.Holds store c'.frames → o.Linked ρ' p →
      (next.run p).Starts k ρ' c' (g o store))
    {F : Found Outcome} {outer : Stream} (h : Stream.Answers k b ρ F outer c) :
    Stream.Answers k b ρ (F.bind g) (.flatMap outer next) c := by
  refine each (W := (.flatMap · next)) (f := next.run) (fun {s c r} hr => ?_) hb h hg
  rw [Stream.gives_iff] at hr
  obtain ⟨r', hr', hr⟩ := hr
  refine ⟨r', hr', ?_⟩
  cases r' with
  | yield o s c =>
      simp only [Reply.Each] at hr ⊢
      generalize (next.run o).on c = result at hr ⊢
      rcases result with ⟨failure | inner, c'⟩
      · exact hr
      · exact Move.leads_asked.mp hr
  | finished c => exact hr
  | failed f c => exact hr

/-- For each list of arguments a value is called. -/
theorem calls {span : Span} {callee : Value} {g : List Value → Search Outcome}
    (hb : b ≤ c.frames.next)
    (hg : ∀ {ρ' vs ws store c'}, ρ ≤ ρ' → k.Alike c' → ρ'.Holds store c'.frames →
      Values.Linked ρ' vs ws →
        Stream.Answers k c'.frames.next ρ' (g vs store) (apply callee ws span none) c')
    {F : Found (List Value)} {arguments : Odometer} (h : Odometer.Answers k b ρ F arguments c) :
    Stream.Answers k b ρ (F.bind g) (.calls span callee arguments) c := by
  refine each (W := (.calls span callee ·)) (f := fun ws => pure (apply callee ws span none))
    (fun {o c r} hr => ?_) hb h fun hle hk hH hv => .pure hk (hg hle hk hH hv)
  rw [Stream.gives_iff] at hr
  obtain ⟨r', hr', hr⟩ := hr
  refine ⟨r', hr', ?_⟩
  cases r' with
  | yield ws o c => exact Move.leads_asked.mp hr
  | finished c => exact hr
  | failed f c => exact hr

/-- A node that was begun.  Either the limit is reached or it is asked inside. -/
theorem nested {span : Span} {s : Stream} {F : Found Outcome}
    (h : Stream.Answers k.enterNested b ρ F s c.enterNested) :
    Stream.Answers k b ρ F (.nested span s) c := by
  have h := inside (.nested k b) (f := id) (W := (.nested span ·)) id (fun {s c r} hr => ?_) h
  · rw [← F.bind_one]
    exact h
  by_cases hn : c.nesting < c.limits.maxNesting
  · obtain ⟨r', hr', rfl⟩ := (Stream.gives_nested hn).mp hr
    refine .inr ⟨r', hr', ?_⟩
    cases r' with
    | yield o s c => exact .yield
    | finished c => exact .finished
    | failed f c => exact .failed
  · rw [Stream.gives_iff] at hr
    rw [Stream.move_nested_full (Nat.le_of_not_lt hn)] at hr
    exact .inl ⟨_, _, hr, rfl⟩

end Answers

/-! ### Calls -/

/-- Where nodes are asked: in a frame that is on the stack, with the natives of the prelude, and
with no more calls to come inside one another than `d` before the limit is reached. -/
structure Context.Stage (d : Nat) (k : Context) : Prop where
  current : k.current ∈ k.stack
  host : k.host = Prelude.host
  depth : k.limits.maxDepth ≤ k.depth + d

/-- Calls reply what is found of them. -/
def CallsFollow (call : Search.Call) (d : Nat) : Prop :=
  ∀ k c ρ store span closure closure' vs ws, k.host = Prelude.host →
    k.limits.maxDepth ≤ k.depth + d → k.Alike c → ρ.Holds store c.frames →
      closure.Linked ρ closure' → Values.Linked ρ vs ws →
        Stream.Answers k c.frames.next ρ (call span closure vs store)
          (.call span closure' ws none) c

/-- Calling a value. -/
theorem Answers.apply (hcall : CallsFollow call d) (hk : k.Stage d) (hc : k.Alike c)
    (hH : ρ.Holds store c.frames) {span : Span} {v w : Value} (hv : v.Linked ρ w)
    {vs ws : List Value} (hvs : Values.Linked ρ vs ws) :
    Stream.Answers k c.frames.next ρ (Search.apply Prelude.host call span v vs store)
      (apply w ws span none) c := by
  cases hv with
  | closure hcl => exact hcall k c ρ store span _ _ vs ws hk.host hk.depth hc hH hcl hvs
  | plain hp =>
      cases v with
      | closure _ => cases hp
      | native name =>
          exact deferred ((Action.Mirrors.callNative hc hk.host hH span name hvs).bind
            fun _ _ _ _ _ _ hp hH' hv => .pure hp.alike hH' (.value hv))
      | _ => exact deferred (.raise _)

/-! ### Nodes -/

/-- The first unfolding of the node replies what is found of the node. -/
def Node.Builds (call : Search.Call) (k : Context) (e : FrameId) (n : Node) : Prop :=
  ∀ c ρ store, k.Alike c → ρ.Holds store c.frames → ρ.frame e k.current →
    Stream.Answers k c.frames.next ρ (n.search Prelude.host call e store) (.build n) c

theorem Node.Builds.follows {n : Node} (h : n.Builds call k.enterNested e) :
    n.Follows Prelude.host call k e := by
  intro c ρ store hk hH he
  have inside := h c.enterNested ρ store ((Context.Inside.nested k 0).enters hk) hH he
  exact fun r hr => Answers.nested inside r (Stream.gives_node.mp hr)

namespace Context.Stage

theorem nested (hk : k.Stage d) : k.enterNested.Stage d := ⟨hk.current, hk.host, hk.depth⟩

/-- Inside one more frame, and after one call. -/
theorem called (hhost : k.host = Prelude.host) (h : k.limits.maxDepth ≤ k.depth + (d + 1))
    (frame : FrameId) : (k.push frame).Stage d := by
  refine ⟨List.mem_cons_self, hhost, ?_⟩
  show k.limits.maxDepth ≤ k.depth + 1 + d
  omega

theorem push (hk : k.Stage d) (frame : FrameId) : (k.push frame).Stage d :=
  called hk.host (Nat.le_trans hk.depth (Nat.le_succ _)) frame

end Context.Stage

/-! ### Operations on outcomes -/

namespace Action.Mirrors

variable {o p : Outcome}

/-- An action for its value. -/
theorem value {a : Action Value} {F : Found Value} (h : a.Mirrors Value.Linked k ρ c F) :
    Action.Mirrors Outcome.Linked k ρ c (a >>= fun v => Pure.pure (.value v))
      (F.bind fun v => .one (.value v)) :=
  h.bind fun _ _ _ _ _ _ hp hH hv => .pure hp.alike hH (.value hv)

theorem unary (hc : k.Alike c) (hH : ρ.Holds store c.frames) (ho : o.Linked ρ p) (span : Span)
    (op : UnaryOp) :
    ((Transform.unary span op).run p).Mirrors Outcome.Linked k ρ c
      ((Search.operand span op.symbol o store).bind fun v store =>
        (Search.check span (op.apply v) store).bind fun v => .one (.value v)) := by
  refine (operand hc hH span op.symbol ho).bind fun v w store c' ρ' _ hp hH' hv => ?_
  rw [hv.unary op]
  exact (check hp.alike hH' span fun _ h => .plain (UnaryOp.asClosure?_apply h)).value

theorem binary (hc : k.Alike c) (hH : ρ.Holds store c.frames) {v w : Value} (hv : v.Linked ρ w)
    (ho : o.Linked ρ p) (span : Span) (op : BinaryOp) :
    ((Transform.binary span op w).run p).Mirrors Outcome.Linked k ρ c
      ((Search.operand span op.symbol o store).bind fun v' store =>
        (Search.check span (op.apply v v') store).bind fun v => .one (.value v)) := by
  refine (operand hc hH span op.symbol ho).bind fun v' w' store c' ρ' hρ hp hH' hv' => ?_
  rw [Value.Linked.binary hH' (hv.mono hρ) hv' op]
  exact (check hp.alike hH' span fun _ h => .plain (BinaryOp.asClosure?_apply h)).value

theorem declaration (hs : k.current ∈ k.stack) (hc : k.Alike c) (hH : ρ.Holds store c.frames)
    (he : ρ.frame e k.current) (ho : o.Linked ρ p) (span : Span) (keyword : DeclarationKeyword)
    (name : String) :
    ((Transform.define span keyword name).run p).Mirrors Outcome.Linked k ρ c
      ((Search.operand span "variable declaration" o store).bind fun v store =>
        (Search.define name v keyword.isConstant span e store).bind fun _ => .one (.value v)) := by
  refine (operand hc hH span _ ho).bind fun v w store c' ρ' hρ hp hH' hv => ?_
  have he := hρ.1 _ _ he
  exact (define hp.alike hs hH' he name hv _ span).bind fun _ _ _ _ _ hρ' hp' hH'' _ =>
    .pure hp'.alike hH'' (.value (hv.mono hρ'))

theorem returned (hc : k.Alike c) (hH : ρ.Holds store c.frames) (ho : o.Linked ρ p) (span : Span) :
    ((Transform.return span).run p).Mirrors Outcome.Linked k ρ c
      ((Search.operand span "return" o store).bind fun v => .one (.returned v)) :=
  (operand hc hH span _ ho).bind fun _ _ _ _ _ _ hp hH' hv => .pure hp.alike hH' (.returned hv)

theorem closure (hc : k.Alike c) (hH : ρ.Holds store c.frames) (he : ρ.frame e k.current)
    {function : Function} (hf : function.Every Node.Settled) :
    (Deferred.closure function).run.Mirrors Outcome.Linked k ρ c
      ((Search.makeClosure function e store).bind fun closure => .one (.value (.closure closure))) :=
  (makeClosure hc hH he hf).bind fun _ _ _ _ _ _ hp hH' hv =>
    .pure hp.alike hH' (.value (.closure hv))

theorem functionDeclaration (hs : k.current ∈ k.stack) (hc : k.Alike c)
    (hH : ρ.Holds store c.frames) (he : ρ.frame e k.current) {function : Function}
    (hf : function.Every Node.Settled) (span : Span) :
    (Deferred.defineFunction span function).run.Mirrors Outcome.Linked k ρ c
      ((Search.makeClosure function e store).bind fun closure store =>
        (Search.define (function.name.getD "") (.closure closure) true span e store).bind fun _ =>
          .one (.value .undefined)) := by
  refine (makeClosure hc hH he hf).bind fun v w store c' ρ' hρ hp hH' hv => ?_
  have he := hρ.1 _ _ he
  exact (define hp.alike hs hH' he _ (.closure hv) true span).bind fun _ _ _ _ _ _ hp' hH'' _ =>
    .pure hp'.alike hH'' (.value .undefined)

end Action.Mirrors

section

variable {n : Node}

/-- A branch on an outcome. -/
theorem Continuation.starts_branch (hn : n.Follows Prelude.host call k e) {alternate : Option Node}
    (ha : ∀ m ∈ alternate, m.Follows Prelude.host call k e) (hk : k.Alike c)
    (hH : ρ.Holds store c.frames) (he : ρ.frame e k.current) (span : Span) (test : Test)
    {o p : Outcome} (ho : o.Linked ρ p) :
    ((Continuation.branch span test n alternate).run p).Starts k ρ c
      ((Search.decision span test o store).bind fun taken =>
        if taken then n.search Prelude.host call e
        else (alternate.map (Node.search Prelude.host call · e)).getD
          fun store => .one (.value .undefined) store) := by
  have unfolded : Search.decision span test o store =
      (Search.operand span test.operation o store).bind fun v =>
        Search.check span (test.decide v) := rfl
  rw [unfolded, Found.bind_assoc]
  refine .bind (.operand hk hH span test.operation ho) fun v w store c' ρ' hρ hp hH' hv => ?_
  have decided : (Action.check span (test.decide w)).Mirrors Link.Same k ρ' c'
      (Search.check span (test.decide w) store) := .check hp.alike hH' span fun _ _ => rfl
  rw [hv.decide test]
  refine .bind decided ?_
  rintro taken _ store' c'' ρ'' hρ' hp' hH'' rfl
  have he := hρ'.1 _ _ (hρ.1 _ _ he)
  cases taken with
  | true => exact .pure hp'.alike (hn c'' ρ'' store' hp'.alike hH'' he)
  | false =>
      cases alternate with
      | none => exact .pure hp'.alike (.once hp'.alike hH'' (.value .undefined))
      | some m => exact .pure hp'.alike (ha m rfl c'' ρ'' store' hp'.alike hH'' he)

/-- A branch on the outcomes of a node. -/
theorem Answers.branch {condition : Node} (h : condition.Follows Prelude.host call k e)
    (hn : n.Follows Prelude.host call k e) (alternate : Option Node)
    (ha : ∀ m ∈ alternate, m.Follows Prelude.host call k e) (hk : k.Alike c)
    (hH : ρ.Holds store c.frames) (he : ρ.frame e k.current) (span : Span) (test : Test) :
    Stream.Answers k c.frames.next ρ
      ((condition.search Prelude.host call e store).bind fun o store =>
        (Search.decision span test o store).bind fun taken =>
          if taken then n.search Prelude.host call e
          else (alternate.map (Node.search Prelude.host call · e)).getD
            fun store => .one (.value .undefined) store)
      (.branch span test condition n alternate) c :=
  flatMap (Nat.le_refl _)
    (fun hle hk hH ho => Continuation.starts_branch hn ha hk hH (hle.1 _ _ he) span test ho)
    (h c ρ store hk hH he)

/-- A literal is no matter of calls. -/
theorem Node.follows_literal (span : Span) (value : Literal) :
    (Node.literal span value).Follows Prelude.host call k e :=
  Node.Builds.follows fun _ _ _ hc hH _ => .once hc hH (.value (.plain (by cases value <;> rfl)))

end

/-! ### Frames -/

/-- What comes out of a frame: the outcomes as `f` has them, and the frame is taken off. -/
theorem Reply.outside_frame {f : Outcome → Outcome} {W : Stream → Stream}
    {r r' : Reply Stream Outcome}
    (h : Move.Leads (match r with
      | .yield o s c      => .answer (.yield (f o) (W s) c.pop)
      | .finished c       => .answer (.finished c.pop)
      | .failed failure c => .answer (.failed failure c)) r') :
    r.Outside f W Context.pop r' := by
  cases r with
  | yield o s c =>
      obtain rfl : r' = _ := h
      exact .yield
  | finished c =>
      obtain rfl : r' = _ := h
      exact .finished
  | failed failure c =>
      obtain rfl : r' = _ := h
      exact .failed

theorem Outcome.Linked.ofBody {o p : Outcome} (h : o.Linked ρ p) : o.ofBody.Linked ρ p.ofBody := by
  cases h with
  | value _ => exact .value .undefined
  | returned hv => exact .value hv
  | cut => exact .value .undefined

namespace Answers

/-- The statements of a block, seen from outside its frame. -/
theorem framed {frame : FrameId} (hb : b ≤ frame) {s : Stream} {F : Found Outcome}
    (h : Stream.Answers (k.push frame) b ρ F s (c.push frame)) :
    Stream.Answers k b ρ F (.framed frame s) c := by
  have h := inside (.frame k hb) (f := id) (W := (.framed frame ·)) id (fun {s c r} hr => ?_) h
  · rw [← F.bind_one]
    exact h
  obtain ⟨r', hr', hr⟩ := Stream.gives_iff.mp hr
  exact .inr ⟨r', hr', Reply.outside_frame hr⟩

/-- The statements of a function, seen from its call. -/
theorem activation {frame : FrameId} (hb : b ≤ frame) {s : Stream} {F : Found Outcome}
    (h : Stream.Answers (k.push frame) b ρ F s (c.push frame)) :
    Stream.Answers k b ρ (F.bind fun o => .one o.ofBody) (.activation frame s) c := by
  refine inside (.frame k hb) (f := Outcome.ofBody) (W := (.activation frame ·)) (·.ofBody)
    (fun {s c r} hr => ?_) h
  obtain ⟨r', hr', hr⟩ := Stream.gives_iff.mp hr
  exact .inr ⟨r', hr', Reply.outside_frame hr⟩

/-- Statements in a new frame that is linked to the one that the search puts them into. -/
theorem scope (hc : k.Alike c) (hH : ρ.Holds store c.frames) {f g : Frame}
    (hb : f.bindings.Linked ρ g.bindings) (hp : Option.Rel ρ.frame f.parent g.parent)
    {ns : List Node}
    (hn : ∀ n ∈ ns, n.Follows Prelude.host call (k.push c.frames.next) store.next) :
    Stream.Answers (k.push c.frames.next) c.frames.next ρ
      (searchBody Prelude.host call ns store.next (store.push f)) (.body ns)
      ((c.addFrame g).push c.frames.next) := by
  have inside := Context.Inside.frame k (Nat.le_refl c.frames.next)
  have alike := inside.enters (hc.trans (.frames c (c.frames.push g)))
  have older : c.frames.next ≤ (c.frames.push g).next := by
    rw [Frames.next_push]
    exact Nat.le_succ _
  exact (body List.mem_cons_self alike (hH.push hb hp) (.inr ⟨rfl, rfl⟩) hn).mono older
    (ρ.le_withFrame _ _)

/-- A block runs in a new frame inside the innermost one. -/
theorem block (hc : k.Alike c) (hH : ρ.Holds store c.frames) (he : ρ.frame e k.current)
    {ns : List Node}
    (hn : ∀ n ∈ ns, n.Follows Prelude.host call (k.push c.frames.next) store.next) :
    Stream.Answers k c.frames.next ρ
      (searchBody Prelude.host call ns store.next (store.push (.child "block" e))) (.block ns) c := by
  have inner := framed (Nat.le_refl _)
    (scope (f := .child "block" e) (g := .child "block" c.current) hc hH .nil
      (.some (hc.current ▸ he)) hn)
  intro r hr
  exact (inner r (Move.leads_asked.mp (Stream.gives_iff.mp hr))).after (.push _ (Nat.le_refl _))

end Answers

/-! ### All nodes -/

/-- The unfolding of a node replies what is found of the node when the nodes in it do. -/
theorem Node.builds_of_children (hcall : CallsFollow call d) {n : Node} (hn : n.Every Node.Settled)
    (ih : ∀ m ∈ n.children, ∀ k e, k.Stage d → m.Builds call k e) (hk : k.Stage d) :
    n.Builds call k e := by
  intro c ρ store hc hH he
  have hs := hk.current
  have follows (m : Node) (hm : m ∈ n.children) : m.Follows Prelude.host call k e :=
    (ih m hm k.enterNested e hk.nested).follows
  cases n with
  | literal span value => exact .once hc hH (.value (.plain (by cases value <;> rfl)))
  | identifier span name =>
      simp only [Node.search, Stream.build]
      by_cases h : name = cutName
      · rw [if_pos h, if_pos h]
        exact .once hc hH .cut
      · rw [if_neg h, if_neg h]
        exact .deferred (Action.Mirrors.lookup hc hH he name span).value
  | call span callee arguments =>
      have ha : ∀ m ∈ arguments, m.Follows Prelude.host call k e :=
        fun m hm => follows m (List.mem_cons_of_mem _ hm)
      simp only [Node.search, Stream.build]
      by_cases h : callee.isAmb
      · rw [if_pos h, if_pos h]
        exact .amb hc hH he ha
      · rw [if_neg h, if_neg h]
        refine .flatMap (Nat.le_refl _) (fun hle hk' hH ho => ?_)
          (follows callee List.mem_cons_self c ρ store hc hH he)
        refine .bind (.operand hk' hH span "call" ho) fun v w store c' ρ' hρ hp hH hv => ?_
        have he := hρ.1 _ _ (hle.1 _ _ he)
        exact .pure hp.alike (.calls (Nat.le_refl _)
          (fun hle hk' hH hvs => .apply hcall hk hk' hH (hv.mono hle) hvs)
          (.arguments hp.alike hH he ha))
  | unary span op argument =>
      exact .map (Nat.le_refl _) (fun _ hk hH ho => .unary hk hH ho span op)
        (follows argument List.mem_cons_self c ρ store hc hH he)
  | binary span op left right =>
      have hl := follows left (by simp [Node.children])
      have hr := follows right (by simp [Node.children])
      refine .flatMap (Nat.le_refl _) (fun hle hk hH ho => ?_) (hl c ρ store hc hH he)
      refine .bind (.operand hk hH span op.symbol ho) fun v w store c' ρ' hρ hp hH hv => ?_
      have he := hρ.1 _ _ (hle.1 _ _ he)
      exact .pure hp.alike (.map (Nat.le_refl _)
        (fun hle hk hH ho => .binary hk hH (hv.mono hle) ho span op)
        (hr c' ρ' store hp.alike hH he))
  | logical span op left right =>
      have hl := follows left (by simp [Node.children])
      have hr := follows right (by simp [Node.children])
      cases op with
      | and =>
          -- The branch that is not taken is a literal of its own.
          refine .branch hl hr (some (.literal span (.bool false))) ?_ hc hH he span _
          rintro _ ⟨⟩
          exact Node.follows_literal span _
      | or =>
          refine .branch hl (Node.follows_literal span (.bool true)) (some right) ?_ hc hH he span _
          rintro _ ⟨⟩
          exact hr
  | conditional span test consequent alternate =>
      have ht := follows test (by simp [Node.children])
      have hc' := follows consequent (by simp [Node.children])
      refine .branch ht hc' (some alternate) ?_ hc hH he span _
      rintro _ ⟨⟩
      exact follows alternate (by simp [Node.children])
  | variableDeclaration span keyword name init =>
      exact .map (Nat.le_refl _)
        (fun hle hk hH ho => .declaration hs hk hH (hle.1 _ _ he) ho span keyword name)
        (follows init List.mem_cons_self c ρ store hc hH he)
  -- Nothing is assigned, and no script stands inside another.
  | assignment span name value => exact absurd hn.self.1 (by simp [Node.isAssignment])
  | functionDeclaration span name params form body =>
      exact .deferred (.functionDeclaration hs hc hH he (hn.child List.mem_cons_self) span)
  | arrowFunction span name params form body =>
      exact .deferred (.closure hc hH he (hn.child List.mem_cons_self))
  | ifStatement span test consequent alternate =>
      have ht := follows test (by simp [Node.children])
      have hc' := follows consequent (by simp [Node.children])
      cases alternate with
      | none => exact .branch ht hc' none (fun _ h => by cases h) hc hH he span _
      | some m =>
          refine .branch ht hc' (some m) ?_ hc hH he span _
          rintro _ ⟨⟩
          exact follows m (by simp [Node.children])
  | returnStatement span argument =>
      cases argument with
      | none => exact .once hc hH (.returned .undefined)
      | some m =>
          exact .map (Nat.le_refl _) (fun _ hk hH ho => .returned hk hH ho span)
            (follows m (by simp [Node.children]) c ρ store hc hH he)
  | block span statements =>
      have unfolded : (Node.block span statements).search Prelude.host call e store =
          searchBody Prelude.host call statements store.next (store.push (.child "block" e)) :=
        Found.one_bind _ _ _
      rw [unfolded]
      exact .block hc hH he fun m hm => (ih m hm _ _ (hk.push c.frames.next).nested).follows
  | expressionStatement span expression =>
      exact ih expression List.mem_cons_self k e hk c ρ store hc hH he
  | program span statements => exact absurd hn.self.2 (by simp [Node.isProgram])

theorem Node.builds (hcall : CallsFollow call d) :
    ∀ n : Node, n.Every Node.Settled → ∀ k e, k.Stage d → n.Builds call k e :=
  Node.of_children fun _ ih hn _ _ hk =>
    builds_of_children hcall hn (fun m hm k e hk => ih m hm (hn.child hm) k e hk) hk

/-- **Every node replies what is found of it**, when calls do. -/
theorem Node.follows (hcall : CallsFollow call d) {n : Node} (hn : n.Every Node.Settled)
    (hk : k.Stage d) : n.Follows Prelude.host call k e :=
  (Node.builds hcall n hn _ _ hk.nested).follows

/-- A call with its own frame runs the function's statements one level further down. -/
theorem Answers.called (hcall : CallsFollow call d) (hhost : k.host = Prelude.host)
    (hd : k.limits.maxDepth ≤ k.depth + (d + 1)) (hc : k.Alike c) (hH : ρ.Holds store c.frames)
    {closure closure' : Closure} (hcl : closure.Linked ρ closure') {vs ws : List Value}
    (hv : Values.Linked ρ vs ws) (span : Span) :
    Stream.Answers k c.frames.next ρ
      ((searchBody Prelude.host call closure.function.statements store.next
        (store.push (.activation closure vs span none))).bind fun o => .one o.ofBody)
      (.activation c.frames.next (.body closure'.function.statements))
      (c.addFrame (.activation closure' ws span none)) := by
  have settled : ∀ n ∈ closure.function.statements, n.Every Node.Settled :=
    hcl.settled.statements fun _ _ => ⟨rfl, rfl⟩
  rw [hcl.function]
  refine activation (Nat.le_refl _) (scope hc hH ?_ (.some hcl.frame) fun n hn => ?_)
  · have same : closure'.params = closure.params := congrArg Function.params hcl.function
    simp only [Frame.activation, same]
    exact .ofArguments closure.params hv
  · exact Node.follows hcall (settled n hn) (.called hhost hd _)

/-- With a wrong number of arguments nothing is called, to whatever depth. -/
theorem callWithin_refused {closure : Closure} {vs : List Value}
    (h : vs.length ≠ closure.params.length) (span : Span) :
    callWithin Prelude.host d span closure vs store =
      .stop (.failed (.mistake (.argumentCount closure.params.length vs.length) span)) := by
  have refused : Search.arity span closure vs = Search.blame span _ := if_pos h
  cases d <;>
    simp only [callWithin, refused] <;> rfl

/-- With the right number of arguments the statements run in a frame of their own. -/
theorem callWithin_entered {closure : Closure} {vs : List Value}
    (h : vs.length = closure.params.length) (span : Span) :
    callWithin Prelude.host (d + 1) span closure vs store =
      (searchBody Prelude.host (callWithin Prelude.host d) closure.function.statements store.next
        (store.push (.activation closure vs span none))).bind fun o => .one o.ofBody := by
  have entered : Search.arity span closure vs = pure () := if_neg (not_not.mpr h)
  simp only [callWithin, entered]
  exact (Found.one_bind _ _ _).trans (Found.one_bind _ _ _)

/-- Calls to a depth, when calls to one less do.  If there is none, the limit is reached. -/
theorem callWithin_follows_of
    (h : ∀ d', d = d' + 1 → CallsFollow (callWithin Prelude.host d') d') :
    CallsFollow (callWithin Prelude.host d) d := by
  intro k c ρ store span closure closure' vs ws hhost hd hc hH hcl hv r hr
  have arity : vs.length = ws.length := hv.length_eq
  have params : closure'.params = closure.params := congrArg Function.params hcl.function
  rw [Stream.gives_iff] at hr
  simp only [Stream.move, Action.on_enterCall, params, ← arity] at hr
  by_cases ha : vs.length = closure.params.length
  · rw [if_neg (not_not.mpr ha)] at hr
    -- The stack limit is what keeps the search from going deeper than `d`.
    by_cases hlimit : c.limits.maxDepth < c.depth + 1
    · rw [if_pos hlimit] at hr
      obtain rfl : r = _ := hr
      exact .exceeded rfl
    · rw [if_neg hlimit] at hr
      rw [hc.limits, hc.depth] at hlimit
      -- As the limit is not reached, there is a level left.
      obtain ⟨d', rfl⟩ : ∃ d', d = d' + 1 := ⟨d - 1, by omega⟩
      have inner := Answers.called (h d' rfl) hhost hd hc hH hcl hv span
      rw [callWithin_entered ha]
      exact (inner r (Move.leads_asked.mp hr)).after (.push _ (Nat.le_refl _))
  · rw [callWithin_refused ha]
    rw [if_pos ha] at hr
    obtain rfl : r = _ := hr
    exact .failed

/-- **Calls reply what is found of them**: the search goes as deep as the stack does. -/
theorem callWithin_follows (d : Nat) : CallsFollow (callWithin Prelude.host d) d := by
  induction d with
  | zero => exact callWithin_follows_of fun _ h => by cases h
  | succ d ih =>
      refine callWithin_follows_of ?_
      rintro _ ⟨⟩
      exact ih

end Nondet
