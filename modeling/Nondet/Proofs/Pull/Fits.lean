import Nondet.Proofs.Operation
import Nondet.Proofs.Context.Fits
import Nondet.Proofs.Pull.Contract

/-!
# Pull — Fits

A stream fits when all nodes, values, frames and snapshots in it do.  The contract of a regime: a
stream that fits, asked in a context that fits, leaves such a context with no fewer frames, and an
outcome and a rest that fit (`Regime.kept`).  So whatever a regime allows, no evaluation ever gets
anything else into its hands.
-/

namespace Nondet

section

variable (R : Regime) (n : Nat)

def Outcome.Fits (o : Outcome) : Prop := o.toValue.Fits R n

def Values.Fits (vs : List Value) : Prop := ∀ v ∈ vs, v.Fits R n

def Deferred.Fits : Deferred → Prop
  | .lookup _ _                => True
  | .defineFunction _ function => function.Every R.node
  | .closure function          => function.Every R.node
  | .native _ _ arguments      => ∀ a ∈ arguments, a.Fits R n
  | .notFunction _ _           => True

def Transform.Fits : Transform → Prop
  | .binary _ _ left => left.Fits R n
  | _                => True

def Continuation.Fits : Continuation → Prop
  | .rightOperand _ _ right             => right.Every R.node
  | .branch _ _ consequent alternate    =>
    consequent.Every R.node ∧ ∀ m ∈ alternate, m.Every R.node
  | .arguments _ nodes                  => ∀ m ∈ nodes, m.Every R.node

mutual

def Stream.Fits : Stream → Prop
  | .empty                      => True
  | .once outcome               => outcome.Fits R n
  | .deferred what              => what.Fits R n
  | .node m                     => m.Every R.node
  | .nested _ inner             => inner.Fits
  | .map inner f                => inner.Fits ∧ f.Fits R n
  | .flatMap outer next         => outer.Fits ∧ next.Fits R
  | .append first second        => first.Fits ∧ second.Fits
  | .calls _ callee arguments   => callee.Fits R n ∧ arguments.Fits
  | .amb alternatives           => ∀ m ∈ alternatives, m.Every R.node
  | .choice snapshot current later =>
    snapshot.Fits R n ∧ current.Fits ∧ ∀ m ∈ later, m.Every R.node
  | .block statements           => ∀ m ∈ statements, m.Every R.node
  | .program statements         => ∀ m ∈ statements, m.Every R.node
  | .body statements            => ∀ m ∈ statements, m.Every R.node
  | .sequence begun             => begun.Fits
  | .framed frame inner         => R.frame n frame ∧ inner.Fits
  | .call _ closure arguments this =>
    closure.Fits R n ∧ (∀ a ∈ arguments, a.Fits R n) ∧ ∀ v ∈ this, v.Fits R n
  | .activation frame inner     => R.frame n frame ∧ inner.Fits

def Odometer.Fits : Odometer → Prop
  | .start arguments      => ∀ m ∈ arguments, m.Every R.node
  | .turning begun values => begun.Fits ∧ ∀ v ∈ values, v.Fits R n

def OpenArguments.Fits : OpenArguments → Prop
  | .none                         => True
  | .push stream _ later earlier  => stream.Fits ∧ (∀ m ∈ later, m.Every R.node) ∧ earlier.Fits

def OpenStatements.Fits : OpenStatements → Prop
  | .none                         => True
  | .push stream later earlier    => stream.Fits ∧ (∀ m ∈ later, m.Every R.node) ∧ earlier.Fits

end

end

variable {R : Regime} {n m : Nat}

/-! ### Growing -/

theorem Deferred.Fits.mono {what : Deferred} (hle : n ≤ m) (h : what.Fits R n) : what.Fits R m := by
  cases what with
  | native _ _ _ => exact fun a ha => (h a ha).mono hle
  | _ => exact h

theorem Transform.Fits.mono {f : Transform} (hle : n ≤ m) (h : f.Fits R n) : f.Fits R m := by
  cases f with
  | binary _ _ left => exact Value.Fits.mono hle h
  | _ => exact h

mutual

theorem Stream.Fits.mono (hle : n ≤ m) : ∀ {s : Stream}, s.Fits R n → s.Fits R m
  | .empty, _ => trivial
  | .once _, h => Value.Fits.mono hle h
  | .deferred _, h => Deferred.Fits.mono hle h
  | .node _, h => h
  | .nested _ inner, h => Stream.Fits.mono hle (s := inner) h
  | .map _ _, h => ⟨h.1.mono hle, h.2.mono hle⟩
  | .flatMap _ _, h => ⟨h.1.mono hle, h.2⟩
  | .append _ _, h => ⟨h.1.mono hle, h.2.mono hle⟩
  | .calls _ _ _, h => ⟨h.1.mono hle, h.2.mono hle⟩
  | .amb _, h => h
  | .choice _ _ _, h => ⟨h.1.mono hle, h.2.1.mono hle, h.2.2⟩
  | .block _, h => h
  | .program _, h => h
  | .body _, h => h
  | .sequence begun, h =>
    (OpenStatements.Fits.mono hle : begun.Fits R n → begun.Fits R m) h
  | .framed _ _, h => ⟨R.frame_mono hle h.1, h.2.mono hle⟩
  | .call _ _ _ _, h =>
    ⟨h.1.mono hle, fun a ha => (h.2.1 a ha).mono hle, fun v hv => (h.2.2 v hv).mono hle⟩
  | .activation _ _, h => ⟨R.frame_mono hle h.1, h.2.mono hle⟩

theorem Odometer.Fits.mono (hle : n ≤ m) : ∀ {o : Odometer}, o.Fits R n → o.Fits R m
  | .start _, h => h
  | .turning _ _, h => ⟨h.1.mono hle, fun v hv => (h.2 v hv).mono hle⟩

theorem OpenArguments.Fits.mono (hle : n ≤ m) :
    ∀ {begun : OpenArguments}, begun.Fits R n → begun.Fits R m
  | .none, _ => trivial
  | .push _ _ _ _, h => ⟨h.1.mono hle, h.2.1, h.2.2.mono hle⟩

theorem OpenStatements.Fits.mono (hle : n ≤ m) :
    ∀ {begun : OpenStatements}, begun.Fits R n → begun.Fits R m
  | .none, _ => trivial
  | .push _ _ _, h => ⟨h.1.mono hle, h.2.1, h.2.2.mono hle⟩

end

/-! ### The first unfolding -/

/-- A node that may be evaluated unfolds into a stream that fits. -/
theorem Stream.fits_build : ∀ {k : Node}, k.Every R.node → (Stream.build k).Fits R n
  | .literal _ value, _ => by cases value <;> trivial
  | .identifier span name, _ => by
      rw [Stream.build]
      split <;> trivial
  | .call span callee arguments, h => by
      rw [Stream.build]
      have ha : ∀ a ∈ arguments, a.Every R.node := fun a ha => h.child (List.mem_cons_of_mem _ ha)
      split
      · exact ha
      · exact ⟨h.child List.mem_cons_self, ha⟩
  | .unary _ _ _, h => ⟨h.child List.mem_cons_self, trivial⟩
  | .binary _ _ _ _, h => ⟨h.child (by simp [Node.children]), h.child (by simp [Node.children])⟩
  | .logical span .and _ _, h => by
      refine ⟨h.child (by simp [Node.children]), h.child (by simp [Node.children]), ?_⟩
      rintro _ ⟨⟩
      exact Node.every_iff.mpr ⟨R.literal _ _, List.forall_mem_nil _⟩
  | .logical span .or _ right, h => by
      refine ⟨h.child (by simp [Node.children]), ?_, fun k hk => ?_⟩
      · exact Node.every_iff.mpr ⟨R.literal _ _, List.forall_mem_nil _⟩
      · exact h.child (by cases hk; simp [Node.children])
  | .conditional _ _ _ _, h =>
    ⟨h.child (by simp [Node.children]), h.child (by simp [Node.children]),
      fun _ hk => h.child (by cases hk; simp [Node.children])⟩
  | .variableDeclaration _ _ _ _, h => ⟨h.child List.mem_cons_self, trivial⟩
  | .assignment _ _ _, h => ⟨h.child List.mem_cons_self, trivial⟩
  | .functionDeclaration _ _ _ _ _, h => h.child (m := _) List.mem_cons_self
  | .arrowFunction _ _ _ _ _, h => h.child (m := _) List.mem_cons_self
  | .ifStatement _ _ _ _, h =>
    ⟨h.child (by simp [Node.children]), h.child (by simp [Node.children]),
      fun _ hk => h.child (by cases hk; simp [Node.children])⟩
  | .returnStatement _ none, _ => trivial
  | .returnStatement _ (some _), h => ⟨h.child (by simp [Node.children]), trivial⟩
  | .block _ _, h => fun _ hm => h.child hm
  | .expressionStatement _ expression, h =>
    Stream.fits_build (k := expression) (h.child (by simp [Node.children]))
  | .program _ _, h => fun _ hm => h.child hm

theorem Stream.fits_ofStatements : ∀ {ss : List Node}, (∀ s ∈ ss, s.Every R.node) →
    (Stream.ofStatements ss).Fits R n
  | [], _ => trivial
  | _ :: _, h =>
    ⟨h _ List.mem_cons_self, fun s hs => h s (List.mem_cons_of_mem _ hs), trivial⟩

theorem fits_apply {callee : Value} (hc : callee.Fits R n) {arguments : List Value}
    (ha : ∀ a ∈ arguments, a.Fits R n) (span : Span) {this : Option Value}
    (ht : ∀ v ∈ this, v.Fits R n) : (apply callee arguments span this).Fits R n := by
  cases callee with
  | closure closure => exact ⟨hc, ha, ht⟩
  | native name => exact ha
  | _ => trivial

theorem Continuation.Next.fits {next : Continuation} {v : Value} {s : Stream} (h : next.Next v s)
    (hn : next.Fits R) (hv : v.Fits R n) : s.Fits R n := by
  cases h with
  | right span op node => exact ⟨hn, hv⟩
  | consequent span test node alternate => exact hn.1
  | alternate span test consequent node => exact hn.2 node rfl
  | neither span test consequent => trivial
  | calls span nodes => exact ⟨hv, hn⟩

/-! ### What streams compute -/

namespace Action.Keeps

variable {c : Context}

theorem operand (hc : c.Fits R) (span : Span) (operation : String) {outcome : Outcome}
    (h : outcome.Fits R c.frames.next) :
    Keeps R (fun n v => v.Fits R n) c (operand span operation outcome) := by
  cases outcome with
  | value v => exact pure hc h
  | returned v => exact pure hc h
  | cut => exact raise hc _

theorem deferred (hc : c.Fits R) {what : Deferred} (h : what.Fits R c.frames.next) :
    Keeps R (fun n o => o.Fits R n) c what.run := by
  cases what with
  | lookup span name => exact bind (lookup hc name span) fun _ _ hc' _ hv => pure hc' hv
  | defineFunction span function =>
      exact bind (makeClosure hc h) fun _ _ hc' _ hcl =>
        bind (define hc' _ (show (Value.closure _).Fits R _ from hcl) true span) fun _ _ hc'' _ _ =>
          pure hc'' trivial
  | closure function => exact bind (makeClosure hc h) fun _ _ hc' _ hcl => pure hc' hcl
  | native span name arguments =>
      exact bind (callNative hc span name h) fun _ _ hc' _ hv => pure hc' hv
  | notFunction span callee => exact raise hc _

theorem transform (hc : c.Fits R) {f : Transform} (hf : f.Fits R c.frames.next) {outcome : Outcome}
    (h : outcome.Fits R c.frames.next) : Keeps R (fun n o => o.Fits R n) c (f.run outcome) := by
  cases f with
  | unary span op =>
      refine bind (operand hc span _ h) fun v _ hc' _ hv => ?_
      refine bind (check hc' span fun w hw => ?_) fun _ _ hc'' _ hw => pure hc'' hw
      exact Value.fits_of_asClosure? (UnaryOp.asClosure?_apply hw)
  | binary span op left =>
      refine bind (operand hc span _ h) fun v _ hc' _ hv => ?_
      refine bind (check hc' span fun w hw => ?_) fun _ _ hc'' _ hw => pure hc'' hw
      exact Value.fits_of_asClosure? (BinaryOp.asClosure?_apply hw)
  | define span keyword name =>
      exact bind (operand hc span _ h) fun v _ hc' _ hv =>
        bind (define hc' name hv _ span) fun _ _ hc'' hle _ => pure hc'' (hv.mono hle)
  | assign span name =>
      exact bind (operand hc span _ h) fun v _ hc' _ hv =>
        bind (assign hc' name hv span) fun _ _ hc'' hle _ => pure hc'' (hv.mono hle)
  | «return» span => exact bind (operand hc span _ h) fun v _ hc' _ hv => pure hc' hv

end Action.Keeps

/-! ### The contract -/

namespace Regime

/-- What fits stays so, and there are no fewer frames than there were. -/
def Leaves (R : Regime) {σ α : Type} (rest : Nat → σ → Prop) (item : Nat → α → Prop) (n : Nat)
    (r : Reply σ α) : Prop :=
  r.context.Fits R ∧ n ≤ r.context.frames.next ∧
    ∀ a s c, r = .yield a s c → item c.frames.next a ∧ rest c.frames.next s

/-- A stream that fits in a context that fits leaves both so. -/
def contract (R : Regime) : Contract where
  stream s c := c.Fits R ∧ s.Fits R c.frames.next
  streamReply _ c r :=
    R.Leaves (fun n s => s.Fits R n) (fun n o => o.Fits R n) c.frames.next r
  odometer o c := c.Fits R ∧ o.Fits R c.frames.next
  odometerReply _ c r :=
    R.Leaves (fun n o => o.Fits R n) (Values.Fits R) c.frames.next r

section Replies

variable {σ α : Type} {rest : Nat → σ → Prop} {item : Nat → α → Prop} {c : Context}

theorem leaves_finished (hc : c.Fits R) (hle : n ≤ c.frames.next) :
    R.Leaves rest item n (.finished c) := ⟨hc, hle, fun _ _ _ h => nomatch h⟩

theorem leaves_failed (hc : c.Fits R) (hle : n ≤ c.frames.next) (failure : Failure) :
    R.Leaves rest item n (.failed failure c) := ⟨hc, hle, fun _ _ _ h => nomatch h⟩

theorem leaves_yield (hc : c.Fits R) (hle : n ≤ c.frames.next) {a : α} {s : σ}
    (ha : item c.frames.next a) (hs : rest c.frames.next s) :
    R.Leaves rest item n (.yield a s c) :=
  ⟨hc, hle, fun _ _ _ h => by cases h; exact ⟨ha, hs⟩⟩

theorem Leaves.mono {r : Reply σ α} (h : R.Leaves rest item m r) (hle : n ≤ m) :
    R.Leaves rest item n r := ⟨h.1, Nat.le_trans hle h.2.1, h.2.2⟩

/-- The reply of an action that keeps what fits. -/
theorem leaves_ofResult {a : Action α} (h : a.Keeps R item c) (hle : n ≤ c.frames.next) {s : σ}
    (hs : ∀ m, c.frames.next ≤ m → rest m s) :
    R.Leaves rest item n (.ofResult s (a.on c)) := by
  obtain ⟨hc', hle', hx⟩ := h
  rcases hr : a.on c with ⟨failure | x, c'⟩ <;> rw [hr] at hc' hle' hx
  · exact leaves_failed hc' (Nat.le_trans hle hle') failure
  · exact leaves_yield hc' (Nat.le_trans hle hle') (hx x rfl) (hs _ hle')

end Replies

/-- A move that asks one stream, for its answer. -/
theorem meets_asked {s : Stream} {c : Context} (hc : c.Fits R) (hs : s.Fits R c.frames.next)
    (hle : n ≤ c.frames.next) :
    (Move.stream s c .answer).Meets R.contract
      (R.Leaves (fun n s => s.Fits R n) (fun n o => o.Fits R n) n) :=
  ⟨⟨hc, hs⟩, fun _ hr => Leaves.mono hr hle⟩

/-- A move that asks one odometer, for its answer. -/
theorem meets_odometer_asked {o : Odometer} {c : Context} (hc : c.Fits R)
    (ho : o.Fits R c.frames.next) (hle : n ≤ c.frames.next) :
    (Move.odometer o c .answer).Meets R.contract
      (R.Leaves (fun n o => o.Fits R n) (Values.Fits R) n) :=
  ⟨⟨hc, ho⟩, fun _ hr => Leaves.mono hr hle⟩

/-! ### One move of each stream -/

section Moves

/-- The moves of the stream in the context keep to the contract. -/
def Stays (R : Regime) (s : Stream) (c : Context) : Prop :=
  (s.move c).Meets R.contract (R.contract.streamReply s c)

/-- The moves of the odometer in the context keep to the contract. -/
def OdometerStays (R : Regime) (o : Odometer) (c : Context) : Prop :=
  (o.move c).Meets R.contract (R.contract.odometerReply o c)

variable {c : Context}

theorem stays_nested (hc : c.Fits R) {inner : Stream} (hs : inner.Fits R c.frames.next)
    (span : Span) : R.Stays (.nested span inner) c := by
  obtain ⟨-, h⟩ | ⟨-, h⟩ := Stream.move_nested_cases span inner c <;> rw [Stays, h]
  · exact leaves_failed (hc.raised _) (Nat.le_refl _) _
  · refine ⟨⟨hc.deeper, hs⟩, fun r hr => ?_⟩
    obtain ⟨hc', hle, hy⟩ := hr
    cases r with
    | yield outcome inner' c' =>
        obtain ⟨ho, hs'⟩ := hy _ _ _ rfl
        exact leaves_yield hc'.leaveNested hle ho hs'
    | finished c' => exact leaves_finished hc'.leaveNested hle
    | failed failure c' => exact leaves_failed hc'.leaveNested hle _

theorem stays_map (hc : c.Fits R) {inner : Stream} (hs : inner.Fits R c.frames.next) {f : Transform}
    (hf : f.Fits R c.frames.next) : R.Stays (.map inner f) c := by
  refine ⟨⟨hc, hs⟩, fun r hr => ?_⟩
  obtain ⟨hc', hle, hy⟩ := hr
  cases r with
  | yield outcome inner' c' =>
      obtain ⟨ho, hs'⟩ := hy _ _ _ rfl
      refine leaves_ofResult (.transform hc' (hf.mono hle) ho) hle fun m hm => ?_
      exact ⟨hs'.mono hm, hf.mono (Nat.le_trans hle hm)⟩
  | finished c' => exact leaves_finished hc' hle
  | failed failure c' => exact leaves_failed hc' hle _

theorem stays_flatMap (hc : c.Fits R) {outer : Stream} (hs : outer.Fits R c.frames.next)
    {next : Continuation} (hn : next.Fits R) : R.Stays (.flatMap outer next) c := by
  refine ⟨⟨hc, hs⟩, fun r hr => ?_⟩
  obtain ⟨hc', hle, hy⟩ := hr
  cases r with
  | yield outcome outer' c' =>
      obtain ⟨ho, hs'⟩ := hy _ _ _ rfl
      obtain ⟨failure, e⟩ | ⟨inner, e, hi⟩ := next.on_run_cases outcome c' <;> simp only [e]
      · exact leaves_failed (hc'.raised failure) hle failure
      · exact meets_asked hc' ⟨hi.fits hn ho, hs', hn⟩ hle
  | finished c' => exact leaves_finished hc' hle
  | failed failure c' => exact leaves_failed hc' hle _

theorem stays_append (hc : c.Fits R) {first second : Stream} (hs : first.Fits R c.frames.next)
    (hs' : second.Fits R c.frames.next) : R.Stays (.append first second) c := by
  refine ⟨⟨hc, hs⟩, fun r hr => ?_⟩
  obtain ⟨hc', hle, hy⟩ := hr
  cases r with
  | yield outcome first' c' =>
      obtain ⟨ho, hf⟩ := hy _ _ _ rfl
      exact leaves_yield hc' hle ho ⟨hf, hs'.mono hle⟩
  | finished c' => exact meets_asked hc' (hs'.mono hle) hle
  | failed failure c' => exact leaves_failed hc' hle _

theorem stays_calls (hc : c.Fits R) {callee : Value} (hv : callee.Fits R c.frames.next)
    {arguments : Odometer} (ha : arguments.Fits R c.frames.next) (span : Span) :
    R.Stays (.calls span callee arguments) c := by
  refine ⟨⟨hc, ha⟩, fun r hr => ?_⟩
  obtain ⟨hc', hle, hy⟩ := hr
  cases r with
  | yield values arguments' c' =>
      obtain ⟨hvs, ha'⟩ := hy _ _ _ rfl
      have hcall : (apply callee values span none).Fits R c'.frames.next :=
        fits_apply (hv.mono hle) hvs span fun _ h => nomatch h
      exact meets_asked hc' ⟨hcall, hv.mono hle, ha'⟩ hle
  | finished c' => exact leaves_finished hc' hle
  | failed failure c' => exact leaves_failed hc' hle _

theorem stays_amb (hc : c.Fits R) : ∀ {alternatives : List Node},
    (∀ m ∈ alternatives, m.Every R.node) → R.Stays (.amb alternatives) c
  | [], _ => leaves_finished hc (Nat.le_refl _)
  | _ :: _, h => meets_asked hc
      ⟨hc.snapshot, h _ List.mem_cons_self, fun m hm => h m (List.mem_cons_of_mem _ hm)⟩
      (Nat.le_refl _)

theorem stays_choice (hc : c.Fits R) {snapshot : Snapshot} (hsn : snapshot.Fits R c.frames.next)
    {current : Stream} (hs : current.Fits R c.frames.next) {later : List Node}
    (hl : ∀ m ∈ later, m.Every R.node) : R.Stays (.choice snapshot current later) c := by
  refine ⟨⟨hc, hs⟩, fun r hr => ?_⟩
  obtain ⟨hc', hle, hy⟩ := hr
  cases r with
  | yield outcome current' c' =>
      obtain ⟨ho, hs'⟩ := hy _ _ _ rfl
      exact leaves_yield hc' hle ho ⟨hsn.mono hle, hs', hl⟩
  | finished c' =>
      -- Going back takes no frame away, so what is left still fits.
      have hn := Context.Fits.restore_next c' snapshot
      have hr := hc'.restore (hsn.mono hle)
      cases later with
      | nil => exact leaves_finished hr (by rw [hn]; exact hle)
      | cons k later =>
          refine meets_asked hr ⟨?_, hl k List.mem_cons_self, fun m hm => ?_⟩ (by rw [hn]; exact hle)
          · exact hn ▸ hsn.mono hle
          · exact hl m (List.mem_cons_of_mem _ hm)
  | failed failure c' => exact leaves_failed hc' hle _

theorem stays_block (hc : c.Fits R) {statements : List Node}
    (h : ∀ m ∈ statements, m.Every R.node) : R.Stays (.block statements) c := by
  have hn : (c.addFrame (.child "block" c.current)).frames.next = c.frames.next + 1 := by
    simp [Context.addFrame]
  refine meets_asked (hc.addFrame (Frame.fits_child "block" hc.current)) ⟨?_, h⟩ ?_
  · exact hn ▸ R.frame_new _ hc.frames.first
  · exact hn ▸ Nat.le_succ _

theorem stays_program (hc : c.Fits R) {statements : List Node}
    (h : ∀ m ∈ statements, m.Every R.node) : R.Stays (.program statements) c := by
  refine meets_asked hc.enterProgram h ?_
  simp [Context.enterProgram, Context.push, Context.addFrame, Context.truncate]

theorem stays_body (hc : c.Fits R) {statements : List Node}
    (h : ∀ m ∈ statements, m.Every R.node) : R.Stays (.body statements) c := by
  obtain ⟨hc', hle, -⟩ := Action.Keeps.hoist statements hc
  rw [Stays]
  simp only [Stream.move]
  rcases hx : (Action.hoist statements).on c with ⟨failure | _, c'⟩ <;> rw [hx] at hc' hle
  · exact leaves_failed hc' hle _
  · exact meets_asked hc' (Stream.fits_ofStatements h) hle

theorem stays_sequence (hc : c.Fits R) : ∀ {begun : OpenStatements}, begun.Fits R c.frames.next →
    R.Stays (.sequence begun) c
  | .none, _ => leaves_finished hc (Nat.le_refl _)
  | .push current later earlier, ⟨hs, hl, he⟩ => by
      refine ⟨⟨hc, hs⟩, fun r hr => ?_⟩
      obtain ⟨hc', hle, hy⟩ := hr
      cases r with
      | yield outcome current' c' =>
          obtain ⟨ho, hs'⟩ := hy _ _ _ rfl
          have rest : (OpenStatements.push current' later earlier).Fits R c'.frames.next :=
            ⟨hs', hl, he.mono hle⟩
          cases outcome with
          | returned v => exact leaves_yield hc' hle ho rest
          | value v =>
              cases later with
              | nil => exact leaves_yield hc' hle ho rest
              | cons k later =>
                  exact meets_asked hc' ⟨hl k List.mem_cons_self,
                    fun m hm => hl m (List.mem_cons_of_mem _ hm), rest⟩ hle
          | cut =>
              cases later with
              | nil => exact leaves_yield hc' hle ho trivial
              | cons k later =>
                  exact meets_asked hc' ⟨hl k List.mem_cons_self,
                    fun m hm => hl m (List.mem_cons_of_mem _ hm), trivial⟩ hle
      | finished c' => exact meets_asked hc' (s := .sequence earlier) (he.mono hle) hle
      | failed failure c' => exact leaves_failed hc' hle _

theorem stays_framed (hc : c.Fits R) {frame : FrameId} (hf : R.frame c.frames.next frame)
    {inner : Stream} (hs : inner.Fits R c.frames.next) : R.Stays (.framed frame inner) c := by
  refine ⟨⟨hc.push hf, hs⟩, fun r hr => ?_⟩
  obtain ⟨hc', hle, hy⟩ := hr
  cases r with
  | yield outcome inner' c' =>
      obtain ⟨ho, hs'⟩ := hy _ _ _ rfl
      exact leaves_yield hc'.pop hle ho ⟨R.frame_mono hle hf, hs'⟩
  | finished c' => exact leaves_finished hc'.pop hle
  | failed failure c' => exact leaves_failed hc' hle _

theorem stays_call (hc : c.Fits R) (span : Span) {closure : Closure}
    (hcl : closure.Fits R c.frames.next) {arguments : List Value}
    (ha : ∀ a ∈ arguments, a.Fits R c.frames.next) {this : Option Value}
    (ht : ∀ v ∈ this, v.Fits R c.frames.next) : R.Stays (.call span closure arguments this) c := by
  obtain ⟨hc', hle, hf⟩ := Action.Keeps.enterCall hc span hcl ha ht
  rw [Stays]
  simp only [Stream.move]
  rcases hx : (Action.enterCall span closure arguments this).on c with ⟨failure | frame, c'⟩ <;>
    rw [hx] at hc' hle hf
  · exact leaves_failed hc' hle _
  · exact meets_asked hc' ⟨hf frame rfl, hcl.1.statements R.returned⟩ hle

theorem stays_activation (hc : c.Fits R) {frame : FrameId} (hf : R.frame c.frames.next frame)
    {inner : Stream} (hs : inner.Fits R c.frames.next) : R.Stays (.activation frame inner) c := by
  refine ⟨⟨hc.push hf, hs⟩, fun r hr => ?_⟩
  obtain ⟨hc', hle, hy⟩ := hr
  cases r with
  | yield outcome inner' c' =>
      obtain ⟨ho, hs'⟩ := hy _ _ _ rfl
      refine leaves_yield hc'.pop hle ?_ ⟨R.frame_mono hle hf, hs'⟩
      -- Only a returned value leaves a function.
      cases outcome with
      | returned v => exact ho
      | value _ | cut => trivial
  | finished c' => exact leaves_finished hc'.pop hle
  | failed failure c' => exact leaves_failed hc' hle _

theorem odometerStays_start (hc : c.Fits R) : ∀ {arguments : List Node},
    (∀ m ∈ arguments, m.Every R.node) → R.OdometerStays (.start arguments) c
  | [], _ => by
      have none : Values.Fits R c.frames.next [] := fun _ h => nomatch h
      exact leaves_yield hc (Nat.le_refl _) none ⟨trivial, none⟩
  | _ :: _, h => meets_odometer_asked hc
      ⟨⟨h _ List.mem_cons_self, fun m hm => h m (List.mem_cons_of_mem _ hm), trivial⟩,
        fun _ h => nomatch h⟩ (Nat.le_refl _)

theorem odometerStays_turning (hc : c.Fits R) {values : List Value}
    (hv : ∀ v ∈ values, v.Fits R c.frames.next) :
    ∀ {begun : OpenArguments}, begun.Fits R c.frames.next →
      R.OdometerStays (.turning begun values) c
  | .none, _ => leaves_finished hc (Nat.le_refl _)
  | .push current span later earlier, ⟨hs, hl, he⟩ => by
      refine ⟨⟨hc, hs⟩, fun r hr => ?_⟩
      obtain ⟨hc', hle, hy⟩ := hr
      cases r with
      | yield outcome current' c' =>
          obtain ⟨ho, hs'⟩ := hy _ _ _ rfl
          obtain ⟨failure, e⟩ | e := Action.on_operand_cases span "call argument" outcome c' <;>
            simp only [e]
          · exact leaves_failed (hc'.raised failure) hle failure
          · have rest : (OpenArguments.push current' span later earlier).Fits R c'.frames.next :=
              ⟨hs', hl, he.mono hle⟩
            have hvs : ∀ w ∈ outcome.toValue :: values, w.Fits R c'.frames.next :=
              List.forall_mem_cons.mpr ⟨ho, fun w hw => (hv w hw).mono hle⟩
            cases later with
            | nil =>
                have reversed : Values.Fits R c'.frames.next (outcome.toValue :: values).reverse :=
                  fun w hw => hvs w (List.mem_reverse.mp hw)
                exact leaves_yield hc' hle reversed
                  ⟨rest, fun w hw => hvs w (List.mem_cons_of_mem _ hw)⟩
            | cons k later =>
                exact meets_odometer_asked hc' ⟨⟨hl k List.mem_cons_self,
                  fun m hm => hl m (List.mem_cons_of_mem _ hm), rest⟩, hvs⟩ hle
      | finished c' =>
          exact meets_odometer_asked hc' ⟨he.mono hle, fun v hv' =>
            (hv v (List.mem_of_mem_tail hv')).mono hle⟩ hle
      | failed failure c' => exact leaves_failed hc' hle _

end Moves

/-- **Whatever a regime allows, an evaluation keeps to it.** -/
theorem kept (R : Regime) : R.contract.Kept where
  stream s c hcs := by
    obtain ⟨hc, hs⟩ := hcs
    cases s with
    | empty => exact leaves_finished hc (Nat.le_refl _)
    | once outcome => exact leaves_yield hc (Nat.le_refl _) hs trivial
    | deferred what =>
        exact leaves_ofResult (.deferred hc hs) (Nat.le_refl _) fun _ _ => trivial
    | node k => exact meets_asked hc (Stream.fits_build hs) (Nat.le_refl _)
    | nested span inner => exact stays_nested hc (show inner.Fits R _ from hs) span
    | map inner f => exact stays_map hc hs.1 hs.2
    | flatMap outer next => exact stays_flatMap hc hs.1 hs.2
    | append first second => exact stays_append hc hs.1 hs.2
    | calls span callee arguments => exact stays_calls hc hs.1 hs.2 span
    | amb alternatives => exact stays_amb hc hs
    | choice snapshot current later => exact stays_choice hc hs.1 hs.2.1 hs.2.2
    | block statements => exact stays_block hc hs
    | program statements => exact stays_program hc hs
    | body statements => exact stays_body hc hs
    | sequence begun => exact stays_sequence hc hs
    | framed frame inner => exact stays_framed hc hs.1 hs.2
    | call span closure arguments this => exact stays_call hc span hs.1 hs.2.1 hs.2.2
    | activation frame inner => exact stays_activation hc hs.1 hs.2
  odometer o c hco := by
    obtain ⟨hc, ho⟩ := hco
    cases o with
    | start arguments => exact odometerStays_start hc ho
    | turning begun values => exact odometerStays_turning hc ho.2 ho.1

end Regime

end Nondet
