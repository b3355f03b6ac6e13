import Mathlib.Data.List.Forall2
import Mathlib.Data.List.TakeWhile
import Nondet.Grammar.Build
import Nondet.Proofs.Grammar.Precedence

/-!
# Grammar — Pratt, level by level

The powers of the operators give the tree that joining them level by level gives.  An operand with the
operators in front of it and the calls behind it is settled before the next operator is looked at
(`rest_operand`).  A stretch of operators that all bind more tightly than the one that waits is settled
as a chain of its own (`rest_links`): its first operator takes those behind it that bind still more
tightly, and what is left is a shorter stretch.
-/

namespace Nondet.Grammar

theorem Infix.level_le (op : Infix) : op.level ≤ 6 := by rcases op with op | op <;> cases op <;> decide

/-! ### Joining the first operator of a chain -/

namespace Chain

variable {i : Nat} {left right : Node} {others others' : List (Infix × Node)}

theorem joinTightest_nil (left : Node) : ∀ i, joinTightest i ⟨left, []⟩ = ⟨left, []⟩
  | 0     => rfl
  | i + 1 => by rw [joinTightest, joinTightest_nil left i, joinLevel]

/-- No operator is added. -/
theorem mem_of_mem_joinTightest {chain : Chain} : ∀ {i : Nat} {op : Infix},
    op ∈ (chain.joinTightest i).others.map Prod.fst → op ∈ chain.others.map Prod.fst
  | 0, _, h => h
  | _ + 1, _, h => by
      obtain ⟨_, hp, rfl⟩ := List.mem_map.mp h
      exact mem_of_mem_joinTightest (op_of_mem_joinLevel hp).2

/-- Operators above some levels are all joined when these levels are left. -/
theorem others_joinTightest (h : ∀ p ∈ others, 6 < p.1.level + i) :
    (joinTightest i ⟨left, others⟩).others = [] :=
  List.eq_nil_iff_forall_not_mem.mpr fun p hp => by
    have hm := List.mem_map_of_mem (f := Prod.fst) hp
    obtain ⟨q, hq, e⟩ := List.mem_map.mp (mem_of_mem_joinTightest hm)
    have := h q hq
    have := level_of_mem_joinTightest hm
    rw [e] at *
    omega

/-- What begins with an operator of a lower level is not touched by what stands in front of it. -/
theorem joinTightest_behind (h : ∀ p ∈ others'.head?, p.1.level + i ≤ 6) :
    ∃ behind, ∀ left others, joinTightest i ⟨left, others ++ others'⟩ =
      ⟨(joinTightest i ⟨left, others⟩).first, (joinTightest i ⟨left, others⟩).others ++ behind⟩ := by
  cases others' with
  | nil => exact ⟨[], fun left others => by rw [List.append_nil, List.append_nil]⟩
  | cons p others' => exact ⟨_, fun left others => joinTightest_append (h p rfl)⟩

/-- **The first operator of a chain takes what binds more tightly behind it.** -/
theorem joinTightest_cons {op : Infix} {tight : List (Infix × Node)} {level : Nat}
    (hop : level < op.level) (ht : ∀ p ∈ tight, op.level < p.1.level)
    (ho : ∀ p ∈ others.head?, p.1.level ≤ op.level) :
    joinTightest (6 - level) ⟨left, (op, right) :: (tight ++ others)⟩ =
      joinTightest (6 - level)
        ⟨op.join left (joinTightest (6 - op.level) ⟨right, tight⟩).first, others⟩ := by
  have hle := op.level_le
  have loose : ∀ p ∈ others.head?, p.1.level + (6 - op.level) ≤ 6 := fun p hp => by
    have := ho p hp
    omega
  obtain ⟨behind, hb⟩ := joinTightest_behind loose
  have first : joinTightest (6 - op.level) ⟨left, (op, right) :: (tight ++ others)⟩ =
      ⟨left, (op, (joinTightest (6 - op.level) ⟨right, tight⟩).first) :: behind⟩ := by
    have split : joinTightest (6 - op.level) ⟨left, [] ++ (op, right) :: (tight ++ others)⟩ = _ :=
      joinTightest_append (by omega)
    rw [List.nil_append, joinTightest_nil, hb, others_joinTightest fun p hp => by
      have := ht p hp; omega] at split
    exact split
  have second (n : Node) : joinTightest (6 - op.level) ⟨n, others⟩ = ⟨n, behind⟩ := by
    have := hb n []
    rwa [joinTightest_nil] at this
  -- At the level of the operator itself both chains are the same, and from then on they stay so.
  suffices h : ∀ k, joinTightest (6 - op.level + 1 + k) ⟨left, (op, right) :: (tight ++ others)⟩ =
      joinTightest (6 - op.level + 1 + k)
        ⟨op.join left (joinTightest (6 - op.level) ⟨right, tight⟩).first, others⟩ by
    have := h (op.level - level - 1)
    rwa [show 6 - op.level + 1 + (op.level - level - 1) = 6 - level by omega] at this
  intro k
  induction k with
  | zero =>
      simp only [joinTightest, first, second]
      rw [joinLevel, if_pos (by omega)]
  | succ k ih => rw [← Nat.add_assoc, joinTightest, joinTightest, ih]

end Chain

/-! ### The powers of the operators -/

/-- The rule that stands for an operator between two operands. -/
def Infix.rule : Infix → Rule
  | .logical .or       => .or
  | .logical .and      => .and
  | .binary .strictEq  => .strictEq
  | .binary .strictNe  => .strictNe
  | .binary .lt        => .lt
  | .binary .le        => .le
  | .binary .gt        => .gt
  | .binary .ge        => .ge
  | .binary .add       => .add
  | .binary .sub       => .sub
  | .binary .mul       => .mul
  | .binary .div       => .div
  | .binary .rem       => .rem

theorem Infix.power_rule (op : Infix) : op.rule.power? = some (.between, 10 * op.level) := by
  rcases op with op | op <;> cases op <;> rfl

/-- The rule that stands for an operator in front of its operand. -/
def UnaryOp.rule : UnaryOp → Rule
  | .neg => .neg
  | .not => .not

theorem UnaryOp.power_rule (op : UnaryOp) : (UnaryOp.rule op).power? = some (.before, 70) := by
  cases op <;> rfl

namespace Pair

variable {build : Builder} {p : Pair}

theorem joined_ok {op : Infix} (hp : p.rule = op.rule) (left right : Node) :
    joined (.ok left) p (.ok right) = .ok (op.join left right) := by
  obtain ⟨rule, start, stop, inner⟩ := p
  obtain rfl : rule = op.rule := hp
  rcases op with op | op <;> cases op <;> rfl

theorem unary_ok {op : UnaryOp} (hp : p.rule = UnaryOp.rule op) (argument : Node) :
    unary p (.ok argument) = .ok (.unary (p.span.through argument.span) op argument) := by
  obtain ⟨rule, start, stop, inner⟩ := p
  obtain rfl : rule = UnaryOp.rule op := hp
  cases op <;> rfl

theorem call_ok {arguments : List Node} (h : p.inner.mapM build.expression = .ok arguments)
    (callee : Node) :
    call build (.ok callee) p = .ok (.call (callee.span.through p.span) callee arguments) := by
  change (p.inner.mapM build.expression >>= fun arguments => _) = _
  rw [h]
  rfl

/-! ### Operands -/

/-- The pair of a prefix operator. -/
def IsMark (p : Pair) (mark : PrefixMark) : Prop :=
  p.rule = UnaryOp.rule mark.op ∧ p.span = mark.span

/-- The pair of a call, whose arguments are built. -/
def IsCall (build : Builder) (p : Pair) (args : ArgumentList) : Prop :=
  p.rule = .call ∧ p.span = args.span ∧ p.inner.mapM build.expression = .ok args.arguments

/-- The pairs of an operand: prefix operators, what stands behind them, and calls. -/
def IsOperand (build : Builder) (ps : List Pair) (n : Node) : Prop :=
  ∃ before p behind marks primary calls, ps = before ++ p :: behind ∧ n = operand marks primary calls ∧
    List.Forall₂ IsMark before marks ∧ p.rule.power? = none ∧ Pair.primary build p = .ok primary ∧
    List.Forall₂ (IsCall build) behind calls

/-- The fold that builds the trees of chains. -/
abbrev folding (build : Builder) : Fold (Except Failure Node) :=
  ⟨primary build, unary, joined, call build⟩

/-- Nothing comes next, or an operator between operands that binds no more tightly than `power`. -/
def Loosely (power : Nat) (more : List Pair) : Prop :=
  ∀ p ∈ more.head?, ∃ op : Infix, p.rule = op.rule ∧ 10 * op.level ≤ power

variable {ws : List (Waiting (Except Failure Node))} {w : Waiting (Except Failure Node)}
variable {more : List Pair} {power : Nat}

theorem Loosely.mono {power' : Nat} (h : Loosely power more) (hp : power ≤ power') :
    Loosely power' more := fun p e =>
  have ⟨op, hr, hle⟩ := h p e
  ⟨op, hr, Nat.le_trans hle hp⟩

theorem Loosely.any (h : Loosely power more) : Loosely 60 more := fun p e =>
  have ⟨op, hr, _⟩ := h p e
  ⟨op, hr, Nat.mul_le_mul_left 10 op.level_le⟩

/-- In front of a loose operator the innermost operator gets its operand. -/
theorem rest_settle (h : Loosely w.power more) (a : Except Failure Node) :
    (folding build).rest (w :: ws) (some a) more =
      (folding build).rest ws (some (w.complete a)) more := by
  cases more with
  | nil => rfl
  | cons p more =>
      obtain ⟨op, hp, hle⟩ := h p rfl
      rw [Fold.rest, Fold.rest, hp, op.power_rule]
      simp only [Waiting.settle, if_neg (Nat.not_lt_of_le hle)]

theorem rest_calls {behind : List Pair} {calls : List ArgumentList}
    (h : List.Forall₂ (IsCall build) behind calls) (hw : ∀ w ∈ ws.head?, w.power < 80) (callee : Node) :
    (folding build).rest ws (some (.ok callee)) (behind ++ more) =
      (folding build).rest ws (some (.ok (calls.foldl
        (fun callee args => .call (callee.span.through args.span) callee args.arguments) callee)))
        more := by
  have stays (a : Except Failure Node) : Waiting.settle 80 ws a = (ws, a) := by
    cases ws with
    | nil => rfl
    | cons w ws => rw [Waiting.settle, if_pos (hw w rfl)]
  have power : Rule.power? .call = some (.behind, 80) := rfl
  induction h generalizing callee with
  | nil => rfl
  | @cons p args behind calls hp _ ih =>
      obtain ⟨hr, hs, ha⟩ := hp
      rw [List.cons_append, Fold.rest, hr, power]
      simp only [stays]
      rw [call_ok ha, ih, List.foldl_cons, hs]

/-- **An operand is complete before the next operator is looked at.** -/
theorem rest_operand {ps : List Pair} {n : Node} (h : IsOperand build ps n)
    (hw : ∀ w ∈ ws.head?, w.power < 80) (hm : Loosely 60 more) :
    (folding build).rest ws none (ps ++ more) = (folding build).rest ws (some (.ok n)) more := by
  obtain ⟨before, p, behind, marks, m, calls, rfl, rfl, hmarks, hp, hb, hcalls⟩ := h
  rw [List.append_assoc]
  unfold operand
  induction hmarks generalizing ws with
  | nil =>
      rw [List.nil_append, List.cons_append, Fold.rest, hp]
      simp only [hb]
      exact rest_calls hcalls hw m
  | @cons q mark before marks hq _ ih =>
      rw [List.cons_append, Fold.rest, hq.1, UnaryOp.power_rule]
      simp only
      rw [ih (by simp), rest_settle (hm.mono (by simp))]
      exact congrArg (fun a => (folding build).rest ws (some a) more)
        ((unary_ok hq.1 _).trans (hq.2 ▸ rfl))

/-! ### Chains -/

/-- The pairs of operators with an operand behind each. -/
inductive Links (build : Builder) : List Pair → List (Infix × Node) → Prop
  | nil : Links build [] []
  | cons {p ps qs op n others} (hp : p.rule = Infix.rule op) (hn : IsOperand build ps n)
      (h : Links build qs others) : Links build (p :: (ps ++ qs)) ((op, n) :: others)

namespace Links

variable {qs : List Pair} {others others' : List (Infix × Node)}

theorem split (h : Links build qs (others ++ others')) :
    ∃ qs₁ qs₂, qs = qs₁ ++ qs₂ ∧ Links build qs₁ others ∧ Links build qs₂ others' := by
  induction others generalizing qs with
  | nil => exact ⟨[], qs, rfl, .nil, h⟩
  | cons o others ih =>
      cases h with
      | cons hp hn h =>
          obtain ⟨qs₁, qs₂, rfl, h₁, h₂⟩ := ih h
          exact ⟨_, qs₂, by rw [List.cons_append, List.append_assoc], .cons hp hn h₁, h₂⟩

/-- What comes next is the first of the operators, or what stands behind them. -/
theorem loosely (h : Links build qs others) (hm : Loosely power more)
    (ho : ∀ p ∈ others.head?, 10 * p.1.level ≤ power) : Loosely power (qs ++ more) := by
  cases h with
  | nil => exact hm
  | cons hp hn h =>
      intro p e
      cases e
      exact ⟨_, hp, ho _ rfl⟩

end Links

/-- **Operators that bind more tightly than the one that waits make up a chain of their own.** -/
theorem rest_links {qs : List Pair} {others : List (Infix × Node)} {level : Nat} {left : Node}
    (h : Links build qs others) (ho : ∀ p ∈ others, level < p.1.level)
    (hw : ∀ w ∈ ws.head?, w.power ≤ 10 * level) (hm : Loosely (10 * level) more) :
    (folding build).rest ws (some (.ok left)) (qs ++ more) =
      (folding build).rest ws
        (some (.ok (Chain.joinTightest (6 - level) ⟨left, others⟩).first)) more := by
  -- By the number of operators: the first one leaves two shorter stretches.
  induction hn : others.length using Nat.strongRecOn generalizing qs others level left ws more with
  | ind n ih =>
  cases h with
  | nil => rw [Chain.joinTightest_nil, List.nil_append]
  | @cons p ps qs op right others hp hr h =>
      have hop : level < op.level := ho _ List.mem_cons_self
      have stays : Waiting.settle (10 * op.level) ws (.ok left) = (ws, .ok left) := by
        cases ws with
        | nil => rfl
        | cons w ws =>
            have := hw w rfl
            rw [Waiting.settle, if_pos (by omega)]
      -- The operators behind the first one, up to the first that binds no more tightly.
      let binds (q : Infix × Node) : Bool := decide (op.level < q.1.level)
      let tight := others.takeWhile binds
      let loose := others.dropWhile binds
      have parts : tight ++ loose = others := List.takeWhile_append_dropWhile
      have ht : ∀ q ∈ tight, op.level < q.1.level :=
        fun q hq => of_decide_eq_true (List.mem_takeWhile_imp (p := binds) hq)
      have hl : ∀ q ∈ loose.head?, q.1.level ≤ op.level := fun q hq => by
        have := List.head?_dropWhile_not binds others
        rw [Option.mem_def.mp hq] at this
        exact Nat.le_of_not_lt (of_decide_eq_false this)
      have hlen : tight.length + loose.length < n := by
        rw [← List.length_append, parts, ← hn, List.length_cons]
        exact Nat.lt_succ_self _
      obtain ⟨qs₁, qs₂, rfl, h₁, h₂⟩ := (parts ▸ h : Links build qs (tight ++ loose)).split
      have behind : Loosely (10 * op.level) (qs₂ ++ more) :=
        h₂.loosely (hm.mono (by omega)) fun q hq => Nat.mul_le_mul_left 10 (hl q hq)
      have after : Loosely 60 (qs₁ ++ (qs₂ ++ more)) :=
        h₁.loosely behind.any fun q _ => Nat.mul_le_mul_left 10 q.1.level_le
      have hlevel := op.level_le
      let w : Waiting (Except Failure Node) := ⟨10 * op.level, joined (.ok left) p⟩
      let taken := (Chain.joinTightest (6 - op.level) ⟨right, tight⟩).first
      let fold := folding build
      calc fold.rest ws (some (.ok left)) (p :: (ps ++ (qs₁ ++ qs₂)) ++ more)
        _ = fold.rest (w :: ws) none (ps ++ (qs₁ ++ (qs₂ ++ more))) := by
            rw [List.cons_append, Fold.rest, hp, op.power_rule]
            simp only [stays, List.append_assoc]
            rfl
        _ = fold.rest (w :: ws) (some (.ok right)) (qs₁ ++ (qs₂ ++ more)) :=
            rest_operand hr (by simp [w]; omega) after
        _ = fold.rest (w :: ws) (some (.ok taken)) (qs₂ ++ more) :=
            ih _ (by omega) h₁ ht (by simp [w]) behind rfl
        _ = fold.rest ws (some (joined (.ok left) p (.ok taken))) (qs₂ ++ more) := rest_settle behind _
        _ = fold.rest ws (some (.ok (op.join left taken))) (qs₂ ++ more) := by rw [joined_ok hp]
        _ = fold.rest ws
              (some (.ok (Chain.joinTightest (6 - level) ⟨op.join left taken, loose⟩).first)) more :=
            ih _ (by omega) h₂
              (fun q hq => ho q (List.mem_cons_of_mem _ (parts ▸ List.mem_append_right _ hq))) hw hm rfl
        _ = _ := by rw [← Chain.joinTightest_cons hop ht hl, parts]

/-- **The tree of a chain.** -/
theorem chain_ok {ps qs : List Pair} {first : Node} {others : List (Infix × Node)}
    (hf : IsOperand build ps first) (h : Links build qs others) :
    (folding build).chain (ps ++ qs) = .ok (.ok (Chain.toNode ⟨first, others⟩)) := by
  have nothing : Loosely (10 * 0) [] := by simp [Loosely]
  have level (p : Infix × Node) : 0 < p.1.level := by rcases p.1 with op | op <;> cases op <;> decide
  have behind : Loosely 60 (qs ++ []) :=
    h.loosely nothing.any fun q _ => Nat.mul_le_mul_left 10 q.1.level_le
  rw [Fold.chain, ← List.append_nil qs, rest_operand hf (by simp) behind,
    rest_links h (fun p _ => level p) (by simp) nothing]
  rfl

end Pair

end Nondet.Grammar
