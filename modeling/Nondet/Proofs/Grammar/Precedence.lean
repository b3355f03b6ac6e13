import Nondet.Proofs.Grammar.Chain
import Nondet.Proofs.Tree.Spanless

/-!
# Grammar — Precedence, up to spans

What a chain of operands becomes up to spans is told from its operands up to spans.  Joining the
levels one after the other goes on separately on both sides of an operator, until its own level is
reached (`Chain.joinTightest_join`): that is where an operator that binds from the left takes what
was joined before it.
-/

namespace Nondet.Grammar

theorem Infix.spanless_join (left : Node) (op : Infix) (right : Node) :
    (op.join left right).spanless = op.join left.spanless right.spanless := by
  cases op <;> simp only [Infix.join, Node.spanless, Node.span_spanless] <;> rfl

/-- The tree of an operand up to spans, from its operators, what stands behind them, and the
arguments of the calls. -/
theorem spanless_operand (marks : List PrefixMark) (primary : Node) (calls : List ArgumentList) :
    (operand marks primary calls).spanless =
      (marks.map (·.op)).foldr (.unary .zero)
        ((calls.map (·.arguments.map Node.spanless)).foldl (.call .zero) primary.spanless) := by
  have called : ∀ (calls : List ArgumentList) (callee : Node),
      (calls.foldl (fun callee args => .call (callee.span.through args.span) callee args.arguments)
        callee).spanless =
      (calls.map (·.arguments.map Node.spanless)).foldl (.call .zero) callee.spanless := by
    intro calls
    induction calls with
    | nil => exact fun _ => rfl
    | cons args calls ih =>
        intro callee
        simp only [List.foldl_cons, List.map_cons, ih, Node.spanless, Node.spanlessEach_eq_map]
  rw [operand, ← called]
  induction marks with
  | nil => rfl
  | cons mark marks ih => simp only [List.foldr_cons, List.map_cons, ← ih, Node.spanless]

namespace Chain

/-- The chain with every operand up to spans. -/
def spanless (chain : Chain) : Chain :=
  ⟨chain.first.spanless, chain.others.map fun p => (p.1, p.2.spanless)⟩

theorem spanless_joinLevel (level : Nat) : ∀ (others : List (Infix × Node)) (left : Node),
    (joinLevel level left others).spanless =
      joinLevel level left.spanless (others.map fun p => (p.1, p.2.spanless))
  | [], _ => rfl
  | (op, right) :: rest, left => by
      simp only [joinLevel, List.map_cons]
      split
      · rw [spanless_joinLevel level rest, Infix.spanless_join]
      · rw [← spanless_joinLevel level rest]
        rfl

/-- The tightest `i` levels joined. -/
def joinTightest : Nat → Chain → Chain
  | 0, chain     => chain
  | i + 1, chain => joinLevel (6 - i) (joinTightest i chain).first (joinTightest i chain).others

theorem toNode_eq_joinTightest (chain : Chain) : chain.toNode = (chain.joinTightest 6).first := rfl

theorem spanless_joinTightest (chain : Chain) : ∀ i,
    (chain.joinTightest i).spanless = chain.spanless.joinTightest i
  | 0     => rfl
  | i + 1 => by
      rw [joinTightest, spanless_joinLevel]
      exact congrArg (fun c : Chain => joinLevel (6 - i) c.first c.others)
        (spanless_joinTightest chain i)

theorem spanless_toNode (chain : Chain) : chain.toNode.spanless = chain.spanless.toNode := by
  rw [toNode_eq_joinTightest, toNode_eq_joinTightest, ← spanless_joinTightest]
  rfl

/-! ### One operator after the other -/

/-- Joining goes on separately on both sides of an operator of another level. -/
theorem joinLevel_append {level : Nat} {op : Infix} (h : op.level ≠ level) (right : Node)
    (others' : List (Infix × Node)) : ∀ (others : List (Infix × Node)) (left : Node),
    joinLevel level left (others ++ (op, right) :: others') =
      ⟨(joinLevel level left others).first, (joinLevel level left others).others ++
        (op, (joinLevel level right others').first) :: (joinLevel level right others').others⟩
  | [], left => by
      rw [List.nil_append]
      simp only [joinLevel, if_neg h]
      rfl
  | (op', right') :: others, left => by
      rw [List.cons_append, joinLevel, joinLevel]
      split
      · exact joinLevel_append h right others' others _
      · rw [joinLevel_append h right others' others right']
        rfl

/-- An operator of the level joins what was joined on its left. -/
theorem joinLevel_concat {level : Nat} {op : Infix} (h : op.level = level) (right : Node) {n : Node} :
    ∀ (others : List (Infix × Node)) (left : Node), joinLevel level left others = ⟨n, []⟩ →
      joinLevel level left (others ++ [(op, right)]) = ⟨op.join n right, []⟩
  | [], left, hl => by
      cases hl
      rw [List.nil_append, joinLevel, if_pos h, joinLevel]
  | (op', right') :: others, left, hl => by
      rw [joinLevel] at hl
      rw [List.cons_append, joinLevel]
      split at hl
      · rw [if_pos ‹_›]
        exact joinLevel_concat h right others _ hl
      · cases hl

/-- Levels above that of an operator are joined separately on both sides of it. -/
theorem joinTightest_append {op : Infix} {left right : Node} {others others' : List (Infix × Node)} :
    ∀ {i : Nat}, op.level + i ≤ 6 → joinTightest i ⟨left, others ++ (op, right) :: others'⟩ =
      ⟨(joinTightest i ⟨left, others⟩).first, (joinTightest i ⟨left, others⟩).others ++
        (op, (joinTightest i ⟨right, others'⟩).first) :: (joinTightest i ⟨right, others'⟩).others⟩
  | 0, _ => rfl
  | i + 1, h => by
      rw [joinTightest, joinTightest_append (i := i) (by omega), joinLevel_append (by omega)]
      rfl

/-- **Two chains with an operator between them.**  The left one may hold operators of its level, the
right one only tighter ones. -/
theorem joinTightest_join {op : Infix} {left right l r : Node} {others others' : List (Infix × Node)}
    {i : Nat} (h : op.level + i = 6) (hl : joinTightest (i + 1) ⟨left, others⟩ = ⟨l, []⟩)
    (hr : joinTightest i ⟨right, others'⟩ = ⟨r, []⟩) :
    joinTightest (i + 1) ⟨left, others ++ (op, right) :: others'⟩ = ⟨op.join l r, []⟩ := by
  rw [joinTightest, joinTightest_append (Nat.le_of_eq h), hr]
  exact joinLevel_concat (by omega) r _ _ hl

/-- Joining a level leaves none of its operators, and adds none. -/
theorem op_of_mem_joinLevel {level : Nat} : ∀ {others : List (Infix × Node)} {left : Node}
    {p : Infix × Node}, p ∈ (joinLevel level left others).others →
      p.1.level ≠ level ∧ p.1 ∈ others.map Prod.fst
  | (op, right) :: rest, left, p, h => by
      rw [joinLevel] at h
      rw [List.map_cons, List.mem_cons]
      split at h
      · have ⟨hl, hm⟩ := op_of_mem_joinLevel h
        exact ⟨hl, .inr hm⟩
      · rcases List.mem_cons.mp h with rfl | h
        · exact ⟨‹_›, .inl rfl⟩
        · have ⟨hl, hm⟩ := op_of_mem_joinLevel h
          exact ⟨hl, .inr hm⟩

theorem level_of_mem_joinTightest {chain : Chain} : ∀ {i : Nat} {op : Infix},
    op ∈ (chain.joinTightest i).others.map Prod.fst → op.level + i ≤ 6
  | 0, op, _ => by rcases op with op | op <;> cases op <;> decide
  | i + 1, op, h => by
      obtain ⟨p, hp, rfl⟩ := List.mem_map.mp h
      obtain ⟨hl, hm⟩ := op_of_mem_joinLevel hp
      have := level_of_mem_joinTightest hm
      omega

/-- **After the last level no operator is left.** -/
theorem joinTightest_all (chain : Chain) : chain.joinTightest 6 = ⟨chain.toNode, []⟩ := by
  have none : (chain.joinTightest 6).others = [] := List.eq_nil_iff_forall_not_mem.mpr fun p hp => by
    have low : 1 ≤ p.1.level := by rcases p.1 with op | op <;> cases op <;> decide
    have := level_of_mem_joinTightest (List.mem_map_of_mem hp)
    omega
  rw [toNode_eq_joinTightest, ← none]

/-- When nothing is left to join, further levels change nothing. -/
theorem joinTightest_done {chain : Chain} {n : Node} {i j : Nat} (h : chain.joinTightest i = ⟨n, []⟩)
    (hij : i ≤ j) : chain.joinTightest j = ⟨n, []⟩ := by
  induction hij with
  | refl => exact h
  | step _ ih => rw [joinTightest, ih, joinLevel]

end Chain

end Nondet.Grammar
