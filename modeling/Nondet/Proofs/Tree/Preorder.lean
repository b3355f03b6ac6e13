import Nondet.Proofs.Tree.Completion

/-!
# Tree — Preorder

The walk to an offset, without the walk.  All nodes of a tree are listed in preorder, those that open
a scope and contain the offset are kept, and the names that each of them opens are put one behind the
other (`scopesAround`).  The walk that enters no node whose span misses the offset comes to the same
names in the same order (`namesAround_eq`), since spans are nested: around a node that contains the
offset there are only nodes that contain it.
-/

namespace Nondet

namespace Node

/-- The node, and what is below it, in the order in which it is written. -/
def preorder (n : Node) : List Node :=
  n :: n.children.attach.flatMap fun ⟨m, hm⟩ =>
    have := sizeOf_lt_of_child hm
    preorder m
termination_by n

theorem preorder_eq (n : Node) : n.preorder = n :: n.children.flatMap preorder := by
  rw [preorder]
  simp [List.flatMap_subtype]

/-- The list has the parts of the node and nothing else. -/
theorem mem_preorder {n m : Node} : m ∈ n.preorder ↔ n.Part m := by
  induction n using Node.of_children with
  | h n ih =>
      rw [preorder_eq, List.mem_cons, List.mem_flatMap]
      constructor
      · rintro (rfl | ⟨k, hk, hm⟩)
        · exact .refl
        · exact .head hk ((ih k hk).mp hm)
      · intro h
        rcases Relation.ReflTransGen.cases_head h with rfl | ⟨k, hk, hm⟩
        · exact .inl rfl
        · exact .inr ⟨k, hk, (ih k hk).mpr hm⟩

/-- The nodes around the offset that open a scope, in preorder. -/
def scopesAround (o : Nat) (n : Node) : List Node :=
  n.preorder.filter fun m => m.opensScope && m.span.contains o

/-- A node that opens no scope opens no names. -/
theorem opened_eq_nil {n : Node} (h : n.opensScope = false) : n.opened = [] := by
  cases n <;> first | rfl | cases h

/-- Below a node that misses the offset every node misses it. -/
theorem contains_of_part {o : Nat} {n m : Node} (h : n.Every Encloses) (hm : n.Part m)
    (hc : m.span.contains o) : n.span.contains o := by
  induction hm using Relation.ReflTransGen.head_induction_on with
  | refl => exact hc
  | head hk _ ih => exact h.self.contains hk (ih (h.child hk))

/-- **Nothing is missed by not entering nodes.** -/
theorem namesAround_eq {o : Nat} {n : Node} (h : n.Every Encloses) :
    n.namesAround o = (n.scopesAround o).flatMap opened := by
  induction n using Node.of_children with
  | h n ih =>
      by_cases hc : n.span.contains o
      · have below : n.children.flatMap (namesAround o) =
            n.children.flatMap fun m => (m.scopesAround o).flatMap opened := by
          rw [List.flatMap_def, List.flatMap_def]
          exact congrArg _ (List.map_congr_left fun m hm => ih m hm (h.child hm))
        have rest : ((n.children.flatMap preorder).filter fun m =>
              m.opensScope && m.span.contains o).flatMap opened =
            n.children.flatMap fun m => (m.scopesAround o).flatMap opened := by
          rw [List.filter_flatMap, List.flatMap_assoc]
          rfl
        rw [namesAround_eq_append hc, below, scopesAround, preorder_eq, List.filter_cons, hc, Bool.and_true]
        cases hs : n.opensScope with
        | true => rw [if_pos rfl, List.flatMap_cons, rest]
        | false => rw [if_neg Bool.false_ne_true, opened_eq_nil hs, rest, List.nil_append]
      · have none : n.scopesAround o = [] := by
          refine List.filter_eq_nil_iff.mpr fun m hm hkept => hc ?_
          exact contains_of_part h (mem_preorder.mp hm) (Bool.and_eq_true_iff.mp hkept).2
        rw [none, namesAround_eq_nil hc]
        rfl

end Node

/-! ### First places -/

/-- What was seen before is dropped, and of the rest each name keeps its first place. -/
theorem distinctFrom_eq (seen names : List String) :
    distinctFrom seen names = (names.filter (· ∉ seen)).eraseDups := by
  induction names generalizing seen with
  | nil => rfl
  | cons a names ih =>
      rw [distinctFrom, List.filter_cons]
      by_cases ha : a ∈ seen
      · rw [if_pos ha, if_neg (by simpa using ha), ih]
      · rw [if_neg ha, if_pos (by simpa using ha), List.eraseDups_cons, List.filter_filter, ih]
        congr 3
        ext b
        by_cases hb : b = a <;> simp [hb]

theorem distinct_eq_eraseDups (names : List String) : distinct names = names.eraseDups := by
  rw [distinct, distinctFrom_eq]
  simp

/-- **What is declared around an offset.**  Take all nodes of a script in preorder, keep the script,
the blocks and the functions whose spans contain the offset, and of the names that they open, one
after the other, the first of each: that is what the walk gives.  No name is given twice, and a node
that contains the offset is never missed, since all nodes around it contain the offset too. -/
theorem declarationsAt_eq_preorder {source : String} {program : Node}
    (h : Grammar.parse source = .ok program) (o : Nat) :
    declarationsAt program o = ((program.scopesAround o).flatMap Node.opened).eraseDups ∧
      (declarationsAt program o).Nodup ∧
      ∀ n m, program.Part n → n.Part m → m.span.contains o → n.span.contains o := by
  have encloses : program.Every Node.Encloses := fun m hm => (Grammar.parse_within h m hm).encloses
  refine ⟨?_, nodup_distinct _, fun n m hn hm => Node.contains_of_part (fun k hk => ?_) hm⟩
  · rw [declarationsAt, Node.namesAround_eq encloses, distinct_eq_eraseDups]
  · exact encloses k (hn.trans hk)

/-- The rule at the offset where a block ends and a function begins, both of which declare what the
script declares too. -/
theorem declarationsAt_eq_preorder_between_scopes :
    ∃ program, Grammar.parse "let x = 1; \x7blet a = x;\x7dfunction f(a) \x7b let x = a; \x7d" = .ok program ∧
      declarationsAt program 23 = ["x", "f", "a"] ∧
      ((program.scopesAround 23).flatMap Node.opened).eraseDups = ["x", "f", "a"] := by
  have read : (Grammar.parse
      "let x = 1; \x7blet a = x;\x7dfunction f(a) \x7b let x = a; \x7d").toOption.any
        (declarationsAt · 23 == ["x", "f", "a"]) = true := by decide +kernel
  cases h : Grammar.parse "let x = 1; \x7blet a = x;\x7dfunction f(a) \x7b let x = a; \x7d" with
  | error failure =>
      rw [h] at read
      cases read
  | ok program =>
      rw [h] at read
      have names : declarationsAt program 23 = ["x", "f", "a"] := eq_of_beq read
      exact ⟨program, rfl, names, (declarationsAt_eq_preorder h 23).1 ▸ names⟩

end Nondet
