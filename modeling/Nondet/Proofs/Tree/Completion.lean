import Nondet.Proofs.Grammar.Places
import Nondet.Proofs.Tree.Origin

/-!
# Tree — Completion

The names that are in scope at an offset, and the scopes around a place.  The walk to the offset
takes what a node opens, and goes on in its children (`Node.namesAround_eq_append`); so what it finds
in a part of a script it finds in the script, as long as the spans around the part contain the
offset.  Spans of a script that was read are nested, hence whatever is declared around a place of the
script is found at every offset that the node at the place spans (`Node.LiesAt.declarations`).
-/

namespace Nondet

variable {o : Nat} {name : String}

namespace Node

/-- The names that a node opens for what stands below it.  The names of a function's own body are
opened by the block that the body is. -/
def opened : Node → List String
  | .functionDeclaration _ _ params _ _ | .arrowFunction _ _ params _ _ => params
  | .block _ statements | .program _ statements                         => declared statements
  | _                                                                   => []

theorem namesAroundEach_eq (o : Nat) (ns : List Node) :
    namesAroundEach o ns = ns.flatMap (namesAround o) := by
  induction ns with
  | nil => rfl
  | cons n ns ih => rw [namesAroundEach, ih, List.flatMap_cons]

theorem namesAroundOption_eq (o : Nat) (n : Option Node) :
    namesAroundOption o n = n.toList.flatMap (namesAround o) := by
  cases n <;> simp [namesAroundOption]

/-- **The walk lists what a node around the offset opens, and then what is found below it.** -/
theorem namesAround_eq_append {n : Node} (hc : n.span.contains o) :
    n.namesAround o = n.opened ++ n.children.flatMap (namesAround o) := by
  cases n <;> rw [namesAround, if_pos hc] <;>
    simp [opened, children, namesAroundEach_eq, namesAroundOption_eq]

/-- It enters no node that misses the offset. -/
theorem namesAround_eq_nil {n : Node} (hc : ¬ n.span.contains o) : n.namesAround o = [] := by
  rw [namesAround.eq_def, if_neg hc]

theorem mem_namesAround {n : Node} : name ∈ n.namesAround o ↔
    n.span.contains o ∧ (name ∈ n.opened ∨ ∃ m ∈ n.children, name ∈ m.namesAround o) := by
  by_cases hc : n.span.contains o
  · rw [namesAround_eq_append hc, List.mem_append, List.mem_flatMap]
    exact ⟨fun h => ⟨hc, h⟩, And.right⟩
  · rw [namesAround_eq_nil hc]
    exact ⟨nofun, fun h => absurd h.1 hc⟩

/-- What is found around the offset in a part is found in the node. -/
theorem namesAround_child {n m : Node} (hc : n.span.contains o) (hm : m ∈ n.children)
    (h : name ∈ m.namesAround o) : name ∈ n.namesAround o :=
  mem_namesAround.mpr ⟨hc, .inr ⟨m, hm, h⟩⟩

theorem namesAround_opened {n : Node} (hc : n.span.contains o) (h : name ∈ n.opened) :
    name ∈ n.namesAround o := mem_namesAround.mpr ⟨hc, .inl h⟩

/-- An offset that a child spans is spanned by a node that encloses its children. -/
theorem Encloses.contains {n m : Node} (h : n.Encloses) (hm : m ∈ n.children)
    (hc : m.span.contains o) : n.span.contains o := by
  obtain ⟨h₁, h₂⟩ := h m hm
  obtain ⟨h₃, h₄⟩ := Span.contains_iff.mp hc
  exact Span.contains_iff.mpr ⟨Nat.le_trans h₁ h₃, Nat.le_trans h₄ h₂⟩

/-- What is made from a script encloses its children if all parts of the script do. -/
theorem MadeFrom.encloses {script : List Node} {n : Node} (h : n.MadeFrom script)
    (hs : ∀ m : Node, m.In script → m.Encloses) : n.Encloses := by
  cases h with
  | part h => exact hs n h
  | constant h => exact nofun
  | returned h => exact List.forall_mem_singleton.mpr ⟨Nat.le_refl _, Nat.le_refl _⟩

end Node

/-- A function that is in order runs the statements of its block, or returns its expression. -/
theorem Node.FunctionInOrder.statements {n : Node} {f : Function} (h : n.FunctionInOrder)
    (hf : n.function? = some f) :
    (∃ span ss, f.body = .block span ss ∧ f.statements = ss) ∨
      f.statements = [.returnStatement f.body.span (some f.body)] := by
  have block {form body} (hform : form = BodyForm.block) {span ss}
      (hbody : body = Node.block span ss) {name params span} :
      Function.statements ⟨name, params, form, body, span⟩ = ss := by
    subst hform hbody
    rfl
  cases n with
  | functionDeclaration _ name params form body =>
      cases hf
      obtain ⟨-, hform, span, ss, hbody⟩ := h
      exact .inl ⟨span, ss, hbody, block hform hbody⟩
  | arrowFunction _ name params form body =>
      cases hf
      obtain ⟨-, h⟩ := h
      cases form with
      | block =>
          obtain ⟨span, ss, hbody⟩ := h
          exact .inl ⟨span, ss, hbody, block rfl hbody⟩
      | expression => exact .inr rfl
  | _ => cases hf

/-! ### Around a place -/

/-- What the scopes of the place declare is found around the offset in the script, and so is what is
found in the node itself. -/
structure Node.FoundIn (program : Node) (o : Nat) (n : Node) (s : Site) : Prop where
  scopes : ∀ names ∈ s.scopes, ∀ name ∈ names, name ∈ program.namesAround o
  node : ∀ name ∈ n.namesAround o, name ∈ program.namesAround o

variable {program n m : Node} {s : Site}

/-- One step down. -/
theorem Node.FoundIn.child (h : program.FoundIn o n s) (hc : n.span.contains o)
    (hm : m ∈ n.children) : program.FoundIn o m s :=
  ⟨h.scopes, fun name hn => h.node name (namesAround_child hc hm hn)⟩

/-- One scope further in. -/
theorem Node.FoundIn.inside (h : program.FoundIn o n s) {names : List String}
    (hn : ∀ name ∈ names, name ∈ program.namesAround o) : program.FoundIn o n (s.inside names) :=
  ⟨List.forall_mem_cons.mpr ⟨hn, h.scopes⟩, h.node⟩

/-- What a function declares is found around an offset that its body spans. -/
theorem Node.FoundIn.names {f : Function} (h : program.FoundIn o n s) (ho : n.FunctionInOrder)
    (hf : n.function? = some f) (hc : n.span.contains o) (hb : f.body.span.contains o) :
    ∀ name ∈ f.names, name ∈ program.namesAround o := by
  have body := (opensScope_of_function? hf).2
  intro name hn
  rcases List.mem_append.mp hn with hn | hn
  · refine h.node name (namesAround_opened hc ?_)
    cases n with
    | functionDeclaration _ _ _ _ _ | arrowFunction _ _ _ _ _ =>
        cases hf
        exact hn
    | _ => cases hf
  · rcases ho.statements hf with ⟨span, ss, hblock, hss⟩ | hss
    · rw [hss] at hn
      refine h.node name (namesAround_child hc body (namesAround_opened hb ?_))
      rw [hblock]
      exact hn
    · rw [hss] at hn
      cases hn

/-- **The scopes around a place are those that the walk enters.**  In a script whose spans are
nested and whose functions are in order, let a node stand at a place and span the offset: then the
walk to the offset finds all that the scopes around the place declare. -/
theorem Node.LiesAt.foundIn {span : Span} {ss : List Node} (h : n.LiesAt s) (hs : s.script = ss)
    (encloses : ∀ m, (Node.program span ss).Part m → m.Encloses)
    (order : ∀ m, (Node.program span ss).Part m → m.FunctionInOrder) (hc : n.span.contains o) :
    (Node.program span ss).FoundIn o n s := by
  have part {m : Node} (hm : m.In ss) : (Node.program span ss).Part m :=
    have ⟨k, hk, hp⟩ := hm
    .head hk hp
  have around {n : Node} {s : Site} (h : n.LiesAt s) (hs : s.script = ss) : n.Encloses :=
    (hs ▸ h.madeFrom).encloses fun m hm => encloses m (part hm)
  induction h with
  | @statement script n hn =>
      obtain rfl : script = ss := hs
      have outside : (Node.program span script).span.contains o :=
        (encloses _ .refl).contains hn hc
      exact ⟨List.forall_mem_singleton.mpr fun name hm => namesAround_opened outside hm,
        fun name hm => namesAround_child outside hn hm⟩
  | part h hn hm ih =>
      have outside := (around h hs).contains hm hc
      exact (ih hs outside).child outside hm
  | block h hm ih =>
      have outside := (around h hs).contains hm hc
      have found := ih hs outside
      exact (found.child outside hm).inside fun name hn =>
        found.node name (namesAround_opened outside hn)
  | @body n f s m h hf hm ih =>
      have hopen := opensScope_of_function? hf
      have written := h.madeFrom.of_opensScope hopen.1
      have hb : f.body.span.contains o := by
        rcases Function.mem_statements hm with rfl | hm | rfl
        · exact hc
        · exact (encloses _ (part (hs ▸ written.child hopen.2))).contains hm hc
        · exact hc
      have outside := (around h hs).contains hopen.2 hb
      have found := ih hs outside
      have names := found.names (order _ (part (hs ▸ written))) hf outside hb
      have body := found.child outside hopen.2
      rcases Function.mem_statements hm with rfl | hm | rfl
      · exact body.inside names
      · exact (body.child hb hm).inside names
      · -- A return that is made up has the span of its expression and opens nothing.
        refine Node.FoundIn.inside ⟨body.scopes, fun name hn => body.node name ?_⟩ names
        obtain ⟨-, hn | ⟨k, hk, hn⟩⟩ := mem_namesAround.mp hn
        · cases hn
        · obtain rfl := List.mem_singleton.mp hk
          exact hn
  | constant h b ih =>
      refine ⟨(ih hs hc).scopes, fun name hn => ?_⟩
      obtain ⟨-, hn | ⟨k, hk, -⟩⟩ := mem_namesAround.mp hn
      · cases hn
      · cases hk

/-- **Whatever is declared around a place of a script is a name that is in scope there.** -/
theorem Node.LiesAt.declarations {source : String} {span : Span}
    (hp : Grammar.parse source = .ok (.program span s.script)) (h : n.LiesAt s)
    (hc : n.span.contains o) : ∀ names ∈ s.scopes, ∀ name ∈ names,
      name ∈ declarationsAt (.program span s.script) o := by
  have order : ∀ m, (Node.program span s.script).Part m → m.FunctionInOrder := by
    rcases Grammar.parse_in_order source with ⟨_, _, e, -⟩ | ⟨span', ss, e, order, -⟩
    · rw [hp] at e
      cases e
    · rw [hp] at e
      cases e
      exact fun m hm => (order m hm).function
  have found := h.foundIn rfl (fun m hm => (Grammar.parse_within hp m hm).encloses) order hc
  exact fun names hn name hm => mem_distinct.mpr (found.scopes names hn name hm)

end Nondet
