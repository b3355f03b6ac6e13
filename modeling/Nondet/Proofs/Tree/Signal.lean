import Nondet.Stream
import Nondet.Proofs.Tree.Site

/-!
# Tree — Signal

Two outcomes are more than values: a value on its way out of a function, and the marker that commits
to choices.  Only two kinds of nodes give such a signal themselves, return statements and the name
`cut`; all others hand on what their parts give, except that nothing leaves the body of a function
that is written in them.  `n.Lacks k` says that nothing in `n` that could reach the outside of `n`
gives the signal `k`.
-/

namespace Nondet

/-- The outcomes that are more than values. -/
inductive Signal where
  | returned
  | cut
  deriving DecidableEq

/-- The signal in an outcome. -/
def Outcome.signal? : Outcome → Option Signal
  | .value _    => none
  | .returned _ => some .returned
  | .cut        => some .cut

theorem Outcome.exists_value {o : Outcome} (h : ∀ k, o.signal? ≠ some k) : ∃ v, o = .value v := by
  cases o with
  | value v => exact ⟨v, rfl⟩
  | returned v => exact absurd rfl (h .returned)
  | cut => exact absurd rfl (h .cut)

namespace Node

/-- Whether the node gives the signal itself. -/
def sends : Signal → Node → Bool
  | .returned, .returnStatement _ _ => true
  | .cut, .identifier _ name        => name == cutName
  | _, _                            => false

/-- The children of a node that are evaluated where the node is: the body of a function is not. -/
def inPlace (n : Node) : List Node :=
  match n.function? with
  | some _ => []
  | none   => n.children

/-- Nothing in the node, outside the bodies of functions in it, gives the signal. -/
def Lacks (k : Signal) (n : Node) : Prop :=
  ∀ m, Relation.ReflTransGen (fun n m => m ∈ n.inPlace) n m → m.sends k = false

theorem lacks_iff {k : Signal} {n : Node} :
    n.Lacks k ↔ n.sends k = false ∧ ∀ m ∈ n.inPlace, m.Lacks k := by
  refine ⟨fun h => ⟨h n .refl, fun m hm m' hp => h m' (.head hm hp)⟩, fun ⟨hs, hc⟩ m hm => ?_⟩
  rcases Relation.ReflTransGen.cases_head hm with rfl | ⟨m', hm', hp⟩
  · exact hs
  · exact hc m' hm' m hp

namespace Lacks

variable {k : Signal} {n : Node}

theorem sends (h : n.Lacks k) : n.sends k = false := h n .refl

theorem child (h : n.Lacks k) (hf : n.function? = none) {m : Node} (hm : m ∈ n.children) :
    m.Lacks k := (lacks_iff.mp h).2 m (by rwa [inPlace, hf])

theorem of_literal (k : Signal) (span : Span) (value : Literal) : (literal span value).Lacks k :=
  lacks_iff.mpr ⟨by cases k <;> rfl, nofun⟩

end Lacks

/-- Looks for the signal in the node, down to some depth. -/
def lacksDown (k : Signal) : Nat → Node → Bool
  | 0, _         => false
  | depth + 1, n => !n.sends k && n.inPlace.all (lacksDown k depth)

/-- A search that finds nothing has come to all that is in place. -/
theorem lacks_of_lacksDown {k : Signal} : ∀ {depth : Nat} {n : Node}, n.lacksDown k depth → n.Lacks k
  | depth + 1, n, h => by
      obtain ⟨hn, hc⟩ := Bool.and_eq_true_iff.mp h
      exact lacks_iff.mpr ⟨by simpa using hn,
        fun m hm => lacks_of_lacksDown (List.all_eq_true.mp hc m hm)⟩

/-- The parts of a node whose values it works with itself: operands, arguments, what is called, what
is tested, what a name is given, and what is returned. -/
def operands : Node → List Node
  | .call _ callee arguments                        => callee :: arguments
  | .unary _ _ argument                             => [argument]
  | .binary _ _ left right | .logical _ _ left right => [left, right]
  | .conditional _ test _ _ | .ifStatement _ test _ _ => [test]
  | .variableDeclaration _ _ _ init                 => [init]
  | .assignment _ _ value                           => [value]
  | .returnStatement _ argument                     => argument.toList
  | _                                               => []

end Node

end Nondet
