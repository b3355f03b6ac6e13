import Nondet.Quotation
import Nondet.Proofs.Decimal.Negation
import Nondet.Proofs.Direct.Performs

/-!
# Quotation

What a node is converted to is what it evaluates to.  A converted node is a literal, a negated number
or a name, and each of them has one outcome and leaves the context as it was (`Node.Denotes`).  What
the conversion does not know is that evaluation can be refused: every node takes a level of the nesting,
and a name that is reserved for the marker never stands for what it is bound to.
-/

namespace Nondet

open Nondet.Action

variable {c : Context} {v : Value} {n : Node} {span : Span}

/-- Evaluating the node in the context gives the value and leaves the context as it was; asked again,
the node has no more outcomes and fails at nothing, whatever was done to the frames meanwhile. -/
def Node.Denotes (n : Node) (c : Context) (v : Value) : Prop :=
  ∃ rest, (evaluate n).Gives c (.yield (.value v) rest c) ∧
    ∀ c', c'.limits = c.limits → c'.nesting = c.nesting → rest.Gives c' (.finished c')

/-- How many levels of the nesting it takes to evaluate a node that can be converted. -/
def Node.levels : Node → Nat
  | .unary _ _ _ => 2
  | _            => 1

/-- The name of the marker. -/
def Node.isCut : Node → Bool
  | .identifier _ name => name == cutName
  | _                  => false

namespace Node

/-- A node denotes the value that is given once inside it. -/
theorem denotes_of_inside (hk : c.nesting < c.limits.maxNesting)
    (h : (Stream.build n).Performs c.limits (c.nesting + 1) c.enterNested
      (.ok (.value v), c.enterNested)) : n.Denotes c v := by
  have given := Stream.Performs.node (a := fun _ => (.ok (.value v), c.enterNested)) ⟨rfl, rfl⟩ hk h
  obtain ⟨rest, hg, hs⟩ := given.gives_ok
  exact ⟨rest, hg, fun c' hl hk => hs c' ⟨hl, hk⟩⟩

/-- A node has but one value. -/
theorem Denotes.unique {v' : Value} (h : n.Denotes c v) (h' : n.Denotes c v') : v = v' := by
  obtain ⟨_, hg, -⟩ := h
  obtain ⟨_, hg', -⟩ := h'
  cases hg.unique hg'
  rfl

/-- A node that has a value was entered. -/
theorem Denotes.entered (h : n.Denotes c v) : c.nesting < c.limits.maxNesting := by
  obtain ⟨_, hg, -⟩ := h
  exact Context.At.lt_of_gives_yield ⟨rfl, rfl⟩ hg

/-! ### The nodes that can be converted -/

/-- A literal denotes its value wherever it can be entered. -/
theorem denotes_literal {value : Literal} :
    (literal span value).Denotes c value.value ↔ c.nesting < c.limits.maxNesting :=
  ⟨Denotes.entered, fun h => denotes_of_inside h (.once _)⟩

/-- A name denotes what it is bound to, unless it is that of the marker. -/
theorem denotes_identifier {name : String} (hv : c.frames.lookup c.current name = .ok v)
    (hn : name ≠ cutName) :
    (identifier span name).Denotes c v ↔ c.nesting < c.limits.maxNesting := by
  refine ⟨Denotes.entered, fun h => denotes_of_inside h ?_⟩
  have found : (Deferred.lookup span name).run.on c.enterNested = (.ok (.value v), c.enterNested) := by
    have same : c.enterNested.frames.lookup c.enterNested.current name = .ok v := hv
    rw [Deferred.run, on_bind, on_lookup, same]
    rfl
  rw [Stream.build, if_neg hn, ← found]
  exact .deferred (.lookup span name)

/-- The name of the marker gives the marker, whatever it is bound to. -/
theorem gives_cut (hk : c.nesting < c.limits.maxNesting) :
    ∃ rest, (evaluate (.identifier span cutName)).Gives c (.yield .cut rest c) := by
  have marker : (evaluate (.identifier span cutName)).Performs c.limits c.nesting c (.ok .cut, c) :=
    Stream.Performs.node (a := pure .cut) ⟨rfl, rfl⟩ hk (.once .cut)
  obtain ⟨rest, hg, -⟩ := marker.gives_ok
  exact ⟨rest, hg⟩

theorem not_denotes_cut : ¬ (identifier span cutName).Denotes c v := by
  intro h
  obtain ⟨_, marker⟩ : ∃ rest, (evaluate (.identifier span cutName)).Gives c (.yield .cut rest c) :=
    gives_cut h.entered
  obtain ⟨_, given, -⟩ := h
  cases marker.unique given

/-- The argument of an operator is entered inside the operator. -/
theorem Denotes.argument_entered {op : UnaryOp} {argument : Node}
    (h : (unary span op argument).Denotes c v) : c.nesting + 1 < c.limits.maxNesting := by
  obtain ⟨rest, hg, -⟩ := h
  have entered := Context.At.lt_of_gives_yield ⟨rfl, rfl⟩ hg
  obtain ⟨r, hr, e⟩ := (Stream.gives_nested entered).mp (Stream.gives_node.mp hg)
  obtain ⟨r', hr', hl⟩ := Stream.gives_iff.mp hr
  -- Only a reply with an outcome leads to one.
  cases r' with
  | yield outcome inner c' => exact Context.At.lt_of_gives_yield (c := c.enterNested) ⟨rfl, rfl⟩ hr'
  | finished c' =>
      cases hl
      cases e
  | failed failure c' =>
      cases hl
      cases e

/-- A negated number denotes its negation wherever both nodes can be entered. -/
theorem denotes_negated {inner : Span} {x : Float} :
    (unary span .neg (.literal inner (.number x))).Denotes c (.number (-x)) ↔
      c.nesting + 1 < c.limits.maxNesting := by
  refine ⟨Denotes.argument_entered, fun h => denotes_of_inside (Nat.lt_of_succ_lt h) ?_⟩
  have argument : (evaluate (.literal inner (.number x))).Performs c.limits (c.nesting + 1)
      c.enterNested (.ok (.value (.number x)), c.enterNested) := .literal ⟨rfl, rfl⟩ h inner _
  exact argument.map (a := pure (.value (.number x))) (.unary span .neg)

/-- A converted node denotes what it is converted to, if it is not the name of the marker and the
nesting leaves room for it. -/
theorem denotes_iff_of_toValue? (hc : c.current = c.global) (h : n.toValue? c = some v) :
    n.Denotes c v ↔ n.isCut = false ∧ c.nesting + n.levels ≤ c.limits.maxNesting := by
  unfold toValue? at h
  split at h
  next span value =>
    cases h
    exact denotes_literal.trans (and_iff_right rfl).symm
  next span inner x =>
    cases h
    exact denotes_negated.trans (and_iff_right rfl).symm
  next span name =>
    split at h
    next native hl =>
      cases h
      by_cases hn : name = cutName
      · subst hn
        exact iff_of_false not_denotes_cut fun h => nomatch h.1
      · rw [← hc] at hl
        exact (denotes_identifier hl hn).trans (and_iff_right (beq_false_of_ne hn)).symm
    next => cases h
  next => cases h

end Node

/-- The node that is written for a value is converted back to it, and denotes it if the nesting leaves
room for the node. -/
theorem Value.denotes_iff_of_toNode? (h : v.toNode? span = some n) :
    n.toValue? c = some v ∧ (n.Denotes c v ↔ c.nesting + n.levels ≤ c.limits.maxNesting) := by
  cases v with
  | undefined | null | bool b | string s =>
      cases h
      exact ⟨rfl, Node.denotes_literal⟩
  | closure closure => cases h
  | native name => cases h
  | number x =>
      rw [toNode?] at h
      split at h
      · cases h
      split at h
      · cases h
        have back : number (-(-x)) = number x := congrArg number (Decimal.neg_neg_float x)
        refine ⟨congrArg some back, ?_⟩
        rw [← back]
        exact Node.denotes_negated
      · cases h
        exact ⟨rfl, Node.denotes_literal⟩

/-- **Conversion agrees with evaluation.**  Where the global frame is the innermost one, a node that
is converted to a value denotes it, unless the node is the name of the marker or the nesting has no
room for it; and the node that is written for a value is converted back to the value, and denotes it
wherever the nesting has room for it. -/
theorem conversion_agrees (c : Context) :
    (c.current = c.global → ∀ (n : Node) (v : Value), n.toValue? c = some v →
      (n.Denotes c v ↔ n.isCut = false ∧ c.nesting + n.levels ≤ c.limits.maxNesting)) ∧
    ∀ (v : Value) (span : Span) (n : Node), v.toNode? span = some n →
      n.toValue? c = some v ∧ (n.Denotes c v ↔ c.nesting + n.levels ≤ c.limits.maxNesting) :=
  ⟨fun hc _ _ h => Node.denotes_iff_of_toValue? hc h, fun _ _ _ h => Value.denotes_iff_of_toNode? h⟩

/-- A name that the host has bound to a native, and a negative number. -/
theorem conversion_agrees_native :
    let c := (Context.empty .standard Prelude.host).defineGlobal "show" (.native "display")
    let name : Node := .identifier .zero "show"
    let negative : Node := .unary .zero .neg (.literal .zero (.number 4))
    (c.current = c.global ∧ name.toValue? c = some (.native "display") ∧
      name.Denotes c (.native "display")) ∧
    (Value.number (-4)).toNode? .zero = some negative ∧ negative.toValue? c = some (.number (-4)) ∧
      negative.Denotes c (.number (-4)) := by
  intro c name negative
  have bound : name.toValue? c = some (.native "display") := rfl
  have written : (Value.number (-4)).toNode? .zero = some negative := by
    have finite : (-4 : Float).isFinite = true := by decide
    have negated : -(-4 : Float) = 4 := Decimal.neg_neg_float 4
    have below : (-4 : Float) < 0 := by decide
    rw [Value.toNode?, finite, if_neg (by decide), if_pos below, negated]
  obtain ⟨forth, back⟩ := conversion_agrees c
  have back := back _ _ _ written
  exact ⟨⟨rfl, bound, (forth rfl _ _ bound).mpr ⟨by decide, by decide⟩⟩, written, back.1,
    back.2.mpr (by decide)⟩

/-- Where they disagree.  A native that is bound to the name of the marker is not what the name
evaluates to; and with no room for any node, the literal that is written for a value is refused. -/
theorem conversion_disagrees :
    (let c := (Context.empty .standard Prelude.host).defineGlobal cutName (.native "display")
     let name : Node := .identifier .zero cutName
     c.current = c.global ∧ name.toValue? c = some (.native "display") ∧
       ∃ rest, (evaluate name).Gives c (.yield .cut rest c)) ∧
    (let c := Context.empty ⟨500, 0⟩ Prelude.host
     let literal : Node := .literal .zero (.bool true)
     let failure : Failure := .exceeded .nesting 1 0 .zero
     (Value.bool true).toNode? .zero = some literal ∧ literal.toValue? c = some (.bool true) ∧
       (evaluate literal).Gives c (.failed failure (c.raised failure))) :=
  ⟨⟨rfl, rfl, Node.gives_cut (by decide)⟩, rfl, rfl,
    Stream.gives_node.mpr (Stream.gives_iff.mpr rfl)⟩

end Nondet
