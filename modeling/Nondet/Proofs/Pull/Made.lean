import Nondet.Proofs.Context.Action
import Nondet.Proofs.Tree.Every

/-!
# Pull — Made

Streams that nothing was asked yet.  Whatever a node, a body, a call or a continuation makes has one
of a few shapes, all of them shallow: no frame was entered in it and no choice is open in it
(`Stream.Made`).  So what holds of streams with neither frames nor choices holds of all that is
made, and has to be read off these shapes only.
-/

namespace Nondet

/-- A stream that was just made.  It is a script only if `scripts` holds. -/
inductive Stream.Made (scripts : Prop) : Stream → Prop
  | once (outcome : Outcome) : Made scripts (.once outcome)
  | deferred (what : Deferred) : Made scripts (.deferred what)
  | node (n : Node) : Made scripts (evaluate n)
  | map (n : Node) (f : Transform) : Made scripts (.map (evaluate n) f)
  | flatMap (n : Node) (next : Continuation) : Made scripts (.flatMap (evaluate n) next)
  | calls (span : Span) (callee : Value) (arguments : List Node) :
      Made scripts (.calls span callee (.start arguments))
  | amb (alternatives : List Node) : Made scripts (.amb alternatives)
  | block (ss : List Node) : Made scripts (.block ss)
  | program (h : scripts) (ss : List Node) : Made scripts (.program ss)
  | sequence (n : Node) (later : List Node) :
      Made scripts (.sequence (.push (evaluate n) later .none))
  | call (span : Span) (closure : Closure) (arguments : List Value) (this : Option Value) :
      Made scripts (.call span closure arguments this)

variable {scripts : Prop}

/-- The first unfolding of a node, which is a script only if the node is one. -/
theorem Stream.made_build : ∀ {n : Node}, scripts ∨ n.ScriptFree →
    (Stream.build n).Made scripts
  | .literal _ value, _ => .once (.value value.value)
  | .identifier span name, _ => by
      rw [Stream.build]
      split
      · exact .once .cut
      · exact .deferred (.lookup span name)
  | .call span callee arguments, _ => by
      rw [Stream.build]
      split
      · exact .amb arguments
      · exact .flatMap callee (.arguments span arguments)
  | .unary _ _ argument, _ => .map argument _
  | .binary _ _ left _, _ => .flatMap left _
  | .logical _ .and left _, _ | .logical _ .or left _, _ => .flatMap left _
  | .conditional _ test _ _, _ | .ifStatement _ test _ _, _ => .flatMap test _
  | .variableDeclaration _ _ _ init, _ => .map init _
  | .assignment _ _ value, _ => .map value _
  | .functionDeclaration _ _ _ _ _, _ | .arrowFunction _ _ _ _ _, _ => .deferred _
  | .returnStatement _ none, _ => .once _
  | .returnStatement _ (some argument), _ => .map argument _
  | .block _ ss, _ => .block ss
  | .expressionStatement _ expression, h =>
    Stream.made_build (n := expression) (h.imp_right (·.child (by simp [Node.children])))
  | .program _ ss, h => .program (h.resolve_right fun free => nomatch free.self) ss

theorem Stream.made_ofStatements : ∀ ss : List Node, (Stream.ofStatements ss).Made scripts
  | []         => .once _
  | n :: later => .sequence n later

theorem made_apply (callee : Value) (arguments : List Value) (span : Span) (this : Option Value) :
    (apply callee arguments span this).Made scripts := by
  cases callee with
  | closure closure => exact .call span closure arguments this
  | native name => exact .deferred (.native span name arguments)
  | _ => exact .deferred (.notFunction span _)

/-- Whatever is evaluated next was just made. -/
theorem Continuation.Next.made {next : Continuation} {v : Value} {s : Stream} (h : next.Next v s) :
    s.Made scripts := by
  cases h with
  | right span op n => exact .map n _
  | consequent _ _ n _ | alternate _ _ _ n => exact .node n
  | neither span test consequent => exact .once _
  | calls span nodes => exact .calls span v nodes

end Nondet
