import Nondet.Grammar.Build

/-!
# Grammar — Script

Reading a script: the grammar yields the pairs of its text, and these are built to a tree.  Main
definition: `parse`, the tree of a script or the reason why there is none.
-/

namespace Nondet.Grammar

/-- The tree of a script.  Where the grammar does not match the text, what was expected at the farthest
offset that was reached. -/
def parse (source : String) : Except Failure Node :=
  match Syntax.main (Syntax.patternAt (nestings source)) (.start source) .none with
  | (some (ps, _), _) => Pair.script ps source.utf8ByteSize
  | (none, farthest)  => .error (.unexpected farthest.offset farthest.expected)

end Nondet.Grammar
