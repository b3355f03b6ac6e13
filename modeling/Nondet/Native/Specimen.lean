import Nondet.Native

/-!
# Native — Specimen

A few natives of a host, one for each way in which a native can end: with a value, with a failure
from outside, with a mistake of its own making, with a failure that it hands on.
-/

namespace Nondet.Specimen

/-- The first argument. -/
def identity : Native := fun vs => .ok (vs.headD .undefined)

/-- A number brought between zero and ten; what is no number stays as it is. -/
def clamp : Native
  | [.number x] => .ok (.number (if x < 0 then 0 else if 10 < x then 10 else x))
  | _           => .error (.foreign "clamp expects one number")

/-- Reports a name that nobody wrote. -/
def haunt : Native := fun _ => .error (.mistake (.undefined "ghost") ⟨3, 8⟩)

/-- Reports an assignment to a constant. -/
def refuse : Native := fun _ => .error (.failure (.mistake (.constant "limit") ⟨0, 5⟩))

/-- Reports a limit that was reached elsewhere. -/
def exhaust : Native := fun _ => .error (.failure (.exceeded .nesting 8 7 ⟨1, 2⟩))

def natives : List (String × Native) :=
  [("identity", identity), ("clamp", clamp), ("haunt", haunt), ("refuse", refuse),
    ("exhaust", exhaust)]

/-- The specimens as a host. -/
def host : Host := fun name => natives.lookup name

end Nondet.Specimen
