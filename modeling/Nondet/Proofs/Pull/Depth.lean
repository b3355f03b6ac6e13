import Nondet.Proofs.Pull.Names

/-!
# Pull — Depth

How high calls lie on the stack.  A call that is entered counts the frames on the stack with its own
and fails when there are more than the limit says; blocks and scripts do not count.  A call that
gave an outcome is asked for more on the stack that it was entered on, so wherever a call's frame
lies on the stack, it lies as low as on the day it was entered.  `s.Capped fs m d` says this of the
calls in the stream `s`, asked with `d` frames on the stack, and `fs.Capped m stack` of the calls on a
stack: what lies above the limit are frames of blocks and scripts (`heights_kept`).
-/

namespace Nondet

open Nondet.Action

variable {l : Limits} {L : Ledger} {c c' : Context} {fs fs' : Frames} {m d : Nat} {σ α : Type}

/-! ### Frames on the stack -/

/-- The frame is that of a block or a script, or the global one. -/
def Frames.IsScope (fs : Frames) (i : FrameId) : Prop := ∃ f, fs.get? i = some f ∧ f.call = none

/-- The frames of the stack that lie above the limit belong to blocks and scripts. -/
def Frames.Capped (fs : Frames) (m : Nat) (stack : List FrameId) : Prop :=
  ∀ i ∈ stack.take (stack.length - m), fs.IsScope i

/-- Frames of blocks and scripts go on to be such. -/
def Frames.KeepsScopes (fs fs' : Frames) : Prop := ∀ i, fs.IsScope i → fs'.IsScope i

theorem Frames.Extends.keepsScopes (he : fs.Extends L fs') : fs.KeepsScopes fs' := by
  rintro i ⟨f, hf, hc⟩
  obtain ⟨bs, hf'⟩ := he.tables hf
  exact ⟨_, hf', hc⟩

/-- Binding a name makes no frame another's. -/
theorem Frames.keepsScopes_set (fs : Frames) (i : FrameId) (name : String) (binding : Binding) :
    fs.KeepsScopes (fs.set i name binding) := by
  rintro j ⟨f, hf, hc⟩
  have hset : (fs.set i name binding).get? j = _ := get?_set name binding
  rw [hf] at hset
  split at hset <;> exact ⟨_, hset, hc⟩

namespace Frames.Capped

variable {stack : List FrameId} {i : FrameId}

theorem mono (h : fs.Capped m stack) (he : fs.KeepsScopes fs') : fs'.Capped m stack :=
  fun i hi => he i (h i hi)

/-- A stack of scopes. -/
theorem of_scopes (h : ∀ i ∈ stack, fs.IsScope i) : fs.Capped m stack :=
  fun i hi => h i (List.mem_of_mem_take hi)

/-- A block may be entered anywhere. -/
theorem push_scope (h : fs.Capped m stack) (hi : fs.IsScope i) : fs.Capped m (i :: stack) := by
  intro j hj
  cases hk : (i :: stack).length - m with
  | zero =>
      rw [hk] at hj
      cases hj
  | succ k =>
      rw [hk, List.take_succ_cons] at hj
      rcases List.mem_cons.mp hj with rfl | hj
      · exact hi
      · refine h j ?_
        rwa [show stack.length - m = k by rw [List.length_cons] at hk; omega]

/-- Below the limit nothing lies above it. -/
theorem push_below (hlt : stack.length < m) : fs.Capped m (i :: stack) := by
  intro j hj
  rw [List.length_cons, Nat.sub_eq_zero_of_le hlt] at hj
  cases hj

end Frames.Capped

/-! ### Streams -/

section

variable (fs : Frames) (m : Nat)

mutual

/-- With so many frames on the stack, no call in the stream lies above the limit. -/
def Stream.Capped (d : Nat) : Stream → Prop
  | .empty | .once _ | .deferred _ | .node _ | .amb _ | .block _ | .program _ | .body _
  | .call _ _ _ _               => True
  | .nested _ inner             => inner.Capped d
  | .map inner _                => inner.Capped d
  | .flatMap outer _            => outer.Capped d
  | .append first second        => first.Capped d ∧ second.Capped d
  | .calls _ _ arguments        => arguments.Capped d
  | .choice _ current _         => current.Capped d
  | .sequence begun             => begun.Capped d
  | .framed frame inner         => fs.IsScope frame ∧ inner.Capped (d + 1)
  | .activation _ inner         => d < m ∧ inner.Capped (d + 1)

def Odometer.Capped (d : Nat) : Odometer → Prop
  | .start _         => True
  | .turning begun _ => begun.Capped d

def OpenArguments.Capped (d : Nat) : OpenArguments → Prop
  | .none                    => True
  | .push stream _ _ earlier => stream.Capped d ∧ earlier.Capped d

def OpenStatements.Capped (d : Nat) : OpenStatements → Prop
  | .none                  => True
  | .push stream _ earlier => stream.Capped d ∧ earlier.Capped d

end

end

section Growing

mutual

theorem Stream.Capped.mono (he : fs.KeepsScopes fs') :
    ∀ {s : Stream} {d : Nat}, s.Capped fs m d → s.Capped fs' m d
  | .empty, _, _ | .once _, _, _ | .deferred _, _, _ | .node _, _, _ | .amb _, _, _ | .block _, _, _
  | .program _, _, _ | .body _, _, _ | .call _ _ _ _, _, _ => trivial
  | .nested _ inner, _, h => Stream.Capped.mono he (s := inner) h
  | .map inner _, _, h => Stream.Capped.mono he (s := inner) h
  | .flatMap outer _, _, h => Stream.Capped.mono he (s := outer) h
  | .append _ _, _, h => ⟨h.1.mono he, h.2.mono he⟩
  | .calls _ _ arguments, d, h =>
    (Odometer.Capped.mono he : arguments.Capped fs m d → arguments.Capped fs' m d) h
  | .choice _ current _, _, h => Stream.Capped.mono he (s := current) h
  | .sequence begun, d, h =>
    (OpenStatements.Capped.mono he : begun.Capped fs m d → begun.Capped fs' m d) h
  | .framed _ _, _, h => ⟨he _ h.1, h.2.mono he⟩
  | .activation _ _, _, h => ⟨h.1, h.2.mono he⟩

theorem Odometer.Capped.mono (he : fs.KeepsScopes fs') :
    ∀ {o : Odometer} {d : Nat}, o.Capped fs m d → o.Capped fs' m d
  | .start _, _, _ => trivial
  | .turning begun _, d, h =>
    (OpenArguments.Capped.mono he : begun.Capped fs m d → begun.Capped fs' m d) h

theorem OpenArguments.Capped.mono (he : fs.KeepsScopes fs') :
    ∀ {begun : OpenArguments} {d : Nat}, begun.Capped fs m d → begun.Capped fs' m d
  | .none, _, _ => trivial
  | .push _ _ _ _, _, h => ⟨h.1.mono he, h.2.mono he⟩

theorem OpenStatements.Capped.mono (he : fs.KeepsScopes fs') :
    ∀ {begun : OpenStatements} {d : Nat}, begun.Capped fs m d → begun.Capped fs' m d
  | .none, _, _ => trivial
  | .push _ _ _, _, h => ⟨h.1.mono he, h.2.mono he⟩

end

end Growing

/-- What was just made runs in no frame. -/
theorem Stream.Made.capped {s : Stream} (h : s.Made True) : s.Capped fs m d := by
  cases h <;> trivial

/-! ### The contract -/

/-- What is left is capped with as many frames on the stack as before. -/
def Context.Lowers (c : Context) (capped : Frames → Nat → σ → Prop) (r : Reply σ α) : Prop :=
  ∀ a s c', r = .yield a s c' → capped c'.frames c.depth s

theorem Context.Lowers.finished {capped : Frames → Nat → σ → Prop} {c c' : Context} :
    c.Lowers (α := α) capped (.finished c') := fun _ _ _ e => by cases e

theorem Context.Lowers.failed {capped : Frames → Nat → σ → Prop} {c c' : Context}
    {failure : Failure} : c.Lowers (α := α) capped (.failed failure c') := fun _ _ _ e => by cases e

/-- No call on the stack or in the stream lies above the limit. -/
def heights (m : Nat) : Contract where
  stream s c := c.frames.Capped m c.stack ∧ s.Capped c.frames m c.depth
  streamReply _ c r := c.Lowers (fun fs d s => s.Capped fs m d) r
  odometer o c := c.frames.Capped m c.stack ∧ o.Capped c.frames m c.depth
  odometerReply _ c r := c.Lowers (fun fs d o => o.Capped fs m d) r

/-- The stack is the same, and frames of blocks and scripts are such still. -/
structure Context.Onward (c c' : Context) : Prop where
  stack : c'.stack = c.stack
  scopes : c.frames.KeepsScopes c'.frames

namespace Context.Onward

theorem refl (c : Context) : c.Onward c := ⟨rfl, fun _ => id⟩

theorem of_alike (h : c.Alike c') (he : c.frames.Extends L c'.frames) : c.Onward c' :=
  ⟨h.stack, he.keepsScopes⟩

theorem depth (h : c.Onward c') : c'.depth = c.depth := by
  rw [Context.depth, h.stack, Context.depth]

theorem capped (h : c.Onward c') (hc : c.frames.Capped m c.stack) :
    c'.frames.Capped m c'.stack := h.stack ▸ hc.mono h.scopes

/-- What an action leaves. -/
theorem of_action {a : Action α} (hs : a.Steady) (he : a.Extends .blank) {x : α}
    (h : a.on c = (.ok x, c')) : c.Onward c' := by
  have alike := hs c
  have longer := he c
  rw [h] at alike longer
  exact .of_alike alike longer

end Context.Onward

namespace Heights

/-- What follows on the reply of a stream. -/
theorem inside {s : Stream} {next : Reply Stream Outcome → Move σ α} {Q : Reply σ α → Prop}
    (hc : c.frames.Capped m c.stack) (hs : s.Capped c.frames m c.depth)
    (h : ∀ r, c.Disciplined Stream.Placed r → c.frames.KeepsScopes r.context.frames →
      c.Lowers (fun fs d s => s.Capped fs m d) r →
        (next r).MeetsOver (requests l .blank) (heights m) Q) :
    (Move.stream s c next).MeetsOver (requests l .blank) (heights m) Q :=
  ⟨⟨hc, hs⟩, fun r hb hk => h r hb.1.2 hb.2.1.keepsScopes hk⟩

/-- What follows on the reply of an odometer. -/
theorem odometer_inside {o : Odometer} {next : Reply Odometer (List Value) → Move σ α}
    {Q : Reply σ α → Prop} (hc : c.frames.Capped m c.stack) (ho : o.Capped c.frames m c.depth)
    (h : ∀ r, c.Disciplined Odometer.Placed r → c.frames.KeepsScopes r.context.frames →
      c.Lowers (fun fs d o => o.Capped fs m d) r →
        (next r).MeetsOver (requests l .blank) (heights m) Q) :
    (Move.odometer o c next).MeetsOver (requests l .blank) (heights m) Q :=
  ⟨⟨hc, ho⟩, fun r hb hk => h r hb.1.2 hb.2.1.keepsScopes hk⟩

/-- A stream that is asked for its answer. -/
theorem asked {s : Stream} (h : c.Onward c') (hc : c.frames.Capped m c.stack)
    (hs : s.Capped c'.frames m c.depth) :
    (Move.stream s c' .answer).MeetsOver (requests l .blank) (heights m)
      (c.Lowers fun fs d s => s.Capped fs m d) :=
  ⟨⟨h.capped hc, h.depth ▸ hs⟩, fun _ _ hk a s c'' e => h.depth ▸ hk a s c'' e⟩

/-- An odometer that is asked for its answer. -/
theorem odometer_asked {o : Odometer} (h : c.Onward c') (hc : c.frames.Capped m c.stack)
    (ho : o.Capped c'.frames m c.depth) :
    (Move.odometer o c' .answer).MeetsOver (requests l .blank) (heights m)
      (c.Lowers fun fs d o => o.Capped fs m d) :=
  ⟨⟨h.capped hc, h.depth ▸ ho⟩, fun _ _ hk a o c'' e => h.depth ▸ hk a o c'' e⟩

/-! ### One move of each stream -/

/-- The moves of the stream in the context leave calls as low as they are. -/
def Stays (l : Limits) (m : Nat) (s : Stream) (c : Context) : Prop :=
  (s.move c).MeetsOver (requests l .blank) (heights m) (c.Lowers fun fs d s => s.Capped fs m d)

/-- The moves of the odometer in the context leave calls as low as they are. -/
def OdometerStays (l : Limits) (m : Nat) (o : Odometer) (c : Context) : Prop :=
  (o.move c).MeetsOver (requests l .blank) (heights m) (c.Lowers fun fs d o => o.Capped fs m d)

variable (hc : c.frames.Capped m c.stack)

include hc

theorem nested {inner : Stream} (hs : inner.Capped c.frames m c.depth) (span : Span) :
    Stays l m (.nested span inner) c := by
  obtain ⟨-, h⟩ | ⟨-, h⟩ := Stream.move_nested_cases span inner c <;> rw [Stays, h]
  · exact Context.Lowers.failed
  · refine inside (c := c.enterNested) hc hs fun r _ _ hy => ?_
    cases r with
    | yield outcome inner' c' =>
        rintro _ _ _ ⟨⟩
        exact hy outcome inner' c' rfl
    | finished c' => exact Context.Lowers.finished
    | failed failure c' => exact Context.Lowers.failed

theorem map {inner : Stream} (hs : inner.Capped c.frames m c.depth) (f : Transform) :
    Stays l m (.map inner f) c := by
  refine inside hc hs fun r _ _ hy => ?_
  cases r with
  | yield outcome inner' c' =>
      have rest : inner'.Capped c'.frames m c.depth := hy _ _ _ rfl
      rcases hx : (f.run outcome).on c' with ⟨failure | x, c''⟩ <;> simp only [hx]
      · exact Context.Lowers.failed
      · rintro _ _ _ ⟨⟩
        have step := Context.Onward.of_action (.transform f outcome) (.transform f outcome) hx
        exact rest.mono step.scopes
  | finished c' => exact Context.Lowers.finished
  | failed failure c' => exact Context.Lowers.failed

theorem flatMap {outer : Stream} (hs : outer.Capped c.frames m c.depth) (next : Continuation) :
    Stays l m (.flatMap outer next) c := by
  refine inside hc hs fun r hd he hy => ?_
  cases r with
  | yield outcome outer' c' =>
      have rest : outer'.Capped c'.frames m c.depth := hy _ _ _ rfl
      obtain ⟨failure, e⟩ | ⟨inner, e, hi⟩ := next.on_run_cases outcome c' <;> simp only [e]
      · exact Context.Lowers.failed
      · exact asked ⟨hd.1.stack, he⟩ hc ⟨hi.made.capped, rest⟩
  | finished c' => exact Context.Lowers.finished
  | failed failure c' => exact Context.Lowers.failed

theorem append {first second : Stream} (hs : first.Capped c.frames m c.depth)
    (hs' : second.Capped c.frames m c.depth) : Stays l m (.append first second) c := by
  refine inside hc hs fun r hd he hy => ?_
  cases r with
  | yield outcome first' c' =>
      rintro _ _ _ ⟨⟩
      exact ⟨hy outcome first' c' rfl, hs'.mono he⟩
  | finished c' => exact asked ⟨Context.Alike.stack hd, he⟩ hc (hs'.mono he)
  | failed failure c' => exact Context.Lowers.failed

theorem calls {arguments : Odometer} (ho : arguments.Capped c.frames m c.depth) (span : Span)
    (callee : Value) : Stays l m (.calls span callee arguments) c := by
  refine odometer_inside hc ho fun r hd he hy => ?_
  cases r with
  | yield values arguments' c' =>
      exact asked ⟨hd.1.stack, he⟩ hc ⟨(made_apply _ _ _ _).capped, hy values arguments' c' rfl⟩
  | finished c' => exact Context.Lowers.finished
  | failed failure c' => exact Context.Lowers.failed

theorem amb : ∀ alternatives : List Node, Stays l m (.amb alternatives) c
  | []     => nofun
  | _ :: _ => asked (.refl c) hc trivial

theorem choice {snapshot : Snapshot} (hp : snapshot.place = c.place)
    (hset : snapshot.Settled .blank c.frames) {current : Stream}
    (hcur : current.Settled .blank c.frames) (hs : current.Capped c.frames m c.depth)
    (later : List Node) : Stays l m (.choice snapshot current later) c := by
  refine ⟨⟨hc, hs⟩, fun r hb hy => ?_⟩
  obtain ⟨⟨-, hd⟩, he, -⟩ := hb
  rw [hcur.opening?] at he
  cases r with
  | yield outcome current' c' =>
      rintro _ _ _ ⟨⟩
      exact hy outcome current' c' rfl
  | finished c' =>
      have back : c.Onward (c'.restore snapshot) :=
        .of_alike (.restore hd hp) (he.trans (.restore (hset.mono he)))
      cases later with
      | nil => exact Context.Lowers.finished
      | cons n later => exact asked back hc trivial
  | failed failure c' => exact Context.Lowers.failed

theorem body (ss : List Node) : Stays l m (.body ss) c := by
  have alike := Action.Steady.hoist ss c
  have longer := extends_hoist (L := Ledger.blank.loosen c.current) ss c (.inr rfl)
  rw [Stays]
  simp only [Stream.move]
  rcases hx : (hoist ss).on c with ⟨failure | _, c'⟩ <;> rw [hx] at alike longer
  · exact Context.Lowers.failed
  · exact asked (.of_alike alike longer) hc (Stream.made_ofStatements ss).capped

theorem sequence : ∀ {begun : OpenStatements}, begun.Capped c.frames m c.depth →
    Stays l m (.sequence begun) c
  | .none, _ => nofun
  | .push current later earlier, ⟨hs, hb⟩ => by
      refine inside hc hs fun r hd he hy => ?_
      cases r with
      | yield outcome current' c' =>
          have onward : c.Onward c' := ⟨hd.1.stack, he⟩
          have rest : (OpenStatements.push current' later earlier).Capped c'.frames m c.depth :=
            ⟨hy outcome current' c' rfl, hb.mono he⟩
          cases outcome with
          | returned v =>
              rintro _ _ _ ⟨⟩
              exact rest
          | value v =>
              cases later with
              | nil =>
                  rintro _ _ _ ⟨⟩
                  exact rest
              | cons n later => exact asked onward hc ⟨trivial, rest⟩
          | cut =>
              cases later with
              | nil =>
                  rintro _ _ _ ⟨⟩
                  trivial
              | cons n later => exact asked onward hc ⟨trivial, trivial⟩
      | finished c' =>
          exact asked (s := .sequence earlier) ⟨Context.Alike.stack hd, he⟩ hc (hb.mono he)
      | failed failure c' => exact Context.Lowers.failed

theorem framed {frame : FrameId} {inner : Stream} (hf : c.frames.IsScope frame)
    (hs : inner.Capped c.frames m (c.depth + 1)) : Stays l m (.framed frame inner) c := by
  refine inside (c := c.push frame) (hc.push_scope hf) hs fun r _ he hy => ?_
  cases r with
  | yield outcome inner' c' =>
      rintro _ _ _ ⟨⟩
      exact ⟨he frame hf, hy outcome inner' c' rfl⟩
  | finished c' => exact Context.Lowers.finished
  | failed failure c' => exact Context.Lowers.failed

omit hc in
/-- A call's body is asked with the call's frame on the stack, and with no more frames than the
limit says. -/
theorem activation {frame : FrameId} {inner : Stream} (hlt : c.depth < m)
    (hs : inner.Capped c.frames m (c.depth + 1)) : Stays l m (.activation frame inner) c := by
  refine inside (c := c.push frame) (Frames.Capped.push_below hlt) hs fun r _ he hy => ?_
  cases r with
  | yield outcome inner' c' =>
      rintro _ _ _ ⟨⟩
      exact ⟨hlt, hy outcome inner' c' rfl⟩
  | finished c' => exact Context.Lowers.finished
  | failed failure c' => exact Context.Lowers.failed

theorem block (ss : List Node) : Stays l m (.block ss) c := by
  have new := Frames.Extends.push .blank c.frames (.child "block" c.current)
  have scope : (c.frames.push (.child "block" c.current)).IsScope c.frames.next :=
    ⟨_, by rw [Frames.get?_push, if_pos rfl], rfl⟩
  exact asked (.of_alike (.frames c _) new) hc ⟨scope, trivial⟩

omit hc in
theorem call (hc : c.frames.Capped l.maxDepth c.stack) (hr : c.Ready l) (span : Span)
    (closure : Closure) (arguments : List Value) (this : Option Value) :
    Stays l l.maxDepth (.call span closure arguments this) c := by
  have new := Frames.Extends.push .blank c.frames (.activation closure arguments span this)
  obtain ⟨-, h⟩ | ⟨-, -, h⟩ | ⟨-, below, h⟩ :=
    Stream.move_call_cases span this closure arguments c <;> rw [Stays, h]
  · exact Context.Lowers.failed
  · exact Context.Lowers.failed
  · exact asked (.of_alike (.frames c _) new) hc ⟨hr.limits ▸ below, trivial⟩

theorem turning {begun : OpenArguments} (hb : begun.Capped c.frames m c.depth)
    (values : List Value) : OdometerStays l m (.turning begun values) c := by
  cases begun with
  | none => rintro _ _ _ ⟨⟩
  | push current span later earlier =>
      obtain ⟨hs, hb⟩ := hb
      refine inside hc hs fun r hd he hy => ?_
      cases r with
      | yield outcome current' c' =>
          obtain ⟨failure, e⟩ | e := on_operand_cases span "call argument" outcome c' <;>
            simp only [e]
          · exact Context.Lowers.failed
          · have opened : (OpenArguments.push current' span later earlier).Capped c'.frames m
                c.depth := ⟨hy outcome current' c' rfl, hb.mono he⟩
            cases later with
            | nil =>
                rintro _ _ _ ⟨⟩
                exact opened
            | cons n later => exact odometer_asked ⟨hd.1.stack, he⟩ hc ⟨trivial, opened⟩
      | finished c' =>
          exact odometer_asked (o := .turning earlier _) ⟨Context.Alike.stack hd, he⟩ hc (hb.mono he)
      | failed failure c' => exact Context.Lowers.failed

theorem start : ∀ arguments : List Node, OdometerStays l m (.start arguments) c
  | []     => by
    rintro _ _ _ ⟨⟩
    trivial
  | _ :: _ => odometer_asked (.refl c) hc ⟨trivial, trivial⟩

end Heights

/-- **Requests leave calls as low on the stack as they are**, and enter none above the limit. -/
theorem heights_kept (l : Limits) : ((requests l .blank).and (heights l.maxDepth)).Kept := by
  refine (requests_kept l .blank).and (fun s c hb hs => ?_) fun o c _ ho => ?_
  · obtain ⟨⟨-, placed, ready⟩, -, settled⟩ := hb
    obtain ⟨hc, hs⟩ := hs
    cases s with
    | empty => rintro _ _ _ ⟨⟩
    | once outcome =>
        rintro _ _ _ ⟨⟩
        trivial
    | deferred what =>
        rcases hx : what.run.on c with ⟨failure | outcome, c'⟩ <;>
          simp only [Stream.move, hx, Reply.ofResult]
        · rintro _ _ _ ⟨⟩
        · rintro _ _ _ ⟨⟩
          trivial
    | node n => exact Heights.asked (.refl c) hc (Stream.made_build (.inl trivial)).capped
    | nested span inner =>
        exact Heights.nested hc (show inner.Capped c.frames l.maxDepth c.depth from hs) span
    | map inner f => exact Heights.map hc (show inner.Capped c.frames l.maxDepth c.depth from hs) f
    | flatMap outer next =>
        exact Heights.flatMap hc (show outer.Capped c.frames l.maxDepth c.depth from hs) next
    | append first second => exact Heights.append hc hs.1 hs.2
    | calls span callee arguments => exact Heights.calls hc hs span callee
    | amb alternatives => exact Heights.amb hc alternatives
    | choice snapshot current later =>
        have settled := settled.resolve_right fun e => by cases e
        exact Heights.choice hc placed.1 settled.1 settled.2 hs later
    | block statements => exact Heights.block hc statements
    | program statements => exact absurd placed id
    | body statements => exact Heights.body hc statements
    | sequence begun => exact Heights.sequence hc hs
    | framed frame inner => exact Heights.framed hc hs.1 hs.2
    | call span closure arguments this => exact Heights.call hc ready span closure arguments this
    | activation frame inner => exact Heights.activation hs.1 hs.2
  · obtain ⟨hc, ho⟩ := ho
    cases o with
    | start arguments => exact Heights.start hc arguments
    | turning begun values => exact Heights.turning hc ho values

end Nondet
