import Nondet.Proofs.Pull.Course
import Nondet.Proofs.Pull.Program

/-!
# Pull — Arguments

The lists of arguments of a call.  They are those of nested loops: for each value of the first
argument, for each value of a fresh evaluation of the second, and so on, with one list for each
combination (`Arguments.Loops`).  The odometer goes through the same lists in the same contexts,
whatever its consumer does in between (`Odometer.loops_of_courseIn`, `Odometer.course_of_each`), and in
each of its rounds it knows which argument it is at (`Odometer.Stands.round`).
-/

namespace Nondet

variable {c c' : Context} {later : List Node} {values : List Value}

/-! ### Nested loops -/

/-- The body of a loop over the outcomes of an argument: what is inside, with the value that the
outcome stands for. -/
def Arguments.Binds {α : Type} (span : Span)
    (inner : Value → Context → List (Given α) → Stop → Prop) (outcome : Outcome) (c : Context)
    (items : List (Given α)) (stop : Stop) : Prop :=
  match (Action.operand span "call argument" outcome).on c with
  | (.ok v, c)          => inner v c items stop
  | (.error failure, c) => items = [] ∧ stop = .failed failure c

theorem Arguments.binds_of_ok {α : Type} {span : Span}
    {inner : Value → Context → List (Given α) → Stop → Prop} {outcome : Outcome} {v : Value}
    {items : List (Given α)} {stop : Stop}
    (h : (Action.operand span "call argument" outcome).on c = (.ok v, c')) :
    Binds span inner outcome c items stop ↔ inner v c' items stop := by
  rw [Binds, h]

theorem Arguments.binds_of_error {α : Type} {span : Span}
    {inner : Value → Context → List (Given α) → Stop → Prop} {outcome : Outcome} {failure : Failure}
    {items : List (Given α)} {stop : Stop}
    (h : (Action.operand span "call argument" outcome).on c = (.error failure, c')) :
    Binds span inner outcome c items stop ↔ items = [] ∧ stop = .failed failure c' := by
  rw [Binds, h]

/-- One loop inside the other for these arguments, inside those that gave `values`. -/
def Arguments.Loops : List Node → List Value → Context → List (Given (List Value)) → Stop → Prop
  | [], values         => Emits values
  | n :: later, values =>
    Each (Binds n.span fun v => Loops later (values ++ [v])) (evaluate n)

/-- The loop over what is left of an argument, inside those that gave `values`, the last one
first. -/
def Arguments.LoopsOn (span : Span) (later : List Node) (values : List Value) :
    Stream → Context → List (Given (List Value)) → Stop → Prop :=
  Each (Binds span fun v => Loops later (values.reverse ++ [v]))

namespace Odometer

open Arguments

/-- Where an odometer stands at one of its arguments, it goes through the loop over what is left of
that argument, and then on with the argument before it.  The induction is on the fuel, since an
argument without values takes a request, but gives no list. -/
theorem loops_of_courseIn : ∀ {fuel : Nat} {s : Stream} {span : Span} {later : List Node}
    {earlier : OpenArguments} {values : List Value} {c : Context} {items : List (Given (List Value))}
    {close : Close},
    CourseIn Odometer.ask fuel (.turning (.push s span later earlier) values) c items close →
      ∃ own others stop, items = own ++ others ∧ LoopsOn span later values s c own stop ∧
        stop.Leads (fun c others close =>
          ∃ less < fuel, CourseIn Odometer.ask less (.turning earlier values.tail) c others close)
          others close := by
  intro fuel
  induction fuel using Nat.strongRecOn with | ind fuel ih
  intro s span later earlier values c items close h
  rcases h.first Odometer.ask_zero with ⟨rfl, rfl⟩ | ⟨k, rest, r, hfuel, hr, goes⟩
  · exact ⟨[], [], .left, rfl, .left, rfl, rfl⟩
  rw [ask_succ] at hr
  obtain ⟨reply, hreply, hr⟩ := Option.bind_eq_some_iff.mp hr
  have gives : s.Gives c reply := ⟨k, hreply⟩
  cases reply with
  | failed failure c₁ =>
      cases hr
      obtain ⟨rfl, rfl⟩ := goes
      exact ⟨[], [], .failed failure c₁, rfl, .failed gives, rfl, rfl⟩
  | finished m =>
      obtain ⟨_, hr', e⟩ := Option.bind_eq_some_iff.mp hr
      cases e
      exact ⟨[], items, .through m, rfl, .finished gives, k + rest, hfuel, goes.courseIn hr'⟩
  | yield outcome left c₁ =>
      simp only at hr
      rcases hv : (Action.operand span "call argument" outcome).on c₁ with ⟨failure | v, c₂⟩ <;>
        rw [hv] at hr
      · cases hr
        obtain ⟨rfl, rfl⟩ := goes
        exact ⟨[], [], .failed failure c₂, rfl, .stop gives ((binds_of_error hv).mpr ⟨rfl, rfl⟩)
          (fun _ e => by cases e),
          rfl, rfl⟩
      · cases later with
        | nil =>
            cases hr
            -- The list is complete, and the argument is asked again.
            obtain ⟨c₃, items', rfl, t⟩ := goes
            obtain ⟨own, others, stop, rfl, each, leads⟩ := ih rest (by omega) t
            rw [List.reverse_cons]
            refine ⟨_, others, stop, rfl, .next gives ((binds_of_ok hv).mpr (.once c₃)) each,
              leads.imp ?_⟩
            rintro m ⟨less, hless, t⟩
            exact ⟨less, by omega, t⟩
        | cons n next =>
            obtain ⟨_, hr', e⟩ := Option.bind_eq_some_iff.mp hr
            cases e
            obtain ⟨own, others, stop, rfl, each, leads⟩ := ih _ hfuel (goes.courseIn hr')
            rw [LoopsOn, List.reverse_cons] at each
            have binds : Binds span (fun v => Loops (n :: next) (values.reverse ++ [v])) outcome c₁
                own stop :=
              (binds_of_ok hv).mpr each
            cases stop with
            | through m =>
                -- The next argument has no more values, and this one is asked again.
                obtain ⟨less, hless, t⟩ := leads
                obtain ⟨own', others, stop, rfl, each', leads⟩ := ih less (by omega) t
                refine ⟨own ++ own', others, stop, (List.append_assoc ..).symm,
                  .next gives binds each', leads.imp ?_⟩
                rintro m ⟨less', hless', t⟩
                exact ⟨less', by omega, t⟩
            | cut _ | failed _ _ | left =>
                exact ⟨own, others, _, rfl, .stop gives binds (fun _ e => by cases e), leads⟩

/-- The loop over what is left of an argument is a course of the odometer that stands at it, with
whatever follows when the argument before it goes on. -/
theorem course_of_each {s : Stream} {span : Span} {earlier : OpenArguments} {values : List Value}
    {c : Context} {own others : List (Given (List Value))} {stop : Stop} {close : Close} :
    ∀ {later : List Node}, LoopsOn span later values s c own stop →
      stop.Leads (Odometer.Course (.turning earlier values.tail)) others close →
        Odometer.Course (.turning (.push s span later earlier) values) c (own ++ others) close
  | later, h, leads => by
      induction h with
      | left =>
          obtain ⟨rfl, rfl⟩ := leads
          exact .left
      | finished h =>
          exact .of_gives (fun r hr => gives_iff.mpr ⟨_, h, Move.leads_odometer_asked.mpr hr⟩) leads
      | failed h =>
          obtain ⟨rfl, rfl⟩ := leads
          exact .failed (gives_iff.mpr ⟨_, h, rfl⟩)
      | @next s rest c c₁ c₂ outcome own items stop h hb t ih =>
          have t := ih leads
          rw [List.append_assoc]
          rcases hv : (Action.operand span "call argument" outcome).on c₁ with ⟨failure | v, c₃⟩
          · cases ((binds_of_error hv).mp hb).2
          replace hb := (binds_of_ok hv).mp hb
          cases later with
          | nil =>
              cases hb with
              | once =>
                  refine .yield (gives_iff.mpr ⟨_, h, ?_⟩) t
                  simp only [hv, List.reverse_cons]
                  rfl
          | cons n next =>
              rw [Loops, ← List.reverse_cons] at hb
              have inside : Odometer.Course (.turning (.push (evaluate n) n.span next
                  (.push rest span (n :: next) earlier)) (v :: values)) c₃ _ close :=
                course_of_each hb t
              refine .of_gives (fun r hr => gives_iff.mpr ⟨_, h, ?_⟩) inside
              simp only [hv]
              exact Move.leads_odometer_asked.mpr hr
      | @stop s rest c c₁ outcome own stop h hb hs =>
          rcases hv : (Action.operand span "call argument" outcome).on c₁ with ⟨failure | v, c₃⟩
          · obtain ⟨rfl, rfl⟩ := (binds_of_error hv).mp hb
            obtain ⟨rfl, rfl⟩ := leads
            refine .failed (gives_iff.mpr ⟨_, h, ?_⟩)
            simp only [hv]
            rfl
          replace hb := (binds_of_ok hv).mp hb
          cases later with
          | nil =>
              cases hb with
              | left =>
                  obtain ⟨rfl, rfl⟩ := leads
                  exact .left
              | once => exact absurd rfl (hs _)
          | cons n next =>
              rw [Loops, ← List.reverse_cons] at hb
              have inside : Odometer.Course (.turning (.push (evaluate n) n.span next
                  (.push rest span (n :: next) earlier)) (v :: values)) c₃ _ close :=
                course_of_each hb (leads.stopped hs)
              refine .of_gives (fun r hr => gives_iff.mpr ⟨_, h, ?_⟩) inside
              simp only [hv]
              exact Move.leads_odometer_asked.mpr hr

end Odometer

/-! ### Rounds -/

/-- How many arguments are open. -/
def OpenArguments.count : OpenArguments → Nat
  | .none               => 0
  | .push _ _ _ earlier => earlier.count + 1

namespace Odometer

/-- From one round of an odometer to the next: it goes on with an argument, or it has given a list and
is asked again, in whatever context. -/
inductive Round : Odometer × Context → Odometer × Context → Prop
  | onward {o c o' c'} (h : (o.move c).Comes (.odometer o' c' .answer)) : Round (o, c) (o', c')
  | resumed {o c values o' c'} (h : (o.move c).Comes (.answer (.yield values o' c')))
      (c'' : Context) : Round (o, c) (o', c'')

/-- The rounds that come after a round. -/
def Rounds : Odometer × Context → Odometer × Context → Prop := Relation.ReflTransGen Round

end Odometer

/-- What is open of these arguments when some have given `values`, the last one first: the argument
that comes next, and below it those before it. -/
def OpenArguments.Stand (ns : List Node) : OpenArguments → List Value → Prop
  | .none, values                         => values = []
  | .push stream span later earlier, values =>
    (∃ before n, ns = before ++ n :: later ∧ before.length = values.length ∧ span = n.span ∧
      (evaluate n).Remains stream) ∧
      (earlier = .none ↔ values = []) ∧ earlier.Stand ns values.tail

/-- An odometer for these arguments at the head of a round. -/
def Odometer.Stands (ns : List Node) : Odometer → Prop
  | .start arguments       => arguments = ns
  | .turning begun values  => begun.Stand ns values

theorem OpenArguments.Stand.count {ns : List Node} : ∀ {begun : OpenArguments} {values : List Value},
    begun.Stand ns values → begun ≠ .none → begun.count = values.length + 1
  | .none, _, _, hn => absurd rfl hn
  | .push _ _ _ earlier, values, h, _ => by
      obtain ⟨-, hv, he⟩ := h
      rw [OpenArguments.count]
      cases values with
      | nil =>
          rw [hv.mpr rfl]
          rfl
      | cons v values =>
          rw [he.count fun e => List.cons_ne_nil _ _ (hv.mp e)]
          rfl

/-- The first argument that has not been asked is next to those that have given values. -/
theorem OpenArguments.Stand.begin {ns : List Node} {stream rest : Stream} {span : Span} {n : Node}
    {next : List Node} {earlier : OpenArguments} {values : List Value} {v : Value}
    (h : (OpenArguments.push stream span (n :: next) earlier).Stand ns values)
    (hr : stream.Remains rest) :
    (OpenArguments.push (evaluate n) n.span next (.push rest span (n :: next) earlier)).Stand ns
      (v :: values) := by
  obtain ⟨⟨before, m, e, hl, hs, hm⟩, hv, he⟩ := h
  refine ⟨⟨before ++ [m], n, by simp [e], by simp [hl], rfl, .refl⟩, by simp, ?_⟩
  exact ⟨⟨before, m, e, hl, hs, hm.trans hr⟩, hv, he⟩

/-- What is left of an argument that has given a value stands where the argument stood. -/
theorem OpenArguments.Stand.rest {ns later : List Node} {stream rest : Stream} {span : Span}
    {earlier : OpenArguments} {values : List Value}
    (h : (OpenArguments.push stream span later earlier).Stand ns values)
    (hr : stream.Remains rest) : (OpenArguments.push rest span later earlier).Stand ns values := by
  obtain ⟨⟨before, m, e, hl, hs, hm⟩, h⟩ := h
  exact ⟨⟨before, m, e, hl, hs, hm.trans hr⟩, h⟩

/-- An odometer that stands at an argument stands at one whenever it goes on. -/
theorem Odometer.Stands.comes {ns : List Node} {o o' : Odometer} {c c' : Context}
    {m : Move Odometer (List Value)} (h : o.Stands ns) (hc : (o.move c).Comes m)
    (hm : m = .odometer o' c' .answer ∨ ∃ values, m = .answer (.yield values o' c')) :
    o'.Stands ns := by
  rcases o with (_ | ⟨n, later⟩) | ⟨_ | ⟨current, span, later, earlier⟩, given⟩
  · cases hc
    obtain e | ⟨_, e⟩ := hm <;> cases e
    rfl
  · cases hc
    obtain e | ⟨_, e⟩ := hm <;> cases e
    exact ⟨⟨[], n, h.symm, rfl, rfl, .refl⟩, by simp, rfl⟩
  · cases hc
    obtain e | ⟨_, e⟩ := hm <;> cases e
  · cases hc with
    | here => obtain e | ⟨_, e⟩ := hm <;> cases e
    | @replied _ _ _ reply gives =>
        cases reply with
        | failed failure c₁ => obtain e | ⟨_, e⟩ := hm <;> cases e
        | finished c₁ =>
            obtain e | ⟨_, e⟩ := hm <;> cases e
            exact h.2.2
        | yield outcome rest c₁ =>
            have hr : current.Remains rest := .next .refl gives
            simp only at hm
            rcases hv : (Action.operand span "call argument" outcome).on c₁ with ⟨_ | v, c₂⟩ <;>
              rw [hv] at hm
            · obtain e | ⟨_, e⟩ := hm <;> cases e
            · cases later with
              | nil =>
                  obtain e | ⟨_, e⟩ := hm <;> cases e
                  exact h.rest hr
              | cons n next =>
                  obtain e | ⟨_, e⟩ := hm <;> cases e
                  exact h.begin hr

/-- An odometer that stands at an argument stands at one in the next round. -/
theorem Odometer.Stands.round {ns : List Node} {p q : Odometer × Context} (h : p.1.Stands ns)
    (hr : Round p q) : q.1.Stands ns := by
  cases hr with
  | onward hc => exact h.comes hc (.inl rfl)
  | resumed hc => exact h.comes hc (.inr ⟨_, rfl⟩)

theorem Odometer.Stands.rounds {ns : List Node} {p q : Odometer × Context} (h : p.1.Stands ns)
    (hr : Rounds p q) : q.1.Stands ns := by
  induction hr with
  | refl => exact h
  | tail _ hr ih => exact ih.round hr

/-! ### The odometer and the loops -/

/-- What an odometer at its first argument replies, it replies when it is asked first. -/
theorem Odometer.gives_start {n : Node} {later : List Node} {r : Reply Odometer (List Value)} :
    (Odometer.start (n :: later)).Gives c r ↔
      (Odometer.turning (.push (evaluate n) n.span later .none) []).Gives c r :=
  Odometer.gives_iff.trans Move.leads_odometer_asked

/-- An odometer without open arguments has no more lists. -/
theorem Odometer.gives_none {r : Reply Odometer (List Value)} :
    (Odometer.turning .none values).Gives c r ↔ r = .finished c :=
  Odometer.gives_iff

/-- The courses of an odometer are those of the nested loops. -/
theorem Odometer.course_iff_loops {ns : List Node} {items : List (Given (List Value))}
    {close : Close} : (Odometer.start ns).Course c items close ↔
      ∃ stop, Arguments.Loops ns [] c items stop ∧ stop.Closes close := by
  cases ns with
  | nil => exact Emits.course_iff (fun _ => gives_iff) fun _ _ => gives_none
  | cons n later =>
      constructor
      · intro h
        obtain ⟨fuel, h⟩ := (Course.of_gives (fun _ => gives_start.mp) h).exists_fuel
        obtain ⟨own, others, stop, rfl, loops, leads⟩ := loops_of_courseIn h
        have closes :=
          (leads.imp fun _ ⟨_, _, t⟩ => t.course.of_finished fun _ => gives_none.mp).closes
        rw [closes.1, List.append_nil]
        exact ⟨stop, loops, closes.2⟩
      · rintro ⟨stop, loops, closes⟩
        have t : Odometer.Course (.turning (.push (evaluate n) n.span later .none) []) c _ close :=
          course_of_each loops (closes.leads fun _ => gives_none.mpr rfl)
        rw [List.append_nil] at t
        exact t.of_gives fun _ => gives_start.mpr

/-- **The lists of arguments are those of nested loops.**  Asked again and again, in whatever contexts
its consumer leaves between the requests, an odometer gives what one loop inside the other would, with
the same contexts before and behind each list, and it ends as they do: with the first failure, or when
the outermost loop is through.  Without arguments that is one empty list.

At the head of each of its rounds there is one open stream more than there are values, and the stream
asked next is what is left of the argument whose index is the number of values, with the arguments
behind it still to come.  The round in which the odometer leaves its loop is the one exception: no
stream is open at its head and there are no values, so it ends without asking anything. -/
theorem arguments_are_nested_loops (ns : List Node) (c : Context) :
    (∀ items close, (Odometer.start ns).Course c items close ↔
      ∃ stop, Arguments.Loops ns [] c items stop ∧ stop.Closes close) ∧
    ∀ begun values c', Odometer.Rounds (.start ns, c) (.turning begun values, c') →
      (begun = .none ∧ values = [] ∨ begun.count = values.length + 1) ∧
      ∀ s span later earlier, begun = .push s span later earlier → ∃ n,
        ns[values.length]? = some n ∧ span = n.span ∧ later = ns.drop (values.length + 1) ∧
          (evaluate n).Remains s := by
  refine ⟨fun items close => Odometer.course_iff_loops, fun begun values c' h => ?_⟩
  have stands : begun.Stand ns values := Odometer.Stands.rounds (p := (.start ns, c)) rfl h
  refine ⟨?_, ?_⟩
  · cases begun with
    | none => exact .inl ⟨rfl, stands⟩
    | push s span later earlier => exact .inr (stands.count nofun)
  · rintro s span later earlier rfl
    obtain ⟨⟨before, n, rfl, hl, hs, hr⟩, -⟩ := stands
    refine ⟨n, ?_, hs, ?_, hr⟩
    · rw [← hl, List.getElem?_append_right (Nat.le_refl _), Nat.sub_self]
      rfl
    · rw [← hl, ← List.drop_drop, List.drop_left]
      rfl

end Nondet
