import Nondet.Proofs.Pull.Contract

/-!
# Pull — Course

A stream or an odometer over any number of requests.  A `Course` records what the requests give, in
order, and what becomes of the context in between, which is up to the consumer; it may end at any
time, since nobody has to ask until there is no more.

`Each` is the loop that evaluation is made of: whatever a body does, it is done once for each outcome
of a stream, in order, and the stream is asked again in the state that the body leaves.
-/

namespace Nondet

variable {σ α : Type}

/-! ### Requests one after the other -/

/-- Something given: the context after that, and the one of the next request. -/
structure Given (α : Type) where
  item : α
  after : Context
  next : Context

/-- How requests come to an end. -/
inductive Close where
  /-- There is nothing more. -/
  | finished (c : Context)
  | failed (failure : Failure) (c : Context)
  /-- Nothing more is asked for. -/
  | left

/-- Asked again and again, something gives these items, and so it ends. -/
inductive Course (gives : σ → Context → Reply σ α → Prop) :
    σ → Context → List (Given α) → Close → Prop
  | left {s c} : Course gives s c [] .left
  | finished {s c c'} (h : gives s c (.finished c')) : Course gives s c [] (.finished c')
  | failed {s c failure c'} (h : gives s c (.failed failure c')) :
      Course gives s c [] (.failed failure c')
  | yield {s rest c c₁ c₂ item items close} (h : gives s c (.yield item rest c₁))
      (t : Course gives rest c₂ items close) : Course gives s c (⟨item, c₁, c₂⟩ :: items) close

/-- What a stream gives, request after request. -/
abbrev Stream.Course : Stream → Context → List (Given Outcome) → Close → Prop :=
  Nondet.Course Stream.Gives

/-- What an odometer gives, request after request. -/
abbrev Odometer.Course : Odometer → Context → List (Given (List Value)) → Close → Prop :=
  Nondet.Course Odometer.Gives

section

variable {gives : σ → Context → Reply σ α → Prop} {s s' : σ} {c c' : Context}
  {items : List (Given α)} {close : Close}

/-- What gives the same as another when it is asked first goes the same course. -/
theorem Course.of_gives (h : ∀ r, gives s' c' r → gives s c r) (t : Course gives s' c' items close) :
    Course gives s c items close := by
  cases t with
  | left => exact .left
  | finished hr => exact .finished (h _ hr)
  | failed hr => exact .failed (h _ hr)
  | yield hr t => exact .yield (h _ hr) t

/-- The course of something that has nothing to give. -/
theorem Course.of_finished (h : ∀ r, gives s c r → r = .finished c')
    (t : Course gives s c items close) :
    items = [] ∧ (close = .finished c' ∨ close = .left) := by
  cases t with
  | left => exact ⟨rfl, .inr rfl⟩
  | finished hr =>
      cases h _ hr
      exact ⟨rfl, .inl rfl⟩
  | failed hr => cases h _ hr
  | yield hr t => cases h _ hr

end

/-- The requests that are made of a stream, the first in the context `c` and one after each item. -/
inductive Stream.Requests : Stream → Context → List (Given Outcome) → Query → Prop
  | first {s c items} : Requests s c items (.stream s c)
  | later {s c rest item c₁ c₂ items q} (h : s.Gives c (.yield item rest c₁))
      (t : Requests rest c₂ items q) : Requests s c (⟨item, c₁, c₂⟩ :: items) q

theorem Stream.requests_nil {s : Stream} {c : Context} {q : Query} :
    s.Requests c [] q ↔ q = .stream s c := by
  constructor
  · rintro ⟨⟩
    rfl
  · rintro rfl
    exact .first

/-- The requests of a course of which the first reply is known. -/
theorem Stream.requests_cons {s rest : Stream} {c c₁ c₂ : Context} {item : Outcome} {q : Query}
    {items : List (Given Outcome)} (h : s.Gives c (.yield item rest c₁)) :
    s.Requests c (⟨item, c₁, c₂⟩ :: items) q ↔ q = .stream s c ∨ rest.Requests c₂ items q := by
  constructor
  · rintro (_ | ⟨h', t⟩)
    · exact .inl rfl
    · cases h.unique h'
      exact .inr t
  · rintro (rfl | t)
    · exact .first
    · exact .later h t

/-- How a reply brings the requests to an end, if it does. -/
def Reply.close? : Reply σ α → Option Close
  | .yield _ _ _      => none
  | .finished c       => some (.finished c)
  | .failed failure c => some (.failed failure c)

section

variable {s : Stream} {c : Context} {r : Reply Stream Outcome} {close : Close}

/-- A course without items ends with the first reply, or before it. -/
theorem Stream.course_nil (h : s.Gives c r) :
    s.Course c [] close ↔ close = .left ∨ r.close? = some close := by
  constructor
  · rintro (_ | hr | hr)
    · exact .inl rfl
    · exact .inr (h.unique hr ▸ rfl)
    · exact .inr (h.unique hr ▸ rfl)
  · rintro (rfl | e)
    · exact .left
    · cases r with
      | yield _ _ _ => cases e
      | finished c' =>
          cases e
          exact .finished h
      | failed failure c' =>
          cases e
          exact .failed h

/-- The first item of a course is in the first reply. -/
theorem Stream.course_cons (h : s.Gives c r) {g : Given Outcome} {items : List (Given Outcome)} :
    s.Course c (g :: items) close ↔
      ∃ rest, r = .yield g.item rest g.after ∧ rest.Course g.next items close := by
  constructor
  · rintro (_ | _ | _ | ⟨hr, t⟩)
    exact ⟨_, h.unique hr, t⟩
  · rintro ⟨rest, rfl, t⟩
    exact .yield h t

end

/-! ### Fuel -/

/-- The same with so much fuel for all requests together. -/
inductive CourseIn (ask : Nat → σ → Context → Option (Reply σ α)) :
    Nat → σ → Context → List (Given α) → Close → Prop
  | left {fuel s c} : CourseIn ask fuel s c [] .left
  | finished {first others s c c'} (h : ask first s c = some (.finished c')) :
      CourseIn ask (first + others) s c [] (.finished c')
  | failed {first others s c failure c'} (h : ask first s c = some (.failed failure c')) :
      CourseIn ask (first + others) s c [] (.failed failure c')
  | yield {first others s rest c c₁ c₂ item items close}
      (h : ask first s c = some (.yield item rest c₁))
      (t : CourseIn ask others rest c₂ items close) :
      CourseIn ask (first + others) s c (⟨item, c₁, c₂⟩ :: items) close

section

variable {ask : Nat → σ → Context → Option (Reply σ α)} {s : σ} {c : Context}
  {items : List (Given α)} {close : Close} {fuel : Nat}

theorem Course.exists_fuel
    (h : Course (fun s c r => ∃ fuel, ask fuel s c = some r) s c items close) :
    ∃ fuel, CourseIn ask fuel s c items close := by
  induction h with
  | left => exact ⟨0, .left⟩
  | finished h =>
      obtain ⟨first, h⟩ := h
      exact ⟨first + 0, .finished h⟩
  | failed h =>
      obtain ⟨first, h⟩ := h
      exact ⟨first + 0, .failed h⟩
  | yield h _ ih =>
      obtain ⟨first, h⟩ := h
      obtain ⟨others, t⟩ := ih
      exact ⟨first + others, .yield h t⟩

theorem CourseIn.course (h : CourseIn ask fuel s c items close) :
    Course (fun s c r => ∃ fuel, ask fuel s c = some r) s c items close := by
  induction h with
  | left => exact .left
  | finished h => exact .finished ⟨_, h⟩
  | failed h => exact .failed ⟨_, h⟩
  | yield h _ ih => exact .yield ⟨_, h⟩ ih

/-- What comes of a reply with so much fuel for the requests that follow. -/
def Reply.Goes (ask : Nat → σ → Context → Option (Reply σ α)) (others : Nat) :
    Reply σ α → List (Given α) → Close → Prop
  | .finished c', items, close       => items = [] ∧ close = .finished c'
  | .failed failure c', items, close => items = [] ∧ close = .failed failure c'
  | .yield item rest c₁, items, close =>
    ∃ c₂ items', items = ⟨item, c₁, c₂⟩ :: items' ∧ CourseIn ask others rest c₂ items' close

/-- A reply and what comes of it. -/
theorem Reply.Goes.courseIn {k others : Nat} {r : Reply σ α} (h : ask k s c = some r)
    (hg : r.Goes ask others items close) : CourseIn ask (k + others) s c items close := by
  cases r with
  | finished c' =>
      obtain ⟨rfl, rfl⟩ := hg
      exact .finished h
  | failed failure c' =>
      obtain ⟨rfl, rfl⟩ := hg
      exact .failed h
  | yield item rest c₁ =>
      obtain ⟨c₂, items', rfl, t⟩ := hg
      exact .yield h t

/-- The first request of a course takes some of the fuel, unless nothing is asked at all. -/
theorem CourseIn.first (h₀ : ∀ s c, ask 0 s c = none) (h : CourseIn ask fuel s c items close) :
    (items = [] ∧ close = .left) ∨ ∃ k others r, k + others < fuel ∧ ask (k + 1) s c = some r ∧
      r.Goes ask others items close := by
  have positive {fuel : Nat} {r : Reply σ α} (h : ask fuel s c = some r) : ∃ k, fuel = k + 1 :=
    Nat.exists_eq_succ_of_ne_zero fun e => by
      rw [e, h₀] at h
      cases h
  cases h with
  | left => exact .inl ⟨rfl, rfl⟩
  | @finished first others _ _ _ h =>
      obtain ⟨k, rfl⟩ := positive h
      exact .inr ⟨k, others, _, by omega, h, rfl, rfl⟩
  | @failed first others _ _ _ _ h =>
      obtain ⟨k, rfl⟩ := positive h
      exact .inr ⟨k, others, _, by omega, h, rfl, rfl⟩
  | @yield first others _ _ _ _ c₂ _ items' _ h t =>
      obtain ⟨k, rfl⟩ := positive h
      exact .inr ⟨k, others, _, by omega, h, c₂, items', rfl, t⟩

end

/-! ### Loops -/

/-- How a part of an evaluation stops. -/
inductive Stop where
  /-- It is through, and what comes next is asked in this context. -/
  | through (c : Context)
  /-- A cut has stopped it, and whatever it belongs to. -/
  | cut (c : Context)
  | failed (failure : Failure) (c : Context)
  /-- Nothing more is asked for. -/
  | left

/-- A loop over the outcomes of a stream.  The body is done for each outcome in turn, and when it is
through the stream is asked for the next one; when it is not, neither is the loop. -/
inductive Each (body : Outcome → Context → List (Given α) → Stop → Prop) :
    Stream → Context → List (Given α) → Stop → Prop
  | left {s c} : Each body s c [] .left
  | finished {s : Stream} {c c'} (h : s.Gives c (.finished c')) : Each body s c [] (.through c')
  | failed {s : Stream} {c failure c'} (h : s.Gives c (.failed failure c')) :
      Each body s c [] (.failed failure c')
  | next {s rest : Stream} {c c₁ c₂ outcome own items stop}
      (h : s.Gives c (.yield outcome rest c₁)) (hb : body outcome c₁ own (.through c₂))
      (t : Each body rest c₂ items stop) : Each body s c (own ++ items) stop
  | stop {s rest : Stream} {c c₁ outcome own stop} (h : s.Gives c (.yield outcome rest c₁))
      (hb : body outcome c₁ own stop) (hs : ∀ m, stop ≠ .through m) : Each body s c own stop

/-- One item is given, and asked for the next one it is through. -/
inductive Emits (item : α) (c : Context) : List (Given α) → Stop → Prop
  | left : Emits item c [] .left
  | once (c' : Context) : Emits item c [⟨item, c, c'⟩] (.through c')

/-- The ends of a course when nothing comes after a part that stops so: there is nothing more, and
nobody has to find that out. -/
def Stop.Closes : Stop → Close → Prop
  | .through c, close | .cut c, close => close = .finished c ∨ close = .left
  | .failed failure c, close          => close = .failed failure c
  | .left, close                      => close = .left

/-- The course after a part that stops so, when `next` follows what is through. -/
def Stop.Leads (next : Context → List (Given α) → Close → Prop) (stop : Stop)
    (items : List (Given α)) (close : Close) : Prop :=
  match stop with
  | .through c => next c items close
  | stop       => items = [] ∧ stop.Closes close

theorem Stop.Leads.imp {next next' : Context → List (Given α) → Close → Prop} {stop : Stop}
    {items : List (Given α)} {close : Close} (h : stop.Leads next items close)
    (hn : ∀ c, next c items close → next' c items close) : stop.Leads next' items close := by
  cases stop with
  | through c => exact hn c h
  | cut _ | failed _ _ | left => exact h

/-- What is not through does not depend on what would be next. -/
theorem Stop.Leads.stopped {next next' : Context → List (Given α) → Close → Prop} {stop : Stop}
    {items : List (Given α)} {close : Close} (h : stop.Leads next items close)
    (hs : ∀ m, stop ≠ .through m) : stop.Leads next' items close := by
  cases stop with
  | through c => exact absurd rfl (hs c)
  | cut _ | failed _ _ | left => exact h

/-- Nothing follows what is not through. -/
theorem Stop.Leads.ended {next : Context → List (Given α) → Close → Prop} {stop : Stop}
    {items : List (Given α)} {close : Close} (h : stop.Leads next items close)
    (hs : ∀ m, stop ≠ .through m) : items = [] ∧ stop.Closes close := by
  cases stop with
  | through c => exact absurd rfl (hs c)
  | cut _ | failed _ _ | left => exact h

theorem Stop.Closes.stopped {next : Context → List (Given α) → Close → Prop} {stop : Stop}
    {close : Close} (h : stop.Closes close) (hs : ∀ m, stop ≠ .through m) :
    stop.Leads next [] close := by
  cases stop with
  | through c => exact absurd rfl (hs c)
  | cut _ | failed _ _ | left => exact ⟨rfl, h⟩

/-- When nothing comes after a part, its ends are those of the course. -/
theorem Stop.Leads.closes {stop : Stop} {items : List (Given α)} {close : Close}
    (h : stop.Leads (fun c items close => items = [] ∧ (Stop.through c).Closes close) items close) :
    items = [] ∧ stop.Closes close := by
  cases stop with
  | through c => exact h
  | cut _ | failed _ _ | left => exact h

/-- After what has stopped so, something that has nothing to give. -/
theorem Stop.Closes.leads {σ : Type} {gives : σ → Context → Reply σ α → Prop} {s : σ}
    (hs : ∀ c, gives s c (.finished c)) {stop : Stop} {close : Close} (h : stop.Closes close) :
    stop.Leads (Course gives s) [] close := by
  cases stop with
  | through c =>
      rcases h with rfl | rfl
      · exact .finished (hs c)
      · exact .left
  | cut _ | failed _ _ | left => exact ⟨rfl, h⟩

/-- The course of something that has one item to give. -/
theorem Emits.course_iff {σ : Type} {gives : σ → Context → Reply σ α → Prop} {s rest : σ} {item : α}
    {c : Context} {items : List (Given α)} {close : Close}
    (hs : ∀ r, gives s c r ↔ r = .yield item rest c)
    (hr : ∀ c r, gives rest c r ↔ r = .finished c) :
    Course gives s c items close ↔ ∃ stop, Emits item c items stop ∧ stop.Closes close := by
  constructor
  · intro h
    cases h with
    | left => exact ⟨.left, .left, rfl⟩
    | finished h | failed h => cases (hs _).mp h
    | yield h t =>
        cases (hs _).mp h
        obtain ⟨rfl, closes⟩ := t.of_finished fun _ => (hr _ _).mp
        exact ⟨_, .once _, closes⟩
  · rintro ⟨stop, emits, closes⟩
    cases emits with
    | left =>
        cases closes
        exact .left
    | once c' => exact .yield ((hs _).mpr rfl) (closes.leads fun _ => (hr _ _).mpr rfl)

/-! ### What is left of a stream -/

/-- What a stream may come to by giving outcomes, in whatever contexts it is asked. -/
def Stream.Remains : Stream → Stream → Prop :=
  Relation.ReflTransGen fun s rest => ∃ c outcome c', s.Gives c (.yield outcome rest c')

theorem Stream.Remains.next {s₀ s rest : Stream} {c c' : Context} {outcome : Outcome}
    (h : s₀.Remains s) (hr : s.Gives c (.yield outcome rest c')) : s₀.Remains rest :=
  h.tail ⟨c, outcome, c', hr⟩

/-! ### Rounds -/

/-- What is left to do of a move, before or after the reply of the stream that it asks. -/
inductive Move.Comes : Move σ α → Move σ α → Prop
  | here {m} : Comes m m
  | replied {s : Stream} {c next r} (h : s.Gives c r) : Comes (.stream s c next) (next r)

end Nondet
