import Mathlib.Logic.Relation
import Nondet.Proofs.Pull.Gives

/-!
# Pull — Contract

A request is not made alone: the stream that is asked asks others, in contexts of its own, before
it replies.  `Query.Within` is the set of all requests that one request makes on its way.

A `Contract` says what has to hold when a request is made and what holds of its reply.  It is kept
(`Contract.Kept`) when every single move keeps it: each thing asked on the way is asked as the
contract wants, and the reply is as it promises, given that the replies on the way were.  Then the
contract holds of every reply, however deep the evaluation behind it (`Contract.Kept.gives`), and of
everything asked on the way (`Contract.Kept.within`).  A contract may build on another that is kept
already (`Contract.Kept.and`).
-/

namespace Nondet

variable {σ α : Type}

/-! ### What is asked on the way -/

/-- A request: what is asked, and in which context. -/
inductive Query where
  | stream (s : Stream) (c : Context)
  | odometer (o : Odometer) (c : Context)

/-- What a move asks, after the replies that it got. -/
inductive Move.Asks : Move σ α → Query → Prop
  | stream {s c next} : Asks (.stream s c next) (.stream s c)
  | odometer {o c next} : Asks (.odometer o c next) (.odometer o c)
  | afterStream {s c next r q} (h : s.Gives c r) (t : Asks (next r) q) : Asks (.stream s c next) q
  | afterOdometer {o c next r q} (h : o.Gives c r) (t : Asks (next r) q) :
      Asks (.odometer o c next) q

/-- What a request asks itself. -/
def Query.Asks : Query → Query → Prop
  | .stream s c, q   => (s.move c).Asks q
  | .odometer o c, q => (o.move c).Asks q

/-- Whatever is asked while a request runs, the request itself included. -/
def Query.Within : Query → Query → Prop := Relation.ReflTransGen Query.Asks

/-! ### Contracts -/

/-- What a request relies on, and what its reply guarantees. -/
structure Contract where
  stream : Stream → Context → Prop
  streamReply : Stream → Context → Reply Stream Outcome → Prop
  odometer : Odometer → Context → Prop
  odometerReply : Odometer → Context → Reply Odometer (List Value) → Prop

/-- A move asks only what the contract allows, and its reply satisfies `Q`. -/
def Move.Meets (K : Contract) (Q : Reply σ α → Prop) : Move σ α → Prop
  | .answer r          => Q r
  | .stream s c next   => K.stream s c ∧ ∀ r, K.streamReply s c r → (next r).Meets K Q
  | .odometer o c next => K.odometer o c ∧ ∀ r, K.odometerReply o c r → (next r).Meets K Q

/-- The same, with the help of what another contract guarantees of the replies on the way. -/
def Move.MeetsOver (B K : Contract) (Q : Reply σ α → Prop) : Move σ α → Prop
  | .answer r          => Q r
  | .stream s c next   =>
    K.stream s c ∧ ∀ r, B.streamReply s c r → K.streamReply s c r → (next r).MeetsOver B K Q
  | .odometer o c next =>
    K.odometer o c ∧ ∀ r, B.odometerReply o c r → K.odometerReply o c r → (next r).MeetsOver B K Q

namespace Contract

/-- A request that the contract allows is a query that it allows. -/
def Allows (K : Contract) : Query → Prop
  | .stream s c   => K.stream s c
  | .odometer o c => K.odometer o c

/-- Every move keeps the contract. -/
structure Kept (K : Contract) : Prop where
  stream : ∀ s c, K.stream s c → (s.move c).Meets K (K.streamReply s c)
  odometer : ∀ o c, K.odometer o c → (o.move c).Meets K (K.odometerReply o c)

/-- Both contracts at once. -/
def and (B K : Contract) : Contract where
  stream s c := B.stream s c ∧ K.stream s c
  streamReply s c r := B.streamReply s c r ∧ K.streamReply s c r
  odometer o c := B.odometer o c ∧ K.odometer o c
  odometerReply o c r := B.odometerReply o c r ∧ K.odometerReply o c r

end Contract

/-- The replies on the way satisfy the contract when all replies of so much fuel do. -/
theorem Move.Meets.run {K : Contract} {Q : Reply σ α → Prop} {fuel : Nat}
    (hs : ∀ s c r, K.stream s c → s.ask fuel c = some r → K.streamReply s c r)
    (ho : ∀ o c r, K.odometer o c → o.ask fuel c = some r → K.odometerReply o c r)
    {r : Reply σ α} :
    ∀ m : Move σ α, m.Meets K Q → m.run (Stream.ask fuel) (Odometer.ask fuel) = some r → Q r
  | .answer _, hm, h => Option.some.inj h ▸ hm
  | .stream s c next, hm, h => by
      obtain ⟨r', h', h''⟩ := Option.bind_eq_some_iff.mp h
      exact Meets.run hs ho (next r') (hm.2 r' (hs s c r' hm.1 h')) h''
  | .odometer o c next, hm, h => by
      obtain ⟨r', h', h''⟩ := Option.bind_eq_some_iff.mp h
      exact Meets.run hs ho (next r') (hm.2 r' (ho o c r' hm.1 h')) h''

namespace Contract.Kept

variable {K : Contract}

/-- With so much fuel, every reply satisfies a contract that is kept. -/
theorem ask (h : K.Kept) : ∀ fuel,
    (∀ s c r, K.stream s c → s.ask fuel c = some r → K.streamReply s c r) ∧
      ∀ o c r, K.odometer o c → o.ask fuel c = some r → K.odometerReply o c r
  | 0 => by simp
  | fuel + 1 => by
      obtain ⟨hs, ho⟩ := ask h fuel
      refine ⟨fun s c r hc hr => ?_, fun o c r hc hr => ?_⟩
      · rw [Stream.ask_succ] at hr
        exact Move.Meets.run hs ho _ (h.stream s c hc) hr
      · rw [Odometer.ask_succ] at hr
        exact Move.Meets.run hs ho _ (h.odometer o c hc) hr

/-- **Every reply of a stream satisfies a contract that is kept.** -/
theorem gives (h : K.Kept) {s : Stream} {c : Context} {r : Reply Stream Outcome}
    (hc : K.stream s c) (hr : s.Gives c r) : K.streamReply s c r := by
  obtain ⟨fuel, hr⟩ := hr
  exact (h.ask fuel).1 s c r hc hr

/-- Every reply of an odometer satisfies a contract that is kept. -/
theorem odometer_gives (h : K.Kept) {o : Odometer} {c : Context}
    {r : Reply Odometer (List Value)} (hc : K.odometer o c) (hr : o.Gives c r) :
    K.odometerReply o c r := by
  obtain ⟨fuel, hr⟩ := hr
  exact (h.ask fuel).2 o c r hc hr

/-- A move that meets a contract which is kept asks only what the contract allows. -/
theorem allows_of_asks (h : K.Kept) {Q : Reply σ α → Prop} {m : Move σ α} {q : Query}
    (hm : m.Meets K Q) (hq : m.Asks q) : K.Allows q := by
  induction hq with
  | stream => exact hm.1
  | odometer => exact hm.1
  | afterStream hr _ ih => exact ih (hm.2 _ (h.gives hm.1 hr))
  | afterOdometer hr _ ih => exact ih (hm.2 _ (h.odometer_gives hm.1 hr))

/-- **Whatever is asked on the way is allowed by a contract that is kept.** -/
theorem within (h : K.Kept) {q q' : Query} (hq : q.Within q') (hc : K.Allows q) : K.Allows q' := by
  induction hq with
  | refl => exact hc
  | @tail q₁ q₂ _ hasks ih =>
      cases q₁ with
      | stream s c => exact h.allows_of_asks (h.stream s c ih) hasks
      | odometer o c => exact h.allows_of_asks (h.odometer o c ih) hasks

end Contract.Kept

/-- What is replied may be said with fewer words. -/
theorem Move.Meets.imp {K : Contract} {Q Q' : Reply σ α → Prop} (h : ∀ r, Q r → Q' r) :
    ∀ {m : Move σ α}, m.Meets K Q → m.Meets K Q'
  | .answer r, hm => h r hm
  | .stream _ _ _, hm => ⟨hm.1, fun r hr => imp h (hm.2 r hr)⟩
  | .odometer _ _ _, hm => ⟨hm.1, fun r hr => imp h (hm.2 r hr)⟩

/-- Two contracts are met together when the second is met with the help of the first. -/
theorem Move.Meets.and {B K : Contract} {Q Q' : Reply σ α → Prop} :
    ∀ m : Move σ α, m.Meets B Q → m.MeetsOver B K Q' → m.Meets (B.and K) fun r => Q r ∧ Q' r
  | .answer _, h, h' => ⟨h, h'⟩
  | .stream _ _ next, h, h' =>
    ⟨⟨h.1, h'.1⟩, fun r hr => Meets.and (next r) (h.2 r hr.1) (h'.2 r hr.1 hr.2)⟩
  | .odometer _ _ next, h, h' =>
    ⟨⟨h.1, h'.1⟩, fun r hr => Meets.and (next r) (h.2 r hr.1) (h'.2 r hr.1 hr.2)⟩

/-- Help that is not needed. -/
theorem Move.Meets.over {B K : Contract} {Q : Reply σ α → Prop} :
    ∀ {m : Move σ α}, m.Meets K Q → m.MeetsOver B K Q
  | .answer _, h => h
  | .stream _ _ _, h => ⟨h.1, fun r _ hr => Meets.over (h.2 r hr)⟩
  | .odometer _ _ _, h => ⟨h.1, fun r _ hr => Meets.over (h.2 r hr)⟩

/-- What is met for every case of some kind is met for all cases at once, if there is one. -/
theorem Move.MeetsOver.forall {B K : Contract} {ι : Type} {P : ι → Prop} {Q : ι → Reply σ α → Prop}
    (h : ∃ x, P x) : ∀ {m : Move σ α}, (∀ x, P x → m.MeetsOver B K (Q x)) →
      m.MeetsOver B K fun r => ∀ x, P x → Q x r
  | .answer _, hm => hm
  | .stream _ _ _, hm => by
    obtain ⟨x, hx⟩ := h
    exact ⟨(hm x hx).1, fun r hb hk => MeetsOver.forall ⟨x, hx⟩ fun y hy => (hm y hy).2 r hb hk⟩
  | .odometer _ _ _, hm => by
    obtain ⟨x, hx⟩ := h
    exact ⟨(hm x hx).1, fun r hb hk => MeetsOver.forall ⟨x, hx⟩ fun y hy => (hm y hy).2 r hb hk⟩

/-- A contract that is kept with the help of one that is kept already. -/
theorem Contract.Kept.and {B K : Contract} (h : B.Kept)
    (hs : ∀ s c, B.stream s c → K.stream s c → (s.move c).MeetsOver B K (K.streamReply s c))
    (ho : ∀ o c, B.odometer o c → K.odometer o c → (o.move c).MeetsOver B K (K.odometerReply o c)) :
    (B.and K).Kept where
  stream s c hc := Move.Meets.and _ (h.stream s c hc.1) (hs s c hc.1 hc.2)
  odometer o c hc := Move.Meets.and _ (h.odometer o c hc.1) (ho o c hc.1 hc.2)

/-- Two contracts that are kept are kept together. -/
theorem Contract.Kept.both {B K : Contract} (h : B.Kept) (h' : K.Kept) : (B.and K).Kept :=
  h.and (fun s c _ hc => (h'.stream s c hc).over) fun o c _ hc => (h'.odometer o c hc).over

end Nondet
