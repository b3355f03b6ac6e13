import Nondet.Proofs.Pull.Place
import Nondet.Proofs.Pull.Program
import Nondet.Proofs.Search.Mirrors

/-!
# Search — Answers

What it means that a stream pulls what a search found.  `Answers` follows the findings: asked for
the next item, the stream gives one that is linked to the next finding, in a context whose frames
hold what the store of the finding holds; whenever it is asked again, after whatever a consumer may
have done to its own frames meanwhile, it goes on with the rest.  At the end it finishes, or fails
as the search does.  A request that reaches a limit answers anything.

The findings that a stream has not given yet are found from older stores.  That they are answered
rightly is what snapshots are for: a stream does not depend on the frames that it is asked with,
until a choice has put them back.
-/

namespace Nondet

variable {σ τ α β : Type}

def Failure.isExceeded : Failure → Bool
  | .exceeded _ _ _ _ => true
  | .mistake _ _      => false

/-! ### Streams and findings -/

section

variable (ask : τ → Context → Reply τ β → Prop) (rel : Link → α → β → Prop) (k : Context)
variable (b : Nat) (ρ : Link)

/-- The reply to a request in the context is the next finding, and so are the replies to all
requests that follow, made whenever a consumer likes. -/
inductive Answered : Found α → Context → Reply τ β → Prop
  | exceeded {F c f c'} (h : f.isExceeded = true) : Answered F c (.failed f c')
  | complete {c c'} (hp : k.Passes b c c') : Answered (.stop .complete) c (.finished c')
  | failed {c f c'} : Answered (.stop (.failed f)) c (.failed f c')
  | found {item store rest c item' s' c' ρ'} (hp : k.Passes b c c') (hρ : ρ ≤ ρ')
      (hH : ρ'.Holds store c'.frames) (hitem : rel ρ' item item')
      (hrest : ∀ c'', k.Passes c'.frames.next c' c'' → ∀ r, ask s' c'' r → Answered rest c'' r) :
      Answered (.found item store rest) c (.yield item' s' c')

/-- Asked in the context, the stream replies what was found. -/
def Answers (F : Found α) (s : τ) (c : Context) : Prop :=
  ∀ r, ask s c r → Answered ask rel k b ρ F c r

/-- Left alone in the context `c₀`, the stream replies what was found whenever it is asked later. -/
def Waits (F : Found α) (s : τ) (c₀ : Context) : Prop :=
  ∀ c, k.Passes c₀.frames.next c₀ c → Answers ask rel k b ρ F s c

end

section

variable {ask : τ → Context → Reply τ β → Prop} {rel : Link → α → β → Prop} {k c c' : Context}
variable {b b' : Nat} {ρ ρ' : Link} {F : Found α} {s : τ} {r : Reply τ β}

theorem Answered.mono (hb : b ≤ b') (hρ : ρ ≤ ρ') (h : Answered ask rel k b' ρ' F c r) :
    Answered ask rel k b ρ F c r := by
  induction h with
  | exceeded h => exact .exceeded h
  | complete hp => exact .complete (hp.below hb)
  | failed => exact .failed
  | found hp hle hH hitem _ ih => exact .found (hp.below hb) (Link.le_trans hρ hle) hH hitem ih

theorem Answers.mono (hb : b ≤ b') (hρ : ρ ≤ ρ') (h : Answers ask rel k b' ρ' F s c) :
    Answers ask rel k b ρ F s c := fun r hr => (h r hr).mono hb hρ

/-- A reply to a request that was made later, after frames had evolved. -/
theorem Answered.after (he : Frames.Evolves k.stack b c.frames c'.frames)
    (h : Answered ask rel k b ρ F c' r) : Answered ask rel k b ρ F c r := by
  cases h with
  | exceeded h => exact .exceeded h
  | complete hp => exact .complete ⟨hp.alike, he.trans hp.evolves⟩
  | failed => exact .failed
  | found hp hle hH hitem hrest => exact .found ⟨hp.alike, he.trans hp.evolves⟩ hle hH hitem hrest

end

/-- The reply is the next of the outcomes that were found. -/
abbrev Stream.Answered :
    Context → Nat → Link → Found Outcome → Context → Reply Stream Outcome → Prop :=
  Nondet.Answered Stream.Gives Outcome.Linked

/-- The stream replies the outcomes that were found. -/
abbrev Stream.Answers : Context → Nat → Link → Found Outcome → Stream → Context → Prop :=
  Nondet.Answers Stream.Gives Outcome.Linked

/-- The stream replies the outcomes that were found, whenever it is asked after the context. -/
abbrev Stream.Waits : Context → Nat → Link → Found Outcome → Stream → Context → Prop :=
  Nondet.Waits Stream.Gives Outcome.Linked

/-- Lists of linked values. -/
abbrev Values.Linked (ρ : Link) : List Value → List Value → Prop :=
  List.Forall₂ (Value.Linked ρ)

/-- The odometer replies the lists of arguments that were found. -/
abbrev Odometer.Answers : Context → Nat → Link → Found (List Value) → Odometer → Context → Prop :=
  Nondet.Answers Odometer.Gives Values.Linked

/-- The odometer replies the lists that were found, whenever it is asked after the context. -/
abbrev Odometer.Waits : Context → Nat → Link → Found (List Value) → Odometer → Context → Prop :=
  Nondet.Waits Odometer.Gives Values.Linked

namespace Answers

variable {k c c₀ : Context} {b b₁ : Nat} {ρ ρ₁ : Link} {F G : Found Outcome}

/-! ### Single outcomes -/

theorem empty (h : k.Alike c) : Stream.Answers k b ρ (.stop .complete) .empty c := by
  intro r hr
  obtain rfl : r = .finished c := Stream.gives_iff.mp hr
  exact .complete (.refl b h)

/-- A reply that yields once what the search found once. -/
theorem single {o p : Outcome} {store : Frames} {c' : Context} (hp : k.Passes b c c') (hle : ρ ≤ ρ₁)
    (hH : ρ₁.Holds store c'.frames) (ho : o.Linked ρ₁ p) :
    Stream.Answered k b ρ (.one o store) c (.yield p .empty c') :=
  .found hp hle hH ho fun _ hc => empty hc.alike

theorem once {o p : Outcome} {store : Frames} (h : k.Alike c) (hH : ρ.Holds store c.frames)
    (ho : o.Linked ρ p) : Stream.Answers k b ρ (.one o store) (.once p) c := by
  intro r hr
  obtain rfl : r = .yield p .empty c := Stream.gives_iff.mp hr
  exact single (.refl b h) ρ.le_refl hH ho

end Answers

/-! ### One stream after another -/

/-- What becomes of a reply when a second stream follows. -/
def Reply.Then (W : Stream → Stream) (second : Stream) :
    Reply Stream Outcome → Reply Stream Outcome → Prop
  | .yield o s c, r      => r = .yield o (W s) c
  | .finished c, r       => second.Gives c r
  | .failed failure c, r => r = .failed failure c

namespace Answers

variable {k c c₀ : Context} {b b₁ : Nat} {ρ ρ₁ : Link} {F G : Found Outcome}

/-- While the first stream was answering, the second was waiting. -/
theorem «then» {W : Stream → Stream} {second : Stream}
    (hW : ∀ {s c r}, (W s).Gives c r → ∃ r', s.Gives c r' ∧ r'.Then W second r)
    (hw : Stream.Waits k b ρ G second c₀) (hb : b ≤ c₀.frames.next) (hb₁ : c₀.frames.next ≤ b₁)
    (hρ : ρ ≤ ρ₁) (hc : k.Passes c₀.frames.next c₀ c) {first : Stream}
    (h : Stream.Answers k b₁ ρ₁ F first c) : Stream.Answers k b ρ (F.append G) (W first) c := by
  have hbb := Nat.le_trans hb hb₁
  intro r hr
  replace hr := hW hr
  obtain ⟨r', hr', hr⟩ := hr
  replace h := h r' hr'
  clear hr'
  -- The induction is on the findings of the first stream.  What a consumer does between two of them
  -- passes for the second stream, too.
  induction h generalizing r with
  | exceeded h =>
      obtain rfl : r = _ := hr
      exact .exceeded h
  | complete hp =>
      have passed := hc.trans (hp.below hb₁)
      exact (hw _ passed r hr).after (hp.below hbb).evolves
  | failed =>
      obtain rfl : r = _ := hr
      exact .failed
  | found hp hle hH hitem _ ih =>
      obtain rfl : r = _ := hr
      have passed := hc.trans (hp.below hb₁)
      refine .found (hp.below hbb) (Link.le_trans hρ hle) hH hitem fun c'' hc'' r hr => ?_
      obtain ⟨r', hr', hr⟩ := hW hr
      exact ih c'' hc'' r' hr' (passed.since hc'') r hr

theorem append {first second : Stream} (hw : Stream.Waits k b ρ G second c₀)
    (hb : b ≤ c₀.frames.next) (hb₁ : c₀.frames.next ≤ b₁) (hρ : ρ ≤ ρ₁)
    (hc : k.Passes c₀.frames.next c₀ c) (h : Stream.Answers k b₁ ρ₁ F first c) :
    Stream.Answers k b ρ (F.append G) (.append first second) c := by
  refine «then» (W := (.append · second)) (fun {s c r} hr => ?_) hw hb hb₁ hρ hc h
  rw [Stream.gives_iff] at hr
  obtain ⟨r', hr', hr⟩ := hr
  refine ⟨r', hr', ?_⟩
  cases r' with
  | yield o s c => exact hr
  | finished c => exact Move.leads_asked.mp hr
  | failed f c => exact hr

end Answers

/-! ### Streams inside others -/

/-- A request goes from a context like `k` into one like `k'` and comes back, and the frames go with
it.  Inside, more frames may change, but none below `b`. -/
structure Context.Inside (k k' : Context) (b : Nat) (enter leave : Context → Context) : Prop where
  enters : ∀ {c}, k.Alike c → k'.Alike (enter c)
  leaves : ∀ {c}, k'.Alike c → k.Alike (leave c)
  frames_enter : ∀ c, (enter c).frames = c.frames
  frames_leave : ∀ c, (leave c).frames = c.frames
  stack : ∀ i < b, i ∈ k'.stack → i ∈ k.stack
  mem : ∀ i ∈ k.stack, i ∈ k'.stack

/-- What comes out of a reply inside. -/
inductive Reply.Outside (f : Outcome → Outcome) (W : Stream → Stream) (leave : Context → Context) :
    Reply Stream Outcome → Reply Stream Outcome → Prop
  | yield {o s c} : Outside f W leave (.yield o s c) (.yield (f o) (W s) (leave c))
  | finished {c} : Outside f W leave (.finished c) (.finished (leave c))
  | failed {failure c c'} : Outside f W leave (.failed failure c) (.failed failure c')

namespace Context.Inside

variable {k k' c c' : Context} {b : Nat} {enter leave : Context → Context}

/-- What passed inside, seen from outside. -/
theorem passes_leave (h : k.Inside k' b enter leave) (hp : k'.Passes b (enter c) c') :
    k.Passes b c (leave c') := by
  refine ⟨h.leaves hp.alike, ?_⟩
  have he := hp.evolves.mono (Nat.le_refl b) h.stack
  rw [h.frames_enter] at he
  rw [h.frames_leave]
  exact he

/-- What passed outside until the next request, seen from inside. -/
theorem passes_enter (h : k.Inside k' b enter leave)
    (hp : k.Passes (leave c).frames.next (leave c) c') :
    k'.Passes c.frames.next c (enter c') := by
  refine ⟨h.enters hp.alike, ?_⟩
  have he := hp.evolves.mono (Nat.le_refl _) fun i _ hi => h.mem i hi
  rw [h.frames_leave] at he
  rw [h.frames_enter]
  exact he

/-- Inside a node. -/
theorem nested (k : Context) (b : Nat) :
    k.Inside k.enterNested b Context.enterNested Context.leaveNested where
  enters h := ⟨h.stack, h.outer, congrArg (· + 1) h.nesting, h.failures, h.limits, h.host, h.global⟩
  leaves h := h.leaveNested
  frames_enter _ := rfl
  frames_leave _ := rfl
  stack _ _ h := h
  mem _ h := h

/-- Inside a frame that is new enough. -/
theorem frame (k : Context) {frame : FrameId} (h : b ≤ frame) :
    k.Inside (k.push frame) b (Context.push · frame) Context.pop where
  enters h :=
    ⟨congrArg (frame :: ·) h.stack, h.outer, h.nesting, h.failures, h.limits, h.host, h.global⟩
  leaves h := h.pop
  frames_enter _ := rfl
  frames_leave _ := rfl
  stack i hi hm := by
    rcases List.mem_cons.mp hm with rfl | hm
    · exact absurd hi (Nat.not_lt_of_le h)
    · exact hm
  mem _ h := List.mem_cons_of_mem _ h

end Context.Inside

namespace Answers

variable {k k' c c₀ : Context} {b b₁ : Nat} {ρ ρ₁ : Link} {F G : Found Outcome}

/-- A stream inside another answers for it. -/
theorem inside {enter leave : Context → Context} (hi : k.Inside k' b enter leave)
    {f : Outcome → Outcome} (hf : ∀ {ρ o p}, Outcome.Linked ρ o p → (f o).Linked ρ (f p))
    {W : Stream → Stream}
    (hW : ∀ {s c r}, (W s).Gives c r → (∃ failure c', r = .failed failure c' ∧ failure.isExceeded) ∨
      ∃ r', s.Gives (enter c) r' ∧ r'.Outside f W leave r)
    {s : Stream} (h : Stream.Answers k' b ρ F s (enter c)) :
    Stream.Answers k b ρ (F.bind fun o => .one (f o)) (W s) c := by
  intro r hr
  -- Either the way in is refused, or the stream inside is asked.
  rcases hW hr with ⟨failure, c', rfl, hl⟩ | ⟨r', hr', hout⟩
  · exact .exceeded hl
  replace h := h r' hr'
  clear hr hr'
  generalize he : enter c = e at h
  induction h generalizing c r with
  | exceeded h =>
      cases hout
      exact .exceeded h
  | complete hp =>
      cases hout
      subst he
      exact .complete (hi.passes_leave hp)
  | failed =>
      cases hout
      exact .failed
  | @found item store rest _ item' s' c' ρ' hp hle hH hitem _ ih =>
      cases hout
      subst he
      have hH : ρ'.Holds store (leave c').frames := hi.frames_leave c' ▸ hH
      refine .found (hi.passes_leave hp) hle hH (hf hitem) fun c'' hc'' r hr => ?_
      rcases hW hr with ⟨failure, c', rfl, hl⟩ | ⟨r', hr', hout⟩
      · exact .exceeded hl
      · exact ih (enter c'') (hi.passes_enter hc'') r' hr' r hout rfl

/-! ### Transforms -/

/-- Each outcome of a stream is transformed. -/
theorem map {f : Transform} {g : Outcome → Search Outcome} (hb : b ≤ c.frames.next)
    (hf : ∀ {ρ' o p store c'}, ρ ≤ ρ' → k.Alike c' → ρ'.Holds store c'.frames → o.Linked ρ' p →
      (f.run p).Mirrors Outcome.Linked k ρ' c' (g o store))
    {inner : Stream} (h : Stream.Answers k b ρ F inner c) :
    Stream.Answers k b ρ (F.bind g) (.map inner f) c := by
  intro r hr
  rw [Stream.gives_iff] at hr
  obtain ⟨r', hr', hr⟩ := hr
  replace h := h r' hr'
  clear hr'
  induction h generalizing r with
  | exceeded h =>
      obtain rfl : r = _ := hr
      exact .exceeded h
  | complete hp =>
      obtain rfl : r = _ := hr
      exact .complete hp
  | failed =>
      obtain rfl : r = _ := hr
      exact .failed
  | @found item store rest c item' s' c' ρ' hp hle hH hitem _ ih =>
      obtain rfl : r = _ := hr
      have hb' := Nat.le_trans hb hp.next
      have step := hf hle hp.alike hH hitem
      rw [Action.Mirrors] at step
      rw [Found.bind]
      generalize (f.run item').on c' = result, g item store = G at step ⊢
      cases step with
      | error => exact .failed
      | ok hp' hle' hH' hitem' =>
          -- What the transform changed counts as the consumer's doing for the stream inside.
          refine .found (hp.trans (hp'.below hb')) (Link.le_trans hle hle') hH' hitem'
            fun c'' hc'' r hr => ?_
          rw [Stream.gives_iff] at hr
          obtain ⟨r', hr', hr⟩ := hr
          have passed := hp'.since hc''
          exact ih c'' passed r' hr' (Nat.le_trans hb' passed.next) r hr

end Answers

/-! ### Loops -/

/-- What an action starts in the context `c`, and what the search finds in its place. -/
inductive Started (k : Context) (ρ : Link) (c : Context) :
    Found Outcome → Except Failure Stream × Context → Prop
  | ok {F s c'} (hp : k.Passes c.frames.next c c')
      (h : Stream.Answers k c.frames.next ρ F s c') : Started k ρ c F (.ok s, c')
  | error {f c'} : Started k ρ c (.stop (.failed f)) (.error f, c')

/-- The action starts a stream that replies what the search finds. -/
def Action.Starts (k : Context) (ρ : Link) (c : Context) (action : Action Stream)
    (F : Found Outcome) : Prop := Started k ρ c F (action.on c)

/-- What becomes of a reply when a stream is started for each item. -/
def Reply.Each (W : τ → Stream) (step : β → Action Stream) :
    Reply τ β → Reply Stream Outcome → Prop
  | .yield item t c, r   =>
    match (step item).on c with
    | (.ok s, c')      => (Stream.append s (W t)).Gives c' r
    | (.error f, c')   => r = .failed f c'
  | .finished c, r       => r = .finished c
  | .failed failure c, r => r = .failed failure c

namespace Action.Starts

variable {k c : Context} {ρ : Link} {store : Frames}

theorem pure {s : Stream} (h : k.Alike c) (hs : Stream.Answers k c.frames.next ρ F s c) :
    Starts k ρ c (pure s) F := .ok (.refl _ h) hs

theorem bind {rel : Link → α → β → Prop} {a : Action β} {F : Found α} {f : β → Action Stream}
    {g : α → Search Outcome} (h : Mirrors rel k ρ c a F)
    (hf : ∀ x y store c' ρ', ρ ≤ ρ' → k.Passes c.frames.next c c' → ρ'.Holds store c'.frames →
      rel ρ' x y → Starts k ρ' c' (f y) (g x store)) : Starts k ρ c (a >>= f) (F.bind g) := by
  rw [Mirrors] at h
  rw [Starts]
  rw [on_bind]
  generalize a.on c = result at h ⊢
  cases h with
  | error => exact .error
  | @ok x store y c' ρ' hp hρ hH hxy =>
      rw [Found.one_bind]
      show Started k ρ c (g x store) ((f y).on c')
      have h := hf x y store c' ρ' hρ hp hH hxy
      rw [Starts] at h
      generalize (f y).on c' = result, g x store = G at h ⊢
      cases h with
      | error => exact .error
      | ok hp' hs =>
          exact .ok (hp.since hp') (hs.mono hp.next hρ)

end Action.Starts

namespace Answers

variable {k c c₀ : Context} {b : Nat} {ρ : Link}

/-- For each item of a source a stream is started, and asked to its end. -/
theorem each {ask : τ → Context → Reply τ β → Prop} {rel : Link → α → β → Prop} {W : τ → Stream}
    {f : β → Action Stream} {g : α → Search Outcome}
    (hW : ∀ {t c r}, (W t).Gives c r → ∃ r', ask t c r' ∧ r'.Each W f r)
    (hb : b ≤ c.frames.next) {F : Found α} {t : τ} (h : Answers ask rel k b ρ F t c)
    (hg : ∀ {ρ' x y store c'}, ρ ≤ ρ' → k.Alike c' → ρ'.Holds store c'.frames → rel ρ' x y →
      (f y).Starts k ρ' c' (g x store)) :
    Stream.Answers k b ρ (F.bind g) (W t) c := by
  intro r hr
  replace hr := hW hr
  obtain ⟨r', hr', hr⟩ := hr
  replace h := h r' hr'
  clear hr'
  induction h generalizing r with
  | exceeded h =>
      obtain rfl : r = _ := hr
      exact .exceeded h
  | complete hp =>
      obtain rfl : r = _ := hr
      exact .complete hp
  | failed =>
      obtain rfl : r = _ := hr
      exact .failed
  | @found item store rest c item' t' c' ρ' hp hle hH hitem _ ih =>
      have hb' := Nat.le_trans hb hp.next
      have started := hg hle hp.alike hH hitem
      -- The source waits while the stream that was started answers.
      have waits : Stream.Waits k b ρ (rest.bind g) (W t') c' := by
        intro c'' hc'' r hr
        obtain ⟨r', hr', hr⟩ := hW hr
        exact ih c'' hc'' r' hr' (Nat.le_trans hb' hc''.next) r hr
      rw [Action.Starts] at started
      simp only [Reply.Each] at hr
      rw [Found.bind]
      generalize (f item').on c' = result, g item store = G at started hr ⊢
      cases started with
      | error =>
          obtain rfl : r = _ := hr
          exact .failed
      | ok hp' hs =>
          have both := append waits hb' (Nat.le_refl _) hle hp' hs
          exact (both r hr).after (hp.trans (hp'.below hb')).evolves

end Answers

/-! ### Choices -/

namespace Context.Passes

variable {k c₀ c : Context}

/-- Putting everything back is evolving, too. -/
theorem restore (hc : k.Passes c₀.frames.next c₀ c) (hk : k.Alike c₀) :
    k.Passes c₀.frames.next c (c.restore c₀.snapshot) := by
  refine ⟨hc.alike.restore hk.place, ?_⟩
  have he := hc.evolves
  rw [← hk.stack] at he ⊢
  exact he.restore

end Context.Passes

/-- Everything holds that held when the choice was begun. -/
theorem Link.Holds.restored {ρ : Link} {store : Frames} {k c₀ c : Context}
    (hH : ρ.Holds store c₀.frames) (hk : k.Alike c₀) (hc : k.Passes c₀.frames.next c₀ c) :
    ρ.Holds store (c.restore c₀.snapshot).frames := by
  have he := hc.evolves
  rw [← hk.stack] at he
  exact hH.evolves he.restored

/-- Wherever the node is asked in the place of `k`, it replies what is found of it from the frame
that is linked to the innermost one. -/
def Node.Follows (host : Host) (call : Search.Call) (k : Context) (e : FrameId) (n : Node) : Prop :=
  ∀ c ρ store, k.Alike c → ρ.Holds store c.frames → ρ.frame e k.current →
    Stream.Answers k c.frames.next ρ (n.search host call e store) (evaluate n) c

namespace Answers

variable {k c c₀ : Context} {b : Nat} {ρ : Link} {host : Host} {call : Search.Call}
variable {e : FrameId} {store : Frames}

/-- A choice is what is left of an alternative, and then the choice in which that one is over. -/
theorem choice {snapshot : Snapshot} {later : List Node} {b₁ : Nat} {ρ₁ : Link} {F G : Found Outcome}
    (hw : Stream.Waits k b ρ G (.choice snapshot .empty later) c₀) (hb : b ≤ c₀.frames.next)
    (hb₁ : c₀.frames.next ≤ b₁) (hρ : ρ ≤ ρ₁) (hc : k.Passes c₀.frames.next c₀ c)
    {current : Stream} (h : Stream.Answers k b₁ ρ₁ F current c) :
    Stream.Answers k b ρ (F.append G) (.choice snapshot current later) c := by
  refine «then» (W := (.choice snapshot · later)) (fun {s c r} hr => ?_) hw hb hb₁ hρ hc h
  rw [Stream.gives_iff] at hr
  obtain ⟨r', hr', hr⟩ := hr
  refine ⟨r', hr', ?_⟩
  cases r' with
  | yield o s c => exact hr
  | finished c =>
      have empty : Stream.empty.Gives c (.finished c) := Stream.gives_iff.mpr rfl
      exact Stream.gives_iff.mpr ⟨_, empty, hr⟩
  | failed f c => exact hr

/-- When an alternative is over, everything is put back. -/
theorem exhausted {snapshot : Snapshot} {later : List Node} {r : Reply Stream Outcome}
    (hr : (Stream.choice snapshot .empty later).Gives c r) :
    match later with
    | []         => r = .finished (c.restore snapshot)
    | n :: later => (Stream.choice snapshot (evaluate n) later).Gives (c.restore snapshot) r := by
  rw [Stream.gives_iff] at hr
  obtain ⟨r', hr', hr⟩ := hr
  obtain rfl : r' = .finished c := Stream.gives_iff.mp hr'
  cases later with
  | nil => exact hr
  | cons n later => exact Move.leads_asked.mp hr

/-- Each alternative starts from the store that the choice was begun with. -/
theorem alternatives (hk : k.Alike c₀) (hH : ρ.Holds store c₀.frames) (he : ρ.frame e k.current)
    (hb : b ≤ c₀.frames.next) {later : List Node} :
    (∀ n ∈ later, n.Follows host call k e) →
      Stream.Waits k b ρ (searchAlternatives host call later e store)
        (.choice c₀.snapshot .empty later) c₀ := by
  induction later with
  | nil =>
      intro _ c hc r hr
      obtain rfl : r = .finished (c.restore c₀.snapshot) := exhausted hr
      exact .complete ((hc.restore hk).below hb)
  | cons n later ih =>
      intro hn c hc r hr
      rw [List.forall_mem_cons] at hn
      -- Whatever the alternatives before have done is put back, and the store is as it was.
      have back := hc.restore hk
      have alternative := hn.1 _ ρ store back.alike (hH.restored hk hc) he
      have again := hc.trans back
      have both := choice (ih hn.2) hb again.next ρ.le_refl again alternative
      exact (both r (exhausted hr)).after (back.below hb).evolves

/-- A choice that was not begun. -/
theorem amb (hk : k.Alike c) (hH : ρ.Holds store c.frames) (he : ρ.frame e k.current) :
    ∀ {ns : List Node}, (∀ n ∈ ns, n.Follows host call k e) →
      Stream.Answers k c.frames.next ρ (searchAlternatives host call ns e store) (.amb ns) c
  | [], _ => fun r hr => by
      obtain rfl : r = .finished c := Stream.gives_iff.mp hr
      exact .complete (.refl _ hk)
  | n :: ns, hn => by
      rw [List.forall_mem_cons] at hn
      have rest := alternatives hk hH he (Nat.le_refl _) hn.2
      have first := hn.1 c ρ store hk hH he
      have all := choice rest (Nat.le_refl _) (Nat.le_refl _) ρ.le_refl (.refl _ hk) first
      exact fun r hr => all r (Move.leads_asked.mp (Stream.gives_iff.mp hr))

end Answers

end Nondet
