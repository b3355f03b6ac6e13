import Nondet.Proofs.Search.Answers

/-!
# Search — Lists

The two streams that keep several others open.  A sequence holds one open stream for each statement
that was begun, the last one first; what it still has to find when that stream is over is what the
search calls `after`.  An odometer holds one for each argument; what is found of it is a loop over
the last of them, and then what the others still give.  In both, a stream is begun when the one
before it has yielded, and waits while those after it answer.
-/

namespace Nondet

variable {k c c₀ : Context} {b : Nat} {ρ : Link} {host : Host} {call : Search.Call} {e : FrameId}

/-! ### Statements -/

/-- What the search does with an outcome of a statement, when these follow. -/
def searchNext (host : Host) (call : Search.Call) (later : List Node) (e : FrameId)
    (outcome : Outcome) (rest : Found Outcome) : Search Outcome := fun store =>
  if later.isEmpty then .found outcome store rest
  else searchStatements host call later e rest store

theorem Answers.noStatements (h : k.Alike c) :
    Stream.Answers k b ρ (.stop .complete) (.sequence .none) c := by
  intro r hr
  obtain rfl : r = .finished c := Stream.gives_iff.mp hr
  exact .complete (.refl b h)

/-- Whatever is left of a statement that these follow, and whatever waits, the open statements reply
what is found: for each outcome all that follows it, then what waited. -/
def StatementsFollow (host : Host) (call : Search.Call) (k : Context) (b : Nat) (ρ : Link)
    (e : FrameId) (later : List Node) : Prop :=
  ∀ {F after : Found Outcome} {b₁ : Nat} {ρ₁ : Link} {current : Stream} {earlier : OpenStatements}
    {c c₀ : Context},
    Stream.Waits k b ρ after (.sequence earlier) c₀ → b ≤ c₀.frames.next → c₀.frames.next ≤ b₁ →
      ρ ≤ ρ₁ → k.Passes c₀.frames.next c₀ c → Stream.Answers k b₁ ρ₁ F current c →
        Stream.Answers k b ρ (.thread (searchNext host call later e) F after)
          (.sequence (.push current later earlier)) c

/-- One statement, when those that follow it do. -/
theorem statement {later : List Node} (he : ρ.frame e k.current)
    (hn : ∀ n ns, later = n :: ns →
      n.Follows host call k e ∧ StatementsFollow host call k b ρ e ns) :
    StatementsFollow host call k b ρ e later := by
  intro F after b₁ ρ₁ current earlier c c₀ hw hb hb₁ hρ hc h r hr
  have hbb := Nat.le_trans hb hb₁
  rw [Stream.gives_iff] at hr
  obtain ⟨r', hr', hr⟩ := hr
  replace h := h r' hr'
  clear hr'
  induction h generalizing r with
  | exceeded h =>
      obtain rfl : r = _ := hr
      exact .exceeded h
  | complete hp =>
      have passed := hc.trans (hp.below hb₁)
      exact (hw _ passed r (Move.leads_asked.mp hr)).after (hp.below hbb).evolves
  | failed =>
      obtain rfl : r = _ := hr
      exact .failed
  | @found item store rest c item' s' c' ρ' hp hle hH hitem _ ih =>
      have passed := hc.trans (hp.below hb₁)
      have hb' := Nat.le_trans hb passed.next
      have hρ' := Link.le_trans hρ hle
      -- The rest of the statement waits, unless the outcome is a cut.
      have waits : Stream.Waits k b ρ (.thread (searchNext host call later e) rest after)
          (.sequence (.push s' later earlier)) c' := by
        intro c'' hc'' r hr
        rw [Stream.gives_iff] at hr
        obtain ⟨r', hr', hr⟩ := hr
        exact ih c'' hc'' r' hr' (passed.since hc'') r hr
      cases hitem with
      | returned hv =>
          obtain rfl : r = _ := hr
          exact .found (hp.below hbb) hρ' hH (.returned hv) waits
      | value hv =>
          cases later with
          | nil =>
              obtain rfl : r = _ := hr
              exact .found (hp.below hbb) hρ' hH (.value hv) waits
          | cons n ns =>
              obtain ⟨hn, hns⟩ := hn n ns rfl
              have next := hn c' ρ' store hp.alike hH (hρ'.1 _ _ he)
              have all := hns waits hb' (Nat.le_refl _) hρ' (.refl _ hp.alike) next
              exact (all r (Move.leads_asked.mp hr)).after (hp.below hbb).evolves
      | cut =>
          cases later with
          | nil =>
              obtain rfl : r = _ := hr
              exact .found (hp.below hbb) hρ' hH .cut fun _ hc'' => Answers.empty hc''.alike
          | cons n ns =>
              obtain ⟨hn, hns⟩ := hn n ns rfl
              have next := hn c' ρ' store hp.alike hH (hρ'.1 _ _ he)
              have nothing : Stream.Waits k b ρ (.stop .complete) (.sequence .none) c' :=
                fun _ hc'' => Answers.noStatements hc''.alike
              have all := hns nothing hb' (Nat.le_refl _) hρ' (.refl _ hp.alike) next
              exact (all r (Move.leads_asked.mp hr)).after (hp.below hbb).evolves

theorem statementsFollow {ns : List Node} (he : ρ.frame e k.current)
    (hn : ∀ n ∈ ns, n.Follows host call k e) : StatementsFollow host call k b ρ e ns := by
  induction ns with
  | nil => exact statement he (fun _ _ h => by cases h)
  | cons n ns ih =>
      rw [List.forall_mem_cons] at hn
      refine statement he ?_
      rintro _ _ ⟨rfl, rfl⟩
      exact ⟨hn.1, ih hn.2⟩

namespace Answers

/-- Statements whose names are declared. -/
theorem ofStatements {store : Frames} (hk : k.Alike c) (hH : ρ.Holds store c.frames)
    (he : ρ.frame e k.current) :
    ∀ {ns : List Node}, (∀ n ∈ ns, n.Follows host call k e) →
      Stream.Answers k c.frames.next ρ
        (if ns.isEmpty then .one (.value .undefined) store
          else searchStatements host call ns e (.stop .complete) store)
        (.ofStatements ns) c
  | [], _ => once hk hH (.value .undefined)
  | n :: ns, hn => by
      rw [List.forall_mem_cons] at hn
      have first := hn.1 c ρ store hk hH he
      have nothing : Stream.Waits k c.frames.next ρ (.stop .complete) (.sequence .none) c :=
        fun _ hc' => noStatements hc'.alike
      exact statementsFollow he hn.2 nothing (Nat.le_refl _) (Nat.le_refl _) ρ.le_refl
        (.refl _ hk) first

/-- Statements in the innermost frame. -/
theorem body {store : Frames} (hs : k.current ∈ k.stack) (hk : k.Alike c)
    (hH : ρ.Holds store c.frames) (he : ρ.frame e k.current) {ns : List Node}
    (hn : ∀ n ∈ ns, n.Follows host call k e) :
    Stream.Answers k c.frames.next ρ (searchBody host call ns e store) (.body ns) c := by
  intro r hr
  rw [Stream.gives_iff] at hr
  have declared := Action.Mirrors.hoist hs ns hk hH he
  rw [Action.Mirrors] at declared
  simp only [Stream.move] at hr
  rw [searchBody_apply]
  generalize (Action.hoist ns).on c = result, Search.hoist e ns store = F at declared hr ⊢
  cases declared with
  | error =>
      obtain rfl : r = _ := hr
      exact .failed
  | ok hp hρ hH' _ =>
      rw [Found.one_bind]
      have all := (ofStatements hp.alike hH' (hρ.1 _ _ he) hn).mono hp.next hρ
      exact (all r (Move.leads_asked.mp hr)).after hp.evolves

end Answers

/-! ### Arguments -/

/-- The loop over the outcomes of an argument: the values before it are given, the last first, and
those after it are searched. -/
def searchArgument (host : Host) (call : Search.Call) (e : FrameId) (span : Span)
    (values : List Value) (later : List Node) (outcome : Outcome) : Search (List Value) :=
  fun store =>
    (Search.operand span "call argument" outcome store).bind fun v store =>
      (searchArguments host call later e store).bind fun vs => .one (values.reverse ++ v :: vs)

/-- What comes after an argument is a loop over the next one. -/
theorem searchArguments_cons (n : Node) (ns : List Node) (v : Value) (values : List Value)
    (store : Frames) :
    ((searchArguments host call (n :: ns) e store).bind fun vs => .one (values.reverse ++ v :: vs)) =
      (n.search host call e store).bind (searchArgument host call e n.span (v :: values) ns) := by
  have unfolded : searchArguments host call (n :: ns) e store =
      (n.search host call e store).bind fun o store =>
        (Search.operand n.span "call argument" o store).bind fun v store =>
          (searchArguments host call ns e store).bind fun vs => .one (v :: vs) := rfl
  rw [unfolded, Found.bind_assoc]
  congr 1
  funext o store
  simp only [Found.bind_assoc, Found.one_bind, searchArgument, List.reverse_cons, List.append_assoc,
    List.singleton_append]

theorem Answers.noArguments (h : k.Alike c) (values : List Value) :
    Odometer.Answers k b ρ (.stop .complete) (.turning .none values) c := by
  intro r hr
  obtain rfl : r = .finished c := Odometer.gives_iff.mp hr
  exact .complete (.refl b h)

/-- Whatever is left of an argument that these follow, and whatever waits, the odometer replies what
is found: for each value of the argument all that follows it, then what waited. -/
def ArgumentsFollow (host : Host) (call : Search.Call) (k : Context) (b : Nat) (ρ : Link)
    (e : FrameId) (later : List Node) : Prop :=
  ∀ (span : Span) {F : Found Outcome} {G : Found (List Value)} {b₁ : Nat} {ρ₁ : Link}
    {vs ws : List Value} {current : Stream} {earlier : OpenArguments} {c c₀ : Context},
    Odometer.Waits k b ρ G (.turning earlier ws.tail) c₀ → b ≤ c₀.frames.next →
      c₀.frames.next ≤ b₁ → ρ ≤ ρ₁ → Values.Linked ρ₁ vs ws → k.Passes c₀.frames.next c₀ c →
        Stream.Answers k b₁ ρ₁ F current c →
          Odometer.Answers k b ρ ((F.bind (searchArgument host call e span vs later)).append G)
            (.turning (.push current span later earlier) ws) c

/-- One argument, when those that follow it do. -/
theorem argument {later : List Node} (he : ρ.frame e k.current)
    (hn : ∀ n ns, later = n :: ns →
      n.Follows host call k e ∧ ArgumentsFollow host call k b ρ e ns) :
    ArgumentsFollow host call k b ρ e later := by
  intro span F G b₁ ρ₁ vs ws current earlier c c₀ hw hb hb₁ hρ hv hc h r hr
  have hbb := Nat.le_trans hb hb₁
  rw [Odometer.gives_iff] at hr
  obtain ⟨r', hr', hr⟩ := hr
  replace h := h r' hr'
  clear hr'
  induction h generalizing r with
  | exceeded h =>
      obtain rfl : r = _ := hr
      exact .exceeded h
  -- The argument is over, and the one before it goes on.
  | @complete c c' hp =>
      have passed := hc.trans (hp.below hb₁)
      exact (hw _ passed r (Move.leads_odometer_asked.mp hr)).after (hp.below hbb).evolves
  | failed =>
      obtain rfl : r = _ := hr
      exact .failed
  | @found item store rest c item' s' c' ρ' hp hle hH hitem _ ih =>
      have value : (Action.operand span "call argument" item').Mirrors Value.Linked k ρ' c'
          (Search.operand span "call argument" item store) := .operand hp.alike hH _ _ hitem
      have step : Found.bind (searchArgument host call e span vs later) (.found item store rest) =
          ((Search.operand span "call argument" item store).bind fun v store =>
            (searchArguments host call later e store).bind fun us =>
              .one (vs.reverse ++ v :: us)).append
            (rest.bind (searchArgument host call e span vs later)) := rfl
      rw [step, Found.append_assoc]
      simp only at hr
      rw [Action.Mirrors] at value
      generalize (Action.operand span "call argument" item').on c' = result,
        Search.operand span "call argument" item store = V at value hr ⊢
      cases value with
      | error =>
          obtain rfl : r = _ := hr
          exact .failed
      | @ok v store' w c₁ ρ₂ hp' hle' hH' hvw =>
          rw [Found.one_bind]
          have before := hc.trans (hp.below hb₁)
          have passed := before.since hp'
          -- First the stream passed, then the check that its outcome is a value.
          have here := (hp.below hbb).trans (hp'.below (Nat.le_trans hb before.next))
          have hb' := Nat.le_trans hb passed.next
          have hρ' := Link.le_trans hρ (Link.le_trans hle hle')
          have waits : Odometer.Waits k b ρ
              ((rest.bind (searchArgument host call e span vs later)).append G)
              (.turning (.push s' span later earlier) ws) c₁ := by
            intro c'' hc'' r hr
            rw [Odometer.gives_iff] at hr
            obtain ⟨r', hr', hr⟩ := hr
            exact ih c'' (hp'.since hc'') r' hr' (passed.since hc'') r hr
          have hv' : Values.Linked ρ₂ vs ws := hv.imp fun _ _ h => h.mono (Link.le_trans hle hle')
          cases later with
          | nil =>
              obtain rfl : r = _ := hr
              refine .found here hρ' hH' ?_ waits
              rw [List.reverse_cons]
              exact List.rel_append (List.forall₂_reverse_iff.mpr hv') (.cons hvw .nil)
          | cons n ns =>
              obtain ⟨hn, hns⟩ := hn n ns rfl
              have next := hn c₁ ρ₂ store' hp'.alike hH' (hρ'.1 _ _ he)
              have all := hns n.span waits hb' (Nat.le_refl _) hρ' (.cons hvw hv')
                (.refl _ hp'.alike) next
              rw [searchArguments_cons]
              exact (all r (Move.leads_odometer_asked.mp hr)).after here.evolves

theorem argumentsFollow {ns : List Node} (he : ρ.frame e k.current)
    (hn : ∀ n ∈ ns, n.Follows host call k e) : ArgumentsFollow host call k b ρ e ns := by
  induction ns with
  | nil => exact argument he (fun _ _ h => by cases h)
  | cons n ns ih =>
      rw [List.forall_mem_cons] at hn
      refine argument he ?_
      rintro _ _ ⟨rfl, rfl⟩
      exact ⟨hn.1, ih hn.2⟩

/-- Arguments that were not begun. -/
theorem Answers.arguments {store : Frames} (hk : k.Alike c) (hH : ρ.Holds store c.frames)
    (he : ρ.frame e k.current) :
    ∀ {ns : List Node}, (∀ n ∈ ns, n.Follows host call k e) →
      Odometer.Answers k c.frames.next ρ (searchArguments host call ns e store) (.start ns) c
  | [], _ => by
      intro r hr
      obtain rfl : r = .yield [] (.turning .none []) c := Odometer.gives_iff.mp hr
      exact .found (.refl _ hk) ρ.le_refl hH .nil fun _ hc' => noArguments hc'.alike []
  | n :: ns, hn => by
      rw [List.forall_mem_cons] at hn
      have first := hn.1 c ρ store hk hH he
      have nothing : Odometer.Waits k c.frames.next ρ (.stop .complete)
          (.turning .none [].tail) c := fun _ hc' => noArguments hc'.alike []
      have all := argumentsFollow he hn.2 n.span nothing (Nat.le_refl _) (Nat.le_refl _)
        ρ.le_refl .nil (.refl _ hk) first
      rw [Found.append_complete] at all
      exact fun r hr => all r (Move.leads_odometer_asked.mp (Odometer.gives_iff.mp hr))

end Nondet
