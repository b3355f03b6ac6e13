import Nondet.Proofs.Pull.Fits

/-!
# Pull — Keeps

The frames that a stream keeps.  What is left of an evaluation refers to frames on its own account:
the one that a block or a call runs in, those of the closures in its values, and those that its
snapshots remember, with the closures in their tables.  `Stream.keeps` lists them; all of them may
be referred to when the stream fits (`Stream.Fits.keeps`).
-/

namespace Nondet

/-! ### Values and snapshots -/

/-- The frame of a closure. -/
def Value.keeps (v : Value) : List FrameId := (v.asClosure?.map Closure.frame).toList

/-- The frames of the closures in an outcome. -/
def Outcome.keeps (o : Outcome) : List FrameId := o.toValue.keeps

/-- The frames of the closures among some values. -/
def Values.keeps (vs : List Value) : List FrameId := vs.flatMap Value.keeps

/-- The frames of the closures in a table. -/
def Bindings.keeps (bs : Bindings) : List FrameId :=
  bs.flatMap fun p =>
    match p.2 with
    | .assigned v _ => v.keeps
    | .unassigned   => []

/-- The frames on the stack of a snapshot, those whose tables it has, and those of the closures in
the tables. -/
def Snapshot.keeps (s : Snapshot) : List FrameId :=
  s.stack ++ s.bindings.flatMap fun p => p.1 :: Bindings.keeps p.2

/-! ### Streams -/

/-- What is no function is no closure and has no frame. -/
def Deferred.keeps : Deferred → List FrameId
  | .native _ _ arguments => Values.keeps arguments
  | .lookup _ _ | .defineFunction _ _ | .closure _ | .notFunction _ _ => []

def Transform.keeps : Transform → List FrameId
  | .binary _ _ left => left.keeps
  | .unary _ _ | .define _ _ _ | .assign _ _ | .return _ => []

mutual

/-- The frames that a stream refers to. -/
def Stream.keeps : Stream → List FrameId
  | .empty | .node _ | .amb _ | .block _ | .program _ | .body _ => []
  | .once outcome               => outcome.keeps
  | .deferred what              => what.keeps
  | .nested _ inner             => inner.keeps
  | .map inner f                => inner.keeps ++ f.keeps
  | .flatMap outer _            => outer.keeps
  | .append first second        => first.keeps ++ second.keeps
  | .calls _ callee arguments   => callee.keeps ++ arguments.keeps
  | .choice snapshot current _  => snapshot.keeps ++ current.keeps
  | .sequence begun             => begun.keeps
  | .framed frame inner         => frame :: inner.keeps
  | .call _ closure arguments this =>
    closure.frame :: (Values.keeps arguments ++ Values.keeps this.toList)
  | .activation frame inner     => frame :: inner.keeps

def Odometer.keeps : Odometer → List FrameId
  | .start _              => []
  | .turning begun values => begun.keeps ++ Values.keeps values

def OpenArguments.keeps : OpenArguments → List FrameId
  | .none                    => []
  | .push stream _ _ earlier => stream.keeps ++ earlier.keeps

def OpenStatements.keeps : OpenStatements → List FrameId
  | .none                  => []
  | .push stream _ earlier => stream.keeps ++ earlier.keeps

end

/-- The frames that a request refers to. -/
def Query.keeps : Query → List FrameId
  | .stream s _   => s.keeps
  | .odometer o _ => o.keeps

/-- The context of a request. -/
def Query.context : Query → Context
  | .stream _ c | .odometer _ c => c

/-- The frames that the answer refers to, and those that what is left refers to. -/
def Reply.keeps {σ α : Type} (item : α → List FrameId) (rest : σ → List FrameId) :
    Reply σ α → List FrameId
  | .yield a s _              => item a ++ rest s
  | .finished _ | .failed _ _ => []

/-! ### What fits keeps what fits -/

variable {R : Regime} {n : Nat}

theorem Value.Fits.keeps {v : Value} (h : v.Fits R n) : ∀ i ∈ v.keeps, R.frame n i := by
  cases v with
  | closure c => exact List.forall_mem_singleton.mpr h.2
  | _ => exact List.forall_mem_nil _

theorem Values.Fits.keeps {vs : List Value} (h : ∀ v ∈ vs, v.Fits R n) :
    ∀ i ∈ Values.keeps vs, R.frame n i := by
  intro i hi
  obtain ⟨v, hv, hi⟩ := List.mem_flatMap.mp hi
  exact (h v hv).keeps i hi

theorem Bindings.Fits.keeps {bs : Bindings} (h : bs.Fits R n) :
    ∀ i ∈ Bindings.keeps bs, R.frame n i := by
  intro i hi
  obtain ⟨⟨name, b⟩, hb, hi⟩ := List.mem_flatMap.mp hi
  cases b with
  | unassigned => cases hi
  | assigned v m => exact (h name v m hb).keeps i hi

theorem Snapshot.Fits.keeps {s : Snapshot} (h : s.Fits R n) : ∀ i ∈ s.keeps, R.frame n i := by
  refine List.forall_mem_append.mpr ⟨h.stack, fun i hi => ?_⟩
  obtain ⟨p, hp, hi⟩ := List.mem_flatMap.mp hi
  rcases List.mem_cons.mp hi with rfl | hi
  · exact h.frames p hp
  · exact (h.bindings p hp).keeps i hi

theorem Deferred.Fits.keeps {what : Deferred} (h : what.Fits R n) :
    ∀ i ∈ what.keeps, R.frame n i := by
  cases what with
  | native span name arguments => exact Values.Fits.keeps h
  | _ => exact List.forall_mem_nil _

theorem Transform.Fits.keeps {f : Transform} (h : f.Fits R n) : ∀ i ∈ f.keeps, R.frame n i := by
  cases f with
  | binary span op left => exact Value.Fits.keeps h
  | _ => exact List.forall_mem_nil _

mutual

theorem Stream.Fits.keeps : ∀ {s : Stream}, s.Fits R n → ∀ i ∈ s.keeps, R.frame n i
  | .empty, _ | .node _, _ | .amb _, _ | .block _, _ | .program _, _ | .body _, _ =>
    List.forall_mem_nil _
  | .once _, h => Value.Fits.keeps h
  | .deferred _, h => Deferred.Fits.keeps h
  | .nested _ inner, h => Stream.Fits.keeps (s := inner) h
  | .map _ _, h => List.forall_mem_append.mpr ⟨h.1.keeps, h.2.keeps⟩
  | .flatMap _ _, h => h.1.keeps
  | .append _ _, h => List.forall_mem_append.mpr ⟨h.1.keeps, h.2.keeps⟩
  | .calls _ _ _, h => List.forall_mem_append.mpr ⟨h.1.keeps, h.2.keeps⟩
  | .choice _ _ _, h => List.forall_mem_append.mpr ⟨h.1.keeps, h.2.1.keeps⟩
  | .sequence begun, h => (OpenStatements.Fits.keeps : begun.Fits R n → _) h
  | .framed _ _, h => List.forall_mem_cons.mpr ⟨h.1, h.2.keeps⟩
  | .call _ _ _ _, h =>
    List.forall_mem_cons.mpr ⟨h.1.2, List.forall_mem_append.mpr ⟨Values.Fits.keeps h.2.1,
      Values.Fits.keeps fun v hv => h.2.2 v (Option.mem_toList.mp hv)⟩⟩
  | .activation _ _, h => List.forall_mem_cons.mpr ⟨h.1, h.2.keeps⟩

theorem Odometer.Fits.keeps : ∀ {o : Odometer}, o.Fits R n → ∀ i ∈ o.keeps, R.frame n i
  | .start _, _ => List.forall_mem_nil _
  | .turning _ _, h => List.forall_mem_append.mpr ⟨h.1.keeps, Values.Fits.keeps h.2⟩

theorem OpenArguments.Fits.keeps :
    ∀ {begun : OpenArguments}, begun.Fits R n → ∀ i ∈ begun.keeps, R.frame n i
  | .none, _ => List.forall_mem_nil _
  | .push _ _ _ _, h => List.forall_mem_append.mpr ⟨h.1.keeps, h.2.2.keeps⟩

theorem OpenStatements.Fits.keeps :
    ∀ {begun : OpenStatements}, begun.Fits R n → ∀ i ∈ begun.keeps, R.frame n i
  | .none, _ => List.forall_mem_nil _
  | .push _ _ _, h => List.forall_mem_append.mpr ⟨h.1.keeps, h.2.2.keeps⟩

end

/-- A request that the regime allows refers to frames of its context. -/
theorem Regime.keeps_of_allows {q : Query} (h : R.contract.Allows q) :
    q.context.Fits R ∧ ∀ i ∈ q.keeps, R.frame q.context.frames.next i := by
  cases q with
  | stream s c => exact ⟨h.1, h.2.keeps⟩
  | odometer o c => exact ⟨h.1, h.2.keeps⟩

/-- A reply refers to frames of its context. -/
theorem Regime.Leaves.keeps {σ α : Type} {item : Nat → α → Prop} {rest : Nat → σ → Prop}
    {ofItem : α → List FrameId} {ofRest : σ → List FrameId} {r : Reply σ α}
    (h : R.Leaves rest item n r) (hi : ∀ n a, item n a → ∀ i ∈ ofItem a, R.frame n i)
    (hs : ∀ n s, rest n s → ∀ i ∈ ofRest s, R.frame n i) :
    ∀ i ∈ r.keeps ofItem ofRest, R.frame r.context.frames.next i := by
  cases r with
  | yield a s c =>
      obtain ⟨ha, hr⟩ := h.2.2 a s c rfl
      exact List.forall_mem_append.mpr ⟨hi _ a ha, hs _ s hr⟩
  | finished c => exact List.forall_mem_nil _
  | failed failure c => exact List.forall_mem_nil _

end Nondet
