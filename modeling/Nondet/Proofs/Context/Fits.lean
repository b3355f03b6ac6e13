import Nondet.Proofs.Tree.Every
import Nondet.Proofs.Context.Snapshot
import Nondet.Proofs.Context.Action

/-!
# Context — Fits

What can be said of all values, frames and nodes that an evaluation has in its hands.  A `Regime`
chooses which nodes may be evaluated and which frames may be referred to while there are so many of
them.  A closure fits when its body and its frame do, a context when all that it holds does.  Frames
are only ever added, so what fits goes on to fit (`Value.Fits.mono`), and every action keeps a
context that fits (`Action.Keeps`).
-/

namespace Nondet

/-- What an evaluation may have in its hands. -/
structure Regime where
  /-- The nodes that may be evaluated. -/
  node : Node → Prop
  /-- The frames that may be referred to when there are so many. -/
  frame : Nat → FrameId → Prop
  /-- How many frames there are at least. -/
  first : Nat
  /-- Literals may be evaluated: some are made up for logical operators. -/
  literal : ∀ span value, node (.literal span value)
  /-- Returning may be evaluated: it is made up for bodies that are expressions. -/
  returned : ∀ span n, node (.returnStatement span (some n))
  frame_mono : ∀ {n m i}, n ≤ m → frame n i → frame m i
  /-- A new frame may be referred to. -/
  frame_new : ∀ n, first ≤ n → frame (n + 1) n
  /-- A new frame opens no way to an older one. -/
  frame_old : ∀ {n i}, frame (n + 1) i → i ≠ n → frame n i

/-- A frame that is not the one added last was there before it. -/
theorem FrameId.lt_of_lt_succ {n : Nat} {i : FrameId} (h : i < n + 1) (hne : i ≠ n) : i < n :=
  Nat.lt_of_le_of_ne (Nat.le_of_lt_succ h) hne

/-- The regime under which everything is allowed. -/
def Regime.any : Regime where
  node _ := True
  frame _ _ := True
  first := 0
  literal _ _ := trivial
  returned _ _ := trivial
  frame_mono _ h := h
  frame_new _ _ := trivial
  frame_old h _ := h

variable (R : Regime) (n : Nat)

/-! ### What fits -/

def Closure.Fits (c : Closure) : Prop := c.function.Every R.node ∧ R.frame n c.frame

def Value.Fits : Value → Prop
  | .closure c => c.Fits R n
  | _          => True

def Bindings.Fits (bs : Bindings) : Prop := ∀ name v m, (name, .assigned v m) ∈ bs → v.Fits R n

/-- The frame with the number `i` holds values that fit, and the frame around it was there when it
was created. -/
structure Frame.Fits (i : FrameId) (f : Frame) : Prop where
  values : ∀ v ∈ f.values, v.Fits R n
  parent : ∀ p ∈ f.parent, R.frame i p

/-- The frames that may be referred to hold what fits.  Nothing is said of the others: they are out
of reach. -/
structure Frames.Fits (fs : Frames) : Prop where
  first : R.first ≤ fs.next
  get : ∀ i f, fs.get? i = some f → R.frame fs.next i → f.Fits R fs.next i

structure Snapshot.Fits (s : Snapshot) : Prop where
  stack : ∀ i ∈ s.stack, R.frame n i
  frames : ∀ p ∈ s.bindings, R.frame n p.1
  bindings : ∀ p ∈ s.bindings, p.2.Fits R n

/-- The natives of a host give values that fit when their arguments do. -/
def Host.Fits (host : Host) : Prop := ∀ n name arguments v, (∀ a ∈ arguments, a.Fits R n) →
  host.call name arguments = .ok v → v.Fits R n

structure Context.Fits (c : Context) : Prop where
  frames : c.frames.Fits R
  stack : ∀ i ∈ c.stack, R.frame c.frames.next i
  global : R.frame c.frames.next c.global
  host : c.host.Fits R

variable {R : Regime} {n m : Nat}

/-- What is no closure fits. -/
theorem Value.fits_of_asClosure? {v : Value} (h : v.asClosure? = none) : v.Fits R n := by
  cases v with
  | closure c => cases h
  | _ => trivial

/-- A host whose natives give no closures fits. -/
theorem Host.fits_of_asClosure? {host : Host}
    (h : ∀ name arguments v, host.call name arguments = .ok v → v.asClosure? = none) :
    host.Fits R := fun _ name arguments v _ hv => Value.fits_of_asClosure? (h name arguments v hv)

/-- The natives of a host give no closures but those that they are given. -/
def Host.HandsOn (host : Host) : Prop := ∀ name arguments closure,
  host.call name arguments = .ok (.closure closure) → .closure closure ∈ arguments

/-- What holds of the arguments of such a native, and of all that is no closure, holds of what it
gives. -/
theorem Host.HandsOn.gives {host : Host} (h : host.HandsOn) {P : Value → Prop}
    (hP : ∀ v : Value, v.asClosure? = none → P v) {name : String} {arguments : List Value}
    (ha : ∀ a ∈ arguments, P a) (v : Value) (hv : host.call name arguments = .ok v) : P v := by
  cases v with
  | closure c => exact ha _ (h name arguments c hv)
  | _ => exact hP _ rfl

/-- A host that only hands closures on fits under every regime. -/
theorem Host.HandsOn.fits {host : Host} (h : host.HandsOn) : host.Fits R :=
  fun _ _ _ v ha hv => h.gives (fun _ => Value.fits_of_asClosure?) ha v hv

/-! ### Growing -/

theorem Closure.Fits.mono {c : Closure} (hle : n ≤ m) (h : c.Fits R n) : c.Fits R m :=
  ⟨h.1, R.frame_mono hle h.2⟩

theorem Value.Fits.mono {v : Value} (hle : n ≤ m) (h : v.Fits R n) : v.Fits R m := by
  cases v with
  | closure c => exact Closure.Fits.mono hle h
  | _ => trivial

theorem Bindings.Fits.mono {bs : Bindings} (hle : n ≤ m) (h : bs.Fits R n) : bs.Fits R m :=
  fun name v mu hv => (h name v mu hv).mono hle

theorem Frame.Fits.mono {i : FrameId} {f : Frame} (hle : n ≤ m) (h : f.Fits R n i) : f.Fits R m i :=
  ⟨fun v hv => (h.values v hv).mono hle, h.parent⟩

theorem Snapshot.Fits.mono {s : Snapshot} (hle : n ≤ m) (h : s.Fits R n) : s.Fits R m :=
  ⟨fun i hi => R.frame_mono hle (h.stack i hi), fun p hp => R.frame_mono hle (h.frames p hp),
    fun p hp => (h.bindings p hp).mono hle⟩

/-! ### Frames -/

theorem Bindings.Fits.set {bs : Bindings} (h : bs.Fits R n) (name : String) {binding : Binding}
    (hb : ∀ v m, binding = .assigned v m → v.Fits R n) : (bs.set name binding).Fits R n := by
  intro x v mu hv
  rcases Bindings.mem_set hv with ⟨-, e⟩ | hv
  · exact hb v mu e.symm
  · exact h x v mu hv

theorem Frame.Fits.bindings {i : FrameId} {f : Frame} (h : f.Fits R n i) : f.bindings.Fits R n :=
  fun name v mu hv => h.values v (Frame.mem_values.mpr (.inl ⟨name, mu, hv⟩))

theorem Frame.Fits.withBindings {i : FrameId} {f : Frame} (h : f.Fits R n i) {bs : Bindings}
    (hb : bs.Fits R n) : Frame.Fits R n i { f with bindings := bs } := by
  refine ⟨fun v hv => ?_, h.parent⟩
  rcases Frame.mem_values.mp hv with ⟨name, mu, hv⟩ | hv
  · exact hb name v mu hv
  · exact h.values v (Frame.mem_values.mpr (.inr hv))

theorem Frame.fits_child {i parent : FrameId} (name : String) (h : R.frame i parent) :
    (Frame.child name parent).Fits R n i :=
  ⟨fun v hv => by simp at hv, fun p hp => by cases hp; exact h⟩

theorem Frame.fits_activation {closure : Closure} (hc : closure.Fits R n) {arguments : List Value}
    (ha : ∀ a ∈ arguments, a.Fits R n) (span : Span) {this : Option Value}
    (ht : ∀ v ∈ this, v.Fits R n) :
    (Frame.activation closure arguments span this).Fits R n n := by
  refine ⟨fun v hv => ?_, fun p hp => by cases hp; exact hc.2⟩
  rcases Frame.mem_values_activation hv with hv | hv
  · exact ha v hv
  · exact ht v hv

namespace Frames.Fits

variable {fs : Frames}

theorem push (h : fs.Fits R) {frame : Frame} (hf : frame.Fits R fs.next fs.next) :
    (fs.push frame).Fits R := by
  refine ⟨by simpa using Nat.le_succ_of_le h.first, fun i f hi hr => ?_⟩
  rw [Frames.get?_push] at hi
  rw [Frames.next_push] at hr ⊢
  split at hi
  -- The new frame lies in older ones, and every old one in a larger store.
  next e =>
    cases hi
    rw [e]
    exact hf.mono (Nat.le_succ _)
  next e => exact (h.get i f hi (R.frame_old hr e)).mono (Nat.le_succ _)

/-- Tables are changed into tables that fit. -/
theorem of_get?_eq (h : fs.Fits R) {fs' : Frames} (hn : fs'.next = fs.next)
    (hg : ∀ i f, fs'.get? i = some f → R.frame fs.next i →
      ∃ f₀, fs.get? i = some f₀ ∧
        ∃ bs : Bindings, bs.Fits R fs.next ∧ f = { f₀ with bindings := bs }) :
    fs'.Fits R := by
  refine ⟨hn ▸ h.first, fun i f hi hr => ?_⟩
  rw [hn] at hr ⊢
  obtain ⟨f₀, hf₀, bs, hbs, rfl⟩ := hg i f hi hr
  exact (h.get i f₀ hf₀ hr).withBindings hbs

theorem set (h : fs.Fits R) (i : FrameId) (name : String) {binding : Binding}
    (hb : ∀ v m, binding = .assigned v m → v.Fits R fs.next) : (fs.set i name binding).Fits R := by
  refine h.of_get?_eq (Frames.next_set _ _) fun j f hj hr => ?_
  rw [Frames.get?_set] at hj
  split at hj
  · obtain ⟨f₀, hf₀, rfl⟩ := Option.map_eq_some_iff.mp hj
    exact ⟨f₀, hf₀, _, (h.get j f₀ hf₀ hr).bindings.set name hb, rfl⟩
  · exact ⟨f, hj, _, (h.get j f hj hr).bindings, rfl⟩

theorem setBindings (h : fs.Fits R) (i : FrameId) {bs : Bindings} (hb : bs.Fits R fs.next) :
    (fs.setBindings i bs).Fits R := by
  refine h.of_get?_eq (Frames.next_setBindings _) fun j f hj hr => ?_
  rw [Frames.get?_setBindings] at hj
  split at hj
  · obtain ⟨f₀, hf₀, rfl⟩ := Option.map_eq_some_iff.mp hj
    exact ⟨f₀, hf₀, bs, hb, rfl⟩
  · exact ⟨f, hj, _, (h.get j f hj hr).bindings, rfl⟩

theorem bindings (h : fs.Fits R) {i : FrameId} (hr : R.frame fs.next i) :
    (fs.bindings i).Fits R fs.next := by
  cases hi : fs.get? i with
  | none =>
      intro name v mu hv
      simp [Frames.bindings, hi] at hv
  | some f => exact Frames.bindings_of_get? hi ▸ (h.get i f hi hr).bindings

/-- The frame around a frame that may be referred to may be referred to. -/
theorem parent (h : fs.Fits R) {i p : FrameId} {f : Frame} (hf : fs.get? i = some f)
    (hr : R.frame fs.next i) (hp : f.parent = some p) : R.frame fs.next p :=
  R.frame_mono (Nat.le_of_lt (Frames.lt_next hf)) ((h.get i f hf hr).parent p hp)

/-- A frame that may be referred to leads to frames that may be, too. -/
theorem edge (h : fs.Fits R) {i j : FrameId} (hr : R.frame fs.next i) (he : fs.Edge i j) :
    R.frame fs.next j := by
  obtain ⟨f, hf, hj⟩ := he
  rcases Frame.mem_neighbours.mp hj with hp | ⟨closure, hv, rfl⟩
  · exact h.parent hf hr hp
  · exact ((h.get i f hf hr).values _ hv).2

/-- All frames around a frame that may be referred to may be, too. -/
theorem chainFrom (h : fs.Fits R) : ∀ (fuel : Nat) {i : FrameId}, R.frame fs.next i →
    ∀ j ∈ fs.chainFrom fuel i, R.frame fs.next j
  | 0, _, _, j, hj => nomatch hj
  | fuel + 1, i, hr, j, hj => by
      rw [Frames.chainFrom] at hj
      cases hf : fs.get? i with
      | none => simp [hf] at hj
      | some f =>
          rw [hf] at hj
          rcases List.mem_cons.mp hj with rfl | hj
          · exact hr
          · cases hp : f.parent with
            | none => simp [hp] at hj
            | some p =>
                rw [hp] at hj
                exact chainFrom h fuel (h.parent hf hr hp) j hj

theorem lookup (h : fs.Fits R) {i : FrameId} (hr : R.frame fs.next i) {name : String} {v : Value}
    (hv : fs.lookup i name = .ok v) : v.Fits R fs.next := by
  obtain ⟨j, hj, m, hb⟩ := Frames.lookup_eq_ok hv
  exact h.bindings (h.chainFrom _ hr j hj) name v m (Bindings.mem_of_get? hb)

end Frames.Fits

/-! ### Contexts -/

namespace Context.Fits

variable {c : Context}

theorem current (h : c.Fits R) : R.frame c.frames.next c.current := by
  rw [Context.current]
  cases hs : c.stack with
  | nil => exact h.global
  | cons i _ => exact h.stack i (by rw [hs]; exact List.mem_cons_self)

theorem push (h : c.Fits R) {frame : FrameId} (hf : R.frame c.frames.next frame) :
    (c.push frame).Fits R :=
  ⟨h.frames, List.forall_mem_cons.mpr ⟨hf, h.stack⟩, h.global, h.host⟩

theorem pop (h : c.Fits R) : c.pop.Fits R :=
  ⟨h.frames, fun i hi => h.stack i (List.mem_of_mem_tail hi), h.global, h.host⟩

theorem raised (h : c.Fits R) (failure : Failure) : (c.raised failure).Fits R :=
  ⟨h.frames, fun i hi => h.stack i (List.mem_of_mem_drop hi), h.global, h.host⟩

theorem truncate (h : c.Fits R) : c.truncate.Fits R :=
  ⟨h.frames, fun i hi => h.stack i (List.mem_of_mem_drop hi), h.global, h.host⟩

theorem deeper (h : c.Fits R) : Context.Fits R { c with nesting := c.nesting + 1 } :=
  ⟨h.1, h.2, h.3, h.4⟩

theorem leaveNested (h : c.Fits R) : c.leaveNested.Fits R := ⟨h.1, h.2, h.3, h.4⟩

theorem addFrame (h : c.Fits R) {frame : Frame} (hf : frame.Fits R c.frames.next c.frames.next) :
    (c.addFrame frame).Fits R := by
  -- With more frames than before, what could be referred to can be referred to still.
  have hle : c.frames.next ≤ (c.addFrame frame).frames.next := by simp [Context.addFrame]
  exact ⟨h.frames.push hf, fun i hi => R.frame_mono hle (h.stack i hi),
    R.frame_mono hle h.global, h.host⟩

theorem addFrame_push (h : c.Fits R) {frame : Frame}
    (hf : frame.Fits R c.frames.next c.frames.next) :
    ((c.addFrame frame).push c.frames.next).Fits R := by
  refine (h.addFrame hf).push ?_
  simpa [Context.addFrame] using R.frame_new c.frames.next h.frames.first

theorem enterProgram (h : c.Fits R) : c.enterProgram.Fits R := by
  have h' := h.truncate.addFrame_push (Frame.fits_child "program" h.truncate.current)
  exact ⟨h'.frames, h'.stack, h'.global, h'.host⟩

theorem withFrames (h : c.Fits R) {fs : Frames} (hn : fs.next = c.frames.next) (hf : fs.Fits R) :
    Context.Fits R { c with frames := fs } :=
  ⟨hf, fun i hi => by simpa [hn] using h.stack i hi, by simpa [hn] using h.global, h.host⟩

theorem defineGlobal (h : c.Fits R) (name : String) {v : Value} (hv : v.Fits R c.frames.next) :
    (c.defineGlobal name v).Fits R :=
  h.withFrames (Frames.next_set _ _) (h.frames.set _ name fun w m e => by cases e; exact hv)

theorem reaches (h : c.Fits R) {i : FrameId} (hi : c.Reaches i) : R.frame c.frames.next i := by
  obtain ⟨root, hroot, path⟩ := hi
  induction path with
  | refl =>
      rcases List.mem_cons.mp hroot with rfl | hroot
      · exact h.global
      · exact h.stack root hroot
  | tail _ he ih => exact h.frames.edge ih he

theorem snapshot (h : c.Fits R) : c.snapshot.Fits R c.frames.next := by
  refine ⟨h.stack, fun p hp => ?_, fun p hp => ?_⟩
  · obtain ⟨i, hi, rfl⟩ := List.mem_map.mp hp
    exact h.reaches (Frames.reaches_of_mem_reachable hi)
  · obtain ⟨i, hi, rfl⟩ := List.mem_map.mp hp
    exact h.frames.bindings (h.reaches (Frames.reaches_of_mem_reachable hi))

theorem restore_next (c : Context) (s : Snapshot) :
    (c.restore s).frames.next = c.frames.next :=
  List.foldlRecOn (motive := fun fs : Frames => fs.next = c.frames.next) s.bindings _ rfl
    fun _ hn _ _ => (Frames.next_setBindings _).trans hn

theorem restore (h : c.Fits R) {s : Snapshot} (hs : s.Fits R c.frames.next) :
    (c.restore s).Fits R := by
  -- The tables that are put back fit among as many frames as there are all the time.
  have tables : (c.restore s).frames.next = c.frames.next ∧ (c.restore s).frames.Fits R :=
    List.foldlRecOn (motive := fun fs : Frames => fs.next = c.frames.next ∧ fs.Fits R)
      s.bindings _
      ⟨rfl, h.frames⟩ fun fs ⟨hn, hfs⟩ p hp =>
        ⟨(Frames.next_setBindings _).trans hn, hfs.setBindings p.1 (hn ▸ hs.bindings p hp)⟩
  refine ⟨tables.2, fun i hi => ?_, ?_, h.host⟩
  · rw [restore_next]
    exact hs.stack i hi
  · rw [restore_next]
    exact h.global

end Context.Fits

/-- A context in which nothing happened yet fits. -/
theorem Context.fits_empty (limits : Limits) {host : Host} (h : host.Fits R)
    (h₀ : R.first = 0 := by rfl) : (Context.empty limits host).Fits R := by
  have hnew : R.frame 1 0 := R.frame_new 0 (Nat.le_of_eq h₀)
  refine ⟨⟨h₀ ▸ Nat.zero_le _, fun i f hi _ => ?_⟩, fun i hi => ?_, hnew, h⟩
  · change (Frames.empty.push (.root "global")).get? i = some f at hi
    rw [Frames.get?_push] at hi
    split at hi
    · cases hi
      exact ⟨fun v hv => by simp [Frame.root, Frame.values] at hv, fun p hp => nomatch hp⟩
    · simp [Frames.empty, Frames.get?] at hi
  · cases List.mem_singleton.mp hi
    exact hnew

/-! ### Actions -/

namespace Action

variable {α β : Type}

/-- In the context `c` the action leaves a context that fits and has no fewer frames, and its value
satisfies `Q`, which may depend on how many frames there are. -/
def Keeps (R : Regime) (Q : Nat → α → Prop) (c : Context) (a : Action α) : Prop :=
  (a.on c).2.Fits R ∧ c.frames.next ≤ (a.on c).2.frames.next ∧
    ∀ x, (a.on c).1 = .ok x → Q (a.on c).2.frames.next x

namespace Keeps

variable {Q : Nat → α → Prop} {P : Nat → β → Prop} {c : Context}

theorem pure {a : α} (hc : c.Fits R) (h : Q c.frames.next a) :
    Keeps R Q c (pure a : Action α) :=
  ⟨hc, Nat.le_refl _, fun x hx => by cases hx; exact h⟩

theorem raise (hc : c.Fits R) (failure : Failure) : Keeps R Q c (raise failure : Action α) :=
  ⟨hc.raised failure, Nat.le_refl _, fun _ hx => nomatch hx⟩

theorem bind {a : Action α} {f : α → Action β} (ha : Keeps R Q c a)
    (hf : ∀ x c', c'.Fits R → c.frames.next ≤ c'.frames.next → Q c'.frames.next x →
      Keeps R P c' (f x)) : Keeps R P c (a >>= f) := by
  rw [Keeps] at ha ⊢
  rw [on_bind]
  rcases hr : a.on c with ⟨failure | x, c'⟩ <;> rw [hr] at ha
  · exact ⟨ha.1, ha.2.1, fun y hy => nomatch hy⟩
  · obtain ⟨hc', hle, hq⟩ := hf x c' ha.1 ha.2.1 (ha.2.2 x rfl)
    exact ⟨hc', Nat.le_trans ha.2.1 hle, hq⟩

theorem check (hc : c.Fits R) (span : Span) {result : Except Mistake α}
    (h : ∀ a, result = .ok a → Q c.frames.next a) : Keeps R Q c (check span result) := by
  cases result with
  | ok a => exact pure hc (h a rfl)
  | error mistake => exact raise hc _

/-- The frames are changed, not their number. -/
theorem change (hc : c.Fits R) (name : String) (span : Span)
    {result : Except BindFailure Frames.Change}
    (h : ∀ ch, result = .ok ch → ∀ v m, ch.binding = .assigned v m → v.Fits R c.frames.next) :
    Keeps R (fun _ _ => True) c (change name span result) := by
  cases result with
  | ok ch =>
      refine ⟨hc.withFrames (Frames.next_apply ch) (hc.frames.set _ _ (h ch rfl)), ?_,
        fun _ _ => trivial⟩
      exact Nat.le_of_eq (Frames.next_apply ch).symm
  | error failure => exact raise hc _

theorem declare (hc : c.Fits R) (name : String) (span : Span) :
    Keeps R (fun _ _ => True) c (declare name span) :=
  change hc name span fun _ hch _ _ e => nomatch (Frames.binding_of_declaration hch).symm.trans e

theorem define (hc : c.Fits R) (name : String) {value : Value} (hv : value.Fits R c.frames.next)
    (constant : Bool) (span : Span) :
    Keeps R (fun _ _ => True) c (define name value constant span) := by
  refine change hc name span fun ch hch v m e => ?_
  cases (Frames.binding_of_definition hch).symm.trans e
  exact hv

theorem assign (hc : c.Fits R) (name : String) {value : Value} (hv : value.Fits R c.frames.next)
    (span : Span) : Keeps R (fun _ _ => True) c (assign name value span) := by
  refine change hc name span fun ch hch v m e => ?_
  cases (Frames.binding_of_assignment hch).symm.trans e
  exact hv

theorem lookup (hc : c.Fits R) (name : String) (span : Span) :
    Keeps R (fun n v => v.Fits R n) c (lookup name span) := by
  rw [Keeps]
  rw [on_lookup]
  split
  next v hv =>
    exact ⟨hc, Nat.le_refl _, fun x hx => by cases hx; exact hc.frames.lookup hc.current hv⟩
  next => exact raise hc _

theorem makeClosure (hc : c.Fits R) {function : Function} (hf : function.Every R.node) :
    Keeps R (fun n closure => closure.Fits R n) c (makeClosure function) := by
  refine ⟨hc.withFrames rfl ⟨hc.frames.first, hc.frames.get⟩, Nat.le_refl _, fun x hx => ?_⟩
  cases hx
  exact ⟨hf, hc.current⟩

theorem hoist : ∀ (ns : List Node) {c : Context}, c.Fits R →
    Keeps R (fun _ _ => True) c (hoist ns)
  | [], _, hc => pure hc trivial
  | n :: ns, c, hc => by
      rw [Keeps]
      rw [on_hoist_cons]
      split
      · exact hoist ns hc
      next name _ => exact bind (declare hc name n.span) fun _ _ hc' _ _ => hoist ns hc'

theorem callNative (hc : c.Fits R) (span : Span) (name : String) {arguments : List Value}
    (ha : ∀ a ∈ arguments, a.Fits R c.frames.next) :
    Keeps R (fun n v => v.Fits R n) c (callNative span name arguments) := by
  rw [Keeps]
  rw [on_callNative]
  rcases hv : c.host.call name arguments with (_ | _ | _ | _) | v
  case ok => exact ⟨hc, Nat.le_refl _, fun x hx => by cases hx; exact hc.host _ _ _ _ ha hv⟩
  all_goals exact raise hc _

/-- A call that is entered has its frame, the newest. -/
theorem enterCall (hc : c.Fits R) (span : Span) {closure : Closure}
    (hcl : closure.Fits R c.frames.next) {arguments : List Value}
    (ha : ∀ a ∈ arguments, a.Fits R c.frames.next) {this : Option Value}
    (ht : ∀ v ∈ this, v.Fits R c.frames.next) :
    Keeps R R.frame c (enterCall span closure arguments this) := by
  have hf := Frame.fits_activation hcl ha span ht
  have hn : (c.addFrame (.activation closure arguments span this)).frames.next =
      c.frames.next + 1 := by simp [Context.addFrame]
  rw [Keeps]
  rw [on_enterCall]
  split
  · exact raise hc _
  · simp only
    split
    -- A call that is too deep has added its frame, and failed with the frame on the stack.
    · exact ⟨(hc.addFrame_push hf).raised _, by rw [Context.raised]; simp [Context.truncate,
        Context.push, hn], fun x hx => nomatch hx⟩
    · refine ⟨hc.addFrame hf, by rw [hn]; exact Nat.le_succ _, fun x hx => ?_⟩
      cases hx
      exact hn ▸ R.frame_new _ hc.frames.first

end Keeps

end Action

end Nondet
