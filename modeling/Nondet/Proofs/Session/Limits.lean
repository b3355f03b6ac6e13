import Nondet.Session
import Nondet.Proofs.Pull.Limits
import Nondet.Proofs.Session.Dialogue

/-!
# Session — Limits

What a host sees of the limits.  A host works through some tasks with a session, binding constants
and pulling results of scripts, and keeps what came of every request.  Under larger limits the same
tasks have the same results, up to the first request under the smaller ones that runs into a limit
(`results_under_larger_limits`).  Fuel is of no account: results do not depend on it
(`Session.Performs.unique`).
-/

namespace Nondet

variable {k l : Limits} {fuel : Nat}

namespace Session

/-- What comes of a request for the next solution of a script. -/
abbrev Result := Except Error (Option Value)

/-- The results of so many requests for the next solution. -/
def Run.pull (fuel : Nat) : Nat → Run → Session → Option (List Result × Run × Session)
  | 0, r, s     => some ([], r, s)
  | n + 1, r, s => do
    let (x, r, s) ← r.next fuel s
    let (xs, r, s) ← pull fuel n r s
    return (x :: xs, r, s)

/-- Something that a host does with a session. -/
inductive Task where
  | define (name : String) (value : Value)
  /-- A script that was parsed is asked so many times for its next solution. -/
  | pull (script : Run) (count : Nat)

/-- Performs a task. -/
def Task.perform (fuel : Nat) (s : Session) : Task → Option (List Result × Session)
  | .define name value => some ([], s.define name value)
  | .pull script count => (script.pull fuel count s).map fun (xs, _, s) => (xs, s)

/-- Performs tasks one after the other.  Each has its own list of results. -/
def perform (fuel : Nat) : List Task → Session → Option (List (List Result) × Session)
  | [], s      => some ([], s)
  | t :: ts, s => do
    let (xs, s) ← t.perform fuel s
    let (xss, s) ← perform fuel ts s
    return (xs :: xss, s)

/-- With fuel enough, performing the tasks has these results. -/
def Performs (s : Session) (ts : List Task) (xss : List (List Result)) : Prop :=
  ∃ fuel s', s.perform fuel ts = some (xss, s')

/-- Performing the tasks has these results, or it has them up to a request that is said to have run
into a limit. -/
inductive PerformsUpToLimit (s : Session) (ts : List Task) (xss : List (List Result)) : Prop
  | same (h : s.Performs ts xss)
  /-- The tasks before have the same results, and so have the requests to that script before that
  one; however often the script is asked, its results begin with them. -/
  | cut {before script n after xss₁ ys message m xss₂}
      (tasks : ts = before ++ .pull script n :: after)
      (results : xss =
        xss₁ ++ (ys ++ .error (.exceeded message) :: List.replicate m (.ok none)) :: xss₂)
      (first : s.Performs (before ++ [.pull script ys.length]) (xss₁ ++ [ys]))
      (all : ∀ yss, s.Performs (before ++ [.pull script n]) yss → ∃ zs, yss = xss₁ ++ [ys ++ zs])

/-- The session with other limits. -/
def under (s : Session) (l : Limits) : Session := ⟨s.context.under l⟩

variable {s s' : Session} {r r' : Run} {x : Result} {xs : List Result}

/-! ### Fuel -/

theorem Run.next_mono {fuel' : Nat} (hle : fuel ≤ fuel')
    (h : r.next fuel s = some (x, r', s')) : r.next fuel' s = some (x, r', s') := by
  obtain ⟨⟨answer, rest, c⟩, hn, e⟩ := Option.map_eq_some_iff.mp h
  exact Option.map_eq_some_iff.mpr ⟨_, Solutions.next_mono hle hn, e⟩

theorem Run.pull_mono {fuel' : Nat} (hle : fuel ≤ fuel') :
    ∀ {n : Nat} {r r' : Run} {s s' : Session} {xs : List Result},
      r.pull fuel n s = some (xs, r', s') → r.pull fuel' n s = some (xs, r', s')
  | 0, _, _, _, _, _, h => h
  | n + 1, r, r', s, s', xs, h => by
      obtain ⟨⟨x, r₁, s₁⟩, hx, h⟩ := Option.bind_eq_some_iff.mp h
      obtain ⟨⟨ys, r₂, s₂⟩, hys, e⟩ := Option.bind_eq_some_iff.mp h
      exact Option.bind_eq_some_iff.mpr ⟨_, Run.next_mono hle hx,
        Option.bind_eq_some_iff.mpr ⟨_, pull_mono hle hys, e⟩⟩

theorem Task.perform_mono {fuel' : Nat} (hle : fuel ≤ fuel') {t : Task}
    (h : t.perform fuel s = some (xs, s')) : t.perform fuel' s = some (xs, s') := by
  cases t with
  | define name value => exact h
  | pull script count =>
      obtain ⟨y, hy, e⟩ := Option.map_eq_some_iff.mp h
      exact Option.map_eq_some_iff.mpr ⟨y, Run.pull_mono hle hy, e⟩

theorem perform_mono {fuel' : Nat} (hle : fuel ≤ fuel') :
    ∀ {ts : List Task} {s s' : Session} {xss : List (List Result)},
      s.perform fuel ts = some (xss, s') → s.perform fuel' ts = some (xss, s')
  | [], _, _, _, h => h
  | t :: ts, s, s', xss, h => by
      obtain ⟨⟨xs, s₁⟩, hx, h⟩ := Option.bind_eq_some_iff.mp h
      obtain ⟨⟨yss, s₂⟩, hys, e⟩ := Option.bind_eq_some_iff.mp h
      exact Option.bind_eq_some_iff.mpr ⟨_, Task.perform_mono hle hx,
        Option.bind_eq_some_iff.mpr ⟨_, perform_mono hle hys, e⟩⟩

/-- Whatever the fuel, the results are the same. -/
theorem Performs.unique {ts : List Task} {xss yss : List (List Result)} (h : s.Performs ts xss)
    (h' : s.Performs ts yss) : xss = yss := by
  obtain ⟨fuel, s₁, h⟩ := h
  obtain ⟨fuel', s₂, h'⟩ := h'
  have e := perform_mono (Nat.le_max_left fuel fuel') h
  rw [perform_mono (Nat.le_max_right fuel fuel') h'] at e
  cases e
  rfl

/-! ### Requests under larger limits -/

/-- When nothing is left of a script, nothing comes of requests. -/
theorem Run.pull_none (source : String) : ∀ (n : Nat) (s : Session),
    Run.pull fuel n ⟨⟨none⟩, source⟩ s = some (List.replicate n (.ok none), ⟨⟨none⟩, source⟩, s)
  | 0, _     => rfl
  | n + 1, s => by
      rw [Run.pull]
      exact Option.bind_eq_some_iff.mpr ⟨(.ok none, ⟨⟨none⟩, source⟩, s), rfl,
        Option.bind_eq_some_iff.mpr ⟨_, pull_none source n s, rfl⟩⟩

/-- A request under larger limits has the same result, unless it ran into a limit; then nothing is
left of the script. -/
theorem Run.next_under (h : k ≤ l) (hs : s.context.limits = k)
    (hx : r.next fuel s = some (x, r', s')) :
    s'.context.limits = k ∧
      ((∃ message, x = .error (.exceeded message)) ∧ r' = ⟨⟨none⟩, r.source⟩ ∨
        r.next fuel (s.under l) = some (x, r', s'.under l)) := by
  obtain ⟨⟨_ | st⟩, source⟩ := r
  · cases hx
    exact ⟨hs, .inr rfl⟩
  · obtain ⟨⟨answer, rest, c⟩, hn, e⟩ := Option.map_eq_some_iff.mp hx
    rw [Solutions.next_some] at hn
    obtain ⟨reply, hr, e'⟩ := Option.map_eq_some_iff.mp hn
    obtain ⟨limits, agree⟩ := Stream.ask_under h hs hr
    have same (hr : st.ask fuel (s.context.under l) = some (reply.under l)) :
        Run.next fuel ⟨⟨some st⟩, source⟩ (s.under l) = some (x, r', s'.under l) := by
      refine Option.map_eq_some_iff.mpr ⟨(answer, rest, c.under l), ?_, ?_⟩
      · rw [Solutions.next_some]
        refine Option.map_eq_some_iff.mpr ⟨_, hr, ?_⟩
        cases reply <;> cases e' <;> rfl
      · cases e
        rfl
    cases reply with
    | yield outcome st' c' =>
        cases e'
        cases e
        exact ⟨limits, .inr (same (agree.resolve_left id))⟩
    | finished c' =>
        cases e'
        cases e
        exact ⟨limits, .inr (same (agree.resolve_left id))⟩
    | failed failure c' =>
        cases e'
        cases e
        refine ⟨limits, agree.imp (fun exceeded => ?_) same⟩
        cases failure with
        | exceeded limit depth maximum span => exact ⟨⟨_, rfl⟩, rfl⟩
        | mistake m span => cases exceeded

/-- The requests agree with those under larger limits, or they do up to one that runs into a
limit. -/
theorem Run.pull_under (h : k ≤ l) : ∀ {n : Nat} {r r' : Run} {s s' : Session} {xs : List Result},
    s.context.limits = k → r.pull fuel n s = some (xs, r', s') →
    s'.context.limits = k ∧
      (r.pull fuel n (s.under l) = some (xs, r', s'.under l) ∨
        ∃ ys message m, xs = ys ++ .error (.exceeded message) :: List.replicate m (.ok none) ∧
          ys.length < n ∧ ∃ r'' s'', r.pull fuel ys.length (s.under l) = some (ys, r'', s''))
  | 0, _, _, _, _, _, hs, hx => by
      cases hx
      exact ⟨hs, .inl rfl⟩
  | n + 1, r, r', s, s', xs, hs, hx => by
      obtain ⟨⟨x, r₁, s₁⟩, hn, hx⟩ := Option.bind_eq_some_iff.mp hx
      obtain ⟨⟨xs', r₂, s₂⟩, hxs, e⟩ := Option.bind_eq_some_iff.mp hx
      cases e
      obtain ⟨limits, ⟨⟨message, rfl⟩, rfl⟩ | same⟩ := Run.next_under h hs hn
      · -- After the failure nothing comes of the other requests.
        rw [Run.pull_none] at hxs
        cases hxs
        exact ⟨limits, .inr ⟨[], message, n, rfl, Nat.succ_pos n, r, s.under l, rfl⟩⟩
      · obtain ⟨limits, hxs | ⟨ys, message, m, rfl, hlt, r'', s'', hys⟩⟩ := pull_under h limits hxs
        · exact ⟨limits, .inl (Option.bind_eq_some_iff.mpr ⟨_, same,
            Option.bind_eq_some_iff.mpr ⟨_, hxs, rfl⟩⟩)⟩
        · exact ⟨limits, .inr ⟨x :: ys, message, m, rfl, Nat.succ_lt_succ hlt, r'', s'',
            Option.bind_eq_some_iff.mpr ⟨_, same, Option.bind_eq_some_iff.mpr ⟨_, hys, rfl⟩⟩⟩⟩

/-- More requests begin with the results of fewer. -/
theorem Run.pull_isPrefix : ∀ {n : Nat} {r r₁ r₂ : Run} {s s₁ s₂ : Session} {xs ys : List Result},
    r.pull fuel ys.length s = some (ys, r₁, s₁) → ys.length ≤ n →
      r.pull fuel n s = some (xs, r₂, s₂) → ys <+: xs
  | _, _, _, _, _, _, _, _, [], _, _, _ => List.nil_prefix
  | n + 1, r, r₁, r₂, s, s₁, s₂, xs, y :: ys, hy, hle, hx => by
      obtain ⟨⟨x, r', s'⟩, hn, h⟩ := Option.bind_eq_some_iff.mp hx
      obtain ⟨⟨xs', r'', s''⟩, hxs, e⟩ := Option.bind_eq_some_iff.mp h
      cases e
      obtain ⟨⟨y', r', s'⟩, hn', h⟩ := Option.bind_eq_some_iff.mp hy
      rw [hn] at hn'
      cases hn'
      obtain ⟨⟨ys', r'', s''⟩, hys, e⟩ := Option.bind_eq_some_iff.mp h
      cases e
      exact List.cons_prefix_cons.mpr ⟨rfl, pull_isPrefix hys (Nat.le_of_succ_le_succ hle) hxs⟩

/-- What is done after other tasks. -/
theorem perform_concat {t : Task} : ∀ {ts : List Task} {s s' : Session} {xss : List (List Result)},
    s.perform fuel (ts ++ [t]) = some (xss, s') ↔
      ∃ yss s₁ xs, s.perform fuel ts = some (yss, s₁) ∧ t.perform fuel s₁ = some (xs, s') ∧
        xss = yss ++ [xs]
  | [], s, s', xss => by
      constructor
      · intro h
        obtain ⟨⟨xs, s₁⟩, ht, e⟩ := Option.bind_eq_some_iff.mp h
        cases e
        exact ⟨[], s, xs, rfl, ht, rfl⟩
      · rintro ⟨yss, s₁, xs, hs, ht, rfl⟩
        cases hs
        exact Option.bind_eq_some_iff.mpr ⟨_, ht, rfl⟩
  | u :: us, s, s', xss => by
      constructor
      · intro h
        obtain ⟨⟨zs, s₁⟩, hu, h⟩ := Option.bind_eq_some_iff.mp h
        obtain ⟨⟨xss, s₂⟩, hus, e⟩ := Option.bind_eq_some_iff.mp h
        cases e
        obtain ⟨yss, s₃, xs, hys, ht, rfl⟩ := perform_concat.mp hus
        exact ⟨zs :: yss, s₃, xs, Option.bind_eq_some_iff.mpr ⟨_, hu,
          Option.bind_eq_some_iff.mpr ⟨_, hys, rfl⟩⟩, ht, rfl⟩
      · rintro ⟨yss, s₁, xs, h, ht, rfl⟩
        obtain ⟨⟨zs, s₂⟩, hu, h⟩ := Option.bind_eq_some_iff.mp h
        obtain ⟨⟨yss, s₃⟩, hus, e⟩ := Option.bind_eq_some_iff.mp h
        cases e
        exact Option.bind_eq_some_iff.mpr ⟨_, hu, Option.bind_eq_some_iff.mpr
          ⟨_, perform_concat.mpr ⟨yss, s₁, xs, hus, ht, rfl⟩, rfl⟩⟩

/-- The results `xs` of so many requests to a script run into a limit, while the session goes on
under the limits `l`: there those before that one are the same. -/
structure CutShort (fuel : Nat) (l : Limits) (script : Run) (n : Nat) (s : Session)
    (ys xs : List Result) : Prop where
  /-- The request that ran into a limit comes after `ys`, and nothing after it. -/
  results : ∃ message m, xs = ys ++ .error (.exceeded message) :: List.replicate m (.ok none)
  length : ys.length < n
  same : ∃ s', (Task.pull script ys.length).perform fuel (s.under l) = some (ys, s')

/-- A task has the same results under larger limits, or it has them up to a request that runs into a
limit. -/
theorem Task.perform_under (h : k ≤ l) {t : Task} (hs : s.context.limits = k)
    (hx : t.perform fuel s = some (xs, s')) :
    s'.context.limits = k ∧
      (t.perform fuel (s.under l) = some (xs, s'.under l) ∨
        ∃ script n ys, t = .pull script n ∧ CutShort fuel l script n s ys xs) := by
  cases t with
  | define name value =>
      cases hx
      exact ⟨hs, .inl rfl⟩
  | pull script n =>
      obtain ⟨⟨xs, r', s'⟩, hp, e⟩ := Option.map_eq_some_iff.mp hx
      cases e
      obtain ⟨limits, same | ⟨ys, message, m, e, hlt, r'', s'', hys⟩⟩ := Run.pull_under h hs hp
      · exact ⟨limits, .inl (Option.map_eq_some_iff.mpr ⟨_, same, rfl⟩)⟩
      · exact ⟨limits, .inr ⟨script, n, ys, rfl, ⟨message, m, e⟩, hlt, s'',
          Option.map_eq_some_iff.mpr ⟨_, hys, rfl⟩⟩⟩

/-- Tasks have the same results under larger limits, or they have them up to a request that runs
into a limit. -/
theorem perform_under (h : k ≤ l) : ∀ {ts : List Task} {s s' : Session} {xss : List (List Result)},
    s.context.limits = k → s.perform fuel ts = some (xss, s') →
    (s.under l).perform fuel ts = some (xss, s'.under l) ∨
      ∃ before script n after xss₁ s₁ ys xs xss₂, ts = before ++ .pull script n :: after ∧
        xss = xss₁ ++ xs :: xss₂ ∧
        (s.under l).perform fuel before = some (xss₁, s₁.under l) ∧
        CutShort fuel l script n s₁ ys xs
  | [], _, _, _, _, hx => by
      cases hx
      exact .inl rfl
  | t :: ts, s, s', xss, hs, hx => by
      obtain ⟨⟨xs, s₁⟩, ht, hx⟩ := Option.bind_eq_some_iff.mp hx
      obtain ⟨⟨xss, s₂⟩, hts, e⟩ := Option.bind_eq_some_iff.mp hx
      cases e
      obtain ⟨limits, same | ⟨script, n, ys, rfl, cut⟩⟩ := Task.perform_under h hs ht
      · rcases perform_under h limits hts with rest |
          ⟨before, script, n, after, xss₁, s₁, ys, xs, xss₂, rfl, rfl, rest, cut⟩
        · exact .inl (Option.bind_eq_some_iff.mpr ⟨_, same,
            Option.bind_eq_some_iff.mpr ⟨_, rest, rfl⟩⟩)
        · exact .inr ⟨t :: before, script, n, after, _, s₁, ys, xs, xss₂, rfl, rfl,
            Option.bind_eq_some_iff.mpr ⟨_, same, Option.bind_eq_some_iff.mpr ⟨_, rest, rfl⟩⟩, cut⟩
      · exact .inr ⟨[], script, n, ts, [], s, ys, xs, xss, rfl, rfl, rfl, cut⟩

/-- A new session under other limits. -/
theorem start_under (k l : Limits) (prelude : Bool) (host : Host) :
    (Session.start ⟨k, prelude⟩ host).under l = Session.start ⟨l, prelude⟩ host := by
  have bound (ps : List (String × (List Value → Except NativeFailure Value))) (c : Context) :
      (ps.foldl (fun c p => c.defineGlobal p.1 (.native p.1)) c).under l =
        ps.foldl (fun c p => c.defineGlobal p.1 (.native p.1)) (c.under l) := by
    induction ps generalizing c with
    | nil => rfl
    | cons p ps ih => exact ih _
  cases prelude with
  | false => rfl
  | true => exact congrArg Session.mk (bound Prelude.natives (.empty k host))

end Session

open Session

/-- **Larger limits change no result.**  Let a host perform tasks with two sessions, the second under
limits that are at least as large.  The results are the same, or there is a script whose results run
into a limit in the first session; up to that request they are the same. -/
theorem results_under_larger_limits (h : k ≤ l) (prelude : Bool) (host : Host) {ts : List Task}
    {xss : List (List Result)} (hx : (Session.start ⟨k, prelude⟩ host).Performs ts xss) :
    (Session.start ⟨l, prelude⟩ host).PerformsUpToLimit ts xss := by
  obtain ⟨fuel, s', hx⟩ := hx
  have hs : (Session.start ⟨k, prelude⟩ host).context.limits = k :=
    (Session.start_alike ⟨k, prelude⟩ host).limits
  rcases perform_under h hs hx with same |
    ⟨before, script, n, after, xss₁, s₁, ys, xs, xss₂, e, e', first, ⟨message, m, rfl⟩, hlt, s₂, cut⟩
  · rw [Session.start_under] at same
    exact .same ⟨fuel, _, same⟩
  · rw [Session.start_under] at first
    refine .cut e e' ⟨fuel, s₂, perform_concat.mpr ⟨_, _, _, first, cut, rfl⟩⟩ ?_
    rintro _ ⟨fuel', s₃, hy⟩
    obtain ⟨yss, s₄, zs, first', rest, rfl⟩ := perform_concat.mp hy
    -- With fuel enough for both, the script is asked in the same session both times.
    have e := perform_mono (Nat.le_max_left fuel fuel') first
    rw [perform_mono (Nat.le_max_right fuel fuel') first'] at e
    cases e
    obtain ⟨⟨ys', r₁, s₅⟩, hys, e⟩ := Option.map_eq_some_iff.mp cut
    cases e
    obtain ⟨⟨zs', r₂, s₆⟩, hzs, e⟩ := Option.map_eq_some_iff.mp rest
    cases e
    obtain ⟨us, rfl⟩ := Run.pull_isPrefix (Run.pull_mono (Nat.le_max_left fuel fuel') hys)
      (Nat.le_of_lt hlt) (Run.pull_mono (Nat.le_max_right fuel fuel') hzs)
    exact ⟨us, rfl⟩

/-- One solution, then a limit that is exceeded, and nothing else. -/
def Session.cutShort? : List (List Result) → Option (Value × String)
  | [[.ok (some x), .error (.exceeded message), .ok none]] => some (x, message)
  | _                                                      => none

theorem Session.eq_of_cutShort? {xss : List (List Result)} {x : Value} {message : String}
    (h : cutShort? xss = some (x, message)) :
    xss = [[.ok (some x), .error (.exceeded message), .ok none]] := by
  unfold cutShort? at h
  split at h
  · cases h
    rfl
  · cases h

/-- The second alternative of a choice is nested too deeply for the smaller limits. -/
theorem results_under_larger_limits_alternative :
    (⟨500, 6⟩ : Limits) ≤ .standard ∧ ∃ script x message,
      Session.run "amb(true, !!!!true);" = .ok script ∧
      (Session.start ⟨⟨500, 6⟩, true⟩ Prelude.host).Performs [.pull script 3]
        [[.ok (some x), .error (.exceeded message), .ok none]] ∧
      (Session.start ⟨.standard, true⟩ Prelude.host).PerformsUpToLimit [.pull script 3]
        [[.ok (some x), .error (.exceeded message), .ok none]] := by
  have h : (⟨500, 6⟩ : Limits) ≤ .standard := ⟨by decide, by decide⟩
  have played : (Session.run "amb(true, !!!!true);").toOption.any (fun script =>
      ((Session.start ⟨⟨500, 6⟩, true⟩ Prelude.host).perform 40 [.pull script 3]).any
        fun p => (Session.cutShort? p.1).isSome) = true := by decide +kernel
  obtain ⟨script, hscript, played⟩ := Trial.exists_of_any played
  obtain ⟨⟨xss, s⟩, hp, played⟩ := (Option.any_eq_true _ _).mp played
  obtain ⟨⟨x, message⟩, hxss⟩ := Option.isSome_iff_exists.mp played
  obtain rfl := Session.eq_of_cutShort? hxss
  have hx : (Session.start ⟨⟨500, 6⟩, true⟩ Prelude.host).Performs [.pull script 3] _ := ⟨40, s, hp⟩
  exact ⟨h, script, x, message, hscript, hx, results_under_larger_limits h true Prelude.host hx⟩

end Nondet
