import EthWalletUi.Lane

/-!
# What the lapse timer recovers

A callback can simply never fire. The timer that a claim arms runs 1 ms past the claim's own
deadline, but it is a coarse timer: it may fire up to 5% of its interval early, while the claim it
is to recover is still live, or so late that a fresh run has taken the expired lane. Either way it
finds the lane busy, does nothing and never fires again (`lapse_early`). `lapse_recovers_iff` says
exactly when every lost callback is recovered from.

* `LaneRun.Recovered`, `ClaimRun.Recovered`: the spinner of a lost claim is down or a later claim
  holds it, and the re-run queued behind it has been started.
* `LaneRun.inTime`, `ClaimRun.inTime`: the condition on the next event.
* `ClaimRun`: a bare claim and the spinner it drives, alone, as `LaneRun` is a lane.
-/

namespace EthWalletUi

open Machine

/-- `QTimer::singleShot` of 2 s or more is a coarse timer: it fires within 5% of its interval. -/
def LapseTimer.inWindow (τ : LapseTimer) (now : Nat) : Bool :=
  95 * τ.interval ≤ 100 * (now - τ.armed) && 100 * (now - τ.armed) ≤ 105 * τ.interval

/-! ## Lanes -/

namespace LaneRun

/-- Timers fire within their window. -/
def coarse (s : LaneRun) : LaneEvent → Bool
  | .lapse i _ => match s.w.timers[i]? with
    | some τ => τ.inWindow s.now
    | none => true
  | _ => true

/-- A run refused behind claim `t` is still queued. -/
def awaits (s : LaneRun) (t : Nat) : Bool :=
  s.refusals.any fun r => r.behind == t && r.reruns == s.reruns

/-- No timer is spent on a busy lane while its own claim has the spinner up, or while a run refused
behind its own claim is queued; and none is refused behind a claim whose timer is spent. -/
def inTime (s : LaneRun) : LaneEvent → Bool
  | .ask => !(s.w.lane.busy s.now && s.fired.contains s.newest)
  | .lapse i _ => match s.w.timers[i]? with
    | some τ => !(s.w.lane.busy s.now &&
        (τ.ticket == s.newest && s.w.loading || s.awaits τ.ticket))
    | none => true
  | _ => true

/-- Claim `t`, if its timer has fired and its callback has not: the spinner is down or a later
claim holds it, and for every run that was queued behind it a re-run has been started since. -/
def Recovered (s : LaneRun) (t : Nat) : Prop :=
  t ∈ s.fired → t ∉ s.completed →
    (s.w.loading = true → t < s.newest ∧ s.w.lane.flight.held = true) ∧
    ∀ r ∈ s.refusals, r.behind = t → r.reruns < s.reruns

/-- The timers are those of claims issued, a held claim has not completed, and nothing is left
queued behind one that has. -/
structure Tracked (s : LaneRun) : Prop where
  timers : ∀ τ ∈ s.w.timers, τ.ticket ≤ s.newest
  fired : ∀ t ∈ s.fired, t ≤ s.newest
  held : s.w.lane.flight.held = true → s.newest ∉ s.completed
  queued : ∀ r ∈ s.refusals, r.reruns = s.reruns → r.behind ∉ s.completed

variable {s s' : LaneRun}

theorem awaits_iff (t : Nat) :
    s.awaits t = true ↔ ∃ r ∈ s.refusals, r.behind = t ∧ r.reruns = s.reruns := by
  simp [awaits]

theorem held_of_busy (hb : s.w.lane.busy s.now = true) : s.w.lane.flight.held = true := by
  simp only [AsyncLane.busy, InFlight.busy, Bool.and_eq_true] at hb
  exact hb.1

/-! ### Handing on -/

/-- What handing on the guard of a free lane leaves: the queue is served, and a spinner that is up
is that of a new claim. -/
structure Handed (s s' : LaneRun) : Prop where
  fired : s'.fired = s.fired
  completed : s'.completed = s.completed
  newest : s.newest ≤ s'.newest
  timers : ∀ τ ∈ s'.w.timers, τ ∈ s.w.timers ∨ τ.ticket = s'.newest
  refusals : s'.refusals = s.refusals
  served : ∀ r ∈ s.refusals, r.reruns < s'.reruns
  spinner : s'.w.loading = true → s.newest < s'.newest ∧ s'.w.lane.flight.held = true
  held : s'.w.lane.flight.held = true →
    s.newest < s'.newest ∨ s'.newest = s.newest ∧ s.w.lane.flight.held = true

theorem ClaimInv.handed (h : s.ClaimInv) (hb : s.w.lane.busy s.now = false) (wants : Bool) :
    Handed s (s.handOn wants) := by
  rcases s.handOn_cases wants with ⟨-, -, he⟩ | ⟨-, -, he⟩ | ⟨ha, he⟩
  · rcases s.drained.ask_cases with ⟨-, d, hask⟩ | ⟨hb', -⟩
    · rw [he, hask]
      refine ⟨rfl, rfl, Nat.le_succ _, fun τ hτ => ?_, rfl,
        fun r hr => Nat.lt_succ_of_le (h.stamps r hr), fun _ => ⟨Nat.lt_succ_self _, rfl⟩,
        fun _ => .inl (Nat.lt_succ_self _)⟩
      rcases List.mem_cons.mp hτ with rfl | hτ
      · exact .inr rfl
      · exact .inl hτ
    · have hb'' : s.w.lane.busy s.now = true := hb'
      rw [hb] at hb''
      cases hb''
  · rw [he]
    exact ⟨rfl, rfl, Nat.le_refl _, fun _ hτ => .inl hτ, rfl,
      fun r hr => Nat.lt_succ_of_le (h.stamps r hr), fun hl => (by cases hl),
      fun hh => .inr ⟨rfl, hh⟩⟩
  · -- Nothing is queued, so every run refused so far has been served.
    rw [he]
    refine ⟨rfl, rfl, Nat.le_refl _, fun _ hτ => .inl hτ, rfl, fun r hr => ?_,
      fun hl => (by cases hl), fun hh => .inr ⟨rfl, hh⟩⟩
    refine Nat.lt_of_le_of_ne (h.stamps r hr) fun heq => ?_
    have hq := h.queued.mpr ⟨r, hr, heq⟩
    rw [ha] at hq
    cases hq

theorem Handed.tracked (h : Handed s s') (ht : ∀ τ ∈ s.w.timers, τ.ticket ≤ s.newest)
    (hf : ∀ t ∈ s.fired, t ≤ s.newest) (hc : ∀ t ∈ s.completed, t ≤ s.newest)
    (hh : s.w.lane.flight.held = true → s.newest ∉ s.completed) : s'.Tracked := by
  refine ⟨fun τ hτ => ?_, fun t htf => ?_, fun hheld hm => ?_, fun r hr heq => ?_⟩
  · rcases h.timers τ hτ with hτ | heq
    · exact Nat.le_trans (ht τ hτ) h.newest
    · exact Nat.le_of_eq heq
  · rw [h.fired] at htf
    exact Nat.le_trans (hf t htf) h.newest
  · rw [h.completed] at hm
    rcases h.held hheld with hlt | ⟨heq, hs⟩
    · have := hc _ hm
      omega
    · exact hh hs (heq ▸ hm)
  · rw [h.refusals] at hr
    have := h.served r hr
    omega

theorem Handed.recovered (h : Handed s s') (hf : ∀ t ∈ s.fired, t ≤ s.newest) (t : Nat) :
    s'.Recovered t := by
  intro ht _
  rw [h.fired] at ht
  refine ⟨fun hl => ?_, fun r hr _ => ?_⟩
  · obtain ⟨hlt, hheld⟩ := h.spinner hl
    exact ⟨Nat.lt_of_le_of_lt (hf t ht) hlt, hheld⟩
  · rw [h.refusals] at hr
    exact h.served r hr

/-! ### Steps -/

theorem Tracked.step {legs : Nat} {e : LaneEvent} (h : s.Tracked) (hi : s.Inv)
    (hs : s.step legs e = some s') : s'.Tracked := by
  cases e with
  | ask =>
    cases hs
    rcases s.ask_cases with ⟨-, d, he⟩ | ⟨hb, he⟩
    · rw [he]
      refine ⟨fun τ hτ => ?_, fun t ht => Nat.le_succ_of_le (h.fired t ht), fun _ hm => ?_,
        h.queued⟩
      · rcases List.mem_cons.mp hτ with rfl | hτ
        · exact Nat.le_refl _
        · exact Nat.le_succ_of_le (h.timers τ hτ)
      · exact absurd (hi.completed _ hm) (Nat.not_succ_le_self _)
    · rw [he]
      refine ⟨h.timers, h.fired, h.held, fun r hr heq => ?_⟩
      rcases List.mem_cons.mp hr with rfl | hr
      · exact h.held (held_of_busy hb)
      · exact h.queued r hr heq
  | complete i wants =>
    obtain ⟨c, -, ⟨-, rfl⟩ | ⟨-, -, rfl⟩ | ⟨heq, -, rfl⟩⟩ := complete_cases hs
    · exact { h with }
    · exact { h with }
    · have hfree := hi.toClaimInv.released heq (s.calls.eraseIdx i)
      exact (hfree.handed rfl wants).tracked h.timers h.fired hfree.completed fun hh => by cases hh
  | lapse i wants =>
    obtain ⟨τ, hτ, ⟨-, rfl⟩ | ⟨hb, rfl⟩⟩ := lapse_cases hs
    all_goals
      have hfired : ∀ t ∈ τ.ticket :: s.fired, t ≤ s.newest := fun t ht => by
        rcases List.mem_cons.mp ht with rfl | ht
        · exact h.timers τ (List.mem_of_getElem? hτ)
        · exact h.fired t ht
      have htimers : ∀ τ' ∈ s.w.timers.eraseIdx i, τ'.ticket ≤ s.newest := fun τ' hτ' =>
        h.timers τ' (List.mem_of_mem_eraseIdx hτ')
    · exact ⟨htimers, hfired, h.held, h.queued⟩
    · have hi' : ClaimInv { s with
          w := { s.w with timers := s.w.timers.eraseIdx i }
          fired := τ.ticket :: s.fired } := { hi.toClaimInv with }
      exact (hi'.handed hb wants).tracked htimers hfired hi.completed h.held
  | lower =>
    cases hs
    exact { h with }
  | elapse ms =>
    cases hs
    exact { h with }

/-- From a state where every lost claim is recovered from, a step leads to another exactly if it
is in time. -/
theorem recovered_step_iff {legs : Nat} {e : LaneEvent} (hi : s.Inv) (ht : s.Tracked)
    (hr : ∀ t, s.Recovered t) (hs : s.step legs e = some s') :
    (∀ t, s'.Recovered t) ↔ s.inTime e = true := by
  cases e with
  | ask =>
    cases hs
    rcases s.ask_cases with ⟨hb, d, he⟩ | ⟨hb, he⟩
    · rw [he]
      simp only [inTime, hb, Bool.false_and, Bool.not_false, iff_true]
      intro t hf hc
      exact ⟨fun _ => ⟨Nat.lt_succ_of_le (ht.fired t hf), rfl⟩, (hr t hf hc).2⟩
    · rw [he]
      simp only [inTime, hb, Bool.true_and, Bool.not_eq_true', List.contains_eq_mem,
        decide_eq_false_iff_not]
      constructor
      · -- The run just refused is queued behind the claim in force.
        intro h hf
        have := (h s.newest hf (ht.held (held_of_busy hb))).2 _ List.mem_cons_self rfl
        exact absurd this (Nat.lt_irrefl _)
      · intro hnf t hf hc
        refine ⟨(hr t hf hc).1, fun r hm hbt => ?_⟩
        rcases List.mem_cons.mp hm with rfl | hm
        · have hbt : s.newest = t := hbt
          exact absurd (hbt ▸ hf) hnf
        · exact (hr t hf hc).2 r hm hbt
  | complete i wants =>
    simp only [inTime, iff_true]
    obtain ⟨c, -, ⟨-, rfl⟩ | ⟨-, -, rfl⟩ | ⟨heq, -, rfl⟩⟩ := complete_cases hs
    · exact hr
    · exact hr
    · exact ((hi.toClaimInv.released heq (s.calls.eraseIdx i)).handed rfl wants).recovered ht.fired
  | lapse i wants =>
    obtain ⟨τ, hτ, ⟨hb, rfl⟩ | ⟨hb, rfl⟩⟩ := lapse_cases hs
    · have hle : τ.ticket ≤ s.newest := ht.timers τ (List.mem_of_getElem? hτ)
      simp only [inTime, hτ, hb, Bool.true_and, Bool.not_eq_true', Bool.or_eq_false_iff,
        Bool.and_eq_false_iff, beq_eq_false_iff_ne]
      constructor
      · intro h
        constructor
        · by_cases heq : τ.ticket = s.newest
          · refine .inr (Bool.eq_false_iff.mpr fun hl => ?_)
            have hc : τ.ticket ∉ s.completed := heq ▸ ht.held (held_of_busy hb)
            have := ((h τ.ticket List.mem_cons_self hc).1 hl).1
            exact absurd heq (Nat.ne_of_lt this)
          · exact .inl heq
        · refine Bool.eq_false_iff.mpr fun hw => ?_
          obtain ⟨r, hm, hbt, hrr⟩ := (awaits_iff _).mp hw
          have hc : τ.ticket ∉ s.completed := hbt ▸ ht.queued r hm hrr
          have : r.reruns < s.reruns := (h τ.ticket List.mem_cons_self hc).2 r hm hbt
          omega
      · rintro ⟨hown, hq⟩ t hf hc
        rcases List.mem_cons.mp hf with rfl | hf
        · refine ⟨fun hl => ⟨Nat.lt_of_le_of_ne hle ?_, held_of_busy hb⟩, fun r hm hbt => ?_⟩
          · rcases hown with hne | hl'
            · exact hne
            · rw [hl'] at hl
              cases hl
          · refine Nat.lt_of_le_of_ne (hi.stamps r hm) fun hrr => ?_
            have hw : s.awaits τ.ticket = true := (awaits_iff _).mpr ⟨r, hm, hbt, hrr⟩
            rw [hq] at hw
            cases hw
        · exact hr t hf hc
    · simp only [inTime, hτ, hb, Bool.false_and, Bool.not_false, iff_true]
      have hi' : ClaimInv { s with
          w := { s.w with timers := s.w.timers.eraseIdx i }
          fired := τ.ticket :: s.fired } := { hi.toClaimInv with }
      refine (hi'.handed hb wants).recovered fun t hf => ?_
      rcases List.mem_cons.mp hf with rfl | hf
      · exact ht.timers τ (List.mem_of_getElem? hτ)
      · exact ht.fired t hf
  | lower =>
    cases hs
    simp only [inTime, iff_true]
    exact fun t hf hc => ⟨fun hl => (by cases hl), (hr t hf hc).2⟩
  | elapse ms =>
    cases hs
    simp only [inTime, iff_true]
    exact hr

theorem tracked_of_reach {legs budgetMs : Nat} (h : (laneSys legs budgetMs).Reach s) :
    s.Tracked := by
  refine h.induct ?_ fun _ _ _ hs ih _ he => ih.step (inv_of_reach hs) he
  rintro s rfl
  exact ⟨nofun, nofun, nofun, nofun⟩

theorem recovered_of_runs {legs budgetMs : Nat}
    (h : (laneSys legs budgetMs).Runs (fun s e => s.inTime e = true) s) :
    ∀ t, s.Recovered t := by
  refine Sys.Runs.induct (I := fun s : LaneRun => ∀ t, s.Recovered t) ?_
    (fun s e s' hs ih hc he => ?_) h
  · rintro s rfl t ⟨⟩
  · exact (recovered_step_iff (inv_of_reach hs.reach) (tracked_of_reach hs.reach) ih he).mpr hc

end LaneRun

/-! ## Bare claims -/

/-- A bare claim in its run: `completed` and `fired` record what has happened. -/
structure ClaimRun where
  w : WiredClaim := {}
  now : Nat := 0
  completed : List Nat := []
  fired : List Nat := []
  deriving DecidableEq, Inhabited

inductive ClaimEvent where
  /-- The guarded call is asked for. -/
  | begin
  /-- The call under a claim completes; it lowers the spinner or not. -/
  | complete (ticket : Nat) (lowers : Bool)
  | lapse (i : Nat)
  /-- The spinner is lowered from elsewhere. -/
  | lower
  | elapse (ms : Nat)
  deriving DecidableEq

namespace ClaimRun

variable (s : ClaimRun)

def newest : Nat := s.w.flight.ticket

def begin (legs callMs : Nat) : ClaimRun :=
  { s with w := (s.w.beginClaim s.now legs callMs).1 }

/-- The callback under a claim: it releases, and only the claim in force goes on. -/
def complete (ticket : Nat) (lowers : Bool) : ClaimRun :=
  let s := { s with w := s.w.release ticket }
  if s.w.isCurrent ticket then
    { s with
      w := { s.w with loading := s.w.loading && !lowers }, completed := ticket :: s.completed }
  else s

def lapse (i : Nat) : Option ClaimRun :=
  s.w.timers[i]?.map fun τ =>
    let s := { s with
      w := { s.w with timers := s.w.timers.eraseIdx i }, fired := τ.ticket :: s.fired }
    { s with w := s.w.lapse s.now }

def step (legs callMs : Nat) : ClaimEvent → Option ClaimRun
  | .begin => some (s.begin legs callMs)
  | .complete ticket lowers => some (s.complete ticket lowers)
  | .lapse i => s.lapse i
  | .lower => some { s with w := { s.w with loading := false } }
  | .elapse ms => some { s with now := s.now + ms }

def coarse : ClaimEvent → Bool
  | .lapse i => match s.w.timers[i]? with
    | some τ => τ.inWindow s.now
    | none => true
  | _ => true

/-- A call other than the newest is lost and its timer has fired. -/
def lost : Bool := s.fired.any fun t => t != s.newest && !s.completed.contains t

/-- No timer is spent while its own claim is live and has the spinner up; and no reply under the
claim in force leaves the spinner up over a lost call whose timer is spent. -/
def inTime : ClaimEvent → Bool
  | .complete ticket lowers => !(ticket == s.newest && s.w.loading && !lowers && s.lost)
  | .lapse i => match s.w.timers[i]? with
    | some τ => !(s.w.flight.busy s.now && τ.ticket == s.newest && s.w.loading)
    | none => true
  | _ => true

/-- Claim `t`, if its timer has fired and its callback has not: the spinner is down or a later
claim holds it. A bare claim has no queue. -/
def Recovered (t : Nat) : Prop :=
  t ∈ s.fired → t ∉ s.completed → s.w.loading = true → t < s.newest ∧ s.w.flight.held = true

end ClaimRun

/-- A bare claim that covers `legs` calls of `callMs`. -/
def claimSys (legs callMs : Nat) : Sys ClaimRun ClaimEvent where
  init s := s = {}
  step s e := s.step legs callMs e

namespace ClaimRun

/-- The timers are those of claims issued, and a held claim has not completed. -/
structure Tracked (s : ClaimRun) : Prop where
  timers : ∀ τ ∈ s.w.timers, τ.ticket ≤ s.newest
  fired : ∀ t ∈ s.fired, t ≤ s.newest
  completed : ∀ t ∈ s.completed, t ≤ s.newest
  held : s.w.flight.held = true → s.newest ∉ s.completed

variable {s s' : ClaimRun}

theorem lost_iff : s.lost = true ↔ ∃ t ∈ s.fired, t ≠ s.newest ∧ t ∉ s.completed := by
  simp [lost]

theorem held_of_busy (hb : s.w.flight.busy s.now = true) : s.w.flight.held = true := by
  simp only [InFlight.busy, Bool.and_eq_true] at hb
  exact hb.1

/-- A completion is stale, or ends the claim in force and lowers its spinner or not. -/
theorem complete_cases (s : ClaimRun) (ticket : Nat) (lowers : Bool) :
    (ticket ≠ s.newest ∧ s.complete ticket lowers = s) ∨
    (ticket = s.newest ∧ s.complete ticket lowers = { s with
      w := { s.w with
        flight := { s.w.flight with held := false }
        loading := s.w.loading && !lowers }
      completed := s.newest :: s.completed }) := by
  by_cases h : ticket = s.newest
  · subst h
    refine .inr ⟨rfl, ?_⟩
    simp only [complete, newest, s.w.release_self.1, WiredClaim.isCurrent, InFlight.isCurrent,
      beq_self_eq_true, ↓reduceIte]
  · obtain ⟨hr, hc⟩ := WiredClaim.release_of_ne (w := s.w) h
    refine .inl ⟨h, ?_⟩
    simp only [complete, hr, hc, Bool.false_eq_true, ↓reduceIte]

theorem begin_cases (s : ClaimRun) (legs callMs : Nat) :
    (s.begin legs callMs = s) ∨
    ∃ d, s.begin legs callMs = { s with w :=
      { flight := { held := true, ticket := s.newest + 1, deadline := d }
        loading := true
        timers := ⟨s.now, guardBudgetMs legs callMs + 1, s.newest + 1⟩ :: s.w.timers } } := by
  unfold begin
  rcases s.w.beginClaim_cases s.now legs callMs with ⟨-, hw⟩ | ⟨-, hw⟩
  · rw [hw]
    exact .inr ⟨_, rfl⟩
  · rw [hw]
    exact .inl rfl

theorem lapse_cases {i : Nat} (h : s.lapse i = some s') :
    ∃ τ, s.w.timers[i]? = some τ ∧
      ((s.w.flight.busy s.now = true ∧ s' = { s with
          w := { s.w with timers := s.w.timers.eraseIdx i }, fired := τ.ticket :: s.fired }) ∨
       (s.w.flight.busy s.now = false ∧ s' = { s with
          w := { s.w with timers := s.w.timers.eraseIdx i, loading := false }
          fired := τ.ticket :: s.fired })) := by
  rw [lapse, Option.map_eq_some_iff] at h
  obtain ⟨τ, hτ, rfl⟩ := h
  refine ⟨τ, hτ, ?_⟩
  cases hb : s.w.flight.busy s.now with
  | true => exact .inl ⟨rfl, by simp [WiredClaim.lapse, hb]⟩
  | false => exact .inr ⟨rfl, by simp [WiredClaim.lapse, hb]⟩

theorem Tracked.step {legs callMs : Nat} {e : ClaimEvent} (h : s.Tracked)
    (hs : s.step legs callMs e = some s') : s'.Tracked := by
  cases e with
  | begin =>
    cases hs
    rcases s.begin_cases legs callMs with he | ⟨d, he⟩
    · rw [he]
      exact h
    · rw [he]
      refine ⟨fun τ hτ => ?_, fun t ht => Nat.le_succ_of_le (h.fired t ht),
        fun t ht => Nat.le_succ_of_le (h.completed t ht), fun _ hm => ?_⟩
      · rcases List.mem_cons.mp hτ with rfl | hτ
        · exact Nat.le_refl _
        · exact Nat.le_succ_of_le (h.timers τ hτ)
      · exact absurd (h.completed _ hm) (Nat.not_succ_le_self _)
  | complete t lowers =>
    cases hs
    rcases s.complete_cases t lowers with ⟨-, he⟩ | ⟨-, he⟩
    · rw [he]
      exact h
    · rw [he]
      refine ⟨h.timers, h.fired, fun t ht => ?_, fun hh => by cases hh⟩
      rcases List.mem_cons.mp ht with rfl | ht
      · exact Nat.le_refl _
      · exact h.completed t ht
  | lapse i =>
    obtain ⟨τ, hτ, ⟨-, rfl⟩ | ⟨-, rfl⟩⟩ := lapse_cases hs
    all_goals
      refine ⟨fun τ' hτ' => h.timers τ' (List.mem_of_mem_eraseIdx hτ'), fun t ht => ?_,
        h.completed, h.held⟩
      rcases List.mem_cons.mp ht with rfl | ht
      · exact h.timers τ (List.mem_of_getElem? hτ)
      · exact h.fired t ht
  | lower =>
    cases hs
    exact { h with }
  | elapse ms =>
    cases hs
    exact { h with }

/-- From a state where every lost claim is recovered from, a step leads to another exactly if it
is in time. -/
theorem recovered_step_iff {legs callMs : Nat} {e : ClaimEvent} (ht : s.Tracked)
    (hr : ∀ t, s.Recovered t) (hs : s.step legs callMs e = some s') :
    (∀ t, s'.Recovered t) ↔ s.inTime e = true := by
  cases e with
  | begin =>
    cases hs
    simp only [inTime, iff_true]
    rcases s.begin_cases legs callMs with he | ⟨d, he⟩
    · rw [he]
      exact hr
    · rw [he]
      exact fun t hf _ _ => ⟨Nat.lt_succ_of_le (ht.fired t hf), rfl⟩
  | complete t lowers =>
    cases hs
    rcases s.complete_cases t lowers with ⟨hne, he⟩ | ⟨heq, he⟩
    · rw [he]
      simpa [inTime, hne] using hr
    · rw [he]
      simp only [inTime, heq, beq_self_eq_true, Bool.true_and, Bool.not_eq_true',
        Bool.eq_false_iff]
      constructor
      · -- The claim in force no longer holds the spinner that its reply has left up.
        intro h hup
        rw [Bool.and_eq_true] at hup
        obtain ⟨t', hf, hne, hc⟩ := lost_iff.mp hup.2
        have hc' : t' ∉ s.newest :: s.completed := fun hm =>
          (List.mem_cons.mp hm).elim hne hc
        cases (h t' hf hc' hup.1).2
      · intro h t' hf hc hl
        have hc : t' ∉ s.newest :: s.completed := hc
        obtain ⟨hne, hc⟩ := not_or.mp (mt List.mem_cons.mpr hc)
        have hlost : s.lost = true := lost_iff.mpr ⟨t', hf, hne, hc⟩
        exact absurd (Bool.and_eq_true_iff.mpr ⟨hl, hlost⟩) h
  | lapse i =>
    obtain ⟨τ, hτ, ⟨hb, rfl⟩ | ⟨hb, rfl⟩⟩ := lapse_cases hs
    · have hle : τ.ticket ≤ s.newest := ht.timers τ (List.mem_of_getElem? hτ)
      simp only [inTime, hτ, hb, Bool.true_and, Bool.not_eq_true', Bool.eq_false_iff, ne_eq,
        Bool.and_eq_true, beq_iff_eq, not_and]
      constructor
      · intro h heq hl
        have hc : τ.ticket ∉ s.completed := heq ▸ ht.held (held_of_busy hb)
        exact absurd heq (Nat.ne_of_lt (h τ.ticket List.mem_cons_self hc hl).1)
      · intro h t hf hc hl
        rcases List.mem_cons.mp hf with rfl | hf
        · exact ⟨Nat.lt_of_le_of_ne hle fun heq => h heq hl, held_of_busy hb⟩
        · exact hr t hf hc hl
    · simp only [inTime, hτ, hb, Bool.false_and, Bool.not_false, iff_true]
      intro t _ _ hl
      cases hl
  | lower =>
    cases hs
    simp only [inTime, iff_true]
    intro t _ _ hl
    cases hl
  | elapse ms =>
    cases hs
    simp only [inTime, iff_true]
    exact hr

theorem tracked_of_reach {legs callMs : Nat} (h : (claimSys legs callMs).Reach s) :
    s.Tracked := by
  refine h.induct ?_ fun _ _ _ _ ih _ he => ih.step he
  rintro s rfl
  exact ⟨nofun, nofun, nofun, nofun⟩

theorem recovered_of_runs {legs callMs : Nat}
    (h : (claimSys legs callMs).Runs (fun s e => s.inTime e = true) s) :
    ∀ t, s.Recovered t := by
  refine Sys.Runs.induct (I := fun s : ClaimRun => ∀ t, s.Recovered t) ?_
    (fun s e s' hs ih hc he => ?_) h
  · rintro s rfl t ⟨⟩
  · exact (recovered_step_iff (tracked_of_reach hs.reach) ih he).mpr hc

end ClaimRun

/-! ## Recovery -/

/-- Every lost callback is recovered from, on every lane and every bare claim, exactly as long as
every step is in time. -/
theorem lapse_recovers_iff (legs budgetMs callMs : Nat) :
    (∀ s, (laneSys legs budgetMs).Runs (fun s e => s.inTime e = true) s →
      (∀ t, s.Recovered t) ∧
      ∀ e s', s.step legs e = some s' → ((∀ t, s'.Recovered t) ↔ s.inTime e = true)) ∧
    (∀ s, (claimSys legs callMs).Runs (fun s e => s.inTime e = true) s →
      (∀ t, s.Recovered t) ∧
      ∀ e s', s.step legs callMs e = some s' →
        ((∀ t, s'.Recovered t) ↔ s.inTime e = true)) := by
  constructor
  · intro s h
    have hr := LaneRun.recovered_of_runs h
    exact ⟨hr, fun _ _ => LaneRun.recovered_step_iff (LaneRun.inv_of_reach h.reach)
      (LaneRun.tracked_of_reach h.reach) hr⟩
  · intro s h
    have hr := ClaimRun.recovered_of_runs h
    exact ⟨hr, fun _ _ => ClaimRun.recovered_step_iff (ClaimRun.tracked_of_reach h.reach) hr⟩

/-- The data lane as it is wired, idle. -/
def idleDataLane : LaneRun := { w := { lane := { budgetMs := kTwoCallBudgetMs } } }

/-- A read is lost with another one queued behind it, and its timer fires on time. -/
def lostRead : List LaneEvent := [.ask, .elapse 100, .ask, .elapse 40901, .lapse 0 true]

/-- The same timer, 2049 ms early. -/
def lostReadEarly : List LaneEvent := [.ask, .elapse 100, .ask, .elapse 38852, .lapse 0 true]

/-- The same timer, 49 ms late: a fresh read has taken the expired lane. -/
def lostReadTaken : List LaneEvent :=
  [.ask, .elapse 100, .ask, .elapse 40950, .ask, .lapse 1 true]

example :
    let s := ((laneSys 2 kTwoCallBudgetMs).exec idleDataLane lostReadTaken).getD default
    s.fired = [1] ∧ s.refusals = [⟨1, 1, 0⟩] ∧ s.reruns = 0 ∧ s.w.lane.again = true := by
  decide

theorem lapse_recovers_iff_read :
    (((laneSys 2 kTwoCallBudgetMs).exec idleDataLane lostRead).getD default).Recovered 1 ∧
    (((laneSys 2 kTwoCallBudgetMs).exec idleDataLane lostRead).getD default).reruns = 1 ∧
    (((claimSys 1 kSendCallBudgetMs).exec {}
      [.begin, .elapse 131001, .lapse 0]).getD default).Recovered 1 :=
  ⟨((lapse_recovers_iff 2 kTwoCallBudgetMs kSendCallBudgetMs).1 _
      (Sys.Runs.exec (.init rfl) lostRead (by decide) (by decide))).1 1,
    by decide,
    ((lapse_recovers_iff 1 kTwoCallBudgetMs kSendCallBudgetMs).2 _
      (Sys.Runs.exec (.init rfl) [.begin, .elapse 131001, .lapse 0] (by decide)
        (by decide))).1 1⟩

/-- A timer that fires within its window may fire before the deadline it is to recover from: the
spinner stays up over the lost call and the read queued behind it is never started. -/
theorem lapse_early :
    ¬((∀ legs budgetMs s, (laneSys legs budgetMs).Runs (fun s e => s.coarse e = true) s →
        ∀ t, s.Recovered t) ∧
      (∀ legs callMs s, (claimSys legs callMs).Runs (fun s e => s.coarse e = true) s →
        ∀ t, s.Recovered t)) := by
  rintro ⟨h, -⟩
  have hrun := h 2 kTwoCallBudgetMs
    (((laneSys 2 kTwoCallBudgetMs).exec idleDataLane lostReadEarly).getD default)
    (Sys.Runs.exec (.init rfl) lostReadEarly (by decide) (by decide)) 1
    (by decide) (by decide)
  exact absurd (hrun.1 (by decide)).1 (by decide)

end EthWalletUi
