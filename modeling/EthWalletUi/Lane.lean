import EthWalletUi.Guard
import EthWalletUi.Machine.Sys

/-!
# The guarded lane protocol

One lane as the backend drives it, alone: `loadBalancesAndHistory` (two chained calls under one
claim) and `runQuote` (one call) differ in `legs` and in the budget only. Runs are asked for at any
time, each outstanding call completes at most once and at any time, the armed timers fire once and
at any time, and time passes. A re-run is started by running the lane's entry point again; whether
that gets as far as the lane (`wants`: an account is selected, the request describes a send) or
only lowers the spinner is the event's choice.

* `LaneRun.Inv`: the claim in force is the newest, and every older claim has completed or expired;
  the spinner is up only over a held claim; a re-run is queued exactly if a run was refused since
  the last re-run was started.
* `lane_protocol`: what follows for every run.
-/

namespace EthWalletUi

open Machine

/-- An outstanding call: leg `leg` of the chain under claim `ticket`. -/
structure LaneCall where
  ticket : Nat
  leg : Nat
  deriving DecidableEq, Inhabited

/-- A claim that was granted, and when it expires. -/
structure Grant where
  ticket : Nat
  deadline : Nat
  deriving DecidableEq, Inhabited

/-- A run refused because claim `behind` was live, stamped with how many runs had been begun, and
how many of them re-runs. -/
structure Refusal where
  behind : Nat
  begun : Nat
  reruns : Nat
  deriving DecidableEq, Inhabited

/-- A lane in its run. The grants, the completed claims, the refusals, the fired timers and the two
counters record what has happened: no step reads them. -/
structure LaneRun where
  w : WiredLane := {}
  now : Nat := 0
  calls : List LaneCall := []
  /-- The completions that applied their reply, newest first. -/
  payload : List LaneCall := []
  grants : List Grant := []
  completed : List Nat := []
  refusals : List Refusal := []
  fired : List Nat := []
  begun : Nat := 0
  reruns : Nat := 0
  deriving DecidableEq, Inhabited

inductive LaneEvent where
  /-- A run is asked for. -/
  | ask
  /-- Outstanding call `i` completes. -/
  | complete (i : Nat) (wants : Bool)
  /-- Armed timer `i` fires. -/
  | lapse (i : Nat) (wants : Bool)
  /-- A run that wants no call lowers the spinner. -/
  | lower
  | elapse (ms : Nat)
  deriving DecidableEq

namespace LaneRun

variable (s : LaneRun)

/-- The newest claim issued. -/
def newest : Nat := s.w.lane.flight.ticket

/-- Enter the lane, and issue the first call of the chain. -/
def ask : LaneRun :=
  match s.w.beginLane s.now with
  | (w, some t) => { s with
      w
      calls := s.calls ++ [⟨t, 0⟩]
      grants := ⟨t, w.lane.flight.deadline⟩ :: s.grants
      begun := s.begun + 1 }
  | (w, none) => { s with w, refusals := ⟨s.newest, s.begun, s.reruns⟩ :: s.refusals }

/-- Start the queued re-run. -/
def rerun (wants : Bool) : LaneRun :=
  let s := { s with reruns := s.reruns + 1 }
  if wants then s.ask else { s with w := { s.w with loading := false }, begun := s.begun + 1 }

def handOn (wants : Bool) : LaneRun :=
  match s.w.handOnLane with
  | (w, .rerun) => rerun { s with w } wants
  | (w, .idle) => { s with w }

/-- The callback of an outstanding call. Only the last of the chain releases and hands on. -/
def complete (legs i : Nat) (wants : Bool) : Option LaneRun :=
  s.calls[i]?.map fun c =>
    let s := { s with calls := s.calls.eraseIdx i }
    if c.leg + 1 < legs then
      if s.w.owns c.ticket then
        { s with payload := c :: s.payload, calls := s.calls ++ [⟨c.ticket, c.leg + 1⟩] }
      else s
    else
      let s := { s with w := s.w.release c.ticket }
      if s.w.owns c.ticket then
        handOn { s with payload := c :: s.payload, completed := c.ticket :: s.completed } wants
      else s

/-- The lapse timer's callback. -/
def lapse (i : Nat) (wants : Bool) : Option LaneRun :=
  s.w.timers[i]?.map fun τ =>
    let s := { s with
      w := { s.w with timers := s.w.timers.eraseIdx i }, fired := τ.ticket :: s.fired }
    if s.w.lane.busy s.now then s else s.handOn wants

def step (legs : Nat) : LaneEvent → Option LaneRun
  | .ask => some s.ask
  | .complete i wants => s.complete legs i wants
  | .lapse i wants => s.lapse i wants
  | .lower => some { s with w := { s.w with loading := false } }
  | .elapse ms => some { s with now := s.now + ms }

end LaneRun

/-- A lane of `legs` chained calls under one claim of `budgetMs`. -/
def laneSys (legs budgetMs : Nat) : Sys LaneRun LaneEvent where
  init s := s = { w := { lane := { budgetMs } } }
  step s e := s.step legs e

namespace LaneRun

/-! ## What each operation does -/

theorem ask_cases (s : LaneRun) :
    (s.w.lane.busy s.now = false ∧ ∃ d, s.ask = { s with
      w := { lane := { s.w.lane with flight :=
               { held := true, ticket := s.newest + 1, deadline := d } }
             loading := true
             timers := ⟨s.now, s.w.lane.budgetMs + 1, s.newest + 1⟩ :: s.w.timers }
      calls := s.calls ++ [⟨s.newest + 1, 0⟩]
      grants := ⟨s.newest + 1, d⟩ :: s.grants
      begun := s.begun + 1 }) ∨
    (s.w.lane.busy s.now = true ∧ s.ask = { s with
      w := { s.w with lane := { s.w.lane with again := true } }
      refusals := ⟨s.newest, s.begun, s.reruns⟩ :: s.refusals }) := by
  unfold ask
  rcases s.w.beginLane_cases s.now with ⟨hb, h⟩ | ⟨hb, h⟩
  · rw [h]
    exact .inl ⟨hb, _, rfl⟩
  · rw [h]
    exact .inr ⟨hb, rfl⟩

/-- The queue has been drained into a re-run that is about to start. -/
def drained (s : LaneRun) : LaneRun :=
  { s with
    w := { s.w with lane := { s.w.lane with again := false } }
    reruns := s.reruns + 1 }

/-- Handing on starts the queued re-run, which wants the lane or not, or lowers the spinner. -/
theorem handOn_cases (s : LaneRun) (wants : Bool) :
    (s.w.lane.again = true ∧ wants = true ∧ s.handOn wants = s.drained.ask) ∨
    (s.w.lane.again = true ∧ wants = false ∧ s.handOn wants = { s.drained with
      w := { s.drained.w with loading := false }, begun := s.begun + 1 }) ∨
    (s.w.lane.again = false ∧ s.handOn wants = { s with w := { s.w with loading := false } }) := by
  unfold handOn
  rcases s.w.handOnLane_cases with ⟨ha, h⟩ | ⟨ha, h⟩
  · rw [h]
    cases wants with
    | true => exact .inl ⟨ha, rfl, rfl⟩
    | false => exact .inr (.inl ⟨ha, rfl, rfl⟩)
  · rw [h]
    exact .inr (.inr ⟨ha, rfl⟩)

/-- A completion is stale, or goes on to the next leg, or ends the claim in force. -/
theorem complete_cases {s s' : LaneRun} {legs i : Nat} {wants : Bool}
    (h : s.complete legs i wants = some s') : ∃ c, s.calls[i]? = some c ∧
      ((c.ticket ≠ s.newest ∧ s' = { s with calls := s.calls.eraseIdx i }) ∨
       (c.ticket = s.newest ∧ c.leg + 1 < legs ∧ s' = { s with
          payload := c :: s.payload
          calls := s.calls.eraseIdx i ++ [⟨c.ticket, c.leg + 1⟩] }) ∨
       (c.ticket = s.newest ∧ legs ≤ c.leg + 1 ∧ s' = handOn { s with
          calls := s.calls.eraseIdx i
          w := { s.w with lane := { s.w.lane with
            flight := { s.w.lane.flight with held := false } } }
          payload := c :: s.payload
          completed := c.ticket :: s.completed } wants)) := by
  rw [complete, Option.map_eq_some_iff] at h
  obtain ⟨c, hc, h⟩ := h
  refine ⟨c, hc, ?_⟩
  simp only [WiredLane.release_owns] at h
  cases ho : s.w.owns c.ticket with
  | false =>
    have hne : c.ticket ≠ s.newest := fun heq => by
      rw [WiredLane.owns_iff.mpr heq] at ho
      cases ho
    refine .inl ⟨hne, ?_⟩
    simp only [ho, WiredLane.release_of_not_owns ho] at h
    rw [← h]
    split <;> rfl
  | true =>
    have heq : c.ticket = s.newest := WiredLane.owns_iff.mp ho
    simp only [ho, WiredLane.release_of_owns ho, ↓reduceIte] at h
    by_cases hl : c.leg + 1 < legs
    · rw [if_pos hl] at h
      exact .inr (.inl ⟨heq, hl, h.symm⟩)
    · rw [if_neg hl] at h
      exact .inr (.inr ⟨heq, Nat.le_of_not_lt hl, h.symm⟩)

theorem lapse_cases {s s' : LaneRun} {i : Nat} {wants : Bool} (h : s.lapse i wants = some s') :
    ∃ τ, s.w.timers[i]? = some τ ∧
      ((s.w.lane.busy s.now = true ∧ s' = { s with
          w := { s.w with timers := s.w.timers.eraseIdx i }, fired := τ.ticket :: s.fired }) ∨
       (s.w.lane.busy s.now = false ∧ s' = handOn { s with
          w := { s.w with timers := s.w.timers.eraseIdx i }
          fired := τ.ticket :: s.fired } wants)) := by
  rw [lapse, Option.map_eq_some_iff] at h
  obtain ⟨τ, hτ, h⟩ := h
  refine ⟨τ, hτ, ?_⟩
  cases hb : s.w.lane.busy s.now with
  | true => exact .inl ⟨rfl, by rw [← h]; simp [hb]⟩
  | false => exact .inr ⟨rfl, by rw [← h]; simp [hb]⟩

/-! ## The invariant -/

variable (s : LaneRun)

/-- A claim is live while it has neither completed nor expired. -/
def Live (g : Grant) : Prop := g.ticket ∉ s.completed ∧ s.now < g.deadline

/-- A run was refused and no re-run has been started since. -/
def Unserved : Prop := ∃ r ∈ s.refusals, r.reruns = s.reruns

/-- The claims and the queue. -/
structure ClaimInv : Prop where
  /-- The claim in force is the newest, and has the deadline it was granted. -/
  grants : ∀ g ∈ s.grants, 0 < g.ticket ∧ g.ticket ≤ s.newest ∧
    (g.ticket = s.newest → g.deadline = s.w.lane.flight.deadline)
  /-- Every older claim has completed or expired. -/
  older : ∀ g ∈ s.grants, g.ticket < s.newest → ¬s.Live g
  /-- The claim in force is held until it completes. -/
  held : s.w.lane.flight.held = false → s.newest = 0 ∨ s.newest ∈ s.completed
  completed : ∀ t ∈ s.completed, t ≤ s.newest
  queued : s.w.lane.again = true ↔ s.Unserved
  stamps : ∀ r ∈ s.refusals, r.reruns ≤ s.reruns

/-- Between steps the spinner is up only over a held claim. -/
structure Inv : Prop extends s.ClaimInv where
  spinner : s.w.loading = true → s.w.lane.flight.held = true

variable {s}

/-- A claim that is still live when the lane is free is not the one in force. -/
theorem ClaimInv.not_live (h : s.ClaimInv) (hb : s.w.lane.busy s.now = false) {g : Grant}
    (hg : g ∈ s.grants) : ¬s.Live g := by
  rintro ⟨hnc, hd⟩
  obtain ⟨hpos, hle, hdl⟩ := h.grants g hg
  rcases Nat.lt_or_eq_of_le hle with hlt | heq
  · exact h.older g hg hlt ⟨hnc, hd⟩
  · rw [hdl heq] at hd
    have hheld : s.w.lane.flight.held = false := by
      simpa [AsyncLane.busy, InFlight.busy, hd] using hb
    rcases h.held hheld with h0 | hc
    · omega
    · exact hnc (heq ▸ hc)

theorem ClaimInv.ask (h : s.ClaimInv) : s.ask.Inv := by
  rcases s.ask_cases with ⟨hb, d, he⟩ | ⟨hb, he⟩
  · rw [he]
    refine ⟨⟨?_, ?_, ?_, ?_, h.queued, h.stamps⟩, fun _ => rfl⟩
    · intro g hg
      rcases List.mem_cons.mp hg with rfl | hg
      · exact ⟨Nat.succ_pos _, Nat.le_refl _, fun _ => rfl⟩
      · obtain ⟨hpos, hle, -⟩ := h.grants g hg
        refine ⟨hpos, Nat.le_succ_of_le hle, fun heq => ?_⟩
        simp only [newest] at heq hle
        omega
    · intro g hg hlt
      rcases List.mem_cons.mp hg with rfl | hg
      · exact absurd hlt (Nat.lt_irrefl _)
      · exact h.not_live hb hg
    · rintro ⟨⟩
    · exact fun t ht => Nat.le_succ_of_le (h.completed t ht)
  · rw [he]
    have hheld : s.w.lane.flight.held = true := by
      simp only [AsyncLane.busy, InFlight.busy, Bool.and_eq_true] at hb
      exact hb.1
    refine ⟨⟨h.grants, h.older, h.held, h.completed, ?_, ?_⟩, fun _ => hheld⟩
    · exact ⟨fun _ => ⟨_, List.mem_cons_self, rfl⟩, fun _ => rfl⟩
    · intro r hr
      rcases List.mem_cons.mp hr with rfl | hr
      · exact Nat.le_refl _
      · exact h.stamps r hr

theorem ClaimInv.drained (h : s.ClaimInv) : s.drained.ClaimInv := by
  refine ⟨h.grants, h.older, h.held, h.completed, ?_, fun r hr => Nat.le_succ_of_le (h.stamps r hr)⟩
  constructor
  · rintro ⟨⟩
  · rintro ⟨r, hr, he⟩
    have hr : r.reruns ≤ s.reruns := h.stamps r hr
    have he : r.reruns = s.reruns + 1 := he
    omega

theorem ClaimInv.handOn (h : s.ClaimInv) (wants : Bool) : (s.handOn wants).Inv := by
  rcases s.handOn_cases wants with ⟨-, -, he⟩ | ⟨-, -, he⟩ | ⟨-, he⟩
  · rw [he]
    exact h.drained.ask
  · rw [he]
    exact ⟨{ h.drained with }, fun hl => by cases hl⟩
  · rw [he]
    exact ⟨{ h with }, fun hl => by cases hl⟩

/-- The completion of the claim in force releases it. -/
theorem ClaimInv.released (h : s.ClaimInv) {c : LaneCall} (heq : c.ticket = s.newest)
    (calls : List LaneCall) :
    ClaimInv { s with
      calls
      w := { s.w with lane := { s.w.lane with flight := { s.w.lane.flight with held := false } } }
      payload := c :: s.payload
      completed := c.ticket :: s.completed } := by
  refine ⟨h.grants, ?_, fun _ => .inr (heq ▸ List.mem_cons_self), ?_, h.queued, h.stamps⟩
  · rintro g hg hlt ⟨hnc, hd⟩
    exact h.older g hg hlt ⟨fun hm => hnc (List.mem_cons_of_mem _ hm), hd⟩
  · intro t ht
    rcases List.mem_cons.mp ht with rfl | ht
    · exact Nat.le_of_eq heq
    · exact h.completed t ht

theorem Inv.step {legs : Nat} {e : LaneEvent} {s' : LaneRun} (h : s.Inv)
    (hs : s.step legs e = some s') : s'.Inv := by
  cases e with
  | ask =>
    cases hs
    exact h.toClaimInv.ask
  | complete i wants =>
    obtain ⟨c, -, ⟨-, rfl⟩ | ⟨-, -, rfl⟩ | ⟨heq, -, rfl⟩⟩ := complete_cases hs
    · exact { h with }
    · exact { h with }
    · exact (h.toClaimInv.released heq _).handOn wants
  | lapse i wants =>
    obtain ⟨τ, -, ⟨-, rfl⟩ | ⟨-, rfl⟩⟩ := lapse_cases hs
    · exact ⟨{ h.toClaimInv with }, h.spinner⟩
    · apply ClaimInv.handOn
      exact { h.toClaimInv with }
  | lower =>
    cases hs
    exact ⟨{ h.toClaimInv with }, fun hl => by cases hl⟩
  | elapse ms =>
    cases hs
    refine ⟨⟨h.grants, ?_, h.held, h.completed, h.queued, h.stamps⟩, h.spinner⟩
    rintro g hg hlt ⟨hnc, hd⟩
    exact h.older g hg hlt ⟨hnc, by simp only at hd; omega⟩

theorem inv_of_reach {legs budgetMs : Nat} {s : LaneRun} (h : (laneSys legs budgetMs).Reach s) :
    s.Inv := by
  refine h.induct ?_ fun _ _ _ _ ih _ he => ih.step he
  rintro s rfl
  exact ⟨⟨nofun, nofun, fun _ => .inl rfl, nofun, ⟨nofun, fun ⟨_, hr, _⟩ => nomatch hr⟩, nofun⟩,
    nofun⟩

/-! ## The protocol -/

/-- What a completion of the claim in force does with the guard: it starts one re-run if a run was
refused since the last one, and that re-run gets the lane; else it starts none, and the spinner
comes down. -/
structure HandsOn (s s' : LaneRun) (wants : Bool) : Prop where
  rerun : s.Unserved → s'.reruns = s.reruns + 1 ∧ ¬s'.Unserved ∧
    (wants = true → ∃ d, s'.grants = ⟨s.newest + 1, d⟩ :: s.grants ∧ s'.newest = s.newest + 1 ∧
      s'.w.lane.flight.held = true ∧ s'.w.loading = true ∧ s'.refusals = s.refusals)
  idle : ¬s.Unserved → s'.reruns = s.reruns ∧ s'.grants = s.grants ∧ s'.refusals = s.refusals ∧
    s'.w.loading = false

/-- The guarded lane protocol, at one state. -/
structure Protocol (legs : Nat) (s : LaneRun) : Prop where
  /-- At most one claim is live, and its ticket is the newest issued. -/
  oneLive : ∀ g ∈ s.grants, s.Live g → g.ticket = s.newest ∧
    (∀ g' ∈ s.grants, g'.ticket ≤ g.ticket) ∧ ∀ g' ∈ s.grants, s.Live g' → g' = g
  /-- A completion whose ticket is not the newest changes nothing. -/
  stale : ∀ i c wants, s.calls[i]? = some c → c.ticket ≠ s.newest →
    s.step legs (.complete i wants) = some { s with calls := s.calls.eraseIdx i }
  /-- A refused run stays queued until a re-run is started. -/
  queued : s.w.lane.again = true ↔ s.Unserved
  /-- The completion of the claim in force hands the guard on. -/
  handsOn : ∀ i c wants s', s.calls[i]? = some c → c.ticket = s.newest → legs ≤ c.leg + 1 →
    s.step legs (.complete i wants) = some s' → HandsOn s s' wants

variable {s : LaneRun}

theorem Inv.live_eq (h : s.Inv) {g : Grant} (hg : g ∈ s.grants) (hl : s.Live g) :
    g.ticket = s.newest ∧ g.deadline = s.w.lane.flight.deadline := by
  obtain ⟨-, hle, hdl⟩ := h.grants g hg
  have heq : g.ticket = s.newest :=
    Nat.le_antisymm hle (Nat.le_of_not_lt fun hlt => h.older g hg hlt hl)
  exact ⟨heq, hdl heq⟩

/-- After a release the lane is free, so the re-run gets it. -/
theorem handOn_handsOn (h : s.ClaimInv) (hfree : s.w.lane.flight.held = false) (wants : Bool) :
    HandsOn s (s.handOn wants) wants := by
  have hinv := h.handOn wants
  rcases s.handOn_cases wants with ⟨ha, -, he⟩ | ⟨ha, rfl, he⟩ | ⟨ha, he⟩
  · have hu : s.Unserved := h.queued.mp ha
    rcases ask_cases s.drained with ⟨-, d, hask⟩ | ⟨hb, -⟩
    · rw [he, hask] at hinv ⊢
      refine ⟨fun _ => ⟨rfl, fun hu' => ?_, fun _ => ⟨d, rfl, rfl, rfl, rfl, rfl⟩⟩,
        fun hn => absurd hu hn⟩
      cases hinv.queued.mpr hu'
    · -- A released lane is not busy.
      have : s.drained.w.lane.busy s.drained.now = false := by
        simp [AsyncLane.busy, InFlight.busy, LaneRun.drained, hfree]
      rw [this] at hb
      cases hb
  · have hu : s.Unserved := h.queued.mp ha
    rw [he] at hinv ⊢
    refine ⟨fun _ => ⟨rfl, fun hu' => ?_, fun hw => absurd hw Bool.false_ne_true⟩,
      fun hn => absurd hu hn⟩
    cases hinv.queued.mpr hu'
  · have hu : ¬s.Unserved := fun hu => by
      rw [h.queued.mpr hu] at ha
      cases ha
    rw [he]
    exact ⟨fun h' => absurd h' hu, fun _ => ⟨rfl, rfl, rfl, rfl⟩⟩

end LaneRun

/-- The guarded lane protocol holds in every state of every run of a lane. -/
theorem lane_protocol (legs budgetMs : Nat) (s : LaneRun)
    (h : (laneSys legs budgetMs).Reach s) : s.Protocol legs := by
  have hi := LaneRun.inv_of_reach h
  constructor
  case oneLive =>
    intro g hg hl
    obtain ⟨ht, hd⟩ := hi.live_eq hg hl
    refine ⟨ht, fun g' hg' => ht ▸ (hi.grants g' hg').2.1, fun g' hg' hl' => ?_⟩
    obtain ⟨ht', hd'⟩ := hi.live_eq hg' hl'
    cases g
    cases g'
    simp_all
  case stale =>
    intro i c wants hc hne
    cases hs : s.step legs (.complete i wants) with
    | none =>
      simp [LaneRun.step, LaneRun.complete, hc] at hs
    | some s' =>
      obtain ⟨c', hc', hcase⟩ := LaneRun.complete_cases hs
      cases hc.symm.trans hc'
      obtain ⟨-, rfl⟩ | ⟨heq, -⟩ | ⟨heq, -⟩ := hcase
      · rfl
      · exact absurd heq hne
      · exact absurd heq hne
  case queued => exact hi.queued
  case handsOn =>
    intro i c wants s' hc heq hlast hs
    obtain ⟨c', hc', hcase⟩ := LaneRun.complete_cases hs
    cases hc.symm.trans hc'
    obtain ⟨hne, -⟩ | ⟨-, hlt, -⟩ | ⟨-, -, rfl⟩ := hcase
    · exact absurd heq hne
    · omega
    · have hh := LaneRun.handOn_handsOn
        (hi.toClaimInv.released heq (s.calls.eraseIdx i)) rfl wants
      exact ⟨hh.rerun, hh.idle⟩

/-- The data lane: a read is asked for twice, and the first one's balances have landed. -/
def dataLaneRead : LaneRun :=
  ((laneSys 2 kTwoCallBudgetMs).exec { w := { lane := { budgetMs := kTwoCallBudgetMs } } }
    [.ask, .elapse 500, .ask, .complete 0 true]).getD default

theorem lane_protocol_read : dataLaneRead.refusals ≠ [] ∧ dataLaneRead.Protocol 2 :=
  ⟨by decide, lane_protocol 2 kTwoCallBudgetMs dataLaneRead
    (Sys.Reach.exec (.init rfl)
      [.ask, .elapse 500, .ask, .complete 0 true] (by decide))⟩

end EthWalletUi
