import Mathlib

/-!
# Claims that expire, and the guarded lane (`eth_wallet_ui_guard.h`)

An asynchronous call is guarded by a claim (`InFlight`): a held flag, a ticket that numbers the
claims, and a deadline. A lane (`AsyncLane`) is a claim with a one-place queue behind it. Time is
in milliseconds; `QDeadlineTimer` has expired at its deadline.

A lane or a bare claim as the backend wires it (`WiredLane`, `WiredClaim`) adds the spinner it
raises and the lapse timers it has armed: `beginLane`, `handOnLane` and `beginClaim` of
`eth_wallet_ui_backend.cpp`. What running the queued re-run means is left to the lane's owner, so
`handOnLane` answers which of its two steps is due. The ticket in a `LapseTimer` is for the
proofs: the timer's callback reads only the lane.
-/

namespace EthWalletUi

def kCallBudgetMs : Nat := 20000
def kSendCallBudgetMs : Nat := 130000
def kGuardSlackMs : Nat := 1000

/-- The budget of a claim that covers `legs` chained calls. -/
def guardBudgetMs (legs : Nat) (callMs : Nat := kCallBudgetMs) : Nat :=
  legs * callMs + kGuardSlackMs

def kOneCallBudgetMs : Nat := guardBudgetMs 1
def kTwoCallBudgetMs : Nat := guardBudgetMs 2
def kOneSendCallBudgetMs : Nat := guardBudgetMs 1 kSendCallBudgetMs

/-- A claim outlives the calls it covers. -/
theorem lt_guardBudgetMs (legs callMs : Nat) : legs * callMs < guardBudgetMs legs callMs := by
  unfold guardBudgetMs kGuardSlackMs
  omega

/-! ## Claims -/

/-- The ticket is a `quint64` in the source. Here it is a `Nat`: it goes up by one a claim, and no
run takes 2^64 of them. -/
structure InFlight where
  held : Bool := false
  ticket : Nat := 0
  deadline : Nat := 0
  deriving DecidableEq, Inhabited

namespace InFlight

variable (c : InFlight)

/-- A call taken out inside its budget has neither answered nor expired. -/
def busy (now : Nat) : Bool := c.held && now < c.deadline

/-- Take the slot, or refuse it while a claim is live. -/
def take (now budgetMs : Nat) : InFlight × Option Nat :=
  if c.busy now then (c, none)
  else ({ held := true, ticket := c.ticket + 1, deadline := now + budgetMs }, some (c.ticket + 1))

def release (ticket : Nat) : InFlight := if ticket = c.ticket then { c with held := false } else c

/-- `ticket` is still the claim in force. -/
def isCurrent (ticket : Nat) : Bool := ticket == c.ticket

theorem take_none {c c' : InFlight} {now budgetMs : Nat} (h : c.take now budgetMs = (c', none)) :
    c' = c ∧ c.busy now = true := by
  unfold take at h
  split at h
  · cases h; exact ⟨rfl, ‹_›⟩
  · cases h

theorem take_some {c c' : InFlight} {now budgetMs t : Nat}
    (h : c.take now budgetMs = (c', some t)) :
    c.busy now = false ∧ t = c.ticket + 1 ∧
      c' = { held := true, ticket := c.ticket + 1, deadline := now + budgetMs } := by
  unfold take at h
  split at h
  · cases h
  · rename_i hb
    cases h
    exact ⟨by simpa using hb, rfl, rfl⟩

@[simp] theorem release_ticket (t : Nat) : (c.release t).ticket = c.ticket := by
  unfold release; split <;> rfl

@[simp] theorem release_deadline (t : Nat) : (c.release t).deadline = c.deadline := by
  unfold release; split <;> rfl

/-- An expired claim stays expired. -/
theorem busy_later {c : InFlight} {now : Nat} (h : c.busy now = false) (ms : Nat) :
    c.busy (now + ms) = false := by
  simp only [busy, Bool.and_eq_false_iff, decide_eq_false_iff_not] at h ⊢
  exact h.imp_right fun h => by omega

/-- A stale ticket frees nothing. -/
theorem release_of_ne {t : Nat} (h : t ≠ c.ticket) : c.release t = c := if_neg h

theorem release_self : c.release c.ticket = { c with held := false } := if_pos rfl

end InFlight

/-! ## Lanes -/

structure AsyncLane where
  flight : InFlight := {}
  /-- A re-run asked for while a call was live. -/
  again : Bool := false
  budgetMs : Nat := 0
  deriving DecidableEq, Inhabited

namespace AsyncLane

def owns (l : AsyncLane) (ticket : Nat) : Bool := l.flight.isCurrent ticket

def release (l : AsyncLane) (ticket : Nat) : AsyncLane :=
  { l with flight := l.flight.release ticket }

def busy (l : AsyncLane) (now : Nat) : Bool := l.flight.busy now

theorem busy_later {l : AsyncLane} {now : Nat} (h : l.busy now = false) (ms : Nat) :
    l.busy (now + ms) = false := InFlight.busy_later h ms

end AsyncLane

/-- Take the lane, or queue behind the live call. -/
def takeLane (l : AsyncLane) (now : Nat) : AsyncLane × Option Nat :=
  match l.flight.take now l.budgetMs with
  | (flight, some t) => ({ l with flight }, some t)
  | (_, none) => ({ l with again := true }, none)

/-- Handing the guard on means exactly one of two things. -/
inductive LaneStep where
  | idle
  | rerun
  deriving DecidableEq

/-- Drain the re-run queued behind a claim, if there is one. -/
def laneFinish (l : AsyncLane) : AsyncLane × LaneStep :=
  if l.again then ({ l with again := false }, .rerun) else (l, .idle)

/-! ## As the backend wires them -/

/-- A single-shot timer: armed at `armed` for `interval`, by the claim `ticket`. -/
structure LapseTimer where
  armed : Nat
  interval : Nat
  ticket : Nat
  deriving DecidableEq, Inhabited

structure WiredLane where
  lane : AsyncLane := {}
  loading : Bool := false
  timers : List LapseTimer := []
  deriving DecidableEq, Inhabited

namespace WiredLane

/-- Enter the lane: raise its spinner and arm the lapse timer. -/
def beginLane (w : WiredLane) (now : Nat) : WiredLane × Option Nat :=
  match takeLane w.lane now with
  | (lane, none) => ({ w with lane }, none)
  | (lane, some t) =>
    ({ lane, loading := true, timers := ⟨now, lane.budgetMs + 1, t⟩ :: w.timers }, some t)

/-- Hand the guard on: the queued re-run is due, or the spinner comes down. -/
def handOnLane (w : WiredLane) : WiredLane × LaneStep :=
  match laneFinish w.lane with
  | (lane, .rerun) => ({ w with lane }, .rerun)
  | (lane, .idle) => ({ w with lane, loading := false }, .idle)

def release (w : WiredLane) (ticket : Nat) : WiredLane :=
  { w with lane := w.lane.release ticket }

def owns (w : WiredLane) (ticket : Nat) : Bool := w.lane.owns ticket

theorem owns_iff {w : WiredLane} {ticket : Nat} :
    w.owns ticket = true ↔ ticket = w.lane.flight.ticket := by
  simp [owns, AsyncLane.owns, InFlight.isCurrent]

@[simp] theorem release_owns (w : WiredLane) (t ticket : Nat) :
    (w.release t).owns ticket = w.owns ticket := by
  simp [owns, release, AsyncLane.owns, AsyncLane.release, InFlight.isCurrent]

/-- A stale ticket frees nothing. -/
theorem release_of_not_owns {w : WiredLane} {ticket : Nat} (h : w.owns ticket = false) :
    w.release ticket = w := by
  have hne : ticket ≠ w.lane.flight.ticket := fun heq => by
    rw [owns_iff.mpr heq] at h
    cases h
  simp [release, AsyncLane.release, InFlight.release_of_ne _ hne]

theorem release_of_owns {w : WiredLane} {ticket : Nat} (h : w.owns ticket = true) :
    w.release ticket =
      { w with lane := { w.lane with flight := { w.lane.flight with held := false } } } := by
  rw [owns_iff.mp h]
  simp [release, AsyncLane.release, InFlight.release_self]

/-- What `beginLane` does: a grant is of a free lane and under a new ticket, a refusal queues. -/
theorem beginLane_cases (w : WiredLane) (now : Nat) :
    (w.lane.busy now = false ∧ w.beginLane now =
      ({ lane := { w.lane with flight :=
            { held := true, ticket := w.lane.flight.ticket + 1,
              deadline := now + w.lane.budgetMs } },
         loading := true,
         timers := ⟨now, w.lane.budgetMs + 1, w.lane.flight.ticket + 1⟩ :: w.timers },
        some (w.lane.flight.ticket + 1))) ∨
    (w.lane.busy now = true ∧
      w.beginLane now = ({ w with lane := { w.lane with again := true } }, none)) := by
  unfold beginLane takeLane
  cases h : w.lane.flight.take now w.lane.budgetMs with
  | mk c t =>
    cases t with
    | none =>
      obtain ⟨-, hb⟩ := InFlight.take_none h
      exact .inr ⟨hb, rfl⟩
    | some t =>
      obtain ⟨hb, rfl, rfl⟩ := InFlight.take_some h
      exact .inl ⟨hb, rfl⟩

/-- What `handOnLane` does. -/
theorem handOnLane_cases (w : WiredLane) :
    (w.lane.again = true ∧
      w.handOnLane = ({ w with lane := { w.lane with again := false } }, .rerun)) ∨
    (w.lane.again = false ∧ w.handOnLane = ({ w with loading := false }, .idle)) := by
  unfold handOnLane laneFinish
  cases h : w.lane.again
  · exact .inr ⟨rfl, by simp⟩
  · exact .inl ⟨rfl, by simp⟩

end WiredLane

/-- A bare claim and the spinner it drives. -/
structure WiredClaim where
  flight : InFlight := {}
  loading : Bool := false
  timers : List LapseTimer := []
  deriving DecidableEq, Inhabited

namespace WiredClaim

/-- Take a bare claim, raise its spinner and arm the lapse that lowers it. -/
def beginClaim (w : WiredClaim) (now : Nat) (legs : Nat := 1) (callMs : Nat := kCallBudgetMs) :
    WiredClaim × Option Nat :=
  match w.flight.take now (guardBudgetMs legs callMs) with
  | (_, none) => (w, none)
  | (flight, some t) =>
    ({ flight, loading := true,
       timers := ⟨now, guardBudgetMs legs callMs + 1, t⟩ :: w.timers }, some t)

/-- The lapse timer's callback. -/
def lapse (w : WiredClaim) (now : Nat) : WiredClaim :=
  if w.flight.busy now then w else { w with loading := false }

def release (w : WiredClaim) (ticket : Nat) : WiredClaim :=
  { w with flight := w.flight.release ticket }

def isCurrent (w : WiredClaim) (ticket : Nat) : Bool := w.flight.isCurrent ticket

theorem release_of_ne {w : WiredClaim} {ticket : Nat} (h : ticket ≠ w.flight.ticket) :
    w.release ticket = w ∧ w.isCurrent ticket = false := by
  simp [release, isCurrent, InFlight.isCurrent, InFlight.release_of_ne _ h, h]

theorem release_self (w : WiredClaim) :
    w.release w.flight.ticket = { w with flight := { w.flight with held := false } } ∧
      w.isCurrent w.flight.ticket = true := by
  simp [release, isCurrent, InFlight.isCurrent, InFlight.release_self]

theorem isCurrent_iff {w : WiredClaim} {ticket : Nat} :
    w.isCurrent ticket = true ↔ ticket = w.flight.ticket := by
  simp [isCurrent, InFlight.isCurrent]

/-- A release leaves the claim in force. -/
theorem release_isCurrent (w : WiredClaim) (t ticket : Nat) :
    (w.release t).isCurrent ticket = w.isCurrent ticket := by
  simp [isCurrent, release, InFlight.isCurrent]

/-- What `beginClaim` does: a grant is of a free claim and under a new ticket. -/
theorem beginClaim_cases (w : WiredClaim) (now legs callMs : Nat) :
    (w.flight.busy now = false ∧ w.beginClaim now legs callMs =
      ({ flight := { held := true, ticket := w.flight.ticket + 1,
                     deadline := now + guardBudgetMs legs callMs },
         loading := true,
         timers := ⟨now, guardBudgetMs legs callMs + 1, w.flight.ticket + 1⟩ :: w.timers },
        some (w.flight.ticket + 1))) ∨
    (w.flight.busy now = true ∧ w.beginClaim now legs callMs = (w, none)) := by
  unfold beginClaim
  cases h : w.flight.take now (guardBudgetMs legs callMs) with
  | mk c t =>
    cases t with
    | none => exact .inr ⟨(InFlight.take_none h).2, rfl⟩
    | some t =>
      obtain ⟨hb, rfl, rfl⟩ := InFlight.take_some h
      exact .inl ⟨hb, rfl⟩

end WiredClaim

end EthWalletUi
