import Mathlib

/-!
# A reader behind a feed

A writer appends updates to a feed, and a reader takes them in order, later. Nothing the writer does
after an update changes how the updates before it will be read, so what the reader will come to is
settled by its state and by the updates it has not read. It names nothing of what it is used for.

* `Leads stay done K r us`: reading `us` from `r`, every reading either is the one waited for
  (`done`), after which nothing is promised, or lets the reader `stay` with it; a reader that has
  read all of `us` waiting satisfies `K`.
* `Leads.append`: what the writer adds is read from a state that satisfies `K`.
* `Leads.replay`: a part of the reader's state that the feed alone writes.
-/

namespace Machine

variable {ρ υ : Type} (read : ρ → υ → ρ) (stay done : ρ → υ → Prop)

def Leads (K : ρ → Prop) : ρ → List υ → Prop
  | r, [] => K r
  | r, u :: us => done r u ∨ stay r u ∧ Leads K (read r u) us

namespace Leads

variable {read stay done} {K K' : ρ → Prop} {r : ρ} {us vs : List υ}

/-- What is known to be done may grow, and what holds at the end may weaken. -/
theorem mono {done' : ρ → υ → Prop} (hd : ∀ r u, done r u → done' r u) (hK : ∀ r, K r → K' r)
    (h : Leads read stay done K r us) : Leads read stay done' K' r us := by
  induction us generalizing r with
  | nil => exact hK r h
  | cons u us ih =>
    rcases h with h | ⟨hs, h⟩
    · exact .inl (hd r u h)
    · exact .inr ⟨hs, ih h⟩

theorem append (h : Leads read stay done K r us)
    (hv : ∀ r, K r → Leads read stay done K' r vs) : Leads read stay done K' r (us ++ vs) := by
  induction us generalizing r with
  | nil => exact hv r h
  | cons u us ih =>
    rcases h with h | ⟨hs, h⟩
    · exact .inl h
    · exact .inr ⟨hs, ih h⟩

/-- A part of the reader's state that is written by the updates alone. -/
theorem replay {π : Type} {part : ρ → π} {write : π → υ → π}
    (hw : ∀ r u, part (read r u) = write (part r) u) (h : Leads read stay done K r us) :
    Leads read stay done (fun r' => K r' ∧ part r' = us.foldl write (part r)) r us := by
  induction us generalizing r with
  | nil => exact ⟨h, rfl⟩
  | cons u us ih =>
    rcases h with h | ⟨hs, h⟩
    · exact .inl h
    · refine .inr ⟨hs, ?_⟩
      rw [List.foldl_cons, ← hw r u]
      exact ih h

/-- A reader whom every update lets stay, or is the one waited for. -/
theorem of_forall (hr : K r)
    (hu : ∀ r, K r → ∀ u ∈ us, done r u ∨ stay r u ∧ K (read r u)) :
    Leads read stay done K r us := by
  induction us generalizing r with
  | nil => exact hr
  | cons u us ih =>
    rcases hu r hr u (List.mem_cons_self ..) with h | ⟨hs, h⟩
    · exact .inl h
    · exact .inr ⟨hs, ih h fun r hr v hv => hu r hr v (List.mem_cons_of_mem _ hv)⟩

end Leads

end Machine
