import Mathlib

/-!
# Systems that step on events, and their runs

A system has initial states and a partial step: the event that is not possible in a state has no
next state. It names nothing of what it is used for.

* `Sys.Runs C`: the states of the runs whose every step meets the condition `C`; `Sys.Reach` sets
  no condition.
* `Runs.induct`: a property that holds initially and that every step keeps holds in every state of
  every run. The step may use what is already known of the states it leaves.
* `Sys.exec`, `Sys.Meets`: one run given by its events, to be evaluated.
* `Sys.marked`: how many steps of a run are marked. A measure that every marked step spends bounds
  it (`marked_le`); what only a marked step can end holds until one comes (`marked_or`).
-/

namespace Machine

structure Sys (σ ε : Type) where
  init : σ → Prop
  step : σ → ε → Option σ

namespace Sys

variable {σ ε : Type} (S : Sys σ ε)

/-- The states of the runs whose every step meets `C`. -/
inductive Runs (C : σ → ε → Prop) : σ → Prop
  | init {s : σ} : S.init s → Runs C s
  | step {s s' : σ} (e : ε) : Runs C s → C s e → S.step s e = some s' → Runs C s'

/-- The states that a run reaches. -/
abbrev Reach : σ → Prop := S.Runs fun _ _ => True

variable {S} {C : σ → ε → Prop}

theorem Runs.induct {I : σ → Prop} (hinit : ∀ s, S.init s → I s)
    (hstep : ∀ s e s', S.Runs C s → I s → C s e → S.step s e = some s' → I s') {s : σ}
    (h : S.Runs C s) : I s := by
  induction h with
  | init hi => exact hinit _ hi
  | step e hs hc he ih => exact hstep _ e _ hs ih hc he

/-- A run that meets a stronger condition meets a weaker one. -/
theorem Runs.mono {C' : σ → ε → Prop} (hC : ∀ s e, C s e → C' s e) {s : σ} (h : S.Runs C s) :
    S.Runs C' s :=
  h.induct (fun _ hi => .init hi) fun _ e _ _ ih hc he => .step e ih (hC _ e hc) he

theorem Runs.reach {s : σ} (h : S.Runs C s) : S.Reach s := h.mono fun _ _ _ => trivial

variable (S)

/-- The state after the events, if each of them is possible. -/
def exec (s : σ) : List ε → Option σ
  | [] => some s
  | e :: es => (S.step s e).bind fun s' => exec s' es

/-- Every step of the run that `es` gives from `s` meets `C`. -/
def Meets (C : σ → ε → Prop) (s : σ) : List ε → Prop
  | [] => True
  | e :: es => C s e ∧ match S.step s e with
    | some s' => Meets C s' es
    | none => True

instance Meets.decidable [∀ s e, Decidable (C s e)] : ∀ (s : σ) (es : List ε),
    Decidable (S.Meets C s es)
  | _, [] => instDecidableTrue
  | s, e :: es => @instDecidableAnd _ _ _ (match S.step s e with
    | some s' => Meets.decidable s' es
    | none => instDecidableTrue)

variable {S}

theorem Runs.exec {s : σ} (hs : S.Runs C s) (es : List ε) (hm : S.Meets C s es) {s' : σ}
    (h : S.exec s es = some s') : S.Runs C s' := by
  induction es generalizing s with
  | nil =>
    cases h
    exact hs
  | cons e es ih =>
    rw [Sys.exec] at h
    cases he : S.step s e with
    | none =>
      rw [he] at h
      cases h
    | some s₁ =>
      rw [he] at h
      unfold Meets at hm
      rw [he] at hm
      exact ih (.step e hs hm.1 he) hm.2 h

theorem Reach.exec {s : σ} (hs : S.Reach s) (es : List ε) {s' : σ}
    (h : S.exec s es = some s') : S.Reach s' := by
  induction es generalizing s with
  | nil =>
    cases h
    exact hs
  | cons e es ih =>
    rw [Sys.exec] at h
    cases he : S.step s e with
    | none =>
      rw [he] at h
      cases h
    | some s₁ =>
      rw [he] at h
      exact ih (.step e hs trivial he) h

/-! ## Marked steps -/

variable (S) in
/-- The steps of the run that `es` gives from `s` that `mark` marks. -/
def marked (mark : σ → ε → Bool) (s : σ) : List ε → Nat
  | [] => 0
  | e :: es => (mark s e).toNat + match S.step s e with
    | some s' => marked mark s' es
    | none => 0

variable {mark : σ → ε → Bool}

theorem marked_cons {s s' : σ} {e : ε} (he : S.step s e = some s') (es : List ε) :
    S.marked mark s (e :: es) = (mark s e).toNat + S.marked mark s' es := by
  rw [marked, he]

theorem marked_le {Φ : σ → Nat}
    (hstep : ∀ s e s', C s e → S.step s e = some s' → Φ s' + (mark s e).toNat ≤ Φ s) {s s' : σ}
    {es : List ε} (hm : S.Meets C s es) (h : S.exec s es = some s') :
    S.marked mark s es + Φ s' ≤ Φ s := by
  induction es generalizing s with
  | nil =>
    cases h
    simp [marked]
  | cons e es ih =>
    obtain ⟨s₁, he, hes⟩ := Option.bind_eq_some_iff.mp h
    unfold Meets at hm
    rw [he] at hm
    have hfirst := hstep s e s₁ hm.1 he
    have hrest := ih hm.2 hes
    rw [marked_cons he]
    omega

theorem marked_or {P : σ → Prop}
    (hstep : ∀ s e s', P s → S.step s e = some s' → mark s e = true ∨ P s') {s s' : σ}
    {es : List ε} (hs : P s) (h : S.exec s es = some s') : 0 < S.marked mark s es ∨ P s' := by
  induction es generalizing s with
  | nil =>
    cases h
    exact .inr hs
  | cons e es ih =>
    obtain ⟨s₁, he, hes⟩ := Option.bind_eq_some_iff.mp h
    rw [marked_cons he]
    rcases hstep s e s₁ hs he with hmark | hs₁
    · rw [hmark, Bool.toNat_true]
      exact .inl (by omega)
    · rcases ih hs₁ hes with hpos | hP
      · exact .inl (by omega)
      · exact .inr hP

end Sys

end Machine
