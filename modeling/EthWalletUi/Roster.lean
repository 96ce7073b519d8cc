import EthWalletUi.Backend.Course

/-!
# The selected account and the roster

A refresh publishes the roster it has read, then reads the address book, and selects another account
only after that if the one selected has left.

* `State.accountListed_iff`: the account is one of the roster's in every state of a run as long as
  no refresh publishes a roster that it has left, and is not in the state after one that does.
* `State.account_left`: the account has left the keystore, and is selected while the address book is
  being read.
-/

namespace EthWalletUi

open Qt Machine

namespace Course

variable (k : Course)

/-- No account is selected, or one of the roster. -/
def accountListed : Bool := k.selectedAccount.isEmpty || rosterHas k.accountsJson k.selectedAccount

theorem refresh_accountListed (after : After) :
    (k.refresh after).accountListed = k.accountListed := by
  unfold refresh
  split <;> rfl

theorem land_accountListed : k.land.accountListed = k.accountListed := by
  unfold land
  split <;> rfl

end Course

namespace State

variable (s : State)

/-- No account is selected, or one of the roster. -/
def accountListed : Bool :=
  s.core.published.selectedAccount.isEmpty ||
    rosterHas s.core.props.accountsJson s.core.published.selectedAccount

/-- The user picks an account of the roster. -/
def picksListed : Event → Bool
  | .slot (.selectAccount address) => rosterHas s.core.props.accountsJson address
  | _ => true

/-- The account is one of the roster that a refresh publishes. -/
def keepsAccount : Event → Bool
  | .returned _ => match s.core.stack with
    | .signerWallets accounts _ _ _ _ :: _ =>
      !replyOk accounts || s.core.published.selectedAccount.isEmpty ||
        rosterHas (member accounts "accounts") s.core.published.selectedAccount
    | _ => true
  | _ => true

variable {s} {s' : State} {e : Event}

theorem accountListed_step (hs : s.accountListed = true) (hp : s.picksListed e = true)
    (hk : s.keepsAccount e = true) (h : s.step e = some s') : s'.accountListed = true := by
  have hmove := s.step_course h
  have hcourse : s'.accountListed = s'.core.course.accountListed := rfl
  rw [hcourse]
  generalize s'.core.course = k at hmove
  cases hmove with
  | still | told => exact hs
  | account address => exact Bool.or_eq_true_iff.mpr (.inr hp)
  | cursor | called | due => exact (Course.refresh_accountListed _ _).trans hs
  | listed _ _ hl => cases hl <;> exact hs
  | read => exact hs
  | @roster reply accounts labels wallets names after stages hhead _ hok =>
    obtain ⟨stack, hstack⟩ := List.head?_eq_some_iff.mp hhead
    simp only [keepsAccount, hstack, hok, Bool.not_true, Bool.false_or] at hk
    exact hk
  | landed _ _ _ ha =>
    rw [Course.land_accountListed]
    rcases ha with rfl | rfl | ha
    · exact hs
    · rfl
    · exact Bool.or_eq_true_iff.mpr (.inr ha)

/-- A refresh publishes a roster that the account has left. -/
theorem keepsAccount_of_step (hs' : s'.accountListed = true) (h : s.step e = some s') :
    s.keepsAccount e = true := by
  cases e with
  | returned reply =>
    simp only [step] at h
    simp only [keepsAccount]
    split
    · rename_i accounts labels wallets names after stack hstack
      rw [hstack] at h
      cases h
      let t : State := (s.hear (.returned (.signerWallets accounts labels wallets names after)
        reply)).onCore fun c => { c with stack }
      rcases t.core.accountsListed_course accounts labels wallets names after reply with
        ⟨hok, -⟩ | ⟨-, hcourse⟩
      · rw [hok]
        rfl
      · have hlisted : (t.core.accountsListed accounts labels wallets names after
            reply).course.accountListed = true := hs'
        rw [hcourse] at hlisted
        rw [Bool.or_assoc]
        exact Bool.or_eq_true_iff.mpr (.inr hlisted)
    · rfl
  | _ => rfl

/-- In every run the account is one of the roster until a refresh publishes a roster that it has
left. -/
theorem accountListed_iff
    (h : backend.Runs (fun s e => s.picksListed e = true ∧ s.keepsAccount e = true) s) :
    s.accountListed = true ∧ ∀ e s', s.picksListed e = true → s.step e = some s' →
      (s'.accountListed = true ↔ s.keepsAccount e = true) := by
  have hs : s.accountListed = true := by
    refine h.induct (I := fun s => s.accountListed = true) ?_ ?_
    · rintro s rfl
      rfl
    · intro s e s' _ ih hc hs
      exact accountListed_step ih hc.1 hc.2 hs
  exact ⟨hs, fun e s' hp he => ⟨fun hs' => keepsAccount_of_step hs' he,
    fun hk => accountListed_step hs hp hk he⟩⟩

/-- The user goes to the second account, then refreshes. -/
def keptAccount : List Event :=
  [.slot .refresh, .returned (okReply [("networks", .arr [.obj [("chainId", .int 1)]])]),
   .returned (okReply [("tokens", .arr [])]),
   .returned (okReply [("accounts", .arr [.str "0xA", .str "0xB"])]),
   .returned .empty, .returned .empty, .returned .empty, .returned .empty,
   .slot (.selectAccount "0xb")]

theorem accountListed_iff_keptAccount :
    (State.after (opened ++ keptAccount)).accountListed = true := by
  obtain ⟨s, hs⟩ := Option.isSome_iff_exists.mp
    (show (backend.exec .ready (opened ++ keptAccount)).isSome = true by decide +kernel)
  have hinit : backend.Runs (fun s e => s.picksListed e = true ∧ s.keepsAccount e = true) .ready :=
    .init rfl
  have hruns := hinit.exec (opened ++ keptAccount) (by decide +kernel) hs
  rw [State.after, hs]
  exact (accountListed_iff hruns).1

/-- The account leaves the keystore while it is selected. -/
def accountLeaves : List Event :=
  [.slot .refresh, .returned (okReply [("networks", .arr [.obj [("chainId", .int 1)]])]),
   .returned (okReply [("tokens", .arr [])]), .returned (okReply [("accounts", .arr [.str "0xB"])]),
   .returned .empty, .returned .empty, .returned .empty, .returned .empty]

theorem account_left :
    ¬∀ s, backend.Runs (fun s e => s.picksListed e = true) s → s.accountListed = true := by
  intro h
  obtain ⟨s, hs⟩ := Option.isSome_iff_exists.mp
    (show (backend.exec .ready (opened ++ accountLeaves)).isSome = true by decide +kernel)
  have hinit : backend.Runs (fun s e => s.picksListed e = true) .ready := .init rfl
  have hruns := hinit.exec (opened ++ accountLeaves) (by decide +kernel) hs
  have hafter : State.after (opened ++ accountLeaves) = s := by rw [State.after, hs]; rfl
  exact absurd (h s hruns) (by rw [← hafter]; decide +kernel)

end State

end EthWalletUi
