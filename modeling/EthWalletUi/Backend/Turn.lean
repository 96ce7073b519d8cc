import EthWalletUi.Backend.Acts

/-!
# What an event does

An event is one input (an answer heard, a handler taken from the queue, time passing) and the acts
of the handler it runs (`Core.Turn`, `State.step_turn`). The fee read's answer and a queued refresh
are kept apart from the rest: what they do is done when the turn is over, not act by act.
-/

namespace EthWalletUi

open Qt

namespace Core

variable (c : Core)

/-- What one event does to the wallet's data. -/
inductive Turn : Event → Core → Prop
  | acts {e : Event} {c' : Core} : Path c c' → Turn e c'
  | reply {i : Nat} {call : Call} {res : Option Text} {c' : Core} :
      c.calls[i]? = some call → call.callback.isFeeTiers = false →
      Path { c with calls := c.calls.eraseIdx i, log := .reply call res :: c.log } c' →
      Turn (.reply i res) c'
  | fees {i gen slot : Nat} {chainId : Int} {under : Selection} {res : Option Text} :
      c.calls[i]? = some ⟨.feeTiers chainId gen slot, under⟩ →
      Turn (.reply i res) ({ c with
        calls := c.calls.eraseIdx i
        log := .reply ⟨.feeTiers chainId gen slot, under⟩ res :: c.log }.feeTiersReplied gen slot
          res)
  | sender {i : Nat} {call : SenderCall} {res : Option Text} {c' : Core} :
      Path { c with log := .sender call res :: c.log } c' → Turn (.senderReply i res) c'
  | returned {frame : Frame} {stack : List Frame} {reply : Text} {c' : Core} :
      c.stack = frame :: stack →
      Path { c with stack, log := .returned frame reply :: c.log } c' → Turn (.returned reply) c'
  | reload {i : Nat} : c.soon[i]? = some .refresh →
      Turn (.soon i) { c with soon := c.soon.eraseIdx i }.refresh
  | soon {i : Nat} {what : Soon} {c' : Core} : c.soon[i]? = some what → what ≠ .refresh →
      Path { c with soon := c.soon.eraseIdx i } c' → Turn (.soon i) c'
  | elapse (ms : Nat) : Turn (.elapse ms) { c with now := c.now + ms }

end Core

/-! ## A call that is answered, a timer that fires -/

/-- Erasing an item that a filter drops does not change what it keeps. -/
theorem filter_eraseIdx_of_not {α : Type} {p : α → Bool} {l : List α} {i : Nat} {x : α}
    (h : l[i]? = some x) (hp : ¬p x = true) : (l.eraseIdx i).filter p = l.filter p := by
  induction l generalizing i with
  | nil => rfl
  | cons y l ih =>
    cases i with
    | zero =>
      simp only [List.getElem?_cons_zero, Option.some.injEq] at h
      subst h
      rw [List.eraseIdx_cons_zero, List.filter_cons_of_neg hp]
    | succ i =>
      rw [List.getElem?_cons_succ] at h
      rw [List.eraseIdx_cons_succ, List.filter_cons, List.filter_cons, ih h]

/-- Erasing an item that a filter keeps leaves one fewer. -/
theorem length_filter_eraseIdx {α : Type} {p : α → Bool} {l : List α} {i : Nat} {x : α}
    (h : l[i]? = some x) (hp : p x = true) :
    ((l.eraseIdx i).filter p).length + 1 = (l.filter p).length := by
  induction l generalizing i with
  | nil => cases h
  | cons y l ih =>
    cases i with
    | zero =>
      simp only [List.getElem?_cons_zero, Option.some.injEq] at h
      subst h
      rw [List.eraseIdx_cons_zero, List.filter_cons_of_pos hp, List.length_cons]
    | succ i =>
      rw [List.getElem?_cons_succ] at h
      have := ih h
      rw [List.eraseIdx_cons_succ, List.filter_cons, List.filter_cons]
      split
      · simp only [List.length_cons]
        omega
      · exact this

/-- A lapse lowers a spinner; the claim is as it was. -/
theorem WiredClaim.lapsed_flight {w w' : WiredClaim} {now i : Nat} (h : w.lapsed now i = some w') :
    w'.flight = w.flight := by
  simp only [WiredClaim.lapsed, Option.map_eq_some_iff] at h
  obtain ⟨-, -, rfl⟩ := h
  unfold WiredClaim.lapse
  split <;> rfl

namespace State

variable (s : State)

theorem pollSend_path : s.core.Path s.pollSend.core := by
  unfold pollSend
  split
  · exact .refl
  · exact .act (.enter trivial)

theorem called_path (call : Slot) : s.core.Path (s.called call).core := by
  cases call with
  | refresh => exact .act (.refresh _)
  | refreshAccounts => exact s.core.refreshAccounts_path
  | selectAccount => exact s.core.selectAccount_path _
  | selectChain => exact s.core.selectChain_path _
  | quote requestJson =>
    simp only [called, onCore]
    exact s.core.runQuote_path requestJson true
  | setQuoteAutoRefresh => exact s.core.setQuoteAutoRefresh_path _
  | submitSend requestJson =>
    have h : s.core.Path (s.core.publishScope { s.core.scopeSnapshot with sendError := "" }) :=
      .act (.publish .noError)
    simp only [called, submitSend]
    refine Core.Act.after (.enter ?_) h
    exact ⟨rfl, rfl⟩
  | pollSend => exact s.pollSend_path
  | cancelSend =>
    simp only [called, cancelSend]
    split
    · exact .refl
    · exact .act (.enter trivial)
  | refreshTxStatus => exact s.core.refreshTxStatus_path _
  | resendBlockedNonce => exact s.core.resendBlockedNonce_path _ _
  | dismissResend => exact s.core.dismissResend_path
  | fetchTxDetails => exact s.core.fetchTxDetails_path _
  | refreshVerifiedProxy => exact s.core.refreshVerifiedProxy_path
  | refreshPending => exact s.core.refreshPending_path
  | reviewIntentSend =>
    simp only [called, reviewIntentSend]
    split
    · exact .refl
    · split <;> exact .refl
  | acceptIntentSend =>
    simp only [called, acceptIntentSend]
    split
    · exact .refl
    · split
      · exact .refl
      · split <;> exact .refl
  | declineIntentSend => exact .refl
  | chooseTokenSort => exact s.core.chooseTokenSort_path _
  | saveContact | forgetContact => exact .act (.enter trivial)

/-- What the reply to `send` publishes. -/
theorem applySend_path {requestJson : Text} {gen : Nat} {under : Selection} {reply : Text}
    (h : .returned (.send requestJson gen under) reply ∈ s.core.log) :
    s.core.Path (s.core.publishScope
      (applySend s.core.scopeSnapshot reply (s.selectionHeld gen)).1) := by
  unfold applySend
  split
  · rw [Core.publishScope_snapshot]
  · rename_i hok
    split
    · rw [Core.publishScope_snapshot]
    · rename_i hg
      have hd : gen = s.core.dataGen := by simpa [selectionHeld] using hg
      subst hd
      exact .act (.publish (.refused h (by simpa using hok)))

theorem sendReturned_path {requestJson : Text} {gen : Nat} {under : Selection} {reply : Text}
    (h : .returned (.send requestJson gen under) reply ∈ s.core.log) :
    s.core.Path (s.sendReturned gen reply).core := by
  have hs := s.applySend_path h
  cases hok : replyOk reply with
  | true =>
    simp only [sendReturned, applySend_ok hok]
    exact .act (.publish .dismissed)
  | false =>
    have hacc := applySend_refused hok s.core.scopeSnapshot (s.selectionHeld gen)
    simp only [sendReturned, hacc]
    exact hs

theorem statusReturned_path (requestId : String) (reply : Text) :
    s.core.Path (s.statusReturned requestId reply).core := by
  simp only [statusReturned]
  split
  · exact .refl
  · exact .act (.refresh _)

theorem cancelReturned_path (requestId : String) (reply : Text) :
    s.core.Path (s.cancelReturned requestId reply).core := by
  simp only [cancelReturned]
  split
  · exact Core.Path.beside .refl (by rfl)
  · exact .refl

theorem resumed_path {frame : Frame} {reply : Text} (h : .returned frame reply ∈ s.core.log) :
    s.core.Path (s.resumed reply frame).core := by
  cases frame with
  | listNetworks => exact s.core.networksListed_path _ _ _
  | listTokens => exact s.core.tokensListed_path _ _ _ _ _ _ fun hl => hl _ _ h
  | listAccounts | accountLabels | accountWallets | accountRoster => exact .act (.enter trivial)
  | signerWallets => exact s.core.accountsListed_path _ _ _ _ _ _
  | listContacts => exact s.core.contactsListed_path _ _
  | saveContact | forgetContact => exact s.core.contactWritten_path _
  | setTokenSort => exact s.core.tokenSortSet_path _ _
  | send => exact s.sendReturned_path h
  | sendStatus => exact s.statusReturned_path _ _
  | cancelSend => exact s.cancelReturned_path _ _

/-- An accepted send publishes nothing that is scoped, and a refused one goes on the review. -/
theorem senderReplied_path (res : Option Text) (call : SenderCall) :
    s.core.Path (s.senderReplied res call).core := by
  cases call with
  | prepare =>
    simp only [senderReplied, prepareReplied]
    split
    · exact .refl
    · split <;> exact .refl
  | send forRequest request gen slot =>
    simp only [senderReplied, sendReplied]
    split
    · exact .refl
    · split
      · exact .refl
      · rename_i hok
        have hok' : replyOk (res.getD .empty) = true := by simpa using hok
        simp only [applySend_ok hok', Bool.not_true, Bool.false_eq_true, if_false]
        rw [Core.publishScope_snapshot]

theorem ticked_path {s s' : State} {poll : Poll} (h : s.ticked poll = some s') :
    s.core.Path s'.core := by
  cases ticked_cases h with
  | accounts => exact s.core.refreshAccounts_path
  | send => exact s.pollSend_path
  | pending => exact s.core.refreshPending_path
  | verified => exact s.core.pollVerifiedProxy_path
  | settling => exact .refl
  | quote =>
    simp only [onCore]
    exact s.core.runQuote_path s.core.quoteRequest false

theorem lapsed_path {s s' : State} {i : Nat} {guard : Guarded} (h : s.lapsed i guard = some s') :
    s.core.Path s'.core := by
  cases guard <;> simp only [lapsed, Option.map_eq_some_iff] at h <;> obtain ⟨w, hw, rfl⟩ := h
  case data => exact Core.dataLapsed_path hw
  case quote => exact Core.quoteLapsed_path hw
  case fees => exact Core.Path.beside .refl (by rw [← WiredClaim.lapsed_flight hw])
  case price => exact .refl
  all_goals exact Core.Path.beside .refl (by rfl)

/-- One event: an input, and the acts of the handler it runs. -/
theorem step_turn {s s' : State} {e : Event} (h : s.step e = some s') :
    s.core.Turn e s'.core := by
  cases e with
  | slot call =>
    cases h
    exact .acts (s.called_path call)
  | signal what =>
    cases h
    exact .acts (s.core.signalled_path what)
  | reply i res =>
    simp only [step, Option.map_eq_some_iff] at h
    obtain ⟨⟨callback, under⟩, hc, rfl⟩ := h
    cases hf : callback.isFeeTiers with
    | false => exact .reply hc hf (Core.replied_path _ hf (List.mem_cons_self ..))
    | true =>
      cases callback with
      | feeTiers => exact .fees hc
      | _ => cases hf
  | senderReply i res =>
    simp only [step, Option.map_eq_some_iff] at h
    obtain ⟨call, hc, rfl⟩ := h
    let s₁ : State := { s.hear (.sender call res) with
      send := { s.send with calls := s.send.calls.eraseIdx i } }
    have hp : s₁.core.Path (s₁.senderReplied res call).core := s₁.senderReplied_path res call
    exact .sender hp
  | returned reply =>
    simp only [step] at h
    split at h
    · rename_i frame stack hs
      cases h
      let s₁ : State := (s.hear (.returned frame reply)).onCore fun c => { c with stack }
      have hm : Heard.returned frame reply ∈ s₁.core.log := List.mem_cons_self ..
      exact .returned hs (s₁.resumed_path hm)
    · cases h
  | tick poll => exact .acts (ticked_path h)
  | soon i =>
    simp only [step, Option.map_eq_some_iff] at h
    obtain ⟨what, hw, rfl⟩ := h
    let s₁ : State := s.onCore fun c => { c with soon := c.soon.eraseIdx i }
    cases what with
    | refresh => exact .reload hw
    | pollSend => exact .soon hw nofun s₁.pollSend_path
    | loadBalancesAndHistory => exact .soon hw nofun s₁.core.loadBalancesAndHistory_path
  | lapse guard i => exact .acts (lapsed_path h)
  | elapse ms =>
    cases h
    exact .elapse ms

/-- Only time moves the clock. -/
theorem step_now {s s' : State} {e : Event} (h : s.step e = some s') (hne : ∀ ms, e ≠ .elapse ms) :
    s'.core.now = s.core.now := by
  have ht := step_turn h
  generalize s'.core = c' at ht
  cases ht with
  | acts hp | reply _ _ hp | sender hp | returned _ hp | soon _ _ hp => exact hp.kept.2
  | @fees i gen slot chainId under res _ =>
    exact (Core.replied_kept { s.core with
      calls := s.core.calls.eraseIdx i
      log := .reply ⟨.feeTiers chainId gen slot, under⟩ res :: s.core.log }
        (List.mem_cons_self ..)).2
  | reload => exact (Core.refresh_kept _ _).2
  | elapse ms => exact absurd rfl (hne ms)

end State

end EthWalletUi
