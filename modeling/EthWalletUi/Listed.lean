import EthWalletUi.Backend.Attribution
import EthWalletUi.View.Token

/-!
# The chain that every listed token carries

The token load asks each network for its tokens, and stamps the network's chain on every row. A row
of an answer may name any chain, or none; what is published names the network's.

* `Core.AllChained`: the rows on screen, and those of every update before, carry their chains.
* `tokens_chained`: so they do in every state of every run.
-/

namespace EthWalletUi

open Qt

namespace Core

variable {c c' : Core}

/-- The rows on screen carry their chains, and so did those of every update. -/
structure AllChained (c : Core) : Prop where
  now : Chained c.published.tokens
  seen : ∀ x ∈ c.seen, Chained x.published.tokens

theorem AllChained.congr (h : c.AllChained) (hs : c.SameScreen c') : c'.AllChained where
  now := hs.published ▸ h.now
  seen := hs.seen ▸ h.seen

theorem AllChained.set (h : c.AllChained) {f : Published → Published}
    (hf : Chained (f c.published).tokens) : (c.set f).AllChained := by
  refine ⟨by rw [set_published]; exact hf, fun x hx => ?_⟩
  rcases c.mem_seen_set hx with hx | rfl
  · exact h.seen x hx
  · exact hf

/-- A write leaves the rows as they were, or as they are to be. -/
theorem scopeWrites_tokens {s : ScopedState} {f : Published → Published} (h : f ∈ scopeWrites s)
    (p : Published) : (f p).tokensJson = p.tokensJson ∨ (f p).tokensJson = s.tokens := by
  simp only [scopeWrites, List.mem_cons, List.not_mem_nil, or_false] at h
  rcases h with rfl | rfl | rfl | rfl | rfl | rfl | rfl | rfl | rfl | rfl | rfl | rfl | rfl | rfl |
    rfl
  all_goals first
    | exact .inl rfl
    | exact .inr rfl

theorem AllChained.publishScope (h : c.AllChained) {s : ScopedState}
    (hs : Chained (s.tokens.array.map asObject)) : (c.publishScope s).AllChained := by
  refine c.publishScope_induct h fun d f hf hd => hd.set ?_
  unfold Published.tokens
  rcases scopeWrites_tokens hf d.published with heq | heq
  · rw [heq]
    exact hd.now
  · rw [heq]
    exact hs

/-- No rows at all. -/
theorem chained_empty : Chained (Text.empty.array.map asObject) := fun _ ht => by cases ht

theorem enterScope_tokens (s : ScopedState) (dest : Selection) :
    (enterScope s dest).1.tokens = s.tokens ∨ (enterScope s dest).1.tokens = .empty := by
  simp only [enterScope]
  split
  · exact .inl rfl
  · split
    · exact .inr rfl
    · exact .inl rfl

/-- A move of the selection withdraws the rows with the chain, and moves on after that. -/
theorem AllChained.publishSelection (h : c.AllChained) (account : String) (networkJson : Text) :
    (c.publishSelection account networkJson).AllChained := by
  have hw : (c.withdraw (selectionOf account networkJson)).AllChained := by
    cases hsame : c.shown.same (selectionOf account networkJson) with
    | true =>
      rw [c.withdraw_same hsame]
      exact h
    | false =>
      obtain ⟨v, hv⟩ := c.withdraw_moved hsame
      let c₁ : Core := { c with dataGen := c.dataGen + 1, quoteGen := c.quoteGen + 1 }
      have h₁ : c₁.AllChained := ⟨h.now, h.seen⟩
      have h₂ : (c₁.publishScope (enterScope c.scopeSnapshot
          (selectionOf account networkJson)).1).AllChained := by
        refine h₁.publishScope ?_
        rcases enterScope_tokens c.scopeSnapshot (selectionOf account networkJson) with heq | heq
        · rw [heq]
          exact h.now
        · rw [heq]
          exact chained_empty
      rw [hv]
      exact ⟨h₂.now, h₂.seen⟩
  rw [publishSelection_eq_set]
  have hmid := hw.set (f := fun p => { p with selectedAccount := account }) hw.now
  exact hmid.set hmid.now

/-- A scoped state that a handler publishes has the rows on screen, or those of a token load. -/
theorem Scoped.chained (h : c.AllChained) (hl : c.LoadsChained) {s : ScopedState}
    (hs : c.Scoped s) : Chained (s.tokens.array.map asObject) := by
  have hnow : Chained (c.scopeSnapshot.tokens.array.map asObject) := h.now
  cases hs with
  | tokens ht => exact ht hl
  | noAccount | resendReview | dismissed | noError | refused => exact hnow
  | @balances _ _ _ _ res =>
    rcases applyBalances_cases c.scopeSnapshot (c.balancesReply res) with h | ⟨-, ⟨-, h⟩ | h⟩ <;>
      rw [h] <;> exact hnow
  | @history _ _ _ res =>
    rcases applyHistory_cases c.scopeSnapshot (c.historyReply res) (c.now / 1000 : Nat) with
      h | ⟨-, ⟨-, _, _, _, h⟩ | h⟩ <;> rw [h] <;> exact hnow
  | @quote interactive _ priced _ res =>
    rcases applyQuote_cases c.scopeSnapshot (res.getD .empty) priced interactive with
      ⟨-, -, h⟩ | h | ⟨-, h⟩ | h <;> rw [h] <;> exact hnow
  | @txDetails _ hash _ _ res =>
    rcases applyTxDetails_cases c.scopeSnapshot (res.getD .empty) hash with h | ⟨_, -, -, -, h⟩ <;>
      rw [h] <;> exact hnow
  | verdict verdictJson silent =>
    rcases applyVerdict_cases c.scopeSnapshot verdictJson silent kMaxSilentPolls with
      h | ⟨_, -, h | h⟩ <;> rw [h] <;> exact hnow

theorem AllChained.enterRequest (h : c.AllChained) (requestJson : Text) (interactive : Bool) :
    (c.enterRequest requestJson interactive).AllChained := by
  obtain ⟨q, e, s, -, -, hs, heq⟩ := c.enterRequest_cases requestJson interactive
  let c₁ : Core := { c with quoteGen := q, quoteRequest := requestJson }
  have h₁ : c₁.AllChained := ⟨h.now, h.seen⟩
  rw [heq]
  refine h₁.publishScope ?_
  rcases hs with ⟨-, rfl⟩ | rfl <;> exact h.now

theorem AllChained.forgetRequest (h : c.AllChained) : c.forgetRequest.AllChained := by
  let c₁ : Core := { c with quoteGen := c.quoteGen + 1, quoteRequest := .empty }
  have h₁ : c₁.AllChained := ⟨h.now, h.seen⟩
  exact h₁.publishScope h.now

theorem AllChained.feeTiersReplied (h : c.AllChained) (gen slot : Nat) (res : Option Text) :
    (c.feeTiersReplied gen slot res).AllChained := by
  let c₁ : Core := { c with guards.fees := c.guards.fees.release slot }
  have h₁ : c₁.AllChained := ⟨h.now, h.seen⟩
  simp only [Core.feeTiersReplied]
  split
  · exact h₁
  · have h₂ := h₁.publishScope (s := applyFeeTiers c₁.scopeSnapshot (res.getD .empty)) h.now
    exact ⟨h₂.now, h₂.seen⟩

theorem AllChained.act (h : c.AllChained) (hc : c.AllAttributed) (ha : c.Act c') :
    c'.AllChained := by
  cases ha with
  | aside ha => exact h.congr ha.sameScreen
  | publish hs => exact h.publishScope (hs.chained h hc.loaded)
  | account | noChain => exact h.publishSelection _ _
  | adopt networkJson =>
    have h₁ := h.publishSelection c.published.selectedAccount networkJson
    exact ⟨h₁.now, h₁.seen⟩
  | pick networkJson =>
    exact (h.publishSelection c.published.selectedAccount networkJson).congr
      (refresh_sameScreen _ _)
  | quote => exact h.enterRequest _ _
  | forget => exact h.forgetRequest
  | issue | enter | queue | again => exact ⟨h.now, h.seen⟩
  | refresh => exact h.congr (c.refresh_sameScreen _)
  | fees => exact h.congr c.loadFeeTiers_sameScreen
  | land => exact h.congr c.land_sameScreen

end Core

end EthWalletUi
