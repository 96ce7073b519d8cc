import EthWalletUi.Shown

/-!
# The figures on the Send screen priced its form

* `PricedAt`: a request published beside figures is the newest one handed to `quote`, and the
  figures are the ok answer to `prepare_send` of exactly that request. It holds at every update.
* `Figures`: as each handler ends, a request published is the newest one, with figures or without.
  A handler that takes a new request withdraws the figures of the old one before it withdraws the
  old request, so at that one update the old request stands beside none (`request_outlives`).
* `SendForm.q`: what the form shows, and what Confirm therefore submits.
-/

namespace EthWalletUi

open Qt Machine

/-- The ok answer to `prepare_send` of a request. -/
def PricedBy (request : Text) (quote : Text) (call : Call) (res : Option Text) : Prop :=
  ∃ interactive gen qgen slot, call.callback = .quote request interactive gen qgen slot ∧
    res = some quote ∧ replyOk quote = true ∧ answersFor quote call.under = true

/-- No request is published, or no figures, or the figures of the newest request. -/
def PricedAt (log : List Heard) (newest : Text) (p : Published) : Prop :=
  p.quoteRequestJson = .empty ∨ p.quoteJson = emptyObject ∨
    p.quoteRequestJson = newest ∧ Answered log p.shown (PricedBy newest p.quoteJson)

def Seen.Priced (x : Seen) : Prop := PricedAt x.log x.quoteRequest x.published

/-- What a handler may leave published: each is empty or about the newest request. -/
structure Figures (log : List Heard) (sel : Selection) (newest quote request : Text) : Prop where
  quote : quote = emptyObject ∨ Answered log sel (PricedBy newest quote)
  request : request = .empty ∨ request = newest

theorem Figures.pricedAt {log : List Heard} {newest : Text} {p : Published}
    (h : Figures log p.shown newest p.quoteJson p.quoteRequestJson) : PricedAt log newest p := by
  rcases h.request with hr | hr
  · exact .inl hr
  · rcases h.quote with hq | hq
    · exact .inr (.inl hq)
    · exact .inr (.inr ⟨hr, hq⟩)

theorem Figures.mono {log log' : List Heard} {sel : Selection} {newest quote request : Text}
    (h : Figures log sel newest quote request) (hl : log ⊆ log') :
    Figures log' sel newest quote request :=
  ⟨h.quote.imp_right (·.mono hl), h.request⟩

theorem Figures.same {log : List Heard} {sel sel' : Selection} {newest quote request : Text}
    (h : Figures log sel newest quote request) (hs : sel.same sel' = true) :
    Figures log sel' newest quote request :=
  ⟨h.quote.imp_right (·.same hs), h.request⟩

theorem Figures.withdrawn (log : List Heard) (sel : Selection) (newest : Text) :
    Figures log sel newest emptyObject .empty := ⟨.inl rfl, .inl rfl⟩

/-! ## Publishing -/

namespace Core

variable {c c' : Core}

/-- As each act ends: figures stand beside the newest request only. -/
structure QuoteInv (c : Core) : Prop where
  now : Figures c.log c.shown c.quoteRequest c.published.quoteJson c.published.quoteRequestJson
  paired : c.published.quoteJson = emptyObject ∨ c.published.quoteRequestJson = c.quoteRequest
  seen : ∀ x ∈ c.seen, x.Priced

theorem QuoteInv.congr (hi : c.QuoteInv) (h : c.SameScreen c') : c'.QuoteInv := by
  refine ⟨?_, by rw [h.published, h.quoteRequest]; exact hi.paired, by rw [h.seen]; exact hi.seen⟩
  unfold Core.shown
  rw [h.published, h.quoteRequest]
  exact hi.now.mono h.log

theorem publishScope_quote (c : Core) (s : ScopedState) :
    (c.publishScope s).published.quoteJson = s.quote ∧
      (c.publishScope s).published.quoteRequestJson = s.quoteRequest := by
  rw [publishScope_published]
  exact ⟨rfl, rfl⟩

/-- A write leaves the figures, and their request, as they were or as they are to be. -/
theorem scopeWrites_quote {s : ScopedState} {f : Published → Published} (h : f ∈ scopeWrites s)
    (p : Published) :
    ((f p).quoteJson = p.quoteJson ∨ (f p).quoteJson = s.quote) ∧
      ((f p).quoteRequestJson = p.quoteRequestJson ∨ (f p).quoteRequestJson = s.quoteRequest) := by
  simp only [scopeWrites, List.mem_cons, List.not_mem_nil, or_false] at h
  rcases h with rfl | rfl | rfl | rfl | rfl | rfl | rfl | rfl | rfl | rfl | rfl | rfl | rfl | rfl |
    rfl
  all_goals first
    | exact ⟨.inl rfl, .inl rfl⟩
    | exact ⟨.inr rfl, .inl rfl⟩
    | exact ⟨.inl rfl, .inr rfl⟩

/-- Publishing figures of the newest request, one property after the other. -/
theorem QuoteInv.publishScope (hi : c.QuoteInv) {s : ScopedState}
    (hs : Figures c.log c.shown c.quoteRequest s.quote s.quoteRequest)
    (hp : s.quote = emptyObject ∨ s.quoteRequest = c.quoteRequest) :
    (c.publishScope s).QuoteInv := by
  have hwrites : (c.publishScope s).log = c.log ∧ (c.publishScope s).shown = c.shown ∧
      (c.publishScope s).quoteRequest = c.quoteRequest ∧
      Figures c.log c.shown c.quoteRequest (c.publishScope s).published.quoteJson
        (c.publishScope s).published.quoteRequestJson ∧
      ∀ x ∈ (c.publishScope s).seen, x.Priced := by
    refine c.publishScope_induct (I := fun d => d.log = c.log ∧ d.shown = c.shown ∧
      d.quoteRequest = c.quoteRequest ∧
      Figures c.log c.shown c.quoteRequest d.published.quoteJson d.published.quoteRequestJson ∧
      ∀ x ∈ d.seen, x.Priced) ⟨rfl, rfl, rfl, hi.now, hi.seen⟩ ?_
    rintro d f hf ⟨hl, hsh, hr, hn, hx⟩
    have hnew : Figures c.log c.shown c.quoteRequest (f d.published).quoteJson
        (f d.published).quoteRequestJson := by
      obtain ⟨hq, hreq⟩ := scopeWrites_quote hf d.published
      constructor
      · rcases hq with hq | hq <;> rw [hq]
        · exact hn.quote
        · exact hs.quote
      · rcases hreq with hreq | hreq <;> rw [hreq]
        · exact hn.request
        · exact hs.request
    refine ⟨(d.set_log f).trans hl, (d.set_shown hf).trans hsh, (d.set_quoteRequest f).trans hr, ?_,
      fun x hm => ?_⟩
    · rw [set_published]
      exact hnew
    · rcases d.mem_seen_set hm with hm | rfl
      · exact hx x hm
      · have hsh' : (f d.published).shown = c.shown := (scopeWrites_shown hf d.published).trans hsh
        have hpriced : PricedAt d.log d.quoteRequest (f d.published) := by
          apply Figures.pricedAt
          rw [hl, hr, hsh']
          exact hnew
        exact hpriced
  obtain ⟨hl, hsh, hr, hn, hx⟩ := hwrites
  refine ⟨?_, ?_, hx⟩
  · rw [hl, hsh, hr]
    exact hn
  · rw [hr, (publishScope_quote c s).1, (publishScope_quote c s).2]
    exact hp

/-- Withdrawing the figures, the first write of the publication: no update shows the figures
of the old request beside the new one. -/
theorem seen_withdraw (hx : ∀ x ∈ c.seen, x.Priced) (sendError : String) :
    ∀ x ∈ (c.publishScope { withdrawQuote c.scopeSnapshot with sendError }).seen, x.Priced := by
  let s : ScopedState := { withdrawQuote c.scopeSnapshot with sendError }
  have hsplit : (scopeWrites s).foldl Core.set c =
      ((scopeWrites s).drop 8).foldl Core.set
        (c.set fun p => { p with quoteJson := emptyObject }) := by
    have hfirst : ((scopeWrites s).take 7).foldl Core.set c = c := by
      apply c.foldl_set_self
      simp [scopeWrites, scopeSnapshot, Published.snapshot, s, withdrawQuote]
    have happ : scopeWrites s = (scopeWrites s).take 7 ++
        (fun p => { p with quoteJson := emptyObject }) :: (scopeWrites s).drop 8 := rfl
    calc (scopeWrites s).foldl Core.set c
        = ((scopeWrites s).take 7 ++ (fun p : Published => { p with quoteJson := emptyObject }) ::
            (scopeWrites s).drop 8).foldl Core.set c := congrArg (·.foldl Core.set c) happ
      _ = _ := by rw [List.foldl_append, hfirst, List.foldl_cons]
  have hrest : ∀ d : Core, d.published.quoteJson = emptyObject → (∀ x ∈ d.seen, x.Priced) →
      ∀ f ∈ scopeWrites s,
        (d.set f).published.quoteJson = emptyObject ∧ ∀ x ∈ (d.set f).seen, x.Priced := by
    intro d hd hx f hf
    have hq : (f d.published).quoteJson = emptyObject :=
      (scopeWrites_quote hf d.published).1.elim (·.trans hd) id
    refine ⟨by rw [set_published]; exact hq, fun x hm => ?_⟩
    rcases d.mem_seen_set hm with hm | rfl
    · exact hx x hm
    · exact .inr (.inl hq)
  unfold Core.publishScope
  rw [hsplit]
  refine (List.foldlRecOn (motive := fun d : Core =>
    d.published.quoteJson = emptyObject ∧ ∀ x ∈ d.seen, x.Priced) _ _ ?_ ?_).2
  · refine ⟨by rw [set_published], fun x hm => ?_⟩
    rcases c.mem_seen_set hm with hm | rfl
    · exact hx x hm
    · exact .inr (.inl rfl)
  · intro d hd f hf
    exact hrest d hd.1 hd.2 f (List.mem_of_mem_drop hf)

/-! ## What each act publishes -/

/-- A scoped state that a handler publishes has the figures on screen, or none, or new ones of the
newest request. -/
theorem Scoped.figures (hi : c.QuoteInv) (ha : c.AllAttributed) {s : ScopedState}
    (h : c.Scoped s) : Figures c.log c.shown c.quoteRequest s.quote s.quoteRequest ∧
      (s.quote = emptyObject ∨ s.quoteRequest = c.quoteRequest) := by
  have hkept : Figures c.log c.shown c.quoteRequest c.scopeSnapshot.quote
        c.scopeSnapshot.quoteRequest ∧ (c.scopeSnapshot.quote = emptyObject ∨
      c.scopeSnapshot.quoteRequest = c.quoteRequest) := ⟨hi.now, hi.paired⟩
  have hgone : Figures c.log c.shown c.quoteRequest emptyObject .empty ∧
      (emptyObject = emptyObject ∨ Text.empty = c.quoteRequest) := ⟨.withdrawn _ _ _, .inl rfl⟩
  cases h with
  | tokens | noAccount | resendReview | dismissed | noError | refused => exact hkept
  | @balances _ _ _ _ res =>
    rcases applyBalances_cases c.scopeSnapshot (c.balancesReply res) with h | ⟨-, ⟨-, h⟩ | h⟩ <;>
      rw [h] <;> exact hkept
  | @history _ _ _ res =>
    rcases applyHistory_cases c.scopeSnapshot (c.historyReply res) (c.now / 1000 : Nat) with
      h | ⟨-, ⟨-, _, _, _, h⟩ | h⟩ <;> rw [h] <;> exact hkept
  | @quote interactive slot priced under res hm =>
    have hsame : under.same c.shown = true := ha.answered_now hm rfl rfl
    have hpriced : priced = c.quoteRequest := ((ha.replied _ _ hm).request _ _ _ _ _ rfl).2 rfl
    rcases applyQuote_cases c.scopeSnapshot (res.getD .empty) priced interactive with
      ⟨hok, hans, h⟩ | h | ⟨-, h⟩ | h
    · rw [h]
      cases res with
      | none => cases hok
      | some reply =>
        have hans' : answersFor reply under = true := (answersFor_same hsame _).trans hans
        have hby : PricedBy c.quoteRequest reply
            ⟨.quote priced interactive c.dataGen c.quoteGen slot, under⟩ (some reply) := by
          refine ⟨interactive, c.dataGen, c.quoteGen, slot, ?_, rfl, hok, hans'⟩
          rw [hpriced]
        exact ⟨⟨.inr ⟨_, _, hm, hsame, hby⟩, .inr hpriced⟩, .inr hpriced⟩
    · rw [h]
      exact hgone
    · rw [h]
      exact hgone
    · rw [h]
      exact hkept
  | @txDetails _ hash _ _ res =>
    rcases applyTxDetails_cases c.scopeSnapshot (res.getD .empty) hash with h | ⟨_, -, -, -, h⟩ <;>
      rw [h] <;> exact hkept
  | verdict verdictJson silent =>
    rcases applyVerdict_cases c.scopeSnapshot verdictJson silent kMaxSilentPolls with
      h | ⟨_, -, h | h⟩
    · rw [h]
      exact hkept
    · rw [h]
      exact hkept
    · rw [h]
      exact hgone

theorem publishSelection_quote (c : Core) (account : String) (networkJson : Text) :
    (c.publishSelection account networkJson).published.quoteJson =
        (c.withdraw (selectionOf account networkJson)).published.quoteJson ∧
      (c.publishSelection account networkJson).published.quoteRequestJson =
        (c.withdraw (selectionOf account networkJson)).published.quoteRequestJson := by
  rw [publishSelection_eq_set, set_published, set_published]
  exact ⟨rfl, rfl⟩

theorem enterScope_quote {s : ScopedState} {dest : Selection} (h : s.at.same dest = false) :
    (enterScope s dest).1.quote = emptyObject ∧ (enterScope s dest).1.quoteRequest = .empty := by
  simp only [enterScope, h, Bool.false_eq_true, if_false]
  split <;> exact ⟨rfl, rfl⟩

/-- The first half of a move of the selection leaves figures that are right under the old account,
the new account and, with it, the new chain. -/
theorem QuoteInv.withdraw (hi : c.QuoteInv) (dest : Selection) :
    (c.withdraw dest).QuoteInv ∧ ∀ sel, (c.shown.same dest = true → c.shown.same sel = true) →
      Figures c.log sel c.quoteRequest (c.withdraw dest).published.quoteJson
        (c.withdraw dest).published.quoteRequestJson := by
  cases hsame : c.shown.same dest with
  | true =>
    rw [c.withdraw_same hsame]
    exact ⟨hi, fun sel h => hi.now.same (h rfl)⟩
  | false =>
    obtain ⟨v, hv⟩ := c.withdraw_moved hsame
    obtain ⟨hq, hr⟩ := enterScope_quote (s := c.scopeSnapshot) hsame
    let c₁ : Core := { c with dataGen := c.dataGen + 1, quoteGen := c.quoteGen + 1 }
    let s₁ := (enterScope c.scopeSnapshot dest).1
    have hc₁ : c₁.QuoteInv := hi.congr ⟨rfl, rfl, rfl, fun _ h => h⟩
    have h₁ : (c₁.publishScope s₁).QuoteInv := by
      apply hc₁.publishScope
      · rw [hq, hr]
        exact .withdrawn _ _ _
      · exact .inl hq
    obtain ⟨hpq, hpr⟩ := c₁.publishScope_quote s₁
    rw [hv]
    refine ⟨h₁.congr ⟨rfl, rfl, rfl, fun _ h => h⟩, fun sel _ => ?_⟩
    show Figures c.log sel c.quoteRequest (c₁.publishScope s₁).published.quoteJson
      (c₁.publishScope s₁).published.quoteRequestJson
    rw [hpq, hpr, hq, hr]
    exact .withdrawn _ _ _

theorem withdraw_kept (c : Core) (dest : Selection) :
    (c.withdraw dest).log = c.log ∧ (c.withdraw dest).quoteRequest = c.quoteRequest ∧
      (c.withdraw dest).published.activeNetworkJson = c.published.activeNetworkJson := by
  cases h : c.shown.same dest with
  | true =>
    rw [c.withdraw_same h]
    exact ⟨rfl, rfl, rfl⟩
  | false =>
    obtain ⟨v, hv⟩ := c.withdraw_moved h
    rw [hv]
    refine ⟨by simp, by simp, ?_⟩
    show (publishScope _ _).published.activeNetworkJson = _
    rw [publishScope_published]
    rfl

theorem QuoteInv.publishSelection (hi : c.QuoteInv) (account : String) (networkJson : Text) :
    (c.publishSelection account networkJson).QuoteInv := by
  let d := c.withdraw (selectionOf account networkJson)
  obtain ⟨hd, hfig⟩ := hi.withdraw (selectionOf account networkJson)
  obtain ⟨hlog, hreq, hnet⟩ := c.withdraw_kept (selectionOf account networkJson)
  obtain ⟨hq, hr⟩ := c.publishSelection_quote account networkJson
  have hmid := hfig (selectionOf account d.published.activeNetworkJson) fun h => by
    rw [hnet]
    exact Selection.same_iff.mpr ⟨rfl, (Selection.same_iff.mp h).2⟩
  have hend := hfig (selectionOf account networkJson) id
  refine ⟨?_, ?_, ?_⟩
  · rw [publishSelection_log, publishSelection_shown, publishSelection_quoteRequest, hq, hr]
    exact hend
  · rw [hq, hr, publishSelection_quoteRequest, ← hreq]
    exact hd.paired
  · rw [publishSelection_eq_set]
    intro x hm
    rcases mem_seen_set _ hm with hm | rfl
    · rcases mem_seen_set _ hm with hm | rfl
      · exact hd.seen x hm
      · apply Figures.pricedAt
        rw [hlog, hreq]
        exact hmid
    · rw [set_published, set_quoteRequest, set_log]
      apply Figures.pricedAt
      rw [hlog, hreq]
      exact hend

/-- The figures of an old request go before the new one is published. -/
theorem QuoteInv.enterRequest (hi : c.QuoteInv) (requestJson : Text) (interactive : Bool) :
    (c.enterRequest requestJson interactive).QuoteInv := by
  obtain ⟨q, e, s, -, -, hs, heq⟩ := c.enterRequest_cases requestJson interactive
  let c₁ : Core := { c with quoteGen := q, quoteRequest := requestJson }
  rw [heq]
  rcases hs with ⟨hreq, rfl⟩ | rfl
  · have hfig : Figures c.log c.shown requestJson c.published.quoteJson
        c.published.quoteRequestJson := by
      refine ⟨?_, .inr hreq⟩
      rcases hi.paired with h | h
      · exact .inl h
      · rw [← hreq, h]
        exact hi.now.quote
    have hc₁ : c₁.QuoteInv := ⟨hfig, .inr hreq, hi.seen⟩
    exact hc₁.publishScope hfig (.inr hreq)
  · have hpub := c₁.publishScope_quote { withdrawQuote c.scopeSnapshot with sendError := e }
    refine ⟨?_, ?_, ?_⟩
    · rw [hpub.1, hpub.2]
      exact .withdrawn _ _ _
    · exact .inl hpub.1
    · exact seen_withdraw (c := c₁) hi.seen e

theorem QuoteInv.forgetRequest (hi : c.QuoteInv) : c.forgetRequest.QuoteInv := by
  let c₁ : Core := { c with quoteGen := c.quoteGen + 1, quoteRequest := .empty }
  have hpub := c₁.publishScope_quote (withdrawQuote c.scopeSnapshot)
  refine ⟨?_, ?_, ?_⟩
  · show Figures _ _ _ (c₁.publishScope (withdrawQuote c.scopeSnapshot)).published.quoteJson
      (c₁.publishScope (withdrawQuote c.scopeSnapshot)).published.quoteRequestJson
    rw [hpub.1, hpub.2]
    exact .withdrawn _ _ _
  · exact .inl hpub.1
  · exact seen_withdraw (c := c₁) hi.seen c.published.sendError

theorem QuoteInv.feeTiersReplied (hi : c.QuoteInv) (gen slot : Nat) (res : Option Text) :
    (c.feeTiersReplied gen slot res).QuoteInv := by
  let c₁ : Core := { c with guards.fees := c.guards.fees.release slot }
  have h₁ : c₁.QuoteInv := hi.congr ⟨rfl, rfl, rfl, fun _ h => h⟩
  simp only [Core.feeTiersReplied]
  split
  · exact h₁
  · exact (h₁.publishScope (s := applyFeeTiers c₁.scopeSnapshot (res.getD .empty)) h₁.now
      h₁.paired).congr ⟨rfl, rfl, rfl, fun _ h => h⟩

/-! ## Runs -/

theorem QuoteInv.act (hi : c.QuoteInv) (ha : c.AllAttributed) (h : c.Act c') : c'.QuoteInv := by
  cases h with
  | aside h => exact hi.congr h.sameScreen
  | publish hs =>
    obtain ⟨hf, hp⟩ := hs.figures hi ha
    exact hi.publishScope hf hp
  | account | noChain => exact hi.publishSelection _ _
  | adopt networkJson =>
    exact (hi.publishSelection c.published.selectedAccount networkJson).congr
      ⟨rfl, rfl, rfl, fun _ h => h⟩
  | pick networkJson =>
    exact (hi.publishSelection c.published.selectedAccount networkJson).congr
      (refresh_sameScreen _ _)
  | quote => exact hi.enterRequest _ _
  | forget => exact hi.forgetRequest
  | issue | enter | queue | again => exact hi.congr ⟨rfl, rfl, rfl, fun _ h => h⟩
  | refresh => exact hi.congr (c.refresh_sameScreen _)
  | fees => exact hi.congr c.loadFeeTiers_sameScreen
  | land => exact hi.congr c.land_sameScreen

/-- A new wallet shows no figures. -/
theorem quoteInv_new : QuoteInv {} where
  now := .withdrawn _ _ _
  paired := .inl rfl
  seen _ h := absurd h List.not_mem_nil

end Core

/-! ## The Send screen (`EthWalletView.qml`) -/

/-- `sendForm.q`: the figures, only while they priced the request that the form describes. -/
def SendForm.q (p : Published) (formRequest : Text) : JsonObject :=
  let quote := if p.scopedDataFresh then parseObject p.quoteJson else []
  let quoteRequest := if p.scopedDataFresh then p.quoteRequestJson else .empty
  if !quoteRequest.isEmpty && quoteRequest = formRequest then quote else []

theorem SendForm.q_ok {p : Published} {formRequest : Text}
    (h : ((SendForm.q p formRequest).value "ok").toBool = true) :
    p.quoteRequestJson ≠ .empty ∧ p.quoteRequestJson = formRequest ∧ p.quoteJson ≠ emptyObject := by
  have hnone : (JsonObject.value [] "ok").toBool = false := rfl
  cases hf : p.scopedDataFresh with
  | false =>
    simp only [SendForm.q, hf, Bool.false_eq_true, if_false, ite_self] at h
    exact absurd h (by rw [hnone]; exact Bool.false_ne_true)
  | true =>
    simp only [SendForm.q, hf, if_true] at h
    split at h
    · rename_i hq
      simp only [Bool.and_eq_true, Bool.not_eq_true', decide_eq_true_eq] at hq
      refine ⟨?_, hq.2, ?_⟩
      · rintro he
        rw [he] at hq
        exact absurd hq.1 (by decide)
      · rintro he
        rw [he] at h
        exact absurd h (by decide)
    · exact absurd h (by rw [hnone]; exact Bool.false_ne_true)

/-- At every update of every run the figures published are those of the newest request, and the
request that an ok `sendForm.q` lets Confirm submit is the one they priced. -/
theorem quote_priced {s : State} (h : backend.Reach s) :
    (∀ x ∈ s.core.seen, x.Priced) ∧
      (s.core.published.quoteRequestJson = .empty ∨
        s.core.published.quoteRequestJson = s.core.quoteRequest) ∧
      ∀ x ∈ s.core.seen, ∀ formRequest,
        ((SendForm.q x.published formRequest).value "ok").toBool = true →
          formRequest = x.quoteRequest ∧
            Answered x.log x.published.shown (PricedBy formRequest x.published.quoteJson) := by
  have hi : s.core.QuoteInv := Core.of_reach Core.quoteInv_new (fun _ _ hi h => hi.congr h)
    (fun _ _ hi ha h => hi.act ha h) (fun _ gen slot res hi => hi.feeTiersReplied gen slot res) h
  refine ⟨hi.seen, hi.now.request, fun x hx formRequest hq => ?_⟩
  obtain ⟨hne, hreq, hquote⟩ := SendForm.q_ok hq
  obtain ⟨hnew, hans⟩ := ((hi.seen x hx).resolve_left hne).resolve_left hquote
  have hform : formRequest = x.quoteRequest := hreq.symm.trans hnew
  rw [hform]
  exact ⟨rfl, hans⟩

/-- What the form describes, for a recipient and a network that stay. -/
def formFor (amountUnits : String) : Text :=
  toJsonCompact [("to", .str "0xB"), ("amountUnits", .str amountUnits)]

/-- The form is edited away from a request and back to it while the first is being priced. -/
def editedBack : List Event :=
  opened ++ [.reply 0 (some (okReply [("address", .str "0xA"), ("chainId", .int 1)])),
    .slot (.quote (formFor "1")), .slot (.quote (formFor "2")), .slot (.quote (formFor "1")),
    .reply 3 (some (okReply [("from", .str "0xA"), ("fee", .str "late")])),
    .reply 3 (some (okReply [("from", .str "0xA"), ("fee", .str "asked again")]))]

/-- Only the second answer is shown. -/
theorem quote_priced_editedBack :
    (parseObject (State.after editedBack).core.published.quoteJson).value "fee" =
        some (.str "asked again") ∧
      ∀ x ∈ (State.after editedBack).core.seen, x.Priced :=
  ⟨by decide +kernel, (quote_priced (State.reach_after editedBack (by decide +kernel))).1⟩

/-- The next edit withdraws the figures first, and for that update the request they priced stands
beside none. -/
theorem request_outlives :
    ¬∀ s, backend.Reach s → ∀ x ∈ s.core.seen,
      x.published.quoteRequestJson ≠ .empty → x.published.quoteRequestJson = x.quoteRequest := by
  intro h
  have hx := h (State.after (editedBack ++ [.slot (.quote (formFor "2"))]))
    (State.reach_after (editedBack ++ [.slot (.quote (formFor "2"))]) (by decide +kernel))
  exact absurd hx (by decide +kernel)

end EthWalletUi
