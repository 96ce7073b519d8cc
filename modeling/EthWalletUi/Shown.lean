import EthWalletUi.Backend.Attribution

/-!
# What is shown was read for the selection on screen

`ShownAt log sel s`: every scoped value of `s` is empty, or was read in an answer among those in
`log`, to a call issued under a selection that is the same as `sel`; and the fees and the verdict
name no other chain. It is kept by every single property update (`Core.ShownInv`), also between the
writes of one transition, because each write is of a value that is owed to the same selection, and
because a move withdraws what is owed to the old one before it publishes the new one.

What the wallet authors itself is not read in a reply, the composer's replies are adapted to the
chain on screen before they are checked, and a resend's quote is not checked (`shown_unread`).
-/

namespace EthWalletUi

open Qt Machine

/-! ## Where a value comes from -/

/-- An answer among those heard, to a call issued under a selection that is the same. -/
def Answered (log : List Heard) (sel : Selection) (P : Call → Option Text → Prop) : Prop :=
  ∃ call res, .reply call res ∈ log ∧ call.under.same sel = true ∧ P call res

theorem Answered.mono {log log' : List Heard} {sel : Selection} {P : Call → Option Text → Prop}
    (h : Answered log sel P) (hl : log ⊆ log') : Answered log' sel P := by
  obtain ⟨call, res, hm, hs, hp⟩ := h
  exact ⟨call, res, hl hm, hs, hp⟩

theorem Answered.same {log : List Heard} {sel sel' : Selection} {P : Call → Option Text → Prop}
    (h : Answered log sel P) (hs' : sel.same sel' = true) : Answered log sel' P := by
  obtain ⟨call, res, hm, hs, hp⟩ := h
  exact ⟨call, res, hm, Selection.same_trans hs hs', hp⟩

/-- What is read in the answer to a balances call, adapted to the chain it was issued for. -/
def BalancesRead (call : Call) (res : Option Text) (read : ScopedState) : Prop :=
  ∃ who gen sortGen slot raw networks,
    call.callback = .balances who gen sortGen slot ∧ res = some raw ∧
    accountAgrees raw call.under = true ∧
    answersFor (flattenBalances raw networks call.under.chainId) call.under = true ∧
    read = (applyBalances { «at» := call.under }
      (flattenBalances raw networks call.under.chainId)).1

/-- What is read in the answer to a history call. -/
def HistoryRead (call : Call) (res : Option Text) (read : ScopedState) : Prop :=
  ∃ who gen slot raw now,
    call.callback = .history who gen slot ∧ res = some raw ∧
    accountAgrees raw call.under = true ∧
    answersFor (scopeComposerHistory raw call.under.chainId) call.under = true ∧
    read = (applyHistory { «at» := call.under }
      (scopeComposerHistory raw call.under.chainId) now).1

/-- What is read in an ok answer to `prepare_send`. -/
def QuoteRead (call : Call) (res : Option Text) (quote : Text) : Prop :=
  ∃ priced interactive gen qgen slot,
    call.callback = .quote priced interactive gen qgen slot ∧ res = some quote ∧
    replyOk quote = true ∧ answersFor quote call.under = true

/-- The refusal of a quote. -/
def QuoteRefused (call : Call) (res : Option Text) (error : String) : Prop :=
  ∃ priced interactive gen qgen slot,
    call.callback = .quote priced interactive gen qgen slot ∧
    replyOk (res.getD .empty) = false ∧ error = replyError (res.getD .empty)

/-- A send refused under a selection that is the same. -/
def SendRefused (log : List Heard) (sel : Selection) (error : String) : Prop :=
  ∃ requestJson gen under reply,
    .returned (.send requestJson gen under) reply ∈ log ∧ under.same sel = true ∧
    replyOk reply = false ∧ error = replyError reply

/-- The detail of the transaction that was asked about, or, when the call failed or its answer
names no hash, the refusal authored for that transaction. -/
def DetailsRead (call : Call) (res : Option Text) (details : Text) : Prop :=
  ∃ who hash gen slot,
    call.callback = .txDetails who hash gen slot ∧
    (res = some details ∧ (parseObject details).contains "hash" = true ∨
      (∀ reply, res = some reply → (parseObject reply).contains "hash" = false) ∧
        details = detailsUnavailable hash) ∧
    answersFor details call.under = true ∧
    sameHexValue ((parseObject details).value "hash").toString hash = true

/-- A resend priced for review. -/
def ResendRead (call : Call) (res : Option Text) (review : Text) : Prop :=
  ∃ request gen slot reply,
    call.callback = .resendQuote request gen slot ∧ res = some reply ∧ replyOk reply = true ∧
    review = toJsonCompact [("request", .obj request), ("quote", .obj (parseObject reply))]

/-- Every scoped value is empty or read for the selection; with no account, the lists are the
wallet's own empty ones. -/
structure ShownAt (log : List Heard) (sel : Selection) (s : ScopedState) : Prop where
  balances : s.balances = .empty ∨ Answered log sel fun call res =>
    ∃ read, BalancesRead call res read ∧ s.balances = read.balances
  balancesRoute : s.balancesRoute = "" ∨ Answered log sel fun call res =>
    ∃ read, BalancesRead call res read ∧ s.balancesRoute = read.balancesRoute
  history : s.history = .empty ∨ sel.account = "" ∧ s.history = emptyArray ∨
    Answered log sel fun call res => ∃ read, HistoryRead call res read ∧ s.history = read.history
  blockedChains : s.blockedChains = .empty ∨ sel.account = "" ∧ s.blockedChains = emptyArray ∨
    Answered log sel fun call res =>
      ∃ read, HistoryRead call res read ∧ s.blockedChains = read.blockedChains
  blockedNonces : s.blockedNonces = .empty ∨ Answered log sel fun call res =>
    ∃ read, HistoryRead call res read ∧ s.blockedNonces = read.blockedNonces
  resendReview : s.resendReview = .empty ∨
    Answered log sel fun call res => ResendRead call res s.resendReview
  quote : s.quote = emptyObject ∨ Answered log sel fun call res => QuoteRead call res s.quote
  sendError : s.sendError = "" ∨
    Answered log sel (fun call res => QuoteRefused call res s.sendError) ∨
    SendRefused log sel s.sendError
  txDetails : s.txDetails = .empty ∨
    Answered log sel fun call res => DetailsRead call res s.txDetails
  feeTiers : chainAgrees s.feeTiers sel = true
  verifiedProxy : chainAgrees s.verifiedProxy sel = true

namespace ShownAt

variable {log : List Heard} {sel : Selection} {s : ScopedState}

/-- Nothing heard is forgotten. -/
theorem mono {log' : List Heard} (h : ShownAt log sel s) (hl : log ⊆ log') :
    ShownAt log' sel s where
  balances := h.balances.imp_right (·.mono hl)
  balancesRoute := h.balancesRoute.imp_right (·.mono hl)
  history := h.history.imp_right (·.imp_right (·.mono hl))
  blockedChains := h.blockedChains.imp_right (·.imp_right (·.mono hl))
  blockedNonces := h.blockedNonces.imp_right (·.mono hl)
  resendReview := h.resendReview.imp_right (·.mono hl)
  quote := h.quote.imp_right (·.mono hl)
  sendError := by
    rcases h.sendError with h | h | ⟨r, g, u, reply, hm, hr⟩
    · exact .inl h
    · exact .inr (.inl (h.mono hl))
    · exact .inr (.inr ⟨r, g, u, reply, hl hm, hr⟩)
  txDetails := h.txDetails.imp_right (·.mono hl)
  feeTiers := h.feeTiers
  verifiedProxy := h.verifiedProxy

theorem account_empty_of_same {sel sel' : Selection} (h : sel.same sel' = true)
    (he : sel.account = "") : sel'.account = "" := by
  have hf := (Selection.same_iff.mp h).2
  rw [he] at hf
  simp only [sameFolded, beq_iff_eq, String.toList_empty, List.map_nil] at hf
  exact String.toList_eq_nil_iff.mp (List.map_eq_nil_iff.mp hf.symm)

/-- A selection that is the same shows the same. -/
theorem same {sel' : Selection} (h : ShownAt log sel s) (hs : sel.same sel' = true) :
    ShownAt log sel' s where
  balances := h.balances.imp_right (·.same hs)
  balancesRoute := h.balancesRoute.imp_right (·.same hs)
  history := h.history.imp_right fun h =>
    h.imp (And.imp_left (account_empty_of_same hs)) (·.same hs)
  blockedChains := h.blockedChains.imp_right fun h =>
    h.imp (And.imp_left (account_empty_of_same hs)) (·.same hs)
  blockedNonces := h.blockedNonces.imp_right (·.same hs)
  resendReview := h.resendReview.imp_right (·.same hs)
  quote := h.quote.imp_right (·.same hs)
  sendError := by
    rcases h.sendError with h | h | ⟨r, g, u, reply, hm, hu, hr⟩
    · exact .inl h
    · exact .inr (.inl (h.same hs))
    · exact .inr (.inr ⟨r, g, u, reply, hm, Selection.same_trans hu hs, hr⟩)
  txDetails := h.txDetails.imp_right (·.same hs)
  feeTiers := by
    have := h.feeTiers
    rwa [chainAgrees, (Selection.same_iff.mp hs).1] at this
  verifiedProxy := by
    have := h.verifiedProxy
    rwa [chainAgrees, (Selection.same_iff.mp hs).1] at this

end ShownAt

/-! ## Publishing -/

/-- The published values, as one write leaves them. -/
theorem ShownAt.write {log : List Heard} {sel : Selection} {s : ScopedState}
    {p : Published} (h : ShownAt log sel p.snapshot) (hs : ShownAt log sel s)
    {f : Published → Published} (hf : f ∈ Core.scopeWrites s) : ShownAt log sel (f p).snapshot := by
  simp only [Core.scopeWrites, List.mem_cons, List.not_mem_nil, or_false] at hf
  rcases hf with rfl | rfl | rfl | rfl | rfl | rfl | rfl | rfl | rfl | rfl | rfl | rfl | rfl |
    rfl | rfl
  · exact { h with }
  · exact { h with balances := hs.balances }
  · exact { h with balancesRoute := hs.balancesRoute }
  · exact { h with history := hs.history }
  · exact { h with blockedChains := hs.blockedChains }
  · exact { h with blockedNonces := hs.blockedNonces }
  · exact { h with resendReview := hs.resendReview }
  · exact { h with quote := hs.quote }
  · exact { h with }
  · exact { h with }
  · exact { h with sendError := hs.sendError }
  · exact { h with txDetails := hs.txDetails }
  · exact { h with }
  · exact { h with feeTiers := hs.feeTiers }
  · exact { h with verifiedProxy := hs.verifiedProxy }

namespace Core

variable {c c' : Core}

/-- What is published, and what was published by every update so far, was read for the selection
published with it. -/
structure ShownInv (c : Core) : Prop where
  now : ShownAt c.log c.shown c.scopeSnapshot
  seen : ∀ x ∈ c.seen, ShownAt x.log x.published.shown x.published.snapshot

theorem ShownInv.set (hi : c.ShownInv) {f : Published → Published}
    (h : ShownAt c.log (f c.published).shown (f c.published).snapshot) : (c.set f).ShownInv := by
  refine ⟨?_, fun x hx => ?_⟩
  · unfold Core.shown Core.scopeSnapshot
    rw [set_published, set_log]
    exact h
  · rcases c.mem_seen_set hx with hx | rfl
    · exact hi.seen x hx
    · exact h

/-- Publishing values that were read for the selection on screen, one after the other. -/
theorem ShownInv.publishScope (hi : c.ShownInv) {s : ScopedState} (h : ShownAt c.log c.shown s) :
    (c.publishScope s).ShownInv := by
  have hkept : (c.publishScope s).ShownInv ∧ (c.publishScope s).log = c.log ∧
      (c.publishScope s).shown = c.shown := by
    refine c.publishScope_induct (I := fun d => d.ShownInv ∧ d.log = c.log ∧ d.shown = c.shown)
      ⟨hi, rfl, rfl⟩ ?_
    rintro d f hf ⟨hd, hl, hs⟩
    refine ⟨hd.set ?_, (d.set_log f).trans hl, (d.set_shown hf).trans hs⟩
    have hn := hd.now
    rw [hl, hs] at hn
    rw [scopeWrites_shown hf, hl]
    show ShownAt c.log d.shown _
    rw [hs]
    exact hn.write h hf
  exact hkept.1

theorem ShownInv.congr (hi : c.ShownInv) (h : c.SameScreen c') : c'.ShownInv := by
  refine ⟨?_, by rw [h.seen]; exact hi.seen⟩
  unfold Core.shown Core.scopeSnapshot
  rw [h.published]
  exact hi.now.mono h.log

theorem publishScope_snapshot_eq (c : Core) (s : ScopedState) :
    (c.publishScope s).scopeSnapshot = { s with «at» := c.shown } := by
  unfold Core.scopeSnapshot
  rw [publishScope_published]
  rfl

theorem chainAgrees_emptyObject (sel : Selection) : chainAgrees emptyObject sel = true := rfl

theorem chainAgrees_of_chain {text : Text} {sel sel' : Selection} (h : sel'.chainId = sel.chainId)
    (ha : chainAgrees text sel = true) : chainAgrees text sel' = true := by
  unfold chainAgrees at ha ⊢
  rw [h]
  exact ha

/-- What is left after a move is shown rightly under either selection, chain by chain. -/
theorem enterScope_shown {log : List Heard} {s : ScopedState} {dest : Selection}
    (h : ShownAt log s.at s) (hm : s.at.same dest = false) (sel : Selection)
    (hs : sel.chainId = s.at.chainId ∨ s.at.chainId ≠ dest.chainId) :
    ShownAt log sel (enterScope s dest).1 := by
  have hblank : ∀ feeTiers verifiedProxy tokens,
      chainAgrees feeTiers sel = true → chainAgrees verifiedProxy sel = true →
      ShownAt log sel { «at» := dest, feeTiers, verifiedProxy, tokens } := by
    intro feeTiers verifiedProxy tokens hf hv
    exact ⟨.inl rfl, .inl rfl, .inl rfl, .inl rfl, .inl rfl, .inl rfl, .inl rfl, .inl rfl, .inl rfl,
      hf, hv⟩
  simp only [enterScope, hm, Bool.false_eq_true, if_false]
  split
  · exact hblank emptyObject emptyObject .empty (chainAgrees_emptyObject sel)
      (chainAgrees_emptyObject sel)
  · rename_i hc
    have hchain : sel.chainId = s.at.chainId := hs.resolve_right (by simpa using hc)
    exact hblank s.feeTiers s.verifiedProxy s.tokens (chainAgrees_of_chain hchain h.feeTiers)
      (chainAgrees_of_chain hchain h.verifiedProxy)

theorem ShownInv.publishSelection (hi : c.ShownInv) (account : String) (networkJson : Text) :
    (c.publishSelection account networkJson).ShownInv := by
  have hset : ∀ {d : Core}, d.ShownInv →
      ShownAt d.log (selectionOf account d.published.activeNetworkJson) d.scopeSnapshot →
      ShownAt d.log (selectionOf account networkJson) d.scopeSnapshot →
      ((d.set fun p => { p with selectedAccount := account }).set fun p =>
        { p with activeNetworkJson := networkJson }).ShownInv := by
    intro d hd hmid hend
    have h₁ : (d.set fun p => { p with selectedAccount := account }).ShownInv := by
      apply hd.set
      exact { hmid with }
    apply h₁.set
    obtain ⟨p, n, he⟩ := d.set_eq fun p => { p with selectedAccount := account }
    have hlog : (d.set fun p => { p with selectedAccount := account }).log = d.log := by rw [he]
    rw [set_published, hlog]
    exact { hend with }
  rw [publishSelection_eq_set]
  cases hsame : c.shown.same (selectionOf account networkJson) with
  | true =>
    obtain ⟨hchain, haccount⟩ := Selection.same_iff.mp hsame
    have hmid : c.shown.same (selectionOf account c.published.activeNetworkJson) = true :=
      Selection.same_iff.mpr ⟨rfl, haccount⟩
    rw [c.withdraw_same hsame]
    exact hset hi (hi.now.same hmid) (hi.now.same hsame)
  | false =>
    obtain ⟨v, hv⟩ := c.withdraw_moved hsame
    have hentered := fun sel hs => enterScope_shown (s := c.scopeSnapshot) hi.now hsame sel hs
    let c₁ : Core := { c with dataGen := c.dataGen + 1, quoteGen := c.quoteGen + 1 }
    let s₁ := (enterScope c.scopeSnapshot (selectionOf account networkJson)).1
    have hc₁ : c₁.ShownInv := hi.congr ⟨rfl, rfl, rfl, fun _ h => h⟩
    have h₁ : (c₁.publishScope s₁).ShownInv := hc₁.publishScope (hentered c.shown (.inl rfl))
    have h₂ : ShownInv { c₁.publishScope s₁ with vpSilent := v } :=
      h₁.congr ⟨rfl, rfl, rfl, fun _ h => h⟩
    have hsnap : (c₁.publishScope s₁).scopeSnapshot = { s₁ with «at» := c.shown } :=
      publishScope_snapshot_eq c₁ s₁
    have hlog : (c₁.publishScope s₁).log = c.log := publishScope_log c₁ s₁
    have hshown : (c₁.publishScope s₁).shown = c.shown := publishScope_shown c₁ s₁
    have hat : ∀ sel, sel.chainId = c.shown.chainId ∨
        c.shown.chainId ≠ (selectionOf account networkJson).chainId →
        ShownAt (c₁.publishScope s₁).log sel (c₁.publishScope s₁).scopeSnapshot := by
      intro sel hs
      rw [hlog, hsnap]
      exact { hentered sel hs with }
    rw [hv]
    refine hset h₂ ?_ ?_
    · have hchain : (c₁.publishScope s₁).shown.chainId = c.shown.chainId :=
        congrArg Selection.chainId hshown
      exact hat _ (.inl hchain)
    · refine hat _ ?_
      by_cases hc : c.shown.chainId = (selectionOf account networkJson).chainId
      · exact .inl hc.symm
      · exact .inr hc

/-! ## What each handler may publish -/

/-- An answer under the current generation was asked for under the selection on screen. -/
theorem AllAttributed.answered_now (ha : c.AllAttributed) {call : Call} {res : Option Text}
    {gen : Nat} (hm : .reply call res ∈ c.log) (hg : call.callback.gen = some gen)
    (heq : gen = c.dataGen) : call.under.same c.shown = true :=
  ((ha.replied call res hm).selection gen hg).2 heq

/-- What a balances answer under the current generation lets `applyBalances` publish. -/
theorem balances_shownAt (hi : c.ShownInv) (ha : c.AllAttributed) {who : String}
    {sortGen slot : Nat} {under : Selection} {res : Option Text}
    (hm : .reply ⟨.balances who c.dataGen sortGen slot, under⟩ res ∈ c.log) :
    ShownAt c.log c.shown (applyBalances c.scopeSnapshot (c.balancesReply res)).1 := by
  have hn := hi.now
  have hsame : under.same c.shown = true := ha.answered_now hm rfl rfl
  rcases applyBalances_cases c.scopeSnapshot (c.balancesReply res) with h | ⟨hans, ⟨hok, h⟩ | h⟩
  · rw [h]
    exact hn
  · cases res with
    | none => cases hok
    | some raw =>
      have hreply : c.balancesReply (some raw) =
          flattenBalances raw c.props.networksJson.array under.chainId := by
        rw [(Selection.same_iff.mp hsame).1]
        rfl
      have hans' : answersFor (c.balancesReply (some raw)) under = true :=
        (answersFor_same hsame _).trans hans
      have hread : BalancesRead ⟨.balances who c.dataGen sortGen slot, under⟩ (some raw)
          (applyBalances { «at» := under } (c.balancesReply (some raw))).1 := by
        refine ⟨who, c.dataGen, sortGen, slot, raw, c.props.networksJson.array, rfl, rfl, ?_, ?_, ?_⟩
        · rw [← accountAgrees_flattenBalances raw c.props.networksJson.array under.chainId,
            ← hreply]
          exact accountAgrees_of_answersFor hans'
        · rw [← hreply]
          exact hans'
        · rw [← hreply]
      rw [h]
      have hb : (applyBalances { «at» := under } (c.balancesReply (some raw))).1.balances =
            member (c.balancesReply (some raw)) "balances" ∧
          (applyBalances { «at» := under } (c.balancesReply (some raw))).1.balancesRoute =
            ((parseObject (c.balancesReply (some raw))).value "route").toString := by
        simp [applyBalances, hans', hok]
      exact { hn with
        balances := .inr ⟨_, _, hm, hsame, _, hread, hb.1.symm⟩
        balancesRoute := .inr ⟨_, _, hm, hsame, _, hread, hb.2.symm⟩ }
  · rw [h]
    exact { hn with balances := .inl rfl, balancesRoute := .inl rfl }

/-- What a history answer under the current generation lets `applyHistory` publish. -/
theorem history_shownAt (hi : c.ShownInv) (ha : c.AllAttributed) {who : String} {slot : Nat}
    {under : Selection} {res : Option Text} (now : Int)
    (hm : .reply ⟨.history who c.dataGen slot, under⟩ res ∈ c.log) :
    ShownAt c.log c.shown (applyHistory c.scopeSnapshot (c.historyReply res) now).1 := by
  have hn := hi.now
  have hsame : under.same c.shown = true := ha.answered_now hm rfl rfl
  rcases applyHistory_cases c.scopeSnapshot (c.historyReply res) now with
    h | ⟨hans, ⟨hok, hs, bs, ns, h⟩ | h⟩
  · rw [h]
    exact hn
  · cases res with
    | none => cases hok
    | some raw =>
      have hreply : c.historyReply (some raw) = scopeComposerHistory raw under.chainId := by
        rw [(Selection.same_iff.mp hsame).1]
        rfl
      have hans' : answersFor (c.historyReply (some raw)) under = true :=
        (answersFor_same hsame _).trans hans
      have hread : HistoryRead ⟨.history who c.dataGen slot, under⟩ (some raw)
          (applyHistory { «at» := under } (c.historyReply (some raw)) now).1 := by
        refine ⟨who, c.dataGen, slot, raw, now, rfl, rfl, ?_, ?_, ?_⟩
        · rw [← accountAgrees_scopeComposerHistory raw under.chainId, ← hreply]
          exact accountAgrees_of_answersFor hans'
        · rw [← hreply]
          exact hans'
        · rw [← hreply]
      obtain ⟨hh, hb, hbn⟩ :=
        @applyHistory_read c.scopeSnapshot { «at» := under } _ hans hans' hok now
      rw [h] at hh hb hbn ⊢
      exact { hn with
        history := .inr (.inr ⟨_, _, hm, hsame, _, hread, hh⟩)
        blockedChains := .inr (.inr ⟨_, _, hm, hsame, _, hread, hb⟩)
        blockedNonces := .inr ⟨_, _, hm, hsame, _, hread, hbn⟩ }
  · rw [h]
    exact { hn with history := .inl rfl, blockedNonces := .inl rfl }

theorem chainAgrees_unknownVerdict {sel : Selection} (h : inInt32 sel.chainId = true)
    (why : String) : chainAgrees (unknownVerdict sel.chainId why) sel = true := by
  have hv : (parseObject (unknownVerdict sel.chainId why)).value "chainId" =
      some (.int sel.chainId) := by
    simp [unknownVerdict, parseObject, toJsonCompact, JsonObject.value_cons]
  have hd : JsonValue.isDouble (some (.int sel.chainId)) = true := rfl
  simp [chainAgrees, replyScope, hv, hd, JsonValue.toInt_int h]

theorem shown_inInt32 (c : Core) : inInt32 c.shown.chainId = true := JsonValue.toInt_inInt32 _

/-- What a quote answer under the current generations lets `applyQuote` publish. -/
theorem quote_shownAt (hi : c.ShownInv) (ha : c.AllAttributed) {interactive : Bool} {slot : Nat}
    {priced : Text} {under : Selection} {res : Option Text}
    (hm : .reply ⟨.quote priced interactive c.dataGen c.quoteGen slot, under⟩ res ∈ c.log) :
    ShownAt c.log c.shown (applyQuote c.scopeSnapshot (res.getD .empty) priced interactive) := by
  have hn := hi.now
  have hsame : under.same c.shown = true := ha.answered_now hm rfl rfl
  rcases applyQuote_cases c.scopeSnapshot (res.getD .empty) priced interactive with
    ⟨hok, hans, h⟩ | h | ⟨hok, h⟩ | h
  · rw [h]
    cases res with
    | none => cases hok
    | some reply =>
      have hans' : answersFor reply under = true := (answersFor_same hsame _).trans hans
      exact { hn with
        quote := .inr ⟨_, _, hm, hsame, _, _, _, _, _, rfl, rfl, hok, hans'⟩ }
  · rw [h]
    exact { hn with quote := .inl rfl }
  · rw [h]
    exact { hn with
      quote := .inl rfl
      sendError := .inr (.inl ⟨_, _, hm, hsame, _, _, _, _, _, rfl, hok, rfl⟩) }
  · rw [h]
    exact { hn with }

/-- What an answer about one transaction lets `applyTxDetails` publish. -/
theorem txDetails_shownAt (hi : c.ShownInv) (ha : c.AllAttributed) {who hash : String}
    {slot : Nat} {under : Selection} {res : Option Text}
    (hm : .reply ⟨.txDetails who hash c.dataGen slot, under⟩ res ∈ c.log) :
    ShownAt c.log c.shown (applyTxDetails c.scopeSnapshot (res.getD .empty) hash).1 := by
  have hsame : under.same c.shown = true := ha.answered_now hm rfl rfl
  rcases applyTxDetails_cases c.scopeSnapshot (res.getD .empty) hash with
    h | ⟨r, hr, hans, hhash, h⟩
  · rw [h]
    exact hi.now
  · have hans' : answersFor r under = true := (answersFor_same hsame _).trans hans
    have hread : res = some r ∧ (parseObject r).contains "hash" = true ∨
        (∀ reply, res = some reply → (parseObject reply).contains "hash" = false) ∧
          r = detailsUnavailable hash := by
      rcases hr with ⟨hc, rfl⟩ | ⟨hc, rfl⟩
      · cases res with
        | none => cases hc
        | some reply => exact .inl ⟨rfl, hc⟩
      · refine .inr ⟨?_, rfl⟩
        rintro reply rfl
        exact hc
    rw [h]
    exact { hi.now with
      txDetails := .inr ⟨_, _, hm, hsame, _, _, _, _, rfl, hread, hans', hhash⟩ }

/-- A verdict is about the chain on screen, whoever gives it. -/
theorem verdict_shownAt (hi : c.ShownInv) (verdictJson : Text) (silent : Nat) :
    ShownAt c.log c.shown
      (applyVerdict c.scopeSnapshot verdictJson silent kMaxSilentPolls).1 := by
  have hn := hi.now
  rcases applyVerdict_cases c.scopeSnapshot verdictJson silent kMaxSilentPolls with
    h | ⟨v, hv, h⟩
  · rw [h]
    exact hn
  · have hchain : chainAgrees v c.shown = true := by
      rcases hv with ⟨rfl, hans⟩ | rfl
      · exact chainAgrees_of_answersFor hans
      · exact chainAgrees_unknownVerdict (shown_inInt32 c) _
    rcases h with h | h
    · rw [h]
      exact { hn with verifiedProxy := hchain }
    · rw [h]
      exact { hn with
        verifiedProxy := hchain, quote := .inl rfl, balancesRoute := .inl rfl }

theorem Scoped.shownAt (hi : c.ShownInv) (ha : c.AllAttributed) {s : ScopedState}
    (h : c.Scoped s) : ShownAt c.log c.shown s := by
  have hn := hi.now
  cases h with
  | tokens => exact { hn with }
  | noAccount he =>
    have he' : c.published.selectedAccount = "" := by simpa using he
    have hacc : c.shown.account = "" := he'
    exact { hn with
      balances := .inl rfl
      balancesRoute := .inl rfl
      history := .inr (.inl ⟨hacc, rfl⟩)
      blockedChains := .inr (.inl ⟨hacc, rfl⟩) }
  | balances hm => exact balances_shownAt hi ha hm
  | history hm => exact history_shownAt hi ha _ hm
  | quote hm => exact quote_shownAt hi ha hm
  | txDetails hm => exact txDetails_shownAt hi ha hm
  | verdict verdictJson silent => exact verdict_shownAt hi verdictJson silent
  | @resendReview request slot under res hm hok =>
    have hsame : under.same c.shown = true := ha.answered_now hm rfl rfl
    cases res with
    | none => cases hok
    | some reply =>
      exact { hn with
        resendReview := .inr ⟨_, _, hm, hsame, _, _, _, _, rfl, rfl, hok, rfl⟩ }
  | dismissed => exact { hn with resendReview := .inl rfl }
  | noError => exact { hn with sendError := .inl rfl }
  | @refused requestJson under reply hm hok =>
    have hsame : under.same c.shown = true :=
      ((ha.returned _ _ hm) requestJson c.dataGen under rfl).2 rfl
    exact { hn with
      sendError := .inr (.inr ⟨_, _, _, _, hm, hsame, hok, rfl⟩) }

/-- The figures priced for another request go, and may take the error with them. -/
theorem ShownInv.enterRequest (hi : c.ShownInv) (requestJson : Text) (interactive : Bool) :
    (c.enterRequest requestJson interactive).ShownInv := by
  obtain ⟨q, e, s, -, he, hs, heq⟩ := c.enterRequest_cases requestJson interactive
  have hn := hi.now
  have hd : ShownInv { c with quoteGen := q, quoteRequest := requestJson } := ⟨hn, hi.seen⟩
  have hquote : ShownAt c.log c.shown s ∧ s.sendError = c.published.sendError := by
    rcases hs with ⟨-, rfl⟩ | rfl
    · exact ⟨hn, rfl⟩
    · exact ⟨{ hn with quote := .inl rfl }, rfl⟩
  have herror : ShownAt c.log c.shown { s with sendError := e } := by
    rcases he with rfl | rfl
    · exact { hquote.1 with sendError := hn.sendError }
    · exact { hquote.1 with sendError := .inl rfl }
  rw [heq]
  exact hd.publishScope herror

/-- The tiers of a current answer name the chain on screen; the tiers of no other are published. -/
theorem ShownInv.feeTiersReplied (hi : c.ShownInv) (gen slot : Nat) (res : Option Text) :
    (c.feeTiersReplied gen slot res).ShownInv := by
  let c₁ : Core := { c with guards.fees := c.guards.fees.release slot }
  have h₁ : c₁.ShownInv := hi.congr ⟨rfl, rfl, rfl, fun _ h => h⟩
  have hn := h₁.now
  have htiers : ShownAt c₁.log c₁.shown (applyFeeTiers c₁.scopeSnapshot (res.getD .empty)) := by
    unfold applyFeeTiers
    split
    · rename_i h
      have hans : answersFor (res.getD .empty) c₁.shown = true := (Bool.and_eq_true_iff.mp h).2
      exact { hn with feeTiers := chainAgrees_of_answersFor hans }
    · exact { hn with feeTiers := chainAgrees_emptyObject _ }
  simp only [Core.feeTiersReplied]
  split
  · exact h₁
  · exact (h₁.publishScope htiers).congr ⟨rfl, rfl, rfl, fun _ h => h⟩

/-! ## Runs -/

theorem ShownInv.act (hi : c.ShownInv) (ha : c.AllAttributed) (h : c.Act c') : c'.ShownInv := by
  cases h with
  | aside h => exact hi.congr h.sameScreen
  | publish hs => exact hi.publishScope (hs.shownAt hi ha)
  | account | noChain => exact hi.publishSelection _ _
  | adopt networkJson =>
    have hmoved := hi.publishSelection c.published.selectedAccount networkJson
    exact hmoved.congr ⟨rfl, rfl, rfl, fun _ h => h⟩
  | pick networkJson =>
    exact (hi.publishSelection c.published.selectedAccount networkJson).congr
      (refresh_sameScreen _ _)
  | quote => exact hi.enterRequest _ _
  | forget =>
    have h₁ : ShownInv { c with quoteGen := c.quoteGen + 1, quoteRequest := .empty } :=
      ⟨hi.now, hi.seen⟩
    apply h₁.publishScope
    exact { hi.now with quote := .inl rfl }
  | issue | enter | queue | again => exact hi.congr ⟨rfl, rfl, rfl, fun _ h => h⟩
  | refresh => exact hi.congr (c.refresh_sameScreen _)
  | fees => exact hi.congr c.loadFeeTiers_sameScreen
  | land => exact hi.congr c.land_sameScreen

/-- A new wallet shows nothing. -/
theorem shownInv_new : ShownInv {} where
  now := by
    show ShownAt [] (selectionOf "" emptyObject) (Published.snapshot {})
    constructor
    case feeTiers => exact chainAgrees_emptyObject _
    case verifiedProxy => exact chainAgrees_emptyObject _
    all_goals exact .inl rfl
  seen _ h := absurd h List.not_mem_nil

end Core

/-- At every update of every run, and in every state reached, what is shown was read for the
selection on screen, be it fresh or not. -/
theorem shown_read {s : State} (h : backend.Reach s) :
    ShownAt s.core.log s.core.shown s.core.scopeSnapshot ∧
      ∀ x ∈ s.core.seen, ShownAt x.log x.published.shown x.published.snapshot := by
  have hi : s.core.ShownInv := Core.of_reach Core.shownInv_new (fun _ _ hi h => hi.congr h)
    (fun _ _ hi ha h => hi.act ha h) (fun _ gen slot res hi => hi.feeTiersReplied gen slot res) h
  exact ⟨hi.now, hi.seen⟩

/-- The balances of `0xA`, which name chain 5 though chain 1 is on screen. -/
def strayBalances : List Event :=
  opened ++ [.reply 0 (some (okReply [("address", .str "0xA"), ("chainId", .int 5)]))]

/-- A transaction's detail is asked for, and the call fails. -/
def failedDetails : List Event :=
  strayBalances ++ [.slot (.fetchTxDetails "0x1"), .reply 3 none]

/-- Balances read, and a transaction's detail. -/
theorem shown_read_failedDetails :
    (State.after failedDetails).core.published.balancesJson ≠ .empty ∧
      ShownAt (State.after failedDetails).core.log (State.after failedDetails).core.shown
        (State.after failedDetails).core.scopeSnapshot :=
  ⟨by decide +kernel, (shown_read (State.reach_after failedDetails (by decide +kernel))).1⟩

/-! ## What is shown and was not read so -/

/-- What the calls answered by an update were answered with. -/
def Seen.answers (x : Seen) : List Text :=
  x.log.filterMap fun
    | .reply _ res => some (res.getD .empty)
    | _ => none

/-- A stalled transfer is priced again: the quote names chain 5. -/
def strayResend : List Event :=
  .elapse 1000000 :: strayBalances ++
    [.reply 2 (some (okReply [("address", .str "0xA"),
      ("transactions", .arr [.obj [("chainId", .int 1), ("nonce", .int 0), ("from", .str "0xA"),
        ("status", .str "pending"), ("stalled", .bool true), ("maxFeePerGas", .str "1"),
        ("maxPriorityFeePerGas", .str "1"), ("meta", .obj [("kind", .str "native"),
          ("recipient", .str "0xB"), ("amount", .str "1")])]])])),
     .slot (.resendBlockedNonce 1),
     .reply 2 (some (okReply [("tiers", .obj [("normal", .obj [("maxFeePerGas", .str "2"),
       ("maxPriorityFeePerGas", .str "2")])])])),
     .reply 2 (some (okReply [("chainId", .int 5), ("from", .str "0xA")]))]

/-- With no account selected the history is the wallet's own; so is the detail of a transaction when
the call for it fails; balances and a resend's quote may name another chain. -/
theorem shown_unread :
    (∃ s, backend.Reach s ∧ ∃ x ∈ s.core.seen, x.published.scopedDataFresh = true ∧
      x.published.historyJson = emptyArray ∧ x.answers = []) ∧
    (∃ s, backend.Reach s ∧ ∃ x ∈ s.core.seen, x.published.scopedDataFresh = true ∧
      x.published.txDetailsJson ≠ .empty ∧ x.published.txDetailsJson ∉ x.answers) ∧
    (∃ s, backend.Reach s ∧ ∃ x ∈ s.core.seen, x.published.scopedDataFresh = true ∧
      x.published.balancesJson ≠ .empty ∧
      ∀ reply ∈ x.answers, chainAgrees reply x.published.shown = false) ∧
    (∃ s, backend.Reach s ∧ ∃ x ∈ s.core.seen, x.published.scopedDataFresh = true ∧
      ∃ reply ∈ x.answers, chainAgrees reply x.published.shown = false ∧
        (parseObject x.published.resendReviewJson).value "quote" =
          some (.obj (parseObject reply))) := by
  exact ⟨⟨_, State.reach_after [.slot (.selectAccount "")] (by decide +kernel), by decide +kernel⟩,
    ⟨_, State.reach_after failedDetails (by decide +kernel), by decide +kernel⟩,
    ⟨_, State.reach_after strayBalances (by decide +kernel), by decide +kernel⟩,
    ⟨_, State.reach_after strayResend (by decide +kernel), by decide +kernel⟩⟩

end EthWalletUi
