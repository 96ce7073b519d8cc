import EthWalletUi.Backend.Attribution

/-!
# The fee read and a selection that moves

The fee read has a claim but no queue behind it, and its reply is dropped when the selection has
moved since. A move of the chain is followed by a refresh, which reads the fees again; a move of the
account alone is not, so a reply dropped for it is never asked for again (`fee_read_lost`).
`fees_decided` is what holds as long as no reply is dropped that way.

* `Core.feesDecided`: the last fee reply was about the chain selected and decided what is published.
* `Core.FeesDue`: it is, or a read is outstanding, a refresh will ask, or there is no chain.
* `Act.feesDue`, `Turn.feesInv`: no act, and no event, loses that.
-/

namespace EthWalletUi

open Qt Machine

/-! ## What a fee reply decides -/

/-- What a fee reply to a call issued under a selection comes to. -/
def feesFor (under : Selection) (reply : Text) : Text :=
  if replyOk reply && answersFor reply under then reply else emptyObject

theorem feesFor_same {s o : Selection} (h : s.same o = true) (reply : Text) :
    feesFor s reply = feesFor o reply := by
  simp only [feesFor, answersFor_same h]

/-- The last answer to a fee read: the chain the read named, the selection, and the reply. -/
def lastFees : List Heard → Option (Int × Selection × Text)
  | [] => none
  | .reply ⟨.feeTiers chainId _ _, under⟩ res :: _ => some (chainId, under, res.getD .empty)
  | _ :: log => lastFees log

theorem lastFees_reply {call : Call} (h : call.callback.isFeeTiers = false) (res : Option Text)
    (log : List Heard) : lastFees (.reply call res :: log) = lastFees log := by
  obtain ⟨callback, under⟩ := call
  cases callback with
  | feeTiers => cases h
  | _ => rfl

namespace Core

variable (c : Core)

def feesDecided : Bool :=
  match lastFees c.log with
  | some (chainId, under, reply) =>
    chainId == c.shown.chainId && c.published.feeTiersJson == feesFor under reply
  | none => false

theorem feesDecided_of {c : Core} {chainId : Int} {under : Selection} {reply : Text}
    (hl : lastFees c.log = some (chainId, under, reply)) (hz : chainId = c.shown.chainId)
    (hf : c.published.feeTiersJson = feesFor under reply) : c.feesDecided = true := by
  simp [feesDecided, hl, hz, hf]

theorem feesDecided_congr {c c' : Core} (hl : lastFees c'.log = lastFees c.log)
    (hs : c'.shown.chainId = c.shown.chainId)
    (hf : c'.published.feeTiersJson = c.published.feeTiersJson) :
    c'.feesDecided = c.feesDecided := by
  simp only [feesDecided, hl, hs, hf]

/-! ## The claim and its call -/

/-- The fee reads outstanding. -/
def feeCalls : List Call := c.calls.filter (·.callback.isFeeTiers)

/-- A refresh is running or queued. -/
def refreshing : Bool := c.inFlight || c.refreshAgain || c.soon.contains .refresh

/-- The fees are decided, or will be. -/
def FeesDue : Prop :=
  c.feeCalls ≠ [] ∨ c.refreshing = true ∨ c.shown.chainId = 0 ∨ c.feesDecided = true

/-- At most one fee read is outstanding, and its claim is live. -/
structure FeesInv : Prop where
  one : c.feeCalls.length ≤ 1
  live : ∀ call ∈ c.feeCalls, ∀ chainId gen slot, call.callback = .feeTiers chainId gen slot →
    c.guards.fees.flight.held = true ∧ slot = c.guards.fees.flight.ticket ∧
      c.now < c.guards.fees.flight.deadline
  held : c.guards.fees.flight.held = true → c.feeCalls ≠ []
  due : c.FeesDue

/-- Only a fee reply publishes fees. -/
theorem Scoped.feeTiers_eq {c : Core} {s : ScopedState} (h : c.Scoped s) :
    s.feeTiers = c.published.feeTiersJson := by
  cases h with
  | @balances _ _ _ _ res _ =>
    rcases applyBalances_cases c.scopeSnapshot (c.balancesReply res) with h | ⟨-, ⟨-, h⟩ | h⟩
    all_goals
      rw [h]
      rfl
  | @history _ _ _ res _ =>
    rcases applyHistory_cases c.scopeSnapshot (c.historyReply res) (c.now / 1000 : Nat) with
      h | ⟨-, ⟨-, hs, bs, ns, h⟩ | h⟩
    all_goals
      rw [h]
      rfl
  | @quote interactive _ priced _ res _ =>
    rcases applyQuote_cases c.scopeSnapshot (res.getD .empty) priced interactive with
      ⟨-, -, h⟩ | h | ⟨-, h⟩ | h
    all_goals
      rw [h]
      rfl
  | @txDetails _ hash _ _ res _ =>
    rcases applyTxDetails_cases c.scopeSnapshot (res.getD .empty) hash with h | ⟨r, -, -, -, h⟩
    all_goals
      rw [h]
      rfl
  | verdict verdictJson silent =>
    rcases applyVerdict_cases c.scopeSnapshot verdictJson silent kMaxSilentPolls with
      h | ⟨v, -, h | h⟩
    all_goals
      rw [h]
      rfl
  | _ => rfl

theorem publishScope_feeTiersJson (s : ScopedState) :
    (c.publishScope s).published.feeTiersJson = s.feeTiers := by
  rw [publishScope_published]
  rfl

/-- A move of the account alone keeps the chain and its fees. -/
theorem setSelectedAccount_fees (address : String) :
    (c.setSelectedAccount address).shown.chainId = c.shown.chainId ∧
      (c.setSelectedAccount address).published.feeTiersJson = c.published.feeTiersJson := by
  have hchain : (selectionOf address c.published.activeNetworkJson).chainId = c.shown.chainId := rfl
  refine ⟨by rw [setSelectedAccount, publishSelection_shown]; rfl, ?_⟩
  rw [setSelectedAccount, publishSelection_eq_set, set_published, set_published]
  show (c.withdraw _).published.feeTiersJson = _
  cases h : c.shown.same (selectionOf address c.published.activeNetworkJson) with
  | true => rw [c.withdraw_same h]
  | false =>
    obtain ⟨v, hv⟩ := c.withdraw_moved h
    have h' : c.scopeSnapshot.at.same (selectionOf address c.published.activeNetworkJson) = false :=
      h
    have hc' : (c.scopeSnapshot.at.chainId !=
        (selectionOf address c.published.activeNetworkJson).chainId) = false := by
      rw [hchain]
      exact bne_self_eq_false _
    rw [hv, publishScope_feeTiersJson, enterScope, h', hc']
    rfl

theorem refresh_refreshing (after : After) : (c.refresh after).refreshing = true := by
  simp only [Core.refresh]
  split
  · have h := { c with refreshAgain := true }.afterRefresh_aside after
    simp [refreshing, h.refreshAgain]
  · rfl

theorem feeCalls_append {callback : Callback} (h : callback.isFeeTiers = false) :
    (c.issue callback).feeCalls = c.feeCalls := by
  simp [feeCalls, issue, List.filter_append, h]

theorem isFeeTiers_of_issued {c : Core} {callback : Callback} (h : c.Issued callback) :
    callback.isFeeTiers = false := by
  cases callback with
  | feeTiers => exact h.elim
  | _ => rfl

theorem refresh_feeCalls (after : After) :
    (c.refresh after).feeCalls = c.feeCalls ∧
      (c.refresh after).guards.fees.flight = c.guards.fees.flight := by
  simp only [Core.refresh]
  split
  · have h := { c with refreshAgain := true }.afterRefresh_aside after
    exact ⟨by rw [feeCalls, h.calls]; rfl, h.fees⟩
  · exact ⟨rfl, rfl⟩

/-- Every act but the fee read keeps the outstanding reads and the claim. -/
theorem Act.feeCalls_eq {c c' : Core} (h : c.Act c') :
    c' = c.loadFeeTiers ∨
      c'.feeCalls = c.feeCalls ∧ c'.guards.fees.flight = c.guards.fees.flight := by
  have hselect : ∀ account networkJson,
      (c.publishSelection account networkJson).feeCalls = c.feeCalls ∧
        (c.publishSelection account networkJson).guards.fees.flight = c.guards.fees.flight := by
    intro account networkJson
    simp [feeCalls]
  cases h with
  | fees => exact .inl rfl
  | aside h => exact .inr ⟨by rw [feeCalls, h.calls]; rfl, h.fees⟩
  | publish => exact .inr (by simp [feeCalls])
  | account | noChain | adopt => exact .inr (hselect _ _)
  | pick networkJson =>
    obtain ⟨hc, hf⟩ := (c.setActiveNetworkJson networkJson).refresh_feeCalls .nothing
    exact .inr ⟨hc.trans (hselect _ _).1, hf.trans (hselect _ _).2⟩
  | quote =>
    refine .inr ?_
    simp only [enterRequest, feeCalls, publishScope_calls, publishScope_guards]
    split <;> exact ⟨rfl, rfl⟩
  | forget => exact .inr (by simp [forgetRequest, feeCalls])
  | issue hi => exact .inr ⟨c.feeCalls_append (isFeeTiers_of_issued hi), rfl⟩
  | enter | queue | again => exact .inr ⟨rfl, rfl⟩
  | refresh => exact .inr (c.refresh_feeCalls _)
  | land =>
    simp only [Core.land]
    split <;> exact .inr ⟨rfl, rfl⟩

/-- What a due fee read rests on, where the chain and the fees stay. -/
theorem FeesDue.congr' {c c' : Core} (h : c.FeesDue) (hc : c'.feeCalls = c.feeCalls)
    (hr : c.refreshing = true → c'.refreshing = true) (hl : lastFees c'.log = lastFees c.log)
    (hs : c'.shown.chainId = c.shown.chainId)
    (hf : c'.published.feeTiersJson = c.published.feeTiersJson) : c'.FeesDue := by
  rcases h with h | h | h | h
  · exact .inl (by rw [hc]; exact h)
  · exact .inr (.inl (hr h))
  · exact .inr (.inr (.inl (hs.trans h)))
  · exact .inr (.inr (.inr (by rw [feesDecided_congr hl hs hf]; exact h)))

theorem FeesDue.congr {c c' : Core} (h : c.FeesDue) (hc : c'.feeCalls = c.feeCalls)
    (hr : c.refreshing = true → c'.refreshing = true) (hl : c'.log = c.log)
    (hs : c'.shown.chainId = c.shown.chainId)
    (hf : c'.published.feeTiersJson = c.published.feeTiersJson) : c'.FeesDue :=
  h.congr' hc hr (by rw [hl]) hs hf

theorem publishScope_refreshing (s : ScopedState) :
    (c.publishScope s).refreshing = c.refreshing := by
  simp [refreshing]

/-- A live claim is the one of the read outstanding. -/
theorem FeesInv.feeCalls_of_busy {c : Core} (hi : c.FeesInv)
    (hb : c.guards.fees.flight.busy c.now = true) : c.feeCalls ≠ [] := by
  simp only [InFlight.busy, Bool.and_eq_true] at hb
  exact hi.held hb.1

theorem FeesInv.feeCalls_of_free {c : Core} (hi : c.FeesInv)
    (hb : c.guards.fees.flight.busy c.now = false) : c.feeCalls = [] := by
  cases hc : c.feeCalls with
  | nil => rfl
  | cons call calls =>
    have hm : call ∈ c.feeCalls := by simp [hc]
    have hf : call.callback.isFeeTiers = true := (List.mem_filter.mp hm).2
    cases hcb : call.callback with
    | feeTiers chainId gen slot =>
      obtain ⟨hh, -, hn⟩ := hi.live call hm chainId gen slot hcb
      simp [InFlight.busy, hh, hn] at hb
    | _ =>
      rw [hcb] at hf
      cases hf

/-- What the fee read does: it is refused, there is no chain to read for, or it goes out. -/
theorem loadFeeTiers_cases :
    c.guards.fees.flight.busy c.now = true ∧ c.loadFeeTiers = c ∨
    c.guards.fees.flight.busy c.now = false ∧ c.shown.chainId = 0 ∧
      (∃ fees, fees.flight.held = false ∧
        c.loadFeeTiers = { c with guards.fees := fees }) ∨
    c.guards.fees.flight.busy c.now = false ∧ c.shown.chainId ≠ 0 ∧
      ∃ fees, fees.flight.held = true ∧ c.now < fees.flight.deadline ∧
        c.loadFeeTiers = { c with guards.fees := fees }.issue
          (.feeTiers c.shown.chainId c.dataGen fees.flight.ticket) := by
  simp only [loadFeeTiers]
  rcases c.guards.fees.beginClaim_cases c.now 1 kSendCallBudgetMs with ⟨hb, h⟩ | ⟨hb, h⟩
  · rw [h]
    simp only
    split
    · exact .inr (.inl ⟨hb, ‹_›, _, by simp [WiredClaim.release, InFlight.release], rfl⟩)
    · have := lt_guardBudgetMs 1 kSendCallBudgetMs
      refine .inr (.inr ⟨hb, ‹_›, _, ?_, ?_, rfl⟩)
      · rfl
      · simp only
        omega
  · rw [h]
    exact .inl ⟨hb, rfl⟩

theorem loadFeeTiers_feesInv {c : Core} (hi : c.FeesInv) : c.loadFeeTiers.FeesInv := by
  rcases c.loadFeeTiers_cases with ⟨-, h⟩ | ⟨hb, hz, fees, hf, h⟩ | ⟨hb, -, fees, hf, hn, h⟩
  · rw [h]
    exact hi
  · have hc : ({ c with guards.fees := fees } : Core).feeCalls = [] := hi.feeCalls_of_free hb
    rw [h]
    refine ⟨by simp [hc], by simp [hc], fun hh => ?_, .inr (.inr (.inl hz))⟩
    simp only [hf] at hh
    cases hh
  · have hc : c.loadFeeTiers.feeCalls =
        [⟨.feeTiers c.shown.chainId c.dataGen fees.flight.ticket, c.shown⟩] := by
      have hnil := hi.feeCalls_of_free hb
      rw [feeCalls] at hnil
      rw [h, feeCalls, issue]
      simp only [List.filter_append, hnil]
      rfl
    refine ⟨by simp [hc], ?_, fun _ => by simp [hc], .inl (by simp [hc])⟩
    rw [hc, h]
    intro call hm chainId gen slot hcb
    obtain rfl := List.mem_singleton.mp hm
    cases hcb
    exact ⟨hf, rfl, hn⟩

/-- No act loses a due fee read: one that moves the chain has a refresh ask again. -/
theorem Act.feesDue {c c' : Core} (h : c.Act c') (hi : c.FeesInv) : c'.FeesDue := by
  have hd := hi.due
  cases h with
  | aside h =>
    refine hd.congr (by rw [feeCalls, h.calls]; rfl) ?_ h.log (by rw [h.shown_eq])
      (by rw [h.published])
    simp only [refreshing, h.inFlight, h.refreshAgain, h.soon]
    exact id
  | publish hs =>
    exact hd.congr (by simp [feeCalls]) (by rw [publishScope_refreshing]; exact id) (by simp)
      (by simp) ((c.publishScope_feeTiersJson _).trans hs.feeTiers_eq)
  | account address =>
    obtain ⟨hchain, hfees⟩ := c.setSelectedAccount_fees address
    refine hd.congr (by simp [feeCalls, setSelectedAccount]) ?_
      (by simp [setSelectedAccount]) hchain hfees
    simp [refreshing, setSelectedAccount]
  | noChain =>
    refine .inr (.inr (.inl ?_))
    rw [setActiveNetworkJson, publishSelection_shown]
    rfl
  | adopt => exact .inr (.inl (by simp [refreshing]))
  | pick => exact .inr (.inl (refresh_refreshing _ _))
  | quote requestJson interactive =>
    obtain ⟨q, e, s, -, -, hs, heq⟩ := c.enterRequest_cases requestJson interactive
    have hf : s.feeTiers = c.published.feeTiersJson := by
      rcases hs with ⟨-, rfl⟩ | rfl <;> rfl
    rw [heq]
    exact hd.congr (by simp [feeCalls]) (by simp [refreshing]) (by simp) (by simp; rfl)
      ((publishScope_feeTiersJson _ _).trans hf)
  | forget =>
    exact hd.congr (by simp [feeCalls, forgetRequest]) (by simp [refreshing, forgetRequest])
      (by simp [forgetRequest]) (by simp [forgetRequest]; rfl) (publishScope_feeTiersJson _ _)
  | issue h =>
    exact hd.congr (c.feeCalls_append (isFeeTiers_of_issued h)) id rfl rfl rfl
  | enter => exact hd.congr rfl id rfl rfl rfl
  | again => exact .inr (.inl (by simp [refreshing]))
  | queue what =>
    refine hd.congr rfl ?_ rfl rfl rfl
    simp only [refreshing, Core.queue, Bool.or_eq_true, List.contains_iff_mem, List.mem_append]
    exact Or.imp_right .inl
  | refresh => exact .inr (.inl (c.refresh_refreshing _))
  | fees => exact (loadFeeTiers_feesInv hi).due
  | land ha =>
    have hcalls : c.land.feeCalls = c.feeCalls := by
      simp only [Core.land]
      split <;> rfl
    have hshown : c.land.shown = c.shown := by
      simp only [Core.land]
      split <;> rfl
    rcases ha with hz | hb
    · exact .inr (.inr (.inl (by rw [hshown]; exact hz)))
    · exact .inl (by rw [hcalls]; exact hi.feeCalls_of_busy hb)

theorem FeesInv.congr {c c' : Core} (hi : c.FeesInv) (hc : c'.feeCalls = c.feeCalls)
    (hf : c'.guards.fees.flight = c.guards.fees.flight) (hn : c'.now = c.now)
    (hd : c'.FeesDue) : c'.FeesInv := by
  refine ⟨by rw [hc]; exact hi.one, ?_, ?_, hd⟩
  · rw [hc, hf, hn]
    exact hi.live
  · rw [hc, hf]
    exact hi.held

theorem FeesInv.act {c c' : Core} (hi : c.FeesInv) (h : c.Act c') : c'.FeesInv := by
  rcases h.feeCalls_eq with rfl | ⟨hcalls, hfees⟩
  · exact loadFeeTiers_feesInv hi
  · exact hi.congr hcalls hfees h.kept.2 (h.feesDue hi)

theorem FeesInv.path {c c' : Core} (hi : c.FeesInv) (h : Path c c') : c'.FeesInv := by
  induction h with
  | refl => exact hi
  | tail _ h ih => exact ih.act h

/-! ## Events -/

/-- No fee read outlives its claim: every one is answered in time. -/
def feesInTime : Event → Bool
  | .elapse ms => c.feeCalls.isEmpty || c.now + ms < c.guards.fees.flight.deadline
  | _ => true

/-- A fee reply finds the selection it was asked for, or a refresh that will ask again, or no
chain. -/
def feesUnmoved : Event → Bool
  | .reply i _ => match c.calls[i]? with
    | some ⟨.feeTiers _ gen _, _⟩ => gen == c.dataGen || c.refreshing || c.shown.chainId == 0
    | _ => true
  | _ => true

/-- The answer to a fee read settles what was due. -/
theorem FeesInv.feeReply {c : Core} (hi : c.FeesInv) (ha : c.AllAttributed) {i gen slot : Nat}
    {chainId : Int} {under : Selection} {res : Option Text}
    (h : c.calls[i]? = some ⟨.feeTiers chainId gen slot, under⟩)
    (hu : (gen == c.dataGen || c.refreshing || c.shown.chainId == 0) = true) :
    FeesInv ({ c with
      calls := c.calls.eraseIdx i
      log := .reply ⟨.feeTiers chainId gen slot, under⟩ res :: c.log }.feeTiersReplied gen slot
        res) := by
  have hmem : ⟨.feeTiers chainId gen slot, under⟩ ∈ c.calls := List.mem_of_getElem? h
  have hnil : (c.calls.eraseIdx i).filter (·.callback.isFeeTiers) = [] := by
    have := length_filter_eraseIdx (p := (·.callback.isFeeTiers)) h rfl
    have := hi.one
    unfold feeCalls at this
    exact List.length_eq_zero_iff.mp (by omega)
  obtain ⟨-, rfl, -⟩ := hi.live _ (List.mem_filter.mpr ⟨hmem, rfl⟩) chainId gen slot rfl
  have hcur : (c.guards.fees.release c.guards.fees.flight.ticket).isCurrent
      c.guards.fees.flight.ticket = true := by
    rw [c.guards.fees.release_self.1]
    simp [WiredClaim.isCurrent, InFlight.isCurrent]
  have hfree : (c.guards.fees.release c.guards.fees.flight.ticket).flight.held = false := by
    rw [c.guards.fees.release_self.1]
  simp only [feeTiersReplied, hcur, Bool.not_true, Bool.false_or]
  split
  · -- The selection has moved since: what is due is due to something else.
    rename_i hg
    have hmoved : (gen == c.dataGen) = false := by simpa [bne] using hg
    rw [hmoved, Bool.false_or, Bool.or_eq_true, beq_iff_eq] at hu
    refine ⟨by simp [feeCalls, hnil], by simp [feeCalls, hnil], ?_, .inr ?_⟩
    · intro hh
      simp only [hfree] at hh
      cases hh
    · exact hu.imp id .inl
  · rename_i hg
    have heq : gen = c.dataGen := by simpa using hg
    have hsame := ((ha.calls _ hmem).selection gen rfl).2 heq
    have hchain := (ha.calls _ hmem).chain chainId gen _ rfl
    refine ⟨by simp [feeCalls, hnil], by simp [feeCalls, hnil], ?_, .inr (.inr (.inr ?_))⟩
    · intro hh
      simp only [publishScope_guards, hfree] at hh
      cases hh
    · have hz : chainId = c.shown.chainId := hchain.trans (Selection.same_iff.mp hsame).1
      apply feesDecided_of
      · exact congrArg lastFees (publishScope_log _ _)
      · show chainId = (publishScope _ _).shown.chainId
        rw [publishScope_shown]
        exact hz
      · exact (publishScope_feeTiersJson _ _).trans (feesFor_same hsame _).symm

theorem FeesInv.turn {c c' : Core} {e : Event} (hi : c.FeesInv) (ha : c.AllAttributed)
    (h : c.Turn e c') (ht : c.feesInTime e = true) (hu : c.feesUnmoved e = true) :
    c'.FeesInv := by
  cases h with
  | acts h => exact hi.path h
  | reply hc hf h =>
    refine FeesInv.path ?_ h
    have hcalls : (c.calls.eraseIdx _).filter (·.callback.isFeeTiers) = c.feeCalls :=
      filter_eraseIdx_of_not hc (by simp [hf])
    exact hi.congr hcalls rfl rfl
      (hi.due.congr' hcalls id (lastFees_reply hf _ _) rfl rfl)
  | fees hc =>
    simp only [feesUnmoved, hc] at hu
    exact hi.feeReply ha hc hu
  | sender h =>
    refine FeesInv.path ?_ h
    exact hi.congr rfl rfl rfl (hi.due.congr' rfl id rfl rfl rfl)
  | returned _ h =>
    refine FeesInv.path ?_ h
    exact hi.congr rfl rfl rfl (hi.due.congr' rfl id rfl rfl rfl)
  | @reload i _ =>
    let c₁ : Core := { c with soon := c.soon.eraseIdx i }
    obtain ⟨hcalls, hfees⟩ := c₁.refresh_feeCalls .nothing
    exact hi.congr hcalls hfees (refresh_kept _ _).2 (.inr (.inl (refresh_refreshing _ _)))
  | soon hs hw h =>
    refine FeesInv.path ?_ h
    refine hi.congr rfl rfl rfl (hi.due.congr' rfl ?_ rfl rfl rfl)
    simp only [refreshing, Bool.or_eq_true, List.contains_iff_mem]
    refine Or.imp_right fun hm => ?_
    have hkeep := filter_eraseIdx_of_not (p := (· == Soon.refresh)) hs (by simpa using hw)
    have hin : Soon.refresh ∈ c.soon.filter (· == Soon.refresh) :=
      List.mem_filter.mpr ⟨hm, beq_self_eq_true _⟩
    rw [← hkeep] at hin
    exact (List.mem_filter.mp hin).1
  | elapse ms =>
    refine ⟨hi.one, fun call hm chainId gen slot hcb => ?_, hi.held, hi.due⟩
    obtain ⟨hh, hsl, -⟩ := hi.live call hm chainId gen slot hcb
    refine ⟨hh, hsl, ?_⟩
    simp only [feesInTime, Bool.or_eq_true, List.isEmpty_iff, decide_eq_true_eq] at ht
    exact ht.resolve_left (List.ne_nil_of_mem hm)

/-! ## Runs -/

/-- What is due: with nothing outstanding, no refresh to come and a chain selected, the fees are
decided. -/
def FeesSettled : Prop :=
  c.feeCalls = [] → c.refreshing = false → c.shown.chainId ≠ 0 → c.feesDecided = true

theorem FeesInv.settled {c : Core} (hi : c.FeesInv) : c.FeesSettled := by
  intro hc hr hz
  rcases hi.due with h | h | h | h
  · exact absurd hc h
  · rw [hr] at h
    cases h
  · exact absurd h hz
  · exact h

end Core

theorem feesInv_of_runs {s : State}
    (h : backend.Runs (fun s e => s.core.feesInTime e = true ∧ s.core.feesUnmoved e = true) s) :
    s.core.FeesInv := by
  refine Sys.Runs.induct (I := fun s => s.core.FeesInv) ?_ ?_ h
  · rintro s rfl
    exact ⟨by decide, nofun, nofun, .inr (.inl rfl)⟩
  · intro s e s' hr hi hc hs
    exact hi.turn (allAttributed_of_reach hr.reach) (State.step_turn hs) hc.1 hc.2

/-- As long as every fee reply arrives in time and finds the selection it was asked for, or a
refresh that will ask again, or no chain, no fee read is lost. -/
theorem fees_settled (s : State)
    (h : backend.Runs (fun s e => s.core.feesInTime e = true ∧ s.core.feesUnmoved e = true) s) :
    s.core.FeesSettled :=
  (feesInv_of_runs h).settled

/-- A second refresh, the one the first asks for, and its answers. -/
def reopened : List Event := opened ++ [.soon 0] ++ opened

/-- The reply to the fee read that the first refresh issued. -/
def feeReply : Event := .reply 1 (some (okReply [("chainId", .int 1)]))

theorem fees_settled_reopened :
    (State.after (reopened ++ [feeReply])).core.FeesSettled ∧
      (State.after (reopened ++ [feeReply])).core.feesDecided = true :=
  ⟨fees_settled _ (Sys.Runs.exec (.init rfl) (reopened ++ [feeReply]) (by decide +kernel)
    (by decide +kernel)), by decide +kernel⟩

/-- The account moves while the fees of the chain are being read: the reply is dropped, and nothing
asks again. -/
theorem fee_read_lost :
    ¬∀ s, backend.Runs (fun s e => s.core.feesInTime e = true) s → s.core.FeesSettled := by
  intro h
  have hf := h (State.after (reopened ++ [.slot (.selectAccount "0xB"), feeReply]))
    (Sys.Runs.exec (.init rfl) (reopened ++ [.slot (.selectAccount "0xB"), feeReply])
      (by decide +kernel) (by decide +kernel))
  exact absurd (hf (by decide +kernel) (by decide +kernel) (by decide +kernel)) (by decide +kernel)

end EthWalletUi
