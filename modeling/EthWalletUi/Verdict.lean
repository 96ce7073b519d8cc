import EthWalletUi.Backend.Turn

/-!
# The verification verdict

* `applyVerifiedProxy_cases`: what one report does. One that has told us something is published and
  ends the silence; three silences in a row withdraw what was published.
* `State.stale_verdict_iff`: a probe whose claim has been taken over is heard all the same, and its
  answer leaves things as they are only if it repeats them.
* `verdict_told`: the verdict published is a function of the reports since the chain last moved.
-/

namespace EthWalletUi

open Qt Machine

def modeState (verdictJson : Text) : Option Json × Option Json :=
  ((parseObject verdictJson).value "mode", (parseObject verdictJson).value "state")

/-- The mode is `off`: nothing is to be verified. -/
def isOff (verdictJson : Text) : Bool := ((parseObject verdictJson).value "mode").toString == "off"

/-- What is published once the backend has been silent for too long. -/
def silenced (chainId : Int) : Text := unknownVerdict chainId "the wallet backend stopped answering"

theorem silenced_members (chainId : Int) : (parseObject (silenced chainId)).value "chainId" =
      some (.int chainId) ∧
    (parseObject (silenced chainId)).value "mode" = some (.str "unknown") ∧
    (parseObject (silenced chainId)).value "blocking" = some (.bool true) ∧
    (parseObject (silenced chainId)).value "usable" = some (.bool false) := ⟨rfl, rfl, rfl, rfl⟩

theorem silenced_on (chainId : Int) : isOff (silenced chainId) = false := by
  have h : isOff (silenced chainId) = (("unknown" : String) == "off") := rfl
  rw [h]
  decide

namespace Core

variable (c : Core)

/-- The report has told us something about the chain on screen. -/
def tells (verdictJson : Text) : Bool :=
  (parseObject verdictJson).contains "mode" && answersFor verdictJson c.shown

/-- A verdict is published. -/
def publishVerdict (verdictJson : Text) (silent : Nat) : Core :=
  match EthWalletUi.publishVerdict c.scopeSnapshot verdictJson silent with
  | (s, v) => { { c with vpSilent := v.silent }.publishScope s with polls.vp := v.poll }

theorem applyVerifiedProxy_cases (verdictJson : Text) :
    c.tells verdictJson = true ∧ c.applyVerifiedProxy verdictJson = c.publishVerdict verdictJson 0 ∨
    c.tells verdictJson = false ∧ c.vpSilent + 1 < kMaxSilentPolls ∧
      c.applyVerifiedProxy verdictJson = { c with vpSilent := c.vpSilent + 1, polls.vp := true } ∨
    c.tells verdictJson = false ∧ kMaxSilentPolls ≤ c.vpSilent + 1 ∧
      c.applyVerifiedProxy verdictJson =
        c.publishVerdict (silenced c.shown.chainId) (c.vpSilent + 1) := by
  have hat : c.scopeSnapshot.at = c.shown := rfl
  simp only [applyVerifiedProxy, applyVerdict, hat]
  cases ht : c.tells verdictJson with
  | true =>
    have hn : (!(parseObject verdictJson).contains "mode" || !answersFor verdictJson c.shown) =
        false := by
      simp only [tells, Bool.and_eq_true] at ht
      simp [ht.1, ht.2]
    rw [hn]
    exact .inl ⟨rfl, rfl⟩
  | false =>
    have hn : (!(parseObject verdictJson).contains "mode" || !answersFor verdictJson c.shown) =
        true := by
      simp only [tells, Bool.and_eq_false_iff] at ht
      rcases ht with h | h <;> simp [h]
    rw [hn, if_pos rfl]
    by_cases hlt : c.vpSilent + 1 < kMaxSilentPolls
    · rw [if_pos hlt]
      refine .inr (.inl ⟨rfl, hlt, ?_⟩)
      have hp := publishScope_snapshot { c with vpSilent := c.vpSilent + 1 }
      have hs : scopeSnapshot { c with vpSilent := c.vpSilent + 1 } = c.scopeSnapshot := rfl
      rw [hs] at hp
      rw [hp]
    · rw [if_neg hlt]
      exact .inr (.inr ⟨rfl, Nat.not_lt.mp hlt, rfl⟩)

section Publish

variable (verdictJson : Text) (silent : Nat)

@[simp] theorem publishVerdict_silent :
    (c.publishVerdict verdictJson silent).vpSilent = silent := by
  obtain ⟨p, n, h⟩ := publishScope_eq { c with vpSilent := silent }
    (EthWalletUi.publishVerdict c.scopeSnapshot verdictJson silent).1
  have hs : (EthWalletUi.publishVerdict c.scopeSnapshot verdictJson silent).2.silent = silent := rfl
  simp only [publishVerdict, hs, h]

@[simp] theorem publishVerdict_vp :
    (c.publishVerdict verdictJson silent).polls.vp = !isOff verdictJson := rfl

@[simp] theorem publishVerdict_shown : (c.publishVerdict verdictJson silent).shown = c.shown :=
  publishScope_shown { c with vpSilent := silent } _

theorem publishVerdict_published : (c.publishVerdict verdictJson silent).published =
    { c.published with
      verifiedProxyJson := verdictJson
      balancesRoute := if modeState c.published.verifiedProxyJson ≠ modeState verdictJson then ""
        else c.published.balancesRoute
      quoteJson := if modeState c.published.verifiedProxyJson ≠ modeState verdictJson then emptyObject
        else c.published.quoteJson
      quoteRequestJson := if modeState c.published.verifiedProxyJson ≠ modeState verdictJson
        then .empty else c.published.quoteRequestJson
      quoteStale := if modeState c.published.verifiedProxyJson ≠ modeState verdictJson then false
        else c.published.quoteStale } := by
  have hp : (c.publishVerdict verdictJson silent).published =
      (scopeWrites (EthWalletUi.publishVerdict c.scopeSnapshot verdictJson silent).1).foldl
        (fun p f => f p) c.published := publishScope_published { c with vpSilent := silent } _
  rw [hp]
  have hc : (((parseObject c.scopeSnapshot.verifiedProxy).value "mode" ≠
        (parseObject verdictJson).value "mode" ∨
      (parseObject c.scopeSnapshot.verifiedProxy).value "state" ≠
        (parseObject verdictJson).value "state")) ↔
      modeState c.published.verifiedProxyJson ≠ modeState verdictJson := by
    simp only [modeState, ne_eq, Prod.mk.injEq, not_and_or]
    exact Iff.rfl
  simp only [EthWalletUi.publishVerdict, hc]
  split <;> rfl

end Publish

/-! ## A probe whose claim has been taken over -/

/-- What a report may move is as it was. -/
structure VerdictKept (c' : Core) : Prop where
  verdict : c'.published.verifiedProxyJson = c.published.verifiedProxyJson
  silent : c'.vpSilent = c.vpSilent
  quote : c'.published.quoteJson = c.published.quoteJson ∧
    c'.published.quoteRequestJson = c.published.quoteRequestJson ∧
    c'.published.quoteStale = c.published.quoteStale
  route : c'.published.balancesRoute = c.published.balancesRoute
  poll : c'.polls.vp = c.polls.vp

/-- The answer says what is published, of a backend that has not been silent since, and the poll
runs as it says. -/
def Repeats (verdictJson : Text) : Prop :=
  c.tells verdictJson = true ∧ c.published.verifiedProxyJson = verdictJson ∧ c.vpSilent = 0 ∧
    c.polls.vp = !isOff verdictJson

theorem verdictKept_iff (verdictJson : Text) :
    c.VerdictKept (c.applyVerifiedProxy verdictJson) ↔ c.Repeats verdictJson := by
  rcases c.applyVerifiedProxy_cases verdictJson with ⟨ht, h⟩ | ⟨ht, -, h⟩ | ⟨ht, -, h⟩
  · rw [h]
    constructor
    · rintro ⟨hv, hs, -, -, hp⟩
      rw [publishVerdict_published] at hv
      rw [publishVerdict_silent] at hs
      rw [publishVerdict_vp] at hp
      exact ⟨ht, hv.symm, hs.symm, hp.symm⟩
    · rintro ⟨-, hv, hs, hp⟩
      have hsame : modeState c.published.verifiedProxyJson = modeState verdictJson := by rw [hv]
      refine ⟨?_, ?_, ?_, ?_, ?_⟩
      · rw [publishVerdict_published]
        exact hv.symm
      · rw [publishVerdict_silent, hs]
      · rw [publishVerdict_published]
        simp [hsame]
      · rw [publishVerdict_published]
        simp [hsame]
      · rw [publishVerdict_vp, hp]
  all_goals
    constructor
    · rintro ⟨-, hs, -, -, -⟩
      rw [h] at hs
      simp at hs
    · rintro ⟨ht', -⟩
      rw [ht] at ht'
      cases ht'

end Core

namespace State

variable (s : State)

/-- The answer to a probe, as `applyVerifiedProxy` gets it. -/
def verdictReply (res : Option Text) : Text :=
  match res with
  | some reply => verdictForChain reply s.core.shown.chainId
  | none => .empty

/-- The outstanding call is a probe whose claim has been taken over by a later one. -/
def staleProbe (i : Nat) : Bool :=
  match s.core.calls[i]? with
  | some ⟨.verifiedProxy slot, _⟩ => !s.core.guards.vp.isCurrent slot
  | _ => false

/-- The answer to a probe whose claim has been taken over changes nothing if and only if it repeats
what is published. -/
theorem stale_verdict_iff (s s' : State) (i : Nat) (res : Option Text)
    (hstale : s.staleProbe i = true) (h : s.step (.reply i res) = some s') :
    s.core.VerdictKept s'.core ↔ s.core.Repeats (s.verdictReply res) := by
  unfold staleProbe at hstale
  split at hstale
  case h_2 => cases hstale
  rename_i slot under hc
  simp only [step, hc, Option.map_some, Option.some.injEq] at h
  subst h
  let c : Core := { s.core with
    calls := s.core.calls.eraseIdx i
    log := .reply ⟨.verifiedProxy slot, under⟩ res :: s.core.log
    guards.vp := s.core.guards.vp.release slot }
  have hafter : ((s.hear (.reply ⟨.verifiedProxy slot, under⟩ res)).onCore fun c =>
      { c with calls := c.calls.eraseIdx i }.replied res (.verifiedProxy slot)).core =
        c.applyVerifiedProxy (s.verdictReply res) := by
    cases res <;> rfl
  rw [hafter]
  constructor
  · rintro ⟨hv, hs, hq, hr, hp⟩
    exact (c.verdictKept_iff _).mp ⟨hv, hs, hq, hr, hp⟩
  · intro hr
    obtain ⟨hv, hs, hq, hr, hp⟩ := (c.verdictKept_iff (s.verdictReply res)).mpr hr
    exact ⟨hv, hs, hq, hr, hp⟩

/-- The composer's report of one chain. -/
def report (mode state : String) : Text :=
  okReply [("chains", .arr [.obj [("chainId", .int 1), ("verdict", .obj [("chainId", .int 1),
    ("mode", .str mode), ("state", .str state)])]])]

/-- The first probe is slow, and a second one, issued after its claim has lapsed, is answered. -/
def probedTwice : List Event :=
  opened ++ [.elapse 30000, .slot .refreshVerifiedProxy, .reply 3 (some (report "on" "failed"))]

theorem stale_verdict_iff_repeated :
    let s := after probedTwice
    s.core.VerdictKept ((s.step (.reply 2 (some (report "on" "failed")))).getD s).core := by
  have hs : ((after probedTwice).step (.reply 2 (some (report "on" "failed")))).isSome = true := by
    decide +kernel
  obtain ⟨s', hs'⟩ := Option.isSome_iff_exists.mp hs
  have hr : (after probedTwice).core.Repeats
      ((after probedTwice).verdictReply (some (report "on" "failed"))) := by
    refine ⟨?_, ?_, ?_, ?_⟩ <;> decide +kernel
  simp only [hs', Option.getD_some]
  exact (stale_verdict_iff _ s' 2 _ (by decide +kernel) hs').mpr hr

/-- The slow answer comes after all: the failure is hidden, and the poll that would correct it
stops. -/
theorem stale_verdict_heard : ¬∀ s, backend.Reach s → ∀ i res s', s.staleProbe i = true →
    s.step (.reply i res) = some s' → s.core.VerdictKept s'.core := by
  intro h
  have hreach := reach_after probedTwice (by decide +kernel)
  have hs : ((after probedTwice).step (.reply 2 (some (report "off" "")))).isSome = true := by
    decide +kernel
  obtain ⟨s', hs'⟩ := Option.isSome_iff_exists.mp hs
  have hkept := h _ hreach 2 _ s' (by decide +kernel) hs'
  have hpoll : ((after probedTwice).step (.reply 2 (some (report "off" "")))).map
      (·.core.polls.vp) = some false := by decide +kernel
  have hrun : (after probedTwice).core.polls.vp = true := by decide +kernel
  rw [hs'] at hpoll
  have hstopped : s'.core.polls.vp = false := Option.some.inj hpoll
  rw [← hkept.poll, hstopped] at hrun
  cases hrun

end State

/-! ## What has been told since the chain last moved -/

/-- The wallet's data, and the reports since the chain last moved, the newest first: the verdict of
one that has told us something. -/
structure Verdicts where
  core : Core := {}
  told : List (Option Text) := []

inductive VerdictEvent where
  | report (verdictJson : Text)
  | account (address : String)
  | network (networkJson : Text)
  /-- Everything else that the backend does. -/
  | beside (core : Core)

/-- What everything else leaves alone. -/
def Core.VerdictBeside (c c' : Core) : Bool :=
  c'.shown == c.shown && c'.vpSilent == c.vpSilent && c'.polls.vp == c.polls.vp &&
    c'.published.verifiedProxyJson == c.published.verifiedProxyJson

namespace Verdicts

variable (s : Verdicts)

def step : VerdictEvent → Option Verdicts
  | .report verdictJson => some {
      core := s.core.applyVerifiedProxy verdictJson
      told := (if s.core.tells verdictJson then some verdictJson else none) :: s.told }
  | .account address => some { s with core := s.core.setSelectedAccount address }
  | .network networkJson =>
    let core := s.core.setActiveNetworkJson networkJson
    some { core, told := if core.shown.chainId = s.core.shown.chainId then s.told else [] }
  | .beside core => if s.core.VerdictBeside core then some { s with core } else none

/-- The silent reports in a row that came last. -/
def silences : Nat := (s.told.takeWhile Option.isNone).length

/-- The verdict that was told last. -/
def last : Text := (s.told.findSome? id).getD emptyObject

/-- The verdict to be shown, by what has been told. -/
def due : Text := if kMaxSilentPolls ≤ s.silences then silenced s.core.shown.chainId else s.last

end Verdicts

/-- The verdict, from a state in which nothing has been told of the chain. -/
def verdicts : Sys Verdicts VerdictEvent where
  init s := s.core.vpSilent = 0 ∧ s.core.published.verifiedProxyJson = emptyObject ∧ s.told = []
  step := Verdicts.step

namespace Core

variable (c : Core)

/-- A move of the account keeps the verdict, a move of the chain forgets it. -/
theorem publishSelection_verdict (account : String) (networkJson : Text) :
    (c.publishSelection account networkJson).polls = c.polls ∧
    if (selectionOf account networkJson).chainId = c.shown.chainId then
      (c.publishSelection account networkJson).vpSilent = c.vpSilent ∧
      (c.publishSelection account networkJson).published.verifiedProxyJson =
        c.published.verifiedProxyJson
    else (c.publishSelection account networkJson).vpSilent = 0 ∧
      (c.publishSelection account networkJson).published.verifiedProxyJson = emptyObject := by
  have hset : ∀ (d : Core) (f : Published → Published), (d.set f).vpSilent = d.vpSilent ∧
      (d.set f).polls = d.polls := by
    intro d f
    obtain ⟨p, n, h⟩ := d.set_eq f
    rw [h]
    exact ⟨rfl, rfl⟩
  let dest := selectionOf account networkJson
  have hpub : (c.publishSelection account networkJson).published.verifiedProxyJson =
      (c.withdraw dest).published.verifiedProxyJson := by
    rw [publishSelection_eq_set, set_published, set_published]
  have hsil : (c.publishSelection account networkJson).vpSilent = (c.withdraw dest).vpSilent := by
    rw [publishSelection_eq_set, (hset _ _).1, (hset _ _).1]
  have hpoll : (c.publishSelection account networkJson).polls = (c.withdraw dest).polls := by
    rw [publishSelection_eq_set, (hset _ _).2, (hset _ _).2]
  rw [hpub, hsil, hpoll]
  cases hsame : c.shown.same dest with
  | true =>
    rw [c.withdraw_same hsame, if_pos (Selection.same_iff.mp hsame).1.symm]
    exact ⟨rfl, rfl, rfl⟩
  | false =>
    have hs' : c.scopeSnapshot.at.same dest = false := hsame
    have hat : c.scopeSnapshot.at.chainId = c.shown.chainId := rfl
    let d : Core := { c with dataGen := c.dataGen + 1, quoteGen := c.quoteGen + 1 }
    let entered := (enterScope c.scopeSnapshot dest).1
    have hv : (d.publishScope entered).published.verifiedProxyJson = entered.verifiedProxy := by
      rw [publishScope_published]
      rfl
    have hd : (d.publishScope entered).vpSilent = c.vpSilent ∧
        (d.publishScope entered).polls = c.polls := by
      obtain ⟨p, n, hp⟩ := d.publishScope_eq entered
      rw [hp]
      exact ⟨rfl, rfl⟩
    have hm : (enterScope c.scopeSnapshot dest).2 = true := by simp [enterScope, hs']
    by_cases hc : dest.chainId = c.shown.chainId
    · have hc' : (c.scopeSnapshot.at.chainId != dest.chainId) = false := by simp [hat, hc]
      have hw : c.withdraw dest = d.publishScope entered := by
        simp only [withdraw, hm, if_true, hc', Bool.false_eq_true, if_false]
        rfl
      rw [if_pos hc, hw]
      refine ⟨hd.2, hd.1, hv.trans ?_⟩
      simp only [entered, enterScope, hs', hc', Bool.false_eq_true, if_false]
      rfl
    · have hc' : (c.scopeSnapshot.at.chainId != dest.chainId) = true := by
        simpa [hat] using Ne.symm hc
      have hw : c.withdraw dest = { d.publishScope entered with vpSilent := 0 } := by
        simp only [withdraw, hm, if_true, hc']
        rfl
      rw [if_neg hc, hw]
      refine ⟨hd.2, rfl, hv.trans ?_⟩
      simp only [entered, enterScope, hs', hc', Bool.false_eq_true, if_false, if_true]

end Core

namespace Verdicts

variable {s s' : Verdicts}

/-- The count and the verdict published are what the reports make them. -/
structure Kept (s : Verdicts) : Prop where
  silent : s.core.vpSilent = s.silences
  verdict : s.core.published.verifiedProxyJson = s.due

/-- A move of the selection. -/
theorem Kept.moved (h : s.Kept) (account : String) (networkJson : Text) :
    let core := s.core.publishSelection account networkJson
    Kept { core, told := if core.shown.chainId = s.core.shown.chainId then s.told else [] } := by
  intro core
  obtain ⟨-, hv⟩ := s.core.publishSelection_verdict account networkJson
  have hshown : core.shown = selectionOf account networkJson :=
    s.core.publishSelection_shown account networkJson
  rw [hshown]
  by_cases hc : (selectionOf account networkJson).chainId = s.core.shown.chainId
  · rw [if_pos hc] at hv ⊢
    refine ⟨hv.1.trans h.silent, hv.2.trans ?_⟩
    rw [h.verdict, due, due, hshown, hc]
    rfl
  · rw [if_neg hc] at hv ⊢
    exact ⟨hv.1, hv.2⟩

/-- A report. -/
theorem Kept.reported (h : s.Kept) (verdictJson : Text) :
    Kept {
      core := s.core.applyVerifiedProxy verdictJson
      told := (if s.core.tells verdictJson then some verdictJson else none) :: s.told } := by
  rcases s.core.applyVerifiedProxy_cases verdictJson with ⟨ht, h'⟩ | ⟨ht, hlt, h'⟩ | ⟨ht, hle, h'⟩ <;>
    rw [h', ht]
  · refine ⟨Core.publishVerdict_silent .., ?_⟩
    rw [Core.publishVerdict_published]
    rfl
  · have hsil : Verdicts.silences ⟨{ s.core with vpSilent := s.core.vpSilent + 1, polls.vp := true },
        none :: s.told⟩ = s.silences + 1 := by simp [silences]
    refine ⟨?_, ?_⟩
    · simp only [Bool.false_eq_true, if_false]
      rw [hsil, h.silent]
    · simp only [Bool.false_eq_true, if_false]
      rw [h.silent] at hlt
      rw [h.verdict, due, due, hsil, if_neg (by omega), if_neg (by omega)]
      simp [last]
  · have hsil : Verdicts.silences ⟨s.core.publishVerdict (silenced s.core.shown.chainId)
        (s.core.vpSilent + 1), none :: s.told⟩ = s.silences + 1 := by simp [silences]
    refine ⟨?_, ?_⟩
    · simp only [Bool.false_eq_true, if_false]
      rw [hsil, Core.publishVerdict_silent, h.silent]
    · simp only [Bool.false_eq_true, if_false]
      rw [h.silent] at hle
      rw [due, hsil, if_pos hle, Core.publishVerdict_published, Core.publishVerdict_shown]

theorem Kept.step {e : VerdictEvent} (h : s.Kept) (hs : s.step e = some s') : s'.Kept := by
  cases e with
  | report verdictJson =>
    cases hs
    exact h.reported verdictJson
  | account address =>
    cases hs
    have hm := h.moved address s.core.published.activeNetworkJson
    have hshown : (s.core.publishSelection address s.core.published.activeNetworkJson).shown.chainId =
        s.core.shown.chainId := by
      rw [Core.publishSelection_shown]
      rfl
    simp only [hshown, if_true] at hm
    exact hm
  | network networkJson =>
    cases hs
    exact h.moved s.core.published.selectedAccount networkJson
  | beside core =>
    simp only [Verdicts.step] at hs
    split at hs
    · rename_i hb
      cases hs
      simp only [Core.VerdictBeside, Bool.and_eq_true, beq_iff_eq] at hb
      obtain ⟨⟨⟨hshown, hsil⟩, -⟩, hv⟩ := hb
      refine ⟨hsil.trans h.silent, hv.trans ?_⟩
      rw [h.verdict, due, due, hshown]
      rfl
    · cases hs

/-- The poll is stopped only by a report after which the mode published is `off`. -/
theorem step_stopped {e : VerdictEvent} (hs : s.step e = some s') (hrun : s.core.polls.vp = true)
    (hstopped : s'.core.polls.vp = false) :
    (∃ verdictJson, e = .report verdictJson) ∧
      isOff s'.core.published.verifiedProxyJson = true := by
  cases e with
  | report verdictJson =>
    cases hs
    refine ⟨⟨_, rfl⟩, ?_⟩
    simp only at hstopped ⊢
    rcases s.core.applyVerifiedProxy_cases verdictJson with ⟨-, h'⟩ | ⟨-, -, h'⟩ | ⟨-, -, h'⟩ <;>
      rw [h'] at hstopped ⊢
    · rw [Core.publishVerdict_vp] at hstopped
      rw [Core.publishVerdict_published]
      simpa using hstopped
    · cases hstopped
    · rw [Core.publishVerdict_vp, silenced_on] at hstopped
      cases hstopped
  | account address =>
    cases hs
    have hp := (s.core.publishSelection_verdict address s.core.published.activeNetworkJson).1
    rw [← hp] at hrun
    exact absurd (hrun.symm.trans hstopped) (by decide)
  | network networkJson =>
    cases hs
    have hp := (s.core.publishSelection_verdict s.core.published.selectedAccount networkJson).1
    rw [← hp] at hrun
    exact absurd (hrun.symm.trans hstopped) (by decide)
  | beside core =>
    simp only [Verdicts.step] at hs
    split at hs
    · rename_i hb
      cases hs
      simp only [Core.VerdictBeside, Bool.and_eq_true, beq_iff_eq] at hb
      rw [← hb.1.2] at hrun
      exact absurd (hrun.symm.trans hstopped) (by decide)
    · cases hs

end Verdicts

/-- What a report does to what was read under the verdict before it. -/
def Core.WithdrawnBy (c c' : Core) : Prop :=
  if modeState c.published.verifiedProxyJson ≠ modeState c'.published.verifiedProxyJson then
    c'.published.quoteJson = emptyObject ∧ c'.published.quoteRequestJson = .empty ∧
      c'.published.quoteStale = false ∧ c'.published.balancesRoute = ""
  else
    c'.published.quoteJson = c.published.quoteJson ∧
      c'.published.quoteRequestJson = c.published.quoteRequestJson ∧
      c'.published.quoteStale = c.published.quoteStale ∧
      c'.published.balancesRoute = c.published.balancesRoute

theorem Core.applyVerifiedProxy_withdraws (c : Core) (verdictJson : Text) :
    c.WithdrawnBy (c.applyVerifiedProxy verdictJson) := by
  have hpub : ∀ v silent, c.WithdrawnBy (c.publishVerdict v silent) := by
    intro v silent
    simp only [WithdrawnBy, publishVerdict_published]
    split
    · simp [*]
    · simp [*]
  rcases c.applyVerifiedProxy_cases verdictJson with ⟨-, h⟩ | ⟨-, -, h⟩ | ⟨-, -, h⟩ <;> rw [h]
  · exact hpub _ _
  · simp [WithdrawnBy]
  · exact hpub _ _

/-- The verdict published is the one told last since the chain moved; three silences in a row and
it is the authored unknown one. A report withdraws the quote and the route exactly when the mode or
the state changes, and only one that leaves the mode at `off` stops the poll. -/
theorem verdict_told (s : Verdicts) (h : verdicts.Reach s) :
    (kMaxSilentPolls ≤ s.silences →
      s.core.published.verifiedProxyJson = silenced s.core.shown.chainId ∧
      (parseObject s.core.published.verifiedProxyJson).value "blocking" = some (.bool true) ∧
      (parseObject s.core.published.verifiedProxyJson).value "usable" = some (.bool false) ∧
      (parseObject s.core.published.verifiedProxyJson).value "chainId" =
        some (.int s.core.shown.chainId)) ∧
    (s.silences < kMaxSilentPolls → s.core.published.verifiedProxyJson = s.last) ∧
    (∀ verdictJson, s.core.WithdrawnBy (s.core.applyVerifiedProxy verdictJson)) ∧
    ∀ e s', s.step e = some s' → s.core.polls.vp = true → s'.core.polls.vp = false →
      (∃ verdictJson, e = .report verdictJson) ∧
        isOff s'.core.published.verifiedProxyJson = true := by
  have hk : s.Kept := by
    refine h.induct ?_ fun s e s' _ hk _ hs => hk.step hs
    rintro s ⟨hsil, hv, ht⟩
    have hz : s.silences = 0 := by simp [Verdicts.silences, ht]
    refine ⟨hsil.trans hz.symm, hv.trans ?_⟩
    rw [Verdicts.due, hz, if_neg (by decide), Verdicts.last, ht]
    rfl
  have hv := hk.verdict
  refine ⟨fun hle => ?_, fun hlt => ?_, s.core.applyVerifiedProxy_withdraws, fun e s' hs => ?_⟩
  · rw [Verdicts.due, if_pos hle] at hv
    obtain ⟨hchain, -, hblock, husable⟩ := silenced_members s.core.shown.chainId
    rw [hv]
    exact ⟨rfl, hblock, husable, hchain⟩
  · rw [hv, Verdicts.due, if_neg (Nat.not_le.mpr hlt)]
  · exact Verdicts.step_stopped hs

/-- A chain is picked, one report tells of it, and the next three say nothing. -/
def wentSilent : List VerdictEvent :=
  [.network (toJsonCompact [("chainId", .int 1)]),
   .report (toJsonCompact [("mode", .str "on"), ("state", .str "ready")]),
   .report .empty, .report .empty, .report .empty]

def Verdicts.after (es : List VerdictEvent) : Verdicts := (verdicts.exec {} es).getD {}

theorem verdict_told_wentSilent :
    (Verdicts.after wentSilent).core.published.verifiedProxyJson = silenced 1 := by
  have hs : (verdicts.exec {} wentSilent).isSome = true := by decide +kernel
  obtain ⟨s, hs⟩ := Option.isSome_iff_exists.mp hs
  have hinit : verdicts.Reach {} := .init ⟨rfl, rfl, rfl⟩
  have hreach : verdicts.Reach s := hinit.exec wentSilent hs
  have hafter : Verdicts.after wentSilent = s := by rw [Verdicts.after, hs, Option.getD_some]
  have hsil : kMaxSilentPolls ≤ (Verdicts.after wentSilent).silences := by decide +kernel
  have hchain : (Verdicts.after wentSilent).core.shown.chainId = 1 := by decide +kernel
  rw [hafter] at hsil hchain ⊢
  rw [((verdict_told s hreach).1 hsil).1, hchain]

end EthWalletUi
