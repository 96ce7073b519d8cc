import EthWalletUi.Backend.Course

/-!
# Refreshing settles

A refresh asked for while one runs is queued when that one ends. A refresh queues another itself in
two ways: the registry has moved on while its networks were listed, or the cursor was out of scope.
Neither can happen again once nothing else asks for one and the networks stay as they are.

* `Course.Sound`: a refresh runs in one handler, and the cursor is in scope unless another refresh
  is still to list the networks.
* `Course.debt`: the refreshes that may still start. Only a refresh that is asked for raises it.
* `State.refresh_settles`: no refresh is dropped, only finitely many follow, and the cursor ends in
  scope.
-/

namespace EthWalletUi

open Qt Machine

namespace Course

variable (k : Course)

/-- A refresh is still to start. -/
def owed : Bool := (k.inFlight && k.refreshAgain) || decide (0 < k.queued)

/-- The cursor is on no chain, or on that of a network published. -/
def InScope : Prop := k.chainId = 0 ∨ k.chainId ∈ networkChains k.networksJson

structure Sound : Prop where
  stages : k.stages.length = k.inFlight.toNat
  again : k.refreshAgain = true → k.inFlight = true
  settles : k.InScope ∨ (∃ stage ∈ k.stages, stage.isListing = true) ∨ k.refreshAgain = true ∨
    0 < k.queued

/-- A handler whose networks will be ignored: the registry has moved on. -/
def stale : Frame → Bool
  | .listNetworks registryGen _ => registryGen != k.registryGen
  | _ => false

/-- The networks answered with do not have the chain of the cursor. -/
def strays (reply : Text) : Bool :=
  chooseChain (listedNetworks reply) k.chainId != 0 &&
    chooseChain (listedNetworks reply) k.chainId != k.chainId

/-- How many refreshes may still start while `list_networks` is answered with `reply`. -/
def debt (reply : Text) : Nat :=
  k.queued + k.refreshAgain.toNat + k.stages.countP k.stale + (k.strays reply).toNat

variable {k}

theorem refresh_owed (after : After) :
    (k.refresh after).owed = true ∨ k.inFlight = false ∧ (k.refresh after).inFlight = true := by
  unfold refresh
  split
  · rename_i h
    exact .inl (by simp [owed, h])
  · exact .inr ⟨Bool.eq_false_iff.mpr ‹_›, rfl⟩

theorem Sound.refresh (after : After) (hs : k.stages.length = k.inFlight.toNat) :
    (k.refresh after).Sound := by
  unfold Course.refresh
  split
  · rename_i h
    exact ⟨hs, fun _ => h, .inr (.inr (.inl rfl))⟩
  · rename_i h
    rw [Bool.eq_false_iff.mpr h] at hs
    refine ⟨by simpa using hs, fun _ => rfl, .inr (.inl ⟨_, List.mem_cons_self .., rfl⟩)⟩

/-- The networks that put the cursor somewhere have its chain. -/
theorem strays_chosen {reply : Text} {current : Int}
    (h : k.chainId = chooseChain (listedNetworks reply) current) : k.strays reply = false := by
  rcases chooseChain_mem (listedNetworks reply) current with h0 | hmem
  · have hfirst : chooseChain (listedNetworks reply) 0 = 0 := by
      unfold chooseChain at h0 ⊢
      split
      · rfl
      · rename_i hno
        split at h0
        · rename_i hany
          rw [h0] at hany
          exact absurd hany hno
        · exact h0
    simp [strays, h, h0, hfirst]
  · rw [← h] at hmem
    simp [strays, chooseChain_of_mem hmem]

theorem debt_refresh (reply : Text) (after : After) :
    (k.refresh after).debt reply + (!k.inFlight && (k.refresh after).inFlight).toNat ≤
      k.debt reply + 1 := by
  unfold refresh
  split
  · rename_i h
    have ha : k.refreshAgain.toNat ≤ 1 := Bool.toNat_le _
    simp only [debt, h, Bool.not_true, Bool.false_and, Bool.toNat_false, Bool.toNat_true]
    show k.queued + 1 + k.stages.countP k.stale + (k.strays reply).toNat + 0 ≤ _
    omega
  · rename_i h
    rw [Bool.eq_false_iff.mpr h]
    have hc : (Frame.listNetworks k.registryGen after :: k.stages).countP k.stale =
        k.stages.countP k.stale := List.countP_cons_of_neg (by simp [stale])
    show k.queued + k.refreshAgain.toNat +
        (Frame.listNetworks k.registryGen after :: k.stages).countP k.stale +
      (k.strays reply).toNat + 1 ≤ _
    rw [hc, debt]

/-- A read of the refresh other than that of the networks counts for nothing. -/
theorem debt_pop {stage : Frame} {stages : List Frame} (hst : k.stages = stage :: stages)
    (hf : stage.isListing = false) (reply : Text) :
    k.debt reply = ({ k with stages } : Course).debt reply := by
  have hstale : k.stale stage = false := by
    cases stage
    case listNetworks => cases hf
    all_goals rfl
  have hc : k.stages.countP k.stale = stages.countP k.stale := by
    rw [hst]
    exact List.countP_cons_of_neg (by simp [hstale])
  rw [debt, hc]
  rfl

/-- The read of the networks counts if the registry has moved on since. -/
theorem debt_listing {registryGen : Nat} {after : After} {stages : List Frame}
    (hst : k.stages = .listNetworks registryGen after :: stages) (reply : Text) :
    k.debt reply = ({ k with stages } : Course).debt reply +
      (registryGen != k.registryGen).toNat := by
  have hc : k.stages.countP k.stale =
      stages.countP k.stale + (registryGen != k.registryGen).toNat := by
    rw [hst, List.countP_cons]
    cases hg : registryGen != k.registryGen <;> simp [stale, hg]
  rw [debt, hc]
  show _ = k.queued + k.refreshAgain.toNat + stages.countP k.stale + (k.strays reply).toNat + _
  omega

/-- A refresh that is queued counts for one. -/
theorem debt_due (hq : 0 < k.queued) (reply : Text) :
    ({ k with queued := k.queued - 1 } : Course).debt reply + 1 = k.debt reply := by
  show k.queued - 1 + k.refreshAgain.toNat + k.stages.countP k.stale + (k.strays reply).toNat + 1 =
    k.queued + k.refreshAgain.toNat + k.stages.countP k.stale + (k.strays reply).toNat
  omega

/-- The networks that are ignored, and the cursor that strays from them, pay for the refresh asked
for. -/
theorem Listed.debt_le {k' : Course} {registryGen : Nat} {reply : Text}
    (h : k.Listed registryGen reply k') (hok : replyOk reply = true) :
    k'.debt reply ≤ k.debt reply + (registryGen != k.registryGen).toNat := by
  cases h with
  | aborted hne =>
    have hgen : (registryGen != k.registryGen).toNat = 1 := by simp [hne]
    rw [hgen]
    show k.queued + 1 + k.stages.countP k.stale + (k.strays reply).toNat ≤ k.queued +
      k.refreshAgain.toNat + k.stages.countP k.stale + (k.strays reply).toNat + 1
    omega
  | failed hno => simp [hok] at hno
  | empty _ h0 =>
    have hs := strays_chosen (k := { k with
      networksJson := .compact (.arr (listedNetworks reply)), activeNetworkJson := emptyObject })
      h0.symm
    rw [debt, hs]
    show k.queued + k.refreshAgain.toNat + k.stages.countP k.stale + 0 ≤ _
    rw [debt]
    omega
  | kept => exact Nat.le_add_right _ _
  | @adopted networkJson _ hne hmoved hchain =>
    have hs := strays_chosen (k := { k with
      networksJson := .compact (.arr (listedNetworks reply))
      activeNetworkJson := networkJson
      refreshAgain := true }) hchain
    have hstrays : k.strays reply = true := by simp [strays, hne, hmoved]
    rw [debt, hs, debt, hstrays]
    show k.queued + 1 + k.stages.countP k.stale + 0 ≤ k.queued + k.refreshAgain.toNat +
      k.stages.countP k.stale + 1 + _
    omega

end Course

namespace State

variable (s : State)

/-- A refresh is still to start. -/
def refreshOwed : Bool :=
  (s.core.inFlight && s.core.refreshAgain) || decide (0 < s.core.soon.count .refresh)

/-- A refresh starts. -/
def refreshStarts (e : Event) : Bool :=
  match s.step e with
  | some s' => !s.core.inFlight && s'.core.inFlight
  | none => false

/-- `list_networks` is answered with `reply`. -/
def listsAs (reply : Text) : Event → Bool
  | .returned r => match s.core.stack with
    | .listNetworks .. :: _ => r == reply
    | _ => true
  | _ => true

variable {s} {s' : State} {e : Event}

theorem refreshStarts_of_step (h : s.step e = some s') :
    s.refreshStarts e = (!s.core.inFlight && s'.core.inFlight) := by rw [refreshStarts, h]

/-! ## No refresh is dropped -/

/-- What `refresh()` does, told of the states before and after. -/
theorem owed_of_refresh {k : Course} {after : After} (hk : k.inFlight = s.core.inFlight)
    (hc : s'.core.course = k.refresh after) (h : s.step e = some s') :
    s.refreshStarts e = true ∨ s'.refreshOwed = true := by
  have howed : s'.refreshOwed = (k.refresh after).owed := hc ▸ rfl
  have hfly : s'.core.inFlight = (k.refresh after).inFlight := hc ▸ rfl
  rw [refreshStarts_of_step h]
  rcases k.refresh_owed after with ho | ⟨hidle, hstarted⟩
  · exact .inr (howed.trans ho)
  · exact .inl (by simp [hfly, hstarted, ← hk, hidle])

theorem owed_of_asks (ha : s.asks e = true) (h : s.step e = some s') :
    s.refreshStarts e = true ∨ s'.refreshOwed = true := by
  have hmove := s.step_course h
  generalize hc : s'.core.course = k at hmove
  cases hmove with
  | cursor => exact owed_of_refresh rfl hc h
  | called => exact owed_of_refresh rfl hc h
  | told =>
    have howed : s'.refreshOwed = s'.core.course.owed := rfl
    rw [howed, hc]
    exact .inr (by simp [Course.owed])
  | still hn | read hn | landed hn => simp [hn] at ha
  | account | due => cases ha
  | listed hh | roster hh => simp [asks_returned hh nofun] at ha

theorem owed_step (ho : s.refreshOwed = true) (h : s.step e = some s') :
    s.refreshStarts e = true ∨ s'.refreshOwed = true := by
  have hmove := s.step_course h
  have howed : s'.refreshOwed = s'.core.course.owed := rfl
  have ho' : s.core.course.owed = true := ho
  rw [howed]
  generalize hc : s'.core.course = k at hmove
  cases hmove with
  | cursor => exact hc ▸ owed_of_refresh rfl hc h
  | called => exact hc ▸ owed_of_refresh rfl hc h
  | due => exact hc ▸ owed_of_refresh rfl hc h
  | told => exact .inr (by simp [Course.owed])
  | still | account | read | roster => exact .inr ho'
  | listed _ _ hl =>
    cases hl with
    | failed | empty | kept => exact .inr ho'
    | aborted | adopted =>
      simp only [Course.owed, Bool.or_eq_true, Bool.and_eq_true, decide_eq_true_eq] at ho' ⊢
      exact .inr (ho'.imp (fun hboth => ⟨hboth.1, trivial⟩) id)
  | landed =>
    simp only [Course.owed, Course.land, Bool.or_eq_true, Bool.and_eq_true,
      decide_eq_true_eq] at ho' ⊢
    refine .inr (.inr ?_)
    rcases ho' with ⟨-, hagain⟩ | hqueued
    · simp [hagain]
    · split <;> omega

/-! ## Finitely many follow -/

theorem debt_step {reply : Text} (hok : replyOk reply = true) (ha : s.asks e = false)
    (hl : s.listsAs reply e = true) (h : s.step e = some s') :
    s'.core.course.debt reply + (s.refreshStarts e).toNat ≤ s.core.course.debt reply := by
  have hmove := s.step_course h
  have hstarts : s.refreshStarts e = (!s.core.course.inFlight && s'.core.course.inFlight) :=
    refreshStarts_of_step h
  rw [hstarts]
  generalize s'.core.course = k at hmove
  cases hmove with
  | still | account =>
    rw [Bool.not_and_self]
    exact Nat.le_refl _
  | cursor hne =>
    have hasks : s.asks (.slot (.selectChain _)) = true := bne_iff_ne.mpr hne
    simp [hasks] at ha
  | called _ hasks | told hasks => simp [hasks] at ha
  | due hq =>
    rw [← Course.debt_due hq reply]
    exact Course.debt_refresh (k := { s.core.course with queued := s.core.course.queued - 1 }) reply
      .nothing
  | @listed reply' registryGen after stages k frame hh hst hlisted hf =>
    obtain ⟨stack, hs⟩ := List.head?_eq_some_iff.mp hh
    have hreply : reply' = reply := by simpa [listsAs, hs] using hl
    subst hreply
    have hkeeps : k.inFlight = s.core.course.inFlight ∧ k.stages = stages := by
      cases hlisted <;> exact ⟨rfl, rfl⟩
    have hpop := Course.debt_pop (k := { k with stages := frame :: stages }) rfl hf reply'
    have hk : ({ k with stages } : Course) = k := by rw [← hkeeps.2]
    rw [hpop, hk, hkeeps.1, Bool.not_and_self, Course.debt_listing hst]
    exact hlisted.debt_le hok
  | @read reply' stage frame stages _ hst hstage hf =>
    let popped : Course := { s.core.course with stages := frame :: stages }
    have hpop := @Course.debt_pop popped _ _ rfl hf reply
    rw [Bool.not_and_self, hpop, Course.debt_pop hst hstage reply]
    exact Nat.le_refl _
  | @roster reply' accounts labels wallets names after stages _ hst =>
    have hpop := Course.debt_pop (k := { s.core.course with
      accountsJson := member accounts "accounts"
      stages := .listContacts (.refresh after) :: stages }) rfl rfl reply
    rw [Bool.not_and_self, hpop, Course.debt_pop hst rfl reply]
    exact Nat.le_refl _
  | @landed reply' stage stages account _ hst hstage _ =>
    rw [Course.debt_pop hst hstage reply]
    show (if s.core.course.refreshAgain then s.core.course.queued + 1 else s.core.course.queued) + 0 +
        stages.countP s.core.course.stale + (s.core.course.strays reply).toNat +
      (!s.core.course.inFlight && false).toNat ≤ s.core.course.queued +
        s.core.course.refreshAgain.toNat + stages.countP s.core.course.stale +
      (s.core.course.strays reply).toNat
    rw [Bool.and_false]
    cases s.core.course.refreshAgain <;> simp

/-! ## The cursor ends in scope -/

theorem Listed.inScope {k k' : Course} {registryGen : Nat} {reply : Text}
    (h : k.Listed registryGen reply k') : k'.InScope ∨ k'.refreshAgain = true := by
  have hmem := chooseChain_mem (listedNetworks reply) k.chainId
  cases h with
  | aborted | adopted => exact .inr rfl
  | failed | empty => exact .inl (.inl rfl)
  | kept _ hsame =>
    rw [hsame] at hmem
    exact .inl hmem

theorem sound_step (hs : s.core.course.Sound) (h : s.step e = some s') : s'.core.course.Sound := by
  have hmove := s.step_course h
  generalize s'.core.course = k at hmove
  -- A read of the refresh that runs: it is the only one.
  have hone : ∀ {stage : Frame} {stages : List Frame}, s.core.course.stages = stage :: stages →
      stages = [] ∧ s.core.course.inFlight = true := by
    intro stage stages hst
    have hlen := hs.stages
    rw [hst] at hlen
    cases hfly : s.core.course.inFlight with
    | false => simp [hfly] at hlen
    | true => exact ⟨by simpa [hfly] using hlen, rfl⟩
  cases hmove with
  | still => exact hs
  | account => exact ⟨hs.stages, hs.again, hs.settles⟩
  | cursor | called | due => exact Course.Sound.refresh _ hs.stages
  | told => exact ⟨hs.stages, hs.again, .inr (.inr (.inr (Nat.succ_pos _)))⟩
  | @listed reply registryGen after stages k frame _ hst hlisted _ =>
    obtain ⟨hnil, hfly⟩ := hone hst
    have hk : k.inFlight = true ∧ k.stages = stages := by
      cases hlisted <;> exact ⟨hfly, rfl⟩
    refine ⟨by simp [hk.1, hnil], fun _ => hk.1, ?_⟩
    rcases Listed.inScope hlisted with hscope | hagain
    · exact .inl hscope
    · exact .inr (.inr (.inl hagain))
  | @read reply stage frame stages _ hst hstage _ =>
    obtain ⟨hnil, hfly⟩ := hone hst
    refine ⟨by simp [hfly, hnil], hs.again, ?_⟩
    rcases hs.settles with hscope | ⟨listing, hmem, hlists⟩ | hrest
    · exact .inl hscope
    · rw [hst, hnil, List.mem_singleton] at hmem
      rw [hmem, hstage] at hlists
      cases hlists
    · exact .inr (.inr hrest)
  | @roster _ _ _ _ _ _ stages _ hst _ =>
    obtain ⟨hnil, hfly⟩ := hone hst
    refine ⟨by simp [hfly, hnil], hs.again, ?_⟩
    rcases hs.settles with hscope | ⟨listing, hmem, hlists⟩ | hrest
    · exact .inl hscope
    · rw [hst, hnil, List.mem_singleton] at hmem
      rw [hmem] at hlists
      cases hlists
    · exact .inr (.inr hrest)
  | @landed _ stage stages _ _ hst hstage _ =>
    obtain ⟨hnil, -⟩ := hone hst
    refine ⟨by simp [Course.land, hnil], nofun, ?_⟩
    rcases hs.settles with hscope | ⟨listing, hmem, hlists⟩ | hagain | hqueued
    · exact .inl hscope
    · rw [hst, hnil, List.mem_singleton] at hmem
      rw [hmem, hstage] at hlists
      cases hlists
    · refine .inr (.inr (.inr ?_))
      simp [Course.land, hagain]
    · refine .inr (.inr (.inr ?_))
      simp only [Course.land]
      split <;> omega

theorem reach_sound (h : backend.Reach s) : s.core.course.Sound := by
  refine h.induct (I := fun s => s.core.course.Sound) ?_ ?_
  · rintro s rfl
    exact ⟨rfl, nofun, .inr (.inl ⟨_, List.mem_cons_self .., rfl⟩)⟩
  · intro s e s' _ ih _ hs
    exact sound_step ih hs

/-- A refresh that is asked for starts, or is still owed; only finitely many start once nothing asks
for one and `list_networks` keeps its answer; the cursor is in scope once none is running or
queued. -/
theorem refresh_settles (h : backend.Reach s) :
    (∀ e es t, s.asks e = true → backend.exec s (e :: es) = some t →
      0 < backend.marked State.refreshStarts s (e :: es) ∨ t.refreshOwed = true) ∧
    (∀ reply, replyOk reply = true → ∃ n, ∀ es t,
      backend.Meets (fun s e => s.asks e = false ∧ s.listsAs reply e = true) s es →
      backend.exec s es = some t → backend.marked State.refreshStarts s es ≤ n) ∧
    (s.core.inFlight = false → s.core.soon.count .refresh = 0 →
      s.core.shown.chainId = 0 ∨
        s.core.shown.chainId ∈ networkChains s.core.props.networksJson) := by
  refine ⟨?_, ?_, ?_⟩
  · intro e es t ha hes
    obtain ⟨s₁, he, hes⟩ := Option.bind_eq_some_iff.mp hes
    rw [Sys.marked_cons he]
    rcases owed_of_asks ha he with hstarts | howed
    · rw [hstarts, Bool.toNat_true]
      exact .inl (by omega)
    · have hrun : 0 < backend.marked State.refreshStarts s₁ es ∨ t.refreshOwed = true :=
        Sys.marked_or (P := fun s => s.refreshOwed = true) (fun s e s' ho hs => owed_step ho hs)
          howed hes
      exact hrun.imp (fun hpos => Nat.lt_of_lt_of_le hpos (Nat.le_add_left _ _)) id
  · intro reply hok
    refine ⟨s.core.course.debt reply, fun es t hm hes => ?_⟩
    have hle : backend.marked State.refreshStarts s es + t.core.course.debt reply ≤
        s.core.course.debt reply :=
      Sys.marked_le (Φ := fun s => s.core.course.debt reply)
        (fun s e s' hc hs => debt_step hok hc.1 hc.2 hs) hm hes
    omega
  · intro hidle hnone
    have hsound := reach_sound h
    have hstages : s.core.course.stages = [] := by
      have hlen := hsound.stages
      have hfly : s.core.course.inFlight = false := hidle
      rw [hfly] at hlen
      exact List.length_eq_zero_iff.mp hlen
    rcases hsound.settles with hscope | ⟨stage, hmem, -⟩ | hagain | hqueued
    · exact hscope
    · rw [hstages] at hmem
      cases hmem
    · have hfly : s.core.inFlight = true := hsound.again hagain
      rw [hidle] at hfly
      cases hfly
    · have hq : 0 < s.core.soon.count .refresh := hqueued
      omega

/-- The cursor goes to a chain out of scope. -/
def strayed : List Event := opened ++ [.slot (.selectChain 5)]

/-- The refresh that follows brings it back; the two that the cursor's moves have queued keep it. -/
def broughtBack : List Event :=
  strayed ++ opened ++ [.soon 0] ++ opened ++ [.soon 0] ++ opened

theorem refresh_settles_strayed :
    (0 < backend.marked State.refreshStarts (after strayed) [.slot .refresh] ∨
      ((after strayed).called .refresh).refreshOwed = true) ∧
    (∃ n, ∀ es t, backend.Meets (fun s e => s.asks e = false ∧
        s.listsAs (okReply [("networks", .arr [.obj [("chainId", .int 1)]])]) e = true)
      (after strayed) es → backend.exec (after strayed) es = some t →
      backend.marked State.refreshStarts (after strayed) es ≤ n) ∧
    ((after broughtBack).core.shown.chainId = 0 ∨ (after broughtBack).core.shown.chainId ∈
      networkChains (after broughtBack).core.props.networksJson) :=
  have hstrayed := reach_after strayed (by decide +kernel)
  have hback := reach_after broughtBack (by decide +kernel)
  ⟨(refresh_settles hstrayed).1 (.slot .refresh) [] _ (by decide +kernel) rfl,
    (refresh_settles hstrayed).2.1 _ (by decide +kernel),
    (refresh_settles hback).2.2 (by decide +kernel) (by decide +kernel)⟩

end State

end EthWalletUi
