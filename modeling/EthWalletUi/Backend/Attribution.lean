import EthWalletUi.Backend.Turn

/-!
# What a call is about

Every call captures the generation of the selection it was issued under. While that generation is
the current one the selection has not moved, so an answer that finds its own generation current is
about what is on screen (`Attributed.selection`); likewise for the request of a quote
(`Attributed.request`). Answered calls keep this, because generations only grow (`Core.Moves`).

* `Act.moves`: no act moves the selection or the request under an old generation.
* `Core.AllAttributed`: it holds of every call outstanding or answered, in every state of every run.
* `Core.of_reach`: what every act keeps of the properties published holds in every state reached.
-/

namespace EthWalletUi

open Qt Machine

namespace Core

variable (c : Core)

/-- The selection and the request move under new generations only. -/
structure Moves (c' : Core) : Prop where
  dataGen : c.dataGen ≤ c'.dataGen
  shown : c'.dataGen = c.dataGen → c.shown.same c'.shown = true
  quoteGen : c.quoteGen ≤ c'.quoteGen
  quoteRequest : c'.quoteGen = c.quoteGen → c'.quoteRequest = c.quoteRequest

theorem Moves.refl : c.Moves c := ⟨Nat.le_refl _, fun _ => Selection.same_refl _, Nat.le_refl _,
  fun _ => rfl⟩

/-- Neither moves. -/
theorem Moves.of_eq {c c' : Core} (hd : c'.dataGen = c.dataGen) (hs : c'.shown = c.shown)
    (hq : c'.quoteGen = c.quoteGen) (hr : c'.quoteRequest = c.quoteRequest) : c.Moves c' :=
  ⟨Nat.le_of_eq hd.symm, fun _ => hs ▸ Selection.same_refl _, Nat.le_of_eq hq.symm, fun _ => hr⟩

theorem Moves.publishScope (s : ScopedState) : c.Moves (c.publishScope s) :=
  .of_eq (by simp) (by simp) (by simp) (by simp)

theorem Moves.publishSelection (account : String) (networkJson : Text) :
    c.Moves (c.publishSelection account networkJson) := by
  have hshown := c.publishSelection_shown account networkJson
  have hreq := c.publishSelection_quoteRequest account networkJson
  cases h : c.shown.same (selectionOf account networkJson) with
  | true =>
    obtain ⟨hd, hq⟩ := c.publishSelection_gen_same h
    refine ⟨Nat.le_of_eq hd.symm, fun _ => ?_, Nat.le_of_eq hq.symm, fun _ => hreq⟩
    rw [hshown]
    exact h
  | false =>
    obtain ⟨hd, hq⟩ := c.publishSelection_gen_moved h
    exact ⟨by omega, fun _ => by omega, by omega, fun _ => by omega⟩

theorem Moves.trans {c c' c'' : Core} (h : c.Moves c') (h' : c'.Moves c'') : c.Moves c'' := by
  have hd := h.dataGen
  have hd' := h'.dataGen
  have hq := h.quoteGen
  have hq' := h'.quoteGen
  refine ⟨Nat.le_trans hd hd', fun heq => ?_, Nat.le_trans hq hq', fun heq => ?_⟩
  · exact Selection.same_trans (h.shown (by omega)) (h'.shown (by omega))
  · exact (h'.quoteRequest (by omega)).trans (h.quoteRequest (by omega))

theorem Moves.enterRequest (requestJson : Text) (interactive : Bool) :
    c.Moves (c.enterRequest requestJson interactive) := by
  have hstep : c.Moves
      { (if requestJson = c.quoteRequest then c else { c with quoteGen := c.quoteGen + 1 }) with
        quoteRequest := requestJson } := by
    split
    · exact .of_eq rfl rfl rfl ‹_›
    · exact ⟨Nat.le_refl _, fun _ => Selection.same_refl _, Nat.le_succ _, fun h => by
        simp only at h
        omega⟩
  exact hstep.trans (.publishScope _ _)

theorem Moves.forgetRequest : c.Moves c.forgetRequest := by
  have hstep : c.Moves { c with quoteGen := c.quoteGen + 1, quoteRequest := .empty } :=
    ⟨Nat.le_refl _, fun _ => Selection.same_refl _, Nat.le_succ _, fun h => by
      simp only at h
      omega⟩
  exact hstep.trans (.publishScope _ _)

theorem Moves.refresh (after : After) : c.Moves (c.refresh after) := by
  simp only [Core.refresh]
  split
  · have h := { c with refreshAgain := true }.afterRefresh_aside after
    exact .of_eq h.dataGen h.shown_eq h.quoteGen h.quoteRequest
  · exact .of_eq rfl rfl rfl rfl

theorem Moves.loadFeeTiers : c.Moves c.loadFeeTiers := by
  simp only [Core.loadFeeTiers]
  split
  · exact .refl c
  · split <;> exact .of_eq rfl rfl rfl rfl

/-- No act moves the selection or the request under an old generation. -/
theorem Act.moves {c c' : Core} (h : c.Act c') : c.Moves c' := by
  cases h with
  | aside h =>
    exact .of_eq h.dataGen h.shown_eq h.quoteGen h.quoteRequest
  | publish => exact .publishScope c _
  | account | noChain => exact .publishSelection c _ _
  | adopt networkJson =>
    exact (Moves.publishSelection c c.published.selectedAccount networkJson).trans
      (.of_eq rfl rfl rfl rfl)
  | pick networkJson =>
    exact (Moves.publishSelection c c.published.selectedAccount networkJson).trans (.refresh _ _)
  | quote => exact .enterRequest c _ _
  | forget => exact .forgetRequest c
  | issue | enter | queue | again => exact .of_eq rfl rfl rfl rfl
  | refresh => exact .refresh c _
  | fees => exact .loadFeeTiers c
  | land =>
    simp only [Core.land]
    split <;> exact .of_eq rfl rfl rfl rfl

end Core

/-! ## Attributed calls -/

/-- A call is about the selection, and the request, of its generations. -/
structure Call.Attributed (call : Call) (c : Core) : Prop where
  selection : ∀ gen, call.callback.gen = some gen →
    gen ≤ c.dataGen ∧ (gen = c.dataGen → call.under.same c.shown = true)
  request : ∀ priced interactive gen qgen slot,
    call.callback = .quote priced interactive gen qgen slot →
      qgen ≤ c.quoteGen ∧ (qgen = c.quoteGen → priced = c.quoteRequest)
  chain : ∀ chainId gen slot, call.callback = .feeTiers chainId gen slot →
    chainId = call.under.chainId

theorem Call.Attributed.moves {call : Call} {c c' : Core} (h : call.Attributed c)
    (hm : c.Moves c') : call.Attributed c' := by
  have hd := hm.dataGen
  have hq := hm.quoteGen
  refine ⟨fun gen hg => ?_, fun p i g qgen sl hc => ?_, h.chain⟩
  · obtain ⟨hle, hs⟩ := h.selection gen hg
    refine ⟨Nat.le_trans hle hd, fun heq => ?_⟩
    exact Selection.same_trans (hs (by omega)) (hm.shown (by omega))
  · obtain ⟨hle, hr⟩ := h.request p i g qgen sl hc
    refine ⟨Nat.le_trans hle hq, fun heq => ?_⟩
    exact (hr (by omega)).trans (hm.quoteRequest (by omega)).symm

namespace Core

/-- A call of `send` waits under the generation it captured. -/
def SendAttributed (c : Core) (frame : Frame) : Prop :=
  ∀ requestJson gen under, frame = .send requestJson gen under →
    gen ≤ c.dataGen ∧ (gen = c.dataGen → under.same c.shown = true)

theorem SendAttributed.moves {c c' : Core} {frame : Frame} (h : c.SendAttributed frame)
    (hm : c.Moves c') : c'.SendAttributed frame := by
  have hd := hm.dataGen
  intro requestJson gen under hf
  obtain ⟨hle, hs⟩ := h requestJson gen under hf
  refine ⟨Nat.le_trans hle hd, fun heq => ?_⟩
  exact Selection.same_trans (hs (by omega)) (hm.shown (by omega))

/-- Every call outstanding or answered is about what its generations stand for, and token loads
collect rows with their chains. -/
structure AllAttributed (c : Core) : Prop where
  calls : ∀ call ∈ c.calls, call.Attributed c
  frames : ∀ frame ∈ c.stack, c.SendAttributed frame
  replied : ∀ call res, .reply call res ∈ c.log → call.Attributed c
  returned : ∀ frame answer, .returned frame answer ∈ c.log → c.SendAttributed frame
  loading : ∀ frame ∈ c.stack, frame.Chained
  loaded : c.LoadsChained

/-- A call just issued is about what is on screen. -/
theorem attributed_of_issued {c : Core} {callback : Callback} (h : c.AllAttributed)
    (hi : c.Issued callback) : Call.Attributed ⟨callback, c.shown⟩ c := by
  have hcap : ∀ {gen}, c.Captured gen → gen ≤ c.dataGen := by
    rintro gen (rfl | ⟨call, res, hm, hg⟩)
    · exact Nat.le_refl _
    · exact ((h.replied call res hm).selection gen hg).1
  have hsel : (∀ gen, callback.gen = some gen → gen ≤ c.dataGen) →
      ∀ gen, callback.gen = some gen →
        gen ≤ c.dataGen ∧ (gen = c.dataGen → c.shown.same c.shown = true) :=
    fun hle gen hg => ⟨hle gen hg, fun _ => Selection.same_refl _⟩
  cases callback with
  | quote priced interactive gen qgen slot =>
    obtain ⟨hd, hq, hp⟩ := hi
    refine ⟨hsel fun _ hg => ?_, ?_, nofun⟩
    · cases hg
      exact Nat.le_of_eq hd
    · rintro _ _ _ _ _ ⟨⟩
      exact ⟨Nat.le_of_eq hq, fun _ => hp⟩
  | feeTiers => exact hi.elim
  | _ => exact ⟨hsel fun gen hg => hcap (hi gen hg), nofun, nofun⟩

/-- What an act does to the outstanding calls. -/
theorem Act.calls_cases {c c' : Core} (h : c.Act c') :
    c'.calls = c.calls ∨ ∃ callback, c'.calls = c.calls ++ [⟨callback, c.shown⟩] ∧
      (c.Issued callback ∨ ∃ slot, callback = .feeTiers c.shown.chainId c.dataGen slot) := by
  have hrefresh : ∀ (c : Core) (after : After), (c.refresh after).calls = c.calls := by
    intro c after
    simp only [Core.refresh]
    split
    · exact ({ c with refreshAgain := true }.afterRefresh_aside after).calls
    · rfl
  cases h with
  | aside h => exact .inl h.calls
  | publish => exact .inl (c.publishScope_calls _)
  | account | noChain | adopt => exact .inl (c.publishSelection_calls _ _)
  | pick networkJson =>
    refine .inl ?_
    rw [hrefresh]
    exact c.publishSelection_calls _ _
  | quote =>
    refine .inl ?_
    simp only [enterRequest, publishScope_calls]
    split <;> rfl
  | forget => exact .inl (publishScope_calls _ _)
  | @issue callback hi => exact .inr ⟨callback, rfl, .inl hi⟩
  | enter | queue | again => exact .inl rfl
  | refresh => exact .inl (hrefresh c _)
  | fees =>
    simp only [Core.loadFeeTiers]
    split
    · exact .inl rfl
    · split
      · exact .inl rfl
      · exact .inr ⟨_, rfl, .inr ⟨_, rfl⟩⟩
  | land =>
    simp only [Core.land]
    split <;> exact .inl rfl

/-- What an act does to the handlers that wait. -/
theorem Act.stack_cases {c c' : Core} (h : c.Act c') :
    c'.stack = c.stack ∨ ∃ frame, c'.stack = frame :: c.stack ∧ c.Entered frame := by
  have hrefresh : ∀ (d : Core) (after : After), d.stack = c.stack →
      (d.refresh after).stack = c.stack ∨
        ∃ frame, (d.refresh after).stack = frame :: c.stack ∧ c.Entered frame := by
    intro d after hd
    simp only [Core.refresh]
    split
    · exact .inl (({ d with refreshAgain := true }.afterRefresh_aside after).stack.trans hd)
    · exact .inr ⟨.listNetworks d.registryGen after, by rw [← hd]; rfl, trivial⟩
  cases h with
  | aside h => exact .inl h.stack
  | publish => exact .inl (c.publishScope_stack _)
  | account | noChain | adopt => exact .inl (c.publishSelection_stack _ _)
  | pick networkJson => exact hrefresh _ _ (c.publishSelection_stack _ _)
  | quote =>
    refine .inl ?_
    simp only [enterRequest, publishScope_stack]
    split <;> rfl
  | forget => exact .inl (publishScope_stack _ _)
  | @enter frame hf => exact .inr ⟨frame, rfl, hf⟩
  | issue | queue | again => exact .inl rfl
  | refresh => exact hrefresh c _ rfl
  | fees =>
    simp only [Core.loadFeeTiers]
    split
    · exact .inl rfl
    · split <;> exact .inl rfl
  | land =>
    simp only [Core.land]
    split <;> exact .inl rfl

/-- The calls that an act adds. -/
theorem Act.calls {c c' : Core} (h : c.Act c') (hc : c.AllAttributed) :
    ∀ call ∈ c'.calls, call.Attributed c' := by
  intro call hm
  rcases h.calls_cases with heq | ⟨callback, heq, hi⟩
  · rw [heq] at hm
    exact (hc.calls call hm).moves h.moves
  · rw [heq, List.mem_append, List.mem_singleton] at hm
    rcases hm with hm | rfl
    · exact (hc.calls call hm).moves h.moves
    · refine Call.Attributed.moves ?_ h.moves
      rcases hi with hi | ⟨slot, rfl⟩
      · exact attributed_of_issued hc hi
      · refine ⟨?_, nofun, ?_⟩
        · rintro gen ⟨⟩
          exact ⟨Nat.le_refl _, fun _ => Selection.same_refl _⟩
        · rintro chainId gen slot ⟨⟩
          rfl

theorem Act.frames {c c' : Core} (h : c.Act c') (hc : c.AllAttributed) :
    ∀ frame ∈ c'.stack, c'.SendAttributed frame := by
  intro frame hm
  rcases h.stack_cases with heq | ⟨new, heq, hf⟩
  · rw [heq] at hm
    exact (hc.frames frame hm).moves h.moves
  · rw [heq, List.mem_cons] at hm
    rcases hm with rfl | hm
    · refine SendAttributed.moves ?_ h.moves
      rintro requestJson gen under rfl
      obtain ⟨hg, hu⟩ := hf
      exact ⟨Nat.le_of_eq hg, fun _ => hu ▸ Selection.same_refl _⟩
    · exact (hc.frames frame hm).moves h.moves

/-- A token load that an act enters, or goes on with, has rows with their chains. -/
theorem Act.loading {c c' : Core} (h : c.Act c') (hc : c.AllAttributed) :
    ∀ frame ∈ c'.stack, frame.Chained := by
  intro frame hm
  rcases h.stack_cases with heq | ⟨new, heq, hf⟩
  · rw [heq] at hm
    exact hc.loading frame hm
  · rw [heq, List.mem_cons] at hm
    rcases hm with rfl | hm
    · cases frame with
      | listTokens => exact hf hc.loaded
      | _ => trivial
    · exact hc.loading frame hm

theorem AllAttributed.act {c c' : Core} (hc : c.AllAttributed) (h : c.Act c') :
    c'.AllAttributed := by
  refine ⟨h.calls hc, h.frames hc, fun call res hm => ?_, fun frame answer hm => ?_, h.loading hc,
    fun frame answer hm => ?_⟩
  all_goals rw [h.kept.1] at hm
  · exact (hc.replied call res hm).moves h.moves
  · exact (hc.returned frame answer hm).moves h.moves
  · exact hc.loaded frame answer hm

theorem AllAttributed.path {c c' : Core} (hc : c.AllAttributed) (h : Path c c') :
    c'.AllAttributed := by
  induction h with
  | refl => exact hc
  | tail _ h ih => exact ih.act h

/-- An input answers a call that was outstanding or waiting. -/
theorem AllAttributed.input {c c' : Core} (hc : c.AllAttributed) (hm : c.Moves c')
    (hcalls : ∀ call ∈ c'.calls, call ∈ c.calls) (hstack : ∀ frame ∈ c'.stack, frame ∈ c.stack)
    (hreplied : ∀ call res, .reply call res ∈ c'.log → .reply call res ∈ c.log ∨ call ∈ c.calls)
    (hreturned : ∀ frame answer, .returned frame answer ∈ c'.log →
      .returned frame answer ∈ c.log ∨ frame ∈ c.stack) : c'.AllAttributed where
  calls call h := (hc.calls call (hcalls call h)).moves hm
  frames frame h := (hc.frames frame (hstack frame h)).moves hm
  replied call res h := by
    rcases hreplied call res h with h | h
    · exact (hc.replied call res h).moves hm
    · exact (hc.calls call h).moves hm
  returned frame answer h := by
    rcases hreturned frame answer h with h | h
    · exact (hc.returned frame answer h).moves hm
    · exact (hc.frames frame h).moves hm
  loading frame h := hc.loading frame (hstack frame h)
  loaded frame answer h := (hreturned frame answer h).elim (hc.loaded frame answer)
    (hc.loading frame)

/-- The answer to an outstanding call is heard. -/
theorem AllAttributed.answered {c : Core} (hc : c.AllAttributed) {i : Nat} {call : Call}
    (hi : c.calls[i]? = some call) (res : Option Text) :
    AllAttributed { c with calls := c.calls.eraseIdx i, log := .reply call res :: c.log } := by
  refine hc.input (.of_eq rfl rfl rfl rfl) (fun _ => List.mem_of_mem_eraseIdx) (fun _ h => h) ?_ ?_
  · intro call' res' h
    rcases List.mem_cons.mp h with h | h
    · cases h
      exact .inr (List.mem_of_getElem? hi)
    · exact .inl h
  · intro frame answer h
    exact .inl ((List.mem_cons.mp h).resolve_left nofun)

/-- What the sender answers is about none of them. -/
theorem AllAttributed.heard_sender {c : Core} (hc : c.AllAttributed) (call : SenderCall)
    (res : Option Text) : AllAttributed { c with log := .sender call res :: c.log } := by
  refine hc.input (.of_eq rfl rfl rfl rfl) (fun _ h => h) (fun _ h => h) ?_ ?_
  · exact fun _ _ h => .inl ((List.mem_cons.mp h).resolve_left nofun)
  · exact fun _ _ h => .inl ((List.mem_cons.mp h).resolve_left nofun)

/-- The innermost synchronous call returns. -/
theorem AllAttributed.returns {c : Core} (hc : c.AllAttributed) {frame : Frame}
    {stack : List Frame} (hs : c.stack = frame :: stack) (reply : Text) :
    AllAttributed { c with stack, log := .returned frame reply :: c.log } := by
  refine hc.input (.of_eq rfl rfl rfl rfl) (fun _ h => h) ?_ ?_ ?_
  · rw [hs]
    exact fun _ h => List.mem_cons_of_mem _ h
  · exact fun _ _ h => .inl ((List.mem_cons.mp h).resolve_left nofun)
  · intro frame answer h
    rcases List.mem_cons.mp h with h | h
    · cases h
      rw [hs]
      exact .inr (List.mem_cons_self ..)
    · exact .inl h

/-- The queue and the clock are no part of it. -/
theorem AllAttributed.loop {c : Core} (hc : c.AllAttributed) (soon : List Soon) (now : Nat) :
    AllAttributed { c with soon, now } :=
  hc.input (.of_eq rfl rfl rfl rfl) (fun _ h => h) (fun _ h => h) (fun _ _ h => .inl h)
    fun _ _ h => .inl h

theorem Moves.feeTiersReplied (c : Core) (gen slot : Nat) (res : Option Text) :
    c.Moves (c.feeTiersReplied gen slot res) := by
  simp only [Core.feeTiersReplied]
  split
  · exact .of_eq rfl rfl rfl rfl
  · exact .of_eq (publishScope_dataGen _ _) (publishScope_shown _ _) (publishScope_quoteGen _ _)
      (publishScope_quoteRequest _ _)

theorem feeTiersReplied_kept (c : Core) (gen slot : Nat) (res : Option Text) :
    (c.feeTiersReplied gen slot res).calls = c.calls ∧
      (c.feeTiersReplied gen slot res).stack = c.stack ∧
      (c.feeTiersReplied gen slot res).log = c.log := by
  simp only [Core.feeTiersReplied]
  split
  · exact ⟨rfl, rfl, rfl⟩
  · simp

theorem AllAttributed.turn {c c' : Core} {e : Event} (hc : c.AllAttributed) (h : c.Turn e c') :
    c'.AllAttributed := by
  cases h with
  | acts h => exact hc.path h
  | reply hi _ h => exact (hc.answered hi _).path h
  | @fees i gen slot chainId under res hi =>
    obtain ⟨hcalls, hstack, hlog⟩ := feeTiersReplied_kept { c with
      calls := c.calls.eraseIdx i
      log := .reply ⟨.feeTiers chainId gen slot, under⟩ res :: c.log } gen slot res
    refine (hc.answered hi res).input (.feeTiersReplied _ _ _ _) ?_ ?_ ?_ ?_
    · rw [hcalls]
      exact fun _ h => h
    · rw [hstack]
      exact fun _ h => h
    · rw [hlog]
      exact fun _ _ h => .inl h
    · rw [hlog]
      exact fun _ _ h => .inl h
  | @sender _ call res _ h => exact (hc.heard_sender call res).path h
  | @returned _ _ reply _ hs h => exact (hc.returns hs reply).path h
  | @reload i hi => exact (hc.loop (c.soon.eraseIdx i) c.now).act (.refresh _)
  | @soon i _ _ _ _ h => exact (hc.loop (c.soon.eraseIdx i) c.now).path h
  | elapse ms => exact hc.loop c.soon (c.now + ms)

end Core

/-- In every state of every run. -/
theorem allAttributed_of_reach {s : State} (h : backend.Reach s) : s.core.AllAttributed := by
  refine Sys.Runs.induct (I := fun s => s.core.AllAttributed) ?_ ?_ h
  case refine_2 => exact fun s e s' _ ih _ hs => ih.turn (State.step_turn hs)
  rintro s rfl
  constructor <;> simp [State.ready, Core.refresh, Core.enter, Core.SendAttributed,
    Core.LoadsChained, Frame.Chained]

/-! ## Invariants of what is published -/

namespace Core

/-- Nothing published changes, and nothing heard is forgotten. -/
structure SameScreen (c c' : Core) : Prop where
  published : c'.published = c.published
  seen : c'.seen = c.seen
  quoteRequest : c'.quoteRequest = c.quoteRequest
  log : c.log ⊆ c'.log

theorem Aside.sameScreen {c c' : Core} (h : c.Aside c') : c.SameScreen c' :=
  ⟨h.published, h.seen, h.quoteRequest, by rw [h.log]; exact fun _ h => h⟩

theorem refresh_sameScreen (c : Core) (after : After) : c.SameScreen (c.refresh after) := by
  simp only [Core.refresh]
  split
  · have h := ({ c with refreshAgain := true }.afterRefresh_aside after).sameScreen
    exact ⟨h.published, h.seen, h.quoteRequest, h.log⟩
  · exact ⟨rfl, rfl, rfl, fun _ h => h⟩

theorem loadFeeTiers_sameScreen (c : Core) : c.SameScreen c.loadFeeTiers := by
  simp only [Core.loadFeeTiers]
  split
  · exact ⟨rfl, rfl, rfl, fun _ h => h⟩
  · split <;> exact ⟨rfl, rfl, rfl, fun _ h => h⟩

theorem land_sameScreen (c : Core) : c.SameScreen c.land := by
  simp only [Core.land]
  split <;> exact ⟨rfl, rfl, rfl, fun _ h => h⟩

variable {I : Core → Prop}

/-- An invariant of what is published is kept by a turn if acts and tiers keep it. -/
theorem Turn.keeps {c c' : Core} {e : Event} (hscreen : ∀ c c', I c → c.SameScreen c' → I c')
    (hact : ∀ c c', I c → c.AllAttributed → c.Act c' → I c')
    (hfees : ∀ c gen slot res, I c → I (feeTiersReplied c gen slot res)) (hi : I c)
    (ha : c.AllAttributed) (h : c.Turn e c') : I c' := by
  have hpath : ∀ {d d' : Core}, I d → d.AllAttributed → Path d d' → I d' := by
    intro d d' hd had hp
    have hboth : I d' ∧ d'.AllAttributed := by
      induction hp with
      | refl => exact ⟨hd, had⟩
      | tail _ h ih => exact ⟨hact _ _ ih.1 ih.2 h, ih.2.act h⟩
    exact hboth.1
  cases h with
  | acts h => exact hpath hi ha h
  | reply hc _ h =>
    refine hpath (hscreen c _ hi ?_) (ha.answered hc _) h
    exact ⟨rfl, rfl, rfl, fun _ => List.mem_cons_of_mem _⟩
  | fees =>
    refine hfees _ _ _ _ (hscreen c _ hi ?_)
    exact ⟨rfl, rfl, rfl, fun _ => List.mem_cons_of_mem _⟩
  | @sender _ call res _ h =>
    refine hpath (hscreen c _ hi ?_) (ha.heard_sender call res) h
    exact ⟨rfl, rfl, rfl, fun _ => List.mem_cons_of_mem _⟩
  | @returned _ _ reply _ hs h =>
    refine hpath (hscreen c _ hi ?_) (ha.returns hs reply) h
    exact ⟨rfl, rfl, rfl, fun _ => List.mem_cons_of_mem _⟩
  | reload =>
    refine hscreen _ _ (hscreen c _ hi ?_) (refresh_sameScreen _ _)
    exact ⟨rfl, rfl, rfl, fun _ h => h⟩
  | @soon i _ _ _ _ h =>
    refine hpath (hscreen c _ hi ?_) (ha.loop (c.soon.eraseIdx i) c.now) h
    exact ⟨rfl, rfl, rfl, fun _ h => h⟩
  | elapse =>
    refine hscreen c _ hi ?_
    exact ⟨rfl, rfl, rfl, fun _ h => h⟩

/-- An invariant of what is published holds in every state of every run. -/
theorem of_reach (hnew : I {}) (hscreen : ∀ c c', I c → c.SameScreen c' → I c')
    (hact : ∀ c c', I c → c.AllAttributed → c.Act c' → I c')
    (hfees : ∀ c gen slot res, I c → I (feeTiersReplied c gen slot res)) {s : State}
    (h : backend.Reach s) : I s.core := by
  refine Sys.Runs.induct (I := fun s => I s.core) ?_ ?_ h
  · rintro s rfl
    exact hscreen _ _ hnew (refresh_sameScreen _ _)
  · intro s e s' hr ih _ hs
    exact (State.step_turn hs).keeps hscreen hact hfees ih (allAttributed_of_reach hr)

end Core

end EthWalletUi
