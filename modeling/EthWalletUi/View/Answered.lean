import EthWalletUi.View.Stage

/-!
# The two rules that answer an app

What a settled send tells the app that asked for it is written twice: `answerFromOutcome` in
`eth_wallet_ui_intent.h`, and the view's `answerIntentFromOutcome`, which is the one in use.

* `outcome_members`: the outcome record of a reply that settles a send.
* `View.answersAs_iff`: the two give the app the same answer unless the send has no status, or it
  was broadcast and the sender gives a reason.
-/

namespace EthWalletUi

open Qt

/-! ## The rule that is not in use -/

/-- What the requester is answered with once its send has settled. -/
structure IntentAnswer where
  ok : Bool := false
  result : JsonObject := []
  error : String := ""
  deriving DecidableEq, Inhabited

/-- `ok` only for a broadcast; every other status is the error, in the sender's word. -/
def answerFromOutcome (lastSendOutcomeJson : Text) (sendRequestId : String) : IntentAnswer :=
  let o := parseObject lastSendOutcomeJson
  let status := (o.value "status").toString
  if status.isEmpty then {}
  else
    let result : JsonObject := [("status", .str status), ("requestId", .str sendRequestId)]
    let result := if o.contains "hash" then result.insertValue "hash" (o.value "hash") else result
    let result := if o.contains "hashes" then result.insertValue "hashes" (o.value "hashes")
      else result
    if status == "broadcast" then { ok := true, result }
    else
      let reason := (o.value "reason").toString
      { result := insertUnlessEmpty result "reason" reason, error := status }

/-- The app is answered. -/
def IntentAnswer.given (a : IntentAnswer) : Bool :=
  a.ok || !a.result.isEmpty || !a.error.isEmpty

/-- The members that both answers carry. -/
def answerMembers : List String := ["status", "hash", "hashes", "reason"]

/-- The view answers the app as the rule does, its `requestId` aside. -/
def View.answersAs (v : View) (a : IntentAnswer) : Bool :=
  match a.given, v.answerIntentFromOutcome.answers with
  | true, given :: answers =>
    answers == v.answers && given.ok == a.ok && given.error == a.error &&
      answerMembers.all fun key => given.data.value key == a.result.value key
  | true, [] => false
  | false, answers => answers == v.answers

/-! ## The record they read -/

theorem copyMembers_value (o data : JsonObject) (keys : List String) (k : String) :
    (keys.foldl (View.copyMember o) data).value k =
      if k ∈ keys ∧ o.contains k = true then o.value k else data.value k := by
  induction keys generalizing data with
  | nil => simp
  | cons key keys ih =>
    have hcopy : (View.copyMember o data key).value k =
        if k = key ∧ o.contains k = true then o.value k else data.value k := by
      unfold View.copyMember
      by_cases hk : k = key
      · subst hk
        split <;> simp [JsonObject.value_insertValue, *]
      · split <;> simp [JsonObject.value_insertValue, hk]
    rw [List.foldl_cons, ih, hcopy]
    grind

/-- What the view's answer carries of a record is what the record has. -/
theorem copyMembers_answer (o : JsonObject) {k : String} (h : k ∈ answerMembers) :
    (answerMembers.foldl (View.copyMember o) []).value k = o.value k := by
  rw [copyMembers_value]
  cases hc : o.contains k with
  | true => simp [h]
  | false =>
    have hnone : o.value k = none := by simpa [JsonObject.contains] using hc
    simp [hnone]

/-- The outcome of a reply that settles a send: the status, and a reason only if there is one. -/
theorem outcome_members {reply : Text} (h : (sendPolled reply).settled = true) :
    (sendPolled reply).outcome.value "status" = some (.str
      (if replyOk reply then ((parseObject reply).value "status").toString else "failed")) ∧
    (sendPolled reply).outcome.value "reason" =
      (if replyOk reply then
        if ((parseObject reply).value "reason").toString = "" then none
        else some (.str ((parseObject reply).value "reason").toString)
      else some (.str (replyError reply))) := by
  let r := parseObject reply
  let outcome : JsonObject := insertUnlessEmpty
    (insertUnlessEmpty [("status", .str (r.value "status").toString)] "hash" (r.value "hash").toString)
    "reason" (r.value "reason").toString
  obtain ⟨settled, heq⟩ : ∃ settled : Bool, sendPolled reply =
      if !settled then {}
      else if !replyOk reply then
        { settled, outcome := [("status", .str "failed"), ("reason", .str (replyError reply))] }
      else
        { settled
          outcome := if r.contains "hashes" then outcome.insertValue "hashes" (r.value "hashes")
            else outcome } := ⟨_, rfl⟩
  rw [heq] at h ⊢
  cases settled with
  | false => cases h
  | true =>
    cases replyOk reply with
    | false => exact ⟨rfl, rfl⟩
    | true =>
      have hstatus : outcome.value "status" = some (.str (r.value "status").toString) := by
        simp [outcome, insertUnlessEmpty_value, JsonObject.value_cons]
      have hreason : outcome.value "reason" = if (r.value "reason").toString = "" then none
          else some (.str (r.value "reason").toString) := by
        simp only [outcome, insertUnlessEmpty_value]
        by_cases he : (r.value "reason").toString = "" <;> simp [he, JsonObject.value_cons]
      have hkeep : ∀ k, k ≠ "hashes" → (if r.contains "hashes" then
          outcome.insertValue "hashes" (r.value "hashes") else outcome).value k =
            outcome.value k := by
        intro k hk
        split
        · rw [JsonObject.value_insertValue, if_neg hk]
        · rfl
      refine ⟨(hkeep "status" (by decide)).trans hstatus, ?_⟩
      exact (hkeep "reason" (by decide)).trans hreason

/-! ## What the two say of a record -/

/-- The rule's answer on a record with a status. -/
theorem answerFromOutcome_members {o : JsonObject} {status : String}
    (hs : o.value "status" = some (.str status)) (hne : status ≠ "") (sendRequestId : String) :
    (answerFromOutcome (toJsonCompact o) sendRequestId).ok = (status == "broadcast") ∧
    (answerFromOutcome (toJsonCompact o) sendRequestId).error =
      (if status == "broadcast" then "" else status) ∧
    ∀ k ∈ answerMembers, (answerFromOutcome (toJsonCompact o) sendRequestId).result.value k =
      if k = "reason" then
        if status = "broadcast" ∨ (o.value "reason").toString = "" then none
        else some (.str (o.value "reason").toString)
      else o.value k := by
  let base : JsonObject := [("status", .str status), ("requestId", .str sendRequestId)]
  let result := ["hash", "hashes"].foldl (View.copyMember o) base
  have hstatus : (o.value "status").toString = status := by rw [hs]; rfl
  have heq : answerFromOutcome (toJsonCompact o) sendRequestId =
      if status == "broadcast" then { ok := true, result }
      else { result := insertUnlessEmpty result "reason" (o.value "reason").toString,
             error := status } := by
    simp only [answerFromOutcome, parseObject_compact, hstatus]
    rw [if_neg (by simpa [String.isEmpty_iff] using hne)]
    rfl
  have hresult : ∀ k ∈ answerMembers, result.value k =
      if k = "reason" then none else o.value k := by
    intro k hk
    have hval := copyMembers_value o base ["hash", "hashes"] k
    simp only [answerMembers, List.mem_cons, List.not_mem_nil, or_false] at hk
    rcases hk with rfl | rfl | rfl | rfl
    all_goals
      rw [hval]
      simp [base, JsonObject.value_cons, JsonObject.contains, hs]
    all_goals
      intro hnone
      exact hnone.symm
  rw [heq]
  by_cases hb : status = "broadcast"
  · simp only [hb, beq_self_eq_true, if_true, true_or]
    exact ⟨trivial, trivial, hresult⟩
  · have hb' : (status == "broadcast") = false := beq_eq_false_iff_ne.mpr hb
    simp only [hb', Bool.false_eq_true, if_false, hb, false_or, true_and]
    intro k hk
    rw [insertUnlessEmpty_value, hresult k hk]
    by_cases hk' : k = "reason"
    · by_cases he : (o.value "reason").toString = "" <;> simp [hk', he]
    · simp [hk']

namespace View

variable {v : View}

/-- On a record with a status they differ if it is empty, or if it is `broadcast` and a reason is
given. -/
theorem answersAs_record {o : JsonObject} {status : String} (h : v.intentSendRequestId ≠ "")
    (hv : v.lastSendOutcomeJson = toJsonCompact o) (hs : o.value "status" = some (.str status))
    (hr : o.value "reason" = none ∨
      ∃ reason, reason ≠ "" ∧ o.value "reason" = some (.str reason)) (sendRequestId : String) :
    v.answersAs (answerFromOutcome v.lastSendOutcomeJson sendRequestId) = true ↔
      status ≠ "" ∧ (status = "broadcast" → o.value "reason" = none) := by
  have hcontains : o.contains "status" = true := by simp [JsonObject.contains, hs]
  have hstatus : (o.value "status").toString = status := by rw [hs]; rfl
  have hanswers : v.answerIntentFromOutcome.answers =
      ⟨v.intentSendRequestId, status == "broadcast", answerMembers.foldl (copyMember o) [],
        if status == "broadcast" then "" else status, .settled v.outcomeOf⟩ :: v.answers := by
    simp only [answerIntentFromOutcome, hv, parseObject_compact, hcontains, Bool.not_true,
      Bool.false_eq_true, if_false, hstatus, answerIntent_held h]
    rfl
  by_cases hne : status = ""
  · -- The view answers with no word for it, the rule not at all.
    have hnone : answerFromOutcome v.lastSendOutcomeJson sendRequestId = {} := by
      simp [answerFromOutcome, hv, parseObject_compact, hstatus, hne]
    have hgiven : ({} : IntentAnswer).given = false := by decide
    have hmore : ∀ a : Answer, (a :: v.answers == v.answers) = false := by
      intro a
      simp
    simp only [hnone, answersAs, hgiven, hanswers, hmore, hne, ne_eq, not_true_eq_false, false_and,
      Bool.false_eq_true]
  · obtain ⟨hok, herr, hmembers⟩ := answerFromOutcome_members hs hne sendRequestId
    rw [← hv] at hok herr hmembers
    have hgiven : (answerFromOutcome v.lastSendOutcomeJson sendRequestId).given = true := by
      by_cases hb : status = "broadcast"
      · simp [IntentAnswer.given, hok, hb]
      · simp [IntentAnswer.given, herr, hb, hne]
    simp only [answersAs, hgiven, hanswers, hok, herr, beq_self_eq_true, Bool.true_and,
      List.all_eq_true, beq_iff_eq]
    constructor
    · intro hall
      refine ⟨hne, fun hb => ?_⟩
      have hreason := hall "reason" (by decide)
      rw [copyMembers_answer o (by decide), hmembers "reason" (by decide)] at hreason
      simpa [hb] using hreason
    · rintro ⟨-, hb⟩ k hk
      rw [copyMembers_answer o hk, hmembers k hk]
      by_cases hk' : k = "reason"
      · rw [if_pos hk', hk']
        rcases hr with hnone | ⟨reason, hreason, hsome⟩
        · simp [hnone, JsonValue.toString]
        · have hnb : status ≠ "broadcast" := by
            intro hb'
            rw [hb hb'] at hsome
            cases hsome
          simp [hsome, JsonValue.toString, hnb, hreason]
      · rw [if_neg hk']

/-- The two rules give the app one answer if and only if the reply that settled the send is a
refusal, or has a status and, for a broadcast, no reason. -/
theorem answersAs_iff (v : View) (reply : Text) (sendRequestId : String)
    (h : v.intentSendRequestId ≠ "") (hsettled : (sendPolled reply).settled = true)
    (hv : v.lastSendOutcomeJson = toJsonCompact (sendPolled reply).outcome) :
    v.answersAs (answerFromOutcome v.lastSendOutcomeJson sendRequestId) = true ↔
      (replyOk reply = true → ((parseObject reply).value "status").toString ≠ "" ∧
        (((parseObject reply).value "status").toString = "broadcast" →
          ((parseObject reply).value "reason").toString = "")) := by
  obtain ⟨hstatus, hreason⟩ := outcome_members hsettled
  cases hok : replyOk reply with
  | false =>
    rw [hok] at hstatus hreason
    have hne : replyError reply ≠ "" := by
      simp only [replyError]
      split
      · decide
      · rename_i hword
        simpa using hword
    rw [answersAs_record h hv hstatus (.inr ⟨_, hne, hreason⟩)]
    simp
  | true =>
    rw [hok] at hstatus hreason
    simp only [if_true] at hstatus hreason
    have hr : (sendPolled reply).outcome.value "reason" = none ∨ ∃ reason, reason ≠ "" ∧
        (sendPolled reply).outcome.value "reason" = some (.str reason) := by
      by_cases he : ((parseObject reply).value "reason").toString = ""
      · exact .inl (by rw [hreason, if_pos he])
      · exact .inr ⟨_, he, by rw [hreason, if_neg he]⟩
    rw [answersAs_record h hv hstatus hr, hreason]
    simp

/-- A view that holds a request, and has been told of the outcome. -/
def told (reply : Text) : View :=
  { intentSendRequestId := "r1", lastSendOutcomeJson := toJsonCompact (sendPolled reply).outcome }

/-- The send got stuck. -/
def stuckReply : Text :=
  okReply [("status", .str "stuck"), ("reason", .str "do not send it again"), ("final", .bool true)]

theorem answersAs_iff_stuck : (told stuckReply).answersAs
    (answerFromOutcome (told stuckReply).lastSendOutcomeJson "B") = true :=
  (answersAs_iff (told stuckReply) stuckReply "B" (by decide) (by decide +kernel) rfl).mpr
    fun _ => ⟨by decide +kernel, by decide +kernel⟩

/-- A final reply without a status: the view answers the app with an empty error, the rule does not
answer it. -/
theorem answers_differ : ¬∀ (v : View) (reply : Text) (sendRequestId : String),
    v.intentSendRequestId ≠ "" → (sendPolled reply).settled = true →
    v.lastSendOutcomeJson = toJsonCompact (sendPolled reply).outcome →
    v.answersAs (answerFromOutcome v.lastSendOutcomeJson sendRequestId) = true := by
  intro h
  have hsame := h (told (okReply [("final", .bool true)])) (okReply [("final", .bool true)]) "B"
    (by decide) (by decide +kernel) rfl
  exact absurd hsame (by decide +kernel)

end View

end EthWalletUi
