import EthWalletUi.View.Token

/-!
# The recipients that Send offers again (`EthWalletView.qml`)

`recentRecipients` reads the history, newest first, and lists each `to` once, whatever the row's
kind: for a contract call it is the contract.

* `payees`: the recipients of the transfers.
* `recentRecipients_payees_iff`: the recipients offered are those exactly if no other row's `to`
  comes before its turn.
-/

namespace EthWalletUi

open Qt

/-- `history[i].to || ""`, where it is a text: nothing else has both a length and a lower case. -/
def rowTo (row : JsonObject) : String := (row.value "to").toString

/-- The loop, from a row on. An object answers to `inheritedNames` before it has seen any. -/
def recentFrom (seen : List String) : List JsonObject → List String
  | [] => []
  | row :: rows =>
    let a := rowTo row
    if a.isEmpty then recentFrom seen rows
    else
      let k := toLowerCase a
      if inheritedNames.contains k || seen.contains k then recentFrom seen rows
      else a :: recentFrom (k :: seen) rows

def recentRecipients (history : List JsonObject) : List String := recentFrom [] history

/-! ## Who has been paid -/

def isTransfer (row : JsonObject) : Bool :=
  row.value "kind" == some (.str "native") || row.value "kind" == some (.str "erc20")

/-- The address that a row's `to` spells. -/
def keyTo (row : JsonObject) : Option String :=
  if (rowTo row).isEmpty then none else some (toLowerCase (rowTo row))

/-- The addresses that the rows name as `to`. -/
def addresses (rows : List JsonObject) : List String := rows.filterMap keyTo

/-- The recipients of the transfers. -/
def payees (rows : List JsonObject) : List String := addresses (rows.filter isTransfer)

/-- A row that is no transfer comes in its turn: its address is on a row above, or it is the next
payee below who is on no row above. -/
def InTurn (seen : List String) (history : List JsonObject) : Prop :=
  ∀ before row after, history = before ++ row :: after → isTransfer row = false →
    ∀ k, keyTo row = some k → k ∉ inheritedNames → k ∈ seen ∨ k ∈ addresses before ∨
      ((payees after).filter fun x => !(seen ++ addresses before).contains x).head? = some k

/-! ## The loop -/

section

variable {seen : List String} {row : JsonObject} {rows : List JsonObject} {k : String}

/-- What the loop lists, as addresses. -/
def listed (seen : List String) (rows : List JsonObject) : List String :=
  (recentFrom seen rows).map toLowerCase

theorem listed_skip (h : keyTo row = none) : listed seen (row :: rows) = listed seen rows := by
  unfold keyTo at h
  unfold listed
  rw [recentFrom, if_pos]
  by_contra hne
  rw [if_neg hne] at h
  cases h

theorem listed_cons (h : keyTo row = some k) : listed seen (row :: rows) =
    if k ∈ inheritedNames ∨ k ∈ seen then listed seen rows
    else k :: listed (k :: seen) rows := by
  unfold keyTo at h
  unfold listed
  split at h
  · cases h
  · rename_i hne
    cases h
    rw [recentFrom, if_neg hne]
    simp only [Bool.or_eq_true, List.contains_iff_mem]
    split <;> rfl

theorem addresses_cons (h : keyTo row = some k) : addresses (row :: rows) = k :: addresses rows :=
  List.filterMap_cons_some h

theorem payees_cons_of_transfer (h : isTransfer row = true) (hk : keyTo row = some k) :
    payees (row :: rows) = k :: payees rows := by
  unfold payees
  rw [List.filter_cons_of_pos h, addresses_cons hk]

theorem payees_cons_of_not (h : isTransfer row = false ∨ keyTo row = none) :
    payees (row :: rows) = payees rows := by
  unfold payees
  cases ht : isTransfer row with
  | false => rw [List.filter_cons_of_neg (by simp [ht])]
  | true =>
    have hk := h.resolve_left (by simp [ht])
    rw [List.filter_cons_of_pos ht]
    exact List.filterMap_cons_none hk

/-- Nothing is listed that is an inherited name. -/
theorem listed_not_inherited : ∀ k ∈ listed seen rows, k ∉ inheritedNames := by
  induction rows generalizing seen with
  | nil => exact fun k hk => nomatch hk
  | cons row rows ih =>
    cases hk : keyTo row with
    | none =>
      rw [listed_skip hk]
      exact ih
    | some k =>
      rw [listed_cons hk]
      split
      · exact ih
      · rename_i hnew
        rw [not_or] at hnew
        exact List.forall_mem_cons.mpr ⟨hnew.1, ih⟩

/-- The first of a list without repeats, and the others. -/
theorem cons_eq_eraseDups {t l : List String} :
    k :: t = l.eraseDups ↔ l.head? = some k ∧ t = (l.filter fun x => !(x == k)).eraseDups := by
  cases l with
  | nil => simp
  | cons x l =>
    rw [List.eraseDups_cons, List.cons_eq_cons, List.head?_cons, Option.some.injEq]
    constructor
    · rintro ⟨rfl, rfl⟩
      exact ⟨rfl, by rw [List.filter_cons_of_neg (by simp)]⟩
    · rintro ⟨rfl, rfl⟩
      exact ⟨rfl, by rw [List.filter_cons_of_neg (by simp)]⟩

/-- To leave out one more. -/
theorem filter_seen_cons (l : List String) :
    (l.filter fun x => !seen.contains x).filter (fun x => !(x == k)) =
      l.filter fun x => !(k :: seen).contains x := by
  rw [List.filter_filter]
  refine List.filter_congr fun x _ => ?_
  rw [List.contains_cons, Bool.not_or]

/-! ## Turns -/

theorem mem_payees {after : List JsonObject} {x : String} (h : x ∈ payees after)
    (before : List JsonObject) (row : JsonObject) : x ∈ payees (before ++ row :: after) := by
  unfold payees addresses at h ⊢
  rw [List.filter_append, List.filterMap_append]
  refine List.mem_append_right _ ?_
  rw [List.filter_cons]
  split
  · rw [List.filterMap_cons]
    split
    · exact h
    · exact List.mem_cons_of_mem _ h
  · exact h

/-- Only names that can be listed count as seen. -/
theorem inTurn_congr {seen' : List String}
    (hpay : ∀ k ∈ payees rows, k ∉ inheritedNames)
    (h : ∀ x, x ∉ inheritedNames → (x ∈ seen ↔ x ∈ seen')) :
    InTurn seen rows ↔ InTurn seen' rows := by
  unfold InTurn
  refine forall_congr' fun before => forall_congr' fun row => forall_congr' fun after =>
    forall_congr' fun heq => forall_congr' fun _ => forall_congr' fun k => forall_congr' fun _ =>
    forall_congr' fun hk => ?_
  have hfilter : (payees after).filter (fun x => !(seen ++ addresses before).contains x) =
      (payees after).filter fun x => !(seen' ++ addresses before).contains x := by
    refine List.filter_congr fun x hx => congrArg (!·) ?_
    have hx' := h x (hpay x (heq ▸ mem_payees hx before row))
    rw [Bool.eq_iff_iff, List.contains_iff_mem, List.contains_iff_mem, List.mem_append,
      List.mem_append, hx']
  rw [h k hk, hfilter]

theorem inTurn_skip (h : keyTo row = none) : InTurn seen (row :: rows) ↔ InTurn seen rows := by
  constructor
  · intro hturn before r after heq ht k hk hnot
    have := hturn (row :: before) r after (by rw [heq, List.cons_append]) ht k hk hnot
    rwa [addresses, List.filterMap_cons_none h] at this
  · intro hturn before r after heq ht k hk hnot
    cases before with
    | nil =>
      cases heq
      rw [h] at hk
      cases hk
    | cons x before =>
      obtain ⟨rfl, hrows⟩ := List.cons.inj heq
      rw [addresses, List.filterMap_cons_none h]
      exact hturn before r after hrows ht k hk hnot

/-- The first row's turn, and the others' once its address has been seen. -/
theorem inTurn_cons (h : keyTo row = some k) : InTurn seen (row :: rows) ↔
    (isTransfer row = false → k ∉ inheritedNames → k ∈ seen ∨
      ((payees rows).filter fun x => !seen.contains x).head? = some k) ∧
    InTurn (k :: seen) rows := by
  have hfilter : ∀ before after : List JsonObject,
      (payees after).filter (fun x => !(seen ++ addresses (row :: before)).contains x) =
        (payees after).filter fun x => !(k :: seen ++ addresses before).contains x := by
    intro before after
    refine List.filter_congr fun x _ => congrArg (!·) ?_
    rw [Bool.eq_iff_iff, List.contains_iff_mem, List.contains_iff_mem, addresses_cons h]
    simp only [List.mem_append, List.mem_cons]
    exact or_left_comm.trans or_assoc.symm
  have hseen : ∀ (before : List JsonObject) (l : String), l ∈ seen ∨ l ∈ addresses (row :: before) ↔
      l ∈ k :: seen ∨ l ∈ addresses before := by
    intro before l
    rw [addresses_cons h, List.mem_cons, List.mem_cons]
    exact or_left_comm.trans or_assoc.symm
  constructor
  · intro hturn
    refine ⟨fun ht hnot => ?_, fun before r after heq ht l hl hnot => ?_⟩
    · simpa [addresses] using hturn [] row rows rfl ht k h hnot
    · have := hturn (row :: before) r after (by rw [heq, List.cons_append]) ht l hl hnot
      rwa [← or_assoc, hseen, or_assoc, hfilter] at this
  · rintro ⟨hfirst, hturn⟩ before r after heq ht l hl hnot
    cases before with
    | nil =>
      cases heq
      cases h.symm.trans hl
      simpa [addresses] using hfirst ht hnot
    | cons x before =>
      obtain ⟨rfl, hrows⟩ := List.cons.inj heq
      rw [← or_assoc, hseen, or_assoc, hfilter]
      exact hturn before r after hrows ht l hl hnot

/-- From any row on, the loop lists the payees it has not seen exactly if the rows are in turn. -/
theorem listed_iff (hpay : ∀ k ∈ payees rows, k ∉ inheritedNames) :
    listed seen rows = ((payees rows).filter fun x => !seen.contains x).eraseDups ↔
      InTurn seen rows := by
  induction rows generalizing seen with
  | nil =>
    refine iff_of_true rfl fun before row after heq => ?_
    cases before <;> cases heq
  | cons row rows ih =>
    cases hk : keyTo row with
    | none =>
      rw [payees_cons_of_not (.inr hk)] at hpay ⊢
      rw [listed_skip hk, inTurn_skip hk, ih hpay]
    | some k =>
      rw [listed_cons hk, inTurn_cons hk]
      cases ht : isTransfer row with
      | true =>
        rw [payees_cons_of_transfer ht hk] at hpay ⊢
        obtain ⟨hnot, hpay⟩ := List.forall_mem_cons.mp hpay
        rw [and_iff_right (fun h => by cases h)]
        by_cases hs : k ∈ seen
        · rw [if_pos (.inr hs), List.filter_cons_of_neg (by simp [hs]), ih hpay]
          refine inTurn_congr hpay fun x _ => ?_
          rw [List.mem_cons, or_iff_right_of_imp]
          rintro rfl
          exact hs
        · rw [if_neg (not_or.mpr ⟨hnot, hs⟩), List.filter_cons_of_pos (by simp [hs]),
            List.eraseDups_cons, filter_seen_cons, List.cons_eq_cons, and_iff_right rfl, ih hpay]
      | false =>
        rw [payees_cons_of_not (.inl ht)] at hpay ⊢
        by_cases hin : k ∈ inheritedNames ∨ k ∈ seen
        · rw [if_pos hin, ih hpay, and_iff_right fun _ hnot => .inl (hin.resolve_left hnot)]
          refine inTurn_congr hpay fun x hx => ?_
          rw [List.mem_cons, or_iff_right_of_imp]
          rintro rfl
          exact hin.resolve_left hx
        · rw [if_neg hin, cons_eq_eraseDups, filter_seen_cons, ih hpay]
          rw [not_or] at hin
          refine and_congr_left fun _ => ?_
          constructor
          · exact fun h _ _ => .inr h
          · exact fun h => (h rfl hin.1).resolve_left hin.2

end

/-- The recipients offered are, in this order, the recipients of the transfers, each once, exactly
if none of those is an inherited name and every other row comes in its turn. -/
theorem recentRecipients_payees_iff (history : List JsonObject) :
    (recentRecipients history).map toLowerCase = (payees history).eraseDups ↔
      (∀ k ∈ payees history, k ∉ inheritedNames) ∧ InTurn [] history := by
  have hall : (payees history).filter (fun x => !([] : List String).contains x) = payees history :=
    List.filter_eq_self.mpr fun _ _ => rfl
  constructor
  · intro h
    have hpay : ∀ k ∈ payees history, k ∉ inheritedNames := by
      intro k hk
      rw [← List.mem_eraseDups, ← h] at hk
      exact listed_not_inherited k hk
    refine ⟨hpay, (listed_iff hpay).mp ?_⟩
    rw [hall]
    exact h
  · rintro ⟨hpay, hturn⟩
    have := (listed_iff hpay).mpr hturn
    rwa [hall] at this

/-- A contract that was only called is offered as a recipient. -/
theorem recentRecipients_called :
    recentRecipients [[("kind", .str "call"), ("to", .str "0xE592")]] = ["0xE592"] ∧
      payees [[("kind", .str "call"), ("to", .str "0xE592")]] = [] := by
  decide +kernel

end EthWalletUi
