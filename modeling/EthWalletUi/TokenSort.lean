import EthWalletUi.Backend.Step

/-!
# The order of the tokens

The order is one persisted setting. A choice is counted, then `set_token_sort` is called, which
persists it at some moment before it returns, and the order is published after it. A listing carries
the order that was persisted when it was answered, and is dropped if the count has moved since it
was issued.

* `sorting`: the choices and the listings, with what the composer has persisted.
* `Sorting.latest_shown`: the order shown is the one chosen last, if no choice is made inside
  another's call and no listing issued in a choice's call is answered before the choice is
  persisted.
* `Sorting.older_shown`: two choices, one inside the other's call.
-/

namespace EthWalletUi

open Qt Machine

/-- A choice whose call has not returned. -/
structure Choice where
  order : String
  persisted : Bool := false
  deriving DecidableEq, Inhabited

/-- A listing that has not been delivered: the count it went out under, and the order it was
answered with. -/
structure Listing where
  issuedAt : Nat
  answered : Option String := none
  deriving DecidableEq, Inhabited

/-- The wallet's data, what the composer has persisted, and what is on its way between them. -/
structure Sorting where
  core : Core := {}
  persisted : String := "alpha"
  /-- Ghost: the order chosen last. -/
  chosen : Option String := none
  /-- The innermost call first. -/
  choices : List Choice := []
  listings : List Listing := []
  deriving Inhabited

inductive SortEvent where
  | choose (order : String)
  /-- The composer persists the order of a choice. -/
  | persist (i : Nat)
  /-- The innermost call returns; every choice is accepted. -/
  | returned (reply : Text)
  | issue
  | answer (i : Nat)
  | deliver (i : Nat) (reply : Text)
  /-- Everything else that the backend does. -/
  | beside (core : Core)

/-- The reply carries the order. -/
def carries (reply : Text) (order : String) : Bool :=
  ((parseObject reply).value "tokenSort").toString == order

/-- What everything else leaves alone. -/
def Core.SortBeside (c c' : Core) : Bool :=
  c'.sortChoiceGen == c.sortChoiceGen && c'.props.tokenSort == c.props.tokenSort

namespace Sorting

variable (s : Sorting)

def step : SortEvent → Option Sorting
  | .choose order => some { s with
      core := s.core.chooseTokenSort order
      chosen := some order
      choices := ⟨order, false⟩ :: s.choices }
  | .persist i => s.choices[i]?.map fun choice => { s with
      persisted := choice.order
      choices := s.choices.set i { choice with persisted := true } }
  | .returned reply => match s.choices with
    | choice :: choices =>
      if choice.persisted && replyOk reply then
        some { s with core := s.core.tokenSortSet choice.order reply, choices }
      else none
    | [] => none
  | .issue => some { s with listings := s.listings ++ [⟨s.core.sortChoiceGen, none⟩] }
  | .answer i => s.listings[i]?.map fun listing => { s with
      listings := s.listings.set i { listing with answered := some s.persisted } }
  | .deliver i reply => match s.listings[i]? with
    | some ⟨issuedAt, some order⟩ =>
      if carries reply order then
        some { s with
          core := s.core.adoptTokenSort reply issuedAt, listings := s.listings.eraseIdx i }
      else none
    | _ => none
  | .beside core => if s.core.SortBeside core then some { s with core } else none

/-- Once no choice is in progress the order shown is the one chosen last, and no listing on its way
changes it. -/
def Latest : Prop :=
  s.choices = [] → ∀ order, s.chosen = some order →
    s.core.props.tokenSort = order ∧ ∀ listing ∈ s.listings, ∀ carried,
      listing.answered = some carried → ∀ reply, carries reply carried = true →
        (s.core.adoptTokenSort reply listing.issuedAt).props.tokenSort = order

/-- No choice is made inside the call of another one, and no listing issued in a choice's call is
answered before the order is persisted. -/
def orderly : SortEvent → Bool
  | .choose order => s.choices.all (·.order == order)
  | .answer i => match s.listings[i]? with
    | some listing =>
      s.choices.isEmpty || listing.issuedAt != s.core.sortChoiceGen || s.chosen == some s.persisted
    | none => true
  | _ => true

end Sorting

/-- The choices and the listings. -/
def sorting : Sys Sorting SortEvent where
  init s := s.chosen = none ∧ s.choices = [] ∧ s.listings = []
  step := Sorting.step

/-! ## What the handlers do to the order -/

namespace Core

variable (c : Core)

theorem adoptTokenSort_tokenSort (reply : Text) (issuedAt : Nat) :
    (c.adoptTokenSort reply issuedAt).sortChoiceGen = c.sortChoiceGen ∧
    ((c.adoptTokenSort reply issuedAt).props.tokenSort = c.props.tokenSort ∨
      issuedAt = c.sortChoiceGen ∧ (c.adoptTokenSort reply issuedAt).props.tokenSort =
        ((parseObject reply).value "tokenSort").toString) := by
  simp only [adoptTokenSort, adoptedTokenSort]
  by_cases hg : issuedAt = c.sortChoiceGen
  · rw [if_neg (not_not.mpr hg)]
    by_cases ho : (((parseObject reply).value "tokenSort").toString == "alpha" ||
        ((parseObject reply).value "tokenSort").toString == "balance") = true
    · rw [if_pos ho]
      split
      · exact ⟨rfl, .inl rfl⟩
      · exact ⟨rfl, .inr ⟨hg, rfl⟩⟩
    · rw [if_neg ho]
      exact ⟨rfl, .inl rfl⟩
  · rw [if_pos hg]
    exact ⟨rfl, .inl rfl⟩

theorem tokenSortSet_ok {reply : Text} (h : replyOk reply = true) (order : String) :
    (c.tokenSortSet order reply).sortChoiceGen = c.sortChoiceGen ∧
      (c.tokenSortSet order reply).props.tokenSort = order := by
  simp [tokenSortSet, failed, h]

end Core

namespace Sorting

variable {s s' : Sorting}

/-! ## The invariant -/

/-- The choices in progress are one choice, and what is answered under its count carries it. -/
structure Agreed (s : Sorting) : Prop where
  choices : ∀ choice ∈ s.choices, s.chosen = some choice.order
  persisted : ∀ choice ∈ s.choices, choice.persisted = true → s.persisted = choice.order
  idle : s.choices = [] → ∀ order, s.chosen = some order →
    s.core.props.tokenSort = order ∧ s.persisted = order
  issued : ∀ listing ∈ s.listings, listing.issuedAt ≤ s.core.sortChoiceGen
  answered : ∀ listing ∈ s.listings, listing.issuedAt = s.core.sortChoiceGen → ∀ carried,
    listing.answered = some carried → ∀ order, s.chosen = some order → carried = order

theorem Agreed.latest (h : s.Agreed) : s.Latest := by
  intro hidle order hchosen
  obtain ⟨hshown, -⟩ := h.idle hidle order hchosen
  refine ⟨hshown, fun listing hl carried hc reply hr => ?_⟩
  rcases (s.core.adoptTokenSort_tokenSort reply listing.issuedAt).2 with h' | ⟨hg, h'⟩
  · rw [h', hshown]
  · have hcarried := h.answered listing hl hg carried hc order hchosen
    simp only [carries, beq_iff_eq] at hr
    rw [h', hr, hcarried]

theorem Agreed.chosen (h : s.Agreed) {order : String}
    (hall : ∀ choice ∈ s.choices, choice.order = order) :
    Agreed { s with
      core := s.core.chooseTokenSort order
      chosen := some order
      choices := ⟨order, false⟩ :: s.choices } := by
  refine ⟨?_, ?_, nofun, ?_, ?_⟩
  · intro choice hm
    rcases List.mem_cons.mp hm with rfl | hm
    · rfl
    · rw [hall choice hm]
  · intro choice hm hp
    rcases List.mem_cons.mp hm with rfl | hm
    · cases hp
    · exact h.persisted choice hm hp
  · intro listing hl
    exact Nat.le_succ_of_le (h.issued listing hl)
  · -- The count has moved: nothing that is out went out under it.
    intro listing hl hg
    have hle := h.issued listing hl
    have hg' : listing.issuedAt = s.core.sortChoiceGen + 1 := hg
    omega

theorem Agreed.persists (h : s.Agreed) {i : Nat} {choice : Choice} (hi : s.choices[i]? = some choice) :
    Agreed { s with
      persisted := choice.order
      choices := s.choices.set i { choice with persisted := true } } := by
  have hmem : choice ∈ s.choices := List.mem_of_getElem? hi
  have hchosen := h.choices choice hmem
  have hsame : ∀ c ∈ s.choices.set i { choice with persisted := true },
      c.order = choice.order := by
    intro c hm
    rcases List.mem_or_eq_of_mem_set hm with hm | rfl
    · exact Option.some.inj ((h.choices c hm).symm.trans hchosen)
    · rfl
  refine ⟨fun c hm => ?_, fun c hm _ => (hsame c hm).symm, fun hidle => ?_, h.issued, h.answered⟩
  · rw [hsame c hm]
    exact hchosen
  · have hnil : s.choices = [] := by simpa using hidle
    rw [hnil] at hmem
    cases hmem

theorem Agreed.returned (h : s.Agreed) {choice : Choice} {choices : List Choice} {reply : Text}
    (hcs : s.choices = choice :: choices) (hp : choice.persisted = true)
    (hok : replyOk reply = true) :
    Agreed { s with core := s.core.tokenSortSet choice.order reply, choices } := by
  obtain ⟨hgen, hshown⟩ := s.core.tokenSortSet_ok hok choice.order
  have hmem : choice ∈ s.choices := hcs ▸ List.mem_cons_self ..
  have hsub : ∀ c ∈ choices, c ∈ s.choices := fun c hm => hcs ▸ List.mem_cons_of_mem _ hm
  refine ⟨fun c hm => h.choices c (hsub c hm), fun c hm => h.persisted c (hsub c hm), ?_, ?_, ?_⟩
  · intro _ order hchosen
    have ho : choice.order = order :=
      Option.some.inj ((h.choices choice hmem).symm.trans hchosen)
    exact ⟨hshown.trans ho, (h.persisted choice hmem hp).trans ho⟩
  · exact fun listing hl => hgen.symm ▸ h.issued listing hl
  · exact fun listing hl hg => h.answered listing hl (hg.trans hgen)

theorem Agreed.issues (h : s.Agreed) :
    Agreed { s with listings := s.listings ++ [⟨s.core.sortChoiceGen, none⟩] } := by
  refine ⟨h.choices, h.persisted, h.idle, ?_, ?_⟩
  · intro listing hl
    rcases List.mem_append.mp hl with hl | hl
    · exact h.issued listing hl
    · rw [List.mem_singleton.mp hl]
  · intro listing hl hg carried hcar
    rcases List.mem_append.mp hl with hl | hl
    · exact h.answered listing hl hg carried hcar
    · rw [List.mem_singleton.mp hl] at hcar
      cases hcar

theorem Agreed.answers (h : s.Agreed) {i : Nat} {listing : Listing}
    (hi : s.listings[i]? = some listing) (hc : s.orderly (.answer i) = true) :
    Agreed { s with
      listings := s.listings.set i { listing with answered := some s.persisted } } := by
  have hmem : listing ∈ s.listings := List.mem_of_getElem? hi
  refine ⟨h.choices, h.persisted, h.idle, ?_, ?_⟩
  · intro l hl
    rcases List.mem_or_eq_of_mem_set hl with hl | rfl
    · exact h.issued l hl
    · exact h.issued listing hmem
  · intro l hl hg carried hcar order hchosen
    rcases List.mem_or_eq_of_mem_set hl with hl | rfl
    · exact h.answered l hl hg carried hcar order hchosen
    · cases hcar
      have hg' : listing.issuedAt = s.core.sortChoiceGen := hg
      simp only [orderly, hi, hg', bne_self_eq_false, Bool.or_false, Bool.or_eq_true,
        List.isEmpty_iff, beq_iff_eq] at hc
      rcases hc with hidle | hpers
      · exact (h.idle hidle order hchosen).2
      · exact Option.some.inj (hpers.symm.trans hchosen)

theorem Agreed.delivered (h : s.Agreed) {i issuedAt : Nat} {order : String} {reply : Text}
    (hi : s.listings[i]? = some ⟨issuedAt, some order⟩) (hcar : carries reply order = true) :
    Agreed { s with
      core := s.core.adoptTokenSort reply issuedAt, listings := s.listings.eraseIdx i } := by
  have hmem : ⟨issuedAt, some order⟩ ∈ s.listings := List.mem_of_getElem? hi
  have hgen := (s.core.adoptTokenSort_tokenSort reply issuedAt).1
  have hsub : ∀ l ∈ s.listings.eraseIdx i, l ∈ s.listings :=
    fun l hl => List.mem_of_mem_eraseIdx hl
  refine ⟨h.choices, h.persisted, ?_, ?_, ?_⟩
  · intro hidle chosen hchosen
    refine ⟨?_, (h.idle hidle chosen hchosen).2⟩
    exact (h.latest hidle chosen hchosen).2 _ hmem order rfl reply hcar
  · exact fun l hl => hgen.symm ▸ h.issued l (hsub l hl)
  · exact fun l hl hg => h.answered l (hsub l hl) (hg.trans hgen)

theorem Agreed.beside (h : s.Agreed) {core : Core} (hb : s.core.SortBeside core = true) :
    Agreed { s with core } := by
  simp only [Core.SortBeside, Bool.and_eq_true, beq_iff_eq] at hb
  obtain ⟨hgen, hshown⟩ := hb
  refine ⟨h.choices, h.persisted, ?_, ?_, ?_⟩
  · intro hidle order hchosen
    obtain ⟨h₁, h₂⟩ := h.idle hidle order hchosen
    exact ⟨hshown.trans h₁, h₂⟩
  · exact fun l hl => hgen.symm ▸ h.issued l hl
  · exact fun l hl hg => h.answered l hl (hg.trans hgen)

theorem Agreed.step {e : SortEvent} (h : s.Agreed) (hc : s.orderly e = true)
    (hs : s.step e = some s') : s'.Agreed := by
  cases e with
  | choose order =>
    cases hs
    exact h.chosen (by simpa [orderly] using hc)
  | persist i =>
    obtain ⟨choice, hi, rfl⟩ := Option.map_eq_some_iff.mp hs
    exact h.persists hi
  | returned reply =>
    simp only [Sorting.step] at hs
    split at hs
    case h_2 => cases hs
    rename_i choice choices hcs
    split at hs
    · rename_i hr
      cases hs
      obtain ⟨hp, hok⟩ := Bool.and_eq_true_iff.mp hr
      exact h.returned hcs hp hok
    · cases hs
  | issue =>
    cases hs
    exact h.issues
  | answer i =>
    obtain ⟨listing, hi, rfl⟩ := Option.map_eq_some_iff.mp hs
    exact h.answers hi hc
  | deliver i reply =>
    simp only [Sorting.step] at hs
    split at hs
    case h_2 => cases hs
    rename_i issuedAt order hi
    split at hs
    · rename_i hcar
      cases hs
      exact h.delivered hi hcar
    · cases hs
  | beside core =>
    simp only [Sorting.step] at hs
    split at hs
    · rename_i hb
      cases hs
      exact h.beside hb
    · cases hs

/-- In every run whose steps are orderly the order shown is the one chosen last. -/
theorem latest_shown (s : Sorting) (h : sorting.Runs (fun s e => s.orderly e = true) s) :
    s.Latest := by
  refine Agreed.latest (h.induct ?_ fun s e s' _ ih hc hs => ih.step hc hs)
  rintro s ⟨hchosen, hchoices, hlistings⟩
  refine ⟨?_, ?_, ?_, ?_, ?_⟩
  · simp [hchoices]
  · simp [hchoices]
  · simp [hchosen]
  · simp [hlistings]
  · simp [hlistings]

def after (es : List SortEvent) : Sorting := (sorting.exec {} es).getD {}

theorem runs_after {C : Sorting → SortEvent → Prop} (es : List SortEvent)
    (hm : sorting.Meets C {} es)
    (h : (sorting.exec {} es).isSome = true) : sorting.Runs C (after es) := by
  obtain ⟨s, hs⟩ := Option.isSome_iff_exists.mp h
  have hinit : sorting.Runs C {} := .init ⟨rfl, rfl, rfl⟩
  have hr : sorting.Runs C s := hinit.exec es hm hs
  rwa [after, hs]

/-- A listing is on its way across a choice. -/
def sortedOnce : List SortEvent :=
  [.issue, .answer 0, .choose "balance", .issue, .persist 0, .answer 1,
   .returned (okReply []), .deliver 0 (okReply [("tokenSort", .str "alpha")])]

theorem latest_shown_sortedOnce : (after sortedOnce).core.props.tokenSort = "balance" :=
  (latest_shown _ (runs_after sortedOnce (by decide +kernel) (by decide +kernel)) (by decide +kernel)
    "balance" (by decide +kernel)).1

/-- A second choice is made and persisted inside the call of the first. -/
def sortedTwice : List SortEvent :=
  [.choose "balance", .choose "alpha", .persist 1, .persist 0, .returned (okReply []),
   .returned (okReply [])]

theorem older_shown : ¬∀ s, sorting.Reach s → s.Latest := by
  intro h
  have hreach := runs_after (C := fun _ _ => True) sortedTwice (by decide +kernel)
    (by decide +kernel)
  have hlatest := (h _ hreach (by decide +kernel) "alpha" (by decide +kernel)).1
  exact absurd hlatest (by decide +kernel)

end Sorting

end EthWalletUi
