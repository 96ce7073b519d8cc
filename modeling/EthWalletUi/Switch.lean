import EthWalletUi.Backend.Publish
import EthWalletUi.View.Token

/-!
# A switch of the chain

The view follows the backend to another chain in several updates: the figures are withdrawn, then
the token list, then the cursor moves; the new list comes once it has been read.

* `Switch`: the updates of a switch, from what is shown to the new list.
* `Core.selectChain_switch`: `selectChain` makes its updates in that order.
* `Core.loadTokens_updates`: the new list is one update.
-/

namespace EthWalletUi

open Qt

/-- What the picker offers of a token list on a chain. -/
def tokensOn (chainId : Int) (tokensJson : Text) : List JsonObject :=
  (tokensJson.array.map asObject).filter fun token =>
    (token.value "chainId").isUndefined || (token.value "chainId").strictEq (some (.int chainId))

/-- The updates of a switch to another chain until its token list has been read. The list of the
old chain stays for a while, when the figures come and go; then there is none, and the cursor moves;
then the new list comes. -/
structure Switch (p : Published) (chainId : Int) (tokensJson : Text) where
  leaving : List Published
  cleared : List Published
  listed : List Published
  still : ∀ u ∈ leaving, u.tokensJson = p.tokensJson ∧ u.chainId = p.chainId
  empty : ∀ u ∈ cleared, u.tokensJson = .empty
  cleared_ne : cleared ≠ []
  there : ∀ u ∈ listed, u.tokensJson = tokensJson ∧ u.chainId = chainId
  listed_ne : listed ≠ []

def Switch.updates {p : Published} {chainId : Int} {tokensJson : Text}
    (w : Switch p chainId tokensJson) : List Published :=
  w.leaving ++ (w.cleared ++ w.listed)

/-- The updates by which what is shown comes to be of the chain and its token list. -/
def Published.Follows (p : Published) (chainId : Int) (tokensJson : Text) (us : List Published) :
    Prop :=
  p.chainId = chainId ∧ p.tokensJson = tokensJson ∧ us = [] ∨
    p.chainId ≠ chainId ∧ ∃ w : Switch p chainId tokensJson, us = w.updates

namespace Published

variable {p u : Published}

theorem chainTokens_eq : p.chainTokens = tokensOn p.chainId p.tokensJson := rfl

theorem chainTokens_empty (h : p.tokensJson = .empty) : p.chainTokens = [] := by
  rw [chainTokens_eq, h]
  rfl

theorem pickerModel_empty (h : p.chainTokens = []) : p.pickerModel = [] := by
  rw [pickerModel, h, List.map_nil]

end Published

namespace Switch

variable {p : Published} {chainId : Int} {tokensJson : Text} (w : Switch p chainId tokensJson)

theorem leaving_chainTokens : ∀ u ∈ w.leaving, u.chainTokens = p.chainTokens := by
  intro u hu
  obtain ⟨ht, hc⟩ := w.still u hu
  rw [Published.chainTokens_eq, ht, hc, Published.chainTokens_eq]

theorem cleared_chainTokens : ∀ u ∈ w.cleared, u.chainTokens = [] := fun u hu =>
  Published.chainTokens_empty (w.empty u hu)

theorem listed_chainTokens : ∀ u ∈ w.listed, u.chainTokens = tokensOn chainId tokensJson := by
  intro u hu
  obtain ⟨ht, hc⟩ := w.there u hu
  rw [Published.chainTokens_eq, ht, hc]

/-- The updates for which the old list stays are those before it goes. -/
theorem takeWhile_still {rest : List Published} (ht : p.tokensJson ≠ .empty)
    (h : ∀ u ∈ rest, u ∈ w.leaving) : (rest ++ (w.cleared ++ w.listed)).takeWhile
      (fun u => u.tokensJson == p.tokensJson && u.chainId == p.chainId) = rest := by
  rw [List.takeWhile_append_of_pos fun u hu => by
    obtain ⟨h1, h2⟩ := w.still u (h u hu)
    simp [h1, h2]]
  obtain ⟨u, us, hus⟩ := List.exists_cons_of_ne_nil w.cleared_ne
  have hu : u.tokensJson = .empty := w.empty u (hus ▸ List.mem_cons_self ..)
  rw [hus, List.cons_append, List.takeWhile_cons_of_neg (by simp [hu, Ne.symm ht]),
    List.append_nil]

/-- The token is chosen before the old list has gone, or after. -/
theorem split {during after : List Published} (h : during ++ after = w.updates) :
    (∃ rest, w.leaving = during ++ rest ∧ after = rest ++ (w.cleared ++ w.listed)) ∨
      ∃ u us, during = w.leaving ++ u :: us ∧ w.cleared ++ w.listed = u :: us ++ after := by
  rcases List.append_eq_append_iff.mp h with ⟨rest, hl, ha⟩ | ⟨rest, hd, hr⟩
  · exact .inl ⟨rest, hl, ha⟩
  · cases rest with
    | nil => exact .inl ⟨[], by simpa using hd.symm, by simpa using hr.symm⟩
    | cons u us => exact .inr ⟨u, us, hd, hr⟩

theorem last_chainId : (w.updates.getLast?.getD p).chainId = chainId := by
  rw [updates, List.getLast?_append, List.getLast?_append,
    List.getLast?_eq_some_getLast w.listed_ne]
  exact (w.there _ (List.getLast_mem w.listed_ne)).2

end Switch

/-! ## The switch, as the backend makes it -/

namespace Core

variable {c : Core}

/-- What has been published, the latest first. -/
def updates (c : Core) : List Published := c.seen.map (·.published)

theorem set_updates (c : Core) (f : Published → Published) :
    (c.set f).published = c.published ∧ (c.set f).updates = c.updates ∨
      (c.set f).updates = f c.published :: c.updates := by
  unfold set updates
  split
  · exact .inl ⟨rfl, rfl⟩
  · exact .inr rfl

/-- What a row of setters adds to the updates: `I` is what the first of them establishes. -/
theorem foldl_set_updates {I : Published → Prop} {f : Published → Published}
    {fs : List (Published → Published)} (h : I (f c.published))
    (hkeep : ∀ g ∈ fs, ∀ p, I p → I (g p)) :
    I ((f :: fs).foldl set c).published ∧ ∃ us : List Published, (∀ u ∈ us, I u) ∧
      ((f :: fs).foldl set c).updates = us.reverse ++ c.updates ∧
      (us = [] → ((f :: fs).foldl set c).published = c.published) := by
  induction fs generalizing c f with
  | nil =>
    refine ⟨by rw [List.foldl_cons, List.foldl_nil, set_published]; exact h, ?_⟩
    rcases c.set_updates f with ⟨hp, hu⟩ | hu
    · exact ⟨[], by simp, hu, fun _ => hp⟩
    · exact ⟨[f c.published], by simpa using h, hu, nofun⟩
  | cons g fs ih =>
    have hg : I (g (c.set f).published) := by
      rw [set_published]
      exact hkeep g (List.mem_cons_self ..) _ h
    obtain ⟨hlast, us, hus, heq, hnone⟩ := ih hg fun k hk => hkeep k (List.mem_cons_of_mem _ hk)
    refine ⟨hlast, ?_⟩
    rw [List.foldl_cons]
    rcases c.set_updates f with ⟨hp, hu⟩ | hu
    · exact ⟨us, hus, by rw [heq, hu], fun he => by rw [hnone he, hp]⟩
    · refine ⟨f c.published :: us, ?_, by rw [heq, hu]; simp, nofun⟩
      intro u hmem
      rcases List.mem_cons.mp hmem with rfl | hmem
      · exact h
      · exact hus u hmem

/-- The writes of the figures, and those of what belongs to the chain. -/
theorem scopeWrites_split (s : ScopedState) : ∃ figures chains : List (Published → Published),
    scopeWrites s = (fun p => { p with scopedDataFresh := s.fresh }) :: figures ++
      ((fun p => { p with tokensJson := s.tokens }) :: chains) ∧
    (∀ g ∈ figures, ∀ p, (g p).tokensJson = p.tokensJson ∧ (g p).chainId = p.chainId) ∧
    ∀ g ∈ chains, ∀ p, (g p).tokensJson = p.tokensJson ∧ (g p).chainId = p.chainId := by
  refine ⟨(scopeWrites s).tail.take 11, (scopeWrites s).drop 13, rfl, ?_, ?_⟩
  · intro g hg p
    simp only [scopeWrites, List.tail_cons, List.take_succ_cons, List.take_zero, List.mem_cons,
      List.not_mem_nil, or_false] at hg
    rcases hg with rfl | rfl | rfl | rfl | rfl | rfl | rfl | rfl | rfl | rfl | rfl
    all_goals exact ⟨rfl, rfl⟩
  · intro g hg p
    simp only [scopeWrites, List.drop_succ_cons, List.drop_zero, List.mem_cons, List.not_mem_nil,
      or_false] at hg
    rcases hg with rfl | rfl
    all_goals exact ⟨rfl, rfl⟩

/-- The order in which a scope is withdrawn: the figures go first, the token list after them. -/
theorem publishScope_switch (c : Core) {s : ScopedState} (ht : s.tokens = .empty) :
    ((c.publishScope s).published.tokensJson = .empty ∧
      (c.publishScope s).published.chainId = c.published.chainId) ∧
    ∃ leaving cleared : List Published,
      (∀ u ∈ leaving, u.tokensJson = c.published.tokensJson ∧ u.chainId = c.published.chainId) ∧
      (∀ u ∈ cleared, u.tokensJson = .empty) ∧
      (c.publishScope s).updates = (leaving ++ cleared).reverse ++ c.updates := by
  obtain ⟨figures, chains, hwrites, hfigures, hchains⟩ := scopeWrites_split s
  unfold publishScope
  rw [hwrites, List.foldl_append]
  let old : Published → Prop := fun p =>
    p.tokensJson = c.published.tokensJson ∧ p.chainId = c.published.chainId
  let gone : Published → Prop := fun p =>
    p.tokensJson = .empty ∧ p.chainId = c.published.chainId
  obtain ⟨hfirst, leaving, hleaving, hupdates, -⟩ := @foldl_set_updates c old
    (fun p => { p with scopedDataFresh := s.fresh }) figures ⟨rfl, rfl⟩ fun g hg p hp => by
      obtain ⟨h1, h2⟩ := hfigures g hg p
      exact ⟨h1.trans hp.1, h2.trans hp.2⟩
  generalize List.foldl set c (_ :: figures) = d at hfirst hupdates ⊢
  obtain ⟨hsecond, cleared, hcleared, hupdates', -⟩ := @foldl_set_updates d gone
    (fun p => { p with tokensJson := s.tokens }) chains ⟨ht, hfirst.2⟩ fun g hg p hp => by
      obtain ⟨h1, h2⟩ := hchains g hg p
      exact ⟨h1.trans hp.1, h2.trans hp.2⟩
  exact ⟨hsecond, leaving, cleared, hleaving, fun u hu => (hcleared u hu).1,
    by rw [hupdates', hupdates]; simp⟩

/-- A move of the chain is published in the order of a switch. -/
theorem publishSelection_switch (c : Core) (account : String) {networkJson : Text}
    (hmoved : c.published.chainId ≠ ((parseObject networkJson).value "chainId").toInt) :
    ∃ leaving cleared : List Published,
      (∀ u ∈ leaving, u.tokensJson = c.published.tokensJson ∧ u.chainId = c.published.chainId) ∧
      (∀ u ∈ cleared, u.tokensJson = .empty) ∧ cleared ≠ [] ∧
      (c.publishSelection account networkJson).updates =
        (leaving ++ cleared).reverse ++ c.updates := by
  have hdiffer : c.scopeSnapshot.at.same (selectionOf account networkJson) = false :=
    Bool.eq_false_iff.mpr fun h => hmoved (Selection.same_iff.mp h).1
  have hchain : (c.scopeSnapshot.at.chainId != (selectionOf account networkJson).chainId) = true :=
    bne_iff_ne.mpr hmoved
  obtain ⟨vpSilent, hwithdraw⟩ := c.withdraw_moved hdiffer
  have hentered : (enterScope c.scopeSnapshot (selectionOf account networkJson)).1.tokens =
      .empty := by
    simp [enterScope, hdiffer, hchain, withdrawQuote]
  obtain ⟨⟨htokens, hcursor⟩, leaving, cleared, hleaving, hcleared, hupdates⟩ :=
    publishScope_switch { c with dataGen := c.dataGen + 1, quoteGen := c.quoteGen + 1 } hentered
  rw [publishSelection_eq_set, hwithdraw]
  generalize Core.publishScope _ _ = d at htokens hcursor hupdates
  obtain ⟨-, selected, hselected, hupdates', hnone⟩ := @foldl_set_updates { d with vpSilent }
    (fun p => p.tokensJson = .empty) (fun p => { p with selectedAccount := account })
    [fun p => { p with activeNetworkJson := networkJson }] htokens (by
      intro g hg p hp
      rw [List.mem_singleton.mp hg]
      exact hp)
  refine ⟨leaving, cleared ++ selected, hleaving, fun u hu => ?_, fun he => ?_, ?_⟩
  · exact (List.mem_append.mp hu).elim (hcleared u) (hselected u)
  · -- The cursor has moved.
    have hsame := congrArg Published.chainId (hnone (List.append_eq_nil_iff.mp he).2)
    simp only [List.foldl_cons, List.foldl_nil, set_published] at hsame
    exact hmoved (hcursor.symm.trans hsame.symm)
  · have hall : updates { d with vpSilent } = d.updates := rfl
    rw [List.foldl_cons, List.foldl_cons, List.foldl_nil, hall, hupdates] at hupdates'
    rw [hupdates']
    simp [updates]

/-- `selectChain` publishes the first two parts of a switch, in order. -/
theorem selectChain_switch (c : Core) {chainId : Int} {tokensJson : Text} {listed : List Published}
    (hin : inInt32 chainId = true) (hmoved : chainId ≠ c.published.chainId)
    (hthere : ∀ u ∈ listed, u.tokensJson = tokensJson ∧ u.chainId = chainId)
    (hne : listed ≠ []) :
    ∃ w : Switch c.published chainId tokensJson, w.listed = listed ∧
      (c.selectChain chainId).updates = (w.leaving ++ w.cleared).reverse ++ c.updates := by
  have hadopt : ∃ networkJson, ((parseObject networkJson).value "chainId").toInt = chainId ∧
      ({ c with props.lastError := "" }.adoptChain chainId) =
        ({ c with props.lastError := "" }.setActiveNetworkJson networkJson, true) := by
    have hshown : chainId ≠ ({ c with props.lastError := "" } : Core).shown.chainId := hmoved
    unfold adoptChain
    rw [if_neg hshown]
    split
    · rename_i n hfind
      refine ⟨toJsonCompact (asObject n), ?_, rfl⟩
      simpa [parseObject, toJsonCompact] using List.find?_some hfind
    · exact ⟨_, by simp [parseObject, toJsonCompact, JsonObject.value_cons,
        JsonValue.toInt_int hin], rfl⟩
  obtain ⟨networkJson, hchain, hadopt⟩ := hadopt
  obtain ⟨leaving, cleared, hleaving, hcleared, hcleared_ne, hupdates⟩ :=
    publishSelection_switch { c with props.lastError := "" } c.published.selectedAccount
      (hchain.symm ▸ hmoved.symm)
  refine ⟨⟨leaving, cleared, listed, hleaving, hcleared, hcleared_ne, hthere, hne⟩, rfl, ?_⟩
  have hrefresh : ∀ d : Core, d.refresh.updates = d.updates := by
    intro d
    unfold refresh
    split <;> rfl
  unfold selectChain
  rw [hadopt]
  exact (hrefresh _).trans hupdates

/-- Publishing another token list writes nothing else. -/
theorem publishScope_tokens (c : Core) (tokens : Text) :
    c.publishScope { c.scopeSnapshot with tokens } =
      c.set fun p => { p with tokensJson := tokens } := by
  let s : ScopedState := { c.scopeSnapshot with tokens }
  have hwrites : scopeWrites s = (scopeWrites s).take 12 ++
      (fun p => { p with tokensJson := tokens }) :: (scopeWrites s).drop 13 := rfl
  have hbefore : ∀ f ∈ (scopeWrites s).take 12, f c.published = c.published := by
    simp [scopeWrites, s, scopeSnapshot, Published.snapshot]
  have hafter : ∀ f ∈ (scopeWrites s).drop 13,
      f (c.set fun p => { p with tokensJson := tokens }).published =
        (c.set fun p => { p with tokensJson := tokens }).published := by
    rw [set_published]
    simp [scopeWrites, s, scopeSnapshot, Published.snapshot]
  unfold publishScope
  rw [hwrites, List.foldl_append, foldl_set_self c hbefore, List.foldl_cons,
    foldl_set_self _ hafter]

/-- The tokens of every network are published in one update. -/
theorem loadTokens_updates (c : Core) {tokens : JsonArray} {sortReply : Text} {sortGen : Nat}
    {after : After} (hne : c.published.tokensJson ≠ .compact (.arr tokens)) :
    (c.loadTokens [] tokens sortReply sortGen after).updates =
      { c.published with tokensJson := .compact (.arr tokens) } :: c.updates := by
  have hsort : ∀ d : Core, ((d.adoptTokenSort sortReply sortGen).loadAccounts after).updates =
      d.updates := by
    intro d
    unfold adoptTokenSort
    simp only
    split <;> rfl
  unfold loadTokens
  rw [hsort, publishScope_tokens]
  unfold set updates
  rw [if_neg]
  · rfl
  · intro h
    exact hne (congrArg Published.tokensJson h).symm

end Core

end EthWalletUi
