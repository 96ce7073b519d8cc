import EthWalletUi.Backend.Core

/-!
# What publishing changes

* `set_published`: a setter leaves the value it was given.
* `publishScope_eq`, `publishSelection_eq`: publishing the scoped state changes nothing else, a
  move of the selection the two generations and the count of silent polls.
* `publishSelection_shown`: the selection published is the one asked for.
-/

namespace EthWalletUi

open Qt

namespace Core

variable (c : Core)

/-! ## Setters and the scoped state -/

theorem set_published (f : Published → Published) : (c.set f).published = f c.published := by
  unfold set
  split
  · exact Eq.symm ‹_›
  · rfl

theorem set_eq (f : Published → Published) :
    ∃ published seen, c.set f = { c with published, seen } := by
  unfold set
  split
  · exact ⟨_, _, rfl⟩
  · exact ⟨_, _, rfl⟩

@[simp] theorem set_dataGen (f : Published → Published) : (c.set f).dataGen = c.dataGen := by
  obtain ⟨p, n, h⟩ := c.set_eq f
  rw [h]

@[simp] theorem set_quoteGen (f : Published → Published) : (c.set f).quoteGen = c.quoteGen := by
  obtain ⟨p, n, h⟩ := c.set_eq f
  rw [h]

@[simp] theorem set_log (f : Published → Published) : (c.set f).log = c.log := by
  obtain ⟨p, n, h⟩ := c.set_eq f
  rw [h]

@[simp] theorem set_quoteRequest (f : Published → Published) :
    (c.set f).quoteRequest = c.quoteRequest := by
  obtain ⟨p, n, h⟩ := c.set_eq f
  rw [h]

theorem set_self {f : Published → Published} (h : f c.published = c.published) : c.set f = c :=
  if_pos h

theorem foldl_set_self {fs : List (Published → Published)}
    (h : ∀ f ∈ fs, f c.published = c.published) : fs.foldl set c = c := by
  induction fs with
  | nil => rfl
  | cons f fs ih =>
    rw [List.foldl_cons, c.set_self (h f (List.mem_cons_self ..))]
    exact ih fun g hg => h g (List.mem_cons_of_mem _ hg)

/-- Publishing what is published changes nothing. -/
theorem publishScope_snapshot : c.publishScope c.scopeSnapshot = c := by
  unfold publishScope
  refine c.foldl_set_self ?_
  simp [scopeWrites, scopeSnapshot, Published.snapshot]

/-- What publishing changes. -/
theorem publishScope_eq (s : ScopedState) :
    ∃ published seen, c.publishScope s = { c with published, seen } := by
  unfold publishScope
  generalize scopeWrites s = fs
  induction fs generalizing c with
  | nil => exact ⟨_, _, rfl⟩
  | cons f fs ih =>
    obtain ⟨p, n, hf⟩ := c.set_eq f
    obtain ⟨p', n', hfs⟩ := ih (c.set f)
    exact ⟨p', n', by rw [List.foldl_cons, hfs, hf]⟩

section Publish

variable (s : ScopedState)

@[simp] theorem publishScope_log : (c.publishScope s).log = c.log := by
  obtain ⟨p, n, h⟩ := c.publishScope_eq s
  rw [h]

@[simp] theorem publishScope_now : (c.publishScope s).now = c.now := by
  obtain ⟨p, n, h⟩ := c.publishScope_eq s
  rw [h]

@[simp] theorem publishScope_calls : (c.publishScope s).calls = c.calls := by
  obtain ⟨p, n, h⟩ := c.publishScope_eq s
  rw [h]

@[simp] theorem publishScope_stack : (c.publishScope s).stack = c.stack := by
  obtain ⟨p, n, h⟩ := c.publishScope_eq s
  rw [h]

@[simp] theorem publishScope_soon : (c.publishScope s).soon = c.soon := by
  obtain ⟨p, n, h⟩ := c.publishScope_eq s
  rw [h]

@[simp] theorem publishScope_guards : (c.publishScope s).guards = c.guards := by
  obtain ⟨p, n, h⟩ := c.publishScope_eq s
  rw [h]

@[simp] theorem publishScope_props : (c.publishScope s).props = c.props := by
  obtain ⟨p, n, h⟩ := c.publishScope_eq s
  rw [h]

@[simp] theorem publishScope_inFlight : (c.publishScope s).inFlight = c.inFlight := by
  obtain ⟨p, n, h⟩ := c.publishScope_eq s
  rw [h]

@[simp] theorem publishScope_refreshAgain : (c.publishScope s).refreshAgain = c.refreshAgain := by
  obtain ⟨p, n, h⟩ := c.publishScope_eq s
  rw [h]

@[simp] theorem publishScope_dataGen : (c.publishScope s).dataGen = c.dataGen := by
  obtain ⟨p, n, h⟩ := c.publishScope_eq s
  rw [h]

@[simp] theorem publishScope_quoteGen : (c.publishScope s).quoteGen = c.quoteGen := by
  obtain ⟨p, n, h⟩ := c.publishScope_eq s
  rw [h]

@[simp] theorem publishScope_quoteRequest : (c.publishScope s).quoteRequest = c.quoteRequest := by
  obtain ⟨p, n, h⟩ := c.publishScope_eq s
  rw [h]

end Publish

/-- Every scoped property takes the value it was given; the selection stays. -/
theorem publishScope_published (s : ScopedState) :
    (c.publishScope s).published = (scopeWrites s).foldl (fun p f => f p) c.published := by
  unfold publishScope
  generalize scopeWrites s = fs
  induction fs generalizing c with
  | nil => rfl
  | cons f fs ih => rw [List.foldl_cons, List.foldl_cons, ih, set_published]

@[simp] theorem publishScope_shown (s : ScopedState) : (c.publishScope s).shown = c.shown := by
  unfold shown
  rw [publishScope_published]
  rfl

/-- A write of a scoped value leaves the selection. -/
theorem scopeWrites_shown {s : ScopedState} {f : Published → Published} (h : f ∈ scopeWrites s)
    (p : Published) : (f p).shown = p.shown := by
  simp only [scopeWrites, List.mem_cons, List.not_mem_nil, or_false] at h
  rcases h with rfl | rfl | rfl | rfl | rfl | rfl | rfl | rfl | rfl | rfl | rfl | rfl | rfl | rfl |
    rfl
  all_goals rfl

theorem set_shown {f : Published → Published} {s : ScopedState} (h : f ∈ scopeWrites s) :
    (c.set f).shown = c.shown := by
  unfold shown
  rw [set_published]
  exact scopeWrites_shown h c.published

/-- What a setter adds to the updates. -/
theorem mem_seen_set {f : Published → Published} {x : Seen} (h : x ∈ (c.set f).seen) :
    x ∈ c.seen ∨ x = ⟨f c.published, c.quoteRequest, c.log⟩ := by
  unfold set at h
  split at h
  · exact .inl h
  · exact (List.mem_cons.mp h).symm

/-- What holds before the writes and is kept by each holds after them. -/
theorem publishScope_induct {I : Core → Prop} {s : ScopedState} (h : I c)
    (hset : ∀ d f, f ∈ scopeWrites s → I d → I (d.set f)) : I (c.publishScope s) := by
  unfold publishScope
  exact List.foldlRecOn _ _ h fun d hd f hf => hset d f hf hd

/-! ## The selection -/

/-- The first half of `publishSelection`: what no longer describes the selection goes. -/
def withdraw (dest : Selection) : Core :=
  let s := c.scopeSnapshot
  let entered := enterScope s dest
  let withdrawn := if entered.2 then
      { c with dataGen := c.dataGen + 1, quoteGen := c.quoteGen + 1 }.publishScope entered.1
    else c
  if s.at.chainId != dest.chainId then { withdrawn with vpSilent := 0 } else withdrawn

theorem publishSelection_eq_set (account : String) (networkJson : Text) :
    c.publishSelection account networkJson =
      ((c.withdraw (selectionOf account networkJson)).set fun p =>
        { p with selectedAccount := account }).set fun p =>
          { p with activeNetworkJson := networkJson } := rfl

/-- A selection that is the same withdraws nothing. -/
theorem withdraw_same {dest : Selection} (h : c.shown.same dest = true) : c.withdraw dest = c := by
  have hc : c.shown.chainId = dest.chainId := (Selection.same_iff.mp h).1
  have h' : c.scopeSnapshot.at.same dest = true := h
  have hc' : c.scopeSnapshot.at.chainId = dest.chainId := hc
  simp [withdraw, enterScope, h', hc']

/-- Another selection withdraws, under new generations. -/
theorem withdraw_moved {dest : Selection} (h : c.shown.same dest = false) :
    ∃ vpSilent, c.withdraw dest =
      { { c with dataGen := c.dataGen + 1, quoteGen := c.quoteGen + 1 }.publishScope
          (enterScope c.scopeSnapshot dest).1 with vpSilent } := by
  have h' : c.scopeSnapshot.at.same dest = false := h
  have hm : (enterScope c.scopeSnapshot dest).2 = true := by simp [enterScope, h']
  simp only [withdraw, hm, if_true]
  split
  · exact ⟨_, rfl⟩
  · exact ⟨_, rfl⟩

theorem publishSelection_eq (account : String) (networkJson : Text) :
    ∃ published seen dataGen quoteGen vpSilent, c.publishSelection account networkJson =
      { c with published, seen, dataGen, quoteGen, vpSilent } := by
  have hw : ∃ published seen dataGen quoteGen vpSilent,
      c.withdraw (selectionOf account networkJson) =
        { c with published, seen, dataGen, quoteGen, vpSilent } := by
    cases h : c.shown.same (selectionOf account networkJson) with
    | true => exact ⟨_, _, _, _, _, c.withdraw_same h⟩
    | false =>
      obtain ⟨v, hv⟩ := c.withdraw_moved h
      obtain ⟨p, n, hp⟩ := publishScope_eq { c with
        dataGen := c.dataGen + 1, quoteGen := c.quoteGen + 1 }
        (enterScope c.scopeSnapshot (selectionOf account networkJson)).1
      exact ⟨p, n, _, _, v, by rw [hv, hp]⟩
  obtain ⟨p, n, d, q, v, hw⟩ := hw
  rw [publishSelection_eq_set, hw]
  obtain ⟨p', n', h'⟩ := set_eq { c with
    published := p, seen := n, dataGen := d, quoteGen := q, vpSilent := v } fun p =>
      { p with selectedAccount := account }
  rw [h']
  obtain ⟨p'', n'', h''⟩ := set_eq { c with
    published := p', seen := n', dataGen := d, quoteGen := q, vpSilent := v } fun p =>
      { p with activeNetworkJson := networkJson }
  exact ⟨p'', n'', d, q, v, h''⟩

section Select

variable (account : String) (networkJson : Text)

@[simp] theorem publishSelection_log : (c.publishSelection account networkJson).log = c.log := by
  obtain ⟨p, n, d, q, v, h⟩ := c.publishSelection_eq account networkJson
  rw [h]

@[simp] theorem publishSelection_now : (c.publishSelection account networkJson).now = c.now := by
  obtain ⟨p, n, d, q, v, h⟩ := c.publishSelection_eq account networkJson
  rw [h]

@[simp] theorem publishSelection_calls :
    (c.publishSelection account networkJson).calls = c.calls := by
  obtain ⟨p, n, d, q, v, h⟩ := c.publishSelection_eq account networkJson
  rw [h]

@[simp] theorem publishSelection_stack :
    (c.publishSelection account networkJson).stack = c.stack := by
  obtain ⟨p, n, d, q, v, h⟩ := c.publishSelection_eq account networkJson
  rw [h]

@[simp] theorem publishSelection_soon :
    (c.publishSelection account networkJson).soon = c.soon := by
  obtain ⟨p, n, d, q, v, h⟩ := c.publishSelection_eq account networkJson
  rw [h]

@[simp] theorem publishSelection_guards :
    (c.publishSelection account networkJson).guards = c.guards := by
  obtain ⟨p, n, d, q, v, h⟩ := c.publishSelection_eq account networkJson
  rw [h]

@[simp] theorem publishSelection_inFlight :
    (c.publishSelection account networkJson).inFlight = c.inFlight := by
  obtain ⟨p, n, d, q, v, h⟩ := c.publishSelection_eq account networkJson
  rw [h]

@[simp] theorem publishSelection_refreshAgain :
    (c.publishSelection account networkJson).refreshAgain = c.refreshAgain := by
  obtain ⟨p, n, d, q, v, h⟩ := c.publishSelection_eq account networkJson
  rw [h]

@[simp] theorem publishSelection_quoteRequest :
    (c.publishSelection account networkJson).quoteRequest = c.quoteRequest := by
  obtain ⟨p, n, d, q, v, h⟩ := c.publishSelection_eq account networkJson
  rw [h]

@[simp] theorem publishSelection_shown :
    (c.publishSelection account networkJson).shown = selectionOf account networkJson := by
  unfold shown
  rw [publishSelection_eq_set, set_published, set_published]
  rfl

/-- A selection that is the same keeps the generations. -/
theorem publishSelection_gen_same {account : String} {networkJson : Text}
    (h : c.shown.same (selectionOf account networkJson) = true) :
    (c.publishSelection account networkJson).dataGen = c.dataGen ∧
      (c.publishSelection account networkJson).quoteGen = c.quoteGen := by
  rw [publishSelection_eq_set, c.withdraw_same h]
  simp

/-- Another selection takes new ones. -/
theorem publishSelection_gen_moved {account : String} {networkJson : Text}
    (h : c.shown.same (selectionOf account networkJson) = false) :
    (c.publishSelection account networkJson).dataGen = c.dataGen + 1 ∧
      (c.publishSelection account networkJson).quoteGen = c.quoteGen + 1 := by
  obtain ⟨v, hv⟩ := c.withdraw_moved h
  rw [publishSelection_eq_set, hv]
  simp

end Select

end Core

end EthWalletUi
