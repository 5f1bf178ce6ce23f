import StockManager.Effects.Selections

/-! # Purchase plans

What `optimize` returns, for every BOM with distinct entries: a selection for
each row that can be bought as it says, the cheapest total under
`lowest_total_price`, and the same plan for every order of the rows and offers. -/

namespace StockManager

variable {rows rows' : List SourcingBomLineOut} {moqOverbuyCap : Option ℤ}
  {row : SourcingBomLineOut}

/-- The selection buys the offer, within its stock and the overbuy cap. -/
structure FilledFrom (moqOverbuyCap : Option ℤ) (row : SourcingBomLineOut)
    (offer : SourcingBomOfferOut) (s : OptimizerSelection) : Prop where
  inRow : offer ∈ row.offers
  entry : s.projectEntryId = row.projectEntryId ∧ s.partId = row.partId
  supplier : s.selectedDistributor = some offer.distributor ∧ s.selectedUrl = offer.url
  shortage : 1 ≤ row.shortBy ∧ row.shortBy ≤ s.selectedQty
  moq : s.selectedMoq = offer.moq ∧ ∀ moq ∈ offer.moq, moq ≤ s.selectedQty
  stock : s.selectedQty ≤ offer.stock
  cap : ∀ cap ∈ moqOverbuyCap, s.selectedQty ≤ row.shortBy * cap
  currency : s.selectedCurrency = offer.currency
  price : ∃ price, s.selectedUnitPrice = some price ∧ ApplicablePrice offer s.selectedQty price

/-- The rows in any order, each with its offers in any order. -/
def Reordered (rows rows' : List SourcingBomLineOut) : Prop :=
  ∃ middle, List.Forall₂ SameRow rows middle ∧ middle.Perm rows'

structure Pick where
  offer : SourcingBomOfferOut
  qty : ℤ
  price : Decimal

/-- A feasible offer for every row that has one. -/
def FeasiblePick (moqOverbuyCap : Option ℤ) (row : SourcingBomLineOut) : Option Pick → Prop
  | some pick => 1 ≤ row.shortBy ∧ Purchasable moqOverbuyCap row pick.offer pick.qty pick.price
  | none => row.shortBy < 1 ∨ ∀ offer, ¬ Feasible moqOverbuyCap row offer

def pickCost : Option Pick → Decimal
  | some pick => pick.price * pick.qty
  | none => 0

/-- The extended cost of a selection; nothing for an unfilled one. -/
def selectionCost (s : OptimizerSelection) : Decimal :=
  match s.selectedUnitPrice with
  | some price => price * s.selectedQty
  | none => 0

/-- The candidates that the strategy cannot tell apart. -/
def StrategyTied (casefold : String → String) (args : OptimizerArgs) :
    Candidate → Candidate → Prop :=
  match args.strategy with
  | .fewestDistributors | .lowestTotalPrice =>
    fun c c' => lowestPriceKey casefold c = lowestPriceKey casefold c'
  | .fastestAvailability => fun c c' => fastestKey casefold c = fastestKey casefold c'
  | .preferredFirst => PreferredTied casefold (preferredRank casefold args.preferredDistributors)

variable {casefold : String → String}

theorem le_selectedQty (shortageQty : ℤ) (moq : Option ℤ) (hshort : 1 ≤ shortageQty) :
    shortageQty ≤ selectedQty shortageQty moq ∧ ∀ m ∈ moq, m ≤ selectedQty shortageQty moq := by
  refine ⟨le_max_left _ _, ?_⟩
  intro m hm
  obtain rfl := Option.mem_def.mp hm
  by_cases hzero : m = 0
  · have hle := le_max_left shortageQty (moqOrOne (some m))
    unfold selectedQty
    omega
  · have hm : moqOrOne (some m) = m := by simp [moqOrOne, hzero]
    have hle := le_max_right shortageQty (moqOrOne (some m))
    unfold selectedQty
    omega

theorem candidate_filledFrom {c : Candidate} (hc : c ∈ candidates casefold moqOverbuyCap row) :
    FilledFrom moqOverbuyCap row c.offer (selectionFromCandidate c) := by
  obtain ⟨hshort, hline, hp, _⟩ := mem_candidates.mp hc
  obtain ⟨hle, hmoq⟩ := le_selectedQty row.shortBy c.offer.moq hshort
  have hqty := hp.qty_eq
  have hone : 1 ≤ c.selectedQty := by omega
  rw [← hqty] at hle hmoq
  rw [← hline] at hshort hle
  subst hline
  exact ⟨hp.inRow, ⟨rfl, rfl⟩, ⟨rfl, rfl⟩, ⟨hshort, hle⟩, ⟨rfl, hmoq⟩, hp.inStock, hp.inCap, rfl,
    c.unitPrice, rfl, unitPrice_applicable hone hp.priced⟩

theorem rowSettled_filledFrom
    {s : OptimizerSelection} (h : RowSettled casefold moqOverbuyCap row s) :
    s = unfilledSelection row ∨ ∃ offer, FilledFrom moqOverbuyCap row offer s := by
  rcases h with hnone | ⟨c, hc, rfl⟩
  · exact .inl hnone
  · exact .inr ⟨c.offer, candidate_filledFrom hc⟩

theorem selectionsOf_settled (casefold : String → String) (args : OptimizerArgs)
    (hrows : (rows.map (·.projectEntryId)).Nodup) :
    List.Forall₂ (fun row s => RowSettled casefold args.moqOverbuyCap row s ∧
        (args.strategy ≠ .fewestDistributors ∨ args.maxDistributors = none →
          s.selectedDistributor = none → candidates casefold args.moqOverbuyCap row = []))
      rows (selectionsOf casefold args rows) := by
  unfold selectionsOf
  cases hstrategy : args.strategy with
  | fewestDistributors =>
    apply (optimizeFewest_settled hrows args.maxDistributors).imp
    rintro row s ⟨hset, hfree⟩
    exact ⟨hset, fun hmax => hfree (hmax.resolve_left fun hne => hne rfl)⟩
  | lowestTotalPrice =>
    rw [List.forall₂_map_right_iff, List.forall₂_same]
    intro row _
    have hset := argmin_settled casefold args.moqOverbuyCap row (lowestPriceKey casefold)
    exact ⟨hset.1, fun _ => hset.2⟩
  | fastestAvailability =>
    rw [List.forall₂_map_right_iff, List.forall₂_same]
    intro row _
    have hset := argmin_settled casefold args.moqOverbuyCap row (fastestKey casefold)
    exact ⟨hset.1, fun _ => hset.2⟩
  | preferredFirst =>
    rw [List.forall₂_map_right_iff, List.forall₂_same]
    intro row _
    have hset := selectPreferredFirst_settled casefold args.moqOverbuyCap row
      (preferredRank casefold args.preferredDistributors) args.priceTolerancePct
    exact ⟨hset.1, fun _ => hset.2⟩

theorem pick_candidate {pick : Pick} (h : FeasiblePick moqOverbuyCap row (some pick)) :
    (⟨row, pick.offer, pick.qty, pick.price, pick.price * pick.qty⟩ : Candidate) ∈
      candidates casefold moqOverbuyCap row :=
  mem_candidates.mpr ⟨h.1, rfl, h.2, rfl⟩

theorem selectLowest_least {pick : Option Pick} (h : FeasiblePick moqOverbuyCap row pick) :
    selectionCost (selectLowestTotalPrice casefold moqOverbuyCap row) ≤ pickCost pick := by
  unfold selectLowestTotalPrice
  cases pick with
  | none =>
    have hnil : candidates casefold moqOverbuyCap row = [] := candidates_eq_nil.mpr h
    rw [hnil]
    exact le_rfl
  | some pick =>
    have hmem : _ ∈ candidates casefold moqOverbuyCap row := pick_candidate h
    obtain ⟨c, hc⟩ : ∃ c, (candidates casefold moqOverbuyCap row).argmin
        (lowestPriceKey casefold) = some c := FirstMin.exists_argmin (List.ne_nil_of_mem hmem)
    obtain ⟨hcin, hleast⟩ := FirstMin.argmin_spec hc
    have hcost := (mem_candidates.mp hcin).2.2.2
    have hle := Prod.Lex.le_iff.mp (hleast _ hmem)
    have hext : c.extendedCost ≤ pick.price * pick.qty := by
      rcases hle with hlt | ⟨heq, _⟩
      · exact le_of_lt hlt
      · exact le_of_eq heq
    rw [hcost] at hext
    rw [hc]
    exact hext

variable (casefold) in
theorem selectLowest_pick (moqOverbuyCap : Option ℤ) (row : SourcingBomLineOut) :
    ∃ pick, FeasiblePick moqOverbuyCap row pick ∧
      pickCost pick = selectionCost (selectLowestTotalPrice casefold moqOverbuyCap row) := by
  unfold selectLowestTotalPrice
  cases hmin : (candidates casefold moqOverbuyCap row).argmin (lowestPriceKey casefold) with
  | none => exact ⟨none, candidates_eq_nil.mp (List.argmin_eq_none.mp hmin), rfl⟩
  | some c =>
    obtain ⟨hshort, _, hp, _⟩ := mem_candidates.mp (FirstMin.argmin_spec hmin).1
    exact ⟨some ⟨c.offer, c.selectedQty, c.unitPrice⟩, ⟨hshort, hp⟩, rfl⟩

variable (casefold) in
theorem lowestTotal_isLeast (moqOverbuyCap : Option ℤ) (rows : List SourcingBomLineOut) :
    IsLeast {cost | ∃ picks, List.Forall₂ (FeasiblePick moqOverbuyCap) rows picks ∧
        (picks.map pickCost).sum = cost}
      ((rows.map (selectLowestTotalPrice casefold moqOverbuyCap)).map selectionCost).sum := by
  induction rows with
  | nil =>
    refine ⟨⟨[], .nil, rfl⟩, ?_⟩
    rintro _ ⟨picks, hpicks, rfl⟩
    cases hpicks
    exact le_rfl
  | cons row rows ih =>
    obtain ⟨⟨picks, hpicks, hcost⟩, hleast⟩ := ih
    simp only [List.map_cons, List.sum_cons]
    refine ⟨?_, ?_⟩
    · obtain ⟨pick, hpick, hsame⟩ := selectLowest_pick casefold moqOverbuyCap row
      refine ⟨pick :: picks, .cons hpick hpicks, ?_⟩
      rw [List.map_cons, List.sum_cons, hsame, hcost]
    · rintro _ ⟨all, hall, rfl⟩
      cases hall with
      | @cons _ pick _ others hpick hothers =>
        have htail := hleast ⟨others, hothers, rfl⟩
        rw [List.map_cons, List.sum_cons]
        exact add_le_add (selectLowest_least hpick) htail

theorem selectionCosts_sum (selections : List OptimizerSelection) :
    (selections.filterMap fun s => s.selectedUnitPrice.map fun price =>
      price * (s.selectedQty : Decimal)).sum = (selections.map selectionCost).sum := by
  induction selections with
  | nil => rfl
  | cons s selections ih =>
    rw [List.map_cons, List.sum_cons, ← ih, List.filterMap_cons]
    unfold selectionCost
    cases s.selectedUnitPrice with
    | none => simp
    | some price => simp

theorem estTotalCost_eq {selections : List OptimizerSelection} {cost : Decimal}
    (h : (outcome casefold selections).estTotalCost = some cost) :
    cost = (selections.map selectionCost).sum := by
  unfold outcome at h
  dsimp only at h
  split at h
  next => rw [← Option.some.inj h, selectionCosts_sum]
  next => cases h

theorem sameRow_before {a b a' b' : SourcingBomLineOut} (ha : SameRow a a') (hb : SameRow b b') :
    (toLex (a.projectEntryId, a.mpn.getD "") : ℕ ×ₗ String) ≤ toLex (b.projectEntryId, b.mpn.getD "") ↔
      (toLex (a'.projectEntryId, a'.mpn.getD "") : ℕ ×ₗ String) ≤
        toLex (b'.projectEntryId, b'.mpn.getD "") := by
  rw [← ha.fields, ← hb.fields]

theorem sortedRows_same (h : List.Forall₂ SameRow rows rows') :
    List.Forall₂ SameRow (sortedRows rows) (sortedRows rows') := by
  let before := fun a b : SourcingBomLineOut =>
    (toLex (a.projectEntryId, a.mpn.getD "") : ℕ ×ₗ String) ≤ toLex (b.projectEntryId, b.mpn.getD "")
  have hinsert : ∀ {a a'} {l l' : List SourcingBomLineOut}, SameRow a a' →
      List.Forall₂ SameRow l l' →
      List.Forall₂ SameRow (l.orderedInsert before a) (l'.orderedInsert before a') := by
    intro a a' l l' ha hl
    induction hl with
    | nil => exact .cons ha .nil
    | @cons b b' l l' hb hl ih =>
      simp only [List.orderedInsert_cons]
      by_cases hle : before a b
      · rw [if_pos hle, if_pos ((sameRow_before ha hb).mp hle)]
        exact .cons ha (.cons hb hl)
      · rw [if_neg hle, if_neg fun hle' => hle ((sameRow_before ha hb).mpr hle')]
        exact .cons hb ih
  induction h with
  | nil => exact .nil
  | cons ha _ ih => exact hinsert ha ih

theorem sortedRows_perm (hrows : (rows.map (·.projectEntryId)).Nodup) (h : rows.Perm rows') :
    sortedRows rows = sortedRows rows' := by
  let before := fun a b : SourcingBomLineOut =>
    (toLex (a.projectEntryId, a.mpn.getD "") : ℕ ×ₗ String) ≤ toLex (b.projectEntryId, b.mpn.getD "")
  have : Std.Total before := ⟨fun a b => le_total _ _⟩
  have : IsTrans SourcingBomLineOut before := ⟨fun a b c hab hbc => le_trans hab hbc⟩
  have hleft : (sortedRows rows).Perm rows := List.perm_insertionSort before rows
  have hright : (sortedRows rows').Perm rows' := List.perm_insertionSort before rows'
  have hone : ∀ a b, a ∈ sortedRows rows → b ∈ sortedRows rows' → before a b → before b a →
      a = b := by
    intro a b ha hb hab hba
    have hkey := congrArg (fun t => (ofLex t).1) (le_antisymm hab hba)
    exact List.inj_on_of_nodup_map hrows (hleft.mem_iff.mp ha)
      (h.mem_iff.mpr (hright.mem_iff.mp hb)) hkey
  exact List.Perm.eq_of_pairwise hone (List.pairwise_insertionSort before rows)
    (List.pairwise_insertionSort before rows') (hleft.trans (h.trans hright.symm))

theorem sortedRows_reordered
    (hrows : (rows.map (·.projectEntryId)).Nodup) (h : Reordered rows rows') :
    List.Forall₂ SameRow (sortedRows rows) (sortedRows rows') := by
  obtain ⟨middle, hsame, hperm⟩ := h
  have hmiddle : (middle.map (·.projectEntryId)).Nodup := by
    rw [sameRows_entryIds hsame]
    exact hrows
  rw [← sortedRows_perm hmiddle hperm]
  exact sortedRows_same hsame

theorem sortedRows_nodup (hrows : (rows.map (·.projectEntryId)).Nodup) :
    ((sortedRows rows).map (·.projectEntryId)).Nodup :=
  (((List.perm_insertionSort _ rows).map _).nodup_iff).mpr hrows

theorem map_alike {P : OptimizerSelection → OptimizerSelection → Prop}
    {select : SourcingBomLineOut → OptimizerSelection}
    (h : List.Forall₂ SameRow rows rows')
    (hselect : ∀ row ∈ rows, ∀ row', SameRow row row' → P (select row) (select row')) :
    List.Forall₂ P (rows.map select) (rows'.map select) := by
  rw [← List.filterMap_eq_map]
  apply forall₂_filterMap₂ h
  intro row hrow row' _ hsame
  exact ⟨_, _, rfl, rfl, hselect row hrow row' hsame⟩

theorem selectionsOf_alike (casefold : String → String) (args : OptimizerArgs)
    (hrows : (rows.map (·.projectEntryId)).Nodup) (h : List.Forall₂ SameRow rows rows') :
    List.Forall₂ (TiedSelections casefold args.moqOverbuyCap (StrategyTied casefold args) rows)
      (selectionsOf casefold args rows) (selectionsOf casefold args rows') := by
  unfold selectionsOf StrategyTied
  cases hstrategy : args.strategy with
  | fewestDistributors => exact optimizeFewest_alike hrows h args.maxDistributors
  | lowestTotalPrice =>
    apply map_alike h
    intro row hrow row' hsame
    exact select_alike (lowestPriceKey casefold)
      (fun t => toLex (t.2.2.2.2, alphaKey casefold t.2.1)) (fun _ => rfl) hsame hrow
  | fastestAvailability =>
    apply map_alike h
    intro row hrow row' hsame
    exact select_alike (fastestKey casefold)
      (fun t => toLex (t.2.1.leadTimeDays.getD infiniteLeadTimeDays,
        toLex (t.2.2.2.1, alphaKey casefold t.2.1))) (fun _ => rfl) hsame hrow
  | preferredFirst =>
    apply map_alike h
    intro row hrow row' hsame
    exact selectPreferredFirst_alike _ _ hsame hrow

theorem tiedSelections_unfilled {tied : Candidate → Candidate → Prop}
    {selections selections' : List OptimizerSelection}
    (h : List.Forall₂ (TiedSelections casefold moqOverbuyCap tied rows) selections selections') :
    (outcome casefold selections').unfilledLines = (outcome casefold selections).unfilledLines := by
  have hcons : ∀ (s : OptimizerSelection) (selections : List OptimizerSelection),
      (outcome casefold (s :: selections)).unfilledLines =
        if s.selectedDistributor = none then
          s.projectEntryId :: (outcome casefold selections).unfilledLines
        else (outcome casefold selections).unfilledLines := by
    intro s selections
    by_cases hs : s.selectedDistributor = none
    · simp [outcome, hs]
    · simp [outcome, hs]
  induction h with
  | nil => rfl
  | cons hs _ ih =>
    obtain ⟨row, _, row', hsame, ⟨rfl, rfl⟩ | ⟨c, _, c', _, _, rfl, rfl⟩⟩ := hs
    · rw [hcons, hcons, ih, unfilledSelection_same hsame]
    · rw [hcons, hcons, ih]
      rfl

theorem strategyTied_forRow (args : OptimizerArgs) (row : SourcingBomLineOut) {c c' : Candidate}
    (h : StrategyTied casefold args c c') : StrategyTied casefold args c (c'.forRow row) := by
  unfold StrategyTied at h ⊢
  cases hstrategy : args.strategy <;> rw [hstrategy] at h <;> exact h

theorem tiedSelections_eq {args : OptimizerArgs}
    (hnotie : ∀ row ∈ rows, ∀ c ∈ candidates casefold args.moqOverbuyCap row,
      ∀ c' ∈ candidates casefold args.moqOverbuyCap row, StrategyTied casefold args c c' → c = c')
    {selections selections' : List OptimizerSelection}
    (h : List.Forall₂ (TiedSelections casefold args.moqOverbuyCap (StrategyTied casefold args) rows)
      selections selections') : selections' = selections := by
  induction h with
  | nil => rfl
  | cons hs _ ih =>
    rw [ih]
    obtain ⟨row, hrow, row', hsame, ⟨rfl, rfl⟩ | ⟨c, hc, c', hc', htie, rfl, rfl⟩⟩ := hs
    · rw [unfilledSelection_same hsame]
    · have heq := hnotie row hrow c hc _ (mem_candidates_forRow hsame hc')
        (strategyTied_forRow args row htie)
      rw [← selectionFromCandidate_forRow hsame hc', ← heq]

theorem optimize_ok {args : OptimizerArgs} (bomRows : List SourcingBomLineOut)
    (hmax : ∀ m ∈ args.maxDistributors, 1 ≤ m) (hcap : ∀ c ∈ args.moqOverbuyCap, 1 ≤ c) :
    optimize casefold bomRows args =
      .ok (outcome casefold (selectionsOf casefold args (sortedRows bomRows))) := by
  simp only [optimize, Outcome.check, if_pos hmax, if_pos hcap]
  rfl

theorem candidates_left {s : OptimizerSelection} (hset : RowSettled casefold moqOverbuyCap row s)
    (hfree : s.selectedDistributor = none → candidates casefold moqOverbuyCap row = [])
    (hshort : 1 ≤ row.shortBy) :
    s.selectedDistributor = none ↔ ∀ offer, ¬ Feasible moqOverbuyCap row offer := by
  constructor
  · intro hnull
    exact (candidates_eq_nil.mp (hfree hnull)).resolve_left (by omega)
  · intro hnone
    have hnil : candidates casefold moqOverbuyCap row = [] := candidates_eq_nil.mpr (.inr hnone)
    rcases hset with rfl | ⟨c, hc, rfl⟩
    · rfl
    · rw [hnil] at hc
      cases hc

/-- Every admitted call returns a plan: one selection for each row, in the sorted
order, each unfilled or bought from an offer of the row; without a distributor
limit a short row is unfilled exactly when none of its offers is feasible; under
`lowest_total_price` no feasible choice of offers is cheaper; and the order of
the rows and of their offers only matters between tied candidates. -/
theorem optimize_plan (casefold : String → String) (bomRows : List SourcingBomLineOut)
    (args : OptimizerArgs) (hids : (bomRows.map (·.projectEntryId)).Nodup)
    (hmax : ∀ m ∈ args.maxDistributors, 1 ≤ m) (hcap : ∀ c ∈ args.moqOverbuyCap, 1 ≤ c) :
    (sortedRows bomRows).Perm bomRows ∧
    ∃ plan, optimize casefold bomRows args = .ok plan ∧
      List.Forall₂ (fun row s => s = unfilledSelection row ∨
        ∃ offer, FilledFrom args.moqOverbuyCap row offer s) (sortedRows bomRows) plan.selections ∧
      (args.strategy ≠ .fewestDistributors ∨ args.maxDistributors = none →
        List.Forall₂ (fun row s => 1 ≤ row.shortBy →
          (s.selectedDistributor = none ↔ ∀ offer, ¬ Feasible args.moqOverbuyCap row offer))
          (sortedRows bomRows) plan.selections) ∧
      (args.strategy = .lowestTotalPrice →
        IsLeast {cost | ∃ picks,
            List.Forall₂ (FeasiblePick args.moqOverbuyCap) (sortedRows bomRows) picks ∧
              (picks.map pickCost).sum = cost}
          (plan.selections.map selectionCost).sum ∧
        ∀ cost ∈ plan.estTotalCost, cost = (plan.selections.map selectionCost).sum) ∧
      ∀ rows', Reordered bomRows rows' → ∃ plan', optimize casefold rows' args = .ok plan' ∧
        List.Forall₂ (TiedSelections casefold args.moqOverbuyCap (StrategyTied casefold args)
          (sortedRows bomRows)) plan.selections plan'.selections ∧
        plan'.unfilledLines = plan.unfilledLines ∧
        ((∀ row ∈ bomRows, ∀ c ∈ candidates casefold args.moqOverbuyCap row,
          ∀ c' ∈ candidates casefold args.moqOverbuyCap row,
            StrategyTied casefold args c c' → c = c') → plan' = plan) := by
  have hperm : (sortedRows bomRows).Perm bomRows := List.perm_insertionSort _ bomRows
  have hsorted := sortedRows_nodup hids
  have hset := selectionsOf_settled casefold args hsorted
  refine ⟨hperm, _, optimize_ok bomRows hmax hcap, ?_, ?_, ?_, ?_⟩
  · apply hset.imp
    intro row s h
    exact rowSettled_filledFrom h.1
  · intro hfree
    apply hset.imp
    intro row s h hshort
    exact candidates_left h.1 (h.2 hfree) hshort
  · intro hstrategy
    refine ⟨?_, fun cost hcost => estTotalCost_eq hcost⟩
    have hleast := lowestTotal_isLeast casefold args.moqOverbuyCap (sortedRows bomRows)
    simpa only [outcome, selectionsOf, hstrategy] using hleast
  · intro rows' hreordered
    have halike := selectionsOf_alike casefold args hsorted (sortedRows_reordered hids hreordered)
    refine ⟨_, optimize_ok rows' hmax hcap, halike, tiedSelections_unfilled halike, ?_⟩
    intro hnotie
    have heq := tiedSelections_eq (fun row hrow => hnotie row (hperm.mem_iff.mp hrow)) halike
    rw [heq]

def washerOffer : SourcingBomOfferOut :=
  ⟨"W-1", "Acme", 1000, some 1, some "EUR", none, none, none, some 1, none, [], none, none,
    by decide⟩

/-- Ten washers short; two offers of the same distributor. -/
def washerRow : SourcingBomLineOut where
  projectEntryId := 1
  partId := 10
  mpn := some "W-1"
  required := 12
  available := 2
  substituteAvailable := 0
  shortBy := 10
  authorizedStock := 5000
  offers := [
    washerOffer,
    ⟨"W-1R", "Acme", 4000, some 1, some "EUR", none, none, none, some 1000, none,
      [⟨1000, 1 / 2⟩], none, none, by decide⟩]
  riskFlags := []

theorem optimize_plan_sample :
    ∃ plan, optimize id [washerRow] ⟨.lowestTotalPrice, [], none, some 100, 5⟩ = .ok plan ∧
      IsLeast {cost | ∃ picks,
          List.Forall₂ (FeasiblePick (some 100)) (sortedRows [washerRow]) picks ∧
            (picks.map pickCost).sum = cost}
        (plan.selections.map selectionCost).sum := by
  obtain ⟨_, plan, hok, _, _, hleast, _⟩ := optimize_plan id [washerRow]
    ⟨.lowestTotalPrice, [], none, some 100, 5⟩ (by decide) (by decide) (by decide)
  exact ⟨plan, hok, (hleast rfl).1⟩

end StockManager
