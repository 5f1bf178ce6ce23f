import StockManager.Effects.FewestSearch
import StockManager.Effects.Rows
import StockManager.Properties.OptimalPlan

/-! # Few distributors

The combination of the coverage report is a smallest one up to ten distributors
and a greedy one above. The plan of the optimizer is always greedy: it fills what
can be filled, with at most `harmonic n` times the distributors of a combination
for the whole BOM, `n` being the number of its shortage rows. -/

namespace StockManager

open GreedyCover

variable {casefold : String → String} {bomRows : List SourcingBomLineOut}

/-- The lines that some offer can be bought for. -/
def buyableLines (bomRows : List SourcingBomLineOut) : Finset Uuid :=
  ((bomRows.filter fun line => ∃ offer ∈ line.offers,
    coverageSelectedQty line.shortBy offer.moq ≤ offer.stock).map (·.projectEntryId)).toFinset

/-- How many lines are to be covered. -/
def lineTarget (fl : ℚ → ℚ) (bomRows : List SourcingBomLineOut) (targetCoveragePct : ℚ) : ℤ :=
  min ⌈fl (bomRows.length * targetCoveragePct)⌉ (buyableLines bomRows).card

def distributorCount (casefold : String → String) (bomRows : List SourcingBomLineOut) : ℕ :=
  (((bomRows.flatMap (·.offers)).map fun offer => casefold offer.distributor).toFinset).card

/-- A combination and its total: smallest and cheapest up to the limit, greedy above. -/
structure FewestResult (casefold : String → String) (bomRows : List SourcingBomLineOut)
    (targetCount : ℤ) (result : List String × Option Decimal) : Prop where
  known : ∀ name ∈ result.1, ∃ line ∈ bomRows, ∃ offer ∈ line.offers,
    casefold offer.distributor = casefold name
  distinct : (result.1.map casefold).Nodup
  total : result.2 = comboTotalCost casefold (result.1.map casefold) bomRows
  smallest : distributorCount casefold bomRows ≤ fewestDistributorsExhaustiveLimit →
    FewestSet casefold bomRows targetCount (result.1.map casefold)
  greedy : fewestDistributorsExhaustiveLimit < distributorCount casefold bomRows →
    GreedySet casefold bomRows targetCount (result.1.map casefold)

theorem mem_buyableLines {id : Uuid} : id ∈ buyableLines bomRows ↔ ∃ line ∈ bomRows,
    (∃ offer ∈ line.offers, coverageSelectedQty line.shortBy offer.moq ≤ offer.stock) ∧
      line.projectEntryId = id := by
  simp only [buyableLines, List.mem_toFinset, List.mem_map, List.mem_filter, decide_eq_true_eq,
    and_assoc]

variable (casefold bomRows) in
theorem coverableLines_buyable :
    coverableLines (purchaseableByDistributor casefold bomRows) = buyableLines bomRows := by
  ext id
  rw [coverableLines_eq, mem_covered, mem_buyableLines]
  constructor
  · rintro ⟨key, _, hid⟩
    obtain ⟨line, hline, hown, offer, hoffer, _, hstock⟩ := mem_purchaseableLines.mp hid
    exact ⟨line, hline, ⟨offer, hoffer, hstock⟩, hown⟩
  · rintro ⟨line, hline, ⟨offer, hoffer, hstock⟩, hown⟩
    exact ⟨casefold offer.distributor, mem_distributors.mpr ⟨line, hline, offer, hoffer, rfl⟩,
      mem_purchaseableLines.mpr ⟨line, hline, hown, offer, hoffer, rfl, hstock⟩⟩

variable (casefold bomRows) in
theorem distributorCount_eq : distributorCount casefold bomRows =
    (Dict.keys (offersByDistributor casefold bomRows)).length := by
  rw [← List.toFinset_card_of_nodup (distributors_nodup casefold bomRows), distributorCount]
  congr 1
  ext key
  simp only [List.mem_toFinset, mem_distributors, List.mem_map, List.mem_flatMap]
  constructor
  · rintro ⟨offer, ⟨line, hline, hoffer⟩, heq⟩
    exact ⟨line, hline, offer, hoffer, heq⟩
  · rintro ⟨line, hline, offer, hoffer, heq⟩
    exact ⟨offer, ⟨line, hline, hoffer⟩, heq⟩

section Reordered

variable {targetCount : ℤ} {combo combo' : List String}

theorem covered_perm (h : combo.Perm combo') :
    covered (purchaseableLines casefold bomRows) combo =
      covered (purchaseableLines casefold bomRows) combo' :=
  Finset.Subset.antisymm (covered_subset _ fun _ hkey => h.mem_iff.mp hkey)
    (covered_subset _ fun _ hkey => h.mem_iff.mpr hkey)

theorem FewestSet.perm (h : combo.Perm combo')
    (hset : FewestSet casefold bomRows targetCount combo) :
    FewestSet casefold bomRows targetCount combo' := by
  constructor
  case reaches => exact covered_perm h ▸ hset.reaches
  case fewest => exact h.length_eq ▸ hset.fewest
  case cheapest =>
    rw [← h.length_eq, ← comboTotalCost_perm h]
    exact hset.cheapest

theorem GreedySet.perm (h : combo.Perm combo')
    (hset : GreedySet casefold bomRows targetCount combo) :
    GreedySet casefold bomRows targetCount combo' := by
  obtain ⟨picked, hpicked, hadds⟩ := hset.adds
  exact ⟨covered_perm h ▸ hset.reaches, picked, hpicked.trans h, hadds⟩

end Reordered

theorem fewestResult_nil {targetCount : ℤ} (h : targetCount ≤ 0) :
    FewestResult casefold bomRows targetCount ([], none) := by
  constructor
  case known =>
    intro name hname
    cases hname
  case distinct => exact List.nodup_nil
  case total =>
    symm
    have hnone : (bomRows.filterMap fun line => (pricedCosts casefold [] line).min?) = [] :=
      List.filterMap_eq_nil_iff.mpr fun _ _ => rfl
    rw [List.map_nil, comboTotalCost, hnone]
  case smallest =>
    intro _
    refine ⟨by simpa using h, fun other _ => Nat.zero_le _, ?_⟩
    intro other _ hlen
    rw [List.length_eq_zero_iff.mp hlen]
    exact le_rfl
  case greedy =>
    intro _
    refine ⟨by simpa using h, [], .refl _, ?_⟩
    intro before key after hsplit
    cases before <;> cases hsplit

theorem fewestResult_of_combo {targetCount : ℤ} {names combo : List String}
    (hperm : (names.map casefold).Perm combo) (hnodup : combo.Nodup)
    (hknown : ∀ key ∈ combo, key ∈ Dict.keys (offersByDistributor casefold bomRows))
    (hsmallest : distributorCount casefold bomRows ≤ fewestDistributorsExhaustiveLimit →
      FewestSet casefold bomRows targetCount combo)
    (hgreedy : fewestDistributorsExhaustiveLimit < distributorCount casefold bomRows →
      GreedySet casefold bomRows targetCount combo) :
    FewestResult casefold bomRows targetCount (names, comboTotalCost casefold combo bomRows) := by
  constructor
  case known =>
    intro name hname
    exact mem_distributors.mp
      (hknown _ (hperm.mem_iff.mp (List.mem_map_of_mem hname)))
  case distinct => exact hperm.nodup_iff.mpr hnodup
  case total => exact (comboTotalCost_perm hperm).symm
  case smallest => exact fun hfew => (hsmallest hfew).perm hperm.symm
  case greedy => exact fun hmany => (hgreedy hmany).perm hperm.symm

theorem names_perm {rowsByKey : List (String × DistributorCoverageRow)} {combo : List String}
    (h : ∀ key ∈ combo, casefold (nameOf rowsByKey key) = key) :
    (((combo.map (nameOf rowsByKey)).insertionSort fun a b => casefold a ≤ casefold b).map
      casefold).Perm combo := by
  have hsame : (combo.map (nameOf rowsByKey)).map casefold = combo := by
    rw [List.map_map]
    exact (List.map_congr_left h).trans (List.map_id _)
  exact ((List.perm_insertionSort _ _).map casefold).trans (List.Perm.of_eq hsame)

theorem buyableLines_none
    (h : Dict.keys (offersByDistributor casefold bomRows) = []) : buyableLines bomRows = ∅ := by
  rw [← coverableLines_buyable casefold, coverableLines_eq, h, covered_nil]

theorem fewestResult_found {targetCount : ℤ} {keys combo : List String}
    {rowsByKey : List (String × DistributorCoverageRow)} (hpos : 0 < targetCount)
    (hkeys : keys.Perm (Dict.keys (offersByDistributor casefold bomRows)))
    (hnames : ∀ key ∈ keys, casefold (nameOf rowsByKey key) = key)
    (hnodup : combo.Nodup) (hknown : ∀ key ∈ combo, key ∈ keys)
    (hreaches : targetCount ≤ ((covered (purchaseableLines casefold bomRows) combo).card : ℤ))
    (hsmallest : distributorCount casefold bomRows ≤ fewestDistributorsExhaustiveLimit →
      FewestSet casefold bomRows targetCount combo)
    (hgreedy : fewestDistributorsExhaustiveLimit < distributorCount casefold bomRows →
      GreedySet casefold bomRows targetCount combo) :
    FewestResult casefold bomRows targetCount
      (if combo = [] then ([], none)
        else ((combo.map (nameOf rowsByKey)).insertionSort fun a b => casefold a ≤ casefold b,
          comboTotalCost casefold combo bomRows)) := by
  split
  next hnil =>
    rw [hnil, covered_nil, Finset.card_empty] at hreaches
    exact absurd hreaches (not_le.mpr hpos)
  next =>
    exact fewestResult_of_combo (names_perm fun key hkey => hnames key (hknown key hkey)) hnodup
      (fun key hkey => hkeys.mem_iff.mp (hknown key hkey)) hsmallest hgreedy

theorem fewestOfCoverage_result (casefold : String → String) (fl : ℚ → ℚ)
    (bomRows : List SourcingBomLineOut) (preferredDistributors : List String)
    (targetCoveragePct : ℚ) :
    FewestResult casefold bomRows (lineTarget fl bomRows targetCoveragePct)
      (fewestOfCoverage casefold fl bomRows preferredDistributors targetCoveragePct) := by
  have hnothing : buyableLines bomRows = ∅ → lineTarget fl bomRows targetCoveragePct ≤ 0 := by
    intro hnone
    rw [lineTarget, hnone]
    exact min_le_right _ _
  unfold fewestOfCoverage
  split
  next hempty =>
    rw [List.length_eq_zero_iff.mp hempty] at hnothing ⊢
    exact fewestResult_nil (hnothing rfl)
  next hrows =>
    have hkeys := coverageRows_keys casefold bomRows
      (preferredRank casefold preferredDistributors)
    simp only
    generalize ((Dict.keys (offersByDistributor casefold bomRows)).map
      (coverageRow casefold bomRows)).insertionSort (fun a b =>
        singleSortKey casefold (preferredRank casefold preferredDistributors) a ≤
          singleSortKey casefold (preferredRank casefold preferredDistributors) b) = rows at hkeys ⊢
    have hnodup : (rows.map fun row => casefold row.distributor).Nodup :=
      hkeys.nodup_iff.mpr (distributors_nodup casefold bomRows)
    have hcount : (rows.map fun row => casefold row.distributor).length =
        distributorCount casefold bomRows := by
      rw [distributorCount_eq, hkeys.length_eq]
    unfold fewestDistributorsVariant
    simp only [coverableLines_buyable]
    split
    next hno =>
      rcases hno with hno | hno
      · rw [hno, List.nil_perm] at hkeys
        exact fewestResult_nil (hnothing (buyableLines_none hkeys))
      · exact absurd (congrArg List.length hno) hrows
    next =>
      split
      next hle => exact fewestResult_nil hle
      next hpos =>
        change ¬ lineTarget fl bomRows targetCoveragePct ≤ 0 at hpos
        change FewestResult casefold bomRows (lineTarget fl bomRows targetCoveragePct)
          (if (if _ then fewestExhaustiveCombo casefold bomRows _ _
            (lineTarget fl bomRows targetCoveragePct) _ else fewestGreedyCombo casefold bomRows _ _
              (lineTarget fl bomRows targetCoveragePct) _) = [] then _ else _)
        have hreach : lineTarget fl bomRows targetCoveragePct ≤
            ((coverableLines (purchaseableByDistributor casefold bomRows)).card : ℤ) := by
          rw [coverableLines_buyable]
          exact min_le_right _ _
        have hnames := fun key (hkey : key ∈ rows.map fun row => casefold row.distributor) =>
          rowsByKey_name hnodup hkey
        split
        next hfew =>
          obtain ⟨hset, hsub⟩ := fewestExhaustiveCombo_fewest hkeys (not_le.mp hpos) hreach
          exact fewestResult_found (not_le.mp hpos) hkeys hnames (hsub.nodup hnodup)
            (fun key hkey => hsub.subset hkey) hset.reaches (fun _ => hset)
            (fun hmany => absurd hfew (by omega))
        next hmany =>
          obtain ⟨hset, hin, hknown⟩ := fewestGreedyCombo_greedy hkeys hreach
          exact fewestResult_found (not_le.mp hpos) hkeys hnames hin hknown hset.reaches
            (fun hfew => absurd hfew (by omega)) (fun _ => hset)

/-- The arguments of a plan with no limit on distributors and no overbuy cap. -/
def fewestArgs (preferredDistributors : List String) (priceTolerancePct : Decimal) :
    OptimizerArgs :=
  ⟨.fewestDistributors, preferredDistributors, none, none, priceTolerancePct⟩

/-- Every shortage row has an offer that can be bought. -/
def AllFillable (bomRows : List SourcingBomLineOut) : Prop :=
  ∀ row ∈ bomRows, 1 ≤ row.shortBy → ∃ offer, Feasible none row offer

def AllPriced (bomRows : List SourcingBomLineOut) : Prop :=
  ∀ row ∈ bomRows, ∀ offer ∈ row.offers, unitPrice offer (selectedQty row.shortBy offer.moq) ≠ none

section Plan

variable (casefold)

theorem fewestPlan_run (hids : (bomRows.map (·.projectEntryId)).Nodup) :
    ∃ chosen after, Run (candidateLines casefold none (sortedRows bomRows))
        (shortIds ((sortedRows bomRows).map fun row => (row.projectEntryId, row))) chosen after ∧
      ∀ s ∈ optimizeFewestDistributors casefold (sortedRows bomRows) none none,
        ∀ name ∈ s.selectedDistributor, casefold name ∈ chosen := by
  have hrows := sortedRows_nodup hids
  generalize sortedRows bomRows = rows at hrows ⊢
  have hstart := loopState_initial casefold none hrows
  obtain ⟨chosen, after, hrun, hnames⟩ := fewestLoop_run hrows
    (rows.map fun row => (row.projectEntryId, row)).length 0 hstart
  have hstate := (fewestLoop_state none _ 0 _ [] le_rfl hstart).1
  refine ⟨chosen, after, hrun, ?_⟩
  intro s hs name hname
  simp only [optimizeFewestDistributors, Dict.foldl_put_of_nodup _ (fun row => row) hrows] at hs
  obtain ⟨row, _, hfind⟩ := List.mem_filterMap.mp hs
  rw [find_unfilled hstate] at hfind
  rcases Option.or_eq_some_iff.mp hfind with hleft | ⟨_, htaken⟩
  · obtain ⟨left, _, rfl⟩ := Option.map_eq_some_iff.mp hleft
    cases hname
  · rcases hnames _ _ htaken with hold | ⟨name', hname', hin⟩
    · cases hold
    · rw [Option.mem_def] at hname hname'
      rw [hname'] at hname
      exact Option.some.inj hname ▸ hin

theorem shortIds_card {rows : List SourcingBomLineOut}
    (hrows : (rows.map (·.projectEntryId)).Nodup) :
    (shortIds (rows.map fun row => (row.projectEntryId, row))).card =
      (rows.filter fun row => 1 ≤ row.shortBy).length := by
  have hfilter : ((rows.map fun row => (row.projectEntryId, row)).filter
      fun item => 1 ≤ item.2.shortBy).map Prod.fst =
      (rows.filter fun row => 1 ≤ row.shortBy).map (·.projectEntryId) := by
    rw [List.filter_map, List.map_map]
    rfl
  rw [shortIds, hfilter, List.toFinset_card_of_nodup (hrows.sublist
    (List.filter_sublist.map _)), List.length_map]

theorem shortIds_covered (hids : (bomRows.map (·.projectEntryId)).Nodup)
    (hfill : AllFillable bomRows) (hpriced : AllPriced bomRows) {combo : List String}
    (hcombo : ((buyableLines bomRows).card : ℤ) ≤
      ((covered (purchaseableLines casefold bomRows) combo).card : ℤ)) :
    shortIds ((sortedRows bomRows).map fun row => (row.projectEntryId, row)) ⊆
      covered (candidateLines casefold none (sortedRows bomRows)) combo := by
  have hperm : (sortedRows bomRows).Perm bomRows := List.perm_insertionSort _ _
  have hall : covered (purchaseableLines casefold bomRows) combo = buyableLines bomRows := by
    apply Finset.eq_of_subset_of_card_le
    · intro id hid
      obtain ⟨key, _, hin⟩ := (mem_covered _).mp hid
      obtain ⟨line, hline, hown, offer, hoffer, _, hstock⟩ := mem_purchaseableLines.mp hin
      exact mem_buyableLines.mpr ⟨line, hline, ⟨offer, hoffer, hstock⟩, hown⟩
    · exact_mod_cast hcombo
  intro id hid
  obtain ⟨item, hitem, hshort, rfl⟩ := mem_shortIds.mp hid
  obtain ⟨row, hrow, rfl⟩ := List.mem_map.mp hitem
  have hmem := hperm.mem_iff.mp hrow
  have hqty : ∀ moq, coverageSelectedQty row.shortBy moq = selectedQty row.shortBy moq := by
    intro moq
    exact if_neg (by simp only at hshort; omega)
  have hbuyable : row.projectEntryId ∈ buyableLines bomRows := by
    obtain ⟨offer, _, _, hfeasible⟩ := hfill row hmem hshort
    refine mem_buyableLines.mpr ⟨row, hmem, ⟨offer, hfeasible.inRow, ?_⟩, rfl⟩
    rw [hqty, ← hfeasible.qty_eq]
    exact hfeasible.inStock
  rw [← hall, mem_covered] at hbuyable
  obtain ⟨key, hkey, hin⟩ := hbuyable
  obtain ⟨line, hline, hown, offer, hoffer, hdist, hstock⟩ := mem_purchaseableLines.mp hin
  obtain rfl : line = row := List.inj_on_of_nodup_map hids hline hmem hown
  rw [hqty] at hstock
  obtain ⟨price, hprice⟩ := Option.ne_none_iff_exists'.mp (hpriced line hmem offer hoffer)
  have hcandidate : (⟨line, offer, selectedQty line.shortBy offer.moq, price,
      price * selectedQty line.shortBy offer.moq⟩ : Candidate) ∈ candidates casefold none line :=
    mem_candidates.mpr ⟨hshort, rfl, ⟨hoffer, rfl, (fun _ hcap => by cases hcap), hstock, hprice⟩, rfl⟩
  exact (mem_covered _).mpr ⟨key, hkey, mem_candidateLines.mpr
    ⟨line, hrow, ⟨_, hcandidate, hdist⟩, rfl⟩⟩

/-- A plan against a combination: it fills what can be filled, and where the combination covers
all it has at most `harmonic n` times its distributors. -/
structure FewestPlan (casefold : String → String) (bomRows : List SourcingBomLineOut)
    (targetCount : ℤ) (combo : List String) (plan : OptimizerOutcome) : Prop where
  fills : ∀ row ∈ bomRows, 1 ≤ row.shortBy → (∃ offer, Feasible none row offer) →
    ∃ s ∈ plan.selections, s.projectEntryId = row.projectEntryId ∧ s.selectedDistributor ≠ none
  bound : AllFillable bomRows → AllPriced bomRows → targetCount = (buyableLines bomRows).card →
    ((plan.distributorsUsed.map casefold).dedup.length : ℚ) ≤
      combo.length * harmonic (bomRows.filter fun row => 1 ≤ row.shortBy).length

theorem fewestPlan_fills (preferredDistributors : List String) (priceTolerancePct : Decimal)
    (hids : (bomRows.map (·.projectEntryId)).Nodup) {row : SourcingBomLineOut}
    (hrow : row ∈ bomRows) (hshort : 1 ≤ row.shortBy)
    (hfeasible : ∃ offer, Feasible none row offer) :
    ∃ s ∈ selectionsOf casefold (fewestArgs preferredDistributors priceTolerancePct)
        (sortedRows bomRows),
      s.projectEntryId = row.projectEntryId ∧ s.selectedDistributor ≠ none := by
  have hmem : row ∈ sortedRows bomRows := (List.mem_insertionSort _).mpr hrow
  have hsettled : List.Forall₂ (fun row s => RowSettled casefold none row s ∧
      ((none : Option ℤ) = none → s.selectedDistributor = none →
        candidates casefold none row = []))
      (sortedRows bomRows) (optimizeFewestDistributors casefold (sortedRows bomRows) none none) :=
    optimizeFewest_settled (sortedRows_nodup hids) none
  obtain ⟨s, hs, hset, hfree⟩ := exists_of_forall₂ hsettled.flip hmem
  refine ⟨s, hs, ?_, ?_⟩
  · rcases hset with rfl | ⟨c, hc, rfl⟩
    · rfl
    · exact congrArg (·.projectEntryId) (mem_candidates.mp hc).2.1
  · intro hnull
    obtain ⟨offer, hoffer⟩ := hfeasible
    rcases candidates_eq_nil.mp (hfree rfl hnull) with hless | hnone
    · omega
    · exact hnone offer hoffer

theorem fewestPlan_bound (preferredDistributors : List String) (priceTolerancePct : Decimal)
    (hids : (bomRows.map (·.projectEntryId)).Nodup) (hfill : AllFillable bomRows)
    (hpriced : AllPriced bomRows) {combo : List String}
    (hcombo : ((buyableLines bomRows).card : ℤ) ≤
      ((covered (purchaseableLines casefold bomRows) combo).card : ℤ)) :
    (((outcome casefold (selectionsOf casefold
        (fewestArgs preferredDistributors priceTolerancePct)
          (sortedRows bomRows))).distributorsUsed.map casefold).dedup.length : ℚ) ≤
      combo.length * harmonic (bomRows.filter fun row => 1 ≤ row.shortBy).length := by
  obtain ⟨chosen, after, hrun, hnames⟩ := fewestPlan_run casefold hids
  have hbound := hrun.length_le (shortIds_covered casefold hids hfill hpriced hcombo)
  have hcount : (bomRows.filter fun row => 1 ≤ row.shortBy).length =
      (shortIds ((sortedRows bomRows).map fun row => (row.projectEntryId, row))).card := by
    rw [shortIds_card (sortedRows_nodup hids)]
    exact (((List.perm_insertionSort _ bomRows).filter _).length_eq).symm
  rw [hcount]
  refine le_trans ?_ hbound
  have hsub : ((outcome casefold (selectionsOf casefold (fewestArgs preferredDistributors
      priceTolerancePct) (sortedRows bomRows))).distributorsUsed.map casefold).dedup.Subperm
        chosen := by
    apply (List.nodup_dedup _).subperm
    intro key hkey
    obtain ⟨name, hname, rfl⟩ := List.mem_map.mp (List.mem_dedup.mp hkey)
    obtain ⟨s, hs, hselected⟩ := List.mem_filterMap.mp
      (List.mem_dedup.mp ((List.mem_insertionSort _).mp hname))
    exact hnames s hs name hselected
  exact_mod_cast hsub.length_le

end Plan

/-- The combination is a smallest one, or greedy above the limit; the plan is always greedy. -/
theorem fewestDistributors_combination (casefold : String → String) (fl : ℚ → ℚ)
    (bomRows : List SourcingBomLineOut) (preferredDistributors : List String)
    (targetCoveragePct : ℚ) (priceTolerancePct : Decimal) :
    FewestResult casefold bomRows (lineTarget fl bomRows targetCoveragePct)
      (fewestOfCoverage casefold fl bomRows preferredDistributors targetCoveragePct) ∧
    ((bomRows.map (·.projectEntryId)).Nodup →
      ∃ plan, optimize casefold bomRows (fewestArgs preferredDistributors priceTolerancePct) =
          .ok plan ∧
        FewestPlan casefold bomRows (lineTarget fl bomRows targetCoveragePct)
          ((fewestOfCoverage casefold fl bomRows preferredDistributors targetCoveragePct).1.map
            casefold) plan) := by
  have hresult := fewestOfCoverage_result casefold fl bomRows preferredDistributors
    targetCoveragePct
  refine ⟨hresult, ?_⟩
  intro hids
  refine ⟨_, optimize_ok bomRows (fun _ hm => by cases hm) (fun _ hc => by cases hc), ?_, ?_⟩
  · exact fun row hrow => fewestPlan_fills casefold preferredDistributors priceTolerancePct hids hrow
  · intro hfill hpriced htarget
    apply fewestPlan_bound casefold preferredDistributors priceTolerancePct hids hfill hpriced
    rw [← htarget]
    rcases Nat.lt_or_ge fewestDistributorsExhaustiveLimit (distributorCount casefold bomRows)
      with hmany | hfew
    · exact (hresult.greedy hmany).reaches
    · exact (hresult.smallest hfew).reaches

/-- A line short of one part, offered by some distributors at one euro. -/
def offeredRow (projectEntryId : Uuid) (distributors : List String) : SourcingBomLineOut where
  projectEntryId := projectEntryId
  partId := projectEntryId
  mpn := none
  required := 1
  available := 0
  substituteAvailable := 0
  shortBy := 1
  authorizedStock := 0
  offers := distributors.map fun name => { washerOffer with distributor := name }
  riskFlags := []

/-- Two distributors hold three rows each; a third holds four of the six. -/
def twoOfThree : List SourcingBomLineOut :=
  [offeredRow 1 ["A", "C"], offeredRow 2 ["A", "C"], offeredRow 3 ["A"],
    offeredRow 4 ["B", "C"], offeredRow 5 ["B", "C"], offeredRow 6 ["B"]]

theorem fewestDistributors_combination_sample :
    (fewestOfCoverage id id twoOfThree [] 1).1 = ["A", "B"] ∧
      ∃ plan, optimize id twoOfThree (fewestArgs [] 5) = .ok plan ∧
        FewestPlan id twoOfThree (lineTarget id twoOfThree 1)
          ((fewestOfCoverage id id twoOfThree [] 1).1.map id) plan := by
  have hids : (twoOfThree.map (·.projectEntryId)).Nodup := by decide
  exact ⟨by decide +kernel, (fewestDistributors_combination id id twoOfThree [] 1 5).2 hids⟩

/-- The greedy plan takes the third distributor first and needs three where two do. -/
theorem plan_more_than_combination :
    distributorCount id twoOfThree = 3 ∧ AllFillable twoOfThree ∧ AllPriced twoOfThree ∧
      ∃ plan, optimize id twoOfThree (fewestArgs [] 5) = .ok plan ∧
        plan.distributorsUsed = ["A", "B", "C"] ∧
        (fewestOfCoverage id id twoOfThree [] 1).1 = ["A", "B"] := by
  have hfill : ∀ row ∈ twoOfThree, 1 ≤ row.shortBy →
      ∃ offer ∈ row.offers, candidateOf none row offer ≠ none := by
    decide
  refine ⟨by decide, ?_, by unfold AllPriced; decide, ?_⟩
  · intro row hrow hshort
    obtain ⟨offer, hoffer, hsome⟩ := hfill row hrow hshort
    obtain ⟨c, hc⟩ := Option.ne_none_iff_exists'.mp hsome
    obtain ⟨price, hprice, _, hstock, _⟩ := candidateOf_some.mp hc
    exact ⟨offer, _, price, hoffer, rfl, (fun _ hcap => by cases hcap), hstock, hprice⟩
  · exact ⟨_, optimize_ok _ (fun _ hm => by cases hm) (fun _ hc => by cases hc),
      by decide +kernel, by decide +kernel⟩

end StockManager
