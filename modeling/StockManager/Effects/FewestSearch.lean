import StockManager.Effects.FewestDistributors
import StockManager.Library.GreedyCover
import StockManager.Model.Coverage

/-! # The optimizer's loop as a greedy run

Each turn of `_optimize_fewest_distributors` takes a distributor with candidates
for most of the shortage rows that remain. -/

namespace StockManager

open GreedyCover

def shortIds (remaining : List (Uuid × SourcingBomLineOut)) : Finset Uuid :=
  ((remaining.filter fun item => 1 ≤ item.2.shortBy).map Prod.fst).toFinset

def candidateLines (casefold : String → String) (moqOverbuyCap : Option ℤ)
    (rows : List SourcingBomLineOut) (key : String) : Finset Uuid :=
  ((rows.filter fun row => ∃ c ∈ candidates casefold moqOverbuyCap row,
    casefold c.offer.distributor = key).map (·.projectEntryId)).toFinset

variable {casefold : String → String} {moqOverbuyCap : Option ℤ} {rows : List SourcingBomLineOut}
  {remaining : List (Uuid × SourcingBomLineOut)}
  {selectedByLine : List (Uuid × OptimizerSelection)} {best : List (Uuid × Candidate)}

theorem mem_shortIds {id : Uuid} :
    id ∈ shortIds remaining ↔ ∃ item ∈ remaining, 1 ≤ item.2.shortBy ∧ item.1 = id := by
  simp only [shortIds, List.mem_toFinset, List.mem_map, List.mem_filter, decide_eq_true_eq,
    and_assoc]

theorem mem_candidateLines {key : String} {id : Uuid} :
    id ∈ candidateLines casefold moqOverbuyCap rows key ↔ ∃ row ∈ rows,
      (∃ c ∈ candidates casefold moqOverbuyCap row, casefold c.offer.distributor = key) ∧
        row.projectEntryId = id := by
  simp only [candidateLines, List.mem_toFinset, List.mem_map, List.mem_filter, decide_eq_true_eq,
    and_assoc]

theorem supplied_keys (hrows : (rows.map (·.projectEntryId)).Nodup)
    (hstate : LoopState casefold moqOverbuyCap rows remaining selectedByLine) (key : String) :
    (Dict.keys (bestCandidatesForDistributor casefold (suppliedBy casefold
      (candidatesLeft casefold moqOverbuyCap remaining) key))).toFinset =
        candidateLines casefold moqOverbuyCap rows key ∩ shortIds remaining := by
  ext id
  rw [List.mem_toFinset, bestCandidatesForDistributor, FirstMin.mem_keys_bestBy, Finset.mem_inter,
    mem_candidateLines, mem_shortIds]
  constructor
  · rintro ⟨c, hc, rfl⟩
    obtain ⟨hfound, hkey⟩ := List.mem_filter.mp hc
    obtain ⟨item, hitem, hin⟩ := mem_candidatesLeft.mp hfound
    obtain ⟨hshort, hline, _⟩ := mem_candidates.mp hin
    obtain ⟨hrow, hid⟩ := hstate.left item hitem
    rw [hline]
    exact ⟨⟨item.2, hrow, ⟨c, hin, of_decide_eq_true hkey⟩, rfl⟩, item, hitem, hshort, hid⟩
  · rintro ⟨⟨row, hrow, ⟨c, hc, hkey⟩, hid⟩, item, hitem, _, hitemId⟩
    obtain ⟨hsource, hown⟩ := hstate.left item hitem
    have hsame : item.2 = row := by
      apply List.inj_on_of_nodup_map hrows hsource hrow
      rw [← hown, hitemId, hid]
    have hfound : c ∈ candidatesLeft casefold moqOverbuyCap remaining :=
      mem_candidatesLeft.mpr ⟨item, hitem, hsame ▸ hc⟩
    have hline : c.line = row := (mem_candidates.mp hc).2.1
    exact ⟨c, List.mem_filter.mpr ⟨hfound, decide_eq_true hkey⟩, by rw [hline, hid]⟩

theorem supplied_length (hrows : (rows.map (·.projectEntryId)).Nodup)
    (hstate : LoopState casefold moqOverbuyCap rows remaining selectedByLine) (key : String) :
    (bestCandidatesForDistributor casefold (suppliedBy casefold
      (candidatesLeft casefold moqOverbuyCap remaining) key)).length =
        (candidateLines casefold moqOverbuyCap rows key ∩ shortIds remaining).card := by
  have hnodup : (Dict.keys (bestCandidatesForDistributor casefold (suppliedBy casefold
      (candidatesLeft casefold moqOverbuyCap remaining) key))).Nodup :=
    FirstMin.nodup_keys_bestBy _ _ _
  rw [← supplied_keys hrows hstate, List.toFinset_card_of_nodup hnodup, Dict.keys, List.length_map]

theorem fewestRound_greedy (hrows : (rows.map (·.projectEntryId)).Nodup)
    (hstate : LoopState casefold moqOverbuyCap rows remaining selectedByLine)
    (h : fewestRound casefold moqOverbuyCap remaining = some best) :
    ∃ key, (∀ j, (candidateLines casefold moqOverbuyCap rows j ∩ shortIds remaining).card ≤
        (candidateLines casefold moqOverbuyCap rows key ∩ shortIds remaining).card) ∧
      (candidateLines casefold moqOverbuyCap rows key ∩ shortIds remaining).Nonempty ∧
      shortIds (best.foldl (fun d item => Dict.erase item.1 d) remaining) =
        shortIds remaining \ candidateLines casefold moqOverbuyCap rows key ∧
      ∀ item ∈ best, casefold item.2.offer.distributor = key := by
  have hne := (fewestRound_some h).1
  rw [fewestRound_eq] at h
  obtain ⟨key, hkey, rfl⟩ := Option.map_eq_some_iff.mp h
  obtain ⟨hin, hmin⟩ := FirstMin.argmin_spec hkey
  have hperm := List.perm_insertionSort (fun a b : Uuid × Candidate => a.1 ≤ b.1)
    (bestCandidatesForDistributor casefold (suppliedBy casefold
      (candidatesLeft casefold moqOverbuyCap remaining) key))
  refine ⟨key, ?_, ?_, ?_, ?_⟩
  · intro j
    by_cases hj : j ∈ distributorKeys casefold (candidatesLeft casefold moqOverbuyCap remaining)
    · have hle := Prod.Lex.toLex_le_toLex.mp (hmin j hj)
      rw [supplied_length hrows hstate, supplied_length hrows hstate] at hle
      omega
    · have hnone : candidateLines casefold moqOverbuyCap rows j ∩ shortIds remaining = ∅ := by
        rw [← supplied_keys hrows hstate]
        apply Finset.eq_empty_of_forall_notMem
        intro id hid
        obtain ⟨c, hc, _⟩ := (FirstMin.mem_keys_bestBy _ _).mp (List.mem_toFinset.mp hid)
        obtain ⟨hfound, hcj⟩ := List.mem_filter.mp hc
        exact hj (mem_distributorKeys.mpr ⟨c, hfound, of_decide_eq_true hcj⟩)
      rw [hnone, Finset.card_empty]
      exact Nat.zero_le _
  · rw [← Finset.card_pos, ← supplied_length hrows hstate, ← hperm.length_eq]
    exact List.length_pos_iff.mpr hne
  · rw [Dict.foldl_erase]
    ext id
    have hgone : ∀ item ∈ remaining, (item.1 ∈ Dict.keys
        ((bestCandidatesForDistributor casefold (suppliedBy casefold
          (candidatesLeft casefold moqOverbuyCap remaining) key)).insertionSort
            fun a b => a.1 ≤ b.1) ↔
        item.1 ∈ candidateLines casefold moqOverbuyCap rows key ∩ shortIds remaining) := by
      intro item _
      rw [← supplied_keys hrows hstate, List.mem_toFinset]
      exact (hperm.map Prod.fst).mem_iff
    rw [Finset.mem_sdiff, mem_shortIds, mem_shortIds]
    constructor
    · rintro ⟨item, hitem, hshort, rfl⟩
      obtain ⟨hmem, hout⟩ := List.mem_filter.mp hitem
      refine ⟨⟨item, hmem, hshort, rfl⟩, ?_⟩
      intro hline
      refine of_decide_eq_true hout ((hgone item hmem).mpr (Finset.mem_inter.mpr ⟨hline, ?_⟩))
      exact mem_shortIds.mpr ⟨item, hmem, hshort, rfl⟩
    · rintro ⟨⟨item, hmem, hshort, rfl⟩, hline⟩
      refine ⟨item, List.mem_filter.mpr ⟨hmem, decide_eq_true fun hin => ?_⟩, hshort, rfl⟩
      exact hline (Finset.mem_inter.mp ((hgone item hmem).mp hin)).1
  · intro item hitem
    obtain ⟨hc, _⟩ := mem_bestCandidates (hperm.mem_iff.mp hitem)
    exact of_decide_eq_true (List.mem_filter.mp hc).2

theorem fewestLoop_run (hrows : (rows.map (·.projectEntryId)).Nodup) (turns used : ℕ)
    (hstate : LoopState casefold moqOverbuyCap rows remaining selectedByLine) :
    ∃ chosen after,
      Run (candidateLines casefold moqOverbuyCap rows) (shortIds remaining) chosen after ∧
      ∀ id s, Dict.find id (fewestLoop casefold moqOverbuyCap none turns used remaining
        selectedByLine).2 = some s → Dict.find id selectedByLine = some s ∨
          ∃ name ∈ s.selectedDistributor, casefold name ∈ chosen := by
  induction turns generalizing used remaining selectedByLine with
  | zero => exact ⟨[], _, .stop _, fun _ _ h => .inl h⟩
  | succ turns ih =>
    simp only [fewestLoop]
    split
    next =>
      cases hround : fewestRound casefold moqOverbuyCap remaining with
      | none => exact ⟨[], _, .stop _, fun _ _ h => .inl h⟩
      | some best =>
        obtain ⟨key, hmost, hsome, hleft, hkey⟩ := fewestRound_greedy hrows hstate hround
        obtain ⟨chosen, after, hrun, hnames⟩ := ih (used + 1) (loopState_round hstate hround)
        rw [hleft] at hrun
        refine ⟨key :: chosen, after, .take hmost hsome hrun, ?_⟩
        intro id s hs
        rcases hnames id s hs with hold | ⟨name, hname, hin⟩
        · rw [Dict.find_foldl_put_map selectionFromCandidate (fewestRound_some hround).2.1] at hold
          cases hbest : Dict.find id best with
          | none =>
            rw [hbest] at hold
            exact .inl hold
          | some c =>
            rw [hbest] at hold
            obtain rfl := Option.some.inj hold
            right
            refine ⟨c.offer.distributor, rfl, ?_⟩
            rw [hkey _ (Dict.mem_of_find hbest)]
            exact List.mem_cons_self ..
        · exact .inr ⟨name, hname, List.mem_cons_of_mem _ hin⟩
    next => exact ⟨[], _, .stop _, fun _ _ h => .inl h⟩

end StockManager

/-! ## The search for few distributors

The exhaustive search finds a smallest set and, of these, a cheapest; the greedy
one is a greedy run over the lines that can be bought. -/

namespace StockManager

open GreedyCover

variable {casefold : String → String} {bomRows : List SourcingBomLineOut}
variable {key : String} {selected : List String} {uncovered : Finset Uuid}

theorem mem_combinations {α : Type} {size : ℕ} {l combo : List α} :
    combo ∈ combinations size l ↔ combo.Sublist l ∧ combo.length = size := by
  induction l generalizing size combo with
  | nil =>
    cases size with
    | zero => simp [combinations, List.sublist_nil]
    | succ size =>
      simp only [combinations, List.not_mem_nil, List.sublist_nil, false_iff]
      rintro ⟨rfl, hlen⟩
      cases hlen
  | cons a l ih =>
    cases size with
    | zero =>
      simp only [combinations, List.mem_singleton, List.length_eq_zero_iff]
      constructor
      · rintro rfl
        exact ⟨List.nil_sublist _, rfl⟩
      · exact fun h => h.2
    | succ size =>
      simp only [combinations, List.mem_append, List.mem_map, ih]
      constructor
      · rintro (⟨rest, ⟨hsub, hlen⟩, rfl⟩ | ⟨hsub, hlen⟩)
        · exact ⟨hsub.cons_cons a, by rw [List.length_cons, hlen]⟩
        · exact ⟨hsub.cons a, hlen⟩
      · rintro ⟨hsub, hlen⟩
        cases hsub with
        | cons _ hsub => exact .inr ⟨hsub, hlen⟩
        | cons_cons _ hsub => exact .inl ⟨_, ⟨hsub, Nat.succ.inj hlen⟩, rfl⟩

theorem findSome?_range' {β : Type} {f : ℕ → Option β} {start count : ℕ} {b : β}
    (h : (List.range' start count).findSome? f = some b) :
    ∃ size, f size = some b ∧ ∀ less, start ≤ less → less < size → f less = none := by
  induction count generalizing start with
  | zero => cases h
  | succ count ih =>
    rw [List.range'_succ, List.findSome?_cons] at h
    cases hfirst : f start with
    | some c =>
      rw [hfirst] at h
      refine ⟨start, hfirst.trans h, ?_⟩
      intro less hge hlt
      omega
    | none =>
      rw [hfirst] at h
      obtain ⟨size, hsize, hnone⟩ := ih h
      refine ⟨size, hsize, ?_⟩
      intro less hge hlt
      rcases Nat.eq_or_lt_of_le hge with rfl | hgt
      · exact hfirst
      · exact hnone less hgt hlt

theorem min?_perm {a b : List Decimal} (h : a.Perm b) : a.min? = b.min? := by
  cases hmin : b.min? with
  | none =>
    rw [List.min?_eq_none_iff] at hmin ⊢
    rw [hmin] at h
    exact h.eq_nil
  | some least =>
    rw [List.min?_eq_some_iff] at hmin ⊢
    exact ⟨h.mem_iff.mpr hmin.1, fun x hx => hmin.2 x (h.mem_iff.mp hx)⟩

theorem comboTotalCost_perm {a b : List String} (h : a.Perm b) :
    comboTotalCost casefold a bomRows = comboTotalCost casefold b bomRows := by
  have hline : (fun line => (pricedCosts casefold a line).min?) =
      fun line => (pricedCosts casefold b line).min? := by
    funext line
    exact min?_perm (h.dedup.filterMap _)
  unfold comboTotalCost
  rw [hline]

theorem mem_distributors :
    key ∈ Dict.keys (offersByDistributor casefold bomRows) ↔
      ∃ line ∈ bomRows, ∃ offer ∈ line.offers, casefold offer.distributor = key := by
  unfold offersByDistributor Dict.gather
  rw [Dict.mem_keys_collect]
  constructor
  · rintro (hkey | ⟨offer, hoffer, heq⟩)
    · cases hkey
    · obtain ⟨line, hline, hmem⟩ := List.mem_flatMap.mp hoffer
      exact ⟨line, hline, offer, hmem, heq⟩
  · rintro ⟨line, hline, offer, hmem, heq⟩
    exact .inr ⟨offer, List.mem_flatMap.mpr ⟨line, hline, hmem⟩, heq⟩

theorem bestPurchaseableOffer_isSome {line : SourcingBomLineOut} :
    (bestPurchaseableOffer casefold key line).isSome ↔ ∃ offer ∈ line.offers,
      casefold offer.distributor = key ∧
        coverageSelectedQty line.shortBy offer.moq ≤ offer.stock := by
  rw [bestPurchaseableOffer, bestOfferForQuantity, Option.isSome_iff_ne_none, ne_eq,
    List.argmin_eq_none, List.filter_eq_nil_iff]
  push Not
  simp only [decide_eq_true_eq]

theorem mem_purchaseableLines {id : Uuid} :
    id ∈ purchaseableLines casefold bomRows key ↔ ∃ line ∈ bomRows, line.projectEntryId = id ∧
      ∃ offer ∈ line.offers, casefold offer.distributor = key ∧
        coverageSelectedQty line.shortBy offer.moq ≤ offer.stock := by
  simp only [purchaseableLines, List.mem_toFinset, List.mem_map, List.mem_filter,
    bestPurchaseableOffer_isSome]
  constructor
  · rintro ⟨line, ⟨hline, hoffer⟩, hid⟩
    exact ⟨line, hline, hid, hoffer⟩
  · rintro ⟨line, hline, hid, hoffer⟩
    exact ⟨line, ⟨hline, hoffer⟩, hid⟩

theorem purchaseableLines_absent (h : key ∉ Dict.keys (offersByDistributor casefold bomRows)) :
    purchaseableLines casefold bomRows key = ∅ := by
  apply Finset.eq_empty_of_forall_notMem
  intro id hid
  obtain ⟨line, hline, _, offer, hoffer, hkey, _⟩ := mem_purchaseableLines.mp hid
  exact h (mem_distributors.mpr ⟨line, hline, offer, hoffer, hkey⟩)

variable (casefold bomRows) in
theorem distributors_nodup : (Dict.keys (offersByDistributor casefold bomRows)).Nodup :=
  Dict.nodup_keys_collect (d := []) List.nodup_nil _

theorem find_purchaseable (key : String) :
    (Dict.find key (purchaseableByDistributor casefold bomRows)).getD ∅ =
      purchaseableLines casefold bomRows key := by
  have hkeys : Dict.keys (purchaseableByDistributor casefold bomRows) =
      Dict.keys (offersByDistributor casefold bomRows) := by
    unfold purchaseableByDistributor
    rw [Dict.keys, List.map_map]
    exact List.map_id _
  by_cases hkey : key ∈ Dict.keys (offersByDistributor casefold bomRows)
  · have hmem : (key, purchaseableLines casefold bomRows key) ∈
        purchaseableByDistributor casefold bomRows := List.mem_map.mpr ⟨key, hkey, rfl⟩
    have hnodup := hkeys ▸ distributors_nodup casefold bomRows
    rw [(Dict.mem_iff_find hnodup).mp hmem, Option.getD_some]
  · rw [Dict.find_eq_none.mpr (hkeys ▸ hkey), Option.getD_none, purchaseableLines_absent hkey]

theorem comboCovered_eq (combo : List String) :
    comboCovered combo (purchaseableByDistributor casefold bomRows) =
      covered (purchaseableLines casefold bomRows) combo := by
  have hfold : ∀ start : Finset Uuid, combo.foldl (fun covered key => covered ∪
      (Dict.find key (purchaseableByDistributor casefold bomRows)).getD ∅) start =
        start ∪ covered (purchaseableLines casefold bomRows) combo := by
    induction combo with
    | nil => simp
    | cons key combo ih =>
      intro start
      rw [List.foldl_cons, ih, find_purchaseable, covered_cons, Finset.union_assoc]
  rw [comboCovered, hfold, Finset.empty_union]

theorem coverableLines_eq :
    coverableLines (purchaseableByDistributor casefold bomRows) =
      covered (purchaseableLines casefold bomRows)
        (Dict.keys (offersByDistributor casefold bomRows)) := by
  have hfold : ∀ (keys : List String) (start : Finset Uuid),
      (keys.map fun key => (key, purchaseableLines casefold bomRows key)).foldl
        (fun covered item => covered ∪ item.2) start =
        start ∪ covered (purchaseableLines casefold bomRows) keys := by
    intro keys
    induction keys with
    | nil => simp
    | cons key keys ih =>
      intro start
      rw [List.map_cons, List.foldl_cons, ih, covered_cons, Finset.union_assoc]
  rw [coverableLines, purchaseableByDistributor, hfold, Finset.empty_union]

theorem rowsByKey_name {rows : List DistributorCoverageRow}
    (hnodup : (rows.map fun row => casefold row.distributor).Nodup)
    (hkey : key ∈ rows.map fun row => casefold row.distributor) :
    casefold (nameOf (rows.foldl (fun d row => Dict.put (casefold row.distributor) row d) [])
      key) = key := by
  obtain ⟨row, hrow, rfl⟩ := List.mem_map.mp hkey
  rw [Dict.foldl_put_of_nodup (fun row : DistributorCoverageRow => casefold row.distributor)
    (fun row => row) hnodup]
  have hkeys : (Dict.keys (rows.map fun row => (casefold row.distributor, row))).Nodup := by
    rw [Dict.keys, List.map_map]
    exact hnodup
  have hmem : (casefold row.distributor, row) ∈
      rows.map fun row => (casefold row.distributor, row) := List.mem_map_of_mem hrow
  rw [nameOf, (Dict.mem_iff_find hkeys).mp hmem]
  rfl

variable (casefold bomRows) in
theorem coverageRows_keys (ranks : List (String × ℕ)) :
    ((((Dict.keys (offersByDistributor casefold bomRows)).map
      (coverageRow casefold bomRows)).insertionSort fun a b =>
        singleSortKey casefold ranks a ≤ singleSortKey casefold ranks b).map
          fun row => casefold row.distributor).Perm
      (Dict.keys (offersByDistributor casefold bomRows)) := by
  have hnames : (Dict.keys (offersByDistributor casefold bomRows)).map
      (fun key => casefold (coverageRow casefold bomRows key).distributor) =
      Dict.keys (offersByDistributor casefold bomRows) := by
    apply (List.map_congr_left _).trans (List.map_id _)
    intro key hkey
    obtain ⟨line, hline, offer, hoffer, heq⟩ := mem_distributors.mp hkey
    obtain ⟨name, hname, hcase⟩ := Dict.find_firstName
      (fun offer : SourcingBomOfferOut => offer.distributor) casefold (bomRows.flatMap (·.offers))
      ⟨offer, List.mem_flatMap.mpr ⟨line, hline, hoffer⟩, heq⟩
    rw [coverageRow, displayNames, hname, Option.getD_some, hcase]
    rfl
  have hperm := (List.perm_insertionSort (fun a b => singleSortKey casefold ranks a ≤
    singleSortKey casefold ranks b) ((Dict.keys (offersByDistributor casefold bomRows)).map
      (coverageRow casefold bomRows))).map fun row => casefold row.distributor
  rw [List.map_map] at hperm
  exact hperm.trans (List.Perm.of_eq hnames)

section Search

variable {rowsByKey : List (String × DistributorCoverageRow)} {targetCount : ℤ}
  {keys : List String}

/-- A set of distributors that is large enough and, of such sets, smallest and then cheapest. -/
structure FewestSet (casefold : String → String) (bomRows : List SourcingBomLineOut)
    (targetCount : ℤ) (combo : List String) : Prop where
  reaches : targetCount ≤ ((covered (purchaseableLines casefold bomRows) combo).card : ℤ)
  fewest : ∀ other : List String,
    targetCount ≤ ((covered (purchaseableLines casefold bomRows) other).card : ℤ) →
      combo.length ≤ other.length
  cheapest : ∀ other : List String,
    targetCount ≤ ((covered (purchaseableLines casefold bomRows) other).card : ℤ) →
      other.length = combo.length → priceSortValue (comboTotalCost casefold combo bomRows) ≤
        priceSortValue (comboTotalCost casefold other bomRows)

theorem covered_known (hkeys : keys.Perm (Dict.keys (offersByDistributor casefold bomRows)))
    (other : List String) :
    covered (purchaseableLines casefold bomRows) (keys.filter fun key => key ∈ other) =
      covered (purchaseableLines casefold bomRows) other := by
  ext id
  rw [mem_covered, mem_covered]
  constructor
  · rintro ⟨key, hkey, hid⟩
    exact ⟨key, by simpa using (List.mem_filter.mp hkey).2, hid⟩
  · rintro ⟨key, hkey, hid⟩
    refine ⟨key, List.mem_filter.mpr ⟨?_, by simpa using hkey⟩, hid⟩
    by_contra habsent
    rw [purchaseableLines_absent fun h => habsent (hkeys.mem_iff.mpr h)] at hid
    cases hid

theorem filter_known_subperm (hnodup : keys.Nodup) (other : List String) :
    (keys.filter fun key => key ∈ other).Subperm other := by
  apply List.Nodup.subperm (hnodup.filter _)
  intro key hkey
  simpa using (List.mem_filter.mp hkey).2

/-- The exhaustive search returns a smallest set that covers enough rows. -/
theorem fewestExhaustiveCombo_fewest
    (hkeys : keys.Perm (Dict.keys (offersByDistributor casefold bomRows)))
    (hpos : 0 < targetCount)
    (hreach : targetCount ≤
      ((coverableLines (purchaseableByDistributor casefold bomRows)).card : ℤ)) :
    FewestSet casefold bomRows targetCount (fewestExhaustiveCombo casefold bomRows
      (purchaseableByDistributor casefold bomRows) rowsByKey targetCount keys) ∧
    (fewestExhaustiveCombo casefold bomRows
      (purchaseableByDistributor casefold bomRows) rowsByKey targetCount keys).Sublist keys := by
  have hnodup : keys.Nodup := hkeys.nodup_iff.mpr (distributors_nodup casefold bomRows)
  -- A set that is large enough is among the combinations of its size.
  have hmatching : ∀ other : List String,
      targetCount ≤ ((covered (purchaseableLines casefold bomRows) other).card : ℤ) →
      (keys.filter fun key => key ∈ other) ∈ (combinations
        (keys.filter fun key => key ∈ other).length keys).filter fun combo => targetCount ≤
          ((comboCovered combo (purchaseableByDistributor casefold bomRows)).card : ℤ) := by
    intro other hother
    apply List.mem_filter.mpr
    refine ⟨mem_combinations.mpr ⟨List.filter_sublist, rfl⟩, ?_⟩
    rw [decide_eq_true_eq, comboCovered_eq, covered_known hkeys]
    exact hother
  have hsize : ∀ other : List String,
      targetCount ≤ ((covered (purchaseableLines casefold bomRows) other).card : ℤ) →
      1 ≤ (keys.filter fun key => key ∈ other).length := by
    intro other hother
    by_contra hzero
    have hnil : (keys.filter fun key => key ∈ other) = [] := List.length_eq_zero_iff.mp (by omega)
    rw [← covered_known hkeys, hnil, covered_nil, Finset.card_empty] at hother
    exact absurd hother (not_le.mpr hpos)
  have hall : targetCount ≤ ((covered (purchaseableLines casefold bomRows) keys).card : ℤ) := by
    rw [coverableLines_eq] at hreach
    apply hreach.trans
    exact_mod_cast Finset.card_le_card
      (covered_subset _ fun key hkey => hkeys.mem_iff.mpr hkey)
  have hsome : ∃ combo, (List.range' 1 keys.length).findSome? (fun size =>
      ((combinations size keys).filter fun combo => targetCount ≤
        ((comboCovered combo (purchaseableByDistributor casefold bomRows)).card : ℤ)).argmin
          (comboSortKey casefold bomRows rowsByKey)) = some combo := by
    rw [← Option.ne_none_iff_exists']
    intro hnone
    have hlen := hsize keys hall
    have hle : (keys.filter fun key => key ∈ keys).length ≤ keys.length := List.length_filter_le ..
    have hin : (keys.filter fun key => key ∈ keys).length ∈ List.range' 1 keys.length := by
      rw [List.mem_range'_1]
      omega
    have hempty := List.argmin_eq_none.mp (List.findSome?_eq_none_iff.mp hnone _ hin)
    have hmem := hmatching keys hall
    rw [hempty] at hmem
    cases hmem
  obtain ⟨combo, hcombo⟩ := hsome
  obtain ⟨size, hbest, hless⟩ := findSome?_range' hcombo
  obtain ⟨hmem, hmin⟩ := FirstMin.argmin_spec hbest
  obtain ⟨hin, hreaches⟩ := List.mem_filter.mp hmem
  obtain ⟨hsub, hlen⟩ := mem_combinations.mp hin
  rw [decide_eq_true_eq, comboCovered_eq] at hreaches
  have hfewest : ∀ other : List String,
      targetCount ≤ ((covered (purchaseableLines casefold bomRows) other).card : ℤ) →
      combo.length ≤ (keys.filter fun key => key ∈ other).length := by
    intro other hother
    by_contra hshort
    have hempty := List.argmin_eq_none.mp (hless _ (hsize other hother) (by omega))
    have hmem := hmatching other hother
    rw [hempty] at hmem
    cases hmem
  have heq : fewestExhaustiveCombo casefold bomRows (purchaseableByDistributor casefold bomRows)
      rowsByKey targetCount keys = combo := by
    rw [fewestExhaustiveCombo, hcombo]
    rfl
  rw [heq]
  refine ⟨⟨hreaches, ?_, ?_⟩, hsub⟩
  · intro other hother
    exact (hfewest other hother).trans (filter_known_subperm hnodup other).length_le
  · intro other hother hsame
    have hperm : (keys.filter fun key => key ∈ other).Perm other := by
      apply (filter_known_subperm hnodup other).perm_of_length_le
      rw [hsame]
      exact hfewest other hother
    have hkey := hmatching other hother
    rw [hperm.length_eq, hsame, hlen] at hkey
    have hle := Prod.Lex.toLex_le_toLex.mp (hmin _ hkey)
    rw [← comboTotalCost_perm hperm]
    rcases hle with hlt | ⟨hprice, _⟩
    · exact hlt.le
    · exact hprice.le

variable (rowsByKey) in
theorem greedy_next (hkeys : keys.Perm (Dict.keys (offersByDistributor casefold bomRows)))
    (huncovered : uncovered = coverableLines (purchaseableByDistributor casefold bomRows) \
      covered (purchaseableLines casefold bomRows) selected)
    (hshort : (covered (purchaseableLines casefold bomRows) selected).card <
      (coverableLines (purchaseableByDistributor casefold bomRows)).card) :
    ∃ nextKey, (keys.filter fun key => key ∉ selected).argmin (greedyKey casefold bomRows
        (purchaseableByDistributor casefold bomRows) rowsByKey selected uncovered) = some nextKey ∧
      (∀ j, (purchaseableLines casefold bomRows j ∩ uncovered).card ≤
        (purchaseableLines casefold bomRows nextKey ∩ uncovered).card) ∧
      (purchaseableLines casefold bomRows nextKey ∩ uncovered).Nonempty := by
  obtain ⟨id, hid, hnew⟩ := Finset.exists_mem_notMem_of_card_lt_card hshort
  rw [coverableLines_eq, mem_covered] at hid
  obtain ⟨key, hkey, hcovers⟩ := hid
  have hleft : id ∈ purchaseableLines casefold bomRows key ∩ uncovered := by
    rw [huncovered, coverableLines_eq, Finset.mem_inter, Finset.mem_sdiff, mem_covered]
    exact ⟨hcovers, ⟨key, hkey, hcovers⟩, hnew⟩
  have hfree : key ∈ keys.filter fun key => key ∉ selected := by
    apply List.mem_filter.mpr
    refine ⟨hkeys.mem_iff.mpr hkey, decide_eq_true fun hin => ?_⟩
    exact hnew ((mem_covered _).mpr ⟨key, hin, hcovers⟩)
  obtain ⟨nextKey, hnext⟩ := FirstMin.exists_argmin (f := greedyKey casefold bomRows
    (purchaseableByDistributor casefold bomRows) rowsByKey selected uncovered)
    (List.ne_nil_of_mem hfree)
  have hmost : ∀ j ∈ keys.filter fun key => key ∉ selected,
      (purchaseableLines casefold bomRows j ∩ uncovered).card ≤
        (purchaseableLines casefold bomRows nextKey ∩ uncovered).card := by
    intro j hj
    have hle := Prod.Lex.toLex_le_toLex.mp ((FirstMin.argmin_spec hnext).2 j hj)
    simp only [find_purchaseable] at hle
    omega
  have hpos : 0 < (purchaseableLines casefold bomRows nextKey ∩ uncovered).card :=
    (Finset.card_pos.mpr ⟨id, hleft⟩).trans_le (hmost key hfree)
  refine ⟨nextKey, hnext, ?_, Finset.card_pos.mp hpos⟩
  intro j
  by_cases hj : j ∈ keys.filter fun key => key ∉ selected
  · exact hmost j hj
  · -- Nothing is left of a distributor that is taken or unknown.
    have hnone : purchaseableLines casefold bomRows j ∩ uncovered = ∅ := by
      by_cases hin : j ∈ selected
      · rw [huncovered, ← Finset.inter_sdiff_assoc, Finset.sdiff_eq_empty_iff_subset]
        intro x hx
        exact (mem_covered _).mpr ⟨j, hin, (Finset.mem_inter.mp hx).1⟩
      · have habsent : j ∉ keys := fun hmem => hj (List.mem_filter.mpr ⟨hmem, decide_eq_true hin⟩)
        rw [purchaseableLines_absent fun h => habsent (hkeys.mem_iff.mpr h), Finset.empty_inter]
    rw [hnone, Finset.card_empty]
    exact Nat.zero_le _

variable (rowsByKey) in
/-- The greedy loop is a run that always takes a distributor of most rows that remain. -/
theorem greedyLoop_run (hkeys : keys.Perm (Dict.keys (offersByDistributor casefold bomRows)))
    (hreach : targetCount ≤
      ((coverableLines (purchaseableByDistributor casefold bomRows)).card : ℤ))
    {turns : ℕ} (hnodup : selected.Nodup)
    (hknown : ∀ key ∈ selected, key ∈ keys) (hturns : keys.length < turns + selected.length)
    (huncovered : uncovered = coverableLines (purchaseableByDistributor casefold bomRows) \
      covered (purchaseableLines casefold bomRows) selected) :
    ∃ rest after, greedyLoop casefold bomRows (purchaseableByDistributor casefold bomRows)
        rowsByKey targetCount keys turns selected uncovered = selected ++ rest ∧
      Run (purchaseableLines casefold bomRows) uncovered rest after ∧
      (selected ++ rest).Nodup ∧ (∀ key ∈ selected ++ rest, key ∈ keys) ∧
      targetCount ≤
        ((covered (purchaseableLines casefold bomRows) (selected ++ rest)).card : ℤ) := by
  induction turns generalizing selected uncovered with
  | zero =>
    have hle := (hnodup.subperm hknown).length_le
    omega
  | succ turns ih =>
    unfold greedyLoop
    rw [comboCovered_eq]
    split
    next hshort =>
      have hless := hshort.trans_le hreach
      obtain ⟨nextKey, hnext, hmost, hsome⟩ := greedy_next rowsByKey hkeys huncovered
        (by exact_mod_cast hless)
      obtain ⟨hmem, _⟩ := FirstMin.argmin_spec hnext
      obtain ⟨hkey, hfree⟩ := List.mem_filter.mp hmem
      have hnew : nextKey ∉ selected := of_decide_eq_true hfree
      rw [hnext]
      simp only [find_purchaseable]
      rw [if_neg hsome.ne_empty]
      have hleft : uncovered \ purchaseableLines casefold bomRows nextKey =
          coverableLines (purchaseableByDistributor casefold bomRows) \
            covered (purchaseableLines casefold bomRows) (selected ++ [nextKey]) := by
        rw [huncovered, covered_append, covered_cons, covered_nil, Finset.union_empty,
          sdiff_sdiff_left, Finset.sup_eq_union]
      have hnodup' : (selected ++ [nextKey]).Nodup :=
        List.nodup_append_comm.mp (List.nodup_cons.mpr ⟨hnew, hnodup⟩)
      have hknown' : ∀ key ∈ selected ++ [nextKey], key ∈ keys := by
        intro key hin
        rcases List.mem_append.mp hin with hin | hin
        · exact hknown key hin
        · exact List.mem_singleton.mp hin ▸ hkey
      have hturns' : keys.length < turns + (selected ++ [nextKey]).length := by
        rw [List.length_append, List.length_singleton]
        omega
      obtain ⟨rest, after, heq, hrun, hrest⟩ := ih hnodup' hknown' hturns' hleft
      refine ⟨nextKey :: rest, after, ?_, .take hmost hsome hrun, ?_⟩
      · rw [heq, List.append_assoc, List.singleton_append]
      · rw [List.append_assoc, List.singleton_append] at hrest
        exact hrest
    next hfull =>
      refine ⟨[], uncovered, (List.append_nil _).symm, .stop _, ?_⟩
      rw [List.append_nil]
      exact ⟨hnodup, hknown, not_lt.mp hfull⟩

/-- The greedy set: large enough, in an order in which each distributor adds a line. -/
structure GreedySet (casefold : String → String) (bomRows : List SourcingBomLineOut)
    (targetCount : ℤ) (combo : List String) : Prop where
  reaches : targetCount ≤ ((covered (purchaseableLines casefold bomRows) combo).card : ℤ)
  adds : ∃ picked : List String, picked.Perm combo ∧
    ∀ before key after, picked = before ++ key :: after →
      ∃ id ∈ purchaseableLines casefold bomRows key,
        id ∉ covered (purchaseableLines casefold bomRows) before

theorem fewestGreedyCombo_greedy
    (hkeys : keys.Perm (Dict.keys (offersByDistributor casefold bomRows)))
    (hreach : targetCount ≤
      ((coverableLines (purchaseableByDistributor casefold bomRows)).card : ℤ)) :
    GreedySet casefold bomRows targetCount (fewestGreedyCombo casefold bomRows
      (purchaseableByDistributor casefold bomRows) rowsByKey targetCount keys) ∧
    (fewestGreedyCombo casefold bomRows (purchaseableByDistributor casefold bomRows) rowsByKey
      targetCount keys).Nodup ∧
    ∀ key ∈ fewestGreedyCombo casefold bomRows (purchaseableByDistributor casefold bomRows)
      rowsByKey targetCount keys, key ∈ keys := by
  have hturns : keys.length < keys.length + 1 + ([] : List String).length := by simp
  obtain ⟨rest, after, heq, hrun, hnodup, hknown, hreaches⟩ := greedyLoop_run rowsByKey hkeys hreach
    List.nodup_nil (fun _ hin => by cases hin) hturns (by rw [covered_nil, Finset.sdiff_empty])
  rw [List.nil_append] at heq hnodup hknown hreaches
  rw [fewestGreedyCombo, heq]
  refine ⟨⟨hreaches, rest, .refl _, ?_⟩, hnodup, hknown⟩
  intro before key after' hsplit
  obtain ⟨id, hid, _, hnew⟩ := hrun.adds hsplit
  exact ⟨id, hid, hnew⟩

end Search

end StockManager
