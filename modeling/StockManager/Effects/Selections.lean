import StockManager.Effects.FewestDistributors

/-! # The selection for a row

What each strategy selects, and what the order of the offers can change of it. -/

namespace StockManager

variable {casefold : String → String} {moqOverbuyCap : Option ℤ} {row row' : SourcingBomLineOut}

theorem selectionOf_settled {found : Option Candidate}
    (h : ∀ c, found = some c → c ∈ candidates casefold moqOverbuyCap row) :
    RowSettled casefold moqOverbuyCap row (selectionOf row found) := by
  cases found with
  | none => exact .inl rfl
  | some c => exact .inr ⟨c, h c rfl, rfl⟩

variable (casefold moqOverbuyCap row) in
theorem argmin_settled {ω : Type} [LinearOrder ω] (key : Candidate → ω) :
    RowSettled casefold moqOverbuyCap row
        (selectionOf row ((candidates casefold moqOverbuyCap row).argmin key)) ∧
      ((selectionOf row ((candidates casefold moqOverbuyCap row).argmin key)).selectedDistributor =
        none → candidates casefold moqOverbuyCap row = []) := by
  refine ⟨selectionOf_settled fun c hc => (FirstMin.argmin_spec hc).1, ?_⟩
  cases hmin : (candidates casefold moqOverbuyCap row).argmin key with
  | none => exact fun _ => List.argmin_eq_none.mp hmin
  | some c =>
    intro hnull
    cases hnull

variable (casefold moqOverbuyCap row) in
theorem selectPreferredFirst_settled (ranks : List (String × ℕ)) (priceTolerancePct : Decimal) :
    RowSettled casefold moqOverbuyCap row
        (selectPreferredFirst casefold ranks moqOverbuyCap priceTolerancePct row) ∧
      ((selectPreferredFirst casefold ranks moqOverbuyCap priceTolerancePct
        row).selectedDistributor = none → candidates casefold moqOverbuyCap row = []) := by
  simp only [selectPreferredFirst]
  split
  next hnone => exact ⟨.inl rfl, fun _ => List.argmin_eq_none.mp hnone⟩
  next cheapest hcheapest =>
    split
    next c hc =>
      have hmem := List.mem_of_mem_filter (FirstMin.argmin_spec hc).1
      refine ⟨.inr ⟨c, hmem, rfl⟩, ?_⟩
      intro hnull
      cases hnull
    next =>
      refine ⟨.inr ⟨cheapest, (FirstMin.argmin_spec hcheapest).1, rfl⟩, ?_⟩
      intro hnull
      cases hnull

theorem unfilledSelection_same (h : SameRow row row') :
    unfilledSelection row' = unfilledSelection row := by
  rw [← h.fields]
  rfl

def Candidate.forRow (c : Candidate) (row : SourcingBomLineOut) : Candidate :=
  { c with line := row }

theorem mem_candidates_forRow (h : SameRow row row') {c : Candidate}
    (hc : c ∈ candidates casefold moqOverbuyCap row') :
    c.forRow row ∈ candidates casefold moqOverbuyCap row := by
  have hshort : row'.shortBy = row.shortBy := by rw [← h.fields]
  obtain ⟨hone, _, hp, hcost⟩ := mem_candidates.mp hc
  refine mem_candidates.mpr ⟨?_, rfl, ⟨?_, ?_, ?_, hp.inStock, hp.priced⟩, hcost⟩
  · omega
  · exact h.offers.mem_iff.mpr hp.inRow
  · rw [← hshort]
    exact hp.qty_eq
  · intro cap hcap
    rw [← hshort]
    exact hp.inCap cap hcap

theorem selectionFromCandidate_forRow (h : SameRow row row') {c : Candidate}
    (hc : c ∈ candidates casefold moqOverbuyCap row') :
    selectionFromCandidate (c.forRow row) = selectionFromCandidate c := by
  have hline : c.line = row' := (mem_candidates.mp hc).2.1
  have hrow : c.line = { row with offers := row'.offers } := by rw [h.fields, hline]
  simp only [selectionFromCandidate, Candidate.forRow, hrow]

section Alike

variable {ω : Type} [LinearOrder ω] (key : Candidate → ω)
  (keyOf : Uuid × SourcingBomOfferOut × ℤ × Decimal × Decimal → ω)

theorem argmin_alike (hkey : ∀ c, key c = keyOf c.terms) (found found' : List Candidate)
    (h : (found.map Candidate.terms).Perm (found'.map Candidate.terms)) :
    (found.argmin key = none ∧ found'.argmin key = none) ∨
      ∃ c ∈ found, ∃ c' ∈ found', found.argmin key = some c ∧ found'.argmin key = some c' ∧
        key c = key c' := by
  have hmap : ∀ found : List Candidate, found.map key = (found.map Candidate.terms).map keyOf := by
    intro found
    rw [List.map_map]
    exact List.map_congr_left fun c _ => hkey c
  have hperm : (found.map key).Perm (found'.map key) := by
    rw [hmap, hmap]
    exact h.map keyOf
  have hleast := FirstMin.map_argmin_perm hperm
  cases hmin : found.argmin key with
  | none =>
    rw [hmin, Option.map_none] at hleast
    exact .inl ⟨rfl, Option.map_eq_none_iff.mp hleast.symm⟩
  | some c =>
    rw [hmin, Option.map_some] at hleast
    obtain ⟨c', hmin', htie⟩ := Option.map_eq_some_iff.mp hleast.symm
    exact .inr ⟨c, (FirstMin.argmin_spec hmin).1, c', (FirstMin.argmin_spec hmin').1, rfl, hmin',
      htie.symm⟩

/-- The order of the offers changes a selection only between candidates of one key. -/
theorem select_alike (hkey : ∀ c, key c = keyOf c.terms) (h : SameRow row row')
    {rows : List SourcingBomLineOut} (hrow : row ∈ rows) :
    TiedSelections casefold moqOverbuyCap (fun c c' => key c = key c') rows
      (selectionOf row ((candidates casefold moqOverbuyCap row).argmin key))
      (selectionOf row' ((candidates casefold moqOverbuyCap row').argmin key)) := by
  refine ⟨row, hrow, row', h, ?_⟩
  rcases argmin_alike key keyOf hkey _ _
    (candidates_terms_perm casefold moqOverbuyCap h) with ⟨hnone, hnone'⟩ | ⟨c, hc, c', hc', hmin, hmin', htie⟩
  · rw [hnone, hnone']
    exact .inl ⟨rfl, rfl⟩
  · rw [hmin, hmin']
    exact .inr ⟨c, hc, c', hc', htie, rfl, rfl⟩

end Alike

/-- Tied under `preferred_first`: equal in the key of the preferred candidates
and, unless the distributor is a preferred one, in the key of the cheapest. -/
def PreferredTied (casefold : String → String) (ranks : List (String × ℕ)) (c c' : Candidate) :
    Prop :=
  preferredKey casefold ranks c = preferredKey casefold ranks c' ∧
    (casefold c.offer.distributor ∈ Dict.keys ranks ∨
      lowestUnitPriceKey casefold c = lowestUnitPriceKey casefold c')

theorem preferredKey_of_unitPriceKey (ranks : List (String × ℕ)) {c c' : Candidate}
    (h : lowestUnitPriceKey casefold c = lowestUnitPriceKey casefold c') :
    preferredKey casefold ranks c = preferredKey casefold ranks c' := by
  unfold lowestUnitPriceKey at h
  have hprice : c.unitPrice = c'.unitPrice := congrArg (fun t => (ofLex t).1) h
  have halpha : alphaKey casefold c.offer = alphaKey casefold c'.offer :=
    congrArg (fun t => (ofLex (ofLex t).2).2) h
  have hname : casefold c.offer.distributor = casefold c'.offer.distributor :=
    congrArg (fun t => (ofLex t).1) halpha
  simp only [preferredKey, hprice, halpha, hname]

theorem selectPreferredFirst_alike (ranks : List (String × ℕ)) (priceTolerancePct : Decimal)
    (h : SameRow row row') {rows : List SourcingBomLineOut} (hrow : row ∈ rows) :
    TiedSelections casefold moqOverbuyCap (PreferredTied casefold ranks) rows
      (selectPreferredFirst casefold ranks moqOverbuyCap priceTolerancePct row)
      (selectPreferredFirst casefold ranks moqOverbuyCap priceTolerancePct row') := by
  refine ⟨row, hrow, row', h, ?_⟩
  have hfound := candidates_terms_perm casefold moqOverbuyCap h
  simp only [selectPreferredFirst]
  generalize hl : candidates casefold moqOverbuyCap row = found at hfound ⊢
  generalize hr : candidates casefold moqOverbuyCap row' = found' at hfound ⊢
  rcases argmin_alike (lowestUnitPriceKey casefold)
    (fun t => toLex (t.2.2.2.1, toLex (t.2.2.2.2, alphaKey casefold t.2.1))) (fun _ => rfl) _ _
      hfound
    with ⟨hnone, hnone'⟩ | ⟨c, hc, c', hc', hmin, hmin', htie⟩
  · rw [hnone, hnone']
    exact .inl ⟨rfl, rfl⟩
  · rw [hmin, hmin']
    have hprice : c.unitPrice = c'.unitPrice := congrArg (fun t => (ofLex t).1) htie
    have hfilter : ∀ found : List Candidate,
        (found.filter fun x => casefold x.offer.distributor ∈ Dict.keys ranks ∧
          withinTolerance x.unitPrice c'.unitPrice (priceTolerancePct / 100) = true).map
            Candidate.terms =
        (found.map Candidate.terms).filter fun t => casefold t.2.1.distributor ∈ Dict.keys ranks ∧
          withinTolerance t.2.2.2.1 c'.unitPrice (priceTolerancePct / 100) = true := by
      intro found
      rw [List.filter_map]
      rfl
    dsimp only
    rw [hprice]
    rcases argmin_alike (preferredKey casefold ranks)
      (fun t => toLex ((Dict.find (casefold t.2.1.distributor) ranks).getD 0,
        toLex (t.2.2.2.1, alphaKey casefold t.2.1))) (fun _ => rfl)
      (found.filter fun x => casefold x.offer.distributor ∈ Dict.keys ranks ∧
          withinTolerance x.unitPrice c'.unitPrice (priceTolerancePct / 100) = true)
      (found'.filter fun x => casefold x.offer.distributor ∈ Dict.keys ranks ∧
          withinTolerance x.unitPrice c'.unitPrice (priceTolerancePct / 100) = true)
      (by rw [hfilter, hfilter]; exact hfound.filter _)
      with ⟨hnone, hnone'⟩ | ⟨p, hp, p', hp', hpmin, hpmin', hptie⟩
    · rw [hnone, hnone']
      exact .inr ⟨c, hc, c', hc', ⟨preferredKey_of_unitPriceKey ranks htie, .inr htie⟩, rfl, rfl⟩
    · rw [hpmin, hpmin']
      obtain ⟨hpin, hranked⟩ := List.mem_filter.mp hp
      have hname := (of_decide_eq_true hranked).1
      exact .inr ⟨p, hpin, p', List.mem_of_mem_filter hp', ⟨hptie, .inl hname⟩, rfl, rfl⟩

end StockManager
