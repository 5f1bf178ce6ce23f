import StockManager.Model.Optimizer

/-! # Prices and candidates

What `best_unit_price_at_qty` and `_candidates` return, as properties of the
offers. -/

namespace StockManager

variable {qty : ℤ} {priceBreaks : List PriceBreak} {offer : SourcingBomOfferOut} {c : Candidate}

/-- The break that applies at a quantity: the largest not above it or, below all
of them, the smallest. -/
def Applies (priceBreaks : List PriceBreak) (qty : ℤ) (b : PriceBreak) : Prop :=
  b ∈ priceBreaks ∧ 1 ≤ b.quantity ∧
    ((b.quantity ≤ qty ∧
      ∀ b' ∈ priceBreaks, 1 ≤ b'.quantity → b'.quantity ≤ qty → b'.quantity ≤ b.quantity) ∨
    ∀ b' ∈ priceBreaks, 1 ≤ b'.quantity → qty < b'.quantity ∧ b.quantity ≤ b'.quantity)

theorem getLast?_takeWhile_le {breaks : List PriceBreak}
    (hsorted : breaks.Pairwise fun a b => a.quantity ≤ b.quantity) {b : PriceBreak}
    (h : (breaks.takeWhile fun x => x.quantity ≤ qty).getLast? = some b) :
    b ∈ breaks ∧ b.quantity ≤ qty ∧ ∀ x ∈ breaks, x.quantity ≤ qty → x.quantity ≤ b.quantity := by
  induction breaks with
  | nil => simp at h
  | cons first rest ih =>
    have hcons := List.pairwise_cons.mp hsorted
    by_cases hfirst : first.quantity ≤ qty
    · rw [List.takeWhile_cons_of_pos (by simpa using hfirst)] at h
      cases hlast : (rest.takeWhile fun x => x.quantity ≤ qty).getLast? with
      | none =>
        -- No later break is reached: the first is the one.
        have hnil : rest.takeWhile (fun x => x.quantity ≤ qty) = [] :=
          List.getLast?_eq_none_iff.mp hlast
        rw [hnil] at h
        have hb : first = b := by simpa using h
        subst hb
        refine ⟨List.mem_cons_self .., hfirst, ?_⟩
        intro x hx hle
        rcases List.mem_cons.mp hx with rfl | hx
        · exact le_rfl
        · cases rest with
          | nil => cases hx
          | cons y rest =>
            have hy : ¬ y.quantity ≤ qty := by
              intro hyle
              rw [List.takeWhile_cons_of_pos (by simpa using hyle)] at hnil
              cases hnil
            have hyx : y.quantity ≤ x.quantity := by
              rcases List.mem_cons.mp hx with rfl | hx
              · exact le_rfl
              · exact (List.pairwise_cons.mp hcons.2).1 x hx
            omega
      | some b' =>
        have hb : b' = b := by
          rw [List.getLast?_cons, hlast] at h
          simpa using h
        subst hb
        obtain ⟨hmem, hle, hmax⟩ := ih hcons.2 hlast
        refine ⟨List.mem_cons_of_mem _ hmem, hle, ?_⟩
        intro x hx hxle
        rcases List.mem_cons.mp hx with rfl | hx
        · exact hcons.1 b' hmem
        · exact hmax x hx hxle
    · rw [List.takeWhile_cons_of_neg (by simpa using hfirst)] at h
      cases h

theorem bestUnitPriceAtQty_applies
    {best : Decimal × ℤ} (h : bestUnitPriceAtQty priceBreaks qty = some best) :
    ∃ b, Applies priceBreaks qty b ∧ best = (b.unitPrice, b.quantity) := by
  unfold bestUnitPriceAtQty at h
  have hmem : ∀ b, b ∈ (priceBreaks.filter fun b => 1 ≤ b.quantity).insertionSort
      (fun a b => a.quantity ≤ b.quantity) ↔ b ∈ priceBreaks ∧ 1 ≤ b.quantity := by
    intro b
    rw [List.mem_insertionSort, List.mem_filter]
    simp
  have hsorted := List.pairwise_insertionSort (fun a b : PriceBreak => a.quantity ≤ b.quantity)
    (priceBreaks.filter fun b => 1 ≤ b.quantity)
  generalize (priceBreaks.filter fun b => 1 ≤ b.quantity).insertionSort
    (fun a b => a.quantity ≤ b.quantity) = breaks at h hmem hsorted
  cases breaks with
  | nil => cases h
  | cons first rest =>
    dsimp only at h
    split at h
    next => cases h
    next hqty =>
      obtain rfl := (Option.some.inj h).symm
      cases hlast : ((first :: rest).takeWhile fun b => b.quantity ≤ qty).getLast? with
      | some b =>
        obtain ⟨hb, hle, hmax⟩ := getLast?_takeWhile_le hsorted hlast
        have hb' := (hmem b).mp hb
        refine ⟨b, ⟨hb'.1, hb'.2, .inl ⟨hle, ?_⟩⟩, rfl⟩
        intro x hx hone hxle
        exact hmax x ((hmem x).mpr ⟨hx, hone⟩) hxle
      | none =>
        have hfirst := (hmem first).mp (List.mem_cons_self ..)
        have hnil := List.getLast?_eq_none_iff.mp hlast
        have habove : ¬ first.quantity ≤ qty := by
          intro hle
          rw [List.takeWhile_cons_of_pos (by simpa using hle)] at hnil
          cases hnil
        refine ⟨first, ⟨hfirst.1, hfirst.2, .inr ?_⟩, rfl⟩
        intro x hx hone
        have hle : first.quantity ≤ x.quantity := by
          rcases List.mem_cons.mp ((hmem x).mpr ⟨hx, hone⟩) with rfl | hrest
          · exact le_rfl
          · exact (List.pairwise_cons.mp hsorted).1 x hrest
        exact ⟨by omega, hle⟩

theorem bestUnitPriceAtQty_none (hqty : 1 ≤ qty)
    (h : bestUnitPriceAtQty priceBreaks qty = none) : ∀ b ∈ priceBreaks, b.quantity < 1 := by
  unfold bestUnitPriceAtQty at h
  have hmem : ∀ b, b ∈ (priceBreaks.filter fun b => 1 ≤ b.quantity).insertionSort
      (fun a b => a.quantity ≤ b.quantity) ↔ b ∈ priceBreaks ∧ 1 ≤ b.quantity := by
    intro b
    rw [List.mem_insertionSort, List.mem_filter]
    simp
  generalize (priceBreaks.filter fun b => 1 ≤ b.quantity).insertionSort
    (fun a b => a.quantity ≤ b.quantity) = breaks at h hmem
  cases breaks with
  | nil =>
    intro b hb
    by_contra hone
    have hin := (hmem b).mpr ⟨hb, by omega⟩
    cases hin
  | cons first rest =>
    dsimp only at h
    rw [if_neg (by omega)] at h
    cases h

/-- The price of an offer at a quantity: the break that applies or, without any
break, the plain unit price. -/
def ApplicablePrice (offer : SourcingBomOfferOut) (qty : ℤ) (price : Decimal) : Prop :=
  (∃ b, Applies offer.priceBreaks qty b ∧ b.unitPrice = price) ∨
    (∀ b ∈ offer.priceBreaks, b.quantity < 1) ∧ offer.unitPrice = some price

theorem unitPrice_applicable {price : Decimal}
    (hqty : 1 ≤ qty) (h : unitPrice offer qty = some price) : ApplicablePrice offer qty price := by
  unfold unitPrice at h
  cases hbest : bestUnitPriceAtQty offer.priceBreaks qty with
  | none =>
    rw [hbest] at h
    exact .inr ⟨bestUnitPriceAtQty_none hqty hbest, h⟩
  | some best =>
    rw [hbest] at h
    obtain ⟨b, hb, rfl⟩ := bestUnitPriceAtQty_applies hbest
    exact .inl ⟨b, hb, Option.some.inj h⟩

/-- An offer of the row that can be bought for its shortage. -/
structure Purchasable (moqOverbuyCap : Option ℤ) (row : SourcingBomLineOut)
    (offer : SourcingBomOfferOut) (qty : ℤ) (price : Decimal) : Prop where
  inRow : offer ∈ row.offers
  qty_eq : qty = selectedQty row.shortBy offer.moq
  inCap : ∀ cap ∈ moqOverbuyCap, qty ≤ row.shortBy * cap
  inStock : qty ≤ offer.stock
  priced : unitPrice offer qty = some price

/-- Some quantity and price make the offer purchasable. -/
def Feasible (moqOverbuyCap : Option ℤ) (row : SourcingBomLineOut) (offer : SourcingBomOfferOut) :
    Prop :=
  ∃ qty price, Purchasable moqOverbuyCap row offer qty price

theorem candidateOf_some {moqOverbuyCap : Option ℤ} {row : SourcingBomLineOut}
    :
    candidateOf moqOverbuyCap row offer = some c ↔ ∃ price,
      unitPrice offer (selectedQty row.shortBy offer.moq) = some price ∧
      (∀ cap ∈ moqOverbuyCap, selectedQty row.shortBy offer.moq ≤ row.shortBy * cap) ∧
      selectedQty row.shortBy offer.moq ≤ offer.stock ∧
      c = ⟨row, offer, selectedQty row.shortBy offer.moq, price,
        price * selectedQty row.shortBy offer.moq⟩ := by
  simp only [candidateOf]
  split
  next hcap =>
    obtain ⟨cap, hmem, hlt⟩ := hcap
    constructor
    · intro h
      cases h
    · rintro ⟨_, _, hle, _⟩
      exact absurd (hle cap hmem) (by omega)
  next hcap =>
    split
    next hstock =>
      constructor
      · intro h
        cases h
      · rintro ⟨_, _, _, hle, _⟩
        omega
    next hstock =>
      have hall : ∀ cap ∈ moqOverbuyCap, selectedQty row.shortBy offer.moq ≤ row.shortBy * cap := by
        intro cap hmem
        by_contra hlt
        exact hcap ⟨cap, hmem, by omega⟩
      rw [Option.map_eq_some_iff]
      constructor
      · rintro ⟨price, hprice, rfl⟩
        exact ⟨price, hprice, hall, by omega, rfl⟩
      · rintro ⟨price, hprice, _, _, rfl⟩
        exact ⟨price, hprice, rfl⟩

variable {casefold : String → String} {moqOverbuyCap : Option ℤ} {row : SourcingBomLineOut}

/-- The candidates of a row are its purchasable offers, priced at the quantity they sell. -/
theorem mem_candidates : c ∈ candidates casefold moqOverbuyCap row ↔
    1 ≤ row.shortBy ∧ c.line = row ∧
      Purchasable moqOverbuyCap row c.offer c.selectedQty c.unitPrice ∧
      c.extendedCost = c.unitPrice * c.selectedQty := by
  unfold candidates
  by_cases hshort : row.shortBy < 1
  · rw [if_pos hshort]
    constructor
    · intro h
      cases h
    · intro h
      omega
  · rw [if_neg hshort, List.mem_insertionSort, List.mem_filterMap]
    constructor
    · rintro ⟨offer, hoffer, hc⟩
      obtain ⟨price, hprice, hcap, hstock, rfl⟩ := candidateOf_some.mp hc
      exact ⟨by omega, rfl, ⟨hoffer, rfl, hcap, hstock, hprice⟩, rfl⟩
    · rintro ⟨_, hline, hp, hcost⟩
      refine ⟨c.offer, hp.inRow, candidateOf_some.mpr ⟨c.unitPrice, ?_⟩⟩
      rw [← hp.qty_eq]
      refine ⟨hp.priced, hp.inCap, hp.inStock, ?_⟩
      rw [← hcost, ← hline]

theorem candidates_eq_nil : candidates casefold moqOverbuyCap row = [] ↔
    row.shortBy < 1 ∨ ∀ offer, ¬ Feasible moqOverbuyCap row offer := by
  constructor
  · intro hnil
    by_cases hshort : row.shortBy < 1
    · exact .inl hshort
    · right
      rintro offer ⟨qty, price, hp⟩
      have hmem : (⟨row, offer, qty, price, price * qty⟩ : Candidate) ∈
          candidates casefold moqOverbuyCap row :=
        mem_candidates.mpr ⟨by omega, rfl, hp, rfl⟩
      rw [hnil] at hmem
      cases hmem
  · intro h
    rw [List.eq_nil_iff_forall_not_mem]
    intro c hc
    obtain ⟨hshort, _, hp, _⟩ := mem_candidates.mp hc
    rcases h with hlt | hnone
    · omega
    · exact hnone c.offer ⟨_, _, hp⟩

def Candidate.terms (c : Candidate) : Uuid × SourcingBomOfferOut × ℤ × Decimal × Decimal :=
  (c.line.projectEntryId, c.offer, c.selectedQty, c.unitPrice, c.extendedCost)

/-- The same row up to the order of its offers. -/
structure SameRow (row row' : SourcingBomLineOut) : Prop where
  fields : { row with offers := row'.offers } = row'
  offers : row.offers.Perm row'.offers

theorem candidateOf_terms {row row' : SourcingBomLineOut} (h : SameRow row row')
    (offer : SourcingBomOfferOut) :
    (candidateOf moqOverbuyCap row offer).map Candidate.terms =
      (candidateOf moqOverbuyCap row' offer).map Candidate.terms := by
  have hshort : row'.shortBy = row.shortBy := by rw [← h.fields]
  have hid : row'.projectEntryId = row.projectEntryId := by rw [← h.fields]
  simp only [candidateOf, hshort]
  split
  next => rfl
  next =>
    split
    next => rfl
    next =>
      rw [Option.map_map, Option.map_map]
      congr 1
      funext price
      simp [Candidate.terms, hid]

variable (casefold moqOverbuyCap) in
theorem candidates_terms_perm {row row' : SourcingBomLineOut} (h : SameRow row row') :
    ((candidates casefold moqOverbuyCap row).map Candidate.terms).Perm
      ((candidates casefold moqOverbuyCap row').map Candidate.terms) := by
  have hshort : row'.shortBy = row.shortBy := by rw [← h.fields]
  unfold candidates
  rw [hshort]
  split
  next => exact List.Perm.refl _
  next =>
    have hleft := ((row.offers.filterMap (candidateOf moqOverbuyCap row)).perm_insertionSort
      fun a b => alphaKey casefold a.offer ≤ alphaKey casefold b.offer).map Candidate.terms
    have hright := ((row'.offers.filterMap (candidateOf moqOverbuyCap row')).perm_insertionSort
      fun a b => alphaKey casefold a.offer ≤ alphaKey casefold b.offer).map Candidate.terms
    have hmiddle : ((row.offers.filterMap (candidateOf moqOverbuyCap row)).map
        Candidate.terms).Perm
        ((row'.offers.filterMap (candidateOf moqOverbuyCap row')).map Candidate.terms) := by
      rw [List.map_filterMap, List.map_filterMap]
      have hfun : (fun offer => (candidateOf moqOverbuyCap row offer).map Candidate.terms) =
          fun offer => (candidateOf moqOverbuyCap row' offer).map Candidate.terms :=
        funext (candidateOf_terms h)
      rw [hfun]
      exact h.offers.filterMap _
    exact hleft.trans (hmiddle.trans hright.symm)

end StockManager
