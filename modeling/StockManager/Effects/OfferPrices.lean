import StockManager.Model.SourcingBom

/-! # Prices of sourced offers before and after conversion -/

namespace StockManager

open DecimalContext (toPlaces roundHalfUp quantize_eq_some)

variable {py : Upper} {casefold : String → String} {qty : ℤ} {offer shown : SourcingBomOfferOut}
variable {price : Decimal} {distributor : SourcingDistributor}
  {item : SourcingBomOfferOut × FxStatus} {prices : List (Option Decimal)}
  {offers : List SourcingBomOfferOut}

def PriceBreak.reprice (f : Decimal → Decimal) (b : PriceBreak) : PriceBreak := ⟨b.quantity, f b.unitPrice⟩

theorem bestUnitPriceAtQty_map (f : Decimal → Decimal) (priceBreaks : List PriceBreak) (qty : ℤ) :
    bestUnitPriceAtQty (priceBreaks.map (PriceBreak.reprice f)) qty =
      (bestUnitPriceAtQty priceBreaks qty).map fun best => (f best.1, best.2) := by
  have hsort : ((priceBreaks.map (PriceBreak.reprice f)).filter fun b => 1 ≤ b.quantity).insertionSort
        (fun a b => a.quantity ≤ b.quantity) =
      ((priceBreaks.filter fun b => 1 ≤ b.quantity).insertionSort fun a b => a.quantity ≤ b.quantity).map
        (PriceBreak.reprice f) := by
    have hmap := List.map_insertionSort (fun a b : PriceBreak => a.quantity ≤ b.quantity)
      (fun a b => a.quantity ≤ b.quantity) (PriceBreak.reprice f)
      (priceBreaks.filter fun b => 1 ≤ b.quantity) fun _ _ _ _ => Iff.rfl
    rw [hmap, List.filter_map]
    rfl
  unfold bestUnitPriceAtQty
  rw [hsort]
  cases (priceBreaks.filter fun b => 1 ≤ b.quantity).insertionSort fun a b => a.quantity ≤ b.quantity with
  | nil => rfl
  | cons first rest =>
    by_cases hqty : qty < 1
    · simp [hqty]
    · have htake : ((first :: rest).map (PriceBreak.reprice f)).takeWhile (fun b => b.quantity ≤ qty) =
          ((first :: rest).takeWhile fun b => b.quantity ≤ qty).map (PriceBreak.reprice f) := by
        rw [List.takeWhile_map]
        rfl
      rw [List.map_cons] at htake ⊢
      dsimp only
      rw [if_neg hqty, if_neg hqty, htake, List.getLast?_map]
      cases ((first :: rest).takeWhile fun b => b.quantity ≤ qty).getLast? <;> rfl

theorem bestUnitPriceAtQty_filter (priceBreaks : List PriceBreak) (qty : ℤ) :
    bestUnitPriceAtQty (priceBreaks.filter fun b => 1 ≤ b.quantity) qty =
      bestUnitPriceAtQty priceBreaks qty := by
  unfold bestUnitPriceAtQty
  rw [List.filter_filter]
  simp

theorem bestUnitPriceAtQty_single (item : PriceBreak) :
    (bestUnitPriceAtQty [item] 1).map (fun best => PriceBreak.mk best.2 best.1) =
      if 1 ≤ item.quantity then some item else none := by
  unfold bestUnitPriceAtQty
  by_cases h : 1 ≤ item.quantity
  · by_cases hone : item.quantity ≤ 1 <;> simp [h, hone]
  · simp [h]

theorem priceBreaksForDistributor_eq (distributor : SourcingDistributor) :
    priceBreaksForDistributor distributor = (listedBreaks distributor).filter fun b => 1 ≤ b.quantity := by
  rw [priceBreaksForDistributor]
  simp only [bestUnitPriceAtQty_single]
  induction listedBreaks distributor with
  | nil => rfl
  | cons item rest ih =>
    rw [List.filterMap_cons, List.filter_cons]
    by_cases h : 1 ≤ item.quantity <;> simp [h, ih]

/-- An offer of a distributor, as it is before any conversion -/
structure Listed (distributor : SourcingDistributor) (qty : ℤ) (offer : SourcingBomOfferOut) : Prop where
  price : offer.unitPrice = unitPriceForDistributor distributor qty
  breaks : bestUnitPriceAtQty offer.priceBreaks qty = bestUnitPriceAtQty (listedBreaks distributor) qty
  currency : offer.currency = distributor.currency
  unconverted : offer.unitPriceConverted = none ∧ offer.priceBreaksConverted = none

theorem listed_joinedOffer {mpn : String} {searched : SourcingOffer}
    (h : joinedOffer mpn qty searched distributor = .ok offer) : Listed distributor qty offer := by
  rw [joinedOffer] at h
  split at h
  next =>
    rw [← Except.ok.inj h]
    refine ⟨rfl, ?_, rfl, rfl, rfl⟩
    rw [priceBreaksForDistributor_eq, bestUnitPriceAtQty_filter]
  next => exact absurd h (by simp)

theorem Listed.offerUnitPrice (h : Listed distributor qty offer) :
    offerUnitPrice offer qty = unitPriceForDistributor distributor qty := by
  rw [offerUnitPrice_native h.unconverted, unitPrice, h.breaks, h.price, unitPriceForDistributor]
  cases bestUnitPriceAtQty (listedBreaks distributor) qty <;> rfl

/-- A price as it is displayed: converted where both currencies are known and differ -/
def displayedPrice (py : Upper) (requested : Option String) (rates : Rates) (currency : Option String)
    (price : Decimal) : Decimal :=
  match cleanCurrency py requested, cleanCurrency py currency with
  | some requested, some native =>
    if native = requested then price
    else toPlaces roundHalfUp 4 (DecimalContext.round (DecimalContext.round
      (price / (rateFor rates native).getD 0) * (rateFor rates requested).getD 0))
  | _, _ => price

theorem cleanCurrency_eq_some {value : Option String} {code : String} (h : cleanCurrency py value = some code) :
    code ≠ "" ∧ py.upper (strip code) = code := by
  obtain ⟨text, -, hcode⟩ := Option.bind_eq_some_iff.mp h
  split at hcode
  next => exact absurd hcode (by simp)
  next hne =>
    obtain rfl := Option.some.inj hcode
    exact ⟨hne, py.settled text⟩

theorem cleanCurrency_clean (value : Option String) :
    cleanCurrency py (cleanCurrency py value) = cleanCurrency py value := by
  cases hclean : cleanCurrency py value with
  | none => rfl
  | some code =>
    obtain ⟨hne, hcode⟩ := cleanCurrency_eq_some hclean
    rw [cleanCurrency, Option.bind_some, hcode, if_neg hne]

theorem crossRate_ok {amount sourceRate targetRate price : Decimal}
    (h : crossRate amount sourceRate targetRate = .ok price) : price = toPlaces roundHalfUp 4
      (DecimalContext.round (DecimalContext.round (amount / sourceRate) * targetRate)) := by
  rw [crossRate] at h
  split at h
  next => exact absurd h (by simp)
  next => exact quantize_eq_some (Outcome.orRaise_ok.mp h)

theorem mapM_id_map_some {α β : Type} (f : α → β) (l : List α) :
    (l.map fun a => some (f a)).mapM id = some (l.map f) := by
  induction l with
  | nil => rfl
  | cons a l ih =>
    rw [List.map_cons, List.mapM_cons, ih]
    rfl

section Convert

variable {rates : Rates} {currency requested : Option String} {native target : String}
  (hnative : cleanCurrency py currency = some native) (htarget : cleanCurrency py requested = some target)
  (hne : native ≠ target) (hsource : (rateFor rates native).isSome) (hrate : (rateFor rates target).isSome)

include hnative htarget hne hsource hrate

theorem convert_ok {amount : Decimal} {price : Option Decimal}
    (h : convert py rates native target amount = .ok price) :
    price = some (displayedPrice py requested rates currency amount) := by
  obtain ⟨hnativeNe, hnativeCode⟩ := cleanCurrency_eq_some hnative
  obtain ⟨htargetNe, htargetCode⟩ := cleanCurrency_eq_some htarget
  obtain ⟨sourceRate, hsource⟩ := Option.isSome_iff_exists.mp hsource
  obtain ⟨targetRate, hrate⟩ := Option.isSome_iff_exists.mp hrate
  rw [convert, hnativeCode, htargetCode] at h
  rw [if_neg (not_or.mpr ⟨hnativeNe, htargetNe⟩), hsource, hrate] at h
  obtain ⟨converted, hconverted, rfl⟩ := Outcome.map_ok.mp h
  rw [crossRate_ok hconverted, displayedPrice, hnative, htarget]
  simp only [if_neg hne, hsource, hrate, Option.getD_some]

theorem convertedPriceBreaks_ok {priceBreaks : List PriceBreak} {breaks : Option (List PriceBreak)}
    (h : convertedPriceBreaks py rates native target priceBreaks = .ok breaks) :
    breaks = some (priceBreaks.map (PriceBreak.reprice (displayedPrice py requested rates currency))) := by
  obtain ⟨converted, hconverted, h⟩ := Outcome.bind_ok.mp h
  have hmap : converted = priceBreaks.map fun b =>
      some (b.reprice (displayedPrice py requested rates currency)) := by
    refine Outcome.map_of_mapM_ok id _ (fun b _ r hr => ?_) hconverted ▸ (List.map_id converted).symm
    obtain ⟨price, hprice, rfl⟩ := Outcome.map_ok.mp hr
    rw [convert_ok hnative htarget hne hsource hrate hprice]
    rfl
  rw [← Outcome.pure_ok.mp h, hmap, mapM_id_map_some]

theorem convertOffer_ok (h : convertOffer py (some rates) native target price offer = .ok item) :
    item.1 = { offer with
      unitPriceConverted := some (displayedPrice py requested rates currency price)
      currencyDisplayed := some target
      priceBreaksConverted := some (offer.priceBreaks.map
        (PriceBreak.reprice (displayedPrice py requested rates currency))) } := by
  obtain ⟨converted, hconverted, h⟩ := Outcome.bind_ok.mp h
  obtain rfl := convert_ok hnative htarget hne hsource hrate hconverted
  obtain ⟨breaks, hbreaks, h⟩ := Outcome.bind_ok.mp h
  obtain rfl := convertedPriceBreaks_ok hnative htarget hne hsource hrate hbreaks
  rw [← Outcome.pure_ok.mp h]

end Convert

/-- The rates of all currencies of the results, and of the requested one -/
structure RatesAvailable (py : Upper) (rates : Rates) (requested : Option String)
    (distributors : List SourcingDistributor) : Prop where
  requested : ∀ code, cleanCurrency py requested = some code → (rateFor rates code).isSome
  native : ∀ distributor ∈ distributors, ∀ code, cleanCurrency py distributor.currency = some code →
    (rateFor rates code).isSome

def ShownIn (py : Upper) (offer : SourcingBomOfferOut) : Prop :=
  (offer.unitPriceConverted = none ∧ offer.currencyDisplayed = cleanCurrency py offer.currency) ∨
    (offer.unitPriceConverted.isSome ∧ offer.currencyDisplayed.isSome)

/-- What the conversion makes of a listed offer -/
structure Displayed (py : Upper) (rates : Rates) (requested : Option String)
    (distributor : SourcingDistributor) (qty : ℤ) (offer : SourcingBomOfferOut) : Prop where
  price : offerUnitPrice offer qty =
    (unitPriceForDistributor distributor qty).map (displayedPrice py requested rates distributor.currency)
  shown : ShownIn py offer

theorem displayBreaks_converted {breaks : List PriceBreak} (h : offer.priceBreaksConverted = some breaks)
    (hne : breaks ≠ []) : displayBreaks offer = breaks := by
  obtain ⟨first, rest, rfl⟩ := List.exists_cons_of_ne_nil hne
  rw [displayBreaks, h]

theorem applyFxToOffer_ok {rates : Rates} {requested : Option String}
    (h : applyFxToOffer py requested (some rates) offer = .ok item) :
    (item.1 = { offer with currencyDisplayed := cleanCurrency py offer.currency } ∧
        ∀ price ∈ offer.unitPrice, displayedPrice py requested rates offer.currency price = price) ∨
      ∃ native target price, cleanCurrency py offer.currency = some native ∧
        cleanCurrency py requested = some target ∧ native ≠ target ∧ offer.unitPrice = some price ∧
        convertOffer py (some rates) native target price
          { offer with currencyDisplayed := cleanCurrency py offer.currency } = .ok item := by
  rw [applyFxToOffer] at h
  cases hrequested : cleanCurrency py requested with
  | none =>
    rw [hrequested] at h
    exact .inl ⟨by rw [← Except.ok.inj h], fun _ _ => by rw [displayedPrice, hrequested]⟩
  | some target =>
    cases hcurrency : cleanCurrency py offer.currency with
    | none =>
      rw [hrequested, hcurrency] at h
      exact .inl ⟨by rw [← Except.ok.inj h], fun _ _ => by rw [displayedPrice, hrequested, hcurrency]⟩
    | some native =>
      cases hunit : offer.unitPrice with
      | none =>
        rw [hrequested, hcurrency, hunit] at h
        exact .inl ⟨by rw [← Except.ok.inj h], fun _ hprice => absurd hprice (by simp)⟩
      | some price =>
        rw [hrequested, hcurrency, hunit] at h
        by_cases heq : native = target
        · have hsame := Except.ok.inj ((if_pos heq).symm.trans h)
          refine .inl ⟨by rw [← hsame], fun _ _ => ?_⟩
          rw [displayedPrice, hrequested, hcurrency]
          exact if_pos heq
        · exact .inr ⟨native, target, price, rfl, rfl, heq, rfl, (if_neg heq).symm.trans h⟩

theorem displayed_applyFxToOffer {rates : Rates} {requested : Option String}
    (hlisted : Listed distributor qty offer)
    (hrequested : ∀ code, cleanCurrency py requested = some code → (rateFor rates code).isSome)
    (hnative : ∀ code, cleanCurrency py distributor.currency = some code → (rateFor rates code).isSome)
    (h : applyFxToOffer py requested (some rates) offer = .ok item) :
    Displayed py rates requested distributor qty item.1 := by
  rw [← hlisted.currency] at hnative
  rcases applyFxToOffer_ok h with ⟨hitem, hsame⟩ | ⟨native, target, price, hcurrency, htarget, hne, hunit, hconvert⟩
  · rw [hitem]
    refine ⟨?_, .inl ⟨hlisted.unconverted.1, rfl⟩⟩
    have hprice := hlisted.offerUnitPrice
    rw [← hlisted.price] at hprice
    rw [← hlisted.currency, ← hlisted.price]
    refine Eq.trans hprice ?_
    cases hunit : offer.unitPrice with
    | none => rfl
    | some price => rw [Option.map_some, hsame price hunit]
  · rw [convertOffer_ok hcurrency htarget hne (hnative native hcurrency) (hrequested target htarget) hconvert]
    refine ⟨?_, .inr ⟨rfl, rfl⟩⟩
    -- the offer has a price, so it has a break for the quantity
    have hbest := hlisted.breaks
    rw [hlisted.price, unitPriceForDistributor] at hunit
    obtain ⟨best, hlistedBest, hbestPrice⟩ := Option.map_eq_some_iff.mp hunit
    rw [hlistedBest] at hbest
    have hmapped := bestUnitPriceAtQty_map (displayedPrice py requested rates offer.currency)
      offer.priceBreaks qty
    rw [hbest] at hmapped
    have hbreaks : offer.priceBreaks.map
        (PriceBreak.reprice (displayedPrice py requested rates offer.currency)) ≠ [] := by
      intro hnil
      rw [hnil] at hmapped
      exact absurd hmapped (by simp [bestUnitPriceAtQty])
    rw [unitPriceForDistributor, hlistedBest, ← hlisted.currency, StockManager.offerUnitPrice,
      displayBreaks_converted rfl hbreaks, hmapped]
    rfl

/-- The first of the least prices stands at this place. -/
structure CheapestAt (prices : List (Option Decimal)) (place : ℕ) (price : Decimal) : Prop where
  priced : prices[place]? = some (some price)
  least : ∀ (other : ℕ) (p : Decimal), prices[other]? = some (some p) → price ≤ p
  first : ∀ (other : ℕ) (p : Decimal), other < place → prices[other]? = some (some p) → price < p

theorem CheapestAt.unique {place other : ℕ} {price p : Decimal}
    (h : CheapestAt prices place price) (h' : CheapestAt prices other p) : place = other := by
  rcases Nat.lt_trichotomy place other with hlt | heq | hlt
  · exact absurd (h'.first place price hlt h.priced) (not_lt.mpr (h.least other p h'.priced))
  · exact heq
  · exact absurd (h.first other p hlt h'.priced) (not_lt.mpr (h'.least place price h.priced))

/-- What the loop has found in the prices it has seen -/
structure BestSoFar (prices : List (Option Decimal)) (best : Option (Decimal × ℕ)) : Prop where
  unpriced : best = none → ∀ price, some price ∉ prices
  cheapest : ∀ found ∈ best, CheapestAt prices found.2 found.1

theorem CheapestAt.keep {place : ℕ} {next : Option Decimal}
    (h : CheapestAt prices place price) (hnext : ∀ p ∈ next, price ≤ p) :
    CheapestAt (prices ++ [next]) place price := by
  have hplace := (List.getElem?_eq_some_iff.mp h.priced).1
  refine ⟨by rw [List.getElem?_append_left hplace, h.priced], fun other p hp => ?_, fun other p hlt hp => ?_⟩
  · rw [List.getElem?_append] at hp
    split at hp
    next => exact h.least other p hp
    next =>
      have hmem := List.mem_of_getElem? hp
      rw [List.mem_singleton] at hmem
      exact hnext p hmem.symm
  · rw [List.getElem?_append_left (hlt.trans hplace)] at hp
    exact h.first other p hlt hp

theorem CheapestAt.replace {prices : List (Option Decimal)} {price : Decimal}
    (h : ∀ (other : ℕ) (p : Decimal), prices[other]? = some (some p) → price < p) :
    CheapestAt (prices ++ [some price]) prices.length price := by
  refine ⟨by simp, fun other p hp => ?_, fun other p hlt hp => ?_⟩
  · rw [List.getElem?_append] at hp
    split at hp
    next => exact (h other p hp).le
    next =>
      have hmem := List.mem_of_getElem? hp
      rw [List.mem_singleton] at hmem
      exact (Option.some.inj hmem).ge
  · rw [List.getElem?_append_left hlt] at hp
    exact h other p hp

theorem BestSoFar.step {best : Option (Decimal × ℕ)}
    (h : BestSoFar (offers.map fun o => offerUnitPrice o qty) best) (offer : SourcingBomOfferOut) :
    BestSoFar ((offers ++ [offer]).map fun o => offerUnitPrice o qty)
      (cheaperPlace qty best (offer, offers.length)) := by
  rw [List.map_append, List.map_singleton]
  unfold cheaperPlace
  dsimp only
  cases hprice : offerUnitPrice offer qty with
  | none =>
    refine ⟨fun hnone price hmem => ?_, fun found hfound => (h.cheapest found hfound).keep (by simp)⟩
    rw [List.mem_append, List.mem_singleton] at hmem
    exact hmem.elim (h.unpriced hnone price) (by simp)
  | some price =>
    cases best with
    | none =>
      refine ⟨fun hnone => absurd hnone (by simp), fun found hfound => ?_⟩
      obtain rfl := Option.some.inj hfound
      have hall := @CheapestAt.replace (offers.map fun o => offerUnitPrice o qty) price
        fun other p hp => absurd (List.mem_of_getElem? hp) (h.unpriced rfl p)
      rwa [List.length_map] at hall
    | some old =>
      have hold := h.cheapest old rfl
      dsimp only
      by_cases hlt : price < old.1
      · rw [if_pos hlt]
        refine ⟨fun hnone => absurd hnone (by simp), fun found hfound => ?_⟩
        obtain rfl := Option.some.inj hfound
        have hall := @CheapestAt.replace (offers.map fun o => offerUnitPrice o qty) price
          fun other p hp => hlt.trans_le (hold.least other p hp)
        rwa [List.length_map] at hall
      · rw [if_neg hlt]
        refine ⟨fun hnone => absurd hnone (by simp), fun found hfound => ?_⟩
        obtain rfl := Option.some.inj hfound
        refine hold.keep fun p hp => ?_
        rw [← Option.some.inj hp]
        exact not_lt.mp hlt

theorem bestSoFar_offers (offers : List SourcingBomOfferOut) (qty : ℤ) :
    BestSoFar (offers.map fun o => offerUnitPrice o qty) (offers.zipIdx.foldl (cheaperPlace qty) none) := by
  induction offers using List.reverseRecOn with
  | nil => exact ⟨fun _ _ => List.not_mem_nil, fun _ h => absurd h (by simp)⟩
  | append_singleton offers offer ih =>
    rw [List.zipIdx_append, List.foldl_append, Nat.zero_add]
    exact ih.step offer

/-- The best offer is the first of those with the lowest price. -/
theorem bestOfferAtQty_eq_some {place : ℕ} (hqty : 1 ≤ qty) :
    bestOfferAtQty offers qty = some place ↔
      ∃ price, CheapestAt (offers.map fun o => offerUnitPrice o qty) place price := by
  have hbest := bestSoFar_offers offers qty
  rw [bestOfferAtQty, if_neg (by omega), Option.map_eq_some_iff]
  constructor
  · rintro ⟨found, hfound, hplace⟩
    exact ⟨found.1, hplace ▸ hbest.cheapest found hfound⟩
  · intro ⟨price, hprice⟩
    cases hfound : offers.zipIdx.foldl (cheaperPlace qty) none with
    | none => exact absurd (List.mem_of_getElem? hprice.priced) (hbest.unpriced hfound price)
    | some found => exact ⟨found, rfl, (hbest.cheapest found hfound).unique hprice⟩

theorem bestOfferAtQty_isSome (hqty : 1 ≤ qty)
    (h : some price ∈ offers.map fun o => offerUnitPrice o qty) : (bestOfferAtQty offers qty).isSome := by
  rw [bestOfferAtQty, if_neg (by omega), Option.isSome_map, Option.isSome_iff_ne_none]
  exact fun hnone => (bestSoFar_offers offers qty).unpriced hnone price h

end StockManager
