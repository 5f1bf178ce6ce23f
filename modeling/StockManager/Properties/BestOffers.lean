import StockManager.Effects.OfferPrices
import StockManager.Effects.Rows

/-! # The best offer of a sourced line -/

namespace StockManager

open DecimalContext (toPlaces roundHalfUp quantize_eq_some)

variable {py : Upper} {casefold : String → String} {partMpns : PartMpns} {searchResults : SearchResults}
  {requested : Option String} {rates : Rates} {row : ShortageRow} {line : SourcedLine} {qty : ℤ}
variable {offers : List SourcingBomOfferOut} {distributors : List SourcingDistributor}
  {cost : Decimal}

/-- The distributors that the results have for a row, in the order of its offers -/
def rowDistributors (casefold : String → String) (partMpns : PartMpns) (searchResults : SearchResults)
    (row : ShortageRow) : List SourcingDistributor :=
  (candidateMpns casefold partMpns row).flatMap fun mpn =>
    ((Dict.find (casefold mpn) searchResults).getD []).flatMap (·.distributors)

/-- What `_source_bom_line` settles -/
structure ListedLine (distributors : List SourcingDistributor) (row : ShortageRow) (line : SourcedLine) : Prop where
  shortBy : line.shortBy = ⌈row.shortBy⌉
  offers : List.Forall₂ (fun d o => Listed d (max ⌈row.shortBy⌉ 1) o) distributors line.offers
  bestPlace : line.bestPlace = bestOfferAtQty line.offers line.shortBy
  cost : lineExtendedCost line.bestOffer line.shortBy = .ok line.estExtendedCost

theorem listed_joinedOffers {mpns : List String}
    (h : joinedOffers casefold mpns searchResults qty = .ok offers) :
    List.Forall₂ (fun d o => Listed d qty o) (mpns.flatMap fun mpn =>
      ((Dict.find (casefold mpn) searchResults).getD []).flatMap (·.distributors)) offers := by
  have hlisted : List.Forall₂ (fun item o => Listed item.2.2 qty o)
      (mpns.flatMap fun mpn => ((Dict.find (casefold mpn) searchResults).getD []).flatMap fun offer =>
        offer.distributors.map fun distributor => (mpn, offer, distributor)) offers :=
    (Outcome.mapM_ok h).imp fun _ _ => listed_joinedOffer
  have hmap := (@List.forall₂_map_left_iff _ _ _ (fun d o => Listed d qty o)
    (fun item : String × SourcingOffer × SourcingDistributor => item.2.2) _ _).mpr hlisted
  rw [List.map_flatMap] at hmap
  simpa only [List.map_flatMap, List.map_map, Function.comp_def, List.map_id'] using hmap

theorem listedLine_sourceBomLine (h : sourceBomLine casefold partMpns searchResults row = .ok line) :
    ListedLine (rowDistributors casefold partMpns searchResults row) row line := by
  obtain ⟨offers, hoffers, h⟩ := Outcome.bind_ok.mp h
  obtain ⟨cost, hcost, h⟩ := Outcome.bind_ok.mp h
  obtain ⟨available, -, h⟩ := Outcome.bind_ok.mp h
  obtain ⟨substituteAvailable, -, h⟩ := Outcome.bind_ok.mp h
  rw [← Outcome.pure_ok.mp h]
  exact ⟨rfl, listed_joinedOffers hoffers, rfl, hcost⟩

/-- The prices of the distributors for a quantity, before any conversion -/
def nativePrices (distributors : List SourcingDistributor) (qty : ℤ) : List (Option Decimal) :=
  distributors.map fun d => unitPriceForDistributor d qty

/-- What is left of a line after the conversion -/
structure DisplayedLine (py : Upper) (requested : Option String) (rates : Rates)
    (distributors : List SourcingDistributor) (row : ShortageRow) (line : SourcedLine) : Prop where
  shortBy : line.shortBy = ⌈row.shortBy⌉
  prices : 1 ≤ line.shortBy → line.offers.map (fun o => offerUnitPrice o line.shortBy) =
    distributors.map fun d => (unitPriceForDistributor d line.shortBy).map
      (displayedPrice py requested rates d.currency)
  unplaced : line.shortBy < 1 → line.bestPlace = none
  place : 1 ≤ line.shortBy → ∀ place, line.bestPlace = some place ↔
    ∃ price, CheapestAt (nativePrices distributors line.shortBy) place price
  found : 1 ≤ line.shortBy → (∃ price, some price ∈ nativePrices distributors line.shortBy) →
    line.bestPlace.isSome
  cost : lineExtendedCost line.bestOffer line.shortBy = .ok line.estExtendedCost
  shown : ∀ offer ∈ line.offers, ShownIn py offer

theorem map_offerUnitPrice (h : List.Forall₂ (fun d o => Listed d qty o) distributors offers) :
    offers.map (fun o => offerUnitPrice o qty) = nativePrices distributors qty := by
  induction h with
  | nil => rfl
  | cons hlisted _ ih => rw [nativePrices, List.map_cons, List.map_cons, hlisted.offerUnitPrice, ih, nativePrices]

theorem map_displayedPrice
    (h : List.Forall₂ (fun d o => Displayed py rates requested d qty o) distributors offers) :
    offers.map (fun o => offerUnitPrice o qty) = distributors.map fun d =>
      (unitPriceForDistributor d qty).map (displayedPrice py requested rates d.currency) := by
  induction h with
  | nil => rfl
  | cons hdisplayed _ ih => rw [List.map_cons, List.map_cons, hdisplayed.price, ih]

theorem forall₂_displayed
    {converted : List (SourcingBomOfferOut × FxStatus)} (hrates : RatesAvailable py rates requested distributors)
    (hoffers : List.Forall₂ (fun d o => Listed d qty o) distributors offers)
    (hsteps : List.Forall₂ (fun o item => applyFxToOffer py requested (some rates) o = .ok item) offers converted) :
    List.Forall₂ (fun d o => Displayed py rates requested d qty o) distributors (converted.map Prod.fst) := by
  induction hoffers generalizing converted with
  | nil =>
    cases hsteps
    exact .nil
  | cons hlisted _ ih =>
    cases hsteps with
    | cons hstep hsteps =>
      have hhead := hrates.native _ List.mem_cons_self
      refine .cons (displayed_applyFxToOffer hlisted hrates.requested hhead hstep) (ih ?_ hsteps)
      exact ⟨hrates.requested, fun d hd => hrates.native d (List.mem_cons_of_mem _ hd)⟩

theorem lineExtendedCost_congr {offer other : Option SourcingBomOfferOut}
    (h : offer.map (fun o => offerUnitPrice o qty) = other.map fun o => offerUnitPrice o qty) :
    lineExtendedCost offer qty = lineExtendedCost other qty := by
  cases offer with
  | none =>
    cases other with
    | none => rfl
    | some other => exact absurd h (by simp)
  | some offer =>
    cases other with
    | none => exact absurd h (by simp)
    | some other =>
      have hprice : offerUnitPrice offer qty = offerUnitPrice other qty := Option.some.inj h
      rw [lineExtendedCost, lineExtendedCost, hprice]

theorem displayedCost_ok {shown : SourcedLine} {cost : Option Decimal}
    (hcost : lineExtendedCost line.bestOffer line.shortBy = .ok line.estExtendedCost)
    (h : displayedCost py requested shown = .ok cost)
    (hprice : cleanCurrency py requested = none →
      shown.bestOffer.map (fun o => offerUnitPrice o line.shortBy) =
        line.bestOffer.map fun o => offerUnitPrice o line.shortBy)
    (hshort : shown.shortBy = line.shortBy) (hold : shown.estExtendedCost = line.estExtendedCost) :
    lineExtendedCost shown.bestOffer shown.shortBy = .ok cost := by
  rw [displayedCost] at h
  cases hrequested : cleanCurrency py requested with
  | some code =>
    rw [hrequested] at h
    exact h
  | none =>
    rw [hrequested] at h
    rw [← Except.ok.inj h, hold, ← hcost, hshort]
    exact lineExtendedCost_congr (hprice hrequested)

theorem displayedPrice_none (hrequested : cleanCurrency py requested = none) (currency : Option String) :
    displayedPrice py requested rates currency = id := by
  funext price
  rw [displayedPrice, hrequested]
  rfl

theorem displayedLine_applyFxToLine {item : SourcedLine × List FxStatus}
    (hlisted : ListedLine distributors row line) (hrates : RatesAvailable py rates requested distributors)
    (h : applyFxToLine py requested (some rates) line = .ok item) :
    DisplayedLine py requested rates distributors row item.1 := by
  obtain ⟨converted, hconverted, h⟩ := Outcome.bind_ok.mp h
  obtain ⟨cost, hcost, h⟩ := Outcome.bind_ok.mp h
  rw [← Outcome.pure_ok.mp h]
  have hdisplayed := forall₂_displayed hrates hlisted.offers (Outcome.mapM_ok hconverted)
  have hqty : 1 ≤ line.shortBy → max ⌈row.shortBy⌉ 1 = line.shortBy := by
    rw [hlisted.shortBy]
    omega
  have hnative (hshort : 1 ≤ line.shortBy) : line.offers.map (fun o => offerUnitPrice o line.shortBy) =
      nativePrices distributors line.shortBy := map_offerUnitPrice (hqty hshort ▸ hlisted.offers)
  have hprices (hshort : 1 ≤ line.shortBy) :
      (converted.map Prod.fst).map (fun o => offerUnitPrice o line.shortBy) = distributors.map fun d =>
        (unitPriceForDistributor d line.shortBy).map (displayedPrice py requested rates d.currency) :=
    map_displayedPrice (hqty hshort ▸ hdisplayed)
  refine ⟨hlisted.shortBy, hprices, fun hshort => ?_, fun hshort place => ?_, fun hshort hpriced => ?_, ?_, ?_⟩
  · have hplace := hlisted.bestPlace
    rwa [bestOfferAtQty, if_pos hshort] at hplace
  · have hplace := hlisted.bestPlace
    rw [← hnative hshort, ← bestOfferAtQty_eq_some hshort, ← hplace]
  · obtain ⟨price, hprice⟩ := hpriced
    have hplace := hlisted.bestPlace
    rw [← hnative hshort] at hprice
    exact hplace ▸ bestOfferAtQty_isSome hshort hprice
  · refine (displayedCost_ok hlisted.cost hcost (fun hnone => ?_) rfl rfl :)
    by_cases hshort : 1 ≤ line.shortBy
    · have hsame : (converted.map Prod.fst).map (fun o => offerUnitPrice o line.shortBy) =
          line.offers.map fun o => offerUnitPrice o line.shortBy := by
        rw [hprices hshort, hnative hshort, nativePrices]
        exact List.map_congr_left fun d _ => by rw [displayedPrice_none hnone, Option.map_id, id]
      rw [SourcedLine.bestOffer, SourcedLine.bestOffer]
      cases line.bestPlace with
      | none => rfl
      | some place =>
        have hplace := congrArg (·[place]?) hsame
        simpa using hplace
    · have hplace := hlisted.bestPlace
      rw [bestOfferAtQty, if_pos (by omega)] at hplace
      rw [SourcedLine.bestOffer, SourcedLine.bestOffer, hplace]
      rfl
  · intro offer hoffer
    obtain ⟨d, -, hd⟩ := exists_of_forall₂ hdisplayed hoffer
    exact hd.shown

/-- The best offer is the cheapest of those that the line shows, and the cost is what it costs. -/
structure BestIsCheapest (line : SourcedLine) : Prop where
  exists_best : 1 ≤ line.shortBy → (∃ o ∈ line.offers, ∃ p, offerUnitPrice o line.shortBy = some p) →
    ∃ best, line.bestOffer = some best
  cheapest : ∀ best, line.bestOffer = some best → ∀ o ∈ line.offers, ∀ p,
    offerUnitPrice o line.shortBy = some p → ∃ price, offerUnitPrice best line.shortBy = some price ∧ price ≤ p
  cost : ∀ best, line.bestOffer = some best → ∀ price, offerUnitPrice best line.shortBy = some price →
    line.estExtendedCost = some (toPlaces roundHalfUp 4 (price * line.shortBy))

/-- The conversion keeps the first of the cheapest native prices the cheapest, and its product with
the quantity is rounded alike from 28 digits and from all. -/
structure KeepsCheapest (py : Upper) (requested : Option String) (rates : Rates)
    (distributors : List SourcingDistributor) (qty : ℤ) : Prop where
  cheapest : ∀ place price d, CheapestAt (nativePrices distributors qty) place price →
    distributors[place]? = some d → ∀ other ∈ distributors, ∀ p, unitPriceForDistributor other qty = some p →
      displayedPrice py requested rates d.currency price ≤ displayedPrice py requested rates other.currency p
  exact : ∀ place price d, CheapestAt (nativePrices distributors qty) place price →
    distributors[place]? = some d →
      toPlaces roundHalfUp 4 (DecimalContext.round (displayedPrice py requested rates d.currency price * qty)) =
        toPlaces roundHalfUp 4 (displayedPrice py requested rates d.currency price * qty)

theorem lineExtendedCost_priced {offer : SourcingBomOfferOut} {price : Decimal} {cost : Option Decimal}
    (hqty : 1 ≤ qty) (hprice : offerUnitPrice offer qty = some price)
    (h : lineExtendedCost (some offer) qty = .ok cost) :
    cost = some (toPlaces roundHalfUp 4 (DecimalContext.round (price * qty))) := by
  rw [lineExtendedCost, if_neg (by omega), if_neg (by omega), hprice] at h
  obtain ⟨rounded, hrounded, rfl⟩ := Outcome.map_ok.mp h
  rw [quantize_eq_some (Outcome.orRaise_ok.mp hrounded)]

section Line

variable {distributors : List SourcingDistributor} {d : SourcingDistributor} {place : ℕ} {price : Decimal}

theorem CheapestAt.distributor (h : CheapestAt (nativePrices distributors qty) place price) :
    ∃ d, distributors[place]? = some d ∧ unitPriceForDistributor d qty = some price := by
  have hpriced := h.priced
  rw [nativePrices, List.getElem?_map] at hpriced
  exact Option.map_eq_some_iff.mp hpriced

theorem DisplayedLine.offerAt (h : DisplayedLine py requested rates distributors row line)
    (hshort : 1 ≤ line.shortBy) (hd : distributors[place]? = some d) :
    ∃ o, line.offers[place]? = some o ∧ offerUnitPrice o line.shortBy =
      (unitPriceForDistributor d line.shortBy).map (displayedPrice py requested rates d.currency) := by
  have hplace := congrArg (·[place]?) (h.prices hshort)
  simp only [List.getElem?_map, hd, Option.map_some] at hplace
  exact Option.map_eq_some_iff.mp hplace

theorem DisplayedLine.distributorAt (h : DisplayedLine py requested rates distributors row line)
    (hshort : 1 ≤ line.shortBy) {o : SourcingBomOfferOut} (ho : line.offers[place]? = some o) :
    ∃ d, distributors[place]? = some d ∧ offerUnitPrice o line.shortBy =
      (unitPriceForDistributor d line.shortBy).map (displayedPrice py requested rates d.currency) := by
  have hplace := congrArg (·[place]?) (h.prices hshort)
  simp only [List.getElem?_map, ho, Option.map_some] at hplace
  obtain ⟨d, hd, hprice⟩ := Option.map_eq_some_iff.mp hplace.symm
  exact ⟨d, hd, hprice.symm⟩

theorem DisplayedLine.bestOffer_iff (h : DisplayedLine py requested rates distributors row line)
    (hshort : 1 ≤ line.shortBy) {best : SourcingBomOfferOut} : line.bestOffer = some best ↔
      ∃ place price d, CheapestAt (nativePrices distributors line.shortBy) place price ∧
        distributors[place]? = some d ∧ line.offers[place]? = some best ∧
        offerUnitPrice best line.shortBy = some (displayedPrice py requested rates d.currency price) := by
  rw [SourcedLine.bestOffer, Option.bind_eq_some_iff]
  constructor
  · rintro ⟨place, hplace, hbest⟩
    obtain ⟨price, hfirst⟩ := (h.place hshort place).mp hplace
    obtain ⟨d, hd, hprice⟩ := hfirst.distributor
    obtain ⟨d', hd', hshown⟩ := h.distributorAt hshort hbest
    obtain rfl := Option.some.inj (hd.symm.trans hd')
    rw [hprice] at hshown
    exact ⟨place, price, d, hfirst, hd, hbest, hshown⟩
  · rintro ⟨place, price, d, hfirst, -, hbest, -⟩
    exact ⟨place, (h.place hshort place).mpr ⟨price, hfirst⟩, hbest⟩

theorem DisplayedLine.bestIsCheapest_iff (h : DisplayedLine py requested rates distributors row line) :
    BestIsCheapest line ↔
      (1 ≤ line.shortBy → KeepsCheapest py requested rates distributors line.shortBy) := by
  constructor
  · intro hbest hshort
    have hshown {place price d} (hfirst : CheapestAt (nativePrices distributors line.shortBy) place price)
        (hd : distributors[place]? = some d) : ∃ best, line.bestOffer = some best ∧
          offerUnitPrice best line.shortBy = some (displayedPrice py requested rates d.currency price) := by
      obtain ⟨best, hplace, hprice⟩ := h.offerAt hshort hd
      obtain ⟨d', hd', hnative⟩ := hfirst.distributor
      obtain rfl := Option.some.inj (hd.symm.trans hd')
      rw [hnative] at hprice
      exact ⟨best, (h.bestOffer_iff hshort).mpr ⟨place, price, d, hfirst, hd, hplace, hprice⟩, hprice⟩
    refine ⟨fun place price d hfirst hd other hother p hp => ?_, fun place price d hfirst hd => ?_⟩
    · obtain ⟨best, hbestOffer, hprice⟩ := hshown hfirst hd
      obtain ⟨i, hi⟩ := List.mem_iff_getElem?.mp hother
      obtain ⟨o, ho, hoprice⟩ := h.offerAt hshort hi
      rw [hp] at hoprice
      obtain ⟨least, hleast, hle⟩ := hbest.cheapest best hbestOffer o (List.mem_of_getElem? ho) _ hoprice
      rw [hprice] at hleast
      rwa [← Option.some.inj hleast] at hle
    · obtain ⟨best, hbestOffer, hprice⟩ := hshown hfirst hd
      have hcost := h.cost
      rw [hbestOffer] at hcost
      have hrounded := lineExtendedCost_priced hshort hprice hcost
      rw [hbest.cost best hbestOffer _ hprice] at hrounded
      exact (Option.some.inj hrounded).symm
  · intro hkeeps
    by_cases hshort : 1 ≤ line.shortBy
    · have hk := hkeeps hshort
      refine ⟨fun _ ⟨o, ho, p, hp⟩ => ?_, fun best hbest o ho p hp => ?_, fun best hbest price hprice => ?_⟩
      · obtain ⟨i, hi⟩ := List.mem_iff_getElem?.mp ho
        obtain ⟨d, hd, hshown⟩ := h.distributorAt hshort hi
        rw [hp] at hshown
        obtain ⟨native, hnative, -⟩ := Option.map_eq_some_iff.mp hshown.symm
        have hmem : some native ∈ nativePrices distributors line.shortBy :=
          List.mem_map.mpr ⟨d, List.mem_of_getElem? hd, hnative⟩
        obtain ⟨place, hplace⟩ := Option.isSome_iff_exists.mp (h.found hshort ⟨native, hmem⟩)
        obtain ⟨price, hfirst⟩ := (h.place hshort place).mp hplace
        obtain ⟨d, hd, -⟩ := hfirst.distributor
        obtain ⟨best, hbest, -⟩ := h.offerAt hshort hd
        exact ⟨best, by rw [SourcedLine.bestOffer, hplace, Option.bind_some, hbest]⟩
      · obtain ⟨place, price, d, hfirst, hd, -, hshown⟩ := (h.bestOffer_iff hshort).mp hbest
        obtain ⟨i, hi⟩ := List.mem_iff_getElem?.mp ho
        obtain ⟨other, hother, hotherShown⟩ := h.distributorAt hshort hi
        rw [hp] at hotherShown
        obtain ⟨native, hnative, rfl⟩ := Option.map_eq_some_iff.mp hotherShown.symm
        exact ⟨_, hshown, hk.cheapest place price d hfirst hd other (List.mem_of_getElem? hother) native hnative⟩
      · obtain ⟨place, native, d, hfirst, hd, -, hshown⟩ := (h.bestOffer_iff hshort).mp hbest
        rw [hprice] at hshown
        obtain rfl := Option.some.inj hshown
        have hcost := h.cost
        rw [hbest] at hcost
        rw [lineExtendedCost_priced hshort hprice hcost, hk.exact place native d hfirst hd]
    · have hnone : line.bestOffer = none := by
        rw [SourcedLine.bestOffer, h.unplaced (by omega)]
        rfl
      exact ⟨fun hlt => absurd hlt hshort, fun best hbest => absurd (hnone.symm.trans hbest) (by simp),
        fun best hbest => absurd (hnone.symm.trans hbest) (by simp)⟩

end Line

/-- The amount is the price that the offer shows, in the currency that it shows. -/
def PricedIn (py : Upper) (best : SourcingBomOfferOut) (addend : CostAddend) : Prop :=
  (best.unitPriceConverted = some addend.unitPrice ∧
      addend.currency = cleanCurrency py best.currencyDisplayed) ∨
    (best.unitPriceConverted = none ∧ best.unitPrice = some addend.unitPrice ∧
      addend.currency = cleanCurrency py best.currency)

/-- Prices of the rows' best offers, of which no two have different currencies -/
structure OneCurrency (py : Upper) (rows : List SourcedLine) (quantityForRow : SourcedLine → ℤ)
    (addends : List CostAddend) : Prop where
  priced : ∀ addend ∈ addends, ∃ row ∈ rows, ∃ best, row.bestOffer = some best ∧
    addend.quantity = quantityForRow row ∧ PricedIn py best addend
  one : ∀ a ∈ addends, ∀ b ∈ addends, ∀ c ∈ a.currency, ∀ d ∈ b.currency, c = d

variable {best : SourcingBomOfferOut} {rows : List SourcedLine} {quantityForRow : SourcedLine → ℤ}

theorem bestOfferPricedForTotal_ok {total : Option String} {priced : Decimal × Option String}
    (hshown : ShownIn py best) (h : bestOfferPricedForTotal py best total = some priced) (quantity : ℤ) :
    PricedIn py best ⟨priced.1, priced.2, quantity⟩ ∧
      ∀ c ∈ priced.2, offerDisplayCurrency py best = some c ∧ (total.isSome → total = some c) := by
  rw [bestOfferPricedForTotal] at h
  split at h
  next => exact absurd h (by simp)
  next hother =>
    have htotal : ∀ c, offerDisplayCurrency py best = some c → total.isSome → total = some c := by
      intro c hc hsome
      by_contra hne
      exact hother ⟨hsome, by rw [hc]; rfl, fun heq => hne (heq.symm.trans hc)⟩
    rcases hshown with ⟨hnone, hclean⟩ | ⟨hconverted, hdisplayed⟩
    · rw [hnone] at h
      dsimp only at h
      split at h
      next => exact absurd h (by simp)
      next =>
        obtain ⟨price, hprice, rfl⟩ := Option.map_eq_some_iff.mp h
        have hcurrency : offerDisplayCurrency py best = cleanCurrency py best.currency := by
          rw [offerDisplayCurrency, hclean, cleanCurrency_clean, Option.or_self]
        exact ⟨.inr ⟨hnone, hprice, hcurrency⟩, fun c hc => ⟨hc, htotal c hc⟩⟩
    · obtain ⟨price, hprice⟩ := Option.isSome_iff_exists.mp hconverted
      obtain ⟨code, hcode⟩ := Option.isSome_iff_exists.mp hdisplayed
      rw [hprice, hcode] at h
      obtain rfl := Option.some.inj h
      refine ⟨.inl ⟨hprice, by rw [hcode]⟩, fun c hc => ?_⟩
      have hdisplay : offerDisplayCurrency py best = some c := by
        have hclean : cleanCurrency py (some code) = some c := hc
        rw [offerDisplayCurrency, hcode, hclean]
        rfl
      exact ⟨hdisplay, htotal c hdisplay⟩

theorem mem_costAddends {addend : CostAddend} (h : addend ∈ costAddends py rows quantityForRow) :
    ∃ row ∈ rows, ∃ best priced, row.bestOffer = some best ∧
      bestOfferPricedForTotal py best (totalCurrency py rows) = some priced ∧
      addend = ⟨priced.1, priced.2, quantityForRow row⟩ := by
  obtain ⟨row, hrow, hadded⟩ := List.mem_filterMap.mp h
  split at hadded
  next => exact absurd hadded (by simp)
  next =>
    obtain ⟨best, hbest, hadded⟩ := Option.bind_eq_some_iff.mp hadded
    obtain ⟨priced, hpriced, rfl⟩ := Option.map_eq_some_iff.mp hadded
    exact ⟨row, hrow, best, priced, hbest, hpriced, rfl⟩

theorem mem_bestCurrencies {row : SourcedLine} {c : String} (hrow : row ∈ rows)
    (hbest : row.bestOffer = some best) (hc : offerDisplayCurrency py best = some c) :
    c ∈ bestCurrencies py rows :=
  List.mem_filterMap.mpr ⟨best, List.mem_filterMap.mpr ⟨row, hrow, hbest⟩, hc⟩

theorem eq_of_dedup_length {l : List String} (h : ¬1 < l.dedup.length) {c d : String} (hc : c ∈ l)
    (hd : d ∈ l) : c = d := by
  by_contra hne
  have hsub : [c, d] ⊆ l.dedup := by
    intro x hx
    rw [List.mem_dedup]
    rcases List.mem_pair.mp hx with rfl | rfl
    · exact hc
    · exact hd
  have hnodup : [c, d].Nodup := by simp [hne]
  exact h (List.subperm_of_subset hnodup hsub).length_le

theorem sumBestOfferCost_oneCurrency
    (hshown : ∀ row ∈ rows, ∀ best, row.bestOffer = some best → ShownIn py best)
    (h : sumBestOfferCost py rows quantityForRow = some cost) :
    ∃ addends, cost = sumAddends addends ∧ OneCurrency py rows quantityForRow addends := by
  rw [sumBestOfferCost] at h
  split at h
  next => exact absurd h (by simp)
  next hmixed =>
    split at h
    next => exact absurd h (by simp)
    next =>
      refine ⟨_, (Option.some.inj h).symm, fun addend hadded => ?_, fun a ha b hb c hc d hd => ?_⟩
      · obtain ⟨row, hrow, best, priced, hbest, hpriced, rfl⟩ := mem_costAddends hadded
        exact ⟨row, hrow, best, hbest, rfl,
          (bestOfferPricedForTotal_ok (hshown row hrow best hbest) hpriced _).1⟩
      · obtain ⟨row, hrow, best, priced, hbest, hpriced, rfl⟩ := mem_costAddends ha
        obtain ⟨row', hrow', best', priced', hbest', hpriced', rfl⟩ := mem_costAddends hb
        obtain ⟨hcurrency, htotal⟩ :=
          (bestOfferPricedForTotal_ok (hshown row hrow best hbest) hpriced 0).2 c hc
        obtain ⟨hcurrency', htotal'⟩ :=
          (bestOfferPricedForTotal_ok (hshown row' hrow' best' hbest') hpriced' 0).2 d hd
        cases hsome : totalCurrency py rows with
        | some total =>
          rw [hsome] at htotal htotal'
          exact Option.some.inj ((htotal rfl).symm.trans (htotal' rfl))
        | none =>
          rw [hsome, Option.isNone_none] at hmixed
          refine eq_of_dedup_length (fun hlt => hmixed ⟨rfl, ?_⟩) (mem_bestCurrencies hrow hbest hcurrency)
            (mem_bestCurrencies hrow' hbest' hcurrency')
          exact decide_eq_true hlt

theorem OneCurrency.mono {rows' : List SourcedLine} {addends : List CostAddend} (hsub : rows ⊆ rows')
    (h : OneCurrency py rows quantityForRow addends) : OneCurrency py rows' quantityForRow addends :=
  ⟨fun addend hadded => (h.priced addend hadded).imp fun _ hrow => ⟨hsub hrow.1, hrow.2⟩, h.one⟩

/-- The lines show cheapest offers, and the two sums add up prices of one currency. -/
structure CheapestShown (py : Upper) (out : SourcingBomOut) : Prop where
  lines : ∀ line ∈ out.rows, BestIsCheapest line
  total : ∀ cost, out.totalBomCost = some cost →
    ∃ addends, cost = sumAddends addends ∧ OneCurrency py out.rows SourcedLine.required addends
  purchase : ∀ cost, out.purchaseToPayCost = some cost →
    ∃ addends, cost = sumAddends addends ∧ OneCurrency py out.rows SourcedLine.shortBy addends

theorem payableLines_subset (rows : List SourcedLine) (buildQuantity : ℤ) :
    payableLines rows buildQuantity ⊆ rows := by
  intro row hrow
  rw [payableLines] at hrow
  split at hrow
  next => exact (List.mem_filter.mp hrow).1
  next => exact (List.mem_filter.mp (List.mem_filter.mp hrow).1).1

theorem purchaseToPayCost_oneCurrency {buildQuantity : ℤ}
    (hshown : ∀ row ∈ rows, ∀ best, row.bestOffer = some best → ShownIn py best)
    (h : purchaseToPayCost py rows buildQuantity = some cost) :
    ∃ addends, cost = sumAddends addends ∧ OneCurrency py rows SourcedLine.shortBy addends := by
  rw [purchaseToPayCost] at h
  split at h
  next => exact absurd h (by simp)
  next =>
    split at h
    next =>
      exact ⟨[], (Option.some.inj h).symm, fun _ hadded => absurd hadded List.not_mem_nil,
        fun _ ha => absurd ha List.not_mem_nil⟩
    next =>
      have hsub := payableLines_subset rows buildQuantity
      obtain ⟨addends, hcost, hone⟩ :=
        sumBestOfferCost_oneCurrency (fun row hrow => hshown row (hsub hrow)) h
      exact ⟨addends, hcost, hone.mono hsub⟩

theorem totalBomCost_oneCurrency
    (hshown : ∀ row ∈ rows, ∀ best, row.bestOffer = some best → ShownIn py best)
    (h : totalBomCost py rows = some cost) :
    ∃ addends, cost = sumAddends addends ∧ OneCurrency py rows SourcedLine.required addends := by
  have hsub : effectiveLines rows ⊆ rows := fun row hrow => (List.mem_filter.mp hrow).1
  obtain ⟨addends, hcost, hone⟩ := sumBestOfferCost_oneCurrency (fun row hrow => hshown row (hsub hrow)) h
  exact ⟨addends, hcost, hone.mono hsub⟩

theorem displayedLines_sourceBom {shortage : List ShortageRow} {lines : List SourcedLine}
    {converted : List (SourcedLine × List FxStatus)}
    (hrates : ∀ row ∈ shortage, RatesAvailable py rates requested
      (rowDistributors casefold partMpns searchResults row))
    (hlines : List.Forall₂ (fun row line => sourceBomLine casefold partMpns searchResults row = .ok line)
      shortage lines)
    (hconverted : List.Forall₂ (fun line item => applyFxToLine py requested (some rates) line = .ok item)
      lines converted) :
    List.Forall₂ (fun row line => DisplayedLine py requested rates
      (rowDistributors casefold partMpns searchResults row) row line) shortage (converted.map Prod.fst) := by
  induction hlines generalizing converted with
  | nil =>
    cases hconverted
    exact .nil
  | cons hline _ ih =>
    cases hconverted with
    | cons hstep hconverted =>
      refine .cons ?_ (ih (fun row hrow => hrates row (List.mem_cons_of_mem _ hrow)) hconverted)
      exact displayedLine_applyFxToLine (listedLine_sourceBomLine hline) (hrates _ List.mem_cons_self) hstep

/-- The best offers are the cheapest ones exactly where no conversion overtakes them. -/
theorem sourceBom_cheapestShown (py : Upper) (casefold : String → String) (partMpns : PartMpns)
    (searchResults : SearchResults) (requested : Option String) (rates : Rates) (buildQuantity : ℤ)
    (shortage : List ShortageRow) (out : SourcingBomOut)
    (hrates : ∀ row ∈ shortage, RatesAvailable py rates requested
      (rowDistributors casefold partMpns searchResults row))
    (h : sourceBom py casefold partMpns searchResults requested (some rates) buildQuantity shortage = .ok out) :
    CheapestShown py out ↔ ∀ row ∈ shortage, 1 ≤ ⌈row.shortBy⌉ → KeepsCheapest py requested rates
      (rowDistributors casefold partMpns searchResults row) ⌈row.shortBy⌉ := by
  obtain ⟨lines, hlines, h⟩ := Outcome.bind_ok.mp h
  obtain ⟨shown, hshown, h⟩ := Outcome.bind_ok.mp h
  obtain ⟨converted, hconverted, hshown⟩ := Outcome.bind_ok.mp hshown
  obtain rfl := Outcome.pure_ok.mp hshown
  obtain rfl := Outcome.pure_ok.mp h
  have hall := displayedLines_sourceBom hrates (Outcome.mapM_ok hlines) (Outcome.mapM_ok hconverted)
  have hin : ∀ line ∈ converted.map Prod.fst, ∀ best, line.bestOffer = some best → ShownIn py best := by
    intro line hline best hbest
    obtain ⟨row, -, hdisplayed⟩ := exists_of_forall₂ hall hline
    obtain ⟨place, -, hplace⟩ := Option.bind_eq_some_iff.mp hbest
    exact hdisplayed.shown best (List.mem_of_getElem? hplace)
  constructor
  · intro hcheapest row hrow hshort
    obtain ⟨line, hline, hdisplayed⟩ := exists_of_forall₂ hall.flip hrow
    have hkeeps := hdisplayed.bestIsCheapest_iff.mp (hcheapest.lines line hline)
    rw [hdisplayed.shortBy] at hkeeps
    exact hkeeps hshort
  · intro hkeeps
    refine ⟨fun line hline => ?_, fun cost => totalBomCost_oneCurrency hin,
      fun cost => purchaseToPayCost_oneCurrency hin⟩
    obtain ⟨row, hrow, hdisplayed⟩ := exists_of_forall₂ hall hline
    refine hdisplayed.bestIsCheapest_iff.mpr fun hshort => ?_
    rw [hdisplayed.shortBy] at hshort ⊢
    exact hkeeps row hrow hshort

def sampleUpper : Upper := ⟨id, strip_strip⟩

def sampleDistributor (name currency : String) (price : Decimal) : SourcingDistributor :=
  ⟨name, some 100, some price, some currency, none, none, none, [], none⟩

def sampleResults (price : Decimal) : SearchResults :=
  [("R1", [⟨none, none, [sampleDistributor "Euro" "EUR" price, sampleDistributor "Yen" "JPY" 10]⟩])]

/-- A hundred yen for a euro -/
def sampleRates : Rates := fun currency => if currency = "JPY" then some 100 else none

def sampleMpns : PartMpns := fun _ => some (some "R1")

/-- Five are missing. -/
def sampleShortage : ShortageRow := ⟨1, 1, "Resistor", 0, 5, 0, [], 0, 5⟩

def sampleSource (price : Decimal) : Except FxError SourcingBomOut :=
  sourceBom sampleUpper id sampleMpns (sampleResults price) (some "EUR") (some sampleRates) 1 [sampleShortage]

theorem sampleRates_available (price : Decimal) : ∀ row ∈ [sampleShortage],
    RatesAvailable sampleUpper sampleRates (some "EUR") (rowDistributors id sampleMpns (sampleResults price) row) := by
  intro row hrow
  obtain rfl := List.mem_singleton.mp hrow
  have heur : cleanCurrency sampleUpper (some "EUR") = some "EUR" := by decide
  have hjpy : cleanCurrency sampleUpper (some "JPY") = some "JPY" := by decide
  have hall : rowDistributors id sampleMpns (sampleResults price) sampleShortage =
      [sampleDistributor "Euro" "EUR" price, sampleDistributor "Yen" "JPY" 10] := by rfl
  refine ⟨fun code hcode => ?_, fun d hd code hcode => ?_⟩
  · rw [heur] at hcode
    rw [← Option.some.inj hcode]
    rfl
  · rw [hall] at hd
    rcases List.mem_pair.mp hd with rfl | rfl
    · rw [sampleDistributor, heur] at hcode
      rw [← Option.some.inj hcode]
      rfl
    · rw [sampleDistributor, hjpy] at hcode
      rw [← Option.some.inj hcode]
      rfl

theorem sourceBom_cheapestShown_sample : ∃ out, sampleSource (1 / 20) = .ok out ∧
    (CheapestShown sampleUpper out ↔ ∀ row ∈ [sampleShortage], 1 ≤ ⌈row.shortBy⌉ →
      KeepsCheapest sampleUpper (some "EUR") sampleRates
        (rowDistributors id sampleMpns (sampleResults (1 / 20)) row) ⌈row.shortBy⌉) := by
  obtain ⟨out, hout⟩ := @Outcome.exists_ok _ _ (sampleSource (1 / 20)) (by decide +kernel)
  exact ⟨out, hout, sourceBom_cheapestShown sampleUpper id sampleMpns (sampleResults (1 / 20)) (some "EUR")
    sampleRates 1 [sampleShortage] out (sampleRates_available _) hout⟩

/-- One euro is chosen before ten yen, and ten yen are ten cents. -/
theorem yen_overtakes : ¬∀ (py : Upper) (casefold : String → String) (partMpns : PartMpns)
    (searchResults : SearchResults) (requested : Option String) (rates : Rates) (buildQuantity : ℤ)
    (shortage : List ShortageRow) (out : SourcingBomOut),
    (∀ row ∈ shortage, RatesAvailable py rates requested
      (rowDistributors casefold partMpns searchResults row)) →
    sourceBom py casefold partMpns searchResults requested (some rates) buildQuantity shortage = .ok out →
      CheapestShown py out := by
  intro h
  have hprices : (sampleSource 1).toOption.map (fun out => out.rows.map fun line =>
      (line.bestOffer.map fun o => offerUnitPrice o line.shortBy,
        line.offers[1]?.map fun o => offerUnitPrice o line.shortBy)) =
      some [(some (some 1), some (some (1 / 10)))] := by
    decide +kernel
  obtain ⟨out, hout⟩ := @Outcome.exists_ok _ _ (sampleSource 1) (by decide +kernel)
  have hshown := h sampleUpper id sampleMpns (sampleResults 1) (some "EUR") sampleRates 1 [sampleShortage] out
    (sampleRates_available 1) hout
  rw [hout] at hprices
  obtain ⟨line, hline, hpair⟩ := List.map_eq_singleton_iff.mp (Option.some.inj hprices)
  obtain ⟨hbest, hyen⟩ := Prod.mk.inj hpair
  obtain ⟨best, hbest, hprice⟩ := Option.map_eq_some_iff.mp hbest
  obtain ⟨yen, hyen, hyenPrice⟩ := Option.map_eq_some_iff.mp hyen
  have hmem : line ∈ out.rows := hline ▸ List.mem_singleton_self line
  obtain ⟨price, hone, hle⟩ := (hshown.lines line hmem).cheapest best hbest yen (List.mem_of_getElem? hyen) _ hyenPrice
  rw [hprice] at hone
  rw [← Option.some.inj hone] at hle
  exact absurd hle (by norm_num)

end StockManager
