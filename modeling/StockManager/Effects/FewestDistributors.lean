import StockManager.Effects.Candidates

/-! # The loop over the distributors

What one turn of `_optimize_fewest_distributors` takes, what the loop leaves
unfilled, and that neither depends on the order of the offers. -/

namespace StockManager

variable {rows rows' : List SourcingBomLineOut} {remaining : List (Uuid × SourcingBomLineOut)}
  {c : Candidate}

section Casefold

variable (casefold : String → String) (moqOverbuyCap : Option ℤ)

def candidatesLeft (remaining : List (Uuid × SourcingBomLineOut)) : List Candidate :=
  remaining.flatMap fun item => candidates casefold moqOverbuyCap item.2

def suppliedBy (found : List Candidate) (key : String) : List Candidate :=
  found.filter fun c => casefold c.offer.distributor = key

def distributorKeys (found : List Candidate) : List String :=
  Dict.keys (Dict.gather (fun c : Candidate => casefold c.offer.distributor) id found)

def roundKey (found : List Candidate) (key : String) : ℤ ×ₗ Decimal ×ₗ String :=
  let best := bestCandidatesForDistributor casefold (suppliedBy casefold found key)
  toLex (-(best.length : ℤ), toLex ((best.map fun item => item.2.extendedCost).sum, key))

end Casefold

variable {casefold : String → String} {moqOverbuyCap : Option ℤ}

theorem mem_distributorKeys {found : List Candidate} {key : String} :
    key ∈ distributorKeys casefold found ↔ ∃ c ∈ found, casefold c.offer.distributor = key := by
  unfold distributorKeys Dict.gather
  rw [Dict.mem_keys_collect]
  simp [Dict.keys]

theorem displayNames_casefold (found : List Candidate) {key : String}
    (h : key ∈ distributorKeys casefold found) :
    casefold ((Dict.find key (found.foldl (fun names c =>
      Dict.upsert (casefold c.offer.distributor) c.offer.distributor id names) [])).getD "") =
        key := by
  obtain ⟨name, hname, hkey⟩ := Dict.find_firstName (fun c : Candidate => c.offer.distributor)
    casefold found (mem_distributorKeys.mp h)
  rw [hname, Option.getD_some, hkey]

theorem fewestRound_eq (remaining : List (Uuid × SourcingBomLineOut)) :
    fewestRound casefold moqOverbuyCap remaining =
      ((distributorKeys casefold (candidatesLeft casefold moqOverbuyCap remaining)).argmin
        (roundKey casefold (candidatesLeft casefold moqOverbuyCap remaining))).map fun key =>
          (bestCandidatesForDistributor casefold (suppliedBy casefold
            (candidatesLeft casefold moqOverbuyCap remaining) key)).insertionSort
              fun a b => a.1 ≤ b.1 := by
  have hunfold : fewestRound casefold moqOverbuyCap remaining =
      ((distributorKeys casefold (candidatesLeft casefold moqOverbuyCap remaining)).argmin
        (fewestDistributorKey casefold
          (Dict.gather (fun c : Candidate => casefold c.offer.distributor) id
            (candidatesLeft casefold moqOverbuyCap remaining))
          ((candidatesLeft casefold moqOverbuyCap remaining).foldl (fun names c =>
            Dict.upsert (casefold c.offer.distributor) c.offer.distributor id names) []))).map
        fun key => (bestCandidatesForDistributor casefold ((Dict.find key
          (Dict.gather (fun c : Candidate => casefold c.offer.distributor) id
            (candidatesLeft casefold moqOverbuyCap remaining))).getD [])).insertionSort
              fun a b => a.1 ≤ b.1 := rfl
  rw [hunfold]
  generalize candidatesLeft casefold moqOverbuyCap remaining = found
  have hgroup : ∀ key, (Dict.find key (Dict.gather (fun c : Candidate =>
      casefold c.offer.distributor) id found)).getD [] = suppliedBy casefold found key := by
    intro key
    rw [Dict.getD_find_gather, List.map_id]
    rfl
  have hkey : ∀ key ∈ distributorKeys casefold found,
      fewestDistributorKey casefold
        (Dict.gather (fun c : Candidate => casefold c.offer.distributor) id found)
        (found.foldl (fun names c =>
          Dict.upsert (casefold c.offer.distributor) c.offer.distributor id names) []) key =
        roundKey casefold found key := by
    intro key hmem
    simp only [fewestDistributorKey, roundKey, hgroup, displayNames_casefold _ hmem]
  rw [FirstMin.argmin_congr hkey]
  simp only [hgroup]

theorem mem_bestCandidates {found : List Candidate} {id : Uuid}
    (h : (id, c) ∈ bestCandidatesForDistributor casefold found) :
    c ∈ found ∧ c.line.projectEntryId = id := by
  have hbest := (FirstMin.mem_bestBy _ _).mp h
  obtain ⟨hmem, hid⟩ := List.mem_filter.mp (FirstMin.argmin_spec hbest).1
  exact ⟨hmem, by simpa using hid⟩

theorem fewestRound_some {best : List (Uuid × Candidate)}
    (h : fewestRound casefold moqOverbuyCap remaining = some best) :
    best ≠ [] ∧ (Dict.keys best).Nodup ∧ ∀ item ∈ best,
      item.2 ∈ candidatesLeft casefold moqOverbuyCap remaining ∧
        item.2.line.projectEntryId = item.1 := by
  rw [fewestRound_eq] at h
  obtain ⟨key, hkey, rfl⟩ := Option.map_eq_some_iff.mp h
  generalize candidatesLeft casefold moqOverbuyCap remaining = found at *
  have hperm := (bestCandidatesForDistributor casefold
    (suppliedBy casefold found key)).perm_insertionSort fun a b => a.1 ≤ b.1
  refine ⟨?_, ?_, ?_⟩
  · intro hnil
    rw [hnil, List.nil_perm] at hperm
    obtain ⟨c, hc, heq⟩ := mem_distributorKeys.mp (FirstMin.argmin_spec hkey).1
    have hmem : c.line.projectEntryId ∈ Dict.keys (bestCandidatesForDistributor casefold
        (suppliedBy casefold found key)) :=
      (FirstMin.mem_keys_bestBy _ _).mpr ⟨c, List.mem_filter.mpr ⟨hc, by simpa using heq⟩, rfl⟩
    rw [hperm] at hmem
    cases hmem
  · have hkeys : (Dict.keys (bestCandidatesForDistributor casefold
        (suppliedBy casefold found key))).Nodup := FirstMin.nodup_keys_bestBy _ _ _
    exact ((hperm.map Prod.fst).nodup_iff).mpr hkeys
  · intro item hitem
    obtain ⟨hc, hid⟩ := mem_bestCandidates (hperm.mem_iff.mp hitem)
    exact ⟨List.mem_of_mem_filter hc, hid⟩

theorem fewestRound_none (h : fewestRound casefold moqOverbuyCap remaining = none) :
    candidatesLeft casefold moqOverbuyCap remaining = [] := by
  rw [fewestRound_eq, Option.map_eq_none_iff] at h
  have hkeys := List.argmin_eq_none.mp h
  rw [List.eq_nil_iff_forall_not_mem]
  intro c hc
  have hmem : casefold c.offer.distributor ∈ distributorKeys casefold
      (candidatesLeft casefold moqOverbuyCap remaining) := mem_distributorKeys.mpr ⟨c, hc, rfl⟩
  rw [hkeys] at hmem
  cases hmem

theorem mem_candidatesLeft :
    c ∈ candidatesLeft casefold moqOverbuyCap remaining ↔
      ∃ item ∈ remaining, c ∈ candidates casefold moqOverbuyCap item.2 := List.mem_flatMap

variable (casefold moqOverbuyCap) in
/-- Every row either remains or has a selection made from one of its candidates. -/
structure LoopState (rows : List SourcingBomLineOut) (remaining : List (Uuid × SourcingBomLineOut))
    (selectedByLine : List (Uuid × OptimizerSelection)) : Prop where
  keys : (Dict.keys remaining).Nodup
  left : ∀ item ∈ remaining, item.2 ∈ rows ∧ item.1 = item.2.projectEntryId
  taken : ∀ row ∈ rows, (row.projectEntryId, row) ∈ remaining ∨
    row.projectEntryId ∉ Dict.keys remaining ∧ ∃ c ∈ candidates casefold moqOverbuyCap row,
      Dict.find row.projectEntryId selectedByLine = some (selectionFromCandidate c)

section Round

variable {rows : List SourcingBomLineOut} {remaining : List (Uuid × SourcingBomLineOut)}
  {selectedByLine : List (Uuid × OptimizerSelection)} {best : List (Uuid × Candidate)}

theorem round_row (hstate : LoopState casefold moqOverbuyCap rows remaining selectedByLine)
    (h : fewestRound casefold moqOverbuyCap remaining = some best) {item : Uuid × Candidate}
    (hitem : item ∈ best) : (item.1, item.2.line) ∈ remaining ∧
      item.2 ∈ candidates casefold moqOverbuyCap item.2.line := by
  obtain ⟨hfound, hid⟩ := (fewestRound_some h).2.2 item hitem
  obtain ⟨source, hsource, hc⟩ := mem_candidatesLeft.mp hfound
  have hline : item.2.line = source.2 := (mem_candidates.mp hc).2.1
  have hkey : item.1 = source.1 := by
    rw [(hstate.left source hsource).2, ← hline, hid]
  rw [hkey, hline]
  exact ⟨hsource, hc⟩

theorem loopState_round (hstate : LoopState casefold moqOverbuyCap rows remaining selectedByLine)
    (h : fewestRound casefold moqOverbuyCap remaining = some best) :
    LoopState casefold moqOverbuyCap rows
      (best.foldl (fun d item => Dict.erase item.1 d) remaining)
      (best.foldl (fun d item => Dict.put item.1 (selectionFromCandidate item.2) d)
        selectedByLine) := by
  have hkeys := (fewestRound_some h).2.1
  rw [Dict.foldl_erase]
  refine ⟨?_, ?_, ?_⟩
  · exact hstate.keys.sublist (List.filter_sublist.map Prod.fst)
  · intro item hitem
    exact hstate.left item (List.mem_of_mem_filter hitem)
  · intro row hrow
    rw [Dict.find_foldl_put_map selectionFromCandidate hkeys]
    have hgone : row.projectEntryId ∈ Dict.keys best →
        row.projectEntryId ∉ Dict.keys (remaining.filter fun item => item.1 ∉ best.map Prod.fst) := by
      intro hmem hkey
      obtain ⟨item, hitem, heq⟩ := List.mem_map.mp hkey
      have hnot := (List.mem_filter.mp hitem).2
      rw [heq] at hnot
      exact absurd hmem (by simpa [Dict.keys] using hnot)
    rcases hstate.taken row hrow with hleft | ⟨hnot, c, hc, hfind⟩
    · cases hbest : Dict.find row.projectEntryId best with
      | none =>
        left
        have hout := Dict.find_eq_none.mp hbest
        exact List.mem_filter.mpr ⟨hleft, by simpa [Dict.keys] using hout⟩
      | some c =>
        right
        have hmem := Dict.mem_of_find hbest
        obtain ⟨hline, hc⟩ := round_row hstate h hmem
        have hrowEq : c.line = row := by
          have hone := (Dict.mem_iff_find hstate.keys).mp hline
          have htwo := (Dict.mem_iff_find hstate.keys).mp hleft
          rw [htwo] at hone
          exact (Option.some.inj hone).symm
        rw [hrowEq] at hc
        exact ⟨hgone (List.mem_map.mpr ⟨_, hmem, rfl⟩), c, hc, rfl⟩
    · right
      have hout : Dict.find row.projectEntryId best = none := by
        rw [Dict.find_eq_none]
        intro hmem
        obtain ⟨item, hitem, heq⟩ := List.mem_map.mp hmem
        have hin := (round_row hstate h hitem).1
        exact hnot (heq ▸ List.mem_map.mpr ⟨_, hin, rfl⟩)
      rw [hout]
      refine ⟨?_, c, hc, hfind⟩
      intro hkey
      obtain ⟨item, hitem, heq⟩ := List.mem_map.mp hkey
      exact hnot (List.mem_map.mpr ⟨item, List.mem_of_mem_filter hitem, heq⟩)

theorem length_round (hstate : LoopState casefold moqOverbuyCap rows remaining selectedByLine)
    (h : fewestRound casefold moqOverbuyCap remaining = some best) :
    (best.foldl (fun d item => Dict.erase item.1 d) remaining).length < remaining.length := by
  obtain ⟨item, hitem⟩ := List.exists_mem_of_ne_nil best (fewestRound_some h).1
  rw [Dict.foldl_erase, List.length_filter_lt_length_iff_exists]
  refine ⟨_, (round_row hstate h hitem).1, ?_⟩
  simpa using ⟨item.2, hitem⟩

end Round

/-- With as many turns as rows, the loop ends by itself: without a limit no row
that is left has a candidate. -/
theorem fewestLoop_state (maxDistributors : Option ℤ)
    (turns used : ℕ) (remaining : List (Uuid × SourcingBomLineOut))
    (selectedByLine : List (Uuid × OptimizerSelection)) (hturns : remaining.length ≤ turns)
    (hstate : LoopState casefold moqOverbuyCap rows remaining selectedByLine) :
    let left := fewestLoop casefold moqOverbuyCap maxDistributors turns used remaining selectedByLine
    LoopState casefold moqOverbuyCap rows left.1 left.2 ∧
      (maxDistributors = none → candidatesLeft casefold moqOverbuyCap left.1 = []) := by
  induction turns generalizing used remaining selectedByLine with
  | zero =>
    have hnil : remaining = [] := List.length_eq_zero_iff.mp (by omega)
    subst hnil
    exact ⟨hstate, fun _ => rfl⟩
  | succ turns ih =>
    simp only [fewestLoop]
    split
    next hgo =>
      cases hround : fewestRound casefold moqOverbuyCap remaining with
      | none => exact ⟨hstate, fun _ => fewestRound_none hround⟩
      | some best =>
        have hlen := length_round hstate hround
        exact ih _ _ _ (by omega) (loopState_round hstate hround)
    next hstop =>
      refine ⟨hstate, ?_⟩
      intro hmax
      have hnil : remaining = [] := by
        by_contra hne
        exact hstop ⟨hne, by simp [hmax]⟩
      subst hnil
      rfl

def RowSettled (casefold : String → String) (moqOverbuyCap : Option ℤ) (row : SourcingBomLineOut)
    (s : OptimizerSelection) : Prop :=
  s = unfilledSelection row ∨ ∃ c ∈ candidates casefold moqOverbuyCap row,
    s = selectionFromCandidate c

theorem forall₂_filterMap {α β : Type} {f : α → Option β} {P : α → β → Prop} {l : List α}
    (h : ∀ a ∈ l, ∃ b, f a = some b ∧ P a b) : List.Forall₂ P l (l.filterMap f) := by
  induction l with
  | nil => exact .nil
  | cons a l ih =>
    obtain ⟨b, hb, hp⟩ := h a (List.mem_cons_self ..)
    rw [List.filterMap_cons_some hb]
    exact .cons hp (ih fun x hx => h x (List.mem_cons_of_mem _ hx))

variable (casefold moqOverbuyCap) in
theorem loopState_initial (hrows : (rows.map (·.projectEntryId)).Nodup) :
    LoopState casefold moqOverbuyCap rows (rows.map fun row => (row.projectEntryId, row)) [] := by
  refine ⟨by simpa [Dict.keys, Function.comp_def] using hrows, ?_, ?_⟩
  · intro item hitem
    obtain ⟨row, hrow, rfl⟩ := List.mem_map.mp hitem
    exact ⟨hrow, rfl⟩
  · intro row hrow
    exact .inl (List.mem_map_of_mem hrow)

theorem find_unfilled {selectedByLine : List (Uuid × OptimizerSelection)}
    (hstate : LoopState casefold moqOverbuyCap rows remaining selectedByLine) (k : Uuid) :
    Dict.find k (remaining.foldl
        (fun d item => Dict.put item.2.projectEntryId (unfilledSelection item.2) d) selectedByLine) =
      ((Dict.find k remaining).map unfilledSelection).or (Dict.find k selectedByLine) := by
  have hsame : remaining.foldl
      (fun d item => Dict.put item.2.projectEntryId (unfilledSelection item.2) d) selectedByLine =
      remaining.foldl (fun d item => Dict.put item.1 (unfilledSelection item.2) d)
        selectedByLine := by
    apply List.foldl_ext
    intro d item hitem
    rw [(hstate.left item hitem).2]
  rw [hsame, Dict.find_foldl_put_map unfilledSelection hstate.keys]

/-- One selection for each row, in order; without a limit only the rows that have
no candidate stay unfilled. -/
theorem optimizeFewest_settled
    (hrows : (rows.map (·.projectEntryId)).Nodup) (maxDistributors : Option ℤ) :
    List.Forall₂ (fun row s => RowSettled casefold moqOverbuyCap row s ∧
        (maxDistributors = none → s.selectedDistributor = none →
          candidates casefold moqOverbuyCap row = []))
      rows (optimizeFewestDistributors casefold rows maxDistributors moqOverbuyCap) := by
  have hloop := fewestLoop_state maxDistributors _ 0 _ [] le_rfl
    (loopState_initial casefold moqOverbuyCap hrows)
  simp only [optimizeFewestDistributors, Dict.foldl_put_of_nodup _ (fun row => row) hrows]
  simp only at hloop
  generalize fewestLoop casefold moqOverbuyCap maxDistributors
    (rows.map fun row => (row.projectEntryId, row)).length 0
      (rows.map fun row => (row.projectEntryId, row)) [] = left at hloop ⊢
  obtain ⟨hstate, hnone⟩ := hloop
  apply forall₂_filterMap
  intro row hrow
  rw [find_unfilled hstate]
  rcases hstate.taken row hrow with hleft | ⟨hnot, c, hc, hfind⟩
  · rw [(Dict.mem_iff_find hstate.keys).mp hleft]
    refine ⟨unfilledSelection row, rfl, .inl rfl, ?_⟩
    intro hmax _
    rw [List.eq_nil_iff_forall_not_mem]
    intro c hc
    have hmem := mem_candidatesLeft.mpr ⟨_, hleft, hc⟩
    rw [hnone hmax] at hmem
    cases hmem
  · rw [Dict.find_eq_none.mpr hnot]
    refine ⟨selectionFromCandidate c, hfind, .inr ⟨c, hc, rfl⟩, ?_⟩
    intro _ hnull
    cases hnull

def SameLeft (remaining remaining' : List (Uuid × SourcingBomLineOut)) : Prop :=
  List.Forall₂ (fun x y => x.1 = y.1 ∧ SameRow x.2 y.2) remaining remaining'

section Reordered

variable {remaining remaining' : List (Uuid × SourcingBomLineOut)} {found found' : List Candidate}

variable (casefold moqOverbuyCap) in
theorem candidatesLeft_perm (h : SameLeft remaining remaining') :
    ((candidatesLeft casefold moqOverbuyCap remaining).map Candidate.terms).Perm
      ((candidatesLeft casefold moqOverbuyCap remaining').map Candidate.terms) := by
  induction h with
  | nil => exact List.Perm.refl _
  | cons hxy _ ih =>
    simp only [candidatesLeft, List.flatMap_cons, List.map_append] at ih ⊢
    exact (candidates_terms_perm casefold moqOverbuyCap hxy.2).append ih

variable (casefold) in
theorem suppliedBy_perm (h : (found.map Candidate.terms).Perm (found'.map Candidate.terms))
    (key : String) : ((suppliedBy casefold found key).map Candidate.terms).Perm
      ((suppliedBy casefold found' key).map Candidate.terms) := by
  have hfilter : ∀ found : List Candidate, (suppliedBy casefold found key).map Candidate.terms =
      (found.map Candidate.terms).filter fun t => casefold t.2.1.distributor = key := by
    intro found
    rw [List.filter_map]
    rfl
  rw [hfilter, hfilter]
  exact h.filter _

variable (casefold) in
def termsKey (t : Uuid × SourcingBomOfferOut × ℤ × Decimal × Decimal) : Decimal ×ₗ AlphaKey :=
  toLex (t.2.2.2.2, alphaKey casefold t.2.1)

variable (casefold) in
theorem bestCandidates_perm (h : (found.map Candidate.terms).Perm (found'.map Candidate.terms)) :
    ((bestCandidatesForDistributor casefold found).map fun item =>
        (item.1, lowestPriceKey casefold item.2)).Perm
      ((bestCandidatesForDistributor casefold found').map fun item =>
        (item.1, lowestPriceKey casefold item.2)) :=
  FirstMin.bestBy_perm Prod.fst (termsKey casefold) h
    (fun _ => rfl) (fun _ => rfl) (fun _ => rfl) (fun _ => rfl)

variable (casefold) in
theorem find_bestCandidates_perm
    (h : (found.map Candidate.terms).Perm (found'.map Candidate.terms)) (k : Uuid) :
    (Dict.find k (bestCandidatesForDistributor casefold found)).map (lowestPriceKey casefold) =
      (Dict.find k (bestCandidatesForDistributor casefold found')).map (lowestPriceKey casefold) :=
  FirstMin.map_find_bestBy_perm Prod.fst (termsKey casefold) h
    (fun _ => rfl) (fun _ => rfl) (fun _ => rfl) (fun _ => rfl) k

variable (casefold) in
theorem roundKey_perm (h : (found.map Candidate.terms).Perm (found'.map Candidate.terms)) :
    roundKey casefold found = roundKey casefold found' := by
  funext key
  have hperm := bestCandidates_perm casefold (suppliedBy_perm casefold h key)
  have hlen := hperm.length_eq
  have hsum := (hperm.map fun item => (ofLex item.2).1).sum_eq
  simp only [List.length_map, List.map_map, Function.comp_def, lowestPriceKey, ofLex_toLex] at hlen hsum
  simp only [roundKey, hlen, hsum]

variable (casefold) in
theorem distributorKeys_perm (h : (found.map Candidate.terms).Perm (found'.map Candidate.terms)) :
    (distributorKeys casefold found).Perm (distributorKeys casefold found') := by
  have hnodup : ∀ found, (distributorKeys casefold found).Nodup := fun found =>
    Dict.nodup_keys_collect (by simp [Dict.keys]) found
  have hmem : ∀ (found : List Candidate) key, key ∈ distributorKeys casefold found ↔
      ∃ t ∈ found.map Candidate.terms, casefold t.2.1.distributor = key := by
    intro found key
    rw [mem_distributorKeys]
    simp [Candidate.terms]
  rw [List.perm_ext_iff_of_nodup (hnodup _) (hnodup _)]
  intro key
  rw [hmem, hmem]
  constructor
  · rintro ⟨t, ht, heq⟩
    exact ⟨t, h.mem_iff.mp ht, heq⟩
  · rintro ⟨t, ht, heq⟩
    exact ⟨t, h.mem_iff.mpr ht, heq⟩

variable (casefold moqOverbuyCap) in
theorem fewestRound_alike (h : SameLeft remaining remaining') :
    (fewestRound casefold moqOverbuyCap remaining = none ∧
      fewestRound casefold moqOverbuyCap remaining' = none) ∨
    ∃ best best', fewestRound casefold moqOverbuyCap remaining = some best ∧
      fewestRound casefold moqOverbuyCap remaining' = some best' ∧
      ∀ k, (Dict.find k best).map (lowestPriceKey casefold) =
        (Dict.find k best').map (lowestPriceKey casefold) := by
  have hfound := candidatesLeft_perm casefold moqOverbuyCap h
  rw [fewestRound_eq, fewestRound_eq]
  generalize candidatesLeft casefold moqOverbuyCap remaining = found at hfound ⊢
  generalize candidatesLeft casefold moqOverbuyCap remaining' = found' at hfound ⊢
  have hkeys := distributorKeys_perm casefold hfound
  have hround := roundKey_perm casefold hfound
  rw [← hround]
  have hleast := FirstMin.map_argmin_perm (hkeys.map (roundKey casefold found))
  cases hmin : (distributorKeys casefold found).argmin (roundKey casefold found) with
  | none =>
    rw [hmin, Option.map_none] at hleast
    left
    rw [Option.map_eq_none_iff.mp hleast.symm]
    exact ⟨rfl, rfl⟩
  | some key =>
    rw [hmin, Option.map_some] at hleast
    obtain ⟨key', hmin', heq⟩ := Option.map_eq_some_iff.mp hleast.symm
    have hsame : key' = key := by
      have hthird := congrArg (fun t => (ofLex (ofLex t).2).2) heq
      simpa [roundKey] using hthird
    subst hsame
    right
    rw [hmin']
    refine ⟨_, _, rfl, rfl, ?_⟩
    intro k
    have hsorted : ∀ found : List Candidate, Dict.find k ((bestCandidatesForDistributor casefold
        found).insertionSort fun a b => a.1 ≤ b.1) =
          Dict.find k (bestCandidatesForDistributor casefold found) := fun found =>
      Dict.find_perm (List.perm_insertionSort _ _) (FirstMin.nodup_keys_bestBy _ _ _)
    rw [hsorted, hsorted]
    exact find_bestCandidates_perm casefold (suppliedBy_perm casefold hfound key') k

end Reordered

def SameChoices (casefold : String → String) (moqOverbuyCap : Option ℤ)
    (rows rows' : List SourcingBomLineOut)
    (selectedByLine selectedByLine' : List (Uuid × OptimizerSelection)) : Prop :=
  ∀ k, (Dict.find k selectedByLine = none ∧ Dict.find k selectedByLine' = none) ∨
    ∃ c c', c.line ∈ rows ∧ c'.line ∈ rows' ∧
      c.line.projectEntryId = k ∧ c'.line.projectEntryId = k ∧
      c ∈ candidates casefold moqOverbuyCap c.line ∧
      c' ∈ candidates casefold moqOverbuyCap c'.line ∧
      lowestPriceKey casefold c = lowestPriceKey casefold c' ∧
      Dict.find k selectedByLine = some (selectionFromCandidate c) ∧
      Dict.find k selectedByLine' = some (selectionFromCandidate c')

section Lockstep

variable {rows rows' : List SourcingBomLineOut}
  {remaining remaining' : List (Uuid × SourcingBomLineOut)}
  {selectedByLine selectedByLine' : List (Uuid × OptimizerSelection)}
  {best best' : List (Uuid × Candidate)}

theorem keys_alike (hkeys : ∀ k, (Dict.find k best).map (lowestPriceKey casefold) =
    (Dict.find k best').map (lowestPriceKey casefold)) (k : Uuid) :
    k ∈ Dict.keys best ↔ k ∈ Dict.keys best' := by
  have hnone : Dict.find k best = none ↔ Dict.find k best' = none := by
    rw [← Option.map_eq_none_iff, hkeys k, Option.map_eq_none_iff]
  rw [Dict.find_eq_none, Dict.find_eq_none] at hnone
  exact not_iff_not.mp hnone

theorem sameLeft_erase (h : SameLeft remaining remaining')
    (hkeys : ∀ k, k ∈ Dict.keys best ↔ k ∈ Dict.keys best') :
    SameLeft (best.foldl (fun d item => Dict.erase item.1 d) remaining)
      (best'.foldl (fun d item => Dict.erase item.1 d) remaining') := by
  rw [Dict.foldl_erase, Dict.foldl_erase]
  apply List.rel_filter _ h
  intro x y hxy
  have hx := hkeys y.1
  unfold Dict.keys at hx
  simp only [decide_eq_true_eq, hxy.1, hx]

theorem round_candidate (hstate : LoopState casefold moqOverbuyCap rows remaining selectedByLine)
    (h : fewestRound casefold moqOverbuyCap remaining = some best) {k : Uuid}
    (hfind : Dict.find k best = some c) :
    c.line ∈ rows ∧ c.line.projectEntryId = k ∧ c ∈ candidates casefold moqOverbuyCap c.line := by
  have hmem := Dict.mem_of_find hfind
  obtain ⟨hline, hc⟩ := round_row hstate h hmem
  obtain ⟨hrow, hid⟩ := hstate.left _ hline
  exact ⟨hrow, hid.symm, hc⟩

theorem sameChoices_round (hstate : LoopState casefold moqOverbuyCap rows remaining selectedByLine)
    (hstate' : LoopState casefold moqOverbuyCap rows' remaining' selectedByLine')
    (hround : fewestRound casefold moqOverbuyCap remaining = some best)
    (hround' : fewestRound casefold moqOverbuyCap remaining' = some best')
    (hkeys : ∀ k, (Dict.find k best).map (lowestPriceKey casefold) =
      (Dict.find k best').map (lowestPriceKey casefold))
    (h : SameChoices casefold moqOverbuyCap rows rows' selectedByLine selectedByLine') :
    SameChoices casefold moqOverbuyCap rows rows'
      (best.foldl (fun d item => Dict.put item.1 (selectionFromCandidate item.2) d) selectedByLine)
      (best'.foldl (fun d item => Dict.put item.1 (selectionFromCandidate item.2) d)
        selectedByLine') := by
  intro k
  rw [Dict.find_foldl_put_map selectionFromCandidate (fewestRound_some hround).2.1,
    Dict.find_foldl_put_map selectionFromCandidate (fewestRound_some hround').2.1]
  have hkey := hkeys k
  cases hbest : Dict.find k best with
  | none =>
    rw [hbest, Option.map_none] at hkey
    rw [Option.map_eq_none_iff.mp hkey.symm]
    exact h k
  | some c =>
    rw [hbest, Option.map_some] at hkey
    obtain ⟨c', hbest', htie⟩ := Option.map_eq_some_iff.mp hkey.symm
    rw [hbest']
    obtain ⟨hrow, hid, hc⟩ := round_candidate hstate hround hbest
    obtain ⟨hrow', hid', hc'⟩ := round_candidate hstate' hround' hbest'
    exact .inr ⟨c, c', hrow, hrow', hid, hid', hc, hc', htie.symm, rfl, rfl⟩

theorem fewestLoop_alike (maxDistributors : Option ℤ) (turns used : ℕ)
    (remaining remaining' : List (Uuid × SourcingBomLineOut))
    (selectedByLine selectedByLine' : List (Uuid × OptimizerSelection))
    (hleft : SameLeft remaining remaining')
    (hstate : LoopState casefold moqOverbuyCap rows remaining selectedByLine)
    (hstate' : LoopState casefold moqOverbuyCap rows' remaining' selectedByLine')
    (hsame : SameChoices casefold moqOverbuyCap rows rows' selectedByLine selectedByLine') :
    SameLeft
      (fewestLoop casefold moqOverbuyCap maxDistributors turns used remaining selectedByLine).1
      (fewestLoop casefold moqOverbuyCap maxDistributors turns used remaining' selectedByLine').1 ∧
    SameChoices casefold moqOverbuyCap rows rows'
      (fewestLoop casefold moqOverbuyCap maxDistributors turns used remaining selectedByLine).2
      (fewestLoop casefold moqOverbuyCap maxDistributors turns used remaining'
        selectedByLine').2 := by
  induction turns generalizing used remaining remaining' selectedByLine selectedByLine' with
  | zero => exact ⟨hleft, hsame⟩
  | succ turns ih =>
    have hempty : remaining ≠ [] ↔ remaining' ≠ [] := by
      have hlen := List.Forall₂.length_eq hleft
      rw [← List.length_pos_iff, ← List.length_pos_iff, hlen]
    simp only [fewestLoop, hempty]
    split
    next =>
      rcases fewestRound_alike casefold moqOverbuyCap hleft with
        ⟨hnone, hnone'⟩ | ⟨best, best', hround, hround', hkeys⟩
      · rw [hnone, hnone']
        exact ⟨hleft, hsame⟩
      · rw [hround, hround']
        exact ih _ _ _ _ _ (sameLeft_erase hleft (keys_alike hkeys))
          (loopState_round hstate hround) (loopState_round hstate' hround')
          (sameChoices_round hstate hstate' hround hround' hkeys hsame)
    next => exact ⟨hleft, hsame⟩

end Lockstep

/-- Two selections for one of the rows, up to the order of its offers: both
unfilled, or made from tied candidates. -/
def TiedSelections (casefold : String → String) (moqOverbuyCap : Option ℤ)
    (tied : Candidate → Candidate → Prop) (rows : List SourcingBomLineOut)
    (s s' : OptimizerSelection) : Prop :=
  ∃ row ∈ rows, ∃ row', SameRow row row' ∧
    ((s = unfilledSelection row ∧ s' = unfilledSelection row') ∨
      ∃ c ∈ candidates casefold moqOverbuyCap row, ∃ c' ∈ candidates casefold moqOverbuyCap row',
        tied c c' ∧ s = selectionFromCandidate c ∧ s' = selectionFromCandidate c')

theorem forall₂_filterMap₂ {α β γ δ : Type} {f : α → Option γ} {g : β → Option δ}
    {R : α → β → Prop} {P : γ → δ → Prop} {l : List α} {m : List β} (h : List.Forall₂ R l m)
    (hstep : ∀ a ∈ l, ∀ b ∈ m, R a b → ∃ x y, f a = some x ∧ g b = some y ∧ P x y) :
    List.Forall₂ P (l.filterMap f) (m.filterMap g) := by
  induction h with
  | nil => exact .nil
  | cons hab _ ih =>
    obtain ⟨x, y, hx, hy, hp⟩ :=
      hstep _ (List.mem_cons_self ..) _ (List.mem_cons_self ..) hab
    rw [List.filterMap_cons_some hx, List.filterMap_cons_some hy]
    refine .cons hp (ih ?_)
    intro a ha b hb
    exact hstep a (List.mem_cons_of_mem _ ha) b (List.mem_cons_of_mem _ hb)

theorem SameRow.entryId {row row' : SourcingBomLineOut} (h : SameRow row row') :
    row'.projectEntryId = row.projectEntryId := by rw [← h.fields]

theorem sameRows_entryIds (h : List.Forall₂ SameRow rows rows') :
    rows'.map (·.projectEntryId) = rows.map (·.projectEntryId) := by
  induction h with
  | nil => rfl
  | cons hrow _ ih => rw [List.map_cons, List.map_cons, hrow.entryId, ih]

theorem sameLeft_initial (h : List.Forall₂ SameRow rows rows') :
    SameLeft (rows.map fun row => (row.projectEntryId, row))
      (rows'.map fun row => (row.projectEntryId, row)) := by
  induction h with
  | nil => exact .nil
  | cons hrow _ ih => exact .cons ⟨hrow.entryId.symm, hrow⟩ ih

theorem sameLeft_find {remaining remaining' : List (Uuid × SourcingBomLineOut)}
    (h : SameLeft remaining remaining') (k : Uuid) :
    (Dict.find k remaining = none ∧ Dict.find k remaining' = none) ∨
      ∃ row row', SameRow row row' ∧ Dict.find k remaining = some row ∧
        Dict.find k remaining' = some row' := by
  induction h with
  | nil => exact .inl ⟨rfl, rfl⟩
  | @cons x y _ _ hxy _ ih =>
    obtain ⟨j, row⟩ := x
    obtain ⟨j', row'⟩ := y
    obtain ⟨hkey, hrow⟩ := hxy
    have hj : j' = j := hkey.symm
    subst hj
    by_cases hk : j' = k
    · exact .inr ⟨row, row', hrow, by simp [Dict.find, hk], by simp [Dict.find, hk]⟩
    · simpa [Dict.find, hk] using ih

/-- The order of the offers changes a selection only between candidates of one price key. -/
theorem optimizeFewest_alike
    (hrows : (rows.map (·.projectEntryId)).Nodup) (hsame : List.Forall₂ SameRow rows rows')
    (maxDistributors : Option ℤ) :
    List.Forall₂ (TiedSelections casefold moqOverbuyCap
        (fun c c' => lowestPriceKey casefold c = lowestPriceKey casefold c') rows)
      (optimizeFewestDistributors casefold rows maxDistributors moqOverbuyCap)
      (optimizeFewestDistributors casefold rows' maxDistributors moqOverbuyCap) := by
  have hrows' : (rows'.map (·.projectEntryId)).Nodup := by
    rw [sameRows_entryIds hsame]
    exact hrows
  have hstart := loopState_initial casefold moqOverbuyCap hrows
  have hstart' := loopState_initial casefold moqOverbuyCap hrows'
  have hnothing : SameChoices casefold moqOverbuyCap rows rows' [] [] := fun k => .inl ⟨rfl, rfl⟩
  have hlen : (rows'.map fun row => (row.projectEntryId, row)).length =
      (rows.map fun row => (row.projectEntryId, row)).length := by
    rw [List.length_map, List.length_map, hsame.length_eq]
  obtain ⟨hleft, hchoices⟩ := fewestLoop_alike maxDistributors
    (rows.map fun row => (row.projectEntryId, row)).length 0 _ _ [] []
    (sameLeft_initial hsame) hstart hstart' hnothing
  have hstate := (fewestLoop_state maxDistributors _ 0 _ [] le_rfl hstart).1
  have hstate' := (fewestLoop_state maxDistributors _ 0 _ [] le_rfl hstart').1
  simp only [optimizeFewestDistributors, Dict.foldl_put_of_nodup _ (fun row => row) hrows,
    Dict.foldl_put_of_nodup _ (fun row => row) hrows']
  rw [hlen] at hstate' ⊢
  generalize fewestLoop casefold moqOverbuyCap maxDistributors
    (rows.map fun row => (row.projectEntryId, row)).length 0
      (rows.map fun row => (row.projectEntryId, row)) [] = left at *
  generalize fewestLoop casefold moqOverbuyCap maxDistributors
    (rows.map fun row => (row.projectEntryId, row)).length 0
      (rows'.map fun row => (row.projectEntryId, row)) [] = left' at *
  apply forall₂_filterMap₂ hsame
  intro row hrow row' hrow' hboth
  rw [find_unfilled hstate, find_unfilled hstate', hboth.entryId]
  rcases sameLeft_find hleft row.projectEntryId with ⟨hgone, hgone'⟩ | ⟨one, one', _, hone, hone'⟩
  · rw [hgone, hgone']
    rcases hchoices row.projectEntryId with ⟨hnone, _⟩ | hchoice
    · rcases hstate.taken row hrow with hin | ⟨_, c, _, hfind⟩
      · rw [(Dict.mem_iff_find hstate.keys).mp hin] at hgone
        cases hgone
      · rw [hnone] at hfind
        cases hfind
    · obtain ⟨c, c', hline, hline', hid, hid', hc, hc', htie, hfind, hfind'⟩ := hchoice
      have hcrow : c.line = row := List.inj_on_of_nodup_map hrows hline hrow hid
      have hcrow' : c'.line = row' := by
        apply List.inj_on_of_nodup_map hrows' hline' hrow'
        rw [hid', hboth.entryId]
      rw [hcrow] at hc
      rw [hcrow'] at hc'
      exact ⟨_, _, hfind, hfind', row, hrow, row', hboth, .inr ⟨c, hc, c', hc', htie, rfl, rfl⟩⟩
  · obtain ⟨hin, hid⟩ := hstate.left _ (Dict.mem_of_find hone)
    obtain ⟨hin', hid'⟩ := hstate'.left _ (Dict.mem_of_find hone')
    have heq : one = row := List.inj_on_of_nodup_map hrows hin hrow hid.symm
    have heq' : one' = row' := by
      apply List.inj_on_of_nodup_map hrows' hin' hrow'
      rw [← hid', hboth.entryId]
    rw [hone, hone', heq, heq']
    exact ⟨_, _, rfl, rfl, row, hrow, row', hboth, .inl ⟨rfl, rfl⟩⟩

end StockManager
