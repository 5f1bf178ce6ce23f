import StockManager.Library.KeySort

/-! # Walks over a table in pages

A page holds the first rows behind a place, in the order of their places; the place of its last row
starts the next page. The table may change between two pages. -/

namespace KeysetWalk

open KeySort (sortBy)

variable {ρ π : Type} [LinearOrder π] {place : ρ → π} {after : Option π} {rows : List ρ} {limit : ℕ}

def Behind (place : ρ → π) (after : Option π) (r : ρ) : Prop := ∀ p ∈ after, p < place r

instance (place : ρ → π) (after : Option π) (r : ρ) : Decidable (Behind place after r) :=
  inferInstanceAs (Decidable (∀ p ∈ after, p < place r))

def behind (place : ρ → π) (after : Option π) (rows : List ρ) : List ρ :=
  sortBy place (rows.filter fun r => Behind place after r)

def page (place : ρ → π) (after : Option π) (rows : List ρ) (limit : ℕ) : List ρ × Option π :=
  let found := behind place after rows
  (found.take limit, if limit < found.length then (found.take limit).getLast?.map place else none)

def walk (place : ρ → π) (after : Option π) : List (List ρ × ℕ) → List ρ × Bool
  | [] => ([], false)
  | request :: later =>
    let served := page place after request.1 request.2
    match served.2 with
    | none => (served.1, true)
    | some last =>
      let rest := walk place (some last) later
      (served.1 ++ rest.1, rest.2)

def Placed (place : ρ → π) (rows : List ρ) : Prop := (rows.map place).Nodup

theorem mem_behind {r : ρ} : r ∈ behind place after rows ↔ r ∈ rows ∧ Behind place after r := by
  rw [behind, KeySort.mem_sortBy, List.mem_filter, decide_eq_true_eq]

theorem filter_behind_none : (rows.filter fun r => Behind place none r) = rows :=
  List.filter_eq_self.mpr fun _ _ => decide_eq_true fun p hp => absurd hp (Option.not_mem_none p)

theorem pairwise_behind (after : Option π) (hplaced : Placed place rows) :
    (behind place after rows).Pairwise fun a b => place a < place b := by
  have hperm : (behind place after rows).Perm (rows.filter fun r => Behind place after r) :=
    List.perm_insertionSort _ _
  have hnodup : ((behind place after rows).map place).Nodup :=
    (hperm.map place).nodup_iff.mpr (hplaced.sublist (List.filter_sublist.map place))
  have hsorted := KeySort.pairwise_sortBy place (rows.filter fun r => Behind place after r)
  refine (hsorted.and (List.pairwise_map.mp hnodup)).imp ?_
  intro a b hab
  exact lt_of_le_of_ne hab.1 hab.2

theorem nodup_of_sorted {found : List ρ} (h : found.Pairwise fun a b => place a < place b) :
    found.Nodup := by
  refine h.imp ?_
  rintro a b hlt rfl
  exact lt_irrefl _ hlt

theorem take_of_sorted {found : List ρ} {last : ρ}
    (hsorted : found.Pairwise fun a b => place a < place b)
    (hlast : (found.take limit).getLast? = some last) {r : ρ} (hr : r ∈ found) :
    r ∈ found.take limit ↔ place r ≤ place last := by
  obtain ⟨before, hbefore⟩ := List.getLast?_eq_some_iff.mp hlast
  have hsplit := List.take_append_drop limit found
  constructor
  · intro hmem
    have htake := hsorted.sublist (List.take_sublist limit found)
    rw [hbefore] at hmem htake
    rcases List.mem_append.mp hmem with hmem | hmem
    · exact ((List.pairwise_append.mp htake).2.2 r hmem last (by simp)).le
    · rw [List.mem_singleton.mp hmem]
  · intro hle
    rw [← hsplit] at hr
    rcases List.mem_append.mp hr with hr | hr
    · exact hr
    · rw [← hsplit] at hsorted
      have hmem : last ∈ found.take limit := List.mem_of_getLast? hlast
      exact absurd ((List.pairwise_append.mp hsorted).2.2 last hmem r hr) (not_lt.mpr hle)

theorem page_last {p : π} (h : (page place after rows limit).2 = some p) :
    ∃ last, ((behind place after rows).take limit).getLast? = some last ∧ place last = p := by
  rw [page] at h
  simp only at h
  split at h
  · exact Option.map_eq_some_iff.mp h
  · cases h

theorem page_end (hlimit : 0 < limit) (h : (page place after rows limit).2 = none) :
    (page place after rows limit).1 = behind place after rows := by
  rw [page] at h ⊢
  simp only at h ⊢
  split at h
  · rename_i hmore
    rw [Option.map_eq_none_iff, List.getLast?_eq_none_iff, List.take_eq_nil_iff] at h
    rcases h with h | h
    · omega
    · rw [h, List.length_nil] at hmore
      omega
  · rename_i hall
    exact List.take_of_length_le (Nat.le_of_not_lt hall)

theorem page_behind {r : ρ} (h : r ∈ (page place after rows limit).1) :
    r ∈ rows ∧ Behind place after r :=
  mem_behind.mp (List.mem_of_mem_take h)

theorem page_sorted (after : Option π) (limit : ℕ) (hplaced : Placed place rows) :
    (page place after rows limit).1.Pairwise fun a b => place a < place b :=
  (pairwise_behind after hplaced).sublist (List.take_sublist _ _)

theorem mem_page {p : π} (hplaced : Placed place rows)
    (h : (page place after rows limit).2 = some p) {r : ρ} :
    r ∈ (page place after rows limit).1 ↔
      r ∈ rows ∧ Behind place after r ∧ place r ≤ p := by
  obtain ⟨last, hlast, rfl⟩ := page_last h
  constructor
  · intro hr
    obtain ⟨hmem, hbehind⟩ := page_behind hr
    exact ⟨hmem, hbehind, (take_of_sorted (pairwise_behind after hplaced) hlast
      (mem_behind.mpr ⟨hmem, hbehind⟩)).mp hr⟩
  · rintro ⟨hmem, hbehind, hle⟩
    exact (take_of_sorted (pairwise_behind after hplaced) hlast
      (mem_behind.mpr ⟨hmem, hbehind⟩)).mpr hle

theorem behind_of_lt {p : π} (h : (page place after rows limit).2 = some p) {r : ρ}
    (hr : p < place r) : Behind place after r := by
  intro q hq
  obtain ⟨last, hlast, rfl⟩ := page_last h
  have hmem : last ∈ (page place after rows limit).1 := List.mem_of_getLast? hlast
  exact ((page_behind hmem).2 q hq).trans hr

section Walk

variable {requests : List (List ρ × ℕ)}

theorem walk_behind {r : ρ} (h : r ∈ (walk place after requests).1) :
    Behind place after r ∧ ∃ request ∈ requests, r ∈ request.1 := by
  induction requests generalizing after with
  | nil => cases h
  | cons request later ih =>
    have hpage : ∀ {r}, r ∈ (page place after request.1 request.2).1 →
        Behind place after r ∧ ∃ other ∈ request :: later, r ∈ other.1 := fun hr =>
      ⟨(page_behind hr).2, request, List.mem_cons_self, (page_behind hr).1⟩
    rw [walk] at h
    cases hnext : (page place after request.1 request.2).2 with
    | none =>
      simp only [hnext] at h
      exact hpage h
    | some last =>
      simp only [hnext] at h
      rcases List.mem_append.mp h with h | h
      · exact hpage h
      · obtain ⟨hbehind, other, hother, hmem⟩ := ih h
        exact ⟨behind_of_lt hnext (hbehind last rfl), other,
          List.mem_cons_of_mem _ hother, hmem⟩

theorem walk_sorted (after : Option π) (hplaced : ∀ request ∈ requests, Placed place request.1) :
    (walk place after requests).1.Pairwise fun a b => place a < place b := by
  induction requests generalizing after with
  | nil => exact List.Pairwise.nil
  | cons request later ih =>
    rw [List.forall_mem_cons] at hplaced
    have hpage := page_sorted after request.2 hplaced.1
    rw [walk]
    cases hnext : (page place after request.1 request.2).2 with
    | none => exact hpage
    | some last =>
      refine List.pairwise_append.mpr ⟨hpage, ih (some last) hplaced.2, ?_⟩
      intro a ha b hb
      have hle := ((mem_page hplaced.1 hnext).mp ha).2.2
      exact hle.trans_lt ((walk_behind hb).1 last rfl)

/-- A walk that came to the end was served the row of every place that stood in each of its
tables. -/
theorem walk_complete (hplaced : ∀ request ∈ requests, Placed place request.1)
    (hlimit : ∀ request ∈ requests, 0 < request.2) (hend : (walk place after requests).2 = true)
    {p : π} (hp : ∀ request ∈ requests, ∃ r ∈ request.1, place r = p)
    (hbehind : ∀ q ∈ after, q < p) : ∃ r ∈ (walk place after requests).1, place r = p := by
  induction requests generalizing after with
  | nil => cases hend
  | cons request later ih =>
    rw [List.forall_mem_cons] at hplaced hlimit hp
    obtain ⟨⟨r, hr, rfl⟩, hp⟩ := hp
    rw [walk] at hend ⊢
    cases hnext : (page place after request.1 request.2).2 with
    | none =>
      refine ⟨r, ?_, rfl⟩
      simp only
      rw [page_end hlimit.1 hnext]
      exact mem_behind.mpr ⟨hr, hbehind⟩
    | some last =>
      simp only [hnext] at hend
      by_cases hle : place r ≤ last
      · have hpage := (mem_page hplaced.1 hnext).mpr ⟨hr, hbehind, hle⟩
        exact ⟨r, List.mem_append_left _ hpage, rfl⟩
      · have hlast : ∀ q ∈ some last, q < place r := by
          intro q hq
          cases hq
          exact lt_of_not_ge hle
        obtain ⟨r', hr', heq⟩ := ih hplaced.2 hlimit.2 hend hp hlast
        exact ⟨r', List.mem_append_right _ hr', heq⟩

theorem length_behind {p : π} (hplaced : Placed place rows)
    (h : (page place after rows limit).2 = some p) :
    (behind place (some p) rows).length < (behind place after rows).length := by
  obtain ⟨last, hlast, rfl⟩ := page_last h
  have hmem : last ∈ behind place after rows := List.mem_of_mem_take (List.mem_of_getLast? hlast)
  have hsub : (behind place (some (place last)) rows).Sublist (behind place after rows) := by
    have hsorted := pairwise_behind (some (place last)) hplaced
    have hsorted' := pairwise_behind after hplaced
    refine List.sublist_of_subperm_of_pairwise ?_ hsorted hsorted'
    refine List.subperm_of_subset (nodup_of_sorted hsorted) fun r hr => ?_
    obtain ⟨hrows, hbehind⟩ := mem_behind.mp hr
    exact mem_behind.mpr ⟨hrows, behind_of_lt h (hbehind _ rfl)⟩
  refine lt_of_le_of_ne hsub.length_le fun heq => ?_
  have hlast' : last ∈ behind place (some (place last)) rows := by
    rw [hsub.eq_of_length heq]
    exact hmem
  exact lt_irrefl _ ((mem_behind.mp hlast').2 _ rfl)

theorem walk_static (hplaced : Placed place rows)
    (hstatic : ∀ request ∈ requests, request.1 = rows ∧ 0 < request.2)
    (hmany : (behind place after rows).length < requests.length) :
    walk place after requests = (behind place after rows, true) := by
  have hend : (walk place after requests).2 = true := by
    induction requests generalizing after with
    | nil => exact absurd hmany (Nat.not_lt_zero _)
    | cons request later ih =>
      rw [List.forall_mem_cons] at hstatic
      obtain ⟨⟨hrows, hlimit⟩, hstatic⟩ := hstatic
      rw [walk, hrows]
      cases hnext : (page place after rows request.2).2 with
      | none => rfl
      | some last =>
        refine ih hstatic ?_
        have hless := length_behind hplaced hnext
        rw [List.length_cons] at hmany
        omega
  have hall : ∀ request ∈ requests, Placed place request.1 := fun request hrequest =>
    (hstatic request hrequest).1 ▸ hplaced
  have hserved := walk_sorted after hall
  have hsorted := pairwise_behind after hplaced
  have hperm : (walk place after requests).1.Perm (behind place after rows) := by
    refine (List.perm_ext_iff_of_nodup ?_ ?_).mpr fun r => ⟨fun hr => ?_, fun hr => ?_⟩
    · exact nodup_of_sorted hserved
    · exact nodup_of_sorted hsorted
    · obtain ⟨hbehind, request, hrequest, hmem⟩ := walk_behind hr
      exact mem_behind.mpr ⟨(hstatic request hrequest).1 ▸ hmem, hbehind⟩
    · obtain ⟨hmem, hbehind⟩ := mem_behind.mp hr
      obtain ⟨r', hr', heq⟩ := walk_complete hall
        (fun request hrequest => (hstatic request hrequest).2) hend
        (fun request hrequest => ⟨r, (hstatic request hrequest).1 ▸ hmem, rfl⟩) hbehind
      obtain ⟨-, request, hrequest, hmem'⟩ := walk_behind hr'
      have hsame : r' = r := List.inj_on_of_nodup_map hplaced
        ((hstatic request hrequest).1 ▸ hmem') hmem heq
      exact hsame ▸ hr'
  refine Prod.ext ?_ hend
  refine hperm.eq_of_pairwise ?_ hserved hsorted
  intro a b _ _ hab hba
  exact absurd hab hba.asymm

end Walk

end KeysetWalk
