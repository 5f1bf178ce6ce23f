import Mathlib.Data.List.Nodup
import Mathlib.Tactic.Common

/-! # Consecutive runs of one key

On a list sorted by the key the runs are the classes of the key. -/

namespace GroupRuns

variable {α κ : Type} [DecidableEq κ]

def groupBy (key : α → κ) : List α → List (κ × List α)
  | [] => []
  | a :: rest =>
    match groupBy key rest with
    | [] => [(key a, [a])]
    | (k, group) :: later =>
      if key a = k then (k, a :: group) :: later else (key a, [a]) :: (k, group) :: later

variable {key : α → κ}

theorem groupBy_cons_of_eq {a : α} {rest group : List α} {later : List (κ × List α)}
    (h : groupBy key rest = (key a, group) :: later) :
    groupBy key (a :: rest) = (key a, a :: group) :: later := by
  rw [groupBy, h]
  exact if_pos rfl

theorem groupBy_cons_of_ne {a : α} {rest : List α}
    (h : ∀ p ∈ (groupBy key rest).head?, key a ≠ p.1) :
    groupBy key (a :: rest) = (key a, [a]) :: groupBy key rest := by
  rw [groupBy]
  cases hrest : groupBy key rest with
  | nil => rfl
  | cons p later =>
    rw [hrest] at h
    exact if_neg (h p rfl)

theorem groupBy_map {β : Type} {key' : β → κ} {f : α → β} (h : ∀ a, key' (f a) = key a)
    (l : List α) :
    groupBy key' (l.map f) = (groupBy key l).map fun p => (p.1, p.2.map f) := by
  induction l with
  | nil => rfl
  | cons a rest ih =>
    rw [List.map_cons, groupBy, groupBy, ih, h a]
    cases groupBy key rest with
    | nil => rfl
    | cons p later =>
      simp only [List.map_cons]
      split
      · rfl
      · rfl

theorem flatMap_groupBy (key : α → κ) (l : List α) : (groupBy key l).flatMap (·.2) = l := by
  induction l with
  | nil => rfl
  | cons a rest ih =>
    rw [groupBy]
    cases hrest : groupBy key rest with
    | nil =>
      rw [hrest] at ih
      simp only [List.flatMap_nil] at ih
      rw [← ih]
      rfl
    | cons p later =>
      rw [hrest] at ih
      simp only [List.flatMap_cons] at ih
      simp only
      split
      next => rw [List.flatMap_cons, List.cons_append, ih]
      next => rw [List.flatMap_cons, List.flatMap_cons, ih]; rfl

/-- The runs of a list sorted by the key. -/
structure Runs (key : α → κ) (l : List α) (groups : List (κ × List α)) : Prop where
  keys : (groups.map (·.1)).Nodup
  group : ∀ p ∈ groups, p.2 = l.filter fun a => key a = p.1
  covers : ∀ a ∈ l, key a ∈ groups.map (·.1)
  inhabited : ∀ p ∈ groups, ∃ a ∈ l, key a = p.1
  first : groups.head?.map (·.1) = l.head?.map key

theorem runs_groupBy {le : κ → κ → Prop} (hanti : ∀ a b, le a b → le b a → a = b) {l : List α}
    (h : l.Pairwise fun a b => le (key a) (key b)) : Runs key l (groupBy key l) := by
  induction l with
  | nil => exact ⟨List.nodup_nil, by simp [groupBy], by simp, by simp [groupBy], rfl⟩
  | cons a rest ih =>
    obtain ⟨ha, hrest⟩ := List.pairwise_cons.mp h
    have hruns := ih hrest
    have hothers : ∀ k, key a ≠ k →
        (a :: rest).filter (fun b => key b = k) = rest.filter fun b => key b = k := by
      intro k hne
      simp [hne]
    by_cases hhead : ∃ p ∈ (groupBy key rest).head?, key a = p.1
    · -- the first run grows
      obtain ⟨⟨k, group⟩, hp, rfl⟩ := hhead
      obtain ⟨later, hlater⟩ : ∃ later, groupBy key rest = (key a, group) :: later := by
        cases hgroups : groupBy key rest with
        | nil =>
          rw [hgroups] at hp
          cases hp
        | cons p later =>
          rw [hgroups] at hp
          exact ⟨later, by rw [Option.some.inj hp]⟩
      rw [hlater] at hruns
      rw [groupBy_cons_of_eq hlater]
      have hgroup := hruns.group _ List.mem_cons_self
      have hfresh := (List.nodup_cons.mp hruns.keys).1
      refine ⟨hruns.keys, ?_, ?_, ?_, rfl⟩
      · intro p hp
        obtain rfl | hp := List.mem_cons.mp hp
        · simp only at hgroup ⊢
          rw [hgroup]
          simp
        · have hne : key a ≠ p.1 := by
            intro heq
            exact hfresh (List.mem_map.mpr ⟨p, hp, heq.symm⟩)
          rw [hothers p.1 hne]
          exact hruns.group p (List.mem_cons_of_mem _ hp)
      · intro b hb
        obtain rfl | hb := List.mem_cons.mp hb
        · exact List.mem_cons_self
        · exact hruns.covers b hb
      · intro p hp
        obtain rfl | hp := List.mem_cons.mp hp
        · exact ⟨a, List.mem_cons_self, rfl⟩
        · obtain ⟨b, hb, heq⟩ := hruns.inhabited p (List.mem_cons_of_mem _ hp)
          exact ⟨b, List.mem_cons_of_mem _ hb, heq⟩
    · -- a run of its own: by the order its key comes nowhere in the rest
      have hne : ∀ p ∈ (groupBy key rest).head?, key a ≠ p.1 :=
        fun p hp heq => hhead ⟨p, hp, heq⟩
      rw [groupBy_cons_of_ne hne]
      have hfresh : ∀ b ∈ rest, key b ≠ key a := by
        intro b hb heq
        cases rest with
        | nil => cases hb
        | cons c rest =>
          have hcb : le (key c) (key b) := by
            obtain hbc | hb := List.mem_cons.mp hb
            · have hself := ha c List.mem_cons_self
              rw [← heq, hbc] at hself
              rw [hbc]
              exact hself
            · exact (List.pairwise_cons.mp hrest).1 b hb
          have hac : key a = key c := hanti _ _ (ha c List.mem_cons_self) (heq ▸ hcb)
          have hfirst := hruns.first
          obtain ⟨p, hp, hkey⟩ := Option.map_eq_some_iff.mp hfirst
          exact hne p hp (hac.trans hkey.symm)
      have hkeys : ∀ p ∈ groupBy key rest, p.1 ≠ key a := by
        intro p hp heq
        obtain ⟨b, hb, hbp⟩ := hruns.inhabited p hp
        exact hfresh b hb (hbp.trans heq)
      refine ⟨?_, ?_, ?_, ?_, rfl⟩
      · rw [List.map_cons, List.nodup_cons]
        refine ⟨?_, hruns.keys⟩
        intro hmem
        obtain ⟨p, hp, heq⟩ := List.mem_map.mp hmem
        exact hkeys p hp heq
      · intro p hp
        obtain rfl | hp := List.mem_cons.mp hp
        · have hnone : rest.filter (fun b => key b = key a) = [] := by
            simpa [List.filter_eq_nil_iff] using hfresh
          simp [hnone]
        · rw [hothers p.1 fun heq => hkeys p hp heq.symm]
          exact hruns.group p hp
      · intro b hb
        obtain rfl | hb := List.mem_cons.mp hb
        · exact List.mem_cons_self
        · exact List.mem_cons_of_mem _ (hruns.covers b hb)
      · intro p hp
        obtain rfl | hp := List.mem_cons.mp hp
        · exact ⟨a, List.mem_cons_self, rfl⟩
        · obtain ⟨b, hb, heq⟩ := hruns.inhabited p hp
          exact ⟨b, List.mem_cons_of_mem _ hb, heq⟩

theorem Runs.filter_key {l : List α} {groups : List (κ × List α)} (h : Runs key l groups) (k : κ) :
    groups.filter (fun p => p.1 = k) =
      if k ∈ l.map key then [(k, l.filter fun a => key a = k)] else [] := by
  by_cases hk : k ∈ l.map key
  · rw [if_pos hk]
    obtain ⟨a, ha, rfl⟩ := List.mem_map.mp hk
    obtain ⟨p, hp, hkey⟩ := List.mem_map.mp (h.covers a ha)
    have hunique : ∀ q ∈ groups, q.1 = key a → q = p := fun q hq hqk =>
      List.inj_on_of_nodup_map h.keys hq hp (hqk.trans hkey.symm)
    have hnodup : groups.Nodup := h.keys.of_map
    have hperm : (groups.filter fun q => q.1 = key a).Perm [p] := by
      rw [List.perm_ext_iff_of_nodup (hnodup.filter _) (List.nodup_singleton p)]
      intro q
      rw [List.mem_filter, List.mem_singleton, decide_eq_true_eq]
      constructor
      · rintro ⟨hq, hqk⟩
        exact hunique q hq hqk
      · rintro rfl
        exact ⟨hp, hkey⟩
    rw [List.perm_singleton.mp hperm, ← hkey, ← h.group p hp]
  · rw [if_neg hk, List.filter_eq_nil_iff]
    intro p hp heq
    obtain ⟨a, ha, hkey⟩ := h.inhabited p hp
    exact hk (List.mem_map.mpr ⟨a, ha, hkey.trans (of_decide_eq_true heq)⟩)

end GroupRuns
