import Mathlib.Data.List.Dedup
import Mathlib.Data.List.Sort

/-! # Sets listed in an unspecified order, then sorted by a key

The sort is stable, so members with one key keep the order in which the set gave them: the sorted
list is a function of the set exactly when no two members share a key. -/

namespace KeySort

variable {α κ : Type} [LinearOrder κ] {key : α → κ} {l l' : List α}

/-- `sorted(members, key=key)` -/
def sortBy (key : α → κ) (members : List α) : List α :=
  members.insertionSort fun a b => key a ≤ key b

theorem mem_sortBy {a : α} : a ∈ sortBy key l ↔ a ∈ l := List.mem_insertionSort _

theorem nodup_sortBy (h : l.Nodup) : (sortBy key l).Nodup :=
  (List.perm_insertionSort _ l).nodup_iff.mpr h

theorem pairwise_sortBy (key : α → κ) (l : List α) :
    (sortBy key l).Pairwise fun a b => key a ≤ key b := by
  have : Std.Total fun a b => key a ≤ key b := ⟨fun a b => le_total (key a) (key b)⟩
  have : IsTrans α fun a b => key a ≤ key b := ⟨fun _ _ _ => le_trans⟩
  exact List.pairwise_insertionSort _ l

theorem sortBy_keeps {a b : α} (hkey : key a ≤ key b) (h : List.Sublist [a, b] l) :
    List.Sublist [a, b] (sortBy key l) := by
  have : Std.Total fun a b => key a ≤ key b := ⟨fun a b => le_total (key a) (key b)⟩
  have : IsTrans α fun a b => key a ≤ key b := ⟨fun _ _ _ => le_trans⟩
  exact List.pair_sublist_insertionSort hkey h

theorem pair_sublist_asymm {a b : α} (hnodup : l.Nodup) (h : List.Sublist [a, b] l) :
    ¬ List.Sublist [b, a] l := by
  intro h'
  induction l with
  | nil => cases h
  | cons c l ih =>
    rw [List.nodup_cons] at hnodup
    cases h with
    | cons _ h =>
      cases h' with
      | cons _ h' => exact ih hnodup.2 h h'
      | cons_cons _ h' => exact hnodup.1 (h.subset (by simp))
    | cons_cons _ h =>
      cases h' with
      | cons _ h' => exact hnodup.1 (h'.subset (by simp))
      | cons_cons _ h' => exact hnodup.1 (h.subset (by simp))

variable [DecidableEq α]

/-- The order in which a run lists the set of the elements added. -/
structure SetOrder (α : Type) [DecidableEq α] where
  list : List α → List α
  perm : ∀ added, (list added).Perm added.dedup

theorem SetOrder.mem (order : SetOrder α) {a : α} : a ∈ order.list l ↔ a ∈ l := by
  rw [(order.perm l).mem_iff, List.mem_dedup]

theorem SetOrder.nodup (order : SetOrder α) (l : List α) : (order.list l).Nodup :=
  (order.perm l).nodup_iff.mpr (List.nodup_dedup l)

def listFirst (a : α) (l : List α) : List α := if a ∈ l.dedup then a :: l.dedup.erase a else l.dedup

theorem listFirst_perm (a : α) (l : List α) : (listFirst a l).Perm l.dedup := by
  rw [listFirst]
  split
  next ha => exact (List.perm_cons_erase ha).symm
  next => exact List.Perm.refl _

def putFirst (a : α) : SetOrder α := ⟨listFirst a, listFirst_perm a⟩

theorem putFirst_sublist {a b : α} (ha : a ∈ l) (hb : b ∈ l) (hne : a ≠ b) :
    List.Sublist [a, b] ((putFirst a).list l) := by
  show List.Sublist [a, b] (listFirst a l)
  rw [listFirst, if_pos (List.mem_dedup.mpr ha)]
  refine List.Sublist.cons_cons a (List.singleton_sublist.mpr ?_)
  exact (List.mem_erase_of_ne hne.symm).mpr (List.mem_dedup.mpr hb)

def sortedOrder [LinearOrder α] : SetOrder α :=
  ⟨fun added => sortBy id added.dedup, fun added => List.perm_insertionSort _ added.dedup⟩

theorem sortedOrder_list [LinearOrder α] (h : ∀ a, a ∈ l ↔ a ∈ l') :
    sortedOrder.list l = sortedOrder.list l' := by
  have hperm : l.dedup.Perm l'.dedup := by
    refine (List.perm_ext_iff_of_nodup (List.nodup_dedup l) (List.nodup_dedup l')).mpr fun a => ?_
    rw [List.mem_dedup, List.mem_dedup, h]
  refine @List.Perm.eq_of_pairwise α (fun a b => a ≤ b) _ _ (fun a b _ _ => le_antisymm)
    (pairwise_sortBy id _) (pairwise_sortBy id _) ?_
  exact (List.perm_insertionSort _ _).trans (hperm.trans (List.perm_insertionSort _ _).symm)

/-- The sorted lists of two sets are equal, however the sets are listed, exactly when the sets are
equal and no two of the members share a key. -/
theorem sortBy_list_eq_iff (key : α → κ) (l l' : List α) :
    (∀ order order' : SetOrder α, sortBy key (order.list l) = sortBy key (order'.list l')) ↔
      (∀ a, a ∈ l ↔ a ∈ l') ∧ ∀ a ∈ l, ∀ b ∈ l, key a = key b → a = b := by
  constructor
  · intro h
    have hmem (a : α) : a ∈ l ↔ a ∈ l' := by
      rw [← (putFirst a).mem (l := l), ← (putFirst a).mem (l := l'), ← @mem_sortBy _ _ _ key,
        ← @mem_sortBy _ _ _ key ((putFirst a).list l'), h]
    refine ⟨hmem, fun a ha b hb hkey => ?_⟩
    by_contra hne
    have hab := sortBy_keeps hkey.le (putFirst_sublist ha hb hne)
    have hba := sortBy_keeps hkey.ge (putFirst_sublist ((hmem b).mp hb) ((hmem a).mp ha) (Ne.symm hne))
    rw [h (putFirst a) (putFirst b)] at hab
    exact pair_sublist_asymm (nodup_sortBy ((putFirst b).nodup l')) hab hba
  · intro ⟨hmem, hinj⟩ order order'
    have hperm : (sortBy key (order.list l)).Perm (sortBy key (order'.list l')) := by
      refine (List.perm_ext_iff_of_nodup (nodup_sortBy (order.nodup l))
        (nodup_sortBy (order'.nodup l'))).mpr fun a => ?_
      rw [mem_sortBy, mem_sortBy, order.mem, order'.mem, hmem]
    refine @List.Perm.eq_of_pairwise α (fun a b => key a ≤ key b) _ _ (fun a b ha hb hle hge => ?_)
      (pairwise_sortBy key _) (pairwise_sortBy key _) hperm
    rw [mem_sortBy, order.mem] at ha
    rw [mem_sortBy, order'.mem, ← hmem] at hb
    exact hinj a ha b hb (le_antisymm hle hge)

end KeySort
