import Mathlib.Data.List.Basic
import Mathlib.Tactic.Common

/-! # Content-addressed stores

A file lies at a place under the digest of its content, is written once and never changed. -/

structure ContentStore (κ δ β : Type) where
  files : List ((κ × δ) × β)

namespace ContentStore

variable {κ δ β : Type} [DecidableEq κ] [DecidableEq δ]

def read (store : ContentStore κ δ β) (place : κ) (address : δ) : Option β :=
  (store.files.find? fun file => file.1 = (place, address)).map (·.2)

/-- An address that is taken is left alone. -/
def write (digest : β → δ) (store : ContentStore κ δ β) (place : κ) (data : β) :
    ContentStore κ δ β :=
  if (store.read place (digest data)).isSome then store
  else ⟨((place, digest data), data) :: store.files⟩

/-- Every file lies under the digest of its content. -/
def Addressed (digest : β → δ) (store : ContentStore κ δ β) : Prop :=
  ∀ place address data, store.read place address = some data → digest data = address

/-- Every file of one store is in the other. -/
def Kept (store later : ContentStore κ δ β) : Prop :=
  ∀ place address data, store.read place address = some data →
    later.read place address = some data

variable {digest : β → δ} {store middle later : ContentStore κ δ β}

theorem Kept.refl (store : ContentStore κ δ β) : Kept store store := fun _ _ _ h => h

theorem Kept.trans (h : Kept store middle) (h' : Kept middle later) : Kept store later :=
  fun place address data hread => h' place address data (h place address data hread)

theorem read_cons (file : (κ × δ) × β) (files : List ((κ × δ) × β)) (place : κ) (address : δ) :
    (ContentStore.mk (file :: files)).read place address =
      if file.1 = (place, address) then some file.2
      else (ContentStore.mk files).read place address := by
  by_cases h : file.1 = (place, address)
  · simp [read, h]
  · simp [read, h]

theorem kept_write (place : κ) (data : β) : Kept store (store.write digest place data) := by
  intro place' address data' hread
  unfold write
  split
  next => exact hread
  next hfree =>
    rw [read_cons]
    split
    next heq =>
      obtain ⟨rfl, rfl⟩ := Prod.mk.inj heq
      rw [hread] at hfree
      exact absurd rfl hfree
    next => exact hread

theorem Addressed.write (h : Addressed digest store) (place : κ) (data : β) :
    Addressed digest (store.write digest place data) := by
  intro place' address data' hread
  unfold ContentStore.write at hread
  split at hread
  next => exact h place' address data' hread
  next =>
    rw [read_cons] at hread
    split at hread
    next heq =>
      obtain ⟨_, haddress⟩ := Prod.mk.inj heq
      exact Option.some.inj hread ▸ haddress
    next => exact h place' address data' hread

theorem read_write (hdigest : Function.Injective digest) (h : Addressed digest store) (place : κ)
    (data : β) : (store.write digest place data).read place (digest data) = some data := by
  unfold ContentStore.write
  split
  next htaken =>
    obtain ⟨data', hread⟩ := Option.isSome_iff_exists.mp htaken
    rw [hread, hdigest (h place _ data' hread)]
  next =>
    rw [read_cons, if_pos rfl]

end ContentStore
