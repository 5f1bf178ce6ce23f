import Mathlib
import StockManager.Model.PartNames

/-! # The bulk rename

What a rename overwrites can be read back from the part, and a renamed part is left alone. -/

namespace StockManager.Naming

open Trim

variable {apply includeFree : Bool} {part : NamedPart} {canonical : Option CanonicalName}
variable {newName text : String}

/-- The old name, without the white space at its ends, in what the part carries: `gaps` says what
may stand between the role separator and the role. -/
inductive Recoverable (gaps : String → Prop) (old after : NamedPart) : Prop
  | mpn (h : clean (some old.name) = clean after.mpn)
  | aliasField (h : some (clean (some old.name)) = after.aliasField)
  | role (head role gap : String) (hhead : head = after.name ∨ head = clean after.mpn)
      (hrole : after.aliasField = some role) (hgap : gaps gap)
      (h : clean (some old.name) = head ++ roleSeparator ++ gap ++ role)
  | description (h : clean (some old.name) = clean after.description)
  | descriptionHead (h : clean (some old.name) = descriptionHead (clean after.description))

def Blank (text : String) : Prop := ∀ c ∈ text.toList, isSpace c = true

/-- Nothing is lost but white space around the name and around its role. -/
structure Renamed (canonical : Option CanonicalName) (old after : NamedPart) : Prop where
  recoverable : clean (some old.name) = "" ∨ Recoverable Blank old after
  aliasKept : ∀ text ∈ old.aliasField, after.aliasField = some text
  rest : after.mpn = old.mpn ∧ after.description = old.description
  settled : (proposeRename after canonical).newName = none

theorem roleAfter_some {name head role : String} (hname : strip name = name)
    (h : roleAfter name head = some role) :
    role ≠ "" ∧ ∃ gap, Blank gap ∧ name = head ++ roleSeparator ++ gap ++ role := by
  rw [roleAfter] at h
  split at h
  next => exact absurd h (Option.some_ne_none role).symm
  next hshape =>
    dsimp only at h
    split at h
    next => exact absurd h (Option.some_ne_none role).symm
    next hrole =>
      obtain rfl := Option.some.inj h
      refine ⟨hrole, ?_⟩
      rw [not_or, not_not] at hshape
      obtain ⟨rest, hrest⟩ := hshape.2
      have hdrop : name.toList.drop (head ++ roleSeparator).toList.length = rest := by
        rw [← hrest, List.drop_left]
      have hlast : ∀ c ∈ rest.getLast?, isSpace c = false := by
        intro c hc
        refine (strip_eq_self_iff.mp hname).2 c ?_
        have hne : rest ≠ [] := fun heq => by simp [heq] at hc
        rw [← hrest, List.getLast?_append_of_ne_nil _ hne]
        exact hc
      refine ⟨String.ofList (rest.takeWhile isSpace), fun c hc => ?_, ?_⟩
      · rw [String.toList_ofList] at hc
        exact List.mem_takeWhile_imp hc
      · rw [hdrop, ← String.toList_inj, String.toList_append, String.toList_append, toList_strip,
          String.toList_ofList, String.toList_ofList, ← dropWhile_eq_trim hlast, List.append_assoc,
          List.takeWhile_append_dropWhile, hrest]

theorem clean_targetName {target : String} (h : targetName part canonical = some target) :
    clean (some target) = target := by
  cases canonical with
  | some head =>
    obtain rfl : head.text = target := Option.some.inj h
    exact head.stripped
  | none =>
    rw [targetName.eq_def] at h
    dsimp only at h
    split at h
    next => exact absurd h (Option.some_ne_none target).symm
    next =>
      obtain rfl := Option.some.inj h
      exact strip_clean _

theorem head_of_target {head target : String} (htarget : targetName part canonical = some target)
    (h : head ∈ canonical.map (·.text)) : head = target := by
  cases canonical with
  | none => exact absurd h (by simp)
  | some name =>
    rw [Option.map_some, Option.mem_some_iff] at h
    rw [← h]
    exact Option.some.inj htarget

theorem aliasFor_role (hclass : classifyName part canonical = .roleSuffix)
    (h : aliasFor part canonical = some text) :
    ∃ head, (head ∈ canonical.map (·.text) ∨ head = clean part.mpn) ∧
      roleAfter (clean (some part.name)) head = some text := by
  rw [aliasFor] at h
  rw [if_pos hclass, Option.or_eq_some_iff] at h
  rcases h with h | ⟨-, h⟩
  · obtain ⟨head, hhead, hrole⟩ := Option.bind_eq_some_iff.mp h
    exact ⟨head.text, .inl (by rw [hhead]; rfl), hrole⟩
  · exact ⟨_, .inr rfl, h⟩

theorem classifyName_role (h : classifyName part canonical = .roleSuffix) :
    (aliasFor part canonical).isSome = true := by
  rw [aliasFor]
  rw [if_pos h, Option.isSome_or, Bool.or_eq_true]
  rw [classifyName] at h
  split_ifs at h with _ _ _ hrole
  exact hrole

theorem classifyName_description (h : classifyName part canonical = .description) :
    clean (some part.name) = clean part.description ∨
      clean (some part.name) = descriptionHead (clean part.description) := by
  rw [classifyName] at h
  split_ifs at h with _ _ hdescription
  exact hdescription.2

theorem aliasFor_none (h : aliasFor part canonical = none) : clean (some part.name) = "" := by
  by_cases hclass : classifyName part canonical = .roleSuffix
  case pos =>
    have hsome := classifyName_role hclass
    rw [h] at hsome
    exact absurd hsome Bool.false_ne_true
  case neg =>
    rw [aliasFor] at h
    rw [if_neg hclass] at h
    split at h
    next hblank => exact hblank
    next => exact absurd h (Option.some_ne_none _)

theorem proposeRename_some (h : (proposeRename part canonical).newName = some newName) :
    targetName part canonical = some newName ∧
      (clean (some part.name) = clean part.mpn ∧ (proposeRename part canonical).preservedIn = .mpn ∨
        (proposeRename part canonical).aliasText = aliasFor part canonical ∧
          (proposeRename part canonical).preservedIn =
            if (aliasFor part canonical).isSome then .aliasField else .none) := by
  cases htarget : targetName part canonical with
  | none =>
    rw [proposeRename, htarget] at h
    exact absurd h (Option.some_ne_none newName).symm
  | some target =>
    rw [proposeRename, htarget] at h ⊢
    dsimp only at h ⊢
    split_ifs at h with hsame hlong hmpn
    · rw [if_neg hsame, if_neg hlong, if_pos hmpn]
      exact ⟨h, .inl ⟨hmpn, rfl⟩⟩
    all_goals
      rw [if_neg hsame, if_neg hlong, if_neg hmpn]
      exact ⟨h, .inr ⟨rfl, rfl⟩⟩

theorem proposeRename_self {target : String} (h : targetName part canonical = some target)
    (hname : clean (some part.name) = target) : (proposeRename part canonical).newName = none := by
  rw [proposeRename, h]
  dsimp only
  rw [if_pos hname]

/-- What is left of a proposal: all of it, with the slot free where it is used, or the
description's weaker promise. -/
theorem resolvedProposal_some
    (h : (resolvedProposal includeFree part canonical).newName = some newName) :
    (proposeRename part canonical).newName = some newName ∧
      (resolvedProposal includeFree part canonical = proposeRename part canonical ∧
          ((proposeRename part canonical).preservedIn = .aliasField → part.aliasField = none) ∨
        (proposeRename part canonical).classification = .description ∧
          (resolvedProposal includeFree part canonical).preservedIn = .description) := by
  rw [resolvedProposal] at h ⊢
  by_cases hnone : (proposeRename part canonical).newName = none
  case pos =>
    rw [if_pos hnone, hnone] at h
    exact absurd h (Option.some_ne_none newName).symm
  case neg =>
    rw [if_neg hnone] at h ⊢
    rw [resolveConflicts] at h ⊢
    split_ifs at h ⊢ with hfree hslot hdescription
    · refine ⟨h, .inl ⟨rfl, fun halias => ?_⟩⟩
      have hfreeSlot := hslot.resolve_left (not_not.mpr halias)
      rwa [Option.isSome_eq_false_iff, Option.isNone_iff_eq_none] at hfreeSlot
    · exact ⟨h, .inr ⟨hdescription, rfl⟩⟩

theorem aliasFor_ne_empty (h : aliasFor part canonical = some text) : text ≠ "" := by
  by_cases hclass : classifyName part canonical = .roleSuffix
  case pos =>
    obtain ⟨head, -, hrole⟩ := aliasFor_role hclass h
    exact (roleAfter_some (strip_clean _) hrole).1
  case neg =>
    rw [aliasFor, if_neg hclass] at h
    split at h
    next => exact absurd h (Option.some_ne_none text).symm
    next hname =>
      rw [← Option.some.inj h]
      exact hname

theorem recoverable_aliasFor {after : NamedPart}
    (htarget : targetName part canonical = some newName) (htext : aliasFor part canonical = some text)
    (hname : after.name = newName) (hmpn : after.mpn = part.mpn) (halias : after.aliasField = some text) :
    Recoverable Blank part after := by
  by_cases hclass : classifyName part canonical = .roleSuffix
  case pos =>
    obtain ⟨head, hhead, hrole⟩ := aliasFor_role hclass htext
    obtain ⟨-, gap, hgap, hwhole⟩ := roleAfter_some (strip_clean _) hrole
    refine .role head text gap ?_ halias hgap hwhole
    rcases hhead with hhead | rfl
    · exact .inl (by rw [hname, head_of_target htarget hhead])
    · exact .inr (by rw [hmpn])
  case neg =>
    rw [aliasFor, if_neg hclass] at htext
    split at htext
    next => exact absurd htext (Option.some_ne_none text).symm
    next => exact .aliasField (by rw [htext, halias])

theorem applyRename_aliasField (htext : text ≠ "") :
    (applyRename part newName (some text)).aliasField = some text := by
  rw [applyRename]
  exact if_neg htext

theorem applyRename_settled (parked : Option String)
    (h : targetName part canonical = some newName) :
    (proposeRename (applyRename part newName parked) canonical).newName = none := by
  refine @proposeRename_self _ _ newName ?_ (clean_targetName h)
  rw [← h]
  rfl

theorem applyRename_parked (h : (proposeRename part canonical).newName = some newName)
    (hfree : (proposeRename part canonical).preservedIn = .aliasField → part.aliasField = none) :
    Renamed canonical part (applyRename part newName
      (if (proposeRename part canonical).preservedIn = .aliasField then
        (proposeRename part canonical).aliasText else none)) := by
  obtain ⟨htarget, hmpn | ⟨htext, hkept⟩⟩ := proposeRename_some h
  · rw [hmpn.2, if_neg (by decide)]
    exact ⟨.inr (.mpn hmpn.1), fun text => id, ⟨rfl, rfl⟩, applyRename_settled none htarget⟩
  · cases halias : aliasFor part canonical with
    | none =>
      rw [halias] at hkept
      rw [hkept, if_neg (by decide)]
      exact ⟨.inl (aliasFor_none halias), fun text => id, ⟨rfl, rfl⟩, applyRename_settled none htarget⟩
    | some text =>
      rw [halias, Option.isSome_some, if_pos rfl] at hkept
      rw [hkept, if_pos rfl, htext, halias]
      have hparked := @applyRename_aliasField part newName _ (aliasFor_ne_empty halias)
      refine ⟨.inr (recoverable_aliasFor htarget halias rfl rfl hparked), fun old hold => ?_, ⟨rfl, rfl⟩,
        applyRename_settled (some text) htarget⟩
      rw [hfree hkept] at hold
      exact absurd hold (by simp)

theorem applyRename_described (h : (proposeRename part canonical).newName = some newName)
    (hclass : classifyName part canonical = .description) :
    Renamed canonical part (applyRename part newName none) := by
  refine ⟨.inr ?_, fun text => id, ⟨rfl, rfl⟩, applyRename_settled none (proposeRename_some h).1⟩
  rcases classifyName_description hclass with hdescription | hhead
  · exact .description hdescription
  · exact .descriptionHead hhead

theorem classification_proposeRename :
    (proposeRename part canonical).classification = classifyName part canonical := by
  rw [proposeRename]
  split
  next => rfl
  next => split_ifs <;> rfl

/-- The job leaves a part as it is, or renames it without losing text and for good. -/
theorem processPart_renamed (apply includeFree : Bool) (part : NamedPart)
    (canonical : Option CanonicalName) :
    processPart apply includeFree part canonical = part ∧
        (apply = false ∨ (resolvedProposal includeFree part canonical).newName = none) ∨
      apply = true ∧
        some (processPart apply includeFree part canonical).name =
          (resolvedProposal includeFree part canonical).newName ∧
        Renamed canonical part (processPart apply includeFree part canonical) := by
  cases hnew : (resolvedProposal includeFree part canonical).newName with
  | none => exact .inl ⟨by rw [processPart, hnew], .inr rfl⟩
  | some newName =>
    cases apply with
    | false => exact .inl ⟨by rw [processPart, hnew]; rfl, .inl rfl⟩
    | true =>
      refine .inr ⟨rfl, by rw [processPart, hnew]; rfl, ?_⟩
      rw [processPart, hnew]
      dsimp only
      rw [if_pos rfl]
      obtain ⟨hproposed, ⟨hresolved, hfree⟩ | ⟨hclass, hkept⟩⟩ := resolvedProposal_some hnew
      · rw [hresolved]
        exact applyRename_parked hproposed hfree
      · rw [hkept, if_neg (by decide)]
        rw [classification_proposeRename] at hclass
        exact applyRename_described hproposed hclass

/-- Two blanks after the separator: one of them is nowhere afterwards. -/
theorem gap_not_recoverable :
    ¬ ∀ (part : NamedPart) (canonical : CanonicalName),
      (processPart true false part (some canonical)).name ≠ part.name →
        Recoverable (· = "") part (processPart true false part (some canonical)) := by
  intro h
  have hafter : processPart true false ⟨"R1 -  led", some "M1", none, none⟩
      (some ⟨"R1", by decide, by decide⟩) = ⟨"R1", some "M1", none, some "led"⟩ := by decide
  have hkept := h ⟨"R1 -  led", some "M1", none, none⟩ ⟨"R1", by decide, by decide⟩
    (by rw [hafter]; decide)
  rw [hafter] at hkept
  cases hkept with
  | mpn h => exact absurd h (by decide)
  | aliasField h => exact absurd h (by decide)
  | description h => exact absurd h (by decide)
  | descriptionHead h => exact absurd h (by decide)
  | role head role gap hhead hrole hgap h =>
    obtain rfl : "led" = role := Option.some.inj hrole
    subst hgap
    rcases hhead with rfl | rfl
    · exact absurd h (by decide)
    · exact absurd h (by decide)

end StockManager.Naming
