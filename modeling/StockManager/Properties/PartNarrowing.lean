import StockManager.Effects.SexprNames
import StockManager.Model.EdaImport

/-! # Narrowing to one part never guesses

Both picks choose by tiers; the places the model adds to the entries do not change the choice. -/

namespace StockManager.Eda

open Sexpr (Text)
open Singling (choose SingledOut)

variable {env : Env} {plan : ImportPlan} {hints : List Text}

def symbolTiers (env : Env) (plan : ImportPlan) (hints : List Text) :
    List (PendingSymbol → Bool) :=
  [isLinked env plan, fun symbol => isWanted env (foldedHints env hints) symbol.val,
    fun symbol => isWanted env (foldedNames env plan ++ fileStems env plan) symbol.val]

/-- The footprint the symbol's property names, folded. -/
def isReferenced (env : Env) (symbol : Option PendingSymbol) (footprint : PendingFootprint) :
    Bool :=
  symbol.any fun symbol => footprintReference symbol ≠ [] ∧
    isWanted env [foldedReference env (footprintReference symbol)] footprint.val

def footprintTiers (env : Env) (symbol : Option PendingSymbol) (hints : List Text) :
    List (PendingFootprint → Bool) :=
  [isReferenced env symbol,
    fun footprint => isWanted env (foldedHints env hints) footprint.val]

theorem pickSymbol_choose : pickSymbol env plan hints =
    Outcome.orRaise (choose ((symbolTiers env plan hints).map (· ∘ Prod.fst)) plan.symbols.zipIdx)
      (.multipleSymbols plan.symbols.length
        ((plan.symbols.map fun entry => entry.val.name.take 80).take 20)) := by
  by_cases hlength : plan.symbols.length ≤ 1
  · simp [pickSymbol, choose, hlength, Outcome.orRaise]
  · simp only [pickSymbol, choose, List.length_zipIdx, hlength, if_false, symbolTiers,
      List.map_cons, List.map_nil, Singling.firstSole, uniqueMatch, Function.comp_def,
      Option.or_none, Option.or_assoc]
    generalize (Singling.sole _).or _ = picked
    cases picked with
    | none => rfl
    | some symbol => rfl

theorem referencedFootprint_eq (symbol : Option PendingSymbol) :
    referencedFootprint env plan symbol =
      Singling.sole (plan.footprints.zipIdx.filter (isReferenced env symbol ∘ Prod.fst)) := by
  cases symbol with
  | none => simp [referencedFootprint, isReferenced, Singling.sole, Function.comp_def]
  | some symbol =>
    by_cases hempty : footprintReference symbol = []
    · simp [referencedFootprint, isReferenced, hempty, Singling.sole, Function.comp_def]
    · simp [referencedFootprint, isReferenced, hempty, uniqueMatch, Function.comp_def]

theorem pickFootprint_choose {symbol : Option PendingSymbol} : pickFootprint env plan symbol hints =
    Outcome.orRaise
      (choose ((footprintTiers env symbol hints).map (· ∘ Prod.fst)) plan.footprints.zipIdx)
      (.multipleFootprints plan.footprints.length
        ((plan.footprints.map fun entry => entry.val.name.take 80).take 20)) := by
  by_cases hlength : plan.footprints.length ≤ 1
  · simp [pickFootprint, choose, hlength, Outcome.orRaise]
  · simp only [pickFootprint, choose, List.length_zipIdx, hlength, if_false, footprintTiers,
      List.map_cons, List.map_nil, Singling.firstSole, uniqueMatch, Option.or_none,
      referencedFootprint_eq, Function.comp_def]
    generalize (Singling.sole _).or _ = picked
    cases picked with
    | none => rfl
    | some footprint => rfl

theorem droppedNotes_split {α : Type} (entry : α → PendingEntry) (before after : List α) (a : α) :
    droppedNotes entry (before ++ a :: after) (some (a, before.length)) =
      (before ++ after).map fun other => notThisPart (entry other) := by
  have hbefore : before.zipIdx.filter (fun placed => before.length ≠ placed.2) = before.zipIdx := by
    refine List.filter_eq_self.mpr fun placed hmem => ?_
    have := List.snd_lt_of_mem_zipIdx hmem
    simp
    omega
  have hafter : (after.zipIdx (before.length + 1)).filter
      (fun placed => before.length ≠ placed.2) = after.zipIdx (before.length + 1) := by
    refine List.filter_eq_self.mpr fun placed hmem => ?_
    have := List.le_snd_of_mem_zipIdx hmem
    simp
    omega
  have hfst : ∀ (l : List α) (n : ℕ), ((l.zipIdx n).map fun placed =>
      notThisPart (entry placed.1)) = l.map fun other => notThisPart (entry other) := by
    intro l
    induction l with
    | nil => exact fun _ => rfl
    | cons a l ih => exact fun n => congrArg _ (ih (n + 1))
  simp only [droppedNotes, List.zipIdx_append, List.zipIdx_cons, List.filter_append,
    List.filter_cons, Option.map_some, ne_eq, Option.some.injEq, Nat.zero_add, not_true_eq_false,
    decide_false, Bool.false_eq_true, if_false, List.map_append] at *
  rw [hbefore, hafter, hfst, hfst]

/-- The kept entry stands once in the group, and each of the others has its note. -/
def NotedOnce {α : Type} (entry : α → PendingEntry) (group kept : List α)
    (notes : List Skipped) : Prop :=
  ∃ before after, group = before ++ kept ++ after ∧
    notes = (before ++ after).map fun other => notThisPart (entry other)

theorem notedOnce_of_choose {α : Type} (entry : α → PendingEntry)
    {tiers : List (α × ℕ → Bool)} {group : List α} {kept : Option (α × ℕ)}
    (h : choose tiers group.zipIdx = some kept) :
    NotedOnce entry group (kept.map (·.1)).toList (droppedNotes entry group kept) := by
  cases kept with
  | none =>
    have hempty : group = [] := by simpa using Singling.choose_none h
    subst hempty
    exact ⟨[], [], rfl, rfl⟩
  | some placed =>
    obtain ⟨a, i⟩ := placed
    have hplace : group[i]? = some a := List.mem_zipIdx_iff_getElem?.mp (Singling.choose_mem h)
    obtain ⟨hi, ha⟩ := List.getElem?_eq_some_iff.mp hplace
    have hgroup : group = group.take i ++ a :: group.drop (i + 1) := by
      rw [← ha, List.getElem_cons_drop, List.take_append_drop]
    have hlength : (group.take i).length = i := by
      rw [List.length_take]
      omega
    refine ⟨group.take i, group.drop (i + 1), by simpa using hgroup, ?_⟩
    have hnotes := droppedNotes_split entry (group.take i) (group.drop (i + 1)) a
    rwa [← hgroup, hlength] at hnotes

/-- A rejection without the names it lists, the first twenty in the order of the plan. -/
def Ambiguity.unlisted : Ambiguity → Ambiguity
  | multipleSymbols count _ => .multipleSymbols count []
  | multipleFootprints count _ => .multipleFootprints count []

/-- What is kept, or the rejection. -/
def outcome (env : Env) (plan : ImportPlan) (hints : List Text) :
    Except Ambiguity (List PendingSymbol × List PendingFootprint) :=
  ((narrowToPart env plan hints).map fun kept => (kept.symbols, kept.footprints)).mapError
    Ambiguity.unlisted

theorem choose_placed {α : Type} (tiers : List (α → Bool)) (group : List α) :
    choose tiers group =
      (choose (tiers.map (· ∘ Prod.fst)) group.zipIdx).map (Option.map Prod.fst) := by
  rw [← Singling.choose_map, List.zipIdx_map_fst]

theorem outcome_eq : outcome env plan hints = (do
    let symbol ← Outcome.orRaise (choose (symbolTiers env plan hints) plan.symbols)
      (.multipleSymbols plan.symbols.length [])
    let footprint ← Outcome.orRaise (choose (footprintTiers env symbol hints) plan.footprints)
      (.multipleFootprints plan.footprints.length [])
    return (symbol.toList, footprint.toList)) := by
  rw [choose_placed]
  unfold outcome narrowToPart
  rw [pickSymbol_choose]
  cases choose ((symbolTiers env plan hints).map (· ∘ Prod.fst)) plan.symbols.zipIdx with
  | none => rfl
  | some symbol =>
    show Except.mapError _ (Except.map _ (pickFootprint env plan (symbol.map (·.1)) hints >>= _)) =
      (Outcome.orRaise (choose (footprintTiers env (symbol.map (·.1)) hints) plan.footprints) _ >>= _)
    rw [pickFootprint_choose,
      choose_placed (footprintTiers env (symbol.map (·.1)) hints) plan.footprints]
    cases choose ((footprintTiers env (symbol.map (·.1)) hints).map (· ∘ Prod.fst))
      plan.footprints.zipIdx with
    | none => rfl
    | some footprint => rfl

/-- Nothing, all there is, or what the first deciding tier meets. -/
def KeptByTier {α : Type} (tiers : List (α → Bool)) (group kept : List α) : Prop :=
  (group = [] ∧ kept = []) ∨ ∃ a, kept = [a] ∧ (group = [a] ∨ SingledOut tiers group a)

theorem keptByTier_of_choose {α : Type} {tiers : List (α → Bool)} {group : List α}
    {kept : Option (α × ℕ)}
    (h : choose (tiers.map (· ∘ Prod.fst)) group.zipIdx = some kept) :
    choose tiers group = some (kept.map Prod.fst) ∧
      KeptByTier tiers group (kept.map (·.1)).toList := by
  have hchoose : choose tiers group = some (kept.map Prod.fst) := by
    rw [choose_placed, h, Option.map_some]
  refine ⟨hchoose, ?_⟩
  rcases Singling.choose_eq_some hchoose with ⟨hgroup, hnone⟩ | ⟨a, ha, hkept⟩
  · exact .inl ⟨hgroup, by rw [hnone, Option.toList_none]⟩
  · exact .inr ⟨a, by rw [ha, Option.toList_some], hkept⟩

theorem narrowToPart_ok {kept : ImportPlan} (h : narrowToPart env plan hints = .ok kept) :
    ∃ symbol footprint,
      choose ((symbolTiers env plan hints).map (· ∘ Prod.fst)) plan.symbols.zipIdx =
        some symbol ∧
      choose ((footprintTiers env (symbol.map (·.1)) hints).map (· ∘ Prod.fst))
        plan.footprints.zipIdx = some footprint ∧
      kept.symbols = (symbol.map (·.1)).toList ∧
      kept.footprints = (footprint.map (·.1)).toList ∧ kept.datafiles = plan.datafiles ∧
      kept.skipped = plan.skipped ++ (droppedNotes Subtype.val plan.symbols symbol ++
        droppedNotes Subtype.val plan.footprints footprint) := by
  obtain ⟨symbol, hsymbol, h⟩ := Outcome.bind_ok.mp h
  obtain ⟨footprint, hfootprint, h⟩ := Outcome.bind_ok.mp h
  rw [pickSymbol_choose] at hsymbol
  rw [pickFootprint_choose] at hfootprint
  cases h
  exact ⟨symbol, footprint, Outcome.orRaise_ok.mp hsymbol, Outcome.orRaise_ok.mp hfootprint,
    rfl, rfl, rfl, rfl⟩

theorem symbolTiers_perm {plan' : ImportPlan} (h : plan.footprints.Perm plan'.footprints) :
    symbolTiers env plan hints = symbolTiers env plan' hints := by
  have hnames : ∀ name, name ∈ foldedNames env plan ↔ name ∈ foldedNames env plan' :=
    fun name => (h.map _).mem_iff
  have hstems : ∀ stem, stem ∈ fileStems env plan ↔ stem ∈ fileStems env plan' :=
    fun stem => (h.map _).mem_iff
  have hlinked : isLinked env plan = isLinked env plan' := by
    funext symbol
    simp only [isLinked, hnames]
  have hwanted : (fun symbol : PendingSymbol =>
      isWanted env (foldedNames env plan ++ fileStems env plan) symbol.val) =
      fun symbol => isWanted env (foldedNames env plan' ++ fileStems env plan') symbol.val := by
    funext symbol
    simp only [isWanted, List.mem_append, hnames, hstems]
  simp only [symbolTiers, hlinked, hwanted]

theorem outcome_perm {plan' : ImportPlan} (hsymbols : plan.symbols.Perm plan'.symbols)
    (hfootprints : plan.footprints.Perm plan'.footprints) :
    outcome env plan hints = outcome env plan' hints := by
  have hfootprint : ∀ tiers, choose tiers plan.footprints = choose tiers plan'.footprints :=
    fun tiers => Singling.choose_perm tiers hfootprints
  rw [outcome_eq, outcome_eq, Singling.choose_perm _ hsymbols, symbolTiers_perm hfootprints,
    hsymbols.length_eq, hfootprints.length_eq]
  simp only [hfootprint]

/-- The one element of its group that meets the tier. -/
def OnlyOne {α : Type} (tier : α → Bool) (group : List α) (a : α) : Prop :=
  a ∈ group ∧ tier a = true ∧ ∀ other ∈ group, tier other = true → other = a

/-- An entry that alone has the folded name of the chosen symbol's reference, or of a hint where
no stronger tier decides, is the one kept. -/
structure NamedKept (env : Env) (plan : ImportPlan) (hints : List Text) (kept : ImportPlan) :
    Prop where
  referenced : ∀ footprint, OnlyOne (isReferenced env kept.symbols.head?) plan.footprints footprint →
    kept.footprints = [footprint]
  hintedFootprint : ∀ footprint,
    OnlyOne (fun fp => isWanted env (foldedHints env hints) fp.val) plan.footprints footprint →
    (∀ other, plan.footprints.filter (isReferenced env kept.symbols.head?) ≠ [other]) →
    kept.footprints = [footprint]
  linked : ∀ symbol, OnlyOne (isLinked env plan) plan.symbols symbol → kept.symbols = [symbol]
  hintedSymbol : ∀ symbol,
    OnlyOne (fun s => isWanted env (foldedHints env hints) s.val) plan.symbols symbol →
    (∀ other, plan.symbols.filter (isLinked env plan) ≠ [other]) → kept.symbols = [symbol]

theorem sole_none {α : Type} {l : List α} (h : ∀ a, l ≠ [a]) : Singling.sole l = none := by
  cases hsole : Singling.sole l with
  | none => rfl
  | some a => exact absurd (Singling.sole_eq_some.mp hsole) (h a)

theorem choose_onlyOne {α : Type} (before : List (α → Bool)) {after : List (α → Bool)}
    {tier : α → Bool} {group : List α} {a : α} {kept : Option α} (hnodup : group.Nodup) (h : OnlyOne tier group a)
    (hbefore : ∀ weaker ∈ before, ∀ other, group.filter weaker ≠ [other])
    (hkept : choose (before ++ tier :: after) group = some kept) : kept = some a := by
  have hfilter := Singling.filter_eq_singleton hnodup h.1 h.2.1 h.2.2
  have hsingled : SingledOut (before ++ tier :: after) group a :=
    ⟨before, tier, after, rfl, hfilter, fun weaker hmem => sole_none (hbefore weaker hmem)⟩
  rw [Singling.choose_of_singled hsingled] at hkept
  exact (Option.some.inj hkept).symm

theorem namedKept_of_choose {kept : ImportPlan} {symbol : Option PendingSymbol}
    {footprint : Option PendingFootprint} (hsymbols : plan.symbols.Nodup)
    (hfootprints : plan.footprints.Nodup)
    (hsymbol : choose (symbolTiers env plan hints) plan.symbols = some symbol)
    (hfootprint : choose (footprintTiers env symbol hints) plan.footprints = some footprint)
    (hkept : kept.symbols = symbol.toList) (hkept' : kept.footprints = footprint.toList) :
    NamedKept env plan hints kept := by
  have hhead : kept.symbols.head? = symbol := by
    rw [hkept]
    cases symbol with
    | none => rfl
    | some symbol => rfl
  refine ⟨fun a ha => ?_, fun a ha hweaker => ?_, fun a ha => ?_, fun a ha hweaker => ?_⟩
  · rw [hhead] at ha
    have := choose_onlyOne [] hfootprints ha (by simp) hfootprint
    rw [hkept', this, Option.toList_some]
  · rw [hhead] at hweaker
    have := choose_onlyOne [isReferenced env symbol] hfootprints ha
      (by simpa using hweaker) hfootprint
    rw [hkept', this, Option.toList_some]
  · have := choose_onlyOne [] hsymbols ha (by simp) hsymbol
    rw [hkept, this, Option.toList_some]
  · have := choose_onlyOne [isLinked env plan] hsymbols ha
      (by simpa using hweaker) hsymbol
    rw [hkept, this, Option.toList_some]

/-- The fold on ASCII text. -/
def asciiEnv : Env where
  maxUploadBytes := 25 * mib
  sha256 data := data.data.toList.map fun byte => Char.ofNat byte.toNat
  fold text := (text.map Char.toLower).filter Char.isAlphanum

/-- Each pick is what the first deciding tier meets, every other entry has its one note, and the
order of the entries does not matter. -/
theorem narrowed_by_tiers (env : Env) (plan : ImportPlan) (hints : List Text)
    (hsymbols : plan.symbols.Nodup) (hfootprints : plan.footprints.Nodup) :
    (∀ kept, narrowToPart env plan hints = .ok kept →
      KeptByTier (symbolTiers env plan hints) plan.symbols kept.symbols ∧
      KeptByTier (footprintTiers env kept.symbols.head? hints) plan.footprints kept.footprints ∧
      (∃ notes notes', NotedOnce Subtype.val plan.symbols kept.symbols notes ∧
        NotedOnce Subtype.val plan.footprints kept.footprints notes' ∧
        kept.skipped = plan.skipped ++ (notes ++ notes')) ∧
      kept.datafiles = plan.datafiles ∧ NamedKept env plan hints kept) ∧
    ∀ plan' : ImportPlan, plan.symbols.Perm plan'.symbols →
      plan.footprints.Perm plan'.footprints → outcome env plan hints = outcome env plan' hints := by
  refine ⟨fun kept hkept => ?_, fun plan' hs hf => outcome_perm hs hf⟩
  obtain ⟨symbol, footprint, hsymbol, hfootprint, hkeptSymbols, hkeptFootprints, hdatafiles,
    hskipped⟩ := narrowToPart_ok hkept
  obtain ⟨hchosen, hsymbolTier⟩ := keptByTier_of_choose hsymbol
  obtain ⟨hchosen', hfootprintTier⟩ := keptByTier_of_choose hfootprint
  have hhead : kept.symbols.head? = symbol.map (·.1) := by
    rw [hkeptSymbols]
    cases symbol with
    | none => rfl
    | some symbol => rfl
  refine ⟨hkeptSymbols ▸ hsymbolTier, ?_, ?_, hdatafiles,
    namedKept_of_choose hsymbols hfootprints hchosen hchosen' hkeptSymbols hkeptFootprints⟩
  · rw [hhead, hkeptFootprints]
    exact hfootprintTier
  · exact ⟨_, _, hkeptSymbols ▸ notedOnce_of_choose Subtype.val hsymbol,
      hkeptFootprints ▸ notedOnce_of_choose Subtype.val hfootprint, hskipped⟩

def bareFootprint (name : Text) (h : name ≠ []) : PendingFootprint :=
  ⟨⟨name, [Sexpr.bare "footprint", Sexpr.quoted name], name ++ ".kicad_mod".toList, rfl, h,
    _, _, Sexpr.Stable.parse_emit ⟨rfl, Nat.le_of_ble_eq_true rfl⟩, .inl rfl⟩, _, rfl, by decide⟩

def wiredSymbol (name reference : Text) (h : name ≠ []) : PendingSymbol :=
  ⟨⟨name, [Sexpr.bare "symbol", Sexpr.quoted name,
      .node [Sexpr.bare "property", Sexpr.quoted "Footprint".toList, Sexpr.quoted reference]],
    "parts.kicad_sym".toList, rfl, h,
    _, _, Sexpr.Stable.parse_emit ⟨rfl, Nat.le_of_ble_eq_true rfl⟩, .inl rfl⟩, rfl⟩

/-- `LM317` is named by the hint, `LM318` by its link to the footprint. -/
def linkedPlan : ImportPlan where
  symbols := [wiredSymbol "LM317".toList [] (by decide),
    wiredSymbol "LM318".toList "Lib:SOT-23".toList (by decide)]
  footprints := [bareFootprint "SOT-23".toList (by decide)]
  datafiles := []
  skipped := []

/-- Nothing decides between the symbols. -/
def undecidedPlan : ImportPlan where
  symbols := [wiredSymbol "A".toList [] (by decide), wiredSymbol "B".toList [] (by decide)]
  footprints := []
  datafiles := []
  skipped := []

def turnedPlan : ImportPlan := { undecidedPlan with symbols := undecidedPlan.symbols.reverse }

def keptNames (kept : ImportPlan) : List Text × List Text :=
  (kept.symbols.map (·.val.name), kept.footprints.map (·.val.name))

/-- A link outweighs an exact hint, and the rejection lists the names in the order of the plan. -/
theorem exact_names_lose :
    (narrowToPart asciiEnv linkedPlan ["LM317".toList]).map keptNames =
      .ok (["LM318".toList], ["SOT-23".toList]) ∧
    (undecidedPlan.symbols.Perm turnedPlan.symbols ∧
      (narrowToPart asciiEnv undecidedPlan []).map keptNames =
        .error (.multipleSymbols 2 ["A".toList, "B".toList]) ∧
      (narrowToPart asciiEnv turnedPlan []).map keptNames =
        .error (.multipleSymbols 2 ["B".toList, "A".toList])) := by
  exact ⟨by decide, (List.reverse_perm _).symm, by decide, by decide⟩

/-- The symbol names `A-B`, which folds like `A_B`. -/
def ambiguousPlan : ImportPlan where
  symbols := [wiredSymbol "AB".toList "Lib:A-B".toList (by decide)]
  footprints := [bareFootprint "A-B".toList (by decide), bareFootprint "A_B".toList (by decide),
    bareFootprint "SOT-23".toList (by decide)]
  datafiles := []
  skipped := []

/-- The exact reference folds like two footprints, and the hint takes the third. -/
example : (narrowToPart asciiEnv ambiguousPlan ["sot23".toList]).map keptNames =
    .ok (["AB".toList], ["SOT-23".toList]) := by
  decide

theorem narrowed_by_tiers_linked :
    linkedPlan.symbols.Nodup ∧ linkedPlan.footprints.Nodup ∧
    ∃ kept, narrowToPart asciiEnv linkedPlan ["LM317".toList] = .ok kept ∧
      keptNames kept = (["LM318".toList], ["SOT-23".toList]) ∧
      KeptByTier (symbolTiers asciiEnv linkedPlan ["LM317".toList]) linkedPlan.symbols
        kept.symbols := by
  have hsymbols : linkedPlan.symbols.Nodup := List.Nodup.of_map (·.val.name) (by decide)
  have hfootprints : linkedPlan.footprints.Nodup := List.nodup_singleton _
  have hnames : (narrowToPart asciiEnv linkedPlan ["LM317".toList]).map keptNames =
      .ok (["LM318".toList], ["SOT-23".toList]) := by decide
  obtain ⟨kept, hkept, hkeptNames⟩ := Outcome.map_ok.mp hnames
  have htiers := narrowed_by_tiers asciiEnv linkedPlan ["LM317".toList] hsymbols hfootprints
  exact ⟨hsymbols, hfootprints, kept, hkept, hkeptNames, (htiers.1 kept hkept).1⟩

end StockManager.Eda
