import StockManager.Model.Texts
import StockManager.Properties.CategoryTree

/-! # Name paths

The path of an active category resolves to it exactly when no name on its chain holds a slash
or begins or ends with white space. -/

namespace StockManager.Categories

open DepthFirst ParentChain Trim

/-- What the write paths keep of a workspace's categories. -/
structure WritableTree (rows : List PartCategory) : Prop where
  ids : (rows.map (·.id)).Nodup
  parents : ∀ c ∈ rows, ∀ id ∈ c.parentId, ∃ row ∈ rows, row.id = id
  rooted : ∀ c ∈ rows, ∃ chain, Chain (parentRow rows) c chain
  names : ∀ c ∈ rows, ∀ d ∈ rows, c.archivedAt = none → d.archivedAt = none → c.name = d.name → c = d
  nameLength : ∀ c ∈ rows, 1 ≤ c.name.length ∧ c.name.length ≤ 120
  activeParents : ∀ c ∈ rows, c.archivedAt = none → ∀ p ∈ parentRow rows c, p.archivedAt = none

def PlainName (name : String) : Prop := '/' ∉ name.toList ∧ strip name = name

instance (name : String) : Decidable (PlainName name) := inferInstanceAs (Decidable (_ ∧ _))

variable {py : Casefold} {rows : List PartCategory} {c d p : PartCategory} {chain : List PartCategory}

theorem plainName_of_mem {path : Option String} {segment : String}
    (h : segment ∈ splitCategoryPath path) : PlainName segment := by
  obtain ⟨hmem, -⟩ := List.mem_filter.mp h
  obtain ⟨piece, hpiece, rfl⟩ := List.mem_map.mp hmem
  have htrim : (strip (String.ofList piece)).toList = trim isSpace piece := by
    rw [toList_strip, String.toList_ofList]
  constructor
  · rw [htrim]
    exact fun hslash => not_mem_of_mem_splitOn hpiece (trim_subset piece hslash)
  · exact strip_strip _

theorem trim_splitOn_intercalate {before : List Char} {names : List (List Char)}
    (hbefore : before = [] ∨ before = [' ']) (hne : names ≠ [])
    (hnames : ∀ n ∈ names, '/' ∉ n ∧ Trimmed isSpace n) :
    ((before ++ [' ', '/', ' '].intercalate names).splitOn '/').map (trim isSpace) = names := by
  have hslash : '/' ∉ before := by rcases hbefore with rfl | rfl <;> decide
  have hfirst : ∀ l, trim isSpace (before ++ l) = trim isSpace l := by
    intro l
    rcases hbefore with rfl | rfl
    · rfl
    · exact trim_cons (by decide) l
  induction names generalizing before with
  | nil => exact absurd rfl hne
  | cons n names ih =>
    rw [List.forall_mem_cons] at hnames
    obtain ⟨⟨hn, htrimmed⟩, hrest⟩ := hnames
    cases names with
    | nil =>
      have hnot : '/' ∉ before ++ n := by simp [hslash, hn]
      rw [List.intercalate_singleton, List.splitOn_eq_singleton hnot, List.map_singleton, hfirst,
        trim_of_trimmed htrimmed]
    | cons m names =>
      have hnot : '/' ∉ before ++ (n ++ [' ']) := by simp [hslash, hn]
      have hsplit : before ++ [' ', '/', ' '].intercalate (n :: m :: names) =
          (before ++ (n ++ [' '])) ++ '/' :: ([' '] ++ [' ', '/', ' '].intercalate (m :: names)) := by
        rw [List.intercalate_cons_cons]
        simp
      rw [hsplit, List.splitOn_append_cons_self_of_not_mem hnot, List.map_cons, hfirst,
        trim_append_singleton (by decide) htrimmed,
        ih (.inr rfl) (List.cons_ne_nil _ _) hrest (by decide) fun l => trim_cons (by decide) l]

theorem splitCategoryPath_intercalate {names : List String} (hne : names ≠ [])
    (hnames : ∀ n ∈ names, PlainName n ∧ n ≠ "") :
    splitCategoryPath (some (pathSeparator.intercalate names)) = names := by
  have hpieces := @trim_splitOn_intercalate [] (names.map String.toList) (.inl rfl)
    (by simpa using hne) (by
      intro n hn
      obtain ⟨name, hname, rfl⟩ := List.mem_map.mp hn
      exact ⟨(hnames name hname).1.1, strip_eq_self_iff.mp (hnames name hname).1.2⟩)
  have hstrip : (fun segment => strip (String.ofList segment)) =
      String.ofList ∘ trim isSpace := by
    funext piece
    rw [strip, String.toList_ofList, Function.comp_apply, trim]
  have hnames' : (names.map String.toList).map String.ofList = names := by simp
  rw [splitCategoryPath, Option.getD_some, String.toList_intercalate, hstrip, ← List.map_map]
  rw [List.nil_append] at hpieces
  rw [show pathSeparator.toList = [' ', '/', ' '] from rfl, hpieces, hnames']
  exact List.filter_eq_self.mpr fun n hn => decide_eq_true (hnames n hn).2

theorem mem_slash_text (name : String) : '/' ∈ (py.text name).toList ↔ '/' ∈ name.toList := by
  rw [Casefold.text, String.toList_ofList, List.mem_flatMap]
  constructor
  · rintro ⟨c, hc, hslash⟩
    exact (py.fold_slash c).mp hslash ▸ hc
  · exact fun h => ⟨'/', h, (py.fold_slash '/').mpr rfl⟩

theorem trimmed_flatMap_fold (l : List Char) :
    Trimmed isSpace (l.flatMap py.fold) ↔ Trimmed isSpace l := by
  have hends : ∀ (c d : Char), d ∈ py.fold c → (isSpace d = false ↔ isSpace c = false) := by
    intro c d hd
    cases hc : isSpace c with
    | false => simp [py.fold_word c hc d hd]
    | true =>
      rw [py.fold_space c hc, List.mem_singleton] at hd
      rw [hd, hc]
  refine and_congr ?_ ?_
  · cases l with
    | nil => rfl
    | cons c l =>
      obtain ⟨d, rest, hfold⟩ := List.exists_cons_of_ne_nil (py.fold_ne_nil c)
      have hd := hends c d (by rw [hfold]; exact List.mem_cons_self)
      simpa [hfold] using hd
  · induction l using List.reverseRecOn with
    | nil => rfl
    | append_singleton l c _ =>
      obtain ⟨rest, d, hfold⟩ := (List.eq_nil_or_concat (py.fold c)).resolve_left (py.fold_ne_nil c)
      have hd := hends c d (by rw [hfold]; simp)
      simpa [hfold] using hd

theorem plainName_text (name : String) : PlainName (py.text name) ↔ PlainName name := by
  rw [PlainName, PlainName, mem_slash_text, strip_eq_self_iff, strip_eq_self_iff, Casefold.text,
    String.toList_ofList, trimmed_flatMap_fold]

theorem plainName_of_text {a b : String} (h : py.text a = py.text b) (hb : PlainName b) :
    PlainName a :=
  (plainName_text a).mp (h ▸ (plainName_text b).mpr hb)

theorem matchFrom_mem {segment : String} {fallback : Option PartCategory} {siblings : List PartCategory}
    (hfallback : ∀ row ∈ fallback, py.text row.name = py.text segment)
    (h : matchFrom py segment fallback siblings = some c) :
    (c ∈ siblings ∨ some c = fallback) ∧ py.text c.name = py.text segment := by
  induction siblings generalizing fallback with
  | nil => exact ⟨.inr h.symm, hfallback c h⟩
  | cons row siblings ih =>
    rw [matchFrom] at h
    split at h
    next heq =>
      obtain rfl := Option.some.inj h
      exact ⟨.inl List.mem_cons_self, congrArg py.text heq⟩
    next =>
      split at h
      next hfold =>
        obtain ⟨hmem, htext⟩ := ih (fun r hr => Option.some.inj hr ▸ hfold.2) h
        refine ⟨.inl ?_, htext⟩
        rcases hmem with hmem | hrow
        · exact List.mem_cons_of_mem _ hmem
        · exact Option.some.inj hrow ▸ List.mem_cons_self
      next =>
        obtain ⟨hmem, htext⟩ := ih hfallback h
        exact ⟨hmem.imp_left (List.mem_cons_of_mem _), htext⟩

theorem matchFrom_exact {segment : String} {siblings : List PartCategory} (hc : c ∈ siblings)
    (hname : c.name = segment) (honly : ∀ d ∈ siblings, d.name = segment → d = c)
    (fallback : Option PartCategory) : matchFrom py segment fallback siblings = some c := by
  induction siblings generalizing fallback with
  | nil => exact absurd hc List.not_mem_nil
  | cons row siblings ih =>
    rw [List.forall_mem_cons] at honly
    rw [matchFrom]
    split
    next heq => rw [honly.1 heq]
    next hrow =>
      have hrest : c ∈ siblings := (List.mem_cons.mp hc).resolve_left fun h => hrow (h ▸ hname)
      split
      next => exact ih hrest honly.2 _
      next => exact ih hrest honly.2 _

theorem exists_segment {found : List PartCategory} {segments : List String}
    (h : List.Forall₂ (fun row segment => py.text row.name = py.text segment) found segments)
    (hd : d ∈ found) : ∃ segment ∈ segments, py.text d.name = py.text segment := by
  induction h with
  | nil => exact absurd hd List.not_mem_nil
  | @cons row segment found segments htext _ ih =>
    rcases List.mem_cons.mp hd with rfl | hd
    · exact ⟨segment, List.mem_cons_self, htext⟩
    · obtain ⟨later, hlater, hsame⟩ := ih hd
      exact ⟨later, List.mem_cons_of_mem _ hlater, hsame⟩

theorem mem_activeChildren {parent : Option Uuid} : d ∈ (categoryIndex rows).activeChildren parent ↔
    d ∈ rows ∧ d.archivedAt = none ∧ d.parentId = parent := by
  simp [categoryIndex]

section Tree

variable (h : WritableTree rows)
include h

theorem WritableTree.listedParent_eq (hd : d ∈ rows) : listedParent rows d = d.parentId := by
  rw [listedParent]
  cases hparent : d.parentId with
  | none => rfl
  | some id =>
    obtain ⟨row, hrow, rfl⟩ := h.parents d hd id hparent
    rw [Option.filter_some, if_pos (decide_eq_true (List.mem_map_of_mem hrow))]

theorem WritableTree.parentRow_none (hd : d ∈ rows) : parentRow rows d = none ↔ d.parentId = none := by
  rw [parentRow_eq_none h.ids, h.listedParent_eq hd]

theorem WritableTree.parentRow_some (hd : d ∈ rows) (hp : p ∈ rows) :
    parentRow rows d = some p ↔ d.parentId = some p.id := by
  rw [parentRow_eq_some h.ids, h.listedParent_eq hd]
  exact ⟨fun hr => hr.2, fun hr => ⟨hp, hr⟩⟩

theorem WritableTree.walkFrom_chain {node : Option PartCategory} {above : List PartCategory}
    {segments : List String}
    (hnode : node.elim (above = []) fun n => n ∈ rows ∧ Chain (parentRow rows) n above)
    (hwalk : walkFrom py (categoryIndex rows).activeChildren node segments = some c) :
    ∃ found, Chain (parentRow rows) c (above ++ found) ∧
      List.Forall₂ (fun row segment => py.text row.name = py.text segment) found segments := by
  induction segments generalizing node above with
  | nil =>
    rw [walkFrom] at hwalk
    rw [hwalk] at hnode
    exact ⟨[], by rw [List.append_nil]; exact hnode.2, .nil⟩
  | cons segment segments ih =>
    rw [walkFrom, Option.bind_eq_some_iff] at hwalk
    obtain ⟨row, hrow, hrest⟩ := hwalk
    obtain ⟨hmem, htext⟩ := matchFrom_mem (fun _ hr => absurd hr (by simp)) hrow
    obtain ⟨hrows, -, hparent⟩ := mem_activeChildren.mp (hmem.resolve_right (Option.some_ne_none row))
    have hchain : Chain (parentRow rows) row (above ++ [row]) := by
      cases node with
      | none =>
        have habove : above = [] := hnode
        rw [habove]
        exact .root ((h.parentRow_none hrows).mpr hparent)
      | some n => exact .step ((h.parentRow_some hrows hnode.1).mpr hparent) hnode.2
    obtain ⟨found, hfound, hnames⟩ := @ih (some row) (above ++ [row]) ⟨hrows, hchain⟩ hrest
    refine ⟨row :: found, ?_, .cons htext hnames⟩
    rwa [List.append_assoc] at hfound

theorem WritableTree.walkFrom_names (py : Casefold) (hchain : Chain (parentRow rows) c chain) (hc : c ∈ rows)
    (hactive : c.archivedAt = none) (rest : List String) :
    walkFrom py (categoryIndex rows).activeChildren none (chain.map (·.name) ++ rest) =
      walkFrom py (categoryIndex rows).activeChildren (some c) rest := by
  have hfound : ∀ {c parent} (rest : List String), c ∈ rows → c.archivedAt = none → c.parentId = parent →
      (matchFrom py c.name none ((categoryIndex rows).activeChildren parent)) = some c := by
    intro c parent rest hc hactive hparent
    refine matchFrom_exact (mem_activeChildren.mpr ⟨hc, hactive, hparent⟩) rfl (fun d hd hname => ?_) none
    obtain ⟨hdmem, hdactive, -⟩ := mem_activeChildren.mp hd
    exact h.names d hdmem c hc hdactive hactive hname
  induction hchain generalizing rest with
  | root hroot =>
    have hmatch := @hfound _ none rest hc hactive ((h.parentRow_none hc).mp hroot)
    rw [List.map_singleton, List.singleton_append, walkFrom, Option.map_none, hmatch, Option.bind_some]
  | @step a p above hparent _ ih =>
    have hp := ((parentRow_eq_some h.ids).mp hparent).1
    have hmatch := hfound rest hc hactive ((h.parentRow_some hc hp).mp hparent)
    rw [List.map_append, List.append_assoc, ih hp (h.activeParents a hc hactive p hparent),
      List.map_singleton, List.singleton_append, walkFrom, Option.map_some, hmatch, Option.bind_some]

theorem WritableTree.categoryNamePath_eq (hchain : Chain (parentRow rows) c chain) (hc : c ∈ rows) :
    categoryNamePath (categoryIndex rows) (some c.id) =
      some (pathSeparator.intercalate (chain.map (·.name))) := by
  have hperm := treePaths_perm h.ids pathSeparator
  have hkeys : ((treePaths rows pathSeparator).map fun item => item.1.id).Nodup := by
    have hids := (hperm.map (·.id)).nodup_iff.mpr h.ids
    rwa [List.map_map] at hids
  have hpath := (rendered_treePaths h.ids pathSeparator hc hchain).path
  rw [categoryNamePath, Option.bind_some, categoryIndex,
    Dict.foldl_put_of_nodup (fun item : PartCategory × String => item.1.id) (fun item => item.2) hkeys]
  refine (Dict.mem_iff_find ?_).mp (List.mem_map.mpr ⟨_, hpath, rfl⟩)
  rw [Dict.keys, List.map_map]
  exact hkeys

end Tree

/-- The path of an active category names it exactly when every name on its chain is plain. -/
theorem resolveCategoryPath_categoryNamePath (py : Casefold) (h : WritableTree rows) (hc : c ∈ rows)
    (hactive : c.archivedAt = none) (hchain : Chain (parentRow rows) c chain) :
    resolveCategoryPath py (categoryIndex rows) (categoryNamePath (categoryIndex rows) (some c.id)) =
      some c ↔ ∀ b ∈ chain, PlainName b.name := by
  rw [h.categoryNamePath_eq hchain hc, resolveCategoryPath]
  constructor
  · intro hwalk b hb
    have hroot : (none : Option PartCategory).elim (([] : List PartCategory) = [])
        fun n => n ∈ rows ∧ Chain (parentRow rows) n [] := rfl
    obtain ⟨found, hfound, hnames⟩ := h.walkFrom_chain hroot hwalk
    rw [List.nil_append] at hfound
    rw [hchain.unique hfound] at hb
    obtain ⟨segment, hsegment, htext⟩ := exists_segment hnames hb
    exact plainName_of_text htext (plainName_of_mem hsegment)
  · intro hplain
    have hmem := chain_subset h.ids hchain hc
    have hne : chain.map (·.name) ≠ [] := by
      obtain ⟨above, rfl⟩ := hchain.last
      simp
    have hwalk := h.walkFrom_names py hchain hc hactive []
    rw [List.append_nil, walkFrom] at hwalk
    rw [splitCategoryPath_intercalate hne ?_, hwalk]
    intro n hn
    obtain ⟨b, hb, rfl⟩ := List.mem_map.mp hn
    refine ⟨hplain b hb, fun hempty => ?_⟩
    have hlength := (h.nameLength b (hmem b hb)).1
    rw [hempty] at hlength
    exact absurd hlength (by decide)

/-- Case folding of the letters A to Z. -/
def foldAscii (c : Char) : Char := if 'A' ≤ c ∧ c ≤ 'Z' then Char.ofNat (c.toNat + 32) else c

theorem foldAscii_plain (c : Char) : (foldAscii c = '/' ↔ c = '/') ∧
    isSpace (foldAscii c) = isSpace c ∧ (isSpace c = true → foldAscii c = c) := by
  by_cases hupper : 'A' ≤ c ∧ c ≤ 'Z'
  · have hletter : ∀ n < 91, 65 ≤ n → (Char.ofNat (n + 32) = '/' ↔ Char.ofNat n = '/') ∧
        isSpace (Char.ofNat (n + 32)) = isSpace (Char.ofNat n) ∧ isSpace (Char.ofNat n) = false := by
      decide
    have hle : 'A'.toNat ≤ c.toNat := hupper.1
    have hge : c.toNat ≤ 'Z'.toNat := hupper.2
    have hc := hletter c.toNat (Nat.lt_succ_of_le hge) hle
    rw [Char.ofNat_toNat] at hc
    rw [foldAscii, if_pos hupper]
    exact ⟨hc.1, hc.2.1, fun h => absurd (h.symm.trans hc.2.2) (by decide)⟩
  · rw [foldAscii, if_neg hupper]
    exact ⟨Iff.rfl, rfl, fun _ => rfl⟩

theorem fold_slash_ascii (c : Char) : '/' ∈ [foldAscii c] ↔ c = '/' := by
  rw [List.mem_singleton, eq_comm, (foldAscii_plain c).1]

theorem fold_space_ascii (c : Char) (h : isSpace c = true) : [foldAscii c] = [c] := by
  rw [(foldAscii_plain c).2.2 h]

theorem fold_word_ascii (c : Char) (h : isSpace c = false) : ∀ d ∈ [foldAscii c], isSpace d = false := by
  intro d hd
  rw [List.mem_singleton.mp hd, (foldAscii_plain c).2.1, h]

def asciiCasefold : Casefold where
  fold c := [foldAscii c]
  fold_ne_nil _ := List.cons_ne_nil _ _
  fold_slash := fold_slash_ascii
  fold_space := fold_space_ascii
  fold_word := fold_word_ascii

def sampleNetworks : PartCategory := ⟨4, "R/C", 0, none, none⟩

theorem writableTree_sample : WritableTree [sampleCapacitors, sampleCeramic, sampleNetworks] where
  ids := by decide
  parents := by decide
  rooted := by
    have hroot : Chain (parentRow [sampleCapacitors, sampleCeramic, sampleNetworks]) sampleCapacitors
        [sampleCapacitors] := .root (by decide)
    intro c hc
    simp only [List.mem_cons, List.not_mem_nil, or_false] at hc
    obtain rfl | rfl | rfl := hc
    · exact ⟨_, hroot⟩
    · exact ⟨_, .step (by decide) hroot⟩
    · exact ⟨_, .root (by decide)⟩
  names := by decide
  nameLength := by decide
  activeParents := by decide

theorem resolveCategoryPath_categoryNamePath_sample :
    resolveCategoryPath asciiCasefold (categoryIndex [sampleCapacitors, sampleCeramic, sampleNetworks])
      (categoryNamePath (categoryIndex [sampleCapacitors, sampleCeramic, sampleNetworks]) (some 2)) =
        some sampleCeramic := by
  have hchain : Chain (parentRow [sampleCapacitors, sampleCeramic, sampleNetworks]) sampleCeramic
      [sampleCapacitors, sampleCeramic] :=
    @Chain.step _ _ _ sampleCapacitors [sampleCapacitors] (by decide) (.root (by decide))
  exact (resolveCategoryPath_categoryNamePath asciiCasefold writableTree_sample (by decide) rfl
    hchain).mpr (by decide)

/-- The path of a category named "R/C" reads as two segments. -/
theorem slash_not_resolved : ¬ ∀ (py : Casefold) (rows : List PartCategory), WritableTree rows →
    ∀ c ∈ rows, c.archivedAt = none →
      resolveCategoryPath py (categoryIndex rows) (categoryNamePath (categoryIndex rows) (some c.id)) =
        some c := by
  intro h
  have hpath := writableTree_sample.categoryNamePath_eq (c := sampleNetworks) (.root (by decide))
    (by decide)
  have hfound := h asciiCasefold _ writableTree_sample sampleNetworks (by decide) rfl
  rw [hpath] at hfound
  exact absurd hfound (by decide)

end StockManager.Categories
