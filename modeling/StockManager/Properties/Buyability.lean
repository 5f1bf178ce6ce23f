import StockManager.Effects.BuildRows
import StockManager.Model.Coverage
import StockManager.Model.System

/-! # How many copies the stock covers

`_can_build_now` scales the requirement of one build quantity in proportion,
line by line. The number it returns is the largest that every line supports in
proportion; every ledger covers it exactly where the requirement really scales and
the lines do not draw on the same part. -/

namespace StockManager

/-- Every line with a requirement has, of its requirement for `q` builds, `k / q` in stock. -/
def Supports (rows : List ShortageRow) (q k : ℤ) : Prop :=
  (∃ row ∈ rows, 0 < row.required) ∧
    ∀ row ∈ rows, 0 < row.required → (k : Decimal) * row.required ≤ row.available * q

/-- No line is short, and no part is asked for more than there is. -/
def StockCovers (rows : List ShortageRow) : Prop :=
  (∀ row ∈ rows, row.shortBy = 0) ∧
    ∀ row ∈ rows, (((rows.filter fun r => r.partId = row.partId).map (·.required)).sum : Decimal) ≤
      row.available

def NoSubstitutes (rows : List ShortageRow) : Prop := ∀ row ∈ rows, row.substituteIds = []

/-- The sourced row of a shortage row, with its quantities read as integers. -/
def SameShortage (row : ShortageRow) (bom : SourcingBomLineOut) : Prop :=
  bom.projectEntryId = row.projectEntryId ∧ bom.required = row.required ∧
    (bom.available : Decimal) = row.available ∧
    (bom.substituteAvailable : Decimal) = row.substituteAvailable

/-- The report or the build capacity says that `n` copies can be built. -/
def SaysCanBuild (db : Db) (workspaceId : Uuid) (project : Project) (q n : ℤ) : Prop :=
  (unsourcedRow db workspaceId project q).canBuildNow = n ∨
    ∃ bomRows, List.Forall₂ SameShortage (shortageAnalysis db workspaceId project q) bomRows ∧
      (computeBuildCapacity bomRows q).canBuildNow = n

variable {db : Db} {workspaceId : Uuid} {project : Project} {q : ℤ} {rows : List ShortageRow}

theorem le_truncDiv {k : ℤ} {a : Decimal} {r : ℤ} (hr : 0 < r) (hk : 1 ≤ k) :
    k ≤ truncDiv a r ↔ (k : Decimal) * r ≤ a := by
  have hr' : (0 : Decimal) < r := Int.cast_pos.mpr hr
  have hone : (1 : Decimal) ≤ k := by exact_mod_cast hk
  unfold truncDiv
  split
  next => rw [Int.le_floor, le_div_iff₀ hr']
  next hneg =>
    have hlt : a / r < 0 := not_le.mp hneg
    constructor
    · intro hle
      have hceil : ⌈a / r⌉ ≤ 0 := Int.ceil_le.mpr (by simpa using le_of_lt hlt)
      omega
    · intro hle
      have hle' := (le_div_iff₀ hr').mpr hle
      linarith

def quotients (rows : List ShortageRow) (q : ℤ) : List ℤ :=
  (rows.filter fun row => 0 < row.required).map fun row =>
    truncDiv ((row.available + row.substituteAvailable) * q) row.required

theorem canBuildNow_eq : canBuildNow rows q = (quotients rows q).min?.getD 0 := by
  unfold canBuildNow quotients
  split
  next n hn => rw [hn, Option.getD_some]
  next hn => rw [hn, Option.getD_none]

theorem supports_iff {k : ℤ} (hsub : ∀ row ∈ rows, row.substituteAvailable = 0) (hk : 1 ≤ k) :
    Supports rows q k ↔ quotients rows q ≠ [] ∧ ∀ x ∈ quotients rows q, k ≤ x := by
  have hmem : ∀ x, x ∈ quotients rows q ↔ ∃ row ∈ rows, 0 < row.required ∧
      truncDiv (row.available * q) row.required = x := by
    intro x
    unfold quotients
    rw [List.mem_map]
    constructor
    · rintro ⟨row, hrow, rfl⟩
      obtain ⟨hin, hpos⟩ := List.mem_filter.mp hrow
      exact ⟨row, hin, by simpa using hpos, by rw [hsub row hin, add_zero]⟩
    · rintro ⟨row, hin, hpos, rfl⟩
      exact ⟨row, List.mem_filter.mpr ⟨hin, by simpa using hpos⟩, by rw [hsub row hin, add_zero]⟩
  constructor
  · rintro ⟨⟨row, hrow, hpos⟩, hall⟩
    refine ⟨List.ne_nil_of_mem ((hmem _).mpr ⟨row, hrow, hpos, rfl⟩), ?_⟩
    intro x hx
    obtain ⟨row, hrow, hpos, rfl⟩ := (hmem x).mp hx
    exact (le_truncDiv hpos hk).mpr (hall row hrow hpos)
  · rintro ⟨hne, hall⟩
    obtain ⟨x, hx⟩ := List.exists_mem_of_ne_nil _ hne
    obtain ⟨row, hrow, hpos, _⟩ := (hmem x).mp hx
    refine ⟨⟨row, hrow, hpos⟩, ?_⟩
    intro row hrow hpos
    exact (le_truncDiv hpos hk).mp (hall _ ((hmem _).mpr ⟨row, hrow, hpos, rfl⟩))

theorem canBuildNow_greatest (hsub : ∀ row ∈ rows, row.substituteAvailable = 0) {n : ℤ}
    (hn : 1 ≤ n) : canBuildNow rows q = n ↔
      Supports rows q n ∧ ∀ k, 1 ≤ k → Supports rows q k → k ≤ n := by
  rw [canBuildNow_eq]
  constructor
  · intro heq
    cases hleast : (quotients rows q).min? with
    | none =>
      rw [hleast] at heq
      have hzero : (0 : ℤ) = n := heq
      omega
    | some m =>
      rw [hleast] at heq
      have hm : m = n := heq
      subst hm
      obtain ⟨hin, hbelow⟩ := List.min?_eq_some_iff.mp hleast
      refine ⟨(supports_iff hsub hn).mpr ⟨List.ne_nil_of_mem hin, hbelow⟩, ?_⟩
      intro k hk hsupports
      exact ((supports_iff hsub hk).mp hsupports).2 m hin
  · rintro ⟨hsupports, hgreatest⟩
    obtain ⟨hne, hall⟩ := (supports_iff hsub hn).mp hsupports
    cases hleast : (quotients rows q).min? with
    | none => exact absurd (List.min?_eq_none_iff.mp hleast) hne
    | some m =>
      obtain ⟨hin, hbelow⟩ := List.min?_eq_some_iff.mp hleast
      have hle : n ≤ m := hall m hin
      have hge : m ≤ n :=
        hgreatest m (by omega) ((supports_iff hsub (by omega)).mpr ⟨hne, hbelow⟩)
      exact le_antisymm hge hle

theorem supportedBuilds_eq {a r : ℤ} (hr : 0 < r) (h : 1 ≤ supportedBuilds a r q) :
    truncDiv ((a : Decimal) * q) r = supportedBuilds a r q := by
  have hle : ∀ k, 1 ≤ k → (k ≤ truncDiv ((a : Decimal) * q) r ↔ k * r ≤ a * q) := by
    intro k hk
    rw [le_truncDiv hr hk]
    exact_mod_cast Iff.rfl
  unfold supportedBuilds at h ⊢
  split at h
  next => omega
  next hpos =>
    rw [if_neg hpos]
    have hup : a * q / r ≤ truncDiv ((a : Decimal) * q) r :=
      (hle _ h).mpr ((Int.le_ediv_iff_mul_le hr).mp le_rfl)
    have hdown : truncDiv ((a : Decimal) * q) r ≤ a * q / r :=
      (Int.le_ediv_iff_mul_le hr).mpr ((hle _ (by omega)).mp le_rfl)
    exact le_antisymm hdown hup

theorem capacity_canBuildNow {bomRows : List SourcingBomLineOut}
    (hids : (rows.map (·.projectEntryId)).Nodup) (hsame : List.Forall₂ SameShortage rows bomRows)
    {n : ℤ} (hn : 1 ≤ n) (h : (computeBuildCapacity bomRows q).canBuildNow = n) :
    canBuildNow rows q = n := by
  have hbomIds : (bomRows.map (·.projectEntryId)).Nodup := by
    have hkeys : bomRows.map (·.projectEntryId) = rows.map (·.projectEntryId) := by
      clear hids h
      induction hsame with
      | nil => rfl
      | cons hrow _ ih => rw [List.map_cons, List.map_cons, hrow.1, ih]
    rw [hkeys]
    exact hids
  have heffective : ((bomRows.filter fun row => 0 < row.required).map (·.projectEntryId)).Nodup :=
    hbomIds.sublist (List.filter_sublist.map _)
  have hratios : ∀ ratio : SourcingBomLineOut → ℤ,
      (ratiosOf ratio (bomRows.filter fun row => 0 < row.required)).map Prod.snd =
        (bomRows.filter fun row => 0 < row.required).map ratio := by
    intro ratio
    rw [ratiosOf, Dict.foldl_put_of_nodup _ ratio heffective, List.map_map]
    rfl
  have hleast : ((bomRows.filter fun row => 0 < row.required).map fun row => supportedBuilds
      (row.available + row.substituteAvailable) row.required q).min? = some n := by
    simp only [computeBuildCapacity, hratios] at h
    split at h
    next m _ hm _ =>
      rw [hm]
      exact congrArg some h
    next =>
      have hzero : (0 : ℤ) = n := h
      omega
  have hbelow := (List.min?_eq_some_iff.mp hleast).2
  have hpairs : List.Forall₂ SameShortage (rows.filter fun row => 0 < row.required)
      (bomRows.filter fun row => 0 < row.required) := by
    apply List.rel_filter _ hsame
    intro row bom hrow
    simp only [decide_eq_true_eq, hrow.2.1]
  have hquotients : quotients rows q = (bomRows.filter fun row => 0 < row.required).map fun row =>
      supportedBuilds (row.available + row.substituteAvailable) row.required q := by
    have hpos : ∀ row ∈ bomRows.filter fun row => 0 < row.required, 0 < row.required ∧
        1 ≤ supportedBuilds (row.available + row.substituteAvailable) row.required q := by
      intro row hrow
      have hreq := (List.mem_filter.mp hrow).2
      have hle := hbelow _ (List.mem_map_of_mem hrow)
      exact ⟨by simpa using hreq, le_trans hn hle⟩
    unfold quotients
    generalize rows.filter (fun row => 0 < row.required) = left at hpairs ⊢
    generalize bomRows.filter (fun row => 0 < row.required) = right at hpairs hpos ⊢
    induction hpairs with
    | nil => rfl
    | @cons row bom _ _ hrow _ ih =>
      obtain ⟨_, hreq, havail, hsubs⟩ := hrow
      obtain ⟨hr, hone⟩ := hpos bom (List.mem_cons_self ..)
      have heq := supportedBuilds_eq hr hone
      rw [Int.cast_add, havail, hsubs, hreq] at heq
      rw [List.map_cons, List.map_cons, ih fun x hx => hpos x (List.mem_cons_of_mem _ hx), heq, hreq]
  rw [canBuildNow_eq, hquotients, hleast, Option.getD_some]

/-- Whatever number of copies, one or more, is reported, the stock covers it. -/
def CanBuildSound (db : Db) (workspaceId : Uuid) (project : Project) (q : ℤ) : Prop :=
  ∀ n, 1 ≤ n → SaysCanBuild db workspaceId project q n →
    StockCovers (shortageAnalysis db workspaceId project n)

theorem shortageAnalysis_ids (hids : (db.projectEntries.map (·.id)).Nodup) :
    ((shortageAnalysis db workspaceId project q).map (·.projectEntryId)).Nodup := by
  have hkeys : ∀ entries : List ProjectEntry,
      ((entries.filterMap fun e => (e.partId.bind db.part).map
        (shortageRow db workspaceId q e)).map (·.projectEntryId)).Sublist (entries.map (·.id)) := by
    intro entries
    induction entries with
    | nil => exact List.Sublist.refl _
    | cons e entries ih =>
      cases hpart : e.partId.bind db.part with
      | none =>
        rw [List.filterMap_cons_none (by rw [hpart]; rfl)]
        exact ih.cons _
      | some part =>
        rw [List.filterMap_cons_some (b := shortageRow db workspaceId q e part)
          (by rw [hpart]; rfl)]
        exact ih.cons_cons _
  exact (consumableEntries_ids hids).sublist (hkeys _)

theorem shortageAnalysis_substitutes
    (hsub : NoSubstitutes (shortageAnalysis db workspaceId project q)) :
    ∀ row ∈ shortageAnalysis db workspaceId project q, row.substituteAvailable = 0 := by
  intro row hrow
  have hnone := hsub row hrow
  obtain ⟨e, _, hpart⟩ := List.mem_filterMap.mp hrow
  obtain ⟨part, _, rfl⟩ := Option.map_eq_some_iff.mp hpart
  have hids : candidatePartIds db part = [] := hnone
  simp [shortageRow, hids]

theorem canBuildSound_iff (hids : (db.projectEntries.map (·.id)).Nodup)
    (hsub : NoSubstitutes (shortageAnalysis db workspaceId project q)) :
    CanBuildSound db workspaceId project q ↔
      ∀ k, 1 ≤ k → Supports (shortageAnalysis db workspaceId project q) q k →
        ∃ j, k ≤ j ∧ Supports (shortageAnalysis db workspaceId project q) q j ∧
          StockCovers (shortageAnalysis db workspaceId project j) := by
  have hzero := shortageAnalysis_substitutes hsub
  have hrowIds : ((shortageAnalysis db workspaceId project q).map (·.projectEntryId)).Nodup :=
    shortageAnalysis_ids hids
  constructor
  · intro hsound k hk hsupports
    -- The report says at least `k`.
    have hquotients := (supports_iff hzero hk).mp hsupports
    cases hleast : (quotients (shortageAnalysis db workspaceId project q) q).min? with
    | none => exact absurd (List.min?_eq_none_iff.mp hleast) hquotients.1
    | some n =>
      obtain ⟨hin, hbelow⟩ := List.min?_eq_some_iff.mp hleast
      have hkn : k ≤ n := hquotients.2 n hin
      have hn : 1 ≤ n := by omega
      have hsupportsN : Supports (shortageAnalysis db workspaceId project q) q n :=
        (supports_iff hzero hn).mpr ⟨hquotients.1, hbelow⟩
      have hsays : canBuildNow (shortageAnalysis db workspaceId project q) q = n := by
        refine (canBuildNow_greatest hzero hn).mpr ⟨hsupportsN, ?_⟩
        intro j hj hsupportsJ
        exact ((supports_iff hzero hj).mp hsupportsJ).2 n hin
      exact ⟨n, hkn, hsupportsN, hsound n hn (.inl hsays)⟩
  · intro hcond n hn hsays
    have hreport : canBuildNow (shortageAnalysis db workspaceId project q) q = n := by
      rcases hsays with hreport | ⟨bomRows, hsame, hcapacity⟩
      · exact hreport
      · exact capacity_canBuildNow hrowIds hsame hn hcapacity
    obtain ⟨hsupports, hgreatest⟩ := (canBuildNow_greatest hzero hn).mp hreport
    obtain ⟨j, hnj, hsupportsJ, hcovers⟩ := hcond n hn hsupports
    have hjn : j = n := le_antisymm (hgreatest j (by omega) hsupportsJ) hnj
    rw [← hjn]
    exact hcovers

/-! ### Amounts of a grain -/

/-- The amount is a multiple of `1 / grain`. -/
def OnGrain (grain : ℕ) (a : Decimal) : Prop := ∃ z : ℤ, a * grain = z

/-- The least amount of the grain from `a` on -/
def grainUp (grain : ℕ) (a : Decimal) : Decimal := ⌈a * grain⌉ / grain

section Grain

variable {grain : ℕ} {a b : Decimal}

theorem le_grainUp (hgrain : 0 < grain) (a : Decimal) : a ≤ grainUp grain a := by
  have hpos : (0 : Decimal) < grain := Nat.cast_pos.mpr hgrain
  rw [grainUp, le_div_iff₀ hpos]
  exact Int.le_ceil _

theorem grainUp_le (hgrain : 0 < grain) (hb : OnGrain grain b) (h : a ≤ b) :
    grainUp grain a ≤ b := by
  have hpos : (0 : Decimal) < grain := Nat.cast_pos.mpr hgrain
  obtain ⟨z, hz⟩ := hb
  have hscaled : a * grain ≤ b * grain := mul_le_mul_of_nonneg_right h hpos.le
  rw [hz] at hscaled
  rw [grainUp, div_le_iff₀ hpos, hz]
  exact Int.cast_le.mpr (Int.ceil_le.mpr hscaled)

theorem grainUp_intCast (hgrain : 0 < grain) (z : ℤ) : grainUp grain z = z := by
  have hpos : (0 : Decimal) < grain := Nat.cast_pos.mpr hgrain
  have hwhole : ⌈(z : Decimal) * grain⌉ = z * grain := by
    exact_mod_cast Int.ceil_intCast (R := Decimal) (z * grain)
  rw [grainUp, hwhole, Int.cast_mul, Int.cast_natCast, mul_div_cancel_right₀ _ hpos.ne']

theorem onGrain_grainUp (hgrain : 0 < grain) (a : Decimal) : OnGrain grain (grainUp grain a) := by
  have hpos : (0 : Decimal) < grain := Nat.cast_pos.mpr hgrain
  exact ⟨⌈a * grain⌉, div_mul_cancel₀ _ hpos.ne'⟩

theorem onGrain_tally {α : Type} {p : α → Prop} [DecidablePred p] {f : α → Decimal} {rows : List α}
    (h : ∀ r ∈ rows, OnGrain grain (f r)) : OnGrain grain (tally p f rows) := by
  induction rows with
  | nil => exact ⟨0, by simp⟩
  | cons r rows ih =>
    rw [List.forall_mem_cons] at h
    obtain ⟨⟨z, hz⟩, hrest⟩ := h
    obtain ⟨y, hy⟩ := ih hrest
    rw [Tally.tally_cons]
    split
    · exact ⟨z + y, by rw [add_mul, hz, hy, Int.cast_add]⟩
    · exact ⟨y, by rw [zero_add, hy]⟩

end Grain

/-! ### Every ledger -/

/-- The BOM lines that a shortage analysis has rows of. -/
def buildLines (db : Db) (workspaceId : Uuid) (project : Project) : List (ProjectEntry × Part) :=
  (consumableEntries db workspaceId project).filterMap fun e =>
    (e.partId.bind db.part).map (Prod.mk e)

def lineRequired (n : ℤ) (line : ProjectEntry × Part) : ℤ := required line.1 (some line.2) n

def withLedger (db : Db) (ledger : List StockEntry) : Db := { db with stockEntries := ledger }

/-- The rows of a ledger are multiples of `1 / grain`, and no part's total is negative. -/
structure LedgerOf (grain : ℕ) (db : Db) (workspaceId : Uuid) : Prop where
  whole : ∀ e ∈ db.stockEntries, OnGrain grain e.quantityDelta
  nonneg : ∀ partId, 0 ≤ onHandTotal db workspaceId partId

/-- No two lines that need something share a part, and `n` copies need of a line at most `n / q`
of what `q` copies need, rounded up to the grain. -/
structure Scales (grain : ℕ) (db : Db) (workspaceId : Uuid) (project : Project) (q : ℤ) :
    Prop where
  unshared : (buildLines db workspaceId project).Pairwise fun a b =>
    a.2.id = b.2.id → lineRequired q a ≤ 0 ∨ lineRequired q b ≤ 0
  proportional : ∀ line ∈ buildLines db workspaceId project, ∀ n, 1 ≤ n →
    (lineRequired n line : Decimal) ≤ grainUp grain (n * (max 0 (lineRequired q line) : ℤ) / q)

theorem shortageAnalysis_eq (db : Db) : shortageAnalysis db workspaceId project q =
    (buildLines db workspaceId project).map fun line =>
      shortageRow db workspaceId q line.1 line.2 := by
  unfold shortageAnalysis buildLines
  rw [List.map_filterMap]
  congr 1
  funext e
  rw [Option.map_map]
  rfl

theorem noSubstitutes_of_lines
    (h : ∀ line ∈ buildLines db workspaceId project, candidatePartIds db line.2 = [])
    (ledger : List StockEntry) :
    NoSubstitutes (shortageAnalysis (withLedger db ledger) workspaceId project q) := by
  intro row hrow
  rw [shortageAnalysis_eq] at hrow
  obtain ⟨line, hline, rfl⟩ := List.mem_map.mp hrow
  exact h line hline

theorem sum_le_of_pairwise {α : Type} {l : List α} {idle : α → Prop} {f : α → Decimal}
    {bound : Decimal} (hbound : 0 ≤ bound) (hpair : l.Pairwise fun a b => idle a ∨ idle b)
    (hidle : ∀ a ∈ l, idle a → f a ≤ 0) (hle : ∀ a ∈ l, f a ≤ bound) : (l.map f).sum ≤ bound := by
  induction l with
  | nil => exact hbound
  | cons a l ih =>
    rw [List.forall_mem_cons] at hidle hle
    obtain ⟨ha, hrest⟩ := List.pairwise_cons.mp hpair
    rw [List.map_cons, List.sum_cons]
    by_cases hfirst : idle a
    · have hsum := ih hrest hidle.2 hle.2
      have hnone := hidle.1 hfirst
      linarith
    · have hsum : (l.map f).sum ≤ 0 := by
        have hnone : ∀ x ∈ l.map f, x ≤ 0 := by
          intro x hx
          obtain ⟨b, hb, rfl⟩ := List.mem_map.mp hx
          exact hidle.2 b hb ((ha b hb).resolve_left hfirst)
        exact (List.sum_le_card_nsmul _ 0 hnone).trans_eq (nsmul_zero _)
      have hone := hle.1
      linarith

theorem stockCovers_of_lines
    (hsub : ∀ line ∈ buildLines db workspaceId project, candidatePartIds db line.2 = [])
    (hle : ∀ line ∈ buildLines db workspaceId project,
      (lineRequired q line : Decimal) ≤ onHandTotal db workspaceId line.2.id)
    (hsum : ∀ line ∈ buildLines db workspaceId project,
      (((buildLines db workspaceId project).filter (·.2.id = line.2.id)).map fun other =>
        (lineRequired q other : Decimal)).sum ≤ onHandTotal db workspaceId line.2.id) :
    StockCovers (shortageAnalysis db workspaceId project q) := by
  rw [shortageAnalysis_eq]
  constructor
  · intro row hrow
    obtain ⟨line, hline, rfl⟩ := List.mem_map.mp hrow
    have henough := hle line hline
    simp only [shortageRow, hsub line hline, List.map_nil, List.sum_nil, add_zero]
    exact max_eq_left (by simpa [lineRequired] using henough)
  · intro row hrow
    obtain ⟨line, hline, rfl⟩ := List.mem_map.mp hrow
    have hall := hsum line hline
    rw [List.filter_map, List.map_map]
    exact hall

/-- Where requirements scale, what is reported is right for every ledger. -/
theorem canBuildSound_of_scales {grain : ℕ} (hgrain : 0 < grain)
    (hids : (db.projectEntries.map (·.id)).Nodup)
    (hsub : ∀ line ∈ buildLines db workspaceId project, candidatePartIds db line.2 = [])
    (h : Scales grain db workspaceId project q) {ledger : List StockEntry}
    (hledger : LedgerOf grain (withLedger db ledger) workspaceId) :
    CanBuildSound (withLedger db ledger) workspaceId project q := by
  refine (@canBuildSound_iff (withLedger db ledger) _ _ _ hids
    (noSubstitutes_of_lines hsub ledger)).mpr fun k hk hsupports => ⟨k, le_rfl, hsupports, ?_⟩
  have hone : (0 : Decimal) < k := by exact_mod_cast hk
  have hle : ∀ line ∈ buildLines db workspaceId project, (lineRequired k line : Decimal) ≤
      onHandTotal (withLedger db ledger) workspaceId line.2.id := by
    intro line hline
    refine (h.proportional line hline k hk).trans (grainUp_le hgrain ?_ ?_)
    · exact onGrain_tally hledger.whole
    · have hnonneg := hledger.nonneg line.2.id
      rcases le_or_gt (lineRequired q line) 0 with hnone | hpos
      · rwa [max_eq_left hnone, Int.cast_zero, mul_zero, zero_div]
      · have hline' := hsupports.2 (shortageRow (withLedger db ledger) workspaceId q line.1 line.2)
          (by rw [shortageAnalysis_eq]; exact List.mem_map_of_mem hline) hpos
        have hq : (0 : Decimal) < q := by
          have hneed : (0 : Decimal) < k * lineRequired q line :=
            mul_pos hone (Int.cast_pos.mpr hpos)
          exact pos_of_mul_pos_right (hneed.trans_le hline') hnonneg
        rw [max_eq_right hpos.le, div_le_iff₀ hq]
        exact hline'
  refine stockCovers_of_lines hsub hle fun line hline => ?_
  refine @sum_le_of_pairwise _ _ (fun other => lineRequired q other ≤ 0) _ _
    (hledger.nonneg line.2.id) ?_ ?_ ?_
  · refine (h.unshared.filter _).imp_of_mem fun {a b} ha hb hab => hab ?_
    exact (of_decide_eq_true (List.mem_filter.mp ha).2).trans
      (of_decide_eq_true (List.mem_filter.mp hb).2).symm
  · intro other hother hnone
    have hzero := h.proportional other (List.mem_of_mem_filter hother) k hk
    rwa [max_eq_left hnone, Int.cast_zero, mul_zero, zero_div,
      show (0 : Decimal) = ((0 : ℤ) : Decimal) from Int.cast_zero.symm, grainUp_intCast hgrain,
      Int.cast_zero] at hzero
  · intro other hother
    have hsame : other.2.id = line.2.id := of_decide_eq_true (List.mem_filter.mp hother).2
    exact hsame ▸ hle other (List.mem_of_mem_filter hother)

/-! ### The least ledger for `n` copies -/

section Least

variable {line : ProjectEntry × Part} {grain : ℕ} {n : ℤ}

theorem lineRequired_nonneg (hpct : 0 ≤ line.2.attritionPercentage) (hn : 0 ≤ n) :
    0 ≤ lineRequired n line := by
  have hbase : 0 ≤ line.1.quantity * n :=
    mul_nonneg line.1.quantityNonneg (Int.cast_nonneg hn)
  have hline := line.1.attritionPctRange.1
  refine Int.ceil_nonneg (le_max_of_le_left ?_)
  exact mul_nonneg (mul_nonneg hbase (by simp only [Option.elim_some]; linarith)) (by linarith)

theorem lineRequired_mono (hpct : 0 ≤ line.2.attritionPercentage) {j : ℤ} (h : n ≤ j) :
    lineRequired n line ≤ lineRequired j line := by
  have hbase : line.1.quantity * n ≤ line.1.quantity * j :=
    mul_le_mul_of_nonneg_left (Int.cast_le.mpr h) line.1.quantityNonneg
  have hline := line.1.attritionPctRange.1
  refine Int.ceil_le_ceil (max_le_max ?_ (add_le_add_left hbase _))
  refine mul_le_mul_of_nonneg_right (mul_le_mul_of_nonneg_right hbase ?_) (by linarith)
  simp only [Option.elim_some]
  linarith

/-- A line that needs nothing for some copies needs nothing for any. -/
theorem lineRequired_nonpos (hpct : 0 ≤ line.2.attritionPercentage) (hq : 1 ≤ q)
    (h : lineRequired q line ≤ 0) (n : ℤ) : lineRequired n line ≤ 0 := by
  have hpos : (0 : Decimal) < q := by exact_mod_cast hq
  have hline := line.1.attritionPctRange.1
  obtain ⟨htarget, hfloor⟩ := max_le_iff.mp (Int.ceil_le.mp h)
  rw [Int.cast_zero] at htarget hfloor
  simp only [Option.elim_some] at htarget hfloor
  have hzero : line.1.quantity = 0 := by
    refine le_antisymm ?_ line.1.quantityNonneg
    by_contra hmore
    have hquantity := not_le.mp hmore
    have hgrows : 0 < line.1.quantity * q * (1 + line.2.attritionPercentage / 100) *
        (1 + line.1.attritionPct / 100) :=
      mul_pos (mul_pos (mul_pos hquantity hpos) (by linarith)) (by linarith)
    exact absurd htarget (not_le.mpr hgrows)
  rw [hzero, zero_mul, zero_add] at hfloor
  refine Int.ceil_le.mpr (max_le ?_ ?_)
  · simp [hzero]
  · simpa [hzero] using hfloor

/-- The largest requirement of a part's lines for `q` copies -/
def peak (lines : List (ProjectEntry × Part)) (q : ℤ) (partId : Uuid) : ℤ :=
  ((lines.filter (·.2.id = partId)).map (lineRequired q)).max?.getD 0

theorem peak_spec {lines : List (ProjectEntry × Part)} (h : line ∈ lines) (q : ℤ) :
    lineRequired q line ≤ peak lines q line.2.id ∧
      ∃ top ∈ lines.filter (·.2.id = line.2.id), lineRequired q top = peak lines q line.2.id := by
  have hin : lineRequired q line ∈ (lines.filter (·.2.id = line.2.id)).map (lineRequired q) :=
    List.mem_map_of_mem (List.mem_filter.mpr ⟨h, by simp⟩)
  unfold peak
  cases hmax : ((lines.filter (·.2.id = line.2.id)).map (lineRequired q)).max? with
  | none => exact absurd (List.max?_eq_none_iff.mp hmax) (List.ne_nil_of_mem hin)
  | some m =>
    obtain ⟨hm, hall⟩ := List.max?_eq_some_iff.mp hmax
    obtain ⟨top, htop, heq⟩ := List.mem_map.mp hm
    exact ⟨hall _ hin, top, htop, heq⟩

def leastStock (grain : ℕ) (lines : List (ProjectEntry × Part)) (q n : ℤ) (partId : Uuid) :
    Decimal := grainUp grain (n * peak lines q partId / q)

/-- Of each part just enough that every line supports `n` copies -/
def leastLedger (grain : ℕ) (workspaceId : Uuid) (lines : List (ProjectEntry × Part)) (q n : ℤ) :
    List StockEntry :=
  (lines.map (·.2.id)).dedup.map fun partId =>
    newStockEntry { sampleCtx 0 with workspaceId := workspaceId } 0 (some partId)
      (leastStock grain lines q n partId) defaultUnit .onHand .add 0

theorem onHandTotal_least (db : Db) (lines : List (ProjectEntry × Part)) (partId : Uuid) :
    onHandTotal (withLedger db (leastLedger grain workspaceId lines q n)) workspaceId partId =
      if partId ∈ lines.map (·.2.id) then leastStock grain lines q n partId else 0 := by
  have htally : onHandTotal (withLedger db (leastLedger grain workspaceId lines q n)) workspaceId
      partId = tally (fun p => p = partId) (leastStock grain lines q n)
        (lines.map (·.2.id)).dedup := by
    unfold onHandTotal currentQuantity withLedger leastLedger
    rw [Tally.tally_map]
    exact Tally.tally_congr _ _ _ _ (fun p _ => by simp [newStockEntry]) fun p _ _ => rfl
  rw [htally]
  split
  next hmem =>
    have hnodup : ((lines.map (·.2.id)).dedup.map id).Nodup := by
      rw [List.map_id]
      exact List.nodup_dedup _
    exact Tally.tally_key _ id hnodup (List.mem_dedup.mpr hmem)
  next hnone =>
    exact Tally.tally_eq_zero _ _ fun p hp heq => hnone (heq ▸ List.mem_dedup.mp hp)

theorem others_nonpos {α : Type} [BEq α] [LawfulBEq α] {l : List α} {f : α → Decimal} {top : α}
    (htop : top ∈ l) (hnonneg : ∀ a ∈ l, 0 ≤ f a) (hsum : (l.map f).sum ≤ f top) :
    ∀ a ∈ l.erase top, f a ≤ 0 := by
  have hsplit := ((List.perm_cons_erase htop).map f).sum_eq
  rw [List.map_cons, List.sum_cons] at hsplit
  intro a ha
  have hone : f a ≤ ((l.erase top).map f).sum := by
    refine List.single_le_sum (fun x hx => ?_) _ (List.mem_map_of_mem ha)
    obtain ⟨b, hb, rfl⟩ := List.mem_map.mp hx
    exact hnonneg b (List.mem_of_mem_erase hb)
  linarith

variable (hgrain : 0 < grain) (hq : 1 ≤ q) (hids : (db.projectEntries.map (·.id)).Nodup)
  (hsub : ∀ line ∈ buildLines db workspaceId project, candidatePartIds db line.2 = [])
  (hpct : ∀ line ∈ buildLines db workspaceId project, 0 ≤ line.2.attritionPercentage)

include hgrain hq hpct in
theorem ledgerOf_least (hn : 1 ≤ n) : LedgerOf grain (withLedger db
    (leastLedger grain workspaceId (buildLines db workspaceId project) q n)) workspaceId where
  whole e he := by
    obtain ⟨partId, -, rfl⟩ := List.mem_map.mp he
    exact onGrain_grainUp hgrain _
  nonneg partId := by
    rw [onHandTotal_least]
    split
    next hmem =>
      obtain ⟨line, hline, rfl⟩ := List.mem_map.mp hmem
      have hpeak : 0 ≤ peak (buildLines db workspaceId project) q line.2.id :=
        (lineRequired_nonneg (hpct line hline) (by omega)).trans (peak_spec hline q).1
      have hnonneg : (0 : Decimal) ≤ n * peak (buildLines db workspaceId project) q line.2.id / q :=
        div_nonneg (mul_nonneg (by exact_mod_cast (by omega : 0 ≤ n)) (Int.cast_nonneg hpeak))
          (by exact_mod_cast (by omega : 0 ≤ q))
      exact hnonneg.trans (le_grainUp hgrain _)
    next => exact le_rfl

include hgrain hq hids hsub hpct in
theorem sum_le_of_sound (hsound : ∀ ledger, LedgerOf grain (withLedger db ledger) workspaceId →
    CanBuildSound (withLedger db ledger) workspaceId project q)
    {needed : ProjectEntry × Part} (hneeded : needed ∈ buildLines db workspaceId project)
    (hpos : 0 < lineRequired q needed) (hn : 1 ≤ n)
    (hline : line ∈ buildLines db workspaceId project) :
    (((buildLines db workspaceId project).filter (·.2.id = line.2.id)).map fun other =>
      (lineRequired n other : Decimal)).sum ≤
        leastStock grain (buildLines db workspaceId project) q n line.2.id := by
  set lines := buildLines db workspaceId project with hlines
  set least := withLedger db (leastLedger grain workspaceId lines q n) with hleast
  have havailable : ∀ other ∈ lines, onHandTotal least workspaceId other.2.id =
      leastStock grain lines q n other.2.id := fun other hother => by
    rw [hleast, onHandTotal_least, if_pos (List.mem_map_of_mem hother)]
  have hqpos : (0 : Decimal) < q := by exact_mod_cast hq
  have hsupports : Supports (shortageAnalysis least workspaceId project q) q n := by
    rw [shortageAnalysis_eq]
    refine ⟨⟨_, List.mem_map_of_mem hneeded, hpos⟩, fun row hrow _ => ?_⟩
    obtain ⟨other, hother, rfl⟩ := List.mem_map.mp hrow
    have hpeak : (lineRequired q other : Decimal) ≤ peak lines q other.2.id :=
      Int.cast_le.mpr (peak_spec hother q).1
    have hn' : (0 : Decimal) ≤ n := by exact_mod_cast (by omega : 0 ≤ n)
    have henough := (le_grainUp hgrain (n * peak lines q other.2.id / q : Decimal))
    rw [div_le_iff₀ hqpos] at henough
    show (n : Decimal) * lineRequired q other ≤ onHandTotal least workspaceId other.2.id * q
    rw [havailable other hother]
    exact (mul_le_mul_of_nonneg_left hpeak hn').trans henough
  obtain ⟨j, hnj, -, -, hcovers⟩ := (@canBuildSound_iff least _ _ _ hids
    (noSubstitutes_of_lines hsub _)).mp (hsound _ (ledgerOf_least hgrain hq hpct hn)) n hn hsupports
  rw [shortageAnalysis_eq] at hcovers
  have hat := hcovers _ (List.mem_map_of_mem hline)
  rw [List.filter_map, List.map_map] at hat
  calc ((lines.filter (·.2.id = line.2.id)).map fun other => (lineRequired n other : Decimal)).sum
      ≤ ((lines.filter (·.2.id = line.2.id)).map fun other =>
          (lineRequired j other : Decimal)).sum := by
        refine List.sum_le_sum fun other hother => Int.cast_le.mpr ?_
        exact lineRequired_mono (hpct other (List.mem_of_mem_filter hother)) hnj
    _ ≤ onHandTotal least workspaceId line.2.id := hat
    _ = leastStock grain lines q n line.2.id := havailable line hline

include hgrain hq hids hsub hpct in
/-- Where what is reported is right for every ledger, requirements scale. -/
theorem scales_of_sound (hsound : ∀ ledger, LedgerOf grain (withLedger db ledger) workspaceId →
    CanBuildSound (withLedger db ledger) workspaceId project q) :
    Scales grain db workspaceId project q := by
  have hq' : (q : Decimal) ≠ 0 := by exact_mod_cast (by omega : q ≠ 0)
  have hnonneg : ∀ {m : ℤ}, 0 ≤ m → ∀ other ∈ buildLines db workspaceId project,
      (0 : Decimal) ≤ lineRequired m other := fun hm other hother =>
    Int.cast_nonneg (lineRequired_nonneg (hpct other hother) hm)
  -- Of the lines of a part only one needs something: together they need what the largest does.
  have hothers : ∀ line ∈ buildLines db workspaceId project, 0 < lineRequired q line →
      ∃ top ∈ (buildLines db workspaceId project).filter (·.2.id = line.2.id),
        lineRequired q top = peak (buildLines db workspaceId project) q line.2.id ∧
          ∀ other ∈ ((buildLines db workspaceId project).filter (·.2.id = line.2.id)).erase top,
            lineRequired q other ≤ 0 := by
    intro line hline hpos
    obtain ⟨-, top, htop, hpeak⟩ := peak_spec hline q
    have hsum := sum_le_of_sound hgrain hq hids hsub hpct hsound hline hpos hq hline
    rw [leastStock, mul_div_cancel_left₀ _ hq', grainUp_intCast hgrain, ← hpeak] at hsum
    refine ⟨top, htop, hpeak, fun other hother => ?_⟩
    have hnone := others_nonpos htop
      (fun a ha => hnonneg (by omega) a (List.mem_of_mem_filter ha)) hsum other hother
    exact_mod_cast hnone
  constructor
  · refine List.pairwise_iff_forall_sublist.mpr fun {a b} hpair hsame => ?_
    by_contra hboth
    obtain ⟨ha, hb⟩ := not_or.mp hboth
    obtain ⟨top, htop, -, hrest⟩ := hothers a (hpair.subset (by simp)) (not_le.mp ha)
    have hfiltered : [a, b].Sublist ((buildLines db workspaceId project).filter
        (·.2.id = a.2.id)) := by
      have hsublist := hpair.filter (fun l => decide (l.2.id = a.2.id))
      rwa [List.filter_cons_of_pos (by simp), List.filter_cons_of_pos (by simpa using hsame.symm),
        List.filter_nil] at hsublist
    by_cases htopa : a = top
    · subst htopa
      have herase := hfiltered.erase a
      rw [List.erase_cons_head] at herase
      exact hb (hrest b (herase.subset (List.mem_singleton.mpr rfl)))
    · exact ha (hrest a ((List.mem_erase_of_ne htopa).mpr (hfiltered.subset (by simp))))
  · intro line hline n hn
    rcases le_or_gt (lineRequired q line) 0 with hnone | hpos
    · have hzero := lineRequired_nonpos (hpct line hline) hq hnone n
      rw [max_eq_left hnone, Int.cast_zero, mul_zero, zero_div]
      exact (by exact_mod_cast hzero : (lineRequired n line : Decimal) ≤ 0).trans
        (le_grainUp hgrain 0)
    · obtain ⟨top, htop, hpeak, hrest⟩ := hothers line hline hpos
      have hin : line ∈ (buildLines db workspaceId project).filter (·.2.id = line.2.id) :=
        List.mem_filter.mpr ⟨hline, by simp⟩
      have htopline : line = top := by
        by_contra hne
        exact absurd (hrest line ((List.mem_erase_of_ne hne).mpr hin)) (not_le.mpr hpos)
      have hsum := sum_le_of_sound hgrain hq hids hsub hpct hsound hline hpos hn hline
      rw [leastStock, ← hpeak, ← htopline] at hsum
      rw [max_eq_right hpos.le]
      refine (List.single_le_sum (fun x hx => ?_) _ (List.mem_map_of_mem hin)).trans hsum
      obtain ⟨other, hother, rfl⟩ := List.mem_map.mp hx
      exact hnonneg (by omega) other (List.mem_of_mem_filter hother)

end Least

/-- Whatever ledger there is, of whole quantities or of a finer grain, what is reported is right
where the requirements scale, and only there, unless an attrition is negative. -/
theorem canBuildNow_sound_iff (db : Db) (workspaceId : Uuid) (project : Project) (q : ℤ)
    (grain : ℕ) (hgrain : 0 < grain) (hids : (db.projectEntries.map (·.id)).Nodup)
    (hsub : ∀ line ∈ buildLines db workspaceId project, candidatePartIds db line.2 = []) :
    (Scales grain db workspaceId project q → ∀ ledger,
      LedgerOf grain (withLedger db ledger) workspaceId →
        CanBuildSound (withLedger db ledger) workspaceId project q) ∧
    (1 ≤ q → (∀ line ∈ buildLines db workspaceId project, 0 ≤ line.2.attritionPercentage) →
      (∀ ledger, LedgerOf grain (withLedger db ledger) workspaceId →
        CanBuildSound (withLedger db ledger) workspaceId project q) →
      Scales grain db workspaceId project q) :=
  ⟨fun hscales _ hledger => canBuildSound_of_scales hgrain hids hsub hscales hledger,
    fun hq hpct hsound => scales_of_sound hgrain hq hids hsub hpct hsound⟩

/-- Seven bolts for a BOM that asks for two. -/
def sevenBoltDb : Db :=
  { sampleProjectDb 2 with
    stockEntries := [newStockEntry (sampleCtx 100) 1 (some 10) 7 defaultUnit .onHand .add 0] }

theorem canBuildNow_sound_iff_sample : CanBuildSound sevenBoltDb 1 ⟨30, 1, none⟩ 1 := by
  have hlines : buildLines sevenBoltDb 1 ⟨30, 1, none⟩ =
      [(sampleEntry 40 10 2, samplePart 10 "bolt")] := by decide
  have hscales : Scales 1 sevenBoltDb 1 ⟨30, 1, none⟩ 1 := by
    constructor
    · rw [hlines]
      exact List.pairwise_singleton _ _
    · rw [hlines]
      intro line hline n _
      obtain rfl := List.mem_singleton.mp hline
      have hneed : ∀ m : ℤ, lineRequired m (sampleEntry 40 10 2, samplePart 10 "bolt") = 2 * m := by
        intro m
        have hceil : ⌈(2 : Decimal) * m⌉ = 2 * m := by
          exact_mod_cast Int.ceil_intCast (R := Decimal) (2 * m)
        simpa [lineRequired, required, sampleEntry, samplePart] using hceil
      rw [hneed, hneed]
      refine le_trans (le_of_eq ?_) (le_grainUp Nat.one_pos _)
      simp [mul_comm]
  refine (canBuildNow_sound_iff sevenBoltDb 1 ⟨30, 1, none⟩ 1 1 Nat.one_pos (by decide) ?_).1
    hscales sevenBoltDb.stockEntries ⟨?_, fun partId => ?_⟩
  · rw [hlines]
    decide
  · intro e he
    obtain rfl := List.mem_singleton.mp he
    exact ⟨7, by decide +kernel⟩
  · refine List.sum_nonneg fun x hx => ?_
    obtain ⟨e, he, rfl⟩ := List.mem_map.mp hx
    obtain rfl := List.mem_singleton.mp (List.mem_of_mem_filter he)
    decide

def sharedBoltDb : Db :=
  { sampleDb with
    projects := [⟨30, 1, none⟩]
    projectEntries := [sampleEntry 40 10 1, sampleEntry 41 10 1]
    stockEntries := [newStockEntry (sampleCtx 100) 1 (some 10) 1 defaultUnit .onHand .add 0] }

/-- Each line alone is covered: one copy is reported, which needs two bolts. -/
theorem canBuildNow_counts_twice :
    ¬ ∀ (db : Db) (workspaceId : Uuid) (project : Project) (q : ℤ),
      (db.projectEntries.map (·.id)).Nodup →
      NoSubstitutes (shortageAnalysis db workspaceId project q) →
        CanBuildSound db workspaceId project q := by
  intro h
  have hsays : canBuildNow (shortageAnalysis sharedBoltDb 1 ⟨30, 1, none⟩ 1) 1 = 1 := by
    decide +kernel
  have hcovers := h sharedBoltDb 1 ⟨30, 1, none⟩ 1 (by decide)
    (by unfold NoSubstitutes; decide) 1 le_rfl (.inl hsays)
  have hshort : ¬ StockCovers (shortageAnalysis sharedBoltDb 1 ⟨30, 1, none⟩ 1) := by
    unfold StockCovers
    decide +kernel
  exact hshort hcovers

end StockManager
