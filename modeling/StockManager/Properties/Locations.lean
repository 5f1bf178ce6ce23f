import StockManager.Effects.Balance

/-! # What storage locations and lots hold

Three rules the writers enforce one by one: a single-part location holds one
part, an archived location is empty, a lot holds its own part. Each is kept by
every step except the count correction, which checks none of them; the run
theorems say which corrections keep it. -/

namespace StockManager

open Movement

variable {db db' : Db} {id : Uuid} {b : Bucket} {s : StorageLocation}
  {f : StorageLocation → StorageLocation}

/-- Between the two states no bucket but `g` rises, and the locations are the same. -/
structure RaisesOnly (db db' : Db) (g : Bucket) : Prop where
  locations : db'.storageLocations = db.storageLocations
  others : ∀ k, k ≠ g → balance db'.stockEntries k ≤ balance db.stockEntries k

section Raises

variable {db db' : Db} {workspaceId partId dest : Uuid} {storageId : Option Uuid}
  {source : Option Uuid × Option Uuid} {quantity actual : Decimal} {lots : List Lot}
  {e outEntry inEntry : StockEntry} {b : Bucket}

theorem Produced.raises (h : Produced db workspaceId partId storageId quantity lots e)
    (hpos : 0 < quantity) :
    RaisesOnly db { db with lots := db.lots ++ lots, stockEntries := db.stockEntries ++ [e] }
      e.bucket where
  locations := rfl
  others := by
    intro k hk
    rw [h.balance]
    exact apply_le (le_of_lt hpos) (by simpa [gains] using hk)

theorem Drawn.lowers (h : Drawn db b quantity e) (hpos : 0 < quantity) (k : Bucket) :
    StockManager.balance (db.stockEntries ++ [e]) k ≤
      StockManager.balance db.stockEntries k := by
  rw [h.balance]
  exact apply_le (le_of_lt hpos) (by simp [gains])

theorem MovedPair.raises
    (h : MovedPair db workspaceId partId source dest quantity lots outEntry inEntry)
    (hpos : 0 < quantity) :
    RaisesOnly db { db with
      lots := db.lots ++ lots
      stockEntries := db.stockEntries ++ [outEntry, inEntry] } inEntry.bucket where
  locations := rfl
  others := by
    intro k hk
    rw [h.balance]
    exact apply_le (le_of_lt hpos) (by simpa [gains] using hk)

theorem Recounted.raises (h : Recounted db b actual e) (hnonneg : 0 ≤ actual) :
    RaisesOnly db { db with stockEntries := db.stockEntries ++ [e] } b where
  locations := rfl
  others := by
    intro k hk
    rw [h.balance]
    exact apply_le hnonneg (by simpa [gains] using hk)

theorem Recounted.balance_self (h : Recounted db b actual e) :
    StockManager.balance (db.stockEntries ++ [e]) b = actual := by
  rw [h.balance]
  simp [apply]

end Raises

/-- Every on-hand row that names a location names one of its own workspace. -/
def StockLocated (db : Db) : Prop :=
  ∀ e ∈ db.stockEntries, e.status = .onHand → ∀ id ∈ e.storageLocationId,
    ∃ s, db.storageLocation id = some s ∧ s.workspaceId = e.workspaceId

theorem StockLocated.append (rows : List StockEntry) (h : StockLocated db)
    (hlocations : db'.storageLocations = db.storageLocations)
    (hrows : db'.stockEntries = db.stockEntries ++ rows)
    (hnew : ∀ e ∈ rows, e.status = .onHand → ∀ id ∈ e.storageLocationId,
      ∃ s, db.storageLocation id = some s ∧ s.workspaceId = e.workspaceId) :
    StockLocated db' := by
  intro e he hstatus id hid
  simp only [Db.storageLocation, hlocations]
  rw [hrows] at he
  rcases List.mem_append.mp he with he | he
  · exact h e he hstatus id hid
  · exact hnew e he hstatus id hid

theorem StockLocated.same (h : StockLocated db) (hsame : SameLedger db db') :
    StockLocated db' := by
  refine h.append [] hsame.storageLocations (by simp [hsame.stockEntries]) ?_
  intro r hr
  cases hr

theorem StockLocated.relocate (h : StockLocated db) (hrows : db'.stockEntries = db.stockEntries)
    (hkept : ∀ id s, db.storageLocation id = some s →
      ∃ s', db'.storageLocation id = some s' ∧ s'.workspaceId = s.workspaceId) :
    StockLocated db' := by
  intro e he hstatus id hid
  obtain ⟨s, hs, hws⟩ := h e (hrows ▸ he) hstatus id hid
  obtain ⟨s', hs', hws'⟩ := hkept id s hs
  exact ⟨s', hs', hws'.trans hws⟩

theorem storageLocation_kept (hs : db.storageLocation id = some s)
    (hf : ∀ r, r.id = id → (f r).id = id) (hws : (f s).workspaceId = s.workspaceId) :
    ∀ k r, db.storageLocation k = some r → ∃ r',
      (db.updateStorageLocation id f).storageLocation k = some r' ∧
        r'.workspaceId = r.workspaceId :=
  fun _ _ hr => find_kept StorageLocation.workspaceId hs hf hws hr

theorem stockStep_stockLocated {Recount : Db → Bucket → Decimal → Prop}
    (hstep : StockStep Recount db db') (h : StockLocated db) : StockLocated db' := by
  cases hstep with
  | produced hrow hpos =>
    refine h.append _ rfl rfl ?_
    rintro r hr _ id hid
    obtain rfl := List.mem_singleton.mp hr
    have hbucket := hrow.bucket
    simp only [StockEntry.bucket, Bucket.mk.injEq] at hbucket
    rw [hbucket.1]
    obtain ⟨s, hs, hws, _⟩ := (hrow.admitted id (hbucket.2.2.2 ▸ hid)).location
    exact ⟨s, hs, hws⟩
  | drawn hrow hpos =>
    refine h.append _ rfl rfl ?_
    rintro r hr _ id hid
    obtain rfl := List.mem_singleton.mp hr
    obtain rfl := hrow.bucket
    exact hrow.refs.storage id hid
  | moved hpair hpos =>
    refine h.append _ rfl rfl ?_
    rintro r hr _ id hid
    have hout := hpair.outBucket
    have hin := hpair.inBucket
    simp only [StockEntry.bucket, Bucket.mk.injEq] at hout hin
    rcases List.mem_cons.mp hr with rfl | hr
    · rw [hout.1]
      exact hpair.refs.storage id (hout.2.2.2 ▸ hid)
    · obtain rfl := List.mem_singleton.mp hr
      rw [hin.1]
      obtain ⟨s, hs, hws, _⟩ := hpair.admitted.location
      rw [hin.2.2.2, Option.mem_some_iff] at hid
      exact ⟨s, hid ▸ hs, hws⟩
  | recounted hrow hnonneg _ _ =>
    refine h.append _ rfl rfl ?_
    rintro r hr _ id hid
    obtain rfl := List.mem_singleton.mp hr
    obtain rfl := hrow.bucket
    exact hrow.refs.storage id hid
  | patched hs hid hws harch hflag =>
    exact h.relocate rfl (storageLocation_kept hs (fun _ _ => hid) hws)
  | archived hs hempty => exact h.relocate rfl (storageLocation_kept hs (fun _ hr => hr) rfl)
  | restored hs => exact h.relocate rfl (storageLocation_kept hs (fun _ hr => hr) rfl)
  | created hfresh harch =>
    refine h.relocate rfl ?_
    intro id s hs
    exact ⟨s, by rw [storageLocation_append, hs, Option.some_or], rfl⟩
  | elsewhere hsame _ => exact h.same hsame

theorem ledgerStep_stockLocated {Recount : Db → Bucket → Decimal → Prop}
    (hstep : LedgerStep Recount db db') (h : StockLocated db) : StockLocated db' := by
  cases hstep with
  | stock hstock => exact stockStep_stockLocated hstock h
  | noted happends hrows =>
    refine h.append _ (by rw [happends.eq]) (by rw [happends.eq]) ?_
    intro r hr hstatus
    rw [(hrows r hr).1] at hstatus
    cases hstatus
  | builds hsame => exact h.same hsame

theorem StockLocated.empty (h : db.stockEntries = []) : StockLocated db := by
  intro e he
  rw [h] at he
  cases he

theorem StockLocated.balance_nonpos (h : StockLocated db)
    (hid : b.storageLocationId = some id) (hnone : db.storageLocation id = none) :
    balance db.stockEntries b ≤ 0 := by
  by_contra hpos
  obtain ⟨e, he, ⟨hstatus, rfl⟩, _⟩ := Tally.exists_pos_of_tally_pos _ _ (not_le.mp hpos)
  obtain ⟨s, hs, _⟩ := h e he hstatus id hid
  rw [hnone] at hs
  cases hs

/-- Every location whose `single_part_only` flag is on holds at most one part. -/
def SinglePart (db : Db) : Prop :=
  ∀ id s, db.storageLocation id = some s → s.singlePartOnly = true →
    SinglePartAt db.stockEntries s.workspaceId id

/-- The bucket's location accepts its part: where the flag is on, no other part is stocked. -/
def AcceptsPart (db : Db) (b : Bucket) : Prop :=
  ∀ id ∈ b.storageLocationId, ∀ s, db.storageLocation id = some s → s.singlePartOnly = true →
    ∀ p l, p ≠ b.partId → balance db.stockEntries ⟨b.workspaceId, p, l, some id⟩ ≤ 0

theorem SinglePart.of_raise {g : Bucket} (h : SinglePart db) (hraises : RaisesOnly db db' g)
    (haccepts : balance db.stockEntries g < balance db'.stockEntries g → AcceptsPart db g) :
    SinglePart db' := by
  intro id s hs hflag p q l m hp hq
  simp only [Db.storageLocation, hraises.locations] at hs
  by_cases hrise : balance db.stockEntries g < balance db'.stockEntries g ∧
      g.storageLocationId = some id ∧ g.workspaceId = s.workspaceId
  · -- Only the raised bucket's part can be positive here.
    obtain ⟨hlt, hloc, hws⟩ := hrise
    have hpart : ∀ x y, 0 < balance db'.stockEntries ⟨s.workspaceId, x, y, some id⟩ →
        x = g.partId := by
      intro x y hpos
      by_contra hne
      have hle := haccepts hlt id hloc s hs hflag x y hne
      rw [hws] at hle
      have hother := hraises.others ⟨s.workspaceId, x, y, some id⟩ (fun hg => hne (by rw [← hg]))
      exact absurd hpos (not_lt.mpr (hother.trans hle))
    rw [hpart p l hp, hpart q m hq]
  · have hbefore : ∀ x y, 0 < balance db'.stockEntries ⟨s.workspaceId, x, y, some id⟩ →
        0 < balance db.stockEntries ⟨s.workspaceId, x, y, some id⟩ := by
      intro x y hpos
      by_cases hg : (⟨s.workspaceId, x, y, some id⟩ : Bucket) = g
      · have hnot : ¬ balance db.stockEntries g < balance db'.stockEntries g :=
          fun hlt => hrise ⟨hlt, by rw [← hg], by rw [← hg]⟩
        rw [hg] at hpos ⊢
        exact lt_of_lt_of_le hpos (not_lt.mp hnot)
      · exact lt_of_lt_of_le hpos (hraises.others _ hg)
    exact h id s hs hflag p q l m (hbefore p l hp) (hbefore q m hq)

theorem Admits.acceptsPart {partId : Uuid} (hpart : b.partId = some partId)
    (h : ∀ id ∈ b.storageLocationId, Admits db b.workspaceId id partId) : AcceptsPart db b := by
  intro id hid s hs hflag p l hne
  exact le_of_eq ((h id hid).otherParts s hs hflag p l (hpart ▸ hne))

theorem SinglePart.of_balance (h : SinglePart db)
    (hlocations : db'.storageLocations = db.storageLocations)
    (hle : ∀ k, balance db'.stockEntries k ≤ balance db.stockEntries k) : SinglePart db' := by
  intro id s hs hflag p q l m hp hq
  simp only [Db.storageLocation, hlocations] at hs
  exact h id s hs hflag p q l m (lt_of_lt_of_le hp (hle _)) (lt_of_lt_of_le hq (hle _))

theorem SinglePart.written (h : SinglePart db)
    (hs : db.storageLocation id = some s) (hf : ∀ r, r.id = id → (f r).id = id)
    (hws : (f s).workspaceId = s.workspaceId)
    (hflag : (f s).singlePartOnly = true →
      s.singlePartOnly = true ∨ SinglePartAt db.stockEntries s.workspaceId id) :
    SinglePart (db.updateStorageLocation id f) := by
  intro k s' hs' hon
  obtain ⟨rfl, rfl⟩ | ⟨_, hold⟩ := storageLocation_written hs hs' hf
  · rw [hws]
    obtain hwas | hsingle := hflag hon
    · exact h k s hs hwas
    · exact hsingle
  · exact h k s' hold hon

/-- A correction that raises a bucket finds a location that accepts its part. -/
def RecountAccepted (db : Db) (b : Bucket) (actual : Decimal) : Prop :=
  balance db.stockEntries b < actual → AcceptsPart db b

theorem stockStep_singlePart (hstep : StockStep RecountAccepted db db')
    (hlocated : StockLocated db) (h : SinglePart db) : SinglePart db' := by
  cases hstep with
  | produced hrow hpos =>
    refine h.of_raise (hrow.raises hpos) fun _ => ?_
    rw [hrow.bucket]
    exact Admits.acceptsPart rfl hrow.admitted
  | drawn hrow hpos => exact h.of_balance rfl (hrow.lowers hpos)
  | moved hpair hpos =>
    refine h.of_raise (hpair.raises hpos) fun _ => ?_
    rw [hpair.inBucket]
    refine Admits.acceptsPart rfl ?_
    rintro id hid
    obtain rfl := Option.mem_some_iff.mp hid
    exact hpair.admitted
  | recounted hrow hnonneg _ hcond =>
    refine h.of_raise (hrow.raises hnonneg) fun hlt => hcond ?_
    rwa [hrow.balance_self] at hlt
  | patched hs hid hws harch hflag => exact h.written hs (fun _ _ => hid) hws hflag
  | archived hs hempty => exact h.written hs (fun _ hr => hr) rfl Or.inl
  | restored hs => exact h.written hs (fun _ hr => hr) rfl Or.inl
  | created hfresh harch =>
    intro k s' hs' hon
    rw [storageLocation_append] at hs'
    cases hold : db.storageLocation k with
    | some r =>
      rw [hold, Option.some_or] at hs'
      obtain rfl := Option.some.inj hs'
      exact h k r hold hon
    | none =>
      -- Nothing can lie at an id no location has had.
      intro p q l m hp _
      exact absurd hp (not_lt.mpr (hlocated.balance_nonpos rfl hold))
  | elsewhere hsame _ =>
    refine h.of_balance hsame.storageLocations fun k => ?_
    rw [hsame.stockEntries]

theorem ledgerStep_singlePart (hstep : LedgerStep RecountAccepted db db')
    (hlocated : StockLocated db) (h : SinglePart db) : SinglePart db' := by
  cases hstep with
  | stock hstock => exact stockStep_singlePart hstock hlocated h
  | noted happends hrows =>
    refine h.of_balance (by rw [happends.eq]) fun k => ?_
    rw [happends.eq, balance_append_reserved fun e he => (hrows e he).1]
  | builds hsame =>
    refine h.of_balance hsame.storageLocations fun k => ?_
    rw [hsame.stockEntries]

/-- In a run whose corrections respect the flag, every state keeps it. -/
theorem singlePartOnly_holds {db₀ : Db} (hempty : db₀.stockEntries = []) {calls : List Call}
    (hmeets : Outcome.Meets exec (Outcome.Accepted exec (AdjustMeets RecountAccepted)) db₀ calls) :
    SinglePart (runCalls db₀ calls) := by
  have hstart : StockLocated db₀ ∧ SinglePart db₀ := by
    refine ⟨.empty hempty, ?_⟩
    intro id s _ _ p q l m hp
    simp [hempty] at hp
  have hrun : StockLocated (runCalls db₀ calls) ∧ SinglePart (runCalls db₀ calls) :=
    runCalls_invariant (I := fun db => StockLocated db ∧ SinglePart db) (fun _ _ hstep hI =>
      ⟨ledgerStep_stockLocated hstep hI.1, ledgerStep_singlePart hstep hI.1 hI.2⟩) hmeets hstart
  exact hrun.2

theorem singlePartOnly_holds_sample :
    SinglePart (runCalls sampleDb [⟨sampleCtx 100, .ledger (sampleAdd 10 21 5 false (by decide))⟩,
      ⟨sampleCtx 200, .ledger (sampleAdjust 10 21 none 7)⟩]) := by
  refine singlePartOnly_holds rfl ⟨fun _ => trivial, ?_, trivial⟩
  intro _ _ id hid s hs hflag p l hne
  apply le_of_eq
  apply Tally.tally_eq_zero
  rintro e he ⟨_, hbucket⟩
  -- Only bolts are on the ledger.
  have hbolts : ∀ r ∈ (runCalls sampleDb [⟨sampleCtx 100,
      .ledger (sampleAdd 10 21 5 false (by decide))⟩]).stockEntries, r.partId = some 10 := by
    decide
  exact hne ((congrArg Bucket.partId hbucket).symm.trans (hbolts e he))

/-- Five bolts lie in the drawer; a count of three nuts there is accepted. -/
theorem adjustStock_breaks_singlePartOnly :
    ¬ ∀ (db₀ : Db) (calls : List Call), db₀.stockEntries = [] → SinglePart (runCalls db₀ calls) := by
  intro h
  have hsingle := h sampleDb [⟨sampleCtx 100, .ledger (sampleAdd 10 21 5 false (by decide))⟩,
    ⟨sampleCtx 200, .ledger (sampleAdjust 11 21 none 3)⟩] rfl 21 (sampleStorage 21 "drawer" true)
    (by decide +kernel) rfl (some 10) (some 11) none none (by decide +kernel) (by decide +kernel)
  cases hsingle

/-- No bucket of an archived location is positive. -/
def ArchivedEmpty (db : Db) : Prop :=
  ∀ id s, db.storageLocation id = some s → s.archivedAt ≠ none →
    ∀ p l, balance db.stockEntries ⟨s.workspaceId, p, l, some id⟩ ≤ 0

/-- The bucket's location, if it names one, is active. -/
def ActiveLocation (db : Db) (b : Bucket) : Prop :=
  ∀ id ∈ b.storageLocationId, ∀ s, db.storageLocation id = some s → s.archivedAt = none

theorem Admits.activeLocation {partId : Uuid}
    (_ : b.partId = some partId) (h : ∀ id ∈ b.storageLocationId, Admits db b.workspaceId id partId) :
    ActiveLocation db b := by
  intro id hid s hs
  obtain ⟨s', hs', _, harch, _⟩ := (h id hid).location
  obtain rfl : s' = s := Option.some.inj (hs'.symm.trans hs)
  exact harch

theorem ArchivedEmpty.of_raise {g : Bucket} (h : ArchivedEmpty db) (hraises : RaisesOnly db db' g)
    (hactive : balance db.stockEntries g < balance db'.stockEntries g → ActiveLocation db g) :
    ArchivedEmpty db' := by
  intro id s hs harch p l
  simp only [Db.storageLocation, hraises.locations] at hs
  have hbefore := h id s hs harch p l
  by_cases hg : (⟨s.workspaceId, p, l, some id⟩ : Bucket) = g
  · have hnot : ¬ balance db.stockEntries g < balance db'.stockEntries g :=
      fun hlt => harch (hactive hlt id (by rw [← hg]; rfl) s hs)
    rw [hg] at hbefore ⊢
    exact (not_lt.mp hnot).trans hbefore
  · exact (hraises.others _ hg).trans hbefore

theorem ArchivedEmpty.of_balance (h : ArchivedEmpty db)
    (hlocations : db'.storageLocations = db.storageLocations)
    (hle : ∀ k, balance db'.stockEntries k ≤ balance db.stockEntries k) : ArchivedEmpty db' := by
  intro id s hs harch p l
  simp only [Db.storageLocation, hlocations] at hs
  exact (hle _).trans (h id s hs harch p l)

theorem ArchivedEmpty.written (h : ArchivedEmpty db)
    (hs : db.storageLocation id = some s) (hf : ∀ r, r.id = id → (f r).id = id)
    (hws : (f s).workspaceId = s.workspaceId)
    (harch : (f s).archivedAt ≠ none → s.archivedAt ≠ none ∨
      ∀ p l, balance db.stockEntries ⟨s.workspaceId, p, l, some id⟩ ≤ 0) :
    ArchivedEmpty (db.updateStorageLocation id f) := by
  intro k s' hs' hset
  obtain ⟨rfl, rfl⟩ | ⟨_, hold⟩ := storageLocation_written hs hs' hf
  · rw [hws]
    obtain hwas | hempty := harch hset
    · exact h k s hs hwas
    · exact hempty
  · exact h k s' hold hset

/-- A correction that raises a bucket finds its location active. -/
def RecountActive (db : Db) (b : Bucket) (actual : Decimal) : Prop :=
  0 < actual → ActiveLocation db b

theorem stockStep_archivedEmpty (hstep : StockStep RecountActive db db')
    (hnonneg : NonNegative db) (h : ArchivedEmpty db) : ArchivedEmpty db' := by
  cases hstep with
  | produced hrow hpos =>
    refine h.of_raise (hrow.raises hpos) fun _ => ?_
    rw [hrow.bucket]
    exact Admits.activeLocation rfl hrow.admitted
  | drawn hrow hpos => exact h.of_balance rfl (hrow.lowers hpos)
  | moved hpair hpos =>
    refine h.of_raise (hpair.raises hpos) fun _ => ?_
    rw [hpair.inBucket]
    refine Admits.activeLocation rfl ?_
    rintro id hid
    obtain rfl := Option.mem_some_iff.mp hid
    exact hpair.admitted
  | recounted hrow hactual _ hcond =>
    refine h.of_raise (hrow.raises hactual) fun hlt => hcond ?_
    rw [hrow.balance_self] at hlt
    exact lt_of_le_of_lt (hnonneg _) hlt
  | patched hs hid hws harch hflag =>
    exact h.written hs (fun _ _ => hid) hws fun hset => Or.inl (harch ▸ hset)
  | archived hs hempty => exact h.written hs (fun _ hr => hr) rfl fun _ => Or.inr hempty
  | restored hs => exact h.written hs (fun _ hr => hr) rfl fun hset => absurd rfl hset
  | created hfresh harch =>
    intro k s' hs' hset
    rw [storageLocation_append] at hs'
    cases hold : db.storageLocation k with
    | some r =>
      rw [hold, Option.some_or] at hs'
      obtain rfl := Option.some.inj hs'
      exact h k r hold hset
    | none =>
      rw [hold, Option.none_or] at hs'
      split at hs'
      next =>
        obtain rfl := Option.some.inj hs'
        exact absurd harch hset
      next => cases hs'
  | elsewhere hsame _ =>
    refine h.of_balance hsame.storageLocations fun k => ?_
    rw [hsame.stockEntries]

theorem ledgerStep_archivedEmpty (hstep : LedgerStep RecountActive db db')
    (hnonneg : NonNegative db) (h : ArchivedEmpty db) : ArchivedEmpty db' := by
  cases hstep with
  | stock hstock => exact stockStep_archivedEmpty hstock hnonneg h
  | noted happends hrows =>
    refine h.of_balance (by rw [happends.eq]) fun k => ?_
    rw [happends.eq, balance_append_reserved fun e he => (hrows e he).1]
  | builds hsame =>
    refine h.of_balance hsame.storageLocations fun k => ?_
    rw [hsame.stockEntries]

/-- In a run whose corrections leave archived locations alone, they stay empty. -/
theorem archivedLocation_empty {db₀ : Db} (hempty : db₀.stockEntries = []) {calls : List Call}
    (hmeets : Outcome.Meets exec (Outcome.Accepted exec (AdjustMeets RecountActive)) db₀ calls) :
    ArchivedEmpty (runCalls db₀ calls) := by
  have hstart : NonNegative db₀ ∧ ArchivedEmpty db₀ :=
    ⟨fun b => by simp [hempty], fun id s _ _ p l => by simp [hempty]⟩
  have hrun : NonNegative (runCalls db₀ calls) ∧ ArchivedEmpty (runCalls db₀ calls) :=
    runCalls_invariant (I := fun db => NonNegative db ∧ ArchivedEmpty db) (fun _ _ hstep hI =>
      ⟨ledgerStep_nonNegative hstep hI.1, ledgerStep_archivedEmpty hstep hI.1 hI.2⟩) hmeets hstart
  exact hrun.2

theorem archivedLocation_empty_sample :
    ArchivedEmpty (runCalls sampleDb [⟨sampleCtx 100, .archiveStorage 21⟩,
      ⟨sampleCtx 200, .ledger (sampleAdjust 10 20 none 3)⟩]) := by
  refine archivedLocation_empty rfl ⟨fun _ => trivial, ?_, trivial⟩
  rintro _ _ id hid s hs
  obtain rfl := Option.mem_some_iff.mp hid
  have hshelf : (runCalls sampleDb [⟨sampleCtx 100, .archiveStorage 21⟩]).storageLocation 20 =
      some (sampleStorage 20 "shelf" false) := by
    decide
  obtain rfl := Option.some.inj (hshelf.symm.trans hs)
  rfl

/-- The shelf is archived; a count of three bolts on it is accepted. -/
theorem adjustStock_fills_archivedLocation :
    ¬ ∀ (db₀ : Db) (calls : List Call), db₀.stockEntries = [] →
      ArchivedEmpty (runCalls db₀ calls) := by
  intro h
  have hempty := h sampleDb [⟨sampleCtx 100, .archiveStorage 20⟩,
    ⟨sampleCtx 200, .ledger (sampleAdjust 10 20 none 3)⟩] rfl 20
    { sampleStorage 20 "shelf" false with archivedAt := some 100 } (by decide +kernel) (by decide)
    (some 10) none
  exact absurd hempty (by decide +kernel)

/-- Every row that carries a lot carries the lot's own part. -/
def LotsMatch (db : Db) : Prop :=
  ∀ e ∈ db.stockEntries, ∀ id ∈ e.lotId, ∃ lot, db.lot id = some lot ∧ lot.partId = e.partId

/-- A bucket's lot is a lot of the bucket's part. -/
def LotOfPart (db : Db) (b : Bucket) : Prop :=
  ∀ id ∈ b.lotId, ∃ lot, db.lot id = some lot ∧ lot.partId = b.partId

theorem LotsMatch.lotOfPart (h : LotsMatch db)
    (hne : balance db.stockEntries b ≠ 0) : LotOfPart db b := by
  by_contra hbad
  apply hne
  apply Tally.tally_eq_zero
  rintro e he ⟨_, rfl⟩
  exact hbad fun id hid => h e he id hid

theorem LotsMatch.append (rows : List StockEntry) (lots : List Lot)
    (h : LotsMatch db) (hlots : db'.lots = db.lots ++ lots)
    (hrows : db'.stockEntries = db.stockEntries ++ rows)
    (hnew : ∀ e ∈ rows, ∀ id ∈ e.lotId, ∃ lot, db'.lot id = some lot ∧ lot.partId = e.partId) :
    LotsMatch db' := by
  intro e he id hid
  rw [hrows] at he
  rcases List.mem_append.mp he with he | he
  · obtain ⟨lot, hlot, hpart⟩ := h e he id hid
    refine ⟨lot, ?_, hpart⟩
    rw [Db.lot, hlots]
    exact lot_append hlot
  · exact hnew e he id hid

theorem LotsMatch.same (h : LotsMatch db) (hsame : SameLedger db db') :
    LotsMatch db' := by
  refine h.append [] [] (by simp [hsame.lots]) (by simp [hsame.stockEntries]) ?_
  intro r hr
  cases hr

theorem FreshLot.found {workspaceId partId : Uuid} {lot : Lot}
    (h : FreshLot db workspaceId partId lot) (hlots : db'.lots = db.lots ++ [lot]) :
    db'.lot lot.id = some lot := by
  have hnone : db.lots.find? (fun r => r.id = lot.id) = none := by
    rw [List.find?_eq_none]
    intro r hr
    simpa using h.fresh r hr
  rw [Db.lot, hlots, List.find?_append, hnone]
  simp

/-- A correction names a lot of its part, or counts nothing. -/
def RecountOwnLot (db : Db) (b : Bucket) (actual : Decimal) : Prop :=
  actual = 0 ∨ LotOfPart db b

theorem stockStep_lotsMatch (hstep : StockStep RecountOwnLot db db')
    (h : LotsMatch db) : LotsMatch db' := by
  have hkept : ∀ {b : Bucket} {e : StockEntry}, e.bucket = b → LotOfPart db b →
      ∀ r ∈ [e], ∀ id ∈ r.lotId, ∃ lot, db.lot id = some lot ∧ lot.partId = r.partId := by
    rintro b e rfl hown r hr id hid
    obtain rfl := List.mem_singleton.mp hr
    exact hown id hid
  cases hstep with
  | produced hrow hpos =>
    refine h.append _ _ rfl rfl ?_
    rintro r hr id hid
    obtain rfl := List.mem_singleton.mp hr
    have hbucket := hrow.bucket
    simp only [StockEntry.bucket, Bucket.mk.injEq] at hbucket
    obtain ⟨_, hpart, hlot, _⟩ := hbucket
    obtain rfl | ⟨lot, rfl, hfresh⟩ := hrow.lots
    · simp [hlot] at hid
    · have hidlot : lot.id = id := by simpa [hlot] using hid
      subst hidlot
      exact ⟨lot, hfresh.found rfl, hfresh.part.trans hpart.symm⟩
  | drawn hrow hpos =>
    have hne := ne_of_gt (lt_of_lt_of_le hpos hrow.available)
    exact h.append _ [] (by simp) rfl (hkept hrow.bucket (h.lotOfPart hne))
  | moved hpair hpos =>
    have hown := h.lotOfPart (ne_of_gt (lt_of_lt_of_le hpos hpair.available))
    have hin := hpair.inBucket
    have hout := hpair.outBucket
    simp only [StockEntry.bucket, Bucket.mk.injEq] at hin hout
    refine h.append _ _ rfl rfl ?_
    rintro r hr id hid
    rcases List.mem_cons.mp hr with rfl | hr
    · obtain ⟨lot, hlot, hpart⟩ := hown id hid
      exact ⟨lot, lot_append hlot, hpart⟩
    · obtain rfl := List.mem_singleton.mp hr
      rw [hin.2.2.1] at hid
      rw [hin.2.1]
      obtain rfl | ⟨lot, rfl, hfresh⟩ := hpair.lots
      · -- The destination keeps the source lot.
        rw [if_pos rfl, ← hout.2.2.1] at hid
        obtain ⟨lot, hlot, hpart⟩ := hown id hid
        exact ⟨lot, lot_append hlot, hpart.trans hout.2.1⟩
      · have hidlot : lot.id = id := by simpa using hid
        subst hidlot
        exact ⟨lot, hfresh.found rfl, hfresh.part⟩
  | recounted hrow hnonneg hchanged hcond =>
    refine h.append _ [] (by simp) rfl (hkept hrow.bucket ?_)
    obtain rfl | hown := hcond
    · exact h.lotOfPart hchanged
    · exact hown
  | patched => exact h
  | archived => exact h
  | restored => exact h
  | created => exact h
  | elsewhere hsame _ => exact h.same hsame

theorem ledgerStep_lotsMatch (hstep : LedgerStep RecountOwnLot db db')
    (h : LotsMatch db) : LotsMatch db' := by
  cases hstep with
  | stock hstock => exact stockStep_lotsMatch hstock h
  | noted happends hrows =>
    refine h.append _ [] (by simp [happends.eq]) (by rw [happends.eq]) ?_
    intro r hr id hid
    rw [(hrows r hr).2] at hid
    cases hid
  | builds hsame => exact h.same hsame

/-- In a run whose corrections name their own part's lots, every lot holds its own part. -/
theorem lot_holdsOwnPart {db₀ : Db} (hempty : db₀.stockEntries = []) {calls : List Call}
    (hmeets : Outcome.Meets exec (Outcome.Accepted exec (AdjustMeets RecountOwnLot)) db₀ calls) :
    LotsMatch (runCalls db₀ calls) := by
  have hstart : LotsMatch db₀ := by
    intro e he
    rw [hempty] at he
    cases he
  exact runCalls_invariant (fun _ _ => ledgerStep_lotsMatch) hmeets hstart

theorem lot_holdsOwnPart_sample :
    LotsMatch (runCalls sampleDb [⟨sampleCtx 100, .ledger (sampleAdd 10 20 5 true (by decide))⟩,
      ⟨sampleCtx 200, .ledger (sampleAdjust 10 20 (some 101) 7)⟩]) := by
  refine lot_holdsOwnPart rfl ⟨fun _ => trivial, fun _ => Or.inr ?_, trivial⟩
  rintro id hid
  obtain rfl := Option.mem_some_iff.mp hid
  have hlot : ((runCalls sampleDb [⟨sampleCtx 100,
      .ledger (sampleAdd 10 20 5 true (by decide))⟩]).lot 101).map (·.partId) =
        some (some 10) := by
    decide
  exact Option.map_eq_some_iff.mp hlot

/-- Lot 101 holds bolts; a count of three nuts in it is accepted. -/
theorem adjustStock_mixes_lot :
    ¬ ∀ (db₀ : Db) (calls : List Call), db₀.stockEntries = [] →
      LotsMatch (runCalls db₀ calls) := by
  intro h
  have hmatch := h sampleDb [⟨sampleCtx 100, .ledger (sampleAdd 10 20 5 true (by decide))⟩,
    ⟨sampleCtx 200, .ledger (sampleAdjust 11 20 (some 101) 3)⟩] rfl
  have hbad : ∃ e ∈ (runCalls sampleDb
      [⟨sampleCtx 100, .ledger (sampleAdd 10 20 5 true (by decide))⟩,
        ⟨sampleCtx 200, .ledger (sampleAdjust 11 20 (some 101) 3)⟩]).stockEntries,
      e.lotId = some 101 ∧ e.partId = some 11 := by
    decide +kernel
  have hlot : ((runCalls sampleDb [⟨sampleCtx 100, .ledger (sampleAdd 10 20 5 true (by decide))⟩,
      ⟨sampleCtx 200, .ledger (sampleAdjust 11 20 (some 101) 3)⟩]).lot 101).map (·.partId) =
        some (some 10) := by
    decide +kernel
  obtain ⟨e, he, hid, hpart⟩ := hbad
  obtain ⟨lot, hfound, hown⟩ := hmatch e he 101 hid
  rw [hfound, Option.map_some, hown, hpart] at hlot
  exact absurd hlot (by decide)

end StockManager
