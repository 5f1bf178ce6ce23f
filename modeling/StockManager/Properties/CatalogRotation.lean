import Mathlib
import StockManager.Model.CatalogTokens

/-! # The rotation of catalog tokens

While no request labels its token as `PATCH /current` does, and no two requests mint by
`PATCH /current` at the same time, at most one such token is valid. -/

namespace StockManager.Catalog

open Transactions

variable {s t u : State} {held : List Lock}
variable {draws : Draws} {hmac : String → String} {f : Workspace → Workspace}

structure Clean (s : State) : Prop where
  ids : (s.tokens.map (·.id)).Nodup
  patched : ∀ x ∈ s.tokens, x.mintedBy = .patchCurrent → x.label = "default" ∧ x.workspaceId = s.workspace.id
  others : ∀ x ∈ s.tokens, x.mintedBy = .catalogTokens → x.label ∉ defaultLabels ∧ x.revokedBy ≠ some .patchCurrent
  one : ∀ x ∈ s.tokens, ∀ y ∈ s.tokens, x.mintedBy = .patchCurrent → y.mintedBy = .patchCurrent →
    x.revokedAt = none → y.revokedAt = none → x = y

def Carries (x y : WorkspaceCatalogToken) : Prop :=
  y.id = x.id ∧ y.workspaceId = x.workspaceId ∧ y.label = x.label ∧ y.mintedBy = x.mintedBy ∧
    (y.revokedAt = none → x.revokedAt = none)

structure Evolves (s t : State) : Prop where
  workspace : t.workspace.id = s.workspace.id
  tokens : ∀ x ∈ s.tokens, ∃ y ∈ t.tokens, Carries x y

theorem Evolves.refl (s : State) : Evolves s s :=
  ⟨rfl, fun x hx => ⟨x, hx, rfl, rfl, rfl, rfl, id⟩⟩

theorem Evolves.trans (h : Evolves s t) (h' : Evolves t u) : Evolves s u := by
  refine ⟨h'.workspace.trans h.workspace, fun x hx => ?_⟩
  obtain ⟨y, hy, hid, hws, hlabel, hminted, hrevoked⟩ := h.tokens x hx
  obtain ⟨z, hz, hid', hws', hlabel', hminted', hrevoked'⟩ := h'.tokens y hy
  exact ⟨z, hz, hid'.trans hid, hws'.trans hws, hlabel'.trans hlabel, hminted'.trans hminted,
    fun hnone => hrevoked (hrevoked' hnone)⟩

def view : Lock → State → List WorkspaceCatalogToken
  | .token id, s => s.tokens.filter (·.id = id)
  | _, _ => []

def BringsValid (s t : State) : Prop := ∀ x ∈ t.tokens, x.id ∉ s.tokens.map (·.id) → x.revokedAt = none

def rotation (ι : Type) : Protocol ι State Lock where
  inv _ s := Clean s
  rely held s t := Evolves s t ∧ ∀ l ∈ held, view l t = view l s
  guar held s t := Evolves s t ∧ BringsValid s t ∧ ∀ l, l ∉ held → view l t = view l s
  rely_refl _ s := ⟨.refl s, fun _ _ => rfl⟩
  rely_trans h h' := ⟨h.1.trans h'.1, fun l hl => (h'.2 l hl).trans (h.2 l hl)⟩
  rely_mono hsub h := ⟨h.1, fun l hl => h.2 l (hsub hl)⟩
  others _ _ hapart hguar := ⟨hguar.1, fun l hl => hguar.2.2 l (hapart l hl)⟩

theorem Clean.unique (h : Clean s) {x y : WorkspaceCatalogToken} (hx : x ∈ s.tokens) (hy : y ∈ s.tokens)
    (hid : x.id = y.id) : x = y :=
  List.inj_on_of_nodup_map h.ids hx hy hid

theorem Evolves.back (h : Evolves s t) (ht : Clean t) {x y : WorkspaceCatalogToken} (hx : x ∈ s.tokens)
    (hy : y ∈ t.tokens) (hid : y.id = x.id) : Carries x y := by
  obtain ⟨z, hz, hcarries⟩ := h.tokens x hx
  rwa [ht.unique hy hz (hid.trans hcarries.1.symm)]

section Writes

variable {ids : List Uuid} {now : Timestamp} {route : Route}

theorem revoke_tokens : (revoke ids now route s).tokens = s.tokens.map (revoked ids now route) := rfl

theorem carries_revoked (x : WorkspaceCatalogToken) : Carries x (revoked ids now route x) := by
  unfold revoked
  split
  · exact ⟨rfl, rfl, rfl, rfl, fun h => absurd h (Option.some_ne_none now)⟩
  · exact ⟨rfl, rfl, rfl, rfl, id⟩

theorem revoked_valid {x : WorkspaceCatalogToken} (h : (revoked ids now route x).revokedAt = none) :
    x.id ∉ ids ∧ revoked ids now route x = x := by
  unfold revoked at h ⊢
  split at h
  next => exact absurd h (Option.some_ne_none now)
  next hid => exact ⟨hid, if_neg hid⟩

theorem map_id_revoked : (s.tokens.map (revoked ids now route)).map (·.id) = s.tokens.map (·.id) := by
  rw [List.map_map]
  exact List.map_congr_left fun x _ => (carries_revoked x).1

theorem evolves_revoke : Evolves s (revoke ids now route s) :=
  ⟨rfl, fun x hx => ⟨_, List.mem_map_of_mem hx, carries_revoked x⟩⟩

theorem view_revoke {l : Lock} (h : ∀ id ∈ ids, l ≠ .token id) : view l (revoke ids now route s) = view l s := by
  cases l with
  | workspace => rfl
  | activeHmac workspaceId hmac => rfl
  | token id =>
    have hid : id ∉ ids := fun hmem => h id hmem rfl
    simp only [view, revoke_tokens, List.filter_map]
    have hfilter : s.tokens.filter ((fun x => decide (x.id = id)) ∘ revoked ids now route) =
        s.tokens.filter (·.id = id) := by
      apply List.filter_congr
      intro x _
      rw [Function.comp_apply, (carries_revoked x).1]
    rw [hfilter]
    refine (List.map_congr_left fun x hx => ?_).trans (List.map_id' _)
    have hx' : x.id ∉ ids := of_decide_eq_true (List.mem_filter.mp hx).2 ▸ hid
    exact if_neg hx'

theorem insertable_ok {row : WorkspaceCatalogToken} (h : insertable row s = .ok ()) : row.id ∉ s.tokens.map (·.id) := by
  intro hmem
  obtain ⟨x, hx, hid⟩ := List.mem_map.mp hmem
  have hany : (s.tokens.any fun t => decide (t.id = row.id)) = true :=
    List.any_eq_true.mpr ⟨x, hx, decide_eq_true hid⟩
  rw [insertable, hany] at h
  cases h

variable {row : WorkspaceCatalogToken}

theorem view_eq_nil_iff : view (.token row.id) s = [] ↔ row.id ∉ s.tokens.map (·.id) := by
  simp [view, List.filter_eq_nil_iff]

theorem guar_addToken {ι : Type} (hrow : .token row.id ∈ held) (hvalid : row.revokedAt = none)
    (hevolves : Evolves s t) (hids : t.tokens.map (·.id) = s.tokens.map (·.id))
    (hview : ∀ l, l ∉ held → view l t = view l s) : (rotation ι).guar held s (t.addToken row) := by
  refine ⟨hevolves.trans ⟨rfl, fun x hx => ⟨x, List.mem_append_left _ hx, rfl, rfl, rfl, rfl, id⟩⟩, ?_, ?_⟩
  · intro x hx hnew
    rcases List.mem_append.mp hx with hold | hold
    · rw [← hids] at hnew
      exact absurd (List.mem_map_of_mem hold) hnew
    · rw [List.mem_singleton.mp hold]
      exact hvalid
  · intro l hl
    rw [← hview l hl]
    cases l with
    | workspace => rfl
    | activeHmac workspaceId hmac => rfl
    | token id =>
      have hne : row.id ≠ id := by
        intro heq
        exact hl (heq ▸ hrow)
      simp [view, State.addToken, List.filter_append, hne]

theorem clean_addToken (h : Clean s) (hnew : row.id ∉ s.tokens.map (·.id))
    (hpatched : row.mintedBy = .patchCurrent → row.label = "default" ∧ row.workspaceId = s.workspace.id)
    (hothers : row.mintedBy = .catalogTokens → row.label ∉ defaultLabels ∧ row.revokedBy ≠ some .patchCurrent)
    (hone : row.mintedBy = .patchCurrent → ∀ x ∈ s.tokens, x.mintedBy = .patchCurrent → x.revokedAt ≠ none) :
    Clean (s.addToken row) := by
  constructor
  case ids =>
    rw [State.addToken, List.map_append, List.map_singleton]
    exact List.nodup_append'.mpr ⟨h.ids, List.nodup_singleton _, by simpa using hnew⟩
  case patched => exact List.forall_mem_append.mpr ⟨h.patched, fun x hx => List.mem_singleton.mp hx ▸ hpatched⟩
  case others => exact List.forall_mem_append.mpr ⟨h.others, fun x hx => List.mem_singleton.mp hx ▸ hothers⟩
  case one =>
    intro x hx y hy hxm hym hxr hyr
    rcases List.mem_append.mp hx with hx | hx <;> rcases List.mem_append.mp hy with hy | hy
    · exact h.one x hx y hy hxm hym hxr hyr
    · rw [List.mem_singleton.mp hy] at hym
      exact absurd hxr (hone hym x hx hxm)
    · rw [List.mem_singleton.mp hx] at hxm
      exact absurd hyr (hone hxm y hy hym)
    · rw [List.mem_singleton.mp hx, List.mem_singleton.mp hy]

theorem clean_revoke (h : Clean s)
    (hroute : route = .patchCurrent → ∀ x ∈ s.tokens, x.id ∈ ids → x.mintedBy ≠ .catalogTokens) :
    Clean (revoke ids now route s) := by
  have hback : ∀ y ∈ (revoke ids now route s).tokens, ∃ x ∈ s.tokens, revoked ids now route x = y :=
    fun y hy => List.mem_map.mp hy
  constructor
  case ids =>
    rw [revoke_tokens, map_id_revoked]
    exact h.ids
  case patched =>
    intro y hy hminted
    obtain ⟨x, hx, rfl⟩ := hback y hy
    obtain ⟨-, hws, hlabel, hsame, -⟩ : Carries x (revoked ids now route x) := carries_revoked x
    rw [hws, hlabel]
    exact h.patched x hx (hsame ▸ hminted)
  case others =>
    intro y hy hminted
    obtain ⟨x, hx, rfl⟩ := hback y hy
    obtain ⟨-, -, hlabel, hsame, -⟩ : Carries x (revoked ids now route x) := carries_revoked x
    rw [hsame] at hminted
    rw [hlabel]
    refine ⟨(h.others x hx hminted).1, ?_⟩
    unfold revoked
    split
    next hid =>
      intro hpatch
      exact hroute (Option.some.inj hpatch) x hx hid hminted
    next => exact (h.others x hx hminted).2
  case one =>
    intro y hy y' hy' hminted hminted' hvalid hvalid'
    obtain ⟨x, hx, rfl⟩ := hback y hy
    obtain ⟨x', hx', rfl⟩ := hback y' hy'
    have hsame := (revoked_valid hvalid).2
    have hsame' := (revoked_valid hvalid').2
    rw [hsame] at hminted hvalid ⊢
    rw [hsame'] at hminted' hvalid' ⊢
    exact h.one x hx x' hx' hminted hminted' hvalid hvalid'

variable {ι : Type} {i : ι} {pending : State → State}

theorem absent_later (hrow : .token row.id ∈ held) (h : Later (rotation ι) held s t)
    (hs : row.id ∉ s.tokens.map (·.id)) : row.id ∉ t.tokens.map (·.id) := by
  rw [← view_eq_nil_iff] at hs ⊢
  rw [h.1.2 _ hrow, hs]

theorem wp_insertToken {Q : Post State Lock Unit}
    (hids : ∀ s, (pending s).tokens.map (·.id) = s.tokens.map (·.id))
    (hQ : ∀ more t, held ⊆ more → .token row.id ∈ more → Later (rotation ι) held s t →
      row.id ∉ t.tokens.map (·.id) → Q () (State.addToken row ∘ pending) more t) :
    wp (rotation ι) (insertToken row) Q pending held s := by
  simp only [insertToken, wp_bind, wp_take, wp_ask, wp_put]
  intro t ht u hu v hv _ hinsert
  have hnew := insertable_ok hinsert
  rw [hids] at hnew
  refine hQ _ v ?_ (List.mem_cons_of_mem _ (List.mem_cons_self ..)) ?_ hnew
  · exact List.Subset.trans (List.subset_cons_self ..) (List.subset_cons_self ..)
  · exact (ht.trans (hu.mono (List.subset_cons_self ..))).trans
      (hv.mono (List.Subset.trans (List.subset_cons_self ..) (List.subset_cons_self ..)))

theorem wp_createCatalogToken {label : Label} :
    wp (rotation ι) (createCatalogToken hmac draws label) (Commits (rotation ι) i) id [] s := by
  simp only [createCatalogToken, wp_bind, wp_read, wp_pure]
  intro t _
  apply wp_insertToken fun _ => rfl
  intro more u _ hrow _ hnew log v hv hclean hlabel
  have hlabel : label.val ∉ defaultLabels := of_decide_eq_true hlabel
  have habsent := absent_later hrow ⟨hv, log, hclean⟩ hnew
  refine ⟨clean_addToken hclean habsent ?_ ?_ ?_, guar_addToken hrow rfl (.refl v) rfl fun _ _ => rfl⟩
  · simp
  · exact fun _ => ⟨hlabel, by simp⟩
  · simp

theorem wp_revokeCatalogToken {tokenId : Uuid} :
    wp (rotation ι) (revokeCatalogToken draws tokenId) (Commits (rotation ι) i) id [] s := by
  simp only [revokeCatalogToken, wp_bind, wp_read, wp_orRaise, wp_check, wp_take, wp_put, wp_pure]
  intro t _ x _ _ u _ log v _ hclean _
  refine ⟨clean_revoke hclean fun h => absurd h (by decide), evolves_revoke, ?_, fun l hl => ?_⟩
  · intro y hy hnew
    obtain ⟨z, hz, rfl⟩ := List.mem_map.mp hy
    exact absurd (List.mem_map.mpr ⟨z, hz, (carries_revoked z).1.symm⟩) hnew
  · apply view_revoke
    intro id hid heq
    rw [heq, List.mem_singleton.mp hid] at hl
    exact hl (List.mem_cons_self ..)

theorem evolves_updateWorkspace (hf : ∀ row, (f row).id = row.id) :
    Evolves s (s.updateWorkspace f) :=
  ⟨hf _, (Evolves.refl s).tokens⟩

theorem wp_updateWorkspace (hf : ∀ row, (f row).id = row.id) :
    Commits (rotation ι) i (fun _ => true) (State.updateWorkspace f ∘ id) held s := by
  intro log t _ hclean _
  refine ⟨⟨hclean.ids, fun x hx hm => ?_, hclean.others, hclean.one⟩, evolves_updateWorkspace hf,
    fun x hx hnew => absurd (List.mem_map_of_mem hx) hnew, fun l _ => by cases l <;> rfl⟩
  obtain ⟨hlabel, hws⟩ := hclean.patched x hx hm
  exact ⟨hlabel, hws.trans (hf _).symm⟩

theorem clean_mint {read : State} (hf : ∀ row, (f row).id = row.id)
    (hread : Clean read) (hclean : Clean t) (hevolves : Evolves read t)
    (hsame : patchMinted t = patchMinted read) (hnew : row.id ∉ t.tokens.map (·.id))
    (hrow : row.label = "default" ∧ row.workspaceId = t.workspace.id) (hminted : row.mintedBy = .patchCurrent) :
    Clean ((revoke (existingDefaults read) now .patchCurrent (t.updateWorkspace f)).addToken row) := by
  have hexisting : ∀ x ∈ t.tokens, x.id ∈ existingDefaults read → x.mintedBy ≠ .catalogTokens := by
    intro x hx hid hother
    obtain ⟨y, hy, hyid⟩ := List.mem_map.mp hid
    obtain ⟨hmem, hkept⟩ := List.mem_filter.mp hy
    obtain ⟨-, -, hlabel⟩ := of_decide_eq_true hkept
    obtain ⟨-, -, hsamelabel, -, -⟩ := hevolves.back hclean hmem hx hyid.symm
    rw [← hsamelabel] at hlabel
    exact (hclean.others x hx hother).1 hlabel
  have hws : Clean (t.updateWorkspace f) := by
    refine ⟨hclean.ids, fun x hx hm => ?_, hclean.others, hclean.one⟩
    exact ⟨(hclean.patched x hx hm).1, (hclean.patched x hx hm).2.trans (hf _).symm⟩
  apply clean_addToken (clean_revoke hws fun _ => hexisting)
  · rw [revoke_tokens, map_id_revoked]
    exact hnew
  · exact fun _ => ⟨hrow.1, hrow.2.trans (hf _).symm⟩
  · exact fun h => absurd (hminted.symm.trans h) (by decide)
  · intro _ y hy hym hvalid
    obtain ⟨x, hx, rfl⟩ := List.mem_map.mp hy
    obtain ⟨hnot, hsamerow⟩ := revoked_valid hvalid
    rw [hsamerow] at hym hvalid
    have hmem : x.id ∈ patchMinted t :=
      List.mem_map.mpr ⟨x, List.mem_filter.mpr ⟨hx, decide_eq_true hym⟩, rfl⟩
    rw [hsame] at hmem
    obtain ⟨z, hz, hid⟩ := List.mem_map.mp hmem
    obtain ⟨hzmem, hzm⟩ := List.mem_filter.mp hz
    obtain ⟨-, -, -, -, hback⟩ := hevolves.back hclean hzmem hx hid.symm
    obtain ⟨hlabel, hworkspace⟩ := hread.patched z hzmem (of_decide_eq_true hzm)
    refine hnot (hid ▸ List.mem_map_of_mem (List.mem_filter.mpr ⟨hzmem, decide_eq_true ⟨hworkspace, ?_, ?_⟩⟩))
    · exact hback hvalid
    · rw [hlabel]
      exact List.mem_cons_self ..

theorem wp_patchCurrent {payload : WorkspacePatch} :
    wp (rotation ι) (patchCurrent hmac draws payload) (Commits (rotation ι) i) id [] s := by
  simp only [patchCurrent, wp_bind, wp_read, wp_orRaise]
  intro t ht enabled _
  split
  next =>
    simp only [wp_bind, wp_read, wp_take, wp_put, wp_pure]
    intro u hu v hv
    obtain ⟨logu, hread⟩ := hu.2
    apply wp_takeAll (Later.refl hv.2.choose_spec)
    intro more x hmore hlocks hx
    apply wp_insertToken
    · intro y
      exact map_id_revoked
    intro more' y hmore' hrow hy hnew log z hz hclean hsame
    have hsame : patchMinted z = patchMinted u := of_decide_eq_true hsame
    have hlater : Evolves u z := ((hv.1.1.trans hx.1.1).trans hy.1.1).trans hz.1
    have habsent := absent_later hrow ⟨hz, log, hclean⟩ hnew
    have hf : ∀ row : Workspace, { row with
        catalogEnabled := written (id t).workspace.catalogEnabled enabled row.catalogEnabled
        catalogToken := some draws.plaintext
        catalogTokenHash := some (hmac draws.plaintext) : Workspace }.id = row.id := fun _ => rfl
    refine ⟨clean_mint hf hread hclean hlater hsame habsent ⟨rfl, ?_⟩ rfl, ?_⟩
    · exact (hu.1.1.trans hlater).workspace.symm
    · apply guar_addToken hrow rfl
      · exact (evolves_updateWorkspace hf).trans evolves_revoke
      · exact map_id_revoked
      · intro l hl
        refine (view_revoke fun id hid heq => ?_).trans (by cases l <;> rfl)
        exact hl (hmore' (heq ▸ hlocks (List.mem_map_of_mem hid)))
  next =>
    split
    next =>
      simp only [wp_bind, wp_take, wp_put, wp_pure]
      exact fun u _ => wp_updateWorkspace fun _ => rfl
    next =>
      intro log u _ hclean _
      exact ⟨hclean, .refl u, fun x hx hnew => absurd (List.mem_map_of_mem hx) hnew, fun _ _ => rfl⟩

theorem wp_request (request : Request) :
    wp (rotation ι) (request.tx hmac draws) (Commits (rotation ι) i) id [] s := by
  cases request with
  | patchCurrent payload => exact wp_patchCurrent
  | createCatalogToken label => exact wp_createCatalogToken
  | revokeCatalogToken tokenId => exact wp_revokeCatalogToken

end Writes

section Runs

variable {ι : Type} [DecidableEq ι] [Fintype ι] {w w' : World ι State Lock Refusal}

theorem evolves_of_run {acts : List (Act ι)} (h : Sound (rotation ι) w)
    (hmet : Machine.Meets World.step World.Reliable w acts) (hrun : Machine.run World.step w acts = some w') :
    Sound (rotation ι) w' ∧ Evolves w.committed w'.committed := by
  refine Machine.run_invariant_of_meets (I := fun v => Sound (rotation ι) v ∧ Evolves w.committed v.committed)
    (fun a u v hu hreliable hstep => ⟨sound_step hu.1 hreliable hstep, hu.2.trans ?_⟩) ⟨h, .refl _⟩ hmet hrun
  rcases guar_of_step hu.1 hreliable hstep with heq | ⟨held, hguar⟩
  · rw [heq]
    exact .refl _
  · exact hguar.1

theorem bringsValid_of_step {a : Act ι} (h : Sound (rotation ι) w) (hreliable : World.Reliable a w)
    (hstep : World.step a w = some w') : BringsValid w.committed w'.committed := by
  rcases guar_of_step h hreliable hstep with heq | ⟨held, hguar⟩
  · intro x hx hnew
    rw [heq] at hx
    exact absurd (List.mem_map_of_mem hx) hnew
  · exact hguar.2.1

/-- In every run whose mints do not overlap and whose labels are not the default ones: at
most one token of `PATCH /current` is valid, `PATCH /current` revokes no token of the other
route, a revoked token stays revoked, and a step that brings in a token of `PATCH /current`
leaves exactly that one valid. -/
theorem catalog_rotates {s : State} (hs : Clean s) (hmac : String → String) (draws : ι → Draws)
    (requests : ι → Request) {acts later : List (Act ι)}
    (hmet : Machine.Meets World.step World.Reliable (start s fun i => (requests i).tx hmac (draws i)) (acts ++ later))
    (hrun : Machine.run World.step (start s fun i => (requests i).tx hmac (draws i)) acts = some w)
    (hlater : Machine.run World.step w later = some w') :
    (∀ x ∈ w.committed.tokens, ∀ y ∈ w.committed.tokens, x.mintedBy = .patchCurrent →
      y.mintedBy = .patchCurrent → x.revokedAt = none → y.revokedAt = none → x = y) ∧
    (∀ x ∈ w.committed.tokens, x.mintedBy = .catalogTokens → x.revokedBy ≠ some .patchCurrent) ∧
    (∀ x ∈ w.committed.tokens, x.revokedAt ≠ none → ∀ y ∈ w'.committed.tokens, y.id = x.id →
      y.revokedAt ≠ none) ∧
    (∀ a, later = [a] → ∀ x ∈ w'.committed.tokens, x.mintedBy = .patchCurrent →
      x.id ∉ w.committed.tokens.map (·.id) → x.revokedAt = none ∧
        ∀ y ∈ w'.committed.tokens, y.mintedBy = .patchCurrent → y.revokedAt = none → y = x) := by
  obtain ⟨hbefore, hafter⟩ := hmet.append hrun
  have hsound : Sound (rotation ι) w := sound_of_run hs (fun i => wp_request (requests i)) hbefore hrun
  obtain ⟨hsound', hevolves⟩ := evolves_of_run hsound hafter hlater
  have hclean : Clean w.committed := hsound.inv
  have hclean' : Clean w'.committed := hsound'.inv
  refine ⟨hclean.one, fun x hx hm => (hclean.others x hx hm).2, ?_, ?_⟩
  · intro x hx hrevoked y hy hid hvalid
    obtain ⟨-, -, -, -, hback⟩ := hevolves.back hclean' hx hy hid
    exact hrevoked (hback hvalid)
  · rintro a rfl x hx hm hnew
    obtain ⟨v, hstep, hrest⟩ := Machine.run_cons.mp hlater
    obtain rfl : v = w' := by simpa [Machine.run] using hrest
    have hvalid := bringsValid_of_step hsound hafter.1 hstep x hx hnew
    exact ⟨hvalid, fun y hy hym hyr => hclean'.one y hy x hx hym hm hyr hvalid⟩

end Runs

/-- A catalog that is published under one token -/
def sampleState : State where
  workspace := ⟨1, true, some "a", some "a"⟩
  tokens := [⟨10, 1, "a", "default", none, .patchCurrent, none⟩]

def sampleDraws : Bool → Draws
  | false => ⟨5000, 11, "b"⟩
  | true => ⟨5001, 12, "c"⟩

def regenerate : Request := .patchCurrent ⟨none, some true⟩

def samplePair (first second : Request) : Bool → Request
  | false => first
  | true => second

def sampleStart (pair : Bool → Request) : World Bool State Lock Refusal :=
  start sampleState fun i => (pair i).tx (fun secret => secret) (sampleDraws i)

/-- The first request takes some steps, then the second. -/
def turns (n m : ℕ) : List (Act Bool) := List.replicate n (.advance false) ++ List.replicate m (.advance true)

/-- Where a run leaves the tokens: each with its key, when it was revoked and by whom -/
def tokensAfter (pair : Bool → Request) (acts : List (Act Bool)) :
    Option (List (Uuid × Option Timestamp × Option Route)) :=
  (Machine.run World.step (sampleStart pair) acts).map fun w =>
    w.committed.tokens.map fun t => (t.id, t.revokedAt, t.revokedBy)

theorem sampleState_clean : Clean sampleState := by
  constructor <;> simp [sampleState, defaultLabels]

/-- The token is made anew twice, one time after the other. -/
theorem catalog_rotates_twice : ∃ w w',
    Machine.run World.step (sampleStart (samplePair regenerate regenerate)) (turns 11 10) = some w ∧
    Machine.run World.step w [.advance true] = some w' ∧
    ∀ x ∈ w'.committed.tokens, x.mintedBy = .patchCurrent → x.id ∉ w.committed.tokens.map (·.id) →
      x.revokedAt = none ∧ ∀ y ∈ w'.committed.tokens, y.mintedBy = .patchCurrent → y.revokedAt = none → y = x := by
  have hran : (Machine.run World.step (sampleStart (samplePair regenerate regenerate))
      (turns 11 10 ++ [.advance true])).isSome = true := by decide
  obtain ⟨w', hwhole⟩ := Option.isSome_iff_exists.mp hran
  obtain ⟨w, hrun, hlater⟩ := Machine.run_append.mp hwhole
  exact ⟨w, w', hrun, hlater, (catalog_rotates sampleState_clean (fun secret => secret) sampleDraws
    (samplePair regenerate regenerate) (by decide) hrun hlater).2.2.2 _ rfl⟩

/-- Two requests look for the tokens to replace before either has committed: both new
tokens stay valid. And a token labelled `default` is revoked by the next mint. -/
theorem overlapping_mints_and_default_label :
    tokensAfter (samplePair regenerate regenerate) (turns 2 2 ++ turns 9 9) =
      some [(10, some 5001, some .patchCurrent), (11, none, none), (12, none, none)] ∧
    tokensAfter (samplePair (.createCatalogToken ⟨"default", by decide, by decide⟩) regenerate) (turns 6 12) =
      some [(10, some 5001, some .patchCurrent), (11, some 5001, some .patchCurrent), (12, none, none)] := by
  decide

end StockManager.Catalog
