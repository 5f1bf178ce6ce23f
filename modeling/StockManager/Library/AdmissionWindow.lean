import Mathlib.Algebra.BigOperators.Group.Finset.Basic
import Mathlib.Algebra.Order.BigOperators.Group.Finset
import Mathlib.Algebra.Order.Group.Multiset
import Mathlib.Data.Multiset.Filter
import Mathlib.Data.Multiset.Count
import Mathlib.Data.Set.Card
import StockManager.Library.SessionPhases

/-! # Admission by a count of recent records

A gate counts the records of a window before it admits a task. A task may then get a mark, and
leaves a record under its mark only later, so that tasks admitted meanwhile do not see it. With
room for `k` tasks at a time a window holds at most `k` marks more than the gate's limit allows. -/

namespace AdmissionWindow

/-- The tasks under way, with the mark each has got, and the marks of the records. -/
structure Gate where
  now : ℕ
  tasks : Multiset (Option ℕ)
  recorded : Multiset ℕ

section Steps

variable (limit window k : ℕ)

inductive Step : Gate → Gate → Prop
  | tick {g : Gate} {t : ℕ} : g.now ≤ t → Step g { g with now := t }
  | enter {g : Gate} {cutoff : ℕ} : cutoff ≤ g.now - window →
      g.recorded.countP (cutoff ≤ ·) < limit → g.tasks.card < k →
      Step g { g with tasks := none ::ₘ g.tasks }
  | mark {g : Gate} {rest : Multiset (Option ℕ)} : g.tasks = none ::ₘ rest →
      Step g { g with tasks := some g.now ::ₘ rest }
  | record {g : Gate} {m : ℕ} {rest : Multiset (Option ℕ)} : g.tasks = some m ::ₘ rest →
      Step g { g with tasks := rest, recorded := m ::ₘ g.recorded }
  | leave {g : Gate} {task : Option ℕ} {rest : Multiset (Option ℕ)} : g.tasks = task ::ₘ rest →
      Step g { g with tasks := rest }
  | forget {g : Gate} {kept : Multiset ℕ} : kept ≤ g.recorded → Step g { g with recorded := kept }

end Steps

def marksIn (window T : ℕ) (marks : Multiset ℕ) : ℕ :=
  marks.countP fun m => T ≤ m ∧ m ≤ T + window

def pendingIn (window T : ℕ) (tasks : Multiset (Option ℕ)) : ℕ :=
  tasks.countP fun task => ∃ m ∈ task, T ≤ m ∧ m ≤ T + window

def openIn (window T : ℕ) (g : Gate) : ℕ :=
  if g.now ≤ T + window then g.tasks.card else pendingIn window T g.tasks

def Within (limit window k : ℕ) (g : Gate) : Prop :=
  ∀ T, marksIn window T g.recorded + openIn window T g ≤ limit - 1 + k

variable {limit window k T m : ℕ} {g g' : Gate} {rest : Multiset (Option ℕ)}

theorem marksIn_cons (marks : Multiset ℕ) : marksIn window T (m ::ₘ marks) =
    marksIn window T marks + if T ≤ m ∧ m ≤ T + window then 1 else 0 :=
  Multiset.countP_cons ..

theorem pendingIn_none : pendingIn window T (none ::ₘ rest) = pendingIn window T rest := by
  rw [pendingIn, Multiset.countP_cons_of_neg]
  · rfl
  · simp

theorem pendingIn_some : pendingIn window T (some m ::ₘ rest) =
    pendingIn window T rest + if T ≤ m ∧ m ≤ T + window then 1 else 0 := by
  rw [pendingIn, Multiset.countP_cons]
  simp [pendingIn]

theorem pendingIn_le_cons (task : Option ℕ) :
    pendingIn window T rest ≤ pendingIn window T (task ::ₘ rest) :=
  Multiset.countP_le_of_le _ (Multiset.le_cons_self ..)

theorem openIn_le_card (g : Gate) : openIn window T g ≤ g.tasks.card := by
  unfold openIn
  split
  · exact Nat.le_refl _
  · exact Multiset.countP_le_card _ _

theorem marksIn_le_recent {cutoff : ℕ} (h : cutoff ≤ T) (marks : Multiset ℕ) :
    marksIn window T marks ≤ marks.countP (cutoff ≤ ·) := by
  rw [marksIn, Multiset.countP_eq_card_filter, Multiset.countP_eq_card_filter]
  refine Multiset.card_le_card (Multiset.monotone_filter_right _ fun m hm => ?_)
  omega

theorem Within.step (hstep : Step limit window k g g') (h : Within limit window k g) :
    Within limit window k g' := by
  intro T
  have hT := h T
  cases hstep with
  | @tick t hle =>
    have hopen : openIn window T { g with now := t } ≤ openIn window T g := by
      by_cases hnow : g.now ≤ T + window
      · have hcard := @openIn_le_card window T { g with now := t }
        rwa [openIn, openIn, if_pos hnow] at *
      · have hlater : ¬t ≤ T + window := by omega
        rw [openIn, openIn, if_neg hnow, if_neg hlater]
    exact Nat.le_trans (Nat.add_le_add_left hopen _) hT
  | @enter cutoff hcutoff hcount hroom =>
    by_cases hnow : g.now ≤ T + window
    · have hrecent := @marksIn_le_recent window T cutoff (by omega) g.recorded
      have hopen := @openIn_le_card window T { g with tasks := none ::ₘ g.tasks }
      rw [Multiset.card_cons] at hopen
      show marksIn window T g.recorded + _ ≤ _
      omega
    · rw [openIn, if_neg hnow] at hT ⊢
      rwa [pendingIn_none]
  | mark htasks =>
    rw [openIn, htasks] at hT
    rw [openIn]
    split at hT
    next hnow =>
      rw [if_pos hnow]
      simpa using hT
    next hnow =>
      rw [if_neg hnow, pendingIn_some, if_neg (by omega)]
      rwa [pendingIn_none] at hT
  | @record m rest htasks =>
    rw [openIn, htasks] at hT
    rw [marksIn_cons, openIn]
    split at hT
    next hnow =>
      rw [if_pos hnow]
      rw [Multiset.card_cons] at hT
      show _ + Multiset.card rest ≤ _
      split <;> omega
    next hnow =>
      rw [if_neg hnow]
      rw [pendingIn_some] at hT
      show _ + pendingIn window T rest ≤ _
      omega
  | @leave task rest htasks =>
    rw [openIn, htasks] at hT
    rw [openIn]
    split at hT
    next hnow =>
      rw [if_pos hnow]
      rw [Multiset.card_cons] at hT
      show marksIn window T g.recorded + Multiset.card rest ≤ _
      omega
    next hnow =>
      rw [if_neg hnow]
      show marksIn window T g.recorded + pendingIn window T rest ≤ _
      have hless := @pendingIn_le_cons window T rest task
      omega
  | @forget kept hkept =>
    have hfewer : marksIn window T kept ≤ marksIn window T g.recorded :=
      Multiset.countP_le_of_le _ hkept
    have hsame : openIn window T { g with recorded := kept } = openIn window T g := rfl
    show marksIn window T kept + _ ≤ _
    omega

/-- A session takes the time of its window, counts, gets its mark and commits its record. -/
inductive Phase
  | idle
  | checking (cutoff : ℕ)
  | admitted
  | stamped (mark : ℕ)

namespace Phase

def tasks : Phase → Multiset (Option ℕ)
  | idle => 0
  | checking _ => 0
  | admitted => {none}
  | stamped mark => {some mark}

def needs {κ : Type} (locks : List κ) : Phase → List κ
  | idle => []
  | checking _ => locks
  | admitted => locks
  | stamped _ => locks

end Phase

section Census

open Sessions

variable {ι ν σ κ : Type} [DecidableEq ι] [Fintype ι]

def tasksOf (φs : ι → Phase) : Multiset (Option ℕ) := ∑ i, (φs i).tasks

theorem tasksOf_update (φs : ι → Phase) (i : ι) : ∃ others, tasksOf φs = (φs i).tasks + others ∧
    ∀ φ, tasksOf (Function.update φs i φ) = φ.tasks + others := by
  refine ⟨∑ j ∈ Finset.univ.erase i, (φs j).tasks, ?_, fun φ => ?_⟩
  · exact (Finset.add_sum_erase _ _ (Finset.mem_univ i)).symm
  · rw [tasksOf, ← Finset.add_sum_erase _ _ (Finset.mem_univ i), Function.update_self]
    congr 1
    refine Finset.sum_congr rfl fun j hj => ?_
    rw [Function.update_of_ne (Finset.ne_of_mem_erase hj)]

omit [DecidableEq ι] in
theorem tasksOf_card_le {counted : Set ι} {φs : ι → Phase}
    (h : ∀ i, φs i ≠ .idle → i ∈ counted) : (tasksOf φs).card ≤ counted.ncard := by
  classical
  have hone : ∀ i, (φs i).tasks.card ≤ if i ∈ counted then 1 else 0 := by
    intro i
    by_cases hi : i ∈ counted
    · rw [if_pos hi]
      cases φs i <;> simp [Phase.tasks]
    · have hidle : φs i = .idle := by
        by_contra hne
        exact hi (h i hne)
      rw [if_neg hi, hidle]
      rfl
  calc (tasksOf φs).card = ∑ i, (φs i).tasks.card := Multiset.card_sum _ _
    _ ≤ ∑ i, if i ∈ counted then 1 else 0 := Finset.sum_le_sum fun i _ => hone i
    _ = (Finset.univ.filter (· ∈ counted)).card := (Finset.card_filter _ _).symm
    _ = counted.ncard := by rw [← Set.ncard_coe_finset, Finset.coe_filter_univ]; rfl

variable (limit window k : ℕ) (now : σ → ℕ) (recorded : σ → Multiset ℕ) (locks : List κ)
  (counted : ι → Prop)

def gateOf (s : σ) (φs : ι → Phase) : Gate := ⟨now s, tasksOf φs, recorded s⟩

theorem Within.leave {s : σ} {φs : ι → Phase} (i : ι)
    (h : Within limit window k (gateOf now recorded s φs)) :
    Within limit window k (gateOf now recorded s (Function.update φs i .idle)) := by
  obtain ⟨others, htasks, hupdate⟩ := tasksOf_update φs i
  have hsame : tasksOf (Function.update φs i .idle) = others :=
    (hupdate .idle).trans (zero_add others)
  have hkept : tasksOf φs = others →
      Within limit window k (gateOf now recorded s (Function.update φs i .idle)) := by
    intro heq
    rw [gateOf, hsame, ← heq]
    exact h
  have hleft : ∀ task, tasksOf φs = {task} + others →
      Within limit window k (gateOf now recorded s (Function.update φs i .idle)) := by
    intro task heq
    rw [gateOf, hsame]
    exact Within.step (.leave (heq.trans (Multiset.singleton_add task _))) h
  cases hφ : φs i with
  | idle => exact hkept (by rw [htasks, hφ]; exact zero_add _)
  | checking cutoff => exact hkept (by rw [htasks, hφ]; exact zero_add _)
  | admitted => exact hleft none (by rw [htasks, hφ]; rfl)
  | stamped mark => exact hleft (some mark) (by rw [htasks, hφ]; rfl)

def census : Phases ι σ κ Phase where
  idle := .idle
  counted := counted
  needs := Phase.needs locks
  room φs := (tasksOf φs).card ≤ k
  inv s φs := Within limit window k (gateOf now recorded s φs) ∧
    ∀ i cutoff, φs i = .checking cutoff → cutoff ≤ now s - window
  needs_idle := rfl
  leave i h := by
    refine ⟨h.1.leave limit window k now recorded i, fun j cutoff hj => h.2 j cutoff ?_⟩
    by_cases hji : j = i
    · subst hji
      rw [Function.update_self] at hj
      cases hj
    · rwa [Function.update_of_ne hji] at hj

variable {limit window k now recorded locks counted} {i : ι} {held : List κ} {φ φ' : Phase}
  {s t : σ}

theorem moves_of_step (hneeds : φ'.needs locks ⊆ held) (hi : φ' ≠ .idle → counted i)
    (hnow : now s ≤ now t)
    (hcutoff : ∀ cutoff, φ' = .checking cutoff → cutoff ≤ now t - window)
    (hstep : ∀ others, (∀ cutoff, φ = .checking cutoff → cutoff ≤ now s - window) →
      (φ'.tasks + others).card ≤ k → Step limit window k ⟨now s, φ.tasks + others, recorded s⟩
        ⟨now t, φ'.tasks + others, recorded t⟩) :
    (census limit window k now recorded locks counted).Moves i held φ φ' s t := by
  refine ⟨hneeds, hi, fun φs hφ hinv hroom => ⟨?_, fun j cutoff hj => ?_⟩⟩
  · obtain ⟨others, htasks, hupdate⟩ := tasksOf_update φs i
    rw [hφ] at htasks
    have hafter := hupdate φ'
    have hcard : (tasksOf (Function.update φs i φ')).card ≤ k := hroom
    rw [hafter] at hcard
    have hbefore : gateOf now recorded s φs = ⟨now s, φ.tasks + others, recorded s⟩ := by
      rw [gateOf, htasks]
    have hthen : gateOf now recorded t (Function.update φs i φ') =
        ⟨now t, φ'.tasks + others, recorded t⟩ := by rw [gateOf, hafter]
    rw [hthen]
    exact (hbefore ▸ hinv.1).step (hstep others (fun c hc => hinv.2 i c (hφ.trans hc)) hcard)
  · by_cases hji : j = i
    · subst hji
      rw [Function.update_self] at hj
      exact hcutoff cutoff hj
    · rw [Function.update_of_ne hji] at hj
      exact Nat.le_trans (hinv.2 j cutoff hj) (Nat.sub_le_sub_right hnow _)

theorem moves_check (hi : counted i) (hlocks : locks ⊆ held) :
    (census limit window k now recorded locks counted).Moves i held .idle
      (.checking (now t - window)) t t :=
  moves_of_step hlocks (fun _ => hi) (Nat.le_refl _)
    (fun _ h => (Phase.checking.inj h) ▸ Nat.le_refl _)
    fun _ _ _ => .tick (Nat.le_refl _)

theorem moves_enter {cutoff : ℕ} (hi : counted i) (hlocks : locks ⊆ held)
    (hcount : (recorded t).countP (cutoff ≤ ·) < limit) :
    (census limit window k now recorded locks counted).Moves i held (.checking cutoff) .admitted
      t t := by
  refine moves_of_step hlocks (fun _ => hi) (Nat.le_refl _) (fun _ h => by cases h)
    fun others hcutoff hcard => ?_
  rw [Phase.tasks, Multiset.singleton_add, Multiset.card_cons] at hcard
  have hzero : (Phase.checking cutoff).tasks + others = others := zero_add _
  rw [hzero]
  exact .enter (hcutoff cutoff rfl) hcount hcard

theorem moves_stamp (hi : counted i) (hlocks : locks ⊆ held) :
    (census limit window k now recorded locks counted).Moves i held .admitted (.stamped (now t))
      t t :=
  moves_of_step hlocks (fun _ => hi) (Nat.le_refl _) (fun _ h => by cases h) fun _ _ _ =>
    .mark (Multiset.singleton_add _ _)

theorem moves_record {mark : ℕ} (hnow : now s = now t)
    (hrecorded : recorded t = mark ::ₘ recorded s) :
    (census limit window k now recorded locks counted).Moves i held (.stamped mark) .idle s t :=
  moves_of_step (List.nil_subset _) (absurd rfl) (Nat.le_of_eq hnow) (fun _ h => by cases h)
    fun others _ _ => by
      have hzero : Phase.idle.tasks + others = others := zero_add _
      rw [hzero, ← hnow, hrecorded]
      exact .record (Multiset.singleton_add _ _)

theorem moves_forget (hnow : now s = now t) (hrecorded : recorded t ≤ recorded s) :
    (census limit window k now recorded locks counted).Moves i held .idle .idle s t :=
  moves_of_step (List.nil_subset _) (absurd rfl) (Nat.le_of_eq hnow) (fun _ h => by cases h)
    fun others _ _ => by
      rw [← hnow]
      exact .forget hrecorded

theorem census_tick {φs : ι → Phase} (hnow : now s ≤ now t) (hrecorded : recorded t = recorded s)
    (h : (census limit window k now recorded locks counted).inv s φs) :
    (census limit window k now recorded locks counted).inv t φs := by
  refine ⟨?_, fun i cutoff hi => Nat.le_trans (h.2 i cutoff hi) (Nat.sub_le_sub_right hnow _)⟩
  rw [gateOf, hrecorded]
  exact h.1.step (.tick hnow)

variable (limit window k now recorded locks counted) in
/-- In every run that always has room, no window holds more records than the limit and the
room allow. -/
theorem marksIn_le_of_run [DecidableEq κ] {μ ε : Type} {env : ν → σ → σ}
    {progs : ι → Prog σ κ μ ε Unit} {w : World ι σ κ μ ε}
    (henv : ∀ e s, now s ≤ now (env e s) ∧ recorded (env e s) = recorded s)
    (hstart : ∀ T, marksIn window T (recorded s) ≤ limit - 1 + k)
    (hprogs : ∀ i, (census limit window k now recorded locks counted).track i (progs i)
      (fun _ _ _ _ => True) id [] .idle)
    {acts : List (Act ι ν)} (hrun : Machine.run (World.step env) (start s progs) acts = some w)
    (hroom : ∀ before w', before <+: acts →
      Machine.run (World.step env) (start s progs) before = some w' →
      ∀ φs, Fits (census limit window k now recorded locks counted) before w' φs →
        (tasksOf φs).card ≤ k) (T : ℕ) :
    marksIn window T (recorded w.committed) ≤ limit - 1 + k := by
  have hnone : tasksOf (fun _ : ι => Phase.idle) = 0 :=
    Finset.sum_eq_zero fun _ _ => rfl
  have hinv : (census limit window k now recorded locks counted).inv s fun _ : ι => .idle := by
    refine ⟨fun T => ?_, fun i cutoff h => by cases h⟩
    have hopen : openIn window T (gateOf now recorded s fun _ : ι => .idle) ≤ 0 := by
      refine Nat.le_trans (openIn_le_card _) ?_
      show (tasksOf fun _ : ι => Phase.idle).card ≤ 0
      rw [hnone, Multiset.card_zero]
    exact Nat.le_trans (Nat.add_le_add_left hopen _) (hstart T)
  obtain ⟨φs, hφs⟩ := tracked_of_run (C := census limit window k now recorded locks counted)
    (fun e s φs h _ => census_tick (henv e s).1 (henv e s).2 h) hinv hprogs hrun hroom
  exact Nat.le_trans (Nat.le_add_right _ _) (hφs.inv.1 T)

end Census

end AdmissionWindow
