import StockManager.Effects.EdaRows

/-! # The name of a library row is the name in its file -/

namespace StockManager.Eda

open Sexpr (Text Node)

/-- No library rows and no files; the categories are whatever the workspaces have. -/
structure State.Fresh (s : State) : Prop where
  symbols : s.symbols = []
  footprints : s.footprints = []
  datafiles : s.datafiles = []
  files : s.files.files = []

theorem State.Fresh.library {s : State} (h : s.Fresh) (env : Env) (P : Model → Text → Node → Prop) :
    Library env P s := by
  have hrows : ∀ model, s.rows model = [] := by
    intro model
    cases model with
    | symbol => exact h.symbols
    | footprint => exact h.footprints
    | datafile => exact h.datafiles
  refine ⟨?_, ?_, ?_, ?_, ?_⟩
  · intro place address data hread
    simp [ContentStore.read, h.files] at hread
  · intro model
    simp [hrows model]
  · intro model r hr
    simp [hrows model] at hr
  · intro r hr
    simp [h.datafiles] at hr
  · intro model _ r hr
    simp [hrows model] at hr

/-- The node has the name, and as a symbol comes from an entry one of the calls brought: each
unit that carried the entry's name there carries the name now. -/
def NamedFrom (calls : List (Ctx × Request)) (model : Model) (name : Text) (node : Node) : Prop :=
  Sexpr.entryName node = .ok name ∧ (model = .symbol →
    Sexpr.head node = some Sexpr.symbolRoot ∧ ∃ call ∈ calls, ∃ offeredName offered,
      Offers call.2 .symbol offeredName offered ∧ Sexpr.Follows offeredName offered name node)

theorem namedFrom_law {calls : List (Ctx × Request)} {call : Ctx × Request} (hcall : call ∈ calls)
    {agree : Prop} (hagree : agree) : RowLaw (Offers call.2) agree (NamedFrom calls) where
  filed {model name offeredName offered node} hoffers hnamed hhead hnode hname := by
    refine ⟨hname hagree, ?_⟩
    rintro rfl
    obtain ⟨root, hroot, heq⟩ := hhead
    obtain rfl := heq rfl
    obtain rfl | hrenamed := hnode
    · obtain rfl := Except.ok.inj (hnamed.symm.trans (hname hagree))
      exact ⟨hroot, call, hcall, offeredName, node, hoffers, Sexpr.Follows.refl _ _⟩
    · exact ⟨(Sexpr.head_rename hrenamed).trans hroot, call, hcall, offeredName, offered, hoffers,
        Sexpr.follows_rename hroot hnamed hrenamed⟩
  renamed {model name newName node renamed} h hrename := by
    refine ⟨Sexpr.entryName_rename hrename, ?_⟩
    intro hmodel
    obtain ⟨hroot, call', hcall', offeredName, offered, hoffers, hfollows⟩ := h.2 hmodel
    exact ⟨(Sexpr.head_rename hrename).trans hroot, call', hcall', offeredName, offered, hoffers,
      hfollows.trans (Sexpr.follows_rename hroot h.1 hrename)⟩

/-- In a run whose uploads that create a row create it under the name in the file, every
symbol and footprint row has the name in its stored file, and the units of a symbol follow. -/
theorem names_of_run {env : Env} (hsha : Function.Injective env.sha256) {s : State}
    (hs : s.Fresh) {calls : List (Ctx × Request)}
    (hcalls : Outcome.Meets (exec env) (NameAgrees env) s calls) :
    ∀ model ≠ .datafile, ∀ row ∈ (Outcome.run (exec env) s calls).rows model,
      ∃ node, storedNode (Outcome.run (exec env) s calls) model row = some node ∧
        Sexpr.entryName node = .ok row.name ∧
        (model = .symbol → ∃ call ∈ calls, ∃ offeredName offered,
          Offers call.2 .symbol offeredName offered ∧
          Sexpr.Follows offeredName offered row.name node) := by
  have hlibrary : Library env (NamedFrom calls) (Outcome.run (exec env) s calls) := by
    refine Outcome.run_invariant_of_meets ?_ (hs.library env _) hcalls.mem
    intro call m t hm hcall ht
    exact hm.steps hsha (namedFrom_law hcall.1 hcall.2) (exec_steps ht)
  intro model hmodel row hrow
  obtain ⟨node, hholds, hname, hsymbol⟩ := hlibrary.files model hmodel row hrow
  exact ⟨node, hholds.storedNode, hname, fun h => (hsymbol h).2⟩

def sampleEnv : Env where
  maxUploadBytes := 1000
  sha256 data := data.data.toList.map fun b => Char.ofNat b.toNat
  fold := id

theorem sampleEnv_injective : Function.Injective sampleEnv.sha256 := by
  have hbyte : ∀ b : UInt8, (Char.ofNat b.toNat).toNat = b.toNat := by
    intro b
    have hvalid : b.toNat.isValidChar := Or.inl (by have hlt := b.toNat_lt; omega)
    rw [Char.ofNat, dif_pos hvalid]
    simp [Char.ofNatAux, Char.toNat]
  intro a b hab
  have hlist : a.data.toList = b.data.toList := by
    refine List.map_injective_iff.mpr ?_ hab
    intro x y hxy
    apply UInt8.toNat_inj.mp
    rw [← hbyte x, ← hbyte y]
    exact congrArg Char.toNat hxy
  exact ByteArray.ext (Array.toList_inj.mp hlist)

def sampleState : State := ⟨[], [], [], [], [], ⟨[]⟩⟩

/-- A call in workspace 1 that draws its ids from `u` on. -/
def sampleCtx (u : Uuid) : Ctx := ⟨1, none, .member, fun _ => 0, fun path => u + path.length⟩

def sampleSymbol (name : Option FormName) : Request :=
  .uploadSymbol "(symbol \"A\" (symbol \"A_0_1\"))".toUTF8 name none

/-- An upload and a rename. -/
def sampleCalls : List (Ctx × Request) :=
  [(sampleCtx 7, sampleSymbol none),
    (sampleCtx 8, .patch .symbol 7 ⟨.set ⟨"B\r".toList, by decide⟩, .unset⟩)]

theorem names_of_run_sample :
    ∃ row ∈ (Outcome.run (exec sampleEnv) sampleState sampleCalls).rows .symbol, ∃ node,
      storedNode (Outcome.run (exec sampleEnv) sampleState sampleCalls) .symbol row = some node ∧
      Sexpr.entryName node = .ok row.name ∧
      ∃ call ∈ sampleCalls, ∃ offeredName offered, Offers call.2 .symbol offeredName offered ∧
        Sexpr.Follows offeredName offered row.name node := by
  have hrows : ((Outcome.run (exec sampleEnv) sampleState sampleCalls).rows .symbol).map (·.name) =
      ["B\r".toList] := by decide +kernel
  obtain ⟨row, hrow, _⟩ := List.mem_map.mp (hrows ▸ List.mem_singleton_self "B\r".toList)
  have hfresh : sampleState.Fresh := ⟨rfl, rfl, rfl, rfl⟩
  have hcalls : Outcome.Meets (exec sampleEnv) (NameAgrees sampleEnv) sampleState sampleCalls :=
    ⟨fun _ _ _ _ => rfl, trivial, trivial⟩
  obtain ⟨node, hnode, hname, hunits⟩ :=
    names_of_run sampleEnv_injective hfresh hcalls .symbol (by decide) row hrow
  exact ⟨row, hrow, node, hnode, hname, hunits rfl⟩

/-- The name in the row's file. -/
def fileName (s : State) (model : Model) (row : Entry) : Option Text :=
  (storedNode s model row).bind fun node => (Sexpr.entryName node).toOption

/-- An upload with another name in the form keeps the old name in the file. -/
theorem uploaded_name_differs :
    ∃ row ∈ (Outcome.run (exec sampleEnv) sampleState
        [(sampleCtx 7, sampleSymbol (some ⟨['B'], by decide⟩))]).rows .symbol,
      ¬ ∃ node, storedNode (Outcome.run (exec sampleEnv) sampleState
          [(sampleCtx 7, sampleSymbol (some ⟨['B'], by decide⟩))]) .symbol row = some node ∧
        Sexpr.entryName node = .ok row.name := by
  have hnames : ∃ row ∈ (Outcome.run (exec sampleEnv) sampleState
      [(sampleCtx 7, sampleSymbol (some ⟨['B'], by decide⟩))]).rows .symbol,
      fileName (Outcome.run (exec sampleEnv) sampleState
        [(sampleCtx 7, sampleSymbol (some ⟨['B'], by decide⟩))]) .symbol row ≠ some row.name := by
    decide +kernel
  obtain ⟨row, hrow, hne⟩ := hnames
  refine ⟨row, hrow, ?_⟩
  rintro ⟨node, hnode, hname⟩
  apply hne
  rw [fileName, hnode, Option.bind_some, hname]
  rfl

end StockManager.Eda
