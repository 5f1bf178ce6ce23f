import StockManager.Model.DbSessions

/-! # Catalog tokens (api/routes/workspaces.py)

`patch_current`, `create_catalog_token` and `revoke_catalog_token` statement by
statement. The session does not flush before it reads (`autoflush=False`): the rows
are written, and locked, when the request ends. -/

namespace StockManager.Catalog

open Transactions

/-- The route that minted or revoked a token. No column says it. -/
inductive Route
  | patchCurrent | catalogTokens | migration
  deriving DecidableEq

structure WorkspaceCatalogToken where
  id : Uuid
  workspaceId : Uuid
  tokenHmac : String
  label : String
  revokedAt : Option Timestamp
  mintedBy : Route
  revokedBy : Option Route
  deriving DecidableEq

structure Workspace where
  id : Uuid
  catalogEnabled : Bool
  catalogToken : Option String
  catalogTokenHash : Option String
  deriving DecidableEq

/-- One workspace and the catalog tokens of all. -/
structure State where
  workspace : Workspace
  tokens : List WorkspaceCatalogToken
  deriving DecidableEq

inductive Refusal
  | tokenNotFound | notNull | primaryKey | activeHmac
  deriving DecidableEq

inductive Lock
  | workspace | token (id : Uuid) | activeHmac (workspaceId : Uuid) (hmac : String)
  deriving DecidableEq

abbrev CatalogTx : Type := Tx State Lock Refusal (State → Bool)

/-- `Field(min_length=1, max_length=120)` -/
abbrev Label : Type := { label : String // 1 ≤ label.length ∧ label.length ≤ 120 }

/-- A field left out of the payload is `none`, an explicit null `some none`. -/
structure WorkspacePatch where
  catalogEnabled : Option (Option Bool)
  regenerateCatalogToken : Option Bool

/-- What a request draws: the time, the new row's key, and a secret. -/
structure Draws where
  now : Timestamp
  newId : Uuid
  plaintext : String

def defaultLabels : List String := ["default", "default (legacy)"]

/-- The unrevoked tokens that a mint is to replace -/
def existingDefaults (s : State) : List Uuid :=
  (s.tokens.filter fun t => t.workspaceId = s.workspace.id ∧ t.revokedAt = none ∧ t.label ∈ defaultLabels).map (·.id)

def revoked (ids : List Uuid) (now : Timestamp) (route : Route) (t : WorkspaceCatalogToken) :
    WorkspaceCatalogToken :=
  if t.id ∈ ids then { t with revokedAt := some now, revokedBy := some route } else t

def revoke (ids : List Uuid) (now : Timestamp) (route : Route) (s : State) : State :=
  { s with tokens := s.tokens.map (revoked ids now route) }

/-- The primary key and `uq_catalog_tokens_ws_hmac_active` -/
def insertable (row : WorkspaceCatalogToken) (s : State) : Except Refusal Unit := do
  if s.tokens.any fun t => t.id = row.id then throw .primaryKey
  if s.tokens.any fun t => t.workspaceId = row.workspaceId ∧ t.tokenHmac = row.tokenHmac ∧ t.revokedAt = none then
    throw .activeHmac

def State.addToken (row : WorkspaceCatalogToken) (s : State) : State := { s with tokens := s.tokens ++ [row] }

def insertToken (row : WorkspaceCatalogToken) : Tx State Lock Refusal Unit := do
  Tx.take (.token row.id)
  Tx.take (.activeHmac row.workspaceId row.tokenHmac)
  Tx.ask (insertable row)
  Tx.put (State.addToken row)

def State.updateWorkspace (f : Workspace → Workspace) (s : State) : State := { s with workspace := f s.workspace }

/-- The tokens that `PATCH /current` has minted so far -/
def patchMinted (s : State) : List Uuid := (s.tokens.filter (·.mintedBy = .patchCurrent)).map (·.id)

def mints (ws : Workspace) (payload : WorkspacePatch) (enabled : Bool) : Bool :=
  enabled && (payload.regenerateCatalogToken.getD false || (ws.catalogTokenHash.getD "" = "") || !ws.catalogEnabled)

/-- It ends relying on no other mint since it looked for the tokens to replace. -/
def patchCurrent (hmac : String → String) (draws : Draws) (payload : WorkspacePatch) : CatalogTx := do
  let ws := (← Tx.read).workspace
  let enabled ← Tx.orRaise (payload.catalogEnabled.getD (some ws.catalogEnabled)) .notNull
  if mints ws payload enabled then
    let db ← Tx.read
    let existing := existingDefaults db
    Tx.take .workspace
    Tx.put (State.updateWorkspace fun row => { row with
      catalogEnabled := written ws.catalogEnabled enabled row.catalogEnabled
      catalogToken := some draws.plaintext
      catalogTokenHash := some (hmac draws.plaintext) })
    Tx.takeAll (existing.map .token)
    Tx.put (revoke existing draws.now .patchCurrent)
    insertToken ⟨draws.newId, ws.id, hmac draws.plaintext, "default", none, .patchCurrent, none⟩
    return fun s => patchMinted s = patchMinted db
  else if enabled ≠ ws.catalogEnabled then
    Tx.take .workspace
    Tx.put (State.updateWorkspace fun row => { row with catalogEnabled := enabled })
    return fun _ => true
  else
    return fun _ => true

/-- It ends relying on a label that is not a default one. -/
def createCatalogToken (hmac : String → String) (draws : Draws) (label : Label) : CatalogTx := do
  let ws := (← Tx.read).workspace
  insertToken ⟨draws.newId, ws.id, hmac draws.plaintext, label.val, none, .catalogTokens, none⟩
  return fun _ => label.val ∉ defaultLabels

def revokeCatalogToken (draws : Draws) (tokenId : Uuid) : CatalogTx := do
  let db ← Tx.read
  let t ← Tx.orRaise (db.tokens.find? fun t => t.id = tokenId ∧ t.workspaceId = db.workspace.id) .tokenNotFound
  Tx.check (t.revokedAt = none) .tokenNotFound
  Tx.take (.token t.id)
  Tx.put (revoke [t.id] draws.now .catalogTokens)
  return fun _ => true

inductive Request
  | patchCurrent (payload : WorkspacePatch)
  | createCatalogToken (label : Label)
  | revokeCatalogToken (tokenId : Uuid)

def Request.tx (hmac : String → String) (draws : Draws) : Request → CatalogTx
  | .patchCurrent payload => Catalog.patchCurrent hmac draws payload
  | .createCatalogToken label => Catalog.createCatalogToken hmac draws label
  | .revokeCatalogToken tokenId => Catalog.revokeCatalogToken draws tokenId

end StockManager.Catalog
