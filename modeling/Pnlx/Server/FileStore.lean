import Pnlx.Server.Snapshot

/-!
# The store in a file

`FileProtocolStore` writes its collections to a file after every operation and reads them when it
is created. It has its own lists of the collections.
-/

namespace Pnlx.Server

open BatchMatch (Text)
open JsValue (jsonStringify jsonParse)

/-- The properties of the object that `save` writes. -/
def fileSavedFields : List SnapshotField :=
  [.map .accountEvents, .map .accountEncryptionKeys, .map .conditionalCloses,
    .map .conditionalOrders, .map .disclosures, .map .fundingUpdates,
    .map .liquidationAutomationJobs, .map .batchExecutionRuns, .map .intents, .map .liquidations,
    .set .marginCommitments, .map .markets, .map .marketSettlementVolumes, .map .orderLifecycle,
    .map .pendingAssetDeposits, .map .positionCloses, .set .positionCommitments,
    .map .positionLifecycle, .map .privateMatchIntents, .set .proofs, .map .residualOrders,
    .map .settlements, .set .spentNullifiers, .map .withdrawals]

/-- The collections that `load` clears. -/
def fileClearedFields : List SnapshotField :=
  [.set .marginCommitments, .set .positionCommitments, .set .spentNullifiers, .map .intents,
    .map .residualOrders, .map .orderLifecycle, .map .positionLifecycle, .map .markets,
    .map .settlements, .map .marketSettlementVolumes, .map .liquidations, .map .conditionalOrders,
    .map .conditionalCloses, .map .positionCloses, .map .disclosures, .map .fundingUpdates,
    .map .liquidationAutomationJobs, .map .batchExecutionRuns, .map .withdrawals, .set .proofs,
    .map .accountEvents, .map .accountEncryptionKeys, .map .pendingAssetDeposits,
    .map .privateMatchIntents]

/-- The collections that `load` reads before the volumes are filled in. -/
def fileLoadedFields : List SnapshotField :=
  [.map .accountEvents, .map .accountEncryptionKeys, .map .pendingAssetDeposits,
    .set .marginCommitments, .set .positionCommitments, .set .spentNullifiers, .map .intents,
    .map .residualOrders, .map .privateMatchIntents, .map .orderLifecycle, .map .positionLifecycle,
    .map .markets, .map .marketSettlementVolumes, .map .settlements, .map .liquidations,
    .map .conditionalOrders, .map .conditionalCloses, .map .positionCloses, .map .disclosures,
    .map .fundingUpdates, .map .liquidationAutomationJobs, .map .batchExecutionRuns]

/-- The collections that `load` reads afterwards. -/
def fileLoadedLastFields : List SnapshotField := [.map .withdrawals, .set .proofs]

/-- The collections that a file may lack. -/
def fileOptionalFields : List SnapshotField :=
  [.map .accountEvents, .map .accountEncryptionKeys, .map .pendingAssetDeposits,
    .map .residualOrders, .map .privateMatchIntents, .map .orderLifecycle, .map .positionLifecycle,
    .map .marketSettlementVolumes, .map .fundingUpdates, .map .liquidationAutomationJobs,
    .map .batchExecutionRuns]

/-- The text of the file: `JSON.stringify(snapshot, bigintReplacer, 2)`. -/
def fileSave (store : StoreTables) : Text :=
  jsonStringify [' ', ' '] (store.snapshotOf fileSavedFields)

/-- The store that is created on the file. -/
def fileLoad (raw : Text) : Option StoreTables :=
  (jsonParse raw).bind (StoreTables.empty.loadAll fileOptionalFields fileClearedFields
    fileLoadedFields fileLoadedLastFields)

end Pnlx.Server
