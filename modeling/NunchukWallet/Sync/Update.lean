import NunchukWallet.Store.Address

/-!
# `UpdateTransactions`: a history from the server into the store

`ElectrumSynchronizer::UpdateTransactions` takes the history of one scripthash (entries
`{tx_hash, height, fee}`), stores every transaction of it that is not stored as CONFIRMED, and then
deletes, with a REPLACED notification, every stored pending receive transaction it does not hold
for current. It has two branches: the batch branch (the server takes batched requests) looks the
history up first, fetches the raw transactions in one request and falls back to single requests
for the ones the batch answer left out, and keeps what the batch answered; the sequential branch
fetches one by one and keeps what it processed. The overload with prefetched raw transactions runs
the batch branch on them.

* `Backend`          the answers of the server, fixed for a pass;
* `TxWorld`, `TxM`   what `UpdateTransactions` writes: the VTX table and the notifications;
                     writes persist when a later step throws;
* `storeFetched`     the write and notification shared by the branches;
* `batchBranch`, `sequentialBranch`, `updateTransactions`, `updateTransactionsPrefetched`;
* `SyncWorld`, `SyncM`, `liftTx`   the synchronizer's world, in which `UpdateTransactions` reads the
                     address map and writes only the VTX table and the notifications;
* `fallback_fetch_evicted`   one pending receive transaction that the batch answer leaves out and
                     the single request returns: the batch branch stores it and deletes it again,
                     the sequential branch keeps it;
* `empty_history_evicts_other_address`   the eviction compares the pending receive transactions of
                     the whole wallet with one address's history: an empty history deletes one
                     that pays another address, in every branch.
-/

namespace Nunchuk

/-- an entry of a scripthash history -/
structure HistoryItem where
  txHash : TxId
  height : Int
  fee : Option Amount := none
deriving DecidableEq, Repr

/-- Modelled from the spec: the answers of the chain-data client (the ChainDataClient contract of
§6; the Electrum client and `AddressToScriptHash` are not among the sources), fixed for a pass -/
structure Backend where
  /-- `support_batch_requests()` -/
  batch : Bool
  /-- `get_multi_rawtx(ids)`: the raw transactions answered, possibly not all of those asked -/
  multiRawtx : List TxId → Dict TxId Payload
  /-- `blockchain_transaction_get(id)`; `none` when the request throws -/
  transactionGet : TxId → Option Payload
  /-- `GetBlockTime` of the header at a height, as both header requests answer it -/
  blockTime : Int → Int
  /-- `AddressToScriptHash` -/
  scripthash : Address → String
  /-- the status a subscription to a scripthash answers, `""` for null -/
  status : String → String
  /-- the history of a scripthash, single or batched -/
  history : String → List HistoryItem

inductive SyncError where
  /-- a `StorageException` or a parse error of the store -/
  | store (e : StoreError)
  /-- a request to the server that throws -/
  | server
deriving DecidableEq, Repr

/-- what `UpdateTransactions` writes: the VTX table and the notifications (the calls of
`transaction_listener_`, in order) -/
structure TxWorld where
  vtx : Vtx
  notes : List (TxId × TransactionStatus)
deriving DecidableEq, Repr

/-- a step of `UpdateTransactions`: what it writes stays written when a later step throws -/
abbrev TxM := ExceptT SyncError (StateM TxWorld)

/-! ## what `UpdateTransactions` reads of the store -/

/-- Modelled from the spec: the status `GetTransactionFromStr` derives from the height (§3, §4.3;
the function is not among the sources): CONFIRMED above 0, PENDING_CONFIRMATION at 0, at -1
READY_TO_BROADCAST once `m` signers have signed and PENDING_SIGNATURES before. Below -1 is the
one state left, NETWORK_REJECTED. -/
def statusOfHeight (m : Nat) (tx : TxData) (height : Int) : TransactionStatus :=
  if 0 < height then .confirmed
  else if height = 0 then .pendingConfirmation
  else if height = -1 then
    if m ≤ (tx.signers.filter (·.2)).length then .readyToBroadcast else .pendingSignatures
  else .networkRejected

/-- the status `GetTransaction` reports for a row: `FillExtra` turns a pending row with
`replaced_by_txid` into REPLACED -/
def rowStatus (m : Nat) (r : VtxRow) : TransactionStatus :=
  let st := statusOfHeight m r.value.tx r.height
  match r.extra with
  | .dump j => if st = .pendingConfirmation ∧ j.replacedByTxid.isSome then .replaced else st
  | .empty => st

/-- `GetTransaction(chain, wallet_id, tx_id)`: the status, or `none` for TX_NOT_FOUND -/
def storedStatus (m : Nat) (v : Vtx) (txId : TxId) : Option TransactionStatus :=
  (v.get? txId).map (rowStatus m)

/-- `FillSendReceiveData`'s classification: a send when the previous output of an input is the
wallet's; a missing previous transaction reads as the default output `("", 0)` -/
def isReceive (all : AddressMap) (v : Vtx) (tx : TxData) : Bool :=
  !tx.inputs.any fun i =>
    let prev := ((v.get? i.txid).bind fun r => r.value.tx.outputs[i.vout]?).getD ⟨"", 0⟩
    isMyAddress all prev.address

/-- Modelled from the spec: `GetTransactions(chain, wallet_id, PENDING_CONFIRMATION, true)` (the
storage facade is not among the sources): the ids of the rows, in table order, whose status is
PENDING_CONFIRMATION and that `FillSendReceiveData` classifies as receive against the address
map `all` -/
def pendingReceiveTxs (m : Nat) (all : AddressMap) (v : Vtx) : List TxId :=
  (v.entries.filter fun e =>
    rowStatus m e.2 = .pendingConfirmation && isReceive all v e.2.value.tx).map (·.1)

/-! ## the writes -/

/-- a writer of the VTX table -/
def liftVtx {α : Type} (f : Vtx → Except StoreError (α × Vtx)) : TxM α := do
  let tw ← get
  match f tw.vtx with
  | .ok (a, v) =>
    set { tw with vtx := v }
    pure a
  | .error e => throw (.store e)

def notify (txId : TxId) (status : TransactionStatus) : TxM Unit :=
  modify fun tw => { tw with notes := tw.notes ++ [(txId, status)] }

def deleteTx (txId : TxId) : TxM Unit :=
  modify fun tw => { tw with vtx := (deleteTransaction txId tw.vtx).2 }

section
variable (m : Nat) (b : Backend) (ready : Bool) (all : AddressMap)

/-- the body both branches run for a fetched transaction: `UpdateTransaction` of a stored one or
`InsertTransaction` of a new one, at height 0 when unconfirmed, then the notification while READY -/
def storeFetched (item : HistoryItem) (raw : Payload) (found : Bool) : TxM Unit := do
  let time := if item.height ≤ 0 then 0 else b.blockTime item.height
  let fee := item.fee.getD 0
  let status : TransactionStatus := if item.height ≤ 0 then .pendingConfirmation else .confirmed
  let height := if item.height ≤ 0 then 0 else item.height
  if found then
    let _ ← liftVtx (updateTransaction raw height time "")
  else
    let _ ← liftVtx (insertTransaction raw height time fee "" (-1))
  if ready then notify item.txHash status

/-- the eviction loop: every pending receive transaction that `keep` rejects is deleted, with a
REPLACED notification -/
def evict (keep : TxId → Bool) : List TxId → TxM Unit
  | [] => pure ()
  | id :: ids => do
    if !keep id then
      deleteTx id
      notify id .replaced
    evict keep ids

/-- the first loop of the batch branch: the ids to fetch (not stored as CONFIRMED), and which of
them are stored (`founds`) -/
def batchScan (v : Vtx) :
    List HistoryItem → List TxId × Dict TxId Bool → List TxId × Dict TxId Bool
  | [], acc => acc
  | item :: items, (hs, founds) =>
    match storedStatus m v item.txHash with
    | some .confirmed => batchScan v items (hs, founds.set item.txHash true)
    | some _ => batchScan v items (hs ++ [item.txHash], founds.set item.txHash true)
    | none => batchScan v items (hs ++ [item.txHash], founds.set item.txHash false)

/-- the second loop of the batch branch: the answer of the batch request, else a single request;
a single request that throws marks the pass not synced -/
def batchLoop (hs : List TxId) (founds : Dict TxId Bool) (rawtx : Dict TxId Payload) :
    List HistoryItem → Bool → TxM Bool
  | [], synced => pure synced
  | item :: items, synced =>
    if hs.contains item.txHash then
      match rawtx.get? item.txHash <|> b.transactionGet item.txHash with
      | some raw => do
        storeFetched b ready item raw ((founds.get? item.txHash).getD false)
        batchLoop hs founds rawtx items synced
      | none => batchLoop hs founds rawtx items false
    else batchLoop hs founds rawtx items synced

/-- the batch branch on the raw transactions `rawtx` answered: eviction keeps their ids -/
def batchBranch (history : List HistoryItem) (rawtx : List TxId → Dict TxId Payload) :
    TxM Bool := do
  let (hs, founds) := batchScan m (← get).vtx history ([], Dict.empty)
  let answered := rawtx hs
  let synced ← batchLoop b ready hs founds answered history true
  evict (fun id => (answered.get? id).isSome) (pendingReceiveTxs m all (← get).vtx)
  pure synced

/-- the loop of the sequential branch: a lookup, then a single request that may throw; returns
the ids processed -/
def sequentialLoop : List HistoryItem → List TxId → TxM (List TxId)
  | [], hs => pure hs
  | item :: items, hs => do
    match storedStatus m (← get).vtx item.txHash with
    | some .confirmed => sequentialLoop items hs
    | st =>
      match b.transactionGet item.txHash with
      | none => throw .server
      | some raw =>
        storeFetched b ready item raw st.isSome
        sequentialLoop items (hs ++ [item.txHash])

/-- the sequential branch: eviction keeps the ids processed (`binary_search` over them sorted) -/
def sequentialBranch (history : List HistoryItem) : TxM Bool := do
  let hs ← sequentialLoop m b ready history []
  evict (fun id => hs.contains id) (pendingReceiveTxs m all (← get).vtx)
  pure true

/-- `UpdateTransactions(chain, wallet_id, history)`; `all` is the address map of
`GetAllAddressData`, which no step of it changes -/
def updateTransactions (history : List HistoryItem) : TxM Bool :=
  if b.batch then batchBranch m b ready all history b.multiRawtx
  else sequentialBranch m b ready all history

/-- `UpdateTransactions(chain, wallet_id, history, rawtx, rawheader)`: the batch branch on the
prefetched raw transactions, else the first overload -/
def updateTransactionsPrefetched (history : List HistoryItem) (rawtx : Dict TxId Payload) :
    TxM Bool :=
  if b.batch then batchBranch m b ready all history fun _ => rawtx
  else updateTransactions m b ready all history

end

/-! ## the synchronizer's world -/

structure SyncWorld where
  store : WalletStore
  /-- `scripthash_to_wallet_address_`, for the one wallet -/
  subscribed : Dict String Address
  /-- the calls of `transaction_listener_`, in order -/
  notes : List (TxId × TransactionStatus)
deriving DecidableEq, Repr

/-- a step of the synchronizer: what it writes stays written when a later step throws -/
abbrev SyncM := ExceptT SyncError (StateM SyncWorld)

/-- `UpdateTransactions` in the synchronizer: it reads the address map `GetAllAddressData`
returns, and writes the VTX table and the notifications only -/
def liftTx {α : Type} (w : WalletDescriptor) (x : AddressMap → TxM α) : SyncM α :=
  ExceptT.mk fun wd =>
    let r := (x (getAllAddressData w wd.store).1).run ⟨wd.store.vtx, wd.notes⟩
    (r.1, { wd with store := { wd.store with vtx := r.2.vtx }, notes := r.2.notes })

/-! ## the two branches on one history -/

/-- a transaction paying `r0` of `demoDescriptor` from outside the wallet -/
def receiveTx : TxData := { txid := "R", inputs := [⟨"F", 0⟩], outputs := [⟨"r0", 50000⟩] }

/-- a server that leaves `R` out of every batch answer and returns it to a single request -/
def flakyBackend (batch : Bool) : Backend :=
  ⟨batch, fun _ => Dict.empty, fun id => if id = "R" then some (.rawTx receiveTx) else none,
    fun _ => 0, id, fun _ => "", fun _ => []⟩

/-- an empty store with its cache filled -/
def emptyWorld : SyncWorld :=
  ⟨(getAllAddressData demoDescriptor ⟨Dict.empty, Dict.empty, none⟩).2, Dict.empty, []⟩

/-- the history `[R at height 0]`: the batch branch inserts `R` from the single request, then
deletes it with a REPLACED notification; the sequential branch keeps it -/
theorem fallback_fetch_evicted :
    (liftTx demoDescriptor (updateTransactions 1 (flakyBackend true) true · [⟨"R", 0, none⟩])
      |>.run emptyWorld).2.store.vtx.get? "R" = none ∧
    (liftTx demoDescriptor (updateTransactions 1 (flakyBackend true) true · [⟨"R", 0, none⟩])
      |>.run emptyWorld).2.notes = [("R", .pendingConfirmation), ("R", .replaced)] ∧
    ((liftTx demoDescriptor (updateTransactions 1 (flakyBackend false) true · [⟨"R", 0, none⟩])
      |>.run emptyWorld).2.store.vtx.get? "R").isSome ∧
    (liftTx demoDescriptor (updateTransactions 1 (flakyBackend false) true · [⟨"R", 0, none⟩])
      |>.run emptyWorld).2.notes = [("R", .pendingConfirmation)] := by
  decide

/-- a store holding `R`, received on `r0` and pending -/
def pendingWorld : SyncWorld :=
  { emptyWorld with
    store := { emptyWorld.store with vtx := ⟨[("R", ⟨.rawTx receiveTx, 0, 0, "", -1, 0, .empty⟩)]⟩ } }

/-- the empty history of `r1` deletes `R`, which pays `r0`, in the batch branch, the sequential
branch and the overload with prefetched raw transactions -/
theorem empty_history_evicts_other_address :
    (∀ batch, (liftTx demoDescriptor (updateTransactions 1 (flakyBackend batch) true · [])
      |>.run pendingWorld).2.store.vtx.get? "R" = none) ∧
    (liftTx demoDescriptor (updateTransactionsPrefetched 1 (flakyBackend true) true · [] Dict.empty)
      |>.run pendingWorld).2.store.vtx.get? "R" = none := by
  decide

end Nunchuk
