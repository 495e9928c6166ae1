import NunchukWallet.Basic

/-!
# The VTX table and its writers

The transaction table of `NunchukWalletDb`: one row per txid with the payload (VALUE), HEIGHT,
FEE, MEMO, CHANGEPOS, BLOCKTIME and the EXTRA side channel, and the operations that write it.

* `Payload`        VALUE: a raw transaction or a PSBT, decoded; `DecodeRawTransaction` and
                   `DecodePsbt` throw on the other kind;
* `ExtraText`      EXTRA: the empty string (what `InsertTransaction` writes) or the `dump()` of a
                   JSON object (every other writer); `json::parse` throws on the empty string;
* `insertTransaction`, `createPsbt`, `updatePsbt`, `updatePsbtTxId`, `updateTransaction`
  (with `setReplacedBy`), `updateTransactionMemo`, `updateTransactionSchedule`,
  `deleteTransaction`   the writers, each `Except StoreError` over the table;
* `VtxOp`, `runVtxOps`   a sequence of writer calls from a table.

A writer that throws has written nothing: every throw of these functions comes before their
first statement that writes.
-/

namespace Nunchuk

/-- what decoding a payload gives: the txid (`GetHash()`, a function of the payload), the inputs
and outputs, and the signer map `GetTransactionFromStr` reads from it -/
structure TxData where
  txid : TxId
  inputs : List TxInput := []
  outputs : List TxOutput := []
  signers : List (String × Bool) := []
deriving DecidableEq, Repr

/-- the VALUE column -/
inductive Payload where
  | rawTx (tx : TxData)
  | psbt (tx : TxData)
deriving DecidableEq, Repr

def Payload.tx : Payload → TxData
  | .rawTx tx => tx
  | .psbt tx => tx

/-- the JSON object of EXTRA, one optional field per key the code reads or writes -/
structure ExtraJson where
  signers : Option (List (String × Bool)) := none
  outputs : Option (List (Address × Amount)) := none
  feeRate : Option Amount := none
  subtract : Option Bool := none
  replaceTxid : Option TxId := none
  scheduleTime : Option Int := none
  rejectMsg : Option String := none
  replacedByTxid : Option TxId := none
deriving DecidableEq, Repr

/-- the EXTRA column -/
inductive ExtraText where
  /-- `''` -/
  | empty
  /-- `extra_json.dump()` -/
  | dump (j : ExtraJson)
deriving DecidableEq, Repr

inductive StoreError where
  /-- `StorageException::TX_NOT_FOUND` with its message -/
  | txNotFound (msg : String)
  /-- `json::parse` on a text that is not JSON -/
  | parseError
  /-- `DecodeRawTransaction` or `DecodePsbt` on a payload of the other kind -/
  | invalidPayload
  /-- a statement that failed, here an `INSERT` into a taken key (`StorageConflict`) -/
  | storageConflict
  /-- `StorageException::TAG_EXISTS` with its message -/
  | tagExists (msg : String)
  /-- `StorageException::COLLECTION_EXISTS` with its message -/
  | collectionExists (msg : String)
  /-- `json::type_error`: a JSON value read as a number, a string or a boolean it is not, or
  indexed by a key when it is neither null nor an object -/
  | typeError
deriving DecidableEq, Repr

/-- `json::parse(extra)` -/
def ExtraText.parse : ExtraText → Except StoreError ExtraJson
  | .empty => .error .parseError
  | .dump j => .ok j

def decodeRawTransaction : Payload → Except StoreError TxData
  | .rawTx tx => .ok tx
  | .psbt _ => .error .invalidPayload

def decodePsbt : Payload → Except StoreError TxData
  | .psbt tx => .ok tx
  | .rawTx _ => .error .invalidPayload

theorem decodeRawTransaction_eq_ok {p : Payload} {tx : TxData} :
    decodeRawTransaction p = .ok tx ↔ p = .rawTx tx := by
  cases p <;> simp [decodeRawTransaction]

theorem decodePsbt_eq_ok {p : Payload} {tx : TxData} : decodePsbt p = .ok tx ↔ p = .psbt tx := by
  cases p <;> simp [decodePsbt]

/-- a `do` block over `Except` that succeeds ran its first step to success -/
theorem except_bind_eq_ok {ε α β : Type} {x : Except ε α} {f : α → Except ε β} {b : β}
    (h : x >>= f = .ok b) : ∃ a, x = .ok a ∧ f a = .ok b := by
  cases x with
  | error e => cases h
  | ok a => exact ⟨a, rfl, h⟩

structure VtxRow where
  value : Payload
  height : Int
  fee : Amount
  memo : String
  changePos : Int
  blocktime : Int
  extra : ExtraText
deriving DecidableEq, Repr

/-- the VTX table, rows in insertion order (what `SELECT *` returns) -/
abbrev Vtx := Dict TxId VtxRow

/-! ## the writers -/

/-- `InsertTransaction`: insert, or on conflict overwrite VALUE and HEIGHT only; returns the
txid whose row `GetTransaction` reads back -/
def insertTransaction (rawTx : Payload) (height blocktime : Int) (fee : Amount) (memo : String)
    (changePos : Int) (s : Vtx) : Except StoreError (TxId × Vtx) := do
  let tx ← decodeRawTransaction rawTx
  pure (tx.txid, s.upsert tx.txid ⟨rawTx, height, fee, memo, changePos, blocktime, .empty⟩
    fun r => { r with value := rawTx, height := height })

/-- `SetReplacedBy`: `replaced_by_txid` into the EXTRA of the old row, if there is one -/
def setReplacedBy (oldTxid newTxid : TxId) (s : Vtx) : Except StoreError Vtx :=
  match s.get? oldTxid with
  | none => .ok s
  | some r => do
    let j ← r.extra.parse
    pure (s.modify oldTxid fun r => { r with extra := .dump { j with replacedByTxid := newTxid } })

/-- the EXTRA of the row `txId` if it is at height -1 (`... WHERE ID = ? AND HEIGHT = -1`) -/
def unbroadcastRow (s : Vtx) (txId : TxId) : Option VtxRow :=
  match s.get? txId with
  | some r => if r.height = -1 then some r else none
  | none => none

theorem unbroadcastRow_eq_some {s : Vtx} {txId : TxId} {r : VtxRow} :
    unbroadcastRow s txId = some r ↔ s.get? txId = some r ∧ r.height = -1 := by
  unfold unbroadcastRow
  cases s.get? txId with
  | none => simp
  | some r' => by_cases h : r'.height = -1 <;> simp [h] <;> aesop

/-- `UpdateTransaction`, first branch (`height == -1`): the row must be unbroadcast; its EXTRA
gets the signer map of the new payload -/
def updateUnbroadcast (rawTx : Payload) (s : Vtx) : Except StoreError (Bool × Vtx) := do
  let tx := rawTx.tx
  match unbroadcastRow s tx.txid with
  | none => .error (.txNotFound "Tx not found!")
  | some r =>
    let j ← r.extra.parse
    let extra := ExtraText.dump { j with signers := tx.signers }
    pure (true, s.modify tx.txid fun r => { r with value := rawTx, extra := extra })

/-- the block of `UpdateTransaction` under `height <= 0` ("persist signers to extra if the psbt
existed"): a row of the txid at height -1 hands its signer map and the rejection message to the
EXTRA to write, and its `replace_txid` gets `SetReplacedBy` -/
def persistSigners (txId : TxId) (rejectMsg : String) (s : Vtx) :
    Except StoreError (Option ExtraJson × Vtx) :=
  match unbroadcastRow s txId with
  | none => pure (none, s)
  | some r => do
    let j ← r.extra.parse
    let j := { j with signers := r.value.tx.signers }
    let j := if rejectMsg = "" then j else { j with rejectMsg := rejectMsg }
    match j.replaceTxid with
    | some old => do
      let s ← setReplacedBy old txId s
      pure (some j, s)
    | none => pure (some j, s)

/-- `UpdateTransaction`, second branch: the row takes the raw transaction, height and block time,
and the EXTRA of `persistSigners` if there is one -/
def updateBroadcast (rawTx : Payload) (height blocktime : Int) (rejectMsg : String) (s : Vtx) :
    Except StoreError (Bool × Vtx) := do
  let mtx ← decodeRawTransaction rawTx
  let txId := mtx.txid
  let (extra, s) ← (if height ≤ 0 then persistSigners txId rejectMsg s else pure (none, s) :
    Except StoreError (Option ExtraJson × Vtx))
  let updated := (s.get? txId).isSome
  pure (updated, s.modify txId fun r =>
    match extra with
    | some j =>
      { r with value := rawTx, height := height, blocktime := blocktime, extra := .dump j }
    | none => { r with value := rawTx, height := height, blocktime := blocktime })

/-- `UpdateTransaction(raw_tx, height, blocktime, reject_msg)` -/
def updateTransaction (rawTx : Payload) (height blocktime : Int) (rejectMsg : String) (s : Vtx) :
    Except StoreError (Bool × Vtx) :=
  if height = -1 then updateUnbroadcast rawTx s
  else updateBroadcast rawTx height blocktime rejectMsg s

/-- `UpdateTransactionMemo` -/
def updateTransactionMemo (txId : TxId) (memo : String) (s : Vtx) : Bool × Vtx :=
  ((s.get? txId).isSome, s.modify txId fun r => { r with memo := memo })

/-- `UpdateTransactionSchedule`: an empty EXTRA reads as an empty object -/
def updateTransactionSchedule (txId : TxId) (value : Int) (s : Vtx) :
    Except StoreError (Bool × Vtx) :=
  match s.get? txId with
  | none => .ok (false, s)
  | some r => do
    let j ← (match r.extra with
      | .empty => pure {}
      | e => e.parse : Except StoreError ExtraJson)
    pure (true, s.modify txId fun r => { r with extra := .dump { j with scheduleTime := value } })

/-- `CreatePsbt`: insert at height -1 with the side channel, or on conflict overwrite VALUE and
HEIGHT only -/
def createPsbt (psbt : Payload) (fee : Amount) (memo : String) (changePos : Int)
    (outputs : List (Address × Amount)) (feeRate : Amount) (subtractFeeFromAmount : Bool)
    (replaceTx : TxId) (s : Vtx) : Except StoreError (TxId × Vtx) := do
  let tx ← decodePsbt psbt
  let extra : ExtraJson :=
    { outputs := outputs, feeRate := feeRate, subtract := subtractFeeFromAmount,
      replaceTxid := if replaceTx = "" then none else some replaceTx }
  pure (tx.txid, s.upsert tx.txid ⟨psbt, -1, fee, memo, changePos, 0, .dump extra⟩
    fun r => { r with value := psbt, height := -1 })

/-- `UpdatePsbt`: only a row still at height -1 takes the new PSBT -/
def updatePsbt (psbt : Payload) (s : Vtx) : Except StoreError (Bool × Vtx) := do
  let tx ← decodePsbt psbt
  match unbroadcastRow s tx.txid with
  | none => pure (false, s)
  | some _ => pure (true, s.modify tx.txid fun r => { r with value := psbt })

/-- `DeleteTransaction` -/
def deleteTransaction (txId : TxId) (s : Vtx) : Bool × Vtx :=
  ((s.get? txId).isSome, s.erase txId)

/-- Modelled from the spec: an `INSERT` without a conflict clause into a taken key fails, and
`SQLCHECK` (in storage/common.h, not among the sources) throws on the failed statement, a
`StorageConflict` of §7 -/
def insertFresh (s : Vtx) (k : TxId) (r : VtxRow) : Except StoreError Vtx :=
  if (s.get? k).isSome then .error .storageConflict else .ok (s.insertNew k r)

/-- `UpdatePsbtTxId`: the unbroadcast row of `oldId` is copied under `newId`, then deleted. The
copy re-reads VALUE, MEMO and EXTRA as C strings: MEMO is cut at its first NUL (VALUE, an encoded
PSBT, and EXTRA, a JSON dump, hold none) -/
def updatePsbtTxId (oldId newId : TxId) (s : Vtx) : Except StoreError (Bool × Vtx) :=
  match unbroadcastRow s oldId with
  | none => .error (.txNotFound "Old tx not found!")
  | some r => do
    let s ← insertFresh s newId { r with height := -1, blocktime := 0, memo := columnText r.memo }
    pure (deleteTransaction oldId s)

/-! ## sequences of writer calls -/

/-- one call of a writer of the table -/
inductive VtxOp where
  | insertTransaction (rawTx : Payload) (height blocktime : Int) (fee : Amount) (memo : String)
      (changePos : Int)
  | createPsbt (psbt : Payload) (fee : Amount) (memo : String) (changePos : Int)
      (outputs : List (Address × Amount)) (feeRate : Amount) (subtract : Bool) (replaceTx : TxId)
  | updatePsbt (psbt : Payload)
  | updatePsbtTxId (oldId newId : TxId)
  | updateTransaction (rawTx : Payload) (height blocktime : Int) (rejectMsg : String)
  | updateTransactionMemo (txId : TxId) (memo : String)
  | updateTransactionSchedule (txId : TxId) (value : Int)
  | deleteTransaction (txId : TxId)
deriving DecidableEq, Repr

/-- the table after one call, or what the call throws -/
def VtxOp.run (s : Vtx) : VtxOp → Except StoreError Vtx
  | .insertTransaction r h b f m c => (·.2) <$> Nunchuk.insertTransaction r h b f m c s
  | .createPsbt p f m c o r sub rep => (·.2) <$> Nunchuk.createPsbt p f m c o r sub rep s
  | .updatePsbt p => (·.2) <$> Nunchuk.updatePsbt p s
  | .updatePsbtTxId o n => (·.2) <$> Nunchuk.updatePsbtTxId o n s
  | .updateTransaction r h b m => (·.2) <$> Nunchuk.updateTransaction r h b m s
  | .updateTransactionMemo t m => .ok (Nunchuk.updateTransactionMemo t m s).2
  | .updateTransactionSchedule t v => (·.2) <$> Nunchuk.updateTransactionSchedule t v s
  | .deleteTransaction t => .ok (Nunchuk.deleteTransaction t s).2

/-- the calls one after the other, stopping at the first that throws -/
def runVtxOps (s : Vtx) : List VtxOp → Except StoreError Vtx
  | [] => .ok s
  | op :: ops => (op.run s).bind fun s' => runVtxOps s' ops

end Nunchuk
