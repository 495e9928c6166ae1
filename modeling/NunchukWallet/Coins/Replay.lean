import NunchukWallet.Basic

/-!
# `GetCoinsFromTransactions`: the coin view replayed from the transaction list

`NunchukWalletDb::GetCoinsFromTransactions` derives every coin of the wallet from the stored
transactions in two loops.

* `pass1`              the first loop: `tx_map` (first transaction of each txid) and `used_by`
                       (for every coin, the txid of the last CONFIRMED-height transaction
                       spending it);
* `replayTx`           one round of the second loop: a REPLACED or NETWORK_REJECTED
                       transaction, or one with an input that `used_by` gives to another txid,
                       is skipped; otherwise `spendInputs` raises the status of every owned coin
                       it spends and `receiveOutputs` writes every owned output;
* `getCoinsFromTransactions`   the second loop, `none` when an input reads past the outputs of
                       the transaction it names (undefined behaviour in the source);
* `getBalance`         `GetBalance` over the coins.

Both sides of the replay write a coin through `writeCoin`: the fields of the transaction that
created the output, and the status raised (`raiseStatus`, never lowered).
-/

namespace Nunchuk

abbrev CoinMap := Dict CoinKey UnspentOutput

/-! ## the first loop -/

/-- the maps of the first loop -/
structure Pass1 where
  txMap : TxId → Option Transaction
  usedBy : CoinKey → Option TxId

def Pass1.init : Pass1 := ⟨fun _ => none, fun _ => none⟩

/-- `used_by[CoinId(input)] = txid` for every input -/
def markUsed (txId : TxId) (u : CoinKey → Option TxId) : List TxInput → CoinKey → Option TxId
  | [] => u
  | i :: is => markUsed txId (Function.update u i.key (some txId)) is

/-- one round of the first loop: `tx_map.insert` keeps an existing entry; only a transaction of
positive height marks its inputs -/
def pass1Step (p : Pass1) (tx : Transaction) : Pass1 where
  txMap := if (p.txMap tx.txid).isSome then p.txMap else Function.update p.txMap tx.txid (some tx)
  usedBy := if tx.height ≤ 0 then p.usedBy else markUsed tx.txid p.usedBy tx.inputs

def pass1 (txs : List Transaction) : Pass1 := txs.foldl pass1Step Pass1.init

/-- `invalid`: an input is in `used_by` under another txid -/
def Pass1.claimedByOther (p : Pass1) (tx : Transaction) : Bool :=
  tx.inputs.any fun i =>
    match p.usedBy i.key with
    | some t => t != tx.txid
    | none => false

/-! ## the second loop -/

/-- `set_status`: a coin's status only rises -/
def raiseStatus (cur s : CoinStatus) : CoinStatus := if cur.toNat < s.toNat then s else cur

/-- `set_status` when the side has a status to give, nothing otherwise -/
def raiseStatusBy : Option CoinStatus → CoinStatus → CoinStatus
  | some s, cur => raiseStatus cur s
  | none, cur => cur

/-- the status a spending transaction gives the coins it spends -/
def spendStatus : TransactionStatus → Option CoinStatus
  | .confirmed => some .spent
  | .pendingConfirmation => some .outgoingPendingConfirmation
  | .readyToBroadcast => some .outgoingPendingBroadcast
  | .pendingSignatures => some .outgoingPendingSignatures
  | _ => none

/-- the status a transaction gives the coins it creates -/
def receiveStatus (tx : Transaction) : CoinStatus :=
  if 0 < tx.height then .confirmed else .incomingPendingConfirmation

/-- the writes of either side of the replay to the coin `k`, output `out` of `src`: the fields
of `src` and `out`, the status raised by `s` -/
def writeCoin (all : AddressMap) (k : CoinKey) (src : Transaction) (out : TxOutput)
    (s : Option CoinStatus) (c : UnspentOutput) : UnspentOutput :=
  { c with
    txid := k.1, vout := k.2, address := out.address, amount := out.amount,
    height := src.height, blocktime := src.blocktime, scheduleTime := src.scheduleTime,
    status := raiseStatusBy s c.status, memo := src.memo, change := isMyChange all out.address }

section
variable (all : AddressMap) (p : Pass1)

/-- the first inner loop of a replayed transaction `tx`: the coins it spends -/
def spendInputs (tx : Transaction) (coins : CoinMap) : List TxInput → Option CoinMap
  | [] => some coins
  | i :: is =>
    match p.txMap i.txid with
    | none => spendInputs tx coins is
    | some prev =>
      match prev.outputs[i.vout]? with
      | none => none
      | some out =>
        if isMyAddress all out.address then
          spendInputs tx (coins.upsert i.key .empty (writeCoin all i.key prev out
            (spendStatus tx.status))) is
        else spendInputs tx coins is

/-- the second inner loop of a replayed transaction `tx`: its outputs, from position `vout` -/
def receiveOutputs (tx : Transaction) : Nat → List TxOutput → CoinMap → CoinMap
  | _, [], coins => coins
  | vout, out :: outs, coins =>
    receiveOutputs tx (vout + 1) outs
      (if isMyAddress all out.address then
        coins.upsert (coinId tx.txid vout) .empty
          (writeCoin all (coinId tx.txid vout) tx out (some (receiveStatus tx)))
      else coins)

/-- `tx` is replayed: not REPLACED, not NETWORK_REJECTED, no input claimed by another txid -/
def replayed (tx : Transaction) : Bool :=
  tx.status != .replaced && tx.status != .networkRejected && !p.claimedByOther tx

/-- one round of the second loop -/
def replayTx (coins : CoinMap) (tx : Transaction) : Option CoinMap :=
  if replayed p tx then (spendInputs all p tx coins tx.inputs).map
    (receiveOutputs all tx 0 tx.outputs)
  else some coins

end

/-- `GetCoinsFromTransactions` -/
def getCoinsFromTransactions (all : AddressMap) (txs : List Transaction) : Option CoinMap :=
  txs.foldlM (replayTx all (pass1 txs)) Dict.empty

/-! ## balance -/

/-- the filter of `GetBalance`: SPENT and OUTGOING_PENDING_CONFIRMATION coins never count;
without the mempool, neither does an unconfirmed incoming coin that is not change -/
def countedByBalance (includeMempool : Bool) (c : UnspentOutput) : Bool :=
  !(c.status == .spent || c.status == .outgoingPendingConfirmation) &&
    !(!includeMempool && !c.change && c.status == .incomingPendingConfirmation)

/-- the loop of `GetBalance` over the coins -/
def sumBalance (includeMempool : Bool) : List UnspentOutput → Amount
  | [] => 0
  | c :: cs => (if countedByBalance includeMempool c then c.amount else 0) +
      sumBalance includeMempool cs

/-- `GetCoins`: the values of the coin map -/
def getCoins (all : AddressMap) (txs : List Transaction) : Option (List UnspentOutput) :=
  (getCoinsFromTransactions all txs).map Dict.values

/-- `GetBalance(include_mempool)` -/
def getBalance (all : AddressMap) (includeMempool : Bool) (txs : List Transaction) :
    Option Amount :=
  (getCoins all txs).map (sumBalance includeMempool)

/-! ## a wallet for the concrete cases -/

/-- the external addresses `ext0`, `ext1` and the change address `chg0` -/
def demoAddresses : AddressMap :=
  ⟨[("ext0", ⟨"ext0", 0, false, false⟩), ("ext1", ⟨"ext1", 1, false, false⟩),
    ("chg0", ⟨"chg0", 0, true, false⟩)]⟩

/-- a confirmed transaction paying 1000 to `ext0` -/
def fundingTx : Transaction :=
  { txid := "f", height := 100, outputs := [⟨"ext0", 1000⟩], status := .confirmed }

/-- a spend of `f:0` paying `ext1` -/
def spendA : Transaction :=
  { txid := "a", height := 0, inputs := [⟨"f", 0⟩], outputs := [⟨"ext1", 900⟩] }

/-- another spend of `f:0`, paying `chg0` -/
def spendB : Transaction :=
  { txid := "b", height := 0, inputs := [⟨"f", 0⟩], outputs := [⟨"chg0", 800⟩] }

/-- `spendB` once confirmed -/
def spendBConfirmed : Transaction :=
  { spendB with height := 101, status := .confirmed }

end Nunchuk
