import NunchukWallet.Coins.Replay

/-!
# `FillSendReceiveData`: the send and receive view of a transaction

`NunchukWalletDb::FillSendReceiveData` reads the output each input spends from the stored
transaction with its txid (`GetTransaction(input.first).get_outputs()[input.second]`, a missing
transaction giving the default output), adds up the inputs paying the wallet, and then fills
either the send fields (fee, amount sent, change index) or the receive fields (amount and outputs
received).

* `prevOutput`, `sendInputs`, `sendOutputs`, `fillSendReceiveData`   the function; a position past
                              the outputs of a stored transaction is `none` (undefined behaviour in
                              the source);
* `fillSendReceiveData_isSome_iff`   it returns exactly when every input whose txid is stored
                              names a position inside that transaction's outputs;
* `reads_past_outputs`        a stored list with a spend of a position past the outputs of the
                              transaction it names: both `GetCoinsFromTransactions` and
                              `FillSendReceiveData` read past the end.
-/

namespace Nunchuk

/-- the fields `FillSendReceiveData` sets (`set_fee_rate`, which needs the virtual size Bitcoin
Core computes from the raw transaction, is left out) -/
structure SendReceiveData where
  fee : Amount
  receive : Bool
  subAmount : Amount
  changeIndex : Int
  receiveOutputs : List TxOutput
deriving DecidableEq, Repr

/-- `GetTransaction(txid)` over the stored transactions: the one with the txid, `none` for
`TX_NOT_FOUND` -/
def storedTx (txs : List Transaction) (txId : TxId) : Option Transaction :=
  txs.find? (·.txid == txId)

section
variable (all : AddressMap) (stored : TxId → Option Transaction)

/-- `prev_out`: the default output `("", 0)` when the transaction is not stored (the catch of
`TX_NOT_FOUND`), the output at the position otherwise, `none` past the end -/
def prevOutput (i : TxInput) : Option TxOutput :=
  match stored i.txid with
  | none => some ⟨"", 0⟩
  | some prev => prev.outputs[i.vout]?

/-- the loop over the inputs: `total_amount` and `is_send_tx` -/
def sendInputs (acc : Amount × Bool) : List TxInput → Option (Amount × Bool)
  | [] => some acc
  | i :: is =>
    match prevOutput stored i with
    | none => none
    | some out =>
      sendInputs (if isMyAddress all out.address then (acc.1 + out.amount, true) else acc) is

/-- the loop over the outputs of a send: `total_amount` less every output, `send_amount` of the
outputs to others, and the first output to the wallet as change when there is none -/
def sendOutputs : Nat → List TxOutput → Amount × Amount × Int → Amount × Amount × Int
  | _, [], acc => acc
  | i, o :: os, (total, send, change) =>
    sendOutputs (i + 1) os (total - o.amount,
      if isMyAddress all o.address then send else send + o.amount,
      if isMyAddress all o.address ∧ change < 0 then i else change)

/-- `FillSendReceiveData(tx)` on a transaction with fee `fee` and change index `changeIndex` -/
def fillSendReceiveData (tx : Transaction) (fee : Amount) (changeIndex : Int) :
    Option SendReceiveData :=
  (sendInputs all stored (0, false) tx.inputs).map fun (total, isSend) =>
    if isSend then
      let (total, send, change) := sendOutputs all 0 tx.outputs (total, 0, changeIndex)
      ⟨total, false, send, change, []⟩
    else
      let mine := tx.outputs.filter fun o => isMyAddress all o.address
      ⟨fee, true, mine.foldl (fun s o => s + o.amount) 0, changeIndex, mine⟩

/-- every input whose transaction is stored names a position inside its outputs -/
def ReadsInside (inputs : List TxInput) : Prop :=
  ∀ i ∈ inputs, ∀ prev, stored i.txid = some prev → i.vout < prev.outputs.length

theorem isSome_prevOutput {i : TxInput} :
    (prevOutput stored i).isSome ↔
      ∀ prev, stored i.txid = some prev → i.vout < prev.outputs.length := by
  unfold prevOutput
  split
  · next h => simp [h]
  · next prev h =>
    simp only [h, Option.isSome_iff_exists, List.getElem?_eq_some_iff, Option.some.injEq,
      forall_eq']
    exact ⟨fun ⟨_, h, _⟩ => h, fun h => ⟨_, h, rfl⟩⟩

theorem isSome_sendInputs : ∀ {inputs : List TxInput} {acc : Amount × Bool},
    (sendInputs all stored acc inputs).isSome ↔ ReadsInside stored inputs
  | [], _ => by simp [sendInputs, ReadsInside]
  | i :: is, acc => by
    have hi := @isSome_prevOutput stored i
    unfold sendInputs ReadsInside
    split
    · next h => simp_all
    · next out h =>
      rw [isSome_sendInputs, List.forall_mem_cons]
      simp_all [ReadsInside]

end

/-- `FillSendReceiveData` returns exactly when every input whose transaction is stored names a
position inside that transaction's outputs. -/
theorem fillSendReceiveData_isSome_iff (all : AddressMap) (stored : TxId → Option Transaction)
    (tx : Transaction) (fee : Amount) (changeIndex : Int) :
    (fillSendReceiveData all stored tx fee changeIndex).isSome ↔ ReadsInside stored tx.inputs := by
  rw [fillSendReceiveData, Option.isSome_map', isSome_sendInputs]

/-- a confirmed transaction with one output, paying `ext0` -/
def fundingOne : Transaction :=
  { txid := "A", height := 100, outputs := [⟨"ext0", 1000⟩], status := .confirmed }

/-- a pending spend of the position `1` of `A`, one past its outputs -/
def spendPastEnd : Transaction :=
  { txid := "B", height := 0, inputs := [⟨"A", 1⟩], outputs := [⟨"ext1", 900⟩] }

/-- The store holds `A` with one output and `B` spending `A:1`: both `GetCoinsFromTransactions`
and `FillSendReceiveData(B)` read the outputs of `A` at position `1`, past their end. -/
theorem reads_past_outputs :
    getCoinsFromTransactions demoAddresses [fundingOne, spendPastEnd] = none ∧
      fillSendReceiveData demoAddresses (storedTx [fundingOne, spendPastEnd]) spendPastEnd 0 (-1) =
        none := by
  decide

end Nunchuk
