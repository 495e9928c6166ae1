import NunchukWallet.Coins.FirstLoop
import NunchukWallet.Store.Writers
import NunchukWallet.Sync.Update

/-!
# `GetTransactions`: the coin view of the VTX table

`NunchukWalletDb::GetCoins` and `GetBalance` replay the coins from `GetTransactions()`, the
transactions built from EVERY row of the VTX table. This module joins the writers of the table
(`Store.Vtx`) to the replay of the coins (`Coins.Replay`).

* `rowTransaction`, `getTransactions`   a row as `GetTransactions` builds it: the key as txid, the
                inputs and outputs of the payload, the status of `rowStatus` (with `FillExtra`'s
                REPLACED), BLOCKTIME, MEMO, and the `schedule_time` of EXTRA or else `-1`;
* `Transaction.eraseNotes`, `UnspentOutput.eraseNotes`   a transaction or a coin without its two
                annotations, the memo and the schedule time;
* `getCoinsFromTransactions_eraseNotes`   the replay commutes with erasing the annotations: no
                branch of either loop reads them, `writeCoin` only copies them;
* `ReplayWrite`, `getCoinsFromTransactions_induction`   what one write of the replay knows (its
                source is `tx_map`'s transaction or one of the list, its output sits where the key
                says and pays the wallet), and induction over the writes;
* `coins_carry_row_fields`   on a table keyed by ID, every coin carries the height, block time,
                memo and schedule time of the row of its txid;
* `annotations_keep_coins`   every run of `UpdateTransactionMemo` and `UpdateTransactionSchedule`
                calls on a table keyed by ID leaves every coin of the view unchanged but for its
                memo and schedule time, and `GetBalance` unchanged.
-/

namespace Nunchuk

/-! ## the transactions of the table -/

/-- the schedule time of a row: `FillExtra` copies `schedule_time` of a JSON EXTRA over the `-1`
that `GetTransactions` sets -/
def rowScheduleTime (r : VtxRow) : Int :=
  match r.extra with
  | .dump j => j.scheduleTime.getD (-1)
  | .empty => -1

/-- the transaction `GetTransactions` builds from the row of `txId`, in a wallet of `m` required
signatures -/
def rowTransaction (m : Nat) (txId : TxId) (r : VtxRow) : Transaction where
  txid := txId
  height := r.height
  inputs := r.value.tx.inputs
  outputs := r.value.tx.outputs
  status := rowStatus m r
  blocktime := r.blocktime
  scheduleTime := rowScheduleTime r
  memo := columnText r.memo

/-- `GetTransactions()`: one transaction per row, in table order -/
def getTransactions (m : Nat) (v : Vtx) : List Transaction :=
  v.entries.map fun e => rowTransaction m e.1 e.2

/-- the ID column is a key: no two rows share a txid -/
def KeyedById (v : Vtx) : Prop := (v.entries.map Prod.fst).Nodup

instance (v : Vtx) : Decidable (KeyedById v) := inferInstanceAs (Decidable (List.Nodup _))

theorem KeyedById.modify {v : Vtx} (h : KeyedById v) (k : TxId) (f : VtxRow → VtxRow) :
    KeyedById (v.modify k f) := by
  have hk : (v.modify k f).entries.map Prod.fst = v.entries.map Prod.fst := by
    simp only [Dict.modify, List.map_map]
    exact List.map_congr_left fun e _ => by simp only [Function.comp_apply]; split <;> rfl
  unfold KeyedById
  rw [hk]
  exact h

/-! ## erasing the annotations -/

/-- a transaction without its memo and schedule time -/
def Transaction.eraseNotes (tx : Transaction) : Transaction :=
  { tx with memo := "", scheduleTime := -1 }

@[simp] theorem Transaction.eraseNotes_txid (tx : Transaction) : tx.eraseNotes.txid = tx.txid := rfl
@[simp] theorem Transaction.eraseNotes_height (tx : Transaction) :
    tx.eraseNotes.height = tx.height := rfl
@[simp] theorem Transaction.eraseNotes_inputs (tx : Transaction) :
    tx.eraseNotes.inputs = tx.inputs := rfl
@[simp] theorem Transaction.eraseNotes_outputs (tx : Transaction) :
    tx.eraseNotes.outputs = tx.outputs := rfl
@[simp] theorem Transaction.eraseNotes_status (tx : Transaction) :
    tx.eraseNotes.status = tx.status := rfl

/-- a coin without its memo and schedule time -/
def UnspentOutput.eraseNotes (c : UnspentOutput) : UnspentOutput :=
  { c with memo := "", scheduleTime := -1 }

namespace Dict
variable {K V : Type}

/-- every value rewritten by `g` -/
def mapValues (m : Dict K V) (g : V → V) : Dict K V := ⟨m.entries.map fun e => (e.1, g e.2)⟩

@[simp] theorem mapValues_empty (g : V → V) : (empty : Dict K V).mapValues g = empty := rfl

@[simp] theorem values_mapValues (m : Dict K V) (g : V → V) :
    (m.mapValues g).values = m.values.map g := by
  simp [mapValues, values, Function.comp_def]

/-- `upsert` under `g`: `f` becomes `f'` when `g ∘ f = f' ∘ g`, the default `d'` when `f'` writes
over it what `g ∘ f` writes over `d` -/
theorem mapValues_upsert [DecidableEq K] (m : Dict K V) (k : K) {d d' : V} {f f' g : V → V}
    (h : ∀ v, g (f v) = f' (g v)) (hd : g (f d) = f' d') :
    (m.upsert k d f).mapValues g = (m.mapValues g).upsert k d' f' := by
  obtain ⟨es⟩ := m
  simp only [upsert, mapValues, Dict.mk.injEq]
  induction es with
  | nil => simp [upsertEntries, hd]
  | cons e es ih => by_cases he : e.1 = k <;> simp [upsertEntries, he, h, ih]

end Dict

section
variable (all : AddressMap)

theorem writeCoin_eraseNotes (k : CoinKey) (src : Transaction) (out : TxOutput)
    (s : Option CoinStatus) (c : UnspentOutput) :
    (writeCoin all k src out s c).eraseNotes = writeCoin all k src.eraseNotes out s c.eraseNotes :=
  rfl

theorem upsert_writeCoin_eraseNotes (coins : CoinMap) (k : CoinKey) (src : Transaction)
    (out : TxOutput) (s : Option CoinStatus) :
    (coins.upsert k .empty (writeCoin all k src out s)).mapValues UnspentOutput.eraseNotes =
      (coins.mapValues UnspentOutput.eraseNotes).upsert k .empty
        (writeCoin all k src.eraseNotes out s) :=
  Dict.mapValues_upsert _ _ (writeCoin_eraseNotes all k src out s) rfl

/-- the maps of the first loop with every transaction of `tx_map` erased -/
def Pass1.eraseNotes (p : Pass1) : Pass1 :=
  ⟨fun id => (p.txMap id).map Transaction.eraseNotes, p.usedBy⟩

theorem pass1Step_eraseNotes (p : Pass1) (tx : Transaction) :
    pass1Step p.eraseNotes tx.eraseNotes = (pass1Step p tx).eraseNotes := by
  simp only [pass1Step, Pass1.eraseNotes, Option.isSome_map', Pass1.mk.injEq,
    Transaction.eraseNotes_txid, Transaction.eraseNotes_height, Transaction.eraseNotes_inputs,
    and_true]
  split
  · rfl
  · funext id
    by_cases h : id = tx.txid
    · subst h; simp [Transaction.eraseNotes]
    · simp [Function.update_noteq h, Transaction.eraseNotes]

theorem pass1_eraseNotes (txs : List Transaction) :
    pass1 (txs.map Transaction.eraseNotes) = (pass1 txs).eraseNotes := by
  suffices ∀ p : Pass1, (txs.map Transaction.eraseNotes).foldl pass1Step p.eraseNotes =
      (txs.foldl pass1Step p).eraseNotes from this Pass1.init
  induction txs with
  | nil => intro p; rfl
  | cons tx txs ih => intro p; simp only [List.map_cons, List.foldl_cons, pass1Step_eraseNotes, ih]

variable (p : Pass1)

theorem spendInputs_eraseNotes (tx : Transaction) :
    ∀ (is : List TxInput) (coins : CoinMap),
      spendInputs all p.eraseNotes tx.eraseNotes (coins.mapValues UnspentOutput.eraseNotes) is =
        (spendInputs all p tx coins is).map (·.mapValues UnspentOutput.eraseNotes)
  | [], _ => rfl
  | i :: is, coins => by
    simp only [spendInputs, Pass1.eraseNotes, Transaction.eraseNotes_status]
    cases p.txMap i.txid with
    | none => exact spendInputs_eraseNotes tx is coins
    | some prev =>
      simp only [Option.map_some', Transaction.eraseNotes_outputs]
      cases prev.outputs[i.vout]? with
      | none => rfl
      | some out =>
        simp only
        split
        · rw [← upsert_writeCoin_eraseNotes]; exact spendInputs_eraseNotes tx is _
        · exact spendInputs_eraseNotes tx is coins

theorem receiveOutputs_eraseNotes (tx : Transaction) :
    ∀ (vout : Nat) (outs : List TxOutput) (coins : CoinMap),
      receiveOutputs all tx.eraseNotes vout outs (coins.mapValues UnspentOutput.eraseNotes) =
        (receiveOutputs all tx vout outs coins).mapValues UnspentOutput.eraseNotes
  | _, [], _ => rfl
  | vout, out :: outs, coins => by
    simp only [receiveOutputs]
    rw [← receiveOutputs_eraseNotes tx (vout + 1) outs]
    split
    · rw [upsert_writeCoin_eraseNotes]; rfl
    · rfl

theorem replayTx_eraseNotes (coins : CoinMap) (tx : Transaction) :
    replayTx all p.eraseNotes (coins.mapValues UnspentOutput.eraseNotes) tx.eraseNotes =
      (replayTx all p coins tx).map (·.mapValues UnspentOutput.eraseNotes) := by
  unfold replayTx
  rw [show replayed p.eraseNotes tx.eraseNotes = replayed p tx from rfl]
  split
  · rw [show tx.eraseNotes.inputs = tx.inputs from rfl, spendInputs_eraseNotes]
    cases spendInputs all p tx coins tx.inputs <;> simp [receiveOutputs_eraseNotes]
  · rfl

theorem foldlM_replayTx_eraseNotes (txs : List Transaction) (coins : CoinMap) :
    (txs.map Transaction.eraseNotes).foldlM (replayTx all p.eraseNotes)
        (coins.mapValues UnspentOutput.eraseNotes) =
      (txs.foldlM (replayTx all p) coins).map (·.mapValues UnspentOutput.eraseNotes) := by
  induction txs generalizing coins with
  | nil => rfl
  | cons tx txs ih =>
    simp only [List.map_cons, List.foldlM_cons, replayTx_eraseNotes]
    cases replayTx all p coins tx with
    | none => rfl
    | some c => exact ih c

/-- the replay commutes with erasing the annotations -/
theorem getCoinsFromTransactions_eraseNotes (txs : List Transaction) :
    getCoinsFromTransactions all (txs.map Transaction.eraseNotes) =
      (getCoinsFromTransactions all txs).map (·.mapValues UnspentOutput.eraseNotes) := by
  simpa [getCoinsFromTransactions, pass1_eraseNotes] using
    foldlM_replayTx_eraseNotes all (pass1 txs) txs Dict.empty

end

theorem sumBalance_eraseNotes (b : Bool) (cs : List UnspentOutput) :
    sumBalance b (cs.map UnspentOutput.eraseNotes) = sumBalance b cs := by
  induction cs with
  | nil => rfl
  | cons c cs ih => simp only [List.map_cons, sumBalance, ih]; rfl

/-- `GetBalance` reads the coin map only up to the annotations -/
theorem getBalance_eq (all : AddressMap) (b : Bool) (txs : List Transaction) :
    getBalance all b txs = ((getCoinsFromTransactions all txs).map
      (·.mapValues UnspentOutput.eraseNotes)).map fun m => sumBalance b m.values := by
  simp [getBalance, getCoins, Option.map_map, Function.comp_def, sumBalance_eraseNotes]

/-! ## induction over the replay -/

section
variable {all : AddressMap} {txs : List Transaction}

/-- a write the replay of `txs` makes: to the coin `k`, from output `out` of `src`, the
transaction `tx_map` holds under `k.1` (spend side) or a transaction of the list with that txid
(receive side); the output sits where `k` says and pays the wallet -/
def ReplayWrite (all : AddressMap) (txs : List Transaction) (k : CoinKey) (src : Transaction)
    (out : TxOutput) : Prop :=
  ((pass1 txs).txMap k.1 = some src ∨ (src ∈ txs ∧ src.txid = k.1)) ∧
    src.outputs[k.2]? = some out ∧ isMyAddress all out.address = true

variable (P : CoinMap → Prop)
  (hw : ∀ coins k src out s, ReplayWrite all txs k src out → P coins →
    P (coins.upsert k .empty (writeCoin all k src out s)))
include hw

theorem spendInputs_induction (tx : Transaction) :
    ∀ (is : List TxInput) {coins coins' : CoinMap}, P coins →
      spendInputs all (pass1 txs) tx coins is = some coins' → P coins'
  | [], _, _, hc, h => by cases h; exact hc
  | i :: is, coins, coins', hc, h => by
    unfold spendInputs at h
    split at h
    · exact spendInputs_induction tx is hc h
    · next prev hprev =>
      split at h
      · cases h
      · next out hout =>
        split at h
        · exact spendInputs_induction tx is (hw _ _ _ _ _ ⟨.inl hprev, hout, ‹_›⟩ hc) h
        · exact spendInputs_induction tx is hc h

theorem receiveOutputs_induction {tx : Transaction} (htx : tx ∈ txs) :
    ∀ (vout : Nat) (outs : List TxOutput), tx.outputs.drop vout = outs →
      ∀ {coins : CoinMap}, P coins → P (receiveOutputs all tx vout outs coins)
  | _, [], _, _, hc => hc
  | vout, out :: outs, hd, coins, hc => by
    have hout : tx.outputs[vout]? = some out := by
      have h0 := congrArg (fun l : List TxOutput => l[0]?) hd
      simp only [List.getElem?_drop, List.getElem?_cons_zero, Nat.add_zero] at h0
      exact h0
    unfold receiveOutputs
    refine receiveOutputs_induction htx (vout + 1) outs (by rw [← List.tail_drop, hd]; rfl) ?_
    split
    · exact hw _ _ _ _ _ ⟨.inr ⟨htx, rfl⟩, hout, ‹_›⟩ hc
    · exact hc

theorem replayTx_induction {tx : Transaction} (htx : tx ∈ txs) {coins coins' : CoinMap}
    (hc : P coins) (h : replayTx all (pass1 txs) coins tx = some coins') : P coins' := by
  unfold replayTx at h
  split at h
  · obtain ⟨c₀, h₀, rfl⟩ := Option.map_eq_some'.mp h
    exact receiveOutputs_induction P hw htx 0 _ rfl (spendInputs_induction P hw tx _ hc h₀)
  · cases h; exact hc

theorem foldlM_replayTx_induction :
    ∀ (ys : List Transaction), (∀ tx ∈ ys, tx ∈ txs) → ∀ {coins coins' : CoinMap}, P coins →
      ys.foldlM (replayTx all (pass1 txs)) coins = some coins' → P coins'
  | [], _, _, _, hc, h => by cases h; exact hc
  | tx :: ys, hmem, coins, coins', hc, h => by
    rw [List.foldlM_cons] at h
    cases h₁ : replayTx all (pass1 txs) coins tx with
    | none => rw [h₁] at h; cases h
    | some c₁ =>
      rw [h₁] at h
      exact foldlM_replayTx_induction ys (fun t ht => hmem t (List.mem_cons_of_mem _ ht))
        (replayTx_induction P hw (hmem tx (List.mem_cons_self _ _)) hc h₁) h

/-- a property of the coin map that the empty map has and every write of the replay keeps holds
of the map `GetCoinsFromTransactions` returns -/
theorem getCoinsFromTransactions_induction (h0 : P Dict.empty) {coins : CoinMap}
    (h : getCoinsFromTransactions all txs = some coins) : P coins :=
  foldlM_replayTx_induction P hw txs (fun _ h => h) h0 h

end

/-! ## the coins carry the fields of their rows -/

section
variable {v : Vtx} {m : Nat}

/-- every coin of the map carries the txid of its key, and the height, block time, memo (read up to
its first NUL) and schedule time of the row of that txid -/
def FromRows (v : Vtx) (coins : CoinMap) : Prop :=
  ∀ e ∈ coins.entries, e.2.txid = e.1.1 ∧ ∃ r, v.get? e.1.1 = some r ∧ e.2.height = r.height ∧
    e.2.blocktime = r.blocktime ∧ e.2.memo = columnText r.memo ∧
      e.2.scheduleTime = rowScheduleTime r

/-- a write of the replay of a table keyed by ID takes its source from the row of the coin's
txid -/
theorem ReplayWrite.src_eq (hk : KeyedById v) {all : AddressMap} {k : CoinKey}
    {src : Transaction} {out : TxOutput} (h : ReplayWrite all (getTransactions m v) k src out) :
    ∃ r, v.get? k.1 = some r ∧ src = rowTransaction m k.1 r := by
  have hrow : ∀ e ∈ v.entries, rowTransaction m e.1 e.2 = src → src.txid = k.1 →
      ∃ r, v.get? k.1 = some r ∧ src = rowTransaction m k.1 r := by
    rintro e he rfl hid
    change e.1 = k.1 at hid
    rw [← hid]
    exact ⟨e.2, Dict.findEntry_of_mem hk he, rfl⟩
  rcases h.1 with h | ⟨hs, hid⟩
  · rw [txMap_pass1] at h
    obtain ⟨e, he, hes⟩ := List.mem_map.mp (List.mem_of_find?_eq_some h)
    exact hrow e he hes (by simpa using List.find?_some h)
  · obtain ⟨e, he, hes⟩ := List.mem_map.mp hs
    exact hrow e he hes hid

/-- On a table keyed by ID, every coin of `GetCoins` carries the height, block time, memo and
schedule time of the VTX row of its txid, the memo as `GetTransactions` reads it (a C string, up to
its first NUL), also when the spend side of the replay wrote it last: that side writes from
`tx_map`, never from the spending transaction. -/
theorem coins_carry_row_fields (all : AddressMap) (hk : KeyedById v) {coins : CoinMap}
    (h : getCoinsFromTransactions all (getTransactions m v) = some coins) :
    ∀ c ∈ coins.values, ∃ r, v.get? c.txid = some r ∧ c.height = r.height ∧
      c.blocktime = r.blocktime ∧ c.memo = columnText r.memo ∧
        c.scheduleTime = rowScheduleTime r := by
  have hf : FromRows v coins := by
    refine getCoinsFromTransactions_induction (FromRows v) ?_ (fun _ h => absurd h (List.not_mem_nil _)) h
    intro coins k src out s hwr hc e he
    rcases Dict.mem_upsertEntries he with he | ⟨hek, c, -, hec⟩
    · exact hc e he
    · obtain ⟨r, hr, rfl⟩ := hwr.src_eq hk
      rw [hec, hek]
      exact ⟨rfl, r, hr, rfl, rfl, rfl, rfl⟩
  intro c hc
  obtain ⟨e, he, rfl⟩ := List.mem_map.mp hc
  exact (hf e he).1 ▸ (hf e he).2

end

/-- a confirmed payment `f` of 1000 to `ext0`, as `InsertTransaction` stores it -/
def paymentTable : Vtx :=
  ⟨[("f", ⟨.rawTx { txid := "f", outputs := [⟨"ext0", 1000⟩] }, 100, 0, "", -1, 0, .empty⟩)]⟩

/-- `paymentTable` after a memo and a schedule time for `f` -/
def annotatedPaymentTable : Vtx :=
  ⟨[("f", ⟨.rawTx { txid := "f", outputs := [⟨"ext0", 1000⟩] }, 100, 0, "rent", -1, 0,
    .dump { scheduleTime := some 1700000000 }⟩)]⟩

/-- the coin of `annotatedPaymentTable`: output 0 of `f`, with the memo and schedule time of its
row -/
def annotatedPaymentCoins : CoinMap :=
  ⟨[(("f", 0),
    { txid := "f", vout := 0, address := "ext0", amount := 1000, height := 100, blocktime := 0,
      scheduleTime := 1700000000, status := .confirmed, memo := "rent", change := false })]⟩

theorem coins_carry_row_fields_payment :
    KeyedById annotatedPaymentTable ∧
    getCoinsFromTransactions demoAddresses (getTransactions 1 annotatedPaymentTable) =
      some annotatedPaymentCoins ∧
    ∀ c ∈ annotatedPaymentCoins.values, ∃ r, annotatedPaymentTable.get? c.txid = some r ∧
      c.height = r.height ∧ c.blocktime = r.blocktime ∧ c.memo = columnText r.memo ∧
      c.scheduleTime = rowScheduleTime r :=
  ⟨by decide, rfl, @coins_carry_row_fields _ 1 demoAddresses (by decide) _ rfl⟩

/-! ## the annotating calls -/

/-- a call that only annotates a row: `UpdateTransactionMemo` or `UpdateTransactionSchedule` -/
def VtxOp.annotates : VtxOp → Bool
  | .updateTransactionMemo .. | .updateTransactionSchedule .. => true
  | _ => false

/-- the `replaced_by_txid` of an EXTRA, the one field of it that `rowStatus` reads -/
def ExtraText.replacedBy : ExtraText → Option TxId
  | .dump j => j.replacedByTxid
  | .empty => none

theorem rowStatus_eq (m : Nat) (r : VtxRow) :
    rowStatus m r =
      if statusOfHeight m r.value.tx r.height = .pendingConfirmation ∧
        r.extra.replacedBy.isSome then .replaced
      else statusOfHeight m r.value.tx r.height := by
  unfold rowStatus
  cases r.extra <;> simp [ExtraText.replacedBy]

theorem rowStatus_congr {m : Nat} {r r' : VtxRow} (hv : r'.value = r.value)
    (hh : r'.height = r.height) (he : r'.extra.replacedBy = r.extra.replacedBy) :
    rowStatus m r' = rowStatus m r := by
  rw [rowStatus_eq, rowStatus_eq, hv, hh, he]

/-- rewriting the row of `k` changes the transactions only in their annotations when it does so
for the row the key holds -/
theorem getTransactions_modify {m : Nat} {v : Vtx} (hk : KeyedById v) {k : TxId}
    {f : VtxRow → VtxRow}
    (h : ∀ r, v.get? k = some r →
      (rowTransaction m k (f r)).eraseNotes = (rowTransaction m k r).eraseNotes) :
    (getTransactions m (v.modify k f)).map Transaction.eraseNotes =
      (getTransactions m v).map Transaction.eraseNotes := by
  simp only [getTransactions, Dict.modify, List.map_map]
  refine List.map_congr_left fun e he => ?_
  simp only [Function.comp_apply]
  split
  · next hek => exact hek ▸ h e.2 (hek ▸ Dict.findEntry_of_mem hk he)
  · rfl

/-- one annotating call keeps the ID a key and the transactions up to their annotations -/
theorem annotates_run {m : Nat} {v v' : Vtx} (hk : KeyedById v) {op : VtxOp}
    (ha : op.annotates) (h : op.run v = .ok v') :
    KeyedById v' ∧ (getTransactions m v').map Transaction.eraseNotes =
      (getTransactions m v).map Transaction.eraseNotes := by
  cases op <;> simp [VtxOp.annotates] at ha
  case updateTransactionMemo t memo =>
    cases h
    exact ⟨hk.modify _ _, getTransactions_modify hk fun _ _ => rfl⟩
  case updateTransactionSchedule t value =>
    simp only [VtxOp.run, updateTransactionSchedule] at h
    split at h
    · cases h; exact ⟨hk, rfl⟩
    · next r hr =>
      obtain ⟨_, h⟩ := map_snd_eq_ok h
      obtain ⟨j, hj, he⟩ := except_bind_eq_ok h
      cases he
      refine ⟨hk.modify _ _, getTransactions_modify hk fun r' hr' => ?_⟩
      rw [hr] at hr'
      cases hr'
      have hrep : j.replacedByTxid = r.extra.replacedBy := by
        cases hx : r.extra <;> rw [hx] at hj <;> cases hj <;> rfl
      have hs : rowStatus m { r with extra := .dump { j with scheduleTime := some value } } =
          rowStatus m r := rowStatus_congr rfl rfl hrep
      simp only [rowTransaction, Transaction.eraseNotes, hs]

theorem runVtxOps_annotates {m : Nat} {v v' : Vtx} (hk : KeyedById v) {ops : List VtxOp}
    (ha : ∀ op ∈ ops, op.annotates) (h : runVtxOps v ops = .ok v') :
    (getTransactions m v').map Transaction.eraseNotes =
      (getTransactions m v).map Transaction.eraseNotes := by
  induction ops generalizing v with
  | nil => cases h; rfl
  | cons op ops ih =>
    obtain ⟨v₁, h₁, h⟩ := except_bind_eq_ok h
    obtain ⟨hk₁, e₁⟩ := annotates_run hk (ha op (List.mem_cons_self _ _)) h₁
    rw [ih hk₁ (fun o ho => ha o (List.mem_cons_of_mem _ ho)) h, e₁]

/-- Every run of `UpdateTransactionMemo` and `UpdateTransactionSchedule` calls on a table keyed by
ID leaves every coin of the view unchanged but for its memo and schedule time, and `GetBalance`
unchanged with or without the mempool. -/
theorem annotations_keep_coins {v v' : Vtx} {ops : List VtxOp} (hk : KeyedById v)
    (ha : ∀ op ∈ ops, op.annotates) (h : runVtxOps v ops = .ok v') (all : AddressMap)
    (m : Nat) :
    (getCoinsFromTransactions all (getTransactions m v')).map
        (·.mapValues UnspentOutput.eraseNotes) =
      (getCoinsFromTransactions all (getTransactions m v)).map
        (·.mapValues UnspentOutput.eraseNotes) ∧
    ∀ b, getBalance all b (getTransactions m v') = getBalance all b (getTransactions m v) := by
  have e := congrArg (getCoinsFromTransactions all) (runVtxOps_annotates (m := m) hk ha h)
  rw [getCoinsFromTransactions_eraseNotes, getCoinsFromTransactions_eraseNotes] at e
  exact ⟨e, fun b => by rw [getBalance_eq, getBalance_eq, e]⟩

theorem annotations_keep_coins_payment :
    KeyedById paymentTable ∧
    (∀ op ∈ [VtxOp.updateTransactionMemo "f" "rent",
      .updateTransactionSchedule "f" 1700000000], op.annotates) ∧
    runVtxOps paymentTable [.updateTransactionMemo "f" "rent",
      .updateTransactionSchedule "f" 1700000000] = .ok annotatedPaymentTable ∧
    (getCoinsFromTransactions demoAddresses (getTransactions 1 annotatedPaymentTable)).map
        (·.mapValues UnspentOutput.eraseNotes) =
      (getCoinsFromTransactions demoAddresses (getTransactions 1 paymentTable)).map
        (·.mapValues UnspentOutput.eraseNotes) ∧
    ∀ b, getBalance demoAddresses b (getTransactions 1 annotatedPaymentTable) =
      getBalance demoAddresses b (getTransactions 1 paymentTable) :=
  ⟨by decide, by decide, rfl, @annotations_keep_coins _ _
    [.updateTransactionMemo "f" "rent", .updateTransactionSchedule "f" 1700000000]
    (by decide) (by decide) (by rfl) demoAddresses 1⟩

end Nunchuk
