import NunchukWallet.Store.CoinLinks

/-!
# `IsLock`: the lock of a coin over runs of the coin-control writers

`IsLock(tx_id, vout)` steps through the rows `SELECT * FROM COININFO WHERE COIN = ?1` returns for
the coin `CoinId(tx_id, vout)` and answers whether the LAST of them has LOCKED 1. Three writers
upsert COININFO: `LockCoin` and `UnlockCoin` set LOCKED on a conflict, `UpdateCoinMemo` sets only
MEMO and inserts LOCKED 0 for a new coin. The import of a text that parses empties the table and
upserts the rows of `data["coininfo"]`; a text that does not parse throws before it writes; the
tag and collection writers never touch the table.

* `lockedOf`, `isLock`           the loop of `IsLock`, and `IsLock`;
* `lockStep`, `lockAfter`        the lock of one coin as a register: the last `LockCoin` or
                                 `UnlockCoin` of the coin decides, an import of a text that
                                 parses starts it again from what the import writes into empty
                                 tables, and one that does not parse keeps it;
* `isLock_runCoinControlOps`     `IsLock` after ANY run of the writers is `lockAfter`: a memo
                                 update never unlocks a coin, and no call on another coin, tag or
                                 collection moves it.
-/

namespace Nunchuk

/-! ## `IsLock` -/

/-- the loop of `IsLock` over the rows of COININFO: the answer of the last row of `coin`, and
`false` when there is none -/
def lockedOf (coin : String) (rows : List CoinInfoRow) : Bool :=
  rows.foldl (fun rs r => if r.coin = coin then r.locked == 1 else rs) false

/-- `IsLock(tx_id, vout)` -/
def isLock (cc : CoinControl) (txId : TxId) (vout : Int) : Bool :=
  lockedOf (coinIdText txId vout) cc.coinInfo

section
variable {c : String}

/-- the loop from any answer: rows of another coin keep it, a row of the coin overwrites it -/
theorem foldl_locked_of_any {v : Bool} :
    ∀ (rows : List CoinInfoRow) (a : Bool),
      rows.foldl (fun rs r => if r.coin = c then v else rs) a = if rows.any (·.coin = c) then v else a
  | [], _ => rfl
  | r :: rows, a => by
    rw [List.foldl_cons, foldl_locked_of_any rows]
    by_cases hr : r.coin = c <;> simp [hr]

theorem lockedOf_of_any_eq_false {rows : List CoinInfoRow} (h : rows.any (·.coin = c) = false) :
    lockedOf c rows = false := by
  have hv : ∀ rs (r : CoinInfoRow), r ∈ rows →
      (if r.coin = c then r.locked == 1 else rs) = if r.coin = c then true else rs := by
    intro rs r hr
    have : ¬ r.coin = c := by simpa using List.any_eq_false.mp h r hr
    simp [this]
  rw [lockedOf, List.foldl_ext _ _ _ hv, foldl_locked_of_any, h]
  rfl

/-- what the upsert leaves `IsLock` of the coin `c`: the new LOCKED when the upsert writes it on
`c`, an update of `LOCKED` or the insert of a new row, and the old answer otherwise -/
theorem lockedOf_upsertCoinInfo (coin memo : String) (locked : Int) (setMemo setLocked : Bool)
    (rows : List CoinInfoRow) :
    lockedOf c (upsertCoinInfo coin memo locked setMemo setLocked rows) =
      if coin = c ∧ (setLocked = true ∨ rows.any (·.coin = coin) = false) then locked == 1
      else lockedOf c rows := by
  unfold upsertCoinInfo
  split
  · next hany =>
    rw [lockedOf, List.foldl_map]
    by_cases hc : coin = c
    · subst hc
      cases setLocked
      · simp only [Bool.false_eq_true, hany, false_or, and_false, if_false]
        apply List.foldl_ext
        intro rs r _
        by_cases hr : r.coin = coin <;> simp [hr]
      · have hall := @foldl_locked_of_any coin (locked == 1) rows false
        rw [if_pos hany] at hall
        rw [if_pos ⟨rfl, .inl rfl⟩, ← hall]
        apply List.foldl_ext
        intro rs r _
        by_cases hr : r.coin = coin <;> simp [hr]
    · rw [if_neg (fun h => hc h.1), lockedOf]
      apply List.foldl_ext
      intro rs r _
      by_cases hr : r.coin = coin
      · have hrc : ¬ r.coin = c := hr ▸ hc
        simp [hr, hc, hrc]
      · simp [hr]
  · next hany =>
    have hany' : rows.any (·.coin = coin) = false := by simpa using hany
    rw [lockedOf, List.foldl_append, ← lockedOf]
    by_cases hc : coin = c
    · rw [if_pos ⟨hc, .inr hany'⟩]
      simp [hc]
    · simp [hc]

end

/-! ## the lock as a register -/

/-- the lock of the coin `c` after one call, from the lock `b` before it -/
def lockStep (c : String) (b : Bool) : CoinControlOp → Bool
  | .lockCoin t v => if coinIdText t v = c then true else b
  | .unlockCoin t v => if coinIdText t v = c then false else b
  | .importCoinControlData none => b
  | .importCoinControlData (some d) =>
    lockedOf c ((importCoinControlData (some d)).run CoinControl.empty).2.coinInfo
  | _ => b

/-- the lock of the coin `c` after a run of calls, from the lock `b` before it -/
def lockAfter (c : String) (b : Bool) (ops : List CoinControlOp) : Bool :=
  ops.foldl (lockStep c) b

theorem afterCall_coinInfo {β γ : Type} (cc : CoinControl) (f : γ → CoinControl)
    (hf : ∀ g, (f g).coinInfo = cc.coinInfo) (x : Except StoreError (β × γ)) :
    (afterCall cc (x.map fun (b, g) => (b, f g))).coinInfo = cc.coinInfo := by
  rcases x with _ | ⟨b, g⟩
  · rfl
  · exact hf g

/-- one call moves `IsLock` of a coin as `lockStep` says -/
theorem lockedOf_run (c : String) (cc : CoinControl) (op : CoinControlOp) :
    lockedOf c (op.run cc).coinInfo = lockStep c (lockedOf c cc.coinInfo) op := by
  cases op with
  | createCoinTag n col =>
    exact congrArg _ (afterCall_coinInfo cc (fun t => { cc with tags := t }) (fun _ => rfl) _)
  | updateCoinTag i n col =>
    exact congrArg _ (afterCall_coinInfo cc (fun t => { cc with tags := t }) (fun _ => rfl) _)
  | createCoinCollection n =>
    exact congrArg _ (afterCall_coinInfo cc (fun t => { cc with collections := t }) (fun _ => rfl) _)
  | updateCoinCollection i n s =>
    exact congrArg _ (afterCall_coinInfo cc (fun t => { cc with collections := t }) (fun _ => rfl) _)
  | importCoinControlData d => cases d <;> rfl
  | updateCoinMemo t v m =>
    simp only [CoinControlOp.run, updateCoinMemo, lockStep, lockedOf_upsertCoinInfo,
      Bool.false_eq_true, false_or]
    split
    · next h => rw [← h.1, lockedOf_of_any_eq_false h.2]; rfl
    · rfl
  | lockCoin t v =>
    simp only [CoinControlOp.run, lockCoin, lockStep, lockedOf_upsertCoinInfo, true_or, and_true]
    rfl
  | unlockCoin t v =>
    simp only [CoinControlOp.run, unlockCoin, lockStep, lockedOf_upsertCoinInfo, true_or, and_true]
    rfl
  | deleteCoinTag i => rfl
  | addToCoinTag i t v => rfl
  | removeFromCoinTag i t v => rfl
  | deleteCoinCollection i => rfl
  | addToCoinCollection i t v => rfl
  | removeFromCoinCollection i t v => rfl

/-- After any run of the coin-control writers, `IsLock(tx_id, vout)` is the lock the register
`lockAfter` keeps for the coin `CoinId(tx_id, vout)`: the last `LockCoin` or `UnlockCoin` of the
coin decides, an import of a text that parses forgets every call before it while one that does
not parse changes nothing, and no other call (a memo update included, which inserts LOCKED 0 only
for a coin with no row) moves it. -/
theorem isLock_runCoinControlOps (txId : TxId) (vout : Int) :
    ∀ (ops : List CoinControlOp) (cc : CoinControl),
      isLock (runCoinControlOps cc ops) txId vout =
        lockAfter (coinIdText txId vout) (isLock cc txId vout) ops
  | [], _ => rfl
  | op :: ops, cc => by
    rw [runCoinControlOps, List.foldl_cons, ← runCoinControlOps,
      isLock_runCoinControlOps txId vout ops, isLock, isLock, lockedOf_run]
    rfl

example : isLock (runCoinControlOps CoinControl.empty
    [.lockCoin "T" 0, .updateCoinMemo "T" 0 "rent", .addToCoinTag 1 "T" 0]) "T" 0 = true := rfl

example : isLock (runCoinControlOps CoinControl.empty
    [.lockCoin "T" 0, .importCoinControlData none]) "T" 0 = true := rfl

end Nunchuk
