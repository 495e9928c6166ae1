import Mathlib.Logic.Relation
import Mathlib.Data.List.Perm.Subperm
import NunchukWallet.Coins.Order

/-!
# `GetAncestry`: the generations of coins behind a coin

`NunchukWalletDb::GetAncestry(tx_id, vout)` starts from `coins[CoinId(tx_id, vout)]` (which
inserts the default coin when the key is absent) and repeats one round: for every parent coin,
the inputs of the transaction with its txid that are keys of the coin map, in order. A round that
finds nothing ends the `while (true)` loop; every other round is one level of the answer.

* `grandparents`, `ancestryLoop`, `getAncestry`   the loop, with a number of rounds (`fuel`);
* `levels_ancestryLoop`        the levels the loop returns are the rounds iterated, none of them
                               empty;
* `chain_of_mem_iterate`       a coin `m + 1` rounds back gives `m + 1` transactions of the list,
                               each spending an output of the next;
* `getAncestry_levels`         on a list with distinct txids, in-range inputs and an acyclic spend
                               relation, and a requested coin of the map: `N + 1` rounds suffice,
                               no level is empty, and level `k + 1` holds exactly the coins of the
                               map that are inputs of the transactions of the coins of level `k`;
* `ancestry_repeats_coin`      two coins of one level created by one transaction put that
                               transaction's inputs twice into the next level;
* `ancestry_of_foreign_output`  a requested output that is not a coin has no level, even when the
                               transaction creating it spends a coin.
-/

namespace Nunchuk

/-! ## the loop -/

section
variable (coins : CoinMap) (txMap : TxId → Option Transaction)

/-- the coins the inner loop pushes for one parent: the inputs of the transaction with its txid
that are keys of `coins`, in input order -/
def parentCoins (coin : UnspentOutput) : List UnspentOutput :=
  match txMap coin.txid with
  | none => []
  | some tx => tx.inputs.filterMap fun i => coins.get? i.key

/-- one round of the loop: `grandparents` -/
def grandparents (parents : List UnspentOutput) : List UnspentOutput :=
  parents.flatMap (parentCoins coins txMap)

/-- the `while (true)` loop with at most `fuel` rounds, `none` when they run out -/
def ancestryLoop : Nat → List UnspentOutput → Option (List (List UnspentOutput))
  | 0, _ => none
  | fuel + 1, parents =>
    let gp := grandparents coins txMap parents
    if gp = [] then some [] else (ancestryLoop fuel gp).map (gp :: ·)

theorem mem_grandparents {ps : List UnspentOutput} {c : UnspentOutput} :
    c ∈ grandparents coins txMap ps ↔
      ∃ c' ∈ ps, ∃ T, txMap c'.txid = some T ∧ ∃ i ∈ T.inputs, coins.get? i.key = some c := by
  simp only [grandparents, List.mem_flatMap, parentCoins]
  refine exists_congr fun c' => and_congr_right fun _ => ?_
  split <;> simp_all

@[simp] theorem grandparents_nil : grandparents coins txMap [] = [] := rfl

theorem iterate_grandparents_nil (k : Nat) : (grandparents coins txMap)^[k] [] = [] := by
  induction k with
  | zero => rfl
  | succ k ih => rw [Function.iterate_succ_apply, grandparents_nil, ih]

/-- the levels the loop returns, after the parents it starts from, are the rounds iterated (and
nothing past the last), and none of them is empty -/
theorem levels_ancestryLoop : ∀ {fuel : Nat} {ps : List UnspentOutput}
    {levels : List (List UnspentOutput)}, ancestryLoop coins txMap fuel ps = some levels →
      (∀ k, (ps :: levels).getD k [] = (grandparents coins txMap)^[k] ps) ∧ ∀ l ∈ levels, l ≠ []
  | 0, _, _, h => by cases h
  | fuel + 1, ps, levels, h => by
    simp only [ancestryLoop] at h
    split at h
    · next hgp =>
      cases h
      refine ⟨fun k => ?_, fun _ h => by cases h⟩
      cases k with
      | zero => rfl
      | succ k =>
        rw [Function.iterate_succ_apply, hgp, iterate_grandparents_nil]
        simp
    · next hgp =>
      obtain ⟨levels', h', rfl⟩ := Option.map_eq_some'.mp h
      obtain ⟨hk, hne⟩ := levels_ancestryLoop h'
      refine ⟨fun k => ?_, fun l hl => ?_⟩
      · cases k with
        | zero => rfl
        | succ k => rw [Function.iterate_succ_apply, ← hk k]; rfl
      · rcases List.mem_cons.mp hl with rfl | hl
        · exact hgp
        · exact hne l hl

/-- when round `m + 1` finds nothing, `m + 1` rounds of fuel end the loop -/
theorem isSome_ancestryLoop : ∀ {m fuel : Nat} {ps : List UnspentOutput},
    (grandparents coins txMap)^[m + 1] ps = [] → m + 1 ≤ fuel →
      (ancestryLoop coins txMap fuel ps).isSome
  | m, fuel + 1, ps, h, hf => by
    simp only [ancestryLoop]
    split
    · rfl
    · next hgp =>
      cases m with
      | zero => exact absurd h hgp
      | succ m =>
        rw [Function.iterate_succ_apply] at h
        rw [Option.isSome_map']
        exact isSome_ancestryLoop h (show m + 1 ≤ fuel by omega)

end

/-- `GetAncestry(tx_id, vout)` with at most `fuel` rounds of its loop: the loop starts from
`coins[CoinId(tx_id, vout)]`, which inserts the default coin when the key is absent; `none` also
when `GetCoinsFromTransactions` reads past the outputs of a transaction -/
def getAncestry (all : AddressMap) (txs : List Transaction) (txId : TxId) (vout : Nat)
    (fuel : Nat) : Option (List (List UnspentOutput)) :=
  (getCoinsFromTransactions all txs).bind fun coins =>
    ancestryLoop (coins.insertNew (coinId txId vout) .empty) (pass1 txs).txMap fuel
      [(coins.get? (coinId txId vout)).getD .empty]

/-! ## the spend relation -/

/-- `T` spends an output of `U`, both transactions of the list -/
def Spends (txs : List Transaction) (T U : Transaction) : Prop :=
  T ∈ txs ∧ U ∈ txs ∧ ∃ i ∈ T.inputs, i.txid = U.txid

/-- a rank that every spend lowers makes the spend relation acyclic -/
theorem acyclic_of_rank {txs : List Transaction} (rank : Transaction → Nat)
    (h : ∀ T ∈ txs, ∀ U ∈ txs, (∃ i ∈ T.inputs, i.txid = U.txid) → rank U < rank T)
    (T : Transaction) :
    ¬ Relation.TransGen (Spends txs) T T := by
  have hlt : ∀ {a b}, Relation.TransGen (Spends txs) a b → rank b < rank a := fun hab => by
    induction hab with
    | single hs => exact h _ hs.1 _ hs.2.1 hs.2.2
    | tail _ hs ih => exact Nat.lt_trans (h _ hs.1 _ hs.2.1 hs.2.2) ih
  exact fun hT => Nat.lt_irrefl _ (hlt hT)

theorem transGen_of_chain {α : Type} {R : α → α → Prop} :
    ∀ {a : α} {l : List α}, List.Chain R a l → ∀ {x}, x ∈ l → Relation.TransGen R a x
  | _, b :: l, h, x, hx => by
    rcases List.chain_cons.mp h with ⟨hab, hl⟩
    rcases List.mem_cons.mp hx with rfl | hx
    · exact .single hab
    · exact .head hab (transGen_of_chain hl hx)

/-- a chain of an acyclic relation repeats nothing -/
theorem nodup_of_chain {α : Type} {R : α → α → Prop} (hacyc : ∀ x, ¬ Relation.TransGen R x x) :
    ∀ {a : α} {l : List α}, List.Chain R a l → (a :: l).Nodup
  | _, [], _ => List.nodup_singleton _
  | a, b :: l, h => by
    rcases List.chain_cons.mp h with ⟨hab, hl⟩
    refine List.nodup_cons.mpr ⟨fun ha => ?_, nodup_of_chain hacyc hl⟩
    rcases List.mem_cons.mp ha with rfl | ha
    · exact hacyc a (.single hab)
    · exact hacyc a (.head hab (transGen_of_chain hl ha))

/-! ## the rounds follow spends -/

section
variable {txs : List Transaction} {coins : CoinMap} {txMap : TxId → Option Transaction}
  (hkey : ∀ k c, coins.get? k = some c → c.txid = k.1)
  (hmap : ∀ id T, txMap id = some T → T ∈ txs ∧ T.txid = id)
include hkey hmap

/-- a coin `m + 1` rounds back: `m + 1` transactions of the list, the deepest first, each spent
by the next, the deepest spending the coin -/
theorem chain_of_mem_iterate {ps : List UnspentOutput} :
    ∀ {m : Nat} {c : UnspentOutput}, c ∈ (grandparents coins txMap)^[m + 1] ps →
      ∃ T l, l.length = m ∧ (∀ U ∈ T :: l, U ∈ txs) ∧
        List.Chain (fun U T => Spends txs T U) T l ∧ ∃ i ∈ T.inputs, i.txid = c.txid
  | m, c, h => by
    rw [Function.iterate_succ_apply'] at h
    obtain ⟨c', hc', T', hT', i, hi, hc⟩ := (mem_grandparents coins txMap).mp h
    obtain ⟨hT'm, hT'id⟩ := hmap _ _ hT'
    have hic : i.txid = c.txid := (hkey _ _ hc).symm
    cases m with
    | zero => exact ⟨T', [], rfl, by simpa using hT'm, List.Chain.nil, i, hi, hic⟩
    | succ m =>
      obtain ⟨T, l, hl, hmem, hch, j, hj, hjc⟩ := chain_of_mem_iterate hc'
      refine ⟨T', T :: l, by simp [hl], fun U hU => ?_,
        List.Chain.cons ⟨hmem T (List.mem_cons_self _ _), hT'm, j, hj, hjc.trans hT'id.symm⟩ hch,
        i, hi, hic⟩
      rcases List.mem_cons.mp hU with rfl | hU
      · exact hT'm
      · exact hmem U hU

/-- with an acyclic spend relation, round `N + 1` finds nothing -/
theorem iterate_length_succ_nil (hacyc : ∀ T, ¬ Relation.TransGen (Spends txs) T T)
    (ps : List UnspentOutput) : (grandparents coins txMap)^[txs.length + 1] ps = [] := by
  refine List.eq_nil_iff_forall_not_mem.mpr fun c hc => ?_
  obtain ⟨T, l, hl, hmem, hch, -⟩ := chain_of_mem_iterate hkey hmap hc
  have hnd := nodup_of_chain (fun x hx => hacyc x (Relation.transGen_swap.mp hx)) hch
  have := (List.subperm_of_subset hnd hmem).length_le
  simp only [List.length_cons, hl] at this
  omega

end

/-! ## `GetAncestry` -/

theorem getAncestry_eq {all : AddressMap} {txs : List Transaction} {coins : CoinMap}
    (hc : getCoinsFromTransactions all txs = some coins) (txId : TxId) (vout : Nat) (fuel : Nat) :
    getAncestry all txs txId vout fuel =
      ancestryLoop (coins.insertNew (coinId txId vout) .empty) (pass1 txs).txMap fuel
        [(coins.get? (coinId txId vout)).getD .empty] := by
  rw [getAncestry, hc, Option.some_bind]

/-- the coin map of a list with distinct txids and in-range inputs holds each coin under its own
key -/
theorem txid_of_get?_coins {all : AddressMap} {txs : List Transaction} (hd : DistinctTxids txs)
    (hr : InputsInRange txs) {coins : CoinMap} (hc : getCoinsFromTransactions all txs = some coins)
    {k : CoinKey} {c : UnspentOutput} (h : coins.get? k = some c) : c.txid = k.1 := by
  rw [getCoinsFromTransactions_eq all hd hr, Option.some.injEq] at hc
  have hw := wellKeyed_applyWrites all wellKeyed_empty (txs.flatMap (txWrites all (pass1 txs)))
  rw [hc] at hw
  have hk : coinId c.txid c.vout = k := hw.2 _ (Dict.mem_of_findEntry h)
  rw [← hk]
  rfl

/-- On a list of `N` transactions with distinct txids, in-range inputs and an acyclic spend
relation, for a requested coin that is a key of the coin map: `GetAncestry` ends within `N + 1`
rounds, returns no empty level, and, with level `0` the requested coin, a coin is in level
`k + 1` exactly when it is the coin of a key of the map that is an input of the transaction
creating a coin of level `k`. -/
theorem getAncestry_levels (all : AddressMap) {txs : List Transaction} (hd : DistinctTxids txs)
    (hr : InputsInRange txs) (hacyc : ∀ T, ¬ Relation.TransGen (Spends txs) T T)
    {coins : CoinMap} (hc : getCoinsFromTransactions all txs = some coins) {txId : TxId}
    {vout : Nat} (hk : (coins.get? (coinId txId vout)).isSome) :
    ∃ levels, getAncestry all txs txId vout (txs.length + 1) = some levels ∧
      (∀ l ∈ levels, l ≠ []) ∧
      ∀ k c, c ∈ ((coins.get? (coinId txId vout)).toList :: levels).getD (k + 1) [] ↔
        ∃ id, coins.get? id = some c ∧
          ∃ c' ∈ ((coins.get? (coinId txId vout)).toList :: levels).getD k [],
            ∃ T ∈ txs, T.txid = c'.txid ∧ ∃ i ∈ T.inputs, i.key = id := by
  obtain ⟨c₀, hc₀⟩ := Option.isSome_iff_exists.mp hk
  -- the insertion of `coins[CoinId(tx_id, vout)]` finds the key and changes nothing
  have hins : (coins.insertNew (coinId txId vout) .empty).get? = coins.get? := by
    funext k
    simp only [Dict.insertNew, Dict.get?_upsert, hc₀, Option.getD_some, id]
    split <;> simp_all
  have hmap : ∀ id T, (pass1 txs).txMap id = some T → T ∈ txs ∧ T.txid = id :=
    fun _ _ h => (txMap_pass1_eq_some hd).mp h
  have hkey : ∀ k c, (coins.insertNew (coinId txId vout) .empty).get? k = some c → c.txid = k.1 :=
    fun k c h => txid_of_get?_coins hd hr hc (hins ▸ h)
  obtain ⟨levels, hl⟩ := Option.isSome_iff_exists.mp (isSome_ancestryLoop _ _
    (iterate_length_succ_nil hkey hmap hacyc [c₀]) (Nat.le_refl _))
  obtain ⟨hiter, hne⟩ := levels_ancestryLoop _ _ hl
  refine ⟨levels, by rw [getAncestry_eq hc, hc₀]; exact hl, hne, fun k c => ?_⟩
  rw [hc₀, Option.toList_some, hiter, hiter, Function.iterate_succ_apply', mem_grandparents, hins]
  constructor
  · rintro ⟨c', hc', T, hT, i, hi, hic⟩
    exact ⟨i.key, hic, c', hc', T, (hmap _ _ hT).1, (hmap _ _ hT).2, i, hi, rfl⟩
  · rintro ⟨_, hid, c', hc', T, hT, hTid, i, hi, rfl⟩
    exact ⟨c', hc', T, (txMap_pass1_eq_some hd).mpr ⟨hT, hTid⟩, i, hi, hid⟩

/-- a confirmed spend of `f:0` with two outputs to the wallet -/
def splitTx : Transaction :=
  { txid := "t", height := 101, inputs := [⟨"f", 0⟩], outputs := [⟨"ext0", 500⟩, ⟨"ext1", 400⟩],
    status := .confirmed }

/-- a confirmed spend of both outputs of `t` -/
def consolidateTx : Transaction :=
  { txid := "x", height := 102, inputs := [⟨"t", 0⟩, ⟨"t", 1⟩], outputs := [⟨"ext0", 800⟩],
    status := .confirmed }

theorem getAncestry_levels_consolidated :
    DistinctTxids [fundingTx, splitTx, consolidateTx] ∧
      InputsInRange [fundingTx, splitTx, consolidateTx] ∧
      (∀ T ∈ [fundingTx, splitTx, consolidateTx], ∀ U ∈ [fundingTx, splitTx, consolidateTx],
        (∃ i ∈ T.inputs, i.txid = U.txid) → U.height.toNat < T.height.toNat) ∧
      ∃ coins, getCoinsFromTransactions demoAddresses [fundingTx, splitTx, consolidateTx] =
        some coins ∧ (coins.get? (coinId "x" 0)).isSome ∧
        ∃ levels, getAncestry demoAddresses [fundingTx, splitTx, consolidateTx] "x" 0 4 =
          some levels ∧ (∀ l ∈ levels, l ≠ []) ∧
          ∀ k c, c ∈ ((coins.get? (coinId "x" 0)).toList :: levels).getD (k + 1) [] ↔
            ∃ id, coins.get? id = some c ∧
              ∃ c' ∈ ((coins.get? (coinId "x" 0)).toList :: levels).getD k [],
                ∃ T ∈ [fundingTx, splitTx, consolidateTx], T.txid = c'.txid ∧
                  ∃ i ∈ T.inputs, i.key = id := by
  have hd : DistinctTxids [fundingTx, splitTx, consolidateTx] := by decide
  have hr : InputsInRange [fundingTx, splitTx, consolidateTx] := by decide
  have hrank : ∀ T ∈ [fundingTx, splitTx, consolidateTx], ∀ U ∈ [fundingTx, splitTx, consolidateTx],
      (∃ i ∈ T.inputs, i.txid = U.txid) → U.height.toNat < T.height.toNat := by decide
  obtain ⟨coins, hc⟩ := Option.isSome_iff_exists.mp (by decide :
    (getCoinsFromTransactions demoAddresses [fundingTx, splitTx, consolidateTx]).isSome)
  have hk : (coins.get? (coinId "x" 0)).isSome := by
    rw [getCoinsFromTransactions_eq demoAddresses hd hr, Option.some.injEq] at hc
    subst hc
    decide
  exact ⟨hd, hr, hrank, coins, hc, hk,
    getAncestry_levels demoAddresses hd hr (acyclic_of_rank (·.height.toNat) hrank) hc hk⟩

/-- `GetAncestry(x, 0)` over `f`, `t`, `x`: the two coins of `t` in level 1 each push `f:0`, so
level 2 lists `f:0` twice. -/
theorem ancestry_repeats_coin :
    DistinctTxids [fundingTx, splitTx, consolidateTx] ∧
      InputsInRange [fundingTx, splitTx, consolidateTx] ∧
      (getAncestry demoAddresses [fundingTx, splitTx, consolidateTx] "x" 0 4).map
        (·.map (·.map fun c => (c.txid, c.vout))) =
        some [[("t", 0), ("t", 1)], [("f", 0), ("f", 0)]] := by
  decide

/-- a confirmed spend of `f:0` paying an address outside the wallet -/
def payOutTx : Transaction :=
  { txid := "p", height := 101, inputs := [⟨"f", 0⟩], outputs := [⟨"out", 900⟩],
    status := .confirmed }

/-- `GetAncestry(p, 0)`: `p:0` is not a coin, so the loop starts from the default coin, whose
empty txid names no transaction; the answer has no level, though `p`, which created `p:0`,
spends the coin `f:0`. -/
theorem ancestry_of_foreign_output :
    getAncestry demoAddresses [fundingTx, payOutTx] "p" 0 3 = some [] ∧
      ∃ coins, getCoinsFromTransactions demoAddresses [fundingTx, payOutTx] = some coins ∧
        coins.get? (coinId "p" 0) = none ∧ (coins.get? (coinId "f" 0)).isSome ∧
        (⟨"f", 0⟩ : TxInput) ∈ payOutTx.inputs := by
  decide

end Nunchuk
