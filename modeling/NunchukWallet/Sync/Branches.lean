import NunchukWallet.Store.Writers
import NunchukWallet.Sync.Update

/-!
# The two branches of `UpdateTransactions` on a consistent server

`UpdateTransactions` has a batch branch, taken when the server takes batched requests, and a
sequential branch. The batch branch looks the whole history up in the store first, then fetches
and stores; the sequential branch looks each entry up just before it fetches it, in a store the
entries before it have written. The batch branch keeps, in its eviction, the transactions the
batch request answered; the sequential branch keeps those it processed.

On a history whose transactions are distinct, and a server whose batched answer is what single
requests answer and which returns each transaction of the history under its hash, both branches do
the same thing, which `storeHistory` states: every entry not stored as CONFIRMED before the pass
is fetched and stored, in history order. Storing one entry writes the HEIGHT of its own row only,
so the lookups of the sequential branch read what the batch branch read up front. The server
`fallback_fetch_evicted` uses answers a batch without a transaction its single request returns,
and there the branches part.

* `TxM.run_bind`, `run_liftVtx`       running the steps of `UpdateTransactions`;
* `KeepsHeight`, `keepsHeight_storeFetched`   storing a fetched transaction writes the HEIGHT of
                                      its own row only, whether it returns or throws;
* `storedStatus_eq_confirmed`         the lookup of either branch reads HEIGHT alone;
* `toFetch`, `storeHistory`           the entries both branches fetch, and what both do;
* `batchLoop_eq_storeHistory`, `sequentialLoop_run`   each loop is `storeHistory`;
* `updateTransactions_eq_sequentialBranch`   whether the server takes batched requests or not,
                                      `UpdateTransactions` does what its sequential branch does.
-/

namespace Nunchuk

/-! ## running `TxM` -/

namespace TxM
variable {α β : Type} (tw : TxWorld)

@[simp] theorem run_pure (a : α) : (pure a : TxM α).run tw = (.ok a, tw) := rfl
@[simp] theorem run_get : (get : TxM TxWorld).run tw = (.ok tw, tw) := rfl
@[simp] theorem run_throw (e : SyncError) : (throw e : TxM α).run tw = (.error e, tw) := rfl

theorem run_bind (x : TxM α) (f : α → TxM β) :
    (x >>= f).run tw = match x.run tw with
      | (.ok a, tw') => (f a).run tw'
      | (.error e, tw') => (.error e, tw') := by
  show (ExceptT.bind x f).run tw = _
  simp only [ExceptT.bind, ExceptT.run, ExceptT.mk, bind, StateT.bind]
  rcases x tw with ⟨_ | a, tw'⟩ <;> rfl

end TxM

theorem run_liftVtx {α : Type} (f : Vtx → Except StoreError (α × Vtx)) (tw : TxWorld) :
    (liftVtx f).run tw = match f tw.vtx with
      | .ok (a, v) => (.ok a, { tw with vtx := v })
      | .error e => (.error (.store e), tw) := by
  unfold liftVtx
  rw [TxM.run_bind, TxM.run_get]
  dsimp only
  cases f tw.vtx <;> rfl

/-! ## the HEIGHT of the other rows -/

/-- every run of `x` leaves the HEIGHT of the row `y`, whether it returns or throws -/
def KeepsHeight {α : Type} (y : TxId) (x : TxM α) : Prop :=
  ∀ tw, heightOf (x.run tw).2.vtx y = heightOf tw.vtx y

section
variable {α β : Type} {y : TxId}

theorem KeepsHeight.bind {x : TxM α} {f : α → TxM β} (hx : KeepsHeight y x)
    (hf : ∀ a, KeepsHeight y (f a)) : KeepsHeight y (x >>= f) := fun tw => by
  rw [TxM.run_bind]
  rcases hr : x.run tw with ⟨_ | a, tw'⟩
  · have := hx tw; rwa [hr] at this
  · have := hx tw; rw [hr] at this; exact (hf a tw').trans this

theorem keepsHeight_pure (a : α) : KeepsHeight y (pure a : TxM α) := fun _ => rfl

theorem keepsHeight_notify (txId : TxId) (status : TransactionStatus) :
    KeepsHeight y (notify txId status) := fun _ => rfl

theorem keepsHeight_liftVtx {f : Vtx → Except StoreError (α × Vtx)}
    (hf : ∀ v a v', f v = .ok (a, v') → heightOf v' y = heightOf v y) :
    KeepsHeight y (liftVtx f) := fun tw => by
  rw [run_liftVtx]
  rcases hr : f tw.vtx with _ | ⟨a, v⟩
  · rfl
  · exact hf _ _ _ hr

end

/-- `UpdateTransaction` writes the HEIGHT of the row of its payload's transaction only -/
theorem heightOf_updateTransaction {raw : Payload} {h t : Int} {msg : String} {v v' : Vtx}
    {u : Bool} (e : updateTransaction raw h t msg v = .ok (u, v')) {y : TxId}
    (hy : raw.tx.txid ≠ y) : heightOf v' y = heightOf v y := by
  unfold updateTransaction at e
  split at e
  · rw [updateUnbroadcast_heights e]
  · obtain ⟨tx, rfl, he⟩ := updateBroadcast_heights e
    rw [he]
    exact if_neg hy

/-- `InsertTransaction` writes the HEIGHT of the row of its payload's transaction only -/
theorem heightOf_insertTransaction {raw : Payload} {h t : Int} {fee : Amount} {memo : String}
    {c : Int} {v v' : Vtx} {id : TxId} (e : insertTransaction raw h t fee memo c v = .ok (id, v'))
    {y : TxId} (hy : raw.tx.txid ≠ y) : heightOf v' y = heightOf v y := by
  obtain ⟨tx, rfl, he⟩ := insertTransaction_heights e
  rw [he]
  exact Function.update_noteq (Ne.symm hy) _ _

/-- storing a fetched transaction writes the HEIGHT of its own row only -/
theorem keepsHeight_storeFetched (b : Backend) (ready : Bool) (item : HistoryItem) (raw : Payload)
    (found : Bool) {y : TxId} (hy : raw.tx.txid ≠ y) :
    KeepsHeight y (storeFetched b ready item raw found) := by
  have hnote : ∀ status, KeepsHeight y
      (if ready = true then notify item.txHash status else pure PUnit.unit) := fun _ => by
    split
    exacts [keepsHeight_notify _ _, keepsHeight_pure _]
  unfold storeFetched
  dsimp only
  split
  · exact (keepsHeight_liftVtx fun _ _ _ e => heightOf_updateTransaction e hy).bind fun _ =>
      (keepsHeight_pure _).bind fun _ => hnote _
  · exact (keepsHeight_liftVtx fun _ _ _ e => heightOf_insertTransaction e hy).bind fun _ =>
      (keepsHeight_pure _).bind fun _ => hnote _

/-! ## the lookup reads HEIGHT -/

theorem statusOfHeight_eq_confirmed {m : Nat} {tx : TxData} {h : Int} :
    statusOfHeight m tx h = .confirmed ↔ 0 < h := by
  unfold statusOfHeight
  split_ifs <;> simp_all

theorem rowStatus_eq_confirmed {m : Nat} {r : VtxRow} :
    rowStatus m r = .confirmed ↔ 0 < r.height := by
  unfold rowStatus
  rcases r.extra with _ | j
  · exact statusOfHeight_eq_confirmed
  · dsimp only
    split_ifs with h
    · rw [← @statusOfHeight_eq_confirmed m r.value.tx, h.1]
      decide
    · exact statusOfHeight_eq_confirmed

/-- `GetTransaction` reports CONFIRMED exactly for a row above height 0 -/
theorem storedStatus_eq_confirmed {m : Nat} {v : Vtx} {id : TxId} :
    storedStatus m v id = some .confirmed ↔ ∃ h, heightOf v id = some h ∧ 0 < h := by
  unfold storedStatus heightOf
  cases v.get? id with
  | none => simp
  | some r => simp [rowStatus_eq_confirmed]

theorem isSome_storedStatus (m : Nat) (v : Vtx) (id : TxId) :
    (storedStatus m v id).isSome = (heightOf v id).isSome := by
  simp [storedStatus, heightOf]

/-! ## what both branches do -/

section
variable (m : Nat) (b : Backend) (ready : Bool) (all : AddressMap)

/-- the ids of the entries not stored as CONFIRMED in `v`: those both branches fetch -/
def toFetch (v : Vtx) (items : List HistoryItem) : List TxId :=
  (items.filter fun item => storedStatus m v item.txHash != some .confirmed).map (·.txHash)

/-- what both branches do with the history against the table `v` as it was before the pass:
every entry not stored as CONFIRMED there is fetched with a single request and stored, as an
update when it was stored -/
def storeHistory (v : Vtx) : List HistoryItem → TxM Unit
  | [] => pure ()
  | item :: items =>
    if storedStatus m v item.txHash = some .confirmed then storeHistory v items
    else
      match b.transactionGet item.txHash with
      | some raw => do
        storeFetched b ready item raw (storedStatus m v item.txHash).isSome
        storeHistory v items
      | none => throw .server

/-- the first loop of the batch branch: the ids to fetch, and for each id of the history whether
it is stored -/
theorem batchScan_eq (v : Vtx) : ∀ (items : List HistoryItem) (hs : List TxId)
    (founds : Dict TxId Bool),
    (batchScan m v items (hs, founds)).1 = hs ++ toFetch m v items ∧
      ∀ id, (batchScan m v items (hs, founds)).2.get? id =
        if id ∈ items.map (·.txHash) then some (storedStatus m v id).isSome else founds.get? id
  | [], hs, founds => by simp [batchScan, toFetch]
  | item :: items, hs, founds => by
    have step : ∀ (hs' : List TxId) (x : Bool),
        (storedStatus m v item.txHash = some .confirmed → hs' = hs) →
        (storedStatus m v item.txHash ≠ some .confirmed → hs' = hs ++ [item.txHash]) →
        x = (storedStatus m v item.txHash).isSome →
        (batchScan m v items (hs', founds.set item.txHash x)).1 =
            hs ++ toFetch m v (item :: items) ∧
          ∀ id, (batchScan m v items (hs', founds.set item.txHash x)).2.get? id =
            if id ∈ (item :: items).map (·.txHash) then some (storedStatus m v id).isSome
            else founds.get? id := by
      intro hs' x h₁ h₂ hx
      obtain ⟨ih₁, ih₂⟩ := batchScan_eq v items hs' (founds.set item.txHash x)
      refine ⟨?_, fun id => ?_⟩
      · rw [ih₁]
        by_cases hc : storedStatus m v item.txHash = some .confirmed
        · simp [toFetch, hc, h₁ hc]
        · simp [toFetch, hc, h₂ hc]
      · rw [ih₂, Dict.set, Dict.get?_upsert]
        by_cases hi : item.txHash = id
        · subst hi; simp [hx]
        · simp [hi, Ne.symm hi]
    unfold batchScan
    split
    · next h => exact step _ _ (fun _ => rfl) (fun hc => absurd h hc) (by rw [h]; rfl)
    · next st hne heq =>
      exact step _ _ (fun hc => absurd (Option.some.inj (heq.symm.trans hc)) hne) (fun _ => rfl)
        (by rw [heq]; rfl)
    · next h =>
      exact step _ _ (fun hc => by rw [h] at hc; cases hc) (fun _ => rfl) (by rw [h]; rfl)

/-- the second loop of the batch branch is `storeHistory`, when the batch answered every entry to
fetch as the single request does and the single request answers -/
theorem batchLoop_eq_storeHistory (v : Vtx) (hs : List TxId) (founds : Dict TxId Bool)
    (answered : Dict TxId Payload) (synced : Bool) :
    ∀ items : List HistoryItem,
      (∀ item ∈ items, hs.contains item.txHash =
        (storedStatus m v item.txHash != some .confirmed)) →
      (∀ item ∈ items,
        (founds.get? item.txHash).getD false = (storedStatus m v item.txHash).isSome) →
      (∀ item ∈ items, hs.contains item.txHash →
        answered.get? item.txHash = b.transactionGet item.txHash) →
      (∀ item ∈ items, (b.transactionGet item.txHash).isSome) →
      batchLoop b ready hs founds answered items synced =
        storeHistory m b ready v items >>= fun _ => pure synced
  | [], _, _, _, _ => by simp [batchLoop, storeHistory]
  | item :: items, hfetch, hfound, hans, hget => by
    have ih := batchLoop_eq_storeHistory v hs founds answered synced items
      (fun i hi => hfetch i (List.mem_cons_of_mem _ hi))
      (fun i hi => hfound i (List.mem_cons_of_mem _ hi))
      (fun i hi => hans i (List.mem_cons_of_mem _ hi))
      (fun i hi => hget i (List.mem_cons_of_mem _ hi))
    have hf := hfetch item (List.mem_cons_self _ _)
    obtain ⟨raw, hraw⟩ := Option.isSome_iff_exists.mp (hget item (List.mem_cons_self _ _))
    unfold batchLoop storeHistory
    by_cases hc : storedStatus m v item.txHash = some .confirmed
    · rw [hc, bne_self_eq_false] at hf
      rw [if_neg (by rw [hf]; decide), if_pos hc, ih]
    · have hcon : hs.contains item.txHash = true := by rw [hf]; simpa using hc
      rw [if_pos hcon, hans item (List.mem_cons_self _ _) hcon, if_neg hc, hraw,
        hfound item (List.mem_cons_self _ _), ih]
      simp only [Option.some_orElse, bind_assoc]

/-- the loop of the sequential branch is `storeHistory` against the table before the pass, as
long as the rows of the entries still to come hold the HEIGHT they held then -/
theorem sequentialLoop_run (v : Vtx) :
    ∀ (items : List HistoryItem) (hs : List TxId) (tw : TxWorld),
      (items.map (·.txHash)).Nodup →
      (∀ item ∈ items, ∃ raw, b.transactionGet item.txHash = some raw ∧
        raw.tx.txid = item.txHash) →
      (∀ item ∈ items, heightOf tw.vtx item.txHash = heightOf v item.txHash) →
      (sequentialLoop m b ready items hs).run tw =
        (storeHistory m b ready v items >>= fun _ => pure (hs ++ toFetch m v items)).run tw
  | [], hs, tw, _, _, _ => by simp [sequentialLoop, storeHistory, toFetch]
  | item :: items, hs, tw, hnd, hget, hh => by
    rw [List.map_cons, List.nodup_cons] at hnd
    have hh₀ := hh item (List.mem_cons_self _ _)
    have hconf : storedStatus m tw.vtx item.txHash = some .confirmed ↔
        storedStatus m v item.txHash = some .confirmed := by
      rw [storedStatus_eq_confirmed, storedStatus_eq_confirmed, hh₀]
    have hsome : (storedStatus m tw.vtx item.txHash).isSome =
        (storedStatus m v item.txHash).isSome := by
      rw [isSome_storedStatus, isSome_storedStatus, hh₀]
    obtain ⟨raw, hraw, hid⟩ := hget item (List.mem_cons_self _ _)
    have hget' := fun i hi => hget i (List.mem_cons_of_mem item hi)
    unfold sequentialLoop storeHistory
    rw [TxM.run_bind, TxM.run_get]
    dsimp only
    by_cases hc : storedStatus m v item.txHash = some .confirmed
    · rw [if_pos hc, hconf.mpr hc]
      dsimp only
      rw [sequentialLoop_run v items hs tw hnd.2 hget' fun i hi =>
        hh i (List.mem_cons_of_mem _ hi)]
      simp [toFetch, hc]
    · split
      · next h => exact absurd (hconf.mp h) hc
      · next st hst =>
        rw [if_neg hc, hraw]
        simp only [bind_assoc, TxM.run_bind, hst, ← hsome]
        rcases hr :
            (storeFetched b ready item raw (storedStatus m tw.vtx item.txHash).isSome).run tw with
          ⟨_ | _, tw₁⟩
        · rfl
        · have hkeep : ∀ i ∈ items, heightOf tw₁.vtx i.txHash = heightOf v i.txHash :=
            fun i hi => by
            have hne : raw.tx.txid ≠ i.txHash := fun he =>
              hnd.1 (by rw [← hid, he]; exact List.mem_map_of_mem _ hi)
            have := keepsHeight_storeFetched b ready item raw
              (storedStatus m tw.vtx item.txHash).isSome hne tw
            rw [hr] at this
            rw [this, hh i (List.mem_cons_of_mem _ hi)]
          dsimp only
          have hcons : toFetch m v (item :: items) = item.txHash :: toFetch m v items := by
            simp [toFetch, hc]
          rw [sequentialLoop_run v items _ tw₁ hnd.2 hget' hkeep, hcons, List.append_assoc,
            List.singleton_append, TxM.run_bind]

theorem mem_toFetch {v : Vtx} {items : List HistoryItem} {id : TxId} :
    id ∈ toFetch m v items ↔
      (∃ item ∈ items, item.txHash = id) ∧ storedStatus m v id ≠ some .confirmed := by
  simp only [toFetch, List.mem_map, List.mem_filter, bne_iff_ne, ne_eq]
  constructor
  · rintro ⟨item, ⟨hi, hc⟩, rfl⟩
    exact ⟨⟨item, hi, rfl⟩, hc⟩
  · rintro ⟨⟨item, hi, rfl⟩, hc⟩
    exact ⟨item, ⟨hi, hc⟩, rfl⟩

end

/-- Whether or not the server takes batched requests, `UpdateTransactions` does what its
sequential branch does, on a history whose transactions are distinct and a server that returns
each transaction of the history under its hash and whose batched answer is what single requests
answer: the same writes, notifications and evictions, and the same throw at the same point. -/
theorem updateTransactions_eq_sequentialBranch (m : Nat) (b : Backend) (ready : Bool)
    (all : AddressMap) (history : List HistoryItem) (hd : (history.map (·.txHash)).Nodup)
    (hget : ∀ item ∈ history, ∃ raw, b.transactionGet item.txHash = some raw ∧
      raw.tx.txid = item.txHash)
    (hmulti : ∀ ids id,
      (b.multiRawtx ids).get? id = if id ∈ ids then b.transactionGet id else none)
    (tw : TxWorld) :
    (updateTransactions m b ready all history).run tw =
      (sequentialBranch m b ready all history).run tw := by
  unfold updateTransactions
  split
  · unfold batchBranch sequentialBranch
    simp only [TxM.run_bind, TxM.run_get]
    obtain ⟨h1, h2⟩ := batchScan_eq m tw.vtx history [] Dict.empty
    rw [List.nil_append] at h1
    have hsome : ∀ item ∈ history, (b.transactionGet item.txHash).isSome := fun i hi => by
      obtain ⟨raw, h, -⟩ := hget i hi
      rw [h]; rfl
    have hcontains : ∀ id,
        (toFetch m tw.vtx history).contains id = decide (id ∈ toFetch m tw.vtx history) :=
      fun id => by simp
    have hkeep : (fun id => ((b.multiRawtx (toFetch m tw.vtx history)).get? id).isSome) =
        fun id => (toFetch m tw.vtx history).contains id := funext fun id => by
      rw [hmulti, hcontains]
      split
      · next h =>
        obtain ⟨⟨i, hi, rfl⟩, -⟩ := (mem_toFetch m).mp h
        simp [hsome i hi, h]
      · next h => simp [h]
    rw [h1, batchLoop_eq_storeHistory m b ready tw.vtx _ _ _ true history
      (fun i hi => by
        rw [hcontains, Bool.eq_iff_iff, decide_eq_true_iff, mem_toFetch, bne_iff_ne]
        exact ⟨fun h => h.2, fun h => ⟨⟨i, hi, rfl⟩, h⟩⟩)
      (fun i hi => by rw [h2, if_pos (List.mem_map_of_mem _ hi)]; rfl)
      (fun i hi hc => by rw [hmulti, if_pos (by rwa [hcontains, decide_eq_true_eq] at hc)])
      hsome, sequentialLoop_run m b ready tw.vtx history [] tw hd hget fun _ _ => rfl]
    simp only [TxM.run_bind, List.nil_append, hkeep]
    generalize ExceptT.run (storeHistory m b ready tw.vtx history) tw = r
    rcases r with ⟨_ | _, tw'⟩ <;> rfl
  · rfl

/-- a server that answers every request for `R`, batched or single -/
def consistentBackend : Backend :=
  ⟨true, fun ids => if "R" ∈ ids then ⟨[("R", .rawTx receiveTx)]⟩ else Dict.empty,
    fun id => if id = "R" then some (.rawTx receiveTx) else none,
    fun _ => 0, id, fun _ => "", fun _ => []⟩

theorem updateTransactions_consistent_receive :
    (updateTransactions 1 consistentBackend true Dict.empty [⟨"R", 0, none⟩]).run
        ⟨Dict.empty, []⟩ =
      (sequentialBranch 1 consistentBackend true Dict.empty [⟨"R", 0, none⟩]).run
        ⟨Dict.empty, []⟩ :=
  updateTransactions_eq_sequentialBranch 1 consistentBackend true Dict.empty _
    (by decide)
    (fun i hi => by rw [List.mem_singleton.mp hi]; exact ⟨.rawTx receiveTx, by decide, rfl⟩)
    (fun ids id => by
      by_cases hid : id = "R"
      · subst hid
        by_cases hR : "R" ∈ ids <;> simp [consistentBackend, Dict.get?, Dict.findEntry, hR]
      · have hid' : ¬"R" = id := fun h => hid h.symm
        by_cases hR : "R" ∈ ids <;>
          simp [consistentBackend, Dict.get?, Dict.findEntry, hR, hid, hid'])
    _

end Nunchuk
