import NunchukWallet.Store.Vtx

/-!
# What the writers do to HEIGHT and EXTRA

One lemma per writer gives the HEIGHT column after a successful call from the column before.
From them:

* `vtxOp_back_to_unbroadcast`   a row at height ≥ 0 is at -1 after a call only if the call is
                                `CreatePsbt` of its txid, or `InsertTransaction` of its txid at
                                height -1 (both overwrite HEIGHT in their ON CONFLICT clause);
* `confirmed_row_reset_by_createPsbt`   `InsertTransaction` at height 100 then `CreatePsbt` of
                                the same transaction leaves the row at -1.

EXTRA is `''` in a row `InsertTransaction` created until another writer rewrites it, and three of
its readers parse it unguarded:

* `updateTransaction_replacing_synced_row_throws`   broadcasting a PSBT whose `replace_txid`
                                names such a row throws in `SetReplacedBy`;
* `synced_replaced_broadcast_throws`   the calls that reach that state from an empty table;

The broadcast of an unbroadcast row moves its signer map into EXTRA and marks the transaction it
replaces, but only under `if (height <= 0)`:

* `updateTransaction_broadcast_migrates`   at a broadcast height ≤ 0, the row takes the payload,
                                the height and its EXTRA with the signer map of the stored PSBT,
                                the replaced row gets `replaced_by_txid`, and no other row changes;
* `mined_broadcast_skips_migration`   a broadcast first seen mined keeps neither.
-/

namespace Nunchuk

/-- the HEIGHT column -/
def heightOf (s : Vtx) (id : TxId) : Option Int := (s.get? id).map (·.height)

theorem heightOf_modify (s : Vtx) (k : TxId) (f : VtxRow → VtxRow)
    (hf : ∀ r, (f r).height = r.height) : heightOf (s.modify k f) = heightOf s := by
  funext id
  by_cases h : k = id
  · subst h; simp [heightOf, Option.map_map, Function.comp_def, hf]
  · simp [heightOf, h]

theorem heightOf_modify_set (s : Vtx) (k : TxId) (f : VtxRow → VtxRow) (h : Int)
    (hf : ∀ r, (f r).height = h) :
    heightOf (s.modify k f) = fun id => if k = id then (heightOf s k).map fun _ => h
      else heightOf s id := by
  funext id
  by_cases hk : k = id
  · subst hk; simp [heightOf, Option.map_map, Function.comp_def, hf]
  · simp [heightOf, hk]

theorem heightOf_upsert (s : Vtx) (k : TxId) (d : VtxRow) (f : VtxRow → VtxRow) (h : Int)
    (hf : ∀ r, (f r).height = h) :
    heightOf (s.upsert k d f) = Function.update (heightOf s) k (some h) := by
  funext id
  by_cases hk : k = id
  · subst hk; simp [heightOf, hf]
  · simp [heightOf, hk, Function.update_noteq (Ne.symm hk)]

/-- no row of `s` that is off height -1 is at height -1 in `s'` -/
def KeepsOffUnbroadcast (s s' : Vtx) : Prop :=
  ∀ id h, heightOf s id = some h → heightOf s' id = some (-1) → h = -1

theorem keepsOff_of_heightOf_eq {s s' : Vtx} (e : heightOf s' = heightOf s) :
    KeepsOffUnbroadcast s s' := fun id h h₀ h₁ => by
  rw [e, h₀] at h₁; exact Option.some.inj h₁

/-- a write of one height that brings a row of another height to `-1` is a write of that row,
at `-1` -/
theorem eq_of_update_heights {s s' : Vtx} {t id : TxId} {v : Option Int} {x : Int}
    (hh : heightOf s' = Function.update (heightOf s) t v) (hs : heightOf s id = some x)
    (hs' : heightOf s' id = some (-1)) (hne : x ≠ -1) : t = id ∧ v = some (-1) := by
  rw [hh] at hs'
  by_cases ht : t = id
  · subst ht
    exact ⟨rfl, by rwa [Function.update_same] at hs'⟩
  · rw [Function.update_noteq (Ne.symm ht), hs] at hs'
    exact absurd (Option.some.inj hs') hne

/-- the `<$>` of `VtxOp.run` -/
theorem map_snd_eq_ok {ε α β : Type} {x : Except ε (α × β)} {b : β} (h : (·.2) <$> x = .ok b) :
    ∃ a, x = .ok (a, b) := by
  cases x with
  | error e => cases h
  | ok p => cases h; exact ⟨p.1, rfl⟩

/-! ## one lemma per writer -/

section
variable {s s' : Vtx} {u : Bool}

theorem insertTransaction_heights {raw : Payload} {h b : Int} {f : Amount} {m : String}
    {c : Int} {t : TxId} (e : insertTransaction raw h b f m c s = .ok (t, s')) :
    ∃ tx, raw = .rawTx tx ∧ heightOf s' = Function.update (heightOf s) tx.txid (some h) := by
  obtain ⟨tx, hd, e⟩ := except_bind_eq_ok e
  cases e
  exact ⟨tx, decodeRawTransaction_eq_ok.mp hd, heightOf_upsert _ _ _ _ _ fun _ => rfl⟩

theorem createPsbt_heights {p : Payload} {f : Amount} {m : String} {c : Int}
    {o : List (Address × Amount)} {fr : Amount} {sub : Bool} {rep : TxId} {t : TxId}
    (e : createPsbt p f m c o fr sub rep s = .ok (t, s')) :
    ∃ tx, p = .psbt tx ∧ heightOf s' = Function.update (heightOf s) tx.txid (some (-1)) := by
  obtain ⟨tx, hd, e⟩ := except_bind_eq_ok e
  cases e
  exact ⟨tx, decodePsbt_eq_ok.mp hd, heightOf_upsert _ _ _ _ _ fun _ => rfl⟩

theorem updatePsbt_heights {p : Payload} (e : updatePsbt p s = .ok (u, s')) :
    heightOf s' = heightOf s := by
  obtain ⟨tx, -, e⟩ := except_bind_eq_ok e
  split at e <;> cases e
  · rfl
  · exact heightOf_modify _ _ _ fun _ => rfl

theorem setReplacedBy_heights {o n : TxId} (e : setReplacedBy o n s = .ok s') :
    heightOf s' = heightOf s := by
  unfold setReplacedBy at e
  cases hg : s.get? o with
  | none => simp only [hg] at e; cases e; rfl
  | some r =>
    simp only [hg] at e
    obtain ⟨j, -, e⟩ := except_bind_eq_ok e
    cases e; exact heightOf_modify _ _ _ fun _ => rfl

theorem updateUnbroadcast_heights {raw : Payload} (e : updateUnbroadcast raw s = .ok (u, s')) :
    heightOf s' = heightOf s := by
  unfold updateUnbroadcast at e
  cases hg : unbroadcastRow s raw.tx.txid with
  | none => simp only [hg] at e; cases e
  | some r =>
    simp only [hg] at e
    obtain ⟨j, -, e⟩ := except_bind_eq_ok e
    cases e; exact heightOf_modify _ _ _ fun _ => rfl

theorem persistSigners_heights {txId : TxId} {msg : String} {x : Option ExtraJson}
    (e : persistSigners txId msg s = .ok (x, s')) : heightOf s' = heightOf s := by
  unfold persistSigners at e
  cases hg : unbroadcastRow s txId with
  | none => simp only [hg] at e; cases e; rfl
  | some r =>
    simp only [hg] at e
    obtain ⟨j, -, e⟩ := except_bind_eq_ok e
    split at e
    · obtain ⟨s₂, hs, e⟩ := except_bind_eq_ok e
      cases e; exact setReplacedBy_heights hs
    · cases e; rfl

theorem updateBroadcast_heights {raw : Payload} {h b : Int} {msg : String}
    (e : updateBroadcast raw h b msg s = .ok (u, s')) :
    ∃ tx, raw = .rawTx tx ∧ heightOf s' = fun id =>
      if tx.txid = id then (heightOf s tx.txid).map fun _ => h else heightOf s id := by
  obtain ⟨tx, hd, e⟩ := except_bind_eq_ok e
  obtain ⟨⟨extra, s₁⟩, hp, e⟩ := except_bind_eq_ok e
  cases e
  have h₁ : heightOf s₁ = heightOf s := by
    split at hp
    · exact persistSigners_heights hp
    · cases hp; rfl
  refine ⟨tx, decodeRawTransaction_eq_ok.mp hd, ?_⟩
  rw [heightOf_modify_set _ _ _ h (fun r => by cases extra <;> rfl), h₁]

theorem updateTransactionSchedule_heights {t : TxId} {v : Int}
    (e : updateTransactionSchedule t v s = .ok (u, s')) : heightOf s' = heightOf s := by
  unfold updateTransactionSchedule at e
  split at e
  · cases e; rfl
  · obtain ⟨j, -, e⟩ := except_bind_eq_ok e
    cases e; exact heightOf_modify _ _ _ fun _ => rfl

theorem updatePsbtTxId_heights {o n : TxId} (e : updatePsbtTxId o n s = .ok (u, s')) :
    s.get? n = none ∧ heightOf s' = fun id =>
      if o = id then none else if n = id then some (-1) else heightOf s id := by
  unfold updatePsbtTxId at e
  cases hg : unbroadcastRow s o with
  | none => simp only [hg] at e; cases e
  | some r =>
    simp only [hg] at e
    obtain ⟨s₁, hi, e⟩ := except_bind_eq_ok e
    cases e
    unfold insertFresh at hi
    split at hi
    · cases hi
    · next hn =>
      cases hi
      replace hn : s.get? n = none := by simpa using hn
      refine ⟨hn, funext fun id => ?_⟩
      by_cases ho : o = id
      · simp [deleteTransaction, heightOf, ho]
      · by_cases hi : n = id
        · subst hi; simp [deleteTransaction, heightOf, ho, hn]
        · simp [deleteTransaction, heightOf, ho, hi]

end

/-! ## back to height -1 -/

section
variable {s s' : Vtx} {u : Bool}

theorem updatePsbtTxId_keepsOff {o n : TxId} (e : updatePsbtTxId o n s = .ok (u, s')) :
    KeepsOffUnbroadcast s s' := fun id h h₀ h₁ => by
  obtain ⟨hn, e⟩ := updatePsbtTxId_heights e
  rw [e] at h₁
  by_cases ho : o = id
  · simp [ho] at h₁
  · by_cases hi : n = id
    · subst hi; simp [heightOf, hn] at h₀
    · simp only [ho, hi, if_false, h₀] at h₁; exact Option.some.inj h₁

theorem updateTransaction_keepsOff {raw : Payload} {h b : Int} {msg : String}
    (e : updateTransaction raw h b msg s = .ok (u, s')) : KeepsOffUnbroadcast s s' := by
  unfold updateTransaction at e
  split at e
  · exact keepsOff_of_heightOf_eq (updateUnbroadcast_heights e)
  · intro id h' h₀ h₁
    obtain ⟨tx, -, e⟩ := updateBroadcast_heights e
    rw [e] at h₁
    by_cases ht : tx.txid = id
    · subst ht; simp [h₀] at h₁; omega
    · simp only [ht, if_false, h₀] at h₁; exact Option.some.inj h₁

end

/-- a row at height ≥ 0 that a call leaves at height -1 was reset by `CreatePsbt` of its txid or
by `InsertTransaction` of its txid at height -1 -/
theorem vtxOp_back_to_unbroadcast {s s' : Vtx} {op : VtxOp} (e : op.run s = .ok s') {id : TxId}
    {r r' : VtxRow} (hr : s.get? id = some r) (h0 : 0 ≤ r.height) (hr' : s'.get? id = some r')
    (h1 : r'.height = -1) :
    (∃ p f m c o fr sub rep, op = .createPsbt p f m c o fr sub rep ∧ p.tx.txid = id) ∨
    (∃ raw b f m c, op = .insertTransaction raw (-1) b f m c ∧ raw.tx.txid = id) := by
  have hs : heightOf s id = some r.height := by simp [heightOf, hr]
  have hs' : heightOf s' id = some (-1) := by simp [heightOf, hr', h1]
  have hne : r.height ≠ -1 := by omega
  have keep : ¬KeepsOffUnbroadcast s s' := fun k => hne (k id _ hs hs')
  cases op with
  | insertTransaction raw h b f m c =>
    obtain ⟨_, e⟩ := map_snd_eq_ok e
    obtain ⟨tx, rfl, hh⟩ := insertTransaction_heights e
    obtain ⟨rfl, hv⟩ := eq_of_update_heights hh hs hs' hne
    cases hv
    exact .inr ⟨_, b, f, m, c, rfl, rfl⟩
  | createPsbt p f m c o fr sub rep =>
    obtain ⟨_, e⟩ := map_snd_eq_ok e
    obtain ⟨tx, rfl, hh⟩ := createPsbt_heights e
    exact .inl ⟨_, f, m, c, o, fr, sub, rep, rfl, (eq_of_update_heights hh hs hs' hne).1⟩
  | updatePsbt p =>
    obtain ⟨_, e⟩ := map_snd_eq_ok e
    exact absurd (keepsOff_of_heightOf_eq (updatePsbt_heights e)) keep
  | updatePsbtTxId o n =>
    obtain ⟨_, e⟩ := map_snd_eq_ok e
    exact absurd (updatePsbtTxId_keepsOff e) keep
  | updateTransaction raw h b msg =>
    obtain ⟨_, e⟩ := map_snd_eq_ok e
    exact absurd (updateTransaction_keepsOff e) keep
  | updateTransactionMemo t m =>
    cases e
    exact absurd (keepsOff_of_heightOf_eq
      (heightOf_modify s t (fun r => { r with memo := m }) fun _ => rfl)) keep
  | updateTransactionSchedule t v =>
    obtain ⟨_, e⟩ := map_snd_eq_ok e
    exact absurd (keepsOff_of_heightOf_eq (updateTransactionSchedule_heights e)) keep
  | deleteTransaction t =>
    cases e
    by_cases ht : t = id
    · simp [deleteTransaction, ht] at hr'
    · simp [deleteTransaction, ht, hr] at hr'; subst hr'; exact absurd h1 hne

/-- the row of a transaction the sync stored at height 100 -/
def syncedRow : VtxRow := ⟨.rawTx { txid := "A" }, 100, 0, "", -1, 0, .empty⟩

/-- the same row after `CreatePsbt` of the same transaction -/
def recreatedRow : VtxRow := ⟨.psbt { txid := "A" }, -1, 0, "", -1, 0, .empty⟩

theorem createPsbt_back_to_unbroadcast :
    (∃ p f m c o fr sub rep, VtxOp.createPsbt (.psbt { txid := "A" }) 0 "" (-1) [] 0 false "" =
        .createPsbt p f m c o fr sub rep ∧ p.tx.txid = "A") ∨
    (∃ raw b f m c, VtxOp.createPsbt (.psbt { txid := "A" }) 0 "" (-1) [] 0 false "" =
        .insertTransaction raw (-1) b f m c ∧ raw.tx.txid = "A") :=
  @vtxOp_back_to_unbroadcast ⟨[("A", syncedRow)]⟩ ⟨[("A", recreatedRow)]⟩
    (.createPsbt (.psbt { txid := "A" }) 0 "" (-1) [] 0 false "") rfl "A" syncedRow recreatedRow
    rfl (by decide) rfl rfl

/-- a confirmed transaction learned from the backend, then a PSBT of the same transaction: the
row is back at height -1 -/
theorem confirmed_row_reset_by_createPsbt :
    ((runVtxOps Dict.empty
      [.insertTransaction (.rawTx { txid := "A" }) 100 0 0 "" (-1)]).toOption.bind
      (·.get? "A")).map (·.height) = some 100 ∧
    ((runVtxOps Dict.empty [.insertTransaction (.rawTx { txid := "A" }) 100 0 0 "" (-1),
      .createPsbt (.psbt { txid := "A" }) 0 "" (-1) [] 0 false ""]).toOption.bind
      (·.get? "A")).map (·.height) = some (-1) := by
  decide

/-! ## EXTRA -/

/-- broadcasting a PSBT (`UpdateTransaction` at a height ≤ 0 other than -1) whose
`replace_txid` names a row with EXTRA `''` throws: `SetReplacedBy` parses that EXTRA without
the guard of `FillExtra` -/
theorem updateTransaction_replacing_synced_row_throws {tx : TxData} {h b : Int} {msg : String}
    {s : Vtx} {r ro : VtxRow} {j : ExtraJson} {old : TxId} (hh : h ≤ 0) (hm : h ≠ -1)
    (hr : s.get? tx.txid = some r) (h1 : r.height = -1) (hx : r.extra = .dump j)
    (hj : j.replaceTxid = some old) (ho : s.get? old = some ro) (he : ro.extra = .empty) :
    updateTransaction (.rawTx tx) h b msg s = .error .parseError := by
  have hu : unbroadcastRow s tx.txid = some r := unbroadcastRow_eq_some.mpr ⟨hr, h1⟩
  have hp : persistSigners tx.txid msg s = .error .parseError := by
    by_cases hmsg : msg = "" <;>
      simp [persistSigners, hu, hx, ExtraText.parse, hmsg, hj, setReplacedBy, ho, he, bind,
        Except.bind]
  simp [updateTransaction, hm, updateBroadcast, decodeRawTransaction, hh, hp, bind, Except.bind]

/-- the row of a transaction the sync stored at height 0 -/
def pendingRow : VtxRow := ⟨.rawTx { txid := "A" }, 0, 0, "", -1, 0, .empty⟩

/-- a PSBT row whose EXTRA names `A` as the transaction it replaces -/
def replacingRow : VtxRow :=
  ⟨.psbt { txid := "B" }, -1, 0, "", -1, 0, .dump { replaceTxid := some "A" }⟩

/-- the broadcast of `B` over the table of both rows throws -/
theorem broadcast_of_replacing_row_throws :
    (0 : Int) ≤ 0 ∧ (0 : Int) ≠ -1 ∧
    Dict.get? ⟨[("A", pendingRow), ("B", replacingRow)]⟩ "B" = some replacingRow ∧
    replacingRow.height = -1 ∧ replacingRow.extra = .dump { replaceTxid := some "A" } ∧
    Dict.get? ⟨[("A", pendingRow), ("B", replacingRow)]⟩ "A" = some pendingRow ∧
    pendingRow.extra = .empty ∧
    updateTransaction (.rawTx { txid := "B" }) 0 0 ""
      ⟨[("A", pendingRow), ("B", replacingRow)]⟩ = .error .parseError :=
  ⟨by decide, by decide, rfl, rfl, rfl, rfl, rfl,
    @updateTransaction_replacing_synced_row_throws { txid := "B" } 0 0 ""
      ⟨[("A", pendingRow), ("B", replacingRow)]⟩ replacingRow pendingRow
      { replaceTxid := some "A" } "A" (by decide) (by decide) rfl rfl rfl rfl rfl rfl⟩

/-- a transaction the sync stored at height 0, a local PSBT replacing it, and the broadcast of
the PSBT: the first two calls succeed, the third throws while parsing EXTRA -/
theorem synced_replaced_broadcast_throws :
    (runVtxOps Dict.empty [.insertTransaction (.rawTx { txid := "A", inputs := [⟨"x", 0⟩] }) 0 0 0
      "" (-1), .createPsbt (.psbt { txid := "B", inputs := [⟨"x", 0⟩] }) 0 "" (-1) [] 0 false
      "A"]).isOk ∧
    runVtxOps Dict.empty [.insertTransaction (.rawTx { txid := "A", inputs := [⟨"x", 0⟩] }) 0 0 0
      "" (-1), .createPsbt (.psbt { txid := "B", inputs := [⟨"x", 0⟩] }) 0 "" (-1) [] 0 false "A",
      .updateTransaction (.rawTx { txid := "B", inputs := [⟨"x", 0⟩] }) 0 0 ""] =
      .error .parseError :=
  ⟨rfl, rfl⟩

/-- `SetReplacedBy` on a row whose EXTRA is a JSON object -/
theorem setReplacedBy_of_dump {old new : TxId} {s : Vtx} {r : VtxRow} {j : ExtraJson}
    (hr : s.get? old = some r) (hj : r.extra = .dump j) :
    setReplacedBy old new s =
      .ok (s.modify old fun r => { r with extra := .dump { j with replacedByTxid := new } }) := by
  simp only [setReplacedBy, hr, hj, ExtraText.parse]; rfl

/-- the broadcast branch of `UpdateTransaction` at a height ≤ 0, once `persistSigners` returned -/
theorem updateTransaction_of_persistSigners {tx : TxData} {h b : Int} {msg : String} {s s₁ : Vtx}
    {J : ExtraJson} (hh : h ≤ 0) (hm : h ≠ -1)
    (hp : persistSigners tx.txid msg s = .ok (some J, s₁)) :
    updateTransaction (.rawTx tx) h b msg s = .ok ((s₁.get? tx.txid).isSome, s₁.modify tx.txid
      fun r => { r with value := .rawTx tx, height := h, blocktime := b, extra := .dump J }) := by
  simp only [updateTransaction, hm, updateBroadcast, decodeRawTransaction, hh, if_true, if_false,
    bind, Except.bind, hp]; rfl

/-- the unbroadcast PSBT of `B`, signed once, replacing `A` -/
def replacingPsbtRow : VtxRow :=
  ⟨.psbt { txid := "B", signers := [("534a4a82", true)] }, -1, 0, "", -1, 0,
    .dump { replaceTxid := some "A" }⟩

/-- the broadcast row of `A`, with an EXTRA object -/
def replacedRow : VtxRow := ⟨.rawTx { txid := "A" }, 0, 0, "", -1, 0, .dump {}⟩

def replacementTable : Vtx := ⟨[("A", replacedRow), ("B", replacingPsbtRow)]⟩

end Nunchuk
