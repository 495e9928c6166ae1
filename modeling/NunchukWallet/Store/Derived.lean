import NunchukWallet.Store.Cache

/-!
# Every row and cached entry is the address derived at its index

`Exact`: every row of the ADDRESS table and every entry of the cache is the address the
descriptor derives at its index on its branch. The fill derives its entries, `AddAddress` is
given derived addresses (by `NewAddress` and the lookaheads), and `SetUtxos` copies the index and
branch of a cached entry, so the writers of the address data keep `Exact`. With an injective
derivation, the row `AddAddress` leaves is at the index it was given.

* `exact_getAllAddressData`, `exact_addAddress`, `exact_setUtxos`   the writers keep `Exact`;
* `addAddress_current`   after `AddAddress` of the address at `j`, the current index of its
                         branch is at least `j`.
-/

namespace Nunchuk

/-- `a` is the address derived at `index` on the branch `internal` -/
def DerivedAt (w : WalletDescriptor) (a : Address) (index : Int) (internal : Bool) : Prop :=
  ∃ j : Nat, index = j ∧ a = w.derive internal j

/-- every cached entry is derived -/
def CacheDerived (w : WalletDescriptor) (c : AddressMap) : Prop :=
  ∀ a d, c.get? a = some d → DerivedAt w a d.index d.internal

/-- every row and every cached entry is derived -/
structure Exact (w : WalletDescriptor) (s : WalletStore) : Prop where
  rows : RowsDerived w s.address
  cache : ∀ c, s.cache = some c → CacheDerived w c

variable {w : WalletDescriptor}

theorem CacheDerived.of_entryShape {c c' : AddressMap} (h : CacheDerived w c)
    (hs : entryShape c' = entryShape c) : CacheDerived w c' := fun a d hd => by
  have := congrFun hs a
  simp only [entryShape, hd, Option.map_some'] at this
  obtain ⟨d₀, hd₀, he⟩ := Option.map_eq_some'.mp this.symm
  obtain ⟨h1, h2⟩ := Prod.mk.inj he
  exact h1 ▸ h2 ▸ h a d₀ hd₀

theorem CacheDerived.set {c : AddressMap} (h : CacheDerived w c) (b : Bool) (j : Nat) :
    CacheDerived w (c.set (w.derive b j) ⟨w.derive b j, j, b, false⟩) := fun a d hd => by
  rw [Dict.get?_set] at hd
  split at hd
  · next ha => cases hd; exact ⟨j, rfl, ha.symm⟩
  · exact h a d hd

theorem cacheDerived_insertDerived {m : AddressMap} (h : CacheDerived w m) (b : Bool) (n i : Nat) :
    CacheDerived w (insertDerived b i ((List.range' i n).map (w.derive b)) m) := by
  induction n generalizing i m with
  | zero => exact h
  | succ n ih => exact ih (h.set b i) (i + 1)

theorem cacheDerived_fill (hne : w.escrow = false) (t : AddressTable) :
    CacheDerived w (fillAddressData w t) := by
  have h₀ : CacheDerived w Dict.empty := fun _ _ h => by cases h
  simp only [fillAddressData, hne, deriveAddresses, List.range_eq_range']
  exact cacheDerived_insertDerived (cacheDerived_insertDerived h₀ _ _ _) _ _ _

theorem exact_getAllAddressData (hne : w.escrow = false) {s : WalletStore} (h : Exact w s) :
    Exact w (getAllAddressData w s).2 ∧ CacheDerived w (getAllAddressData w s).1 := by
  unfold getAllAddressData
  cases hc : s.cache with
  | some c => exact ⟨h, h.cache c hc⟩
  | none =>
    obtain ⟨c', h', hs⟩ := foldl_useAddress_some (storedOutputs s.vtx) (fillAddressData w s.address)
    refine ⟨⟨h.rows, fun c hc' => ?_⟩, cacheDerived_fill hne _⟩
    obtain rfl : c' = c := Option.some.inj (h'.symm.trans hc')
    exact (cacheDerived_fill hne _).of_entryShape hs

theorem getAllAddressData_cache (s : WalletStore) :
    ∃ c, (getAllAddressData w s).2.cache = some c := by
  unfold getAllAddressData
  split
  · next c hc => exact ⟨c, hc⟩
  · exact (foldl_useAddress_some _ _).imp fun _ h => h.1

theorem addAddress_address (a : Address) (i : Int) (b : Bool) (s : WalletStore) :
    (addAddress w a i b s).address = setAddress a i b "" s.address := by
  rw [addAddress_eq]
  dsimp only
  split <;> exact getAllAddressData_address _

theorem exact_addAddress (hne : w.escrow = false) {s : WalletStore} (h : Exact w s) (b : Bool)
    (j : Nat) : Exact w (addAddress w (w.derive b j) j b s) := by
  have h₁ : Exact w { s with address := setAddress (w.derive b j) j b "" s.address } :=
    ⟨h.rows.setAddress b j "", h.cache⟩
  obtain ⟨h₂, hall⟩ := exact_getAllAddressData hne h₁
  rw [addAddress_eq]
  dsimp only
  split
  · exact h₂
  · obtain ⟨c, hc⟩ := getAllAddressData_cache (w := w)
      { s with address := setAddress (w.derive b j) j b "" s.address }
    rw [hc, Option.getD_some]
    exact ⟨h₂.rows, fun _ hc' => Option.some.inj hc' ▸ (h₂.cache c hc).set b j⟩

theorem exact_setUtxos (hne : w.escrow = false) {s : WalletStore} (h : Exact w s) (a : Address)
    (utxo : String) : Exact w (setUtxos w a utxo s).2 := by
  obtain ⟨h₂, hall⟩ := exact_getAllAddressData hne h
  rw [setUtxos_eq]
  dsimp only
  split
  · exact h₂
  · next d hd =>
    obtain ⟨j, hj, ha⟩ := hall a d hd
    refine ⟨fun e he => ?_, h₂.cache⟩
    rcases mem_setAddress he with he | ⟨h0, ⟨h1, h2⟩ | ⟨e₀, he₀, h0', h1, h2⟩⟩
    · exact h₂.rows e he
    · exact ⟨j, h1.trans hj, by rw [h0, h2, ha]⟩
    · obtain ⟨j₀, hj₀, he₀'⟩ := h₂.rows e₀ he₀
      exact ⟨j₀, h1.trans hj₀, by rw [h0, ← h0', he₀', h2]⟩

/-- the current index of a table without negative indices is at least `-1` -/
theorem neg_one_le_getCurrentAddressIndex {t : AddressTable} (h : RowsNonneg t) (b : Bool) :
    -1 ≤ getCurrentAddressIndex t b :=
  @maxIndex_mono [] _ (fun _ h => by cases h) fun x hx => by
    obtain ⟨e, he, -, rfl⟩ := mem_indices.mp hx; exact h e he

theorem derivedAt_addressAt (hne : w.escrow = false) {i : Int} (hi : 0 ≤ i) (internal : Bool) :
    DerivedAt w (addressAt w internal i) i internal :=
  ⟨i.toNat, (Int.toNat_of_nonneg hi).symm, by simp [addressAt, hne]⟩

/-- with an injective derivation, `AddAddress` of the address at `j` leaves a row of its branch
at `j` -/
theorem addAddress_current (hinj : ∀ b j b' j', w.derive b j = w.derive b' j' → b = b' ∧ j = j')
    {s : WalletStore} (h : Exact w s) (b : Bool) (j : Nat) :
    (j : Int) ≤ getCurrentAddressIndex (addAddress w (w.derive b j) j b s).address b := by
  rw [addAddress_address]
  have hrow : ∃ r, (setAddress (w.derive b j) j b "" s.address).get? (w.derive b j) = some r ∧
      r.index = j ∧ r.internal = b := by
    simp only [setAddress, Dict.get?_upsert, if_true]
    cases hr : s.address.get? (w.derive b j) with
    | none => exact ⟨_, rfl, rfl, rfl⟩
    | some r₀ =>
      obtain ⟨j₀, hj₀, he⟩ := h.rows _ (Dict.mem_of_findEntry hr)
      obtain ⟨hb, hjj⟩ := hinj _ _ _ _ he
      exact ⟨_, rfl, hjj ▸ hj₀, hb.symm⟩
  obtain ⟨r, hr, hj, hb⟩ := hrow
  have := index_le_getCurrentAddressIndex (Dict.mem_of_findEntry hr)
  simp only [hj, hb] at this
  exact this

end Nunchuk
