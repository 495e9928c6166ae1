import NunchukWallet.Store.Address

/-!
# The cached address window

`GetAllAddressData` derives its map once, on each branch up to the current index plus
`ADDRESS_LOOK_AHEAD`, and afterwards only `AddAddress` adds to it. `SetUtxos` writes a row at any
cached index, so the current index can pass the one of the fill while the window stays where the
fill put it.

* `setUtxos_outruns_window`   from an empty store: a read fills the cache up to index 19 on the
                              receive branch, `SetUtxos` of the address at 19 makes 19 the current
                              index, and the address at 20 is not in `GetAllAddressData`;
* `getAllAddressData_window`  what holds, from a store opened without a cache and over every
                              sequence of calls (`AddAddress` given the address derived at its
                              index): `GetAllAddressData` holds on each branch the addresses up to
                              `n + ADDRESS_LOOK_AHEAD` for an `n` no higher than the current index
                              (the current index at the last fill), and every address of the ADDRESS
                              table.

The proof keeps `CacheInv` over every call (`cacheInv_run`): without a cache the rows are derived
addresses, with one the cache `Covers` the table.
-/

namespace Nunchuk

/-! ## the current index -/

theorem le_foldl_max (i : Int) (is : List Int) : i ≤ is.foldl max i := by
  induction is generalizing i with
  | nil => exact Int.le_refl i
  | cons x is ih => exact Int.le_trans (Int.le_max_left i x) (ih _)

theorem le_foldl_max_of_mem {x : Int} {is : List Int} (h : x ∈ is) (i : Int) :
    x ≤ is.foldl max i := by
  induction is generalizing i with
  | nil => cases h
  | cons y is ih =>
    rcases List.mem_cons.mp h with rfl | h
    · exact Int.le_trans (Int.le_max_right i x) (le_foldl_max _ _)
    · exact ih h _

theorem foldl_max_mem (i : Int) (is : List Int) : is.foldl max i ∈ i :: is := by
  induction is generalizing i with
  | nil => exact List.mem_singleton_self i
  | cons x is ih =>
    rcases List.mem_cons.mp (ih (max i x)) with h | h
    · rw [List.foldl_cons, h]
      rcases (by omega : max i x = i ∨ max i x = x) with h' | h' <;> rw [h'] <;> simp
    · exact List.mem_cons_of_mem _ (List.mem_cons_of_mem _ h)

theorem le_maxIndex {l : List Int} {x : Int} (h : x ∈ l) : x ≤ maxIndex l := by
  cases l with
  | nil => cases h
  | cons i is =>
    rcases List.mem_cons.mp h with rfl | h
    · exact le_foldl_max _ _
    · exact le_foldl_max_of_mem h _

theorem maxIndex_mono {l l' : List Int} (h : ∀ x ∈ l, x ∈ l') (h' : ∀ x ∈ l', 0 ≤ x) :
    maxIndex l ≤ maxIndex l' := by
  cases l with
  | nil =>
    cases l' with
    | nil => exact Int.le_refl _
    | cons y ys =>
      have := le_maxIndex (List.mem_cons_self y ys)
      have := h' y (List.mem_cons_self y ys)
      simp only [maxIndex] at *; omega
  | cons i is => exact le_maxIndex (h _ (foldl_max_mem i is))

theorem mem_indices {t : AddressTable} {b : Bool} {x : Int} :
    x ∈ (t.values.filter (·.internal == b)).map (·.index) ↔
      ∃ e ∈ t.entries, e.2.internal = b ∧ e.2.index = x := by
  simp only [Dict.values, List.mem_map, List.mem_filter, beq_iff_eq]
  constructor
  · rintro ⟨r, ⟨⟨e, he, rfl⟩, hb⟩, rfl⟩; exact ⟨e, he, hb, rfl⟩
  · rintro ⟨e, he, hb, rfl⟩; exact ⟨e.2, ⟨⟨e, he, rfl⟩, hb⟩, rfl⟩

theorem index_le_getCurrentAddressIndex {t : AddressTable} {e : Address × AddressRow}
    (he : e ∈ t.entries) : e.2.index ≤ getCurrentAddressIndex t e.2.internal :=
  le_maxIndex (mem_indices.mpr ⟨e, he, rfl, rfl⟩)

/-- no row at a negative index -/
def RowsNonneg (t : AddressTable) : Prop := ∀ e ∈ t.entries, 0 ≤ e.2.index

/-- every row an address derived at its index on its branch -/
def RowsDerived (w : WalletDescriptor) (t : AddressTable) : Prop :=
  ∀ e ∈ t.entries, ∃ j : Nat, e.2.index = j ∧ e.1 = w.derive e.2.internal j

theorem RowsDerived.nonneg {w : WalletDescriptor} {t : AddressTable} (h : RowsDerived w t) :
    RowsNonneg t := fun e he => by obtain ⟨j, hj, -⟩ := h e he; omega

section
variable {a : Address} {i : Int} {b : Bool} {u : String} {t : AddressTable}

theorem mem_setAddress {e : Address × AddressRow} (he : e ∈ (setAddress a i b u t).entries) :
    e ∈ t.entries ∨ (e.1 = a ∧ ((e.2.index = i ∧ e.2.internal = b) ∨
      ∃ e₀ ∈ t.entries, e₀.1 = a ∧ e.2.index = e₀.2.index ∧ e.2.internal = e₀.2.internal)) := by
  rcases Dict.mem_upsertEntries he with he | ⟨hk, v, hv, he2⟩
  · exact .inl he
  · refine .inr ⟨hk, ?_⟩
    rcases hv with rfl | hv
    · exact .inl (by rw [he2]; exact ⟨rfl, rfl⟩)
    · exact .inr ⟨_, hv, rfl, by rw [he2], by rw [he2]⟩

theorem exists_mem_setAddress {e : Address × AddressRow} (he : e ∈ t.entries) :
    ∃ e' ∈ (setAddress a i b u t).entries, e'.1 = e.1 ∧ e'.2.index = e.2.index ∧
      e'.2.internal = e.2.internal := by
  obtain ⟨e', he', h1, h2⟩ := @Dict.exists_mem_upsertEntries Address AddressRow _ _
    (fun r => (r.index, r.internal)) a ⟨i, b, !u.isEmpty, u⟩
    (fun r => { r with used := !u.isEmpty, utxo := u }) (fun _ => rfl) t.entries e he
  exact ⟨e', he', h1, congrArg Prod.fst h2, congrArg Prod.snd h2⟩

theorem RowsNonneg.setAddress (h : RowsNonneg t) (hi : 0 ≤ i) :
    RowsNonneg (setAddress a i b u t) := fun e he => by
  rcases mem_setAddress he with he | ⟨-, ⟨h1, -⟩ | ⟨e₀, he₀, -, h1, -⟩⟩
  · exact h e he
  · rw [h1]; exact hi
  · rw [h1]; exact h e₀ he₀

theorem getCurrentAddressIndex_setAddress (h : RowsNonneg t) (hi : 0 ≤ i) (b' : Bool) :
    getCurrentAddressIndex t b' ≤ getCurrentAddressIndex (setAddress a i b u t) b' := by
  refine maxIndex_mono (fun x hx => ?_) (fun x hx => ?_)
  · obtain ⟨e, he, hb, rfl⟩ := mem_indices.mp hx
    obtain ⟨e', he', -, h1, h2⟩ := @exists_mem_setAddress a i b u t e he
    exact mem_indices.mpr ⟨e', he', h2.trans hb, h1⟩
  · obtain ⟨e, he, -, rfl⟩ := mem_indices.mp hx
    exact h.setAddress hi e he

end

theorem RowsDerived.setAddress {w : WalletDescriptor} {t : AddressTable} (h : RowsDerived w t)
    (b : Bool) (j : Nat) (u : String) : RowsDerived w (setAddress (w.derive b j) j b u t) :=
  fun e he => by
    rcases mem_setAddress he with he | ⟨h0, ⟨h1, h2⟩ | ⟨e₀, he₀, h0', h1, h2⟩⟩
    · exact h e he
    · exact ⟨j, h1, by rw [h0, h2]⟩
    · obtain ⟨j₀, hj₀, he₀'⟩ := h e₀ he₀
      exact ⟨j₀, h1.trans hj₀, by rw [h0, ← h0', he₀', h2]⟩

/-! ## what the cache holds -/

/-- the index and branch a map holds at each address -/
def entryShape (c : AddressMap) (k : Address) : Option (Int × Bool) :=
  (c.get? k).map fun d => (d.index, d.internal)

theorem isSome_get?_of_entryShape {c c' : AddressMap} (hs : entryShape c' = entryShape c)
    (k : Address) : (c'.get? k).isSome = (c.get? k).isSome := by
  simpa [entryShape] using congrArg Option.isSome (congrFun hs k)

variable (w : WalletDescriptor)

/-- what the cache holds against the table: on each branch the window of an index no higher than
the current one, every address of the table, and no negative index -/
structure Covers (t : AddressTable) (c : AddressMap) : Prop where
  window : ∃ n : Bool → Int, (∀ b, n b ≤ getCurrentAddressIndex t b) ∧
    ∀ b (j : Nat), (j : Int) ≤ n b + addressLookAhead → (c.get? (w.derive b j)).isSome
  rows : ∀ e ∈ t.entries, (c.get? e.1).isSome
  nonneg : ∀ a d, c.get? a = some d → 0 ≤ d.index
  rowsNonneg : RowsNonneg t

variable {w}

theorem Covers.grow {t t' : AddressTable} {c c' : AddressMap} (h : Covers w t c)
    (hk : ∀ k, (c.get? k).isSome → (c'.get? k).isSome)
    (hn : ∀ a d, c'.get? a = some d → 0 ≤ d.index)
    (ht : ∀ b, getCurrentAddressIndex t b ≤ getCurrentAddressIndex t' b)
    (hr : ∀ e ∈ t'.entries, (c'.get? e.1).isSome) (hrn : RowsNonneg t') : Covers w t' c' := by
  obtain ⟨n, hn', hw⟩ := h.window
  exact ⟨⟨n, fun b => Int.le_trans (hn' b) (ht b), fun b j hj => hk _ (hw b j hj)⟩, hr, hn, hrn⟩

theorem Covers.of_entryShape {t : AddressTable} {c c' : AddressMap} (h : Covers w t c)
    (hs : entryShape c' = entryShape c) : Covers w t c' := by
  have hk := isSome_get?_of_entryShape hs
  refine h.grow (fun k hk' => (hk k).trans hk') (fun a d hd => ?_) (fun _ => Int.le_refl _)
    (fun e he => (hk _).trans (h.rows e he)) h.rowsNonneg
  have := congrFun hs a
  simp only [entryShape, hd, Option.map_some'] at this
  obtain ⟨d₀, hd₀, he⟩ := Option.map_eq_some'.mp this.symm
  exact (Prod.mk.inj he).1 ▸ h.nonneg a d₀ hd₀

/-! ## the fill -/

theorem isSome_get?_insertDerived (b : Bool) (i : Nat) (as : List Address) (m : AddressMap)
    (k : Address) : ((insertDerived b i as m).get? k).isSome ↔ k ∈ as ∨ (m.get? k).isSome := by
  induction as generalizing i m with
  | nil => simp [insertDerived]
  | cons a as ih =>
    rw [insertDerived, ih]
    by_cases h : a = k
    · subst h; simp
    · simp [h, Ne.symm h]

theorem index_get?_insertDerived {b : Bool} {i : Nat} {as : List Address} {m : AddressMap}
    {k : Address} {d : AddressData} (h : (insertDerived b i as m).get? k = some d) :
    m.get? k = some d ∨ (i : Int) ≤ d.index := by
  induction as generalizing i m with
  | nil => exact .inl h
  | cons a as ih =>
    rcases ih h with h | h
    · rw [Dict.get?_set] at h
      split at h
      · cases h; exact .inr (Int.le_refl _)
      · exact .inl h
    · exact .inr (by omega)

theorem covers_fill (hne : w.escrow = false) {t : AddressTable} (hd : RowsDerived w t) :
    Covers w t (fillAddressData w t) := by
  have hfill : fillAddressData w t =
      insertDerived false 0
        (deriveAddresses w false (getCurrentAddressIndex t false + addressLookAhead))
        (insertDerived true 0
          (deriveAddresses w true (getCurrentAddressIndex t true + addressLookAhead))
          Dict.empty) := by
    simp [fillAddressData, hne]
  have hwin : ∀ b (j : Nat), (j : Int) ≤ getCurrentAddressIndex t b + addressLookAhead →
      ((fillAddressData w t).get? (w.derive b j)).isSome := by
    intro b j hj
    have hmem : w.derive b j ∈
        deriveAddresses w b (getCurrentAddressIndex t b + addressLookAhead) :=
      List.mem_map.mpr ⟨j, List.mem_range.mpr (by omega), rfl⟩
    rw [hfill, isSome_get?_insertDerived]
    cases b
    · exact .inl hmem
    · exact .inr ((isSome_get?_insertDerived _ _ _ _ _).mpr (.inl hmem))
  refine ⟨⟨getCurrentAddressIndex t, fun _ => Int.le_refl _, hwin⟩, fun e he => ?_, fun a d h => ?_,
    hd.nonneg⟩
  · obtain ⟨j, hj, he1⟩ := hd e he
    have := index_le_getCurrentAddressIndex he
    rw [he1]
    exact hwin _ _ (by unfold addressLookAhead; omega)
  · rw [hfill] at h
    rcases index_get?_insertDerived h with h | h
    · rcases index_get?_insertDerived h with h | h
      · cases h
      · exact_mod_cast h
    · exact_mod_cast h

/-! ## the invariant -/

/-- without a cache the rows are derived addresses; with one the cache covers the table -/
def CacheInv (w : WalletDescriptor) (s : WalletStore) : Prop :=
  match s.cache with
  | none => RowsDerived w s.address
  | some c => Covers w s.address c

theorem cacheInv_of_cache {s : WalletStore} {c : AddressMap} (hc : s.cache = some c) :
    CacheInv w s ↔ Covers w s.address c := by
  simp [CacheInv, hc]

theorem useAddress_none (a : Address) : useAddress none a = none := by
  unfold useAddress; split <;> rfl

theorem foldl_useAddress_none (as : List Address) : as.foldl useAddress none = none := by
  induction as with
  | nil => rfl
  | cons a as ih => rw [List.foldl_cons, useAddress_none, ih]

/-- `UseAddress` only marks: the addresses, their indices and branches stay -/
theorem foldl_useAddress_some (as : List Address) (c : AddressMap) :
    ∃ c', as.foldl useAddress (some c) = some c' ∧ entryShape c' = entryShape c := by
  induction as generalizing c with
  | nil => exact ⟨c, rfl, rfl⟩
  | cons a as ih =>
    have h₁ : ∃ c₁, useAddress (some c) a = some c₁ ∧ entryShape c₁ = entryShape c := by
      unfold useAddress
      split
      · exact ⟨c, rfl, rfl⟩
      · refine ⟨_, rfl, funext fun k => ?_⟩
        by_cases h : a = k
        · subst h; simp [entryShape, Option.map_map, Function.comp_def]
        · simp [entryShape, h]
    obtain ⟨c₁, h₁, hs₁⟩ := h₁
    obtain ⟨c', h', hs'⟩ := ih c₁
    exact ⟨c', by rw [List.foldl_cons, h₁, h'], hs'.trans hs₁⟩

theorem cacheInv_foldl_useAddress {s : WalletStore} (h : CacheInv w s) (as : List Address) :
    CacheInv w { s with cache := as.foldl useAddress s.cache } := by
  cases hc : s.cache with
  | none => simpa [CacheInv, hc, foldl_useAddress_none] using h
  | some c =>
    obtain ⟨c', h', hs⟩ := foldl_useAddress_some as c
    rw [cacheInv_of_cache hc] at h
    simpa [CacheInv, h'] using h.of_entryShape hs

theorem cacheInv_useRowOutputs {s : WalletStore} (h : CacheInv w s) (v : Vtx) (id : TxId) :
    CacheInv w { s with cache := useRowOutputs v id s.cache } := by
  unfold useRowOutputs
  split
  · exact cacheInv_foldl_useAddress h _
  · exact h

theorem getAllAddressData_address (s : WalletStore) :
    (getAllAddressData w s).2.address = s.address := by
  unfold getAllAddressData; split <;> rfl

/-- after `GetAllAddressData` there is a cache; it covers the table and holds the addresses of
the map returned at the same indices -/
theorem getAllAddressData_covers (hne : w.escrow = false) {s : WalletStore} (h : CacheInv w s) :
    ∃ c, (getAllAddressData w s).2.cache = some c ∧ Covers w s.address c ∧
      entryShape c = entryShape (getAllAddressData w s).1 := by
  unfold getAllAddressData
  cases hc : s.cache with
  | some c => exact ⟨c, hc, (cacheInv_of_cache hc).mp h, rfl⟩
  | none =>
    have hd : RowsDerived w s.address := by simpa [CacheInv, hc] using h
    obtain ⟨c', h', hs⟩ := foldl_useAddress_some (storedOutputs s.vtx) (fillAddressData w s.address)
    exact ⟨c', h', (covers_fill hne hd).of_entryShape hs, hs⟩

/-- the last statement of `AddAddress`: a cache covering the rows other than the new one gets
the new one unless `IsMyAddress` knows it -/
theorem covers_addAddress_last {t t' : AddressTable} {c : AddressMap} {a : Address}
    (h : Covers w t c) (ht : ∀ b, getCurrentAddressIndex t b ≤ getCurrentAddressIndex t' b)
    (hr : ∀ e ∈ t'.entries, e ∈ t.entries ∨ e.1 = a) (hrn : RowsNonneg t') (j : Nat) (b : Bool) :
    Covers w t' (if isMyAddress c a then c else c.set a ⟨a, j, b, false⟩) := by
  split
  · next hmy =>
    refine h.grow (fun _ => id) h.nonneg ht (fun e he => ?_) hrn
    rcases hr e he with he | he
    · exact h.rows e he
    · rw [he]; exact hmy
  · have hk : ∀ k, (c.get? k).isSome → ((c.set a ⟨a, j, b, false⟩).get? k).isSome := by
      intro k hk; rw [Dict.get?_set]; split <;> simp [hk]
    refine h.grow hk (fun a' d hd => ?_) ht (fun e he => ?_) hrn
    · rw [Dict.get?_set] at hd
      split at hd
      · cases hd; exact Int.ofNat_nonneg j
      · exact h.nonneg a' d hd
    · rcases hr e he with he | he
      · exact hk _ (h.rows e he)
      · simp [he]

theorem addAddress_eq (a : Address) (i : Int) (b : Bool) (s : WalletStore) :
    addAddress w a i b s =
      let p := getAllAddressData w { s with address := setAddress a i b "" s.address }
      if isMyAddress p.1 a then p.2
      else { p.2 with cache := some ((p.2.cache.getD Dict.empty).set a ⟨a, i, b, false⟩) } :=
  rfl

theorem cacheInv_addAddress_last {p : AddressMap × WalletStore} {c : AddressMap}
    {t : AddressTable} {a : Address} (hc : p.2.cache = some c) (hs : entryShape c = entryShape p.1)
    (h : Covers w t c) (ht : ∀ b, getCurrentAddressIndex t b ≤ getCurrentAddressIndex p.2.address b)
    (hr : ∀ e ∈ p.2.address.entries, e ∈ t.entries ∨ e.1 = a) (hrn : RowsNonneg p.2.address)
    (j : Nat) (b : Bool) :
    CacheInv w (if isMyAddress p.1 a then p.2
      else { p.2 with cache := some ((p.2.cache.getD Dict.empty).set a ⟨a, j, b, false⟩) }) := by
  have hmy : isMyAddress p.1 a = isMyAddress c a := by
    simp [isMyAddress, isSome_get?_of_entryShape hs]
  have := covers_addAddress_last h ht hr hrn j b
  rw [hmy]
  split
  · next hm => rw [cacheInv_of_cache hc]; simpa [hm] using this
  · next hm => simpa [CacheInv, hc, hm] using this

/-- the address `AddAddress` is given is the one derived at its index -/
def StoreOp.Derived (w : WalletDescriptor) : StoreOp → Prop
  | .addAddress a i b => ∃ j : Nat, i = j ∧ a = w.derive b j
  | _ => True

theorem cacheInv_addAddress (hne : w.escrow = false) {s : WalletStore} (h : CacheInv w s)
    (b : Bool) (j : Nat) : CacheInv w (addAddress w (w.derive b j) j b s) := by
  rw [addAddress_eq]
  obtain ⟨v, t, _ | c⟩ := s
  · have h₁ : CacheInv w ⟨v, setAddress (w.derive b j) j b "" t, none⟩ :=
      RowsDerived.setAddress h b j ""
    obtain ⟨c, hc₂, hcov, hs⟩ := getAllAddressData_covers hne h₁
    rw [← @getAllAddressData_address w] at hcov
    exact cacheInv_addAddress_last hc₂ hs hcov (fun _ => Int.le_refl _) (fun e he => .inl he)
      hcov.rowsNonneg j b
  · have hcov : Covers w t c := h
    exact @cacheInv_addAddress_last w (c, ⟨v, setAddress (w.derive b j) j b "" t, some c⟩) c t
      (w.derive b j) rfl rfl hcov
      (getCurrentAddressIndex_setAddress hcov.rowsNonneg (Int.ofNat_nonneg j))
      (fun e he => (mem_setAddress he).imp_right And.left)
      (hcov.rowsNonneg.setAddress (Int.ofNat_nonneg j)) j b

theorem setUtxos_eq (a : Address) (utxo : String) (s : WalletStore) :
    setUtxos w a utxo s =
      let p := getAllAddressData w s
      match p.1.get? a with
      | none => (false, p.2)
      | some d =>
        (true, { p.2 with address := setAddress a d.index d.internal utxo p.2.address }) :=
  rfl

theorem cacheInv_setUtxos (hne : w.escrow = false) {s : WalletStore} (h : CacheInv w s)
    (a : Address) (utxo : String) : CacheInv w (setUtxos w a utxo s).2 := by
  obtain ⟨c, hc, hcov, hs⟩ := getAllAddressData_covers hne h
  rw [← @getAllAddressData_address w] at hcov
  rw [setUtxos_eq]
  dsimp only
  split
  · exact (cacheInv_of_cache hc).mpr hcov
  · next d hd =>
    have hshape := congrFun hs a
    simp only [entryShape, hd, Option.map_some'] at hshape
    obtain ⟨d₀, hd₀, hidx⟩ := Option.map_eq_some'.mp hshape
    have h0 : 0 ≤ d.index := (Prod.mk.inj hidx).1 ▸ hcov.nonneg a d₀ hd₀
    simp only [CacheInv, hc]
    refine hcov.grow (fun _ => id) hcov.nonneg
      (getCurrentAddressIndex_setAddress hcov.rowsNonneg h0) (fun e he => ?_)
      (hcov.rowsNonneg.setAddress h0)
    rcases mem_setAddress he with he | ⟨he, -⟩
    · exact hcov.rows e he
    · rw [he, hd₀]; rfl

/-- one call keeps the invariant -/
theorem cacheInv_run (hne : w.escrow = false) {s : WalletStore} (h : CacheInv w s)
    {op : StoreOp} (hop : op.Derived w) : CacheInv w (op.run w s) := by
  cases op with
  | addAddress a i b =>
    obtain ⟨j, rfl, rfl⟩ := hop
    exact cacheInv_addAddress hne h b j
  | setUtxos a u => exact cacheInv_setUtxos hne h a u
  | vtx op =>
    simp only [StoreOp.run]
    split
    · split
      · exact cacheInv_useRowOutputs h _ _
      · exact h
    · exact h
  | forceRefresh => exact fun e he => by cases he
  | getAllAddressData =>
    obtain ⟨c, hc, hcov, -⟩ := getAllAddressData_covers hne h
    rw [StoreOp.run, cacheInv_of_cache hc, getAllAddressData_address]
    exact hcov
  | getTransaction id => exact cacheInv_useRowOutputs h _ _

/-- every sequence of calls keeps the invariant -/
theorem cacheInv_runStoreOps (hne : w.escrow = false) {s : WalletStore} (h : CacheInv w s)
    {ops : List StoreOp} (hops : ∀ op ∈ ops, op.Derived w) : CacheInv w (runStoreOps w s ops) := by
  induction ops generalizing s with
  | nil => exact h
  | cons op ops ih =>
    exact ih (cacheInv_run hne h (hops op (List.mem_cons_self _ _)))
      fun op' h' => hops op' (List.mem_cons_of_mem _ h')

/-- the read fills the receive branch up to index 19; `SetUtxos` of the address at 19 makes 19
the current index; the address at 20 is not in `GetAllAddressData` -/
theorem setUtxos_outruns_window :
    getCurrentAddressIndex (runStoreOps demoDescriptor ⟨Dict.empty, Dict.empty, none⟩
      [.getAllAddressData, .setUtxos "r19" "null|s"]).address false = 19 ∧
    (getAllAddressData demoDescriptor (runStoreOps demoDescriptor ⟨Dict.empty, Dict.empty, none⟩
      [.getAllAddressData, .setUtxos "r19" "null|s"])).1.get? (demoDescriptor.derive false 20) =
      none := by
  decide

end Nunchuk
