import Mathlib.Data.String.Basic
import NunchukWallet.Store.Cache

/-!
# What `GetAllAddressData` and `GetAddressStatus` report

`GetAllAddressData` fills the cache, marks the outputs of the stored transactions used in the
cache, and returns the fill it made before the marking; the next call returns the marked cache.
`SetUtxos` writes the `utxo|status` text that `GetAddressStatus` splits again.

* `getAllAddressData_fill_unmarked`   without a cache, an address of the fill that a stored
                              transaction pays is reported unused by the call that fills the cache,
                              and used by the next one;
* `setUtxos_join_status`      `SetUtxos(a, join({u, s}, '|'))` of an address of `GetAllAddressData`
                              makes `GetAddressStatus(a)` read `s` back, when neither text holds
                              `|`, and leaves the status of every other address.
-/

namespace Nunchuk

/-! ## the used flags -/

theorem used_insertDerived {b : Bool} {i : Nat} {as : List Address} {m : AddressMap}
    (hm : ∀ k d, m.get? k = some d → d.used = false) :
    ∀ k d, (insertDerived b i as m).get? k = some d → d.used = false := by
  induction as generalizing i m with
  | nil => exact hm
  | cons a as ih =>
    refine ih fun k d hd => ?_
    rw [Dict.get?_set] at hd
    split at hd
    · cases hd; rfl
    · exact hm k d hd

/-- a fill marks no address used -/
theorem used_fillAddressData (w : WalletDescriptor) (t : AddressTable) :
    ∀ k d, (fillAddressData w t).get? k = some d → d.used = false := by
  have hempty : ∀ k d, (Dict.empty : AddressMap).get? k = some d → d.used = false :=
    fun _ _ h => by cases h
  unfold fillAddressData
  split
  · intro k d hd
    rw [Dict.get?_set] at hd
    split at hd
    · cases hd; rfl
    · exact hempty k d hd
  · exact used_insertDerived (used_insertDerived hempty)

/-- one `UseAddress` keeps a cached address, marks it when it is the one used, and never unmarks
it -/
theorem useAddress_used {a x : Address} (ha : a ≠ "") {c : AddressMap} (hs : (c.get? a).isSome) :
    ∃ c₁, useAddress (some c) x = some c₁ ∧ (c₁.get? a).isSome ∧
      (x = a ∨ (c.get? a).map (·.used) = some true → (c₁.get? a).map (·.used) = some true) := by
  unfold useAddress
  by_cases hx : x.isEmpty = true
  · refine ⟨c, by simp [hx], hs, fun h => h.resolve_left ?_⟩
    rintro rfl
    exact ha ((String.isEmpty_iff x).mp hx)
  · obtain ⟨d, hd⟩ := Option.isSome_iff_exists.mp hs
    refine ⟨c.modify x fun d => { d with used := true }, by simp [hx], ?_, fun h => ?_⟩
    · by_cases hxa : x = a <;> simp [Dict.get?_modify, hxa, hd]
    · by_cases hxa : x = a
      · simp [Dict.get?_modify, hxa, hd]
      · simpa [Dict.get?_modify, hxa] using h.resolve_left hxa

/-- after `UseAddress` of the addresses `as` a cached address stays used, and one of `as` is
marked -/
theorem foldl_useAddress_used {a : Address} (ha : a ≠ "") :
    ∀ {as : List Address} {c : AddressMap}, (c.get? a).isSome →
      (a ∈ as ∨ (c.get? a).map (·.used) = some true) →
      ∃ c', as.foldl useAddress (some c) = some c' ∧ (c'.get? a).map (·.used) = some true
  | [], c, _, h => ⟨c, rfl, h.resolve_left (List.not_mem_nil a)⟩
  | x :: xs, c, hs, h => by
    obtain ⟨c₁, h₁, hs₁, hu₁⟩ := @useAddress_used a x ha c hs
    rw [List.foldl_cons, h₁]
    refine foldl_useAddress_used ha hs₁ ?_
    rcases h with h | h
    · rcases List.mem_cons.mp h with rfl | h
      · exact .inr (hu₁ (.inl rfl))
      · exact .inl h
    · exact .inr (hu₁ (.inr h))

/-- Without a cache, every address of the fill that an output of a stored transaction pays is
reported unused by the `GetAllAddressData` that fills the cache, and used by the next call, with
no write in between. -/
theorem getAllAddressData_fill_unmarked (w : WalletDescriptor) {s : WalletStore}
    (hc : s.cache = none) {a : Address} (ha : a ∈ storedOutputs s.vtx) (hne : a ≠ "")
    (hfill : ((fillAddressData w s.address).get? a).isSome) :
    ((getAllAddressData w s).1.get? a).map (·.used) = some false ∧
      ((getAllAddressData w (getAllAddressData w s).2).1.get? a).map (·.used) = some true := by
  obtain ⟨d, hd⟩ := Option.isSome_iff_exists.mp hfill
  obtain ⟨c', hc', hused⟩ := foldl_useAddress_used hne hfill (.inl ha)
  simp only [getAllAddressData, hc]
  exact ⟨by rw [hd, Option.map_some', used_fillAddressData w s.address a d hd], by
    rw [hc']; exact hused⟩

/-- a store with the cache dropped and one transaction paying `r0` -/
def paidStore : WalletStore :=
  runStoreOps demoDescriptor ⟨Dict.empty, Dict.empty, none⟩
    [.vtx (.insertTransaction (.rawTx ⟨"T", [], [⟨"r0", 1000⟩], []⟩) 0 0 0 "" (-1))]

theorem getAllAddressData_fill_unmarked_paid :
    paidStore.cache = none ∧ "r0" ∈ storedOutputs paidStore.vtx ∧ "r0" ≠ "" ∧
      ((fillAddressData demoDescriptor paidStore.address).get? "r0").isSome ∧
      ((getAllAddressData demoDescriptor paidStore).1.get? "r0").map (·.used) = some false ∧
      ((getAllAddressData demoDescriptor (getAllAddressData demoDescriptor paidStore).2).1.get?
        "r0").map (·.used) = some true :=
  have h : paidStore.cache = none ∧ "r0" ∈ storedOutputs paidStore.vtx ∧ "r0" ≠ "" ∧
      ((fillAddressData demoDescriptor paidStore.address).get? "r0").isSome := by decide
  ⟨h.1, h.2.1, h.2.2.1, h.2.2.2,
    getAllAddressData_fill_unmarked demoDescriptor h.1 h.2.1 h.2.2.1 h.2.2.2⟩

/-! ## the status of an address -/

theorem data_join_pair (u s : String) (d : Char) : (join [u, s] d).data = u.data ++ d :: s.data := by
  simp [join, List.intercalate]

theorem splitFields_join {u s : String} (hu : '|' ∉ u.data) (hs : '|' ∉ s.data) :
    splitFields (join [u, s] '|') = [u, s] := by
  have hp : ∀ l : List Char, '|' ∉ l → ∀ x ∈ l, ¬ (x == '|') = true := fun l hl x hx h =>
    hl (by simpa using (beq_iff_eq.mp h) ▸ hx)
  rw [splitFields, data_join_pair, List.splitOn, List.splitOnP_first _ _ (hp _ hu) '|' (by simp),
    List.splitOnP_eq_single _ _ (hp _ hs)]
  rfl

theorem getAddressStatus_setAddress_ne {a b : Address} (h : a ≠ b) (i : Int) (internal : Bool)
    (utxo : String) (t : AddressTable) :
    getAddressStatus (setAddress a i internal utxo t) b = getAddressStatus t b := by
  simp [getAddressStatus, setAddress, h]

theorem noNul_join {u st : String} (hu : NoNul u) (hst : NoNul st) : NoNul (join [u, st] '|') := by
  simp only [NoNul, data_join_pair, List.mem_append, List.mem_cons, not_or]
  exact ⟨hu, by decide, hst⟩

/-- `SetUtxos(a, join({u, s}, '|'))` of an address of `GetAllAddressData`, from any store, with
neither text holding `|`: `GetAddressStatus(a)` reads `s`, and every other address keeps its
status. -/
theorem setUtxos_join_status (w : WalletDescriptor) (s : WalletStore) {a : Address}
    (ha : ((getAllAddressData w s).1.get? a).isSome) {u st : String} (hu : '|' ∉ u.data)
    (hst : '|' ∉ st.data) (hu₀ : NoNul u) (hst₀ : NoNul st) :
    getAddressStatus (setUtxos w a (join [u, st] '|') s).2.address a = st ∧
      ∀ b, b ≠ a → getAddressStatus (setUtxos w a (join [u, st] '|') s).2.address b =
        getAddressStatus s.address b := by
  obtain ⟨d, hd⟩ := Option.isSome_iff_exists.mp ha
  rw [setUtxos_eq]
  simp only [hd, getAllAddressData_address]
  exact ⟨by simp [getAddressStatus, setAddress, columnText_of_noNul (noNul_join hu₀ hst₀),
      splitFields_join hu hst],
    fun b hb => getAddressStatus_setAddress_ne (Ne.symm hb) _ _ _ _⟩

theorem setUtxos_join_status_r0 :
    ((getAllAddressData demoDescriptor ⟨Dict.empty, Dict.empty, none⟩).1.get? "r0").isSome ∧
      '|' ∉ "null".data ∧ '|' ∉ "s0".data ∧ NoNul "null" ∧ NoNul "s0" ∧
      getAddressStatus (setUtxos demoDescriptor "r0" (join ["null", "s0"] '|')
        ⟨Dict.empty, Dict.empty, none⟩).2.address "r0" = "s0" ∧
      ∀ b, b ≠ "r0" → getAddressStatus (setUtxos demoDescriptor "r0" (join ["null", "s0"] '|')
        ⟨Dict.empty, Dict.empty, none⟩).2.address b =
          getAddressStatus (⟨Dict.empty, Dict.empty, none⟩ : WalletStore).address b :=
  have h : ((getAllAddressData demoDescriptor ⟨Dict.empty, Dict.empty, none⟩).1.get?
      "r0").isSome ∧ '|' ∉ "null".data ∧ '|' ∉ "s0".data ∧ NoNul "null" ∧ NoNul "s0" := by
    decide
  ⟨h.1, h.2.1, h.2.2.1, h.2.2.2.1, h.2.2.2.2,
    setUtxos_join_status demoDescriptor _ h.1 h.2.1 h.2.2.1 h.2.2.2.1 h.2.2.2.2⟩

/-- A first field that holds NUL: `GetAddressStatus` reads UTXO as a C string, which ends at the
NUL, so the status read back is empty. -/
theorem setUtxos_nul_status :
    ((getAllAddressData demoDescriptor ⟨Dict.empty, Dict.empty, none⟩).1.get? "r0").isSome ∧
      "\x00" ≠ "" ∧ '|' ∉ "\x00".data ∧ '|' ∉ "s0".data ∧
      getAddressStatus (setUtxos demoDescriptor "r0" (join ["\x00", "s0"] '|')
        ⟨Dict.empty, Dict.empty, none⟩).2.address "r0" = "" := by
  decide

end Nunchuk
