import NunchukWallet.Sync.Chain
import NunchukWallet.Store.Derived

/-!
# What the synchronizer's steps do to the address data

Every write of the synchronizer to the ADDRESS table and the cache goes through `AddAddress` of a
derived address at its index, `SetUtxos` and `GetAllAddressData`; `UpdateTransactions` writes the
VTX table only. So every step keeps the rows and the cached entries derived (`Exact`), and no
branch's current index goes down.

* `SyncM.run_bind` and the `@[simp]` run lemmas of the primitives;
* `Grows`                a step that keeps `Exact` and lowers no current index;
* `Keeps w x Q`          every run of `x` grows the world and returns a value satisfying `Q`;
                         `Keeps.bind` and the other combinators follow the monad;
* `keeps_updateScripthashStatus`, `keeps_updateScripthashesStatus`   the updates of the sync;
* `syncWallet_keeps_derived`   a pass of `BlockchainSync`, with either strategy, keeps every row
                         and cached entry derived and lowers no current index;
* `subscribeAddresses_sub`   every scripthash `SubscribeAddresses` answers maps back to one of
                         its addresses.
-/

namespace Nunchuk

/-! ## running `SyncM` -/

section
variable {α β : Type} (wd : SyncWorld)

@[simp] theorem SyncM.run_pure (a : α) : (pure a : SyncM α).run wd = (.ok a, wd) := rfl
@[simp] theorem SyncM.run_get : (get : SyncM SyncWorld).run wd = (.ok wd, wd) := rfl
@[simp] theorem SyncM.run_modify (f : SyncWorld → SyncWorld) :
    (modify f : SyncM Unit).run wd = (.ok (), f wd) := rfl

theorem SyncM.run_bind (x : SyncM α) (f : α → SyncM β) :
    (x >>= f).run wd = match x.run wd with
      | (.ok a, wd') => (f a).run wd'
      | (.error e, wd') => (.error e, wd') := by
  show (ExceptT.bind x f).run wd = _
  simp only [ExceptT.bind, ExceptT.run, ExceptT.mk, bind, StateT.bind]
  rcases x wd with ⟨_ | a, wd'⟩ <;> rfl

end

/-- a bind that returned: both parts returned -/
theorem SyncM.run_bind_eq_ok {α β : Type} {x : SyncM α} {f : α → SyncM β} {b : β}
    {wd wd'' : SyncWorld} (h : (x >>= f).run wd = (.ok b, wd'')) :
    ∃ a wd', x.run wd = (.ok a, wd') ∧ (f a).run wd' = (.ok b, wd'') := by
  rw [SyncM.run_bind] at h
  rcases hx : x.run wd with ⟨_ | a, wd'⟩ <;> rw [hx] at h
  · cases h
  · exact ⟨a, wd', rfl, h⟩

/-! ## growing worlds -/

variable {w : WalletDescriptor}

/-- a step from `wd` to `wd'` that keeps derived rows and cached entries derived and lowers no
branch's current index -/
def Grows (w : WalletDescriptor) (wd wd' : SyncWorld) : Prop :=
  Exact w wd.store → Exact w wd'.store ∧
    ∀ b, getCurrentAddressIndex wd.store.address b ≤ getCurrentAddressIndex wd'.store.address b

theorem Grows.refl (wd : SyncWorld) : Grows w wd wd := fun h => ⟨h, fun _ => Int.le_refl _⟩

theorem Grows.trans {wd₁ wd₂ wd₃ : SyncWorld} (h₁ : Grows w wd₁ wd₂) (h₂ : Grows w wd₂ wd₃) :
    Grows w wd₁ wd₃ := fun h =>
  let ⟨e₂, c₂⟩ := h₁ h
  let ⟨e₃, c₃⟩ := h₂ e₂
  ⟨e₃, fun b => Int.le_trans (c₂ b) (c₃ b)⟩

/-- a step that leaves the address table and the cache alone -/
theorem Grows.of_eq {wd wd' : SyncWorld} (ha : wd'.store.address = wd.store.address)
    (hc : wd'.store.cache = wd.store.cache) : Grows w wd wd' := fun h =>
  ⟨⟨ha ▸ h.rows, hc ▸ h.cache⟩, fun _ => ha ▸ Int.le_refl _⟩

theorem grows_getAllAddressData (hne : w.escrow = false) (wd : SyncWorld) :
    Grows w wd { wd with store := (getAllAddressData w wd.store).2 } := fun h =>
  ⟨(exact_getAllAddressData hne h).1, fun b => by
    show _ ≤ getCurrentAddressIndex (getAllAddressData w wd.store).2.address b
    simp only [getAllAddressData_address, Int.le_refl]⟩

theorem grows_setUtxos (hne : w.escrow = false) (a : Address) (utxo : String) (wd : SyncWorld) :
    Grows w wd { wd with store := (setUtxos w a utxo wd.store).2 } := fun h => by
  refine ⟨exact_setUtxos hne h a utxo, fun b => ?_⟩
  have hall := (exact_getAllAddressData hne h).2
  show _ ≤ getCurrentAddressIndex (setUtxos w a utxo wd.store).2.address b
  rw [setUtxos_eq]
  dsimp only
  split
  · simp only [getAllAddressData_address, Int.le_refl]
  · next d hd =>
    obtain ⟨j, hj, -⟩ := hall a d hd
    rw [getAllAddressData_address]
    exact getCurrentAddressIndex_setAddress h.rows.nonneg (hj ▸ Int.ofNat_nonneg j) b

theorem grows_addAddress (hne : w.escrow = false) {a : Address} {i : Int} {internal : Bool}
    (hd : DerivedAt w a i internal) (wd : SyncWorld) :
    Grows w wd { wd with store := addAddress w a i internal wd.store } := fun h => by
  obtain ⟨j, rfl, rfl⟩ := hd
  refine ⟨exact_addAddress hne h internal j, fun b => ?_⟩
  show _ ≤ getCurrentAddressIndex (addAddress w _ _ _ _).address b
  rw [addAddress_address]
  exact getCurrentAddressIndex_setAddress h.rows.nonneg (Int.ofNat_nonneg j) b

/-! ## computations that grow the world -/

/-- every run of `x` grows the world, and a value it returns satisfies `Q` -/
def Keeps (w : WalletDescriptor) {α : Type} (x : SyncM α) (Q : α → Prop) : Prop :=
  ∀ wd, Grows w wd (x.run wd).2 ∧ ∀ a, (x.run wd).1 = .ok a → Q a

section
variable {α β : Type} {Q : α → Prop}

theorem Keeps.pure {a : α} (h : Q a) : Keeps w (pure a : SyncM α) Q :=
  fun wd => ⟨.refl wd, fun _ e => Except.ok.inj e ▸ h⟩

/-- `pure a` where nothing is asked of `a` -/
theorem Keeps.ret (a : α) : Keeps w (Pure.pure a : SyncM α) fun _ => True := .pure trivial

theorem Keeps.get : Keeps w (get : SyncM SyncWorld) fun _ => True :=
  fun wd => ⟨.refl wd, fun _ _ => trivial⟩

theorem Keeps.modify {f : SyncWorld → SyncWorld} (hf : ∀ wd, Grows w wd (f wd)) :
    Keeps w (modify f : SyncM Unit) fun _ => True :=
  fun wd => ⟨hf wd, fun _ _ => trivial⟩

theorem Keeps.mono {x : SyncM α} {P : α → Prop} (h : Keeps w x P) (hPQ : ∀ a, P a → Q a) :
    Keeps w x Q :=
  fun wd => ⟨(h wd).1, fun a e => hPQ a ((h wd).2 a e)⟩

theorem Keeps.bind {x : SyncM α} {f : α → SyncM β} {P : α → Prop} {Q : β → Prop}
    (hx : Keeps w x P) (hf : ∀ a, P a → Keeps w (f a) Q) : Keeps w (x >>= f) Q := fun wd => by
  rw [SyncM.run_bind]
  obtain ⟨g, hv⟩ := hx wd
  rcases hr : x.run wd with ⟨_ | a, wd'⟩
  · rw [hr] at g; exact ⟨g, fun _ e => by cases e⟩
  · rw [hr] at g hv
    obtain ⟨g', hv'⟩ := hf a (hv a rfl) wd'
    exact ⟨g.trans g', hv'⟩

/-- `UpdateTransactions` leaves the address data alone -/
theorem Keeps.liftTx (w' : WalletDescriptor) (x : AddressMap → TxM α) :
    Keeps w (Nunchuk.liftTx w' x) fun _ => True :=
  fun _ => ⟨.of_eq rfl rfl, fun _ _ => trivial⟩

/-- a computation run on a world the step before grew -/
theorem Keeps.after {x : SyncM α} (hx : Keeps w x Q) {wd wd₁ : SyncWorld} (g : Grows w wd wd₁) :
    Grows w wd (x.run wd₁).2 ∧ ∀ a, (x.run wd₁).1 = .ok a → Q a :=
  ⟨g.trans (hx wd₁).1, (hx wd₁).2⟩

theorem Keeps.run_ok {x : SyncM α} (hx : Keeps w x Q) {wd wd' : SyncWorld} {a : α}
    (hr : x.run wd = (.ok a, wd')) : Grows w wd wd' ∧ Q a := by
  have := hx wd
  rw [hr] at this
  exact ⟨this.1, this.2 a rfl⟩

end

/-! ## the updates of the sync -/

section
variable (m : Nat) (b : Backend) (ready : Bool)

theorem keeps_storeStatus (hne : w.escrow = false) (a : Address) (status : String) :
    Keeps w (storeStatus w a status) fun _ => True :=
  .modify (grows_setUtxos hne a _)

theorem keeps_updateScripthashStatus (hne : w.escrow = false) (sh status : String) :
    Keeps w (updateScripthashStatus w m b ready sh status) fun _ => True := by
  unfold updateScripthashStatus
  dsimp only
  split
  · exact .ret _
  · refine .bind (.ret _) fun _ _ => .bind .get fun wd _ => ?_
    split
    · exact .ret _
    · refine .bind (.liftTx _ _) fun ok _ => ?_
      split
      · exact keeps_storeStatus hne _ _
      · exact .ret _

theorem keeps_multiUpdate (hne : w.escrow = false) (rawtx : Dict TxId Payload)
    (statusOf : String → String) (shs : List String) :
    Keeps w (multiUpdate w m b ready rawtx statusOf shs) fun _ => True := by
  induction shs with
  | nil => exact .ret _
  | cons sh shs ih =>
    refine .bind .get fun wd _ => ?_
    split
    · exact ih
    · refine .bind (.liftTx _ _) fun ok _ => ?_
      dsimp only
      split
      · exact .bind (keeps_storeStatus hne _ _) fun _ _ => ih
      · exact .bind (.ret _) fun _ _ => ih

theorem keeps_updateScripthashesStatus (hne : w.escrow = false) (shs statuses : List String) :
    Keeps w (updateScripthashesStatus w m b ready shs statuses) fun _ => True := by
  unfold updateScripthashesStatus
  dsimp only
  split
  · exact .ret _
  · exact .bind (.ret _) fun _ _ => .bind .get fun _ _ => keeps_multiUpdate m b ready hne _ _ _

theorem keeps_subscribeAddress (a : Address) : Keeps w (subscribeAddress b a) fun _ => True :=
  .bind (.modify fun _ => .of_eq rfl rfl) fun _ _ => .ret _

theorem keeps_subscribeAddresses (as : List Address) :
    Keeps w (subscribeAddresses b as) fun _ => True :=
  .bind (.modify fun _ => .of_eq rfl rfl) fun _ _ => .ret _

theorem subscribeAddresses_run (as : List Address) (wd : SyncWorld) :
    (subscribeAddresses b as).run wd =
      (.ok (((as.map b.scripthash).foldr insertSorted []).map fun sh => (sh, b.status sh)),
        { wd with subscribed := as.foldl (fun m a => m.set (b.scripthash a) a) wd.subscribed }) :=
  rfl

/-- every scripthash `SubscribeAddresses` answers maps to one of its addresses -/
theorem subscribeAddresses_sub (as : List Address) (sub₀ : Dict String Address) :
    ∀ p ∈ ((as.map b.scripthash).foldr insertSorted []).map (fun sh => (sh, b.status sh)),
      ((as.foldl (fun m a => m.set (b.scripthash a) a) sub₀).get? p.1).getD "" ∈ as := by
  intro p hp
  obtain ⟨sh, hsh, rfl⟩ := List.mem_map.mp hp
  obtain ⟨a, ha, he⟩ := Dict.exists_get?_foldl_set b.scripthash sub₀ (mem_foldr_insertSorted.mp hsh)
  rw [he]
  exact ha

theorem keeps_sequentialSync (hne : w.escrow = false) (addresses : List Address) :
    Keeps w (sequentialSync w m b ready addresses) fun _ => True := by
  induction addresses with
  | nil => exact .ret _
  | cons a as ih =>
    refine .bind (keeps_subscribeAddress b a) fun r _ => ?_
    refine .bind .get fun wd _ => ?_
    dsimp only
    split
    · exact .bind (keeps_updateScripthashStatus m b ready hne _ _) fun _ _ => ih
    · exact .bind (.ret _) fun _ _ => ih

theorem keeps_syncWallet (hne : w.escrow = false) :
    Keeps w (syncWallet w m b ready) fun _ => True := by
  intro wd
  unfold syncWallet
  rw [SyncM.run_bind, SyncM.run_get]
  dsimp only
  rw [SyncM.run_bind, SyncM.run_modify]
  refine Keeps.after ?_ (grows_getAllAddressData hne wd)
  split
  · exact .bind (keeps_subscribeAddresses b _) fun _ _ => .bind .get fun _ _ =>
      keeps_updateScripthashesStatus m b ready hne _ _
  · exact keeps_sequentialSync m b ready hne _

/-- a pass of `BlockchainSync` over a non-escrow wallet, with either strategy and whatever the
server answers, keeps every row and cached entry derived and lowers no current index -/
theorem syncWallet_keeps_derived (hne : w.escrow = false) {wd : SyncWorld}
    (hx : Exact w wd.store) (internal : Bool) :
    Exact w ((syncWallet w m b ready).run wd).2.store ∧
      getCurrentAddressIndex wd.store.address internal ≤
        getCurrentAddressIndex ((syncWallet w m b ready).run wd).2.store.address internal :=
  let ⟨e, c⟩ := (keeps_syncWallet m b ready hne wd).1 hx
  ⟨e, c internal⟩

end

/-- the pass of `sequential_sync_evicts_other_address` without batched requests -/
theorem syncWallet_two_payments_keeps_derived :
    demoDescriptor.escrow = false ∧ Exact demoDescriptor emptyWorld.store ∧
    Exact demoDescriptor
      ((syncWallet demoDescriptor 1 (twoPaymentsBackend false) true).run emptyWorld).2.store ∧
    getCurrentAddressIndex emptyWorld.store.address false ≤ getCurrentAddressIndex
      ((syncWallet demoDescriptor 1 (twoPaymentsBackend false) true).run emptyWorld).2.store.address
      false :=
  have hx : Exact demoDescriptor emptyWorld.store :=
    (exact_getAllAddressData rfl ⟨(fun _ h => by cases h), fun _ h => by cases h⟩).1
  ⟨rfl, hx, syncWallet_keeps_derived 1 (twoPaymentsBackend false) true rfl hx false⟩

end Nunchuk
