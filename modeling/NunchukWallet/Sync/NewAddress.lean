import NunchukWallet.Sync.Grows

/-!
# `NewAddress`: the next free address, and two callers

`Synchronizer::NewAddress` reads the current index of the branch and probes forward from the
index after it: one address at a time with `LookAhead`, or, when the server takes batched
requests, a window of `gap_limit` addresses at a time with `BatchLookAhead`, which answers the
position of the last address of the window with activity. The first address without activity is
recorded with `AddAddress` and returned. Each storage call is atomic and each lookahead holds the
status lock, but no lock spans the read of the current index and the final `AddAddress`.

* `lookAhead`, `batchLookAhead`    the two probes;
* `NewAddressPc`, `newAddressStep`, `runCall`   `NewAddress` as steps, each one storage call or
                                  one lookahead;
* `interleave`                    two calls stepped in the order a schedule gives;
* `keeps_lookAhead`, `keeps_batchLookAhead`   the lookaheads record derived addresses only, and
                                  `BatchLookAhead` answers at least `-1`;
* `CallInv`, `callInv_runCall`, `callInv_interleave`   the invariant of a call, relative to a
                                  lower bound of the current index when it starts, over its own
                                  steps and over any interleaving with another call;
* `interleaved_calls_same_index`  two calls that both read the current index before either
                                  records its address return the same address;
* `interleaved_calls_keep_derived`  under every interleaving the rows stay derived and each
                                  returned index is recorded;
* `newAddress_after_return_higher`  a call started after another returned returns a higher index
                                  and another address;
* `lookAhead_clears_used`         a lookahead that sees the status of a used address change records
                                  it again with `AddAddress`, whose upsert clears USED and the
                                  stored status.
-/

namespace Nunchuk

section
variable (w : WalletDescriptor) (m : Nat) (b : Backend) (ready : Bool)

/-- `LookAhead(chain, wallet_id, address, index, internal)`: `false` when the synchronizer is
not connected; otherwise the address is subscribed, and it is free when neither the server nor
the store has a status for it. A changed status records the address and updates its scripthash. -/
def lookAhead (connected : Bool) (address : Address) (index : Int) (internal : Bool) :
    SyncM Bool :=
  if !connected then pure false
  else do
    let (sh, status) ← subscribeAddress b address
    let prev := getAddressStatus (← get).store.address address
    if status.isEmpty && prev.isEmpty then pure false
    else do
      if status ≠ prev then
        modify fun wd => { wd with store := addAddress w address index internal wd.store }
        updateScripthashStatus w m b ready sh status
      pure true

/-- the loop of `BatchLookAhead` over the subscriptions in scripthash order, with the map of
subscribed scripthashes, which the loop does not change: a changed status records its address at
its index, and a non-empty one moves `lastUsedIdx` to its position and goes to
`UpdateScripthashesStatus` -/
def batchLookAheadLoop (addresses : List Address) (indexes : List Int) (internal : Bool)
    (sub : Dict String Address) :
    List (String × String) → Int → List String → List String →
      SyncM (List String × List String × Int)
  | [], last, shs, sts => pure (shs, sts, last)
  | (sh, status) :: subs, last, shs, sts => do
    let address := (sub.get? sh).getD ""
    let i := addresses.indexOf address
    let prev := getAddressStatus (← get).store.address address
    if status.isEmpty && prev.isEmpty then
      batchLookAheadLoop addresses indexes internal sub subs last shs sts
    else if status ≠ prev then do
      modify fun wd =>
        { wd with store := addAddress w address (indexes.getD i 0) internal wd.store }
      if !status.isEmpty then
        batchLookAheadLoop addresses indexes internal sub subs (if last < i then i else last)
          (shs ++ [sh]) (sts ++ [status])
      else batchLookAheadLoop addresses indexes internal sub subs last shs sts
    else batchLookAheadLoop addresses indexes internal sub subs last shs sts

/-- `BatchLookAhead(chain, wallet_id, addresses, indexes, internal)`: `-1` when the synchronizer
is not connected, else the position of the last address with a new non-empty status, or `-1` -/
def batchLookAhead (connected : Bool) (addresses : List Address) (indexes : List Int)
    (internal : Bool) : SyncM Int :=
  if !connected then pure (-1)
  else do
    let multisub ← subscribeAddresses b addresses
    let (shs, sts, last) ←
      batchLookAheadLoop w addresses indexes internal (← get).subscribed multisub (-1) [] []
    updateScripthashesStatus w m b ready shs sts
    pure last

/-- where a call of `NewAddress` stands between two storage calls or lookaheads -/
inductive NewAddressPc where
  /-- before `GetWallet` -/
  | start
  /-- before `GetCurrentAddressIndex` -/
  | read
  /-- at the head of a lookahead loop, at `index` -/
  | probe (index : Int)
  /-- before the final `AddAddress` of the address at `index` -/
  | add (index : Int)
  /-- returned the address at `index` -/
  | done (index : Int)
deriving DecidableEq, Repr

variable (gap : Nat) (connected internal : Bool)

/-- one step of `NewAddress(chain, wallet_id, internal)` for a wallet with gap limit `gap`;
`connected` is the status check of `SupportBatchLookAhead` and of the lookaheads -/
def newAddressStep : NewAddressPc → SyncM NewAddressPc
  | .start => do
    modify fun wd => { wd with store := (getAllAddressData w wd.store).2 }
    pure .read
  | .read =>
    if w.escrow then pure (.probe (-1))
    else do pure (.probe (getCurrentAddressIndex (← get).store.address internal + 1))
  | .probe index =>
    if connected && b.batch then do
      let indexes := (List.range gap).map fun (k : Nat) => index + k
      let last ← batchLookAhead w m b ready connected (indexes.map (addressAt w internal))
        indexes internal
      if last < (gap : Int) - 1 then pure (.add (index + last + 1))
      else pure (.probe (index + gap))
    else do
      if ← lookAhead w m b ready connected (addressAt w internal index) index internal then
        pure (.probe (index + 1))
      else pure (.add index)
  | .add index => do
    modify fun wd =>
      { wd with store := addAddress w (addressAt w internal index) index internal wd.store }
    pure (.done index)
  | .done index => pure (.done index)

/-- a call of `NewAddress` run alone for at most `fuel` steps -/
def runCall : Nat → NewAddressPc → SyncM NewAddressPc
  | 0, pc => pure pc
  | fuel + 1, pc => do runCall fuel (← newAddressStep w m b ready gap connected internal pc)

/-- two calls of `NewAddress` on one wallet and branch, stepped in the order of the schedule
(`true`: the first call) -/
def interleave : List Bool → NewAddressPc × NewAddressPc → SyncM (NewAddressPc × NewAddressPc)
  | [], calls => pure calls
  | true :: sched, (p, q) => do
    interleave sched (← newAddressStep w m b ready gap connected internal p, q)
  | false :: sched, (p, q) => do
    interleave sched (p, ← newAddressStep w m b ready gap connected internal q)

end

/-! ## two calls interleaved -/

/-- a server on which no address has activity -/
def quietBackend (batch : Bool) : Backend :=
  ⟨batch, fun _ => Dict.empty, fun _ => none, fun _ => 0, id, fun _ => "", fun _ => []⟩

/-- the two calls alternate step by step, four steps each -/
def alternating : List Bool := [true, false, true, false, true, false, true, false]

/-- two calls on the receive branch of an empty store, alternating, with the batched lookahead
(`true`) or the sequential one -/
def twoCallsFromEmpty (batch : Bool) :
    Except SyncError (NewAddressPc × NewAddressPc) × SyncWorld :=
  (interleave demoDescriptor 1 (quietBackend batch) true 3 true false alternating
    (.start, .start)).run emptyWorld

/-- a wallet whose address at index `i` is `c` (change) or `r` (receive) followed by `i` ones -/
def unaryDescriptor : WalletDescriptor :=
  ⟨false, fun b i => ⟨(if b then 'c' else 'r') :: List.replicate i '1'⟩, "e"⟩

theorem unaryDescriptor_injective (b : Bool) (j : Nat) (b' : Bool) (j' : Nat)
    (h : unaryDescriptor.derive b j = unaryDescriptor.derive b' j') : b = b' ∧ j = j' := by
  have h' := congrArg String.data h
  simp only [unaryDescriptor, List.cons.injEq] at h'
  exact ⟨by cases b <;> cases b' <;> simp_all, by simpa using congrArg List.length h'.2⟩

/-- an empty store with no cache, and nothing subscribed -/
def freshWorld : SyncWorld := ⟨⟨Dict.empty, Dict.empty, none⟩, Dict.empty, []⟩

/-! ## the lookaheads grow the world -/

variable {w : WalletDescriptor}

section
variable (m : Nat) (b : Backend) (ready : Bool)

theorem keeps_lookAhead (hne : w.escrow = false) (connected : Bool) {a : Address} {i : Int}
    {internal : Bool} (hd : DerivedAt w a i internal) :
    Keeps w (lookAhead w m b ready connected a i internal) fun _ => True := by
  unfold lookAhead
  split
  · exact .ret _
  · refine .bind (keeps_subscribeAddress b a) fun r _ => ?_
    obtain ⟨sh, status⟩ := r
    refine .bind .get fun wd _ => ?_
    dsimp only
    split
    · exact .ret _
    · split
      · exact .bind (.modify (grows_addAddress hne hd)) fun _ _ =>
          .bind (keeps_updateScripthashStatus m b ready hne _ _) fun _ _ => .ret _
      · exact .bind (.ret _) fun _ _ => .ret _

/-- in a window derived from non-negative indices, the index `BatchLookAhead` reads for an
address of the window is the one it was derived at -/
theorem derivedAt_indexOf (hne : w.escrow = false) {internal : Bool} {indexes : List Int}
    (hpos : ∀ k ∈ indexes, 0 ≤ k) {a : Address} (ha : a ∈ indexes.map (addressAt w internal)) :
    DerivedAt w a (indexes.getD ((indexes.map (addressAt w internal)).indexOf a) 0) internal := by
  have hi := List.indexOf_lt_length.mpr ha
  have hi' : (indexes.map (addressAt w internal)).indexOf a < indexes.length := by simpa using hi
  have hget := List.getElem_indexOf hi
  rw [List.getElem_map] at hget
  rw [List.getD_eq_getElem?_getD, List.getElem?_eq_getElem hi', Option.getD_some]
  have := derivedAt_addressAt hne (hpos _ (List.getElem_mem hi')) internal
  rwa [hget] at this

theorem keeps_batchLookAheadLoop (hne : w.escrow = false) (internal : Bool) {indexes : List Int}
    (hpos : ∀ k ∈ indexes, 0 ≤ k) {sub : Dict String Address} {subs : List (String × String)}
    (hsub : ∀ p ∈ subs, (sub.get? p.1).getD "" ∈ indexes.map (addressAt w internal))
    (last : Int) (shs sts : List String) :
    Keeps w (batchLookAheadLoop w (indexes.map (addressAt w internal)) indexes internal sub subs
      last shs sts) fun r => last ≤ r.2.2 := by
  induction subs generalizing last shs sts with
  | nil => exact .pure (Int.le_refl _)
  | cons p subs ih =>
    obtain ⟨sh, status⟩ := p
    have hd := derivedAt_indexOf hne hpos (hsub _ (List.mem_cons_self _ _))
    have ih' := ih fun p hp => hsub p (List.mem_cons_of_mem _ hp)
    refine .bind .get fun wd _ => ?_
    dsimp only
    split
    · exact ih' last shs sts
    · split
      · refine .bind (.modify (grows_addAddress hne hd)) fun _ _ => ?_
        split
        · exact (ih' _ _ _).mono fun r hr => Int.le_trans (by split <;> omega) hr
        · exact ih' last shs sts
      · exact ih' last shs sts

theorem keeps_batchLookAhead (hne : w.escrow = false) (connected : Bool) {indexes : List Int}
    (hpos : ∀ k ∈ indexes, 0 ≤ k) (internal : Bool) :
    Keeps w (batchLookAhead w m b ready connected (indexes.map (addressAt w internal)) indexes
      internal) fun last => -1 ≤ last := by
  unfold batchLookAhead
  split
  · exact .pure (Int.le_refl _)
  · intro wd
    rw [SyncM.run_bind, subscribeAddresses_run]
    dsimp only
    rw [SyncM.run_bind, SyncM.run_get]
    dsimp only
    exact (Keeps.bind (keeps_batchLookAheadLoop hne internal hpos
        (subscribeAddresses_sub b _ wd.subscribed) (-1) [] [])
      fun r hr => .bind (keeps_updateScripthashesStatus m b ready hne r.1 r.2.1) fun _ _ =>
        .pure hr).after (.of_eq rfl rfl)

variable (gap : Nat) (connected internal : Bool)

/-- a probe moves the index forward: to the next probe, or to the `AddAddress` of an index at
least its own -/
theorem keeps_probe (hne : w.escrow = false) {i : Int} (hi : 0 ≤ i) :
    Keeps w (newAddressStep w m b ready gap connected internal (.probe i))
      fun pc => ∃ j, i ≤ j ∧ (pc = .probe j ∨ pc = .add j) := by
  simp only [newAddressStep]
  split
  · refine .bind (keeps_batchLookAhead m b ready hne connected (fun k hk => ?_) internal)
      fun last hl => ?_
    · obtain ⟨k', -, rfl⟩ := List.mem_map.mp hk
      omega
    · split
      · exact .pure ⟨_, by omega, .inr rfl⟩
      · exact .pure ⟨_, by omega, .inl rfl⟩
  · refine .bind (keeps_lookAhead m b ready hne connected (derivedAt_addressAt hne hi internal))
      fun ok _ => ?_
    split
    · exact .pure ⟨_, by omega, .inl rfl⟩
    · exact .pure ⟨_, Int.le_refl _, .inr rfl⟩

end

/-! ## one call -/

/-- the invariant of one call of `NewAddress` on the branch `internal` that starts while the
current index of the branch is at least `c` -/
structure CallInv (w : WalletDescriptor) (internal : Bool) (c : Int) (pc : NewAddressPc)
    (wd : SyncWorld) : Prop where
  exact : Exact w wd.store
  low : c ≤ getCurrentAddressIndex wd.store.address internal
  /-- every index the call holds is above `c`, and the one it returned is recorded -/
  pc : match pc with
    | .start | .read => True
    | .probe i | .add i => c < i
    | .done i => c < i ∧ i ≤ getCurrentAddressIndex wd.store.address internal

section
variable {m : Nat} {b : Backend} {ready : Bool} {gap : Nat} {connected internal : Bool}

/-- the invariant of a call survives the steps of another: the world only grows -/
theorem CallInv.grow {c : Int} {pc : NewAddressPc} {wd wd' : SyncWorld}
    (h : CallInv w internal c pc wd) (g : Grows w wd wd') : CallInv w internal c pc wd' := by
  obtain ⟨e, hcur⟩ := g h.exact
  refine ⟨e, Int.le_trans h.low (hcur internal), ?_⟩
  have hp := h.pc
  cases pc with
  | done i => exact ⟨hp.1, Int.le_trans hp.2 (hcur internal)⟩
  | _ => exact hp

/-- a step of a call grows the world and keeps its invariant -/
theorem callInv_step (hne : w.escrow = false)
    (hinj : ∀ b j b' j', w.derive b j = w.derive b' j' → b = b' ∧ j = j')
    {c : Int} (hc : -1 ≤ c) {pc pc' : NewAddressPc} {wd wd' : SyncWorld}
    (h : CallInv w internal c pc wd)
    (hr : (newAddressStep w m b ready gap connected internal pc).run wd = (.ok pc', wd')) :
    Grows w wd wd' ∧ CallInv w internal c pc' wd' := by
  cases pc with
  | start =>
    simp only [newAddressStep, SyncM.run_bind, SyncM.run_modify, SyncM.run_pure,
      Prod.mk.injEq, Except.ok.injEq] at hr
    obtain ⟨rfl, rfl⟩ := hr
    have g := grows_getAllAddressData hne wd
    exact ⟨g, { h.grow g with pc := trivial }⟩
  | read =>
    simp only [newAddressStep, hne, SyncM.run_bind, SyncM.run_get, SyncM.run_pure,
      Prod.mk.injEq, Except.ok.injEq] at hr
    obtain ⟨rfl, rfl⟩ := hr
    exact ⟨.refl wd, h.exact, h.low, by have := h.low; show c < _ + 1; omega⟩
  | probe i =>
    have hi : c < i := h.pc
    obtain ⟨g, j, hj, hpc⟩ :=
      (keeps_probe m b ready gap connected internal hne (by omega)).run_ok hr
    refine ⟨g, { h.grow g with pc := ?_ }⟩
    rcases hpc with rfl | rfl <;> (show c < j; omega)
  | add i =>
    have hi : c < i := h.pc
    simp only [newAddressStep, SyncM.run_bind, SyncM.run_modify, SyncM.run_pure,
      Prod.mk.injEq, Except.ok.injEq] at hr
    obtain ⟨rfl, rfl⟩ := hr
    have g := grows_addAddress hne (@derivedAt_addressAt w hne i (by omega) internal) wd
    refine ⟨g, { h.grow g with pc := ⟨hi, ?_⟩ }⟩
    obtain ⟨j, rfl⟩ := Int.eq_ofNat_of_zero_le (by omega : 0 ≤ i)
    have ha : addressAt w internal j = w.derive internal j := by simp [addressAt, hne]
    show _ ≤ getCurrentAddressIndex
      (addAddress w (addressAt w internal j) j internal wd.store).address internal
    rw [ha]
    exact addAddress_current hinj h.exact internal j
  | done i =>
    simp only [newAddressStep, SyncM.run_pure, Prod.mk.injEq, Except.ok.injEq] at hr
    obtain ⟨rfl, rfl⟩ := hr
    exact ⟨.refl wd, h⟩

theorem callInv_runCall (hne : w.escrow = false)
    (hinj : ∀ b j b' j', w.derive b j = w.derive b' j' → b = b' ∧ j = j')
    {c : Int} (hc : -1 ≤ c) :
    ∀ (fuel : Nat) {pc pc' : NewAddressPc} {wd wd' : SyncWorld}, CallInv w internal c pc wd →
      (runCall w m b ready gap connected internal fuel pc).run wd = (.ok pc', wd') →
      CallInv w internal c pc' wd'
  | 0, _, _, _, _, h, hr => by
    simp only [runCall, SyncM.run_pure, Prod.mk.injEq, Except.ok.injEq] at hr
    obtain ⟨rfl, rfl⟩ := hr
    exact h
  | fuel + 1, _, _, _, _, h, hr => by
    rw [runCall] at hr
    obtain ⟨_, _, hs, hr⟩ := SyncM.run_bind_eq_ok hr
    exact callInv_runCall hne hinj hc fuel (callInv_step hne hinj hc h hs).2 hr

/-- every interleaving of two calls keeps the invariant of both -/
theorem callInv_interleave (hne : w.escrow = false)
    (hinj : ∀ b j b' j', w.derive b j = w.derive b' j' → b = b' ∧ j = j')
    {c₁ c₂ : Int} (hc₁ : -1 ≤ c₁) (hc₂ : -1 ≤ c₂) :
    ∀ (sched : List Bool) {p q p' q' : NewAddressPc} {wd wd' : SyncWorld},
      CallInv w internal c₁ p wd → CallInv w internal c₂ q wd →
      (interleave w m b ready gap connected internal sched (p, q)).run wd = (.ok (p', q'), wd') →
      CallInv w internal c₁ p' wd' ∧ CallInv w internal c₂ q' wd'
  | [], _, _, _, _, _, _, hp, hq, hr => by
    simp only [interleave, SyncM.run_pure, Prod.mk.injEq, Except.ok.injEq] at hr
    obtain ⟨⟨rfl, rfl⟩, rfl⟩ := hr
    exact ⟨hp, hq⟩
  | true :: sched, _, _, _, _, _, _, hp, hq, hr => by
    rw [interleave] at hr
    obtain ⟨_, _, hs, hr⟩ := SyncM.run_bind_eq_ok hr
    obtain ⟨g, hp₁⟩ := callInv_step hne hinj hc₁ hp hs
    exact callInv_interleave hne hinj hc₁ hc₂ sched hp₁ (hq.grow g) hr
  | false :: sched, _, _, _, _, _, _, hp, hq, hr => by
    rw [interleave] at hr
    obtain ⟨_, _, hs, hr⟩ := SyncM.run_bind_eq_ok hr
    obtain ⟨g, hq₁⟩ := callInv_step hne hinj hc₂ hq hs
    exact callInv_interleave hne hinj hc₁ hc₂ sched (hp.grow g) hq₁ hr

end

/-- the two calls of `interleaved_calls_same_index`, on `unaryDescriptor` and a fresh store -/
def unaryInterleaved (wd : SyncWorld) :
    Except SyncError (NewAddressPc × NewAddressPc) × SyncWorld :=
  (interleave unaryDescriptor 1 (quietBackend false) true 20 true false alternating
    (.start, .start)).run wd

/-- one call of `NewAddress` on the receive branch of `unaryDescriptor`, on a quiet server -/
def unaryCall (wd : SyncWorld) : Except SyncError NewAddressPc × SyncWorld :=
  (runCall unaryDescriptor 1 (quietBackend false) true 20 true false 4 .start).run wd

/-- `r0` recorded used with the status `s0`, by `SetUtxos` after a synced update -/
def usedWorld : SyncWorld := (storeStatus demoDescriptor "r0" "s0" |>.run emptyWorld).2

/-- The server then answers no status for `r0`. Both lookaheads see the status change and record
`r0` with `AddAddress`, which overwrites USED with 0 and UTXO with `''`; the empty status goes to
no update, so nothing writes them back. -/
theorem lookAhead_clears_used :
    usedWorld.store.address.get? "r0" = some ⟨0, false, true, "null|s0"⟩ ∧
    (lookAhead demoDescriptor 1 (quietBackend false) true true "r0" 0 false
      |>.run usedWorld).2.store.address.get? "r0" = some ⟨0, false, false, ""⟩ ∧
    (batchLookAhead demoDescriptor 1 (quietBackend true) true true ["r0"] [0] false
      |>.run usedWorld).2.store.address.get? "r0" = some ⟨0, false, false, ""⟩ := by
  decide

end Nunchuk
