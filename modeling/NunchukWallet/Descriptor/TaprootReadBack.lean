import Mathlib.Data.List.Sort
import NunchukWallet.Descriptor.Musig
import NunchukWallet.Descriptor.MultiReadBack

/-!
# Taproot multisig descriptors read back

`GetDescriptorForSigners` writes a taproot multisig wallet in one of three shapes: all the keys
under one `musig` when `m = n`; the first `m` keys under `musig` and a tree of `pk(musig(S))`
leaves, one per other choice `S` of `m` keys, when `n ≤ 5`; and otherwise the first `m` keys under
`musig` next to `(sorted)multi_a(m,keys)`. `ParseDescriptors` counts the keys of the first `musig`
as `m`, then splits the whole external descriptor at `,{}()` and reads as a signer every piece of
20 bytes or more it has not read before.

* `allChoices`, `firstChoice_prevPermutations`   the arrangements of `m` trues among `n` places,
                              from the largest value down: the first one and those
                              `std::prev_permutation` visits from it;
* `taprootKeys`, `taprootKeys_allChoices`   the pieces the loop reads, first appearances only:
                              over the keys of every choice of `m` keys, in that order, the keys;
* `longPieces`, `longPieces_render`   the pieces of 20 bytes or more, which split at each of
                              `,{}()` and so follow the leaves of a script tree;
* `parseTaprootSigners_run`, `parseDescriptors_taproot`   the loop and the taproot branch;
* `parseDescriptors_taproot_keys`   each of the three shapes over distinct long keys reads as the
                              threshold `m` and the signers of the keys, in key order;
* `taproot_multi_sig_read_back`   `ParseDescriptors` reads back what `GetDescriptorForSigners`
                              writes for a taproot multisig wallet whose signers have distinct
                              xpubs, for every threshold `1 ≤ m ≤ n`, sorted or not; the count it
                              reports adds the signers the output held before.
-/

namespace Nunchuk

/-- the arrangements of `m` trues among `n` places from the largest value down: those that begin
with `true`, then those that begin with `false` -/
def allChoices : Nat → Nat → List (List Bool)
  | 0, 0 => [[]]
  | 0, _ + 1 => []
  | n + 1, 0 => (allChoices n 0).map (false :: ·)
  | n + 1, m + 1 => (allChoices n m).map (true :: ·) ++ (allChoices n (m + 1)).map (false :: ·)

theorem mem_allChoices : ∀ {n m : Nat} {u : List Bool},
    u ∈ allChoices n m ↔ u.length = n ∧ u.count true = m
  | 0, 0, u => by cases u <;> simp [allChoices]
  | 0, m + 1, u => by cases u <;> simp [allChoices]
  | n + 1, 0, [] => by simp [allChoices]
  | n + 1, 0, b :: u => by cases b <;> simp [allChoices, mem_allChoices, List.count_cons]
  | n + 1, m + 1, [] => by simp [allChoices]
  | n + 1, m + 1, b :: u => by cases b <;> simp [allChoices, mem_allChoices, List.count_cons]

theorem allChoices_zero : ∀ n, allChoices n 0 = [List.replicate n false]
  | 0 => rfl
  | n + 1 => by simp [allChoices, allChoices_zero n, List.replicate_succ]

/-- the arrangements are listed from the largest value down -/
theorem pairwise_allChoices : ∀ n m,
    (allChoices n m).Pairwise fun a b => binValue b < binValue a
  | 0, 0 => List.pairwise_singleton _ _
  | 0, _ + 1 => List.Pairwise.nil
  | n + 1, 0 => by
    rw [allChoices, List.pairwise_map]
    exact (pairwise_allChoices n 0).imp fun h => by simpa [binValue_cons] using h
  | n + 1, m + 1 => by
    rw [allChoices, List.pairwise_append, List.pairwise_map, List.pairwise_map]
    refine ⟨List.Pairwise.imp_of_mem (fun ha hb h => by
      simp only [binValue_cons, if_true, (mem_allChoices.mp ha).1, (mem_allChoices.mp hb).1]
      omega) (pairwise_allChoices n m),
      (pairwise_allChoices n (m + 1)).imp fun h => by simpa [binValue_cons] using h, ?_⟩
    simp only [List.mem_map]
    rintro _ ⟨a, ha, rfl⟩ _ ⟨b, hb, rfl⟩
    have := binValue_lt b
    rw [(mem_allChoices.mp hb).1] at this
    simp only [binValue_cons, if_true, Bool.false_eq_true, if_false, (mem_allChoices.mp ha).1]
    omega

/-- the loop from `v` visits its arrangements from the largest value down -/
theorem pairwise_prevPermutations (v : List Bool) :
    (v :: prevPermutations v).Pairwise fun a b => binValue b < binValue a := by
  refine List.Pairwise.cons (fun u hu => (mem_prevPermutations.mp hu).2.2) ?_
  cases hv : prevPermutation v with
  | none => rw [prevPermutations_of_none hv]; exact List.Pairwise.nil
  | some w =>
    have := (prevPermutation_spec hv).2
    rw [prevPermutations_of_some hv]
    exact pairwise_prevPermutations w
termination_by binValue v

/-- From `m` trues then falses, `std::prev_permutation` visits every arrangement of `m` trues
among `n` places, from the largest value down. -/
theorem firstChoice_prevPermutations {n m : Nat} (hm : m ≤ n) :
    firstChoice n m :: prevPermutations (firstChoice n m) = allChoices n m := by
  have hl := length_firstChoice hm
  have hc := count_firstChoice n m
  have hmem : ∀ u, u ∈ firstChoice n m :: prevPermutations (firstChoice n m) ↔
      u ∈ allChoices n m := fun u => by
    rw [List.mem_cons, mem_prevPermutations, mem_allChoices, hl, hc]
    constructor
    · rintro (rfl | ⟨hul, huc, -⟩)
      exacts [⟨hl, hc⟩, ⟨hul, huc⟩]
    · rintro ⟨hul, huc⟩
      have hle := binValue_le_sorted u
      rw [show List.replicate (u.count true) true ++ List.replicate (u.count false) false =
        firstChoice n m by
          have := count_true_add_count_false u
          rw [huc, firstChoice]
          congr 2
          omega] at hle
      rcases Nat.lt_or_eq_of_le hle with hlt | heq
      · exact .inr ⟨hul, huc, hlt⟩
      · exact .inl (binValue_inj (hul.trans hl.symm) heq)
  let r : List Bool → List Bool → Prop := fun a b => binValue b < binValue a
  haveI : IsAntisymm (List Bool) r := ⟨fun _ _ h1 h2 => absurd (h1.trans h2) (Nat.lt_irrefl _)⟩
  have hs₁ := pairwise_prevPermutations (firstChoice n m)
  have hs₂ := pairwise_allChoices n m
  refine List.eq_of_perm_of_sorted ((List.perm_ext_iff_of_nodup ?_ ?_).mpr hmem) hs₁ hs₂
  · exact hs₁.imp fun h he => by rw [he] at h; exact Nat.lt_irrefl _ h
  · exact hs₂.imp fun h he => by rw [he] at h; exact Nat.lt_irrefl _ h

/-! ## the keys the taproot loop reads -/

/-- the pieces the taproot loop of `ParseDescriptors` reads as signers after the pieces `seen`:
each piece of at least 20 bytes not seen before -/
def taprootKeys : List (List Char) → List (List Char) → List (List Char)
  | [], _ => []
  | p :: ps, seen =>
    if (String.mk p).utf8ByteSize < 20 ∨ p ∈ seen then taprootKeys ps seen
    else p :: taprootKeys ps (seen ++ [p])

theorem taprootKeys_append (ys : List (List Char)) :
    ∀ (xs seen : List (List Char)),
      taprootKeys (xs ++ ys) seen =
        taprootKeys xs seen ++ taprootKeys ys (seen ++ taprootKeys xs seen)
  | [], seen => by simp [taprootKeys]
  | p :: xs, seen => by
    rw [List.cons_append, taprootKeys, taprootKeys]
    by_cases h : (String.mk p).utf8ByteSize < 20 ∨ p ∈ seen
    · rw [if_pos h, if_pos h, taprootKeys_append ys xs seen]
    · rw [if_neg h, if_neg h, taprootKeys_append ys xs, List.cons_append, List.append_assoc,
        List.singleton_append]

/-- only what `seen` holds of the pieces matters -/
theorem taprootKeys_congr : ∀ (xs : List (List Char)) {seen seen' : List (List Char)},
    (∀ p ∈ xs, p ∈ seen ↔ p ∈ seen') → taprootKeys xs seen = taprootKeys xs seen'
  | [], _, _, _ => rfl
  | p :: xs, seen, seen', h => by
    have hp := h p (List.mem_cons_self _ _)
    have hxs := fun q hq => h q (List.mem_cons_of_mem p hq)
    simp only [taprootKeys, hp]
    split
    · exact taprootKeys_congr xs hxs
    · exact congrArg _ (taprootKeys_congr xs fun q hq => by simp [hxs q hq])

theorem taprootKeys_eq_nil : ∀ {xs seen : List (List Char)}, (∀ p ∈ xs, p ∈ seen) →
    taprootKeys xs seen = []
  | [], _, _ => rfl
  | p :: xs, seen, h => by
    rw [taprootKeys, if_pos (.inr (h p (List.mem_cons_self _ _))),
      taprootKeys_eq_nil fun q hq => h q (List.mem_cons_of_mem p hq)]

/-- pieces `seen` holds already can be left out -/
theorem taprootKeys_filter {s : List (List Char)} :
    ∀ (xs : List (List Char)) {seen : List (List Char)}, (∀ q ∈ s, q ∈ seen) →
      taprootKeys (xs.filter fun q => q ∉ s) seen = taprootKeys xs seen
  | [], _, _ => rfl
  | p :: xs, seen, hs => by
    by_cases hp : p ∈ s
    · rw [List.filter_cons_of_neg (by simpa using hp), taprootKeys_filter xs hs, taprootKeys,
        if_pos (.inr (hs p hp))]
    · rw [List.filter_cons_of_pos (by simpa using hp), taprootKeys, taprootKeys]
      split
      · exact taprootKeys_filter xs hs
      · exact congrArg _ (taprootKeys_filter xs fun q hq => List.mem_append_left _ (hs q hq))

/-- pieces that each begin with a new long key `k` and go on without it: the loop reads `k`, then
the rest as if `k` were seen -/
theorem taprootKeys_flatMap_cons {k : List Char} (hk : 20 ≤ (String.mk k).utf8ByteSize)
    {f : List Bool → List (List Char)} {A : List (List Bool)} (hA : A ≠ [])
    (hf : ∀ u ∈ A, k ∉ f u) :
    taprootKeys (A.flatMap fun u => k :: f u) [] = k :: taprootKeys (A.flatMap f) [k] := by
  have hfl : ∀ B : List (List Bool), (∀ v ∈ B, k ∉ f v) →
      ((B.flatMap fun v => k :: f v).filter fun q => q ∉ [k]) = B.flatMap f ∧
      ((B.flatMap f).filter fun q => q ∉ [k]) = B.flatMap f := by
    intro B hB
    induction B with
    | nil => exact ⟨rfl, rfl⟩
    | cons v B ih =>
      have hv : (f v).filter (fun q => q ∉ [k]) = f v := List.filter_eq_self.mpr fun q hq => by
        simpa using ne_of_mem_of_not_mem hq (hB v (List.mem_cons_self _ _))
      obtain ⟨ih1, ih2⟩ := ih fun w hw => hB w (List.mem_cons_of_mem _ hw)
      simp only [List.flatMap_cons, List.filter_append, List.filter_cons, hv, ih1, ih2]
      simp
  obtain ⟨u, A', rfl⟩ := List.exists_cons_of_ne_nil hA
  have hnew : ¬ ((String.mk k).utf8ByteSize < 20 ∨ k ∈ ([] : List (List Char))) := by
    simp only [List.not_mem_nil, or_false, not_lt]
    exact hk
  rw [List.flatMap_cons, List.cons_append, taprootKeys, if_neg hnew, List.nil_append,
    ← @taprootKeys_filter [k] _ [k] fun _ h => h,
    ← @taprootKeys_filter [k] ((u :: A').flatMap f) [k] fun _ h => h, (hfl _ hf).2]
  congr 2
  have := (hfl (u :: A') hf).1
  rw [List.flatMap_cons, List.cons_append, List.filter_cons_of_neg (by simp)] at this
  exact this

theorem taprootKeys_seen_of_not_mem {k : List Char} {xs : List (List Char)} (h : k ∉ xs) :
    taprootKeys xs [k] = taprootKeys xs [] :=
  taprootKeys_congr xs fun p hp => by
    simp only [List.mem_singleton, List.not_mem_nil, iff_false]
    rintro rfl
    exact h hp

theorem mem_of_mem_flatMap_selectKeys {keys : List (List Char)} {A : List (List Bool)}
    {p : List Char} (h : p ∈ A.flatMap (selectKeys keys)) : p ∈ keys := by
  obtain ⟨u, -, hp⟩ := List.mem_flatMap.mp h
  exact (selectKeys_sublist keys u).subset hp

/-- Over all the arrangements of `m ≥ 1` trues among the keys, from the largest down, the loop
reads each key once, in key order. -/
theorem taprootKeys_allChoices : ∀ (keys : List (List Char)) {m : Nat}, keys.Nodup →
    (∀ k ∈ keys, 20 ≤ (String.mk k).utf8ByteSize) → 1 ≤ m → m ≤ keys.length →
    taprootKeys ((allChoices keys.length m).flatMap (selectKeys keys)) [] = keys
  | [], _, _, _, h1, hm => absurd (h1.trans hm) (by simp)
  | k :: ks, m + 1, hnd, hlong, _, hm => by
    obtain ⟨hk, hks⟩ := List.nodup_cons.mp hnd
    have hlong' := fun q hq => hlong q (List.mem_cons_of_mem k hq)
    have hsplit : (allChoices (k :: ks).length (m + 1)).flatMap (selectKeys (k :: ks)) =
        (allChoices ks.length m).flatMap (fun u => k :: selectKeys ks u) ++
          (allChoices ks.length (m + 1)).flatMap (selectKeys ks) := by
      simp [allChoices, List.flatMap_append, List.flatMap_map, Function.comp_def]
    have hnot : ∀ A : List (List Bool), ∀ u ∈ A, k ∉ selectKeys ks u :=
      fun _ u _ h => hk ((selectKeys_sublist ks u).subset h)
    rw [hsplit, taprootKeys_append, List.nil_append]
    rcases Nat.eq_zero_or_pos m with rfl | hm0
    · -- one key of the first block: `k` alone, then the others from the second
      rw [allChoices_zero, List.flatMap_singleton, selectKeys_replicate_false, taprootKeys,
        if_neg (by
          simp only [List.not_mem_nil, or_false, not_lt]
          exact hlong k (List.mem_cons_self _ _)),
        taprootKeys, List.singleton_append]
      congr 1
      rcases ks with _ | ⟨k', ks'⟩
      · rfl
      · rw [taprootKeys_seen_of_not_mem fun h => hk (mem_of_mem_flatMap_selectKeys h)]
        exact taprootKeys_allChoices (k' :: ks') hks hlong' (le_refl 1) (by simp)
    · -- the first block reads `k` then the other keys; the second reads nothing new
      have hA : allChoices ks.length m ≠ [] := List.ne_nil_of_mem
        (mem_allChoices.mpr ⟨length_firstChoice (by simp at hm; omega), count_firstChoice _ m⟩)
      rw [taprootKeys_flatMap_cons (hlong k (List.mem_cons_self _ _)) hA (hnot _),
        taprootKeys_seen_of_not_mem fun h => hk (mem_of_mem_flatMap_selectKeys h),
        taprootKeys_allChoices ks hks hlong' hm0 (by simp at hm; omega),
        taprootKeys_eq_nil fun p hp => List.mem_cons_of_mem k (mem_of_mem_flatMap_selectKeys hp),
        List.append_nil]

/-! ## the pieces between `,{}()` -/

section
variable {seps : List Char}

theorem splitAny_ne_nil : ∀ x : List Char, splitAny seps x ≠ []
  | [] => List.cons_ne_nil _ _
  | c :: x => by unfold splitAny; split <;> exact List.cons_ne_nil _ _

/-- a separator cuts the text in two -/
theorem splitAny_append_cons {s : Char} (hs : s ∈ seps) (y : List Char) :
    ∀ x : List Char, splitAny seps (x ++ s :: y) = splitAny seps x ++ splitAny seps y
  | [] => by simp [splitAny, hs]
  | c :: x => by
    obtain ⟨p, ps, hp⟩ := List.exists_cons_of_ne_nil (@splitAny_ne_nil seps x)
    rw [List.cons_append, splitAny, splitAny, splitAny_append_cons hs y x, hp]
    split <;> rfl

/-- every piece is a part of the text -/
theorem infix_of_mem_splitAny : ∀ {x p : List Char}, p ∈ splitAny seps x → p <:+: x := by
  suffices h : ∀ x : List Char, (∀ p ∈ splitAny seps x, p <:+: x) ∧
      (splitAny seps x).headD [] <+: x by
    intro x p hp
    exact (h x).1 p hp
  intro x
  induction x with
  | nil => exact ⟨fun p hp => by simp [splitAny] at hp; simp [hp], List.nil_prefix⟩
  | cons c x ih =>
    obtain ⟨p0, ps, hp0⟩ := List.exists_cons_of_ne_nil (@splitAny_ne_nil seps x)
    rw [hp0] at ih
    rw [splitAny, hp0]
    split
    · refine ⟨fun p hp => ?_, List.nil_prefix⟩
      rcases List.mem_cons.mp hp with rfl | hp
      · exact List.nil_infix
      · exact List.infix_cons (ih.1 p hp)
    · refine ⟨fun p hp => ?_, List.prefix_cons_inj c |>.mpr ih.2⟩
      rcases List.mem_cons.mp hp with rfl | hp
      · exact (List.prefix_cons_inj c |>.mpr ih.2).isInfix
      · exact List.infix_cons (ih.1 p (List.mem_cons_of_mem _ hp))

end

/-- the pieces of the taproot loop of at least 20 bytes -/
def longPieces (x : List Char) : List (List Char) :=
  (splitAny [',', '{', '}', '(', ')'] x).filter fun p => 20 ≤ (String.mk p).utf8ByteSize

theorem longPieces_append_cons {s : Char} (hs : s ∈ [',', '{', '}', '(', ')']) (x y : List Char) :
    longPieces (x ++ s :: y) = longPieces x ++ longPieces y := by
  rw [longPieces, splitAny_append_cons hs, List.filter_append]
  rfl

/-- a text of fewer than 20 bytes has no long piece -/
theorem longPieces_of_short {x : List Char} (h : (String.mk x).utf8ByteSize < 20) :
    longPieces x = [] :=
  List.filter_eq_nil_iff.mpr fun p hp => by
    have := String.utf8Len_le_of_infix (infix_of_mem_splitAny hp)
    simp only [String.utf8ByteSize_mk, decide_eq_true_eq, not_le] at h ⊢
    omega

/-- a long text without separators is one long piece -/
theorem longPieces_key {k : List Char} (hk : ∀ c ∈ k, c ∉ [',', '{', '}', '(', ')'])
    (hl : 20 ≤ (String.mk k).utf8ByteSize) : longPieces k = [k] := by
  rw [longPieces, splitAny_of_forall_not_mem hk]
  simp only [String.utf8ByteSize_mk] at hl
  simp [hl]

theorem intercalate_comma_cons (k : List Char) :
    ∀ ks : List (List Char), List.intercalate [','] (k :: ks) = k ++ commaKeys ks
  | [] => by simp [List.intercalate, commaKeys]
  | k' :: ks => by
    rw [commaKeys, List.flatMap_cons, ← commaKeys, List.cons_append,
      ← intercalate_comma_cons k' ks]
    simp [List.intercalate, List.intersperse_cons_cons]

/-- a word of fewer than 20 bytes before a separator is not read -/
theorem longPieces_short_append_cons {s : Char} (hs : s ∈ [',', '{', '}', '(', ')'])
    {x : List Char} (hx : (String.mk x).utf8ByteSize < 20) (y : List Char) :
    longPieces (x ++ s :: y) = longPieces y := by
  rw [longPieces_append_cons hs, longPieces_of_short hx, List.nil_append]

@[simp] theorem longPieces_nil : longPieces [] = [] := rfl

theorem longPieces_cons {s : Char} (hs : s ∈ [',', '{', '}', '(', ')']) (y : List Char) :
    longPieces (s :: y) = longPieces y :=
  longPieces_append_cons hs [] y

theorem intercalate_comma_cons_cons (k k' : List Char) (ks : List (List Char)) :
    List.intercalate [','] (k :: k' :: ks) = k ++ ',' :: List.intercalate [','] (k' :: ks) := by
  rw [intercalate_comma_cons, intercalate_comma_cons, commaKeys, List.flatMap_cons]
  rfl

/-- keys without separators, each of 20 bytes or more, joined by commas: the keys -/
theorem longPieces_intercalate : ∀ {K : List (List Char)},
    (∀ k ∈ K, (∀ c ∈ k, c ∉ [',', '{', '}', '(', ')']) ∧ 20 ≤ (String.mk k).utf8ByteSize) →
    longPieces (List.intercalate [','] K) = K
  | [], _ => rfl
  | [k], h => by
    rw [intercalate_comma_cons, commaKeys, List.flatMap_nil, List.append_nil]
    exact longPieces_key (h k (List.mem_singleton_self _)).1 (h k (List.mem_singleton_self _)).2
  | k :: k' :: ks, h => by
    rw [intercalate_comma_cons_cons, longPieces_append_cons (by decide),
      longPieces_key (h k (List.mem_cons_self _ _)).1 (h k (List.mem_cons_self _ _)).2,
      longPieces_intercalate fun q hq => h q (List.mem_cons_of_mem _ hq), List.singleton_append]

/-- the long pieces of a script tree are those of its leaves, left to right -/
theorem longPieces_render : ∀ T : ScriptTree, longPieces T.render = T.leaves.flatMap longPieces
  | .leaf s => by simp [ScriptTree.render, ScriptTree.leaves]
  | .node l r => by
    simp only [ScriptTree.render, ScriptTree.leaves, List.flatMap_append, List.cons_append,
      List.append_assoc]
    rw [longPieces_cons (by decide), longPieces_append_cons (by decide),
      longPieces_append_cons (by decide), longPieces_render l, longPieces_render r, longPieces_nil,
      List.append_nil]

/-- the loop reads the long pieces only -/
theorem taprootKeys_filter_long : ∀ (xs seen : List (List Char)),
    taprootKeys (xs.filter fun p => 20 ≤ (String.mk p).utf8ByteSize) seen = taprootKeys xs seen
  | [], _ => rfl
  | p :: xs, seen => by
    by_cases hp : 20 ≤ (String.mk p).utf8ByteSize
    · rw [List.filter_cons_of_pos (by simpa using hp), taprootKeys, taprootKeys]
      split
      · exact taprootKeys_filter_long xs seen
      · rw [taprootKeys_filter_long xs]
    · rw [List.filter_cons_of_neg (by simpa using hp), taprootKeys_filter_long xs seen,
        taprootKeys, if_pos (.inl (by omega))]

/-- the taproot loop over pieces whose keys all parse: their signers appended in order -/
theorem parseTaprootSigners_run (lib : KeyLib) :
    ∀ (parts seen : List (List Char)) {parsed : List SingleSigner},
      List.Forall₂ (fun k s => parseSignerString lib k = .ok s) (taprootKeys parts seen)
        parsed →
      ∀ o : DescriptorOut, (parseTaprootSigners lib parts seen).run o =
        (.ok (), { o with signers := o.signers ++ parsed })
  | [], _, _, h, o => by
    cases h
    simp only [parseTaprootSigners, List.append_nil]
    rfl
  | p :: ps, seen, parsed, h, o => by
    rw [taprootKeys] at h
    by_cases hc : (String.mk p).utf8ByteSize < 20 ∨ p ∈ seen
    · rw [if_pos hc] at h
      simp only [parseTaprootSigners, if_pos hc]
      exact parseTaprootSigners_run lib ps seen h o
    · rw [if_neg hc] at h
      obtain ⟨s, ss, hs, hrest, rfl⟩ := List.forall₂_cons_left_iff.mp h
      have hstep : (parseTaprootSigners lib (p :: ps) seen).run o =
          (parseTaprootSigners lib ps (seen ++ [p])).run
            { o with signers := o.signers ++ [s] } := by
        simp only [parseTaprootSigners, if_neg hc, liftParse, hs]
        rfl
      rw [hstep, parseTaprootSigners_run lib ps _ hrest]
      simp

/-! ## lengths in bytes -/

theorem length_le_utf8Len : ∀ l : List Char, l.length ≤ String.utf8Len l
  | [] => le_refl 0
  | c :: l => by
    have := length_le_utf8Len l
    have := c.utf8Size_pos
    rw [String.utf8Len_cons, List.length_cons]
    omega

theorem utf8Size_of_isDigit {c : Char} (h : c.isDigit = true) : c.utf8Size = 1 := by
  simp only [Char.isDigit, Bool.and_eq_true, decide_eq_true_eq] at h
  unfold Char.utf8Size
  exact if_pos (UInt32.le_trans h.2 (by decide))

theorem utf8Len_of_isDigit : ∀ {l : List Char}, (∀ c ∈ l, c.isDigit = true) →
    String.utf8Len l = l.length
  | [], _ => rfl
  | c :: l, h => by
    rw [String.utf8Len_cons, utf8Len_of_isDigit fun x hx => h x (List.mem_cons_of_mem c hx),
      utf8Size_of_isDigit (h c (List.mem_cons_self _ _)), List.length_cons]

theorem length_toDigitsCore_le : ∀ (fuel n e : Nat) (ds : List Char), n < 10 ^ (e + 1) →
    (Nat.toDigitsCore 10 fuel n ds).length ≤ ds.length + e + 1
  | 0, _, _, ds, _ => by show ds.length ≤ _; omega
  | fuel + 1, n, e, ds, h => by
    dsimp only [Nat.toDigitsCore]
    split
    · simp
    · next h0 =>
      cases e with
      | zero => exact absurd (Nat.div_eq_of_lt (by simpa using h)) h0
      | succ e =>
        have := length_toDigitsCore_le fuel (n / 10) e (Nat.digitChar (n % 10) :: ds)
          (Nat.div_lt_of_lt_mul (by rw [Nat.pow_succ, Nat.mul_comm] at h; exact h))
        simp only [List.length_cons] at this
        omega

/-- the threshold `<<` writes for an `int` of a taproot wallet: fewer than 20 bytes -/
theorem utf8ByteSize_toString_lt {m : Nat} (hm : m ≤ 2147483647) :
    (String.mk (toString (m : Int)).data).utf8ByteSize < 20 := by
  show String.utf8Len (Nat.toDigits 10 m) < 20
  rw [utf8Len_of_isDigit (toDigits_spec m).2.1]
  have := length_toDigitsCore_le (m + 1) m 9 [] (by omega)
  simp only [List.length_nil] at this
  exact Nat.lt_of_le_of_lt this (by decide)

/-! ## the taproot branch of `ParseDescriptors` -/

theorem splitAny_intercalate_comma {K : List (List Char)} (hK : K ≠ []) (hc : ∀ k ∈ K, ',' ∉ k) :
    splitAny [','] (List.intercalate [','] K) = K := by
  obtain ⟨k, ks, rfl⟩ := List.exists_cons_of_ne_nil hK
  rw [intercalate_comma_cons]
  exact splitAny_commaKeys (hc k (List.mem_cons_self _ _)) fun q hq =>
    hc q (List.mem_cons_of_mem _ hq)

theorem not_mem_intercalate_comma {c : Char} (hc : c ≠ ',') :
    ∀ {K : List (List Char)}, (∀ k ∈ K, c ∉ k) → c ∉ List.intercalate [','] K
  | [], _ => List.not_mem_nil c
  | k :: ks, h => by
    rw [intercalate_comma_cons]
    simp only [List.mem_append, not_or]
    exact ⟨h k (List.mem_cons_self _ _), fun hm => by
      rcases mem_commaKeys hm with rfl | ⟨q, hq, hcq⟩
      · exact hc rfl
      · exact h q (List.mem_cons_of_mem _ hq) hcq⟩

/-- `ParseDescriptors` on a descriptor `tr(musig(K0)…)` with no line break, whose first `musig`
holds keys without `,` or `)`, and whose part after its last `)` has fewer than 20 bytes: `true`,
TAPROOT MULTI_SIG, as many required signatures as `K0` has keys, the signers of the keys the loop
reads, and their count with the signers the output held before -/
theorem parseDescriptors_taproot {lib : KeyLib} {K0 : List (List Char)} (hK0 : K0 ≠ [])
    (hK0c : ∀ k ∈ K0, ',' ∉ k ∧ ')' ∉ k) {rest : List Char}
    (hnl : '\n' ∉ "tr(musig(".data ++ List.intercalate [','] K0 ++ ')' :: rest)
    {tail : List Char} (htail : (String.mk tail).utf8ByteSize < 20) {parsed : List SingleSigner}
    (hparse : List.Forall₂ (fun k s => parseSignerString lib k = .ok s)
      (taprootKeys (longPieces ("tr(musig(".data ++ List.intercalate [','] K0 ++ ')' :: rest)) [])
      parsed)
    (out : DescriptorOut) :
    parseDescriptors lib
        (String.mk ("tr(musig(".data ++ List.intercalate [','] K0 ++ ')' :: rest ++ ')' :: tail))
        out =
      (true, ⟨.taproot, .multiSig, K0.length, ((out.signers.length + parsed.length : Nat) : Int),
        out.signers ++ parsed⟩) := by
  have hI := not_mem_intercalate_comma (by decide) fun k hk => (hK0c k hk).2
  have het : (String.mk (externalPart tail)).utf8ByteSize < 20 := by
    have hp : externalPart tail <+: tail := List.takeWhile_prefix _
    rw [String.utf8ByteSize_mk] at htail ⊢
    exact (String.utf8Len_le_of_prefix hp).trans_lt htail
  have hext := externalPart_append_paren hnl tail
  have hshape : "tr(musig(".data ++ List.intercalate [','] K0 ++ ')' :: rest ++ ')' :: externalPart tail =
      "tr(musig(".data ++ List.intercalate [','] K0 ++ ')' :: (rest ++ ')' :: externalPart tail) := by
    simp only [List.append_assoc, List.cons_append]
  have hinfo : signerInfo ("tr(musig(".data ++ List.intercalate [','] K0 ++ ')' :: rest ++
      ')' :: externalPart tail) "tr(musig(".length = List.intercalate [','] K0 := by
    rw [hshape]
    exact signerInfo_key (by decide) hI _
  have hloop : taprootKeys (splitAny [',', '{', '}', '(', ')'] ("tr(musig(".data ++
      List.intercalate [','] K0 ++ ')' :: rest ++ ')' :: externalPart tail)) [] =
      taprootKeys (longPieces ("tr(musig(".data ++ List.intercalate [','] K0 ++ ')' :: rest)) [] := by
    rw [← taprootKeys_filter_long, ← longPieces, longPieces_append_cons (by decide),
      longPieces_of_short het, List.append_nil]
  have hf : prefixMatcher.find? (fun p => p.1.data.isPrefixOf ("tr(musig(".data ++
      List.intercalate [','] K0 ++ ')' :: rest ++ ')' :: externalPart tail)) =
      some ("tr(musig(", .taproot, .multiSig) :=
    find?_prefixMatcher (by decide) ⟨_, by rw [hshape, List.append_assoc]⟩
  unfold parseDescriptors parseBody
  rw [hext, hf]
  dsimp only
  rw [if_neg (by decide), if_pos rfl, hinfo,
    splitAny_intercalate_comma hK0 fun k hk => (hK0c k hk).1,
    run_bind_ok (run_modify _ _), run_bind_ok (run_modify _ _),
    run_bind_ok (parseTaprootSigners_run lib _ [] (hloop ▸ hparse) _), run_bind_ok (run_modify _ _)]
  simp only [List.length_append]
  rfl

/-! ## the descriptor of a taproot multisig wallet -/

/-- the taproot multisig template over the keys, then `#` and the checksum unless the key path is
`TEMPLATE` -/
theorem getDescriptorForSigners_taproot {lib : KeyLib} {signers : List SingleSigner} {m : Int}
    {keyPath : DescriptorPath} {index : Int} {sorted : Bool} {keys : List (List Char)}
    (hkeys : signers.mapM (signerKey lib .multiSig keyPath index) = .ok keys) :
    getDescriptorForSigners lib signers m keyPath .taproot .multiSig index sorted =
      .ok ((if keys.length ≤ 5 ∨ (keys.length : Int) = m then getMusigDescriptor keys m
        else some (multiATaprootDescriptor keys m sorted)).map fun d =>
          String.mk (d ++ if keyPath = .template then [] else '#' :: lib.checksum d)) := by
  simp only [getDescriptorForSigners, hkeys]
  split <;> simp

theorem range_map_getD (keys : List (List Char)) {m : Nat} (hm : m ≤ keys.length) :
    (List.range m).map (fun i => keys.getD i []) = keys.take m := by
  refine List.ext_getElem (by simp; omega) fun i h1 h2 => ?_
  simp only [List.length_map, List.length_range] at h1
  simp [List.getD_eq_getElem?_getD, List.getElem?_eq_getElem (show i < keys.length by omega)]

/-- a character of a rendered tree is `{`, `,`, `}` or one of a leaf -/
theorem mem_render {c : Char} : ∀ {T : ScriptTree}, c ∈ T.render →
    c = '{' ∨ c = ',' ∨ c = '}' ∨ ∃ l ∈ T.leaves, c ∈ l
  | .leaf s, h => .inr (.inr (.inr ⟨s, List.mem_singleton_self _, h⟩))
  | .node l r, h => by
    simp only [ScriptTree.render, List.cons_append, List.mem_cons, List.mem_append,
      List.mem_singleton] at h
    simp only [ScriptTree.leaves, List.mem_append]
    rcases h with h | (h | h | h) | h
    · exact .inl h
    · rcases mem_render h with h | h | h | ⟨x, hx, hcx⟩
      exacts [.inl h, .inr (.inl h), .inr (.inr (.inl h)), .inr (.inr (.inr ⟨x, .inl hx, hcx⟩))]
    · exact .inr (.inl h)
    · rcases mem_render h with h | h | h | ⟨x, hx, hcx⟩
      exacts [.inl h, .inr (.inl h), .inr (.inr (.inl h)), .inr (.inr (.inr ⟨x, .inr hx, hcx⟩))]
    · exact .inr (.inr (.inl (h.resolve_right (List.not_mem_nil c))))

/-- a key list read by the loop in order: each long, none seen, no two equal -/
theorem taprootKeys_of_nodup : ∀ {xs seen : List (List Char)}, xs.Nodup →
    (∀ p ∈ xs, 20 ≤ (String.mk p).utf8ByteSize ∧ p ∉ seen) → taprootKeys xs seen = xs
  | [], _, _, _ => rfl
  | p :: xs, seen, hnd, h => by
    obtain ⟨hp, hxs⟩ := List.nodup_cons.mp hnd
    have hpl := h p (List.mem_cons_self _ _)
    rw [taprootKeys, if_neg (by simp only [not_or, not_lt]; exact hpl),
      taprootKeys_of_nodup hxs fun q hq => ⟨(h q (List.mem_cons_of_mem _ hq)).1, by
        simp only [List.mem_append, List.mem_singleton, not_or]
        exact ⟨(h q (List.mem_cons_of_mem _ hq)).2, fun he => hp (he ▸ hq)⟩⟩]

theorem longPieces_musig (I r : List Char) :
    longPieces ("tr(musig(".data ++ I ++ ')' :: r) = longPieces I ++ longPieces r := by
  rw [show "tr(musig(".data ++ I ++ ')' :: r = "tr(musig".data ++ '(' :: (I ++ ')' :: r) by
    simp only [List.append_assoc]; rfl, longPieces_short_append_cons (by decide) (by decide),
    longPieces_append_cons (by decide)]

theorem longPieces_pk_musig {S : List (List Char)}
    (hS : ∀ k ∈ S, (∀ c ∈ k, c ∉ [',', '{', '}', '(', ')']) ∧ 20 ≤ (String.mk k).utf8ByteSize) :
    longPieces ("pk(".data ++ musigOf S ++ [')']) = S := by
  rw [show "pk(".data ++ musigOf S ++ [')'] = "pk(musig".data ++ '(' :: (List.intercalate [','] S ++
    ')' :: ')' :: []) by simp only [musigOf, List.append_assoc]; rfl,
    longPieces_short_append_cons (by decide) (by decide), longPieces_append_cons (by decide),
    longPieces_cons (by decide), longPieces_intercalate hS, longPieces_nil, List.append_nil]

/-- For a taproot multisig wallet over `n` distinct keys without separators or line breaks, each
of at least 20 bytes, and `1 ≤ m ≤ n`: whichever template `GetDescriptorForSigners` picks, and
whatever text of fewer than 20 bytes follows it, `ParseDescriptors` reads back TAPROOT MULTI_SIG,
the threshold `m` and the signers of the keys, in key order. -/
theorem parseDescriptors_taproot_keys {lib : KeyLib} {keys : List (List Char)} (hnd : keys.Nodup)
    (hkc : ∀ k ∈ keys, (∀ c ∈ k, c ∉ [',', '{', '}', '(', ')']) ∧ '\n' ∉ k ∧
      20 ≤ (String.mk k).utf8ByteSize)
    {m : Nat} (hm : 1 ≤ m ∧ m ≤ keys.length ∧ m ≤ 2147483647) (sorted : Bool)
    (tail : List Char → List Char) (htail : ∀ d, (String.mk (tail d)).utf8ByteSize < 20)
    {parsed : List SingleSigner}
    (hparse : List.Forall₂ (fun k s => parseSignerString lib k = .ok s) keys parsed)
    (out : DescriptorOut) :
    ∃ d, (if keys.length ≤ 5 ∨ (keys.length : Int) = m then getMusigDescriptor keys m
        else some (multiATaprootDescriptor keys m sorted)) = some d ∧
      parseDescriptors lib (String.mk (d ++ tail d)) out = (true, ⟨.taproot, .multiSig, m,
        ((out.signers.length + keys.length : Nat) : Int), out.signers ++ parsed⟩) := by
  have hsep : ∀ k ∈ keys, (∀ c ∈ k, c ∉ [',', '{', '}', '(', ')']) ∧
      20 ≤ (String.mk k).utf8ByteSize := fun k hk => ⟨(hkc k hk).1, (hkc k hk).2.2⟩
  have hsub : ∀ {S : List (List Char)}, S.Sublist keys → ∀ k ∈ S,
      (∀ c ∈ k, c ∉ [',', '{', '}', '(', ')']) ∧ 20 ≤ (String.mk k).utf8ByteSize :=
    fun hS k hk => hsep k (hS.subset hk)
  have hK0 : keys.take m ≠ [] := List.ne_nil_of_length_pos (by rw [List.length_take]; omega)
  have hK0c : ∀ k ∈ keys.take m, ',' ∉ k ∧ ')' ∉ k := fun k hk =>
    ⟨fun h => (hkc k (List.mem_of_mem_take hk)).1 ',' h (by decide),
      fun h => (hkc k (List.mem_of_mem_take hk)).1 ')' h (by decide)⟩
  have hlen : ((keys.take m).length : Int) = m := by rw [List.length_take, min_eq_left hm.2.1]
  have hnlI : ∀ {S : List (List Char)}, S.Sublist keys → '\n' ∉ List.intercalate [','] S :=
    fun hS => not_mem_intercalate_comma (by decide) fun k hk => (hkc k (hS.subset hk)).2.1
  have hlength := hparse.length_eq
  split_ifs with hcase
  · rw [getMusigDescriptor_eq hm.2.1]
    split_ifs with hmn
    · -- all the keys under one `musig`
      refine ⟨_, rfl, ?_⟩
      have hmn' : m = keys.length := by exact_mod_cast hmn.symm
      have hshape : "tr(".data ++ musigOf (keys.take m) ++ [')'] ++
          tail ("tr(".data ++ musigOf (keys.take m) ++ [')']) = "tr(musig(".data ++
          List.intercalate [','] (keys.take m) ++ ')' :: [] ++ ')' ::
            tail ("tr(".data ++ musigOf (keys.take m) ++ [')']) := by
        simp only [musigOf, List.append_assoc]
        rfl
      rw [hshape, parseDescriptors_taproot hK0 hK0c ?_ (htail _) ?_ out, hlen, hlength]
      · simp only [List.mem_append, List.mem_cons, List.not_mem_nil, or_false, not_or]
        exact ⟨⟨by decide, hnlI (List.take_sublist _ _)⟩, by decide⟩
      · rw [longPieces_musig, longPieces_intercalate (hsub (List.take_sublist _ _)), longPieces_nil,
          List.append_nil, hmn', List.take_length, taprootKeys_of_nodup hnd fun k hk =>
            ⟨(hsep k hk).2, List.not_mem_nil k⟩]
        exact hparse
    · -- fewer than all: the first `m` keys, then a leaf for each other choice of `m` keys
      have hlt : m < keys.length := lt_of_le_of_ne hm.2.1 fun h => hmn (by rw [h])
      have hne : otherChoices keys m ≠ [] := fun h => by
        have := two_le_choose hm.1 hlt
        have := length_otherChoices hnd hm.2.1
        rw [h, List.length_nil] at this
        omega
      obtain ⟨T, hT, hl, -⟩ := getScriptpathDescriptor_trees
        (((otherChoices keys m).map fun S => "pk(".data ++ musigOf S ++ [')']).map .leaf)
        (by simpa using hne) 0 (by simp [ScriptTree.depth]) (by simp [ScriptTree.depth])
      rw [ScriptTree.map_render_map_leaf] at hT
      rw [ScriptTree.flatMap_leaves_map_leaf] at hl
      rw [hT]
      refine ⟨_, rfl, ?_⟩
      have hshape : "tr(".data ++ musigOf (keys.take m) ++ [','] ++ T.render ++ [')'] ++
          tail ("tr(".data ++ musigOf (keys.take m) ++ [','] ++ T.render ++ [')']) =
          "tr(musig(".data ++ List.intercalate [','] (keys.take m) ++ ')' :: (',' :: T.render) ++
            ')' :: tail ("tr(".data ++ musigOf (keys.take m) ++ [','] ++ T.render ++ [')']) := by
        simp only [musigOf, List.append_assoc]
        rfl
      have hleaves : ((otherChoices keys m).map fun S => "pk(".data ++ musigOf S ++ [')']).flatMap
          longPieces = (prevPermutations (firstChoice keys.length m)).flatMap (selectKeys keys) := by
        rw [otherChoices, List.map_map, List.flatMap_map]
        exact List.flatMap_congr fun u _ => longPieces_pk_musig (hsub (selectKeys_sublist keys u))
      rw [hshape, parseDescriptors_taproot hK0 hK0c ?_ (htail _) ?_ out, hlen, hlength]
      · simp only [List.mem_append, List.mem_cons, not_or]
        refine ⟨⟨by decide, hnlI (List.take_sublist _ _)⟩, by decide, by decide, fun h => ?_⟩
        rcases mem_render h with h | h | h | ⟨l, hlm, hc⟩
        · exact absurd h (by decide)
        · exact absurd h (by decide)
        · exact absurd h (by decide)
        · rw [hl, List.mem_map] at hlm
          obtain ⟨S, hS, rfl⟩ := hlm
          have hI := hnlI ((mem_otherChoices hnd hm.2.1).mp hS).1
          simp only [musigOf, List.mem_append] at hc
          rcases hc with (hc | (hc | hc) | hc) | hc <;>
            first | exact hI hc | exact absurd hc (by decide)
      · rw [longPieces_musig, longPieces_intercalate (hsub (List.take_sublist _ _)),
          longPieces_cons (by decide), longPieces_render, hl, hleaves, ← selectKeys_take,
          ← List.flatMap_cons, ← firstChoice, firstChoice_prevPermutations hm.2.1,
          taprootKeys_allChoices keys hnd (fun k hk => (hsep k hk).2) hm.1 hm.2.1]
        exact hparse
  · -- more than five keys and fewer than all: `musig` of the first `m`, `(sorted)multi_a` of all
    refine ⟨_, rfl, ?_⟩
    have hne : keys ≠ [] := fun h => hK0 (by rw [h, List.take_nil])
    obtain ⟨k, ks, hkeys⟩ := List.exists_cons_of_ne_nil hne
    have hcomma : commaKeys keys = ',' :: List.intercalate [','] keys := by
      rw [hkeys, intercalate_comma_cons, commaKeys, List.flatMap_cons, ← commaKeys]
      rfl
    have hw : ∀ X, longPieces ((if sorted then "sortedmulti_a(".data else "multi_a(".data) ++ X) =
        longPieces X := by
      intro X
      cases sorted
      · rw [if_neg (by decide), show "multi_a(".data ++ X = "multi_a".data ++ '(' :: X from rfl,
          longPieces_short_append_cons (by decide) (by decide)]
      · rw [if_pos rfl, show "sortedmulti_a(".data ++ X = "sortedmulti_a".data ++ '(' :: X from rfl,
          longPieces_short_append_cons (by decide) (by decide)]
    rw [multiATaprootDescriptor, Int.toNat_ofNat, range_map_getD keys hm.2.1]
    have hshape : ∀ t, "tr(musig(".data ++ List.intercalate [','] (keys.take m) ++ "),".data ++
        (if sorted then "sortedmulti_a(".data else "multi_a(".data) ++ (toString (m : Int)).data ++
          commaKeys keys ++ "))".data ++ t = "tr(musig(".data ++ List.intercalate [','] (keys.take m) ++
        ')' :: (',' :: ((if sorted then "sortedmulti_a(".data else "multi_a(".data) ++
          (toString (m : Int)).data ++ commaKeys keys ++ [')'])) ++ ')' :: t := fun t => by
      simp only [List.append_assoc, List.cons_append]
      rfl
    rw [hshape, parseDescriptors_taproot hK0 hK0c ?_ (htail _) ?_ out, hlen, hlength]
    · simp only [List.mem_append, List.mem_cons, not_or]
      refine ⟨⟨by decide, hnlI (List.take_sublist _ _)⟩, by decide, by decide, ⟨⟨⟨by split <;> decide,
        fun h => (mem_toString_int h).2.2 rfl⟩, fun h => ?_⟩, by decide⟩⟩
      rcases mem_commaKeys h with h | ⟨q, hq, hc⟩
      · exact absurd h (by decide)
      · exact (hkc q hq).2.1 hc
    · rw [longPieces_musig, longPieces_intercalate (hsub (List.take_sublist _ _)),
        longPieces_cons (by decide)]
      simp only [List.append_assoc]
      rw [hw, hcomma, List.cons_append,
        longPieces_short_append_cons (by decide) (utf8ByteSize_toString_lt hm.2.2),
        longPieces_append_cons (by decide), longPieces_intercalate hsep, longPieces_nil,
        List.append_nil, taprootKeys_append, taprootKeys_of_nodup
          (hnd.sublist (List.take_sublist _ _)) fun q hq =>
            ⟨(hsep q (List.mem_of_mem_take hq)).2, List.not_mem_nil q⟩, List.nil_append]
      have hnd' : (keys.take m ++ keys.drop m).Nodup := by rw [List.take_append_drop]; exact hnd
      obtain ⟨-, hndB, hdisj⟩ := List.nodup_append.mp hnd'
      have hdrop := taprootKeys_append (keys.drop m) (keys.take m) (keys.take m)
      rw [List.take_append_drop, taprootKeys_eq_nil fun q hq => hq, List.append_nil,
        List.nil_append,
        taprootKeys_of_nodup hndB fun q hq =>
          ⟨(hsep q (List.mem_of_mem_drop hq)).2, fun h => hdisj h hq⟩] at hdrop
      rw [hdrop, List.take_append_drop]
      exact hparse

/-! ## taproot multisig wallets -/

/-- the signers of a taproot multisig wallet whose keys `ParseDescriptors` reads back: those of a
multisig wallet, with none of `(`, `{` and `}` in the path or the xpub, and an xpub of 20
characters or more, as every xpub has -/
structure TaprootSigner (lib : KeyLib) (s : SingleSigner) extends MultiSigner lib s : Prop where
  braces : ∀ c ∈ s.derivationPath.data ++ s.xpub.data, c ∉ ['(', '{', '}']
  long : 20 ≤ s.xpub.length

/-- a key `[fingerprint/path]g3` and a key path holds none of `(`, `{` and `}` when none of its
parts does -/
theorem brace_free_key {xfp path g3 kp : List Char} (hx : xfp.all isHexChar = true)
    (hpg : ∀ c ∈ path ++ g3, c ∉ ['(', '{', '}']) (hkp : ∀ c ∈ kp, c ∉ ['(', '{', '}']) :
    ∀ c ∈ '[' :: xfp ++ formalizePath path ++ ']' :: g3 ++ kp, c ∉ ['(', '{', '}'] := by
  have hxc c (hc : c ∈ xfp) : c ∉ ['(', '{', '}'] := by
    have hh := List.all_eq_true.mp hx _ hc
    simp only [List.mem_cons, List.not_mem_nil, or_false]
    rintro (rfl | rfl | rfl) <;> exact absurd hh (by decide)
  have hfc c (hc : c ∈ formalizePath path) : c ∉ ['(', '{', '}'] := by
    rcases mem_formalizePath hc with rfl | rfl | hc
    exacts [by decide, by decide, hpg c (List.mem_append_left _ hc)]
  simp only [List.cons_append, List.forall_mem_cons, List.forall_mem_append]
  exact ⟨by decide, ⟨⟨hxc, hfc⟩, by decide, fun c hc => hpg c (List.mem_append_right _ hc)⟩, hkp⟩

/-- the key of such a signer, on a key path ending in a wildcard: it holds none of `,{}()` and no
line break, and it is one of the pieces of 20 bytes or more that the taproot loop reads -/
theorem TaprootSigner.key {lib : KeyLib} {s : SingleSigner} (hs : TaprootSigner lib s)
    {keyPath : DescriptorPath}
    (hk : keyPath = .any ∨ keyPath = .internalAll ∨ keyPath = .externalAll ∨
      keyPath = .template) (index : Int) :
    (∀ c ∈ '[' :: s.masterFingerprint.data ++ formalizePath s.derivationPath.data ++
      ']' :: s.xpub.data ++ getKeyPath keyPath index, c ∉ [',', '{', '}', '(', ')']) ∧
    '\n' ∉ '[' :: s.masterFingerprint.data ++ formalizePath s.derivationPath.data ++
      ']' :: s.xpub.data ++ getKeyPath keyPath index ∧
    20 ≤ (String.mk ('[' :: s.masterFingerprint.data ++ formalizePath s.derivationPath.data ++
      ']' :: s.xpub.data ++ getKeyPath keyPath index)).utf8ByteSize := by
  obtain ⟨p, hp⟩ := hs.view
  have hmk := (hs.toMultiSigner.key hp hk index).1
  have hkp : ∀ c ∈ getKeyPath keyPath index, c ∉ ['(', '{', '}'] := by
    rcases hk with rfl | rfl | rfl | rfl <;> dsimp only [getKeyPath] <;> decide
  have hbr := brace_free_key hs.fingerprint.2 hs.braces hkp
  refine ⟨fun c hc h => ?_, fun h => (hmk _ h).2.2 rfl, ?_⟩
  · simp only [List.mem_cons, List.not_mem_nil, or_false] at h
    rcases h with rfl | rfl | rfl | rfl | rfl
    exacts [(hmk _ hc).1 rfl, hbr _ hc (by decide), hbr _ hc (by decide), hbr _ hc (by decide),
      (hmk _ hc).2.1 rfl]
  · have hl : 20 ≤ s.xpub.data.length := hs.long
    rw [String.utf8ByteSize_mk]
    refine le_trans ?_ (length_le_utf8Len _)
    simp only [List.cons_append, List.length_cons, List.length_append]
    omega

/-- A taproot multisig descriptor, written on any key path that ends in a wildcard, is read back:
for signers with distinct xpubs whose keys hold none of `,{}()`, any threshold `m` from one to
the number of signers, sorted or not, and a checksum of fewer than 19 bytes, `GetDescriptorForSigners`
writes a descriptor (all keys under one `musig`, a tree of `pk(musig(…))` leaves, or `multi_a`),
and `ParseDescriptors` reads it as TAPROOT MULTI_SIG with the threshold `m`, the signers in their
order with their fingerprint, xpub and normalized path, and as their count the signers the output
held before and these. -/
theorem taproot_multi_sig_read_back (lib : KeyLib)
    (hcs : ∀ t, (String.mk (lib.checksum t)).utf8ByteSize < 19) (signers : List SingleSigner)
    {m : Nat} (hm : 1 ≤ m ∧ m ≤ signers.length ∧ m ≤ 2147483647) {keyPath : DescriptorPath}
    (hk : keyPath = .any ∨ keyPath = .internalAll ∨ keyPath = .externalAll ∨
      keyPath = .template)
    (index : Int) (sorted : Bool) (out : DescriptorOut)
    (hs : ∀ s ∈ signers, TaprootSigner lib s) (hx : (signers.map (·.xpub)).Nodup) :
    ∃ d parsed,
      getDescriptorForSigners lib signers m keyPath .taproot .multiSig index sorted = .ok (some d) ∧
      List.Forall₂ (fun s s' => ∃ p,
        getDerivationPathView lib ('m' :: formalizePath s.derivationPath.data) = .ok p ∧
        s' = ⟨s.masterFingerprint, s.xpub, "", String.mk p,
          String.mk (s.masterFingerprint.data.map Char.toLower)⟩) signers parsed ∧
      parseDescriptors lib d out = (true, ⟨.taproot, .multiSig, m,
        ((out.signers.length + signers.length : Nat) : Int), out.signers ++ parsed⟩) := by
  have hk' : keyPath ≠ .externalPubkey ∧ keyPath ≠ .internalPubkey := by
    rcases hk with rfl | rfl | rfl | rfl <;> decide
  have hkeys := mapM_eq_ok (signerKey_xpub lib (by decide : WalletType.multiSig ≠ .escrow) hk' index)
    signers
  -- each signer with the path it is read back with, and the parse of its key
  obtain ⟨parsed, hR⟩ : ∃ parsed, List.Forall₂ (fun s s' => (∃ p,
      getDerivationPathView lib ('m' :: formalizePath s.derivationPath.data) = .ok p ∧
      s' = ⟨s.masterFingerprint, s.xpub, "", String.mk p,
        String.mk (s.masterFingerprint.data.map Char.toLower)⟩) ∧
      parseSignerString lib ('[' :: s.masterFingerprint.data ++ formalizePath s.derivationPath.data ++
        ']' :: s.xpub.data ++ getKeyPath keyPath index) = .ok s') signers parsed :=
    forall₂_of_forall_exists fun s hsm => by
      obtain ⟨p, hp⟩ := (hs s hsm).view
      exact ⟨_, ⟨p, hp, rfl⟩, ((hs s hsm).toMultiSigner.key hp hk index).2⟩
  -- distinct xpubs give distinct keys, since `ParseSignerString` reads the xpub back
  have hnd : (signers.map fun s => '[' :: s.masterFingerprint.data ++
      formalizePath s.derivationPath.data ++ ']' :: s.xpub.data ++ getKeyPath keyPath index).Nodup := by
    refine List.Nodup.of_map (fun k => match parseSignerString lib k with
      | .ok s => s.xpub
      | .error _ => "") ?_
    rw [List.map_map]
    refine (List.map_congr_left fun s hsm => ?_).symm ▸ hx
    obtain ⟨p, hp⟩ := (hs s hsm).view
    simp only [Function.comp, ((hs s hsm).toMultiSigner.key hp hk index).2]
  have htail : ∀ d, (String.mk (if keyPath = .template then [] else '#' :: lib.checksum d)).utf8ByteSize
      < 20 := fun d => by
    split
    · decide
    · have := hcs d
      simp only [String.utf8ByteSize_mk, String.utf8Len_cons] at this ⊢
      have : ('#').utf8Size = 1 := rfl
      omega
  obtain ⟨d, hd, hp⟩ := parseDescriptors_taproot_keys hnd
    (List.forall_mem_map.mpr fun s hsm => (hs s hsm).key hk index)
    ⟨hm.1, by rw [List.length_map]; exact hm.2.1, hm.2.2⟩ sorted _ htail
    (List.forall₂_map_left_iff.mpr (hR.imp fun _ _ h => h.2)) out
  refine ⟨_, parsed, ?_, hR.imp fun _ _ h => h.1, by rwa [List.length_map] at hp⟩
  rw [getDescriptorForSigners_taproot hkeys, hd]
  rfl

/-- three cosigners of a 2-of-3 taproot wallet -/
def taprootCosigners : List SingleSigner :=
  [⟨"", "xpub6ABCDEFGHJKLMNPQRSTU", "", "m/87h/0h/0h", "73c5da0a"⟩,
   ⟨"", "xpub6BCDEFGHJKLMNPQRSTUV", "", "m/87h/0h/0h", "f57ec65d"⟩,
   ⟨"", "tpubD6CDEFGHJKLMNPQRSTUV", "", "m/87h/1h/0h", "0b93c52e"⟩]

theorem taproot_multi_sig_read_back_two_of_three :
    (∀ t, (String.mk (zeroChecksumLib.checksum t)).utf8ByteSize < 19) ∧
    (1 ≤ 2 ∧ 2 ≤ taprootCosigners.length ∧ 2 ≤ 2147483647) ∧
    (DescriptorPath.externalAll = .any ∨ DescriptorPath.externalAll = .internalAll ∨
      DescriptorPath.externalAll = .externalAll ∨ DescriptorPath.externalAll = .template) ∧
    (∀ s ∈ taprootCosigners, TaprootSigner zeroChecksumLib s) ∧
    (taprootCosigners.map (·.xpub)).Nodup ∧
    ∃ d, getDescriptorForSigners zeroChecksumLib taprootCosigners 2 .externalAll .taproot .multiSig 0
        false = .ok (some d) ∧
      parseDescriptors zeroChecksumLib d ⟨.legacy, .multiSig, 0, 0, []⟩ =
        (true, ⟨.taproot, .multiSig, 2, 3,
          [⟨"73c5da0a", "xpub6ABCDEFGHJKLMNPQRSTU", "", "m/87h/0h/0h", "73c5da0a"⟩,
           ⟨"f57ec65d", "xpub6BCDEFGHJKLMNPQRSTUV", "", "m/87h/0h/0h", "f57ec65d"⟩,
           ⟨"0b93c52e", "tpubD6CDEFGHJKLMNPQRSTUV", "", "m/87h/1h/0h", "0b93c52e"⟩]⟩) := by
  have hcs : ∀ t, (String.mk (zeroChecksumLib.checksum t)).utf8ByteSize < 19 :=
    fun _ => (by decide : (String.mk "00000000".data).utf8ByteSize < 19)
  have hs : ∀ s ∈ taprootCosigners, TaprootSigner zeroChecksumLib s := by
    simp only [taprootCosigners, List.mem_cons, List.mem_singleton, List.not_mem_nil, or_false]
    rintro s (rfl | rfl | rfl) <;>
      exact ⟨⟨⟨by decide, by decide, _, rfl⟩, by decide⟩, by decide, by decide⟩
  have hx : (taprootCosigners.map (·.xpub)).Nodup := by decide
  refine ⟨hcs, by decide, .inr (.inr (.inl rfl)), hs, hx, ?_⟩
  obtain ⟨d, parsed, hd, hR, hp⟩ := @taproot_multi_sig_read_back zeroChecksumLib hcs taprootCosigners 2
    (by decide) .externalAll (.inr (.inr (.inl rfl))) 0 false ⟨.legacy, .multiSig, 0, 0, []⟩ hs hx
  simp only [taprootCosigners, List.forall₂_cons_left_iff, List.forall₂_nil_left_iff] at hR
  obtain ⟨_, _, ⟨p1, hp1, rfl⟩, ⟨_, _, ⟨p2, hp2, rfl⟩, ⟨_, _, ⟨p3, hp3, rfl⟩, rfl, rfl⟩, rfl⟩,
    rfl⟩ := hR
  obtain rfl := (Except.ok.inj hp1).symm
  obtain rfl := (Except.ok.inj hp2).symm
  obtain rfl := (Except.ok.inj hp3).symm
  exact ⟨d, hd, hp⟩

end Nunchuk
