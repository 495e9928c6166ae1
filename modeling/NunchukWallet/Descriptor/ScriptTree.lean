import Mathlib.Data.Nat.Log
import NunchukWallet.Descriptor.Generate

/-!
# The script tree of `GetScriptpathDescriptor`

`GetScriptpathDescriptor` pairs its nodes left to right into `{a,b}` and carries an odd last node
up, level by level, until one is left. Read as trees, a level is `pairTrees`, and the text it
writes is the rendering of a full binary tree.

* `ScriptTree`, `render`, `leaves`, `depth`   a taproot script tree and how a descriptor writes it;
* `pairTrees`, `pairNodes_map_render`   one level of pairing on trees writes what `pairNodes`
                              writes on their texts;
* `getScriptpathDescriptor_tree`   on `n ≥ 1` leaves the function returns the rendering of a full
                              binary tree with these leaves, left to right, and depth `⌈log₂ n⌉`.
-/

namespace Nunchuk

/-- a taproot script tree: a leaf script, or a node over two subtrees -/
inductive ScriptTree where
  | leaf (s : List Char)
  | node (l r : ScriptTree)
deriving DecidableEq, Repr

namespace ScriptTree

/-- the descriptor text of a tree: a node is written `{left,right}` -/
def render : ScriptTree → List Char
  | leaf s => s
  | node l r => '{' :: l.render ++ ',' :: r.render ++ ['}']

/-- the leaf scripts, left to right -/
def leaves : ScriptTree → List (List Char)
  | leaf s => [s]
  | node l r => l.leaves ++ r.leaves

/-- the length of the longest path from the root to a leaf -/
def depth : ScriptTree → Nat
  | leaf _ => 0
  | node l r => max l.depth r.depth + 1

@[simp] theorem map_render_map_leaf (nodes : List (List Char)) :
    (nodes.map leaf).map render = nodes := by
  simp [Function.comp_def, render]

@[simp] theorem flatMap_leaves_map_leaf (nodes : List (List Char)) :
    (nodes.map leaf).flatMap leaves = nodes := by
  simp [List.flatMap_map, leaves]

end ScriptTree

open ScriptTree

/-- one level of `GetScriptpathDescriptor` on trees: neighbours become a node, an odd last tree is
kept -/
def pairTrees : List ScriptTree → List ScriptTree
  | a :: b :: rest => .node a b :: pairTrees rest
  | l => l

theorem pairNodes_map_render : ∀ ts : List ScriptTree,
    pairNodes (ts.map render) = (pairTrees ts).map render
  | a :: b :: rest => by
    simp only [List.map_cons, pairNodes, pairTrees, render, pairNodes_map_render rest]
  | [] | [_] => rfl

theorem flatMap_leaves_pairTrees : ∀ ts : List ScriptTree,
    (pairTrees ts).flatMap leaves = ts.flatMap leaves
  | a :: b :: rest => by
    simp only [pairTrees, List.flatMap_cons, leaves, flatMap_leaves_pairTrees rest,
      List.append_assoc]
  | [] | [_] => rfl

theorem length_pairTrees : ∀ ts : List ScriptTree, (pairTrees ts).length = (ts.length + 1) / 2
  | a :: b :: rest => by
    simp only [pairTrees, List.length_cons, length_pairTrees rest]
    omega
  | [] | [_] => by simp [pairTrees]

/-- a level raises the depth of every tree by at most one -/
theorem depth_le_of_mem_pairTrees {k : Nat} :
    ∀ {ts : List ScriptTree}, (∀ t ∈ ts, t.depth ≤ k) → ∀ t ∈ pairTrees ts, t.depth ≤ k + 1
  | a :: b :: rest, h, t, ht => by
    rcases List.mem_cons.mp ht with rfl | ht
    · have := h a (by simp)
      have := h b (by simp)
      simp only [depth]
      omega
    · exact depth_le_of_mem_pairTrees (fun t ht => h t (by simp [ht])) t ht
  | [], _, _, ht => nomatch ht
  | [_], h, t, ht => Nat.le_succ_of_le (h t ht)

/-- From a level of trees of depth at most `k`, the first of depth `k`, the function returns the
rendering of one tree over their leaves, of depth `k` plus the number of levels still to pair. -/
theorem getScriptpathDescriptor_trees :
    ∀ (ts : List ScriptTree), ts ≠ [] → ∀ k, (∀ t ∈ ts, t.depth ≤ k) →
      (∀ t ∈ ts.head?, t.depth = k) →
      ∃ T : ScriptTree, getScriptpathDescriptor (ts.map render) = some T.render ∧
        T.leaves = ts.flatMap leaves ∧ T.depth = k + Nat.clog 2 ts.length
  | [t], _, k, _, hhead => ⟨t, getScriptpathDescriptor_singleton _, by simp, by simp [hhead t rfl]⟩
  | a :: b :: rest, _, k, hle, hhead => by
    have hlen := length_pairTrees (a :: b :: rest)
    have hlt : (pairTrees (a :: b :: rest)).length < rest.length + 2 := by
      simp only [List.length_cons] at hlen
      omega
    have hda := hhead a rfl
    obtain ⟨T, hT, hl, hd⟩ := getScriptpathDescriptor_trees (pairTrees (a :: b :: rest))
      (by simp [pairTrees]) (k + 1) (depth_le_of_mem_pairTrees hle) (fun t ht => by
        have := hle b (by simp)
        cases ht
        simp only [depth]
        omega)
    refine ⟨T, ?_, hl.trans (flatMap_leaves_pairTrees _), ?_⟩
    · rw [List.map_cons, List.map_cons, getScriptpathDescriptor_cons_cons, ← List.map_cons,
        ← List.map_cons, pairNodes_map_render]
      exact hT
    · have hclog : Nat.clog 2 (rest.length + 2) = Nat.clog 2 ((rest.length + 2 + 1) / 2) + 1 :=
        Nat.clog_of_two_le (by decide) (by omega)
      rw [hd, hlen, show (a :: b :: rest).length = rest.length + 2 from rfl, hclog]
      omega
  | [], h, _, _, _ => absurd rfl h
termination_by ts => ts.length

/-- On `n ≥ 1` leaves `GetScriptpathDescriptor` returns the rendering of a full binary tree whose
leaves, left to right, are its input, and whose depth is `⌈log₂ n⌉`. -/
theorem getScriptpathDescriptor_tree {nodes : List (List Char)} (h : nodes ≠ []) :
    ∃ T : ScriptTree, getScriptpathDescriptor nodes = some T.render ∧ T.leaves = nodes ∧
      T.depth = Nat.clog 2 nodes.length := by
  obtain ⟨T, hT, hl, hd⟩ := getScriptpathDescriptor_trees (nodes.map leaf) (by simpa using h) 0
    (by simp [depth]) (by simp [depth])
  rw [map_render_map_leaf] at hT
  rw [flatMap_leaves_map_leaf] at hl
  exact ⟨T, hT, hl, by simpa using hd⟩

/-- three leaves: `{{A,B},C}`, of depth `2` -/
theorem getScriptpathDescriptor_tree_three :
    ["A".data, "B".data, "C".data] ≠ [] ∧
      ∃ T : ScriptTree, getScriptpathDescriptor ["A".data, "B".data, "C".data] = some T.render ∧
        T.leaves = ["A".data, "B".data, "C".data] ∧ T.depth = Nat.clog 2 3 :=
  ⟨List.cons_ne_nil _ _, getScriptpathDescriptor_tree (List.cons_ne_nil _ _)⟩

end Nunchuk
