import NunchukWallet.Basic

/-!
# `ScriptNode`: the miniscript tree of a group wallet and its node ids

`ScriptNode` (dto/scriptnode.cpp) holds a node of a miniscript tree: its type, its subnodes, keys,
data, `k` and an id. `set_id(id)` gives the node `id` and, for `i` from zero, subnode `i` the id
`id` followed by `i + 1`, recursively. So an id is the path to its node, counted from one.

* `ScriptNodeType`, `ScriptNode`, `typeToString`   the node and its type names;
* `setId`, `setIdSubs`   `set_id` and its loop over the subnodes;
* `subAt`                the node a path of positions (from zero) reaches through `get_subs()`;
* `eraseIds`             the node without its ids;
* `setId_ids`            after `set_id(r)` the node at every path `p` has the id `r` followed by
                         `p` shifted by one, so no two nodes share an id, and nothing but the ids
                         changed.
-/

namespace Nunchuk

/-- `ScriptNode::Type` -/
inductive ScriptNodeType where
  | none | pk | older | after | hash160 | hash256 | ripemd160 | sha256 | and | or | andor
  | thresh | multi
deriving DecidableEq, Repr

/-- `ScriptNode::type_to_string` -/
def ScriptNodeType.typeToString : ScriptNodeType → String
  | .none => "NONE"
  | .pk => "PK"
  | .older => "OLDER"
  | .after => "AFTER"
  | .hash160 => "HASH160"
  | .hash256 => "HASH256"
  | .ripemd160 => "RIPEMD160"
  | .sha256 => "SHA256"
  | .and => "AND"
  | .or => "OR"
  | .andor => "ANDOR"
  | .thresh => "THRESH"
  | .multi => "MULTI"

/-- `ScriptNodeId` (declared in nunchuk.h, not among the sources): the vector `set_id` extends
with `i + 1` for a `size_t` position `i` -/
abbrev ScriptNodeId := List Nat

/-- a `ScriptNode`: `node_type_`, `sub_`, `keys_`, `data_`, `k_` and `id_` -/
inductive ScriptNode where
  | mk (type : ScriptNodeType) (subs : List ScriptNode) (keys : List String) (data : List UInt8)
      (k : Nat) (id : ScriptNodeId)
deriving Repr

namespace ScriptNode

def id : ScriptNode → ScriptNodeId
  | mk _ _ _ _ _ id => id

/-- `operator()`: the node is not of type NONE -/
def isValid : ScriptNode → Bool
  | mk t _ _ _ _ _ => t != .none

mutual
/-- `set_id(id)`: the subnodes first, then the node's own id -/
def setId : ScriptNode → ScriptNodeId → ScriptNode
  | mk t subs keys data k _, id => mk t (setIdSubs subs id 0) keys data k id

/-- the loop of `set_id` from position `i`: subnode `i` gets `id` followed by `i + 1` -/
def setIdSubs : List ScriptNode → ScriptNodeId → Nat → List ScriptNode
  | [], _, _ => []
  | s :: ss, id, i => s.setId (id ++ [i + 1]) :: setIdSubs ss id (i + 1)
end

/-- the node a path reaches: `get_subs()[i]` for each position `i` of the path -/
def subAt : ScriptNode → List Nat → Option ScriptNode
  | n, [] => some n
  | mk _ subs _ _ _ _, i :: p => subs[i]?.bind (·.subAt p)

mutual
/-- the node with every id emptied -/
def eraseIds : ScriptNode → ScriptNode
  | mk t subs keys data k _ => mk t (eraseIdsSubs subs) keys data k []

def eraseIdsSubs : List ScriptNode → List ScriptNode
  | [] => []
  | s :: ss => s.eraseIds :: eraseIdsSubs ss
end

theorem getElem?_setIdSubs (id : ScriptNodeId) :
    ∀ (subs : List ScriptNode) (j i : Nat),
      (setIdSubs subs id j)[i]? = subs[i]?.map (·.setId (id ++ [j + i + 1]))
  | [], _, _ => rfl
  | _ :: _, _, 0 => by simp [setIdSubs]
  | _ :: ss, j, i + 1 => by
    rw [setIdSubs, List.getElem?_cons_succ, getElem?_setIdSubs id ss (j + 1) i,
      List.getElem?_cons_succ, show j + 1 + i + 1 = j + (i + 1) + 1 by omega]

/-- the node at path `p` after `set_id(r)` has the id `r` followed by `p` shifted by one -/
theorem id_subAt_setId : ∀ (p : List Nat) (n : ScriptNode) (r : ScriptNodeId) (s : ScriptNode),
    (n.setId r).subAt p = some s → s.id = r ++ p.map (· + 1)
  | [], mk .., r, s, h => by cases h; simp [setId, id]
  | i :: p, mk _ subs _ _ _ _, r, s, h => by
    simp only [setId, subAt, getElem?_setIdSubs, Nat.zero_add, Option.bind_map] at h
    obtain ⟨c, -, hc⟩ := Option.bind_eq_some.mp h
    rw [id_subAt_setId p c _ s hc]
    simp

mutual
theorem eraseIds_setId : ∀ (n : ScriptNode) (r : ScriptNodeId), (n.setId r).eraseIds = n.eraseIds
  | mk t subs keys data k _, r => by
    simp only [setId, eraseIds, eraseIdsSubs_setIdSubs subs r 0]

theorem eraseIdsSubs_setIdSubs : ∀ (subs : List ScriptNode) (r : ScriptNodeId) (i : Nat),
    eraseIdsSubs (setIdSubs subs r i) = eraseIdsSubs subs
  | [], _, _ => rfl
  | s :: ss, r, i => by
    simp only [setIdSubs, eraseIdsSubs, eraseIds_setId s, eraseIdsSubs_setIdSubs ss r (i + 1)]
end

/-- After `set_id(r)` the node at every path `p` of the tree (positions from zero) has the id `r`
followed by `p` with every position raised by one; so two paths that reach nodes of one id are the
same path, and `set_id` leaves the tree as it was but for its ids. -/
theorem setId_ids (n : ScriptNode) (r : ScriptNodeId) :
    (n.setId r).eraseIds = n.eraseIds ∧
    (∀ p s, (n.setId r).subAt p = some s → s.id = r ++ p.map (· + 1)) ∧
    ∀ p q s s', (n.setId r).subAt p = some s → (n.setId r).subAt q = some s' →
      s.id = s'.id → p = q := by
  refine ⟨eraseIds_setId n r, fun p s => id_subAt_setId p n r s, fun p q s s' hp hq he => ?_⟩
  rw [id_subAt_setId p n r s hp, id_subAt_setId q n r s' hq, List.append_cancel_left_eq] at he
  exact List.map_injective_iff.mpr (fun a b h => Nat.succ.inj h) he

example : (mk .and [mk .pk [] ["A"] [] 0 [], mk .older [] [] [] 144 []] [] [] 0 []).setId [1] =
    mk .and [mk .pk [] ["A"] [] 0 [1, 1], mk .older [] [] [] 144 [1, 2]] [] [] 0 [1] := rfl

end ScriptNode

end Nunchuk
