/-
The tree seen through a working patch set.

While a version is being made, the tree is what the working patch set holds, and below that what the
database holds of the previous version.  A view is the resulting table of nodes by position.

* `Working` — a working patch set over a stored version, with every reference either fresh or
  settled.
-/
import Mathlib
import ViaCore.TreeStorage

namespace MerkleTree

open Nibbles (new nibble)

namespace WorkingPatchSet

/-! ### The table of a working patch set -/

theorem entry_eq (set : WorkingPatchSet) (q : Nibbles) :
    set.entry q = (set.changesByNibbleCount.getD q.nibbleCount ∅).lookup q.bytes := by
  rw [entry, List.getD_eq_getElem?_getD]
  cases set.changesByNibbleCount[q.nibbleCount]? with
  | none => rfl
  | some level => rfl

theorem entry_insert (set : WorkingPatchSet) (key : Nibbles) (node : Node) (q : Nibbles) :
    (set.insert key node).entry q =
      if q = key then some ⟨node, (set.entry key).bind WorkingNode.prevVersion⟩
      else set.entry q := by
  -- the list of levels is filled up to that of the key
  set levels := set.changesByNibbleCount ++
    List.replicate (key.nibbleCount + 1 - set.changesByNibbleCount.length) ∅ with hlevels
  have hlength : key.nibbleCount < levels.length := by
    rw [hlevels, List.length_append, List.length_replicate]
    omega
  have hpad : ∀ n, levels.getD n ∅ = set.changesByNibbleCount.getD n ∅ := by
    intro n
    rw [hlevels, List.getD_eq_getElem?_getD, List.getElem?_append, List.getD_eq_getElem?_getD]
    split
    · rfl
    · rename_i hge
      rw [List.getElem?_eq_none (not_lt.1 hge), List.getElem?_replicate]
      split <;> rfl
  rw [entry_eq, entry_eq, entry_eq]
  simp only [insert, ← hlevels]
  rw [List.getD_eq_getElem?_getD, List.getElem?_modify]
  by_cases hcount : key.nibbleCount = q.nibbleCount
  · have hsome : levels[q.nibbleCount]? = some (levels.getD q.nibbleCount ∅) := by
      rw [List.getD_eq_getElem?_getD, ← hcount, List.getElem?_eq_getElem hlength]
      rfl
    rw [hsome, hcount, ← hpad]
    simp only [if_true, Option.map_eq_map, Option.map_some, Option.getD_some]
    by_cases hq : q = key
    · subst hq
      cases hlookup : (levels.getD q.nibbleCount ∅).lookup q.bytes with
      | none => simp
      | some working => simp
    · have hbytes : q.bytes ≠ key.bytes := by
        intro hcon
        refine hq ?_
        cases q
        cases key
        simp only [Nibbles.mk.injEq]
        exact ⟨hcount.symm, hcon⟩
      rw [if_neg hq]
      cases (levels.getD q.nibbleCount ∅).lookup key.bytes with
      | none | some working => exact AList.lookup_insert_ne hbytes
  · have hq : q ≠ key := fun hcon => hcount (by rw [hcon])
    rw [if_neg hq, ← hpad, List.getD_eq_getElem?_getD]
    simp [hcount]

theorem entry_insert_self (set : WorkingPatchSet) (key : Nibbles) (node : Node) :
    (set.insert key node).entry key =
      some ⟨node, (set.entry key).bind WorkingNode.prevVersion⟩ := by
  rw [entry_insert, if_pos rfl]

variable {q : Nibbles} {set : WorkingPatchSet}

theorem entry_insert_of_ne (set : WorkingPatchSet) {key : Nibbles} (node : Node) (h : q ≠ key) :
    (set.insert key node).entry q = set.entry q := by
  rw [entry_insert, if_neg h]

theorem get_eq_some {node : Node} :
    set.get q = some node ↔ ∃ e, set.entry q = some e ∧ e.inner = node :=
  Option.map_eq_some_iff

theorem get_eq_none : set.get q = none ↔ set.entry q = none :=
  Option.map_eq_none_iff

theorem updateChildRef_eq {key : Nibbles} {e : WorkingNode} {node : InternalNode} {c : Nibble}
    {r : ChildRef} (f : ChildRef → ChildRef) (hentry : set.entry key = some e)
    (hinner : e.inner = .internal node) (href : node.children c = some r) :
    set.updateChildRef key c f =
      some (set.insert key (.internal (node.insertChildRef c (f r)))) := by
  have hget : set.get key = some (.internal node) := get_eq_some.2 ⟨e, hentry, hinner⟩
  rw [updateChildRef, hget]
  show (node.children c).map _ = _
  rw [href]
  rfl

end WorkingPatchSet

namespace InternalNode

@[simp] theorem insertChildRef_insertChildRef (node : InternalNode) (c : Nibble) (r r' : ChildRef) :
    (node.insertChildRef c r).insertChildRef c r' = node.insertChildRef c r' := by
  simp [insertChildRef]

@[simp] theorem children_insertChildRef_self (node : InternalNode) (c : Nibble) (r : ChildRef) :
    (node.insertChildRef c r).children c = some r :=
  Function.update_self _ _ _

theorem children_insertChildRef_of_ne (node : InternalNode) {c c' : Nibble} (r : ChildRef)
    (h : c' ≠ c) : (node.insertChildRef c r).children c' = node.children c' :=
  Function.update_of_ne h _ _

end InternalNode

/-- The node without hashes and versions. -/
def Node.shape : Node → Trie.Shape Key (ValueHash × UInt64) Nibble
  | .leaf leafNode => .leaf leafNode.fullKey (leafNode.valueHash, leafNode.leafIndex)
  | .internal node => .branch fun c => (node.children c).map ChildRef.isLeaf

@[simp] theorem Node.isLeaf_shape (node : Node) : node.shape.isLeaf = node.isLeaf := by
  cases node <;> rfl

@[simp] theorem Node.shape_clone (node : Node) : node.clone.shape = node.shape := by
  cases node <;> rfl

def shapeOf (V : Nibbles → Option Node) (q : Nibbles) :
    Option (Trie.Shape Key (ValueHash × UInt64) Nibble) :=
  (V q).map Node.shape

/-- The nodes of the working patch set, on top of those of the previous version. -/
def view (W : WorkingPatchSet) (B : Nibbles → Option Node) (q : Nibbles) : Option Node :=
  (W.get q).or (B q)

section Views

variable {W : WorkingPatchSet} {B : Nibbles → Option Node} {V : Nibbles → Option Node} {q : Nibbles}

theorem view_of_entry {e : WorkingNode} (h : W.entry q = some e) : view W B q = some e.inner := by
  rw [view, WorkingPatchSet.get_eq_some.2 ⟨e, h, rfl⟩]
  rfl

theorem view_of_none (h : W.entry q = none) : view W B q = B q := by
  rw [view, WorkingPatchSet.get_eq_none.2 h]
  rfl

theorem view_congr {W' : WorkingPatchSet} (h : W'.entry q = W.entry q) :
    view W' B q = view W B q := by
  rw [view, view, WorkingPatchSet.get, WorkingPatchSet.get, h]

theorem shapeOf_eq_branch {c : Nibble → Option Bool} :
    shapeOf V q = some (.branch c) ↔
      ∃ node, V q = some (.internal node) ∧
        (fun a => (node.children a).map ChildRef.isLeaf) = c := by
  rw [shapeOf, Option.map_eq_some_iff]
  constructor
  · rintro ⟨node, hnode, hshape⟩
    cases node with
    | leaf leafNode => cases hshape
    | internal node => exact ⟨node, hnode, by cases hshape; rfl⟩
  · rintro ⟨node, hnode, rfl⟩
    exact ⟨.internal node, hnode, rfl⟩

theorem shapeOf_eq_leaf {key : Key} {v : ValueHash × UInt64} :
    shapeOf V q = some (.leaf key v) ↔ V q = some (.leaf ⟨key, v.1, v.2⟩) := by
  rw [shapeOf, Option.map_eq_some_iff]
  constructor
  · rintro ⟨node, hnode, hshape⟩
    cases node with
    | leaf leafNode =>
      cases hshape
      exact hnode
    | internal node => cases hshape
  · exact fun hnode => ⟨_, hnode, rfl⟩

theorem shapeOf_eq_none : shapeOf V q = none ↔ V q = none := Option.map_eq_none_iff

theorem isLeaf_shapeOf : (shapeOf V q).map Trie.Shape.isLeaf = (V q).map Node.isLeaf := by
  rw [shapeOf, Option.map_map]
  congr 1
  funext node
  exact Node.isLeaf_shape node

end Views

/-! ### Well-formed tables -/

def WellFormed (V : Nibbles → Option Node) : Prop := Trie.WellFormed nibbleDigits (shapeOf V)

/-- The leaves of the table are what has been written. -/
def Represents (V : Nibbles → Option Node) (M : Contents) : Prop :=
  Trie.Represents nibbleDigits (shapeOf V) M

def StopsAt (V : Nibbles → Option Node) (k : Key) (n : ℕ) : Prop :=
  ∀ node, V (new k n) ≠ some (.internal node)

def InternalAbove (V : Nibbles → Option Node) (k : Key) (n : ℕ) : Prop :=
  ∀ j < n, ∃ node, V (new k j) = some (.internal node)

section WellFormed

variable {V : Nibbles → Option Node} {M : Contents} {k k' : Key} {n : ℕ}

section

variable (h : WellFormed V)
include h

variable {node : InternalNode}

theorem WellFormed.internal_lt (hn : n ≤ 64)
    (hnode : V (new k n) = some (.internal node)) : n < 64 :=
  (h k n hn).branch_lt _ (shapeOf_eq_branch.2 ⟨node, hnode, rfl⟩)

theorem WellFormed.child (hn : n < 64) (hnode : V (new k n) = some (.internal node)) :
    (node.children (nibble k n)).map ChildRef.isLeaf = (V (new k (n + 1))).map Node.isLeaf := by
  have hchild := (h k n hn.le).child _ hn (shapeOf_eq_branch.2 ⟨node, hnode, rfl⟩)
  rw [isLeaf_shapeOf] at hchild
  exact hchild

theorem WellFormed.exists_child (hn : n < 64) {r : ChildRef}
    (hnode : V (new k n) = some (.internal node)) (href : node.children (nibble k n) = some r) :
    ∃ x, V (new k (n + 1)) = some x ∧ x.isLeaf = r.isLeaf := by
  have hchild := h.child hn hnode
  rw [href, Option.map_some, eq_comm, Option.map_eq_some_iff] at hchild
  exact hchild

theorem WellFormed.exists_ref (hn : n < 64) {x : Node}
    (hnode : V (new k n) = some (.internal node)) (hx : V (new k (n + 1)) = some x) :
    ∃ r, node.children (nibble k n) = some r ∧ r.isLeaf = x.isLeaf := by
  have hchild := h.child hn hnode
  rw [hx, Option.map_some, Option.map_eq_some_iff] at hchild
  exact hchild

theorem WellFormed.parent (hn : n < 64) (hx : V (new k (n + 1)) ≠ none) :
    ∃ node, V (new k n) = some (.internal node) := by
  obtain ⟨c, hc⟩ := (h k n hn.le).above hn fun hnone => hx (shapeOf_eq_none.1 hnone)
  obtain ⟨node, hnode, _⟩ := shapeOf_eq_branch.1 hc
  exact ⟨node, hnode⟩

theorem WellFormed.internal_above (hn : n ≤ 64) (hx : V (new k n) ≠ none) {j : ℕ} (hj : j < n) :
    ∃ node, V (new k j) = some (.internal node) := by
  obtain ⟨c, hc⟩ := Trie.WellFormed.branch_above h hn (fun hnone => hx (shapeOf_eq_none.1 hnone)) hj
  obtain ⟨node, hnode, _⟩ := shapeOf_eq_branch.1 hc
  exact ⟨node, hnode⟩

theorem WellFormed.none_below (hstop : StopsAt V k n) {j : ℕ} (hnj : n < j) (hj : j ≤ 64)
    (hpos : new k' n = new k n) : V (new k' j) = none := by
  by_contra hx
  obtain ⟨node, hnode⟩ := h.internal_above hj hx hnj
  rw [hpos] at hnode
  exact hstop node hnode

theorem WellFormed.leaf_pos (hn : n ≤ 64) {leaf : LeafNode}
    (hleaf : V (new k n) = some (.leaf leaf)) : new leaf.fullKey n = new k n := by
  have hshape : shapeOf V (new k n) =
      some (.leaf leaf.fullKey (leaf.valueHash, leaf.leafIndex)) := shapeOf_eq_leaf.2 hleaf
  exact (h k n hn).leaf_pos _ _ hshape

end

theorem Node.hash_eq_prefixHash {hasher : HashTree} (hlaw : hasher.Lawful) (hwf : WellFormed V)
    (hrep : Represents V M) (hn : n ≤ 64) {node : Node} (hnode : V (new k n) = some node)
    {node' : Node} (hshape : node'.shape = node.shape)
    (hrefs : ∀ inner, node' = .internal inner → ∀ key' r, new key' n = new k n →
      inner.children (nibble key' n) = some r → r.hash = prefixHash hasher M key' (n + 1)) :
    node'.hash hasher (n * 4) = prefixHash hasher M k n := by
  rw [Nat.mul_comm]
  cases node' with
  | leaf leaf =>
    cases node with
    | internal inner => cases hshape
    | leaf leaf' =>
      obtain rfl : leaf = leaf' := by
        cases leaf
        cases leaf'
        simpa [Node.shape] using hshape
      have hleaf : shapeOf V (new k n) =
          some (.leaf leaf.fullKey (leaf.valueHash, leaf.leafIndex)) := shapeOf_eq_leaf.2 hnode
      refine LeafNode.hash_eq_prefixHash hlaw hn (hwf.leaf_pos hn hnode) ?_ ?_
      · refine (hrep _ _).2 ⟨n, hn, ?_⟩
        show shapeOf V (new leaf.fullKey n) = _
        rw [hwf.leaf_pos hn hnode, hleaf]
      -- below a leaf there is no other key
      · intro key' hpos hne
        rw [Option.eq_none_iff_forall_ne_some]
        intro v hv
        obtain ⟨m, hm, hleaf'⟩ := (hrep key' v).1 hv
        exact hne (Trie.WellFormed.leaf_unique hwf hn hm hleaf hpos hleaf').1
  | internal inner =>
    cases node with
    | leaf leaf => cases hshape
    | internal inner' =>
      have hlt := hwf.internal_lt hn hnode
      refine InternalNode.hash_eq_prefixHash hlaw hlt fun key' hpos => ?_
      cases href : inner.children (nibble key' n) with
      | some r => exact hrefs inner rfl key' r hpos href
      | none =>
        have hgap : ((inner'.children (nibble key' n)).map ChildRef.isLeaf) = none := by
          have := congrFun (Trie.Shape.branch.inj hshape) (nibble key' n)
          rw [← this, href]
          rfl
        refine (prefixHash_vacant hlaw hlt fun key'' hpos'' => ?_).symm
        have hbranch : shapeOf V (new key' n) = some (.branch fun a =>
            (inner'.children a).map ChildRef.isLeaf) := by
          rw [hpos]
          exact shapeOf_eq_branch.2 ⟨inner', hnode, rfl⟩
        exact Trie.Represents.none_of_gap hrep hwf hlt hbranch hgap hpos''

end WellFormed

/-! ### Stored versions and working patch sets -/

def Root.node : Root → Option Node
  | .empty => none
  | .filled _ node => some node

/-- The root of a table: its node, and how many keys there are. -/
structure Root.Of (root : Root) (V : Nibbles → Option Node) (M : Contents) : Prop where
  node_eq : root.node = V .empty
  leafCount_eq : root.leafCount = Set.ncard {key | M key ≠ none}

section Invariants

variable {DB : Type} [Database DB]

/-- The nodes of a version are in the database: every reference has the hash of the subtree it
leads to and names the version under which the node is found. -/
structure Stored (db : DB) (hasher : HashTree) (version : ℕ) (B : Nibbles → Option Node)
    (M : Contents) : Prop where
  wellFormed : WellFormed B
  represents : Represents B M
  clone_eq : ∀ q node, B q = some node → node.clone = node
  hash_eq : ∀ k n node r, n < 64 → B (new k n) = some (.internal node) →
    node.children (nibble k n) = some r → r.hash = prefixHash hasher M k (n + 1)
  node_eq : ∀ k n node r, n < 64 → B (new k n) = some (.internal node) →
    node.children (nibble k n) = some r → r.version ≤ version ∧
      Database.treeNode db ⟨r.version, new k (n + 1)⟩ r.isLeaf = B (new k (n + 1))

/-- A reference to a node that will be written with the version that is being made. -/
structure Fresh (operation : Operation) (W : WorkingPatchSet) (k : Key) (n : ℕ) (r : ChildRef) :
    Prop where
  version_eq : r.version = W.rootVersion
  entry : ∃ e, W.entry (new k (n + 1)) = some e ∧
    (operation = .insert → ∀ prev, e.prevVersion = some prev → prev < W.rootVersion)

/-- A reference to a node that stays as it is in the database. -/
structure Settled (db : DB) (hasher : HashTree) (operation : Operation) (W : WorkingPatchSet)
    (B : Nibbles → Option Node) (M : Contents) (k : Key) (n : ℕ) (r : ChildRef) : Prop where
  hash_eq : r.hash = prefixHash hasher M k (n + 1)
  version_le : r.version ≤ W.rootVersion
  version_lt : operation = .insert → r.version < W.rootVersion
  node_eq : Database.treeNode db ⟨r.version, new k (n + 1)⟩ r.isLeaf =
    (view W B (new k (n + 1))).map Node.clone
  entry : ∀ e, W.entry (new k (n + 1)) = some e →
    operation = .insert ∧ e.prevVersion = some r.version

/-- A working patch set over a version, for contents that may be newer: it is well-formed and holds
them, the paths to be written are loaded, and a fresh reference is reached by fresh ones only. -/
structure Working (db : DB) (hasher : HashTree) (operation : Operation)
    (B : Nibbles → Option Node) (loaded : Key → Prop) (W : WorkingPatchSet) (M : Contents) :
    Prop where
  valid : ∀ q, W.entry q ≠ none → ∃ k n, n ≤ 64 ∧ q = new k n
  closed : ∀ k n, n < 64 → W.entry (new k (n + 1)) ≠ none → W.entry (new k n) ≠ none
  rooted : W.entry .empty = none → B .empty = none
  rootPrev : operation = .insert → ∀ e prev, W.entry .empty = some e →
    e.prevVersion = some prev → prev < W.rootVersion
  wellFormed : WellFormed (view W B)
  represents : Represents (view W B) M
  covered : ∀ k, loaded k → ∀ n ≤ 64, W.entry (new k n) = none → B (new k n) = none
  refs : ∀ k n node r, n < 64 → view W B (new k n) = some (.internal node) →
    node.children (nibble k n) = some r →
    Fresh operation W k n r ∨ Settled db hasher operation W B M k n r
  upward : operation = .insert → ∀ k n node node' r r', n + 1 < 64 →
    view W B (new k n) = some (.internal node) → node.children (nibble k n) = some r →
    view W B (new k (n + 1)) = some (.internal node') →
    node'.children (nibble k (n + 1)) = some r' → r'.version = W.rootVersion →
    r.version = W.rootVersion

end Invariants

end MerkleTree
