/-
Inserting an entry into the state tree.

Whatever the descent along the key finds, the result is the working patch set for the contents with
the new entry.

* `Working.insert` — one entry, and `Working.insertAll` for a list of them.
-/
import Mathlib
import ViaCore.TreeEdit

namespace MerkleTree

open WorkingNode (prevVersion)

open WorkingPatchSet (updateChildRef_eq get_eq_none get_eq_some)

open Nibbles (new nibble)

variable {key movedKey : Key} {leaf : LeafNode} {W' : WorkingPatchSet} {data : NewLeafData} {j : ℕ}

namespace WorkingPatchSet

variable {set : WorkingPatchSet}

theorem traverseFrom_eq {i n : ℕ} (hin : i ≤ n) (hn : n ≤ 64)
    (hinternal : ∀ j, i ≤ j → j < n → ∃ node, set.get (Nibbles.new key j) = some (.internal node)) :
    set.traverseFrom key i = set.traverseFrom key n := by
  induction hd : n - i generalizing i with
  | zero => rw [show i = n by omega]
  | succ d ih =>
    obtain ⟨node, hnode⟩ := hinternal i le_rfl (by omega)
    rw [traverseFrom, if_pos (by omega)]
    simp only [hnode]
    exact ih (by omega) (fun j hij hj => hinternal j (by omega) hj) (by omega)

theorem traverseFrom_leaf {n : ℕ} (hn : n ≤ 64)
    (hleaf : set.get (Nibbles.new key n) = some (.leaf leaf)) :
    set.traverseFrom key n = .ok (if leaf.fullKey = key then .leafMatch (Nibbles.new key n) leaf
      else .leafMismatch (Nibbles.new key n) leaf) := by
  rw [traverseFrom, if_pos hn]
  simp only [hleaf]
  split <;> rfl

theorem traverseFrom_none {n : ℕ} (hn : n ≤ 64) (hnone : set.get (Nibbles.new key n) = none) :
    set.traverseFrom key n = .ok (.missingChild (Nibbles.new key n)) := by
  rw [traverseFrom, if_pos hn]
  simp only [hnone]

end WorkingPatchSet

namespace TreeUpdater

theorem updateVersions_spec (version : ℕ) (key : Key) {n : ℕ} (hn : n ≤ 64) (set : WorkingPatchSet)
    (hpath : ∀ j < n, ∃ e node r, set.entry (Nibbles.new key j) = some e ∧
      e.inner = .internal node ∧ node.children (nibble key j) = some r) :
    ∃ set', updateVersions version (Nibbles.new key n) set = .ok set' ∧
      set'.rootVersion = set.rootVersion ∧
      (∀ q, (∀ j < n, q ≠ Nibbles.new key j) → set'.entry q = set.entry q) ∧
      ∀ j < n, ∀ e node r, set.entry (Nibbles.new key j) = some e → e.inner = .internal node →
        node.children (nibble key j) = some r → set'.entry (Nibbles.new key j) =
          some ⟨.internal (node.insertChildRef (nibble key j)
            { r with version := max r.version version }), e.prevVersion⟩ := by
  -- from the end of the path up to the root
  induction n generalizing set with
  | zero =>
    refine ⟨set, ?_, rfl, fun q _ => rfl, fun j hj => absurd hj (Nat.not_lt_zero j)⟩
    rw [updateVersions]
    split
    · rfl
    · rename_i hsplit
      cases hsplit
  | succ n ih =>
    obtain ⟨e, node, r, he, hinner, href⟩ := hpath n (Nat.lt_succ_self n)
    have hupdate := updateChildRef_eq
      (fun childRef => { childRef with version := max childRef.version version }) he hinner href
    have hlast : (Nibbles.new key (n + 1)).splitLast = some (Nibbles.new key n, nibble key n) :=
      Nibbles.splitLast_new key (by omega)
    have hlevel : ∀ j < n, Nibbles.new key j ≠ Nibbles.new key n := fun j hj => new_ne hj.ne
    have hkept : ∀ j < n, (set.insert (Nibbles.new key n) (.internal (node.insertChildRef
        (nibble key n) { r with version := max r.version version }))).entry (Nibbles.new key j) =
          set.entry (Nibbles.new key j) := fun j hj =>
      set.entry_insert_of_ne _ (hlevel j hj)
    obtain ⟨set', hset', hroot, hrest, hway⟩ := ih (by omega) (set.insert (Nibbles.new key n) _)
      fun j hj => by
        rw [hkept j hj]
        exact hpath j (by omega)
    refine ⟨set', ?_, hroot, fun q hq => ?_, fun j hj e' node' r' he' hinner' href' => ?_⟩
    · rw [updateVersions]
      split
      · rename_i hsplit
        cases hlast.symm.trans hsplit
      · rename_i parentNibbles lastNibble hsplit
        cases hlast.symm.trans hsplit
        rw [hupdate]
        exact hset'
    · rw [hrest q fun j hj => hq j (by omega), set.entry_insert_of_ne _ (hq n (by omega))]
    · rcases Nat.lt_succ_iff_lt_or_eq.1 hj with hlt | rfl
      · exact hway j hlt e' node' r' (by rw [hkept j hlt]; exact he') hinner' href'
      · obtain rfl : e = e' := Option.some.inj (he.symm.trans he')
        obtain rfl : node = node' := by
          rw [hinner, Node.internal.injEq] at hinner'
          exact hinner'
        obtain rfl : r = r' := Option.some.inj (href.symm.trans href')
        rw [hrest _ fun i hi => (hlevel i hi).symm, set.entry_insert_self, he]
        rfl

/-- An internal node on the way to where two keys part. -/
def forkNode (version : ℕ) (movedKey key : Key) (n : ℕ) : InternalNode :=
  if nibble movedKey n = nibble key n then
    InternalNode.empty.insertChildRef (nibble key n) (.internal version)
  else
    (InternalNode.empty.insertChildRef (nibble key n) (.leaf version)).insertChildRef
      (nibble movedKey n) (.leaf version)

theorem insertFork_spec (version : ℕ) (hne : movedKey ≠ key) {n : ℕ} (hn : n ≤ 64)
    (hpos : Nibbles.new movedKey n = Nibbles.new key n) (set : WorkingPatchSet) :
    ∃ m set', insertFork version movedKey key n set = .ok (m, set') ∧ n ≤ m ∧ m < 64 ∧
      Nibbles.new movedKey m = Nibbles.new key m ∧ nibble movedKey m ≠ nibble key m ∧
      set'.rootVersion = set.rootVersion ∧
      (∀ q, (∀ j, n ≤ j → j ≤ m → q ≠ Nibbles.new key j) → set'.entry q = set.entry q) ∧
      (∀ j, n ≤ j → j ≤ m → set'.entry (Nibbles.new key j) =
        some ⟨.internal (forkNode version movedKey key j),
          (set.entry (Nibbles.new key j)).bind prevVersion⟩) ∧
      ∀ j, n ≤ j → j < m → nibble movedKey j = nibble key j := by
  -- on the levels that are left; the keys part before there are none
  induction hd : 64 - n generalizing n set with
  | zero =>
    obtain rfl : n = 64 := by omega
    exact absurd (nibbleDigits.eq_of_pos_depth hpos) hne
  | succ d ih =>
    have hstep : insertFork version movedKey key n set =
        if nibble movedKey n ≠ nibble key n then
          .ok (n, set.insert (Nibbles.new key n) (.internal (forkNode version movedKey key n)))
        else insertFork version movedKey key (n + 1)
          (set.insert (Nibbles.new key n) (.internal (forkNode version movedKey key n))) := by
      rw [insertFork, if_pos (by omega)]
      rfl
    by_cases hnibble : nibble movedKey n = nibble key n
    · rw [if_neg (not_not.2 hnibble)] at hstep
      obtain ⟨m, set', hset', hle, hlt, hagree, hdiffer, hroot, hrest, hchain, hsame⟩ :=
        ih (by omega) (new_succ (by omega) hpos hnibble)
          (set.insert (Nibbles.new key n) (.internal (forkNode version movedKey key n)))
          (by omega)
      refine ⟨m, set', hstep.trans hset', by omega, hlt, hagree, hdiffer, hroot,
        fun q hq => ?_, fun j hnj hjm => ?_, fun j hnj hjm => ?_⟩
      · rw [hrest q fun j hj hjm => hq j (by omega) hjm,
          set.entry_insert_of_ne _ (hq n le_rfl (by omega))]
      · rcases Nat.lt_or_eq_of_le hnj with hgt | rfl
        · rw [hchain j hgt hjm, set.entry_insert_of_ne]
          exact new_ne (by omega)
        · rw [hrest _ fun i hi _ => new_ne (by omega), set.entry_insert_self]
      · rcases Nat.lt_or_eq_of_le hnj with hgt | rfl
        · exact hsame j hgt hjm
        · exact hnibble
    · rw [if_pos hnibble] at hstep
      refine ⟨n, _, hstep, le_rfl, by omega, hpos, hnibble, rfl, fun q hq => ?_,
        fun j hnj hjm => ?_, fun j hnj hjm => by omega⟩
      · exact set.entry_insert_of_ne _ (hq n le_rfl le_rfl)
      · obtain rfl : j = n := by omega
        exact set.entry_insert_self _ _

end TreeUpdater

/-! ### Inserting one entry -/

/-- On the way the nodes are as before, up to the references along the key. -/
def Way (W W₁ : WorkingPatchSet) (k : Key) (n : ℕ) : Prop :=
  ∀ j < n, ∃ e node r, W.entry (new k j) = some e ∧ e.inner = .internal node ∧
    W₁.entry (new k j) = some { e with inner := .internal (node.insertChildRef (nibble k j) r) } ∧
    r.version ≤ W.rootVersion ∧ (W₁.get (new k (j + 1))).map Node.isLeaf = some r.isLeaf

/-- What is at and below the end of the descent before the versions on the way are changed. -/
structure Grown (W W₁ : WorkingPatchSet) (k : Key) (n : ℕ) : Prop where
  rootVersion_eq : W₁.rootVersion = W.rootVersion
  way : Way W W₁ k n
  elsewhere : ∀ q, (∀ j < n, q ≠ new k j) →
    (∀ k' j, n ≤ j → j ≤ 64 → new k' n = new k n → q ≠ new k' j) → W₁.entry q = W.entry q
  here : ∃ e, W₁.entry (new k n) = some e ∧ e.prevVersion = (W.entry (new k n)).bind prevVersion
  below : ∀ k' j e, n < j → j ≤ 64 → new k' n = new k n → W₁.entry (new k' j) = some e →
    e.prevVersion = none
  freshRefs : ∀ k' j e node c r, n ≤ j → j ≤ 64 → new k' n = new k n →
    W₁.entry (new k' j) = some e → e.inner = .internal node → node.children c = some r →
    r.version = W.rootVersion

theorem Grown.updateVersions {W W₁ : WorkingPatchSet} {k : Key} {n : ℕ} (h : Grown W W₁ k n)
    (hn : n ≤ 64) : ∃ W', TreeUpdater.updateVersions W₁.rootVersion (new k n) W₁ = .ok W' ∧
      Edited W W' k n ∧
      ∀ k' j, n ≤ j → W'.entry (new k' j) = W₁.entry (new k' j) := by
  obtain ⟨W', hW', hroot, hrest, hway⟩ := TreeUpdater.updateVersions_spec W₁.rootVersion k hn W₁
    fun j hj => by
      obtain ⟨e, node, r, _, _, he₁, _⟩ := h.way j hj
      exact ⟨_, _, r, he₁, rfl, InternalNode.children_insertChildRef_self _ _ _⟩
  have hunder : ∀ k' j, n ≤ j → W'.entry (new k' j) = W₁.entry (new k' j) := fun k' j hnj =>
    hrest _ fun i hi => new_ne (by omega)
  have hnode : ∀ j < n, ∃ e node r, W.entry (new k j) = some e ∧ e.inner = .internal node ∧
      W'.entry (new k j) = some { e with inner := .internal (node.insertChildRef (nibble k j) r) } ∧
      r.version = W.rootVersion ∧ (W₁.get (new k (j + 1))).map Node.isLeaf = some r.isLeaf := by
    intro j hj
    obtain ⟨e, node, r, he, hinner, he₁, hversion, hkind⟩ := h.way j hj
    refine ⟨e, node, { r with version := W.rootVersion }, he, hinner, ?_, rfl, hkind⟩
    rw [hway j hj _ _ r he₁ rfl (InternalNode.children_insertChildRef_self _ _ _),
      InternalNode.insertChildRef_insertChildRef, h.rootVersion_eq, max_eq_right hversion]
  refine ⟨W', hW', ⟨hroot.trans h.rootVersion_eq, fun j hj => ?_, fun q hq hq' => ?_, ?_, ?_, ?_⟩,
    hunder⟩
  · obtain ⟨e, node, r, he, hinner, he', hversion, hkind⟩ := hnode j hj
    refine ⟨e, node, r, he, hinner, he', hversion, ?_⟩
    rw [← hkind]
    rcases Nat.lt_or_eq_of_le (Nat.succ_le_of_lt hj) with hlt | heq
    · -- further down the way there are internal nodes before and after
      obtain ⟨e₁, node₁, r₁, _, _, he₁', _⟩ := hnode (j + 1) hlt
      obtain ⟨e₂, node₂, r₂, _, _, he₂', _⟩ := h.way (j + 1) hlt
      rw [WorkingPatchSet.get, WorkingPatchSet.get, he₁', he₂']
      rfl
    · rw [WorkingPatchSet.get, WorkingPatchSet.get, hunder k (j + 1) (by omega)]
  · rw [hrest q hq, h.elsewhere q hq hq']
  · rw [hunder k n le_rfl]
    exact h.here
  · intro k' j e hnj hj hpos
    rw [hunder k' j hnj.le]
    exact h.below k' j e hnj hj hpos
  · intro k' j e node c r hnj hj hpos
    rw [hunder k' j hnj]
    exact h.freshRefs k' j e node c r hnj hj hpos

/-- What an insertion of `k` puts at the end of the descent: a leaf, or two leaves below the
internal nodes down to where their keys part. -/
inductive Placed (W : WorkingPatchSet) (k : Key) (n : ℕ) : NewLeafData → Prop
  | leaf (leaf : LeafNode) (hleaf : W.get (new k n) = some (.leaf leaf))
      (hbelow : ∀ k' j, n < j → j ≤ 64 → new k' n = new k n → W.entry (new k' j) = none) :
      Placed W k n ⟨new k n, leaf, none⟩
  | fork (leaf moved : LeafNode) (m : ℕ) (hle : n ≤ m) (hlt : m < 64)
      (hagree : new moved.fullKey m = new k m) (hdiffer : nibble moved.fullKey m ≠ nibble k m)
      (hchain : ∀ j, n ≤ j → j ≤ m → W.get (new k j) =
        some (.internal (TreeUpdater.forkNode W.rootVersion moved.fullKey k j)))
      (hsame : ∀ j, n ≤ j → j < m → nibble moved.fullKey j = nibble k j)
      (hleaf : W.get (new k (m + 1)) = some (.leaf leaf))
      (hmoved : W.get (new moved.fullKey (m + 1)) = some (.leaf moved))
      (hrest : ∀ k' j, n ≤ j → j ≤ 64 → new k' n = new k n → (j ≤ m → new k' j ≠ new k j) →
        (j = m + 1 → new k' j ≠ new k j ∧ new k' j ≠ new moved.fullKey j) →
        W.entry (new k' j) = none) :
      Placed W k n ⟨new k (m + 1), leaf, some (new moved.fullKey (m + 1), moved)⟩

theorem Placed.congr {W : WorkingPatchSet} {k : Key} {n : ℕ} (h : Placed W k n data)
    (hroot : W'.rootVersion = W.rootVersion)
    (hsame : ∀ k' j, n ≤ j → W'.entry (new k' j) = W.entry (new k' j)) : Placed W' k n data := by
  have hget : ∀ k' j, n ≤ j → W'.get (new k' j) = W.get (new k' j) := fun k' j hnj => by
    rw [WorkingPatchSet.get, WorkingPatchSet.get, hsame k' j hnj]
  cases h with
  | leaf leaf hleaf hbelow =>
    refine .leaf leaf (by rw [hget k n le_rfl]; exact hleaf) fun k' j hnj hj hpos => ?_
    rw [hsame k' j hnj.le]
    exact hbelow k' j hnj hj hpos
  | fork leaf moved m hle hlt hagree hdiffer hchain hkeys hleaf hmoved hrest =>
    refine .fork leaf moved m hle hlt hagree hdiffer (fun j hnj hjm => ?_) hkeys ?_ ?_
      (fun k' j hnj hj hpos h1 h2 => ?_)
    · rw [hget k j hnj, hroot]
      exact hchain j hnj hjm
    · rw [hget _ _ (by omega)]
      exact hleaf
    · rw [hget _ _ (by omega)]
      exact hmoved
    · rw [hsame k' j hnj]
      exact hrest k' j hnj hj hpos h1 h2

theorem TreeUpdater.version_forkNode {version : ℕ} {c : Nibble} {r : ChildRef}
    (h : (forkNode version movedKey key j).children c = some r) : r.version = version := by
  have hempty : ∀ c : Nibble, InternalNode.empty.children c = none := fun _ => rfl
  have hinsert : ∀ (node : InternalNode) (a : Nibble) (x : ChildRef), x.version = version →
      (∀ c r, node.children c = some r → r.version = version) →
      ∀ c r, (node.insertChildRef a x).children c = some r → r.version = version := by
    intro node a x hx hnode c r href
    by_cases hc : c = a
    · subst hc
      rw [InternalNode.children_insertChildRef_self, Option.some.injEq] at href
      rw [← href, hx]
    · rw [InternalNode.children_insertChildRef_of_ne _ _ hc] at href
      exact hnode c r href
  have hnone : ∀ c r, InternalNode.empty.children c = some r → r.version = version :=
    fun c r href => by rw [hempty] at href; cases href
  rw [forkNode] at h
  split at h
  · exact hinsert _ _ (.internal version) rfl hnone c r h
  · exact hinsert _ _ (.leaf version) rfl (hinsert _ _ (.leaf version) rfl hnone) c r h

/-- What an insertion reports, by what has been written before. -/
def Contents.log (M : Contents) (key : Key) : TreeLogEntry :=
  match M key with
  | none => .inserted
  | some (value, leafIndex) => .updated leafIndex value

def Contents.write (M : Contents) (entry : TreeEntry) : Contents :=
  Function.update M entry.key (some (entry.value, entry.leafIndex))

/-- What an insertion does before the versions on the way are changed. -/
structure Applied (W W₁ : WorkingPatchSet) (M : Contents) (entry : TreeEntry) (n : ℕ)
    (outcome : TraverseOutcome) (data : NewLeafData) : Prop where
  traverse : W.traverseFrom entry.key n = .ok outcome
  position : outcome.position = new entry.key n
  apply : ∃ W₀, TreeUpdater.applyOutcome W entry outcome = .ok (M.log entry.key, data, W₀) ∧
    TreeUpdater.insertLeaves W₀ (M.log entry.key) data = W₁
  grown : Grown W W₁ entry.key n
  placed : Placed W₁ entry.key n data
  leaf : data.leaf = .new entry
  old : ∀ k' v, new k' n = new entry.key n → k' ≠ entry.key → (M k' = some v ↔
    ∃ q moved, data.adjacentLeaf = some (q, moved) ∧ k' = moved.fullKey ∧
      v = (moved.valueHash, moved.leafIndex))
  ne : ∀ q moved, data.adjacentLeaf = some (q, moved) → moved.fullKey ≠ entry.key

section Insert

variable {DB : Type} [Database DB] {db : DB} {hasher : HashTree} {operation : Operation}
  {B : Nibbles → Option Node} {loaded : Key → Prop} {W W₁ : WorkingPatchSet} {M : Contents}
  {k : Key} {n : ℕ}

theorem Placed.trie (h : Placed W' k n data) (hn : n ≤ 64) (hkey : data.leaf.fullKey = k)
    (hview : ∀ k' j, n ≤ j → j ≤ 64 → new k' n = new k n →
      view W' B (new k' j) = W'.get (new k' j)) :
    (∀ k' j, n ≤ j → j ≤ 64 → new k' n = new k n →
      Trie.OkAt nibbleDigits (shapeOf (view W' B)) k' j) ∧
    ∀ k' v, new k' n = new k n →
      ((∃ j ≤ 64, n ≤ j ∧ shapeOf (view W' B) (new k' j) = some (.leaf k' v)) ↔
        (k' = k ∧ v = (data.leaf.valueHash, data.leaf.leafIndex)) ∨
        ∃ q moved, data.adjacentLeaf = some (q, moved) ∧ k' = moved.fullKey ∧
          v = (moved.valueHash, moved.leafIndex)) := by
  have hshape : ∀ k' j node, n ≤ j → j ≤ 64 → new k' n = new k n →
      W'.get (new k' j) = some node → shapeOf (view W' B) (new k' j) = some node.shape :=
    fun k' j node hnj hj hpos hnode => by rw [shapeOf, hview k' j hnj hj hpos, hnode]; rfl
  have hempty : ∀ k' j, n ≤ j → j ≤ 64 → new k' n = new k n → W'.entry (new k' j) = none →
      shapeOf (view W' B) (new k' j) = none := fun k' j hnj hj hpos hnone => by
    rw [shapeOf_eq_none, hview k' j hnj hj hpos, get_eq_none.2 hnone]
  -- both kinds of ends are among those of the library
  cases h with
  | leaf leaf hleaf hbelow =>
    obtain rfl : leaf.fullKey = k := hkey
    have hat : Trie.LeafAt nibbleDigits (shapeOf (view W' B)) leaf.fullKey
        (leaf.valueHash, leaf.leafIndex) n :=
      ⟨hshape _ n _ le_rfl hn rfl hleaf, fun k' j hnj hj hpos =>
        hempty k' j hnj.le hj hpos (hbelow k' j hnj hj hpos)⟩
    refine ⟨fun k' j hnj hj hpos => hat.under hnj hj hpos, fun k' v hpos => ?_⟩
    refine (hat.leaves hn hpos).trans ⟨fun h => .inl h, fun h => h.resolve_right ?_⟩
    rintro ⟨q, moved, hcon, _⟩
    cases hcon
  | fork leaf moved m hle hlt hagree hdiffer hchain hkeys hleaf hmoved hrest =>
    obtain rfl : leaf.fullKey = k := hkey
    have hpos₂ : new moved.fullKey n = new leaf.fullKey n := new_mono hle hlt.le hagree
    have hat : Trie.ForkAt nibbleDigits (shapeOf (view W' B)) leaf.fullKey moved.fullKey
        (leaf.valueHash, leaf.leafIndex) (moved.valueHash, moved.leafIndex) n m :=
      { le := hle
        lt := hlt
        agree := hagree
        differ := hdiffer.symm
        chain := fun j hnj hjm => by
          have hnode := hshape _ j _ hnj (by omega) rfl (hchain j hnj hjm.le)
          rw [TreeUpdater.forkNode, if_pos (hkeys j hnj hjm), Node.shape,
            InternalNode.isLeaf_insertChildRef] at hnode
          exact hnode
        fork := by
          have hnode := hshape _ m _ hle (by omega) rfl (hchain m hle le_rfl)
          rw [TreeUpdater.forkNode, if_neg hdiffer, Node.shape, InternalNode.isLeaf_insertChildRef,
            InternalNode.isLeaf_insertChildRef] at hnode
          exact hnode
        leaf := hshape _ (m + 1) _ (by omega) hlt rfl hleaf
        moved := hshape _ (m + 1) _ (by omega) hlt hpos₂ hmoved
        rest := fun k' j hnj hj hpos h1 h2 =>
          hempty k' j hnj hj hpos (hrest k' j hnj hj hpos h1 h2) }
    refine ⟨fun k' j hnj hj hpos => hat.under hnj hj hpos, fun k' v hpos => ?_⟩
    refine (hat.leaves hpos).trans (or_congr Iff.rfl ?_)
    constructor
    · rintro ⟨hk', hv⟩
      exact ⟨_, moved, rfl, hk', hv⟩
    · rintro ⟨q, moved', hadjacent, hk', hv⟩
      cases hadjacent
      exact ⟨hk', hv⟩

theorem WellFormed.contents_under {V : Nibbles → Option Node} (hwf : WellFormed V)
    (hrep : Represents V M) (hn : n ≤ 64) (hinternal : InternalAbove V k n) (hstop : StopsAt V k n)
    {k' : Key} (hpos : new k' n = new k n)
    (v : ValueHash × UInt64) : M k' = some v ↔ V (new k n) = some (.leaf ⟨k', v.1, v.2⟩) := by
  have hstops : Trie.Stops nibbleDigits (shapeOf V) k' n :=
    { le_depth := hn
      branches := fun j hj => by
        obtain ⟨node, hnode⟩ := hinternal j hj
        refine ⟨_, shapeOf_eq_branch.2 ⟨node, ?_, rfl⟩⟩
        show V (new k' j) = _
        rw [new_mono hj.le hn hpos, hnode]
      no_branch := fun c hc => by
        obtain ⟨node, hnode, _⟩ := shapeOf_eq_branch.1 hc
        refine hstop node ?_
        rw [← hpos]
        exact hnode }
  rw [hstops.lookup hwf hrep]
  show shapeOf V (new k' n) = _ ↔ _
  rw [shapeOf_eq_leaf, hpos]

section

variable (h : Working db hasher operation B loaded W M)

include h

theorem Working.get_eq_view (hk : loaded k)
    (hn : n ≤ 64) : W.get (new k n) = view W B (new k n) := by
  cases hget : W.get (new k n) with
  | some node => rw [view, hget, Option.some_or]
  | none => rw [view, hget, h.covered k hk n hn (get_eq_none.1 hget)]; rfl

theorem Working.exists_stop (hk : loaded k) :
    ∃ n ≤ 64, InternalAbove W.get k n ∧
      StopsAt (view W B) k n := by
  have hex : ∃ n, StopsAt (view W B) k n :=
    ⟨64, fun node hnode => absurd (h.wellFormed.internal_lt le_rfl hnode) (lt_irrefl _)⟩
  classical
  have hle : Nat.find hex ≤ 64 := Nat.find_min' hex fun node hnode =>
    absurd (h.wellFormed.internal_lt le_rfl hnode) (lt_irrefl _)
  refine ⟨Nat.find hex, hle, fun j hj => ?_, Nat.find_spec hex⟩
  have hnode := Nat.find_min hex hj
  rw [StopsAt] at hnode
  push Not at hnode
  obtain ⟨node, hnode⟩ := hnode
  exact ⟨node, by rw [h.get_eq_view hk (by omega)]; exact hnode⟩

theorem Working.version_le (hj : j < 64)
    {node : InternalNode} {r : ChildRef} (hnode : view W B (new k j) = some (.internal node))
    (href : node.children (nibble k j) = some r) : r.version ≤ W.rootVersion := by
  rcases h.refs k j node r hj hnode href with hfresh | hsettled
  · exact hfresh.version_eq.le
  · exact hsettled.version_le

theorem Working.way (hn : n ≤ 64) (hinternal : InternalAbove W.get k n)
    (hsame : ∀ j, j + 1 < n → W₁.entry (new k j) = W.entry (new k j))
    (hlast : ∀ j e node, j + 1 = n → W.entry (new k j) = some e → e.inner = .internal node →
      ∃ r, W₁.entry (new k j) =
          some { e with inner := .internal (node.insertChildRef (nibble k j) r) } ∧
        r.version ≤ W.rootVersion ∧ (W₁.get (new k (j + 1))).map Node.isLeaf = some r.isLeaf) :
    Way W W₁ k n := by
  intro j hj
  obtain ⟨node, hnode⟩ := hinternal j hj
  obtain ⟨e, he, hinner⟩ := get_eq_some.1 hnode
  -- only the last node on the way has a new reference
  rcases Nat.lt_or_eq_of_le (Nat.succ_le_of_lt hj) with hlt | heq
  · have hview : view W B (new k j) = some (.internal node) := by rw [view_of_entry he, hinner]
    obtain ⟨node₁, hnode₁⟩ := hinternal (j + 1) hlt
    obtain ⟨e₁, he₁, hinner₁⟩ := get_eq_some.1 hnode₁
    have hview₁ : view W B (new k (j + 1)) = some (.internal node₁) := by
      rw [view_of_entry he₁, hinner₁]
    obtain ⟨r, href, hkind⟩ := h.wellFormed.exists_ref (by omega) hview hview₁
    refine ⟨e, node, r, he, hinner, ?_, h.version_le (by omega) hview href, ?_⟩
    · rw [hsame j hlt, he, InternalNode.insertChildRef_of_eq href, ← hinner]
    · rw [hkind]
      rcases Nat.lt_or_eq_of_le (Nat.succ_le_of_lt hlt) with hlt' | heq'
      · rw [WorkingPatchSet.get, hsame (j + 1) hlt', ← WorkingPatchSet.get, hnode₁]
        rfl
      · obtain ⟨r₁, he₁', _⟩ := hlast (j + 1) e₁ node₁ heq' he₁ hinner₁
        rw [WorkingPatchSet.get, he₁']
        rfl
  · obtain ⟨r, he', hversion, hkind⟩ := hlast j e node heq he hinner
    exact ⟨e, node, r, he, hinner, he', hversion, hkind⟩

theorem Working.contents_under (hn : n ≤ 64)
    (hinternal : InternalAbove W.get k n) (hstop : StopsAt (view W B) k n) {k' : Key}
    (hpos : new k' n = new k n) (v : ValueHash × UInt64) :
    M k' = some v ↔ view W B (new k n) = some (.leaf ⟨k', v.1, v.2⟩) := by
  refine h.wellFormed.contents_under h.represents hn (fun j hj => ?_) hstop hpos v
  obtain ⟨node, hnode⟩ := hinternal j hj
  exact ⟨node, by rw [view, hnode]; rfl⟩

theorem Working.grown (hgrown : Grown W W₁ k n)
    (hn : n ≤ 64) (hstop : StopsAt (view W B) k n) (hplaced : Placed W₁ k n data)
    {entry : TreeEntry} (hkey : entry.key = k)
    (hleaf : data.leaf = .new entry) (hold : ∀ k' v, new k' n = new k n → k' ≠ k → (M k' = some v ↔
      ∃ q moved, data.adjacentLeaf = some (q, moved) ∧ k' = moved.fullKey ∧
        v = (moved.valueHash, moved.leafIndex)))
    (hne : ∀ q moved, data.adjacentLeaf = some (q, moved) → moved.fullKey ≠ k) :
    ∃ W', TreeUpdater.updateVersions W₁.rootVersion (new k n) W₁ = .ok W' ∧ Edited W W' k n ∧
      Placed W' k n data ∧ Working db hasher operation B loaded W' (M.write entry) := by
  subst hkey
  obtain ⟨W', hW', hedit, hsame⟩ := hgrown.updateVersions hn
  have hplaced' : Placed W' entry.key n data :=
    hplaced.congr (hedit.rootVersion_eq.trans hgrown.rootVersion_eq.symm) hsame
  obtain ⟨hunder, hleaves⟩ := hplaced'.trie (B := B) hn (by rw [hleaf]; rfl)
    fun k' j hnj hj hpos => hedit.view_under h hstop hnj hj hpos
  refine ⟨W', hW', hedit, hplaced', h.edited hedit hn hstop hunder (fun key hne => ?_)
    (fun k' v hpos => ?_)⟩
  · exact Function.update_of_ne hne _ _
  · rw [hleaves k' v hpos, hleaf]
    -- the new leaf, and the leaf that has moved
    by_cases hk' : k' = entry.key
    · subst hk'
      have hwritten : M.write entry entry.key = some (entry.value, entry.leafIndex) :=
        Function.update_self _ _ _
      rw [hwritten, Option.some.injEq]
      constructor
      · rintro rfl
        exact .inl ⟨rfl, rfl⟩
      · rintro (⟨_, rfl⟩ | ⟨q, moved, hadjacent, hkey, _⟩)
        · rfl
        · exact absurd hkey.symm (hne q moved hadjacent)
    · have hkept : M.write entry k' = M k' := Function.update_of_ne hk' _ _
      rw [hkept, hold k' v hpos hk']
      exact ⟨fun hmoved => .inr hmoved, fun hor => hor.resolve_left fun hcon => hk' hcon.1⟩

theorem Working.put_leaf (hn : n ≤ 64)
    (hstop : StopsAt (view W B) k n) (hway : Way W W₁ k n) (hroot : W₁.rootVersion = W.rootVersion)
    (hleaf : W₁.entry (new k n) = some ⟨.leaf leaf, (W.entry (new k n)).bind prevVersion⟩)
    (hrest : ∀ q, (∀ j < n, q ≠ new k j) → q ≠ new k n → W₁.entry q = W.entry q) :
    Grown W W₁ k n ∧ Placed W₁ k n ⟨new k n, leaf, none⟩ := by
  have hbelow : ∀ k' j, n < j → j ≤ 64 → new k' n = new k n → W₁.entry (new k' j) = none := by
    intro k' j hnj hj hpos
    rw [hrest _ (fun i hi => new_ne (by omega)) (new_ne (by omega))]
    exact (h.base_none hstop hnj hj hpos).1
  refine ⟨⟨hroot, hway, fun q hq hq' => ?_, ⟨_, hleaf, rfl⟩, fun k' j e hnj hj hpos he => ?_,
    fun k' j e node c r hnj hj hpos he hinner _ => ?_⟩,
    .leaf leaf (get_eq_some.2 ⟨_, hleaf, rfl⟩) hbelow⟩
  · exact hrest q hq (hq' k n le_rfl hn rfl)
  · rw [hbelow k' j hnj hj hpos] at he
    cases he
  · rcases Nat.lt_or_eq_of_le hnj with hlt | rfl
    · rw [hbelow k' j hlt hj hpos] at he
      cases he
    · rw [hpos, hleaf, Option.some.injEq] at he
      rw [← he] at hinner
      cases hinner

variable {moved : LeafNode}

theorem Working.put_fork (hstop : StopsAt (view W B) k n) (hway : Way W W₁ k n)
    (hroot : W₁.rootVersion = W.rootVersion) {m : ℕ} (hle : n ≤ m) (hlt : m < 64)
    (hagree : new moved.fullKey m = new k m) (hdiffer : nibble moved.fullKey m ≠ nibble k m)
    (hkeys : ∀ j, n ≤ j → j < m → nibble moved.fullKey j = nibble k j)
    (hchain : ∀ j, n ≤ j → j ≤ m → W₁.entry (new k j) =
      some ⟨.internal (TreeUpdater.forkNode W.rootVersion moved.fullKey k j),
        (W.entry (new k j)).bind prevVersion⟩) (hleaf : W₁.entry (new k (m + 1)) =
      some ⟨.leaf leaf, (W.entry (new k (m + 1))).bind prevVersion⟩)
    (hmoved : W₁.entry (new moved.fullKey (m + 1)) =
      some ⟨.leaf moved, (W.entry (new moved.fullKey (m + 1))).bind prevVersion⟩)
    (hrest : ∀ q, (∀ j ≤ m, q ≠ new k j) → q ≠ new k (m + 1) → q ≠ new moved.fullKey (m + 1) →
      W₁.entry q = W.entry q) :
    Grown W W₁ k n ∧ Placed W₁ k n
      ⟨new k (m + 1), leaf, some (new moved.fullKey (m + 1), moved)⟩ := by
  have hpos₂ : new moved.fullKey n = new k n := new_mono hle hlt.le hagree
  -- every position at or below the end is one of the fork, or vacant
  have hgap : ∀ k' j, n ≤ j → j ≤ 64 → new k' n = new k n → (j ≤ m → new k' j ≠ new k j) →
      (j = m + 1 → new k' j ≠ new k j ∧ new k' j ≠ new moved.fullKey j) →
      W₁.entry (new k' j) = none := by
    intro k' j hnj hj hpos h1 h2
    have hjn : j ≠ n := by
      rintro rfl
      exact h1 hle hpos
    rw [hrest]
    · exact (h.base_none hstop (by omega) hj hpos).1
    · intro i hi hcon
      obtain rfl := new_level hcon
      exact h1 hi hcon
    · intro hcon
      obtain rfl := new_level hcon
      exact (h2 rfl).1 hcon
    · intro hcon
      obtain rfl := new_level hcon
      exact (h2 rfl).2 hcon
  have hentry : ∀ k' j e, n ≤ j → j ≤ 64 → new k' n = new k n → W₁.entry (new k' j) = some e →
      e.prevVersion = (W.entry (new k' j)).bind prevVersion ∧
      ∀ node, e.inner = .internal node →
        node = TreeUpdater.forkNode W.rootVersion moved.fullKey k j := by
    intro k' j e hnj hj hpos he
    -- an entry of the fork, by its position
    have hat : ∀ {p inner}, new k' j = p →
        W₁.entry p = some ⟨inner, (W.entry p).bind prevVersion⟩ →
        e.prevVersion = (W.entry (new k' j)).bind prevVersion ∧ inner = e.inner := by
      rintro p inner rfl hp
      rw [hp, Option.some.injEq] at he
      subst he
      exact ⟨rfl, rfl⟩
    rcases Trie.fork_positions nibbleDigits k moved.fullKey k' m j with
      ⟨hjm, hp⟩ | ⟨rfl, hp⟩ | ⟨rfl, hp⟩ | ⟨rfl, hp⟩ | ⟨hp1, hp2⟩
    · obtain ⟨hprev, hinner⟩ := hat hp (hchain j hnj hjm.le)
      exact ⟨hprev, fun node hnode => by cases hinner.trans hnode; rfl⟩
    · obtain ⟨hprev, hinner⟩ := hat hp (hchain j hnj le_rfl)
      exact ⟨hprev, fun node hnode => by cases hinner.trans hnode; rfl⟩
    · obtain ⟨hprev, hinner⟩ := hat hp hleaf
      exact ⟨hprev, fun node hnode => by cases hinner.trans hnode⟩
    · obtain ⟨hprev, hinner⟩ := hat hp hmoved
      exact ⟨hprev, fun node hnode => by cases hinner.trans hnode⟩
    · rw [hgap k' j hnj hj hpos hp1 hp2] at he
      cases he
  refine ⟨⟨hroot, hway, fun q hq hq' => ?_, ⟨_, hchain n le_rfl hle, rfl⟩,
    fun k' j e hnj hj hpos he => ?_, fun k' j e node c r hnj hj hpos he hinner href => ?_⟩,
    .fork leaf moved m hle hlt hagree hdiffer (fun j hnj hjm => ?_) hkeys
      (get_eq_some.2 ⟨_, hleaf, rfl⟩)
      (get_eq_some.2 ⟨_, hmoved, rfl⟩) hgap⟩
  · refine hrest q (fun j hj => ?_) (hq' k (m + 1) (by omega) hlt rfl)
      (hq' moved.fullKey (m + 1) (by omega) hlt hpos₂)
    rcases Nat.lt_or_ge j n with hjn | hjn
    · exact hq j hjn
    · exact hq' k j hjn (by omega) rfl
  · rw [(hentry k' j e hnj.le hj hpos he).1, (h.base_none hstop hnj hj hpos).1]
    rfl
  · rw [(hentry k' j e hnj hj hpos he).2 node hinner] at href
    exact TreeUpdater.version_forkNode href
  · rw [hroot]
    exact get_eq_some.2 ⟨_, hchain j hnj hjm, rfl⟩

variable {entry : TreeEntry}

theorem Working.applied_match (hn : n ≤ 64)
    (hinternal : InternalAbove W.get entry.key n) (hstop : StopsAt (view W B) entry.key n)
    (hget : W.get (new entry.key n) = some (.leaf leaf)) (hkey : leaf.fullKey = entry.key) :
    ∃ W₁ outcome data, Applied W W₁ M entry n outcome data := by
  obtain ⟨e, he, hinner⟩ := get_eq_some.1 hget
  have hview : view W B (new entry.key n) = some (.leaf leaf) := by rw [view_of_entry he, hinner]
  have hupdated : leaf.updateFrom entry = .new entry := by
    rw [LeafNode.updateFrom, LeafNode.new, ← hkey]
  have hM : M entry.key = some (leaf.valueHash, leaf.leafIndex) := by
    rw [h.contents_under hn hinternal hstop rfl, hview, ← hkey]
  have hlog : M.log entry.key = .updated leaf.leafIndex leaf.valueHash := by
    rw [Contents.log, hM]
  have hself := W.entry_insert_self (new entry.key n) (.leaf (.new entry))
  have hrest : ∀ q, q ≠ new entry.key n →
      (W.insert (new entry.key n) (.leaf (.new entry))).entry q = W.entry q := fun q hq =>
    W.entry_insert_of_ne _ hq
  -- the leaf stays a leaf, so the reference to it stays
  have hway : Way W (W.insert (new entry.key n) (.leaf (.new entry))) entry.key n := by
    refine h.way hn hinternal (fun j hj => hrest _ (new_ne (by omega)))
      (fun j e' node hj he' hinner' => ?_)
    subst hj
    have hview' : view W B (new entry.key j) = some (.internal node) := by
      rw [view_of_entry he', hinner']
    obtain ⟨r, href, hkind⟩ := h.wellFormed.exists_ref (by omega) hview' hview
    refine ⟨r, ?_, h.version_le (by omega) hview' href, ?_⟩
    · rw [hrest _ (new_ne (by omega)), he', InternalNode.insertChildRef_of_eq href, ← hinner']
    · rw [hkind, WorkingPatchSet.get, hself]
      rfl
  obtain ⟨hgrown, hplaced⟩ := h.put_leaf hn hstop hway rfl hself fun q _ hq => hrest q hq
  refine ⟨_, .leafMatch (new entry.key n) leaf, ⟨new entry.key n, .new entry, none⟩,
    ⟨?_, rfl, ⟨W.insert (new entry.key n) (.leaf (.new entry)), ?_, ?_⟩, hgrown, hplaced, rfl,
      fun k' v hpos hne => ?_, ?_⟩⟩
  · rw [WorkingPatchSet.traverseFrom_leaf hn hget, if_pos hkey]
  · rw [TreeUpdater.applyOutcome, hlog]
    simp only [hupdated]
  · rw [hlog]
    rfl
  · rw [h.contents_under hn hinternal hstop hpos, hview]
    constructor
    · intro hcon
      cases hcon
      exact absurd hkey hne
    · rintro ⟨q, moved, hcon, _⟩
      cases hcon
  · intro q moved hcon
    cases hcon

theorem Working.applied_missing (hk : loaded entry.key) (hn : n ≤ 64)
    (hinternal : InternalAbove W.get entry.key n)
    (hstop : StopsAt (view W B) entry.key n) (hget : W.get (new entry.key n) = none) :
    ∃ W₁ outcome data, Applied W W₁ M entry n outcome data := by
  have hview : view W B (new entry.key n) = none := by rw [← h.get_eq_view hk hn, hget]
  have hM : ∀ k', new k' n = new entry.key n → M k' = none := fun k' hpos => by
    rw [Option.eq_none_iff_forall_ne_some]
    intro v hv
    rw [h.contents_under hn hinternal hstop hpos, hview] at hv
    cases hv
  have hlog : M.log entry.key = .inserted := by rw [Contents.log, hM _ rfl]
  have hold : ∀ k' v, new k' n = new entry.key n → k' ≠ entry.key → (M k' = some v ↔
      ∃ (q : Nibbles) (moved : LeafNode), (none : Option (Nibbles × LeafNode)) = some (q, moved) ∧
        k' = moved.fullKey ∧ v = (moved.valueHash, moved.leafIndex)) := fun k' v hpos _ => by
    rw [hM k' hpos]
    constructor
    · nofun
    · rintro ⟨q, moved, hcon, _⟩
      cases hcon
  have htraverse := WorkingPatchSet.traverseFrom_none hn hget
  rcases Nat.eq_zero_or_pos n with rfl | hpos
  · -- the tree is empty
    have hempty : new entry.key 0 = .empty := Nibbles.new_zero _
    set W₀ := W.insert (new entry.key 0) (.leaf (.new entry)) with hW₀
    have hself : (W₀.insert (new entry.key 0) (.leaf (.new entry))).entry (new entry.key 0) =
        some ⟨.leaf (.new entry), (W.entry (new entry.key 0)).bind prevVersion⟩ := by
      rw [W₀.entry_insert_self, hW₀, W.entry_insert_self]
      rfl
    have hway : Way W (W₀.insert (new entry.key 0) (.leaf (.new entry))) entry.key 0 :=
      fun j hj => absurd hj (Nat.not_lt_zero j)
    obtain ⟨hgrown, hplaced⟩ := h.put_leaf hn hstop hway rfl hself fun q _ hq => by
      rw [W₀.entry_insert_of_ne _ hq, hW₀, W.entry_insert_of_ne _ hq]
    refine ⟨_, .missingChild (new entry.key 0), ⟨new entry.key 0, .new entry, none⟩,
      ⟨htraverse, rfl, ⟨W₀, ?_, ?_⟩, hgrown, hplaced, rfl, hold, fun q moved hcon => ?_⟩⟩
    · rw [TreeUpdater.applyOutcome, if_pos (Nibbles.nibbleCount_new _ _), hlog, hW₀, hempty]
    · rw [hlog]
      rfl
    · cases hcon
  · obtain ⟨j, rfl⟩ : ∃ j, n = j + 1 := ⟨n - 1, by omega⟩
    obtain ⟨parent, hparent⟩ := hinternal j (Nat.lt_succ_self j)
    set W₀ := W.insert (new entry.key j)
      (.internal (parent.insertChildRef (nibble entry.key j) (.leaf W.rootVersion))) with hW₀
    have hlevel : new entry.key (j + 1) ≠ new entry.key j := new_ne (by omega)
    have hself : (W₀.insert (new entry.key (j + 1)) (.leaf (.new entry))).entry
        (new entry.key (j + 1)) = some ⟨.leaf (.new entry),
          (W.entry (new entry.key (j + 1))).bind prevVersion⟩ := by
      rw [W₀.entry_insert_self, hW₀, W.entry_insert_of_ne _ hlevel]
    have hway : Way W (W₀.insert (new entry.key (j + 1)) (.leaf (.new entry))) entry.key
        (j + 1) := by
      refine h.way hn hinternal (fun i hi => ?_) (fun i e node hi he hinner => ?_)
      · rw [W₀.entry_insert_of_ne _ (new_ne (by omega)), hW₀,
          W.entry_insert_of_ne _ (new_ne (by omega))]
      · obtain rfl : i = j := by omega
        obtain rfl : node = parent := by
          rw [get_eq_some.2 ⟨e, he, hinner⟩] at hparent
          cases hparent
          rfl
        refine ⟨.leaf W.rootVersion, ?_, le_rfl, ?_⟩
        · rw [W₀.entry_insert_of_ne _ hlevel.symm, hW₀, W.entry_insert_self, he]
          rfl
        · rw [WorkingPatchSet.get, hself]
          rfl
    obtain ⟨hgrown, hplaced⟩ := h.put_leaf hn hstop hway rfl hself fun q hq hq' => by
      rw [W₀.entry_insert_of_ne _ hq', hW₀, W.entry_insert_of_ne _ (hq j (Nat.lt_succ_self j))]
    refine ⟨_, .missingChild (new entry.key (j + 1)), ⟨new entry.key (j + 1), .new entry, none⟩,
      ⟨htraverse, rfl, ⟨W₀, ?_, ?_⟩, hgrown, hplaced, rfl, hold, fun q moved hcon => ?_⟩⟩
    · rw [TreeUpdater.applyOutcome, if_neg (by rw [Nibbles.nibbleCount_new]; omega),
        Nibbles.splitLast_new entry.key (by omega), hlog]
      simp only [Outcome.unwrap_some, Outcome.ok_bind, hparent]
      rfl
    · rw [hlog]
      rfl
    · cases hcon

theorem Working.updateMovedLeafRef (hn : n ≤ 64) (hinternal : InternalAbove W.get k n)
    (hget : W.get (new k n) = some (.leaf moved)) :
    ∃ W₀, TreeUpdater.updateMovedLeafRef W (new k n) = .ok W₀ ∧ W₀.rootVersion = W.rootVersion ∧
      (∀ q, (∀ j, j + 1 = n → q ≠ new k j) → W₀.entry q = W.entry q) ∧
      ∀ j e node, j + 1 = n → W.entry (new k j) = some e → e.inner = .internal node →
        ∃ r, W₀.entry (new k j) =
            some { e with inner := .internal (node.insertChildRef (nibble k j) r) } ∧
          r.version ≤ W.rootVersion ∧ r.isLeaf = false := by
  cases n with
  | zero =>
    refine ⟨W, ?_, rfl, fun q _ => rfl, fun j e node hj => by omega⟩
    rfl
  | succ j =>
    obtain ⟨node, hnode⟩ := hinternal j (Nat.lt_succ_self j)
    obtain ⟨e, he, hinner⟩ := get_eq_some.1 hnode
    have hview : view W B (new k j) = some (.internal node) := by rw [view_of_entry he, hinner]
    have hview' : view W B (new k (j + 1)) = some (.leaf moved) := by rw [view, hget]; rfl
    obtain ⟨r, href, _⟩ := h.wellFormed.exists_ref (by omega) hview hview'
    have hversion := h.version_le (by omega) hview href
    refine ⟨W.insert (new k j) (.internal (node.insertChildRef (nibble k j)
      { r with isLeaf := false })), ?_, rfl, fun q hq => ?_, fun i e' node' hi he' hinner' => ?_⟩
    · rw [TreeUpdater.updateMovedLeafRef, Nibbles.splitLast_new k (by omega)]
      simp only [updateChildRef_eq _ he hinner href]
      rfl
    · exact W.entry_insert_of_ne _ (hq j rfl)
    · obtain rfl : i = j := by omega
      obtain rfl : e = e' := Option.some.inj (he.symm.trans he')
      obtain rfl : node = node' := by
        rw [hinner, Node.internal.injEq] at hinner'
        exact hinner'
      refine ⟨{ r with isLeaf := false }, ?_, hversion, rfl⟩
      rw [W.entry_insert_self, he]
      rfl

theorem Working.applied_mismatch (hn : n ≤ 64)
    (hinternal : InternalAbove W.get entry.key n) (hstop : StopsAt (view W B) entry.key n)
    (hget : W.get (new entry.key n) = some (.leaf moved)) (hkey : moved.fullKey ≠ entry.key) :
    ∃ W₁ outcome data, Applied W W₁ M entry n outcome data := by
  have hview : view W B (new entry.key n) = some (.leaf moved) := by rw [view, hget]; rfl
  have hM : M entry.key = none := by
    rw [Option.eq_none_iff_forall_ne_some]
    intro v hv
    rw [h.contents_under hn hinternal hstop rfl, hview] at hv
    cases hv
    exact hkey rfl
  have hlog : M.log entry.key = .inserted := by rw [Contents.log, hM]
  have hpos := h.wellFormed.leaf_pos hn hview
  obtain ⟨W₀, hW₀, hroot₀, hrest₀, hlast₀⟩ := h.updateMovedLeafRef hn hinternal hget
  obtain ⟨m, W₁, hW₁, hle, hlt, hagree, hdiffer, hroot₁, hrest₁, hchain₁, hkeys⟩ :=
    TreeUpdater.insertFork_spec W₀.rootVersion hkey hn hpos W₀
  set W₂ := W₁.insert (new entry.key (m + 1)) (.leaf (.new entry)) with hW₂
  set W₃ := W₂.insert (new moved.fullKey (m + 1)) (.leaf moved) with hW₃
  have hleaves : new entry.key (m + 1) ≠ new moved.fullKey (m + 1) := fun hcon =>
    hdiffer (nibble_of_new (Nat.lt_succ_self m) hlt hcon.symm)
  have hentry : ∀ q, q ≠ new entry.key (m + 1) → q ≠ new moved.fullKey (m + 1) →
      W₃.entry q = W₁.entry q := fun q hq hq' => by
    rw [hW₃, W₂.entry_insert_of_ne _ hq', hW₂, W₁.entry_insert_of_ne _ hq]
  -- above the end, only the reference to the leaf that is moved has changed
  have habove : ∀ j < n, W₃.entry (new entry.key j) = W₀.entry (new entry.key j) := fun j hj => by
    rw [hentry _ (new_ne (by omega)) (new_ne (by omega)), hrest₁ _ fun i hi _ => new_ne (by omega)]
  have hchain : ∀ j, n ≤ j → j ≤ m → W₃.entry (new entry.key j) =
      some ⟨.internal (TreeUpdater.forkNode W.rootVersion moved.fullKey entry.key j),
        (W.entry (new entry.key j)).bind prevVersion⟩ := fun j hnj hjm => by
    rw [hentry _ (new_ne (by omega)) (new_ne (by omega)), hchain₁ j hnj hjm,
      hrest₀ _ fun i hi => new_ne (by omega), hroot₀]
  have hold : ∀ q, (∀ j ≤ m, q ≠ new entry.key j) → W₁.entry q = W.entry q := fun q hq => by
    rw [hrest₁ q fun j _ hj => hq j hj, hrest₀ q fun j hj => hq j (by omega)]
  have hleaf : W₃.entry (new entry.key (m + 1)) = some ⟨.leaf (.new entry),
      (W.entry (new entry.key (m + 1))).bind prevVersion⟩ := by
    rw [hW₃, W₂.entry_insert_of_ne _ hleaves, hW₂, W₁.entry_insert_self,
      hold _ fun j hj => new_ne (by omega)]
  have hmoved : W₃.entry (new moved.fullKey (m + 1)) = some ⟨.leaf moved,
      (W.entry (new moved.fullKey (m + 1))).bind prevVersion⟩ := by
    rw [hW₃, W₂.entry_insert_self, hW₂, W₁.entry_insert_of_ne _ hleaves.symm,
      hold _ fun j hj => new_ne (by omega)]
  have hway : Way W W₃ entry.key n := by
    refine h.way hn hinternal (fun j hj => ?_) (fun j e node hj he hinner => ?_)
    · rw [habove j (by omega), hrest₀ _ fun i hi => new_ne (by omega)]
    · obtain ⟨r, he', hversion, hkind⟩ := hlast₀ j e node hj he hinner
      refine ⟨r, by rw [habove j (by omega)]; exact he', hversion, ?_⟩
      rw [hj, WorkingPatchSet.get, hchain n le_rfl hle, hkind]
      rfl
  obtain ⟨hgrown, hplaced⟩ := h.put_fork hstop hway (hroot₁.trans hroot₀) hle hlt hagree hdiffer
    hkeys hchain hleaf hmoved fun q hq hq' hq'' => by rw [hentry q hq' hq'', hold q hq]
  refine ⟨W₃, .leafMismatch (new entry.key n) moved, ⟨new entry.key (m + 1), .new entry,
    some (new moved.fullKey (m + 1), moved)⟩, ⟨?_, rfl, ⟨W₁, ?_, ?_⟩, hgrown, hplaced, rfl,
    fun k' v hpos' hne => ?_, fun q moved' hcon => ?_⟩⟩
  · rw [WorkingPatchSet.traverseFrom_leaf hn hget, if_neg hkey]
  · rw [TreeUpdater.applyOutcome, hW₀, hlog]
    simp only [Outcome.ok_bind, Nibbles.nibbleCount_new, hW₁]
  · rw [hlog]
    rfl
  · rw [h.contents_under hn hinternal hstop hpos', hview]
    constructor
    · intro hcon
      cases hcon
      exact ⟨_, _, rfl, rfl, rfl⟩
    · rintro ⟨q, moved', hcon, rfl, rfl⟩
      cases hcon
      rfl
  · cases hcon
    exact hkey

/-- **Inserting an entry** into a working patch set whose nodes on the path of the key are loaded:
the result is the working patch set for the contents with the entry. -/
theorem Working.insert (hk : loaded entry.key)
    {p : Nibbles} (hstart : InternalAbove W.get entry.key p.nibbleCount) :
    ∃ n data W', TreeUpdater.insert W entry p = .ok ((M.log entry.key, data), W') ∧ n ≤ 64 ∧
      InternalAbove W.get entry.key n ∧
      StopsAt (view W B) entry.key n ∧
      Edited W W' entry.key n ∧ Placed W' entry.key n data ∧ data.leaf = .new entry ∧
      Working db hasher operation B loaded W' (M.write entry) := by
  obtain ⟨n, hn, hinternal, hstop⟩ := h.exists_stop hk
  have happlied : ∃ W₁ outcome data, Applied W W₁ M entry n outcome data := by
    cases hget : W.get (new entry.key n) with
    | none => exact h.applied_missing hk hn hinternal hstop hget
    | some node =>
      cases node with
      | internal node => exact absurd (by rw [view, hget]; rfl) (hstop node)
      | leaf leaf =>
        by_cases hkey : leaf.fullKey = entry.key
        · exact h.applied_match hn hinternal hstop hget hkey
        · exact h.applied_mismatch hn hinternal hstop hget hkey
  obtain ⟨W₁, outcome, data, happlied⟩ := happlied
  obtain ⟨W₀, happly, hleaves⟩ := happlied.apply
  obtain ⟨W', hW', hedit, hplaced, hworking⟩ := h.grown happlied.grown hn hstop happlied.placed rfl
    happlied.leaf happlied.old happlied.ne
  -- the descent may start anywhere above its end
  have hle : p.nibbleCount ≤ n := by
    by_contra hlt
    obtain ⟨node, hnode⟩ := hstart n (by omega)
    exact hstop node (by rw [view, hnode]; rfl)
  refine ⟨n, data, W', ?_, hn, hinternal, hstop, hedit, hplaced, happlied.leaf, hworking⟩
  rw [TreeUpdater.insert, WorkingPatchSet.traverse,
    WorkingPatchSet.traverseFrom_eq hle hn fun j _ hj => hinternal j hj, happlied.traverse]
  simp only [Outcome.ok_bind, happly, hleaves, happlied.position, hW']

end

/-! ### Inserting entries one after another -/

theorem Edited.internal_kept (hedit : Edited W W' k n)
    (h : Working db hasher operation B loaded W M) (hstop : StopsAt (view W B) k n) {k' : Key}
    (hj : j ≤ 64) {node : InternalNode} (hnode : W.get (new k' j) = some (.internal node)) :
    ∃ node', W'.get (new k' j) = some (.internal node') := by
  by_cases hpath : OnPath k n k' j
  · obtain ⟨e, node₀, r, _, _, he', _⟩ := hedit.path j hpath.1
    exact ⟨_, by rw [hpath.2, WorkingPatchSet.get, he']; rfl⟩
  by_cases hunder : Under k n k' j
  · obtain ⟨hnj, hpos⟩ := hunder
    rcases Nat.lt_or_eq_of_le hnj with hlt | rfl
    · rw [get_eq_none.2 (h.base_none hstop hlt hj hpos).1] at hnode
      cases hnode
    · exact absurd (by rw [← hpos, view, hnode]; rfl) (hstop node)
  · exact ⟨node, by rw [WorkingPatchSet.get, hedit.same hpath hunder]; exact hnode⟩

def Contents.writeAll (M : Contents) (entries : List TreeEntry) : Contents :=
  entries.foldl Contents.write M

def Contents.logs : Contents → List TreeEntry → List TreeLogEntry
  | _, [] => []
  | M, entry :: entries => M.log entry.key :: (M.write entry).logs entries

/-- How many keys have been written. -/
noncomputable def Contents.keyCount (M : Contents) : ℕ := Set.ncard {key | M key ≠ none}

theorem Contents.keyCount_write (M : Contents) (entry : TreeEntry) :
    (M.write entry).keyCount =
      if M.log entry.key = .inserted then M.keyCount + 1 else M.keyCount := by
  have hset : {key | M.write entry key ≠ none} = insert entry.key {key | M key ≠ none} := by
    ext key
    by_cases hkey : key = entry.key
    · subst hkey
      simp [Contents.write]
    · simp [Contents.write, hkey]
  rw [keyCount, hset, keyCount, Contents.log]
  cases hM : M entry.key with
  | none =>
    rw [if_pos rfl, Set.ncard_insert_of_notMem (by simp [hM]) (Set.toFinite _)]
  | some v =>
    rw [if_neg (by rintro ⟨⟩), Set.insert_eq_of_mem (by simp [hM])]

theorem Working.insertAll (items : List (TreeEntry × Nibbles)) (logs : List TreeLogEntry)
    (h : Working db hasher operation B loaded W M) (hloaded : ∀ item ∈ items, loaded item.1.key)
    (hstart : ∀ item ∈ items, InternalAbove W.get item.1.key item.2.nibbleCount)
    (hcount : ∀ item ∈ items, item.2.nibbleCount ≤ 64) :
    ∃ W', items.foldlM Storage.extendEntry (logs, M.keyCount, W) =
        .ok (logs ++ M.logs (items.map Prod.fst), (M.writeAll (items.map Prod.fst)).keyCount, W') ∧
      W'.rootVersion = W.rootVersion ∧
      Working db hasher operation B loaded W' (M.writeAll (items.map Prod.fst)) := by
  induction items generalizing W M logs with
  | nil => exact ⟨W, by simp [Contents.logs, Contents.writeAll], rfl, h⟩
  | cons item items ih =>
    obtain ⟨n, data, W₁, hinsert, hn, hinternal, hstop, hedit, _, _, h₁⟩ :=
      h.insert (hloaded item (by simp)) (hstart item (by simp))
    -- nodes above the other keys stay internal
    obtain ⟨W', hfold, hroot, h'⟩ := ih (logs ++ [M.log item.1.key]) h₁
      (fun item' hmem => hloaded item' (by simp [hmem]))
      (fun item' hmem j hj => by
        have hj64 := hcount item' (by simp [hmem])
        obtain ⟨node, hnode⟩ := hstart item' (by simp [hmem]) j hj
        exact hedit.internal_kept h hstop (by omega) hnode)
      (fun item' hmem => hcount item' (by simp [hmem]))
    refine ⟨W', ?_, hroot.trans hedit.rootVersion_eq, h'⟩
    have hstep : Storage.extendEntry (logs, M.keyCount, W) item =
        .ok (logs ++ [M.log item.1.key], (M.write item.1).keyCount, W₁) := by
      rw [Storage.extendEntry]
      simp only [hinsert, Outcome.ok_bind, Contents.keyCount_write]
    rw [List.foldlM_cons, hstep, Outcome.ok_bind, hfold, List.append_assoc]
    rfl

end Insert

end MerkleTree
