/-
Finalizing a version of the state tree.

In the end the nodes of a working patch set are hashed level by level from the bottom: the hash of a
node goes into the reference of its parent, and a node that is new or has been replaced goes into
the patch.  Every reference has the specified hash then, so that the patch stores the new contents.

* `Finalized.stored` — the version in the database.
-/
import Mathlib
import ViaCore.TreeEdit

namespace MerkleTree

open WorkingPatchSet (finalizeNode get_eq_some finalizeLevels finalizeInner)

open Nibbles (new nibble)

/-! ### Nodes and their hashes -/

def Node.bare : Node → Node
  | .leaf leafNode => .leaf leafNode
  | .internal node => .internal ⟨fun c => (node.children c).map fun r => { r with hash := 0 }, none⟩

theorem Node.bare_clone (node : Node) : node.clone.bare = node.bare := by
  cases node <;> rfl

theorem Node.clone_clone (node : Node) : node.clone.clone = node.clone := by
  cases node <;> rfl

variable {inner : InternalNode}

theorem Node.internal_of_bare_eq {node : Node} (h : node.bare = (Node.internal inner).bare) :
    ∃ inner', node = .internal inner' ∧ ∀ c, (inner'.children c).map (fun r =>
      { r with hash := 0 }) =
      (inner.children c).map fun r => { r with hash := 0 } := by
  cases node with
  | leaf leafNode => cases h
  | internal inner' =>
    refine ⟨inner', rfl, fun c => ?_⟩
    rw [Node.bare, Node.bare, Node.internal.injEq, InternalNode.mk.injEq] at h
    exact congrFun h.1 c

theorem Node.ref_of_bare_eq {inner inner' : InternalNode}
    (h : (Node.internal inner').bare = (Node.internal inner).bare) {c : Nibble} {r' : ChildRef}
    (hr' : inner'.children c = some r') :
    ∃ r, inner.children c = some r ∧ r'.version = r.version ∧ r'.isLeaf = r.isLeaf := by
  obtain ⟨_, heq, hchildren⟩ := Node.internal_of_bare_eq h
  cases heq
  have hc := hchildren c
  rw [hr', Option.map_some, eq_comm, Option.map_eq_some_iff] at hc
  obtain ⟨r, hr, heq⟩ := hc
  rw [ChildRef.mk.injEq] at heq
  exact ⟨r, hr, heq.2.1.symm, heq.2.2.symm⟩

theorem Node.shape_of_bare_eq {node node' : Node} (h : node'.bare = node.bare) :
    node'.shape = node.shape := by
  have hshape : ∀ x : Node, x.bare.shape = x.shape := by
    intro x
    cases x with
    | leaf leafNode => rfl
    | internal inner =>
      simp only [Node.bare, Node.shape, Trie.Shape.branch.injEq]
      funext c
      cases inner.children c <;> rfl
  rw [← hshape node', h, hshape]

theorem Node.isLeaf_of_bare_eq {node node' : Node} (h : node'.bare = node.bare) :
    node'.isLeaf = node.isLeaf := by
  rw [← Node.isLeaf_shape, Node.shape_of_bare_eq h, Node.isLeaf_shape]

theorem InternalNode.bare_insertChildRef {c : Nibble} {r : ChildRef}
    (h : inner.children c = some r) (x : ValueHash) :
    (Node.internal (inner.insertChildRef c { r with hash := x })).bare =
      (Node.internal inner).bare := by
  simp only [Node.bare, Node.internal.injEq, InternalNode.mk.injEq, and_true]
  funext c'
  by_cases hc : c' = c
  · subst hc
    rw [InternalNode.children_insertChildRef_self, h]
    rfl
  · rw [InternalNode.children_insertChildRef_of_ne _ _ hc]

/-- Every reference of a node at level `n` on the path of `k` has the specified hash. -/
def HashesRight (hasher : HashTree) (M : Contents) (k : Key) (n : ℕ) (node : Node) : Prop :=
  ∀ inner, node = .internal inner → ∀ key' r, new key' n = new k n →
    inner.children (nibble key' n) = some r → r.hash = prefixHash hasher M key' (n + 1)

section Nodes

variable {hasher : HashTree} {M : Contents} {k k' : Key} {n : ℕ} {node node' : Node}

theorem HashesRight.clone (h : HashesRight hasher M k n node) :
    HashesRight hasher M k n node.clone := by
  cases node with
  | leaf leafNode => exact h
  | internal inner =>
    intro inner' hinner' key' r hpos hr
    cases hinner'
    exact h inner rfl key' r hpos hr

theorem Node.clone_eq_of_bare_eq (hn : n < 64) (hbare : node'.bare = node.bare)
    (h : HashesRight hasher M k n node) (h' : HashesRight hasher M k n node') :
    node'.clone = node.clone := by
  cases node with
  | leaf leafNode =>
    cases node' with
    | leaf leafNode' => exact hbare
    | internal inner' => cases hbare
  | internal inner =>
    obtain ⟨inner', rfl, hchildren⟩ := Node.internal_of_bare_eq hbare
    simp only [Node.clone, InternalNode.clone, Node.internal.injEq, InternalNode.mk.injEq, and_true]
    -- equal up to hashes, and the hashes are both the specified ones
    funext c
    obtain ⟨key', hkey', hc⟩ := exists_key_nibble k hn c
    have hc' := hchildren c
    cases hr' : inner'.children c with
    | none =>
      rw [hr', Option.map_none, eq_comm, Option.map_eq_none_iff] at hc'
      exact hc'.symm
    | some r' =>
      obtain ⟨r, hr, hversion, hleaf⟩ := Node.ref_of_bare_eq hbare hr'
      rw [hr, Option.some.injEq]
      have hhash' := h' inner' rfl key' r' hkey' (by rw [hc]; exact hr')
      have hhash := h inner rfl key' r hkey' (by rw [hc]; exact hr)
      cases r
      cases r'
      simp only at hversion hleaf hhash hhash'
      rw [hversion, hleaf, hhash, hhash']

end Nodes

/-! ### One level -/

/-- The nodes of a working patch set hang together: above a node there is an internal node with a
reference to it. -/
structure Linked (W : WorkingPatchSet) : Prop where
  valid : ∀ q, W.entry q ≠ none → ∃ k n, n ≤ 64 ∧ q = new k n
  parent : ∀ k n x, n < 64 → W.get (new k (n + 1)) = some x →
    ∃ e node r, W.entry (new k n) = some e ∧ e.inner = .internal node ∧
      node.children (nibble k n) = some r ∧ r.isLeaf = x.isLeaf
  internal_lt : ∀ k n node, n ≤ 64 → W.get (new k n) = some (.internal node) → n < 64

/-- Level `n` of a working patch set, the hashes of the nodes at some positions of the next level
still to be put into it. -/
structure LevelState (hasher : HashTree) (W : WorkingPatchSet) (M : Contents) (n : ℕ)
    (remaining : List Nibbles) (level : Level) : Prop where
  valid : ∀ bytes, level.lookup bytes ≠ none → ∃ k, bytes = (new k n).bytes
  sound : ∀ k e', level.lookup (new k n).bytes = some e' → ∃ e, W.entry (new k n) = some e ∧
    e'.prevVersion = e.prevVersion ∧ e'.inner.bare = e.inner.bare
  complete : ∀ k, W.entry (new k n) ≠ none → level.lookup (new k n).bytes ≠ none
  right : ∀ k e' inner r, n < 64 → level.lookup (new k n).bytes = some e' →
    e'.inner = .internal inner → inner.children (nibble k n) = some r →
    new k (n + 1) ∉ remaining → r.hash = prefixHash hasher M k (n + 1)
  kept : ∀ k e e' inner inner', n < 64 → W.entry (new k n) = some e → e.inner = .internal inner →
    level.lookup (new k n).bytes = some e' → e'.inner = .internal inner' →
    new k (n + 1) ∈ remaining → inner'.children (nibble k n) = inner.children (nibble k n)

/-- The nodes below level `n` that are to be written are in the patch, those at some positions still
to be put into it. -/
def Written (operation : Operation) (W : WorkingPatchSet) (F : Nibbles → Option Node)
    (patched : NodeMap) (n : ℕ) (remaining : List Nibbles) : Prop :=
  ∀ k j e node r, n ≤ j → j < 64 → W.entry (new k (j + 1)) = some e →
    W.get (new k j) = some (.internal node) → node.children (nibble k j) = some r →
    (operation = .update ∨ ∀ prev, e.prevVersion = some prev → prev < r.version) →
    new k (j + 1) ∉ remaining → patched.lookup ⟨r.version, new k (j + 1)⟩ = F (new k (j + 1))

/-- A key of a node that the version does not use any more: the reference to its position is newer,
or it is that of the previous root. -/
def StaleIn (W : WorkingPatchSet) (key : NodeKey) : Prop :=
  (∃ e, W.entry .empty = some e ∧ key.nibbles = .empty ∧ e.prevVersion = some key.version) ∨
  ∃ k j e node r, j < 64 ∧ W.entry (new k (j + 1)) = some e ∧
    W.get (new k j) = some (.internal node) ∧ node.children (nibble k j) = some r ∧
    key.nibbles = new k (j + 1) ∧ e.prevVersion = some key.version ∧ key.version < r.version

/-- A node of level `n + 1` as it is handed to the level above. -/
structure ItemOk (hasher : HashTree) (W : WorkingPatchSet) (M : Contents)
    (F : Nibbles → Option Node) (n : ℕ)
    (item : Nibbles × Option ValueHash × WorkingNode) (k : Key) :
    Prop where
  position : item.1 = new k (n + 1)
  node_eq : F (new k (n + 1)) = some item.2.2.inner
  entry : ∃ e, W.entry (new k (n + 1)) = some e ∧ item.2.2.prevVersion = e.prevVersion
  hash : item.2.1 = some (prefixHash hasher M k (n + 1)) ∨
    (item.2.1 = none ∧ ∀ node r, W.get (new k n) = some (.internal node) →
      node.children (nibble k n) = some r → r.hash = prefixHash hasher M k (n + 1))

theorem new_eq_of_bytes {k k' : Key} {n : ℕ} (h : (new k n).bytes = (new k' n).bytes) :
    new k n = new k' n := by
  have hcount : (new k n).nibbleCount = (new k' n).nibbleCount := by
    rw [Nibbles.nibbleCount_new, Nibbles.nibbleCount_new]
  cases h₁ : new k n
  cases h₂ : new k' n
  rw [h₁, h₂] at h hcount
  simp only at h hcount
  rw [h, hcount]

section Levels

variable {hasher : HashTree} {W : WorkingPatchSet} {M : Contents} {F : Nibbles → Option Node}
  {operation : Operation} {n : ℕ} {remaining : List Nibbles} {level : Level}

theorem LevelState.insert {k : Key} (h : LevelState hasher W M n (new k (n + 1) :: remaining) level)
    (hn : n < 64) {parent : WorkingNode} {r : ChildRef} {x : ValueHash}
    (hparent : level.lookup (new k n).bytes = some parent)
    (hinner : parent.inner = .internal inner) (hr : inner.children (nibble k n) = some r)
    (hx : x = prefixHash hasher M k (n + 1)) (hfresh : new k (n + 1) ∉ remaining) :
    LevelState hasher W M n remaining (level.insert (new k n).bytes
      { parent with
        inner := .internal (inner.insertChildRef (nibble k n) { r with hash := x }) }) := by
  set parent' : WorkingNode :=
    { parent with inner := .internal (inner.insertChildRef (nibble k n) { r with hash := x }) }
    with hparent'
  have hself : ∀ k', new k' n = new k n →
      (level.insert (new k n).bytes parent').lookup (new k' n).bytes = some parent' :=
    fun k' hpos => by rw [hpos, AList.lookup_insert]
  have hother : ∀ k', new k' n ≠ new k n →
      (level.insert (new k n).bytes parent').lookup (new k' n).bytes =
        level.lookup (new k' n).bytes := fun k' hpos =>
    AList.lookup_insert_ne fun hcon => hpos (new_eq_of_bytes hcon)
  refine ⟨fun bytes hne => ?_, fun k' e' he' => ?_, fun k' hne => ?_,
    fun k' e' inner' r' _ he' hinner' hr' hnot => ?_,
    fun k' e e' inner₀ inner' _ he he₀ he' hinner' hmem => ?_⟩
  · by_cases hbytes : bytes = (new k n).bytes
    · exact ⟨k, hbytes⟩
    · rw [AList.lookup_insert_ne hbytes] at hne
      exact h.valid bytes hne
  · by_cases hpos : new k' n = new k n
    · rw [hself k' hpos, Option.some.injEq] at he'
      obtain ⟨e, he, hprev, hbare⟩ := h.sound k parent hparent
      rw [← he', hpos]
      refine ⟨e, he, hprev, ?_⟩
      rw [← hbare, hinner]
      exact InternalNode.bare_insertChildRef hr x
    · rw [hother k' hpos] at he'
      exact h.sound k' e' he'
  · by_cases hpos : new k' n = new k n
    · rw [hself k' hpos]
      exact Option.some_ne_none _
    · rw [hother k' hpos]
      exact h.complete k' hne
  · by_cases hpos : new k' n = new k n
    · rw [hself k' hpos, Option.some.injEq] at he'
      rw [← he'] at hinner'
      cases hinner'
      by_cases hnibble : nibble k' n = nibble k n
      · -- the reference that has just been set
        rw [hnibble, InternalNode.children_insertChildRef_self, Option.some.injEq] at hr'
        rw [← hr', hx]
        rw [prefixHash, prefixHash,
          (new_eq_new_iff_prefixIndex hn).1 (new_succ hn hpos.symm hnibble.symm)]
      · rw [InternalNode.children_insertChildRef_of_ne _ _ hnibble] at hr'
        refine h.right k' parent inner r' hn (by rw [hpos]; exact hparent) hinner hr' ?_
        rw [List.mem_cons, not_or]
        exact ⟨fun hcon => hnibble (nibble_of_new (Nat.lt_succ_self n) hn hcon), hnot⟩
    · rw [hother k' hpos] at he'
      refine h.right k' e' inner' r' hn he' hinner' hr' ?_
      rw [List.mem_cons, not_or]
      exact ⟨fun hcon => hpos (new_mono (Nat.le_succ n) hn hcon), hnot⟩
  · by_cases hpos : new k' n = new k n
    · rw [hself k' hpos, Option.some.injEq] at he'
      rw [← he'] at hinner'
      cases hinner'
      have hnibble : nibble k' n ≠ nibble k n := by
        intro hcon
        rw [new_succ hn hpos hcon] at hmem
        exact hfresh hmem
      rw [InternalNode.children_insertChildRef_of_ne _ _ hnibble]
      exact h.kept k' e parent inner₀ inner hn he he₀ (by rw [hpos]; exact hparent) hinner
        (List.mem_cons_of_mem _ hmem)
    · rw [hother k' hpos] at he'
      exact h.kept k' e e' inner₀ inner' hn he he₀ he' hinner' (List.mem_cons_of_mem _ hmem)

theorem finalizeNode_eq (operation : Operation) {k : Key} (hn : n < 64) {parent : WorkingNode}
    {r : ChildRef} (hparent : level.lookup (new k n).bytes = some parent)
    (hinner : parent.inner = .internal inner) (hr : inner.children (nibble k n) = some r)
    (patched : NodeMap) (stale : List NodeKey) (nodeHash : Option ValueHash) (node : WorkingNode)
    {replaced : Bool}
    (hreplaced : (node.prevVersion.all fun prev => decide (prev < r.version)) = replaced) :
    finalizeNode operation (level, patched, stale)
      (new k (n + 1), nodeHash, node) =
      .ok (level.insert (new k n).bytes { parent with inner := .internal (inner.insertChildRef
          (nibble k n) { r with hash := nodeHash.getD r.hash }) },
        if replaced || decide (operation = .update) then
          patched.insert ((new k (n + 1)).withVersion r.version) node.inner else patched,
        if replaced then
          stale ++ (node.prevVersion.map fun prev => (new k (n + 1)).withVersion prev).toList
        else stale) := by
  subst hreplaced
  obtain ⟨nodeInner, prevVersion⟩ := node
  rw [finalizeNode]
  simp only [Nibbles.splitLast_new k hn, Outcome.unwrap_some, Outcome.ok_bind, hparent, hinner]
  rw [show inner.childRef (nibble k n) = some r from hr]
  simp only [Outcome.unwrap_some, Outcome.ok_bind]
  cases prevVersion with
  | none => cases nodeHash <;> simp
  | some prev => by_cases hlt : prev < r.version <;> cases nodeHash <;> simp [hlt]

variable {item : Nibbles × Option ValueHash × WorkingNode} {stale : List NodeKey}
  {patched : NodeMap} {nodeHash : ℕ → Node → Option ValueHash}

theorem finalizeNode_spec (hlinked : Linked W) (hn : n < 64) {k : Key}
    (hitem : ItemOk hasher W M F n item k)
    (hlevel : LevelState hasher W M n (item.1 :: remaining) level) (hfresh : item.1 ∉ remaining)
    (hpatched : Written operation W F patched n (item.1 :: remaining))
    (hstale : ∀ key ∈ stale, StaleIn W key) :
    ∃ level' patched' stale',
      finalizeNode operation (level, patched, stale) item =
        .ok (level', patched', stale') ∧
      LevelState hasher W M n remaining level' ∧ Written operation W F patched' n remaining ∧
      ∀ key ∈ stale', StaleIn W key := by
  obtain ⟨nibbles, nodeHash, node⟩ := item
  obtain rfl : nibbles = new k (n + 1) := hitem.position
  obtain ⟨e, he, hprev⟩ := hitem.entry
  have hget := get_eq_some.2 ⟨e, he, rfl⟩
  obtain ⟨e₀, node₀, r, he₀, hinner₀, hr₀, _⟩ := hlinked.parent k n e.inner hn hget
  have hget₀ := get_eq_some.2 ⟨e₀, he₀, hinner₀⟩
  -- the parent in the level above, with the reference as it was
  obtain ⟨parent, hparent⟩ := Option.ne_none_iff_exists'.1
    (hlevel.complete k (by rw [he₀]; exact Option.some_ne_none _))
  obtain ⟨e₀', he₀', _, hbare⟩ := hlevel.sound k parent hparent
  obtain rfl : e₀ = e₀' := Option.some.inj (he₀.symm.trans he₀')
  rw [hinner₀] at hbare
  obtain ⟨inner, hinner, _⟩ := Node.internal_of_bare_eq hbare
  have hr : inner.children (nibble k n) = some r := by
    rw [hlevel.kept k e₀ parent node₀ inner hn he₀ hinner₀ hparent hinner (List.mem_cons_self), hr₀]
  have hhash : nodeHash.getD r.hash = prefixHash hasher M k (n + 1) := by
    rcases hitem.hash with hsome | ⟨hnone, hright⟩
    · simp only at hsome
      rw [hsome]
      rfl
    · simp only at hnone
      rw [hnone]
      exact hright node₀ r hget₀ hr₀
  obtain ⟨replaced, hreplaced⟩ : ∃ replaced,
      (node.prevVersion.all fun prev => decide (prev < r.version)) = replaced := ⟨_, rfl⟩
  have hstep := finalizeNode_eq operation hn hparent hinner hr patched stale nodeHash node hreplaced
  refine ⟨_, _, _, hstep, hlevel.insert hn hparent hinner hr hhash hfresh, ?_, ?_⟩
  · intro k' j e' node' x hnj hj he' hget' hx hcond hnot
    have hother : new k' (j + 1) ≠ new k (n + 1) →
        (if replaced || decide (operation = .update) then
          patched.insert ((new k (n + 1)).withVersion r.version) node.inner
        else patched).lookup ⟨x.version, new k' (j + 1)⟩ = F (new k' (j + 1)) := by
      intro hpos
      have hlookup := hpatched k' j e' node' x hnj hj he' hget' hx hcond
        (by rw [List.mem_cons, not_or]; exact ⟨hpos, hnot⟩)
      split
      · rw [AList.lookup_insert_ne, hlookup]
        intro hcon
        exact hpos (congrArg NodeKey.nibbles hcon)
      · exact hlookup
    by_cases hpos : new k' (j + 1) = new k (n + 1)
    · obtain rfl : j = n := by
        have := new_level hpos
        omega
      have hpos' : new k' j = new k j := new_mono (Nat.le_succ j) hj hpos
      have hnibble : nibble k' j = nibble k j := nibble_of_new (Nat.lt_succ_self j) hj hpos
      rw [hpos', hget₀] at hget'
      cases hget'
      rw [hnibble, hr₀] at hx
      cases hx
      rw [hpos, he] at he'
      cases he'
      have hwritten : (replaced || decide (operation = .update)) = true := by
        rcases hcond with hupdate | hlt
        · rw [decide_eq_true hupdate, Bool.or_true]
        · have htrue : replaced = true := by
            rw [← hreplaced, hprev]
            cases hprev' : e.prevVersion with
            | none => rfl
            | some prev => exact decide_eq_true (hlt prev hprev')
          rw [htrue, Bool.true_or]
      rw [if_pos hwritten, hpos, hitem.node_eq]
      exact AList.lookup_insert _
    · exact hother hpos
  · intro key hkey
    cases replaced with
    | false => exact hstale key hkey
    | true =>
      rcases List.mem_append.1 hkey with hkey | hkey
      · exact hstale key hkey
      · rw [Option.mem_toList, Option.map_eq_some_iff] at hkey
        obtain ⟨prev, hprev', rfl⟩ := hkey
        rw [hprev'] at hreplaced
        refine .inr ⟨k, n, e, node₀, r, hn, he, hget₀, hr₀, rfl, ?_, of_decide_eq_true hreplaced⟩
        rw [← hprev, hprev']
        rfl

theorem finalizeNodes_spec (hlinked : Linked W) (hn : n < 64)
    (items : List (Nibbles × Option ValueHash × WorkingNode))
    (hitems : ∀ item ∈ items, ∃ k, ItemOk hasher W M F n item k)
    (hnodup : (items.map Prod.fst).Nodup)
    (hlevel : LevelState hasher W M n (items.map Prod.fst) level)
    (hpatched : Written operation W F patched n (items.map Prod.fst))
    (hstale : ∀ key ∈ stale, StaleIn W key) :
    ∃ level' patched' stale',
      items.foldlM (finalizeNode operation) (level, patched, stale) =
        .ok (level', patched', stale') ∧
      LevelState hasher W M n [] level' ∧ Written operation W F patched' n [] ∧
      ∀ key ∈ stale', StaleIn W key := by
  induction items generalizing level patched stale with
  | nil => exact ⟨level, patched, stale, rfl, hlevel, hpatched, hstale⟩
  | cons item items ih =>
    obtain ⟨k, hitem⟩ := hitems item (by simp)
    rw [List.map_cons, List.nodup_cons] at hnodup
    obtain ⟨level₁, patched₁, stale₁, hstep, hlevel₁, hpatched₁, hstale₁⟩ :=
      finalizeNode_spec hlinked hn hitem hlevel hnodup.1 hpatched hstale
    obtain ⟨level₂, patched₂, stale₂, hfold, hrest⟩ := ih
      (fun item' hmem => hitems item' (by simp [hmem])) hnodup.2 hlevel₁ hpatched₁ hstale₁
    refine ⟨level₂, patched₂, stale₂, ?_, hrest⟩
    rw [List.foldlM_cons, hstep, Outcome.ok_bind, hfold]

/-! ### All levels -/

/-- The nodes of a level, in some order, with the hashes that are computed for them. -/
def levelItems (iteration : WorkingPatchSet.IterationOrder) (nodeHash : ℕ → Node → Option ValueHash)
    (nibbleCount : ℕ) (levelChanges : Level) : List (Nibbles × Option ValueHash × WorkingNode) :=
  iteration.order (levelChanges.entries.map fun change =>
    (Nibbles.fromParts change.1 nibbleCount, nodeHash nibbleCount change.2.inner, change.2))

theorem mem_levelItems {iteration : WorkingPatchSet.IterationOrder} {level : Level} :
    item ∈ levelItems iteration nodeHash n level ↔
      ∃ bytes e, level.lookup bytes = some e ∧
        item = (⟨n, bytes⟩, nodeHash n e.inner, e) := by
  rw [levelItems, (iteration.perm _).mem_iff, List.mem_map]
  constructor
  · rintro ⟨⟨bytes, e⟩, hmem, rfl⟩
    exact ⟨bytes, e, AList.mem_lookup_iff.2 hmem, rfl⟩
  · rintro ⟨bytes, e, hlookup, rfl⟩
    exact ⟨⟨bytes, e⟩, AList.mem_lookup_iff.1 hlookup, rfl⟩

theorem nodup_levelItems (iteration : WorkingPatchSet.IterationOrder)
    (nodeHash : ℕ → Node → Option ValueHash) (n : ℕ) (level : Level) :
    ((levelItems iteration nodeHash n level).map Prod.fst).Nodup := by
  rw [levelItems, ((iteration.perm _).map Prod.fst).nodup_iff, List.map_map]
  have hkeys : level.entries.map (fun change => change.1) = level.keys := rfl
  have hmap : level.entries.map (Prod.fst ∘ fun change : (_ : NibblesBytes) × WorkingNode =>
      (Nibbles.fromParts change.1 n, nodeHash n change.2.inner, change.2)) =
      level.keys.map fun bytes => (⟨n, bytes⟩ : Nibbles) := by
    rw [← hkeys, List.map_map]
    rfl
  rw [hmap]
  refine level.keys_nodup.map fun b b' hb => ?_
  exact congrArg Nibbles.bytes hb

def FinalFrom (hasher : HashTree) (W : WorkingPatchSet) (M : Contents) (F : Nibbles → Option Node)
    (n : ℕ) : Prop :=
  ∀ k j e, n ≤ j → j ≤ 64 → W.entry (new k j) = some e → ∃ node, F (new k j) = some node ∧
    node.bare = e.inner.bare ∧ HashesRight hasher M k j node

def withLevel (F : Nibbles → Option Node) (n : ℕ) (level : Level) (q : Nibbles) : Option Node :=
  if q.nibbleCount = n then (level.lookup q.bytes).map WorkingNode.inner else F q

theorem withLevel_self (level : Level) (k : Key) :
    withLevel F n level (new k n) = (level.lookup (new k n).bytes).map WorkingNode.inner := by
  rw [withLevel, if_pos (Nibbles.nibbleCount_new _ _)]

theorem withLevel_of_ne (level : Level) (k : Key) {j : ℕ} (h : j ≠ n) :
    withLevel F n level (new k j) = F (new k j) := by
  rw [withLevel, if_neg (by rw [Nibbles.nibbleCount_new]; exact h)]

theorem LevelState.finalFrom (h : LevelState hasher W M n [] level) (hlinked : Linked W)
    (hfinal : FinalFrom hasher W M F (n + 1)) : FinalFrom hasher W M (withLevel F n level) n := by
  intro k j e hnj hj he
  rcases Nat.lt_or_eq_of_le hnj with hlt | rfl
  · obtain ⟨node, hnode, hrest⟩ := hfinal k j e hlt hj he
    exact ⟨node, by rw [withLevel_of_ne _ _ (by omega), hnode], hrest⟩
  · obtain ⟨e', he'⟩ := Option.ne_none_iff_exists'.1
      (h.complete k (by rw [he]; exact Option.some_ne_none _))
    obtain ⟨e₀, he₀, _, hbare⟩ := h.sound k e' he'
    obtain rfl : e = e₀ := Option.some.inj (he.symm.trans he₀)
    refine ⟨e'.inner, by rw [withLevel_self, he']; rfl, hbare,
      fun inner hinner key' r hpos hr => ?_⟩
    have hlt : n < 64 := by
      rw [hinner] at hbare
      obtain ⟨inner₀, hinner₀, _⟩ := Node.internal_of_bare_eq hbare.symm
      exact hlinked.internal_lt k n inner₀ hj (get_eq_some.2 ⟨e, he, hinner₀⟩)
    exact h.right key' e' inner r hlt (by rw [hpos]; exact he') hinner hr (List.not_mem_nil)

variable (hasher W M) in
/-- References to nodes that are not loaded have their hashes. -/
def RefsHashed : Prop :=
  ∀ k n e inner r, n < 64 → W.entry (new k n) = some e → e.inner = .internal inner →
    inner.children (nibble k n) = some r → W.entry (new k (n + 1)) = none →
    r.hash = prefixHash hasher M k (n + 1)

theorem levelState_original (hlinked : Linked W) (hrefs : RefsHashed hasher W M)
    (hlevel : W.changesByNibbleCount[n]? = some level)
    (hremaining : ∀ k, n < 64 → W.entry (new k (n + 1)) ≠ none → new k (n + 1) ∈ remaining) :
    LevelState hasher W M n remaining level := by
  have hentry : ∀ bytes, W.entry ⟨n, bytes⟩ = level.lookup bytes := fun bytes => by
    rw [WorkingPatchSet.entry, hlevel]
    rfl
  have hnew : ∀ k, W.entry (new k n) = level.lookup (new k n).bytes := fun k => hentry _
  refine ⟨fun bytes hne => ?_, fun k e' he' => ⟨e', by rw [hnew]; exact he', rfl, rfl⟩,
    fun k hne => by rw [← hnew]; exact hne, fun k e' inner r hn he' hinner hr hnot => ?_,
    fun k e e' inner inner' _ he hinner he' hinner' _ => ?_⟩
  · rw [← hentry] at hne
    obtain ⟨k, m, _, hpos⟩ := hlinked.valid _ hne
    have hcount := congrArg Nibbles.nibbleCount hpos
    subst hcount
    exact ⟨k, congrArg Nibbles.bytes hpos⟩
  · rw [← hnew] at he'
    refine hrefs k n e' inner r hn he' hinner hr ?_
    by_contra hne
    exact hnot (hremaining k hn hne)
  · rw [hnew, he'] at he
    cases he
    cases hinner.symm.trans hinner'
    rfl

/-- What a finished version is: the table of its nodes, and what the patch has of them. -/
structure Finalized (hasher : HashTree) (operation : Operation) (W : WorkingPatchSet) (M : Contents)
    (F : Nibbles → Option Node) (root : Root) (nodes : NodeMap) (stale : List NodeKey) : Prop where
  final : FinalFrom hasher W M F 0
  root_eq : root.node = F .empty
  written : Written operation W F nodes 0 []
  stale : ∀ key ∈ stale, StaleIn W key

/-- How the hash of a node is found: it is computed, or the reference to the node has it. -/
def NodeHashOk (hasher : HashTree) (W : WorkingPatchSet) (M : Contents)
    (nodeHash : ℕ → Node → Option ValueHash) : Prop :=
  ∀ k n e node, n < 64 → W.entry (new k (n + 1)) = some e → node.bare = e.inner.bare →
    HashesRight hasher M k (n + 1) node →
    nodeHash (n + 1) node = some (prefixHash hasher M k (n + 1)) ∨
      (nodeHash (n + 1) node = none ∧ ∀ inner r, W.get (new k n) = some (.internal inner) →
        inner.children (nibble k n) = some r → r.hash = prefixHash hasher M k (n + 1))

theorem entries_root (h : LevelState hasher W M 0 remaining level) (hroot : W.entry .empty ≠ none) :
    ∃ e', level.entries = [⟨Nibbles.empty.bytes, e'⟩] ∧
      level.lookup Nibbles.empty.bytes = some e' := by
  have hempty : ∀ k, new k 0 = .empty := Nibbles.new_zero
  obtain ⟨e', he'⟩ := Option.ne_none_iff_exists'.1
    (h.complete 0 (by rw [hempty]; exact hroot))
  rw [hempty] at he'
  refine ⟨e', ?_, he'⟩
  have hall : ∀ x ∈ level.entries, x = ⟨Nibbles.empty.bytes, e'⟩ := by
    rintro ⟨bytes, e⟩ hmem
    have hlookup : level.lookup bytes = some e := AList.mem_lookup_iff.2 hmem
    obtain ⟨k, hbytes⟩ := h.valid bytes (by rw [hlookup]; exact Option.some_ne_none _)
    rw [hempty] at hbytes
    subst hbytes
    rw [he', Option.some.injEq] at hlookup
    rw [hlookup]
  have hmem : (⟨Nibbles.empty.bytes, e'⟩ : (_ : NibblesBytes) × WorkingNode) ∈ level.entries :=
    AList.mem_lookup_iff.1 he'
  -- the keys are distinct, so that the only entry is there once
  have hnodup : level.entries.Nodup := level.nodupKeys.nodup
  cases hentries : level.entries with
  | nil =>
    rw [hentries] at hmem
    cases hmem
  | cons x rest =>
    rw [hentries] at hall hnodup
    have hx := hall x (by simp)
    cases rest with
    | nil => rw [hx]
    | cons y rest =>
      have hy := hall y (by simp)
      rw [List.nodup_cons] at hnodup
      exact absurd (by rw [hx, ← hy]; simp) hnodup.1

theorem finalizeLevels_spec (hlinked : Linked W) (hrefs : RefsHashed hasher W M)
    (iteration : WorkingPatchSet.IterationOrder) (hnodeHash : NodeHashOk hasher W M nodeHash)
    (rootVersion : ℕ) (manifest : Manifest)
    {leafCount : ℕ} (hleafCount : 0 < leafCount) (operation : Operation)
    (hroot : W.entry .empty ≠ none) (uppers : List Level)
    (huppers : ∀ i < uppers.length, W.changesByNibbleCount[i]? = uppers.reverse[i]?)
    (hlevel : LevelState hasher W M uppers.length [] level)
    (hfinal : FinalFrom hasher W M F (uppers.length + 1))
    (hpatched : Written operation W F patched uppers.length [])
    (hstale : ∀ key ∈ stale, StaleIn W key) :
    ∃ F' node nodes stale', finalizeLevels rootVersion manifest leafCount operation
        (levelItems iteration nodeHash) level patched stale uppers =
        .ok (nodeHash 0 node, .new manifest rootVersion (.filled ⟨leafCount, hleafCount⟩ node) nodes
          stale' operation) ∧
      Finalized hasher operation W M F' (.filled ⟨leafCount, hleafCount⟩ node) nodes stale' := by
  induction uppers generalizing level F patched stale with
  | nil =>
    rw [List.length_nil] at hlevel hfinal hpatched
    obtain ⟨e', hentries, hlookup⟩ := entries_root hlevel hroot
    have hitems : levelItems iteration nodeHash 0 level = [(.empty, nodeHash 0 e'.inner, e')] := by
      have hperm := iteration.perm (level.entries.map fun change =>
        (Nibbles.fromParts change.1 0, nodeHash 0 change.2.inner, change.2))
      rw [hentries] at hperm
      rw [levelItems, hentries]
      exact List.perm_singleton.1 hperm
    obtain ⟨e, he, hprev, _⟩ := hlevel.sound 0 e' (by rw [Nibbles.new_zero]; exact hlookup)
    -- the previous root is stale, too
    obtain ⟨stale', hstale', hold⟩ : ∃ stale', (if operation = .insert then
        e'.prevVersion.elim stale fun prev => stale ++ [Nibbles.empty.withVersion prev]
        else stale) = stale' ∧ ∀ key ∈ stale', StaleIn W key := by
      refine ⟨_, rfl, fun key hkey => ?_⟩
      cases hprev' : e'.prevVersion <;> rw [hprev'] at hkey <;> split at hkey <;>
        try exact hstale key hkey
      rcases List.mem_append.1 hkey with hkey | hkey
      · exact hstale key hkey
      · rw [List.mem_singleton] at hkey
        subst hkey
        exact .inl ⟨e, he, rfl, by rw [← hprev, hprev']; rfl⟩
    refine ⟨withLevel F 0 level, e'.inner, patched, stale', ?_, hlevel.finalFrom hlinked hfinal, ?_,
      ?_, hold⟩
    · rw [finalizeLevels, hitems]
      subst hstale'
      simp only [Root.new, dif_pos hleafCount]
      cases operation <;> cases e'.prevVersion <;> rfl
    · have hself := withLevel_self (F := F) (n := 0) level 0
      rw [Nibbles.new_zero, hlookup] at hself
      exact hself.symm
    · intro k j e₁ node r hj hj64 he₁ hnode hr hcond hnot
      exact hpatched k j e₁ node r hj hj64 he₁ hnode hr hcond hnot
  | cons upper uppers ih =>
    rw [List.length_cons] at hlevel hfinal hpatched huppers
    have hupper : W.changesByNibbleCount[uppers.length]? = some upper := by
      rw [huppers uppers.length (Nat.lt_succ_self _), List.reverse_cons,
        List.getElem?_append_right (by rw [List.length_reverse]), List.length_reverse, Nat.sub_self]
      rfl
    have hbefore : ∀ i < uppers.length, W.changesByNibbleCount[i]? = uppers.reverse[i]? :=
      fun i hi => by
        rw [huppers i (by omega), List.reverse_cons,
          List.getElem?_append_left (by rw [List.length_reverse]; exact hi)]
    have hfinal' := hlevel.finalFrom hlinked hfinal
    rw [finalizeLevels]
    by_cases hlt : uppers.length < 64
    rotate_left
    · -- there are no nodes that deep
      have hnil : levelItems iteration nodeHash (uppers.length + 1) level = [] := by
        rw [List.eq_nil_iff_forall_not_mem]
        intro item hmem
        obtain ⟨bytes, e', he', _⟩ := mem_levelItems.1 hmem
        obtain ⟨k, rfl⟩ := hlevel.valid bytes (by rw [he']; exact Option.some_ne_none _)
        obtain ⟨e, he, _⟩ := hlevel.sound k e' he'
        obtain ⟨k', m, hm, hpos⟩ := hlinked.valid _ (by rw [he]; exact Option.some_ne_none _)
        have := new_level hpos
        omega
      rw [hnil]
      refine ih hbefore (levelState_original hlinked hrefs hupper fun k hcon => absurd hcon hlt)
        hfinal' (fun k j e node r hj hj64 => absurd hj64 (by omega)) hstale
    -- the positions of the level are those of the working patch set
    have hposition : ∀ k, W.entry (new k (uppers.length + 1)) ≠ none →
        new k (uppers.length + 1) ∈ (levelItems iteration nodeHash (uppers.length + 1) level).map
          Prod.fst := by
      intro k hne
      obtain ⟨e', he'⟩ := Option.ne_none_iff_exists'.1 (hlevel.complete k hne)
      exact List.mem_map.2 ⟨_, mem_levelItems.2 ⟨_, e', he', rfl⟩, rfl⟩
    have hitems : ∀ item ∈ levelItems iteration nodeHash (uppers.length + 1) level,
        ∃ k, ItemOk hasher W M (withLevel F (uppers.length + 1) level) uppers.length item k := by
      intro item hmem
      obtain ⟨bytes, e', he', rfl⟩ := mem_levelItems.1 hmem
      obtain ⟨k, rfl⟩ := hlevel.valid bytes (by rw [he']; exact Option.some_ne_none _)
      obtain ⟨e, he, hprev, hbare⟩ := hlevel.sound k e' he'
      have hself := withLevel_self (F := F) (n := uppers.length + 1) level k
      rw [he'] at hself
      obtain ⟨node, hnode, _, hright⟩ := hfinal' k _ e le_rfl hlt he
      rw [hself] at hnode
      cases hnode
      exact ⟨k, rfl, hself, ⟨e, he, hprev⟩,
        hnodeHash k uppers.length e e'.inner hlt he hbare hright⟩
    have hwritten : Written operation W (withLevel F (uppers.length + 1) level) patched
        uppers.length ((levelItems iteration nodeHash (uppers.length + 1) level).map Prod.fst) := by
      intro k j e node r hj hj64 he hnode hr hcond hnot
      have hne : j ≠ uppers.length := by
        rintro rfl
        exact hnot (hposition k (by rw [he]; exact Option.some_ne_none _))
      rw [withLevel_of_ne _ _ (by omega)]
      exact hpatched k j e node r (by omega) hj64 he hnode hr hcond (List.not_mem_nil)
    obtain ⟨level', patched', stale', hfold, hlevel', hpatched', hstale'⟩ := finalizeNodes_spec
      hlinked hlt _ hitems (nodup_levelItems iteration nodeHash _ level)
      (levelState_original hlinked hrefs hupper fun k _ => hposition k)
      hwritten hstale
    simp only [hfold, Outcome.ok_bind]
    exact ih hbefore hlevel' hfinal' hpatched' hstale'

theorem finalizeInner_spec (hlinked : Linked W) (hrefs : RefsHashed hasher W M)
    (iteration : WorkingPatchSet.IterationOrder) (hnodeHash : NodeHashOk hasher W M nodeHash)
    (manifest : Manifest) {leafCount : ℕ}
    (hleafCount : 0 < leafCount) (operation : Operation) (hroot : W.entry .empty ≠ none) :
    ∃ F node nodes stale, W.finalizeInner manifest leafCount operation
        (levelItems iteration nodeHash) =
        .ok (nodeHash 0 node, .new manifest W.rootVersion (.filled ⟨leafCount, hleafCount⟩ node)
          nodes stale operation) ∧
      Finalized hasher operation W M F (.filled ⟨leafCount, hleafCount⟩ node) nodes stale := by
  obtain ⟨e, he⟩ := Option.ne_none_iff_exists'.1 hroot
  rw [WorkingPatchSet.entry, Option.bind_eq_some_iff] at he
  obtain ⟨level₀, hlevel₀, hlookup₀⟩ := he
  -- the root is loaded, so the patch set is not empty
  have hsum : (W.changesByNibbleCount.map fun level => level.entries.length).sum ≠ 0 := by
    intro hzero
    have hmem : level₀.entries.length ∈
        W.changesByNibbleCount.map fun level : Level => level.entries.length :=
      List.mem_map.2 ⟨level₀, List.mem_of_getElem? hlevel₀, rfl⟩
    have hlength := List.sum_eq_zero_iff.1 hzero _ hmem
    have hentry := AList.mem_lookup_iff.1 hlookup₀
    rw [List.eq_nil_of_length_eq_zero hlength] at hentry
    cases hentry
  rw [finalizeInner, if_neg hsum]
  cases hlevels : W.changesByNibbleCount.reverse with
  | nil =>
    rw [List.reverse_eq_nil_iff] at hlevels
    rw [hlevels] at hlevel₀
    cases hlevel₀
  | cons level uppers =>
    have hall : W.changesByNibbleCount = uppers.reverse ++ [level] := by
      rw [← List.reverse_reverse W.changesByNibbleCount, hlevels, List.reverse_cons]
    have hlast : W.changesByNibbleCount[uppers.length]? = some level := by
      rw [hall, List.getElem?_append_right (by rw [List.length_reverse]), List.length_reverse,
        Nat.sub_self]
      rfl
    -- below the last level there is nothing to do
    have hnone : ∀ k j, uppers.length < j → W.entry (new k j) = none := by
      intro k j hj
      rw [WorkingPatchSet.entry, Nibbles.nibbleCount_new, hall, List.getElem?_eq_none]
      · rfl
      · rw [List.length_append, List.length_reverse, List.length_singleton]
        exact hj
    refine finalizeLevels_spec hlinked hrefs iteration hnodeHash W.rootVersion manifest hleafCount
      operation hroot uppers (fun i hi => ?_)
      (levelState_original hlinked hrefs hlast fun k _ hne =>
        absurd (hnone k _ (Nat.lt_succ_self _)) hne)
      (F := fun _ => none) (fun k j e hj _ he => ?_) (fun k j e node r hj _ he => ?_)
      (fun key hkey => by cases hkey)
    · rw [hall, List.getElem?_append_left (by rw [List.length_reverse]; exact hi)]
    · rw [hnone k j hj] at he
      cases he
    · rw [hnone k (j + 1) (by omega)] at he
      cases he

theorem finalizeInner_empty (hlinked : Linked W) (manifest : Manifest) (leafCount : ℕ)
    (operation : Operation)
    (mapLevelChanges : ℕ → Level → List (Nibbles × Option ValueHash × WorkingNode))
    (hroot : W.entry .empty = none) :
    W.finalizeInner manifest leafCount operation mapLevelChanges =
      .ok (none, .forEmptyRoot manifest W.rootVersion) := by
  -- without a root there is no node at all
  have hnone : ∀ k n, n ≤ 64 → W.entry (new k n) = none := by
    intro k n hn
    induction n with
    | zero => rw [Nibbles.new_zero, hroot]
    | succ n ih =>
      by_contra hne
      obtain ⟨e, he⟩ := Option.ne_none_iff_exists'.1 hne
      obtain ⟨e₀, _, _, he₀, _⟩ := hlinked.parent k n e.inner hn
        (get_eq_some.2 ⟨e, he, rfl⟩)
      rw [ih (by omega)] at he₀
      cases he₀
  have hlevels : ∀ level ∈ W.changesByNibbleCount, level.entries.length = 0 := by
    intro level hmem
    obtain ⟨n, hn⟩ := List.getElem?_of_mem hmem
    rw [List.length_eq_zero_iff, List.eq_nil_iff_forall_not_mem]
    rintro ⟨bytes, e⟩ hentry
    have hlookup : W.entry ⟨n, bytes⟩ = some e := by
      rw [WorkingPatchSet.entry, hn]
      exact AList.mem_lookup_iff.2 hentry
    obtain ⟨k, m, hm, hpos⟩ := hlinked.valid _ (by rw [hlookup]; exact Option.some_ne_none _)
    rw [hpos, hnone k m hm] at hlookup
    cases hlookup
  rw [finalizeInner, if_pos]
  rw [List.sum_eq_zero_iff]
  intro x hx
  obtain ⟨level, hmem, rfl⟩ := List.mem_map.1 hx
  exact hlevels level hmem

end Levels

/-! ### The new version -/

/-- The table of a finished version: the nodes of the working patch set as they are read back, and
those that have not been loaded. -/
def finalTable (W : WorkingPatchSet) (B F : Nibbles → Option Node) (q : Nibbles) : Option Node :=
  match W.entry q with
  | some _ => (F q).map Node.clone
  | none => B q

section Version

variable {DB : Type} [Database DB] {db : DB} {hasher : HashTree} {operation : Operation}
  {B F : Nibbles → Option Node} {loaded : Key → Prop} {W : WorkingPatchSet} {M : Contents}
  {root : Root} {nodes : NodeMap} {stale : List NodeKey} {k : Key} {n : ℕ}

variable (h : Working db hasher operation B loaded W M)

include h in
theorem Working.linked : Linked W := by
  refine ⟨h.valid, fun k n x hn hx => ?_, fun k n node hn hnode => ?_⟩
  · have hview : view W B (new k (n + 1)) = some x := by rw [view, hx]; rfl
    obtain ⟨e, he, _⟩ := get_eq_some.1 hx
    obtain ⟨e₀, he₀⟩ := Option.ne_none_iff_exists'.1
      (h.closed k n hn (by rw [he]; exact Option.some_ne_none _))
    obtain ⟨node, hnode⟩ := h.wellFormed.parent hn (by rw [hview]; exact Option.some_ne_none _)
    obtain ⟨r, hr, hkind⟩ := h.wellFormed.exists_ref hn hnode hview
    rw [view_of_entry he₀, Option.some.injEq] at hnode
    exact ⟨e₀, node, r, he₀, hnode, hr, hkind⟩
  · exact h.wellFormed.internal_lt hn (by rw [view, hnode]; rfl)

variable {node : InternalNode} {r : ChildRef}

include h in
theorem Working.hash_of_unloaded (hn : n < 64) (hnode : view W B (new k n) = some (.internal node))
    (hr : node.children (nibble k n) = some r) (hnone : W.entry (new k (n + 1)) = none) :
    r.hash = prefixHash hasher M k (n + 1) := by
  rcases h.refs k n node r hn hnode hr with hfresh | hsettled
  · obtain ⟨e, he, _⟩ := hfresh.entry
    cases hnone.symm.trans he
  · exact hsettled.hash_eq

include h in
theorem Working.nodeHashOk (hlaw : hasher.Lawful) :
    NodeHashOk hasher W M fun n node => some (node.hash hasher (n * 4)) := by
  intro k n e node hn he hbare hright
  refine .inl (congrArg some ?_)
  exact Node.hash_eq_prefixHash hlaw h.wellFormed h.represents hn (view_of_entry he)
    (Node.shape_of_bare_eq hbare) hright

theorem finalTable_of_entry (hfinal : Finalized hasher operation W M F root nodes stale)
    (hn : n ≤ 64) {e : WorkingNode} (he : W.entry (new k n) = some e) :
    ∃ node, F (new k n) = some node ∧ finalTable W B F (new k n) = some node.clone ∧
      node.bare = e.inner.bare ∧ HashesRight hasher M k n node := by
  obtain ⟨node, hnode, hbare, hright⟩ := hfinal.final k n e (Nat.zero_le n) hn he
  exact ⟨node, hnode, by rw [finalTable, he, hnode]; rfl, hbare, hright⟩

theorem finalTable_of_none {q : Nibbles} (h : W.entry q = none) : finalTable W B F q = B q := by
  rw [finalTable, h]

section

variable (hfinal : Finalized hasher operation W M F root nodes stale)
include hfinal

theorem Finalized.shapeOf_eq (hlinked : Linked W) :
    shapeOf (finalTable W B F) = shapeOf (view W B) := by
  funext q
  cases he : W.entry q with
  | none => rw [shapeOf, shapeOf, finalTable_of_none he, view_of_none he]
  | some e =>
    obtain ⟨k, n, hn, rfl⟩ := hlinked.valid q (by rw [he]; exact Option.some_ne_none _)
    obtain ⟨node, _, htable, hbare, _⟩ := finalTable_of_entry (B := B) hfinal hn he
    rw [shapeOf, shapeOf, htable, view_of_entry he, Option.map_some, Option.map_some,
      Node.shape_clone, Node.shape_of_bare_eq hbare]

include h

theorem Finalized.ref (hn : n < 64) {node' : InternalNode} {r' : ChildRef}
    (hnode' : finalTable W B F (new k n) = some (.internal node'))
    (hr' : node'.children (nibble k n) = some r') :
    ∃ node r, view W B (new k n) = some (.internal node) ∧ node.children (nibble k n) = some r ∧
      r'.version = r.version ∧ r'.isLeaf = r.isLeaf ∧
      r'.hash = prefixHash hasher M k (n + 1) := by
  cases he : W.entry (new k n) with
  | none =>
    rw [finalTable_of_none he] at hnode'
    have hview : view W B (new k n) = some (.internal node') := by rw [view_of_none he, hnode']
    refine ⟨node', r', hview, hr', rfl, rfl, h.hash_of_unloaded hn hview hr' ?_⟩
    by_contra hne
    exact h.closed k n hn hne he
  | some e =>
    obtain ⟨node₁, _, htable, hbare, hright⟩ := finalTable_of_entry (B := B) hfinal hn.le he
    rw [htable, Option.some.injEq] at hnode'
    have hbare' : (Node.internal node').bare = e.inner.bare := by
      rw [← hnode', Node.bare_clone, hbare]
    obtain ⟨inner, hinner, _⟩ := Node.internal_of_bare_eq hbare'.symm
    rw [hinner] at hbare'
    obtain ⟨r, hr, hversion, hleaf⟩ := Node.ref_of_bare_eq hbare' hr'
    refine ⟨inner, r, by rw [view_of_entry he, hinner], hr, hversion, hleaf, ?_⟩
    exact hright.clone node' hnode' k r' rfl hr'

theorem Finalized.fresh (hn : n < 64) (hnode : view W B (new k n) = some (.internal node))
    (hr : node.children (nibble k n) = some r) (hfresh : Fresh operation W k n r) :
    ∃ x, nodes.lookup ⟨r.version, new k (n + 1)⟩ = some x ∧
      finalTable W B F (new k (n + 1)) = some x.clone ∧ x.isLeaf = r.isLeaf := by
  obtain ⟨e, he, hprev⟩ := hfresh.entry
  obtain ⟨e₀, he₀⟩ := Option.ne_none_iff_exists'.1
    (h.closed k n hn (by rw [he]; exact Option.some_ne_none _))
  have hget : W.get (new k n) = some (.internal node) := by
    rw [view_of_entry he₀] at hnode
    exact get_eq_some.2 ⟨e₀, he₀, Option.some.inj hnode⟩
  obtain ⟨x, hx, htable, hbare, _⟩ := finalTable_of_entry (B := B) hfinal hn he
  refine ⟨x, ?_, htable, ?_⟩
  · rw [hfinal.written k n e node r (Nat.zero_le n) hn he hget hr ?_ (List.not_mem_nil), hx]
    cases operation with
    | update => exact .inl rfl
    | insert =>
      rw [hfresh.version_eq]
      exact .inr fun prev => hprev rfl prev
  · obtain ⟨y, hy, hkind⟩ := h.wellFormed.exists_child hn hnode hr
    rw [view_of_entry he, Option.some.injEq] at hy
    rw [Node.isLeaf_of_bare_eq hbare, hy, hkind]

theorem Finalized.settled (hclone : ∀ q node, B q = some node → node.clone = node) (hn : n < 64)
    (hnode : view W B (new k n) = some (.internal node)) (hr : node.children (nibble k n) = some r)
    (hsettled : Settled db hasher operation W B M k n r) :
    Database.treeNode db ⟨r.version, new k (n + 1)⟩ r.isLeaf =
      finalTable W B F (new k (n + 1)) := by
  rw [hsettled.node_eq]
  cases he : W.entry (new k (n + 1)) with
  | none =>
    rw [finalTable_of_none he, view_of_none he]
    cases hchild : B (new k (n + 1)) with
    | none => rfl
    | some child => rw [Option.map_some, hclone _ child hchild]
  | some e =>
    obtain ⟨hoperation, _⟩ := hsettled.entry e he
    obtain ⟨x, _, htable, hbare, hright⟩ := finalTable_of_entry (B := B) hfinal hn he
    rw [htable, view_of_entry he, Option.map_some, Option.some.injEq]
    cases hkind : e.inner with
    | leaf leaf =>
      rw [hkind] at hbare
      cases x with
      | leaf leaf' => exact hbare.symm
      | internal inner => cases hbare
    | internal inner =>
      -- no reference of the node is fresh, so that all of them had the right hashes before
      have hlt : n + 1 < 64 := h.wellFormed.internal_lt hn (by rw [view_of_entry he, hkind])
      rw [← hkind]
      refine (Node.clone_eq_of_bare_eq hlt hbare (fun inner' hinner' key' r' hpos hr' => ?_)
        hright).symm
      have hview : view W B (new key' (n + 1)) = some (.internal inner') := by
        rw [hpos, view_of_entry he, hinner']
      rcases h.refs key' (n + 1) inner' r' hlt hview hr' with hfresh | hsettled'
      · have hpos' : new key' n = new k n := new_mono (Nat.le_succ n) hn hpos
        have hnibble : nibble key' n = nibble k n := nibble_of_new (Nat.lt_succ_self n) hn hpos
        have hversion := h.upward hoperation key' n node inner' r r' hlt
          (by rw [hpos']; exact hnode) (by rw [hnibble]; exact hr) hview hr' hfresh.version_eq
        exact absurd hversion (hsettled.version_lt hoperation).ne
      · exact hsettled'.hash_eq

theorem Finalized.stored_of {DB' : Type} [Database DB'] {db' : DB'} {version : ℕ}
    (hclone : ∀ q node, B q = some node → node.clone = node)
    (hfind : ∀ k n node r, n < 64 → view W B (new k n) = some (.internal node) →
      node.children (nibble k n) = some r → r.version ≤ version ∧
        Database.treeNode db' ⟨r.version, new k (n + 1)⟩ r.isLeaf =
          finalTable W B F (new k (n + 1))) : Stored db' hasher version (finalTable W B F) M := by
  have hshape := hfinal.shapeOf_eq (B := B) h.linked
  refine ⟨?_, ?_, fun q node hq => ?_, fun k n node' r' hn hnode' hr' => ?_,
    fun k n node' r' hn hnode' hr' => ?_⟩
  · rw [WellFormed, hshape]
    exact h.wellFormed
  · rw [Represents, hshape]
    exact h.represents
  · cases he : W.entry q with
    | none =>
      rw [finalTable_of_none he] at hq
      exact hclone q node hq
    | some e =>
      rw [finalTable, he, Option.map_eq_some_iff] at hq
      obtain ⟨x, _, rfl⟩ := hq
      exact x.clone_clone
  · obtain ⟨_, _, _, _, _, _, hhash⟩ := hfinal.ref h hn hnode' hr'
    exact hhash
  · obtain ⟨node, r, hnode, hr, hversion, hleaf, _⟩ := hfinal.ref h hn hnode' hr'
    rw [hversion, hleaf]
    exact hfind k n node r hn hnode hr

omit h

end

theorem Finalized.stored (hfinal : Finalized hasher .insert W M F root nodes stale)
    (h : Working db hasher .insert B loaded W M)
    (hclone : ∀ q node, B q = some node → node.clone = node) {db' : DB} {manifest : Manifest}
    (hext : Database.Extended db db' manifest W.rootVersion root nodes) :
    Stored db' hasher W.rootVersion (finalTable W B F) M := by
  refine hfinal.stored_of h hclone fun k n node r hn hnode hr => ?_
  rcases h.refs k n node r hn hnode hr with hfresh | hsettled
  · obtain ⟨x, hlookup, htable, hkind⟩ := hfinal.fresh h hn hnode hr hfresh
    have hnode' := hext.node _ x hfresh.version_eq hlookup
    rw [hkind] at hnode'
    exact ⟨hfresh.version_eq.le, hnode'.trans htable.symm⟩
  · refine ⟨hsettled.version_le, ?_⟩
    rw [hext.olderNode _ _ (hsettled.version_lt rfl)]
    exact hfinal.settled h hclone hn hnode hr hsettled

/-- A key of a node that a version does not use: in the version the reference to the position has
the version itself. -/
def Outdated (B : Nibbles → Option Node) (version : ℕ) (key : NodeKey) : Prop :=
  key.version < version ∧ (key.nibbles = .empty ∨ ∃ k j, j < 64 ∧ key.nibbles = new k (j + 1) ∧
    ∀ node r, B (new k j) = some (.internal node) → node.children (nibble k j) = some r →
      r.version = version)

theorem Finalized.outdated (hfinal : Finalized hasher .insert W M F root nodes stale)
    (h : Working db hasher .insert B loaded W M) {key : NodeKey} (hkey : key ∈ stale) :
    Outdated (finalTable W B F) W.rootVersion key := by
  rcases hfinal.stale key hkey with ⟨e, he, hempty, hprev⟩ |
    ⟨k, j, e, node, r, hj, he, hget, hr, hpos, hprev, hlt⟩
  · exact ⟨h.rootPrev rfl e key.version he hprev, .inl hempty⟩
  · have hview : view W B (new k j) = some (.internal node) := by rw [view, hget]; rfl
    have hversion : r.version = W.rootVersion := by
      rcases h.refs k j node r hj hview hr with hfresh | hsettled
      · exact hfresh.version_eq
      · have heq := (hsettled.entry e he).2
        rw [hprev, Option.some.injEq] at heq
        exact absurd heq hlt.ne
    refine ⟨hversion ▸ hlt, .inr ⟨k, j, hj, hpos, fun node' r' hnode' hr' => ?_⟩⟩
    obtain ⟨node₁, r₁, hnode₁, hr₁, hversion', _⟩ := hfinal.ref h hj hnode' hr'
    rw [hview, Option.some.injEq, Node.internal.injEq] at hnode₁
    subst hnode₁
    rw [hr, Option.some.injEq] at hr₁
    rw [hversion', ← hr₁, hversion]

end Version

end MerkleTree
