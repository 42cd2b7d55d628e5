/-
Changing a path of the state tree.

An insertion descends along the key, changes what is at the end of the descent, and gives the
references on the way the new version.

* `Working.edited` — such a change keeps the working patch set in order.
-/
import Mathlib
import ViaCore.TreeView

namespace MerkleTree

open Nibbles (new nibble)

section Positions

variable {k k' : Key} {m n j : ℕ}

theorem new_mono (hmn : m ≤ n) (hn : n ≤ 64) (h : new k n = new k' n) : new k m = new k' m :=
  nibbleDigits.pos_mono hmn hn h

theorem nibble_of_new (hmn : m < n) (hn : n ≤ 64) (h : new k n = new k' n) :
    nibble k m = nibble k' m :=
  nibbleDigits.digit_eq_of_pos hmn hn h

theorem new_succ (hn : n < 64) (h : new k n = new k' n) (hnibble : nibble k n = nibble k' n) :
    new k (n + 1) = new k' (n + 1) :=
  nibbleDigits.pos_succ hn h hnibble

theorem new_level (h : new k m = new k' n) : m = n :=
  congrArg Nibbles.nibbleCount h

theorem new_ne (h : m ≠ n) : new k m ≠ new k' n := fun hcon => h (new_level hcon)

def OnPath (k : Key) (n : ℕ) (k' : Key) (j : ℕ) : Prop := j < n ∧ new k' j = new k j

def Under (k : Key) (n : ℕ) (k' : Key) (j : ℕ) : Prop := n ≤ j ∧ new k' n = new k n

theorem under_or_onPath_of_new (hj : j < 64) (h : new k' (j + 1) = new k (j + 1)) :
    Under k n k' j ∨ (OnPath k n k' j ∧ nibble k' j = nibble k j) := by
  rcases Nat.lt_or_ge j n with hlt | hge
  · exact .inr ⟨⟨hlt, new_mono (Nat.le_succ j) hj h⟩, nibble_of_new (Nat.lt_succ_self j) hj h⟩
  · exact .inl ⟨hge, new_mono (by omega) hj h⟩

theorem under_or_onPath_of_succ (hj : j < 64) (h : OnPath k n k' (j + 1) ∨ Under k n k' (j + 1)) :
    Under k n k' j ∨ (OnPath k n k' j ∧ nibble k' j = nibble k j) := by
  rcases h with ⟨_, h⟩ | ⟨hle, h⟩
  · exact under_or_onPath_of_new hj h
  · rcases Nat.lt_or_ge j n with hlt | hge
    · obtain rfl : n = j + 1 := by omega
      exact under_or_onPath_of_new hj h
    · exact .inl ⟨hge, h⟩

end Positions

variable {r : ChildRef} {node : InternalNode}

theorem InternalNode.insertChildRef_of_eq {c : Nibble} (h : node.children c = some r) :
    node.insertChildRef c r = node := by
  cases node with
  | mk children cache =>
    simp only [InternalNode.insertChildRef, InternalNode.mk.injEq, and_true]
    rw [← h]
    exact Function.update_eq_self _ _

theorem InternalNode.isLeaf_insertChildRef (node : InternalNode) (c : Nibble) (r : ChildRef) :
    (fun a => ((node.insertChildRef c r).children a).map ChildRef.isLeaf) =
      Function.update (fun a => (node.children a).map ChildRef.isLeaf) c (some r.isLeaf) := by
  funext a
  by_cases ha : a = c
  · subst ha
    rw [children_insertChildRef_self, Function.update_self]
    rfl
  · rw [children_insertChildRef_of_ne _ _ ha, Function.update_of_ne ha]

/-- What an insertion of `k` that ends at level `n` does: the references on the way have the new
version, there are new nodes at the end, and the rest is as before. -/
structure Edited (W W' : WorkingPatchSet) (k : Key) (n : ℕ) : Prop where
  rootVersion_eq : W'.rootVersion = W.rootVersion
  path : ∀ j < n, ∃ e node r, W.entry (new k j) = some e ∧ e.inner = .internal node ∧
    W'.entry (new k j) = some { e with inner := .internal (node.insertChildRef (nibble k j) r) } ∧
    r.version = W.rootVersion ∧ (W'.get (new k (j + 1))).map Node.isLeaf = some r.isLeaf
  elsewhere : ∀ q, (∀ j < n, q ≠ new k j) →
    (∀ k' j, n ≤ j → j ≤ 64 → new k' n = new k n → q ≠ new k' j) → W'.entry q = W.entry q
  here : ∃ e, W'.entry (new k n) = some e ∧
    e.prevVersion = (W.entry (new k n)).bind WorkingNode.prevVersion
  below : ∀ k' j e, n < j → j ≤ 64 → new k' n = new k n → W'.entry (new k' j) = some e →
    e.prevVersion = none
  freshRefs : ∀ k' j e node c r, n ≤ j → j ≤ 64 → new k' n = new k n →
    W'.entry (new k' j) = some e → e.inner = .internal node → node.children c = some r →
    r.version = W.rootVersion

section Edit

variable {DB : Type} [Database DB] {db : DB} {hasher : HashTree} {operation : Operation}
  {B : Nibbles → Option Node} {loaded : Key → Prop} {W W' : WorkingPatchSet} {M M' : Contents}
  {k k' : Key} {n j : ℕ}

variable (hedit : Edited W W' k n)

include hedit in
theorem Edited.same (hpath : ¬ OnPath k n k' j) (hunder : ¬ Under k n k' j) :
    W'.entry (new k' j) = W.entry (new k' j) := by
  refine hedit.elsewhere _ (fun i hi heq => ?_) (fun k'' i hni hi hpos heq => ?_)
  · obtain rfl := new_level heq
    exact hpath ⟨hi, heq⟩
  · obtain rfl := new_level heq
    exact hunder ⟨hni, (new_mono hni hi heq).trans hpos⟩

include hedit in
/-- The child of a position that is neither on the path nor below its end, nor reached from the
path along the key, is as it was. -/
theorem Edited.same_child (hj : j < 64) (hunder : ¬ Under k n k' j)
    (hpath : ¬ (OnPath k n k' j ∧ nibble k' j = nibble k j)) :
    W'.entry (new k' (j + 1)) = W.entry (new k' (j + 1)) := by
  refine hedit.same (fun h => ?_) (fun h => ?_)
  · exact (under_or_onPath_of_succ hj (.inl h)).elim hunder hpath
  · exact (under_or_onPath_of_succ hj (.inr h)).elim hunder hpath

variable (h : Working db hasher operation B loaded W M)

include h in
theorem Working.base_none (hstop : StopsAt (view W B) k n) (hnj : n < j) (hj : j ≤ 64)
    (hpos : new k' n = new k n) : W.entry (new k' j) = none ∧ B (new k' j) = none := by
  have hnone := h.wellFormed.none_below hstop hnj hj hpos
  rw [view, Option.or_eq_none_iff] at hnone
  exact ⟨WorkingPatchSet.get_eq_none.1 hnone.1, hnone.2⟩

include hedit

include h in
theorem Edited.view_under (hstop : StopsAt (view W B) k n) (hnj : n ≤ j) (hj : j ≤ 64)
    (hpos : new k' n = new k n) : view W' B (new k' j) = W'.get (new k' j) := by
  rcases Nat.lt_or_eq_of_le hnj with hlt | rfl
  · rw [view, (h.base_none hstop hlt hj hpos).2, Option.or_none]
  · obtain ⟨e, he, _⟩ := hedit.here
    rw [hpos, view_of_entry he, WorkingPatchSet.get, he]
    rfl

include h in
theorem Edited.mono (hstop : StopsAt (view W B) k n) (hj : j ≤ 64)
    (hentry : W.entry (new k' j) ≠ none) : W'.entry (new k' j) ≠ none := by
  by_cases hpath : OnPath k n k' j
  · obtain ⟨e, node, r, _, _, he', _⟩ := hedit.path j hpath.1
    rw [hpath.2, he']
    exact Option.some_ne_none _
  by_cases hunder : Under k n k' j
  · obtain ⟨hnj, hpos⟩ := hunder
    rcases Nat.lt_or_eq_of_le hnj with hlt | rfl
    · exact absurd (h.base_none hstop hlt hj hpos).1 hentry
    · obtain ⟨e, he, _⟩ := hedit.here
      rw [hpos, he]
      exact Option.some_ne_none _
  · rw [hedit.same hpath hunder]
    exact hentry

theorem Edited.grafted (hn : n ≤ 64) (hunder : ∀ k' j, n ≤ j → j ≤ 64 → new k' n = new k n →
      Trie.OkAt nibbleDigits (shapeOf (view W' B)) k' j) (hwf : WellFormed (view W B)) :
    Trie.Grafted nibbleDigits (shapeOf (view W B)) (shapeOf (view W' B)) k n := by
  refine ⟨fun k' j hj hout hpar => ?_, fun j hj => ?_, hunder⟩
  · by_cases hpath : OnPath k n k' j
    · -- on the path, but not right above the end: the reference keeps its kind
      obtain ⟨hjn, hpos⟩ := hpath
      have hlt : j + 1 < n := by
        rcases Nat.lt_or_eq_of_le (Nat.succ_le_of_lt hjn) with h | h
        · exact h
        · exact absurd ⟨h, hpos⟩ hpar
      obtain ⟨e, node, r, he, hinner, he', _, hkind⟩ := hedit.path j hjn
      obtain ⟨e₁, node₁, r₁, he₁, hinner₁, he₁', _⟩ := hedit.path (j + 1) hlt
      have hview : view W B (new k j) = some (.internal node) := by rw [view_of_entry he, hinner]
      have hview₁ : view W B (new k (j + 1)) = some (.internal node₁) := by
        rw [view_of_entry he₁, hinner₁]
      have hchild := hwf.child (by omega) hview
      rw [hview₁] at hchild
      rw [WorkingPatchSet.get, he₁'] at hkind
      show shapeOf (view W' B) (new k' j) = shapeOf (view W B) (new k' j)
      rw [hpos, shapeOf, shapeOf, view_of_entry he', hview]
      have hsame : some r.isLeaf = (node.children (nibble k j)).map ChildRef.isLeaf := by
        rw [hchild, ← hkind]
        rfl
      simp only [Option.map_some, Node.shape]
      rw [InternalNode.isLeaf_insertChildRef, hsame, Function.update_eq_self]
    · show shapeOf (view W' B) (new k' j) = shapeOf (view W B) (new k' j)
      rw [shapeOf, shapeOf, view_congr (hedit.same hpath hout)]
  · obtain ⟨e, node, r, he, hinner, he', _, hkind⟩ := hedit.path j (by omega)
    obtain ⟨e₁, he₁, _⟩ := hedit.here
    refine ⟨fun c => (node.children c).map ChildRef.isLeaf, ?_, ?_⟩
    · show shapeOf (view W B) (new k j) = _
      rw [shapeOf, view_of_entry he, hinner]
      rfl
    · show shapeOf (view W' B) (new k j) = _
      have hleaf : (shapeOf (view W' B) (new k n)).map Trie.Shape.isLeaf = some r.isLeaf := by
        rw [hj, WorkingPatchSet.get, he₁] at hkind
        rw [isLeaf_shapeOf, view_of_entry he₁]
        exact hkind
      refine Eq.trans ?_ (congrArg (fun x => some (Trie.Shape.branch (Function.update
        (fun c => (node.children c).map ChildRef.isLeaf) (nibble k j) x))) hleaf.symm)
      rw [shapeOf, view_of_entry he']
      simp only [Option.map_some, Node.shape]
      rw [InternalNode.isLeaf_insertChildRef]

theorem Edited.root_prev {e : WorkingNode} {prev : ℕ} (he : W'.entry .empty = some e)
    (hprev : e.prevVersion = some prev) :
    ∃ e₀, W.entry .empty = some e₀ ∧ e₀.prevVersion = some prev := by
  rw [← Nibbles.new_zero k] at he ⊢
  rcases Nat.eq_zero_or_pos n with rfl | hpos
  · obtain ⟨e', he', hprev'⟩ := hedit.here
    rw [he', Option.some.injEq] at he
    subst he
    rw [hprev', Option.bind_eq_some_iff] at hprev
    exact hprev
  · obtain ⟨e₀, node, r, he₀, _, he', _⟩ := hedit.path 0 hpos
    rw [he', Option.some.injEq] at he
    subst he
    exact ⟨e₀, he₀, hprev⟩

omit hedit

theorem Working.prev_lt (h : Working db hasher .insert B loaded W M) (hj : j < 64)
    {e : WorkingNode} (hentry : W.entry (new k (j + 1)) = some e) {prev : ℕ}
    (hprev : e.prevVersion = some prev) : prev < W.rootVersion := by
  have hview := view_of_entry (B := B) hentry
  obtain ⟨node, hnode⟩ := h.wellFormed.parent hj (by rw [hview]; exact Option.some_ne_none _)
  obtain ⟨r, href, _⟩ := h.wellFormed.exists_ref hj hnode hview
  rcases h.refs k j node r hj hnode href with hfresh | hsettled
  · obtain ⟨e', he', hlt⟩ := hfresh.entry
    obtain rfl : e = e' := Option.some.inj (hentry.symm.trans he')
    exact hlt rfl prev hprev
  · have hversion := (hsettled.entry e hentry).2
    rw [hprev, Option.some.injEq] at hversion
    rw [hversion]
    exact hsettled.version_lt rfl

include hedit

include h in
theorem Edited.fresh (hstop : StopsAt (view W B) k n) (hwf : WellFormed (view W' B)) (hj : j < 64)
    (hnode : view W' B (new k' j) = some (.internal node))
    (href : node.children (nibble k' j) = some r)
    (hwhere : Under k n k' j ∨ (OnPath k n k' j ∧ nibble k' j = nibble k j)) :
    Fresh operation W' k' j r := by
  rcases hwhere with ⟨hnj, hpos⟩ | ⟨⟨hjn, hpos⟩, hnibble⟩
  · rw [hedit.view_under h hstop hnj hj.le hpos] at hnode
    obtain ⟨e, he, hinner⟩ := WorkingPatchSet.get_eq_some.1 hnode
    refine ⟨?_, ?_⟩
    · rw [hedit.freshRefs k' j e node _ r hnj hj.le hpos he hinner href, hedit.rootVersion_eq]
    · rw [← hedit.view_under h hstop hnj hj.le hpos] at hnode
      obtain ⟨x, hx, _⟩ := hwf.exists_child hj hnode href
      rw [hedit.view_under h hstop (by omega) hj hpos] at hx
      obtain ⟨e', he', _⟩ := WorkingPatchSet.get_eq_some.1 hx
      refine ⟨e', he', fun _ prev hprev => ?_⟩
      rw [hedit.below k' (j + 1) e' (by omega) hj hpos he'] at hprev
      cases hprev
  · obtain ⟨e, node₀, r₀, _, _, he', hversion, _⟩ := hedit.path j hjn
    rw [hpos, view_of_entry he'] at hnode
    cases hnode
    rw [hnibble, InternalNode.children_insertChildRef_self, Option.some.injEq] at href
    subst href
    have hchild : new k' (j + 1) = new k (j + 1) := new_succ hj hpos hnibble
    refine ⟨by rw [hversion, hedit.rootVersion_eq], ?_⟩
    rw [hchild, hedit.rootVersion_eq]
    -- the version from which the child was loaded is kept
    obtain ⟨e₁, he₁, hprev₁⟩ : ∃ e₁, W'.entry (new k (j + 1)) = some e₁ ∧
        e₁.prevVersion = (W.entry (new k (j + 1))).bind WorkingNode.prevVersion := by
      rcases Nat.lt_or_eq_of_le (Nat.succ_le_of_lt hjn) with hlt | heq
      · obtain ⟨e₁, node₁, r₁, he₁, _, he₁', _⟩ := hedit.path (j + 1) hlt
        exact ⟨_, he₁', by rw [he₁]; rfl⟩
      · rw [show j + 1 = n from heq]
        exact hedit.here
    refine ⟨e₁, he₁, fun hoperation prev hprev => ?_⟩
    subst hoperation
    rw [hprev₁, Option.bind_eq_some_iff] at hprev
    obtain ⟨e₀, he₀, hprev₀⟩ := hprev
    exact h.prev_lt hj he₀ hprev₀

theorem Edited.old_ref (hnode : view W' B (new k' j) = some (.internal node))
    (href : node.children (nibble k' j) = some r) (hunder : ¬ Under k n k' j)
    (hpath : ¬ (OnPath k n k' j ∧ nibble k' j = nibble k j)) :
    ∃ node₀, view W B (new k' j) = some (.internal node₀) ∧
      node₀.children (nibble k' j) = some r := by
  by_cases honPath : OnPath k n k' j
  · have hnibble : nibble k' j ≠ nibble k j := fun hcon => hpath ⟨honPath, hcon⟩
    obtain ⟨e, node₀, r₀, he, hinner, he', _, _⟩ := hedit.path j honPath.1
    rw [honPath.2, view_of_entry he'] at hnode
    cases hnode
    rw [InternalNode.children_insertChildRef_of_ne _ _ hnibble] at href
    exact ⟨node₀, by rw [honPath.2, view_of_entry he, hinner], href⟩
  · rw [view_congr (hedit.same honPath hunder)] at hnode
    exact ⟨node, hnode, href⟩

theorem Edited.kept (hj : j < 64) (hother : ∀ key, key ≠ k → M' key = M key)
    (hunder : ¬ Under k n k' j) (hpath : ¬ (OnPath k n k' j ∧ nibble k' j = nibble k j))
    (href : Fresh operation W k' j r ∨ Settled db hasher operation W B M k' j r) :
    Fresh operation W' k' j r ∨ Settled db hasher operation W' B M' k' j r := by
  have hentry := hedit.same_child hj hunder hpath
  rcases href with hfresh | hsettled
  · refine .inl ⟨?_, ?_⟩
    · rw [hedit.rootVersion_eq]
      exact hfresh.version_eq
    · rw [hentry, hedit.rootVersion_eq]
      exact hfresh.entry
  -- the contents below the reference are the same
  · have hhash : prefixHash hasher M' k' (j + 1) = prefixHash hasher M k' (j + 1) := by
      refine prefixHash_congr hj fun key hkey => hother key ?_
      rintro rfl
      exact (under_or_onPath_of_new hj hkey.symm).elim hunder hpath
    refine .inr ⟨?_, ?_, ?_, ?_, ?_⟩
    · rw [hhash]
      exact hsettled.hash_eq
    · rw [hedit.rootVersion_eq]
      exact hsettled.version_le
    · rw [hedit.rootVersion_eq]
      exact hsettled.version_lt
    · rw [view_congr hentry]
      exact hsettled.node_eq
    · rw [hentry]
      exact hsettled.entry

include h in
/-- **An insertion keeps the working patch set in order**, whatever new nodes it puts at the end of
the descent, if they form a trie and hold the new contents. -/
theorem Working.edited (hn : n ≤ 64) (hstop : StopsAt (view W B) k n)
    (hunder : ∀ k' j, n ≤ j → j ≤ 64 → new k' n = new k n →
      Trie.OkAt nibbleDigits (shapeOf (view W' B)) k' j) (hother : ∀ key, key ≠ k → M' key = M key)
    (hleaves : ∀ k' v, new k' n = new k n → (M' k' = some v ↔
      ∃ j ≤ 64, n ≤ j ∧ shapeOf (view W' B) (new k' j) = some (.leaf k' v))) :
    Working db hasher operation B loaded W' M' := by
  have hgraft := hedit.grafted hn hunder h.wellFormed
  have hwf : WellFormed (view W' B) := hgraft.wellFormed h.wellFormed hn
  refine ⟨?_, ?_, ?_, ?_, hwf, ?_, ?_, ?_, ?_⟩
  · intro q hq
    by_cases hpath : ∃ j < n, q = new k j
    · obtain ⟨j, hj, rfl⟩ := hpath
      exact ⟨k, j, by omega, rfl⟩
    by_cases hbelow : ∃ k' j, n ≤ j ∧ j ≤ 64 ∧ new k' n = new k n ∧ q = new k' j
    · obtain ⟨k', j, _, hj, _, rfl⟩ := hbelow
      exact ⟨k', j, hj, rfl⟩
    · rw [hedit.elsewhere q (fun j hj hcon => hpath ⟨j, hj, hcon⟩)
        (fun k' j hnj hj hpos hcon => hbelow ⟨k', j, hnj, hj, hpos, hcon⟩)] at hq
      exact h.valid q hq
  · intro k' j hj hchild
    by_cases hpos : Under k n k' j
    · -- below the end the parent is there because the view is well-formed
      have hview : view W' B (new k' (j + 1)) ≠ none := fun hnone => hchild
        (WorkingPatchSet.get_eq_none.1 (Option.or_eq_none_iff.1 hnone).1)
      obtain ⟨node, hnode⟩ := hwf.parent hj hview
      rw [hedit.view_under h hstop hpos.1 hj.le hpos.2] at hnode
      exact fun hnone => by
        rw [WorkingPatchSet.get_eq_none.2 hnone] at hnode
        cases hnode
    by_cases hway : OnPath k n k' j ∧ nibble k' j = nibble k j
    · obtain ⟨e, node, r, _, _, he', _⟩ := hedit.path j hway.1.1
      rw [hway.1.2, he']
      exact Option.some_ne_none _
    · rw [hedit.same_child hj hpos hway] at hchild
      exact hedit.mono h hstop hj.le (h.closed k' j hj hchild)
  · intro hnone
    refine h.rooted ?_
    by_contra hentry
    rw [← Nibbles.new_zero k] at hentry hnone
    exact hedit.mono h hstop (Nat.zero_le _) hentry hnone
  · intro hoperation e prev he hprev
    obtain ⟨e₀, he₀, hprev₀⟩ := hedit.root_prev he hprev
    rw [hedit.rootVersion_eq]
    exact h.rootPrev hoperation e₀ prev he₀ hprev₀
  · refine hgraft.represents h.represents hn (fun j hj => ?_) (fun k' hpos => ?_) hleaves
    · obtain ⟨e, node, r, he, hinner, _⟩ := hedit.path j hj
      exact ⟨_, shapeOf_eq_branch.2 ⟨node, by rw [← hinner]; exact view_of_entry he, rfl⟩⟩
    · refine hother k' ?_
      rintro rfl
      exact hpos rfl
  · intro k' hloaded m hm hnone
    refine h.covered k' hloaded m hm ?_
    by_contra hentry
    exact hedit.mono h hstop hm hentry hnone
  · intro k' j node r hj hnode href
    by_cases hway : Under k n k' j ∨ (OnPath k n k' j ∧ nibble k' j = nibble k j)
    · exact .inl (hedit.fresh h hstop hwf hj hnode href hway)
    · obtain ⟨hpos, hpath⟩ := not_or.1 hway
      obtain ⟨node₀, hnode₀, href₀⟩ := hedit.old_ref hnode href hpos hpath
      exact hedit.kept hj hother hpos hpath (h.refs k' j node₀ r hj hnode₀ href₀)
  · intro hoperation k' j node node' r r' hj hnode href hnode' href' hversion
    by_cases hway : Under k n k' j ∨ (OnPath k n k' j ∧ nibble k' j = nibble k j)
    · exact (hedit.fresh h hstop hwf (by omega) hnode href hway).version_eq
    · obtain ⟨hpos, hpath⟩ := not_or.1 hway
      obtain ⟨node₀, hnode₀, href₀⟩ := hedit.old_ref hnode href hpos hpath
      rw [view_congr (hedit.same_child (by omega) hpos hpath)] at hnode'
      rw [hedit.rootVersion_eq] at hversion ⊢
      exact h.upward hoperation k' j node₀ node' r r' hj hnode₀ href₀ hnode' href' hversion

omit hedit

end Edit

end MerkleTree
