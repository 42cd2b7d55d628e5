/-
Loading the paths of keys.

The nodes on the paths of the keys to be written are loaded level by level: the references of the
nodes of one level tell which nodes of the next one are needed.  In the end every key has all nodes
on its path in the working patch set, and the length of that path is known.

* `Loaded.working` — a working patch set over a stored version.
-/
import Mathlib
import ViaCore.TreeEdit

namespace MerkleTree

open WorkingPatchSet (LoadState requestKey childRef get_eq_none loadAncestors)

open Nibbles (new nibble)

/-- The path of a key has nodes down to level `m` and no further. -/
structure LongestPrefix (B : Nibbles → Option Node) (k : Key) (m : ℕ) : Prop where
  le : m ≤ 64
  internal : ∀ j < m, ∃ node, B (new k j) = some (.internal node)
  child : m < 64 → B (new k (m + 1)) = none

theorem LongestPrefix.none_below {B : Nibbles → Option Node} {k : Key} {m n : ℕ}
    (h : LongestPrefix B k m) (hwf : WellFormed B) (hmn : m < n) (hn : n ≤ 64) :
    B (new k n) = none := by
  rcases Nat.lt_or_eq_of_le (Nat.succ_le_of_lt hmn) with hlt | rfl
  · refine hwf.none_below (fun node hnode => ?_) hlt hn rfl
    rw [h.child (by omega)] at hnode
    cases hnode
  · exact h.child hn

namespace WorkingPatchSet

theorem entry_pushLevelFromDb (set : WorkingPatchSet) (level : List (NodeKey × Node))
    (q : Nibbles) :
    (set.pushLevelFromDb level).entry q =
      if q.nibbleCount < set.changesByNibbleCount.length then set.entry q
      else if q.nibbleCount = set.changesByNibbleCount.length then
        (level.foldl (fun (level : Level) item =>
          level.insert item.1.nibbles.bytes ⟨item.2, some item.1.version⟩) ∅).lookup q.bytes
      else none := by
  rw [entry, entry, pushLevelFromDb]
  rw [List.getElem?_append]
  split
  · rfl
  · rename_i hge
    split
    · rename_i heq
      rw [heq, Nat.sub_self]
      rfl
    · rename_i hne
      rw [List.getElem?_eq_none (by simp only [List.length_singleton]; omega)]
      rfl

variable {items : List (NodeKey × Node)}

theorem lookup_level (bytes : NibblesBytes) :
    (items.foldl (fun (level : Level) item =>
      level.insert item.1.nibbles.bytes ⟨item.2, some item.1.version⟩) ∅).lookup bytes =
    (items.reverse.find? fun item => item.1.nibbles.bytes = bytes).map fun item =>
      ⟨item.2, some item.1.version⟩ := by
  induction items using List.reverseRecOn with
  | nil => rfl
  | append_singleton items item ih =>
    rw [List.foldl_append, List.foldl_cons, List.foldl_nil, List.reverse_append,
      List.reverse_singleton, List.singleton_append]
    by_cases hitem : item.1.nibbles.bytes = bytes
    · subst hitem
      rw [AList.lookup_insert, List.find?_cons_of_pos (by simp), Option.map_some]
    · rw [AList.lookup_insert_ne (Ne.symm hitem), ih, List.find?_cons_of_neg (by simpa using hitem)]

end WorkingPatchSet

variable {i : ℕ}

section Load

variable {B : Nibbles → Option Node} {keys : Key → Prop} {W : WorkingPatchSet} {N : ℕ}

/-- The first `N` levels have the nodes on the paths of the keys. -/
structure LoadedTo (B : Nibbles → Option Node) (keys : Key → Prop) (W : WorkingPatchSet) (N : ℕ) :
    Prop where
  length_eq : W.changesByNibbleCount.length = N
  rooted : W.get .empty = B .empty
  rootPrev : ∀ e, W.entry .empty = some e → e.prevVersion = Nat.ppred W.rootVersion
  agree : ∀ q e, W.entry q = some e → B q = some e.inner ∧
    ∃ k n, (n = 0 ∨ keys k) ∧ n ≤ 64 ∧ q = new k n
  get_eq : ∀ k, keys k → ∀ n < N, n ≤ 64 → W.get (new k n) = B (new k n)
  prev : ∀ k n e node r, n < 64 → W.entry (new k (n + 1)) = some e →
    B (new k n) = some (.internal node) → node.children (nibble k n) = some r →
    e.prevVersion = some r.version

/-- What the scan of the keys for level `N` has found, given the indexed keys. -/
structure Scanned (B : Nibbles → Option Node) (N : ℕ) (items : List (ℕ × Key))
    (state : LoadState) : Prop where
  found : ∀ i k p, (i, k) ∈ items → state.longestPrefixes.getD i none = some p →
    ∃ m < N, p = new k m ∧ LongestPrefix B k m
  requested : ∀ x ∈ state.requestedKeys, ∃ i k j node r, (i, k) ∈ items ∧ N = j + 1 ∧ j < 64 ∧
    B (new k j) = some (.internal node) ∧ node.children (nibble k j) = some r ∧
    x = ((new k N).withVersion r.version, r.isLeaf)
  prev : ∀ q, state.prevNibbles = some q →
    q.nibbleCount < N ∨ ∃ x ∈ state.requestedKeys, x.1.nibbles = q

/-- The indexed keys: an index tells the key, and the indices are those of the list of prefixes. -/
structure Indexed (items : List (ℕ × Key)) (count : ℕ) : Prop where
  unique : ∀ i k k', (i, k) ∈ items → (i, k') ∈ items → k = k'
  lt : ∀ i k, (i, k) ∈ items → i < count
  complete : ∀ i < count, ∃ k, (i, k) ∈ items

/-- A key whose prefix has not been found has its next node requested. -/
def Pending (N : ℕ) (state : LoadState) (item : ℕ × Key) : Prop :=
  state.longestPrefixes.getD item.1 none = none →
    N ≤ 64 ∧ ∃ x ∈ state.requestedKeys, x.1.nibbles = new item.2 N

theorem getD_set_self {α : Type} {l : List (Option α)} (h : i < l.length) (a : Option α) :
    (l.set i a).getD i none = a := by
  rw [List.getD_eq_getElem?_getD, List.getElem?_set_self h]
  rfl

theorem getD_set_ne {α : Type} (l : List (Option α)) {j : ℕ} (h : i ≠ j) (a : Option α) :
    (l.set i a).getD j none = l.getD j none := by
  rw [List.getD_eq_getElem?_getD, List.getElem?_set_ne h, List.getD_eq_getElem?_getD]

variable {k : Key} {state : LoadState} {items : List (ℕ × Key)}

theorem Scanned.found_longest
    (h : Scanned B N items state) (hitems : Indexed items state.longestPrefixes.length) {i : ℕ}
    (hmem : (i, k) ∈ items) {m : ℕ} (hm : m < N) (hlongest : LongestPrefix B k m) :
    Scanned B N items
      { state with longestPrefixes := state.longestPrefixes.set i (some (new k m)) } := by
  refine ⟨fun i' k' p hmem' hp => ?_, h.requested, h.prev⟩
  by_cases hi : i = i'
  · subst hi
    obtain rfl := hitems.unique i k k' hmem hmem'
    rw [getD_set_self (hitems.lt i k hmem), Option.some.injEq] at hp
    exact ⟨m, hm, hp.symm, hlongest⟩
  · rw [getD_set_ne _ hi] at hp
    exact h.found i' k' p hmem' hp

/-- A step of the scan keeps what has been found and requested, and looks after its key. -/
structure ScanStep (B : Nibbles → Option Node) (N : ℕ) (items : List (ℕ × Key))
    (state state' : LoadState) : Prop where
  scanned : Scanned B N items state'
  length_eq : state'.longestPrefixes.length = state.longestPrefixes.length
  notFound : ∀ i, state'.longestPrefixes.getD i none = none →
    state.longestPrefixes.getD i none = none
  subset : state.requestedKeys ⊆ state'.requestedKeys

variable {items : List (ℕ × Key)} {state s₁ s₂ : LoadState}

theorem ScanStep.refl (h : Scanned B N items state) : ScanStep B N items state state :=
  ⟨h, rfl, fun _ hnone => hnone, .refl _⟩

theorem ScanStep.trans {s₃ : LoadState} (h : ScanStep B N items s₁ s₂)
    (h' : ScanStep B N items s₂ s₃) : ScanStep B N items s₁ s₃ :=
  ⟨h'.scanned, h'.length_eq.trans h.length_eq, fun i hnone => h.notFound i (h'.notFound i hnone),
    List.Subset.trans h.subset h'.subset⟩

theorem Pending.step {item : ℕ × Key} (h : Pending N s₁ item) (hstep : ScanStep B N items s₁ s₂) :
    Pending N s₂ item := by
  intro hnone
  obtain ⟨hN, x, hx, hpos⟩ := h (hstep.notFound _ hnone)
  exact ⟨hN, x, hstep.subset hx, hpos⟩

theorem ScanStep.found
    (h : Scanned B N items state) (hitems : Indexed items state.longestPrefixes.length) {i : ℕ}
    (hmem : (i, k) ∈ items) {m : ℕ} (hm : m < N) (hlongest : LongestPrefix B k m) :
    ScanStep B N items state
        { state with longestPrefixes := state.longestPrefixes.set i (some (new k m)) } ∧
      Pending N { state with longestPrefixes := state.longestPrefixes.set i (some (new k m)) }
        (i, k) := by
  refine ⟨⟨h.found_longest hitems hmem hm hlongest, by simp, fun i' hnone => ?_,
    .refl _⟩, fun hnone => ?_⟩
  · by_cases hi : i = i'
    · subst hi
      rw [getD_set_self (hitems.lt i k hmem)] at hnone
      cases hnone
    · rw [getD_set_ne _ hi] at hnone
      exact hnone
  · rw [getD_set_self (hitems.lt i k hmem)] at hnone
    cases hnone

theorem requestKey_spec (hwf : WellFormed B) {d : ℕ} (hd : d ≤ 64) (h : LoadedTo B keys W (d + 1))
    (hscan : Scanned B (d + 1) items state) (hitems : Indexed items state.longestPrefixes.length)
    (hmem : (i, k) ∈ items) (hkey : keys k)
    (hopen : state.longestPrefixes.getD i none = none → B (new k d) ≠ none) :
    ∃ state', W.requestKey (d + 1) state (i, k) = .ok state' ∧
      ScanStep B (d + 1) items state state' ∧ Pending (d + 1) state' (i, k) := by
  by_cases hsome : (state.longestPrefixes.getD i none).isSome
  · refine ⟨state, ?_, .refl hscan, fun hnone => ?_⟩
    · rw [requestKey, if_pos hsome]
    · rw [hnone] at hsome
      cases hsome
  have hnone : state.longestPrefixes.getD i none = none := Option.not_isSome_iff_eq_none.1 hsome
  have hhere := hopen hnone
  have habove : ∀ j < d, ∃ node, B (new k j) = some (.internal node) := fun j hj =>
    hwf.internal_above hd hhere hj
  by_cases hdeep : 64 < d + 1
  · -- there is a node at the lowest level
    obtain rfl : d = 64 := by omega
    obtain ⟨hstep, hpending⟩ := ScanStep.found hscan hitems hmem (Nat.lt_succ_self 64)
      ⟨le_rfl, habove, fun hlt => absurd hlt (lt_irrefl 64)⟩
    refine ⟨_, ?_, hstep, hpending⟩
    rw [requestKey, if_neg hsome, if_pos hdeep]
  have hlt : d < 64 := by omega
  have hrequest : W.requestKey (d + 1) state (i, k) =
      (W.childRef (new k d) (nibble k d)).elim (.ok { state with
          longestPrefixes := state.longestPrefixes.set i (some (new k d)) }) fun thisRef =>
        if state.prevNibbles = some (new k (d + 1)) then .ok state
        else .ok { state with
          prevNibbles := some (new k (d + 1))
          requestedKeys := state.requestedKeys ++
            [((new k (d + 1)).withVersion thisRef.version, thisRef.isLeaf)] } := by
    rw [requestKey, if_neg hsome, if_neg hdeep]
    cases href : W.childRef (new k d) (nibble k d) <;>
      simp only [Nibbles.splitLast_new k hlt, Outcome.unwrap_some, Outcome.ok_bind, href,
        Option.elim]
  have hget := h.get_eq k hkey d (Nat.lt_succ_self d) hd
  cases href : W.childRef (new k d) (nibble k d) with
  | none =>
    have hchild : B (new k (d + 1)) = none := by
      cases hnode : B (new k d) with
      | none => exact absurd hnode hhere
      | some node =>
        cases node with
        | leaf leaf =>
          refine hwf.none_below (k := k) (fun node hcon => ?_) (Nat.lt_succ_self d) hlt rfl
          cases hnode.symm.trans hcon
        | internal node =>
          have hmap := hwf.child hlt hnode
          rw [childRef, hget, hnode] at href
          rw [show node.children (nibble k d) = none from href] at hmap
          exact Option.map_eq_none_iff.1 hmap.symm
    obtain ⟨hstep, hpending⟩ := ScanStep.found hscan hitems hmem (Nat.lt_succ_self d)
      ⟨hd, habove, fun _ => hchild⟩
    rw [href] at hrequest
    exact ⟨_, hrequest, hstep, hpending⟩
  | some r =>
    rw [href] at hrequest
    obtain ⟨node, hnode, hr⟩ : ∃ node, B (new k d) = some (.internal node) ∧
        node.children (nibble k d) = some r := by
      rw [childRef, hget] at href
      split at href
      · rename_i node hnode
        exact ⟨node, hnode, href⟩
      · cases href
    by_cases hprev : state.prevNibbles = some (new k (d + 1))
    · refine ⟨state, ?_, .refl hscan, fun _ => ⟨hlt, ?_⟩⟩
      · simp only [if_pos hprev] at hrequest
        exact hrequest
      · refine (hscan.prev _ hprev).resolve_left fun hcon => ?_
        exact lt_irrefl _ hcon
    · simp only [if_neg hprev] at hrequest
      refine ⟨_, hrequest, ⟨⟨hscan.found, fun x hx => ?_, fun q hq => ?_⟩, rfl,
        fun _ hnone => hnone, List.subset_append_left _ _⟩,
        fun _ => ⟨hlt, _, List.mem_append_right _ (List.mem_singleton_self _), rfl⟩⟩
      · rcases List.mem_append.1 hx with hx | hx
        · exact hscan.requested x hx
        · rw [List.mem_singleton] at hx
          exact ⟨i, k, d, node, r, hmem, rfl, hlt, hnode, hr, hx⟩
      · cases hq
        exact .inr ⟨_, List.mem_append_right _ (List.mem_singleton_self _), rfl⟩

theorem requestKeys_spec (hwf : WellFormed B) {d : ℕ} (hd : d ≤ 64) (h : LoadedTo B keys W (d + 1))
    (hkeys : ∀ i k, (i, k) ∈ items → keys k) (scan : List (ℕ × Key)) (hsub : scan ⊆ items)
    (hscan : Scanned B (d + 1) items state) (hitems : Indexed items state.longestPrefixes.length)
    (hopen : ∀ i k, (i, k) ∈ items → state.longestPrefixes.getD i none = none →
      B (new k d) ≠ none) :
    ∃ state', scan.foldlM (W.requestKey (d + 1)) state = .ok state' ∧
      ScanStep B (d + 1) items state state' ∧ ∀ item ∈ scan, Pending (d + 1) state' item := by
  induction scan generalizing state with
  | nil => exact ⟨state, rfl, .refl hscan, fun item hitem => by cases hitem⟩
  | cons item scan ih =>
    obtain ⟨i, k⟩ := item
    have hmem : (i, k) ∈ items := hsub (by simp)
    obtain ⟨s₁, hs₁, hstep₁, hpending₁⟩ :=
      requestKey_spec hwf hd h hscan hitems hmem (hkeys i k hmem) (hopen i k hmem)
    obtain ⟨s₂, hs₂, hstep₂, hpending₂⟩ := ih (fun x hx => hsub (by simp [hx])) hstep₁.scanned
      (by rw [hstep₁.length_eq]; exact hitems)
      (fun i' k' hmem' hnone => hopen i' k' hmem' (hstep₁.notFound i' hnone))
    refine ⟨s₂, ?_, hstep₁.trans hstep₂, fun item hitem => ?_⟩
    · rw [List.foldlM_cons, hs₁, Outcome.ok_bind, hs₂]
    · rcases List.mem_cons.1 hitem with rfl | hitem
      · exact hpending₁.step hstep₂
      · exact hpending₂ item hitem

theorem LoadedTo.push (h : LoadedTo B keys W N) {level : List (NodeKey × Node)}
    (hlevel : ∀ y ∈ level, ∃ k j node r, keys k ∧ N = j + 1 ∧ j < 64 ∧
      B (new k j) = some (.internal node) ∧ node.children (nibble k j) = some r ∧
      y.1 = (new k N).withVersion r.version ∧ B (new k N) = some y.2)
    (hcomplete : ∀ k, keys k → N ≤ 64 → B (new k N) ≠ none → ∃ y ∈ level, y.1.nibbles = new k N)
    (hN : 0 < N) : LoadedTo B keys (W.pushLevelFromDb level) (N + 1) := by
  have hentry := W.entry_pushLevelFromDb level
  rw [h.length_eq] at hentry
  -- what is found at the new level
  have hnew : ∀ q e, q.nibbleCount = N → (W.pushLevelFromDb level).entry q = some e →
      ∃ k j node r, keys k ∧ N = j + 1 ∧ j < 64 ∧ B (new k j) = some (.internal node) ∧
        node.children (nibble k j) = some r ∧ q = new k N ∧ B q = some e.inner ∧
        e.prevVersion = some r.version := by
    intro q e hq he
    rw [hentry q, if_neg (by omega), if_pos hq] at he
    rw [WorkingPatchSet.lookup_level] at he
    obtain ⟨y, hfind, rfl⟩ := Option.map_eq_some_iff.1 he
    have hbytes : y.1.nibbles.bytes = q.bytes := by
      simpa using List.find?_some hfind
    obtain ⟨k, j, node, r, hk, hj, hj64, hnode, hr, hy1, hy2⟩ :=
      hlevel y (List.mem_reverse.1 (List.mem_of_find?_eq_some hfind))
    have hqk : q = new k N := by
      rw [hy1] at hbytes
      cases q
      simp only at hq hbytes
      subst hq
      rw [← hbytes]
      rfl
    refine ⟨k, j, node, r, hk, hj, hj64, hnode, hr, hqk, ?_, ?_⟩
    · rw [hqk]
      exact hy2
    · rw [hy1]
      rfl
  have hold : ∀ q, q.nibbleCount < N → (W.pushLevelFromDb level).entry q = W.entry q :=
    fun q hq => by rw [hentry q, if_pos hq]
  have hlast : ∀ q e, (W.pushLevelFromDb level).entry q = some e → q.nibbleCount ≤ N := by
    intro q e he
    by_contra hgt
    rw [hentry q, if_neg (by omega), if_neg (by omega)] at he
    cases he
  refine ⟨?_, ?_, fun e he => ?_, fun q e he => ?_, fun k hk n hn hn64 => ?_,
    fun k n e node r hn he hnode hr => ?_⟩
  · rw [WorkingPatchSet.pushLevelFromDb]
    simp [h.length_eq]
  · rw [WorkingPatchSet.get, hold _ hN, ← WorkingPatchSet.get, h.rooted]
  · rw [hold _ hN] at he
    exact h.rootPrev e he
  · rcases Nat.lt_or_eq_of_le (hlast q e he) with hlt | heq
    · rw [hold q hlt] at he
      exact h.agree q e he
    · obtain ⟨k, j, node, r, hk, hj, hj64, _, _, hq, hB, _⟩ := hnew q e heq he
      exact ⟨hB, k, N, .inr hk, by omega, hq⟩
  · rcases Nat.lt_succ_iff_lt_or_eq.1 hn with hlt | rfl
    · rw [WorkingPatchSet.get, hold _ (by rw [Nibbles.nibbleCount_new]; exact hlt),
        ← WorkingPatchSet.get]
      exact h.get_eq k hk n hlt hn64
    · have hcount : (new k n).nibbleCount = n := Nibbles.nibbleCount_new _ _
      cases he : (W.pushLevelFromDb level).entry (new k n) with
      | some e =>
        obtain ⟨_, _, _, _, _, _, _, _, _, _, hB, _⟩ := hnew _ e hcount he
        rw [hB, WorkingPatchSet.get, he]
        rfl
      | none =>
        rw [get_eq_none.2 he]
        by_contra hB
        obtain ⟨y, hy, hpos⟩ := hcomplete k hk hn64 fun hcon => hB hcon.symm
        rw [hentry, if_neg (by omega), if_pos hcount, WorkingPatchSet.lookup_level,
          Option.map_eq_none_iff, List.find?_eq_none] at he
        exact he y (List.mem_reverse.2 hy) (decide_eq_true (by rw [hpos]))
  · have hcount : (new k (n + 1)).nibbleCount = n + 1 := Nibbles.nibbleCount_new _ _
    rcases Nat.lt_or_eq_of_le (hlast _ e he) with hlt | heq
    · rw [hold _ hlt] at he
      exact h.prev k n e node r hn he hnode hr
    · obtain ⟨k', j, node', r', _, hj, _, hnode', hr', hq, _, hprev⟩ := hnew _ e heq he
      obtain rfl : j = n := by omega
      subst hj
      have hpos : new k j = new k' j := new_mono (Nat.le_succ j) hn hq
      have hnibble : nibble k j = nibble k' j := nibble_of_new (Nat.lt_succ_self j) hn hq
      rw [hpos, hnode'] at hnode
      cases hnode
      rw [hnibble, hr'] at hr
      cases hr
      exact hprev

theorem readLevel_spec {DB : Type} [Database DB] [LawfulDatabase DB] (db : DB)
    (requested : List (NodeKey × Bool))
    (h : ∀ x ∈ requested, ∃ node, B x.1.nibbles = some node ∧
      Database.treeNode db x.1 x.2 = some node) :
    ∃ level : List (NodeKey × Node),
      ((requested.zip (Database.treeNodes db requested)).mapM fun (key, node) => do
        let node ← (Outcome.unwrap node : Outcome DatabaseError Node)
        Outcome.ok (key.1, node)) = Outcome.ok level ∧
      (∀ y ∈ level, B y.1.nibbles = some y.2 ∧ ∃ x ∈ requested, x.1 = y.1) ∧
      ∀ x ∈ requested, ∃ y ∈ level, y.1 = x.1 := by
  rw [LawfulDatabase.treeNodes_eq]
  induction requested with
  | nil => exact ⟨[], rfl, by simp, by simp⟩
  | cons x requested ih =>
    obtain ⟨node, hB, hnode⟩ := h x (by simp)
    obtain ⟨level, hlevel, hsound, hcomplete⟩ := ih fun x' hx' => h x' (by simp [hx'])
    refine ⟨(x.1, node) :: level, ?_, fun y hy => ?_, fun x' hx' => ?_⟩
    · rw [List.map_cons, List.zip_cons_cons, List.mapM_cons, hlevel, hnode]
      rfl
    · rcases List.mem_cons.1 hy with rfl | hy
      · exact ⟨hB, x, by simp, rfl⟩
      · obtain ⟨hBy, x', hx', heq⟩ := hsound y hy
        exact ⟨hBy, x', by simp [hx'], heq⟩
    · rcases List.mem_cons.1 hx' with heq | hx'
      · exact ⟨(x.1, node), by simp, by rw [heq]⟩
      · obtain ⟨y, hy, heq⟩ := hcomplete x' hx'
        exact ⟨y, by simp [hy], heq⟩

/-- All nodes on the paths of the keys are in the working patch set, with the versions from which
they were loaded. -/
structure Loaded (B : Nibbles → Option Node) (keys : Key → Prop) (W : WorkingPatchSet) : Prop where
  rooted : W.get .empty = B .empty
  rootPrev : ∀ e, W.entry .empty = some e → e.prevVersion = Nat.ppred W.rootVersion
  agree : ∀ q e, W.entry q = some e → B q = some e.inner ∧
    ∃ k n, (n = 0 ∨ keys k) ∧ n ≤ 64 ∧ q = new k n
  get_eq : ∀ k, keys k → ∀ n ≤ 64, W.get (new k n) = B (new k n)
  prev : ∀ k n e node r, n < 64 → W.entry (new k (n + 1)) = some e →
    B (new k n) = some (.internal node) → node.children (nibble k n) = some r →
    e.prevVersion = some r.version

theorem LoadedTo.entry_eq_none (h : LoadedTo B keys W N) {q : Nibbles} (hq : N ≤ q.nibbleCount) :
    W.entry q = none := by
  rw [WorkingPatchSet.entry, List.getElem?_eq_none (by rw [h.length_eq]; exact hq)]
  rfl

theorem LoadedTo.loaded (h : LoadedTo B keys W N) (hwf : WellFormed B)
    (hfound : ∀ k, keys k → ∃ m < N, LongestPrefix B k m) : Loaded B keys W := by
  refine ⟨h.rooted, h.rootPrev, h.agree, fun k hk n hn => ?_, h.prev⟩
  rcases Nat.lt_or_ge n N with hlt | hge
  · exact h.get_eq k hk n hlt hn
  · obtain ⟨m, hm, hlongest⟩ := hfound k hk
    rw [hlongest.none_below hwf (by omega) hn, get_eq_none]
    exact h.entry_eq_none (by rw [Nibbles.nibbleCount_new]; exact hge)

variable {DB : Type} [Database DB] [LawfulDatabase DB] {db : DB}

theorem loadLevels_spec (hwf : WellFormed B)
    (hstored : ∀ k n node r, n < 64 → B (new k n) = some (.internal node) →
      node.children (nibble k n) = some r →
      Database.treeNode db ⟨r.version, new k (n + 1)⟩ r.isLeaf = B (new k (n + 1))) {d : ℕ}
    (hd : d ≤ 64) (h : LoadedTo B (fun k => ∃ i, (i, k) ∈ items) W (d + 1))
    {prefixes : List (Option Nibbles)} {prevNibbles : Option Nibbles} (reads : ℕ)
    (hscan : Scanned B (d + 1) items ⟨prefixes, prevNibbles, []⟩)
    (hitems : Indexed items prefixes.length)
    (hopen : ∀ i k, (i, k) ∈ items → prefixes.getD i none = none → B (new k d) ≠ none) :
    ∃ W' prefixes' reads',
      W.loadLevels db items (d + 1) prefixes prevNibbles reads = .ok (W', prefixes', reads') ∧
      W'.rootVersion = W.rootVersion ∧ Loaded B (fun k => ∃ i, (i, k) ∈ items) W' ∧
      prefixes'.length = prefixes.length ∧
      ∀ i k, (i, k) ∈ items → ∃ m, prefixes'.getD i none = some (new k m) ∧
        LongestPrefix B k m := by
  induction hn : 64 - d using Nat.strong_induction_on
    generalizing d W prefixes prevNibbles reads with
  | _ n ih =>
  obtain ⟨state, hstate, hstep, hpending⟩ := requestKeys_spec hwf hd h
    (fun i k hmem => ⟨i, hmem⟩) items (.refl _) hscan hitems hopen
  rw [WorkingPatchSet.loadLevels]
  split
  rotate_left
  · rename_i error hcon
    cases hstate.symm.trans hcon
  · rename_i hcon
    rw [hstate] at hcon
    cases hcon
  rename_i state' hstate'
  obtain rfl : state = state' := Outcome.ok.inj (hstate.symm.trans hstate')
  by_cases hempty : state.requestedKeys = []
  · -- every prefix is known
    have hfound : ∀ i k, (i, k) ∈ items → ∃ m < d + 1,
        state.longestPrefixes.getD i none = some (new k m) ∧ LongestPrefix B k m := by
      intro i k hmem
      cases hp : state.longestPrefixes.getD i none with
      | none =>
        obtain ⟨_, x, hx, _⟩ := hpending (i, k) hmem hp
        rw [hempty] at hx
        cases hx
      | some p =>
        obtain ⟨m, hm, rfl, hlongest⟩ := hstep.scanned.found i k p hmem hp
        exact ⟨m, hm, rfl, hlongest⟩
    rw [dif_pos hempty]
    refine ⟨W, state.longestPrefixes, reads, rfl, rfl, h.loaded hwf ?_, hstep.length_eq, ?_⟩
    · rintro k ⟨i, hmem⟩
      obtain ⟨m, hm, _, hlongest⟩ := hfound i k hmem
      exact ⟨m, hm, hlongest⟩
    · intro i k hmem
      obtain ⟨m, _, hp, hlongest⟩ := hfound i k hmem
      exact ⟨m, hp, hlongest⟩
  rw [dif_neg hempty]
  have hlt : d < 64 := by
    obtain ⟨x, hx⟩ := List.exists_mem_of_ne_nil _ hempty
    obtain ⟨_, _, j, _, _, _, hj, hj64, _⟩ := hstep.scanned.requested x hx
    omega
  have hrequested : ∀ x ∈ state.requestedKeys, ∃ node, B x.1.nibbles = some node ∧
      Database.treeNode db x.1 x.2 = some node := by
    intro x hx
    obtain ⟨_, k, j, node, r, _, hj, hj64, hnode, hr, rfl⟩ := hstep.scanned.requested x hx
    obtain rfl : j = d := by omega
    obtain ⟨child, hchild, _⟩ := hwf.exists_child hj64 hnode hr
    exact ⟨child, hchild, (hstored k j node r hj64 hnode hr).trans hchild⟩
  obtain ⟨level, hlevel, hsound, hcomplete⟩ := readLevel_spec db state.requestedKeys hrequested
  have hpush : LoadedTo B (fun k => ∃ i, (i, k) ∈ items) (W.pushLevelFromDb level)
      (d + 1 + 1) := by
    refine h.push (fun y hy => ?_) (fun k hk _ hne => ?_) (Nat.succ_pos d)
    · obtain ⟨hB, x, hx, hxy⟩ := hsound y hy
      obtain ⟨i, k, j, node, r, hmem, hj, hj64, hnode, hr, rfl⟩ := hstep.scanned.requested x hx
      refine ⟨k, j, node, r, ⟨i, hmem⟩, hj, hj64, hnode, hr, hxy.symm, ?_⟩
      rw [← hB, ← hxy]
      rfl
    · obtain ⟨i, hmem⟩ := hk
      have hnone : state.longestPrefixes.getD i none = none := by
        by_contra hsome
        obtain ⟨p, hp⟩ := Option.ne_none_iff_exists'.1 hsome
        obtain ⟨m, hm, _, hlongest⟩ := hstep.scanned.found i k p hmem hp
        exact hne (hlongest.none_below hwf hm hlt)
      obtain ⟨_, x, hx, hpos⟩ := hpending (i, k) hmem hnone
      obtain ⟨y, hy, hyx⟩ := hcomplete x hx
      exact ⟨y, hy, by rw [hyx, hpos]⟩
  have hscan' : Scanned B (d + 1 + 1) items ⟨state.longestPrefixes, state.prevNibbles, []⟩ := by
    refine ⟨fun i k p hmem hp => ?_, fun x hx => (by cases hx), fun q hq => .inl ?_⟩
    · obtain ⟨m, hm, hpos, hlongest⟩ := hstep.scanned.found i k p hmem hp
      exact ⟨m, by omega, hpos, hlongest⟩
    · rcases hstep.scanned.prev q hq with hcount | ⟨x, hx, rfl⟩
      · omega
      · obtain ⟨_, k, _, _, r, _, _, _, _, _, rfl⟩ := hstep.scanned.requested x hx
        show (new k (d + 1)).nibbleCount < _
        rw [Nibbles.nibbleCount_new]
        omega
  obtain ⟨W', prefixes', reads', hload, hroot, hloaded, hlength, hfound⟩ := ih (64 - (d + 1))
    (by omega) hlt hpush (reads + (Database.treeNodes db state.requestedKeys).length) hscan'
    (by rw [hstep.length_eq]; exact hitems)
    (fun i k hmem hnone => by
      obtain ⟨_, x, hx, hpos⟩ := hpending (i, k) hmem hnone
      obtain ⟨node, hnode, _⟩ := hrequested x hx
      rw [← hpos, hnode]
      exact Option.some_ne_none _) rfl
  refine ⟨W', prefixes', reads', ?_, hroot, hloaded, hlength.trans hstep.length_eq, hfound⟩
  simp only [hlevel, Outcome.ok_bind]
  exact hload

theorem WorkingPatchSet.entry_new (version : ℕ) (root : Root) (q : Nibbles) :
    (WorkingPatchSet.new version root).entry q =
      if q = .empty then root.node.map fun node => ⟨node, Nat.ppred version⟩ else none := by
  cases root with
  | empty =>
    rw [WorkingPatchSet.new, WorkingPatchSet.entry]
    split <;> rfl
  | filled leafCount node =>
    rw [WorkingPatchSet.new, WorkingPatchSet.entry]
    by_cases hq : q = .empty
    · subst hq
      exact (AList.lookup_singleton _ _ _).trans (if_pos rfl)
    · rw [if_neg hq]
      cases hcount : q.nibbleCount with
      | zero =>
        have hbytes : q.bytes ≠ Nibbles.empty.bytes := by
          intro hcon
          refine hq ?_
          cases q
          simp only at hcount hcon
          rw [hcount, hcon]
          rfl
        exact (AList.lookup_singleton _ _ _).trans (if_neg hbytes)
      | succ n => rfl

theorem loadedTo_new {root : Root} (hroot : root.node = B .empty) (hne : B .empty ≠ none)
    (version : ℕ) : LoadedTo B keys (WorkingPatchSet.new version root) 1 := by
  have hentry := WorkingPatchSet.entry_new version root
  have hget : (WorkingPatchSet.new version root).get .empty = B .empty := by
    rw [WorkingPatchSet.get, hentry, if_pos rfl, ← hroot, Option.map_map]
    exact Option.map_id'
  have hprev : ∀ e, (WorkingPatchSet.new version root).entry .empty = some e →
      e.prevVersion = Nat.ppred (WorkingPatchSet.new version root).rootVersion := fun e he => by
    rw [hentry, if_pos rfl, Option.map_eq_some_iff] at he
    obtain ⟨node, _, rfl⟩ := he
    cases root <;> rfl
  refine ⟨?_, hget, hprev, fun q e he => ?_, fun k _ n hn _ => ?_, fun k n e node r _ he => ?_⟩
  · cases root with
    | empty => exact absurd hroot.symm hne
    | filled leafCount node => rfl
  -- only the root is there
  · rw [hentry q] at he
    split at he
    · rename_i hq
      rw [Option.map_eq_some_iff] at he
      obtain ⟨node, hnode, rfl⟩ := he
      refine ⟨by rw [hq, ← hroot, hnode], 0, 0, .inl rfl, by omega, ?_⟩
      rw [hq, Nibbles.new_zero]
    · cases he
  · obtain rfl : n = 0 := by omega
    rw [Nibbles.new_zero, hget]
  · rw [hentry, if_neg] at he
    · cases he
    · intro hcon
      have hcount := congrArg Nibbles.nibbleCount hcon
      cases hcount

theorem mapM_unwrap {ε α : Type} (l : List (Option α)) (h : ∀ i < l.length, l.getD i none ≠ none) :
    ∃ l' : List α, (l.mapM fun x => (Outcome.unwrap x : Outcome ε α)) = .ok l' ∧
      ∀ i : ℕ, l'[i]? = l.getD i none := by
  induction l with
  | nil => exact ⟨[], rfl, fun i => rfl⟩
  | cons x l ih =>
    obtain ⟨a, ha⟩ := Option.ne_none_iff_exists'.1 (h 0 (by simp))
    obtain rfl : x = some a := ha
    obtain ⟨l', hl', hget⟩ := ih fun i hi => by
      have := h (i + 1) (by simpa using hi)
      simpa using this
    refine ⟨a :: l', ?_, fun i => ?_⟩
    · rw [List.mapM_cons, hl']
      rfl
    · cases i with
      | zero => rfl
      | succ i => simpa using hget i

/-- **Loading the nodes on the paths of the keys succeeds**, and finds how far the paths go. -/
theorem loadAncestors_spec (hwf : WellFormed B)
    (hstored : ∀ k n node r, n < 64 → B (new k n) = some (.internal node) →
      node.children (nibble k n) = some r →
      Database.treeNode db ⟨r.version, new k (n + 1)⟩ r.isLeaf = B (new k (n + 1))) {root : Root}
    (hroot : root.node = B .empty) (version : ℕ) (hitems : Indexed items items.length) :
    ∃ result W', (WorkingPatchSet.new version root).loadAncestors db items = .ok (result, W') ∧
      W'.rootVersion = version ∧ Loaded B (fun k => ∃ i, (i, k) ∈ items) W' ∧
      ∀ i k, (i, k) ∈ items → ∃ m, result.longestPrefixes[i]? = some (new k m) ∧
        LongestPrefix B k m := by
  have hentry := WorkingPatchSet.entry_new version root
  have hget : (WorkingPatchSet.new version root).get .empty = B .empty := by
    rw [WorkingPatchSet.get, hentry, if_pos rfl, ← hroot, Option.map_map]
    exact Option.map_id'
  have hversion : (WorkingPatchSet.new version root).rootVersion = version := by
    cases root <;> rfl
  by_cases hinternal : ∃ node, B .empty = some (.internal node)
  · obtain ⟨node, hnode⟩ := hinternal
    have hne : B .empty ≠ none := by rw [hnode]; exact Option.some_ne_none _
    have hscan : Scanned B 1 items ⟨List.replicate items.length none, none, []⟩ := by
      refine ⟨fun i k p _ hp => ?_, fun x hx => (by cases hx), fun q hq => by cases hq⟩
      rw [List.getD_eq_getElem?_getD, List.getElem?_replicate] at hp
      split at hp <;> cases hp
    obtain ⟨W', prefixes, reads, hload, hroot', hloaded, hlength, hfound⟩ :=
      loadLevels_spec hwf hstored (Nat.zero_le 64) (loadedTo_new hroot hne version) 0 hscan
        (by rw [List.length_replicate]; exact hitems)
        (fun i k _ _ => by rw [Nibbles.new_zero]; exact hne)
    rw [List.length_replicate] at hlength
    obtain ⟨longest, hlongest, heq⟩ := mapM_unwrap (ε := DatabaseError) prefixes fun i hi => by
      obtain ⟨k, hmem⟩ := hitems.complete i (by omega)
      obtain ⟨m, hm, _⟩ := hfound i k hmem
      rw [hm]
      exact Option.some_ne_none _
    refine ⟨⟨longest, reads⟩, W', ?_, hroot'.trans hversion, hloaded, fun i k hmem => ?_⟩
    · rw [loadAncestors, hget, hnode]
      simp only [hload, Outcome.ok_bind, hlongest]
    · obtain ⟨m, hm, hlong⟩ := hfound i k hmem
      exact ⟨m, by rw [heq, hm], hlong⟩
  · -- the tree is empty, or has a single leaf
    have hlongest : ∀ k, LongestPrefix B k 0 := fun k =>
      ⟨Nat.zero_le _, fun j hj => absurd hj (Nat.not_lt_zero j), fun _ =>
        hwf.none_below (k := k) (fun node hnode => hinternal
          ⟨node, by rw [← Nibbles.new_zero k]; exact hnode⟩) (Nat.lt_succ_self 0) (by omega) rfl⟩
    refine ⟨⟨List.replicate items.length .empty, 0⟩, WorkingPatchSet.new version root, ?_, hversion,
      ?_, fun i k hmem => ⟨0, ?_, hlongest k⟩⟩
    · rw [loadAncestors, hget]
      split
      · rename_i node hnode
        exact absurd ⟨node, hnode⟩ hinternal
      · rfl
    · by_cases hne : B .empty = none
      · have hnone : ∀ q, (WorkingPatchSet.new version root).entry q = none := fun q => by
          rw [hentry q, hroot, hne]
          split <;> rfl
        refine ⟨hget, fun e he => ?_, fun q e he => ?_, fun k _ n hn => ?_,
          fun k n e node r _ he => ?_⟩
        · rw [hnone] at he
          cases he
        · rw [hnone] at he
          cases he
        · rw [get_eq_none.2 (hnone _)]
          rcases Nat.eq_zero_or_pos n with rfl | hpos
          · rw [Nibbles.new_zero, hne]
          · rw [(hlongest k).none_below hwf hpos hn]
        · rw [hnone] at he
          cases he
      · exact (loadedTo_new hroot hne version).loaded hwf fun k _ => ⟨0, by omega, hlongest k⟩
    · rw [Nibbles.new_zero, List.getElem?_replicate, if_pos (hitems.lt i k hmem)]

/-! ### Over a stored version -/

theorem Loaded.view_eq (h : Loaded B keys W) : view W B = B := by
  funext q
  cases he : W.entry q with
  | some e => rw [view_of_entry he, (h.agree q e he).1]
  | none => exact view_of_none he

omit [LawfulDatabase DB] in
/-- **A working patch set over a stored version.**  A new version is made over older ones; a version
that is being recovered is its own base. -/
theorem Loaded.working (h : Loaded B keys W) {hasher : HashTree} {operation : Operation}
    {version : ℕ} {M : Contents} (hstored : Stored db hasher version B M)
    (hinsert : operation = .insert → ∀ k n node r, n < 64 → B (new k n) = some (.internal node) →
      node.children (nibble k n) = some r → r.version < W.rootVersion)
    (hupdate : operation = .update → ∀ k n node r, n < 64 → B (new k n) = some (.internal node) →
      node.children (nibble k n) = some r → r.version = W.rootVersion) :
    Working db hasher operation B keys W M := by
  have hview := h.view_eq
  have hentry : ∀ k n, W.entry (new k n) ≠ none → B (new k n) ≠ none := by
    intro k n hne
    obtain ⟨e, he⟩ := Option.ne_none_iff_exists'.1 hne
    rw [(h.agree _ e he).1]
    exact Option.some_ne_none _
  refine ⟨fun q hq => ?_, fun k n hn hne => ?_, fun hnone => ?_, fun _ e prev he hprev => ?_,
    by rw [hview]; exact hstored.wellFormed, by
      rw [hview]; exact hstored.represents, fun k hk n hn hnone => ?_,
    fun k n node r hn hnode hr => ?_, fun hoperation k n node node' r r' hn _ _ hnode' hr' heq =>
      ?_⟩
  · obtain ⟨e, he⟩ := Option.ne_none_iff_exists'.1 hq
    obtain ⟨_, k, n, _, hn, hpos⟩ := h.agree q e he
    exact ⟨k, n, hn, hpos⟩
  -- a loaded node is on the path of a key, and so is its parent
  · obtain ⟨e, he⟩ := Option.ne_none_iff_exists'.1 hne
    obtain ⟨_, k', m, hkey, _, hpos⟩ := h.agree _ e he
    obtain rfl := new_level hpos
    have hkey := hkey.resolve_left (Nat.succ_ne_zero n)
    obtain ⟨node, hnode⟩ := hstored.wellFormed.parent hn (hentry k (n + 1) hne)
    have hpos' : new k n = new k' n := new_mono (Nat.le_succ n) hn hpos
    rw [hpos'] at hnode ⊢
    rw [← h.get_eq k' hkey n hn.le] at hnode
    obtain ⟨e', he', _⟩ := WorkingPatchSet.get_eq_some.1 hnode
    rw [he']
    exact Option.some_ne_none _
  · rw [← h.rooted]
    exact get_eq_none.2 hnone
  · rw [h.rootPrev e he, Nat.ppred_eq_some] at hprev
    omega
  · rw [← h.get_eq k hk n hn]
    exact get_eq_none.2 hnone
  · rw [hview] at hnode
    obtain ⟨hle, hnodeEq⟩ := hstored.node_eq k n node r hn hnode hr
    -- nothing has been changed yet: every reference is as it is stored
    have hsettled : r.version ≤ W.rootVersion → (operation = .insert → r.version < W.rootVersion) →
        (∀ e, W.entry (new k (n + 1)) = some e → operation = .insert) →
        Settled db hasher operation W B M k n r := fun hversion hlt hoperation => by
      refine ⟨hstored.hash_eq k n node r hn hnode hr, hversion, hlt, ?_, fun e he =>
        ⟨hoperation e he, h.prev k n e node r hn he hnode hr⟩⟩
      rw [hnodeEq, hview]
      cases hchild : B (new k (n + 1)) with
      | none => rfl
      | some child => rw [Option.map_some, hstored.clone_eq _ child hchild]
    cases operation with
    | insert =>
      have hlt := hinsert rfl k n node r hn hnode hr
      exact .inr (hsettled hlt.le (fun _ => hlt) fun _ _ => rfl)
    | update =>
      have heq := hupdate rfl k n node r hn hnode hr
      cases he : W.entry (new k (n + 1)) with
      | some e => exact .inl ⟨heq, e, he, nofun⟩
      | none =>
        refine .inr (hsettled heq.le nofun fun e hcon => ?_)
        cases he.symm.trans hcon
  · rw [hview] at hnode'
    exact absurd heq (hinsert hoperation k (n + 1) node' r' (by omega) hnode' hr').ne

end Load

theorem mem_sortedKeys {keys : List Key} {k : Key} :
    (i, k) ∈ sortedKeys keys ↔ keys[i]? = some k := by
  rw [sortedKeys, List.mem_mergeSort, List.mem_map]
  constructor
  · rintro ⟨⟨k', i'⟩, hmem, heq⟩
    cases heq
    exact List.mem_zipIdx_iff_getElem?.1 hmem
  · exact fun h => ⟨(k, i), List.mem_zipIdx_iff_getElem?.2 h, rfl⟩

theorem length_sortedKeys (keys : List Key) : (sortedKeys keys).length = keys.length := by
  rw [sortedKeys, List.length_mergeSort, List.length_map, List.length_zipIdx]

theorem indexed_sortedKeys (keys : List Key) :
    Indexed (sortedKeys keys) (sortedKeys keys).length := by
  rw [length_sortedKeys]
  refine ⟨fun i k k' h h' => ?_, fun i k h => ?_, fun i hi => ⟨keys[i], ?_⟩⟩
  · rw [mem_sortedKeys] at h h'
    exact Option.some.inj (h.symm.trans h')
  · exact (List.getElem?_eq_some_iff.1 (mem_sortedKeys.1 h)).1
  · exact mem_sortedKeys.2 (List.getElem?_eq_getElem hi)

end MerkleTree
