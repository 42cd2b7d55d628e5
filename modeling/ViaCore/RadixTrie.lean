/-
Tries laid out in a table.

A key is read digit by digit, and a table of nodes is indexed by the positions that the first
digits of keys lead to.  A leaf names its whole key and may stand at any level; a branch says of
each digit whether there is a child and whether the child is a leaf.

* `Digits` — how keys are read;
* `Trie.WellFormed` — branches agree with the table, nothing hangs below a leaf or a gap;
* `Trie.Represents` — the table holds exactly the pairs of a map;
* `Trie.Stops` — where the descent along a key ends, with `Trie.Stops.lookup`;
* `Trie.Grafted` — new nodes at the end of a descent, with `Trie.Grafted.wellFormed` and
  `Trie.Grafted.represents`;
* `Trie.LeafAt`, `Trie.ForkAt` — the two things that are grafted.
-/
import Mathlib

/-- Keys read digit by digit; `pos k n` is the position that the first `n` digits of `k` lead to. -/
structure Digits (K P A : Type) where
  depth : ℕ
  digit : K → ℕ → A
  pos : K → ℕ → P
  pos_eq_iff : ∀ {k k' : K} {m n : ℕ}, m ≤ depth → n ≤ depth →
    (pos k m = pos k' n ↔ m = n ∧ ∀ i < n, digit k i = digit k' i)
  ext : ∀ {k k' : K}, (∀ i < depth, digit k i = digit k' i) → k = k'

namespace Digits

variable {K P A : Type} (D : Digits K P A) {k k' : K} {m n : ℕ}

theorem pos_mono (hmn : m ≤ n) (hn : n ≤ D.depth) (h : D.pos k n = D.pos k' n) :
    D.pos k m = D.pos k' m := by
  have hagree := ((D.pos_eq_iff hn hn).1 h).2
  exact (D.pos_eq_iff (hmn.trans hn) (hmn.trans hn)).2 ⟨rfl, fun i hi => hagree i (by omega)⟩

theorem digit_eq_of_pos (hmn : m < n) (hn : n ≤ D.depth) (h : D.pos k n = D.pos k' n) :
    D.digit k m = D.digit k' m :=
  ((D.pos_eq_iff hn hn).1 h).2 m hmn

theorem pos_succ (hn : n < D.depth) (h : D.pos k n = D.pos k' n)
    (hdigit : D.digit k n = D.digit k' n) : D.pos k (n + 1) = D.pos k' (n + 1) := by
  have hagree := ((D.pos_eq_iff hn.le hn.le).1 h).2
  refine (D.pos_eq_iff hn hn).2 ⟨rfl, fun i hi => ?_⟩
  rcases Nat.lt_succ_iff_lt_or_eq.1 hi with hlt | rfl
  · exact hagree i hlt
  · exact hdigit

theorem eq_of_pos_depth (h : D.pos k D.depth = D.pos k' D.depth) : k = k' :=
  D.ext ((D.pos_eq_iff le_rfl le_rfl).1 h).2

end Digits

namespace Trie

variable {K P A V : Type}

/-- A node, up to what it costs to find and to check its children. -/
inductive Shape (K V A : Type) where
  | leaf (key : K) (value : V)
  | branch (children : A → Option Bool)

def Shape.isLeaf : Shape K V A → Bool
  | leaf _ _ => true
  | branch _ => false

variable (D : Digits K P A) (S S' : P → Option (Shape K V A))

structure OkAt (k : K) (n : ℕ) : Prop where
  branch_lt : ∀ c, S (D.pos k n) = some (.branch c) → n < D.depth
  child : ∀ c, n < D.depth → S (D.pos k n) = some (.branch c) →
    c (D.digit k n) = (S (D.pos k (n + 1))).map Shape.isLeaf
  above : n < D.depth → S (D.pos k (n + 1)) ≠ none → ∃ c, S (D.pos k n) = some (.branch c)
  leaf_pos : ∀ key value, S (D.pos k n) = some (.leaf key value) → D.pos key n = D.pos k n

def WellFormed : Prop := ∀ k n, n ≤ D.depth → OkAt D S k n

/-- The leaves of the table are the pairs of the map. -/
def Represents (M : K → Option V) : Prop :=
  ∀ k v, M k = some v ↔ ∃ n ≤ D.depth, S (D.pos k n) = some (.leaf k v)

/-- The descent along `k` goes through branches and ends at level `n`. -/
structure Stops (k : K) (n : ℕ) : Prop where
  le_depth : n ≤ D.depth
  branches : ∀ j < n, ∃ c, S (D.pos k j) = some (.branch c)
  no_branch : ∀ c, S (D.pos k n) ≠ some (.branch c)

variable {D S S'} {M : K → Option V} {k k' : K} {v : V} {m n : ℕ}

theorem OkAt.of_none (hhere : S (D.pos k n) = none)
    (hbelow : n < D.depth → S (D.pos k (n + 1)) = none) : OkAt D S k n := by
  refine ⟨fun c hc => ?_, fun c _ hc => ?_, fun hlt hne => absurd (hbelow hlt) hne,
    fun key value hc => ?_⟩ <;> rw [hhere] at hc <;> cases hc

theorem OkAt.of_leaf {key : K} (hhere : S (D.pos k n) = some (.leaf key v))
    (hpos : D.pos key n = D.pos k n) (hbelow : n < D.depth → S (D.pos k (n + 1)) = none) :
    OkAt D S k n := by
  refine ⟨fun c hc => ?_, fun c _ hc => ?_, fun hlt hne => absurd (hbelow hlt) hne,
    fun key' value hc => ?_⟩ <;> rw [hhere] at hc <;> cases hc
  exact hpos

variable {c : A → Option Bool}

theorem OkAt.of_branch (hhere : S (D.pos k n) = some (.branch c))
    (hlt : n < D.depth) (hchild : c (D.digit k n) = (S (D.pos k (n + 1))).map Shape.isLeaf) :
    OkAt D S k n := by
  refine ⟨fun _ _ => hlt, fun c' _ hc => ?_, fun _ _ => ⟨c, hhere⟩, fun key value hc => ?_⟩ <;>
    rw [hhere] at hc <;> cases hc
  exact hchild

/-! ### Reading a table -/

variable {j : ℕ}

theorem WellFormed.branch_above (hwf : WellFormed D S) (hn : n ≤ D.depth) (h : S (D.pos k n) ≠ none)
    (hj : j < n) : ∃ c, S (D.pos k j) = some (.branch c) := by
  induction n with
  | zero => exact absurd hj (Nat.not_lt_zero _)
  | succ n ih =>
    obtain ⟨c, hc⟩ := (hwf k n (by omega)).above (by omega) h
    rcases Nat.lt_succ_iff_lt_or_eq.1 hj with hlt | rfl
    · exact ih (by omega) (by rw [hc]; exact Option.some_ne_none _) hlt
    · exact ⟨c, hc⟩

theorem WellFormed.le_of_leaf (hwf : WellFormed D S) {key : K} (hm : m ≤ D.depth)
    (hleaf : S (D.pos k n) = some (.leaf key v)) (h : S (D.pos k m) ≠ none) : m ≤ n := by
  by_contra hlt
  obtain ⟨c, hc⟩ := hwf.branch_above hm h (Nat.lt_of_not_le hlt)
  cases hleaf.symm.trans hc

theorem WellFormed.leaf_unique (hwf : WellFormed D S) (hn : n ≤ D.depth) (hm : m ≤ D.depth)
    {key : K} {v' : V} (hleaf : S (D.pos k n) = some (.leaf key v))
    (hpos : D.pos k' n = D.pos k n) (hleaf' : S (D.pos k' m) = some (.leaf k' v')) :
    k' = key ∧ v' = v := by
  have hhere : S (D.pos k' n) = some (.leaf key v) := by rw [hpos, hleaf]
  have hle : m ≤ n := hwf.le_of_leaf hm hhere (by rw [hleaf']; exact Option.some_ne_none _)
  have hge : n ≤ m := hwf.le_of_leaf hn hleaf' (by rw [hhere]; exact Option.some_ne_none _)
  obtain rfl := Nat.le_antisymm hle hge
  cases hleaf'.symm.trans hhere
  exact ⟨rfl, rfl⟩

theorem Stops.lookup (hstop : Stops D S k n) (hwf : WellFormed D S) (hrep : Represents D S M) :
    M k = some v ↔ S (D.pos k n) = some (.leaf k v) := by
  rw [hrep k v]
  constructor
  · rintro ⟨m, hm, hleaf⟩
    have hge : n ≤ m := by
      by_contra hlt
      obtain ⟨c, hc⟩ := hstop.branches m (Nat.lt_of_not_le hlt)
      cases hleaf.symm.trans hc
    rcases Nat.lt_or_eq_of_le hge with hlt | rfl
    · obtain ⟨c, hc⟩ := hwf.branch_above hm (by rw [hleaf]; exact Option.some_ne_none _) hlt
      exact absurd hc (hstop.no_branch c)
    · exact hleaf
  · exact fun hleaf => ⟨n, hstop.le_depth, hleaf⟩

theorem Represents.none_of_gap (hrep : Represents D S M) (hwf : WellFormed D S)
    (hn : n < D.depth) (hbranch : S (D.pos k n) = some (.branch c))
    (hgap : c (D.digit k n) = none) (hpos : D.pos k' (n + 1) = D.pos k (n + 1)) : M k' = none := by
  have hhere : S (D.pos k' n) = some (.branch c) := by
    rw [D.pos_mono (Nat.le_succ n) hn hpos, hbranch]
  have hbelow : S (D.pos k' (n + 1)) = none := by
    have hchild := (hwf k n hn.le).child c hn hbranch
    rw [hgap] at hchild
    rw [hpos]
    exact Option.map_eq_none_iff.1 hchild.symm
  have hstop : Stops D S k' (n + 1) :=
    { le_depth := hn
      branches := fun j hj => by
        rcases Nat.lt_succ_iff_lt_or_eq.1 hj with hlt | rfl
        · exact hwf.branch_above hn.le (by rw [hhere]; exact Option.some_ne_none _) hlt
        · exact ⟨c, hhere⟩
      no_branch := fun c' => by rw [hbelow]; exact (Option.some_ne_none _).symm }
  rw [Option.eq_none_iff_forall_ne_some]
  intro v hv
  rw [hstop.lookup hwf hrep, hbelow] at hv
  cases hv

theorem Represents.none_of_empty (hrep : Represents D S M) (hwf : WellFormed D S)
    (hempty : S (D.pos k 0) = none) : M k = none := by
  have hstop : Stops D S k 0 :=
    { le_depth := Nat.zero_le _
      branches := fun j hj => absurd hj (Nat.not_lt_zero _)
      no_branch := fun c' => by rw [hempty]; exact (Option.some_ne_none _).symm }
  rw [Option.eq_none_iff_forall_ne_some]
  intro v hv
  rw [hstop.lookup hwf hrep, hempty] at hv
  cases hv

/-! ### Grafting -/

/-- The second table differs from the first at and below the position of the first `n` digits of
`k`, and in what the branch above says of that position. -/
structure Grafted [DecidableEq A] (D : Digits K P A) (S S' : P → Option (Shape K V A)) (k : K)
    (n : ℕ) : Prop where
  outside : ∀ k' j, j ≤ D.depth → ¬ (n ≤ j ∧ D.pos k' n = D.pos k n) →
    ¬ (j + 1 = n ∧ D.pos k' j = D.pos k j) → S' (D.pos k' j) = S (D.pos k' j)
  parent : ∀ j, j + 1 = n → ∃ c, S (D.pos k j) = some (.branch c) ∧
    S' (D.pos k j) =
      some (.branch (Function.update c (D.digit k j) ((S' (D.pos k n)).map Shape.isLeaf)))
  under : ∀ k' j, n ≤ j → j ≤ D.depth → D.pos k' n = D.pos k n → OkAt D S' k' j

section Graft

variable [DecidableEq A] (hgraft : Grafted D S S' k n)

include hgraft

theorem Grafted.isLeaf_outside (hj : j ≤ D.depth) (hout : ¬ (n ≤ j ∧ D.pos k' n = D.pos k n)) :
    (S' (D.pos k' j)).map Shape.isLeaf = (S (D.pos k' j)).map Shape.isLeaf := by
  by_cases hpar : j + 1 = n ∧ D.pos k' j = D.pos k j
  · obtain ⟨c, hc, hc'⟩ := hgraft.parent j hpar.1
    rw [hpar.2, hc, hc']
    rfl
  · rw [hgraft.outside k' j hj hout hpar]

theorem Grafted.wellFormed (hwf : WellFormed D S) (hn : n ≤ D.depth) : WellFormed D S' := by
  intro k' j hj
  by_cases hunder : n ≤ j ∧ D.pos k' n = D.pos k n
  · exact hgraft.under k' j hunder.1 hj hunder.2
  have hok := hwf k' j hj
  by_cases hpar : j + 1 = n ∧ D.pos k' j = D.pos k j
  · -- the branch above the graft
    obtain ⟨hjn, hpos⟩ := hpar
    obtain ⟨c, hc, hc'⟩ := hgraft.parent j hjn
    have hlt : j < D.depth := by omega
    rw [← hpos] at hc hc'
    refine .of_branch hc' hlt ?_
    by_cases hdigit : D.digit k' j = D.digit k j
    · have hsucc : D.pos k' (j + 1) = D.pos k (j + 1) := D.pos_succ hlt hpos hdigit
      rw [hdigit, Function.update_self, hsucc, hjn]
    · have hout : ¬ (n ≤ j + 1 ∧ D.pos k' n = D.pos k n) := fun hcon =>
        hdigit (D.digit_eq_of_pos (by omega) hn hcon.2)
      rw [Function.update_of_ne hdigit, hgraft.isLeaf_outside hlt hout]
      exact hok.child c hlt hc
  · -- elsewhere the node is as before, and so is the kind of its child
    have hsame := hgraft.outside k' j hj hunder hpar
    have hchild : j < D.depth →
        (S' (D.pos k' (j + 1))).map Shape.isLeaf = (S (D.pos k' (j + 1))).map Shape.isLeaf := by
      intro hlt
      refine hgraft.isLeaf_outside hlt fun hcon => ?_
      rcases Nat.lt_or_ge j n with hjn | hjn
      · have hj1 : j + 1 = n := by omega
        exact hpar ⟨hj1, D.pos_mono (by omega) hn hcon.2⟩
      · exact hunder ⟨hjn, hcon.2⟩
    refine ⟨fun c h => ?_, fun c hlt h => ?_, fun hlt h => ?_, fun key value h => ?_⟩
    · exact hok.branch_lt c (hsame ▸ h)
    · rw [hchild hlt]
      exact hok.child c hlt (hsame ▸ h)
    · rw [hsame]
      refine hok.above hlt fun hnone => h ?_
      have hmap := hchild hlt
      rw [hnone] at hmap
      exact Option.map_eq_none_iff.1 hmap
    · exact hok.leaf_pos key value (hsame ▸ h)

/-- **What a graft does to the map**: keys elsewhere keep their values, the keys below the graft
have those of the new nodes. -/
theorem Grafted.represents {M' : K → Option V} (hrep : Represents D S M) (hn : n ≤ D.depth)
    (hbranches : ∀ j < n, ∃ c, S (D.pos k j) = some (.branch c))
    (helse : ∀ k', D.pos k' n ≠ D.pos k n → M' k' = M k')
    (hhere : ∀ k' v, D.pos k' n = D.pos k n →
      (M' k' = some v ↔ ∃ j ≤ D.depth, n ≤ j ∧ S' (D.pos k' j) = some (.leaf k' v))) :
    Represents D S' M' := by
  intro k' v
  by_cases hpos : D.pos k' n = D.pos k n
  · rw [hhere k' v hpos]
    refine ⟨fun ⟨j, hj, _, hleaf⟩ => ⟨j, hj, hleaf⟩, fun ⟨j, hj, hleaf⟩ => ⟨j, hj, ?_, hleaf⟩⟩
    -- above the graft there are branches
    by_contra hlt
    have hj' : D.pos k' j = D.pos k j := D.pos_mono (by omega) hn hpos
    obtain ⟨c, hc⟩ := hbranches j (by omega)
    have hkind : (S' (D.pos k' j)).map Shape.isLeaf = (S (D.pos k' j)).map Shape.isLeaf :=
      hgraft.isLeaf_outside hj fun hcon => hlt hcon.1
    rw [hleaf, hj', hc] at hkind
    cases hkind
  · rw [helse k' hpos, hrep k' v]
    have hsame : ∀ j ≤ D.depth, (S' (D.pos k' j) = some (.leaf k' v) ↔
        S (D.pos k' j) = some (.leaf k' v)) := by
      intro j hj
      by_cases hpar : j + 1 = n ∧ D.pos k' j = D.pos k j
      · obtain ⟨c, hc, hc'⟩ := hgraft.parent j hpar.1
        rw [hpar.2, hc, hc']
        constructor <;> intro h <;> cases h
      · rw [hgraft.outside k' j hj (fun hcon => hpos hcon.2) hpar]
    constructor
    · rintro ⟨j, hj, hleaf⟩
      exact ⟨j, hj, (hsame j hj).2 hleaf⟩
    · rintro ⟨j, hj, hleaf⟩
      exact ⟨j, hj, (hsame j hj).1 hleaf⟩

end Graft

/-! ### What is grafted -/

structure LeafAt (D : Digits K P A) (S : P → Option (Shape K V A)) (k : K) (v : V) (n : ℕ) :
    Prop where
  leaf : S (D.pos k n) = some (.leaf k v)
  below : ∀ k' j, n < j → j ≤ D.depth → D.pos k' n = D.pos k n → S (D.pos k' j) = none

theorem LeafAt.under (h : LeafAt D S k v n) (hnj : n ≤ j) (hj : j ≤ D.depth)
    (hpos : D.pos k' n = D.pos k n) : OkAt D S k' j := by
  have hbelow : j < D.depth → S (D.pos k' (j + 1)) = none := fun hlt =>
    h.below k' (j + 1) (by omega) hlt hpos
  rcases Nat.lt_or_eq_of_le hnj with hlt | rfl
  · exact .of_none (h.below k' j hlt hj hpos) hbelow
  · have hhere : S (D.pos k' n) = some (.leaf k v) := by rw [hpos, h.leaf]
    exact .of_leaf hhere hpos.symm hbelow

theorem LeafAt.leaves (h : LeafAt D S k v n) (hn : n ≤ D.depth) (hpos : D.pos k' n = D.pos k n)
    {v' : V} : (∃ j ≤ D.depth, n ≤ j ∧ S (D.pos k' j) = some (.leaf k' v')) ↔ k' = k ∧ v' = v := by
  constructor
  · rintro ⟨j, hj, hnj, hleaf⟩
    rcases Nat.lt_or_eq_of_le hnj with hlt | rfl
    · rw [h.below k' j hlt hj hpos] at hleaf
      cases hleaf
    · rw [hpos, h.leaf] at hleaf
      cases hleaf
      exact ⟨rfl, rfl⟩
  · rintro ⟨rfl, rfl⟩
    exact ⟨n, hn, le_rfl, h.leaf⟩

/-- A chain of branches with one child each down to the level `m` where two keys part, and a leaf
for each of them. -/
structure ForkAt [DecidableEq A] (D : Digits K P A) (S : P → Option (Shape K V A)) (k k₂ : K)
    (v v₂ : V) (n m : ℕ) : Prop where
  le : n ≤ m
  lt : m < D.depth
  agree : D.pos k₂ m = D.pos k m
  differ : D.digit k m ≠ D.digit k₂ m
  chain : ∀ j, n ≤ j → j < m → S (D.pos k j) =
    some (.branch (Function.update (fun _ => none) (D.digit k j) (some false)))
  fork : S (D.pos k m) = some (.branch (Function.update
    (Function.update (fun _ => none) (D.digit k m) (some true)) (D.digit k₂ m) (some true)))
  leaf : S (D.pos k (m + 1)) = some (.leaf k v)
  moved : S (D.pos k₂ (m + 1)) = some (.leaf k₂ v₂)
  rest : ∀ k' j, n ≤ j → j ≤ D.depth → D.pos k' n = D.pos k n →
    (j ≤ m → D.pos k' j ≠ D.pos k j) →
    (j = m + 1 → D.pos k' j ≠ D.pos k j ∧ D.pos k' j ≠ D.pos k₂ j) → S (D.pos k' j) = none

theorem fork_positions (D : Digits K P A) (k k₂ k' : K) (m j : ℕ) :
    (j < m ∧ D.pos k' j = D.pos k j) ∨ (j = m ∧ D.pos k' j = D.pos k j) ∨
    (j = m + 1 ∧ D.pos k' j = D.pos k j) ∨ (j = m + 1 ∧ D.pos k' j = D.pos k₂ j) ∨
    ((j ≤ m → D.pos k' j ≠ D.pos k j) ∧
      (j = m + 1 → D.pos k' j ≠ D.pos k j ∧ D.pos k' j ≠ D.pos k₂ j)) := by
  by_cases h1 : D.pos k' j = D.pos k j
  · rcases Nat.lt_trichotomy j m with hlt | heq | hgt
    · exact .inl ⟨hlt, h1⟩
    · exact .inr (.inl ⟨heq, h1⟩)
    · by_cases hj : j = m + 1
      · exact .inr (.inr (.inl ⟨hj, h1⟩))
      · exact .inr (.inr (.inr (.inr ⟨fun _ => by omega, fun hcon => absurd hcon hj⟩)))
  · by_cases h2 : j = m + 1 ∧ D.pos k' j = D.pos k₂ j
    · exact .inr (.inr (.inr (.inl h2)))
    · exact .inr (.inr (.inr (.inr ⟨fun _ => h1, fun hj => ⟨h1, fun hcon => h2 ⟨hj, hcon⟩⟩⟩)))

section Fork

variable [DecidableEq A] {k₂ : K} {v₂ : V} (h : ForkAt D S k k₂ v v₂ n m)

include h

theorem ForkAt.chain_isLeaf (hnj : n ≤ j) (hjm : j ≤ m) :
    (S (D.pos k j)).map Shape.isLeaf = some false := by
  rcases Nat.lt_or_eq_of_le hjm with hlt | rfl
  · rw [h.chain j hnj hlt]
    rfl
  · rw [h.fork]
    rfl

theorem ForkAt.below (hm : m + 1 < j) (hj : j ≤ D.depth) (hpos : D.pos k' n = D.pos k n) :
    S (D.pos k' j) = none := by
  have hle := h.le
  exact h.rest k' j (by omega) hj hpos (fun _ => by omega) (fun _ => by omega)

theorem ForkAt.under (hnj : n ≤ j) (hj : j ≤ D.depth) (hpos : D.pos k' n = D.pos k n) :
    OkAt D S k' j := by
  have hlt := h.lt
  rcases fork_positions D k k₂ k' m j with
    ⟨hjm, hp⟩ | ⟨rfl, hp⟩ | ⟨rfl, hp⟩ | ⟨rfl, hp⟩ | ⟨hp1, hp2⟩
  · -- in the chain
    have hhere := h.chain j hnj hjm
    rw [← hp] at hhere
    refine .of_branch hhere (by omega) ?_
    by_cases hdigit : D.digit k' j = D.digit k j
    · rw [hdigit, Function.update_self, D.pos_succ (by omega) hp hdigit,
        h.chain_isLeaf (by omega) (by omega)]
    · have hnone : S (D.pos k' (j + 1)) = none := by
        refine h.rest k' (j + 1) (by omega) (by omega) hpos (fun _ hcon => ?_) (fun _ => by omega)
        exact hdigit (D.digit_eq_of_pos (Nat.lt_succ_self j) (by omega) hcon)
      rw [Function.update_of_ne hdigit, hnone]
      rfl
  · -- where the keys part
    have hhere := h.fork
    rw [← hp] at hhere
    refine .of_branch hhere hlt ?_
    by_cases hmoved : D.digit k' j = D.digit k₂ j
    · have hsucc : D.pos k' (j + 1) = D.pos k₂ (j + 1) :=
        D.pos_succ hlt (hp.trans h.agree.symm) hmoved
      rw [hmoved, Function.update_self, hsucc, h.moved]
      rfl
    · rw [Function.update_of_ne hmoved]
      by_cases hdigit : D.digit k' j = D.digit k j
      · rw [hdigit, Function.update_self, D.pos_succ hlt hp hdigit, h.leaf]
        rfl
      · have hnone : S (D.pos k' (j + 1)) = none := by
          refine h.rest k' (j + 1) (by omega) (by omega) hpos (fun _ => by omega)
            (fun _ => ⟨fun hcon => ?_, fun hcon => ?_⟩)
          · exact hdigit (D.digit_eq_of_pos (Nat.lt_succ_self j) hlt hcon)
          · exact hmoved (D.digit_eq_of_pos (Nat.lt_succ_self j) hlt hcon)
        rw [Function.update_of_ne hdigit, hnone]
        rfl
  · -- the new leaf
    have hhere : S (D.pos k' (m + 1)) = some (.leaf k v) := by rw [hp, h.leaf]
    exact .of_leaf hhere hp.symm fun hlt' => h.below (by omega) hlt' hpos
  · -- the moved leaf
    have hhere : S (D.pos k' (m + 1)) = some (.leaf k₂ v₂) := by rw [hp, h.moved]
    exact .of_leaf hhere hp.symm fun hlt' => h.below (by omega) hlt' hpos
  · -- a gap, with nothing below it
    refine .of_none (h.rest k' j hnj hj hpos hp1 hp2) fun hlt' => ?_
    refine h.rest k' (j + 1) (by omega) hlt' hpos (fun hle hcon => ?_) (fun heq => ?_)
    · exact hp1 (by omega) (D.pos_mono (Nat.le_succ j) hlt' hcon)
    · obtain rfl : j = m := by omega
      refine ⟨fun hcon => hp1 le_rfl (D.pos_mono (Nat.le_succ j) hlt' hcon), fun hcon => ?_⟩
      exact hp1 le_rfl ((D.pos_mono (Nat.le_succ j) hlt' hcon).trans h.agree)

theorem ForkAt.leaves (hpos : D.pos k' n = D.pos k n) {v' : V} :
    (∃ j ≤ D.depth, n ≤ j ∧ S (D.pos k' j) = some (.leaf k' v')) ↔
      (k' = k ∧ v' = v) ∨ (k' = k₂ ∧ v' = v₂) := by
  have hle := h.le
  constructor
  · rintro ⟨j, hj, hnj, hleaf⟩
    rcases fork_positions D k k₂ k' m j with
      ⟨hjm, hp⟩ | ⟨rfl, hp⟩ | ⟨rfl, hp⟩ | ⟨rfl, hp⟩ | ⟨hp1, hp2⟩
    · rw [hp, h.chain j hnj hjm] at hleaf
      cases hleaf
    · rw [hp, h.fork] at hleaf
      cases hleaf
    · rw [hp, h.leaf] at hleaf
      cases hleaf
      exact .inl ⟨rfl, rfl⟩
    · rw [hp, h.moved] at hleaf
      cases hleaf
      exact .inr ⟨rfl, rfl⟩
    · rw [h.rest k' j hnj hj hpos hp1 hp2] at hleaf
      cases hleaf
  · rintro (⟨rfl, rfl⟩ | ⟨rfl, rfl⟩)
    · exact ⟨m + 1, h.lt, by omega, h.leaf⟩
    · exact ⟨m + 1, h.lt, by omega, h.moved⟩

end Fork

end Trie
