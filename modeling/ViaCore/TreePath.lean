/-
Paths through a full binary tree.

A path from the leaf `k` to the root passes one subtree of each height, and has one subtree next to
it at each height.  Whoever knows the leaf and the hashes of the subtrees next to the path can
compute the root.

* `FullTree.sibling` — the subtree next to the path;
* `FullTree.climb` — the hash computed from a leaf and the hashes next to the path;
* `FullTree.climb_eq_hash` — with the right hashes it is the hash of the tree;
* `FullTree.climb_sound` — without collisions, only with the right ones;
* `FullTree.hashFrom` — the hash of a subtree when only the leaves from some number on are known.
-/
import ViaCore.FullTree

namespace FullTree

variable {H : Type}

/-- The subtree next to the one of height `d` that holds the leaf `k`. -/
def sibling (k d : ℕ) : ℕ := if k.testBit d then k / 2 ^ d - 1 else k / 2 ^ d + 1

theorem xor_one (x : ℕ) : x ^^^ 1 = if x % 2 = 1 then x - 1 else x + 1 := by
  split
  · exact Nat.xor_one_of_odd (Nat.odd_iff.2 (by assumption))
  · exact Nat.xor_one_of_even (Nat.even_iff.2 (by omega))

theorem sibling_eq {k d a j : ℕ} (h : k / 2 ^ d = 2 * a + j) : sibling k d = 2 * a + (j ^^^ 1) := by
  have hbit : k.testBit d = decide (k / 2 ^ d % 2 = 1) := Nat.testBit_eq_decide_div_mod_eq
  rw [sibling, hbit, h, xor_one, show (2 * a + j) % 2 = j % 2 by omega]
  by_cases hodd : j % 2 = 1
  · rw [if_pos (decide_eq_true hodd), if_pos hodd]
    omega
  · rw [if_neg (by simpa using hodd), if_neg hodd]
    omega

theorem sibling_ne (k d : ℕ) : k / 2 ^ d ≠ sibling k d := by
  have h := sibling_eq (k := k) (d := d) (a := 0) (j := k / 2 ^ d) (by omega)
  rw [h, xor_one]
  split <;> omega

theorem lt_iff_testBit {i k d : ℕ} (hi : i / 2 ^ d = sibling k d) : i < k ↔ k.testBit d = true := by
  have hne := sibling_ne k d
  by_cases hbit : k.testBit d = true
  · rw [sibling, if_pos hbit] at hi hne
    refine iff_of_true (Nat.lt_of_not_le fun hle => hne ?_) hbit
    have hdiv : k / 2 ^ d ≤ i / 2 ^ d := Nat.div_le_div_right hle
    rw [hi] at hdiv
    exact le_antisymm hdiv (Nat.sub_le _ 1)
  · rw [sibling, if_neg hbit] at hi
    refine iff_of_false (fun hlt => ?_) hbit
    have hdiv : i / 2 ^ d ≤ k / 2 ^ d := Nat.div_le_div_right hlt.le
    rw [hi] at hdiv
    exact Nat.not_succ_le_self _ hdiv

theorem div_of_sibling {i k d e : ℕ} (hi : i / 2 ^ d = sibling k d) (hde : d < e) :
    i / 2 ^ e = k / 2 ^ e := by
  have hhalf : sibling k d / 2 = k / 2 ^ d / 2 := by
    have h := sibling_eq (k := k) (d := d) (a := k / 2 ^ d / 2) (j := k / 2 ^ d % 2) (by omega)
    rw [h, xor_one]
    split <;> omega
  obtain ⟨f, rfl⟩ : ∃ f, e = d + 1 + f := ⟨e - (d + 1), by omega⟩
  rw [pow_add, ← Nat.div_div_eq_div_mul, ← Nat.div_div_eq_div_mul, div_two_pow_succ,
    div_two_pow_succ, hi, hhalf]

/-- Of two different leaves, one is in the sibling of the subtree that holds the other at exactly
one height: that of the highest bit in which they differ. -/
theorem div_eq_sibling_iff {a b d : ℕ} : b / 2 ^ d = sibling a d ↔ (a ^^^ b).size = d + 1 := by
  have hsibling : sibling a d = a / 2 ^ d ^^^ 1 := by
    have h := sibling_eq (k := a) (d := d) (a := 0) (j := a / 2 ^ d) (by omega)
    omega
  have hdiv : (a ^^^ b) / 2 ^ d = a / 2 ^ d ^^^ b / 2 ^ d := by
    rw [← Nat.shiftRight_eq_div_pow, Nat.shiftRight_xor_distrib, Nat.shiftRight_eq_div_pow,
      Nat.shiftRight_eq_div_pow]
  have hone : b / 2 ^ d = a / 2 ^ d ^^^ 1 ↔ (a ^^^ b) / 2 ^ d = 1 := by
    rw [hdiv]
    constructor
    · intro h
      rw [h, ← Nat.xor_assoc, Nat.xor_self, Nat.zero_xor]
    · intro h
      rw [← h, ← Nat.xor_assoc, Nat.xor_self, Nat.zero_xor]
  rw [hsibling, hone]
  have hlt : d < (a ^^^ b).size ↔ 2 ^ d ≤ a ^^^ b := Nat.lt_size
  have hle : (a ^^^ b).size ≤ d + 1 ↔ a ^^^ b < 2 ^ (d + 1) := Nat.size_le
  have hpos : 0 < 2 ^ d := Nat.two_pow_pos d
  have hquot : (a ^^^ b) / 2 ^ d = 1 ↔ 2 ^ d ≤ a ^^^ b ∧ a ^^^ b < 2 ^ (d + 1) := by
    rw [pow_succ, Nat.div_eq_iff hpos]
    omega
  omega

/-- The two hashes in their order, where the bit says that `x` is on the right. -/
def orient (bit : Bool) (adjacent x : H) : H × H := if bit then (adjacent, x) else (x, adjacent)

theorem orient_inj {bit : Bool} {a a' x x' : H} :
    orient bit a x = orient bit a' x' ↔ a = a' ∧ x = x' := by
  cases bit with
  | false =>
    simp only [orient, Bool.false_eq_true, if_false, Prod.mk.injEq]
    exact And.comm
  | true => simp only [orient, if_true, Prod.mk.injEq]

variable (branch : H → H → H)

/-- The hash at height `d` above the leaf `k`, from the hash `x` of the leaf and the hashes next to
the path. -/
def climb (k : ℕ) (adjacent : ℕ → H) (x : H) : ℕ → H
  | 0 => x
  | d + 1 =>
    let pair := orient (k.testBit d) (adjacent d) (climb k adjacent x d)
    branch pair.1 pair.2

variable {branch} {leaf : ℕ → H} {k : ℕ} {adjacent : ℕ → H} {x : H}

theorem climb_congr {adjacent' : ℕ → H} {h : ℕ} (heq : ∀ d < h, adjacent d = adjacent' d) :
    climb branch k adjacent x h = climb branch k adjacent' x h := by
  induction h with
  | zero => rfl
  | succ h ih => rw [climb, climb, ih fun d hd => heq d (by omega), heq h (Nat.lt_succ_self h)]

theorem orient_hash (k d : ℕ) :
    orient (k.testBit d) (hash branch leaf d (sibling k d)) (hash branch leaf d (k / 2 ^ d))
      = (hash branch leaf d (2 * (k / 2 ^ (d + 1))),
          hash branch leaf d (2 * (k / 2 ^ (d + 1)) + 1)) := by
  have hbit : k.testBit d = decide (k / 2 ^ d % 2 = 1) := Nat.testBit_eq_decide_div_mod_eq
  rw [div_two_pow_succ]
  by_cases hodd : k / 2 ^ d % 2 = 1
  · have htrue : k.testBit d = true := by rw [hbit, decide_eq_true hodd]
    have hleft : k / 2 ^ d - 1 = 2 * (k / 2 ^ d / 2) := by omega
    have hright : 2 * (k / 2 ^ d / 2) + 1 = k / 2 ^ d := by omega
    rw [sibling, htrue, if_pos rfl, orient, if_pos rfl, hright, hleft]
  · have hfalse : k.testBit d = false := by rw [hbit, decide_eq_false hodd]
    have hself : 2 * (k / 2 ^ d / 2) = k / 2 ^ d := by omega
    rw [sibling, hfalse, if_neg Bool.false_ne_true, orient, if_neg Bool.false_ne_true, hself]

theorem climb_eq_hash {h : ℕ} (hadjacent : ∀ d < h, adjacent d = hash branch leaf d (sibling k d)) :
    climb branch k adjacent (leaf k) h = hash branch leaf h (k / 2 ^ h) := by
  induction h with
  | zero => rw [climb, pow_zero, Nat.div_one, hash]
  | succ h ih =>
    rw [climb, ih fun d hd => hadjacent d (by omega), hadjacent h (Nat.lt_succ_self h), orient_hash,
      hash]

/-- **A climb that reaches the tree took the right hashes**, the leaf included, if there is no
collision among the pairs in the tree and those of the climb. -/
theorem climb_sound {S : Set (H × H)} (hinj : Set.InjOn (fun q : H × H => branch q.1 q.2) S) {h : ℕ}
    (htree : ∀ d < h, (hash branch leaf d (2 * (k / 2 ^ (d + 1))),
      hash branch leaf d (2 * (k / 2 ^ (d + 1)) + 1)) ∈ S)
    (hpath : ∀ d < h, orient (k.testBit d) (adjacent d) (climb branch k adjacent x d) ∈ S)
    (heq : climb branch k adjacent x h = hash branch leaf h (k / 2 ^ h)) :
    x = leaf k ∧ ∀ d < h, adjacent d = hash branch leaf d (sibling k d) := by
  induction h with
  | zero =>
    rw [climb, pow_zero, Nat.div_one, hash] at heq
    exact ⟨heq, fun d hd => absurd hd (Nat.not_lt_zero d)⟩
  | succ h ih =>
    -- peel off the topmost pair
    have hpair := hinj (hpath h (Nat.lt_succ_self h)) (htree h (Nat.lt_succ_self h)) heq
    rw [← orient_hash, orient_inj] at hpair
    obtain ⟨hleaf, hbelow⟩ := ih (fun d hd => htree d (by omega)) (fun d hd => hpath d (by omega))
      hpair.2
    refine ⟨hleaf, fun d hd => ?_⟩
    rcases Nat.lt_succ_iff_lt_or_eq.1 hd with hlt | rfl
    · exact hbelow d hlt
    · exact hpair.1

/-! ### Leaves from some number on -/

variable (branch) in
/-- The hash of a subtree, where the leaves from number `a` on are known, and a subtree of height
`d` to the left of all of them has the hash `left d`. -/
def hashFrom (leaf : ℕ → H) (a : ℕ) (left : ℕ → H) : ℕ → ℕ → H
  | 0, i => if i < a then left 0 else leaf i
  | d + 1, i =>
    if i < a / 2 ^ (d + 1) then left (d + 1)
    else branch (hashFrom leaf a left d (2 * i)) (hashFrom leaf a left d (2 * i + 1))

section HashFrom

variable {leaf leaf' : ℕ → H} {a d i : ℕ} {left : ℕ → H}

theorem hashFrom_of_lt (h : i < a / 2 ^ d) : hashFrom branch leaf a left d i = left d := by
  cases d with
  | zero => rw [hashFrom, if_pos (by simpa using h)]
  | succ d => rw [hashFrom, if_pos h]

theorem hashFrom_zero (h : a ≤ i) : hashFrom branch leaf a left 0 i = leaf i := by
  rw [hashFrom, if_neg (Nat.not_lt.2 h)]

theorem hashFrom_succ (h : a / 2 ^ (d + 1) ≤ i) :
    hashFrom branch leaf a left (d + 1) i
      = branch (hashFrom branch leaf a left d (2 * i))
          (hashFrom branch leaf a left d (2 * i + 1)) := by
  rw [hashFrom, if_neg (Nat.not_lt.2 h)]

theorem hashFrom_start (d i : ℕ) : hashFrom branch leaf 0 left d i = hash branch leaf d i := by
  induction d generalizing i with
  | zero => rw [hashFrom_zero (Nat.zero_le _), hash]
  | succ d ih => rw [hashFrom_succ (by simp), ih, ih, hash]

theorem hashFrom_congr (h : ∀ k, a ≤ k → k / 2 ^ d = i → leaf k = leaf' k) :
    hashFrom branch leaf a left d i = hashFrom branch leaf' a left d i := by
  induction d generalizing i with
  | zero =>
    rcases Nat.lt_or_ge i a with hlt | hge
    · rw [hashFrom_of_lt (by simpa using hlt), hashFrom_of_lt (by simpa using hlt)]
    · rw [hashFrom_zero hge, hashFrom_zero hge, h i hge (by simp)]
  | succ d ih =>
    rcases Nat.lt_or_ge i (a / 2 ^ (d + 1)) with hlt | hge
    · rw [hashFrom_of_lt hlt, hashFrom_of_lt hlt]
    · rw [hashFrom_succ hge, hashFrom_succ hge]
      congr 1
      · refine ih fun k hak hk => h k hak ?_
        rw [div_two_pow_succ]
        omega
      · refine ih fun k hak hk => h k hak ?_
        rw [div_two_pow_succ]
        omega

theorem hashFrom_eq_hash_of_lt (h : a / 2 ^ d < i) :
    hashFrom branch leaf a left d i = hash branch leaf d i := by
  induction d generalizing i with
  | zero =>
    rw [pow_zero, Nat.div_one] at h
    rw [hashFrom_zero h.le, hash]
  | succ d ih =>
    have hdiv := div_two_pow_succ a d
    rw [hashFrom_succ h.le, hash, ih (by omega), ih (by omega)]

theorem hashFrom_eq_hash
    (hleft : ∀ e < d, a.testBit e = true → left e = hash branch leaf e (sibling a e))
    (h : a / 2 ^ d ≤ i) : hashFrom branch leaf a left d i = hash branch leaf d i := by
  induction d generalizing i with
  | zero =>
    rw [pow_zero, Nat.div_one] at h
    rw [hashFrom_zero h, hash]
  | succ d ih =>
    have hdiv := div_two_pow_succ a d
    have hbelow : ∀ e < d, a.testBit e = true → left e = hash branch leaf e (sibling a e) :=
      fun e he => hleft e (by omega)
    rw [hashFrom_succ h, hash, ih hbelow (by omega : a / 2 ^ d ≤ 2 * i + 1)]
    rcases Nat.lt_or_ge (2 * i) (a / 2 ^ d) with hlt | hge
    · -- the left half is the sibling of the subtree that holds `a`
      have hbit : a.testBit d = true := by
        rw [Nat.testBit_eq_decide_div_mod_eq]
        exact decide_eq_true (by omega)
      have hsibling : sibling a d = 2 * i := by
        rw [sibling, if_pos hbit]
        omega
      rw [hashFrom_of_lt hlt, hleft d (Nat.lt_succ_self d) hbit, hsibling]
    · rw [ih hbelow hge]

theorem hashFrom_sibling {b : ℕ} (hab : a ≤ b)
    (hleft : ∀ e ≤ d, a.testBit e = true → left e = hash branch leaf e (sibling a e))
    (hbit : b.testBit d = true) :
    hashFrom branch leaf a left d (sibling b d) = hash branch leaf d (sibling b d) := by
  have hdiv : a / 2 ^ d ≤ b / 2 ^ d := Nat.div_le_div_right hab
  rcases Nat.lt_or_ge (sibling b d) (a / 2 ^ d) with hlt | hge
  · -- both paths are in the same subtree
    have hsibling : sibling b d = b / 2 ^ d - 1 := if_pos hbit
    have heq : a / 2 ^ d = b / 2 ^ d := by omega
    have hbit' : a.testBit d = true := by
      rw [Nat.testBit_eq_decide_div_mod_eq] at hbit ⊢
      rw [heq, hbit]
    have hsibling' : sibling a d = sibling b d := by
      rw [sibling, if_pos hbit', hsibling, heq]
    rw [hashFrom_of_lt hlt, hleft d le_rfl hbit', hsibling']
  · exact hashFrom_eq_hash (fun e he => hleft e he.le) hge

/-- **Known leaves with the hash of the tree are those of the tree**, if there is no collision among
the pairs in the tree and the known ones to the left of `b`. -/
theorem hashFrom_sound {S : Set (H × H)} (hinj : Set.InjOn (fun q : H × H => branch q.1 q.2) S)
    {b : ℕ} (htree : ∀ e < d, ∀ j, (hash branch leaf e (2 * j), hash branch leaf e (2 * j + 1)) ∈ S)
    (hfrom : ∀ e < d, ∀ j, a / 2 ^ (e + 1) ≤ j → j < b / 2 ^ (e + 1) →
      (hashFrom branch leaf' a left e (2 * j), hashFrom branch leaf' a left e (2 * j + 1)) ∈ S)
    (hi : i < b / 2 ^ d) (heq : hashFrom branch leaf' a left d i = hash branch leaf d i) {k : ℕ}
    (hak : a ≤ k) (hk : k / 2 ^ d = i) : leaf' k = leaf k := by
  induction d generalizing i with
  | zero =>
    rw [pow_zero, Nat.div_one] at hk
    subst hk
    rw [hashFrom_zero hak, hash] at heq
    exact heq
  | succ d ih =>
    have hge : a / 2 ^ (d + 1) ≤ i := hk ▸ Nat.div_le_div_right hak
    rw [hashFrom_succ hge, hash] at heq
    have hpair := hinj (hfrom d (Nat.lt_succ_self d) i hge hi) (htree d (Nat.lt_succ_self d) i) heq
    rw [Prod.mk.injEq] at hpair
    rw [div_two_pow_succ] at hk hi
    have htree' := fun e (he : e < d) => htree e (by omega)
    have hfrom' := fun e (he : e < d) => hfrom e (by omega)
    rcases Nat.even_or_odd' (k / 2 ^ d) with ⟨j, hj | hj⟩
    · exact ih htree' hfrom' (i := 2 * i) (by omega) hpair.1 (by omega)
    · exact ih htree' hfrom' (i := 2 * i + 1) (by omega) hpair.2 (by omega)

end HashFrom

end FullTree
