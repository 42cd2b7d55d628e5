/-
Finite maps with a size.

A hash map is an association list with distinct keys.

* `AList.total` — the sum of a quantity over all values, with `AList.total_insert` and
  `AList.total_erase`;
* `AList.filterKeys` — the entries whose keys are kept, with `AList.lookup_filterKeys`;
* `AList.lookup_singleton_union` — one entry put in front of a map.
-/
import Mathlib

namespace AList

variable {κ V : Type} [DecidableEq κ]

def total (f : V → ℕ) (m : AList fun _ : κ => V) : ℕ := (m.entries.map fun e => f e.2).sum

variable {m : AList fun _ : κ => V}

theorem total_erase {f : V → ℕ} {k : κ} {v : V}
    (h : m.lookup k = some v) : total f m = f v + total f (m.erase k) := by
  have hmem : k ∈ m := by
    rw [← lookup_isSome, h]
    rfl
  obtain ⟨v', before, after, hbefore, hentries, herase⟩ := List.exists_of_kerase hmem
  have hv : v' = v := by
    have hmem' : Sigma.mk k v' ∈ m.entries := by
      rw [hentries]
      exact List.mem_append_right _ List.mem_cons_self
    exact Option.some.inj ((mem_lookup_iff.2 hmem').symm.trans h)
  have hrest : (m.erase k).entries = before ++ after := herase
  rw [total, total, hentries, hrest, hv]
  simp only [List.map_append, List.map_cons, List.sum_append, List.sum_cons]
  omega

theorem total_insert (f : V → ℕ) (m : AList fun _ : κ => V) (k : κ) (v : V) :
    total f (m.insert k v) = f v + total f (m.erase k) := by
  rw [total, entries_insert, List.map_cons, List.sum_cons]
  rfl

theorem total_erase_of_none {f : V → ℕ} {k : κ}
    (h : m.lookup k = none) : total f (m.erase k) = total f m := by
  have hnot : k ∉ m := lookup_eq_none.1 h
  have hsame : (m.erase k).entries = m.entries := List.kerase_of_notMem_keys hnot
  rw [total, hsame, total]

theorem total_insert_add (f : V → ℕ) (m : AList fun _ : κ => V) (k : κ) (v : V) :
    total f (m.insert k v) + ((m.lookup k).map f).getD 0 = total f m + f v := by
  rw [total_insert]
  cases h : m.lookup k with
  | none =>
    rw [total_erase_of_none h, Option.map_none, Option.getD_none]
    omega
  | some old =>
    rw [total_erase h, Option.map_some, Option.getD_some]
    omega

omit [DecidableEq κ] in
theorem length_entries (m : AList fun _ : κ => V) : m.entries.length = total (fun _ => 1) m := by
  rw [total, List.map_const', List.sum_replicate, smul_eq_mul, mul_one]

def filterKeys (p : κ → Bool) (m : AList fun _ : κ => V) : AList fun _ : κ => V :=
  ⟨m.entries.filter fun e => p e.1, m.nodupKeys.sublist List.filter_sublist⟩

theorem lookup_filterKeys (p : κ → Bool) (m : AList fun _ : κ => V) (k : κ) :
    (m.filterKeys p).lookup k = if p k then m.lookup k else none := by
  refine Option.ext fun v => ?_
  rw [← Option.mem_def, mem_lookup_iff]
  show Sigma.mk k v ∈ m.entries.filter _ ↔ _
  rw [List.mem_filter, ← mem_lookup_iff, Option.mem_def]
  by_cases hp : p k = true
  · simp [hp]
  · simp [hp]

theorem lookup_singleton (a b : κ) (v : V) :
    (AList.singleton a v : AList fun _ : κ => V).lookup b = if b = a then some v else none := by
  by_cases h : b = a
  · subst h
    rw [if_pos rfl]
    exact List.dlookup_cons_eq _ _ _
  · rw [if_neg h, AList.lookup_eq_none, AList.mem_keys, AList.keys_singleton, List.mem_singleton]
    exact h

theorem lookup_union (m n : AList fun _ : κ => V) (k : κ) :
    (m ∪ n).lookup k = (m.lookup k).or (n.lookup k) := by
  by_cases h : k ∈ m
  · obtain ⟨v, hv⟩ := Option.isSome_iff_exists.1 (lookup_isSome.2 h)
    rw [lookup_union_left h, hv, Option.some_or]
  · rw [lookup_union_right h, lookup_eq_none.2 h, Option.none_or]

theorem lookup_singleton_union (m : AList fun _ : κ => V) (a b : κ) (v : V) :
    (AList.singleton a v ∪ m).lookup b = if b = a then some v else m.lookup b := by
  rw [lookup_union, lookup_singleton]
  split <;> rfl

end AList
