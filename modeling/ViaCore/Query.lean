/-
Queries over tables.

A `SELECT` is a list computed from lists: joins, a filter, `ORDER BY` a number and `LIMIT`.

* `leftJoin`, `innerJoin` — joins, with `mem_leftJoin_some`, `mem_leftJoin_none`, `mem_innerJoin`;
* `leftJoin_pairwise`, `innerJoin_pairwise` — rows that differ before a join differ after it;
* `selectFirst` — `ORDER BY ... LIMIT n` for any order (`le_of_not_mem_selectFirst`);
* `lowest` — `ORDER BY key LIMIT n`: the rows with the lowest keys (`mem_lowest_of_lt`,
  `lowest_head_le`, `lowest_pairwise_lt`);
* `isChain_succ_of_closed`, `map_eq_range'_of_isChain` — lists of consecutive numbers;
* `nextNumber` — the number after the highest one.
-/
import Mathlib

variable {α β : Type}

/-! ### Joins -/

/-- `LEFT JOIN`: every row of the left table, with each match, or once without one. -/
def leftJoin (on : α → β → Bool) (as : List α) (bs : List β) : List (α × Option β) :=
  as.flatMap fun a =>
    match bs.filter (on a) with
    | [] => [(a, none)]
    | b :: rest => (b :: rest).map fun b => (a, some b)

/-- `JOIN`: every row of the left table with each match. -/
def innerJoin (on : α → β → Bool) (as : List α) (bs : List β) : List (α × β) :=
  as.flatMap fun a => (bs.filter (on a)).map fun b => (a, b)

section Joins

variable {on : α → β → Bool} {as : List α} {bs : List β} {a : α} {b : β}

theorem mem_leftJoin_some : (a, some b) ∈ leftJoin on as bs ↔ a ∈ as ∧ b ∈ bs ∧ on a b = true := by
  unfold leftJoin
  rw [List.mem_flatMap]
  constructor
  · rintro ⟨a', ha', hmem⟩
    split at hmem
    · simp at hmem
    · rename_i b' rest hfilter
      obtain ⟨b'', hb'', heq⟩ := List.mem_map.1 hmem
      obtain ⟨rfl, hb⟩ := Prod.mk.inj heq
      cases hb
      rw [← hfilter, List.mem_filter] at hb''
      exact ⟨ha', hb''⟩
  · rintro ⟨ha, hb, hon⟩
    refine ⟨a, ha, ?_⟩
    have hmem : b ∈ bs.filter (on a) := List.mem_filter.2 ⟨hb, hon⟩
    split
    · rename_i hfilter
      rw [hfilter] at hmem
      cases hmem
    · rename_i b' rest hfilter
      rw [hfilter] at hmem
      exact List.mem_map_of_mem hmem

theorem mem_leftJoin_none : (a, none) ∈ leftJoin on as bs ↔ a ∈ as ∧ ∀ b ∈ bs, on a b = false := by
  unfold leftJoin
  rw [List.mem_flatMap]
  constructor
  · rintro ⟨a', ha', hmem⟩
    split at hmem
    · rename_i hfilter
      obtain ⟨rfl, -⟩ := Prod.mk.inj (List.mem_singleton.1 hmem)
      refine ⟨ha', fun b hb => ?_⟩
      simpa using List.filter_eq_nil_iff.1 hfilter b hb
    · simp at hmem
  · rintro ⟨ha, hnone⟩
    refine ⟨a, ha, ?_⟩
    have hfilter : bs.filter (on a) = [] :=
      List.filter_eq_nil_iff.2 fun b hb => by simp [hnone b hb]
    rw [hfilter]
    exact List.mem_singleton.2 rfl

theorem mem_innerJoin : (a, b) ∈ innerJoin on as bs ↔ a ∈ as ∧ b ∈ bs ∧ on a b = true := by
  unfold innerJoin
  simp only [List.mem_flatMap, List.mem_map, List.mem_filter, Prod.mk.injEq]
  constructor
  · rintro ⟨a', ha', b', hb', rfl, rfl⟩
    exact ⟨ha', hb'⟩
  · rintro ⟨ha, hb⟩
    exact ⟨a, ha, b, hb, rfl, rfl⟩

variable {R : α → α → Prop} {S : β → β → Prop}

theorem leftJoin_pairwise (has : as.Pairwise R) (hbs : ∀ a ∈ as, (bs.filter (on a)).Pairwise S) :
    (leftJoin on as bs).Pairwise fun r r' =>
      R r.1 r'.1 ∨ ∃ b b', r.2 = some b ∧ r'.2 = some b' ∧ S b b' := by
  unfold leftJoin
  rw [List.pairwise_flatMap]
  -- the rows of an element have it on the left
  have hleft : ∀ a, ∀ r ∈ (match bs.filter (on a) with
      | [] => [(a, none)]
      | b :: rest => (b :: rest).map fun b => (a, some b)), r.1 = a := by
    intro a r hr
    split at hr
    · rw [List.mem_singleton.1 hr]
    · obtain ⟨_, -, rfl⟩ := List.mem_map.1 hr
      rfl
  constructor
  · intro a ha
    have hmatches := hbs a ha
    split
    · exact List.pairwise_singleton _ _
    · rename_i b rest hfilter
      rw [hfilter] at hmatches
      rw [List.pairwise_map]
      exact hmatches.imp fun hS => .inr ⟨_, _, rfl, rfl, hS⟩
  · refine has.imp fun hR r hr r' hr' => .inl ?_
    rw [hleft _ r hr, hleft _ r' hr']
    exact hR

theorem innerJoin_pairwise (has : as.Pairwise R) (hbs : ∀ a ∈ as, (bs.filter (on a)).Pairwise S) :
    (innerJoin on as bs).Pairwise fun r r' => R r.1 r'.1 ∨ S r.2 r'.2 := by
  unfold innerJoin
  rw [List.pairwise_flatMap]
  constructor
  · intro a ha
    rw [List.pairwise_map]
    exact (hbs a ha).imp .inr
  · refine has.imp fun hR r hr r' hr' => .inl ?_
    obtain ⟨_, -, rfl⟩ := List.mem_map.1 hr
    obtain ⟨_, -, rfl⟩ := List.mem_map.1 hr'
    exact hR

end Joins

section SelectFirst

variable (le : α → α → Prop) [DecidableRel le] (limit : ℕ) (rows : List α)

/-- `ORDER BY ... LIMIT limit`. -/
def selectFirst : List α := (rows.insertionSort le).take limit

variable {le limit rows} {r r' : α}

theorem mem_of_mem_selectFirst (h : r ∈ selectFirst le limit rows) : r ∈ rows :=
  (List.mem_insertionSort _).1 (List.mem_of_mem_take h)

theorem le_of_not_mem_selectFirst [Std.Total le] [IsTrans α le] (hr : r ∈ selectFirst le limit rows)
    (hr' : r' ∈ rows) (hnot : r' ∉ selectFirst le limit rows) : le r r' := by
  have hmem := (List.mem_insertionSort le).2 hr'
  have hsorted := List.pairwise_insertionSort le rows
  rw [← List.take_append_drop limit (rows.insertionSort le)] at hmem hsorted
  rcases List.mem_append.1 hmem with hmem | hmem
  · exact absurd hmem hnot
  · exact (List.pairwise_append.1 hsorted).2.2 r hr r' hmem

theorem selectFirst_ne_nil (hlimit : 0 < limit) (hr : r ∈ rows) :
    selectFirst le limit rows ≠ [] := by
  intro h
  have hlength : (selectFirst le limit rows).length = min limit rows.length := by
    rw [selectFirst, List.length_take, List.length_insertionSort]
  have hrows := List.length_pos_of_mem hr
  rw [h, List.length_nil] at hlength
  omega

end SelectFirst

section Lowest

variable (key : α → ℕ) (limit : ℕ) (rows : List α)

/-- `ORDER BY key LIMIT limit`. -/
def lowest : List α := (rows.insertionSort fun r r' => key r ≤ key r').take limit

variable {key limit rows} {r r' : α}

theorem mem_of_mem_lowest (h : r ∈ lowest key limit rows) : r ∈ rows := mem_of_mem_selectFirst h

theorem pairwise_insertionSort_key :
    (rows.insertionSort fun r r' => key r ≤ key r').Pairwise fun r r' => key r ≤ key r' := by
  have htotal : Std.Total fun r r' : α => key r ≤ key r' := ⟨fun r r' => le_total _ _⟩
  exact List.pairwise_insertionSort _ _

theorem mem_lowest_of_lt (hr : r ∈ rows) (hr' : r' ∈ lowest key limit rows) (hlt : key r < key r') :
    r ∈ lowest key limit rows := by
  have htotal : Std.Total fun r r' : α => key r ≤ key r' := ⟨fun r r' => le_total _ _⟩
  by_contra hnot
  have hle := @le_of_not_mem_selectFirst _ (fun r r' => key r ≤ key r') _ limit rows r' r _ _ hr' hr
    hnot
  omega

theorem lowest_head_le {first : α} {rest : List α} (h : lowest key limit rows = first :: rest)
    (hr : r ∈ rows) : key first ≤ key r := by
  by_contra hlt
  have hfirst : first ∈ lowest key limit rows := h ▸ List.mem_cons_self
  have hmem := mem_lowest_of_lt hr hfirst (by omega)
  have hsorted : (lowest key limit rows).Pairwise fun r r' => key r ≤ key r' :=
    pairwise_insertionSort_key.sublist (List.take_sublist _ _)
  rw [h] at hmem hsorted
  rcases List.mem_cons.1 hmem with rfl | hmem
  · omega
  · have := (List.pairwise_cons.1 hsorted).1 r hmem
    omega

theorem lowest_pairwise_lt (h : (rows.map key).Nodup) :
    (lowest key limit rows).Pairwise fun r r' => key r < key r' := by
  have hnodup : ((rows.insertionSort fun r r' => key r ≤ key r').map key).Nodup :=
    ((List.perm_insertionSort _ rows).map key).nodup_iff.2 h
  have hboth := pairwise_insertionSort_key.and (List.pairwise_map.1 hnodup)
  refine (hboth.sublist (List.take_sublist limit _)).imp fun ⟨hle, hne⟩ => ?_
  exact lt_of_le_of_ne hle hne

end Lowest

/-! ### Consecutive numbers -/

variable {key : α → ℕ}

theorem map_eq_range'_of_isChain {first : α} {rest : List α}
    (h : (first :: rest).IsChain fun r r' => key r + 1 = key r') :
    (first :: rest).map key = List.range' (key first) (rest.length + 1) := by
  induction rest generalizing first with
  | nil => rfl
  | cons next rest ih =>
    obtain ⟨hnext, htail⟩ := List.isChain_cons_cons.1 h
    rw [List.map_cons, ih htail, ← hnext, List.length_cons]
    rfl

variable {l : List α}

theorem isChain_succ_of_closed (hsorted : l.Pairwise fun r r' => key r < key r')
    (hclosed : ∀ r ∈ l, ∀ r' ∈ l, key r < key r' → ∃ s ∈ l, key s = key r + 1) :
    l.IsChain fun r r' => key r + 1 = key r' := by
  induction l with
  | nil => exact List.isChain_nil
  | cons first rest ih =>
    obtain ⟨hfirst, hrest⟩ := List.pairwise_cons.1 hsorted
    cases rest with
    | nil => exact List.isChain_singleton _
    | cons next rest =>
      have hlt := hfirst next List.mem_cons_self
      refine List.isChain_cons_cons.2 ⟨?_, ih hrest ?_⟩
      -- the successor of the first is in the list, and nothing lies between
      · obtain ⟨s, hs, hkey⟩ := hclosed first List.mem_cons_self next
          (List.mem_cons_of_mem _ List.mem_cons_self) hlt
        rcases List.mem_cons.1 hs with rfl | hs
        · omega
        · rcases List.mem_cons.1 hs with rfl | hs
          · exact hkey.symm
          · have := (List.pairwise_cons.1 hrest).1 s hs
            omega
      · intro r hr r' hr' hrr'
        obtain ⟨s, hs, hkey⟩ := hclosed r (List.mem_cons_of_mem _ hr) r'
          (List.mem_cons_of_mem _ hr') hrr'
        rcases List.mem_cons.1 hs with rfl | hs
        · have := hfirst r hr
          omega
        · exact ⟨s, hs, hkey⟩

theorem find?_key_of_mem (h : (l.map key).Pairwise (· < ·)) {a : α}
    (ha : a ∈ l) : (l.find? fun x => key x = key a) = some a := by
  cases hfind : l.find? fun x => key x = key a with
  | none => exact absurd (decide_eq_true rfl) (List.find?_eq_none.1 hfind a ha)
  | some x =>
    have hkey : key x = key a := by simpa using List.find?_some hfind
    have hnodup : (l.map key).Nodup := h.imp fun hlt => hlt.ne
    rw [List.inj_on_of_nodup_map hnodup (List.mem_of_find?_eq_some hfind) ha hkey]

theorem filter_lt_eq_take (h : (l.map key).Pairwise (· ≤ ·)) (b : ℕ) :
    (l.filter fun a => key a < b) = l.take (l.countP fun a => key a < b) := by
  induction l with
  | nil => rfl
  | cons a rest ih =>
    rw [List.map_cons, List.pairwise_cons] at h
    by_cases ha : key a < b
    · rw [List.filter_cons_of_pos (by simpa using ha), List.countP_cons_of_pos (by simpa using ha),
        List.take_succ_cons, ih h.2]
    · have hrest : ∀ x ∈ a :: rest, ¬ key x < b := by
        intro x hx
        rcases List.mem_cons.1 hx with rfl | hx
        · exact ha
        · have := h.1 (key x) (List.mem_map_of_mem hx)
          omega
      rw [List.filter_eq_nil_iff.2 (by simpa using hrest),
        List.countP_eq_zero.2 (by simpa using hrest), List.take_zero]

theorem map_take_eq_range' {start : ℕ} (h : l.map key = List.range' start l.length) (k : ℕ) :
    (l.take k).map key = List.range' start (l.take k).length := by
  have hsplit : List.range' start l.length = (l.take k).map key ++ (l.drop k).map key := by
    rw [← List.map_append, List.take_append_drop, h]
  obtain ⟨j, -, htake, -⟩ := List.range'_eq_append_iff.1 hsplit
  have hlength := congrArg List.length htake
  rw [List.length_map, List.length_range'] at hlength
  rw [htake, hlength]

/-- `MAX(number) + 1`, or the given number if there are no rows. -/
def nextNumber (first : ℕ) (numbers : List ℕ) : ℕ := (numbers.max?.map (· + 1)).getD first

theorem lt_nextNumber {first n : ℕ} {numbers : List ℕ} (h : n ∈ numbers) :
    n < nextNumber first numbers := by
  rw [nextNumber]
  cases hmax : numbers.max? with
  | none =>
    rw [List.max?_eq_none_iff.1 hmax] at h
    cases h
  | some m => exact Nat.lt_succ_of_le ((List.max?_eq_some_iff.1 hmax).2 n h)

theorem nextNumber_concat {first n : ℕ} {numbers : List ℕ} (h : ∀ m ∈ numbers, m ≤ n) :
    nextNumber first (numbers ++ [n]) = n + 1 := by
  have hmax : (numbers ++ [n]).max? = some n := by
    rw [List.max?_eq_some_iff]
    refine ⟨by simp, fun m hm => ?_⟩
    rcases List.mem_append.1 hm with hm | hm
    · exact h m hm
    · exact (List.mem_singleton.1 hm).le
  rw [nextNumber, hmax]
  rfl

theorem nextNumber_append (first : ℕ) (numbers : List ℕ) :
    nextNumber first (numbers ++ [nextNumber first numbers]) = nextNumber first numbers + 1 :=
  nextNumber_concat fun _ hm => (lt_nextNumber hm).le
