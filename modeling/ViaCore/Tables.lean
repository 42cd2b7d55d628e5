/-
Database tables as lists of rows.

A table is the list of its rows in the order of their insertion.  Statements can fail: a `DbFault`
says which one of a sequence does, and whether the server had carried it out before the answer was
lost.

* `insertIfAbsent` — `INSERT ... ON CONFLICT (key) DO NOTHING`;
* `foldl_insertIfAbsent_eq_append` — inserting extends the table;
* `nodup_insertIfAbsent`, `nodup_map_update` — keys stay distinct;
* `pairwise_filter_key` — a key selects one row;
* `executeAll` — statements one after the other, up to the first that fails;
* `executeAll_take` — whatever fails, an initial part of the statements has been carried out.
-/
import ViaCore.Outcome

variable {α β κ τ : Type}

/-! ### Inserting -/

def insertIfAbsent [DecidableEq κ] (key : α → κ) (table : List α) (row : α) : List α :=
  if table.any fun r => key r = key row then table else table ++ [row]

variable {key : α → κ} {table : List α}

theorem insertIfAbsent_of_fresh [DecidableEq κ] {row : α}
    (h : ∀ r ∈ table, key r ≠ key row) : insertIfAbsent key table row = table ++ [row] := by
  unfold insertIfAbsent
  simpa using h

theorem foldl_insertIfAbsent_of_fresh [DecidableEq κ] {table rows : List α}
    (hfresh : ∀ row ∈ rows, ∀ r ∈ table, key r ≠ key row) (hnodup : (rows.map key).Nodup) :
    rows.foldl (insertIfAbsent key) table = table ++ rows := by
  induction rows generalizing table with
  | nil => simp
  | cons row rest ih =>
    rw [List.map_cons, List.nodup_cons] at hnodup
    rw [List.foldl_cons, insertIfAbsent_of_fresh (hfresh row List.mem_cons_self)]
    have hrest : ∀ row' ∈ rest, ∀ r ∈ table ++ [row], key r ≠ key row' := by
      intro row' hrow' r hr
      rcases List.mem_append.1 hr with hr | hr
      · exact hfresh row' (List.mem_cons_of_mem _ hrow') r hr
      · rw [List.mem_singleton.1 hr]
        intro heq
        exact hnodup.1 (heq ▸ List.mem_map_of_mem hrow')
    rw [ih hrest hnodup.2]
    simp

theorem nodup_insertIfAbsent [DecidableEq κ]
    (h : (table.map key).Nodup) (row : α) : ((insertIfAbsent key table row).map key).Nodup := by
  unfold insertIfAbsent
  split
  · exact h
  · rename_i hfresh
    rw [List.map_append, List.map_singleton]
    refine h.append (List.nodup_singleton _) fun k hk hk' => hfresh ?_
    obtain ⟨r, hr, rfl⟩ := List.mem_map.1 hk
    exact List.any_eq_true.2 ⟨r, hr, decide_eq_true (List.mem_singleton.1 hk')⟩

theorem nodup_map_update {update : α → α}
    (hkey : ∀ r, key (update r) = key r) (h : (table.map key).Nodup) :
    ((table.map update).map key).Nodup := by
  rw [List.map_map]
  exact (List.map_congr_left fun r _ => hkey r).symm ▸ h

theorem pairwise_filter_key [DecidableEq κ]
    (h : (table.map key).Nodup) {p : α → Bool} {k : κ} (hp : ∀ r ∈ table, p r = true → key r = k) :
    (table.filter p).Pairwise fun _ _ => False := by
  refine ((List.pairwise_map.1 h).filter p).imp_of_mem fun {r r'} hr hr' hne => ?_
  rw [List.mem_filter] at hr hr'
  exact hne ((hp r hr.1 hr.2).trans (hp r' hr'.1 hr'.2).symm)

theorem foldl_insertIfAbsent_eq_append [DecidableEq κ] (key : α → κ) (table rows : List α) :
    ∃ inserted, rows.foldl (insertIfAbsent key) table = table ++ inserted ∧
      ∀ r ∈ inserted, r ∈ rows := by
  induction rows generalizing table with
  | nil => exact ⟨[], (List.append_nil table).symm, by simp⟩
  | cons row rest ih =>
    rw [List.foldl_cons]
    obtain ⟨inserted, heq, hmem⟩ := ih (insertIfAbsent key table row)
    rw [insertIfAbsent] at heq
    split at heq
    · rename_i hany
      rw [insertIfAbsent, if_pos hany]
      exact ⟨inserted, heq, fun r hr => List.mem_cons_of_mem _ (hmem r hr)⟩
    · rename_i hany
      rw [insertIfAbsent, if_neg hany]
      refine ⟨row :: inserted, by rw [heq, List.append_assoc]; rfl, fun r hr => ?_⟩
      rcases List.mem_cons.1 hr with rfl | hr
      · exact List.mem_cons_self
      · exact List.mem_cons_of_mem _ (hmem r hr)

theorem mem_foldl_insertIfAbsent [DecidableEq κ] {table rows : List α} {r : α}
    (h : r ∈ rows.foldl (insertIfAbsent key) table) : r ∈ table ∨ r ∈ rows := by
  obtain ⟨inserted, heq, hmem⟩ := foldl_insertIfAbsent_eq_append key table rows
  rw [heq] at h
  exact (List.mem_append.1 h).imp_right (hmem r)

/-- The statement that fails, counted from the next one, and whether it took effect. -/
structure DbFault where
  statement : ℕ
  applied : Bool
  deriving DecidableEq

inductive Verdict where
  | done
  | failed (applied : Bool)
  deriving DecidableEq

def nextStatement : Option DbFault → Verdict × Option DbFault
  | none => (.done, none)
  | some ⟨0, applied⟩ => (.failed applied, none)
  | some ⟨n + 1, applied⟩ => (.done, some ⟨n, applied⟩)

/-- Statements in order, up to the first that fails; the flag says that none did. -/
def executeAll (statement : τ → α → τ) : τ → Option DbFault → List α → τ × Bool
  | t, _, [] => (t, true)
  | t, fault, a :: rest =>
    match nextStatement fault with
    | (.done, fault') => executeAll statement (statement t a) fault' rest
    | (.failed applied, _) => (if applied then statement t a else t, false)

theorem executeAll_none (statement : τ → α → τ) (t : τ) (as : List α) :
    executeAll statement t none as = (as.foldl statement t, true) := by
  induction as generalizing t with
  | nil => rfl
  | cons a rest ih => exact ih (statement t a)

theorem executeAll_take (statement : τ → α → τ) (t : τ) (fault : Option DbFault) (as : List α) :
    ∃ j ≤ as.length, (executeAll statement t fault as).1 = (as.take j).foldl statement t
      ∧ ((executeAll statement t fault as).2 = true → j = as.length) := by
  induction as generalizing t fault with
  | nil => exact ⟨0, le_rfl, rfl, fun _ => rfl⟩
  | cons a rest ih =>
    unfold executeAll
    rcases nextStatement fault with ⟨_ | applied, fault'⟩
    · obtain ⟨j, hj, htable, hall⟩ := ih (statement t a) fault'
      refine ⟨j + 1, Nat.succ_le_succ hj, htable, fun h => ?_⟩
      rw [hall h, List.length_cons]
    · cases applied with
      | true => exact ⟨1, by simp, rfl, nofun⟩
      | false => exact ⟨0, Nat.zero_le _, rfl, nofun⟩
