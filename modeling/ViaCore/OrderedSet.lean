/-
Ordered sets, and sets that index a map.

An ordered set is a list that is strictly sorted by a key.  Two elements with one key are the same
element for the set, even when they differ otherwise: inserting the second one changes nothing, and
removing it removes the first.

A set *indexes* a map when it holds exactly the values of the map, each under its owner.

* `OrderedSet.Indexes` — the relation between the set and the map;
* `OrderedSet.Indexes.insert`, `.remove`, `.restrict` — the changes of the set that follow a change
  of the map;
* `OrderedSet.rfind_eq_some` — the search from the end finds the greatest element that passes.
-/
import Mathlib

namespace OrderedSet

variable {P K A : Type} [LinearOrder K] {key : P → K}

section Operations

variable (key)

def Sorted (set : List P) : Prop := set.Pairwise fun p q => key p < key q

def insert (p : P) (set : List P) : List P :=
  if set.any fun q => key q = key p then set
  else set.orderedInsert (fun q q' => key q ≤ key q') p

def remove (p : P) (set : List P) : List P := set.filter fun q => key q ≠ key p

def insertOption (new : Option P) (set : List P) : List P :=
  match new with
  | some p => insert key p set
  | none => set

def removeOption (old : Option P) (set : List P) : List P :=
  match old with
  | some p => remove key p set
  | none => set

def rfind (test : P → Bool) (set : List P) : Option P := (set.filter test).getLast?

/-- What stays when the set is cut at an element, and what is cut off. -/
def splitOff (p : P) (set : List P) : List P × List P :=
  (set.filter fun q => key q < key p, set.filter fun q => key p ≤ key q)

end Operations

variable {set : List P} {p : P}

theorem Sorted.orderedInsert (hsorted : Sorted key set) (hnew : ∀ q ∈ set, key q ≠ key p) :
    Sorted key (set.orderedInsert (fun q q' => key q ≤ key q') p) := by
  induction set with
  | nil => exact List.pairwise_singleton _ _
  | cons q rest ih =>
    obtain ⟨hq, hrest⟩ := List.pairwise_cons.1 hsorted
    have hne : key q ≠ key p := hnew q List.mem_cons_self
    rw [List.orderedInsert_cons]
    by_cases hle : key p ≤ key q
    · have hlt : key p < key q := lt_of_le_of_ne hle hne.symm
      rw [if_pos hle]
      refine List.pairwise_cons.2 ⟨fun q' hq' => ?_, hsorted⟩
      rcases List.mem_cons.1 hq' with rfl | hq'
      · exact hlt
      · exact hlt.trans (hq q' hq')
    · rw [if_neg hle]
      refine List.pairwise_cons.2 ⟨fun q' hq' => ?_,
        ih hrest fun q' hq' => hnew q' (List.mem_cons_of_mem _ hq')⟩
      rcases (List.mem_orderedInsert _).1 hq' with rfl | hq'
      · exact lt_of_not_ge hle
      · exact hq q' hq'

theorem Sorted.insert (hsorted : Sorted key set) (p : P) :
    Sorted key (OrderedSet.insert key p set) := by
  rw [OrderedSet.insert]
  by_cases hany : (set.any fun q => key q = key p) = true
  · rw [if_pos hany]
    exact hsorted
  · rw [if_neg hany]
    refine hsorted.orderedInsert fun q hq hkey => hany ?_
    exact List.any_eq_true.2 ⟨q, hq, decide_eq_true hkey⟩

theorem mem_insert {p q : P} (hnew : ∀ q ∈ set, key q ≠ key p) :
    q ∈ OrderedSet.insert key p set ↔ q = p ∨ q ∈ set := by
  have hany : (set.any fun q => key q = key p) = false := by
    rw [List.any_eq_false]
    intro q hq
    simpa using hnew q hq
  rw [OrderedSet.insert, hany, if_neg Bool.false_ne_true, List.mem_orderedInsert]

/-- **The search from the end.**  What it finds passes the test and is the greatest that does. -/
theorem rfind_eq_some {test : P → Bool} (hsorted : Sorted key set) (h : rfind test set = some p) :
    p ∈ set ∧ test p = true ∧ ∀ q ∈ set, test q = true → key q ≤ key p := by
  obtain ⟨before, hbefore⟩ := List.getLast?_eq_some_iff.1 h
  have hp : p ∈ set.filter test := by
    rw [hbefore]
    exact List.mem_append_right _ List.mem_cons_self
  obtain ⟨hset, htest⟩ := List.mem_filter.1 hp
  refine ⟨hset, htest, fun q hq hqtest => ?_⟩
  have hq' : q ∈ before ++ [p] := hbefore ▸ List.mem_filter.2 ⟨hq, hqtest⟩
  have hfilter : Sorted key (before ++ [p]) := hbefore ▸ List.Pairwise.filter _ hsorted
  rcases List.mem_append.1 hq' with hq' | hq'
  · exact ((List.pairwise_append.1 hfilter).2.2 q hq' p List.mem_cons_self).le
  · rw [List.mem_singleton.1 hq']

theorem drop_splitOff (hsorted : Sorted key set) (hp : p ∈ set) :
    (splitOff key p set).2.drop 1 = set.filter fun q => key p < key q := by
  show (set.filter fun q => key p ≤ key q).drop 1 = _
  induction set with
  | nil => cases hp
  | cons q rest ih =>
    obtain ⟨hq, hrest⟩ := List.pairwise_cons.1 hsorted
    rcases List.mem_cons.1 hp with rfl | hp
    · -- everything behind the element is above it
      have hge : decide (key p ≤ key p) = true := decide_eq_true le_rfl
      have hnot : ¬ decide (key p < key p) = true := by simp
      rw [List.filter_cons, if_pos hge, List.drop_one, List.tail_cons, List.filter_cons,
        if_neg hnot]
      exact List.filter_congr fun q' hq' => by simp [hq q' hq', (hq q' hq').le]
    · have hlt : key q < key p := hq p hp
      have hnot : ¬ decide (key p ≤ key q) = true := by simpa using hlt
      have hnot' : ¬ decide (key p < key q) = true := by simpa using hlt.le
      rw [List.filter_cons, if_neg hnot, ih hrest hp, List.filter_cons, if_neg hnot']

/-! ### Indexes -/

/-- The set holds exactly the values of the map, each under its owner. -/
structure Indexes (key : P → K) (owner : P → A) (set : List P) (f : A → Option P) : Prop where
  sorted : Sorted key set
  mem_iff : ∀ p, p ∈ set ↔ f (owner p) = some p

namespace Indexes

variable {owner : P → A} {set : List P} {f f' : A → Option P} (h : Indexes key owner set f)
include h

theorem restrict (keep : P → Bool)
    (hf : ∀ a, f' a = (f a).filter keep) : Indexes key owner (set.filter keep) f' := by
  refine ⟨h.sorted.filter _, fun q => ?_⟩
  rw [List.mem_filter, h.mem_iff, hf, Option.filter_eq_some_iff]

theorem congr (hf : ∀ a, f' a = f a) : Indexes key owner set f' :=
  (funext hf : f' = f) ▸ h

theorem pairwise_owner_ne : set.Pairwise fun p q => owner p ≠ owner q := by
  refine h.sorted.imp_of_mem fun {p q} hp hq hlt hsame => ?_
  have hq' := (h.mem_iff q).1 hq
  rw [← hsame, (h.mem_iff p).1 hp] at hq'
  exact hlt.ne (congrArg key (Option.some.inj hq'))

variable (howner : ∀ p q, key p = key q → owner p = owner q)
include howner

theorem insert (hnone : f (owner p) = none) (hp : f' (owner p) = some p)
    (hother : ∀ a, a ≠ owner p → f' a = f a) :
    Indexes key owner (OrderedSet.insert key p set) f' := by
  have hnew : ∀ q ∈ set, key q ≠ key p := by
    intro q hq hkey
    have hq' := (h.mem_iff q).1 hq
    rw [howner q p hkey, hnone] at hq'
    cases hq'
  refine ⟨h.sorted.insert p, fun q => ?_⟩
  rw [mem_insert hnew]
  by_cases hq : owner q = owner p
  · constructor
    · rintro (rfl | hmem)
      · exact hp
      · have hq' := (h.mem_iff q).1 hmem
        rw [hq, hnone] at hq'
        cases hq'
    · intro hq'
      rw [hq, hp] at hq'
      exact .inl (Option.some.inj hq').symm
  · rw [hother _ hq, ← h.mem_iff]
    exact or_iff_right fun heq => hq (congrArg owner heq)

theorem remove (hp : ∀ q, f (owner p) = some q → key q = key p) (hnone : f' (owner p) = none)
    (hother : ∀ a, a ≠ owner p → f' a = f a) :
    Indexes key owner (OrderedSet.remove key p set) f' := by
  refine ⟨h.sorted.filter _, fun q => ?_⟩
  rw [OrderedSet.remove, List.mem_filter, decide_eq_true_eq, h.mem_iff]
  by_cases hq : owner q = owner p
  · rw [hq, hnone]
    constructor
    · rintro ⟨hmem, hkey⟩
      exact absurd (hp q hmem) hkey
    · nofun
  · rw [hother _ hq]
    exact and_iff_left fun hkey => hq (howner q p hkey)

theorem removeOption {a : A} {old : Option P} (hold : ∀ p, old = some p → owner p = a)
    (hf : f a = old ∨ f a = none) (hnone : f' a = none) (hother : ∀ b, b ≠ a → f' b = f b) :
    Indexes key owner (OrderedSet.removeOption key old set) f' := by
  cases old with
  | none =>
    refine h.congr fun b => ?_
    by_cases hb : b = a
    · rw [hb, hnone, hf.elim id id]
    · exact hother b hb
  | some p =>
    obtain rfl := hold p rfl
    refine h.remove howner (fun q hq => ?_) hnone hother
    rcases hf with hf | hf
    · rw [Option.some.inj (hq.symm.trans hf)]
    · cases hf.symm.trans hq

theorem insertOption {a : A} {new : Option P} (hnew : ∀ p, new = some p → owner p = a)
    (hnone : f a = none) (hf : f' a = new) (hother : ∀ b, b ≠ a → f' b = f b) :
    Indexes key owner (OrderedSet.insertOption key new set) f' := by
  cases new with
  | none =>
    refine h.congr fun b => ?_
    by_cases hb : b = a
    · rw [hb, hnone, hf]
    · exact hother b hb
  | some p =>
    obtain rfl := hnew p rfl
    exact h.insert howner hnone hf hother

end Indexes

end OrderedSet
