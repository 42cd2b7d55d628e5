/-
Loops that update a state and collect results.

`collect f s as` goes through `as` with a state: each element may change the state and contributes a
list of results, and the loop ends early on an error or a panic.

* `collect_invariant` — what every element keeps, the loop keeps;
* `collect_returns_iff` — the loop returns when every element does;
* `collect_foldl` — a view of the state that follows the results of each element follows them
  through the loop;
* `collect_of_stable` — elements that do not change the state are independent of each other;
* `mem_collect` — which element contributed a result, and in which state.
-/
import ViaCore.Outcome

variable {σ α β ε : Type}

def collect (f : σ → α → σ × Outcome ε (List β)) : σ → List α → σ × Outcome ε (List β)
  | s, [] => (s, .ok [])
  | s, a :: rest =>
    match f s a with
    | (s', .ok bs) =>
      let r := collect f s' rest
      (r.1, r.2 >>= fun bs' => .ok (bs ++ bs'))
    | (s', .err e) => (s', .err e)
    | (s', .panic) => (s', .panic)

section Rules

variable {f : σ → α → σ × Outcome ε (List β)} {s s' : σ} {a : α} {as : List α} {bs : List β}

theorem collect_cons_ok (h : f s a = (s', .ok bs)) :
    collect f s (a :: as)
      = ((collect f s' as).1, (collect f s' as).2 >>= fun bs' => .ok (bs ++ bs')) := by
  simp only [collect, h]

theorem collect_cons_err {e : ε} (h : f s a = (s', .err e)) :
    collect f s (a :: as) = (s', .err e) := by
  simp only [collect, h]

theorem collect_cons_panic (h : f s a = (s', .panic)) : collect f s (a :: as) = (s', .panic) := by
  simp only [collect, h]

variable {I : σ → Prop}

/-- **The invariant rule.**  A property of the state that every element keeps holds at the end, and
every result was contributed from a state with that property. -/
theorem collect_invariant (hI : ∀ s, I s → ∀ a ∈ as, I (f s a).1) (h0 : I s) :
    I (collect f s as).1 ∧
      ∀ bs, (collect f s as).2 = .ok bs → ∀ b ∈ bs,
        ∃ t a bs', I t ∧ a ∈ as ∧ (f t a).2 = .ok bs' ∧ b ∈ bs' := by
  induction as generalizing s with
  | nil =>
    refine ⟨h0, fun bs hbs b hb => ?_⟩
    cases hbs
    cases hb
  | cons a rest ih =>
    have hnext : I (f s a).1 := hI s h0 a List.mem_cons_self
    obtain ⟨hfst, hmem⟩ := ih (fun t ht b hb => hI t ht b (List.mem_cons_of_mem _ hb)) hnext
    rcases hf : f s a with ⟨s', bs₀ | e | _⟩
    · rw [hf] at hfst hmem
      rw [collect_cons_ok hf]
      refine ⟨hfst, fun bs hbs b hb => ?_⟩
      obtain ⟨bs', hbs', heq⟩ := Outcome.bind_eq_ok.1 hbs
      cases heq
      rcases List.mem_append.1 hb with hb | hb
      · exact ⟨s, a, bs₀, h0, List.mem_cons_self, by rw [hf], hb⟩
      · obtain ⟨t, a', bs'', ht, ha', hok, hb⟩ := hmem bs' hbs' b hb
        exact ⟨t, a', bs'', ht, List.mem_cons_of_mem _ ha', hok, hb⟩
    -- an error or a panic ends the loop with the state it has reached
    · rw [hf] at hnext
      rw [collect_cons_err hf]
      exact ⟨hnext, fun bs hbs => by cases hbs⟩
    · rw [hf] at hnext
      rw [collect_cons_panic hf]
      exact ⟨hnext, fun bs hbs => by cases hbs⟩

/-- The loop returns exactly when every element returns, if that is known of an element in every
state that the loop can be in. -/
theorem collect_returns_iff {R : α → Prop} (hI : ∀ s, I s → ∀ a ∈ as, I (f s a).1)
    (hR : ∀ s, I s → ∀ a ∈ as, (∃ bs, (f s a).2 = .ok bs) ↔ R a) (h0 : I s) :
    (∃ bs, (collect f s as).2 = .ok bs) ↔ ∀ a ∈ as, R a := by
  induction as generalizing s with
  | nil => exact ⟨fun _ a ha => absurd ha List.not_mem_nil, fun _ => ⟨[], rfl⟩⟩
  | cons a rest ih =>
    have hnext : I (f s a).1 := hI s h0 a List.mem_cons_self
    have hrest := ih (fun t ht b hb => hI t ht b (List.mem_cons_of_mem _ hb))
      (fun t ht b hb => hR t ht b (List.mem_cons_of_mem _ hb)) hnext
    have hhead := hR s h0 a List.mem_cons_self
    rw [List.forall_mem_cons, ← hhead]
    rcases hf : f s a with ⟨s', bs₀ | e | _⟩
    · rw [hf] at hrest
      rw [collect_cons_ok hf, ← hrest]
      simp [Outcome.bind_eq_ok]
    · rw [collect_cons_err hf]
      simp
    · rw [collect_cons_panic hf]
      simp

/-- A view of the state that is determined by the results of each element is determined by the
results of the loop. -/
theorem collect_foldl {γ : Type} {view : σ → γ} {g : γ → β → γ}
    (hI : ∀ s, I s → ∀ a ∈ as, I (f s a).1)
    (hview : ∀ s, I s → ∀ a ∈ as, ∀ bs, (f s a).2 = .ok bs → view (f s a).1 = bs.foldl g (view s))
    (h0 : I s) (hok : (collect f s as).2 = .ok bs) :
    view (collect f s as).1 = bs.foldl g (view s) := by
  induction as generalizing s bs with
  | nil =>
    cases hok
    rfl
  | cons a rest ih =>
    have hnext : I (f s a).1 := hI s h0 a List.mem_cons_self
    have hhead := hview s h0 a List.mem_cons_self
    rcases hf : f s a with ⟨s', bs₀ | e | _⟩
    · rw [collect_cons_ok hf] at hok ⊢
      rw [hf] at hnext hhead
      obtain ⟨bs', hbs', heq⟩ := Outcome.bind_eq_ok.1 hok
      cases heq
      have hrest := ih (fun t ht b hb => hI t ht b (List.mem_cons_of_mem _ hb))
        (fun t ht b hb => hview t ht b (List.mem_cons_of_mem _ hb)) hnext hbs'
      rw [hrest, hhead bs₀ rfl, List.foldl_append]
    · rw [collect_cons_err hf] at hok
      cases hok
    · rw [collect_cons_panic hf] at hok
      cases hok

/-- When a loop over elements that leave the state alone returns, it has collected what each of them
returns on its own. -/
theorem collect_of_stable (hstable : ∀ a ∈ as, (f s a).1 = s) (hok : (collect f s as).2 = .ok bs) :
    (collect f s as).1 = s ∧ bs = as.flatMap (fun a => (f s a).2.toOption.getD [])
      ∧ ∀ a ∈ as, ∃ bs', (f s a).2 = .ok bs' := by
  induction as generalizing bs with
  | nil =>
    cases hok
    exact ⟨rfl, rfl, nofun⟩
  | cons a rest ih =>
    have hhead := hstable a List.mem_cons_self
    rcases hf : f s a with ⟨s', bs₀ | e | _⟩
    · rw [hf] at hhead
      -- so the rest starts from the same state
      obtain rfl : s' = s := hhead
      rw [collect_cons_ok hf] at hok ⊢
      obtain ⟨bs', hbs', heq⟩ := Outcome.bind_eq_ok.1 hok
      obtain ⟨hfst, hbs, hall⟩ := ih (fun b hb => hstable b (List.mem_cons_of_mem _ hb)) hbs'
      refine ⟨hfst, ?_, ?_⟩
      · rw [← Outcome.ok.inj heq, hbs, List.flatMap_cons, hf]
        rfl
      · intro b hb
        rcases List.mem_cons.1 hb with rfl | hb
        · exact ⟨bs₀, by rw [hf]⟩
        · exact hall b hb
    · rw [collect_cons_err hf] at hok
      cases hok
    · rw [collect_cons_panic hf] at hok
      cases hok

/-- Where a result comes from: the element in a position contributed it, in the state that the
elements before leave. -/
theorem mem_collect (hok : (collect f s as).2 = .ok bs) (b : β) :
    b ∈ bs ↔ ∃ (i : ℕ) (hi : i < as.length) (bs' : List β),
      (f ((as.take i).foldl (fun t a => (f t a).1) s) as[i]).2 = .ok bs' ∧ b ∈ bs' := by
  -- the state in which the element is met is that of the elements before
  induction as generalizing s bs with
  | nil =>
    cases hok
    simp
  | cons a rest ih =>
    rcases hf : f s a with ⟨s', bs₀ | e | _⟩
    · rw [collect_cons_ok hf] at hok
      obtain ⟨bs₁, hbs₁, heq⟩ := Outcome.bind_eq_ok.1 hok
      obtain rfl : bs₀ ++ bs₁ = bs := Outcome.ok.inj heq
      rw [List.mem_append, ih hbs₁]
      constructor
      · rintro (hb | ⟨i, hi, bs', hread, hb⟩)
        · exact ⟨0, Nat.succ_pos _, bs₀, by simp [hf], hb⟩
        · exact ⟨i + 1, Nat.succ_lt_succ hi, bs', by simpa [hf] using hread, hb⟩
      · rintro ⟨i, hi, bs', hread, hb⟩
        cases i with
        | zero =>
          simp only [List.take_zero, List.foldl_nil, List.getElem_cons_zero, hf] at hread
          exact .inl (Outcome.ok.inj hread ▸ hb)
        | succ i => exact .inr ⟨i, Nat.lt_of_succ_lt_succ hi, bs', by simpa [hf] using hread, hb⟩
    · rw [collect_cons_err hf] at hok
      cases hok
    · rw [collect_cons_panic hf] at hok
      cases hok

end Rules
