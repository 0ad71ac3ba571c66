import Mathlib.Tactic

/-! Computations that may fail: what success says of their parts, and what loops keep. -/
namespace Qubo.Result
variable {ε β σ : Type}

theorem bind_eq_ok_iff {γ : Type} {x : Except ε β} {f : β → Except ε γ} {c : γ} :
    x >>= f = .ok c ↔ ∃ b, x = .ok b ∧ f b = .ok c := by
  cases x with
  | error e => simp [bind, Except.bind]
  | ok b => simp [bind, Except.bind]

theorem bind_eq_ok_congr {γ δ : Type} {x : Except ε β} {f : β → Except ε γ} {g : β → Except ε δ}
    {c : γ} {d : δ} (h : ∀ b, f b = .ok c ↔ g b = .ok d) : x >>= f = .ok c ↔ x >>= g = .ok d := by
  simp only [bind_eq_ok_iff, h]

theorem bind_eq_error_iff {γ : Type} {x : Except ε β} {f : β → Except ε γ} {e : ε} :
    x >>= f = .error e ↔ x = .error e ∨ ∃ b, x = .ok b ∧ f b = .error e := by
  cases x with
  | error e' => simp [bind, Except.bind]
  | ok b => simp [bind, Except.bind]

theorem exists_eq_ok {x : Except ε β} (h : x.toOption.isSome = true) : ∃ b, x = .ok b := by
  cases x with
  | error e => exact absurd h Bool.false_ne_true
  | ok b => exact ⟨b, rfl⟩

theorem toOption_eq_some_iff {x : Except ε β} {b : β} : x.toOption = some b ↔ x = .ok b := by
  cases x <;> simp [Except.toOption]

theorem map_map {γ δ : Type} (f : β → γ) (g : γ → δ) (x : Except ε β) :
    (f <$> x).map g = x.map fun b => g (f b) := by
  cases x <;> rfl

theorem exists_of_map_eq_ok {γ : Type} {x : Except ε β} {f : β → γ} {c : γ}
    (h : x.map f = .ok c) : ∃ b, x = .ok b ∧ f b = c := by
  cases x with
  | error e => exact nomatch h
  | ok b => exact ⟨b, rfl, Except.ok.inj h⟩

/-- A computation for each entry, all of which succeed, gives their results in order. -/
theorem exists_mapM_eq_ok {γ : Type} {f : β → Except ε γ} {P : β → γ → Prop} {bs : List β}
    (h : ∀ b ∈ bs, ∃ c, f b = .ok c ∧ P b c) :
    ∃ cs, bs.mapM f = .ok cs ∧ List.Forall₂ P bs cs := by
  induction bs with
  | nil => exact ⟨[], rfl, .nil⟩
  | cons b bs ih =>
    obtain ⟨c, hc, hP⟩ := h b List.mem_cons_self
    obtain ⟨cs, hcs, hall⟩ := ih fun b hb => h b (List.mem_cons_of_mem _ hb)
    refine ⟨c :: cs, ?_, .cons hP hall⟩
    rw [List.mapM_cons]
    exact bind_eq_ok_iff.mpr ⟨c, hc, bind_eq_ok_iff.mpr ⟨cs, hcs, rfl⟩⟩

theorem forall₂_of_mapM_eq_ok {γ : Type} {f : β → Except ε γ} {bs : List β} {cs : List γ}
    (h : bs.mapM f = .ok cs) : List.Forall₂ (fun b c => f b = .ok c) bs cs := by
  induction bs generalizing cs with
  | nil =>
    obtain rfl : [] = cs := Except.ok.inj h
    exact .nil
  | cons b bs ih =>
    rw [List.mapM_cons] at h
    obtain ⟨c, hc, h⟩ := bind_eq_ok_iff.mp h
    obtain ⟨cs', hcs, h⟩ := bind_eq_ok_iff.mp h
    obtain rfl : c :: cs' = cs := Except.ok.inj h
    exact .cons hc (ih hcs)

theorem mapM_eq_ok_iff {γ : Type} {f : β → Except ε γ} {bs : List β} {cs : List γ} :
    bs.mapM f = .ok cs ↔ List.Forall₂ (fun b c => f b = .ok c) bs cs := by
  refine ⟨forall₂_of_mapM_eq_ok, fun h => ?_⟩
  induction h with
  | nil => rfl
  | cons hbc _ ih =>
    rw [List.mapM_cons]
    exact bind_eq_ok_iff.mpr ⟨_, hbc, bind_eq_ok_iff.mpr ⟨_, ih, rfl⟩⟩

/-- Entries are computed from left to right, up to the first one that fails. -/
theorem mapM_eq_error_iff {γ : Type} {f : β → Except ε γ} {bs : List β} {e : ε} :
    bs.mapM f = .error e ↔ ∃ before b after, bs = before ++ b :: after ∧
      (∀ a ∈ before, ∃ c, f a = .ok c) ∧ f b = .error e := by
  constructor
  · intro h
    induction bs with
    | nil => cases h
    | cons b bs ih =>
      rw [List.mapM_cons] at h
      rcases bind_eq_error_iff.mp h with hb | ⟨c, hc, h⟩
      · exact ⟨[], b, bs, rfl, by simp, hb⟩
      · rcases bind_eq_error_iff.mp h with hbs | ⟨cs, -, h⟩
        · obtain ⟨before, b', after, rfl, hbefore, hb'⟩ := ih hbs
          exact ⟨b :: before, b', after, rfl, List.forall_mem_cons.mpr ⟨⟨c, hc⟩, hbefore⟩, hb'⟩
        · cases h
  · rintro ⟨before, b, after, rfl, hbefore, hb⟩
    induction before with
    | nil =>
      rw [List.nil_append, List.mapM_cons]
      exact bind_eq_error_iff.mpr (.inl hb)
    | cons a before ih =>
      obtain ⟨⟨c, hc⟩, hbefore⟩ := List.forall_mem_cons.mp hbefore
      rw [List.cons_append, List.mapM_cons]
      exact bind_eq_error_iff.mpr (.inr ⟨c, hc, bind_eq_error_iff.mpr (.inl (ih hbefore))⟩)

theorem exists_mem_of_forall₂ {γ : Type} {P : β → γ → Prop} {bs : List β} {cs : List γ}
    (h : List.Forall₂ P bs cs) : ∀ c ∈ cs, ∃ b ∈ bs, P b c := by
  induction h with
  | nil => simp
  | cons hP _ ih =>
    intro c hc
    rcases List.mem_cons.mp hc with rfl | hc
    · exact ⟨_, List.mem_cons_self, hP⟩
    · obtain ⟨b, hb, hP⟩ := ih c hc
      exact ⟨b, List.mem_cons_of_mem _ hb, hP⟩

theorem exists_of_mapM_eq_ok {γ : Type} {f : β → Except ε γ} {bs : List β} {cs : List γ}
    (h : bs.mapM f = .ok cs) : ∀ b ∈ bs, ∃ c, f b = .ok c := by
  intro b hb
  obtain ⟨c, -, hc⟩ := exists_mem_of_forall₂ (forall₂_of_mapM_eq_ok h).flip b hb
  exact ⟨c, hc⟩

theorem exists_mem_of_mapM_eq_ok {γ : Type} {f : β → Except ε γ} {bs : List β} {cs : List γ}
    (h : bs.mapM f = .ok cs) : ∀ c ∈ cs, ∃ b ∈ bs, f b = .ok c :=
  exists_mem_of_forall₂ (forall₂_of_mapM_eq_ok h)

/-- What is the same on both sides of a relation is the same list on both sides. -/
theorem map_eq_of_forall₂ {γ δ : Type} {P : β → γ → Prop} {f : β → δ} {g : γ → δ} {bs : List β}
    {cs : List γ} (h : List.Forall₂ P bs cs) (hP : ∀ b c, P b c → f b = g c) :
    bs.map f = cs.map g := by
  induction h with
  | nil => rfl
  | cons hbc _ ih => rw [List.map_cons, List.map_cons, hP _ _ hbc, ih]

/-- Lists that are related to one list agree in what the relation settles. -/
theorem map_eq_of_forall₂_of_forall₂ {γ δ : Type} {P P' : β → γ → Prop} {f f' : γ → δ}
    {bs : List β} {cs cs' : List γ} (h : List.Forall₂ P bs cs) (h' : List.Forall₂ P' bs cs')
    (hP : ∀ b c c', P b c → P' b c' → f c = f' c') : cs.map f = cs'.map f' := by
  induction h generalizing cs' with
  | nil =>
    obtain rfl := List.forall₂_nil_left_iff.mp h'
    rfl
  | cons hbc _ ih =>
    obtain ⟨c', cs', hbc', hrest, rfl⟩ := List.forall₂_cons_left_iff.mp h'
    rw [List.map_cons, List.map_cons, hP _ _ _ hbc hbc', ih hrest]

/-- Computations that go on alike from matching results match. -/
theorem bind_eq_map {β' γ γ' : Type} {x : Except ε β} {x' : Except ε β'} {f : β → Except ε γ}
    {f' : β' → Except ε γ'} {g : β → β'} {k : γ → γ'} (hx : x' = x.map g)
    (hf : ∀ b, x = .ok b → f' (g b) = (f b).map k) : x' >>= f' = (x >>= f).map k := by
  subst hx
  cases x with
  | error e => rfl
  | ok b => exact hf b rfl

theorem foldlM_eq_map {f : σ → β → Except ε σ} {g : σ → σ}
    (hf : ∀ s b, f (g s) b = (f s b).map g) (bs : List β) (s : σ) :
    bs.foldlM f (g s) = (bs.foldlM f s).map g := by
  induction bs generalizing s with
  | nil => rfl
  | cons b bs ih =>
    rw [List.foldlM_cons, List.foldlM_cons]
    exact bind_eq_map (hf s b) fun t _ => ih t

theorem mapM_eq_ok {γ : Type} {f : β → Except ε γ} {g : β → γ} {bs : List β}
    (h : ∀ b ∈ bs, f b = .ok (g b)) : bs.mapM f = .ok (bs.map g) := by
  induction bs with
  | nil => rfl
  | cons b bs ih =>
    rw [List.mapM_cons, h b List.mem_cons_self, ih fun b hb => h b (List.mem_cons_of_mem _ hb)]
    rfl

theorem allM_eq_ok {f : β → Except ε Bool} {g : β → Bool} {bs : List β}
    (h : ∀ b ∈ bs, f b = .ok (g b)) : bs.allM f = .ok (bs.all g) := by
  induction bs with
  | nil => rfl
  | cons b bs ih =>
    rw [List.allM, h b List.mem_cons_self, List.all_cons]
    cases g b with
    | false => rfl
    | true => exact ih fun b hb => h b (List.mem_cons_of_mem _ hb)

theorem foldlM_eq_ok {f : σ → β → Except ε σ} {g : σ → β → σ} {bs : List β}
    (h : ∀ s, ∀ b ∈ bs, f s b = .ok (g s b)) (s : σ) : bs.foldlM f s = .ok (bs.foldl g s) := by
  induction bs generalizing s with
  | nil => rfl
  | cons b bs ih =>
    rw [List.foldlM_cons, h s b List.mem_cons_self]
    exact ih (fun s b hb => h s b (List.mem_cons_of_mem _ hb)) _

/-- A loop over the first numbers gets to its end if each number finds what it needs and leaves
what the next one needs. -/
theorem exists_foldlM_range_eq_ok {I : ℕ → σ → Prop} {f : σ → ℕ → Except ε σ} {n : ℕ}
    (hstep : ∀ k < n, ∀ s, I k s → ∃ s', f s k = .ok s' ∧ I (k + 1) s') {s : σ} (h : I 0 s) :
    ∃ s', (List.range n).foldlM f s = .ok s' ∧ I n s' := by
  induction n with
  | zero => exact ⟨s, rfl, h⟩
  | succ n ih =>
    obtain ⟨t, ht, hI⟩ := ih fun k hk => hstep k (Nat.lt_succ_of_lt hk)
    obtain ⟨s', hs', hI'⟩ := hstep n n.lt_succ_self t hI
    refine ⟨s', ?_, hI'⟩
    rw [List.range_succ, List.foldlM_append]
    exact bind_eq_ok_iff.mpr ⟨t, ht, by rw [List.foldlM_cons, hs']; rfl⟩

/-- So does a loop from one number up to another. -/
theorem exists_foldlM_range'_eq_ok {I : ℕ → σ → Prop} {f : σ → ℕ → Except ε σ} {a b : ℕ}
    (hab : a ≤ b) (hstep : ∀ k, a ≤ k → k < b → ∀ s, I k s → ∃ s', f s k = .ok s' ∧ I (k + 1) s')
    {s : σ} (h : I a s) : ∃ s', (List.range' a (b - a)).foldlM f s = .ok s' ∧ I b s' := by
  obtain ⟨s', hs', hI⟩ := exists_foldlM_range_eq_ok (I := fun i => I (a + i))
    (f := fun s i => f s (a + i)) (n := b - a)
    (fun i hi s hs => hstep (a + i) (by omega) (by omega) s hs) h
  rw [Nat.add_sub_cancel' hab] at hI
  exact ⟨s', by rwa [List.range'_eq_map_range, List.foldlM_map], hI⟩

/-- A loop goes along with another one wherever each of its steps does. -/
theorem foldlM_along {τ : Type} {I : σ → Prop} {f : σ → β → Except ε σ} {f' : τ → β → Except ε τ}
    {g : σ → τ} (hstep : ∀ s s' b, I s → f s b = .ok s' → f' (g s) b = .ok (g s') ∧ I s')
    {bs : List β} {s s' : σ} (h : I s) (hs : bs.foldlM f s = .ok s') :
    bs.foldlM f' (g s) = .ok (g s') ∧ I s' := by
  induction bs generalizing s with
  | nil =>
    obtain rfl := Except.ok.inj hs
    exact ⟨rfl, h⟩
  | cons b bs ih =>
    rw [List.foldlM_cons] at hs
    obtain ⟨t, ht, hs⟩ := bind_eq_ok_iff.mp hs
    obtain ⟨ht', hI⟩ := hstep s t b h ht
    rw [List.foldlM_cons, ht']
    exact ih hI hs

/-- Both computations fail, or both succeed with results in a relation. -/
inductive Both {γ : Type} (R : β → γ → Prop) : Except ε β → Except ε γ → Prop
  | error (e e' : ε) : Both R (.error e) (.error e')
  | ok {b : β} {c : γ} (h : R b c) : Both R (.ok b) (.ok c)

theorem Both.bind {γ β' γ' : Type} {R : β → γ → Prop} {R' : β' → γ' → Prop} {x : Except ε β}
    {y : Except ε γ} {f : β → Except ε β'} {g : γ → Except ε γ'} (h : Both R x y)
    (hf : ∀ b c, R b c → Both R' (f b) (g c)) : Both R' (x >>= f) (y >>= g) := by
  cases h with
  | error e e' => exact .error e e'
  | ok h => exact hf _ _ h

/-- Loops over equally many entries go side by side. -/
theorem Both.foldlM {γ τ : Type} {R : σ → τ → Prop} {f : σ → β → Except ε σ}
    {g : τ → γ → Except ε τ} (hstep : ∀ s t b c, R s t → Both R (f s b) (g t c)) {bs : List β}
    {cs : List γ} (hlength : bs.length = cs.length) {s : σ} {t : τ} (h : R s t) :
    Both R (bs.foldlM f s) (cs.foldlM g t) := by
  induction bs generalizing cs s t with
  | nil =>
    obtain rfl := List.length_eq_zero_iff.mp hlength.symm
    exact .ok h
  | cons b bs ih =>
    obtain ⟨c, cs, rfl⟩ := List.exists_cons_of_length_eq_add_one hlength.symm
    rw [List.foldlM_cons, List.foldlM_cons]
    exact (hstep s t b c h).bind fun _ _ => ih (Nat.succ.inj hlength)

variable {I : σ → Prop} {f : σ → β → Except ε σ}

/-- A loop that succeeds keeps what each of its steps keeps. -/
theorem foldlM_keeps (hstep : ∀ s s' b, I s → f s b = .ok s' → I s') {bs : List β} {s s' : σ}
    (h : I s) (hs : bs.foldlM f s = .ok s') : I s' := by
  induction bs generalizing s with
  | nil =>
    obtain rfl := Except.ok.inj hs
    exact h
  | cons b bs ih =>
    rw [List.foldlM_cons] at hs
    obtain ⟨t, ht, hs⟩ := bind_eq_ok_iff.mp hs
    exact ih (hstep s t b h ht) hs

/-- A loop succeeds whose steps succeed and keep what they rely on. -/
theorem exists_foldlM_eq_ok (hstep : ∀ s b, I s → ∃ s', f s b = .ok s' ∧ I s') (bs : List β)
    {s : σ} (h : I s) : ∃ s', bs.foldlM f s = .ok s' ∧ I s' := by
  induction bs generalizing s with
  | nil => exact ⟨s, rfl, h⟩
  | cons b bs ih =>
    obtain ⟨t, ht, hI⟩ := hstep s b h
    obtain ⟨s', hs, hI'⟩ := ih hI
    refine ⟨s', ?_, hI'⟩
    rw [List.foldlM_cons]
    exact bind_eq_ok_iff.mpr ⟨t, ht, hs⟩

end Qubo.Result
