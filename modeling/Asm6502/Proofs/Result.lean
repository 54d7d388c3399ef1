/-!
Taking results apart: a chain of fallible steps succeeds when every step does, and fails with the
fault of its first failing step.
-/

namespace Asm6502

variable {ε α β : Type}

theorem bind_eq_ok {x : Except ε α} {f : α → Except ε β} {b : β} :
    x >>= f = .ok b ↔ ∃ a, x = .ok a ∧ f a = .ok b := by
  rcases x with e | a <;> simp [bind, Except.bind]

theorem bind_eq_error {x : Except ε α} {f : α → Except ε β} {e : ε} :
    x >>= f = .error e ↔ x = .error e ∨ ∃ a, x = .ok a ∧ f a = .error e := by
  rcases x with e' | a <;> simp [bind, Except.bind]

theorem map_eq_ok {x : Except ε α} {f : α → β} {b : β} :
    x.map f = .ok b ↔ ∃ a, x = .ok a ∧ f a = b := by
  rcases x with e | a <;> simp [Except.map]

theorem map_eq_error {x : Except ε α} {f : α → β} {e : ε} :
    x.map f = .error e ↔ x = .error e := by
  rcases x with e' | a <;> simp [Except.map]

theorem mapError_bind {δ : Type} {x : Except ε α} {f : α → Except ε β} {g : ε → δ} :
    (x >>= f).mapError g = x.mapError g >>= fun a => (f a).mapError g := by
  cases x <;> rfl

/-! ## All elements of a list -/

theorem mapM_cons_eq_ok {f : α → Except ε β} {x : α} {xs : List α} {ys : List β} :
    (x :: xs).mapM f = .ok ys ↔ ∃ y zs, f x = .ok y ∧ xs.mapM f = .ok zs ∧ ys = y :: zs := by
  simp only [List.mapM_cons, bind_eq_ok, pure, Except.pure, Except.ok.injEq]
  constructor
  · rintro ⟨y, hy, zs, hzs, rfl⟩
    exact ⟨y, zs, hy, hzs, rfl⟩
  · rintro ⟨y, zs, hy, hzs, rfl⟩
    exact ⟨y, hy, zs, hzs, rfl⟩

theorem mapM_cons_eq_error {f : α → Except ε β} {x : α} {xs : List α} {e : ε} :
    (x :: xs).mapM f = .error e ↔ f x = .error e ∨ ∃ y, f x = .ok y ∧ xs.mapM f = .error e := by
  simp [List.mapM_cons, bind_eq_error, pure, Except.pure]

theorem length_mapM {f : α → Except ε β} {xs : List α} {ys : List β} (h : xs.mapM f = .ok ys) :
    ys.length = xs.length := by
  induction xs generalizing ys with
  | nil =>
    cases h
    rfl
  | cons x xs ih =>
    obtain ⟨y, zs, -, hzs, rfl⟩ := mapM_cons_eq_ok.mp h
    simp [ih hzs]

/-- The results are also found by a partial function that gives what `f` gives. -/
theorem mapM_option_of_ok {f : α → Except ε β} {g : α → Option β}
    (hfg : ∀ x y, f x = .ok y → g x = some y) {xs : List α} {ys : List β}
    (h : xs.mapM f = .ok ys) : xs.mapM g = some ys := by
  induction xs generalizing ys with
  | nil =>
    cases h
    rfl
  | cons x xs ih =>
    obtain ⟨y, zs, hy, hzs, rfl⟩ := mapM_cons_eq_ok.mp h
    simp [List.mapM_cons, hfg x y hy, ih hzs]

theorem mapM_map_eq_ok {γ : Type} {f : β → Except ε γ} {g : α → β} {r : α → γ} {xs : List α}
    (h : ∀ x ∈ xs, f (g x) = .ok (r x)) : (xs.map g).mapM f = .ok (xs.map r) := by
  induction xs with
  | nil => rfl
  | cons x xs ih =>
    have hxs := ih fun y hy => h y (List.mem_cons_of_mem x hy)
    exact mapM_cons_eq_ok.mpr ⟨r x, xs.map r, h x List.mem_cons_self, hxs, rfl⟩

/-- What is written for each element is read back for all of them. -/
theorem mapM_map_eq_some {f : β → Option α} {g : α → β} {xs : List α}
    (h : ∀ x ∈ xs, f (g x) = some x) : (xs.map g).mapM f = some xs := by
  induction xs with
  | nil => rfl
  | cons x xs ih =>
    have hx := h x List.mem_cons_self
    have hxs := ih fun y hy => h y (List.mem_cons_of_mem x hy)
    simp [hx, hxs]

theorem mapM_congr {m : Type → Type} [Monad m] [LawfulMonad m] {f g : α → m β} {xs : List α}
    (h : ∀ x ∈ xs, f x = g x) : xs.mapM f = xs.mapM g := by
  induction xs with
  | nil => rfl
  | cons x xs ih =>
    have hx := h x List.mem_cons_self
    have hxs := ih fun y hy => h y (List.mem_cons_of_mem x hy)
    rw [List.mapM_cons, List.mapM_cons, hx, hxs]

theorem exists_of_mem_mapM {f : α → Except ε β} {xs : List α} {ys : List β}
    (h : xs.mapM f = .ok ys) {y : β} (hy : y ∈ ys) : ∃ x ∈ xs, f x = .ok y := by
  induction xs generalizing ys with
  | nil =>
    cases h
    cases hy
  | cons x xs ih =>
    obtain ⟨z, zs, hz, hzs, rfl⟩ := mapM_cons_eq_ok.mp h
    obtain rfl | hmem := List.mem_cons.mp hy
    · exact ⟨x, List.mem_cons_self, hz⟩
    · obtain ⟨w, hw, hfw⟩ := ih hzs hmem
      exact ⟨w, List.mem_cons_of_mem x hw, hfw⟩

/-- What is made of the results can be made of each result as it comes. -/
theorem map_flatMap_mapM {γ : Type} (f : α → Except ε β) (g : β → List γ) (xs : List α) :
    (xs.mapM f).map (fun ys => ys.flatMap g) =
      (xs.mapM fun x => (f x).map g).map List.flatten := by
  induction xs with
  | nil => rfl
  | cons x xs ih =>
    cases hx : f x with
    | error e => simp [List.mapM_cons, hx, bind, Except.bind, Except.map]
    | ok y =>
      have hleft : ((x :: xs).mapM f).map (fun ys => ys.flatMap g) =
          ((xs.mapM f).map fun ys => ys.flatMap g).map fun zs => g y ++ zs := by
        rw [List.mapM_cons, hx]
        rcases xs.mapM f with e | ys <;> rfl
      have hright : ((x :: xs).mapM fun x => (f x).map g).map List.flatten =
          ((xs.mapM fun x => (f x).map g).map List.flatten).map fun zs => g y ++ zs := by
        rw [List.mapM_cons, hx]
        rcases xs.mapM fun x => (f x).map g with e | zs <;> rfl
      rw [hleft, ih, hright]

/-- The fault of a list is that of one of its elements. -/
theorem exists_of_mapM_eq_error {f : α → Except ε β} {xs : List α} {e : ε}
    (h : xs.mapM f = .error e) : ∃ x ∈ xs, f x = .error e := by
  induction xs with
  | nil => cases h
  | cons x xs ih =>
    obtain hx | ⟨y, -, hxs⟩ := mapM_cons_eq_error.mp h
    · exact ⟨x, List.mem_cons_self, hx⟩
    · obtain ⟨z, hz, hfault⟩ := ih hxs
      exact ⟨z, List.mem_cons_of_mem x hz, hfault⟩

/-! ## Two results alike -/

/-- Both fail with the same fault, or both succeed with related results. -/
inductive Alike (R : α → β → Prop) : Except ε α → Except ε β → Prop
  | error (e : ε) : Alike R (.error e) (.error e)
  | ok {a : α} {b : β} (h : R a b) : Alike R (.ok a) (.ok b)

theorem Alike.refl {R : α → α → Prop} (h : ∀ a, R a a) (x : Except ε α) : Alike R x x := by
  cases x with
  | error e => exact .error e
  | ok a => exact .ok (h a)

theorem Alike.eq_error_iff {R : α → β → Prop} {x : Except ε α} {y : Except ε β} (h : Alike R x y)
    {e : ε} : x = .error e ↔ y = .error e := by
  cases h with
  | error e' => simp
  | ok h => simp

theorem Alike.bind {γ δ : Type} {R : α → β → Prop} {S : γ → δ → Prop} {x : Except ε α}
    {y : Except ε β} {f : α → Except ε γ} {g : β → Except ε δ} (h : Alike R x y)
    (hfg : ∀ a b, R a b → Alike S (f a) (g b)) : Alike S (x >>= f) (y >>= g) := by
  cases h with
  | error e => exact .error e
  | ok h => exact hfg _ _ h

theorem Alike.map {γ δ : Type} {R : α → β → Prop} {S : γ → δ → Prop} {x : Except ε α}
    {y : Except ε β} {f : α → γ} {g : β → δ} (h : Alike R x y)
    (hfg : ∀ a b, R a b → S (f a) (g b)) : Alike S (x.map f) (y.map g) := by
  cases h with
  | error e => exact .error e
  | ok h => exact .ok (hfg _ _ h)

end Asm6502
