/-!
# Outcomes

Computations that may fail, taken apart. `bind_eq_ok_iff` and `bind_eq_error_iff` say what a
sequence of two steps did, `mapM_eq_ok_iff` and `mapM_eq_error_iff` what one step did on every
element of a list: it succeeded on all of them, or it failed first on one of them. The numbers of
the elements do not matter if they show in the errors only (`mapM_zipIdx_eq_ok`).
-/

namespace TwinRom

variable {ε ε' α β γ : Type}

/-- Two steps in a row succeed exactly if both do. -/
theorem bind_eq_ok_iff {x : Except ε α} {f : α → Except ε β} {b : β} :
    x >>= f = .ok b ↔ ∃ a, x = .ok a ∧ f a = .ok b := by
  cases x <;> simp [bind, Except.bind]

/-- Two steps fail if the first does, or else the second. -/
theorem bind_eq_error_iff {x : Except ε α} {f : α → Except ε β} {e : ε} :
    x >>= f = .error e ↔ x = .error e ∨ ∃ a, x = .ok a ∧ f a = .error e := by
  cases x <;> simp [bind, Except.bind]

theorem exists_eq_ok_iff {x : Except ε α} : (∃ a, x = .ok a) ↔ ∀ e, x ≠ .error e := by
  cases x <;> simp

theorem map_eq_ok_iff {x : Except ε α} {f : α → β} {b : β} :
    x.map f = .ok b ↔ ∃ a, x = .ok a ∧ f a = b := by
  cases x <;> simp [Except.map]

theorem map_eq_error_iff {x : Except ε α} {f : α → β} {e : ε} :
    x.map f = .error e ↔ x = .error e := by
  cases x <;> simp [Except.map]

/-- An error of a step with changed errors comes from an error of the step. -/
theorem mapError_eq_error_iff {x : Except ε α} {f : ε → ε'} {e : ε'} :
    x.mapError f = .error e ↔ ∃ e₀, x = .error e₀ ∧ f e₀ = e := by
  constructor
  · intro h
    cases x with
    | error e₀ => exact ⟨e₀, rfl, Except.error.inj h⟩
    | ok a => cases h
  · rintro ⟨e₀, rfl, rfl⟩
    rfl

/-- The fault of a sequence can be changed in each of its steps. -/
theorem bind_mapError (e : ε → ε') (x : Except ε α) (f : α → Except ε β) :
    (x >>= f).mapError e = x.mapError e >>= fun a => (f a).mapError e := by
  cases x <;> rfl

/-! ## One step on a list -/

/-- If changing an element only changes its error, then this is so for a whole list. -/
theorem mapM_map_mapError {e : ε → ε} {f : α → Except ε β} {g : α → α}
    (h : ∀ a, f (g a) = (f a).mapError e) :
    ∀ xs : List α, (xs.map g).mapM f = (xs.mapM f).mapError e
  | [] => rfl
  | x :: xs => by
    simp only [List.map_cons, List.mapM_cons, bind_mapError, h, mapM_map_mapError h xs]
    rfl

/-- The results of a step can be changed one by one or all at the end. -/
theorem mapM_map {f : α → Except ε β} (g : β → γ) :
    ∀ xs : List α, (xs.mapM fun x => (f x).map g) = (xs.mapM f).map (List.map g)
  | [] => rfl
  | x :: xs => by
    rw [List.mapM_cons, List.mapM_cons, mapM_map g xs]
    cases f x with
    | error e => rfl
    | ok y => cases xs.mapM f <;> rfl

/-- A step succeeds on a list if it does on every element. -/
theorem mapM_eq_ok_iff {f : α → Except ε β} :
    ∀ {xs : List α} {ys : List β}, xs.mapM f = .ok ys ↔ xs.map f = ys.map .ok
  | [], ys => by cases ys <;> simp [pure, Except.pure]
  | x :: xs, [] => by simp [bind_eq_ok_iff, pure, Except.pure]
  | x :: xs, y :: ys => by
    simp only [List.mapM_cons, bind_eq_ok_iff, mapM_eq_ok_iff, pure, Except.pure,
      Except.ok.injEq, List.map_cons, List.cons.injEq]
    constructor
    · rintro ⟨_, hx, _, hxs, rfl, rfl⟩
      exact ⟨hx, hxs⟩
    · rintro ⟨hx, hxs⟩
      exact ⟨y, hx, ys, hxs, rfl, rfl⟩

/-- A step that can only succeed in one way succeeds on a list in one way. -/
theorem mapM_eq_ok_iff_of_unique {f : α → Except ε β} {g : α → β}
    (hg : ∀ x y, f x = .ok y → y = g x) {xs : List α} {ys : List β} :
    xs.mapM f = .ok ys ↔ (∀ x ∈ xs, f x = .ok (g x)) ∧ ys = xs.map g := by
  rw [mapM_eq_ok_iff]
  constructor
  · intro h
    have hall : ∀ x ∈ xs, f x = .ok (g x) := by
      intro x hx
      obtain ⟨y, -, hy⟩ := List.mem_map.mp (h ▸ List.mem_map_of_mem (f := f) hx)
      rw [← hy, hg x y hy.symm]
    refine ⟨hall, (List.map_inj_right fun _ _ => Except.ok.inj).mp (h.symm.trans ?_)⟩
    rw [List.map_map]
    exact List.map_congr_left hall
  · rintro ⟨h, rfl⟩
    rw [List.map_map]
    exact List.map_congr_left h

/-- A step that succeeds where a value is found finds the values of all elements of a list. -/
theorem mapM_eq_ok_iff_map_eq {f : α → Except ε β} {g : α → Option β}
    (h : ∀ x y, f x = .ok y ↔ g x = some y) {xs : List α} {ys : List β} :
    xs.mapM f = .ok ys ↔ xs.map g = ys.map some := by
  rw [mapM_eq_ok_iff]
  induction xs generalizing ys with
  | nil => cases ys <;> simp
  | cons x xs ih => cases ys <;> simp [h, ih]

/-- A step whose success does not depend on the number of an element succeeds on all elements of a
list, wherever their numbers start. -/
theorem mapM_zipIdx_eq_ok {f : Nat → α → Except ε β}
    (hf : ∀ m n x y, f m x = .ok y → f n x = .ok y) :
    ∀ {xs : List α} {ys : List β}, xs.map (f 0) = ys.map .ok → ∀ n,
      ((xs.zipIdx n).mapM fun p => f p.2 p.1) = .ok ys
  | [], ys, h, _ => mapM_eq_ok_iff.mpr h
  | x :: xs, [], h, _ => absurd h (by simp)
  | x :: xs, y :: ys, h, n => by
    obtain ⟨hx, hxs⟩ := List.cons.inj h
    have ih := mapM_eq_ok_iff.mp (mapM_zipIdx_eq_ok hf hxs (n + 1))
    rw [mapM_eq_ok_iff, List.zipIdx_cons, List.map_cons, List.map_cons, ih, hf 0 n x y hx]

/-- The fault of a list is that of the first element that has one. -/
theorem mapM_eq_error_iff {f : α → Except ε β} {e : ε} :
    ∀ {xs : List α}, xs.mapM f = .error e ↔ ∃ pre x post, xs = pre ++ x :: post ∧
      (∀ y ∈ pre, ∃ b, f y = .ok b) ∧ f x = .error e
  | [] => by simp [pure, Except.pure]
  | x :: xs => by
    simp only [List.mapM_cons, bind_eq_error_iff, mapM_eq_error_iff, pure, Except.pure]
    constructor
    · rintro (hx | ⟨b, hx, ⟨pre, y, post, rfl, hpre, hy⟩ | ⟨_, _, h⟩⟩)
      · exact ⟨[], x, xs, rfl, by simp, hx⟩
      · refine ⟨x :: pre, y, post, rfl, ?_, hy⟩
        rintro z (_ | ⟨_, hz⟩)
        · exact ⟨b, hx⟩
        · exact hpre z hz
      · cases h
    · rintro ⟨_ | ⟨z, pre⟩, y, post, h, hpre, hy⟩
      · obtain ⟨rfl, rfl⟩ := List.cons.inj h
        exact .inl hy
      · obtain ⟨rfl, rfl⟩ := List.cons.inj h
        obtain ⟨b, hb⟩ := hpre x (by simp)
        exact .inr ⟨b, hb, .inl ⟨pre, y, post, rfl, fun w hw => hpre w (by simp [hw]), hy⟩⟩

end TwinRom
