import Mathlib.Tactic.Basic
import Mathlib.Data.List.Forall2

/-!
# Success: what steps that may fail have done when they succeed

A sequence of steps succeeds exactly if each step succeeds in turn; renaming errors changes no
success. Steps along a list keep what each of them keeps (`foldlM_invariant`), and they fail where
the first of them fails (`foldlM_eq_error_iff`).
-/

namespace BoxDiagram

variable {α β ε ε' : Type}

@[simp] theorem bind_eq_ok {x : Except ε α} {f : α → Except ε β} {b : β} :
    x >>= f = .ok b ↔ ∃ a, x = .ok a ∧ f a = .ok b := by
  cases x <;> simp [bind, Except.bind]

@[simp] theorem except_bind_eq_ok {x : Except ε α} {f : α → Except ε β} {b : β} :
    x.bind f = .ok b ↔ ∃ a, x = .ok a ∧ f a = .ok b := bind_eq_ok

@[simp] theorem pure_eq_ok {a b : α} : (pure a : Except ε α) = .ok b ↔ a = b := by
  simp [pure, Except.pure]

@[simp] theorem mapError_eq_ok {x : Except ε α} {f : ε → ε'} {a : α} :
    x.mapError f = .ok a ↔ x = .ok a := by
  cases x <;> simp [Except.mapError]

@[simp] theorem map_eq_ok {x : Except ε α} {f : α → β} {b : β} :
    x.map f = .ok b ↔ ∃ a, x = .ok a ∧ f a = b := by
  cases x <;> simp [Except.map]

theorem ok_bind (a : α) (f : α → Except ε β) : (Except.ok a : Except ε α) >>= f = f a := rfl

theorem error_bind (e : ε) (f : α → Except ε β) :
    (Except.error e : Except ε α) >>= f = .error e := rfl

/-! ### Failure -/

theorem bind_eq_error {x : Except ε α} {f : α → Except ε β} {e : ε} :
    x >>= f = .error e ↔ x = .error e ∨ ∃ a, x = .ok a ∧ f a = .error e := by
  cases x <;> simp [bind, Except.bind]

theorem mapError_eq_error {x : Except ε α} {f : ε → ε'} {e : ε'} :
    x.mapError f = .error e ↔ ∃ e', x = .error e' ∧ f e' = e := by
  cases x <;> simp [Except.mapError]

theorem map_eq_error {x : Except ε α} {f : α → β} {e : ε} :
    x.map f = .error e ↔ x = .error e := by
  cases x <;> simp [Except.map]

/-! ### Success without the error -/

theorem toOption_eq_some_iff {x : Except ε α} {a : α} : x.toOption = some a ↔ x = .ok a := by
  cases x <;> simp [Except.toOption]

theorem toOption_bind (x : Except ε α) (f : α → Except ε β) :
    (x >>= f).toOption = x.toOption.bind fun a => (f a).toOption := by
  cases x <;> rfl

theorem toOption_mapError (x : Except ε α) (f : ε → ε') : (x.mapError f).toOption = x.toOption := by
  cases x <;> rfl

theorem toOption_mapM_congr {f f' : α → Except ε β} (h : ∀ x, (f x).toOption = (f' x).toOption)
    (xs : List α) : (xs.mapM f).toOption = (xs.mapM f').toOption := by
  induction xs with
  | nil => rfl
  | cons x xs ih => simp only [List.mapM_cons, toOption_bind, h, ih]

/-! ### Lists -/

theorem mapM_eq_ok_iff {f : α → Except ε β} : ∀ {xs : List α} {ys : List β},
    xs.mapM f = .ok ys ↔ List.Forall₂ (fun x y => f x = .ok y) xs ys
  | [], ys => by
    rw [List.mapM_nil, pure_eq_ok, List.forall₂_nil_left_iff, eq_comm]
  | x :: xs, ys => by
    rw [List.mapM_cons, bind_eq_ok]
    constructor
    · rintro ⟨y, hy, h⟩
      obtain ⟨ys', hys, h⟩ := bind_eq_ok.mp h
      rw [← pure_eq_ok.mp h]
      exact List.Forall₂.cons hy (mapM_eq_ok_iff.mp hys)
    · intro h
      cases h with
      | cons hy hys => exact ⟨_, hy, bind_eq_ok.mpr ⟨_, mapM_eq_ok_iff.mpr hys, rfl⟩⟩

theorem exists_of_mapM {f : α → Except ε β} {xs : List α} {ys : List β} (h : xs.mapM f = .ok ys) :
    ∀ y ∈ ys, ∃ x ∈ xs, f x = .ok y := by
  have hall := mapM_eq_ok_iff.mp h
  intro y hy
  obtain ⟨i, hi, rfl⟩ := List.getElem_of_mem hy
  have hix : i < xs.length := by
    rw [hall.length_eq]
    exact hi
  exact ⟨xs.get ⟨i, hix⟩, List.get_mem _ _, hall.get hix hi⟩

theorem exists_of_mem_of_mapM {f : α → Except ε β} {xs : List α} {ys : List β}
    (h : xs.mapM f = .ok ys) : ∀ x ∈ xs, ∃ y, f x = .ok y := by
  have hall : List.Forall₂ (fun x y => (∃ z, f x = .ok z) ∧ f x = .ok y) xs ys :=
    (mapM_eq_ok_iff.mp h).imp fun _ y hy => ⟨⟨y, hy⟩, hy⟩
  exact ((List.forall₂_and_left _ _).mp hall).1

theorem length_of_mapM {f : α → Except ε β} {xs : List α} {ys : List β} (h : xs.mapM f = .ok ys) :
    xs.length = ys.length := (mapM_eq_ok_iff.mp h).length_eq

theorem mapM_map_congr {f : α → α} {g : α → Except ε β} :
    ∀ {xs : List α}, (∀ x ∈ xs, g (f x) = g x) → (xs.map f).mapM g = xs.mapM g
  | [], _ => rfl
  | x :: xs, h => by
    obtain ⟨hx, hxs⟩ := List.forall_mem_cons.mp h
    rw [List.map_cons, List.mapM_cons, List.mapM_cons, hx, mapM_map_congr hxs]

/-- What maps a list and joins the results on the way maps it first and joins them afterwards. -/
theorem eq_map_flatten {f : α → Except ε (List β)} {all : List α → Except ε (List β)}
    (hnil : all [] = .ok []) (hcons : ∀ x xs, all (x :: xs) = do return (← f x) ++ (← all xs)) :
    ∀ xs, all xs = (xs.mapM f).map List.flatten
  | [] => by rw [hnil]; rfl
  | x :: xs => by
    rw [hcons, eq_map_flatten hnil hcons xs, List.mapM_cons]
    cases f x with
    | error e => rfl
    | ok ys => cases xs.mapM f <;> rfl

theorem exists_of_mapM_eq_error {f : α → Except ε β} {e : ε} : ∀ {xs : List α},
    xs.mapM f = .error e → ∃ x ∈ xs, f x = .error e
  | [], h => by
    rw [List.mapM_nil] at h
    cases h
  | x :: xs, h => by
    rw [List.mapM_cons, bind_eq_error] at h
    rcases h with h | ⟨y, -, h⟩
    · exact ⟨x, List.mem_cons_self, h⟩
    · rcases bind_eq_error.mp h with h | ⟨ys, -, h⟩
      · obtain ⟨z, hz, hfail⟩ := exists_of_mapM_eq_error h
        exact ⟨z, List.mem_cons_of_mem _ hz, hfail⟩
      · cases h

/-- **A run of steps fails exactly where the steps before succeed and one step fails.** -/
theorem foldlM_eq_error_iff {f : β → α → Except ε β} {e : ε} : ∀ {xs : List α} {b : β},
    xs.foldlM f b = .error e ↔ ∃ before x after c, xs = before ++ x :: after ∧
      before.foldlM f b = .ok c ∧ f c x = .error e
  | [], b => by
    rw [List.foldlM_nil]
    constructor
    · intro h
      cases h
    · rintro ⟨before, x, after, c, h, -⟩
      simp at h
  | x :: xs, b => by
    rw [List.foldlM_cons, bind_eq_error]
    constructor
    · rintro (h | ⟨c, hc, h⟩)
      · exact ⟨[], x, xs, b, rfl, rfl, h⟩
      · obtain ⟨before, y, after, d, rfl, hd, hy⟩ := foldlM_eq_error_iff.mp h
        refine ⟨x :: before, y, after, d, rfl, ?_, hy⟩
        rw [List.foldlM_cons, bind_eq_ok]
        exact ⟨c, hc, hd⟩
    · rintro ⟨before, y, after, d, heq, hd, hy⟩
      cases before with
      | nil =>
        obtain ⟨rfl, rfl⟩ := List.cons.inj heq
        rw [List.foldlM_nil, pure_eq_ok] at hd
        exact Or.inl (hd ▸ hy)
      | cons z before =>
        obtain ⟨rfl, rfl⟩ := List.cons.inj heq
        rw [List.foldlM_cons, bind_eq_ok] at hd
        obtain ⟨c, hc, hd⟩ := hd
        exact Or.inr ⟨c, hc, foldlM_eq_error_iff.mpr ⟨before, y, after, d, rfl, hd, hy⟩⟩

/-- **What every step keeps, a run of steps keeps.** -/
theorem foldlM_invariant {f : β → α → Except ε β} {p : β → Prop} :
    ∀ {xs : List α}, (∀ x ∈ xs, ∀ b b', p b → f b x = .ok b' → p b') →
      ∀ {b b' : β}, p b → xs.foldlM f b = .ok b' → p b'
  | [], _, b, b', hb, h => by
    rw [List.foldlM_nil] at h
    exact pure_eq_ok.mp h ▸ hb
  | x :: xs, hstep, b, b', hb, h => by
    rw [List.foldlM_cons] at h
    obtain ⟨c, hc, h⟩ := bind_eq_ok.mp h
    exact foldlM_invariant (fun y hy => hstep y (List.mem_cons_of_mem _ hy))
      (hstep x (by simp) b c hb hc) h

end BoxDiagram
