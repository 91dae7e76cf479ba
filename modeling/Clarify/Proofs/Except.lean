/-!
# Work that may fail

When a step of a computation succeeds, and what comes of a row of items that are gone through
until one fails.

Results:
* `bind_eq_ok_iff`: two steps succeed exactly if the first one does and the second one after it.
* `mapM_cons_eq_ok_iff`: how a row goes on.
* `exists_of_mapM_eq_error`: a row that fails has an item that does.
* `exists_mapM`: a row succeeds if each of its items does.
* `getElem?_of_mapM`, `exists_of_mem_mapM`: each result comes from the item in its place.
* `mapM_eq_ok_iff`: what a row comes to, where each result tells which item it comes from.
-/

namespace Clarify.Except

variable {ε ε' α β γ : Type}

theorem bind_eq_ok_iff {x : Except ε α} {f : α → Except ε β} {b : β} :
    x >>= f = .ok b ↔ ∃ a, x = .ok a ∧ f a = .ok b := by
  cases x <;> simp [bind, Except.bind]

theorem pure_eq_ok_iff {a b : α} : (pure a : Except ε α) = .ok b ↔ a = b := by
  simp [pure, Except.pure]

theorem throw_eq_ok_iff {e : ε} {a : α} : (throw e : Except ε α) = .ok a ↔ False :=
  iff_false_intro nofun

/-- Two steps fail exactly if the first one does, or the second one after it. -/
theorem bind_eq_error_iff {x : Except ε α} {f : α → Except ε β} {e : ε} :
    x >>= f = .error e ↔ x = .error e ∨ ∃ a, x = .ok a ∧ f a = .error e := by
  cases x <;> simp [bind, Except.bind]

theorem pure_eq_error_iff {a : α} {e : ε} : (pure a : Except ε α) = .error e ↔ False := by
  simp [pure, Except.pure]

theorem throw_eq_error_iff {e e' : ε} : (throw e : Except ε α) = .error e' ↔ e = e' := by
  simp [throw, throwThe, MonadExceptOf.throw]

theorem mapError_eq_ok_iff {x : Except ε α} {f : ε → ε'} {a : α} :
    x.mapError f = .ok a ↔ x = .ok a := by
  constructor <;> intro h <;> cases x <;> cases h <;> rfl

theorem ok_bind {a : α} {f : α → Except ε β} : (.ok a : Except ε α) >>= f = f a := rfl

/-- The error of two steps is changed in each of them. -/
theorem mapError_bind {x : Except ε α} {f : α → Except ε β} {g : ε → ε'} :
    (x >>= f).mapError g = x.mapError g >>= fun a => (f a).mapError g := by
  cases x <;> rfl

theorem eq_ok_of_toOption {x : Except ε α} {a : α} (h : x.toOption = some a) : x = .ok a := by
  cases x with
  | error e => cases h
  | ok b => rw [Option.some.inj h]

/-! ## Rows -/

variable {xs : List α}

theorem mapM_cons_eq_ok_iff {f : α → Except ε β} {x : α} {zs : List β} :
    (x :: xs).mapM f = .ok zs ↔ ∃ y ys, f x = .ok y ∧ xs.mapM f = .ok ys ∧ zs = y :: ys := by
  simp only [List.mapM_cons, bind_eq_ok_iff, pure_eq_ok_iff, exists_and_left, eq_comm (a := zs)]

theorem exists_mapM {f : α → Except ε β} (h : ∀ x ∈ xs, ∃ y, f x = .ok y) :
    ∃ ys, xs.mapM f = .ok ys := by
  induction xs with
  | nil => exact ⟨[], rfl⟩
  | cons x xs ih =>
    obtain ⟨⟨y, first⟩, rest⟩ := List.forall_mem_cons.1 h
    obtain ⟨ys, rest⟩ := ih rest
    exact ⟨y :: ys, mapM_cons_eq_ok_iff.2 ⟨y, ys, first, rest, rfl⟩⟩

/-- The error of a row is changed in each of its steps. -/
theorem mapM_mapError {f : α → Except ε β} {f' : α → Except ε' β} {g : ε → ε'}
    (same : ∀ x ∈ xs, f' x = (f x).mapError g) : xs.mapM f' = (xs.mapM f).mapError g := by
  induction xs with
  | nil => rfl
  | cons x xs ih =>
    obtain ⟨first, rest⟩ := List.forall_mem_cons.1 same
    rw [List.mapM_cons, List.mapM_cons, first, ih rest, mapError_bind]
    refine congrArg _ (funext fun y => ?_)
    rw [mapError_bind]
    rfl

/-- The error of checks on a row is changed in each of them. -/
theorem forM_mapError {f : α → Except ε Unit} {g : ε → ε'} :
    (forM xs fun x => (f x).mapError g) = (forM xs f).mapError g := by
  induction xs with
  | nil => rfl
  | cons x xs ih =>
    rw [List.forM_cons, List.forM_cons, ih, mapError_bind]

theorem forM_toList {row : Array α} {f : α → Except ε Unit} :
    row.forM f = forM row.toList f := by
  cases row
  rw [Array.forM_eq_forM, List.forM_toArray, List.forM_eq_forM]

/-- If a row fails, one of its items does. -/
theorem exists_of_mapM_eq_error {f : α → Except ε β} {e : ε} (h : xs.mapM f = .error e) :
    ∃ x ∈ xs, f x = .error e := by
  induction xs with
  | nil => cases h
  | cons x xs ih =>
    rw [List.mapM_cons, bind_eq_error_iff] at h
    obtain first | ⟨y, -, rest⟩ := h
    · exact ⟨x, List.mem_cons_self, first⟩
    · obtain rest | ⟨ys, -, no⟩ := bind_eq_error_iff.1 rest
      · obtain ⟨x', mem, fails⟩ := ih rest
        exact ⟨x', List.mem_cons_of_mem _ mem, fails⟩
      · cases no

theorem exists_of_forM_eq_error {f : α → Except ε Unit} {e : ε} (h : forM xs f = .error e) :
    ∃ x ∈ xs, f x = .error e := by
  induction xs with
  | nil => cases h
  | cons x xs ih =>
    rw [List.forM_cons, bind_eq_error_iff] at h
    obtain first | ⟨-, -, rest⟩ := h
    · exact ⟨x, List.mem_cons_self, first⟩
    · obtain ⟨x', mem, fails⟩ := ih rest
      exact ⟨x', List.mem_cons_of_mem _ mem, fails⟩

theorem exists_of_mem_mapM {f : α → Except ε β} {ys : List β} (h : xs.mapM f = .ok ys) {y : β}
    (hy : y ∈ ys) : ∃ x ∈ xs, f x = .ok y := by
  induction xs generalizing ys with
  | nil =>
    rw [List.mapM_nil] at h
    cases h
    cases hy
  | cons x xs ih =>
    obtain ⟨z, zs, read, rest, rfl⟩ := mapM_cons_eq_ok_iff.1 h
    obtain rfl | hy := List.mem_cons.1 hy
    · exact ⟨x, by simp, read⟩
    · obtain ⟨w, hw, read⟩ := ih rest hy
      exact ⟨w, by simp [hw], read⟩

/-- What comes of an item of a row stands where the item stood. -/
theorem getElem?_of_mapM {f : α → Except ε β} {ys : List β} (h : xs.mapM f = .ok ys) {k : Nat}
    {x : α} (here : xs[k]? = some x) : ∃ y, ys[k]? = some y ∧ f x = .ok y := by
  induction xs generalizing ys k with
  | nil => simp at here
  | cons a xs ih =>
    obtain ⟨y, ys, first, rest, rfl⟩ := mapM_cons_eq_ok_iff.1 h
    cases k with
    | zero =>
      cases here
      exact ⟨y, rfl, first⟩
    | succ k => exact ih rest here

/-- What comes of a row, seen through a view under which each result looks like its item. -/
theorem map_eq_of_mapM {f : α → Except ε β} {view : α → γ} {view' : β → γ}
    (same : ∀ a b, f a = .ok b → view' b = view a) {ys : List β} (h : xs.mapM f = .ok ys) :
    ys.map view' = xs.map view := by
  induction xs generalizing ys with
  | nil =>
    cases h
    rfl
  | cons x xs ih =>
    obtain ⟨y, ys, first, rest, rfl⟩ := mapM_cons_eq_ok_iff.1 h
    rw [List.map_cons, List.map_cons, ih rest, same x y first]

/-- What comes of the items of a list, where each result tells which item it comes from. -/
theorem mapM_eq_ok_iff {f : α → Except ε β} {origin : β → α} {holds : β → Prop}
    (h : ∀ a b, f a = .ok b ↔ a = origin b ∧ holds b) {ys : List β} :
    xs.mapM f = .ok ys ↔ xs = ys.map origin ∧ ∀ b ∈ ys, holds b := by
  induction xs generalizing ys with
  | nil =>
    rw [List.mapM_nil, pure_eq_ok_iff]
    constructor
    · rintro rfl
      exact ⟨rfl, nofun⟩
    · rintro ⟨eq, -⟩
      exact (List.map_eq_nil_iff.1 eq.symm).symm
  | cons x xs ih =>
    simp only [mapM_cons_eq_ok_iff, h, ih]
    constructor
    · rintro ⟨y, ys, ⟨rfl, first⟩, ⟨rfl, rest⟩, rfl⟩
      exact ⟨rfl, List.forall_mem_cons.2 ⟨first, rest⟩⟩
    · rintro ⟨eq, all⟩
      obtain ⟨y, ys, rfl, rfl, rfl⟩ := List.map_eq_cons_iff.1 eq.symm
      obtain ⟨first, rest⟩ := List.forall_mem_cons.1 all
      exact ⟨y, ys, ⟨rfl, first⟩, ⟨rfl, rest⟩, rfl⟩

/-- A row stays as it is exactly if each of its items does. -/
theorem map_fst_eq_self_iff {f : α → Except ε (α × β)} {rows : List (α × β)}
    (h : xs.mapM f = .ok rows) :
    rows.map Prod.fst = xs ↔ ∀ x ∈ xs, ∀ row, f x = .ok row → row.1 = x := by
  induction xs generalizing rows with
  | nil =>
    cases h
    simp
  | cons a xs ih =>
    obtain ⟨row, rows, first, rest, rfl⟩ := mapM_cons_eq_ok_iff.1 h
    rw [List.map_cons, List.cons.injEq, ih rest, List.forall_mem_cons]
    refine and_congr_left fun _ => ⟨fun same row' h => ?_, fun all => all row first⟩
    rw [first] at h
    cases h
    exact same

end Clarify.Except
