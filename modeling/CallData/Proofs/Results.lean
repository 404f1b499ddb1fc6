/-
CallData/Proofs/Results.lean

Computations that may fail, taken apart: a sequence of them succeeds when each one does, and fails
with the first one that does not.
-/
import Mathlib.Data.List.Forall2

namespace CallData

variable {ε α β : Type}

theorem bind_eq_ok_iff {x : Except ε α} {f : α → Except ε β} {b : β} :
    x >>= f = .ok b ↔ ∃ a, x = .ok a ∧ f a = .ok b := by
  rcases x with e | a
  · constructor
    · intro h
      contradiction
    · rintro ⟨a, h, -⟩
      contradiction
  · constructor
    · intro h
      exact ⟨a, rfl, h⟩
    · rintro ⟨a', h, hf⟩
      obtain rfl : a = a' := Except.ok.inj h
      exact hf

/-- What follows a failure is not looked at. -/
@[simp] theorem error_bind {e : ε} {f : α → Except ε β} :
    (.error e : Except ε α) >>= f = .error e :=
  rfl

@[simp] theorem ok_bind {a : α} {f : α → Except ε β} : (.ok a : Except ε α) >>= f = f a := rfl

theorem mapM_cons_eq_ok_iff {f : α → Except ε β} {x : α} {xs : List α} {ys : List β} :
    (x :: xs).mapM f = .ok ys ↔ ∃ y rest, f x = .ok y ∧ xs.mapM f = .ok rest ∧ ys = y :: rest := by
  rw [List.mapM_cons]
  constructor
  · intro h
    obtain ⟨y, hy, h⟩ := bind_eq_ok_iff.mp h
    obtain ⟨rest, hrest, h⟩ := bind_eq_ok_iff.mp h
    exact ⟨y, rest, hy, hrest, (Except.ok.inj h).symm⟩
  · rintro ⟨y, rest, hy, hrest, rfl⟩
    rw [hy, hrest]
    rfl

theorem bind_eq_error_iff {x : Except ε α} {f : α → Except ε β} {e : ε} :
    x >>= f = .error e ↔ x = .error e ∨ ∃ a, x = .ok a ∧ f a = .error e := by
  rcases x with e' | a
  · simp
  · simp

theorem mapM_cons_eq_error_iff {f : α → Except ε β} {x : α} {xs : List α} {e : ε} :
    (x :: xs).mapM f = .error e ↔
      f x = .error e ∨ (∃ y, f x = .ok y) ∧ xs.mapM f = .error e := by
  rw [List.mapM_cons, bind_eq_error_iff]
  constructor
  · rintro (h | ⟨y, hy, h⟩)
    · exact .inl h
    · rcases bind_eq_error_iff.mp h with hrest | ⟨rest, -, h⟩
      · exact .inr ⟨⟨y, hy⟩, hrest⟩
      · contradiction
  · rintro (h | ⟨⟨y, hy⟩, hrest⟩)
    · exact .inl h
    · exact .inr ⟨y, hy, bind_eq_error_iff.mpr (.inl hrest)⟩

/-- The results of all members, member by member. -/
theorem mapM_eq_ok_iff {f : α → Except ε β} {xs : List α} {ys : List β} :
    xs.mapM f = .ok ys ↔ List.Forall₂ (fun x y => f x = .ok y) xs ys := by
  induction xs generalizing ys with
  | nil =>
    rw [List.mapM_nil, List.forall₂_nil_left_iff]
    constructor
    · intro h
      exact (Except.ok.inj h).symm
    · rintro rfl
      rfl
  | cons x xs ih =>
    rw [mapM_cons_eq_ok_iff, List.forall₂_cons_left_iff]
    constructor
    · rintro ⟨y, rest, hy, hrest, rfl⟩
      exact ⟨y, rest, hy, ih.mp hrest, rfl⟩
    · rintro ⟨y, rest, hy, hrest, rfl⟩
      exact ⟨y, rest, hy, ih.mpr hrest, rfl⟩

/-- So it is where a failure says nothing. -/
theorem mapM_eq_some_iff {f : α → Option β} {xs : List α} {ys : List β} :
    xs.mapM f = some ys ↔ List.Forall₂ (fun x y => f x = some y) xs ys := by
  induction xs generalizing ys with
  | nil => simp [eq_comm]
  | cons x xs ih =>
    rw [List.mapM_cons, List.forall₂_cons_left_iff]
    constructor
    · intro h
      obtain ⟨y, hy, h⟩ := Option.bind_eq_some_iff.mp h
      obtain ⟨rest, hrest, h⟩ := Option.bind_eq_some_iff.mp h
      exact ⟨y, rest, hy, ih.mp hrest, (Option.some.inj h).symm⟩
    · rintro ⟨y, rest, hy, hrest, rfl⟩
      rw [hy, ih.mpr hrest]
      rfl

/-- The first member without a result is what the whole list fails with. -/
theorem mapM_eq_error_iff {f : α → Except ε β} {xs : List α} {e : ε} :
    xs.mapM f = .error e ↔ ∃ before x after, xs = before ++ x :: after ∧
      (∀ x' ∈ before, ∃ y, f x' = .ok y) ∧ f x = .error e := by
  induction xs with
  | nil =>
    rw [List.mapM_nil]
    constructor
    · intro h
      contradiction
    · rintro ⟨before, x, after, h, -⟩
      simp at h
  | cons x xs ih =>
    rw [mapM_cons_eq_error_iff, ih]
    constructor
    · rintro (h | ⟨hx, before, x', after, rfl, hbefore, h⟩)
      · exact ⟨[], x, xs, rfl, by simp, h⟩
      · exact ⟨x :: before, x', after, rfl, List.forall_mem_cons.mpr ⟨hx, hbefore⟩, h⟩
    · rintro ⟨before, x', after, hsplit, hbefore, h⟩
      rcases List.cons_eq_append_iff.mp hsplit with ⟨rfl, hcons⟩ | ⟨rest, rfl, rfl⟩
      · obtain ⟨rfl, -⟩ := List.cons.inj hcons
        exact .inl h
      · obtain ⟨hx, hrest⟩ := List.forall_mem_cons.mp hbefore
        exact .inr ⟨hx, rest, x', after, rfl, hrest, h⟩

/-- A list has a counterpart exactly if each of its members has one. -/
theorem exists_forall₂_iff {R : α → β → Prop} {xs : List α} :
    (∃ ys, List.Forall₂ R xs ys) ↔ ∀ x ∈ xs, ∃ y, R x y := by
  induction xs with
  | nil => simp
  | cons x xs ih =>
    rw [List.forall_mem_cons, ← ih]
    constructor
    · rintro ⟨_, _ | ⟨hy, hrest⟩⟩
      exact ⟨⟨_, hy⟩, ⟨_, hrest⟩⟩
    · rintro ⟨⟨y, hy⟩, ⟨rest, hrest⟩⟩
      exact ⟨y :: rest, .cons hy hrest⟩

/-- Where all members of a list have a result, each of them has one. -/
theorem exists_ok_of_mapM {f : α → Except ε β} {xs : List α} {ys : List β} {x : α}
    (h : xs.mapM f = .ok ys) (hx : x ∈ xs) : ∃ y, f x = .ok y :=
  exists_forall₂_iff.mp ⟨ys, mapM_eq_ok_iff.mp h⟩ x hx

/-- One member without a result leaves the list without one. -/
theorem mapM_eq_none_of_mem {f : α → Option β} {xs : List α} {x : α} (hx : x ∈ xs)
    (h : ∀ y, f x ≠ some y) : xs.mapM f = none := by
  rw [Option.eq_none_iff_forall_ne_some]
  intro ys hys
  obtain ⟨y, hy⟩ := exists_forall₂_iff.mp ⟨ys, mapM_eq_some_iff.mp hys⟩ x hx
  exact h y hy

/-- Of all results the last one counts, so the first member gives it only if no other does. -/
theorem getLast?_filterMap_cons (f : α → Option β) (x : α) (xs : List α) :
    ((x :: xs).filterMap f).getLast? = (xs.filterMap f).getLast?.or (f x) := by
  rw [List.getLast?_filterMap, List.getLast?_filterMap, List.reverse_cons, List.findSome?_append,
    List.findSome?_singleton]

/-- Members that are read back one by one are read back as a list. -/
theorem mapM_map_of_inverse {m : Type → Type} [Monad m] [LawfulMonad m] {f : β → m α} {g : α → β}
    (h : ∀ x, f (g x) = pure x) (xs : List α) : (xs.map g).mapM f = pure xs := by
  have hid : f ∘ g = fun x => pure (id x) := funext h
  rw [List.mapM_map, hid, List.mapM_pure, List.map_id]

end CallData
