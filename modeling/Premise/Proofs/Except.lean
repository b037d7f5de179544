import Mathlib.Data.List.Forall2

/-!
Computations that may fail: what it takes for a sequence, and for a search through a list, to
succeed.
-/
namespace Premise

theorem bind_eq_error {α β ε : Type} {x : Except ε α} {f : α → Except ε β} {e : ε} :
    (x >>= f) = .error e ↔ x = .error e ∨ ∃ a, x = .ok a ∧ f a = .error e := by
  cases x with
  | error e => simp [bind, Except.bind]
  | ok a => simp [bind, Except.bind]

theorem bind_eq_ok {α β ε : Type} {x : Except ε α} {f : α → Except ε β} {b : β} :
    (x >>= f) = .ok b ↔ ∃ a, x = .ok a ∧ f a = .ok b := by
  cases x with
  | error e => simp [bind, Except.bind]
  | ok a => simp [bind, Except.bind]

theorem toOption_eq_some {α ε : Type} {x : Except ε α} {a : α} :
    x.toOption = some a ↔ x = .ok a := by
  cases x <;> simp [Except.toOption]

theorem map_eq_error {α β ε : Type} {x : Except ε α} {f : α → β} {e : ε} :
    x.map f = .error e ↔ x = .error e := by
  cases x <;> simp [Except.map]

/-! ### Looking for the first that passes -/

section
variable {α ε : Type} {p : α → Except ε Bool} {l : List α}

theorem anyM_append (l l' : List α) :
    (l ++ l').anyM p = l.anyM p >>= fun found => if found then .ok true else l'.anyM p := by
  induction l with
  | nil => rfl
  | cons x l ih =>
    rw [List.cons_append, List.anyM_cons, List.anyM_cons, ih]
    cases p x with
    | error e => rfl
    | ok b => cases b <;> rfl

theorem anyM_eq_false : l.anyM p = .ok false ↔ ∀ x ∈ l, p x = .ok false := by
  induction l with
  | nil => simp [pure, Except.pure]
  | cons x l ih =>
    rw [List.anyM_cons, List.forall_mem_cons]
    cases p x with
    | error e => simp [bind, Except.bind]
    | ok b => cases b <;> simp [bind, Except.bind, pure, Except.pure, ih]

theorem exists_of_anyM (h : l.anyM p = .ok true) : ∃ x ∈ l, p x = .ok true := by
  induction l with
  | nil => simp [pure, Except.pure] at h
  | cons x l ih =>
    rw [List.anyM_cons] at h
    cases first : p x with
    | error e => simp [first, bind, Except.bind] at h
    | ok b =>
      cases b with
      | true => exact ⟨x, by simp, first⟩
      | false =>
        obtain ⟨y, member, passes⟩ := ih (by simpa [first, bind, Except.bind] using h)
        exact ⟨y, by simp [member], passes⟩

theorem exists_of_anyM_error {e : ε} (h : l.anyM p = .error e) : ∃ x ∈ l, p x = .error e := by
  induction l with
  | nil => cases h
  | cons x l ih =>
    rw [List.anyM_cons] at h
    rcases bind_eq_error.mp h with first | ⟨b, -, h⟩
    · exact ⟨x, by simp, first⟩
    · cases b with
      | true => cases h
      | false =>
        obtain ⟨y, member, fails⟩ := ih h
        exact ⟨y, List.mem_cons_of_mem x member, fails⟩

theorem anyM_total (h : ∀ x ∈ l, ∃ b, p x = .ok b) : ∃ b, l.anyM p = .ok b := by
  induction l with
  | nil => exact ⟨false, rfl⟩
  | cons x l ih =>
    obtain ⟨first, rest⟩ := List.forall_mem_cons.mp h
    obtain ⟨b, passes⟩ := first
    rw [List.anyM_cons, passes]
    cases b with
    | true => exact ⟨true, rfl⟩
    | false => exact ih rest

/-- What passes is reached where nothing before it fails. -/
theorem anyM_eq_true {early late : List α} {x : α} (decided : ∀ y ∈ early, ∃ b, p y = .ok b)
    (passes : p x = .ok true) : (early ++ x :: late).anyM p = .ok true := by
  induction early with
  | nil =>
    rw [List.nil_append, List.anyM_cons, passes]
    rfl
  | cons y early ih =>
    obtain ⟨first, rest⟩ := List.forall_mem_cons.mp decided
    obtain ⟨b, looked⟩ := first
    rw [List.cons_append, List.anyM_cons, looked]
    cases b with
    | true => rfl
    | false => exact ih rest

end

/-! ### Taking each in turn -/

theorem mapM_congr {m : Type → Type} [Monad m] [LawfulMonad m] {α β : Type} {f g : α → m β}
    {l : List α} (same : ∀ x ∈ l, f x = g x) : l.mapM f = l.mapM g := by
  induction l with
  | nil => rfl
  | cons x l ih =>
    obtain ⟨first, later⟩ := List.forall_mem_cons.mp same
    rw [List.mapM_cons, List.mapM_cons, first, ih later]

/-- All of a list is passed through where each item is. -/
theorem mapM_ok_iff {α β ε : Type} {f : α → Except ε β} {l : List α} {ys : List β} :
    l.mapM f = .ok ys ↔ List.Forall₂ (fun x y => f x = .ok y) l ys := by
  induction l generalizing ys with
  | nil => simp [pure, Except.pure, eq_comm]
  | cons x l ih =>
    rw [List.mapM_cons, bind_eq_ok, List.forall₂_cons_left_iff]
    simp only [bind_eq_ok, ih, pure, Except.pure, Except.ok.injEq]
    constructor
    · rintro ⟨y, first, zs, later, rfl⟩
      exact ⟨y, zs, first, later, rfl⟩
    · rintro ⟨y, zs, first, later, rfl⟩
      exact ⟨y, first, zs, later, rfl⟩

theorem forall₂_related {α β : Type} {R : α → β → Prop} {l : List α} {l' : List β}
    (each : List.Forall₂ R l l') : ∀ x ∈ l, ∃ y ∈ l', R x y := by
  induction each with
  | nil => simp
  | cons first _ ih =>
    intro w member
    rcases List.mem_cons.mp member with rfl | member
    · exact ⟨_, List.mem_cons_self, first⟩
    · obtain ⟨z, inside, related⟩ := ih w member
      exact ⟨z, List.mem_cons_of_mem _ inside, related⟩

theorem mapM_ok_mem {α β ε : Type} {f : α → Except ε β} {l : List α} {ys : List β}
    (h : l.mapM f = .ok ys) : ∀ x ∈ l, ∃ y ∈ ys, f x = .ok y :=
  forall₂_related (mapM_ok_iff.mp h)

theorem mem_of_mapM {α β ε : Type} {f : α → Except ε β} {l : List α} {ys : List β}
    (h : l.mapM f = .ok ys) : ∀ y ∈ ys, ∃ x ∈ l, f x = .ok y :=
  forall₂_related (mapM_ok_iff.mp h).flip

theorem exists_of_mapM_error {α β ε : Type} {f : α → Except ε β} {l : List α} {e : ε}
    (h : l.mapM f = .error e) : ∃ x ∈ l, f x = .error e := by
  induction l with
  | nil => cases h
  | cons x l ih =>
    rw [List.mapM_cons] at h
    rcases bind_eq_error.mp h with first | ⟨y, -, h⟩
    · exact ⟨x, by simp, first⟩
    · rcases bind_eq_error.mp h with later | ⟨zs, -, h⟩
      · obtain ⟨w, inside, fails⟩ := ih later
        exact ⟨w, List.mem_cons_of_mem x inside, fails⟩
      · cases h

theorem mapM_length {α β ε : Type} {f : α → Except ε β} {l : List α} {ys : List β}
    (h : l.mapM f = .ok ys) : ys.length = l.length :=
  (mapM_ok_iff.mp h).length_eq.symm

theorem mapM_total {α β ε : Type} {f : α → Except ε β} {l : List α}
    (h : ∀ x ∈ l, ∃ y, f x = .ok y) : ∃ ys, l.mapM f = .ok ys := by
  induction l with
  | nil => exact ⟨[], rfl⟩
  | cons x l ih =>
    obtain ⟨first, rest⟩ := List.forall_mem_cons.mp h
    obtain ⟨y, passes⟩ := first
    obtain ⟨ys, later⟩ := ih rest
    refine ⟨y :: ys, ?_⟩
    rw [List.mapM_cons, passes, later]
    rfl

/-! ### Keeping those that pass -/

theorem filterM_eq_ok {α ε : Type} {p : α → Except ε Bool} {l xs : List α} :
    l.filterM p = .ok xs ↔ (∀ x ∈ l, ∃ b, p x = .ok b) ∧
      xs = l.filter fun x => (p x).toOption.getD false := by
  -- The list is passed through with the kept elements gathered in reverse.
  have gathered (l ys zs : List α) : l.filterAuxM p ys = .ok zs ↔ (∀ x ∈ l, ∃ b, p x = .ok b) ∧
      zs = (l.filter fun x => (p x).toOption.getD false).reverse ++ ys := by
    induction l generalizing ys with
    | nil => simp [List.filterAuxM, pure, Except.pure, eq_comm]
    | cons x l ih =>
      rw [List.filterAuxM, bind_eq_ok, List.forall_mem_cons]
      cases looked : p x with
      | error e => simp
      | ok b => cases b <;> simp [looked, ih, Except.toOption]
  unfold List.filterM
  simp only [bind_eq_ok, pure, Except.pure, Except.ok.injEq, gathered]
  constructor
  · rintro ⟨zs, ⟨decided, rfl⟩, rfl⟩
    exact ⟨decided, by simp⟩
  · rintro ⟨decided, rfl⟩
    exact ⟨_, ⟨decided, rfl⟩, by simp⟩

theorem exists_of_filterM_error {α ε : Type} {p : α → Except ε Bool} {l : List α} {e : ε}
    (h : l.filterM p = .error e) : ∃ x ∈ l, p x = .error e := by
  have gathering (l ys : List α) (h : l.filterAuxM p ys = .error e) :
      ∃ x ∈ l, p x = .error e := by
    induction l generalizing ys with
    | nil => cases h
    | cons x l ih =>
      rcases bind_eq_error.mp h with first | ⟨b, -, h⟩
      · exact ⟨x, by simp, first⟩
      · obtain ⟨y, member, fails⟩ := ih _ h
        exact ⟨y, List.mem_cons_of_mem x member, fails⟩
  rcases bind_eq_error.mp h with failed | ⟨ys, -, h⟩
  · exact gathering l [] failed
  · cases h

/-! ### Failing in another way -/

theorem mapError_eq_ok {α ε δ : Type} {w : ε → δ} {x : Except ε α} {a : α} :
    x.mapError w = .ok a ↔ x = .ok a := by
  cases x <;> simp [Except.mapError]

theorem mapError_eq_error {α ε δ : Type} {w : ε → δ} {x : Except ε α} {d : δ} :
    x.mapError w = .error d ↔ ∃ e, x = .error e ∧ d = w e := by
  cases x <;> simp [Except.mapError, eq_comm]

theorem mapM_mapError {α β ε δ : Type} (w : ε → δ) (f : α → Except ε β) (l : List α) :
    (l.mapM fun x => (f x).mapError w) = (l.mapM f).mapError w := by
  induction l with
  | nil => rfl
  | cons x l ih =>
    rw [List.mapM_cons, List.mapM_cons, ih]
    cases f x with
    | error e => rfl
    | ok y => cases l.mapM f <;> rfl

end Premise
