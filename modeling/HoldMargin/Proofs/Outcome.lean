import HoldMargin.Pass
import Mathlib.Data.List.Forall2
/-!
# What a pass comes to

The outcome of a pass is read apart from its events: `Pass.outcome_bind`
and its companions turn a statement about the outcome of a pass into one
about `Except`, and `bind_eq_ok` and `mapM_eq_ok` take such a statement
apart. Nothing that was registered or reported on the way enters there. A pass
that came to a result has left all its events (`Pass.exists_of_bind`).
-/

namespace HoldMargin

variable {ε α β : Type}

/-! ## Lists up to a bad member -/

section FirstBad

variable {good bad : α → Prop}

/-- A list with a bad member, before which all are good. -/
def FirstBad (good bad : α → Prop) (xs : List α) : Prop :=
  ∃ earlier x later, xs = earlier ++ x :: later ∧ (∀ y ∈ earlier, good y) ∧ bad x

theorem not_firstBad_nil : ¬ FirstBad good bad [] := by
  rintro ⟨earlier, x, later, h, -⟩
  cases earlier <;> cases h

theorem firstBad_cons {a : α} {as : List α} :
    FirstBad good bad (a :: as) ↔ bad a ∨ good a ∧ FirstBad good bad as := by
  constructor
  · rintro ⟨earlier, x, later, h, hgood, hbad⟩
    cases earlier with
    | nil =>
      cases h
      exact .inl hbad
    | cons b earlier =>
      cases h
      obtain ⟨hb, hgood⟩ := List.forall_mem_cons.mp hgood
      exact .inr ⟨hb, earlier, x, later, rfl, hgood, hbad⟩
  · rintro (hbad | ⟨ha, earlier, x, later, rfl, hgood, hbad⟩)
    · exact ⟨[], a, as, rfl, List.forall_mem_nil _, hbad⟩
    · exact ⟨a :: earlier, x, later, rfl, List.forall_mem_cons.mpr ⟨ha, hgood⟩, hbad⟩

theorem FirstBad.congr {good' bad' : α → Prop} {xs : List α} (hgood : ∀ x, good x ↔ good' x)
    (hbad : ∀ x, bad x ↔ bad' x) : FirstBad good bad xs ↔ FirstBad good' bad' xs := by
  simp only [FirstBad, hgood, hbad]

end FirstBad

/-! ## Computations that may fail -/

theorem bind_eq_ok {x : Except ε α} {f : α → Except ε β} {b : β} :
    (x >>= f) = .ok b ↔ ∃ a, x = .ok a ∧ f a = .ok b := by
  cases x <;> simp [bind, Except.bind]

theorem bind_eq_error {x : Except ε α} {f : α → Except ε β} {e : ε} :
    (x >>= f) = .error e ↔ x = .error e ∨ ∃ a, x = .ok a ∧ f a = .error e := by
  cases x <;> simp [bind, Except.bind]

/-- A value that is read off a result is read off one. -/
theorem map_eq_ok {x : Except ε α} {f : α → β} {b : β} :
    x.map f = .ok b ↔ ∃ a, x = .ok a ∧ f a = b := by
  cases x <;> simp [Except.map]

/-- What succeeds with its errors renamed succeeds without. -/
theorem mapError_eq_ok {ε' : Type} {f : ε → ε'} {x : Except ε α} {a : α}
    (h : x.mapError f = .ok a) : x = .ok a := by
  cases x with
  | ok b =>
    cases h
    rfl
  | error e => cases h

theorem mapError_eq_error {ε' : Type} {f : ε → ε'} {x : Except ε α} {e' : ε'} :
    x.mapError f = .error e' ↔ ∃ e, x = .error e ∧ f e = e' := by
  cases x <;> simp [Except.mapError]

/-- **A list is worked off exactly if each of its members is.** -/
theorem mapM_eq_ok {f : α → Except ε β} {xs : List α} {ys : List β} :
    xs.mapM f = .ok ys ↔ List.Forall₂ (fun x y => f x = .ok y) xs ys := by
  induction xs generalizing ys with
  | nil =>
    rw [List.mapM_nil]
    constructor
    · intro h
      cases h
      exact .nil
    · intro h
      cases h
      rfl
  | cons x xs ih =>
    rw [List.mapM_cons]
    constructor
    · intro h
      obtain ⟨y, hy, h⟩ := bind_eq_ok.mp h
      obtain ⟨zs, hzs, h⟩ := bind_eq_ok.mp h
      cases h
      exact .cons hy (ih.mp hzs)
    · intro h
      cases h with
      | cons hy hzs =>
        rw [hy]
        exact bind_eq_ok.mpr ⟨_, rfl, bind_eq_ok.mpr ⟨_, ih.mpr hzs, rfl⟩⟩

/-- **A fold whose steps do not depend on what came before them** comes to a result
exactly if each step does. -/
theorem exists_foldlM_iff {f : β → α → Except ε β} {P : α → Prop} {xs : List α} {b : β}
    (hf : ∀ x ∈ xs, ∀ b, (∃ b', f b x = .ok b') ↔ P x) :
    (∃ b', xs.foldlM f b = .ok b') ↔ ∀ x ∈ xs, P x := by
  induction xs generalizing b with
  | nil => exact ⟨fun _ _ hx => absurd hx List.not_mem_nil, fun _ => ⟨b, rfl⟩⟩
  | cons x xs ih =>
    obtain ⟨hx, hxs⟩ := List.forall_mem_cons.mp hf
    rw [List.forall_mem_cons, ← hx b, List.foldlM_cons]
    constructor
    · rintro ⟨b', h⟩
      obtain ⟨next, hnext, h⟩ := bind_eq_ok.mp h
      exact ⟨⟨next, hnext⟩, (ih hxs).mp ⟨b', h⟩⟩
    · rintro ⟨⟨next, hnext⟩, hrest⟩
      obtain ⟨b', h⟩ := (ih hxs).mpr hrest
      exact ⟨b', bind_eq_ok.mpr ⟨next, hnext, h⟩⟩

theorem exists_right_of_mem {R : α → β → Prop} {xs : List α} {ys : List β} {x : α}
    (h : List.Forall₂ R xs ys) (hx : x ∈ xs) : ∃ y ∈ ys, R x y := by
  induction h with
  | nil => cases hx
  | cons hy _ ih =>
    rcases List.mem_cons.mp hx with rfl | hx
    · exact ⟨_, List.mem_cons_self, hy⟩
    · obtain ⟨y, hmem, hy⟩ := ih hx
      exact ⟨y, List.mem_cons_of_mem _ hmem, hy⟩

theorem exists_left_of_mem {R : α → β → Prop} {xs : List α} {ys : List β} {y : β}
    (h : List.Forall₂ R xs ys) (hy : y ∈ ys) : ∃ x ∈ xs, R x y := by
  obtain ⟨x, hx, hxy⟩ := exists_right_of_mem h.flip hy
  exact ⟨x, hx, hxy⟩

theorem exists_result_of_mem {f : α → Except ε β} {xs : List α} {ys : List β} {x : α}
    (h : xs.mapM f = .ok ys) (hx : x ∈ xs) : ∃ y ∈ ys, f x = .ok y :=
  exists_right_of_mem (mapM_eq_ok.mp h) hx

theorem exists_source_of_mem {f : α → Except ε β} {xs : List α} {ys : List β} {y : β}
    (h : xs.mapM f = .ok ys) (hy : y ∈ ys) : ∃ x ∈ xs, f x = .ok y :=
  exists_left_of_mem (R := fun x y => f x = .ok y) (mapM_eq_ok.mp h) hy

/-- What each result has from its source, the results have from the sources. -/
theorem map_eq_of_mapM {γ : Type} {f : α → Except ε β} {xs : List α} {ys : List β} {g : β → γ}
    {k : α → γ} (h : xs.mapM f = .ok ys) (hg : ∀ x y, f x = .ok y → g y = k x) :
    ys.map g = xs.map k := by
  have hf := mapM_eq_ok.mp h
  clear h
  induction hf with
  | nil => rfl
  | cons hy _ ih => rw [List.map_cons, List.map_cons, ih, hg _ _ hy]

/-- **A list fails as its first member that fails.** -/
theorem mapM_eq_error_iff {f : α → Except ε β} {xs : List α} {e : ε} :
    xs.mapM f = .error e ↔ FirstBad (fun x => ∃ b, f x = .ok b) (f · = .error e) xs := by
  induction xs with
  | nil => exact iff_of_false (fun h => nomatch h) not_firstBad_nil
  | cons a as ih =>
    rw [List.mapM_cons, bind_eq_error, firstBad_cons, ← ih]
    refine or_congr Iff.rfl ⟨?_, ?_⟩
    · rintro ⟨b, hb, h⟩
      rcases bind_eq_error.mp h with h | ⟨bs, -, h⟩
      · exact ⟨⟨b, hb⟩, h⟩
      · cases h
    · rintro ⟨⟨b, hb⟩, h⟩
      exact ⟨b, hb, bind_eq_error.mpr (.inl h)⟩

/-- A list fails with the failure of one of its members. -/
theorem exists_of_mapM_eq_error {f : α → Except ε β} {xs : List α} {e : ε}
    (h : xs.mapM f = .error e) : ∃ x ∈ xs, f x = .error e := by
  obtain ⟨earlier, x, later, rfl, -, hx⟩ := mapM_eq_error_iff.mp h
  exact ⟨x, List.mem_append_right _ List.mem_cons_self, hx⟩

/-- A list is worked off if each of its members is. -/
theorem exists_mapM_eq_ok {f : α → Except ε β} {xs : List α}
    (h : ∀ x ∈ xs, ∃ y, f x = .ok y) : ∃ ys, xs.mapM f = .ok ys := by
  cases hm : xs.mapM f with
  | ok ys => exact ⟨ys, rfl⟩
  | error e =>
    obtain ⟨x, hx, he⟩ := exists_of_mapM_eq_error hm
    obtain ⟨y, hy⟩ := h x hx
    rw [he] at hy
    cases hy

/-- If every member that fails fails with `e`, and one does, so does the
list. -/
theorem mapM_eq_error {f : α → Except ε β} {xs : List α} {e : ε}
    (hall : ∀ x ∈ xs, ∀ e', f x = .error e' → e' = e) (h : ∃ x ∈ xs, f x = .error e) :
    xs.mapM f = .error e := by
  cases hm : xs.mapM f with
  | error e' =>
    obtain ⟨x, hx, he⟩ := exists_of_mapM_eq_error hm
    rw [hall x hx e' he]
  | ok ys =>
    obtain ⟨x, hx, he⟩ := h
    obtain ⟨y, -, hy⟩ := exists_result_of_mem hm hx
    rw [he] at hy
    cases hy

/-! ## Passes -/

namespace Pass

@[simp] theorem outcome_ofExcept (x : Except PassError α) : (ofExcept x).outcome = x := rfl

theorem ofExcept_ok_bind (a : α) (f : α → Pass β) : (ofExcept (.ok a) >>= f) = f a := rfl

/-- **The outcome of a pass and then another** is that of the two outcomes. -/
@[simp] theorem outcome_bind (x : Pass α) (f : α → Pass β) :
    (x >>= f).outcome = x.outcome >>= fun a => (f a).outcome := by
  obtain ⟨events, outcome⟩ := x
  cases outcome <;> rfl

@[simp] theorem outcome_mapM (f : α → Pass β) (xs : List α) :
    (xs.mapM f).outcome = xs.mapM fun x => (f x).outcome := by
  induction xs with
  | nil => rfl
  | cons x xs ih => simp only [List.mapM_cons, outcome_bind, ih]; rfl

/-- **A pass and then another that came to a result:** the first one did, and what
it left stands before what the second one left. -/
theorem exists_of_bind {x : Pass α} {f : α → Pass β} {b : β} (h : (x >>= f).outcome = .ok b) :
    ∃ a, x.outcome = .ok a ∧ (f a).outcome = .ok b ∧
      (x >>= f).events = x.events ++ (f a).events := by
  rw [outcome_bind] at h
  obtain ⟨a, ha, hb⟩ := bind_eq_ok.mp h
  refine ⟨a, ha, hb, ?_⟩
  show (Pass.bind x f).events = _
  rw [Pass.bind, ha]

/-- What may fail, and then a pass, leaves what the pass leaves. -/
theorem exists_of_ofExcept_bind {x : Except PassError α} {f : α → Pass β} {b : β}
    (h : (ofExcept x >>= f).outcome = .ok b) :
    ∃ a, x = .ok a ∧ (f a).outcome = .ok b ∧ (ofExcept x >>= f).events = (f a).events :=
  exists_of_bind h

/-- **A list of passes that came to their results** leaves what its members left,
one after the other. -/
theorem events_mapM {f : α → Pass β} {xs : List α} {ys : List β}
    (h : (xs.mapM f).outcome = .ok ys) :
    (xs.mapM f).events = xs.flatMap fun x => (f x).events := by
  induction xs generalizing ys with
  | nil => rfl
  | cons x xs ih =>
    rw [List.mapM_cons] at h ⊢
    obtain ⟨y, -, h, hx⟩ := exists_of_bind h
    obtain ⟨zs, hzs, -, hxs⟩ := exists_of_bind h
    rw [hx, hxs, ih hzs, List.flatMap_cons]
    exact congrArg _ (List.append_nil _)

end Pass

end HoldMargin
