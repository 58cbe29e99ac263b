import GrantCompiler.Naming.Reported

/-!
# Outcomes of steps taken one after another

A run is a chain of steps of which each may stop it, some of them taken once for each item of a
list.  The lemmas here take a successful run apart: `bind_eq_ok_iff` gives the intermediate result,
and `mapM_eq_ok_iff` says that a list of steps succeeds with the results of its steps, in order.
For a `Reported` chain the findings are of no account to the outcome (`Reported.outcome_bind`), so
the same two lemmas apply to it.

Where no step stops the run, `mapM_eq_ok` and `Reported.mapM_eq` put it together again, the findings
of all steps one after the other.  Where steps can stop it in one way only, `mapM_eq_error` says
that it stops in that way.
-/

set_option autoImplicit false

namespace GrantCompiler

variable {ε α β : Type}

/-! ## Steps that may fail -/

theorem bind_eq_ok_iff {x : Except ε α} {f : α → Except ε β} {b : β} :
    x >>= f = .ok b ↔ ∃ a, x = .ok a ∧ f a = .ok b := by
  cases x with
  | ok a =>
    refine ⟨?_, ?_⟩
    · intro h; exact ⟨a, rfl, h⟩
    · rintro ⟨a', ha, h⟩; cases ha; exact h
  | error e =>
    refine ⟨?_, ?_⟩
    · intro h; cases h
    · rintro ⟨a, ha, -⟩; cases ha

theorem map_eq_ok_iff {x : Except ε α} {f : α → β} {b : β} :
    x.map f = .ok b ↔ ∃ a, x = .ok a ∧ f a = b := by
  cases x with
  | ok a => simp [Except.map]
  | error e => simp [Except.map]

theorem mapM_eq_ok_iff {f : α → Except ε β} {l : List α} {ys : List β} :
    l.mapM f = .ok ys ↔ l.map f = ys.map .ok := by
  induction l generalizing ys with
  | nil => simp [pure, Except.pure, eq_comm]
  | cons x rest ih =>
    rw [List.mapM_cons, bind_eq_ok_iff, List.map_cons]
    refine ⟨?_, fun h => ?_⟩
    · rintro ⟨y, hy, h⟩
      obtain ⟨zs, hzs, h⟩ := bind_eq_ok_iff.1 h
      cases h
      rw [hy, ih.1 hzs, List.map_cons]
    · cases ys with
      | nil => simp at h
      | cons y zs =>
        obtain ⟨hy, hzs⟩ := List.cons.inj h
        exact ⟨y, hy, bind_eq_ok_iff.2 ⟨zs, ih.2 hzs, rfl⟩⟩

/-- The results are what the steps gave, and every step gave one. -/
theorem mem_of_mapM_eq_ok {f : α → Except ε β} {l : List α} {ys : List β} (h : l.mapM f = .ok ys)
    {y : β} : y ∈ ys ↔ ∃ x ∈ l, f x = .ok y := by
  have hmem : .ok y ∈ ys.map (@Except.ok ε β) ↔ .ok y ∈ l.map f := by rw [mapM_eq_ok_iff.1 h]
  simpa using hmem

theorem exists_of_mapM_eq_ok {f : α → Except ε β} {l : List α} {ys : List β}
    (h : l.mapM f = .ok ys) {x : α} (hx : x ∈ l) : ∃ y ∈ ys, f x = .ok y := by
  have hmem : f x ∈ ys.map Except.ok := by
    rw [← mapM_eq_ok_iff.1 h]
    exact List.mem_map_of_mem hx
  obtain ⟨y, hy, hfx⟩ := List.mem_map.1 hmem
  exact ⟨y, hy, hfx.symm⟩

theorem exists_mapM_eq_ok {f : α → Except ε β} {l : List α} (h : ∀ x ∈ l, ∃ y, f x = .ok y) :
    ∃ ys, l.mapM f = .ok ys := by
  induction l with
  | nil => exact ⟨[], rfl⟩
  | cons x rest ih =>
    obtain ⟨y, hy⟩ := h x List.mem_cons_self
    obtain ⟨ys, hys⟩ := ih fun x hx => h x (List.mem_cons_of_mem _ hx)
    rw [List.mapM_cons, hy]
    exact ⟨y :: ys, bind_eq_ok_iff.2 ⟨y, rfl, bind_eq_ok_iff.2 ⟨ys, hys, rfl⟩⟩⟩

/-- Steps that all succeed, with their results. -/
theorem mapM_eq_ok {f : α → Except ε β} {g : α → β} {l : List α} (h : ∀ x ∈ l, f x = .ok (g x)) :
    l.mapM f = .ok (l.map g) := by
  rw [mapM_eq_ok_iff, List.map_map]
  exact List.map_congr_left h

/-- Where all steps that fail do so alike, a list of steps fails like them as soon as one does. -/
theorem mapM_eq_error {f : α → Except ε β} {e : ε} {l : List α}
    (halike : ∀ x ∈ l, ∀ e', f x = .error e' → e' = e) (hfails : ∃ x ∈ l, ∃ e', f x = .error e') :
    l.mapM f = .error e := by
  induction l with
  | nil =>
    obtain ⟨x, hx, -⟩ := hfails
    cases hx
  | cons x rest ih =>
    rw [List.mapM_cons]
    cases hx : f x with
    | error e' =>
      rw [halike x List.mem_cons_self e' hx]
      rfl
    | ok y =>
      have hrest : ∃ x ∈ rest, ∃ e', f x = .error e' := by
        obtain ⟨x', hx', e', he'⟩ := hfails
        rcases List.mem_cons.1 hx' with rfl | hx'
        · rw [hx] at he'
          cases he'
        · exact ⟨x', hx', e', he'⟩
      have htail : rest.mapM f = .error e :=
        ih (fun x hx => halike x (List.mem_cons_of_mem _ hx)) hrest
      rw [htail]
      rfl

/-- A step that fails only for want of something has its one result where it succeeds. -/
theorem eq_of_ite_eq_ok {c : Prop} [Decidable c] {a b : α} {e : ε}
    (h : (if c then .ok a else .error e : Except ε α) = .ok b) : b = a := by
  split at h
  · exact (Except.ok.inj h).symm
  · cases h

/-- What holds of a result can be seen by a test, which no failure passes. -/
theorem exists_of_any_toOption {x : Except ε α} {p : α → Bool} (h : x.toOption.any p = true) :
    ∃ a, x = .ok a ∧ p a = true := by
  cases x with
  | ok a => exact ⟨a, rfl, h⟩
  | error e => cases h

/-! ## Steps that report -/

namespace Reported

@[simp] theorem outcome_pure (a : α) : (pure a : Reported α).outcome = .ok a := rfl

@[simp] theorem outcome_silently (x : Except MissingLocator α) : (silently x).outcome = x := rfl

theorem outcome_bind (x : Reported α) (f : α → Reported β) :
    (x >>= f).outcome = x.outcome >>= fun a => (f a).outcome := by
  obtain ⟨ds, o⟩ := x
  cases o with
  | ok a => rfl
  | error e => rfl

theorem ext {x y : Reported α} (hd : x.diagnostics = y.diagnostics) (ho : x.outcome = y.outcome) :
    x = y := by
  cases x; cases y; cases hd; cases ho; rfl

theorem bind_ok (ds : Diagnostics) (a : α) (f : α → Reported β) :
    (⟨ds, .ok a⟩ : Reported α) >>= f = ⟨ds ++ (f a).diagnostics, (f a).outcome⟩ := rfl

theorem diagnostics_bind {x : Reported α} {a : α} (h : x.outcome = .ok a) (f : α → Reported β) :
    (x >>= f).diagnostics = x.diagnostics ++ (f a).diagnostics := by
  obtain ⟨ds, o⟩ := x
  cases h
  rfl

/-- What follows a step matters for the result of that step only. -/
theorem bind_congr {x : Reported α} {f g : α → Reported β}
    (h : ∀ a, x.outcome = .ok a → f a = g a) : x >>= f = x >>= g := by
  obtain ⟨ds, o⟩ := x
  cases o with
  | error e => rfl
  | ok a => rw [bind_ok, bind_ok, h a rfl]

private theorem id_map (x : Reported α) : id <$> x = x := by
  obtain ⟨ds, o⟩ := x
  cases o with
  | ok a => exact ext (List.append_nil ds) rfl
  | error e => rfl

private theorem pure_bind (a : α) (f : α → Reported β) : pure a >>= f = f a :=
  ext (List.nil_append _) rfl

private theorem bind_assoc {γ : Type} (x : Reported α) (f : α → Reported β) (g : β → Reported γ) :
    x >>= f >>= g = x >>= fun a => f a >>= g := by
  obtain ⟨ds, o⟩ := x
  cases o with
  | error e => rfl
  | ok a =>
    rw [bind_ok, bind_ok]
    obtain ⟨es, o⟩ := f a
    cases o with
    | error e => rfl
    | ok b => exact ext (List.append_assoc ds es _) rfl

instance : LawfulMonad Reported := LawfulMonad.mk' Reported id_map pure_bind bind_assoc

theorem outcome_mapM (f : α → Reported β) (l : List α) :
    (l.mapM f).outcome = l.mapM fun a => (f a).outcome := by
  induction l with
  | nil => rfl
  | cons a rest ih =>
    rw [List.mapM_cons, List.mapM_cons, outcome_bind]
    simp only [outcome_bind, ih, outcome_pure]
    rfl

/-! ## Chains that do not stop -/

theorem forM_report (ds : Diagnostics) : ds.forM report = ⟨ds, .ok ()⟩ := by
  induction ds with
  | nil => rfl
  | cons d rest ih =>
    have hstep : (d :: rest).forM report = report d >>= fun _ => rest.forM report := rfl
    rw [hstep, ih]
    rfl

/-- The findings of a list of steps are those of its steps, in order. -/
theorem mapM_eq {f : α → Reported β} {ds : α → Diagnostics} {g : α → β} {l : List α}
    (h : ∀ x ∈ l, f x = ⟨ds x, .ok (g x)⟩) : l.mapM f = ⟨l.flatMap ds, .ok (l.map g)⟩ := by
  induction l with
  | nil => rfl
  | cons x rest ih =>
    have hrest := ih fun y hy => h y (List.mem_cons_of_mem _ hy)
    rw [List.mapM_cons, h x List.mem_cons_self, hrest, bind_ok, bind_ok, List.flatMap_cons]
    exact ext (congrArg (ds x ++ ·) (List.append_nil (rest.flatMap ds))) rfl

end Reported

end GrantCompiler
