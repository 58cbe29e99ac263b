import GrantCompiler.Proofs.Reported

/-!
# Runs of steps on several channels

A step that may fail belongs to a channel.  If steps on different channels can be swapped, a run of
steps depends only on what it does on each channel, not on how the channels are interleaved.

* `Commutes` — where two steps on different channels succeed, they succeed the other way round too,
  and lead to the same state.
* `SameStreams` — two runs do the same on each channel, in the same order.
* `Commutes.foldlM_eq_ok` — then both lead to the same state.
-/

set_option autoImplicit false

namespace GrantCompiler

variable {ε σ ι χ : Type}

/-- Two steps on different channels may be taken in either order. -/
def Commutes (f : σ → ι → Except ε σ) (channel : ι → χ) : Prop :=
  ∀ {s s₁ s₂ : σ} {i j : ι}, channel i ≠ channel j → f s i = .ok s₁ → f s₁ j = .ok s₂ →
    ∃ t, f s j = .ok t ∧ f t i = .ok s₂

theorem foldlM_cons_eq_ok_iff {f : σ → ι → Except ε σ} {i : ι} {l : List ι} {s s' : σ} :
    (i :: l).foldlM f s = .ok s' ↔ ∃ t, f s i = .ok t ∧ l.foldlM f t = .ok s' := by
  rw [List.foldlM_cons, bind_eq_ok_iff]

/-- A run fails at the first step that fails, in the state that the steps before it have led to. -/
theorem foldlM_eq_error_iff {f : σ → ι → Except ε σ} {l : List ι} {s : σ} {e : ε} :
    l.foldlM f s = .error e ↔ ∃ before i after t,
      l = before ++ i :: after ∧ before.foldlM f s = .ok t ∧ f t i = .error e := by
  constructor
  · intro h
    induction l generalizing s with
    | nil => cases h
    | cons i rest ih =>
      rw [List.foldlM_cons] at h
      cases hi : f s i with
      | error e' =>
        rw [hi] at h
        cases h
        exact ⟨[], i, rest, s, rfl, rfl, hi⟩
      | ok s' =>
        rw [hi] at h
        obtain ⟨before, j, after, t, rfl, hbefore, hj⟩ := ih h
        exact ⟨i :: before, j, after, t, rfl, foldlM_cons_eq_ok_iff.2 ⟨s', hi, hbefore⟩, hj⟩
  · rintro ⟨before, i, after, t, rfl, hbefore, hi⟩
    rw [List.foldlM_append, hbefore]
    show (i :: after).foldlM f t = .error e
    rw [List.foldlM_cons, hi]
    rfl

/-- A step may be taken before others that are on no channel of its own. -/
theorem Commutes.foldlM_first {f : σ → ι → Except ε σ} {channel : ι → χ} (hf : Commutes f channel)
    {before after : List ι} {i : ι} {s s' : σ} (hother : ∀ j ∈ before, channel j ≠ channel i)
    (h : (before ++ i :: after).foldlM f s = .ok s') :
    (i :: (before ++ after)).foldlM f s = .ok s' := by
  induction before generalizing s with
  | nil => exact h
  | cons j before ih =>
    rw [List.forall_mem_cons] at hother
    obtain ⟨s₁, hj, h⟩ := foldlM_cons_eq_ok_iff.1 h
    obtain ⟨s₂, hi, hrest⟩ := foldlM_cons_eq_ok_iff.1 (ih hother.2 h)
    obtain ⟨t, hi, hj⟩ := hf hother.1 hj hi
    exact foldlM_cons_eq_ok_iff.2 ⟨t, hi, foldlM_cons_eq_ok_iff.2 ⟨s₂, hj, hrest⟩⟩

variable [DecidableEq χ] {channel : ι → χ}

/-- The same steps in the same order, channel by channel. -/
def SameStreams (channel : ι → χ) (l l' : List ι) : Prop :=
  ∀ c, l.filter (channel · = c) = l'.filter (channel · = c)

theorem sameStreams_nil {l : List ι} (h : SameStreams channel l []) : l = [] := by
  cases l with
  | nil => rfl
  | cons i rest => simpa using h (channel i)

/-- The first step of one run is the first on its channel in the other. -/
theorem SameStreams.exists_split {l rest : List ι} {i : ι}
    (h : SameStreams channel l (i :: rest)) : ∃ before after, l = before ++ i :: after ∧
      (∀ j ∈ before, channel j ≠ channel i) ∧ SameStreams channel (before ++ after) rest := by
  have hown := h (channel i)
  rw [List.filter_cons_of_pos (by simp), List.filter_eq_cons_iff] at hown
  obtain ⟨before, after, rfl, hbefore, -, hafter⟩ := hown
  have hother : ∀ j ∈ before, channel j ≠ channel i := by simpa using hbefore
  refine ⟨before, after, rfl, hother, fun c => ?_⟩
  by_cases hc : channel i = c
  · subst hc
    have hnone : before.filter (channel · = channel i) = [] :=
      List.filter_eq_nil_iff.2 (by simpa using hother)
    rw [List.filter_append, hnone, List.nil_append, hafter]
  · simpa [hc] using h c

/-- **Only the streams matter.**  A run that does the same on each channel leads to the same
state. -/
theorem Commutes.foldlM_eq_ok {f : σ → ι → Except ε σ} (hf : Commutes f channel) {l l' : List ι}
    (hl : SameStreams channel l l') {s s' : σ} (h : l.foldlM f s = .ok s') :
    l'.foldlM f s = .ok s' := by
  induction l' generalizing l s with
  | nil => rwa [sameStreams_nil hl] at h
  | cons i rest ih =>
    obtain ⟨before, after, rfl, hother, hrest⟩ := hl.exists_split
    obtain ⟨t, hi, h⟩ := foldlM_cons_eq_ok_iff.1 (hf.foldlM_first hother h)
    exact foldlM_cons_eq_ok_iff.2 ⟨t, hi, ih hrest h⟩

end GrantCompiler
