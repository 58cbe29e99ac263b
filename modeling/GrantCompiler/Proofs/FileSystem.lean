import GrantCompiler.FileSystem
import GrantCompiler.Proofs.OrderedMap
import GrantCompiler.Proofs.Reported

/-!
# Writing a file

A file is written at the place that its path leads to.  Writing it touches nothing else, so all
other places hold what they held, and it does not get in the way of its own path: a path is followed
through folders, and no file is written where there is a folder.

* `FileSystem.Replaced` — what writing a text to a place makes of a file system, told by what is
  found at each place; `replaced_write` is the law.
* `FileSystem.readText_write` — what has been written under a path is read back under it.
-/

set_option autoImplicit false

namespace GrantCompiler
namespace FileSystem

variable {fs : FileSystem} {place other : Place} {path text : String}

/-! ## Places -/

theorem entryAt_insert (hplace : place ≠ []) (entry : Entry) :
    (fs.insert place entry).entryAt other =
      if other = place then some entry else fs.entryAt other := by
  cases other with
  | nil => rw [if_neg hplace.symm]; rfl
  | cons name rest => exact OrderedMap.get?_insert fs.entries place (name :: rest) entry

/-- One file has been given a text, and everything else is as it was. -/
structure Replaced (before after : FileSystem) (place : Place) (text : String) : Prop where
  content : after.entryAt place = some (.file text.toUTF8)
  others : ∀ other, other ≠ place → after.entryAt other = before.entryAt other
  home : after.home = before.home

theorem replaced_write (hplace : place ≠ []) : Replaced fs (fs.write place text) place text where
  content := by rw [write, entryAt_insert hplace, if_pos rfl]
  others other hother := by rw [write, entryAt_insert hplace, if_neg hother]
  home := rfl

/-! ## Paths -/

/-- A path that is written to leads to a place without a folder, and to no device. -/
theorem create_eq_file (h : fs.create path = .ok (.file place)) :
    ∃ names, segments path = .ok names ∧ fs.walk (fs.origin names) names = .ok place ∧
      (fs.entryAt place = none ∨ ∃ content, fs.entryAt place = some (.file content)) := by
  obtain ⟨names, hnames, h⟩ := bind_eq_ok_iff.1 h
  refine ⟨names, hnames, ?_⟩
  split at h
  next =>
    obtain ⟨_, -, h⟩ := bind_eq_ok_iff.1 h
    cases h
  next =>
    obtain ⟨target, htarget, h⟩ := bind_eq_ok_iff.1 h
    split at h
    next => cases h
    next => cases h
    next hentry => cases h; exact ⟨htarget, .inr ⟨_, hentry⟩⟩
    next hentry => cases h; exact ⟨htarget, .inl hentry⟩

theorem ne_nil_of_create (h : fs.create path = .ok (.file place)) : place ≠ [] := by
  obtain ⟨-, -, -, hentry⟩ := create_eq_file h
  rintro rfl
  rcases hentry with hentry | ⟨content, hentry⟩ <;> cases hentry

theorem entryAt_insert_of_folder (hplace : place ≠ []) (hfolder : fs.entryAt place ≠ some .folder)
    (entry : Entry) (h : fs.entryAt other = some .folder) :
    (fs.insert place entry).entryAt other = some .folder := by
  rw [entryAt_insert hplace, if_neg, h]
  rintro rfl
  exact hfolder h

/-- A path is followed through folders, of which what is replaced is none. -/
theorem walk_insert (hplace : place ≠ []) (hfolder : fs.entryAt place ≠ some .folder)
    (entry : Entry) {names : List String} {start target : Place}
    (h : fs.walk start names = .ok target) :
    (fs.insert place entry).walk start names = .ok target := by
  have hkept {other : Place} (h : fs.entryAt other = some .folder) :
      (fs.insert place entry).entryAt other = some .folder :=
    entryAt_insert_of_folder hplace hfolder entry h
  fun_induction fs.walk start names with
  | case1 => exact h
  | case2 | case3 | case4 | case7 => cases h
  | case5 start name rest hstart hstay ih =>
    rw [walk, hkept hstart]
    exact (if_pos hstay).trans (ih h)
  | case6 start rest hstart hstay ih =>
    rw [walk, hkept hstart]
    simp only
    rw [if_neg hstay]
    exact ih h
  | case8 start name rest hstart hstay hup hlong ih =>
    rw [walk, hkept hstart]
    simp only
    rw [if_neg hstay, if_neg hup, if_neg hlong]
    exact ih h

theorem fromUTF8?_toUTF8 (text : String) : String.fromUTF8? text.toUTF8 = some text := by
  have hvalid : text.toUTF8.IsValidUTF8 := text.isValidUTF8
  rw [String.fromUTF8?, dif_pos hvalid]
  rfl

theorem readText_eq_ok {names : List String} (hnames : segments path = .ok names)
    (hwalk : fs.walk (fs.origin names) names = .ok place)
    (hentry : fs.entryAt place = some (.file text.toUTF8)) : fs.readText path = .ok text := by
  have hbytes : fs.readBytes path = .ok text.toUTF8 := by
    rw [readBytes, hnames]
    refine bind_eq_ok_iff.2 ⟨names, rfl, bind_eq_ok_iff.2 ⟨place, hwalk, ?_⟩⟩
    rw [hentry]
    rfl
  rw [readText, hbytes]
  refine bind_eq_ok_iff.2 ⟨_, rfl, ?_⟩
  rw [fromUTF8?_toUTF8]
  rfl

/-- **What has been written under a path is read back under it.** -/
theorem readText_write (h : fs.create path = .ok (.file place)) (text : String) :
    (fs.write place text).readText path = .ok text := by
  obtain ⟨names, hnames, hwalk, hentry⟩ := create_eq_file h
  have hplace : place ≠ [] := ne_nil_of_create h
  have hfolder : fs.entryAt place ≠ some .folder := by
    rcases hentry with hentry | ⟨content, hentry⟩ <;> rw [hentry] <;> simp
  have horigin : (fs.write place text).origin names = fs.origin names := rfl
  refine readText_eq_ok hnames ?_ (replaced_write hplace).content
  rw [horigin]
  exact walk_insert hplace hfolder _ hwalk

end FileSystem
end GrantCompiler
