import Mathlib.Logic.Function.Basic

/-!
# Files with names and open files

A name leads to a file, and a file has a content. What is opened is the file:
it stays what it is when its name is given to another one. Creating a file
fails where the name is taken, renaming moves a name over another one in a
single step, and removing takes away a name.

A process that has created a file is the only one to know it as long as no
other name leads to it (`Owns`). What the others do with names of their own
leaves it alone (`Keeps`), and that is all that is needed of them.
-/

namespace PlatformGo.Files

structure Fs (N D : Type*) where
  names : N → Option Nat := fun _ => none
  data : Nat → List D := fun _ => []
  /-- The number of the next file. -/
  next : Nat := 0

variable {N D : Type*} [DecidableEq N]

namespace Fs

/-- `O_CREAT | O_EXCL`. -/
def create (fs : Fs N D) (name : N) : Option (Fs N D) :=
  match fs.names name with
  | some _ => none
  | none => some {
      names := Function.update fs.names name (some fs.next)
      data := Function.update fs.data fs.next []
      next := fs.next + 1 }

omit [DecidableEq N] in
def append (fs : Fs N D) (file : Nat) (chunk : List D) : Fs N D :=
  { fs with
    data := Function.update fs.data file (fs.data file ++ chunk) }

def move (fs : Fs N D) (old new : N) (file : Nat) : Fs N D :=
  { fs with
    names := fun name =>
      if name = new then some file
      else if name = old then none
      else fs.names name }

def rename (fs : Fs N D) (old new : N) : Option (Fs N D) :=
  (fs.names old).map (fs.move old new)

def remove (fs : Fs N D) (name : N) : Fs N D :=
  { fs with names := Function.update fs.names name none }

/-- Every file in use has a number that was given. -/
def Numbered (fs : Fs N D) : Prop :=
  ∀ name file, fs.names name = some file → file < fs.next

/-- The name leads to the file, and no other name does. -/
structure Owns (fs : Fs N D) (name : N) (file : Nat) : Prop where
  leads : fs.names name = some file
  only : ∀ name', fs.names name' = some file → name' = name

/-- The second state has the name and its file as the first one has. -/
structure Keeps (fs fs' : Fs N D) (name : N) (file : Nat) : Prop where
  leads : fs'.names name = fs.names name
  only : ∀ name', fs'.names name' = some file → fs.names name' = some file
  data : fs'.data file = fs.data file

variable {fs fs' : Fs N D} {name old new : N} {file : Nat}

omit [DecidableEq N] in
theorem Owns.keep (h : fs.Owns name file) (hkeeps : Keeps fs fs' name file) :
    fs'.Owns name file where
  leads := hkeeps.leads.trans h.leads
  only name' hname' := h.only name' (hkeeps.only name' hname')

omit [DecidableEq N] in
/-- Two names that are owned are those of two files. -/
theorem Owns.file_ne {name' : N} {file' : Nat} (h : fs.Owns name file)
    (h' : fs.Owns name' file') (hne : name ≠ name') : file ≠ file' := by
  rintro rfl
  exact hne (h'.only name h.leads)

/-! ## Creating -/

theorem create_eq_some (h : fs.create name = some fs') :
    fs.names name = none ∧ fs' = {
      names := Function.update fs.names name (some fs.next)
      data := Function.update fs.data fs.next []
      next := fs.next + 1 } := by
  unfold create at h
  split at h
  · cases h
  · next hfree =>
      rw [Option.some.injEq] at h
      exact ⟨hfree, h.symm⟩

theorem numbered_create (hn : fs.Numbered) (h : fs.create name = some fs') :
    fs'.Numbered := by
  obtain ⟨-, rfl⟩ := create_eq_some h
  intro name' file hname'
  by_cases heq : name' = name
  · subst heq
    simp only [Function.update_self, Option.some.injEq] at hname'
    show file < fs.next + 1
    omega
  · simp only [Function.update_of_ne heq] at hname'
    have hlt := hn name' file hname'
    show file < fs.next + 1
    omega

theorem owns_create (hn : fs.Numbered) (h : fs.create name = some fs') :
    fs'.Owns name fs.next ∧ fs'.data fs.next = [] := by
  obtain ⟨-, rfl⟩ := create_eq_some h
  refine ⟨⟨Function.update_self .., fun name' hname' => ?_⟩,
    Function.update_self ..⟩
  by_contra hne
  simp only [Function.update_of_ne hne] at hname'
  have hlt := hn name' _ hname'
  omega

theorem names_create_of_ne (h : fs.create name = some fs') {name' : N}
    (hne : name' ≠ name) : fs'.names name' = fs.names name' := by
  obtain ⟨-, rfl⟩ := create_eq_some h
  exact Function.update_of_ne hne ..

theorem data_create (h : fs.create name = some fs') (hlt : file < fs.next) :
    fs'.data file = fs.data file := by
  obtain ⟨-, rfl⟩ := create_eq_some h
  exact Function.update_of_ne (Nat.ne_of_lt hlt) ..

theorem keeps_create (hn : fs.Numbered) (h : fs.create new = some fs')
    (hown : fs.Owns name file) : Keeps fs fs' name file := by
  have hlt := hn name file hown.leads
  refine ⟨?_, fun name' hname' => ?_, data_create h hlt⟩
  · refine names_create_of_ne h ?_
    rintro rfl
    have hleads := hown.leads
    rw [(create_eq_some h).1] at hleads
    cases hleads
  · by_cases heq : name' = new
    · subst heq
      obtain ⟨-, rfl⟩ := create_eq_some h
      simp only [Function.update_self, Option.some.injEq] at hname'
      omega
    · rwa [names_create_of_ne h heq] at hname'

/-! ## Writing -/

omit [DecidableEq N] in
theorem data_append (file : Nat) (chunk : List D) :
    (fs.append file chunk).data file = fs.data file ++ chunk :=
  Function.update_self ..

omit [DecidableEq N] in
theorem data_append_of_ne {file' : Nat} (chunk : List D)
    (hne : file' ≠ file) :
    (fs.append file chunk).data file' = fs.data file' :=
  Function.update_of_ne hne ..

omit [DecidableEq N] in
theorem keeps_append {file' : Nat} (chunk : List D) (hne : file ≠ file') :
    Keeps fs (fs.append file' chunk) name file :=
  ⟨rfl, fun _ h => h, data_append_of_ne chunk hne⟩

omit [DecidableEq N] in
theorem Owns.append (h : fs.Owns name file) (chunk : List D) :
    (fs.append file chunk).Owns name file :=
  ⟨h.leads, h.only⟩

/-! ## Renaming and removing -/

theorem rename_of_owns (hown : fs.Owns old file) :
    fs.rename old new = some (fs.move old new file) := by
  rw [rename, hown.leads, Option.map_some]

theorem names_move_new (file : Nat) :
    (fs.move old new file).names new = some file :=
  if_pos rfl

theorem names_move_of_ne (hnew : name ≠ new) (hold : name ≠ old) :
    (fs.move old new file).names name = fs.names name := by
  show (if name = new then some file else if name = old then none
    else fs.names name) = fs.names name
  rw [if_neg hnew, if_neg hold]

/-- The name is given up. -/
theorem names_move_old (hne : old ≠ new) :
    (fs.move old new file).names old = none := by
  show (if old = new then some file else if old = old then none
    else fs.names old) = none
  rw [if_neg hne, if_pos rfl]

theorem numbered_move (hn : fs.Numbered) (hown : fs.Owns old file) :
    (fs.move old new file).Numbered := by
  intro name file' hname
  by_cases hnew : name = new
  · subst hnew
    rw [names_move_new, Option.some.injEq] at hname
    subst hname
    exact hn old file hown.leads
  · by_cases hold : name = old
    · subst hold
      rw [names_move_old hnew] at hname
      cases hname
    · rw [names_move_of_ne hnew hold] at hname
      exact hn name file' hname

theorem keeps_move {file' : Nat} (hown : fs.Owns name file)
    (hown' : fs.Owns old file') (hnew : name ≠ new) (hold : name ≠ old) :
    Keeps fs (fs.move old new file') name file := by
  refine ⟨names_move_of_ne hnew hold, fun name' hname' => ?_, rfl⟩
  by_cases hnew' : name' = new
  · subst hnew'
    rw [names_move_new, Option.some.injEq] at hname'
    exact absurd hname'.symm (hown.file_ne hown' hold)
  · by_cases hold' : name' = old
    · subst hold'
      rw [names_move_old hnew'] at hname'
      cases hname'
    · rwa [names_move_of_ne hnew' hold'] at hname'

theorem names_remove_of_ne (hne : name ≠ old) :
    (fs.remove old).names name = fs.names name :=
  Function.update_of_ne hne ..

theorem keeps_remove (hne : name ≠ old) :
    Keeps fs (fs.remove old) name file := by
  refine ⟨names_remove_of_ne hne, fun name' hname' => ?_, rfl⟩
  by_cases heq : name' = old
  · subst heq
    simp [remove] at hname'
  · rwa [names_remove_of_ne heq] at hname'

theorem numbered_remove (hn : fs.Numbered) (name : N) :
    (fs.remove name).Numbered := by
  intro name' file hname'
  by_cases heq : name' = name
  · subst heq
    simp [remove] at hname'
  · rw [names_remove_of_ne heq] at hname'
    exact hn name' file hname'

end Fs

end PlatformGo.Files
