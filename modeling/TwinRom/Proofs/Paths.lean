import Mathlib.Data.List.TakeWhile
import TwinRom.Path

/-!
# The parts of a path

A path with a last component is a directory, the component, and a tail that adds nothing to it
(`Path.IsParts`). These parts are what the path is taken apart into (`Path.fileName?_of_parts`,
`Path.directory_of_parts`), and every path that names a file has them (`Path.exists_parts`). A name
has an extension exactly if a dot stands in it with something before it
(`Path.nameExtension?_eq_some_iff`).

The binary image of a source goes to the directory and the name of the source followed by `.bin`,
wherever the dots of the name are (`Path.defaultOutput_of_parts`). There is one exception, a path
that ends in two dots and an extension: without its extension it names the directory above, and that
is where it leads (`Path.defaultOutput_of_dots`).
-/

namespace TwinRom.Path

/-! ## Parts -/

/-- The slashes and dots at the end of a path that add nothing to it. -/
inductive IsTail : Text → Prop where
  | nil : IsTail []
  | slash {t : Text} (h : IsTail t) : IsTail ('/' :: t)
  | dot {t : Text} (h : IsTail t) : IsTail ('/' :: '.' :: t)

theorem IsTail.append {s t : Text} (hs : IsTail s) (ht : IsTail t) : IsTail (s ++ t) := by
  induction hs with
  | nil => exact ht
  | slash _ ih => exact .slash ih
  | dot _ ih => exact .dot ih

/-- A tail that is cut short is a tail. -/
theorem IsTail.take {t : Text} (h : IsTail t) (n : Nat) : IsTail (t.take n) := by
  induction h generalizing n with
  | nil => simpa using IsTail.nil
  | slash _ ih =>
    rcases n with _ | n
    · exact .nil
    · exact .slash (ih n)
  | dot _ ih =>
    rcases n with _ | _ | n
    · exact .nil
    · exact .slash .nil
    · exact .dot (ih n)

/-- The text of a directory in front of a name: nothing, or it ends in a slash. -/
def IsDirectory (dir : Text) : Prop := dir = [] ∨ dir.getLast? = some '/'

/-- A directory, the last component of a path, and a tail. -/
structure IsParts (dir name tail : Text) : Prop where
  directory : IsDirectory dir
  name_ne_nil : name ≠ []
  name_ne_dot : name ≠ ['.']
  slash_not_mem_name : '/' ∉ name
  tail : IsTail tail

/-- The directory that a path leads to the last component of, as it is written. -/
def directory (path : Text) : Text := ((withoutTail path).reverse.dropWhile (· != '/')).reverse

variable {path dir name tail stem ext : Text}

/-- A tail is dropped whole. -/
theorem dropTail_of_isTail (h : IsTail tail) (rest : Text) :
    dropTail (tail.reverse ++ rest) = dropTail rest := by
  induction h generalizing rest with
  | nil => rfl
  | slash _ ih => rw [List.reverse_cons, List.append_assoc, ih, List.singleton_append, dropTail]
  | dot _ ih =>
    rw [List.reverse_cons, List.reverse_cons, List.append_assoc, List.append_assoc, ih,
      List.singleton_append, List.singleton_append, dropTail]

/-- What is dropped from the end of a path is a tail. -/
theorem exists_isTail (path : Text) : ∃ tail, IsTail tail ∧ path = withoutTail path ++ tail := by
  have hreverse : ∀ cs, ∃ tail, IsTail tail ∧ cs.reverse = (dropTail cs).reverse ++ tail := by
    intro cs
    fun_induction dropTail cs with
    | case1 cs ih =>
      obtain ⟨tail, htail, hcs⟩ := ih
      exact ⟨tail ++ ['/'], htail.append (.slash .nil), by rw [List.reverse_cons, hcs]; simp⟩
    | case2 cs ih =>
      obtain ⟨tail, htail, hcs⟩ := ih
      exact ⟨tail ++ ['/', '.'], htail.append (.dot .nil), by simp [hcs]⟩
    | case3 cs => exact ⟨[], .nil, (List.append_nil _).symm⟩
  obtain ⟨tail, htail, hpath⟩ := hreverse path.reverse
  exact ⟨tail, htail, by rwa [List.reverse_reverse] at hpath⟩

/-- Dropping the tail stops at the last component. -/
theorem withoutTail_of_parts (h : IsParts dir name tail) :
    withoutTail (dir ++ (name ++ tail)) = dir ++ name := by
  have hstop : dropTail (name.reverse ++ dir.reverse) = name.reverse ++ dir.reverse := by
    -- a slash or a dot behind a slash cannot be the end of the name
    have hslash : '/' ∉ name.reverse := by simpa using h.slash_not_mem_name
    have hdot : name.reverse ≠ ['.'] := fun hname =>
      h.name_ne_dot (by simpa using congrArg List.reverse hname)
    have hne : name.reverse ≠ [] := by simpa using h.name_ne_nil
    generalize name.reverse = cs at hslash hdot hne
    rcases cs with _ | ⟨c, _ | ⟨d, cs⟩⟩
    · exact absurd rfl hne
    · simp only [List.mem_singleton] at hslash
      simp only [ne_eq, List.cons.injEq, and_true] at hdot
      rw [List.singleton_append, dropTail]
      · exact fun _ hc => hslash (List.cons.inj hc).1.symm
      · exact fun _ hc => hdot (List.cons.inj hc).1
    · simp only [List.mem_cons, not_or] at hslash
      rw [List.cons_append, List.cons_append, dropTail]
      · exact fun _ hc => hslash.1 (List.cons.inj hc).1.symm
      · exact fun _ hc => hslash.2.1 (List.cons.inj (List.cons.inj hc).2).1.symm
  rw [withoutTail, List.reverse_append, List.reverse_append, List.append_assoc,
    dropTail_of_isTail h.tail, hstop, ← List.reverse_append, List.reverse_reverse]

theorem bne_of_mem_reverse {sep : Char} {t : Text} (h : sep ∉ t) :
    ∀ c ∈ t.reverse, (c != sep) = true := by
  intro c hc
  rw [bne_iff_ne]
  rintro rfl
  exact h (List.mem_reverse.mp hc)

/-- The slash before a name divides it from the directory. -/
theorem takeWhile_dropWhile_of_parts (h : IsParts dir name tail) :
    (dir ++ name).reverse.takeWhile (· != '/') = name.reverse ∧
      (dir ++ name).reverse.dropWhile (· != '/') = dir.reverse := by
  have hname := bne_of_mem_reverse h.slash_not_mem_name
  have hdir : dir.reverse.takeWhile (· != '/') = [] ∧
      dir.reverse.dropWhile (· != '/') = dir.reverse := by
    rcases h.directory with rfl | hlast
    · exact ⟨rfl, rfl⟩
    · obtain ⟨front, rfl⟩ := List.getLast?_eq_some_iff.mp hlast
      simp
  rw [List.reverse_append, List.takeWhile_append_of_pos hname, List.dropWhile_append_of_pos hname,
    hdir.1, hdir.2, List.append_nil]
  exact ⟨rfl, rfl⟩

/-- The directory of a path is what stands before its last component. -/
theorem directory_of_parts (h : IsParts dir name tail) :
    directory (dir ++ (name ++ tail)) = dir := by
  rw [directory, withoutTail_of_parts h, (takeWhile_dropWhile_of_parts h).2, List.reverse_reverse]

/-- The last component names a file, unless it is the directory above. -/
theorem fileName?_of_parts (h : IsParts dir name tail) :
    fileName? (dir ++ (name ++ tail)) = if name = ['.', '.'] then none else some name := by
  rw [fileName?, withoutTail_of_parts h]
  simp only [(takeWhile_dropWhile_of_parts h).1, List.reverse_reverse, h.name_ne_nil,
    h.name_ne_dot, false_or]

theorem directory_append (h : IsParts dir name []) : directory (dir ++ name) = dir := by
  simpa using directory_of_parts h

theorem fileName?_append (h : IsParts dir name []) :
    fileName? (dir ++ name) = if name = ['.', '.'] then none else some name := by
  simpa using fileName?_of_parts h

/-- A path that names a file has the name as its last component. -/
theorem exists_parts (h : fileName? path = some name) :
    ∃ dir tail, IsParts dir name tail ∧ name ≠ ['.', '.'] ∧ path = dir ++ (name ++ tail) := by
  obtain ⟨tail, htail, hpath⟩ := exists_isTail path
  rw [fileName?] at h
  simp only [Option.ite_none_left_eq_some, not_or, Option.some.injEq] at h
  obtain ⟨⟨hnil, hdot, hdots⟩, hname⟩ := h
  rw [hname] at hnil hdot hdots
  have hwhole : directory path ++ name = withoutTail path := by
    rw [directory, ← hname, ← List.reverse_append, List.takeWhile_append_dropWhile,
      List.reverse_reverse]
  refine ⟨directory path, tail, ⟨?_, hnil, hdot, ?_, htail⟩, hdots, ?_⟩
  · rcases hdir : (withoutTail path).reverse.dropWhile (· != '/') with _ | ⟨c, cs⟩
    · exact .inl (by rw [directory, hdir]; rfl)
    · have hc := List.head_dropWhile_not (· != '/') (hdir ▸ List.cons_ne_nil c cs)
      simp only [hdir, List.head_cons, bne_eq_false_iff_eq] at hc
      exact .inr (by rw [directory, hdir, hc]; simp)
  · intro hslash
    rw [← hname, List.mem_reverse] at hslash
    simpa using List.mem_takeWhile_imp hslash
  · rw [← List.append_assoc, hwhole]
    exact hpath

/-! ## Extensions -/

theorem nameExtension?_of_stem (hstem : stem ≠ []) (hext : '.' ∉ ext) :
    nameExtension? (stem ++ '.' :: ext) = some ext := by
  have hreverse : (stem ++ '.' :: ext).reverse = ext.reverse ++ '.' :: stem.reverse := by simp
  have hext' := bne_of_mem_reverse hext
  obtain ⟨c, cs, hcs⟩ := List.exists_cons_of_ne_nil (List.reverse_ne_nil_iff.mpr hstem)
  rw [nameExtension?, hreverse, List.takeWhile_append_of_pos hext',
    List.dropWhile_append_of_pos hext', hcs]
  simp

/-- The extension is what stands behind the last dot, unless that is the first character. -/
theorem nameExtension?_eq_some_iff :
    nameExtension? name = some ext ↔ ∃ stem, stem ≠ [] ∧ '.' ∉ ext ∧ name = stem ++ '.' :: ext := by
  constructor
  · intro h
    unfold nameExtension? at h
    split at h
    next c cs hdrop =>
      obtain rfl := Option.some.inj h
      refine ⟨(c :: cs).reverse, by simp, ?_, ?_⟩
      · intro hdot
        rw [List.mem_reverse] at hdot
        simpa using List.mem_takeWhile_imp hdot
      · have hname := List.takeWhile_append_dropWhile (p := (· != '.')) (l := name.reverse)
        rw [hdrop] at hname
        have hname' := congrArg List.reverse hname
        simpa using hname'.symm
    next => cases h
  · rintro ⟨stem, hstem, hext, rfl⟩
    exact nameExtension?_of_stem hstem hext

/-- A path has the extension of its last component. -/
theorem extension?_of_parts (h : IsParts dir name tail) (hname : name ≠ ['.', '.']) :
    extension? (dir ++ (name ++ tail)) = nameExtension? name := by
  rw [extension?, fileName?_of_parts h, if_neg hname, Option.bind_some]

theorem setExtension_eq (hfile : fileName? path = some name) (hext : ext ≠ []) :
    setExtension path ext = withoutExtension path ++ '.' :: ext := by
  rw [setExtension, hfile, if_neg (by simp), if_neg hext]

theorem withoutExtension_of_none (h : IsParts dir name tail) (hname : name ≠ ['.', '.'])
    (hnone : nameExtension? name = none) :
    withoutExtension (dir ++ (name ++ tail)) = dir ++ name := by
  simp only [withoutExtension, extension?_of_parts h hname, hnone, withoutTail_of_parts h]

/-- An extension is removed together with its dot, and so is the tail. -/
theorem withoutExtension_of_stem (h : IsParts dir (stem ++ '.' :: ext) tail)
    (hname : stem ++ '.' :: ext ≠ ['.', '.']) (hstem : stem ≠ []) (hext : '.' ∉ ext) :
    withoutExtension (dir ++ ((stem ++ '.' :: ext) ++ tail)) = dir ++ stem := by
  have hlen : (dir ++ (stem ++ '.' :: ext)).length - (ext.length + 1) = (dir ++ stem).length := by
    simp only [List.length_append, List.length_cons]
    omega
  simp only [withoutExtension, extension?_of_parts h hname, nameExtension?_of_stem hstem hext,
    withoutTail_of_parts h, hlen]
  rw [← List.append_assoc, List.take_left]

/-! ## Images beside their sources -/

/-- As many characters as the extension has, cut off a path. If there is a tail, that leaves the
extension or a part of it. -/
theorem take_of_parts (dir stem ext tail : Text) :
    let path := dir ++ ((stem ++ '.' :: ext) ++ tail)
    path.take (path.length - ext.length) = dir ++
      ((stem ++ '.' :: ext.take tail.length) ++ tail.take (tail.length - ext.length)) := by
  intro path
  have hpath : path = (dir ++ (stem ++ ['.'])) ++ (ext ++ tail) := by simp [path]
  have hlen : path.length - ext.length = (dir ++ (stem ++ ['.'])).length + tail.length := by
    simp only [hpath, List.length_append]
    omega
  rw [hlen, hpath, List.take_length_add_append, List.take_append]
  simp

/-- Cutting characters off the extension or the tail leaves the other parts as they are. -/
theorem IsParts.take (h : IsParts dir (stem ++ '.' :: ext) tail) (hstem : stem ≠ []) (m n : Nat) :
    IsParts dir (stem ++ '.' :: ext.take m) (tail.take n) := by
  refine ⟨h.directory, by simp, fun hdot => ?_, fun hslash => ?_, h.tail.take n⟩
  · have hlen := congrArg List.length hdot
    have hpos := List.length_pos_iff.mpr hstem
    simp only [List.length_append, List.length_cons, List.length_nil] at hlen
    omega
  · refine h.slash_not_mem_name ?_
    simp only [List.mem_append, List.mem_cons] at hslash ⊢
    exact hslash.imp_right (Or.imp_right List.mem_of_mem_take)

/-- The name of a source with an extension, if what is left after the cut still names a file. -/
theorem defaultOutput_of_stem (h : IsParts dir (stem ++ '.' :: ext) tail)
    (hname : stem ++ '.' :: ext ≠ ['.', '.']) (hstem : stem ≠ []) (hext : '.' ∉ ext)
    (hcut : stem ++ '.' :: ext.take tail.length ≠ ['.', '.']) :
    defaultOutput (dir ++ ((stem ++ '.' :: ext) ++ tail)) =
      dir ++ ((stem ++ '.' :: ext) ++ ".bin".toList) := by
  have hparts := h.take hstem tail.length (tail.length - ext.length)
  have hfile := (fileName?_of_parts hparts).trans (if_neg hcut)
  have hext' : '.' ∉ ext.take tail.length := fun hdot => hext (List.mem_of_mem_take hdot)
  simp only [defaultOutput, withExtension, extension?_of_parts h hname,
    nameExtension?_of_stem hstem hext, take_of_parts]
  rw [setExtension_eq hfile (by simp), withoutExtension_of_stem hparts hcut hstem hext']
  simp

/-- Only one name with a dot in it could be taken for the directory above. -/
theorem eq_of_append_eq_dots {rest : Text} (hstem : stem ≠ [])
    (h : stem ++ '.' :: rest = ['.', '.']) : stem = ['.'] ∧ rest = [] := by
  rcases stem with _ | ⟨c, _ | ⟨d, stem⟩⟩
  · exact absurd rfl hstem
  · simpa using h
  · simp at h

/-- A path that ends in a name of two dots and an extension. -/
def EndsInDots (path : Text) : Prop :=
  ∃ dir ext, IsDirectory dir ∧ ext ≠ [] ∧ '.' ∉ ext ∧ '/' ∉ ext ∧ path = dir ++ '.' :: '.' :: ext

theorem isParts_dots (hdir : IsDirectory dir) (hslash : '/' ∉ ext) :
    IsParts dir ('.' :: '.' :: ext) [] :=
  ⟨hdir, by simp, by simp, by simpa using hslash, .nil⟩

/-- The image of a source goes beside it, to the name of the source followed by `.bin`. -/
theorem defaultOutput_of_parts (h : IsParts dir name tail) (hname : name ≠ ['.', '.'])
    (hdots : ¬EndsInDots (dir ++ (name ++ tail))) :
    defaultOutput (dir ++ (name ++ tail)) = dir ++ (name ++ ".bin".toList) := by
  cases hext : nameExtension? name with
  | none =>
    have hfile := (fileName?_of_parts h).trans (if_neg hname)
    simp only [defaultOutput, withExtension, extension?_of_parts h hname, hext]
    rw [setExtension_eq hfile (by decide), withoutExtension_of_none h hname hext, List.append_assoc]
    rfl
  | some ext =>
    obtain ⟨stem, hstem, hdot, rfl⟩ := nameExtension?_eq_some_iff.mp hext
    refine defaultOutput_of_stem h hname hstem hdot fun hcut => hdots ?_
    -- two dots are left only if there is no tail to be cut in the place of the extension
    obtain ⟨rfl, htake⟩ := eq_of_append_eq_dots hstem hcut
    have hne : ext ≠ [] := fun hnil => hname (by rw [hnil]; rfl)
    have htail : tail = [] := by
      rcases List.take_eq_nil_iff.mp htake with hlen | hnil
      · exact List.length_eq_zero_iff.mp hlen
      · exact absurd hnil hne
    have hslash : '/' ∉ ext := fun hmem => h.slash_not_mem_name (by simp [hmem])
    exact ⟨dir, ext, h.directory, hne, hdot, hslash, by simp [htail]⟩

/-- The one exception. Without its extension the path leads to the directory above. -/
theorem defaultOutput_of_dots (hdir : IsDirectory dir) (hne : ext ≠ []) (hdot : '.' ∉ ext)
    (hslash : '/' ∉ ext) : defaultOutput (dir ++ '.' :: '.' :: ext) = dir ++ ['.', '.'] := by
  have hparts : IsParts dir (['.'] ++ '.' :: ext) [] := isParts_dots hdir hslash
  have hcut : fileName? (dir ++ ['.', '.']) = none :=
    (fileName?_append (isParts_dots hdir List.not_mem_nil)).trans (if_pos rfl)
  have hpath : dir ++ '.' :: '.' :: ext = dir ++ ((['.'] ++ '.' :: ext) ++ []) := by simp
  rw [hpath]
  simp only [defaultOutput, withExtension, extension?_of_parts hparts (by simpa using hne),
    nameExtension?_of_stem (List.cons_ne_nil _ _) hdot, take_of_parts]
  simp [setExtension, hcut]

end TwinRom.Path
