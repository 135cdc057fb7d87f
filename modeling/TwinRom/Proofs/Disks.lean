import TwinRom.Cli.Disk
import TwinRom.Proofs.Outcome

/-!
# Facts about disks

Writing a file changes what is at one place and nothing else, directories included
(`Disk.node?_put_of_ne`). For that the directories above the file have to be there, which they are
if a path leads to it: a walk only enters places below directories (`Disk.Grounded`).

What was written is then read back at the same path (`Disk.read_write`), since the walk meets
directories only and none of them has changed.
-/

namespace TwinRom.Disk

variable {disk after : Disk} {path : Text} {place other : Place} {content : List UInt8}

/-! ## Entries -/

/-- Removing one place from the list hides no other. -/
theorem lookup_filter_ne {entries : List (Place × Node)} (h : other ≠ place) :
    (entries.filter fun e => e.1 != place).lookup other = entries.lookup other := by
  induction entries with
  | nil => rfl
  | cons e entries ih =>
    obtain ⟨key, node⟩ := e
    by_cases hkey : key = place
    · have hne : (other == key) = false := by simpa [hkey] using h
      rw [List.filter_cons_of_neg (by simp [hkey]), List.lookup_cons, hne, ih]
    · rw [List.filter_cons_of_pos (by simp [hkey]), List.lookup_cons, List.lookup_cons, ih]

theorem lookup_put_self (disk : Disk) (place : Place) (content : List UInt8) :
    (disk.put place content).entries.lookup place = some (.file content) := by
  have hnone : (disk.entries.filter fun e => e.1 != place).lookup place = none := by
    rw [List.lookup_eq_none_iff]
    intro e he
    have hne : e.1 ≠ place := by simpa using (List.mem_filter.mp he).2
    exact bne_iff_ne.mpr hne.symm
  rw [put, List.lookup_append, hnone]
  simp

/-- The entries of other places are not touched. -/
theorem lookup_put_of_ne (h : other ≠ place) :
    (disk.put place content).entries.lookup other = disk.entries.lookup other := by
  have hne : (other == place) = false := by simpa using h
  rw [put, List.lookup_append, lookup_filter_ne h]
  simp [List.lookup_cons, hne]

/-! ## Other places -/

/-- Whether a place has to be there, listed or not: something listed lies below it, or the working
directory does. -/
def IsImplied (disk : Disk) (place : Place) : Prop :=
  Place.isAbove place = true ∨ ∃ e ∈ disk.entries, place <+: e.1

instance (disk : Disk) (place : Place) : Decidable (disk.IsImplied place) :=
  inferInstanceAs (Decidable (_ ∨ _))

/-- What is at a place: the entry for it, or else a directory if there has to be one. -/
theorem node?_eq (disk : Disk) (place : Place) : disk.node? place =
    (disk.entries.lookup place).or (if disk.IsImplied place then some .directory else none) := by
  have hiff : (Place.isAbove place || disk.entries.any fun e => place.isPrefixOf e.1) = true ↔
      disk.IsImplied place := by
    simp [IsImplied]
  unfold node?
  cases disk.entries.lookup place with
  | some node => rfl
  | none => simp only [hiff, Option.none_or]

theorem node?_put_self (disk : Disk) (place : Place) (content : List UInt8) :
    (disk.put place content).node? place = some (.file content) := by
  rw [node?_eq, lookup_put_self]
  rfl

/-- Every place on the way to `place` is there. -/
def Grounded (disk : Disk) (place : Place) : Prop :=
  ∀ above, above <+: place → above ≠ place → (disk.node? above).isSome = true

/-- A new file implies no directory that was not there, as its place could be reached before. -/
theorem isImplied_put_iff (hplace : disk.Grounded place) (hne : other ≠ place)
    (hnone : disk.entries.lookup other = none) :
    (disk.put place content).IsImplied other ↔ disk.IsImplied other := by
  constructor
  · rintro (habove | ⟨e, he, hbelow⟩)
    · exact .inl habove
    · rcases List.mem_append.mp he with he | he
      · exact .inr ⟨e, (List.mem_filter.mp he).1, hbelow⟩
      · obtain rfl := List.mem_singleton.mp he
        have hsome := hplace other hbelow hne
        rw [node?_eq, hnone] at hsome
        simpa using hsome
  · rintro (habove | ⟨e, he, hbelow⟩)
    · exact .inl habove
    · by_cases hkey : e.1 = place
      · exact .inr ⟨(place, .file content), by simp [put], hkey ▸ hbelow⟩
      · have hkeep : e ∈ disk.entries.filter fun e => e.1 != place :=
          List.mem_filter.mpr ⟨he, bne_iff_ne.mpr hkey⟩
        exact .inr ⟨e, List.mem_append_left _ hkeep, hbelow⟩

/-- Writing a file changes nothing at any other place. -/
theorem node?_put_of_ne (hplace : disk.Grounded place) (hne : other ≠ place) :
    (disk.put place content).node? other = disk.node? other := by
  rw [node?_eq, node?_eq, lookup_put_of_ne hne]
  cases hnone : disk.entries.lookup other with
  | some node => rfl
  | none => simp only [isImplied_put_iff hplace hne hnone]

/-! ## Walks -/

/-- What is above a place that is above the working directory is above it too. -/
theorem isAbove_mono (h : Place.isAbove place = true) (hother : other <+: place) :
    Place.isAbove other = true := by
  rw [Place.isAbove, Bool.or_eq_true, beq_iff_eq, List.all_eq_true] at h ⊢
  rcases h with rfl | h
  · rcases List.prefix_cons_iff.mp hother with rfl | ⟨rest, rfl, hrest⟩
    · exact .inr (by simp)
    · exact .inl (by rw [List.prefix_nil.mp hrest]; rfl)
  · exact .inr fun name hname => h name (hother.subset hname)

theorem Grounded.of_isAbove (h : Place.isAbove place = true) : disk.Grounded place := by
  intro above habove _
  rw [node?_eq, if_pos (.inl (isAbove_mono h habove))]
  cases disk.entries.lookup above <;> rfl

/-- A walk starts at the root or in the working directory, and both can be reached. -/
theorem Grounded.start (disk : Disk) (path : Text) : disk.Grounded (start path) := by
  refine .of_isAbove ?_
  unfold Disk.start
  split <;> rfl

/-- One step up keeps to places that can be reached. -/
theorem Grounded.parent (h : disk.Grounded place) : disk.Grounded (Place.parent place) := by
  unfold Place.parent
  split
  next => exact h
  next hroot =>
    split
    next habove =>
      refine .of_isAbove ?_
      rw [Place.isAbove, Bool.or_eq_true, beq_iff_eq, or_iff_right hroot] at habove
      simp [Place.isAbove, habove]
    next =>
      intro above habove hne
      have hdrop : place.dropLast <+: place := List.dropLast_prefix place
      refine h above (habove.trans hdrop) ?_
      rintro rfl
      have hlen := habove.length_le
      rw [List.length_dropLast] at hlen
      obtain rfl : above = [] := List.eq_nil_of_length_eq_zero (by omega)
      exact hne rfl

/-- One step down from a directory does too. -/
theorem Grounded.below (h : disk.Grounded place) (hdir : disk.node? place = some .directory)
    (name : Text) : disk.Grounded (place ++ [name]) := by
  intro above habove hne
  have habove' : above <+: place := (List.prefix_concat_iff.mp habove).resolve_left hne
  by_cases heq : above = place
  · rw [heq, hdir]
    rfl
  · exact h above habove' heq

/-- A walk only gets to places whose way is there. -/
theorem Grounded.walk {names : List Text} {start : Place} (h : disk.Grounded start)
    (hwalk : disk.walk start names = .ok place) : disk.Grounded place := by
  fun_induction Disk.walk disk start names with
  | case1 start =>
    obtain rfl := Except.ok.inj hwalk
    exact h
  | case2 start names hdir ih => exact ih h hwalk
  | case3 start names hdir hdot ih => exact ih h.parent hwalk
  | case4 => cases hwalk
  | case5 start name names hdir hdot hdots hlen ih => exact ih (h.below hdir name) hwalk
  | case6 => cases hwalk
  | case7 => cases hwalk

/-- A walk meets directories only, so it goes the same way if what is no directory is replaced. -/
theorem walk_put {names : List Text} {start : Place} (hplace : disk.Grounded place)
    (hnode : disk.node? place ≠ some .directory) (hwalk : disk.walk start names = .ok place)
    (content : List UInt8) : (disk.put place content).walk start names = .ok place := by
  have hsame : ∀ other, disk.node? other = some .directory →
      (disk.put place content).node? other = some .directory := by
    intro other hother
    rw [node?_put_of_ne hplace, hother]
    rintro rfl
    exact hnode hother
  fun_induction Disk.walk disk start names with
  | case1 start => exact hwalk
  | case2 start names hdir ih => rw [Disk.walk, hsame _ hdir]; exact ih hwalk
  | case3 start names hdir hdot ih => rw [Disk.walk, hsame _ hdir]; exact ih hwalk
  | case4 => cases hwalk
  | case5 start name names hdir hdot hdots hlen ih =>
    simp only [Disk.walk, hsame _ hdir, if_neg hdot, if_neg hdots, if_neg hlen]
    exact ih hwalk
  | case6 => cases hwalk
  | case7 => cases hwalk

/-- A place is located by walking down the names of its path, which has a limit in bytes. -/
theorem locate_eq_ok (h : disk.locate path = .ok place) :
    byteLength path < 4096 ∧ disk.walk (Disk.start path) (names path) = .ok place := by
  unfold locate follow at h
  split at h
  next => cases h
  next hlt => exact ⟨Nat.lt_of_not_le hlt, h⟩

/-! ## Reading and writing -/

/-- A path at which a file can be created or replaced. -/
def Writable (disk : Disk) (path : Text) : Prop :=
  ∃ place, disk.target path = .ok place ∧ disk.node? place ≠ some .directory

/-- A file can be written only where it can be located. -/
theorem locate_of_target (h : disk.target path = .ok place) : disk.locate path = .ok place := by
  unfold target at h
  split at h
  next => split at h <;> cases h
  next => exact h

theorem Grounded.target (h : disk.target path = .ok place) : disk.Grounded place :=
  (Grounded.start disk path).walk (locate_eq_ok (locate_of_target h)).2

/-- Writing succeeds exactly if the path leads to a place without a directory. -/
theorem write_eq_ok_iff : disk.write path content = .ok after ↔ ∃ place,
    disk.target path = .ok place ∧ disk.node? place ≠ some .directory ∧
      disk.put place content = after := by
  rw [write, bind_eq_ok_iff]
  refine exists_congr fun place => and_congr_right fun _ => ?_
  split
  next hdir => simp [hdir]
  next hother =>
    have hne : disk.node? place ≠ some .directory := hother
    simp [hne]

/-- Reading succeeds exactly if the path leads to a file. -/
theorem read_eq_ok_iff : disk.read path = .ok content ↔ ∃ place,
    disk.locate path = .ok place ∧ disk.node? place = some (.file content) := by
  rw [read, bind_eq_ok_iff]
  refine exists_congr fun place => and_congr_right fun _ => ?_
  split
  next hfile => simp [hfile]
  next hdir => simp [hdir]
  next hnone => simp [hnone]

/-- What is written to a path is read at that path. -/
theorem read_write (h : disk.write path content = .ok after) : after.read path = .ok content := by
  obtain ⟨place, htarget, hnode, rfl⟩ := write_eq_ok_iff.mp h
  obtain ⟨hlen, hwalk⟩ := locate_eq_ok (locate_of_target htarget)
  have hwalk' := walk_put (.target htarget) hnode hwalk content
  refine read_eq_ok_iff.mpr ⟨place, ?_, node?_put_self disk place content⟩
  rw [locate, follow, if_neg (Nat.not_le.mpr hlen), hwalk']

end TwinRom.Disk
