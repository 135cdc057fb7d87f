import TwinRom.Proofs.Loading

/-!
# Fields that are no bytes

A table and a text with end markers are made of fields, which have to write bytes. What a reader
comes to, in its order and with the numbers of the lines, is listed without a word on how it is read
(`Table.fields`, `Markers.fields`), and so are the words that write a byte (`Table.IsByte`,
`Markers.IsByte`).

Reading stops at the first field that is no byte and reports it with the number of its line
(`Settles`). This is kept by a sequence of two steps (`Settles.bind`) and by one step on every
element of a list (`Settles.mapM`), so it holds of whole texts (`Table.settles_read`,
`Markers.settles_read`). If all fields are bytes a table is loaded, and so are two streams if there
are two lines for them (`load_reports_first_bad`).
-/

namespace TwinRom

/-! ## Reading in turn -/

/-- A word that a reader comes to, with the number of its line. -/
structure Field where
  /-- The number of the line, the first line being number one. -/
  line : Nat
  /-- The word. -/
  word : Text

namespace Field

/-- The fields on numbered lines, where `words` gives the words of a line that count. -/
def ofLines (words : Text → List Text) (lines : List (Text × Nat)) : List Field :=
  lines.flatMap fun p => (words p.1).map (Field.mk p.2)

/-- The first field that is no byte. -/
def IsFirstBad (IsByte : Text → Prop) (fields : List Field) (f : Field) : Prop :=
  ∃ before after, fields = before ++ f :: after ∧ (∀ g ∈ before, IsByte g.word) ∧ ¬IsByte f.word

variable {IsByte : Text → Prop} {fields others : List Field} {f g : Field}

theorem IsFirstBad.append_right (h : IsFirstBad IsByte fields f) (others : List Field) :
    IsFirstBad IsByte (fields ++ others) f := by
  obtain ⟨before, after, rfl, hbefore, hf⟩ := h
  exact ⟨before, after ++ others, by simp, hbefore, hf⟩

/-- Bytes in front of the first bad field leave it the first. -/
theorem IsFirstBad.append_left (h : IsFirstBad IsByte fields f)
    (hothers : ∀ g ∈ others, IsByte g.word) : IsFirstBad IsByte (others ++ fields) f := by
  obtain ⟨before, after, rfl, hbefore, hf⟩ := h
  exact ⟨others ++ before, after, by simp, List.forall_mem_append.mpr ⟨hothers, hbefore⟩, hf⟩

theorem IsFirstBad.mem (h : IsFirstBad IsByte fields f) : f ∈ fields ∧ ¬IsByte f.word := by
  obtain ⟨before, after, rfl, -, hf⟩ := h
  exact ⟨by simp, hf⟩

open Classical in
/-- The first bad field is the one that a search from the front finds. -/
theorem isFirstBad_iff_find? :
    IsFirstBad IsByte fields f ↔ fields.find? (fun g => ¬IsByte g.word) = some f := by
  rw [List.find?_eq_some_iff_append]
  constructor
  · rintro ⟨before, after, hfields, hbefore, hf⟩
    exact ⟨by simpa using hf, before, after, hfields, by simpa using hbefore⟩
  · rintro ⟨hf, before, after, hfields, hbefore⟩
    exact ⟨before, after, hfields, by simpa using hbefore, by simpa using hf⟩

/-- There is only one first bad field. -/
theorem IsFirstBad.unique (hf : IsFirstBad IsByte fields f) (hg : IsFirstBad IsByte fields g) :
    f = g := by
  rw [isFirstBad_iff_find?] at hf hg
  exact Option.some.inj (hf.symm.trans hg)

end Field

/-- What becomes of reading some fields in turn: the error about the first that is no byte, or
`done` if all of them are bytes. -/
inductive Settles {α : Type} (IsByte : Text → Prop) (fields : List Field)
    (done : Except LoadError α) : Except LoadError α → Prop where
  | done (h : ∀ f ∈ fields, IsByte f.word) : Settles IsByte fields done done
  | bad {f : Field} (h : f.IsFirstBad IsByte fields) :
      Settles IsByte fields done (.error (.badByte f.line f.word))

namespace Settles

variable {α β γ : Type} {IsByte : Text → Prop} {fields others : List Field}

/-- The second of two steps is taken if the first one is settled without an error. -/
theorem bind {x : Except LoadError α} {next : α → Except LoadError β} {a : α}
    {done : Except LoadError β} (hx : Settles IsByte fields (.ok a) x)
    (hnext : Settles IsByte others done (next a)) :
    Settles IsByte (fields ++ others) done (x >>= next) := by
  cases hx with
  | done hfields =>
    show Settles IsByte (fields ++ others) done (next a)
    generalize next a = y at hnext ⊢
    cases hnext with
    | done hothers => exact .done (List.forall_mem_append.mpr ⟨hfields, hothers⟩)
    | bad hf => exact .bad (hf.append_left hfields)
  | bad hf => exact .bad (hf.append_right others)

/-- A step that cannot fail reads no fields. -/
theorem map {x : Except LoadError α} {a : α} (hx : Settles IsByte fields (.ok a) x) (f : α → β) :
    Settles IsByte fields (.ok (f a)) (x >>= fun a => .ok (f a)) := by
  have hok : Settles IsByte [] (.ok (f a)) (.ok (f a)) := .done (List.forall_mem_nil _)
  have h : Settles IsByte (fields ++ []) (.ok (f a)) (x >>= fun a => .ok (f a)) := hx.bind hok
  rwa [List.append_nil] at h

/-- The step on one element of a list comes to the fields of that element. -/
theorem mapM {step : γ → Except LoadError β} {fieldsOf : γ → List Field}
    (h : ∀ c, ∃ b, Settles IsByte (fieldsOf c) (.ok b) (step c)) :
    ∀ cs : List γ, ∃ bs, Settles IsByte (cs.flatMap fieldsOf) (.ok bs) (cs.mapM step)
  | [] => ⟨[], .done (List.forall_mem_nil _)⟩
  | c :: cs => by
    obtain ⟨b, hb⟩ := h c
    obtain ⟨bs, hbs⟩ := mapM h cs
    rw [List.flatMap_cons, List.mapM_cons]
    exact ⟨b :: bs, hb.bind (hbs.map (b :: ·))⟩

/-- The words of a line, read one by one. -/
theorem mapM_words {read : Text → Option UInt8} (hread : ∀ w, (read w).isSome = true ↔ IsByte w)
    (n : Nat) (words : List Text) : ∃ bytes, Settles IsByte (words.map (Field.mk n)) (.ok bytes)
      (words.mapM fun w =>
        match read w with
        | some b => .ok b
        | none => .error (.badByte n w)) := by
  rw [List.map_eq_flatMap]
  refine mapM (fun w => ?_) words
  cases hw : read w with
  | some b =>
    have hbyte : IsByte w := (hread w).mp (by simp [hw])
    exact ⟨b, .done (by simpa using hbyte)⟩
  | none =>
    have hbyte : ¬IsByte w := fun h => by simpa [hw] using (hread w).mpr h
    exact ⟨0, .bad (f := ⟨n, w⟩) ⟨[], [], rfl, List.forall_mem_nil _, hbyte⟩⟩

theorem mapResult {done x : Except LoadError α} (h : Settles IsByte fields done x) (f : α → β) :
    Settles IsByte fields (done.map f) (x.map f) := by
  cases h with
  | done hfields => exact .done hfields
  | bad hf => exact .bad hf

/-- Where nothing else fails for a byte, such an error is about the first field that is none. -/
theorem eq_badByte_iff {done x : Except LoadError α} (h : Settles IsByte fields done x)
    (hdone : ∀ n w, done ≠ .error (.badByte n w)) {n : Nat} {w : Text} :
    x = .error (.badByte n w) ↔ Field.IsFirstBad IsByte fields ⟨n, w⟩ := by
  cases h with
  | done hfields =>
    exact ⟨fun h => absurd h (hdone n w), fun h => absurd (hfields _ h.mem.1) h.mem.2⟩
  | @bad f hf =>
    constructor
    · intro h
      obtain ⟨rfl, rfl⟩ := LoadError.badByte.inj (Except.error.inj h)
      exact hf
    · intro h
      rw [hf.unique h]

/-- One bad field is enough for an error about a byte. -/
theorem exists_eq_badByte {done x : Except LoadError α} (h : Settles IsByte fields done x)
    {f : Field} (hf : f ∈ fields) (hbyte : ¬IsByte f.word) : ∃ n w, x = .error (.badByte n w) := by
  cases h with
  | done hfields => exact absurd (hfields f hf) hbyte
  | bad _ => exact ⟨_, _, rfl⟩

theorem eq_done {done x : Except LoadError α} (h : Settles IsByte fields done x)
    (hfields : ∀ f ∈ fields, IsByte f.word) : x = done := by
  cases h with
  | done _ => rfl
  | bad hf => exact absurd (hfields _ hf.mem.1) hf.mem.2

end Settles

/-! ## Words that write a byte -/

namespace Text

/-- A word that writes a byte in a radix: digits, perhaps with a plus sign in front. -/
def IsByte (radix : Nat) (w : Text) : Prop :=
  ∃ (b : UInt8) (ds : Text), WritesNat radix b.toNat ds ∧ (w = ds ∨ w = '+' :: ds)

theorem eq_dropPlus (w : Text) : w = dropPlus w ∨ w = '+' :: dropPlus w := by
  unfold dropPlus
  split
  next => exact .inr rfl
  next => exact .inl rfl

/-- A word is read as a byte exactly if it writes one. -/
theorem isSome_byte?_iff {radix : Nat} {w : Text} :
    (byte? radix w).isSome = true ↔ IsByte radix w := by
  constructor
  · intro h
    unfold byte? at h
    split at h
    next n hn =>
      split at h
      next hlt =>
        have hb : (UInt8.ofNat n).toNat = n := UInt8.toNat_ofNat_of_lt hlt
        exact ⟨UInt8.ofNat n, dropPlus w, hb.symm ▸ nat?_eq_some_iff.mp hn, eq_dropPlus w⟩
      next => cases h
    next => cases h
  · rintro ⟨b, ds, hds, rfl | rfl⟩
    · rw [byte?_of_writesNat hds]
      rfl
    · rw [byte?_plus hds]
      rfl

end Text

/-! ## Tables -/

namespace Table

/-- A word that writes a byte in a table. -/
def IsByte (w : Text) : Prop := Text.IsByte 10 w

/-- The words of a line that count. The line has to have a digit and at least two parts between bars
that are not blank; then the words of the first two count. -/
def words (line : Text) : List Text :=
  if line.any Char.isDigit then
    match (line.splitOn '|').filter Text.isFilled with
    | instructions :: data :: _ => Text.words instructions ++ Text.words data
    | _ => []
  else []

/-- The fields of a table, in the order in which they are read. -/
def fields (t : Text) : List Field := Field.ofLines words ((Text.lines t).zipIdx 1)

theorem settles_readPart (n : Nat) (part : Text) : ∃ bytes, Settles IsByte
    ((Text.words part).map (Field.mk n)) (.ok bytes) (readPart n (Text.trim part)) := by
  rw [readPart, Text.words_trim]
  exact Settles.mapM_words (fun _ => Text.isSome_byte?_iff) n (Text.words part)

theorem settles_readLine (n : Nat) (line : Text) : ∃ row,
    Settles IsByte ((words line).map (Field.mk n)) (.ok row) (readLine n line) := by
  rw [readLine, parts_eq, words]
  split
  next =>
    rcases (line.splitOn '|').filter Text.isFilled with _ | ⟨instructions, _ | ⟨data, _⟩⟩
    · exact ⟨⟨[], []⟩, .done (List.forall_mem_nil _)⟩
    · exact ⟨⟨[], []⟩, .done (List.forall_mem_nil _)⟩
    · obtain ⟨i, hi⟩ := settles_readPart n instructions
      obtain ⟨d, hd⟩ := settles_readPart n data
      rw [List.map_append]
      exact ⟨⟨i, d⟩, hi.bind (hd.map (Streams.mk i))⟩
  next => exact ⟨⟨[], []⟩, .done (List.forall_mem_nil _)⟩

theorem settles_read (t : Text) : ∃ s, Settles IsByte (fields t) (.ok s) (read t) := by
  obtain ⟨rows, hrows⟩ :=
    Settles.mapM (fun p : Text × Nat => settles_readLine p.2 p.1) ((Text.lines t).zipIdx 1)
  exact ⟨_, hrows.map fun rows =>
    Streams.mk (rows.flatMap Streams.instructions) (rows.flatMap Streams.data)⟩

end Table

/-! ## End markers -/

namespace Markers

/-- A word that writes a byte between end markers, with or without `0x` in front. -/
def IsByte (w : Text) : Prop :=
  Text.IsByte 16 w ∨ ∃ x ds, (x = 'x' ∨ x = 'X') ∧ Text.IsByte 16 ds ∧ w = '0' :: x :: ds

/-- A byte without `0x` in front of it is left as it is. -/
theorem dropSign_of_isByte {w : Text} (h : Text.IsByte 16 w) : dropSign w = w := by
  obtain ⟨b, ds, hds, rfl | rfl⟩ := h
  · exact dropSign_of_writesNat hds
  · rfl

/-- What is left of a word without `0x` is read as a byte exactly if the word writes one. -/
theorem isSome_byte?_dropSign_iff {w : Text} :
    (Text.byte? 16 (dropSign w)).isSome = true ↔ IsByte w := by
  rw [Text.isSome_byte?_iff]
  constructor
  · intro h
    unfold dropSign at h
    split at h
    next ds => exact .inr ⟨'x', ds, .inl rfl, h, rfl⟩
    next ds => exact .inr ⟨'X', ds, .inr rfl, h, rfl⟩
    next => exact .inl h
  · rintro (h | ⟨x, ds, rfl | rfl, h, rfl⟩)
    · rwa [dropSign_of_isByte h]
    · exact h
    · exact h

/-- The fields of a text, in the order in which they are read: the words of the first two lines that
are not blank. -/
def fields (t : Text) : List Field :=
  Field.ofLines Text.words
    ((((Text.lines t).zipIdx 1).filter fun p => Text.isFilled p.1).take 2)

theorem settles_readLine (marker : UInt8) (n : Nat) (line : Text) : ∃ stream,
    Settles IsByte ((Text.words line).map (Field.mk n)) (.ok stream) (readLine marker n line) := by
  obtain ⟨bytes, hbytes⟩ :=
    Settles.mapM_words (fun _ => isSome_byte?_dropSign_iff) n (Text.words line)
  exact ⟨dropMarker marker bytes, hbytes.map (dropMarker marker)⟩

/-- What a text comes to if all its fields are bytes, by the number of its lines that are not
blank. -/
inductive Ends : Nat → Except LoadError Streams → Prop where
  | noLine : Ends 0 (.error (.missingStream .instruction))
  | oneLine : Ends 1 (.error (.missingStream .data))
  | streams (n : Nat) (s : Streams) : Ends (n + 2) (.ok s)

theorem settles_read (t : Text) : ∃ done, Ends ((Text.lines t).filter Text.isFilled).length done ∧
    Settles IsByte (fields t) done (read t) := by
  rw [← map_fst_filledLines, List.length_map, read]
  show ∃ done, Ends _ done ∧
    Settles IsByte (Field.ofLines Text.words ((filledLines t).take 2)) done _
  rcases filledLines t with _ | ⟨⟨first, m⟩, _ | ⟨⟨second, n⟩, rest⟩⟩
  · exact ⟨_, .noLine, .done (List.forall_mem_nil _)⟩
  · obtain ⟨i, hi⟩ := settles_readLine Opcode.endOfInstructions m first
    have hmissing : Settles (α := Streams) IsByte [] (.error (.missingStream .data))
      (.error (.missingStream .data)) := .done (List.forall_mem_nil _)
    exact ⟨_, .oneLine, hi.bind hmissing⟩
  · obtain ⟨i, hi⟩ := settles_readLine Opcode.endOfInstructions m first
    obtain ⟨d, hd⟩ := settles_readLine Opcode.endOfData n second
    have hfields : Field.ofLines Text.words [(first, m), (second, n)] =
        (Text.words first).map (Field.mk m) ++ (Text.words second).map (Field.mk n) := by
      simp [Field.ofLines]
    refine ⟨_, .streams rest.length ⟨i, d⟩, ?_⟩
    rw [List.take_succ_cons, List.take_succ_cons, List.take_zero, hfields]
    exact hi.bind (hd.map (Streams.mk i))

end Markers

/-! ## Loading -/

/-- A field is a word of the line that it is numbered with. -/
theorem Field.exists_line_of_mem {words : Text → List Text} {lines : List Text}
    {numbered : List (Text × Nat)} (hnumbered : numbered ⊆ lines.zipIdx 1) {f : Field}
    (h : f ∈ ofLines words numbered) :
    ∃ line, 0 < f.line ∧ lines[f.line - 1]? = some line ∧ f.word ∈ words line := by
  obtain ⟨⟨line, n⟩, hline, hf⟩ := List.mem_flatMap.mp h
  obtain ⟨w, hw, rfl⟩ := List.mem_map.mp hf
  obtain ⟨hn, hget⟩ := List.mem_zipIdx_iff_le_and_getElem?_sub.mp (hnumbered hline)
  exact ⟨line, hn, hget, hw⟩

/-- What loading a text made of fields reports. -/
structure ReportsFirst (words : Text → List Text) (IsByte : Text → Prop) (fields : List Field)
    (t : Text) (loaded : Except LoadError Image) : Prop where
  /-- Every field is a word that counts on the line with its number, all lines being numbered from
  one. -/
  placed : ∀ f ∈ fields, ∃ line, 0 < f.line ∧ (Text.lines t)[f.line - 1]? = some line ∧
    f.word ∈ words line
  /-- An error about a field is about the first one that is no byte. -/
  badByte_iff : ∀ n w, loaded = .error (.badByte n w) ↔ Field.IsFirstBad IsByte fields ⟨n, w⟩
  /-- There is such an error if any field is no byte. -/
  exists_badByte_iff : (∃ n w, loaded = .error (.badByte n w)) ↔ ∃ f ∈ fields, ¬IsByte f.word

/-- Loading that settles its fields reports the first bad one, with its word and its line. -/
theorem Settles.reportsFirst {words : Text → List Text} {IsByte : Text → Prop}
    {numbered : List (Text × Nat)} {t : Text} {done loaded : Except LoadError Image}
    (hnumbered : numbered ⊆ (Text.lines t).zipIdx 1)
    (h : Settles IsByte (Field.ofLines words numbered) done loaded)
    (hdone : ∀ n w, done ≠ .error (.badByte n w)) :
    ReportsFirst words IsByte (Field.ofLines words numbered) t loaded where
  placed _ hf := Field.exists_line_of_mem hnumbered hf
  badByte_iff _ _ := h.eq_badByte_iff hdone
  exists_badByte_iff := by
    constructor
    · rintro ⟨n, w, hbad⟩
      exact ⟨_, ((h.eq_badByte_iff hdone).mp hbad).mem⟩
    · rintro ⟨f, hf, hbyte⟩
      exact h.exists_eq_badByte hf hbyte

theorem Table.settles_load (t : Text) : ∃ x,
    Settles IsByte (fields t) (.ok x) (Image.load .table (Utf8.encode t)) := by
  obtain ⟨s, hs⟩ := settles_read t
  rw [Image.load_encode (by decide)]
  exact ⟨_, hs.mapResult _⟩

/-- Loading a marker stream settles its fields, and then it still can be short of a line. -/
theorem Markers.settles_load (t : Text) : ∃ done,
    Ends ((Text.lines t).filter Text.isFilled).length done ∧
      Settles IsByte (fields t) (done.map (Image.ofLoaded .markers))
        (Image.load .markers (Utf8.encode t)) := by
  obtain ⟨done, hdone, hs⟩ := settles_read t
  rw [Image.load_encode (by decide)]
  exact ⟨done, hdone, hs.mapResult _⟩

/-- An error about a byte points at the first field that is none. It has the number of the line,
among all lines, and the word as it stands there. There is such an error if any field is no byte. If
all of them are bytes, a table is loaded, and a text with end markers is loaded if it has two lines
that are not blank; otherwise it is said which stream is missing. -/
theorem load_reports_first_bad (t : Text) :
    let filled := ((Text.lines t).filter Text.isFilled).length
    let table := Image.load .table (Utf8.encode t)
    let markers := Image.load .markers (Utf8.encode t)
    (ReportsFirst Table.words Table.IsByte (Table.fields t) t table ∧
      ((∀ f ∈ Table.fields t, Table.IsByte f.word) → ∃ x, table = .ok x)) ∧
    ReportsFirst Text.words Markers.IsByte (Markers.fields t) t markers ∧
      ((∀ f ∈ Markers.fields t, Markers.IsByte f.word) →
        (filled = 0 → markers = .error (.missingStream .instruction)) ∧
        (filled = 1 → markers = .error (.missingStream .data)) ∧
        (2 ≤ filled → ∃ x, markers = .ok x)) := by
  intro filled table markers
  obtain ⟨x, htable⟩ := Table.settles_load t
  obtain ⟨done, hends, hmarkers⟩ := Markers.settles_load t
  replace hends : Markers.Ends filled done := hends
  clear_value filled
  refine ⟨⟨htable.reportsFirst (List.Subset.refl _) (by simp), fun h => ⟨x, htable.eq_done h⟩⟩,
    hmarkers.reportsFirst ?_ ?_, fun h => ?_⟩
  · intro p hp
    exact (List.mem_filter.mp (List.mem_of_mem_take hp)).1
  · cases hends <;> simp [Except.map]
  · have hload : markers = done.map (Image.ofLoaded .markers) := hmarkers.eq_done h
    cases hends with
    | noLine => exact ⟨fun _ => hload, by omega, by omega⟩
    | oneLine => exact ⟨by omega, fun _ => hload, by omega⟩
    | streams n s => exact ⟨by omega, by omega, fun _ => ⟨_, hload⟩⟩

/-- A table with a heading and a blank line, whose first bad field stands among the data. The words
that are no bytes behind it do not show. -/
theorem load_reports_first_bad_data :
    let t := "Instr | Data\n\n| 5 +07 | 1 2x 300 |\n| y | 0 |".toList
    let loaded := Image.load .table (Utf8.encode t)
    loaded = .error (.badByte 3 "2x".toList) ∧
      Field.IsFirstBad Table.IsByte (Table.fields t) ⟨3, "2x".toList⟩ ∧
      (Text.lines t)[2]? = some "| 5 +07 | 1 2x 300 |".toList := by
  intro t loaded
  have hloaded : loaded = .error (.badByte 3 "2x".toList) :=
    (Image.load_encode_eq_error_iff (by decide)).mpr rfl
  exact ⟨hloaded, ((load_reports_first_bad t).1.1.badByte_iff 3 _).mp hloaded, rfl⟩

end TwinRom
