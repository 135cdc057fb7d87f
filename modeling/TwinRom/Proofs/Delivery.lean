import TwinRom.Proofs.Paths
import TwinRom.Proofs.Workflow

/-!
# Where images go and what is there then

A command that delivers a binary image leaves it in a file, byte for byte, whatever was in that file
before (`overwrite_eq_render_append`).

A program that is assembled without a word on its output goes beside its source, to a file whose
name tells the format (`defaultOutput_beside_source`). The name of the source does not matter,
unless it is two dots and an extension (`defaultOutput_two_dots`).
-/

namespace TwinRom

/-- Writing an image by position agrees with rendering it. Whatever was there and however long it
was, the result is the rendered image followed by what lay behind its end; this takes nothing from
the writer but that it replaces bytes at a position and grows as needed. In particular it is just
the image if nothing was there, and a command that delivers a binary image leaves a file with the
image and nothing else, also where there was a file before. -/
theorem overwrite_eq_render_append (x : Image) (out : List UInt8) :
    Binary.overwrite x out = Binary.render x ++ out.drop 512 ∧
      Binary.overwrite x [] = Binary.render x ∧
      (∀ write, Binary.WritesAt write →
        write 256 x.data.toList (write 0 x.instructions.toList out) =
          Binary.render x ++ out.drop 512) ∧
      ∀ disk words c path, Cli.Asks words c → disk.Writable path →
        (c.reply (disk.read c.input)).action = Reply.deliver x .bin (some path) →
        (run disk words).exit = 0 ∧ (run disk words).disk.read path = .ok (Binary.render x) := by
  refine ⟨Binary.writesAt_writeAt.overwrite_eq x out, Binary.overwrite_nil x,
    fun write h => h.overwrite_eq x out, fun disk words c path hc hpath haction => ?_⟩
  obtain ⟨hexit, hwrite⟩ := run_deliver hc hpath haction
  exact ⟨hexit, Disk.read_write hwrite⟩

/-- A file that is longer than an image. Written over by position it keeps its end, and as the
output of a command it does not. -/
theorem overwrite_eq_render_append_longer :
    let t := "jmp 3".toList
    let old : List UInt8 := List.replicate 600 7
    let disk : Disk := ⟨[(["p".toList], .file (Utf8.encode t)), (["o.bin".toList], .file old)]⟩
    let words := ["assemble".toList, "p".toList, "-o".toList, "o.bin".toList]
    let x := Image.ofStreams [0xc0] [3]
    Binary.overwrite x old = Binary.render x ++ List.replicate 88 7 ∧
      disk.read "o.bin".toList = .ok old ∧ (run disk words).exit = 0 ∧
      (run disk words).disk.read "o.bin".toList = .ok (Binary.render x) := by
  intro t old disk words x
  have hx : assemble t = .ok x := by
    refine assemble_eq_ok_iff.mpr ⟨[.ofCells [⟨0xc0, 3⟩]], rfl, by decide, ?_, ?_⟩
    · exact Image.usedInstructions_ofStreams rfl (by decide)
    · exact Image.usedData_ofStreams rfl (by decide)
  have hwords : Cli.Asks words (.assemble "p".toList (some "o.bin".toList) none) :=
    Cli.asks_assemble ⟨by decide, rfl⟩ ⟨by decide, rfl⟩
  have hwritable : disk.Writable "o.bin".toList := ⟨["o.bin".toList], rfl, by decide⟩
  have haction : ((Command.assemble "p".toList (some "o.bin".toList) none).reply
      (disk.read "p".toList)).action = Reply.deliver x .bin (some "o.bin".toList) :=
    Reply.action_assemble (Utf8.decode_encode t) hx rfl
  obtain ⟨hover, -, -, hrun⟩ := overwrite_eq_render_append x old
  exact ⟨hover.trans (by rw [List.drop_replicate]), rfl,
    hrun disk words _ _ hwords hwritable haction⟩

/-! ## Beside the source -/

section Beside

variable {source name : Text}

theorem Path.directory_defaultOutput (h : Path.fileName? source = some name)
    (hdots : ¬Path.EndsInDots source) :
    Path.defaultOutput source = Path.directory source ++ (name ++ ".bin".toList) ∧
      Path.directory (Path.defaultOutput source) = Path.directory source ∧
      Path.fileName? (Path.defaultOutput source) = some (name ++ ".bin".toList) := by
  obtain ⟨dir, tail, hparts, hname, rfl⟩ := Path.exists_parts h
  have hout : Path.IsParts dir (name ++ ".bin".toList) [] := by
    refine ⟨hparts.directory, by simp, fun hdot => ?_, ?_, .nil⟩
    · simpa using congrArg List.length hdot
    · simpa using hparts.slash_not_mem_name
  have hne : name ++ ".bin".toList ≠ ['.', '.'] := fun hdots => by
    simpa using congrArg List.length hdots
  rw [Path.defaultOutput_of_parts hparts hname hdots, Path.directory_of_parts hparts]
  exact ⟨rfl, Path.directory_append hout, (Path.fileName?_append hout).trans (if_neg hne)⟩

theorem Path.fileName?_defaultOutput_of_dots (hdots : Path.EndsInDots source) :
    Path.defaultOutput source = Path.directory source ++ ['.', '.'] ∧
      Path.fileName? (Path.defaultOutput source) = none := by
  obtain ⟨dir, ext, hdir, hne, hdot, hslash, rfl⟩ := hdots
  have habove : Path.IsParts dir ['.', '.'] [] := Path.isParts_dots hdir List.not_mem_nil
  rw [Path.defaultOutput_of_dots hdir hne hdot hslash,
    Path.directory_append (Path.isParts_dots hdir hslash)]
  exact ⟨rfl, (Path.fileName?_append habove).trans (if_pos rfl)⟩

theorem Format.ofPath?_of_fileName? {path : Text} (hne : name ≠ [])
    (h : Path.fileName? path = some (name ++ ".bin".toList)) : Format.ofPath? path = some .bin := by
  have hext : Path.extension? path = some "bin".toList := by
    rw [Path.extension?, h]
    exact Path.nameExtension?_of_stem hne (by decide)
  have hcase : Text.Recased "bin".toList "bin".toList := by decide
  exact Format.ofPath?_of_recased hext hcase (by decide)

theorem Reply.action_assemble_beside {t : Text} {bytes : List UInt8} {x : Image}
    (htext : Utf8.decode bytes = .ok t) (hx : TwinRom.assemble t = .ok x) :
    (Reply.assemble source none none (.ok bytes)).action =
      deliver x .bin (some (Path.defaultOutput source)) := by
  simp only [Reply.assemble, asText_of_decode htext, hx]
  rfl

/-- What is assembled without a word on its output is found beside its source by whoever reads an
image there, and no format has to be given. -/
theorem run_assemble_beside {disk : Disk} {words : List Text} {bytes : List UInt8} {t : Text}
    {x : Image} (hwords : Cli.Asks words (.assemble source none none))
    (hread : disk.read source = .ok bytes) (htext : Utf8.decode bytes = .ok t)
    (hx : assemble t = .ok x) (hout : disk.Writable (Path.defaultOutput source))
    (hformat : Format.ofPath? (Path.defaultOutput source) = some .bin) :
    (run disk words).exit = 0 ∧ ∀ next, (Reply.withImage (Path.defaultOutput source) none
      ((run disk words).disk.read (Path.defaultOutput source)) next).action = next x.trimmed := by
  have hreply : ((Command.assemble source none none).reply (disk.read source)).action =
      Reply.deliver x .bin (some (Path.defaultOutput source)) := by
    rw [hread]
    exact Reply.action_assemble_beside htext hx
  obtain ⟨hexit, hwrite⟩ := run_deliver hwords hout hreply
  have hload : Image.load .bin (x.render .bin) = .ok x.trimmed := Image.load_render (by decide) x
  refine ⟨hexit, fun next => ?_⟩
  rw [Disk.read_write hwrite]
  exact Reply.action_withImage hformat hload

end Beside

/-- The image of a source goes to the same directory, to the name of the source followed by `.bin`.
Wherever the dots of the name are, this is not the source itself, two sources have the same output
only if they have the same directory and the same name, and the output has the extension of binary
images, so that a program is assembled into it and then read from it with no format given. There is
one exception, which is a path that ends in a name of two dots and an extension: its output is the
directory above. -/
theorem defaultOutput_beside_source {source name : Text}
    (h : Path.fileName? source = some name) :
    let out := Path.defaultOutput source
    (¬Path.EndsInDots source →
      out = Path.directory source ++ (name ++ ".bin".toList) ∧
      Path.directory out = Path.directory source ∧
      Path.fileName? out = some (name ++ ".bin".toList) ∧
      out ≠ source ∧
      (∀ source' name', Path.fileName? source' = some name' → Path.defaultOutput source' = out →
        Path.directory source' = Path.directory source ∧ name' = name) ∧
      Format.ofPath? out = some .bin ∧
      ∀ disk words bytes t x, Cli.Asks words (.assemble source none none) →
        disk.read source = .ok bytes → Utf8.decode bytes = .ok t → assemble t = .ok x →
        disk.Writable out → (run disk words).exit = 0 ∧ ∀ next,
          (Reply.withImage out none ((run disk words).disk.read out) next).action =
            next x.trimmed) ∧
      (Path.EndsInDots source →
        out = Path.directory source ++ ['.', '.'] ∧ Path.fileName? out = none) := by
  intro out
  refine ⟨fun hdots => ?_, Path.fileName?_defaultOutput_of_dots⟩
  obtain ⟨hout, hdir, hfile⟩ := Path.directory_defaultOutput h hdots
  have hne : name ≠ [] := by
    obtain ⟨_, _, hparts, -, -⟩ := Path.exists_parts h
    exact hparts.name_ne_nil
  have hformat := Format.ofPath?_of_fileName? hne hfile
  refine ⟨hout, hdir, hfile, fun heq => ?_, fun source' name' h' heq => ?_, hformat,
    fun disk words bytes t x hwords hread htext hx hwritable =>
      run_assemble_beside hwords hread htext hx hwritable hformat⟩
  · rw [← heq, hfile] at h
    simpa using Option.some.inj h
  · by_cases hdots' : Path.EndsInDots source'
    · have hnone := (Path.fileName?_defaultOutput_of_dots hdots').2
      rw [heq, hfile] at hnone
      cases hnone
    · obtain ⟨-, hdir', hfile'⟩ := Path.directory_defaultOutput h' hdots'
      rw [heq] at hdir' hfile'
      have hname := Option.some.inj (hfile'.symm.trans hfile)
      exact ⟨hdir'.symm.trans hdir, List.append_cancel_right hname⟩

/-- A name with dots at both ends and between them, and a path that goes on behind it. -/
theorem defaultOutput_beside_source_many_dots :
    let source := "d/../.v1.asm./.".toList
    Path.fileName? source = some ".v1.asm.".toList ∧ ¬Path.EndsInDots source ∧
      Path.defaultOutput source = "d/../.v1.asm..bin".toList ∧
      Format.ofPath? (Path.defaultOutput source) = some .bin := by
  intro source
  have h : Path.fileName? source = some ".v1.asm.".toList := rfl
  have hsome : Path.fileName? (Path.defaultOutput source) = some ".v1.asm..bin".toList := by
    decide +kernel
  have hdots : ¬Path.EndsInDots source := fun hdots => by
    have hnone := (Path.fileName?_defaultOutput_of_dots hdots).2
    rw [hsome] at hnone
    cases hnone
  obtain ⟨hout, -, -, -, -, hformat, -⟩ := (defaultOutput_beside_source h).1 hdots
  exact ⟨h, hdots, hout.trans (by decide +kernel), hformat⟩

/-- The output of a source whose name is two dots and an extension is no file, and it is the same
for all of them. Nothing can be written there. -/
theorem defaultOutput_two_dots :
    let source := "..asm".toList
    let disk : Disk := ⟨[([source], .file (Utf8.encode "jmp 3".toList))]⟩
    Path.fileName? source = some source ∧ Path.defaultOutput source = "..".toList ∧
      Path.defaultOutput "..hex".toList = Path.defaultOutput source ∧
      ∀ content, disk.write (Path.defaultOutput source) content = .error .isDirectory := by
  intro source disk
  have hout : Path.defaultOutput source = "..".toList := by decide +kernel
  refine ⟨by decide +kernel, hout, by decide +kernel, fun content => ?_⟩
  rw [hout]
  rfl

end TwinRom
