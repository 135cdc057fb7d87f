import TwinRom.Proofs.Commands
import TwinRom.Proofs.LetterCase
import TwinRom.Proofs.RoundTrip

/-!
# From a source to images

A program that is assembled into a file is found there by the commands that read images
(`assemble_then_render`). The format is inferred from the extension of the path, in the same way
when the file is written and when it is read, and in any letter case (`Format.ofPath?_of_recased`).

A command is run by any words that ask for it (`Cli.Asks`). The words that a user would write do, if
their paths do not look like options (`Cli.asks_assemble`, `Cli.asks_validate`, `Cli.asks_render`).
-/

namespace TwinRom

/-! ## Words -/

namespace Cli

/-- A word that stands for a path wherever one may stand. -/
def IsPath (word : Text) : Prop := word ≠ [] ∧ isValue word = true

/-- A word that does not look like an option is a file. -/
theorem Word.of?_of_isValue (verb : Verb) {word : Text} (h : isValue word = true) :
    Word.of? verb word = some .file := by
  unfold Word.of?
  split
  next => cases h
  next => simp [isValue] at h
  next => simp [isValue] at h
  next => rfl

/-- No name of a format looks like an option. -/
theorem isValue_name (format : Format) : isValue format.name.toList = true := by
  cases format <;> rfl

variable {verb : Verb} {a : Arguments} {words : List Text}

theorem readWords_file {path : Text} (hpath : IsPath path) (hfile : a.file = none) :
    readWords verb none a (path :: words) =
      readWords verb none { a with file := some path } words := by
  have hne : path.isEmpty = false := by simpa using hpath.1
  simp [readWords, Word.of?_of_isValue verb hpath.2, Arguments.addFile, hfile, hne]

/-- An option and its value are read together. -/
theorem readWords_setting {setting : Setting} {flag value : Text} {a' : Arguments}
    (hflag : Word.of? verb flag = some (.setting setting none)) (hvalue : isValue value = true)
    (hset : a.set setting value = some a') :
    readWords verb none a (flag :: value :: words) = readWords verb none a' words := by
  simp [readWords, hflag, hvalue, hset]

theorem set_output {path : Text} (hpath : IsPath path) (houtput : a.output = none) :
    a.set .output path = some { a with output := some path } := by
  have hne : path.isEmpty = false := by simpa using hpath.1
  simp [Arguments.set, houtput, hne]

theorem set_format (format : Format) (hformat : a.format = none) :
    a.set .format format.name.toList = some { a with format := some format } := by
  simp [Arguments.set, hformat]

/-- Words that ask for a command. -/
def Asks (words : List Text) (c : Command) : Prop := Request.ofWords? words = some (.run c)

/-- A verb and the words behind it ask for a command. -/
theorem asks_of_readWords {c : Command} {word : Text}
    (hverb : Request.ofWords? (word :: words) = Request.ofVerb? verb words)
    (h : readWords verb none {} words = some (.arguments a)) (hc : a.command? verb = some c) :
    Asks (word :: words) c := by
  rw [Asks, hverb, Request.ofVerb?, h]
  simp [hc]

variable {source image out : Text}

theorem asks_assemble (hsource : IsPath source) (hout : IsPath out) :
    Asks ["assemble".toList, source, "-o".toList, out] (.assemble source (some out) none) := by
  refine asks_of_readWords (a := ⟨some source, some out, none, none⟩) rfl ?_ rfl
  rw [readWords_file hsource rfl, readWords_setting rfl hout.2 (set_output hout rfl)]
  rfl

theorem asks_validate (himage : IsPath image) :
    Asks ["validate".toList, image] (.validate image none) := by
  refine asks_of_readWords (a := ⟨some image, none, none, none⟩) rfl ?_ rfl
  rw [readWords_file himage rfl]
  rfl

theorem asks_render (himage : IsPath image) (format : Format) (hout : IsPath out) :
    Asks ["render".toList, image, "-f".toList, format.name.toList, "-o".toList, out]
      (.render image none format (some out)) := by
  refine asks_of_readWords (a := ⟨some image, some out, some format, none⟩) rfl ?_ rfl
  rw [readWords_file himage rfl,
    readWords_setting rfl (isValue_name format) (set_format format rfl),
    readWords_setting rfl hout.2 (set_output hout rfl)]
  rfl

end Cli

/-! ## Formats of paths -/

section Paths

variable {path ext : Text} {name : String}

/-- An extension stands for its format in any letter case. -/
theorem Format.ofPath?_of_recased {format : Format} (hext : Path.extension? path = some ext)
    (hcase : Text.Recased ext name.toList) (h : (name, format) ∈ Format.extensions) :
    Format.ofPath? path = some format := by
  simp only [Format.ofPath?, hext, Text.recased_iff.mp hcase]
  simp only [Format.extensions, List.mem_cons, Prod.mk.injEq, List.not_mem_nil, or_false] at h
  rcases h with ⟨rfl, rfl⟩ | ⟨rfl, rfl⟩ | ⟨rfl, rfl⟩ | ⟨rfl, rfl⟩ | ⟨rfl, rfl⟩ | ⟨rfl, rfl⟩ |
    ⟨rfl, rfl⟩ <;> rfl

/-- The extensions of images that can be loaded, and which of their formats hold full streams. -/
theorem Format.exists_of_extension (h : name ∈ ["bin", "json", "hex", "txt", "tbl", "rom"]) :
    ∃ format, (name, format) ∈ Format.extensions ∧ format ≠ .listing ∧
      (format.isFull = true ↔ name = "bin" ∨ name = "json") := by
  simp only [List.mem_cons, List.not_mem_nil, or_false] at h
  rcases h with rfl | rfl | rfl | rfl | rfl | rfl
  · exact ⟨.bin, by decide⟩
  · exact ⟨.json, by decide⟩
  · exact ⟨.hex, by decide⟩
  · exact ⟨.table, by decide⟩
  · exact ⟨.table, by decide⟩
  · exact ⟨.markers, by decide⟩

end Paths

/-! ## Files -/

/-- A file holds what the image is rendered to, in every format. -/
theorem Reply.fileContent_eq_render (x : Image) (format : Format) :
    fileContent x format = x.render format := by
  cases format with
  | bin => exact Binary.overwrite_nil x
  | _ => rfl

/-- Writing to a path that is writable succeeds, whatever the content. -/
theorem Disk.Writable.write {disk : Disk} {path : Text} (h : disk.Writable path)
    (content : List UInt8) : ∃ after, disk.write path content = .ok after := by
  obtain ⟨place, htarget, hnode⟩ := h
  exact ⟨_, Disk.write_eq_ok_iff.mpr ⟨place, htarget, hnode, rfl⟩⟩

section Runs

variable {disk : Disk} {words : List Text} {source path out : Text} {bytes : List UInt8} {x : Image}
  {format : Format}

/-- A command that delivers an image to a file succeeds if the file can be written, and leaves the
disk with the image in that file. -/
theorem run_deliver {c : Command} (hc : Cli.Asks words c) (hout : disk.Writable out)
    (haction : (c.reply (disk.read c.input)).action = Reply.deliver x format (some out)) :
    (run disk words).exit = 0 ∧ disk.write out (x.render format) = .ok (run disk words).disk := by
  obtain ⟨after, hafter⟩ := hout.write (x.render format)
  rw [run_eq_act hc, haction, Reply.deliver, Reply.fileContent_eq_render,
    Action.act_write_of_ok _ hafter]
  exact ⟨rfl, hafter⟩

/-- A source that assembles is delivered in the format of its output. -/
theorem Reply.action_assemble {t : Text} (htext : Utf8.decode bytes = .ok t)
    (hx : TwinRom.assemble t = .ok x) (hformat : Format.ofPath? out = some format) :
    (Reply.assemble source (some out) none (.ok bytes)).action = deliver x format (some out) := by
  have hinfer : programFormat (some out) none = format := by simp [programFormat, hformat]
  simp only [Reply.assemble, asText_of_decode htext, hx, hinfer, programOutput]

/-- An image that loads is passed on, its format being known from the path. -/
theorem Reply.action_withImage {next : Image → Action} (hformat : Format.ofPath? path = some format)
    (hload : Image.load format bytes = .ok x) :
    (Reply.withImage path none (.ok bytes) next).action = next x := by
  simp only [Reply.withImage, Option.none_or, hformat, hload]

/-- Validating a file with a valid image succeeds and says so. -/
theorem run_validate (hc : Cli.Asks words (.validate path none))
    (hread : disk.read path = .ok bytes) (hformat : Format.ofPath? path = some format)
    (hload : Image.load format bytes = .ok x) (hvalid : x.invalidOpcodes = []) :
    (run disk words).exit = 0 ∧ (run disk words).stdout = Utf8.encode "ROM OK\n".toList := by
  have haction : ((Command.validate path none).reply (disk.read path)).action =
      Reply.text "ROM OK\n" := by
    rw [hread]
    refine (Reply.action_withImage hformat hload).trans ?_
    rw [Reply.verdict, hvalid]
  rw [run_eq_act hc, Command.input, haction]
  exact ⟨rfl, rfl⟩

theorem Program.invalidOpcodes_of_finish {p : Program} (h : p.finish = .ok x) :
    x.invalidOpcodes = [] := by
  unfold finish at h
  split at h
  next hvalid =>
    obtain rfl := Except.ok.inj h
    exact Image.validate_eq_ok_iff.mp hvalid
  next => cases h

/-- An assembled image has no invalid opcode. -/
theorem invalidOpcodes_of_assemble {t : Text} (h : assemble t = .ok x) : x.invalidOpcodes = [] := by
  obtain ⟨p, -, hp⟩ := bind_eq_ok_iff.mp h
  exact Program.invalidOpcodes_of_finish hp

end Runs

/-- A program that is assembled into a file is found there. Let a source be assembled to an image,
with the output going to a path that can be written and has the extension of a format that can be
loaded, in any letter case. Then the command succeeds, validating the file succeeds, and rendering
it in any format to a second path writes what the image is rendered as. If the first format holds
full streams, it is the trimmed image. -/
theorem assemble_then_render {disk : Disk} {source out t ext : Text} {bytes : List UInt8}
    {x : Image} {name : String} (hread : disk.read source = .ok bytes)
    (htext : Utf8.decode bytes = .ok t) (hx : assemble t = .ok x) (hout : disk.Writable out)
    (hext : Path.extension? out = some ext) (hcase : Text.Recased ext name.toList)
    (hname : name ∈ ["bin", "json", "hex", "txt", "tbl", "rom"]) :
    let y := if name = "bin" ∨ name = "json" then x.trimmed else x
    (∀ words, Cli.Asks words (.assemble source (some out) none) →
      let o := run disk words
      o.exit = 0 ∧
        (∀ words', Cli.Asks words' (.validate out none) →
          (run o.disk words').exit = 0 ∧
            (run o.disk words').stdout = Utf8.encode "ROM OK\n".toList) ∧
        ∀ words' format out', Cli.Asks words' (.render out none format (some out')) →
          o.disk.Writable out' →
          (run o.disk words').exit = 0 ∧
            (run o.disk words').disk.read out' = .ok (y.render format)) ∧
      ∀ format out', Cli.IsPath source → Cli.IsPath out → Cli.IsPath out' →
        Cli.Asks ["assemble".toList, source, "-o".toList, out] (.assemble source (some out) none) ∧
        Cli.Asks ["validate".toList, out] (.validate out none) ∧
        Cli.Asks ["render".toList, out, "-f".toList, format.name.toList, "-o".toList, out']
          (.render out none format (some out')) := by
  intro y
  refine ⟨fun words hwords => ?_, fun format out' hsource hout hout' => ?_⟩
  · intro o
    -- the one format that both the writer and the readers infer
    obtain ⟨format, hmem, hloadable, hfull⟩ := Format.exists_of_extension hname
    have hformat := Format.ofPath?_of_recased hext hcase hmem
    have hreply : ((Command.assemble source (some out) none).reply (disk.read source)).action =
        Reply.deliver x format (some out) := by
      rw [hread]
      exact Reply.action_assemble htext hx hformat
    obtain ⟨hexit, hwrite⟩ := run_deliver hwords hout hreply
    have hfile : o.disk.read out = .ok (x.render format) := Disk.read_write hwrite
    have hload : Image.load format (x.render format) = .ok y := by
      rw [Image.load_render hloadable]
      simp only [y, hfull]
    refine ⟨hexit, fun words' hwords' => ?_, fun words' format' out' hwords' hout' => ?_⟩
    · have hvalid : y.invalidOpcodes = [] := by
        have hx' := invalidOpcodes_of_assemble hx
        simp only [y]
        split <;> simpa using hx'
      exact run_validate hwords' hfile hformat hload hvalid
    · have hreply' :
          ((Command.render out none format' (some out')).reply (o.disk.read out)).action =
            Reply.deliver y format' (some out') := by
        rw [hfile]
        exact Reply.action_withImage hformat hload
      obtain ⟨hexit', hwrite'⟩ := run_deliver hwords' hout' hreply'
      exact ⟨hexit', Disk.read_write hwrite'⟩
  · exact ⟨Cli.asks_assemble hsource hout, Cli.asks_validate hout,
      Cli.asks_render hout format hout'⟩

/-- A program that ends in a position of zeros, assembled into a binary image. -/
theorem assemble_then_render_zeros :
    let t := "sao\nnop".toList
    let disk : Disk := ⟨[(["p".toList], .file (Utf8.encode t)), (["d".toList], .directory)]⟩
    let x := Image.ofStreams [0x88, 0] [0, 0]
    assemble t = .ok x ∧ ∃ after,
      run disk ["assemble".toList, "p".toList, "-o".toList, "d/o.Bin".toList] = after ∧
      after.exit = 0 ∧
      (run after.disk ["validate".toList, "d/o.Bin".toList]).stdout =
        Utf8.encode "ROM OK\n".toList ∧
      (run after.disk ["render".toList, "d/o.Bin".toList, "-f".toList, "hex".toList, "-o".toList,
        "q".toList]).disk.read "q".toList = .ok (x.trimmed.render .hex) := by
  intro t disk x
  have hx : assemble t = .ok x := by
    refine assemble_eq_ok_iff.mpr
      ⟨[.ofCells [⟨0x88, 0⟩], .ofCells [⟨0, 0⟩]], rfl, by decide, ?_, ?_⟩
    · exact Image.usedInstructions_ofStreams rfl (by decide)
    · exact Image.usedData_ofStreams rfl (by decide)
  have hread : disk.read "p".toList = .ok (Utf8.encode t) := rfl
  have hout : disk.Writable "d/o.Bin".toList := ⟨["d".toList, "o.Bin".toList], rfl, by decide⟩
  have hext : Path.extension? "d/o.Bin".toList = some "Bin".toList := rfl
  have hcase : Text.Recased "Bin".toList "bin".toList := by decide
  obtain ⟨hrun, hasks⟩ := assemble_then_render hread (Utf8.decode_encode t) hx hout hext hcase
    (by decide)
  rw [if_pos (.inl rfl)] at hrun
  obtain ⟨hassemble, hvalidate, hrender⟩ := hasks .hex "q".toList ⟨by decide, rfl⟩ ⟨by decide, rfl⟩
    ⟨by decide, rfl⟩
  obtain ⟨hexit, hvalid, hrendered⟩ := hrun _ hassemble
  have hq : (run disk ["assemble".toList, "p".toList, "-o".toList, "d/o.Bin".toList]).disk.Writable
      "q".toList := by
    have hreply : ((Command.assemble "p".toList (some "d/o.Bin".toList) none).reply
        (disk.read "p".toList)).action = Reply.deliver x .bin (some "d/o.Bin".toList) := by
      rw [hread]
      exact Reply.action_assemble (Utf8.decode_encode t) hx rfl
    obtain ⟨place, htarget, -, hput⟩ :=
      Disk.write_eq_ok_iff.mp (run_deliver hassemble hout hreply).2
    obtain rfl : place = ["d".toList, "o.Bin".toList] := (Except.ok.inj htarget).symm
    rw [← hput]
    exact ⟨["q".toList], rfl, by decide⟩
  exact ⟨hx, _, rfl, hexit, (hvalid _ hvalidate).2, (hrendered _ _ _ hrender hq).2⟩

end TwinRom
