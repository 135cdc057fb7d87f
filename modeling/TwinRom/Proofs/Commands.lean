import TwinRom.Cli.Run
import TwinRom.Proofs.Disks

/-!
# What commands do

Everything that a command can do is said once, by `Command.May`: it fails with messages, prints,
or writes to the path that is meant for its output (`Command.WritesTo`). From this follows what a
run leaves behind (`run_effects`): a command that fails has changed nothing and printed nothing, and
one that succeeds has changed one file at most.
-/

namespace TwinRom

/-! ## Actions -/

/-- The path that the output of a command goes to. -/
inductive Command.WritesTo : Command → Text → Prop where
  /-- A program goes where it is said to go. -/
  | assembled (source path : Text) (format : Option Format) :
      WritesTo (.assemble source (some path) format) path
  /-- If nothing is said, a binary image goes next to its source. -/
  | beside (source : Text) {format : Option Format} (h : format.getD .bin = .bin) :
      WritesTo (.assemble source none format) (Path.defaultOutput source)
  /-- An image in another format goes where it is said to go. -/
  | rendered (image path : Text) (origin : Option Format) (format : Format) :
      WritesTo (.render image origin format (some path)) path

/-- A line that reports an error. -/
def IsErrorLine (message : String) : Prop := "error: ".toList <+: message.toList

/-- What a command can do in the end. -/
inductive Command.May (c : Command) : Action → Prop where
  | fail {messages : List String} (hne : messages ≠ []) (h : ∀ m ∈ messages, IsErrorLine m) :
      May c (.fail messages)
  | print (output : List UInt8) : May c (.print output)
  | write {path : Text} (h : c.WritesTo path) (format : Format) (content : List UInt8) :
      May c (.write path format content)

theorem isErrorLine_append (message : String) : IsErrorLine ("error: " ++ message) := by
  rw [IsErrorLine, String.toList_append]
  exact List.prefix_append _ _

/-- More text behind an error line leaves it one. -/
theorem IsErrorLine.append {message : String} (h : IsErrorLine message) (more : String) :
    IsErrorLine (message ++ more) := by
  rw [IsErrorLine, String.toList_append]
  exact h.trans (List.prefix_append _ _)

theorem Command.may_failure (c : Command) (message : String) : c.May (Reply.failure message) := by
  refine .fail (List.cons_ne_nil _ _) fun m hm => ?_
  rw [List.mem_singleton.mp hm]
  exact isErrorLine_append message

/-- An image goes to the output that the command names, or is printed. -/
theorem Command.may_deliver {c : Command} {output : Option Text}
    (h : ∀ path, output = some path → c.WritesTo path) (x : Image) (format : Format) :
    c.May (Reply.deliver x format output) := by
  cases output with
  | none => exact .print _
  | some path => exact .write (h path rfl) _ _

/-- A command that cannot load its image fails, and otherwise does what comes next. -/
theorem Command.may_withImage {c : Command} {next : Image → Action} (h : ∀ x, c.May (next x))
    (path : Text) (origin : Option Format) (content : Except FileFault (List UInt8)) :
    c.May (Reply.withImage path origin content next).action := by
  unfold Reply.withImage
  split
  next => exact c.may_failure _
  next format _ =>
    split
    next => exact c.may_failure _
    next bytes =>
      dsimp only
      split
      next x _ => exact h x
      next => exact c.may_failure _

theorem Command.may_verdict (c : Command) (x : Image) : c.May (Reply.verdict x) := by
  unfold Reply.verdict
  split
  next => exact .print _
  next invalid hne =>
    refine .fail (by simpa using hne) fun m hm => ?_
    obtain ⟨p, -, rfl⟩ := List.mem_map.mp hm
    exact isErrorLine_append _

/-- Assembling delivers the image or reports what is wrong with the source. -/
theorem Command.may_assemble (source : Text) (output : Option Text) (format : Option Format)
    (content : Except FileFault (List UInt8)) :
    (Command.assemble source output format).May
      (Reply.assemble source output format content).action := by
  unfold Reply.assemble
  split
  next => exact may_failure _ _
  next t _ =>
    dsimp only
    split
    next => exact may_failure _ _
    next x _ =>
      refine may_deliver (fun path hpath => ?_) x _
      cases output with
      | some path' =>
        obtain rfl := Option.some.inj hpath
        exact .assembled source path' format
      | none =>
        have hformat : Reply.programFormat none format = format.getD .bin := by cases format <;> rfl
        simp only [Reply.programOutput, hformat] at hpath
        split at hpath
        next hbin =>
          obtain rfl := Option.some.inj hpath
          exact .beside source (beq_iff_eq.mp hbin)
        next => cases hpath

/-- Checking a source never writes anything. -/
theorem Command.may_check (source : Text) (content : Except FileFault (List UInt8)) :
    (Command.check source).May (Reply.check source content).action := by
  unfold Reply.check
  split
  next => exact may_failure _ _
  next t _ =>
    dsimp only
    split
    next => exact .print _
    next errors hne =>
      refine .fail (by simpa using hne) fun m hm => ?_
      obtain ⟨e, -, rfl⟩ := List.mem_map.mp hm
      exact ((isErrorLine_append (String.ofList source)).append ": ").append e.message

/-- A command does what it may do, whatever it finds in its file. -/
theorem Command.may_reply (c : Command) (content : Except FileFault (List UInt8)) :
    c.May (c.reply content).action := by
  cases c with
  | assemble source output format => exact may_assemble source output format content
  | check source => exact may_check source content
  | validate image origin => exact may_withImage (may_verdict _) image origin content
  | render image origin format output =>
    refine may_withImage (fun x => may_deliver (fun path hpath => ?_) x format) image origin content
    rw [hpath]
    exact .rendered image path origin format

/-! ## Outcomes -/

section Acts

variable {disk after : Disk} {path : Text} {format : Format} {content : List UInt8}
  {fault : FileFault} (events : List Event)

theorem Action.act_write_of_ok (h : disk.write path content = .ok after) :
    (Action.write path format content).act disk events =
      ⟨0, [], [], events ++ [.wrote format path], after⟩ := by
  rw [Action.act, h]

/-- A file that cannot be written is reported, and the disk stays as it was. -/
theorem Action.act_write_of_error (h : disk.write path content = .error fault) :
    (Action.write path format content).act disk events =
      ⟨1, [], [Reply.unwritable fault], events, disk⟩ := by
  rw [Action.act, h]

end Acts

/-- What a command leaves behind on a disk. -/
structure Outcome.HasEffectsOf (o : Outcome) (c : Command) (disk : Disk) : Prop where
  status : o.exit = 0 ∨ o.exit = 1
  /-- After a failure there is nothing but errors. -/
  failed : o.exit = 1 → o.disk = disk ∧ o.stdout = [] ∧ o.stderr ≠ [] ∧
    ∀ m ∈ o.stderr, IsErrorLine m
  /-- After a success there are no errors, and at most one place has changed, which is the one that
  the path of the output leads to. It is no directory. -/
  succeeded : o.exit = 0 → o.stderr = [] ∧ (o.disk = disk ∨ ∃ path place, c.WritesTo path ∧
    disk.target path = .ok place ∧ disk.node? place ≠ some .directory ∧
      ∀ other ≠ place, o.disk.node? other = disk.node? other)

/-- What a command may do is all that can be seen of it on the disk and on the screen. -/
theorem Command.May.hasEffectsOf {c : Command} {action : Action} (h : c.May action) (disk : Disk)
    (events : List Event) : (action.act disk events).HasEffectsOf c disk := by
  cases h with
  | fail hne h => exact ⟨.inr rfl, fun _ => ⟨rfl, rfl, hne, h⟩, fun h0 => absurd h0 Nat.one_ne_zero⟩
  | print output => exact ⟨.inl rfl, fun h1 => absurd h1 Nat.zero_ne_one, fun _ => ⟨rfl, .inl rfl⟩⟩
  | @write path hpath format content =>
    cases hwrite : disk.write path content with
    | ok after =>
      rw [Action.act_write_of_ok events hwrite]
      refine ⟨.inl rfl, fun h1 => absurd h1 Nat.zero_ne_one, fun _ => ⟨rfl, .inr ?_⟩⟩
      obtain ⟨place, htarget, hnode, rfl⟩ := Disk.write_eq_ok_iff.mp hwrite
      exact ⟨path, place, hpath, htarget, hnode,
        fun other hne => Disk.node?_put_of_ne (.target htarget) hne⟩
    | error fault =>
      rw [Action.act_write_of_error events hwrite]
      refine ⟨.inr rfl, fun _ => ⟨rfl, rfl, List.cons_ne_nil _ _, fun m hm => ?_⟩,
        fun h0 => absurd h0 Nat.one_ne_zero⟩
      rw [List.mem_singleton.mp hm]
      exact isErrorLine_append s!"failed to write image: {fault.message}"

/-- A run reads one file and acts once, on the reply to what it read. -/
theorem run_eq_act {words : List Text} {c : Command}
    (h : Request.ofWords? words = some (.run c)) (disk : Disk) : run disk words =
      (c.reply (disk.read c.input)).action.act disk (c.reply (disk.read c.input)).events := by
  rw [run, h]
  rfl

/-- What a command line that asks for a command does to a disk. The exit status is 0 or 1. If it is
1, then the disk is as it was, nothing was printed, and there are errors. If it is 0, there are no
errors (the log shows its events apart from these), and at most one file has changed: the one at the
path that the output goes to. Checking a source and validating an image change nothing at all. -/
theorem run_effects (disk : Disk) {words : List Text} {c : Command}
    (h : Request.ofWords? words = some (.run c)) :
    (run disk words).HasEffectsOf c disk ∧
      ((∃ source, c = .check source) ∨ (∃ image origin, c = .validate image origin) →
        (run disk words).disk = disk) := by
  have heffects : (run disk words).HasEffectsOf c disk := by
    rw [run_eq_act h]
    exact (c.may_reply _).hasEffectsOf disk _
  refine ⟨heffects, fun hc => ?_⟩
  rcases heffects.status with h0 | h1
  · rcases (heffects.succeeded h0).2 with hsame | ⟨path, place, hpath, -⟩
    · exact hsame
    · -- neither of the two commands has a path for its output
      rcases hc with ⟨source, rfl⟩ | ⟨image, origin, rfl⟩ <;> cases hpath
  · exact (heffects.failed h1).1

/-- A conversion into a file that was not there, by a path that leads through another directory. -/
theorem run_effects_render :
    let disk : Disk := ⟨[(["i.hex".toList], .file (Utf8.encode "C0\n0a\n".toList)),
      (["d".toList], .directory)]⟩
    let words := ["render".toList, "-o".toList, "d/../t".toList, "i.hex".toList]
    let c : Command := .render "i.hex".toList none .table (some "d/../t".toList)
    Request.ofWords? words = some (.run c) ∧ (run disk words).HasEffectsOf c disk ∧
      (run disk words).exit = 0 ∧ disk.node? ["t".toList] = none ∧
      ((run disk words).disk.node? ["t".toList]).isSome = true := by
  intro disk words c
  have h : Request.ofWords? words = some (.run c) := rfl
  exact ⟨h, (run_effects disk h).1, rfl, rfl, rfl⟩

end TwinRom
