/-!
# Fragments

A fragment is a piece of code: an opcode stream and a data stream of one length. Position by
position it is a row of cells, and `Fragment.cells` is that view. Every operation is described
by what it does to the cells, and two fragments with the same cells are equal
(`Fragment.cells_inj`).
-/

namespace TwinRom

/-- One position of a ROM. -/
structure Cell where
  /-- The byte of the instruction stream. -/
  opcode : UInt8
  /-- The byte of the data stream. -/
  data : UInt8
  deriving DecidableEq, Repr

/-- Two streams of one length. -/
@[ext] structure Fragment where
  /-- The instruction stream. -/
  instructions : List UInt8
  /-- The data stream. -/
  data : List UInt8
  /-- The streams belong together position by position. -/
  aligned : instructions.length = data.length
  deriving DecidableEq

namespace Fragment

/-- The number of positions. -/
def length (f : Fragment) : Nat := f.instructions.length

/-- The cells of a fragment, in order. -/
def cells (f : Fragment) : List Cell :=
  (f.instructions.zip f.data).map fun p => ⟨p.1, p.2⟩

@[simp] theorem length_cells (f : Fragment) : f.cells.length = f.length := by
  simp [cells, length, f.aligned]

/-! ## Building -/

/-- The fragment without a position. -/
def empty : Fragment := ⟨[], [], rfl⟩

/-- The fragment with the given cells. -/
def ofCells (cells : List Cell) : Fragment :=
  ⟨cells.map Cell.opcode, cells.map Cell.data, by simp⟩

/-- A fragment with one cell more at its end. -/
def push (f : Fragment) (c : Cell) : Fragment :=
  ⟨f.instructions ++ [c.opcode], f.data ++ [c.data], by simp [f.aligned]⟩

/-- A fragment followed by another. -/
def append (f g : Fragment) : Fragment :=
  ⟨f.instructions ++ g.instructions, f.data ++ g.data, by simp [f.aligned, g.aligned]⟩

instance : Append Fragment := ⟨append⟩

@[simp] theorem instructions_append (f g : Fragment) :
    (f ++ g).instructions = f.instructions ++ g.instructions := rfl

@[simp] theorem data_append (f g : Fragment) : (f ++ g).data = f.data ++ g.data := rfl

/-! ## The cells of what is built -/

@[simp] theorem cells_empty : empty.cells = [] := rfl

@[simp] theorem cells_ofCells (cs : List Cell) : (ofCells cs).cells = cs := by
  simp [cells, ofCells, List.zip_map', Function.comp_def]

@[simp] theorem cells_append (f g : Fragment) : (f ++ g).cells = f.cells ++ g.cells := by
  simp [cells, List.zip_append f.aligned]

@[simp] theorem cells_push (f : Fragment) (c : Cell) : (f.push c).cells = f.cells ++ [c] := by
  simp [cells, push, List.zip_append f.aligned]

/-- The opcodes of the cells are the instruction stream. -/
theorem map_opcode_cells (f : Fragment) : f.cells.map Cell.opcode = f.instructions := by
  rw [cells, List.map_map]
  exact List.map_fst_zip (Nat.le_of_eq f.aligned)

/-- The data bytes of the cells are the data stream. -/
theorem map_data_cells (f : Fragment) : f.cells.map Cell.data = f.data := by
  rw [cells, List.map_map]
  exact List.map_snd_zip (Nat.le_of_eq f.aligned.symm)

/-- A fragment is its cells. -/
theorem cells_inj {f g : Fragment} : f.cells = g.cells ↔ f = g := by
  constructor
  · intro h
    ext1
    · rw [← f.map_opcode_cells, h, g.map_opcode_cells]
    · rw [← f.map_data_cells, h, g.map_data_cells]
  · exact congrArg cells

@[simp] theorem length_append (f g : Fragment) : (f ++ g).length = f.length + g.length := by
  rw [← length_cells, cells_append, List.length_append, length_cells, length_cells]

/-! ## A pool of fragments -/

/-- A change to a growing pool of fragments, which are numbered from zero. -/
inductive Edit where
  /-- A new fragment with the given cells. -/
  | create (cells : List Cell)
  /-- One cell more at the end of the fragment `target`. -/
  | push (target : Nat) (cell : Cell)
  /-- The fragment `source`, as it is now, at the end of the fragment `target`. -/
  | extend (target source : Nat)
  deriving DecidableEq

/-- The pool after a change. A change to a number that is not in the pool does nothing. -/
def Edit.apply (pool : List Fragment) : Edit → List Fragment
  | .create cells => pool ++ [ofCells cells]
  | .push target cell => pool.modify target fun f => f.push cell
  | .extend target source =>
    match pool[source]? with
    | some g => pool.modify target fun f => f ++ g
    | none => pool

end Fragment

end TwinRom
