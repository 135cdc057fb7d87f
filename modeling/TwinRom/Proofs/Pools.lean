import TwinRom.Rom.Fragment
import Mathlib.Data.List.Basic

/-!
# Pools of fragments

Fragments are made and lengthened in a growing pool, and what a fragment is lengthened by may be
another one or the fragment itself. `Edit.applyTo` is the same change to plain lists, which hold one
part of every cell. Each of the two streams of a fragment is such a list and grows on its own
(`IsStream.map_applyAll`). Changes to plain lists commute with taking a part of each element
(`Edit.applyAllTo_map`), so the two streams are the columns of one list of pairs
(`exists_columns`).

That the streams have one length, pair up to that list and tell two fragments apart exactly where
the list does is read off from the columns (`pool_agrees_with_rows`).
-/

namespace TwinRom

/-- A cell as a pair of bytes, the opcode first. -/
def Cell.pair (c : Cell) : UInt8 × UInt8 := (c.opcode, c.data)

namespace Fragment

variable {α β : Type}

/-! ## Changes to plain lists -/

/-- Numbered lists, with `extra` behind the one of number `target`. -/
def lengthen (rows : List (List α)) (target : Nat) (extra : List α) : List (List α) :=
  match rows[target]? with
  | some row => rows.set target (row ++ extra)
  | none => rows

@[simp] theorem lengthen_nil (rows : List (List α)) (target : Nat) :
    lengthen rows target [] = rows := by
  unfold lengthen
  split
  next row h =>
    obtain ⟨hlt, rfl⟩ := List.getElem?_eq_some_iff.mp h
    rw [List.append_nil, List.set_getElem_self hlt]
  next => rfl

theorem map_lengthen (g : α → β) (rows : List (List α)) (target : Nat) (extra : List α) :
    (lengthen rows target extra).map (List.map g) =
      lengthen (rows.map (List.map g)) target (extra.map g) := by
  unfold lengthen
  rw [List.getElem?_map]
  cases rows[target]? with
  | none => rfl
  | some row => simp only [Option.map_some, List.map_set, List.map_append]

namespace Edit

/-- A change of a pool, made to numbered lists that hold `read c` for a cell `c`. -/
def applyTo (read : Cell → α) (rows : List (List α)) : Edit → List (List α)
  | .create cells => rows ++ [cells.map read]
  | .push target cell => lengthen rows target [read cell]
  | .extend target source => lengthen rows target (rows[source]?.getD [])

/-- Numbered lists after some changes. -/
def applyAllTo (read : Cell → α) (rows : List (List α)) (edits : List Edit) : List (List α) :=
  edits.foldl (applyTo read) rows

@[simp] theorem applyAllTo_nil (read : Cell → α) (rows : List (List α)) :
    applyAllTo read rows [] = rows := rfl

@[simp] theorem applyAllTo_cons (read : Cell → α) (rows : List (List α)) (e : Edit)
    (edits : List Edit) :
    applyAllTo read rows (e :: edits) = applyAllTo read (e.applyTo read rows) edits := rfl

/-- What is kept of the cells can be cut down before a change or after it. -/
theorem applyTo_map (g : α → β) (read : Cell → α) (rows : List (List α)) (e : Edit) :
    e.applyTo (g ∘ read) (rows.map (List.map g)) = (e.applyTo read rows).map (List.map g) := by
  cases e with
  | create cells => simp only [applyTo, List.map_append, List.map_map, List.map_cons, List.map_nil]
  | push target cell => exact (map_lengthen g rows target [read cell]).symm
  | extend target source =>
    rw [applyTo, applyTo, map_lengthen, List.getElem?_map]
    cases rows[source]? <;> rfl

/-- The same for any number of changes. -/
theorem applyAllTo_map (g : α → β) (read : Cell → α) (rows : List (List α)) (edits : List Edit) :
    applyAllTo (g ∘ read) (rows.map (List.map g)) edits =
      (applyAllTo read rows edits).map (List.map g) := by
  induction edits generalizing rows with
  | nil => rfl
  | cons e edits ih => rw [applyAllTo_cons, applyAllTo_cons, applyTo_map, ih]

/-! ## Changes to a pool -/

/-- The pool after some changes. -/
def applyAll (pool : List Fragment) (edits : List Edit) : List Fragment :=
  edits.foldl apply pool

@[simp] theorem applyAll_nil (pool : List Fragment) : applyAll pool [] = pool := rfl

@[simp] theorem applyAll_cons (pool : List Fragment) (e : Edit) (edits : List Edit) :
    applyAll pool (e :: edits) = applyAll (e.apply pool) edits := rfl

/-- The number of the fragment that a change is made to, if it was there before. -/
def target? : Edit → Option Nat
  | .create _ => none
  | .push target _ => some target
  | .extend target _ => some target

/-- No change removes a fragment. -/
theorem length_le_apply (pool : List Fragment) (e : Edit) :
    pool.length ≤ (e.apply pool).length := by
  cases e with
  | create cells => simp [apply]
  | push target cell => simp [apply]
  | extend target source =>
    rw [apply]
    split <;> simp

/-- A change leaves every fragment as it is but its target. -/
theorem getElem?_apply_of_ne {pool : List Fragment} {e : Edit} {i : Nat} (hi : i < pool.length)
    (he : e.target? ≠ some i) : (e.apply pool)[i]? = pool[i]? := by
  cases e with
  | create cells => exact List.getElem?_append_left hi
  | push target cell => exact List.getElem?_modify_ne _ _ fun h => he (congrArg some h)
  | extend target source =>
    rw [apply]
    split
    next g _ => exact List.getElem?_modify_ne _ _ fun h => he (congrArg some h)
    next => rfl

/-- A fragment stays as it is while only others are changed. -/
theorem getElem?_applyAll_of_ne {pool : List Fragment} {edits : List Edit} {i : Nat}
    (hi : i < pool.length) (h : ∀ e ∈ edits, e.target? ≠ some i) :
    (applyAll pool edits)[i]? = pool[i]? := by
  induction edits generalizing pool with
  | nil => rfl
  | cons e edits ih =>
    obtain ⟨he, hedits⟩ := List.forall_mem_cons.mp h
    rw [applyAll_cons, ih (Nat.lt_of_lt_of_le hi (length_le_apply pool e)) hedits,
      getElem?_apply_of_ne hi he]

end Edit

/-! ## The streams of a pool -/

/-- A stream of fragments that holds `read c` for a cell `c`. -/
structure IsStream (read : Cell → α) (stream : Fragment → List α) : Prop where
  ofCells : ∀ cells, stream (ofCells cells) = cells.map read
  push : ∀ f c, stream (f.push c) = stream f ++ [read c]
  append : ∀ f g : Fragment, stream (f ++ g) = stream f ++ stream g

theorem isStream_instructions : IsStream Cell.opcode instructions :=
  ⟨fun _ => rfl, fun _ _ => rfl, fun _ _ => rfl⟩

theorem isStream_data : IsStream Cell.data data :=
  ⟨fun _ => rfl, fun _ _ => rfl, fun _ _ => rfl⟩

/-- Lengthening one fragment of a pool lengthens its stream and no other. -/
theorem map_modify_eq_lengthen {stream : Fragment → List α} {change : Fragment → Fragment}
    {extra : List α} (h : ∀ f, stream (change f) = stream f ++ extra) (pool : List Fragment)
    (target : Nat) :
    (pool.modify target change).map stream = lengthen (pool.map stream) target extra := by
  rw [List.modify_eq_set_getElem?, lengthen, List.getElem?_map]
  cases pool[target]? with
  | none => rfl
  | some f =>
    change (pool.set target (change f)).map stream = _
    rw [List.map_set, h]
    rfl

namespace IsStream

variable {read : Cell → α} {stream : Fragment → List α}

/-- A change to the pool is the same change to a stream of its own. -/
theorem map_apply (h : IsStream read stream) (pool : List Fragment) (e : Edit) :
    (e.apply pool).map stream = e.applyTo read (pool.map stream) := by
  cases e with
  | create cells =>
    simp only [Edit.apply, Edit.applyTo, List.map_append, List.map_cons, List.map_nil, h.ofCells]
  | push target cell => exact map_modify_eq_lengthen (fun f => h.push f cell) pool target
  | extend target source =>
    rw [Edit.apply, Edit.applyTo, List.getElem?_map]
    cases pool[source]? with
    | none => exact (lengthen_nil _ target).symm
    | some g =>
      -- `g` is the source before the change, also where it is the target itself
      exact map_modify_eq_lengthen (fun f => h.append f g) pool target

/-- So a stream can be followed through any number of changes without the other one. -/
theorem map_applyAll (h : IsStream read stream) (pool : List Fragment) (edits : List Edit) :
    (Edit.applyAll pool edits).map stream = Edit.applyAllTo read (pool.map stream) edits := by
  induction edits generalizing pool with
  | nil => rfl
  | cons e edits ih => rw [Edit.applyAll_cons, Edit.applyAllTo_cons, ih, h.map_apply]

end IsStream

/-! ## The two streams side by side -/

/-- The streams of the fragments of a pool are the first and the second column of the lists of
pairs. -/
theorem map_streams_applyAll (edits : List Edit) :
    (Edit.applyAll [] edits).map instructions =
        (Edit.applyAllTo Cell.pair [] edits).map (List.map Prod.fst) ∧
      (Edit.applyAll [] edits).map data =
        (Edit.applyAllTo Cell.pair [] edits).map (List.map Prod.snd) :=
  ⟨(isStream_instructions.map_applyAll [] edits).trans
      (Edit.applyAllTo_map Prod.fst Cell.pair [] edits),
    (isStream_data.map_applyAll [] edits).trans (Edit.applyAllTo_map Prod.snd Cell.pair [] edits)⟩

/-- The two streams of a fragment, as columns of the list of its number. -/
theorem exists_columns {edits : List Edit} {i : Nat} {f : Fragment}
    (h : (Edit.applyAll [] edits)[i]? = some f) :
    ∃ row, (Edit.applyAllTo Cell.pair [] edits)[i]? = some row ∧
      row.map Prod.fst = f.instructions ∧ row.map Prod.snd = f.data := by
  obtain ⟨hops, hdata⟩ := map_streams_applyAll edits
  have hfst := congrArg (·[i]?) hops
  have hsnd := congrArg (·[i]?) hdata
  simp only [List.getElem?_map, h, Option.map_some] at hfst hsnd
  obtain ⟨row, hrow, hrow_fst⟩ := Option.map_eq_some_iff.mp hfst.symm
  rw [hrow] at hsnd
  exact ⟨row, hrow, hrow_fst, (Option.some.inj hsnd).symm⟩

/-- The two streams of a fragment have one length, and paired up they are its list. -/
theorem aligned_and_getElem?_rows {edits : List Edit} {i : Nat} {f : Fragment}
    (h : (Edit.applyAll [] edits)[i]? = some f) :
    f.instructions.length = f.data.length ∧
      (Edit.applyAllTo Cell.pair [] edits)[i]? = some (f.instructions.zip f.data) := by
  -- both columns are as long as the list, so the type's own promise of one length is not needed
  obtain ⟨row, hrow, hfst, hsnd⟩ := exists_columns h
  refine ⟨?_, hrow.trans (congrArg some (List.zip_of_prod hfst hsnd))⟩
  rw [← hfst, ← hsnd, List.length_map, List.length_map]

/-- Fragments are equal exactly if their lists are. -/
theorem eq_iff_rows_eq {edits : List Edit} {i j : Nat} {f g : Fragment}
    (hf : (Edit.applyAll [] edits)[i]? = some f) (hg : (Edit.applyAll [] edits)[j]? = some g) :
    f = g ↔ (Edit.applyAllTo Cell.pair [] edits)[i]? =
      (Edit.applyAllTo Cell.pair [] edits)[j]? := by
  obtain ⟨row, hrow, hfst, hsnd⟩ := exists_columns hf
  obtain ⟨row', hrow', hfst', hsnd'⟩ := exists_columns hg
  rw [hrow, hrow', Option.some_inj]
  constructor
  · rintro rfl
    exact (List.zip_of_prod hfst hsnd).trans (List.zip_of_prod hfst' hsnd').symm
  · rintro rfl
    exact Fragment.ext (hfst.symm.trans hfst') (hsnd.symm.trans hsnd')

/-- A fragment is a list of pairs. After any changes to a pool that was empty, each stream is what
the changes make of a list of its own, the two streams of a fragment have one length, and side by
side they are what the same changes make of plain lists of pairs. Two fragments of the pool are
equal exactly when these lists are, and a fragment stays as it is while only others are changed. -/
theorem pool_agrees_with_rows (edits : List Edit) :
    let pool := Edit.applyAll [] edits
    let rows := Edit.applyAllTo Cell.pair [] edits
    pool.map instructions = Edit.applyAllTo Cell.opcode [] edits ∧
      pool.map data = Edit.applyAllTo Cell.data [] edits ∧
      pool.length = rows.length ∧
      (∀ (i : Nat) (f : Fragment), pool[i]? = some f → f.instructions.length = f.data.length ∧
        rows[i]? = some (f.instructions.zip f.data)) ∧
      (∀ (i j : Nat) (f g : Fragment), pool[i]? = some f → pool[j]? = some g →
        (f = g ↔ rows[i]? = rows[j]?)) ∧
      ∀ (i : Nat) (later : List Edit), i < pool.length → (∀ e ∈ later, e.target? ≠ some i) →
        (Edit.applyAll pool later)[i]? = pool[i]? := by
  intro pool rows
  have hlen := congrArg List.length (map_streams_applyAll edits).1
  rw [List.length_map, List.length_map] at hlen
  exact ⟨isStream_instructions.map_applyAll [] edits, isStream_data.map_applyAll [] edits, hlen,
    fun _ _ h => aligned_and_getElem?_rows h, fun _ _ _ _ hf hg => eq_iff_rows_eq hf hg,
    fun _ _ hi h => Edit.getElem?_applyAll_of_ne hi h⟩

/-- Two fragments that come to the same four pairs, one doubled and the other put together from
pieces. The second stays while the first is doubled once more. -/
theorem pool_agrees_with_rows_doubled :
    let edits : List Edit := [.create [⟨5, 0⟩, ⟨7, 1⟩], .create [], .push 1 ⟨5, 0⟩,
      .push 1 ⟨7, 1⟩, .extend 1 0, .extend 0 0]
    let pool := Edit.applyAll [] edits
    ∃ f g, pool[0]? = some f ∧ pool[1]? = some g ∧
      f.instructions.length = f.data.length ∧
      f.instructions.zip f.data = [(5, 0), (7, 1), (5, 0), (7, 1)] ∧ f = g ∧
      (∀ e ∈ [Edit.extend 0 0, .create [⟨9, 9⟩], .extend 0 1], e.target? ≠ some 1) ∧
      (Edit.applyAll pool [.extend 0 0, .create [⟨9, 9⟩], .extend 0 1])[1]? = some g := by
  intro edits pool
  obtain ⟨-, -, -, hzip, heq, hkept⟩ := pool_agrees_with_rows edits
  have hf : pool[0]? = some pool[0] := rfl
  have hg : pool[1]? = some pool[1] := rfl
  have hothers : ∀ e ∈ [Edit.extend 0 0, .create [⟨9, 9⟩], .extend 0 1],
      e.target? ≠ some 1 := by decide
  obtain ⟨hlen, hrow⟩ := hzip 0 _ hf
  exact ⟨pool[0], pool[1], hf, hg, hlen, (Option.some.inj hrow).symm, (heq 0 1 _ _ hf hg).mpr rfl,
    hothers, hkept 1 _ (by decide) hothers⟩

end Fragment

end TwinRom
