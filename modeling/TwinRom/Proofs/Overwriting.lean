import TwinRom.Rom.Binary

/-!
# Images written over something

A binary image is written stream by stream, each at its place. What is written to may be empty,
shorter than an image or longer, and grows as needed. Of a way to write at a position only three
things are used (`Binary.WritesAt`): how long the result is, that the bytes are there, and that
nothing else has changed. Whatever was there before, the result is then the image and behind it what
lay beyond its end (`Binary.WritesAt.overwrite_eq`).
-/

namespace TwinRom.Binary

/-- A way to write bytes at a position: they replace what is there, everything else stays, and what
is too short grows. What fills a gap before the position is left open. -/
structure WritesAt (write : Nat → List UInt8 → List UInt8 → List UInt8) : Prop where
  length_eq : ∀ position bytes out, bytes ≠ [] →
    (write position bytes out).length = max out.length (position + bytes.length)
  written : ∀ position bytes out i, i < bytes.length →
    (write position bytes out)[position + i]? = bytes[i]?
  kept : ∀ position bytes out i, i < position ∨ position + bytes.length ≤ i → i < out.length →
    (write position bytes out)[i]? = out[i]?

variable {write : Nat → List UInt8 → List UInt8 → List UInt8}

/-- Two blocks of bytes, one behind the other, replace the start of what was there. -/
theorem WritesAt.write_write (h : WritesAt write) {front back : List UInt8} (hfront : front ≠ [])
    (hback : back ≠ []) (out : List UInt8) : write front.length back (write 0 front out) =
      front ++ back ++ out.drop (front ++ back).length := by
  have hlen := h.length_eq 0 front out hfront
  have hlen' := h.length_eq front.length back (write 0 front out) hback
  rw [Nat.zero_add] at hlen
  refine List.ext_getElem? fun i => ?_
  rcases Nat.lt_or_ge i front.length with hi | hi
  · -- in the first block, which the second write keeps
    have hfirst := h.written 0 front out i hi
    rw [Nat.zero_add] at hfirst
    rw [h.kept _ back _ i (.inl hi) (by omega), hfirst, List.append_assoc,
      List.getElem?_append_left hi]
  · obtain ⟨j, rfl⟩ := Nat.exists_eq_add_of_le hi
    rcases Nat.lt_or_ge j back.length with hj | hj
    · rw [h.written _ back _ j hj, List.append_assoc, List.getElem?_append_right hi,
        Nat.add_sub_cancel_left, List.getElem?_append_left hj]
    · -- behind both blocks, where neither write reaches
      have hdrop : (front ++ back ++ out.drop (front ++ back).length)[front.length + j]? =
          out[front.length + j]? := by
        have hle : (front ++ back).length ≤ front.length + j := by
          rw [List.length_append]
          omega
        rw [List.getElem?_append_right hle, List.getElem?_drop, Nat.add_sub_cancel' hle]
      rw [hdrop]
      rcases Nat.lt_or_ge (front.length + j) out.length with hin | hout
      · rw [h.kept _ back _ _ (.inr (by omega)) (by omega),
          h.kept 0 front out _ (.inr (by omega)) hin]
      · rw [List.getElem?_eq_none hout, List.getElem?_eq_none (by omega)]

/-- Both streams of an image replace the start of what was there. -/
theorem WritesAt.overwrite_eq (h : WritesAt write) (x : Image) (out : List UInt8) :
    write 256 x.data.toList (write 0 x.instructions.toList out) = render x ++ out.drop 512 := by
  have hne : ∀ v : Vector UInt8 256, v.toList ≠ [] := fun v hv => by
    have hlen : v.toList.length = 256 := by simp
    simp [hv] at hlen
  have hwrite := h.write_write (hne x.instructions) (hne x.data) out
  have hlen : x.instructions.toList.length = 256 := by simp
  rwa [hlen, ← render, length_render] at hwrite

theorem writesAt_writeAt : WritesAt writeAt := by
  have hpad : ∀ (position : Nat) (out : List UInt8),
      ((out.rightpad position 0).take position).length = position := by
    intro position out
    simp only [List.length_take, List.rightpad, List.length_append, List.length_replicate]
    omega
  refine ⟨fun position bytes out _ => ?_, fun position bytes out i hi => ?_,
    fun position bytes out i hi hout => ?_⟩
  · rw [writeAt, List.length_append, List.length_append, hpad, List.length_drop]
    omega
  · rw [writeAt, List.append_assoc, List.getElem?_append_right (by rw [hpad]; omega), hpad,
      Nat.add_sub_cancel_left, List.getElem?_append_left hi]
  · rw [writeAt, List.append_assoc]
    rcases hi with hi | hi
    · rw [List.getElem?_append_left (by rw [hpad]; exact hi), List.getElem?_take_of_lt hi,
        List.rightpad, List.getElem?_append_left hout]
    · rw [List.getElem?_append_right (by rw [hpad]; omega), hpad,
        List.getElem?_append_right (by omega), List.getElem?_drop]
      congr 1
      omega

end TwinRom.Binary
