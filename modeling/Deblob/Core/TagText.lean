import Deblob.Core.Identity
import Deblob.Lib.Utf8

/-!
# The text of a tag

Every tag is printable ASCII, so its text is a header value on either transport and takes one byte
a character.
-/

namespace Deblob.Core

/-- A printable ASCII character. -/
def isVisible (char : Char) : Bool := 32 ≤ char.toNat && char.toNat < 127

theorem isVisible_of_symbolValue? {char : Char}
    (hsymbol : (Lib.Base32.symbolValue? char).isSome) : isVisible char = true := by
  simp only [isVisible, Bool.and_eq_true, decide_eq_true_eq]
  unfold Lib.Base32.symbolValue? at hsymbol
  split_ifs at hsymbol
  · omega
  · omega
  · omega
  · cases hsymbol

theorem visible_asStr {tag : String} (htag : tag.toList.all isVisible = true) (id : DigestId tag) :
    id.asStr.toList.all isVisible = true := by
  obtain ⟨text, body, rfl, hbody⟩ := id
  simp only [Lib.Base32.decodesTo, Bool.and_eq_true, List.all_eq_true] at hbody
  rw [String.toList_append, List.all_append, htag, Bool.true_and, List.all_eq_true]
  exact fun char hchar ↦ isVisible_of_symbolValue? (hbody.1.2 char hchar)

theorem visible_headerValue (schemaRef : SchemaRef) :
    schemaRef.headerValue.toList.all isVisible = true := by
  cases schemaRef with
  | known id => exact visible_asStr (by decide) id
  | provisional id => exact visible_asStr (by decide) id
  | unresolved => decide
  | malformed => decide
  | tombstone => decide

theorem length_utf8_of_visible {text : String} (hvisible : text.toList.all isVisible = true) :
    (utf8 text).length = text.toList.length := by
  have hbytes : ∀ char ∈ text.toList, (String.utf8EncodeChar char).length = 1 := by
    intro char hchar
    have hrange := List.all_eq_true.mp hvisible char hchar
    simp only [isVisible, Bool.and_eq_true, decide_eq_true_eq] at hrange
    rw [Lib.utf8EncodeChar_ascii (by omega), List.length_singleton]
  unfold utf8
  rw [List.length_flatMap, List.map_congr_left hbytes]
  simp

/-- The bytes of a tag. -/
def schemaRefBytes : SchemaRef → ℕ
  | .known _ => 56
  | .provisional _ => 57
  | .unresolved => 10
  | .malformed => 9
  | .tombstone => 9

theorem length_headerValue (schemaRef : SchemaRef) :
    (utf8 schemaRef.headerValue).length = schemaRefBytes schemaRef := by
  rw [length_utf8_of_visible (visible_headerValue schemaRef)]
  cases schemaRef with
  | known id => exact id.length_asStr
  | provisional id => exact id.length_asStr
  | unresolved => rfl
  | malformed => rfl
  | tombstone => rfl

end Deblob.Core
