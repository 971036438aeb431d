import Deblob.Core.Identity
import Deblob.Fingerprint.Shape
import Mathlib.Data.Nat.Log

/-!
# Buckets of the structural index

A shape is indexed under a bucket that is named after its number of fields, its depth and a hash of
its keys. The indexing side and the looking-up side derive the name from a summary of the shape.
-/

namespace Deblob.Fingerprint

open Core Lib

structure ShapeSummary where
  topLevelFields : ℕ
  depth : ℕ
  topKeysSorted : List String

mutual

def shapeDepth : Shape → ℕ
  | .null | .bool | .number | .string => 1
  | .array elements _ => 1 + elementsDepth elements
  | .object fields => 1 + fieldsDepth fields

def elementsDepth : List Shape → ℕ
  | [] => 0
  | shape :: shapes => max (shapeDepth shape) (elementsDepth shapes)

def fieldsDepth : List (String × Shape) → ℕ
  | [] => 0
  | (_, shape) :: fields => max (shapeDepth shape) (fieldsDepth fields)

end

def summarize (shape : Shape) : ShapeSummary :=
  match shape with
  | .object fields => ⟨fields.length, shapeDepth shape, fields.map Prod.fst⟩
  | _ => ⟨0, shapeDepth shape, []⟩

/-- The next power of two as 32 bits, zero for no fields. -/
def fieldband (topLevelFields : ℕ) : ℕ :=
  if topLevelFields = 0 then 0 else 2 ^ Nat.clog 2 topLevelFields % 2 ^ 32

def hexChars (bytes : Bytes) : List Char :=
  bytes.flatMap fun byte ↦ [Nat.digitChar (byte.toNat / 16), Nat.digitChar (byte.toNat % 16)]

/-- The lowercase hex text of a digest. -/
def hexLower (digest : Digest) : String := String.ofList (hexChars digest.toList)

def reqhash8 (sha256 : Bytes → Digest) (topKeysSorted : List String) : String :=
  String.ofList ((hexChars (sha256 (utf8 (String.intercalate "\x00" topKeysSorted))).toList).take 8)

def bucketKey (sha256 : Bytes → Digest) (summary : ShapeSummary) : String :=
  "deblob:index:" ++ toString (fieldband summary.topLevelFields) ++ ":" ++
    toString summary.depth ++ ":" ++ reqhash8 sha256 summary.topKeysSorted

/-! ## The characters of a bucket key -/

theorem eq_notMem_toDigits (number : ℕ) : '=' ∉ Nat.toDigits 10 number := by
  intro hmem
  have hdigit := Nat.isDigit_of_mem_toDigits (b := 10) (by decide) (by decide) hmem
  exact absurd hdigit (by decide)

theorem eq_notMem_hexChars (bytes : Bytes) : '=' ∉ hexChars bytes := by
  have hdigit : ∀ digit < 16, Nat.digitChar digit ≠ '=' := by decide
  intro hmem
  rcases List.mem_flatMap.mp hmem with ⟨byte, -, hbyte⟩
  have hbound : byte.toNat < 256 := byte.toNat_lt
  rcases List.mem_cons.mp hbyte with heq | hbyte
  · exact hdigit _ (by omega) heq.symm
  · exact hdigit _ (by omega) (List.mem_singleton.mp hbyte).symm

/-- The characters after the family of the index keys. -/
theorem toList_bucketKey (sha256 : Bytes → Digest) (summary : ShapeSummary) :
    (bucketKey sha256 summary).toList = "deblob:index:".toList ++
      (Nat.toDigits 10 (fieldband summary.topLevelFields) ++ (':' ::
        (Nat.toDigits 10 summary.depth ++
          (':' :: (reqhash8 sha256 summary.topKeysSorted).toList)))) := by
  have hkey : bucketKey sha256 summary =
      "deblob:index:" ++ toString (fieldband summary.topLevelFields) ++ ":" ++
        toString summary.depth ++ ":" ++ reqhash8 sha256 summary.topKeysSorted := rfl
  rw [hkey]
  simp only [String.toList_append, Nat.toString_eq_repr, Nat.toList_repr, List.append_assoc]
  rfl

theorem eq_notMem_bucketKey (sha256 : Bytes → Digest) (summary : ShapeSummary) :
    '=' ∉ (bucketKey sha256 summary).toList := by
  have hhash : '=' ∉ (reqhash8 sha256 summary.topKeysSorted).toList := by
    rw [reqhash8, String.toList_ofList]
    exact fun hmem ↦ eq_notMem_hexChars _ (List.mem_of_mem_take hmem)
  have hindex : '=' ∉ "deblob:index:".toList := by decide
  have hcolon : '=' ≠ ':' := by decide
  simp only [toList_bucketKey, List.mem_append, List.mem_cons, hhash, hindex, hcolon,
    eq_notMem_toDigits, or_self, not_false_eq_true]

end Deblob.Fingerprint
