import Deblob.Fingerprint.KeyString
import Deblob.Fingerprint.Shape

/-!
# The canonical encoding of shapes

`canonical_bytes` writes a shape as compact JSON, fields and element shapes in order. The encoding
is a prefix code: every constructor has its own header, keys are read back by the string scanner,
and a closing byte can start neither an element nor a member.
-/

namespace Deblob.Fingerprint

open Core Lib

def canonicalizer : String := "deblob-canon-v1"

def emptinessStr : Emptiness → String
  | .empty => "empty"
  | .nonEmpty => "nonempty"
  | .partly => "partial"

mutual

def writeShape : Shape → List UInt8
  | .null => ascii "\x7b\"t\":\"null\"\x7d"
  | .bool => ascii "\x7b\"t\":\"bool\"\x7d"
  | .number => ascii "\x7b\"t\":\"num\"\x7d"
  | .string => ascii "\x7b\"t\":\"str\"\x7d"
  | .array elements emptiness =>
    ascii "\x7b\"t\":\"arr\",\"e\":\"" ++ (ascii (emptinessStr emptiness) ++
      (ascii "\",\"of\":[" ++ (writeShapeSet true elements ++ ascii "]\x7d")))
  | .object fields =>
    ascii "\x7b\"t\":\"obj\",\"f\":\x7b" ++ (writeFields true fields ++ ascii "\x7d\x7d")

def writeShapeSet (isFirst : Bool) : List Shape → List UInt8
  | [] => []
  | shape :: shapes =>
    (if isFirst then [] else ascii ",") ++ (writeShape shape ++ writeShapeSet false shapes)

def writeFields (isFirst : Bool) : List (String × Shape) → List UInt8
  | [] => []
  | (key, shape) :: fields =>
    (if isFirst then [] else ascii ",") ++
      ((writeJsonString key ++ (ascii ":" ++ writeShape shape)) ++ writeFields false fields)

end

def canonicalBytes (shape : Shape) : List UInt8 := writeShape shape

/-- The hashed bytes: the canonicalizer's name, a zero byte and the encoding. -/
def preimage (shape : Shape) : List UInt8 := ascii canonicalizer ++ ([0] ++ canonicalBytes shape)

def fingerprint (sha256 : Bytes → Digest) (shape : Shape) : Digest := sha256 (preimage shape)

/-! ## Unique decoding -/

/-- What a shape with this constructor begins with. -/
def header : ℕ → List UInt8
  | 0 => ascii "\x7b\"t\":\"null\"\x7d"
  | 1 => ascii "\x7b\"t\":\"bool\"\x7d"
  | 2 => ascii "\x7b\"t\":\"num\"\x7d"
  | 3 => ascii "\x7b\"t\":\"str\"\x7d"
  | 4 => ascii "\x7b\"t\":\"arr\",\"e\":\""
  | _ => ascii "\x7b\"t\":\"obj\",\"f\":\x7b"

theorem header_inj : ∀ left < 6, ∀ right < 6, header left <+: header right → left = right := by
  decide

theorem Shape.rank_lt (shape : Shape) : shape.rank < 6 := by
  cases shape <;> simp [Shape.rank]

theorem header_prefix (shape : Shape) (rest : List UInt8) :
    header shape.rank <+: writeShape shape ++ rest := by
  refine List.IsPrefix.trans ?_ (List.prefix_append _ _)
  cases shape with
  | null | bool | number | string => exact List.prefix_rfl
  | array elements emptiness => exact List.prefix_append _ _
  | object fields => exact List.prefix_append _ _

theorem rank_eq_of_append {left right : Shape} {rest tail : List UInt8}
    (heq : writeShape left ++ rest = writeShape right ++ tail) : left.rank = right.rank := by
  have hleft := header_prefix left rest
  have hright := heq ▸ header_prefix right tail
  obtain hstart | hstart := List.prefix_or_prefix_of_prefix hleft hright
  · exact header_inj _ left.rank_lt _ right.rank_lt hstart
  · exact (header_inj _ right.rank_lt _ left.rank_lt hstart).symm

theorem eq_of_rank_eq {left right : Shape} (hscalar : left.rank < 4)
    (hrank : left.rank = right.rank) : left = right := by
  cases left <;> cases right <;> first | rfl | simp [Shape.rank] at hscalar hrank

/-- The code of one field. -/
def writeField (field : String × Shape) : List UInt8 :=
  writeJsonString field.1 ++ (ascii ":" ++ writeShape field.2)

theorem writeShapeSet_eq (isFirst : Bool) (shapes : List Shape) :
    writeShapeSet isFirst shapes = separated 0x2C writeShape isFirst shapes := by
  induction shapes generalizing isFirst with
  | nil => rfl
  | cons shape shapes ih =>
      rw [writeShapeSet, separated, ih]
      rfl

theorem writeFields_eq (isFirst : Bool) (fields : List (String × Shape)) :
    writeFields isFirst fields = separated 0x2C writeField isFirst fields := by
  induction fields generalizing isFirst with
  | nil => rfl
  | cons field fields ih =>
      rw [writeFields, separated, ih]
      rfl

theorem writeShape_append_ne {byte : UInt8} (hbyte : byte ≠ 0x7B) (shape : Shape)
    (rest left : List UInt8) : writeShape shape ++ rest ≠ byte :: left := by
  cases shape <;> exact fun heq ↦ hbyte (List.cons.inj heq).1.symm

theorem writeField_append_ne {byte : UInt8} (hbyte : byte ≠ 0x22) (field : String × Shape)
    (rest left : List UInt8) : writeField field ++ rest ≠ byte :: left :=
  fun heq ↦ hbyte (List.cons.inj heq).1.symm

theorem emptinessStr_inj (left right : Emptiness)
    (hstart : ascii (emptinessStr left) <+: ascii (emptinessStr right)) : left = right := by
  revert hstart
  cases left <;> cases right <;> decide

theorem emptiness_readsBack :
    ∀ emptiness, ReadsBack (fun emptiness ↦ ascii (emptinessStr emptiness)) emptiness :=
  ReadsBack.of_incomparable emptinessStr_inj

theorem scalar_readsBack {shape : Shape} (hscalar : shape.rank < 4) :
    ReadsBack writeShape shape := by
  intro other rest left heq
  obtain rfl := eq_of_rank_eq hscalar (rank_eq_of_append heq)
  exact ⟨rfl, List.append_cancel_left heq⟩

mutual

/-- A shape is read back whatever follows it. -/
theorem writeShape_readsBack : (shape : Shape) → ReadsBack writeShape shape
  | .null | .bool | .number | .string => scalar_readsBack (by decide)
  | .array elements emptiness => by
    intro other rest left heq
    have hrank := rank_eq_of_append heq
    cases other with
    | null | bool | number | string | object fields => cases hrank
    | array others otherEmptiness =>
        rw [writeShape, writeShape] at heq
        simp only [List.append_assoc, writeShapeSet_eq] at heq
        obtain ⟨hemptiness, hset⟩ := emptiness_readsBack _ _ _ _ (List.append_cancel_left heq)
        have hclose : (0x2C : UInt8) ≠ 0x5D := by decide
        obtain ⟨helements, hend⟩ := separated_readsBack hclose
          (writeShape_append_ne (by decide)) (elements_readsBack elements)
          (List.append_cancel_left hset)
        rw [hemptiness, helements]
        exact ⟨rfl, (List.cons.inj hend).2⟩
  | .object fields => by
    intro other rest left heq
    have hrank := rank_eq_of_append heq
    cases other with
    | null | bool | number | string | array elements emptiness => cases hrank
    | object others =>
        rw [writeShape, writeShape] at heq
        simp only [List.append_assoc, writeFields_eq] at heq
        have hclose : (0x2C : UInt8) ≠ 0x7D := by decide
        obtain ⟨hfields, hend⟩ := separated_readsBack hclose
          (writeField_append_ne (by decide)) (fields_readsBack fields)
          (List.append_cancel_left heq)
        rw [hfields]
        exact ⟨rfl, (List.cons.inj hend).2⟩

theorem elements_readsBack : (shapes : List Shape) → ∀ shape ∈ shapes, ReadsBack writeShape shape
  | [] => by simp
  | shape :: shapes =>
    List.forall_mem_cons.mpr ⟨writeShape_readsBack shape, elements_readsBack shapes⟩

theorem fields_readsBack :
    (fields : List (String × Shape)) → ∀ field ∈ fields, ReadsBack writeField field
  | [] => by simp
  | (key, shape) :: fields =>
    List.forall_mem_cons.mpr
      ⟨.pair (ascii ":") (writeJsonString_readsBack key) (writeShape_readsBack shape),
        fields_readsBack fields⟩

end

theorem canonicalBytes_injective : Function.Injective canonicalBytes :=
  ReadsBack.injective writeShape_readsBack

/-- Distinct shapes have distinct encodings, so fingerprints that do not collide tell the shapes of
two documents apart; and a written key is scanned back. -/
theorem canonical_injective (sha256 : Bytes → Digest) :
    Function.Injective canonicalBytes ∧
      (∀ left right : Node,
        (sha256 (preimage (shapeOf left)) = sha256 (preimage (shapeOf right)) →
          preimage (shapeOf left) = preimage (shapeOf right)) →
        (fingerprint sha256 (shapeOf left) = fingerprint sha256 (shapeOf right) ↔
          shapeOf left = shapeOf right)) ∧
      ∀ (key : String) (rest : List UInt8),
        scanRawString (writeJsonString key ++ rest) = .ok (key, rest) := by
  refine ⟨canonicalBytes_injective, fun left right hcollision ↦ ⟨fun heq ↦ ?_, ?_⟩,
    scanRawString_writeJsonString⟩
  · have hbytes := List.append_cancel_left (List.append_cancel_left (hcollision heq))
    exact canonicalBytes_injective hbytes
  · intro heq
    rw [heq]

/-- An object with one number, and an empty array. -/
def sampleObject : Node := .object [("a", .number "1")]

def sampleArray : Node := .array [] false

/-- The digests of the two samples. -/
def sampleSha256 (bytes : Bytes) : Digest :=
  if bytes = ascii "deblob-canon-v1\x00" ++
      ascii "\x7b\"t\":\"obj\",\"f\":\x7b\"a\":\x7b\"t\":\"num\"\x7d\x7d\x7d" then
    #v[125, 244, 90, 171, 5, 70, 0, 219, 24, 214, 68, 134, 109, 150, 180, 194,
      109, 252, 242, 51, 233, 189, 164, 59, 115, 45, 47, 36, 102, 9, 183, 246]
  else if bytes = ascii "deblob-canon-v1\x00" ++
      ascii "\x7b\"t\":\"arr\",\"e\":\"empty\",\"of\":[]\x7d" then
    #v[158, 153, 110, 230, 24, 194, 13, 30, 194, 242, 46, 94, 73, 28, 161, 95,
      72, 53, 79, 182, 50, 74, 114, 42, 82, 7, 33, 10, 4, 52, 224, 224]
  else .replicate 32 0

theorem canonical_injective_sample :
    sampleSha256 (preimage (shapeOf sampleObject)) ≠ sampleSha256 (preimage (shapeOf sampleArray)) ∧
      shapeOf sampleObject ≠ shapeOf sampleArray := by
  have hdigests : sampleSha256 (preimage (shapeOf sampleObject)) ≠
      sampleSha256 (preimage (shapeOf sampleArray)) := by
    decide +kernel
  have hiff := (canonical_injective sampleSha256).2.1 sampleObject sampleArray fun heq ↦
    absurd heq hdigests
  exact ⟨hdigests, mt hiff.mpr hdigests⟩

end Deblob.Fingerprint
