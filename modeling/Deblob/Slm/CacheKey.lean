import Deblob.Cold.SampleCapture
import Deblob.Core.FamilyText
import Deblob.Core.TagText
import Deblob.Lib.JoinedCodes
import Deblob.Lib.Utf8

/-!
# Cache keys

A decision is cached under the digest of the model, the version of the contract, the retrieved
families and the prompt. The parts are written one after the other with a zero byte behind most of
them. Without a NUL in the name of the model and with families whose names are parsed, the hashed
bytes determine every part.
-/

namespace Deblob.Slm

open Core Lib
open Cold (littleEndian littleEndian_inj_of_lt length_littleEndian)
open Fingerprint (hexLower)

/-- A retrieved family with the machine numbers that are hashed; the distance is its bits. -/
structure HashedCandidate where
  familyId : FamilyId
  schemaId : SchemaId
  version : UInt32
  distance : UInt32
  rank : UInt32
deriving DecidableEq

def uint32Bytes (number : UInt32) : Bytes := littleEndian 4 number.toNat

def candidateBytes (candidate : HashedCandidate) : Bytes :=
  utf8 candidate.schemaId.asStr ++ (utf8 candidate.familyId.asStr ++
    (uint32Bytes candidate.version ++ (uint32Bytes candidate.rank ++
      (uint32Bytes candidate.distance ++ [0]))))

def cachePreimage (model : String) (contractVersion : UInt32)
    (candidates : List HashedCandidate) (prompt : String) : Bytes :=
  utf8 model ++ 0 :: (uint32Bytes contractVersion ++ 0 ::
    (candidates.flatMap candidateBytes ++ 0 :: utf8 prompt))

def cacheKey (sha256 : Bytes → Digest) (model : String) (contractVersion : UInt32)
    (candidates : List HashedCandidate) (prompt : String) : String :=
  hexLower (sha256 (cachePreimage model contractVersion candidates prompt))

/-! ## The parts are read back -/

theorem uint32Bytes_readsBackOn : ReadsBackOn (fun _ ↦ True) uint32Bytes :=
  .of_length (fun _ _ _ _ ↦ by simp [uint32Bytes]) fun left right _ _ heq ↦
    UInt32.toNat_inj.mp (littleEndian_inj_of_lt left.toNat_lt right.toNat_lt heq)

theorem schemaId_readsBackOn :
    ReadsBackOn (fun _ : SchemaId ↦ True) fun id ↦ utf8 id.asStr := by
  have hlength (id : SchemaId) : (utf8 id.asStr).length = 56 := by
    rw [length_utf8_of_visible (visible_asStr (by decide) id)]
    exact id.length_asStr
  exact .of_length (fun left right _ _ ↦ (hlength left).trans (hlength right).symm)
    fun _ _ _ _ heq ↦ DigestId.asStr_injective (utf8_injective heq)

theorem familyId_readsBackOn : ReadsBackOn FamilyId.Parsed fun family ↦ utf8 family.asStr := by
  intro family other hfamily hother rest left heq
  have hsame : family = other := by
    rcases prefix_or_prefix_of_encode heq with hprefix | hprefix
    · exact hfamily.eq_of_prefix hother hprefix
    · exact (hother.eq_of_prefix hfamily hprefix).symm
  subst hsame
  exact ⟨rfl, List.append_cancel_left heq⟩

theorem candidateBytes_readsBackOn :
    ReadsBackOn (fun candidate : HashedCandidate ↦ candidate.familyId.Parsed) candidateBytes := by
  intro candidate other hcandidate hother rest left heq
  simp only [candidateBytes, List.append_assoc] at heq
  obtain ⟨hschema, heq⟩ := schemaId_readsBackOn _ _ trivial trivial _ _ heq
  obtain ⟨hfamily, heq⟩ := familyId_readsBackOn _ _ hcandidate hother _ _ heq
  obtain ⟨hversion, heq⟩ := uint32Bytes_readsBackOn _ _ trivial trivial _ _ heq
  obtain ⟨hrank, heq⟩ := uint32Bytes_readsBackOn _ _ trivial trivial _ _ heq
  obtain ⟨hdistance, heq⟩ := uint32Bytes_readsBackOn _ _ trivial trivial _ _ heq
  refine ⟨?_, List.append_cancel_left heq⟩
  cases candidate
  cases other
  simp_all

/-- The bytes of a candidate begin with its schema. -/
theorem candidateBytes_ne_zero (candidate : HashedCandidate) (rest left : Bytes) :
    candidateBytes candidate ++ rest ≠ 0 :: left := by
  obtain ⟨family, ⟨text, body, rfl, hbody⟩, version, distance, rank⟩ := candidate
  intro heq
  have hschema : utf8 ("sch_" ++ body) = 115 :: ([99, 104, 95] ++ utf8 body) := by
    rw [utf8, String.toList_append, List.flatMap_append]
    rfl
  rw [candidateBytes, hschema] at heq
  exact absurd (List.cons.inj heq).1 (by decide)

/-- A text without NUL is read back up to a zero byte. -/
theorem text_readsBack {text other : String} (htext : '\x00' ∉ text.toList)
    (hother : '\x00' ∉ other.toList) {rest left : Bytes}
    (heq : utf8 text ++ 0 :: rest = utf8 other ++ 0 :: left) : text = other ∧ rest = left := by
  have hchars : ReadsBackOn (fun char ↦ char ≠ '\x00') String.utf8EncodeChar :=
    fun char other _ _ rest left heq ↦ utf8EncodeChar_append_inj heq
  have hopen (char : Char) (hchar : char ≠ '\x00') (rest left : Bytes) :
      String.utf8EncodeChar char ++ rest ≠ 0 :: left := by
    intro heq
    have hnul : String.utf8EncodeChar '\x00' = [0] := by decide
    have hzero : 0 :: left = String.utf8EncodeChar '\x00' ++ left := by rw [hnul]; rfl
    exact hchar (utf8EncodeChar_append_inj (heq.trans hzero)).1
  have hno {text : String} (htext : '\x00' ∉ text.toList) : ∀ char ∈ text.toList, char ≠ '\x00' :=
    fun char hchar heq ↦ htext (heq ▸ hchar)
  obtain ⟨hsame, hrest⟩ := hchars.closed hopen (hno htext) (hno hother) heq
  exact ⟨String.toList_inj.mp hsame, hrest⟩

theorem cachePreimage_inj {model other : String} {version otherVersion : UInt32}
    {candidates others : List HashedCandidate} {prompt otherPrompt : String}
    (hmodel : '\x00' ∉ model.toList) (hother : '\x00' ∉ other.toList)
    (hcandidates : ∀ candidate ∈ candidates, candidate.familyId.Parsed)
    (hothers : ∀ candidate ∈ others, candidate.familyId.Parsed)
    (heq : cachePreimage model version candidates prompt =
      cachePreimage other otherVersion others otherPrompt) :
    model = other ∧ version = otherVersion ∧ candidates = others ∧ prompt = otherPrompt := by
  obtain ⟨hmodel, heq⟩ := text_readsBack hmodel hother heq
  obtain ⟨hversion, heq⟩ := uint32Bytes_readsBackOn _ _ trivial trivial _ _ heq
  obtain ⟨hcandidates, heq⟩ := candidateBytes_readsBackOn.closed
    (fun candidate _ ↦ candidateBytes_ne_zero candidate) hcandidates hothers
    (List.cons.inj heq).2
  exact ⟨hmodel, hversion, hcandidates, utf8_injective heq⟩

theorem cachePreimage_eq_of_cacheKey {sha256 : Bytes → Digest} {model other : String}
    {version otherVersion : UInt32} {candidates others : List HashedCandidate}
    {prompt otherPrompt : String}
    (heq : cacheKey sha256 model version candidates prompt =
      cacheKey sha256 other otherVersion others otherPrompt) :
    sha256 (cachePreimage model version candidates prompt) =
      sha256 (cachePreimage other otherVersion others otherPrompt) := by
  have hbytes := Semantic.Signature.hexChars_injective (String.ofList_injective heq)
  exact Vector.toList_inj.mp hbytes

end Deblob.Slm
