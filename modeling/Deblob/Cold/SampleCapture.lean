import Deblob.Core.TagText
import Deblob.Dlp.Redact
import Deblob.Lib.Bytes
import Deblob.Redis.Samples
import Deblob.Redis.SourceRegistry
import Deblob.Semantic.Signature

/-!
# Captured samples

The cold lane keeps a redacted sample of a message whose source is trusted. Its identifier is a
digest of the source and of the coordinates the message was observed at, so that a message that is
read again is the same sample. Parsing and writing JSON are parameters.
-/

namespace Deblob.Cold

open Core Redis

structure SampleCaptureCfg where
  enabled : Bool
  captureSources : List String
  maxInputBytes : ℕ
  maxSampleBytes : ℕ
  dlp : Dlp.DlpConfig

def SampleCaptureCfg.sourceAllowed (cfg : SampleCaptureCfg) (source : String) : Bool :=
  cfg.enabled && cfg.captureSources.any (· == source)

/-- `to_le_bytes` of a number of `width` bytes. -/
def littleEndian (width number : ℕ) : Bytes := (Lib.bigEndian width number).reverse

def samplePreimage (sourceId : SourceId) (topic : String) (partition offset : ℕ) : Bytes :=
  utf8 "deblob-sample-v1" ++ [0] ++ (utf8 sourceId.asStr ++ ([0] ++ (utf8 topic ++
    ([0] ++ littleEndian 4 partition ++ littleEndian 8 offset))))

variable (sha256 : Bytes → Digest)

/-- The first half of a digest. -/
def halfDigest (bytes : Bytes) : Bytes := (sha256 bytes).toList.take 16

def sampleId (sourceId : SourceId) (topic : String) (partition offset : ℕ) : String :=
  "smp_" ++ Semantic.Signature.hexEncode
    (halfDigest sha256 (samplePreimage sourceId topic partition offset))

/-- What a sample carries besides its identifier and its candidate. -/
structure SampleBody where
  sourceId : SourceId
  capturedAtMs : ℤ
  dlpVersion : String
  redactionCounts : Dlp.RedactionCounts
  truncated : Bool
  document : Dlp.Document

/-- The JSON text of documents. -/
structure DocumentJson where
  fromSlice : Bytes → Option Dlp.Document
  toVec : Dlp.Document → Bytes

variable (detectors : Dlp.Detectors) (json : DocumentJson) (cfg : SampleCaptureCfg)

/-- The sample of a message, or none: its source is not trusted, it is too large or no JSON, its
redaction was dropped, or the redacted document is too large. -/
def buildSample (source topic : String) (partition offset : ℕ) (candidateId : CandidateId)
    (rawPayload : Bytes) (capturedAtMs : ℤ) : Option (SampleRecord SampleBody) :=
  if !cfg.sourceAllowed source then none
  else if rawPayload.length > cfg.maxInputBytes then none
  else
    (json.fromSlice rawPayload).bind fun value ↦
      let outcome := Dlp.redact detectors cfg.dlp value
      if outcome.dropped.isSome then none
      else if (json.toVec outcome.document).length > cfg.maxSampleBytes then none
      else
        let sourceId := SourceId.fromSource sha256 source
        some
          { sampleId := sampleId sha256 sourceId topic partition offset
            candidateId := candidateId
            body := ⟨sourceId, capturedAtMs, "deblob-dlp-v1", outcome.counts, false,
              outcome.document⟩ }

/-! ## What an identifier says -/

variable {sha256} {detectors} {json} {cfg}

theorem buildSample_eq_some {source topic : String} {partition offset : ℕ}
    {candidateId : CandidateId} {rawPayload : Bytes} {capturedAtMs : ℤ}
    {sample : SampleRecord SampleBody}
    (hsample : buildSample sha256 detectors json cfg source topic partition offset candidateId
      rawPayload capturedAtMs = some sample) :
    sample.sampleId = sampleId sha256 (.fromSource sha256 source) topic partition offset ∧
      sample.candidateId = candidateId := by
  unfold buildSample at hsample
  split_ifs at hsample
  obtain ⟨value, -, hvalue⟩ := Option.bind_eq_some_iff.mp hsample
  simp only at hvalue
  split_ifs at hvalue
  cases hvalue
  exact ⟨rfl, rfl⟩

theorem littleEndian_inj_of_lt {width left right : ℕ} (hleft : left < 256 ^ width)
    (hright : right < 256 ^ width) (heq : littleEndian width left = littleEndian width right) :
    left = right :=
  (Lib.bigEndian_inj_of_lt hleft hright).mp (List.reverse_injective heq)

@[simp]
theorem length_littleEndian (width number : ℕ) : (littleEndian width number).length = width := by
  simp [littleEndian]

/-- The source identifier and the coordinates have fixed places around the topic, so the hashed
bytes determine all of them. -/
theorem samplePreimage_inj {sourceId otherId : SourceId} {topic other : String}
    {partition offset otherPartition otherOffset : ℕ}
    (hpartition : partition < 256 ^ 4) (hotherPartition : otherPartition < 256 ^ 4)
    (hoffset : offset < 256 ^ 8) (hotherOffset : otherOffset < 256 ^ 8)
    (heq : samplePreimage sourceId topic partition offset =
      samplePreimage otherId other otherPartition otherOffset) :
    sourceId = otherId ∧ topic = other ∧ partition = otherPartition ∧ offset = otherOffset := by
  have hlength (id : SourceId) : (utf8 id.asStr).length = 56 := by
    rw [length_utf8_of_visible (visible_asStr (by decide) id)]
    exact id.length_asStr
  have hrest := List.append_cancel_left heq
  obtain ⟨hid, hrest⟩ := List.append_inj hrest (by rw [hlength, hlength])
  have hrest := List.append_cancel_left hrest
  obtain ⟨htopic, hrest⟩ := List.append_inj' hrest (by simp)
  rw [List.append_assoc, List.append_assoc] at hrest
  obtain ⟨hpart, hoff⟩ := List.append_inj (List.append_cancel_left hrest) (by simp)
  exact ⟨DigestId.asStr_injective (utf8_injective hid), utf8_injective htopic,
    littleEndian_inj_of_lt hpartition hotherPartition hpart,
    littleEndian_inj_of_lt hoffset hotherOffset hoff⟩

/-- Equal identifiers are equal half digests. -/
theorem halfDigest_eq_of_sampleId_eq {sourceId otherId : SourceId} {topic other : String}
    {partition offset otherPartition otherOffset : ℕ}
    (heq : sampleId sha256 sourceId topic partition offset =
      sampleId sha256 otherId other otherPartition otherOffset) :
    halfDigest sha256 (samplePreimage sourceId topic partition offset) =
      halfDigest sha256 (samplePreimage otherId other otherPartition otherOffset) := by
  have htext := congrArg String.toList heq
  rw [sampleId, sampleId, String.toList_append, String.toList_append] at htext
  have hhex := String.toList_inj.mp (List.append_cancel_left htext)
  exact Semantic.Signature.hexEncode_injective hhex

end Deblob.Cold
