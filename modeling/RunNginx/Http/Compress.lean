import RunNginx.Server.Request

/-!
# Response compression

When a body is compressed with gzip or brotli.  The compressors are libraries; one
that is not built in or fails gives `none`.
-/

namespace RunNginx
namespace Compress

open ByteString

structure CompressConfig where
  enabled : Bool
  minLength : Nat
  types : List Bytes

/-- MIME type without its parameters. -/
def baseType (contentType : Bytes) : Bytes :=
  Utf8.trim ((splitByte 59 contentType).headD [])

/-- Compress a body that the configuration and the client let be compressed. -/
def compressIf (compressor : Bytes → Option Bytes) (accepted : Bool) (cfg : CompressConfig)
    (contentType body : Bytes) : Bytes × Bool :=
  if !cfg.enabled || decide (body.length < cfg.minLength) || !accepted ||
      !cfg.types.contains (baseType contentType) then (body, false)
  else match compressor body with
  | some compressed => if compressed.length < body.length then (compressed, true) else (body, false)
  | none => (body, false)

/-- gzip is taken as accepted when the header mentions it. -/
def acceptsGzip (acceptEnc : Option Bytes) : Bool :=
  acceptEnc.any fun v => contains (ascii "gzip") v

/-- brotli is accepted when it is one of the codings listed. -/
def acceptsBrotli (acceptEnc : Option Bytes) : Bool :=
  acceptEnc.any fun v => (splitByte 44 v).any fun t => Utf8.trim t == ascii "br"

def maybeCompress (gzip : Bytes → Option Bytes) (body contentType : Bytes)
    (acceptEnc : Option Bytes) (cfg : CompressConfig) : Bytes × Bool :=
  compressIf gzip (acceptsGzip acceptEnc) cfg contentType body

def maybeBrotli (brotli : Bytes → Option Bytes) (body contentType : Bytes)
    (acceptEnc : Option Bytes) (cfg : CompressConfig) : Bytes × Bool :=
  compressIf brotli (acceptsBrotli acceptEnc) cfg contentType body

section Applies

/-- The compressor is asked for, and its output is shorter. -/
structure Applies (compressor : Bytes → Option Bytes) (accepted : Bool) (cfg : CompressConfig)
    (contentType body : Bytes) : Prop where
  enabled : cfg.enabled = true
  long : cfg.minLength ≤ body.length
  accepts : accepted = true
  listed : baseType contentType ∈ cfg.types
  shorter : ∃ compressed, compressor body = some compressed ∧ compressed.length < body.length

variable {compressor : Bytes → Option Bytes} {accepted : Bool} {cfg : CompressConfig}
variable {contentType body : Bytes}

theorem compressIf_of_applies
    (h : Applies compressor accepted cfg contentType body) :
    ∃ compressed, compressor body = some compressed ∧
      compressIf compressor accepted cfg contentType body = (compressed, true) := by
  obtain ⟨compressed, hcompressed, hshorter⟩ := h.shorter
  have hlong : ¬ body.length < cfg.minLength := Nat.not_lt.mpr h.long
  refine ⟨compressed, hcompressed, ?_⟩
  unfold compressIf
  simp [h.enabled, h.accepts, h.listed, hlong, hcompressed, hshorter]

/-- Any other body is sent as it is. -/
theorem compressIf_of_not_applies
    (h : ¬ Applies compressor accepted cfg contentType body) :
    compressIf compressor accepted cfg contentType body = (body, false) := by
  unfold compressIf
  split
  · rfl
  rename_i hasked
  simp only [Bool.or_eq_true, Bool.not_eq_true', decide_eq_true_eq, not_or, Bool.not_eq_false,
    Nat.not_lt, List.contains_eq_mem] at hasked
  obtain ⟨⟨⟨henabled, hlong⟩, haccepts⟩, hlisted⟩ := hasked
  split
  · rename_i compressed hcompressed
    split
    · rename_i hshorter
      exact absurd ⟨henabled, hlong, haccepts, hlisted, compressed, hcompressed, hshorter⟩ h
    · rfl
  · rfl

theorem eq_of_compressIf
    {body' : Bytes}
    (h : compressIf compressor accepted cfg contentType body = (body', false)) :
    body' = body := by
  by_cases happlies : Applies compressor accepted cfg contentType body
  · obtain ⟨compressed, -, hcompressed⟩ := compressIf_of_applies happlies
    rw [hcompressed] at h
    cases h
  · rw [compressIf_of_not_applies happlies] at h
    exact (congrArg Prod.fst h).symm

/-- An empty body is sent as it is. -/
theorem not_applies_nil :
    ¬ Applies compressor accepted cfg contentType [] := by
  intro h
  obtain ⟨compressed, -, hshorter⟩ := h.shorter
  exact Nat.not_lt_zero _ hshorter

end Applies

end Compress
end RunNginx
