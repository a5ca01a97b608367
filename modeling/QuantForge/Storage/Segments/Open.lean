import QuantForge.Model.Externals
import QuantForge.Storage.Segments.Payload

namespace QuantForge

namespace Segments

/-- The candles of a fetched segment named `expected`: its bytes
decompressed, checked against the name, and decoded. -/
def open_ [DecimalParser] [Sha256] [Zstd] (bytes expected : List UInt8) :
    Except SegmentError (List Candle) := do
  let payload ← decompress bytes
  let found := Sha256.digest payload
  if found ≠ expected then .error (.hashMismatch expected found) else decode payload

/-- A frame holds its payload, with its size in the header, and nothing else. -/
class LawfulZstd [Zstd] : Prop where
  one_frame : ∀ {payload bytes}, Zstd.compress payload = some bytes →
    Zstd.frameLen bytes = some bytes.length
  size : ∀ {payload bytes}, Zstd.compress payload = some bytes →
    Zstd.contentSize bytes = some payload.length
  inverse : ∀ {payload bytes} {capacity : Nat}, Zstd.compress payload = some bytes →
    payload.length ≤ capacity → Zstd.decompress bytes capacity = some payload

theorem compress_ok [Zstd] {payload bytes : List UInt8} :
    compress payload = .ok bytes ↔ Zstd.compress payload = some bytes := by
  unfold compress
  cases Zstd.compress payload <;> simp

theorem decompress_compress [Zstd] [LawfulZstd] {payload bytes : List UInt8}
    (h : compress payload = .ok bytes) (hlen : payload.length ≤ maxPayloadBytes) :
    decompress bytes = .ok payload := by
  rw [compress_ok] at h
  rw [decompress, LawfulZstd.one_frame h, LawfulZstd.size h, LawfulZstd.inverse h hlen]
  simp [Nat.not_lt.mpr hlen]

/-- A stored segment opens, under its payload's name, to the payload's
candles. -/
theorem open_compress [DecimalParser] [Sha256] [Zstd] [LawfulZstd] {payload bytes : List UInt8}
    (h : compress payload = .ok bytes) (hlen : payload.length ≤ maxPayloadBytes) :
    open_ bytes (Sha256.digest payload) = decode payload := by
  rw [open_, decompress_compress h hlen]
  simp [Except.bind, bind]

end Segments

end QuantForge
