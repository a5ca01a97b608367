import QuantForge.Storage.Segments.PayloadCodec
import QuantForge.Storage.Sqlite.Store

namespace QuantForge.Sqlite

open Segments

variable [DecimalParser]

theorem exact_value {text : String} (h : isExact text = true) :
    ∃ d : Decimal, Storage.readDecimal text = .ok d ∧ d.toText = text ∧ d.canonical = d := by
  rw [isExact, Bool.and_eq_true, Bool.and_eq_true] at h
  obtain ⟨⟨-, hform⟩, hread⟩ := h
  rw [Option.any_eq_true] at hread
  obtain ⟨d, hd, htext⟩ := hread
  have htext : d.toText = text := beq_iff_eq.mp htext
  refine ⟨d, Storage.readDecimal_ok.mpr hd, htext, ?_⟩
  rw [← htext] at hform
  exact (isExactForm_toText d).mp hform

/-- A row of exact texts is a candle's, and is read as that candle. -/
theorem parse_exact {row : TextCandle} (h : row.All fun text => isExact text = true) :
    ∃ c : Candle, parseCandleRow row = .ok c ∧ c.toText = row ∧ c.All fun d => d.canonical = d := by
  obtain ⟨open_, hopen, topen, copen⟩ := exact_value h.open_
  obtain ⟨high, hhigh, thigh, chigh⟩ := exact_value h.high
  obtain ⟨low, hlow, tlow, clow⟩ := exact_value h.low
  obtain ⟨close, hclose, tclose, cclose⟩ := exact_value h.close
  obtain ⟨volume, hvolume, tvolume, cvolume⟩ := exact_value h.volume
  refine ⟨⟨row.openTimeMs, row.closeTimeMs, open_, high, low, close, volume, row.trades⟩, ?_, ?_,
    ⟨copen, chigh, clow, cclose, cvolume⟩⟩
  · simp only [parseCandleRow, hopen, hhigh, hlow, hclose, hvolume]
    rfl
  · simp only [Candle.toText, CandleOf.map, topen, thigh, tlow, tclose, tvolume]

theorem parse_openTimeMs {row : TextCandle} {c : Candle} (h : parseCandleRow row = .ok c) :
    c.openTimeMs = row.openTimeMs := by
  simp only [parseCandleRow, bind_ok] at h
  obtain ⟨_, _, _, _, _, _, _, _, _, _, h⟩ := h
  rw [← Except.ok.inj h]

theorem parse_rows {rows : List TextCandle}
    (h : ∀ row ∈ rows, row.All fun text => isExact text = true) :
    ∃ candles : List Candle, rows.mapM parseCandleRow = .ok candles ∧ asText candles = rows ∧
      ∀ c ∈ candles, c.All fun d => d.canonical = d := by
  simp only [mapM_ok]
  induction rows with
  | nil => exact ⟨[], .nil, rfl, by simp⟩
  | cons row rows ih =>
    obtain ⟨c, hparse, htext, hcanonical⟩ := parse_exact (h row (by simp))
    obtain ⟨candles, hrows, htexts, hall⟩ := ih fun other hother => h other (List.mem_cons_of_mem _ hother)
    refine ⟨c :: candles, .cons hparse hrows, ?_, List.forall_mem_cons.mpr ⟨hcanonical, hall⟩⟩
    rw [← htext, ← htexts]
    rfl

variable [ExactParser]

/-- A packed window is decoded to the candles that its rows are read as. -/
theorem decode_encodeText {rows : List TextCandle} {payload : List UInt8}
    (h : encodeText rows = .ok payload) :
    ∃ candles, decode payload = .ok candles ∧ rows.mapM parseCandleRow = .ok candles ∧
      asText candles = rows := by
  obtain ⟨hsized, hexact, hpayload⟩ := encodeText_ok.mp h
  obtain ⟨candles, hparse, rfl, hcanonical⟩ := parse_rows hexact
  refine ⟨candles, decode_ok.mpr ⟨?_, hcanonical, hpayload⟩, hparse, rfl⟩
  have hsome := hsized.some
  have hfew := hsized.few
  have hrising := hsized.rising
  rw [asText, List.length_map] at hsome hfew
  rw [asText, List.map_map] at hrising
  exact ⟨hsome, hfew, hrising⟩

/-- One payload packs one list of rows. -/
theorem encodeText_injective {xs ys : List TextCandle} {payload : List UInt8}
    (hx : encodeText xs = .ok payload) (hy : encodeText ys = .ok payload) : xs = ys := by
  obtain ⟨candles, hdecode, -, rfl⟩ := decode_encodeText hx
  obtain ⟨others, hother, -, rfl⟩ := decode_encodeText hy
  rw [hdecode] at hother
  rw [Except.ok.inj hother]

end QuantForge.Sqlite
