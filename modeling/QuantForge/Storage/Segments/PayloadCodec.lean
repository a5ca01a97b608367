import QuantForge.Storage.Segments.Payload

namespace QuantForge.Segments

/-- Candles a segment can hold: 1 to a window's bars, with strictly rising
open times. -/
structure Sized {α : Type} (candles : List (CandleOf α)) : Prop where
  some : 1 ≤ candles.length
  few : candles.length ≤ windowBars
  rising : (candles.map (·.openTimeMs)).Pairwise (· < ·)

theorem outOfOrder_none {times : List Int64} :
    outOfOrder times = none ↔ times.Pairwise (· < ·) := by
  induction times with
  | nil => simp [outOfOrder]
  | cons time times ih =>
    cases times with
    | nil => simp [outOfOrder]
    | cons next rest =>
      rw [outOfOrder]
      constructor
      · intro h
        split_ifs at h with hle
        have hpair := ih.mp h
        have hlt : time < next := Int64.not_le.mp hle
        refine List.pairwise_cons.mpr ⟨?_, hpair⟩
        intro later hlater
        rcases List.mem_cons.mp hlater with rfl | hlater
        · exact hlt
        · exact Int64.lt_trans hlt ((List.pairwise_cons.mp hpair).1 later hlater)
      · intro h
        obtain ⟨hfirst, hrest⟩ := List.pairwise_cons.mp h
        rw [if_neg (Int64.not_le.mpr (hfirst next (by simp)))]
        exact ih.mpr hrest

theorem checkOrder_ok {times : List Int64} {u : Unit} :
    checkOrder times = .ok u ↔ times.Pairwise (· < ·) := by
  rw [← outOfOrder_none, checkOrder]
  cases outOfOrder times <;> simp

theorem tradesOf_ok {known : UInt8} {count : UInt64} {trades : Option UInt64} :
    tradesOf known count = .ok trades ↔ known = flag trades ∧ count = trades.getD 0 := by
  unfold tradesOf
  constructor
  · intro h
    split_ifs at h with hknown hunknown hzero
    · rw [Except.ok.injEq] at h
      rw [← h]
      exact ⟨hknown, rfl⟩
    · rw [Except.ok.injEq] at h
      rw [← h]
      exact ⟨hunknown, hzero⟩
  · rintro ⟨rfl, rfl⟩
    cases trades <;> rfl

/-- The trade counts behind their flags. -/
theorem trades_ok {flags : List UInt8} {counts : List UInt64} {trades : List (Option UInt64)}
    (hlen : flags.length = counts.length) :
    ((flags.zip counts).mapM fun (known, trades) => tradesOf known trades) = .ok trades ↔
      flags = trades.map flag ∧ counts = trades.map (·.getD 0) := by
  rw [mapM_ok]
  induction flags generalizing counts trades with
  | nil =>
    have hcounts : counts = [] := List.length_eq_zero_iff.mp hlen.symm
    subst hcounts
    cases trades <;> simp
  | cons known flags ih =>
    cases counts with
    | nil => simp at hlen
    | cons count counts =>
      have hrest : flags.length = counts.length := by simpa using hlen
      cases trades with
      | nil => simp
      | cons first trades =>
        rw [List.zip_cons_cons, List.forall₂_cons, ih hrest, tradesOf_ok]
        simp only [List.map_cons, List.cons.injEq]
        tauto

theorem u32_reads {input rest : List UInt8} {w : UInt32} :
    Reader.Reads u32 input w rest ↔ input = LittleEndian.u32 w ++ rest := by
  rw [u32, Reader.bind_reads]
  simp only [Reader.take_reads, Reader.pure_reads]
  constructor
  · rintro ⟨word, mid, ⟨hinput, hlen⟩, hw, hmid⟩
    rw [hmid, ← (LittleEndian.readU32_iff hlen).mp hw.symm]
    exact hinput
  · intro hinput
    have hlen : (LittleEndian.u32 w).length = 4 := by simp [LittleEndian.u32]
    exact ⟨_, rest, ⟨hinput, hlen⟩, ((LittleEndian.readU32_iff hlen).mpr rfl).symm, rfl⟩

theorem i64s_reads {count : Nat} {input rest : List UInt8} {times : List Int64} :
    Reader.Reads (Reader.words endsEarly 8 count LittleEndian.readI64) input times rest ↔
      input = times.flatMap LittleEndian.i64 ++ rest ∧ times.length = count :=
  Reader.words_reads (fun word time hlen => LittleEndian.readI64_iff hlen) (fun time => by
    simp [LittleEndian.i64, LittleEndian.u64])

theorem u64s_reads {count : Nat} {input rest : List UInt8} {counts : List UInt64} :
    Reader.Reads (Reader.words endsEarly 8 count LittleEndian.readU64) input counts rest ↔
      input = counts.flatMap LittleEndian.u64 ++ rest ∧ counts.length = count :=
  Reader.words_reads (fun word time hlen => LittleEndian.readU64_iff hlen) (fun time => by
    simp [LittleEndian.u64])

theorem header_reads {input rest : List UInt8} {count : UInt32} :
    Reader.Reads header input count rest ↔
      input = magic ++ LittleEndian.u32 format ++ LittleEndian.u32 count ++ rest ∧
        1 ≤ count.toNat ∧ count.toNat ≤ windowBars := by
  unfold header
  simp only [Reader.bind_reads, Reader.take_reads, Reader.ensure_reads, Reader.pure_reads,
    u32_reads, beq_iff_eq, Bool.and_eq_true, decide_eq_true_eq]
  constructor
  · rintro ⟨_, _, ⟨hinput, -⟩, _, _, ⟨hmagic, hmid⟩, version, _, hversion, _, _,
      ⟨hformat, hmid'⟩, count', _, hcount, _, _, ⟨hrange, hmid''⟩, hfound, hrest⟩
    subst hmagic hmid hformat hmid' hmid'' hfound hrest
    refine ⟨?_, hrange⟩
    rw [hinput, hversion, hcount, List.append_assoc, List.append_assoc]
  · rintro ⟨hinput, hrange⟩
    rw [List.append_assoc, List.append_assoc] at hinput
    exact ⟨magic, _, ⟨hinput, rfl⟩, (), _, ⟨rfl, rfl⟩, format, _, rfl, (), _, ⟨rfl, rfl⟩, count, _,
      rfl, (), _, ⟨hrange, rfl⟩, rfl, rfl⟩

theorem openTimes_reads {count : Nat} {input rest : List UInt8} {times : List Int64} :
    Reader.Reads (openTimes count) input times rest ↔
      input = times.flatMap LittleEndian.i64 ++ rest ∧ times.length = count ∧
        times.Pairwise (· < ·) := by
  unfold openTimes
  simp only [Reader.bind_reads, Reader.lift_reads, Reader.pure_reads, i64s_reads, checkOrder_ok]
  constructor
  · rintro ⟨found, _, ⟨hinput, hlen⟩, _, _, ⟨hrising, hmid⟩, htimes, hrest⟩
    subst hmid htimes hrest
    exact ⟨hinput, hlen, hrising⟩
  · rintro ⟨hinput, hlen, hrising⟩
    exact ⟨times, rest, ⟨hinput, hlen⟩, (), rest, ⟨hrising, rfl⟩, rfl, rfl⟩

theorem tradeColumn_reads {count : Nat} {input rest : List UInt8}
    {trades : List (Option UInt64)} :
    Reader.Reads (tradeColumn count) input trades rest ↔
      input = (trades.map (·.getD 0)).flatMap LittleEndian.u64 ++ (trades.map flag ++ rest) ∧
        trades.length = count := by
  unfold tradeColumn
  simp only [Reader.bind_reads, Reader.take_reads, Reader.lift_reads, u64s_reads]
  constructor
  · rintro ⟨counts, _, ⟨hinput, hcounts⟩, flags, _, ⟨hmid, hflags⟩, htrades, hrest⟩
    obtain ⟨rfl, rfl⟩ := (trades_ok (by rw [hflags, hcounts])).mp htrades
    subst hmid hrest
    exact ⟨hinput, by simpa using hflags⟩
  · rintro ⟨hinput, hlen⟩
    exact ⟨_, _, ⟨hinput, by simpa using hlen⟩, _, rest, ⟨rfl, by simpa using hlen⟩,
      (trades_ok (by simp)).mpr ⟨rfl, rfl⟩, rfl⟩

/-- The texts of candles' decimals. -/
def asText (candles : List Candle) : List TextCandle := candles.map fun c => c.map Decimal.toText

/-- The bytes of candles in columns. -/
def columnBytes (c : CandleColumns) : List UInt8 :=
  magic ++ LittleEndian.u32 format ++ LittleEndian.u32 (UInt32.ofNat c.openTimeMs.length) ++
    c.openTimeMs.flatMap LittleEndian.i64 ++ c.closeTimeMs.flatMap LittleEndian.i64 ++
    (c.trades.map (·.getD 0)).flatMap LittleEndian.u64 ++ c.trades.map flag ++
    texts (c.open_.map Decimal.toText) ++ texts (c.high.map Decimal.toText) ++
    texts (c.low.map Decimal.toText) ++ texts (c.close.map Decimal.toText) ++
    texts (c.volume.map Decimal.toText)

theorem layout_asText (candles : List Candle) :
    layout (asText candles) = columnBytes (CandleColumns.ofCandles candles) := by
  simp only [layout, head, asText, columnBytes, CandleColumns.ofCandles, List.flatMap_map,
    List.map_map, List.length_map]
  rfl

/-- Texts that keep the length limit of a decimal. -/
theorem texts_length_le {column : List String}
    (h : ∀ text ∈ column, (Bytes.utf8 text).length ≤ maxDecimalLen) :
    (texts column).length ≤ column.length * (1 + maxDecimalLen) := by
  induction column with
  | nil => simp [texts]
  | cons text column ih =>
    have hfirst := h text (by simp)
    have hrest := ih fun t ht => h t (by simp [ht])
    simp only [texts, List.length_append, List.length_map, List.flatMap_cons,
      List.length_cons] at hrest ⊢
    rw [Nat.add_mul]
    omega

theorem head_length {α : Type} (candles : List (CandleOf α)) :
    (head candles).length = 16 + candles.length * 25 := by
  have hmagic : magic.length = 8 := by decide
  have hopen : (candles.flatMap fun c => LittleEndian.i64 c.openTimeMs).length =
      candles.length * 8 := by
    simp [List.length_flatMap, LittleEndian.i64, LittleEndian.u64]
  have hclose : (candles.flatMap fun c => LittleEndian.i64 c.closeTimeMs).length =
      candles.length * 8 := by
    simp [List.length_flatMap, LittleEndian.i64, LittleEndian.u64]
  have htrades : (candles.flatMap fun c => LittleEndian.u64 (c.trades.getD 0)).length =
      candles.length * 8 := by
    simp [List.length_flatMap, LittleEndian.u64]
  simp only [head, List.length_append, List.length_map, hmagic, hopen, hclose, htrades,
    LittleEndian.u32, LittleEndian.bytes_length]
  omega

/-- Every decimal of the columns is canonical. -/
def CanonicalColumns (c : CandleColumns) : Prop :=
  (∀ d ∈ c.open_, d.canonical = d) ∧ (∀ d ∈ c.high, d.canonical = d) ∧
    (∀ d ∈ c.low, d.canonical = d) ∧ (∀ d ∈ c.close, d.canonical = d) ∧
      ∀ d ∈ c.volume, d.canonical = d

theorem canonicalColumns_iff {candles : List Candle} :
    CanonicalColumns (CandleColumns.ofCandles candles) ↔
      ∀ c ∈ candles, c.All fun d => d.canonical = d := by
  simp only [CanonicalColumns, CandleColumns.ofCandles, List.forall_mem_map]
  constructor
  · rintro ⟨hopen, hhigh, hlow, hclose, hvolume⟩ c hc
    exact ⟨hopen c hc, hhigh c hc, hlow c hc, hclose c hc, hvolume c hc⟩
  · intro h
    exact ⟨fun c hc => (h c hc).open_, fun c hc => (h c hc).high, fun c hc => (h c hc).low,
      fun c hc => (h c hc).close, fun c hc => (h c hc).volume⟩

/-- A candle without the sign of a negative zero. -/
def unsigned (c : Candle) : Candle := c.map Decimal.canonical

theorem unsigned_canonical (c : Candle) : (unsigned c).All fun d => d.canonical = d :=
  ⟨canonical_canonical _, canonical_canonical _, canonical_canonical _, canonical_canonical _,
    canonical_canonical _⟩

/-- A frame that records the size of a payload a payload can have is not
refused as too large. -/
theorem decompress_fits [Zstd] {frame payload : List UInt8}
    (hlen : payload.length ≤ maxPayloadBytes)
    (hsize : Zstd.contentSize frame = some payload.length) :
    decompress frame ≠ .error .tooLarge := by
  have hfits : ((Zstd.contentSize frame).any fun size => decide (maxPayloadBytes < size)) = false := by
    rw [hsize]
    simpa using hlen
  unfold decompress
  cases Zstd.frameLen frame with
  | none => simp
  | some frameLen =>
    simp only [hfits, Bool.false_eq_true, if_false]
    split_ifs
    · simp
    · cases Zstd.decompress frame maxPayloadBytes <;> simp

section

variable [DecimalParser]

theorem encodeColumn_ok {column : String} {field : TextCandle → String}
    {candles : List TextCandle} {bytes : List UInt8} :
    encodeColumn column field candles = .ok bytes ↔
      (∀ c ∈ candles, isExact (field c) = true) ∧ bytes = texts (candles.map field) := by
  have hone : ∀ c text, checkText column c.openTimeMs (field c) = .ok text ↔
      isExact (field c) = true ∧ text = field c := by
    intro c text
    unfold checkText
    constructor
    · intro h
      split_ifs at h with hexact
      exact ⟨hexact.2, (Except.ok.inj h).symm⟩
    · rintro ⟨hexact, rfl⟩
      have hshort : (Bytes.utf8 (field c)).length ≤ maxDecimalLen := by
        simp only [isExact, Bool.and_eq_true, decide_eq_true_eq] at hexact
        exact hexact.1.1
      exact if_pos ⟨hshort.trans (by decide), hexact⟩
  have hall : ∀ checked : List String,
      (candles.mapM fun c => checkText column c.openTimeMs (field c)) = .ok checked ↔
        (∀ c ∈ candles, isExact (field c) = true) ∧ checked = candles.map field := by
    intro checked
    rw [mapM_ok]
    simp only [hone]
    induction candles generalizing checked with
    | nil => cases checked <;> simp
    | cons c candles ih =>
      cases checked with
      | nil => simp
      | cons text checked =>
        rw [List.forall₂_cons, ih]
        simp only [List.mem_cons, forall_eq_or_imp, List.map_cons, List.cons.injEq]
        tauto
  rw [encodeColumn, bind_ok]
  constructor
  · rintro ⟨checked, hchecked, hbytes⟩
    obtain ⟨hexact, rfl⟩ := (hall checked).mp hchecked
    exact ⟨hexact, (Except.ok.inj hbytes).symm⟩
  · rintro ⟨hexact, rfl⟩
    exact ⟨_, (hall _).mpr ⟨hexact, rfl⟩, rfl⟩

/-- What `encodeText` packs, and the bytes it packs it in. -/
theorem encodeText_ok {candles : List TextCandle} {payload : List UInt8} :
    encodeText candles = .ok payload ↔
      Sized candles ∧ (∀ c ∈ candles, c.All fun text => isExact text = true) ∧
        payload = layout candles := by
  have hcolumns : (∀ c ∈ candles, c.All fun text => isExact text = true) ↔
      (∀ c ∈ candles, isExact c.open_ = true) ∧ (∀ c ∈ candles, isExact c.high = true) ∧
        (∀ c ∈ candles, isExact c.low = true) ∧ (∀ c ∈ candles, isExact c.close = true) ∧
          ∀ c ∈ candles, isExact c.volume = true := by
    constructor
    · intro h
      exact ⟨fun c hc => (h c hc).open_, fun c hc => (h c hc).high, fun c hc => (h c hc).low,
        fun c hc => (h c hc).close, fun c hc => (h c hc).volume⟩
    · rintro ⟨hopen, hhigh, hlow, hclose, hvolume⟩ c hc
      exact ⟨hopen c hc, hhigh c hc, hlow c hc, hclose c hc, hvolume c hc⟩
  rw [hcolumns]
  unfold encodeText
  constructor
  · intro h
    split_ifs at h with hcount
    cases horder : outOfOrder (candles.map (·.openTimeMs)) with
    | some fault => simp [horder] at h
    | none =>
      simp only [horder, bind_ok, encodeColumn_ok] at h
      obtain ⟨_, ⟨hopen, rfl⟩, _, ⟨hhigh, rfl⟩, _, ⟨hlow, rfl⟩, _, ⟨hclose, rfl⟩, _,
        ⟨hvolume, rfl⟩, hpayload⟩ := h
      exact ⟨⟨by omega, by omega, outOfOrder_none.mp horder⟩,
        ⟨hopen, hhigh, hlow, hclose, hvolume⟩, (Except.ok.inj hpayload).symm⟩
  · rintro ⟨hsized, ⟨hopen, hhigh, hlow, hclose, hvolume⟩, rfl⟩
    have hsome := hsized.some
    have hfew := hsized.few
    rw [if_neg (by omega), outOfOrder_none.mpr hsized.rising]
    simp only [bind_ok, encodeColumn_ok]
    exact ⟨_, ⟨hopen, rfl⟩, _, ⟨hhigh, rfl⟩, _, ⟨hlow, rfl⟩, _, ⟨hclose, rfl⟩, _, ⟨hvolume, rfl⟩,
      rfl⟩

/-- No packed payload is larger than a payload can be. -/
theorem layout_length_le {candles : List TextCandle} (hsized : Sized candles)
    (hexact : ∀ c ∈ candles, c.All fun text => isExact text = true) :
    (layout candles).length ≤ maxPayloadBytes := by
  have hlen : ∀ text, isExact text = true → (Bytes.utf8 text).length ≤ maxDecimalLen := by
    intro text htext
    simp only [isExact, Bool.and_eq_true, decide_eq_true_eq] at htext
    exact htext.1.1
  have hcolumn : ∀ field : TextCandle → String, (∀ c ∈ candles, isExact (field c) = true) →
      (texts (candles.map field)).length ≤ candles.length * (1 + maxDecimalLen) := by
    intro field hfield
    have htexts : ∀ text ∈ candles.map field, (Bytes.utf8 text).length ≤ maxDecimalLen := by
      intro text ht
      obtain ⟨c, hc, rfl⟩ := List.mem_map.mp ht
      exact hlen _ (hfield c hc)
    have hle := texts_length_le htexts
    rwa [List.length_map] at hle
  have hopen := hcolumn (·.open_) fun c hc => (hexact c hc).open_
  have hhigh := hcolumn (·.high) fun c hc => (hexact c hc).high
  have hlow := hcolumn (·.low) fun c hc => (hexact c hc).low
  have hclose := hcolumn (·.close) fun c hc => (hexact c hc).close
  have hvolume := hcolumn (·.volume) fun c hc => (hexact c hc).volume
  have hfew := hsized.few
  have hhead := head_length candles
  simp only [layout, List.length_append]
  unfold maxPayloadBytes maxDecimalLen windowBars at *
  omega

/-- Candles that differ in the sign of a zero only have one payload. -/
theorem encode_unsigned (candles : List Candle) :
    encode (candles.map unsigned) = encode candles := by
  have hwritten : ((candles.map unsigned).map fun c => c.map written) =
      candles.map fun c => c.map written := by
    rw [List.map_map]
    apply List.map_congr_left
    intro c _
    apply CandleOf.map_congr
    have hone : ∀ d : Decimal, written d.canonical = written d := fun d => by
      rw [written, canonical_canonical, written]
    exact ⟨hone _, hone _, hone _, hone _, hone _⟩
  rw [encode, hwritten, encode]

variable [ExactParser]

theorem encode_ok {candles : List Candle} {payload : List UInt8} :
    encode candles = .ok payload ↔
      Sized candles ∧ payload = layout (candles.map fun c => c.map written) := by
  have hsized : Sized (candles.map fun c => c.map written) ↔ Sized candles := by
    have htimes : (candles.map fun c => c.map written).map (·.openTimeMs) =
        candles.map (·.openTimeMs) := by
      rw [List.map_map]
      rfl
    constructor
    · rintro ⟨hsome, hfew, hrising⟩
      rw [htimes] at hrising
      rw [List.length_map] at hsome hfew
      exact ⟨hsome, hfew, hrising⟩
    · rintro ⟨hsome, hfew, hrising⟩
      rw [← htimes] at hrising
      exact ⟨by rwa [List.length_map], by rwa [List.length_map], hrising⟩
  have hexact : ∀ c ∈ candles.map (fun c => c.map written),
      c.All fun text => isExact text = true := by
    intro c hc
    obtain ⟨candle, -, rfl⟩ := List.mem_map.mp hc
    exact ⟨isExact_written _, isExact_written _, isExact_written _, isExact_written _,
      isExact_written _⟩
  rw [encode, encodeText_ok, hsized]
  exact ⟨fun h => ⟨h.1, h.2.2⟩, fun h => ⟨h.1, hexact, h.2⟩⟩

/-- A decimal is read from its own text only. -/
theorem decimal_reads {column : String} {length : UInt8} {openTimeMs : Int64}
    {input rest : List UInt8} {d : Decimal} :
    Reader.Reads (decimal column length openTimeMs) input d rest ↔
      input = Bytes.utf8 d.toText ++ rest ∧ length = textLength d.toText ∧ d.canonical = d := by
  rw [decimal, Reader.bind_reads]
  simp only [Reader.take_reads, Reader.lift_reads]
  constructor
  · rintro ⟨bytes, mid, ⟨hinput, hlen⟩, hvalue, hmid⟩
    cases htext : (Bytes.fromUtf8 bytes).filter isExact with
    | none => simp [htext] at hvalue
    | some text =>
      obtain ⟨hutf8, hexact⟩ := Option.filter_eq_some_iff.mp htext
      rw [htext] at hvalue
      cases hparse : DecimalParser.fromStrExact text with
      | none => simp [hparse] at hvalue
      | some value =>
        simp only [hparse, Except.ok.injEq] at hvalue
        have hback : value.toText = text := by
          simp only [isExact, hparse, Option.any_some, Bool.and_eq_true, beq_iff_eq] at hexact
          exact hexact.2
        rw [hvalue] at hback
        rw [← hback] at hexact hutf8
        have hbytes := Bytes.utf8_fromUtf8 hutf8
        subst hmid
        refine ⟨by rw [hinput, hbytes], ?_, (isExact_toText d).mp hexact⟩
        rw [textLength, hbytes, hlen, UInt8.ofNat_toNat]
  · rintro ⟨hinput, hlen, hcanonical⟩
    have hshort := d.toText_short.2
    have hsize : (Bytes.utf8 d.toText).length = length.toNat := by
      rw [hlen, textLength, UInt8.toNat_ofNat', Nat.mod_eq_of_lt (by omega)]
    have hexact := (isExact_toText d).mpr hcanonical
    refine ⟨Bytes.utf8 d.toText, rest, ⟨hinput, hsize⟩, ?_, rfl⟩
    rw [Bytes.fromUtf8_utf8, Option.filter_some, if_pos hexact]
    simp only [ExactParser.reads_back d hcanonical]

/-- A column is read from the texts of its decimals only. -/
theorem decimals_reads {column : String} {count : Nat} {times : List Int64}
    {input rest : List UInt8} {ds : List Decimal} (hcount : times.length = count) :
    Reader.Reads (decimals column count times) input ds rest ↔
      input = texts (ds.map Decimal.toText) ++ rest ∧ ds.length = count ∧
        ∀ d ∈ ds, d.canonical = d := by
  subst hcount
  have hzip : ∀ lengths : List UInt8, lengths.length = times.length →
      (List.Forall₂ (fun (pair : UInt8 × Int64) d =>
          pair.1 = textLength d.toText ∧ d.canonical = d) (lengths.zip times) ds ↔
        lengths = ds.map (fun d => textLength d.toText) ∧ ∀ d ∈ ds, d.canonical = d) := by
    intro lengths hlen
    induction lengths generalizing times ds with
    | nil => cases ds <;> simp
    | cons length lengths ih =>
      cases times with
      | nil => simp at hlen
      | cons time times =>
        cases ds with
        | nil => simp
        | cons d ds =>
          rw [List.zip_cons_cons, List.forall₂_cons, ih (by simpa using hlen)]
          simp only [List.map_cons, List.cons.injEq, List.mem_cons, forall_eq_or_imp]
          tauto
  have hmap : ∀ (pairs : List (UInt8 × Int64)) (input : List UInt8),
      Reader.Reads (pairs.mapM fun pair => decimal column pair.1 pair.2) input ds rest ↔
        input = ds.flatMap (fun d => Bytes.utf8 d.toText) ++ rest ∧
          List.Forall₂ (fun (pair : UInt8 × Int64) d =>
            pair.1 = textLength d.toText ∧ d.canonical = d) pairs ds :=
    fun pairs input => Reader.mapM_reads fun pair input d rest => decimal_reads
  rw [decimals, Reader.bind_reads]
  simp only [Reader.take_reads]
  constructor
  · rintro ⟨lengths, mid, ⟨hinput, hlen⟩, hread⟩
    obtain ⟨hmid, hall⟩ := (hmap _ _).mp hread
    obtain ⟨rfl, hcanonical⟩ := (hzip lengths hlen).mp hall
    refine ⟨?_, by simpa using hlen, hcanonical⟩
    rw [hinput, hmid, texts, List.flatMap_map, List.map_map, List.append_assoc]
    rfl
  · rintro ⟨hinput, hlen, hcanonical⟩
    refine ⟨ds.map fun d => textLength d.toText, ds.flatMap (fun d => Bytes.utf8 d.toText) ++ rest,
      ⟨?_, by simpa using hlen⟩, ?_⟩
    · rw [hinput, texts, List.flatMap_map, List.map_map, List.append_assoc]
      rfl
    · exact (hmap _ _).mpr ⟨rfl, (hzip _ (by simpa using hlen)).mpr ⟨rfl, hcanonical⟩⟩

/-- The columns of a payload are those of the candles it lays out. -/
theorem columns_reads {input rest : List UInt8} {found : CandleColumns} :
    Reader.Reads columns input found rest ↔
      rest = [] ∧ ∃ candles : List Candle, Sized candles ∧
        (∀ c ∈ candles, c.All fun d => d.canonical = d) ∧
          found = CandleColumns.ofCandles candles ∧ input = layout (asText candles) := by
  unfold columns
  simp only [Reader.bind_reads, Reader.pure_reads, Reader.finish_reads, header_reads,
    openTimes_reads, i64s_reads, tradeColumn_reads]
  constructor
  · rintro ⟨count, _, ⟨hinput, hrange⟩, times, r1, ⟨h1, htimes, hrising⟩, closes, r2,
      ⟨h2, hcloses⟩, trades, r3, ⟨h3, htrades⟩, opens, r4, hopen, highs, r5, hhigh, lows, r6, hlow,
      closings, r7, hclose, volumes, r8, hvolume, _, r9, ⟨hend, hnil⟩, hfound, hrest⟩
    obtain ⟨h4, lopen, copen⟩ := (decimals_reads htimes).mp hopen
    obtain ⟨h5, lhigh, chigh⟩ := (decimals_reads htimes).mp hhigh
    obtain ⟨h6, llow, clow⟩ := (decimals_reads htimes).mp hlow
    obtain ⟨h7, lclose, cclose⟩ := (decimals_reads htimes).mp hclose
    obtain ⟨h8, lvolume, cvolume⟩ := (decimals_reads htimes).mp hvolume
    have haligned : found.misaligned = none := by
      simp [hfound, CandleColumns.misaligned, CandleColumns.lengths, htimes, hcloses, lopen, lhigh,
        llow, lclose, lvolume, htrades]
    have hback := CandleBatch.ofCandles_toCandles ⟨found, haligned⟩
    generalize CandleBatch.toCandles ⟨found, haligned⟩ = candles at hback
    have hback : CandleColumns.ofCandles candles = found := hback
    have hmap : candles.map (·.openTimeMs) = times := by
      have hopenTimes := congrArg CandleColumns.openTimeMs hback
      rwa [hfound] at hopenTimes
    have hlen : candles.length = count.toNat := by rw [← htimes, ← hmap, List.length_map]
    have hcount : count = UInt32.ofNat times.length := by rw [htimes, UInt32.ofNat_toNat]
    refine ⟨hrest.trans hnil, candles, ⟨by omega, by omega, ?_⟩, ?_, hback.symm, ?_⟩
    · rw [hmap]
      exact hrising
    · apply canonicalColumns_iff.mp
      rw [hback, hfound]
      exact ⟨copen, chigh, clow, cclose, cvolume⟩
    · rw [layout_asText, hback, hfound, hinput, h1, h2, h3, h4, h5, h6, h7, h8, hend, hcount]
      simp only [columnBytes, List.append_assoc, List.append_nil]
  · rintro ⟨rfl, candles, hsized, hcanonical, rfl, rfl⟩
    have hcount : candles.length = (UInt32.ofNat candles.length).toNat := by
      have hfew := hsized.few
      unfold windowBars at hfew
      rw [UInt32.toNat_ofNat', Nat.mod_eq_of_lt (by omega)]
    have hrange : 1 ≤ (UInt32.ofNat candles.length).toNat ∧
        (UInt32.ofNat candles.length).toNat ≤ windowBars := by
      rw [← hcount]
      exact ⟨hsized.some, hsized.few⟩
    have hfield : ∀ {α : Type} (field : Candle → α),
        (candles.map field).length = (UInt32.ofNat candles.length).toNat := by
      intro α field
      rw [List.length_map, ← hcount]
    have hinput := layout_asText candles
    simp only [columnBytes, CandleColumns.ofCandles, List.append_assoc, List.length_map] at hinput
    rw [hinput]
    obtain ⟨copen, chigh, clow, cclose, cvolume⟩ := canonicalColumns_iff.mpr hcanonical
    have htimes := hfield (·.openTimeMs)
    refine ⟨_, _, ⟨by simp only [List.append_assoc], hrange⟩, _, _,
      ⟨rfl, htimes, hsized.rising⟩, _, _, ⟨rfl, hfield (·.closeTimeMs)⟩, _, _,
      ⟨rfl, hfield (·.trades)⟩, _, _, (decimals_reads htimes).mpr ⟨rfl, hfield (·.open_), copen⟩,
      _, _, (decimals_reads htimes).mpr ⟨rfl, hfield (·.high), chigh⟩,
      _, _, (decimals_reads htimes).mpr ⟨rfl, hfield (·.low), clow⟩,
      _, _, (decimals_reads htimes).mpr ⟨rfl, hfield (·.close), cclose⟩,
      _, [], (decimals_reads htimes).mpr ⟨(List.append_nil _).symm, hfield (·.volume), cvolume⟩,
      (), [], ⟨rfl, rfl⟩, rfl, rfl⟩

/-- What `decode` accepts: the bytes of candles a segment can hold, with no
negative zero. -/
theorem decode_ok {payload : List UInt8} {candles : List Candle} :
    decode payload = .ok candles ↔
      Sized candles ∧ (∀ c ∈ candles, c.All fun d => d.canonical = d) ∧
        payload = layout (asText candles) := by
  have hbatch : ∀ {found : CandleColumns} {batch : CandleBatch} {cs : List Candle},
      found = CandleColumns.ofCandles cs → CandleBatch.fromColumns found = .ok batch →
        batch.toCandles = cs := by
    intro found batch cs hfound hok
    exact CandleBatch.toCandles_ofCandles ((CandleBatch.fromColumns_ok.mp hok).trans hfound)
  unfold decode
  constructor
  · intro h
    cases hrun : columns.run payload with
    | error fault => simp [hrun] at h
    | ok answer =>
      obtain ⟨found, rest⟩ := answer
      obtain ⟨-, cs, hsized, hcanonical, hfound, hpayload⟩ := columns_reads.mp hrun
      cases hcolumns : CandleBatch.fromColumns found with
      | error fault => simp [hrun, hcolumns] at h
      | ok batch =>
        simp only [hrun, hcolumns, Except.ok.injEq] at h
        rw [← h, hbatch hfound hcolumns]
        exact ⟨hsized, hcanonical, hpayload⟩
  · rintro ⟨hsized, hcanonical, hpayload⟩
    have hrun : columns.run payload = .ok (CandleColumns.ofCandles candles, []) :=
      columns_reads.mpr ⟨rfl, candles, hsized, hcanonical, rfl, hpayload⟩
    have hcolumns : CandleBatch.fromColumns (CandleColumns.ofCandles candles) =
        .ok ⟨_, CandleBatch.ofCandles_aligned candles⟩ :=
      CandleBatch.fromColumns_ok.mpr rfl
    rw [hrun]
    simp only [hcolumns, Except.ok.injEq]
    exact hbatch rfl hcolumns

/-- A payload is decoded to the candles it is the payload of. -/
theorem decode_iff_encode {payload : List UInt8} {candles : List Candle} :
    decode payload = .ok candles ↔
      (∀ c ∈ candles, c.All fun d => d.canonical = d) ∧ encode candles = .ok payload := by
  have hwritten : (∀ c ∈ candles, c.All fun d => d.canonical = d) →
      (candles.map fun c => c.map written) = asText candles := by
    intro hcanonical
    apply List.map_congr_left
    intro c hc
    have hall := hcanonical c hc
    apply CandleOf.map_congr
    exact ⟨written_canonical hall.open_, written_canonical hall.high, written_canonical hall.low,
      written_canonical hall.close, written_canonical hall.volume⟩
  rw [decode_ok, encode_ok]
  constructor
  · rintro ⟨hsized, hcanonical, hpayload⟩
    exact ⟨hcanonical, hsized, by rw [hwritten hcanonical]; exact hpayload⟩
  · rintro ⟨hcanonical, hsized, hpayload⟩
    exact ⟨hsized, hcanonical, by rw [← hwritten hcanonical]; exact hpayload⟩

/-- Segment format 1 is a bijection between the lists of candles a segment
can hold, up to the sign of a zero, and the byte strings it accepts. -/
theorem segment_format_bijective :
    (∀ candles, Sized candles → ∃ payload, encode candles = .ok payload ∧
        payload.length ≤ maxPayloadBytes ∧
        (∀ [Zstd] (frame : List UInt8), Zstd.contentSize frame = some payload.length →
          decompress frame ≠ .error .tooLarge) ∧
        decode payload = .ok (candles.map unsigned)) ∧
      (∀ payload candles, decode payload = .ok candles → encode candles = .ok payload) ∧
      (∀ payload other candles, decode payload = .ok candles → decode other = .ok candles →
        payload = other) ∧
      ∀ payload, (∀ candles, encode candles ≠ .ok payload) →
        ∃ fault, decode payload = .error fault := by
  have hdecode : ∀ payload candles, decode payload = .ok candles → encode candles = .ok payload :=
    fun payload candles h => (decode_iff_encode.mp h).2
  refine ⟨?_, hdecode, ?_, ?_⟩
  · intro candles hsized
    have hencode := encode_ok.mpr ⟨hsized, rfl⟩
    have hlen : (layout (candles.map fun c => c.map written)).length ≤ maxPayloadBytes := by
      obtain ⟨htext, hexact, -⟩ := encodeText_ok.mp hencode
      exact layout_length_le htext hexact
    refine ⟨_, hencode, hlen, fun frame hsize => decompress_fits hlen hsize, ?_⟩
    rw [← encode_unsigned] at hencode
    apply decode_iff_encode.mpr
    refine ⟨?_, hencode⟩
    intro c hc
    obtain ⟨candle, -, rfl⟩ := List.mem_map.mp hc
    exact unsigned_canonical candle
  · intro payload other candles hpayload hother
    have hsame := (hdecode payload candles hpayload).symm.trans (hdecode other candles hother)
    exact Except.ok.inj hsame
  · intro payload hnone
    cases hdecoded : decode payload with
    | error fault => exact ⟨fault, rfl⟩
    | ok candles => exact absurd (hdecode payload candles hdecoded) (hnone candles)

end

/-- `rust_decimal` on exact texts. -/
@[reducible] def exactTextParser : DecimalParser := ⟨Decimal.fromExactText⟩

attribute [local instance] exactTextParser

theorem exactTextParser_exact : ExactParser := ⟨fun _ h => Decimal.fromExactText_toText h⟩

/-- A candle with a trailing zero in its prices, and a negative zero for its
volume. -/
def sampleCandle : Candle where
  openTimeMs := 0
  closeTimeMs := 59999
  open_ := .hundredths 110
  high := .hundredths 120
  low := .hundredths 100
  close := .hundredths 110
  volume := .negate (.tenths 0)
  trades := none

theorem sampleCandle_reads_back : ∃ payload, encode [sampleCandle] = .ok payload ∧
    decode payload = .ok [unsigned sampleCandle] := by
  have hexact := exactTextParser_exact
  obtain ⟨payload, hencode, -, -, hdecode⟩ :=
    segment_format_bijective.1 [sampleCandle] ⟨by decide, by decide, by decide⟩
  exact ⟨payload, hencode, hdecode⟩

end QuantForge.Segments
