import QuantForge.Storage.Postgres.Published
import QuantForge.Storage.Sqlite.Served

namespace QuantForge.Postgres.Protocol

open Refresh
open Sqlite (CandleTable Consistent Entry)

/-- Where the candles of a range come from, in one snapshot of the rows. An entry
that overlaps the range starts no earlier than the window of its first time,
which is as far as the key reads. -/
def resolveSegments (interval : Interval) (rows : Sqlite.Store) (firstOpenMs lastOpenMs : Int64) :
    Except StorageError SegmentPlan := do
  let _ ← checkRange firstOpenMs lastOpenMs
  let lowestEntry := ((Segments.window interval firstOpenMs).map (·.start)).getD Int64.minValue
  match ← rows.tipWindow interval with
  | none => return allTip firstOpenMs lastOpenMs
  | some tipWindow =>
    let start := tipStart tipWindow (rows.dirty.lowest.map (·.windowStartMs))
    let entries := rows.index.rows.filter fun e =>
      lowestEntry ≤ e.windowStartMs && Sqlite.Store.listed start firstOpenMs lastOpenMs e
    return plan (entries.filterMap rows.segmentRef) start firstOpenMs lastOpenMs

section

variable [DecimalParser] [Sha256] [Segments.Zstd] {interval : Interval}
  {payloads : Set (List UInt8)} {rows : Sqlite.Store}

/-- An entry that a plan lists starts where the key is read. -/
theorem listed_above (hs : Consistent interval payloads rows) {start firstOpenMs lastOpenMs : Int64}
    (hclean : Sqlite.Clean interval rows start) {e : Entry} (he : e ∈ rows.index.rows)
    (hlisted : Sqlite.Store.listed start firstOpenMs lastOpenMs e = true) :
    ((Segments.window interval firstOpenMs).map (·.start)).getD Int64.minValue ≤
      e.windowStartMs := by
  obtain ⟨hbelow, hfirst, -⟩ := Sqlite.listed_iff.mp hlisted
  obtain ⟨w, hw, hwstart, -, -, hdescribes⟩ := Sqlite.entry_current hs hclean he hbelow
  rw [Int64.le_iff_toInt_le, ← hwstart]
  cases hwindow : Segments.window interval firstOpenMs with
  | none =>
    rw [Option.map_none, Option.getD_none, Int64.toInt_minValue]
    exact Int64.le_toInt w.start
  | some v =>
    rw [Option.map_some, Option.getD_some]
    obtain ⟨last, hlast, hopens⟩ := Option.map_eq_some_iff.mp hdescribes.last
    have hinside := (CandleTable.mem_within.mp (List.mem_of_getLast? hlast)).2
    have hlow := (Segments.contains_iff.mp hinside).2
    have hhigh := (Segments.contains_iff.mp (Segments.window_self hwindow)).1
    rw [hopens] at hlow
    by_contra hlt
    have hapart := Segments.window_apart hw (Segments.window_start hwindow) (not_le.mp hlt)
    omega

/-- Reading the index from the window of the range's first time on lists what
reading all of it does. -/
theorem resolve_agrees (hs : Consistent interval payloads rows) (firstOpenMs lastOpenMs : Int64) :
    resolveSegments interval rows firstOpenMs lastOpenMs =
      rows.resolveSegments interval firstOpenMs lastOpenMs := by
  rw [resolveSegments, Sqlite.Store.resolveSegments]
  congr 1
  funext _
  cases hnewest : rows.candles.highest with
  | none =>
    simp only [Sqlite.Store.tipWindow, hnewest]
    rfl
  | some newest =>
    obtain ⟨w, hw⟩ := hs.placed newest (List.mem_of_getLast? hnewest)
    have htip : rows.tipWindow interval = .ok (some w.start) := by
      have hstart := Storage.windowStart_ok.mpr ⟨w, hw, rfl⟩
      simp only [Sqlite.Store.tipWindow, hnewest, hstart]
      rfl
    have hclean := Sqlite.tipStart_clean hs.marks ⟨w, Segments.window_start hw, rfl⟩
    simp only [htip]
    have hentries : (rows.index.rows.filter fun e =>
        decide (((Segments.window interval firstOpenMs).map (·.start)).getD Int64.minValue ≤
          e.windowStartMs) && Sqlite.Store.listed
            (tipStart w.start (rows.dirty.lowest.map (·.windowStartMs))) firstOpenMs lastOpenMs e) =
        rows.index.rows.filter (Sqlite.Store.listed
          (tipStart w.start (rows.dirty.lowest.map (·.windowStartMs))) firstOpenMs lastOpenMs) := by
      apply List.filter_congr
      intro e he
      rw [Bool.eq_iff_iff, Bool.and_eq_true, decide_eq_true_eq]
      exact ⟨And.right, fun hlisted => ⟨listed_above hs hclean he hlisted, hlisted⟩⟩
    exact congrArg (fun entries => Except.ok (plan (entries.filterMap rows.segmentRef)
      (tipStart w.start (rows.dirty.lowest.map (·.windowStartMs))) firstOpenMs lastOpenMs)) hentries

end

abbrev Op := Crowd.Op Call Choice

abbrev Scene := Crowd.Scene Database Client

def Scene.empty : Scene := ⟨Database.empty, []⟩

section

variable [DecimalParser] [Sha256] [Segments.Zstd]

/-- The scene that a run of statements leaves. -/
def reached (interval : Interval) (ops : List Op) : Scene :=
  (crowd interval).machine.run Scene.empty ops

def Client.digested : Client → Option (List UInt8)
  | .packs taken => (Segments.encodeText taken.snapshot.candles).toOption
  | _ => none

/-- The payload a step takes the digest of. -/
def digested (s : Scene) : Op → Option (List UInt8)
  | .acts who .runs => s.members[who]?.bind Client.digested
  | _ => none

/-- The payloads met in a run. -/
def met (interval : Interval) (ops : List Op) : Set (List UInt8) :=
  fun payload => (crowd interval).machine.Occurs (fun s op => digested s op = some payload)
    Scene.empty ops

variable {interval : Interval}

omit [Sha256] [Segments.Zstd] in
theorem packs_iff {payloads : Set (List UInt8)} (who : Nat) (db : Database) (client : Client) :
    Packs payloads who .runs db client ↔
      ∀ payload, client.digested = some payload → payload ∈ payloads := by
  cases client with
  | packs taken =>
    simp only [Packs, Client.digested]
    cases Segments.encodeText taken.snapshot.candles <;> simp [Except.toOption]
  | writer w => simp [Packs, Client.digested]
  | reads window => simp [Packs, Client.digested]
  | writesBack taken packed stage => simp [Packs, Client.digested]
  | done => simp [Packs, Client.digested]

omit [Sha256] [Segments.Zstd] in
theorem takes_iff {payloads : Set (List UInt8)} (s : Scene) (op : Op) :
    (∀ payload, digested s op = some payload → payload ∈ payloads) ↔
      Crowd.Takes (Packs payloads) s op := by
  cases op with
  | enters call => simp [digested, Crowd.Takes]
  | acts who choice =>
    cases choice with
    | fails => simp [digested, Crowd.Takes, Packs]
    | runs =>
      simp only [digested, Crowd.Takes, packs_iff, Option.bind_eq_some_iff]
      constructor
      · intro h client hclient payload hpayload
        exact h payload ⟨client, hclient, hpayload⟩
      · rintro h payload ⟨client, hclient, hpayload⟩
        exact h client hclient payload hpayload

theorem packs_run (interval : Interval) (ops : List Op) :
    (crowd interval).machine.Every (Crowd.Takes (Packs (met interval ops))) Scene.empty ops := by
  rw [← (crowd interval).machine.every_congr takes_iff]
  exact (crowd interval).machine.every_occurs _ _ fun payload hpayload => hpayload

variable [ExactParser]

/-- What the clients rely on, and a sound database. -/
abbrev Safe (interval : Interval) (payloads : Set (List UInt8)) : Scene → Prop :=
  Crowd.Holds (Sound interval payloads) (Relies interval payloads)

omit [ExactParser] in
theorem safe_empty (interval : Interval) (payloads : Set (List UInt8)) :
    Safe interval payloads Scene.empty := by
  refine ⟨⟨(Sqlite.sound_empty interval payloads).store, ?_, ?_, ?_⟩, ?_⟩
  · intro a b l ha
    cases ha
  · intro who n held
    cases held
  · intro who n held
    cases held
  · intro who client hclient
    simp [Scene.empty] at hclient

/-- In every scene that a run reaches, whatever the order of its statements, the
committed rows are consistent. -/
theorem safe_run {payloads : Set (List UInt8)} {ops : List Op}
    (hinj : Set.InjOn Sha256.digest payloads)
    (hpacks : (crowd interval).machine.Every (Crowd.Takes (Packs payloads)) Scene.empty ops) :
    Safe interval payloads (reached interval ops) :=
  Crowd.keeps_run (crowd_keeps hinj) (safe_empty interval payloads) hpacks

/-- A committed segment stays. -/
theorem segments_stay {payloads : Set (List UInt8)} {s : Scene} {later : List Op}
    (hinj : Set.InjOn Sha256.digest payloads) (hs : Safe interval payloads s)
    (hpacks : (crowd interval).machine.Every (Crowd.Takes (Packs payloads)) s later)
    {hash : List UInt8} {found : Sqlite.Segment}
    (h : s.world.committed.segment hash = some found) :
    ((crowd interval).machine.run s later).world.committed.segment hash = some found := by
  have hstays := Crowd.run_relates
    (R := fun db v : Database => ∀ hash found, db.committed.segment hash = some found →
      v.committed.segment hash = some found)
    (fun _ _ _ h => h)
    (fun hdb hr hpacks hstep => (step_kept hinj hdb hr hpacks hstep).leaves.stored)
    (crowd_keeps hinj) hs hpacks
  generalize ((crowd interval).machine.run s later).world = last at hstays ⊢
  induction hstays with
  | refl => exact h
  | tail _ step ih => exact step hash found ih

/-- A segment that opens, opens to the same candles ever after. -/
theorem fetches_stay {payloads : Set (List UInt8)} {s : Scene} {later : List Op}
    (hinj : Set.InjOn Sha256.digest payloads) (hs : Safe interval payloads s)
    (hpacks : (crowd interval).machine.Every (Crowd.Takes (Packs payloads)) s later)
    {hash : List UInt8} {answer : Except Segments.SegmentError (List Candle)}
    (h : s.world.committed.fetch hash = some answer) :
    ((crowd interval).machine.run s later).world.committed.fetch hash = some answer := by
  rw [Sqlite.Store.fetch, Sqlite.Store.loadSegment, Option.map_map, Option.map_eq_some_iff] at h ⊢
  obtain ⟨segment, hfound, hopens⟩ := h
  exact ⟨segment, segments_stay hinj hs hpacks hfound, hopens⟩

/-- The protocol is safe statement by statement. Whatever writers and refreshes
run, whatever the order of their statements and whichever of them fail: every
window is marked, or indexed under exactly its candles; and the plan of a range
serves exactly the candles the store holds in it, from segments that open to the
same candles however the run goes on. -/
theorem plans_serve [Segments.LawfulZstd] (interval : Interval) (ops later : List Op)
    (hinj : Set.InjOn Sha256.digest (met interval (ops ++ later))) (firstOpenMs lastOpenMs : Int64)
    (hle : firstOpenMs ≤ lastOpenMs) :
    let rows := (reached interval ops).world.committed
    let after := (reached interval (ops ++ later)).world.committed
    Consistent interval (met interval (ops ++ later)) rows ∧
      ∃ plan decoded, resolveSegments interval rows firstOpenMs lastOpenMs = .ok plan ∧
        List.Forall₂ (fun segment candles => after.fetch segment.hash = some (.ok candles))
          plan.segments decoded ∧
        rows.loadCandles (.between firstOpenMs lastOpenMs) = (do
          let tip ← rows.loadTip plan
          return (decoded.flatten.filter fun c =>
            firstOpenMs ≤ c.openTimeMs && c.openTimeMs ≤ lastOpenMs) ++ tip) := by
  intro rows after
  obtain ⟨hfirst, hlater⟩ := ((crowd interval).machine.every_append _ _ ops later).mp
    (packs_run interval (ops ++ later))
  have hsafe := safe_run hinj hfirst
  have hconsistent := hsafe.world.consistent
  obtain ⟨plan, decoded, hplan, hfetched, hserves⟩ :=
    Sqlite.resolve_serves hinj hconsistent hle
  rw [← resolve_agrees hconsistent] at hplan
  refine ⟨hconsistent, plan, decoded, hplan, ?_, hserves⟩
  apply hfetched.imp
  intro segment candles hfetch
  have hstays := fetches_stay hinj hsafe hlater hfetch
  rw [reached, ← Machine.run_append] at hstays
  exact hstays

end

section Sample

open Sqlite (sampleBar samplePayload)

attribute [local instance] Segments.exactTextParser Sqlite.sampleSha256 Sqlite.sampleZstd

/-- A writer's two days of candles, of which a refresh packs the first while the
writer is at another batch. -/
def sampleOps : List Op :=
  .enters (.upsertCandles [sampleBar 0, sampleBar 86400000]) ::
    List.replicate 8 (.acts 0 .runs) ++
    [.enters (.buildWindow 0), .enters (.upsertCandles [sampleBar 172800000]), .acts 2 .runs] ++
    List.replicate 7 (.acts 1 .runs)

theorem sampleOps_met : ∀ payload ∈ met .m1 (sampleOps ++ [.acts 2 .runs]), payload = samplePayload := by
  intro payload h
  have hpack : digested (reached .m1 (sampleOps.take 13)) (.acts 1 .runs) = some samplePayload := by
    decide +kernel
  rcases h with h | h | h | h | h | h | h | h | h | h | h | h | h | h | h
  iterate 13 cases h
  · exact Option.some.inj (h.symm.trans hpack)
  rcases h with h | h | h | h | h | h | h
  all_goals cases h

theorem sampleOps_serve :
    let rows := (reached .m1 sampleOps).world.committed
    let after := (reached .m1 (sampleOps ++ [.acts 2 .runs])).world.committed
    (resolveSegments .m1 rows 0 86400000).toOption.map (fun plan => plan.segments.length) = some 1 ∧
    Consistent .m1 (met .m1 (sampleOps ++ [.acts 2 .runs])) rows ∧
      ∃ plan decoded, resolveSegments .m1 rows 0 86400000 = .ok plan ∧
        List.Forall₂ (fun segment candles => after.fetch segment.hash = some (.ok candles))
          plan.segments decoded ∧
        rows.loadCandles (.between 0 86400000) = (do
          let tip ← rows.loadTip plan
          return (decoded.flatten.filter fun c =>
            (0 : Int64) ≤ c.openTimeMs && c.openTimeMs ≤ 86400000) ++ tip) := by
  have hexact := Segments.exactTextParser_exact
  have hlawful := Sqlite.sampleZstd_lawful
  refine ⟨by decide +kernel, plans_serve .m1 sampleOps [.acts 2 .runs] ?_ 0 86400000 (by decide)⟩
  intro payload hpayload other hother _
  rw [sampleOps_met payload hpayload, sampleOps_met other hother]

end Sample

end QuantForge.Postgres.Protocol
