import QuantForge.Framework.Machine
import QuantForge.Storage.Sqlite.Consistent

namespace QuantForge.Sqlite

open Refresh Segments

/-- What one refresh read of a window. -/
structure Taken where
  window : Segments.Window
  snapshot : Snapshot

/-- A market's store, the snapshots its refreshes read, and the windows they
packed from them. -/
structure World where
  store : Store
  taken : List Taken
  packs : List (Taken × Packed)

/-- The atomic steps of writers and refreshes. A refresh packs one of the
snapshots read, and writes back one of the windows packed. -/
inductive Op
  | upsertCandles (batch : List Candle)
  | readWindow (windowStartMs : Int64)
  | pack (taken : Nat)
  | writeWindow (packed : Nat)

/-- Why a step did nothing. -/
inductive Refusal
  | storage (error : StorageError)
  | blocked (error : SegmentError)
  | absent

def World.empty : World := ⟨Store.empty, [], []⟩

section

variable [DecimalParser] [Sha256] [Zstd]

/-- Any number of writers and refreshes of one market, one step at a time. -/
def machine (interval : Interval) : Machine World Op Refusal where
  step world
    | .upsertCandles batch =>
      match world.store.upsertCandles interval batch with
      | .ok (_, store) => (.ok (), { world with store := store })
      | .error error => (.error (.storage error), world)
    | .readWindow windowStartMs =>
      match Segments.window interval windowStartMs with
      | none => (.error (.storage (Storage.outOfRange windowStartMs)), world)
      | some window =>
        match world.store.readWindow window with
        | none => (.error .absent, world)
        | some snapshot => (.ok (), { world with taken := world.taken ++ [⟨window, snapshot⟩] })
    | .pack taken =>
      match world.taken[taken]? with
      | none => (.error .absent, world)
      | some taken =>
        match pack taken.snapshot with
        | .error error => (.error (.blocked error), world)
        | .ok packed => (.ok (), { world with packs := world.packs ++ [(taken, packed)] })
    | .writeWindow packed =>
      match world.packs[packed]? with
      | none => (.error .absent, world)
      | some (taken, packed) =>
        let (_, store) := world.store.writeWindow taken.window.start taken.snapshot.id packed
        (.ok (), { world with store := store })

/-- The payload a step takes the digest of. -/
def digested (world : World) : Op → Option (List UInt8)
  | .pack taken => world.taken[taken]?.bind fun t => (encodeText t.snapshot.candles).toOption
  | _ => none

/-- The payloads met in a run. -/
def met (interval : Interval) (ops : List Op) : Set (List UInt8) :=
  fun payload => (machine interval).Occurs
    (fun world op => digested world op = some payload) World.empty ops

/-- The store is consistent, and what the refreshes hold is faithful. -/
structure Sound (interval : Interval) (payloads : Set (List UInt8)) (world : World) : Prop where
  store : Consistent interval payloads world.store
  taken : ∀ t ∈ world.taken, Faithful interval world.store t.window t.snapshot
  packs : ∀ p ∈ world.packs, p.1 ∈ world.taken ∧ pack p.1.snapshot = .ok p.2 ∧
    ∀ payload, encodeText p.1.snapshot.candles = .ok payload → payload ∈ payloads

theorem sound_empty (interval : Interval) (payloads : Set (List UInt8)) :
    Sound interval payloads World.empty := by
  have hempty : ∀ w : Segments.Window, Indexed payloads Store.empty w.start [] := fun _ => rfl
  refine ⟨⟨⟨?_, ?_, ?_⟩, ?_, ?_, ?_, fun w _ _ => hempty w⟩, ?_, ?_⟩ <;>
    simp [World.empty, Store.empty, Table.empty]

/-- Each step keeps the store consistent and what the refreshes hold
faithful. -/
theorem sound_next [ExactParser] {interval : Interval} {payloads : Set (List UInt8)} {world : World}
    {op : Op} (hinj : Set.InjOn Sha256.digest payloads) (h : Sound interval payloads world)
    (hmet : ∀ payload, digested world op = some payload → payload ∈ payloads) :
    Sound interval payloads ((machine interval).next world op) := by
  cases op with
  | upsertCandles batch =>
    cases hbatch : world.store.upsertCandles interval batch with
    | error error =>
      simp only [Machine.next, machine, hbatch]
      exact h
    | ok answer =>
      obtain ⟨written, store⟩ := answer
      have hmarked := Store.upsertCandles_ok hbatch
      simp only [Machine.next, machine, hbatch]
      exact ⟨upsert_consistent hmarked h.store, fun t ht => upsert_faithful hmarked (h.taken t ht),
        h.packs⟩
  | readWindow windowStartMs =>
    cases hwindow : Segments.window interval windowStartMs with
    | none =>
      simp only [Machine.next, machine, hwindow]
      exact h
    | some window =>
      cases hread : world.store.readWindow window with
      | none =>
        simp only [Machine.next, machine, hwindow, hread]
        exact h
      | some snapshot =>
        simp only [Machine.next, machine, hwindow, hread]
        have hnew := readWindow_faithful h.store.marks (Segments.window_start hwindow) hread
        refine ⟨h.store, ?_, ?_⟩
        · intro t ht
          rcases List.mem_append.mp ht with ht | ht
          · exact h.taken t ht
          · rw [List.mem_singleton.mp ht]
            exact hnew
        · intro p hp
          obtain ⟨htaken, hpack, hpayload⟩ := h.packs p hp
          exact ⟨List.mem_append_left _ htaken, hpack, hpayload⟩
  | pack index =>
    cases htaken : world.taken[index]? with
    | none =>
      simp only [Machine.next, machine, htaken]
      exact h
    | some taken =>
      cases hpack : pack taken.snapshot with
      | error error =>
        simp only [Machine.next, machine, htaken, hpack]
        exact h
      | ok packed =>
        simp only [Machine.next, machine, htaken, hpack]
        refine ⟨h.store, h.taken, ?_⟩
        intro p hp
        rcases List.mem_append.mp hp with hp | hp
        · exact h.packs p hp
        · rw [List.mem_singleton.mp hp]
          refine ⟨List.mem_of_getElem? htaken, hpack, ?_⟩
          intro payload hpayload
          apply hmet payload
          simp [digested, htaken, hpayload, Except.toOption]
  | writeWindow index =>
    cases hpacked : world.packs[index]? with
    | none =>
      simp only [Machine.next, machine, hpacked]
      exact h
    | some entry =>
      obtain ⟨taken, packed⟩ := entry
      obtain ⟨hmem, hpack, hpayload⟩ := h.packs _ (List.mem_of_getElem? hpacked)
      simp only [Machine.next, machine, hpacked]
      exact ⟨writeWindow_consistent hinj h.store (h.taken taken hmem) hpack hpayload,
        fun t ht => writeWindow_faithful (h.taken t ht), h.packs⟩

/-- Every run leaves the store consistent. -/
theorem sound_run [ExactParser] {interval : Interval} {ops : List Op}
    (hinj : Set.InjOn Sha256.digest (met interval ops)) :
    Sound interval (met interval ops) ((machine interval).run World.empty ops) := by
  have hmet : (machine interval).Every
      (fun world op => ∀ payload, digested world op = some payload → payload ∈ met interval ops)
      World.empty ops :=
    (machine interval).every_occurs _ _ fun payload hpayload => hpayload
  exact (machine interval).run_history (fun _ => Sound interval (met interval ops))
    (sound_empty interval (met interval ops)) (fun _ _ h hop => sound_next hinj h hop) ops hmet

end

end QuantForge.Sqlite
