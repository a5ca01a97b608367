import Mathlib.Tactic.Common

namespace QuantForge.Protocol

/-- A protocol version. They count up from 1. -/
structure ProtoVersion where
  number : UInt32
  deriving DecidableEq

/-- How two peers fail to settle on a version. -/
inductive VersionError
  | invalidVersionRange (minSupported protoVersion : UInt32)
  | peerTooOld (peerNewest oldestSupported : UInt32)
  | peerTooNew (peerOldest newestSupported : UInt32)
  deriving DecidableEq

/-- The versions that one side speaks, both ends included. -/
structure VersionRange where
  minSupported : ProtoVersion
  protoVersion : ProtoVersion
  deriving DecidableEq

namespace VersionRange

def holdsAVersion (range : VersionRange) : Bool :=
  1 ≤ range.minSupported.number && range.minSupported.number ≤ range.protoVersion.number

def supports (range : VersionRange) (version : ProtoVersion) : Bool :=
  range.holdsAVersion && range.minSupported.number ≤ version.number &&
    version.number ≤ range.protoVersion.number

def invalid (range : VersionRange) : VersionError :=
  .invalidVersionRange range.minSupported.number range.protoVersion.number

/-- The version that a session between two sides runs at. -/
def negotiate (self peer : VersionRange) : Except VersionError ProtoVersion :=
  if !self.holdsAVersion then .error self.invalid
  else if !peer.holdsAVersion then .error peer.invalid
  else if peer.protoVersion.number < self.minSupported.number then
    .error (.peerTooOld peer.protoVersion.number self.minSupported.number)
  else if self.protoVersion.number < peer.minSupported.number then
    .error (.peerTooNew peer.minSupported.number self.protoVersion.number)
  else if self.protoVersion.number ≤ peer.protoVersion.number then .ok self.protoVersion
  else .ok peer.protoVersion

/-- A version that both sides speak. -/
def Shared (a b : VersionRange) (version : ProtoVersion) : Prop :=
  a.supports version = true ∧ b.supports version = true

/-- The newest version that both sides speak. -/
structure Newest (a b : VersionRange) (version : ProtoVersion) : Prop where
  shared : Shared a b version
  most : ∀ other, Shared a b other → other.number.toNat ≤ version.number.toNat

theorem holdsAVersion_iff {range : VersionRange} :
    range.holdsAVersion = true ↔ 1 ≤ range.minSupported.number.toNat ∧
      range.minSupported.number.toNat ≤ range.protoVersion.number.toNat := by
  simp [holdsAVersion, UInt32.le_iff_toNat_le]

theorem supports_iff {range : VersionRange} {version : ProtoVersion} :
    range.supports version = true ↔ 1 ≤ range.minSupported.number.toNat ∧
      range.minSupported.number.toNat ≤ version.number.toNat ∧
      version.number.toNat ≤ range.protoVersion.number.toNat := by
  simp only [supports, Bool.and_eq_true, decide_eq_true_eq, holdsAVersion_iff,
    UInt32.le_iff_toNat_le]
  omega

theorem Newest.swap {a b : VersionRange} {version : ProtoVersion} (h : Newest a b version) :
    Newest b a version := ⟨h.shared.symm, fun other hother => h.most other hother.symm⟩

theorem Newest.unique {a b : VersionRange} {v w : ProtoVersion} (hv : Newest a b v)
    (hw : Newest a b w) : v = w := by
  have hsame := Nat.le_antisymm (hw.most v hv.shared) (hv.most w hw.shared)
  cases v
  cases w
  exact congrArg ProtoVersion.mk (UInt32.toNat_inj.mp hsame)

theorem negotiate_ok {a b : VersionRange} {version : ProtoVersion}
    (h : a.negotiate b = .ok version) : Newest a b version := by
  have hmost : ∀ other, Shared a b other →
      other.number.toNat ≤ a.protoVersion.number.toNat ∧
        other.number.toNat ≤ b.protoVersion.number.toNat :=
    fun other hother => ⟨(supports_iff.mp hother.1).2.2, (supports_iff.mp hother.2).2.2⟩
  unfold negotiate at h
  split_ifs at h with ha hb hold hnew hless
  · cases h
    simp only [Bool.not_eq_true', Bool.not_eq_false, holdsAVersion_iff] at ha hb
    rw [UInt32.lt_iff_toNat_lt] at hold hnew
    rw [UInt32.le_iff_toNat_le] at hless
    refine ⟨⟨supports_iff.mpr ?_, supports_iff.mpr ?_⟩, fun other hother => (hmost other hother).1⟩
    · omega
    · omega
  · cases h
    simp only [Bool.not_eq_true', Bool.not_eq_false, holdsAVersion_iff] at ha hb
    rw [UInt32.lt_iff_toNat_lt] at hold hnew
    rw [UInt32.le_iff_toNat_le] at hless
    refine ⟨⟨supports_iff.mpr ?_, supports_iff.mpr ?_⟩, fun other hother => (hmost other hother).2⟩
    · omega
    · omega

/-- Sides that settle on nothing speak no version that both do. -/
theorem negotiate_error {a b : VersionRange} {e : VersionError} (h : a.negotiate b = .error e)
    (version : ProtoVersion) : ¬Shared a b version := by
  rintro ⟨hleft, hright⟩
  rw [supports_iff] at hleft hright
  unfold negotiate at h
  split_ifs at h with ha hb hold hnew hless
  · rw [Bool.not_eq_true', ← Bool.not_eq_true, holdsAVersion_iff] at ha
    omega
  · rw [Bool.not_eq_true', ← Bool.not_eq_true, holdsAVersion_iff] at hb
    omega
  · rw [UInt32.lt_iff_toNat_lt] at hold
    omega
  · rw [UInt32.lt_iff_toNat_lt] at hnew
    omega

theorem negotiate_iff {a b : VersionRange} {version : ProtoVersion} :
    a.negotiate b = .ok version ↔ Newest a b version := by
  refine ⟨negotiate_ok, ?_⟩
  intro hnewest
  cases hsettled : a.negotiate b with
  | error e => exact absurd hnewest.shared (negotiate_error hsettled version)
  | ok settled => rw [(negotiate_ok hsettled).unique hnewest]

/-- Two peers settle on the newest version that both speak, the same whichever of them
asks, and fail to only where they share none. -/
theorem peers_settle (a b : VersionRange) :
    (∀ version, a.negotiate b = .ok version ↔ Newest a b version) ∧
      (∀ version, a.negotiate b = .ok version ↔ b.negotiate a = .ok version) ∧
      ((∃ e, a.negotiate b = .error e) ↔ ∀ version, ¬Shared a b version) := by
  refine ⟨fun version => negotiate_iff, ?_, ?_⟩
  · intro version
    rw [negotiate_iff, negotiate_iff]
    exact ⟨Newest.swap, Newest.swap⟩
  · constructor
    · rintro ⟨e, he⟩
      exact negotiate_error he
    · intro hnone
      cases hsettled : a.negotiate b with
      | error e => exact ⟨e, rfl⟩
      | ok version => exact absurd (negotiate_ok hsettled).shared (hnone version)

end VersionRange

end QuantForge.Protocol
