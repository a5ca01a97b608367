import QuantForge.Math.Numeral

namespace QuantForge.LittleEndian

/-- The `size` bytes of a number, the least significant first. -/
def bytes (size n : Nat) : List UInt8 := (Radix.digits 256 size n).map UInt8.ofNat

def value (word : List UInt8) : Nat := Radix.value 256 (word.map UInt8.toNat)

@[simp] theorem bytes_length (size n : Nat) : (bytes size n).length = size := by simp [bytes]

theorem map_toNat_ofNat {ds : List Nat} (h : ∀ d ∈ ds, d < 256) :
    (ds.map UInt8.ofNat).map UInt8.toNat = ds := by
  rw [List.map_map]
  refine (List.map_congr_left fun d hd => ?_).trans (List.map_id _)
  rw [Function.comp_apply, UInt8.toNat_ofNat']
  exact Nat.mod_eq_of_lt (h d hd)

theorem value_bytes {size n : Nat} (h : n < 256 ^ size) : value (bytes size n) = n := by
  rw [value, bytes, map_toNat_ofNat (Radix.digits_lt (by decide) size n), Radix.value_digits,
    Nat.mod_eq_of_lt h]

theorem toNat_lt (word : List UInt8) : ∀ d ∈ word.map UInt8.toNat, d < 256 := by
  intro d hd
  obtain ⟨byte, -, rfl⟩ := List.mem_map.mp hd
  exact byte.toNat_lt

theorem value_lt (word : List UInt8) : value word < 256 ^ word.length := by
  have hlt := Radix.value_lt (word.map UInt8.toNat) (toNat_lt word)
  rwa [List.length_map] at hlt

theorem bytes_value (word : List UInt8) : bytes word.length (value word) = word := by
  have hdigits := Radix.digits_value (word.map UInt8.toNat) (toNat_lt word)
  rw [List.length_map] at hdigits
  rw [bytes, value, hdigits, List.map_map]
  exact (List.map_congr_left fun byte _ => UInt8.ofNat_toNat).trans (List.map_id word)

def u32 (w : UInt32) : List UInt8 := bytes 4 w.toNat

def readU32 (word : List UInt8) : UInt32 := UInt32.ofNat (value word)

def u64 (w : UInt64) : List UInt8 := bytes 8 w.toNat

def readU64 (word : List UInt8) : UInt64 := UInt64.ofNat (value word)

def i64 (w : Int64) : List UInt8 := u64 w.toUInt64

def readI64 (word : List UInt8) : Int64 := (readU64 word).toInt64

theorem readU32_iff {word : List UInt8} {w : UInt32} (h : word.length = 4) :
    readU32 word = w ↔ word = u32 w := by
  constructor
  · rintro rfl
    have hlt : value word < 2 ^ 32 := by
      have hbound := value_lt word
      rwa [h] at hbound
    have hback := bytes_value word
    rw [h] at hback
    rw [u32, readU32, UInt32.toNat_ofNat', Nat.mod_eq_of_lt hlt, hback]
  · rintro rfl
    rw [readU32, u32, value_bytes (by simpa using w.toNat_lt), UInt32.ofNat_toNat]

theorem readU64_iff {word : List UInt8} {w : UInt64} (h : word.length = 8) :
    readU64 word = w ↔ word = u64 w := by
  constructor
  · rintro rfl
    have hlt : value word < 2 ^ 64 := by
      have hbound := value_lt word
      rwa [h] at hbound
    have hback := bytes_value word
    rw [h] at hback
    rw [u64, readU64, UInt64.toNat_ofNat', Nat.mod_eq_of_lt hlt, hback]
  · rintro rfl
    rw [readU64, u64, value_bytes (by simpa using w.toNat_lt), UInt64.ofNat_toNat]

theorem readI64_iff {word : List UInt8} {w : Int64} (h : word.length = 8) :
    readI64 word = w ↔ word = i64 w := by
  rw [i64, ← readU64_iff h, readI64]
  constructor
  · rintro rfl
    simp
  · intro hread
    rw [hread]
    simp

end QuantForge.LittleEndian
