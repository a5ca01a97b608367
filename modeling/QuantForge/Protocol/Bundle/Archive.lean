import QuantForge.Math.Numeral
import QuantForge.Protocol.Bundle.Path

namespace QuantForge.Bundle

/-- A tar block. -/
def block : Nat := 512

/-- The two zero blocks that end an archive. -/
def endBytes : Nat := 2 * block

/-- The fields of a ustar header, as name, start and end. -/
def fields : List (String × Nat × Nat) :=
  [("name", 0, 100),
   ("mode", 100, 108),
   ("uid", 108, 116),
   ("gid", 116, 124),
   ("size", 124, 136),
   ("mtime", 136, 148),
   ("checksum", 148, 156),
   ("typeflag", 156, 157),
   ("linkname", 157, 257),
   ("magic", 257, 263),
   ("version", 263, 265),
   ("uname", 265, 297),
   ("gname", 297, 329),
   ("devmajor", 329, 337),
   ("devminor", 337, 345),
   ("prefix", 345, 500),
   ("pad", 500, 512)]

def zeros (n : Nat) : List UInt8 := List.replicate n 0

def ascii (s : String) : List UInt8 := s.toList.map fun c => UInt8.ofNat c.toNat

/-- `value` in octal, zero-padded on the left to `width` digits. -/
def octal (width value : Nat) : List UInt8 :=
  (Radix.digits 8 width value).reverse.map fun d => UInt8.ofNat (48 + d)

/-- The name, mode, owner, size and mtime fields. -/
def headerStart (name : List UInt8) (size : Nat) : List UInt8 :=
  name.take 100 ++ zeros (100 - name.length) ++ (ascii "0000644" ++ [0]) ++
    (ascii "0000000" ++ [0]) ++ (ascii "0000000" ++ [0]) ++ (octal 11 size ++ [0]) ++
    (ascii "00000000000" ++ [0])

/-- The fields after the checksum: a regular file, ustar magic and version,
and no names, device numbers or prefix. -/
def headerEnd : List UInt8 :=
  ascii "0" ++ zeros 100 ++ (ascii "ustar" ++ [0]) ++ ascii "00" ++ zeros 247

/-- The sum of a header's bytes, which counts the checksum field as eight
spaces. -/
def checksum (name : List UInt8) (size : Nat) : Nat :=
  ((headerStart name size ++ ascii "        " ++ headerEnd).map UInt8.toNat).sum

/-- The canonical header of a file named `name` holding `size` bytes. -/
def header (name : List UInt8) (size : Nat) : List UInt8 :=
  headerStart name size ++ (octal 6 (checksum name size) ++ [0, 32]) ++ headerEnd

/-- How many NUL bytes follow `len` bytes of data to fill its last block. -/
def padding (len : Nat) : Nat := (block - len % block) % block

/-- A file's header, data and padding. -/
def record (name data : List UInt8) : List UInt8 :=
  header name data.length ++ data ++ zeros (padding data.length)

/-- The canonical tar of `files`, which are sorted by path. -/
def write (files : List BundleFile) : List UInt8 :=
  (files.flatMap fun file => record (Bytes.utf8 file.path.text) file.contents) ++ zeros endBytes

@[simp] theorem zeros_length (n : Nat) : (zeros n).length = n := by simp [zeros]

@[simp] theorem octal_length (width value : Nat) : (octal width value).length = width := by
  simp [octal]

theorem ascii_lengths : (ascii "0000644").length = 7 ∧ (ascii "0000000").length = 7 ∧
    (ascii "00000000000").length = 11 := by decide

theorem headerStart_length (name : List UInt8) (size : Nat) :
    (headerStart name size).length = 148 := by
  obtain ⟨hmode, howner, hmtime⟩ := ascii_lengths
  simp only [headerStart, List.length_append, List.length_take, zeros_length, octal_length,
    List.length_singleton, hmode, howner, hmtime]
  omega

theorem headerEnd_length : headerEnd.length = 356 := by
  have hfixed : (ascii "0").length = 1 ∧ (ascii "ustar").length = 5 ∧
      (ascii "00").length = 2 := by decide
  simp only [headerEnd, List.length_append, zeros_length, List.length_singleton, hfixed.1,
    hfixed.2.1, hfixed.2.2]

@[simp] theorem header_length (name : List UInt8) (size : Nat) :
    (header name size).length = block := by
  simp only [header, List.length_append, headerStart_length, octal_length, headerEnd_length,
    List.length_cons, List.length_nil, block]

theorem padding_lt (len : Nat) : padding len < block :=
  Nat.mod_lt _ (by decide)

theorem padded_block (len : Nat) : (len + padding len) % block = 0 := by
  unfold padding block
  omega

/-- A record is a whole number of blocks. -/
theorem record_length (name data : List UInt8) :
    (record name data).length = block + (data.length + padding data.length) := by
  simp only [record, List.length_append, header_length, zeros_length]
  omega

theorem header_name {name : List UInt8} (hlen : name.length ≤ 100) (size : Nat) :
    (header name size).take 100 = name ++ zeros (100 - name.length) := by
  have hfield : (name ++ zeros (100 - name.length)).length = 100 := by
    simp only [List.length_append, zeros_length]
    omega
  unfold header headerStart
  rw [List.take_of_length_le hlen]
  simp only [List.append_assoc]
  rw [← List.append_assoc, List.take_append_of_le_length (by rw [hfield]),
    List.take_of_length_le (by rw [hfield])]

theorem header_size (name : List UInt8) (size : Nat) :
    ((header name size).drop 124).take 12 = octal 11 size ++ [0] := by
  have hbefore : (name.take 100 ++ zeros (100 - name.length) ++ (ascii "0000644" ++ [0]) ++
      (ascii "0000000" ++ [0]) ++ (ascii "0000000" ++ [0])).length = 124 := by
    obtain ⟨hmode, howner, -⟩ := ascii_lengths
    simp only [List.length_append, List.length_take, zeros_length, List.length_singleton, hmode,
      howner]
    omega
  have hsplit : header name size =
      (name.take 100 ++ zeros (100 - name.length) ++ (ascii "0000644" ++ [0]) ++
        (ascii "0000000" ++ [0]) ++ (ascii "0000000" ++ [0])) ++
      ((octal 11 size ++ [0]) ++ ((ascii "00000000000" ++ [0]) ++
        ((octal 6 (checksum name size) ++ [0, 32]) ++ headerEnd))) := by
    simp only [header, headerStart, List.append_assoc]
  rw [hsplit, List.drop_append_of_le_length (by omega), List.drop_of_length_le (by omega),
    List.nil_append, List.take_append_of_le_length (by simp), List.take_of_length_le (by simp)]

/-- No header is a zero block: its type is the digit `0`. -/
theorem header_nonzero (name : List UInt8) (size : Nat) :
    ((header name size).all fun byte => byte == 0) = false := by
  rw [List.all_eq_false]
  refine ⟨48, ?_, by decide⟩
  have htype : ascii "0" = [48] := by decide
  simp [header, headerEnd, htype]

end QuantForge.Bundle
