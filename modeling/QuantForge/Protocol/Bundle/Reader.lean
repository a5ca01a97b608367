import QuantForge.Math.Split
import QuantForge.Protocol.Bundle.Archive
import QuantForge.Protocol.Bundle.Files
import Mathlib.Tactic.IntervalCases

namespace QuantForge.Bundle

def notCanonical (reason : Message) : BundleProblem :=
  ⟨.archiveNotCanonical, [.text "the archive is not the canonical tar of its files: "] ++ reason ++
    [.text "; build it with a builder that follows the bundle spec"]⟩

def octalDigit (acc : Nat) (digit : UInt8) : Option Nat :=
  if 48 ≤ digit ∧ digit ≤ 55 then some (acc * 8 + (digit - 48).toNat) else none

/-- Exactly 11 octal digits and a NUL, as the canonical header writes a size. -/
def parseSize (field : List UInt8) : Option Nat :=
  match field.getLast? with
  | none => none
  | some last =>
    let digits := field.dropLast
    if last ≠ 0 ∨ digits.length ≠ 11 then none else digits.foldlM octalDigit 0

theorem octalDigit_written {acc d : Nat} (hd : d < 8) :
    octalDigit acc (UInt8.ofNat (48 + d)) = some (acc * 8 + d) := by
  interval_cases d <;> rfl

theorem foldlM_octal (ds : List Nat) (hd : ∀ d ∈ ds, d < 8) (acc : Nat) :
    (ds.map fun d => UInt8.ofNat (48 + d)).foldlM octalDigit acc =
      some (ds.foldl (fun n d => n * 8 + d) acc) := by
  induction ds generalizing acc with
  | nil => rfl
  | cons d ds ih =>
    rw [List.map_cons, List.foldlM_cons, octalDigit_written (hd d (by simp)), Option.bind_eq_bind,
      Option.bind_some, ih (fun e he => hd e (by simp [he])), List.foldl_cons]

/-- A written size reads back. -/
theorem parseSize_octal {size : Nat} (h : size < 8 ^ 11) :
    parseSize (octal 11 size ++ [0]) = some size := by
  have hdigits : ∀ d ∈ (Radix.digits 8 11 size).reverse, d < 8 := fun d hd =>
    Radix.digits_lt (by decide) 11 size d (List.mem_reverse.mp hd)
  have hfold := foldlM_octal (Radix.digits 8 11 size).reverse hdigits 0
  rw [Radix.foldl_value, Radix.value_digits, Nat.zero_mul, Nat.zero_add, Nat.mod_eq_of_lt h] at hfold
  simp only [parseSize, List.getLast?_append, List.getLast?_singleton, Option.some_or,
    List.dropLast_concat, octal_length, ne_eq, not_true_eq_false, or_self, if_false]
  exact hfold

/-- What 11 octal digits count to. -/
theorem foldlM_octal_lt {ds : List UInt8} {acc n : Nat} (h : ds.foldlM octalDigit acc = some n) :
    n < (acc + 1) * 8 ^ ds.length := by
  induction ds generalizing acc with
  | nil =>
    have hn : acc = n := by simpa using h
    simp [hn]
  | cons d ds ih =>
    rw [List.foldlM_cons, Option.bind_eq_bind, Option.bind_eq_some_iff] at h
    obtain ⟨next, hd, hrest⟩ := h
    have hdigit : next ≤ acc * 8 + 7 := by
      unfold octalDigit at hd
      split_ifs at hd with hrange
      rw [Option.some.injEq] at hd
      have hsub : (d - 48).toNat ≤ 7 := by
        have hhigh : d.toNat ≤ 55 := hrange.2
        rw [UInt8.toNat_sub_of_le _ _ hrange.1]
        exact Nat.sub_le_of_le_add hhigh
      omega
    have hlt := ih hrest
    have hstep : (next + 1) * 8 ^ ds.length ≤ (acc + 1) * 8 * 8 ^ ds.length :=
      Nat.mul_le_mul_right _ (by omega)
    rw [List.length_cons, Nat.pow_succ, Nat.mul_comm (8 ^ ds.length) 8, ← Nat.mul_assoc]
    omega

theorem parseSize_lt {field : List UInt8} {size : Nat} (h : parseSize field = some size) :
    size < 8 ^ 11 := by
  unfold parseSize at h
  cases hlast : field.getLast? with
  | none => simp [hlast] at h
  | some last =>
    simp only [hlast] at h
    split_ifs at h with hshape
    have hlen : field.dropLast.length = 11 := by tauto
    have hlt := foldlM_octal_lt h
    rw [hlen] at hlt
    omega

/-- The first field where `found` differs from the canonical header; the
checksum covers every other field, so it is reported last. -/
def difference (found canonical : List UInt8) : Message :=
  let differs (start stop : Nat) : Bool :=
    (found.drop start).take (stop - start) != (canonical.drop start).take (stop - start)
  match fields.find? fun (name, start, stop) => name != "checksum" && differs start stop with
  | some (name, start, _) =>
    if name = "typeflag" then
      [.text "its type is ", .quotedChar (Char.ofNat ((found[start]?).getD 0).toNat),
        .text ", but a bundle holds only regular files, type '0'"]
    else [.text "its ", .text name, .text " field differs from the canonical header"]
  | none => say "its checksum is wrong, or not six octal digits, a NUL, and a space"

/-- What the zero block that begins `rest` says. -/
def closing (rest : List UInt8) (candidates : List Candidate) :
    Except BundleProblem (List Candidate) :=
  let allZero := rest.all fun byte => byte == 0
  if allZero ∧ rest.length = endBytes then .ok candidates
  else if allZero ∧ endBytes < rest.length then
    .error (notCanonical (say ("the archive is padded past its two closing zero blocks; " ++
      "send it without record padding")))
  else if allZero then
    .error (notCanonical (say "the archive ends with one zero block where it needs two"))
  else
    .error (notCanonical (say ("the archive goes on after a zero block; it ends with " ++
      "exactly two zero blocks")))

/-- A file's entry as one pass of the reader's loop takes it: the name as text
and as bytes, the data, and the rest of the archive after them. -/
structure TarEntry where
  shown : String
  name : List UInt8
  data : List UInt8
  next : List UInt8

/-- One pass of the source's loop over an entry, from the rest of the archive
at its offset: `none` is a panic. A size the archive cannot hold is refused
before any slice. -/
def readEntry (rest : List UInt8) (previous : Option (List UInt8)) (index : Nat) :
    Option (Except BundleProblem TarEntry) :=
  let head := rest.take block
  match slice head 0 100, slice head 124 136 with
  | some nameField, some sizeField =>
    let name := nameField.takeWhile (· != 0)
    match Bytes.fromUtf8 name with
    | none =>
      some (.error (notCanonical [.text "entry ", number index, .text " has a non-UTF-8 name"]))
    | some shown =>
      let entry : Message := [.text "entry ", number index, .text " (", .quoted shown, .text ")"]
      if name.isEmpty then
        some (.error (notCanonical [.text "entry ", number index, .text " has no name"]))
      else
        match parseSize sizeField with
        | none =>
          some (.error (notCanonical (entry ++ say ": its size is not 11 octal digits and a NUL")))
        | some size =>
          let canonical := header name size
          if head != canonical then
            some (.error (notCanonical (entry ++ say ": " ++ difference head canonical)))
          else if previous.any fun previous => Bytes.le name previous then
            some (.error (notCanonical (entry ++ say (" is out of order; a canonical " ++
              "archive lists each path once, sorted by its bytes"))))
          else
            let dataEnd := block + (size + padding size)
            if rest.length < dataEnd then
              some (.error (notCanonical (entry ++ say " runs past the end of the archive")))
            else
              match slice rest block (block + size), slice rest (block + size) dataEnd,
                sliceFrom rest dataEnd with
              | some data, some fill, some next =>
                if fill.any fun byte => byte != 0 then
                  some (.error (notCanonical (entry ++
                    say ": the padding after its data is not all zero")))
                else some (.ok ⟨shown, name, data, next⟩)
              | _, _, _ => none
  | _, _ => none

/-- An entry of a canonical archive after the name `previous`. -/
structure Canonical (rest : List UInt8) (previous : Option (List UInt8)) (e : TarEntry) :
    Prop where
  rest_eq : rest = record e.name e.data ++ e.next
  shown_eq : Bytes.fromUtf8 e.name = some e.shown
  name_ne : e.name ≠ []
  name_len : e.name.length ≤ 100
  name_chars : ∀ byte ∈ e.name, byte ≠ 0
  data_lt : e.data.length < 8 ^ 11
  ordered : ∀ before, previous = some before → Bytes.lt before e.name = true

theorem head_slices {rest : List UInt8} (hlen : block ≤ rest.length) :
    slice (rest.take block) 0 100 = some ((rest.take block).take 100) ∧
      slice (rest.take block) 124 136 = some (((rest.take block).drop 124).take 12) := by
  have hhead : (rest.take block).length = block := by
    rw [List.length_take]
    omega
  constructor
  · rw [slice_some (by decide) (by rw [hhead]; decide), List.drop_zero]
  · rw [slice_some (by decide) (by rw [hhead]; decide)]

/-- The slices of an entry that does not run past the end of the archive. -/
theorem data_slices {rest : List UInt8} {size : Nat}
    (hend : block + (size + padding size) ≤ rest.length) :
    slice rest block (block + size) = some ((rest.drop block).take size) ∧
      slice rest (block + size) (block + (size + padding size)) =
        some ((rest.drop (block + size)).take (padding size)) ∧
      sliceFrom rest (block + (size + padding size)) =
        some (rest.drop (block + (size + padding size))) := by
  refine ⟨?_, ?_, sliceFrom_some hend⟩
  · rw [slice_some (by omega) (by omega), Nat.add_sub_cancel_left]
  · rw [slice_some (by omega) (by omega)]
    congr 2
    omega

/-- An entry's header, data and zero padding, and what follows them. -/
theorem record_split {rest name : List UInt8} {size : Nat}
    (hend : block + (size + padding size) ≤ rest.length)
    (hheader : rest.take block = header name size)
    (hfill : (rest.drop (block + size)).take (padding size) = zeros (padding size)) :
    rest = record name ((rest.drop block).take size) ++
      rest.drop (block + (size + padding size)) := by
  have hdata : ((rest.drop block).take size).length = size := by
    rw [List.length_take, List.length_drop]
    omega
  have hbody : rest.drop block = (rest.drop block).take size ++ rest.drop (block + size) := by
    rw [← List.drop_drop, List.take_append_drop]
  have htail : rest.drop (block + size) =
      zeros (padding size) ++ rest.drop (block + (size + padding size)) := by
    rw [← hfill, ← Nat.add_assoc, ← List.drop_drop (i := padding size), List.take_append_drop]
  calc rest = rest.take block ++ rest.drop block := (List.take_append_drop _ _).symm
    _ = header name size ++ ((rest.drop block).take size ++
          (zeros (padding size) ++ rest.drop (block + (size + padding size)))) := by
      rw [hheader, hbody, htail, List.take_left' hdata]
    _ = record name ((rest.drop block).take size) ++
          rest.drop (block + (size + padding size)) := by
      simp only [record, hdata, List.append_assoc]

/-- The parts of a rest that begins with a record. -/
theorem record_parts (name data next : List UInt8) :
    (record name data ++ next).take block = header name data.length ∧
      (record name data ++ next).drop block = data ++ (zeros (padding data.length) ++ next) ∧
      (record name data ++ next).drop (block + data.length) =
        zeros (padding data.length) ++ next ∧
      (record name data ++ next).drop (block + (data.length + padding data.length)) = next := by
  have hrest : record name data ++ next =
      header name data.length ++ (data ++ (zeros (padding data.length) ++ next)) := by
    simp only [record, List.append_assoc]
  have hbody : (record name data ++ next).drop block =
      data ++ (zeros (padding data.length) ++ next) := by
    rw [hrest]
    exact List.drop_left' (header_length _ _)
  have hfill : (record name data ++ next).drop (block + data.length) =
      zeros (padding data.length) ++ next := by
    rw [← List.drop_drop, hbody, List.drop_left]
  refine ⟨?_, hbody, hfill, ?_⟩
  · rw [hrest]
    exact List.take_left' (header_length _ _)
  · rw [← Nat.add_assoc, ← List.drop_drop, hfill]
    exact List.drop_left' (zeros_length _)

theorem header_name_read {name : List UInt8} (hlen : name.length ≤ 100)
    (hchars : ∀ byte ∈ name, byte ≠ 0) (size : Nat) :
    ((header name size).take 100).takeWhile (· != 0) = name := by
  rw [header_name hlen, List.takeWhile_append_of_pos (by simpa using hchars)]
  cases 100 - name.length <;> simp [zeros, List.replicate_succ]

/-- No slice of a pass is out of range. -/
theorem readEntry_total {rest : List UInt8} (hlen : block ≤ rest.length)
    (previous : Option (List UInt8)) (index : Nat) :
    (readEntry rest previous index).isSome = true := by
  obtain ⟨hname, hsize⟩ := head_slices hlen
  simp only [readEntry, hname, hsize]
  cases Bytes.fromUtf8 (((rest.take block).take 100).takeWhile (· != 0)) with
  | none => rfl
  | some shown =>
    cases parseSize (((rest.take block).drop 124).take 12) with
    | none =>
      simp only
      split_ifs <;> rfl
    | some size =>
      by_cases hend : rest.length < block + (size + padding size)
      · simp only [if_pos hend]
        split_ifs <;> rfl
      · obtain ⟨hdata, hfill, hnext⟩ := data_slices (Nat.le_of_not_lt hend)
        simp only [hdata, hfill, hnext]
        split_ifs <;> rfl

/-- A pass that takes an entry took a canonical one. -/
theorem readEntry_ok {rest : List UInt8} {previous : Option (List UInt8)} {index : Nat}
    {e : TarEntry} (hlen : block ≤ rest.length)
    (h : readEntry rest previous index = some (.ok e)) : Canonical rest previous e := by
  obtain ⟨hnameField, hsizeField⟩ := head_slices hlen
  simp only [readEntry, hnameField, hsizeField] at h
  generalize hname : ((rest.take block).take 100).takeWhile (· != 0) = name at h
  have hname_len : name.length ≤ 100 := by
    have hprefix := (List.takeWhile_prefix (l := (rest.take block).take 100) (· != 0)).length_le
    rw [hname, List.length_take] at hprefix
    omega
  have hname_chars : ∀ byte ∈ name, byte ≠ 0 := by
    have hall := List.all_takeWhile (l := (rest.take block).take 100) (p := (· != 0))
    rw [hname] at hall
    simpa using hall
  cases hshown : Bytes.fromUtf8 name with
  | none => simp [hshown] at h
  | some shown =>
    simp only [hshown] at h
    by_cases hempty : name.isEmpty = true
    · simp [hempty] at h
    rw [if_neg hempty] at h
    cases hsize : parseSize (((rest.take block).drop 124).take 12) with
    | none => simp [hsize] at h
    | some size =>
      simp only [hsize] at h
      by_cases hheader : (rest.take block != header name size) = true
      · simp [hheader] at h
      rw [if_neg hheader] at h
      by_cases horder : (previous.any fun previous => Bytes.le name previous) = true
      · simp [horder] at h
      rw [if_neg horder] at h
      by_cases hend : rest.length < block + (size + padding size)
      · simp [hend] at h
      rw [if_neg hend] at h
      have hend := Nat.le_of_not_lt hend
      obtain ⟨hdata, hfill, hnext⟩ := data_slices hend
      simp only [hdata, hfill, hnext] at h
      by_cases hzero : ((rest.drop (block + size)).take (padding size)).any (· != 0) = true
      · simp [hzero] at h
      rw [if_neg hzero] at h
      have he : e = ⟨shown, name, (rest.drop block).take size,
          rest.drop (block + (size + padding size))⟩ := by simpa using h.symm
      have hdata_len : ((rest.drop block).take size).length = size := by
        rw [List.length_take, List.length_drop]
        omega
      have hheader : rest.take block = header name size := by simpa using hheader
      have hpad : (rest.drop (block + size)).take (padding size) = zeros (padding size) := by
        apply List.eq_replicate_iff.mpr
        constructor
        · rw [List.length_take, List.length_drop]
          omega
        · simpa using hzero
      subst he
      refine ⟨?_, hshown, ?_, hname_len, hname_chars, ?_, ?_⟩
      · exact record_split hend hheader hpad
      · simpa using hempty
      · show ((rest.drop block).take size).length < 8 ^ 11
        rw [hdata_len]
        exact parseSize_lt hsize
      · intro before hb
        subst hb
        simpa [Bytes.lt] using horder

/-- Every canonical entry is taken, whatever its number. -/
theorem readEntry_canonical {rest : List UInt8} {previous : Option (List UInt8)} {e : TarEntry}
    (h : Canonical rest previous e) (index : Nat) :
    readEntry rest previous index = some (.ok e) := by
  obtain ⟨hhead, hbody, hfillAt, hnextAt⟩ := record_parts e.name e.data e.next
  rw [← h.rest_eq] at hhead hbody hfillAt hnextAt
  have hlong : block + (e.data.length + padding e.data.length) ≤ rest.length := by
    have hlen := congrArg List.length h.rest_eq
    rw [List.length_append, record_length] at hlen
    omega
  obtain ⟨hnameField, hsizeField⟩ := head_slices (show block ≤ rest.length by omega)
  obtain ⟨hdata, hfill, hnext⟩ := data_slices hlong
  rw [hhead] at hnameField hsizeField
  have hname := header_name_read h.name_len h.name_chars e.data.length
  have hsize : parseSize (((header e.name e.data.length).drop 124).take 12) =
      some e.data.length := by
    rw [header_size, parseSize_octal h.data_lt]
  have hne : e.name.isEmpty = false := by simpa using h.name_ne
  have horder : (previous.any fun previous => Bytes.le e.name previous) = false := by
    cases previous with
    | none => rfl
    | some before => simpa [Bytes.lt] using h.ordered before rfl
  have hzero : ((zeros (padding e.data.length)).any fun byte => byte != 0) = false := by
    simp [zeros]
  simp only [readEntry, hhead, hnameField, hsizeField, hname, h.shown_eq, hne, hsize, horder,
    bne_self_eq_false, Bool.false_eq_true, if_false, if_neg (Nat.not_lt.mpr hlong), hdata, hfill,
    hnext, hbody, hfillAt, hnextAt, List.take_left, List.take_left' (zeros_length _), hzero]

theorem readEntry_shorter {rest : List UInt8} {previous : Option (List UInt8)} {index : Nat}
    {e : TarEntry} (hlen : block ≤ rest.length)
    (h : readEntry rest previous index = some (.ok e)) : e.next.length < rest.length := by
  have hrest := congrArg List.length (readEntry_ok hlen h).rest_eq
  rw [List.length_append, record_length] at hrest
  have hblock : 0 < block := by decide
  omega

/-- The source's loop. -/
def readFrom (rest : List UInt8) (previous : Option (List UInt8)) (candidates : List Candidate) :
    Option (Except BundleProblem (List Candidate)) :=
  if rest.length < block then
    some (.error (notCanonical
      (say "the archive ends without the two zero blocks that close it")))
  else if (rest.take block).all fun byte => byte == 0 then some (closing rest candidates)
  else
    match _he : readEntry rest previous (candidates.length + 1) with
    | none => none
    | some (.error problem) => some (.error problem)
    | some (.ok e) =>
      readFrom e.next (some e.name) (candidates ++ [Candidate.read e.shown e.data])
termination_by rest.length
decreasing_by exact readEntry_shorter (Nat.le_of_not_lt ‹_›) ‹_›

/-- The files of a canonical tar, in order. -/
def read (tar : List UInt8) (limits : BundleLimits) :
    Option (Except BundleProblem (List Candidate)) :=
  if limits.maxArchiveBytes < saturating tar.length then
    some (.error ⟨.bundleTooLarge, [.text "the archive is ", number tar.length, .text
      " bytes, more than a bundle within the limits can take, ", number limits.maxArchiveBytes,
      .text " bytes"]⟩)
  else if tar.length % block ≠ 0 then
    some (.error (notCanonical [.text "the archive is ", number tar.length,
      .text " bytes, not a whole number of 512-byte blocks"]))
  else readFrom tar none []

/-- A pass over an entry, and the passes after it. -/
theorem readFrom_entry {rest : List UInt8} (hlen : ¬rest.length < block)
    (hzero : ¬((rest.take block).all fun byte => byte == 0) = true)
    (previous : Option (List UInt8)) (candidates : List Candidate) :
    readFrom rest previous candidates =
      match readEntry rest previous (candidates.length + 1) with
      | none => none
      | some (.error problem) => some (.error problem)
      | some (.ok e) =>
        readFrom e.next (some e.name) (candidates ++ [Candidate.read e.shown e.data]) := by
  rw [readFrom, if_neg hlen, if_neg hzero]
  split <;> rename_i he <;> rw [he]

theorem readFrom_total (rest : List UInt8) (previous : Option (List UInt8))
    (candidates : List Candidate) : (readFrom rest previous candidates).isSome = true := by
  induction rest, previous, candidates using readFrom.induct with
  | case1 rest previous candidates hlen =>
    rw [readFrom, if_pos hlen]
    rfl
  | case2 rest previous candidates hlen hzero =>
    rw [readFrom, if_neg hlen, if_pos hzero]
    rfl
  | case3 rest previous candidates hlen hzero he =>
    have htotal := readEntry_total (Nat.le_of_not_lt hlen) previous (candidates.length + 1)
    rw [he] at htotal
    cases htotal
  | case4 rest previous candidates hlen hzero problem he =>
    rw [readFrom_entry hlen hzero, he]
    rfl
  | case5 rest previous candidates hlen hzero e he ih =>
    rw [readFrom_entry hlen hzero, he]
    exact ih

/-- No byte string makes the reader panic. -/
theorem read_total (tar : List UInt8) (limits : BundleLimits) :
    (read tar limits).isSome = true := by
  unfold read
  split_ifs
  · rfl
  · rfl
  · exact readFrom_total tar none []

/-- Files a canonical archive lists after the name `previous`: in strictly
rising order, each with a name and a size its header can hold. -/
inductive Listed : Option (List UInt8) → List (String × List UInt8) → Prop
  | nil {previous : Option (List UInt8)} : Listed previous []
  | cons {previous : Option (List UInt8)} {name : String} {data : List UInt8}
      {rest : List (String × List UInt8)} (name_ne : Bytes.utf8 name ≠ [])
      (name_len : (Bytes.utf8 name).length ≤ 100) (name_chars : ∀ byte ∈ Bytes.utf8 name, byte ≠ 0)
      (data_lt : data.length < 8 ^ 11)
      (ordered : ∀ before, previous = some before → Bytes.lt before (Bytes.utf8 name) = true)
      (listed : Listed (some (Bytes.utf8 name)) rest) : Listed previous ((name, data) :: rest)

/-- The canonical tar of named files. -/
def tarOf (files : List (String × List UInt8)) : List UInt8 :=
  (files.flatMap fun file => record (Bytes.utf8 file.1) file.2) ++ zeros endBytes

def candidatesOf (files : List (String × List UInt8)) : List Candidate :=
  files.map fun file => Candidate.read file.1 file.2

theorem tarOf_cons (name : String) (data : List UInt8) (files : List (String × List UInt8)) :
    tarOf ((name, data) :: files) = record (Bytes.utf8 name) data ++ tarOf files := by
  simp only [tarOf, List.flatMap_cons, List.append_assoc]

theorem closing_ok {rest : List UInt8} {candidates out : List Candidate} :
    closing rest candidates = .ok out ↔ rest = zeros endBytes ∧ out = candidates := by
  constructor
  · intro h
    simp only [closing] at h
    split_ifs at h with hzero
    obtain ⟨hall, hlen⟩ := hzero
    refine ⟨List.eq_replicate_iff.mpr ⟨hlen, by simpa using hall⟩, ?_⟩
    simpa using h.symm
  · rintro ⟨rfl, rfl⟩
    have hall : ((zeros endBytes).all fun byte => byte == 0) = true := by simp [zeros]
    rw [closing]
    simp only [hall, zeros_length, and_self, if_true]

theorem readFrom_ok {rest : List UInt8} {previous : Option (List UInt8)}
    {candidates out : List Candidate} (h : readFrom rest previous candidates = some (.ok out)) :
    ∃ files, Listed previous files ∧ rest = tarOf files ∧
      out = candidates ++ candidatesOf files := by
  induction rest, previous, candidates using readFrom.induct with
  | case1 rest previous candidates hlen =>
    rw [readFrom, if_pos hlen] at h
    simp at h
  | case2 rest previous candidates hlen hzero =>
    rw [readFrom, if_neg hlen, if_pos hzero, Option.some.injEq] at h
    obtain ⟨hrest, hout⟩ := closing_ok.mp h
    exact ⟨[], .nil, by simpa [tarOf] using hrest, by simpa [candidatesOf] using hout⟩
  | case3 rest previous candidates hlen hzero he =>
    rw [readFrom_entry hlen hzero, he] at h
    simp at h
  | case4 rest previous candidates hlen hzero problem he =>
    rw [readFrom_entry hlen hzero, he] at h
    simp at h
  | case5 rest previous candidates hlen hzero e he ih =>
    rw [readFrom_entry hlen hzero, he] at h
    have hentry := readEntry_ok (Nat.le_of_not_lt hlen) he
    obtain ⟨files, hlisted, hnext, hout⟩ := ih h
    have hname : Bytes.utf8 e.shown = e.name := Bytes.utf8_fromUtf8 hentry.shown_eq
    refine ⟨(e.shown, e.data) :: files, ?_, ?_, ?_⟩
    · rw [← hname] at hlisted
      apply Listed.cons
      · rw [hname]; exact hentry.name_ne
      · rw [hname]; exact hentry.name_len
      · rw [hname]; exact hentry.name_chars
      · exact hentry.data_lt
      · rw [hname]; exact hentry.ordered
      · exact hlisted
    · rw [tarOf_cons, hname, ← hnext]
      exact hentry.rest_eq
    · rw [hout, List.append_assoc]
      rfl

theorem tarOf_block (files : List (String × List UInt8)) :
    (tarOf files).length % block = 0 ∧ block ≤ (tarOf files).length := by
  induction files with
  | nil =>
    simp only [tarOf, List.flatMap_nil, List.nil_append, zeros_length]
    decide
  | cons file files ih =>
    obtain ⟨name, data⟩ := file
    have hrecord := padded_block data.length
    rw [tarOf_cons, List.length_append, record_length]
    unfold block at *
    omega

theorem readFrom_tarOf {previous : Option (List UInt8)} {files : List (String × List UInt8)}
    (h : Listed previous files) (candidates : List Candidate) :
    readFrom (tarOf files) previous candidates = some (.ok (candidates ++ candidatesOf files)) := by
  induction h generalizing candidates with
  | nil =>
    have hlen := (tarOf_block []).2
    have hzero : ((tarOf []).take block).all (fun byte => byte == 0) = true := by
      simp [tarOf, zeros]
    rw [readFrom, if_neg (Nat.not_lt.mpr hlen), if_pos hzero, Option.some.injEq]
    apply closing_ok.mpr
    exact ⟨by simp [tarOf], by simp [candidatesOf]⟩
  | @cons previous name data rest name_ne name_len name_chars data_lt ordered listed ih =>
    have hentry : Canonical (tarOf ((name, data) :: rest)) previous
        ⟨name, Bytes.utf8 name, data, tarOf rest⟩ :=
      ⟨tarOf_cons name data rest, Bytes.fromUtf8_utf8 name, name_ne, name_len, name_chars, data_lt,
        ordered⟩
    have hlen := (tarOf_block ((name, data) :: rest)).2
    have hzero : ¬((tarOf ((name, data) :: rest)).take block).all (fun byte => byte == 0) = true := by
      rw [tarOf_cons, (record_parts _ _ _).1, header_nonzero]
      decide
    rw [readFrom_entry (Nat.not_lt.mpr hlen) hzero, readEntry_canonical hentry]
    show readFrom (tarOf rest) (some (Bytes.utf8 name)) _ = _
    rw [ih, List.append_assoc]
    rfl

/-- The reader takes the canonical tars that fit the limits, and gives back
the files each lists. -/
theorem read_ok {tar : List UInt8} {limits : BundleLimits} {out : List Candidate} :
    read tar limits = some (.ok out) ↔
      saturating tar.length ≤ limits.maxArchiveBytes ∧
        ∃ files, Listed none files ∧ tar = tarOf files ∧ out = candidatesOf files := by
  constructor
  · intro h
    unfold read at h
    split_ifs at h with hlarge hblock
    · simp at h
    · simp at h
    · obtain ⟨files, hlisted, htar, hout⟩ := readFrom_ok h
      exact ⟨Nat.le_of_not_lt hlarge, files, hlisted, htar, by simpa using hout⟩
  · rintro ⟨hfits, files, hlisted, rfl, rfl⟩
    rw [read, if_neg (Nat.not_lt.mpr hfits), if_neg (by simp [(tarOf_block files).1]),
      readFrom_tarOf hlisted, List.nil_append]

end QuantForge.Bundle
