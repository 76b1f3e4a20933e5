import MyWireshark.Addresses
import MyWireshark.Dissect.Correct

/-! The hex dump as text: the buffer in which its lines are put together, and the way back from the
lines to the frame. -/
namespace MyWireshark.Dissect
open Bytes DispFilter MyWireshark.Filter Digits Literals Addresses Separated

/-! The line of hex_dump is put together in a buffer of 80 characters. -/

/-- `char line[80]` up to the terminating zero, and pos. -/
structure LineBuffer where
  text : List Char
  pos : Nat

/-- `pos += std::snprintf(line + pos, sizeof(line) - pos, ...)` for a conversion into `text`: what
does not fit in front of a zero is cut off, and pos grows by the full length all the same. `none`
if the call gets a place behind the buffer. -/
def LineBuffer.snprintf (line : LineBuffer) (text : List Char) : Option LineBuffer :=
  if line.pos ≤ 80 then
    some ⟨line.text.take line.pos ++ text.take (80 - line.pos - 1), line.pos + text.length⟩
  else none

def hexDumpColumn (bytes : List UInt8) (line : LineBuffer) (i : Nat) : Option LineBuffer := do
  let line ← line.snprintf (match bytes[i]? with
    | some b => (hex 2 b.toNat).toList
    | none => [' ', ' '])
  if i % 2 = 1 then line.snprintf [' '] else return line

def hexDumpBuffered (data : List UInt8) (length offset : Nat) : Option String := do
  let chunk := if length - offset < 16 then length - offset else 16
  let bytes ← (List.range chunk).mapM fun i => data[offset + i]?
  let line ← LineBuffer.snprintf ⟨[], 0⟩ ("  0x" ++ hex 4 offset ++ ":  ").toList
  let line ← (List.range 16).foldlM (hexDumpColumn bytes) line
  return String.ofList line.text ++ " " ++ String.ofList (bytes.map printable) ++ "\n"

/-- The two characters for a byte, or for a place behind the last byte. -/
def cell : Option UInt8 → List Char
  | some b => hexPair b
  | none => [' ', ' ']

def column (bytes : List UInt8) (i : Nat) : List Char :=
  cell bytes[i]? ++ if i % 2 = 1 then [' '] else []

section
variable {line : LineBuffer} {text : List Char} {bytes : List UInt8}

@[simp] theorem length_cell (b : Option UInt8) : (cell b).length = 2 := by
  cases b <;> rfl

theorem length_column (bytes : List UInt8) (i : Nat) :
    (column bytes i).length = if i % 2 = 1 then 3 else 2 := by
  rw [column]
  split <;> simp

theorem length_column_le (bytes : List UInt8) (i : Nat) : (column bytes i).length ≤ 3 := by
  rw [length_column]
  split <;> omega

def LineBuffer.Whole (line : LineBuffer) : Prop := line.text.length = line.pos

theorem LineBuffer.Whole.snprintf (h : line.Whole) (hfits : line.pos + text.length < 80) :
    line.snprintf text = some ⟨line.text ++ text, line.pos + text.length⟩ := by
  have htake : text.take (80 - line.pos - 1) = text := List.take_of_length_le (by omega)
  have hkeep : line.text.take line.pos = line.text := List.take_of_length_le (Nat.le_of_eq h)
  rw [LineBuffer.snprintf, if_pos (by omega), htake, hkeep]

theorem LineBuffer.Whole.append (h : line.Whole) (text : List Char) :
    LineBuffer.Whole ⟨line.text ++ text, line.pos + text.length⟩ := by
  rw [LineBuffer.Whole] at h ⊢
  simp [h]

theorem hexDumpColumn_eq (h : line.Whole) (hfits : line.pos + 3 < 80) (i : Nat) :
    hexDumpColumn bytes line i =
      some ⟨line.text ++ column bytes i, line.pos + (column bytes i).length⟩ := by
  have hcell : (match bytes[i]? with
      | some b => (hex 2 b.toNat).toList
      | none => [' ', ' ']) = cell bytes[i]? := by
    cases bytes[i]? with
    | some b => exact toList_hex_two b
    | none => rfl
  have hfirst : line.pos + (cell bytes[i]?).length < 80 := by
    rw [length_cell]
    omega
  rw [hexDumpColumn, hcell, h.snprintf hfirst, column]
  simp only [Option.bind_eq_bind, Option.bind_some]
  split
  · rw [(h.append _).snprintf (by simp; omega)]
    simp [Nat.add_assoc]
  · simp

theorem foldlM_hexDumpColumn (h : line.Whole) (is : List Nat)
    (hfits : line.pos + 3 * is.length < 80) :
    is.foldlM (hexDumpColumn bytes) line =
      some ⟨line.text ++ is.flatMap (column bytes),
        line.pos + (is.flatMap (column bytes)).length⟩ := by
  induction is generalizing line with
  | nil => simp
  | cons i is ih =>
    have hlen := length_column_le bytes i
    rw [List.length_cons] at hfits
    rw [List.foldlM_cons, hexDumpColumn_eq h (by omega), Option.bind_eq_bind, Option.bind_some,
      ih (h.append _) (by dsimp only; omega)]
    simp [Nat.add_assoc]

def columns (bytes : List UInt8) : List Char := (List.range 16).flatMap (column bytes)

def dumpLine (offset : Nat) (bytes : List UInt8) : String :=
  "  0x" ++ hex 4 offset ++ ":  " ++ String.ofList (columns bytes) ++ " " ++
    String.ofList (bytes.map printable)

theorem join_columns {f : Nat → String} (bytes : List UInt8)
    (h : ∀ i, (f i).toList = column bytes i) :
    String.join ((List.range 16).map f) = String.ofList (columns bytes) := by
  rw [← String.toList_inj, String.toList_join, List.flatMap_map, String.toList_ofList, columns]
  simp only [h]

def chunk (data : List UInt8) (length offset : Nat) : Option (List UInt8) :=
  (List.range (if length - offset < 16 then length - offset else 16)).mapM fun i =>
    data[offset + i]?

theorem hexDumpLine_eq (data : List UInt8) (length offset : Nat) :
    hexDumpLine data length offset = (chunk data length offset).map fun bytes =>
      dumpLine offset bytes ++ "\n" := by
  unfold hexDumpLine chunk
  dsimp only
  cases (List.range (if length - offset < 16 then length - offset else 16)).mapM (fun i =>
    data[offset + i]?) with
  | none => rfl
  | some bytes =>
    refine congrArg (fun text => some ("  0x" ++ hex 4 offset ++ ":  " ++ text ++ " " ++
      String.ofList (bytes.map printable) ++ "\n")) (join_columns bytes fun i => ?_)
    have hblank : (if i % 2 = 1 then " " else "").toList = if i % 2 = 1 then [' '] else [] := by
      split <;> rfl
    rw [String.toList_append, hblank, column]
    refine congrArg (· ++ _) ?_
    cases bytes[i]? with
    | some b => exact toList_hex_two b
    | none => rfl

theorem length_hex_offset {offset : Nat} (h : offset < 2 ^ 32) :
    (hex 4 offset).toList.length ≤ 8 := by
  have hdigits : (Nat.toDigits 16 offset).length ≤ 8 :=
    (Nat.length_toDigits_le_iff (by decide) (by decide)).mpr h
  rw [hex, String.toList_ofList, List.length_append, List.length_replicate]
  omega

/-- In front of the columns stand at most 15 characters, so that every call finds its place. -/
theorem hexDumpBuffered_eq (data : List UInt8) (length : Nat) {offset : Nat}
    (hoffset : offset < 2 ^ 32) :
    hexDumpBuffered data length offset = (chunk data length offset).map fun bytes =>
      dumpLine offset bytes ++ "\n" := by
  have hdigits := length_hex_offset hoffset
  have hlead : ("  0x" ++ hex 4 offset ++ ":  ").toList.length ≤ 15 := by
    simp only [String.toList_append, List.length_append]
    have h4 : "  0x".toList.length = 4 := rfl
    have h3 : ":  ".toList.length = 3 := rfl
    omega
  have hempty : LineBuffer.Whole ⟨[], 0⟩ := rfl
  unfold hexDumpBuffered chunk
  dsimp only
  cases (List.range (if length - offset < 16 then length - offset else 16)).mapM (fun i =>
    data[offset + i]?) with
  | none => rfl
  | some bytes =>
    rw [Option.bind_eq_bind, Option.bind_some, hempty.snprintf (by dsimp only; omega),
      Option.bind_eq_bind, Option.bind_some,
      foldlM_hexDumpColumn (hempty.append _) _ (by rw [List.length_range]; dsimp only; omega)]
    refine congrArg (fun text => some (text ++ " " ++ String.ofList (bytes.map printable) ++ "\n"))
      (String.toList_inj.mp ?_)
    simp only [String.toList_append, String.toList_ofList, List.nil_append, columns]

/-- Whatever the frame and the offset, no snprintf of a line of the dump cuts anything off or writes
behind `char line[80]`. -/
theorem hex_dump_line_fits (data : List UInt8) (length : Nat) (offset : UInt32) :
    hexDumpBuffered data length offset.toNat = hexDumpLine data length offset.toNat :=
  (hexDumpBuffered_eq data length offset.toNat_lt).trans (hexDumpLine_eq data length _).symm

end

/-! The way back from a line to its bytes -/

def readPairs : List Char → Option (List UInt8)
  | [] => some []
  | [_] => none
  | hi :: lo :: text => do
    let hi ← hexNibble hi
    let lo ← hexNibble lo
    let bytes ← readPairs text
    return UInt8.ofNat (16 * hi + lo) :: bytes

/-- The bytes in the 40 characters behind the colon and its two blanks. -/
def readDumpLine (line : List Char) : Option (List UInt8) :=
  readPairs ((((line.dropWhile (· ≠ ':')).drop 3).take 40).filter (· ≠ ' '))

section
variable {data bytes : List UInt8} {offset : Nat}

theorem mapM_getElem? {n : Nat} (h : offset + n ≤ data.length) :
    (List.range n).mapM (fun i => data[offset + i]?) = some ((data.drop offset).take n) := by
  induction n with
  | zero => rfl
  | succ n ih =>
    have hlt : offset + n < data.length := by omega
    rw [List.range_succ, List.mapM_append, ih (by omega), List.take_add_one, List.getElem?_drop]
    simp [hlt]

theorem chunk_eq (h : offset < data.length) :
    chunk data data.length offset = some ((data.drop offset).take 16) := by
  have hchunk : (data.drop offset).take (if data.length - offset < 16 then data.length - offset
      else 16) = (data.drop offset).take 16 := by
    split
    · rw [List.take_of_length_le (by simp), List.take_of_length_le (by simp; omega)]
    · rfl
  rw [← hchunk]
  exact mapM_getElem? (by split <;> omega)

theorem length_columns (bytes : List UInt8) : (columns bytes).length = 40 := by
  simp only [columns, List.length_flatMap, length_column]
  decide

theorem filter_columns (h : bytes.length ≤ 16) :
    (columns bytes).filter (· ≠ ' ') = bytes.flatMap hexPair := by
  have hdigit : ∀ d, d < 16 → d.digitChar ≠ ' ' := by decide
  have hpair : ∀ b, (hexPair b).filter (· ≠ ' ') = hexPair b := by
    intro b
    have hb : b.toNat < 256 := b.toNat_lt
    have hhi := hdigit (b.toNat / 16) (by omega)
    have hlo := hdigit (b.toNat % 16) (by omega)
    simp [hexPair, hhi, hlo]
  have hcolumn : ∀ i, (column bytes i).filter (· ≠ ' ') = (bytes[i]?.toList).flatMap hexPair := by
    intro i
    have hblank : (if i % 2 = 1 then [' '] else []).filter (· ≠ ' ') = [] := by
      split <;> rfl
    rw [column, List.filter_append, hblank, List.append_nil]
    cases bytes[i]? with
    | some b => simpa [cell] using hpair b
    | none => rfl
  have hfirst : ∀ n, (List.range n).flatMap (fun i => (bytes[i]?.toList).flatMap hexPair) =
      (bytes.take n).flatMap hexPair := by
    intro n
    induction n with
    | zero => rfl
    | succ n ih => rw [List.range_succ, List.flatMap_append, ih, List.take_add_one]; simp
  rw [columns, List.filter_flatMap]
  simp only [hcolumn]
  rw [hfirst, List.take_of_length_le h]

theorem readPairs_flatMap (bytes : List UInt8) :
    readPairs (bytes.flatMap hexPair) = some bytes := by
  induction bytes with
  | nil => rfl
  | cons b bytes ih =>
    have hb : UInt8.ofNat (16 * (b.toNat / 16) + b.toNat % 16) = b := by
      rw [Nat.div_add_mod, UInt8.ofNat_toNat]
    rw [List.flatMap_cons, hexPair]
    simp only [List.cons_append, List.nil_append, readPairs, hexNibble_hi, hexNibble_lo, ih,
      Option.bind_eq_bind, Option.bind_some, hb]
    rfl

theorem toList_dumpLine (offset : Nat) (bytes : List UInt8) :
    (dumpLine offset bytes).toList = (' ' :: ' ' :: '0' :: 'x' :: (hex 4 offset).toList) ++
      (':' :: ' ' :: ' ' :: (columns bytes ++ ' ' :: bytes.map printable)) := by
  simp [dumpLine]

theorem readDumpLine_dumpLine (offset : Nat) (h : bytes.length ≤ 16) :
    readDumpLine (dumpLine offset bytes).toList = some bytes := by
  have hdigit : ∀ d, d < 16 → d.digitChar ≠ ':' := by decide
  have hlead : ∀ c ∈ ' ' :: ' ' :: '0' :: 'x' :: (hex 4 offset).toList,
      decide (c ≠ ':') = true := by
    simp only [List.forall_mem_cons]
    refine ⟨by decide, by decide, by decide, by decide, fun c hc => ?_⟩
    obtain ⟨d, hd, rfl⟩ := mem_hex hc
    exact decide_eq_true (hdigit d hd)
  rw [readDumpLine, toList_dumpLine, List.dropWhile_append_of_pos hlead,
    List.dropWhile_cons_of_neg (by decide), List.drop_succ_cons, List.drop_succ_cons,
    List.drop_succ_cons, List.drop_zero, List.take_left' (length_columns bytes), filter_columns h]
  exact readPairs_flatMap bytes

theorem printable_ne_newline (b : UInt8) : printable b ≠ '\n' := by
  unfold printable
  split
  · next h =>
    intro hc
    have hlow : 0x20 ≤ b.toNat := h.1
    have hb : b.toNat < 256 := b.toNat_lt
    have hcode : (Char.ofNat b.toNat).toNat = b.toNat := by
      rw [Char.ofNat, dif_pos (.inl (by omega))]
      rfl
    have hten : '\n'.toNat = 10 := rfl
    rw [hc] at hcode
    omega
  · decide

theorem newline_notMem_dumpLine (offset : Nat) (bytes : List UInt8) :
    '\n' ∉ (dumpLine offset bytes).toList := by
  have hdigit : ∀ d, d < 16 → '\n' ≠ d.digitChar := by decide
  have hhex : '\n' ∉ (hex 4 offset).toList := notMem_hex hdigit 4 offset
  have hpair : ∀ b, '\n' ∉ hexPair b := by
    intro b
    have hb : b.toNat < 256 := b.toNat_lt
    simp [hexPair, hdigit (b.toNat / 16) (by omega), hdigit (b.toNat % 16) (by omega)]
  have hcolumns : '\n' ∉ columns bytes := by
    rw [columns, List.mem_flatMap]
    rintro ⟨i, -, hc⟩
    rw [column, List.mem_append] at hc
    obtain hc | hc := hc
    · cases hcell : bytes[i]? with
      | some b => exact hpair b (by rwa [hcell] at hc)
      | none => rw [hcell] at hc; simp [cell] at hc
    · split at hc <;> simp at hc
  have hascii : '\n' ∉ bytes.map printable := by
    intro hc
    obtain ⟨b, -, hb⟩ := List.mem_map.mp hc
    exact printable_ne_newline b hb
  simp [dumpLine, hhex, hcolumns, hascii]

def dumpLines (data : List UInt8) : (turns offset : Nat) → List (List Char)
  | 0, _ => []
  | turns + 1, offset =>
    if offset < data.length then
      (dumpLine offset ((data.drop offset).take 16)).toList :: dumpLines data turns (offset + 16)
    else []

theorem hexDump_eq (hsmall : data.length + 16 ≤ 2 ^ 32) (turns offset : Nat) :
    hexDump data data.length turns offset =
      some (String.ofList (terminated '\n' (dumpLines data turns offset))) := by
  induction turns generalizing offset with
  | zero => rfl
  | succ turns ih =>
    rw [hexDump, dumpLines]
    by_cases h : offset < data.length
    · have hwrap : u32 (offset + 16) = offset + 16 := Nat.mod_eq_of_lt (by omega)
      rw [if_pos h, if_pos h, hexDumpLine_eq, chunk_eq h, hwrap, ih]
      refine congrArg some (String.toList_inj.mp ?_)
      simp
    · rw [if_neg h, if_neg h]
      rfl

theorem newline_notMem_dumpLines {turns : Nat} {line : List Char}
    (h : line ∈ dumpLines data turns offset) : '\n' ∉ line := by
  induction turns generalizing offset with
  | zero => cases h
  | succ turns ih =>
    rw [dumpLines] at h
    split at h
    · cases List.mem_cons.mp h with
      | inl hfirst => rw [hfirst]; exact newline_notMem_dumpLine _ _
      | inr hrest => exact ih hrest
    · cases h

end

end MyWireshark.Dissect
