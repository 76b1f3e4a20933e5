import MyWireshark.Dissect.Dump
import MyWireshark.Dissect.Summary

/-! The text that print_packet writes for a frame is one line with its number and summary, followed
by the lines of the dump. A reader of the lines gets the number, the summary and the bytes back. -/
namespace MyWireshark.Dissect
open Digits Separated

def readNumber (text : List Char) : Option Nat := readDigits 10 (text.takeWhile (· ≠ ']'))

/-- The number and the summary in the first line about a frame, behind its "[#". -/
def readHead (text : List Char) : Option (Nat × Summary) := do
  return (← readNumber text, ← readSummary ((text.dropWhile (· ≠ ']')).drop 2))

/-- Lines of the output: the bytes in front of the first number, and the frames, with what `head`
makes of the first line and the bytes of each. -/
def readLines {η : Type} (head : List Char → Option η) :
    List (List Char) → Option (List UInt8 × List (η × List UInt8))
  | [] => some ([], [])
  | line :: lines => do
    let (data, frames) ← readLines head lines
    match line with
    | '[' :: '#' :: text => return ([], (← head text, data) :: frames)
    | _ => return ((← readDumpLine line) ++ data, frames)

def readFrames {η : Type} (head : List Char → Option η) (os : String) :
    Option (List (η × List UInt8)) := do
  let (data, frames) ← readLines head (os.toList.splitOn '\n').dropLast
  if data = [] then return frames else none

def readOutput (os : String) : Option (List (Nat × List UInt8)) := readFrames readNumber os

def readReport (os : String) : Option (List ((Nat × Summary) × List UInt8)) :=
  readFrames readHead os

def numbered (n : Nat) (line : String) : List Char := ("[#" ++ toString n ++ "] " ++ line).toList

theorem numbered_eq (n : Nat) (line : String) :
    numbered n line = '[' :: '#' :: (Nat.toDigits 10 n ++ ']' :: ' ' :: line.toList) := by
  simp [numbered]

section
variable {η ι : Type} {head : List Char → Option η} {data : List UInt8}
  {frames : List (η × List UInt8)} {lines : List (List Char)}

theorem forall_toDigits_ne (n : Nat) : ∀ c ∈ Nat.toDigits 10 n, decide (c ≠ ']') = true := by
  have hdigit : ∀ d, d < 10 → d.digitChar ≠ ']' := by decide
  intro c hc
  obtain ⟨d, hd, rfl⟩ := mem_toDigits (by decide) hc
  exact decide_eq_true (hdigit d hd)

theorem readNumber_toDigits (n : Nat) (text : List Char) :
    readNumber (Nat.toDigits 10 n ++ ']' :: text) = some n := by
  rw [readNumber, List.takeWhile_append_of_pos (forall_toDigits_ne n),
    List.takeWhile_cons_of_neg (by decide), List.append_nil]
  exact readDigits_toDigits (by decide) (by decide) n

theorem readHead_tells (n : Nat) {line : String} {summary : Summary} (h : Tells line summary) :
    readHead (Nat.toDigits 10 n ++ ']' :: ' ' :: line.toList) = some (n, summary) := by
  rw [readHead, readNumber_toDigits, List.dropWhile_append_of_pos (forall_toDigits_ne n),
    List.dropWhile_cons_of_neg (by decide), List.drop_succ_cons, List.drop_succ_cons,
    List.drop_zero, h.read]
  rfl

theorem readNumber_of_readHead {text : List Char} {said : Nat × Summary}
    (h : readHead text = some said) : readNumber text = some said.1 := by
  obtain ⟨n, hn, h⟩ := Option.bind_eq_some_iff.mp h
  obtain ⟨summary, -, h⟩ := Option.bind_eq_some_iff.mp h
  obtain rfl := Option.some.inj h
  exact hn

theorem readLines_numbered {n : Nat} {line : String} {x : η}
    (hhead : head (Nat.toDigits 10 n ++ ']' :: ' ' :: line.toList) = some x)
    (h : readLines head lines = some (data, frames)) :
    readLines head (numbered n line :: lines) = some ([], (x, data) :: frames) := by
  rw [numbered_eq, readLines, h]
  simp [hhead]

theorem readLines_dump (offset : Nat) {bytes : List UInt8} (hlen : bytes.length ≤ 16)
    (h : readLines head lines = some (data, frames)) :
    readLines head ((dumpLine offset bytes).toList :: lines) = some (bytes ++ data, frames) := by
  have hread := readDumpLine_dumpLine offset hlen
  rw [toList_dumpLine] at hread ⊢
  simp only [List.cons_append] at hread ⊢
  simp [readLines, h, hread]

theorem readLines_dumpLines (packet : List UInt8) (turns offset : Nat)
    (h : readLines head lines = some (data, frames)) :
    readLines head (dumpLines packet turns offset ++ lines) =
      some ((packet.drop offset).take (16 * turns) ++ data, frames) := by
  induction turns generalizing offset with
  | zero => exact h
  | succ turns ih =>
    rw [dumpLines]
    split
    · rw [List.cons_append, readLines_dump offset (by simp) (ih (offset + 16)), ← List.append_assoc,
        ← List.drop_drop, Nat.mul_succ, Nat.add_comm, List.take_add]
    · rw [List.drop_of_length_le (by omega)]
      exact h

theorem readLines_map {head' : List Char → Option ι} {f : η → ι}
    (hf : ∀ text x, head text = some x → head' text = some (f x))
    (h : readLines head lines = some (data, frames)) :
    readLines head' lines = some (data, frames.map fun frame => (f frame.1, frame.2)) := by
  induction lines generalizing data frames with
  | nil =>
    obtain ⟨rfl, rfl⟩ := Prod.mk.inj (Option.some.inj h)
    rfl
  | cons line lines ih =>
    rw [readLines] at h
    obtain ⟨⟨data', frames'⟩, hrest, h⟩ := Option.bind_eq_some_iff.mp h
    rw [readLines, ih hrest]
    dsimp only at h ⊢
    split at h
    · obtain ⟨x, hx, h⟩ := Option.bind_eq_some_iff.mp h
      obtain ⟨rfl, rfl⟩ := Prod.mk.inj (Option.some.inj h)
      simp [hf _ _ hx]
    · obtain ⟨bytes, hbytes, h⟩ := Option.bind_eq_some_iff.mp h
      obtain ⟨rfl, rfl⟩ := Prod.mk.inj (Option.some.inj h)
      simp_all

/-- Lines without a line break in them that are read as `frames`. -/
structure Reads (head : List Char → Option η) (lines : List (List Char))
    (frames : List (η × List UInt8)) : Prop where
  oneLine : ∀ line ∈ lines, '\n' ∉ line
  read : readLines head lines = some ([], frames)

theorem Reads.nil : Reads head [] [] := ⟨by simp, rfl⟩

theorem Reads.readFrames (h : Reads head lines frames) {os : String}
    (hos : os.toList = terminated '\n' lines) : Dissect.readFrames head os = some frames := by
  rw [Dissect.readFrames, hos, splitOn_terminated h.oneLine, List.dropLast_concat, h.read]
  rfl

/-- The lines about a frame, of which the first `turns` lines of the dump were written. -/
theorem Reads.frame (h : Reads head lines frames) {n : Nat} {line : String} {x : η}
    (hline : '\n' ∉ line.toList)
    (hhead : head (Nat.toDigits 10 n ++ ']' :: ' ' :: line.toList) = some x) (packet : List UInt8)
    (turns : Nat) :
    Reads head (numbered n line :: dumpLines packet turns 0 ++ lines)
      ((x, packet.take (16 * turns)) :: frames) := by
  refine ⟨?_, ?_⟩
  · have hfirst : '\n' ∉ numbered n line := by
      have hdigits : '\n' ∉ Nat.toDigits 10 n := notMem_toDigits (by decide) (by decide) n
      simp [numbered_eq, hdigits, hline]
    rw [List.forall_mem_append, List.forall_mem_cons]
    exact ⟨⟨hfirst, fun _ => newline_notMem_dumpLines⟩, h.oneLine⟩
  · have hdump := readLines_dumpLines packet turns 0 h.read
    rw [List.drop_zero, List.append_nil] at hdump
    exact readLines_numbered hhead hdump

theorem Reads.map {head' : List Char → Option ι} {f : η → ι}
    (hf : ∀ text x, head text = some x → head' text = some (f x)) (h : Reads head lines frames) :
    Reads head' lines (frames.map fun frame => (f frame.1, frame.2)) :=
  ⟨h.oneLine, readLines_map hf h.read⟩

end

end MyWireshark.Dissect
