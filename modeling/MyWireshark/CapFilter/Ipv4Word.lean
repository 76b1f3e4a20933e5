import MyWireshark.CapFilter.Lexer
import MyWireshark.Lib.Text
import Mathlib.Data.List.Induction

/-! The words that parse_ipv4_word takes, and what its loop holds on the way. -/
namespace MyWireshark.CapFilter
open MyWireshark.Filter

def decimal (run : List Char) : Nat := Nat.ofDigitChars 10 run 0

structure IsOctet (run : List Char) : Prop where
  nonempty : run ≠ []
  digits : ∀ ch ∈ run, isDigit ch = true
  small : decimal run ≤ 255

/-- The four octets of an address, with dots between them. -/
def DottedQuad (word : List Char) (addr : Ipv4Addr) : Prop :=
  ∃ a b c d, word = a ++ '.' :: (b ++ '.' :: (c ++ '.' :: d)) ∧
    IsOctet a ∧ IsOctet b ∧ IsOctet c ∧ IsOctet d ∧
    addr = #v[UInt8.ofNat (decimal a), UInt8.ofNat (decimal b), UInt8.ofNat (decimal c),
      UInt8.ofNat (decimal d)]

def Ipv4Scan.start : Ipv4Scan :=
  { octet := 0, value := -1, digits := 0, out := Vector.replicate 4 0 }

/-- What a digit makes of `value`, before the test against 255. -/
def Ipv4Scan.next (s : Ipv4Scan) (ch : Char) : Int :=
  (if s.value < 0 then 0 else s.value) * 10 + ((ch.toNat : Int) - 48)

section
variable {s t : Ipv4Scan} {ch : Char}

theorem ipv4Turn_dot_iff : ipv4Turn s '.' = some t ↔
    s.digits ≠ 0 ∧ s.value ≤ 255 ∧ ∃ h : s.octet < 4,
      t = ⟨s.octet + 1, -1, 0, s.out.set s.octet (UInt8.ofNat s.value.toNat) h⟩ := by
  rw [ipv4Turn, if_pos rfl]
  by_cases h : s.digits = 0 ∨ s.value > 255 ∨ s.octet > 3
  · rw [dif_pos h]
    refine iff_of_false (by simp) ?_
    rintro ⟨hd, hv, ho, -⟩
    omega
  · rw [dif_neg h, Option.some_inj, eq_comm]
    exact ⟨fun ht => ⟨by omega, by omega, by omega, ht⟩, fun ⟨_, _, _, ht⟩ => ht⟩

theorem ipv4Turn_digit_iff (hdot : ch ≠ '.') : ipv4Turn s ch = some t ↔
    isDigit ch = true ∧ s.next ch ≤ 255 ∧
      t = { s with value := s.next ch, digits := s.digits + 1 } := by
  rw [ipv4Turn, if_neg hdot]
  by_cases hdigit : isDigit ch = true
  · rw [if_pos hdigit]
    change (if s.next ch > 255 then none
      else some { s with value := s.next ch, digits := _ }) = _ ↔ _
    by_cases hlarge : s.next ch > 255
    · rw [if_pos hlarge]
      exact iff_of_false (by simp) fun h => absurd h.2.1 (by omega)
    · rw [if_neg hlarge, Option.some_inj, eq_comm]
      exact ⟨fun ht => ⟨hdigit, by omega, ht⟩, fun h => h.2.2⟩
  · rw [if_neg hdigit]
    exact iff_of_false (by simp) fun h => hdigit h.1

/-- Between two turns `value` is -1 or a byte, and within a turn no more than 2559. -/
structure Ipv4Scan.Bounded (s : Ipv4Scan) : Prop where
  low : -1 ≤ s.value
  high : s.value ≤ 255

theorem Ipv4Scan.Bounded.next_le (h : s.Bounded) (hdigit : isDigit ch = true) :
    0 ≤ s.next ch ∧ s.next ch ≤ 2559 := by
  have hch := isDigit_toNat hdigit
  have hhigh := h.high
  unfold Ipv4Scan.next
  split <;> omega

theorem Ipv4Scan.Bounded.turn (h : s.Bounded) (hturn : ipv4Turn s ch = some t) : t.Bounded := by
  by_cases hdot : ch = '.'
  · rw [hdot] at hturn
    obtain ⟨-, -, -, rfl⟩ := ipv4Turn_dot_iff.mp hturn
    exact ⟨(by decide : (-1 : Int) ≤ -1), (by decide : (-1 : Int) ≤ 255)⟩
  · obtain ⟨hdigit, hle, rfl⟩ := (ipv4Turn_digit_iff hdot).mp hturn
    have hpos := (h.next_le hdigit).1
    exact ⟨by dsimp only; omega, hle⟩

theorem Ipv4Scan.Bounded.run {word : List Char} (h : s.Bounded)
    (hrun : word.foldlM ipv4Turn s = some t) : t.Bounded := by
  induction word generalizing s with
  | nil =>
    obtain rfl := Option.some.inj hrun
    exact h
  | cons ch word ih =>
    rw [List.foldlM_cons] at hrun
    obtain ⟨u, hturn, hrest⟩ := Option.bind_eq_some_iff.mp hrun
    exact ih (h.turn hturn) hrest

theorem decimal_concat (run : List Char) (ch : Char) :
    decimal (run ++ [ch]) = 10 * decimal run + (ch.toNat - 48) := by
  simp [decimal, Nat.ofDigitChars_eq_foldl]

def Ipv4Scan.behind (s : Ipv4Scan) (run : List Char) : Ipv4Scan :=
  { s with value := if run = [] then -1 else decimal run, digits := run.length }

theorem Ipv4Scan.next_behind (run : List Char) (hdigit : isDigit ch = true) :
    (s.behind run).next ch = decimal (run ++ [ch]) := by
  have hch := isDigit_toNat hdigit
  rw [decimal_concat]
  cases run with
  | nil =>
    have hzero : decimal [] = 0 := rfl
    simp [Ipv4Scan.next, Ipv4Scan.behind, hzero]
    omega
  | cons c run =>
    have hpos : ¬((decimal (c :: run) : Int) < 0) := by omega
    simp [Ipv4Scan.next, Ipv4Scan.behind, hpos]
    omega

theorem foldlM_run_iff (hvalue : s.value = -1) (hdigits : s.digits = 0) {run : List Char}
    (hdot : '.' ∉ run) : run.foldlM ipv4Turn s = some t ↔
      (∀ ch ∈ run, isDigit ch = true) ∧ decimal run ≤ 255 ∧ t = s.behind run := by
  induction run using List.reverseRecOn generalizing t with
  | nil =>
    have hsame : s.behind [] = s := by
      rw [Ipv4Scan.behind, if_pos rfl, ← hvalue, List.length_nil, ← hdigits]
    rw [List.foldlM_nil, Option.pure_def, Option.some_inj, hsame, eq_comm]
    exact ⟨fun ht => ⟨by simp, by decide, ht⟩, fun ht => ht.2.2⟩
  | append_singleton run ch ih =>
    have hrun : '.' ∉ run := fun h => hdot (List.mem_append_left _ h)
    have hch : ch ≠ '.' := fun h => hdot (List.mem_append_right _ (by simp [h]))
    have hgrow : ∀ u, u = s.behind run → isDigit ch = true →
        { u with value := u.next ch, digits := u.digits + 1 } = s.behind (run ++ [ch]) := by
      rintro u rfl hdigit
      rw [Ipv4Scan.next_behind run hdigit]
      simp [Ipv4Scan.behind]
    rw [List.foldlM_append, Option.bind_eq_bind, Option.bind_eq_some_iff]
    simp only [List.foldlM_cons, List.foldlM_nil, bind_pure, ih hrun, ipv4Turn_digit_iff hch]
    constructor
    · rintro ⟨u, ⟨hall, -, rfl⟩, hdigit, hle, rfl⟩
      rw [Ipv4Scan.next_behind run hdigit] at hle
      refine ⟨?_, by omega, hgrow _ rfl hdigit⟩
      simpa [or_imp, forall_and] using ⟨hall, hdigit⟩
    · rintro ⟨hall, hle, rfl⟩
      have hdigit : isDigit ch = true := hall ch (by simp)
      have hshort : decimal run ≤ 255 := by
        rw [decimal_concat] at hle
        omega
      refine ⟨_, ⟨fun c hc => hall c (List.mem_append_left _ hc), hshort, rfl⟩, hdigit, ?_,
        (hgrow _ rfl hdigit).symm⟩
      rw [Ipv4Scan.next_behind run hdigit]
      omega

theorem foldlM_field_iff (hvalue : s.value = -1) (hdigits : s.digits = 0) {run : List Char}
    (hdot : '.' ∉ run) : (run ++ ['.']).foldlM ipv4Turn s = some t ↔
      IsOctet run ∧ ∃ h : s.octet < 4,
        t = ⟨s.octet + 1, -1, 0, s.out.set s.octet (UInt8.ofNat (decimal run)) h⟩ := by
  rw [List.foldlM_append, Option.bind_eq_bind, Option.bind_eq_some_iff]
  simp only [List.foldlM_cons, List.foldlM_nil, bind_pure, foldlM_run_iff hvalue hdigits hdot,
    ipv4Turn_dot_iff]
  constructor
  · rintro ⟨u, ⟨hall, hle, rfl⟩, hne, -, hoctet, rfl⟩
    have hrun : run ≠ [] := fun h => hne (by rw [h]; rfl)
    refine ⟨⟨hrun, hall, hle⟩, hoctet, ?_⟩
    simp [Ipv4Scan.behind, hrun]
  · rintro ⟨⟨hrun, hall, hle⟩, hoctet, rfl⟩
    refine ⟨_, ⟨hall, hle, rfl⟩, ?_, ?_, hoctet, ?_⟩
    · simpa [Ipv4Scan.behind] using hrun
    · simp only [Ipv4Scan.behind, if_neg hrun]
      omega
    · simp [Ipv4Scan.behind, hrun]

theorem foldlM_fields {runs : List (List Char)} (hvalue : s.value = -1) (hdigits : s.digits = 0)
    (hdots : ∀ run ∈ runs, '.' ∉ run)
    (h : (runs.flatMap fun run => run ++ ['.']).foldlM ipv4Turn s = some t) :
    (∀ run ∈ runs, IsOctet run) ∧ t.octet = s.octet + runs.length := by
  induction runs generalizing s with
  | nil =>
    obtain rfl := Option.some.inj h
    exact ⟨by simp, rfl⟩
  | cons run runs ih =>
    rw [List.flatMap_cons, List.foldlM_append] at h
    obtain ⟨u, hfield, hrest⟩ := Option.bind_eq_some_iff.mp h
    obtain ⟨hrun, hoctet, rfl⟩ :=
      (foldlM_field_iff hvalue hdigits (hdots run List.mem_cons_self)).mp hfield
    obtain ⟨hruns, hcount⟩ := ih rfl rfl (fun r hr => hdots r (List.mem_cons_of_mem run hr)) hrest
    refine ⟨fun r hr => ?_, ?_⟩
    · obtain rfl | hr := List.mem_cons.mp hr
      · exact hrun
      · exact hruns r hr
    · rw [hcount, List.length_cons]
      dsimp only
      omega

end

theorem IsOctet.no_dot {run : List Char} (h : IsOctet run) : '.' ∉ run := fun hmem =>
  absurd (h.digits '.' hmem) (by decide)

theorem foldlM_quad {a b c d : List Char} (ha : IsOctet a) (hb : IsOctet b) (hc : IsOctet c)
    (hd : IsOctet d) :
    ([a, b, c, d].flatMap fun run => run ++ ['.']).foldlM ipv4Turn .start =
      some ⟨4, -1, 0, #v[UInt8.ofNat (decimal a), UInt8.ofNat (decimal b), UInt8.ofNat (decimal c),
        UInt8.ofNat (decimal d)]⟩ := by
  have hfield : ∀ {s : Ipv4Scan} {run : List Char}, IsOctet run → s.value = -1 → s.digits = 0 →
      (h : s.octet < 4) → (run ++ ['.']).foldlM ipv4Turn s =
        some ⟨s.octet + 1, -1, 0, s.out.set s.octet (UInt8.ofNat (decimal run)) h⟩ :=
    fun hrun hvalue hdigits h => (foldlM_field_iff hvalue hdigits hrun.no_dot).mpr ⟨hrun, h, rfl⟩
  simp only [List.flatMap_cons, List.flatMap_nil, List.append_nil]
  rw [List.foldlM_append, hfield ha rfl rfl (show 0 < 4 by decide), Option.bind_eq_bind,
    Option.bind_some, List.foldlM_append, hfield hb rfl rfl (show 1 < 4 by decide),
    Option.bind_eq_bind, Option.bind_some, List.foldlM_append,
    hfield hc rfl rfl (show 2 < 4 by decide), Option.bind_eq_bind, Option.bind_some,
    hfield hd rfl rfl (show 3 < 4 by decide)]
  rfl

theorem intercalate_quad (a b c d : List Char) :
    ['.'].intercalate [a, b, c, d] = a ++ '.' :: (b ++ '.' :: (c ++ '.' :: d)) := by
  simp [List.intercalate_cons_cons]

/-- parse_ipv4_word takes the dotted quads, and no other word. -/
theorem parseIpv4Word_iff (word : List Char) (addr : Ipv4Addr) :
    parseIpv4Word word = some addr ↔ DottedQuad word addr := by
  constructor
  · intro h
    obtain ⟨s, hscan, hend⟩ := Option.bind_eq_some_iff.mp h
    split at hend
    case isFalse => cases hend
    case isTrue hfour =>
      obtain rfl := Option.some.inj hend
      obtain ⟨runs, hne, hdots, rfl⟩ := Separated.exists_fields '.' word
      rw [Separated.intercalate_concat hne] at hscan
      obtain ⟨hruns, hcount⟩ := foldlM_fields (s := .start) rfl rfl hdots hscan
      have hlen : runs.length = 4 := by
        have hzero : Ipv4Scan.start.octet = 0 := rfl
        omega
      match runs, hlen with
      | [a, b, c, d], _ =>
        simp only [List.forall_mem_cons] at hruns
        obtain ⟨ha, hb, hc, hd, -⟩ := hruns
        have hquad := foldlM_quad ha hb hc hd
        obtain rfl := Option.some.inj (hscan.symm.trans hquad)
        exact ⟨a, b, c, d, intercalate_quad a b c d, ha, hb, hc, hd, rfl⟩
  · rintro ⟨a, b, c, d, rfl, ha, hb, hc, hd, rfl⟩
    have hquad := foldlM_quad ha hb hc hd
    rw [← Separated.intercalate_concat (by simp), intercalate_quad] at hquad
    rw [parseIpv4Word]
    change (List.foldlM ipv4Turn .start _).bind _ = _
    rw [hquad]
    rfl

end MyWireshark.CapFilter
