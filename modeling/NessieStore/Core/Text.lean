import Mathlib.Algebra.Ring.Nat
import Mathlib.Data.List.Basic

/-!
# Reading text

The functions of the standard library that the code reads its texts with: the lines of a text, and a
number of 64 bits in it and back (`parseU64_writeU64`).
-/

set_option autoImplicit false

namespace NessieStore

/-- A `String`, as its characters. -/
abbrev Text := List Char

/-- A line without the carriage return of its line break. -/
def stripCr (line : Text) : Text := if line.getLast? = some '\r' then line.dropLast else line

/-- `str::lines`, with `line` already read; a text that ends in a line break has no line behind it. -/
def linesFrom : Text → Text → List Text
  | line, [] => if line = [] then [] else [line]
  | line, c :: rest =>
    if c = '\n' then stripCr line :: linesFrom [] rest else linesFrom (line ++ [c]) rest

def lines (s : Text) : List Text := linesFrom [] s

/-- `char::is_whitespace`. -/
def isWhitespace (c : Char) : Bool :=
  (9 ≤ c.toNat && c.toNat ≤ 13) || (8192 ≤ c.toNat && c.toNat ≤ 8202) ||
    [32, 133, 160, 5760, 8232, 8233, 8239, 8287, 12288].contains c.toNat

/-- `str::trim`. -/
def trim (s : Text) : Text :=
  ((s.dropWhile isWhitespace).reverse.dropWhile isWhitespace).reverse

/-- At least one digit, and a number of 64 bits. -/
def parseDigits (digits : Text) : Option UInt64 :=
  if digits ≠ [] ∧ digits.all Char.isDigit ∧ Nat.ofDigitChars 10 digits 0 < 2 ^ 64 then
    some (UInt64.ofNat (Nat.ofDigitChars 10 digits 0))
  else none

/-- `str::parse::<u64>`: digits, perhaps behind a plus sign. -/
def parseU64 : Text → Option UInt64
  | '+' :: digits => parseDigits digits
  | digits => parseDigits digits

/-- A run of decimal digits and its value. -/
structure IsDecimal (digits : Text) (n : UInt64) : Prop where
  ne_nil : digits ≠ []
  isDigit : ∀ c ∈ digits, c.isDigit = true
  value : Nat.ofDigitChars 10 digits 0 = n.toNat

/-- `u64::to_string`. -/
def writeU64 (n : UInt64) : Text := Nat.toDigits 10 n.toNat

theorem linesFrom_append (line l rest : Text) (h : '\n' ∉ l) :
    linesFrom line (l ++ '\n' :: rest) = stripCr (line ++ l) :: lines rest := by
  induction l generalizing line with
  | nil => simp [linesFrom, lines]
  | cons c l ih =>
    obtain ⟨hc, hl⟩ := not_or.mp (mt List.mem_cons.mpr h)
    rw [List.cons_append, linesFrom, if_neg (Ne.symm hc), ih _ hl, List.append_assoc,
      List.singleton_append]

theorem lines_append (l rest : Text) (h : '\n' ∉ l) :
    lines (l ++ '\n' :: rest) = stripCr l :: lines rest := linesFrom_append [] l rest h

/-- A line break ends the lines in front of it, whatever they are. -/
theorem linesFrom_append_break (line front rest : Text) :
    linesFrom line (front ++ '\n' :: rest) = linesFrom line (front ++ ['\n']) ++ lines rest := by
  induction front generalizing line with
  | nil => rfl
  | cons c front ih =>
    rw [List.cons_append, List.cons_append, linesFrom, linesFrom]
    split
    · rw [ih [], List.cons_append]
    · exact ih (line ++ [c])

theorem lines_append_break (front rest : Text) :
    lines (front ++ '\n' :: rest) = lines (front ++ ['\n']) ++ lines rest :=
  linesFrom_append_break [] front rest

theorem stripCr_subset (line : Text) : stripCr line ⊆ line := by
  unfold stripCr
  split
  · exact List.dropLast_subset line
  · exact List.Subset.refl line

/-- No line holds a line break. -/
theorem not_mem_of_mem_linesFrom {line s l : Text} (hline : '\n' ∉ line) (h : l ∈ linesFrom line s) :
    '\n' ∉ l := by
  induction s generalizing line with
  | nil =>
    rw [linesFrom] at h
    split at h
    · cases h
    · rwa [List.mem_singleton.mp h]
  | cons c s ih =>
    rw [linesFrom] at h
    split at h
    · rcases List.mem_cons.mp h with rfl | h
      · exact fun hmem => hline (stripCr_subset line hmem)
      · exact ih List.not_mem_nil h
    · next hc =>
      refine ih ?_ h
      rw [List.mem_append, List.mem_singleton]
      rintro (hmem | heq)
      · exact hline hmem
      · exact hc heq.symm

theorem not_mem_of_mem_lines {s l : Text} (h : l ∈ lines s) : '\n' ∉ l :=
  not_mem_of_mem_linesFrom List.not_mem_nil h

theorem stripCr_append (key value : Text) {sep : Char} (h : sep ≠ '\r') :
    stripCr (key ++ sep :: value) = key ++ sep :: stripCr value := by
  unfold stripCr
  cases value with
  | nil => simp [h]
  | cons c value =>
    have hlast : (key ++ sep :: c :: value).getLast? = (c :: value).getLast? := by
      rw [List.getLast?_append_cons, List.getLast?_cons_cons]
    rw [hlast]
    split
    · rw [List.dropLast_append_of_ne_nil (List.cons_ne_nil _ _), List.dropLast_cons_cons]
    · rfl

theorem stripCr_of_not_mem {line : Text} (h : '\r' ∉ line) : stripCr line = line :=
  if_neg fun hlast => h (List.mem_of_getLast? hlast)

theorem stripCr_eq_self_iff {line : Text} : stripCr line = line ↔ line.getLast? ≠ some '\r' := by
  constructor
  · intro h hlast
    rw [stripCr, if_pos hlast] at h
    have hne : line ≠ [] := by
      rintro rfl
      cases hlast
    have hlen := congrArg List.length h
    rw [List.length_dropLast] at hlen
    have hpos := List.length_pos_iff.mpr hne
    omega
  · exact fun hlast => if_neg hlast

theorem parseDigits_eq_some_iff {digits : Text} {n : UInt64} :
    parseDigits digits = some n ↔ IsDecimal digits n := by
  unfold parseDigits
  split
  · next h =>
    obtain ⟨hne, hdigits, hlt⟩ := h
    rw [Option.some.injEq]
    constructor
    · rintro rfl
      exact ⟨hne, List.all_eq_true.mp hdigits, (UInt64.toNat_ofNat_of_lt' hlt).symm⟩
    · intro h
      rw [h.value, UInt64.ofNat_toNat]
  · next hnot =>
    refine iff_of_false (by simp) fun h => hnot ?_
    exact ⟨h.ne_nil, List.all_eq_true.mpr h.isDigit, h.value ▸ n.toNat_lt⟩

/-- A number is a run of digits, perhaps behind a plus sign. -/
theorem parseU64_eq_some_iff {s : Text} {n : UInt64} :
    parseU64 s = some n ↔ IsDecimal s n ∨ ∃ digits, s = '+' :: digits ∧ IsDecimal digits n := by
  have hplus : ∀ digits, ¬ IsDecimal ('+' :: digits) n := fun digits h =>
    absurd (h.isDigit '+' List.mem_cons_self) (by decide)
  unfold parseU64
  split
  · next digits =>
    rw [parseDigits_eq_some_iff]
    constructor
    · intro h
      exact .inr ⟨digits, rfl, h⟩
    · rintro (h | ⟨digits', heq, h⟩)
      · exact absurd h (hplus digits)
      · cases heq
        exact h
  · next hnot =>
    rw [parseDigits_eq_some_iff]
    constructor
    · exact .inl
    · rintro (h | ⟨digits, rfl, -⟩)
      · exact h
      · exact absurd rfl (hnot digits)

theorem writeU64_ne_nil (n : UInt64) : writeU64 n ≠ [] := Nat.toDigits_ne_nil

theorem isDigit_of_mem_writeU64 {n : UInt64} {c : Char} (h : c ∈ writeU64 n) : c.isDigit = true :=
  Nat.isDigit_of_mem_toDigits (by decide) (by decide) h

theorem not_mem_writeU64 {n : UInt64} {c : Char} (h : c.isDigit = false) : c ∉ writeU64 n :=
  fun hmem => by
    rw [isDigit_of_mem_writeU64 hmem] at h
    cases h

theorem isDecimal_writeU64 (n : UInt64) : IsDecimal (writeU64 n) n where
  ne_nil := writeU64_ne_nil n
  isDigit _ hc := isDigit_of_mem_writeU64 hc
  value := Nat.ofDigitChars_toDigits (by decide) (by decide)

theorem parseU64_writeU64 (n : UInt64) : parseU64 (writeU64 n) = some n :=
  parseU64_eq_some_iff.mpr (.inl (isDecimal_writeU64 n))

end NessieStore
