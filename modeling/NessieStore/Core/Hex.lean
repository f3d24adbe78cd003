import Mathlib.Data.List.Basic

/-!
# The hex codec

`nessie-backend-core`, `hex.rs`: lowercase on the way out, either case on the way in. The source
decodes the bytes of a string; here a text is its list of characters, which is the same thing for
the sixteen digits, and every other character is refused in both.
-/

set_option autoImplicit false

namespace NessieStore.Hex

/-- `HEX[n]`. -/
def digit (n : UInt8) : Char := "0123456789abcdef".toList.getD n.toNat '0'

def encode : List UInt8 → List Char
  | [] => []
  | b :: bs => digit (b >>> 4) :: digit (b &&& 0x0f) :: encode bs

/-- The value of one hex digit. -/
def val (c : Char) : Option UInt8 :=
  if '0' ≤ c ∧ c ≤ '9' then some (UInt8.ofNat (c.toNat - '0'.toNat))
  else if 'a' ≤ c ∧ c ≤ 'f' then some (UInt8.ofNat (c.toNat - 'a'.toNat + 10))
  else if 'A' ≤ c ∧ c ≤ 'F' then some (UInt8.ofNat (c.toNat - 'A'.toNat + 10))
  else none

/-- `none` on an odd length or a character that is not a hex digit. -/
def decode : List Char → Option (List UInt8)
  | [] => some []
  | [_] => none
  | c :: c' :: cs => do
    let hi ← val c
    let lo ← val c'
    let rest ← decode cs
    some ((hi <<< 4 ||| lo) :: rest)

theorem length_encode (bs : List UInt8) : (encode bs).length = 2 * bs.length := by
  induction bs with
  | nil => rfl
  | cons b bs ih =>
    simp only [encode, List.length_cons, ih]
    omega

/-- One byte through its two digits, checked for all 256. -/
theorem val_digits (b : UInt8) :
    val (digit (b >>> 4)) = some (b >>> 4) ∧ val (digit (b &&& 0x0f)) = some (b &&& 0x0f) ∧
      b >>> 4 <<< 4 ||| b &&& 0x0f = b := by
  have hall : ∀ n : Fin 256,
      val (digit (UInt8.ofFin n >>> 4)) = some (UInt8.ofFin n >>> 4) ∧
        val (digit (UInt8.ofFin n &&& 0x0f)) = some (UInt8.ofFin n &&& 0x0f) ∧
        UInt8.ofFin n >>> 4 <<< 4 ||| UInt8.ofFin n &&& 0x0f = UInt8.ofFin n := by
    decide +kernel
  exact hall b.toFin

theorem decode_encode (bs : List UInt8) : decode (encode bs) = some bs := by
  induction bs with
  | nil => rfl
  | cons b bs ih =>
    obtain ⟨hhi, hlo, hb⟩ := val_digits b
    simp only [encode, decode, hhi, hlo, ih, Option.bind_eq_bind, Option.bind_some, hb]

/-! ## What is decoded -/

/-- Upper and lower case letters have one value. -/
theorem val_toLower (c : Char) : val c.toLower = val c := by
  have hall : ∀ n : Fin 128, val (Char.ofNat n).toLower = val (Char.ofNat n) := by decide +kernel
  by_cases hc : c.toNat < 128
  · have hc' := hall ⟨c.toNat, hc⟩
    rwa [Char.ofNat_toNat] at hc'
  · have hlower : c.toLower = c := by
      unfold Char.toLower
      rw [dif_neg]
      rintro ⟨-, hz⟩
      have hz' : c.toNat ≤ 'Z'.toNat := hz
      exact hc (Nat.lt_of_le_of_lt hz' (by decide))
    rw [hlower]

/-- A character with a value is the digit of that value, or its capital. -/
theorem digit_of_val {c : Char} {n : UInt8} (h : val c = some n) :
    n.toNat < 16 ∧ digit n = c.toLower := by
  have hall : ∀ k : Fin 128, ∀ m ∈ val (Char.ofNat k),
      m.toNat < 16 ∧ digit m = (Char.ofNat k).toLower := by decide +kernel
  have hc : c.toNat < 128 := by
    have hle : ∀ e : Char, e.toNat < 128 → c ≤ e → c.toNat < 128 :=
      fun e he hce => Nat.lt_of_le_of_lt hce he
    unfold val at h
    split at h
    · next hrange => exact hle '9' (by decide) hrange.2
    · split at h
      · next hrange => exact hle 'f' (by decide) hrange.2
      · split at h
        · next hrange => exact hle 'F' (by decide) hrange.2
        · cases h
  have hc' := hall ⟨c.toNat, hc⟩
  rw [Char.ofNat_toNat] at hc'
  exact hc' n h

/-- The two halves of a byte, checked for all pairs. -/
theorem halves {hi lo : UInt8} (hhi : hi.toNat < 16) (hlo : lo.toNat < 16) :
    (hi <<< 4 ||| lo) >>> 4 = hi ∧ (hi <<< 4 ||| lo) &&& 0x0f = lo := by
  have hall : ∀ m n : Fin 16,
      (UInt8.ofNat m <<< 4 ||| UInt8.ofNat n) >>> 4 = UInt8.ofNat m ∧
        (UInt8.ofNat m <<< 4 ||| UInt8.ofNat n) &&& 0x0f = UInt8.ofNat n := by decide +kernel
  have hpair := hall ⟨hi.toNat, hhi⟩ ⟨lo.toNat, hlo⟩
  simpa only [UInt8.ofNat_toNat] using hpair

theorem decode_toLower (s : List Char) : decode (s.map Char.toLower) = decode s := by
  fun_induction decode s with
  | case1 => rfl
  | case2 c => rfl
  | case3 c c' cs ih => simp only [List.map_cons, decode, val_toLower, ih]

theorem encode_of_decode {s : List Char} {bs : List UInt8} (h : decode s = some bs) :
    encode bs = s.map Char.toLower := by
  fun_induction decode s generalizing bs with
  | case1 =>
    cases h
    rfl
  | case2 c => cases h
  | case3 c c' cs ih =>
    obtain ⟨hi, hhi, h⟩ := Option.bind_eq_some_iff.mp h
    obtain ⟨lo, hlo, h⟩ := Option.bind_eq_some_iff.mp h
    obtain ⟨rest, hrest, h⟩ := Option.bind_eq_some_iff.mp h
    cases h
    obtain ⟨hhi16, hhiDigit⟩ := digit_of_val hhi
    obtain ⟨hlo16, hloDigit⟩ := digit_of_val hlo
    obtain ⟨hupper, hlower⟩ := halves hhi16 hlo16
    rw [encode, hupper, hlower, hhiDigit, hloDigit, ih hrest, List.map_cons, List.map_cons]

/-- A text decodes to some bytes iff it is their hex, in whatever case its letters are. -/
theorem decode_eq_some_iff {s : List Char} {bs : List UInt8} :
    decode s = some bs ↔ s.map Char.toLower = encode bs := by
  constructor
  · intro h
    exact (encode_of_decode h).symm
  · intro h
    rw [← decode_toLower, h, decode_encode]

/-- The digits that `val` knows, in either case. -/
def isHexDigit (c : Char) : Bool :=
  ('0' ≤ c ∧ c ≤ '9') ∨ ('a' ≤ c ∧ c ≤ 'f') ∨ ('A' ≤ c ∧ c ≤ 'F')

theorem isHexDigit_iff {c : Char} : isHexDigit c = true ↔ ∃ n, val c = some n := by
  unfold isHexDigit val
  rw [decide_eq_true_iff]
  by_cases hdigit : '0' ≤ c ∧ c ≤ '9'
  · rw [if_pos hdigit]
    exact iff_of_true (.inl hdigit) ⟨_, rfl⟩
  rw [if_neg hdigit, or_iff_right hdigit]
  by_cases hlower : 'a' ≤ c ∧ c ≤ 'f'
  · rw [if_pos hlower]
    exact iff_of_true (.inl hlower) ⟨_, rfl⟩
  rw [if_neg hlower, or_iff_right hlower]
  by_cases hupper : 'A' ≤ c ∧ c ≤ 'F'
  · rw [if_pos hupper]
    exact iff_of_true hupper ⟨_, rfl⟩
  · rw [if_neg hupper]
    exact iff_of_false hupper (by simp)

theorem exists_decode {s : List Char} (hlen : s.length % 2 = 0)
    (hdigits : ∀ c ∈ s, isHexDigit c = true) : ∃ bs, decode s = some bs := by
  fun_induction decode s with
  | case1 => exact ⟨[], rfl⟩
  | case2 c => cases hlen
  | case3 c c' cs ih =>
    obtain ⟨hc, hdigits⟩ := List.forall_mem_cons.mp hdigits
    obtain ⟨hc', hdigits⟩ := List.forall_mem_cons.mp hdigits
    obtain ⟨hi, hhi⟩ := isHexDigit_iff.mp hc
    obtain ⟨lo, hlo⟩ := isHexDigit_iff.mp hc'
    have hlen' : cs.length % 2 = 0 := by
      simp only [List.length_cons] at hlen
      omega
    obtain ⟨rest, hrest⟩ := ih hlen' hdigits
    refine ⟨(hi <<< 4 ||| lo) :: rest, ?_⟩
    simp only [hhi, hlo, hrest, Option.bind_eq_bind, Option.bind_some]

theorem isHexDigit_of_decode {s : List Char} {bs : List UInt8} (h : decode s = some bs) :
    ∀ c ∈ s, isHexDigit c = true := by
  fun_induction decode s generalizing bs with
  | case1 => exact List.forall_mem_nil _
  | case2 c => cases h
  | case3 c c' cs ih =>
    obtain ⟨hi, hhi, h⟩ := Option.bind_eq_some_iff.mp h
    obtain ⟨lo, hlo, h⟩ := Option.bind_eq_some_iff.mp h
    obtain ⟨rest, hrest, h⟩ := Option.bind_eq_some_iff.mp h
    refine List.forall_mem_cons.mpr ⟨isHexDigit_iff.mpr ⟨hi, hhi⟩, ?_⟩
    exact List.forall_mem_cons.mpr ⟨isHexDigit_iff.mpr ⟨lo, hlo⟩, ih hrest⟩

/-! ## Lowercase -/

/-- The digits that are written. -/
def isLower (c : Char) : Bool := ('0' ≤ c ∧ c ≤ '9') ∨ ('a' ≤ c ∧ c ≤ 'f')

theorem isLower_digits (b : UInt8) :
    isLower (digit (b >>> 4)) = true ∧ isLower (digit (b &&& 0x0f)) = true := by
  have hall : ∀ n : Fin 256, isLower (digit (UInt8.ofFin n >>> 4)) = true ∧
      isLower (digit (UInt8.ofFin n &&& 0x0f)) = true := by decide +kernel
  exact hall b.toFin

theorem isLower_of_mem_encode {bs : List UInt8} {c : Char} (h : c ∈ encode bs) :
    isLower c = true := by
  induction bs with
  | nil => cases h
  | cons b bs ih =>
    obtain ⟨hhi, hlo⟩ := isLower_digits b
    rcases List.mem_cons.mp h with rfl | h
    · exact hhi
    · rcases List.mem_cons.mp h with rfl | h
      · exact hlo
      · exact ih h

theorem notMem_encode {c : Char} (h : isLower c = false) (bs : List UInt8) : c ∉ encode bs :=
  fun hmem => absurd (isLower_of_mem_encode hmem) (Bool.eq_false_iff.mp h)

theorem isHexDigit_of_isLower {c : Char} (h : isLower c = true) : isHexDigit c = true := by
  rcases of_decide_eq_true h with hdigit | hletter
  · exact decide_eq_true (.inl hdigit)
  · exact decide_eq_true (.inr (.inl hletter))

theorem toLower_of_isLower {c : Char} (h : isLower c = true) : c.toLower = c := by
  unfold Char.toLower
  refine dif_neg ?_
  rintro ⟨hA, hZ⟩
  have hA' : 'A' ≤ c := hA
  have hZ' : c ≤ 'Z' := hZ
  rcases of_decide_eq_true h with hdigit | hletter
  · exact absurd (Char.le_trans hA' hdigit.2) (by decide)
  · exact absurd (Char.le_trans hletter.1 hZ') (by decide)

theorem map_toLower {s : List Char} (hlower : ∀ c ∈ s, isLower c = true) :
    s.map Char.toLower = s := by
  rw [List.map_congr_left fun c hc => toLower_of_isLower (hlower c hc), List.map_id']

theorem utf8Size_of_isLower {c : Char} (h : isLower c = true) : c.utf8Size = 1 := by
  have hle : ∀ e : Char, e.toNat < 128 → c ≤ e → c.utf8Size = 1 := by
    intro e he hce
    have hc : c.toNat ≤ e.toNat := hce
    refine Char.utf8Size_eq_one_iff.mpr (UInt32.le_iff_toNat_le.mpr ?_)
    show c.toNat ≤ 127
    omega
  rcases of_decide_eq_true h with hdigit | hletter
  · exact hle '9' (by decide) hdigit.2
  · exact hle 'f' (by decide) hletter.2

/-- Every even run of lowercase digits is the hex of some bytes. -/
theorem exists_encode_eq {s : List Char} (hlen : s.length % 2 = 0)
    (hlower : ∀ c ∈ s, isLower c = true) : ∃ bs, encode bs = s := by
  obtain ⟨bs, hbs⟩ := exists_decode hlen fun c hc => isHexDigit_of_isLower (hlower c hc)
  refine ⟨bs, ?_⟩
  rw [← decode_eq_some_iff.mp hbs, map_toLower hlower]

end NessieStore.Hex
