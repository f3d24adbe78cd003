import Mathlib.Data.Prod.Lex
import NessieStore.Lib.Mixer
import NessieStore.Nfs.Syscall

/-!
# File ids and directory cookies

The two numbers that the server derives and a client keeps: the fileid of a handle, from the device
and the inode number, and the cookie of a directory entry, from the SHA-256 of its name. The hash
itself is a parameter: `sha` gives its first eight bytes as a big-endian number.

The mixer that a fileid goes through twice loses nothing, so that two inodes with one device or with
one number have different fileids (`fileids_apart`).

A cookie keeps the high bits of the hash and numbers the names that share them in its low byte. As
long as the byte has room for them the cookies of a directory are nonzero and ascend, and the cookie
of a name depends on the names of its own group only.
-/

set_option autoImplicit false

namespace NessieStore.Nfs

open Lib

/-- `fileid3`. -/
abbrev FileId := UInt64

def splitmix64 (z : UInt64) : UInt64 :=
  let z := z + 0x9E3779B97F4A7C15
  let z := (z ^^^ (z >>> 30)) * 0xBF58476D1CE4E5B9
  let z := (z ^^^ (z >>> 27)) * 0x94D049BB133111EB
  z ^^^ (z >>> 31)

def fileidFrom (dev ino : UInt64) : FileId := splitmix64 (dev ^^^ splitmix64 ino)

/-- `fileid_of`. -/
def Inode.fileid (i : Inode) : FileId := fileidFrom i.dev i.ino

/-! ## File ids -/

/-- The mixer round by round. -/
theorem splitmix64_toBitVec :
    UInt64.toBitVec ∘ splitmix64 =
      xorShift 31 ∘ (· * 0x94D049BB133111EB#64) ∘ xorShift 27 ∘ (· * 0xBF58476D1CE4E5B9#64) ∘
        xorShift 30 ∘ (· + 0x9E3779B97F4A7C15#64) ∘ UInt64.toBitVec := rfl

theorem toBitVec_bijective : Function.Bijective UInt64.toBitVec :=
  ⟨fun _ _ => UInt64.toBitVec_inj.mp, fun b => ⟨UInt64.ofBitVec b, rfl⟩⟩

theorem splitmix64_bijective : Function.Bijective splitmix64 := by
  have hadd : Function.Bijective fun z : BitVec 64 => z + 0x9E3779B97F4A7C15#64 :=
    add_bijective _
  have hfirst : Function.Bijective fun z : BitVec 64 => z * 0xBF58476D1CE4E5B9#64 :=
    mul_bijective (b := 0x96DE1B173F119089#64) (by decide)
  have hsecond : Function.Bijective fun z : BitVec 64 => z * 0x94D049BB133111EB#64 :=
    mul_bijective (b := 0x319642B2D24D8EC3#64) (by decide)
  refine (Function.Bijective.of_comp_iff' toBitVec_bijective splitmix64).mp ?_
  rw [splitmix64_toBitVec]
  exact (xorShift_bijective (by decide)).comp <| hsecond.comp <|
    (xorShift_bijective (by decide)).comp <| hfirst.comp <|
    (xorShift_bijective (by decide)).comp <| hadd.comp toBitVec_bijective

theorem fileidFrom_injective_ino (dev : UInt64) : Function.Injective (fileidFrom dev) := by
  intro ino ino' h
  have hxor : dev ^^^ splitmix64 ino = dev ^^^ splitmix64 ino' := splitmix64_bijective.injective h
  exact splitmix64_bijective.injective ((UInt64.xor_right_inj dev).mp hxor)

theorem fileidFrom_injective_dev (ino : UInt64) :
    Function.Injective fun dev => fileidFrom dev ino := by
  intro dev dev' h
  have hxor : dev ^^^ splitmix64 ino = dev' ^^^ splitmix64 ino := splitmix64_bijective.injective h
  exact (UInt64.xor_left_inj _).mp hxor

/-- The mixer is a bijection. Two files of one device have different fileids, and so have two files of
different devices that share a number. -/
theorem fileids_apart :
    Function.Bijective splitmix64 ∧ (∀ dev, Function.Injective (fileidFrom dev)) ∧
      (∀ ino, Function.Injective fun dev => fileidFrom dev ino) ∧
      ∀ i j : Inode, i ≠ j → i.dev = j.dev ∨ i.ino = j.ino → i.fileid ≠ j.fileid := by
  refine ⟨splitmix64_bijective, fileidFrom_injective_ino, fileidFrom_injective_dev, ?_⟩
  rintro ⟨dev, ino⟩ ⟨dev', ino'⟩ hne hshared heq
  rcases hshared with rfl | rfl
  · cases fileidFrom_injective_ino dev heq
    exact hne rfl
  · cases fileidFrom_injective_dev ino heq
    exact hne rfl

/-! ## Cookies -/

/-- 63 bits of the hash of a name; 0 is the cookie to start with. -/
def nameCookie (sha : Bytes → UInt64) (name : Bytes) : UInt64 :=
  max (sha name &&& 0x7fffffffffffffff) 1

/-- The bits of a hash that a cookie keeps. -/
def high (cookie : UInt64) : UInt64 := cookie &&& 0x7fffffffffffff00

/-- Paths compare name by name. -/
def pathKey (p : Path) : List (List Nat) := p.map nameBytes

def cookieKey (e : UInt64 × Path) : Nat ×ₗ List (List Nat) := toLex ((high e.1).toNat, pathKey e.2)

/-- The loop of `assign_cookies`: the low bits number the entries that share the high ones. -/
def rankFrom (prev : Option UInt64) (rank : UInt64) : List (UInt64 × Path) → List (UInt64 × Path)
  | [] => []
  | (hash, p) :: rest =>
    let top := high hash
    let rank := if prev = some top then rank + 1 else 0
    let r := if top = 0 then rank + 1 else rank
    (top ||| min r 255, p) :: rankFrom (some top) rank rest

def assignCookies (v : List (UInt64 × Path)) : List (UInt64 × Path) :=
  rankFrom none 0 (v.insertionSort (KeyLe cookieKey))

theorem map_snd_rankFrom (prev : Option UInt64) (rank : UInt64) (v : List (UInt64 × Path)) :
    (rankFrom prev rank v).map Prod.snd = v.map Prod.snd := by
  induction v generalizing prev rank with
  | nil => rfl
  | cons e v ih => exact congrArg (e.2 :: ·) (ih _ _)

/-- The paths are those that were given. -/
theorem mem_assignCookies {v : List (UInt64 × Path)} {p : Path} :
    p ∈ (assignCookies v).map Prod.snd ↔ p ∈ v.map Prod.snd := by
  unfold assignCookies
  rw [map_snd_rankFrom]
  exact ((List.perm_insertionSort _ v).map Prod.snd).mem_iff

/-! ## Where the groups fit -/

theorem high_toNat (x : UInt64) : ∃ k, (high x).toNat = 256 * k := by
  refine ⟨(high x).toNat / 256, ?_⟩
  have hmod : (high x).toNat % 2 ^ 8 = 0 := by
    unfold high
    rw [UInt64.toNat_and, Nat.and_mod_two_pow]
    exact Nat.and_zero _
  omega

theorem toNat_high_or (x r : UInt64) (h : r.toNat ≤ 255) :
    (high x ||| min r 255).toNat = (high x).toNat + r.toNat := by
  have hmin : min r 255 = r := by
    show (if r ≤ 255 then r else 255) = r
    rw [if_pos (UInt64.le_iff_toNat_le.mpr h)]
  obtain ⟨k, hk⟩ := high_toNat x
  rw [hmin, UInt64.toNat_or, hk]
  exact (Nat.two_pow_add_eq_or_of_lt (i := 8) (by omega) k).symm

/-- How many entries share the high bits `g`. -/
def groupSize (v : List (UInt64 × Path)) (g : UInt64) : Nat := v.countP fun e => high e.1 = g

/-- The low bits number 256 entries, those of high bits zero from one on. -/
def GroupsFit (v : List (UInt64 × Path)) : Prop :=
  ∀ e ∈ v, groupSize v (high e.1) ≤ if high e.1 = 0 then 255 else 256

/-- How many entries of the same high bits come before `e`. -/
def rankIn (v : List (UInt64 × Path)) (e : UInt64 × Path) : Nat :=
  v.countP fun x => high x.1 = high e.1 ∧ pathKey x.2 < pathKey e.2

/-- The cookie of `e` where the groups fit: its high bits and its rank. -/
def cookieOf (v : List (UInt64 × Path)) (e : UInt64 × Path) : Nat :=
  (high e.1).toNat + if high e.1 = 0 then rankIn v e + 1 else rankIn v e

theorem GroupsFit.perm {v w : List (UInt64 × Path)} (h : GroupsFit v) (hp : v.Perm w) :
    GroupsFit w := by
  intro e he
  have hfit := h e (hp.mem_iff.mpr he)
  unfold groupSize at hfit ⊢
  rwa [hp.countP_eq] at hfit

theorem cookieOf_perm {v w : List (UInt64 × Path)} (hp : v.Perm w) (e : UInt64 × Path) :
    cookieOf v e = cookieOf w e := by
  simp only [cookieOf, rankIn, hp.countP_eq]

theorem rankIn_lt_groupSize {v : List (UInt64 × Path)} {e : UInt64 × Path} (he : e ∈ v) :
    rankIn v e < groupSize v (high e.1) := by
  refine countP_lt_countP (fun x _ hx => ?_) he (by simp) (by simp)
  have hx := of_decide_eq_true hx
  exact decide_eq_true hx.1

theorem cookieKey_lt_iff {x y : UInt64 × Path} :
    cookieKey x < cookieKey y ↔
      (high x.1).toNat < (high y.1).toNat ∨ high x.1 = high y.1 ∧ pathKey x.2 < pathKey y.2 := by
  rw [cookieKey, cookieKey, Prod.Lex.toLex_lt_toLex, UInt64.toNat_inj]

/-- In the sorted list the rank of an entry is the number of entries of its group in front of it. -/
theorem rankIn_middle {front rest : List (UInt64 × Path)} {e : UInt64 × Path}
    (h : (front ++ e :: rest).Pairwise fun x y => cookieKey x < cookieKey y) :
    rankIn (front ++ e :: rest) e = groupSize front (high e.1) := by
  obtain ⟨-, hrest, hfront⟩ := List.pairwise_append.mp h
  have hahead : ∀ x ∈ front, (high x.1 = high e.1 ∧ pathKey x.2 < pathKey e.2) ↔
      high x.1 = high e.1 := by
    intro x hx
    rcases cookieKey_lt_iff.mp (hfront x hx e List.mem_cons_self) with hlt | ⟨-, hlt⟩
    · constructor
      · exact And.left
      · intro heq
        rw [heq] at hlt
        exact absurd hlt (lt_irrefl _)
    · exact and_iff_left hlt
  have hbehind : ∀ x ∈ e :: rest, ¬ (high x.1 = high e.1 ∧ pathKey x.2 < pathKey e.2) := by
    rintro x hx ⟨heq, hlt⟩
    have hback : cookieKey x < cookieKey e := cookieKey_lt_iff.mpr (.inr ⟨heq, hlt⟩)
    rcases List.mem_cons.mp hx with rfl | hx
    · exact lt_irrefl _ hback
    · exact lt_irrefl _ (hback.trans ((List.pairwise_cons.mp hrest).1 x hx))
  have hnone : rankIn (e :: rest) e = 0 :=
    List.countP_eq_zero.mpr fun x hx hmem => hbehind x hx (of_decide_eq_true hmem)
  have hall : rankIn front e = groupSize front (high e.1) :=
    List.countP_congr fun x hx => by rw [decide_eq_true_iff, decide_eq_true_iff, hahead x hx]
  unfold rankIn at hnone hall ⊢
  rw [List.countP_append, hnone, hall, Nat.add_zero]

/-- What the loop knows: the last high bits, which are the largest so far, and how many entries had
them. -/
def Counted (front : List (UInt64 × Path)) : Option UInt64 → UInt64 → Prop
  | none, _ => front = []
  | some g, rank => (∀ x ∈ front, (high x.1).toNat ≤ g.toNat) ∧ rank.toNat + 1 = groupSize front g

theorem groupSize_append (v w : List (UInt64 × Path)) (g : UInt64) :
    groupSize (v ++ w) g = groupSize v g + groupSize w g :=
  List.countP_append

theorem groupSize_singleton (e : UInt64 × Path) : groupSize [e] (high e.1) = 1 := by
  simp [groupSize]

/-- The number that the loop writes. -/
theorem toNat_numbered {x rank : UInt64} (h : rank.toNat < if high x = 0 then 255 else 256) :
    (high x ||| min (if high x = 0 then rank + 1 else rank) 255).toNat =
      (high x).toNat + if high x = 0 then rank.toNat + 1 else rank.toNat := by
  split at h
  · next hzero =>
    have hadd : (rank + 1).toNat = rank.toNat + 1 := by
      rw [UInt64.toNat_add, UInt64.toNat_one, Nat.mod_eq_of_lt (by omega)]
    rw [if_pos hzero, if_pos hzero, toNat_high_or _ _ (by omega), hadd]
  · next hzero => rw [if_neg hzero, if_neg hzero, toNat_high_or _ _ (by omega)]

theorem high_le_of_ahead {front rest : List (UInt64 × Path)} {e : UInt64 × Path}
    (h : (front ++ e :: rest).Pairwise fun x y => cookieKey x < cookieKey y) :
    ∀ x ∈ front, (high x.1).toNat ≤ (high e.1).toNat := by
  intro x hx
  have hlt := (List.pairwise_append.mp h).2.2 x hx e List.mem_cons_self
  rcases cookieKey_lt_iff.mp hlt with hlt | ⟨heq, -⟩
  · exact hlt.le
  · rw [heq]

/-- The rank that the loop gives the next entry. -/
theorem Counted.next {front rest : List (UInt64 × Path)} {prev : Option UInt64} {rank : UInt64}
    {e : UInt64 × Path} (h : Counted front prev rank)
    (hsorted : (front ++ e :: rest).Pairwise fun x y => cookieKey x < cookieKey y)
    (hsize : groupSize front (high e.1) < 256) :
    (if prev = some (high e.1) then rank + 1 else 0).toNat = groupSize front (high e.1) := by
  cases prev with
  | none =>
    rw [if_neg (by simp), show front = [] from h]
    rfl
  | some g =>
    obtain ⟨hmax, hcount⟩ := h
    by_cases hg : g = high e.1
    · subst hg
      rw [if_pos rfl, UInt64.toNat_add, UInt64.toNat_one, Nat.mod_eq_of_lt (by omega), hcount]
    · rw [if_neg fun heq => hg (Option.some.inj heq)]
      -- an entry in front with the new high bits would bound the last ones from both sides
      refine (List.countP_eq_zero.mpr fun x hx hxg => hg ?_).symm
      obtain ⟨y, hy, hyg⟩ := List.countP_pos_iff.mp (show 0 < groupSize front g by omega)
      have hle := high_le_of_ahead hsorted y hy
      have hge := hmax x hx
      rw [of_decide_eq_true hyg] at hle
      rw [of_decide_eq_true hxg] at hge
      exact UInt64.toNat_inj.mp (le_antisymm hle hge)

theorem Counted.concat {front rest : List (UInt64 × Path)} {rank : UInt64} {e : UInt64 × Path}
    (hsorted : (front ++ e :: rest).Pairwise fun x y => cookieKey x < cookieKey y)
    (hrank : rank.toNat = groupSize front (high e.1)) :
    Counted (front ++ [e]) (some (high e.1)) rank := by
  constructor
  · intro x hx
    rcases List.mem_append.mp hx with hx | hx
    · exact high_le_of_ahead hsorted x hx
    · rw [List.mem_singleton.mp hx]
  · rw [groupSize_append, groupSize_singleton, hrank]

/-- The loop over what is left, after `front`. -/
theorem rankFrom_eq {front rest : List (UInt64 × Path)} {prev : Option UInt64} {rank : UInt64}
    (h : Counted front prev rank)
    (hsorted : (front ++ rest).Pairwise fun x y => cookieKey x < cookieKey y)
    (hfit : GroupsFit (front ++ rest)) :
    (rankFrom prev rank rest).map (fun e => (e.1.toNat, e.2)) =
      rest.map fun e => (cookieOf (front ++ rest) e, e.2) := by
  induction rest generalizing front prev rank with
  | nil => rfl
  | cons e rest ih =>
    have hsize := hfit e (by simp)
    rw [groupSize_append, ← List.singleton_append, groupSize_append, groupSize_singleton] at hsize
    have hnext := h.next hsorted (by split at hsize <;> omega)
    have hcookie := toNat_numbered (x := e.1) (hnext.trans_lt (by omega))
    rw [hnext, ← rankIn_middle hsorted] at hcookie
    have happend : front ++ e :: rest = front ++ [e] ++ rest := by simp
    have hrest := ih (.concat hsorted hnext) (happend ▸ hsorted) (happend ▸ hfit)
    rw [← happend] at hrest
    rw [List.map_cons, ← hrest, cookieOf, ← hcookie]
    rfl

theorem pathKey_injective : Function.Injective pathKey :=
  List.map_injective_iff.mpr nameBytes_injective

/-- Of two entries the later one has the larger cookie: larger high bits leave room for the numbers
of the smaller ones, and among the same high bits it has the larger rank. -/
theorem cookieOf_lt {v : List (UInt64 × Path)} (hfit : GroupsFit v) {x y : UInt64 × Path} (hx : x ∈ v)
    (h : cookieKey x < cookieKey y) : cookieOf v x < cookieOf v y := by
  unfold cookieOf
  rcases cookieKey_lt_iff.mp h with hlt | ⟨heq, hlt⟩
  · have hsize := hfit x hx
    have hrank := rankIn_lt_groupSize hx
    obtain ⟨j, hj⟩ := high_toNat x.1
    obtain ⟨k, hk⟩ := high_toNat y.1
    by_cases hzero : high x.1 = 0
    · rw [if_pos hzero] at hsize ⊢
      split <;> omega
    · rw [if_neg hzero] at hsize ⊢
      split <;> omega
  · have hrank : rankIn v x < rankIn v y := by
      refine countP_lt_countP (fun z _ hz => ?_) hx (by simp [heq, hlt]) (by simp)
      obtain ⟨hzx, hlt'⟩ := of_decide_eq_true hz
      exact decide_eq_true ⟨hzx.trans heq, hlt'.trans hlt⟩
    rw [heq]
    split <;> omega

theorem cookieOf_pos (v : List (UInt64 × Path)) (e : UInt64 × Path) : 0 < cookieOf v e := by
  unfold cookieOf
  split
  · omega
  · next h =>
    have hne : (high e.1).toNat ≠ 0 := fun h0 => h (UInt64.toNat_inj.mp h0)
    omega

section Distinct

variable {v : List (UInt64 × Path)} (hnodup : (v.map Prod.snd).Nodup) (hfit : GroupsFit v)

include hnodup

theorem sorted_ascending :
    (v.insertionSort (KeyLe cookieKey)).Pairwise fun x y => cookieKey x < cookieKey y := by
  have hkeys := hnodup.map pathKey_injective
  refine insertionSort_ascending (List.Nodup.of_map (fun k => (ofLex k).2) ?_)
  rw [List.map_map] at hkeys ⊢
  exact hkeys

include hfit

/-- **The cookies are the high bits of the hashes, numbered from the smallest path on.** -/
theorem assignCookies_eq :
    (assignCookies v).map (fun e => (e.1.toNat, e.2)) =
      (v.insertionSort (KeyLe cookieKey)).map fun e => (cookieOf v e, e.2) := by
  have hperm := List.perm_insertionSort (KeyLe cookieKey) v
  have heq := @rankFrom_eq [] (v.insertionSort (KeyLe cookieKey)) none 0 rfl
    (sorted_ascending hnodup) (hfit.perm hperm.symm)
  simp only [List.nil_append, cookieOf_perm hperm] at heq
  exact heq

theorem mem_assignCookies_fit {e : UInt64 × Path} (he : e ∈ assignCookies v) :
    ∃ x ∈ v, e.1.toNat = cookieOf v x ∧ e.2 = x.2 := by
  have hmem := List.mem_map_of_mem (f := fun e => (e.1.toNat, e.2)) he
  rw [assignCookies_eq hnodup hfit] at hmem
  obtain ⟨x, hx, heq⟩ := List.mem_map.mp hmem
  refine ⟨x, (List.mem_insertionSort _).mp hx, ?_⟩
  exact ⟨(congrArg Prod.fst heq).symm, (congrArg Prod.snd heq).symm⟩

theorem assignCookies_ascending :
    (assignCookies v).Pairwise fun x y => x.1.toNat < y.1.toNat := by
  have hmap : ((assignCookies v).map fun e => (e.1.toNat, e.2)).Pairwise fun x y => x.1 < y.1 := by
    rw [assignCookies_eq hnodup hfit, List.pairwise_map]
    refine (sorted_ascending hnodup).imp_of_mem ?_
    intro x y hx _ hlt
    exact cookieOf_lt hfit ((List.mem_insertionSort _).mp hx) hlt
  rwa [List.pairwise_map] at hmap

end Distinct

end NessieStore.Nfs
