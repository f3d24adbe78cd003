import Mathlib.Data.List.Basic

/-!
# A source that gives as much as it likes

A `Read`er hands out a list in pieces. A call gives at most what it was asked for, perhaps less, and
nothing only at the end; or it fails. What the coming calls will do is part of the state, so a theorem
about every source is a theorem about every way to cut its content up. `coming` may run out before the
content does: the calls behind it give all they were asked for.
-/

set_option autoImplicit false

namespace NessieStore.Lib

/-- What is left to read, and for each of the coming calls how much it would give, or its error. -/
structure Source (α ε : Type) where
  rest : List α
  coming : List (Except ε Nat)

namespace Source

variable {α ε : Type}

/-- One call, for at most `cap` elements. -/
def read (s : Source α ε) (cap : Nat) : Except ε (List α) × Source α ε :=
  match s.coming with
  | [] => (.ok (s.rest.take cap), ⟨s.rest.drop cap, []⟩)
  | .error e :: coming => (.error e, ⟨s.rest, coming⟩)
  | .ok n :: coming =>
    (.ok (s.rest.take (min (max n 1) cap)), ⟨s.rest.drop (min (max n 1) cap), coming⟩)

/-- How long a source can go on: a call that does not end it uses up content or what is coming. -/
def left (s : Source α ε) : Nat := s.rest.length + s.coming.length

/-- None of the coming calls fails. -/
def Smooth (s : Source α ε) : Prop := ∀ r ∈ s.coming, ∃ n, r = .ok n

/-- What a call that does not fail gives: a front of what is left, of at most the length asked for,
and nothing only where nothing is left. -/
structure Gave (s : Source α ε) (cap : Nat) (chunk : List α) (s' : Source α ε) : Prop where
  split : s.rest = chunk ++ s'.rest
  bound : chunk.length ≤ cap
  atEnd : chunk = [] → s.rest = []
  smooth : s.Smooth → s'.Smooth

variable {s s' : Source α ε} {cap : Nat} {chunk : List α}

theorem gave_take {coming coming' : List (Except ε Nat)} (hcoming : coming' ⊆ coming)
    (rest : List α) {k : Nat} (hk : 0 < k) (hcap : k ≤ cap) :
    Gave ⟨rest, coming⟩ cap (rest.take k) (⟨rest.drop k, coming'⟩ : Source α ε) where
  split := (List.take_append_drop k rest).symm
  bound := Nat.le_trans (List.length_take_le k rest) hcap
  atEnd h := (List.take_eq_nil_iff.mp h).resolve_left (Nat.ne_of_gt hk)
  smooth h r hr := h r (hcoming hr)

theorem gave_of_read (hcap : 0 < cap) (h : s.read cap = (.ok chunk, s')) : s.Gave cap chunk s' := by
  obtain ⟨rest, coming⟩ := s
  match coming, h with
  | [], h =>
    cases h
    exact gave_take (List.Subset.refl _) rest hcap (Nat.le_refl _)
  | .ok n :: coming, h =>
    cases h
    exact gave_take (List.subset_cons_self _ _) rest (by omega) (by omega)

/-- A smooth source does not fail. -/
theorem Smooth.read (h : s.Smooth) (cap : Nat) : ∃ chunk s', s.read cap = (.ok chunk, s') := by
  obtain ⟨rest, coming⟩ := s
  match coming, h with
  | [], _ => exact ⟨_, _, rfl⟩
  | .error e :: coming, h =>
    obtain ⟨n, hn⟩ := h _ List.mem_cons_self
    cases hn
  | .ok n :: coming, _ => exact ⟨_, _, rfl⟩

theorem left_of_error {e : ε} (h : s.read cap = (.error e, s')) : s'.left < s.left := by
  obtain ⟨rest, coming⟩ := s
  match coming, h with
  | .error e :: coming, h =>
    cases h
    simp only [left, List.length_cons]
    omega

theorem left_of_ok (h : s.read cap = (.ok chunk, s')) (hchunk : chunk ≠ []) : s'.left < s.left := by
  obtain ⟨rest, coming⟩ := s
  have hpos : ∀ k, rest.take k ≠ [] → (rest.drop k).length < rest.length := by
    intro k hk
    have hk' : ¬ (k = 0 ∨ rest = []) := mt List.take_eq_nil_iff.mpr hk
    have hne := List.length_pos_iff.mpr (not_or.mp hk').2
    rw [List.length_drop]
    omega
  match coming, h with
  | [], h =>
    cases h
    have hlt := hpos _ hchunk
    simp only [left, List.length_nil]
    omega
  | .ok n :: coming, h =>
    cases h
    have hlt := hpos _ hchunk
    simp only [left, List.length_cons]
    omega

/-! ## Skipping -/

/-- `io::copy` of the first `limit` elements into nowhere, by calls for at most `buf`: it ends at the
end of the source or with an error, but tries again after an interruption. -/
def skip (interrupted : ε → Bool) (buf limit : Nat) (s : Source α ε) : Source α ε :=
  if limit = 0 then s
  else
    match _hread : s.read (min buf limit) with
    | (.ok chunk, s') =>
      if _hchunk : chunk = [] then s' else skip interrupted buf (limit - chunk.length) s'
    | (.error e, s') => if interrupted e then skip interrupted buf limit s' else s'
termination_by s.left
decreasing_by
  · exact left_of_ok _hread _hchunk
  · exact left_of_error _hread

/-- A smooth source is skipped to the element behind the limit. -/
theorem skip_smooth (interrupted : ε → Bool) {buf limit : Nat} (hbuf : 0 < buf) (h : s.Smooth) :
    (skip interrupted buf limit s).rest = s.rest.drop limit ∧
      (skip interrupted buf limit s).Smooth := by
  fun_induction skip interrupted buf limit s with
  | case1 s => exact ⟨rfl, h⟩
  | case2 limit s hlimit s' hread =>
    have hgave := gave_of_read (by omega) hread
    have hend := hgave.atEnd rfl
    have hsplit := hgave.split
    rw [List.nil_append] at hsplit
    rw [hend, List.drop_nil, ← hsplit, hend]
    exact ⟨rfl, hgave.smooth h⟩
  | case3 limit s hlimit chunk s' hread hchunk ih =>
    have hgave := gave_of_read (by omega) hread
    have hle : chunk.length ≤ limit := Nat.le_trans hgave.bound (Nat.min_le_right _ _)
    obtain ⟨hrest, hsmooth⟩ := ih (hgave.smooth h)
    refine ⟨?_, hsmooth⟩
    rw [hrest, hgave.split, List.drop_append, List.drop_eq_nil_of_le hle, List.nil_append]
  | case4 limit s hlimit e s' hread hint ih =>
    obtain ⟨chunk, s'', hok⟩ := h.read (min buf limit)
    rw [hread] at hok
    cases hok
  | case5 limit s hlimit e s' hread hint =>
    obtain ⟨chunk, s'', hok⟩ := h.read (min buf limit)
    rw [hread] at hok
    cases hok

end Source

end NessieStore.Lib
