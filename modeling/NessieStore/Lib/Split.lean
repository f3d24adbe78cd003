import Mathlib.Data.List.Basic

/-!
# Splitting at a separator and at a marker

A text that is split at a separator and joined again is the same text (the standard library has both
directions). What is added here is for parsers that look for a marker among the pieces: the pieces on
both sides of a place are themselves the pieces of two texts (`eq_of_splitOn_append`), and a marker's
first place splits a list in one way only (`findIdx?_eq_some_iff_append`, `append_cons_inj`).
-/

set_option autoImplicit false

namespace NessieStore.Lib

variable {α : Type*} [DecidableEq α]

section Join

variable {x : α}

/-- No piece holds the separator. -/
theorem notMem_of_mem_splitOn {s piece : List α} (h : piece ∈ s.splitOn x) : x ∉ piece := by
  induction s generalizing piece with
  | nil =>
    rw [List.splitOn_nil, List.mem_singleton] at h
    exact h ▸ List.not_mem_nil
  | cons a s ih =>
    rw [List.splitOn_cons_eq_if_modifyHead] at h
    split at h
    · rcases List.mem_cons.mp h with rfl | h
      · exact List.not_mem_nil
      · exact ih h
    · next ha =>
      obtain ⟨first, rest, hsplit⟩ := List.exists_cons_of_ne_nil (List.splitOn_ne_nil x s)
      rw [hsplit, List.modifyHead_cons] at h
      rw [hsplit] at ih
      rcases List.mem_cons.mp h with rfl | h
      · have hne : x ≠ a := fun heq => ha (by simp [heq])
        exact List.not_mem_cons_of_ne_of_not_mem hne (ih List.mem_cons_self)
      · exact ih (List.mem_cons_of_mem first h)

omit [DecidableEq α] in
theorem intercalate_append (x : α) {front back : List (List α)} (hfront : front ≠ [])
    (hback : back ≠ []) :
    [x].intercalate (front ++ back) = [x].intercalate front ++ x :: [x].intercalate back := by
  induction front with
  | nil => exact absurd rfl hfront
  | cons p front ih =>
    cases front with
    | nil =>
      obtain ⟨b, back, rfl⟩ := List.exists_cons_of_ne_nil hback
      rw [List.singleton_append, List.intercalate_cons_cons, List.intercalate_singleton,
        List.append_assoc, List.singleton_append]
    | cons q front =>
      rw [List.cons_append, List.cons_append, List.intercalate_cons_cons, List.intercalate_cons_cons,
        ← List.cons_append, ih (List.cons_ne_nil q front), List.append_assoc, List.append_assoc,
        List.append_assoc]

omit [DecidableEq α] in
theorem mem_of_mem_intercalate {x c : α} {pieces : List (List α)} (h : c ∈ [x].intercalate pieces) :
    c = x ∨ ∃ piece ∈ pieces, c ∈ piece := by
  induction pieces with
  | nil => cases h
  | cons p pieces ih =>
    cases pieces with
    | nil =>
      rw [List.intercalate_singleton] at h
      exact .inr ⟨p, List.mem_cons_self, h⟩
    | cons q pieces =>
      rw [List.intercalate_cons_cons, List.mem_append, List.mem_append, List.mem_singleton] at h
      rcases h with (h | h) | h
      · exact .inr ⟨p, List.mem_cons_self, h⟩
      · exact .inl h
      · obtain hx | ⟨piece, hpiece, hc⟩ := ih h
        · exact .inl hx
        · exact .inr ⟨piece, List.mem_cons_of_mem p hpiece, hc⟩

/-- The pieces on both sides of a place are the pieces of two texts with the separator between. -/
theorem eq_of_splitOn_append {s : List α} {front back : List (List α)} (hfront : front ≠ [])
    (hback : back ≠ []) (h : s.splitOn x = front ++ back) :
    s = [x].intercalate front ++ x :: [x].intercalate back ∧
      ([x].intercalate front).splitOn x = front ∧ ([x].intercalate back).splitOn x = back := by
  have hpiece : ∀ piece ∈ front ++ back, x ∉ piece := by
    intro piece hmem
    rw [← h] at hmem
    exact notMem_of_mem_splitOn hmem
  refine ⟨?_, ?_, ?_⟩
  · rw [← intercalate_append x hfront hback, ← h, List.intercalate_splitOn]
  · exact List.splitOn_intercalate x (fun p hp => hpiece p (List.mem_append_left back hp)) hfront
  · exact List.splitOn_intercalate x (fun p hp => hpiece p (List.mem_append_right front hp)) hback

end Join

section Marker

variable {w : α}

/-- The first place of a marker. -/
theorem findIdx?_eq_some_iff_append {l : List α} {i : Nat} :
    l.findIdx? (fun a => decide (a = w)) = some i ↔
      ∃ front back, l = front ++ w :: back ∧ w ∉ front ∧ front.length = i := by
  induction l generalizing i with
  | nil => simp
  | cons a l ih =>
    rw [List.findIdx?_cons]
    by_cases ha : a = w
    · rw [if_pos (decide_eq_true ha)]
      constructor
      · rintro ⟨⟩
        exact ⟨[], l, by rw [ha, List.nil_append], List.not_mem_nil, rfl⟩
      · rintro ⟨front, back, hl, hfront, rfl⟩
        cases front with
        | nil => rfl
        | cons b front =>
          rw [List.cons_append, List.cons.injEq] at hl
          exact absurd List.mem_cons_self (ha ▸ hl.1 ▸ hfront)
    · rw [if_neg (by simpa using ha), Option.map_eq_some_iff]
      constructor
      · rintro ⟨j, hj, rfl⟩
        obtain ⟨front, back, rfl, hfront, rfl⟩ := ih.mp hj
        exact ⟨a :: front, back, rfl, List.not_mem_cons_of_ne_of_not_mem (Ne.symm ha) hfront, rfl⟩
      · rintro ⟨front, back, hl, hfront, rfl⟩
        cases front with
        | nil => exact absurd (List.cons.inj hl).1 ha
        | cons b front =>
          rw [List.cons_append, List.cons.injEq] at hl
          refine ⟨front.length, ih.mpr ⟨front, back, hl.2, ?_, rfl⟩, rfl⟩
          exact fun hmem => hfront (List.mem_cons_of_mem b hmem)

theorem findIdx?_eq_none_iff_notMem {l : List α} :
    l.findIdx? (fun a => decide (a = w)) = none ↔ w ∉ l := by
  rw [List.findIdx?_eq_none_iff]
  simp only [decide_eq_false_iff_not]
  exact ⟨fun h hw => h w hw rfl, fun h a ha heq => h (heq ▸ ha)⟩

/-- A marker's first place splits a list in one way. -/
theorem append_cons_inj {front front' back back' : List α} (hfront : w ∉ front)
    (hfront' : w ∉ front') (h : front ++ w :: back = front' ++ w :: back') :
    front = front' ∧ back = back' := by
  have hplace : (front ++ w :: back).findIdx? (fun a => decide (a = w)) = some front.length :=
    findIdx?_eq_some_iff_append.mpr ⟨front, back, rfl, hfront, rfl⟩
  have hplace' : (front' ++ w :: back').findIdx? (fun a => decide (a = w)) = some front'.length :=
    findIdx?_eq_some_iff_append.mpr ⟨front', back', rfl, hfront', rfl⟩
  rw [h, hplace', Option.some.injEq] at hplace
  obtain ⟨rfl, hback⟩ := List.append_inj h hplace.symm
  exact ⟨rfl, (List.cons.inj hback).2⟩

end Marker

end NessieStore.Lib
