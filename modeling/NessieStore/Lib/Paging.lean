import Mathlib.Data.List.Forall2
import Mathlib.Data.List.Nodup
import Mathlib.Order.Lattice
import NessieStore.Lib.Run

/-!
# Paging through what may change

A client asks for what lies behind a token, so many elements at a time, and sends the key of the
last one as its next token. Between two requests the inventory may become another one. Whatever it
does, the keys of the pages ascend, each page is of its own inventory, and a key that was in every
inventory is listed by the time the client has been told that this is the end (`Paged`). In an
inventory that stays the same the end comes after at most as many pages as there are elements
(`ends`).

Elements are identified by their keys: one that changes its key between two requests is another one.
-/

set_option autoImplicit false

namespace NessieStore.Lib

variable {α β : Type*} [LinearOrder β]

/-- A key lies behind a token; none is the beginning. -/
def Beyond (token : Option β) (c : β) : Prop := ∀ t ∈ token, t < c

instance (token : Option β) (c : β) : Decidable (Beyond token c) :=
  match token with
  | none => .isTrue (by simp [Beyond])
  | some t => decidable_of_iff (t < c) (by simp [Beyond])

/-- A client on its way: the token that it sends next, the pages so far, and whether that was all. -/
structure Pager (α β : Type*) where
  token : Option β
  pages : List (List α)
  done : Bool

namespace Pager

variable (key : α → β)

/-- What lies behind a token. -/
def ahead (token : Option β) (l : List α) : List α := l.filter fun x => Beyond token (key x)

/-- The token behind a page: the key of its last element. -/
def nextToken (token : Option β) (page : List α) : Option β := (page.getLast?.map key).or token

/-- A request for at most `req.2` elements of the inventory `req.1`. -/
def step (p : Pager α β) (req : List α × Nat) : Option (Pager α β) :=
  if p.done then none
  else
    let rest := ahead key p.token req.1
    let page := rest.take req.2
    some ⟨nextToken key p.token page, p.pages ++ [page], rest.length ≤ req.2⟩

/-- Inventories come in the order of their keys, and at least one element is asked for. -/
def Proper (req : List α × Nat) : Prop :=
  (req.1.Pairwise fun x y => key x < key y) ∧ 0 < req.2

variable {key} {token : Option β} {l : List α} {k : Nat}

theorem ahead_ascending (token : Option β) (h : l.Pairwise fun x y => key x < key y) :
    (ahead key token l).Pairwise fun x y => key x < key y := h.filter _

omit [LinearOrder β] in
theorem nextToken_concat (front : List α) (x : α) :
    nextToken key token (front.concat x) = some (key x) := by
  rw [nextToken, List.concat_eq_append, List.getLast?_concat]
  rfl

theorem mem_ahead {x : α} : x ∈ ahead key token l ↔ x ∈ l ∧ Beyond token (key x) := by
  rw [ahead, List.mem_filter, decide_eq_true_iff]

/-- Where the next page begins: behind this one. -/
theorem ahead_next (token : Option β) (h : l.Pairwise fun x y => key x < key y) (hk : 0 < k) :
    ahead key (nextToken key token ((ahead key token l).take k)) l = (ahead key token l).drop k := by
  rcases List.eq_nil_or_concat ((ahead key token l).take k) with hpage | ⟨front, x, hpage⟩
  · have hnone : ahead key token l = [] :=
      (List.take_eq_nil_iff.mp hpage).resolve_left (Nat.ne_of_gt hk)
    rw [hpage, hnone, List.drop_nil]
    exact hnone
  · have hsplit : (front ++ [x]) ++ (ahead key token l).drop k = ahead key token l := by
      rw [← List.concat_eq_append, ← hpage, List.take_append_drop]
    have hascending : ((front ++ [x]) ++ (ahead key token l).drop k).Pairwise
        fun a b => key a < key b := by
      rw [hsplit]
      exact ahead_ascending token h
    obtain ⟨hfront, -, hcross⟩ := List.pairwise_append.mp hascending
    have hx : Beyond token (key x) := by
      have hmem : x ∈ ahead key token l := by
        rw [← hsplit]
        simp
      exact (mem_ahead.mp hmem).2
    have htoken : nextToken key token ((ahead key token l).take k) = some (key x) := by
      rw [hpage, nextToken_concat]
    -- what lies behind the last element lies behind the old token
    have hnested : ahead key (some (key x)) l =
        (ahead key token l).filter fun y => Beyond (some (key x)) (key y) := by
      rw [ahead, ahead, List.filter_filter]
      refine List.filter_congr fun y _ => ?_
      rw [← Bool.decide_and, decide_eq_decide]
      refine ⟨fun hy => ⟨hy, fun t ht => (hx t ht).trans (hy _ rfl)⟩, And.left⟩
    rw [htoken, hnested]
    conv_lhs => rw [← hsplit]
    rw [List.filter_append, List.filter_eq_nil_iff.mpr, List.filter_eq_self.mpr, List.nil_append]
    · intro y hy
      refine decide_eq_true fun t ht => ?_
      cases ht
      exact hcross x (by simp) y hy
    · intro y hy hbeyond
      have hlt : key x < key y := of_decide_eq_true hbeyond _ rfl
      rcases List.mem_append.mp hy with hy | hy
      · have hlt' := (List.pairwise_append.mp hfront).2.2 y hy x (List.mem_singleton_self x)
        exact absurd hlt (not_lt.mpr hlt'.le)
      · rw [List.mem_singleton.mp hy] at hlt
        exact lt_irrefl _ hlt

theorem done_of_step {p p' : Pager α β} {req : List α × Nat} (h : p.step key req = some p') :
    p.done = false := by
  unfold Pager.step at h
  split at h
  · cases h
  · next hdone => exact Bool.eq_false_iff.mpr hdone

/-! ## What the pages hold -/

variable (key) in
/-- A client that began behind `start` and has made these requests. -/
structure Paged (start : Option β) (reqs : List (List α × Nat)) (p : Pager α β) : Prop where
  /-- Each page is of its own inventory. -/
  within : List.Forall₂ (fun page req => ∀ x ∈ page, x ∈ req.1 ∧ Beyond start (key x)) p.pages reqs
  ascending : p.pages.flatten.Pairwise fun x y => key x < key y
  /-- The token has passed what is listed. -/
  passed : ∀ x ∈ p.pages.flatten, ∃ t ∈ p.token, key x ≤ t
  later : ∀ c, Beyond p.token c → Beyond start c
  /-- A key that was always there is listed, or still lies ahead. -/
  covered : ∀ c, Beyond start c → (∀ req ∈ reqs, ∃ x ∈ req.1, key x = c) →
    (∃ x ∈ p.pages.flatten, key x = c) ∨ p.done = false ∧ Beyond p.token c

variable {start : Option β}

theorem Paged.init : Paged key start [] ⟨start, [], false⟩ where
  within := .nil
  ascending := List.Pairwise.nil
  passed := by simp
  later _ h := h
  covered _ h _ := .inr ⟨rfl, h⟩

section Token

variable {page : List α}

/-- The token behind a page that lies behind the old token has passed that one. -/
theorem exists_nextToken_le (h : ∀ x ∈ page, Beyond token (key x)) {t : β} (ht : t ∈ token) :
    ∃ t' ∈ nextToken key token page, t ≤ t' := by
  rcases List.eq_nil_or_concat page with rfl | ⟨front, x, rfl⟩
  · exact ⟨t, ht, le_rfl⟩
  · exact ⟨key x, nextToken_concat front x, (h x (by simp) t ht).le⟩

theorem beyond_of_nextToken (h : ∀ x ∈ page, Beyond token (key x)) {c : β}
    (hc : Beyond (nextToken key token page) c) : Beyond token c := by
  intro t ht
  obtain ⟨t', ht', hle⟩ := exists_nextToken_le h ht
  exact lt_of_le_of_lt hle (hc t' ht')

/-- It has passed the page. -/
theorem le_nextToken (h : page.Pairwise fun x y => key x < key y) {x : α} (hx : x ∈ page) :
    ∃ t ∈ nextToken key token page, key x ≤ t := by
  rcases List.eq_nil_or_concat page with rfl | ⟨front, z, rfl⟩
  · cases hx
  · refine ⟨key z, nextToken_concat front z, ?_⟩
    rw [List.concat_eq_append] at h hx
    rcases List.mem_append.mp hx with hx | hx
    · exact ((List.pairwise_append.mp h).2.2 x hx z (List.mem_singleton_self z)).le
    · exact (congrArg key (List.mem_singleton.mp hx)).le

end Token

/-- The step lemma. -/
theorem Paged.step {reqs : List (List α × Nat)} {p p' : Pager α β} {req : List α × Nat}
    (h : Paged key start reqs p) (hreq : Proper key req) (hstep : p.step key req = some p') :
    Paged key start (reqs ++ [req]) p' := by
  obtain ⟨hsorted, hk⟩ := hreq
  unfold Pager.step at hstep
  split at hstep
  · cases hstep
  cases hstep
  have hascending := ahead_ascending p.token hsorted
  have hnext := ahead_next p.token hsorted hk
  have hmem : ∀ x, x ∈ ahead key p.token req.1 ↔ x ∈ req.1 ∧ Beyond p.token (key x) :=
    fun x => mem_ahead
  generalize ahead key p.token req.1 = rest at hascending hnext hmem ⊢
  have hpage : ∀ x ∈ rest.take req.2, x ∈ req.1 ∧ Beyond p.token (key x) :=
    fun x hx => (hmem x).mp (List.mem_of_mem_take hx)
  have hbeyond : ∀ x ∈ rest.take req.2, Beyond p.token (key x) := fun x hx => (hpage x hx).2
  have htake := hascending.sublist (List.take_sublist req.2 rest)
  have hflat : (p.pages ++ [rest.take req.2]).flatten = p.pages.flatten ++ rest.take req.2 := by
    rw [List.flatten_append, List.flatten_singleton]
  constructor
  · refine List.rel_append h.within (.cons (fun x hx => ?_) .nil)
    exact ⟨(hpage x hx).1, h.later _ (hbeyond x hx)⟩
  · rw [hflat, List.pairwise_append]
    refine ⟨h.ascending, htake, fun x hx y hy => ?_⟩
    obtain ⟨t, ht, hle⟩ := h.passed x hx
    exact lt_of_le_of_lt hle (hbeyond y hy t ht)
  · intro x hx
    rw [hflat] at hx
    rcases List.mem_append.mp hx with hx | hx
    · obtain ⟨t, ht, hle⟩ := h.passed x hx
      obtain ⟨t', ht', hle'⟩ := exists_nextToken_le hbeyond ht
      exact ⟨t', ht', hle.trans hle'⟩
    · exact le_nextToken htake hx
  · exact fun c hc => h.later c (beyond_of_nextToken hbeyond hc)
  · intro c hstart hall
    rw [hflat]
    obtain ⟨hreqs, hreq⟩ := List.forall_mem_append.mp hall
    rcases h.covered c hstart hreqs with ⟨x, hx, rfl⟩ | ⟨-, hahead⟩
    · exact .inl ⟨x, List.mem_append_left _ hx, rfl⟩
    · obtain ⟨x, hx, rfl⟩ := hreq req (List.mem_singleton_self req)
      have hrest : x ∈ rest := (hmem x).mpr ⟨hx, hahead⟩
      rw [← List.take_append_drop req.2 rest] at hrest
      rcases List.mem_append.mp hrest with hx | hx
      · exact .inl ⟨x, List.mem_append_right _ hx, rfl⟩
      · have hmore : ¬ rest.length ≤ req.2 := by
          have hpos := List.length_pos_of_mem hx
          rw [List.length_drop] at hpos
          omega
        rw [← hnext] at hx
        exact .inr ⟨decide_eq_false hmore, (mem_ahead.mp hx).2⟩

/-- The run lemma. -/
theorem paged_of_run {reqs : List (List α × Nat)} {p : Pager α β}
    (h : Run (Pager.step key) (fun _ req => Proper key req) ⟨start, [], false⟩ reqs p) :
    Paged key start reqs p :=
  h.keeps_along (fun hreq hp hstep => hp.step hreq hstep) .init

theorem Paged.nodup {reqs : List (List α × Nat)} {p : Pager α β} (h : Paged key start reqs p) :
    (p.pages.flatten.map key).Nodup :=
  List.pairwise_map.mpr (h.ascending.imp fun hlt => ne_of_lt hlt)

/-- What is listed was there. -/
theorem Paged.mem {reqs : List (List α × Nat)} {p : Pager α β} (h : Paged key start reqs p) {x : α}
    (hx : x ∈ p.pages.flatten) : ∃ req ∈ reqs, x ∈ req.1 := by
  obtain ⟨page, hpage, hx⟩ := List.mem_flatten.mp hx
  have hwithin := h.within
  generalize p.pages = pages at hpage hwithin
  clear h
  induction hwithin with
  | nil => cases hpage
  | @cons page' req _ _ hfirst _ ih =>
    rcases List.mem_cons.mp hpage with rfl | hpage
    · exact ⟨req, List.mem_cons_self, (hfirst x hx).1⟩
    · obtain ⟨req', hreq', hx'⟩ := ih hpage
      exact ⟨req', List.mem_cons_of_mem _ hreq', hx'⟩

/-- At the end, a key that was always there is listed. -/
theorem Paged.listed {reqs : List (List α × Nat)} {p : Pager α β} (h : Paged key start reqs p)
    (hdone : p.done = true) {c : β} (hc : Beyond start c)
    (hall : ∀ req ∈ reqs, ∃ x ∈ req.1, key x = c) : ∃ x ∈ p.pages.flatten, key x = c := by
  rcases h.covered c hc hall with hlisted | ⟨hmore, -⟩
  · exact hlisted
  · rw [hdone] at hmore
    cases hmore

/-! ## That the end comes -/

/-- In an inventory that stays as it is, by induction on what lies ahead: each page but the last
leaves less of it, and at least something. -/
theorem ends (hl : l.Pairwise fun x y => key x < key y) {n : Nat} {limits : Nat → Nat}
    (hlimits : ∀ i, 0 < limits i) {p : Pager α β} (hmore : p.done = false)
    (hn : (ahead key p.token l).length ≤ n) :
    ∃ m p', 0 < m ∧ m ≤ max 1 n ∧ p'.done = true ∧
      Run (Pager.step key) (fun _ req => Proper key req) p
        ((List.range m).map fun i => (l, limits i)) p' := by
  induction n using Nat.strong_induction_on generalizing p limits with
  | _ n ih =>
  have hreq : Proper key (l, limits 0) := ⟨hl, hlimits 0⟩
  have hstep : p.step key (l, limits 0) = some
      ⟨nextToken key p.token ((ahead key p.token l).take (limits 0)),
        p.pages ++ [(ahead key p.token l).take (limits 0)],
        decide ((ahead key p.token l).length ≤ limits 0)⟩ := by
    rw [Pager.step, hmore]
    rfl
  by_cases hlast : (ahead key p.token l).length ≤ limits 0
  · exact ⟨1, _, Nat.one_pos, Nat.le_max_left 1 n, decide_eq_true hlast, .cons hreq hstep (.nil _)⟩
  · have hpos := hlimits 0
    have hleft : (ahead key (nextToken key p.token ((ahead key p.token l).take (limits 0))) l).length
        ≤ n - limits 0 := by
      rw [ahead_next p.token hl hpos, List.length_drop]
      omega
    obtain ⟨m, p', hm, hle, hdone, hrun⟩ := ih (n - limits 0) (by omega)
      (fun i => hlimits (i + 1)) (p := ⟨_, _, _⟩) (decide_eq_false hlast) hleft
    refine ⟨m + 1, p', Nat.succ_pos m, by omega, hdone, ?_⟩
    rw [List.range_succ_eq_map, List.map_cons, List.map_map]
    exact .cons hreq hstep hrun

end Pager

end NessieStore.Lib
