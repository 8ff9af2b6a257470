import Mathlib.Data.List.Nodup
import Mathlib.Logic.Function.Basic

/-!
# Doubly linked rings

A doubly linked list with a head pointer is a ring through one more node, the
header: `next header` is the first node and `prev header` the last. Linking in
and unlinking are then plain updates of the two maps, with no case for an end of
the list.
-/

set_option autoImplicit false

namespace LinkRing

universe u

variable {Node : Type u}

/-- Neighbours in the list are linked both ways. -/
def Links (next prev : Node → Node) : List Node → Prop
  | a :: b :: rest => next a = b ∧ prev b = a ∧ Links next prev (b :: rest)
  | _ => True

section Lists
variable {next prev next' prev' : Node → Node}

theorem links_append (as bs : List Node) (x : Node) :
    Links next prev (as ++ x :: bs) ↔
      Links next prev (as ++ [x]) ∧ Links next prev (x :: bs) := by
  induction as with
  | nil => simp [Links]
  | cons a as ih =>
    cases as with
    | nil => simp [Links, and_assoc]
    | cons b as =>
      simp only [List.cons_append, Links] at ih ⊢
      rw [ih]
      tauto

theorem Links.transport {l : List Node} (h : Links next prev l)
    (hn : ∀ a ∈ l.dropLast, next' a = next a) (hp : ∀ a ∈ l.tail, prev' a = prev a) :
    Links next' prev' l := by
  induction l with
  | nil => trivial
  | cons a l ih =>
    cases l with
    | nil => trivial
    | cons b rest =>
      obtain ⟨h1, h2, h3⟩ := h
      refine ⟨?_, ?_, ih h3 ?_ ?_⟩
      · rw [hn a (by simp), h1]
      · rw [hp b (by simp), h2]
      · intro c hc
        exact hn c (by simp [hc])
      · intro c hc
        exact hp c (by simpa using Or.inr hc)

theorem Links.reverse {l : List Node} (h : Links next prev l) : Links prev next l.reverse := by
  induction l with
  | nil => trivial
  | cons a l ih =>
    cases l with
    | nil => trivial
    | cons b rest =>
      obtain ⟨h1, h2, h3⟩ := h
      have tail := ih h3
      rw [List.reverse_cons] at tail ⊢
      rw [List.reverse_cons, List.append_assoc, List.singleton_append, links_append]
      exact ⟨tail, h2, h1, trivial⟩

theorem exists_first (l : List Node) (a : Node) : ∃ n r, l ++ [a] = n :: r := by
  cases l with
  | nil => exact ⟨a, [], rfl⟩
  | cons n r => exact ⟨n, r ++ [a], rfl⟩

theorem exists_last (a : Node) (l : List Node) : ∃ r p, a :: l = r ++ [p] := by
  rcases List.eq_nil_or_concat' (a :: l) with hnil | hlast
  · cases hnil
  · exact hlast

/-- A ring has no node twice wherever it is cut open. -/
theorem nodup_closing {a : Node} {l : List Node} (h : (a :: l).Nodup) : (l ++ [a]).Nodup :=
  (List.perm_append_singleton a l).nodup_iff.mpr h

end Lists

/-- The ring through `header` and the members, each met once. -/
structure Ring (next prev : Node → Node) (header : Node) (members : List Node) : Prop where
  nodup : (header :: members).Nodup
  links : Links next prev (header :: members ++ [header])

namespace Ring
variable {next prev next' prev' : Node → Node} {header : Node} {members : List Node}

theorem congr (h : Ring next prev header members)
    (hn : ∀ a ∈ header :: members, next' a = next a)
    (hp : ∀ a ∈ header :: members, prev' a = prev a) : Ring next' prev' header members := by
  refine ⟨h.nodup, h.links.transport ?_ ?_⟩
  · intro a ha
    rw [List.dropLast_concat] at ha
    exact hn a ha
  · intro a ha
    apply hp a
    simp only [List.cons_append, List.tail_cons, List.mem_append, List.mem_singleton] at ha
    simp only [List.mem_cons]
    tauto

theorem empty (hn : next header = header) (hp : prev header = header) :
    Ring next prev header [] :=
  ⟨by simp, hn, hp, trivial⟩

/-- The ring cut open at one of its nodes. -/
theorem around (h : Ring next prev header members) {x : Node} (hx : x ∈ header :: members) :
    next (prev x) = x ∧ prev (next x) = x ∧ next x ∈ header :: members ∧
      prev x ∈ header :: members := by
  obtain ⟨as, bs, hsplit⟩ := List.append_of_mem hx
  have hl := h.links
  rw [hsplit, List.append_assoc, List.cons_append] at hl
  have after : ∃ n r, bs ++ [header] = n :: r ∧ n ∈ header :: members := by
    cases bs with
    | nil => exact ⟨header, [], rfl, List.mem_cons_self⟩
    | cons n r => exact ⟨n, r ++ [header], rfl, by rw [hsplit]; simp⟩
  obtain ⟨n, r, hbs, hn⟩ := after
  rw [hbs] at hl
  have right := ((links_append as (n :: r) x).mp hl).2
  rcases List.eq_nil_or_concat as with rfl | ⟨l, p, rfl⟩
  · simp only [List.nil_append, List.cons.injEq] at hsplit
    obtain ⟨rfl, rfl⟩ := hsplit
    -- the header: its predecessor is the last node before the list closes
    rcases List.eq_nil_or_concat members with rfl | ⟨l, p, rfl⟩
    · have closed := h.links
      simp only [List.cons_append, List.nil_append] at closed
      obtain ⟨h1, h2, _⟩ := closed
      simp [h1, h2]
    · have closed := h.links
      have shape : header :: l.concat p ++ [header] = (header :: l) ++ p :: [header] := by simp
      rw [shape] at closed
      obtain ⟨hlast, hlast', _⟩ := ((links_append _ _ p).mp closed).2
      refine ⟨by rw [hlast', hlast], by rw [right.1, right.2.1], right.1 ▸ hn, ?_⟩
      rw [hlast']
      simp
  · have left := ((links_append (l.concat p) (n :: r) x).mp hl).1
    have shape : l.concat p ++ [x] = l ++ p :: [x] := by simp
    rw [shape] at left
    obtain ⟨hp, hp', _⟩ := ((links_append l [x] p).mp left).2
    refine ⟨by rw [hp', hp], by rw [right.1, right.2.1], right.1 ▸ hn, ?_⟩
    rw [hp', hsplit]
    simp

theorem reverse (h : Ring next prev header members) :
    Ring prev next header members.reverse := by
  refine ⟨?_, ?_⟩
  · have hnd := List.nodup_cons.mp h.nodup
    exact List.nodup_cons.mpr ⟨by simpa using hnd.1, List.nodup_reverse.mpr hnd.2⟩
  · have shape : (header :: members ++ [header]).reverse =
        header :: members.reverse ++ [header] := by simp
    exact shape ▸ h.links.reverse

section Update
variable [DecidableEq Node]

theorem pushFront (h : Ring next prev header members) {x : Node} (hx : x ∉ header :: members) :
    Ring (Function.update (Function.update next x (next header)) header x)
      (Function.update (Function.update prev x header) (next header) x)
      header (x :: members) := by
  have hne : x ≠ header := fun e => hx (e ▸ List.mem_cons_self)
  have hfirst := (h.around List.mem_cons_self).2.2.1
  have hnx : next header ≠ x := fun e => hx (e ▸ hfirst)
  have hnd := List.nodup_cons.mp h.nodup
  have hxm : x ∉ members := fun hm => hx (List.mem_cons_of_mem header hm)
  obtain ⟨n, r, hnr⟩ := exists_first members header
  have hl := h.links
  rw [List.cons_append, hnr] at hl
  obtain ⟨hn, _, right⟩ := hl
  rw [hn] at hnx ⊢
  refine ⟨?_, ?_⟩
  · refine List.nodup_cons.mpr ⟨?_, List.nodup_cons.mpr ⟨hxm, hnd.2⟩⟩
    simp only [List.mem_cons, not_or]
    exact ⟨fun e => hne e.symm, hnd.1⟩
  rw [List.cons_append, List.cons_append, hnr]
  refine ⟨Function.update_self .., ?_, ?_, Function.update_self .., right.transport ?_ ?_⟩
  · rw [Function.update_of_ne (Ne.symm hnx), Function.update_self]
  · rw [Function.update_of_ne hne, Function.update_self]
  · intro a ha
    have ham : a ∈ members := by
      rw [← hnr, List.dropLast_concat] at ha
      exact ha
    rw [Function.update_of_ne, Function.update_of_ne]
    · rintro rfl
      exact hxm ham
    · rintro rfl
      exact hnd.1 ham
  · intro a ha
    rw [List.tail_cons] at ha
    have hmem : a ∈ header :: members := by
      have : a ∈ members ++ [header] := hnr ▸ List.mem_cons_of_mem n ha
      simpa [or_comm] using this
    rw [Function.update_of_ne, Function.update_of_ne]
    · rintro rfl
      exact hx hmem
    · rintro rfl
      -- the first node does not occur again before the ring closes
      have closing := nodup_closing h.nodup
      rw [hnr] at closing
      exact (List.nodup_cons.mp closing).1 ha

theorem pushBack (h : Ring next prev header members) {x : Node} (hx : x ∉ header :: members) :
    Ring (Function.update (Function.update next x header) (prev header) x)
      (Function.update (Function.update prev x (prev header)) header x)
      header (members ++ [x]) := by
  have flipped := h.reverse.pushFront (x := x) (by simpa using hx)
  simpa using flipped.reverse

/-- Unlinking bridges the two neighbours of the node. -/
theorem unlink {as bs : List Node} {x : Node} (h : Ring next prev header (as ++ x :: bs)) :
    Ring (Function.update next (prev x) (next x)) (Function.update prev (next x) (prev x))
      header (as ++ bs) := by
  have hnd := h.nodup
  have hl := h.links
  obtain ⟨l, p, hlp⟩ := exists_last header as
  obtain ⟨n, r, hnr⟩ := exists_first bs header
  have shape : header :: (as ++ x :: bs) ++ [header] = l ++ p :: x :: n :: r := by
    have : header :: (as ++ x :: bs) ++ [header] = (header :: as) ++ x :: (bs ++ [header]) := by
      simp
    rw [this, hlp, hnr, List.append_assoc]
    rfl
  have goalShape : header :: (as ++ bs) ++ [header] = l ++ p :: n :: r := by
    have : header :: (as ++ bs) ++ [header] = (header :: as) ++ (bs ++ [header]) := by simp
    rw [this, hlp, hnr, List.append_assoc]
    rfl
  rw [shape, links_append] at hl
  obtain ⟨left, hpx, hxp, hxn, hnx, right⟩ := hl
  have rest : (header :: (as ++ bs)).Nodup := hnd.sublist (by simp)
  rw [← List.cons_append] at rest
  obtain ⟨before, behind, apart⟩ := List.nodup_append.mp rest
  have hheader : header ∉ as := (List.nodup_cons.mp before).1
  have hclosing : (bs ++ [header]).Nodup := by
    apply nodup_closing
    exact List.nodup_cons.mpr ⟨fun hb => apart header List.mem_cons_self header hb rfl, behind⟩
  have hp : p ∈ header :: as := by
    rw [hlp]
    simp
  have hn : n ∈ bs ++ [header] := by
    rw [hnr]
    exact List.mem_cons_self
  rw [hlp] at before
  rw [hnr] at hclosing
  refine ⟨rest, ?_⟩
  rw [goalShape, links_append, hxp, hxn]
  refine ⟨left.transport ?_ ?_, Function.update_self .., Function.update_self ..,
    right.transport ?_ ?_⟩
  · intro a ha
    rw [List.dropLast_concat] at ha
    exact Function.update_of_ne
      ((List.nodup_append.mp before).2.2 a ha p (List.mem_singleton_self p)) _ _
  · intro a ha
    have ha' : a ∈ as := by
      rw [← hlp] at ha
      simpa using ha
    refine Function.update_of_ne ?_ _ _
    rintro rfl
    rcases List.mem_append.mp hn with hb | hb
    · exact apart a (List.mem_cons_of_mem header ha') a hb rfl
    · exact hheader (List.mem_singleton.mp hb ▸ ha')
  · intro a ha
    have hab : a ∈ bs := by
      rw [← hnr, List.dropLast_concat] at ha
      exact ha
    exact Function.update_of_ne (fun e => apart p hp a hab e.symm) _ _
  · intro a ha
    rw [List.tail_cons] at ha
    refine Function.update_of_ne ?_ _ _
    rintro rfl
    exact (List.nodup_cons.mp hclosing).1 ha

end Update

end Ring

/-- The nodes met from `start` until the header comes round, at most `fuel` of them. -/
def walk [DecidableEq Node] (next : Node → Node) (header : Node) : Nat → Node → List Node
  | 0, _ => []
  | fuel + 1, start =>
    if start = header then [] else start :: walk next header fuel (next start)

theorem walk_links [DecidableEq Node] {next prev : Node → Node} {header : Node}
    (members : List Node) {fuel : Nat} (before : Node) (hm : header ∉ members)
    (hf : members.length ≤ fuel) (h : Links next prev (before :: members ++ [header])) :
    walk next header fuel (next before) = members := by
  induction members generalizing before fuel with
  | nil =>
    cases fuel with
    | zero => rfl
    | succ fuel => simp [walk, h.1]
  | cons a rest ih =>
    obtain ⟨fuel, rfl⟩ : ∃ k, fuel = k + 1 := ⟨fuel - 1, by simp at hf; omega⟩
    obtain ⟨h1, _, h3⟩ := h
    have hne : a ≠ header := fun e => hm (e ▸ List.mem_cons_self)
    rw [h1, walk, if_neg hne]
    congr 1
    exact ih a (fun hr => hm (List.mem_cons_of_mem a hr)) (by simp at hf; omega) h3

/-- A walk around the ring meets the members in order, however much fuel is left. -/
theorem Ring.walk_eq [DecidableEq Node] {next prev : Node → Node} {header : Node}
    {members : List Node} (h : Ring next prev header members) {fuel : Nat}
    (hf : members.length ≤ fuel) : walk next header fuel (next header) = members :=
  walk_links members header (List.nodup_cons.mp h.nodup).1 hf h.links

end LinkRing
