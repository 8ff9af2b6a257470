import Mathlib.Data.List.Basic
import Mathlib.Data.List.Pairwise

/-!
# The instance list of an LWM2M object

A singly linked list of nodes with an id, kept in ascending order. `key` reads the id of
a node; a node that is changed through the pointer that `lwm2m_list_find` returns is
replaced where that function finds it.
-/

set_option autoImplicit false

namespace JsEmbeddedPlatform.Lwm2mList

section Operations
variable {Node : Type} (key : Node → Nat)

/-- The loop of `lwm2m_list_add` over the nodes behind `target`. -/
def insertAfter (node : Node) : List Node → List Node
  | [] => [node]
  | next :: rest =>
    if key next < key node then next :: insertAfter node rest else node :: next :: rest

def lwm2mListAdd (node : Node) : List Node → List Node
  | [] => [node]
  | head :: rest =>
    if key node < key head then node :: head :: rest else head :: insertAfter key node rest

def lwm2mListFind (id : Nat) : List Node → Option Node
  | [] => none
  | head :: rest =>
    if key head < id then lwm2mListFind id rest
    else if key head = id then some head
    else none

/-- The loop of `lwm2m_list_remove` over the nodes behind `target`. -/
def removeAfter (id : Nat) : List Node → List Node × Option Node
  | [] => ([], none)
  | next :: rest =>
    if key next < id then (next :: (removeAfter id rest).1, (removeAfter id rest).2)
    else if key next = id then (rest, some next)
    else (next :: rest, none)

def lwm2mListRemove (id : Nat) : List Node → List Node × Option Node
  | [] => ([], none)
  | head :: rest =>
    if key head = id then (rest, some head)
    else (head :: (removeAfter key id rest).1, (removeAfter key id rest).2)

def newIdFrom (id : Nat) : List Node → Nat
  | [] => id
  | target :: rest => if id = key target then newIdFrom ((key target + 1) % 65536) rest else id

def lwm2mListNewId (list : List Node) : Nat := newIdFrom key 0 list

def replaceFound (id : Nat) (new : Node) : List Node → List Node
  | [] => []
  | head :: rest =>
    if key head < id then head :: replaceFound id new rest
    else if key head = id then new :: rest
    else head :: rest

def Sorted (list : List Node) : Prop := list.Pairwise fun a b => key a < key b

end Operations

section Facts
variable {Node : Type} {key : Node → Nat}

theorem sorted_nil : Sorted key [] := List.Pairwise.nil

theorem sorted_cons_iff {head : Node} {rest : List Node} :
    Sorted key (head :: rest) ↔ (∀ n ∈ rest, key head < key n) ∧ Sorted key rest :=
  List.pairwise_cons

/-- The walk ends without a node when none has the id. -/
theorem find_eq_none {id : Nat} {list : List Node} (h : ∀ n ∈ list, key n ≠ id) :
    lwm2mListFind key id list = none := by
  induction list with
  | nil => rfl
  | cons head rest ih =>
    rw [lwm2mListFind]
    split
    · exact ih fun n hn => h n (List.mem_cons_of_mem _ hn)
    · rw [if_neg (h head List.mem_cons_self)]

theorem find_eq_some {id : Nat} {list : List Node} {n : Node}
    (h : lwm2mListFind key id list = some n) : n ∈ list ∧ key n = id := by
  induction list with
  | nil => cases h
  | cons head rest ih =>
    rw [lwm2mListFind] at h
    split at h
    · obtain ⟨hmem, hid⟩ := ih h
      exact ⟨List.mem_cons_of_mem _ hmem, hid⟩
    · split at h
      · rename_i heq
        cases h
        exact ⟨List.mem_cons_self, heq⟩
      · cases h

theorem find_of_mem {list : List Node} (hs : Sorted key list) {n : Node} (hn : n ∈ list) :
    lwm2mListFind key (key n) list = some n := by
  induction list with
  | nil => cases hn
  | cons head rest ih =>
    obtain ⟨hlt, hrest⟩ := sorted_cons_iff.mp hs
    rw [lwm2mListFind]
    rcases List.mem_cons.mp hn with rfl | hn
    · rw [if_neg (Nat.lt_irrefl _), if_pos rfl]
    · rw [if_pos (hlt n hn)]
      exact ih hrest hn

/-! ## Adding -/

theorem mem_insertAfter {node n : Node} {list : List Node} :
    n ∈ insertAfter key node list ↔ n = node ∨ n ∈ list := by
  induction list with
  | nil => simp [insertAfter]
  | cons next rest ih =>
    rw [insertAfter]
    split
    · rw [List.mem_cons, ih, List.mem_cons]
      tauto
    · rw [List.mem_cons]

theorem find_insertAfter (node : Node) (list : List Node) (id : Nat) :
    lwm2mListFind key id (insertAfter key node list) =
      if id = key node then some node else lwm2mListFind key id list := by
  induction list with
  | nil =>
    simp only [insertAfter, lwm2mListFind]
    grind
  | cons next rest ih =>
    rw [insertAfter]
    split
    · rw [lwm2mListFind, ih, lwm2mListFind]
      grind
    · rw [lwm2mListFind, lwm2mListFind]
      grind

/-- With an id that is in use the new node would come behind the one that has it. -/
theorem find_add (node : Node) {list : List Node}
    (fresh : lwm2mListFind key (key node) list = none) (id : Nat) :
    lwm2mListFind key id (lwm2mListAdd key node list) =
      if id = key node then some node else lwm2mListFind key id list := by
  cases list with
  | nil => exact find_insertAfter node [] id
  | cons head rest =>
    rw [← find_insertAfter, lwm2mListAdd, insertAfter]
    rw [lwm2mListFind] at fresh
    split
    · rw [if_neg (by omega)]
    · rw [if_pos (by grind)]

theorem sorted_insertAfter {node : Node} {list : List Node} (hs : Sorted key list)
    (fresh : lwm2mListFind key (key node) list = none) :
    Sorted key (insertAfter key node list) := by
  induction list with
  | nil => exact List.pairwise_singleton _ _
  | cons next rest ih =>
    obtain ⟨hlt, hrest⟩ := sorted_cons_iff.mp hs
    rw [lwm2mListFind] at fresh
    rw [insertAfter]
    split
    · rename_i hless
      rw [if_pos hless] at fresh
      apply sorted_cons_iff.mpr
      refine ⟨?_, ih hrest fresh⟩
      intro n hn
      rcases mem_insertAfter.mp hn with rfl | hn
      · exact hless
      · exact hlt n hn
    · rename_i hless
      rw [if_neg hless] at fresh
      have hnext : key node < key next := by grind
      apply sorted_cons_iff.mpr
      refine ⟨?_, hs⟩
      intro n hn
      rcases List.mem_cons.mp hn with rfl | hn
      · exact hnext
      · exact Nat.lt_trans hnext (hlt n hn)

theorem sorted_add (node : Node) {list : List Node} (hs : Sorted key list)
    (fresh : lwm2mListFind key (key node) list = none) :
    Sorted key (lwm2mListAdd key node list) := by
  have hsorted := sorted_insertAfter hs fresh
  cases list with
  | nil => exact hsorted
  | cons head rest =>
    rw [insertAfter] at hsorted
    rw [lwm2mListFind] at fresh
    rw [lwm2mListAdd]
    split
    · rwa [if_neg (by omega)] at hsorted
    · rwa [if_pos (by grind)] at hsorted

/-! ## Removing -/

theorem removeAfter_sublist (id : Nat) (list : List Node) :
    (removeAfter key id list).1.Sublist list := by
  induction list with
  | nil => exact List.Sublist.slnil
  | cons next rest ih =>
    rw [removeAfter]
    split
    · exact ih.cons_cons next
    · split
      · exact List.sublist_cons_self next rest
      · exact List.Sublist.refl _

theorem remove_sublist (id : Nat) (list : List Node) :
    (lwm2mListRemove key id list).1.Sublist list := by
  cases list with
  | nil => exact List.Sublist.slnil
  | cons head rest =>
    rw [lwm2mListRemove]
    split
    · exact List.sublist_cons_self head rest
    · exact (removeAfter_sublist id rest).cons_cons head

theorem removeAfter_found (id : Nat) (list : List Node) :
    (removeAfter key id list).2 = lwm2mListFind key id list := by
  induction list with
  | nil => rfl
  | cons next rest ih =>
    rw [removeAfter, lwm2mListFind]
    split
    · exact ih
    · split <;> rfl

theorem remove_found {id : Nat} {list : List Node} (hs : Sorted key list) :
    (lwm2mListRemove key id list).2 = lwm2mListFind key id list := by
  cases list with
  | nil => rfl
  | cons head rest =>
    obtain ⟨hlt, _⟩ := sorted_cons_iff.mp hs
    rw [lwm2mListRemove, lwm2mListFind]
    split
    · rw [if_neg (by omega)]
    · rename_i hne
      simp only [removeAfter_found]
      split
      · rfl
      · apply find_eq_none
        intro n hn
        have := hlt n hn
        omega

theorem find_removeAfter (id : Nat) {list : List Node} (hs : Sorted key list) (other : Nat) :
    lwm2mListFind key other (removeAfter key id list).1 =
      if other = id then none else lwm2mListFind key other list := by
  induction list with
  | nil => simp [removeAfter, lwm2mListFind]
  | cons next rest ih =>
    obtain ⟨hlt, hrest⟩ := sorted_cons_iff.mp hs
    rw [removeAfter, lwm2mListFind]
    split
    · rw [lwm2mListFind, ih hrest]
      grind
    · have above : ∀ i, i ≤ key next → lwm2mListFind key i rest = none := by
        intro i hi
        apply find_eq_none
        intro n hn
        have := hlt n hn
        omega
      have := above other
      split
      · grind
      · rw [lwm2mListFind]
        grind

theorem find_remove (id : Nat) {list : List Node} (hs : Sorted key list) (other : Nat) :
    lwm2mListFind key other (lwm2mListRemove key id list).1 =
      if other = id then none else lwm2mListFind key other list := by
  cases list with
  | nil => simp [lwm2mListRemove, lwm2mListFind]
  | cons head rest =>
    obtain ⟨hlt, hrest⟩ := sorted_cons_iff.mp hs
    have hremove := find_removeAfter id hs other
    rw [removeAfter] at hremove
    rw [lwm2mListRemove]
    split
    · rename_i heq
      rw [if_neg (by omega), if_pos heq] at hremove
      exact hremove
    · rename_i hne
      split at hremove
      · exact hremove
      · rename_i hless
        have above : ∀ n ∈ rest, key n ≠ id := fun n hn => by have := hlt n hn; omega
        have hafter := find_removeAfter id hrest other
        rw [lwm2mListFind, lwm2mListFind, hafter]
        grind [find_eq_none above]

theorem sorted_remove {id : Nat} {list : List Node} (hs : Sorted key list) :
    Sorted key (lwm2mListRemove key id list).1 :=
  hs.sublist (remove_sublist id list)

/-! ## Changing a node -/

theorem mem_replaceFound {id : Nat} {new n : Node} {list : List Node}
    (h : n ∈ replaceFound key id new list) : n = new ∨ n ∈ list := by
  induction list with
  | nil => exact Or.inr h
  | cons head rest ih =>
    rw [replaceFound] at h
    rw [List.mem_cons]
    split at h
    · rcases List.mem_cons.mp h with h | h
      · exact Or.inr (Or.inl h)
      · rcases ih h with h | h
        · exact Or.inl h
        · exact Or.inr (Or.inr h)
    · split at h
      · rcases List.mem_cons.mp h with h | h
        · exact Or.inl h
        · exact Or.inr (Or.inr h)
      · exact Or.inr (List.mem_cons.mp h)

theorem find_replaceFound {id : Nat} {new old : Node} {list : List Node}
    (hfound : lwm2mListFind key id list = some old) (hid : key new = id) (other : Nat) :
    lwm2mListFind key other (replaceFound key id new list) =
      if other = id then some new else lwm2mListFind key other list := by
  induction list with
  | nil => cases hfound
  | cons head rest ih =>
    rw [lwm2mListFind] at hfound
    rw [replaceFound, lwm2mListFind]
    split at hfound
    · rename_i hless
      rw [if_pos hless, lwm2mListFind, ih hfound]
      grind
    · rename_i hless
      rw [if_neg hless]
      split at hfound
      · rename_i heq
        rw [if_pos heq, lwm2mListFind]
        grind
      · cases hfound

theorem sorted_replaceFound {id : Nat} {new : Node} {list : List Node} (hs : Sorted key list)
    (hid : key new = id) : Sorted key (replaceFound key id new list) := by
  induction list with
  | nil => exact sorted_nil
  | cons head rest ih =>
    obtain ⟨hlt, hrest⟩ := sorted_cons_iff.mp hs
    rw [replaceFound]
    split
    · rename_i hless
      apply sorted_cons_iff.mpr
      refine ⟨?_, ih hrest⟩
      intro n hn
      rcases mem_replaceFound hn with rfl | hn
      · omega
      · exact hlt n hn
    · split
      · rename_i heq
        apply sorted_cons_iff.mpr
        refine ⟨?_, hrest⟩
        intro n hn
        have := hlt n hn
        omega
      · exact hs

/-! ## Where a new node stands -/

/-- A node with the id, between those with a smaller and those with a larger one. -/
def Inserted (key : Node → Nat) (id : Nat) (list list' : List Node) : Prop :=
  ∃ before node after, list = before ++ after ∧ list' = before ++ node :: after ∧
    key node = id ∧ (∀ n ∈ before, key n < id) ∧ ∀ n ∈ after, id < key n

theorem Inserted.sorted {id : Nat} {list list' : List Node} (h : Inserted key id list list')
    (hs : Sorted key list) : Sorted key list' := by
  obtain ⟨before, node, after, rfl, rfl, rfl, hless, hmore⟩ := h
  obtain ⟨hbefore, hafter, hacross⟩ := List.pairwise_append.mp hs
  refine List.pairwise_append.mpr ⟨hbefore, List.pairwise_cons.mpr ⟨hmore, hafter⟩, ?_⟩
  intro a ha b hb
  rcases List.mem_cons.mp hb with rfl | hb
  · exact hless a ha
  · exact hacross a ha b hb

theorem insertAfter_split (node : Node) {list : List Node} (hs : Sorted key list)
    (fresh : ∀ n ∈ list, key n ≠ key node) :
    ∃ before after, list = before ++ after ∧ insertAfter key node list = before ++ node :: after ∧
      (∀ n ∈ before, key n < key node) ∧ ∀ n ∈ after, key node < key n := by
  induction list with
  | nil => exact ⟨[], [], rfl, rfl, by simp, by simp⟩
  | cons next rest ih =>
    obtain ⟨hnext, hrest⟩ := sorted_cons_iff.mp hs
    rw [insertAfter]
    split
    · rename_i hless
      obtain ⟨before, after, rfl, hinsert, hbefore, hafter⟩ :=
        ih hrest fun n hn => fresh n (List.mem_cons_of_mem next hn)
      refine ⟨next :: before, after, rfl, by rw [hinsert, List.cons_append], ?_, hafter⟩
      intro n hn
      rcases List.mem_cons.mp hn with rfl | hn
      · exact hless
      · exact hbefore n hn
    · rename_i hless
      have hmore : key node < key next := by
        have := fresh next List.mem_cons_self
        omega
      refine ⟨[], next :: rest, rfl, rfl, by simp, ?_⟩
      intro n hn
      rcases List.mem_cons.mp hn with rfl | hn
      · exact hmore
      · exact Nat.lt_trans hmore (hnext n hn)

theorem add_split (node : Node) {list : List Node} (hs : Sorted key list)
    (fresh : ∀ n ∈ list, key n ≠ key node) :
    ∃ before after, list = before ++ after ∧
      lwm2mListAdd key node list = before ++ node :: after ∧
      (∀ n ∈ before, key n < key node) ∧ ∀ n ∈ after, key node < key n := by
  cases list with
  | nil => exact ⟨[], [], rfl, rfl, by simp, by simp⟩
  | cons head rest =>
    -- the head is tested the other way round than the nodes behind it
    have hsame : lwm2mListAdd key node (head :: rest) = insertAfter key node (head :: rest) := by
      have := fresh head List.mem_cons_self
      rw [lwm2mListAdd, insertAfter]
      by_cases hless : key node < key head
      · rw [if_pos hless, if_neg (by omega)]
      · rw [if_neg hless, if_pos (by omega)]
    rw [hsame]
    exact insertAfter_split node hs fresh

theorem replaceFound_split {id : Nat} {node new : Node} {before after : List Node}
    (hbefore : ∀ n ∈ before, key n < id) (hnode : key node = id) :
    replaceFound key id new (before ++ node :: after) = before ++ new :: after := by
  induction before with
  | nil =>
    rw [List.nil_append, replaceFound, if_neg (by omega), if_pos hnode]
    rfl
  | cons head before ih =>
    rw [List.cons_append, replaceFound, if_pos (hbefore head List.mem_cons_self),
      ih fun n hn => hbefore n (List.mem_cons_of_mem head hn), List.cons_append]

/-- A node that is added and then changed. -/
theorem inserted_of_add {node new : Node} {list : List Node} (hs : Sorted key list)
    (fresh : ∀ n ∈ list, key n ≠ key node) (hnew : key new = key node) :
    Inserted key (key node) list
      (replaceFound key (key node) new (lwm2mListAdd key node list)) := by
  obtain ⟨before, after, hlist, hadd, hless, hmore⟩ := add_split node hs fresh
  refine ⟨before, new, after, hlist, ?_, hnew, hless, hmore⟩
  rw [hadd, replaceFound_split hless rfl]

/-! ## A node that goes again -/

theorem replaceFound_self {id : Nat} {old : Node} {list : List Node}
    (hfound : lwm2mListFind key id list = some old) : replaceFound key id old list = list := by
  induction list with
  | nil => cases hfound
  | cons head rest ih =>
    rw [lwm2mListFind] at hfound
    rw [replaceFound]
    split
    · rename_i hless
      rw [if_pos hless] at hfound
      rw [ih hfound]
    · rename_i hless
      rw [if_neg hless] at hfound
      split
      · rename_i heq
        rw [if_pos heq] at hfound
        cases hfound
        rfl
      · rfl

theorem removeAfter_replaceFound_insertAfter {node new : Node} {list : List Node}
    (fresh : lwm2mListFind key (key node) list = none) (hnew : key new = key node) :
    removeAfter key (key node) (replaceFound key (key node) new (insertAfter key node list)) =
      (list, some new) := by
  induction list with
  | nil =>
    rw [insertAfter, replaceFound, if_neg (Nat.lt_irrefl _), if_pos rfl, removeAfter,
      if_neg (by omega), if_pos hnew]
  | cons next rest ih =>
    rw [lwm2mListFind] at fresh
    rw [insertAfter]
    split
    · rename_i hless
      rw [if_pos hless] at fresh
      rw [replaceFound, if_pos hless, removeAfter, if_pos hless, ih fresh]
    · rw [replaceFound, if_neg (Nat.lt_irrefl _), if_pos rfl, removeAfter, if_neg (by omega),
        if_pos hnew]

/-- A new node goes without a trace, also when it has been changed since. -/
theorem remove_replaceFound_add {node new : Node} {list : List Node}
    (fresh : lwm2mListFind key (key node) list = none) (hnew : key new = key node) :
    lwm2mListRemove key (key node)
      (replaceFound key (key node) new (lwm2mListAdd key node list)) = (list, some new) := by
  cases list with
  | nil =>
    rw [lwm2mListAdd, replaceFound, if_neg (Nat.lt_irrefl _), if_pos rfl, lwm2mListRemove,
      if_pos hnew]
  | cons head rest =>
    rw [lwm2mListAdd]
    split
    · rw [replaceFound, if_neg (Nat.lt_irrefl _), if_pos rfl, lwm2mListRemove, if_pos hnew]
    · rename_i hless
      rw [lwm2mListFind] at fresh
      by_cases hhead : key head < key node
      · rw [if_pos hhead] at fresh
        rw [replaceFound, if_pos hhead, lwm2mListRemove, if_neg (Nat.ne_of_lt hhead),
          removeAfter_replaceFound_insertAfter fresh hnew]
      · have heq : key head = key node := by omega
        rw [if_neg hhead, if_pos heq] at fresh
        cases fresh

/-! ## A new id -/

theorem newIdFrom_fresh (id : Nat) {list : List Node} (hs : Sorted key list)
    (above : ∀ n ∈ list, id ≤ key n) (room : id + list.length < 65536) :
    id ≤ newIdFrom key id list ∧ ∀ n ∈ list, key n ≠ newIdFrom key id list := by
  induction list generalizing id with
  | nil => exact ⟨Nat.le_refl _, by simp⟩
  | cons target rest ih =>
    obtain ⟨hlt, hrest⟩ := sorted_cons_iff.mp hs
    have htarget := above target List.mem_cons_self
    rw [List.length_cons] at room
    rw [newIdFrom]
    split
    · rename_i heq
      rw [← heq] at hlt ⊢
      rw [Nat.mod_eq_of_lt (by omega)]
      obtain ⟨hle, hfresh⟩ := ih (id + 1) hrest (fun n hn => hlt n hn) (by omega)
      refine ⟨by omega, ?_⟩
      intro n hn
      rcases List.mem_cons.mp hn with rfl | hn
      · omega
      · exact hfresh n hn
    · refine ⟨Nat.le_refl _, ?_⟩
      intro n hn
      rcases List.mem_cons.mp hn with rfl | hn
      · omega
      · have := hlt n hn
        omega

/-- With fewer nodes than ids the new id is not in use. -/
theorem find_newId {list : List Node} (hs : Sorted key list) (room : list.length < 65536) :
    lwm2mListFind key (lwm2mListNewId key list) list = none := by
  apply find_eq_none
  exact (newIdFrom_fresh 0 hs (fun _ _ => Nat.zero_le _) (by omega)).2

end Facts

end JsEmbeddedPlatform.Lwm2mList
