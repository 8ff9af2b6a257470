import Mathlib.Data.Nat.ModEq
import Mathlib.Data.List.Basic

/-!
# NOR flash

An erase sets the bytes of a range, programming a byte can only clear bits of it. What
a memory holds after a list of operations is what they leave one after the other, so
that a reset in between leaves what a prefix of them leaves.
-/

set_option autoImplicit false

namespace NorFlash

inductive Operation where
  | erase (first size : Nat)
  | program (address : Nat) (value : UInt8)
deriving DecidableEq, Repr

def apply (memory : Nat → UInt8) : Operation → Nat → UInt8
  | .erase first size => fun a => if first ≤ a ∧ a < first + size then 0xFF else memory a
  | .program address value => fun a => if a = address then memory a &&& value else memory a

def replay (memory : Nat → UInt8) (operations : List Operation) : Nat → UInt8 :=
  operations.foldl apply memory

/-- The bytes from an address on. -/
def bytesAt (memory : Nat → UInt8) (address n : Nat) : List UInt8 :=
  (List.range n).map fun i => memory (address + i)

/-- A list of bytes programmed at consecutive addresses. -/
def programs : Nat → List UInt8 → List Operation
  | _, [] => []
  | address, v :: values => .program address v :: programs (address + 1) values

theorem erased_and (v : UInt8) : 0xFF &&& v = v := by
  apply UInt8.toBitVec_inj.mp
  rw [UInt8.toBitVec_and]
  exact BitVec.allOnes_and

theorem apply_erase {memory : Nat → UInt8} {first size a : Nat}
    (h : first ≤ a ∧ a < first + size) : apply memory (.erase first size) a = 0xFF :=
  if_pos h

theorem apply_program {memory : Nat → UInt8} {address : Nat} (value : UInt8)
    (h : memory address = 0xFF) : apply memory (.program address value) address = value := by
  simp only [apply, if_true, h, erased_and]

theorem apply_program_ne {memory : Nat → UInt8} {address a : Nat} (value : UInt8)
    (h : a ≠ address) : apply memory (.program address value) a = memory a :=
  if_neg h

@[simp] theorem replay_cons (memory : Nat → UInt8) (op : Operation) (ops : List Operation) :
    replay memory (op :: ops) = replay (apply memory op) ops := rfl

theorem replay_append (memory : Nat → UInt8) (ops later : List Operation) :
    replay memory (ops ++ later) = replay (replay memory ops) later :=
  List.foldl_append ..

@[simp] theorem length_bytesAt (memory : Nat → UInt8) (address n : Nat) :
    (bytesAt memory address n).length = n := by
  simp [bytesAt]

theorem bytesAt_congr {memory memory' : Nat → UInt8} {address n : Nat}
    (h : ∀ i < n, memory (address + i) = memory' (address + i)) :
    bytesAt memory address n = bytesAt memory' address n := by
  unfold bytesAt
  apply List.map_congr_left
  intro i hi
  exact h i (List.mem_range.mp hi)

theorem bytesAt_add (memory : Nat → UInt8) (address m n : Nat) :
    bytesAt memory address (m + n) = bytesAt memory address m ++ bytesAt memory (address + m) n := by
  unfold bytesAt
  rw [List.range_add, List.map_append, List.map_map]
  congr 1
  apply List.map_congr_left
  intro i _
  simp only [Function.comp_apply, Nat.add_assoc]

theorem bytesAt_part {memory : Nat → UInt8} {address k n size : Nat} (h : k + n ≤ size) :
    bytesAt memory (address + k) n = ((bytesAt memory address size).drop k).take n := by
  obtain ⟨rest, rfl⟩ := Nat.exists_eq_add_of_le h
  rw [Nat.add_assoc, bytesAt_add, bytesAt_add, List.drop_left' (by simp), List.take_left' (by simp)]

@[simp] theorem length_programs (address : Nat) (values : List UInt8) :
    (programs address values).length = values.length := by
  induction values generalizing address with
  | nil => rfl
  | cons v values ih => simp [programs, ih]

theorem programs_append (address : Nat) (values more : List UInt8) :
    programs address (values ++ more) =
      programs address values ++ programs (address + values.length) more := by
  induction values generalizing address with
  | nil => simp [programs]
  | cons v values ih =>
    simp only [List.cons_append, programs, ih, List.length_cons]
    rw [Nat.add_assoc, Nat.add_comm 1]

theorem take_programs (address n : Nat) (values : List UInt8) :
    (programs address values).take n = programs address (values.take n) := by
  induction values generalizing address n with
  | nil => simp [programs]
  | cons v values ih =>
    cases n with
    | zero => rfl
    | succ n => simp [programs, ih]

/-- The addresses that are programmed. -/
theorem mem_programs {address : Nat} {values : List UInt8} {op : Operation}
    (h : op ∈ programs address values) :
    ∃ a v, op = .program a v ∧ address ≤ a ∧ a < address + values.length := by
  induction values generalizing address with
  | nil => cases h
  | cons v values ih =>
    rcases List.mem_cons.mp h with rfl | h
    · exact ⟨address, v, rfl, Nat.le_refl _, by simp⟩
    · obtain ⟨a, w, hop, hlo, hhi⟩ := ih h
      refine ⟨a, w, hop, by omega, ?_⟩
      rw [List.length_cons]
      omega

theorem program_mem_programs (address : Nat) {values : List UInt8} {i : Nat}
    (h : i < values.length) : .program (address + i) (values.getD i 0) ∈ programs address values := by
  induction values generalizing address i with
  | nil => simp at h
  | cons v values ih =>
    cases i with
    | zero => exact List.mem_cons_self
    | succ i =>
      have := ih (address + 1) (Nat.lt_of_succ_lt_succ h)
      rw [Nat.add_assoc, Nat.add_comm 1] at this
      exact List.mem_cons_of_mem _ this

/-- A byte that no operation names keeps its value. -/
theorem replay_elsewhere {memory : Nat → UInt8} {ops : List Operation} {a : Nat}
    (h : ∀ op ∈ ops, ∃ b v, op = .program b v ∧ b ≠ a) : replay memory ops a = memory a := by
  induction ops generalizing memory with
  | nil => rfl
  | cons op ops ih =>
    obtain ⟨b, v, rfl, hb⟩ := h op List.mem_cons_self
    rw [replay_cons, ih fun op' hop' => h op' (List.mem_cons_of_mem _ hop')]
    exact apply_program_ne v fun heq => hb heq.symm

theorem replay_programs_elsewhere {memory : Nat → UInt8} {address a : Nat} {values : List UInt8}
    (h : a < address ∨ address + values.length ≤ a) :
    replay memory (programs address values) a = memory a := by
  apply replay_elsewhere
  intro op hop
  obtain ⟨b, v, rfl, hlo, hhi⟩ := mem_programs hop
  exact ⟨b, v, rfl, by omega⟩

/-- What is programmed into erased bytes is read back. -/
theorem bytesAt_replay_programs {memory : Nat → UInt8} {address : Nat} {values : List UInt8}
    (erased : ∀ i < values.length, memory (address + i) = 0xFF) :
    bytesAt (replay memory (programs address values)) address values.length = values := by
  induction values generalizing memory address with
  | nil => rfl
  | cons v values ih =>
    rw [List.length_cons, Nat.add_comm, bytesAt_add]
    have hfirst : bytesAt (replay memory (programs address (v :: values))) address 1 = [v] := by
      unfold programs
      simp only [bytesAt, List.range_one, List.map_cons, List.map_nil, Nat.add_zero, replay_cons]
      rw [replay_programs_elsewhere (Or.inl (Nat.lt_succ_self address))]
      have := erased 0 (by simp)
      rw [Nat.add_zero] at this
      rw [apply_program v this]
    have hrest : bytesAt (replay memory (programs address (v :: values))) (address + 1)
        values.length = values := by
      unfold programs
      rw [replay_cons]
      apply ih
      intro i hi
      have hi' : i + 1 < (v :: values).length := by simpa using hi
      have := erased (i + 1) hi'
      rw [Nat.add_assoc, Nat.add_comm 1, apply_program_ne v (by omega), this]
    rw [hfirst, hrest]
    rfl

/-- The same byte by byte, for any part of the values. -/
theorem replay_programs_at {memory : Nat → UInt8} {address i : Nat} {values : List UInt8}
    (erased : ∀ i < values.length, memory (address + i) = 0xFF) (h : i < values.length) :
    replay memory (programs address values) (address + i) = values.getD i 0 := by
  have := congrArg (·[i]?) (bytesAt_replay_programs erased)
  simp only [bytesAt, List.getElem?_map, List.getElem?_range h, Option.map_some] at this
  rw [List.getD_eq_getElem?_getD, ← this, Option.getD_some]

/-- The addresses that are programmed, in their order. -/
def addresses (ops : List Operation) : List Nat :=
  ops.filterMap fun op =>
    match op with
    | .program address _ => some address
    | .erase _ _ => none

theorem addresses_append (ops later : List Operation) :
    addresses (ops ++ later) = addresses ops ++ addresses later :=
  List.filterMap_append ..

theorem addresses_programs (address : Nat) (values : List UInt8) :
    addresses (programs address values) = List.range' address values.length := by
  induction values generalizing address with
  | nil => rfl
  | cons v values ih =>
    rw [List.length_cons, List.range'_succ, ← ih]
    rfl

theorem addresses_flatMap {Item : Type*} (ops : Item → List Operation) (items : List Item) :
    addresses (items.flatMap ops) = items.flatMap fun item => addresses (ops item) :=
  List.filterMap_flatMap ..

theorem mem_addresses {ops : List Operation} {a : Nat} :
    a ∈ addresses ops ↔ ∃ v, .program a v ∈ ops := by
  unfold addresses
  rw [List.mem_filterMap]
  constructor
  · intro ⟨op, hop, ha⟩
    cases op with
    | erase first size => cases ha
    | program b v =>
      cases ha
      exact ⟨v, hop⟩
  · intro ⟨v, hop⟩
    exact ⟨_, hop, rfl⟩

/-- Without an erase, a byte at an address that is not programmed stays. -/
theorem replay_unprogrammed {memory : Nat → UInt8} {ops : List Operation} {a : Nat}
    (programmed : ∀ op ∈ ops, ∃ b v, op = .program b v) (h : a ∉ addresses ops) :
    replay memory ops a = memory a := by
  apply replay_elsewhere
  intro op hop
  obtain ⟨b, v, rfl⟩ := programmed op hop
  refine ⟨b, v, rfl, ?_⟩
  rintro rfl
  exact h (mem_addresses.mpr ⟨v, hop⟩)

/-- Programmed once, in whatever order, an erased byte has the value that it was given. -/
theorem replay_distinct {memory : Nat → UInt8} {ops : List Operation} {a : Nat} {v : UInt8}
    (programmed : ∀ op ∈ ops, ∃ b w, op = .program b w) (distinct : (addresses ops).Nodup)
    (erased : memory a = 0xFF) (h : .program a v ∈ ops) : replay memory ops a = v := by
  induction ops generalizing memory with
  | nil => cases h
  | cons op ops ih =>
    obtain ⟨b, w, rfl⟩ := programmed op List.mem_cons_self
    have hrest : ∀ op ∈ ops, ∃ b w, op = .program b w :=
      fun op hop => programmed op (List.mem_cons_of_mem _ hop)
    obtain ⟨hfirst, hdistinct⟩ : b ∉ addresses ops ∧ (addresses ops).Nodup :=
      List.nodup_cons.mp distinct
    rw [replay_cons]
    rcases List.mem_cons.mp h with heq | hmem
    · cases heq
      rw [replay_unprogrammed hrest hfirst, apply_program v erased]
    · have hne : a ≠ b := by
        rintro rfl
        exact hfirst (mem_addresses.mpr ⟨v, hmem⟩)
      apply ih hrest hdistinct _ hmem
      rw [apply_program_ne w hne, erased]

/-- Where one value alone is programmed, once is as good as many times. -/
theorem replay_same {memory : Nat → UInt8} {ops : List Operation} {a : Nat} {v : UInt8}
    (h : ∀ op ∈ ops, ∃ b w, op = .program b w ∧ (b = a → w = v)) :
    replay memory ops a = if .program a v ∈ ops then memory a &&& v else memory a := by
  induction ops generalizing memory with
  | nil => simp [replay]
  | cons op ops ih =>
    obtain ⟨b, w, rfl, hvalue⟩ := h op List.mem_cons_self
    have hrest := fun op hop => h op (List.mem_cons_of_mem _ hop)
    rw [replay_cons, ih hrest]
    by_cases hb : b = a
    · cases hb
      cases hvalue rfl
      have hat : apply memory (.program a v) a = memory a &&& v := if_pos rfl
      have hagain : memory a &&& v &&& v = memory a &&& v := by
        rw [UInt8.and_assoc, UInt8.and_self]
      rw [hat, hagain, ite_self, if_pos List.mem_cons_self]
    · have hother : Operation.program a v ≠ .program b w := by
        intro heq
        cases heq
        exact hb rfl
      rw [apply_program_ne w (Ne.symm hb)]
      simp only [List.mem_cons, hother, false_or]

/-- Bytes that agree with a list. -/
theorem bytesAt_eq {memory : Nat → UInt8} {address : Nat} {values : List UInt8}
    (h : ∀ i < values.length, memory (address + i) = values.getD i 0) :
    bytesAt memory address values.length = values := by
  apply List.ext_getElem (by simp)
  intro i hi hvalues
  simp [bytesAt, h i hvalues, hvalues]

theorem bytesAt_eq_iff {memory : Nat → UInt8} {address : Nat} {values : List UInt8} :
    bytesAt memory address values.length = values ↔
      ∀ i < values.length, memory (address + i) = values.getD i 0 := by
  refine ⟨fun h i hi => ?_, bytesAt_eq⟩
  have hbyte := congrArg (·[i]?) h
  simpa [bytesAt, hi, List.getD_eq_getElem?_getD] using hbyte

/-- Values that are programmed at consecutive addresses by some of the operations. -/
theorem bytesAt_replay_distinct {memory : Nat → UInt8} {ops : List Operation} {address : Nat}
    {values : List UInt8} (programmed : ∀ op ∈ ops, ∃ b w, op = .program b w)
    (distinct : (addresses ops).Nodup)
    (erased : ∀ i < values.length, memory (address + i) = 0xFF)
    (h : ∀ op ∈ programs address values, op ∈ ops) :
    bytesAt (replay memory ops) address values.length = values := by
  apply bytesAt_eq
  intro i hi
  apply replay_distinct programmed distinct (erased i hi)
  exact h _ (program_mem_programs address hi)

end NorFlash
