import JsEmbeddedPlatform.Lwm2mData
import JsEmbeddedPlatform.Shared.Runs

/-!
# Requests that come in blocks

What a server sends block by block is put together in one buffer for each server. Blocks can
be lost, come twice or late: what is handed on is the whole document or nothing, and it is
handed on once the blocks have come in their order, whatever else came in between.
-/

set_option autoImplicit false

namespace JsEmbeddedPlatform.Block1

open Lwm2mData (Fault)

def maxBlock1Size : Nat := 4096

def noError : UInt8 := 0x00
def continue231 : UInt8 := 0x5F
def reqEntityIncomplete408 : UInt8 := 0x88
def entityTooLarge413 : UInt8 := 0x8D
def internalServerError500 : UInt8 := 0xA0

/-- `lwm2m_block1_data_t`; the buffer is none for NULL. -/
structure Block1Data where
  block1buffer : Option (List UInt8)
  block1bufferSize : Nat
  lastmid : UInt16
deriving DecidableEq, Repr

/-- A message with the Block1 option. -/
structure Request where
  mid : UInt16
  payload : List UInt8
  blockSize : UInt16
  blockNum : UInt32
  blockMore : Bool
deriving DecidableEq, Repr

/-- Whether `lwm2m_malloc` has memory for the record and for the buffer. -/
structure Mallocs where
  data : Bool
  buffer : Bool
deriving DecidableEq, Repr

/-- What is returned, with the buffer and its length where they are handed on. -/
structure Reply where
  code : UInt8
  output : Option (Option (List UInt8) × Nat)
deriving DecidableEq, Repr

def blockAnswer (d : Block1Data) (blockMore : Bool) : Reply :=
  if blockMore then ⟨continue231, none⟩
  else ⟨noError, some (d.block1buffer, d.block1bufferSize)⟩

/-- `memcpy` to NULL or from NULL is a fault. Where there is no memory for a longer buffer, its
size has grown already. -/
def coapBlock1Handler (mallocs : Mallocs) (block1Data : Option Block1Data) (r : Request) :
    Except Fault (Option Block1Data × Reply) :=
  if r.blockNum = 0 then
    if block1Data = none ∧ mallocs.data = false then
      .ok (none, ⟨internalServerError500, none⟩)
    else if mallocs.buffer then
      let d : Block1Data := ⟨some r.payload, r.payload.length, r.mid⟩
      .ok (some d, blockAnswer d r.blockMore)
    else .error .memory
  else
    match block1Data with
    | none => .ok (none, ⟨reqEntityIncomplete408, none⟩)
    | some d =>
      if d.lastmid ≠ r.mid then
        if d.block1bufferSize ≠ (r.blockSize.toUInt32 * r.blockNum).toNat then
          .ok (some d, ⟨reqEntityIncomplete408, none⟩)
        else if maxBlock1Size ≤ d.block1bufferSize + r.payload.length then
          .ok (some d, ⟨entityTooLarge413, none⟩)
        else if mallocs.buffer then
          match d.block1buffer with
          | none => .error .memory
          | some oldBuffer =>
            let d : Block1Data :=
              ⟨some (oldBuffer ++ r.payload), d.block1bufferSize + r.payload.length, r.mid⟩
            .ok (some d, blockAnswer d r.blockMore)
        else
          .ok (some { d with
            block1buffer := none
            block1bufferSize := d.block1bufferSize + r.payload.length },
            ⟨internalServerError500, none⟩)
      else .ok (some d, blockAnswer d r.blockMore)

/-- The requests of one server, one after the other. -/
def block1Step (block1Data : Option Block1Data) (input : Mallocs × Request) :
    Option (Option Block1Data × Reply) :=
  (coapBlock1Handler input.1 block1Data input.2).toOption

/-! ## The cases of a request -/

/-- What one request does. -/
inductive Handled (mallocs : Mallocs) (data : Option Block1Data) (r : Request) :
    Option Block1Data → Reply → Prop where
  | first : r.blockNum = 0 → mallocs.buffer = true → (data = none → mallocs.data = true) →
      Handled mallocs data r (some ⟨some r.payload, r.payload.length, r.mid⟩)
        (blockAnswer ⟨some r.payload, r.payload.length, r.mid⟩ r.blockMore)
  | noRecord : r.blockNum = 0 → data = none → mallocs.data = false →
      Handled mallocs data r none ⟨internalServerError500, none⟩
  | refused (code : UInt8) : r.blockNum ≠ 0 →
      code = reqEntityIncomplete408 ∨ code = entityTooLarge413 →
      Handled mallocs data r data ⟨code, none⟩
  | again (d : Block1Data) : r.blockNum ≠ 0 → data = some d → d.lastmid = r.mid →
      Handled mallocs data r data (blockAnswer d r.blockMore)
  | noBuffer (d : Block1Data) : r.blockNum ≠ 0 → data = some d → mallocs.buffer = false →
      d.block1bufferSize = (r.blockSize.toUInt32 * r.blockNum).toNat →
      Handled mallocs data r (some { d with
        block1buffer := none
        block1bufferSize := d.block1bufferSize + r.payload.length }) ⟨internalServerError500, none⟩
  | next (d : Block1Data) (oldBuffer : List UInt8) : r.blockNum ≠ 0 → data = some d →
      d.lastmid ≠ r.mid → d.block1buffer = some oldBuffer →
      d.block1bufferSize = (r.blockSize.toUInt32 * r.blockNum).toNat →
      d.block1bufferSize + r.payload.length < maxBlock1Size →
      Handled mallocs data r
        (some ⟨some (oldBuffer ++ r.payload), d.block1bufferSize + r.payload.length, r.mid⟩)
        (blockAnswer ⟨some (oldBuffer ++ r.payload), d.block1bufferSize + r.payload.length, r.mid⟩
          r.blockMore)

theorem handler_cases {mallocs : Mallocs} {data data' : Option Block1Data} {r : Request}
    {reply : Reply} (h : coapBlock1Handler mallocs data r = .ok (data', reply)) :
    Handled mallocs data r data' reply := by
  unfold coapBlock1Handler at h
  split at h
  · next hnum =>
    split at h
    · next hnone =>
      cases h
      exact .noRecord hnum hnone.1 hnone.2
    · next hnone =>
      split at h
      · next hbuffer =>
        cases h
        refine .first hnum hbuffer fun hdata => ?_
        by_contra hmalloc
        exact hnone ⟨hdata, Bool.eq_false_iff.mpr hmalloc⟩
      · cases h
  · next hnum =>
    split at h
    · cases h
      exact .refused _ hnum (.inl rfl)
    · next d =>
      split at h
      · next hmid =>
        split at h
        · cases h
          exact .refused _ hnum (.inl rfl)
        · next hsize =>
          split at h
          · cases h
            exact .refused _ hnum (.inr rfl)
          · next hlarge =>
            split at h
            · split at h
              · cases h
              · next oldBuffer hold =>
                cases h
                exact .next d oldBuffer hnum rfl hmid hold (not_not.mp hsize)
                  (Nat.lt_of_not_le hlarge)
            · next hbuffer =>
              cases h
              exact .noBuffer d hnum rfl (Bool.eq_false_iff.mpr hbuffer) (not_not.mp hsize)
      · next hmid =>
        cases h
        exact .again d hnum rfl (not_not.mp hmid)

theorem step_cases {data data' : Option Block1Data} {input : Mallocs × Request} {reply : Reply}
    (h : block1Step data input = some (data', reply)) :
    Handled input.1 data input.2 data' reply := by
  unfold block1Step at h
  cases hr : coapBlock1Handler input.1 data input.2 with
  | error fault =>
    rw [hr] at h
    cases h
  | ok last =>
    rw [hr] at h
    cases h
    exact handler_cases hr

/-! ## Blocks of one document -/

/-- A message that carries a block of `document`, which is cut into blocks of `blockSize` bytes. -/
structure BlockOf (document : List UInt8) (blockSize : UInt16) (r : Request) : Prop where
  size : r.blockSize = blockSize
  inside : r.blockNum = 0 ∨ r.blockNum.toNat * blockSize.toNat < document.length
  payload : r.payload = (document.drop (r.blockNum.toNat * blockSize.toNat)).take blockSize.toNat
  more : r.blockMore = decide ((r.blockNum.toNat + 1) * blockSize.toNat < document.length)

/-- The document up to the end of a block. -/
def upTo (document : List UInt8) (blockSize : UInt16) (r : Request) : List UInt8 :=
  document.take ((r.blockNum.toNat + 1) * blockSize.toNat)

section Document
variable {document : List UInt8} {blockSize : UInt16}

theorem BlockOf.first {r : Request} (h : BlockOf document blockSize r) (hnum : r.blockNum = 0) :
    r.payload = upTo document blockSize r := by
  rw [h.payload, upTo, hnum, UInt32.toNat_zero, Nat.zero_mul, List.drop_zero, Nat.zero_add,
    Nat.one_mul]

theorem BlockOf.last {r : Request} (h : BlockOf document blockSize r)
    (hmore : r.blockMore = false) : upTo document blockSize r = document := by
  apply List.take_of_length_le
  have hlen := h.more
  rw [hmore, eq_comm, decide_eq_false_iff_not] at hlen
  omega

/-- The order check does not overflow for a block of a document that can be addressed. -/
theorem BlockOf.offset {r : Request} (h : BlockOf document blockSize r)
    (hdocument : document.length < 2 ^ 32) :
    (r.blockSize.toUInt32 * r.blockNum).toNat = r.blockNum.toNat * blockSize.toNat := by
  rw [UInt32.toNat_mul, UInt16.toNat_toUInt32, h.size, Nat.mul_comm]
  apply Nat.mod_eq_of_lt
  rcases h.inside with hnum | hlt
  · rw [hnum, UInt32.toNat_zero, Nat.zero_mul]
    decide
  · omega

/-- A block that begins where a buffer ends makes the buffer longer by itself. -/
theorem BlockOf.append {r : Request} (h : BlockOf document blockSize r) {n : Nat}
    (hnum : r.blockNum ≠ 0)
    (hlen : (document.take n).length = r.blockNum.toNat * blockSize.toNat) :
    document.take n ++ r.payload = upTo document blockSize r := by
  have hinside := h.inside.resolve_left hnum
  rw [List.length_take] at hlen
  have hn : n = r.blockNum.toNat * blockSize.toNat := by omega
  rw [h.payload, hn, upTo, Nat.add_mul, Nat.one_mul, List.take_add]

/-- A block that is followed by another one says so. -/
theorem BlockOf.more_of_next {r next : Request} (h : BlockOf document blockSize r)
    (hnext : BlockOf document blockSize next) (hnum : next.blockNum ≠ 0)
    (hlen : (upTo document blockSize r).length = next.blockNum.toNat * blockSize.toNat) :
    r.blockMore = true := by
  have hinside := hnext.inside.resolve_left hnum
  rw [upTo, List.length_take] at hlen
  rw [h.more, decide_eq_true_eq]
  omega

/-- Where a transfer of the document stands: the last message that was taken in, and the document
up to it, or no buffer where there was no memory for it. -/
inductive Assembling (document : List UInt8) (blockSize : UInt16) (taken : Request → Prop) :
    Option Block1Data → Prop where
  | none : Assembling document blockSize taken none
  | kept (r : Request) : taken r → BlockOf document blockSize r →
      Assembling document blockSize taken (some ⟨some (upTo document blockSize r),
        (upTo document blockSize r).length, r.mid⟩)
  | lost (r : Request) (n : Nat) : taken r → r.blockMore = true →
      Assembling document blockSize taken (some ⟨none, n, r.mid⟩)

/-- The document, or nothing. -/
def Whole (document : List UInt8) (reply : Reply) : Prop :=
  (reply.code = noError ↔ reply.output.isSome = true) ∧
    ∀ output, reply.output = some output → output = (some document, document.length)

theorem whole_refused {code : UInt8} (hcode : code ≠ noError) : Whole document ⟨code, none⟩ :=
  ⟨⟨fun h => absurd h hcode, fun h => by cases h⟩, fun output h => by cases h⟩

theorem BlockOf.whole {r : Request} (h : BlockOf document blockSize r) :
    Whole document (blockAnswer ⟨some (upTo document blockSize r),
      (upTo document blockSize r).length, r.mid⟩ r.blockMore) := by
  unfold blockAnswer
  split
  · exact whole_refused (by decide)
  · next hmore =>
    rw [h.last (Bool.eq_false_iff.mpr hmore)]
    refine ⟨⟨fun _ => rfl, fun _ => rfl⟩, fun output houtput => ?_⟩
    cases houtput
    rfl

theorem Assembling.step {taken : Request → Prop} {mallocs : Mallocs}
    {data data' : Option Block1Data} {r : Request} {reply : Reply}
    (hdocument : document.length < 2 ^ 32)
    (hmids : ∀ r r', taken r → taken r' → r.mid = r'.mid → r = r')
    (h : Assembling document blockSize taken data) (htaken : taken r)
    (hblock : BlockOf document blockSize r) (hstep : Handled mallocs data r data' reply) :
    Assembling document blockSize taken data' ∧ Whole document reply := by
  cases hstep with
  | first hnum hbuffer hdata =>
    rw [hblock.first hnum]
    exact ⟨.kept r htaken hblock, hblock.whole⟩
  | noRecord hnum hdata hmalloc => exact ⟨.none, whole_refused (by decide)⟩
  | refused code hnum hcode =>
    refine ⟨h, whole_refused ?_⟩
    rcases hcode with rfl | rfl
    · decide
    · decide
  | again d hnum hdata hmid =>
    refine ⟨h, ?_⟩
    cases h with
    | none => cases hdata
    | kept last hlast hlastBlock =>
      cases hdata
      rw [← hmids last r hlast htaken hmid]
      exact hlastBlock.whole
    | lost last n hlast hmore =>
      cases hdata
      rw [← hmids last r hlast htaken hmid, hmore]
      exact whole_refused (by decide)
  | noBuffer d hnum hdata hbuffer hsize =>
    refine ⟨?_, whole_refused (by decide)⟩
    cases h with
    | none => cases hdata
    | kept last hlast hlastBlock =>
      cases hdata
      rw [hblock.offset hdocument] at hsize
      exact .lost last _ hlast (hlastBlock.more_of_next hblock hnum hsize)
    | lost last n hlast hmore =>
      cases hdata
      exact .lost last _ hlast hmore
  | next d oldBuffer hnum hdata hmid hold hsize hlarge =>
    cases h with
    | none => cases hdata
    | kept last hlast hlastBlock =>
      cases hdata
      cases hold
      rw [hblock.offset hdocument] at hsize
      have happend : upTo document blockSize last ++ r.payload = upTo document blockSize r :=
        hblock.append hnum hsize
      rw [← List.length_append, happend]
      exact ⟨.kept r htaken hblock, hblock.whole⟩
    | lost last n hlast hmore =>
      cases hdata
      cases hold

theorem Assembling.begin (taken : Request → Prop) {mallocs : Mallocs}
    {data data' : Option Block1Data} {r : Request} {reply : Reply} (htaken : taken r)
    (hblock : BlockOf document blockSize r) (hnum : r.blockNum = 0)
    (hstep : Handled mallocs data r data' reply) :
    Assembling document blockSize taken data' ∧ Whole document reply := by
  cases hstep with
  | first _ hbuffer hdata =>
    rw [hblock.first hnum]
    exact ⟨.kept r htaken hblock, hblock.whole⟩
  | noRecord _ hdata hmalloc => exact ⟨.none, whole_refused (by decide)⟩
  | refused code hne hcode => exact absurd hnum hne
  | again d hne hdata hmid => exact absurd hnum hne
  | noBuffer d hne hdata hbuffer hsize => exact absurd hnum hne
  | next d oldBuffer hne hdata hmid hold hsize hlarge => exact absurd hnum hne

theorem Assembling.run {taken : Request → Prop} (hdocument : document.length < 2 ^ 32)
    (hmids : ∀ r r', taken r → taken r' → r.mid = r'.mid → r = r')
    {inputs : List (Mallocs × Request)} {data last : Option Block1Data} {replies : List Reply}
    (hinputs : ∀ input ∈ inputs, taken input.2 ∧ BlockOf document blockSize input.2)
    (h : Assembling document blockSize taken data)
    (hrun : Runs.run block1Step data inputs = some (last, replies)) :
    ∀ reply ∈ replies, Whole document reply := by
  induction inputs generalizing data replies with
  | nil =>
    cases hrun
    intro reply hreply
    cases hreply
  | cons input inputs ih =>
    obtain ⟨next, reply, rest, hstep, hrest, rfl⟩ := Runs.run_cons_iff.mp hrun
    obtain ⟨htaken, hblock⟩ := hinputs input List.mem_cons_self
    obtain ⟨hnext, hwhole⟩ := h.step hdocument hmids htaken hblock (step_cases hstep)
    intro r hr
    rcases List.mem_cons.mp hr with rfl | hr
    · exact hwhole
    · exact ih (fun i hi => hinputs i (List.mem_cons_of_mem _ hi)) hnext hrest r hr

end Document

/-- What is handed on is the document: whatever blocks are lost, repeated or late, wherever there
is no memory, and whatever an earlier transfer has left if the first block comes first. -/
theorem block1_whole (document : List UInt8) (blockSize : UInt16)
    (hdocument : document.length < 2 ^ 32) (inputs : List (Mallocs × Request))
    (hblocks : ∀ input ∈ inputs, BlockOf document blockSize input.2)
    (hmids : ∀ i ∈ inputs, ∀ j ∈ inputs, i.2.mid = j.2.mid → i.2 = j.2)
    (start last : Option Block1Data) (replies : List Reply)
    (hstart : start = none ∨ ∃ first, inputs.head? = some first ∧ first.2.blockNum = 0)
    (hrun : Runs.run block1Step start inputs = some (last, replies)) :
    ∀ reply ∈ replies, Whole document reply := by
  have hsame : ∀ r r', (∃ i ∈ inputs, i.2 = r) → (∃ j ∈ inputs, j.2 = r') →
      r.mid = r'.mid → r = r' := by
    rintro r r' ⟨i, hi, rfl⟩ ⟨j, hj, rfl⟩
    exact hmids i hi j hj
  have hinputs : ∀ input ∈ inputs, (∃ i ∈ inputs, i.2 = input.2) ∧
      BlockOf document blockSize input.2 :=
    fun input hinput => ⟨⟨input, hinput, rfl⟩, hblocks input hinput⟩
  rcases hstart with rfl | ⟨first, hfirst, hnum⟩
  · exact Assembling.run hdocument hsame hinputs .none hrun
  · cases inputs with
    | nil => cases hfirst
    | cons input inputs =>
      cases hfirst
      obtain ⟨next, reply, rest, hstep, hrest, rfl⟩ := Runs.run_cons_iff.mp hrun
      obtain ⟨htaken, hblock⟩ := hinputs first List.mem_cons_self
      obtain ⟨hnext, hwhole⟩ := Assembling.begin (fun r => ∃ i ∈ first :: inputs, i.2 = r)
        htaken hblock hnum (step_cases hstep)
      have hlater := Assembling.run hdocument hsame
        (fun i hi => hinputs i (List.mem_cons_of_mem _ hi)) hnext hrest
      intro r hr
      rcases List.mem_cons.mp hr with rfl | hr
      · exact hwhole
      · exact hlater r hr

/-- The message that carries a block. -/
def blockOf (document : List UInt8) (blockSize : UInt16) (mid : UInt16) (num : Nat) : Request where
  mid := mid
  payload := (document.drop (num * blockSize.toNat)).take blockSize.toNat
  blockSize := blockSize
  blockNum := UInt32.ofNat num
  blockMore := decide ((num + 1) * blockSize.toNat < document.length)

instance (document : List UInt8) (blockSize : UInt16) (r : Request) :
    Decidable (BlockOf document blockSize r) :=
  decidable_of_iff (r.blockSize = blockSize ∧
    (r.blockNum = 0 ∨ r.blockNum.toNat * blockSize.toNat < document.length) ∧
    r.payload = (document.drop (r.blockNum.toNat * blockSize.toNat)).take blockSize.toNat ∧
    r.blockMore = decide ((r.blockNum.toNat + 1) * blockSize.toNat < document.length))
    ⟨fun ⟨hsize, hinside, hpayload, hmore⟩ => ⟨hsize, hinside, hpayload, hmore⟩,
      fun h => ⟨h.size, h.inside, h.payload, h.more⟩⟩

/-- Twenty bytes in two blocks: the second one early, both twice. -/
def lateBlocks : List (Mallocs × Request) :=
  [(⟨true, true⟩, blockOf (List.replicate 20 7) 16 2 1),
    (⟨true, true⟩, blockOf (List.replicate 20 7) 16 1 0),
    (⟨true, true⟩, blockOf (List.replicate 20 7) 16 1 0),
    (⟨true, true⟩, blockOf (List.replicate 20 7) 16 2 1),
    (⟨true, true⟩, blockOf (List.replicate 20 7) 16 2 1)]

def lateReplies : List Reply :=
  [⟨reqEntityIncomplete408, none⟩, ⟨continue231, none⟩, ⟨continue231, none⟩,
    ⟨noError, some (some (List.replicate 20 7), 20)⟩,
    ⟨noError, some (some (List.replicate 20 7), 20)⟩]

theorem block1_whole_lateBlocks :
    Whole (List.replicate 20 7) ⟨noError, some (some (List.replicate 20 7), 20)⟩ :=
  block1_whole (List.replicate 20 7) 16 (by decide) lateBlocks (by decide +kernel)
    (by decide +kernel) none (some ⟨some (List.replicate 20 7), 20, 2⟩) lateReplies (.inl rfl)
    (by decide +kernel) ⟨noError, some (some (List.replicate 20 7), 20)⟩ (by decide +kernel)

/-! ## Delivery -/

def plenty : Mallocs := ⟨true, true⟩

/-- The transfer when the message `r` was the last one that was taken in. -/
def assembled (document : List UInt8) (blockSize : UInt16) (r : Request) : Option Block1Data :=
  some ⟨some (upTo document blockSize r), (upTo document blockSize r).length, r.mid⟩

def answerTo (document : List UInt8) (r : Request) : Reply :=
  if r.blockMore then ⟨continue231, none⟩ else ⟨noError, some (some document, document.length)⟩

section Delivery
variable {document : List UInt8} {blockSize : UInt16}

theorem BlockOf.answer {r : Request} (h : BlockOf document blockSize r) :
    blockAnswer ⟨some (upTo document blockSize r), (upTo document blockSize r).length, r.mid⟩
      r.blockMore = answerTo document r := by
  unfold blockAnswer answerTo
  split
  · rfl
  · next hmore => rw [h.last (Bool.eq_false_iff.mpr hmore)]

theorem step_first {data : Option Block1Data} {r : Request}
    (hblock : BlockOf document blockSize r) (hnum : r.blockNum = 0) :
    block1Step data (plenty, r) = some (assembled document blockSize r, answerTo document r) := by
  have hmalloc : ¬(data = none ∧ plenty.data = false) := fun h => Bool.noConfusion h.2
  show (coapBlock1Handler plenty data r).toOption = _
  unfold coapBlock1Handler
  rw [if_pos hnum, if_neg hmalloc, if_pos (show plenty.buffer = true from rfl)]
  dsimp only
  rw [hblock.first hnum, hblock.answer]
  rfl

theorem upTo_length (document : List UInt8) (blockSize : UInt16) (r : Request) :
    (upTo document blockSize r).length =
      min ((r.blockNum.toNat + 1) * blockSize.toNat) document.length :=
  List.length_take

/-- The block that follows is taken in, every other one changes nothing. -/
theorem step_later {r q : Request} (hsize : 0 < blockSize.toNat)
    (hdocument : document.length < maxBlock1Size) (hq : BlockOf document blockSize q)
    (hmid : q.mid = r.mid → q = r) (hnum : q.blockNum ≠ 0) :
    (q.blockNum.toNat = r.blockNum.toNat + 1 ∧
      block1Step (assembled document blockSize r) (plenty, q) =
        some (assembled document blockSize q, answerTo document q)) ∨
    (q.blockNum.toNat ≠ r.blockNum.toNat + 1 ∧ ∃ reply,
      block1Step (assembled document blockSize r) (plenty, q) =
        some (assembled document blockSize r, reply)) := by
  have hinside := hq.inside.resolve_left hnum
  have hoffset := hq.offset (hdocument.trans (by decide))
  have hlen := upTo_length document blockSize r
  have hrun : block1Step (assembled document blockSize r) (plenty, q) =
      (coapBlock1Handler plenty (assembled document blockSize r) q).toOption := rfl
  rw [hrun]
  unfold coapBlock1Handler assembled
  dsimp only
  rw [if_neg hnum]
  by_cases hsame : q.mid = r.mid
  · rw [if_neg (not_not.mpr hsame.symm)]
    refine .inr ⟨?_, _, rfl⟩
    rw [hmid hsame]
    omega
  rw [if_pos (Ne.symm hsame), hoffset]
  split
  · next hsize' =>
    refine .inr ⟨?_, _, rfl⟩
    intro heq
    rw [heq] at hinside hsize'
    omega
  · next hsize' =>
    rw [not_not] at hsize'
    have heq : (r.blockNum.toNat + 1) * blockSize.toNat = q.blockNum.toNat * blockSize.toNat := by
      omega
    have hlast := hq.append hnum hsize'
    rw [← upTo] at hlast
    have hshort : ¬ maxBlock1Size ≤ (upTo document blockSize r).length + q.payload.length := by
      rw [← List.length_append, hlast, upTo_length]
      omega
    rw [if_neg hshort, if_pos (show plenty.buffer = true from rfl), ← List.length_append, hlast,
      hq.answer]
    exact .inl ⟨(Nat.eq_of_mul_eq_mul_right hsize heq).symm, rfl⟩

/-- Whichever messages come, those that carry the blocks that are still missing, in their order,
complete the document. -/
theorem run_later {taken : Request → Prop} (hsize : 0 < blockSize.toNat)
    (hdocument : document.length < maxBlock1Size)
    (hmids : ∀ r r', taken r → taken r' → r.mid = r'.mid → r = r') {later : List Request}
    (hlater : ∀ q ∈ later, taken q ∧ BlockOf document blockSize q ∧ q.blockNum ≠ 0)
    {r : Request} (hr : taken r) (missing : Nat)
    (horder : (List.range' (r.blockNum.toNat + 1) missing).Sublist
      (later.map fun q => q.blockNum.toNat)) :
    ∃ data replies, Runs.run block1Step (assembled document blockSize r)
        (later.map (plenty, ·)) = some (data, replies) ∧
      (0 < missing → ∃ q ∈ later, q.blockNum.toNat = r.blockNum.toNat + missing ∧
        answerTo document q ∈ replies) := by
  induction later generalizing r missing with
  | nil =>
    refine ⟨_, [], rfl, fun hpos => ?_⟩
    have hlen := horder.length_le
    rw [List.length_range', List.map_nil, List.length_nil] at hlen
    omega
  | cons q later ih =>
    obtain ⟨htaken, hblock, hnum⟩ := hlater q List.mem_cons_self
    have hrest := fun p hp => hlater p (List.mem_cons_of_mem _ hp)
    rw [List.map_cons] at horder
    rcases step_later hsize hdocument hblock (hmids q r htaken hr) hnum with
      ⟨hnext, hstep⟩ | ⟨hother, reply, hstep⟩
    · cases missing with
      | zero =>
        obtain ⟨data, replies, hrun, _⟩ := ih hrest htaken 0 (List.nil_sublist _)
        exact ⟨data, _ :: replies, Runs.run_cons_iff.mpr ⟨_, _, _, hstep, hrun, rfl⟩,
          fun hpos => absurd hpos (Nat.lt_irrefl 0)⟩
      | succ missing =>
        rw [List.range'_succ, ← hnext, List.cons_sublist_cons] at horder
        obtain ⟨data, replies, hrun, hdone⟩ := ih hrest htaken missing horder
        refine ⟨data, _ :: replies, Runs.run_cons_iff.mpr ⟨_, _, _, hstep, hrun, rfl⟩, ?_⟩
        intro _
        by_cases hpos : 0 < missing
        · obtain ⟨p, hp, hpnum, hanswer⟩ := hdone hpos
          exact ⟨p, List.mem_cons_of_mem _ hp, by omega, List.mem_cons_of_mem _ hanswer⟩
        · exact ⟨q, List.mem_cons_self, by omega, List.mem_cons_self⟩
    · have hskip : (List.range' (r.blockNum.toNat + 1) missing).Sublist
          (later.map fun q => q.blockNum.toNat) := by
        cases missing with
        | zero => exact List.nil_sublist _
        | succ missing =>
          rw [List.range'_succ] at horder ⊢
          generalize q.blockNum.toNat = n at horder hother
          cases horder with
          | cons _ h => exact h
          | cons_cons _ h => exact absurd rfl hother
      obtain ⟨data, replies, hrun, hdone⟩ := ih hrest hr missing hskip
      refine ⟨data, reply :: replies, Runs.run_cons_iff.mpr ⟨_, _, _, hstep, hrun, rfl⟩, ?_⟩
      intro hpos
      obtain ⟨p, hp, hpnum, hanswer⟩ := hdone hpos
      exact ⟨p, List.mem_cons_of_mem _ hp, hpnum, List.mem_cons_of_mem _ hanswer⟩

end Delivery

/-- Messages that fit together: the first block, then each where the ones before it end. -/
inductive Chained : List Request → List UInt8 → Prop where
  | first (r : Request) : r.blockNum = 0 → Chained [r] r.payload
  | next {rs : List Request} {buffer : List UInt8} (r : Request) : Chained rs buffer →
      buffer.length = (r.blockSize.toUInt32 * r.blockNum).toNat →
      buffer.length + r.payload.length < maxBlock1Size → Chained (rs ++ [r]) (buffer ++ r.payload)

theorem Chained.length {rs : List Request} {buffer : List UInt8} (h : Chained rs buffer) :
    (∃ r, rs = [r]) ∨ buffer.length < maxBlock1Size := by
  cases h with
  | first r hnum => exact .inl ⟨r, rfl⟩
  | next r hchained hoffset hlarge =>
    rw [← List.length_append] at hlarge
    exact .inr hlarge

theorem Chained.bytes {rs : List Request} {buffer : List UInt8} (h : Chained rs buffer) :
    buffer = (rs.map Request.payload).flatten := by
  induction h with
  | first r hnum => simp
  | next r hchained hoffset hlarge ih => simp [ih]

/-- What has been sent accounts for a buffer. -/
def Sent (past : List (Mallocs × Request)) (buffer : List UInt8) : Prop :=
  ∃ rs, rs.Sublist (past.map Prod.snd) ∧ Chained rs buffer

theorem Sent.append {past : List (Mallocs × Request)} {buffer : List UInt8}
    (h : Sent past buffer) (input : Mallocs × Request) : Sent (past ++ [input]) buffer := by
  obtain ⟨rs, hsub, hchained⟩ := h
  refine ⟨rs, ?_, hchained⟩
  rw [List.map_append]
  exact hsub.trans (List.sublist_append_left _ _)

theorem Sent.first (past : List (Mallocs × Request)) {input : Mallocs × Request}
    (hnum : input.2.blockNum = 0) : Sent (past ++ [input]) input.2.payload := by
  refine ⟨[input.2], ?_, .first input.2 hnum⟩
  rw [List.map_append]
  exact List.sublist_append_right _ _

theorem Sent.next {past : List (Mallocs × Request)} {buffer : List UInt8} (h : Sent past buffer)
    {input : Mallocs × Request}
    (hoffset : buffer.length = (input.2.blockSize.toUInt32 * input.2.blockNum).toNat)
    (hlarge : buffer.length + input.2.payload.length < maxBlock1Size) :
    Sent (past ++ [input]) (buffer ++ input.2.payload) := by
  obtain ⟨rs, hsub, hchained⟩ := h
  refine ⟨rs ++ [input.2], ?_, .next input.2 hchained hoffset hlarge⟩
  rw [List.map_append]
  exact hsub.append (List.Sublist.refl _)

/-- A buffer is as long as its size says and was sent. -/
def Accounted (past : List (Mallocs × Request)) (data : Option Block1Data) : Prop :=
  ∀ d buffer, data = some d → d.block1buffer = some buffer →
    d.block1bufferSize = buffer.length ∧ Sent past buffer

theorem Accounted.none (past : List (Mallocs × Request)) : Accounted past none :=
  fun _ _ hd => nomatch hd

theorem Accounted.append {past : List (Mallocs × Request)} {data : Option Block1Data}
    (h : Accounted past data) (input : Mallocs × Request) : Accounted (past ++ [input]) data :=
  fun d buffer hd hbuffer => ⟨(h d buffer hd hbuffer).1, (h d buffer hd hbuffer).2.append input⟩

def HandedOn (past : List (Mallocs × Request)) (reply : Reply) : Prop :=
  ∀ buffer size, reply.output = some (some buffer, size) → size = buffer.length ∧ Sent past buffer

theorem HandedOn.answer {past : List (Mallocs × Request)} {d : Block1Data}
    (h : Accounted past (some d)) (blockMore : Bool) : HandedOn past (blockAnswer d blockMore) := by
  intro buffer size houtput
  unfold blockAnswer at houtput
  split at houtput
  · cases houtput
  · obtain ⟨hbuffer, hsize⟩ := Prod.mk.inj (Option.some.inj houtput)
    rw [← hsize]
    exact h d buffer rfl hbuffer

theorem HandedOn.none (past : List (Mallocs × Request)) (code : UInt8) :
    HandedOn past ⟨code, none⟩ :=
  fun _ _ houtput => nomatch houtput

theorem accounted_step {past : List (Mallocs × Request)} {data data' : Option Block1Data}
    {input : Mallocs × Request} {reply : Reply} (h : Accounted past data)
    (hstep : Handled input.1 data input.2 data' reply) :
    Accounted (past ++ [input]) data' ∧ HandedOn (past ++ [input]) reply := by
  cases hstep with
  | first hnum hbuffer hdata =>
    have hnext : Accounted (past ++ [input])
        (some ⟨some input.2.payload, input.2.payload.length, input.2.mid⟩) := by
      intro d buffer hd hb
      cases hd
      cases hb
      exact ⟨rfl, Sent.first past hnum⟩
    exact ⟨hnext, .answer hnext _⟩
  | noRecord hnum hdata hmalloc => exact ⟨.none _, .none _ _⟩
  | refused code hnum hcode => exact ⟨h.append input, .none _ code⟩
  | again d hnum hdata hmid =>
    rw [hdata] at h ⊢
    exact ⟨h.append input, .answer (h.append input) _⟩
  | noBuffer d hnum hdata hbuffer hsize =>
    refine ⟨?_, .none _ _⟩
    intro d' buffer hd hb
    cases hd
    cases hb
  | next d oldBuffer hnum hdata hmid hold hsize hlarge =>
    obtain ⟨hlen, hsent⟩ := h d oldBuffer hdata hold
    rw [hlen] at hsize hlarge
    have hnext : Accounted (past ++ [input]) (some ⟨some (oldBuffer ++ input.2.payload),
        d.block1bufferSize + input.2.payload.length, input.2.mid⟩) := by
      intro d' buffer hd hb
      cases hd
      cases hb
      refine ⟨?_, hsent.next hsize hlarge⟩
      rw [List.length_append, hlen]
    exact ⟨hnext, .answer hnext _⟩

/-- Whatever a server sends, in whatever order and however its options lie: what is handed on are
payloads that it sent, each where its option says, and beyond one message it is below the limit. -/
theorem block1_accounted (inputs : List (Mallocs × Request)) (data : Option Block1Data)
    (replies : List Reply) (hrun : Runs.run block1Step none inputs = some (data, replies))
    (code : UInt8) (buffer : List UInt8) (size : Nat)
    (hreply : ⟨code, some (some buffer, size)⟩ ∈ replies) :
    size = buffer.length ∧ ∃ rs, rs.Sublist (inputs.map Prod.snd) ∧ Chained rs buffer ∧
      buffer = (rs.map Request.payload).flatten ∧
      ((∃ r, rs = [r]) ∨ buffer.length < maxBlock1Size) := by
  have hall : Accounted inputs data ∧ ∀ reply ∈ replies, HandedOn inputs reply := by
    refine Runs.run_history (P := fun past seen s => Accounted past s ∧
      ∀ reply ∈ seen, HandedOn past reply) ?_ ?_ hrun
    · rintro past seen s input t reply ⟨hs, hseen⟩ hstep
      obtain ⟨ht, hreply⟩ := accounted_step hs (step_cases hstep)
      refine ⟨ht, fun r hr => ?_⟩
      rcases List.mem_append.mp hr with hr | hr
      · intro b n houtput
        exact ⟨(hseen r hr b n houtput).1, (hseen r hr b n houtput).2.append input⟩
      · rw [List.mem_singleton.mp hr]
        exact hreply
    · exact ⟨.none [], fun reply hr => nomatch hr⟩
  obtain ⟨hsize, rs, hsub, hchained⟩ := hall.2 _ hreply buffer size rfl
  exact ⟨hsize, rs, hsub, hchained, hchained.bytes, hchained.length⟩

theorem block1_accounted_lateBlocks :
    20 = (List.replicate 20 (7 : UInt8)).length ∧
      ∃ rs, rs.Sublist (lateBlocks.map Prod.snd) ∧ Chained rs (List.replicate 20 7) ∧
        List.replicate 20 7 = (rs.map Request.payload).flatten ∧
        ((∃ r, rs = [r]) ∨ (List.replicate 20 (7 : UInt8)).length < maxBlock1Size) :=
  block1_accounted lateBlocks (some ⟨some (List.replicate 20 7), 20, 2⟩) lateReplies
    (by decide +kernel) noError (List.replicate 20 7) 20 (by decide +kernel)

end JsEmbeddedPlatform.Block1
