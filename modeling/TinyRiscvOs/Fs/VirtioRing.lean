import TinyRiscvOs.Lib.Run
import TinyRiscvOs.Fs.Virtio
import TinyRiscvOs.Mm.BuddyInit

/-!
# The request ring of `virtio.c`

The driver and the device share three pages: descriptors, the ring of available
heads, the ring of used ones.  Each side advances an index of its own.  The
device starts at index zero; the driver never initialises its index or the ring
and stores the head one slot ahead of the one the device reads next.  Buffers
are taken to lie outside the three pages.
-/

namespace TinyRiscvOs.Fs

open TinyRiscvOs.Lib
open TinyRiscvOs.Mm (pa2vaOffset wordSub)

/-! ## The shared pages -/

/-- `uint16_t` arithmetic of the ring indices is modulo this number. -/
abbrev word16 : Nat := 2 ^ 16

/-- `VIRTIO_QUEUE_SIZE`. -/
abbrev queueSize : Nat := 16

/-- `VIRTQ_DESC_F_NEXT`. -/
abbrev descNext : Nat := 1

/-- `VIRTQ_DESC_F_WRITE`. -/
abbrev descWrite : Nat := 2

/-- `struct virtio_desc`. -/
structure VirtioDesc where
  addr : Nat
  len : Nat
  flags : Nat
  next : Nat
deriving DecidableEq, Repr

/-- `struct virtio_avail`. -/
structure VirtioAvail where
  flags : Nat
  idx : Fin word16
  ring : Nat → Nat

/-- `struct vring`; of `struct virtio_used` the driver reads the index only. -/
structure Vring where
  desc : Nat → VirtioDesc
  avail : VirtioAvail
  usedIdx : Fin word16

/-- `virt_to_phys`. -/
def virtToPhys (va : Nat) : Nat :=
  wordSub va pa2vaOffset

/-- `virtio_blk_queue_init` on pages with any content. -/
def virtioBlkQueueInit (pages : Vring) : Vring where
  desc := (List.range' 1 (queueSize - 1)).foldl
    (fun desc i => Function.update desc (i - 1) { desc (i - 1) with next := i })
    pages.desc
  avail := { pages.avail with flags := 1 }
  usedIdx := pages.usedIdx

/-! ## The driver -/

/-- Addresses of the variables `virtio_blk_req` and `virtio_blk_status`. -/
structure Symbols where
  virtioBlkReq : Nat
  virtioBlkStatus : Nat
deriving DecidableEq, Repr

/-- A call of `virtio_blk_read_sector` or `virtio_blk_write_sector`. -/
structure BlkCall where
  type : RequestType
  sector : Nat
  buf : Nat
deriving DecidableEq, Repr

/-- The descriptors that `virtio_blk_cmd` writes. -/
def cmdDesc (symbols : Symbols) (blkCall : BlkCall) (desc : Nat → VirtioDesc) :
    Nat → VirtioDesc :=
  let header : VirtioDesc :=
    { addr := virtToPhys symbols.virtioBlkReq, len := 16, flags := descNext,
      next := 1 }
  let data : VirtioDesc :=
    { addr := virtToPhys blkCall.buf, len := sectorSize,
      flags := match blkCall.type with
        | .input => descWrite ||| descNext
        | .output => descNext
      next := 2 }
  let status : VirtioDesc :=
    { desc 2 with
      addr := virtToPhys symbols.virtioBlkStatus, len := 1, flags := descWrite }
  Function.update (Function.update (Function.update desc 0 header) 1 data) 2
    status

/-- Where a call of the driver stands; `original` is `original_idx`. -/
inductive DriverPhase where
  | idle
  | entered (blkCall : BlkCall) (original : Fin word16)
  | filled (original : Fin word16)
  | offered (original : Fin word16)
  | waiting (original : Fin word16)

/-! ## The device -/

/-- A buffer as the device sees it. -/
structure Segment where
  addr : Nat
  len : Nat
  writable : Bool
deriving DecidableEq, Repr

/-- The chain behind a head, of at most as many descriptors as the ring has. -/
def chain (desc : Nat → VirtioDesc) : Nat → Nat → List Segment
  | 0, _ => []
  | fuel + 1, head =>
      let segment : Segment :=
        { addr := (desc head).addr, len := (desc head).len,
          writable := (desc head).flags &&& descWrite != 0 }
      if (desc head).flags &&& descNext = 0 then [segment]
      else segment :: chain desc fuel (desc head).next

/-- A request the device has processed. -/
structure Request where
  head : Nat
  segments : List Segment
  header : Option VirtioBlkReq
deriving DecidableEq, Repr

/-- The driver, the pages and the device. -/
structure BlkState where
  vring : Vring
  /-- The variable `virtio_blk_req`. -/
  virtioBlkReq : VirtioBlkReq
  /-- `DEVICE_DRIVER_OK` is set in the status register. -/
  driverOk : Bool
  phase : DriverPhase
  /-- Calls still to be made. -/
  pending : List BlkCall
  /-- Calls made so far. -/
  made : List BlkCall
  /-- Requests the device has taken, as it counts them. -/
  taken : Fin word16
  /-- Requests the device has processed. -/
  processed : List Request

/-- The head the device takes next. -/
def BlkState.head (state : BlkState) : Nat :=
  state.vring.avail.ring (state.taken.val % queueSize)

/-- The request behind a head; the header is read where the chain says. -/
def BlkState.request (symbols : Symbols) (state : BlkState) (head : Nat) :
    Request where
  head := head
  segments := chain state.vring.desc queueSize head
  header :=
    if (state.vring.desc head).addr = virtToPhys symbols.virtioBlkReq then
      some state.virtioBlkReq
    else none

/-- The device processes one request and reports it as used. -/
def BlkState.serve (symbols : Symbols) (state : BlkState) : BlkState :=
  { state with
    processed := state.processed ++ [state.request symbols state.head]
    taken := state.taken + 1
    vring := { state.vring with usedIdx := state.taken + 1 } }

/-- `virtio_blk_cmd` up to the descriptors, and the status register. -/
def BlkState.fill (symbols : Symbols) (state : BlkState) (blkCall : BlkCall)
    (original : Fin word16) : BlkState :=
  { state with
    virtioBlkReq := virtioBlkCmd blkCall.type blkCall.sector
    vring :=
      { state.vring with desc := cmdDesc symbols blkCall state.vring.desc }
    driverOk := true
    phase := .filled original }

/-- The head is stored in the slot of the next index. -/
def BlkState.offer (state : BlkState) (original : Fin word16) : BlkState :=
  { state with
    vring :=
      { state.vring with
        avail :=
          { state.vring.avail with
            ring := Function.update state.vring.avail.ring
              ((state.vring.avail.idx.val + 1) % queueSize) 0 } }
    phase := .offered original }

/-- The index is advanced and the device notified. -/
def BlkState.publish (state : BlkState) (original : Fin word16) : BlkState :=
  { state with
    vring :=
      { state.vring with
        avail :=
          { state.vring.avail with idx := state.vring.avail.idx + 1 } }
    phase := .waiting original }

/-- The moves of the two sides; a driver that polls in vain does not move. -/
inductive BlkEvent where
  | enter
  | fill
  | offer
  | publish
  | serve
  | leave
deriving DecidableEq, Repr

/-- The driver goes through its code, the device serves whenever it is behind. -/
inductive BlkStep (symbols : Symbols) :
    BlkState → BlkEvent → BlkState → Prop where
  | enter {state : BlkState} {blkCall : BlkCall} {rest : List BlkCall}
      (phase : state.phase = .idle) (next : state.pending = blkCall :: rest) :
      BlkStep symbols state .enter
        { state with
          pending := rest
          made := state.made ++ [blkCall]
          phase := .entered blkCall state.vring.usedIdx }
  | fill {state : BlkState} {blkCall : BlkCall} {original : Fin word16}
      (phase : state.phase = .entered blkCall original) :
      BlkStep symbols state .fill (state.fill symbols blkCall original)
  | offer {state : BlkState} {original : Fin word16}
      (phase : state.phase = .filled original) :
      BlkStep symbols state .offer (state.offer original)
  | publish {state : BlkState} {original : Fin word16}
      (phase : state.phase = .offered original) :
      BlkStep symbols state .publish (state.publish original)
  | serve {state : BlkState} (started : state.driverOk = true)
      (behind : state.vring.avail.idx ≠ state.taken) :
      BlkStep symbols state .serve (state.serve symbols)
  | leave {state : BlkState} {original : Fin word16}
      (phase : state.phase = .waiting original)
      (used : state.vring.usedIdx ≠ original) :
      BlkStep symbols state .leave { state with phase := .idle }

/-- The driver is about to make the calls, on pages with any content. -/
def blkStart (pages : Vring) (calls : List BlkCall) : BlkState where
  vring := virtioBlkQueueInit pages
  virtioBlkReq := { type := .input, sector := 0 }
  driverOk := false
  phase := .idle
  pending := calls
  made := []
  taken := 0
  processed := []

/-! ## The protocol -/

/-- The request that a call asks for. -/
def BlkCall.request (symbols : Symbols) (blkCall : BlkCall) : Request where
  head := 0
  segments :=
    [{ addr := virtToPhys symbols.virtioBlkReq, len := 16, writable := false },
      { addr := virtToPhys blkCall.buf, len := sectorSize,
        writable := blkCall.type = .input },
      { addr := virtToPhys symbols.virtioBlkStatus, len := 1,
        writable := true }]
  header := some { type := blkCall.type, sector := blkCall.sector }

/-- The device processes one request for each call made, in order, and all in the end. -/
structure Conforms (symbols : Symbols) (pages : Vring) (calls : List BlkCall) :
    Prop where
  ordered : ∀ events state,
    Run (BlkStep symbols) (blkStart pages calls) events state →
    state.processed <+: state.made.map (BlkCall.request symbols)
  bounded : ∀ events state,
    Run (BlkStep symbols) (blkStart pages calls) events state →
    events.length ≤ 6 * calls.length
  complete : ∀ events state,
    Run (BlkStep symbols) (blkStart pages calls) events state →
    (∀ event next, ¬ BlkStep symbols state event next) →
    state.processed = calls.map (BlkCall.request symbols)

/-! ## The indices -/

/-- The index after some requests. -/
def counter (requests : Nat) : Fin word16 :=
  Fin.ofNat word16 requests

theorem counter_val (requests : Nat) :
    (counter requests).val = requests % word16 :=
  rfl

theorem counter_succ (requests : Nat) :
    counter requests + 1 = counter (requests + 1) := by
  apply Fin.ext
  rw [Fin.val_add, counter_val, counter_val]
  exact Nat.mod_add_mod _ _ _

theorem counter_succ_ne (requests : Nat) :
    counter (requests + 1) ≠ counter requests := by
  intro same
  have values := congrArg Fin.val same
  simp only [counter_val, word16] at values
  omega

theorem succ_injective {left right : Fin word16} (same : left + 1 = right + 1) :
    left = right := by
  have values := congrArg Fin.val same
  have one : (1 : Fin word16).val = 1 := rfl
  simp only [Fin.val_add, one, word16] at values
  have leftSmall := left.isLt
  have rightSmall := right.isLt
  apply Fin.ext
  omega

/-- `used->idx` after some requests; before the first it is what the page held. -/
def usedAfter (pages : Vring) : Nat → Fin word16
  | 0 => pages.usedIdx
  | served + 1 => counter (served + 1)

/-- The slot of an index is that of the number it counts. -/
theorem counter_slot (requests : Nat) :
    (counter requests).val % queueSize = requests % queueSize := by
  simp only [counter_val, word16, queueSize]
  omega

theorem counter_succ_slot (requests : Nat) :
    ((counter requests).val + 1) % queueSize = (requests + 1) % queueSize := by
  simp only [counter_val, word16, queueSize]
  omega

/-! ## What the device sees of a call -/

/-- The request of a call as `virtio_blk_cmd` writes it. -/
def BlkCall.written (symbols : Symbols) (blkCall : BlkCall) : Request :=
  { blkCall.request symbols with
    header := some (virtioBlkCmd blkCall.type blkCall.sector) }

theorem BlkCall.written_eq_request {symbols : Symbols} {blkCall : BlkCall} :
    blkCall.written symbols = blkCall.request symbols ↔
      blkCall.sector < word32 := by
  simp only [written, request, virtioBlkCmd, Request.mk.injEq, Option.some_inj,
    VirtioBlkReq.mk.injEq, true_and]
  exact Nat.mod_eq_iff_lt (by decide)

/-- The descriptors and the header are those of the call. -/
structure Filled (symbols : Symbols) (blkCall : BlkCall) (state : BlkState) :
    Prop where
  desc : ∃ before, state.vring.desc = cmdDesc symbols blkCall before
  header : state.virtioBlkReq = virtioBlkCmd blkCall.type blkCall.sector
  driverOk : state.driverOk = true

theorem chain_cmdDesc (symbols : Symbols) (blkCall : BlkCall)
    (before : Nat → VirtioDesc) :
    chain (cmdDesc symbols blkCall before) queueSize 0 =
      (blkCall.request symbols).segments := by
  rcases blkCall with ⟨_ | _, sector, buf⟩ <;>
    simp [chain, cmdDesc, BlkCall.request, Function.update]

theorem Filled.request_eq {symbols : Symbols} {blkCall : BlkCall}
    {state : BlkState} (filled : Filled symbols blkCall state) :
    state.request symbols 0 = blkCall.written symbols := by
  obtain ⟨before, desc⟩ := filled.desc
  have first : (state.vring.desc 0).addr = virtToPhys symbols.virtioBlkReq := by
    rw [desc]
    rfl
  rw [BlkState.request, if_pos first, filled.header, desc, chain_cmdDesc]
  rfl

/-! ## The invariant -/

/-- Calls begun, heads published and requests served. -/
structure Counters (symbols : Symbols) (pages : Vring) (calls : List BlkCall)
    (begun published served : Nat) (state : BlkState) : Prop where
  made : state.made = calls.take begun
  pending : state.pending = calls.drop begun
  within : begun ≤ calls.length
  idx : state.vring.avail.idx = counter published
  slots : ∀ request, served ≤ request → request ≤ published →
    state.vring.avail.ring (request % queueSize) = 0
  taken : state.taken = counter served
  used : state.vring.usedIdx = usedAfter pages served
  processed : state.processed =
    (calls.take served).map (BlkCall.written symbols)

/-- The states of a run, by the number of moves made. -/
inductive Reach (symbols : Symbols) (pages : Vring) (calls : List BlkCall) :
    Nat → BlkState → Prop where
  | idle {k : Nat} {state : BlkState} (phase : state.phase = .idle)
      (counters : Counters symbols pages calls k k k state) :
      Reach symbols pages calls (6 * k) state
  | entered {k : Nat} {state : BlkState} {blkCall : BlkCall}
      (phase : state.phase = .entered blkCall (usedAfter pages k))
      (current : calls[k]? = some blkCall)
      (counters : Counters symbols pages calls (k + 1) k k state) :
      Reach symbols pages calls (6 * k + 1) state
  | filled {k : Nat} {state : BlkState} {blkCall : BlkCall}
      (phase : state.phase = .filled (usedAfter pages k))
      (current : calls[k]? = some blkCall)
      (isFilled : Filled symbols blkCall state)
      (counters : Counters symbols pages calls (k + 1) k k state) :
      Reach symbols pages calls (6 * k + 2) state
  | offered {k : Nat} {state : BlkState} {blkCall : BlkCall}
      (phase : state.phase = .offered (usedAfter pages k))
      (current : calls[k]? = some blkCall)
      (isFilled : Filled symbols blkCall state)
      (slot : state.vring.avail.ring ((k + 1) % queueSize) = 0)
      (counters : Counters symbols pages calls (k + 1) k k state) :
      Reach symbols pages calls (6 * k + 3) state
  | published {k : Nat} {state : BlkState} {blkCall : BlkCall}
      (phase : state.phase = .waiting (usedAfter pages k))
      (current : calls[k]? = some blkCall)
      (isFilled : Filled symbols blkCall state)
      (counters : Counters symbols pages calls (k + 1) (k + 1) k state) :
      Reach symbols pages calls (6 * k + 4) state
  | served {k : Nat} {state : BlkState}
      (phase : state.phase = .waiting (usedAfter pages k))
      (counters :
        Counters symbols pages calls (k + 1) (k + 1) (k + 1) state) :
      Reach symbols pages calls (6 * k + 5) state

section Steps

variable {symbols : Symbols} {pages : Vring} {calls : List BlkCall} {n k : Nat}
    {state next : BlkState} {event : BlkEvent} {blkCall : BlkCall}

namespace Counters

variable {begun published served : Nat}

/-- A call is made. -/
theorem enter {rest : List BlkCall} (phase : DriverPhase)
    (counters : Counters symbols pages calls begun published served state)
    (nextCall : state.pending = blkCall :: rest) :
    calls[begun]? = some blkCall ∧
      Counters symbols pages calls (begun + 1) published served
        { state with
          pending := rest
          made := state.made ++ [blkCall]
          phase := phase } := by
  have split : calls.drop begun = blkCall :: rest :=
    counters.pending.symm.trans nextCall
  have current : calls[begun]? = some blkCall := by
    rw [← List.head?_drop, split, List.head?_cons]
  obtain ⟨inside, value⟩ := List.getElem?_eq_some_iff.1 current
  have tail : rest = calls.drop (begun + 1) := by
    rw [← List.tail_drop, split, List.tail_cons]
  have longer : state.made ++ [blkCall] = calls.take (begun + 1) := by
    rw [counters.made, ← value, List.take_append_getElem]
  exact ⟨current, { counters with
    made := longer
    pending := tail
    within := inside }⟩

theorem fill {original : Fin word16}
    (counters : Counters symbols pages calls begun published served state) :
    Counters symbols pages calls begun published served
      (state.fill symbols blkCall original) :=
  { counters with }

theorem offer {original : Fin word16}
    (counters : Counters symbols pages calls begun published served state) :
    Counters symbols pages calls begun published served
        (state.offer original) ∧
      (state.offer original).vring.avail.ring
        ((published + 1) % queueSize) = 0 := by
  have target : (state.vring.avail.idx.val + 1) % queueSize =
      (published + 1) % queueSize := by
    rw [counters.idx, counter_succ_slot]
  constructor
  · refine { counters with slots := fun request lower upper => ?_ }
    simp only [BlkState.offer, Function.update_apply]
    split
    · rfl
    · exact counters.slots request lower upper
  · simp only [BlkState.offer, target, Function.update_self]

theorem publish {original : Fin word16}
    (counters : Counters symbols pages calls begun published served state)
    (slot : state.vring.avail.ring ((published + 1) % queueSize) = 0) :
    Counters symbols pages calls begun (published + 1) served
      (state.publish original) where
  __ := counters
  idx := by
    simp only [BlkState.publish, counters.idx, counter_succ]
  slots request lower upper := by
    rcases Nat.lt_or_eq_of_le upper with below | rfl
    · exact counters.slots request lower (Nat.le_of_lt_succ below)
    · exact slot

/-- The head is `0` for every request between the two indices. -/
theorem head (counters : Counters symbols pages calls begun published served
    state) (ordered : served ≤ published) : state.head = 0 := by
  rw [BlkState.head, counters.taken, counter_slot]
  exact counters.slots served (Nat.le_refl _) ordered

theorem serve
    (counters : Counters symbols pages calls begun published served state)
    (ordered : served ≤ published) (current : calls[served]? = some blkCall)
    (filled : Filled symbols blkCall state) :
    Counters symbols pages calls begun published (served + 1)
      (state.serve symbols) where
  __ := counters
  slots request lower upper :=
    counters.slots request (Nat.le_of_succ_le lower) upper
  taken := by
    simp only [BlkState.serve, counters.taken, counter_succ]
  used := by
    simp only [BlkState.serve, counters.taken, counter_succ, usedAfter]
  processed := by
    obtain ⟨inside, value⟩ := List.getElem?_eq_some_iff.1 current
    have longer : (calls.take (served + 1)).map (BlkCall.written symbols) =
        (calls.take served).map (BlkCall.written symbols) ++
          [blkCall.written symbols] := by
      rw [← List.take_append_getElem inside, value, List.map_append,
        List.map_singleton]
    simp only [BlkState.serve, counters.head ordered, filled.request_eq,
      counters.processed, longer]

theorem leave
    (counters : Counters symbols pages calls begun published served state) :
    Counters symbols pages calls begun published served
      { state with phase := .idle } :=
  { counters with }

end Counters

namespace Reach

/-- The start, when the index and the first slot of the page are zero. -/
theorem start (idx : pages.avail.idx = 0) (slot : pages.avail.ring 0 = 0) :
    Reach symbols pages calls 0 (blkStart pages calls) :=
  .idle (k := 0) rfl
    { made := rfl
      pending := rfl
      within := Nat.zero_le _
      idx := idx
      slots := by
        intro request _ upper
        obtain rfl := Nat.le_zero.1 upper
        exact slot
      taken := rfl
      used := rfl
      processed := rfl }

theorem ofIdle (reach : Reach symbols pages calls n state)
    (phase : state.phase = .idle) :
    ∃ k, n = 6 * k ∧ Counters symbols pages calls k k k state := by
  rcases reach with ⟨_, counters⟩ | ⟨other⟩ | ⟨other⟩ | ⟨other⟩ | ⟨other⟩ |
    ⟨other⟩
  · exact ⟨_, rfl, counters⟩
  all_goals cases phase.symm.trans other

theorem ofEntered {original : Fin word16}
    (reach : Reach symbols pages calls n state)
    (phase : state.phase = .entered blkCall original) :
    ∃ k, n = 6 * k + 1 ∧ original = usedAfter pages k ∧
      calls[k]? = some blkCall ∧
      Counters symbols pages calls (k + 1) k k state := by
  rcases reach with ⟨other⟩ | ⟨here, current, counters⟩ | ⟨other⟩ | ⟨other⟩ |
    ⟨other⟩ | ⟨other⟩
  · cases phase.symm.trans other
  · cases phase.symm.trans here
    exact ⟨_, rfl, rfl, current, counters⟩
  all_goals cases phase.symm.trans other

theorem ofFilled {original : Fin word16}
    (reach : Reach symbols pages calls n state)
    (phase : state.phase = .filled original) :
    ∃ k blkCall, n = 6 * k + 2 ∧ original = usedAfter pages k ∧
      calls[k]? = some blkCall ∧ Filled symbols blkCall state ∧
      Counters symbols pages calls (k + 1) k k state := by
  rcases reach with ⟨other⟩ | ⟨other⟩ | ⟨here, current, filled, counters⟩ |
    ⟨other⟩ | ⟨other⟩ | ⟨other⟩
  · cases phase.symm.trans other
  · cases phase.symm.trans other
  · cases phase.symm.trans here
    exact ⟨_, _, rfl, rfl, current, filled, counters⟩
  all_goals cases phase.symm.trans other

theorem ofOffered {original : Fin word16}
    (reach : Reach symbols pages calls n state)
    (phase : state.phase = .offered original) :
    ∃ k blkCall, n = 6 * k + 3 ∧ original = usedAfter pages k ∧
      calls[k]? = some blkCall ∧ Filled symbols blkCall state ∧
      state.vring.avail.ring ((k + 1) % queueSize) = 0 ∧
      Counters symbols pages calls (k + 1) k k state := by
  rcases reach with ⟨other⟩ | ⟨other⟩ | ⟨other⟩ |
    ⟨here, current, filled, slot, counters⟩ | ⟨other⟩ | ⟨other⟩
  iterate 3 cases phase.symm.trans other
  · cases phase.symm.trans here
    exact ⟨_, _, rfl, rfl, current, filled, slot, counters⟩
  all_goals cases phase.symm.trans other

theorem ofWaiting {original : Fin word16}
    (reach : Reach symbols pages calls n state)
    (phase : state.phase = .waiting original) :
    ∃ k, original = usedAfter pages k ∧
      ((n = 6 * k + 4 ∧
          Counters symbols pages calls (k + 1) (k + 1) k state ∧
          ∃ blkCall, calls[k]? = some blkCall ∧
            Filled symbols blkCall state) ∨
        (n = 6 * k + 5 ∧
          Counters symbols pages calls (k + 1) (k + 1) (k + 1) state)) := by
  rcases reach with ⟨other⟩ | ⟨other⟩ | ⟨other⟩ | ⟨other⟩ |
    ⟨here, current, filled, counters⟩ | ⟨here, counters⟩
  iterate 4 cases phase.symm.trans other
  · cases phase.symm.trans here
    exact ⟨_, rfl, Or.inl ⟨rfl, counters, _, current, filled⟩⟩
  · cases phase.symm.trans here
    exact ⟨_, rfl, Or.inr ⟨rfl, counters⟩⟩

/-- The device is behind only when a head is published and not served. -/
theorem ofBehind (reach : Reach symbols pages calls n state)
    (behind : state.vring.avail.idx ≠ state.taken) :
    ∃ k blkCall, n = 6 * k + 4 ∧
      state.phase = .waiting (usedAfter pages k) ∧
      calls[k]? = some blkCall ∧ Filled symbols blkCall state ∧
      Counters symbols pages calls (k + 1) (k + 1) k state := by
  have level {begun served : Nat}
      (counters : Counters symbols pages calls begun served served state) :
      False :=
    behind (counters.idx.trans counters.taken.symm)
  rcases reach with ⟨_, counters⟩ | ⟨_, _, counters⟩ | ⟨_, _, _, counters⟩ |
    ⟨_, _, _, _, counters⟩ | ⟨phase, current, filled, counters⟩ |
    ⟨_, counters⟩
  iterate 4 exact (level counters).elim
  · exact ⟨_, _, rfl, phase, current, filled, counters⟩
  · exact (level counters).elim

/-- One move of either side. -/
theorem step (reach : Reach symbols pages calls n state)
    (taken : BlkStep symbols state event next) :
    Reach symbols pages calls (n + 1) next := by
  cases taken with
  | enter phase nextCall =>
      obtain ⟨k, rfl, counters⟩ := reach.ofIdle phase
      obtain ⟨current, entered⟩ :=
        counters.enter (.entered _ state.vring.usedIdx) nextCall
      exact .entered (by rw [counters.used]) current entered
  | fill phase =>
      obtain ⟨k, rfl, rfl, current, counters⟩ := reach.ofEntered phase
      exact .filled rfl current ⟨⟨_, rfl⟩, rfl, rfl⟩ counters.fill
  | offer phase =>
      obtain ⟨k, _, rfl, rfl, current, filled, counters⟩ :=
        reach.ofFilled phase
      obtain ⟨offered, slot⟩ := counters.offer
      exact .offered rfl current
        ⟨filled.desc, filled.header, filled.driverOk⟩ slot offered
  | publish phase =>
      obtain ⟨k, _, rfl, rfl, current, filled, slot, counters⟩ :=
        reach.ofOffered phase
      exact .published rfl current
        ⟨filled.desc, filled.header, filled.driverOk⟩ (counters.publish slot)
  | serve started behind =>
      obtain ⟨k, _, rfl, phase, current, filled, counters⟩ :=
        reach.ofBehind behind
      exact .served phase (counters.serve (Nat.le_succ k) current filled)
  | leave phase used =>
      obtain ⟨k, rfl, ⟨rfl, counters, _⟩ | ⟨rfl, counters⟩⟩ :=
        reach.ofWaiting phase
      · exact absurd counters.used used
      · exact .idle (k := k + 1) rfl counters.leave

theorem run {events : List BlkEvent} (idx : pages.avail.idx = 0)
    (slot : pages.avail.ring 0 = 0)
    (run : Run (BlkStep symbols) (blkStart pages calls) events state) :
    Reach symbols pages calls events.length state := by
  induction run with
  | nil => exact start idx slot
  | snoc _ taken induction =>
      rw [List.length_append, List.length_singleton]
      exact induction.step taken

theorem counters (reach : Reach symbols pages calls n state) :
    ∃ begun published served, served ≤ begun ∧ n ≤ 6 * begun ∧
      Counters symbols pages calls begun published served state := by
  rcases reach with ⟨_, counters⟩ | ⟨_, _, counters⟩ | ⟨_, _, _, counters⟩ |
    ⟨_, _, _, _, counters⟩ | ⟨_, _, _, counters⟩ | ⟨_, counters⟩ <;>
    exact ⟨_, _, _, by omega, by omega, counters⟩

theorem bounded (reach : Reach symbols pages calls n state) :
    n ≤ 6 * calls.length := by
  obtain ⟨_, _, _, _, moves, counters⟩ := reach.counters
  have within := counters.within
  omega

/-- The device has processed a request for each of the first calls. -/
theorem ordered (reach : Reach symbols pages calls n state) :
    state.processed <+: state.made.map (BlkCall.written symbols) := by
  obtain ⟨begun, _, served, before, _, counters⟩ := reach.counters
  rw [counters.processed, counters.made]
  exact (List.take_prefix_take_left before).map _

/--
Where no side can move, all is done, or the driver waits for an index that its
page held from the start.
-/
theorem final (reach : Reach symbols pages calls n state)
    (stuck : ∀ event next, ¬ BlkStep symbols state event next) :
    state.processed = calls.map (BlkCall.written symbols) ∨
      (pages.usedIdx = 1 ∧
        state.processed = (calls.take 1).map (BlkCall.written symbols)) := by
  rcases reach with ⟨phase, counters⟩ | ⟨phase⟩ | ⟨phase⟩ | ⟨phase⟩ |
    ⟨phase, _, filled, counters⟩ | @⟨k, _, phase, counters⟩
  · left
    cases more : state.pending with
    | nil =>
        have all := List.drop_eq_nil_iff.1 (counters.pending.symm.trans more)
        rw [counters.processed, List.take_of_length_le all]
    | cons blkCall rest => exact (stuck _ _ (.enter phase more)).elim
  · exact (stuck _ _ (.fill phase)).elim
  · exact (stuck _ _ (.offer phase)).elim
  · exact (stuck _ _ (.publish phase)).elim
  · refine (stuck _ _ (.serve filled.driverOk ?_)).elim
    rw [counters.idx, counters.taken]
    exact counter_succ_ne _
  · right
    have same : usedAfter pages (k + 1) = usedAfter pages k := by
      by_contra differ
      exact stuck _ _ (.leave phase (counters.used ▸ differ))
    cases k with
    | zero => exact ⟨same.symm, counters.processed⟩
    | succ k => exact (counter_succ_ne _ same).elim

end Reach

end Steps

/-! ## When the protocol is met -/

/-- The pages and the calls for which slot and index arithmetic of the two sides agree. -/
structure Aligned (pages : Vring) (calls : List BlkCall) : Prop where
  idx : pages.avail.idx = 0
  slot : pages.avail.ring 0 = 0
  /-- The driver would take the first used index for the one it has seen. -/
  used : pages.usedIdx ≠ 1 ∨ calls.length ≤ 1
  sectors : ∀ blkCall ∈ calls, blkCall.sector < word32

section Claims

variable {symbols : Symbols} {pages : Vring} {calls : List BlkCall}

theorem Aligned.conforms (aligned : Aligned pages calls) :
    Conforms symbols pages calls := by
  have sameRequest : ∀ blkCall ∈ calls,
      blkCall.written symbols = blkCall.request symbols :=
    fun blkCall member => BlkCall.written_eq_request.2
      (aligned.sectors blkCall member)
  have reach {events : List BlkEvent} {state : BlkState}
      (run : Run (BlkStep symbols) (blkStart pages calls) events state) :=
    Reach.run aligned.idx aligned.slot run
  refine ⟨fun events state run => ?_, fun events state run =>
    (reach run).bounded, fun events state run stuck => ?_⟩
  · obtain ⟨begun, _, _, _, _, counters⟩ := (reach run).counters
    have known : state.made.map (BlkCall.written symbols) =
        state.made.map (BlkCall.request symbols) := by
      rw [counters.made]
      exact List.map_congr_left fun blkCall member =>
        sameRequest blkCall (List.mem_of_mem_take member)
    exact known ▸ (reach run).ordered
  · rw [← List.map_congr_left sameRequest]
    rcases (reach run).final stuck with done | ⟨used, done⟩
    · exact done
    · have short : calls.length ≤ 1 := aligned.used.resolve_left
        (absurd used ·)
      rw [done, List.take_of_length_le short]

/-- Without calls nothing happens. -/
theorem run_blkStart_nil {events : List BlkEvent} {state : BlkState}
    (run : Run (BlkStep symbols) (blkStart pages []) events state) :
    events = [] ∧ state = blkStart pages [] := by
  induction run with
  | nil => exact ⟨rfl, rfl⟩
  | snoc _ taken induction =>
      obtain ⟨-, rfl⟩ := induction
      cases taken with
      | enter _ next => cases next
      | fill phase => cases phase
      | offer phase => cases phase
      | publish phase => cases phase
      | serve started _ => cases started
      | leave phase _ => cases phase

/-- The first call up to the notification of the device. -/
def firstPublished (symbols : Symbols) (pages : Vring) (blkCall : BlkCall)
    (rest : List BlkCall) : BlkState :=
  let entered : BlkState :=
    { blkStart pages (blkCall :: rest) with
      pending := rest
      made := [blkCall]
      phase := .entered blkCall pages.usedIdx }
  ((entered.fill symbols blkCall pages.usedIdx).offer pages.usedIdx).publish
    pages.usedIdx

theorem run_firstPublished (symbols : Symbols) (pages : Vring)
    (blkCall : BlkCall) (rest : List BlkCall) :
    Run (BlkStep symbols) (blkStart pages (blkCall :: rest))
      [.enter, .fill, .offer, .publish]
      (firstPublished symbols pages blkCall rest) :=
  .cons (.enter rfl rfl) (.cons (.fill rfl) (.cons (.offer rfl)
    (.single (.publish rfl))))

/-- A stale index is noticed at the first call already. -/
theorem Conforms.idx_eq_zero {blkCall : BlkCall} {rest : List BlkCall}
    (conforms : Conforms symbols pages (blkCall :: rest)) :
    pages.avail.idx = 0 := by
  have run := run_firstPublished symbols pages blkCall rest
  by_contra stale
  by_cases wrapped : pages.avail.idx + 1 = 0
  · have stuck : ∀ event next,
        ¬ BlkStep symbols (firstPublished symbols pages blkCall rest) event
          next := by
      intro event next taken
      cases taken with
      | enter phase => cases phase
      | fill phase => cases phase
      | offer phase => cases phase
      | publish phase => cases phase
      | serve _ behind => exact behind wrapped
      | leave phase used =>
          cases phase
          exact used rfl
    have done := conforms.complete _ _ run stuck
    cases done
  · have once := Run.snoc run (.serve rfl wrapped)
    have again : pages.avail.idx + 1 ≠ 0 + 1 :=
      fun same => stale (succ_injective same)
    have twice := Run.snoc once (.serve rfl again)
    have tooLong := (conforms.ordered _ _ twice).length_le
    simp [BlkState.serve, firstPublished, BlkState.publish, BlkState.offer,
      BlkState.fill, blkStart] at tooLong

theorem Conforms.slot_eq_zero {blkCall : BlkCall} {rest : List BlkCall}
    (conforms : Conforms symbols pages (blkCall :: rest)) :
    pages.avail.ring 0 = 0 := by
  have idx := conforms.idx_eq_zero
  have run := run_firstPublished symbols pages blkCall rest
  have behind : pages.avail.idx + 1 ≠ 0 := by
    rw [idx]
    decide
  have agrees := conforms.ordered _ _ (Run.snoc run (.serve rfl behind))
  have head : (firstPublished symbols pages blkCall rest).head =
      pages.avail.ring 0 := by
    simp [firstPublished, BlkState.head, BlkState.publish, BlkState.offer,
      BlkState.fill, blkStart, virtioBlkQueueInit, idx]
  have first : (firstPublished symbols pages blkCall rest).request symbols
      (firstPublished symbols pages blkCall rest).head =
        blkCall.request symbols :=
    (List.cons_prefix_cons.1 agrees).1
  rw [← head]
  exact congrArg Request.head first

/-- With the first used index on its page a driver waits for ever. -/
theorem Conforms.length_le_one {blkCall : BlkCall} {rest : List BlkCall}
    (conforms : Conforms symbols pages (blkCall :: rest))
    (used : pages.usedIdx = 1) : (blkCall :: rest).length ≤ 1 := by
  have idx := conforms.idx_eq_zero
  have run := run_firstPublished symbols pages blkCall rest
  have behind : pages.avail.idx + 1 ≠ 0 := by
    rw [idx]
    decide
  have served := Run.snoc run (.serve rfl behind)
  have stuck : ∀ event next, ¬ BlkStep symbols
      ((firstPublished symbols pages blkCall rest).serve symbols) event next := by
    intro event next taken
    cases taken with
    | enter phase => cases phase
    | fill phase => cases phase
    | offer phase => cases phase
    | publish phase => cases phase
    | serve _ ahead =>
        refine ahead ?_
        simp only [BlkState.serve, firstPublished, BlkState.publish,
          BlkState.offer, BlkState.fill, blkStart, virtioBlkQueueInit, idx]
    | leave phase changed =>
        cases phase
        exact changed used.symm
  have lengths := congrArg List.length (conforms.complete _ _ served stuck)
  simp only [BlkState.serve, firstPublished, BlkState.publish, BlkState.offer,
    BlkState.fill, blkStart, List.nil_append, List.length_singleton,
    List.length_map] at lengths
  exact lengths.ge

/-- Without truncation the headers are those of the calls. -/
theorem sectors_of_map_eq (symbols : Symbols)
    (same : calls.map (BlkCall.written symbols) =
      calls.map (BlkCall.request symbols)) :
    ∀ blkCall ∈ calls, blkCall.sector < word32 := fun blkCall member =>
  BlkCall.written_eq_request.1 (List.map_inj_left.1 same blkCall member)

/--
The device processes exactly one request for each call, in order, exactly when
the pages hold zeros where the driver takes them for granted and the sector
numbers have 32 bits.
-/
theorem conforms_iff :
    Conforms symbols pages calls ↔ calls = [] ∨ Aligned pages calls := by
  constructor
  · intro conforms
    rcases calls with _ | ⟨blkCall, rest⟩
    · exact Or.inl rfl
    have idx := conforms.idx_eq_zero
    have slot := conforms.slot_eq_zero
    have used : pages.usedIdx ≠ 1 ∨ (blkCall :: rest).length ≤ 1 := by
      by_cases held : pages.usedIdx = 1
      · exact Or.inr (conforms.length_le_one held)
      · exact Or.inl held
    obtain ⟨events, state, run, stuck⟩ := Run.exists_final conforms.bounded
    have asked := conforms.complete _ _ run stuck
    refine Or.inr ⟨idx, slot, used, sectors_of_map_eq symbols ?_⟩
    rcases (Reach.run idx slot run).final stuck with done | ⟨held, done⟩
    · exact done.symm.trans asked
    · rw [List.take_of_length_le (used.resolve_left (absurd held ·))] at done
      exact done.symm.trans asked
  · rintro (rfl | aligned)
    · refine ⟨fun events state run => ?_, fun events state run => ?_,
        fun events state run _ => ?_⟩ <;>
        obtain ⟨rfl, rfl⟩ := run_blkStart_nil run
      · exact List.prefix_rfl
      · exact Nat.zero_le _
      · rfl
    · exact aligned.conforms

end Claims

/-! ## A recycled page -/

/-- Pages full of zeros but for the first slot of the ring. -/
def recycledRing : Vring where
  desc := fun _ => { addr := 0, len := 0, flags := 0, next := 0 }
  avail := { flags := 0, idx := 0, ring := fun slot => if slot = 0 then 7 else 0 }
  usedIdx := 0

/-- Where the linker put the two variables. -/
def recycledSymbols : Symbols where
  virtioBlkReq := 0xffffffe000210000
  virtioBlkStatus := 0xffffffe000210010

/-- A read of sector `0`, as `virtio_blk_init` makes it. -/
def bootSector : BlkCall where
  type := .input
  sector := 0
  buf := 0xffffffe000280000

/-- The first request goes to the head that the page happened to hold. -/
theorem recycledRing_not_conforms :
    (∃ events state, Run (BlkStep recycledSymbols)
        (blkStart recycledRing [bootSector]) events state ∧
      state.processed.map Request.head = [7]) ∧
      ¬ Conforms recycledSymbols recycledRing [bootSector] := by
  constructor
  · exact ⟨_, _, Run.snoc (run_firstPublished _ _ bootSector [])
      (.serve rfl (by decide)), rfl⟩
  · intro conforms
    have slot := conforms.slot_eq_zero
    cases slot

end TinyRiscvOs.Fs
