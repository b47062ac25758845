import Shelter.Virtio.MmioStatus

/-!
# The registers of the queues

The driver configures a queue through eight registers that act on the queue it has selected. The
transport is run here next to the log of the register writes that counted, those made while
`FEATURES_OK` was set and `FAILED` was not; a reset empties the log. `queues_last_written` says
that the configuration of each queue is a function of the log: each register holds what was
written to it last while the queue was selected.
-/

open Bytes Run

namespace Shelter.Virtio

open DeviceStatus MmioTransport BitVec Option

/-! ## Registers -/

/-- The parts of a queue that lie in guest memory. -/
inductive QueuePart
  | descTable
  | availRing
  | usedRing
  deriving DecidableEq, Repr

inductive QueueReg
  | size
  | ready
  | low (part : QueuePart)
  | high (part : QueuePart)
  deriving DecidableEq, Repr

namespace QueuePart

def address (q : Queue) : QueuePart → U64
  | descTable => q.descTable
  | availRing => q.availRing
  | usedRing => q.usedRing

end QueuePart

variable (s : MmioTransport)

namespace QueueReg

def offset : QueueReg → ℕ
  | size => 0x38
  | ready => 0x44
  | low .descTable => 0x80
  | high .descTable => 0x84
  | low .availRing => 0x90
  | high .availRing => 0x94
  | low .usedRing => 0xa0
  | high .usedRing => 0xa4

def ofOffset : ℕ → Option QueueReg
  | 0x38 => some size
  | 0x44 => some ready
  | 0x80 => some (low .descTable)
  | 0x84 => some (high .descTable)
  | 0x90 => some (low .availRing)
  | 0x94 => some (high .availRing)
  | 0xa0 => some (low .usedRing)
  | 0xa4 => some (high .usedRing)
  | _ => none

def set (q : Queue) (v : U32) : QueueReg → Queue
  | size => { q with size := v.setWidth 16 }
  | ready => { q with ready := v == 1 }
  | low .descTable => { q with descTable := lo q.descTable v }
  | high .descTable => { q with descTable := hi q.descTable v }
  | low .availRing => { q with availRing := lo q.availRing v }
  | high .availRing => { q with availRing := hi q.availRing v }
  | low .usedRing => { q with usedRing := lo q.usedRing v }
  | high .usedRing => { q with usedRing := hi q.usedRing v }

def get (q : Queue) : QueueReg → U32
  | size => q.size.setWidth 32
  | ready => if q.ready then 1 else 0
  | low part => (part.address q).extractLsb' 0 32
  | high part => (part.address q).extractLsb' 32 32

variable {n : ℕ} {r : QueueReg}

theorem offset_of_ofOffset (h : ofOffset n = some r) : n = r.offset := by
  unfold ofOffset at h
  split at h
  case h_9 => cases h
  all_goals
    cases h
    rfl

theorem ofOffset_of_queueField {f : U32 → Queue → Queue} (h : queueField n = some f) :
    ∃ r, ofOffset n = some r := by
  unfold queueField at h
  split at h
  case h_9 => cases h
  all_goals exact ⟨_, rfl⟩

theorem writeRegister_offset (r : QueueReg) (v : U32) :
    s.writeRegister r.offset v = some (s.updateQueueField fun q => r.set q v) := by
  rcases r with _ | _ | (_ | _ | _) | (_ | _ | _) <;> rfl

theorem offset_le (r : QueueReg) : r.offset ≤ 0xff := by
  rcases r with _ | _ | (_ | _ | _) | (_ | _ | _) <;> decide

theorem append_halves (a : U64) : a.extractLsb' 32 32 ++ a.extractLsb' 0 32 = a := by
  rw [@extractLsb'_append_extractLsb'_eq_extractLsb' 64 32 0 32 32 a rfl]
  exact extractLsb'_eq_self

theorem lo_append (h l v : U32) : lo (h ++ l) v = h ++ v := by
  have hmask : ~~~(0xffffffff : U64) = BitVec.allOnes 32 ++ 0#32 := by decide
  have hv : v.setWidth 64 = 0#32 ++ v := setWidth_eq_append (by decide)
  unfold lo
  rw [hmask, hv, and_append, or_append, and_allOnes, and_zero,
    or_zero, zero_or]

theorem hi_append (h l v : U32) : hi (h ++ l) v = v ++ l := by
  have hmask : ((0xffffffff : ℕ) : U64) = 0#32 ++ BitVec.allOnes 32 := by decide
  have hv : v.setWidth 64 <<< 32 = v ++ 0#32 := by
    have h := @setWidth_append_eq_shiftLeft_setWidth_or 32 32 64 v 0#32
    rw [setWidth_zero, or_zero] at h
    rw [← h, setWidth_eq]
  unfold hi
  rw [hmask, hv, and_append, or_append, and_allOnes, and_zero,
    or_zero, zero_or]

@[simp] theorem low_append (h l : U32) : (h ++ l : U64).extractLsb' 0 32 = l :=
  extractLsb'_append_eq_right

@[simp] theorem high_append (h l : U32) : (h ++ l : U64).extractLsb' 32 32 = h :=
  extractLsb'_append_eq_left

@[simp] theorem high_lo (a : U64) (v : U32) : (lo a v).extractLsb' 32 32 = a.extractLsb' 32 32 := by
  rw [← append_halves a, lo_append, high_append, high_append]

@[simp] theorem low_hi (a : U64) (v : U32) : (hi a v).extractLsb' 0 32 = a.extractLsb' 0 32 := by
  rw [← append_halves a, hi_append, low_append, low_append]

theorem get_set_ne {r' : QueueReg} (h : r' ≠ r) (q : Queue) (v : U32) :
    r'.get (r.set q v) = r'.get q := by
  rcases r with _ | _ | (_ | _ | _) | (_ | _ | _) <;>
    rcases r' with _ | _ | (_ | _ | _) | (_ | _ | _) <;>
      first
      | rfl
      | exact absurd rfl h
      | exact high_lo _ v
      | exact low_hi _ v

end QueueReg

/-! ## The log -/

/-- A register write that counted, with the queue that was selected. -/
structure RegWrite where
  queue : U32
  reg : QueueReg
  value : U32
  deriving DecidableEq, Repr

variable (log : List RegWrite)

/-- What was written last to a register of queue `i`. The log has the latest write first. -/
def lastTo (i : ℕ) (r : QueueReg) : Option U32 :=
  (log.find? fun w => w.queue.toNat = i ∧ w.reg = r).map RegWrite.value

def addressOf (i : ℕ) (part : QueuePart) : U64 :=
  (lastTo log i (.high part)).getD 0 ++ (lastTo log i (.low part)).getD 0

/-- The configuration that the writes to queue `i` describe. -/
def configOf (i : ℕ) : MmioTransport.QueueConfig where
  size := ((lastTo log i .size).getD 0).setWidth 16
  ready := lastTo log i .ready == some 1
  descTable := addressOf log i .descTable
  availRing := addressOf log i .availRing
  usedRing := addressOf log i .usedRing

theorem lastTo_cons_self (w : RegWrite) (log : List RegWrite) :
    lastTo (w :: log) w.queue.toNat w.reg = some w.value := by
  simp [lastTo]

variable {w : RegWrite} {i : ℕ}

theorem lastTo_cons_reg {r : QueueReg} (h : w.reg ≠ r) (log : List RegWrite) (i : ℕ) :
    lastTo (w :: log) i r = lastTo log i r := by
  simp [lastTo, h]

theorem lastTo_cons_queue (h : w.queue.toNat ≠ i) (log : List RegWrite) (r : QueueReg) :
    lastTo (w :: log) i r = lastTo log i r := by
  simp [lastTo, h]

theorem configOf_cons_queue (h : w.queue.toNat ≠ i) (log : List RegWrite) :
    configOf (w :: log) i = configOf log i := by
  unfold configOf addressOf
  simp only [lastTo_cons_queue h]

theorem queueConfig_new (maxSize : U16) (i : ℕ) :
    queueConfig (Queue.new maxSize) = configOf [] i := by
  simp [queueConfig, Queue.new, configOf, addressOf, lastTo]

theorem queueConfig_set {q : Queue} (w : RegWrite) {log : List RegWrite}
    (h : queueConfig q = configOf log w.queue.toNat) :
    queueConfig (w.reg.set q w.value) = configOf (w :: log) w.queue.toNat := by
  obtain ⟨i, r, v⟩ := w
  have hself := lastTo_cons_self ⟨i, r, v⟩ log
  simp only [configOf, queueConfig, MmioTransport.QueueConfig.mk.injEq,
    addressOf] at h ⊢
  obtain ⟨hsize, hready, hdesc, havail, hused⟩ := h
  rcases r with _ | _ | (_ | _ | _) | (_ | _ | _) <;>
    simp [hself, lastTo_cons_reg, QueueReg.set, hsize, hready, hdesc, havail, hused,
      QueueReg.lo_append, QueueReg.hi_append]

namespace MmioTransport

/-- The register write that an access makes, if it is one that counts. -/
def regWrite : Access → Option RegWrite
  | .read _ _ => none
  | .write offset data =>
    if data.length = 4 ∧ s.checkDeviceStatus featuresOk failed then
      (QueueReg.ofOffset offset).map fun reg => ⟨s.queueSelect, reg, readLeU32 data⟩
    else none

/-- A transport with the log of its register writes. -/
structure Logged where
  transport : MmioTransport
  log : List RegWrite

namespace Logged

def logAfter (s : Logged) (a : Access) : List RegWrite :=
  if CompletesReset s.transport a then []
  else
    match s.transport.regWrite a with
    | some w => w :: s.log
    | none => s.log

def step (s : Logged) (a : Access) : Option Logged :=
  (s.transport.access a).map fun t => ⟨t, s.logAfter a⟩

def Agrees (s : Logged) : Prop :=
  ∀ i, ∀ q ∈ s.transport.device.queues[i]?, queueConfig q = configOf s.log i

end Logged

/-! ## One access -/

variable {s s' : MmioTransport} {a : Access}

theorem access_of_regWrite (h : s.regWrite a = some w) :
    w.queue = s.queueSelect ∧ s.access a = some (s.withQueueMut fun q => w.reg.set q w.value) := by
  cases a with
  | read offset data => cases h
  | write offset data =>
    simp only [regWrite] at h
    split_ifs at h with hg
    obtain ⟨r, hr, rfl⟩ := map_eq_some_iff.mp h
    obtain rfl := QueueReg.offset_of_ofOffset hr
    refine ⟨rfl, ?_⟩
    show s.write r.offset data = _
    unfold write
    rw [if_pos ⟨r.offset_le, hg.1⟩, QueueReg.writeRegister_offset]
    unfold updateQueueField
    rw [if_pos hg.2]

theorem queueConfig_setEventIdx (queues : List Queue) (indices : List ℕ) (enabled : Bool) :
    (Device.setEventIdx queues indices enabled).map queueConfig = queues.map queueConfig := by
  refine List.ext_getElem? fun j => ?_
  simp only [Device.setEventIdx, List.getElem?_map, List.getElem?_mapIdx]
  cases queues[j]? with
  | none => rfl
  | some q => simp only [map_some]; split_ifs <;> rfl

theorem queueConfig_activate {d d' : Device} (h : d.activate = some d') :
    d'.queues.map queueConfig = d.queues.map queueConfig := by
  unfold Device.activate at h
  split_ifs at h
  cases h
  exact queueConfig_setEventIdx _ _ _

theorem queueConfig_setDeviceStatus {v : U32} (h : s.setDeviceStatus v = some s')
    (hn : v = 0 → s.requestReset.deviceStatus ≠ init) :
    s'.device.queues.map queueConfig = s.device.queues.map queueConfig := by
  rw [setDeviceStatus_eq] at h
  split_ifs at h with _ _ _ h0
  · obtain ⟨d, hd, rfl⟩ := map_eq_some_iff.mp h
    exact queueConfig_activate hd
  all_goals cases h
  · rfl
  · rfl
  · rw [(requestReset_device (hn h0)).2]
  · rfl

theorem queueConfig_of_access (h : s.access a = some s') (hw : s.regWrite a = none)
    (hn : ¬ CompletesReset s a) :
    s'.device.queues.map queueConfig = s.device.queues.map queueConfig := by
  cases effect_of_access h with
  | quiet _ _ hd _ _ _ => rw [hd]
  | ack data _ _ => rfl
  | queue offset data f hl hf hg =>
    obtain ⟨r, hr⟩ := QueueReg.ofOffset_of_queueField hf
    rw [regWrite, if_pos ⟨hl, hg⟩, hr] at hw
    cases hw
  | status data _ hl hset =>
    exact queueConfig_setDeviceStatus hset fun h0 he => hn ⟨by rw [statusWrite_write hl, h0], he⟩

theorem queues_requestReset (h : s.requestReset.deviceStatus = init) :
    s.requestReset.device.queues = s.device.queues.map fun q => Queue.new q.getMaxSize := by
  by_cases hf : s.resetBackend.deviceStatus &&& failed = 0
  · have he : s.requestReset = s.resetBackend.reset := if_pos hf
    rw [he]
    show s.resetBackend.device.queues.map _ = _
    rw [s.resetBackend_device.2.1]
  · have he : s.requestReset = s.resetBackend := if_neg hf
    rw [he] at h
    exact absurd (by rw [h]; rfl) hf

theorem queues_of_completesReset (h : s.access a = some s') (hr : CompletesReset s a) :
    s'.device.queues = s.device.queues.map fun q => Queue.new q.getMaxSize := by
  obtain ⟨hw, hi⟩ := hr
  unfold statusWrite at hw
  split at hw
  · split_ifs at hw with hl
    rename_i data
    have h : s.write 0x70 data = some s' := h
    unfold write at h
    rw [if_pos ⟨by decide, hl⟩] at h
    have h : s.setDeviceStatus (readLeU32 data) = some s' := h
    rw [Option.some.inj hw, setDeviceStatus_eq] at h
    have hadv : ¬ Advances s.deviceStatus 0 := by
      unfold Advances nextBit
      rw [show ~~~s.deviceStatus &&& 0 = 0 from and_zero]
      split_ifs <;> decide
    rw [if_neg hadv, if_neg (by decide), if_pos rfl] at h
    rw [← Option.some.inj h]
    exact queues_requestReset hi
  · cases hw

theorem getElem?_withQueueMut (s : MmioTransport) (f : Queue → Queue) (i : ℕ) :
    (s.withQueueMut f).device.queues[i]? =
      (fun q => if s.queueSelect.toNat = i then f q else q) <$> s.device.queues[i]? :=
  List.getElem?_modify ..

/-! ## Runs -/

namespace Logged

theorem agrees_step {s s' : Logged} (hs : s.Agrees) (h : s.step a = some s') : s'.Agrees := by
  obtain ⟨t, ht, rfl⟩ := map_eq_some_iff.mp h
  intro i q hq
  by_cases hr : CompletesReset s.transport a
  · -- all queues and the log start anew
    rw [queues_of_completesReset ht hr, List.getElem?_map] at hq
    obtain ⟨q₀, _, rfl⟩ := map_eq_some_iff.mp hq
    rw [show s.logAfter a = [] from if_pos hr]
    exact queueConfig_new _ i
  · have hlog : s.logAfter a = match s.transport.regWrite a with
        | some w => w :: s.log
        | none => s.log := if_neg hr
    rcases hw : s.transport.regWrite a with _ | w <;> rw [hw] at hlog <;> rw [hlog]
    · have hi := congrArg (·[i]?) (queueConfig_of_access ht hw hr)
      simp only [List.getElem?_map] at hi
      rw [show t.device.queues[i]? = some q from hq] at hi
      obtain ⟨q₀, hq₀, he⟩ := map_eq_some_iff.mp hi.symm
      rw [← he]
      exact hs i q₀ hq₀
    · obtain ⟨hsel, hacc⟩ := access_of_regWrite hw
      cases ht.symm.trans hacc
      rw [getElem?_withQueueMut, ← hsel] at hq
      obtain ⟨q₀, hq₀, rfl⟩ := map_eq_some_iff.mp hq
      by_cases hi : w.queue.toNat = i
      · subst hi
        rw [if_pos rfl]
        exact queueConfig_set w (hs _ q₀ hq₀)
      · rw [if_neg hi, configOf_cons_queue hi]
        exact hs i q₀ hq₀

theorem agrees_fresh (kind : DeviceKind) (features : U64) (config : List Byte)
    (shm : Option VirtioShmRegion) (evts : List U32) :
    (⟨fresh kind features config shm evts, []⟩ : Logged).Agrees := by
  intro i q hq
  have hq : (kind.queueSizes.map Queue.new)[i]? = some q := hq
  rw [List.getElem?_map] at hq
  obtain ⟨size, _, rfl⟩ := map_eq_some_iff.mp hq
  exact queueConfig_new size i

end Logged

/-- Nothing but the register `r` differs. -/
structure OnlyReg (r : QueueReg) (q q' : Queue) : Prop where
  regs : ∀ r' ≠ r, r'.get q' = r'.get q
  rest : { q' with
    size := q.size, ready := q.ready, descTable := q.descTable, availRing := q.availRing,
    usedRing := q.usedRing } = q

theorem onlyReg_set (r : QueueReg) (q : Queue) (v : U32) : OnlyReg r q (r.set q v) := by
  refine ⟨fun r' h => QueueReg.get_set_ne h q v, ?_⟩
  rcases r with _ | _ | (_ | _ | _) | (_ | _ | _) <;> rfl

/-- What a register write leaves alone: with a selection that is out of range everything, and
otherwise the other queues and the other registers of the selected one. -/
structure WriteFrame (s : MmioTransport) (w : RegWrite) (s' : MmioTransport) : Prop where
  outOfRange : s.device.queues.length ≤ w.queue.toNat → s' = s
  queues : ∀ i, i ≠ w.queue.toNat → s'.device.queues[i]? = s.device.queues[i]?
  regs : ∀ q ∈ s.device.queues[w.queue.toNat]?,
    ∃ q' ∈ s'.device.queues[w.queue.toNat]?, OnlyReg w.reg q q'

theorem writeFrame_of_access (hw : s.regWrite a = some w) (h : s.access a = some s') :
    WriteFrame s w s' := by
  obtain ⟨hsel, hacc⟩ := access_of_regWrite hw
  cases h.symm.trans hacc
  refine ⟨fun hle => ?_, fun i hi => ?_, fun q hq => ?_⟩
  · rw [hsel] at hle
    unfold withQueueMut
    rw [List.modify_eq_self hle]
  · rw [getElem?_withQueueMut, ← hsel]
    cases s.device.queues[i]? with
    | none => rfl
    | some q => exact congrArg some (if_neg (Ne.symm hi))
  · refine ⟨_, ?_, onlyReg_set w.reg q w.value⟩
    rw [getElem?_withQueueMut, show s.device.queues[w.queue.toNat]? = some q from hq, hsel]
    exact congrArg some (if_pos rfl)

/-- **Queue registers.** After every run the configuration of each queue is made of the values
written last to its registers since the last reset, by the writes that were made with
`FEATURES_OK` set and `FAILED` clear while it was selected. No such write has any other effect. -/
theorem queues_last_written (kind : DeviceKind) (features : U64) (config : List Byte)
    (shm : Option VirtioShmRegion) (evts : List U32) (es : List Access) :
    (∀ s, run Logged.step ⟨fresh kind features config shm evts, []⟩ es = some s →
      ∀ i < s.transport.device.queues.length, s.transport.configAt i = some (configOf s.log i)) ∧
    Along Logged.step (fun s a => ∀ s' w, s.step a = some s' → s.transport.regWrite a = some w →
        WriteFrame s.transport w s'.transport)
      ⟨fresh kind features config shm evts, []⟩ es := by
  constructor
  · intro s hs i hi
    have hagrees : s.Agrees :=
      run_invariant (fun _ _ _ => Logged.agrees_step)
        (Logged.agrees_fresh kind features config shm evts) hs
    unfold configAt
    rw [List.getElem?_eq_getElem hi, map_some, hagrees i _ (List.getElem?_eq_getElem hi)]
  · refine (along_true _ es).mono fun s a _ s' w h hw => ?_
    obtain ⟨t, ht, rfl⟩ := map_eq_some_iff.mp h
    exact writeFrame_of_access hw ht

/-- A driver that writes both halves of an address, and a queue that does not exist in between. -/
def halvesWritten : List Access :=
  initWrites ++ [writeU32 0x84 1, writeU32 0x30 7, writeU32 0x84 9, writeU32 0x30 0,
    writeU32 0x80 0x200]

theorem queues_last_written_halves :
    (run Logged.step ⟨rngTransport, []⟩ halvesWritten).isSome = true ∧
    ∀ s, run Logged.step ⟨rngTransport, []⟩ halvesWritten = some s →
      ∀ i < s.transport.device.queues.length, s.transport.configAt i = some (configOf s.log i) :=
  ⟨by decide +kernel, (queues_last_written .rng 0x100000000 [] none [0] halvesWritten).1⟩

end MmioTransport

end Shelter.Virtio
