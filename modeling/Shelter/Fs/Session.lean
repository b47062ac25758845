import Shelter.Fs.Dispatch
import Shelter.Fs.Passthrough
import Shelter.Lib.Run

/-!
# Sessions

The worker takes one message after the other from the queue. Between two of them the guest changes
its memory as it likes, so that a message comes with the memory it is found in. A reader or a writer
that cannot be built over the chain of a message panics, as an unwrap does in the worker.

At the end stands a small guest for the examples: a message at `0x100`, and buffers for the reply
from `0x800` on.
-/

open Bytes

namespace Shelter.Fs

open Virtio

variable {M F : Type} [GuestMemory M]

/-- A chain, and the memory of the guest when it is taken from the queue. -/
structure Message (M : Type) where
  mem : M
  head : DescriptorChain

namespace Server

/-- The part of `process_queue` between the queue operations. Errors of the server are logged. -/
def deliver (fs : FileSystem M F) (shm : Option VirtioShmRegion) (s : ServerState M F)
    (msg : Message M) : Option (ServerState M F) :=
  match Reader.new msg.mem msg.head, Writer.new msg.mem msg.head with
  | .ok r, .ok w => (handleMessage fs shm r w { s with mem := msg.mem }).map Prod.snd
  | _, _ => none

def session (fs : FileSystem M F) (shm : Option VirtioShmRegion) (s : ServerState M F)
    (msgs : List (Message M)) : Option (ServerState M F) := Run.run (deliver fs shm) s msgs

def start (cfg : Config) (procSelfFd : Fd) (m : M) : ServerState M Served :=
  ⟨⟨.new cfg procSelfFd, ⟨0, 0, []⟩⟩, 0, m, []⟩

variable {fs : FileSystem M F} {shm : Option VirtioShmRegion} {s s' : ServerState M F}

theorem deliver_cases {msg : Message M} (h : deliver fs shm s msg = some s') :
    ∃ r w res, Reader.new msg.mem msg.head = .ok r ∧ Writer.new msg.mem msg.head = .ok w ∧
      handleMessage fs shm r w { s with mem := msg.mem } = some (res, s') := by
  unfold deliver at h
  split at h
  · next r w hr hw =>
    obtain ⟨⟨res, s''⟩, hrun, rfl⟩ := Option.map_eq_some_iff.mp h
    exact ⟨r, w, res, hr, hw, hrun⟩
  · cases h

theorem leaves_session {R : F → F → Prop} (hfs : Follows fs R) {msgs : List (Message M)}
    (h : session fs shm s msgs = some s') : R s.fs s'.fs := by
  refine Run.run_invariant (P := fun t => R s.fs t.fs) (fun t msg t' ht hstep => ?_)
    (hfs.refl s.fs) h
  obtain ⟨r, w, res, -, -, hmsg⟩ := deliver_cases hstep
  have hfollows := leaves_handleMessage hfs hmsg
  exact hfs.trans ht hfollows

end Server

/-! ## A small guest -/

/-- Descriptors from the table entry `i` on, for buffers of these lengths from `a` on. -/
def replyDescriptors : ℕ → ℕ → List ℕ → List Descriptor
  | _, _, [] => []
  | i, a, len :: lens =>
    ⟨BitVec.ofNat 64 a, BitVec.ofNat 32 len, if lens = [] then 2 else 3, BitVec.ofNat 16 (i + 1)⟩ ::
      replyDescriptors (i + 1) (a + len) lens

theorem smallGuest_layout : LayoutOk [⟨0, 0x1000⟩] := by decide

variable (msg : List Byte)

def smallGuest (lens : List ℕ) : FlatMemory :=
  ((FlatMemory.zeroed [⟨0, 0x1000⟩] smallGuest_layout).put 0
    ((⟨0x100, BitVec.ofNat 32 msg.length, 1, 1⟩ :: replyDescriptors 1 0x800 lens).flatMap
      Descriptor.toBytes)).put 0x100 msg

def smallHead : DescriptorChain :=
  ⟨0, 8, 8, 0, 0x100, BitVec.ofNat 32 msg.length, 1, 1⟩

def smallMessage (lens : List ℕ) : Message FlatMemory :=
  ⟨smallGuest msg lens, smallHead msg⟩

/-- A request of the process 1 with this user and group, about `nodeid`. -/
def requestBytes (opcode : U32) (nodeid : U64) (uid gid : U32) (body : List Byte) : List Byte :=
  le (BitVec.ofNat 32 (40 + body.length)) ++ le opcode ++ le (7 : U64) ++ le nodeid ++ le uid ++
    le gid ++ le (1 : U32) ++ le (0 : U32) ++ body

/-- `INIT` of the protocol that the server speaks, without flags. -/
def initBytes : List Byte :=
  requestBytes 26 0 0 0 (le (7 : U32) ++ le (27 : U32) ++ le (0 : U32) ++ le (0 : U32))

def calmHost : Host where
  fd n := .ok (n + 10)
  unit _ := .ok ()
  closed _ := .ok ()
  anonymous _ := .ok ()
  count _ := .ok 0
  stat _ := .ok .zero
  statvfs _ := .ok ⟨0, 0, 0, 0, 0, 0, 0, 0⟩
  bytes _ := .ok []
  dirents _ := .ok []
  content _ := []
  initBinary := []
  closed_ne_einval _ := nofun
  anonymous_ne_einval _ := nofun

def smallConfig : Config where
  entryTimeout := ⟨5, 0⟩
  attrTimeout := ⟨5, 0⟩
  cachePolicy := .auto
  writeback := false
  rootDir := [47]
  xattr := false
  rootDir_nul := by decide

end Shelter.Fs
